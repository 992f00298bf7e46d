import LiveTemplate.Proofs.Conduct
import LiveTemplate.Proofs.Scattering
import LiveTemplate.Proofs.Tidying

/-!
# Forests while they are being built

Rendering gathers children in a fragment of its own and hands them to a new
element.  What it puts there was named by a template or by a view, or was made
on the way; what it puts it into has been made for the purpose.  As long as
nothing that is named comes to be around what is being built, no cycle can be
closed.

`World.Builds` is this invariant, for the nodes that the passes under way are
building.  The code of a client is called in between; `Host.KeepsForests` asks
of transforms that they keep the invariant, and passes do then.
-/

namespace LiveTemplate

variable {σ : Type}

/-- A node is a child of a template. -/
def World.Offers (world : World σ) (n : NodeId) : Prop :=
  ∃ t, .node n ∈ (world.template t).blueprint.children

/-- A node is a child of a template or the element of a view. -/
def World.Mentions (world : World σ) (n : NodeId) : Prop :=
  world.Offers n ∨ ∃ v, (world.view v).element = some n

/-- The document is a forest, what is named is there, and so are the nodes
being built; nothing named is around them, and none of them is around another. -/
structure World.Builds (built : List NodeId) (world : World σ) : Prop where
  forest : world.dom.IsForest
  named : ∀ n, world.Mentions n → n.index < world.dom.nodes.size
  there : ∀ n ∈ built, n.index < world.dom.nodes.size
  apart : ∀ n ∈ built, ∀ outer, world.dom.Inside outer n →
    ¬world.Mentions outer ∧ (outer ∈ built → outer = n)

/-- Each of some nodes is held by a computation under way. -/
def HeldBy (frames : List Frame) (built : List NodeId) : Prop :=
  ∀ n ∈ built, .refs [.node n] ∈ frames

/-- The children of templates stay, and nodes that are held and being built
are so later on. -/
structure World.Carries (built : List NodeId) (world later : World σ) :
    Prop where
  frames : later.frames = world.frames
  offers : ∀ n, world.Offers n → later.Offers n
  builds : HeldBy world.frames built → world.Builds built → later.Builds built

/-- Transforms keep forests, and keep apart from what is named the nodes that
are being built around them. -/
def Host.KeepsForests (host : Host σ) : Prop :=
  ∀ handler value node built,
    (host.transform handler value node).Within (World.Carries built)

namespace Dom

variable {dom later : Dom}

theorem children_of_size_le {n : NodeId} (beyond : dom.nodes.size ≤ n.index) :
    dom.children n = [] := by
  rw [List.eq_nil_iff_forall_not_mem]
  intro child member
  exact absurd (lt_size_of_child member) (Nat.not_lt.mpr beyond)

/-- A text that is written comes with at most one new node, without children. -/
theorem children_setText_subset (dom : Dom) (n : NodeId) (data : String) :
    ∃ made : NodeId, dom.nodes.size ≤ made.index ∧ ∀ m,
      ∀ child ∈ (dom.setText n data).children m,
        child ∈ dom.children m ∨ m = n ∧ child ∈ [made] := by
  have cleared (m : NodeId) : (dom.clearChildren n).children m ⊆
      dom.children m := by
    rw [children_clearChildren]
    split
    · exact List.nil_subset _
    · exact List.Subset.refl _
  refine ⟨((dom.clearChildren n).create (.text data)).1,
    dom.size_le_clearChildren n, fun m child member => ?_⟩
  cases text : dom.isText n with
  | true =>
      rw [setText_text text, children_setKind] at member
      exact .inl member
  | false =>
      rw [setText_other text] at member
      split at member
      · exact .inl (cleared m member)
      · rcases children_insertBefore_subset _ _ _ _ m child member with
          old | ⟨here, moved⟩
        · rw [children_create] at old
          exact .inl (cleared m old)
        · have text : ((dom.clearChildren n).create (.text data)).2.isFragment
              ((dom.clearChildren n).create (.text data)).1 = false := by
            simp [isFragment, kind, node_create_self]
          rw [Dom.moved, text] at moved
          exact .inr ⟨here, moved⟩

theorem inside_setText {n outer inner : NodeId} {data : String}
    (old : inner.index < dom.nodes.size)
    (inside : (dom.setText n data).Inside outer inner) :
    dom.Inside outer inner := by
  obtain ⟨made, new, children⟩ := dom.children_setText_subset n data
  rcases inside.graft children with before | ⟨_, m, member, below⟩
  · exact before
  · rw [List.mem_singleton.mp member] at below
    rw [below.eq_of_childless (children_of_size_le new)] at old
    exact absurd new (Nat.not_le.mpr old)

theorem size_le_setKind (dom : Dom) (n : NodeId) (kind : NodeKind) :
    dom.nodes.size ≤ (dom.setKind n kind).nodes.size :=
  size_le_modify _ _ _

theorem size_le_modifyAttributes (dom : Dom) (n : NodeId)
    (change : List Attribute → List Attribute) :
    dom.nodes.size ≤ (dom.modifyAttributes n change).nodes.size := by
  unfold modifyAttributes
  split
  · exact size_le_setKind _ _ _
  · exact Nat.le_refl _

theorem size_le_insertBefore (dom : Dom) (parent child : NodeId)
    (reference : Option NodeId) :
    dom.nodes.size ≤ (dom.insertBefore parent child reference).nodes.size := by
  have placed (nodes : List NodeId) (dom : Dom) :
      dom.nodes.size ≤ (nodes.foldl
        (fun dom moved => dom.place parent moved reference) dom).nodes.size := by
    induction nodes generalizing dom with
    | nil => exact Nat.le_refl _
    | cons first rest ih =>
        exact Nat.le_trans (size_le_place_before dom parent first reference)
          (ih _)
  unfold insertBefore
  split
  · exact Nat.le_refl _
  split
  · exact Nat.le_trans (size_le_clearChildren dom child) (placed _ _)
  · exact size_le_place_before dom parent child reference

theorem size_le_removeChild (dom : Dom) (parent child : NodeId) :
    dom.nodes.size ≤ (dom.removeChild parent child).nodes.size := by
  unfold removeChild
  split
  · exact Nat.le_trans (size_le_modify _ _ _) (size_le_modify _ _ _)
  · exact Nat.le_refl _

theorem size_le_create (dom : Dom) (made : NodeKind) :
    dom.nodes.size ≤ (dom.create made).2.nodes.size := by
  rw [size_create]
  exact Nat.le_succ _

theorem size_le_setText (dom : Dom) (n : NodeId) (data : String) :
    dom.nodes.size ≤ (dom.setText n data).nodes.size := by
  cases text : dom.isText n with
  | true =>
      rw [setText_text text]
      exact size_le_setKind _ _ _
  | false =>
      rw [setText_other text]
      split
      · exact size_le_clearChildren dom n
      · exact Nat.le_trans (size_le_clearChildren dom n)
          (Nat.le_trans (size_le_create _ _) (size_le_insertBefore _ _ _ _))

end Dom

namespace World.Builds

variable {built : List NodeId} {world later : World σ}

theorem mono (builds : world.Builds built) (forest : later.dom.IsForest)
    (named : ∀ n, later.Mentions n → world.Mentions n)
    (size : world.dom.nodes.size ≤ later.dom.nodes.size)
    (inside : ∀ n ∈ built, ∀ outer, later.dom.Inside outer n →
      world.dom.Inside outer n) : later.Builds built where
  forest := forest
  named n mentioned := Nat.lt_of_lt_of_le (builds.named n (named n mentioned))
    size
  there n member := Nat.lt_of_lt_of_le (builds.there n member) size
  apart n member outer around := by
    obtain ⟨unnamed, only⟩ := builds.apart n member outer
      (inside n member outer around)
    exact ⟨fun mentioned => unnamed (named outer mentioned), only⟩

theorem of_same (builds : world.Builds built) (dom : later.dom = world.dom)
    (named : ∀ n, later.Mentions n → world.Mentions n) :
    later.Builds built := by
  refine builds.mono (dom ▸ builds.forest) named (by rw [dom])
    fun n _ outer inside => ?_
  rw [dom] at inside
  exact inside

/-- Only the document changes. -/
theorem of_dom {dom : Dom} (builds : world.Builds built)
    (forest : dom.IsForest) (size : world.dom.nodes.size ≤ dom.nodes.size)
    (inside : ∀ n ∈ built, ∀ outer, dom.Inside outer n →
      world.dom.Inside outer n) :
    World.Builds built { world with dom := dom } := by
  exact builds.mono forest (fun _ mentioned => mentioned) size inside

theorem subset (builds : world.Builds built) {fewer : List NodeId}
    (among : fewer ⊆ built) : world.Builds fewer where
  forest := builds.forest
  named := builds.named
  there n member := builds.there n (among member)
  apart n member outer inside := by
    obtain ⟨unnamed, only⟩ := builds.apart n (among member) outer inside
    exact ⟨unnamed, fun other => only (among other)⟩

theorem tail {n : NodeId} (builds : world.Builds (n :: built)) :
    world.Builds built := by
  exact builds.subset fun _ member => .tail _ member

/-- What is held makes no difference. -/
theorem held (builds : world.Builds built) (frames : List Frame) :
    (world.holding frames).Builds built := by
  exact builds.of_same rfl fun _ mentioned => mentioned

/-- Something that nothing being built is inside of is put at the end of a
node that is being built. -/
theorem append (builds : world.Builds built) {parent child : NodeId}
    (member : parent ∈ built)
    (outside : ∀ n ∈ built, ¬world.dom.Inside child n) :
    World.Builds built
      { world with dom := world.dom.appendChild parent child } := by
  have apart : ∀ n ∈ built, ∀ m ∈ world.dom.moved child,
      ¬world.dom.Inside m n := by
    intro n underway m moved inside
    unfold Dom.moved at moved
    split at moved
    · exact outside n underway (.under moved inside)
    · rw [List.mem_singleton.mp moved] at inside
      exact outside n underway inside
  refine builds.of_dom (builds.forest.insertBefore (fun _ => ?_) none)
    (Dom.size_le_insertBefore _ _ _ _) fun n underway outer inside => ?_
  · exact fun m moved => apart parent member m moved
  · rcases inside.graft (Dom.children_insertBefore_subset _ _ _ _) with
      before | ⟨_, m, moved, below⟩
    · exact before
    · exact absurd below (apart n underway m moved)

/-- What is named may be put into what is being built. -/
theorem append_named (builds : world.Builds built) {parent child : NodeId}
    (member : parent ∈ built) (named : world.Mentions child) :
    World.Builds built
      { world with dom := world.dom.appendChild parent child } := by
  refine builds.append member fun n underway inside => ?_
  exact (builds.apart n underway child inside).1 named

/-- So may what has just been built. -/
theorem append_built {parent child : NodeId}
    (builds : world.Builds (child :: built)) (member : parent ∈ built)
    (other : child ∉ built) :
    World.Builds built
      { world with dom := world.dom.appendChild parent child } := by
  refine builds.tail.append member fun n underway inside => other ?_
  rw [(builds.apart n (.tail _ underway) child inside).2 (.head _)]
  exact underway

theorem create (builds : world.Builds built) (kind : NodeKind) :
    (createNode kind : Act σ NodeId).result world ∉ built ∧
      ((createNode kind).after world).Builds
        ((createNode kind : Act σ NodeId).result world :: built) := by
  obtain ⟨made, result⟩ :
      ∃ made, made = (createNode kind : Act σ NodeId).result world := ⟨_, rfl⟩
  rw [← result]
  have index : made.index = world.dom.nodes.size := by
    rw [result]
    rfl
  have other : made ∉ built := fun member =>
    absurd (builds.there made member) (by rw [index]; exact Nat.lt_irrefl _)
  have unnamed : ¬world.Mentions made := fun mentioned =>
    absurd (builds.named made mentioned) (by rw [index]; exact Nat.lt_irrefl _)
  have size := Dom.size_create world.dom kind
  have children (n : NodeId) :
      ((createNode kind).after world).dom.children n =
        world.dom.children n :=
    Dom.children_create world.dom kind n
  have subset (n : NodeId) : ((createNode kind).after world).dom.children n ⊆
      world.dom.children n := by
    rw [children]
    exact List.Subset.refl _
  have old := builds.of_dom (builds.forest.create kind)
    (Dom.size_le_create _ _) fun n _ outer inside => inside.mono subset
  refine ⟨other, old.forest, old.named, fun n member => ?_,
    fun n member outer inside => ?_⟩
  · rcases List.mem_cons.mp member with rfl | before
    · show n.index < (world.dom.create kind).2.nodes.size
      rw [size, index]
      exact Nat.lt_succ_self _
    · exact old.there n before
  · have around := inside.mono subset
    rcases List.mem_cons.mp member with rfl | before
    · rcases around.parent with rfl | ⟨parent, _, among⟩
      · exact ⟨unnamed, fun _ => rfl⟩
      · have found := (builds.forest.tidy.linked parent n).mp among
        have alone := Dom.parent?_next world.dom kind
        rw [result] at found
        rw [show (world.dom.create kind).1 =
          (createNode kind : Act σ NodeId).result world from rfl, found] at alone
        cases alone
    · obtain ⟨unnamed, only⟩ := builds.apart n before outer around
      refine ⟨unnamed, fun among => ?_⟩
      rcases List.mem_cons.mp among with rfl | inside
      · have childless : world.dom.children outer = [] :=
          Dom.children_of_size_le (Nat.le_of_eq index.symm)
        exact (around.eq_of_childless childless).symm
      · exact only inside

theorem setElement {n : NodeId} (builds : world.Builds (n :: built))
    (other : n ∉ built) (v : ViewId) :
    ((View.update v fun view =>
      { view with element := some n, rendered := true }).after world).Builds
        built := by
  have named (m : NodeId)
      (mentioned : ((View.update v fun view => { view with
        element := some n, rendered := true }).after world).Mentions m) :
      world.Mentions m ∨ m = n := by
    rcases mentioned with ⟨t, member⟩ | ⟨u, element⟩
    · exact .inl (.inl ⟨t, member⟩)
    · by_cases same : u = v
      · subst same
        rw [View.view_update] at element
        exact .inr (Option.some.inj element).symm
      · rw [View.view_update_of_ne _ _ same] at element
        exact .inl (.inr ⟨u, element⟩)
  refine ⟨builds.forest, fun m mentioned => ?_, builds.tail.there,
    fun m member outer inside => ?_⟩
  · rcases named m mentioned with before | rfl
    · exact builds.named m before
    · exact builds.there m (.head _)
  · obtain ⟨unnamed, only⟩ := builds.apart m (.tail _ member) outer inside
    refine ⟨fun mentioned => ?_, fun among => only (.tail _ among)⟩
    rcases named outer mentioned with before | rfl
    · exact unnamed before
    · exact other (only (.head _) ▸ member)

end World.Builds

/-! ## What a pass does at one node -/

namespace World.Carries

variable {built : List NodeId} {world later : World σ}

theorem steady (built : List NodeId) :
    Steady (World.Carries (σ := σ) built) where
  refl _ := ⟨rfl, fun _ offered => offered, fun _ builds => builds⟩
  trans early late := by
    refine ⟨late.frames.trans early.frames,
      fun n offered => late.offers n (early.offers n offered),
      fun held builds => ?_⟩
    exact late.builds (early.frames.symm ▸ held) (early.builds held builds)
  release frame world later inner := by
    refine ⟨rfl, inner.offers, fun held builds => ?_⟩
    refine (inner.builds (fun n member => .tail _ (held n member)) ?_).held _
    exact builds.held _

theorem of_same (dom : later.dom = world.dom)
    (frames : later.frames = world.frames)
    (templates : later.templates = world.templates)
    (views : later.views = world.views) : World.Carries built world later := by
  refine ⟨frames, fun n offered => ?_, fun _ builds =>
    builds.of_same dom fun n mentioned => ?_⟩
  · simpa only [World.Offers, World.template, templates] using offered
  · simpa only [World.Mentions, World.Offers, World.template, World.view,
      templates, views] using mentioned

theorem of_dom {dom : Dom}
    (builds : world.Builds built → World.Builds built { world with dom := dom }) :
    World.Carries built world { world with dom := dom } := by
  exact ⟨rfl, fun _ offered => offered, fun _ => builds⟩

end World.Carries

theorem Host.KeepsForests.bounds {host : Host σ} (keeps : host.KeepsForests)
    (built : List NodeId) :
    host.Bounds (fun _ _ => True) (World.Carries built) where
  toSteady := World.Carries.steady built
  transform handler value node := keeps handler value node built
  observable _ _ _ _ _ := .of_same rfl rfl rfl rfl
  node _ _ _ _ _ := .of_same rfl rfl rfl rfl
  attributes n change world := .of_dom fun builds => by
    refine builds.of_dom (builds.forest.modifyAttributes n change)
      (Dom.size_le_modifyAttributes _ _ _) fun _ _ _ inside => ?_
    refine inside.mono fun other => ?_
    rw [Dom.children_modifyAttributes]
    exact List.Subset.refl _
  text n data world _ := .of_dom fun builds =>
    builds.of_dom (builds.forest.setText n data) (Dom.size_le_setText _ _ _)
      fun m member _ inside => Dom.inside_setText (builds.there m member) inside
  stays _ _ := trivial

/-! ## Passes -/

/-- Some nodes are being built while some frames are held, and some nodes are
children of templates. -/
structure World.Stage (offered : NodeId → Prop) (built : List NodeId)
    (frames : List Frame) (world : World σ) : Prop where
  frames : world.frames = frames
  offers : ∀ n, offered n → world.Offers n
  builds : world.Builds built

namespace World.Stage

variable {offered : NodeId → Prop} {built : List NodeId} {frames : List Frame}
  {world later : World σ}

theorem carried (stage : world.Stage offered built frames)
    (held : HeldBy frames built) (carries : World.Carries built world later) :
    later.Stage offered built frames := by
  obtain ⟨rfl, offers, builds⟩ := stage
  exact ⟨carries.frames, fun n inside => carries.offers n (offers n inside),
    carries.builds held builds⟩

theorem enter (stage : world.Stage offered built frames) (frame : Frame) :
    (world.holding (frame :: world.frames)).Stage offered built
      (frame :: frames) := by
  obtain ⟨rfl, offers, builds⟩ := stage
  exact ⟨rfl, offers, builds.held _⟩

theorem leave {more : List NodeId} {inner : List Frame}
    (stage : world.Stage offered built frames)
    (after : later.Stage offered more inner) :
    (later.holding world.frames).Stage offered more frames := by
  exact ⟨stage.frames, after.offers, after.builds.held _⟩

theorem of_same (stage : world.Stage offered built frames)
    (dom : later.dom = world.dom) (same : later.frames = world.frames)
    (templates : later.templates = world.templates)
    (views : later.views = world.views) :
    later.Stage offered built frames := by
  obtain ⟨rfl, offers, builds⟩ := stage
  have carries : World.Carries built world later :=
    .of_same dom same templates views
  refine ⟨same, fun n inside => carries.offers n (offers n inside),
    builds.of_same dom fun n mentioned => ?_⟩
  simpa only [World.Mentions, World.Offers, World.template, World.view,
    templates, views] using mentioned

theorem tail {n : NodeId} (stage : world.Stage offered (n :: built) frames) :
    world.Stage offered built frames := by
  exact ⟨stage.frames, stage.offers, stage.builds.tail⟩

/-- All children of templates that there are may be offered. -/
theorem all (stage : world.Stage offered built frames) :
    world.Stage world.Offers built frames := by
  exact ⟨stage.frames, fun _ inside => inside, stage.builds⟩

theorem fewer (stage : world.Stage offered built frames)
    {more : List NodeId} (after : later.Stage world.Offers more frames) :
    later.Stage offered more frames := by
  refine ⟨after.frames, ?_, after.builds⟩
  intro n inside
  exact after.offers n (stage.offers n inside)

theorem create (stage : world.Stage offered built frames) (kind : NodeKind) :
    (createNode kind : Act σ NodeId).result world ∉ built ∧
      ((createNode kind).after world).Stage offered
        ((createNode kind : Act σ NodeId).result world :: built) frames := by
  obtain ⟨other, builds⟩ := stage.builds.create kind
  exact ⟨other, stage.frames, stage.offers, builds⟩

end World.Stage

theorem HeldBy.weaken {built : List NodeId} {frames : List Frame}
    (held : HeldBy frames built) (frame : Frame) :
    HeldBy (frame :: frames) built := by
  intro n member
  exact .tail _ (held n member)

theorem HeldBy.cons {built : List NodeId} {frames : List Frame}
    (held : HeldBy frames built) (n : NodeId) :
    HeldBy (.refs [.node n] :: frames) (n :: built) := by
  intro m member
  rcases List.mem_cons.mp member with rfl | before
  · exact .head _
  · exact .tail _ (held m before)

/-- A view is mounted without disturbing what is being built. -/
def Mounter.Assembles (mounter : Mounter σ) : Prop :=
  ∀ v offered built frames (world : World σ), HeldBy frames built →
    world.Stage offered built frames →
    ((mounter v).after world).Stage offered built frames ∧
      ∀ element, (mounter v).result world = .ok element →
        ((mounter v).after world).Mentions element

/-- A nested template builds one more node. -/
def Nested.Assembles (nested : Nested σ) : Prop :=
  ∀ t path offered built frames (world : World σ), HeldBy frames built →
    world.Stage offered built frames →
    ((nested t none path).after world).Stage offered built frames ∧
      ∀ n, ((nested t none path).result world).1 = .ok n →
        n ∉ built ∧
          ((nested t none path).after world).Stage offered (n :: built) frames

section Passes

variable {host : Host σ} {mounter : Mounter σ} {nested : Nested σ}
  {offered : NodeId → Prop} {built : List NodeId} {frames : List Frame}

namespace Mount

theorem stage_push_named {mount : Mount} (inside : mount.fragment ∈ built)
    {child : NodeId} {world : World σ}
    (stage : world.Stage offered built frames) (named : world.Mentions child) :
    ((mount.push child).after world).Stage offered built frames := by
  exact ⟨stage.frames, stage.offers, stage.builds.append_named inside named⟩

private theorem stage_push_built {mount : Mount}
    (inside : mount.fragment ∈ built)
    {child : NodeId} {world : World σ}
    (stage : world.Stage offered (child :: built) frames)
    (other : child ∉ built) :
    ((mount.push child).after world).Stage offered built frames := by
  exact ⟨stage.frames, stage.offers, stage.builds.append_built inside other⟩

theorem stage_finish {mount : Mount} {parent : NodeId}
    (inside : parent ∈ built) (other : mount.fragment ∉ built)
    {world : World σ}
    (stage : world.Stage offered (mount.fragment :: built) frames) :
    ((mount.finish parent).after world).Stage offered built frames := by
  have appended : World.Stage offered built frames { world with
      dom := world.dom.appendChild parent mount.fragment } :=
    ⟨stage.frames, stage.offers, stage.builds.append_built inside other⟩
  have told : ∀ (collections : List (CollectionId × Option NodeId))
      (world : World σ), world.Stage offered built frames →
      ((collections.forM fun entry =>
        Collection.setParent entry.1 parent entry.2).after world).Stage
          offered built frames := by
    intro collections
    induction collections with
    | nil => exact fun _ stage => stage
    | cons entry rest ih =>
        exact fun world stage => ih _ (stage.of_same rfl rfl rfl rfl)
  exact told mount.collections _ appended

end Mount

namespace Blueprint

theorem stage_mountViews (mounts : mounter.Assembles)
    (held : HeldBy frames built) (mount : Mount)
    (inside : mount.fragment ∈ built) (views : List ViewId) (record : Record)
    {world : World σ} (stage : world.Stage offered built frames) :
    Pass.Ends (mountViews mounter mount views) record world
      (fun later world => later.fragment = mount.fragment ∧
        world.Stage offered built frames)
      (·.Stage offered built frames) := by
  induction views generalizing mount record world frames with
  | nil => exact .pure ⟨rfl, stage⟩
  | cons v rest ih =>
      rw [mountViews]
      obtain ⟨mounted, named⟩ := mounts v offered built frames world held stage
      refine .act_bind (.ofExcept_bind (fun element ok => .act_bind ?_) mounted)
      have pushed := mount.stage_push_named inside mounted (named element ok)
      have inside : ((mount.push element : Act σ Mount).result
          ((mounter v).after world)).fragment ∈ built := inside
      refine .keeping (.weaken (ih (held.weaken _) _ inside record
        (pushed.enter _)) ?_ ?_)
      · exact fun later _ after => ⟨after.1, pushed.leave after.2⟩
      · exact fun _ after => pushed.leave after

private theorem stage_mountMember (mounts : mounter.Assembles)
    (builds : nested.Assembles)
    (held : HeldBy frames built) (path : DefinitionPath) (mount : Mount)
    (inside : mount.fragment ∈ built) (member : Member) (record : Record)
    {world : World σ} (stage : world.Stage offered built frames)
    (named : ∀ n, member = .node n → offered n) :
    Pass.Ends (mountMember mounter nested path mount member) record world
      (fun later world => later.fragment = mount.fragment ∧
        world.Stage offered built frames)
      (·.Stage offered built frames) := by
  cases member with
  | collection c =>
      have members : Pass.Ends
          (Pass.keeping ((world.collection c).members.map .view)
            (mountViews mounter mount (world.collection c).members)) record
          world
          (fun later world => later.fragment = mount.fragment ∧
            world.Stage offered built frames)
          (·.Stage offered built frames) := by
        refine .keeping (.weaken (stage_mountViews mounts (held.weaken _) mount
          inside _ record (stage.enter _)) ?_ ?_)
        · exact fun later _ after => ⟨after.1, stage.leave after.2⟩
        · exact fun _ after => stage.leave after
      exact .act_bind (members.bind fun later _ _ after => .pure after)
  | view v => exact stage_mountViews mounts held mount inside [v] record stage
  | node n =>
      have mentioned : world.Mentions n := .inl (stage.offers n (named n rfl))
      exact .act ⟨rfl, mount.stage_push_named inside stage mentioned⟩
  | template t =>
      obtain ⟨kept, made⟩ := builds t path offered built frames world held stage
      refine .nest_bind (fun n _ ok => .act ⟨rfl, ?_⟩) kept
      exact mount.stage_push_built inside (made n ok).2 (made n ok).1

private theorem stage_mountMembers (mounts : mounter.Assembles)
    (builds : nested.Assembles)
    (held : HeldBy frames built) (path : DefinitionPath) (mount : Mount)
    (inside : mount.fragment ∈ built) (index : Nat) (members : List Member)
    (record : Record) {world : World σ}
    (stage : world.Stage offered built frames)
    (named : ∀ n, .node n ∈ members → offered n) :
    Pass.Ends (mountMembers mounter nested path index mount members) record
      world
      (fun later world => later.fragment = mount.fragment ∧
        world.Stage offered built frames)
      (·.Stage offered built frames) := by
  induction members generalizing index mount record world frames with
  | nil => exact .pure ⟨rfl, stage⟩
  | cons member rest ih =>
      rw [mountMembers]
      have first := stage_mountMember mounts builds held (path ++ [index])
        mount inside member record stage fun n same => named n (same ▸ .head _)
      refine first.bind fun mount' recorded world' after => ?_
      obtain ⟨same, stage'⟩ := after
      have inside' : mount'.fragment ∈ built := same ▸ inside
      refine .keeping (.weaken (ih (held.weaken _) mount' inside' _ recorded
        (stage'.enter _) fun n member => named n (.tail _ member)) ?_ ?_)
      · exact fun later _ after => ⟨after.1.trans same, stage'.leave after.2⟩
      · exact fun _ after => stage'.leave after

private theorem stage_renderMembers (mounts : mounter.Assembles)
    (builds : nested.Assembles)
    (held : HeldBy frames built) (members : List Member) {parent : NodeId}
    (inside : parent ∈ built) (path : DefinitionPath) (record : Record)
    {world : World σ} (stage : world.Stage offered built frames)
    (named : ∀ n, .node n ∈ members → offered n) :
    Pass.Ends (renderMembers mounter nested members parent path) record world
      (fun _ => (·.Stage offered built frames))
      (·.Stage offered built frames) := by
  unfold renderMembers
  split
  · refine .act_bind ?_
    obtain ⟨other, made⟩ := stage.create .fragment
    generalize (createNode NodeKind.fragment).after world = world' at made ⊢
    generalize (createNode NodeKind.fragment : Act σ NodeId).result world = F
      at other made ⊢
    have gathered := stage_mountMembers mounts builds (held.cons F) path
      (.empty F) (.head _) 0 members record (made.enter _) named
    have finished : Pass.Ends (do
        let mount ← mountMembers mounter nested path 0 (.empty F) members
        Pass.act (mount.finish parent)) record
        (world'.holding (.refs [.node F] :: world'.frames))
        (fun _ => (·.Stage offered built (.refs [.node F] :: frames)))
        (·.Stage offered built (.refs [.node F] :: frames)) := by
      refine Pass.Ends.bind (gathered.weaken (fun _ _ after => after)
        fun _ after => after.tail) fun mount _ _ after => .act ?_
      obtain ⟨same, stage⟩ := after
      rw [show (Mount.empty F).fragment = F from rfl] at same
      refine mount.stage_finish inside ?_ ?_
      · rw [same]
        exact other
      · rw [same]
        exact stage
    refine .keeping (.weaken finished ?_ ?_)
    · exact fun _ _ after => made.tail.leave after
    · exact fun _ after => made.tail.leave after
  · exact .pure stage

private theorem stage_renderElement (keeps : host.KeepsForests)
    (mounts : mounter.Assembles) (builds : nested.Assembles)
    (held : HeldBy frames built) (blueprint : Blueprint)
    (path : DefinitionPath) (record : Record) {world : World σ}
    (stage : world.Stage offered built frames)
    (named : ∀ n, .node n ∈ blueprint.children → offered n) :
    Pass.Ends (blueprint.renderElement host mounter nested none path) record
      world
      (fun n later => n ∉ built ∧ later.Stage offered (n :: built) frames)
      (·.Stage offered built frames) := by
  unfold renderElement
  cases blueprint.tag with
  | none => exact .throw stage
  | some tag =>
      refine .act_bind ?_
      obtain ⟨other, made⟩ := stage.create (.element
        (blueprint.namespaceName.getD Selector.htmlNamespace) tag [])
      generalize (createNode (NodeKind.element _ tag [])).after world = world'
        at made ⊢
      generalize (createNode (NodeKind.element _ tag []) :
        Act σ NodeId).result world = N at other made ⊢
      have heldN : HeldBy (.refs [.node N] :: frames) (N :: built) :=
        held.cons N
      have bounds := keeps.bounds (N :: built)
      -- The node is filled while it is held.
      have filled : Pass.Ends (do
          blueprint.renderAttributes host N false
          renderMembers mounter nested blueprint.children N path
          blueprint.renderListeners N) record
          (world'.holding (.refs [.node N] :: world'.frames))
          (fun _ => (·.Stage offered (N :: built) (.refs [.node N] :: frames)))
          (·.Stage offered (N :: built) (.refs [.node N] :: frames)) := by
        refine .bind ((Pass.Ends.of_within (bounds.renderAttributes blueprint N
          false)).weaken (fun _ _ => (made.enter _).carried heldN)
          fun _ => (made.enter _).carried heldN) fun _ _ _ stage => ?_
        refine .bind (stage_renderMembers mounts builds heldN _ (.head _) path _
          stage named) fun _ _ _ stage => ?_
        exact (Pass.Ends.of_within (bounds.renderListeners blueprint N)).weaken
          (fun _ _ => stage.carried heldN) fun _ => stage.carried heldN
      have whole : Pass.Ends (Pass.keeping [.node N] (do
          blueprint.renderAttributes host N false
          renderMembers mounter nested blueprint.children N path
          blueprint.renderListeners N)) record world'
          (fun _ => (·.Stage offered (N :: built) frames))
          (·.Stage offered built frames) :=
        .keeping (filled.weaken (fun _ _ after => made.leave after)
          fun _ after => made.tail.leave after.tail)
      exact whole.bind fun _ _ _ after => .pure ⟨other, after⟩

private theorem stage_renderText (keeps : host.KeepsForests)
    (held : HeldBy frames built) (blueprint : Blueprint) (record : Record)
    {world : World σ} (stage : world.Stage offered built frames) :
    Pass.Ends (blueprint.renderText host none) record world
      (fun n later => n ∉ built ∧ later.Stage offered (n :: built) frames)
      (·.Stage offered built frames) := by
  obtain ⟨other, made⟩ := stage.create (.text "")
  refine .act_bind (?_ : Pass.Ends (showText host _ _) _ _ _ _)
  generalize (createNode (NodeKind.text "")).after world = world' at made ⊢
  generalize (createNode (NodeKind.text "") : Act σ NodeId).result world = N
    at other made ⊢
  obtain ⟨inner, carries, after, ok⟩ := (keeps.bounds (N :: built)).showText N
    (flattenChunks (blueprint.text.getD [])) record world' trivial
  unfold Pass.Ends
  rw [after, ok]
  exact ⟨other, made.leave ((made.enter _).carried (held.cons N) carries)⟩

end Blueprint

namespace Template

theorem stage_markRendered (t : TemplateId) {world : World σ}
    (stage : world.Stage offered built frames) :
    ((update t fun template => { template with
      rendered := true }).after world).Stage offered built frames := by
  have setup := sameSetup_markRendered t world
  have offers (n : NodeId) : ((update t fun template => { template with
      rendered := true }).after world).Offers n ↔ world.Offers n := by
    simp only [World.Offers, setup.blueprints]
  refine ⟨stage.frames, fun n inside => (offers n).mpr (stage.offers n inside),
    stage.builds.of_same rfl fun n mentioned => ?_⟩
  exact mentioned.imp (offers n).mp id

theorem stage_pass (keeps : host.KeepsForests) (mounts : mounter.Assembles)
    (builds : nested.Assembles) (held : HeldBy frames built) (t : TemplateId)
    (path : DefinitionPath) (record : Record) {world : World σ}
    (stage : world.Stage offered built frames) :
    Pass.Ends (pass host mounter nested t none path) record world
      (fun n later => n ∉ built ∧ later.Stage offered (n :: built) frames)
      (·.Stage offered built frames) := by
  refine ends_pass stage (fun _ => ?_) fun _ => ?_
  · exact (Blueprint.stage_renderText keeps held _ record stage).weaken
      (fun _ _ after => ⟨after.1, stage_markRendered t after.2⟩)
      fun _ after => after
  · have element := Blueprint.stage_renderElement keeps mounts builds held
      (world.template t).blueprint path record stage.all
      fun n member => ⟨t, member⟩
    refine element.weaken (fun n later after => ?_)
      fun _ after => stage.fewer after
    exact ⟨after.1, stage_markRendered t (stage.fewer after.2)⟩

private theorem stage_passWithin (keeps : host.KeepsForests)
    (mounts : mounter.Assembles)
    (fuel : Nat) : Nested.Assembles (passWithin host mounter fuel) := by
  induction fuel with
  | zero => exact fun t path offered built frames world held stage =>
      ⟨stage, fun _ impossible => by cases impossible⟩
  | succ fuel ih =>
      intro t path offered built frames world held stage
      have ends := stage_pass keeps mounts ih held t path .empty stage
      refine ⟨ends.after fun _ _ after => after.2.tail, fun n ok => ?_⟩
      have made : (((pass host mounter (passWithin host mounter fuel) t none
        path).start .empty).result world).1 = .ok n := ok
      unfold Pass.Ends at ends
      rw [made] at ends
      exact ends

theorem stage_renderWith (keeps : host.KeepsForests) (mounts : mounter.Assembles)
    (held : HeldBy frames built) (t : TemplateId) {world : World σ}
    (stage : world.Stage offered built frames) :
    ((renderWith host mounter t).after world).Stage offered built frames ∧
      ∀ n, (renderWith host mounter t).result world = .ok n →
        n ∉ built ∧ ((renderWith host mounter t).after world).Stage offered
          (n :: built) frames := by
  have runs := run_renderWith host mounter t world
  unfold Act.result Act.after
  rw [runs]
  split
  · exact ⟨stage, fun _ impossible => by cases impossible⟩
  split
  · exact ⟨stage, fun _ impossible => by cases impossible⟩
  obtain ⟨kept, made⟩ := stage_passWithin keeps mounts (t.index + 1) t []
    offered built _ _ (held.weaken _) (stage.enter (.refs [.template t]))
  change ((release ((renderPass host mounter t).result world)).after
      ((renderPass host mounter t).after world)).Stage offered built frames ∧
    ∀ n, (release ((renderPass host mounter t).result world)).result
        ((renderPass host mounter t).after world) = .ok n →
      n ∉ built ∧ ((release ((renderPass host mounter t).result world)).after
        ((renderPass host mounter t).after world)).Stage offered (n :: built)
          frames
  have left : ((renderPass host mounter t).after world).Stage offered built
      frames := stage.leave kept
  have right (n : NodeId)
      (ok : ((renderPass host mounter t).result world).1 = .ok n) :
      n ∉ built ∧ ((renderPass host mounter t).after world).Stage offered
        (n :: built) frames :=
    ⟨(made n ok).1, stage.leave (made n ok).2⟩
  generalize (renderPass host mounter t).result world = ended at right ⊢
  generalize (renderPass host mounter t).after world = later at left right ⊢
  obtain ⟨error | n, record⟩ := ended
  · refine ⟨?_, fun _ impossible => by cases impossible⟩
    refine left.carried held ((World.Carries.steady built).revokeAll
      (fun r world => ?_) record later)
    obtain ⟨_, _, _, same⟩ := Revoker.revoke_leaves r world
    rw [same]
    exact .of_same rfl rfl rfl rfl
  · refine ⟨left, fun m same => ?_⟩
    cases same
    exact right n rfl

end Template

namespace View

theorem builds_mountWith
    {render : ViewId → Act σ (Except TemplateError Unit)}
    (renders : ∀ v offered built frames (world : World σ),
      HeldBy frames built → world.Stage offered built frames →
        ((render v).after world).Stage offered built frames) :
    Mounter.Assembles (mountWith render) := by
  have settled (v : ViewId) (outcome : Except TemplateError Unit)
      (world : World σ) :
      (settleMount v outcome).after world = world ∧
        ∀ element, (settleMount v outcome).result world = .ok element →
          world.Mentions element := by
    cases outcome with
    | error error => exact ⟨rfl, fun _ impossible => by cases impossible⟩
    | ok =>
        unfold Act.after Act.result
        rw [run_settleMount_ok]
        refine ⟨rfl, fun element ok => .inr ⟨v, ?_⟩⟩
        cases found : (world.view v).element with
        | none =>
            rw [found] at ok
            cases ok
        | some other =>
            rw [found] at ok
            cases ok
            rfl
  intro v offered built frames world held stage
  have runs := run_mountWith render v world
  unfold Act.after Act.result
  rw [runs]
  split
  · obtain ⟨same, named⟩ := settled v (.ok ()) world
    change ((settleMount v (.ok ())).after world).Stage offered built frames ∧
      ∀ element, (settleMount v (.ok ())).result world = .ok element →
        ((settleMount v (.ok ())).after world).Mentions element
    rw [same]
    exact ⟨stage, named⟩
  · have rendered := renders v offered built frames world held stage
    obtain ⟨same, named⟩ := settled v ((render v).result world)
      ((render v).after world)
    change ((settleMount v ((render v).result world)).after
        ((render v).after world)).Stage offered built frames ∧
      ∀ element, (settleMount v ((render v).result world)).result
          ((render v).after world) = .ok element →
        ((settleMount v ((render v).result world)).after
          ((render v).after world)).Mentions element
    rw [same]
    exact ⟨rendered, named⟩

theorem stage_markRendered (v : ViewId) {world : World σ}
    (stage : world.Stage offered built frames) :
    ((update v fun view => { view with rendered := true }).after world).Stage
      offered built frames := by
  refine ⟨stage.frames, stage.offers, stage.builds.of_same rfl
    fun n mentioned => mentioned.imp id fun ⟨u, element⟩ => ⟨u, ?_⟩⟩
  by_cases same : u = v
  · subst same
    rwa [view_update] at element
  · rwa [view_update_of_ne _ _ same] at element

private theorem stage_renderWithin (keeps : host.KeepsForests) (fuel : Nat)
    (v : ViewId) (offered : NodeId → Prop) (built : List NodeId)
    (frames : List Frame) (world : World σ) (held : HeldBy frames built)
    (stage : world.Stage offered built frames) :
    ((renderWithin host fuel v).after world).Stage offered built frames := by
  induction fuel generalizing v offered built frames world with
  | zero => exact stage
  | succ fuel ih =>
      have runs := run_renderWithin host fuel v world
      unfold Act.after
      rw [runs]
      split
      · exact stage
      split
      · exact stage_markRendered v stage
      · rename_i t _
        obtain ⟨kept, made⟩ := Template.stage_renderWith keeps
          (builds_mountWith ih) (held.weaken (.refs [.view v])) t
          (stage.enter (.refs [.view v]))
        change ((keeping (.refs [.view v]) (Template.renderWith host
          (mountWith (renderWithin host fuel)) t) >>= settleRender v).after
            world).Stage offered built frames
        rw [Act.after_bind, after_keeping, result_keeping]
        generalize (Template.renderWith host (mountWith (renderWithin host fuel))
          t).result _ = outcome at made ⊢
        cases outcome with
        | error error => exact stage.leave kept
        | ok n =>
            obtain ⟨other, built⟩ := made n rfl
            have left := stage.leave built
            exact ⟨left.frames, left.offers, left.builds.setElement other v⟩

theorem builds_mount (keeps : host.KeepsForests) :
    Mounter.Assembles (View.mount host) := by
  refine builds_mountWith fun v offered built frames world held stage => ?_
  unfold View.render
  rw [Act.after_bind, Act.after_get, Act.result_get]
  exact stage_renderWithin keeps _ v offered built frames world held stage

end View

end Passes

end LiveTemplate
