import LiveTemplate.Proofs.Collections
import LiveTemplate.Proofs.Gathering
import LiveTemplate.Proofs.Leaving

/-!
# Passes that leave the rest alone

Whatever a fresh pass comes to, what it was not to render is as it was.  Nodes
that are gathered have been moved from elsewhere or made on the way, and are
put into nodes that have been made for the purpose.
-/

namespace LiveTemplate

variable {σ : Type}

/-- Telling collections where they are changes nothing else. -/
theorem World.leaves_tellEach {concerned among : Member → Prop}
    {kept : NodeId → Prop} {world : World σ} {parent : NodeId}
    {collections : List (CollectionId × Option NodeId)}
    (inside : ∀ entry ∈ collections, among (.collection entry.1)) :
    world.Leaves concerned among kept
      ((Collection.tellEach parent collections).after world) := by
  have members := Collection.members_tellEach parent collections world
  have others (c : CollectionId) (apart : ¬among (.collection c)) :=
    @Collection.collection_tellEach_of_not_mem σ parent collections c
      (fun member => by
        obtain ⟨entry, told, rfl⟩ := List.mem_map.mp member
        exact apart (inside entry told)) world
  obtain ⟨told, after⟩ := Collection.after_tellEach parent collections world
  rw [after] at members others ⊢
  exact {
    frames := List.Subset.refl _
    size := Nat.le_refl _
    tidy := id
    sorts := fun _ _ => rfl
    children := fun _ _ => rfl
    blueprints := fun _ _ => rfl
    members := fun c _ => members c
    collections := fun c _ => others c
    views := fun _ _ => .inl ⟨rfl, rfl, rfl⟩ }

/-- What a definition comes to, whatever its attributes or its data. -/
def Parts.sort {γ : Type} (parts : Parts γ) : NodeKind :=
  if parts.text.isSome then .text ""
  else .element (parts.namespaceName.getD Selector.htmlNamespace)
    (parts.tag.getD "") []

/-- A node is new and of the right sort, and no view that is concerned has it
for an element. -/
structure World.Brings (concerned : Member → Prop) (sort : NodeKind)
    (world later : World σ) (n : NodeId) : Prop where
  new : world.dom.nodes.size ≤ n.index
  there : n.index < later.dom.nodes.size
  sort : later.dom.sort n = sort
  solid : later.dom.isFragment n = false
  unclaimed : ∀ v, concerned (.view v) → (later.view v).element ≠ some n

section Contracts

variable (concerned among : Member → Prop) (kept guarded : NodeId → Prop)

/-- A view is mounted by the node it stands for then, which no other view stands
for if it is new. -/
def Mounter.StaysAside (mounter : Mounter σ) : Prop :=
  ∀ v (world : World σ), among (.view v) →
    world.Scope concerned among kept guarded →
    world.Leaves concerned among kept ((mounter v).after world) ∧
      ∀ n, (mounter v).result world = .ok n →
        Member.root? ((mounter v).after world) (.view v) = some n ∧
        (world.dom.nodes.size ≤ n.index → ∀ other, other ≠ v →
          concerned (.view other) →
            (((mounter v).after world).view other).element ≠ some n)

/-- A nested template brings a node of its own. -/
def Nested.StaysAside (nested : Nested σ) : Prop :=
  ∀ t path (world : World σ), among (.template t) →
    world.Scope concerned among kept guarded →
    world.Leaves concerned among kept ((nested t none path).after world) ∧
      ∀ n, ((nested t none path).result world).1 = .ok n →
        world.Brings concerned (world.template t).blueprint.sort
          ((nested t none path).after world) n

/-- A mount gathers children apart from the nodes that keep theirs, and has met
only collections that are being rendered. -/
structure Mount.StaysAside (mount : Mount) : Prop where
  outside : ¬kept mount.fragment
  collections : ∀ entry ∈ mount.collections, among (.collection entry.1)

end Contracts

section Passes

variable {host : Host σ} {mounter : Mounter σ} {nested : Nested σ}
  {concerned among : Member → Prop} {kept guarded : NodeId → Prop}
  {base world : World σ}

namespace Mount

theorem StaysAside.push {mount : Mount} (aside : mount.StaysAside among kept)
    (child : NodeId) (world : World σ) :
    ((mount.push child).result world).StaysAside among kept where
  outside := aside.outside
  collections entry member := by
    obtain ⟨before, inside, rfl⟩ := List.mem_map.mp member
    exact aside.collections before inside

/-- What is moved may be gathered. -/
theorem leaves_push (scope : base.Scope concerned among kept guarded)
    {mount : Mount} (aside : mount.StaysAside among kept)
    (leaves : base.Leaves concerned among kept world) {member : Member}
    {child : NodeId} (inside : among member)
    (root : member.root? world = some child) :
    base.Leaves concerned among kept ((mount.push child).after world) := by
  obtain ⟨other, absent⟩ := (scope.onward leaves).free member child inside root
  exact leaves.trans ((scope.onward leaves).leaves_append aside.outside other
    absent)

/-- So may what has just been made. -/
theorem leaves_push_new (scope : base.Scope concerned among kept guarded)
    {mount : Mount} (aside : mount.StaysAside among kept)
    {between : World σ} (leaves : base.Leaves concerned among kept world)
    (after : world.Leaves concerned among kept between) {child : NodeId}
    (new : world.dom.nodes.size ≤ child.index) :
    base.Leaves concerned among kept ((mount.push child).after between) := by
  have here := scope.onward leaves
  refine (leaves.trans after).trans ((here.onward after).leaves_append
    aside.outside (here.not_kept new) fun n stays member => ?_)
  rw [after.children n stays] at member
  exact absurd (here.tidy.lt_size_of_mem member) (Nat.not_lt.mpr new)

/-- The children are handed to a node that need not keep its own. -/
theorem leaves_finish (scope : base.Scope concerned among kept guarded)
    {mount : Mount} (aside : mount.StaysAside among kept)
    (leaves : base.Leaves concerned among kept world)
    (fragment : world.dom.isFragment mount.fragment = true) {parent : NodeId}
    (outside : ¬kept parent) :
    base.Leaves concerned among kept ((mount.finish parent).after world) := by
  have here := scope.onward leaves
  have handed := leaves.trans (here.leaves_append outside aside.outside
    fun n _ member => by
      rw [here.tidy.not_fragment member] at fragment
      cases fragment)
  exact handed.trans (World.leaves_tellEach aside.collections)

end Mount

namespace Blueprint

theorem leaves_mountViews (scope : base.Scope concerned among kept guarded)
    (mounts : mounter.StaysAside concerned among kept guarded)
    {mount : Mount} (aside : mount.StaysAside among kept) {views : List ViewId}
    (inside : ∀ v ∈ views, among (.view v)) (record : Record)
    (leaves : base.Leaves concerned among kept world) :
    Pass.Ends (mountViews mounter mount views) record world
      (fun later world => later.fragment = mount.fragment ∧
        later.StaysAside among kept ∧ base.Leaves concerned among kept world)
      (base.Leaves concerned among kept ·) := by
  induction views generalizing mount record world with
  | nil => exact .pure ⟨rfl, aside, leaves⟩
  | cons v rest ih =>
      rw [mountViews]
      obtain ⟨after, rooted⟩ := mounts v world (inside v (.head _))
        (scope.onward leaves)
      have mounted := leaves.trans after
      refine .act_bind (.ofExcept_bind (fun n ok => .act_bind ?_) mounted)
      have pushed := Mount.leaves_push scope aside mounted
        (inside v (.head _)) (rooted n ok).1
      refine .keeping (.weaken (ih (aside.push n _)
        (fun other member => inside other (.tail _ member)) record
        (pushed.enter _)) ?_ ?_)
      · exact fun later _ after => ⟨after.1, after.2.1, pushed.leave after.2.2⟩
      · exact fun _ after => pushed.leave after

theorem leaves_mountMember (scope : base.Scope concerned among kept guarded)
    (mounts : mounter.StaysAside concerned among kept guarded)
    (nests : nested.StaysAside concerned among kept guarded)
    (path : DefinitionPath) {mount : Mount}
    (aside : mount.StaysAside among kept) {member : Member}
    (inside : among member) (record : Record)
    (leaves : base.Leaves concerned among kept world) :
    Pass.Ends (mountMember mounter nested path mount member) record world
      (fun later world => later.fragment = mount.fragment ∧
        later.StaysAside among kept ∧ base.Leaves concerned among kept world)
      (base.Leaves concerned among kept ·) := by
  cases member with
  | node n =>
      exact .act ⟨rfl, aside.push n world,
        Mount.leaves_push scope aside leaves inside rfl⟩
  | view v =>
      exact leaves_mountViews scope mounts aside
        (fun other member => List.mem_singleton.mp member ▸ inside) record leaves
  | template t =>
      obtain ⟨after, brings⟩ := nests t path world inside (scope.onward leaves)
      exact .nest_bind (fun n _ ok => .act ⟨rfl, aside.push n _,
        Mount.leaves_push_new scope aside leaves after (brings n ok).new⟩)
        (leaves.trans after)
  | collection c =>
      have viewed : Pass.Ends
          (Pass.keeping ((world.collection c).members.map .view)
            (mountViews mounter mount (world.collection c).members)) record
          world
          (fun later world => later.fragment = mount.fragment ∧
            later.StaysAside among kept ∧
              base.Leaves concerned among kept world)
          (base.Leaves concerned among kept ·) := by
        refine .keeping (.weaken (leaves_mountViews scope mounts aside
          (fun v => (scope.onward leaves).members c v inside) _
          (leaves.enter _)) ?_ ?_)
        · exact fun later _ after =>
            ⟨after.1, after.2.1, leaves.leave after.2.2⟩
        · exact fun _ after => leaves.leave after
      refine .act_bind (viewed.bind fun later _ _ after => .pure ?_)
      obtain ⟨same, aside, leaves⟩ := after
      refine ⟨same, ⟨aside.outside, fun entry member => ?_⟩, leaves⟩
      rcases List.mem_append.mp member with before | last
      · exact aside.collections entry before
      · rw [List.mem_singleton.mp last]
        exact inside

private theorem leaves_mountMembers
    (scope : base.Scope concerned among kept guarded)
    (mounts : mounter.StaysAside concerned among kept guarded)
    (nests : nested.StaysAside concerned among kept guarded)
    (path : DefinitionPath) (index : Nat) {mount : Mount}
    (aside : mount.StaysAside among kept) {members : List Member}
    (inside : ∀ member ∈ members, among member) (record : Record)
    (leaves : base.Leaves concerned among kept world) :
    Pass.Ends (mountMembers mounter nested path index mount members) record
      world
      (fun later world => later.fragment = mount.fragment ∧
        later.StaysAside among kept ∧ base.Leaves concerned among kept world)
      (base.Leaves concerned among kept ·) := by
  induction members generalizing index mount record world with
  | nil => exact .pure ⟨rfl, aside, leaves⟩
  | cons member rest ih =>
      rw [mountMembers]
      refine (leaves_mountMember scope mounts nests (path ++ [index]) aside
        (inside member (.head _)) record leaves).bind
          fun next recorded world after => ?_
      obtain ⟨same, aside, leaves⟩ := after
      refine .keeping (.weaken (ih (index + 1) aside
        (fun other member => inside other (.tail _ member)) recorded
        (leaves.enter _)) ?_ ?_)
      · exact fun later _ after =>
          ⟨after.1.trans same, after.2.1, leaves.leave after.2.2⟩
      · exact fun _ after => leaves.leave after

private theorem leaves_renderMembers
    (scope : world.Scope concerned among kept guarded)
    (mounts : mounter.StaysAside concerned among kept guarded)
    (nests : nested.StaysAside concerned among kept guarded)
    {members : List Member} (inside : ∀ member ∈ members, among member)
    {parent : NodeId} (outside : ¬kept parent) (path : DefinitionPath)
    (record : Record) :
    Pass.Ends (renderMembers mounter nested members parent path) record world
      (fun _ => (world.Leaves concerned among kept ·))
      (world.Leaves concerned among kept ·) := by
  unfold renderMembers
  split
  · refine .act_bind ?_
    have made : world.Leaves concerned among kept
        ((createNode NodeKind.fragment).after world) :=
      World.leaves_create _ world
    obtain ⟨new, there, kind⟩ := World.created NodeKind.fragment world
    generalize (createNode NodeKind.fragment).after world = entered
      at made there kind ⊢
    generalize (createNode NodeKind.fragment : Act σ NodeId).result world = F
      at new there kind ⊢
    have here := scope.onward made
    have empty : (Mount.empty F).StaysAside among kept :=
      ⟨scope.not_kept new, fun _ => nofun⟩
    have gathered := leaves_mountMembers here mounts nests path 0 empty inside
      record ((World.Leaves.refl entered).enter (.refs [.node F]))
    refine .keeping (.bind (.weaken gathered (fun _ _ after => after)
      fun later after => ?_) fun mount _ later after => .act ?_)
    · exact made.trans ((World.Leaves.refl entered).leave after)
    · obtain ⟨same, aside, leaves⟩ := after
      refine made.trans ((World.Leaves.refl entered).leave
        (Mount.leaves_finish here aside leaves ?_ outside))
      rw [same, show (Mount.empty F).fragment = F from rfl,
        leaves.isFragment there]
      simp [Dom.isFragment, kind]
  · exact .pure (.refl world)

theorem enters_created (scope : world.Scope concerned among kept guarded)
    {kind : NodeKind} (solid : kind ≠ .fragment) :
    let n := (createNode kind : Act σ NodeId).result world
    let entered := (createNode kind).after world
    world.Leaves concerned among kept entered ∧ ¬kept n ∧
      ∀ later, entered.Leaves concerned among kept later →
        world.Brings concerned kind.sort later n := by
  intro n entered
  obtain ⟨new, there, made⟩ := World.created kind world
  refine ⟨World.leaves_create kind world, scope.not_kept new,
    fun later after => ?_⟩
  refine ⟨new, Nat.lt_of_lt_of_le there after.size, ?_, ?_,
    fun v concerns => ?_⟩
  · rw [after.sorts n there, Dom.sort, made]
  · rw [after.isFragment there, Dom.isFragment, made]
    cases kind with
    | fragment => exact absurd rfl solid
    | element => rfl
    | text => rfl
  · intro element
    have before : (world.view v).element ≠ some n := fun found =>
      absurd (scope.elements v _ concerns found).1 (Nat.not_lt.mpr new)
    rcases after.views v concerns with same | ⟨_, renders⟩
    · exact before (same.element.symm.trans element)
    · cases found : (world.view v).template with
      | none => exact before ((renders.bare found).symm.trans element)
      | some t =>
          obtain ⟨built, is, beyond, _⟩ := renders.element t found
          rw [is] at element
          cases element
          exact absurd there (Nat.not_lt.mpr beyond)

private theorem leaves_renderElement (minds : host.Minds concerned guarded)
    (scope : world.Scope concerned among kept guarded)
    (mounts : mounter.StaysAside concerned among kept guarded)
    (nests : nested.StaysAside concerned among kept guarded)
    (blueprint : Blueprint) (isElement : blueprint.text.isSome = false)
    (inside : ∀ child ∈ blueprint.children, among child)
    (path : DefinitionPath) (record : Record) :
    Pass.Ends (blueprint.renderElement host mounter nested none path) record
      world
      (fun n later => world.Leaves concerned among kept later ∧
        world.Brings concerned blueprint.sort later n)
      (world.Leaves concerned among kept ·) := by
  unfold renderElement
  cases tagged : blueprint.tag with
  | none => exact .throw (.refl world)
  | some tag =>
      have sort : blueprint.sort = .element
          (blueprint.namespaceName.getD Selector.htmlNamespace) tag [] := by
        simp [Parts.sort, isElement, tagged]
      rw [sort]
      refine .act_bind ?_
      obtain ⟨made, outside, brings⟩ := enters_created scope
        (nofun : NodeKind.element
          (blueprint.namespaceName.getD Selector.htmlNamespace) tag [] ≠
            .fragment)
      generalize (createNode (NodeKind.element _ tag [])).after world = entered
        at made brings ⊢
      generalize (createNode (NodeKind.element _ tag []) :
        Act σ NodeId).result world = N at outside brings ⊢
      have here := scope.onward made
      have bounds := minds.bounds among kept
      -- The element is filled while it is held.
      have filled : Pass.Ends (do
          blueprint.renderAttributes host N false
          renderMembers mounter nested blueprint.children N path
          blueprint.renderListeners N) record
          (entered.holding (.refs [.node N] :: entered.frames))
          (fun _ => (entered.Leaves concerned among kept ·))
          (entered.Leaves concerned among kept ·) := by
        have start : entered.Leaves concerned among kept
            (entered.holding (.refs [.node N] :: entered.frames)) :=
          (World.Leaves.refl entered).enter _
        refine .bind ((Pass.Ends.of_within (bounds.renderAttributes blueprint N
          false)).weaken (fun _ _ after => start.trans (after (here.onward start)))
          fun _ after => start.trans (after (here.onward start)))
            fun _ _ between leaves => ?_
        refine .bind ((leaves_renderMembers (here.onward leaves) mounts nests
          inside outside path _).weaken
            (fun _ _ after => leaves.trans after) fun _ after =>
              leaves.trans after) fun _ _ filled leaves => ?_
        exact (Pass.Ends.of_within (bounds.renderListeners blueprint N)).weaken
          (fun _ _ after => leaves.trans (after (here.onward leaves)))
          fun _ after => leaves.trans (after (here.onward leaves))
      have whole : Pass.Ends (Pass.keeping [.node N] (do
          blueprint.renderAttributes host N false
          renderMembers mounter nested blueprint.children N path
          blueprint.renderListeners N)) record entered
          (fun _ => (entered.Leaves concerned among kept ·))
          (world.Leaves concerned among kept ·) :=
        .keeping (filled.weaken
          (fun _ _ after => (World.Leaves.refl entered).leave after)
          fun _ after => made.trans ((World.Leaves.refl entered).leave after))
      exact whole.bind fun _ _ later after =>
        .pure ⟨made.trans after, brings later after⟩

private theorem leaves_renderText (minds : host.Minds concerned guarded)
    (scope : world.Scope concerned among kept guarded) (blueprint : Blueprint)
    (isText : blueprint.text.isSome = true) (record : Record) :
    Pass.Ends (blueprint.renderText host none) record world
      (fun n later => world.Leaves concerned among kept later ∧
        world.Brings concerned blueprint.sort later n)
      (world.Leaves concerned among kept ·) := by
  rw [Parts.sort, if_pos isText]
  refine .act_bind (?_ : Pass.Ends (showText host _ _) _ _ _ _)
  obtain ⟨made, outside, brings⟩ := enters_created scope
    (nofun : NodeKind.text "" ≠ .fragment)
  generalize (createNode (NodeKind.text "")).after world = entered
    at made brings ⊢
  generalize (createNode (NodeKind.text "") : Act σ NodeId).result world = N
    at outside brings ⊢
  obtain ⟨inner, stays, after, ok⟩ := (minds.bounds among kept).showText N
    (flattenChunks (blueprint.text.getD [])) record entered outside
  have here := scope.onward made
  have leaves : entered.Leaves concerned among kept
      (entered.holding (.refs [.node N] :: entered.frames)) :=
    (World.Leaves.refl entered).enter _
  have final := (World.Leaves.refl entered).leave
    (leaves.trans (stays (here.onward leaves)))
  unfold Pass.Ends
  rw [after, ok]
  exact ⟨made.trans final, brings _ final⟩

end Blueprint

namespace Template

theorem leaves_markRendered (t : TemplateId) (world : World σ) :
    world.Leaves concerned among kept ((update t fun template => { template with
      rendered := true }).after world) := by
  exact .of_same rfl rfl (sameSetup_markRendered t world).blueprints rfl rfl

theorem leaves_pass (minds : host.Minds concerned guarded)
    (mounts : mounter.StaysAside concerned among kept guarded)
    (nests : nested.StaysAside concerned among kept guarded) {t : TemplateId}
    (inside : among (.template t)) (path : DefinitionPath) (record : Record)
    (scope : world.Scope concerned among kept guarded) :
    Pass.Ends (pass host mounter nested t none path) record world
      (fun n later => world.Leaves concerned among kept later ∧
        world.Brings concerned (world.template t).blueprint.sort later n)
      (world.Leaves concerned among kept ·) := by
  have marked (n : NodeId) (later : World σ)
      (after : world.Leaves concerned among kept later ∧
        world.Brings concerned (world.template t).blueprint.sort later n) :
      world.Leaves concerned among kept ((update t fun template =>
        { template with rendered := true }).after later) ∧
      world.Brings concerned (world.template t).blueprint.sort
        ((update t fun template =>
          { template with rendered := true }).after later) n :=
    ⟨after.1.trans (leaves_markRendered t later), after.2.new, after.2.there,
      after.2.sort, after.2.solid, after.2.unclaimed⟩
  refine ends_pass (.refl world) (fun isText => ?_) fun isElement => ?_
  · exact (Blueprint.leaves_renderText minds scope _ isText record).weaken
      marked fun _ after => after
  · have children (child : Member)
        (member : child ∈ (world.template t).blueprint.children) : among child :=
      scope.nested t child inside (by simpa using isElement) member
    exact (Blueprint.leaves_renderElement minds scope mounts nests _ isElement
      children path record).weaken marked fun _ after => after

theorem leaves_passWithin (minds : host.Minds concerned guarded)
    (mounts : mounter.StaysAside concerned among kept guarded) (fuel : Nat) :
    Nested.StaysAside concerned among kept guarded
      (passWithin host mounter fuel) := by
  induction fuel with
  | zero => exact fun t path world inside scope =>
      ⟨.refl world, fun _ impossible => by cases impossible⟩
  | succ fuel ih =>
      intro t path world inside scope
      have ends := leaves_pass minds mounts ih inside path .empty scope
      refine ⟨ends.after fun _ _ after => after.1, fun n ok => ?_⟩
      have made : (((pass host mounter (passWithin host mounter fuel) t none
        path).start .empty).result world).1 = .ok n := ok
      unfold Pass.Ends at ends
      rw [made] at ends
      exact ends.2

theorem leaves_renderWith (minds : host.Minds concerned guarded)
    (mounts : mounter.StaysAside concerned among kept guarded) {t : TemplateId}
    (inside : among (.template t))
    (scope : world.Scope concerned among kept guarded) :
    world.Leaves concerned among kept
        ((renderWith host mounter t).after world) ∧
      ∀ n, (renderWith host mounter t).result world = .ok n →
        world.Brings concerned (world.template t).blueprint.sort
          ((renderWith host mounter t).after world) n := by
  have runs := run_renderWith host mounter t world
  unfold Act.result Act.after
  rw [runs]
  split
  · exact ⟨.refl world, fun _ impossible => by cases impossible⟩
  split
  · exact ⟨.refl world, fun _ impossible => by cases impossible⟩
  obtain ⟨kept, made⟩ := leaves_passWithin minds mounts (t.index + 1) t []
    _ inside (scope.enter (.refs [.template t]))
  change world.Leaves concerned among _
      ((release ((renderPass host mounter t).result world)).after
        ((renderPass host mounter t).after world)) ∧
    ∀ n, (release ((renderPass host mounter t).result world)).result
        ((renderPass host mounter t).after world) = .ok n →
      world.Brings concerned (world.template t).blueprint.sort
        ((release ((renderPass host mounter t).result world)).after
          ((renderPass host mounter t).after world)) n
  have left : world.Leaves concerned among _
      ((renderPass host mounter t).after world) :=
    kept.reframe (List.Subset.refl _)
  have right (n : NodeId)
      (ok : ((renderPass host mounter t).result world).1 = .ok n) :
      world.Brings concerned (world.template t).blueprint.sort
        ((renderPass host mounter t).after world) n :=
    ⟨(made n ok).new, (made n ok).there, (made n ok).sort, (made n ok).solid,
      (made n ok).unclaimed⟩
  generalize (renderPass host mounter t).result world = ended at right ⊢
  generalize (renderPass host mounter t).after world = later at left right ⊢
  obtain ⟨error | n, record⟩ := ended
  · refine ⟨left.trans ?_, fun _ impossible => by cases impossible⟩
    refine (World.StaysAside.steady concerned among _ guarded).revokeAll
      (fun r world => ?_) record later (scope.onward left)
    obtain ⟨_, _, _, same⟩ := Revoker.revoke_leaves r world
    rw [same]
    exact .of_same rfl rfl rfl rfl rfl
  · refine ⟨left, fun m same => ?_⟩
    cases same
    exact right n rfl

end Template

namespace View

/-- A view that is rendered leaves the rest alone, and has its element to
itself if that is new. -/
def StaysAside (concerned among : Member → Prop) (kept guarded : NodeId → Prop)
    (render : ViewId → Act σ (Except TemplateError Unit)) : Prop :=
  ∀ v (world : World σ), among (.view v) →
    world.Scope concerned among kept guarded →
    (world.view v).rendered = false →
    world.Leaves concerned among kept ((render v).after world) ∧
      ((render v).result world = .ok () →
        (((render v).after world).view v).rendered = true ∧
        ∀ n, (((render v).after world).view v).element = some n →
          world.dom.nodes.size ≤ n.index → ∀ other, other ≠ v →
            concerned (.view other) →
              (((render v).after world).view other).element ≠ some n)

theorem StaysAside.mount {render : ViewId → Act σ (Except TemplateError Unit)}
    (aside : StaysAside concerned among kept guarded render) :
    Mounter.StaysAside concerned among kept guarded (mountWith render) := by
  intro v world inside scope
  have runs := run_mountWith render v world
  have settled (outcome : Except TemplateError Unit) (world : World σ) :
      (settleMount v outcome).after world = world := by
    cases outcome with
    | error error => rfl
    | ok =>
        unfold Act.after
        rw [run_settleMount_ok]
  unfold Act.after Act.result
  rw [runs]
  split
  · rename_i rendered
    change world.Leaves concerned among kept
        ((settleMount v (.ok ())).after world) ∧
      ∀ n, (settleMount v (.ok ())).result world = .ok n →
        Member.root? ((settleMount v (.ok ())).after world) (.view v) = some n ∧
        (_ → ∀ other, other ≠ v → concerned (.view other) →
          (((settleMount v (.ok ())).after world).view other).element ≠ some n)
    rw [settled]
    refine ⟨.refl world, fun n ok => ?_⟩
    have element := (element_of_settleMount ok).2.1
    refine ⟨by simp [Member.root?, rendered, element], fun new => ?_⟩
    exact absurd (scope.elements v n (scope.within _ inside) element).1
      (Nat.not_lt.mpr new)
  · rename_i fresh
    obtain ⟨leaves, comes⟩ := aside v world inside scope
      (Bool.eq_false_iff.mpr fresh)
    change world.Leaves concerned among kept
        ((settleMount v ((render v).result world)).after
          ((render v).after world)) ∧
      ∀ n, (settleMount v ((render v).result world)).result
          ((render v).after world) = .ok n →
        Member.root? ((settleMount v ((render v).result world)).after
          ((render v).after world)) (.view v) = some n ∧
        (_ → ∀ other, other ≠ v → concerned (.view other) →
          (((settleMount v ((render v).result world)).after
            ((render v).after world)).view other).element ≠ some n)
    rw [settled]
    refine ⟨leaves, fun n mounted => ?_⟩
    obtain ⟨ok, element, _⟩ := element_of_settleMount mounted
    obtain ⟨rendered, alone⟩ := comes ok
    exact ⟨by simp [Member.root?, rendered, element], alone n element⟩

theorem leaves_markRendered {v : ViewId} (inside : among (.view v))
    (fresh : (world.view v).rendered = false)
    (bare : (world.view v).template = none) :
    world.Leaves concerned among kept ((update v fun view => { view with
      rendered := true }).after world) where
  frames := List.Subset.refl _
  size := Nat.le_refl _
  tidy tidy := tidy
  sorts _ _ := rfl
  children _ _ := rfl
  blueprints _ _ := rfl
  members _ _ := rfl
  collections _ _ _ := rfl
  views other _ := by
    by_cases same : other = v
    · subst same
      refine .inr ⟨inside, fresh, ?_, ?_, fun _ => ?_, fun t found => ?_⟩
      · rw [view_update]
      · rw [view_update]
      · rw [view_update]
      · rw [bare] at found
        cases found
    · refine .inl ⟨?_, ?_, ?_⟩ <;> rw [view_update_of_ne _ _ same]

theorem leaves_setElement {v : ViewId} (inside : among (.view v))
    (fresh : (world.view v).rendered = false) {t : TemplateId}
    (found : (world.view v).template = some t) {later : World σ} {n : NodeId}
    (leaves : world.Leaves concerned among kept later)
    (template : (later.view v).template = (world.view v).template)
    {sort : NodeKind} (brings : world.Brings concerned sort later n) :
    world.Leaves concerned among kept ((update v fun view => { view with
      element := some n, rendered := true }).after later) := by
  exact { leaves with
    views := fun other concerns => by
      by_cases this : other = v
      · subst this
        refine .inr ⟨inside, fresh, ?_, ?_, fun bare => ?_, fun _ _ =>
          ⟨n, ?_, brings.new, brings.there, brings.solid⟩⟩
        · rw [view_update]
        · rw [view_update]
          exact template
        · rw [bare] at found
          cases found
        · rw [view_update]
      · have kept : ((update v fun view =>
            { view with element := some n, rendered := true }).after
              later).view other = later.view other :=
          view_update_of_ne _ _ this
        rcases leaves.views other concerns with same | ⟨within, renders⟩
        · exact .inl ⟨by rw [kept, same.template], by rw [kept, same.element],
            by rw [kept, same.rendered]⟩
        · exact .inr ⟨within, renders.before, by rw [kept, renders.after],
            by rw [kept, renders.template],
            fun bare => by rw [kept, renders.bare bare],
            fun t found => by rw [kept]; exact renders.element t found⟩ }

private theorem settles_setElement {v : ViewId} (inside : among (.view v))
    (fresh : (world.view v).rendered = false) {t : TemplateId}
    (found : (world.view v).template = some t) {later : World σ} {n : NodeId}
    (leaves : world.Leaves concerned among kept later)
    (concerns : concerned (.view v)) {sort : NodeKind}
    (brings : world.Brings concerned sort later n) :
    let final := (settleRender v (.ok n)).after later
    world.Leaves concerned among kept final ∧
      (final.view v).rendered = true ∧
      ∀ m, (final.view v).element = some m → world.dom.nodes.size ≤ m.index →
        ∀ other, other ≠ v → concerned (.view other) →
          (final.view other).element ≠ some m := by
  have template : (later.view v).template = (world.view v).template := by
    rcases leaves.views v concerns with same | ⟨_, renders⟩
    · exact same.template
    · exact renders.template
  have settled : (settleRender v (.ok n)).after later =
      (update v fun view =>
        { view with element := some n, rendered := true }).after later := rfl
  dsimp only
  rw [settled]
  refine ⟨leaves_setElement inside fresh found leaves template brings, ?_, ?_⟩
  · rw [view_update]
  · intro m element _ other differs concerns
    rw [view_update] at element
    cases element
    rw [view_update_of_ne _ _ differs]
    exact brings.unclaimed other concerns

theorem leaves_renderWithin (minds : host.Minds concerned guarded) (fuel : Nat) :
    StaysAside concerned among kept guarded (renderWithin host fuel) := by
  induction fuel with
  | zero => exact fun v world inside scope fresh =>
      ⟨.refl world, fun impossible => by cases impossible⟩
  | succ fuel ih =>
      intro v world inside scope fresh
      have runs := run_renderWithin host fuel v world
      rw [if_neg (by simp [fresh])] at runs
      cases found : (world.view v).template with
      | none =>
          rw [found] at runs
          have after : (renderWithin host (fuel + 1) v).after world =
              (update v fun view => { view with rendered := true }).after
                world := congrArg Prod.snd runs
          rw [after]
          refine ⟨leaves_markRendered inside fresh found, fun _ => ⟨?_, ?_⟩⟩
          · rw [view_update]
          · intro n element new
            rw [view_update] at element
            exact absurd (scope.elements v n (scope.within _ inside) element).1
              (Nat.not_lt.mpr new)
      | some t =>
          rw [found] at runs
          have after : (renderWithin host (fuel + 1) v).after world =
              (keeping (.refs [.view v]) (Template.renderWith host
                (mountWith (renderWithin host fuel)) t) >>=
                  settleRender v).after world := congrArg Prod.snd runs
          have result : (renderWithin host (fuel + 1) v).result world =
              (keeping (.refs [.view v]) (Template.renderWith host
                (mountWith (renderWithin host fuel)) t) >>=
                  settleRender v).result world := congrArg Prod.fst runs
          rw [after, result, Act.after_bind, Act.result_bind, after_keeping,
            result_keeping]
          obtain ⟨left, made⟩ := Template.leaves_renderWith minds ih.mount
            (scope.templates v t inside fresh found)
            (scope.enter (.refs [.view v]))
          generalize (Template.renderWith host (mountWith
            (renderWithin host fuel)) t).result _ = outcome at made ⊢
          generalize (Template.renderWith host (mountWith
            (renderWithin host fuel)) t).after _ = later at left made ⊢
          have kept := left.reframe (List.Subset.refl world.frames)
          cases outcome with
          | error error => exact ⟨kept, fun impossible => by cases impossible⟩
          | ok n =>
              obtain ⟨new, there, sort, solid, unclaimed⟩ := made n rfl
              have settled := settles_setElement inside fresh found kept
                (scope.within _ inside) ⟨new, there, sort, solid, unclaimed⟩
              exact ⟨settled.1, fun _ => settled.2⟩

/-- Mounting a view leaves alone what is not part of it. -/
theorem staysAside_mount (minds : host.Minds concerned guarded) :
    Mounter.StaysAside concerned among kept guarded (View.mount host) := by
  refine StaysAside.mount fun v world inside scope fresh => ?_
  unfold View.render
  rw [Act.after_bind, Act.after_get, Act.result_get, Act.result_bind,
    Act.after_get, Act.result_get]
  exact leaves_renderWithin minds _ v world inside scope fresh

end View

end Passes

end LiveTemplate
