import LiveTemplate.Proofs.Building

/-!
# What rendering leaves alone

While something is rendered, the children of certain nodes are to stay as they
are, and so are the views and collections that are not part of it.  Rendering
moves nodes that were there before and makes new ones; as long as none of the
former is among those children, nothing happens to them.

`World.Leaves` is the relation between the world before and after, and
`World.Scope` what it takes for a pass to stay within it.  The code of a client
is called in between; `Host.Minds` asks the same of it.
-/

namespace LiveTemplate

variable {σ : Type}

namespace World

/-- A view is rendered from the same template and has come to the same. -/
structure SameView (world later : World σ) (v : ViewId) : Prop where
  template : (later.view v).template = (world.view v).template
  element : (later.view v).element = (world.view v).element
  rendered : (later.view v).rendered = (world.view v).rendered

/-- A view has been rendered meanwhile.  Its element is new, unless it has no
template. -/
structure Renders (world later : World σ) (v : ViewId) : Prop where
  before : (world.view v).rendered = false
  after : (later.view v).rendered = true
  template : (later.view v).template = (world.view v).template
  bare : (world.view v).template = none →
    (later.view v).element = (world.view v).element
  element : ∀ t, (world.view v).template = some t →
    ∃ n, (later.view v).element = some n ∧
      world.dom.nodes.size ≤ n.index ∧ n.index < later.dom.nodes.size ∧
        later.dom.isFragment n = false

section Relations

variable (concerned among : Member → Prop) (kept guarded : NodeId → Prop)

/-- Certain nodes keep their children.  Of what is concerned, definitions and
members stay, and so does all else but for what is being rendered. -/
structure Leaves (world later : World σ) : Prop where
  frames : world.frames ⊆ later.frames
  size : world.dom.nodes.size ≤ later.dom.nodes.size
  tidy : world.dom.IsTidy → later.dom.IsTidy
  sorts : ∀ n, n.index < world.dom.nodes.size →
    later.dom.sort n = world.dom.sort n
  children : ∀ n, kept n → later.dom.children n = world.dom.children n
  blueprints : ∀ t, concerned (.template t) →
    (later.template t).blueprint = (world.template t).blueprint
  members : ∀ c, concerned (.collection c) →
    (later.collection c).members = (world.collection c).members
  collections : ∀ c, concerned (.collection c) → ¬among (.collection c) →
    later.collection c = world.collection c
  views : ∀ v, concerned (.view v) →
    world.SameView later v ∨ among (.view v) ∧ world.Renders later v

/-- What is being rendered is concerned, with all it is composed of.  None of
the nodes that it moves is a child that is to stay.  The nodes that are to keep
their children are guarded, or held by a computation under way. -/
structure Scope (world : World σ) : Prop where
  tidy : world.dom.IsTidy
  old : ∀ n, kept n → n.index < world.dom.nodes.size
  held : ∀ n, kept n → guarded n ∨ .refs [.node n] ∈ world.frames
  elements : ∀ v n, concerned (.view v) → (world.view v).element = some n →
    n.index < world.dom.nodes.size ∧ world.dom.isFragment n = false
  within : ∀ member, among member → concerned member
  nested : ∀ t child, among (.template t) →
    (world.template t).blueprint.text = none →
    child ∈ (world.template t).blueprint.children → among child
  members : ∀ c v, among (.collection c) →
    v ∈ (world.collection c).members → among (.view v)
  templates : ∀ v t, among (.view v) → (world.view v).rendered = false →
    (world.view v).template = some t → among (.template t)
  free : ∀ member r, among member → member.root? world = some r →
    ¬kept r ∧ ∀ n, kept n → r ∉ world.dom.children n

end Relations

end World

/-- Transforms leave alone what is concerned, and leave their children to the
nodes that are guarded or held. -/
def Host.Minds (host : Host σ) (concerned : Member → Prop)
    (guarded : NodeId → Prop) : Prop :=
  ∀ handler value node, (host.transform handler value node).Within
    fun world later => world.Leaves concerned (fun _ => False)
      (fun n => guarded n ∨ .refs [.node n] ∈ world.frames) later

namespace World

variable {concerned among : Member → Prop} {kept guarded : NodeId → Prop}
  {world between later : World σ}

theorem SameView.refl (world : World σ) (v : ViewId) :
    world.SameView world v := by
  exact ⟨rfl, rfl, rfl⟩

theorem SameView.trans {v : ViewId} (first : world.SameView between v)
    (second : between.SameView later v) : world.SameView later v := by
  exact ⟨second.template.trans first.template, second.element.trans
    first.element, second.rendered.trans first.rendered⟩

theorem SameView.root? {v : ViewId} (same : world.SameView later v) :
    Member.root? later (.view v) = Member.root? world (.view v) := by
  simp only [Member.root?, same.template, same.element, same.rendered]

/-- What a view without a template stands for stays, the element of any other
is new. -/
theorem Renders.root? {v : ViewId} {r : NodeId} (renders : world.Renders later v)
    (root : Member.root? later (.view v) = some r) :
    Member.root? world (.view v) = some r ∨
      world.dom.nodes.size ≤ r.index := by
  have element : (later.view v).element = some r := by
    simpa [Member.root?, renders.after] using root
  cases found : (world.view v).template with
  | none =>
      left
      rw [renders.bare found] at element
      simpa [Member.root?, found] using element
  | some t =>
      right
      obtain ⟨n, made, new, _⟩ := renders.element t found
      rw [made] at element
      cases element
      exact new

/-- A view that stands for a node keeps standing for it. -/
theorem Renders.root?_stays {v : ViewId} {r : NodeId}
    (renders : world.Renders later v)
    (root : Member.root? world (.view v) = some r) :
    Member.root? later (.view v) = some r := by
  cases found : (world.view v).template with
  | none =>
      have element : (world.view v).element = some r := by
        simpa [Member.root?, found] using root
      simp [Member.root?, renders.after, renders.bare found, element]
  | some t => simp [Member.root?, renders.before, found] at root

theorem element_of_root? {v : ViewId} {r : NodeId}
    (root : Member.root? world (.view v) = some r) :
    (world.view v).element = some r := by
  simp only [Member.root?] at root
  split at root
  · cases root
  · exact root

namespace Leaves

theorem refl (world : World σ) : Leaves concerned among kept world world where
  frames := List.Subset.refl _
  size := Nat.le_refl _
  tidy tidy := tidy
  sorts _ _ := rfl
  children _ _ := rfl
  blueprints _ _ := rfl
  members _ _ := rfl
  collections _ _ _ := rfl
  views v _ := .inl (.refl world v)

/-- Nodes stay fragments, and others do not become any. -/
theorem isFragment (leaves : Leaves concerned among kept world later)
    {n : NodeId} (old : n.index < world.dom.nodes.size) :
    later.dom.isFragment n = world.dom.isFragment n :=
  Dom.isFragment_of_sort (leaves.sorts n old)

theorem isText (leaves : Leaves concerned among kept world later)
    {n : NodeId} (old : n.index < world.dom.nodes.size) :
    later.dom.isText n = world.dom.isText n :=
  Dom.isText_of_sort (leaves.sorts n old)

theorem trans (first : Leaves concerned among kept world between)
    (second : Leaves concerned among kept between later) :
    Leaves concerned among kept world later where
  frames := List.Subset.trans first.frames second.frames
  size := Nat.le_trans first.size second.size
  tidy tidy := second.tidy (first.tidy tidy)
  sorts n old :=
    (second.sorts n (Nat.lt_of_lt_of_le old first.size)).trans
      (first.sorts n old)
  children n stays := (second.children n stays).trans (first.children n stays)
  blueprints t concerns :=
    (second.blueprints t concerns).trans (first.blueprints t concerns)
  members c concerns :=
    (second.members c concerns).trans (first.members c concerns)
  collections c concerns apart :=
    (second.collections c concerns apart).trans
      (first.collections c concerns apart)
  views v concerns := by
    rcases first.views v concerns with same | ⟨inside, renders⟩
    · rcases second.views v concerns with after | ⟨inside, renders⟩
      · exact .inl (same.trans after)
      · refine .inr ⟨inside, same.rendered ▸ renders.before, renders.after,
          renders.template.trans same.template, fun bare => ?_,
          fun t found => ?_⟩
        · exact (renders.bare (same.template.trans bare)).trans same.element
        · obtain ⟨n, element, new, there⟩ :=
            renders.element t (same.template.trans found)
          exact ⟨n, element, Nat.le_trans first.size new, there⟩
    · rcases second.views v concerns with same | ⟨_, again⟩
      · refine .inr ⟨inside, renders.before, same.rendered.trans renders.after,
          same.template.trans renders.template,
          fun bare => same.element.trans (renders.bare bare),
          fun t found => ?_⟩
        obtain ⟨n, element, new, there, solid⟩ := renders.element t found
        exact ⟨n, same.element.trans element, new,
          Nat.lt_of_lt_of_le there second.size,
          (second.isFragment there).trans solid⟩
      · have before := again.before
        rw [renders.after] at before
        cases before

/-- What is held makes no difference. -/
theorem reframe {before : List Frame}
    (leaves : Leaves concerned among kept (world.holding before) later)
    {after : List Frame} (frames : world.frames ⊆ after) :
    Leaves concerned among kept world (later.holding after) := by
  exact { leaves with
    frames := frames
    views := fun v concerns => (leaves.views v concerns).imp
      (fun same => ⟨same.template, same.element, same.rendered⟩)
      fun ⟨inside, renders⟩ => ⟨inside, renders.before, renders.after,
        renders.template, renders.bare, renders.element⟩ }

theorem enter (leaves : Leaves concerned among kept world later)
    (frame : Frame) :
    Leaves concerned among kept world
      (later.holding (frame :: later.frames)) := by
  have same : Leaves concerned among kept (world.holding world.frames) later :=
    leaves
  exact same.reframe
    (List.Subset.trans leaves.frames (List.subset_cons_self _ _))

theorem leave (leaves : Leaves concerned among kept world between)
    (after : Leaves concerned among kept world later) :
    Leaves concerned among kept world (later.holding between.frames) := by
  have same : Leaves concerned among kept (world.holding world.frames) later :=
    after
  exact same.reframe leaves.frames

theorem root?_stays (leaves : Leaves concerned among kept world later)
    {v : ViewId} (concerns : concerned (.view v)) {r : NodeId}
    (root : Member.root? world (.view v) = some r) :
    Member.root? later (.view v) = some r := by
  rcases leaves.views v concerns with same | ⟨_, renders⟩
  · rw [same.root?]
    exact root
  · exact renders.root?_stays root

theorem element_solid (leaves : Leaves concerned among kept world later)
    {v : ViewId} (concerns : concerned (.view v))
    (before : ∀ n, (world.view v).element = some n →
      n.index < world.dom.nodes.size ∧ world.dom.isFragment n = false)
    {n : NodeId} (element : (later.view v).element = some n) :
    n.index < later.dom.nodes.size ∧ later.dom.isFragment n = false := by
  have stayed (found : (world.view v).element = some n) :
      n.index < later.dom.nodes.size ∧ later.dom.isFragment n = false := by
    obtain ⟨there, solid⟩ := before n found
    exact ⟨Nat.lt_of_lt_of_le there leaves.size,
      (leaves.isFragment there).trans solid⟩
  rcases leaves.views v concerns with same | ⟨_, renders⟩
  · exact stayed (same.element.symm.trans element)
  · cases found : (world.view v).template with
    | none => exact stayed ((renders.bare found).symm.trans element)
    | some t =>
        obtain ⟨made, there, _, inside, solid⟩ := renders.element t found
        rw [there] at element
        cases element
        exact ⟨inside, solid⟩

theorem mono {wider : Member → Prop} {fewer : NodeId → Prop}
    (leaves : Leaves concerned among kept world later)
    (includes : ∀ member, among member → wider member)
    (stays : ∀ n, fewer n → kept n) :
    Leaves concerned wider fewer world later := by
  exact { leaves with
    children := fun n stay => leaves.children n (stays n stay)
    collections := fun c concerns apart =>
      leaves.collections c concerns fun inside => apart (includes _ inside)
    views := fun v concerns =>
      (leaves.views v concerns).imp id fun ⟨inside, renders⟩ =>
        ⟨includes _ inside, renders⟩ }

theorem unconcern {fewer : Member → Prop}
    (leaves : Leaves concerned among kept world later)
    (includes : ∀ member, (∀ n, member ≠ .node n) → fewer member →
      concerned member) : Leaves fewer among kept world later := by
  exact { leaves with
    blueprints := fun t concerns =>
      leaves.blueprints t (includes _ nofun concerns)
    members := fun c concerns => leaves.members c (includes _ nofun concerns)
    collections := fun c concerns =>
      leaves.collections c (includes _ nofun concerns)
    views := fun v concerns => leaves.views v (includes _ nofun concerns) }

/-- Only listeners and templates change, and definitions stay. -/
theorem of_same (dom : later.dom = world.dom)
    (frames : later.frames = world.frames)
    (blueprints : ∀ t,
      (later.template t).blueprint = (world.template t).blueprint)
    (views : later.views = world.views)
    (collections : later.collections = world.collections) :
    Leaves concerned among kept world later where
  frames := frames ▸ List.Subset.refl _
  size := by rw [dom]
  tidy tidy := dom ▸ tidy
  sorts n _ := by rw [dom]
  children n _ := by rw [dom]
  blueprints t _ := blueprints t
  members c _ := by simp only [World.collection, collections]
  collections c _ _ := by simp only [World.collection, collections]
  views v _ := by
    have same : later.view v = world.view v := by
      simp only [World.view, views]
    exact .inl ⟨by rw [same], by rw [same], by rw [same]⟩

/-- Only the document changes. -/
theorem of_dom {dom : Dom} (size : world.dom.nodes.size ≤ dom.nodes.size)
    (tidy : world.dom.IsTidy → dom.IsTidy)
    (sorts : ∀ n, n.index < world.dom.nodes.size →
      dom.sort n = world.dom.sort n)
    (children : ∀ n, kept n → dom.children n = world.dom.children n) :
    Leaves concerned among kept world { world with dom := dom } where
  frames := List.Subset.refl _
  size := size
  tidy := tidy
  sorts := sorts
  children := children
  blueprints _ _ := rfl
  members _ _ := rfl
  collections _ _ _ := rfl
  views _ _ := .inl ⟨rfl, rfl, rfl⟩

end Leaves

/-- Moving a node changes nothing but children. -/
theorem leaves_appendChild (parent child : NodeId) (world : World σ) :
    world.Leaves concerned among (fun _ => False)
      { world with dom := world.dom.appendChild parent child } := by
  exact .of_dom (Dom.size_le_insertBefore _ _ _ _)
    (fun tidy => tidy.insertBefore _ _ _)
    (fun n _ => Dom.sort_congr
      (Dom.kind_insertBefore world.dom parent child none n)) nofun

namespace Scope

variable (scope : world.Scope concerned among kept guarded)

include scope

/-- What may be rendered before may be rendered afterwards. -/
theorem onward (leaves : world.Leaves concerned among kept later) :
    later.Scope concerned among kept guarded where
  tidy := leaves.tidy scope.tidy
  old n stays := Nat.lt_of_lt_of_le (scope.old n stays) leaves.size
  held n stays := (scope.held n stays).imp id fun inside => leaves.frames inside
  elements v n concerns element :=
    leaves.element_solid concerns (scope.elements v · concerns) element
  within := scope.within
  nested t child inside text member := by
    rw [leaves.blueprints t (scope.within _ inside)] at text member
    exact scope.nested t child inside text member
  members c v inside member := by
    rw [leaves.members c (scope.within _ inside)] at member
    exact scope.members c v inside member
  templates v t inside fresh found := by
    rcases leaves.views v (scope.within _ inside) with same | ⟨_, renders⟩
    · exact scope.templates v t inside (same.rendered ▸ fresh)
        (same.template ▸ found)
    · rw [renders.after] at fresh
      cases fresh
  free member r inside root := by
    have before (found : member.root? world = some r) :
        ¬kept r ∧ ∀ n, kept n → r ∉ later.dom.children n := by
      obtain ⟨other, outside⟩ := scope.free member r inside found
      refine ⟨other, fun n stays => ?_⟩
      rw [leaves.children n stays]
      exact outside n stays
    cases member with
    | template t => cases root
    | collection c => cases root
    | node n => exact before root
    | view v =>
        rcases leaves.views v (scope.within _ inside) with same | ⟨_, renders⟩
        · exact before (same.root?.symm.trans root)
        · rcases renders.root? root with found | new
          · exact before found
          · refine ⟨fun stays => absurd (scope.old r stays) (Nat.not_lt.mpr new),
              fun n stays member => ?_⟩
            rw [leaves.children n stays] at member
            exact absurd (scope.tidy.lt_size_of_mem member) (Nat.not_lt.mpr new)

theorem enter (frame : Frame) :
    (world.holding (frame :: world.frames)).Scope concerned among kept
      guarded :=
  scope.onward ((Leaves.refl world).enter frame)

/-- New nodes need not keep their children. -/
theorem not_kept {n : NodeId} (new : world.dom.nodes.size ≤ n.index) :
    ¬kept n := by
  intro stays
  exact absurd (scope.old n stays) (Nat.not_lt.mpr new)

/-- What may be put somewhere else leaves alone the nodes that keep their
children. -/
theorem leaves_append {parent child : NodeId} (outside : ¬kept parent)
    (other : ¬kept child) (absent : ∀ n, kept n → child ∉ world.dom.children n) :
    world.Leaves concerned among kept
      { world with dom := world.dom.appendChild parent child } := by
  exact { leaves_appendChild parent child world with
    children := fun n stays => by
      refine scope.tidy.children_insertBefore_of_ne none ?_ ?_ (absent n stays)
      · rintro rfl
        exact outside stays
      · rintro _ rfl
        exact other stays }

end Scope

/-- A node that is made is new. -/
theorem created (kind : NodeKind) (world : World σ) :
    let n := (createNode kind : Act σ NodeId).result world
    let later := (createNode kind).after world
    world.dom.nodes.size ≤ n.index ∧ n.index < later.dom.nodes.size ∧
      later.dom.kind n = kind := by
  refine ⟨Nat.le_refl _, ?_, ?_⟩
  · show world.dom.nodes.size < (world.dom.create kind).2.nodes.size
    rw [Dom.size_create]
    exact Nat.lt_succ_self _
  · exact congrArg Node.kind (world.dom.node_create_self kind)

/-- Making a node leaves all others alone. -/
theorem leaves_create (kind : NodeKind) (world : World σ) :
    world.Leaves concerned among kept ((createNode kind).after world) := by
  refine .of_dom (Dom.size_le_create _ _) (fun tidy => tidy.create kind)
    (fun n old => ?_) fun n _ => Dom.children_create _ _ n
  have differs : n ≠ (world.dom.create kind).1 := by
    rintro rfl
    exact Nat.lt_irrefl _ old
  exact Dom.sort_congr (Dom.kind_create_of_ne world.dom kind differs)

/-- What is closed under composition may be rendered, also after other things
have been, as long as it moves none of the children that are to stay. -/
theorem Scope.of_closed {start : World σ} {wide : Member → Prop}
    {none : NodeId → Prop} (passed : start.Leaves concerned wide none world)
    (closed : ∀ {member inner}, among member → start.Composes member inner →
      among inner)
    (concerns : ∀ member, among member → concerned member)
    (tidy : world.dom.IsTidy)
    (old : ∀ n, kept n → n.index < world.dom.nodes.size)
    (held : ∀ n, kept n → guarded n ∨ .refs [.node n] ∈ world.frames)
    (elements : ∀ v n, concerned (.view v) → (world.view v).element = some n →
      n.index < world.dom.nodes.size ∧ world.dom.isFragment n = false)
    (free : ∀ member r, among member → member.root? world = some r →
      ¬kept r ∧ ∀ n, kept n → r ∉ world.dom.children n) :
    world.Scope concerned among kept guarded where
  tidy := tidy
  old := old
  held := held
  elements := elements
  within := concerns
  nested t child inside text member := by
    rw [passed.blueprints t (concerns _ inside)] at text member
    exact closed inside (composes_child text member)
  members c v inside member := by
    rw [passed.members c (concerns _ inside)] at member
    exact closed inside (composes_member member)
  templates v t inside fresh found := by
    rcases passed.views v (concerns _ inside) with same | ⟨_, renders⟩
    · exact closed inside (composes_template (same.rendered ▸ fresh)
        (same.template ▸ found))
    · rw [renders.after] at fresh
      cases fresh
  free := free

theorem Scope.of_composes {start : World σ} {wide : Member → Prop}
    {none : NodeId → Prop} (passed : start.Leaves concerned wide none world)
    {top : Member} (concerns : ∀ m, start.Composes top m → concerned m)
    (tidy : world.dom.IsTidy)
    (old : ∀ n, kept n → n.index < world.dom.nodes.size)
    (held : ∀ n, kept n → guarded n ∨ .refs [.node n] ∈ world.frames)
    (elements : ∀ v n, concerned (.view v) → (world.view v).element = some n →
      n.index < world.dom.nodes.size ∧ world.dom.isFragment n = false)
    (free : ∀ member r, start.Composes top member →
      member.root? world = some r →
        ¬kept r ∧ ∀ n, kept n → r ∉ world.dom.children n) :
    world.Scope concerned (start.Composes top) kept guarded := by
  exact .of_closed passed (fun inside deeper => inside.trans deeper) concerns
    tidy old held elements free

section Conduct

variable (concerned among kept guarded)

/-- Whatever is being rendered, other things are left alone. -/
def StaysAside (world later : World σ) : Prop :=
  world.Scope concerned among kept guarded →
    world.Leaves concerned among kept later

theorem StaysAside.steady :
    Steady (StaysAside (σ := σ) concerned among kept guarded) where
  refl world _ := .refl world
  trans early late scope :=
    (early scope).trans (late (scope.onward (early scope)))
  release frame _ _ inner scope :=
    (inner (scope.enter frame)).reframe (List.Subset.refl _)

end Conduct

theorem StaysAside.of_same (dom : later.dom = world.dom)
    (frames : later.frames = world.frames)
    (templates : later.templates = world.templates)
    (views : later.views = world.views)
    (collections : later.collections = world.collections) :
    StaysAside concerned among kept guarded world later := by
  intro _
  exact .of_same dom frames (fun _ => by simp only [World.template, templates])
    views collections

end World

/-- What a pass does at one node leaves the rest alone. -/
theorem Host.Minds.bounds {host : Host σ} {concerned : Member → Prop}
    {guarded : NodeId → Prop} (minds : host.Minds concerned guarded)
    (among : Member → Prop) (kept : NodeId → Prop) :
    host.Bounds (fun _ n => ¬kept n)
      (World.StaysAside concerned among kept guarded) where
  toSteady := World.StaysAside.steady concerned among kept guarded
  transform handler value node world scope :=
    (minds handler value node world).mono (fun _ => False.elim) scope.held
  observable _ _ _ _ _ := .of_same rfl rfl rfl rfl rfl
  node _ _ _ _ _ := .of_same rfl rfl rfl rfl rfl
  attributes n change world _ := by
    exact .of_dom (Dom.size_le_modifyAttributes _ _ _)
      (fun tidy => tidy.modifyAttributes n change)
      (fun m _ => Dom.sort_modifyAttributes _ _ _ _)
      fun m _ => Dom.children_modifyAttributes _ _ _ _
  text n data world outside scope := by
    refine .of_dom (Dom.size_le_setText _ _ _) (fun tidy => tidy.setText n data)
      (fun m old => Dom.sort_setText _ _ _ old) fun m stays => ?_
    refine scope.tidy.children_setText_of_ne ?_ data
    rintro rfl
    exact outside stays
  stays _ outside := outside

/-- A client whose code only computes minds everything. -/
theorem Host.minds_quiet (concerned : Member → Prop) (guarded : NodeId → Prop) :
    (Host.quiet : Host σ).Minds concerned guarded := by
  intro _ _ _ world
  exact .refl world

end LiveTemplate
