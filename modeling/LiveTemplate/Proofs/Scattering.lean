import LiveTemplate.Proofs.Composition
import LiveTemplate.Proofs.Displays
import LiveTemplate.Proofs.Moving
import LiveTemplate.Proofs.Trees

/-!
# Members that keep apart

Nodes and views that were there before a template is rendered are moved into
the new tree as they are.  They do so without getting into each other's way if
none of them has two places and none is inside the tree of another: what is
moved, what it is taken from, and what is below it then belong to one member
only.

`World.Spares` says what a computation leaves alone, and `World.Awaits` that
everything some members stand for is still as it was at the beginning.
-/

namespace LiveTemplate

variable {σ : Type}

/-- A parent has been written before. -/
theorem Dom.lt_size_of_child {dom : Dom} {parent child : NodeId}
    (member : child ∈ dom.children parent) :
    parent.index < dom.nodes.size := by
  by_contra beyond
  have missing : dom.nodes.rows[parent.index]? = none :=
    Array.getElem?_eq_none (Nat.le_of_not_lt beyond)
  have none : dom.children parent = [] := by
    simp only [Dom.children, Dom.node, Store.get, missing, Option.getD_none]
    rfl
  rw [none] at member
  cases member

/-- The node a member stands for as it is: a node itself, or the element of a
view that is not rendered on the way. -/
def Member.root? (world : World σ) : Member → Option NodeId
  | .template _ => none
  | .view v =>
      if (world.view v).rendered = false ∧ (world.view v).template.isSome then
        none
      else (world.view v).element
  | .collection _ => none
  | .node n => some n

/-- A member stands at a place among others and what they are composed of. -/
def StandsAmong (world : World σ) (members : List Member) :
    List Nat → Member → Prop
  | [], _ => False
  | index :: place, inner =>
      ∃ member, members[index]? = some member ∧
        Stands world member place inner

/-- Every place among some members is one among others. -/
def World.Includes (world : World σ) (outer inner : List Member) : Prop :=
  ∃ place : List Nat → List Nat, place.Injective ∧
    ∀ p member, StandsAmong world inner p member →
      StandsAmong world outer (place p) member

namespace World

variable {world : World σ}

theorem includes_children {t : TemplateId}
    (element : (world.template t).blueprint.text = none) :
    world.Includes [.template t] (world.template t).blueprint.children := by
  refine ⟨List.cons 0, List.cons_injective, fun p inner stands => ?_⟩
  cases p with
  | nil => exact stands.elim
  | cons index place =>
      obtain ⟨child, found, stands⟩ := stands
      exact ⟨_, rfl, .template element found stands⟩

theorem includes_members (c : CollectionId) :
    world.Includes [.collection c]
      ((world.collection c).members.map .view) := by
  refine ⟨List.cons 0, List.cons_injective, fun p inner stands => ?_⟩
  cases p with
  | nil => exact stands.elim
  | cons index place =>
      obtain ⟨child, found, stands⟩ := stands
      rw [List.getElem?_map, Option.map_eq_some_iff] at found
      obtain ⟨v, found, rfl⟩ := found
      exact ⟨_, rfl, .collection found stands⟩

theorem includes_template {v : ViewId} {t : TemplateId}
    (fresh : (world.view v).rendered = false)
    (found : (world.view v).template = some t) :
    world.Includes [.view v] [.template t] := by
  refine ⟨List.cons 0, List.cons_injective, fun p inner stands => ?_⟩
  cases p with
  | nil => exact stands.elim
  | cons index place =>
      cases index with
      | zero =>
          obtain ⟨_, same, stands⟩ := stands
          cases same
          exact ⟨_, rfl, .view fresh found stands⟩
      | succ index =>
          obtain ⟨_, missing, _⟩ := stands
          cases missing

theorem includes_head (member : Member) (rest : List Member) :
    world.Includes (member :: rest) [member] := by
  refine ⟨id, Function.injective_id, fun p inner stands => ?_⟩
  cases p with
  | nil => exact stands.elim
  | cons index place =>
      cases index with
      | zero => exact stands
      | succ index =>
          obtain ⟨_, missing, _⟩ := stands
          cases missing

theorem includes_tail (member : Member) (rest : List Member) :
    world.Includes (member :: rest) rest := by
  refine ⟨fun p => p.modifyHead Nat.succ, ?_, fun p inner stands => ?_⟩
  · intro p q same
    cases p <;> cases q <;> simp_all
  · cases p with
    | nil => exact stands.elim
    | cons index place => exact stands

end World

namespace World

section Members

variable (world : World σ) (members : List Member)

/-- A view stands among members. -/
def Sees (v : ViewId) : Prop :=
  ∃ place, StandsAmong world members place (.view v)

/-- A node is moved as it is. -/
def Roots (r : NodeId) : Prop :=
  ∃ place member, StandsAmong world members place member ∧
    member.root? world = some r

/-- A node is inside one that is moved. -/
def Owns (n : NodeId) : Prop :=
  ∃ r, world.Roots members r ∧ world.dom.Inside r n

/-- A node is moved, or another one is taken out of it. -/
def Touches (n : NodeId) : Prop :=
  ∃ r, world.Roots members r ∧
    (n = r ∨ world.dom.parent? r = some n ∨ n ∈ world.dom.moved r)

/-- What is moved are finite trees, none inside another, and no view has two
places. -/
structure Scatters : Prop where
  trees : ∀ r, world.Roots members r → world.dom.IsTree r
  views : ∀ p q v, StandsAmong world members p (.view v) →
    StandsAmong world members q (.view v) → p = q
  roots : ∀ p q one other r s, StandsAmong world members p one →
    StandsAmong world members q other → one.root? world = some r →
    other.root? world = some s → world.dom.Inside r s → p = q

end Members

variable {world : World σ} {outer inner members : List Member}

theorem Includes.sees (included : world.Includes outer inner) {v : ViewId}
    (sees : world.Sees inner v) : world.Sees outer v := by
  obtain ⟨_, _, maps⟩ := included
  obtain ⟨place, stands⟩ := sees
  exact ⟨_, maps place _ stands⟩

theorem Includes.roots (included : world.Includes outer inner) {r : NodeId}
    (roots : world.Roots inner r) : world.Roots outer r := by
  obtain ⟨_, _, maps⟩ := included
  obtain ⟨place, member, stands, root⟩ := roots
  exact ⟨_, member, maps place _ stands, root⟩

theorem Includes.owns (included : world.Includes outer inner) {n : NodeId}
    (owns : world.Owns inner n) : world.Owns outer n := by
  obtain ⟨r, roots, inside⟩ := owns
  exact ⟨r, included.roots roots, inside⟩

theorem Includes.touches (included : world.Includes outer inner) {n : NodeId}
    (touches : world.Touches inner n) : world.Touches outer n := by
  obtain ⟨r, roots, moves⟩ := touches
  exact ⟨r, included.roots roots, moves⟩

theorem sees_self (v : ViewId) (rest : List Member) :
    world.Sees (.view v :: rest) v := by
  exact ⟨[0], .view v, rfl, .here _⟩

theorem roots_self {member : Member} {r : NodeId}
    (root : member.root? world = some r) (rest : List Member) :
    world.Roots (member :: rest) r := by
  exact ⟨[0], member, ⟨member, rfl, .here _⟩, root⟩

theorem Roots.owns {r : NodeId} (roots : world.Roots members r) :
    world.Owns members r := by
  exact ⟨r, roots, .here r⟩

namespace Scatters

theorem included (scatters : world.Scatters outer)
    (included : world.Includes outer inner) : world.Scatters inner := by
  obtain ⟨place, injective, maps⟩ := included
  refine ⟨fun r roots => scatters.trees r (Includes.roots ⟨place, injective,
    maps⟩ roots), fun p q v first second => injective ?_,
    fun p q one other r s first second root below inside => injective ?_⟩
  · exact scatters.views _ _ v (maps _ _ first) (maps _ _ second)
  · exact scatters.roots _ _ one other r s (maps _ _ first) (maps _ _ second)
      root below inside

theorem lt_of_owns (scatters : world.Scatters members) {n : NodeId}
    (owns : world.Owns members n) : n.index < world.dom.nodes.size := by
  obtain ⟨r, roots, inside⟩ := owns
  exact ((scatters.trees r roots).inside inside).there

/-- What is touched is owned or the former parent of a root. -/
theorem lt_of_touches (scatters : world.Scatters members)
    (linked : world.dom.IsLinked) {n : NodeId}
    (touches : world.Touches members n) :
    n.index < world.dom.nodes.size := by
  obtain ⟨r, roots, rfl | above | moved⟩ := touches
  · exact (scatters.trees _ roots).there
  · exact Dom.lt_size_of_child ((linked n r).mpr above)
  · unfold Dom.moved at moved
    split at moved
    · exact ((scatters.trees r roots).child moved).there
    · cases List.mem_singleton.mp moved
      exact (scatters.trees _ roots).there

end Scatters

/-- No view stands in both, and no root of one is inside a root of the other. -/
structure Apart (world : World σ) (one other : List Member) : Prop where
  views : ∀ v, world.Sees one v → ¬world.Sees other v
  inside : ∀ r s, world.Roots one r → world.Roots other s →
    ¬world.dom.Inside r s
  around : ∀ r s, world.Roots one r → world.Roots other s →
    ¬world.dom.Inside s r

theorem Scatters.apart {member : Member} {rest : List Member}
    (scatters : world.Scatters (member :: rest)) :
    world.Apart [member] rest := by
  have first {p : List Nat} {inner : Member}
      (stands : StandsAmong world [member] p inner) :
      ∃ place, StandsAmong world (member :: rest) (0 :: place) inner := by
    cases p with
    | nil => exact stands.elim
    | cons index place =>
        cases index with
        | zero => exact ⟨place, stands⟩
        | succ index =>
            obtain ⟨_, missing, _⟩ := stands
            cases missing
  have second {p : List Nat} {inner : Member}
      (stands : StandsAmong world rest p inner) :
      ∃ index place,
        StandsAmong world (member :: rest) ((index + 1) :: place) inner := by
    cases p with
    | nil => exact stands.elim
    | cons index place => exact ⟨index, place, stands⟩
  refine ⟨?_, ?_, ?_⟩
  · rintro v ⟨_, left⟩ ⟨_, right⟩
    obtain ⟨place, left⟩ := first left
    obtain ⟨index, other, right⟩ := second right
    cases scatters.views _ _ v left right
  · rintro r s ⟨_, one, left, root⟩ ⟨_, other, right, below⟩ inside
    obtain ⟨place, left⟩ := first left
    obtain ⟨index, elsewhere, right⟩ := second right
    cases scatters.roots _ _ one other r s left right root below inside
  · rintro r s ⟨_, one, left, root⟩ ⟨_, other, right, below⟩ inside
    obtain ⟨place, left⟩ := first left
    obtain ⟨index, elsewhere, right⟩ := second right
    cases scatters.roots _ _ other one s r right left below root inside

namespace Apart

variable {one other : List Member}

theorem symm (apart : world.Apart one other) : world.Apart other one where
  views v right left := apart.views v left right
  inside r s right left := apart.around s r left right
  around r s right left := apart.inside s r left right

theorem owns (apart : world.Apart one other) (linked : world.dom.IsLinked)
    {n : NodeId} (left : world.Owns one n) : ¬world.Owns other n := by
  obtain ⟨r, roots, above⟩ := left
  rintro ⟨s, others, beyond⟩
  rcases linked.nested above beyond with inside | inside
  · exact apart.inside r s roots others inside
  · exact apart.around r s roots others inside

/-- Moving the roots of one leaves alone what the other owns. -/
theorem touches (apart : world.Apart one other) (linked : world.dom.IsLinked)
    {n : NodeId} (left : world.Touches one n) : ¬world.Owns other n := by
  obtain ⟨r, roots, rfl | above | moved⟩ := left
  · exact apart.owns linked roots.owns
  · rintro ⟨s, others, inside⟩
    exact apart.around r s roots others
      (inside.trans (.child ((linked n r).mpr above)))
  · refine apart.owns linked ⟨r, roots, ?_⟩
    unfold Dom.moved at moved
    split at moved
    · exact .child moved
    · rw [List.mem_singleton.mp moved]
      exact .here r

end Apart

/-- Nodes that were there and are not touched are as they were, and so are
views that are not seen. -/
structure Spares (touched : NodeId → Prop) (seen : ViewId → Prop)
    (world later : World σ) : Prop where
  advances : world.Advances later
  properties : later.properties = world.properties
  size : world.dom.nodes.size ≤ later.dom.nodes.size
  nodes : ∀ n, n.index < world.dom.nodes.size → ¬touched n →
    later.dom.node n = world.dom.node n
  views : ∀ v, ¬seen v → later.view v = world.view v

namespace Spares

variable {touched wider : NodeId → Prop} {seen broader : ViewId → Prop}
  {between later : World σ}

theorem of_dom {dom : Dom} (size : world.dom.nodes.size ≤ dom.nodes.size)
    (nodes : ∀ n, n.index < world.dom.nodes.size → ¬touched n →
      dom.node n = world.dom.node n) :
    Spares touched seen world { world with dom := dom } where
  advances := ⟨fun _ => rfl, fun _ => rfl, fun _ => rfl, fun _ same => same⟩
  properties := rfl
  size := size
  nodes := nodes
  views _ _ := rfl

theorem refl (world : World σ) : Spares touched seen world world := by
  exact .of_dom (Nat.le_refl _) fun _ _ _ => rfl

theorem trans (first : Spares touched seen world between)
    (second : Spares touched seen between later) :
    Spares touched seen world later where
  advances := first.advances.trans second.advances
  properties := second.properties.trans first.properties
  size := Nat.le_trans first.size second.size
  nodes n old untouched :=
    (second.nodes n (Nat.lt_of_lt_of_le old first.size) untouched).trans
      (first.nodes n old untouched)
  views v unseen := (second.views v unseen).trans (first.views v unseen)

theorem mono (spares : Spares touched seen world later)
    (nodes : ∀ n, n.index < world.dom.nodes.size → touched n → wider n)
    (views : ∀ v, seen v → broader v) : Spares wider broader world later where
  advances := spares.advances
  properties := spares.properties
  size := spares.size
  nodes n old untouched :=
    spares.nodes n old fun inside => untouched (nodes n old inside)
  views v unseen := spares.views v fun inside => unseen (views v inside)

/-- What is held meanwhile makes no difference. -/
theorem release {frames : List Frame}
    (spares : Spares touched seen (world.holding frames) later)
    (restored : List Frame) :
    Spares touched seen world (later.holding restored) := by
  exact ⟨⟨spares.advances.blueprints, spares.advances.members,
    spares.advances.templates, spares.advances.rendered⟩, spares.properties,
    spares.size, spares.nodes, spares.views⟩

theorem held (spares : Spares touched seen world later)
    (frames : List Frame) :
    Spares touched seen world (later.holding frames) := by
  exact ⟨⟨spares.advances.blueprints, spares.advances.members,
    spares.advances.templates, spares.advances.rendered⟩, spares.properties,
    spares.size, spares.nodes, spares.views⟩

theorem property (spares : Spares touched seen world later) :
    later.property = world.property := by
  funext o name
  simp only [World.property, World.propertiesOf, spares.properties]

theorem of_setup (setup : world.SameSetup later)
    (properties : later.properties = world.properties)
    (dom : later.dom = world.dom) : Spares touched seen world later where
  advances := setup.advances
  properties := properties
  size := by rw [dom]
  nodes n _ _ := by rw [dom]
  views v _ := setup.views v

theorem createNode (kind : NodeKind) :
    Spares touched seen world ((LiveTemplate.createNode kind).after world) := by
  refine .of_dom (Nat.le_trans (Nat.le_succ _)
    (Nat.le_of_eq (world.dom.size_create kind).symm)) fun n old _ => ?_
  refine world.dom.node_create_of_ne kind fun same => ?_
  rw [same] at old
  exact Nat.lt_irrefl _ old

end Spares

theorem Draws.spares {n : NodeId} {kind : NodeKind} {requests : List Request}
    {seen : ViewId → Prop} {later : World σ}
    (draws : Draws n kind requests world later) :
    Spares (· = n) seen world later where
  advances := draws.setup.advances
  properties := draws.properties
  size := draws.dom.size
  nodes other _ differs := draws.dom.others other differs
  views v _ := draws.setup.views v

/-- Everything that members own and see is as it was. -/
def Awaits (world : World σ) (members : List Member) (later : World σ) :
    Prop :=
  world.Spares (fun n => ¬world.Owns members n)
    (fun v => ¬world.Sees members v) later

namespace Awaits

variable {between later : World σ}

theorem refl (world : World σ) (members : List Member) :
    world.Awaits members world :=
  Spares.refl world

theorem included (awaits : world.Awaits outer later)
    (included : world.Includes outer inner) : world.Awaits inner later := by
  refine Spares.mono awaits
    (fun _ _ foreign owns => foreign (included.owns owns))
    fun _ unseen sees => ?_
  exact unseen (included.sees sees)

theorem spared (awaits : world.Awaits members between)
    {touched : NodeId → Prop} {seen : ViewId → Prop}
    (spares : between.Spares touched seen later)
    (nodes : ∀ n, touched n → ¬world.Owns members n)
    (views : ∀ v, seen v → ¬world.Sees members v) :
    world.Awaits members later := by
  exact Spares.trans awaits (spares.mono (fun n _ => nodes n) views)

/-- What is held meanwhile makes no difference. -/
theorem held (awaits : world.Awaits members later) (frames : List Frame) :
    world.Awaits members (later.holding frames) :=
  Spares.held awaits frames

theorem view (awaits : world.Awaits members later) {v : ViewId}
    (sees : world.Sees members v) : later.view v = world.view v :=
  Spares.views awaits v (not_not_intro sees)

theorem node (awaits : world.Awaits members later)
    (scatters : world.Scatters members) {n : NodeId}
    (owns : world.Owns members n) : later.dom.node n = world.dom.node n := by
  exact Spares.nodes awaits n (scatters.lt_of_owns owns) (not_not_intro owns)

theorem sameBelow (awaits : world.Awaits members later)
    (scatters : world.Scatters members) {r : NodeId}
    (roots : world.Roots members r) : world.dom.SameBelow later.dom r := by
  exact .of_nodes fun _ inside => awaits.node scatters ⟨r, roots, inside⟩

end Awaits

end World

end LiveTemplate
