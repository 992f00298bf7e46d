import Mathlib.Data.List.Nodup
import Mathlib.Data.List.Perm.Subperm
import LiveTemplate.Dom.Markup

/-!
# Finite trees in a document

`Dom.tree` stops after as many generations as there are nodes.  Below the root
of a finite tree that never happens: the nodes on a path are different ones, so
the tree of a node is made up of the trees of its children.

What is read below a node depends on the nodes inside it only.
-/

namespace LiveTemplate

theorem length_le_of_numbered {α : Type} {number : α → Nat} {items : List α}
    {bound : Nat} (injective : Function.Injective number) (nodup : items.Nodup)
    (below : ∀ a ∈ items, number a < bound) : items.length ≤ bound := by
  have within : items.map number ⊆ List.range bound := by
    intro index member
    obtain ⟨a, inside, rfl⟩ := List.mem_map.mp member
    exact List.mem_range.mpr (below a inside)
  have fits :=
    (List.subperm_of_subset (nodup.map injective) within).length_le
  rwa [List.length_map, List.length_range] at fits

end LiveTemplate

namespace LiveTemplate.Dom

/-- A node itself or a node somewhere below it. -/
inductive Inside (dom : Dom) : NodeId → NodeId → Prop where
  | here (n : NodeId) : Inside dom n n
  | under {n child inner : NodeId} :
      child ∈ dom.children n → Inside dom child inner → Inside dom n inner

/-- The nodes below a node are there, each of them once, and finitely many. -/
inductive IsTree (dom : Dom) : NodeId → Prop where
  | node {n : NodeId} :
      n.index < dom.nodes.size → (dom.children n).Nodup →
      (∀ child ∈ dom.children n, IsTree dom child) → IsTree dom n

variable {dom later : Dom} {n : NodeId}

namespace Inside

theorem child {parent child : NodeId} (member : child ∈ dom.children parent) :
    Inside dom parent child := by
  exact .under member (.here child)

theorem trans {outer middle inner : NodeId} (first : Inside dom outer middle)
    (second : Inside dom middle inner) : Inside dom outer inner := by
  induction first with
  | here => exact second
  | under member _ ih => exact .under member (ih second)

theorem parent {outer inner : NodeId} (inside : Inside dom outer inner) :
    inner = outer ∨
      ∃ parent, Inside dom outer parent ∧ inner ∈ dom.children parent := by
  induction inside with
  | here => exact .inl rfl
  | @under outer child inner member _ ih =>
      right
      rcases ih with rfl | ⟨parent, inside, among⟩
      · exact ⟨outer, .here outer, member⟩
      · exact ⟨parent, .under member inside, among⟩

end Inside

namespace IsTree

theorem there (isTree : IsTree dom n) : n.index < dom.nodes.size := by
  cases isTree with
  | node there => exact there

theorem nodup (isTree : IsTree dom n) : (dom.children n).Nodup := by
  cases isTree with
  | node _ nodup => exact nodup

theorem child (isTree : IsTree dom n) {child : NodeId}
    (member : child ∈ dom.children n) : IsTree dom child := by
  cases isTree with
  | node _ _ children => exact children child member

theorem inside (isTree : IsTree dom n) {inner : NodeId}
    (inside : Inside dom n inner) : IsTree dom inner := by
  induction inside with
  | here => exact isTree
  | under member _ ih => exact ih (isTree.child member)

theorem acyclic (isTree : IsTree dom n) :
    ∀ child ∈ dom.children n, ¬Inside dom child n := by
  induction isTree with
  | @node n _ _ _ ih =>
      intro child member inside
      cases inside with
      | here => exact ih n member n member (.here n)
      | under among deeper =>
          exact ih child member _ among (deeper.trans (.child member))

end IsTree

theorem Inside.of_children
    (same : ∀ n, later.children n = dom.children n) {inner : NodeId}
    (inside : Inside later n inner) : Inside dom n inner := by
  induction inside with
  | here n => exact .here n
  | under member _ ih => exact .under (same _ ▸ member) ih

theorem IsTree.of_children (same : ∀ n, later.children n = dom.children n)
    (grown : dom.nodes.size ≤ later.nodes.size) (isTree : IsTree dom n) :
    IsTree later n := by
  induction isTree with
  | node there once _ ih =>
      refine .node (Nat.lt_of_lt_of_le there grown) ?_ ?_
      · rw [same]
        exact once
      · rw [same]
        exact ih

theorem Inside.iff_of_childrenBelow
    (same : ∀ inner, Inside dom n inner →
      later.children inner = dom.children inner) {inner : NodeId} :
    Inside later n inner ↔ Inside dom n inner := by
  constructor
  · intro inside
    induction inside with
    | here n => exact .here n
    | @under n child inner member _ ih =>
        rw [same n (.here n)] at member
        exact .under member (ih fun m below => same m (.under member below))
  · intro inside
    induction inside with
    | here n => exact .here n
    | @under n child inner member _ ih =>
        refine .under ?_ (ih fun m below => same m (.under member below))
        rw [same n (.here n)]
        exact member

theorem IsTree.of_childrenBelow
    (same : ∀ inner, Inside dom n inner →
      later.children inner = dom.children inner)
    (grown : dom.nodes.size ≤ later.nodes.size) (isTree : IsTree dom n) :
    IsTree later n := by
  induction isTree with
  | @node n there once _ ih =>
      refine .node (Nat.lt_of_lt_of_le there grown) ?_ ?_
      · rw [same n (.here n)]
        exact once
      · rw [same n (.here n)]
        exact fun child member => ih child member fun m below =>
          same m (.under member below)

/-- No path in a tree has more nodes than there are. -/
theorem length_le_size {above : List NodeId} (nodup : above.Nodup)
    (there : ∀ a ∈ above, a.index < dom.nodes.size) :
    above.length ≤ dom.nodes.size := by
  refine length_le_of_numbered (fun left right same => ?_) nodup there
  cases left
  cases right
  exact congrArg NodeId.mk same

/-- More fuel than there are nodes makes no difference.  The nodes passed on
the way are kept: each is there, and the node is below it. -/
theorem treeWithin_succ (isTree : IsTree dom n) {above : List NodeId}
    (nodup : above.Nodup)
    (passed : ∀ a ∈ above, a.index < dom.nodes.size ∧
      ∃ child ∈ dom.children a, Inside dom child n) {fuel : Nat}
    (enough : dom.nodes.size ≤ fuel + above.length) :
    dom.treeWithin (fuel + 1) n = dom.treeWithin fuel n := by
  induction isTree generalizing above fuel with
  | @node n there once below ih =>
      have isTree : IsTree dom n := .node there once below
      have longer (member : ∃ child, child ∈ dom.children n) :
          (n :: above).Nodup ∧ ∀ a ∈ n :: above, a.index < dom.nodes.size := by
        refine ⟨List.nodup_cons.mpr ⟨fun before => ?_, nodup⟩, fun a inside => ?_⟩
        · obtain ⟨_, child, among, inside⟩ := passed n before
          exact isTree.acyclic child among inside
        · rcases List.mem_cons.mp inside with rfl | before
          · exact there
          · exact (passed a before).1
      cases fuel with
      | zero =>
          have none : dom.children n = [] := by
            rw [List.eq_nil_iff_forall_not_mem]
            intro child member
            obtain ⟨distinct, within⟩ := longer ⟨child, member⟩
            have bound := length_le_size distinct within
            rw [List.length_cons] at bound
            omega
          rw [treeWithin, treeWithin, none, List.map_nil]
      | succ fuel =>
          rw [treeWithin, treeWithin]
          congr 1
          apply List.map_congr_left
          intro child member
          obtain ⟨distinct, within⟩ := longer ⟨child, member⟩
          refine ih child member distinct (fun a inside => ⟨within a inside, ?_⟩)
            ?_
          · rcases List.mem_cons.mp inside with rfl | before
            · exact ⟨child, member, .here child⟩
            · obtain ⟨_, first, among, above⟩ := passed a before
              exact ⟨first, among, above.trans (.child member)⟩
          · rw [List.length_cons]
            omega

theorem tree_eq (isTree : IsTree dom n) :
    dom.tree n = .ofKind (dom.kind n) ((dom.children n).map dom.tree) := by
  have enough : dom.nodes.size ≤
      dom.nodes.size + ([] : List NodeId).length := Nat.le_refl _
  have stable := treeWithin_succ isTree List.nodup_nil
    (fun _ member => absurd member List.not_mem_nil) enough
  unfold tree
  rw [← stable, treeWithin]

/-- Two documents in which the same is found below a node. -/
def SameBelow (dom later : Dom) (n : NodeId) : Prop :=
  ∀ inner, Inside dom n inner →
    later.kind inner = dom.kind inner ∧
      later.children inner = dom.children inner

namespace SameBelow

theorem of_nodes (same : ∀ inner, Inside dom n inner →
    later.node inner = dom.node inner) : SameBelow dom later n := by
  intro inner inside
  unfold Dom.kind Dom.children
  rw [same inner inside]
  exact ⟨rfl, rfl⟩

theorem child (same : SameBelow dom later n) {child : NodeId}
    (member : child ∈ dom.children n) : SameBelow dom later child := by
  intro inner inside
  exact same inner (.under member inside)

theorem inside_iff (same : SameBelow dom later n) {inner : NodeId} :
    Inside later n inner ↔ Inside dom n inner := by
  exact Inside.iff_of_childrenBelow fun inner inside => (same inner inside).2

theorem trans {between : Dom} (first : SameBelow dom between n)
    (second : SameBelow between later n) : SameBelow dom later n := by
  intro inner inside
  obtain ⟨kind, children⟩ := second inner (first.inside_iff.mpr inside)
  rw [kind, children]
  exact first inner inside

theorem isTree (same : SameBelow dom later n) (isTree : IsTree dom n)
    (grown : dom.nodes.size ≤ later.nodes.size) : IsTree later n := by
  exact isTree.of_childrenBelow (fun inner inside => (same inner inside).2)
    grown

theorem tree_eq (same : SameBelow dom later n) (isTree : IsTree dom n)
    (grown : dom.nodes.size ≤ later.nodes.size) : later.tree n = dom.tree n := by
  induction isTree with
  | @node n there once below ih =>
      have before : IsTree dom n := .node there once below
      have children : (dom.children n).map later.tree =
          (dom.children n).map dom.tree := by
        apply List.map_congr_left
        exact fun child member => ih child member (same.child member)
      rw [Dom.tree_eq before, Dom.tree_eq (same.isTree before grown),
        (same n (.here n)).1, (same n (.here n)).2, children]

end SameBelow

/-- Children and parents are in step. -/
def IsLinked (dom : Dom) : Prop :=
  ∀ parent child, child ∈ dom.children parent ↔
    dom.parent? child = some parent

namespace IsLinked

/-- Of two nodes above a third one is above the other. -/
theorem nested (linked : IsLinked dom) {one other inner : NodeId}
    (first : Inside dom one inner) (second : Inside dom other inner) :
    Inside dom one other ∨ Inside dom other one := by
  induction first with
  | here => exact .inr second
  | @under one child inner member deeper ih =>
      rcases ih second with inside | inside
      · exact .inl (.under member inside)
      · rcases inside.parent with rfl | ⟨parent, above, among⟩
        · exact .inl (.child member)
        · have same : parent = one := by
            have left := (linked _ _).mp among
            rw [(linked _ _).mp member] at left
            exact (Option.some.inj left).symm
          exact .inr (same ▸ above)

theorem siblings (linked : IsLinked dom) {parent : NodeId}
    (isTree : IsTree dom parent) {one other inner : NodeId}
    (first : one ∈ dom.children parent) (second : other ∈ dom.children parent)
    (left : Inside dom one inner) (right : Inside dom other inner) :
    one = other := by
  have outside {one other : NodeId} (first : one ∈ dom.children parent)
      (second : other ∈ dom.children parent) (inside : Inside dom one other) :
      one = other := by
    rcases inside.parent with same | ⟨between, above, member⟩
    · exact same.symm
    · have same : between = parent := by
        have found := (linked _ _).mp member
        rw [(linked _ _).mp second] at found
        exact (Option.some.inj found).symm
      rw [same] at above
      exact absurd above (isTree.acyclic one first)
  rcases linked.nested left right with inside | inside
  · exact outside first second inside
  · exact (outside second first inside).symm

end IsLinked

end LiveTemplate.Dom
