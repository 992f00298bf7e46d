import LiveTemplate.Dom.Tree
import LiveTemplate.Proofs.NodeRows

/-!
# Putting nodes in their places

What the rows of a document are after a node was put at the end of another: the
node has left its former parent, and a fragment has handed its children over.
-/

namespace LiveTemplate.Dom

variable {dom : Dom}

theorem children_setChildren (dom : Dom) (n other : NodeId)
    (children : List NodeId) :
    (dom.setChildren n children).children other =
      if other = n then children else dom.children other := by
  unfold setChildren Dom.children
  split
  · rename_i same
    rw [same, node_modify_self]
  · rename_i differs
    rw [node_modify_of_ne dom _ differs]

@[simp] theorem kind_setChildren (dom : Dom) (n other : NodeId)
    (children : List NodeId) :
    (dom.setChildren n children).kind other = dom.kind other := by
  by_cases same : other = n
  · simp [setChildren, kind, same]
  · simp [setChildren, kind, node_modify_of_ne dom _ same]

@[simp] theorem parent?_setChildren (dom : Dom) (n other : NodeId)
    (children : List NodeId) :
    (dom.setChildren n children).parent? other = dom.parent? other := by
  by_cases same : other = n
  · simp [setChildren, parent?, same]
  · simp [setChildren, parent?, node_modify_of_ne dom _ same]

theorem parent?_setParent (dom : Dom) (n other : NodeId)
    (parent : Option NodeId) :
    (dom.setParent n parent).parent? other =
      if other = n then parent else dom.parent? other := by
  unfold setParent parent?
  split
  · rename_i same
    rw [same, node_modify_self]
  · rename_i differs
    rw [node_modify_of_ne dom _ differs]

@[simp] theorem kind_setParent (dom : Dom) (n other : NodeId)
    (parent : Option NodeId) :
    (dom.setParent n parent).kind other = dom.kind other := by
  by_cases same : other = n
  · simp [setParent, kind, same]
  · simp [setParent, kind, node_modify_of_ne dom _ same]

@[simp] theorem children_setParent (dom : Dom) (n other : NodeId)
    (parent : Option NodeId) :
    (dom.setParent n parent).children other = dom.children other := by
  by_cases same : other = n
  · simp [setParent, children, same]
  · simp [setParent, children, node_modify_of_ne dom _ same]

theorem size_le_modify (dom : Dom) (n : NodeId) (change : Node → Node) :
    dom.nodes.size ≤ (dom.modify n change).nodes.size :=
  dom.nodes.size_le_put _ _

section Create

variable (dom) (made : NodeKind)

theorem node_create_self :
    (dom.create made).2.node (dom.create made).1 = ⟨made, none, []⟩ := by
  unfold node create
  exact dom.nodes.get_alloc_self _

theorem node_create_of_ne {other : NodeId}
    (differs : other ≠ (dom.create made).1) :
    (dom.create made).2.node other = dom.node other := by
  refine dom.nodes.get_alloc_of_ne _ fun same => differs ?_
  cases other
  exact congrArg NodeId.mk same

theorem size_create :
    (dom.create made).2.nodes.size = dom.nodes.size + 1 := by
  simp [create, Store.alloc, Store.size]

end Create

theorem children_detach (dom : Dom) (child other : NodeId) :
    (dom.detach child).children other =
      if dom.parent? child = some other then
        (dom.children other).filter (· ≠ child)
      else dom.children other := by
  unfold detach
  cases found : dom.parent? child with
  | none => simp
  | some parent =>
      dsimp only
      unfold removeChild
      by_cases member : child ∈ dom.children parent
      · rw [if_pos member, children_setParent, children_setChildren]
        by_cases same : other = parent
        · simp [same]
        · simp [same, Ne.symm same]
      · rw [if_neg member]
        split
        · rename_i same
          cases same
          refine (List.filter_eq_self.mpr fun sibling inside => ?_).symm
          exact decide_eq_true fun same => member (same ▸ inside)
        · rfl

theorem parent?_detach_of_ne (dom : Dom) {child other : NodeId}
    (differs : other ≠ child) :
    (dom.detach child).parent? other = dom.parent? other := by
  unfold detach
  cases dom.parent? child with
  | none => rfl
  | some parent =>
      dsimp only
      unfold removeChild
      split
      · rw [parent?_setParent, if_neg differs, parent?_setChildren]
      · rfl

@[simp] theorem kind_detach (dom : Dom) (child other : NodeId) :
    (dom.detach child).kind other = dom.kind other := by
  unfold detach
  cases dom.parent? child with
  | none => rfl
  | some parent =>
      dsimp only
      unfold removeChild
      split <;> simp

theorem size_le_detach (dom : Dom) (child : NodeId) :
    dom.nodes.size ≤ (dom.detach child).nodes.size := by
  unfold detach
  cases dom.parent? child with
  | none => exact Nat.le_refl _
  | some parent =>
      dsimp only
      unfold removeChild
      split
      · exact Nat.le_trans (size_le_modify _ _ _) (size_le_modify _ _ _)
      · exact Nat.le_refl _

theorem insertInto_none (child : NodeId) (siblings : List NodeId) :
    insertInto child none siblings = siblings ++ [child] := by
  induction siblings with
  | nil => rfl
  | cons sibling rest ih =>
      rw [insertInto, if_neg (Option.some_ne_none sibling), ih,
        List.cons_append]

theorem children_place (dom : Dom) (parent child other : NodeId) :
    (dom.place parent child none).children other =
      if other = parent then (dom.detach child).children parent ++ [child]
      else (dom.detach child).children other := by
  unfold place
  rw [children_setParent, children_setChildren, insertInto_none]

theorem parent?_place (dom : Dom) (parent child other : NodeId) :
    (dom.place parent child none).parent? other =
      if other = child then some parent else dom.parent? other := by
  unfold place
  rw [parent?_setParent, parent?_setChildren]
  split
  · rfl
  · rename_i differs
    exact parent?_detach_of_ne dom differs

@[simp] theorem kind_place (dom : Dom) (parent child other : NodeId) :
    (dom.place parent child none).kind other = dom.kind other := by
  simp [place]

theorem size_le_place (dom : Dom) (parent child : NodeId) :
    dom.nodes.size ≤ (dom.place parent child none).nodes.size := by
  exact Nat.le_trans (size_le_detach dom child)
    (Nat.le_trans (size_le_modify _ _ _) (size_le_modify _ _ _))

/-- A document with the parents of some nodes changed. -/
theorem setParents_rows (parent : Option NodeId) (nodes : List NodeId)
    (dom : Dom) (other : NodeId) :
    let later := nodes.foldl (fun dom child => dom.setParent child parent) dom
    later.kind other = dom.kind other ∧
      later.children other = dom.children other ∧
      later.parent? other =
        (if other ∈ nodes then parent else dom.parent? other) ∧
      dom.nodes.size ≤ later.nodes.size := by
  induction nodes generalizing dom with
  | nil => exact ⟨rfl, rfl, by simp, Nat.le_refl _⟩
  | cons child rest ih =>
      obtain ⟨kind, children, above, size⟩ := ih (dom.setParent child parent)
      refine ⟨kind.trans (kind_setParent dom _ _ _),
        children.trans (children_setParent dom _ _ _), above.trans ?_,
        Nat.le_trans (size_le_modify _ _ _) size⟩
      rw [parent?_setParent]
      by_cases same : other = child <;> by_cases later : other ∈ rest <;>
        simp [same, later]

theorem kind_clearChildren (dom : Dom) (n other : NodeId) :
    (dom.clearChildren n).kind other = dom.kind other := by
  unfold clearChildren
  rw [(setParents_rows none _ _ other).1, kind_setChildren]

theorem children_clearChildren (dom : Dom) (n other : NodeId) :
    (dom.clearChildren n).children other =
      if other = n then [] else dom.children other := by
  unfold clearChildren
  rw [(setParents_rows none _ _ other).2.1, children_setChildren]

theorem parent?_clearChildren (dom : Dom) (n other : NodeId) :
    (dom.clearChildren n).parent? other =
      if other ∈ dom.children n then none else dom.parent? other := by
  unfold clearChildren
  rw [(setParents_rows none _ _ other).2.2.1, parent?_setChildren]

theorem size_le_clearChildren (dom : Dom) (n : NodeId) :
    dom.nodes.size ≤ (dom.clearChildren n).nodes.size := by
  exact Nat.le_trans (size_le_modify _ _ _) (setParents_rows none _ _ n).2.2.2

/-- Nodes without a parent are put at the end, one after the other. -/
theorem placeEach_rows (parent : NodeId) {nodes : List NodeId}
    (nodup : nodes.Nodup) (dom : Dom)
    (free : ∀ child ∈ nodes, dom.parent? child = none) (other : NodeId) :
    let later := nodes.foldl (fun dom child => dom.place parent child none) dom
    later.kind other = dom.kind other ∧
      later.children other =
        (if other = parent then dom.children parent ++ nodes
        else dom.children other) ∧
      later.parent? other =
        (if other ∈ nodes then some parent else dom.parent? other) ∧
      dom.nodes.size ≤ later.nodes.size := by
  induction nodes generalizing dom with
  | nil =>
      refine ⟨rfl, ?_, by simp, Nat.le_refl _⟩
      split
      · rename_i same
        rw [same, List.append_nil]
        rfl
      · rfl
  | cons child rest ih =>
      obtain ⟨distinct, restNodup⟩ := List.nodup_cons.mp nodup
      have alone := free child (.head _)
      have detached (other : NodeId) :
          (dom.detach child).children other = dom.children other := by
        rw [children_detach, alone, if_neg (by simp)]
      obtain ⟨kind, children, above, size⟩ :=
        ih restNodup (dom.place parent child none) fun next member => by
          have differs : next ≠ child := fun same => distinct (same ▸ member)
          rw [parent?_place, if_neg differs]
          exact free next (.tail _ member)
      refine ⟨kind.trans (kind_place dom _ _ _), children.trans ?_,
        above.trans ?_, Nat.le_trans (size_le_place _ _ _) size⟩
      · simp only [children_place, detached]
        split <;> simp
      · rw [parent?_place]
        by_cases same : other = child <;> by_cases later : other ∈ rest <;>
          simp [same, later]

/-- The nodes that come to be children when a node is put somewhere: a fragment
stands for its children. -/
def moved (dom : Dom) (n : NodeId) : List NodeId :=
  if dom.isFragment n then dom.children n else [n]

/-- A node that stands alone and is no fragment. -/
structure IsAlone (dom : Dom) (n : NodeId) : Prop where
  parent? : dom.parent? n = none
  moved : dom.moved n = [n]

/-- What becomes of a document when a node is put at the end of another. -/
structure Appended (dom : Dom) (parent child : NodeId) (later : Dom) :
    Prop where
  kind : ∀ other, later.kind other = dom.kind other
  children_parent : later.children parent =
    dom.children parent ++ dom.moved child
  children : ∀ other, other ≠ parent → dom.parent? child ≠ some other →
    (dom.isFragment child = true → other ≠ child) →
    later.children other = dom.children other
  emptied : dom.isFragment child = true → later.children child = []
  parent? : ∀ other, later.parent? other =
    if other ∈ dom.moved child then some parent else dom.parent? other
  size : dom.nodes.size ≤ later.nodes.size

theorem appended {parent child : NodeId}
    (notText : dom.isText parent = false) (differs : child ≠ parent)
    (nodup : (dom.children child).Nodup)
    (elsewhere : dom.parent? child ≠ some parent) :
    Appended dom parent child (dom.appendChild parent child) := by
  unfold appendChild insertBefore
  rw [if_neg (by simp [notText])]
  cases fragment : dom.isFragment child with
  | false =>
      rw [if_neg (by simp)]
      have moved : dom.moved child = [child] := by
        simp [Dom.moved, fragment]
      refine ⟨kind_place dom _ _, ?_, fun other outside former _ => ?_,
        fun impossible => ?_, fun other => ?_, size_le_place _ _ _⟩
      · rw [children_place, if_pos rfl, children_detach, if_neg elsewhere, moved]
      · rw [children_place, if_neg outside, children_detach, if_neg former]
      · rw [fragment] at impossible
        cases impossible
      · rw [parent?_place, moved]
        simp
  | true =>
      rw [if_pos rfl]
      have moved : dom.moved child = dom.children child := by
        simp [Dom.moved, fragment]
      have rows := placeEach_rows parent nodup (dom.clearChildren child)
        fun inner member => by rw [parent?_clearChildren, if_pos member]
      refine ⟨fun other => ?_, ?_, fun other outside _ self => ?_, fun _ => ?_,
        fun other => ?_, ?_⟩
      · exact (rows other).1.trans (kind_clearChildren dom _ _)
      · rw [(rows parent).2.1, if_pos rfl, children_clearChildren,
          if_neg (Ne.symm differs), moved]
      · rw [(rows other).2.1, if_neg outside, children_clearChildren,
          if_neg (self fragment)]
      · rw [(rows child).2.1, if_neg differs, children_clearChildren, if_pos rfl]
      · rw [(rows other).2.2.1, parent?_clearChildren, moved]
        split <;> simp [*]
      · exact Nat.le_trans (size_le_clearChildren dom child) (rows child).2.2.2

namespace Appended

variable {parent child : NodeId} {later : Dom}

theorem node_eq (appended : Appended dom parent child later) {other : NodeId}
    (outside : other ≠ parent) (former : dom.parent? child ≠ some other)
    (self : other ≠ child) (unmoved : other ∉ dom.moved child) :
    later.node other = dom.node other := by
  have kind := appended.kind other
  have children := appended.children other outside former fun _ => self
  have above := appended.parent? other
  rw [if_neg unmoved] at above
  unfold Dom.kind Dom.children Dom.parent? at *
  cases before : dom.node other
  cases after : later.node other
  rw [before, after] at kind children above
  congr

end Appended

end LiveTemplate.Dom
