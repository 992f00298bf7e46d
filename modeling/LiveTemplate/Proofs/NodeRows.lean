import LiveTemplate.Dom.InlineStyle
import LiveTemplate.Dom.Tree

/-!
# Reading a node after a change

A change of one node is seen in the row of that node and nowhere else.  The
lemmas follow the accessors of a document through its elementary changes.
-/

namespace LiveTemplate.Dom

@[simp] theorem node_modify_self (dom : Dom) (n : NodeId)
    (change : Node → Node) :
    (dom.modify n change).node n = change (dom.node n) := by
  simp [modify, node]

theorem node_modify_of_ne (dom : Dom) {n other : NodeId}
    (change : Node → Node) (differs : other ≠ n) :
    (dom.modify n change).node other = dom.node other := by
  have indexes : other.index ≠ n.index := by
    intro same
    apply differs
    cases other
    cases n
    cases same
    rfl
  simp [modify, node, Store.get_modify_of_ne _ _ indexes]

@[simp] theorem kind_setKind_self (dom : Dom) (n : NodeId) (kind : NodeKind) :
    (dom.setKind n kind).kind n = kind := by
  simp [setKind, Dom.kind]

theorem node_setKind_of_ne (dom : Dom) {n other : NodeId} (kind : NodeKind)
    (differs : other ≠ n) :
    (dom.setKind n kind).node other = dom.node other :=
  node_modify_of_ne dom _ differs

theorem kind_setKind_of_ne (dom : Dom) {n other : NodeId} (kind : NodeKind)
    (differs : other ≠ n) :
    (dom.setKind n kind).kind other = dom.kind other := by
  simp [Dom.kind, node_setKind_of_ne dom kind differs]

@[simp] theorem children_setKind (dom : Dom) (n other : NodeId)
    (kind : NodeKind) :
    (dom.setKind n kind).children other = dom.children other := by
  by_cases same : other = n
  · subst same
    simp [setKind, children]
  · simp [children, node_setKind_of_ne dom kind same]

@[simp] theorem parent?_setKind (dom : Dom) (n other : NodeId)
    (kind : NodeKind) :
    (dom.setKind n kind).parent? other = dom.parent? other := by
  by_cases same : other = n
  · subst same
    simp [setKind, parent?]
  · simp [parent?, node_setKind_of_ne dom kind same]

theorem modifyAttributes_element {dom : Dom} {n : NodeId}
    {namespaceName tag : String} {attributes : List Attribute}
    (isElement : dom.kind n = .element namespaceName tag attributes)
    (change : List Attribute → List Attribute) :
    dom.modifyAttributes n change =
      dom.setKind n (.element namespaceName tag (change attributes)) := by
  simp [modifyAttributes, isElement]

theorem isElement_iff {dom : Dom} {n : NodeId} :
    dom.isElement n = true ↔ ∃ namespaceName tag attributes,
      dom.kind n = .element namespaceName tag attributes := by
  unfold isElement
  cases dom.kind n <;> simp

theorem isText_iff {dom : Dom} {n : NodeId} :
    dom.isText n = true ↔ ∃ data, dom.kind n = .text data := by
  unfold isText
  cases dom.kind n <;> simp

theorem modifyAttributes_of_not_element {dom : Dom} {n : NodeId}
    (other : dom.isElement n = false)
    (change : List Attribute → List Attribute) :
    dom.modifyAttributes n change = dom := by
  unfold isElement at other
  unfold modifyAttributes
  cases kind : dom.kind n <;> simp_all

theorem attributes_modifyAttributes_self {dom : Dom} {n : NodeId}
    (element : dom.isElement n = true)
    (change : List Attribute → List Attribute) :
    (dom.modifyAttributes n change).attributes n =
      change (dom.attributes n) := by
  obtain ⟨namespaceName, tag, entries, kind⟩ := isElement_iff.mp element
  rw [modifyAttributes_element kind]
  simp [Dom.attributes, kind]

@[simp] theorem isElement_modifyAttributes (dom : Dom) (n other : NodeId)
    (change : List Attribute → List Attribute) :
    (dom.modifyAttributes n change).isElement other =
      dom.isElement other := by
  cases kind : dom.kind n with
  | element namespaceName tag attributes =>
      rw [modifyAttributes_element kind]
      by_cases same : other = n
      · subst same
        simp [isElement, kind]
      · simp [isElement, kind_setKind_of_ne dom _ same]
  | text data => simp [modifyAttributes, kind]
  | fragment => simp [modifyAttributes, kind]

theorem node_modifyAttributes_of_ne (dom : Dom) {n other : NodeId}
    (change : List Attribute → List Attribute) (differs : other ≠ n) :
    (dom.modifyAttributes n change).node other = dom.node other := by
  unfold modifyAttributes
  split
  · exact node_setKind_of_ne dom _ differs
  · rfl

@[simp] theorem children_modifyAttributes (dom : Dom) (n other : NodeId)
    (change : List Attribute → List Attribute) :
    (dom.modifyAttributes n change).children other = dom.children other := by
  unfold modifyAttributes
  split <;> simp

@[simp] theorem parent?_modifyAttributes (dom : Dom) (n other : NodeId)
    (change : List Attribute → List Attribute) :
    (dom.modifyAttributes n change).parent? other = dom.parent? other := by
  unfold modifyAttributes
  split <;> simp

end LiveTemplate.Dom
