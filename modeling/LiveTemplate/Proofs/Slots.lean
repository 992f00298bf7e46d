import LiveTemplate.Proofs.AttributeLists
import LiveTemplate.Proofs.NodeRows
import LiveTemplate.Template.Slot

/-!
# Writing to slots

Showing a value changes the data of one text or the attributes of one node.
`Dom.Written` is what any number of such changes may come to: the tree keeps
its shape, and whatever no slot covers stays as it is.
-/

namespace LiveTemplate

/-- What remains of the kind of a node without its data. -/
def NodeKind.shape : NodeKind → NodeKind
  | element namespaceName tag _ => element namespaceName tag []
  | text _ => text ""
  | fragment => fragment

namespace Dom

/-- Two documents that differ in texts and attributes only. -/
structure SameShape (dom later : Dom) : Prop where
  children : ∀ n, later.children n = dom.children n
  shape : ∀ n, (later.kind n).shape = (dom.kind n).shape

namespace SameShape

theorem refl (dom : Dom) : SameShape dom dom := by
  exact ⟨fun _ => rfl, fun _ => rfl⟩

theorem trans {dom between later : Dom} (first : SameShape dom between)
    (second : SameShape between later) : SameShape dom later where
  children n := (second.children n).trans (first.children n)
  shape n := (second.shape n).trans (first.shape n)

theorem isElement {dom later : Dom} (same : SameShape dom later)
    (n : NodeId) : later.isElement n = dom.isElement n := by
  have shape := same.shape n
  unfold Dom.isElement
  cases kind : dom.kind n <;> cases known : later.kind n <;>
    simp_all [NodeKind.shape]

theorem isText {dom later : Dom} (same : SameShape dom later)
    (n : NodeId) : later.isText n = dom.isText n := by
  have shape := same.shape n
  unfold Dom.isText
  cases kind : dom.kind n <;> cases known : later.kind n <;>
    simp_all [NodeKind.shape]

end SameShape

theorem sameShape_setText {dom : Dom} {n : NodeId} {data : String}
    (isText : dom.isText n = true) :
    SameShape dom (dom.setKind n (.text data)) where
  children m := children_setKind dom n m _
  shape m := by
    obtain ⟨old, kind⟩ := isText_iff.mp isText
    by_cases same : m = n
    · subst same
      simp [kind, NodeKind.shape]
    · rw [kind_setKind_of_ne dom _ same]

private theorem sameShape_modifyAttributes (dom : Dom) (n : NodeId)
    (change : List Attribute → List Attribute) :
    SameShape dom (dom.modifyAttributes n change) where
  children m := children_modifyAttributes dom n m change
  shape m := by
    unfold modifyAttributes
    split
    · rename_i kind
      by_cases same : m = n
      · subst same
        simp [kind, NodeKind.shape]
      · rw [kind_setKind_of_ne dom _ same]
    · rfl

end Dom

namespace Slot

/-- The slot of a text belongs to a text node. -/
def IsProper (dom : Dom) : Slot → Prop
  | text node => dom.isText node = true
  | _ => True

theorem display_text {dom : Dom} {node : NodeId} {data : String}
    (isText : dom.kind node = .text data) (value : Value) :
    (text node).display dom value =
      dom.setKind node
        (.text (if value.isFalsy then "" else value.domString)) := by
  unfold display
  split <;> simp [clear, set, Dom.setText, isText]

theorem display_attr (dom : Dom) (node : NodeId)
    (namespaceName : Option String) (name : String) (value : Value) :
    (attr node namespaceName name).display dom value =
      dom.modifyAttributes node fun attributes =>
        if value.isFalsy then
          Attribute.removeNs attributes namespaceName name
        else
          Attribute.setNs attributes namespaceName name value.domString := by
  unfold display
  split <;> rfl

theorem display_style (dom : Dom) (node : NodeId) (property : String)
    (value : Value) :
    (style node property).display dom value =
      if value.isFalsy then dom.removeStyleProperty node property
      else dom.setStyleProperty node property value.domString := rfl

/-- Whether a slot is about the attributes with a namespace and name. -/
def Covers : Slot → Option String × String → Prop
  | text _, _ => False
  | attr _ namespaceName name, key => key = (namespaceName, name)
  | style _ _, key => key.2 = "style"

/-- Showing a value changes nothing, some attributes that the slot covers, or
the data of a text. -/
theorem display_cases {dom : Dom} {slot : Slot} (proper : slot.IsProper dom)
    (value : Value) :
    slot.display dom value = dom ∨
      (∃ change, (∀ attributes,
          Attribute.Confined slot.Covers attributes (change attributes)) ∧
        slot.display dom value = dom.modifyAttributes slot.node change) ∨
      dom.isText slot.node = true ∧
        ∃ data, slot.display dom value = dom.setKind slot.node (.text data) := by
  cases slot with
  | text node =>
      obtain ⟨data, kind⟩ := Dom.isText_iff.mp proper
      exact .inr (.inr ⟨proper, _, display_text kind value⟩)
  | attr node namespaceName name =>
      refine .inr (.inl ⟨_, fun attributes => ?_,
        display_attr dom node namespaceName name value⟩)
      split
      · exact Attribute.confined_removeNs attributes namespaceName name
      · exact Attribute.confined_setNs attributes namespaceName name _
  | style node property =>
      have sets (text : String) (attributes : List Attribute) :=
        Attribute.confined_set attributes "style" text
      have removes (attributes : List Attribute) :=
        Attribute.confined_remove attributes "style"
      rw [display_style]
      split
      · unfold Dom.removeStyleProperty
        split
        · exact .inl rfl
        · dsimp only
          split
          · split
            · exact .inr (.inl ⟨_, removes, rfl⟩)
            · exact .inr (.inl ⟨_, sets _, rfl⟩)
          · exact .inl rfl
      · exact .inr (.inl ⟨_, sets _, rfl⟩)

theorem sameShape_display {dom : Dom} {slot : Slot}
    (proper : slot.IsProper dom) (value : Value) :
    dom.SameShape (slot.display dom value) := by
  rcases display_cases proper value with
    same | ⟨change, _, changed⟩ | ⟨isText, data, written⟩
  · rw [same]
    exact .refl dom
  · rw [changed]
    exact Dom.sameShape_modifyAttributes dom slot.node change
  · rw [written]
    exact Dom.sameShape_setText isText

/-- Other nodes stay as they are. -/
theorem node_display_of_ne {dom : Dom} {slot : Slot}
    (proper : slot.IsProper dom) (value : Value) {n : NodeId}
    (differs : n ≠ slot.node) :
    (slot.display dom value).node n = dom.node n := by
  rcases display_cases proper value with
    same | ⟨change, _, changed⟩ | ⟨_, data, written⟩
  · rw [same]
  · rw [changed, Dom.node_modifyAttributes_of_ne dom change differs]
  · rw [written, Dom.node_setKind_of_ne dom _ differs]

theorem confined_display {dom : Dom} {slot : Slot}
    (proper : slot.IsProper dom) (value : Value) :
    Attribute.Confined slot.Covers (dom.attributes slot.node)
      ((slot.display dom value).attributes slot.node) := by
  rcases display_cases proper value with
    same | ⟨change, confined, changed⟩ | ⟨isText, data, written⟩
  · rw [same]
    exact .refl _
  · rw [changed]
    cases element : dom.isElement slot.node with
    | true =>
        rw [Dom.attributes_modifyAttributes_self element]
        exact confined _
    | false =>
        rw [Dom.modifyAttributes_of_not_element element]
        exact .refl _
  · obtain ⟨old, kind⟩ := Dom.isText_iff.mp isText
    have none : (slot.display dom value).attributes slot.node =
        dom.attributes slot.node := by
      rw [written]
      simp [Dom.attributes, kind]
    rw [none]
    exact .refl _

end Slot

namespace Dom

/-- What showing values in some slots can make of a document. -/
inductive Written (owned : Slot → Prop) : Dom → Dom → Prop where
  | refl (dom : Dom) : Written owned dom dom
  | display {dom between : Dom} {slot : Slot} (value : Value) :
      Written owned dom between → owned slot → slot.IsProper between →
      Written owned dom (slot.display between value)

namespace Written

variable {owned : Slot → Prop} {dom between later : Dom}

theorem trans (first : Written owned dom between)
    (second : Written owned between later) : Written owned dom later := by
  induction second with
  | refl => exact first
  | display value _ owns proper ih => exact .display value ih owns proper

theorem mono {wider : Slot → Prop} (written : Written owned dom later)
    (implies : ∀ slot, owned slot → wider slot) : Written wider dom later := by
  induction written with
  | refl => exact .refl _
  | display value _ owns proper ih =>
      exact .display value ih (implies _ owns) proper

theorem sameShape (written : Written owned dom later) :
    dom.SameShape later := by
  induction written with
  | refl => exact .refl _
  | display value _ _ proper ih =>
      exact ih.trans (Slot.sameShape_display proper value)

theorem node_eq (written : Written owned dom later) {n : NodeId}
    (elsewhere : ∀ slot, owned slot → slot.node ≠ n) :
    later.node n = dom.node n := by
  induction written with
  | refl => rfl
  | display value _ owns proper ih =>
      rw [Slot.node_display_of_ne proper value (elsewhere _ owns).symm]
      exact ih

theorem confined (written : Written owned dom later) (n : NodeId) :
    Attribute.Confined
      (fun key => ∃ slot, owned slot ∧ slot.node = n ∧ slot.Covers key)
      (dom.attributes n) (later.attributes n) := by
  induction written with
  | refl => exact .refl _
  | @display between slot value _ owns proper ih =>
      refine ih.trans ?_
      by_cases same : slot.node = n
      · subst same
        exact (Slot.confined_display proper value).mono fun key covers =>
          ⟨slot, owns, rfl, covers⟩
      · have other := Slot.node_display_of_ne proper value (Ne.symm same)
        simp only [Dom.attributes, Dom.kind, other]
        exact .refl _

end Written

end Dom

end LiveTemplate
