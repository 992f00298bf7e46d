import LiveTemplate.Proofs.Facets
import LiveTemplate.Proofs.Printing

/-!
# Changing one style property

Setting or removing a style property writes all declarations of the element
anew.  The other properties are what they were exactly if their declarations
stand on their own: an escape in a name is not written again, and a value that
only the end of the text closes takes in what comes behind it.
-/

namespace LiveTemplate

open Css (Declarations)

namespace Css.Declarations

/-- Every declaration but that of one property stands on its own. -/
def OthersStand (declarations : Declarations) (property : String) : Prop :=
  ∀ entry ∈ declarations.entries, entry.1 ≠ property →
    NameStands entry.1 ∧ ValueStands entry.2

instance (declarations : Declarations) (property : String) :
    Decidable (declarations.OthersStand property) :=
  inferInstanceAs (Decidable (∀ entry ∈ declarations.entries, _))

theorem mem_entries_set {declarations : Declarations}
    (distinct : declarations.names.Nodup) {property value : String}
    {entry : String × String} :
    entry ∈ (declarations.set property value).entries ↔
      entry = (property, value) ∨
        entry ∈ declarations.entries ∧ entry.1 ≠ property := by
  obtain ⟨name, shown⟩ := entry
  have before := distinct
  have later := nodup_names_set distinct property value
  constructor
  · intro member
    have found := get?_of_mem later member
    rw [get?_set] at found
    split at found
    case isTrue same => exact .inl (by rw [same, Option.some.inj found])
    case isFalse differs => exact .inr ⟨mem_of_get? found, differs⟩
  · intro either
    refine mem_of_get? ?_
    rw [get?_set]
    obtain same | ⟨member, differs⟩ := either
    · obtain ⟨rfl, rfl⟩ := Prod.mk.inj same
      rw [if_pos rfl]
    · rw [if_neg differs, get?_of_mem distinct member]

theorem mem_entries_remove {declarations : Declarations} {property : String}
    {entry : String × String} :
    entry ∈ (declarations.remove property).entries ↔
      entry ∈ declarations.entries ∧ entry.1 ≠ property := by
  simp [remove]

/-- A property that is set leaves the others as they are exactly if they stand
on their own. -/
theorem get?_parse_set_iff {declarations : Declarations}
    (distinct : declarations.names.Nodup) {property value : String}
    (name : NameStands property) (isValue : ValueStands value) :
    (∀ other, (parse (declarations.set property value).render).get? other =
        if other = property then some value else declarations.get? other) ↔
      declarations.OthersStand property := by
  simp only [← get?_set]
  rw [get?_parse_render_iff (nodup_names_set distinct property value)]
  simp only [isPlain_iff, mem_entries_set distinct]
  constructor
  · exact fun plain entry member differs => plain entry (.inr ⟨member, differs⟩)
  · rintro others entry (rfl | ⟨member, differs⟩)
    · exact ⟨name, isValue⟩
    · exact others entry member differs

theorem get?_parse_remove_iff {declarations : Declarations}
    (distinct : declarations.names.Nodup) (property : String) :
    (∀ other, (parse (declarations.remove property).render).get? other =
        if other = property then none else declarations.get? other) ↔
      declarations.OthersStand property := by
  simp only [← get?_remove]
  rw [get?_parse_render_iff (nodup_names_remove distinct property)]
  simp only [isPlain_iff, mem_entries_remove, OthersStand, and_imp]

end Css.Declarations

namespace Attribute

theorem find?_set_self (attributes : List Attribute) (name value : String) :
    find? (set attributes name value) name = some value := by
  unfold set find?
  induction attributes with
  | nil => simp [setWhere]
  | cons entry rest ih =>
      by_cases named : entry.name = name
      · simp [setWhere, named]
      · simpa [setWhere, named] using ih

private theorem find?_remove_style {attributes : List Attribute}
    (plain : HasPlainStyle attributes) (once : (attributes.map key).Nodup) :
    find? (remove attributes "style") "style" = none := by
  induction attributes with
  | nil => rfl
  | cons entry rest ih =>
      have plainRest : HasPlainStyle rest := fun other member =>
        plain other (List.mem_cons_of_mem _ member)
      obtain ⟨fresh, once⟩ := List.nodup_cons.mp once
      by_cases named : (entry.name == "style") = true
      · have erased : remove (entry :: rest) "style" = rest := by
          simp [remove, named]
        rw [erased, find?, Option.map_eq_none_iff, List.find?_eq_none]
        intro other member also
        refine fresh (List.mem_map.mpr ⟨other, member, ?_⟩)
        rw [plain.key_eq (List.mem_cons_of_mem _ member) also,
          plain.key_eq List.mem_cons_self named]
      · have kept : remove (entry :: rest) "style" =
            entry :: remove rest "style" := by
          simp [remove, named]
        rw [kept, ← ih plainRest once]
        simp [find?, named]

end Attribute

namespace Dom

/-- The declarations in the style of a node. -/
def styleOf (dom : Dom) (n : NodeId) : Declarations :=
  .parse ((dom.attribute? n "style").getD "")

variable {dom : Dom} {n : NodeId}

theorem styleProperty?_eq (dom : Dom) (n : NodeId) (property : String) :
    dom.styleProperty? n property = (dom.styleOf n).get? property := by
  unfold styleProperty? styleOf
  cases dom.attribute? n "style" <;> rfl

theorem nodup_names_styleOf (dom : Dom) (n : NodeId) :
    (dom.styleOf n).names.Nodup :=
  Declarations.nodup_names_parse _

theorem styleOf_setAttribute (element : dom.isElement n = true)
    (style : String) :
    (dom.setAttribute n "style" style).styleOf n = .parse style := by
  unfold styleOf attribute? setAttribute
  rw [attributes_modifyAttributes_self element, Attribute.find?_set_self]
  rfl

private theorem styleOf_removeAttribute (element : dom.isElement n = true)
    (plain : Attribute.HasPlainStyle (dom.attributes n))
    (once : ((dom.attributes n).map Attribute.key).Nodup) :
    (dom.removeAttribute n "style").styleOf n = .empty := by
  unfold styleOf attribute? removeAttribute
  rw [attributes_modifyAttributes_self element,
    Attribute.find?_remove_style plain once]
  rfl

private theorem removeStyleProperty_of_mem {property : String}
    (present : property ∈ (dom.styleOf n).names) :
    dom.removeStyleProperty n property =
      if ((dom.styleOf n).remove property).isEmpty then
        dom.removeAttribute n "style"
      else dom.setAttribute n "style"
        ((dom.styleOf n).remove property).render := by
  unfold removeStyleProperty
  unfold styleOf at present ⊢
  cases style : dom.attribute? n "style" with
  | none =>
      rw [style] at present
      exact absurd present List.not_mem_nil
  | some style =>
      rw [style, Option.getD_some] at present
      dsimp only
      rw [if_pos (Declarations.contains_iff.mpr present)]
      rfl

private theorem removeStyleProperty_of_not_mem {property : String}
    (absent : property ∉ (dom.styleOf n).names) :
    dom.removeStyleProperty n property = dom := by
  unfold removeStyleProperty
  unfold styleOf at absent
  cases style : dom.attribute? n "style" with
  | none => rfl
  | some style =>
      rw [style, Option.getD_some] at absent
      dsimp only
      rw [if_neg (mt Declarations.contains_iff.mp absent)]

/-- One style property is shown, and the others are what they were. -/
structure Restyled (n : NodeId) (property : String) (shown : Option String)
    (dom later : Dom) : Prop where
  shown : later.styleProperty? n property = shown
  others : ∀ other, other ≠ property →
    later.styleProperty? n other = dom.styleProperty? n other

theorem restyled_iff {property : String} {shown : Option String}
    {later : Dom} :
    Restyled n property shown dom later ↔
      ∀ other, (later.styleOf n).get? other =
        if other = property then shown else (dom.styleOf n).get? other := by
  simp only [← styleProperty?_eq]
  constructor
  · rintro ⟨shown, others⟩ other
    split
    case isTrue same => rw [same, shown]
    case isFalse differs => exact others other differs
  · intro each
    refine ⟨by rw [each, if_pos rfl], fun other differs => ?_⟩
    rw [each, if_neg differs]

/-- A property that is set leaves the others as they are exactly if their
declarations stand on their own. -/
theorem restyled_setStyleProperty_iff (element : dom.isElement n = true)
    {property value : String} (name : Declarations.NameStands property)
    (isValue : Declarations.ValueStands value) :
    Restyled n property (some value) dom
        (dom.setStyleProperty n property value) ↔
      (dom.styleOf n).OthersStand property := by
  have distinct := nodup_names_styleOf dom n
  have later : (dom.setStyleProperty n property value).styleOf n =
      .parse ((dom.styleOf n).set property value).render :=
    styleOf_setAttribute element _
  rw [restyled_iff, later]
  exact Declarations.get?_parse_set_iff distinct name isValue

theorem restyled_removeStyleProperty_iff (element : dom.isElement n = true)
    (plain : Attribute.HasPlainStyle (dom.attributes n))
    (once : ((dom.attributes n).map Attribute.key).Nodup) (property : String) :
    Restyled n property none dom (dom.removeStyleProperty n property) ↔
      (property ∈ (dom.styleOf n).names →
        (dom.styleOf n).OthersStand property) := by
  have distinct := nodup_names_styleOf dom n
  rw [restyled_iff]
  by_cases present : property ∈ (dom.styleOf n).names
  · rw [removeStyleProperty_of_mem present, imp_iff_right present]
    split
    case isTrue none =>
      have bare : (dom.styleOf n).remove property = .empty := by
        rw [Declarations.isEmpty, List.isEmpty_iff] at none
        exact congrArg Declarations.mk none
      rw [styleOf_removeAttribute element plain once]
      constructor
      · intro _ entry member differs
        have remains := Declarations.mem_entries_remove.mpr ⟨member, differs⟩
        rw [bare] at remains
        cases remains
      · intro _ other
        rw [← Declarations.get?_remove, bare]
    case isFalse =>
      rw [styleOf_setAttribute element]
      exact Declarations.get?_parse_remove_iff distinct property
  · rw [removeStyleProperty_of_not_mem present]
    refine ⟨fun _ member => absurd member present, fun _ other => ?_⟩
    split
    case isTrue same => rw [same, Declarations.get?_eq_none present]
    case isFalse => rfl

namespace Restyled

variable {property : String} {shown other : Option String}
  {between later : Dom}

theorem refl (dom : Dom) (n : NodeId) (property : String) :
    Restyled n property (dom.styleProperty? n property) dom dom := by
  exact ⟨rfl, fun _ _ => rfl⟩

theorem trans (first : Restyled n property other dom between)
    (second : Restyled n property shown between later) :
    Restyled n property shown dom later := by
  refine ⟨second.shown, ?_⟩
  intro name differs
  exact (second.others name differs).trans (first.others name differs)

theorem othersStand (restyled : Restyled n property shown dom later)
    (others : (dom.styleOf n).OthersStand property) :
    (later.styleOf n).OthersStand property := by
  rintro ⟨name, value⟩ member differs
  have found := Declarations.get?_of_mem (nodup_names_styleOf later n) member
  rw [← styleProperty?_eq, restyled.others name differs,
    styleProperty?_eq] at found
  exact others _ (Declarations.mem_of_get? found) differs

end Restyled

/-- An element with one attribute for styles, in which the declarations of all
properties but one stand on their own. -/
structure IsSteady (dom : Dom) (n : NodeId) (property : String) : Prop where
  element : dom.isElement n = true
  plain : Attribute.HasPlainStyle (dom.attributes n)
  once : ((dom.attributes n).map Attribute.key).Nodup
  others : (dom.styleOf n).OthersStand property

/-- What a style property shows of a value. -/
def shownStyle (value : Value) : Option String :=
  if value.isFalsy then none else some value.domString

theorem IsSteady.display {property : String}
    (steady : dom.IsSteady n property)
    (name : Declarations.NameStands property) {value : Value}
    (isValue : value.isTruthy = true →
      Declarations.ValueStands value.domString) :
    Restyled n property (shownStyle value) dom
        ((Slot.style n property).display dom value) ∧
      ((Slot.style n property).display dom value).IsSteady n property := by
  have restyled : Restyled n property (shownStyle value) dom
      ((Slot.style n property).display dom value) := by
    rw [Slot.display_style, shownStyle]
    split
    case isTrue =>
      exact (restyled_removeStyleProperty_iff steady.element steady.plain
        steady.once property).mpr fun _ => steady.others
    case isFalse truthy =>
      exact (restyled_setStyleProperty_iff steady.element name
        (isValue (by simpa [Value.isTruthy] using truthy))).mpr steady.others
  obtain ⟨namespaceName, tag, attributes, kind⟩ :=
    isElement_iff.mp steady.element
  have before : dom.attributes n = attributes := by
    simp [Dom.attributes, kind]
  have proper : (Slot.style n property).IsProper dom := trivial
  have later := (Slot.redrawn_display proper kind value).kind
  have drawn : ((Slot.style n property).display dom value).attributes n =
      (Slot.style n property).displayIn value attributes := by
    simp only [Slot.node] at later
    simp [Dom.attributes, later]
  have confined := (before ▸ steady.plain).confined_displayIn n property value
  refine ⟨restyled, isElement_iff.mpr ⟨_, _, _, later⟩, ?_, ?_,
    restyled.othersStand steady.others⟩
  · rw [drawn]
    exact (before ▸ steady.plain).of_confined confined
  · rw [drawn]
    exact confined.distinct (before ▸ steady.once)

/-- However often a style property is set and removed. -/
theorem IsSteady.foldl_display {property : String}
    (steady : dom.IsSteady n property)
    (name : Declarations.NameStands property) {values : List Value}
    (areValues : ∀ value ∈ values, value.isTruthy = true →
      Declarations.ValueStands value.domString) :
    Restyled n property
      (values.getLast?.elim (dom.styleProperty? n property) shownStyle) dom
      (values.foldl (fun dom value =>
        (Slot.style n property).display dom value) dom) := by
  induction values generalizing dom with
  | nil => exact .refl dom n property
  | cons value rest ih =>
      obtain ⟨restyled, later⟩ := steady.display name
        (areValues value List.mem_cons_self)
      have behind := restyled.trans (ih later fun other member =>
        areValues other (List.mem_cons_of_mem _ member))
      cases rest with
      | nil => exact restyled
      | cons next rest =>
          rw [List.getLast?_cons] at behind
          rw [List.getLast?_cons_cons, List.getLast?_cons]
          exact behind

/-- **Style properties never touch their siblings**, provided the declarations
of the siblings stand on their own: a property that is set, or one that is there
and removed, leaves the others as they are exactly then, and then so does any
number of values shown one after the other. -/
theorem style_properties_apart (element : dom.isElement n = true)
    (plain : Attribute.HasPlainStyle (dom.attributes n))
    (once : ((dom.attributes n).map Attribute.key).Nodup)
    {property value : String} (name : Declarations.NameStands property)
    (isValue : Declarations.ValueStands value) :
    (Restyled n property (some value) dom
        (dom.setStyleProperty n property value) ↔
      (dom.styleOf n).OthersStand property) ∧
    (Restyled n property none dom (dom.removeStyleProperty n property) ↔
      (property ∈ (dom.styleOf n).names →
        (dom.styleOf n).OthersStand property)) ∧
    ((dom.styleOf n).OthersStand property → ∀ values : List Value,
      (∀ value ∈ values, value.isTruthy = true →
        Declarations.ValueStands value.domString) →
      Restyled n property
        (values.getLast?.elim (dom.styleProperty? n property) shownStyle) dom
        (values.foldl (fun dom value =>
          (Slot.style n property).display dom value) dom)) := by
  refine ⟨restyled_setStyleProperty_iff element name isValue,
    restyled_removeStyleProperty_iff element plain once property, ?_⟩
  intro others values areValues
  have steady : dom.IsSteady n property := ⟨element, plain, once, others⟩
  exact steady.foldl_display name areValues

/-- A single element with a style. -/
def styled (style : String) : Dom :=
  ⟨⟨#[⟨.element "html" "p" [⟨none, "style", style⟩], none, []⟩]⟩⟩

/-- Semicolons stand in a string and in a url. -/
def banner : Dom :=
  styled "content: \"a;b\"; background: url(data:image/png;base64,AA==)"

theorem banner_keeps_image :
    banner.isElement ⟨0⟩ = true ∧
      Attribute.HasPlainStyle (banner.attributes ⟨0⟩) ∧
      ((banner.attributes ⟨0⟩).map Attribute.key).Nodup ∧
      Declarations.NameStands "color" ∧ Declarations.ValueStands "red" ∧
      Restyled ⟨0⟩ "color" none banner
        ([.text "red", .text "blue", .null].foldl (fun dom value =>
          (Slot.style ⟨0⟩ "color").display dom value) banner) := by
  have element : banner.isElement ⟨0⟩ = true := rfl
  have plain : Attribute.HasPlainStyle (banner.attributes ⟨0⟩) := by decide
  have once : ((banner.attributes ⟨0⟩).map Attribute.key).Nodup := by decide
  have name : Declarations.NameStands "color" := by decide +kernel
  have isValue : Declarations.ValueStands "red" := by decide +kernel
  have others : (banner.styleOf ⟨0⟩).OthersStand "color" := by decide +kernel
  refine ⟨element, plain, once, name, isValue, ?_⟩
  exact (style_properties_apart element plain once name isValue).2.2 others
    [.text "red", .text "blue", .null] (by decide +kernel)

/-- The name `1a` is written with an escape. -/
def escaped : Dom :=
  styled "\\31 a: x; b: y"

/-- Written anew without its escape, the name is no longer read. -/
theorem set_loses_escaped_name :
    escaped.isElement ⟨0⟩ = true ∧
      Attribute.HasPlainStyle (escaped.attributes ⟨0⟩) ∧
      ((escaped.attributes ⟨0⟩).map Attribute.key).Nodup ∧
      Declarations.NameStands "c" ∧ Declarations.ValueStands "z" ∧
      escaped.styleProperty? ⟨0⟩ "1a" = some "x" ∧
      (escaped.setStyleProperty ⟨0⟩ "c" "z").styleProperty? ⟨0⟩ "1a" =
        none := by
  decide +kernel

end Dom

end LiveTemplate
