import LiveTemplate.Proofs.Restoring

/-!
# What a slot is seen in

A slot is seen in the data of a text or in the value of an attribute; the
properties of a style map are all seen in the same one.  When the order of
attributes does not matter, a tree is what these values are, besides its form.

A style property is shown in the first attribute of the name `style`, whatever
its namespace.  So attributes of this name that have a namespace count among
those that may change.
-/

namespace LiveTemplate

theorem Attribute.isSome_findNs?_iff {attributes : List Attribute}
    {namespaceName : Option String} {name : String} :
    (findNs? attributes namespaceName name).isSome = true ↔
      (namespaceName, name) ∈ attributes.map key := by
  rw [Option.isSome_iff_ne_none, ne_eq, findNs?_eq_none_iff, not_not]

instance : DecidablePred Attribute.HasPlainStyle := fun attributes =>
  inferInstanceAs (Decidable (∀ entry ∈ attributes,
    entry.name = "style" → entry.namespaceName = none))

/-- The data of a text, or an attribute by its namespace and name. -/
inductive Facet where
  | text (node : NodeId)
  | attr (node : NodeId) (namespaceName : Option String) (name : String)

def Facet.node : Facet → NodeId
  | text node => node
  | attr node _ _ => node

namespace Slot

/-- What shows the value of a slot. -/
def facet : Slot → Facet
  | text node => .text node
  | attr node namespaceName name => .attr node namespaceName name
  | style node _ => .attr node none "style"

theorem node_facet (slot : Slot) : slot.facet.node = slot.node := by
  cases slot <;> rfl

end Slot

namespace Dom

variable {dom between later : Dom} {n : NodeId}

/-- The value of a facet, if there is one. -/
def facet (dom : Dom) : Facet → Option String
  | .text node =>
      match dom.kind node with
      | .text data => some data
      | _ => none
  | .attr node namespaceName name =>
      dom.attributeNs? node namespaceName name

theorem facet_congr {facet : Facet}
    (same : later.kind facet.node = dom.kind facet.node) :
    later.facet facet = dom.facet facet := by
  cases facet <;> rw [Facet.node] at same <;>
    simp only [Dom.facet, attributeNs?, attributes, same]

theorem facet_text_of_text {data : String} (text : dom.kind n = .text data) :
    dom.facet (.text n) = some data := by
  simp only [facet, text]

theorem facet_text_of_element {namespaceName tag : String}
    {attributes : List Attribute}
    (element : dom.kind n = .element namespaceName tag attributes) :
    dom.facet (.text n) = none := by
  simp only [facet, element]

theorem facet_attr_of_element {namespaceName tag : String}
    {attributes : List Attribute}
    (element : dom.kind n = .element namespaceName tag attributes)
    (scope : Option String) (name : String) :
    dom.facet (.attr n scope name) =
      Attribute.findNs? attributes scope name := by
  simp only [facet, attributeNs?, Dom.attributes, element]

theorem facet_attr_of_text {data : String} (text : dom.kind n = .text data)
    (scope : Option String) (name : String) :
    dom.facet (.attr n scope name) = none := by
  simp only [facet, attributeNs?, Dom.attributes, text]
  rfl

/-- In a tree the attributes for styles that have a namespace are among some
facets. -/
def StylesAmong (dom : Dom) (n : NodeId) (facets : Facet → Prop) : Prop :=
  ∀ m scope, dom.Inside n m →
    (dom.facet (.attr m (some scope) "style")).isSome = true →
      facets (.attr m (some scope) "style")

/-- No attribute for styles in a tree has a namespace. -/
def HasPlainStyles (dom : Dom) (n : NodeId) : Prop :=
  ∀ m, dom.Inside n m → Attribute.HasPlainStyle (dom.attributes m)

/-- It is enough to look at the nodes there are. -/
theorem HasPlainStyles.of_rows (rows : ∀ index < dom.nodes.size,
    Attribute.HasPlainStyle (dom.attributes ⟨index⟩)) :
    dom.HasPlainStyles n := by
  rintro ⟨index⟩ _
  by_cases within : index < dom.nodes.size
  · exact rows index within
  · have missing : dom.nodes.get index = default := by
      simp only [Store.size] at within
      simp [Store.get, within]
    have bare : dom.attributes ⟨index⟩ = [] := by
      rw [attributes, kind, node, missing]
      rfl
    rw [bare]
    exact fun _ member => absurd member List.not_mem_nil

theorem HasPlainStyles.among (plain : dom.HasPlainStyles n)
    (facets : Facet → Prop) : dom.StylesAmong n facets := by
  intro m scope inside found
  obtain ⟨entry, member, same⟩ :=
    List.mem_map.mp (Attribute.isSome_findNs?_iff.mp found)
  have bare := plain m inside entry member (congrArg Prod.snd same)
  rw [(Prod.mk.inj same).1] at bare
  cases bare

end Dom

namespace Slot

variable {dom : Dom} {slot : Slot} {facets : Facet → Prop}

private theorem confined_displayIn_among (shows : facets slot.facet)
    {attributes : List Attribute}
    (styles : ∀ scope, (Attribute.findNs? attributes (some scope)
      "style").isSome = true → facets (.attr slot.node (some scope)
        "style")) (value : Value) :
    Attribute.Confined (fun key => facets (.attr slot.node key.1 key.2))
      attributes (slot.displayIn value attributes) := by
  cases slot with
  | text node => exact .refl attributes
  | attr node namespaceName name =>
      refine (confined_displayIn _ value attributes).mono fun key same => ?_
      rw [same]
      exact shows
  | style node property =>
      refine Attribute.confined_displayIn_style (fun entry member named => ?_)
        shows node property value
      have name : entry.name = "style" := beq_iff_eq.mp named
      have key : entry.key = (entry.namespaceName, "style") :=
        congrArg _ name
      rw [key]
      cases found : entry.namespaceName with
      | none => exact shows
      | some scope =>
          refine styles scope (Attribute.isSome_findNs?_iff.mpr ?_)
          rw [← found, ← key]
          exact List.mem_map_of_mem member

/-- Attributes and styles are shown in elements only. -/
theorem display_of_not_element (text : ∀ node, slot ≠ .text node)
    (other : dom.isElement slot.node = false) (value : Value) :
    slot.display dom value = dom := by
  have unchanged := Dom.modifyAttributes_of_not_element other
  cases slot with
  | text node => exact absurd rfl (text node)
  | attr node namespaceName name =>
      rw [display_attr]
      exact unchanged _
  | style node property =>
      rw [display_style]
      unfold Dom.removeStyleProperty Dom.setStyleProperty
      have written (style : String) : dom.setAttribute node "style" style =
          dom := unchanged _
      have removed : dom.removeAttribute node "style" = dom := unchanged _
      simp only [written, removed, ite_self]
      cases dom.attribute? node "style" <;> simp

private theorem facet_display_text {node : NodeId} {data : String}
    (text : dom.kind node = .text data) (value : Value) {facet : Facet}
    (apart : facet ≠ .text node) :
    ((Slot.text node).display dom value).facet facet = dom.facet facet := by
  have shown := Dom.kind_setKind_self dom node
    (.text (if value.isFalsy then "" else value.domString))
  rw [display_text text]
  by_cases here : facet.node = node
  · cases facet with
    | text other => exact absurd (congrArg Facet.text here) apart
    | attr other scope name =>
        obtain rfl : other = node := here
        rw [Dom.facet_attr_of_text shown, Dom.facet_attr_of_text text]
  · exact Dom.facet_congr (Dom.kind_setKind_of_ne dom _ here)

/-- Showing a value in an element changes the facet of the slot, apart from
attributes for styles that have a namespace. -/
theorem facet_display_element (proper : slot.IsProper dom)
    {namespaceName tag : String} {attributes : List Attribute}
    (element : dom.kind slot.node = .element namespaceName tag attributes)
    (value : Value) (shows : facets slot.facet)
    (styles : ∀ scope, (dom.facet (.attr slot.node (some scope)
      "style")).isSome = true → facets (.attr slot.node (some scope) "style"))
    {facet : Facet} (apart : ¬facets facet) :
    (slot.display dom value).facet facet = dom.facet facet := by
  have drawn := (slot.redrawn_display proper element value).kind
  by_cases here : facet.node = slot.node
  · cases facet with
    | text node =>
        obtain rfl : node = slot.node := here
        rw [Dom.facet_text_of_element drawn, Dom.facet_text_of_element element]
    | attr node scope name =>
        obtain rfl : node = slot.node := here
        rw [Dom.facet_attr_of_element drawn, Dom.facet_attr_of_element element]
        refine Attribute.Confined.findNs?_eq
          (confined_displayIn_among shows (fun scope found => ?_) value) apart
        rw [← Dom.facet_attr_of_element element] at found
        exact styles scope found
  · exact Dom.facet_congr
      (congrArg Node.kind (node_display_of_ne proper value here))

theorem facet_display (proper : slot.IsProper dom) (value : Value)
    (shows : facets slot.facet)
    (styles : ∀ scope, (dom.facet (.attr slot.node (some scope)
      "style")).isSome = true → facets (.attr slot.node (some scope) "style"))
    {facet : Facet} (apart : ¬facets facet) :
    (slot.display dom value).facet facet = dom.facet facet := by
  cases element : dom.isElement slot.node with
  | true =>
      obtain ⟨_, _, _, kind⟩ := Dom.isElement_iff.mp element
      exact facet_display_element proper kind value shows styles apart
  | false =>
      by_cases text : ∃ node, slot = .text node
      · obtain ⟨node, rfl⟩ := text
        obtain ⟨data, kind⟩ := Dom.isText_iff.mp proper
        refine facet_display_text kind value fun same => ?_
        rw [same] at apart
        exact apart shows
      · rw [display_of_not_element (not_exists.mp text) element]

private theorem parent?_display (proper : slot.IsProper dom) (value : Value)
    (m : NodeId) : (slot.display dom value).parent? m = dom.parent? m := by
  rcases display_cases proper value with
    same | ⟨change, _, changed⟩ | ⟨_, data, written⟩
  · rw [same]
  · rw [changed, Dom.parent?_modifyAttributes]
  · rw [written, Dom.parent?_setKind]

end Slot

namespace Dom

variable {dom between later : Dom} {n : NodeId} {facets : Facet → Prop}

theorem IsLinked.of_rows (linked : dom.IsLinked)
    (children : ∀ m, later.children m = dom.children m)
    (parents : ∀ m, later.parent? m = dom.parent? m) : later.IsLinked := by
  intro parent child
  rw [children, parents]
  exact linked parent child

theorem SameFormBelow.inside_iff (form : dom.SameFormBelow later n)
    {m : NodeId} : later.Inside n m ↔ dom.Inside n m := by
  exact Inside.iff_of_childrenBelow fun inner inside => (form inner inside).1

theorem SameFormBelow.trans (first : dom.SameFormBelow between n)
    (second : between.SameFormBelow later n) : dom.SameFormBelow later n := by
  intro m inside
  obtain ⟨children, shape⟩ := second m (first.inside_iff.mpr inside)
  rw [children, shape]
  exact first m inside

/-- In the tree below a node nothing but some facets changes. -/
structure AltersOnly (n : NodeId) (facets : Facet → Prop) (dom later : Dom) :
    Prop where
  form : dom.SameFormBelow later n
  facet : ∀ facet, dom.Inside n facet.node → ¬facets facet →
    later.facet facet = dom.facet facet
  size : dom.nodes.size ≤ later.nodes.size
  linked : dom.IsLinked → later.IsLinked

namespace AltersOnly

theorem refl (dom : Dom) : AltersOnly n facets dom dom := by
  exact ⟨fun _ _ => ⟨rfl, rfl⟩, fun _ _ _ => rfl, Nat.le_refl _, id⟩

theorem inside_iff (alters : AltersOnly n facets dom later) {m : NodeId} :
    later.Inside n m ↔ dom.Inside n m :=
  alters.form.inside_iff

theorem trans (first : AltersOnly n facets dom between)
    (second : AltersOnly n facets between later) :
    AltersOnly n facets dom later where
  form := first.form.trans second.form
  facet facet inside apart :=
    (second.facet facet (first.inside_iff.mpr inside) apart).trans
      (first.facet facet inside apart)
  size := Nat.le_trans first.size second.size
  linked linked := second.linked (first.linked linked)

theorem mono {wider : Facet → Prop} (alters : AltersOnly n facets dom later)
    (implies : ∀ facet, dom.Inside n facet.node → facets facet →
      wider facet) : AltersOnly n wider dom later where
  form := alters.form
  facet facet inside apart :=
    alters.facet facet inside fun among => apart (implies facet inside among)
  size := alters.size
  linked := alters.linked

theorem isTree (alters : AltersOnly n facets dom later)
    (isTree : dom.IsTree n) : later.IsTree n := by
  exact isTree.of_childrenBelow
    (fun inner inside => (alters.form inner inside).1) alters.size

theorem stylesAmong (alters : AltersOnly n facets dom later)
    (styles : dom.StylesAmong n facets) : later.StylesAmong n facets := by
  intro m scope inside found
  by_contra apart
  have before := alters.inside_iff.mp inside
  rw [alters.facet (.attr m (some scope) "style") before apart] at found
  exact apart (styles m scope before found)

theorem isProper (alters : AltersOnly n facets dom later) {slot : Slot}
    (inside : dom.Inside n slot.node) (proper : slot.IsProper dom) :
    slot.IsProper later := by
  cases slot with
  | text node =>
      obtain ⟨data, kind⟩ := isText_iff.mp proper
      have shape := (alters.form node inside).2
      rw [kind] at shape
      exact isText_iff.mpr (NodeKind.eq_text_of_shape shape)
  | attr => trivial
  | style => trivial

theorem display (styles : dom.StylesAmong n facets) {slot : Slot}
    (proper : slot.IsProper dom)
    (shows : dom.Inside n slot.node → facets slot.facet) (value : Value) :
    AltersOnly n facets dom (slot.display dom value) where
  form m _ := by
    have same := slot.sameShape_display proper value
    exact ⟨same.children m, same.shape m⟩
  facet facet inside apart := by
    by_cases here : facet.node = slot.node
    · rw [here] at inside
      exact slot.facet_display proper value (shows inside)
        (fun scope found => styles slot.node scope inside found) apart
    · exact facet_congr
        (congrArg Node.kind (slot.node_display_of_ne proper value here))
  size := slot.size_le_display proper value
  linked linked := linked.of_rows (slot.sameShape_display proper value).children
    (slot.parent?_display proper value)

theorem of_written {owned : Slot → Prop} (written : Dom.Written owned dom later)
    (styles : dom.StylesAmong n facets)
    (shows : ∀ slot, owned slot → facets slot.facet) :
    AltersOnly n facets dom later := by
  induction written with
  | refl => exact .refl _
  | @display between slot value _ owns proper ih =>
      exact ih.trans (.display (ih.stylesAmong styles) proper
        (fun _ => shows slot owns) value)

end AltersOnly

end Dom

end LiveTemplate
