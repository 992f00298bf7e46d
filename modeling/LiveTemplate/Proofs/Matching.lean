import Mathlib.Data.List.Forall2
import LiveTemplate.Proofs.Slots
import LiveTemplate.Proofs.Validation

/-!
# Templates and the nodes they are worked into

A template that fits a node is worked into that node, and the templates nested
in it into the nodes below, one for one.  This says which slots belong to the
template and what is saved before they are filled.  Both depend on the shape of
the document only, apart from the texts and attributes of the nodes in
question.
-/

namespace LiveTemplate

variable {σ : Type}

/-- The slots of one attribute of a definition. -/
def entrySlots (n : NodeId) (entry : String × Schema) : List Slot :=
  match entryStyles? entry.1 entry.2 with
  | some (.ok styles) => styles.map fun style => .style n style.1
  | some (.error _) => []
  | none => [.attr n (Schema.namespace? entry.2) entry.1]

/-- What is saved of one attribute before it is rendered. -/
def savedAttribute (dom : Dom) (n : NodeId) (entry : String × Schema) :
    SavedAttribute :=
  if (entryStyles? entry.1 entry.2).isSome then
    ⟨none, entry.1, dom.attribute? n "style"⟩
  else
    let namespaceName := Schema.namespace? entry.2
    ⟨namespaceName, entry.1, dom.attributeNs? n namespaceName entry.1⟩

theorem eq_style_of_entryStyles? {name : String} {schema : Schema}
    {outcome : Except DefinitionFault StyleMap}
    (found : entryStyles? name schema = some outcome) :
    name = "style" ∧ styleMap? schema = some outcome := by
  unfold entryStyles? at found
  split at found
  · rename_i style
    exact ⟨beq_iff_eq.mp style, found⟩
  · cases found

/-- The slots of an attribute belong to the node and cover its name only. -/
theorem covers_of_mem_entrySlots {n : NodeId} {entry : String × Schema}
    {slot : Slot} (member : slot ∈ entrySlots n entry) :
    slot.node = n ∧ (∀ dom, slot.IsProper dom) ∧
      ∀ key, slot.Covers key → key.2 = entry.1 := by
  unfold entrySlots at member
  cases found : entryStyles? entry.1 entry.2 with
  | none =>
      rw [found] at member
      rw [List.mem_singleton.mp member]
      refine ⟨rfl, fun _ => trivial, fun key covers => ?_⟩
      rw [covers]
  | some outcome =>
      rw [found] at member
      cases outcome with
      | error fault => cases member
      | ok styles =>
          obtain ⟨style, _, rfl⟩ := List.mem_map.mp member
          refine ⟨rfl, fun _ => trivial, fun key covers => ?_⟩
          rw [(eq_style_of_entryStyles? found).1]
          exact covers

/-- Rendering one attribute leaves alone what is saved of another. -/
theorem savedAttribute_of_written {dom later : Dom} {n : NodeId}
    {entry other : String × Schema}
    (written : Dom.Written (· ∈ entrySlots n entry) dom later)
    (differs : other.1 ≠ entry.1) :
    savedAttribute later n other = savedAttribute dom n other := by
  have named : (later.attributes n).filter (·.name == other.1) =
      (dom.attributes n).filter (·.name == other.1) := by
    refine (written.confined n).filter (fun key => key.2 == other.1) ?_
    rintro key ⟨slot, member, _, covers⟩
    have covered := (covers_of_mem_entrySlots member).2.2 key covers
    simpa [covered] using Ne.symm differs
  have single : later.attribute? n other.1 = dom.attribute? n other.1 := by
    unfold Dom.attribute?
    rw [← Attribute.find?_filter, named, Attribute.find?_filter]
  have qualified (namespaceName : Option String) :
      later.attributeNs? n namespaceName other.1 =
        dom.attributeNs? n namespaceName other.1 := by
    unfold Dom.attributeNs?
    rw [← Attribute.findNs?_filter, named, Attribute.findNs?_filter]
  unfold savedAttribute
  split
  · rename_i styles
    obtain ⟨outcome, found⟩ := Option.isSome_iff_exists.mp styles
    rw [← (eq_style_of_entryStyles? found).1, single]
  · dsimp only
    rw [qualified]

/-- The slots of a definition at a node. -/
def Blueprint.slots (blueprint : Blueprint) (n : NodeId) : List Slot :=
  if blueprint.text.isSome then [.text n]
  else blueprint.attributes.flatMap (entrySlots n)

/-- The templates that are worked into the nodes of a tree: the template itself
into its root, nested templates into the nodes below. -/
inductive Matched (world : World σ) :
    TemplateId → NodeId → TemplateId → NodeId → Prop where
  | root (t : TemplateId) (n : NodeId) : Matched world t n t n
  | nested {t nested inner : TemplateId} {n child node : NodeId} :
      (world.template t).blueprint.text = none →
      (nested, child) ∈
        (world.template t).blueprint.nested.zip (world.dom.children n) →
      Matched world nested child inner node →
      Matched world t n inner node

/-- A slot of the template or of one nested in it. -/
def Template.Owns (world : World σ) (t : TemplateId) (n : NodeId)
    (slot : Slot) : Prop :=
  ∃ inner node, Matched world t n inner node ∧
    slot ∈ (world.template inner).blueprint.slots node

/-- The nodes of the tree below a node, in document order. -/
inductive Dom.Spans (dom : Dom) : NodeId → List NodeId → Prop where
  | node {n : NodeId} {parts : List (List NodeId)} :
      (dom.children n).length = parts.length →
      (∀ child part, (child, part) ∈ (dom.children n).zip parts →
        Spans dom child part) →
      Spans dom n (n :: parts.flatten)

/-- What the record of a template holds that was worked into the nodes of an
unchanged document. -/
inductive Recorded (world : World σ) :
    TemplateId → NodeId → Record → Prop where
  | text {t : TemplateId} {n : NodeId} {data : String}
      {bindings : List (List RevokerId)} :
      (world.template t).blueprint.text.isSome = true →
      world.dom.kind n = .text data →
      Recorded world t n ⟨some data, [], bindings, []⟩
  | element {t : TemplateId} {n : NodeId} {bindings : List (List RevokerId)}
      {records : List Record} :
      (world.template t).blueprint.text = none →
      ((world.template t).blueprint.nested.zip
        (world.dom.children n)).length = records.length →
      (∀ nested child record, ((nested, child), record) ∈
        ((world.template t).blueprint.nested.zip
          (world.dom.children n)).zip records →
        Recorded world nested child record) →
      Recorded world t n
        ⟨none,
          (world.template t).blueprint.attributes.map
            (savedAttribute world.dom n),
          bindings, records⟩

namespace World

/-- The templates are the same, and the document has the same shape. -/
structure SameForm (world later : World σ) : Prop where
  templates : later.templates = world.templates
  shape : world.dom.SameShape later.dom

namespace SameForm

variable {world between later : World σ}

theorem refl (world : World σ) : SameForm world world := by
  exact ⟨rfl, .refl _⟩

theorem trans (first : SameForm world between)
    (second : SameForm between later) : SameForm world later := by
  exact ⟨second.templates.trans first.templates, first.shape.trans second.shape⟩

theorem template (same : SameForm world later) (t : TemplateId) :
    later.template t = world.template t := by
  simp only [World.template, same.templates]

theorem matched (same : SameForm world later) {t inner : TemplateId}
    {n node : NodeId} :
    Matched later t n inner node ↔ Matched world t n inner node := by
  constructor
  · intro reached
    induction reached with
    | root => exact .root _ _
    | nested text member _ ih =>
        rw [same.template] at text member
        rw [same.shape.children] at member
        exact .nested text member ih
  · intro reached
    induction reached with
    | root => exact .root _ _
    | nested text member _ ih =>
        rw [← same.template] at text member
        rw [← same.shape.children] at member
        exact .nested text member ih

theorem owns (same : SameForm world later) {t : TemplateId} {n : NodeId}
    {slot : Slot} :
    Template.Owns later t n slot ↔ Template.Owns world t n slot := by
  simp only [Template.Owns, same.matched, same.template]

theorem hasSoundTemplates (same : SameForm world later)
    (sound : world.HasSoundTemplates) : later.HasSoundTemplates := by
  intro t
  rw [same.template]
  exact sound t

theorem graftable (same : SameForm world later) {t : TemplateId} {n : NodeId}
    (fits : Graftable world t n) : Graftable later t n := by
  induction fits with
  | text tag text isText =>
      rw [← same.template] at tag text
      rw [← same.shape.isText] at isText
      exact .text tag text isText
  | element text element applicable count _ ih =>
      rw [← same.template] at text applicable count
      rw [← same.shape.isElement] at element
      rw [← same.shape.children] at count
      refine .element text element applicable count fun nested child member => ?_
      rw [same.template, same.shape.children] at member
      exact ih nested child member

end SameForm

end World

namespace Dom

theorem Spans.parts {dom : Dom} {n : NodeId} {nodes : List NodeId}
    (spans : dom.Spans n nodes) :
    ∃ parts, nodes = n :: parts.flatten ∧
      List.Forall₂ dom.Spans (dom.children n) parts := by
  cases spans with
  | @node _ parts count below =>
      exact ⟨parts, rfl, List.forall₂_iff_zip.mpr
        ⟨count, fun paired => below _ _ paired⟩⟩

theorem SameShape.spans {dom later : Dom} (same : dom.SameShape later)
    {n : NodeId} {nodes : List NodeId} (spans : dom.Spans n nodes) :
    later.Spans n nodes := by
  induction spans with
  | node count _ ih =>
      rw [← same.children] at count
      refine .node count fun child part member => ?_
      rw [same.children] at member
      exact ih child part member

end Dom

theorem exists_mem_zip {α β : Type} {left : List α} {right : List β}
    (count : left.length = right.length) {a : α} (member : a ∈ left) :
    ∃ b, (a, b) ∈ left.zip right := by
  rw [← List.map_fst_zip (Nat.le_of_eq count)] at member
  obtain ⟨⟨_, b⟩, inside, rfl⟩ := List.mem_map.mp member
  exact ⟨b, inside⟩

theorem mem_of_mem_part {dom : Dom} {n child m : NodeId}
    {parts : List (List NodeId)} {part : List NodeId}
    (member : (child, part) ∈ (dom.children n).zip parts) (inside : m ∈ part) :
    m ∈ n :: parts.flatten := by
  exact .tail _
    (List.mem_flatten.mpr ⟨part, (List.of_mem_zip member).2, inside⟩)

theorem Matched.mem_of_spans {world : World σ} {t inner : TemplateId}
    {n node : NodeId} (matched : Matched world t n inner node)
    {nodes : List NodeId} (spans : world.dom.Spans n nodes) :
    node ∈ nodes := by
  induction matched generalizing nodes with
  | root =>
      cases spans
      exact .head _
  | nested _ member _ ih =>
      cases spans with
      | node count each =>
          obtain ⟨part, paired⟩ :=
            exists_mem_zip count (List.of_mem_zip member).2
          exact mem_of_mem_part paired (ih (each _ part paired))

theorem node_of_mem_slots {blueprint : Blueprint} {n : NodeId} {slot : Slot}
    (member : slot ∈ blueprint.slots n) : slot.node = n := by
  unfold Blueprint.slots at member
  split at member
  · rw [List.mem_singleton.mp member]
    rfl
  · obtain ⟨entry, _, inside⟩ := List.mem_flatMap.mp member
    exact (covers_of_mem_entrySlots inside).1

theorem Template.Owns.mem_of_spans {world : World σ} {t : TemplateId}
    {n : NodeId} {slot : Slot} (owns : Owns world t n slot)
    {nodes : List NodeId} (spans : world.dom.Spans n nodes) :
    slot.node ∈ nodes := by
  obtain ⟨inner, node, matched, member⟩ := owns
  rw [node_of_mem_slots member]
  exact matched.mem_of_spans spans

private theorem savedAttribute_of_row {dom later : Dom} {n : NodeId}
    (row : later.node n = dom.node n) :
    savedAttribute later n = savedAttribute dom n := by
  have attributes : later.attributes n = dom.attributes n := by
    simp only [Dom.attributes, Dom.kind, row]
  funext entry
  simp only [savedAttribute, Dom.attribute?, Dom.attributeNs?, attributes]

theorem Recorded.of_rows {world later : World σ} {t : TemplateId} {n : NodeId}
    {record : Record} (recorded : Recorded later t n record)
    (templates : later.templates = world.templates) {nodes : List NodeId}
    (spans : world.dom.Spans n nodes)
    (rows : ∀ m ∈ nodes, later.dom.node m = world.dom.node m) :
    Recorded world t n record := by
  have each (t : TemplateId) : later.template t = world.template t := by
    simp only [World.template, templates]
  induction recorded generalizing nodes with
  | @text t n data bindings text kind =>
      cases spans
      rw [each] at text
      have row := rows n (.head _)
      unfold Dom.kind at kind
      rw [row] at kind
      exact .text text kind
  | @element t n bindings records text count _ ih =>
      cases spans with
      | node counted below =>
          have row := rows n (.head _)
          have children : later.dom.children n = world.dom.children n := by
            simp only [Dom.children, row]
          rw [each] at text count ih ⊢
          rw [children] at count ih
          rw [savedAttribute_of_row row]
          refine .element text count fun nested child record member => ?_
          obtain ⟨part, paired⟩ := exists_mem_zip counted
            (List.of_mem_zip (List.of_mem_zip member).1).2
          exact ih nested child record member (below child part paired)
            fun m inside => rows m (mem_of_mem_part paired inside)

theorem Recorded.each_of_rows {world later : World σ}
    {pairs : List (TemplateId × NodeId)} {records : List Record}
    (recorded : List.Forall₂ (fun pair => Recorded later pair.1 pair.2) pairs
      records)
    (templates : later.templates = world.templates) {nodes : List NodeId}
    (members : ∀ pair ∈ pairs, pair.2 ∈ nodes) {parts : List (List NodeId)}
    (spans : List.Forall₂ world.dom.Spans nodes parts)
    (rows : ∀ m ∈ parts.flatten, later.dom.node m = world.dom.node m) :
    List.Forall₂ (fun pair => Recorded world pair.1 pair.2) pairs records := by
  obtain ⟨count, each⟩ := List.forall₂_iff_zip.mp recorded
  refine List.forall₂_iff_zip.mpr ⟨count, fun {pair record} member => ?_⟩
  have inside := members pair (List.of_mem_zip member).1
  obtain ⟨part, paired⟩ := exists_mem_zip spans.length_eq inside
  refine (each member).of_rows templates (List.forall₂_zip spans paired) ?_
  intro m within
  exact rows m (List.mem_flatten.mpr ⟨part, (List.of_mem_zip paired).2, within⟩)

end LiveTemplate
