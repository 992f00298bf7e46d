import LiveTemplate.Proofs.Overlaying

/-!
# Attributes that a template owns

Apart from classes and styles, of which the present value is kept, an attribute
of a definition is to belong to the template while it is in force: it shows the
value of its schema, and is not there if that value is falsy.

That is so except in one case.  A schema without bindings is written once, and
only if its value is truthy.  If it is falsy, an attribute which is there
already stays as it is, where a schema with bindings takes it away.
-/

namespace LiveTemplate

variable {σ : Type} {host : Host σ}

/-- What an attribute that belongs to a template shows. -/
def Value.attribute? (value : Value) : Option String :=
  if value.isTruthy then some value.domString else none

/-- A falsy value is no reason to touch an attribute unless it may change. -/
def writes (schema : Schema) (value : Value) : Bool :=
  value.isTruthy || (flattenChunks schema).any Chunk.isBound

/-- An attribute of which nothing is kept comes to the value of its schema if
that is written. -/
theorem overlaid_of_not_extendable {seen : World σ} {n : NodeId} {name : String}
    {schema : Schema} (isPure : Schema.IsPure host schema)
    (replaced : Blueprint.isExtendable name = false)
    (current : Option String) :
    let value := (evaluate host n schema).result seen
    overlaid host seen n name schema current =
      if writes schema value then value.attribute? else current := by
  intro value
  have falsy : value.isFalsy = true ↔ truthyValues host seen n schema = [] :=
    (evaluate_joins_truthy isPure.inputs).1
  have shown : truthyValues host seen n schema ≠ [] → value.domString =
      spaced ((truthyValues host seen n schema).map Value.domString) :=
    (evaluate_joins_truthy isPure.inputs).2.1
  have texts : overlaidTexts host seen n name schema current =
      (truthyValues host seen n schema).map Value.domString := by
    cases current <;>
      simp [overlaidTexts, keptChunks, replaced, truthyValues, valuesAny]
  unfold overlaid writes Value.attribute? Value.isTruthy
  rw [texts]
  by_cases none : truthyValues host seen n schema = []
  · rw [falsy.mpr none, none]
    cases (flattenChunks schema).any Chunk.isBound <;> simp
  · have truthy : value.isFalsy = false :=
      Bool.eq_false_iff.mpr (mt falsy.mp none)
    rw [truthy, shown none]
    simp [none]

namespace Template

/-- Once a template is worked into a tree, an attribute of a definition in it,
other than a class or a style, shows the value of its schema, or is not there if
that is falsy, exactly if the value is written or no such attribute was there
before.  The value is that seen while the template is worked in.  Where the
bindings are functions of the properties it is the one seen afterwards. -/
theorem attribute_owned_iff {client : σ} {world : World σ}
    (reached : Run (World.initial client) world)
    (linked : world.dom.IsLinked) {t inner : TemplateId} {n m node : NodeId}
    (isTree : world.dom.IsTree n) (isPure : IsPure host world t n)
    (applied : (apply host t n).result world = .ok node)
    (matched : Matched world t n inner m)
    (isElement : (world.template inner).blueprint.text = none)
    {name : String} {schema : Schema}
    (member : (name, schema) ∈ (world.template inner).blueprint.attributes)
    (replaced : name ≠ "class" ∧ name ≠ "style") :
    let later := (apply host t n).after world
    let before := world.dom.attributeNs? m (Schema.namespace? schema) name
    let shown := later.dom.attributeNs? m (Schema.namespace? schema) name
    ∃ seen, world.Meanwhile n m seen ∧
      let value := (evaluate host m schema).result seen
      (shown = value.attribute? ↔
        writes schema value = true ∨ before = none) ∧
      (writes schema value = false → shown = before) ∧
      ∀ meaning, Schema.Means host meaning schema →
        value = schemaValue meaning later.property (world.dom.tag? m)
          schema := by
  intro later before shown
  have sound := (reached.progress (World.ordered_initial client)).1.sound
  have overlaid := overlaid_apply sound linked isTree isPure applied
  have kept : Blueprint.isExtendable name = false := by
    simp [Blueprint.isExtendable, replaced]
  have plain : entryStyles? name schema = none := by
    simp [entryStyles?, replaced]
  have pure : Schema.IsPure host schema :=
    (isPure inner m matched).attributes _ member
  obtain ⟨seen, moment, drawn⟩ := overlaid.shown (t, n) (.head _) inner m
    matched isElement _ member plain
  rw [overlaid_of_not_extendable pure kept] at drawn
  refine ⟨seen, moment, ?_⟩
  intro value
  have comes :
      shown = if writes schema value then value.attribute? else before :=
    drawn
  refine ⟨?_, fun still => ?_, fun meaning means => ?_⟩
  · cases wrote : writes schema value with
    | true => simp [comes, wrote]
    | false =>
        have falsy : value.attribute? = none := by
          rw [writes, Bool.or_eq_false_iff] at wrote
          simp [Value.attribute?, wrote.1]
        simp [comes, wrote, falsy]
  · rw [comes, still]
    rfl
  · have properties : later.property = seen.property :=
      overlaid.redresses.spares.property.trans
        moment.redresses.spares.property.symm
    rw [properties, ← moment.tag?]
    exact result_evaluate m seen means.inputs

/-- A property in a template takes the place of what was there. -/
theorem title_shows_property :
    let schema : Schema := [.bound ⟨⟨0⟩, ⟨0⟩, "kind", .value, none⟩]
    let start := Paragraph.start "title" "old" schema
    start.dom.attributeNs? ⟨0⟩ none "title" = some "old" ∧
      ((apply Card.client ⟨0⟩ ⟨0⟩).after start).dom.attributeNs? ⟨0⟩ none
        "title" = some "wide open" := by
  intro schema start
  have applied : (apply Card.client ⟨0⟩ ⟨0⟩).result start = .ok ⟨0⟩ := by
    decide +kernel
  obtain ⟨seen, -, owned, -, value⟩ := attribute_owned_iff
    (Paragraph.reached _ _ _) (Paragraph.linked _ _ _) (Paragraph.isTree _ _ _)
    (Paragraph.isPure _ _ _) applied (.root _ _) rfl (.head _) (by decide)
  have means : Schema.Means Card.client (fun _ raw _ => raw) schema :=
    fun _ _ _ _ _ _ _ _ _ => ⟨rfl, rfl⟩
  have wide : (evaluate Card.client ⟨0⟩ schema).result seen =
      .text "wide open" := (value _ means).trans (by decide +kernel)
  rw [wide] at owned
  exact ⟨by decide +kernel, (owned.mpr (.inl (by decide +kernel))).trans
    (by decide +kernel)⟩

/-- The empty text in a template leaves a title that is there. -/
theorem title_stays :
    let start := Paragraph.start "title" "a" [.fixed (.text "")]
    let later := (apply Card.client ⟨0⟩ ⟨0⟩).after start
    (apply Card.client ⟨0⟩ ⟨0⟩).result start = .ok ⟨0⟩ ∧
      ((evaluate Card.client ⟨0⟩ [.fixed (.text "")]).result
        later).isFalsy = true ∧
      later.dom.attributeNs? ⟨0⟩ none "title" = some "a" := by
  decide +kernel

end Template

end LiveTemplate
