import LiveTemplate.Proofs.Evaluation
import LiveTemplate.Template.StyleMap

/-!
# Schemas with pure bindings

A pass evaluates parts of the schemas of a template: schemas with their
namespaces flattened, and the schemas of style maps with declarations folded
in.  When every binding that occurs in a schema is pure, so is every binding of
these parts.
-/

namespace LiveTemplate

variable {σ : Type}

/-- The binding stands somewhere in a chunk. -/
inductive Binding.Occurs (binding : Binding) : Chunk → Prop where
  | bound : Occurs binding (.bound binding)
  | namespaced {namespaceName : String} {chunks : List Chunk}
      {chunk : Chunk} :
      chunk ∈ chunks → Occurs binding chunk →
      Occurs binding (.namespaced namespaceName chunks)
  | styles {properties : StyleMap} {property : String} {schema : Schema}
      {chunk : Chunk} :
      (property, schema) ∈ properties → chunk ∈ schema →
      Occurs binding chunk → Occurs binding (.styles properties)

mutual

theorem Chunk.occurs_of_mem_inputs {binding : Binding} (chunk : Chunk)
    (member : binding ∈ chunk.inputs) : binding.Occurs chunk := by
  cases chunk with
  | fixed value => cases member
  | bound other =>
      rw [Chunk.inputs, List.mem_singleton] at member
      rw [member]
      exact .bound
  | namespaced namespaceName chunks =>
      obtain ⟨chunk, inside, occurs⟩ :=
        occurs_of_mem_inputsAny chunks member
      exact .namespaced inside occurs
  | styles properties => cases member

theorem occurs_of_mem_inputsAny {binding : Binding} (chunks : List Chunk)
    (member : binding ∈ inputsAny chunks) :
    ∃ chunk ∈ chunks, binding.Occurs chunk := by
  cases chunks with
  | nil => cases member
  | cons chunk rest =>
      rw [inputsAny, List.mem_append] at member
      rcases member with head | tail
      · exact ⟨chunk, .head _, Chunk.occurs_of_mem_inputs chunk head⟩
      · obtain ⟨other, inside, occurs⟩ := occurs_of_mem_inputsAny rest tail
        exact ⟨other, .tail _ inside, occurs⟩

end

mutual

theorem Chunk.occurs_of_flatten {binding : Binding} (chunk : Chunk)
    {part : Chunk} (member : part ∈ chunk.flatten)
    (occurs : binding.Occurs part) : binding.Occurs chunk := by
  cases chunk with
  | fixed value =>
      rw [Chunk.flatten, List.mem_singleton] at member
      rw [← member]
      exact occurs
  | bound other =>
      rw [Chunk.flatten, List.mem_singleton] at member
      rw [← member]
      exact occurs
  | namespaced namespaceName chunks =>
      rw [Chunk.flatten] at member
      obtain ⟨chunk, inside, within⟩ :=
        occurs_of_flattenChunks chunks member occurs
      exact .namespaced inside within
  | styles properties =>
      rw [Chunk.flatten, List.mem_singleton] at member
      rw [← member]
      exact occurs

theorem occurs_of_flattenChunks {binding : Binding} (chunks : List Chunk)
    {part : Chunk} (member : part ∈ flattenChunks chunks)
    (occurs : binding.Occurs part) :
    ∃ chunk ∈ chunks, binding.Occurs chunk := by
  cases chunks with
  | nil => cases member
  | cons chunk rest =>
      rw [flattenChunks, List.mem_append] at member
      rcases member with head | tail
      · exact ⟨chunk, .head _, Chunk.occurs_of_flatten chunk head occurs⟩
      · obtain ⟨other, inside, within⟩ :=
          occurs_of_flattenChunks rest tail occurs
        exact ⟨other, .tail _ inside, within⟩

end

private theorem mem_of_mem_appendEntry {β : Type} {key name : String}
    {added items : List β} {entries : List (String × List β)}
    (member : (name, items) ∈ appendEntry key added entries) {item : β}
    (inside : item ∈ items) :
    item ∈ added ∨ ∃ old, (name, old) ∈ entries ∧ item ∈ old := by
  induction entries with
  | nil =>
      cases List.mem_singleton.mp member
      exact .inl (by simpa using inside)
  | cons entry rest ih =>
      obtain ⟨other, old⟩ := entry
      unfold appendEntry updateEntry at member
      split at member
      · rcases List.mem_cons.mp member with same | later
        · cases same
          rcases List.mem_append.mp inside with before | new
          · exact .inr ⟨old, .head _, before⟩
          · exact .inl new
        · exact .inr ⟨items, .tail _ later, inside⟩
      · rcases List.mem_cons.mp member with same | later
        · cases same
          exact .inr ⟨items, .head _, inside⟩
        · rcases ih later with new | ⟨old, present, before⟩
          · exact .inl new
          · exact .inr ⟨old, .tail _ present, before⟩

/-- What occurs in a map that chunks were folded into occurs in one of the
chunks or in the former map. -/
def StyleMap.Within (binding : Binding) (map : StyleMap) : Prop :=
  ∃ property schema, (property, schema) ∈ map ∧
    ∃ chunk ∈ schema, binding.Occurs chunk

private theorem StyleMap.within_appendEntry {binding : Binding}
    {property : String}
    {schema : Schema} {map : StyleMap}
    (within : StyleMap.Within binding (appendEntry property schema map)) :
    (∃ chunk ∈ schema, binding.Occurs chunk) ∨ StyleMap.Within binding map := by
  obtain ⟨name, chunks, member, chunk, inside, occurs⟩ := within
  rcases mem_of_mem_appendEntry member inside with new | ⟨old, present, before⟩
  · exact .inl ⟨chunk, new, occurs⟩
  · exact .inr ⟨name, old, present, chunk, before, occurs⟩

theorem StyleMap.within_foldl {binding : Binding} {added map : StyleMap}
    (within : StyleMap.Within binding (added.foldl
      (fun map (property, schema) => appendEntry property schema map) map)) :
    StyleMap.Within binding added ∨ StyleMap.Within binding map := by
  induction added generalizing map with
  | nil => exact .inr within
  | cons entry rest ih =>
      obtain ⟨property, schema⟩ := entry
      rcases ih within with later | early
      · obtain ⟨name, chunks, member, occurs⟩ := later
        exact .inl ⟨name, chunks, .tail _ member, occurs⟩
      · rcases StyleMap.within_appendEntry early with head | before
        · exact .inl ⟨property, schema, .head _, head⟩
        · exact .inr before

private theorem StyleMap.within_foldStyle {binding : Binding} {chunk : Chunk}
    {map later : StyleMap} (folded : foldStyle map chunk = .ok later)
    (within : later.Within binding) :
    binding.Occurs chunk ∨ map.Within binding := by
  cases chunk with
  | fixed value =>
      rw [foldStyle] at folded
      split at folded
      · cases folded
        exact .inr within
      · cases folded
        -- Declarations are folded in as fixed values.
        let plain : String × String → String × Schema :=
          fun entry => (entry.1, [.fixed (.text entry.2)])
        rw [← List.foldl_map (f := plain)
          (g := fun map entry => appendEntry entry.1 entry.2 map)] at within
        rcases StyleMap.within_foldl within with added | before
        · obtain ⟨property, schema, member, chunk, inside, occurs⟩ := added
          obtain ⟨entry, _, same⟩ := List.mem_map.mp member
          cases same
          rw [List.mem_singleton.mp inside] at occurs
          cases occurs
        · exact .inr before
  | bound other => cases folded
  | namespaced namespaceName chunks => cases folded
  | styles properties =>
      cases folded
      rcases StyleMap.within_foldl within with added | before
      · obtain ⟨property, schema, member, chunk, inside, occurs⟩ := added
        exact .inl (.styles member inside occurs)
      · exact .inr before

theorem StyleMap.within_foldlM {binding : Binding} {schema : Schema}
    {map later : StyleMap} (folded : schema.foldlM foldStyle map = .ok later)
    (within : later.Within binding) :
    (∃ chunk ∈ schema, binding.Occurs chunk) ∨ map.Within binding := by
  induction schema generalizing map with
  | nil =>
      cases folded
      exact .inr within
  | cons chunk rest ih =>
      rw [List.foldlM_cons] at folded
      cases head : foldStyle map chunk with
      | error fault =>
          rw [head] at folded
          cases folded
      | ok between =>
          rw [head] at folded
          rcases ih folded with tail | before
          · obtain ⟨other, inside, occurs⟩ := tail
            exact .inl ⟨other, .tail _ inside, occurs⟩
          · rcases StyleMap.within_foldStyle head before with occurs | former
            · exact .inl ⟨chunk, .head _, occurs⟩
            · exact .inr former

/-- What stands in a style map stands in the schema that it is folded from. -/
theorem occurs_of_styleMap {binding : Binding} {schema : Schema}
    {styles : StyleMap} (found : styleMap? schema = some (.ok styles))
    {property : String} {part : Schema} (member : (property, part) ∈ styles)
    {chunk : Chunk} (inside : chunk ∈ part) (occurs : binding.Occurs chunk) :
    ∃ other ∈ schema, binding.Occurs other := by
  unfold styleMap? at found
  split at found
  · have folded := Option.some.inj found
    have within : StyleMap.Within binding styles :=
      ⟨property, part, member, chunk, inside, occurs⟩
    rcases StyleMap.within_foldlM folded within with here | nowhere
    · exact here
    · obtain ⟨_, _, impossible, _⟩ := nowhere
      cases impossible
  · cases found

/-- Every binding in a schema is pure. -/
def Schema.IsPure (host : Host σ) (schema : Schema) : Prop :=
  ∀ chunk ∈ schema, ∀ binding : Binding, binding.Occurs chunk →
    binding.IsPure host

namespace Schema.IsPure

variable {host : Host σ} {schema : Schema}

theorem inputs (isPure : IsPure host schema) :
    ∀ binding ∈ inputsAny schema, binding.IsPure host := by
  intro binding member
  obtain ⟨chunk, inside, occurs⟩ := occurs_of_mem_inputsAny schema member
  exact isPure chunk inside binding occurs

theorem flatten (isPure : IsPure host schema) :
    IsPure host (flattenChunks schema) := by
  intro part member binding occurs
  obtain ⟨chunk, inside, within⟩ := occurs_of_flattenChunks schema member occurs
  exact isPure chunk inside binding within

theorem prepend {front : List Chunk}
    (isFixed : ∀ chunk ∈ front, ∃ value, chunk = .fixed value)
    (isPure : IsPure host schema) : IsPure host (front ++ schema) := by
  intro chunk member binding occurs
  rcases List.mem_append.mp member with ahead | behind
  · obtain ⟨value, rfl⟩ := isFixed chunk ahead
    cases occurs
  · exact isPure chunk behind binding occurs

theorem styleMap (isPure : IsPure host schema) {styles : StyleMap}
    (found : styleMap? schema = some (.ok styles)) {property : String}
    {part : Schema} (member : (property, part) ∈ styles) :
    IsPure host part := by
  intro chunk inside binding occurs
  obtain ⟨other, present, origin⟩ :=
    occurs_of_styleMap found member inside occurs
  exact isPure other present binding origin

end Schema.IsPure

/-- Every binding in the text and in the attributes of a blueprint is pure. -/
structure Blueprint.IsPure (host : Host σ) (blueprint : Blueprint) : Prop where
  text : ∀ schema, blueprint.text = some schema → Schema.IsPure host schema
  attributes : ∀ entry ∈ blueprint.attributes, Schema.IsPure host entry.2

/-- Nothing is asked of the definition where no transform changes anything. -/
theorem Blueprint.IsPure.of_bindings {host : Host σ} {blueprint : Blueprint}
    (isPure : ∀ binding : Binding, binding.IsPure host) :
    blueprint.IsPure host := by
  constructor
  · intro _ _ _ _ binding _
    exact isPure binding
  · intro _ _ _ _ binding _
    exact isPure binding

/-- The bindings of a text are pure once its namespaces are flattened. -/
theorem Blueprint.IsPure.flatText {host : Host σ} {blueprint : Blueprint}
    (isPure : blueprint.IsPure host) :
    Schema.IsPure host (flattenChunks (blueprint.text.getD [])) := by
  apply Schema.IsPure.flatten
  cases text : blueprint.text with
  | none => exact fun _ impossible => nomatch impossible
  | some schema => exact isPure.text schema text

end LiveTemplate
