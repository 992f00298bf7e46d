import LiveTemplate.Proofs.Computation
import LiveTemplate.Template.Extend
import LiveTemplate.Template.Render

/-!
# Templates over time

Templates nest older ones, so that nesting ends, and a blueprint has each
attribute once.  The records that templates keep come from passes, in which a
text has no children.  `World.KeepsTemplates` says that all this lasts.
-/

namespace LiveTemplate

variable {σ : Type}

/-- A record with a text has no children, and nor has one below it. -/
inductive Record.Flat : Record → Prop where
  | text {data : String} {attributes : List SavedAttribute}
      {bindings : List (List RevokerId)} :
      Flat ⟨some data, attributes, bindings, []⟩
  | element {attributes : List SavedAttribute}
      {bindings : List (List RevokerId)} {children : List Record} :
      (∀ child ∈ children, Flat child) →
      Flat ⟨none, attributes, bindings, children⟩

/-- Attributes are named once and nested templates have smaller numbers. -/
structure Blueprint.IsSound (blueprint : Blueprint) (limit : Nat) : Prop where
  named : (blueprint.attributes.map (·.1)).Nodup
  older : ∀ t, .template t ∈ blueprint.children → t.index < limit

theorem Blueprint.IsSound.none (limit : Nat) :
    Blueprint.IsSound Parts.none limit where
  named := .nil
  older _ member := by cases member

theorem keys_updateEntry {β : Type} (key : String)
    (change : List β → List β) (entries : List (String × List β)) :
    (updateEntry key change entries).map (·.1) =
      if key ∈ entries.map (·.1) then entries.map (·.1)
      else entries.map (·.1) ++ [key] := by
  induction entries with
  | nil => rfl
  | cons entry rest ih =>
      obtain ⟨name, items⟩ := entry
      by_cases same : name = key
      · simp [updateEntry, same]
      · have apart : key ≠ name := Ne.symm same
        simp only [updateEntry, beq_iff_eq, same, if_false, List.map_cons, ih,
          List.mem_cons, apart, false_or]
        split <;> rfl

theorem nodup_appendEntry {β : Type} (key : String) (added : List β)
    {entries : List (String × List β)} (named : (entries.map (·.1)).Nodup) :
    ((appendEntry key added entries).map (·.1)).Nodup := by
  unfold appendEntry
  rw [keys_updateEntry]
  split
  · exact named
  · rename_i absent
    refine List.nodup_append.mpr ⟨named, by simp, ?_⟩
    intro name member other only same
    apply absent
    rw [← List.mem_singleton.mp only, ← same]
    exact member

theorem nodup_foldl_appendEntry {β : Type}
    (added entries : List (String × List β))
    (named : (entries.map (·.1)).Nodup) :
    ((added.foldl (fun entries (key, items) => appendEntry key items entries)
      entries).map (·.1)).Nodup := by
  induction added generalizing entries with
  | nil => exact named
  | cons entry rest ih => exact ih _ (nodup_appendEntry _ _ named)

theorem Blueprint.IsSound.merge {blueprint : Blueprint} {limit : Nat}
    (sound : blueprint.IsSound limit) (extension : Blueprint) :
    Blueprint.IsSound (Parts.merge blueprint extension) limit where
  named := nodup_foldl_appendEntry extension.attributes _ sound.named
  older := sound.older

namespace World

def HasSoundTemplates (world : World σ) : Prop :=
  ∀ t, (world.template t).blueprint.IsSound t.index

/-- Templates stay sound and keep the records they have, give them up or get
flat ones. -/
structure KeepsTemplates (world later : World σ) : Prop where
  records : ∀ t entry, (later.template t).applied = some entry →
    (world.template t).applied = some entry ∨ entry.2.Flat
  sound : world.HasSoundTemplates → later.HasSoundTemplates

namespace KeepsTemplates

theorem of_templates {world later : World σ}
    (same : later.templates = world.templates) :
    KeepsTemplates world later := by
  have each (t : TemplateId) : later.template t = world.template t := by
    simp only [template, same]
  refine ⟨fun t entry kept => .inl ?_, fun sound t => ?_⟩
  · rw [← each]
    exact kept
  · rw [each]
    exact sound t

end KeepsTemplates

end World

namespace Template

theorem index_ne {t other : TemplateId} (differs : other ≠ t) :
    other.index ≠ t.index := by
  intro same
  apply differs
  cases other
  cases t
  cases same
  rfl

@[simp] theorem template_update (t : TemplateId)
    (change : Template → Template) (world : World σ) :
    ((update t change).after world).template t = change (world.template t) := by
  simp [update, World.template]

theorem template_update_of_ne {t other : TemplateId}
    (change : Template → Template) (world : World σ) (differs : other ≠ t) :
    ((update t change).after world).template other = world.template other := by
  simp [update, World.template,
    Store.get_modify_of_ne _ _ (index_ne differs)]

/-- A template may be changed if it stays sound and its record is kept, given
up or flat. -/
theorem keepsTemplates_update (t : TemplateId) {change : Template → Template}
    (keeps : ∀ template, (change template).applied = template.applied ∨
      ∀ entry, (change template).applied = some entry → entry.2.Flat)
    (sound : ∀ template limit, template.blueprint.IsSound limit →
      (change template).blueprint.IsSound limit)
    (world : World σ) :
    world.KeepsTemplates ((update t change).after world) := by
  refine ⟨fun other entry kept => ?_, fun before other => ?_⟩
  · by_cases same : other = t
    · subst same
      rw [template_update] at kept
      rcases keeps (world.template other) with unchanged | flat
      · left
        rw [← unchanged]
        exact kept
      · exact .inr (flat entry kept)
    · rw [template_update_of_ne _ _ same] at kept
      exact .inl kept
  · by_cases same : other = t
    · subst same
      rw [template_update]
      exact sound _ _ (before other)
    · rw [template_update_of_ne _ _ same]
      exact before other

theorem keepsTemplates_keep (t : TemplateId) (n : NodeId) {record : Record}
    (flat : record.Flat) (world : World σ) :
    world.KeepsTemplates ((update t fun template =>
      { template with applied := some (n, record) }).after world) := by
  refine keepsTemplates_update t (fun _ => .inr fun entry kept => ?_) ?_ world
  · cases kept
    exact flat
  · exact fun _ _ sound => sound

theorem template_add_self (blueprint : Blueprint) (world : World σ) :
    ((add blueprint).after world).template ((add blueprint).result world) =
      ⟨blueprint, false, none⟩ :=
  Store.get_alloc_self world.templates _

theorem template_add_of_ne (blueprint : Blueprint) (world : World σ)
    {t : TemplateId} (old : t.index ≠ world.templates.size) :
    ((add blueprint).after world).template t = world.template t :=
  Store.get_alloc_of_ne world.templates _ old

/-- A new template may nest the ones there are. -/
theorem keepsTemplates_add {blueprint : Blueprint} {world : World σ}
    (sound : blueprint.IsSound world.templates.size) :
    world.KeepsTemplates ((add blueprint).after world) := by
  refine ⟨fun t entry kept => ?_, fun before t => ?_⟩
  · by_cases new : t.index = world.templates.size
    · have same : t = (add blueprint).result world := by
        cases t
        cases new
        rfl
      rw [same, template_add_self] at kept
      cases kept
    · rw [template_add_of_ne _ _ new] at kept
      exact .inl kept
  · by_cases new : t.index = world.templates.size
    · have same : t = (add blueprint).result world := by
        cases t
        cases new
        rfl
      rw [new, same, template_add_self]
      exact sound
    · rw [template_add_of_ne _ _ new]
      exact before t

end Template

end LiveTemplate
