import LiveTemplate.Proofs.Twins
import LiveTemplate.Proofs.Validation

/-!
# What accrues under a name

Attributes and listeners accrue under their names, and so do the properties of
a style map.  Such lists are determined by their names in order and by what is
under each.  Adding things to a list one by one, or collecting them in a list
of their own and adding that, comes to the same: for style maps up to how the
maps are cut into chunks, which makes no difference when they are folded.
-/

namespace LiveTemplate

variable {β γ : Type}

/-- What there is under a name. -/
def itemsOf (name : String) (entries : List (String × List β)) : List β :=
  (entries.lookup name).getD []

/-- Append everything under its name. -/
def appendEntries (added entries : List (String × List β)) :
    List (String × List β) :=
  added.foldl (fun entries (name, items) => appendEntry name items entries)
    entries

@[simp] theorem itemsOf_nil (name : String) :
    itemsOf name ([] : List (String × List β)) = [] := rfl

theorem itemsOf_cons (name other : String) (items : List β)
    (rest : List (String × List β)) :
    itemsOf name ((other, items) :: rest) =
      if name = other then items else itemsOf name rest := by
  unfold itemsOf
  rw [List.lookup_cons]
  by_cases same : name = other
  · simp [same]
  · simp [same, beq_eq_false_iff_ne.mpr same]

private theorem itemsOf_of_not_mem {name : String}
    {entries : List (String × List β)}
    (absent : name ∉ entries.map (·.1)) : itemsOf name entries = [] := by
  induction entries with
  | nil => rfl
  | cons entry rest ih =>
      rw [List.map_cons, List.mem_cons, not_or] at absent
      rw [itemsOf_cons, if_neg absent.1, ih absent.2]

theorem itemsOf_updateEntry (name key : String) (change : List β → List β)
    (entries : List (String × List β)) :
    itemsOf name (updateEntry key change entries) =
      if name = key then change (itemsOf key entries)
      else itemsOf name entries := by
  induction entries with
  | nil => rw [updateEntry, itemsOf_cons]; rfl
  | cons entry rest ih =>
      obtain ⟨other, items⟩ := entry
      unfold updateEntry
      by_cases here : other = key
      · rw [if_pos (by simp [here]), itemsOf_cons, itemsOf_cons, here,
          itemsOf_cons, if_pos rfl]
        split <;> rfl
      · rw [if_neg (by simp [here]), itemsOf_cons, itemsOf_cons, ih,
          itemsOf_cons, if_neg (Ne.symm here)]
        by_cases same : name = other
        · rw [if_pos same, if_neg (same ▸ here), if_pos same]
        · rw [if_neg same, if_neg same]

theorem itemsOf_appendEntry (name key : String) (added : List β)
    (entries : List (String × List β)) :
    itemsOf name (appendEntry key added entries) =
      if name = key then itemsOf key entries ++ added
      else itemsOf name entries :=
  itemsOf_updateEntry name key _ entries

theorem keys_appendEntry (key : String) (added : List β)
    (entries : List (String × List β)) :
    (appendEntry key added entries).map (·.1) =
      if key ∈ entries.map (·.1) then entries.map (·.1)
      else entries.map (·.1) ++ [key] :=
  keys_updateEntry key _ entries

theorem nodup_updateEntry (key : String) (change : List β → List β)
    {entries : List (String × List β)} (named : (entries.map (·.1)).Nodup) :
    ((updateEntry key change entries).map (·.1)).Nodup := by
  have appended := nodup_appendEntry key ([] : List β) named
  rwa [keys_appendEntry, ← keys_updateEntry key change] at appended

/-- What is added under a name comes after what was there. -/
theorem itemsOf_appendEntries (name : String)
    {added : List (String × List β)} (named : (added.map (·.1)).Nodup)
    (entries : List (String × List β)) :
    itemsOf name (appendEntries added entries) =
      itemsOf name entries ++ itemsOf name added := by
  induction added generalizing entries with
  | nil => simp [appendEntries]
  | cons entry rest ih =>
      obtain ⟨key, items⟩ := entry
      rw [List.map_cons, List.nodup_cons] at named
      have stepwise : appendEntries ((key, items) :: rest) entries =
          appendEntries rest (appendEntry key items entries) := rfl
      rw [stepwise, ih named.2, itemsOf_appendEntry, itemsOf_cons]
      by_cases same : name = key
      · rw [if_pos same, if_pos same, same, itemsOf_of_not_mem named.1,
          List.append_nil]
      · rw [if_neg same, if_neg same]

/-- New names come after those that were there. -/
theorem keys_appendEntries {added : List (String × List β)}
    (named : (added.map (·.1)).Nodup) (entries : List (String × List β)) :
    (appendEntries added entries).map (·.1) = entries.map (·.1) ++
      (added.map (·.1)).filter fun name => name ∉ entries.map (·.1) := by
  induction added generalizing entries with
  | nil => simp [appendEntries]
  | cons entry rest ih =>
      obtain ⟨key, items⟩ := entry
      rw [List.map_cons, List.nodup_cons] at named
      have stepwise : appendEntries ((key, items) :: rest) entries =
          appendEntries rest (appendEntry key items entries) := rfl
      rw [stepwise, ih named.2, keys_appendEntry, List.map_cons,
        List.filter_cons]
      by_cases present : key ∈ entries.map (·.1)
      · rw [if_pos present, if_neg (by simpa using present)]
      · rw [if_neg present, if_pos (by simpa using present),
          List.append_assoc, List.singleton_append]
        congr 2
        refine List.filter_congr fun name member => ?_
        have other : name ≠ key := fun same => named.1 (same ▸ member)
        simp [other]

theorem nodup_appendEntries (added : List (String × List β))
    {entries : List (String × List β)} (named : (entries.map (·.1)).Nodup) :
    ((appendEntries added entries).map (·.1)).Nodup :=
  nodup_foldl_appendEntry added entries named

/-- The names after a change are the same, whether what is added is changed or
what it was added to. -/
theorem keys_appendEntries_updateEntry (key : String)
    (change other : List β → List β) {added : List (String × List β)}
    (named : (added.map (·.1)).Nodup) (entries : List (String × List β)) :
    (appendEntries (updateEntry key change added) entries).map (·.1) =
      (updateEntry key other (appendEntries added entries)).map (·.1) := by
  rw [keys_appendEntries (nodup_updateEntry key change named), keys_updateEntry,
    keys_updateEntry, keys_appendEntries named]
  by_cases inside : key ∈ added.map (·.1)
  · rw [if_pos inside, if_pos]
    by_cases old : key ∈ entries.map (·.1)
    · exact List.mem_append_left _ old
    · exact List.mem_append_right _
        (List.mem_filter.mpr ⟨inside, by simpa using old⟩)
  · rw [if_neg inside, List.filter_append, ← List.append_assoc]
    by_cases old : key ∈ entries.map (·.1)
    · rw [if_pos (List.mem_append_left _ old)]
      simpa using List.mem_map.mp old
    · rw [if_neg]
      · simpa using old
      · rw [List.mem_append, List.mem_filter]
        exact fun member => member.elim old fun new => inside new.1

/-- Lists with the same names correspond entry by entry when what is under each
name does. -/
theorem forall₂_of_items {relation : String → List β → List β → Prop}
    {entries others : List (String × List β)}
    (named : (entries.map (·.1)).Nodup)
    (keys : entries.map (·.1) = others.map (·.1))
    (items : ∀ name ∈ entries.map (·.1),
      relation name (itemsOf name entries) (itemsOf name others)) :
    List.Forall₂ (fun entry other => entry.1 = other.1 ∧
      relation entry.1 entry.2 other.2) entries others := by
  induction entries generalizing others with
  | nil =>
      cases others with
      | nil => exact .nil
      | cons => cases keys
  | cons entry rest ih =>
      cases others with
      | nil => cases keys
      | cons other others =>
          obtain ⟨name, mine⟩ := entry
          obtain ⟨same, theirs⟩ := other
          simp only [List.map_cons, List.cons.injEq] at keys
          obtain ⟨rfl, keys⟩ := keys
          rw [List.map_cons, List.nodup_cons] at named
          refine .cons ⟨rfl, ?_⟩ (ih named.2 keys fun other member => ?_)
          · have head := items name (.head _)
            rwa [itemsOf_cons, if_pos rfl, itemsOf_cons, if_pos rfl] at head
          · have differs : other ≠ name := fun same => named.1 (same ▸ member)
            have tail := items other (.tail _ member)
            rwa [itemsOf_cons, if_neg differs, itemsOf_cons,
              if_neg differs] at tail

theorem eq_of_items {entries others : List (String × List β)}
    (named : (entries.map (·.1)).Nodup)
    (keys : entries.map (·.1) = others.map (·.1))
    (items : ∀ name, itemsOf name entries = itemsOf name others) :
    entries = others := by
  have paired := forall₂_of_items named keys fun name _ => items name
  exact List.forall₂_eq_eq_eq ▸ paired.imp fun _ _ same =>
    Prod.ext same.1 same.2

theorem appendEntries_appendEntry (key : String) (items : List β)
    {added entries : List (String × List β)} (named : (added.map (·.1)).Nodup)
    (base : (entries.map (·.1)).Nodup) :
    appendEntries (appendEntry key items added) entries =
      appendEntry key items (appendEntries added entries) := by
  refine eq_of_items (nodup_appendEntries _ base)
    (keys_appendEntries_updateEntry key _ _ named entries) fun name => ?_
  rw [itemsOf_appendEntries name (nodup_appendEntry key items named),
    itemsOf_appendEntry, itemsOf_appendEntry, itemsOf_appendEntries name named,
    itemsOf_appendEntries key named]
  by_cases same : name = key
  · rw [if_pos same, if_pos same, same, List.append_assoc]
  · rw [if_neg same, if_neg same]

/-- Every style map among the chunks names each property once. -/
def Schema.NamesOnce (schema : Schema) : Prop :=
  ∀ properties, .styles properties ∈ schema → (properties.map (·.1)).Nodup

theorem Schema.NamesOnce.append {schema added : Schema}
    (once : schema.NamesOnce) (more : added.NamesOnce) :
    NamesOnce (schema ++ added) := by
  intro properties member
  exact (List.mem_append.mp member).elim (once properties) (more properties)

/-- How a schema ends: with a style map, or with another chunk, or not at
all. -/
theorem Parts.addStyle_cases (property : String) (schema : Schema)
    (chunks : List Chunk) :
    (∃ before properties, chunks = before ++ [.styles properties] ∧
      addStyle property schema chunks =
        before ++ [.styles (appendEntry property schema properties)]) ∨
    addStyle property schema chunks =
      chunks ++ [.styles [(property, schema)]] := by
  unfold addStyle
  split
  · rename_i properties last
    obtain ⟨before, rfl⟩ := List.getLast?_eq_some_iff.mp last
    exact .inl ⟨before, properties, rfl, by rw [List.dropLast_concat]⟩
  · exact .inr rfl

theorem Schema.NamesOnce.addStyle {chunks : Schema} (once : chunks.NamesOnce)
    (property : String) (schema : Schema) :
    NamesOnce (Parts.addStyle property schema chunks) := by
  rcases Parts.addStyle_cases property schema chunks with
    ⟨before, properties, rfl, added⟩ | added
  · rw [added]
    intro others member
    rcases List.mem_append.mp member with inside | last
    · exact once others (List.mem_append_left _ inside)
    · cases List.mem_singleton.mp last
      exact nodup_appendEntry property schema (once properties (by simp))
  · rw [added]
    refine once.append fun others member => ?_
    cases List.mem_singleton.mp member
    simp

theorem any_isStyles_addStyle (property : String) (schema : Schema)
    (chunks : List Chunk) :
    (Parts.addStyle property schema chunks).any Chunk.isStyles = true := by
  rcases Parts.addStyle_cases property schema chunks with
    ⟨_, _, _, added⟩ | added <;> simp [added, Chunk.isStyles]

theorem nodup_empty : ((([] : StyleMap)).map (·.1)).Nodup :=
  List.nodup_nil

theorem nodup_foldStyle {schema : Schema} {map later : StyleMap}
    (named : (map.map (·.1)).Nodup)
    (folded : schema.foldlM foldStyle map = .ok later) :
    (later.map (·.1)).Nodup := by
  induction schema generalizing map with
  | nil =>
      cases folded
      exact named
  | cons chunk rest ih =>
      rw [List.foldlM_cons, Except.bind_eq_ok_iff] at folded
      obtain ⟨between, first, second⟩ := folded
      refine ih ?_ second
      cases chunk with
      | styles properties =>
          cases first
          exact nodup_appendEntries properties named
      | fixed value =>
          rw [foldStyle] at first
          split at first <;> cases first
          · exact named
          · have folded (declared : List (String × String)) (map : StyleMap)
                (named : (map.map (·.1)).Nodup) :
                ((declared.foldl (fun map entry =>
                  appendEntry entry.1 [.fixed (.text entry.2)] map) map).map
                    (·.1)).Nodup := by
              induction declared generalizing map with
              | nil => exact named
              | cons entry rest ih => exact ih _ (nodup_appendEntry _ _ named)
            exact folded _ map named
      | bound binding => cases first
      | namespaced namespaceName chunks => cases first

theorem foldlM_addStyle {chunks : Schema} (once : chunks.NamesOnce)
    (property : String) (schema : Schema) {map : StyleMap}
    (named : (map.map (·.1)).Nodup) :
    (Parts.addStyle property schema chunks).foldlM foldStyle map =
      (chunks.foldlM foldStyle map).map (appendEntry property schema) := by
  rcases Parts.addStyle_cases property schema chunks with
    ⟨before, properties, rfl, added⟩ | added
  · rw [added, List.foldlM_append, List.foldlM_append]
    cases folded : before.foldlM foldStyle map with
    | error fault => rfl
    | ok between =>
        have later := nodup_foldStyle named folded
        have last := once properties (by simp)
        exact congrArg Except.ok
          (appendEntries_appendEntry property schema last later)
  · rw [added, List.foldlM_append]
    cases chunks.foldlM foldStyle map <;> rfl

/-- Two schemas for style maps that fold to the same map, or to the same fault,
and are the same without a map. -/
structure Schema.Folds (one other : Schema) : Prop where
  fold : one.foldlM foldStyle [] = other.foldlM foldStyle []
  mapped : one.any Chunk.isStyles = other.any Chunk.isStyles
  plain : one.any Chunk.isStyles = false → one = other

namespace Schema.Folds

variable {one other : Schema}

theorem refl (schema : Schema) : Folds schema schema := by
  exact ⟨rfl, rfl, fun _ => rfl⟩

theorem append (folds : Folds one other) (added : Schema) :
    Folds (one ++ added) (other ++ added) where
  fold := by rw [List.foldlM_append, List.foldlM_append, folds.fold]
  mapped := by rw [List.any_append, List.any_append, folds.mapped]
  plain none := by
    rw [List.any_append, Bool.or_eq_false_iff] at none
    rw [folds.plain none.1]

/-- A further property may be added to what was appended, or to all. -/
theorem addStyle {base added : Schema} (folds : Folds (base ++ added) other)
    (once : added.NamesOnce) (onceToo : other.NamesOnce) (property : String)
    (schema : Schema) :
    Folds (base ++ Parts.addStyle property schema added)
      (Parts.addStyle property schema other) where
  fold := by
    rw [foldlM_addStyle onceToo property schema nodup_empty, ← folds.fold,
      List.foldlM_append, List.foldlM_append]
    cases folded : base.foldlM foldStyle [] with
    | error fault => rfl
    | ok between =>
        exact foldlM_addStyle once property schema
          (nodup_foldStyle nodup_empty folded)
  mapped := by
    rw [List.any_append, any_isStyles_addStyle, any_isStyles_addStyle,
      Bool.or_true]
  plain none := by
    rw [List.any_append, any_isStyles_addStyle, Bool.or_true] at none
    cases none

/-- A style is rendered by its map if it has one. -/
theorem alike (folds : Folds one other) : Alike "style" one other := by
  constructor
  · unfold entryStyles? styleMap?
    rw [folds.fold, folds.mapped]
  · intro none
    unfold entryStyles? styleMap? at none
    refine folds.plain (Bool.eq_false_iff.mpr fun mapped => ?_)
    simp [mapped] at none

end Schema.Folds

/-- A call of the builder that adds to what there is under a name. -/
inductive Addition where
  | attr (name : String) (schema : Schema)
  | attrNs (namespaceName name : String) (schema : Schema)
  | style (property : String) (schema : Schema)
  | on (key : String) (binding : ListenerBinding)

namespace Addition

/-- Add to a definition. -/
def apply (parts : Parts γ) : Addition → Parts γ
  | attr name schema => parts.attr name schema
  | attrNs namespaceName name schema =>
      parts.attrNs namespaceName name schema
  | style property schema => parts.style property schema
  | on key binding => parts.on key binding

/-- A style map that is passed whole names each property once. -/
def IsTidy : Addition → Prop
  | attr _ schema => schema.NamesOnce
  | _ => True

end Addition

/-- Names occur once: those of attributes, of events, and of properties in
style maps. -/
structure Parts.IsTidy (parts : Parts γ) : Prop where
  attributes : (parts.attributes.map (·.1)).Nodup
  listeners : (parts.listeners.map (·.1)).Nodup
  schemas : ∀ name, Schema.NamesOnce (itemsOf name parts.attributes)

theorem Parts.IsTidy.of_empty {parts : Parts γ}
    (attributes : parts.attributes = []) (listeners : parts.listeners = []) :
    parts.IsTidy := by
  constructor
  · rw [attributes]
    exact List.nodup_nil
  · rw [listeners]
    exact List.nodup_nil
  · rw [attributes]
    exact fun _ _ member => nomatch member

/-- Chunks with a namespace are no style maps. -/
theorem Schema.NamesOnce.namespaced (namespaceName : String)
    (schema : Schema) : NamesOnce [.namespaced namespaceName schema] := by
  intro properties member
  cases List.mem_singleton.mp member

namespace Parts.IsTidy

variable {parts : Parts γ}

theorem attr (tidy : parts.IsTidy) {name : String} {schema : Schema}
    (once : schema.NamesOnce) : (parts.attr name schema).IsTidy := by
  refine ⟨nodup_appendEntry name schema tidy.attributes, tidy.listeners,
    fun other => ?_⟩
  change Schema.NamesOnce (itemsOf other (appendEntry name schema _))
  rw [itemsOf_appendEntry]
  split
  · exact (tidy.schemas name).append once
  · exact tidy.schemas other

theorem style (tidy : parts.IsTidy) (property : String) (schema : Schema) :
    (parts.style property schema).IsTidy := by
  refine ⟨nodup_updateEntry _ _ tidy.attributes, tidy.listeners,
    fun other => ?_⟩
  change Schema.NamesOnce (itemsOf other (updateEntry "style" _ _))
  rw [itemsOf_updateEntry]
  split
  · exact (tidy.schemas "style").addStyle property schema
  · exact tidy.schemas other

theorem on (tidy : parts.IsTidy) (key : String) (binding : ListenerBinding) :
    (parts.on key binding).IsTidy := by
  exact ⟨tidy.attributes, nodup_appendEntry key [binding] tidy.listeners,
    tidy.schemas⟩

/-- What the builder makes of a tidy definition is tidy. -/
theorem apply (tidy : parts.IsTidy) {addition : Addition}
    (added : addition.IsTidy) : (addition.apply parts).IsTidy := by
  cases addition with
  | attr name schema => exact tidy.attr added
  | attrNs namespaceName name schema =>
      exact tidy.attr (.namespaced namespaceName schema)
  | style property schema => exact tidy.style property schema
  | on key binding => exact tidy.on key binding

theorem foldl (tidy : parts.IsTidy) {additions : List Addition}
    (added : ∀ addition ∈ additions, addition.IsTidy) :
    (additions.foldl Addition.apply parts).IsTidy := by
  induction additions generalizing parts with
  | nil => exact tidy
  | cons addition rest ih =>
      exact ih (tidy.apply (added addition (.head _)))
        fun other member => added other (.tail _ member)

end Parts.IsTidy

/-- One definition has what accrued to another, which was collected apart. -/
structure Parts.Accrues {δ : Type} (base : Parts γ) (apart : Parts δ)
    (whole : Parts γ) : Prop where
  tag : whole.tag = base.tag
  namespaceName : whole.namespaceName = base.namespaceName
  text : whole.text = base.text
  children : whole.children = base.children
  apartTidy : apart.IsTidy
  wholeTidy : whole.IsTidy
  keys : (appendEntries apart.attributes base.attributes).map (·.1) =
    whole.attributes.map (·.1)
  plain : ∀ name, name ≠ "style" →
    itemsOf name base.attributes ++ itemsOf name apart.attributes =
      itemsOf name whole.attributes
  style : Schema.Folds
    (itemsOf "style" base.attributes ++ itemsOf "style" apart.attributes)
    (itemsOf "style" whole.attributes)
  listeners : appendEntries apart.listeners base.listeners = whole.listeners

namespace Parts.Accrues

variable {δ : Type} {base whole : Parts γ} {apart : Parts δ}

theorem start (tidy : base.IsTidy) {apart : Parts δ}
    (attributes : apart.attributes = []) (listeners : apart.listeners = []) :
    Accrues base apart base where
  tag := rfl
  namespaceName := rfl
  text := rfl
  children := rfl
  apartTidy := .of_empty attributes listeners
  wholeTidy := tidy
  keys := by rw [attributes]; rfl
  plain name _ := by rw [attributes, itemsOf_nil, List.append_nil]
  style := by
    rw [attributes, itemsOf_nil, List.append_nil]
    exact .refl _
  listeners := by rw [listeners]; rfl

/-- What is done under a name to both leaves their names in step. -/
theorem keys_update (accrues : Accrues base apart whole) (key : String)
    (change other : List Chunk → List Chunk) :
    (appendEntries (updateEntry key change apart.attributes)
      base.attributes).map (·.1) =
        (updateEntry key other whole.attributes).map (·.1) := by
  rw [keys_appendEntries_updateEntry key change other
    accrues.apartTidy.attributes, keys_updateEntry, keys_updateEntry,
    accrues.keys]

/-- An attribute is added to both. -/
theorem attr (accrues : Accrues base apart whole) {name : String}
    {schema : Schema} (once : schema.NamesOnce) :
    Accrues base (apart.attr name schema) (whole.attr name schema) where
  tag := accrues.tag
  namespaceName := accrues.namespaceName
  text := accrues.text
  children := accrues.children
  apartTidy := accrues.apartTidy.attr once
  wholeTidy := accrues.wholeTidy.attr once
  keys := accrues.keys_update name _ _
  plain other plain := by
    change _ ++ itemsOf other (appendEntry name schema apart.attributes) =
      itemsOf other (appendEntry name schema whole.attributes)
    have before := accrues.plain other plain
    rw [itemsOf_appendEntry, itemsOf_appendEntry]
    split
    · rename_i same
      rw [← same, ← List.append_assoc, before]
    · exact before
  style := by
    change Schema.Folds
      (_ ++ itemsOf "style" (appendEntry name schema apart.attributes))
      (itemsOf "style" (appendEntry name schema whole.attributes))
    rw [itemsOf_appendEntry, itemsOf_appendEntry]
    split
    · rename_i same
      rw [← same, ← List.append_assoc]
      exact accrues.style.append schema
    · exact accrues.style
  listeners := accrues.listeners

theorem addStyle (accrues : Accrues base apart whole) (property : String)
    (schema : Schema) :
    Accrues base (apart.style property schema)
      (whole.style property schema) where
  tag := accrues.tag
  namespaceName := accrues.namespaceName
  text := accrues.text
  children := accrues.children
  apartTidy := accrues.apartTidy.style property schema
  wholeTidy := accrues.wholeTidy.style property schema
  keys := accrues.keys_update "style" _ _
  plain other plain := by
    change _ ++ itemsOf other (updateEntry "style" _ apart.attributes) =
      itemsOf other (updateEntry "style" _ whole.attributes)
    rw [itemsOf_updateEntry, itemsOf_updateEntry, if_neg plain, if_neg plain]
    exact accrues.plain other plain
  style := by
    change Schema.Folds
      (_ ++ itemsOf "style" (updateEntry "style" _ apart.attributes))
      (itemsOf "style" (updateEntry "style" _ whole.attributes))
    rw [itemsOf_updateEntry, itemsOf_updateEntry, if_pos rfl, if_pos rfl]
    exact accrues.style.addStyle (accrues.apartTidy.schemas "style")
      (accrues.wholeTidy.schemas "style") property schema
  listeners := accrues.listeners

/-- A listener is added to both. -/
theorem on (accrues : Accrues base apart whole) (tidy : base.IsTidy)
    (key : String) (binding : ListenerBinding) :
    Accrues base (apart.on key binding) (whole.on key binding) where
  tag := accrues.tag
  namespaceName := accrues.namespaceName
  text := accrues.text
  children := accrues.children
  apartTidy := accrues.apartTidy.on key binding
  wholeTidy := accrues.wholeTidy.on key binding
  keys := accrues.keys
  plain := accrues.plain
  style := accrues.style
  listeners := by
    rw [Parts.on, Parts.on, ← accrues.listeners]
    exact appendEntries_appendEntry key [binding] accrues.apartTidy.listeners
      tidy.listeners

theorem apply (accrues : Accrues base apart whole) (tidy : base.IsTidy)
    {addition : Addition} (added : addition.IsTidy) :
    Accrues base (addition.apply apart) (addition.apply whole) := by
  cases addition with
  | attr name schema => exact accrues.attr added
  | attrNs namespaceName name schema =>
      exact accrues.attr (Schema.NamesOnce.namespaced namespaceName schema)
  | style property schema => exact accrues.addStyle property schema
  | on key binding => exact accrues.on tidy key binding

/-- Whatever the builder is called for, in whatever order. -/
theorem foldl (accrues : Accrues base apart whole) (tidy : base.IsTidy)
    {additions : List Addition} (added : ∀ addition ∈ additions,
      addition.IsTidy) :
    Accrues base (additions.foldl Addition.apply apart)
      (additions.foldl Addition.apply whole) := by
  induction additions generalizing apart whole with
  | nil => exact accrues
  | cons addition rest ih =>
      exact ih (accrues.apply tidy (added addition (.head _)))
        fun other member => added other (.tail _ member)

/-- Attributes that accrued are rendered as if they had been there from the
beginning. -/
theorem attributes (accrues : Accrues base apart whole) (tidy : base.IsTidy) :
    List.Forall₂ (fun entry twin : String × Schema =>
      entry.1 = twin.1 ∧ Schema.Alike entry.1 entry.2 twin.2)
      (appendEntries apart.attributes base.attributes) whole.attributes := by
  refine forall₂_of_items (nodup_appendEntries _ tidy.attributes) accrues.keys
    fun name _ => ?_
  rw [itemsOf_appendEntries name accrues.apartTidy.attributes]
  by_cases style : name = "style"
  · rw [style]
    exact accrues.style.alike
  · rw [accrues.plain name style]
    exact .refl name _

end Parts.Accrues

end LiveTemplate
