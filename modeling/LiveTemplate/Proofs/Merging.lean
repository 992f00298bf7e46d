import LiveTemplate.Proofs.Accrual
import LiveTemplate.Proofs.Layout
import LiveTemplate.Proofs.Runs

/-!
# Extending is all or nothing

An extension is checked against the templates that stand at its places before
anything is merged.  It is refused exactly if it does not line up with them, and
then no template changes.  Otherwise what it has at each place is merged once
into the template that stands there, from the root on and in the order of the
places, and into nothing else.

One template may stand at several places.  The templates inside the extension
stay as they were if none of them is nested in what is extended.
-/

namespace LiveTemplate

variable {σ β γ : Type}

/-- What a list by name has become after entries were added to it. -/
structure Gained (old added later : List (String × List β)) : Prop where
  kept : ∀ (place : Nat) (name : String) (items : List β),
    old[place]? = some (name, items) →
      ∃ more, later[place]? = some (name, items ++ more)
  names : ∃ fresh : List String,
    later.map (·.1) = old.map (·.1) ++ fresh ∧ fresh.Nodup ∧
      ∀ name, name ∈ fresh ↔ name ∈ added.map (·.1) ∧ name ∉ old.map (·.1)
  items : ∀ name, itemsOf name later =
    itemsOf name old ++ (added.filter (·.1 = name)).flatMap (·.2)

namespace Gained

variable {old added between more later : List (String × List β)}

theorem refl (entries : List (String × List β)) :
    Gained entries [] entries where
  kept _ _ items found := ⟨[], by rw [found, List.append_nil]⟩
  names := ⟨[], by simp⟩
  items name := by simp

theorem trans (first : Gained old added between)
    (second : Gained between more later) :
    Gained old (added ++ more) later where
  kept place name items found := by
    obtain ⟨early, found⟩ := first.kept place name items found
    obtain ⟨late, found⟩ := second.kept place name _ found
    exact ⟨early ++ late, by rw [found, List.append_assoc]⟩
  names := by
    obtain ⟨early, keys, once, fresh⟩ := first.names
    obtain ⟨late, keysToo, onceToo, freshToo⟩ := second.names
    rw [keys] at freshToo
    refine ⟨early ++ late, by rw [keysToo, keys, List.append_assoc], ?_,
      fun name => ?_⟩
    · refine List.nodup_append.mpr ⟨once, onceToo, ?_⟩
      rintro name new _ newer rfl
      exact ((freshToo name).mp newer).2 (List.mem_append_right _ new)
    · have := fresh name
      have := freshToo name
      simp only [List.mem_append, List.map_append] at *
      tauto
  items name := by
    rw [second.items, first.items, List.filter_append, List.flatMap_append,
      List.append_assoc]

theorem appendEntry (name : String) (items : List β)
    (entries : List (String × List β)) :
    Gained entries [(name, items)]
      (LiveTemplate.appendEntry name items entries) where
  kept place other former found := by
    unfold LiveTemplate.appendEntry
    induction entries generalizing place with
    | nil => simp at found
    | cons entry rest ih =>
        obtain ⟨key, list⟩ := entry
        rw [updateEntry]
        split
        · cases place with
          | zero =>
              cases found
              exact ⟨items, rfl⟩
          | succ place => exact ⟨[], by simpa using found⟩
        · cases place with
          | zero => exact ⟨[], by simpa using found⟩
          | succ place => exact ih place found
  names := by
    rw [keys_appendEntry]
    by_cases present : name ∈ entries.map (·.1)
    · refine ⟨[], by rw [if_pos present, List.append_nil], .nil,
        fun other => ?_⟩
      simp only [List.not_mem_nil, List.map_cons, List.map_nil,
        List.mem_singleton, false_iff]
      rintro ⟨rfl, absent⟩
      exact absent present
    · refine ⟨[name], by rw [if_neg present], by simp, fun other => ?_⟩
      simp only [List.mem_singleton, List.map_cons, List.map_nil]
      constructor
      · rintro rfl
        exact ⟨rfl, present⟩
      · exact And.left
  items other := by
    rw [itemsOf_appendEntry]
    by_cases same : other = name
    · simp [same]
    · simp [same, Ne.symm same]

theorem appendEntries (added entries : List (String × List β)) :
    Gained entries added (LiveTemplate.appendEntries added entries) := by
  induction added generalizing entries with
  | nil => exact .refl entries
  | cons entry rest ih =>
      exact (appendEntry entry.1 entry.2 entries).trans (ih _)

end Gained

/-- What a definition has become after others were merged into it: each schema
and each list of listeners has grown at its end, by what the others have under
its name. -/
structure Parts.Gains (old : Parts γ) (added : List (Parts γ))
    (later : Parts γ) : Prop where
  tag : later.tag = old.tag
  namespaceName : later.namespaceName = old.namespaceName
  children : later.children = old.children
  chunks : later.text.getD [] =
    old.text.getD [] ++ added.flatMap fun parts => parts.text.getD []
  hasText : later.text.isSome =
    (old.text.isSome || added.any fun parts => parts.text.isSome)
  attributes : Gained old.attributes (added.flatMap Parts.attributes)
    later.attributes
  listeners : Gained old.listeners (added.flatMap Parts.listeners)
    later.listeners

namespace Parts.Gains

variable {old between later : Parts γ} {added more : List (Parts γ)}

theorem refl (parts : Parts γ) : parts.Gains [] parts := by
  exact ⟨rfl, rfl, rfl, by simp, by simp, .refl _, .refl _⟩

theorem trans (first : old.Gains added between)
    (second : between.Gains more later) : old.Gains (added ++ more) later where
  tag := second.tag.trans first.tag
  namespaceName := second.namespaceName.trans first.namespaceName
  children := second.children.trans first.children
  chunks := by
    rw [second.chunks, first.chunks, List.flatMap_append, List.append_assoc]
  hasText := by
    rw [second.hasText, first.hasText, List.any_append, Bool.or_assoc]
  attributes := by
    rw [List.flatMap_append]
    exact first.attributes.trans second.attributes
  listeners := by
    rw [List.flatMap_append]
    exact first.listeners.trans second.listeners

theorem merge (parts extension : Parts γ) :
    parts.Gains [extension] (parts.merge extension) where
  tag := rfl
  namespaceName := rfl
  children := rfl
  chunks := by
    cases found : extension.text <;> simp [Parts.merge, found]
  hasText := by
    cases found : extension.text <;> simp [Parts.merge, found]
  attributes := by
    rw [List.flatMap_singleton]
    exact .appendEntries extension.attributes parts.attributes
  listeners := by
    rw [List.flatMap_singleton]
    exact .appendEntries extension.listeners parts.listeners

theorem foldl_merge (parts : Parts γ) (added : List (Parts γ)) :
    parts.Gains added (added.foldl Parts.merge parts) := by
  induction added generalizing parts with
  | nil => exact .refl parts
  | cons extension rest ih => exact (merge parts extension).trans (ih _)

end Parts.Gains

/-- The template that stands at a place among the children. -/
def Blueprint.nestedAt? (blueprint : Blueprint) (place : Nat) :
    Option TemplateId :=
  blueprint.children[place]?.bind Member.template?

namespace World

/-- The template that a path of places leads to from another one. -/
def templateAt? (world : World σ) : TemplateId → List Nat → Option TemplateId
  | t, [] => some t
  | t, place :: path =>
      ((world.template t).blueprint.nestedAt? place).bind fun nested =>
        world.templateAt? nested path

/-- The blueprint that a path of places leads to from another one. -/
def blueprintAt? (world : World σ) : Blueprint → List Nat → Option Blueprint
  | blueprint, [] => some blueprint
  | blueprint, place :: path =>
      (blueprint.nestedAt? place).bind fun nested =>
        world.blueprintAt? (world.template nested).blueprint path

/-- A template is nested in a blueprint, at any depth. -/
def IsInside (world : World σ) (blueprint : Blueprint) (inner : TemplateId) :
    Prop :=
  ∃ t, .template t ∈ blueprint.children ∧
    ∃ path, world.templateAt? t path = some inner

end World

/-- Two blueprints have as many children, all of them templates. -/
structure Blueprint.Pairs (blueprint extension : Blueprint) : Prop where
  length : blueprint.children.length = extension.children.length
  templates : ∀ member ∈ blueprint.children ++ extension.children,
    ∃ t, member = .template t

/-- Wherever an extension has a blueprint there stands a template, which has
not been rendered, and the blueprint is without children or they pair with those
of the template. -/
def World.Accepts (world : World σ) (t : TemplateId) (extension : Blueprint) :
    Prop :=
  ∀ path added, world.blueprintAt? extension path = some added →
    ∃ nested, world.templateAt? t path = some nested ∧
      (world.template nested).rendered = false ∧
      (added.children = [] ∨ (world.template nested).blueprint.Pairs added)

/-- What an extension merges into the template at a place. -/
structure Merger where
  path : List Nat
  template : TemplateId
  added : Blueprint

/-- A merger one place further down. -/
def Merger.under (place : Nat) (merger : Merger) : Merger :=
  { merger with path := place :: merger.path }

/-- The mergers in order, one for each place that an extension has. -/
structure World.IsMergedBy (world : World σ) (t : TemplateId)
    (extension : Blueprint) (mergers : List Merger) : Prop where
  complete : ∀ path nested added, ⟨path, nested, added⟩ ∈ mergers ↔
    world.templateAt? t path = some nested ∧
      world.blueprintAt? extension path = some added
  ordered : mergers.Pairwise fun one other => one.path < other.path

/-- What mergers merge into a template, in order. -/
def addedTo (t : TemplateId) (mergers : List Merger) : List Blueprint :=
  (mergers.filter (·.template = t)).map (·.added)

section Places

variable {world later : World σ}

private theorem Member.template?_eq_some {member : Member} {t : TemplateId}
    (found : member.template? = some t) : member = .template t := by
  cases member <;> simp_all [Member.template?]

theorem Blueprint.nestedAt?_eq_some {blueprint : Blueprint} {place : Nat}
    {t : TemplateId} : blueprint.nestedAt? place = some t ↔
      blueprint.children[place]? = some (.template t) := by
  unfold nestedAt?
  rw [Option.bind_eq_some_iff]
  constructor
  · rintro ⟨member, found, nested⟩
    rw [found, Member.template?_eq_some nested]
  · exact fun found => ⟨_, found, rfl⟩

theorem Blueprint.mem_children_of_nestedAt? {blueprint : Blueprint}
    {place : Nat} {t : TemplateId}
    (found : blueprint.nestedAt? place = some t) :
    .template t ∈ blueprint.children :=
  List.mem_of_getElem? (nestedAt?_eq_some.mp found)

private theorem Blueprint.nestedAt?_of_mem {blueprint : Blueprint}
    {t : TemplateId}
    (member : .template t ∈ blueprint.children) :
    ∃ place, blueprint.nestedAt? place = some t := by
  obtain ⟨place, found⟩ := List.getElem?_of_mem member
  exact ⟨place, nestedAt?_eq_some.mpr found⟩

theorem templateAt?_cons (t : TemplateId) (place : Nat) (path : List Nat) :
    world.templateAt? t (place :: path) =
      ((world.template t).blueprint.nestedAt? place).bind fun nested =>
        world.templateAt? nested path := rfl

theorem blueprintAt?_cons (blueprint : Blueprint) (place : Nat)
    (path : List Nat) : world.blueprintAt? blueprint (place :: path) =
      (blueprint.nestedAt? place).bind fun nested =>
        world.blueprintAt? (world.template nested).blueprint path := rfl

/-- The templates with numbers below some limit nest older ones. -/
def World.NestsOlder (world : World σ) (limit : Nat) : Prop :=
  ∀ t : TemplateId, t.index < limit → ∀ nested,
    .template nested ∈ (world.template t).blueprint.children →
      nested.index < t.index

theorem index_templateAt?_le {limit : Nat} (older : world.NestsOlder limit)
    {t nested : TemplateId} (below : t.index < limit) {path : List Nat}
    (found : world.templateAt? t path = some nested) :
    nested.index ≤ t.index := by
  induction path generalizing t with
  | nil =>
      cases found
      exact Nat.le_refl _
  | cons place path ih =>
      rw [templateAt?_cons, Option.bind_eq_some_iff] at found
      obtain ⟨between, here, found⟩ := found
      have less := older t below between
        (Blueprint.mem_children_of_nestedAt? here)
      have := ih (Nat.lt_trans less below) found
      omega

theorem templateAt?_congr {limit : Nat} (older : world.NestsOlder limit)
    (same : ∀ t : TemplateId, t.index < limit →
      later.template t = world.template t)
    {t : TemplateId} (below : t.index < limit) (path : List Nat) :
    later.templateAt? t path = world.templateAt? t path := by
  induction path generalizing t with
  | nil => rfl
  | cons place path ih =>
      rw [templateAt?_cons, templateAt?_cons, same t below]
      refine Option.bind_congr fun nested here => ih ?_
      have less := older t below nested
        (Blueprint.mem_children_of_nestedAt? here)
      exact Nat.lt_trans less below

end Places

/-! ## The check -/

theorem accepts_iff {world : World σ} {t : TemplateId}
    {extension : Blueprint} : world.Accepts t extension ↔
      (world.template t).rendered = false ∧
      (extension.children = [] ∨
        (world.template t).blueprint.Pairs extension) ∧
      ∀ place other, extension.nestedAt? place = some other →
        ∃ nested,
          (world.template t).blueprint.nestedAt? place = some nested ∧
          world.Accepts nested (world.template other).blueprint := by
  constructor
  · intro accepts
    obtain ⟨_, here, free, pairs⟩ := accepts [] extension rfl
    cases here
    refine ⟨free, pairs, fun place other found => ?_⟩
    have along (path : List Nat) : world.blueprintAt? extension
        (place :: path) =
          world.blueprintAt? (world.template other).blueprint path := by
      rw [blueprintAt?_cons, found, Option.bind_some]
    obtain ⟨_, there, -⟩ := accepts [place] _ (along [])
    rw [templateAt?_cons] at there
    obtain ⟨nested, there, -⟩ := Option.bind_eq_some_iff.mp there
    refine ⟨nested, there, fun path added stands => ?_⟩
    have below := accepts (place :: path) added ((along path).trans stands)
    rwa [templateAt?_cons, there, Option.bind_some] at below
  · rintro ⟨free, pairs, below⟩ path added stands
    cases path with
    | nil =>
        cases stands
        exact ⟨t, rfl, free, pairs⟩
    | cons place path =>
        rw [blueprintAt?_cons, Option.bind_eq_some_iff] at stands
        obtain ⟨other, found, stands⟩ := stands
        obtain ⟨nested, there, accepts⟩ := below place other found
        rw [templateAt?_cons, there, Option.bind_some]
        exact accepts path added stands

namespace Template

private theorem checkExtendChildren_ok {mixed : TemplateError}
    {check : TemplateId → TemplateId → Except TemplateError Unit}
    {member other : Member} {rest others : List Member}
    (checked : checkExtendChildren mixed check (member :: rest)
      (other :: others) = .ok ()) :
    ∃ t added, member = .template t ∧ other = .template added ∧
      check t added = .ok () ∧
      checkExtendChildren mixed check rest others = .ok () := by
  cases member with
  | template t =>
      cases other with
      | template added =>
          rw [checkExtendChildren, Except.check_eq_ok_iff] at checked
          exact ⟨t, added, rfl, rfl, checked⟩
      | _ => cases checked
  | _ => cases checked

theorem checkExtendChildren_ok_iff {mixed : TemplateError}
    {check : TemplateId → TemplateId → Except TemplateError Unit}
    {members others : List Member} (length : members.length = others.length) :
    checkExtendChildren mixed check members others = .ok () ↔
      (∀ member ∈ members ++ others, ∃ t, member = .template t) ∧
      ∀ (place : Nat) (t added : TemplateId),
        members[place]? = some (.template t) →
        others[place]? = some (.template added) → check t added = .ok () := by
  induction members generalizing others with
  | nil =>
      cases others with
      | nil => simp [checkExtendChildren]
      | cons => cases length
  | cons member rest ih =>
      cases others with
      | nil => cases length
      | cons other others =>
          have below := ih (Nat.succ.inj length)
          constructor
          · intro checked
            obtain ⟨t, added, rfl, rfl, head, tail⟩ :=
              checkExtendChildren_ok checked
            obtain ⟨templates, each⟩ := below.mp tail
            refine ⟨fun member inside => ?_, fun place => ?_⟩
            · simp only [List.cons_append, List.mem_cons, List.mem_append]
                at inside templates
              rcases inside with rfl | mine | rfl | theirs
              · exact ⟨t, rfl⟩
              · exact templates member (.inl mine)
              · exact ⟨added, rfl⟩
              · exact templates member (.inr theirs)
            · cases place with
              | zero =>
                  rintro _ _ ⟨⟩ ⟨⟩
                  exact head
              | succ place => exact each place
          · rintro ⟨templates, each⟩
            obtain ⟨t, rfl⟩ := templates member (by simp)
            obtain ⟨added, rfl⟩ := templates other (by simp)
            rw [checkExtendChildren, Except.check_eq_ok_iff]
            refine ⟨each 0 t added rfl rfl, below.mpr
              ⟨fun member inside => templates member ?_, fun place =>
                each (place + 1)⟩⟩
            simp only [List.cons_append, List.mem_cons, List.mem_append]
              at inside ⊢
            exact .inr (inside.imp_right .inr)

private theorem checkExtendLevel_ok_iff {world : World σ}
    {check : TemplateId → TemplateId → Except TemplateError Unit}
    {t : TemplateId} {extension : Blueprint} :
    checkExtendLevel world check t extension = .ok () ↔
      (world.template t).rendered = false ∧
      (extension.children = [] ∨
        (world.template t).blueprint.Pairs extension) ∧
      ∀ place nested other,
        (world.template t).blueprint.nestedAt? place = some nested →
        extension.nestedAt? place = some other →
          check nested other = .ok () := by
  unfold checkExtendLevel
  rw [Except.refuse_eq_ok_iff, Bool.not_eq_true]
  refine and_congr_right fun _ => ?_
  cases none : extension.children with
  | nil =>
      have nowhere (place : Nat) : extension.nestedAt? place = Option.none := by
        simp [Blueprint.nestedAt?, none]
      simp [nowhere]
      rfl
  | cons member others =>
      have some : extension.children ≠ [] := by simp [none]
      rw [← none]
      simp only [some, false_or, Blueprint.nestedAt?_eq_some]
      rw [if_pos (by simp [none]), Except.refuse_eq_ok_iff, ne_eq, not_not]
      constructor
      · rintro ⟨length, checked⟩
        obtain ⟨templates, each⟩ :=
          (checkExtendChildren_ok_iff length).mp checked
        exact ⟨⟨length, templates⟩, each⟩
      · rintro ⟨pairs, each⟩
        exact ⟨pairs.length,
          (checkExtendChildren_ok_iff pairs.length).mpr ⟨pairs.templates, each⟩⟩

private theorem nestedAt?_of_pairs {blueprint extension : Blueprint}
    (pairs : extension.children = [] ∨ blueprint.Pairs extension)
    {place : Nat} {other : TemplateId}
    (found : extension.nestedAt? place = some other) :
    ∃ nested, blueprint.nestedAt? place = some nested := by
  rw [Blueprint.nestedAt?_eq_some] at found
  rcases pairs with none | pairs
  · simp [none] at found
  · obtain ⟨inside, _⟩ := List.getElem?_eq_some_iff.mp found
    have there : place < blueprint.children.length := pairs.length ▸ inside
    obtain ⟨nested, isTemplate⟩ := pairs.templates blueprint.children[place]
      (List.mem_append_left _ (List.getElem_mem there))
    refine ⟨nested, Blueprint.nestedAt?_eq_some.mpr ?_⟩
    rw [List.getElem?_eq_getElem there, isTemplate]

private theorem checkExtendWithin_ok_iff {world : World σ} {limit : Nat}
    (older : world.NestsOlder limit) {fuel : Nat} {t : TemplateId}
    (below : t.index < limit) (enough : t.index < fuel)
    {extension : Blueprint} :
    checkExtendWithin world fuel t extension = .ok () ↔
      world.Accepts t extension := by
  induction fuel generalizing t extension with
  | zero => exact absurd enough (Nat.not_lt_zero _)
  | succ fuel ih =>
      have each {place : Nat} {nested other : TemplateId}
          (mine : (world.template t).blueprint.nestedAt? place = some nested) :
          checkExtendWithin world fuel nested
            (world.template other).blueprint = .ok () ↔
          world.Accepts nested (world.template other).blueprint := by
        have less := older t below nested
          (Blueprint.mem_children_of_nestedAt? mine)
        exact ih (Nat.lt_trans less below) (by omega)
      rw [checkExtendWithin, checkExtendLevel_ok_iff, accepts_iff]
      refine and_congr_right fun _ => and_congr_right fun pairs => ?_
      constructor
      · intro checked place other theirs
        obtain ⟨nested, mine⟩ := nestedAt?_of_pairs pairs theirs
        exact ⟨nested, mine, (each mine).mp (checked place nested other mine
          theirs)⟩
      · intro accepts place nested other mine theirs
        obtain ⟨_, same, below⟩ := accepts place other theirs
        cases mine.symm.trans same
        exact (each mine).mpr below

/-- The template at a place and what there is to merge into it. -/
def pairAt? (world : World σ) (members others : List Member) (place : Nat) :
    Option (TemplateId × Blueprint) :=
  match members[place]?, others[place]? with
  | some (.template t), some (.template other) =>
      some (t, (world.template other).blueprint)
  | _, _ => none

theorem pairAt?_eq_some {world : World σ} {blueprint extension : Blueprint}
    {place : Nat} {nested : TemplateId} {added : Blueprint} :
    pairAt? world blueprint.children extension.children place =
        some (nested, added) ↔
      blueprint.nestedAt? place = some nested ∧
        ∃ other, extension.nestedAt? place = some other ∧
          (world.template other).blueprint = added := by
  simp only [Blueprint.nestedAt?_eq_some]
  unfold pairAt?
  constructor
  · intro found
    split at found
    · rename_i t other mine theirs
      cases found
      exact ⟨mine, other, theirs, rfl⟩
    · cases found
  · rintro ⟨mine, other, theirs, rfl⟩
    rw [mine, theirs]

theorem pairAt?_congr {world later : World σ} {extension : Blueprint}
    (same : ∀ place other, extension.nestedAt? place = some other →
      later.template other = world.template other) (members : List Member) :
    pairAt? later members extension.children =
      pairAt? world members extension.children := by
  funext place
  unfold pairAt?
  split
  · rename_i t other mine theirs
    rw [same place other (Blueprint.nestedAt?_eq_some.mpr theirs)]
  · rfl

private theorem extendedPairs_eq (world : World σ)
    (members others : List Member) :
    extendedPairs world members others =
      (List.range others.length).filterMap
        (pairAt? world members others) := by
  induction members generalizing others with
  | nil =>
      have nothing : pairAt? world [] others = fun _ => none := rfl
      rw [nothing, List.filterMap_none]
      cases others <;> rfl
  | cons member rest ih =>
      cases others with
      | nil => rw [extendedPairs_nil]; rfl
      | cons other others =>
          have later : pairAt? world (member :: rest) (other :: others) ∘
              Nat.succ = pairAt? world rest others := rfl
          rw [List.length_cons, List.range_succ_eq_map, List.filterMap_cons,
            List.filterMap_map, later, ← ih]
          cases member <;> cases other <;> rfl

/-- What an extension merges into a template and those nested in it, at most
`fuel` levels deep. -/
def mergersWithin (world : World σ) :
    Nat → TemplateId → Blueprint → List Merger
  | 0, _, _ => []
  | fuel + 1, t, extension =>
      ⟨[], t, extension⟩ ::
        (List.range extension.children.length).flatMap fun place =>
          match pairAt? world (world.template t).blueprint.children
              extension.children place with
          | none => []
          | some (nested, added) =>
              (mergersWithin world fuel nested added).map (.under place)

section Mergers

variable {world : World σ} {fuel : Nat} {t : TemplateId}
  {extension : Blueprint}

theorem mem_mergersWithin_succ {merger : Merger} :
    merger ∈ mergersWithin world (fuel + 1) t extension ↔
      merger = ⟨[], t, extension⟩ ∨
      ∃ place nested other below,
        (world.template t).blueprint.nestedAt? place = some nested ∧
        extension.nestedAt? place = some other ∧
        below ∈ mergersWithin world fuel nested
          (world.template other).blueprint ∧
        merger = below.under place := by
  rw [mergersWithin, List.mem_cons, List.mem_flatMap]
  refine or_congr_right ⟨?_, ?_⟩
  · rintro ⟨place, -, member⟩
    split at member
    · cases member
    · rename_i nested added found
      obtain ⟨mine, other, theirs, rfl⟩ := pairAt?_eq_some.mp found
      obtain ⟨below, inside, rfl⟩ := List.mem_map.mp member
      exact ⟨place, nested, other, below, mine, theirs, inside, rfl⟩
  · rintro ⟨place, nested, other, below, mine, theirs, inside, rfl⟩
    obtain ⟨less, _⟩ := List.getElem?_eq_some_iff.mp
      (Blueprint.nestedAt?_eq_some.mp theirs)
    refine ⟨place, List.mem_range.mpr less, ?_⟩
    rw [pairAt?_eq_some.mpr ⟨mine, other, theirs, rfl⟩]
    exact List.mem_map.mpr ⟨below, inside, rfl⟩

theorem places_of_mem_mergersWithin {merger : Merger}
    (member : merger ∈ mergersWithin world fuel t extension) :
    world.templateAt? t merger.path = some merger.template ∧
      world.blueprintAt? extension merger.path = some merger.added := by
  induction fuel generalizing t extension merger with
  | zero => cases member
  | succ fuel ih =>
      rcases mem_mergersWithin_succ.mp member with
        rfl | ⟨place, nested, other, below, mine, theirs, inside, rfl⟩
      · exact ⟨rfl, rfl⟩
      · obtain ⟨template, added⟩ := ih inside
        refine ⟨?_, ?_⟩
        · change world.templateAt? t (place :: below.path) = _
          rw [templateAt?_cons, mine]
          exact template
        · change world.blueprintAt? extension (place :: below.path) = _
          rw [blueprintAt?_cons, theirs]
          exact added

private theorem mem_mergersWithin_of_places {limit : Nat}
    (older : world.NestsOlder limit) (below : t.index < limit)
    (enough : t.index < fuel) {path : List Nat} {nested : TemplateId}
    {added : Blueprint} (template : world.templateAt? t path = some nested)
    (blueprint : world.blueprintAt? extension path = some added) :
    ⟨path, nested, added⟩ ∈ mergersWithin world fuel t extension := by
  induction fuel generalizing t extension path with
  | zero => exact absurd enough (Nat.not_lt_zero _)
  | succ fuel ih =>
      rw [mem_mergersWithin_succ]
      cases path with
      | nil =>
          cases template
          cases blueprint
          exact .inl rfl
      | cons place path =>
          rw [templateAt?_cons, Option.bind_eq_some_iff] at template
          rw [blueprintAt?_cons, Option.bind_eq_some_iff] at blueprint
          obtain ⟨inner, mine, template⟩ := template
          obtain ⟨other, theirs, blueprint⟩ := blueprint
          have less := older t below inner
            (Blueprint.mem_children_of_nestedAt? mine)
          have inside := ih (Nat.lt_trans less below) (by omega) template
            blueprint
          exact .inr ⟨place, inner, other, _, mine, theirs, inside, rfl⟩

/-- The mergers are in the order of their places. -/
theorem pairwise_mergersWithin :
    (mergersWithin world fuel t extension).Pairwise
      fun one other => one.path < other.path := by
  induction fuel generalizing t extension with
  | zero => exact .nil
  | succ fuel ih =>
      rw [mergersWithin]
      have starts (place : Nat) (merger : Merger) (member : merger ∈
          (match pairAt? world (world.template t).blueprint.children
              extension.children place with
          | none => []
          | some (nested, added) =>
              (mergersWithin world fuel nested added).map
                (Merger.under place))) :
          ∃ path, merger.path = place :: path := by
        split at member
        · cases member
        · obtain ⟨below, -, rfl⟩ := List.mem_map.mp member
          exact ⟨below.path, rfl⟩
      refine .cons (fun merger member => ?_) (List.pairwise_flatMap.mpr
        ⟨fun place _ => ?_, List.pairwise_lt_range.imp ?_⟩)
      · obtain ⟨place, -, member⟩ := List.mem_flatMap.mp member
        obtain ⟨path, same⟩ := starts place merger member
        rw [same]
        exact List.nil_lt_cons place path
      · split
        · exact .nil
        · exact ih.map _ fun one other less => List.cons_lt_cons_self.mpr less
      · intro place later less one member other memberToo
        obtain ⟨path, same⟩ := starts place one member
        obtain ⟨pathToo, sameToo⟩ := starts later other memberToo
        rw [same, sameToo]
        exact List.cons_lt_cons_iff.mpr (.inl less)

private theorem isMergedBy_mergersWithin {limit : Nat}
    (older : world.NestsOlder limit)
    (below : t.index < limit) (enough : t.index < fuel) :
    world.IsMergedBy t extension (mergersWithin world fuel t extension) where
  complete _ _ _ := ⟨places_of_mem_mergersWithin, fun places =>
    mem_mergersWithin_of_places older below enough places.1 places.2⟩
  ordered := pairwise_mergersWithin

end Mergers

/-- Merge one blueprint into one template. -/
def absorb (world : World σ) (merger : Merger) : World σ :=
  (update merger.template fun template =>
    { template with
      blueprint := template.blueprint.merge merger.added }).after world

theorem template_absorb_self (world : World σ) (merger : Merger) :
    (absorb world merger).template merger.template =
      { world.template merger.template with
        blueprint := (world.template merger.template).blueprint.merge
          merger.added } :=
  template_update _ _ world

theorem template_absorb_of_ne (world : World σ) {merger : Merger}
    {t : TemplateId} (differs : merger.template ≠ t) :
    (absorb world merger).template t = world.template t :=
  template_update_of_ne _ world differs.symm

private theorem template_foldl_absorb (mergers : List Merger) (world : World σ)
    (t : TemplateId) :
    (mergers.foldl absorb world).template t =
      { world.template t with
        blueprint := (addedTo t mergers).foldl Parts.merge
          (world.template t).blueprint } := by
  induction mergers generalizing world with
  | nil => rfl
  | cons merger rest ih =>
      rw [List.foldl_cons, ih]
      by_cases same : merger.template = t
      · rw [addedTo, addedTo, List.filter_cons_of_pos (by simpa using same),
          List.map_cons, List.foldl_cons, ← same, template_absorb_self]
      · rw [addedTo, addedTo, List.filter_cons_of_neg (by simpa using same),
          template_absorb_of_ne world same]

/-- Nothing but templates outside some others has changed, and their children
are the same. -/
structure MergesBeside (inside : TemplateId → Prop) (world later : World σ) :
    Prop where
  children : ∀ t, (later.template t).blueprint.children =
    (world.template t).blueprint.children
  aside : ∀ t, inside t → later.template t = world.template t

namespace MergesBeside

variable {inside : TemplateId → Prop} {world later : World σ}

theorem refl (world : World σ) : MergesBeside inside world world := by
  exact ⟨fun _ => rfl, fun _ _ => rfl⟩

theorem absorb (beside : MergesBeside inside world later) {merger : Merger}
    (outside : ¬inside merger.template) :
    MergesBeside inside world (Template.absorb later merger) where
  children t := by
    rw [← beside.children]
    by_cases same : merger.template = t
    · rw [← same, template_absorb_self]
      rfl
    · rw [template_absorb_of_ne later same]
  aside t isInside := by
    rw [← beside.aside t isInside]
    exact template_absorb_of_ne later fun same => outside (same ▸ isInside)

theorem foldl (beside : MergesBeside inside world later)
    {mergers : List Merger}
    (outside : ∀ merger ∈ mergers, ¬inside merger.template) :
    MergesBeside inside world (mergers.foldl Template.absorb later) := by
  induction mergers generalizing later with
  | nil => exact beside
  | cons merger rest ih =>
      rw [List.forall_mem_cons] at outside
      exact ih (beside.absorb outside.1) outside.2

end MergesBeside

private theorem after_forM_eq_foldl {α : Type} (items : List α)
    (body : α → Act σ Unit) (world : World σ) :
    (items.forM body).after world =
      items.foldl (fun world item => (body item).after world) world := by
  induction items generalizing world with
  | nil => rfl
  | cons item rest ih => exact ih _

private theorem after_mergeWithin_succ (fuel : Nat) (t : TemplateId)
    (extension : Blueprint) (world : World σ) :
    let merged := absorb world ⟨[], t, extension⟩
    (mergeWithin (fuel + 1) t extension).after world =
      (extendedPairs merged (world.template t).blueprint.children
        extension.children).foldl
          (fun later pair => (mergeWithin fuel pair.1 pair.2).after later)
          merged := by
  exact (after_mergeWithin fuel t extension world).trans
    (after_forM_eq_foldl _ _ _)

/-- Merging into the templates at some places, one after the other, given what
it comes to for each. -/
theorem foldl_merges {inside : TemplateId → Prop} {world : World σ}
    {places : List Nat} {later : World σ}
    {merge : World σ → Nat → World σ} {mergers : Nat → List Merger}
    (beside : MergesBeside inside world later)
    (outside : ∀ place, ∀ merger ∈ mergers place, ¬inside merger.template)
    (each : ∀ place later, MergesBeside inside world later →
      merge later place = (mergers place).foldl absorb later) :
    places.foldl merge later = (places.flatMap mergers).foldl absorb later := by
  induction places generalizing later with
  | nil => rfl
  | cons place rest ih =>
      rw [List.foldl_cons, List.flatMap_cons, List.foldl_append,
        each place later beside]
      exact ih (beside.foldl (outside place))

theorem isInside_of_nestedAt? {world : World σ} {extension : Blueprint}
    {place : Nat} {other : TemplateId}
    (found : extension.nestedAt? place = some other) {path : List Nat}
    {inner : TemplateId} (leads : world.templateAt? other path = some inner) :
    world.IsInside extension inner := by
  exact ⟨other, Blueprint.mem_children_of_nestedAt? found, path, leads⟩

theorem isInside_trans {world : World σ} {extension : Blueprint}
    {place : Nat} {other inner : TemplateId}
    (found : extension.nestedAt? place = some other)
    (isInside : world.IsInside (world.template other).blueprint inner) :
    world.IsInside extension inner := by
  obtain ⟨t, member, path, leads⟩ := isInside
  obtain ⟨deeper, there⟩ := Blueprint.nestedAt?_of_mem member
  have along : world.templateAt? other (deeper :: path) = some inner := by
    rw [templateAt?_cons, there]
    exact leads
  exact isInside_of_nestedAt? found along

/-- Merging an extension merges what it has at each place, as long as nothing
inside it is merged into. -/
theorem after_mergeWithin_eq {world : World σ} {inside : TemplateId → Prop}
    (fuel : Nat) {t : TemplateId} {extension : Blueprint}
    (apart : ∀ path nested, world.templateAt? t path = some nested →
      ¬inside nested)
    (held : ∀ inner, world.IsInside extension inner → inside inner)
    {later : World σ} (beside : MergesBeside inside world later) :
    (mergeWithin fuel t extension).after later =
      (mergersWithin world fuel t extension).foldl absorb later := by
  induction fuel generalizing t extension later with
  | zero => rfl
  | succ fuel ih =>
      have merged : MergesBeside inside world (absorb later
          ⟨[], t, extension⟩) := beside.absorb (apart [] t rfl)
      have unchanged (place : Nat) (other : TemplateId)
          (found : extension.nestedAt? place = some other) :
          (absorb later ⟨[], t, extension⟩).template other =
            world.template other := by
        have here : world.templateAt? other [] = some other := rfl
        exact merged.aside other (held other (isInside_of_nestedAt? found here))
      have pairs :=
        pairAt?_congr unchanged (world.template t).blueprint.children
      rw [after_mergeWithin_succ, mergersWithin, List.foldl_cons,
        extendedPairs_eq, beside.children, pairs, List.foldl_filterMap]
      refine foldl_merges merged (fun place merger member => ?_)
        fun place later beside => ?_
      · split at member
        · cases member
        · rename_i nested added found
          obtain ⟨mine, -⟩ := pairAt?_eq_some.mp found
          obtain ⟨below, inside, rfl⟩ := List.mem_map.mp member
          refine apart (place :: below.path) below.template ?_
          rw [templateAt?_cons, mine]
          exact (places_of_mem_mergersWithin inside).1
      · split
        · rename_i pair found
          rw [found]
          obtain ⟨mine, other, theirs, same⟩ := pairAt?_eq_some.mp found
          rw [List.foldl_map]
          refine ih (fun path nested leads => ?_) (fun inner isInside => ?_)
            beside
          · refine apart (place :: path) nested ?_
            rw [templateAt?_cons, mine]
            exact leads
          · rw [← same] at isInside
            exact held inner (isInside_trans theirs isInside)
        · rename_i found
          rw [found]
          rfl

end Template

mutual

/-- The templates that stand in a definition, in order. -/
def Parts.handles : Parts Child → List TemplateId
  | ⟨_, _, _, _, _, children⟩ => Child.handlesAny children

def Child.handles : Child → List TemplateId
  | .definition parts => parts.handles
  | .template t => [t]
  | .view _ => []
  | .collection _ => []
  | .node _ => []

def Child.handlesAny : List Child → List TemplateId
  | [] => []
  | child :: rest => child.handles ++ Child.handlesAny rest

end

/-- The templates that stand in a definition are there, and nothing can be
reached from one of them and from another template. -/
structure World.KeepsApart (world : World σ) (t : TemplateId)
    (definition : Definition) : Prop where
  old : ∀ handle ∈ definition.handles, handle.index < world.templates.size
  apart : ∀ handle ∈ definition.handles, ∀ path other inner,
    world.templateAt? handle path = some inner →
      world.templateAt? t other ≠ some inner

section Inside

variable {world : World σ} {inner : TemplateId}

mutual

/-- What is inside a definition was made for it or can be reached from a
template that stands in it. -/
theorem inside_laid (parts : Parts Child) {base : Nat}
    (laid : Laid world base parts)
    (isInside : world.IsInside (parts.blueprintAt base) inner) :
    base ≤ inner.index ∨ ∃ handle ∈ parts.handles, ∃ path,
      world.templateAt? handle path = some inner := by
  obtain ⟨tag, namespaceName, text, attributes, listeners, children⟩ := parts
  obtain ⟨t, member, path, leads⟩ := isInside
  rw [Laid] at laid
  rw [Parts.handles]
  exact inside_laidChildren children laid member leads

theorem inside_laidChild (child : Child) {base : Nat}
    (laid : LaidChild world base child) {t : TemplateId}
    (stands : child.memberAt base = .template t) {path : List Nat}
    (leads : world.templateAt? t path = some inner) :
    base ≤ inner.index ∨ ∃ handle ∈ child.handles, ∃ path,
      world.templateAt? handle path = some inner := by
  cases child with
  | definition parts =>
      rw [LaidChild] at laid
      rw [Child.handles]
      cases stands
      cases path with
      | nil =>
          cases leads
          exact .inl (Nat.le_add_right _ _)
      | cons place path =>
          rw [templateAt?_cons, laid.2, Option.bind_eq_some_iff] at leads
          obtain ⟨nested, here, leads⟩ := leads
          exact inside_laid parts laid.1
            ⟨nested, Blueprint.mem_children_of_nestedAt? here, path, leads⟩
  | template other =>
      cases stands
      exact .inr ⟨t, by simp [Child.handles], path, leads⟩
  | _ => cases stands

theorem inside_laidChildren (children : List Child) {base : Nat}
    (laid : LaidChildren world base children) {t : TemplateId}
    (member : .template t ∈ Child.membersAt base children) {path : List Nat}
    (leads : world.templateAt? t path = some inner) :
    base ≤ inner.index ∨ ∃ handle ∈ Child.handlesAny children, ∃ path,
      world.templateAt? handle path = some inner := by
  cases children with
  | nil => cases member
  | cons child rest =>
      rw [LaidChildren] at laid
      rw [Child.membersAt, List.mem_cons] at member
      rw [Child.handlesAny]
      rcases member with first | later
      · rcases inside_laidChild child laid.1 first.symm leads with
          made | ⟨handle, inside, found⟩
        · exact .inl made
        · exact .inr ⟨handle, List.mem_append_left _ inside, found⟩
      · rcases inside_laidChildren rest laid.2 later leads with
          made | ⟨handle, inside, found⟩
        · exact .inl (by omega)
        · exact .inr ⟨handle, List.mem_append_right _ inside, found⟩

end

end Inside

/-! ## Extending -/

namespace Template

/-- After a definition that keeps apart was compiled, nothing in a template is
inside the extension. -/
theorem not_isInside_compile {world : World σ} {definition : Definition}
    {t : TemplateId} (older : world.NestsOlder world.templates.size)
    (there : t.index < world.templates.size)
    (apart : world.KeepsApart t definition) {path : List Nat}
    {nested : TemplateId}
    (leads : ((compile definition).after world).templateAt? t path =
      some nested) :
    ¬((compile definition).after world).IsInside
      ((compile definition).result world) nested := by
  obtain ⟨blueprint, adds, laid⟩ := laid_compile definition world
  intro isInside
  rw [blueprint] at isInside
  rw [templateAt?_congr older adds.old there] at leads
  rcases inside_laid definition laid isInside with
    made | ⟨handle, member, other, found⟩
  · have := index_templateAt?_le older there leads
    omega
  · rw [templateAt?_congr older adds.old (apart.old handle member)] at found
    exact apart.apart handle member other path nested found leads

section Outcome

variable {world : World σ} {t : TemplateId} {definition : Definition}

private theorem extend_of_error {error : TemplateError}
    (checked : checkExtendWithin ((compile definition).after world)
      (t.index + 1) t ((compile definition).result world) = .error error) :
    (extend t definition).result world = .error error ∧
      (extend t definition).after world =
        (compile definition).after world := by
  constructor
  · rw [extend, Act.result_bind, Act.result_bind, Act.result_get,
      Act.after_get, checked]
    rfl
  · rw [extend, Act.after_bind, Act.after_bind, Act.result_get,
      Act.after_get, checked]
    rfl

theorem extend_of_ok
    (checked : checkExtendWithin ((compile definition).after world)
      (t.index + 1) t ((compile definition).result world) = .ok ()) :
    (extend t definition).result world = .ok () ∧
      (extend t definition).after world =
        (mergeWithin (t.index + 1) t ((compile definition).result world)).after
          ((compile definition).after world) := by
  constructor
  · rw [extend, Act.result_bind, Act.result_bind, Act.result_get,
      Act.after_get, checked]
    rfl
  · rw [extend, Act.after_bind, Act.after_bind, Act.result_get,
      Act.after_get, checked]
    rfl

end Outcome

/-- Extending a template by a definition that keeps apart succeeds exactly if
the template accepts it.  Then each template absorbs what the definition
has at the places where it stands, and nothing else: its schemas and lists of
listeners grow at their ends.  Otherwise no template changes.  Whatever is
inside the definition stays as it was. -/
theorem extend_all_or_nothing {client : σ} {world : World σ}
    (reached : Run (World.initial client) world) {t : TemplateId}
    (there : t.index < world.templates.size) {definition : Definition}
    (apart : world.KeepsApart t definition) :
    let compiled := (compile definition).after world
    let extension := (compile definition).result world
    let outcome := (extend t definition).result world
    let later := (extend t definition).after world
    (∀ old : TemplateId, old.index < world.templates.size →
      compiled.template old = world.template old) ∧
    (∀ inner, compiled.IsInside extension inner →
      later.template inner = compiled.template inner) ∧
    (compiled.Accepts t extension ∧ outcome = .ok () ∧
        (∃ mergers, compiled.IsMergedBy t extension mergers ∧
          ∀ nested,
            later.template nested =
              { compiled.template nested with
                blueprint := (addedTo nested mergers).foldl Parts.merge
                  (compiled.template nested).blueprint } ∧
            Parts.Gains (compiled.template nested).blueprint
              (addedTo nested mergers) (later.template nested).blueprint) ∨
      ¬compiled.Accepts t extension ∧ (∃ error, outcome = .error error) ∧
        later = compiled) := by
  intro compiled extension outcome later
  have sound := (reached.progress (World.ordered_initial client)).1.sound
  have older : world.NestsOlder world.templates.size :=
    fun t _ nested member => (sound t).older nested member
  obtain ⟨-, adds, -⟩ := laid_compile definition world
  have olderToo : compiled.NestsOlder world.templates.size := by
    intro t below nested member
    rw [adds.old t below] at member
    exact older t below nested member
  have check : checkExtendWithin compiled (t.index + 1) t extension = .ok () ↔
      compiled.Accepts t extension :=
    checkExtendWithin_ok_iff olderToo there (Nat.lt_succ_self _)
  -- Nothing that is merged into is inside the extension, so that the mergers
  -- read the same extension from first to last.
  have outside : ∀ path nested, compiled.templateAt? t path = some nested →
      ¬compiled.IsInside extension nested :=
    fun path nested leads => not_isInside_compile older there apart leads
  refine ⟨adds.old, ?_⟩
  cases checked : checkExtendWithin compiled (t.index + 1) t extension with
  | error error =>
      obtain ⟨refused, same⟩ := extend_of_error checked
      refine ⟨fun inner _ => congrArg (·.template inner) same,
        .inr ⟨fun accepts => ?_, ⟨error, refused⟩, same⟩⟩
      rw [check.mpr accepts] at checked
      cases checked
  | ok =>
      obtain ⟨succeeds, merged⟩ := extend_of_ok checked
      let mergers := mergersWithin compiled (t.index + 1) t extension
      have steps : later = mergers.foldl absorb compiled :=
        merged.trans (after_mergeWithin_eq _ outside (fun _ => id) (.refl _))
      have each (nested : TemplateId) := steps ▸
        template_foldl_absorb mergers compiled nested
      have beside : MergesBeside (compiled.IsInside extension) compiled
          later := by
        rw [steps]
        exact .foldl (.refl compiled) fun merger member => outside merger.path _
          (places_of_mem_mergersWithin member).1
      refine ⟨beside.aside, .inl ⟨check.mp checked, succeeds, mergers,
        isMergedBy_mergersWithin olderToo there (Nat.lt_succ_self _),
        fun nested => ⟨each nested, ?_⟩⟩⟩
      rw [each nested]
      exact .foldl_merge _ _

namespace Pair

def classed (name : String) : Blueprint :=
  (Parts.ofTag "img").attr "class" [.fixed (.text name)]

/-- A picture, an element with the picture twice, and another picture. -/
def start : World Unit :=
  { World.initial () with
    templates := ⟨#[⟨classed "old", false, none⟩,
      ⟨(Parts.ofTag "div").child (.template ⟨0⟩) |>.child (.template ⟨0⟩),
        false, none⟩,
      ⟨classed "late", false, none⟩]⟩ }

/-- The first picture gets a class that is written here, the second one that of
the other picture. -/
def extension : Definition :=
  Parts.none.child (.definition (Parts.none.attr "class"
    [.fixed (.text "new")])) |>.child (.template ⟨2⟩)

theorem isSound_classed (name : String) (limit : Nat) :
    (classed name).IsSound limit := by
  refine ⟨List.pairwise_singleton _ _, ?_⟩
  intro _ member
  exact (List.not_mem_nil member).elim

theorem reached : Run (World.initial ()) start := by
  have each (t : TemplateId) : (start.template t).applied = none ∧
      (start.template t).blueprint.IsSound t.index := by
    obtain ⟨index⟩ := t
    match index with
    | 0 => exact ⟨rfl, isSound_classed _ _⟩
    | 1 =>
        refine ⟨rfl, .nil, fun t member => ?_⟩
        have only : Member.template t = .template ⟨0⟩ := by
          rcases List.mem_cons.mp member with same | later
          · exact same
          · exact List.mem_singleton.mp later
        cases only
        exact Nat.one_pos
    | 2 => exact ⟨rfl, isSound_classed _ _⟩
    | index + 3 => exact ⟨rfl, .none _⟩
  refine .aside rfl rfl rfl ⟨fun t entry kept => ?_, fun _ t => (each t).2⟩
  rw [(each t).1] at kept
  cases kept

theorem keepsApart : start.KeepsApart ⟨1⟩ extension := by
  have handles : extension.handles = [⟨2⟩] := rfl
  have sound := (reached.progress (World.ordered_initial ())).1.sound
  refine ⟨fun handle member => ?_, fun handle member path other inner leads
    leadsToo => ?_⟩ <;>
    rw [handles] at member <;> cases List.mem_singleton.mp member
  · exact Nat.lt_succ_self 2
  · have older : start.NestsOlder 2 :=
      fun t _ nested member => (sound t).older nested member
    have below := index_templateAt?_le older (Nat.lt_succ_self 1) leadsToo
    cases path with
    | nil =>
        cases leads
        exact absurd below (by decide)
    | cons place path =>
        cases place <;> cases leads

/-- The picture that stands at both places gets both classes, in the order of
the places, and the other one keeps its own. -/
theorem pair_extends_both_places :
    let later := (extend ⟨1⟩ extension).after start
    (extend ⟨1⟩ extension).result start = .ok () ∧
      itemsOf "class" (later.template ⟨0⟩).blueprint.attributes =
        [.fixed (.text "old"), .fixed (.text "new"), .fixed (.text "late")] ∧
      later.template ⟨2⟩ = ⟨classed "late", false, none⟩ := by
  intro later
  obtain ⟨old, aside, -⟩ :=
    extend_all_or_nothing reached (show 1 < 3 by decide) keepsApart
  exact ⟨by decide +kernel, rfl,
    (aside ⟨2⟩ ⟨⟨2⟩, .tail _ (.head _), [], rfl⟩).trans (old ⟨2⟩ (by decide))⟩

end Pair

end Template

end LiveTemplate
