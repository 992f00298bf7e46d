import Mathlib.Data.List.Induction
import Mathlib.Data.List.Nodup
import LiveTemplate.Css.Declarations

/-!
# Declarations as a map

Setting and removing a property changes no other one, names stay distinct, and
distinct properties set one after the other stand in that order.
-/

namespace LiveTemplate.Css.Declarations

/-- The names of the properties. -/
def names (declarations : Declarations) : List String :=
  declarations.entries.map (·.1)

/-- Set properties one after the other. -/
def setAll (declarations : Declarations) (entries : List (String × String)) :
    Declarations :=
  entries.foldl (fun declarations entry => declarations.set entry.1 entry.2)
    declarations

theorem parse_eq (style : String) : parse style = empty.setAll (written style) :=
  rfl

theorem setAll_append (declarations : Declarations)
    (first second : List (String × String)) :
    declarations.setAll (first ++ second) =
      (declarations.setAll first).setAll second :=
  List.foldl_append

theorem get?_cons (name value : String) (rest : List (String × String))
    (property : String) :
    get? ⟨(name, value) :: rest⟩ property =
      if property = name then some value else get? ⟨rest⟩ property := by
  by_cases same : property = name
  · subst same
    simp [get?]
  · simp [get?, List.lookup_cons, same, beq_eq_false_iff_ne.mpr same]

theorem get?_set (declarations : Declarations) (property value other : String) :
    (declarations.set property value).get? other =
      if other = property then some value else declarations.get? other := by
  obtain ⟨entries⟩ := declarations
  induction entries with
  | nil => exact get?_cons property value [] other
  | cons entry rest ih =>
      obtain ⟨name, old⟩ := entry
      by_cases same : name = property
      · subst same
        simp only [set, setEntry, beq_self_eq_true, if_true, get?_cons]
        split <;> rfl
      · simp only [set] at ih
        simp only [set, setEntry, beq_eq_false_iff_ne.mpr same,
          Bool.false_eq_true, if_false, get?_cons, ih]
        by_cases first : other = name
        · simp [first, same]
        · simp [first]

theorem get?_eq_none {declarations : Declarations} {property : String}
    (absent : property ∉ declarations.names) :
    declarations.get? property = none := by
  obtain ⟨entries⟩ := declarations
  induction entries with
  | nil => rfl
  | cons entry rest ih =>
      simp only [names, List.map_cons, List.mem_cons, not_or] at absent
      rw [get?_cons, if_neg absent.1]
      exact ih absent.2

theorem get?_remove (declarations : Declarations) (property other : String) :
    (declarations.remove property).get? other =
      if other = property then none else declarations.get? other := by
  obtain ⟨entries⟩ := declarations
  induction entries with
  | nil => simp [remove, get?]
  | cons entry rest ih =>
      obtain ⟨name, value⟩ := entry
      simp only [remove] at ih ⊢
      by_cases same : name = property
      · subst same
        simp only [bne_self_eq_false, Bool.false_eq_true, not_false_eq_true,
          List.filter_cons_of_neg, ih, get?_cons]
        split <;> rfl
      · simp only [bne_iff_ne, ne_eq, same, not_false_eq_true,
          List.filter_cons_of_pos, get?_cons, ih]
        by_cases first : other = name
        · simp [first, same]
        · simp [first]

theorem mem_of_get? {declarations : Declarations} {property value : String}
    (found : declarations.get? property = some value) :
    (property, value) ∈ declarations.entries := by
  obtain ⟨entries⟩ := declarations
  induction entries with
  | nil => cases found
  | cons entry rest ih =>
      obtain ⟨name, old⟩ := entry
      rw [get?_cons] at found
      split at found
      case isTrue same =>
        cases found
        exact same ▸ List.mem_cons_self
      case isFalse => exact List.mem_cons_of_mem _ (ih found)

theorem get?_of_mem {declarations : Declarations}
    (distinct : declarations.names.Nodup) {property value : String}
    (member : (property, value) ∈ declarations.entries) :
    declarations.get? property = some value := by
  obtain ⟨entries⟩ := declarations
  induction entries with
  | nil => cases member
  | cons entry rest ih =>
      obtain ⟨name, old⟩ := entry
      obtain ⟨fresh, distinct⟩ := List.nodup_cons.mp distinct
      rw [get?_cons]
      rcases member with _ | ⟨_, member⟩
      · rw [if_pos rfl]
      · rw [if_neg, ih distinct member]
        rintro rfl
        exact fresh (List.mem_map_of_mem (f := (·.1)) member)

private theorem get?_setAll (declarations : Declarations)
    {entries : List (String × String)} {property value : String}
    (found : (declarations.setAll entries).get? property = some value) :
    (property, value) ∈ entries ∨
      declarations.get? property = some value := by
  induction entries generalizing declarations with
  | nil => exact .inr found
  | cons entry rest ih =>
      obtain written | before := ih _ found
      · exact .inl (List.mem_cons_of_mem _ written)
      · rw [get?_set] at before
        split at before
        case isTrue same =>
          cases before
          exact .inl (same ▸ List.mem_cons_self)
        case isFalse => exact .inr before

theorem mem_written_of_get? {style property value : String}
    (found : (parse style).get? property = some value) :
    (property, value) ∈ written style := by
  obtain declared | none := get?_setAll empty found
  · exact declared
  · cases none

theorem contains_iff {declarations : Declarations} {property : String} :
    declarations.contains property = true ↔ property ∈ declarations.names := by
  simp [contains, names]

theorem mem_names_set {declarations : Declarations}
    {property value other : String} :
    other ∈ (declarations.set property value).names ↔
      other = property ∨ other ∈ declarations.names := by
  obtain ⟨entries⟩ := declarations
  induction entries with
  | nil => simp [set, setEntry, names]
  | cons entry rest ih =>
      obtain ⟨name, old⟩ := entry
      simp only [set, names] at ih
      by_cases same : name = property
      · simp [set, setEntry, names, same]
      · simp only [set, setEntry, beq_eq_false_iff_ne.mpr same, names,
          Bool.false_eq_true, if_false, List.map_cons, List.mem_cons, ih]
        tauto

theorem nodup_names_set {declarations : Declarations}
    (distinct : declarations.names.Nodup) (property value : String) :
    (declarations.set property value).names.Nodup := by
  obtain ⟨entries⟩ := declarations
  induction entries with
  | nil => simp [set, setEntry, names]
  | cons entry rest ih =>
      obtain ⟨name, old⟩ := entry
      obtain ⟨fresh, distinct⟩ := List.nodup_cons.mp distinct
      by_cases same : name = property
      · subst same
        simp only [set, setEntry, beq_self_eq_true, if_true, names]
        exact List.nodup_cons.mpr ⟨fresh, distinct⟩
      · simp only [set, setEntry, beq_eq_false_iff_ne.mpr same, names,
          Bool.false_eq_true, if_false]
        refine List.nodup_cons.mpr ⟨?_, ih distinct⟩
        intro member
        obtain rfl | old := mem_names_set.mp member
        · exact same rfl
        · exact fresh old

theorem nodup_names_setAll {declarations : Declarations}
    (distinct : declarations.names.Nodup) (entries : List (String × String)) :
    (declarations.setAll entries).names.Nodup := by
  induction entries generalizing declarations with
  | nil => exact distinct
  | cons entry rest ih => exact ih (nodup_names_set distinct entry.1 entry.2)

theorem nodup_names_parse (style : String) : (parse style).names.Nodup := by
  exact nodup_names_setAll (show empty.names.Nodup from List.nodup_nil) _

theorem nodup_names_remove {declarations : Declarations}
    (distinct : declarations.names.Nodup) (property : String) :
    (declarations.remove property).names.Nodup :=
  distinct.sublist (List.filter_sublist.map _)

theorem set_of_not_mem {declarations : Declarations} {property : String}
    (fresh : property ∉ declarations.names) (value : String) :
    declarations.set property value =
      ⟨declarations.entries ++ [(property, value)]⟩ := by
  obtain ⟨entries⟩ := declarations
  induction entries with
  | nil => rfl
  | cons entry rest ih =>
      obtain ⟨name, old⟩ := entry
      simp only [names, List.map_cons, List.mem_cons, not_or] at fresh
      have same := congrArg Declarations.entries (ih fresh.2)
      simp only [set] at same
      simp [set, setEntry, Ne.symm fresh.1, same]

/-- Distinct properties stand in the order they are set in. -/
theorem setAll_of_nodup {declarations : Declarations}
    {entries : List (String × String)}
    (distinct : (declarations.names ++ entries.map (·.1)).Nodup) :
    declarations.setAll entries = ⟨declarations.entries ++ entries⟩ := by
  induction entries generalizing declarations with
  | nil => simp [setAll]
  | cons entry rest ih =>
      obtain ⟨name, value⟩ := entry
      have fresh : name ∉ declarations.names := by
        intro member
        exact List.disjoint_of_nodup_append distinct member List.mem_cons_self
      have behind : ((declarations.set name value).names ++
          rest.map (·.1)).Nodup := by
        rw [set_of_not_mem fresh]
        simpa [names] using distinct
      exact (ih behind).trans (by simp [set_of_not_mem fresh])

theorem setAll_entries {declarations : Declarations}
    (distinct : declarations.names.Nodup) :
    empty.setAll declarations.entries = declarations :=
  setAll_of_nodup distinct

theorem set_set (declarations : Declarations) (property value other : String) :
    (declarations.set property other).set property value =
      declarations.set property value := by
  obtain ⟨entries⟩ := declarations
  simp only [set, Declarations.mk.injEq]
  induction entries with
  | nil => simp [setEntry]
  | cons entry rest ih =>
      obtain ⟨name, old⟩ := entry
      by_cases same : name = property
      · simp [setEntry, same]
      · simp [setEntry, same, ih]

theorem set_comm {declarations : Declarations} {property : String}
    (present : property ∈ declarations.names) {other : String}
    (differs : other ≠ property) (value text : String) :
    (declarations.set other text).set property value =
      (declarations.set property value).set other text := by
  obtain ⟨entries⟩ := declarations
  simp only [set, Declarations.mk.injEq]
  induction entries with
  | nil => cases present
  | cons entry rest ih =>
      obtain ⟨name, old⟩ := entry
      by_cases first : name = property
      · subst first
        simp [setEntry, Ne.symm differs]
      · have behind : property ∈ names ⟨rest⟩ := by
          simpa [names, Ne.symm first] using present
        by_cases second : name = other
        · subst second
          simp [setEntry, first]
        · simp [setEntry, first, second, ih behind]

private theorem setAll_set_comm {declarations : Declarations}
    {property : String}
    (present : property ∈ declarations.names)
    {entries : List (String × String)}
    (fresh : property ∉ entries.map (·.1)) (value : String) :
    (declarations.setAll entries).set property value =
      (declarations.set property value).setAll entries := by
  induction entries generalizing declarations with
  | nil => rfl
  | cons entry rest ih =>
      simp only [List.map_cons, List.mem_cons, not_or] at fresh
      have kept : property ∈ (declarations.set entry.1 entry.2).names :=
        mem_names_set.mpr (.inr present)
      refine (ih kept fresh.2).trans ?_
      rw [set_comm present (Ne.symm fresh.1)]
      rfl

private theorem setAll_setEntry (declarations : Declarations)
    {entries : List (String × String)}
    (distinct : (entries.map (·.1)).Nodup) (property value : String) :
    declarations.setAll (setEntry property value entries) =
      (declarations.setAll entries).set property value := by
  induction entries generalizing declarations with
  | nil => rfl
  | cons entry rest ih =>
      obtain ⟨name, old⟩ := entry
      obtain ⟨fresh, distinct⟩ := List.nodup_cons.mp distinct
      by_cases same : name = property
      · subst same
        have present : name ∈ (declarations.set name old).names :=
          mem_names_set.mpr (.inl rfl)
        have later := setAll_set_comm present fresh value
        rw [set_set] at later
        simp only [setEntry, beq_self_eq_true, if_true]
        exact later.symm
      · simp only [setEntry, beq_eq_false_iff_ne.mpr same, Bool.false_eq_true,
          if_false]
        exact ih (declarations.set name old) distinct

/-- Setting properties one after the other comes to the same as setting what
they come to. -/
theorem setAll_setAll_empty (declarations : Declarations)
    (entries : List (String × String)) :
    declarations.setAll (empty.setAll entries).entries =
      declarations.setAll entries := by
  induction entries using List.reverseRecOn with
  | nil => rfl
  | append_singleton entries entry ih =>
      have distinct : (empty.setAll entries).names.Nodup :=
        nodup_names_setAll (show empty.names.Nodup from List.nodup_nil) _
      rw [setAll_append, setAll_append, ← ih]
      exact setAll_setEntry declarations distinct entry.1 entry.2

end LiveTemplate.Css.Declarations
