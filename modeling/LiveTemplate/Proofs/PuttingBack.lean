import Mathlib.Data.List.Nodup
import LiveTemplate.Proofs.AttributeLists
import LiveTemplate.World

/-!
# Putting attributes back

Attributes are put back one after the other, each in its place if it is still
there and at the end otherwise.  When all that has changed was saved before,
this brings every attribute back, and the list with the order it had exactly
if those that were missing by then come last in it.
-/

namespace LiveTemplate

namespace Attribute

theorem keys_setNs (attributes : List Attribute)
    (namespaceName : Option String) (name value : String) :
    (setNs attributes namespaceName name value).map key =
      if (namespaceName, name) ∈ attributes.map key then attributes.map key
      else attributes.map key ++ [(namespaceName, name)] := by
  have present : attributes.any (·.isNamed namespaceName name) = true ↔
      (namespaceName, name) ∈ attributes.map key := by
    simp only [List.any_eq_true, List.mem_map, isNamed_iff_key]
  unfold setNs
  rw [keys_setWhere]
  simp only [present]
  rfl

private theorem keys_removeNs (attributes : List Attribute)
    (namespaceName : Option String) (name : String) :
    (removeNs attributes namespaceName name).map key =
      (attributes.map key).filter (· != (namespaceName, name)) := by
  unfold removeNs
  rw [List.filter_map]
  rfl

private theorem findNs?_cons (entry : Attribute) (rest : List Attribute)
    (namespaceName : Option String) (name : String) :
    findNs? (entry :: rest) namespaceName name =
      if entry.isNamed namespaceName name then some entry.value
      else findNs? rest namespaceName name := by
  unfold findNs?
  rw [List.find?_cons]
  cases entry.isNamed namespaceName name <;> rfl

theorem findNs?_eq_some_iff {attributes : List Attribute}
    (distinct : (attributes.map key).Nodup) {entry : Attribute} :
    findNs? attributes entry.namespaceName entry.name = some entry.value ↔
      entry ∈ attributes := by
  induction attributes with
  | nil => simp [findNs?]
  | cons first rest ih =>
      rw [List.map_cons, List.nodup_cons] at distinct
      rw [findNs?_cons, List.mem_cons]
      split
      · rename_i named
        have same : first.key = entry.key := isNamed_iff_key.mp named
        have absent : entry ∉ rest := fun member =>
          distinct.1 (same ▸ List.mem_map_of_mem member)
        rw [or_iff_left absent]
        obtain ⟨scope, name, value⟩ := entry
        obtain ⟨scope', name', value'⟩ := first
        cases same
        simp [eq_comm]
      · rename_i named
        have differs : entry ≠ first := fun same =>
          named (isNamed_iff_key.mpr (same ▸ rfl))
        rw [or_iff_right differs]
        exact ih distinct.2

theorem findNs?_eq_none_iff {attributes : List Attribute}
    {namespaceName : Option String} {name : String} :
    findNs? attributes namespaceName name = none ↔
      (namespaceName, name) ∉ attributes.map key := by
  unfold findNs?
  rw [Option.map_eq_none_iff, List.find?_eq_none, List.mem_map]
  constructor
  · rintro unnamed ⟨entry, member, same⟩
    exact unnamed entry member (isNamed_iff_key.mpr same)
  · intro absent entry member named
    exact absent ⟨entry, member, isNamed_iff_key.mp named⟩

private theorem perm_of_findNs? {left right : List Attribute}
    (first : (left.map key).Nodup) (second : (right.map key).Nodup)
    (found : ∀ namespaceName name, findNs? left namespaceName name =
      findNs? right namespaceName name) : left.Perm right := by
  refine (List.perm_ext_iff_of_nodup (.of_map key first)
    (.of_map key second)).mpr fun entry => ?_
  rw [← findNs?_eq_some_iff first, ← findNs?_eq_some_iff second, found]

theorem eq_of_perm {left right : List Attribute} (perm : left.Perm right)
    (distinct : (left.map key).Nodup)
    (keys : left.map key = right.map key) : left = right := by
  refine List.ext_getElem perm.length_eq fun index here there => ?_
  refine List.inj_on_of_nodup_map distinct (List.getElem_mem here)
    (perm.mem_iff.mpr (List.getElem_mem there)) ?_
  have same : (left.map key)[index]? = (right.map key)[index]? := by rw [keys]
  rw [List.getElem?_map, List.getElem?_map, List.getElem?_eq_getElem here,
    List.getElem?_eq_getElem there] at same
  exact Option.some.inj same

namespace Confined

variable {covered : Option String × String → Prop}
  {attributes later : List Attribute}

/-- A change of other attributes leaves a value as it is. -/
theorem findNs?_eq (confined : Confined covered attributes later)
    {namespaceName : Option String} {name : String}
    (uncovered : ¬covered (namespaceName, name)) :
    findNs? later namespaceName name =
      findNs? attributes namespaceName name := by
  have found (attributes : List Attribute) :
      findNs? attributes namespaceName name =
        (attributes.filter (·.key == (namespaceName, name))).head?.map
          (·.value) := by
    rw [List.head?_filter]
    rfl
  rw [found, found]
  congr 2
  refine confined.filter (· == (namespaceName, name)) fun key covers => ?_
  apply beq_eq_false_iff_ne.mpr
  rintro rfl
  exact uncovered covers

theorem mem_keys_iff (confined : Confined covered attributes later)
    {key : Option String × String} (uncovered : ¬covered key) :
    key ∈ later.map Attribute.key ↔ key ∈ attributes.map Attribute.key := by
  have same := confined.findNs?_eq uncovered
  rw [← not_iff_not, ← findNs?_eq_none_iff, ← findNs?_eq_none_iff, same]

theorem mem_before (confined : Confined covered attributes later)
    {entry : Attribute} (member : entry ∈ later)
    (uncovered : ¬covered entry.key) : entry ∈ attributes := by
  have kept : entry ∈ later.filter fun other => other.key == entry.key :=
    List.mem_filter.mpr ⟨member, beq_self_eq_true entry.key⟩
  rw [confined.filter (· == entry.key) fun key covers =>
    beq_eq_false_iff_ne.mpr fun same => uncovered (same ▸ covers)] at kept
  exact (List.mem_filter.mp kept).1

end Confined

/-- The `style` attribute has no namespace. -/
def HasPlainStyle (attributes : List Attribute) : Prop :=
  ∀ entry ∈ attributes, entry.name = "style" → entry.namespaceName = none

namespace HasPlainStyle

variable {attributes later : List Attribute}

theorem key_eq (plain : HasPlainStyle attributes) {entry : Attribute}
    (member : entry ∈ attributes) (named : (entry.name == "style") = true) :
    entry.key = (none, "style") := by
  have name := beq_iff_eq.mp named
  exact Prod.ext (plain entry member name) name

theorem of_confined (plain : HasPlainStyle attributes)
    (confined : Confined (· = (none, "style")) attributes later) :
    HasPlainStyle later := by
  intro entry member named
  by_cases covered : entry.key = (none, "style")
  · exact congrArg Prod.fst covered
  · exact plain entry (confined.mem_before member covered) named

/-- What a name finds is found without a namespace. -/
theorem find?_eq (plain : HasPlainStyle attributes) :
    find? attributes "style" = findNs? attributes none "style" := by
  unfold find? findNs?
  rw [← List.head?_filter, ← List.head?_filter]
  congr 2
  apply List.filter_congr
  intro entry member
  rw [Bool.eq_iff_iff, isNamed_iff_key]
  exact ⟨plain.key_eq member, fun same =>
    beq_iff_eq.mpr (congrArg Prod.snd same)⟩

end HasPlainStyle

/-- Attributes that are still there, and behind them those of some that are
missing, stand in the order from before. -/
def ComeBack (keys : List (Option String × String))
    (before current : List Attribute) : Prop :=
  (current.map key).filter (fun name => decide (name ∈ before.map key)) ++
    keys.filter (fun name => decide (name ∈ before.map key) &&
      decide (name ∉ current.map key)) = before.map key

instance (keys : List (Option String × String))
    (before current : List Attribute) :
    Decidable (ComeBack keys before current) :=
  inferInstanceAs (Decidable (_ = _))

end Attribute

namespace SavedAttribute

def key (saved : SavedAttribute) : Option String × String :=
  (saved.namespaceName, saved.name)

/-- Put one attribute back, or take it out if it was not there. -/
def putBack (saved : SavedAttribute) (attributes : List Attribute) :
    List Attribute :=
  match saved.value with
  | some value =>
      Attribute.setNs attributes saved.namespaceName saved.name value
  | none => Attribute.removeNs attributes saved.namespaceName saved.name

/-- Put attributes back in order. -/
def putBackAll (saved : List SavedAttribute) (attributes : List Attribute) :
    List Attribute :=
  saved.foldl (fun attributes one => one.putBack attributes) attributes

theorem confined_putBack (saved : SavedAttribute)
    (attributes : List Attribute) :
    Attribute.Confined (· = saved.key) attributes
      (saved.putBack attributes) := by
  unfold putBack
  split
  · exact Attribute.confined_setNs attributes _ _ _
  · exact Attribute.confined_removeNs attributes _ _

private theorem findNs?_putBack (saved : SavedAttribute)
    (attributes : List Attribute) :
    Attribute.findNs? (saved.putBack attributes) saved.namespaceName
      saved.name = saved.value := by
  unfold putBack
  split
  · rename_i value present
    rw [Attribute.findNs?_setNs_self, present]
  · rename_i absent
    rw [Attribute.findNs?_removeNs_self, absent]

theorem confined_putBackAll (saved : List SavedAttribute)
    (attributes : List Attribute) :
    Attribute.Confined (· ∈ saved.map key) attributes
      (putBackAll saved attributes) := by
  induction saved generalizing attributes with
  | nil => exact .refl attributes
  | cons one rest ih =>
      have head : Attribute.Confined (· ∈ (one :: rest).map key) attributes
          (one.putBack attributes) :=
        (confined_putBack one attributes).mono fun _ same => same ▸ .head _
      exact head.trans ((ih _).mono fun _ member => .tail _ member)

theorem findNs?_putBackAll {saved : List SavedAttribute}
    (distinct : (saved.map key).Nodup) (attributes : List Attribute)
    {one : SavedAttribute} (member : one ∈ saved) :
    Attribute.findNs? (putBackAll saved attributes) one.namespaceName
      one.name = one.value := by
  induction saved generalizing attributes with
  | nil => cases member
  | cons first rest ih =>
      rw [List.map_cons, List.nodup_cons] at distinct
      rcases List.mem_cons.mp member with rfl | later
      · exact ((confined_putBackAll rest (one.putBack attributes)).findNs?_eq
          distinct.1).trans (findNs?_putBack one attributes)
      · exact ih distinct.2 (first.putBack attributes) later

/-- Whether an attribute has to come back to a list. -/
def isMissing (attributes : List Attribute) (saved : SavedAttribute) : Bool :=
  saved.value.isSome && decide (saved.key ∉ attributes.map Attribute.key)

/-- Whether an attribute may have a key once this one has been put back. -/
def admits (saved : SavedAttribute) (key : Option String × String) : Bool :=
  saved.key != key || saved.value.isSome

theorem keys_putBack (saved : SavedAttribute) (attributes : List Attribute) :
    (saved.putBack attributes).map Attribute.key =
      (attributes.map Attribute.key).filter saved.admits ++
        ([saved].filter (isMissing attributes)).map key := by
  unfold putBack
  cases value : saved.value with
  | none =>
      have present : isMissing attributes saved = false := by
        rw [isMissing, value]
        rfl
      rw [Attribute.keys_removeNs, List.filter_cons_of_neg (by simp [present]),
        List.filter_nil, List.map_nil, List.append_nil]
      apply List.filter_congr
      intro name _
      rw [admits, value, Option.isSome_none, Bool.or_false, bne_comm]
      rfl
  | some text =>
      have all : (attributes.map Attribute.key).filter saved.admits =
          attributes.map Attribute.key :=
        List.filter_eq_self.mpr fun name _ => by simp [admits, value]
      rw [Attribute.keys_setNs, all]
      split
      · rename_i present
        have found : isMissing attributes saved = false := by
          rw [isMissing, value, key, decide_eq_false (not_not.mpr present)]
          rfl
        rw [List.filter_cons_of_neg (by simp [found]), List.filter_nil,
          List.map_nil, List.append_nil]
      · rename_i absent
        have missing : isMissing attributes saved = true := by
          rw [isMissing, value]
          exact decide_eq_true absent
        rw [List.filter_cons_of_pos missing]
        rfl

/-- Attributes that were not there are taken out, and those that are missing
come last, in the order in which they are put back. -/
theorem keys_putBackAll {saved : List SavedAttribute}
    (distinct : (saved.map key).Nodup) (attributes : List Attribute) :
    (putBackAll saved attributes).map Attribute.key =
      (attributes.map Attribute.key).filter (fun key => saved.all (·.admits key))
        ++ (saved.filter (isMissing attributes)).map key := by
  induction saved generalizing attributes with
  | nil => simp [putBackAll]
  | cons one rest ih =>
      rw [List.map_cons, List.nodup_cons] at distinct
      have apart : ∀ other ∈ rest, other.key ≠ one.key :=
        fun other member same => distinct.1 (same ▸ List.mem_map_of_mem member)
      have step : putBackAll (one :: rest) attributes =
          putBackAll rest (one.putBack attributes) := rfl
      have same : rest.filter (isMissing (one.putBack attributes)) =
          rest.filter (isMissing attributes) := by
        apply List.filter_congr
        intro other member
        have still := (confined_putBack one attributes).mem_keys_iff
          (apart other member)
        simp only [isMissing, still]
      have admitted : (([one].filter (isMissing attributes)).map key).filter
          (fun key => rest.all (·.admits key)) =
            ([one].filter (isMissing attributes)).map key := by
        rw [List.filter_eq_self]
        intro key member
        obtain ⟨_, inside, rfl⟩ := List.mem_map.mp member
        rw [List.mem_singleton.mp (List.mem_of_mem_filter inside)]
        rw [List.all_eq_true]
        intro other later
        simp [admits, apart other later]
      rw [step, ih distinct.2, keys_putBack, same, List.filter_append, admitted,
        List.filter_filter, List.append_assoc, ← List.map_append,
        ← List.filter_append]
      congr 1
      apply List.filter_congr
      intro key _
      rw [List.all_cons, Bool.and_comm]

/-- What was saved of a list of attributes in which nothing else has changed
since. -/
structure Undo (saved : List SavedAttribute) (before current : List Attribute) :
    Prop where
  distinct : (saved.map key).Nodup
  once : (before.map Attribute.key).Nodup
  values : ∀ one ∈ saved, one.value =
    Attribute.findNs? before one.namespaceName one.name
  confined : Attribute.Confined (· ∈ saved.map key) before current

namespace Undo

variable {saved : List SavedAttribute} {before current : List Attribute}

theorem perm (undo : Undo saved before current) :
    (putBackAll saved current).Perm before := by
  have back := undo.confined.trans (confined_putBackAll saved current)
  refine Attribute.perm_of_findNs? (back.distinct undo.once) undo.once
    fun namespaceName name => ?_
  by_cases covered : (namespaceName, name) ∈ saved.map key
  · obtain ⟨one, member, same⟩ := List.mem_map.mp covered
    cases same
    rw [findNs?_putBackAll undo.distinct current member,
      undo.values one member]
  · exact back.findNs?_eq covered

theorem isSome_value (undo : Undo saved before current)
    {one : SavedAttribute} (member : one ∈ saved) :
    one.value.isSome = decide (one.key ∈ before.map Attribute.key) := by
  rw [undo.values one member, Bool.eq_iff_iff, decide_eq_true_iff,
    ← not_iff_not, Bool.not_eq_true, Option.isSome_eq_false_iff,
    Option.isNone_iff_eq_none]
  exact Attribute.findNs?_eq_none_iff

private theorem filter_admits (undo : Undo saved before current) :
    (current.map Attribute.key).filter
      (fun name => saved.all (·.admits name)) =
        (current.map Attribute.key).filter
          fun name => decide (name ∈ before.map Attribute.key) := by
  apply List.filter_congr
  intro name member
  rw [Bool.eq_iff_iff, List.all_eq_true, decide_eq_true_iff]
  constructor
  · intro admitted
    by_cases covered : name ∈ saved.map key
    · obtain ⟨one, inside, rfl⟩ := List.mem_map.mp covered
      have found := admitted one inside
      simpa [admits, undo.isSome_value inside] using found
    · exact (undo.confined.mem_keys_iff covered).mp member
  · intro found one inside
    by_cases same : one.key = name
    · simp [admits, same, undo.isSome_value inside, found]
    · simp [admits, same]

private theorem map_filter_isMissing (undo : Undo saved before current) :
    (saved.filter (isMissing current)).map key =
      (saved.map key).filter fun name =>
        decide (name ∈ before.map Attribute.key) &&
          decide (name ∉ current.map Attribute.key) := by
  rw [List.filter_map]
  congr 1
  apply List.filter_congr
  intro one member
  rw [isMissing, undo.isSome_value member]
  rfl

/-- The list is the one from before exactly if its order is. -/
theorem eq_iff (undo : Undo saved before current) :
    putBackAll saved current = before ↔
      Attribute.ComeBack (saved.map key) before current := by
  have keys := keys_putBackAll undo.distinct current
  rw [undo.filter_admits, undo.map_filter_isMissing] at keys
  unfold Attribute.ComeBack
  rw [← keys]
  constructor
  · intro same
    rw [same]
  · exact Attribute.eq_of_perm undo.perm
      ((undo.perm.map Attribute.key).nodup_iff.mpr undo.once)

end Undo

end SavedAttribute

end LiveTemplate
