import LiveTemplate.Dom.Attribute

/-!
# Attributes after a change

Setting and removing an attribute by namespace and name decides what is found
under them and leaves all other attributes alone.
-/

namespace LiveTemplate.Attribute

/-- What an attribute is found by. -/
def key (entry : Attribute) : Option String × String :=
  (entry.namespaceName, entry.name)

theorem isNamed_iff_key {entry : Attribute} {namespaceName : Option String}
    {name : String} :
    entry.isNamed namespaceName name = true ↔
      entry.key = (namespaceName, name) := by
  simp [isNamed, key]

theorem isNamed_iff {entry : Attribute} {namespaceName : Option String}
    {name : String} :
    entry.isNamed namespaceName name = true ↔
      entry.namespaceName = namespaceName ∧ entry.name = name := by
  simp [isNamed]

@[simp] theorem findNs?_setNs_self (attributes : List Attribute)
    (namespaceName : Option String) (name value : String) :
    findNs? (setNs attributes namespaceName name value) namespaceName name =
      some value := by
  unfold setNs findNs?
  induction attributes with
  | nil => simp [setWhere, isNamed]
  | cons entry rest ih =>
      by_cases named : entry.isNamed namespaceName name = true
      · have renamed :
            Attribute.isNamed { entry with value := value } namespaceName
              name = true := by
          simpa [isNamed] using named
        simp [setWhere, named, renamed]
      · simp only [Bool.not_eq_true] at named
        simpa [setWhere, named] using ih

@[simp] theorem findNs?_removeNs_self (attributes : List Attribute)
    (namespaceName : Option String) (name : String) :
    findNs? (removeNs attributes namespaceName name) namespaceName name =
      none := by
  unfold removeNs findNs?
  simp [List.find?_eq_none]

theorem keys_setWhere (selected : Attribute → Bool) (added : Attribute)
    (attributes : List Attribute) :
    (setWhere selected added attributes).map key =
      if attributes.any selected then attributes.map key
      else attributes.map key ++ [added.key] := by
  induction attributes with
  | nil => rfl
  | cons entry rest ih =>
      by_cases found : selected entry = true
      · have same : key { entry with value := added.value } = entry.key := rfl
        simp [setWhere, found, same]
      · simp only [setWhere, found, Bool.false_eq_true, if_false, List.map_cons,
          ih, List.any_cons, Bool.false_or]
        split <;> rfl

/-- Attributes under other keys stay as they are, in order, and no key comes to
be there twice. -/
structure Confined (covered : Option String × String → Prop)
    (attributes later : List Attribute) : Prop where
  filter : ∀ keep : Option String × String → Bool,
    (∀ key, covered key → keep key = false) →
      later.filter (fun entry => keep entry.key) =
        attributes.filter fun entry => keep entry.key
  distinct : (attributes.map key).Nodup → (later.map key).Nodup

namespace Confined

variable {covered : Option String × String → Prop}
  {attributes between later : List Attribute}

theorem refl (attributes : List Attribute) :
    Confined covered attributes attributes := by
  exact ⟨fun _ _ => rfl, id⟩

theorem trans (first : Confined covered attributes between)
    (second : Confined covered between later) :
    Confined covered attributes later where
  filter keep apart := (second.filter keep apart).trans (first.filter keep apart)
  distinct once := second.distinct (first.distinct once)

theorem mono {wider : Option String × String → Prop}
    (confined : Confined covered attributes later)
    (implies : ∀ key, covered key → wider key) :
    Confined wider attributes later where
  filter keep apart :=
    confined.filter keep fun key covers => apart key (implies key covers)
  distinct := confined.distinct

theorem setWhere {selected : Attribute → Bool} {added : Attribute}
    {attributes : List Attribute}
    (within : ∀ entry ∈ attributes, selected entry = true → covered entry.key)
    (new : covered added.key)
    (missed : ∀ entry, entry.key = added.key → selected entry = true) :
    Confined covered attributes
      (Attribute.setWhere selected added attributes) where
  filter keep apart := by
    induction attributes with
    | nil => simp [Attribute.setWhere, apart _ new]
    | cons entry rest ih =>
        by_cases found : selected entry = true
        · have same : key { entry with value := added.value } = entry.key := rfl
          simp [Attribute.setWhere, found, same,
            apart _ (within entry (.head _) found)]
        · simp [Attribute.setWhere, found, List.filter_cons,
            ih fun other member => within other (.tail _ member)]
  distinct once := by
    rw [keys_setWhere]
    split
    · exact once
    · rename_i none
      refine List.nodup_append.mpr ⟨once, by simp, ?_⟩
      intro name member other only same
      obtain ⟨entry, inside, rfl⟩ := List.mem_map.mp member
      rw [List.mem_singleton.mp only] at same
      exact none (List.any_eq_true.mpr ⟨entry, inside, missed entry same⟩)

private theorem filterOut {dropped : Attribute → Bool}
    (within : ∀ entry, dropped entry = true → covered entry.key)
    (attributes : List Attribute) :
    Confined covered attributes
      (attributes.filter fun entry => !dropped entry) where
  filter keep apart := by
    rw [List.filter_filter]
    apply List.filter_congr
    intro entry _member
    cases found : dropped entry with
    | true => simp [apart _ (within entry found)]
    | false => simp
  distinct once := once.sublist (List.filter_sublist.map key)

theorem eraseP {dropped : Attribute → Bool} {attributes : List Attribute}
    (within : ∀ entry ∈ attributes, dropped entry = true →
      covered entry.key) :
    Confined covered attributes (attributes.eraseP dropped) where
  filter keep apart := by
    induction attributes with
    | nil => rfl
    | cons entry rest ih =>
        by_cases found : dropped entry = true
        · simp [found, apart _ (within entry (.head _) found)]
        · simp [found, List.filter_cons,
            ih fun other member => within other (.tail _ member)]
  distinct once := once.sublist (List.eraseP_sublist.map key)

end Confined

theorem confined_setNs (attributes : List Attribute)
    (namespaceName : Option String) (name value : String) :
    Confined (· = (namespaceName, name)) attributes
      (setNs attributes namespaceName name value) := by
  apply Confined.setWhere
  · intro entry _ named
    exact isNamed_iff_key.mp named
  · rfl
  · intro entry same
    exact isNamed_iff_key.mpr same

theorem confined_removeNs (attributes : List Attribute)
    (namespaceName : Option String) (name : String) :
    Confined (· = (namespaceName, name)) attributes
      (removeNs attributes namespaceName name) := by
  apply Confined.filterOut
  intro entry named
  exact isNamed_iff_key.mp named

theorem confined_set (attributes : List Attribute) (name value : String) :
    Confined (·.2 = name) attributes (set attributes name value) := by
  apply Confined.setWhere
  · intro entry _ named
    exact beq_iff_eq.mp named
  · rfl
  · intro entry same
    exact beq_iff_eq.mpr (congrArg Prod.snd same)

theorem confined_remove (attributes : List Attribute) (name : String) :
    Confined (·.2 = name) attributes (remove attributes name) := by
  apply Confined.eraseP
  intro entry _ named
  exact beq_iff_eq.mp named

/-- Looking an attribute up passes over other names. -/
theorem find?_filter (attributes : List Attribute) (name : String) :
    find? (attributes.filter (·.name == name)) name =
      find? attributes name := by
  simp only [find?, List.find?_filter, and_self, Bool.decide_eq_true]

theorem findNs?_filter (attributes : List Attribute)
    (namespaceName : Option String) (name : String) :
    findNs? (attributes.filter (·.name == name)) namespaceName name =
      findNs? attributes namespaceName name := by
  have same : (fun entry : Attribute => decide ((entry.name == name) = true ∧
      entry.isNamed namespaceName name = true)) =
        fun entry => entry.isNamed namespaceName name := by
    funext entry
    rw [Bool.eq_iff_iff, decide_eq_true_iff, isNamed_iff]
    exact ⟨fun both => ⟨both.2.1, both.2.2⟩, fun both =>
      ⟨beq_iff_eq.mpr both.2, both⟩⟩
  simp only [findNs?, List.find?_filter, same]

end LiveTemplate.Attribute
