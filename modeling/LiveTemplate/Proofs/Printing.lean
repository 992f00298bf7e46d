import Mathlib.Algebra.Order.BigOperators.Group.List
import Mathlib.Algebra.Order.Group.Nat
import Mathlib.Data.List.Perm.Subperm
import LiveTemplate.Proofs.Properties
import LiveTemplate.Proofs.Weighing

/-!
# Declarations read back

Declarations with distinct names are read back from their written form exactly
if every name and every value stands on its own.  Nothing is read back that has
not been written: the declarations of a text weigh no more than the text, and
the written form weighs no more than the declarations in it unless a name needs
an escape.
-/

namespace LiveTemplate.Css

open Component

namespace Declarations

/-- A name that is read from its own text in a declaration. -/
def NameStands (name : String) : Prop :=
  parse (name ++ ": x;") = ⟨[(name, "x")]⟩

/-- A value that is read from its own text in a declaration. -/
def ValueStands (value : String) : Prop :=
  parse ("x: " ++ value ++ ";") = ⟨[("x", value)]⟩

instance (name : String) : Decidable (NameStands name) :=
  inferInstanceAs (Decidable (_ = _))

instance (value : String) : Decidable (ValueStands value) :=
  inferInstanceAs (Decidable (_ = _))

/-- A value that is settled and that no semicolon cuts. -/
structure IsPlainValue (value : String) : Prop where
  settled : Settled (' ' :: value.toList)
  single : IsStatement (' ' :: value.toList)
  trimmed : trimBlank (String.ofList (' ' :: value.toList)) = value
  filled : value ≠ ""

/-- A declaration whose name and value are read from their own texts. -/
def IsPlain (entry : String × String) : Prop :=
  IsPlainName entry.1.toList ∧ IsPlainValue entry.2

def entryText (entry : String × String) : List Char :=
  entry.1.toList ++ ':' :: ' ' :: (entry.2.toList ++ [';'])

/-- A space and the written form, if there is anything to write. -/
def spacedText : List (String × String) → List Char
  | [] => []
  | entry :: rest => ' ' :: (entryText entry ++ spacedText rest)

private theorem toList_render_cons (entry : String × String)
    (rest : List (String × String)) :
    (render ⟨entry :: rest⟩).toList = entryText entry ++ spacedText rest := by
  induction rest generalizing entry with
  | nil => simp [render, entryText, spacedText]
  | cons next rest ih =>
      have behind := ih next
      simp only [render, List.map_cons, String.intercalate_cons_cons,
        String.toList_append] at behind ⊢
      rw [behind]
      simp [entryText, spacedText]

private theorem statement_filler {component : Component}
    (filler : component.isFiller = true) (rest : List Component) :
    statement false (component :: rest) = statement false rest := by
  simp [statement, filler]

/-- Filler in front of a text is passed over. -/
theorem filterMap_declaration?_filler {component : Component}
    (filler : component.isFiller = true) (rest : List Component) :
    (splitComponents (fun component => component.token == .semicolon)
        (component :: rest)).filterMap declaration? =
      (splitComponents (fun component => component.token == .semicolon)
        rest).filterMap declaration? := by
  have other : (component.token == .semicolon) = false := by
    rw [beq_eq_false_iff_ne]
    intro same
    rw [Component.isFiller, same] at filler
    cases filler
  rw [splitComponents]
  cases shape : splitComponents
      (fun component => component.token == .semicolon) rest with
  | nil => exact absurd shape (splitComponents_ne_nil rest)
  | cons segment segments =>
      have same : declaration? (component :: segment) = declaration? segment := by
        simp only [declaration?, statement_filler filler]
      simp only [other, Bool.false_eq_true, if_false, List.filterMap_cons, same]

theorem components_blank {c : Char} (blank : isAsciiBlank c = true)
    (rest : List Char) :
    ∃ content, components (c :: rest) =
      leaf ⟨.blank content, content⟩ ::
        components (rest.dropWhile isAsciiBlank) := by
  have read : scanToken c rest =
      (.blank (String.ofList (c :: rest.takeWhile isAsciiBlank)),
        (rest.takeWhile isAsciiBlank).length + 1) := by
    simp [scanToken, blank]
  have whole : rest.takeWhile isAsciiBlank ++ rest.dropWhile isAsciiBlank =
      rest := List.takeWhile_append_dropWhile
  generalize rest.takeWhile isAsciiBlank = front at *
  generalize rest.dropWhile isAsciiBlank = behind at *
  subst whole
  refine ⟨String.ofList (c :: front), ?_⟩
  rw [components_cons (by rw [read]; rfl), read]
  simp

theorem writtenIn_dropWhile (text : List Char) :
    writtenIn (text.dropWhile isAsciiBlank) = writtenIn text := by
  cases text with
  | nil => rfl
  | cons c rest =>
      by_cases blank : isAsciiBlank c = true
      · obtain ⟨content, shape⟩ := components_blank blank rest
        rw [List.dropWhile_cons_of_pos blank]
        unfold writtenIn
        rw [shape, filterMap_declaration?_filler rfl]
      · rw [List.dropWhile_cons_of_neg blank]

theorem writtenIn_space (text : List Char) :
    writtenIn (' ' :: text) = writtenIn text := by
  rw [← writtenIn_dropWhile (' ' :: text), ← writtenIn_dropWhile text]
  rfl

section Named

variable {name : String} (plain : IsPlainName name.toList)

include plain

theorem components_named (text : List Char) :
    components (name.toList ++ ':' :: text) =
      leaf ⟨.ident name, name⟩ :: leaf (stopLexeme ':') :: components text := by
  have colon : IsStop ':' := .inl rfl
  rw [plain.components (colon.endsAt text), components_stop colon,
    String.ofList_toList]

theorem settled_named {text : List Char} (settled : Settled text) :
    Settled (name.toList ++ ':' :: text) := by
  intro w ends
  rw [List.append_assoc, List.cons_append, components_named plain,
    components_named plain, settled w ends]
  rfl

theorem isStatement_named {text : List Char} (single : IsStatement text) :
    IsStatement (name.toList ++ ':' :: text) := by
  intro component member
  rw [components_named plain] at member
  rcases member with _ | ⟨_, _ | ⟨_, member⟩⟩
  · exact nofun
  · exact nofun
  · exact single component member

theorem declaration?_named (text : List Char) :
    declaration? (components (name.toList ++ ':' :: text)) =
      if trimBlank (String.ofList text) = "" then none
      else some (name, trimBlank (String.ofList text)) := by
  have source : sources (components text) = String.ofList text :=
    String.toList_inj.mp (by simp [sources_components])
  rw [components_named plain]
  simp [declaration?, statement, Component.isFiller, Component.token,
    Token.isFiller, stopLexeme, source]

end Named

private theorem writtenIn_entryText {entry : String × String}
    (plain : IsPlain entry)
    (rest : List Char) :
    writtenIn (entryText entry ++ rest) = entry :: writtenIn rest := by
  obtain ⟨name, value⟩ := entry
  obtain ⟨plainName, plainValue⟩ := plain
  have whole : entryText (name, value) ++ rest =
      name.toList ++ ':' :: (' ' :: value.toList) ++ ';' :: rest := by
    simp [entryText]
  rw [whole, writtenIn_append (settled_named plainName plainValue.settled),
    (isStatement_named plainName plainValue.single).writtenIn,
    declaration?_named plainName, plainValue.trimmed, if_neg plainValue.filled]
  rfl

private theorem writtenIn_spacedText {entries : List (String × String)}
    (plain : ∀ entry ∈ entries, IsPlain entry) :
    writtenIn (spacedText entries) = entries := by
  induction entries with
  | nil => rfl
  | cons entry rest ih =>
      rw [spacedText, writtenIn_space,
        writtenIn_entryText (plain entry List.mem_cons_self),
        ih fun other member => plain other (List.mem_cons_of_mem _ member)]

theorem written_render (declarations : Declarations) :
    written declarations.render =
      writtenIn (spacedText declarations.entries) := by
  obtain ⟨entries⟩ := declarations
  cases entries with
  | nil => rfl
  | cons entry rest =>
      rw [written_eq, toList_render_cons, spacedText, writtenIn_space]

theorem parse_render {declarations : Declarations}
    (distinct : declarations.names.Nodup)
    (plain : ∀ entry ∈ declarations.entries, IsPlain entry) :
    parse declarations.render = declarations := by
  rw [parse_eq, written_render, writtenIn_spacedText plain,
    setAll_entries distinct]

theorem weightOf_spacedText (entries : List (String × String)) :
    weightOf (spacedText entries) =
      (entries.map fun entry =>
        weightOf entry.1.toList + weightOf entry.2.toList + 2).sum := by
  have space : weight ' ' = 0 := rfl
  have colon : weight ':' = 1 := rfl
  have semicolon : weight ';' = 1 := rfl
  induction entries with
  | nil => rfl
  | cons entry rest ih =>
      simp only [spacedText, entryText, weightOf_cons, weightOf_append,
        weightOf_nil, space, colon, semicolon, ih, List.map_cons, List.sum_cons]
      omega

theorem weight_le_entryWeight (entry : String × String) :
    weightOf entry.1.toList + weightOf entry.2.toList + 2 ≤
      entryWeight entry := by
  unfold entryWeight nameWeight
  omega

/-- Entries that are all read back are all that is read back, and none of their
names needs an escape. -/
theorem perm_of_subset {entries : List (String × String)}
    (distinct : entries.Nodup)
    (readBack : entries ⊆ writtenIn (spacedText entries)) :
    (writtenIn (spacedText entries)).Perm entries ∧
      ∀ entry ∈ entries, IsPlainName entry.1.toList := by
  obtain ⟨among, same, part⟩ := List.subperm_of_subset distinct readBack
  obtain ⟨others, whole⟩ := part.exists_perm_append
  have perm : (writtenIn (spacedText entries)).Perm (entries ++ others) :=
    whole.trans (same.append_right others)
  have bound := entryWeight_writtenIn (spacedText entries)
  rw [(perm.map entryWeight).sum_eq, List.map_append, List.sum_append,
    weightOf_spacedText] at bound
  constructor
  · cases others with
    | nil => simpa using perm
    | cons other others =>
        have two := weight_le_entryWeight other
        have total := List.sum_le_sum (l := entries)
          fun entry _ => weight_le_entryWeight entry
        simp only [List.map_cons, List.sum_cons] at bound
        omega
  · intro entry member
    by_contra escaped
    obtain ⟨before, behind, rfl⟩ := List.append_of_mem member
    have beforeTotal := List.sum_le_sum (l := before) fun other _ =>
      weight_le_entryWeight other
    have behindTotal := List.sum_le_sum (l := behind) fun other _ =>
      weight_le_entryWeight other
    have heavy : entryWeight entry =
        weightOf entry.1.toList + weightOf entry.2.toList + 4 := by
      simp only [entryWeight, nameWeight, if_neg escaped]
      omega
    simp only [List.map_append, List.map_cons, List.sum_append, List.sum_cons,
      heavy] at bound
    omega

/-- A part of a text that weighs as much as the value at its front is the
value. -/
theorem eq_of_trimBlank {text rest behind : List Char} {value : String}
    (split : text ++ ';' :: rest = ' ' :: (value.toList ++ ';' :: behind))
    (trimmed : trimBlank (String.ofList text) = value) :
    text = ' ' :: value.toList := by
  have same : weightOf text = weightOf value.toList := by
    rw [← trimmed, weightOf_trimBlank]
  have space : weight ' ' = 0 := rfl
  have semicolon : weight ';' = 1 := rfl
  rw [← List.cons_append] at split
  obtain ⟨more, isValue, tail⟩ | ⟨more, isText, tail⟩ :=
    List.append_eq_append_iff.mp split
  · -- A shorter part weighs less, for what is left out begins with a semicolon.
    cases more with
    | nil => rw [isValue, List.append_nil]
    | cons c more =>
        obtain ⟨rfl, -⟩ := List.cons.inj tail
        have total := congrArg weightOf isValue
        simp only [weightOf_append, weightOf_cons, space, semicolon] at total
        omega
  · cases more with
    | nil => rw [isText, List.append_nil]
    | cons c more =>
        obtain ⟨rfl, -⟩ := List.cons.inj tail
        have total := congrArg weightOf isText
        simp only [weightOf_append, weightOf_cons, space, semicolon] at total
        omega

/-- A value does not come to itself and what is behind its semicolon. -/
theorem trimBlank_ne (value : String) (rest : List Char) :
    trimBlank (String.ofList (' ' :: (value.toList ++ ';' :: rest))) ≠
      value := by
  intro same
  have weighed := congrArg (fun text => weightOf text.toList) same
  have space : weight ' ' = 0 := rfl
  have semicolon : weight ';' = 1 := rfl
  simp only [weightOf_trimBlank, weightOf_cons, weightOf_append, space,
    semicolon] at weighed
  omega

private theorem not_perm_writtenIn {name value : String}
    {rest : List (String × String)} {text behind : List Char}
    (split : ' ' :: (value.toList ++ ';' :: spacedText rest) =
      text ++ ';' :: behind) :
    ¬(writtenIn behind).Perm ((name, value) :: rest) := by
  intro perm
  have bound := entryWeight_writtenIn behind
  have total := congrArg weightOf split
  have written := weightOf_spacedText ((name, value) :: rest)
  have each := List.sum_le_sum (l := (name, value) :: rest)
    fun entry _ => weight_le_entryWeight entry
  have space : weight ' ' = 0 := rfl
  have colon : weight ':' = 1 := rfl
  have semicolon : weight ';' = 1 := rfl
  rw [(perm.map entryWeight).sum_eq] at bound
  simp only [spacedText, entryText, weightOf_cons, weightOf_append, space,
    colon, semicolon] at total written
  omega

/-- Where nothing else is read, every value stands on its own. -/
theorem isPlainValue_of_perm {entries : List (String × String)}
    (distinct : (entries.map (·.1)).Nodup)
    (plain : ∀ entry ∈ entries, IsPlainName entry.1.toList)
    (perm : (writtenIn (spacedText entries)).Perm entries) :
    ∀ entry ∈ entries, IsPlainValue entry.2 := by
  induction entries with
  | nil => exact nofun
  | cons entry rest ih =>
      obtain ⟨name, value⟩ := entry
      obtain ⟨fresh, distinct⟩ := List.nodup_cons.mp distinct
      have plainName : IsPlainName name.toList :=
        plain (name, value) List.mem_cons_self
      have whole : writtenIn (spacedText ((name, value) :: rest)) =
          writtenIn (name.toList ++ ':' ::
            ' ' :: (value.toList ++ ';' :: spacedText rest)) := by
        rw [spacedText, writtenIn_space]
        simp [entryText]
      have only (other : String)
          (member : (name, other) ∈ (name, value) :: rest) : other = value := by
        rcases member with _ | ⟨_, member⟩
        · rfl
        · exact absurd (List.mem_map_of_mem (f := (·.1)) member) fresh
      rw [whole] at perm
      obtain single | ⟨text, behind, split, settled, single⟩ :=
        isStatement_or_exists (' ' :: (value.toList ++ ';' :: spacedText rest))
      · -- The semicolon behind the value would be part of the value.
        rw [(isStatement_named plainName single).writtenIn,
          declaration?_named plainName] at perm
        split at perm
        · exact absurd perm.length_eq (by simp)
        · exact absurd (only _ (perm.subset List.mem_cons_self))
            (trimBlank_ne value _)
      · rw [split, ← List.cons_append, ← List.append_assoc,
          writtenIn_append (settled_named plainName settled),
          (isStatement_named plainName single).writtenIn,
          declaration?_named plainName] at perm
        split at perm
        case isTrue blank =>
          -- Then all entries would be read from what is behind.
          rw [Option.toList_none, List.nil_append] at perm
          exact absurd perm (not_perm_writtenIn split)
        case isFalse filled =>
          have trimmed := only _ (perm.subset List.mem_cons_self)
          obtain rfl := eq_of_trimBlank split.symm trimmed
          obtain rfl : spacedText rest = behind := by simpa using split
          rw [trimmed, Option.toList_some, List.singleton_append,
            List.perm_cons] at perm
          rintro entry (_ | ⟨_, member⟩)
          · exact ⟨settled, single, trimmed, trimmed ▸ filled⟩
          · exact ih distinct
              (fun entry member => plain entry (List.mem_cons_of_mem _ member))
              perm entry member

private theorem isPlain_of_subset {declarations : Declarations}
    (distinct : declarations.names.Nodup)
    (readBack : declarations.entries ⊆ written declarations.render) :
    ∀ entry ∈ declarations.entries, IsPlain entry := by
  rw [written_render] at readBack
  obtain ⟨perm, plain⟩ := perm_of_subset distinct.of_map readBack
  intro entry member
  exact ⟨plain entry member,
    isPlainValue_of_perm distinct plain perm entry member⟩

/-- Every property is what it was after a round trip exactly if the declarations
are plain. -/
theorem get?_parse_render_iff {declarations : Declarations}
    (distinct : declarations.names.Nodup) :
    (∀ property, (parse declarations.render).get? property =
        declarations.get? property) ↔
      ∀ entry ∈ declarations.entries, IsPlain entry := by
  constructor
  · intro same
    refine isPlain_of_subset distinct fun entry member => ?_
    refine mem_written_of_get? ?_
    rw [same, get?_of_mem distinct member]
  · intro plain property
    rw [parse_render distinct plain]

theorem parse_render_singleton_iff {name value : String} :
    parse (render ⟨[(name, value)]⟩) = ⟨[(name, value)]⟩ ↔
      IsPlain (name, value) := by
  have distinct : (names ⟨[(name, value)]⟩).Nodup := by simp [names]
  constructor
  · intro readBack
    refine (get?_parse_render_iff distinct).mp (fun property => ?_) _
      List.mem_cons_self
    rw [readBack]
  · intro plain
    refine parse_render distinct fun entry member => ?_
    rw [List.mem_singleton.mp member]
    exact plain

theorem isPlain_x : IsPlain ("x", "x") :=
  parse_render_singleton_iff.mp (by decide)

theorem nameStands_iff {name : String} :
    NameStands name ↔ IsPlainName name.toList := by
  have written : render ⟨[(name, "x")]⟩ = name ++ ": x;" :=
    String.toList_inj.mp (by simp [render])
  rw [NameStands, ← written, parse_render_singleton_iff]
  exact and_iff_left isPlain_x.2

theorem valueStands_iff {value : String} :
    ValueStands value ↔ IsPlainValue value := by
  have written : render ⟨[("x", value)]⟩ = "x: " ++ value ++ ";" :=
    String.toList_inj.mp (by simp [render])
  rw [ValueStands, ← written, parse_render_singleton_iff]
  exact and_iff_right isPlain_x.1

theorem isPlain_iff {entry : String × String} :
    IsPlain entry ↔ NameStands entry.1 ∧ ValueStands entry.2 := by
  rw [nameStands_iff, valueStands_iff, IsPlain]

/-- **Declarations round trip.**  Distinct names and values that each stand on
their own are read back from the written form, in the same order. -/
theorem parse_render_of_stands {declarations : Declarations}
    (distinct : declarations.names.Nodup)
    (namesStand : ∀ entry ∈ declarations.entries, NameStands entry.1)
    (valuesStand : ∀ entry ∈ declarations.entries, ValueStands entry.2) :
    parse declarations.render = declarations := by
  refine parse_render distinct fun entry member => ?_
  exact isPlain_iff.mpr ⟨namesStand entry member, valuesStand entry member⟩

/-- Values with semicolons in a string, a url, nested brackets and a comment. -/
def guarded : Declarations :=
  ⟨[("content", "\"a;b\""), ("background", "url(data:image/png;base64,AA==)"),
    ("--map", "([a;b] \x7bc: d;\x7d)"), ("color", "red /* ; */ blue")]⟩

theorem parse_render_guarded :
    guarded.names.Nodup ∧
      (∀ entry ∈ guarded.entries, NameStands entry.1) ∧
      (∀ entry ∈ guarded.entries, ValueStands entry.2) ∧
      parse guarded.render = guarded := by
  have distinct : guarded.names.Nodup := by decide +kernel
  have namesStand : ∀ entry ∈ guarded.entries, NameStands entry.1 := by
    decide +kernel
  have valuesStand : ∀ entry ∈ guarded.entries, ValueStands entry.2 := by
    decide +kernel
  exact ⟨distinct, namesStand, valuesStand,
    parse_render_of_stands distinct namesStand valuesStand⟩

end Declarations

end LiveTemplate.Css
