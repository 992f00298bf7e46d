import LiveTemplate.Proofs.Statements

/-!
# Plain names

A plain name begins like a name, has no other characters than names have and no
null character.  It is read from its own text, whatever stands behind.
-/

namespace LiveTemplate.Css

open Component

theorem not_isDigit_of_isNameStart {c : Char} (start : isNameStart c = true) :
    c.isDigit = false := by
  rw [Bool.eq_false_iff]
  intro digit
  have bounds : 48 ≤ c.toNat ∧ c.toNat ≤ 57 := by
    simpa [Char.isDigit, UInt32.le_iff_toNat_le] using digit
  have alpha : c.isAlpha = (c.isUpper || c.isLower) := rfl
  have upper : c.isUpper = decide (c.val ≥ 65 ∧ c.val ≤ 90) := rfl
  have lower : c.isLower = (decide (c.val ≥ 97) && decide (c.val ≤ 122)) := rfl
  have codes : (65 ≤ c.toNat ∧ c.toNat ≤ 90 ∨ 97 ≤ c.toNat ∧ c.toNat ≤ 122) ∨
      c.toNat = 95 ∨ c.toNat = 0 ∨ 128 ≤ c.toNat := by
    simp only [isNameStart, alpha, upper, lower, UInt32.le_iff_toNat_le,
      Bool.or_eq_true, Bool.and_eq_true, decide_eq_true_eq, beq_iff_eq] at start
    obtain ((letter | rfl) | rfl) | beyond := start
    · exact .inl letter
    · decide
    · decide
    · exact .inr (.inr (.inr beyond))
  omega

/-- A name that is read from its own text. -/
structure IsPlainName (name : List Char) : Prop where
  starts : startsName name = true
  chars : ∀ c ∈ name, isNameChar c = true
  noNull : '\x00' ∉ name

instance (name : List Char) : Decidable (IsPlainName name) :=
  decidable_of_iff
    (startsName name = true ∧ name.all isNameChar = true ∧ '\x00' ∉ name)
    ⟨fun ⟨starts, chars, noNull⟩ =>
        ⟨starts, List.all_eq_true.mp chars, noNull⟩,
      fun ⟨starts, chars, noNull⟩ =>
        ⟨starts, List.all_eq_true.mpr chars, noNull⟩⟩

private theorem scanNameFrom_append {name : List Char}
    (chars : ∀ c ∈ name, isNameChar c = true) (noNull : '\x00' ∉ name)
    {w : List Char} (ends : EndsAt w) :
    scanNameFrom 0 (name ++ w) = (name, name.length) := by
  induction name with
  | nil => exact ends.scanNameFrom
  | cons c rest ih =>
      have isName := chars c List.mem_cons_self
      have escape : (c == '\\') = false := by
        rw [beq_eq_false_iff_ne]
        rintro rfl
        exact absurd isName (by decide)
      have null : (c == '\x00') = false := by
        rw [beq_eq_false_iff_ne]
        rintro rfl
        exact noNull List.mem_cons_self
      rw [List.cons_append, scanNameFrom]
      simp only [escape, isName, null, Bool.false_eq_true, if_false, if_true]
      rw [ih (fun d member => chars d (List.mem_cons_of_mem _ member))
        (fun member => noNull (List.mem_cons_of_mem _ member))]
      rfl

namespace IsPlainName

theorem not_mem {name : List Char} (plain : IsPlainName name) {c : Char}
    (foreign : isNameChar c = false) : c ∉ name := by
  intro member
  rw [plain.chars c member] at foreign
  cases foreign

theorem exists_cons {name : List Char} (plain : IsPlainName name) :
    ∃ c rest, name = c :: rest := by
  cases name with
  | nil => exact absurd plain.starts (by decide)
  | cons c rest => exact ⟨c, rest, rfl⟩

variable {c : Char} {rest : List Char} (plain : IsPlainName (c :: rest))

include plain

theorem ne_head (other : Char) (foreign : isNameChar other = false) :
    c ≠ other := by
  rintro rfl
  exact plain.not_mem foreign List.mem_cons_self

theorem startsNumber : startsNumber (c :: rest) = false := by
  have starts := plain.starts
  rw [startsNumber_cons]
  by_cases minus : c = '-'
  · subst minus
    rw [if_pos (.inr rfl)]
    cases rest with
    | nil => exact absurd starts (by decide)
    | cons d rest =>
        have member : d ∈ '-' :: d :: rest := by simp
        have digit : d.isDigit = false := by
          simp only [startsName, Bool.or_eq_true, beq_iff_eq] at starts
          obtain (start | rfl) | rfl := starts
          · exact not_isDigit_of_isNameStart start
          · rfl
          · rfl
        rw [dropPoint_of_ne]
        · exact digit
        · rintro rfl
          exact plain.not_mem rfl member
  · rw [if_neg (by simp [minus, plain.ne_head '+' rfl]),
      dropPoint_of_ne (plain.ne_head '.' rfl)]
    rw [startsName_cons minus (plain.ne_head '\\' rfl)] at starts
    exact not_isDigit_of_isNameStart starts

theorem scanPunctuation? : scanPunctuation? (c :: rest) = none := by
  unfold Css.scanPunctuation?
  split
  case h_17 => rfl
  case h_6 same =>
    exact absurd (same ▸ by simp) (plain.not_mem (c := '>') rfl)
  all_goals
    rename_i same
    exact absurd (List.cons.inj same).1 (plain.ne_head _ rfl)

theorem scanToken {w : List Char} (ends : EndsAt w) :
    scanToken c (rest ++ w) =
      (.ident (String.ofList (c :: rest)), (c :: rest).length) := by
  have name : scanName (c :: rest ++ w) =
      (String.ofList (c :: rest), (c :: rest).length) := by
    rw [scanName, scanNameFrom_append plain.chars plain.noNull ends]
  have starts : startsName (c :: rest ++ w) = true := by
    rw [ends.startsName_append]
    exact plain.starts
  have number : Css.startsNumber (c :: (rest ++ w)) = false := by
    rw [ends.startsNumber_append]
    exact plain.startsNumber
  have punctuation : Css.scanPunctuation? (c :: (rest ++ w)) = none := by
    rw [ends.scanPunctuation?_append]
    exact plain.scanPunctuation?
  have blank : isAsciiBlank c = false := by
    simp [isAsciiBlank, plain.ne_head ' ' rfl,
      plain.ne_head '\t' rfl, plain.ne_head '\n' rfl,
      plain.ne_head '\x0c' rfl, plain.ne_head '\r' rfl]
  have quotes : isQuote c = false := by
    simp [isQuote, plain.ne_head '"' rfl,
      plain.ne_head '\'' rfl]
  have sigil : (c == '#' || c == '@') = false := by
    simp [plain.ne_head '#' rfl, plain.ne_head '@' rfl]
  simp only [Css.scanToken, blank, quotes, sigil, number, punctuation,
    Bool.false_eq_true, if_false]
  change scanPlain c (c :: (rest ++ w)) = _
  rw [scanPlain.eq_2]
  · rw [← List.cons_append, if_pos starts, scanIdentLike_eq, name]
    dsimp only
    rw [List.drop_left, scanOpening.eq_2]
    intro tail same
    exact absurd (ends '(' (by rw [same]; rfl)) (by decide)
  · rintro tail same
    exact absurd (List.cons.inj same).1 (plain.ne_head '/' rfl)

end IsPlainName

/-- A plain name is one component. -/
theorem IsPlainName.components {name : List Char} (plain : IsPlainName name)
    {w : List Char} (ends : EndsAt w) :
    components (name ++ w) =
      leaf ⟨.ident (String.ofList name), String.ofList name⟩ ::
        components w := by
  obtain ⟨c, rest, rfl⟩ := plain.exists_cons
  have read := plain.scanToken ends
  rw [List.cons_append, components_cons (by rw [read]; rfl), read]
  simp

end LiveTemplate.Css
