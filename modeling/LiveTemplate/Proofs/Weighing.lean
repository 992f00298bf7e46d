import Mathlib.Algebra.GroupWithZero.Nat
import LiveTemplate.Proofs.Names

/-!
# Weighing texts

Blanks weigh nothing, a backslash as much as two other characters.  A name with
an escape weighs less than its text by two or more, so a text weighs at least as
much as its declarations would, written out with a colon and a semicolon each;
only the last semicolon may be missing.
-/

namespace LiveTemplate.Css

open Component

/-- What a character weighs. -/
def weight (c : Char) : Nat :=
  if isBlank c then 0 else if c = '\\' then 2 else 1

def weightOf (text : List Char) : Nat :=
  (text.map weight).sum

@[simp] theorem weightOf_nil : weightOf [] = 0 :=
  rfl

@[simp] theorem weightOf_cons (c : Char) (rest : List Char) :
    weightOf (c :: rest) = weight c + weightOf rest :=
  rfl

@[simp] theorem weightOf_append (before behind : List Char) :
    weightOf (before ++ behind) = weightOf before + weightOf behind := by
  simp [weightOf]

theorem weight_le (c : Char) : weight c ≤ 2 := by
  unfold weight
  split
  · omega
  · split <;> omega

private theorem weight_le_one {c : Char} (plain : c ≠ '\\') : weight c ≤ 1 := by
  unfold weight
  rw [if_neg plain]
  split <;> omega

theorem isHexDigit_bounds {c : Char} (digit : isHexDigit c = true) :
    48 ≤ c.toNat ∧ c.toNat ≤ 57 ∨ 97 ≤ c.toNat ∧ c.toNat ≤ 102 ∨
      65 ≤ c.toNat ∧ c.toNat ≤ 70 := by
  simp only [isHexDigit, Char.isDigit, Char.le_def, UInt32.le_iff_toNat_le,
    Bool.or_eq_true, Bool.and_eq_true, decide_eq_true_eq] at digit
  obtain (digit | lower) | upper := digit
  · exact .inl digit
  · exact .inr (.inl lower)
  · exact .inr (.inr upper)

private theorem weight_of_isHexDigit {c : Char} (digit : isHexDigit c = true) :
    weight c = 1 := by
  have bounds := isHexDigit_bounds digit
  have notBlank : isBlank c = false := by
    simp only [isBlank, Bool.or_eq_false_iff, Bool.and_eq_false_iff,
      decide_eq_false_iff_not, beq_eq_false_iff_ne]
    omega
  have plain : c ≠ '\\' := by
    rintro rfl
    exact absurd bounds (by decide)
  simp [weight, notBlank, plain]

theorem hexValue_le {c : Char} (digit : isHexDigit c = true) :
    hexValue c ≤ 15 := by
  have bounds := isHexDigit_bounds digit
  unfold hexValue
  split
  case isTrue decimal =>
    simp only [Char.isDigit, UInt32.le_iff_toNat_le, Bool.and_eq_true,
      decide_eq_true_eq] at decimal
    have upper : c.toNat ≤ 57 := decimal.2
    omega
  case isFalse =>
    split
    case isTrue => omega
    case isFalse upper =>
      simp only [Char.le_def, UInt32.le_iff_toNat_le] at upper
      have below : ¬97 ≤ c.toNat := upper
      omega

private theorem characterOf_ne_backslash {code : Nat} (small : code ≤ 15) :
    characterOf code ≠ '\\' := by
  have each : ∀ code ≤ 15, characterOf code ≠ '\\' := by decide
  exact each code small

private theorem weightOf_of_isHexDigit {digits : List Char}
    (hex : ∀ digit ∈ digits, isHexDigit digit = true) :
    weightOf digits = digits.length := by
  induction digits with
  | nil => rfl
  | cons digit rest ih =>
      rw [weightOf_cons, weight_of_isHexDigit (hex digit List.mem_cons_self),
        ih fun d member => hex d (List.mem_cons_of_mem _ member),
        List.length_cons, Nat.add_comm]

/-- What an escape stands for weighs no more than the text behind its
backslash. -/
theorem weight_scanEscape (c : Char) (rest : List Char) :
    weight (scanEscape (c :: rest)).1 ≤
      weightOf ((c :: rest).take (scanEscape (c :: rest)).2) := by
  by_cases hex : isHexDigit c = true
  · have digits : ((c :: rest).take 6).takeWhile isHexDigit =
        c :: (rest.take 5).takeWhile isHexDigit := by
      simp [hex]
    have first : c :: (rest.take 5).takeWhile isHexDigit <+: c :: rest := by
      rw [← digits]
      exact (List.takeWhile_prefix _).trans (List.take_prefix _ _)
    obtain ⟨behind, whole⟩ := first
    simp only [scanEscape, hex, if_true, digits]
    generalize more : (rest.take 5).takeWhile isHexDigit = others at *
    have taken : weightOf (c :: others) ≤
        weightOf ((c :: rest).take ((c :: others).length +
          escapeEndLength ((c :: rest).drop (c :: others).length))) := by
      rw [← whole, List.drop_left, List.take_length_add_append,
        weightOf_append]
      exact Nat.le_add_right _ _
    refine Nat.le_trans ?_ taken
    have isHex : ∀ digit ∈ c :: others, isHexDigit digit = true := by
      rw [← digits]
      exact fun digit => List.mem_takeWhile_imp
    rw [weightOf_of_isHexDigit isHex]
    cases others with
    | nil =>
        refine weight_le_one (characterOf_ne_backslash ?_)
        simpa using hexValue_le hex
    | cons digit others =>
        refine Nat.le_trans (weight_le _) ?_
        simp
  · by_cases null : (c == '\x00') = true
    · simp only [scanEscape, hex, null, Bool.false_eq_true, if_false, if_true]
      rw [beq_iff_eq] at null
      subst null
      exact Nat.le_refl _
    · simp [scanEscape, hex, null]

/-- The character that is read for one in a text. -/
def shown (c : Char) : Char :=
  if c == '\x00' then replacement else c

theorem weight_shown (c : Char) : weight (shown c) = weight c := by
  by_cases null : c = '\x00'
  · subst null
    rfl
  · simp [shown, null]

theorem weightOf_map_shown (text : List Char) :
    weightOf (text.map shown) = weightOf text := by
  induction text with
  | nil => rfl
  | cons c rest ih => rw [List.map_cons, weightOf_cons, weight_shown, ih]; rfl

theorem scanNameFrom_skip (skip : Nat) (input : List Char) :
    (scanNameFrom skip input).1 =
        (scanNameFrom 0 (input.drop skip)).1 ∧
      input.take (scanNameFrom skip input).2 =
        input.take skip ++
          (input.drop skip).take (scanNameFrom 0 (input.drop skip)).2 ∧
      input.drop (scanNameFrom skip input).2 =
        (input.drop skip).drop (scanNameFrom 0 (input.drop skip)).2 := by
  induction input generalizing skip with
  | nil => simp [scanNameFrom]
  | cons c rest ih =>
      cases skip with
      | zero => simp
      | succ skip =>
          obtain ⟨name, taken, behind⟩ := ih skip
          simp [scanNameFrom, name, taken, behind]

theorem ne_backslash_of_isNameChar {c : Char} (isName : isNameChar c = true) :
    c ≠ '\\' := by
  rintro rfl
  exact absurd isName (by decide)

theorem scanNameFrom_cons {c : Char} (isName : isNameChar c = true)
    (rest : List Char) :
    scanNameFrom 0 (c :: rest) =
      (shown c :: (scanNameFrom 0 rest).1, (scanNameFrom 0 rest).2 + 1) := by
  simp [scanNameFrom, ne_backslash_of_isNameChar isName, isName, shown]

theorem scanNameFrom_escape {rest : List Char}
    (goesOn : startsWithNewline rest = false) :
    scanNameFrom 0 ('\\' :: rest) =
      ((scanEscape rest).1 :: (scanNameFrom (scanEscape rest).2 rest).1,
        (scanNameFrom (scanEscape rest).2 rest).2 + 1) := by
  simp [scanNameFrom, goesOn]

theorem scanNameFrom_cases (c : Char) (rest : List Char) :
    c = '\\' ∧ startsWithNewline rest = false ∨ isNameChar c = true ∨
      scanNameFrom 0 (c :: rest) = ([], 0) := by
  by_cases escape : c = '\\'
  · subst escape
    by_cases newline : startsWithNewline rest = true
    · exact .inr (.inr (by simp [scanNameFrom, newline]))
    · exact .inl ⟨rfl, Bool.eq_false_iff.mpr newline⟩
  · by_cases isName : isNameChar c = true
    · exact .inr (.inl isName)
    · exact .inr (.inr (by simp [scanNameFrom, escape, isName]))

/-- A name with an escape weighs less than its text by two or more. -/
theorem weightOf_scanNameFrom {input : List Char}
    (goesOn : input.drop (scanNameFrom 0 input).2 ≠ []) :
    weightOf (scanNameFrom 0 input).1 + 2 ≤
        weightOf (input.take (scanNameFrom 0 input).2) ∨
      (scanNameFrom 0 input).1 =
          (input.take (scanNameFrom 0 input).2).map shown ∧
        ∀ c ∈ input.take (scanNameFrom 0 input).2, isNameChar c = true := by
  match input with
  | [] => exact absurd rfl goesOn
  | c :: rest =>
      obtain ⟨rfl, escapes⟩ | isName | ends := scanNameFrom_cases c rest
      · cases rest with
        | nil => exact absurd rfl goesOn
        | cons d rest =>
            obtain ⟨name, taken, behind⟩ :=
              scanNameFrom_skip (scanEscape (d :: rest)).2 (d :: rest)
            rw [scanNameFrom_escape escapes, List.drop_succ_cons,
              behind] at goesOn
            have escaped := weight_scanEscape d rest
            have inner := weightOf_scanNameFrom goesOn
            have further :
                weightOf (scanNameFrom 0
                  ((d :: rest).drop (scanEscape (d :: rest)).2)).1 ≤
                weightOf (((d :: rest).drop (scanEscape (d :: rest)).2).take
                  (scanNameFrom 0
                    ((d :: rest).drop (scanEscape (d :: rest)).2)).2) := by
              obtain lighter | ⟨same, -⟩ := inner
              · omega
              · rw [same, weightOf_map_shown]
            have backslash : weight '\\' = 2 := rfl
            left
            rw [scanNameFrom_escape escapes, List.take_succ_cons, name, taken]
            simp only [weightOf_cons, weightOf_append, backslash]
            omega
      · rw [scanNameFrom_cons isName, List.drop_succ_cons] at goesOn
        rw [scanNameFrom_cons isName, List.take_succ_cons]
        obtain lighter | ⟨same, chars⟩ := weightOf_scanNameFrom goesOn
        · left
          rw [weightOf_cons, weightOf_cons, weight_shown]
          omega
        · right
          refine ⟨by rw [same]; rfl, ?_⟩
          rintro d (_ | ⟨_, member⟩)
          · exact isName
          · exact chars d member
      · simp [ends]
termination_by input.length

theorem isNameStart_shown {c : Char} (start : isNameStart c = true) :
    isNameStart (shown c) = true := by
  by_cases null : c = '\x00'
  · subst null
    rfl
  · simpa [shown, null] using start

private theorem isNameChar_shown {c : Char} (isName : isNameChar c = true) :
    isNameChar (shown c) = true := by
  by_cases null : c = '\x00'
  · subst null
    rfl
  · simpa [shown, null] using isName

theorem shown_ne_null (c : Char) : shown c ≠ '\x00' := by
  by_cases null : c = '\x00'
  · subst null
    decide
  · simp [shown, null]

theorem scanNameFrom_pos {c : Char} {rest : List Char}
    (starts : startsName (c :: rest) = true) :
    0 < (scanNameFrom 0 (c :: rest)).2 := by
  by_cases minus : c = '-'
  · subst minus
    exact Nat.succ_pos _
  · by_cases escape : c = '\\'
    · subst escape
      have newline : startsWithNewline rest = false := by
        simpa [startsName] using starts
      simp [scanNameFrom, newline]
    · rw [startsName_cons minus escape] at starts
      simp [scanNameFrom, escape, isNameChar, starts]

/-- A name without an escape begins as its text does. -/
theorem startsName_map_shown {input behind : List Char} {c : Char}
    (starts : startsName input = true)
    (chars : ∀ c ∈ input.take (scanNameFrom 0 input).2, isNameChar c = true)
    (next : input.drop (scanNameFrom 0 input).2 = c :: behind)
    (plain : c ≠ '\\') :
    startsName ((input.take (scanNameFrom 0 input).2).map shown) = true := by
  cases input with
  | nil => cases next
  | cons first rest =>
      obtain ⟨length, long⟩ := Nat.exists_eq_succ_of_ne_zero
        (Nat.pos_iff_ne_zero.mp (scanNameFrom_pos starts))
      rw [long, List.take_succ_cons] at chars
      rw [long, List.drop_succ_cons] at next
      rw [long, List.take_succ_cons, List.map_cons]
      have firstName := chars first List.mem_cons_self
      have escape := ne_backslash_of_isNameChar firstName
      by_cases minus : first = '-'
      · subst minus
        cases rest with
        | nil => exact absurd starts (by decide)
        | cons second rest =>
            have other : second ≠ '\\' →
                isNameStart second = true ∨ second = '-' := by
              intro escape
              simpa [startsName, escape] using starts
            cases length with
            | zero =>
                obtain ⟨rfl, -⟩ := List.cons.inj next
                have isName : isNameChar second = true := by
                  obtain start | rfl := other plain
                  · simp [isNameChar, start]
                  · rfl
                simp [scanNameFrom, isName, show isNameChar '-' = true from rfl,
                  plain] at long
            | succ length =>
                have isName := chars second (by simp)
                obtain start | rfl := other (ne_backslash_of_isNameChar isName)
                · simp [startsName, isNameStart_shown start,
                    show shown '-' = '-' from rfl]
                · rfl
      · rw [startsName_cons minus escape] at starts
        have start := isNameStart_shown starts
        rw [startsName_cons _ _]
        · exact start
        · rintro same
          rw [same] at start
          exact absurd start (by decide)
        · rintro same
          rw [same] at start
          exact absurd start (by decide)

/-- The weight of a name, and that of an escape if it needs one. -/
def nameWeight (name : String) : Nat :=
  weightOf name.toList + if IsPlainName name.toList then 0 else 2

theorem scanNameFrom_of_ident {name source : String} {next : List Char}
    (read : lexemesFrom 0 (source.toList ++ next) =
      ⟨.ident name, source⟩ :: lexemesFrom 0 next) :
    startsName (source.toList ++ next) = true ∧
      (scanNameFrom 0 (source.toList ++ next)).1 = name.toList ∧
      (source.toList ++ next).take
        (scanNameFrom 0 (source.toList ++ next)).2 = source.toList ∧
      (source.toList ++ next).drop
        (scanNameFrom 0 (source.toList ++ next)).2 = next := by
  generalize whole : source.toList ++ next = input at read ⊢
  cases input with
  | nil => cases read
  | cons first rest =>
      rw [lexemesFrom_cons] at read
      obtain ⟨same, -⟩ := List.cons.inj read
      obtain ⟨token, text⟩ := Lexeme.mk.inj same
      have mark : (scanToken first rest).1.isMark = true := by
        rw [token]
        rfl
      have scans := scanToken_mark first rest mark
      generalize scanToken first rest = read at scans token text
      cases scans with
      | ident starts =>
          have isName : (scanName (first :: rest)).1 = name :=
            Token.ident.inj token
          obtain ⟨length, long⟩ := Nat.exists_eq_succ_of_ne_zero
            (Nat.pos_iff_ne_zero.mp (scanNameFrom_pos starts))
          have taken : (first :: rest).take
              (scanNameFrom 0 (first :: rest)).2 = source.toList := by
            rw [← text, String.toList_ofList, long]
            simp [scanName, long]
          refine ⟨starts, ?_, taken, ?_⟩
          · rw [← isName, scanName, String.toList_ofList]
          · rw [← List.append_right_inj source.toList, whole, ← taken,
              List.take_append_drop]
      | _ => cases token

theorem nameWeight_le {name source : String} {c : Char} {behind : List Char}
    (read : lexemesFrom 0 (source.toList ++ c :: behind) =
      ⟨.ident name, source⟩ :: lexemesFrom 0 (c :: behind))
    (plain : c ≠ '\\') : nameWeight name ≤ weightOf source.toList := by
  obtain ⟨starts, chars, taken, next⟩ := scanNameFrom_of_ident read
  generalize source.toList ++ c :: behind = input at starts chars taken next
  have goesOn : input.drop (scanNameFrom 0 input).2 ≠ [] := by
    rw [next]
    exact nofun
  unfold nameWeight
  rw [← chars, ← taken]
  obtain lighter | ⟨same, isName⟩ := weightOf_scanNameFrom goesOn
  · split <;> omega
  · rw [if_pos, same, weightOf_map_shown, Nat.add_zero]
    rw [same]
    refine ⟨startsName_map_shown starts isName next plain, ?_, ?_⟩
    · intro d member
      obtain ⟨e, among, rfl⟩ := List.mem_map.mp member
      exact isNameChar_shown (isName e among)
    · intro member
      obtain ⟨e, -, null⟩ := List.mem_map.mp member
      exact shown_ne_null e null

private theorem scanToken_backslash (rest : List Char) :
    (scanToken '\\' rest).1.isFiller = false := by
  rw [Bool.eq_false_iff]
  intro filler
  have mark : (scanToken '\\' rest).1.isMark = true := by
    revert filler
    cases (scanToken '\\' rest).1 <;> first | exact fun _ => rfl | exact nofun
  have scans := scanToken_mark '\\' rest mark
  generalize scanToken '\\' rest = read at scans filler
  cases scans with
  | blank first => exact absurd first (by decide)
  | comment after opens => cases opens
  | _ => cases filler

private theorem weightOf_dropWhile (text : List Char) :
    weightOf (text.dropWhile isBlank) = weightOf text := by
  induction text with
  | nil => rfl
  | cons c rest ih =>
      by_cases blank : isBlank c = true
      · simp [blank, ih, weight]
      · simp [blank]

private theorem weightOf_reverse (text : List Char) :
    weightOf text.reverse = weightOf text := by
  induction text with
  | nil => rfl
  | cons c rest ih => simp [ih, Nat.add_comm]

theorem weightOf_trimBlank (text : List Char) :
    weightOf (trimBlank (String.ofList text)).toList = weightOf text := by
  simp [trimBlank, weightOf_reverse, weightOf_dropWhile]

/-- Filler and a colon do not begin with a backslash. -/
theorem exists_cons_of_filler {filler : List Char}
    (fills : ∀ component ∈ components filler, component.isFiller = true)
    (rest : List Char) :
    ∃ c behind, filler ++ ':' :: rest = c :: behind ∧ c ≠ '\\' := by
  cases filler with
  | nil => exact ⟨':', rest, rfl, by decide⟩
  | cons c filler =>
      refine ⟨c, filler ++ ':' :: rest, rfl, ?_⟩
      rintro rfl
      have first := head_components '\\' filler
      have notFiller := scanToken_backslash filler
      cases shape : components ('\\' :: filler) with
      | nil => simp [shape] at first
      | cons component others =>
          have filler := fills component (by simp [shape])
          simp only [shape, List.head?_cons, Option.map_some,
            Option.some.injEq] at first
          rw [Component.isFiller, first, notFiller] at filler
          cases filler

private theorem weightOf_declaration? {text : List Char} {name value : String}
    (found : Declarations.declaration? (components text) = some (name, value)) :
    nameWeight name + weightOf value.toList + 1 ≤ weightOf text := by
  obtain ⟨before, -, source, filler, rest, -, -, rfl, read, fills, rfl, -⟩ :=
    Declarations.exists_of_declaration? found
  have colon : weight ':' = 1 := rfl
  have whole : weightOf (filler ++ ':' :: rest) =
      weightOf filler + (1 + weightOf rest) := by
    rw [weightOf_append, weightOf_cons, colon]
  obtain ⟨c, behind, next, plain⟩ := exists_cons_of_filler fills rest
  rw [next] at read
  have named := nameWeight_le read plain
  rw [weightOf_trimBlank, weightOf_append, weightOf_append, whole]
  omega

/-- The weight of a declaration written out. -/
def entryWeight (entry : String × String) : Nat :=
  nameWeight entry.1 + weightOf entry.2.toList + 2

theorem entryWeight_declaration? (text : List Char) :
    ((Declarations.declaration? (components text)).toList.map
      entryWeight).sum ≤ weightOf text + 1 := by
  cases found : Declarations.declaration? (components text) with
  | none => simp
  | some entry =>
      have weighed := weightOf_declaration? found
      simp only [Option.toList_some, List.map_cons, List.map_nil, List.sum_cons,
        List.sum_nil, entryWeight]
      omega

/-- The declarations of a text weigh no more than the text and one more
semicolon. -/
theorem entryWeight_writtenIn (text : List Char) :
    ((Declarations.writtenIn text).map entryWeight).sum ≤
      weightOf text + 1 := by
  induction text using Declarations.statements_induction with
  | last text single =>
      rw [single.writtenIn]
      exact entryWeight_declaration? text
  | next a rest settled single ih =>
      have first := entryWeight_declaration? a
      have semicolon : weight ';' = 1 := rfl
      rw [Declarations.writtenIn_append settled, single.writtenIn,
        List.map_append, List.sum_append, weightOf_append, weightOf_cons,
        semicolon]
      omega

end LiveTemplate.Css
