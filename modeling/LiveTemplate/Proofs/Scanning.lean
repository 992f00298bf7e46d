import Mathlib.Data.List.TakeWhile
import LiveTemplate.Css.Lexer

/-!
# Where tokens end

No token but a string, a comment, a url or a name with an escape goes on over a
colon or a semicolon, and to see where a token ends a scanner never has to look
behind one.  So if a token has ended before a colon or semicolon, it is the same
token whatever stands behind, and also if nothing does.
-/

namespace LiveTemplate.Css

/-- What ends most tokens. -/
def IsStop (c : Char) : Prop :=
  c = ':' ∨ c = ';'

instance : DecidablePred IsStop := fun _ => inferInstanceAs (Decidable (_ ∨ _))

/-- A text that begins with a colon or semicolon, or an empty one. -/
def EndsAt (text : List Char) : Prop :=
  ∀ c ∈ text.head?, IsStop c

theorem endsAt_nil : EndsAt [] := by
  intro c member
  cases member

theorem IsStop.endsAt {stop : Char} (isStop : IsStop stop)
    (rest : List Char) : EndsAt (stop :: rest) := by
  intro c member
  cases member
  exact isStop

/-- What stands behind a decimal point, if there is one. -/
def dropPoint : List Char → List Char
  | '.' :: rest => rest
  | input => input

theorem dropPoint_of_ne {c : Char} {rest : List Char} (other : c ≠ '.') :
    dropPoint (c :: rest) = c :: rest := by
  unfold dropPoint
  split
  · simp_all
  · rfl

theorem startsNumber_cons (c : Char) (rest : List Char) :
    startsNumber (c :: rest) =
      if c = '+' ∨ c = '-' then startsWithDigit (dropPoint rest)
      else startsWithDigit (dropPoint (c :: rest)) := by
  by_cases sign : c = '+' ∨ c = '-'
  · rw [if_pos sign]
    rcases sign with rfl | rfl
    · unfold startsNumber dropPoint
      split <;> simp_all
    · unfold startsNumber dropPoint
      split <;> simp_all
  · rw [if_neg sign]
    unfold startsNumber dropPoint
    split <;> simp_all

private theorem newlineLength_cons (c : Char) (rest : List Char) :
    newlineLength (c :: rest) =
      if c = '\r' ∧ rest.head? = some '\n' then 2 else 1 := by
  cases rest with
  | nil => simp [newlineLength]
  | cons d rest =>
      by_cases both : c = '\r' ∧ d = '\n'
      · obtain ⟨rfl, rfl⟩ := both
        rfl
      · rw [if_neg (by simpa using both)]
        unfold newlineLength
        split
        · simp_all
        · rfl
        · contradiction

/-- A comment ends with an asterisk and a slash. -/
theorem scanComment_cons (c : Char) (rest : List Char) :
    scanComment (c :: rest) =
      if c = '*' ∧ rest.head? = some '/' then ([], 2)
      else (c :: (scanComment rest).1, (scanComment rest).2 + 1) := by
  cases rest with
  | nil => simp [scanComment]
  | cons d rest =>
      by_cases both : c = '*' ∧ d = '/'
      · obtain ⟨rfl, rfl⟩ := both
        rfl
      · rw [if_neg (by simpa using both), scanComment]
        rintro tail rfl same
        cases same
        exact both ⟨rfl, rfl⟩

/-- An escaped parenthesis or backslash in a broken url is passed over. -/
theorem scanBadUrl_cons_cons (c d : Char) (rest : List Char) :
    scanBadUrl (c :: d :: rest) =
      if c = ')' then ([], 1)
      else if c = '\\' ∧ (d = ')' ∨ d = '\\') then
        (c :: d :: (scanBadUrl rest).1, (scanBadUrl rest).2 + 2)
      else (c :: (scanBadUrl (d :: rest)).1, (scanBadUrl (d :: rest)).2 + 1) := by
  by_cases ended : c = ')'
  · subst ended
    rfl
  · rw [if_neg ended]
    by_cases escaped : c = '\\' ∧ (d = ')' ∨ d = '\\')
    · rw [if_pos escaped]
      obtain ⟨rfl, rfl | rfl⟩ := escaped <;> rfl
    · rw [if_neg escaped, scanBadUrl]
      all_goals simp_all

theorem startsName_cons {c : Char} {rest : List Char} (minus : c ≠ '-')
    (escape : c ≠ '\\') : startsName (c :: rest) = isNameStart c := by
  unfold startsName
  split <;> simp_all

theorem length_scanSign (input : List Char) :
    (scanSign input).1.toNat ≤ input.length := by
  unfold scanSign
  split <;> simp

theorem length_scanDigits (input : List Char) :
    (scanDigits input).length ≤ input.length := by
  unfold scanDigits
  rw [List.length_map]
  exact (List.takeWhile_prefix _).length_le

private theorem length_scanFraction (input : List Char) :
    (scanFraction input).2 ≤ input.length := by
  unfold scanFraction
  split
  · split
    · exact Nat.succ_le_succ (length_scanDigits _)
    · exact Nat.zero_le _
  · exact Nat.zero_le _

private theorem length_scanExponent (input : List Char) :
    (scanExponent input).2 ≤ input.length := by
  cases input with
  | nil => exact Nat.zero_le _
  | cons c rest =>
      simp only [scanExponent]
      split
      · split
        · have sign := length_scanSign rest
          have digits :=
            length_scanDigits (rest.drop (scanSign rest).1.toNat)
          rw [List.length_drop] at digits
          simp only [List.length_cons]
          omega
        · exact Nat.zero_le _
      · exact Nat.zero_le _

namespace EndsAt

variable {w : List Char} (ends : EndsAt w)

include ends

theorem shape :
    w = [] ∨ (∃ rest, w = ':' :: rest) ∨ ∃ rest, w = ';' :: rest := by
  cases w with
  | nil => exact .inl rfl
  | cons c rest =>
      rcases ends c rfl with rfl | rfl
      · exact .inr (.inl ⟨rest, rfl⟩)
      · exact .inr (.inr ⟨rest, rfl⟩)

theorem dropPoint_append (a : List Char) :
    dropPoint (a ++ w) = dropPoint a ++ w := by
  cases a with
  | nil => rcases ends.shape with rfl | ⟨rest, rfl⟩ | ⟨rest, rfl⟩ <;> rfl
  | cons c rest =>
      by_cases point : c = '.'
      · subst point
        rfl
      · rw [List.cons_append, dropPoint_of_ne point, dropPoint_of_ne point]
        rfl

/-- What is seen before the end stands before it. -/
theorem eq_cons {a tail : List Char} {c : Char}
    (split : a ++ w = c :: tail) (differs : ¬IsStop c) :
    ∃ rest, a = c :: rest ∧ rest ++ w = tail := by
  cases a with
  | nil =>
      rw [List.nil_append] at split
      subst split
      exact absurd (ends c rfl) differs
  | cons d rest =>
      cases split
      exact ⟨rest, rfl, rfl⟩

theorem takeWhile_append {p : Char → Bool} (colon : p ':' = false)
    (semicolon : p ';' = false) (a : List Char) :
    (a ++ w).takeWhile p = a.takeWhile p := by
  induction a with
  | nil =>
      rcases ends.shape with rfl | ⟨rest, rfl⟩ | ⟨rest, rfl⟩
      · rfl
      · simp [colon]
      · simp [semicolon]
  | cons c rest ih =>
      by_cases holds : p c = true
      · simp [holds, ih]
      · simp [holds]

private theorem takeWhile_take_append {p : Char → Bool} (colon : p ':' = false)
    (semicolon : p ';' = false) (limit : Nat) (a : List Char) :
    ((a ++ w).take limit).takeWhile p = (a.take limit).takeWhile p := by
  induction a generalizing limit with
  | nil =>
      cases limit with
      | zero => rfl
      | succ limit =>
          rcases ends.shape with rfl | ⟨rest, rfl⟩ | ⟨rest, rfl⟩
          · rfl
          · simp [colon]
          · simp [semicolon]
  | cons c rest ih =>
      cases limit with
      | zero => rfl
      | succ limit =>
          by_cases holds : p c = true
          · simp [holds, ih]
          · simp [holds]

theorem startsWithNewline_append (a : List Char) :
    startsWithNewline (a ++ w) = startsWithNewline a := by
  cases a with
  | cons c rest => rfl
  | nil => rcases ends.shape with rfl | ⟨rest, rfl⟩ | ⟨rest, rfl⟩ <;> rfl

theorem startsWithDigit_append (a : List Char) :
    startsWithDigit (a ++ w) = startsWithDigit a := by
  cases a with
  | cons c rest => rfl
  | nil => rcases ends.shape with rfl | ⟨rest, rfl⟩ | ⟨rest, rfl⟩ <;> rfl

theorem any_head?_append {p : Char → Bool} (colon : p ':' = false)
    (semicolon : p ';' = false) (a : List Char) :
    (a ++ w).head?.any p = a.head?.any p := by
  cases a with
  | cons c rest => rfl
  | nil =>
      rcases ends.shape with rfl | ⟨rest, rfl⟩ | ⟨rest, rfl⟩
      · rfl
      · exact colon
      · exact semicolon

theorem head?_append {c : Char} (differs : ¬IsStop c) (a : List Char) :
    (a ++ w).head? = some c ↔ a.head? = some c := by
  cases a with
  | cons d rest => rfl
  | nil =>
      rcases ends.shape with rfl | ⟨rest, rfl⟩ | ⟨rest, rfl⟩
      · rfl
      · simp_all [IsStop, eq_comm]
      · simp_all [IsStop, eq_comm]

theorem newlineLength_append (c : Char) (a : List Char) :
    newlineLength (c :: (a ++ w)) = newlineLength (c :: a) := by
  simp only [newlineLength_cons, ends.head?_append (c := '\n') (by decide)]

private theorem escapeEndLength_append (a : List Char) :
    escapeEndLength (a ++ w) = escapeEndLength a := by
  cases a with
  | nil => rcases ends.shape with rfl | ⟨rest, rfl⟩ | ⟨rest, rfl⟩ <;> rfl
  | cons c rest =>
      simp only [List.cons_append, escapeEndLength, ends.newlineLength_append]

theorem startsName_append (a : List Char) :
    startsName (a ++ w) = startsName a := by
  cases a with
  | nil => rcases ends.shape with rfl | ⟨rest, rfl⟩ | ⟨rest, rfl⟩ <;> rfl
  | cons c rest =>
      by_cases minus : c = '-'
      · subst minus
        cases rest with
        | nil => rcases ends.shape with rfl | ⟨rest, rfl⟩ | ⟨rest, rfl⟩ <;> rfl
        | cons d rest => rfl
      · by_cases escape : c = '\\'
        · subst escape
          exact congrArg (!·) (ends.startsWithNewline_append rest)
        · rw [List.cons_append, startsName_cons minus escape,
            startsName_cons minus escape]

theorem scanPunctuation?_append (c : Char) (a : List Char) :
    scanPunctuation? (c :: (a ++ w)) = scanPunctuation? (c :: a) := by
  cases found : scanPunctuation? (c :: a) with
  | some entry =>
      unfold scanPunctuation? at found
      split at found <;> simp_all [scanPunctuation?]
  | none =>
      cases shown : scanPunctuation? (c :: (a ++ w)) with
      | none => rfl
      | some entry =>
          have ahead {x y : Char} {tail : List Char}
              (same : c :: (a ++ w) = x :: y :: tail) (differs : ¬IsStop y) :
              ∃ rest, c :: a = x :: y :: rest ∧ rest ++ w = tail := by
            obtain ⟨rfl, behind⟩ := List.cons.inj same
            obtain ⟨rest, rfl, left⟩ := ends.eq_cons behind differs
            exact ⟨rest, rfl, left⟩
          unfold scanPunctuation? at shown
          split at shown
          case h_17 => cases shown
          case h_1 same | h_2 same | h_3 same | h_4 same | h_5 same =>
            obtain ⟨_, same, -⟩ := ahead same (by decide)
            rw [same] at found
            cases found
          case h_6 same =>
            obtain ⟨_, same, left⟩ := ahead same (by decide)
            obtain ⟨_, rfl, -⟩ := ends.eq_cons left (by decide)
            rw [same] at found
            cases found
          case h_7 same =>
            obtain ⟨_, same, left⟩ := ahead same (by decide)
            obtain ⟨_, rfl, last⟩ := ends.eq_cons left (by decide)
            obtain ⟨_, rfl, -⟩ := ends.eq_cons last (by decide)
            rw [same] at found
            cases found
          all_goals
            rename_i same
            obtain ⟨rfl, -⟩ := List.cons.inj same
            cases found

theorem startsNumber_append (c : Char) (a : List Char) :
    startsNumber (c :: (a ++ w)) = startsNumber (c :: a) := by
  have behind (b : List Char) : startsWithDigit (dropPoint (b ++ w)) =
      startsWithDigit (dropPoint b) := by
    rw [ends.dropPoint_append, ends.startsWithDigit_append]
  rw [startsNumber_cons, startsNumber_cons, behind]
  exact congrArg _ (behind (c :: a))

theorem scanEscape_append (c : Char) (a : List Char) :
    scanEscape (c :: (a ++ w)) = scanEscape (c :: a) := by
  have digits : ((c :: (a ++ w)).take 6).takeWhile isHexDigit =
      ((c :: a).take 6).takeWhile isHexDigit :=
    ends.takeWhile_take_append rfl rfl 6 (c :: a)
  have within : (((c :: a).take 6).takeWhile isHexDigit).length ≤
      (c :: a).length :=
    Nat.le_trans (List.takeWhile_prefix _).length_le
      (List.take_prefix _ _).length_le
  have behind : (c :: (a ++ w)).drop
      (((c :: a).take 6).takeWhile isHexDigit).length =
        (c :: a).drop (((c :: a).take 6).takeWhile isHexDigit).length ++ w :=
    List.drop_append_of_le_length within
  unfold scanEscape
  simp only [digits, behind, ends.escapeEndLength_append]

theorem scanDigits_append (a : List Char) :
    scanDigits (a ++ w) = scanDigits a := by
  unfold scanDigits
  rw [ends.takeWhile_append rfl rfl]

theorem scanSign_append (a : List Char) : scanSign (a ++ w) = scanSign a := by
  cases a with
  | nil => rcases ends.shape with rfl | ⟨rest, rfl⟩ | ⟨rest, rfl⟩ <;> rfl
  | cons c rest =>
      unfold scanSign
      simp only [List.cons_append]
      split <;> simp_all

theorem scanFraction_append (a : List Char) :
    scanFraction (a ++ w) = scanFraction a := by
  cases a with
  | nil => rcases ends.shape with rfl | ⟨rest, rfl⟩ | ⟨rest, rfl⟩ <;> rfl
  | cons c rest =>
      by_cases point : c = '.'
      · subst point
        simp only [List.cons_append, scanFraction, ends.startsWithDigit_append,
          ends.scanDigits_append]
      · unfold scanFraction
        simp only [List.cons_append]
        split <;> simp_all

theorem scanExponent_append (a : List Char) :
    scanExponent (a ++ w) = scanExponent a := by
  cases a with
  | nil => rcases ends.shape with rfl | ⟨rest, rfl⟩ | ⟨rest, rfl⟩ <;> rfl
  | cons c rest =>
      have unsigned : (rest ++ w).drop (scanSign rest).1.toNat =
          rest.drop (scanSign rest).1.toNat ++ w :=
        List.drop_append_of_le_length (length_scanSign rest)
      simp only [List.cons_append, scanExponent, ends.scanSign_append, unsigned,
        ends.startsWithDigit_append, ends.scanDigits_append]

end EndsAt

/-! ## Ending before a stop -/

/-- Read the unit of a number, or its percent sign. -/
def scanUnit (length : Nat) (share value : Numeral) (input : List Char) :
    Token × Nat :=
  match input with
  | '%' :: _ => (.percentage share, length + 1)
  | _ =>
      if startsName input then
        (.dimension value (scanName input).1, length + (scanName input).2)
      else (.number value, length)

theorem EndsAt.scanNameFrom {w : List Char} (ends : EndsAt w) :
    scanNameFrom 0 w = ([], 0) := by
  rcases ends.shape with rfl | ⟨rest, rfl⟩ | ⟨rest, rfl⟩ <;> rfl

theorem scanEscape_stop {stop : Char} (isStop : IsStop stop)
    (after : List Char) : scanEscape (stop :: after) = (stop, 1) := by
  rcases isStop with rfl | rfl <;> rfl

/-- Read what makes a name a function or a url. -/
def scanOpening (name : String) (length : Nat) (input : List Char) :
    Token × Nat :=
  match input with
  | '(' :: rest =>
      let blanks := (rest.takeWhile isAsciiBlank).length
      let content := rest.drop blanks
      if name.toLower == "url" && !(content.head?.any isQuote) then
        let (token, contentLength) := scanUrl content
        (token, length + 1 + blanks + contentLength)
      else (.function name, length + 1)
  | _ => (.ident name, length)

/-- Read a token that no special character begins. -/
def scanPlain (c : Char) (input : List Char) : Token × Nat :=
  match input with
  | '/' :: '*' :: after =>
      (.comment (String.ofList (scanComment after).1),
        (scanComment after).2 + 2)
  | _ => if startsName input then scanIdentLike input else (.delim c, 1)

theorem scanIdentLike_eq (input : List Char) :
    scanIdentLike input =
      scanOpening (scanName input).1 (scanName input).2
        (input.drop (scanName input).2) :=
  rfl

private theorem length_scanOpening (name : String) (length : Nat)
    (input : List Char) : length ≤ (scanOpening name length input).2 := by
  simp only [scanOpening]
  split
  · split
    · exact Nat.le_trans (Nat.le_add_right _ _)
        (Nat.le_trans (Nat.le_add_right _ _) (Nat.le_add_right _ _))
    · exact Nat.le_succ _
  · exact Nat.le_refl _

theorem exists_drop_append {count : Nat} {a : List Char}
    (short : count ≤ a.length) :
    ∃ rest, rest.length + count = a.length ∧
      ∀ w, (a ++ w).drop count = rest ++ w := by
  exact ⟨a.drop count, by rw [List.length_drop]; omega,
    fun _ => List.drop_append_of_le_length short⟩

section Within

variable {stop : Char} (isStop : IsStop stop) {after w : List Char}
  (ends : EndsAt w)

include isStop ends

/-- A name that ends before a stop is read the same whatever is behind. -/
theorem scanNameFrom_within {skip : Nat} {a : List Char}
    (within : (scanNameFrom skip (a ++ stop :: after)).2 ≤ a.length) :
    scanNameFrom skip (a ++ w) = scanNameFrom skip (a ++ stop :: after) := by
  have stops := isStop.endsAt after
  induction a generalizing skip with
  | nil =>
      cases skip with
      | zero => exact ends.scanNameFrom.trans stops.scanNameFrom.symm
      | succ skip => exact absurd within (Nat.not_succ_le_zero _)
  | cons c rest ih =>
      simp only [List.length_cons, List.cons_append] at within ⊢
      cases skip with
      | succ skip =>
          simp only [scanNameFrom] at within ⊢
          rw [ih (Nat.le_of_succ_le_succ within)]
      | zero =>
          simp only [scanNameFrom, ends.startsWithNewline_append,
            stops.startsWithNewline_append] at within ⊢
          split at within
          case isTrue escape =>
            rw [if_pos escape, if_pos escape]
            split at within
            case isTrue newline => rw [if_pos newline, if_pos newline]
            case isFalse newline =>
              rw [if_neg newline, if_neg newline]
              cases rest with
              | nil =>
                  rw [List.nil_append, scanEscape_stop isStop] at within
                  exact absurd (Nat.le_of_succ_le_succ within)
                    (Nat.not_succ_le_zero _)
              | cons d rest =>
                  simp only [List.cons_append, ends.scanEscape_append,
                    stops.scanEscape_append] at within ⊢
                  rw [← List.cons_append, ← List.cons_append,
                    ih (Nat.le_of_succ_le_succ within)]
          case isFalse escape =>
            rw [if_neg escape, if_neg escape]
            split at within
            case isTrue name =>
              rw [if_pos name, if_pos name, ih (Nat.le_of_succ_le_succ within)]
            case isFalse name => rw [if_neg name, if_neg name]

theorem scanName_within {a : List Char}
    (within : (scanName (a ++ stop :: after)).2 ≤ a.length) :
    scanName (a ++ w) = scanName (a ++ stop :: after) := by
  unfold scanName
  rw [scanNameFrom_within isStop ends within]

omit ends in
theorem scanStringFrom_stop {quote : Char} (quotes : isQuote quote = true)
    (skip : Nat) : 0 < (scanStringFrom quote skip (stop :: after)).2.2 := by
  have differs : (stop == quote) = false := by
    simp only [isQuote, Bool.or_eq_true, beq_iff_eq] at quotes
    rcases isStop with rfl | rfl <;> rcases quotes with rfl | rfl <;> rfl
  have plain : isNewline stop = false ∧ (stop == '\\') = false := by
    rcases isStop with rfl | rfl <;> exact ⟨rfl, rfl⟩
  cases skip with
  | succ skip => exact Nat.succ_pos _
  | zero =>
      simp only [scanStringFrom, differs, plain]
      exact Nat.succ_pos _

private theorem scanStringFrom_within {quote : Char}
    (quotes : isQuote quote = true)
    {skip : Nat} {a : List Char}
    (within : (scanStringFrom quote skip (a ++ stop :: after)).2.2 ≤ a.length) :
    scanStringFrom quote skip (a ++ w) =
      scanStringFrom quote skip (a ++ stop :: after) := by
  have stops := isStop.endsAt after
  induction a generalizing skip with
  | nil =>
      exact absurd within
        (Nat.not_le.mpr (scanStringFrom_stop isStop quotes skip))
  | cons c rest ih =>
      simp only [List.length_cons, List.cons_append] at within ⊢
      cases skip with
      | succ skip =>
          simp only [scanStringFrom] at within ⊢
          rw [ih (Nat.le_of_succ_le_succ within)]
      | zero =>
          simp only [scanStringFrom, ends.startsWithNewline_append,
            stops.startsWithNewline_append] at within ⊢
          split at within
          case isTrue ended => rw [if_pos ended, if_pos ended]
          case isFalse ended =>
          rw [if_neg ended, if_neg ended]
          split at within
          case isTrue newline => rw [if_pos newline, if_pos newline]
          case isFalse newline =>
          rw [if_neg newline, if_neg newline]
          split at within
          case isFalse escape =>
            rw [if_neg escape, if_neg escape,
              ih (Nat.le_of_succ_le_succ within)]
          case isTrue escape =>
            rw [if_pos escape, if_pos escape]
            cases rest with
            | nil =>
                have passes (skip : Nat) :
                    0 < (scanStringFrom quote skip (stop :: after)).2.2 :=
                  scanStringFrom_stop isStop quotes skip
                simp only [List.nil_append, startsWithNewline,
                  List.isEmpty_cons] at within
                exact absurd (Nat.le_of_succ_le_succ within)
                  (Nat.not_le.mpr (passes _))
            | cons d rest =>
                simp only [List.cons_append, List.isEmpty_cons,
                  ends.scanEscape_append, stops.scanEscape_append,
                  ends.newlineLength_append, stops.newlineLength_append,
                  Bool.false_eq_true, if_false] at within ⊢
                rw [← List.cons_append, ← List.cons_append] at *
                split at within
                case isTrue newline =>
                  rw [if_pos newline, if_pos newline,
                    ih (Nat.le_of_succ_le_succ within)]
                case isFalse newline =>
                  rw [if_neg newline, if_neg newline,
                    ih (Nat.le_of_succ_le_succ within)]

theorem scanString_within {quote : Char} (quotes : isQuote quote = true)
    {a : List Char}
    (within : (scanString quote (a ++ stop :: after)).2 ≤ a.length) :
    scanString quote (a ++ w) = scanString quote (a ++ stop :: after) := by
  unfold scanString
  rw [scanStringFrom_within isStop ends quotes within]

private theorem scanComment_within {a : List Char}
    (within : (scanComment (a ++ stop :: after)).2 ≤ a.length) :
    scanComment (a ++ w) = scanComment (a ++ stop :: after) := by
  have stops := isStop.endsAt after
  induction a with
  | nil =>
      rw [List.nil_append, scanComment_cons] at within
      split at within <;> exact absurd within (Nat.not_succ_le_zero _)
  | cons c rest ih =>
      simp only [List.cons_append, scanComment_cons,
        ends.head?_append (c := '/') (by decide),
        stops.head?_append (c := '/') (by decide)] at within ⊢
      split at within
      case isTrue ended => rw [if_pos ended, if_pos ended]
      case isFalse ended =>
        rw [if_neg ended, if_neg ended, ih (Nat.le_of_succ_le_succ within)]

omit ends in
theorem scanUrlEnd_within {a : List Char}
    (within : (scanUrlEnd (a ++ stop :: after)).length ≤ a.length) :
    scanUrlEnd (a ++ w) = scanUrlEnd (a ++ stop :: after) := by
  induction a with
  | nil =>
      rcases isStop with rfl | rfl <;>
        exact absurd within (Nat.not_succ_le_zero _)
  | cons c rest ih =>
      by_cases ended : c = ')'
      · subst ended
        rfl
      · simp only [List.cons_append, scanUrlEnd] at within ⊢
        split at within
        case isTrue blank =>
          rw [if_pos blank, if_pos blank, ih (Nat.le_of_succ_le_succ within)]
        case isFalse blank => rw [if_neg blank, if_neg blank]

omit ends in
theorem scanUrlFrom_stop (skip : Nat) :
    0 < (scanUrlFrom skip (stop :: after)).2.length := by
  cases skip with
  | succ skip => exact Nat.succ_pos _
  | zero => rcases isStop with rfl | rfl <;> exact Nat.succ_pos _

private theorem scanUrlFrom_within {skip : Nat} {a : List Char}
    (within : (scanUrlFrom skip (a ++ stop :: after)).2.length ≤ a.length) :
    scanUrlFrom skip (a ++ w) = scanUrlFrom skip (a ++ stop :: after) := by
  have stops := isStop.endsAt after
  induction a generalizing skip with
  | nil =>
      exact absurd within (Nat.not_le.mpr (scanUrlFrom_stop isStop skip))
  | cons c rest ih =>
      simp only [List.length_cons, List.cons_append] at within ⊢
      cases skip with
      | succ skip =>
          simp only [scanUrlFrom] at within ⊢
          rw [ih (Nat.le_of_succ_le_succ within)]
      | zero =>
          simp only [scanUrlFrom, ends.startsWithNewline_append,
            stops.startsWithNewline_append] at within ⊢
          split at within
          case isTrue ended => rw [if_pos ended, if_pos ended]
          case isFalse ended =>
          rw [if_neg ended, if_neg ended]
          split at within
          case isTrue blank =>
            rw [if_pos blank, if_pos blank,
              scanUrlEnd_within isStop (Nat.le_of_succ_le_succ within)]
          case isFalse blank =>
          rw [if_neg blank, if_neg blank]
          split at within
          case isTrue broken => rw [if_pos broken, if_pos broken]
          case isFalse broken =>
          rw [if_neg broken, if_neg broken]
          split at within
          case isFalse escape =>
            rw [if_neg escape, if_neg escape,
              ih (Nat.le_of_succ_le_succ within)]
          case isTrue escape =>
          rw [if_pos escape, if_pos escape]
          split at within
          case isTrue newline => rw [if_pos newline, if_pos newline]
          case isFalse newline =>
            rw [if_neg newline, if_neg newline]
            cases rest with
            | nil =>
                exact absurd (Nat.le_of_succ_le_succ within)
                  (Nat.not_le.mpr (scanUrlFrom_stop isStop _))
            | cons d rest =>
                simp only [List.cons_append, ends.scanEscape_append,
                  stops.scanEscape_append] at within ⊢
                rw [← List.cons_append, ← List.cons_append,
                  ih (Nat.le_of_succ_le_succ within)]

omit ends in
theorem scanBadUrl_within {a : List Char}
    (within : (scanBadUrl (a ++ stop :: after)).2 ≤ a.length) :
    scanBadUrl (a ++ w) = scanBadUrl (a ++ stop :: after) := by
  have passes : 0 < (scanBadUrl (stop :: after)).2 := by
    rcases isStop with rfl | rfl <;> exact Nat.succ_pos _
  match a with
  | [] => exact absurd within (Nat.not_le.mpr passes)
  | [c] =>
      by_cases ended : c = ')'
      · subst ended
        rfl
      · have escape : ¬(c = '\\' ∧ (stop = ')' ∨ stop = '\\')) := by
          rcases isStop with rfl | rfl <;> simp
        rw [List.cons_append, List.nil_append, scanBadUrl_cons_cons,
          if_neg ended, if_neg escape] at within
        exact absurd (Nat.le_of_succ_le_succ within) (Nat.not_le.mpr passes)
  | c :: d :: rest =>
      simp only [List.cons_append, scanBadUrl_cons_cons] at within ⊢
      split at within
      case isTrue ended => rw [if_pos ended, if_pos ended]
      case isFalse ended =>
      rw [if_neg ended, if_neg ended]
      split at within
      case isTrue escape =>
        rw [if_pos escape, if_pos escape,
          scanBadUrl_within (Nat.le_of_add_le_add_right within)]
      case isFalse escape =>
        rw [← List.cons_append] at within
        rw [if_neg escape, if_neg escape, ← List.cons_append, ← List.cons_append,
          scanBadUrl_within (Nat.le_of_succ_le_succ within)]
termination_by a.length

theorem scanUrl_within {a : List Char}
    (within : (scanUrl (a ++ stop :: after)).2 ≤ a.length) :
    scanUrl (a ++ w) = scanUrl (a ++ stop :: after) := by
  have short : (scanUrlFrom 0 (a ++ stop :: after)).2.length ≤ a.length := by
    simp only [scanUrl] at within
    by_cases broken : (scanUrlFrom 0 (a ++ stop :: after)).2.broken = true
    · rw [if_pos broken] at within
      exact Nat.le_trans (Nat.le_add_right _ _) within
    · rw [if_neg broken] at within
      exact within
  have content := scanUrlFrom_within isStop ends short
  obtain ⟨rest, total, behind⟩ := exists_drop_append short
  have before (v : List Char) :
      (a ++ v).take (scanUrlFrom 0 (a ++ stop :: after)).2.length =
        a.take (scanUrlFrom 0 (a ++ stop :: after)).2.length :=
    List.take_append_of_le_length short
  unfold scanUrl at within ⊢
  simp only [content, behind, before] at within ⊢
  split at within
  case isFalse whole => rw [if_neg whole, if_neg whole]
  case isTrue broken =>
    rw [if_pos broken, if_pos broken, scanBadUrl_within isStop]
    omega

/-- A name that makes a number a dimension, or a percent sign. -/
theorem scanUnit_within {length : Nat} {share value : Numeral} {a : List Char}
    (within : (scanUnit length share value (a ++ stop :: after)).2 ≤
      length + a.length) :
    scanUnit length share value (a ++ w) =
      scanUnit length share value (a ++ stop :: after) := by
  have stops := isStop.endsAt after
  have named (v : List Char) (ends : EndsAt v) (percent : a.head? ≠ some '%') :
      scanUnit length share value (a ++ v) =
        if startsName a then
          (.dimension value (scanName (a ++ v)).1,
            length + (scanName (a ++ v)).2)
        else (.number value, length) := by
    rw [← ends.startsName_append a, scanUnit.eq_2]
    intro rest same
    rw [Ne, ← ends.head?_append (by decide), same] at percent
    exact percent rfl
  by_cases percent : a.head? = some '%'
  · obtain ⟨rest, rfl⟩ : ∃ rest, a = '%' :: rest := by
      cases a <;> simp_all
    rfl
  · rw [named _ stops percent] at within
    rw [named _ stops percent, named w ends percent]
    split at within
    case isTrue name =>
      rw [if_pos name, if_pos name,
        scanName_within isStop ends (Nat.le_of_add_le_add_left within)]
    case isFalse name => rw [if_neg name, if_neg name]

/-- So are a number with its unit, a name with what makes it a function, a
number sign or an at sign with the name behind it, and every other token. -/
theorem scanNumeric_within {a : List Char}
    (within : (scanNumeric (a ++ stop :: after)).2 ≤ a.length) :
    scanNumeric (a ++ w) = scanNumeric (a ++ stop :: after) := by
  have stops := isStop.endsAt after
  obtain ⟨unsigned, signed, sign⟩ := exists_drop_append (length_scanSign a)
  obtain ⟨afterIntegral, counted, integral⟩ :=
    exists_drop_append (length_scanDigits unsigned)
  obtain ⟨afterFraction, divided, fraction⟩ :=
    exists_drop_append (length_scanFraction afterIntegral)
  obtain ⟨rest, scaled, exponent⟩ :=
    exists_drop_append (length_scanExponent afterFraction)
  simp only [scanNumeric, ends.scanSign_append, stops.scanSign_append, sign,
    ends.scanDigits_append, stops.scanDigits_append, integral,
    ends.scanFraction_append, stops.scanFraction_append, fraction,
    ends.scanExponent_append, stops.scanExponent_append, exponent] at within ⊢
  change (scanUnit _ _ _ (_ ++ stop :: after)).2 ≤ _ at within
  change scanUnit _ _ _ (_ ++ w) = scanUnit _ _ _ (_ ++ stop :: after)
  refine scanUnit_within isStop ends (Nat.le_trans within ?_)
  omega

private theorem scanOpening_within {name : String} {length : Nat}
    {a : List Char}
    (within : (scanOpening name length (a ++ stop :: after)).2 ≤
      length + a.length) :
    scanOpening name length (a ++ w) =
      scanOpening name length (a ++ stop :: after) := by
  have stops := isStop.endsAt after
  by_cases opens : a.head? = some '('
  · obtain ⟨rest, rfl⟩ : ∃ rest, a = '(' :: rest := by
      cases a <;> simp_all
    obtain ⟨content, total, behind⟩ := exists_drop_append
      (List.takeWhile_prefix isAsciiBlank (l := rest)).length_le
    simp only [List.cons_append, scanOpening,
      ends.takeWhile_append (p := isAsciiBlank) rfl rfl,
      stops.takeWhile_append (p := isAsciiBlank) rfl rfl, behind,
      ends.any_head?_append (p := isQuote) rfl rfl,
      stops.any_head?_append (p := isQuote) rfl rfl] at within ⊢
    split at within
    case isFalse function => rw [if_neg function, if_neg function]
    case isTrue url =>
      rw [if_pos url, if_pos url, scanUrl_within isStop ends]
      simp only [List.length_cons] at within
      omega
  · have plain (v : List Char) (ends : EndsAt v) :
        scanOpening name length (a ++ v) = (.ident name, length) := by
      rw [scanOpening.eq_2]
      intro rest same
      rw [← ends.head?_append (by decide), same] at opens
      exact opens rfl
    rw [plain w ends, plain _ stops]

private theorem scanIdentLike_within {a : List Char}
    (within : (scanIdentLike (a ++ stop :: after)).2 ≤ a.length) :
    scanIdentLike (a ++ w) = scanIdentLike (a ++ stop :: after) := by
  have short : (scanName (a ++ stop :: after)).2 ≤ a.length :=
    Nat.le_trans (length_scanOpening _ _ _) within
  obtain ⟨rest, total, behind⟩ := exists_drop_append short
  rw [scanIdentLike_eq, behind] at within
  rw [scanIdentLike_eq, scanIdentLike_eq, scanName_within isStop ends short,
    behind, behind, scanOpening_within isStop ends]
  omega

/-- A number sign or an at sign with the name behind it. -/
theorem scanSigil_within {symbol : Char} {a : List Char}
    (within : (scanSigil symbol (a ++ stop :: after)).2 ≤ a.length + 1) :
    scanSigil symbol (a ++ w) = scanSigil symbol (a ++ stop :: after) := by
  have stops := isStop.endsAt after
  have minus {v : List Char} (ends : EndsAt v) :
      ((a ++ v).head? == some '-') = (a.head? == some '-') := by
    rw [Bool.eq_iff_iff, beq_iff_eq, beq_iff_eq]
    exact ends.head?_append (by decide) a
  simp only [scanSigil, ends.startsName_append, stops.startsName_append,
    ends.startsWithDigit_append, stops.startsWithDigit_append, minus ends,
    minus stops] at within ⊢
  split at within
  case isTrue name =>
    rw [if_pos name, if_pos name,
      scanName_within isStop ends (Nat.le_of_succ_le_succ within)]
  case isFalse name =>
  rw [if_neg name, if_neg name]
  split at within
  case isTrue name =>
    rw [if_pos name, if_pos name,
      scanName_within isStop ends (Nat.le_of_succ_le_succ within)]
  case isFalse name => rw [if_neg name, if_neg name]

/-- A comment, a name or one character that begins nothing else. -/
theorem scanPlain_within {c : Char} {a : List Char}
    (within : (scanPlain c (c :: a ++ stop :: after)).2 ≤ a.length + 1) :
    scanPlain c (c :: a ++ w) = scanPlain c (c :: a ++ stop :: after) := by
  have stops := isStop.endsAt after
  by_cases comment : c = '/' ∧ a.head? = some '*'
  · obtain ⟨rfl, opens⟩ := comment
    obtain ⟨rest, rfl⟩ : ∃ rest, a = '*' :: rest := by
      cases a <;> simp_all
    simp only [List.cons_append, scanPlain] at within ⊢
    rw [scanComment_within isStop ends (Nat.le_of_add_le_add_right within)]
  · have plain (v : List Char) (ends : EndsAt v) :
        scanPlain c (c :: a ++ v) =
          if startsName (c :: a) then scanIdentLike (c :: a ++ v)
          else (.delim c, 1) := by
      rw [← ends.startsName_append (c :: a), scanPlain.eq_2]
      intro rest same
      rw [List.cons_append] at same
      obtain ⟨rfl, behind⟩ := List.cons.inj same
      rw [← ends.head?_append (by decide), behind] at comment
      exact comment ⟨rfl, rfl⟩
    rw [plain _ stops] at within
    rw [plain w ends, plain _ stops]
    split at within
    case isTrue name =>
      rw [if_pos name, if_pos name, scanIdentLike_within isStop ends within]
    case isFalse name => rw [if_neg name, if_neg name]

/-- A token that ends before a stop is the same whatever is behind. -/
theorem scanToken_within {c : Char} {a : List Char}
    (within : (scanToken c (a ++ stop :: after)).2 ≤ a.length + 1) :
    scanToken c (a ++ w) = scanToken c (a ++ stop :: after) := by
  have stops := isStop.endsAt after
  simp only [scanToken] at within ⊢
  split at within
  case isTrue blank =>
    rw [if_pos blank, if_pos blank]
    simp only [← List.cons_append,
      ends.takeWhile_append (p := isAsciiBlank) rfl rfl,
      stops.takeWhile_append (p := isAsciiBlank) rfl rfl]
  case isFalse blank =>
  rw [if_neg blank, if_neg blank]
  split at within
  case isTrue quotes =>
    rw [if_pos quotes, if_pos quotes,
      scanString_within isStop ends quotes (Nat.le_of_succ_le_succ within)]
  case isFalse quotes =>
  rw [if_neg quotes, if_neg quotes]
  split at within
  case isTrue sigil =>
    rw [if_pos sigil, if_pos sigil, scanSigil_within isStop ends within]
  case isFalse sigil =>
  rw [if_neg sigil, if_neg sigil]
  rw [stops.startsNumber_append] at within
  rw [stops.startsNumber_append, ends.startsNumber_append]
  split at within
  case isTrue number =>
    rw [if_pos number, if_pos number]
    exact scanNumeric_within isStop ends (a := c :: a) within
  case isFalse number =>
  rw [if_neg number, if_neg number]
  rw [stops.scanPunctuation?_append] at within
  rw [stops.scanPunctuation?_append, ends.scanPunctuation?_append]
  cases found : scanPunctuation? (c :: a) with
  | some entry => rfl
  | none =>
      simp only [found] at within ⊢
      change (scanPlain c (c :: a ++ stop :: after)).2 ≤ _ at within
      change scanPlain c (c :: a ++ w) = scanPlain c (c :: a ++ stop :: after)
      exact scanPlain_within isStop ends within

end Within

end LiveTemplate.Css
