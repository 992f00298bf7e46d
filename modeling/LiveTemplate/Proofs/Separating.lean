import LiveTemplate.Proofs.Continuing

/-!
# Declarations apart from a style

A declaration behind a style is read as such only where a statement begins.  A
name as long as no style is put there, and found again: what is in front of it
is the beginning of the text or a semicolon, and passed over behind that.  Since
a style is kept up to a semicolon and the blanks behind it, nothing else can
have been passed over than ASCII blanks.
-/

namespace LiveTemplate.Css

open Component

/-- A character that may be read for a name without being in it. -/
def isSwallowed (c : Char) : Bool :=
  isHexDigit c || isAsciiBlank c || c == '\\' || c == '\x00'

theorem mem_escapeEnd {c : Char} {input : List Char}
    (member : c ∈ input.take (escapeEndLength input)) :
    isAsciiBlank c = true := by
  have newline {d : Char} (isNewline : isNewline d = true) :
      isAsciiBlank d = true := by
    simp only [LiveTemplate.Css.isNewline, Bool.or_eq_true, beq_iff_eq]
      at isNewline
    obtain (rfl | rfl) | rfl := isNewline <;> rfl
  cases input with
  | nil => cases member
  | cons first rest =>
      simp only [escapeEndLength] at member
      split at member
      case isTrue isNewline =>
        unfold newlineLength at member
        split at member
        case h_1 same =>
          obtain ⟨rfl, rfl⟩ := List.cons.inj same
          obtain rfl | rfl : c = '\r' ∨ c = '\n' := by simpa using member
          · rfl
          · rfl
        case h_2 =>
          simp only [List.take_succ_cons, List.take_zero,
            List.mem_singleton] at member
          subst member
          exact newline isNewline
        case h_3 => cases member
      case isFalse =>
        split at member
        case isTrue space =>
          simp only [List.take_succ_cons, List.take_zero,
            List.mem_singleton] at member
          subst member
          simp only [Bool.or_eq_true, beq_iff_eq] at space
          obtain rfl | rfl := space <;> rfl
        case isFalse => cases member

private theorem mem_scanEscape {c : Char} (lasts : isSwallowed c = false)
    {input : List Char} (member : c ∈ input.take (scanEscape input).2) :
    c = (scanEscape input).1 := by
  simp only [isSwallowed, Bool.or_eq_false_iff, beq_eq_false_iff_ne] at lasts
  obtain ⟨⟨⟨digit, blank⟩, -⟩, null⟩ := lasts
  cases input with
  | nil => cases member
  | cons first rest =>
      by_cases hex : isHexDigit first = true
      · simp only [scanEscape, hex, if_true] at member ⊢
        have front : ((first :: rest).take 6).takeWhile isHexDigit <+:
            first :: rest :=
          (List.takeWhile_prefix _).trans (List.take_prefix _ _)
        have digits (d : Char)
            (among : d ∈ ((first :: rest).take 6).takeWhile isHexDigit) :
            isHexDigit d = true := List.mem_takeWhile_imp among
        generalize ((first :: rest).take 6).takeWhile isHexDigit = read
          at front member digits
        obtain ⟨behind, whole⟩ := front
        rw [← whole, List.drop_left, List.take_length_add_append,
          List.mem_append] at member
        obtain among | ended := member
        · rw [digits c among] at digit
          cases digit
        · rw [mem_escapeEnd ended] at blank
          cases blank
      · by_cases isNull : (first == '\x00') = true
        · simp only [scanEscape, hex, isNull, Bool.false_eq_true, if_false,
            if_true, List.take_succ_cons, List.take_zero,
            List.mem_singleton] at member
          rw [member] at null
          exact absurd (beq_iff_eq.mp isNull) null
        · simpa [scanEscape, hex, isNull] using member

theorem mem_scanNameFrom {c : Char} (lasts : isSwallowed c = false)
    {input : List Char}
    (member : c ∈ input.take (scanNameFrom 0 input).2) :
    c ∈ (scanNameFrom 0 input).1 := by
  match input with
  | [] => cases member
  | first :: rest =>
      have other : c ≠ '\\' ∧ c ≠ '\x00' := by
        simp only [isSwallowed, Bool.or_eq_false_iff,
          beq_eq_false_iff_ne] at lasts
        exact ⟨lasts.1.2, lasts.2⟩
      obtain ⟨rfl, escapes⟩ | isName | ends := scanNameFrom_cases first rest
      · obtain ⟨name, taken, -⟩ := scanNameFrom_skip (scanEscape rest).2 rest
        rw [scanNameFrom_escape escapes, List.take_succ_cons, taken,
          List.mem_cons, List.mem_append] at member
        rw [scanNameFrom_escape escapes, name, List.mem_cons]
        obtain same | escaped | later := member
        · exact absurd same other.1
        · exact .inl (mem_scanEscape lasts escaped)
        · exact .inr (mem_scanNameFrom lasts later)
      · rw [scanNameFrom_cons isName, List.take_succ_cons,
          List.mem_cons] at member
        rw [scanNameFrom_cons isName, List.mem_cons]
        obtain rfl | later := member
        · exact .inl (by simp [shown, other.2])
        · exact .inr (mem_scanNameFrom lasts later)
      · simp [ends] at member
termination_by input.length

/-- A name is no longer than its text. -/
theorem length_scanNameFrom (skip : Nat) (input : List Char) :
    (scanNameFrom skip input).1.length ≤
      (input.take (scanNameFrom skip input).2).length := by
  induction input generalizing skip with
  | nil => simp [scanNameFrom]
  | cons c rest ih =>
      cases skip with
      | succ skip => exact Nat.le_succ_of_le (ih skip)
      | zero =>
          have here := fun skip => Nat.succ_le_succ (ih skip)
          unfold scanNameFrom
          split
          · split
            · exact Nat.le_refl 0
            · exact here _
          · split
            · exact here _
            · exact Nat.le_refl 0

private theorem exists_slash_of_scanComment {input : List Char}
    (goesOn : input.drop (scanComment input).2 ≠ []) :
    ∃ front, input.take (scanComment input).2 = front ++ ['/'] := by
  induction input with
  | nil => exact absurd rfl goesOn
  | cons c rest ih =>
      rw [scanComment_cons] at goesOn ⊢
      split at goesOn
      case isTrue ended =>
        rw [if_pos ended]
        obtain ⟨rfl, slash⟩ := ended
        obtain ⟨tail, rfl⟩ := List.head?_eq_some_iff.mp slash
        exact ⟨['*'], rfl⟩
      case isFalse open' =>
        rw [if_neg open']
        obtain ⟨front, whole⟩ := ih goesOn
        exact ⟨c :: front, by rw [List.take_succ_cons, whole]; rfl⟩

/-- A text that ends with a slash or a closing brace. -/
def EndsClosed (text : List Char) : Prop :=
  ∃ front last, text = front ++ [last] ∧ (last = '/' ∨ last = '\x7d')

theorem EndsClosed.append {text : List Char} (closed : EndsClosed text)
    (before : List Char) : EndsClosed (before ++ text) := by
  obtain ⟨front, last, rfl, closes⟩ := closed
  exact ⟨before ++ front, last, by rw [List.append_assoc], closes⟩

private theorem Token.closer?_of_isFiller {token : Token}
    (filler : token.isFiller = true) : token.closer? = none := by
  cases token <;> first | rfl | cases filler

theorem Lexeme.endsClosed {lexeme : Lexeme} {rest : List Char}
    (read : lexemesFrom 0 (lexeme.source.toList ++ rest) =
      lexeme :: lexemesFrom 0 rest)
    (goesOn : rest ≠ [])
    (passed : lexeme.token.isFiller = true ∨ lexeme.token = .braceClose) :
    lexeme.token.isFiller = true ∧
        (∀ c ∈ lexeme.source.toList, isAsciiBlank c = true) ∨
      EndsClosed lexeme.source.toList := by
  obtain ⟨token, source⟩ := lexeme
  dsimp only at read passed ⊢
  have mark : token.isMark = true := by
    obtain filler | rfl := passed
    · cases token <;> first | rfl | cases filler
    · rfl
  generalize whole : source.toList ++ rest = input at read
  cases input with
  | nil => cases read
  | cons c tail =>
      rw [lexemesFrom_cons] at read
      obtain ⟨same, -⟩ := List.cons.inj read
      obtain ⟨rfl, text⟩ := Lexeme.mk.inj same
      have chars := congrArg String.toList text
      rw [String.toList_ofList] at chars
      have behind : tail.drop ((scanToken c tail).2 - 1) = rest := by
        rw [← chars, List.cons_append, List.cons.injEq] at whole
        refine List.append_cancel_left (Eq.trans ?_ whole.2.symm)
        exact List.take_append_drop _ _
      rw [← chars]
      have scans := scanToken_mark c tail mark
      have blank (content : String) :
          (scanToken c tail).1 = .blank content → _ := isAsciiBlank_of_scanToken
      generalize scanToken c tail = scanned at scans passed behind blank
      cases scans with
      | blank => exact .inl ⟨rfl, blank _ rfl⟩
      | comment after opens =>
          obtain ⟨rfl, rfl⟩ := List.cons.inj opens
          have cut : (scanComment after).2 + 2 - 1 =
              (scanComment after).2 + 1 := rfl
          rw [cut, List.drop_succ_cons] at behind
          rw [cut, List.take_succ_cons]
          obtain ⟨front, ends⟩ :=
            exists_slash_of_scanComment (behind ▸ goesOn)
          exact .inr ⟨'/' :: '*' :: front, '/', by rw [ends]; rfl, .inl rfl⟩
      | braceClose first => exact .inr ⟨[], c, rfl, .inr first⟩
      | ident => obtain none | none := passed <;> cases none
      | colon => obtain none | none := passed <;> cases none
      | semicolon => obtain none | none := passed <;> cases none

namespace Declarations

/-- The last component that is passed over is filler, or a block of braces that
ends an at-rule. -/
theorem statement_init {inAtRule : Bool} {before behind : List Component}
    {passed component : Component}
    (begins : statement inAtRule (before ++ passed :: component :: behind) =
      component :: behind) :
    passed.isFiller = true ∧
        statement inAtRule (before ++ component :: behind) =
          component :: behind ∨
      passed.token = .braceOpen := by
  induction before generalizing inAtRule with
  | nil =>
      rw [List.nil_append] at begins ⊢
      obtain ⟨still, passes, kind⟩ | stays := statement_cons inAtRule passed
      · rw [passes] at begins
        obtain rfl | brace | ⟨rfl, filler⟩ := kind
        · -- An at-rule passes over the component, too.
          rw [statement, if_pos rfl] at begins
          exact absurd begins (statement_ne_cons _ _ _)
        · exact .inr brace
        · exact .inl ⟨filler, begins⟩
      · rw [stays] at begins
        exact absurd begins (cons_append_ne passed [] _)
  | cons first before ih =>
      rw [List.cons_append] at begins ⊢
      obtain ⟨still, passes, -⟩ | stays := statement_cons inAtRule first
      · rw [passes] at begins ⊢
        exact ih begins
      · rw [stays, List.append_cons] at begins
        exact absurd begins (cons_append_ne first _ _)

/-- Behind what is passed over there are only ASCII blanks, and it begins the
text or ends with a slash or a closing brace. -/
theorem PassedOver.exists_blanks {text : List Char}
    {before behind : List Component} {next : Component}
    (passed : PassedOver before)
    (split : components text = before ++ next :: behind) :
    ∃ body blanks, (sources before).toList = body ++ blanks ∧
      (∀ c ∈ blanks, isAsciiBlank c = true) ∧
      (body = [] ∨ EndsClosed body) := by
  induction before using List.reverseRecOn generalizing next behind with
  | nil => exact ⟨[], [], rfl, nofun, .inl rfl⟩
  | append_singleton before component ih =>
      rw [List.append_assoc, List.singleton_append] at split
      obtain ⟨front, lexeme, rest, -, goesOn, read, source, last⟩ :=
        exists_last_lexeme split
      obtain ⟨first, tail, begins⟩ := passed
      rw [List.append_assoc, List.singleton_append] at begins
      rw [source]
      have closed (ends : EndsClosed lexeme.source.toList) :
          ∃ body blanks, front ++ lexeme.source.toList = body ++ blanks ∧
            (∀ c ∈ blanks, isAsciiBlank c = true) ∧
            (body = [] ∨ EndsClosed body) :=
        ⟨_, [], (List.append_nil _).symm, nofun, .inr (ends.append front)⟩
      obtain ⟨filler, still⟩ | brace := statement_init begins
      · have isLeaf : component = leaf lexeme := by
          refine (last.resolve_right fun closes => ?_).1
          rw [Token.closer?_of_isFiller filler] at closes
          cases closes
        subst isLeaf
        rw [sources_append, sources_leaf, String.toList_append] at source
        obtain ⟨-, blank⟩ | ends := lexeme.endsClosed read goesOn (.inl filler)
        · obtain ⟨body, blanks, whole, others, ends⟩ :=
            ih ⟨first, tail, still⟩ split
          rw [List.append_cancel_right source] at whole
          refine ⟨body, blanks ++ lexeme.source.toList, ?_, ?_, ends⟩
          · rw [whole, List.append_assoc]
          · intro c member
            exact (List.mem_append.mp member).elim (others c) (blank c)
        · exact closed ends
      · have closes : lexeme.token = .braceClose := by
          obtain ⟨rfl, single⟩ | closes := last
          · rw [show lexeme.token = .braceOpen from brace] at single
            cases single
          · rw [brace] at closes
            exact (Option.some.inj closes).symm
        obtain ⟨filler, -⟩ | ends :=
          lexeme.endsClosed read goesOn (.inr closes)
        · rw [closes] at filler
          cases filler
        · exact closed ends

/-- A text that ends with a semicolon, or none, and blanks behind it. -/
def IsKept (text : List Char) : Prop :=
  ∃ body blanks, text = body ++ blanks ∧ (∀ c ∈ blanks, isBlank c = true) ∧
    (body = [] ∨ ∃ front, body = front ++ [';'])

private theorem isKept_keptText (style : String) {space : List Char}
    (blank : ∀ c ∈ space, isBlank c = true) :
    IsKept ((Blueprint.keptText "style" style).toList ++ space) := by
  obtain ⟨same, ends⟩ | closed := keptText_cases style
  · obtain ⟨blanks, blank', whole⟩ := exists_trimBlankEnd style
    refine ⟨(trimBlankEnd style).toList, blanks ++ space, ?_, ?_, ?_⟩
    · rw [same, ← List.append_assoc, ← whole]
    · intro c member
      exact (List.mem_append.mp member).elim (blank' c) (blank c)
    · obtain none | ⟨body, ends⟩ := ends
      · exact .inl (by rw [none]; rfl)
      · exact .inr ⟨body, ends⟩
  · refine ⟨_, space, rfl, blank, .inr ⟨(trimBlankEnd style).toList, ?_⟩⟩
    rw [closed, String.toList_append]
    rfl

/-- What is longer than a text and than the rest behind a colon, and has no
colon in it, begins in the text or right behind it. -/
theorem exists_of_long {text source before tail : List Char} {n : Nat}
    (long : n ≤ source.length) (longer : text.length + 2 < n)
    (noColon : ':' ∉ source)
    (split : text ++ (List.replicate n 'z' ++ [':', ' ', 'y']) =
      before ++ (source ++ tail)) :
    ∃ first last, text = before ++ first ∧ source = first ++ last := by
  obtain ⟨more, rfl, behind⟩ | ⟨more, rfl, behind⟩ :=
    List.append_eq_append_iff.mp split
  · -- The colon would stand in what begins behind the text.
    cases more with
    | nil => exact ⟨[], source, by simp, rfl⟩
    | cons c more =>
        have total := congrArg List.length behind
        have there := congrArg (·[n]?) behind
        simp only [List.length_append, List.length_replicate, List.length_cons,
          List.length_nil] at total
        rw [List.getElem?_append_right (by simp),
          List.getElem?_append_right (by simp; omega),
          List.getElem?_append_left (by simp; omega)] at there
        simp only [List.length_replicate, Nat.sub_self,
          List.getElem?_cons_zero] at there
        exact absurd (List.mem_of_getElem? there.symm) noColon
  · obtain ⟨rest, rfl, -⟩ | ⟨rest, rfl, -⟩ := List.append_eq_append_iff.mp behind
    · simp only [List.length_append] at longer long
      omega
    · exact ⟨more, rest, rfl, rfl⟩

theorem mem_of_append_eq_concat {front before behind : List Char} {c last : Char}
    (same : before ++ c :: behind = front ++ [last]) : last ∈ c :: behind := by
  have ends := congrArg List.getLast? same
  rw [List.getLast?_concat, List.getLast?_append_cons] at ends
  exact List.mem_of_getLast? ends

/-- What begins in the blanks behind a text begins with a blank, or has a
semicolon in it. -/
theorem IsKept.eq_nil {text before source first last : List Char}
    (kept : IsKept text) (split : text = before ++ first)
    (whole : source = first ++ last) (noSemicolon : ';' ∉ source)
    (visible : ∀ c ∈ source.head?, isBlank c = false) : first = [] := by
  cases first with
  | nil => rfl
  | cons c first =>
      have seen : isBlank c = false := visible c (by rw [whole]; rfl)
      obtain ⟨body, blanks, rfl, blank, ends⟩ := kept
      obtain ⟨behind, rfl, rfl⟩ := (append_blanks_eq_iff blank seen).mp split
      obtain none | ⟨front, ends⟩ := ends
      · simp at none
      · refine absurd ?_ noSemicolon
        rw [whole, List.cons_append, List.append_assoc, ← List.cons_append]
        exact List.mem_append_left _ (mem_of_append_eq_concat ends)

/-- A name of that many letters. -/
def longName (n : Nat) : String :=
  String.ofList (List.replicate n 'z')

theorem parse_longName {n : Nat} (some : 0 < n) :
    parse (longName n ++ ": y") = ⟨[(longName n, "y")]⟩ := by
  have plain : IsPlainName (longName n).toList := by
    obtain ⟨n, rfl⟩ := Nat.exists_eq_succ_of_ne_zero
      (Nat.pos_iff_ne_zero.mp some)
    rw [longName, String.toList_ofList]
    refine ⟨by cases n <;> rfl, fun c member => ?_, fun member => ?_⟩
    · rw [List.eq_of_mem_replicate member]
      rfl
    · exact absurd (List.eq_of_mem_replicate member) (by decide)
  have single : IsStatement [' ', 'y'] := by
    unfold IsStatement
    decide +kernel
  have text : (longName n ++ ": y").toList =
      (longName n).toList ++ ':' :: [' ', 'y'] := by simp
  have value : trimBlank (String.ofList [' ', 'y']) = "y" := by decide
  rw [parse_eq, written_eq, text,
    (isStatement_named plain single).writtenIn, declaration?_named plain,
    value]
  rfl

/-- The text of a long name is as long, has neither a colon nor a semicolon in
it and does not begin with a blank. -/
theorem long_name {n : Nat} {source : String} {next : List Char}
    (read : lexemesFrom 0 (source.toList ++ next) =
      ⟨.ident (longName n), source⟩ :: lexemesFrom 0 next) :
    n ≤ source.toList.length ∧ ':' ∉ source.toList ∧ ';' ∉ source.toList ∧
      ∀ c ∈ source.toList.head?, isBlank c = false := by
  obtain ⟨starts, name, taken, -⟩ := scanNameFrom_of_ident read
  rw [longName, String.toList_ofList] at name
  have only {c : Char} (lasts : isSwallowed c = false)
      (member : c ∈ source.toList) : c = 'z' := by
    have inside := mem_scanNameFrom lasts (taken.symm ▸ member)
    rw [name] at inside
    exact List.eq_of_mem_replicate inside
  refine ⟨?_, fun colon => ?_, fun semicolon => ?_, ?_⟩
  · have long := length_scanNameFrom 0 (source.toList ++ next)
    rwa [name, taken, List.length_replicate] at long
  · exact absurd (only (by decide) colon) (by decide)
  · exact absurd (only (by decide) semicolon) (by decide)
  · intro c first
    obtain ⟨rest, whole⟩ := List.head?_eq_some_iff.mp first
    rw [whole, List.cons_append] at starts name
    rw [Bool.eq_false_iff]
    intro blank
    have foreign : c ≠ '-' ∧ c ≠ '\\' ∧ c ≠ '\x00' ∧ c ≠ 'z' := by
      refine ⟨?_, ?_, ?_, ?_⟩ <;> rintro rfl <;> exact absurd blank (by decide)
    obtain ⟨minus, escape, null, other⟩ := foreign
    rw [startsName_cons minus escape] at starts
    have here : shown c ∈ List.replicate n 'z' := by
      rw [← name]
      simp [scanNameFrom, escape, isNameChar, starts, shown]
    have same := List.eq_of_mem_replicate here
    simp only [shown, beq_iff_eq, null, if_false] at same
    exact other same

theorem IsKept.ended {text space before passed : List Char}
    (kept : IsKept (text ++ space))
    (blank : ∀ c ∈ space, isBlank c = true)
    (split : text ++ space = before ++ passed)
    (ahead : before = [] ∨ ∃ front, before = front ++ [';'] ∧ Settled front)
    (shape : ∃ body blanks, passed = body ++ blanks ∧
      (∀ c ∈ blanks, isAsciiBlank c = true) ∧
      (body = [] ∨ EndsClosed body)) : Ended text := by
  obtain ⟨body, blanks, rfl, asciiBlank, rfl | closed⟩ := shape
  · rw [List.nil_append] at split
    obtain rfl | ⟨front, rfl, settled⟩ := ahead
    · refine .inl fun c member => asciiBlank c ?_
      rw [List.nil_append] at split
      exact split ▸ List.mem_append_left _ member
    · rw [List.append_assoc, List.singleton_append] at split
      obtain ⟨behind, rfl, rfl⟩ :=
        (append_blanks_eq_iff blank (by decide)).mp split
      exact .inr ⟨front, behind, rfl, settled, fun c member =>
        asciiBlank c (List.mem_append_left _ member)⟩
  · exfalso
    obtain ⟨front, last, rfl, closes⟩ := closed
    obtain ⟨other, others, whole, blank', ends⟩ := kept
    rw [whole, List.append_assoc, List.singleton_append,
      ← List.append_assoc] at split
    have visible : isBlank last = false := by
      obtain rfl | rfl := closes <;> decide
    obtain ⟨behind, rfl, rfl⟩ :=
      (append_blanks_eq_iff blank' visible).mp split
    obtain none | ⟨front, ends⟩ := ends
    · simp at none
    · obtain same | member := List.mem_cons.mp (mem_of_append_eq_concat ends)
      · subst same
        exact absurd closes (by decide)
      · exact absurd (asciiBlank ';' (List.mem_append_left _ member)) (by decide)

theorem ended_of_parse_extendedStyle {style : String}
    (apart : ∀ added, added ≠ "" → parse (extendedStyle style added) =
      (parse style).setAll (parse added).entries) :
    Ended (Blueprint.keptText "style" style).toList := by
  generalize size : (Blueprint.keptText "style" style).toList.length + 4 = n
  have there : longName n ++ ": y" ≠ "" := by simp
  have found : (parse (extendedStyle style (longName n ++ ": y"))).get?
      (longName n) = some "y" := by
    rw [apart _ there, parse_longName (by omega)]
    exact (get?_set _ _ _ _).trans (if_pos rfl)
  have member := mem_written_of_get? found
  obtain ⟨space, either, whole⟩ := toList_extendedStyle style there
  have blank : ∀ c ∈ space, isBlank c = true := by
    obtain rfl | rfl := either
    · exact nofun
    · intro c member
      rw [List.mem_singleton.mp member]
      rfl
  have short : space.length ≤ 1 := by
    obtain rfl | rfl := either <;> simp
  rw [written_eq, whole] at member
  obtain ⟨before, a, behind, split, declared, ahead⟩ :=
    exists_of_mem_writtenIn member
  obtain ⟨passed, others, source, filler, rest, shape, skipped, rfl, read, -⟩ :=
    exists_of_declaration? declared
  obtain ⟨size', noColon, noSemicolon, visible⟩ := long_name read
  have kept := isKept_keptText style blank
  have total : (Blueprint.keptText "style" style).toList ++ space ++
      (List.replicate n 'z' ++ [':', ' ', 'y']) =
        (before ++ (sources passed).toList) ++
          (source.toList ++ ((filler ++ ':' :: rest) ++ behind)) := by
    simp only [List.append_assoc] at split ⊢
    rw [← split]
    simp [longName]
  obtain ⟨first, last, cut, begins⟩ := exists_of_long size'
    (by simp only [List.length_append]; omega) noColon total
  have none := kept.eq_nil cut begins noSemicolon visible
  rw [none, List.append_nil] at cut
  exact kept.ended blank cut ahead (skipped.exists_blanks shape)

end Declarations

end LiveTemplate.Css
