import LiveTemplate.Css.Component
import LiveTemplate.Proofs.Scanning

/-!
# Texts that stand on their own

The lexemes of a text put together are the text, and so are its components.
Where a colon or a semicolon stands outside every block, what is before it is
read the same whatever is behind: it is settled.
-/

namespace LiveTemplate.Css

theorem scanToken_colon (rest : List Char) :
    scanToken ':' rest = (.colon, 1) := by
  simp [scanToken, isAsciiBlank, isQuote, startsNumber, startsWithDigit,
    scanPunctuation?]

theorem scanToken_semicolon (rest : List Char) :
    scanToken ';' rest = (.semicolon, 1) := by
  simp [scanToken, isAsciiBlank, isQuote, startsNumber, startsWithDigit,
    scanPunctuation?]

/-- The tokens by which declarations are told apart. -/
def Token.isMark : Token → Bool
  | .blank _ => true
  | .comment _ => true
  | .ident _ => true
  | .colon => true
  | .semicolon => true
  | .braceClose => true
  | _ => false

/-- What a mark is read from. -/
inductive ScansMark (c : Char) (rest : List Char) : Token × Nat → Prop where
  | blank (first : isAsciiBlank c = true) :
      ScansMark c rest
        (.blank (String.ofList ((c :: rest).takeWhile isAsciiBlank)),
          ((c :: rest).takeWhile isAsciiBlank).length)
  | comment (after : List Char) (opens : c :: rest = '/' :: '*' :: after) :
      ScansMark c rest
        (.comment (String.ofList (scanComment after).1),
          (scanComment after).2 + 2)
  | ident (starts : startsName (c :: rest) = true) :
      ScansMark c rest
        (.ident (scanName (c :: rest)).1, (scanName (c :: rest)).2)
  | colon (first : c = ':') : ScansMark c rest (.colon, 1)
  | semicolon (first : c = ';') : ScansMark c rest (.semicolon, 1)
  | braceClose (first : c = '\x7d') : ScansMark c rest (.braceClose, 1)

/-- A url tells no declarations apart. -/
theorem isMark_scanUrl (input : List Char) :
    (scanUrl input).1.isMark = false := by
  simp only [scanUrl]
  split <;> rfl

private theorem scanIdentLike_mark (input : List Char)
    (mark : (scanIdentLike input).1.isMark = true) :
    scanIdentLike input = (.ident (scanName input).1, (scanName input).2) := by
  rw [scanIdentLike_eq] at mark ⊢
  unfold scanOpening at mark ⊢
  split at mark
  case h_1 content opens =>
    dsimp only at mark
    split at mark
    case isTrue =>
      rw [isMark_scanUrl] at mark
      cases mark
    case isFalse => cases mark
  case h_2 => rfl

private theorem scanPlain_mark (c : Char) (rest : List Char)
    (mark : (scanPlain c (c :: rest)).1.isMark = true) :
    ScansMark c rest (scanPlain c (c :: rest)) := by
  revert mark
  unfold scanPlain
  split
  case h_1 after opens => exact fun _ => .comment after opens
  case h_2 =>
    split
    case isTrue name =>
      intro mark
      rw [scanIdentLike_mark _ mark]
      exact .ident name
    case isFalse => exact nofun

theorem scanToken_mark (c : Char) (rest : List Char)
    (mark : (scanToken c rest).1.isMark = true) :
    ScansMark c rest (scanToken c rest) := by
  simp only [scanToken] at mark ⊢
  split at mark
  case isTrue blank =>
    rw [if_pos blank]
    exact .blank blank
  case isFalse blank =>
  rw [if_neg blank]
  split at mark
  case isTrue =>
    simp only [scanString] at mark
    split at mark <;> cases mark
  case isFalse quotes =>
  rw [if_neg quotes]
  split at mark
  case isTrue =>
    simp only [scanSigil] at mark
    split at mark
    · split at mark <;> cases mark
    · split at mark <;> cases mark
  case isFalse sigil =>
  rw [if_neg sigil]
  split at mark
  case isTrue =>
    simp only [scanNumeric] at mark
    split at mark
    · cases mark
    · split at mark <;> cases mark
  case isFalse number =>
  rw [if_neg number]
  cases found : scanPunctuation? (c :: rest) with
  | some entry =>
      simp only [found] at mark ⊢
      unfold scanPunctuation? at found
      split at found <;> cases found
      case h_8 same => exact .colon (List.cons.inj same).1
      case h_9 same => exact .semicolon (List.cons.inj same).1
      case h_16 same => exact .braceClose (List.cons.inj same).1
      all_goals cases mark
  | none =>
      simp only [found] at mark ⊢
      exact scanPlain_mark c rest mark

theorem isAsciiBlank_of_scanToken {c : Char} {rest : List Char}
    {content : String} (blank : (scanToken c rest).1 = .blank content) :
    ∀ d ∈ c :: rest.take ((scanToken c rest).2 - 1),
      isAsciiBlank d = true := by
  have scans := scanToken_mark c rest (by rw [blank]; rfl)
  generalize scanToken c rest = scanned at scans blank
  cases scans with
  | blank first =>
      have read : (c :: rest).takeWhile isAsciiBlank =
          c :: rest.takeWhile isAsciiBlank := by
        rw [List.takeWhile_cons, if_pos first]
      intro d member
      rw [read, List.length_cons, Nat.add_sub_cancel,
        ← List.prefix_iff_eq_take.mp (List.takeWhile_prefix isAsciiBlank),
        ← read] at member
      exact List.mem_takeWhile_imp member
  | comment | ident | colon | semicolon | braceClose => cases blank

private theorem lexemesFrom_skip (skip : Nat) (text : List Char) :
    lexemesFrom skip text = lexemesFrom 0 (text.drop skip) := by
  induction text generalizing skip with
  | nil => cases skip <;> rfl
  | cons c rest ih =>
      cases skip with
      | zero => rfl
      | succ skip => exact ih skip

theorem lexemesFrom_cons (c : Char) (rest : List Char) :
    lexemesFrom 0 (c :: rest) =
      ⟨(scanToken c rest).1,
        String.ofList (c :: rest.take ((scanToken c rest).2 - 1))⟩ ::
        lexemesFrom 0 (rest.drop ((scanToken c rest).2 - 1)) := by
  rw [← lexemesFrom_skip]
  rfl

/-- A colon or a semicolon. -/
def stopLexeme (stop : Char) : Lexeme :=
  ⟨if stop = ':' then .colon else .semicolon, String.singleton stop⟩

theorem lexemesFrom_stop {stop : Char} (isStop : IsStop stop)
    (rest : List Char) :
    lexemesFrom 0 (stop :: rest) = stopLexeme stop :: lexemesFrom 0 rest := by
  rcases isStop with rfl | rfl
  · rw [lexemesFrom_cons, scanToken_colon]
    rfl
  · rw [lexemesFrom_cons, scanToken_semicolon]
    rfl

/-- The text lexemes were read from. -/
def lexemeText (lexemes : List Lexeme) : List Char :=
  lexemes.flatMap (·.source.toList)

/-- Lexemes that come first are those of a beginning of the text. -/
theorem exists_of_lexemesFrom {text : List Char} {before behind : List Lexeme}
    (split : lexemesFrom 0 text = before ++ behind) :
    ∃ rest, text = lexemeText before ++ rest ∧ behind = lexemesFrom 0 rest := by
  induction before generalizing text with
  | nil => exact ⟨text, rfl, split.symm⟩
  | cons lexeme before ih =>
      cases text with
      | nil => cases split
      | cons c rest =>
          rw [lexemesFrom_cons, List.cons_append] at split
          obtain ⟨rfl, others⟩ := List.cons.inj split
          obtain ⟨tail, same, behind⟩ := ih others
          refine ⟨tail, ?_, behind⟩
          simp only [lexemeText, List.flatMap_cons, String.toList_ofList,
            List.cons_append, List.append_assoc] at same ⊢
          rw [← same, List.take_append_drop]

theorem exists_of_lexemesFrom_cons {text : List Char} {lexeme : Lexeme}
    {others : List Lexeme} (split : lexemesFrom 0 text = lexeme :: others) :
    ∃ rest, text = lexeme.source.toList ++ rest ∧
      others = lexemesFrom 0 rest := by
  obtain ⟨rest, same, behind⟩ := exists_of_lexemesFrom
    (show lexemesFrom 0 text = [lexeme] ++ others from split)
  exact ⟨rest, by simpa [lexemeText] using same, behind⟩

private theorem lexemeText_lexemesFrom (text : List Char) :
    lexemeText (lexemesFrom 0 text) = text := by
  obtain ⟨rest, same, none⟩ :=
    exists_of_lexemesFrom (List.append_nil (lexemesFrom 0 text)).symm
  cases rest with
  | nil => rw [List.append_nil] at same; exact same.symm
  | cons c rest => rw [lexemesFrom_cons] at none; cases none

/-- A colon and a semicolon are read from one character. -/
theorem exists_stop_of_lexemesFrom {text : List Char} {lexeme : Lexeme}
    {others : List Lexeme} {stop : Char} (isStop : IsStop stop)
    (split : lexemesFrom 0 text = lexeme :: others)
    (same : lexeme.token = (stopLexeme stop).token) :
    ∃ rest, text = stop :: rest := by
  cases text with
  | nil => cases split
  | cons c rest =>
      rw [lexemesFrom_cons] at split
      obtain ⟨rfl, -⟩ := List.cons.inj split
      dsimp only at same
      have mark : (scanToken c rest).1.isMark = true := by
        rw [same]
        rcases isStop with rfl | rfl <;> rfl
      have scans := scanToken_mark c rest mark
      generalize scanToken c rest = read at scans same
      rcases isStop with rfl | rfl
      · cases scans with
        | colon first => exact ⟨rest, by rw [first]⟩
        | _ => cases same
      · cases scans with
        | semicolon first => exact ⟨rest, by rw [first]⟩
        | _ => cases same

private theorem lexemesFrom_append {stop : Char} (isStop : IsStop stop)
    {a after w : List Char} (ends : EndsAt w) {before behind : List Lexeme}
    (split : lexemesFrom 0 (a ++ stop :: after) = before ++ behind)
    (here : lexemeText before = a) :
    lexemesFrom 0 (a ++ w) = before ++ lexemesFrom 0 w := by
  induction before generalizing a with
  | nil =>
      subst here
      rfl
  | cons lexeme before ih =>
      cases a with
      | nil =>
          rw [List.nil_append, lexemesFrom_cons, List.cons_append] at split
          obtain ⟨rfl, -⟩ := List.cons.inj split
          simp [lexemeText] at here
      | cons c rest =>
          rw [List.cons_append, lexemesFrom_cons, List.cons_append] at split
          obtain ⟨rfl, others⟩ := List.cons.inj split
          simp only [lexemeText, List.flatMap_cons, String.toList_ofList,
            List.cons_append, List.cons.injEq, true_and] at here
          have short : (scanToken c (rest ++ stop :: after)).2 - 1 ≤
              rest.length := by
            have total := congrArg List.length here
            simp only [List.length_append, List.length_take,
              List.length_cons] at total
            omega
          have same : scanToken c (rest ++ w) =
              scanToken c (rest ++ stop :: after) :=
            scanToken_within isStop ends (Nat.sub_le_iff_le_add.mp short)
          rw [List.take_append_of_le_length short] at here
          rw [List.drop_append_of_le_length short] at others
          have behind : lexemeText before = rest.drop
              ((scanToken c (rest ++ stop :: after)).2 - 1) := by
            refine List.append_cancel_left (here.trans ?_)
            exact (List.take_append_drop _ _).symm
          rw [List.cons_append, lexemesFrom_cons, same,
            List.drop_append_of_le_length short, ih others behind,
            List.take_append_of_le_length short,
            List.take_append_of_le_length short]
          rfl

namespace Component

mutual

theorem appendTo_eq (text : String) (component : Component) :
    component.appendTo text = text ++ component.appendTo "" := by
  cases component with
  | leaf lexeme => simp [appendTo]
  | block opener content closer =>
      have inner := appendAllTo_eq (text ++ opener.source) content
      have apart := appendAllTo_eq opener.source content
      cases closer <;>
        simp only [appendTo, String.empty_append, inner, apart,
          String.append_assoc]

theorem appendAllTo_eq (text : String) (components : List Component) :
    appendAllTo text components = text ++ appendAllTo "" components := by
  cases components with
  | nil => simp [appendAllTo]
  | cons component rest =>
      have first := appendTo_eq text component
      have whole := appendAllTo_eq (component.appendTo text) rest
      have apart := appendAllTo_eq (component.appendTo "") rest
      rw [appendAllTo, whole, first, appendAllTo, apart, String.append_assoc]

end

@[simp] theorem sources_nil : sources [] = "" :=
  rfl

theorem sources_cons (component : Component) (rest : List Component) :
    sources (component :: rest) = sources [component] ++ sources rest :=
  appendAllTo_eq _ rest

@[simp] theorem sources_leaf (lexeme : Lexeme) :
    sources [leaf lexeme] = lexeme.source :=
  String.empty_append

theorem sources_block (opener : Lexeme) (content : List Component)
    (closer : Option Lexeme) :
    sources [block opener content closer] =
      opener.source ++ sources content ++
        (closer.map (·.source)).getD "" := by
  have inner := appendAllTo_eq opener.source content
  cases closer <;> simp [sources, appendAllTo, appendTo, inner]

theorem sources_append (before behind : List Component) :
    sources (before ++ behind) = sources before ++ sources behind := by
  induction before with
  | nil => simp
  | cons component before ih =>
      rw [List.cons_append, sources_cons, ih, ← String.append_assoc,
        ← sources_cons]

/-- Open blocks, and the components read so far in the innermost one. -/
abbrev Reading := List Frame × List Component

/-- Take in one more lexeme. -/
def take : Reading → Lexeme → Reading
  | (frames, current), lexeme =>
      if lexeme.token.closer?.isSome then (⟨lexeme, current⟩ :: frames, [])
      else
        match frames with
        | [] => ([], leaf lexeme :: current)
        | frame :: outer =>
            if frame.opener.token.closer? = some lexeme.token then
              (outer, block frame.opener current.reverse (some lexeme) ::
                frame.before)
            else (frame :: outer, leaf lexeme :: current)

/-- The components once the text ends. -/
def close (reading : Reading) : List Component :=
  unwind reading.1 reading.2

theorem group_eq_close (lexemes : List Lexeme) (reading : Reading) :
    group lexemes reading.1 reading.2 = close (lexemes.foldl take reading) := by
  induction lexemes generalizing reading with
  | nil => rfl
  | cons lexeme rest ih =>
      obtain ⟨frames, current⟩ := reading
      rw [List.foldl_cons, ← ih]
      simp only [group, take]
      split
      · rfl
      · cases frames with
        | nil => rfl
        | cons frame outer =>
            dsimp only
            split <;> rfl

/-- The text of the open blocks, up to the innermost one. -/
def openText : List Frame → String
  | [] => ""
  | frame :: outer =>
      openText outer ++ sources frame.before.reverse ++ frame.opener.source

theorem sources_unwind (frames : List Frame) (current : List Component) :
    sources (unwind frames current) =
      openText frames ++ sources current.reverse := by
  induction frames generalizing current with
  | nil => simp [unwind, openText]
  | cons frame outer ih =>
      simp [unwind, ih, sources_append, sources_block, openText,
        String.append_assoc]

private theorem sources_close_take (reading : Reading) (lexeme : Lexeme) :
    sources (close (take reading lexeme)) =
      sources (close reading) ++ lexeme.source := by
  obtain ⟨frames, current⟩ := reading
  simp only [close, take]
  split
  · simp [sources_unwind, openText]
  · cases frames with
    | nil =>
        simp [sources_unwind, sources_append, openText]
    | cons frame outer =>
        dsimp only
        split
        · simp [sources_unwind, sources_append, sources_block, openText,
            String.append_assoc]
        · simp [sources_unwind, sources_append, String.append_assoc]

theorem sources_close_foldl (lexemes : List Lexeme) (reading : Reading) :
    (sources (close (lexemes.foldl take reading))).toList =
      (sources (close reading)).toList ++ lexemeText lexemes := by
  induction lexemes generalizing reading with
  | nil => simp [lexemeText]
  | cons lexeme rest ih =>
      simp [ih, sources_close_take, lexemeText]

/-- A reading with more components before its first one. -/
def onto (base : List Component) : List Frame → List Component → Reading
  | [], current => ([], current ++ base)
  | frame :: outer, current =>
      let (frames, before) := onto base outer frame.before
      (⟨frame.opener, before⟩ :: frames, current)

theorem onto_cons (base : List Component) (component : Component)
    (frames : List Frame) (current : List Component) :
    onto base frames (component :: current) =
      ((onto base frames current).1,
        component :: (onto base frames current).2) := by
  cases frames <;> rfl

theorem close_onto (base : List Component) (frames : List Frame)
    (current : List Component) :
    close (onto base frames current) =
      base.reverse ++ close (frames, current) := by
  induction frames generalizing current with
  | nil => simp [onto, close, unwind]
  | cons frame outer ih =>
      have inner := ih (block frame.opener current.reverse none :: frame.before)
      rw [onto_cons] at inner
      exact inner

theorem take_onto (base : List Component) (reading : Reading)
    (lexeme : Lexeme) :
    take (onto base reading.1 reading.2) lexeme =
      onto base (take reading lexeme).1 (take reading lexeme).2 := by
  obtain ⟨frames, current⟩ := reading
  by_cases opens : lexeme.token.closer?.isSome = true
  · simp [take, opens, onto]
  · cases frames with
    | nil => simp [take, opens, onto]
    | cons frame outer =>
        by_cases closes : frame.opener.token.closer? = some lexeme.token
        · simp [take, opens, onto, closes, onto_cons]
        · simp [take, opens, onto, closes]

private theorem foldl_take_onto (base : List Component) (lexemes : List Lexeme)
    (reading : Reading) :
    lexemes.foldl take (onto base reading.1 reading.2) =
      onto base (lexemes.foldl take reading).1
        (lexemes.foldl take reading).2 := by
  induction lexemes generalizing reading with
  | nil => rfl
  | cons lexeme rest ih => rw [List.foldl_cons, take_onto, ih, List.foldl_cons]

/-- Outside every block the components read so far do not matter. -/
theorem close_foldl_outside (lexemes : List Lexeme)
    (current : List Component) :
    close (lexemes.foldl take ([], current)) =
      current.reverse ++ close (lexemes.foldl take ([], [])) := by
  rw [← close_onto, ← foldl_take_onto]
  rfl

theorem length_unwind (frames : List Frame) {current other : List Component}
    (same : current.length = other.length) :
    (unwind frames current).length = (unwind frames other).length := by
  induction frames generalizing current other with
  | nil => simpa [unwind] using same
  | cons frame outer ih => exact ih rfl

private theorem length_close_take_outside (current : List Component)
    (lexeme : Lexeme) :
    (close (take ([], current) lexeme)).length = current.length + 1 := by
  by_cases opens : lexeme.token.closer?.isSome = true <;>
    simp [take, opens, close, unwind]

private theorem length_close_take_inside (frame : Frame) (outer : List Frame)
    (current : List Component) (lexeme : Lexeme) :
    (close (take (frame :: outer, current) lexeme)).length =
      (close (frame :: outer, current)).length := by
  by_cases opens : lexeme.token.closer?.isSome = true
  · simp only [take, opens, if_true]
    exact length_unwind outer rfl
  · by_cases closes : frame.opener.token.closer? = some lexeme.token
    · simp only [take, opens, closes, Bool.false_eq_true, if_false, if_true]
      exact length_unwind outer rfl
    · simp only [take, opens, closes, Bool.false_eq_true, if_false]
      exact length_unwind outer rfl

theorem exists_of_close {lexemes : List Lexeme} {reading : Reading}
    {before behind : List Component} {component : Component}
    (split : close (lexemes.foldl take reading) =
      before ++ component :: behind)
    (ahead : (close reading).length ≤ before.length) :
    ∃ first last, lexemes = first ++ last ∧
      first.foldl take reading = ([], before.reverse) ∧
      close (last.foldl take ([], [])) = component :: behind := by
  induction lexemes generalizing reading with
  | nil =>
      rw [List.foldl_nil] at split
      rw [split] at ahead
      simp only [List.length_append, List.length_cons] at ahead
      omega
  | cons lexeme rest ih =>
      by_cases here : reading.1 = [] ∧ reading.2.length = before.length
      · obtain ⟨frames, current⟩ := reading
        obtain ⟨rfl, same⟩ := here
        rw [close_foldl_outside] at split
        obtain ⟨rfl, behind⟩ := List.append_inj split (by simpa using same)
        exact ⟨[], lexeme :: rest, rfl, by simp, behind⟩
      · have further : (close (take reading lexeme)).length ≤ before.length := by
          obtain ⟨frames, current⟩ := reading
          cases frames with
          | nil =>
              simp only [true_and] at here
              simp only [close, unwind, List.length_reverse] at ahead
              rw [length_close_take_outside]
              omega
          | cons frame outer =>
              rw [length_close_take_inside]
              exact ahead
        obtain ⟨first, last, rfl, whole, behind⟩ := ih split further
        exact ⟨lexeme :: first, last, rfl, whole, behind⟩

theorem head_unwind (frames : List Frame) {current other : List Component}
    (same : current.getLast?.map token = other.getLast?.map token) :
    (unwind frames current).head?.map token =
      (unwind frames other).head?.map token := by
  induction frames generalizing current other with
  | nil => simpa [unwind] using same
  | cons frame outer ih =>
      refine ih ?_
      cases frame.before <;> rfl

/-- The first component keeps its token. -/
theorem head_close_take {reading : Reading} (begun : close reading ≠ [])
    (lexeme : Lexeme) :
    (close (take reading lexeme)).head?.map token =
      (close reading).head?.map token := by
  obtain ⟨frames, current⟩ := reading
  cases frames with
  | nil =>
      cases current with
      | nil => exact absurd rfl begun
      | cons component rest =>
          by_cases opens : lexeme.token.closer?.isSome = true <;>
            simp [take, opens, close, unwind]
  | cons frame outer =>
      have inner (component other : Component)
          (same : component.token = other.token) :
          (unwind outer (component :: frame.before)).head?.map token =
            (unwind outer (other :: frame.before)).head?.map token :=
        head_unwind outer (by cases frame.before <;> simp [same])
      by_cases opens : lexeme.token.closer?.isSome = true
      · simp only [take, opens, if_true, close, unwind]
        exact inner _ _ rfl
      · by_cases closes : frame.opener.token.closer? = some lexeme.token
        · simp only [take, opens, closes, Bool.false_eq_true, if_false, if_true,
            close, unwind]
          exact inner _ _ rfl
        · simp only [take, opens, closes, Bool.false_eq_true, if_false, close,
            unwind]
          exact inner _ _ rfl

theorem head_close_foldl {reading : Reading} (begun : close reading ≠ [])
    (lexemes : List Lexeme) :
    (close (lexemes.foldl take reading)).head?.map token =
      (close reading).head?.map token := by
  induction lexemes generalizing reading with
  | nil => rfl
  | cons lexeme rest ih =>
      have same := head_close_take begun lexeme
      rw [List.foldl_cons, ih, same]
      intro none
      rw [none] at same
      cases first : close reading with
      | nil => exact begun first
      | cons component others =>
          rw [first] at same
          cases same

theorem exists_leaf {lexemes : List Lexeme} {component : Component}
    {behind : List Component}
    (split : close (lexemes.foldl take ([], [])) = component :: behind)
    (single : component.token.closer? = none) :
    ∃ lexeme rest, lexemes = lexeme :: rest ∧ component = leaf lexeme ∧
      close (rest.foldl take ([], [])) = behind := by
  cases lexemes with
  | nil => cases split
  | cons lexeme rest =>
      rw [List.foldl_cons] at split
      by_cases opens : lexeme.token.closer?.isSome = true
      · have opened : take ([], []) lexeme = ([⟨lexeme, []⟩], []) := by
          simp [take, opens]
        have begun : close (take ([], []) lexeme) ≠ [] := by
          simp [opened, close, unwind]
        have head := head_close_foldl begun rest
        rw [split, opened] at head
        have same : component.token = lexeme.token := by
          simpa [close, unwind, token] using head
        simp [← same, single] at opens
      · have taken : take ([], []) lexeme = ([], [leaf lexeme]) := by
          simp [take, opens]
        rw [taken, close_foldl_outside] at split
        obtain ⟨rfl, behind⟩ := List.cons.inj split
        exact ⟨lexeme, rest, rfl, rfl, behind⟩

end Component

open Component

/-- The components of a text given by its characters. -/
def components (text : List Char) : List Component :=
  close ((lexemesFrom 0 text).foldl take ([], []))

theorem ofText_eq (text : String) :
    Component.ofText text = components text.toList :=
  group_eq_close _ ([], [])

@[simp] theorem components_nil : components [] = [] :=
  rfl

theorem sources_components (text : List Char) :
    (sources (components text)).toList = text := by
  rw [components, sources_close_foldl, lexemeText_lexemesFrom]
  rfl

/-- The first component begins with the first token. -/
theorem head_components (c : Char) (rest : List Char) :
    (components (c :: rest)).head?.map token = some (scanToken c rest).1 := by
  have first (lexeme : Lexeme) :
      (close (take ([], []) lexeme)).map token = [lexeme.token] := by
    by_cases opens : lexeme.token.closer?.isSome = true
    · simp [take, opens, close, unwind, token]
    · simp [take, opens, close, unwind, token]
  rw [components, lexemesFrom_cons, List.foldl_cons, head_close_foldl]
  · rw [← List.head?_map, first]
    rfl
  · intro none
    have one := first ⟨(scanToken c rest).1,
      String.ofList (c :: rest.take ((scanToken c rest).2 - 1))⟩
    rw [none] at one
    cases one

theorem components_cons {c : Char} {rest : List Char}
    (single : (scanToken c rest).1.closer? = none) :
    components (c :: rest) =
      leaf ⟨(scanToken c rest).1,
        String.ofList (c :: rest.take ((scanToken c rest).2 - 1))⟩ ::
        components (rest.drop ((scanToken c rest).2 - 1)) := by
  have taken (source : String) : take ([], []) ⟨(scanToken c rest).1, source⟩ =
      ([], [leaf ⟨(scanToken c rest).1, source⟩]) := by
    simp [take, single]
  rw [components, lexemesFrom_cons, List.foldl_cons, taken,
    close_foldl_outside]
  rfl

theorem components_stop {stop : Char} (isStop : IsStop stop)
    (rest : List Char) :
    components (stop :: rest) = leaf (stopLexeme stop) :: components rest := by
  rcases isStop with rfl | rfl
  · rw [components_cons (by rw [scanToken_colon]; rfl), scanToken_colon]
    rfl
  · rw [components_cons (by rw [scanToken_semicolon]; rfl),
      scanToken_semicolon]
    rfl

/-- A text that is read the same whatever stands behind it. -/
def Settled (text : List Char) : Prop :=
  ∀ w, EndsAt w → components (text ++ w) = components text ++ components w

/-- Before a component that is not a block stands the beginning of the text,
and the component is one lexeme. -/
theorem exists_of_components {text : List Char} {before behind : List Component}
    {component : Component}
    (split : components text = before ++ component :: behind)
    (single : component.token.closer? = none) :
    ∃ first lexeme rest, component = leaf lexeme ∧
      text = lexemeText first ++ (lexeme.source.toList ++ rest) ∧
      lexemesFrom 0 text = first ++ lexeme :: lexemesFrom 0 rest ∧
      lexemesFrom 0 (lexeme.source.toList ++ rest) =
        lexeme :: lexemesFrom 0 rest ∧
      first.foldl take ([], []) = ([], before.reverse) ∧
      components rest = behind := by
  obtain ⟨first, last, whole, read, last'⟩ :=
    exists_of_close split (Nat.zero_le _)
  obtain ⟨lexeme, others, rfl, rfl, rfl⟩ := exists_leaf last' single
  obtain ⟨tail, rfl, same⟩ := exists_of_lexemesFrom whole
  obtain ⟨rest, rfl, rfl⟩ := exists_of_lexemesFrom_cons same.symm
  exact ⟨first, lexeme, rest, rfl, rfl, whole, same.symm, read, rfl⟩

theorem sources_of_foldl {first : List Lexeme} {before : List Component}
    (read : first.foldl take ([], []) = ([], before.reverse)) :
    (sources before).toList = lexemeText first := by
  have texts := sources_close_foldl first ([], [])
  rw [read] at texts
  simpa [close, unwind] using texts

private theorem of_take_outside {reading : Reading} {lexeme : Lexeme}
    {component : Component} {before : List Component}
    (read : take reading lexeme = ([], component :: before)) :
    component = leaf lexeme ∧ lexeme.token.closer? = none ∨
      component.token.closer? = some lexeme.token := by
  obtain ⟨frames, current⟩ := reading
  cases opens : lexeme.token.closer? with
  | some closer => simp [take, opens] at read
  | none =>
      cases frames with
      | nil =>
          simp only [take, opens, Option.isSome_none, Bool.false_eq_true,
            if_false] at read
          exact .inl ⟨(List.cons.inj (Prod.mk.inj read).2).1.symm, rfl⟩
      | cons frame outer =>
          by_cases closes : frame.opener.token.closer? = some lexeme.token
          · simp only [take, opens, closes, Option.isSome_none,
              Bool.false_eq_true, if_false, if_true] at read
            rw [← (List.cons.inj (Prod.mk.inj read).2).1]
            exact .inr closes
          · simp [take, opens, closes] at read

/-- Before a component some lexeme ends: the component before it, or the block
that it is. -/
theorem exists_last_lexeme {text : List Char} {before behind : List Component}
    {component next : Component}
    (split : components text = before ++ component :: next :: behind) :
    ∃ front lexeme rest,
      text = front ++ (lexeme.source.toList ++ rest) ∧ rest ≠ [] ∧
      lexemesFrom 0 (lexeme.source.toList ++ rest) =
        lexeme :: lexemesFrom 0 rest ∧
      (sources (before ++ [component])).toList =
        front ++ lexeme.source.toList ∧
      (component = leaf lexeme ∧ lexeme.token.closer? = none ∨
        component.token.closer? = some lexeme.token) := by
  have cut : components text = (before ++ [component]) ++ next :: behind := by
    simp [split]
  obtain ⟨first, last, whole, read, others⟩ :=
    exists_of_close cut (Nat.zero_le _)
  obtain rfl | ⟨init, lexeme, rfl⟩ := List.eq_nil_or_concat first
  · simp at read
  rw [List.concat_eq_append] at whole read
  rw [List.append_assoc] at whole
  obtain ⟨tail, rfl, same⟩ := exists_of_lexemesFrom whole
  obtain ⟨rest, rfl, rfl⟩ := exists_of_lexemesFrom_cons same.symm
  refine ⟨lexemeText init, lexeme, rest, rfl, ?_, same.symm, ?_, ?_⟩
  · rintro rfl
    cases others
  · rw [sources_of_foldl read]
    simp [lexemeText]
  · rw [List.foldl_append, List.reverse_append] at read
    exact of_take_outside read

/-- Where a colon or a semicolon stands outside every block, what is before it
is settled. -/
theorem exists_settled {text : List Char} {before behind : List Component}
    {component : Component} {stop : Char} (isStop : IsStop stop)
    (split : components text = before ++ component :: behind)
    (same : component.token = (stopLexeme stop).token) :
    ∃ a rest, text = a ++ stop :: rest ∧ Settled a ∧ components a = before ∧
      components rest = behind := by
  have single : component.token.closer? = none := by
    rw [same]
    rcases isStop with rfl | rfl <;> rfl
  obtain ⟨first, lexeme, rest, rfl, rfl, whole, here, read, rfl⟩ :=
    exists_of_components split single
  obtain ⟨tail, cut⟩ := exists_stop_of_lexemesFrom isStop here same
  rw [cut] at here
  rw [lexemesFrom_stop isStop] at here
  obtain ⟨rfl, behind⟩ := List.cons.inj here
  have source : (stopLexeme stop).source.toList = [stop] := by
    simp [stopLexeme]
  rw [source] at cut
  obtain rfl : rest = tail := by simpa using cut
  have readBefore (w : List Char) (ends : EndsAt w) :
      components (lexemeText first ++ w) = before ++ components w := by
    rw [source, List.cons_append, List.nil_append] at whole
    rw [← lexemesFrom_stop isStop] at whole
    rw [components, lexemesFrom_append isStop ends whole rfl,
      List.foldl_append, read, close_foldl_outside, List.reverse_reverse]
    rfl
  have alone : components (lexemeText first) = before := by
    simpa using readBefore [] endsAt_nil
  refine ⟨lexemeText first, rest, by rw [source]; rfl, ?_, alone, rfl⟩
  intro w ends
  rw [readBefore w ends, alone]

end LiveTemplate.Css
