import LiveTemplate.Template.Render
import LiveTemplate.Proofs.Joining
import LiveTemplate.Proofs.Printing

/-!
# Declarations behind a style

Blanks at the end of a text declare nothing.  What is put behind a text is read
apart from it exactly if the text is ended: it is blank, or a semicolon that
stands outside every token and block is the last of it but for ASCII blanks.
-/

namespace LiveTemplate.Css

open Component

namespace Declarations

/-- Components that name a declaration whose colon comes next. -/
def AreNamed (name : String) (segment : List Component) : Prop :=
  ∃ component fillers, statement false segment = component :: fillers ∧
    component.token = .ident name ∧
    ∀ filler ∈ fillers, filler.isFiller = true

/-- Where a statement begins does not depend on what comes behind. -/
theorem statement_append {inAtRule : Bool} {segment rest : List Component}
    {component : Component}
    (begins : statement inAtRule segment = component :: rest)
    (more : List Component) :
    statement inAtRule (segment ++ more) = component :: rest ++ more := by
  induction segment generalizing inAtRule with
  | nil => cases begins
  | cons first segment ih =>
      obtain ⟨still, passes, -⟩ | stays := statement_cons inAtRule first
      · rw [passes] at begins
        rw [List.cons_append, passes, ih begins]
      · rw [stays] at begins
        rw [List.cons_append, stays, ← List.cons_append, begins]

theorem statement_ne_cons (inAtRule : Bool) (component : Component)
    (rest : List Component) : statement inAtRule rest ≠ component :: rest := by
  intro same
  have bound := (statement_suffix inAtRule rest).length_le
  rw [same, List.length_cons] at bound
  omega

theorem cons_append_ne (first : Component) (before rest : List Component) :
    first :: (before ++ rest) ≠ rest := by
  intro same
  have total := congrArg List.length same
  simp only [List.length_cons, List.length_append] at total
  omega

theorem statement_before {inAtRule : Bool} {before rest : List Component}
    {component : Component}
    (begins : statement inAtRule (before ++ component :: rest) =
      component :: rest) (other : List Component) :
    statement inAtRule (before ++ component :: other) = component :: other := by
  induction before generalizing inAtRule with
  | nil =>
      rw [List.nil_append] at begins ⊢
      obtain ⟨still, passes, -⟩ | stays := statement_cons inAtRule component
      · rw [passes] at begins
        exact absurd begins (statement_ne_cons still component rest)
      · exact stays other
  | cons first before ih =>
      rw [List.cons_append] at begins ⊢
      obtain ⟨still, passes, -⟩ | stays := statement_cons inAtRule first
      · rw [passes] at begins ⊢
        exact ih begins
      · rw [stays] at begins
        exact absurd begins (cons_append_ne first before _)

theorem declaration?_iff {text : List Char} {name value : String} :
    declaration? (components text) = some (name, value) ↔
      ∃ a rest, text = a ++ ':' :: rest ∧ Settled a ∧
        AreNamed name (components a) ∧
        trimBlank (String.ofList rest) = value ∧ value ≠ "" := by
  have colon : IsStop ':' := .inl rfl
  have source (rest : List Char) :
      sources (components rest) = String.ofList rest :=
    String.toList_inj.mp (by simp [sources_components])
  rw [declaration?_eq_some]
  constructor
  · rintro ⟨component, fillers, separator, content, shape, token, filler,
      isColon, rfl, filled⟩
    obtain ⟨before, whole⟩ := statement_suffix false (components text)
    rw [shape] at whole
    have cut : components text =
        (before ++ component :: fillers) ++ separator :: content := by
      rw [← whole]
      simp
    obtain ⟨a, rest, rfl, settled, isBefore, rfl⟩ :=
      exists_settled colon cut isColon
    refine ⟨a, rest, rfl, settled, ⟨component, fillers, ?_, token, filler⟩, ?_,
      filled⟩
    · rw [isBefore]
      exact statement_before (by rw [whole, shape]) fillers
    · rw [source]
  · rintro ⟨a, rest, rfl, settled, ⟨component, fillers, begins, token, filler⟩,
      rfl, filled⟩
    refine ⟨component, fillers, leaf (stopLexeme ':'), components rest, ?_,
      token, filler, rfl, ?_, filled⟩
    · rw [settled _ (colon.endsAt rest), components_stop colon,
        statement_append begins]
      rfl
    · rw [source]

section Blanks

variable {text blanks : List Char} (blank : ∀ c ∈ blanks, isBlank c = true)

include blank

theorem append_blanks_eq_iff {c : Char} (visible : isBlank c = false)
    {a rest : List Char} :
    text ++ blanks = a ++ c :: rest ↔
      ∃ behind, text = a ++ c :: behind ∧ rest = behind ++ blanks := by
  constructor
  · intro same
    obtain ⟨more, isText, tail⟩ | ⟨more, whole, tail⟩ :=
      List.append_eq_append_iff.mp same
    · have member : c ∈ blanks := by simp [tail]
      rw [blank c member] at visible
      cases visible
    · cases more with
      | nil =>
          rw [List.nil_append] at tail
          have member : c ∈ blanks := tail ▸ List.mem_cons_self
          rw [blank c member] at visible
          cases visible
      | cons d more =>
          obtain ⟨rfl, rfl⟩ := List.cons.inj tail
          exact ⟨more, whole, rfl⟩
  · rintro ⟨behind, rfl, rfl⟩
    simp

theorem trimBlank_append_blanks :
    trimBlank (String.ofList (text ++ blanks)) =
      trimBlank (String.ofList text) := by
  have none : blanks.dropWhile isBlank = [] :=
    List.dropWhile_eq_nil_iff.mpr blank
  have noneBehind : blanks.reverse.dropWhile isBlank = [] :=
    List.dropWhile_eq_nil_iff.mpr fun c member =>
      blank c (List.mem_reverse.mp member)
  simp only [trimBlank, String.toList_ofList, List.dropWhile_append, none]
  cases text.dropWhile isBlank with
  | nil => rfl
  | cons c rest =>
      simp [List.dropWhile_append, noneBehind]

private theorem declaration?_append_blanks :
    declaration? (components (text ++ blanks)) =
      declaration? (components text) := by
  refine Option.ext fun entry => ?_
  obtain ⟨name, value⟩ := entry
  rw [declaration?_iff, declaration?_iff]
  constructor
  · rintro ⟨a, rest, split, settled, named, trimmed, filled⟩
    obtain ⟨behind, rfl, rfl⟩ :=
      (append_blanks_eq_iff blank (by decide)).mp split
    rw [trimBlank_append_blanks blank] at trimmed
    exact ⟨a, behind, rfl, settled, named, trimmed, filled⟩
  · rintro ⟨a, rest, rfl, settled, named, trimmed, filled⟩
    refine ⟨a, rest ++ blanks, by simp, settled, named, ?_, filled⟩
    rw [trimBlank_append_blanks blank, trimmed]

private theorem isStatement_append_blanks (single : IsStatement text) :
    IsStatement (text ++ blanks) := by
  have stop : IsStop ';' := .inr rfl
  intro component member isSemicolon
  obtain ⟨before, behind, split⟩ := List.append_of_mem member
  obtain ⟨a, rest, whole, settled, -, -⟩ :=
    exists_settled stop split isSemicolon
  obtain ⟨rest, rfl, -⟩ := (append_blanks_eq_iff blank (by decide)).mp whole
  refine single (leaf (stopLexeme ';')) ?_ rfl
  rw [settled _ (stop.endsAt rest), components_stop stop]
  simp

private theorem writtenIn_append_blanks :
    writtenIn (text ++ blanks) = writtenIn text := by
  induction text using statements_induction with
  | last text single =>
      rw [single.writtenIn, (isStatement_append_blanks blank single).writtenIn,
        declaration?_append_blanks blank]
  | next a rest settled single ih =>
      rw [List.append_assoc, List.cons_append, writtenIn_append settled,
        writtenIn_append settled, ih]

end Blanks

/-- A text that is blank, or whose last semicolon stands on its own with only
ASCII blanks behind it. -/
def Ended (text : List Char) : Prop :=
  (∀ c ∈ text, isAsciiBlank c = true) ∨
    ∃ a blanks, text = a ++ ';' :: blanks ∧ Settled a ∧
      ∀ c ∈ blanks, isAsciiBlank c = true

theorem writtenIn_blanks {blanks : List Char}
    (blank : ∀ c ∈ blanks, isAsciiBlank c = true) (text : List Char) :
    writtenIn (blanks ++ text) = writtenIn text := by
  rw [← writtenIn_dropWhile (blanks ++ text), ← writtenIn_dropWhile text,
    List.dropWhile_append, List.dropWhile_eq_nil_iff.mpr blank]
  rfl

theorem isBlank_of_mem_components {blanks : List Char}
    (blank : ∀ c ∈ blanks, isAsciiBlank c = true) {component : Component}
    (member : component ∈ components blanks) : component.isBlank = true := by
  cases blanks with
  | nil => cases member
  | cons c rest =>
      have whole : (c :: rest).takeWhile isAsciiBlank = c :: rest :=
        List.takeWhile_eq_self_iff.mpr blank
      have scanned : scanToken c rest =
          (.blank (String.ofList (c :: rest)), (c :: rest).length) := by
        simp only [scanToken, blank c (.head _), if_true, whole]
      rw [components_cons (by rw [scanned]; rfl), scanned] at member
      simp only [List.length_cons, Nat.add_sub_cancel, List.drop_length,
        components_nil, List.mem_singleton] at member
      rw [member]
      rfl

theorem isAsciiBlank_of_components {text : List Char}
    (only : ∀ component ∈ components text, component.isBlank = true) :
    ∀ c ∈ text, isAsciiBlank c = true := by
  match text with
  | [] => exact nofun
  | first :: rest =>
      obtain ⟨component, member, token⟩ :
          ∃ component ∈ components (first :: rest),
            component.token = (scanToken first rest).1 := by
        obtain ⟨component, head, token⟩ :=
          Option.map_eq_some_iff.mp (head_components first rest)
        exact ⟨component, List.mem_of_head? head, token⟩
      have isBlank := only component member
      unfold Component.isBlank at isBlank
      rw [token] at isBlank
      split at isBlank
      case h_2 => cases isBlank
      case h_1 content read =>
      have single : (scanToken first rest).1.closer? = none := by rw [read]; rfl
      rw [components_cons single] at only
      have shorter : (rest.drop ((scanToken first rest).2 - 1)).length <
          (first :: rest).length := by
        simp only [List.length_drop, List.length_cons]
        omega
      have behind := isAsciiBlank_of_components fun other later =>
        only other (.tail _ later)
      intro c member
      rw [← rest.take_append_drop ((scanToken first rest).2 - 1),
        ← List.cons_append, List.mem_append] at member
      exact member.elim (isAsciiBlank_of_scanToken read c) (behind c)
termination_by text.length

/-- Whether components end with a semicolon, or consist of nothing, but for
blanks. -/
def endsStatement (components : List Component) : Bool :=
  match components.reverse.dropWhile Component.isBlank with
  | [] => true
  | last :: _ => last.token == .semicolon

theorem ended_iff {text : List Char} :
    Ended text ↔ endsStatement (components text) = true := by
  have stop : IsStop ';' := .inr rfl
  constructor
  · rintro (blank | ⟨a, blanks, rfl, settled, blank⟩)
    · have none : (components text).reverse.dropWhile Component.isBlank = [] :=
        List.dropWhile_eq_nil_iff.mpr fun component member =>
          isBlank_of_mem_components blank (List.mem_reverse.mp member)
      rw [endsStatement, none]
    · have none : (components blanks).reverse.dropWhile Component.isBlank = [] :=
        List.dropWhile_eq_nil_iff.mpr fun component member =>
          isBlank_of_mem_components blank (List.mem_reverse.mp member)
      rw [endsStatement, settled _ (stop.endsAt blanks), components_stop stop,
        List.reverse_append, List.reverse_cons, List.append_assoc,
        List.dropWhile_append, none]
      rfl
  · intro ends
    unfold endsStatement at ends
    split at ends
    case h_1 none =>
      refine .inl (isAsciiBlank_of_components fun component member => ?_)
      exact List.dropWhile_eq_nil_iff.mp none component
        (List.mem_reverse.mpr member)
    case h_2 last before left =>
      have whole := (components text).reverse.takeWhile_append_dropWhile
        (p := Component.isBlank)
      rw [left] at whole
      have split := congrArg List.reverse whole
      rw [List.reverse_reverse, List.reverse_append, List.reverse_cons,
        List.append_assoc, List.singleton_append] at split
      obtain ⟨a, rest, rfl, settled, -, behind⟩ :=
        exists_settled stop split.symm (beq_iff_eq.mp ends)
      refine .inr ⟨a, rest, rfl, settled, isAsciiBlank_of_components ?_⟩
      intro component member
      rw [behind, List.mem_reverse] at member
      exact List.mem_takeWhile_imp member

instance (text : List Char) : Decidable (Ended text) :=
  decidable_of_iff _ ended_iff.symm

/-- What comes behind an ended text is read apart from it. -/
theorem Ended.writtenIn_append {text : List Char} (ended : Ended text)
    (more : List Char) :
    writtenIn (text ++ more) = writtenIn text ++ writtenIn more := by
  obtain blank | ⟨a, blanks, rfl, settled, blank⟩ := ended
  · have none := writtenIn_blanks blank []
    rw [List.append_nil] at none
    rw [writtenIn_blanks blank, none]
    rfl
  · have none := writtenIn_blanks blank []
    rw [List.append_nil] at none
    rw [List.append_assoc, List.cons_append,
      Declarations.writtenIn_append settled,
      Declarations.writtenIn_append settled, writtenIn_blanks blank, none]
    simp [writtenIn, splitComponents, declaration?, statement]

open Blueprint (keptText)

/-- A style and the declarations that are put behind it. -/
def extendedStyle (style added : String) : String :=
  spaced ([keptText "style" style, added].filter (· ≠ ""))

theorem toList_extendedStyle (style : String) {added : String}
    (there : added ≠ "") :
    ∃ space, (space = [] ∨ space = [' ']) ∧
      (extendedStyle style added).toList =
        (keptText "style" style).toList ++ (space ++ added.toList) := by
  unfold extendedStyle
  by_cases bare : keptText "style" style = ""
  · exact ⟨[], .inl rfl, by simp [bare, there, spaced]⟩
  · refine ⟨(gap (keptText "style" style) added).toList, ?_, ?_⟩
    · unfold gap
      split
      · exact .inl rfl
      · exact .inr rfl
    · simp [bare, there, spaced]

/-- A text is what is left without the blanks at its end, and these. -/
theorem exists_trimBlankEnd (style : String) :
    ∃ blanks, (∀ c ∈ blanks, isBlank c = true) ∧
      style.toList = (trimBlankEnd style).toList ++ blanks := by
  refine ⟨(style.toList.reverse.takeWhile isBlank).reverse, ?_, ?_⟩
  · intro c member
    exact List.mem_takeWhile_imp (List.mem_reverse.mp member)
  · rw [trimBlankEnd, String.toList_ofList, ← List.reverse_append,
      List.takeWhile_append_dropWhile, List.reverse_reverse]

theorem keptText_cases (style : String) :
    (keptText "style" style = style ∧
        (trimBlankEnd style = "" ∨
          ∃ body, (trimBlankEnd style).toList = body ++ [';'])) ∨
      keptText "style" style = trimBlankEnd style ++ ";" := by
  unfold keptText
  dsimp only
  split
  case isTrue => exact .inr rfl
  case isFalse open' =>
    refine .inl ⟨rfl, ?_⟩
    by_cases bare : trimBlankEnd style = ""
    · exact .inl bare
    · have last : (trimBlankEnd style).toList.getLast? = some ';' := by
        simpa [bare] using open'
      exact .inr ⟨_, (List.dropLast_append_getLast? ';' last).symm⟩

/-- A settled style is ended by the semicolon that is put behind it, if there
are no blanks and no semicolon at its end. -/
theorem ended_keptText_of_settled {style : String}
    (settled : Settled style.toList) (trimmed : trimBlankEnd style = style)
    (open' : style.toList.getLast? ≠ some ';') :
    Ended (keptText "style" style).toList := by
  obtain ⟨-, bare | ⟨body, ends⟩⟩ | closed := keptText_cases style
  · obtain rfl := trimmed.symm.trans bare
    exact .inl nofun
  · rw [trimmed] at ends
    exact absurd (by rw [ends, List.getLast?_concat]) open'
  · rw [closed, trimmed, String.toList_append]
    exact .inr ⟨_, [], rfl, settled, nofun⟩

theorem Ended.settled {text : List Char} (ended : Ended (text ++ [';'])) :
    Settled text := by
  obtain blank | ⟨a, blanks, whole, settled, blank⟩ := ended
  · exact absurd (blank ';' (by simp)) (by decide)
  · obtain rfl | ⟨front, c, rfl⟩ := List.eq_nil_or_concat blanks
    · rw [(List.append_inj' whole rfl).1]
      exact settled
    · have last : [';'] = [c] := by
        rw [List.concat_eq_append, ← List.cons_append,
          ← List.append_assoc] at whole
        exact (List.append_inj' whole rfl).2
      have isBlank := blank c (by simp)
      rw [← List.singleton_inj.mp last] at isBlank
      exact absurd isBlank (by decide)

/-- An ended style declares as much with the semicolon that is put behind
it. -/
theorem written_keptText {style : String}
    (ended : Ended (keptText "style" style).toList) :
    written (keptText "style" style) = written style := by
  obtain ⟨same, -⟩ | closed := keptText_cases style
  · rw [same]
  · rw [closed] at ended ⊢
    obtain ⟨blanks, blank, whole⟩ := exists_trimBlankEnd style
    rw [String.toList_append] at ended
    rw [written_eq, written_eq, whole, writtenIn_append_blanks blank,
      String.toList_append]
    exact (writtenIn_append ended.settled []).trans (List.append_nil _)

theorem parse_extendedStyle {style added : String} (there : added ≠ "")
    (ended : Ended (keptText "style" style).toList) :
    parse (extendedStyle style added) =
      (parse style).setAll (parse added).entries := by
  obtain ⟨space, either, whole⟩ := toList_extendedStyle style there
  have behind : writtenIn (space ++ added.toList) = written added := by
    rw [written_eq]
    obtain rfl | rfl := either
    · rfl
    · exact writtenIn_space _
  rw [parse_eq, parse_eq, parse_eq, setAll_setAll_empty, ← setAll_append,
    written_eq (extendedStyle style added), whole, ended.writtenIn_append,
    behind, ← written_eq, written_keptText ended]

end Declarations

end LiveTemplate.Css
