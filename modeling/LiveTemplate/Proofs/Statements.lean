import LiveTemplate.Css.Declarations
import LiveTemplate.Proofs.Nesting

/-!
# Statement by statement

A text is read as one statement after the other: a settled text without a
semicolon outside its blocks, then a semicolon, and at the end a statement that
no semicolon ends.  Each holds at most one declaration, a name and the text
behind its colon without the blanks around it.
-/

namespace LiveTemplate.Css

open Component

section Split

variable {separates : Component → Bool}

theorem splitComponents_ne_nil (components : List Component) :
    splitComponents separates components ≠ [] := by
  induction components with
  | nil => exact nofun
  | cons component rest ih =>
      unfold splitComponents
      split
      · exact nofun
      · split <;> exact nofun

theorem splitComponents_whole {components : List Component}
    (none : ∀ component ∈ components, separates component = false) :
    splitComponents separates components = [components] := by
  induction components with
  | nil => rfl
  | cons component rest ih =>
      have here := none component List.mem_cons_self
      rw [splitComponents,
        ih fun c member => none c (List.mem_cons_of_mem _ member)]
      simp [here]

private theorem splitComponents_append {separator : Component}
    (isSeparator : separates separator = true)
    (before behind : List Component) :
    splitComponents separates (before ++ separator :: behind) =
      splitComponents separates before ++ splitComponents separates behind := by
  induction before with
  | nil =>
      cases rest : splitComponents separates behind with
      | nil => exact absurd rest (splitComponents_ne_nil behind)
      | cons segment segments => simp [isSeparator, splitComponents, rest]
  | cons component before ih =>
      rw [List.cons_append, splitComponents, ih, splitComponents]
      cases first : splitComponents separates before with
      | nil => exact absurd first (splitComponents_ne_nil before)
      | cons segment segments =>
          simp only [List.cons_append]
          split <;> rfl

end Split

private theorem Settled.append_semicolon {a b : List Char} (first : Settled a)
    (second : Settled b) : Settled (a ++ ';' :: b) := by
  have stop : IsStop ';' := .inr rfl
  intro w ends
  rw [List.append_assoc, List.cons_append, first _ (stop.endsAt _),
    first _ (stop.endsAt _), components_stop stop, components_stop stop,
    second w ends]
  simp

namespace Declarations

/-- The declarations of a text given by its characters. -/
def writtenIn (text : List Char) : List (String × String) :=
  (splitComponents (fun component => component.token == .semicolon)
    (components text)).filterMap declaration?

theorem written_eq (style : String) :
    written style = writtenIn style.toList := by
  rw [written, ofText_eq]
  rfl

/-- A text with no semicolon outside its blocks. -/
def IsStatement (text : List Char) : Prop :=
  ∀ component ∈ components text, component.token ≠ .semicolon

theorem IsStatement.writtenIn {text : List Char} (single : IsStatement text) :
    writtenIn text = (declaration? (components text)).toList := by
  unfold Declarations.writtenIn
  rw [splitComponents_whole fun component member => by
    simpa using single component member]
  cases found : declaration? (components text) <;> simp [found]

/-- What a semicolon ends is read apart from what is behind. -/
theorem writtenIn_append {a : List Char} (settled : Settled a)
    (rest : List Char) :
    writtenIn (a ++ ';' :: rest) = writtenIn a ++ writtenIn rest := by
  have stop : IsStop ';' := .inr rfl
  unfold writtenIn
  rw [settled _ (stop.endsAt rest), components_stop stop,
    splitComponents_append (by rfl), List.filterMap_append]

/-- A text is a statement, or begins with a settled one that a semicolon
ends. -/
theorem isStatement_or_exists (text : List Char) :
    IsStatement text ∨
      ∃ a rest, text = a ++ ';' :: rest ∧ Settled a ∧ IsStatement a := by
  let plain (component : Component) : Bool := component.token != .semicolon
  have whole : (components text).takeWhile plain ++
      (components text).dropWhile plain = components text :=
    List.takeWhile_append_dropWhile
  cases first : (components text).dropWhile plain with
  | nil =>
      rw [first, List.append_nil] at whole
      refine .inl fun component member => ?_
      rw [← whole] at member
      simpa [plain] using List.mem_takeWhile_imp member
  | cons component behind =>
      have ended := List.head_dropWhile_not plain
        (w := fun none => nomatch first.symm.trans none)
      simp only [first, List.head_cons, plain, bne_eq_false_iff_eq] at ended
      rw [first] at whole
      obtain ⟨a, rest, rfl, settled, before, -⟩ :=
        exists_settled (show IsStop ';' from .inr rfl) whole.symm ended
      refine .inr ⟨a, rest, rfl, settled, fun component member => ?_⟩
      rw [before] at member
      simpa [plain] using List.mem_takeWhile_imp member

theorem statements_induction {motive : List Char → Prop}
    (last : ∀ text, IsStatement text → motive text)
    (next : ∀ a rest, Settled a → IsStatement a → motive rest →
      motive (a ++ ';' :: rest))
    (text : List Char) : motive text := by
  obtain single | ⟨a, rest, same, settled, single⟩ := isStatement_or_exists text
  · exact last text single
  · have shorter : rest.length < text.length := by
      rw [same, List.length_append, List.length_cons]
      omega
    rw [same]
    exact next a rest settled single (statements_induction last next rest)
termination_by text.length

/-- A component is passed over or begins a statement, whatever is behind it.
After one that is passed over an at-rule goes on, or ended with the component,
or the component is filler. -/
theorem statement_cons (inAtRule : Bool) (component : Component) :
    (∃ still, (∀ rest, statement inAtRule (component :: rest) =
        statement still rest) ∧
      (still = true ∨ component.token = .braceOpen ∨
        still = inAtRule ∧ component.isFiller = true)) ∨
      ∀ rest, statement inAtRule (component :: rest) = component :: rest := by
  cases inAtRule with
  | true =>
      refine .inl ⟨component.token != .braceOpen, fun rest => rfl, ?_⟩
      by_cases ends : component.token = .braceOpen
      · exact .inr (.inl ends)
      · exact .inl (by simpa using ends)
  | false =>
      cases filler : component.isFiller with
      | true =>
          exact .inl ⟨false, fun rest => by simp [statement, filler],
            .inr (.inr ⟨rfl, rfl⟩)⟩
      | false =>
          by_cases opens : ∃ name, component.token = .atKeyword name
          · obtain ⟨name, opens⟩ := opens
            exact .inl ⟨true, fun rest => by simp [statement, filler, opens],
              .inl rfl⟩
          · refine .inr fun rest => ?_
            simp only [statement, filler, Bool.false_eq_true, if_false]
            split
            case h_1 name opens' => exact absurd ⟨name, opens'⟩ opens
            case h_2 => rfl

theorem statement_suffix (inAtRule : Bool) (segment : List Component) :
    statement inAtRule segment <:+ segment := by
  induction segment generalizing inAtRule with
  | nil => exact List.suffix_refl []
  | cons component rest ih =>
      obtain ⟨still, passes, -⟩ | begins := statement_cons inAtRule component
      · rw [passes]
        exact (ih still).trans (List.suffix_cons _ _)
      · exact ⟨[], begins rest⟩

theorem declaration?_eq_some {segment : List Component} {name value : String} :
    declaration? segment = some (name, value) ↔
      ∃ component fillers separator content,
        statement false segment =
          component :: (fillers ++ separator :: content) ∧
        component.token = .ident name ∧
        (∀ filler ∈ fillers, filler.isFiller = true) ∧
        separator.token = .colon ∧
        trimBlank (sources content) = value ∧ value ≠ "" := by
  constructor
  · intro found
    unfold declaration? at found
    cases shape : statement false segment with
    | nil => simp [shape] at found
    | cons component rest =>
        simp only [shape] at found
        split at found
        case h_2 => cases found
        case h_1 written separator content token behind =>
          split at found
          case isFalse => cases found
          case isTrue holds =>
            obtain ⟨rfl, rfl⟩ := Prod.mk.inj (Option.some.inj found)
            refine ⟨component, rest.takeWhile Component.isFiller, separator,
              content, ?_, token, fun filler => List.mem_takeWhile_imp,
              holds.1, rfl, by simpa using holds.2⟩
            rw [← behind, List.takeWhile_append_dropWhile]
  · rintro ⟨component, fillers, separator, content, shape, token, filler, colon,
      rfl, filled⟩
    have behind : (fillers ++ separator :: content).dropWhile
        Component.isFiller = separator :: content := by
      rw [List.dropWhile_append_of_pos filler]
      simp [Component.isFiller, colon, Token.isFiller]
    unfold declaration?
    simp [shape, token, behind, colon, filled]

/-- Components that are passed over before a statement begins. -/
def PassedOver (before : List Component) : Prop :=
  ∃ component behind, statement false (before ++ component :: behind) =
    component :: behind

/-- The text of a declaration: what is passed over, a name, filler, a colon and
the value with blanks around it. -/
theorem exists_of_declaration? {text : List Char} {name value : String}
    (found : declaration? (components text) = some (name, value)) :
    ∃ before behind source filler rest,
      components text = before ++ leaf ⟨.ident name, source⟩ :: behind ∧
      PassedOver before ∧
      text = (sources before).toList ++
        (source.toList ++ (filler ++ ':' :: rest)) ∧
      lexemesFrom 0 (source.toList ++ (filler ++ ':' :: rest)) =
        ⟨.ident name, source⟩ :: lexemesFrom 0 (filler ++ ':' :: rest) ∧
      (∀ component ∈ components filler, component.isFiller = true) ∧
      trimBlank (String.ofList rest) = value ∧ value ≠ "" := by
  obtain ⟨component, fillers, separator, content, shape, token, filler, colon,
    trimmed, filled⟩ := declaration?_eq_some.mp found
  obtain ⟨before, whole⟩ := statement_suffix false (components text)
  rw [shape] at whole
  obtain ⟨first, lexeme, rest, rfl, same, -, here, read, behind⟩ :=
    exists_of_components whole.symm (by rw [token]; rfl)
  obtain ⟨f, tail, rfl, -, fills, last⟩ :=
    exists_settled (show IsStop ':' from .inl rfl) behind colon
  obtain ⟨kind, source⟩ := lexeme
  obtain rfl : kind = .ident name := token
  have passed : PassedOver before := ⟨_, _, by rw [whole, shape]⟩
  rw [← sources_of_foldl read] at same
  subst fills last
  have text : sources (components tail) = String.ofList tail :=
    String.toList_inj.mp (by simp [sources_components])
  rw [text] at trimmed
  exact ⟨before, _, source, f, tail, whole.symm, passed, same, here, filler,
    trimmed, filled⟩

theorem exists_of_mem_writtenIn {text : List Char} {entry : String × String}
    (member : entry ∈ writtenIn text) :
    ∃ before a behind, text = before ++ (a ++ behind) ∧
      declaration? (components a) = some entry ∧
      (before = [] ∨ ∃ front, before = front ++ [';'] ∧ Settled front) := by
  induction text using statements_induction with
  | last text single =>
      rw [single.writtenIn, Option.mem_toList] at member
      exact ⟨[], text, [], by simp, member, .inl rfl⟩
  | next a rest settled single ih =>
      rw [writtenIn_append settled, single.writtenIn, List.mem_append,
        Option.mem_toList] at member
      obtain here | later := member
      · exact ⟨[], a, ';' :: rest, rfl, here, .inl rfl⟩
      · obtain ⟨before, b, behind, rfl, found, ahead⟩ := ih later
        refine ⟨a ++ ';' :: before, b, behind, by simp, found, .inr ?_⟩
        obtain rfl | ⟨front, rfl, settledFront⟩ := ahead
        · exact ⟨a, rfl, settled⟩
        · exact ⟨a ++ ';' :: front, by simp,
            settled.append_semicolon settledFront⟩

end Declarations

end LiveTemplate.Css
