import LiveTemplate.Proofs.Overlaying

/-!
# Words of texts put together

Two texts put together have the words of both, unless the last word of one runs
on into the first word of the other: then there is one word less.  Between two
texts a space is put where neither has a blank, but not every blank separates
words.
-/

namespace LiveTemplate

section Words

variable {separates : Char → Bool}

/-- Whether a text begins with a word. -/
def startsWord (separates : Char → Bool) (text : List Char) : Bool :=
  text.head?.any (!separates ·)

/-- Whether a text ends with a word. -/
def endsWord (separates : Char → Bool) (text : List Char) : Bool :=
  text.getLast?.any (!separates ·)

theorem wordsBy_separator {c : Char} (separator : separates c = true)
    (rest : List Char) :
    wordsBy separates (c :: rest) = wordsBy separates rest := by
  rw [wordsBy.eq_def]
  simp [separator]

theorem wordsBy_alone {c : Char} (letter : separates c = false)
    {rest : List Char} (alone : startsWord separates rest = false) :
    wordsBy separates (c :: rest) = [c] :: wordsBy separates rest := by
  cases rest with
  | nil => simp [wordsBy, letter]
  | cons next rest =>
      have separator : separates next = true := by
        simpa [startsWord] using alone
      rw [wordsBy.eq_def]
      simp [letter, separator]

theorem exists_wordsBy_cons {c : Char} (letter : separates c = false)
    {rest : List Char} (goesOn : startsWord separates rest = true) :
    ∃ word words, wordsBy separates rest = word :: words ∧
      wordsBy separates (c :: rest) = (c :: word) :: words := by
  cases rest with
  | nil => cases goesOn
  | cons next rest =>
      have follows : separates next = false := by
        simpa [startsWord] using goesOn
      have word : ∃ word words,
          wordsBy separates (next :: rest) = word :: words := by
        rw [wordsBy.eq_def]
        simp only [follows, Bool.false_eq_true, if_false]
        split
        · exact ⟨_, _, rfl⟩
        · split
          · exact ⟨_, _, rfl⟩
          · split <;> exact ⟨_, _, rfl⟩
      obtain ⟨word, words, read⟩ := word
      refine ⟨word, words, read, ?_⟩
      rw [wordsBy.eq_def]
      simp [letter, follows, read]

theorem endsWord_cons (c : Char) (rest : List Char) :
    endsWord separates (c :: rest) =
      if rest = [] then !separates c else endsWord separates rest := by
  cases rest with
  | nil => simp [endsWord]
  | cons next rest => simp [endsWord, List.getLast?_cons_cons]

theorem wordsBy_append {text more : List Char}
    (apart : ¬(endsWord separates text = true ∧
      startsWord separates more = true)) :
    wordsBy separates (text ++ more) =
      wordsBy separates text ++ wordsBy separates more := by
  induction text with
  | nil => simp [wordsBy]
  | cons c rest ih =>
      rw [endsWord_cons] at apart
      have behind : wordsBy separates (rest ++ more) =
          wordsBy separates rest ++ wordsBy separates more := by
        by_cases last : rest = []
        · simp [last, wordsBy]
        · exact ih (by rwa [if_neg last] at apart)
      rw [List.cons_append]
      cases letter : separates c with
      | true =>
          rw [wordsBy_separator letter, wordsBy_separator letter, behind]
      | false =>
          cases goesOn : startsWord separates rest with
          | true =>
              have further : startsWord separates (rest ++ more) = true := by
                cases rest with
                | nil => cases goesOn
                | cons next rest => exact goesOn
              obtain ⟨word, words, read, whole⟩ :=
                exists_wordsBy_cons letter goesOn
              obtain ⟨first, others, same, total⟩ :=
                exists_wordsBy_cons letter further
              rw [behind, read] at same
              obtain ⟨rfl, rfl⟩ := List.cons.inj same
              rw [total, whole]
              rfl
          | false =>
              have alone : startsWord separates (rest ++ more) = false := by
                cases rest with
                | nil => simpa [letter] using apart
                | cons next rest => exact goesOn
              rw [wordsBy_alone letter goesOn, wordsBy_alone letter alone, behind]
              rfl

/-- A word that runs on into another makes one with it. -/
theorem length_wordsBy_append {text more : List Char}
    (ends : endsWord separates text = true)
    (starts : startsWord separates more = true) :
    (wordsBy separates (text ++ more)).length + 1 =
      (wordsBy separates text).length + (wordsBy separates more).length := by
  induction text with
  | nil => cases ends
  | cons c rest ih =>
      rw [endsWord_cons] at ends
      rw [List.cons_append]
      cases letter : separates c with
      | true =>
          have some : rest ≠ [] := by
            rintro rfl
            simp [letter] at ends
          rw [wordsBy_separator letter, wordsBy_separator letter,
            ih (by rwa [if_neg some] at ends)]
      | false =>
          by_cases last : rest = []
          · subst last
            obtain ⟨word, words, read, whole⟩ := exists_wordsBy_cons letter starts
            rw [List.nil_append, whole, read, wordsBy_alone letter (by rfl)]
            simp [wordsBy, Nat.add_comm]
          · have behind := ih (by rwa [if_neg last] at ends)
            have same : startsWord separates (rest ++ more) =
                startsWord separates rest := by
              cases rest with
              | nil => exact absurd rfl last
              | cons next rest => rfl
            cases goesOn : startsWord separates rest with
            | true =>
                obtain ⟨word, words, read, whole⟩ :=
                  exists_wordsBy_cons letter goesOn
                obtain ⟨first, others, further, total⟩ :=
                  exists_wordsBy_cons letter (same.trans goesOn)
                rw [read, further] at behind
                rw [total, whole]
                exact behind
            | false =>
                rw [wordsBy_alone letter goesOn,
                  wordsBy_alone letter (same.trans goesOn)]
                simp only [List.length_cons]
                omega

end Words

/-- The last word of a text runs on into the first word of the next one: there
is a blank between them, but none that separates words. -/
def Fuses (left right : String) : Prop :=
  gap left right = "" ∧ endsWord isAsciiBlank left.toList = true ∧
    startsWord isAsciiBlank right.toList = true

instance (left right : String) : Decidable (Fuses left right) :=
  inferInstanceAs (Decidable (_ ∧ _ ∧ _))

theorem asciiWords_gap {left right : String} (apart : ¬Fuses left right) :
    asciiWords (left ++ gap left right ++ right) =
      asciiWords left ++ asciiWords right := by
  unfold asciiWords
  rw [← List.map_append]
  congr 1
  by_cases none : gap left right = ""
  · rw [none, String.append_empty, String.toList_append]
    exact wordsBy_append fun runs => apart ⟨none, runs⟩
  · have space : gap left right = " " := by
      unfold gap at none ⊢
      split at none
      case isTrue => exact absurd rfl none
      case isFalse blank => rw [if_neg blank]
    have whole : (left ++ gap left right ++ right).toList =
        left.toList ++ ' ' :: right.toList := by simp [space]
    have apart : ¬(endsWord isAsciiBlank left.toList = true ∧
        startsWord isAsciiBlank (' ' :: right.toList) = true) :=
      fun runs => nomatch runs.2
    rw [whole, wordsBy_append apart, wordsBy_separator (by rfl)]

private theorem length_asciiWords_gap {left right : String}
    (fuses : Fuses left right) :
    (asciiWords (left ++ gap left right ++ right)).length + 1 =
      (asciiWords left).length + (asciiWords right).length := by
  obtain ⟨none, ends, starts⟩ := fuses
  rw [none, String.append_empty]
  simpa [asciiWords] using length_wordsBy_append ends starts

/-- How many neighbours fuse. -/
def fusions : List String → Nat
  | left :: right :: rest =>
      (if Fuses left right then 1 else 0) + fusions (right :: rest)
  | _ => 0

/-- The first text is all that matters for what is before some texts. -/
theorem fuses_spaced (left : String) {text : String} (rest : List String)
    (there : text ≠ "") :
    Fuses left (spaced (text :: rest)) ↔ Fuses left text := by
  have starts : startsWord isAsciiBlank (spaced (text :: rest)).toList =
      startsWord isAsciiBlank text.toList := by
    cases rest with
    | nil => rfl
    | cons next rest =>
        obtain ⟨c, chars, some⟩ := List.exists_cons_of_ne_nil
          (mt String.toList_eq_nil_iff.mp there)
        simp [spaced, startsWord, some]
  rw [Fuses, Fuses, gap_spaced left rest there, starts]

/-- Where no neighbours fuse, texts keep their words. -/
theorem asciiWords_spaced {texts : List String}
    (there : ∀ text ∈ texts, text ≠ "") (apart : fusions texts = 0) :
    asciiWords (spaced texts) = texts.flatMap asciiWords := by
  induction texts with
  | nil => rfl
  | cons text rest ih =>
      cases rest with
      | nil => simp [spaced]
      | cons next rest =>
          have nextThere : next ≠ "" := there next (by simp)
          rw [fusions, Nat.add_eq_zero_iff] at apart
          have separate : ¬Fuses text next := fun fuses => by
            simp [fuses] at apart
          rw [← fuses_spaced text rest nextThere] at separate
          rw [spaced, ← gap_spaced text rest nextThere, asciiWords_gap separate,
            ih (fun other member => there other (.tail _ member)) apart.2]
          rfl

/-- Each two neighbours that fuse cost a word. -/
theorem length_asciiWords_spaced {texts : List String}
    (there : ∀ text ∈ texts, text ≠ "") :
    (asciiWords (spaced texts)).length + fusions texts =
      (texts.flatMap asciiWords).length := by
  induction texts with
  | nil => rfl
  | cons text rest ih =>
      cases rest with
      | nil => simp [spaced, fusions]
      | cons next rest =>
          have nextThere : next ≠ "" := there next (by simp)
          have behind := ih fun other member => there other (.tail _ member)
          rw [spaced, ← gap_spaced text rest nextThere, fusions,
            List.flatMap_cons, List.length_append, ← behind]
          by_cases fuses : Fuses text next
          · have joined := length_asciiWords_gap
              ((fuses_spaced text rest nextThere).mpr fuses)
            rw [if_pos fuses]
            omega
          · have joined := congrArg List.length (asciiWords_gap
              (mt (fuses_spaced text rest nextThere).mp fuses))
            rw [List.length_append] at joined
            rw [if_neg fuses]
            omega

theorem flatMap_asciiWords_filter (texts : List String) :
    (texts.filter (· ≠ "")).flatMap asciiWords = texts.flatMap asciiWords := by
  induction texts with
  | nil => rfl
  | cons text rest ih =>
      by_cases empty : text = ""
      · simpa [empty, asciiWords, wordsBy] using ih
      · simpa [empty] using ih

namespace Template

variable {σ : Type} {host : Host σ}

/-- The words of a class attribute that was worked in: a schema that comes to
nothing leaves none, or an attribute without words. -/
theorem flatMap_overlaid_class (seen : World σ) (m : NodeId) (schema : Schema)
    (current : Option String) :
    (overlaid host seen m "class" schema current).toList.flatMap asciiWords =
      asciiWords (spaced ((current.toList ++
        (truthyValues host seen m schema).map Value.domString).filter
          (· ≠ ""))) := by
  have kept : current.map (Blueprint.keptText "class") = current := by
    cases current <;> simp [Blueprint.keptText]
  unfold overlaid
  rw [overlaidTexts_extendable (by rfl), kept]
  split
  case isTrue => simp
  case isFalse none =>
    rw [ne_eq, not_not] at none
    rw [none]
    have empty : current.toList.flatMap asciiWords = [] := by
      rw [← flatMap_asciiWords_filter]
      rw [List.filter_append, List.append_eq_nil_iff] at none
      rw [none.1]
      rfl
    split
    · rfl
    · exact empty

/-- Once a template is worked into a tree, the words of a class attribute are
those it had before and those of the values in the schema, exactly if no
neighbours among these texts fuse; each two that fuse cost a word. -/
theorem class_keeps_words_iff {client : σ} {world : World σ}
    (reached : Run (World.initial client) world)
    (linked : world.dom.IsLinked) {t inner : TemplateId} {n m node : NodeId}
    (isTree : world.dom.IsTree n) (isPure : IsPure host world t n)
    (applied : (apply host t n).result world = .ok node)
    (matched : Matched world t n inner m)
    (isElement : (world.template inner).blueprint.text = none)
    {schema : Schema}
    (member : ("class", schema) ∈ (world.template inner).blueprint.attributes)
    (plain : schema.namespace? = none) :
    let later := (apply host t n).after world
    ∃ seen, world.Redresses (world.dom.Inside n) seen ∧
      let texts := (world.dom.attributeNs? m none "class").toList ++
        (truthyValues host seen m schema).map Value.domString
      let words := (later.dom.attributeNs? m none "class").toList.flatMap
        asciiWords
      (words = texts.flatMap asciiWords ↔
          fusions (texts.filter (· ≠ "")) = 0) ∧
        words.length + fusions (texts.filter (· ≠ "")) =
          (texts.flatMap asciiWords).length := by
  intro later
  have sound := (reached.progress (World.ordered_initial client)).1.sound
  obtain ⟨seen, moment, shown⟩ := overlies_apply sound linked isTree isPure
    applied matched isElement member rfl
  refine ⟨seen, moment, ?_⟩
  intro texts words
  dsimp only at shown
  rw [plain] at shown
  have read : words = asciiWords (spaced (texts.filter (· ≠ ""))) := by
    rw [← flatMap_overlaid_class, ← shown]
  have there : ∀ text ∈ texts.filter (· ≠ ""), text ≠ "" := fun text member => by
    simpa using (List.mem_filter.mp member).2
  have total := length_asciiWords_spaced there
  rw [read, ← flatMap_asciiWords_filter texts]
  refine ⟨⟨fun same => ?_, asciiWords_spaced there⟩, total⟩
  rw [same] at total
  omega

/-- A property of two words, and a word. -/
def badgeSchema : Schema :=
  [.bound ⟨⟨0⟩, ⟨0⟩, "kind", .value, none⟩, .fixed (.text "new")]

theorem applied_badge :
    (apply Card.client ⟨0⟩ ⟨0⟩).result
      (Paragraph.start "class" "old" badgeSchema) = .ok ⟨0⟩ := by
  decide +kernel

/-- A class attribute gets the words of a property and of a fixed value. -/
theorem class_keeps_words_badge :
    (((apply Card.client ⟨0⟩ ⟨0⟩).after
        (Paragraph.start "class" "old" badgeSchema)).dom.attributeNs? ⟨0⟩ none
          "class").toList.flatMap asciiWords =
      ["old", "wide", "open", "new"] := by
  obtain ⟨seen, moment, keeps, _⟩ := class_keeps_words_iff
    (Paragraph.reached _ _ _) (Paragraph.linked _ _ _) (Paragraph.isTree _ _ _)
    (Paragraph.isPure _ _ _) applied_badge (.root _ _) rfl (.head _) rfl
  have values : (truthyValues Card.client seen ⟨0⟩ badgeSchema).map
      Value.domString = ["wide open", "new"] := by
    have shown : (Binding.evaluate Card.client ⟨0⟩
        ⟨⟨0⟩, ⟨0⟩, "kind", .value, none⟩).result seen = .text "wide open" :=
      congrFun (congrFun moment.spares.property ⟨0⟩) "kind"
    simp [truthyValues, badgeSchema, valuesAny, Chunk.values, shown,
      List.filter_cons, Value.isTruthy, Value.isFalsy, Value.domString]
  rw [values] at keeps
  exact (keeps.mpr (by decide +kernel)).trans (by decide +kernel)

/-- A blank that separates no words keeps a class of the template from being
one. -/
theorem class_fuses_words :
    let start := Paragraph.start "class" "a\u00a0" [.fixed (.text "b")]
    let later := (apply Card.client ⟨0⟩ ⟨0⟩).after start
    (apply Card.client ⟨0⟩ ⟨0⟩).result start = .ok ⟨0⟩ ∧
      start.dom.attributeNs? ⟨0⟩ none "class" = some "a\u00a0" ∧
      later.dom.attributeNs? ⟨0⟩ none "class" = some "a\u00a0b" ∧
      asciiWords "a\u00a0b" = ["a\u00a0b"] ∧
      asciiWords "a\u00a0" ++ asciiWords "b" = ["a\u00a0", "b"] := by
  decide +kernel

end Template

end LiveTemplate
