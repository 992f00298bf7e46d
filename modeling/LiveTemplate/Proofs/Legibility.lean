import Mathlib.Data.List.Chain
import Mathlib.Data.List.TakeWhile
import LiveTemplate.Proofs.Fixtures

/-!
# Markup tells trees apart

Reading markup from the left, it is always known what comes next: names end
where other characters stand, escaped text has no angle bracket and escaped
values have no double quote, and an element is closed by its own end tag.
Therefore two trees with the same markup are the same, as long as neighbouring
texts, empty texts and the children of void elements do not blur the picture.
-/

namespace LiveTemplate

/-- Every character is written as something, and what was written first can be
told from the beginning. -/
structure IsCode (write : Char → List Char) : Prop where
  written : ∀ c, write c ≠ []
  first : ∀ {c d rest others}, write c ++ rest = write d ++ others → c = d

theorem IsCode.injective {write : Char → List Char} (code : IsCode write)
    {text other : List Char}
    (same : text.flatMap write = other.flatMap write) : text = other := by
  induction text generalizing other with
  | nil =>
      cases other with
      | nil => rfl
      | cons d others =>
          rw [List.flatMap_cons] at same
          exact absurd (List.append_eq_nil_iff.mp same.symm).1 (code.written d)
  | cons c rest ih =>
      cases other with
      | nil =>
          rw [List.flatMap_cons] at same
          exact absurd (List.append_eq_nil_iff.mp same).1 (code.written c)
      | cons d others =>
          rw [List.flatMap_cons, List.flatMap_cons] at same
          obtain rfl := code.first same
          rw [ih (List.append_cancel_left same)]

private theorem isCode_escapeTextChar : IsCode fun c =>
    (escapeTextChar c).toList where
  written c := by
    unfold escapeTextChar
    split_ifs <;> simp
  first {c d rest others} same := by
    unfold escapeTextChar at same
    split_ifs at same <;> simp_all
    all_goals exact absurd same.1.symm ‹¬d = '&'›

private theorem isCode_escapeAttributeChar :
    IsCode fun c => (escapeAttributeChar c).toList where
  written c := by
    unfold escapeAttributeChar
    split_ifs <;> simp
  first {c d rest others} same := by
    unfold escapeAttributeChar at same
    split_ifs at same <;> simp_all
    all_goals exact absurd same.1.symm ‹¬d = '&'›

theorem toList_escapeText (data : String) :
    (escapeText data).toList =
      data.toList.flatMap fun c => (escapeTextChar c).toList := by
  rw [escapeText, String.toList_join, List.flatMap_map]

theorem toList_escapeAttribute (value : String) :
    (escapeAttribute value).toList =
      value.toList.flatMap fun c => (escapeAttributeChar c).toList := by
  rw [escapeAttribute, String.toList_join, List.flatMap_map]

theorem escapeText_injective {data other : String}
    (same : (escapeText data).toList = (escapeText other).toList) :
    data = other := by
  rw [toList_escapeText, toList_escapeText] at same
  exact String.toList_inj.mp (isCode_escapeTextChar.injective same)

private theorem escapeAttribute_injective {value other : String}
    (same : (escapeAttribute value).toList = (escapeAttribute other).toList) :
    value = other := by
  rw [toList_escapeAttribute, toList_escapeAttribute] at same
  exact String.toList_inj.mp (isCode_escapeAttributeChar.injective same)

/-- The characters of a reference are letters between its two signs. -/
theorem plain_of_mem_reference {reference : String} {c : Char}
    (isReference : reference ∈ ["&amp;", "&lt;", "&gt;", "&quot;", "&nbsp;"])
    (member : c ∈ reference.toList) :
    (c != '<') = true ∧ (c != '"') = true := by
  have plain :
      (["&amp;", "&lt;", "&gt;", "&quot;", "&nbsp;"].all fun reference =>
        reference.toList.all fun c => c != '<' && c != '"') = true := by
    decide
  have each := List.all_eq_true.mp plain reference isReference
  exact Bool.and_eq_true_iff.mp (List.all_eq_true.mp each c member)

theorem not_tag_of_mem_escapeText {data : String} :
    ∀ c ∈ (escapeText data).toList, (c != '<') = true := by
  intro c member
  rw [toList_escapeText] at member
  obtain ⟨d, _, written⟩ := List.mem_flatMap.mp member
  unfold escapeTextChar at written
  split_ifs at written with _ tag
  · exact (plain_of_mem_reference (by decide) written).1
  · exact (plain_of_mem_reference (by decide) written).1
  · exact (plain_of_mem_reference (by decide) written).1
  · exact (plain_of_mem_reference (by decide) written).1
  · rw [String.toList_singleton, List.mem_singleton] at written
    rw [written, bne, Bool.not_eq_true', ← Bool.not_eq_true]
    exact tag

/-- A value does not end before its closing quote. -/
theorem not_quote_of_mem_escapeAttribute {value : String} :
    ∀ c ∈ (escapeAttribute value).toList, (c != '"') = true := by
  intro c member
  rw [toList_escapeAttribute] at member
  obtain ⟨d, _, written⟩ := List.mem_flatMap.mp member
  unfold escapeAttributeChar at written
  split_ifs at written with _ quote
  · exact (plain_of_mem_reference (by decide) written).2
  · exact (plain_of_mem_reference (by decide) written).2
  · exact (plain_of_mem_reference (by decide) written).2
  · rw [String.toList_singleton, List.mem_singleton] at written
    rw [written, bne, Bool.not_eq_true', ← Bool.not_eq_true]
    exact quote

/-- What is read up to a character of another kind is determined. -/
theorem eq_of_stopped {stays : Char → Bool} {text other rest others : List Char}
    (first : ∀ c ∈ text, stays c = true) (second : ∀ c ∈ other, stays c = true)
    (stops : rest.takeWhile stays = []) (ends : others.takeWhile stays = [])
    (same : text ++ rest = other ++ others) : text = other ∧ rest = others := by
  have read := congrArg (List.takeWhile stays) same
  rw [List.takeWhile_append_of_pos first, List.takeWhile_append_of_pos second,
    stops, ends, List.append_nil, List.append_nil] at read
  subst read
  exact ⟨rfl, List.append_cancel_left same⟩

/-- The characters of a name. -/
def isNameChar (c : Char) : Bool :=
  c.isAlphanum || c == '-'

/-- A lower-case letter, and after it lower-case letters and digits. -/
def IsTagName (name : String) : Prop :=
  ∃ first rest, name.toList = first :: rest ∧ first.isLower = true ∧
    ∀ c ∈ rest, c.isLower = true ∨ c.isDigit = true

/-- Letters, digits and hyphens. -/
def IsAttributeName (name : String) : Prop :=
  name ≠ "" ∧ ∀ c ∈ name.toList, isNameChar c = true

theorem IsTagName.isNameChar {name : String} (isName : IsTagName name) :
    ∀ c ∈ name.toList, isNameChar c = true := by
  obtain ⟨first, rest, spelled, letter, others⟩ := isName
  intro c member
  unfold LiveTemplate.isNameChar Char.isAlphanum Char.isAlpha
  rw [spelled] at member
  rcases List.mem_cons.mp member with rfl | later
  · simp [letter]
  · rcases others c later with lower | digit <;> simp [*]

/-- The characters of an attribute in a start tag. -/
def attributeChars (entry : String × String) : List Char :=
  ' ' :: (entry.1.toList ++ '=' :: '"' ::
    ((escapeAttribute entry.2).toList ++ ['"']))

/-- The attributes of a start tag end where it does. -/
theorem attributes_unique {attributes others : List (String × String)}
    {rest tail : List Char}
    (named : ∀ entry ∈ attributes, IsAttributeName entry.1)
    (spelled : ∀ entry ∈ others, IsAttributeName entry.1)
    (same : attributes.flatMap attributeChars ++ '>' :: rest =
      others.flatMap attributeChars ++ '>' :: tail) :
    attributes = others ∧ rest = tail := by
  induction attributes generalizing others with
  | nil =>
      cases others with
      | nil => exact ⟨rfl, by simpa using same⟩
      | cons entry _ => simp [attributeChars] at same
  | cons entry entries ih =>
      cases others with
      | nil => simp [attributeChars] at same
      | cons other others =>
          obtain ⟨name, value⟩ := entry
          obtain ⟨otherName, otherValue⟩ := other
          simp only [List.flatMap_cons, attributeChars, List.cons_append,
            List.append_assoc, List.cons.injEq, true_and,
            List.nil_append] at same
          obtain ⟨names, same⟩ := eq_of_stopped
            (named (name, value) (.head _)).2
            (spelled (otherName, otherValue) (.head _)).2 rfl rfl same
          simp only [List.cons.injEq, true_and] at same
          obtain ⟨values, same⟩ := eq_of_stopped
            not_quote_of_mem_escapeAttribute not_quote_of_mem_escapeAttribute
            rfl rfl same
          simp only [List.cons.injEq, true_and] at same
          obtain ⟨later, rests⟩ := ih
            (fun entry member => named entry (.tail _ member))
            (fun entry member => spelled entry (.tail _ member)) same
          obtain rfl : name = otherName := String.toList_inj.mp names
          obtain rfl := escapeAttribute_injective values
          exact ⟨congrArg _ later, rests⟩

theorem toList_startTag (tag : String) (attributes : List (String × String)) :
    (startTag tag (attributes.map Attribute.plain)).toList =
      '<' :: (tag.toList ++ (attributes.flatMap attributeChars ++ ['>'])) := by
  have entry (entry : String × String) :
      (Attribute.plain entry).markup.toList = attributeChars entry := by
    simp [Attribute.markup, Attribute.plain, attributeChars]
  simp [startTag, String.toList_join, List.flatMap_map, entry]

theorem startTag_unique {tag other : String}
    {attributes others : List (String × String)} {rest tail : List Char}
    (isTag : IsTagName tag) (isOther : IsTagName other)
    (named : ∀ entry ∈ attributes, IsAttributeName entry.1)
    (spelled : ∀ entry ∈ others, IsAttributeName entry.1)
    (same : (startTag tag (attributes.map Attribute.plain)).toList ++ rest =
      (startTag other (others.map Attribute.plain)).toList ++ tail) :
    tag = other ∧ attributes = others ∧ rest = tail := by
  have stops (entries : List (String × String)) (rest : List Char) :
      (entries.flatMap attributeChars ++ '>' :: rest).takeWhile isNameChar =
        [] := by
    cases entries <;> rfl
  simp only [toList_startTag, List.cons_append, List.append_assoc,
    List.nil_append, List.cons.injEq, true_and] at same
  obtain ⟨tags, same⟩ := eq_of_stopped isTag.isNameChar isOther.isNameChar
    (stops attributes rest) (stops others tail) same
  exact ⟨String.toList_inj.mp tags, attributes_unique named spelled same⟩

namespace Fixture

def isTextual : Fixture → Bool
  | text _ => true
  | element _ _ _ => false

/-- No two texts are neighbours. -/
def AreApart (fixtures : List Fixture) : Prop :=
  fixtures.IsChain fun one other => ¬(one.isTextual ∧ other.isTextual)

/-- A tree that could have been read: elements and attributes have proper
names, void elements are empty, and no text is empty or next to another. -/
inductive IsNormal : Fixture → Prop where
  | element {tag : String} {attributes : List (String × String)}
      {children : List Fixture} :
      IsTagName tag →
      (∀ entry ∈ attributes, IsAttributeName entry.1) →
      (attributes.map (·.1)).Nodup →
      (tag ∈ voidTags → children = []) →
      (∀ child ∈ children, IsNormal child) →
      AreApart children →
      IsNormal (.element tag attributes children)
  | text {data : String} : data ≠ "" → IsNormal (.text data)

mutual

theorem IsNormal.isNamed (fixture : Fixture) (normal : fixture.IsNormal) :
    fixture.IsNamed := by
  cases fixture with
  | text data => trivial
  | element tag attributes children =>
      cases normal with
      | element _ _ nodup _ normal =>
          rw [IsNamed]
          exact ⟨nodup, areNamed_of_normal children normal⟩

theorem areNamed_of_normal (fixtures : List Fixture)
    (normal : ∀ fixture ∈ fixtures, fixture.IsNormal) : AreNamed fixtures := by
  cases fixtures with
  | nil => trivial
  | cons fixture rest =>
      rw [AreNamed]
      exact ⟨IsNormal.isNamed fixture (normal fixture (.head _)),
        areNamed_of_normal rest fun other member =>
          normal other (.tail _ member)⟩

end

/-- The markup of a fixture, character by character. -/
def chars (fixture : Fixture) : List Char :=
  fixture.tree.markup.toList

def allChars (fixtures : List Fixture) : List Char :=
  (Tree.markups (trees fixtures)).toList

@[simp] theorem allChars_nil : allChars [] = [] := rfl

@[simp] theorem allChars_cons (fixture : Fixture) (rest : List Fixture) :
    allChars (fixture :: rest) = fixture.chars ++ allChars rest := by
  rw [allChars, trees, Tree.markups, String.toList_append]
  rfl

@[simp] theorem chars_text (data : String) :
    (text data).chars = (escapeText data).toList := by
  rw [chars, tree, Tree.markup]

/-- What follows the start tag of an element. -/
def inner (tag : String) (children : List Fixture) : List Char :=
  if tag ∈ voidTags ∧ children = [] then []
  else allChars children ++ '<' :: '/' :: (tag.toList ++ ['>'])

theorem chars_element (tag : String) (attributes : List (String × String))
    (children : List Fixture) :
    (element tag attributes children).chars =
      (startTag tag (attributes.map Attribute.plain)).toList ++
        inner tag children := by
  rw [chars, tree, Tree.markup, String.toList_append]
  congr 1
  unfold inner
  have empty : (trees children).isEmpty = true ↔ children = [] := by
    cases children <;> simp [trees]
  by_cases void : tag ∈ voidTags ∧ children = []
  · rw [if_pos void, if_pos]
    · rfl
    · simp [empty.mpr void.2, void.1]
  · rw [if_neg void, if_neg]
    · simp [allChars]
    · simpa [empty, and_comm] using void

/-- The end of what is inside an element, or of everything. -/
def Ends (rest : List Char) : Prop :=
  rest = [] ∨ ∃ more, rest = '<' :: '/' :: more

/-- A text begins with another character than a tag, an element with its
tag. -/
theorem IsNormal.chars_head {fixture : Fixture} (normal : fixture.IsNormal) :
    ∃ c more, fixture.chars = c :: more ∧
      if fixture.isTextual then c ≠ '<'
      else c = '<' ∧ ∃ d others, more = d :: others ∧ d ≠ '/' := by
  cases normal with
  | @text data filled =>
      have written : (escapeText data).toList ≠ [] := by
        intro none
        apply filled
        exact escapeText_injective (by rw [none]; rfl)
      obtain ⟨c, more, spelled⟩ := List.exists_cons_of_ne_nil written
      refine ⟨c, more, by rw [chars_text, spelled], ?_⟩
      have head : c ∈ (escapeText data).toList := by
        rw [spelled]
        exact .head _
      simpa [isTextual] using not_tag_of_mem_escapeText c head
  | @element tag attributes children isTag =>
      obtain ⟨first, rest, spelled, letter, _⟩ := isTag
      refine ⟨'<', _, by rw [chars_element, toList_startTag]; rfl, ?_⟩
      simp only [isTextual, Bool.false_eq_true, if_false, true_and]
      refine ⟨first, _, by rw [spelled]; rfl, ?_⟩
      rintro rfl
      cases letter

theorem IsNormal.not_ends {fixture : Fixture} (normal : fixture.IsNormal)
    (rest : List Char) : ¬Ends (fixture.chars ++ rest) := by
  obtain ⟨c, more, spelled, head⟩ := normal.chars_head
  rw [spelled]
  rintro (none | ⟨others, same⟩)
  · cases none
  · simp only [List.cons_append, List.cons.injEq] at same
    split at head
    · exact head same.1
    · obtain ⟨_, d, after, found, other⟩ := head
      rw [found, List.cons_append, List.cons.injEq] at same
      exact other same.2.1

/-- The first character tells texts from elements. -/
theorem IsNormal.isTextual_eq {fixture other : Fixture} {rest tail : List Char}
    (normal : fixture.IsNormal) (twin : other.IsNormal)
    (same : fixture.chars ++ rest = other.chars ++ tail) :
    fixture.isTextual = other.isTextual := by
  obtain ⟨c, more, spelled, head⟩ := normal.chars_head
  obtain ⟨d, others, written, start⟩ := twin.chars_head
  rw [spelled, written] at same
  obtain rfl := (List.cons.inj same).1
  cases first : fixture.isTextual <;> cases second : other.isTextual <;>
    simp_all

theorem AreApart.takeWhile {fixture : Fixture} {rest : List Fixture}
    {tail : List Char} (apart : AreApart (fixture :: rest))
    (normal : ∀ fixture ∈ rest, fixture.IsNormal) (ends : Ends tail)
    (textual : fixture.isTextual = true) :
    (allChars rest ++ tail).takeWhile (· != '<') = [] := by
  cases rest with
  | nil => rcases ends with rfl | ⟨more, rfl⟩ <;> rfl
  | cons next others =>
      obtain ⟨c, more, spelled, head⟩ := (normal next (.head _)).chars_head
      have element : ¬next.isTextual = true := fun second =>
        (List.isChain_cons_cons.mp apart).1 ⟨textual, second⟩
      rw [if_neg element] at head
      rw [allChars_cons, spelled, head.1]
      rfl

mutual

/-- An element is read up to its end, and a text up to the next tag. -/
theorem chars_unique (fixture : Fixture) {other : Fixture}
    {rest tail : List Char} (normal : fixture.IsNormal)
    (twin : other.IsNormal)
    (stops : fixture.isTextual = true → rest.takeWhile (· != '<') = [])
    (stopsToo : other.isTextual = true → tail.takeWhile (· != '<') = [])
    (same : fixture.chars ++ rest = other.chars ++ tail) :
    fixture = other ∧ rest = tail := by
  have kind := normal.isTextual_eq twin same
  cases fixture with
  | text data =>
      cases other with
      | element => cases kind
      | text datum =>
          rw [chars_text, chars_text] at same
          obtain ⟨data, rests⟩ := eq_of_stopped not_tag_of_mem_escapeText
            not_tag_of_mem_escapeText (stops rfl) (stopsToo rfl) same
          rw [escapeText_injective data]
          exact ⟨rfl, rests⟩
  | element tag attributes children =>
      cases other with
      | text => cases kind
      | element other others twins =>
          cases normal with
          | element isTag named _ empty normal apart =>
          cases twin with
          | element isOther spelled _ emptyToo twin apartToo =>
          rw [chars_element, chars_element, List.append_assoc,
            List.append_assoc] at same
          obtain ⟨rfl, rfl, inside⟩ :=
            startTag_unique isTag isOther named spelled same
          by_cases void : tag ∈ voidTags
          · rw [empty void, emptyToo void] at inside ⊢
            exact ⟨rfl, List.append_cancel_left inside⟩
          · simp only [inner, void, false_and, if_false, List.append_assoc,
              List.cons_append] at inside
            obtain ⟨rfl, after⟩ := allChars_unique children normal twin apart
              apartToo (.inr ⟨_, rfl⟩) (.inr ⟨_, rfl⟩) inside
            simp only [List.cons.injEq, true_and] at after
            have rests := List.append_cancel_left after
            exact ⟨rfl, (List.cons.inj rests).2⟩

/-- Neighbours are read one after the other. -/
theorem allChars_unique (fixtures : List Fixture) {others : List Fixture}
    {rest tail : List Char}
    (normal : ∀ fixture ∈ fixtures, fixture.IsNormal)
    (twin : ∀ fixture ∈ others, fixture.IsNormal)
    (apart : AreApart fixtures) (apartToo : AreApart others)
    (ends : Ends rest) (endsToo : Ends tail)
    (same : allChars fixtures ++ rest = allChars others ++ tail) :
    fixtures = others ∧ rest = tail := by
  cases fixtures with
  | nil =>
      cases others with
      | nil => exact ⟨rfl, same⟩
      | cons other others =>
          rw [allChars_nil, List.nil_append, allChars_cons,
            List.append_assoc] at same
          exact absurd (same ▸ ends) ((twin other (.head _)).not_ends _)
  | cons fixture fixtures =>
      cases others with
      | nil =>
          rw [allChars_nil, List.nil_append, allChars_cons,
            List.append_assoc] at same
          exact absurd (same.symm ▸ endsToo)
            ((normal fixture (.head _)).not_ends _)
      | cons other others =>
          have later : ∀ fixture ∈ fixtures, fixture.IsNormal :=
            fun fixture member => normal fixture (.tail _ member)
          have laterToo : ∀ fixture ∈ others, fixture.IsNormal :=
            fun fixture member => twin fixture (.tail _ member)
          rw [allChars_cons, allChars_cons, List.append_assoc,
            List.append_assoc] at same
          obtain ⟨heads, others⟩ := chars_unique fixture
            (normal fixture (.head _)) (twin other (.head _))
            (apart.takeWhile later ends) (apartToo.takeWhile laterToo endsToo)
            same
          obtain ⟨tails, rests⟩ := allChars_unique fixtures later laterToo
            (List.isChain_cons.mp apart).2 (List.isChain_cons.mp apartToo).2
            ends endsToo others
          exact ⟨by rw [heads, tails], rests⟩

end

/-- Fixtures that have been mounted have the same markup only if they are the
same, in whatever documents they are. -/
theorem outerHtml_mount_inj (dom other : Dom) {one twin : Fixture}
    (normal : one.IsNormal) (normalToo : twin.IsNormal) :
    (mount dom one).2.outerHtml (mount dom one).1 =
        (mount other twin).2.outerHtml (mount other twin).1 ↔
      one = twin := by
  rw [outerHtml_mount dom normal.isNamed, outerHtml_mount other
    normalToo.isNamed]
  constructor
  · intro same
    have read : one.chars ++ [] = twin.chars ++ [] := by
      rw [chars, chars, same]
    exact (chars_unique one normal normalToo (fun _ => rfl) (fun _ => rfl)
      read).1
  · exact fun same => congrArg (fun fixture => fixture.tree.markup) same

/-- A paragraph with a title that needs escaping. -/
def titled (children : List Fixture) : Fixture :=
  element "p" [("title", "\"<b>\" & \u00A0")] children

theorem isNormal_titled {child : Fixture} (normal : child.IsNormal) :
    (titled [child]).IsNormal := by
  refine .element ⟨'p', [], rfl, by decide, fun _ member => nomatch member⟩
    ?_ (by decide) (fun void => absurd void (by decide)) ?_ (.singleton child)
  · intro entry member
    rw [List.mem_singleton.mp member]
    exact ⟨by decide, List.all_eq_true.mp rfl⟩
  · intro other member
    rw [List.mem_singleton.mp member]
    exact normal

/-- A bold letter and a text that spells its tags out look different, also
when one is in an empty document and the other is not. -/
theorem outerHtml_bold_ne_spelled :
    let bold : Fixture := titled [element "b" [] [text "x"]]
    let spelled : Fixture := titled [text "<b>x</b>"]
    let dom : Dom := (Dom.empty.create .fragment).2
    bold.IsNormal ∧ spelled.IsNormal ∧
      (mount .empty bold).2.outerHtml (mount .empty bold).1 ≠
        (mount dom spelled).2.outerHtml (mount dom spelled).1 := by
  intro bold spelled dom
  have normal : bold.IsNormal := by
    refine isNormal_titled (.element ⟨'b', [], rfl, by decide,
      fun _ member => nomatch member⟩ (fun _ member => nomatch member) .nil
      (fun void => absurd void (by decide)) ?_ (.singleton _))
    intro child member
    rw [List.mem_singleton.mp member]
    exact .text (by decide)
  have normalToo : spelled.IsNormal := isNormal_titled (.text (by decide))
  refine ⟨normal, normalToo, fun same => ?_⟩
  have impossible :=
    (outerHtml_mount_inj .empty dom normal normalToo).mp same
  simp [bold, spelled, titled] at impossible

end Fixture

end LiveTemplate
