import Mathlib.Data.List.Forall2
import LiveTemplate.Dom.Navigation
import LiveTemplate.Proofs.Journeys

/-!
# Selectors on corresponding trees

Two trees correspond if they differ at most in the attributes that carry a
namespace.  Selectors are to see no such attribute, so that they are to match
corresponding nodes alike.

What a selector sees of an attribute is what a look-up by name finds, which is
the first attribute with that name, whatever its namespace.  All else that it
sees is the same in corresponding trees, whatever the selector.  So selectors
match corresponding nodes alike exactly if those look-ups find the same:
`matches_alike_iff`.  An attribute with a namespace is seen where it comes
before one of the same name without a namespace, or where there is none.
-/

namespace LiveTemplate

namespace Selector

variable {α β : Type}

/-- Corresponding elements look the same in two views, and so do the elements
around them. -/
structure ElementView.Alike (one : ElementView α) (other : ElementView β)
    (Same : α → β → Prop) : Prop where
  tag : ∀ {a b}, Same a b → one.tag a = other.tag b
  namespaceOf : ∀ {a b}, Same a b → one.namespaceOf a = other.namespaceOf b
  attributes : ∀ {a b}, Same a b → ∀ name,
    one.attributeOf a (one.nameFor a name) =
      other.attributeOf b (one.nameFor a name)
  ancestors : ∀ {a b}, Same a b →
    List.Forall₂ Same (one.ancestors a) (other.ancestors b)
  preceding : ∀ {a b}, Same a b →
    List.Forall₂ Same (one.preceding a) (other.preceding b)
  following : ∀ {a b}, Same a b →
    List.Forall₂ Same (one.following a) (other.following b)
  isEmpty : ∀ {a b}, Same a b → one.isEmpty a = other.isEmpty b

namespace ElementView.Alike

variable {one : ElementView α} {other : ElementView β} {Same : α → β → Prop}
  {a : α} {b : β}

theorem isHtml (alike : one.Alike other Same) (same : Same a b) :
    one.isHtml a = other.isHtml b := by
  rw [ElementView.isHtml, ElementView.isHtml, alike.namespaceOf same]

theorem nameFor (alike : one.Alike other Same) (same : Same a b)
    (name : String) : one.nameFor a name = other.nameFor b name := by
  rw [ElementView.nameFor, ElementView.nameFor, alike.isHtml same]

theorem attribute_lower (alike : one.Alike other Same) (same : Same a b)
    {name : String} (lower : name.toLower = name) :
    one.attributeOf a name = other.attributeOf b name := by
  have asked : one.nameFor a name = name := by
    rw [ElementView.nameFor, lower, ite_self]
  have found := alike.attributes same name
  rwa [asked] at found

theorem attributeHolds (alike : one.Alike other Same) (same : Same a b)
    (required : AttributeTest) :
    one.attributeHolds a required = other.attributeHolds b required := by
  rw [ElementView.attributeHolds, ElementView.attributeHolds,
    alike.attributes same, alike.nameFor same, alike.isHtml same]

theorem sameType (alike : one.Alike other Same) (same : Same a b) {a' : α}
    {b' : β} (same' : Same a' b') :
    one.sameType a a' = other.sameType b b' := by
  rw [ElementView.sameType, ElementView.sameType, alike.tag same,
    alike.tag same', alike.namespaceOf same, alike.namespaceOf same']

theorem counted (alike : one.Alike other Same) (same : Same a b)
    (counting : Counting) :
    List.Forall₂ Same (one.counted a counting) (other.counted b counting) := by
  have side : List.Forall₂ Same
      (if counting.fromEnd then one.following a else one.preceding a)
      (if counting.fromEnd then other.following b else other.preceding b) := by
    split
    · exact alike.following same
    · exact alike.preceding same
  unfold ElementView.counted
  dsimp only
  split
  · exact List.rel_filter
      (fun _ _ same' => Bool.eq_iff_iff.mp (alike.sameType same same')) side
  · exact side

theorem place (alike : one.Alike other Same) (same : Same a b)
    (counting : Counting) :
    one.place a counting = other.place b counting := by
  rw [ElementView.place, ElementView.place,
    (alike.counted same counting).length_eq]

theorem isFirst (alike : one.Alike other Same) (same : Same a b)
    (counting : Counting) :
    one.isFirst a counting = other.isFirst b counting := by
  have length := (alike.counted same counting).length_eq
  rw [ElementView.isFirst, ElementView.isFirst, Bool.eq_iff_iff,
    List.isEmpty_iff_length_eq_zero, List.isEmpty_iff_length_eq_zero, length]

theorem candidates (alike : one.Alike other Same) (same : Same a b)
    (combinator : Combinator) :
    List.Forall₂ Same (one.candidates a combinator)
      (other.candidates b combinator) := by
  cases combinator with
  | child => exact List.forall₂_take 1 (alike.ancestors same)
  | descendant => exact alike.ancestors same
  | nextSibling => exact List.forall₂_take 1 (alike.preceding same)
  | laterSibling => exact alike.preceding same

theorem isTop (alike : one.Alike other Same) (same : Same a b) :
    (one.ancestors a).isEmpty = (other.ancestors b).isEmpty := by
  have length := (alike.ancestors same).length_eq
  rw [Bool.eq_iff_iff, List.isEmpty_iff_length_eq_zero,
    List.isEmpty_iff_length_eq_zero, length]

end ElementView.Alike

/-- The test for an attribute with exactly a value. -/
def AttributeTest.equal (name value : String) : AttributeTest :=
  ⟨false, name, some ⟨.equal, value, .exact⟩⟩

private theorem ElementView.attributeHolds_equal (view : ElementView α) (a : α)
    (name value : String) :
    view.attributeHolds a (.equal name value) = true ↔
      view.attributeOf a (view.nameFor a name) = some value := by
  unfold attributeHolds AttributeTest.equal
  dsimp only
  cases view.attributeOf a (view.nameFor a name) with
  | none => simp
  | some actual =>
      simp [ValueTest.holds, CaseRule.ignoresCase, Comparison.holds,
        String.toList_inj]

theorem Combinator.search_congr {Same : α → β → Prop} (combinator : Combinator)
    {attempt : α → Outcome} {attempt' : β → Outcome}
    (each : ∀ a b, Same a b → attempt a = attempt' b) {candidates : List α}
    {candidates' : List β} (same : List.Forall₂ Same candidates candidates') :
    combinator.search attempt candidates =
      combinator.search attempt' candidates' := by
  induction same with
  | nil => rfl
  | cons here _ ih =>
      unfold search
      rw [each _ _ here, ih]

section Alike

variable {one : ElementView α} {other : ElementView β} {Same : α → β → Prop}

/- A selector is tested against the elements around one only through
selectors that are parts of it: the induction is on the selector, for all pairs
of elements at once. -/
mutual

theorem Simple.holds_alike (alike : one.Alike other Same) (simple : Simple)
    (a : α) (b : β) (same : Same a b) :
    simple.holds one a = simple.holds other b := by
  cases simple with
  | universal => rfl
  | noNamespace => rw [Simple.holds, Simple.holds, alike.namespaceOf same]
  | tag name =>
      rw [Simple.holds, Simple.holds, alike.tag same, alike.nameFor same]
  | id name =>
      rw [Simple.holds, Simple.holds,
        alike.attribute_lower same (by decide +kernel)]
  | className name =>
      rw [Simple.holds, Simple.holds,
        alike.attribute_lower same (by decide +kernel)]
  | withAttribute test =>
      rw [Simple.holds, Simple.holds, alike.attributeHolds same]
  | root => rw [Simple.holds, Simple.holds, alike.isTop same]
  | scope => rw [Simple.holds, Simple.holds, alike.isTop same]
  | empty => rw [Simple.holds, Simple.holds, alike.isEmpty same]
  | firstChild => rw [Simple.holds, Simple.holds, alike.isFirst same]
  | lastChild => rw [Simple.holds, Simple.holds, alike.isFirst same]
  | onlyChild =>
      rw [Simple.holds, Simple.holds, alike.isFirst same, alike.isFirst same]
  | firstOfType => rw [Simple.holds, Simple.holds, alike.isFirst same]
  | lastOfType => rw [Simple.holds, Simple.holds, alike.isFirst same]
  | onlyOfType =>
      rw [Simple.holds, Simple.holds, alike.isFirst same, alike.isFirst same]
  | position counting step offset =>
      rw [Simple.holds, Simple.holds, alike.place same]
  | negation selectors =>
      rw [Simple.holds, Simple.holds, anyHolds_alike alike selectors a b same]
  | anyOf selectors =>
      rw [Simple.holds, Simple.holds, anyHolds_alike alike selectors a b same]
  | anyWithoutWeight selectors =>
      rw [Simple.holds, Simple.holds, anyHolds_alike alike selectors a b same]
  | host selector => rfl

theorem allHold_alike (alike : one.Alike other Same) (parts : List Simple)
    (a : α) (b : β) (same : Same a b) :
    allHold one parts a = allHold other parts b := by
  cases parts with
  | nil => rfl
  | cons part parts =>
      rw [allHold, allHold, Simple.holds_alike alike part a b same,
        allHold_alike alike parts a b same]

theorem Complex.attempt_alike (alike : one.Alike other Same)
    (selector : Complex) (a : α) (b : β) (same : Same a b) :
    selector.attempt one a = selector.attempt other b := by
  cases selector with
  | compound last =>
      rw [Complex.attempt, Complex.attempt, allHold_alike alike last a b same]
  | combined left combinator last =>
      rw [Complex.attempt, Complex.attempt, allHold_alike alike last a b same,
        combinator.search_congr
          (fun a b same => Complex.attempt_alike alike left a b same)
          (alike.candidates same combinator)]

theorem anyHolds_alike (alike : one.Alike other Same)
    (selectors : List Complex) (a : α) (b : β) (same : Same a b) :
    anyHolds one selectors a = anyHolds other selectors b := by
  cases selectors with
  | nil => rfl
  | cons selector selectors =>
      rw [anyHolds, anyHolds, Complex.attempt_alike alike selector a b same,
        anyHolds_alike alike selectors a b same]

end

end Alike

end Selector

/-- What a node is but for its attributes that carry a namespace. -/
def NodeKind.plain : NodeKind → NodeKind
  | .element namespaceName tag attributes =>
      .element namespaceName tag
        (attributes.filter (·.namespaceName.isNone))
  | .text data => .text data
  | .fragment => .fragment

namespace Dom

open Selector (SelectorList)

/-- Trees whose nodes can be put side by side, and differ at most in attributes
that carry a namespace. -/
structure Parallels (one other : Dom) (Same : NodeId → NodeId → Prop) :
    Prop where
  biUnique : Relator.BiUnique Same
  kinds : ∀ {n m}, Same n m → (one.kind n).plain = (other.kind m).plain
  children : ∀ {n m}, Same n m →
    List.Forall₂ Same (one.children n) (other.children m)
  parents : ∀ {n m}, Same n m →
    Option.Rel Same (one.parent? n) (other.parent? m)

namespace Parallels

variable {one other : Dom} {Same : NodeId → NodeId → Prop} {n m : NodeId}

theorem tag? (parallels : one.Parallels other Same) (same : Same n m) :
    one.tag? n = other.tag? m := by
  have kinds := parallels.kinds same
  unfold Dom.tag?
  cases left : one.kind n <;> cases right : other.kind m <;>
    simp_all [NodeKind.plain]

theorem namespace? (parallels : one.Parallels other Same)
    (same : Same n m) : one.namespace? n = other.namespace? m := by
  have kinds := parallels.kinds same
  unfold Dom.namespace?
  cases left : one.kind n <;> cases right : other.kind m <;>
    simp_all [NodeKind.plain]

theorem namespaceOf (parallels : one.Parallels other Same)
    (same : Same n m) :
    one.elementView.namespaceOf n = other.elementView.namespaceOf m :=
  congrArg (·.getD "") (parallels.namespace? same)

theorem nameFor (parallels : one.Parallels other Same) (same : Same n m)
    (name : String) :
    one.elementView.nameFor n name = other.elementView.nameFor m name := by
  unfold Selector.ElementView.nameFor Selector.ElementView.isHtml
  rw [parallels.namespaceOf same]

theorem isElement (parallels : one.Parallels other Same)
    (same : Same n m) : one.isElement n = other.isElement m := by
  have kinds := parallels.kinds same
  unfold Dom.isElement
  cases left : one.kind n <;> cases right : other.kind m <;>
    simp_all [NodeKind.plain]

/-- Corresponding nodes have the same place among their siblings. -/
theorem idxOf? (parallels : one.Parallels other Same) (same : Same n m)
    {row row' : List NodeId} (rows : List.Forall₂ Same row row') :
    row.idxOf? n = row'.idxOf? m := by
  induction rows with
  | nil => rfl
  | @cons a b _ _ here _ ih =>
      have first : a = n ↔ b = m := ⟨fun found =>
        parallels.biUnique.2 (found ▸ here) same, fun found =>
        parallels.biUnique.1 (found ▸ here) same⟩
      rw [List.idxOf?_cons, List.idxOf?_cons, ih]
      by_cases found : a = n
      · simp [found, first.mp found]
      · simp [found, mt first.mpr found]

theorem siblings (parallels : one.Parallels other Same)
    (same : Same n m) :
    List.Forall₂ Same (one.siblings n).1 (other.siblings m).1 ∧
      List.Forall₂ Same (one.siblings n).2 (other.siblings m).2 := by
  have parents := parallels.parents same
  unfold Dom.siblings indexInParent?
  generalize one.parent? n = above, other.parent? m = above' at parents ⊢
  cases parents with
  | none => exact ⟨.nil, .nil⟩
  | @some parent parent' aligned =>
      have rows := parallels.children aligned
      simp only [Option.bind_some, parallels.idxOf? same rows]
      cases (other.children parent').idxOf? m with
      | none => exact ⟨.nil, .nil⟩
      | some place =>
          exact ⟨List.forall₂_take place rows,
            List.forall₂_drop (place + 1) rows⟩

theorem ascends (parallels : one.Parallels other Same) {above above' :
    List NodeId} (ascends : one.Ascends n above)
    (ascends' : other.Ascends m above') (same : Same n m) :
    List.Forall₂ Same above above' := by
  induction ascends generalizing m above' with
  | top alone =>
      have parents := parallels.parents same
      rw [alone] at parents
      cases ascends' with
      | top => exact .nil
      | step under =>
          rw [under] at parents
          cases parents
  | step under _ ih =>
      have parents := parallels.parents same
      rw [under] at parents
      cases ascends' with
      | top alone =>
          rw [alone] at parents
          cases parents
      | step under' rest' =>
          rw [under'] at parents
          cases parents with
          | some aligned => exact .cons aligned (ih rest' aligned)

theorem elementAncestors (parallels : one.Parallels other Same)
    (forest : one.IsForest) (forest' : other.IsForest) (same : Same n m) :
    List.Forall₂ Same (one.elementAncestors n) (other.elementAncestors m) := by
  have rows := parallels.ascends (ascends_ancestors forest n)
    (ascends_ancestors forest' m) same
  unfold Dom.elementAncestors
  generalize one.ancestors n = above, other.ancestors m = above' at rows ⊢
  induction rows with
  | nil => exact .nil
  | cons here _ ih =>
      rw [List.takeWhile_cons, List.takeWhile_cons, parallels.isElement here]
      split
      · exact .cons here ih
      · exact .nil

theorem hasNoContent (parallels : one.Parallels other Same)
    (same : Same n m) : one.hasNoContent n = other.hasNoContent m := by
  have rows := parallels.children same
  unfold Dom.hasNoContent
  generalize one.children n = row, other.children m = row' at rows ⊢
  induction rows with
  | nil => rfl
  | @cons a b _ _ here _ ih =>
      have kinds := parallels.kinds here
      rw [List.all_cons, List.all_cons, ih]
      congr 1
      cases left : one.kind a <;> cases right : other.kind b <;>
        simp_all [NodeKind.plain]

/-- Where look-ups by name find the same, all looks the same. -/
theorem alike (parallels : one.Parallels other Same)
    (forest : one.IsForest) (forest' : other.IsForest)
    (found : ∀ n m, Same n m → ∀ name,
      one.attribute? n (one.elementView.nameFor n name) =
        other.attribute? m (one.elementView.nameFor n name)) :
    one.elementView.Alike other.elementView Same where
  tag same := congrArg (·.getD "") (parallels.tag? same)
  namespaceOf same := parallels.namespaceOf same
  attributes same := found _ _ same
  ancestors same := parallels.elementAncestors forest forest' same
  preceding same := List.rel_filter
    (fun _ _ here => Bool.eq_iff_iff.mp (parallels.isElement here))
    (List.rel_reverse (parallels.siblings same).1)
  following same := List.rel_filter
    (fun _ _ here => Bool.eq_iff_iff.mp (parallels.isElement here))
    (parallels.siblings same).2
  isEmpty same := parallels.hasNoContent same

end Parallels

/-- The selector for elements with exactly a value of an attribute. -/
def asking (name value : String) : SelectorList :=
  ⟨"", [.compound [.withAttribute (.equal name value)]]⟩

theorem isMatch_asking (dom : Dom) (n : NodeId) (name value : String) :
    dom.isMatch n (asking name value) = true ↔
      dom.isElement n = true ∧
        dom.attribute? n (dom.elementView.nameFor n name) = some value := by
  have holds := dom.elementView.attributeHolds_equal n name value
  have single : (asking name value).holds dom.elementView n =
      dom.elementView.attributeHolds n (.equal name value) := by
    unfold asking SelectorList.holds Selector.anyHolds Selector.anyHolds
      Selector.Complex.attempt Selector.allHold Selector.allHold
      Selector.Simple.holds
    cases dom.elementView.attributeHolds n (.equal name value) <;> simp
  rw [isMatch, Bool.and_eq_true, single, holds]
  rfl

theorem attribute?_of_not_element {dom : Dom} {n : NodeId}
    (other : dom.isElement n = false) (name : String) :
    dom.attribute? n name = none := by
  unfold isElement at other
  unfold attribute? attributes
  cases kind : dom.kind n with
  | element => simp [kind] at other
  | text => rfl
  | fragment => rfl

/-- Every selector matches corresponding nodes of corresponding trees alike
exactly if every look-up by a name that selectors ask for finds the same in
both. -/
theorem matches_alike_iff {one other : Dom} (forest : one.IsForest)
    (forest' : other.IsForest) {Same : NodeId → NodeId → Prop}
    (parallels : one.Parallels other Same) :
    (∀ list : SelectorList, ∀ n m, Same n m →
      one.isMatch n list = other.isMatch m list) ↔
    ∀ n m, Same n m → ∀ name,
      one.attribute? n (one.elementView.nameFor n name) =
        other.attribute? m (one.elementView.nameFor n name) := by
  constructor
  · intro matched n m same name
    have elements := parallels.isElement same
    have names := parallels.nameFor same name
    cases element : one.isElement n with
    | false =>
        rw [attribute?_of_not_element element,
          attribute?_of_not_element (elements ▸ element)]
    | true =>
        refine Option.ext fun value => ?_
        have asked := Bool.eq_iff_iff.mp (matched (asking name value) n m same)
        rw [isMatch_asking, isMatch_asking, ← elements, element, ← names]
          at asked
        simpa using asked
  · intro found list n m same
    have alike := parallels.alike forest forest' found
    rw [isMatch, isMatch, parallels.isElement same, SelectorList.holds,
      SelectorList.holds,
      Selector.anyHolds_alike alike list.selectors n m same]

end Dom

namespace Shadows

/-- A paragraph that stands alone, with some attributes. -/
def paragraph (attributes : List Attribute) : Dom :=
  (Dom.empty.create (.element Selector.htmlNamespace "p" attributes)).2

def named : Attribute := ⟨none, "id", "a"⟩

/-- An attribute of another vocabulary. -/
def foreign : Attribute := ⟨some "urn:x", "id", "a"⟩

/-- The first nodes of two documents. -/
def Roots (n m : NodeId) : Prop :=
  n = ⟨0⟩ ∧ m = ⟨0⟩

theorem isForest (attributes : List Attribute) :
    (paragraph attributes).IsForest :=
  Dom.isForest_empty.create _

theorem parallels {one other : List Attribute}
    (plain : one.filter (·.namespaceName.isNone) =
      other.filter (·.namespaceName.isNone)) :
    (paragraph one).Parallels (paragraph other) Roots where
  biUnique := ⟨fun _ _ _ left right => left.1.trans right.1.symm,
    fun _ _ _ left right => left.2.trans right.2.symm⟩
  kinds := by
    rintro _ _ ⟨rfl, rfl⟩
    exact congrArg (NodeKind.element Selector.htmlNamespace "p") plain
  children := by
    rintro _ _ ⟨rfl, rfl⟩
    exact .nil
  parents := by
    rintro _ _ ⟨rfl, rfl⟩
    exact .none

/-- Behind an attribute of the same name that has no namespace, no selector
sees one that has. -/
theorem matches_behind_named :
    (paragraph [named, foreign]).isMatch ⟨0⟩ =
      (paragraph [named]).isMatch ⟨0⟩ := by
  have found : ∀ n m, Roots n m → ∀ name,
      (paragraph [named, foreign]).attribute? n
          ((paragraph [named, foreign]).elementView.nameFor n name) =
        (paragraph [named]).attribute? m
          ((paragraph [named, foreign]).elementView.nameFor n name) := by
    rintro _ _ ⟨rfl, rfl⟩ name
    generalize (paragraph [named, foreign]).elementView.nameFor ⟨0⟩ name = asked
    change Attribute.find? [named, foreign] asked =
      Attribute.find? [named] asked
    by_cases same : "id" = asked <;>
      simp [Attribute.find?, named, foreign, same]
  have plain : (paragraph [named, foreign]).Parallels (paragraph [named])
      Roots := parallels rfl
  funext list
  exact (Dom.matches_alike_iff (isForest _) (isForest _) plain).mpr found list
    ⟨0⟩ ⟨0⟩ ⟨rfl, rfl⟩

/-- Alone it is seen, and a selector tells the trees apart. -/
theorem foreign_is_matched :
    (paragraph [foreign]).IsForest ∧ (paragraph []).IsForest ∧
      (paragraph [foreign]).Parallels (paragraph []) Roots ∧
      ∃ list, Selector.SelectorList.parse "#a" = .ok list ∧
        (paragraph [foreign]).isMatch ⟨0⟩ list = true ∧
        (paragraph []).isMatch ⟨0⟩ list = false := by
  refine ⟨isForest _, isForest _, parallels rfl, ⟨"#a", [.compound [.id "a"]]⟩,
    ?_, by decide +kernel, by decide +kernel⟩
  rfl

end Shadows

end LiveTemplate
