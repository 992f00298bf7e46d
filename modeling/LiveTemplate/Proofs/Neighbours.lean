import Mathlib.Data.List.Induction
import LiveTemplate.Proofs.Journeys

/-!
# Elements and their neighbours

Matching goes from an element to the elements around it one step at a time: to
its parent, to the nearest element before it and to the nearest one behind it.
Each step finds its own way, by the link to the parent and the place among the
children there, and passes over texts.

`Flanks` says of two nodes that the first stands before the second with no
element between them.  As parents and children are in step, both steps between
siblings come down to it, so that each takes the other back, and the elements
that are met on the way are those that selectors are matched against.
-/

namespace LiveTemplate

variable {σ : Type}

namespace Dom

variable {dom : Dom} {n m parent : NodeId} {front back : List NodeId}

/-- The parent of a node if it is an element. -/
def parentElement? (dom : Dom) (n : NodeId) : Option NodeId :=
  (dom.parent? n).filter dom.isElement

/-- The nearest element before a node. -/
def previousElement? (dom : Dom) (n : NodeId) : Option NodeId :=
  (dom.parent? n).bind fun parent =>
    (dom.indexInParent? n).bind fun index =>
      ((dom.children parent).take index).reverse.find? dom.isElement

/-- The nearest element behind a node. -/
def nextElement? (dom : Dom) (n : NodeId) : Option NodeId :=
  (dom.parent? n).bind fun parent =>
    (dom.indexInParent? n).bind fun index =>
      ((dom.children parent).drop (index + 1)).find? dom.isElement

/-- The nodes that are met when a step is taken again and again, until there is
nowhere to go. -/
inductive Leads (step : NodeId → Option NodeId) :
    NodeId → List NodeId → Prop where
  | nowhere {n : NodeId} (last : step n = none) : Leads step n []
  | onward {n next : NodeId} {rest : List NodeId} (first : step n = some next)
      (others : Leads step next rest) : Leads step n (next :: rest)

theorem Leads.congr {step : NodeId → Option NodeId} {other : NodeId}
    {met : List NodeId} (leads : Leads step n met)
    (same : step other = step n) : Leads step other met := by
  cases leads with
  | nowhere last => exact .nowhere (same.trans last)
  | onward first others => exact .onward (same.trans first) others

/-- The first node stands before the second under one parent, and no element
stands between them. -/
def Flanks (dom : Dom) (m n : NodeId) : Prop :=
  ∃ parent front between back,
    dom.children parent = front ++ m :: (between ++ n :: back) ∧
      ∀ other ∈ between, dom.isElement other = false

/-- The children around a node that stands among them. -/
theorem IsTidy.siblings_eq (tidy : dom.IsTidy)
    (row : dom.children parent = front ++ n :: back) :
    dom.siblings n = (front, back) := by
  have under : dom.parent? n = some parent :=
    (tidy.linked parent n).mp (by simp [row])
  simp only [siblings, under, tidy.indexInParent?_eq row, row,
    List.take_left, List.drop_append, List.drop_of_length_le (Nat.le_succ _)]
  simp

/-- The step back leads to the first of the elements that are counted. -/
theorem previousElement?_eq (dom : Dom) (n : NodeId) :
    dom.previousElement? n = (dom.precedingElements n).head? := by
  unfold previousElement? precedingElements siblings
  cases dom.parent? n with
  | none => rfl
  | some parent =>
      cases dom.indexInParent? n with
      | none => rfl
      | some index => exact List.head?_filter.symm

theorem nextElement?_eq (dom : Dom) (n : NodeId) :
    dom.nextElement? n = (dom.followingElements n).head? := by
  unfold nextElement? followingElements siblings
  cases dom.parent? n with
  | none => rfl
  | some parent =>
      cases dom.indexInParent? n with
      | none => rfl
      | some index => exact List.head?_filter.symm

theorem IsTidy.previousElement?_eq_find (tidy : dom.IsTidy)
    (row : dom.children parent = front ++ n :: back) :
    dom.previousElement? n = front.reverse.find? dom.isElement := by
  rw [previousElement?_eq, precedingElements, tidy.siblings_eq row,
    List.head?_filter]

theorem IsTidy.nextElement?_eq_find (tidy : dom.IsTidy)
    (row : dom.children parent = front ++ n :: back) :
    dom.nextElement? n = back.find? dom.isElement := by
  rw [nextElement?_eq, followingElements, tidy.siblings_eq row,
    List.head?_filter]

/-- A node that has a parent stands among the children there. -/
theorem IsTidy.exists_row (tidy : dom.IsTidy)
    (under : dom.parent? n = some parent) :
    ∃ front back, dom.children parent = front ++ n :: back :=
  List.append_of_mem ((tidy.linked parent n).mpr under)

/-- A step between siblings is taken under a parent only. -/
theorem parent_of_previousElement? (found : dom.previousElement? n = some m) :
    ∃ parent, dom.parent? n = some parent := by
  let ⟨parent, under, _⟩ := Option.bind_eq_some_iff.mp found
  exact ⟨parent, under⟩

private theorem parent_of_nextElement? (found : dom.nextElement? n = some m) :
    ∃ parent, dom.parent? n = some parent := by
  let ⟨parent, under, _⟩ := Option.bind_eq_some_iff.mp found
  exact ⟨parent, under⟩

theorem IsTidy.previousElement?_iff (tidy : dom.IsTidy) :
    dom.previousElement? n = some m ↔
      dom.isElement m = true ∧ dom.Flanks m n := by
  constructor
  · intro found
    obtain ⟨parent, under⟩ := parent_of_previousElement? found
    obtain ⟨front, back, row⟩ := tidy.exists_row under
    rw [tidy.previousElement?_eq_find row,
      List.find?_eq_some_iff_append] at found
    obtain ⟨element, nearer, further, split, passed⟩ := found
    have turned : front = further.reverse ++ m :: nearer.reverse := by
      rw [← List.reverse_reverse front, split]
      simp
    refine ⟨element, parent, further.reverse, nearer.reverse, back, ?_,
      fun other member => ?_⟩
    · rw [row, turned]
      simp
    · simpa using passed other (List.mem_reverse.mp member)
  · rintro ⟨element, parent, front, between, back, row, passed⟩
    have before : dom.children parent =
        (front ++ m :: between) ++ n :: back := by
      rw [row]
      simp
    rw [tidy.previousElement?_eq_find before, List.find?_eq_some_iff_append]
    refine ⟨element, between.reverse, front.reverse, by simp,
      fun other member => ?_⟩
    simpa using passed other (List.mem_reverse.mp member)

theorem IsTidy.nextElement?_iff (tidy : dom.IsTidy) :
    dom.nextElement? m = some n ↔
      dom.isElement n = true ∧ dom.Flanks m n := by
  constructor
  · intro found
    obtain ⟨parent, under⟩ := parent_of_nextElement? found
    obtain ⟨front, back, row⟩ := tidy.exists_row under
    rw [tidy.nextElement?_eq_find row, List.find?_eq_some_iff_append] at found
    obtain ⟨element, nearer, further, split, passed⟩ := found
    refine ⟨element, parent, front, nearer, further, ?_, fun other member => ?_⟩
    · rw [row, split]
    · simpa using passed other member
  · rintro ⟨element, parent, front, between, back, row, passed⟩
    rw [tidy.nextElement?_eq_find row, List.find?_eq_some_iff_append]
    exact ⟨element, between, back, rfl, fun other member => by
      simpa using passed other member⟩

private theorem Flanks.parent_eq (tidy : dom.IsTidy) (flanks : dom.Flanks m n) :
    dom.parent? m = dom.parent? n := by
  obtain ⟨parent, front, between, back, row, _⟩ := flanks
  rw [(tidy.linked parent m).mp (by simp [row]),
    (tidy.linked parent n).mp (by simp [row])]

/-- Going back again and again one meets the elements before a node. -/
theorem IsTidy.leads_previous (tidy : dom.IsTidy)
    (row : dom.children parent = front ++ n :: back) :
    Leads dom.previousElement? n (front.reverse.filter dom.isElement) := by
  -- A sibling that is no element is where going back leads to the same nodes.
  induction front using List.reverseRecOn generalizing n back with
  | nil => exact .nowhere (tidy.previousElement?_eq_find row)
  | append_singleton front sibling ih =>
      have inner : dom.children parent = front ++ sibling :: (n :: back) := by
        rw [row]
        simp
      have step := tidy.previousElement?_eq_find row
      rw [List.reverse_concat] at step ⊢
      cases element : dom.isElement sibling with
      | true =>
          rw [List.filter_cons_of_pos element]
          rw [List.find?_cons_of_pos element] at step
          exact .onward step (ih inner)
      | false =>
          have other : ¬dom.isElement sibling = true := by simp [element]
          rw [List.filter_cons_of_neg other]
          rw [List.find?_cons_of_neg other] at step
          exact (ih inner).congr
            (step.trans (tidy.previousElement?_eq_find inner).symm)

/-- Going forward again and again one meets the elements behind a node. -/
theorem IsTidy.leads_next (tidy : dom.IsTidy)
    (row : dom.children parent = front ++ n :: back) :
    Leads dom.nextElement? n (back.filter dom.isElement) := by
  induction back generalizing n front with
  | nil => exact .nowhere (tidy.nextElement?_eq_find row)
  | cons sibling back ih =>
      have inner : dom.children parent = (front ++ [n]) ++ sibling :: back := by
        rw [row]
        simp
      have step := tidy.nextElement?_eq_find row
      cases element : dom.isElement sibling with
      | true =>
          rw [List.filter_cons_of_pos element]
          rw [List.find?_cons_of_pos element] at step
          exact .onward step (ih inner)
      | false =>
          have other : ¬dom.isElement sibling = true := by simp [element]
          rw [List.filter_cons_of_neg other]
          rw [List.find?_cons_of_neg other] at step
          exact (ih inner).congr
            (step.trans (tidy.nextElement?_eq_find inner).symm)

/-- Going up from parent to parent ends below the first node that is no
element. -/
theorem Ascends.leads {above : List NodeId} (ascends : dom.Ascends n above) :
    Leads dom.parentElement? n (above.takeWhile dom.isElement) := by
  induction ascends with
  | top alone => exact .nowhere (by simp [parentElement?, alone])
  | @step n parent above under rest ih =>
      cases element : dom.isElement parent with
      | true =>
          rw [List.takeWhile_cons_of_pos element]
          exact .onward (by simp [parentElement?, under, element]) ih
      | false =>
          rw [List.takeWhile_cons_of_neg (by simp [element])]
          exact .nowhere (by simp [parentElement?, under, element])

end Dom

/-- In the document of every world that one arrives at, and in what a client
sees of it, the steps between sibling elements take each other back and stay
under one parent; followed to the end they meet the elements among the parent's
children on one side of a node, nearest first; and going up comes to an end and
meets the ancestors below the first one that is no element.  These are the
elements that selectors are matched against. -/
theorem neighbours_agree {host : Host σ} (keeps : host.KeepsForests)
    {world : World σ} (assembled : Assembled host world) (dom : Dom)
    (shown : dom = world.dom ∨ dom = host.liveDom world) :
    (∀ n m, dom.isElement n = true → dom.isElement m = true →
      (dom.previousElement? n = some m ↔ dom.nextElement? m = some n)) ∧
    (∀ n m, dom.previousElement? n = some m ∨ dom.nextElement? m = some n →
      dom.parent? n = dom.parent? m ∧
        dom.parentElement? n = dom.parentElement? m) ∧
    (∀ n parent front back, dom.children parent = front ++ n :: back →
      let before := front.reverse.filter dom.isElement
      let behind := back.filter dom.isElement
      Dom.Leads dom.previousElement? n before ∧
        Dom.Leads dom.nextElement? n behind ∧
        dom.elementView.preceding n = before ∧
        dom.elementView.following n = behind) ∧
    (∀ n, dom.parent? n = none →
      dom.previousElement? n = none ∧ dom.nextElement? n = none) ∧
    ∀ n, ∃ above, dom.Ascends n above ∧ above.Nodup ∧
      let elements := above.takeWhile dom.isElement
      Dom.Leads dom.parentElement? n elements ∧
        dom.elementView.ancestors n = elements := by
  have forest : dom.IsForest := by
    have built := (assembled.builds keeps).forest
    rcases shown with rfl | rfl
    · exact built
    · exact World.isForest_liveDom built _
  have tidy := forest.tidy
  refine ⟨fun n m one other => ?_, fun n m found => ?_,
    fun n parent front back row => ?_, fun n alone => ?_, fun n => ?_⟩
  · rw [tidy.previousElement?_iff, tidy.nextElement?_iff]
    simp only [one, other]
  · have flanks : dom.Flanks m n := by
      rcases found with back | forward
      · exact (tidy.previousElement?_iff.mp back).2
      · exact (tidy.nextElement?_iff.mp forward).2
    have same := flanks.parent_eq tidy
    exact ⟨same.symm, by rw [Dom.parentElement?, Dom.parentElement?, same]⟩
  · have siblings := tidy.siblings_eq row
    refine ⟨tidy.leads_previous row, tidy.leads_next row, ?_, ?_⟩
    · exact congrArg (fun sides => sides.1.reverse.filter dom.isElement)
        siblings
    · exact congrArg (fun sides => sides.2.filter dom.isElement) siblings
  · exact ⟨by rw [Dom.previousElement?, alone, Option.bind_none],
      by rw [Dom.nextElement?, alone, Option.bind_none]⟩
  · have ascends := Dom.ascends_ancestors forest n
    exact ⟨dom.ancestors n, ascends,
      (List.nodup_cons.mp (ascends.nodup forest)).2, ascends.leads, rfl⟩

namespace Items

def list : Fixture :=
  .element "ul" []
    [.element "li" [] [.text "first"], .text "gap", .element "li" [] [],
      .element "li" [] [.text "last"]]

/-- The list stands in the document alone. -/
def listed : World Unit :=
  (modifyDom fun dom => (list.mount dom).2).after (.initial ())

theorem assembled : Assembled Host.quiet listed := by
  exact .fixture list (.initial ())

theorem row : listed.dom.children ⟨0⟩ =
    [⟨1⟩, ⟨3⟩, ⟨4⟩] ++ ⟨5⟩ :: [] := by decide +kernel

end Items

/-- Going back from the last item one meets the others and not the text, and
each of them can be left the other way; going up from its text one comes to the
list. -/
theorem neighbours_agree_in_list :
    let dom := Items.listed.dom
    dom.isElement ⟨5⟩ = true ∧ dom.isElement ⟨4⟩ = true ∧
      dom.previousElement? ⟨5⟩ = some ⟨4⟩ ∧
      dom.nextElement? ⟨4⟩ = some ⟨5⟩ ∧
      dom.parentElement? ⟨4⟩ = some ⟨0⟩ ∧
      Dom.Leads dom.previousElement? ⟨5⟩ [⟨4⟩, ⟨1⟩] ∧
      Dom.Leads dom.parentElement? ⟨6⟩ [⟨5⟩, ⟨0⟩] := by
  intro dom
  obtain ⟨both, parents, sides, _, upward⟩ :=
    neighbours_agree Takeover.keepsForests_quiet Items.assembled dom (.inl rfl)
  have last : dom.isElement ⟨5⟩ = true := by decide +kernel
  have middle : dom.isElement ⟨4⟩ = true := by decide +kernel
  have back : dom.previousElement? ⟨5⟩ = some ⟨4⟩ := by decide +kernel
  have home : dom.parentElement? ⟨5⟩ = some ⟨0⟩ := by decide +kernel
  have before : [⟨4⟩, ⟨3⟩, ⟨1⟩].filter dom.isElement = [⟨4⟩, ⟨1⟩] := by
    decide +kernel
  have above : dom.elementView.ancestors ⟨6⟩ = [⟨5⟩, ⟨0⟩] := by decide +kernel
  obtain ⟨met, _⟩ := sides ⟨5⟩ ⟨0⟩ _ _ Items.row
  obtain ⟨_, _, _, risen, seen⟩ := upward ⟨6⟩
  exact ⟨last, middle, back, (both _ _ last middle).mp back,
    (parents _ _ (.inl back)).2 ▸ home, before ▸ met, above ▸ seen ▸ risen⟩

end LiveTemplate
