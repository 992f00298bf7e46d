import Mathlib.Data.List.Induction
import LiveTemplate.Proofs.Assembly

/-!
# Where inserted nodes go

A node is asked to go right before a reference, or at the end of a list of
children.  A fragment hands its children over, which are asked to go there one
after the other, in their order.

Each of them leaves its former place before it looks for the reference.  So a
reference that is itself moved is lost while it moves and stands at the end
afterwards: the nodes that follow it in the fragment then go before it.
`insertBefore_places` says what the children are in every case, and that they
are the ones asked for unless the reference is moved and should not be last.
-/

namespace LiveTemplate

variable {σ : Type}

namespace Dom

variable {dom : Dom}

/-- A row that a node leaves, and goes into before the reference. -/
def regroup (reference : Option NodeId) (row : List NodeId) (n : NodeId) :
    List NodeId :=
  insertInto n reference (row.filter (· ≠ n))

/-- A row cut at the reference, or at its end if the reference is not there. -/
structure Cut (reference : Option NodeId) (front back : List NodeId) :
    Prop where
  before : ∀ n ∈ front, some n ≠ reference
  behind : back = [] ∨ back.head? = reference

theorem cut_self (reference : Option NodeId) (row : List NodeId) :
    Cut reference (row.takeWhile (some · ≠ reference))
      (row.dropWhile (some · ≠ reference)) where
  before n member := by simpa using List.mem_takeWhile_imp member
  behind := by
    induction row with
    | nil => exact .inl rfl
    | cons first rest ih =>
        by_cases here : some first = reference
        · rw [List.dropWhile_cons_of_neg (by simpa using here)]
          exact .inr here
        · rw [List.dropWhile_cons_of_pos (by simpa using here)]
          exact ih

theorem insertInto_of_cut {reference : Option NodeId}
    {front back : List NodeId} (cut : Cut reference front back)
    (child : NodeId) :
    insertInto child reference (front ++ back) = front ++ child :: back := by
  obtain ⟨before, behind⟩ := cut
  induction front with
  | nil =>
      cases back with
      | nil => rfl
      | cons first rest =>
          have head : some first = reference := behind.resolve_left (by simp)
          rw [List.nil_append, insertInto, if_pos head, List.nil_append]
  | cons sibling rest ih =>
      rw [List.cons_append, insertInto, if_neg (before sibling (.head _)),
        ih fun n member => before n (.tail _ member), List.cons_append]

theorem ne_of_missing {r : NodeId} {row : List NodeId} (missing : r ∉ row) :
    ∀ n ∈ row, some n ≠ some r := by
  intro _ member same
  exact missing (Option.some.inj same ▸ member)

theorem cut_of_missing {r : NodeId} {row : List NodeId} (missing : r ∉ row) :
    Cut (some r) row [] := by
  exact ⟨ne_of_missing missing, .inl rfl⟩

theorem filter_outside {nodes row : List NodeId}
    (outside : ∀ n ∈ row, n ∉ nodes) : row.filter (· ∉ nodes) = row := by
  refine List.filter_eq_self.mpr fun n member => ?_
  exact decide_eq_true (outside n member)

/-- Nodes that go before another one stand there together, in their order. -/
theorem Cut.foldl_regroup {reference : Option NodeId}
    {front back : List NodeId} (cut : Cut reference front back)
    {nodes : List NodeId} (nodup : nodes.Nodup)
    (others : ∀ n ∈ nodes, some n ≠ reference) :
    nodes.foldl (regroup reference) (front ++ back) =
      front.filter (· ∉ nodes) ++ nodes ++ back.filter (· ∉ nodes) := by
  -- The last of them goes behind the others, which are there already.
  induction nodes using List.reverseRecOn with
  | nil => simp
  | append_singleton nodes n ih =>
      obtain ⟨nodup, _, apart⟩ := List.nodup_append.mp nodup
      have absent : n ∉ nodes := fun member =>
        apart n member n (.head _) rfl
      have differs : some n ≠ reference := others n (by simp)
      have kept : nodes.filter (· ≠ n) = nodes :=
        List.filter_eq_self.mpr fun m member =>
          decide_eq_true fun same => absent (same ▸ member)
      have leaves (row : List NodeId) :
          (row.filter (· ∉ nodes)).filter (· ≠ n) =
            row.filter (· ∉ nodes ++ [n]) := by
        rw [List.filter_filter]
        refine List.filter_congr fun m _ => ?_
        simp [and_comm]
      have later : Cut reference (front.filter (· ∉ nodes ++ [n]) ++ nodes)
          (back.filter (· ∉ nodes ++ [n])) := by
        refine ⟨fun m member => ?_, ?_⟩
        · rcases List.mem_append.mp member with old | moved
          · exact cut.before m (List.mem_of_mem_filter old)
          · exact others m (List.mem_append_left _ moved)
        · rcases cut.behind with rfl | head
          · exact .inl rfl
          · cases back with
            | nil => exact .inl rfl
            | cons first rest =>
                refine .inr ?_
                rw [List.filter_cons_of_pos, List.head?_cons]
                · exact head
                · exact decide_eq_true fun member => others first member head
      rw [List.foldl_concat, ih nodup fun m member =>
          others m (List.mem_append_left _ member), regroup,
        List.filter_append, List.filter_append, kept, leaves, leaves,
        insertInto_of_cut later]
      simp

theorem filter_ne {r : NodeId} {row : List NodeId} (missing : r ∉ row) :
    row.filter (· ≠ r) = row := by
  refine List.filter_eq_self.mpr fun _ member => ?_
  exact decide_eq_true fun same => missing (same ▸ member)

/-- A node that goes before itself goes to the end. -/
theorem regroup_self (row : List NodeId) (r : NodeId) :
    regroup (some r) row r = row.filter (· ≠ r) ++ [r] := by
  have missing : r ∉ row.filter (· ≠ r) := by simp
  have placed := insertInto_of_cut (cut_of_missing missing) r
  rw [List.append_nil] at placed
  exact placed

/-- The nodes that follow one that has gone to the end go before it. -/
theorem foldl_regroup_self {row before behind : List NodeId} {r : NodeId}
    (nodup : (before ++ r :: behind).Nodup)
    (absent : ∀ n ∈ before ++ r :: behind, n ∉ row) :
    (before ++ r :: behind).foldl (regroup (some r)) row =
      row ++ before ++ behind ++ [r] := by
  obtain ⟨first, second, apart⟩ := List.nodup_append.mp nodup
  obtain ⟨distinct, second⟩ := List.nodup_cons.mp second
  have missing : r ∉ row ++ before := fun member =>
    (List.mem_append.mp member).elim (absent r (by simp))
      fun inside => apart r inside r (.head _) rfl
  rw [List.mem_append, not_or] at missing
  have gathered : before.foldl (regroup (some r)) row = row ++ before := by
    have moved := (cut_of_missing missing.1).foldl_regroup first
      (ne_of_missing missing.2)
    rw [List.append_nil, List.filter_nil, List.append_nil] at moved
    rw [moved, filter_outside fun n member inside =>
      absent n (List.mem_append_left _ inside) member]
  have turned : regroup (some r) (row ++ before) r = row ++ before ++ [r] := by
    rw [regroup_self, filter_ne (by simp [missing])]
  have ended : Cut (some r) (row ++ before) [r] :=
    ⟨ne_of_missing (by simp [missing]), .inr rfl⟩
  have early : ∀ n ∈ row ++ before, n ∉ behind := by
    intro n member inside
    rcases List.mem_append.mp member with old | moved
    · exact absent n (by simp [inside]) old
    · exact apart n moved n (.tail _ inside) rfl
  have late : ∀ n ∈ [r], n ∉ behind := fun n member =>
    List.mem_singleton.mp member ▸ distinct
  rw [List.foldl_append, gathered, List.foldl_cons, turned,
    ended.foldl_regroup second (ne_of_missing distinct), filter_outside early,
    filter_outside late]

theorem IsTidy.children_placeEach (tidy : dom.IsTidy) {parent : NodeId}
    (notText : dom.isText parent = false) (reference : Option NodeId)
    {nodes : List NodeId}
    (solid : ∀ n ∈ nodes, dom.isFragment n = false) (other : NodeId) :
    (nodes.foldl (fun dom moved => dom.place parent moved reference)
      dom).children other =
      if other = parent then
        nodes.foldl (regroup reference) (dom.children parent)
      else (dom.children other).filter (· ∉ nodes) := by
  induction nodes generalizing dom with
  | nil =>
      split
      · rename_i same
        rw [same]
        rfl
      · simp
  | cons first rest ih =>
      have kinds (n : NodeId) := kind_place_before dom parent first reference n
      rw [List.foldl_cons, ih (tidy.place notText (solid first (.head _))
        reference)]
      · simp only [children_place_before, tidy.children_detach]
        split
        · rfl
        · rw [List.filter_filter]
          refine List.filter_congr fun m _ => ?_
          simp [Bool.and_comm]
      · rw [isText_congr (kinds parent)]
        exact notText
      · intro n member
        rw [isFragment_congr (kinds n)]
        exact solid n (.tail _ member)

/-- The children that a parent is to have when a node is put before a reference:
those it had, without the nodes that move, and these together in their order
where the reference is, or at the end if there is none.  A node that is put
before itself stays where it is. -/
def asked (dom : Dom) (parent child : NodeId) (reference : Option NodeId) :
    List NodeId :=
  let row := dom.children parent
  if child ∈ row ∧ some child = reference then row
  else
    (row.takeWhile (some · ≠ reference)).filter (· ∉ dom.moved child) ++
      dom.moved child ++
      (row.dropWhile (some · ≠ reference)).filter (· ∉ dom.moved child)

private theorem children_inserted (tidy : dom.IsTidy) {parent child : NodeId}
    (notText : dom.isText parent = false) (differs : child ≠ parent)
    (reference : Option NodeId) (other : NodeId) :
    (dom.insertBefore parent child reference).children other =
      if other = parent then
        (dom.moved child).foldl (regroup reference) (dom.children parent)
      else (dom.children other).filter (· ∉ dom.moved child) := by
  rw [insertBefore, if_neg (by simp [notText]), moved]
  split
  · rename_i fragment
    have cleared (n : NodeId) := kind_clearChildren dom child n
    have notText' : (dom.clearChildren child).isText parent = false :=
      (isText_congr (cleared parent)).trans notText
    rw [(tidy.clearChildren child).children_placeEach notText' reference
      fun n member => (isFragment_congr (cleared n)).trans
        (tidy.not_fragment member)]
    simp only [children_clearChildren, if_neg (Ne.symm differs)]
    split
    · rfl
    · split
      · rename_i same
        subst same
        simp
      · rfl
  · rename_i notFragment
    rw [Bool.not_eq_true] at notFragment
    have single : ∀ n ∈ [child], dom.isFragment n = false := fun n member =>
      List.mem_singleton.mp member ▸ notFragment
    exact tidy.children_placeEach notText reference single other

private theorem kids_elsewhere (tidy : dom.IsTidy) {parent child : NodeId}
    (differs : child ≠ parent) (fragment : dom.isFragment child = true) :
    ∀ n ∈ dom.moved child, n ∉ dom.children parent := by
  intro n member inside
  rw [moved, if_pos fragment] at member
  have there := (tidy.linked child n).mp member
  rw [(tidy.linked parent n).mp inside] at there
  exact differs (Option.some.inj there).symm

theorem nodup_moved (tidy : dom.IsTidy) (n : NodeId) :
    (dom.moved n).Nodup := by
  unfold moved
  split
  · exact tidy.nodup n
  · exact List.nodup_singleton n

private theorem regroup_eq_asked (tidy : dom.IsTidy) {parent child : NodeId}
    {reference : Option NodeId}
    (stays : ∀ r ∈ reference, r ∉ dom.moved child) :
    (dom.moved child).foldl (regroup reference) (dom.children parent) =
      dom.asked parent child reference := by
  have elsewhere :
      ¬(child ∈ dom.children parent ∧ some child = reference) := by
    rintro ⟨member, rfl⟩
    have solid := tidy.not_fragment member
    exact stays child rfl (by simp [moved, solid])
  have grouped := (cut_self reference (dom.children parent)).foldl_regroup
    (nodup_moved tidy child) fun n member same => stays n same.symm member
  rw [List.takeWhile_append_dropWhile] at grouped
  rw [grouped, asked, if_neg elsewhere]

theorem asked_of_missing {parent child r : NodeId}
    (missing : r ∉ dom.children parent) :
    dom.asked parent child (some r) =
      (dom.children parent).filter (· ∉ dom.moved child) ++
        dom.moved child := by
  have all : (dom.children parent).takeWhile (some · ≠ some r) =
      dom.children parent :=
    List.takeWhile_eq_self_iff.mpr fun n member =>
      decide_eq_true (ne_of_missing missing n member)
  have none : (dom.children parent).dropWhile (some · ≠ some r) = [] :=
    List.dropWhile_eq_nil_iff.mpr fun n member =>
      decide_eq_true (ne_of_missing missing n member)
  have elsewhere : ¬(child ∈ dom.children parent ∧ some child = some r) := by
    rintro ⟨member, same⟩
    exact missing (Option.some.inj same ▸ member)
  rw [asked, if_neg elsewhere, all, none, List.filter_nil, List.append_nil]

theorem nodup_asked (tidy : dom.IsTidy) (parent child : NodeId)
    (reference : Option NodeId) : (dom.asked parent child reference).Nodup := by
  simp only [asked]
  split
  · exact tidy.nodup parent
  · have kept := (tidy.nodup parent).filter (· ∉ dom.moved child)
    have apart : List.Disjoint
        ((dom.children parent).filter (· ∉ dom.moved child))
        (dom.moved child) := fun n inside moves =>
      of_decide_eq_true (List.mem_filter.mp inside).2 moves
    have all := kept.append (nodup_moved tidy child) apart
    have whole : (dom.children parent).takeWhile (some · ≠ reference) ++
        (dom.children parent).dropWhile (some · ≠ reference) =
          dom.children parent := List.takeWhile_append_dropWhile
    rw [← whole, List.filter_append, List.append_assoc] at all
    rw [List.append_assoc]
    exact (List.perm_append_comm.append_left _).nodup all

private theorem regroup_eq_last (tidy : dom.IsTidy) {parent child r : NodeId}
    (differs : child ≠ parent) (moves : r ∈ dom.moved child) :
    (dom.moved child).foldl (regroup (some r)) (dom.children parent) =
      (dom.asked parent child (some r)).filter (· ≠ r) ++ [r] := by
  cases fragment : dom.isFragment child with
  | true =>
      have elsewhere := kids_elsewhere tidy differs fragment
      have nodup := nodup_moved tidy child
      rw [asked_of_missing (elsewhere r moves), filter_outside fun n member
        inside => elsewhere n inside member]
      obtain ⟨before, behind, split⟩ := List.append_of_mem moves
      rw [split] at nodup elsewhere ⊢
      obtain ⟨_, distinct, apart⟩ := List.nodup_append.mp nodup
      rw [foldl_regroup_self nodup elsewhere, List.filter_append,
        List.filter_append, filter_ne (elsewhere r (by simp)),
        filter_ne fun member => apart r member r (.head _) rfl,
        List.filter_cons_of_neg (by simp),
        filter_ne (List.nodup_cons.mp distinct).1]
      simp
  | false =>
      have single : dom.moved child = [child] := by simp [moved, fragment]
      rw [single] at moves ⊢
      obtain rfl := List.mem_singleton.mp moves
      rw [List.foldl_cons, List.foldl_nil, regroup_self]
      by_cases member : r ∈ dom.children parent
      · rw [asked, if_pos ⟨member, rfl⟩]
      · rw [asked_of_missing member, single, List.filter_append,
          List.filter_filter]
        simp

/-- A row ends with a node that comes once in it exactly if it is as it is when
that node is moved to its end. -/
theorem moved_last_iff {row : List NodeId} {r : NodeId} (nodup : row.Nodup) :
    row.filter (· ≠ r) ++ [r] = row ↔ row.getLast? = some r := by
  constructor
  · intro same
    rw [← same, List.getLast?_concat]
  · intro last
    obtain ⟨front, rfl⟩ := List.getLast?_eq_some_iff.mp last
    have missing : r ∉ front := fun member =>
      (List.nodup_append.mp nodup).2.2 r member r (.head _) rfl
    rw [List.filter_append, filter_ne missing]
    simp

end Dom

/-- In every document that one arrives at, and in what a client sees of it, a
node that is put into another one goes where it is asked to go, and leaves all
other children.  Only a reference that is moved itself comes to be the last
child, so that the children are as asked exactly if it should be the last. -/
theorem insertBefore_places {host : Host σ} (keeps : host.KeepsForests)
    {world : World σ} (assembled : Assembled host world) {dom : Dom}
    (shown : dom = world.dom ∨ dom = host.liveDom world)
    {parent child : NodeId} (notText : dom.isText parent = false)
    (outside : ¬dom.Inside child parent) (reference : Option NodeId) :
    let later := dom.insertBefore parent child reference
    let asked := dom.asked parent child reference
    (∀ r ∈ reference, r ∈ dom.moved child →
      later.children parent = asked.filter (· ≠ r) ++ [r]) ∧
    (later.children parent = asked ↔
      ∀ r ∈ reference, r ∈ dom.moved child → asked.getLast? = some r) ∧
    (dom.isFragment child = true → later.children child = []) ∧
    ∀ other, other ≠ parent →
      later.children other =
        (dom.children other).filter (· ∉ dom.moved child) := by
  have tidy : dom.IsTidy := by
    have built := (assembled.builds keeps).forest
    rcases shown with rfl | rfl
    · exact built.tidy
    · exact (World.isForest_liveDom built _).tidy
  have differs : child ≠ parent := fun same => outside (same ▸ .here child)
  have rows := Dom.children_inserted tidy notText differs reference
  dsimp only
  have last : ∀ r ∈ reference, r ∈ dom.moved child →
      (dom.insertBefore parent child reference).children parent =
        (dom.asked parent child reference).filter (· ≠ r) ++ [r] := by
    rintro r rfl moves
    rw [rows, if_pos rfl, Dom.regroup_eq_last tidy differs moves]
  refine ⟨last, ?_, fun fragment => ?_, fun other elsewhere => ?_⟩
  · by_cases moves : ∃ r ∈ reference, r ∈ dom.moved child
    · obtain ⟨r, rfl, moves⟩ := moves
      rw [last r rfl moves,
        Dom.moved_last_iff (Dom.nodup_asked tidy parent child (some r))]
      exact ⟨fun ends _ same _ => same ▸ ends, fun ends => ends r rfl moves⟩
    · have stays : ∀ r ∈ reference, r ∉ dom.moved child :=
        fun r known member => moves ⟨r, known, member⟩
      rw [rows, if_pos rfl, Dom.regroup_eq_asked tidy stays]
      exact ⟨fun _ r known member => (stays r known member).elim,
        fun _ => rfl⟩
  · rw [rows, if_neg differs, Dom.moved, if_pos fragment]
    simp
  · rw [rows, if_neg elsewhere]

namespace Pieces

/-- A paragraph with two children, and a fragment with two others. -/
def sheet : World Unit :=
  (modifyDom fun dom => dom.insertBefore ⟨3⟩ ⟨5⟩ none).after
    ((modifyDom fun dom => dom.insertBefore ⟨3⟩ ⟨4⟩ none).after
      ((createNode (.element Selector.htmlNamespace "em" [])).after
        ((createNode (.element Selector.htmlNamespace "i" [])).after
          ((createNode .fragment).after
            ((modifyDom fun dom => (Fixture.mount dom
              (.element "p" [] [.element "a" [] [], .element "b" [] []])).2
              ).after (.initial ()))))))

theorem assembled_sheet : Assembled Host.quiet sheet := by
  refine .insertBefore _ _ _ (.insertBefore _ _ _ (.createNode _
    (.createNode _ (.createNode _ (.fixture _ (.initial ())))))
    fun _ => ?_) fun _ => ?_
  · exact Dom.admits_of_childless (by decide +kernel) (by decide)
  · exact Dom.admits_of_childless (by decide +kernel) (by decide)

theorem outside_fragment : ¬sheet.dom.Inside ⟨3⟩ ⟨0⟩ := by
  have children : sheet.dom.children ⟨3⟩ = [⟨4⟩, ⟨5⟩] := by decide +kernel
  have childless : ∀ n ∈ sheet.dom.children ⟨3⟩, sheet.dom.children n = [] := by
    decide +kernel
  intro inside
  cases inside with
  | @under _ child _ member below =>
      have same := below.eq_of_childless (childless child member)
      rw [children, ← same] at member
      simp at member

/-- The children of the fragment go between those of the paragraph. -/
theorem fragment_goes_between :
    let later := sheet.dom.insertBefore ⟨0⟩ ⟨3⟩ (some ⟨2⟩)
    later.children ⟨0⟩ = [⟨1⟩, ⟨4⟩, ⟨5⟩, ⟨2⟩] ∧
      later.children ⟨3⟩ = [] := by
  have places := insertBefore_places Takeover.keepsForests_quiet
    assembled_sheet (.inl rfl) (by decide +kernel) outside_fragment (some ⟨2⟩)
  have stays : ∀ r ∈ some (⟨2⟩ : NodeId), r ∉ sheet.dom.moved ⟨3⟩ := by
    decide +kernel
  have asked : sheet.dom.asked ⟨0⟩ ⟨3⟩ (some ⟨2⟩) =
      [⟨1⟩, ⟨4⟩, ⟨5⟩, ⟨2⟩] := by decide +kernel
  exact ⟨(places.2.1.mpr fun r known member =>
    (stays r known member).elim).trans asked,
    places.2.2.1 (by decide +kernel)⟩

/-- Before the first of its own children a fragment is put in the wrong order,
and a child that is put before itself goes to the end. -/
theorem moved_references_go_last :
    Assembled Host.quiet sheet ∧ sheet.dom.isText ⟨0⟩ = false ∧
      ¬sheet.dom.Inside ⟨3⟩ ⟨0⟩ ∧ ¬sheet.dom.Inside ⟨1⟩ ⟨0⟩ ∧
      sheet.dom.asked ⟨0⟩ ⟨3⟩ (some ⟨4⟩) = [⟨1⟩, ⟨2⟩, ⟨4⟩, ⟨5⟩] ∧
      (sheet.dom.insertBefore ⟨0⟩ ⟨3⟩ (some ⟨4⟩)).children ⟨0⟩ =
        [⟨1⟩, ⟨2⟩, ⟨5⟩, ⟨4⟩] ∧
      sheet.dom.asked ⟨0⟩ ⟨1⟩ (some ⟨1⟩) = [⟨1⟩, ⟨2⟩] ∧
      (sheet.dom.insertBefore ⟨0⟩ ⟨1⟩ (some ⟨1⟩)).children ⟨0⟩ =
        [⟨2⟩, ⟨1⟩] := by
  refine ⟨assembled_sheet, by decide +kernel, outside_fragment,
    fun inside => ?_, by decide +kernel, by decide +kernel, by decide +kernel,
    by decide +kernel⟩
  exact absurd (inside.eq_of_childless (by decide +kernel)) (by decide)

end Pieces

end LiveTemplate
