import LiveTemplate.Proofs.Aside

/-!
# Children lined up

A rendered element has its children in the order of its definition: nodes that
stay where they are, and between them the members of collections.  A collection
puts a new member before the element of the next one, or behind that of the one
before.  Only when it has no members does it rely on its anchor, the node that
came after it when the element was rendered.

`World.IsLaidOut` says that the children are lined up, `World.Tended` what may
happen to them afterwards, and `World.IsReady` when an empty collection finds
its place.
-/

namespace LiveTemplate

variable {σ : Type}

namespace Dom

variable {front back : List NodeId} {child : NodeId}

/-- What goes before the first of the last ones goes before all of them. -/
theorem insertInto_head? (nodup : (front ++ back).Nodup) :
    insertInto child back.head? (front ++ back) = front ++ child :: back := by
  cases back with
  | nil => simp [insertInto_none]
  | cons next rest =>
      refine insertInto_before (fun member => ?_) rest
      exact (List.nodup_append.mp nodup).2.2 next member next (.head _) rfl

/-- Nowhere else does a new child get to the same place. -/
theorem head?_of_insertInto {reference : Option NodeId}
    (nodup : (front ++ back).Nodup) (absent : child ∉ front ++ back)
    (known : ∀ r ∈ reference, r ∈ front ++ back)
    (placed : insertInto child reference (front ++ back) =
      front ++ child :: back) : reference = back.head? := by
  rw [List.mem_append, not_or] at absent
  cases reference with
  | none =>
      rw [insertInto_none, List.append_assoc, List.append_cancel_left_eq]
        at placed
      cases back with
      | nil => rfl
      | cons next rest =>
          rw [List.cons_append, List.cons.injEq] at placed
          exact absurd (placed.1 ▸ List.mem_cons_self) absent.2
  | some r =>
      obtain ⟨before, after, split, first⟩ :=
        List.eq_append_cons_of_mem (known r rfl)
      rw [split, insertInto_before first] at placed
      have outside : child ∉ before := fun member => by
        have inside : child ∈ front ++ back := by
          rw [split]
          exact List.mem_append_left _ member
        exact (List.mem_append.mp inside).elim absent.1 absent.2
      have same := (List.append_cons_inj_of_notMem absent.1 absent.2).mp
        placed.symm
      rw [same.2.2]
      rfl

/-- A node that is put among others goes into their list. -/
theorem children_insertBefore {dom : Dom} (tidy : dom.IsTidy)
    {parent child : NodeId} (notText : dom.isText parent = false)
    (solid : dom.isFragment child = false)
    (absent : child ∉ dom.children parent) (reference : Option NodeId) :
    (dom.insertBefore parent child reference).children parent =
      insertInto child reference (dom.children parent) := by
  have kept : (dom.children parent).filter (· ≠ child) =
      dom.children parent := by
    refine List.filter_eq_self.mpr fun sibling member => ?_
    exact decide_eq_true fun same => absent (same ▸ member)
  rw [insertBefore, if_neg (by simp [notText]), if_neg (by simp [solid]),
    children_place_before, if_pos rfl, tidy.children_detach, kept]

/-- The child after a given one. -/
theorem next_sibling {dom : Dom} (tidy : dom.IsTidy) {parent n : NodeId}
    (children : dom.children parent = front ++ n :: back) :
    (dom.indexInParent? n).bind (fun place =>
      (dom.children parent)[place + 1]?) = back.head? := by
  rw [tidy.indexInParent?_eq children, Option.bind_some]
  rw [children, List.getElem?_append_right (Nat.le_succ _),
    Nat.succ_sub (Nat.le_refl _), Nat.sub_self, List.getElem?_cons_succ,
    List.head?_eq_getElem?]

end Dom

private theorem insertIdx_append {α : Type} (front back : List α) (a : α) :
    (front ++ back).insertIdx front.length a = front ++ a :: back := by
  induction front with
  | nil => rfl
  | cons first rest ih => simp [ih]

theorem Collection.collection_joined {world : World σ} {c : CollectionId}
    {before after : List ViewId}
    (members : (world.collection c).members = before ++ after) (v : ViewId) :
    (joined world c before.length v).collection c =
      { world.collection c with members := before ++ v :: after } := by
  unfold joined
  rw [collection_update, members, insertIdx_append]

/-- The element of a new member is put before its reference. -/
theorem Collection.seated_eq {world : World σ} {c : CollectionId}
    {parent : NodeId} (home : (world.collection c).parent = some parent)
    (place : Nat) (n : NodeId) :
    seated world c place n = { world with
      dom := world.dom.insertBefore parent n
        (referenceFor world (world.collection c) place parent) } := by
  unfold seated
  rw [home]

theorem Collection.views_seated (world : World σ) (c : CollectionId)
    (place : Nat) (n : NodeId) :
    (seated world c place n).views = world.views := by
  unfold seated
  split <;> rfl

theorem Collection.collections_seated (world : World σ) (c : CollectionId)
    (place : Nat) (n : NodeId) :
    (seated world c place n).collections = world.collections := by
  unfold seated
  split <;> rfl

/-- What has its place among the children of an element. -/
inductive Lot where
  | fixed (node : NodeId)
  | members (collection : CollectionId)
  deriving DecidableEq, Repr

/-- The elements of some views, in order. -/
def World.elements (world : World σ) (views : List ViewId) : List NodeId :=
  views.filterMap fun v => (world.view v).element

/-- The nodes in the place of a lot. -/
def Lot.nodes (world : World σ) : Lot → List NodeId
  | .fixed n => [n]
  | .members c => world.elements (world.collection c).members

private theorem Collection.after_detachAll {c : CollectionId} {parent : NodeId}
    {front back : List NodeId} (views : List ViewId) {world : World σ}
    (tidy : world.dom.IsTidy)
    (home : (world.collection c).parent = some parent)
    (rooted : ∀ v ∈ views, ∃ n, (world.view v).element = some n)
    (children : world.dom.children parent =
      front ++ world.elements views ++ back) :
    ∃ dom, (views.forM (detach c)).after world = { world with dom := dom } ∧
      dom.IsTidy ∧ world.dom.nodes.size ≤ dom.nodes.size ∧
      dom.isText parent = world.dom.isText parent ∧
      dom.children parent = front ++ back := by
  induction views generalizing world with
  | nil =>
      refine ⟨world.dom, rfl, tidy, Nat.le_refl _, rfl, ?_⟩
      simpa [World.elements] using children
  | cons v rest ih =>
      obtain ⟨n, element⟩ := rooted v (.head _)
      have around : world.dom.children parent =
          front ++ n :: (world.elements rest ++ back) := by
        rw [children]
        simp [World.elements, element]
      have first : (detach c v).after world =
          { world with dom := world.dom.removeChild parent n } := by
        rw [after_detach, home, element]
      have left := (tidy.children_removeChild around).trans
        (List.append_assoc _ _ _).symm
      obtain ⟨dom, after, tidied, size, text, left⟩ :=
        @ih { world with dom := world.dom.removeChild parent n }
          (tidy.removeChild parent n) home
          (fun u member => rooted u (.tail _ member)) left
      refine ⟨dom, ?_, tidied,
        Nat.le_trans (Dom.size_le_removeChild _ _ _) size, text.trans ?_, left⟩
      · show (rest.forM (detach c)).after ((detach c v).after world) = _
        rw [first, after]
      · exact Dom.isText_congr (Dom.kind_removeChild _ _ _ _)

theorem World.elements_congr {world later : World σ} {views : List ViewId}
    (same : ∀ v ∈ views, (later.view v).element = (world.view v).element) :
    later.elements views = world.elements views :=
  List.filterMap_congr same

theorem Lot.nodes_congr {world later : World σ} {lot : Lot}
    (collections : ∀ c, lot = .members c →
      (later.collection c).members = (world.collection c).members)
    (views : ∀ c, lot = .members c → ∀ v ∈ (world.collection c).members,
      (later.view v).element = (world.view v).element) :
    lot.nodes later = lot.nodes world := by
  cases lot with
  | fixed n => rfl
  | members c =>
      show later.elements _ = world.elements _
      rw [collections c rfl]
      exact World.elements_congr (views c rfl)

namespace World

/-- The children of a node are some lots in order, and each member of a
collection among them stands for its element. -/
structure IsLaidOut (parent : NodeId) (lots : List Lot) (world : World σ) :
    Prop where
  tidy : world.dom.IsTidy
  there : parent.index < world.dom.nodes.size
  notText : world.dom.isText parent = false
  distinct : lots.Nodup
  homes : ∀ c, .members c ∈ lots → (world.collection c).parent = some parent
  rooted : ∀ c, .members c ∈ lots → ∀ v ∈ (world.collection c).members,
    ∃ n, Member.root? world (.view v) = some n
  children : world.dom.children parent = lots.flatMap (Lot.nodes world)

/-- A collection has members, or its anchor is the node that comes after it. -/
def IsReady (parent : NodeId) (lots : List Lot) (world : World σ)
    (c : CollectionId) : Prop :=
  (world.collection c).members = [] → ∀ front back,
    lots = front ++ .members c :: back →
      ((world.collection c).anchor.filter fun anchor =>
        world.dom.parent? anchor == some parent) =
          (back.flatMap (Lot.nodes world)).head?

/-- The collections in some lots, and their members. -/
def LinesUp (world : World σ) (lots : List Lot) (member : Member) : Prop :=
  ∃ c, .members c ∈ lots ∧ (member = .collection c ∨
    ∃ v ∈ (world.collection c).members, member = .view v)

variable {parent : NodeId} {lots : List Lot} {world later : World σ}

/-- Lots without a collection are the same when only that one changes. -/
theorem nodes_of_others {c : CollectionId} {some : List Lot}
    (outside : .members c ∉ some) (views : later.views = world.views)
    (others : ∀ d, d ≠ c → later.collection d = world.collection d) :
    some.flatMap (Lot.nodes later) = some.flatMap (Lot.nodes world) := by
  refine List.flatMap_congr fun lot inside => Lot.nodes_congr ?_ ?_
  · rintro d rfl
    rw [others d fun same => outside (same ▸ inside)]
  · rintro d rfl v _
    rw [World.view, World.view, views]

theorem reference_of_empty (parent : NodeId) {c : CollectionId}
    (members : (world.collection c).members = []) (v : ViewId) :
    let joined := Collection.joined world c 0 v
    Collection.referenceFor joined (joined.collection c) 0 parent =
      (world.collection c).anchor.filter fun anchor =>
        world.dom.parent? anchor == some parent := by
  intro joined
  have split : (world.collection c).members = [] ++ [] := members
  have row : joined.collection c =
      { world.collection c with members := [v] } :=
    Collection.collection_joined split v
  unfold Collection.referenceFor
  rw [row]
  rfl

namespace IsLaidOut

variable (laid : world.IsLaidOut parent lots)

include laid

section Onward

variable {concerned among : Member → Prop} {kept : NodeId → Prop}
  (leaves : world.Leaves concerned among kept later)
  (concerns : ∀ member, world.LinesUp lots member → concerned member)
  (apart : ∀ c, .members c ∈ lots → ¬among (.collection c))

include leaves concerns

omit laid in
theorem root?_onward {c : CollectionId} (inside : .members c ∈ lots)
    {v : ViewId} (member : v ∈ (world.collection c).members) {n : NodeId}
    (root : Member.root? world (.view v) = some n) :
    Member.root? later (.view v) = some n := by
  exact leaves.root?_stays (concerns _ ⟨c, inside, .inr ⟨v, member, rfl⟩⟩) root

include apart

omit laid in
theorem collection_onward {c : CollectionId} (inside : .members c ∈ lots) :
    later.collection c = world.collection c := by
  exact leaves.collections c (concerns _ ⟨c, inside, .inl rfl⟩) (apart c inside)

theorem nodes_onward {lot : Lot} (inside : lot ∈ lots) :
    lot.nodes later = lot.nodes world := by
  refine Lot.nodes_congr ?_ ?_
  · rintro c rfl
    rw [collection_onward leaves concerns apart inside]
  · rintro c rfl v member
    obtain ⟨n, root⟩ := laid.rooted c inside v member
    rw [element_of_root? root,
      element_of_root? (root?_onward leaves concerns inside member root)]

/-- What leaves the children, the collections and their members alone leaves
everything lined up. -/
theorem onward (keeps : kept parent) : later.IsLaidOut parent lots := by
  refine ⟨leaves.tidy laid.tidy, Nat.lt_of_lt_of_le laid.there leaves.size,
    ?_, laid.distinct, fun c inside => ?_, fun c inside v member => ?_, ?_⟩
  · rw [leaves.isText laid.there]
    exact laid.notText
  · rw [collection_onward leaves concerns apart inside]
    exact laid.homes c inside
  · rw [collection_onward leaves concerns apart inside] at member
    obtain ⟨n, root⟩ := laid.rooted c inside v member
    exact ⟨n, root?_onward leaves concerns inside member root⟩
  · rw [leaves.children parent keeps, laid.children]
    exact List.flatMap_congr fun lot inside =>
      (laid.nodes_onward leaves concerns apart inside).symm

theorem isReady_onward (keeps : kept parent) {c : CollectionId}
    (inside : .members c ∈ lots) :
    later.IsReady parent lots c ↔ world.IsReady parent lots c := by
  have row := collection_onward leaves concerns apart inside
  have child (n : NodeId) : (later.dom.parent? n == some parent) =
      (world.dom.parent? n == some parent) := by
    rw [Bool.eq_iff_iff, beq_iff_eq, beq_iff_eq,
      ← laid.tidy.linked parent n, ← (leaves.tidy laid.tidy).linked parent n,
      leaves.children parent keeps]
  have behind (front back : List Lot)
      (split : lots = front ++ .members c :: back) :
      back.flatMap (Lot.nodes later) = back.flatMap (Lot.nodes world) :=
    List.flatMap_congr fun lot member => laid.nodes_onward leaves concerns apart
      (by simp [split, member])
  simp only [IsReady, row, child]
  refine imp_congr_right fun _ => forall_congr' fun front => forall_congr'
    fun back => forall_congr' fun split => ?_
  rw [behind front back split]

end Onward

theorem apart_of_split {c : CollectionId} {front back : List Lot}
    (split : lots = front ++ .members c :: back) :
    .members c ∉ front ∧ .members c ∉ back := by
  have nodup := laid.distinct
  rw [split, List.nodup_append, List.nodup_cons] at nodup
  exact ⟨fun member => nodup.2.2 _ member _ (.head _) rfl, nodup.2.1.1⟩

theorem mounted?_eq {c : CollectionId} (inside : .members c ∈ lots)
    {v : ViewId} (member : v ∈ (world.collection c).members) :
    Collection.mounted? world parent v = (world.view v).element := by
  obtain ⟨n, root⟩ := laid.rooted c inside v member
  have element := element_of_root? root
  have child : n ∈ world.dom.children parent := by
    rw [laid.children, List.mem_flatMap]
    exact ⟨_, inside, List.mem_filterMap.mpr ⟨v, member, element⟩⟩
  unfold Collection.mounted?
  rw [element, Option.filter_some, (laid.tidy.linked parent n).mp child]
  simp

theorem relay {c : CollectionId} {front back : List Lot}
    (split : lots = front ++ .members c :: back) (tidy : later.dom.IsTidy)
    (size : world.dom.nodes.size ≤ later.dom.nodes.size)
    (notText : later.dom.isText parent = false)
    (views : later.views = world.views)
    (others : ∀ d, d ≠ c → later.collection d = world.collection d)
    (home : (later.collection c).parent = some parent)
    (rooted : ∀ v ∈ (later.collection c).members,
      ∃ n, Member.root? world (.view v) = some n)
    (children : later.dom.children parent =
      front.flatMap (Lot.nodes world) ++
        world.elements (later.collection c).members ++
          back.flatMap (Lot.nodes world)) :
    later.IsLaidOut parent lots := by
  have view (v : ViewId) : later.view v = world.view v := by
    rw [World.view, World.view, views]
  have root (v : ViewId) : Member.root? later (.view v) =
      Member.root? world (.view v) := by
    simp only [Member.root?, view]
  obtain ⟨ahead, behind⟩ := laid.apart_of_split split
  refine ⟨tidy, Nat.lt_of_lt_of_le laid.there size, notText, laid.distinct,
    fun d inside => ?_, fun d inside v member => ?_, ?_⟩
  · by_cases same : d = c
    · exact same ▸ home
    · rw [others d same]
      exact laid.homes d inside
  · rw [root]
    by_cases same : d = c
    · exact rooted v (same ▸ member)
    · rw [others d same] at member
      exact laid.rooted d inside v member
  · have mine : later.elements (later.collection c).members =
        world.elements (later.collection c).members :=
      elements_congr fun v _ => by rw [view]
    rw [children, split, List.flatMap_append, List.flatMap_cons,
      nodes_of_others ahead views others, nodes_of_others behind views others,
      Lot.nodes, mine, List.append_assoc]

theorem children_split {c : CollectionId} {front back : List Lot}
    (split : lots = front ++ .members c :: back) :
    world.dom.children parent = front.flatMap (Lot.nodes world) ++
      world.elements (world.collection c).members ++
        back.flatMap (Lot.nodes world) := by
  rw [laid.children, split, List.flatMap_append, List.flatMap_cons,
    List.append_assoc]
  rfl

/-- Beside other members a new one goes before the element of the next, or else
behind that of the last. -/
theorem reference_of_members {c : CollectionId} {front back : List Lot}
    (split : lots = front ++ .members c :: back) {before after : List ViewId}
    (members : (world.collection c).members = before ++ after)
    (some : before ++ after ≠ []) (v : ViewId) :
    let joined := Collection.joined world c before.length v
    Collection.referenceFor joined (joined.collection c) before.length parent =
      (world.elements after ++ back.flatMap (Lot.nodes world)).head? := by
  intro joined
  have row : (joined.collection c).members = before ++ v :: after := by
    rw [Collection.collection_joined members]
  have inside : .members c ∈ lots := by simp [split]
  have known {u : ViewId} (member : u ∈ before ++ after) :
      ∃ n, Collection.mounted? joined parent u = Option.some n ∧
        (world.view u).element = Option.some n := by
    obtain ⟨n, root⟩ := laid.rooted c inside u (members ▸ member)
    have element := element_of_root? root
    exact ⟨n, (laid.mounted?_eq inside (members ▸ member)).trans element,
      element⟩
  have ahead : (before ++ v :: after).drop (before.length + 1) = after := by
    simp
  have behind : (before ++ v :: after).take before.length = before := by simp
  unfold Collection.referenceFor
  dsimp only
  rw [row, ahead, behind]
  cases after with
  | cons next rest =>
      obtain ⟨n, found, element⟩ := known (List.mem_append_right _ (.head _))
      rw [List.findSome?_cons, found]
      simp [elements, element]
  | nil =>
      rw [List.append_nil] at some members
      obtain ⟨rest, last, rfl⟩ :=
        (List.eq_nil_or_concat' before).resolve_left some
      obtain ⟨n, found, element⟩ := known
        (List.mem_append_left [] (List.mem_append_right rest (.head [])))
      have children := laid.children_split split
      rw [members] at children
      have around : world.dom.children parent =
          (front.flatMap (Lot.nodes world) ++ world.elements rest) ++
            n :: back.flatMap (Lot.nodes world) := by
        rw [children]
        simp [elements, element]
      rw [List.reverse_append, List.reverse_singleton, List.singleton_append,
        List.findSome?_nil, List.findSome?_cons, found]
      exact Dom.next_sibling laid.tidy around

section Seat

variable {c : CollectionId} {front back : List Lot}
  (split : lots = front ++ .members c :: back) {before after : List ViewId}
  (members : (world.collection c).members = before ++ after) (v : ViewId)

include split members

theorem home_joined :
    ((Collection.joined world c before.length v).collection c).parent =
      some parent := by
  rw [Collection.collection_joined members]
  exact laid.homes c (by simp [split])

variable {n : NodeId} (solid : world.dom.isFragment n = false)
  (absent : n ∉ world.dom.children parent)

include solid absent

theorem children_seated :
    (Collection.seated (Collection.joined world c before.length v) c
      before.length n).dom.children parent =
        Dom.insertInto n (Collection.referenceFor
          (Collection.joined world c before.length v)
          ((Collection.joined world c before.length v).collection c)
          before.length parent)
          ((front.flatMap (Lot.nodes world) ++ world.elements before) ++
            (world.elements after ++ back.flatMap (Lot.nodes world))) := by
  have children := laid.children_split split
  rw [members] at children
  rw [Collection.seated_eq (laid.home_joined split members v)]
  show (world.dom.insertBefore parent n _).children parent = _
  rw [Dom.children_insertBefore laid.tidy laid.notText solid absent, children]
  simp [elements]

/-- With the right reference the new element is in its place. -/
theorem seat_of_reference (root : Member.root? world (.view v) = some n)
    (reference : Collection.referenceFor
      (Collection.joined world c before.length v)
      ((Collection.joined world c before.length v).collection c)
      before.length parent =
        (world.elements after ++ back.flatMap (Lot.nodes world)).head?) :
    (Collection.seated (Collection.joined world c before.length v) c
      before.length n).IsLaidOut parent lots := by
  have inside : .members c ∈ lots := by simp [split]
  have row := Collection.collection_joined members v
  have home := laid.home_joined split members v
  have children := laid.children_seated split members v solid absent
  have nodup := laid.tidy.nodup parent
  rw [laid.children_split split, members] at nodup
  rw [reference, Dom.insertInto_head? (by simpa [elements] using nodup)]
    at children
  rw [Collection.seated_eq home] at children ⊢
  refine laid.relay split (laid.tidy.insertBefore _ _ _)
    (Dom.size_le_insertBefore _ _ _ _) ?_ rfl
    (fun d differs => Collection.collection_update_of_ne _ _ differs) home
    (fun u member => ?_) (children.trans ?_)
  · exact (Dom.isText_congr (Dom.kind_insertBefore _ _ _ _ _)).trans laid.notText
  · change u ∈ ((Collection.joined world c before.length v).collection c).members
      at member
    rw [row] at member
    rcases List.mem_append.mp member with old | rest
    · exact laid.rooted c inside u (members ▸ List.mem_append_left _ old)
    · rcases List.mem_cons.mp rest with rfl | old
      · exact ⟨n, root⟩
      · exact laid.rooted c inside u (members ▸ List.mem_append_right _ old)
  · change _ = _ ++ world.elements ((Collection.joined world c before.length
      v).collection c).members ++ _
    rw [row]
    simp [elements, element_of_root? root]

/-- If the children are lined up afterwards, the new element came right after
the members before it. -/
theorem insertInto_of_seated (root : Member.root? world (.view v) = some n)
    (later : (Collection.seated (Collection.joined world c before.length v) c
      before.length n).IsLaidOut parent lots) :
    Dom.insertInto n (Collection.referenceFor
        (Collection.joined world c before.length v)
        ((Collection.joined world c before.length v).collection c)
        before.length parent)
        ((front.flatMap (Lot.nodes world) ++ world.elements before) ++
          (world.elements after ++ back.flatMap (Lot.nodes world))) =
      (front.flatMap (Lot.nodes world) ++ world.elements before) ++
        n :: (world.elements after ++ back.flatMap (Lot.nodes world)) := by
  have placed := laid.children_seated split members v solid absent
  have lined := later.children_split split
  obtain ⟨ahead, behind⟩ := laid.apart_of_split split
  have views := Collection.views_seated
    (Collection.joined world c before.length v) c before.length n
  have rows := Collection.collections_seated
    (Collection.joined world c before.length v) c before.length n
  generalize Collection.seated (Collection.joined world c before.length v) c
    before.length n = final at *
  change final.views = world.views at views
  have others (d : CollectionId) (differs : d ≠ c) :
      final.collection d = world.collection d := by
    rw [World.collection, rows]
    exact Collection.collection_update_of_ne _ _ differs
  have mine : final.elements (final.collection c).members =
      world.elements (before ++ v :: after) := by
    rw [World.collection, rows]
    change final.elements ((Collection.joined world c before.length
      v).collection c).members = _
    rw [Collection.collection_joined members]
    exact elements_congr fun u _ => by rw [World.view, World.view, views]
  rw [nodes_of_others ahead views others, nodes_of_others behind views others,
    mine] at lined
  rw [← placed, lined]
  simp [elements, element_of_root? root]

end Seat

theorem seat_iff {c : CollectionId} (inside : .members c ∈ lots) {v : ViewId}
    {n : NodeId} (root : Member.root? world (.view v) = some n)
    (solid : world.dom.isFragment n = false)
    (absent : n ∉ world.dom.children parent) {place : Nat}
    (within : place ≤ (world.collection c).members.length) :
    (Collection.seated (Collection.joined world c place v) c place
      n).IsLaidOut parent lots ↔ world.IsReady parent lots c := by
  obtain ⟨before, after, members, rfl⟩ : ∃ before after : List ViewId,
      (world.collection c).members = before ++ after ∧ before.length = place :=
    ⟨_, _, (List.take_append_drop place _).symm, List.length_take_of_le within⟩
  refine ⟨fun later none front back split => ?_, fun ready => ?_⟩
  · rw [members] at none
    obtain ⟨rfl, rfl⟩ := List.append_eq_nil_iff.mp none
    have placed := laid.insertInto_of_seated split members v solid absent root
      later
    have reference := reference_of_empty parent members v
    have children : world.dom.children parent =
        (front.flatMap (Lot.nodes world) ++ world.elements []) ++
          (world.elements [] ++ back.flatMap (Lot.nodes world)) := by
      rw [laid.children_split split, members]
      simp [elements]
    rw [children] at absent
    refine reference.symm.trans (Dom.head?_of_insertInto
      (children ▸ laid.tidy.nodup parent) absent (fun r known => ?_) placed)
    have above := (Option.mem_filter_iff.mp (reference ▸ known)).2
    have member : r ∈ world.dom.children parent :=
      (laid.tidy.linked parent r).mpr (by simpa using above)
    exact children ▸ member
  · obtain ⟨front, back, split⟩ := List.append_of_mem inside
    refine laid.seat_of_reference split members v solid absent root ?_
    by_cases none : before ++ after = []
    · obtain ⟨rfl, rfl⟩ := List.append_eq_nil_iff.mp none
      exact (reference_of_empty parent members v).trans
        (ready members front back split)
    · exact laid.reference_of_members split members none v

/-- When members have been given up and their elements are detached, the others
are lined up. -/
theorem detachAll {c : CollectionId} {front back : List Lot}
    (split : lots = front ++ .members c :: back)
    {before gone after : List ViewId}
    (members : (world.collection c).members = before ++ gone ++ after)
    {change : Collection → Collection}
    (row : change (world.collection c) =
      { world.collection c with members := before ++ after }) :
    ((gone.forM (Collection.detach c)).after
      ((Collection.update c change).after world)).IsLaidOut parent lots := by
  have inside : .members c ∈ lots := by simp [split]
  obtain ⟨shrunk, named⟩ :
    ∃ shrunk, shrunk = (Collection.update c change).after world := ⟨_, rfl⟩
  have mine : shrunk.collection c =
      { world.collection c with members := before ++ after } := by
    rw [named, Collection.collection_update, row]
  have children : shrunk.dom.children parent =
      (front.flatMap (Lot.nodes world) ++ world.elements before) ++
        shrunk.elements gone ++
          (world.elements after ++ back.flatMap (Lot.nodes world)) := by
    have siblings := laid.children_split split
    rw [members] at siblings
    rw [named]
    refine siblings.trans ?_
    simp [elements, Collection.update, World.view]
  have views : shrunk.views = world.views := by
    rw [named]
    rfl
  have dom : shrunk.dom = world.dom := by
    rw [named]
    rfl
  have home : (shrunk.collection c).parent = some parent := by
    rw [mine]
    exact laid.homes c inside
  have rooted (v : ViewId) (member : v ∈ gone) :
      ∃ n, (shrunk.view v).element = some n := by
    obtain ⟨n, root⟩ := laid.rooted c inside v (by simp [members, member])
    exact ⟨n, by rw [World.view, views]; exact element_of_root? root⟩
  obtain ⟨later, detached, tidy, size, text, left⟩ :=
    Collection.after_detachAll gone (dom ▸ laid.tidy) home rooted children
  rw [← named, detached]
  refine laid.relay split tidy (dom ▸ size) ?_ views (fun d differs => ?_) home
    (fun v member => ?_) ?_
  · exact text.trans (dom ▸ laid.notText)
  · show shrunk.collection d = _
    rw [named]
    exact Collection.collection_update_of_ne _ _ differs
  · change v ∈ (shrunk.collection c).members at member
    rw [mine] at member
    refine laid.rooted c inside v ?_
    rw [members]
    rcases List.mem_append.mp member with old | old <;> simp [old]
  · change _ = _ ++ world.elements (shrunk.collection c).members ++ _
    rw [mine]
    exact left.trans (by simp [elements])

theorem remove {c : CollectionId} (inside : .members c ∈ lots) (index : Nat) :
    ((Collection.remove c index).after world).IsLaidOut parent lots := by
  rw [Collection.after_remove]
  cases found : (world.collection c).members[index]? with
  | none => exact laid
  | some v =>
      obtain ⟨below, value⟩ := List.getElem?_eq_some_iff.mp found
      obtain ⟨before, after, members, length, _⟩ :=
        @List.exists_of_set _ index v _ below
      rw [value] at members
      obtain ⟨front, back, split⟩ := List.append_of_mem inside
      have parts : (world.collection c).members = before ++ [v] ++ after := by
        simp [members]
      refine laid.detachAll split parts ?_
      rw [members, ← length,
        List.eraseIdx_append_of_length_le (Nat.le_refl _), Nat.sub_self]
      rfl

/-- Removing all members takes their elements away. -/
theorem clear {c : CollectionId} (inside : .members c ∈ lots) :
    ((Collection.clear c).after world).IsLaidOut parent lots := by
  rw [Collection.after_clear]
  obtain ⟨front, back, split⟩ := List.append_of_mem inside
  have parts : (world.collection c).members =
      [] ++ (world.collection c).members ++ [] := by simp
  exact laid.detachAll split parts rfl

end IsLaidOut

end World

end LiveTemplate
