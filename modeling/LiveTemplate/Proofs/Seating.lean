import LiveTemplate.Proofs.Lineup

/-!
# The children of a rendered element

Rendering an element takes its children in the order of the definition: nested
templates, views, nodes that were there before, and for each collection the
elements of its members.  As long as none of them is moved when another one is
rendered, they come to stand in that order, and each collection is told the node
that comes after it.

`World.Seating` is the invariant while children are gathered in a fragment;
`Seating.take` carries it from child to child.
-/

namespace LiveTemplate

variable {σ : Type}

/-- The members that bring nodes of their own: a collection stands for its
members. -/
def Member.tops (world : World σ) : Member → List Member
  | .collection c => (world.collection c).members.map .view
  | member => [member]

/-- A member that has been rendered, and the node it stands for. -/
structure Seat where
  member : Member
  node : NodeId

namespace World

/-- A member is not moved when another one is rendered. -/
structure KeepsOut (world : World σ) (one other : Member) : Prop where
  view : ∀ v, one = .view v → ¬world.Composes other (.view v)
  root : ∀ r inner, one.root? world = some r → world.Composes other inner →
    inner.root? world ≠ some r

/-- Neither member is moved when the other one is rendered. -/
def KeepApart (world : World σ) (one other : Member) : Prop :=
  world.KeepsOut one other ∧ world.KeepsOut other one

/-- What is concerned when a template is rendered is there, and what a view
came to is no fragment. -/
structure IsSettled (world : World σ) (concerned : Member → Prop) : Prop where
  tidy : world.dom.IsTidy
  nodes : ∀ n, concerned (.node n) → n.index < world.dom.nodes.size
  elements : ∀ v n, concerned (.view v) → (world.view v).element = some n →
    n.index < world.dom.nodes.size ∧ world.dom.isFragment n = false

/-- Some members may be rendered next to each other. -/
structure Fits (world : World σ) (concerned : Member → Prop)
    (tops : List Member) : Prop where
  apart : tops.Pairwise world.KeepApart
  concerns : ∀ top ∈ tops, ∀ inner, world.Composes top inner → concerned inner
  solid : ∀ n, .node n ∈ tops → world.dom.isFragment n = false

/-- The node that a member comes to stand for: that of a nested template is new
and what the definition says. -/
def Seats (start world : World σ) (seat : Seat) : Prop :=
  match seat.member with
  | .template t => start.dom.nodes.size ≤ seat.node.index ∧
      seat.node.index < world.dom.nodes.size ∧
      world.dom.sort seat.node = (start.template t).blueprint.sort
  | .view v => Member.root? world (.view v) = some seat.node
  | .node n => seat.node = n
  | .collection _ => False

/-- Some members have taken their seats in a fragment, and the others have
stayed where they were. -/
structure Seating (concerned : Member → Prop) (start : World σ)
    (parent fragment : NodeId) (seats : List Seat) (rest : List Member)
    (world : World σ) : Prop where
  fits : start.Fits concerned (seats.map Seat.member ++ rest)
  passed : start.Leaves concerned concerned (fun _ => False) world
  frames : .refs [.node parent] ∈ world.frames ∧
    .refs [.node fragment] ∈ world.frames
  old : parent.index < world.dom.nodes.size ∧
    fragment.index < world.dom.nodes.size
  sorts : world.dom.isFragment fragment = true ∧
    world.dom.isFragment parent = false ∧ world.dom.isText parent = false
  empty : world.dom.children parent = []
  gathered : world.dom.children fragment = seats.map Seat.node
  seated : ∀ seat ∈ seats, start.Seats world seat
  untouched : ∀ v, .view v ∈ rest → start.SameView world v
  free : ∀ top ∈ rest, ∀ inner r, start.Composes top inner →
    inner.root? world = some r →
      r ≠ parent ∧ r ≠ fragment ∧ r ∉ seats.map Seat.node

/-- A member has been rendered, and the node it stands for may be put at the
end. -/
structure Comes (concerned : Member → Prop) (start : World σ)
    (parent fragment : NodeId) (rest : List Member) (world : World σ)
    (seat : Seat) (later : World σ) : Prop where
  leaves : world.Leaves concerned (start.Composes seat.member)
    (fun m => m = parent ∨ m = fragment) later
  seats : start.Seats later seat
  solid : later.dom.isFragment seat.node = false
  outside : seat.node ≠ parent ∧ seat.node ≠ fragment ∧
    seat.node ∉ world.dom.children fragment
  alone : ∀ other ∈ rest, ∀ inner r, start.Composes other inner →
    inner.root? later = some r → r ≠ seat.node

variable {concerned among : Member → Prop} {kept : NodeId → Prop}
  {start world later : World σ}

/-- Members are kept apart if neither is brought by the other and all that they
bring stands for different nodes. -/
theorem KeepApart.of_closed {one other : Member} {mine theirs : List Member}
    (closed : ∀ member ∈ mine, ∀ part ∈ world.parts member, part ∈ mine)
    (closedToo : ∀ member ∈ theirs, ∀ part ∈ world.parts member, part ∈ theirs)
    (here : one ∈ mine) (there : other ∈ theirs)
    (differs : one ∉ theirs ∧ other ∉ mine)
    (roots : ∀ a ∈ mine, ∀ b ∈ theirs, ∀ r, a.root? world = some r →
      b.root? world ≠ some r) :
    world.KeepApart one other := by
  refine ⟨⟨fun v same inside => ?_, fun r inner root inside below => ?_⟩,
    ⟨fun v same inside => ?_, fun r inner root inside below => ?_⟩⟩
  · exact differs.1 (same ▸ inside.mem_of_closed closedToo there)
  · exact roots one here inner (inside.mem_of_closed closedToo there) r root
      below
  · exact differs.2 (same ▸ inside.mem_of_closed closed here)
  · exact roots inner (inside.mem_of_closed closed here) other there r below
      root

theorem KeepApart.of_no_parts {one other : Member} (differs : one ≠ other)
    (bare : world.parts one = [] ∧ world.parts other = [])
    (roots : ∀ r, one.root? world = some r → other.root? world ≠ some r) :
    world.KeepApart one other := by
  refine .of_closed (closed_of_no_parts bare.1) (closed_of_no_parts bare.2)
    (List.mem_singleton_self _) (List.mem_singleton_self _) ⟨?_, ?_⟩
    fun a mine b theirs r root => ?_
  · exact fun same => differs (List.mem_singleton.mp same)
  · exact fun same => differs (List.mem_singleton.mp same).symm
  · rw [List.mem_singleton.mp mine] at root
    rw [List.mem_singleton.mp theirs]
    exact roots r root

/-- What a member stands for later on it stood for before, or is new. -/
theorem Leaves.root?_before (leaves : start.Leaves concerned among kept world)
    {member : Member} (concerns : concerned member) {r : NodeId}
    (root : member.root? world = some r) :
    member.root? start = some r ∨ start.dom.nodes.size ≤ r.index := by
  cases member with
  | template t => cases root
  | collection c => cases root
  | node n => exact .inl root
  | view v =>
      rcases leaves.views v concerns with same | ⟨_, renders⟩
      · exact .inl (same.root?.symm.trans root)
      · exact renders.root? root

/-- What has taken a seat keeps it. -/
theorem Seats.onward {seat : Seat} (seated : start.Seats world seat)
    (leaves : world.Leaves concerned among kept later)
    (concerns : concerned seat.member) : start.Seats later seat := by
  obtain ⟨member, n⟩ := seat
  cases member with
  | template t =>
      obtain ⟨new, there, sort⟩ := seated
      exact ⟨new, Nat.lt_of_lt_of_le there leaves.size,
        (leaves.sorts n there).trans sort⟩
  | collection c => exact seated
  | node m => exact seated
  | view v => exact leaves.root?_stays concerns seated

namespace IsSettled

variable (settled : start.IsSettled concerned)

include settled

theorem lt_size {member : Member} (concerns : concerned member) {r : NodeId}
    (root : member.root? start = some r) : r.index < start.dom.nodes.size := by
  cases member with
  | template t => cases root
  | collection c => cases root
  | node n =>
      cases root
      exact settled.nodes r concerns
  | view v => exact (settled.elements v r concerns (element_of_root? root)).1

theorem onward (passed : start.Leaves concerned among kept world) :
    world.IsSettled concerned where
  tidy := passed.tidy settled.tidy
  nodes n concerns := Nat.lt_of_lt_of_le (settled.nodes n concerns) passed.size
  elements v _ concerns element :=
    passed.element_solid concerns (settled.elements v · concerns) element

/-- As long as nothing is rendered, nodes that are held or guarded may keep
their children. -/
theorem scope {guarded : NodeId → Prop}
    (old : ∀ n, kept n → n.index < start.dom.nodes.size)
    (held : ∀ n, kept n → guarded n ∨ .refs [.node n] ∈ start.frames) :
    start.Scope concerned (fun _ => False) kept guarded where
  tidy := settled.tidy
  old := old
  held := held
  elements := settled.elements
  within _ := False.elim
  nested _ _ := False.elim
  members _ _ := False.elim
  templates _ _ := False.elim
  free _ _ := False.elim

end IsSettled

theorem Fits.sublist {tops some : List Member} (fits : start.Fits concerned tops)
    (fewer : some.Sublist tops) : start.Fits concerned some where
  apart := fits.apart.sublist fewer
  concerns top member := fits.concerns top (fewer.subset member)
  solid n member := fits.solid n (fewer.subset member)

namespace Seating

variable {parent fragment : NodeId} {seats : List Seat} {rest : List Member}
  {top : Member}

/-- What is held makes no difference, as long as the two nodes are. -/
theorem reframe {before : List Frame}
    (seating : start.Seating concerned parent fragment seats rest
      (world.holding before)) {after : List Frame}
    (frames : start.frames ⊆ after)
    (held : .refs [.node parent] ∈ after ∧ .refs [.node fragment] ∈ after) :
    start.Seating concerned parent fragment seats rest
      (world.holding after) := by
  exact { seating with
    passed := seating.passed.reframe frames
    frames := held
    untouched := fun v member =>
      have same := seating.untouched v member
      ⟨same.template, same.element, same.rendered⟩ }

theorem enter
    (seating : start.Seating concerned parent fragment seats rest world)
    (frame : Frame) :
    start.Seating concerned parent fragment seats rest
      (world.holding (frame :: world.frames)) := by
  have same : start.Seating concerned parent fragment seats rest
    (world.holding world.frames) := seating
  exact same.reframe (List.Subset.trans seating.passed.frames
    (List.subset_cons_self _ _))
      ⟨.tail _ seating.frames.1, .tail _ seating.frames.2⟩

theorem leave {more : List Seat} {others : List Member}
    (seating : start.Seating concerned parent fragment seats rest world)
    (after : start.Seating concerned parent fragment more others later) :
    start.Seating concerned parent fragment more others
      (later.holding world.frames) := by
  have same : start.Seating concerned parent fragment more others
    (later.holding later.frames) := after
  exact same.reframe seating.passed.frames seating.frames

theorem differs
    (seating : start.Seating concerned parent fragment seats rest world) :
    parent ≠ fragment := by
  intro same
  have sorts := seating.sorts
  rw [same, sorts.1] at sorts
  exact absurd sorts.2.1 (by simp)

theorem notText
    (seating : start.Seating concerned parent fragment seats rest world) :
    world.dom.isText fragment = false := by
  rw [Bool.eq_false_iff, ne_eq, Dom.isText_iff_sort,
    Dom.isFragment_iff_sort.mp seating.sorts.1]
  nofun

theorem grow {more : List Seat}
    (seating : start.Seating concerned parent fragment seats
      (more.map Seat.member ++ rest) world)
    (put : world.Leaves concerned concerned (fun _ => False) later)
    (rows : later.dom.children parent = [] ∧
      later.dom.children fragment = (seats ++ more).map Seat.node)
    (seated : ∀ seat ∈ more, start.Seats later seat)
    (untouched : ∀ v, .view v ∈ rest → start.SameView later v)
    (free : ∀ top ∈ rest, ∀ inner r, start.Composes top inner →
      inner.root? later = some r →
        r ≠ parent ∧ r ≠ fragment ∧ r ∉ (seats ++ more).map Seat.node) :
    start.Seating concerned parent fragment (seats ++ more) rest later where
  fits := by
    rw [List.map_append, List.append_assoc]
    exact seating.fits
  passed := seating.passed.trans put
  frames := ⟨put.frames seating.frames.1, put.frames seating.frames.2⟩
  old := ⟨Nat.lt_of_lt_of_le seating.old.1 put.size,
    Nat.lt_of_lt_of_le seating.old.2 put.size⟩
  sorts := ⟨(put.isFragment seating.old.2).trans seating.sorts.1,
    (put.isFragment seating.old.1).trans seating.sorts.2.1,
    (put.isText seating.old.1).trans seating.sorts.2.2⟩
  empty := rows.1
  gathered := rows.2
  seated seat member := by
    rcases List.mem_append.mp member with old | new
    · exact (seating.seated seat old).onward put
        (seating.fits.concerns seat.member (List.mem_append_left _
          (List.mem_map_of_mem old)) _ (.refl _ _))
    · exact seated seat new
  untouched := untouched
  free := free

section Step

variable (settled : start.IsSettled concerned)
  (seating : start.Seating concerned parent fragment seats (top :: rest) world)

include seating

theorem concerns {inner : Member} (inside : start.Composes top inner) :
    concerned inner :=
  seating.fits.concerns top (by simp) inner inside

theorem apart {other : Member} (member : other ∈ rest) :
    start.KeepApart top other := by
  exact List.rel_of_pairwise_cons
    (List.pairwise_append.mp seating.fits.apart).2.1 member

theorem fits_rest : start.Fits concerned rest := by
  exact seating.fits.sublist
    ((List.sublist_cons_self top rest).trans (List.sublist_append_right _ _))

include settled

/-- The next member may be rendered. -/
theorem scope : world.Scope concerned (start.Composes top)
    (fun m => m = parent ∨ m = fragment) (fun _ => False) := by
  refine .of_composes seating.passed (fun _ => seating.concerns)
    (seating.passed.tidy settled.tidy) ?_ ?_ ?_ ?_
  · rintro _ (rfl | rfl)
    · exact seating.old.1
    · exact seating.old.2
  · rintro _ (rfl | rfl)
    · exact .inr seating.frames.1
    · exact .inr seating.frames.2
  · exact (settled.onward seating.passed).elements
  · intro member r inside root
    obtain ⟨notParent, notFragment, absent⟩ :=
      seating.free top (.head _) member r inside root
    refine ⟨fun same => same.elim notParent notFragment, ?_⟩
    rintro _ (rfl | rfl)
    · rw [seating.empty]
      exact List.not_mem_nil
    · rw [seating.gathered]
      exact absent

/-- A node that was there may take its seat. -/
theorem comes_node {m : NodeId} (same : top = .node m) :
    start.Comes concerned parent fragment rest world ⟨top, m⟩ world := by
  subst same
  obtain ⟨notParent, notFragment, absent⟩ :=
    seating.free (.node m) (.head _) (.node m) m (.refl _ _) rfl
  have there := settled.nodes m (seating.concerns (.refl _ _))
  refine ⟨.refl world, rfl, ?_, ⟨notParent, notFragment, ?_⟩, ?_⟩
  · rw [seating.passed.isFragment there]
    exact seating.fits.solid m (by simp)
  · rw [seating.gathered]
    exact absent
  · rintro other member inner r inside root rfl
    have concerns := seating.fits_rest.concerns other member inner inside
    rcases seating.passed.root?_before concerns root with before | new
    · exact (seating.apart member).1.root r inner rfl inside before
    · exact absurd there (Nat.not_lt.mpr new)

/-- The node of a nested template may take its seat. -/
theorem comes_template {t : TemplateId} (same : top = .template t)
    (leaves : world.Leaves concerned (start.Composes top)
      (fun m => m = parent ∨ m = fragment) later) {n : NodeId}
    (brings : world.Brings concerned (start.template t).blueprint.sort later
      n) : start.Comes concerned parent fragment rest world ⟨top, n⟩ later := by
  subst same
  have differs {m : NodeId} (old : m.index < world.dom.nodes.size) : m ≠ n := by
    rintro rfl
    exact absurd old (Nat.not_lt.mpr brings.new)
  refine ⟨leaves, ⟨Nat.le_trans seating.passed.size brings.new, brings.there,
    brings.sort⟩, brings.solid, ⟨(differs seating.old.1).symm,
      (differs seating.old.2).symm, ?_⟩, ?_⟩
  · intro member
    have tidy := seating.passed.tidy settled.tidy
    exact differs (tidy.lt_size_of_mem member) rfl
  · intro other member inner r inside root
    have concerns := seating.fits_rest.concerns other member inner inside
    cases inner with
    | template t => cases root
    | collection c => cases root
    | node m =>
        cases root
        exact differs (Nat.lt_of_lt_of_le (settled.nodes r concerns)
          seating.passed.size)
    | view v =>
        rintro rfl
        exact brings.unclaimed v concerns (element_of_root? root)

theorem comes_view {v : ViewId} (same : top = .view v)
    (leaves : world.Leaves concerned (start.Composes top)
      (fun m => m = parent ∨ m = fragment) later) {n : NodeId}
    (root : Member.root? later (.view v) = some n)
    (alone : world.dom.nodes.size ≤ n.index → ∀ other, other ≠ v →
      concerned (.view other) → (later.view other).element ≠ some n) :
    start.Comes concerned parent fragment rest world ⟨top, n⟩ later := by
  subst same
  have scope := (seating.scope settled).onward leaves
  have mine := seating.concerns (.refl start (.view v))
  obtain ⟨outside, absent⟩ := scope.free (.view v) n (.refl _ _) root
  refine ⟨leaves, root, (scope.elements v n mine (element_of_root? root)).2,
    ⟨fun same => outside (.inl same), fun same => outside (.inr same), ?_⟩, ?_⟩
  · rw [← leaves.children fragment (.inr rfl)]
    exact absent fragment (.inr rfl)
  rintro other member inner r inside found rfl
  have concerns := seating.fits_rest.concerns other member inner inside
  have apart := (seating.apart member).1
  rcases leaves.root?_before mine root with before | new
  · -- The element was there, and `other` does not come to the same.
    have first : Member.root? start (.view v) = some r :=
      (seating.untouched v (.head _)).root?.symm.trans before
    have old := (settled.elements v r mine (element_of_root? first)).1
    have all : start.Leaves concerned concerned (fun _ => False) later :=
      seating.passed.trans (leaves.mono (fun _ => seating.concerns) nofun)
    rcases all.root?_before concerns found with earlier | new
    · exact apart.root r inner first inside earlier
    · exact absurd old (Nat.not_lt.mpr new)
  · cases inner with
    | template t => cases found
    | collection c => cases found
    | node m =>
        cases found
        exact absurd (Nat.lt_of_lt_of_le (settled.nodes r concerns)
          seating.passed.size) (Nat.not_lt.mpr new)
    | view u =>
        refine alone new u ?_ concerns (element_of_root? found)
        rintro rfl
        exact apart.view u rfl inside

section Take

variable {n : NodeId}
  (comes : start.Comes concerned parent fragment rest world ⟨top, n⟩ later)

include comes

omit settled in
/-- Putting its node at the end leaves alone what has been settled. -/
theorem leaves_take : world.Leaves concerned concerned (fun _ => False)
    { later with dom := later.dom.appendChild fragment n } := by
  exact (comes.leaves.mono (fun _ => seating.concerns) nofun).trans
    (leaves_appendChild fragment n later)

private theorem children_take :
    (later.dom.appendChild fragment n).children parent = [] ∧
      (later.dom.appendChild fragment n).children fragment =
        (seats ++ [Seat.mk top n]).map Seat.node := by
  have tidy := (comes.leaves.tidy (seating.passed.tidy settled.tidy))
  have gathered := comes.leaves.children fragment (.inr rfl)
  have empty := (comes.leaves.children parent (.inl rfl)).trans seating.empty
  have notText : later.dom.isText fragment = false :=
    (comes.leaves.isText seating.old.2).trans seating.notText
  constructor
  · refine (tidy.children_insertBefore_of_ne none seating.differs ?_ ?_).trans
      empty
    · rw [comes.solid]
      nofun
    · rw [empty]
      exact List.not_mem_nil
  · show (later.dom.insertBefore fragment n none).children fragment = _
    rw [Dom.children_insertBefore tidy notText comes.solid
      (gathered ▸ comes.outside.2.2), Dom.insertInto_none, gathered,
      seating.gathered, List.map_append]
    rfl

theorem free_take {other inner : Member} {r : NodeId} (member : other ∈ rest)
    (inside : start.Composes other inner)
    (root : inner.root? later = some r) :
    r ≠ parent ∧ r ≠ fragment ∧ r ∉ (seats ++ [Seat.mk top n]).map Seat.node := by
  have elsewhere := comes.alone other member inner r inside root
  have concerns := seating.fits_rest.concerns other member inner inside
  have last : r ∉ seats.map Seat.node →
      r ∉ (seats ++ [Seat.mk top n]).map Seat.node := by
    intro absent
    simpa using ⟨by simpa using absent, elsewhere⟩
  rcases comes.leaves.root?_before concerns root with before | new
  · obtain ⟨notParent, notFragment, absent⟩ :=
      seating.free other (.tail _ member) inner r inside before
    exact ⟨notParent, notFragment, last absent⟩
  · have apart {m : NodeId} (old : m.index < world.dom.nodes.size) : r ≠ m := by
      rintro rfl
      exact absurd old (Nat.not_lt.mpr new)
    refine ⟨apart seating.old.1, apart seating.old.2, last ?_⟩
    rw [← seating.gathered]
    exact fun member => apart ((seating.passed.tidy
      settled.tidy).lt_size_of_mem member) rfl

theorem take :
    start.Seating concerned parent fragment (seats ++ [⟨top, n⟩]) rest
      { later with dom := later.dom.appendChild fragment n } := by
  have alone : start.Seating concerned parent fragment seats
      ([Seat.mk top n].map Seat.member ++ rest) world := seating
  refine alone.grow (seating.leaves_take comes)
    (seating.children_take settled comes) (fun seat last => ?_)
    (fun v member => ?_)
    fun other member inner r => seating.free_take settled comes member
  · rw [List.mem_singleton.mp last]
    have appended : later.Leaves concerned concerned (fun _ => False)
        { later with dom := later.dom.appendChild fragment n } :=
      leaves_appendChild fragment n later
    exact comes.seats.onward appended (seating.concerns (.refl _ _))
  · refine (seating.untouched v (.tail _ member)).trans ?_
    rcases comes.leaves.views v (seating.fits_rest.concerns _ member _
      (.refl _ _)) with same | ⟨inside, _⟩
    · exact ⟨same.template, same.element, same.rendered⟩
    · exact absurd inside ((seating.apart member).2.view v rfl)

end Take

end Step

end Seating

end World

/-- The place of a child and the seats of what it brings. -/
structure Row where
  lot : Lot
  seats : List Seat

def Row.nodes (row : Row) : List NodeId :=
  row.seats.map Seat.node

/-- A child has been given a row: a collection for its members, anything else
for one node. -/
def Row.IsOf (start : World σ) (child : Member) (row : Row) : Prop :=
  match child with
  | .collection c => row.lot = .members c ∧
      row.seats.map Seat.member = (start.collection c).members.map .view
  | member => ∃ n, row = ⟨.fixed n, [⟨member, n⟩]⟩

/-- A collection without an anchor gets the first of the nodes that follow. -/
def followedBy (nodes : List NodeId) (entry : CollectionId × Option NodeId) :
    CollectionId × Option NodeId :=
  (entry.1, entry.2.or nodes.head?)

/-- The collections in some rows, with the first node after each. -/
def Row.anchors : List Row → List (CollectionId × Option NodeId)
  | [] => []
  | row :: rest =>
      match row.lot with
      | .members c => (c, (rest.flatMap Row.nodes).head?) :: anchors rest
      | .fixed _ => anchors rest

private theorem followedBy_nil (entry : CollectionId × Option NodeId) :
    followedBy [] entry = entry := by
  simp [followedBy]

private theorem followedBy_append (nodes more : List NodeId)
    (entry : CollectionId × Option NodeId) :
    followedBy (nodes ++ more) entry =
      followedBy more (followedBy nodes entry) := by
  simp [followedBy, Option.or_assoc]

theorem Row.anchors_concat (rows : List Row) (row : Row) :
    anchors (rows ++ [row]) =
      (anchors rows).map (followedBy row.nodes) ++ anchors [row] := by
  induction rows with
  | nil => rfl
  | cons first rest ih =>
      obtain ⟨lot, seats⟩ := first
      cases lot with
      | members c => simp [anchors, ih, followedBy]
      | fixed n => simpa [anchors] using ih

theorem Mount.collections_push (mount : Mount) (n : NodeId) (world : World σ) :
    ((mount.push n).result world).collections =
      mount.collections.map (followedBy [n]) := by
  refine List.map_congr_left fun entry _ => ?_
  obtain ⟨c, anchor⟩ := entry
  cases anchor <;> rfl

/-- Some members have taken their seats in a mount. -/
def Mount.Seats (concerned : Member → Prop) (start : World σ) (parent : NodeId)
    (mount : Mount) (seats : List Seat) (tops rest : List Member)
    (later : Mount) (final : World σ) : Prop :=
  later.fragment = mount.fragment ∧ ∃ more : List Seat,
    more.map Seat.member = tops ∧
    later.collections =
      mount.collections.map (followedBy (more.map Seat.node)) ∧
    start.Seating concerned parent mount.fragment (seats ++ more) rest final

namespace Blueprint

variable {mounter : Mounter σ} {nested : Nested σ} {concerned : Member → Prop}
  {start world : World σ} {parent : NodeId}
  (mounts : ∀ among kept,
    mounter.StaysAside concerned among kept fun _ => False)
  (nests : ∀ among kept, nested.StaysAside concerned among kept fun _ => False)
  (settled : start.IsSettled concerned)

include mounts settled

theorem seats_mountViews {mount : Mount} {seats : List Seat}
    {views : List ViewId} {rest : List Member}
    (seating : start.Seating concerned parent mount.fragment seats
      (views.map .view ++ rest) world) (record : Record) :
    (mountViews mounter mount views).Ensures record world
      (mount.Seats concerned start parent seats (views.map .view) rest) := by
  induction views generalizing mount seats record world with
  | nil =>
      refine .pure ⟨rfl, [], rfl, ?_, by simpa using seating⟩
      exact (List.map_congr_left fun _ _ => followedBy_nil _).trans
        (List.map_id _) |>.symm
  | cons v others ih =>
      rw [mountViews]
      obtain ⟨leaves, comes⟩ := mounts _ _ v world (.refl start (.view v))
        (seating.scope settled)
      refine .act_bind (.ofExcept_bind fun n ok => .act_bind ?_)
      obtain ⟨root, alone⟩ := comes n ok
      have seated : start.Seating concerned parent
          ((mount.push n).result ((mounter v).after world)).fragment
          (seats ++ [⟨.view v, n⟩]) (others.map .view ++ rest)
          ((mount.push n).after ((mounter v).after world)) :=
        seating.take settled
          (seating.comes_view settled rfl leaves root alone)
      refine .keeping (.weaken (ih (seated.enter _) record) ?_)
      rintro later final ⟨same, more, members, collections, after⟩
      refine ⟨same, ⟨.view v, n⟩ :: more, ?_, ?_, ?_⟩
      · simp [members]
      · rw [collections, Mount.collections_push, List.map_map]
        exact List.map_congr_left fun entry _ =>
          (followedBy_append [n] (more.map Seat.node) entry).symm
      · have left := seated.leave after
        rw [List.append_assoc] at left
        exact left

include nests

theorem seats_mountMember {mount : Mount} {seats : List Seat} {child : Member}
    {rest : List Member} (concerns : concerned child)
    (seating : start.Seating concerned parent mount.fragment seats
      (child.tops start ++ rest) world) (path : DefinitionPath)
    (record : Record) :
    (mountMember mounter nested path mount child).Ensures record world
      fun later final => later.fragment = mount.fragment ∧ ∃ row : Row,
        row.IsOf start child ∧
        later.collections = mount.collections.map (followedBy row.nodes) ++
          Row.anchors [row] ∧
        start.Seating concerned parent mount.fragment (seats ++ row.seats) rest
          final := by
  cases child with
  | node n =>
      refine .act ⟨rfl, ⟨.fixed n, [⟨.node n, n⟩]⟩, ⟨n, rfl⟩, ?_,
        seating.take settled (seating.comes_node settled rfl)⟩
      rw [Mount.collections_push]
      exact (List.append_nil _).symm
  | view v =>
      have alone : start.Seating concerned parent mount.fragment seats
          ([v].map .view ++ rest) world := seating
      refine (seats_mountViews mounts settled alone record).weaken ?_
      rintro later final ⟨same, more, members, collections, after⟩
      obtain ⟨⟨_, n⟩, rfl, rfl⟩ := List.map_eq_singleton_iff.mp members
      refine ⟨same, ⟨.fixed n, [⟨.view v, n⟩]⟩, ⟨n, rfl⟩, ?_, after⟩
      rw [collections]
      exact (List.append_nil _).symm
  | template t =>
      obtain ⟨leaves, brings⟩ := nests _ _ t path world
        (.refl start (.template t)) (seating.scope settled)
      refine .nest_bind fun n child _ ok => .act ?_
      have brought := brings n (by rw [ok])
      rw [seating.passed.blueprints t (seating.concerns (.refl _ _))] at brought
      have seated := seating.take settled
        (seating.comes_template settled rfl leaves brought)
      refine ⟨rfl, ⟨.fixed n, [⟨.template t, n⟩]⟩, ⟨n, rfl⟩, ?_, seated⟩
      rw [Mount.collections_push]
      exact (List.append_nil _).symm
  | collection c =>
      have members : (world.collection c).members =
          (start.collection c).members :=
        seating.passed.members c concerns
      rw [Member.tops, ← members] at seating
      have viewed : (Pass.keeping ((world.collection c).members.map .view)
          (mountViews mounter mount (world.collection c).members)).Ensures
            record world (mount.Seats concerned start parent seats
              ((world.collection c).members.map .view) rest) := by
        refine .keeping (.weaken (seats_mountViews mounts settled
          (seating.enter _) record) ?_)
        rintro later final ⟨same, more, tops, collections, after⟩
        exact ⟨same, more, tops, collections, seating.leave after⟩
      refine .act_bind (viewed.bind fun later _ final after => .pure ?_)
      obtain ⟨same, more, tops, collections, after⟩ := after
      refine ⟨same, ⟨.members c, more⟩, ⟨rfl, members ▸ tops⟩, ?_, after⟩
      show later.collections ++ [(c, none)] = _
      rw [collections]
      rfl

theorem seats_mountMembers {mount : Mount} {rows : List Row}
    {members : List Member} (concerns : ∀ child ∈ members, concerned child)
    (told : mount.collections = Row.anchors rows)
    (seating : start.Seating concerned parent mount.fragment
      (rows.flatMap Row.seats) (members.flatMap (Member.tops start)) world)
    (path : DefinitionPath) (index : Nat) (record : Record) :
    (mountMembers mounter nested path index mount members).Ensures record world
      fun later final => later.fragment = mount.fragment ∧
        ∃ more : List Row, List.Forall₂ (Row.IsOf start) members more ∧
        later.collections = Row.anchors (rows ++ more) ∧
        start.Seating concerned parent mount.fragment
          ((rows ++ more).flatMap Row.seats) [] final := by
  induction members generalizing index mount rows record world with
  | nil =>
      refine .pure ⟨rfl, [], .nil, ?_, ?_⟩
      · rwa [List.append_nil]
      · rwa [List.append_nil]
  | cons child rest ih =>
      rw [mountMembers]
      rw [List.flatMap_cons] at seating
      refine (seats_mountMember mounts nests settled (concerns child (.head _))
        seating (path ++ [index]) record).bind fun next recorded world first => ?_
      obtain ⟨same, row, mine, collections, seated⟩ := first
      have whole : (rows ++ [row]).flatMap Row.seats =
          rows.flatMap Row.seats ++ row.seats := by simp
      have anchored : next.collections = Row.anchors (rows ++ [row]) := by
        rw [collections, told, Row.anchors_concat]
      rw [← same, ← whole] at seated
      refine .keeping (.weaken (ih
        (fun other member => concerns other (.tail _ member)) anchored
        (seated.enter _) (index + 1) recorded) ?_)
      rintro later final ⟨unchanged, more, others, collections, after⟩
      refine ⟨unchanged.trans same, row :: more, .cons mine others, ?_, ?_⟩
      · simpa using collections
      · rw [same] at after seated
        simpa using seated.leave after

end Blueprint

end LiveTemplate
