import LiveTemplate.Proofs.Seating

/-!
# Children in their places

When all children have taken their seats, the fragment hands them to the element
and each collection is told its parent and its anchor.  Nothing that happens
until the template has been rendered takes the children apart again.

`World.Arranges` says how the children of an element answer to those of the
definition.  `Template.Supplies` says that something holds once the children
have been handed over, and `Template.Supplies.rendersTo` that it then holds of
what rendering comes to.
-/

namespace LiveTemplate

variable {σ : Type}

def Lot.collection? : Lot → Option CollectionId
  | .fixed _ => none
  | .members c => some c

def Member.collection? : Member → Option CollectionId
  | .collection c => some c
  | _ => none

namespace World

/-- A child has got its lot: a collection the place of its members, anything
else the node it stands for. -/
def Holds (start world : World σ) (child : Member) (lot : Lot) : Prop :=
  match child with
  | .collection c => lot = .members c
  | member => ∃ n, lot = .fixed n ∧ start.Seats world ⟨member, n⟩

/-- The children of a definition are lined up in an element, and the anchor of
each collection is the node after it. -/
structure Arranges (start : World σ) (children : List Member) (parent : NodeId)
    (lots : List Lot) (world : World σ) : Prop where
  holds : List.Forall₂ (start.Holds world) children lots
  laid : world.IsLaidOut parent lots
  members : ∀ c, .members c ∈ lots →
    (world.collection c).members = (start.collection c).members
  anchored : ∀ front c back, lots = front ++ .members c :: back →
    (world.collection c).anchor = (back.flatMap (Lot.nodes world)).head?

end World

theorem Lot.nodup {world : World σ} {lots : List Lot}
    (nodes : (lots.flatMap (Lot.nodes world)).Nodup)
    (collections : (lots.filterMap Lot.collection?).Nodup) : lots.Nodup := by
  induction lots with
  | nil => exact .nil
  | cons lot rest ih =>
      rw [List.flatMap_cons, List.nodup_append] at nodes
      refine List.nodup_cons.mpr ⟨fun member => ?_, ih nodes.2.1 ?_⟩
      · cases lot with
        | fixed n =>
            exact nodes.2.2 n (.head _) n
              (List.mem_flatMap.mpr ⟨_, member, .head _⟩) rfl
        | members c =>
            exact (List.nodup_cons.mp collections).1
              (List.mem_filterMap.mpr ⟨_, member, rfl⟩)
      · cases lot with
        | fixed n => exact collections
        | members c => exact (List.nodup_cons.mp collections).2

namespace Row

theorem mem_anchors {front back : List Row} {row : Row} {c : CollectionId}
    (lot : row.lot = .members c) :
    (c, (back.flatMap Row.nodes).head?) ∈ anchors (front ++ row :: back) := by
  induction front with
  | nil =>
      rw [List.nil_append, anchors, lot]
      exact .head _
  | cons first rest ih =>
      rw [List.cons_append, anchors]
      split
      · exact .tail _ ih
      · exact ih

theorem fst_anchors (rows : List Row) :
    (anchors rows).map Prod.fst =
      (rows.map Row.lot).filterMap Lot.collection? := by
  induction rows with
  | nil => rfl
  | cons row rest ih =>
      obtain ⟨lot, seats⟩ := row
      cases lot with
      | fixed n => exact ih
      | members c => exact congrArg (c :: ·) ih

end Row

namespace World

variable {concerned : Member → Prop} {start world later : World σ}
  {children : List Member} {rows : List Row} {parent : NodeId}

theorem collections_of_holds {lots : List Lot}
    (holds : List.Forall₂ (start.Holds world) children lots) :
    lots.filterMap Lot.collection? = children.filterMap Member.collection? := by
  induction holds with
  | nil => rfl
  | @cons child lot _ _ first _ ih =>
      cases child with
      | collection c =>
          rw [show lot = .members c from first]
          exact congrArg (c :: ·) ih
      | _ =>
          obtain ⟨n, rfl, _⟩ := first
          exact ih

private theorem elements_of_seats {seats : List Seat} {views : List ViewId}
    (members : seats.map Seat.member = views.map .view)
    (seated : ∀ seat ∈ seats, start.Seats world seat) :
    world.elements views = seats.map Seat.node ∧
      ∀ v ∈ views, ∃ n, Member.root? world (.view v) = some n := by
  induction views generalizing seats with
  | nil =>
      rw [List.map_eq_nil_iff.mp members]
      exact ⟨rfl, fun _ => nofun⟩
  | cons v rest ih =>
      obtain ⟨⟨_, n⟩, others, rfl, rfl, tops⟩ :=
        List.map_eq_cons_iff.mp members
      obtain ⟨elements, rooted⟩ := ih tops fun seat member =>
        seated seat (.tail _ member)
      have root : Member.root? world (.view v) = some n := seated _ (.head _)
      constructor
      · simpa [World.elements, element_of_root? root] using elements
      · rintro u (_ | ⟨_, member⟩)
        · exact ⟨n, root⟩
        · exact rooted u member

private theorem holds_of_rows
    (each : List.Forall₂ (Row.IsOf start) children rows)
    (seated : ∀ seat ∈ rows.flatMap Row.seats, start.Seats world seat)
    (members : ∀ c, .collection c ∈ children →
      (world.collection c).members = (start.collection c).members) :
    List.Forall₂ (start.Holds world) children (rows.map Row.lot) ∧
      (∀ row ∈ rows, row.lot.nodes world = row.nodes) ∧
      ∀ c, .members c ∈ rows.map Row.lot → .collection c ∈ children ∧
        ∀ v ∈ (world.collection c).members,
          ∃ n, Member.root? world (.view v) = some n := by
  induction each with
  | nil => exact ⟨.nil, fun _ => nofun, fun _ => nofun⟩
  | @cons child row rest others first _ ih =>
      obtain ⟨holds, nodes, rooted⟩ := ih
        (fun seat member => seated seat (by simp_all))
        (fun c member => members c (.tail _ member))
      have mine (seat : Seat) (member : seat ∈ row.seats) :
          start.Seats world seat := seated seat (by simp [member])
      cases child with
      | collection c =>
          obtain ⟨lot, tops⟩ := first
          rw [← members c (.head _)] at tops
          obtain ⟨elements, here⟩ := elements_of_seats tops mine
          refine ⟨.cons lot holds, ?_, ?_⟩
          · rintro other (_ | ⟨_, member⟩)
            · rw [lot]
              exact elements
            · exact nodes other member
          · intro d member
            rw [List.map_cons, lot] at member
            rcases List.mem_cons.mp member with same | member
            · cases same
              exact ⟨.head _, here⟩
            · exact ⟨.tail _ (rooted d member).1, (rooted d member).2⟩
      | _ =>
          obtain ⟨n, rfl⟩ := first
          refine ⟨.cons ⟨n, rfl, mine _ (.head _)⟩ holds, ?_, ?_⟩
          · rintro other (_ | ⟨_, member⟩)
            · rfl
            · exact nodes other member
          · intro d member
            rcases List.mem_cons.mp member with same | member
            · cases same
            · exact ⟨.tail _ (rooted d member).1, (rooted d member).2⟩

end World

theorem Mount.leaves_handOver {concerned : Member → Prop} (mount : Mount)
    (parent : NodeId) (world : World σ) :
    world.Leaves concerned (fun member => ∃ c, member = .collection c)
      (fun _ => False) ((mount.finish parent).after world) := by
  exact (World.leaves_appendChild parent mount.fragment world).trans
    (World.leaves_tellEach fun entry _ => ⟨entry.1, rfl⟩)

namespace World.Seating

variable {concerned : Member → Prop} {start world : World σ} {parent : NodeId}
  {mount : Mount} {rows : List Row} {children : List Member}
  (settled : start.IsSettled concerned)
  (seating : start.Seating concerned parent mount.fragment
    (rows.flatMap Row.seats) [] world)

include settled seating

/-- The parent gets all that has been gathered. -/
theorem appended_fragment :
    Dom.Appended world.dom parent mount.fragment
      (world.dom.appendChild parent mount.fragment) := by
  have tidy := seating.passed.tidy settled.tidy
  obtain ⟨fragment, solid, notText⟩ := seating.sorts
  refine Dom.appended notText ?_ (tidy.nodup _) ?_
  · intro same
    rw [same, solid] at fragment
    cases fragment
  · intro above
    have member := (tidy.linked parent mount.fragment).mpr above
    rw [seating.empty] at member
    cases member

theorem children_finish :
    (world.dom.appendChild parent mount.fragment).children parent =
      rows.flatMap Row.nodes := by
  have appended := seating.appended_fragment settled
  rw [appended.children_parent, seating.empty, List.nil_append, Dom.moved,
    if_pos seating.sorts.1, seating.gathered, List.map_flatMap]
  rfl

omit settled seating in
theorem told_finish (told : mount.collections = Row.anchors rows)
    (distinct : ((rows.map Row.lot).filterMap Lot.collection?).Nodup)
    {front back : List Row} {row : Row} {c : CollectionId}
    (split : rows = front ++ row :: back) (lot : row.lot = .members c) :
    let told := ((mount.finish parent).after world).collection c
    told.parent = some parent ∧
      told.anchor = (back.flatMap Row.nodes).head? := by
  rw [← Row.fst_anchors, ← told] at distinct
  have inside : (c, (back.flatMap Row.nodes).head?) ∈ mount.collections := by
    rw [told, split]
    exact Row.mem_anchors lot
  exact Collection.told_tellEach distinct
    { world with dom := world.dom.appendChild parent mount.fragment } inside

omit settled in
/-- What has been rendered has the rows that were taken. -/
theorem rows_finish (each : List.Forall₂ (Row.IsOf start) children rows)
    (concerns : ∀ child ∈ children, concerned child) :
    let final := (mount.finish parent).after world
    List.Forall₂ (start.Holds final) children (rows.map Row.lot) ∧
      (∀ row ∈ rows, row.lot.nodes final = row.nodes) ∧
      ∀ c, .members c ∈ rows.map Row.lot →
        (final.collection c).members = (start.collection c).members ∧
        ∀ v ∈ (final.collection c).members,
          ∃ n, Member.root? final (.view v) = some n := by
  intro final
  have leaves : world.Leaves concerned _ _ final :=
    mount.leaves_handOver parent world
  have members (c : CollectionId) (inside : .collection c ∈ children) :
      (final.collection c).members = (start.collection c).members :=
    (leaves.members c (concerns _ inside)).trans
      (seating.passed.members c (concerns _ inside))
  obtain ⟨holds, nodes, rooted⟩ := holds_of_rows each
    (fun seat member => (seating.seated seat member).onward leaves
      (seating.fits.concerns seat.member
        (List.mem_append_left _ (List.mem_map_of_mem member)) _ (.refl _ _)))
    members
  exact ⟨holds, nodes, fun c inside =>
    ⟨members c (rooted c inside).1, (rooted c inside).2⟩⟩

/-- All children have come to their places. -/
theorem handOver (each : List.Forall₂ (Row.IsOf start) children rows)
    (told : mount.collections = Row.anchors rows)
    (distinct : (children.filterMap Member.collection?).Nodup)
    (concerns : ∀ child ∈ children, concerned child) :
    start.Arranges children parent (rows.map Row.lot)
      ((mount.finish parent).after world) := by
  set final := (mount.finish parent).after world
  have leaves : world.Leaves concerned _ _ final :=
    mount.leaves_handOver parent world
  have settledLater := (settled.onward seating.passed).onward leaves
  obtain ⟨holds, nodes, rooted⟩ := seating.rows_finish each concerns
  rw [← collections_of_holds holds] at distinct
  have anchored (front : List Lot) (c : CollectionId) (back : List Lot)
      (split : rows.map Row.lot = front ++ .members c :: back) :
      (final.collection c).parent = some parent ∧ (final.collection c).anchor =
        (back.flatMap (Lot.nodes final)).head? := by
    obtain ⟨ahead, more, parts, _, rest⟩ := List.map_eq_append_iff.mp split
    obtain ⟨row, behind, rfl, lot, rfl⟩ := List.map_eq_cons_iff.mp rest
    rw [List.flatMap_map, List.flatMap_congr fun other member =>
      nodes other (by simp [parts, member])]
    exact told_finish told distinct parts lot
  have children : final.dom.children parent =
      (rows.map Row.lot).flatMap (Lot.nodes final) := by
    obtain ⟨_, after⟩ := Collection.after_tellEach parent mount.collections
      { world with dom := world.dom.appendChild parent mount.fragment }
    rw [List.flatMap_map, List.flatMap_congr nodes]
    exact (congrArg (·.dom.children parent) after).trans
      (seating.children_finish settled)
  refine ⟨holds, ⟨settledLater.tidy, ?_, ?_, ?_, fun c inside => ?_,
    fun c inside => (rooted c inside).2, children⟩,
    fun c inside => (rooted c inside).1,
    fun front c back split => (anchored front c back split).2⟩
  · exact Nat.lt_of_lt_of_le seating.old.1 leaves.size
  · exact (leaves.isText seating.old.1).trans seating.sorts.2.2
  · exact Lot.nodup (children ▸ settledLater.tidy.nodup parent) distinct
  · obtain ⟨front, back, split⟩ := List.append_of_mem inside
    exact (anchored front c back split).1

end World.Seating

/-! ## Rendering -/

namespace World

/-- An element has been made for children and is held; what is concerned has
been left alone, and so have the children of guarded nodes. -/
structure IsOpen (concerned : Member → Prop) (guarded : NodeId → Prop)
    (start : World σ) (parent : NodeId) (world : World σ) : Prop where
  passed : start.Leaves concerned (fun _ => False) guarded world
  held : .refs [.node parent] ∈ world.frames
  new : start.dom.nodes.size ≤ parent.index
  there : parent.index < world.dom.nodes.size
  sorts : world.dom.isFragment parent = false ∧ world.dom.isText parent = false
  empty : world.dom.children parent = []

/-- The children have been handed to an element that is still held. -/
structure Completes (concerned : Member → Prop) (parent : NodeId)
    (done : World σ → Prop) (world : World σ) : Prop where
  done : done world
  held : .refs [.node parent] ∈ world.frames
  there : parent.index < world.dom.nodes.size
  settled : world.IsSettled concerned

variable {concerned : Member → Prop} {guarded : NodeId → Prop}
  {start world later : World σ} {children : List Member} {parent : NodeId}
  {lots : List Lot}

/-- When nothing is rendered, everything stands for what it did. -/
theorem Leaves.root?_same {kept : NodeId → Prop}
    (leaves : start.Leaves concerned (fun _ => False) kept world)
    {member : Member} (concerns : concerned member) :
    member.root? world = member.root? start := by
  cases member with
  | template t => rfl
  | collection c => rfl
  | node n => rfl
  | view v =>
      rcases leaves.views v concerns with same | ⟨impossible, _⟩
      · exact same.root?
      · cases impossible

/-- As long as nothing is rendered, the element keeps its children. -/
theorem Completes.scope {done : World σ → Prop}
    (completes : Completes concerned parent done world) :
    world.Scope concerned (fun _ => False) (· = parent) guarded := by
  refine completes.settled.scope ?_ ?_
  · rintro n rfl
    exact completes.there
  · rintro n rfl
    exact .inr completes.held

theorem children_create_self (kind : NodeKind) (world : World σ) :
    ((createNode kind).after world).dom.children
      ((createNode kind : Act σ NodeId).result world) = [] := by
  exact (Dom.children_create _ _ _).trans
    (Dom.children_of_size_le (Nat.le_refl _))

namespace IsOpen

theorem created (passed : start.Leaves concerned (fun _ => False) guarded world)
    {kind : NodeKind}
    (solid : kind ≠ .fragment) (notText : ∀ data, kind ≠ .text data) :
    let n := (createNode kind : Act σ NodeId).result world
    let entered := (createNode kind).after world
    start.IsOpen concerned guarded n
      (entered.holding (.refs [.node n] :: entered.frames)) := by
  intro n entered
  obtain ⟨new, there, made⟩ := World.created kind world
  refine ⟨(passed.trans (leaves_create kind world)).enter _, .head _,
    Nat.le_trans passed.size new, there, ?_, children_create_self kind world⟩
  change entered.dom.isFragment n = false ∧ entered.dom.isText n = false
  rw [Dom.isFragment, Dom.isText, made]
  cases kind with
  | fragment => exact absurd rfl solid
  | element => exact ⟨rfl, rfl⟩
  | text data => exact absurd rfl (notText data)

theorem onward (isOpen : start.IsOpen concerned guarded parent world)
    (leaves : world.Leaves concerned (fun _ => False)
      (fun n => n = parent ∨ guarded n) later) :
    start.IsOpen concerned guarded parent later where
  passed := isOpen.passed.trans (leaves.mono (fun _ => id) fun _ => .inr)
  held := leaves.frames isOpen.held
  new := isOpen.new
  there := Nat.lt_of_lt_of_le isOpen.there leaves.size
  sorts := ⟨(leaves.isFragment isOpen.there).trans isOpen.sorts.1,
    (leaves.isText isOpen.there).trans isOpen.sorts.2⟩
  empty := (leaves.children parent (.inl rfl)).trans isOpen.empty

/-- As long as nothing is rendered, the element and what is guarded may keep
their children. -/
theorem scope (isOpen : start.IsOpen concerned guarded parent world)
    (settled : start.IsSettled concerned)
    (guards : ∀ n, guarded n → concerned (.node n)) :
    world.Scope concerned (fun _ => False) (fun n => n = parent ∨ guarded n)
      guarded := by
  have here := settled.onward isOpen.passed
  refine here.scope ?_ ?_
  · rintro n (rfl | inside)
    · exact isOpen.there
    · exact here.nodes n (guards n inside)
  · rintro n (rfl | inside)
    · exact .inr isOpen.held
    · exact .inl inside

theorem seating (isOpen : start.IsOpen concerned guarded parent world)
    (settled : start.IsSettled concerned) {tops : List Member}
    (fits : start.Fits concerned tops) :
    let fragment := (createNode .fragment : Act σ NodeId).result world
    let entered := (createNode .fragment).after world
    start.Seating concerned parent fragment [] tops
      (entered.holding (.refs [.node fragment] :: entered.frames)) := by
  intro fragment entered
  obtain ⟨new, there, made⟩ := World.created .fragment world
  have later := isOpen.onward (leaves_create .fragment world)
  have passed : start.Leaves concerned concerned (fun _ => False) entered :=
    later.passed.mono (fun _ => False.elim) nofun
  refine ⟨fits, passed.enter _, ⟨.tail _ later.held, .head _⟩,
    ⟨later.there, there⟩, ⟨?_, later.sorts⟩, later.empty,
    children_create_self .fragment world, nofun, fun v member => ?_,
    fun top member inner r inside root => ?_⟩
  · change entered.dom.isFragment fragment = true
    rw [Dom.isFragment, made]
  · rcases later.passed.views v (fits.concerns _ member _ (.refl _ _)) with
      same | ⟨impossible, _⟩
    · exact ⟨same.template, same.element, same.rendered⟩
    · cases impossible
  · have concerns := fits.concerns top member inner inside
    have old := (settled.onward isOpen.passed).lt_size concerns root
    have before := settled.lt_size concerns
      ((isOpen.passed.root?_same concerns).symm.trans root)
    refine ⟨?_, ?_, List.not_mem_nil⟩
    · rintro rfl
      exact absurd before (Nat.not_lt.mpr isOpen.new)
    · rintro rfl
      exact absurd old (Nat.not_lt.mpr new)

theorem completes {mounter : Mounter σ} {nested : Nested σ}
    {done : World σ → Prop}
    (isOpen : start.IsOpen concerned guarded parent world)
    (settled : start.IsSettled concerned) {tops : List Member}
    (fits : start.Fits concerned tops)
    (release : ∀ {world : World σ} (frames : List Frame),
      done world → done (world.holding frames))
    (bare : children = [] → done world) (path : DefinitionPath)
    (record : Record)
    (gathers : ∀ {fragment : NodeId} {entered : World σ},
      start.IsOpen concerned guarded parent entered →
      start.dom.nodes.size ≤ fragment.index →
      start.Seating concerned parent fragment [] tops entered →
        (Blueprint.mountMembers mounter nested path 0 (.empty fragment)
          children).Ensures record entered fun mount later =>
            (∃ seats, start.Seating concerned parent mount.fragment seats []
              later) ∧ done ((mount.finish parent).after later)) :
    (Blueprint.renderMembers mounter nested children parent path).Ensures record
      world fun _ final => final.Completes concerned parent done := by
  unfold Blueprint.renderMembers
  split
  · refine .act_bind ?_
    have seating := isOpen.seating settled fits
    have created : world.Leaves concerned (fun _ => False)
        (fun n => n = parent ∨ guarded n)
        ((createNode NodeKind.fragment).after world) :=
      leaves_create .fragment world
    obtain ⟨new, _, _⟩ := World.created .fragment world
    generalize (createNode NodeKind.fragment).after world = entered
      at seating created ⊢
    generalize (createNode NodeKind.fragment : Act σ NodeId).result world =
      fragment at seating new ⊢
    have gathered := gathers (isOpen.onward (created.enter _))
      (Nat.le_trans isOpen.passed.size new) seating
    refine .keeping (gathered.bind fun mount _ later after => .act ?_)
    obtain ⟨⟨seats, seated⟩, finished⟩ := after
    have leaves : later.Leaves concerned _ _ _ :=
      mount.leaves_handOver parent later
    have here := (settled.onward seated.passed).onward leaves
    exact ⟨release _ finished, (isOpen.onward created).held,
      Nat.lt_of_lt_of_le seated.old.1 leaves.size, here.tidy, here.nodes,
      here.elements⟩
  · rename_i none
    exact .pure ⟨bare (by simpa using none), isOpen.held, isOpen.there,
      settled.onward isOpen.passed⟩

end IsOpen

namespace Arranges

/-- What leaves the children and the collections alone leaves everything in its
place. -/
theorem onward (arranges : start.Arranges children parent lots world)
    (concerns : ∀ child ∈ children, ∀ inner, start.Composes child inner →
      concerned inner)
    (leaves : world.Leaves concerned (fun _ => False) (· = parent) later) :
    start.Arranges children parent lots later := by
  obtain ⟨holds, laid, members, anchored⟩ := arranges
  have child (c : CollectionId) (inside : .members c ∈ lots) :
      .collection c ∈ children := by
    have member : c ∈ children.filterMap Member.collection? := by
      rw [← collections_of_holds holds]
      exact List.mem_filterMap.mpr ⟨_, inside, rfl⟩
    obtain ⟨child, inside, same⟩ := List.mem_filterMap.mp member
    cases child with
    | collection d =>
        cases same
        exact inside
    | _ => cases same
  have lines (member : Member) (lined : world.LinesUp lots member) :
      concerned member := by
    obtain ⟨c, inside, rfl | ⟨v, member, rfl⟩⟩ := lined
    · exact concerns _ (child c inside) _ (.refl _ _)
    · rw [members c inside] at member
      exact concerns _ (child c inside) _ (composes_member member)
  have aside (c : CollectionId) (_ : Lot.members c ∈ lots) :
    ¬(fun _ : Member => False) (.collection c) := id
  have rows (c : CollectionId) (inside : .members c ∈ lots) :=
    IsLaidOut.collection_onward leaves lines aside inside
  refine ⟨?_, laid.onward leaves lines aside rfl, fun c inside => ?_,
    fun front c back split => ?_⟩
  · refine List.forall₂_iff_zip.mpr ⟨holds.length_eq, fun {child lot} pair => ?_⟩
    have held := List.forall₂_zip holds pair
    have concerns := concerns child (List.of_mem_zip pair).1 _ (.refl _ _)
    cases child with
    | collection c => exact held
    | _ =>
        obtain ⟨n, same, seated⟩ := held
        exact ⟨n, same, seated.onward leaves concerns⟩
  · rw [rows c inside]
    exact members c inside
  · rw [rows c (by simp [split]), anchored front c back split]
    refine congrArg List.head? (List.flatMap_congr fun lot inside => ?_)
    exact (laid.nodes_onward leaves lines aside (by simp [split, inside])).symm

/-- What is held makes no difference. -/
theorem release (arranges : start.Arranges children parent lots world)
    (frames : List Frame) :
    start.Arranges children parent lots (world.holding frames) where
  holds := arranges.holds
  laid :=
    have laid := arranges.laid
    ⟨laid.tidy, laid.there, laid.notText, laid.distinct, laid.homes,
      laid.rooted, laid.children⟩
  members := arranges.members
  anchored := arranges.anchored

/-- An element without children is in order. -/
theorem empty (there : parent.index < world.dom.nodes.size)
    (notText : world.dom.isText parent = false) (tidy : world.dom.IsTidy)
    (none : world.dom.children parent = []) :
    start.Arranges [] parent [] world where
  holds := .nil
  laid := ⟨tidy, there, notText, .nil, fun _ => nofun, fun _ => nofun, none⟩
  members _ := nofun
  anchored front c back split := by
    cases front <;> cases split

end Arranges

/-- A template whose children can stand next to each other. -/
structure IsOrderly (world : World σ) (t : TemplateId) : Prop where
  isElement : (world.template t).blueprint.text = none
  settled : world.IsSettled (world.Composes (.template t))
  solid : ∀ n, .node n ∈ (world.template t).blueprint.children →
    world.dom.isFragment n = false
  apart : ((world.template t).blueprint.children.flatMap
    (Member.tops world)).Pairwise world.KeepApart
  distinct : ((world.template t).blueprint.children.filterMap
    Member.collection?).Nodup

theorem composes_top {child top : Member} (inside : top ∈ child.tops world) :
    world.Composes child top := by
  cases child with
  | collection c =>
      obtain ⟨v, member, rfl⟩ := List.mem_map.mp inside
      exact composes_member member
  | _ =>
      rw [List.mem_singleton.mp inside]
      exact .refl _ _

theorem IsOrderly.fits {t : TemplateId} (orderly : world.IsOrderly t) :
    world.Fits (world.Composes (.template t))
      ((world.template t).blueprint.children.flatMap (Member.tops world)) where
  apart := orderly.apart
  concerns top member inner inside := by
    obtain ⟨child, isChild, isTop⟩ := List.mem_flatMap.mp member
    exact ((composes_child orderly.isElement isChild).trans
      (composes_top isTop)).trans inside
  solid n member := by
    obtain ⟨child, isChild, isTop⟩ := List.mem_flatMap.mp member
    cases child with
    | collection c =>
        obtain ⟨v, _, same⟩ := List.mem_map.mp isTop
        cases same
    | node m =>
        cases List.mem_singleton.mp isTop
        exact orderly.solid n isChild
    | _ => cases List.mem_singleton.mp isTop

end World

/-- Once the children of a template have been handed to its element, something
holds, and goes on to hold as long as these children and all that is concerned
are left alone. -/
structure Template.Supplies (concerned : Member → Prop)
    (guarded : NodeId → Prop) (start : World σ) (t : TemplateId)
    (done : NodeId → World σ → Prop) : Prop where
  isElement : (start.template t).blueprint.text = none
  within : ∀ member, start.Composes (.template t) member → concerned member
  settled : start.IsSettled concerned
  guards : ∀ n, guarded n → concerned (.node n)
  hands : ∀ {mounter : Mounter σ} {nested : Nested σ},
    (∀ among kept, mounter.StaysAside concerned among kept guarded) →
    (∀ among kept, nested.StaysAside concerned among kept guarded) →
    ∀ {parent : NodeId} {world : World σ},
      start.IsOpen concerned guarded parent world → ∀ path record,
        (Blueprint.renderMembers mounter nested
          (start.template t).blueprint.children parent path).Ensures record
            world fun _ final => final.Completes concerned parent (done parent)
  onward : ∀ {n : NodeId} {world later : World σ}, done n world →
    world.Leaves concerned (fun _ => False) (· = n) later → done n later
  release : ∀ {n : NodeId} {world : World σ} (frames : List Frame),
    done n world → done n (world.holding frames)

section Passes

variable {host : Host σ} {mounter : Mounter σ} {nested : Nested σ}
  {concerned : Member → Prop} {guarded : NodeId → Prop}
  {start world : World σ} {t : TemplateId} {done : NodeId → World σ → Prop}

namespace Template.Supplies

variable (supplies : Supplies concerned guarded start t done)
  (minds : host.Minds concerned guarded)
  (mounts : ∀ among kept, mounter.StaysAside concerned among kept guarded)

include supplies minds mounts

theorem renderElement
    (nests : ∀ among kept, nested.StaysAside concerned among kept guarded)
    (passed : start.Leaves concerned (fun _ => False) guarded world)
    (path : DefinitionPath) (record : Record) :
    ((start.template t).blueprint.renderElement host mounter nested none
      path).Ensures record world done := by
  unfold Blueprint.renderElement
  generalize found : (start.template t).blueprint = blueprint
  cases blueprint.tag with
  | none => exact .throw
  | some tag =>
      refine .act_bind ?_
      have isOpen := World.IsOpen.created passed
        (nofun : NodeKind.element
          (blueprint.namespaceName.getD Selector.htmlNamespace) tag [] ≠
            .fragment) (fun _ => nofun)
      generalize (createNode (NodeKind.element _ tag [])).after world = entered
        at isOpen ⊢
      generalize (createNode (NodeKind.element _ tag []) :
        Act σ NodeId).result world = N at isOpen ⊢
      have bounds (kept : NodeId → Prop) := minds.bounds (fun _ => False) kept
      -- The element is filled while it is held.
      have filled : Pass.Ensures (do
          blueprint.renderAttributes host N false
          Blueprint.renderMembers mounter nested blueprint.children N path
          blueprint.renderListeners N) record
          (entered.holding (.refs [.node N] :: entered.frames))
          fun _ final => final.Completes concerned N (done N) := by
        have still := bounds fun n => n = N ∨ guarded n
        refine .bind (.of_within (still.renderAttributes blueprint N false))
          fun _ _ drawn attributes => ?_
        have drawnOpen := isOpen.onward
          (attributes (isOpen.scope supplies.settled supplies.guards))
        subst found
        refine .bind (supplies.hands mounts nests drawnOpen path _)
          fun _ _ later completes => ?_
        refine (Pass.Ensures.of_within ((bounds (· = N)).renderListeners _
          N)).weaken fun _ final listeners => ?_
        have leaves := listeners completes.scope
        exact ⟨supplies.onward completes.done leaves,
          leaves.frames completes.held,
          Nat.lt_of_lt_of_le completes.there leaves.size,
          completes.settled.onward leaves⟩
      exact .bind (.keeping (filled.weaken fun _ final completes =>
        supplies.release _ completes.done)) fun _ _ final held => .pure held

theorem pass
    (nests : ∀ among kept, nested.StaysAside concerned among kept guarded)
    (passed : start.Leaves concerned (fun _ => False) guarded world)
    (path : DefinitionPath) (record : Record) :
    (pass host mounter nested t none path).Ensures record world done := by
  have made : (passWith host mounter nested t (start.template t).blueprint none
      path).Ensures record world done := by
    unfold passWith
    rw [if_neg (by simp [supplies.isElement])]
    exact (supplies.renderElement minds mounts nests passed path record).bind
      fun _ _ later held => .act_bind (.pure
        (supplies.onward held (leaves_markRendered t later)))
  intro n later ends
  have runs := start_pass host mounter nested t none path record world
  rw [passed.blueprints t (supplies.within _ (.refl _ _))] at runs
  unfold Act.result at ends
  unfold Act.after
  rw [runs] at ends ⊢
  split at ends
  · cases ends
  · rename_i fresh
    rw [if_neg fresh]
    exact made n later ends

theorem renderWith
    (passed : start.Leaves concerned (fun _ => False) guarded world)
    {n : NodeId} (rendered : (renderWith host mounter t).result world = .ok n) :
    done n ((renderWith host mounter t).after world) := by
  obtain ⟨_, _, ⟨record, outcome⟩, after⟩ := renderWith_ok rendered
  rw [after]
  exact supplies.release world.frames (supplies.pass minds mounts
    (fun among kept => leaves_passWithin minds (mounts among kept) t.index)
    (passed.enter (.refs [.template t])) [] .empty n record outcome)

end Template.Supplies

end Passes

section Renders

variable {host : Host σ} {concerned : Member → Prop} {guarded : NodeId → Prop}
  {start : World σ} {t : TemplateId} {done : NodeId → World σ → Prop}

/-- An element has been rendered from a template, by itself or for a view that
is not inside it. -/
inductive Template.RendersTo (host : Host σ) (t : TemplateId)
    (start : World σ) : NodeId → World σ → Prop where
  | alone {n : NodeId} : (Template.render host t).result start = .ok n →
      RendersTo host t start n ((Template.render host t).after start)
  | view {v : ViewId} {n : NodeId} : (start.view v).template = some t →
      ¬start.Composes (.template t) (.view v) →
      (View.render host v).result start = .ok () →
      (((View.render host v).after start).view v).element = some n →
      RendersTo host t start n ((View.render host v).after start)

private theorem View.leaves_update {among : Member → Prop}
    {kept : NodeId → Prop} {v : ViewId} (other : ¬concerned (.view v))
    (change : View → View) (world : World σ) :
    world.Leaves concerned among kept ((update v change).after world) where
  frames := List.Subset.refl _
  size := Nat.le_refl _
  tidy := id
  sorts _ _ := rfl
  children _ _ := rfl
  blueprints _ _ := rfl
  members _ _ := rfl
  collections _ _ _ := rfl
  views u concerns := by
    have same : ((update v change).after world).view u = world.view u :=
      view_update_of_ne _ _ fun same => other (same ▸ concerns)
    exact .inl ⟨by rw [same], by rw [same], by rw [same]⟩

namespace Template.Supplies

variable (supplies : Supplies concerned guarded start t done)

include supplies

theorem settleRender {v : ViewId} (apart : ¬concerned (.view v))
    {render : Act σ (Except TemplateError NodeId)}
    (supplied : ∀ n, render.result
      (start.holding (.refs [.view v] :: start.frames)) = .ok n →
        done n (render.after (start.holding (.refs [.view v] :: start.frames))))
    {n : NodeId}
    (rendered : (keeping (.refs [.view v]) render >>= View.settleRender v).result
      start = .ok ())
    (element : (((keeping (.refs [.view v]) render >>=
      View.settleRender v).after start).view v).element = some n) :
    done n ((keeping (.refs [.view v]) render >>=
      View.settleRender v).after start) := by
  rw [Act.after_bind, after_keeping, result_keeping] at element ⊢
  rw [Act.result_bind, after_keeping, result_keeping] at rendered
  generalize render.result _ = outcome at supplied rendered element ⊢
  cases outcome with
  | error error => cases rendered
  | ok m =>
      have held := supplied m rfl
      generalize render.after _ = later at held element ⊢
      change (((View.update v fun view => { view with
        element := some m, rendered := true }).after
          (later.holding start.frames)).view v).element = some n at element
      rw [View.view_update] at element
      cases element
      exact supplies.onward (supplies.release start.frames held)
        (View.leaves_update apart _ _)

theorem rendersTo (minds : host.Minds concerned guarded)
    (views : ∀ v, concerned (.view v) → start.Composes (.template t) (.view v))
    {n : NodeId} {final : World σ}
    (renders : Template.RendersTo host t start n final) : done n final := by
  cases renders with
  | alone rendered =>
      exact supplies.renderWith minds
        (fun _ _ => View.staysAside_mount minds) (.refl start) rendered
  | @view v n found apart rendered element =>
      have looks : View.render host v start =
          View.renderWithin host (View.depthBound start) v start := rfl
      unfold Act.result at rendered
      unfold Act.after at element ⊢
      rw [looks] at rendered element ⊢
      generalize View.depthBound start = depth at rendered element ⊢
      cases depth with
      | zero => cases rendered
      | succ fuel =>
          rw [View.run_renderWithin, found] at rendered element ⊢
          split at rendered
          · cases rendered
          rename_i fresh
          rw [if_neg fresh] at element ⊢
          have mounts (among : Member → Prop) (kept : NodeId → Prop) :
              Mounter.StaysAside concerned among kept guarded
                (View.mountWith (View.renderWithin host fuel)) :=
            (View.leaves_renderWithin minds fuel).mount
          have supplied (n : NodeId) := supplies.renderWith (n := n) minds
            mounts ((World.Leaves.refl start).enter (.refs [.view v]))
          exact supplies.settleRender (mt (views v) apart) supplied rendered
            element

end Template.Supplies

end Renders

section Orderly

variable {host : Host σ} {start : World σ} {t : TemplateId}

theorem World.IsOrderly.completes {mounter : Mounter σ} {nested : Nested σ}
    {world : World σ} (orderly : start.IsOrderly t)
    (mounts : ∀ among kept, mounter.StaysAside
      (start.Composes (.template t)) among kept fun _ => False)
    (nests : ∀ among kept, nested.StaysAside
      (start.Composes (.template t)) among kept fun _ => False)
    {parent : NodeId}
    (isOpen : start.IsOpen (start.Composes (.template t)) (fun _ => False)
      parent world) (path : DefinitionPath) (record : Record) :
    (Blueprint.renderMembers mounter nested
      (start.template t).blueprint.children parent path).Ensures record world
        fun _ final => final.Completes (start.Composes (.template t)) parent
          fun final => ∃ lots, start.Arranges
            (start.template t).blueprint.children parent lots final := by
  have concerns (child : Member)
      (member : child ∈ (start.template t).blueprint.children) :
      start.Composes (.template t) child :=
    World.composes_child orderly.isElement member
  refine isOpen.completes orderly.settled orderly.fits
    (fun frames ⟨lots, arranges⟩ => ⟨lots, arranges.release frames⟩)
    (fun bare => ⟨[], ?_⟩) path record fun {fragment _} _ _ seating => ?gathered
  case gathered =>
    refine (@Blueprint.seats_mountMembers _ _ _ _ _ _ _ mounts nests
      orderly.settled (.empty fragment) [] _ concerns rfl seating path 0
      record).weaken ?_
    rintro mount later ⟨same, rows, each, told, seated⟩
    rw [show (Mount.empty fragment).fragment = mount.fragment from same.symm]
      at seated
    exact ⟨⟨_, seated⟩, _, seated.handOver orderly.settled each told
      orderly.distinct concerns⟩
  rw [bare]
  exact .empty isOpen.there isOpen.sorts.2
    (isOpen.passed.tidy orderly.settled.tidy) isOpen.empty

theorem World.IsOrderly.supplies (orderly : start.IsOrderly t) :
    Template.Supplies (start.Composes (.template t)) (fun _ => False) start t
      fun n world => ∃ lots,
        start.Arranges (start.template t).blueprint.children n lots world where
  isElement := orderly.isElement
  within _ := id
  settled := orderly.settled
  guards _ := False.elim
  hands mounts nests _ _ isOpen := orderly.completes mounts nests isOpen
  onward := fun ⟨lots, arranges⟩ leaves => ⟨lots, arranges.onward
    (fun _ member _ inside =>
      (World.composes_child orderly.isElement member).trans inside) leaves⟩
  release := fun frames ⟨lots, arranges⟩ => ⟨lots, arranges.release frames⟩

theorem Template.RendersTo.arranges {n : NodeId} {final : World σ}
    (renders : Template.RendersTo host t start n final)
    (orderly : start.IsOrderly t)
    (minds : host.Minds (start.Composes (.template t)) fun _ => False) :
    ∃ lots, start.Arranges (start.template t).blueprint.children n lots
      final := by
  exact orderly.supplies.rendersTo minds (fun _ => id) renders

end Orderly

end LiveTemplate
