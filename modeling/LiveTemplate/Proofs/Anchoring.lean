import LiveTemplate.Proofs.Unpacking

/-!
# The node after a collection

Each collection among the children of an element is told the node that comes
after its members.  It is told so when the next child is put at the end, before
all children are handed to the element; so it is the child of the element that
stands there then, unless what was put there is a fragment.  A fragment does not
become a child, and the anchor of the collection is no child either.

`Template.anchor_is_next_iff` says for any number and any kinds of children what
each collection is told and when that is the next child.
-/

namespace LiveTemplate

variable {σ : Type}

/-- What corresponds to the parts of a list. -/
theorem forall₂_split {α β : Type} {relation : α → β → Prop} {a : α} {b : β}
    {front back : List α} {ahead behind : List β}
    (each : List.Forall₂ relation (front ++ a :: back) (ahead ++ b :: behind))
    (same : ahead.length = front.length) :
    relation a b ∧ List.Forall₂ relation back behind := by
  have rest := List.forall₂_drop front.length each
  rw [List.drop_left, ← same, List.drop_left] at rest
  exact List.forall₂_cons.mp rest

/-- The fragment that is the first to be put behind a collection with the given
children after it.  Collections without members bring nothing. -/
def Member.fragmentNext? (world : World σ) : List Member → Option NodeId
  | [] => none
  | .collection c :: rest =>
      if (world.collection c).members.isEmpty then fragmentNext? world rest
      else none
  | .node n :: _ => if world.dom.isFragment n then some n else none
  | _ :: _ => none

namespace World

/-- The nodes that a child has come to: the elements of the members of a
collection, the children that a fragment had, or one node. -/
def ComesTo (start world : World σ) (child : Member) (nodes : List NodeId) :
    Prop :=
  match child with
  | .collection c => List.Forall₂ (fun v n => start.Seats world ⟨.view v, n⟩)
      (start.collection c).members nodes
  | .node n => nodes = start.dom.moved n
  | member => ∃ n, nodes = [n] ∧ start.Seats world ⟨member, n⟩

private theorem donates_of_fragmentNext? {start : World σ}
    {children : List Member}
    {n : NodeId} (next : Member.fragmentNext? start children = some n) :
    start.Donates children n := by
  induction children with
  | nil => cases next
  | cons child rest ih =>
      cases child with
      | collection c =>
          unfold Member.fragmentNext? at next
          split at next
          · exact (ih next).mono (List.subset_cons_self _ _)
          · cases next
      | node m =>
          unfold Member.fragmentNext? at next
          split at next
          · rename_i fragment
            cases next
            exact ⟨.head _, fragment⟩
          · cases next
      | _ => cases next

end World

theorem Member.eq_of_collection? {child : Member} {c : CollectionId}
    (found : child.collection? = some c) : child = .collection c := by
  cases child with
  | collection d =>
      cases found
      rfl
  | _ => cases found

namespace Row

variable {start world : World σ} {child : Member} {row : Row}

theorem lot_of_isFrom {c : CollectionId}
    (isFrom : row.IsFrom start (.collection c)) : row.lot = .members c :=
  isFrom.1

private theorem collections_of_isFrom {children : List Member} {rows : List Row}
    (each : List.Forall₂ (IsFrom start) children rows) :
    (rows.map Row.lot).filterMap Lot.collection? =
      children.filterMap Member.collection? := by
  induction each with
  | nil => rfl
  | @cons child row _ _ first _ ih =>
      cases child with
      | collection c =>
          rw [List.map_cons, lot_of_isFrom first]
          exact congrArg (c :: ·) ih
      | node n =>
          cases show row = _ from first
          exact ih
      | _ =>
          obtain ⟨n, rfl⟩ := first
          exact ih

/-- What was put at the end first is a fragment, or the first of the nodes. -/
theorem head?_front {children : List Member} {rows : List Row}
    (each : List.Forall₂ (IsFrom start) children rows) :
    ((rows.map Row.front).flatMap Row.nodes).head? =
      (Member.fragmentNext? start children).or
        (rows.flatMap Row.nodes).head? := by
  induction each with
  | nil => rfl
  | @cons child row rest others first _ ih =>
      rw [List.map_cons, List.flatMap_cons, List.flatMap_cons]
      cases child with
      | collection c =>
          obtain ⟨lot, tops⟩ := first
          have same : row.front = row := by
            unfold front
            rw [lot]
          have length := congrArg List.length tops
          rw [List.length_map, List.length_map] at length
          unfold Member.fragmentNext?
          rw [same]
          split
          · rename_i empty
            have none : row.nodes = [] := by
              rw [List.isEmpty_iff.mp empty, List.length_nil,
                List.length_eq_zero_iff] at length
              rw [nodes, length, List.map_nil]
            rw [none]
            exact ih
          · rename_i filled
            have some : row.nodes ≠ [] := by
              intro none
              rw [List.map_eq_nil_iff.mp none, List.length_nil] at length
              exact filled (List.isEmpty_iff_length_eq_zero.mpr length.symm)
            rw [List.head?_append_of_ne_nil _ some,
              List.head?_append_of_ne_nil _ some, Option.none_or]
      | node n =>
          cases show row = _ from first
          unfold Member.fragmentNext?
          split
          · rfl
          · rename_i solid
            simp [front, nodes, Dom.moved, solid]
      | _ =>
          obtain ⟨n, rfl⟩ := first
          rfl

end Row

namespace World

variable {start world later : World σ} {t : TemplateId} {parent : NodeId}
  {rows : List Row}

private theorem forall₂_of_seats {seats : List Seat} {views : List ViewId}
    (members : seats.map Seat.member = views.map .view)
    (seated : ∀ seat ∈ seats, start.Seats world seat) :
    List.Forall₂ (fun v n => start.Seats world ⟨.view v, n⟩) views
      (seats.map Seat.node) := by
  induction views generalizing seats with
  | nil =>
      rw [List.map_eq_nil_iff.mp members]
      exact .nil
  | cons v rest ih =>
      obtain ⟨⟨_, n⟩, others, rfl, rfl, tops⟩ :=
        List.map_eq_cons_iff.mp members
      exact .cons (seated _ (.head _)) (ih tops fun seat member =>
        seated seat (.tail _ member))

theorem comesTo_of_rows {children : List Member}
    (each : List.Forall₂ (Row.IsFrom start) children rows)
    (seated : ∀ seat ∈ rows.flatMap Row.seats, start.Seats world seat) :
    List.Forall₂ (start.ComesTo world) children (rows.map Row.nodes) := by
  induction each with
  | nil => exact .nil
  | @cons child row _ _ first _ ih =>
      have mine (seat : Seat) (member : seat ∈ row.seats) :
          start.Seats world seat := seated seat (by simp [member])
      refine .cons ?_ (ih fun seat member => seated seat (by simp_all))
      cases child with
      | collection c => exact forall₂_of_seats first.2 mine
      | node n =>
          cases show row = _ from first
          simp [ComesTo, Row.nodes, Function.comp_def]
      | _ =>
          obtain ⟨n, rfl⟩ := first
          exact ⟨n, rfl, mine _ (.head _)⟩

/-- All that the children bring has come to stand in an element, and each
collection has been told what was put at the end after it. -/
structure Unpacked (start : World σ) (t : TemplateId) (parent : NodeId)
    (rows : List Row) (world : World σ) : Prop where
  each : List.Forall₂ (Row.IsFrom start)
    (start.template t).blueprint.children rows
  handled : ∀ seat ∈ rows.flatMap Row.seats, start.Handles t seat.member
  opened : ∀ n, start.Donates (start.template t).blueprint.children n →
    n ∉ rows.flatMap Row.nodes
  seated : ∀ seat ∈ rows.flatMap Row.seats, start.Seats world seat
  children : world.dom.children parent = rows.flatMap Row.nodes
  told : ∀ front c back ahead row behind,
    (start.template t).blueprint.children = front ++ .collection c :: back →
    rows = ahead ++ row :: behind → ahead.length = front.length →
      (world.collection c).parent = some parent ∧
      (world.collection c).anchor =
        ((behind.map Row.front).flatMap Row.nodes).head?

namespace Unpacked

/-- What is held makes no difference. -/
theorem release (unpacked : start.Unpacked t parent rows world)
    (frames : List Frame) :
    start.Unpacked t parent rows (world.holding frames) := by
  exact { unpacked with }

/-- An element without children is complete. -/
theorem empty (none : (start.template t).blueprint.children = [])
    (bare : world.dom.children parent = []) :
    start.Unpacked t parent [] world where
  each := none ▸ .nil
  handled _ := nofun
  opened _ _ := nofun
  seated _ := nofun
  children := bare
  told front c back ahead row behind split := by simp [none] at split

theorem onward (compatible : start.IsCompatible t)
    (unpacked : start.Unpacked t parent rows world)
    (leaves : world.Leaves (start.Handles t) (fun _ => False) (· = parent)
      later) : start.Unpacked t parent rows later := by
  exact { unpacked with
    seated := fun seat member =>
      (unpacked.seated seat member).onward leaves (unpacked.handled seat member)
    children := (leaves.children parent rfl).trans unpacked.children
    told := fun front c back ahead row behind split rowed same => by
      have member : .collection c ∈ (start.template t).blueprint.children := by
        simp [split]
      rw [leaves.collections c (.inl (compatible.composes member)) id]
      exact unpacked.told front c back ahead row behind split rowed same }

theorem comesTo (unpacked : start.Unpacked t parent rows world) :
    List.Forall₂ (start.ComesTo world) (start.template t).blueprint.children
      (rows.map Row.nodes) :=
  comesTo_of_rows unpacked.each unpacked.seated

end Unpacked

/-- A fragment has not come to stand among what it donates. -/
theorem Unpacking.opened {mount : Mount} {rest : List Member} {n : NodeId}
    (compatible : start.IsCompatible t)
    (unpacking : start.Unpacking t parent mount rows rest world)
    (donates : start.Donates (start.template t).blueprint.children n) :
    n ∉ rows.flatMap Row.nodes := by
  intro inside
  have seating := unpacking.seating
  have gathered : world.dom.children mount.fragment =
      rows.flatMap Row.nodes :=
    seating.gathered.trans (List.map_flatMap ..)
  have solid := (seating.passed.tidy compatible.settled.tidy).not_fragment
    (gathered ▸ inside)
  rw [seating.passed.isFragment (compatible.lt_size_of_donates donates),
    donates.2] at solid
  cases solid

/-- What has been gathered is handed to the element. -/
theorem Unpacking.finish {mount : Mount} (compatible : start.IsCompatible t)
    (unpacking : start.Unpacking t parent mount rows [] world)
    (each : List.Forall₂ (Row.IsFrom start)
      (start.template t).blueprint.children rows) :
    start.Unpacked t parent rows ((mount.finish parent).after world) := by
  have seating := unpacking.seating
  have handled (seat : Seat) (member : seat ∈ rows.flatMap Row.seats) :
      start.Handles t seat.member :=
    seating.fits.concerns seat.member (List.mem_append_left _
      (List.mem_map_of_mem member)) _ (.refl _ _)
  have leaves : world.Leaves (start.Handles t) _ _
      ((mount.finish parent).after world) := mount.leaves_handOver parent world
  have distinct : (((rows.map Row.front).map Row.lot).filterMap
      Lot.collection?).Nodup := by
    have lots : (rows.map Row.front).map Row.lot = rows.map Row.lot := by
      simp
    rw [lots, Row.collections_of_isFrom each]
    refine compatible.distinct.filterMap fun one other c first second => ?_
    rw [Member.eq_of_collection? first, Member.eq_of_collection? second]
  refine ⟨each, handled, fun n => unpacking.opened compatible,
    fun seat member =>
      (seating.seated seat member).onward leaves (handled seat member), ?_, ?_⟩
  · obtain ⟨_, after⟩ := Collection.after_tellEach parent mount.collections
      { world with dom := world.dom.appendChild parent mount.fragment }
    exact (congrArg (·.dom.children parent) after).trans
      (seating.children_finish compatible.settled_handles)
  · rintro front c back ahead row behind split rfl same
    rw [split] at each
    obtain ⟨mine, _⟩ := forall₂_split each same
    exact Seating.told_finish unpacking.told distinct (List.map_append ..)
      ((Row.lot_front row).trans (Row.lot_of_isFrom mine))

/-- The children of a compatible template bring what they bring to the
element. -/
theorem IsCompatible.completes {mounter : Mounter σ} {nested : Nested σ}
    (compatible : start.IsCompatible t)
    (mounts : ∀ among kept, mounter.StaysAside (start.Handles t) among kept
      (start.Donates (start.template t).blueprint.children))
    (nests : ∀ among kept, nested.StaysAside (start.Handles t) among kept
      (start.Donates (start.template t).blueprint.children))
    (isOpen : start.IsOpen (start.Handles t)
      (start.Donates (start.template t).blueprint.children) parent world)
    (path : DefinitionPath) (record : Record) :
    (Blueprint.renderMembers mounter nested
      (start.template t).blueprint.children parent path).Ensures record world
        fun _ final => final.Completes (start.Handles t) parent
          fun final => ∃ rows, start.Unpacked t parent rows final := by
  refine isOpen.completes compatible.settled_handles compatible.fits
    (fun frames ⟨rows, unpacked⟩ => ⟨rows, unpacked.release frames⟩)
    (fun bare => ⟨[], .empty bare isOpen.empty⟩) path record
    fun {fragment _} opened new seating => ?_
  have unpacking : start.Unpacking t parent (.empty fragment) []
      (start.template t).blueprint.children _ :=
    ⟨.refl _, ⟨opened.new, new⟩, rfl, fun _ => nofun, seating,
      opened.passed.children⟩
  refine (Blueprint.unpacks_mountMembers compatible mounts nests unpacking path
    0 record).weaken ?_
  rintro mount later ⟨_, rows, each, after⟩
  exact ⟨⟨_, after.seating⟩, rows, after.finish compatible each⟩

theorem IsCompatible.supplies (compatible : start.IsCompatible t) :
    Template.Supplies (start.Handles t)
      (start.Donates (start.template t).blueprint.children) start t
      fun n world => ∃ rows, start.Unpacked t n rows world where
  isElement := compatible.isElement
  within _ := .inl
  settled := compatible.settled_handles
  guards _ donates := .inl (compatible.composes donates.1)
  hands mounts nests _ _ isOpen := compatible.completes mounts nests isOpen
  onward := fun ⟨rows, unpacked⟩ leaves =>
    ⟨rows, unpacked.onward compatible leaves⟩
  release := fun frames ⟨rows, unpacked⟩ => ⟨rows, unpacked.release frames⟩

end World

namespace Template

section Rendered

variable {host : Host σ} {start final : World σ} {t : TemplateId}
  {parent : NodeId}

theorem RendersTo.unpacked (renders : RendersTo host t start parent final)
    (compatible : start.IsCompatible t)
    (minds : host.Minds (start.Composes (.template t))
      (start.Donates (start.template t).blueprint.children)) :
    ∃ rows, start.Unpacked t parent rows final := by
  -- Of nodes nothing is asked but that they are there.
  have part (member : Member) (other : ∀ n, member ≠ .node n)
      (handles : start.Handles t member) :
      start.Composes (.template t) member :=
    handles.resolve_right fun ⟨n, same, _⟩ => other n same
  have mindful : host.Minds (start.Handles t)
      (start.Donates (start.template t).blueprint.children) :=
    fun handler value node world =>
      (minds handler value node world).unconcern part
  exact compatible.supplies.rendersTo mindful (fun v => part _ nofun) renders

/-- Whatever children an element has been rendered with, they have come to what
they bring, in their order.  Each collection has been told the fragment that was
first put behind it, if it was one, and else the child behind its last member,
or in its own place if it has none.  So it is told that child exactly if no
fragment comes first, and it has no anchor only if no child stands there. -/
theorem anchor_is_next_iff (renders : RendersTo host t start parent final)
    (compatible : start.IsCompatible t)
    (minds : host.Minds (start.Composes (.template t))
      (start.Donates (start.template t).blueprint.children)) :
    ∃ groups : List (List NodeId),
      List.Forall₂ (start.ComesTo final) (start.template t).blueprint.children
        groups ∧
      final.dom.children parent = groups.flatten ∧
      ∀ front c back ahead own behind,
        (start.template t).blueprint.children =
          front ++ .collection c :: back →
        groups = ahead ++ own :: behind → ahead.length = front.length →
          let anchor := (final.collection c).anchor
          let place := (ahead.flatten ++ own).length
          let next := (final.dom.children parent)[place]?
          (final.collection c).parent = some parent ∧
          anchor = (Member.fragmentNext? start back).or next ∧
          (anchor = next ↔ Member.fragmentNext? start back = none) ∧
          (anchor = none → next = none) := by
  obtain ⟨rows, unpacked⟩ := renders.unpacked compatible minds
  have children : final.dom.children parent = (rows.map Row.nodes).flatten :=
    unpacked.children.trans (List.flatMap_def ..)
  refine ⟨rows.map Row.nodes, unpacked.comesTo, children, ?_⟩
  intro front c back ahead own behind split grouped same anchor place next
  obtain ⟨above, rest, rfl, rfl, below⟩ := List.map_eq_append_iff.mp grouped
  obtain ⟨row, after, rfl, rfl, rfl⟩ := List.map_eq_cons_iff.mp below
  rw [List.length_map] at same
  obtain ⟨home, told⟩ := unpacked.told front c back above row after split rfl
    same
  have each := unpacked.each
  rw [split] at each
  obtain ⟨_, behind⟩ := forall₂_split each same
  have stands : next = (after.flatMap Row.nodes).head? := by
    show (final.dom.children parent)[_]? = _
    rw [children, List.map_append, List.map_cons, List.flatten_append,
      List.flatten_cons, ← List.append_assoc,
      List.getElem?_append_right (Nat.le_refl _), Nat.sub_self,
      ← List.head?_eq_getElem?, List.flatMap_def]
  have named : anchor = (Member.fragmentNext? start back).or next := by
    rw [stands, ← Row.head?_front behind]
    exact told
  -- The fragment is no child, so it is not the next one.
  refine ⟨home, named, ⟨fun isNext => ?_, fun none => ?_⟩, fun none => ?_⟩
  · cases found : Member.fragmentNext? start back with
    | none => rfl
    | some n =>
        rw [named, found, Option.some_or] at isNext
        have child := List.mem_of_getElem? isNext.symm
        rw [unpacked.children] at child
        have behind : back ⊆ (start.template t).blueprint.children := by
          simp [split]
        have donates := (World.donates_of_fragmentNext? found).mono behind
        exact absurd child (unpacked.opened n donates)
  · rw [named, none, Option.none_or]
  · rw [named] at none
    exact (Option.or_eq_none_iff.mp none).2

end Rendered

namespace Tray

/-- An element without attributes. -/
def plain (tag : String) : NodeKind :=
  .element Selector.htmlNamespace tag []

/-- The element of a view, a rule, and a fragment with one child. -/
def page : Dom :=
  ((((Dom.empty.create (plain "b")).2.create (plain "hr")).2.create
    .fragment).2.create (plain "u")).2.appendChild ⟨2⟩ ⟨3⟩

/-- A list of a heading, a collection with one view, the rule, an empty
collection, and the fragment. -/
def start : World Unit :=
  { World.initial () with
    dom := page
    templates := ⟨#[⟨⟨some "h1", none, none, [], [], []⟩, false, none⟩,
      ⟨⟨some "ul", none, none, [], [], [.template ⟨0⟩, .collection ⟨0⟩,
        .node ⟨1⟩, .collection ⟨1⟩, .node ⟨2⟩]⟩, false, none⟩]⟩
    views := ⟨#[⟨⟨0⟩, ⟨0⟩, none, some ⟨0⟩, true, []⟩]⟩
    collections := ⟨#[⟨[⟨0⟩], none, none⟩, ⟨[], none, none⟩]⟩ }

/-- What the list comes to when it is rendered. -/
def rendered : World Unit :=
  (Template.render Host.quiet ⟨1⟩).after start

theorem renders : RendersTo Host.quiet ⟨1⟩ start ⟨4⟩ rendered := by
  exact .alone (by decide +kernel)

/-- All that is in the list, apart from the fragment. -/
def contents : List Member :=
  [.template ⟨0⟩, .collection ⟨0⟩, .view ⟨0⟩, .node ⟨1⟩, .collection ⟨1⟩]

theorem mem_contents {child inner : Member} (inside : child ∈ contents)
    (composes : start.Composes child inner) : inner ∈ contents := by
  have closed : ∀ member ∈ contents, ∀ part ∈ start.parts member,
      part ∈ contents := by decide
  exact composes.mem_of_closed closed inside

theorem mem_list {inner : Member}
    (composes : start.Composes (.template ⟨1⟩) inner) :
    inner ∈ .template ⟨1⟩ :: .node ⟨2⟩ :: contents := by
  have closed : ∀ member ∈ .template ⟨1⟩ :: .node ⟨2⟩ :: contents,
      ∀ part ∈ start.parts member,
        part ∈ .template ⟨1⟩ :: .node ⟨2⟩ :: contents := by decide
  exact composes.mem_of_closed closed (.head _)

theorem isSettled : start.IsSettled (start.Composes (.template ⟨1⟩)) where
  tidy := ((((Dom.isTidy_empty.create (plain "b")).create
    (plain "hr")).create .fragment).create (plain "u")).insertBefore ⟨2⟩ ⟨3⟩
      none
  nodes n composes := by
    have member := mem_list composes
    simp only [contents, List.mem_cons, reduceCtorEq, Member.node.injEq,
      List.not_mem_nil, or_false, false_or] at member
    rcases member with rfl | rfl <;> decide +kernel
  elements v n composes element := by
    have member := mem_list composes
    simp only [contents, List.mem_cons, reduceCtorEq, Member.view.injEq,
      List.not_mem_nil, or_false, false_or] at member
    rw [member] at element
    cases element
    decide +kernel

theorem isCompatible : start.IsCompatible ⟨1⟩ where
  isElement := rfl
  settled := isSettled
  distinct := by decide
  apart := by
    have tops : (start.template ⟨1⟩).blueprint.children.flatMap
        (Member.brings start) =
          [.template ⟨0⟩, .view ⟨0⟩, .node ⟨1⟩, .node ⟨3⟩] := by
      decide +kernel
    have bare : ∀ top ∈ [Member.template ⟨0⟩, .view ⟨0⟩, .node ⟨1⟩, .node ⟨3⟩],
        start.parts top = [] := by decide +kernel
    have roots : [Member.template ⟨0⟩, .view ⟨0⟩, .node ⟨1⟩, .node ⟨3⟩].Pairwise
        fun one other => one ≠ other ∧
          (one.root? start = none ∨ one.root? start ≠ other.root? start) := by
      decide +kernel
    rw [tops]
    refine roots.imp_of_mem fun first second ⟨differs, alone⟩ =>
      .of_no_parts differs ⟨bare _ first, bare _ second⟩ fun r mine theirs => ?_
    rcases alone with none | other
    · cases none.symm.trans mine
    · exact other (mine.trans theirs.symm)
  whole n donates child isChild other below := by
    obtain ⟨isNode, fragment⟩ := donates
    have nodes : n = ⟨1⟩ ∨ n = ⟨2⟩ := by
      simpa [start, World.template, Store.get] using isNode
    rcases nodes with rfl | rfl
    · cases fragment
    · have inside : child ∈ contents := by
        have children : ∀ child ∈ (start.template ⟨1⟩).blueprint.children,
            child ≠ .node ⟨2⟩ → child ∈ contents := by decide
        exact children child isChild other
      exact absurd (mem_contents inside below) (by decide)

end Tray

/-- The collection between the heading and the rule is told the rule, which
stands behind the element of its view. -/
theorem anchor_is_rule :
    (Tray.rendered.collection ⟨0⟩).anchor =
        (Tray.rendered.dom.children ⟨4⟩)[2]? ∧
      Tray.rendered.dom.outerHtml ⟨4⟩ =
        "<ul><h1></h1><b></b><hr><u></u></ul>" := by
  obtain ⟨groups, comes, _, each⟩ := anchor_is_next_iff Tray.renders
    Tray.isCompatible (Host.minds_quiet _ _)
  change List.Forall₂ (Tray.start.ComesTo Tray.rendered)
    [.template ⟨0⟩, .collection ⟨0⟩, .node ⟨1⟩, .collection ⟨1⟩, .node ⟨2⟩]
    groups at comes
  rcases comes with _ | ⟨heading, _ | ⟨members, _⟩⟩
  obtain ⟨n, rfl, _⟩ := heading
  have told := each [.template ⟨0⟩] ⟨0⟩ [.node ⟨1⟩, .collection ⟨1⟩, .node ⟨2⟩]
    [[n]] _ _ rfl rfl rfl
  have place : ([[n]].flatten ++ _).length = 2 :=
    congrArg (· + 1) (List.Forall₂.length_eq members).symm
  rw [place] at told
  exact ⟨told.2.2.1.mpr (by decide +kernel), by decide +kernel⟩

/-- The empty collection is told the fragment, which is no child.  The child in
its place is that of the fragment. -/
theorem anchor_is_fragment :
    RendersTo Host.quiet ⟨1⟩ Tray.start ⟨4⟩ Tray.rendered ∧
      Tray.start.IsCompatible ⟨1⟩ ∧
      (Tray.start.template ⟨1⟩).blueprint.children =
        [.template ⟨0⟩, .collection ⟨0⟩, .node ⟨1⟩, .collection ⟨1⟩,
          .node ⟨2⟩] ∧
      (Tray.start.collection ⟨1⟩).members = [] ∧
      Tray.rendered.dom.outerHtml ⟨4⟩ =
        "<ul><h1></h1><b></b><hr><u></u></ul>" ∧
      (Tray.rendered.dom.children ⟨4⟩)[3]? = some ⟨3⟩ ∧
      (Tray.rendered.collection ⟨1⟩).anchor = some ⟨2⟩ ∧
      ⟨2⟩ ∉ Tray.rendered.dom.children ⟨4⟩ := by
  exact ⟨Tray.renders, Tray.isCompatible, rfl, rfl, by decide +kernel,
    by decide +kernel, by decide +kernel, by decide +kernel⟩

end Template

end LiveTemplate
