import Mathlib.Data.List.Pairwise
import LiveTemplate.Proofs.Placement

/-!
# Fragments among the children

A definition may have fragments among its children.  A fragment does not become
a child: it donates its own children, which go where it stands, and is left
empty.  Anything else brings what it brings without fragments.

Until its turn comes a fragment has to keep its children, whatever is rendered
before it.  `World.Unpacking` adds this to `World.Seating`, and
`Blueprint.unpacks_mountMembers` carries both from child to child.
-/

namespace LiveTemplate

variable {σ : Type}

/-- The members that a child brings: a fragment stands for its children. -/
def Member.brings (world : World σ) : Member → List Member
  | .node n => (world.dom.moved n).map .node
  | member => member.tops world

private theorem Member.brings_eq_tops {world : World σ} {child : Member}
    (other : ∀ n, child ≠ .node n) : child.brings world = child.tops world := by
  cases child with
  | node n => exact absurd rfl (other n)
  | _ => rfl

namespace World

/-- One of the children is a fragment, which donates its own. -/
def Donates (world : World σ) (children : List Member) (n : NodeId) : Prop :=
  .node n ∈ children ∧ world.dom.isFragment n = true

/-- A template whose children can stand next to each other, with all that the
fragments among them donate.  No fragment is part of another child. -/
structure IsCompatible (world : World σ) (t : TemplateId) : Prop where
  isElement : (world.template t).blueprint.text = none
  settled : world.IsSettled (world.Composes (.template t))
  distinct : (world.template t).blueprint.children.Nodup
  apart : ((world.template t).blueprint.children.flatMap
    (Member.brings world)).Pairwise world.KeepApart
  whole : ∀ n, world.Donates (world.template t).blueprint.children n →
    ∀ child ∈ (world.template t).blueprint.children, child ≠ .node n →
      ¬world.Composes child (.node n)

/-- What a template is composed of, or any node there is. -/
def Handles (world : World σ) (t : TemplateId) (member : Member) : Prop :=
  world.Composes (.template t) member ∨
    ∃ n, member = .node n ∧ n.index < world.dom.nodes.size

variable {world : World σ} {t : TemplateId} {child inner : Member}

/-- Whatever stands for a node in a child is part of what the child brings,
unless that is a node itself. -/
theorem Composes.brought (composes : world.Composes child inner)
    (other : ∀ n, child ≠ .node n) {r : NodeId}
    (root : inner.root? world = some r) :
    ∃ top ∈ child.brings world, world.Composes top inner := by
  cases child with
  | node n => exact absurd rfl (other n)
  | view v => exact ⟨_, .head _, composes⟩
  | template t => exact ⟨_, .head _, composes⟩
  | collection c =>
      obtain ⟨place, stands⟩ := composes
      cases stands with
      | here => cases root
      | collection found below =>
          exact ⟨_, List.mem_map_of_mem (List.mem_of_getElem? found), _, below⟩

private theorem moved_of_fragment {n : NodeId}
    (fragment : world.dom.isFragment n = true) :
    world.dom.moved n = world.dom.children n :=
  if_pos fragment

namespace IsCompatible

variable (compatible : world.IsCompatible t)

include compatible

theorem composes (member : child ∈ (world.template t).blueprint.children) :
    world.Composes (.template t) child :=
  composes_child compatible.isElement member

/-- What is handled is there, and what a view came to is no fragment. -/
theorem settled_handles : world.IsSettled (world.Handles t) where
  tidy := compatible.settled.tidy
  nodes n handles := by
    rcases handles with inside | ⟨m, same, there⟩
    · exact compatible.settled.nodes n inside
    · cases same
      exact there
  elements v n handles := by
    rcases handles with inside | ⟨m, impossible, _⟩
    · exact compatible.settled.elements v n inside
    · cases impossible

theorem lt_size_of_donates {n : NodeId}
    (donates : world.Donates (world.template t).blueprint.children n) :
    n.index < world.dom.nodes.size := by
  exact compatible.settled.nodes n (compatible.composes donates.1)

theorem solid_moved {n m : NodeId}
    (member : .node n ∈ (world.template t).blueprint.children)
    (brought : m ∈ world.dom.moved n) :
    m.index < world.dom.nodes.size ∧ world.dom.isFragment m = false := by
  unfold Dom.moved at brought
  split at brought
  · exact ⟨compatible.settled.tidy.lt_size_of_mem brought,
      compatible.settled.tidy.not_fragment brought⟩
  · rename_i solid
    rw [List.mem_singleton.mp brought]
    exact ⟨compatible.settled.nodes n (compatible.composes member),
      by simpa using solid⟩

theorem fits : world.Fits (world.Handles t)
    ((world.template t).blueprint.children.flatMap (Member.brings world)) where
  apart := compatible.apart
  concerns top member inner inside := by
    obtain ⟨child, isChild, isTop⟩ := List.mem_flatMap.mp member
    have brought (isTop : top ∈ child.tops world) : world.Handles t inner :=
      .inl (((compatible.composes isChild).trans (composes_top isTop)).trans
        inside)
    cases child with
    | node n =>
        obtain ⟨m, moved, rfl⟩ := List.mem_map.mp isTop
        exact .inr ⟨m, inside.eq_of_no_parts rfl,
          (compatible.solid_moved isChild moved).1⟩
    | _ => exact brought isTop
  solid n member := by
    obtain ⟨child, isChild, isTop⟩ := List.mem_flatMap.mp member
    cases child with
    | collection c =>
        obtain ⟨v, _, same⟩ := List.mem_map.mp isTop
        cases same
    | node m =>
        obtain ⟨_, moved, same⟩ := List.mem_map.mp isTop
        cases same
        exact (compatible.solid_moved isChild moved).2
    | _ => cases List.mem_singleton.mp isTop

theorem keepApart {other one two : Member}
    (member : child ∈ (world.template t).blueprint.children)
    (another : other ∈ (world.template t).blueprint.children)
    (differs : child ≠ other) (first : one ∈ child.brings world)
    (second : two ∈ other.brings world) : world.KeepApart one two := by
  have symmetric : Std.Symm fun child other : Member =>
      ∀ one ∈ child.brings world, ∀ two ∈ other.brings world,
        world.KeepApart one two :=
    ⟨fun _ _ apart one first two second =>
      (apart two second one first).symm⟩
  have pairs := (List.pairwise_flatMap.mp compatible.apart).2
  exact pairs.forall member another differs one first two second

end IsCompatible

namespace Seating

variable {concerned : Member → Prop} {start world : World σ}
  {parent fragment n : NodeId} {seats : List Seat} {rest : List Member}
  (settled : start.IsSettled concerned)
  (seating : start.Seating concerned parent fragment seats
    ((start.dom.moved n).map .node ++ rest) world)

include settled seating

/-- A node that is to take its seat is not there yet. -/
theorem absent_moved (same : world.dom.moved n = start.dom.moved n) :
    n ∉ world.dom.children fragment := by
  intro member
  have solid := (seating.passed.tidy settled.tidy).not_fragment member
  have alone : start.dom.moved n = [n] := by
    rw [← same, Dom.moved, solid]
    rfl
  obtain ⟨_, _, absent⟩ := seating.free (.node n) (by simp [alone]) _ n
    (.refl _ _) rfl
  exact absent (seating.gathered ▸ member)

/-- The nodes that come to stand in the fragment are not what the others stand
for. -/
theorem alone_moved {top inner : Member} {m : NodeId} (member : top ∈ rest)
    (inside : start.Composes top inner) (moved : m ∈ start.dom.moved n) :
    inner.root? world ≠ some m := by
  intro root
  have mine : Member.node m ∈ (start.dom.moved n).map .node :=
    List.mem_map_of_mem moved
  have tops := (List.pairwise_append.mp seating.fits.apart).2.1
  have apart := (List.pairwise_append.mp tops).2.2 _ mine top member
  have concerns (top : Member)
      (member : top ∈ (start.dom.moved n).map .node ++ rest) (inner : Member) :=
    seating.fits.concerns top (List.mem_append_right _ member) inner
  have there := settled.nodes m
    (concerns _ (List.mem_append_left _ mine) _ (.refl _ _))
  rcases seating.passed.root?_before
    (concerns top (List.mem_append_right _ member) inner inside) root with
      before | new
  · exact apart.1.root m inner rfl inside before
  · exact absurd there (Nat.not_lt.mpr new)

theorem take_moved (same : world.dom.moved n = start.dom.moved n)
    (apart : n ≠ parent ∧ n ≠ fragment) :
    start.Seating concerned parent fragment
      (seats ++ (start.dom.moved n).map fun m => ⟨.node m, m⟩) rest
      { world with dom := world.dom.appendChild fragment n } := by
  have tidy := seating.passed.tidy settled.tidy
  have absent := seating.absent_moved settled same
  have appended := Dom.appended seating.notText apart.2 (tidy.nodup n)
    fun above => absent ((tidy.linked fragment n).mpr above)
  have empty : (world.dom.appendChild fragment n).children parent = [] := by
    refine (tidy.children_insertBefore_of_ne none seating.differs
      (fun _ => apart.1.symm) ?_).trans seating.empty
    rw [seating.empty]
    exact List.not_mem_nil
  have all : (seats ++ (start.dom.moved n).map fun m =>
      (⟨.node m, m⟩ : Seat)).map Seat.node =
        seats.map Seat.node ++ start.dom.moved n := by
    rw [List.map_append, List.map_map]
    exact congrArg _ (List.map_id _)
  have tops : start.Seating concerned parent fragment seats
      (((start.dom.moved n).map fun m => (⟨.node m, m⟩ : Seat)).map
        Seat.member ++ rest) world := by
    rw [List.map_map]
    exact seating
  refine tops.grow (leaves_appendChild fragment n world) ⟨empty, ?_⟩
    (fun seat new => ?_) (fun v member => ?_) fun top member inner r inside
      root => ?_
  · rw [all, appended.children_parent, seating.gathered, same]
  · obtain ⟨m, _, rfl⟩ := List.mem_map.mp new
    rfl
  · have same := seating.untouched v (List.mem_append_right _ member)
    exact ⟨same.template, same.element, same.rendered⟩
  · obtain ⟨notParent, notFragment, outside⟩ := seating.free top
      (List.mem_append_right _ member) inner r inside root
    refine ⟨notParent, notFragment, fun seated => ?_⟩
    rw [all] at seated
    rcases List.mem_append.mp seated with old | new
    · exact outside old
    · exact seating.alone_moved settled member inside new root

end Seating

end World

namespace Row

/-- A child has been given a row for what it brings. -/
def IsFrom (start : World σ) (child : Member) (row : Row) : Prop :=
  match child with
  | .node n => row =
      ⟨.fixed n, (start.dom.moved n).map fun m => ⟨.node m, m⟩⟩
  | member => row.IsOf start member

private theorem IsFrom.of_isOf {start : World σ} {child : Member} {row : Row}
    (other : ∀ n, child ≠ .node n) (isOf : row.IsOf start child) :
    row.IsFrom start child := by
  cases child with
  | node n => exact absurd rfl (other n)
  | _ => exact isOf

/-- A row as it was when it was put at the end: with the node that was put
there, even if it is a fragment. -/
def front (row : Row) : Row :=
  match row.lot with
  | .fixed n => ⟨.fixed n, [⟨.node n, n⟩]⟩
  | .members _ => row

@[simp]
theorem lot_front (row : Row) : row.front.lot = row.lot := by
  obtain ⟨lot, seats⟩ := row
  cases lot <;> rfl

theorem anchors_front (row : Row) : anchors [row.front] = anchors [row] := by
  obtain ⟨lot, seats⟩ := row
  cases lot <;> rfl

/-- Only a node may stand for others than itself. -/
theorem nodes_front {start : World σ} {child : Member} {row : Row}
    (isOf : row.IsOf start child) : row.front.nodes = row.nodes := by
  cases child with
  | collection c =>
      obtain ⟨lot, seats⟩ := row
      cases isOf.1
      rfl
  | _ =>
      obtain ⟨n, rfl⟩ := isOf
      rfl

end Row

namespace World

/-- What those children are composed of that are not nodes. -/
def Employs (world : World σ) (t : TemplateId) (member : Member) : Prop :=
  ∃ child ∈ (world.template t).blueprint.children,
    (∀ n, child ≠ .node n) ∧ world.Composes child member

/-- Some children have brought what they bring, and the fragments among the
others still have their children. -/
structure Unpacking (start : World σ) (t : TemplateId) (parent : NodeId)
    (mount : Mount) (rows : List Row) (rest : List Member) (world : World σ) :
    Prop where
  left : rest.Sublist (start.template t).blueprint.children
  new : start.dom.nodes.size ≤ parent.index ∧
    start.dom.nodes.size ≤ mount.fragment.index
  told : mount.collections = Row.anchors (rows.map Row.front)
  listed : ∀ entry ∈ mount.collections, start.Employs t (.collection entry.1)
  seating : start.Seating (start.Handles t) parent mount.fragment
    (rows.flatMap Row.seats) (rest.flatMap (Member.brings start)) world
  intact : ∀ n, start.Donates rest n →
    world.dom.children n = start.dom.children n

variable {start world later : World σ} {t : TemplateId} {parent : NodeId}
  {mount next : Mount} {rows more : List Row} {rest others : List Member}
  {child : Member}

theorem Donates.mono {n : NodeId} (donates : start.Donates rest n)
    (fewer : rest ⊆ others) : start.Donates others n := by
  exact ⟨fewer donates.1, donates.2⟩

namespace Unpacking

theorem enter (unpacking : start.Unpacking t parent mount rows rest world)
    (frame : Frame) :
    start.Unpacking t parent mount rows rest
      (world.holding (frame :: world.frames)) := by
  exact { unpacking with seating := unpacking.seating.enter frame }

theorem leave (unpacking : start.Unpacking t parent mount rows rest world)
    (same : next.fragment = mount.fragment)
    (after : start.Unpacking t parent next more others later) :
    start.Unpacking t parent next more others (later.holding world.frames) := by
  exact { after with
    seating := by
      have seating := after.seating
      rw [same] at seating ⊢
      exact unpacking.seating.leave seating }

theorem donates (unpacking : start.Unpacking t parent mount rows rest world)
    {n : NodeId} (waits : start.Donates rest n) :
    start.Donates (start.template t).blueprint.children n :=
  waits.mono unpacking.left.subset

variable (compatible : start.IsCompatible t)

include compatible

/-- A fragment that waits is none of the nodes that rendering moves, nor are its
children. -/
theorem free (unpacking : start.Unpacking t parent mount rows rest world)
    {member : Member} {r : NodeId} (inside : start.Employs t member)
    (root : member.root? world = some r) :
    ¬start.Donates rest r ∧
      ∀ n, start.Donates rest n → r ∉ world.dom.children n := by
  -- What stands for a node has stood for it from the start, or the node is new.
  obtain ⟨child, isChild, other, composes⟩ := inside
  have settled := compatible.settled
  have concerns : start.Composes (.template t) member :=
    (compatible.composes isChild).trans composes
  rcases unpacking.seating.passed.root?_before (.inl concerns) root with
    before | new
  · refine ⟨fun waits => ?_, fun n waits kid => ?_⟩
    · cases member with
      | node m =>
          cases before
          exact compatible.whole r (unpacking.donates waits) child isChild
            (other r) composes
      | view v =>
          have solid := (settled.elements v r concerns
            (element_of_root? before)).2
          rw [waits.2] at solid
          cases solid
      | _ => cases before
    · rw [unpacking.intact n waits] at kid
      have mine : Member.node r ∈ (Member.node n).brings start :=
        List.mem_map_of_mem (by rwa [moved_of_fragment waits.2])
      obtain ⟨top, isTop, below⟩ := composes.brought other before
      have apart := compatible.keepApart (unpacking.donates waits).1 isChild
        (other n).symm mine isTop
      exact apart.1.root r member rfl below before
  · refine ⟨fun waits => ?_, fun n waits kid => ?_⟩
    · exact absurd (compatible.lt_size_of_donates (unpacking.donates waits))
        (Nat.not_lt.mpr new)
    · rw [unpacking.intact n waits] at kid
      exact absurd (settled.tidy.lt_size_of_mem kid) (Nat.not_lt.mpr new)

/-- What is rendered leaves the fragments that wait alone. -/
theorem scope (unpacking : start.Unpacking t parent mount rows rest world) :
    world.Scope (start.Handles t) (start.Employs t) (start.Donates rest)
      (start.Donates (start.template t).blueprint.children) := by
  have settled := compatible.settled_handles
  have passed := unpacking.seating.passed
  refine .of_closed passed ?_ ?_ (passed.tidy settled.tidy) ?_ ?_
    (settled.onward passed).elements fun _ _ => unpacking.free compatible
  · rintro member inner ⟨child, isChild, other, composes⟩ below
    exact ⟨child, isChild, other, composes.trans below⟩
  · rintro member ⟨child, isChild, _, composes⟩
    exact .inl ((compatible.composes isChild).trans composes)
  · intro n waits
    exact Nat.lt_of_lt_of_le
      (compatible.lt_size_of_donates (unpacking.donates waits)) passed.size
  · exact fun n waits => .inl (unpacking.donates waits)

theorem aside (unpacking : start.Unpacking t parent mount rows rest world) :
    mount.StaysAside (start.Employs t) (start.Donates rest) where
  outside waits := by
    have there := compatible.lt_size_of_donates (unpacking.donates waits)
    exact absurd there (Nat.not_lt.mpr unpacking.new.2)
  collections := unpacking.listed

/-- The fragments that wait keep their children when a node is put at the
end. -/
theorem intact_push {n m : NodeId}
    (unpacking : start.Unpacking t parent mount rows (.node n :: rest) world)
    (donates : start.Donates rest m) :
    (world.dom.appendChild mount.fragment n).children m =
      start.dom.children m := by
  have waits := donates.mono (List.subset_cons_self (.node n) rest)
  have isChild : .node n ∈ (start.template t).blueprint.children :=
    unpacking.left.subset (.head _)
  have differs : m ≠ n := by
    rintro rfl
    exact (compatible.distinct.sublist unpacking.left).notMem donates.1
  have elsewhere : m ≠ mount.fragment := by
    rintro rfl
    exact (unpacking.aside compatible).outside waits
  have absent : n ∉ world.dom.children m := by
    rw [unpacking.intact m waits]
    intro kid
    have solid := compatible.settled.tidy.not_fragment kid
    have mine : Member.node n ∈ (Member.node n).brings start := by
      simp [Member.brings, Dom.moved, solid]
    have theirs : Member.node n ∈ (Member.node m).brings start := by
      simpa [Member.brings, Dom.moved, donates.2] using kid
    have apart := compatible.keepApart isChild (unpacking.donates waits).1
      (by simpa using differs.symm) mine theirs
    exact apart.1.root n (.node n) rfl (.refl _ _) rfl
  have tidy := unpacking.seating.passed.tidy compatible.settled.tidy
  exact (tidy.children_insertBefore_of_ne none elsewhere (fun _ => differs)
    absent).trans (unpacking.intact m waits)

/-- A raw node is put at the end. -/
theorem push {n : NodeId}
    (unpacking : start.Unpacking t parent mount rows (.node n :: rest) world) :
    start.Unpacking t parent ((mount.push n).result world)
      (rows ++ [⟨.fixed n, (start.dom.moved n).map fun m => ⟨.node m, m⟩⟩]) rest
      ((mount.push n).after world) := by
  have settled := compatible.settled_handles
  obtain ⟨left, new, told, listed, seating, intact⟩ := id unpacking
  rw [List.flatMap_cons] at seating
  have there := compatible.settled.nodes n
    (compatible.composes (left.subset (.head _)))
  have apart {m : NodeId} (new : start.dom.nodes.size ≤ m.index) : n ≠ m := by
    rintro rfl
    exact absurd there (Nat.not_lt.mpr new)
  have same : world.dom.moved n = start.dom.moved n := by
    unfold Dom.moved
    rw [seating.passed.isFragment there]
    split
    · rename_i fragment
      exact intact n ⟨.head _, fragment⟩
    · rfl
  have taken := seating.take_moved settled same ⟨apart new.1, apart new.2⟩
  refine ⟨(List.sublist_cons_self _ _).trans left, new, ?_,
    fun entry member => ?_, ?_, fun m donates => ?_⟩
  · rw [Mount.collections_push, told, List.map_append, List.map_singleton,
      Row.anchors_concat]
    exact (List.append_nil _).symm
  · obtain ⟨before, inside, rfl⟩ := List.mem_map.mp member
    exact listed before inside
  · rw [List.flatMap_append, List.flatMap_singleton]
    exact taken
  · exact unpacking.intact_push compatible donates

end Unpacking

end World

theorem World.Scope.guard {concerned among : Member → Prop}
    {kept guarded : NodeId → Prop} {world : World σ}
    (scope : world.Scope concerned among kept fun _ => False) :
    world.Scope concerned among kept guarded := by
  exact { scope with held := fun n stays => .inr ((scope.held n stays).elim
      False.elim id) }

namespace Blueprint

variable {mounter : Mounter σ} {nested : Nested σ} {start world : World σ}
  {t : TemplateId} {parent : NodeId} {mount : Mount} {rows : List Row}
  (compatible : start.IsCompatible t)
  (mounts : ∀ among kept, mounter.StaysAside (start.Handles t) among kept
    (start.Donates (start.template t).blueprint.children))
  (nests : ∀ among kept, nested.StaysAside (start.Handles t) among kept
    (start.Donates (start.template t).blueprint.children))

include compatible mounts nests

/-- One child brings what it brings. -/
theorem unpacks_mountMember {child : Member} {rest : List Member}
    (unpacking : start.Unpacking t parent mount rows (child :: rest) world)
    (path : DefinitionPath) (record : Record) :
    (mountMember mounter nested path mount child).Ensures record world
      fun later final => later.fragment = mount.fragment ∧ ∃ row : Row,
        row.IsFrom start child ∧
        start.Unpacking t parent later (rows ++ [row]) rest final := by
  -- A node is only moved; while anything else is rendered, the fragments that
  -- wait are left alone.
  by_cases node : ∃ n, child = .node n
  · obtain ⟨n, rfl⟩ := node
    exact .act ⟨rfl, _, rfl, unpacking.push compatible⟩
  simp only [not_exists] at node
  have isChild := unpacking.left.subset (.head _)
  have concerns : start.Handles t child := .inl (compatible.composes isChild)
  obtain ⟨left, new, told, listed, seating, intact⟩ := id unpacking
  rw [List.flatMap_cons, Member.brings_eq_tops node] at seating
  have seated := seats_mountMember
    (fun among kept v world inside scope =>
      mounts among kept v world inside scope.guard)
    (fun among kept t path world inside scope =>
      nests among kept t path world inside scope.guard)
    compatible.settled_handles concerns seating path record
  have employs : start.Employs t child := ⟨child, isChild, node, .refl _ _⟩
  have aside := leaves_mountMember (unpacking.scope compatible) (mounts _ _)
    (nests _ _) path (unpacking.aside compatible) employs record (.refl world)
  refine (aside.and_ensures seated).weaken ?_
  rintro later final ⟨⟨same, aside, leaves⟩, _, row, isOf, collections, after⟩
  refine ⟨same, row, .of_isOf node isOf,
    (List.sublist_cons_self _ _).trans left, ⟨new.1, same ▸ new.2⟩, ?_,
    aside.collections, ?_, fun n donates => ?_⟩
  · rw [collections, told, List.map_append, List.map_singleton,
      Row.anchors_concat, Row.nodes_front isOf, Row.anchors_front]
  · rw [same, List.flatMap_append, List.flatMap_singleton]
    exact after
  · have waits := donates.mono (List.subset_cons_self child rest)
    exact (leaves.children n waits).trans (intact n waits)

/-- All children bring what they bring. -/
theorem unpacks_mountMembers {members : List Member}
    (unpacking : start.Unpacking t parent mount rows members world)
    (path : DefinitionPath) (index : Nat) (record : Record) :
    (mountMembers mounter nested path index mount members).Ensures record world
      fun later final => later.fragment = mount.fragment ∧
        ∃ more : List Row, List.Forall₂ (Row.IsFrom start) members more ∧
        start.Unpacking t parent later (rows ++ more) [] final := by
  induction members generalizing index mount rows record world with
  | nil =>
      refine .pure ⟨rfl, [], .nil, ?_⟩
      rwa [List.append_nil]
  | cons child rest ih =>
      rw [mountMembers]
      refine (unpacks_mountMember compatible mounts nests unpacking
        (path ++ [index]) record).bind fun next recorded world first => ?_
      obtain ⟨same, row, mine, after⟩ := first
      refine .keeping (.weaken (ih (after.enter _) (index + 1) recorded) ?_)
      rintro later final ⟨unchanged, more, others, last⟩
      refine ⟨unchanged.trans same, row :: more, .cons mine others, ?_⟩
      simpa using after.leave unchanged last

end Blueprint

end LiveTemplate
