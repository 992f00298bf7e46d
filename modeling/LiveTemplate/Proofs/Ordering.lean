import Mathlib.Data.List.Chain
import LiveTemplate.Proofs.Placement
import LiveTemplate.Proofs.Upkeep

/-!
# Collections among their siblings

An element that has been rendered keeps its children in the order of the
definition, whatever is done to its collections, as long as each collection that
is empty still finds the node that comes after it.  It does if that node is no
member of another collection, in particular if the definition has just one
collection.

The anchor of a collection is not told when another collection gets its first
member or loses the one that was the anchor.  One of the lists of `Shelf` has
children that change places that way.
-/

namespace LiveTemplate

section Rendered

variable {σ : Type} {host : Host σ} {t : TemplateId} {parent : NodeId}
  {start final later : World σ}

/-- The lots of the nodes around one collection. -/
def Lot.around (before : List NodeId) (c : CollectionId) (after : List NodeId) :
    List Lot :=
  before.map .fixed ++ .members c :: after.map .fixed

/-- No collection comes right after another one. -/
def Member.Separated (children : List Member) : Prop :=
  children.IsChain fun one next => one.collection? = none ∨
    next.collection? = none

instance (children : List Member) : Decidable (Member.Separated children) :=
  inferInstanceAs (Decidable (List.IsChain _ _))

namespace World

/-- Mounted members of one collection come before those of another. -/
def Precedes (parent : NodeId) (c d : CollectionId) (world : World σ) : Prop :=
  ∀ v ∈ (world.collection c).members, ∀ w ∈ (world.collection d).members,
    ∀ n m, Collection.mounted? world parent v = some n →
      Collection.mounted? world parent w = some m →
        (world.dom.children parent).idxOf n < (world.dom.children parent).idxOf m

/-- Collections have their mounted members in the order of a definition. -/
def KeepsOrder (parent : NodeId) (children : List Member) (world : World σ) :
    Prop :=
  ∀ front c between d back,
    children = front ++ .collection c :: (between ++ .collection d :: back) →
      world.Precedes parent c d

variable {children : List Member} {lots : List Lot} {c : CollectionId}

/-- The children around a collection have their lots around its own. -/
theorem holds_split {front back : List Member}
    (holds : List.Forall₂ (start.Holds final) (front ++ .collection c :: back)
      lots) :
    ∃ ahead behind, lots = ahead ++ .members c :: behind ∧
      List.Forall₂ (start.Holds final) front ahead ∧
      List.Forall₂ (start.Holds final) back behind := by
  have ahead := List.forall₂_take front.length holds
  have rest := List.forall₂_drop front.length holds
  rw [List.take_left] at ahead
  rw [List.drop_left] at rest
  obtain ⟨lot, behind, same, back, split⟩ := List.forall₂_cons_left_iff.mp rest
  refine ⟨_, behind, ?_, ahead, back⟩
  rw [← show lot = .members c from same, ← split, List.take_append_drop]

theorem eq_collection_of_holds {child : Member}
    (holds : start.Holds final child (.members c)) : child = .collection c := by
  cases child with
  | collection d =>
      cases holds
      rfl
  | _ =>
      obtain ⟨n, impossible, _⟩ := holds
      cases impossible

private theorem holds_split_lots {ahead behind : List Lot}
    (holds : List.Forall₂ (start.Holds final) children
      (ahead ++ .members c :: behind)) :
    ∃ front back, children = front ++ .collection c :: back ∧
      List.Forall₂ (start.Holds final) back behind := by
  have rest := List.forall₂_drop ahead.length holds
  rw [List.drop_left] at rest
  obtain ⟨child, back, mine, others, split⟩ :=
    List.forall₂_cons_right_iff.mp rest
  refine ⟨children.take ahead.length, back, ?_, others⟩
  rw [← eq_collection_of_holds mine, ← split, List.take_append_drop]

theorem nodes_of_holds (alone : ∀ d, .collection d ∉ children)
    (holds : List.Forall₂ (start.Holds final) children lots) :
    ∃ nodes, lots = nodes.map .fixed ∧
      List.Forall₂ (fun child n => start.Seats final ⟨child, n⟩) children
        nodes := by
  induction holds with
  | nil => exact ⟨[], rfl, .nil⟩
  | @cons child lot _ _ first _ ih =>
      obtain ⟨nodes, rfl, seated⟩ := ih fun d member => alone d (.tail _ member)
      cases child with
      | collection d => exact absurd (.head _) (alone d)
      | _ =>
          obtain ⟨n, rfl, seat⟩ := first
          exact ⟨n :: nodes, rfl, .cons seat seated⟩

/-- Lots that come one after the other have their nodes in that order. -/
theorem IsLaidOut.precedes (laid : later.IsLaidOut parent lots)
    {ahead between behind : List Lot} {c d : CollectionId}
    (split : lots = ahead ++ .members c :: (between ++ .members d :: behind)) :
    later.Precedes parent c d := by
  intro v isMember w isOther n m mounted other
  have first : n ∈ later.elements (later.collection c).members :=
    List.mem_filterMap.mpr ⟨v, isMember, (Option.mem_filter_iff.mp mounted).1⟩
  have second : m ∈ later.elements (later.collection d).members :=
    List.mem_filterMap.mpr ⟨w, isOther, (Option.mem_filter_iff.mp other).1⟩
  have children : later.dom.children parent =
      (ahead.flatMap (Lot.nodes later) ++
        later.elements (later.collection c).members) ++
      (between.flatMap (Lot.nodes later) ++
        (later.elements (later.collection d).members ++
          behind.flatMap (Lot.nodes later))) := by
    rw [laid.children, split]
    simp [Lot.nodes]
  have nodup := laid.tidy.nodup parent
  rw [children] at nodup ⊢
  have inFront : n ∈ ahead.flatMap (Lot.nodes later) ++
      later.elements (later.collection c).members :=
    List.mem_append_right _ first
  have notInFront : m ∉ ahead.flatMap (Lot.nodes later) ++
      later.elements (later.collection c).members := fun member =>
    (List.nodup_append.mp nodup).2.2 m member m
      (List.mem_append_right _ (List.mem_append_left _ second)) rfl
  rw [List.idxOf_append_of_mem inFront, List.idxOf_append_of_notMem notInFront]
  exact Nat.lt_add_right _ (List.idxOf_lt_length_of_mem inFront)

namespace Arranges

variable (arranges : start.Arranges children parent lots final)

include arranges

/-- Children that are lined up are in the order of the definition. -/
theorem keepsOrder (laid : later.IsLaidOut parent lots) :
    later.KeepsOrder parent children := by
  rintro front c between d back rfl
  obtain ⟨ahead, rest, split, _, holds⟩ := holds_split arranges.holds
  obtain ⟨middle, behind, rfl, _⟩ := holds_split holds
  exact laid.precedes split

/-- A collection in front of a node that stays, or behind all others, finds its
place whenever it is empty. -/
theorem isReady (laid : later.IsLaidOut parent lots)
    (kept : KeepsAnchors lots final later) {ahead behind : List Lot}
    (split : lots = ahead ++ .members c :: behind)
    (next : ∀ d, behind.head? ≠ some (.members d)) :
    later.IsReady parent lots c := by
  intro _ front back same
  obtain ⟨absent, others⟩ := laid.apart_of_split split
  rw [split] at same
  obtain ⟨rfl, _, rfl⟩ :=
    (List.append_cons_inj_of_notMem absent others).mp same
  rw [kept c (by simp [split]), arranges.anchored _ _ _ split]
  cases behind with
  | nil => rfl
  | cons lot rest =>
      cases lot with
      | members d => exact absurd rfl (next d)
      | fixed n =>
          have child : n ∈ later.dom.children parent := by
            rw [laid.children, split]
            simp [Lot.nodes]
          have above := (laid.tidy.linked parent n).mp child
          simp [Lot.nodes, above]

/-- A definition without neighbouring collections has none among its lots. -/
theorem next_of_separated (separated : Member.Separated children)
    {ahead behind : List Lot} (split : lots = ahead ++ .members c :: behind)
    (d : CollectionId) : behind.head? ≠ some (.members d) := by
  intro next
  cases behind with
  | nil => cases next
  | cons lot rest =>
      cases next
      have holds := arranges.holds
      rw [split] at holds
      obtain ⟨front, back, parts, others⟩ := holds_split_lots holds
      obtain ⟨child, more, mine, _, rfl⟩ :=
        List.forall₂_cons_right_iff.mp others
      rw [parts, eq_collection_of_holds mine] at separated
      have one := (List.isChain_append_cons_cons.mp separated).2.1
      simp [Member.collection?] at one

end Arranges

/-- The children of a node are those around a collection and, in between, the
elements of its members. -/
structure InSync (parent : NodeId) (before : List NodeId) (c : CollectionId)
    (after : List NodeId) (world : World σ) : Prop where
  rooted : ∀ v ∈ (world.collection c).members,
    ∃ n, (world.view v).element = some n
  children : world.dom.children parent =
    before ++ world.elements (world.collection c).members ++ after

theorem IsLaidOut.inSync {before after : List NodeId}
    (laid : later.IsLaidOut parent (Lot.around before c after)) :
    later.InSync parent before c after where
  rooted v member := by
    obtain ⟨n, root⟩ := laid.rooted c (by simp [Lot.around]) v member
    exact ⟨n, element_of_root? root⟩
  children := by
    rw [laid.children]
    simp [Lot.around, Lot.nodes, List.flatMap_map]

end World

namespace Template

variable (renders : Template.RendersTo host t start parent final)
  (orderly : start.IsOrderly t)
  (minds : host.Minds (start.Composes (.template t)) fun _ => False)

include renders orderly minds

/-- An element with one collection among its children has, after it has been
rendered and whatever is then done to the collection, the nodes of the children
before it, the elements of its members in their order, and the nodes of the
children after it.  A view that comes to no element is not added. -/
theorem collection_stays_in_sync {pre post : List Member} {c : CollectionId}
    (children : (start.template t).blueprint.children =
      pre ++ .collection c :: post)
    (alone : ∀ d, .collection d ∉ pre ++ post) :
    ∃ before after : List NodeId,
      List.Forall₂ (fun child n => start.Seats final ⟨child, n⟩) pre before ∧
      List.Forall₂ (fun child n => start.Seats final ⟨child, n⟩) post after ∧
      (final.collection c).members = (start.collection c).members ∧
      ∀ later, final.Tended host parent (Lot.around before c after)
          (fun _ _ => True) later →
        later.InSync parent before c after ∧
        ∀ v index, later.Welcomes host parent (Lot.around before c after) v →
          let outcome := (Collection.addAt host c index v).result later
          let added := (Collection.addAt host c index v).after later
          ((added.view v).element = none → ∃ error, outcome = .error error) ∧
          ∀ error, outcome = .error error →
            (added.collection c).members = (later.collection c).members ∧
            added.dom.children parent = later.dom.children parent := by
  obtain ⟨lots, arranges⟩ := renders.arranges orderly minds
  obtain ⟨ahead, behind, rfl, front, back⟩ :=
    World.holds_split (children ▸ arranges.holds)
  obtain ⟨before, rfl, seatedBefore⟩ := World.nodes_of_holds
    (fun d member => alone d (List.mem_append_left _ member)) front
  obtain ⟨after, rfl, seatedAfter⟩ := World.nodes_of_holds
    (fun d member => alone d (List.mem_append_right _ member)) back
  have inside : Lot.members c ∈ Lot.around before c after := by
    simp [Lot.around]
  refine ⟨before, after, seatedBefore, seatedAfter, arranges.members c inside,
    fun later tended => ?_⟩
  have laid : later.IsLaidOut parent (Lot.around before c after) := by
    refine (arranges.laid.tended (fun world d here kept member _ => ?_)
      tended).1
    have same : d = c := by simpa [Lot.around] using member
    subst same
    refine arranges.isReady here kept rfl fun e next => ?_
    cases after <;> cases next
  refine ⟨laid.inSync, fun v index welcome => ⟨fun none => ?_,
    fun error failed => ?_⟩⟩
  · cases outcome : (Collection.addAt host c index v).result later with
    | error error => exact ⟨error, rfl⟩
    | ok =>
        obtain ⟨⟨n, element⟩, _⟩ := laid.addAt_ok welcome inside index outcome
        rw [none] at element
        cases element
  · obtain ⟨_, same, rows⟩ := laid.addAt_error welcome inside index failed
    exact ⟨by rw [rows c inside], same⟩

/-- Rendering lines the children up in the order of the definition.  They stay
in that order as long as views are added only to collections that have members
or the right anchor, and adding a view to any other breaks it.  If no collection
comes right after another one, every collection has the right anchor for good. -/
theorem collections_keep_order :
    ∃ lots, List.Forall₂ (start.Holds final)
        (start.template t).blueprint.children lots ∧
      (∀ later, final.Tended host parent lots
          (fun world c => world.IsReady parent lots c) later →
        later.IsLaidOut parent lots ∧
        later.KeepsOrder parent (start.template t).blueprint.children ∧
        ∀ c v index, .members c ∈ lots → later.Welcomes host parent lots v →
          (Collection.addAt host c index v).result later = .ok () →
          (((Collection.addAt host c index v).after later).IsLaidOut parent
            lots ↔ later.IsReady parent lots c)) ∧
      (Member.Separated (start.template t).blueprint.children →
        ∀ later, final.Tended host parent lots (fun _ _ => True) later →
          later.IsLaidOut parent lots ∧
          later.KeepsOrder parent (start.template t).blueprint.children) := by
  obtain ⟨lots, arranges⟩ := renders.arranges orderly minds
  refine ⟨lots, arranges.holds, fun later tended => ?_,
    fun separated later tended => ?_⟩
  · have laid := (arranges.laid.tended (fun _ _ _ _ _ ready => ready) tended).1
    exact ⟨laid, arranges.keepsOrder laid, fun c v index inside welcome ok =>
      (laid.addAt_ok welcome inside index ok).2⟩
  · have laid := (arranges.laid.tended (fun world c here kept inside _ => by
      obtain ⟨ahead, behind, split⟩ := List.append_of_mem inside
      exact arranges.isReady here kept split
        (arranges.next_of_separated separated split)) tended).1
    exact ⟨laid, arranges.keepsOrder laid⟩

end Template

end Rendered

namespace Template

namespace Shelf

/-- An element without attributes. -/
def plain (tag : String) : NodeKind :=
  .element Selector.htmlNamespace tag []

/-- The elements of three views, and a rule. -/
def page : Dom :=
  ((((Dom.empty.create (plain "b")).2.create (plain "i")).2.create
    (plain "u")).2.create (plain "hr")).2

/-- A list with the given children that has not been rendered. -/
def list (children : List Member) : Template :=
  ⟨⟨some "ul", none, none, [], [], children⟩, false, none⟩

/-- What a view has rendered. -/
def item (tag : String) : Template :=
  ⟨⟨some tag, none, none, [], [], []⟩, true, none⟩

/-- Three lists: one collection between a heading and a rule, two collections
around a rule, and two collections in front of it.  Three views have been
rendered, the first of which is in the first collection; the last view has no
template and came to nothing. -/
def start : World Unit :=
  { World.initial () with
    dom := page
    properties := ⟨#[[], [], [], []]⟩
    emitters := ⟨#[⟨[], []⟩, ⟨[], []⟩, ⟨[], []⟩, ⟨[], []⟩]⟩
    templates := ⟨#[⟨⟨some "h1", none, none, [], [], []⟩, false, none⟩,
      list [.template ⟨0⟩, .collection ⟨0⟩, .node ⟨3⟩],
      list [.collection ⟨0⟩, .node ⟨3⟩, .collection ⟨1⟩],
      list [.collection ⟨1⟩, .collection ⟨0⟩, .node ⟨3⟩],
      item "b", item "i", item "u"]⟩
    views := ⟨#[⟨⟨0⟩, ⟨0⟩, some ⟨4⟩, some ⟨0⟩, true, []⟩,
      ⟨⟨1⟩, ⟨1⟩, some ⟨5⟩, some ⟨1⟩, true, []⟩,
      ⟨⟨2⟩, ⟨2⟩, some ⟨6⟩, some ⟨2⟩, true, []⟩,
      ⟨⟨3⟩, ⟨3⟩, none, none, true, []⟩]⟩
    collections := ⟨#[⟨[⟨0⟩], none, none⟩, ⟨[], none, none⟩]⟩ }

/-- All that is in one of the lists. -/
def contents : List Member :=
  [.template ⟨0⟩, .template ⟨1⟩, .template ⟨2⟩, .template ⟨3⟩, .template ⟨4⟩,
    .collection ⟨0⟩, .collection ⟨1⟩, .view ⟨0⟩, .node ⟨3⟩]

theorem mem_contents {top inner : Member} (inside : top ∈ contents)
    (composes : start.Composes top inner) : inner ∈ contents := by
  have closed : ∀ member ∈ contents, ∀ part ∈ start.parts member,
      part ∈ contents := by decide
  exact composes.mem_of_closed closed inside

theorem isSettled {t : TemplateId} (inside : .template t ∈ contents) :
    start.IsSettled (start.Composes (.template t)) where
  tidy := (((Dom.isTidy_empty.create _).create _).create _).create _
  nodes n composes := by
    have member := mem_contents inside composes
    simp only [contents, List.mem_cons, reduceCtorEq, Member.node.injEq,
      List.not_mem_nil, or_false, false_or] at member
    rw [member]
    decide
  elements v n composes element := by
    have member := mem_contents inside composes
    simp only [contents, List.mem_cons, reduceCtorEq, Member.view.injEq,
      List.not_mem_nil, or_false, false_or] at member
    rw [member] at element
    cases element
    decide

theorem isOrderly {t : TemplateId} (listed : t ∈ [⟨1⟩, ⟨2⟩, ⟨3⟩]) :
    start.IsOrderly t := by
  have viewed : ∀ member ∈ [Member.view ⟨0⟩, .template ⟨4⟩],
      ∀ part ∈ start.parts member, part ∈ [Member.view ⟨0⟩, .template ⟨4⟩] := by
    decide
  have member : start.KeepApart (.view ⟨0⟩) (.node ⟨3⟩) := by
    refine .of_closed viewed (World.closed_of_no_parts rfl) (.head _) (.head _)
      (by decide) fun a mine b theirs r root => ?_
    rcases List.mem_pair.mp mine with rfl | rfl
    · cases root
      rw [List.mem_singleton.mp theirs]
      decide
    · cases root
  have heading {other : Member} {among : List Member}
      (closed : ∀ member ∈ among, ∀ part ∈ start.parts member, part ∈ among)
      (there : other ∈ among)
      (differs : .template ⟨0⟩ ∉ among ∧ other ∉ [Member.template ⟨0⟩]) :
      start.KeepApart (.template ⟨0⟩) other := by
    refine .of_closed (World.closed_of_no_parts rfl) closed (.head _) there
      differs fun a mine b _ r root => ?_
    rw [List.mem_singleton.mp mine] at root
    cases root
  have pair : [Member.view ⟨0⟩, .node ⟨3⟩].Pairwise start.KeepApart :=
    List.pairwise_pair.mpr member
  simp only [List.mem_cons, List.not_mem_nil, or_false] at listed
  refine ⟨?_, isSettled ?_, fun n isChild => ?_, ?_, ?_⟩
  · rcases listed with rfl | rfl | rfl <;> rfl
  · rcases listed with rfl | rfl | rfl <;> decide
  · have same : n = ⟨3⟩ := by
      rcases listed with rfl | rfl | rfl <;>
        simpa [start, list, World.template, Store.get] using isChild
    rw [same]
    rfl
  · rcases listed with rfl | rfl | rfl
    · refine .cons (fun other isTop => ?_) pair
      rcases List.mem_pair.mp isTop with rfl | rfl
      · exact heading viewed (.head _) (by decide)
      · exact heading (World.closed_of_no_parts rfl) (.head _) (by decide)
    · exact pair
    · exact pair
  · rcases listed with rfl | rfl | rfl <;> decide

/-- What a list comes to when it is rendered. -/
def rendered (t : TemplateId) : World Unit :=
  (Template.render Host.quiet t).after start

theorem renders {t : TemplateId} (listed : t ∈ [⟨1⟩, ⟨2⟩, ⟨3⟩]) :
    Template.RendersTo Host.quiet t start ⟨4⟩ (rendered t) := by
  refine .alone ?_
  simp only [List.mem_cons, List.not_mem_nil, or_false] at listed
  rcases listed with rfl | rfl | rfl <;> decide +kernel

theorem welcomes {world : World Unit} {lots : List Lot} {v : ViewId}
    (plain : ∀ t ∈ (world.view v).template,
      (world.template t).blueprint.children = [])
    (new : ∀ n ∈ (world.view v).element,
      (n.index < world.dom.nodes.size ∧ world.dom.isFragment n = false) ∧
        n ≠ ⟨4⟩ ∧ n ∉ world.dom.children ⟨4⟩) :
    world.Welcomes Host.quiet ⟨4⟩ lots v := by
  exact .of_plain plain new (Host.minds_quiet _ _)

/-- The list with the heading when the second view has been put in front of the
first one, and that one removed. -/
def changed : World Unit :=
  (Collection.remove ⟨0⟩ 1).after
    ((Collection.addAt Host.quiet ⟨0⟩ 0 ⟨1⟩).after (rendered ⟨1⟩))

end Shelf

/-- Members stand between the heading and the rule, and a view without an
element does not become one. -/
theorem collection_stays_in_sync_shelf :
    (∃ before after,
      Shelf.changed.InSync ⟨4⟩ before ⟨0⟩ after ∧
        before.length = 1 ∧ after = [⟨3⟩]) ∧
      Shelf.changed.dom.outerHtml ⟨4⟩ = "<ul><h1></h1><i></i><hr></ul>" ∧
      ∃ error,
        (Collection.addAt Host.quiet ⟨0⟩ 0 ⟨3⟩).result Shelf.changed =
          .error error := by
  have children : (Shelf.start.template ⟨1⟩).blueprint.children =
      [.template ⟨0⟩] ++ .collection ⟨0⟩ :: [.node ⟨3⟩] := rfl
  obtain ⟨before, after, ahead, behind, _, synced⟩ := collection_stays_in_sync
    (Shelf.renders (t := ⟨1⟩) (by decide)) (Shelf.isOrderly (by decide))
    (Host.minds_quiet _ _) children (by simp)
  have added : (Shelf.rendered ⟨1⟩).Tended Host.quiet ⟨4⟩
      (Lot.around before ⟨0⟩ after) (fun _ _ => True) _ :=
    .addAt (c := ⟨0⟩) (v := ⟨1⟩) 0 .start (by simp [Lot.around]) trivial
      (Shelf.welcomes (by decide +kernel) (by decide +kernel))
  obtain ⟨inSync, adding⟩ := synced Shelf.changed
    (added.remove 1 (by simp [Lot.around]))
  obtain ⟨fails, _⟩ := adding ⟨3⟩ 0
    (Shelf.welcomes (by decide +kernel) (by decide +kernel))
  have alone : after = [⟨3⟩] := by
    obtain ⟨n, _, seat, rest, rfl⟩ := List.forall₂_cons_left_iff.mp behind
    cases rest
    rw [show n = ⟨3⟩ from seat]
  exact ⟨⟨before, after, inSync, ahead.length_eq.symm, alone⟩,
    by decide +kernel, fails (by decide +kernel)⟩

/-- The rule stays between the members of two collections. -/
theorem collections_keep_order_shelf :
    let later := (Collection.add Host.quiet ⟨0⟩ ⟨2⟩).after
      ((Collection.add Host.quiet ⟨1⟩ ⟨1⟩).after (Shelf.rendered ⟨2⟩))
    later.Precedes ⟨4⟩ ⟨0⟩ ⟨1⟩ ∧
      later.dom.outerHtml ⟨4⟩ = "<ul><b></b><u></u><hr><i></i></ul>" := by
  intro later
  obtain ⟨lots, holds, _, separated⟩ := collections_keep_order
    (Shelf.renders (t := ⟨2⟩) (by decide)) (Shelf.isOrderly (by decide))
    (Host.minds_quiet _ _)
  change List.Forall₂ (Shelf.start.Holds (Shelf.rendered ⟨2⟩))
    [.collection ⟨0⟩, .node ⟨3⟩, .collection ⟨1⟩] lots at holds
  rcases holds with _ | ⟨first, _ | ⟨_, _ | ⟨second, _⟩⟩⟩
  cases show _ = Lot.members ⟨0⟩ from first
  cases show _ = Lot.members ⟨1⟩ from second
  refine ⟨(separated (by decide) later ?_).2 [] ⟨0⟩ [.node ⟨3⟩] ⟨1⟩ [] rfl,
    by decide +kernel⟩
  refine .add (.add .start (.tail _ (.tail _ (.head _))) trivial ?_) (.head _)
    trivial ?_
  · exact Shelf.welcomes (by decide +kernel) (by decide +kernel)
  · exact Shelf.welcomes (by decide +kernel) (by decide +kernel)

/-- In front of another collection the anchor is that one's first member.  When
it has been removed, the empty collection takes its first member to the end. -/
theorem collections_lose_order :
    let lots := [.members ⟨1⟩, .members ⟨0⟩, .fixed ⟨3⟩]
    let filled := (Collection.add Host.quiet ⟨0⟩ ⟨1⟩).after (Shelf.rendered ⟨3⟩)
    let later := (Collection.add Host.quiet ⟨1⟩ ⟨2⟩).after
      ((Collection.remove ⟨0⟩ 0).after filled)
    RendersTo Host.quiet ⟨3⟩ Shelf.start ⟨4⟩ (Shelf.rendered ⟨3⟩) ∧
      Shelf.start.IsOrderly ⟨3⟩ ∧
      (Shelf.rendered ⟨3⟩).Tended Host.quiet ⟨4⟩ lots (fun _ _ => True) later ∧
      (Shelf.start.template ⟨3⟩).blueprint.children =
        [.collection ⟨1⟩, .collection ⟨0⟩, .node ⟨3⟩] ∧
      ¬later.Precedes ⟨4⟩ ⟨1⟩ ⟨0⟩ := by
  intro lots filled later
  have one : (Shelf.rendered ⟨3⟩).Tended Host.quiet ⟨4⟩ lots (fun _ _ => True)
      filled := .add .start (.tail _ (.head _)) trivial
    (Shelf.welcomes (by decide +kernel) (by decide +kernel))
  have two := one.remove (c := ⟨0⟩) 0 (.tail _ (.head _))
  refine ⟨Shelf.renders (by decide), Shelf.isOrderly (by decide),
    .add two (.head _) trivial
      (Shelf.welcomes (by decide +kernel) (by decide +kernel)), rfl,
    fun precedes => ?_⟩
  have inFront := precedes ⟨2⟩ (by decide +kernel) ⟨1⟩ (by decide +kernel) ⟨2⟩
    ⟨1⟩ (by decide +kernel) (by decide +kernel)
  exact absurd inFront (by decide +kernel)

end Template

end LiveTemplate
