import LiveTemplate.Proofs.Lineup

/-!
# Collections in use

Views are added to collections and taken out again.  A view that is added is
rendered first, which may run code of the client and may go wrong; only then
does its element get its place.

`World.Welcomes` says which views may be added, `World.Tended` what may happen
to the collections of an element, and `World.IsLaidOut.tended` that the children
stay lined up as long as no view is added to a collection that is not ready.
-/

namespace LiveTemplate

variable {σ : Type} {host : Host σ} {parent : NodeId} {lots : List Lot}

namespace World

/-- What is involved in adding a view: what it is composed of, and the lots. -/
def Involves (world : World σ) (lots : List Lot) (v : ViewId)
    (member : Member) : Prop :=
  world.Composes (.view v) member ∨ world.LinesUp lots member

/-- A view is new to some children: its element and what it is rendered from
are not among them, and it brings none of the collections along.  Transforms
mind their own business meanwhile. -/
structure Welcomes (host : Host σ) (parent : NodeId) (lots : List Lot)
    (world : World σ) (v : ViewId) : Prop where
  there : ∀ u n, world.Composes (.view v) (.view u) →
    (world.view u).element = some n →
      n.index < world.dom.nodes.size ∧ world.dom.isFragment n = false
  free : ∀ inner r, world.Composes (.view v) inner →
    inner.root? world = some r →
      r ≠ parent ∧ r ∉ world.dom.children parent
  apart : ∀ c, .members c ∈ lots → ¬world.Composes (.view v) (.collection c)
  minds : host.Minds (world.Involves lots v) (· = parent)

variable {world later : World σ}

theorem Composes.of_plain {v : ViewId}
    (plain : ∀ t, (world.view v).template = some t →
      (world.template t).blueprint.children = []) {inner : Member}
    (inside : world.Composes (.view v) inner) :
    inner = .view v ∨ ∃ t, inner = .template t := by
  let members := .view v :: world.parts (.view v)
  have closed : ∀ member ∈ members, ∀ part ∈ world.parts member,
      part ∈ members := by
    intro member listed part isPart
    rcases List.mem_cons.mp listed with rfl | listed
    · exact .tail _ isPart
    · obtain ⟨t, found, rfl⟩ := List.mem_map.mp listed
      rw [parts, plain t (Option.mem_toList.mp found)] at isPart
      cases isPart
  rcases List.mem_cons.mp (inside.mem_of_closed closed (.head _)) with
    same | listed
  · exact .inl same
  · obtain ⟨t, _, same⟩ := List.mem_map.mp listed
    exact .inr ⟨t, same.symm⟩

/-- A view whose template has no children is welcome if its element is new to
the children. -/
theorem Welcomes.of_plain {v : ViewId}
    (plain : ∀ t, (world.view v).template = some t →
      (world.template t).blueprint.children = [])
    (new : ∀ n, (world.view v).element = some n →
      (n.index < world.dom.nodes.size ∧ world.dom.isFragment n = false) ∧
        n ≠ parent ∧ n ∉ world.dom.children parent)
    (minds : host.Minds (world.Involves lots v) (· = parent)) :
    world.Welcomes host parent lots v where
  there u n inside element := by
    rcases inside.of_plain plain with same | ⟨t, same⟩
    · cases same
      exact (new n element).1
    · cases same
  free inner r inside root := by
    rcases inside.of_plain plain with rfl | ⟨t, rfl⟩
    · exact (new r (element_of_root? root)).2
    · cases root
  apart c _ inside := by
    rcases inside.of_plain plain with same | ⟨t, same⟩
    · cases same
    · cases same
  minds := minds

namespace IsLaidOut

variable (laid : world.IsLaidOut parent lots) {v : ViewId}
  (welcome : world.Welcomes host parent lots v)

include laid welcome

theorem scope : world.Scope (world.Involves lots v) (world.Composes (.view v))
    (· = parent) (· = parent) := by
  have nothing : world.Leaves (world.Involves lots v) (fun _ => False)
    (fun _ => False) world := .refl world
  refine .of_composes nothing (fun _ => .inl) laid.tidy ?_
    (fun _ => .inl) ?_ ?_
  · rintro _ rfl
    exact laid.there
  · rintro u n (inside | ⟨c, inside, same | ⟨w, member, same⟩⟩) element
    · exact welcome.there u n inside element
    · cases same
    · cases same
      have child : n ∈ world.dom.children parent := by
        rw [laid.children, List.mem_flatMap]
        exact ⟨_, inside, List.mem_filterMap.mpr ⟨u, member, element⟩⟩
      exact ⟨laid.tidy.lt_size_of_mem child, laid.tidy.not_fragment child⟩
  · intro member r inside root
    obtain ⟨other, absent⟩ := welcome.free member r inside root
    exact ⟨other, fun n same => same ▸ absent⟩

/-- Mounting a welcome view leaves the children alone, and its element, if it
gets one, is none of them. -/
theorem mounting (c : CollectionId) :
    let later := (Collection.mounting host c v).after world
    world.Leaves (world.Involves lots v) (world.Composes (.view v))
      (· = parent) later ∧
    ∀ n, (Collection.mounting host c v).result world = .ok n →
      Member.root? later (.view v) = some n ∧
        later.dom.isFragment n = false ∧ n ∉ later.dom.children parent := by
  intro later
  have scope := laid.scope welcome
  obtain ⟨inner, comes⟩ := View.staysAside_mount welcome.minds v _ (.refl _ _)
    (scope.enter (.refs [.collection c, .view v]))
  have leaves : world.Leaves _ _ _ later :=
    inner.reframe (List.Subset.refl world.frames)
  refine ⟨leaves, fun n ok => ?_⟩
  have root : Member.root? later (.view v) = some n := (comes n ok).1
  have here := scope.onward leaves
  have element := element_of_root? root
  exact ⟨root, (here.elements v n (.inl (.refl _ _)) element).2,
    (here.free (.view v) n (.refl _ _) root).2 parent rfl⟩

variable {c : CollectionId} (inside : .members c ∈ lots) (index : Nat)

/-- Adding a view stops once mounting it has failed, or gives its element a
place. -/
theorem addAt_cases :
    let added := Collection.addAt host c index v
    let mounted := (Collection.mounting host c v).after world
    let place := min index (world.collection c).members.length
    (∃ error, added.result world = .error error ∧
      added.after world = mounted) ∨
    (∃ n, added.result world = .ok () ∧
      added.after world = Collection.seated
        (Collection.joined mounted c place v) c place n ∧
      Member.root? mounted (.view v) = some n ∧
      mounted.dom.isFragment n = false ∧ n ∉ mounted.dom.children parent) := by
  intro added mounted place
  have runs := Collection.run_addAt host c index v world
  obtain ⟨_, comes⟩ := laid.mounting welcome c
  cases outcome : (Collection.mounting host c v).result world with
  | error error =>
      rw [outcome] at runs
      exact .inl ⟨error, congrArg Prod.fst runs, congrArg Prod.snd runs⟩
  | ok n =>
      rw [outcome] at runs
      exact .inr ⟨n, congrArg Prod.fst runs, congrArg Prod.snd runs,
        comes n outcome⟩

include inside

/-- The children are lined up after mounting, and the collection is as ready as
it was. -/
theorem mounted :
    let mounted := (Collection.mounting host c v).after world
    mounted.IsLaidOut parent lots ∧
      (mounted.IsReady parent lots c ↔ world.IsReady parent lots c) ∧
      ∀ d, .members d ∈ lots → mounted.collection d = world.collection d := by
  obtain ⟨leaves, _⟩ := laid.mounting welcome c
  have concerns (member : Member) (lines : world.LinesUp lots member) :
      world.Involves lots v member := .inr lines
  exact ⟨laid.onward leaves concerns welcome.apart rfl,
    laid.isReady_onward leaves concerns welcome.apart rfl inside,
    fun d => collection_onward leaves concerns welcome.apart⟩

theorem addAt_error {error : TemplateError}
    (failed : (Collection.addAt host c index v).result world = .error error) :
    let later := (Collection.addAt host c index v).after world
    later.IsLaidOut parent lots ∧
      later.dom.children parent = world.dom.children parent ∧
      ∀ d, .members d ∈ lots → later.collection d = world.collection d := by
  intro later
  obtain ⟨laid', _, rows⟩ := laid.mounted welcome inside
  obtain ⟨leaves, _⟩ := laid.mounting welcome c
  rcases laid.addAt_cases (c := c) welcome index with
    ⟨_, _, after⟩ | ⟨n, ok, _⟩
  · rw [show later = _ from after]
    exact ⟨laid', leaves.children parent rfl, rows⟩
  · rw [failed] at ok
    cases ok

/-- A view that has been added has an element, and the children are lined up
exactly if the collection was ready. -/
theorem addAt_ok
    (added : (Collection.addAt host c index v).result world = .ok ()) :
    let later := (Collection.addAt host c index v).after world
    (∃ n, (later.view v).element = some n) ∧
      (later.IsLaidOut parent lots ↔ world.IsReady parent lots c) := by
  intro later
  obtain ⟨laid', ready, rows⟩ := laid.mounted welcome inside
  rcases laid.addAt_cases (c := c) welcome index with
    ⟨error, failed, _⟩ | ⟨n, _, after, root, solid, absent⟩
  · rw [added] at failed
    cases failed
  · have within : min index (world.collection c).members.length ≤
        (((Collection.mounting host c v).after world).collection
          c).members.length := by
      rw [rows c inside]
      exact Nat.min_le_right _ _
    rw [show later = _ from after, ← ready]
    refine ⟨⟨n, ?_⟩, laid'.seat_iff inside root solid absent within⟩
    rw [World.view, Collection.views_seated]
    exact element_of_root? root

/-- Whatever comes of it, adding a view to a collection that is ready leaves the
children lined up. -/
theorem addAt (ready : world.IsReady parent lots c) :
    ((Collection.addAt host c index v).after world).IsLaidOut parent lots := by
  cases outcome : (Collection.addAt host c index v).result world with
  | error error => exact (laid.addAt_error welcome inside index outcome).1
  | ok => exact (laid.addAt_ok welcome inside index outcome).2.mpr ready

end IsLaidOut

/-- The collections in some lots have the anchors they had. -/
def KeepsAnchors (lots : List Lot) (world later : World σ) : Prop :=
  ∀ c, .members c ∈ lots →
    (later.collection c).anchor = (world.collection c).anchor

namespace KeepsAnchors

theorem refl (lots : List Lot) (world : World σ) :
    KeepsAnchors lots world world := by
  intro _ _
  rfl

theorem trans {between : World σ} (first : KeepsAnchors lots world between)
    (second : KeepsAnchors lots between later) :
    KeepsAnchors lots world later := by
  intro c inside
  exact (second c inside).trans (first c inside)

private theorem of_collections (same : later.collections = world.collections) :
    KeepsAnchors lots world later := by
  intro c _
  rw [World.collection, World.collection, same]

theorem update (c : CollectionId) (members : Collection → List ViewId)
    (world : World σ) :
    KeepsAnchors lots world ((Collection.update c fun collection =>
      { collection with members := members collection }).after world) := by
  intro d _
  by_cases same : d = c
  · rw [same, Collection.collection_update]
  · rw [Collection.collection_update_of_ne _ _ same]

theorem detach (c : CollectionId) (v : ViewId) (world : World σ) :
    KeepsAnchors lots world ((Collection.detach c v).after world) := by
  rw [Collection.after_detach]
  split <;> exact fun _ _ => rfl

theorem remove (c : CollectionId) (index : Nat) (world : World σ) :
    KeepsAnchors lots world ((Collection.remove c index).after world) := by
  rw [Collection.after_remove]
  split
  · exact .refl lots world
  · exact (update c _ world).trans (detach c _ _)

theorem clear (c : CollectionId) (world : World σ) :
    KeepsAnchors lots world ((Collection.clear c).after world) := by
  rw [Collection.after_clear]
  exact (update c _ world).trans (Act.after_forM (refl lots) trans
    (fun v _ world => detach c v world) _)

theorem addAt (laid : world.IsLaidOut parent lots) {v : ViewId}
    (welcome : world.Welcomes host parent lots v) {c : CollectionId}
    (inside : .members c ∈ lots) (index : Nat) :
    KeepsAnchors lots world
      ((Collection.addAt host c index v).after world) := by
  obtain ⟨_, _, rows⟩ := laid.mounted welcome inside
  have mounted : KeepsAnchors lots world
      ((Collection.mounting host c v).after world) :=
    fun d member => by rw [rows d member]
  rcases laid.addAt_cases (c := c) welcome index with
    ⟨_, _, after⟩ | ⟨n, _, after, _⟩
  · rw [after]
    exact mounted
  · rw [after]
    exact mounted.trans ((update c _ _).trans
      (.of_collections (Collection.collections_seated _ _ _ _)))

end KeepsAnchors

/-- The collections among the children of a node are used: welcome views are
added where that is allowed, members are removed, and whatever else happens
leaves the children and the collections alone. -/
inductive Tended (host : Host σ) (parent : NodeId) (lots : List Lot)
    (allowed : World σ → CollectionId → Prop) (start : World σ) :
    World σ → Prop where
  | start : Tended host parent lots allowed start start
  | addAt {world : World σ} {c : CollectionId} {v : ViewId} (index : Nat) :
      Tended host parent lots allowed start world → .members c ∈ lots →
      allowed world c → world.Welcomes host parent lots v →
      Tended host parent lots allowed start
        ((Collection.addAt host c index v).after world)
  | add {world : World σ} {c : CollectionId} {v : ViewId} :
      Tended host parent lots allowed start world → .members c ∈ lots →
      allowed world c → world.Welcomes host parent lots v →
      Tended host parent lots allowed start
        ((Collection.add host c v).after world)
  | remove {world : World σ} {c : CollectionId} (index : Nat) :
      Tended host parent lots allowed start world → .members c ∈ lots →
      Tended host parent lots allowed start
        ((Collection.remove c index).after world)
  | clear {world : World σ} {c : CollectionId} :
      Tended host parent lots allowed start world → .members c ∈ lots →
      Tended host parent lots allowed start ((Collection.clear c).after world)
  | elsewhere {world later : World σ} :
      Tended host parent lots allowed start world →
      world.Leaves (world.LinesUp lots) (fun _ => False) (· = parent) later →
      Tended host parent lots allowed start later

/-- The children stay lined up as long as views are added to collections that
are ready. -/
theorem IsLaidOut.tended {start : World σ}
    (laid : start.IsLaidOut parent lots)
    {allowed : World σ → CollectionId → Prop}
    (ready : ∀ (world : World σ) c, world.IsLaidOut parent lots →
      KeepsAnchors lots start world → .members c ∈ lots → allowed world c →
        world.IsReady parent lots c)
    (tended : start.Tended host parent lots allowed later) :
    later.IsLaidOut parent lots ∧ KeepsAnchors lots start later := by
  induction tended with
  | start => exact ⟨laid, .refl lots start⟩
  | addAt index _ inside allows welcome ih =>
      obtain ⟨here, kept⟩ := ih
      exact ⟨here.addAt welcome inside index (ready _ _ here kept inside allows),
        kept.trans (.addAt here welcome inside index)⟩
  | add _ inside allows welcome ih =>
      obtain ⟨here, kept⟩ := ih
      rw [Collection.after_add]
      exact ⟨here.addAt welcome inside _ (ready _ _ here kept inside allows),
        kept.trans (.addAt here welcome inside _)⟩
  | remove index _ inside ih =>
      exact ⟨ih.1.remove inside index, ih.2.trans (.remove _ index _)⟩
  | clear _ inside ih => exact ⟨ih.1.clear inside, ih.2.trans (.clear _ _)⟩
  | elsewhere _ leaves ih =>
      have aside (c : CollectionId) (_ : Lot.members c ∈ lots) :
        ¬(fun _ : Member => False) (.collection c) := id
      exact ⟨ih.1.onward leaves (fun _ lines => lines) aside rfl,
        ih.2.trans fun c inside => by
          rw [collection_onward leaves (fun _ lines => lines) aside inside]⟩

end World

end LiveTemplate
