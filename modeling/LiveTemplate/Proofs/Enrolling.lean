import LiveTemplate.Proofs.Grafting
import LiveTemplate.Proofs.Severance
import LiveTemplate.Proofs.Upholding

/-!
# Applying only adds listeners

A pass whose transforms only compute gives nothing up: the listeners that were
there stay where they are, and new ones come behind them.  As its record can
give up all the new ones, what was there before is what is left when it does.
-/

namespace LiveTemplate

variable {σ : Type}

namespace World

/-- New listeners came behind those that were there. -/
structure Enrolls (world later : World σ) : Prop where
  reactions : ∀ o, ∃ added,
    (later.reactionsOf o).entries = (world.reactionsOf o).entries ++ added ∧
      ∀ listener ∈ added, ¬world.Issued ⟨.observable o, listener.id⟩
  eventActions : ∀ n, ∃ added,
    (later.eventActionsOf n).entries =
        (world.eventActionsOf n).entries ++ added ∧
      ∀ listener ∈ added, ¬world.Issued ⟨.node n, listener.id⟩
  next : ∀ source, world.nextAt source ≤ later.nextAt source

namespace Enrolls

variable {world between later : World σ}

theorem aside (reactions : later.reactions = world.reactions)
    (eventActions : later.eventActions = world.eventActions) :
    Enrolls world later where
  reactions o := by
    unfold reactionsOf
    rw [reactions]
    exact ⟨[], (List.append_nil _).symm, fun _ member => by cases member⟩
  eventActions n := by
    unfold eventActionsOf
    rw [eventActions]
    exact ⟨[], (List.append_nil _).symm, fun _ member => by cases member⟩
  next source := Nat.le_of_eq (nextAt_congr reactions eventActions source).symm

theorem append {α : Type} {source : Source} {old middle new : List (Listener α)}
    (advance : world.nextAt source ≤ between.nextAt source)
    (first : ∃ added, middle = old ++ added ∧
      ∀ listener ∈ added, ¬world.Issued ⟨source, listener.id⟩)
    (second : ∃ added, new = middle ++ added ∧
      ∀ listener ∈ added, ¬between.Issued ⟨source, listener.id⟩) :
    ∃ added, new = old ++ added ∧
      ∀ listener ∈ added, ¬world.Issued ⟨source, listener.id⟩ := by
  obtain ⟨added, rfl, unissued⟩ := first
  obtain ⟨more, rfl, unissuedAgain⟩ := second
  refine ⟨added ++ more, List.append_assoc _ _ _, fun listener member => ?_⟩
  rcases List.mem_append.mp member with before | after
  · exact unissued listener before
  · exact fun issued =>
      unissuedAgain listener after (Nat.lt_of_lt_of_le issued advance)

theorem trans (first : Enrolls world between)
    (second : Enrolls between later) : Enrolls world later where
  reactions o := append (first.next _) (first.reactions o) (second.reactions o)
  eventActions n :=
    append (first.next _) (first.eventActions n) (second.eventActions n)
  next source := Nat.le_trans (first.next source) (second.next source)

theorem listenToObservable (e : EmitterId) (o : ObservableId) (event : String)
    (reaction : Reaction) :
    (Emitter.listenToObservable e o event reaction).Within
      (Enrolls (σ := σ)) := by
  intro world
  have added := Observable.added_subscribe world o event reaction
  refine ⟨fun other => ?_, fun n => ⟨[], (List.append_nil _).symm,
    fun _ member => by cases member⟩, added.step.next⟩
  by_cases same : other = o
  · subst same
    refine ⟨_, Emitter.entries_listenToObservable_self e other event reaction
      world, fun listener member => ?_⟩
    rw [List.mem_singleton.mp member]
    exact Nat.lt_irrefl _
  · rw [Emitter.reactionsOf_listenToObservable_of_ne e event reaction world
      same]
    exact ⟨[], (List.append_nil _).symm, fun _ member => by cases member⟩

theorem listenToNode (e : EmitterId) (n : NodeId) (type : String)
    (action : EventAction) :
    (Emitter.listenToNode e n type action).Within (Enrolls (σ := σ)) := by
  intro world
  have added := NodeEvents.added_subscribe world n type action
  have subscribed (other : NodeId) :
      ((Emitter.listenToNode e n type action).after world).eventActionsOf
        other = ((NodeEvents.subscribe n type action).after
          world).eventActionsOf other := rfl
  refine ⟨fun o => ⟨[], (List.append_nil _).symm,
    fun _ member => by cases member⟩, fun other => ?_, added.step.next⟩
  rw [subscribed, NodeEvents.after_subscribe]
  by_cases same : other = n
  · subst same
    rw [NodeEvents.eventActionsOf_modifyActions_self]
    refine ⟨_, rfl, fun listener member => ?_⟩
    rw [List.mem_singleton.mp member]
    exact Nat.lt_irrefl _
  · rw [NodeEvents.eventActionsOf_modifyActions_of_ne _ _ same]
    exact ⟨[], (List.append_nil _).symm, fun _ member => by cases member⟩

end Enrolls

end World

/-- Calling a transform never changes the world. -/
def Host.OnlyComputes (host : Host σ) : Prop :=
  ∀ handler value node world,
    (host.transform handler value node).after world = world

namespace Host.OnlyComputes

variable {host : Host σ} (computes : host.OnlyComputes)

include computes

theorem isPure (binding : Binding) : binding.IsPure host := by
  intro handler _
  exact computes handler

theorem template_isPure (world : World σ) (t : TemplateId) (n : NodeId) :
    Template.IsPure host world t n := by
  intro _ _ _
  exact .of_bindings computes.isPure

theorem transformsWithin (foreign : Subscription → Prop) :
    host.TransformsWithin foreign := by
  intro handler value node world _
  rw [computes]
  exact .refl world

theorem bears : host.Bears World.Enrolls where
  transform handler value node world := by
    rw [computes]
    exact .aside rfl rfl
  trans := World.Enrolls.trans
  aside reactions eventActions _ _ _ := .aside reactions eventActions
  listenToObservable := World.Enrolls.listenToObservable
  listenToNode := World.Enrolls.listenToNode

theorem enrolls_apply {t : TemplateId} {n m : NodeId} {world : World σ}
    (applied : (Template.apply host t n).result world = .ok m) :
    World.Enrolls world ((Template.apply host t n).after world) := by
  obtain ⟨record, node, _, ended⟩ := Template.apply_ok applied
  rw [ended]
  have passed := Template.within_applyPass computes.bears t n world
  exact passed.trans (.aside rfl rfl)

end Host.OnlyComputes

/-- The record of a pass without foreign listeners gives up those that are
new. -/
theorem Accounts.drops_iff {revokers : List RevokerId}
    {before after : World σ} (ordered : before.Ordered)
    (accounts : Accounts (fun _ => False) revokers before after)
    {subscription : Subscription} (present : after.Registered subscription) :
    after.drops revokers subscription = true ↔
      ¬before.Registered subscription := by
  rw [World.drops_iff]
  constructor
  · rintro ⟨r, member, held⟩ old
    exact (accounts.fresh r member).2.2 subscription held
      (ordered.listeners subscription old)
  · intro new
    rcases accounts.counted subscription present with old | none | found
    · exact absurd old new
    · exact none.elim
    · exact found

private theorem filter_appended {α : Type} {gone : α → Bool}
    {old added : List α}
    (kept : ∀ a ∈ old, gone a = false) (given : ∀ a ∈ added, gone a = true) :
    (old ++ added).filter (fun a => !gone a) = old := by
  have stay : old.filter (fun a => !gone a) = old :=
    List.filter_eq_self.mpr fun a member => by rw [kept a member]; rfl
  have leave : added.filter (fun a => !gone a) = [] :=
    List.filter_eq_nil_iff.mpr fun a member => by simp [given a member]
  rw [List.filter_append, stay, leave, List.append_nil]

/-- All that was added is given up, so that what was there before is left. -/
theorem World.Enrolls.leaves {revokers : List RevokerId}
    {before after world later : World σ} (ordered : before.Ordered)
    (enrolls : Enrolls before after)
    (accounts : Accounts (fun _ => False) revokers before after)
    (onward : Run after world)
    (reactions : ∀ o,
      (world.reactionsOf o).entries = (after.reactionsOf o).entries)
    (eventActions : ∀ n,
      (world.eventActionsOf n).entries = (after.eventActionsOf n).entries)
    (severed : Severed revokers world later) :
    (∀ o, (later.reactionsOf o).entries = (before.reactionsOf o).entries) ∧
      ∀ n, (later.eventActionsOf n).entries =
        (before.eventActionsOf n).entries := by
  have between := (accounts.run.progress ordered).1
  have registered (subscription : Subscription) :
      world.Registered subscription ↔ after.Registered subscription := by
    obtain ⟨source, id⟩ := subscription
    unfold Registered
    cases source with
    | observable o => rw [idsAt, idsAt, reactions]
    | node n => rw [idsAt, idsAt, eventActions]
  -- The listeners given up are those that were not there before.
  have drops (subscription : Subscription)
      (present : after.Registered subscription) :
      world.drops revokers subscription = true ↔
        ¬before.Registered subscription := by
    rw [accounts.drops_eq between onward ((registered _).mpr present)]
    exact accounts.drops_iff ordered present
  have filtered {α : Type} {source : Source} {old new : List (Listener α)}
      (grown : ∃ added, new = old ++ added ∧
        ∀ listener ∈ added, ¬before.Issued ⟨source, listener.id⟩)
      (there : ∀ listener ∈ old, before.Registered ⟨source, listener.id⟩)
      (still : ∀ listener ∈ new, after.Registered ⟨source, listener.id⟩) :
      new.filter (fun listener =>
        !world.drops revokers ⟨source, listener.id⟩) = old := by
    obtain ⟨added, rfl, unissued⟩ := grown
    refine filter_appended (fun listener member => ?_) fun listener member => ?_
    · rw [← Bool.not_eq_true, drops _ (still _ (List.mem_append_left _ member))]
      exact fun new => new (there listener member)
    · rw [drops _ (still _ (List.mem_append_right _ member))]
      exact fun old => unissued listener member (ordered.listeners _ old)
  constructor
  · intro o
    rw [severed.reactions, reactions]
    exact filtered (enrolls.reactions o)
      (fun _ member => List.mem_map_of_mem member)
      fun _ member => List.mem_map_of_mem member
  · intro n
    rw [severed.eventActions, eventActions]
    exact filtered (enrolls.eventActions n)
      (fun _ member => List.mem_map_of_mem member)
      fun _ member => List.mem_map_of_mem member

end LiveTemplate
