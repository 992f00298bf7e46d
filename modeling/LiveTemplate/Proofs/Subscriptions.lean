import LiveTemplate.Proofs.ObservableRows
import LiveTemplate.Proofs.Templates

/-!
# The life of subscriptions

A run leads from one world to a later one by what the library does to listeners
and revokers, one such step after the other.  Whatever leaves both alone is a
step as well, so that client code and changes of the document are parts of a
run.  A run may begin or end in the middle of a notice, of a dispatch or of a
pass.

The number of a listener is never given out twice, and a revoker forgets its
subscription only by giving it up.  `World.Ordered` is the invariant behind
this, `World.Later` is what any run makes of it.
-/

namespace LiveTemplate

variable {σ : Type}

/-- The worlds that steps of the library lead to. -/
inductive Run : World σ → World σ → Prop where
  | trans {first second third : World σ} :
      Run first second → Run second third → Run first third
  /-- No listener and no revoker changes. -/
  | aside {world later : World σ} :
      later.reactions = world.reactions →
      later.eventActions = world.eventActions →
      later.revokers = world.revokers →
      world.KeepsTemplates later → Run world later
  | subscribe (world : World σ) (o : ObservableId) (event : String)
      (reaction : Reaction) :
      Run world ((Observable.subscribe o event reaction).after world)
  | unsubscribe (world : World σ) (o : ObservableId) (id : ListenerId) :
      Run world ((Observable.unsubscribe o id).after world)
  | subscribeNode (world : World σ) (n : NodeId) (type : String)
      (action : EventAction) :
      Run world ((NodeEvents.subscribe n type action).after world)
  | unsubscribeNode (world : World σ) (n : NodeId) (id : ListenerId) :
      Run world ((NodeEvents.unsubscribe n id).after world)
  | listenToObservable (world : World σ) (e : EmitterId) (o : ObservableId)
      (event : String) (reaction : Reaction) :
      Run world ((Emitter.listenToObservable e o event reaction).after world)
  | listenToNode (world : World σ) (e : EmitterId) (n : NodeId)
      (type : String) (action : EventAction) :
      Run world ((Emitter.listenToNode e n type action).after world)
  | revoked (world : World σ) :
      Run world ((Revoker.create none).after world)
  | revoke (world : World σ) (r : RevokerId) :
      Run world ((Revoker.revoke r).after world)

theorem Run.refl (world : World σ) : Run world world := by
  exact .aside rfl rfl rfl (.of_templates rfl)

theorem Run.holding (world : World σ) (frames : List Frame) :
    Run world (world.holding frames) := by
  exact .aside rfl rfl rfl (.of_templates rfl)

theorem NodeId.index_ne {n other : NodeId} (differs : other ≠ n) :
    other.index ≠ n.index := by
  intro same
  apply differs
  cases other
  cases n
  cases same
  rfl

namespace World

/-- The numbers of the listeners of a source, in order. -/
def idsAt (world : World σ) : Source → List ListenerId
  | .observable o => (world.reactionsOf o).entries.map (·.id)
  | .node n => (world.eventActionsOf n).entries.map (·.id)

/-- The number that the next listener of a source gets. -/
def nextAt (world : World σ) : Source → Nat
  | .observable o => (world.reactionsOf o).next
  | .node n => (world.eventActionsOf n).next

/-- The listener of a subscription is in the list of its source. -/
def Registered (world : World σ) (subscription : Subscription) : Prop :=
  subscription.listener ∈ world.idsAt subscription.source

/-- The listener of a subscription has been registered at some time. -/
def Issued (world : World σ) (subscription : Subscription) : Prop :=
  subscription.listener.index < world.nextAt subscription.source

/-- Listeners have numbers that were given out, and so do the subscriptions
that revokers hold; templates are sound and their records flat. -/
structure Ordered (world : World σ) : Prop where
  listeners : ∀ subscription, world.Registered subscription →
    world.Issued subscription
  revokers : ∀ r subscription, world.subscription? r = some subscription →
    world.Issued subscription
  records : ∀ t entry, (world.template t).applied = some entry → entry.2.Flat
  sound : world.HasSoundTemplates

/-- What cannot be undone between two worlds. -/
structure Later (world later : World σ) : Prop where
  next : ∀ source, world.nextAt source ≤ later.nextAt source
  gone : ∀ subscription, world.Issued subscription →
    ¬world.Registered subscription → ¬later.Registered subscription
  size : world.revokers.size ≤ later.revokers.size
  held : ∀ r subscription, world.subscription? r = some subscription →
    later.subscription? r = some subscription ∨
      later.subscription? r = none ∧ ¬later.Registered subscription
  revoked : ∀ r, r.index < world.revokers.size →
    world.subscription? r = none → later.subscription? r = none

theorem index_lt_of_subscription? {world : World σ} {r : RevokerId}
    {subscription : Subscription}
    (held : world.subscription? r = some subscription) :
    r.index < world.revokers.size := by
  by_cases within : r.index < world.revokers.size
  · exact within
  · have missing : world.subscription? r = none := by
      unfold Store.size at within
      simp [World.subscription?, Store.get, Array.getElem?_eq_none
        (Nat.le_of_not_lt within)]
      rfl
    rw [missing] at held
    cases held

namespace Later

theorem issued {world later : World σ} (progress : Later world later)
    {subscription : Subscription} (issued : world.Issued subscription) :
    later.Issued subscription :=
  Nat.lt_of_lt_of_le issued (progress.next _)

theorem trans {first second third : World σ} (ordered : first.Ordered)
    (early : Later first second) (late : Later second third) :
    Later first third where
  next source := Nat.le_trans (early.next source) (late.next source)
  gone subscription issued absent :=
    late.gone subscription (early.issued issued)
      (early.gone subscription issued absent)
  size := Nat.le_trans early.size late.size
  held r subscription held := by
    rcases early.held r subscription held with kept | ⟨revoked, absent⟩
    · exact late.held r subscription kept
    · right
      have allocated : r.index < second.revokers.size :=
        Nat.lt_of_lt_of_le (index_lt_of_subscription? held) early.size
      exact ⟨late.revoked r allocated revoked, late.gone subscription
        (early.issued (ordered.revokers r subscription held)) absent⟩
  revoked r allocated revoked :=
    late.revoked r (Nat.lt_of_lt_of_le allocated early.size)
      (early.revoked r allocated revoked)

end Later

/-- What one step may change: new listeners get new numbers, and a revoker that
forgets a subscription has given it up. -/
structure Step (world later : World σ) : Prop where
  next : ∀ source, world.nextAt source ≤ later.nextAt source
  fresh : ∀ subscription, later.Registered subscription →
    world.Registered subscription ∨
      later.Issued subscription ∧ ¬world.Issued subscription
  size : world.revokers.size ≤ later.revokers.size
  held : ∀ r, r.index < world.revokers.size →
    later.subscription? r = world.subscription? r ∨
      later.subscription? r = none ∧
        ∀ subscription, world.subscription? r = some subscription →
          ¬later.Registered subscription
  allocated : ∀ r subscription, world.revokers.size ≤ r.index →
    later.subscription? r = some subscription → later.Issued subscription
  templates : world.KeepsTemplates later

theorem Step.progress {world later : World σ} (step : Step world later)
    (ordered : world.Ordered) : later.Ordered ∧ Later world later := by
  have issued (subscription : Subscription)
      (before : world.Issued subscription) : later.Issued subscription :=
    Nat.lt_of_lt_of_le before (step.next _)
  refine ⟨⟨fun subscription present => ?_, fun r subscription holds => ?_,
    fun t entry kept => ?_, step.templates.sound ordered.sound⟩,
    step.next, fun subscription before absent present => ?_, step.size,
    fun r subscription holds => ?_, fun r within revoked => ?_⟩
  · rcases step.fresh subscription present with before | ⟨after, _⟩
    · exact issued _ (ordered.listeners _ before)
    · exact after
  · by_cases within : r.index < world.revokers.size
    · rcases step.held r within with same | ⟨revoked, _⟩
      · rw [same] at holds
        exact issued _ (ordered.revokers r _ holds)
      · rw [revoked] at holds
        cases holds
    · exact step.allocated r subscription (Nat.le_of_not_lt within) holds
  · rcases step.templates.records t entry kept with before | flat
    · exact ordered.records t entry before
    · exact flat
  · rcases step.fresh subscription present with still | ⟨_, unissued⟩
    · exact absent still
    · exact unissued before
  · rcases step.held r (index_lt_of_subscription? holds) with same | gone
    · left
      rw [same]
      exact holds
    · exact .inr ⟨gone.1, gone.2 subscription holds⟩
  · rcases step.held r within with same | ⟨gone, _⟩
    · rw [same]
      exact revoked
    · exact gone

theorem Step.of_revokers {world later : World σ}
    (next : ∀ source, world.nextAt source ≤ later.nextAt source)
    (fresh : ∀ subscription, later.Registered subscription →
      world.Registered subscription ∨
        later.Issued subscription ∧ ¬world.Issued subscription)
    (revokers : later.revokers = world.revokers)
    (templates : world.KeepsTemplates later) : Step world later where
  next := next
  fresh := fresh
  templates := templates
  size := Nat.le_of_eq (congrArg Store.size revokers.symm)
  held r _ := by
    left
    simp only [subscription?, revokers]
  allocated r subscription beyond holds := by
    rw [← revokers] at beyond
    exact absurd (index_lt_of_subscription? holds) (Nat.not_lt.mpr beyond)

/-- A source gets one more listener, which has the next number. -/
structure Added (source : Source) (world later : World σ) : Prop where
  ids : later.idsAt source = world.idsAt source ++ [⟨world.nextAt source⟩]
  next : later.nextAt source = world.nextAt source + 1
  others : ∀ other, other ≠ source →
    later.idsAt other = world.idsAt other ∧
      later.nextAt other = world.nextAt other
  revokers : later.revokers = world.revokers
  templates : world.KeepsTemplates later

namespace Added

variable {source : Source} {world later : World σ}

theorem issued (added : Added source world later) :
    later.Issued ⟨source, ⟨world.nextAt source⟩⟩ := by
  unfold Issued
  rw [added.next]
  exact Nat.lt_succ_self _

theorem registered (added : Added source world later)
    {subscription : Subscription}
    (present : later.Registered subscription) :
    world.Registered subscription ∨
      subscription = ⟨source, ⟨world.nextAt source⟩⟩ := by
  obtain ⟨other, listener⟩ := subscription
  unfold Registered at *
  by_cases same : other = source
  · subst same
    rw [added.ids, List.mem_append, List.mem_singleton] at present
    rcases present with before | rfl
    · exact .inl before
    · exact .inr rfl
  · rw [(added.others other same).1] at present
    exact .inl present

/-- The new listener is there. -/
theorem present (added : Added source world later) :
    later.Registered ⟨source, ⟨world.nextAt source⟩⟩ := by
  unfold Registered
  rw [added.ids]
  exact List.mem_append_right _ (List.mem_singleton_self _)

/-- The listeners that were there are still there. -/
theorem stays (added : Added source world later) {subscription : Subscription}
    (present : world.Registered subscription) :
    later.Registered subscription := by
  obtain ⟨other, listener⟩ := subscription
  unfold Registered at *
  by_cases same : other = source
  · subst same
    rw [added.ids]
    exact List.mem_append_left _ present
  · rwa [(added.others other same).1]

theorem step (added : Added source world later) : Step world later := by
  refine .of_revokers (fun other => ?_) (fun subscription present => ?_)
    added.revokers added.templates
  · by_cases same : other = source
    · rw [same, added.next]
      exact Nat.le_succ _
    · exact Nat.le_of_eq (added.others other same).2.symm
  · rcases added.registered present with before | rfl
    · exact .inl before
    · exact .inr ⟨added.issued, Nat.lt_irrefl _⟩

end Added

/-- Listeners are removed from one source. -/
theorem Step.of_dropped {world later : World σ}
    (ids : ∀ source, later.idsAt source ⊆ world.idsAt source)
    (next : ∀ source, later.nextAt source = world.nextAt source)
    (revokers : later.revokers = world.revokers)
    (templates : world.KeepsTemplates later) : Step world later := by
  refine .of_revokers (fun source => ?_) (fun subscription present => ?_)
    revokers templates
  · exact Nat.le_of_eq (next source).symm
  · exact .inl (ids _ present)

theorem idsAt_congr {world later : World σ}
    (reactions : later.reactions = world.reactions)
    (eventActions : later.eventActions = world.eventActions)
    (source : Source) : later.idsAt source = world.idsAt source := by
  cases source <;>
    simp only [idsAt, reactionsOf, eventActionsOf, reactions, eventActions]

theorem nextAt_congr {world later : World σ}
    (reactions : later.reactions = world.reactions)
    (eventActions : later.eventActions = world.eventActions)
    (source : Source) : later.nextAt source = world.nextAt source := by
  cases source <;>
    simp only [nextAt, reactionsOf, eventActionsOf, reactions, eventActions]

/-- Nothing about listeners and revokers changes. -/
theorem Step.of_same {world later : World σ}
    (reactions : later.reactions = world.reactions)
    (eventActions : later.eventActions = world.eventActions)
    (revokers : later.revokers = world.revokers)
    (templates : world.KeepsTemplates later) : Step world later := by
  refine .of_dropped (fun source => ?_)
    (nextAt_congr reactions eventActions) revokers templates
  rw [idsAt_congr reactions eventActions]
  exact List.Subset.refl _

end World

theorem Listeners.ids_add {α : Type} (listeners : Listeners α)
    (event : String) (action : α) :
    (listeners.add event action).2.entries.map (·.id) =
      listeners.entries.map (·.id) ++ [⟨listeners.next⟩] := by
  simp [Listeners.add]

theorem Listeners.ids_remove {α : Type} (listeners : Listeners α)
    (id : ListenerId) :
    (listeners.remove id).entries.map (·.id) =
      (listeners.entries.map (·.id)).filter (· ≠ id) := by
  simp [Listeners.remove, List.filter_map, Function.comp_def]

namespace Observable

theorem idsAt_modifyReactions (o : ObservableId)
    (change : Listeners Reaction → Listeners Reaction) (world : World σ)
    (source : Source) :
    ((modifyReactions o change).after world).idsAt source =
      if source = .observable o then
        (change (world.reactionsOf o)).entries.map (·.id)
      else world.idsAt source := by
  cases source with
  | observable other =>
      by_cases same : other = o
      · subst same
        simp [World.idsAt, reactionsOf_modifyReactions_self]
      · simp [World.idsAt, reactionsOf_modifyReactions_of_ne _ _ same, same]
  | node n => rfl

theorem nextAt_modifyReactions (o : ObservableId)
    (change : Listeners Reaction → Listeners Reaction) (world : World σ)
    (source : Source) :
    ((modifyReactions o change).after world).nextAt source =
      if source = .observable o then (change (world.reactionsOf o)).next
      else world.nextAt source := by
  cases source with
  | observable other =>
      by_cases same : other = o
      · subst same
        simp [World.nextAt, reactionsOf_modifyReactions_self]
      · simp [World.nextAt, reactionsOf_modifyReactions_of_ne _ _ same, same]
  | node n => rfl

theorem added_subscribe (world : World σ) (o : ObservableId) (event : String)
    (reaction : Reaction) :
    World.Added (.observable o) world
      ((subscribe o event reaction).after world) := by
  rw [after_subscribe]
  refine ⟨?_, ?_, fun other differs => ⟨?_, ?_⟩, rfl,
    .of_templates rfl⟩
  · rw [idsAt_modifyReactions, if_pos rfl, Listeners.ids_add]
    rfl
  · rw [nextAt_modifyReactions, if_pos rfl]
    rfl
  · simp [idsAt_modifyReactions, differs]
  · simp [nextAt_modifyReactions, differs]

theorem step_unsubscribe (world : World σ) (o : ObservableId)
    (id : ListenerId) : World.Step world ((unsubscribe o id).after world) := by
  refine .of_dropped (fun source => ?_) (fun source => ?_) rfl
    (.of_templates rfl)
  · rw [unsubscribe, idsAt_modifyReactions]
    split
    · rename_i same
      rw [same]
      exact List.map_subset _ List.filter_sublist.subset
    · exact List.Subset.refl _
  · rw [unsubscribe, nextAt_modifyReactions]
    split
    · rename_i same
      rw [same]
      rfl
    · rfl

end Observable

namespace NodeEvents

theorem eventActionsOf_modifyActions_self (n : NodeId)
    (change : Listeners EventAction → Listeners EventAction)
    (world : World σ) :
    ((modifyActions n change).after world).eventActionsOf n =
      change (world.eventActionsOf n) := by
  simp [modifyActions, World.eventActionsOf]

theorem eventActionsOf_modifyActions_of_ne {n other : NodeId}
    (change : Listeners EventAction → Listeners EventAction) (world : World σ)
    (differs : other ≠ n) :
    ((modifyActions n change).after world).eventActionsOf other =
      world.eventActionsOf other := by
  simp [modifyActions, World.eventActionsOf,
    Store.get_modify_of_ne _ _ (NodeId.index_ne differs)]

theorem after_subscribe (n : NodeId) (type : String) (action : EventAction)
    (world : World σ) :
    (subscribe n type action).after world =
      (modifyActions n (fun listeners =>
        (listeners.add type action).2)).after world := by
  simp [subscribe, modifyActions, World.eventActionsOf, Store.modify]

theorem idsAt_modifyActions (n : NodeId)
    (change : Listeners EventAction → Listeners EventAction) (world : World σ)
    (source : Source) :
    ((modifyActions n change).after world).idsAt source =
      if source = .node n then
        (change (world.eventActionsOf n)).entries.map (·.id)
      else world.idsAt source := by
  cases source with
  | observable o => rfl
  | node other =>
      by_cases same : other = n
      · subst same
        simp [World.idsAt, eventActionsOf_modifyActions_self]
      · simp [World.idsAt, eventActionsOf_modifyActions_of_ne _ _ same, same]

theorem nextAt_modifyActions (n : NodeId)
    (change : Listeners EventAction → Listeners EventAction) (world : World σ)
    (source : Source) :
    ((modifyActions n change).after world).nextAt source =
      if source = .node n then (change (world.eventActionsOf n)).next
      else world.nextAt source := by
  cases source with
  | observable o => rfl
  | node other =>
      by_cases same : other = n
      · subst same
        simp [World.nextAt, eventActionsOf_modifyActions_self]
      · simp [World.nextAt, eventActionsOf_modifyActions_of_ne _ _ same, same]

theorem added_subscribe (world : World σ) (n : NodeId) (type : String)
    (action : EventAction) :
    World.Added (.node n) world
      ((subscribe n type action).after world) := by
  rw [after_subscribe]
  refine ⟨?_, ?_, fun other differs => ⟨?_, ?_⟩, rfl,
    .of_templates rfl⟩
  · rw [idsAt_modifyActions, if_pos rfl, Listeners.ids_add]
    rfl
  · rw [nextAt_modifyActions, if_pos rfl]
    rfl
  · simp [idsAt_modifyActions, differs]
  · simp [nextAt_modifyActions, differs]

theorem step_unsubscribe (world : World σ) (n : NodeId) (id : ListenerId) :
    World.Step world ((unsubscribe n id).after world) := by
  refine .of_dropped (fun source => ?_) (fun source => ?_) rfl
    (.of_templates rfl)
  · rw [unsubscribe, idsAt_modifyActions]
    split
    · rename_i same
      rw [same]
      exact List.map_subset _ List.filter_sublist.subset
    · exact List.Subset.refl _
  · rw [unsubscribe, nextAt_modifyActions]
    split
    · rename_i same
      rw [same]
      rfl
    · rfl

end NodeEvents

theorem Subscription.registered_drop (subscription other : Subscription)
    (world : World σ) :
    (subscription.drop.after world).Registered other ↔
      world.Registered other ∧ other ≠ subscription := by
  obtain ⟨source, listener⟩ := subscription
  obtain ⟨otherSource, otherListener⟩ := other
  unfold World.Registered
  cases source with
  | observable o =>
      simp only [Subscription.drop, Observable.unsubscribe,
        Observable.idsAt_modifyReactions, Listeners.ids_remove]
      split
      · rename_i same
        simp [same, World.idsAt]
      · rename_i apart
        simp [apart]
  | node n =>
      simp only [Subscription.drop, NodeEvents.unsubscribe,
        NodeEvents.idsAt_modifyActions, Listeners.ids_remove]
      split
      · rename_i same
        simp [same, World.idsAt]
      · rename_i apart
        simp [apart]

@[simp] theorem Subscription.revokers_drop (subscription : Subscription)
    (world : World σ) :
    (subscription.drop.after world).revokers = world.revokers := by
  obtain ⟨source, listener⟩ := subscription
  cases source <;> rfl

theorem RevokerId.index_ne {r other : RevokerId} (differs : other ≠ r) :
    other.index ≠ r.index := by
  intro same
  apply differs
  cases other
  cases r
  cases same
  rfl

namespace Revoker

theorem size_create (subscription : Option Subscription) (world : World σ) :
    ((create subscription).after world).revokers.size =
      world.revokers.size + 1 := by
  simp [create, Store.alloc, Store.size]

theorem subscription?_create_self (subscription : Option Subscription)
    (world : World σ) :
    ((create subscription).after world).subscription?
      ((create subscription).result world) = subscription :=
  Store.get_alloc_self world.revokers subscription

theorem subscription?_create_of_ne (subscription : Option Subscription)
    (world : World σ) {r : RevokerId} (old : r.index ≠ world.revokers.size) :
    ((create subscription).after world).subscription? r =
      world.subscription? r :=
  Store.get_alloc_of_ne world.revokers subscription old

/-- A revoker that holds nothing makes no difference. -/
theorem subscription?_create_none (world : World σ) (r : RevokerId) :
    ((create none).after world).subscription? r = world.subscription? r := by
  by_cases last : r.index = world.revokers.size
  · have same : r = (create none).result world := by
      cases r
      cases last
      rfl
    have missing : world.subscription? r = none := by
      rw [World.subscription?, last]
      exact Store.get_size _
    rw [missing, same]
    exact subscription?_create_self none world
  · exact subscription?_create_of_ne none world last

/-- A revoker may be made for a listener that is there. -/
theorem step_create (subscription : Option Subscription) (world : World σ)
    (issued : ∀ held, subscription = some held → world.Issued held) :
    World.Step world ((create subscription).after world) where
  next _ := Nat.le_refl _
  fresh _ present := .inl present
  templates := .of_templates rfl
  size := by
    rw [size_create]
    exact Nat.le_succ _
  held r within :=
    .inl (subscription?_create_of_ne _ world (Nat.ne_of_lt within))
  allocated r held beyond holds := by
    by_cases last : r.index = world.revokers.size
    · have same : r = (create subscription).result world := by
        cases r
        cases last
        rfl
      rw [same, subscription?_create_self] at holds
      exact issued held holds
    · rw [subscription?_create_of_ne _ world last] at holds
      exact absurd (World.index_lt_of_subscription? holds)
        (Nat.not_lt.mpr beyond)

/-- The world in which a revoker has forgotten its subscription. -/
def forget (world : World σ) (r : RevokerId) : World σ :=
  { world with revokers := world.revokers.put r.index none }

theorem after_revoke (r : RevokerId) (world : World σ) :
    (revoke r).after world =
      match world.subscription? r with
      | none => world
      | some subscription => subscription.drop.after (forget world r) := by
  unfold revoke
  cases held : world.subscription? r <;> simp [held, forget]

theorem subscription?_revoke (r other : RevokerId) (world : World σ) :
    ((revoke r).after world).subscription? other =
      if other = r then none else world.subscription? other := by
  rw [after_revoke]
  cases held : world.subscription? r with
  | none =>
      by_cases same : other = r
      · simp [same, held]
      · simp [same]
  | some subscription =>
      simp only [World.subscription?, Subscription.revokers_drop, forget]
      by_cases same : other = r
      · simp [same]
      · rw [if_neg same]
        exact Store.get_put_of_ne _ _ (RevokerId.index_ne same)

theorem registered_revoke (r : RevokerId) (world : World σ)
    (other : Subscription) :
    ((revoke r).after world).Registered other ↔
      world.Registered other ∧ world.subscription? r ≠ some other := by
  rw [after_revoke]
  cases held : world.subscription? r with
  | none => simp
  | some subscription =>
      have unaffected : (forget world r).Registered other ↔
          world.Registered other := Iff.rfl
      simp only [Subscription.registered_drop, unaffected, ne_eq,
        Option.some.injEq, eq_comm]

theorem step_revoke (r : RevokerId) (world : World σ) :
    World.Step world ((revoke r).after world) := by
  have next (source : Source) :
      ((revoke r).after world).nextAt source = world.nextAt source := by
    rw [after_revoke]
    cases world.subscription? r with
    | none => rfl
    | some subscription =>
        obtain ⟨origin, listener⟩ := subscription
        cases origin with
        | observable o =>
            simp only [Subscription.drop, Observable.unsubscribe,
              Observable.nextAt_modifyReactions, Listeners.remove]
            split
            · rename_i same
              rw [same]
              rfl
            · rfl
        | node n =>
            simp only [Subscription.drop, NodeEvents.unsubscribe,
              NodeEvents.nextAt_modifyActions, Listeners.remove]
            split
            · rename_i same
              rw [same]
              rfl
            · rfl
  have size : world.revokers.size ≤
      ((revoke r).after world).revokers.size := by
    rw [after_revoke]
    cases world.subscription? r with
    | none => exact Nat.le_refl _
    | some subscription =>
        simp only [Subscription.revokers_drop, forget]
        exact Store.size_le_put _ _ _
  have templates : ((revoke r).after world).templates = world.templates := by
    rw [after_revoke]
    cases world.subscription? r with
    | none => rfl
    | some subscription =>
        obtain ⟨source, listener⟩ := subscription
        cases source <;> rfl
  -- Revoking gives no numbers out and takes no entry of a listener but its own.
  refine ⟨fun source => ?_, fun other present => ?_, size,
    fun other _ => ?_, fun other held beyond holds => ?_,
    .of_templates templates⟩
  · exact Nat.le_of_eq (next source).symm
  · exact .inl ((registered_revoke r world other).mp present).1
  · rw [subscription?_revoke]
    by_cases same : other = r
    · right
      rw [if_pos same]
      refine ⟨rfl, fun held holds present => ?_⟩
      rw [same] at holds
      exact ((registered_revoke r world held).mp present).2 holds
    · exact .inl (if_neg same)
  · rw [subscription?_revoke] at holds
    split at holds
    · cases holds
    · exact absurd (World.index_lt_of_subscription? holds)
        (Nat.not_lt.mpr beyond)

end Revoker

namespace Emitter

theorem after_own (e : EmitterId) (subscription : Subscription)
    (world : World σ) : ∃ emitters,
    (own e subscription).after world =
      { (Revoker.create (some subscription)).after world with
        emitters := emitters } := by
  exact ⟨_, rfl⟩

private theorem step_own (e : EmitterId) (subscription : Subscription)
    (world : World σ) (issued : world.Issued subscription) :
    World.Step world ((own e subscription).after world) := by
  obtain ⟨emitters, owned⟩ := after_own e subscription world
  rw [owned]
  have created := Revoker.step_create (some subscription) world
    fun held same => by
      cases same
      exact issued
  exact ⟨created.next, created.fresh, created.size, created.held,
    created.allocated, .of_templates rfl⟩

/-- A listener was added to a source and a new revoker holds it. -/
structure Listened (source : Source) (world later : World σ)
    (r : RevokerId) : Prop where
  revoker : r = ⟨world.revokers.size⟩
  size : later.revokers.size = world.revokers.size + 1
  held : later.subscription? r = some ⟨source, ⟨world.nextAt source⟩⟩
  registered : ∀ subscription, later.Registered subscription →
    world.Registered subscription ∨
      subscription = ⟨source, ⟨world.nextAt source⟩⟩

theorem Listened.of_added {source : Source} {world subscribed : World σ}
    (added : World.Added source world subscribed) (e : EmitterId) :
    Listened source world
      ((own e ⟨source, ⟨world.nextAt source⟩⟩).after subscribed)
      ((own e ⟨source, ⟨world.nextAt source⟩⟩).result subscribed) := by
  obtain ⟨emitters, owned⟩ :=
    after_own e ⟨source, ⟨world.nextAt source⟩⟩ subscribed
  rw [owned]
  refine ⟨?_, ?_, Revoker.subscription?_create_self _ subscribed,
    fun _ present => added.registered present⟩
  · rw [← added.revokers]
    rfl
  · rw [← added.revokers]
    exact Revoker.size_create _ subscribed

theorem listened_listenToObservable (e : EmitterId) (o : ObservableId)
    (event : String) (reaction : Reaction) (world : World σ) :
    Listened (.observable o) world
      ((listenToObservable e o event reaction).after world)
      ((listenToObservable e o event reaction).result world) := by
  exact .of_added (Observable.added_subscribe world o event reaction) e

theorem listened_listenToNode (e : EmitterId) (n : NodeId) (type : String)
    (action : EventAction) (world : World σ) :
    Listened (.node n) world
      ((listenToNode e n type action).after world)
      ((listenToNode e n type action).result world) := by
  exact .of_added (NodeEvents.added_subscribe world n type action) e

theorem progress_own {source : Source} {world subscribed : World σ}
    (added : World.Added source world subscribed) (e : EmitterId)
    (ordered : world.Ordered) :
    let later := (own e ⟨source, ⟨world.nextAt source⟩⟩).after subscribed
    later.Ordered ∧ World.Later world later := by
  obtain ⟨between, early⟩ := added.step.progress ordered
  obtain ⟨after, late⟩ := (step_own e _ subscribed added.issued).progress
    between
  exact ⟨after, early.trans ordered late⟩

end Emitter

/-- A run keeps the numbers in order and undoes nothing that cannot be
undone. -/
theorem Run.progress {world later : World σ} (run : Run world later)
    (ordered : world.Ordered) :
    later.Ordered ∧ World.Later world later := by
  induction run with
  | trans _ _ first second =>
      obtain ⟨between, early⟩ := first ordered
      obtain ⟨after, late⟩ := second between
      exact ⟨after, early.trans ordered late⟩
  | aside reactions eventActions revokers templates =>
      exact (World.Step.of_same reactions eventActions revokers
        templates).progress ordered
  | subscribe world o event reaction =>
      exact (Observable.added_subscribe world o event reaction).step.progress
        ordered
  | unsubscribe world o id =>
      exact (Observable.step_unsubscribe world o id).progress ordered
  | subscribeNode world n type action =>
      exact (NodeEvents.added_subscribe world n type action).step.progress
        ordered
  | unsubscribeNode world n id =>
      exact (NodeEvents.step_unsubscribe world n id).progress ordered
  | listenToObservable world e o event reaction =>
      exact Emitter.progress_own
        (Observable.added_subscribe world o event reaction) e ordered
  | listenToNode world e n type action =>
      exact Emitter.progress_own
        (NodeEvents.added_subscribe world n type action) e ordered
  | revoked world =>
      exact (Revoker.step_create none world fun _ same => by
        cases same).progress ordered
  | revoke world r => exact (Revoker.step_revoke r world).progress ordered

theorem World.ordered_initial (client : σ) :
    (World.initial client).Ordered := by
  constructor
  · rintro ⟨source, listener⟩ present
    cases source <;> cases present
  · intro r subscription held
    cases held
  · intro t entry kept
    cases kept
  · exact fun t => .none _

end LiveTemplate
