import Mathlib.Data.List.Nodup
import LiveTemplate.Proofs.Retention
import LiveTemplate.Proofs.Severance

/-!
# What emitters account for

A chronicle tells how one world became another by steps of the library: which
listeners were subscribed through which emitters meanwhile, and which listeners
were taken off their sources without a revoker.  As long as the latter have not
been subscribed through emitters, the live revokers of an emitter are those of
its listeners that are registered, in the order of subscription.  This is what
`World.Accounted` says; it is kept by each step, and hence the emitter can count
its listeners without asking their sources.
-/

namespace LiveTemplate

variable {σ : Type}

/-- A listener that was subscribed through an emitter, and its revoker. -/
structure Entry where
  emitter : EmitterId
  revoker : RevokerId
  subscription : Subscription
  deriving DecidableEq

namespace Entry

/-- The subscriptions made through an emitter. -/
def through (entries : List Entry) (e : EmitterId) : List Subscription :=
  (entries.filter (·.emitter = e)).map (·.subscription)

/-- The subscriptions that a revoker was made for. -/
def behind (entries : List Entry) (r : RevokerId) : List Subscription :=
  (entries.filter (·.revoker = r)).map (·.subscription)

end Entry

instance (world : World σ) : DecidablePred world.Registered :=
  fun subscription => inferInstanceAs
    (Decidable (subscription.listener ∈ world.idsAt subscription.source))

/-- What is missed when a listener is taken off its source. -/
def World.taken (world : World σ) (subscription : Subscription) :
    List Subscription :=
  if world.Registered subscription then [subscription] else []

/-- The entry for the listener that a source gets next. -/
def World.nextEntry (world : World σ) (e : EmitterId) (r : RevokerId)
    (source : Source) : Entry :=
  ⟨e, r, ⟨source, ⟨world.nextAt source⟩⟩⟩

/-- The listeners that are subscribed through emitters between two worlds, in
order, and those that are taken off their sources directly. -/
inductive Chronicle :
    World σ → List Entry → List Subscription → World σ → Prop where
  | trans {first second third : World σ} {entries more : List Entry}
      {taken others : List Subscription} :
      Chronicle first entries taken second →
      Chronicle second more others third →
      Chronicle first (entries ++ more) (taken ++ others) third
  /-- Listeners, revokers and what emitters own stay the same. -/
  | aside {world later : World σ} :
      later.reactions = world.reactions →
      later.eventActions = world.eventActions →
      later.revokers = world.revokers →
      (∀ e, (later.emitter e).subscriptions =
        (world.emitter e).subscriptions) →
      Chronicle world [] [] later
  | subscribe (world : World σ) (o : ObservableId) (event : String)
      (reaction : Reaction) :
      Chronicle world [] []
        ((Observable.subscribe o event reaction).after world)
  | subscribeNode (world : World σ) (n : NodeId) (type : String)
      (action : EventAction) :
      Chronicle world [] [] ((NodeEvents.subscribe n type action).after world)
  /-- A listener is taken off an observable or a node. -/
  | drop (world : World σ) (subscription : Subscription) :
      Chronicle world [] (world.taken subscription)
        (subscription.drop.after world)
  | listenToObservable (world : World σ) (e : EmitterId) (o : ObservableId)
      (event : String) (reaction : Reaction) :
      Chronicle world
        [world.nextEntry e
          ((Emitter.listenToObservable e o event reaction).result world)
          (.observable o)] []
        ((Emitter.listenToObservable e o event reaction).after world)
  | listenToNode (world : World σ) (e : EmitterId) (n : NodeId)
      (type : String) (action : EventAction) :
      Chronicle world
        [world.nextEntry e
          ((Emitter.listenToNode e n type action).result world) (.node n)] []
        ((Emitter.listenToNode e n type action).after world)
  | revoked (world : World σ) :
      Chronicle world [] [] ((Revoker.create none).after world)
  | revoke (world : World σ) (r : RevokerId) :
      Chronicle world [] [] ((Revoker.revoke r).after world)
  | stopListening (world : World σ) (e : EmitterId) :
      Chronicle world [] [] ((Emitter.stopListening e).after world)

namespace World

/-- Some listeners are lost, each with its revoker. -/
structure Loses (lost : Subscription → Prop) (world later : World σ) :
    Prop where
  registered : ∀ subscription, later.Registered subscription ↔
    world.Registered subscription ∧ ¬lost subscription
  held : ∀ r subscription, later.subscription? r = some subscription ↔
    world.subscription? r = some subscription ∧ ¬lost subscription
  next : ∀ source, world.nextAt source ≤ later.nextAt source
  size : world.revokers.size ≤ later.revokers.size
  subscriptions : ∀ e,
    (later.emitter e).subscriptions = (world.emitter e).subscriptions ∨
      (later.emitter e).subscriptions = [] ∧
        ∀ r ∈ (world.emitter e).subscriptions, later.isRevoked r = true

namespace Loses

variable {lost : Subscription → Prop} {world later : World σ}

theorem liveRevokers (loses : Loses lost world later) (e : EmitterId) :
    later.liveRevokers e =
      (world.liveRevokers e).filter fun r => !later.isRevoked r := by
  have revoked (r : RevokerId) (gone : world.isRevoked r = true) :
      later.isRevoked r = true := by
    cases found : later.subscription? r with
    | none => simp [isRevoked, found]
    | some subscription =>
        simp [isRevoked, ((loses.held r subscription).mp found).1] at gone
  unfold World.liveRevokers
  rw [List.filter_filter]
  rcases loses.subscriptions e with same | ⟨none, all⟩
  · rw [same]
    refine List.filter_congr fun r _ => ?_
    cases gone : world.isRevoked r <;> simp [revoked, gone]
  · rw [none, List.filter_nil, eq_comm, List.filter_eq_nil_iff]
    intro r member
    simp [all r member]

private theorem isRevoked_iff (loses : Loses lost world later) {r : RevokerId}
    {subscription : Subscription}
    (holds : world.subscription? r = some subscription) :
    later.isRevoked r = true ↔ lost subscription := by
  have kept := loses.held r subscription
  rw [holds] at kept
  cases found : later.subscription? r with
  | none => simpa [isRevoked, found] using kept
  | some other =>
      have same := ((loses.held r other).mp found).1
      rw [holds] at same
      cases same
      simpa [isRevoked, found] using kept

end Loses

end World

private theorem Emitter.nextAt_le_revokeEach (revokers : List RevokerId)
    (world : World σ) (source : Source) :
    world.nextAt source ≤
      ((revokers.forM Revoker.revoke : Act σ Unit).after world).nextAt
        source := by
  induction revokers generalizing world with
  | nil => exact Nat.le_refl _
  | cons r rest ih =>
      exact Nat.le_trans ((Revoker.step_revoke r world).next source) (ih _)

namespace World

/-- The entries are all that has been subscribed through emitters, and none of
their listeners has been lost without its revoker. -/
structure Accounted (world : World σ) (entries : List Entry) : Prop where
  listeners : ∀ subscription, world.Registered subscription →
    world.Issued subscription
  issued : ∀ entry ∈ entries, world.Issued entry.subscription
  there : ∀ entry ∈ entries, entry.revoker.index < world.revokers.size
  owned : ∀ e, ∀ r ∈ (world.emitter e).subscriptions,
    r.index < world.revokers.size
  apart : (entries.map (·.subscription)).Nodup
  distinct : (entries.map (·.revoker)).Nodup
  held : ∀ entry ∈ entries, world.Registered entry.subscription →
    world.subscription? entry.revoker = some entry.subscription
  entered : ∀ r subscription, world.subscription? r = some subscription →
    (∃ e, ⟨e, r, subscription⟩ ∈ entries) ∧ world.Registered subscription
  live : ∀ e, world.liveRevokers e =
    (entries.filter fun entry => entry.emitter = e ∧
      world.Registered entry.subscription).map (·.revoker)

namespace Accounted

variable {world later : World σ} {entries : List Entry}

theorem initial (client : σ) : (World.initial client).Accounted [] where
  listeners := (World.ordered_initial client).listeners
  issued _ member := (List.not_mem_nil member).elim
  there _ member := (List.not_mem_nil member).elim
  owned _ _ member := (List.not_mem_nil member).elim
  apart := .nil
  distinct := .nil
  held _ member := (List.not_mem_nil member).elim
  entered _ _ held := by cases held
  live _ := rfl

theorem liveCount (accounted : world.Accounted entries) (e : EmitterId) :
    Emitter.liveCount world e =
      (Entry.through entries e).countP (world.Registered ·) := by
  rw [liveCount_eq_length_ledger, ledger, List.length_map, accounted.live,
    List.length_map, Entry.through, List.countP_map,
    List.countP_eq_length_filter, List.filter_filter]
  congr 1
  refine List.filter_congr fun entry _ => ?_
  simp [Bool.and_comm]

theorem entry_unique (accounted : world.Accounted entries)
    {entry other : Entry} (member : entry ∈ entries) (also : other ∈ entries)
    (same : entry.subscription = other.subscription) : entry = other := by
  exact List.inj_on_of_nodup_map accounted.apart member also same

theorem lose (accounted : world.Accounted entries)
    {lost : Subscription → Prop} (loses : Loses lost world later) :
    later.Accounted entries where
  listeners subscription present :=
    Nat.lt_of_lt_of_le (accounted.listeners subscription
      ((loses.registered subscription).mp present).1) (loses.next _)
  issued entry member :=
    Nat.lt_of_lt_of_le (accounted.issued entry member) (loses.next _)
  owned e r member := by
    rcases loses.subscriptions e with same | ⟨none, _⟩
    · rw [same] at member
      exact Nat.lt_of_lt_of_le (accounted.owned e r member) loses.size
    · rw [none] at member
      cases member
  there entry member := Nat.lt_of_lt_of_le (accounted.there entry member)
    loses.size
  apart := accounted.apart
  distinct := accounted.distinct
  held entry member present := by
    obtain ⟨before, kept⟩ := (loses.registered _).mp present
    exact (loses.held _ _).mpr ⟨accounted.held entry member before, kept⟩
  entered r subscription holds := by
    obtain ⟨before, kept⟩ := (loses.held r subscription).mp holds
    obtain ⟨entry, present⟩ := accounted.entered r subscription before
    exact ⟨entry, (loses.registered subscription).mpr ⟨present, kept⟩⟩
  live e := by
    rw [loses.liveRevokers, accounted.live, List.filter_map, List.filter_filter]
    congr 1
    refine List.filter_congr fun entry member => ?_
    by_cases present : world.Registered entry.subscription
    · have holds := accounted.held entry member present
      simp [loses.registered, present, ← loses.isRevoked_iff holds,
        Bool.and_comm]
    · simp [loses.registered, present]

/-- What is lost may be told from the listeners that are left. -/
theorem lose_same (accounted : world.Accounted entries)
    (registered : ∀ subscription, later.Registered subscription ↔
      world.Registered subscription)
    (held : ∀ r, later.subscription? r = world.subscription? r)
    (next : ∀ source, world.nextAt source ≤ later.nextAt source)
    (size : world.revokers.size ≤ later.revokers.size)
    (subscriptions : ∀ e,
      (later.emitter e).subscriptions = (world.emitter e).subscriptions) :
    later.Accounted entries := by
  have loses : Loses (fun _ => False) world later :=
    ⟨by simpa using registered, by simp [held], next, size,
      fun e => .inl (subscriptions e)⟩
  exact accounted.lose loses

/-- A listener is taken off its source that was not subscribed through an
emitter. -/
theorem drop (accounted : world.Accounted entries)
    (subscription : Subscription)
    (foreign : ∀ entry ∈ entries,
      entry.subscription ∉ world.taken subscription) :
    (subscription.drop.after world).Accounted entries := by
  have held (r : RevokerId) : (subscription.drop.after world).subscription? r =
      world.subscription? r := by
    rw [subscription?, Subscription.revokers_drop, subscription?]
  have unowned (r : RevokerId) (other : Subscription)
      (holds : world.subscription? r = some other) : other ≠ subscription := by
    rintro rfl
    obtain ⟨⟨e, member⟩, present⟩ := accounted.entered r other holds
    exact foreign _ member (by simp [taken, present])
  suffices loses : Loses (· = subscription) world
      (subscription.drop.after world) from accounted.lose loses
  refine ⟨fun other => subscription.registered_drop other world,
    fun r other => ?_, ?_, ?_, fun e => .inl ?_⟩
  · rw [held]
    exact ⟨fun holds => ⟨holds, unowned r other holds⟩, fun both => both.1⟩
  · obtain ⟨source, id⟩ := subscription
    cases source with
    | observable o => exact (Observable.step_unsubscribe world o id).next
    | node n => exact (NodeEvents.step_unsubscribe world n id).next
  · exact Nat.le_of_eq
      (congrArg Store.size (subscription.revokers_drop world).symm)
  · obtain ⟨source, id⟩ := subscription
    cases source <;> rfl

theorem revoker_unique (accounted : world.Accounted entries)
    {r other : RevokerId} {subscription : Subscription}
    (holds : world.subscription? r = some subscription)
    (also : world.subscription? other = some subscription) : r = other := by
  obtain ⟨⟨_, member⟩, _⟩ := accounted.entered r subscription holds
  obtain ⟨⟨_, second⟩, _⟩ := accounted.entered other subscription also
  exact congrArg Entry.revoker (accounted.entry_unique member second rfl)

theorem revoke (accounted : world.Accounted entries) (r : RevokerId) :
    ((Revoker.revoke r).after world).Accounted entries := by
  have step := Revoker.step_revoke r world
  suffices loses : Loses (world.subscription? r = some ·) world
      ((Revoker.revoke r).after world) from accounted.lose loses
  refine ⟨Revoker.registered_revoke r world, fun other subscription => ?_,
    step.next, step.size, fun e => .inl ?_⟩
  · rw [Revoker.subscription?_revoke]
    by_cases same : other = r
    · simp [same]
    · rw [if_neg same, iff_self_and]
      exact fun holds also => same (accounted.revoker_unique holds also)
  · obtain ⟨_, _, _, left⟩ := Revoker.revoke_leaves r world
    rw [left]
    rfl

theorem stopListening (accounted : world.Accounted entries) (e : EmitterId) :
    ((Emitter.stopListening e).after world).Accounted entries := by
  let owned := (world.emitter e).subscriptions
  let emptied := (Emitter.update e fun emitter =>
    { emitter with subscriptions := [] }).after world
  have severed : Severed owned emptied
      ((Emitter.stopListening e).after world) :=
    Record.severed_forM owned emptied
  suffices loses : Loses
      (fun subscription => ∃ r ∈ owned,
        world.subscription? r = some subscription) world
      ((Emitter.stopListening e).after world) from accounted.lose loses
  refine ⟨fun subscription => ?_, fun r subscription => ?_, ?_,
    (Emitter.retains_stopListening e world).size, fun other => ?_⟩
  · rw [severed.without.registered_iff, ← Bool.not_eq_true, drops_iff]
    rfl
  · rw [severed.held]
    split
    · rename_i member
      constructor
      · intro impossible
        cases impossible
      · rintro ⟨holds, kept⟩
        exact absurd ⟨r, member, holds⟩ kept
    · rename_i other
      change world.subscription? r = _ ↔ _
      rw [iff_self_and]
      rintro holds ⟨given, member, also⟩
      exact other (accounted.revoker_unique holds also ▸ member)
  · exact fun source => Emitter.nextAt_le_revokeEach owned emptied source
  · rw [Emitter.emitter_stopListening]
    by_cases same : other = e
    · refine .inr ⟨?_, fun r member => ?_⟩
      · rw [same, Emitter.emitter_update_self]
      · rw [same] at member
        simp [isRevoked, severed.held, owned, member]
    · left
      rw [Emitter.emitter_update_of_ne _ _ same]

/-- A listener that is subscribed without an emitter has no entry. -/
theorem add (accounted : world.Accounted entries) {source : Source}
    (added : Added source world later)
    (emitters : later.emitters = world.emitters) :
    later.Accounted entries := by
  have held (r : RevokerId) :
      later.subscription? r = world.subscription? r := by
    rw [subscription?, added.revokers, subscription?]
  have same (entry : Entry) (member : entry ∈ entries) :
      later.Registered entry.subscription ↔
        world.Registered entry.subscription := by
    refine ⟨fun present => ?_, added.stays⟩
    rcases added.registered present with before | new
    · exact before
    · have old := accounted.issued entry member
      rw [new] at old
      exact absurd old (Nat.lt_irrefl _)
  have issued (subscription : Subscription)
      (before : world.Issued subscription) : later.Issued subscription :=
    Nat.lt_of_lt_of_le before (added.step.next _)
  refine ⟨fun subscription present => ?_,
    fun entry member => issued _ (accounted.issued entry member),
    fun entry member => ?_, fun e r member => ?_, accounted.apart,
    accounted.distinct, fun entry member present => ?_,
    fun r subscription holds => ?_, fun e => ?_⟩
  · rcases added.registered present with before | rfl
    · exact issued _ (accounted.listeners subscription before)
    · exact added.issued
  · rw [added.revokers]
    exact accounted.there entry member
  · rw [World.emitter, emitters] at member
    rw [added.revokers]
    exact accounted.owned e r member
  · rw [held]
    exact accounted.held entry member ((same entry member).mp present)
  · rw [held] at holds
    obtain ⟨entry, present⟩ := accounted.entered r subscription holds
    exact ⟨entry, added.stays present⟩
  · have live : later.liveRevokers e = world.liveRevokers e := by
      simp only [liveRevokers, World.emitter, emitters, isRevoked, held]
    rw [live, accounted.live]
    congr 1
    refine List.filter_congr fun entry member => ?_
    simp only [same entry member]

/-- An emitter owns a listener that has no entry yet. -/
theorem own (accounted : world.Accounted entries) (e : EmitterId)
    {subscription : Subscription} (present : world.Registered subscription)
    (new : ∀ entry ∈ entries, entry.subscription ≠ subscription) :
    ((Emitter.own e subscription).after world).Accounted
      (entries ++
        [⟨e, (Emitter.own e subscription).result world, subscription⟩]) := by
  let r : RevokerId := ⟨world.revokers.size⟩
  let later := (Emitter.own e subscription).after world
  have last : later.subscription? r = some subscription :=
    Revoker.subscription?_create_self (some subscription) world
  have others (other : RevokerId) (differs : other ≠ r) :
      later.subscription? other = world.subscription? other :=
    Revoker.subscription?_create_of_ne (some subscription) world
      fun same => differs (congrArg RevokerId.mk same)
  have old {other : RevokerId} {held : Subscription}
      (holds : world.subscription? other = some held) : other ≠ r := by
    rintro rfl
    exact absurd (index_lt_of_subscription? holds) (Nat.lt_irrefl _)
  have size : later.revokers.size = world.revokers.size + 1 :=
    Revoker.size_create (some subscription) world
  refine ⟨accounted.listeners, fun entry member => ?_, fun entry member => ?_,
    fun other given member => ?_, ?_, ?_, fun entry member there => ?_,
    fun other held holds => ?_, fun other => ?_⟩
  · rcases List.mem_append.mp member with before | last
    · exact accounted.issued entry before
    · rw [List.mem_singleton.mp last]
      exact accounted.listeners subscription present
  · rw [size]
    rcases List.mem_append.mp member with before | last
    · exact Nat.lt_succ_of_lt (accounted.there entry before)
    · rw [List.mem_singleton.mp last]
      exact Nat.lt_succ_self _
  · rw [Emitter.emitter_own] at member
    rw [size]
    split at member
    · rcases List.mem_append.mp member with before | only
      · exact Nat.lt_succ_of_lt
          (accounted.owned e given (List.mem_filter.mp before).1)
      · rw [List.mem_singleton.mp only]
        exact Nat.lt_succ_self _
    · exact Nat.lt_succ_of_lt (accounted.owned other given member)
  · rw [List.map_append, List.map_singleton]
    refine List.nodup_append.mpr
      ⟨accounted.apart, List.nodup_singleton _, fun held before _ only => ?_⟩
    obtain ⟨entry, member, rfl⟩ := List.mem_map.mp before
    rw [List.mem_singleton.mp only]
    exact new entry member
  · rw [List.map_append, List.map_singleton]
    refine List.nodup_append.mpr ⟨accounted.distinct, List.nodup_singleton _,
      fun given before _ only => ?_⟩
    obtain ⟨entry, member, rfl⟩ := List.mem_map.mp before
    rw [List.mem_singleton.mp only]
    intro same
    have old := accounted.there entry member
    rw [same] at old
    exact Nat.lt_irrefl _ old
  · rcases List.mem_append.mp member with before | only
    · have holds := accounted.held entry before there
      exact (others _ (old holds)).trans holds
    · rw [List.mem_singleton.mp only]
      exact last
  -- Only the new revoker holds the new listener.
  · by_cases same : other = r
    · rw [same] at holds ⊢
      cases last.symm.trans holds
      exact ⟨⟨e, List.mem_append_right _ (List.mem_singleton_self _)⟩, present⟩
    · obtain ⟨⟨owner, member⟩, there⟩ := accounted.entered other held
        ((others other same).symm.trans holds)
      exact ⟨⟨owner, List.mem_append_left _ member⟩, there⟩
  · rw [Emitter.liveRevokers_own e other subscription (accounted.owned other),
      accounted.live, List.filter_append, List.map_append]
    have there : ((Emitter.own e subscription).after world).Registered
        subscription := present
    congr 1
    by_cases same : other = e
    · rw [if_pos same, List.filter_cons_of_pos (by simp [same, there])]
      rfl
    · rw [if_neg same, List.filter_cons_of_neg (by simp [Ne.symm same])]
      rfl

theorem listen (accounted : world.Accounted entries) {source : Source}
    (added : Added source world later)
    (emitters : later.emitters = world.emitters) (e : EmitterId) :
    ((Emitter.own e ⟨source, ⟨world.nextAt source⟩⟩).after later).Accounted
      (entries ++ [world.nextEntry e
        ((Emitter.own e ⟨source, ⟨world.nextAt source⟩⟩).result later)
        source]) := by
  refine (accounted.add added emitters).own e added.present
    fun entry member same => ?_
  have old := accounted.issued entry member
  rw [same] at old
  exact Nat.lt_irrefl _ old

/-- A revoker removes the listener it was made for. -/
theorem without_revoke (accounted : world.Accounted entries) (r : RevokerId) :
    Without (fun subscription =>
        decide (subscription ∈ Entry.behind entries r)) world
      ((Revoker.revoke r).after world) := by
  refine (Revoker.severed_revoke r world).without.iff_agree.mpr
    fun subscription present => ?_
  rw [Bool.eq_iff_iff, drops_iff, decide_eq_true_iff, Entry.behind,
    List.mem_map]
  constructor
  · rintro ⟨other, member, holds⟩
    obtain ⟨⟨e, entered⟩, _⟩ := accounted.entered other subscription holds
    rw [List.mem_singleton.mp member] at entered
    exact ⟨_, List.mem_filter.mpr ⟨entered, decide_eq_true rfl⟩, rfl⟩
  · rintro ⟨entry, member, rfl⟩
    obtain ⟨entered, same⟩ := List.mem_filter.mp member
    rw [← of_decide_eq_true same]
    exact ⟨entry.revoker, List.mem_singleton_self _,
      accounted.held entry entered present⟩

private theorem without_stopListening (accounted : world.Accounted entries)
    (e : EmitterId) :
    Without (fun subscription =>
        decide (subscription ∈ Entry.through entries e)) world
      ((Emitter.stopListening e).after world) := by
  let owned := (world.emitter e).subscriptions
  have severed : Without (world.drops owned) world
      ((Emitter.stopListening e).after world) :=
    have severed := Record.severed_forM owned
      ((Emitter.update e fun emitter =>
        { emitter with subscriptions := [] }).after world)
    ⟨severed.reactions, severed.eventActions⟩
  refine severed.iff_agree.mpr fun subscription present => ?_
  rw [Bool.eq_iff_iff, drops_iff, decide_eq_true_iff, Entry.through,
    List.mem_map]
  have live (r : RevokerId) :
      (r ∈ owned ∧ world.isRevoked r = false) ↔
        ∃ entry ∈ entries, (entry.emitter = e ∧
          world.Registered entry.subscription) ∧ entry.revoker = r := by
    have listed := iff_of_eq (congrArg (r ∈ ·) (accounted.live e))
    simpa [liveRevokers, and_assoc] using listed
  constructor
  · rintro ⟨r, member, holds⟩
    obtain ⟨entry, entered, ⟨mine, there⟩, rfl⟩ :=
      (live r).mp ⟨member, by simp [isRevoked, holds]⟩
    have same := accounted.held entry entered there
    rw [holds] at same
    cases same
    exact ⟨entry, List.mem_filter.mpr ⟨entered, decide_eq_true mine⟩, rfl⟩
  · rintro ⟨entry, member, rfl⟩
    obtain ⟨entered, mine⟩ := List.mem_filter.mp member
    have found := (live entry.revoker).mpr
      ⟨entry, entered, ⟨of_decide_eq_true mine, present⟩, rfl⟩
    exact ⟨entry.revoker, found.1, accounted.held entry entered present⟩

end Accounted

end World

/-- What is subscribed through emitters stays accounted for. -/
theorem Chronicle.accounted {world later : World σ}
    {past entries : List Entry} {taken : List Subscription}
    (chronicle : Chronicle world entries taken later)
    (accounted : world.Accounted past)
    (foreign : ∀ entry ∈ past ++ entries, entry.subscription ∉ taken) :
    later.Accounted (past ++ entries) := by
  induction chronicle generalizing past with
  | @trans _ _ _ entries more taken others _ _ first second =>
      rw [← List.append_assoc] at foreign ⊢
      refine second (first accounted fun entry member given => ?_)
        fun entry member given => ?_
      · exact foreign entry (List.mem_append_left _ member)
          (List.mem_append_left _ given)
      · exact foreign entry member (List.mem_append_right _ given)
  | aside reactions eventActions revokers subscriptions =>
      rw [List.append_nil]
      refine accounted.lose_same (fun subscription => ?_) (fun r => ?_)
        (fun source => Nat.le_of_eq ?_) (Nat.le_of_eq ?_) subscriptions
      · rw [World.Registered, World.idsAt_congr reactions eventActions,
          World.Registered]
      · rw [World.subscription?, revokers, World.subscription?]
      · rw [World.nextAt_congr reactions eventActions]
      · rw [revokers]
  | subscribe world o event reaction =>
      rw [List.append_nil]
      exact accounted.add (Observable.added_subscribe world o event reaction)
        rfl
  | subscribeNode world n type action =>
      rw [List.append_nil]
      exact accounted.add (NodeEvents.added_subscribe world n type action) rfl
  | drop world subscription =>
      rw [List.append_nil] at foreign ⊢
      exact accounted.drop subscription foreign
  | listenToObservable world e o event reaction =>
      exact accounted.listen (Observable.added_subscribe world o event reaction)
        rfl e
  | listenToNode world e n type action =>
      exact accounted.listen (NodeEvents.added_subscribe world n type action)
        rfl e
  | revoked world =>
      rw [List.append_nil]
      refine accounted.lose_same (fun _ => Iff.rfl)
        (Revoker.subscription?_create_none world) (fun _ => Nat.le_refl _) ?_
        fun _ => rfl
      rw [Revoker.size_create]
      exact Nat.le_succ _
  | revoke world r =>
      rw [List.append_nil]
      exact accounted.revoke r
  | stopListening world e =>
      rw [List.append_nil]
      exact accounted.stopListening e

/-- One world becomes another by steps of the library, and the listeners taken
off their sources directly are free to be. -/
def World.Continues (free : Subscription → Prop) (world later : World σ) :
    Prop :=
  ∃ entries taken, Chronicle world entries taken later ∧
    ∀ subscription ∈ taken, free subscription

theorem Chronicle.continues {free : Subscription → Prop}
    {world later : World σ} {entries : List Entry}
    (chronicle : Chronicle world entries [] later) :
    world.Continues free later := by
  refine ⟨entries, [], chronicle, ?_⟩
  intro _ member
  exact (List.not_mem_nil member).elim

/-- All that the library does continues the chronicle. -/
theorem Host.Within.upholds {host : Host σ} {free : Subscription → Prop}
    (within : host.Within (World.Continues free)) :
    host.Upholds (World.Continues free) where
  toWithin := within
  trans := by
    rintro _ _ _ ⟨_, _, early, first⟩ ⟨_, _, late, second⟩
    exact ⟨_, _, early.trans late, List.forall_mem_append.mpr ⟨first, second⟩⟩
  aside reactions eventActions revokers emitters _ :=
    (Chronicle.aside reactions eventActions revokers fun e => by
      rw [World.emitter, emitters, World.emitter]).continues
  listenToObservable e o event reaction world :=
    (Chronicle.listenToObservable world e o event reaction).continues
  listenToNode e n type action world :=
    (Chronicle.listenToNode world e n type action).continues
  revoke r world := (Chronicle.revoke world r).continues
  unhook e world := by
    have unhooked : Chronicle world [] [] ((Emitter.update e fun emitter =>
        { emitter with hooks := [] }).after world) := by
      refine .aside rfl rfl rfl fun other => ?_
      by_cases same : other = e
      · rw [same, Emitter.emitter_update_self]
      · rw [Emitter.emitter_update_of_ne _ _ same]
    exact unhooked.continues
  stopListening e world := (Chronicle.stopListening world e).continues

/-- However listeners are subscribed and given up, as long as none that was
subscribed through an emitter is taken off its source directly: an emitter
counts the listeners that were subscribed through it and are registered, a
revoker removes the listener it was made for, and an emitter that stops
listening what was subscribed through it, and nothing else.  Every operation
continues such a chronicle if the handlers of the client do. -/
theorem Emitter.counts_its_listeners {host : Host σ}
    {free : Subscription → Prop}
    (within : host.Within (World.Continues free)) {client : σ}
    {world : World σ} {entries : List Entry} {taken : List Subscription}
    (chronicle : Chronicle (World.initial client) entries taken world)
    (foreign : ∀ entry ∈ entries, entry.subscription ∉ taken) :
    (∀ operation : Operation,
      world.Continues free (operation.after host world)) ∧
    (entries.map (·.subscription)).Nodup ∧ (entries.map (·.revoker)).Nodup ∧
    (∀ e, liveCount world e =
      (Entry.through entries e).countP (world.Registered ·)) ∧
    (∀ r, World.Without (fun subscription =>
        decide (subscription ∈ Entry.behind entries r)) world
      ((Revoker.revoke r).after world)) ∧
    ∀ e, World.Without (fun subscription =>
        decide (subscription ∈ Entry.through entries e)) world
      ((stopListening e).after world) := by
  have accounted : world.Accounted entries :=
    chronicle.accounted (.initial client) foreign
  have continues (operation : Operation) :
      world.Continues free (operation.after host world) := by
    refine within.upholds.operation (fun t _ _ entry world => ?_) world
    have stored : Chronicle world [] [] ((Template.update t fun template =>
        { template with applied := entry }).after world) :=
      .aside rfl rfl rfl fun _ => rfl
    exact stored.continues
  exact ⟨continues, accounted.apart, accounted.distinct,
    accounted.liveCount, accounted.without_revoke,
    accounted.without_stopListening⟩

namespace Sharing

theorem within_quiet (free : Subscription → Prop) :
    (Host.quiet : Host Unit).Within (World.Continues free) where
  notice _ _ _ := (Chronicle.aside rfl rfl rfl fun _ => rfl).continues
  event _ _ _ := (Chronicle.aside rfl rfl rfl fun _ => rfl).continues
  transform _ _ _ _ := (Chronicle.aside rfl rfl rfl fun _ => rfl).continues
  destroy _ _ := (Chronicle.aside rfl rfl rfl fun _ => rfl).continues

/-- Both emitters listen to the observable, the first one to a node as well. -/
def shared : World Unit :=
  (do
    let _ ← Emitter.listenToObservable ⟨0⟩ ⟨0⟩ "change:x" (.call ⟨0⟩)
    let _ ← Emitter.listenToObservable ⟨1⟩ ⟨0⟩ "change:x" (.call ⟨1⟩)
    let _ ← Emitter.listenToNode ⟨0⟩ ⟨0⟩ "click" (.call ⟨2⟩) :
      Act Unit Unit).after (World.initial ())

/-- A listener without an emitter comes and goes, the first revoker is revoked
twice, and the second emitter stops listening and starts again. -/
def used : World Unit :=
  (do
    let _ ← Observable.subscribe ⟨0⟩ "change:x" (.call ⟨3⟩)
    Observable.unsubscribe ⟨0⟩ ⟨2⟩
    Revoker.revoke ⟨0⟩
    Revoker.revoke ⟨0⟩
    Emitter.stopListening ⟨1⟩
    let _ ← Emitter.listenToObservable ⟨1⟩ ⟨0⟩ "change:x" (.call ⟨1⟩) :
      Act Unit Unit).after shared

def entries : List Entry :=
  [⟨⟨0⟩, ⟨0⟩, ⟨.observable ⟨0⟩, ⟨0⟩⟩⟩, ⟨⟨1⟩, ⟨1⟩, ⟨.observable ⟨0⟩, ⟨1⟩⟩⟩,
    ⟨⟨0⟩, ⟨2⟩, ⟨.node ⟨0⟩, ⟨0⟩⟩⟩, ⟨⟨1⟩, ⟨3⟩, ⟨.observable ⟨0⟩, ⟨3⟩⟩⟩]

theorem chronicle : Chronicle (World.initial ()) entries
    [⟨.observable ⟨0⟩, ⟨2⟩⟩] used := by
  have first := ((Chronicle.listenToObservable (World.initial ()) ⟨0⟩ ⟨0⟩
    "change:x" (.call ⟨0⟩)).trans (.listenToObservable _ ⟨1⟩ ⟨0⟩ "change:x"
      (.call ⟨1⟩))).trans (.listenToNode _ ⟨0⟩ ⟨0⟩ "click" (.call ⟨2⟩))
  have direct := (Chronicle.subscribe shared ⟨0⟩ "change:x" (.call ⟨3⟩)).trans
    (.drop _ ⟨.observable ⟨0⟩, ⟨2⟩⟩)
  have later := (((direct.trans (.revoke _ ⟨0⟩)).trans (.revoke _ ⟨0⟩)).trans
    (.stopListening _ ⟨1⟩)).trans
      (.listenToObservable _ ⟨1⟩ ⟨0⟩ "change:x" (.call ⟨1⟩))
  exact first.trans later

/-- One of the two listeners of the first emitter is left, and the new one of
the second. -/
theorem counts_after_use :
    Emitter.liveCount used ⟨0⟩ = 1 ∧ Emitter.liveCount used ⟨1⟩ = 1 ∧
    (∀ e, Emitter.liveCount used e =
      (Entry.through entries e).countP (used.Registered ·)) ∧
    World.Without (fun subscription =>
        decide (subscription ∈ Entry.through entries ⟨1⟩)) used
      ((Emitter.stopListening ⟨1⟩).after used) := by
  have all := Emitter.counts_its_listeners (within_quiet fun _ => False)
    chronicle (by decide +kernel)
  exact ⟨by decide +kernel, by decide +kernel, all.2.2.2.1, all.2.2.2.2.2 ⟨1⟩⟩

end Sharing

end LiveTemplate
