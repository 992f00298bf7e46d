import LiveTemplate.Proofs.Operations

/-!
# Taking turns

A source that has something to tell notes who is subscribed and calls one
listener after the other.  What a listener does may unsubscribe those that wait,
subscribe others, and make any source call its own listeners before the next
turn.  `Round` says who is called and from which world to which.

Numbers are given out in the order of subscription and never again, so that the
order of the calls can be read off the numbers, and a listener that has been
unsubscribed misses its turn.
-/

namespace LiveTemplate

variable {σ α : Type}

namespace World

/-- The listeners of each source are in the order of their numbers. -/
def Numbered (world : World σ) : Prop :=
  ∀ source, (world.idsAt source).Pairwise fun one other =>
    one.index < other.index

variable {world later : World σ}

theorem numbered_initial (client : σ) : (World.initial client).Numbered := by
  intro source
  cases source <;> exact .nil

/-- A new listener comes last. -/
theorem Added.numbered {source : Source} (added : Added source world later)
    (ordered : world.Ordered) (numbered : world.Numbered) : later.Numbered := by
  intro other
  by_cases same : other = source
  · rw [same, added.ids]
    refine List.pairwise_append.mpr ⟨numbered source,
      List.pairwise_singleton _ _, fun one member last new => ?_⟩
    rw [List.mem_singleton.mp new]
    exact ordered.listeners ⟨source, one⟩ member
  · rw [(added.others other same).1]
    exact numbered other

/-- Those that are left stay in order. -/
theorem Numbered.fewer (numbered : world.Numbered)
    (fewer : ∀ source, (later.idsAt source).Sublist (world.idsAt source)) :
    later.Numbered := by
  intro source
  exact (numbered source).sublist (fewer source)

theorem Numbered.of_same (numbered : world.Numbered)
    (reactions : later.reactions = world.reactions)
    (eventActions : later.eventActions = world.eventActions) :
    later.Numbered := by
  intro source
  rw [idsAt_congr reactions eventActions]
  exact numbered source

end World

theorem Observable.fewer_unsubscribe (world : World σ) (o : ObservableId)
    (id : ListenerId) (source : Source) :
    (((unsubscribe o id).after world).idsAt source).Sublist
      (world.idsAt source) := by
  rw [unsubscribe, idsAt_modifyReactions]
  split
  · rename_i same
    rw [same, Listeners.ids_remove]
    exact List.filter_sublist
  · exact List.Sublist.refl _

theorem NodeEvents.fewer_unsubscribe (world : World σ) (n : NodeId)
    (id : ListenerId) (source : Source) :
    (((unsubscribe n id).after world).idsAt source).Sublist
      (world.idsAt source) := by
  rw [unsubscribe, idsAt_modifyActions]
  split
  · rename_i same
    rw [same, Listeners.ids_remove]
    exact List.filter_sublist
  · exact List.Sublist.refl _

private theorem Revoker.fewer_revoke (world : World σ) (r : RevokerId)
    (source : Source) :
    (((revoke r).after world).idsAt source).Sublist (world.idsAt source) := by
  rw [after_revoke]
  cases world.subscription? r with
  | none => exact List.Sublist.refl _
  | some subscription =>
      obtain ⟨origin, listener⟩ := subscription
      cases origin with
      | observable o =>
          exact Observable.fewer_unsubscribe (forget world r) o _ _
      | node n => exact NodeEvents.fewer_unsubscribe (forget world r) n _ _

theorem Run.numbered {world later : World σ} (run : Run world later)
    (ordered : world.Ordered) (numbered : world.Numbered) : later.Numbered := by
  induction run with
  | trans early _ first second =>
      exact second (early.progress ordered).1 (first ordered numbered)
  | aside reactions eventActions _ _ =>
      exact numbered.of_same reactions eventActions
  | subscribe world o event reaction =>
      exact (Observable.added_subscribe world o event reaction).numbered ordered
        numbered
  | unsubscribe world o id =>
      exact numbered.fewer (Observable.fewer_unsubscribe world o id)
  | subscribeNode world n type action =>
      exact (NodeEvents.added_subscribe world n type action).numbered ordered
        numbered
  | unsubscribeNode world n id =>
      exact numbered.fewer (NodeEvents.fewer_unsubscribe world n id)
  | listenToObservable world e o event reaction =>
      exact ((Observable.added_subscribe world o event reaction).numbered
        ordered numbered).of_same rfl rfl
  | listenToNode world e n type action =>
      exact ((NodeEvents.added_subscribe world n type action).numbered ordered
        numbered).of_same rfl rfl
  | revoked world => exact numbered.of_same rfl rfl
  | revoke world r => exact numbered.fewer (Revoker.fewer_revoke world r)

/-- A listener that has been unsubscribed is not subscribed again. -/
theorem Run.registered_before {world later : World σ} (run : Run world later)
    (ordered : world.Ordered) {subscription : Subscription}
    (issued : world.Issued subscription)
    (present : later.Registered subscription) :
    world.Registered subscription := by
  refine Classical.byContradiction fun absent => ?_
  exact (run.progress ordered).2.gone subscription issued absent present

/-- The listeners that a source tells about an event, in order. -/
theorem Listeners.pairwise_of {listeners : Listeners α}
    (numbered : (listeners.entries.map (·.id)).Pairwise fun one other =>
      one.index < other.index) (event : String) :
    (listeners.of event).Pairwise fun one other =>
      one.id.index < other.id.index := by
  exact (List.pairwise_map.mp numbered).sublist List.filter_sublist

/-- One call of a listener, with all that it brings about. -/
structure Call (σ α : Type) where
  listener : Listener α
  before : World σ
  after : World σ

namespace Call

/-- Each call begins in the world that the one before it has left. -/
def Linked : World σ → List (Call σ α) → World σ → Prop
  | start, [], final => final = start
  | start, call :: rest, final =>
      call.before = start ∧ Linked call.after rest final

end Call

/-- Some listeners have taken their turns.  Each call does what it should, the
next one begins in the world it leaves, and those are called, in the order of
subscription, that are subscribed at the start and after each call before their
turn. -/
structure Round (table : World σ → Listeners α)
    (does : Listener α → World σ → World σ → Prop)
    (waiting : List (Listener α)) (start : World σ) (calls : List (Call σ α))
    (final : World σ) : Prop where
  linked : Call.Linked start calls final
  does : ∀ call ∈ calls, does call.listener call.before call.after
  order : calls.Pairwise fun one other =>
    one.listener.id.index < other.listener.id.index
  called : ∀ listener, (∃ call ∈ calls, call.listener = listener) ↔
    listener ∈ waiting ∧ (table start).contains listener.id = true ∧
      ∀ call ∈ calls, call.listener.id.index < listener.id.index →
        (table call.after).contains listener.id = true

namespace Round

variable {table : World σ → Listeners α}
  {does : Listener α → World σ → World σ → Prop}
  {listener : Listener α} {rest : List (Listener α)}
  {start between final : World σ} {calls : List (Call σ α)}

theorem nil (start : World σ) : Round table does [] start [] start where
  linked := rfl
  does _ := nofun
  order := .nil
  called listener := by simp

/-- What is done may be seen in another way. -/
theorem weaken {waiting : List (Listener α)}
    {more : Listener α → World σ → World σ → Prop}
    (round : Round table does waiting start calls final)
    (each : ∀ listener ∈ waiting, ∀ before after,
      does listener before after → more listener before after) :
    Round table more waiting start calls final where
  linked := round.linked
  does call member :=
    each _ ((round.called _).mp ⟨call, member, rfl⟩).1 _ _
      (round.does call member)
  order := round.order
  called := round.called

theorem mem_waiting {waiting : List (Listener α)}
    (round : Round table does waiting start calls final) {call : Call σ α}
    (member : call ∈ calls) : call.listener ∈ waiting := by
  exact ((round.called call.listener).mp ⟨call, member, rfl⟩).1

section First

variable (first : ∀ other ∈ rest, listener.id.index < other.id.index)

include first

/-- A listener that is not subscribed any more misses its turn. -/
theorem skip (gone : (table start).contains listener.id = false)
    (round : Round table does rest start calls final) :
    Round table does (listener :: rest) start calls final where
  linked := round.linked
  does := round.does
  order := round.order
  called other := by
    rw [round.called other]
    constructor
    · rintro ⟨member, present, stays⟩
      exact ⟨.tail _ member, present, stays⟩
    · rintro ⟨member, present, stays⟩
      rcases List.mem_cons.mp member with rfl | member
      · rw [gone] at present
        cases present
      · exact ⟨member, present, stays⟩

theorem call (there : (table start).contains listener.id = true)
    (done : does listener start between)
    (lost : ∀ other ∈ rest, (table between).contains other.id = true →
      (table start).contains other.id = true)
    (round : Round table does rest between calls final) :
    Round table does (listener :: rest) start
      (⟨listener, start, between⟩ :: calls) final where
  linked := ⟨rfl, round.linked⟩
  does call member := by
    rcases List.mem_cons.mp member with rfl | member
    · exact done
    · exact round.does call member
  order := List.pairwise_cons.mpr
    ⟨fun call member => first _ (round.mem_waiting member), round.order⟩
  called other := by
    constructor
    · rintro ⟨call, member, rfl⟩
      rcases List.mem_cons.mp member with rfl | member
      · refine ⟨.head _, there, fun call member before => ?_⟩
        rcases List.mem_cons.mp member with rfl | member
        · exact absurd before (Nat.lt_irrefl _)
        · exact absurd before
            (Nat.lt_asymm (first _ (round.mem_waiting member)))
      · obtain ⟨waits, present, stays⟩ :=
          (round.called call.listener).mp ⟨call, member, rfl⟩
        refine ⟨.tail _ waits, lost _ waits present,
          fun call member before => ?_⟩
        rcases List.mem_cons.mp member with rfl | member
        · exact present
        · exact stays call member before
    · rintro ⟨member, _, stays⟩
      rcases List.mem_cons.mp member with rfl | waits
      · exact ⟨_, .head _, rfl⟩
      · obtain ⟨call, member, same⟩ := (round.called other).mpr
          ⟨waits, stays _ (.head _) (first other waits),
            fun call member => stays call (.tail _ member)⟩
        exact ⟨call, .tail _ member, same⟩

end First

end Round

/-- A listener is called while those whose turn has yet to come wait. -/
def Calling (step : Listener α → List (Listener α) → World σ → World σ)
    (waiting : List (Listener α)) (listener : Listener α)
    (before after : World σ) : Prop :=
  let others := waiting.filter fun other => listener.id.index < other.id.index
  after = step listener others before

namespace Calling

variable {step : Listener α → List (Listener α) → World σ → World σ}
  {listener : Listener α} {rest : List (Listener α)}

theorem first (first : ∀ other ∈ rest, listener.id.index < other.id.index)
    (world : World σ) :
    Calling step (listener :: rest) listener world
      (step listener rest world) := by
  have others : (listener :: rest).filter (fun other =>
      listener.id.index < other.id.index) = rest := by
    rw [List.filter_cons_of_neg (by simp), List.filter_eq_self]
    exact fun other member => decide_eq_true (first other member)
  unfold Calling
  rw [others]

/-- Those that have had their turn do not wait. -/
theorem later {earlier : Listener α} {before after : World σ}
    (first : earlier.id.index < listener.id.index)
    (calling : Calling step rest listener before after) :
    Calling step (earlier :: rest) listener before after := by
  have others : (earlier :: rest).filter (fun other =>
      listener.id.index < other.id.index) =
        rest.filter fun other => listener.id.index < other.id.index :=
    List.filter_cons_of_neg (by simpa using Nat.le_of_lt first)
  unfold Calling at *
  rw [others]
  exact calling

end Calling

/-- Listeners that are called one after the other, unless they have been
unsubscribed, take turns. -/
theorem round_each {table : World σ → Listeners α} {source : Source}
    (ids : ∀ world, (table world).entries.map (·.id) = world.idsAt source)
    {step : Listener α → List (Listener α) → World σ → World σ}
    (runs : ∀ listener rest world, world.Ordered →
      Run world (step listener rest world))
    (each : List (Listener α) → World σ → World σ)
    (none : ∀ world, each [] world = world)
    (turn : ∀ listener rest world, each (listener :: rest) world =
      each rest (if (table world).contains listener.id
        then step listener rest world else world))
    {waiting : List (Listener α)} {world : World σ} (ordered : world.Ordered)
    (sorted : waiting.Pairwise fun one other => one.id.index < other.id.index)
    (issued : ∀ listener ∈ waiting, world.Issued ⟨source, listener.id⟩) :
    ∃ calls, Round table (Calling step waiting) waiting world calls
      (each waiting world) := by
  induction waiting generalizing world with
  | nil =>
      rw [none]
      exact ⟨[], .nil world⟩
  | cons listener rest ih =>
      obtain ⟨first, sorted⟩ := List.pairwise_cons.mp sorted
      have later (other : Listener α) (member : other ∈ rest)
          (before after : World σ)
          (calling : Calling step rest other before after) :=
        calling.later (first other member)
      rw [turn]
      split
      · rename_i there
        have run := runs listener rest world ordered
        obtain ⟨after, progress⟩ := run.progress ordered
        obtain ⟨calls, round⟩ := ih after sorted fun other member =>
          progress.issued (issued other (.tail _ member))
        refine ⟨_, .call first there (.first first world)
          (fun other member present => ?_) (round.weaken later)⟩
        rw [Listeners.contains_iff_mem, ids] at present ⊢
        exact run.registered_before ordered (issued other (.tail _ member))
          present
      · rename_i gone
        obtain ⟨calls, round⟩ := ih ordered sorted fun other member =>
          issued other (.tail _ member)
        exact ⟨calls, .skip first (eq_false_of_ne_true gone)
          (round.weaken later)⟩

end LiveTemplate
