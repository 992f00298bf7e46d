import LiveTemplate.Proofs.Synchronisation
import LiveTemplate.Proofs.Turns

/-!
# What observables announce

A notice goes to those that are subscribed to it when it is sent.  They take
turns, whatever they do: what they send themselves has been told to everybody
before the next turn, and who is unsubscribed before its turn is left out.
Setting a property stores the value first and sends one notice, unless the value
agrees with the one before.
-/

namespace LiveTemplate

variable {σ : Type} {host : Host σ}

namespace Observable

/-- A listener hears a notice while those whose turn has yet to come are
held. -/
def Hears (host : Host σ) (notice : Notice) :
    List (Listener Reaction) → Listener Reaction → World σ → World σ → Prop :=
  Calling fun listener others before =>
    (keeping (.listeners (listener :: others))
      (react host notice listener.action)).after before

/-- The listeners of a notice take turns. -/
def Notifies (host : Host σ) (o : ObservableId) (notice : Notice)
    (start : World σ) (calls : List (Call σ Reaction)) (final : World σ) :
    Prop :=
  let waiting := (start.reactionsOf o).of notice.name
  Round (·.reactionsOf o) (Hears host notice waiting) waiting start calls final

variable (orderly : host.Orderly) (o : ObservableId)

include orderly

/-- Everybody who is subscribed when a notice is sent gets a turn. -/
theorem notifies_fire {world : World σ} (ordered : world.Ordered)
    (numbered : world.Numbered) (name : String) (payload : Payload) :
    ∃ calls, Notifies host o ⟨name, payload⟩ world calls
      ((fire host o name payload).after world) := by
  have sorted := Listeners.pairwise_of (numbered (.observable o)) name
  have issued (listener : Listener Reaction)
      (member : listener ∈ (world.reactionsOf o).of name) :
      world.Issued ⟨.observable o, listener.id⟩ :=
    ordered.listeners ⟨.observable o, listener.id⟩
      (List.mem_map_of_mem (List.mem_filter.mp member).1)
  have runs (listener : Listener Reaction) (others : List (Listener Reaction))
      (world : World σ) (ordered : world.Ordered) :
      Run world ((keeping (.listeners (listener :: others))
        (react host ⟨name, payload⟩ listener.action)).after world) :=
    Act.Runs.run (.keeping (runs_react orderly _ _)) ordered
  exact round_each (fun _ => rfl) runs
    (fun waiting => (notifyEach host o ⟨name, payload⟩ waiting).after)
    (fun _ => rfl) (after_notifyEach_cons host o ⟨name, payload⟩) ordered sorted
    issued

/-- In every world that can be reached, whatever the code of the client does
meanwhile, a notice is told to those subscribed when it is sent, in the order of
subscription, each once and only if it has not been unsubscribed before its
turn.  A property that is set has its new value before anybody is told, and
everybody is told once if the value differs from the one before, with both of
them. -/
theorem fire_and_set_notify {client : σ} {world : World σ}
    (reached : Run (World.initial client) world) :
    (∀ name payload, ∃ calls, Notifies host o ⟨name, payload⟩ world calls
      ((fire host o name payload).after world)) ∧
    ∀ name value,
      let old := world.property o name
      let stored := (store o name value).after world
      let later := (set host o name value).after world
      (∀ other property, stored.property other property =
        if other = o ∧ property = name then value
        else world.property other property) ∧
      (old.agrees value = true → later = stored) ∧
      (old.agrees value = false →
        ∃ calls, Notifies host o ⟨changeOf name, .change name value old⟩ stored
          calls later) := by
  have ordered := (reached.progress (World.ordered_initial client)).1
  have numbered := reached.numbered (World.ordered_initial client)
    (World.numbered_initial client)
  refine ⟨notifies_fire orderly o ordered numbered, fun name value => ?_⟩
  intro old stored later
  have set : later = if old.agrees value then stored
      else (fire host o (changeOf name) (.change name value old)).after
        stored :=
    after_set host o name value world
  refine ⟨fun other property => ?_, fun agree => ?_, fun differ => ?_⟩
  · split
    · rename_i same
      rw [same.1, same.2]
      exact property_store_self o name value world
    · rename_i differs
      exact property_store_of_ne value world differs
  · rw [set, if_pos agree]
  · have run : Run world stored :=
      .aside rfl rfl rfl (.of_templates rfl)
    rw [set, if_neg (by simp [differ])]
    exact notifies_fire orderly o (run.progress ordered).1
      (run.numbered ordered numbered) _ _

end Observable

namespace Interference

/-- A client that writes down which of its handlers run. -/
def writing : Host (List Nat) where
  keeps _ := []
  notice handler _ := modify fun world =>
    { world with client := world.client ++ [handler.index] }
  event _ _ := pure ()
  transform _ value _ := pure value
  destroy _ := pure ()

/-- Its first handler also unsubscribes the second listener, subscribes one more
and sets another property. -/
def meddling : Host (List Nat) :=
  { writing with
    notice := fun handler notice => do
      writing.notice handler notice
      if handler.index = 0 then
        Observable.unsubscribe ⟨0⟩ ⟨1⟩
        let _ ← Observable.subscribe ⟨0⟩ "change:x" (.call ⟨3⟩)
        Observable.set writing ⟨0⟩ "y" (.int 1) }

theorem orderly_writing : writing.Orderly where
  notice _ _ := .aside (fun _ => rfl) (fun _ => rfl) (fun _ => rfl)
    fun _ => .of_templates rfl
  event _ _ := .pure ()
  transform _ value _ := .pure value
  destroy _ := .pure ()

private theorem orderly_meddling : meddling.Orderly where
  notice handler notice := by
    have dropped :
        (Observable.unsubscribe ⟨0⟩ ⟨1⟩ : Act (List Nat) Unit).Runs :=
      fun world _ => .of_run (.unsubscribe world _ _)
    have added : (Observable.subscribe ⟨0⟩ "change:x" (.call ⟨3⟩) :
        Act (List Nat) ListenerId).Runs :=
      fun world _ => .of_run (.subscribe world _ _ _)
    refine .bind (orderly_writing.notice handler notice) fun _ => ?_
    exact .ite (fun _ => .bind dropped fun _ => .bind added fun _ =>
      Observable.runs_set orderly_writing _ _ _) fun _ => .pure ()
  event _ _ := .pure ()
  transform _ value _ := .pure value
  destroy _ := .pure ()

/-- Three listeners for one property and one for another. -/
def start : World (List Nat) :=
  (do
    let _ ← Observable.subscribe ⟨0⟩ "change:x" (.call ⟨0⟩)
    let _ ← Observable.subscribe ⟨0⟩ "change:x" (.call ⟨1⟩)
    let _ ← Observable.subscribe ⟨0⟩ "change:x" (.call ⟨2⟩)
    let _ ← Observable.subscribe ⟨0⟩ "change:y" (.call ⟨4⟩) :
      Act (List Nat) Unit).after (World.initial [])

theorem reached : Run (World.initial []) start := by
  exact (((Run.subscribe _ _ _ _).trans (.subscribe _ _ _ _)).trans
    (.subscribe _ _ _ _)).trans (.subscribe _ _ _ _)

/-- The other property is announced before the third listener is told; the
second listener and the new one are not. -/
theorem set_notifies_first_and_third :
    let stored := (Observable.store ⟨0⟩ "x" (.int 1)).after start
    let later := (Observable.set meddling ⟨0⟩ "x" (.int 1)).after start
    (∃ calls, Observable.Notifies meddling ⟨0⟩
      ⟨"change:x", .change "x" (.int 1) .undefined⟩ stored calls later) ∧
      later.client = [0, 4, 2] := by
  have all := Observable.fire_and_set_notify orderly_meddling ⟨0⟩ reached
  exact ⟨(all.2 "x" (.int 1)).2.2 (by decide +kernel), by decide +kernel⟩

end Interference

end LiveTemplate
