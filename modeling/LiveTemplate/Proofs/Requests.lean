import LiveTemplate.Proofs.Subscriptions
import LiveTemplate.Template.Render

/-!
# Subscriptions in the order in which they are made

Every subscription gets a revoker of its own, so that the revokers made between
two worlds tell what was subscribed to meanwhile and in which order.
-/

namespace LiveTemplate

variable {σ : Type}

/-- A subscription as it is asked for: a source and the name of an event. -/
abbrev Request := Source × String

namespace World

/-- A listener waits for an event. -/
def Listens (world : World σ) (source : Source) (id : ListenerId)
    (event : String) : Prop :=
  match source with
  | .observable o => ∃ listener ∈ (world.reactionsOf o).entries,
      listener.id = id ∧ listener.event = event
  | .node n => ∃ listener ∈ (world.eventActionsOf n).entries,
      listener.id = id ∧ listener.event = event

/-- The subscriptions made between two worlds, in order; none was given up. -/
structure Subscribed (requests : List Request) (world later : World σ) :
    Prop where
  size : later.revokers.size = world.revokers.size + requests.length
  made : ∀ index request, requests[index]? = some request →
    ∃ id, later.subscription? ⟨world.revokers.size + index⟩ =
        some ⟨request.1, id⟩ ∧ later.Listens request.1 id request.2
  held : ∀ r, r.index < world.revokers.size →
    later.subscription? r = world.subscription? r
  listens : ∀ source id event, world.Listens source id event →
    later.Listens source id event

namespace Subscribed

variable {requests more : List Request} {world between later : World σ}

theorem of_same (reactions : later.reactions = world.reactions)
    (eventActions : later.eventActions = world.eventActions)
    (revokers : later.revokers = world.revokers) :
    Subscribed [] world later where
  size := by rw [revokers, List.length_nil, Nat.add_zero]
  made index request found := by cases found
  held r _ := by simp only [subscription?, revokers]
  listens source id event present := by
    cases source <;>
      simpa only [Listens, reactionsOf, eventActionsOf, reactions,
        eventActions] using present

theorem refl (world : World σ) : Subscribed [] world world := by
  exact .of_same rfl rfl rfl

theorem trans (first : Subscribed requests world between)
    (second : Subscribed more between later) :
    Subscribed (requests ++ more) world later where
  size := by
    rw [second.size, first.size, List.length_append, Nat.add_assoc]
  made index request found := by
    by_cases early : index < requests.length
    · rw [List.getElem?_append_left early] at found
      obtain ⟨id, held, listens⟩ := first.made index request found
      refine ⟨id, ?_, second.listens _ _ _ listens⟩
      rw [second.held _ (by rw [first.size]; exact Nat.add_lt_add_left early _)]
      exact held
    · have late := Nat.le_of_not_lt early
      rw [List.getElem?_append_right late] at found
      obtain ⟨id, held, listens⟩ := second.made _ request found
      refine ⟨id, ?_, listens⟩
      rw [← held, first.size, Nat.add_assoc, Nat.add_sub_cancel' late]
  held r old := by
    rw [second.held r (by rw [first.size]; exact Nat.lt_add_right _ old),
      first.held r old]
  listens source id event present :=
    second.listens _ _ _ (first.listens _ _ _ present)

/-- What is held meanwhile makes no difference. -/
theorem release {frames : List Frame}
    (subscribed : Subscribed requests (world.holding frames) later)
    (restored : List Frame) :
    Subscribed requests world (later.holding restored) := by
  exact ⟨subscribed.size, subscribed.made, subscribed.held, subscribed.listens⟩

/-- A listener was added and nothing else changed. -/
theorem of_listened {source : Source} {event : String} {r : RevokerId}
    (listened : Emitter.Listened source world later r)
    (held : ∀ r, r.index < world.revokers.size →
      later.subscription? r = world.subscription? r)
    (listens : ∀ source id event, world.Listens source id event →
      later.Listens source id event)
    (new : later.Listens source ⟨world.nextAt source⟩ event) :
    Subscribed [(source, event)] world later where
  size := listened.size
  made index request found := by
    cases index with
    | zero =>
        cases found
        refine ⟨_, ?_, new⟩
        rw [Nat.add_zero, ← listened.revoker]
        exact listened.held
    | succ index => cases found
  held := held
  listens := listens

end Subscribed

end World

namespace Emitter

theorem subscription?_own_of_lt (e : EmitterId) (subscription : Subscription)
    {world : World σ} {r : RevokerId} (old : r.index < world.revokers.size) :
    ((own e subscription).after world).subscription? r =
      world.subscription? r := by
  exact Revoker.subscription?_create_of_ne (some subscription) world
    (Nat.ne_of_lt old)

theorem subscribed_listenToObservable (e : EmitterId) (o : ObservableId)
    (event : String) (reaction : Reaction) (world : World σ) :
    World.Subscribed [(.observable o, event)] world
      ((listenToObservable e o event reaction).after world) := by
  refine .of_listened (listened_listenToObservable e o event reaction world)
    (fun r old => subscription?_own_of_lt e _ old) ?_ ?_
  · rintro (other | n) id name ⟨listener, member, named⟩
    · exact ⟨listener, mem_entries_listenToObservable e o other event reaction
        world member, named⟩
    · exact ⟨listener, member, named⟩
  · refine ⟨⟨⟨(world.reactionsOf o).next⟩, event, reaction⟩, ?_, rfl, rfl⟩
    rw [entries_listenToObservable_self]
    exact List.mem_append_right _ (.head _)

theorem subscribed_listenToNode (e : EmitterId) (n : NodeId) (type : String)
    (action : EventAction) (world : World σ) :
    World.Subscribed [(.node n, type)] world
      ((listenToNode e n type action).after world) := by
  have listeners (other : NodeId) :
      ((listenToNode e n type action).after world).eventActionsOf other =
        ((NodeEvents.subscribe n type action).after world).eventActionsOf
          other := rfl
  have here : ((NodeEvents.subscribe n type action).after
      world).eventActionsOf n =
        ((world.eventActionsOf n).add type action).2 := by
    rw [NodeEvents.after_subscribe,
      NodeEvents.eventActionsOf_modifyActions_self]
  refine .of_listened (listened_listenToNode e n type action world)
    (fun r old => subscription?_own_of_lt e _ old) ?_ ?_
  · rintro (o | other) id name ⟨listener, member, named⟩
    · exact ⟨listener, member, named⟩
    · refine ⟨listener, ?_, named⟩
      rw [listeners]
      by_cases same : other = n
      · rw [same] at member ⊢
        rw [here]
        exact List.mem_append_left _ member
      · rw [NodeEvents.after_subscribe,
          NodeEvents.eventActionsOf_modifyActions_of_ne _ _ same]
        exact member
  · refine ⟨⟨⟨(world.eventActionsOf n).next⟩, type, action⟩, ?_, rfl, rfl⟩
    rw [listeners, here]
    exact List.mem_append_right _ (.head _)

end Emitter

end LiveTemplate
