import LiveTemplate.Emitter
import LiveTemplate.Proofs.Computation

/-!
# Reading observables after a change

Storing a value is seen in one property, subscribing in the listeners of one
observable.  Neither touches the document.
-/

namespace LiveTemplate

variable {σ : Type}

theorem ObservableId.index_ne {o other : ObservableId} (differs : other ≠ o) :
    other.index ≠ o.index := by
  intro same
  apply differs
  cases other
  cases o
  cases same
  rfl

theorem Listeners.contains_iff_mem {α : Type} {listeners : Listeners α}
    {id : ListenerId} :
    listeners.contains id = true ↔ id ∈ listeners.entries.map (·.id) := by
  simp [Listeners.contains]

namespace Observable

theorem lookup_putProperty_self (name : String) (value : Value)
    (properties : List (String × Value)) :
    (putProperty name value properties).lookup name = some value := by
  induction properties with
  | nil => simp [putProperty]
  | cons entry rest ih =>
      obtain ⟨other, old⟩ := entry
      by_cases same : other = name
      · simp [putProperty, same]
      · have apart : (name == other) = false := by
          simpa using Ne.symm same
        simp [putProperty, same, List.lookup_cons, apart, ih]

private theorem lookup_putProperty_of_ne {name other : String} (value : Value)
    (properties : List (String × Value)) (differs : other ≠ name) :
    (putProperty name value properties).lookup other =
      properties.lookup other := by
  induction properties with
  | nil => simp [putProperty, differs]
  | cons entry rest ih =>
      obtain ⟨head, old⟩ := entry
      by_cases same : head = name
      · subst same
        have apart : (other == head) = false := by simpa using differs
        simp [putProperty, List.lookup_cons, apart]
      · simp [putProperty, same, List.lookup_cons, ih]

theorem property_store_self (o : ObservableId) (name : String)
    (value : Value) (world : World σ) :
    ((store o name value).after world).property o name = value := by
  simp [store, World.property, World.propertiesOf, lookup_putProperty_self]

theorem property_store_of_ne {o other : ObservableId} {name otherName : String}
    (value : Value) (world : World σ)
    (differs : ¬(other = o ∧ otherName = name)) :
    ((store o name value).after world).property other otherName =
      world.property other otherName := by
  by_cases same : other = o
  · subst same
    have apart : otherName ≠ name := fun equal => differs ⟨rfl, equal⟩
    simp [store, World.property, World.propertiesOf,
      lookup_putProperty_of_ne _ _ apart]
  · simp [store, World.property, World.propertiesOf,
      Store.get_modify_of_ne _ _ (ObservableId.index_ne same)]

@[simp] theorem reactionsOf_store (o other : ObservableId) (name : String)
    (value : Value) (world : World σ) :
    ((store o name value).after world).reactionsOf other =
      world.reactionsOf other := rfl

@[simp] theorem dom_store (o : ObservableId) (name : String) (value : Value)
    (world : World σ) :
    ((store o name value).after world).dom = world.dom := rfl

/-- Setting a property stores the value and announces a change. -/
theorem after_set (host : Host σ) (o : ObservableId) (name : String)
    (value : Value) (world : World σ) :
    (set host o name value).after world =
      let stored := (store o name value).after world
      if (world.property o name).agrees value then stored
      else (fire host o (changeOf name)
        (.change name value (world.property o name))).after stored := by
  cases agree : (world.property o name).agrees value <;>
    simp [set, agree]

theorem reactionsOf_modifyReactions_self (o : ObservableId)
    (change : Listeners Reaction → Listeners Reaction) (world : World σ) :
    ((modifyReactions o change).after world).reactionsOf o =
      change (world.reactionsOf o) := by
  simp [modifyReactions, World.reactionsOf]

theorem reactionsOf_modifyReactions_of_ne {o other : ObservableId}
    (change : Listeners Reaction → Listeners Reaction) (world : World σ)
    (differs : other ≠ o) :
    ((modifyReactions o change).after world).reactionsOf other =
      world.reactionsOf other := by
  simp [modifyReactions, World.reactionsOf,
    Store.get_modify_of_ne _ _ (ObservableId.index_ne differs)]

theorem after_subscribe (o : ObservableId) (event : String)
    (reaction : Reaction) (world : World σ) :
    (subscribe o event reaction).after world =
      (modifyReactions o (fun listeners =>
        (listeners.add event reaction).2)).after world := by
  simp [subscribe, modifyReactions, World.reactionsOf, Store.modify]

end Observable

namespace Emitter

theorem entries_listenToObservable_self (e : EmitterId) (o : ObservableId)
    (event : String) (reaction : Reaction) (world : World σ) :
    (((listenToObservable e o event reaction).after world).reactionsOf
        o).entries =
      (world.reactionsOf o).entries ++
        [⟨⟨(world.reactionsOf o).next⟩, event, reaction⟩] := by
  have same :
      ((listenToObservable e o event reaction).after world).reactionsOf o =
        ((Observable.subscribe o event reaction).after world).reactionsOf o :=
    rfl
  rw [same, Observable.after_subscribe,
    Observable.reactionsOf_modifyReactions_self]
  rfl

theorem reactionsOf_listenToObservable_of_ne (e : EmitterId)
    {o other : ObservableId} (event : String) (reaction : Reaction)
    (world : World σ) (differs : other ≠ o) :
    ((listenToObservable e o event reaction).after world).reactionsOf other =
      world.reactionsOf other := by
  have same :
      ((listenToObservable e o event reaction).after world).reactionsOf other =
        ((Observable.subscribe o event reaction).after world).reactionsOf
          other := rfl
  rw [same, Observable.after_subscribe,
    Observable.reactionsOf_modifyReactions_of_ne _ _ differs]

/-- Listeners stay when another one is added. -/
theorem mem_entries_listenToObservable (e : EmitterId)
    (o other : ObservableId) (event : String) (reaction : Reaction)
    (world : World σ) {listener : Listener Reaction}
    (member : listener ∈ (world.reactionsOf other).entries) :
    listener ∈ (((listenToObservable e o event reaction).after
      world).reactionsOf other).entries := by
  by_cases same : other = o
  · subst same
    rw [entries_listenToObservable_self]
    exact List.mem_append_left _ member
  · rw [reactionsOf_listenToObservable_of_ne e event reaction world same]
    exact member

end Emitter

end LiveTemplate
