import LiveTemplate.Proofs.Ledgers
import LiveTemplate.Proofs.Conduct

/-!
# Emitters keep what they own

An emitter lets go of a revoker only once it is revoked.  So what was
subscribed through an emitter is still in its hands or has been given up, and
whatever destroys the emitter reaches all of it.
-/

namespace LiveTemplate

variable {σ : Type}

namespace World

/-- Live revokers stay with their emitters until they are revoked, and revoked
ones stay so. -/
structure Retains (world later : World σ) : Prop where
  size : world.revokers.size ≤ later.revokers.size
  revoked : ∀ r : RevokerId, r.index < world.revokers.size →
    world.subscription? r = none → later.subscription? r = none
  owned : ∀ e r subscription, r ∈ (world.emitter e).subscriptions →
    world.subscription? r = some subscription →
      r ∈ (later.emitter e).subscriptions ∨ later.subscription? r = none

namespace Retains

variable {world between later : World σ}

theorem refl (world : World σ) : Retains world world := by
  refine ⟨Nat.le_refl _, fun _ _ revoked => revoked, ?_⟩
  intro _ _ _ member _
  exact .inl member

theorem trans (first : Retains world between) (second : Retains between later) :
    Retains world later where
  size := Nat.le_trans first.size second.size
  revoked r old revoked := second.revoked r
    (Nat.lt_of_lt_of_le old first.size) (first.revoked r old revoked)
  owned e r subscription member held := by
    have known := Nat.lt_of_lt_of_le (index_lt_of_subscription? held) first.size
    rcases first.owned e r subscription member held with kept | revoked
    · cases present : between.subscription? r with
      | none => exact .inr (second.revoked r known present)
      | some other => exact second.owned e r other kept present
    · exact .inr (second.revoked r known revoked)

theorem aside (emitters : later.emitters = world.emitters)
    (revokers : later.revokers = world.revokers) : Retains world later := by
  refine ⟨Nat.le_of_eq (by rw [revokers]), fun r _ revoked => ?_,
    fun e r subscription member _ => .inl ?_⟩
  · rwa [subscription?, revokers]
  · rwa [emitter, emitters]

theorem steady : Steady (Retains (σ := σ)) where
  refl := refl
  trans := trans
  release _ _ _ inner := ⟨inner.size, inner.revoked, inner.owned⟩

/-- An emitter gets one more revoker and forgets revoked ones. -/
theorem own (e : EmitterId) (subscription : Subscription) (world : World σ) :
    Retains world ((Emitter.own e subscription).after world) := by
  obtain ⟨emitters, owned⟩ := Emitter.after_own e subscription world
  have same (r : RevokerId) :
      ((Emitter.own e subscription).after world).subscription? r =
        ((Revoker.create (some subscription)).after world).subscription? r := by
    rw [owned]
    rfl
  refine ⟨?_, fun r old revoked => ?_, fun other r held member found => ?_⟩
  · rw [owned]
    show world.revokers.size ≤
      ((Revoker.create (some subscription)).after world).revokers.size
    rw [Revoker.size_create]
    exact Nat.le_succ _
  · rw [same, Revoker.subscription?_create_of_ne _ _ (Nat.ne_of_lt old)]
    exact revoked
  · left
    rw [Emitter.emitter_own]
    split
    · rename_i equal
      subst equal
      refine List.mem_append_left _ (List.mem_filter.mpr ⟨member, ?_⟩)
      have old := index_lt_of_subscription? found
      simp [isRevoked, Revoker.subscription?_create_of_ne _ _
        (Nat.ne_of_lt old), found]
    · exact member

theorem listenToNode (e : EmitterId) (n : NodeId) (type : String)
    (action : EventAction) :
    (Emitter.listenToNode e n type action).Within (Retains (σ := σ)) := by
  intro world
  have subscribed : Retains world
      ((NodeEvents.subscribe n type action).after world) := .aside rfl rfl
  exact subscribed.trans (.own e _ _)

theorem revoke (r : RevokerId) :
    (Revoker.revoke r).Within (Retains (σ := σ)) := by
  intro world
  have emitters : ((Revoker.revoke r).after world).emitters =
      world.emitters := by
    obtain ⟨_, _, _, same⟩ := Revoker.revoke_leaves r world
    rw [same]
  refine ⟨(Revoker.step_revoke r world).size, fun other _ revoked => ?_,
    fun e other subscription member _ => .inl ?_⟩
  · rw [Revoker.subscription?_revoke, revoked, ite_self]
  · rwa [emitter, emitters]

end Retains

end World

namespace Emitter

theorem emitter_update_self (e : EmitterId) (change : Emitter → Emitter)
    (world : World σ) :
    ((update e change).after world).emitter e = change (world.emitter e) := by
  simp [update, World.emitter]

theorem emitter_update_of_ne {e other : EmitterId} (change : Emitter → Emitter)
    (world : World σ) (differs : other ≠ e) :
    ((update e change).after world).emitter other = world.emitter other := by
  have indexes : other.index ≠ e.index := by
    intro same
    apply differs
    cases other
    cases e
    exact congrArg EmitterId.mk same
  simp [update, World.emitter, Store.get_modify_of_ne _ _ indexes]

theorem subscription?_revokeEach (revokers : List RevokerId) (world : World σ)
    (r : RevokerId) :
    ((revokers.forM Revoker.revoke : Act σ Unit).after world).subscription? r =
      if r ∈ revokers then none else world.subscription? r := by
  induction revokers generalizing world with
  | nil => rfl
  | cons first rest ih =>
      show ((rest.forM Revoker.revoke : Act σ Unit).after
        ((Revoker.revoke first).after world)).subscription? r = _
      rw [ih, Revoker.subscription?_revoke]
      by_cases later : r ∈ rest <;> by_cases same : r = first <;>
        simp [later, same]

theorem revokeEach_leaves (revokers : List RevokerId) (world : World σ) :
    ∃ reactions eventActions kept,
      (revokers.forM Revoker.revoke : Act σ Unit).after world =
        { world with
          reactions := reactions
          eventActions := eventActions
          revokers := kept } := by
  induction revokers generalizing world with
  | nil => exact ⟨_, _, _, rfl⟩
  | cons r rest ih =>
      obtain ⟨_, _, _, first⟩ := Revoker.revoke_leaves r world
      obtain ⟨reactions, eventActions, kept, others⟩ :=
        ih ((Revoker.revoke r).after world)
      refine ⟨reactions, eventActions, kept, others.trans ?_⟩
      rw [first]

theorem after_destroy (host : Host σ) (e : EmitterId) (world : World σ) :
    (destroy host e).after world =
      (stopListening e).after ((keeping (.refs [.emitter e])
        ((world.emitter e).hooks.forM host.destroy)).after
          ((update e fun emitter => { emitter with hooks := [] }).after
            world)) := by
  simp only [destroy, Act.after_bind, Act.after_get, Act.result_get]

/-- Nothing but its subscriptions is taken from an emitter that stops
listening. -/
theorem emitter_stopListening (e other : EmitterId) (world : World σ) :
    ((stopListening e).after world).emitter other =
      ((update e fun emitter => { emitter with subscriptions := [] }).after
        world).emitter other := by
  let owned := (world.emitter e).subscriptions
  let emptied := (update e fun emitter =>
    { emitter with subscriptions := [] }).after world
  have ends : (stopListening e).after world =
      (owned.forM Revoker.revoke : Act σ Unit).after emptied := rfl
  obtain ⟨_, _, _, left⟩ := revokeEach_leaves owned emptied
  rw [ends, left]
  rfl

theorem retains_stopListening (e : EmitterId) :
    (stopListening e).Within (World.Retains (σ := σ)) := by
  intro world
  let owned := (world.emitter e).subscriptions
  let emptied := (update e fun emitter =>
    { emitter with subscriptions := [] }).after world
  have ends : (stopListening e).after world =
      (owned.forM Revoker.revoke : Act σ Unit).after emptied := rfl
  have size : world.revokers.size ≤
      ((stopListening e).after world).revokers.size := by
    rw [ends]
    exact (World.Retains.steady.forM (fun r => World.Retains.revoke r)
      emptied).size
  refine ⟨size, fun r _ revoked => ?_, fun other r held member found => ?_⟩
  · rw [ends, subscription?_revokeEach]
    split
    · rfl
    · exact revoked
  · rw [emitter_stopListening, ends, subscription?_revokeEach]
    by_cases same : other = e
    · subst same
      exact .inr (if_pos member)
    · left
      rwa [emitter_update_of_ne _ _ same]

theorem retains_unhook (e : EmitterId) :
    (update e fun emitter => { emitter with hooks := [] }).Within
      (World.Retains (σ := σ)) := by
  intro world
  refine ⟨Nat.le_refl _, fun _ _ revoked => revoked,
    fun other r held member _ => .inl ?_⟩
  by_cases same : other = e
  · subst same
    rwa [emitter_update_self]
  · rwa [emitter_update_of_ne _ _ same]

end Emitter

end LiveTemplate
