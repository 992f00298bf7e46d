import LiveTemplate.Proofs.Subscriptions
import LiveTemplate.Template.Record

/-!
# What giving up a record does

`Record.revokers` lists the revokers of a record and of the records below it.
However the tree of nodes looks by then, restoring a record gives up exactly
these: a record whose node is gone is revoked all the same, and one with a text
has no children.
-/

namespace LiveTemplate

variable {σ : Type}

namespace Record

mutual

/-- The revokers of a record and of those below it. -/
def revokers : Record → List RevokerId
  | ⟨_, _, bindings, children⟩ => bindings.flatten ++ revokersOf children

def revokersOf : List Record → List RevokerId
  | [] => []
  | record :: rest => record.revokers ++ revokersOf rest

end

private theorem mem_revokersOf_append {r : RevokerId} {records : List Record}
    {child : Record} :
    r ∈ revokersOf (records ++ [child]) ↔
      r ∈ revokersOf records ∨ r ∈ child.revokers := by
  induction records with
  | nil => simp [revokersOf]
  | cons record rest ih => simp [revokersOf, ih, or_assoc]

theorem mem_revokers_noteGroup {r : RevokerId} {record : Record}
    {group : List RevokerId} :
    r ∈ revokers { record with bindings := record.bindings ++ [group] } ↔
      r ∈ record.revokers ∨ r ∈ group := by
  obtain ⟨text, attributes, bindings, children⟩ := record
  simp only [revokers, List.flatten_append, List.flatten_cons,
    List.flatten_nil, List.append_nil, List.mem_append]
  exact or_right_comm

theorem mem_revokers_noteChild {r : RevokerId} {record child : Record} :
    r ∈ revokers { record with children := record.children ++ [child] } ↔
      r ∈ record.revokers ∨ r ∈ child.revokers := by
  obtain ⟨text, attributes, bindings, children⟩ := record
  simp only [revokers, List.mem_append, mem_revokersOf_append, or_assoc]

end Record

/-- The revokers are those of all listeners that were added between two worlds,
foreign ones apart. -/
structure Accounts (foreign : Subscription → Prop) (revokers : List RevokerId)
    (world later : World σ) : Prop where
  run : Run world later
  fresh : ∀ r ∈ revokers, world.revokers.size ≤ r.index ∧
    r.index < later.revokers.size ∧
    ∀ subscription, later.subscription? r = some subscription →
      ¬world.Issued subscription
  counted : ∀ subscription, later.Registered subscription →
    world.Registered subscription ∨ foreign subscription ∨
      ∃ r ∈ revokers, later.subscription? r = some subscription

namespace Accounts

variable {foreign : Subscription → Prop}

theorem refl (world : World σ) : Accounts foreign [] world world where
  run := .refl world
  fresh r member := by cases member
  counted _ present := .inl present

theorem congr {revokers others : List RevokerId} {world later : World σ}
    (accounts : Accounts foreign revokers world later)
    (same : ∀ r, r ∈ others ↔ r ∈ revokers) :
    Accounts foreign others world later where
  run := accounts.run
  fresh r member := accounts.fresh r ((same r).mp member)
  counted subscription present := by
    rcases accounts.counted subscription present with
      before | added | ⟨r, member, held⟩
    · exact .inl before
    · exact .inr (.inl added)
    · exact .inr (.inr ⟨r, (same r).mpr member, held⟩)

theorem held_before {world later : World σ} (ordered : world.Ordered)
    (run : Run world later) {r : RevokerId}
    (there : r.index < world.revokers.size) {subscription : Subscription}
    (held : later.subscription? r = some subscription) :
    world.subscription? r = some subscription := by
  have progress := (run.progress ordered).2
  cases before : world.subscription? r with
  | none =>
      rw [progress.revoked r there before] at held
      cases held
  | some other =>
      rcases progress.held r other before with kept | ⟨given, _⟩
      · rw [kept] at held
        exact held
      · rw [given] at held
        cases held

theorem trans {first second : List RevokerId} {world between later : World σ}
    (ordered : world.Ordered)
    (early : Accounts foreign first world between)
    (late : Accounts foreign second between later) :
    Accounts foreign (first ++ second) world later := by
  obtain ⟨middle, earlier⟩ := early.run.progress ordered
  obtain ⟨_, progress⟩ := late.run.progress middle
  refine ⟨early.run.trans late.run, fun r member => ?_,
    fun subscription present => ?_⟩
  · rcases List.mem_append.mp member with before | after
    · obtain ⟨new, there, unissued⟩ := early.fresh r before
      exact ⟨new, Nat.lt_of_lt_of_le there progress.size,
        fun subscription held =>
          unissued subscription (held_before middle late.run there held)⟩
    · obtain ⟨new, there, unissued⟩ := late.fresh r after
      exact ⟨Nat.le_trans earlier.size new, there,
        fun subscription held issued =>
          unissued subscription held (earlier.issued issued)⟩
  · rcases late.counted subscription present with
      before | added | ⟨r, member, held⟩
    · rcases early.counted subscription before with
        old | added | ⟨r, member, held⟩
      · exact .inl old
      · exact .inr (.inl added)
      · rcases progress.held r subscription held with kept | ⟨_, absent⟩
        · exact .inr (.inr ⟨r, List.mem_append_left _ member, kept⟩)
        · exact absurd present absent
    · exact .inr (.inl added)
    · exact .inr (.inr ⟨r, List.mem_append_right _ member, held⟩)

theorem of_listened {source : Source} {world later : World σ} {r : RevokerId}
    (run : Run world later)
    (listened : Emitter.Listened source world later r) :
    Accounts foreign [r] world later where
  run := run
  fresh other member := by
    rw [List.mem_singleton.mp member]
    refine ⟨?_, ?_, fun subscription held issued => ?_⟩
    · exact Nat.le_of_eq (congrArg RevokerId.index listened.revoker.symm)
    · rw [listened.size, listened.revoker]
      exact Nat.lt_succ_self _
    · rw [listened.held] at held
      cases held
      exact Nat.lt_irrefl _ issued
  counted subscription present := by
    rcases listened.registered subscription present with before | rfl
    · exact .inl before
    · exact .inr (.inr ⟨r, List.mem_singleton_self r, listened.held⟩)

theorem mapM {α : Type} {items : List α} {listen : α → Act σ RevokerId}
    (listens : ∀ item world, Accounts foreign
      [(listen item).result world] world ((listen item).after world))
    {world : World σ} (ordered : world.Ordered) :
    Accounts foreign ((items.mapM listen).result world) world
      ((items.mapM listen).after world) := by
  induction items generalizing world with
  | nil => exact .refl world
  | cons item rest ih =>
      rw [List.mapM_cons]
      have first := listens item world
      have later := ih (first.run.progress ordered).1
      exact first.trans ordered later

end Accounts

namespace World

/-- Some revoker of a list can still give up a subscription. -/
def drops (world : World σ) (revokers : List RevokerId)
    (subscription : Subscription) : Bool :=
  revokers.any fun r => decide (world.subscription? r = some subscription)

theorem drops_iff {world : World σ} {revokers : List RevokerId}
    {subscription : Subscription} :
    world.drops revokers subscription = true ↔
      ∃ r ∈ revokers, world.subscription? r = some subscription := by
  simp [drops]

/-- The second world is the first one without the subscriptions of some
revokers. -/
structure Severed (revokers : List RevokerId) (world later : World σ) :
    Prop where
  reactions : ∀ o, (later.reactionsOf o).entries =
    (world.reactionsOf o).entries.filter fun listener =>
      !world.drops revokers ⟨.observable o, listener.id⟩
  eventActions : ∀ n, (later.eventActionsOf n).entries =
    (world.eventActionsOf n).entries.filter fun listener =>
      !world.drops revokers ⟨.node n, listener.id⟩
  held : ∀ r, later.subscription? r =
    if r ∈ revokers then none else world.subscription? r
  emitters : later.emitters = world.emitters

namespace Severed

/-- What leaves listeners and revokers alone gives up nothing. -/
theorem none {world later : World σ}
    (reactions : later.reactions = world.reactions)
    (eventActions : later.eventActions = world.eventActions)
    (revokers : later.revokers = world.revokers)
    (emitters : later.emitters = world.emitters) :
    Severed [] world later where
  reactions o := by
    simp only [reactionsOf, reactions, drops, List.any_nil, Bool.not_false]
    exact (List.filter_eq_self.mpr fun _ _ => rfl).symm
  eventActions n := by
    simp only [eventActionsOf, eventActions, drops, List.any_nil,
      Bool.not_false]
    exact (List.filter_eq_self.mpr fun _ _ => rfl).symm
  held r := by
    simp [subscription?, revokers]
  emitters := emitters

theorem drops_append {first second : List RevokerId} {world later : World σ}
    (severed : Severed first world later) (subscription : Subscription) :
    world.drops (first ++ second) subscription =
      (world.drops first subscription || later.drops second subscription) := by
  rw [Bool.eq_iff_iff, Bool.or_eq_true]
  simp only [drops_iff, List.mem_append]
  constructor
  · rintro ⟨r, before | after, holds⟩
    · exact .inl ⟨r, before, holds⟩
    · by_cases given : r ∈ first
      · exact .inl ⟨r, given, holds⟩
      · refine .inr ⟨r, after, ?_⟩
        rw [severed.held, if_neg given]
        exact holds
  · rintro (⟨r, member, holds⟩ | ⟨r, member, holds⟩)
    · exact ⟨r, .inl member, holds⟩
    · rw [severed.held] at holds
      split at holds
      · cases holds
      · exact ⟨r, .inr member, holds⟩

theorem trans {first second : List RevokerId} {world between later : World σ}
    (early : Severed first world between)
    (late : Severed second between later) :
    Severed (first ++ second) world later where
  reactions o := by
    rw [late.reactions, early.reactions, List.filter_filter]
    apply List.filter_congr
    intro listener _
    rw [early.drops_append, Bool.not_or, Bool.and_comm]
  eventActions n := by
    rw [late.eventActions, early.eventActions, List.filter_filter]
    apply List.filter_congr
    intro listener _
    rw [early.drops_append, Bool.not_or, Bool.and_comm]
  held r := by
    rw [late.held, early.held]
    by_cases given : r ∈ first <;> simp [given]
  emitters := late.emitters.trans early.emitters

end Severed

end World

namespace Subscription

theorem reactionsOf_drop (subscription : Subscription) (world : World σ)
    (o : ObservableId) :
    ((subscription.drop.after world).reactionsOf o).entries =
      (world.reactionsOf o).entries.filter fun listener =>
        !decide (subscription = ⟨.observable o, listener.id⟩) := by
  obtain ⟨source, listener⟩ := subscription
  cases source with
  | observable other =>
      by_cases same : o = other
      · subst same
        simp only [drop, Observable.unsubscribe,
          Observable.reactionsOf_modifyReactions_self, Listeners.remove]
        apply List.filter_congr
        intro entry _
        simp [eq_comm]
      · have kept : ((drop ⟨.observable other, listener⟩).after
            world).reactionsOf o = world.reactionsOf o :=
          Observable.reactionsOf_modifyReactions_of_ne _ _ same
        rw [kept]
        symm
        rw [List.filter_eq_self]
        intro entry _
        simp [Ne.symm same]
  | node n =>
      symm
      exact List.filter_eq_self.mpr fun entry _ => by simp

theorem eventActionsOf_drop (subscription : Subscription) (world : World σ)
    (n : NodeId) :
    ((subscription.drop.after world).eventActionsOf n).entries =
      (world.eventActionsOf n).entries.filter fun listener =>
        !decide (subscription = ⟨.node n, listener.id⟩) := by
  obtain ⟨source, listener⟩ := subscription
  cases source with
  | observable o =>
      symm
      exact List.filter_eq_self.mpr fun entry _ => by simp
  | node other =>
      by_cases same : n = other
      · subst same
        simp only [drop, NodeEvents.unsubscribe,
          NodeEvents.eventActionsOf_modifyActions_self, Listeners.remove]
        apply List.filter_congr
        intro entry _
        simp [eq_comm]
      · have kept : ((drop ⟨.node other, listener⟩).after
            world).eventActionsOf n = world.eventActionsOf n :=
          NodeEvents.eventActionsOf_modifyActions_of_ne _ _ same
        rw [kept]
        symm
        rw [List.filter_eq_self]
        intro entry _
        simp [Ne.symm same]

end Subscription

theorem Revoker.severed_revoke (r : RevokerId) (world : World σ) :
    World.Severed [r] world ((revoke r).after world) := by
  refine ⟨fun o => ?_, fun n => ?_, fun other => ?_, ?_⟩
  · rw [after_revoke]
    cases held : world.subscription? r with
    | none =>
        symm
        exact List.filter_eq_self.mpr fun entry _ => by
          simp [World.drops, held]
    | some subscription =>
        have unaffected : (forget world r).reactionsOf o =
            world.reactionsOf o := rfl
        simp only [Subscription.reactionsOf_drop, unaffected]
        apply List.filter_congr
        intro entry _
        simp [World.drops, held]
  · rw [after_revoke]
    cases held : world.subscription? r with
    | none =>
        symm
        exact List.filter_eq_self.mpr fun entry _ => by
          simp [World.drops, held]
    | some subscription =>
        have unaffected : (forget world r).eventActionsOf n =
            world.eventActionsOf n := rfl
        simp only [Subscription.eventActionsOf_drop, unaffected]
        apply List.filter_congr
        intro entry _
        simp [World.drops, held]
  · rw [subscription?_revoke]
    simp
  · rw [after_revoke]
    cases world.subscription? r with
    | none => rfl
    | some subscription =>
        obtain ⟨source, listener⟩ := subscription
        cases source <;> rfl

namespace Record

theorem severed_forM (revokers : List RevokerId) (world : World σ) :
    World.Severed revokers world
      ((revokers.forM Revoker.revoke : Act σ Unit).after world) := by
  induction revokers generalizing world with
  | nil => exact .none rfl rfl rfl rfl
  | cons r rest ih =>
      exact (Revoker.severed_revoke r world).trans (ih _)

theorem severed_bindings (bindings : List (List RevokerId))
    (world : World σ) :
    World.Severed bindings.flatten world
      ((bindings.forM fun group => group.forM Revoker.revoke :
        Act σ Unit).after world) := by
  induction bindings generalizing world with
  | nil => exact .none rfl rfl rfl rfl
  | cons group rest ih =>
      rw [List.flatten_cons]
      exact (severed_forM group world).trans (ih _)

mutual

theorem severed_revokeAll (record : Record) (world : World σ) :
    World.Severed record.revokers world
      ((revokeAll record : Act σ Unit).after world) := by
  obtain ⟨text, attributes, bindings, children⟩ := record
  rw [revokeAll, revokers, Act.after_bind]
  exact (severed_bindings bindings world).trans
    (severed_revokeEach children _)

theorem severed_revokeEach (records : List Record) (world : World σ) :
    World.Severed (revokersOf records) world
      ((revokeEach records : Act σ Unit).after world) := by
  cases records with
  | nil =>
      rw [revokeEach, revokersOf]
      exact .none rfl rfl rfl rfl
  | cons record rest =>
      rw [revokeEach, revokersOf, Act.after_bind]
      exact (severed_revokeAll record world).trans
        (severed_revokeEach rest _)

end

theorem severed_modifyDom (change : Dom → Dom) (world : World σ) :
    World.Severed [] world ((modifyDom change).after world) := by
  exact .none rfl rfl rfl rfl

private theorem severed_restoreAttributes (n : NodeId)
    (attributes : List SavedAttribute) (world : World σ) :
    World.Severed [] world
      ((attributes.forM (restoreAttribute n) : Act σ Unit).after world) := by
  induction attributes generalizing world with
  | nil => exact .none rfl rfl rfl rfl
  | cons saved rest ih =>
      exact (severed_modifyDom _ world).trans
        (ih ((restoreAttribute n saved).after world))

theorem after_restoreEach_cons (n : NodeId) (index : Nat) (record : Record)
    (rest : List Record) (world : World σ) :
    (restoreEach n index (record :: rest) : Act σ Unit).after world =
      (restoreEach n (index + 1) rest : Act σ Unit).after
        (match (world.dom.children n)[index]? with
        | some child => (restore child record : Act σ Unit).after world
        | none => (revokeAll record : Act σ Unit).after world) := by
  rw [restoreEach]
  cases found : (world.dom.children n)[index]? <;> simp [found]

mutual

/-- Restoring a record gives up all its subscriptions, wherever its nodes are
by then. -/
theorem severed_restore (n : NodeId) (record : Record) (flat : record.Flat)
    (world : World σ) :
    World.Severed record.revokers world
      ((restore n record : Act σ Unit).after world) := by
  obtain ⟨text, attributes, bindings, children⟩ := record
  cases text with
  | some data =>
      cases flat
      rw [restore, revokers, revokersOf, Act.after_bind]
      exact (severed_bindings bindings world).trans (severed_modifyDom _ _)
  | none =>
      cases flat with
      | element flats =>
          rw [restore, revokers, Act.after_bind]
          exact (severed_bindings bindings world).trans
            ((severed_restoreAttributes n attributes _).trans
              (severed_restoreEach n 0 children flats _))

theorem severed_restoreEach (n : NodeId) (index : Nat)
    (records : List Record) (flats : ∀ record ∈ records, record.Flat)
    (world : World σ) :
    World.Severed (revokersOf records) world
      ((restoreEach n index records : Act σ Unit).after world) := by
  cases records with
  | nil =>
      rw [restoreEach, revokersOf]
      exact .none rfl rfl rfl rfl
  | cons record rest =>
      have flat := flats record (by simp)
      have later (world : World σ) :=
        severed_restoreEach n (index + 1) rest
          (fun other member => flats other (by simp [member])) world
      rw [after_restoreEach_cons, revokersOf]
      cases (world.dom.children n)[index]? with
      | some child => exact (severed_restore child record flat _).trans (later _)
      | none => exact (severed_revokeAll record _).trans (later _)

end

end Record

end LiveTemplate
