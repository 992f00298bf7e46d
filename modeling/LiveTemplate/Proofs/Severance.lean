import LiveTemplate.Proofs.Lasting
import LiveTemplate.Proofs.Runs

/-!
# Reverting severs the listeners on record

A template that is applied keeps the record of its pass.  Reverting gives up
the subscriptions on record, however the tree of nodes has changed, and no
others.  A listener that is gone stays gone, since its number is not given out
again, so that notices and dispatches under way pass it over.

The record is the one of the last `apply` that ended.  When the code of a
binding applies a template that is being applied, both calls succeed and the
record of the inner one is lost.
-/

namespace LiveTemplate

variable {σ : Type}

/-- A notice or dispatch that is about to call the listener passes it over. -/
def Subscription.IsPassedOver (subscription : Subscription)
    (world : World σ) : Prop :=
  match subscription.source with
  | .observable o =>
      ∀ (host : Host σ) (notice : Notice) (listener : Listener Reaction)
        (rest : List (Listener Reaction)),
        listener.id = subscription.listener →
        (Observable.notifyEach host o notice (listener :: rest)).after world =
          (Observable.notifyEach host o notice rest).after world
  | .node n =>
      ∀ (host : Host σ) (event : DomEvent) (listener : Listener EventAction)
        (rest : List (Listener EventAction)),
        listener.id = subscription.listener →
        (NodeEvents.runEach host n event (listener :: rest)).after world =
          (NodeEvents.runEach host n event rest).after world

theorem Listeners.contains_eq_false {α : Type} {listeners : Listeners α}
    {id : ListenerId} (absent : id ∉ listeners.entries.map (·.id)) :
    listeners.contains id = false := by
  unfold Listeners.contains
  rw [List.any_eq_false]
  intro listener member same
  apply absent
  rw [← of_decide_eq_true same]
  exact List.mem_map_of_mem member

theorem Subscription.isPassedOver_of_absent {subscription : Subscription}
    {world : World σ} (absent : ¬world.Registered subscription) :
    subscription.IsPassedOver world := by
  obtain ⟨source, id⟩ := subscription
  cases source with
  | observable o =>
      rintro host notice listener rest rfl
      have gone : (world.reactionsOf o).contains listener.id = false :=
        Listeners.contains_eq_false absent
      simp [Observable.notifyEach, gone]
  | node n =>
      rintro host event listener rest rfl
      have gone : (world.eventActionsOf n).contains listener.id = false :=
        Listeners.contains_eq_false absent
      simp [NodeEvents.runEach, gone]

/-- The second world has the listeners of the first one in their order, given
ones apart. -/
structure World.Without (given : Subscription → Bool)
    (world later : World σ) : Prop where
  reactions : ∀ o, (later.reactionsOf o).entries =
    (world.reactionsOf o).entries.filter fun listener =>
      !given ⟨.observable o, listener.id⟩
  eventActions : ∀ n, (later.eventActionsOf n).entries =
    (world.eventActionsOf n).entries.filter fun listener =>
      !given ⟨.node n, listener.id⟩

namespace World

theorem Severed.without {revokers : List RevokerId} {world later : World σ}
    (severed : Severed revokers world later) :
    Without (world.drops revokers) world later := by
  exact ⟨severed.reactions, severed.eventActions⟩

namespace Without

variable {given other : Subscription → Bool} {world later : World σ}

theorem registered_iff (without : Without given world later)
    (subscription : Subscription) :
    later.Registered subscription ↔
      world.Registered subscription ∧ given subscription = false := by
  have kept {α : Type} (entries : List (Listener α)) (source : Source)
      (id : ListenerId) :
      id ∈ (entries.filter fun listener =>
          !given ⟨source, listener.id⟩).map (·.id) ↔
        id ∈ entries.map (·.id) ∧ given ⟨source, id⟩ = false := by
    simp only [List.mem_map, List.mem_filter, Bool.not_eq_true']
    constructor
    · rintro ⟨listener, ⟨member, stays⟩, rfl⟩
      exact ⟨⟨listener, member, rfl⟩, stays⟩
    · rintro ⟨⟨listener, member, rfl⟩, stays⟩
      exact ⟨listener, ⟨member, stays⟩, rfl⟩
  obtain ⟨source, id⟩ := subscription
  cases source with
  | observable o =>
      show id ∈ (later.reactionsOf o).entries.map (·.id) ↔ _
      rw [without.reactions o]
      exact kept _ _ _
  | node n =>
      show id ∈ (later.eventActionsOf n).entries.map (·.id) ↔ _
      rw [without.eventActions n]
      exact kept _ _ _

/-- Which of the registered listeners are missing is determined. -/
theorem iff_agree (without : Without given world later) :
    Without other world later ↔
      ∀ subscription, world.Registered subscription →
        given subscription = other subscription := by
  constructor
  · intro also subscription present
    have first := without.registered_iff subscription
    have second := also.registered_iff subscription
    simp only [present, true_and] at first second
    have same := first.symm.trans second
    cases here : given subscription <;> cases there : other subscription <;>
      simp [here, there] at same ⊢
  · intro agree
    refine ⟨fun o => ?_, fun n => ?_⟩
    · rw [without.reactions o]
      apply List.filter_congr
      intro listener member
      rw [agree ⟨.observable o, listener.id⟩ (List.mem_map_of_mem member)]
    · rw [without.eventActions n]
      apply List.filter_congr
      intro listener member
      rw [agree ⟨.node n, listener.id⟩ (List.mem_map_of_mem member)]

end Without

end World

/-- What a record gave up after a run, when only the run came between. -/
theorem Accounts.drops_eq {foreign : Subscription → Prop}
    {revokers : List RevokerId} {before after world : World σ}
    (ordered : after.Ordered)
    (accounts : Accounts foreign revokers before after)
    (onward : Run after world) {subscription : Subscription}
    (present : world.Registered subscription) :
    world.drops revokers subscription =
      after.drops revokers subscription := by
  rw [Bool.eq_iff_iff, World.drops_iff, World.drops_iff]
  constructor
  · rintro ⟨r, member, held⟩
    exact ⟨r, member, held_before ordered onward
      (accounts.fresh r member).2.1 held⟩
  · rintro ⟨r, member, held⟩
    have progress := (onward.progress ordered).2
    rcases progress.held r subscription held with kept | ⟨_, absent⟩
    · exact ⟨r, member, kept⟩
    · exact absurd present absent

/-- Installed listeners are gone for good and the others are left as they
were. -/
structure World.Severs (installed : Subscription → Bool)
    (world later : World σ) : Prop where
  gone : ∀ subscription, installed subscription = true →
    ∀ final, Run later final →
      ¬final.Registered subscription ∧ subscription.IsPassedOver final
  others : World.Without installed world later

/-- Listeners that are missing after a run will not come back. -/
theorem World.Without.severs {installed : Subscription → Bool}
    {world later : World σ} (ordered : later.Ordered)
    (issued : ∀ subscription, installed subscription = true →
      later.Issued subscription)
    (others : World.Without installed world later) :
    World.Severs installed world later where
  others := others
  gone subscription given final onward := by
    have absent : ¬later.Registered subscription := fun present => by
      have kept := ((others.registered_iff subscription).mp present).2
      rw [given] at kept
      cases kept
    have progress := (onward.progress ordered).2
    have missing := progress.gone subscription (issued _ given) absent
    exact ⟨missing, Subscription.isPassedOver_of_absent missing⟩

private theorem World.Severed.liveCount_eq {revokers : List RevokerId}
    {world later : World σ} (severed : World.Severed revokers world later)
    (e : EmitterId) :
    Emitter.liveCount later e =
      (world.emitter e).subscriptions.countP fun r =>
        !world.isRevoked r && decide (r ∉ revokers) := by
  have emitter : later.emitter e = world.emitter e := by
    simp only [World.emitter, severed.emitters]
  unfold Emitter.liveCount
  rw [emitter]
  apply List.countP_congr
  intro r _
  simp only [World.isRevoked, severed.held]
  by_cases given : r ∈ revokers <;> simp [given]

namespace Template

variable {host : Host σ} {t : TemplateId} {n m : NodeId}

private theorem accounts_applyPass {foreign : Subscription → Prop}
    (transforms : host.TransformsWithin foreign) {world : World σ}
    (ordered : world.Ordered) :
    ((applyPass host t n).result world).2.Flat ∧
      Accounts foreign ((applyPass host t n).result world).2.revokers world
        ((applyPass host t n).after world) := by
  have entered : Accounts foreign [] world
      (world.holding (.refs [.template t] :: world.frames)) :=
    .of_reaches (.holding world _)
  have within := (entered.run.progress ordered).1
  obtain ⟨flat, accounts⟩ := accounts_passWithin transforms
    (fun _ => .pure (.error .componentNotRendered)) (t.index + 1) t (some n) []
    _ within
  refine ⟨flat, ?_⟩
  have left := accounts.trans within (.of_reaches (.holding _ world.frames))
  rw [List.append_nil] at left
  exact entered.trans ordered left

theorem accounts_apply {foreign : Subscription → Prop}
    (transforms : host.TransformsWithin foreign) {world : World σ}
    (ordered : world.Ordered)
    (applied : (apply host t n).result world = .ok m) :
    ∃ record : Record,
      (((apply host t n).after world).template t).applied =
          some (n, record) ∧
        Accounts foreign record.revokers world
          ((apply host t n).after world) := by
  obtain ⟨record, node, passed, ended⟩ := apply_ok applied
  obtain ⟨flat, accounts⟩ := accounts_applyPass transforms ordered
  rw [passed] at flat accounts
  refine ⟨record, ?_, ?_⟩
  · rw [ended, template_update]
  · have stored : Accounts foreign [] _ _ := .of_reaches
      (runs_keep t n flat _ (accounts.run.progress ordered).1)
    rw [ended, ← List.append_nil record.revokers]
    exact accounts.trans ordered stored

/-- What `revert` leaves behind, when it succeeds. -/
theorem severed_revert {world : World σ} (ordered : world.Ordered)
    (reverted : (revert t n : Act σ _).result world = .ok ()) :
    ∃ record, (world.template t).applied = some (n, record) ∧
      World.Severed record.revokers world
        ((revert t n : Act σ _).after world) := by
  obtain ⟨record, kept, ended⟩ := revert_ok reverted
  refine ⟨record, kept, ?_⟩
  rw [ended]
  have cleared : World.Severed [] world ((update t fun template =>
      { template with applied := none }).after world) :=
    .none rfl rfl rfl rfl
  exact cleared.trans
    (Record.severed_restore n record (ordered.records t _ kept) _)

/-- Reverting gives up the listeners of the record that is kept by then, in
whatever order things have happened.  These are the listeners that a certain
`apply` has installed, and are severed for good, exactly when the record holds
the same listeners among those that are there; so it is as long as the record
of that `apply` is the one that is kept.  It is kept through every operation
that begins after the `apply` and does not revert the template from the node,
whatever client code runs on the way, as long as this does not revert it
either. -/
theorem revert_severs_iff {foreign : Subscription → Prop}
    (transforms : host.TransformsWithin foreign) {client : σ}
    {before world : World σ} (begun : Run (World.initial client) before)
    (applied : (apply host t n).result before = .ok m)
    (onward : Run ((apply host t n).after before) world)
    (reverted : (revert t n : Act σ _).result world = .ok ()) :
    let after := (apply host t n).after before
    let later := (revert t n : Act σ _).after world
    ∃ own kept : Record,
      (after.template t).applied = some (n, own) ∧
      (world.template t).applied = some (n, kept) ∧
      Accounts foreign own.revokers before after ∧
      (World.Severs (after.drops own.revokers) world later ↔
        ∀ subscription, world.Registered subscription →
          world.drops kept.revokers subscription =
            after.drops own.revokers subscription) ∧
      (kept = own →
        World.Severs (after.drops own.revokers) world later ∧
        ∀ e, Emitter.liveCount later e =
          (world.emitter e).subscriptions.countP fun r =>
            !world.isRevoked r && decide (r ∉ own.revokers)) ∧
      ∀ inner : Host σ, inner.Within (World.KeepsRecord t n) →
        Meanwhile inner t n after world → kept = own := by
  intro after later
  have early := (begun.progress (World.ordered_initial client)).1
  obtain ⟨own, stored, accounts⟩ := accounts_apply transforms early applied
  have ordered := (accounts.run.progress early).1
  have here := (onward.progress ordered).1
  have ending : Run world later := (runs_revert t n world here).run
  obtain ⟨kept, inForce, severed⟩ := severed_revert here reverted
  have exact_condition : World.Severs (after.drops own.revokers) world later ↔
      ∀ subscription, world.Registered subscription →
        world.drops kept.revokers subscription =
          after.drops own.revokers subscription := by
    rw [← severed.without.iff_agree]
    refine ⟨fun severs => severs.others, fun others => others.severs ?_ ?_⟩
    · exact (ending.progress here).1
    · intro subscription given
      obtain ⟨r, _, held⟩ := World.drops_iff.mp given
      have issued := ordered.revokers r subscription held
      exact (ending.progress here).2.issued
        ((onward.progress ordered).2.issued issued)
  refine ⟨own, kept, stored, inForce, accounts, exact_condition, ?_, ?_⟩
  · rintro rfl
    exact ⟨exact_condition.mpr fun subscription present =>
      accounts.drops_eq ordered onward present, severed.liveCount_eq⟩
  · intro inner within meanwhile
    have lasts := meanwhile.keepsRecord within own stored
    exact congrArg Prod.snd (Option.some.inj (inForce.symm.trans lasts))

namespace Overlap

/-- A client whose code only computes. -/
def quiet : Host Bool where
  keeps _ := []
  notice _ _ := pure ()
  event _ _ := pure ()
  transform _ value _ := pure value
  destroy _ := pure ()

/-- A client that applies the template when its code is first called. -/
def nesting : Host Bool :=
  { quiet with
    transform := fun _ value node => do
      if !(← get).client then
        modify fun world => { world with client := true }
        let _ ← apply quiet ⟨0⟩ node
      return value }

/-- An empty text node, an observable, and a template that shows `x`. -/
def start : World Bool :=
  { World.initial false with
    dom := (Dom.empty.create (.text "")).2
    properties := ⟨#[[]]⟩
    emitters := ⟨#[⟨[], []⟩]⟩
    templates := ⟨#[⟨.ofText [.bound ⟨⟨0⟩, ⟨0⟩, "x", .value, some ⟨0⟩⟩],
      false, none⟩]⟩ }

/-- The world in which the code of the client applies the template. -/
def inner : World Bool :=
  { start.holding [.refs [.node ⟨0⟩], .refs [.template ⟨0⟩]] with
    client := true }

def applied : World Bool := (apply quiet ⟨0⟩ ⟨0⟩).after inner

def outer : World Bool := (apply nesting ⟨0⟩ ⟨0⟩).after start

def reverted : World Bool :=
  (revert ⟨0⟩ ⟨0⟩ : Act Bool (Except TemplateError Unit)).after outer

/-- The world in which the outer `apply` shows the text. -/
def entered : World Bool :=
  start.holding [.refs [.node ⟨0⟩], .refs [.template ⟨0⟩]]

def group : SyncGroup :=
  ⟨[.bound ⟨⟨0⟩, ⟨0⟩, "x", .value, some ⟨0⟩⟩], .text ⟨0⟩⟩

theorem run_start : Run (World.initial false) start := by
  have each (t : TemplateId) : (start.template t).applied = none ∧
      (start.template t).blueprint.IsSound t.index := by
    obtain ⟨index⟩ := t
    cases index with
    | zero => exact ⟨rfl, .nil, fun _ member => nomatch member⟩
    | succ index => exact ⟨rfl, .none _⟩
  refine .aside rfl rfl rfl ⟨fun t entry kept => ?_, fun _ t => (each t).2⟩
  rw [(each t).1] at kept
  cases kept

private theorem run_inner : Run (World.initial false) inner := by
  exact run_start.trans (.aside rfl rfl rfl (.of_templates rfl))

private theorem after_transform :
    (nesting.transform ⟨0⟩ .undefined ⟨0⟩).after entered =
      Overlap.applied := rfl

theorem after_evaluate (host : Host Bool) :
    (evaluate host ⟨0⟩ group.chunks).after entered =
      (host.transform ⟨0⟩ .undefined ⟨0⟩).after entered := rfl

theorem after_bind (host : Host Bool) (world : World Bool) :
    (SyncGroup.bind host group).after world =
      (Emitter.listenToObservable ⟨0⟩ ⟨0⟩ (changeOf "x") (.sync group)).after
        ((group.sync host).after world) := rfl

/-- What the outer `apply` does once the code of the client has run. -/
theorem run_bind : Run Overlap.applied
    ((SyncGroup.bind nesting group).after entered) := by
  have shown : Run Overlap.applied ((group.sync nesting).after entered) := by
    rw [← after_transform, ← after_evaluate]
    exact .aside rfl rfl rfl (.of_templates rfl)
  rw [after_bind]
  exact shown.trans (.listenToObservable _ _ _ _ _)

theorem outer_eq : ∃ record : Record, record.Flat ∧
    outer = (update ⟨0⟩ fun template =>
      { template with applied := some (⟨0⟩, record) }).after
        (((SyncGroup.bind nesting group).after entered).holding []) := by
  have text : (start.template ⟨0⟩).blueprint.text = some group.chunks := rfl
  have flat : flattenChunks group.chunks = group.chunks := rfl
  have ran := run_apply_text nesting (n := ⟨0⟩) rfl rfl text rfl
  rw [flat] at ran
  exact ⟨_, .text, congrArg Prod.snd ran⟩

theorem run_outer : Run Overlap.applied outer := by
  obtain ⟨record, flat, ended⟩ := outer_eq
  rw [ended]
  exact run_bind.trans ((Run.holding _ _).trans
    (.aside rfl rfl rfl (keepsTemplates_keep _ _ flat _)))

private theorem result_revert :
    (revert ⟨0⟩ ⟨0⟩ : Act Bool _).result outer = .ok () := by
  obtain ⟨record, _, ended⟩ := outer_eq
  apply revert_of_applied
  rw [ended, template_update]

theorem transforms_quiet (handler : Handler) (value : Value) (node : NodeId) :
    (quiet.transform handler value node).RunsWithin fun _ => False := by
  exact .pure value

theorem within_quiet :
    quiet.Within (World.KeepsRecord (σ := Bool) ⟨0⟩ ⟨0⟩) where
  notice _ _ world := .refl world
  event _ _ world := .refl world
  transform _ _ _ world := .refl world
  destroy _ world := .refl world

/-- The observable has another value, the template has been applied once more in
vain, and one more listener has been subscribed. -/
def busy : World Bool :=
  (Observable.subscribe ⟨0⟩ "change:x" (.call ⟨0⟩)).after
    ((apply quiet ⟨0⟩ ⟨0⟩).after
      ((Observable.set quiet ⟨0⟩ "x" (.bool true)).after
        ((apply quiet ⟨0⟩ ⟨0⟩).after start)))

theorem meanwhile_busy :
    Meanwhile quiet ⟨0⟩ ⟨0⟩ ((apply quiet ⟨0⟩ ⟨0⟩).after start) busy := by
  exact .trans (.operation _ (.set ⟨0⟩ "x" (.bool true)) nofun)
    (.trans (.operation _ (.apply ⟨0⟩ ⟨0⟩) nofun) (.aside fun _ => rfl))

theorem run_busy : Run ((apply quiet ⟨0⟩ ⟨0⟩).after start) busy := by
  have orderly : quiet.Orderly :=
    ⟨fun _ _ => .pure (), fun _ _ => .pure (), fun _ value _ => .pure value,
      fun _ => .pure ()⟩
  have ordered := (run_start.progress (World.ordered_initial false)).1
  have first := (runs_apply orderly ⟨0⟩ ⟨0⟩).run ordered
  have second := (Observable.runs_set orderly ⟨0⟩ "x" (.bool true)).run
    (first.progress ordered).1
  have third := (runs_apply orderly ⟨0⟩ ⟨0⟩).run
    ((first.trans second).progress ordered).1
  exact second.trans (third.trans (.subscribe _ _ _ _))

/-- Without code that applies the template again, `revert` severs the listener
that `apply` has installed and leaves one that was added later. -/
theorem revert_severs_listener_of_apply :
    let after := (apply quiet ⟨0⟩ ⟨0⟩).after start
    let later := (revert ⟨0⟩ ⟨0⟩ : Act Bool (Except TemplateError Unit)).after
      busy
    (apply quiet ⟨0⟩ ⟨0⟩).result start = .ok ⟨0⟩ ∧
      (revert ⟨0⟩ ⟨0⟩ : Act Bool _).result busy = .ok () ∧
      after.Registered ⟨.observable ⟨0⟩, ⟨0⟩⟩ ∧
      ¬later.Registered ⟨.observable ⟨0⟩, ⟨0⟩⟩ ∧
      later.Registered ⟨.observable ⟨0⟩, ⟨1⟩⟩ := by
  intro after later
  have applied : (apply quiet ⟨0⟩ ⟨0⟩).result start = .ok ⟨0⟩ := rfl
  have ordered := (run_start.progress (World.ordered_initial false)).1
  obtain ⟨record, stored, _⟩ := accounts_apply transforms_quiet ordered applied
  have reverts : (revert ⟨0⟩ ⟨0⟩ : Act Bool _).result busy = .ok () :=
    revert_of_applied (meanwhile_busy.keepsRecord within_quiet record stored)
  obtain ⟨own, kept, before, inForce, accounts, _, severs, lasts⟩ :=
    revert_severs_iff transforms_quiet run_start applied run_busy reverts
  have same : kept = own := lasts quiet within_quiet meanwhile_busy
  have others := (severs same).1.others
  have there : after.Registered ⟨.observable ⟨0⟩, ⟨0⟩⟩ := by
    show _ ∈ after.idsAt (.observable ⟨0⟩)
    decide +kernel
  have installed : after.drops own.revokers ⟨.observable ⟨0⟩, ⟨0⟩⟩ = true := by
    rcases accounts.counted _ there with early | added | held
    · cases early
    · cases added
    · exact World.drops_iff.mpr held
  have foreign : after.drops own.revokers ⟨.observable ⟨0⟩, ⟨1⟩⟩ = false := by
    cases given : after.drops own.revokers ⟨.observable ⟨0⟩, ⟨1⟩⟩ with
    | false => rfl
    | true =>
        obtain ⟨r, _, held⟩ := World.drops_iff.mp given
        have issued : 1 < after.nextAt (.observable ⟨0⟩) :=
          (accounts.run.progress ordered).1.revokers r _ held
        exact absurd issued (by decide +kernel)
  refine ⟨applied, reverts, there, fun present => ?_, ?_⟩
  · rw [((others.registered_iff _).mp present).2] at installed
    cases installed
  · refine (others.registered_iff _).mpr ⟨?_, foreign⟩
    show _ ∈ busy.idsAt (.observable ⟨0⟩)
    decide +kernel

/-- The listener of the inner `apply` outlives a `revert` that succeeds. -/
theorem revert_leaves_inner_listener :
    let listener : Subscription := ⟨.observable ⟨0⟩, ⟨0⟩⟩
    Run (World.initial false) inner ∧
      (apply quiet ⟨0⟩ ⟨0⟩).result inner = .ok ⟨0⟩ ∧
      ¬inner.Registered listener ∧ Overlap.applied.Registered listener ∧
      Run Overlap.applied outer ∧
      (revert ⟨0⟩ ⟨0⟩ : Act Bool _).result outer = .ok () ∧
      reverted.Registered listener := by
  refine ⟨run_inner, rfl, ?_, ?_, run_outer, result_revert, ?_⟩
  · show _ ∉ inner.idsAt (.observable ⟨0⟩)
    decide +kernel
  · show _ ∈ Overlap.applied.idsAt (.observable ⟨0⟩)
    decide +kernel
  · show _ ∈ reverted.idsAt (.observable ⟨0⟩)
    decide +kernel

end Overlap

end Template

end LiveTemplate
