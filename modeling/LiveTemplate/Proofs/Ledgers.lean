import LiveTemplate.Proofs.Composition
import LiveTemplate.Proofs.Records
import LiveTemplate.View

/-!
# What passes leave on the books

A ledger is the list of listeners of one source or of the live subscriptions of
one emitter.  During a pass ledgers only grow at the end.  `Tally` splits what
they grew by into what a list of revokers can give up and what views added
whose own rendering was completed on the way.  Giving up the revokers leaves
the additions of these views and nothing else.
-/

namespace LiveTemplate

variable {σ : Type}

/-- What keeps a list of listeners or of subscriptions. -/
inductive Ledger where
  | observable (observable : ObservableId)
  | node (node : NodeId)
  | emitter (emitter : EmitterId)

inductive LedgerEntry where
  | reaction (listener : Listener Reaction)
  | action (listener : Listener EventAction)
  | revoker (revoker : RevokerId)

namespace World

/-- The revokers of an emitter that have not been revoked. -/
def liveRevokers (world : World σ) (e : EmitterId) : List RevokerId :=
  (world.emitter e).subscriptions.filter fun r => !world.isRevoked r

/-- The entries of a ledger, in order. -/
def ledger (world : World σ) : Ledger → List LedgerEntry
  | .observable o => (world.reactionsOf o).entries.map .reaction
  | .node n => (world.eventActionsOf n).entries.map .action
  | .emitter e => (world.liveRevokers e).map .revoker

/-- An entry with a number that has been given out. -/
def Knows (world : World σ) : Ledger → LedgerEntry → Prop
  | .observable o, .reaction listener =>
      world.Issued ⟨.observable o, listener.id⟩
  | .node n, .action listener => world.Issued ⟨.node n, listener.id⟩
  | _, .revoker r => r.index < world.revokers.size
  | _, _ => True

/-- Whether some revokers can give up an entry. -/
def owns (world : World σ) (revokers : List RevokerId) :
    Ledger → LedgerEntry → Bool
  | .observable o, .reaction listener =>
      world.drops revokers ⟨.observable o, listener.id⟩
  | .node n, .action listener => world.drops revokers ⟨.node n, listener.id⟩
  | _, .revoker r => decide (r ∈ revokers)
  | _, _ => false

private theorem knows_reaction (world : World σ) (o : ObservableId)
    (listener : Listener Reaction) :
    world.Knows (.observable o) (.reaction listener) =
      world.Issued ⟨.observable o, listener.id⟩ := rfl

theorem knows_action (world : World σ) (n : NodeId)
    (listener : Listener EventAction) :
    world.Knows (.node n) (.action listener) =
      world.Issued ⟨.node n, listener.id⟩ := rfl

private theorem owns_reaction (world : World σ) (revokers : List RevokerId)
    (o : ObservableId) (listener : Listener Reaction) :
    world.owns revokers (.observable o) (.reaction listener) =
      world.drops revokers ⟨.observable o, listener.id⟩ := rfl

theorem owns_action (world : World σ) (revokers : List RevokerId) (n : NodeId)
    (listener : Listener EventAction) :
    world.owns revokers (.node n) (.action listener) =
      world.drops revokers ⟨.node n, listener.id⟩ := rfl

/-- All numbers in ledgers have been given out. -/
structure Booked (world : World σ) : Prop where
  ordered : world.Ordered
  owned : ∀ e, ∀ r ∈ (world.emitter e).subscriptions,
    r.index < world.revokers.size

theorem Booked.of_same {world later : World σ} (booked : world.Booked)
    (run : Run world later) (emitters : later.emitters = world.emitters)
    (revokers : later.revokers = world.revokers) : later.Booked := by
  refine ⟨(run.progress booked.ordered).1, fun e r member => ?_⟩
  rw [revokers]
  unfold World.emitter at member
  rw [emitters] at member
  exact booked.owned e r member

theorem ledger_congr {world later : World σ}
    (reactions : later.reactions = world.reactions)
    (eventActions : later.eventActions = world.eventActions)
    (emitters : later.emitters = world.emitters)
    (revokers : later.revokers = world.revokers) :
    later.ledger = world.ledger := by
  funext ledger
  cases ledger <;>
    simp only [World.ledger, reactionsOf, eventActionsOf, liveRevokers,
      World.emitter, isRevoked, subscription?, reactions, eventActions,
      emitters, revokers]

theorem knows_of_mem_ledger {world : World σ} (ordered : world.Ordered)
    {ledger : Ledger} {entry : LedgerEntry}
    (member : entry ∈ world.ledger ledger) : world.Knows ledger entry := by
  cases ledger with
  | observable o =>
      obtain ⟨listener, inside, rfl⟩ := List.mem_map.mp member
      exact ordered.listeners ⟨.observable o, listener.id⟩
        (List.mem_map_of_mem inside)
  | node n =>
      obtain ⟨listener, inside, rfl⟩ := List.mem_map.mp member
      exact ordered.listeners ⟨.node n, listener.id⟩
        (List.mem_map_of_mem inside)
  | emitter e =>
      obtain ⟨r, inside, rfl⟩ := List.mem_map.mp member
      obtain ⟨_, live⟩ := List.mem_filter.mp inside
      cases held : world.subscription? r with
      | none => simp [isRevoked, held] at live
      | some subscription => exact index_lt_of_subscription? held

theorem liveCount_eq_length_ledger (world : World σ) (e : EmitterId) :
    Emitter.liveCount world e = (world.ledger (.emitter e)).length := by
  rw [World.ledger, List.length_map]
  exact List.countP_eq_length_filter

theorem Later.knows {world later : World σ} (progress : Later world later)
    {ledger : Ledger} {entry : LedgerEntry} (known : world.Knows ledger entry) :
    later.Knows ledger entry := by
  cases ledger <;> cases entry <;>
    first
    | exact progress.issued known
    | exact Nat.lt_of_lt_of_le known progress.size
    | trivial

/-- What some revokers can give up has numbers that were given out before the
revokers are newer than. -/
theorem owns_eq_false_of_knows {world later : World σ}
    {revokers : List RevokerId}
    (fresh : ∀ r ∈ revokers, world.revokers.size ≤ r.index ∧
      ∀ subscription, later.subscription? r = some subscription →
        ¬world.Issued subscription)
    {ledger : Ledger} {entry : LedgerEntry} (known : world.Knows ledger entry) :
    later.owns revokers ledger entry = false := by
  have drops (subscription : Subscription)
      (issued : world.Issued subscription) :
      later.drops revokers subscription = false := by
    rw [Bool.eq_false_iff]
    intro dropped
    obtain ⟨r, member, held⟩ := drops_iff.mp dropped
    exact (fresh r member).2 subscription held issued
  have absent (r : RevokerId) (old : r.index < world.revokers.size) :
      r ∉ revokers :=
    fun member => absurd old (Nat.not_lt.mpr (fresh r member).1)
  cases ledger <;> cases entry <;>
    first
    | exact drops _ known
    | exact decide_eq_false (absent _ known)
    | rfl

theorem owns_congr {world later : World σ} {revokers : List RevokerId}
    (held : ∀ r ∈ revokers, later.subscription? r = world.subscription? r)
    (ledger : Ledger) (entry : LedgerEntry) :
    later.owns revokers ledger entry = world.owns revokers ledger entry := by
  have drops (subscription : Subscription) :
      later.drops revokers subscription = world.drops revokers subscription := by
    rw [Bool.eq_iff_iff, drops_iff, drops_iff]
    refine exists_congr fun r => and_congr_right fun member => ?_
    rw [held r member]
  cases ledger <;> cases entry <;> first | exact drops _ | rfl

private theorem knows_of_owns {world : World σ} (ordered : world.Ordered)
    {revokers : List RevokerId}
    (there : ∀ r ∈ revokers, r.index < world.revokers.size)
    {ledger : Ledger} {entry : LedgerEntry}
    (owned : world.owns revokers ledger entry = true) :
    world.Knows ledger entry := by
  have drops (subscription : Subscription)
      (dropped : world.drops revokers subscription = true) :
      world.Issued subscription := by
    obtain ⟨r, _, held⟩ := drops_iff.mp dropped
    exact ordered.revokers r subscription held
  cases ledger <;> cases entry <;>
    first
    | exact drops _ owned
    | exact there _ (of_decide_eq_true owned)
    | cases owned

theorem owns_append (world : World σ) (first second : List RevokerId)
    (ledger : Ledger) (entry : LedgerEntry) :
    world.owns (first ++ second) ledger entry =
      (world.owns first ledger entry || world.owns second ledger entry) := by
  cases ledger <;> cases entry <;>
    simp [owns, drops, List.any_append, Bool.decide_or]

theorem owns_nil (world : World σ) (ledger : Ledger) (entry : LedgerEntry) :
    world.owns [] ledger entry = false := by
  cases ledger <;> cases entry <;> rfl

end World

/-- The worlds before and after a part of a computation. -/
abbrev Interlude (σ : Type) := World σ × World σ

/-- What an interlude added to a ledger. -/
def Interlude.added (interlude : Interlude σ) (ledger : Ledger) :
    List LedgerEntry :=
  (interlude.2.ledger ledger).drop (interlude.1.ledger ledger).length

/-- A computation goes its way from one world to another; the interludes are
the views whose rendering it began and completed meanwhile.  Ledgers only grow
during an interlude. -/
inductive Trail (host : Host σ) (among : ViewId → Prop) :
    World σ → List (Interlude σ) → World σ → Prop where
  /-- The computation leaves views as they are. -/
  | own {world later : World σ} :
      Run world later → world.SameSetup later →
      Trail host among world [] later
  /-- A view is rendered to the end. -/
  | view {v : ViewId} {fuel : Nat} {world : World σ} :
      among v →
      (View.renderWithin host fuel v).result world = .ok () →
      (∀ ledger, world.ledger ledger <+:
        ((View.renderWithin host fuel v).after world).ledger ledger) →
      Trail host among world
        [(world, (View.renderWithin host fuel v).after world)]
        ((View.renderWithin host fuel v).after world)
  | trans {world between later : World σ} {first second : List (Interlude σ)} :
      Trail host among world first between →
      Trail host among between second later →
      Trail host among world (first ++ second) later

/-- What was added to the ledgers between two worlds is what some new revokers
can give up and what interludes added. -/
structure Tally (host : Host σ) (among : ViewId → Prop)
    (revokers : List RevokerId) (interludes : List (Interlude σ))
    (world later : World σ) : Prop where
  run : Run world later
  trail : Trail host among world interludes later
  advances : world.Advances later
  owned : world.Booked → later.Booked
  held : ∀ r, r.index < world.revokers.size →
    later.subscription? r = world.subscription? r
  fresh : ∀ r ∈ revokers, world.revokers.size ≤ r.index ∧
    ∀ subscription, later.subscription? r = some subscription →
      ¬world.Issued subscription
  there : ∀ r ∈ revokers, r.index < later.revokers.size
  grown : ∀ ledger, ∃ added,
    later.ledger ledger = world.ledger ledger ++ added ∧
      (∀ entry ∈ added, ¬world.Knows ledger entry) ∧
      added.filter (fun entry => !later.owns revokers ledger entry) =
        interludes.flatMap fun interlude => interlude.added ledger

namespace Tally

variable {host : Host σ} {among : ViewId → Prop}
  {world between later : World σ}

/-- Neither listeners nor revokers nor views change. -/
theorem quiet (run : Run world later) (same : world.SameSetup later)
    (reactions : later.reactions = world.reactions)
    (eventActions : later.eventActions = world.eventActions)
    (emitters : later.emitters = world.emitters)
    (revokers : later.revokers = world.revokers) :
    Tally host among [] [] world later where
  run := run
  trail := .own run same
  advances := same.advances
  owned booked := booked.of_same run emitters revokers
  held r _ := by
    simp only [World.subscription?, revokers]
  fresh _ member := absurd member List.not_mem_nil
  there _ member := absurd member List.not_mem_nil
  grown ledger := by
    rw [World.ledger_congr reactions eventActions emitters revokers]
    exact ⟨[], by simp, fun _ member => absurd member List.not_mem_nil, rfl⟩

theorem refl (world : World σ) : Tally host among [] [] world world := by
  exact .quiet (.refl world) (.refl world) rfl rfl rfl rfl

/-- Additions of the one do not count as additions of the other: what is new
after the first part has numbers that the second part gave out. -/
theorem trans (booked : world.Booked) {first second : List RevokerId}
    {early late : List (Interlude σ)}
    (former : Tally host among first early world between)
    (latter : Tally host among second late between later) :
    Tally host among (first ++ second) (early ++ late) world later := by
  have middle := former.owned booked
  have progress := (former.run.progress booked.ordered).2
  have kept : ∀ r ∈ first, later.subscription? r = between.subscription? r :=
    fun r member => latter.held r (former.there r member)
  refine ⟨former.run.trans latter.run, former.trail.trans latter.trail,
    former.advances.trans latter.advances,
    fun booked => latter.owned (former.owned booked), fun r old => ?_,
    fun r member => ?_, fun r member => ?_, fun ledger => ?_⟩
  · rw [latter.held r (Nat.lt_of_lt_of_le old progress.size), former.held r old]
  · rcases List.mem_append.mp member with before | after
    · rw [kept r before]
      exact former.fresh r before
    · obtain ⟨new, unissued⟩ := latter.fresh r after
      exact ⟨Nat.le_trans progress.size new, fun subscription holds issued =>
        unissued subscription holds (progress.issued issued)⟩
  · rcases List.mem_append.mp member with before | after
    · exact Nat.lt_of_lt_of_le (former.there r before)
        (latter.run.progress middle.ordered).2.size
    · exact latter.there r after
  · obtain ⟨added, grown, unknown, rest⟩ := former.grown ledger
    obtain ⟨more, grownAgain, unknownAgain, restAgain⟩ := latter.grown ledger
    refine ⟨added ++ more, ?_, fun entry member => ?_, ?_⟩
    · rw [grownAgain, grown, List.append_assoc]
    · rcases List.mem_append.mp member with before | after
      · exact unknown entry before
      · exact fun known => unknownAgain entry after (progress.knows known)
    · rw [List.filter_append, List.flatMap_append]
      congr 1
      · rw [← rest]
        apply List.filter_congr
        intro entry member
        have known : between.Knows ledger entry := by
          apply World.knows_of_mem_ledger middle.ordered
          rw [grown]
          exact List.mem_append_right _ member
        rw [World.owns_append, World.owns_eq_false_of_knows latter.fresh known,
          Bool.or_false, World.owns_congr kept]
      · rw [← restAgain]
        apply List.filter_congr
        intro entry member
        have disowned : later.owns first ledger entry = false := by
          rw [World.owns_congr kept, Bool.eq_false_iff]
          intro owned
          exact unknownAgain entry member
            (World.knows_of_owns middle.ordered former.there owned)
        rw [World.owns_append, disowned, Bool.false_or]

end Tally

namespace Emitter

theorem emitter_own (e other : EmitterId) (subscription : Subscription)
    (world : World σ) :
    ((own e subscription).after world).emitter other =
      if other = e then
        { world.emitter e with
          subscriptions :=
            (world.emitter e).subscriptions.filter (fun r =>
              !((Revoker.create (some subscription)).after world).isRevoked r) ++
            [⟨world.revokers.size⟩] }
      else world.emitter other := by
  by_cases same : other = e
  · subst same
    simp [own, update, World.emitter, Revoker.create, Store.alloc, Store.size]
  · have differs : other.index ≠ e.index := by
      intro index
      cases other
      cases e
      exact same (congrArg EmitterId.mk index)
    rw [if_neg same]
    simp [own, update, World.emitter, Revoker.create,
      Store.get_modify_of_ne _ _ differs]

theorem liveRevokers_own (e other : EmitterId) (subscription : Subscription)
    {world : World σ} (owned : ∀ r ∈ (world.emitter other).subscriptions,
      r.index < world.revokers.size) :
    ((own e subscription).after world).liveRevokers other =
      world.liveRevokers other ++
        (if other = e then [⟨world.revokers.size⟩] else []) := by
  obtain ⟨created, made⟩ :
      ∃ created, created = (Revoker.create (some subscription)).after world :=
    ⟨_, rfl⟩
  have same (r : RevokerId) :
      ((own e subscription).after world).isRevoked r = created.isRevoked r := by
    rw [made]
    rfl
  have kept : (world.emitter other).subscriptions.filter
      (fun r => !created.isRevoked r) = world.liveRevokers other := by
    refine List.filter_congr fun r member => ?_
    unfold World.isRevoked
    rw [made, Revoker.subscription?_create_of_ne _ _
      (Nat.ne_of_lt (owned r member))]
  have last : [(⟨world.revokers.size⟩ : RevokerId)].filter
      (fun r => !created.isRevoked r) = [⟨world.revokers.size⟩] := by
    have held : created.subscription? ⟨world.revokers.size⟩ =
        some subscription := by
      rw [made]
      exact Revoker.subscription?_create_self _ world
    simp [World.isRevoked, held]
  have emitter := emitter_own e other subscription world
  rw [← made] at emitter
  rw [← kept]
  unfold World.liveRevokers
  simp only [same, emitter]
  split
  · rename_i equal
    subst equal
    simp only [List.filter_append, last, List.filter_filter, Bool.and_self]
  · rw [List.append_nil]

/-- Owning a subscription keeps the books in order. -/
theorem booked_own {source : Source} {world subscribed : World σ}
    (added : World.Added source world subscribed)
    (emitters : subscribed.emitters = world.emitters) (e : EmitterId)
    (booked : world.Booked) (run : Run world
      ((own e ⟨source, ⟨world.nextAt source⟩⟩).after subscribed)) :
    ((own e ⟨source, ⟨world.nextAt source⟩⟩).after subscribed).Booked := by
  have listened := Listened.of_added added e
  have owned (other : EmitterId) :
      ∀ r ∈ (subscribed.emitter other).subscriptions,
        r.index < world.revokers.size := by
    unfold World.emitter
    rw [emitters]
    exact booked.owned other
  refine ⟨(run.progress booked.ordered).1, fun other r member => ?_⟩
  rw [listened.size]
  rw [emitter_own] at member
  split at member
  · rcases List.mem_append.mp member with before | after
    · exact Nat.lt_succ_of_lt (owned e r (List.mem_filter.mp before).1)
    · rw [List.mem_singleton.mp after, added.revokers]
      exact Nat.lt_succ_self _
  · exact Nat.lt_succ_of_lt (owned other r member)

/-- Entries of a ledger that are all new ones of the same owner. -/
theorem grown_listeners {α : Type} {wrap : Listener α → LedgerEntry}
    {knows : LedgerEntry → Prop} {owns : LedgerEntry → Bool}
    {before after entries : List (Listener α)}
    (grown : after = before ++ entries)
    (fresh : ∀ listener ∈ entries,
      ¬knows (wrap listener) ∧ owns (wrap listener) = true) :
    ∃ added, after.map wrap = before.map wrap ++ added ∧
      (∀ entry ∈ added, ¬knows entry) ∧
      added.filter (fun entry => !owns entry) = [] := by
  refine ⟨entries.map wrap, by rw [grown, List.map_append], ?_, ?_⟩
  · intro entry member
    obtain ⟨listener, inside, rfl⟩ := List.mem_map.mp member
    exact (fresh listener inside).1
  · refine List.filter_eq_nil_iff.mpr fun entry member => ?_
    obtain ⟨listener, inside, rfl⟩ := List.mem_map.mp member
    simp [(fresh listener inside).2]

/-- A listener that was just added is owned by an emitter: nothing else is new
in any ledger. -/
theorem tally_own {host : Host σ} {among : ViewId → Prop} {source : Source}
    {world subscribed : World σ} (added : World.Added source world subscribed)
    (same : world.SameSetup subscribed)
    (emitters : subscribed.emitters = world.emitters)
    (observables : ∀ o, ∃ entries, (subscribed.reactionsOf o).entries =
      (world.reactionsOf o).entries ++ entries ∧
        ∀ listener ∈ entries, source = .observable o ∧
          listener.id = ⟨world.nextAt source⟩)
    (nodes : ∀ n, ∃ entries, (subscribed.eventActionsOf n).entries =
      (world.eventActionsOf n).entries ++ entries ∧
        ∀ listener ∈ entries, source = .node n ∧
          listener.id = ⟨world.nextAt source⟩)
    (e : EmitterId) (booked : world.Booked) (run : Run world
      ((own e ⟨source, ⟨world.nextAt source⟩⟩).after subscribed)) :
    Tally host among
      [(own e ⟨source, ⟨world.nextAt source⟩⟩).result subscribed] [] world
      ((own e ⟨source, ⟨world.nextAt source⟩⟩).after subscribed) := by
  have listened := Listened.of_added added e
  have next : (own e ⟨source, ⟨world.nextAt source⟩⟩).result subscribed =
      ⟨world.revokers.size⟩ := listened.revoker
  generalize (own e ⟨source, ⟨world.nextAt source⟩⟩).result
    subscribed = r at listened next ⊢
  have setup : world.SameSetup
      ((own e ⟨source, ⟨world.nextAt source⟩⟩).after subscribed) :=
    ⟨same.blueprints, same.members, same.views⟩
  have unissued : ¬world.Issued ⟨source, ⟨world.nextAt source⟩⟩ :=
    Nat.lt_irrefl _
  have dropped : ((own e ⟨source, ⟨world.nextAt source⟩⟩).after
      subscribed).drops [r] ⟨source, ⟨world.nextAt source⟩⟩ = true :=
    World.drops_iff.mpr ⟨r, List.mem_singleton_self r, listened.held⟩
  refine ⟨run, .own run setup, setup.advances,
    fun booked => booked_own added emitters e booked run,
    fun other old => ?_, fun other member => ?_, fun other member => ?_,
    fun ledger => ?_⟩
  · have kept := Revoker.subscription?_create_of_ne
      (some ⟨source, ⟨world.nextAt source⟩⟩) subscribed (r := other)
      (by rw [added.revokers]; exact Nat.ne_of_lt old)
    refine Eq.trans kept ?_
    unfold World.subscription?
    rw [added.revokers]
  · rw [List.mem_singleton.mp member, next]
    refine ⟨Nat.le_refl _, fun subscription held => ?_⟩
    rw [← next, listened.held] at held
    cases held
    exact unissued
  · rw [List.mem_singleton.mp member, next, listened.size]
    exact Nat.lt_succ_self _
  -- The source gains the listener and the emitter its revoker; no other ledger
  -- gains anything.
  · cases ledger with
    | observable o =>
        obtain ⟨entries, grown, only⟩ := observables o
        refine grown_listeners grown fun listener inside => ?_
        obtain ⟨rfl, id⟩ := only listener inside
        rw [World.knows_reaction, World.owns_reaction, id]
        exact ⟨unissued, dropped⟩
    | node n =>
        obtain ⟨entries, grown, only⟩ := nodes n
        refine grown_listeners grown fun listener inside => ?_
        obtain ⟨rfl, id⟩ := only listener inside
        rw [World.knows_action, World.owns_action, id]
        exact ⟨unissued, dropped⟩
    | emitter other =>
        have subscriptions : (subscribed.emitter other).subscriptions =
            (world.emitter other).subscriptions := by
          unfold World.emitter
          rw [emitters]
        have live : subscribed.liveRevokers other =
            world.liveRevokers other := by
          unfold World.liveRevokers World.isRevoked World.subscription?
          rw [subscriptions, added.revokers]
        have owned : ∀ r ∈ (subscribed.emitter other).subscriptions,
            r.index < subscribed.revokers.size := by
          rw [subscriptions, added.revokers]
          exact booked.owned other
        have grown := liveRevokers_own e other
          ⟨source, ⟨world.nextAt source⟩⟩ owned
        rw [live, added.revokers] at grown
        refine ⟨_, (congrArg (List.map LedgerEntry.revoker) grown).trans
          List.map_append, ?_, ?_⟩
        · intro entry member
          split at member
          · rw [List.map_singleton, List.mem_singleton] at member
            rw [member]
            exact Nat.lt_irrefl _
          · cases member
        · split
          · simp [World.owns, next]
          · rfl

variable {host : Host σ} {among : ViewId → Prop}

theorem tally_listenToObservable (e : EmitterId) (o : ObservableId)
    (event : String) (reaction : Reaction) {world : World σ}
    (booked : world.Booked) :
    Tally host among [(listenToObservable e o event reaction).result world] []
      world ((listenToObservable e o event reaction).after world) := by
  refine tally_own (Observable.added_subscribe world o event reaction)
    ⟨fun _ => rfl, fun _ => rfl, fun _ => rfl⟩ rfl (fun other => ?_)
    (fun n => ⟨[], (List.append_nil _).symm,
      fun _ member => absurd member List.not_mem_nil⟩)
    e booked (.listenToObservable world e o event reaction)
  by_cases same : other = o
  · subst same
    refine ⟨[⟨⟨(world.reactionsOf other).next⟩, event, reaction⟩], ?_, ?_⟩
    · rw [Observable.after_subscribe,
        Observable.reactionsOf_modifyReactions_self]
      rfl
    · intro listener member
      rw [List.mem_singleton.mp member]
      exact ⟨rfl, rfl⟩
  · refine ⟨[], ?_, fun _ member => absurd member List.not_mem_nil⟩
    rw [Observable.after_subscribe,
      Observable.reactionsOf_modifyReactions_of_ne _ _ same, List.append_nil]

theorem tally_listenToNode (e : EmitterId) (n : NodeId) (type : String)
    (action : EventAction) {world : World σ} (booked : world.Booked) :
    Tally host among [(listenToNode e n type action).result world] [] world
      ((listenToNode e n type action).after world) := by
  refine tally_own (NodeEvents.added_subscribe world n type action)
    ⟨fun _ => rfl, fun _ => rfl, fun _ => rfl⟩ rfl
    (fun o => ⟨[], (List.append_nil _).symm,
      fun _ member => absurd member List.not_mem_nil⟩)
    (fun other => ?_) e booked (.listenToNode world e n type action)
  by_cases same : other = n
  · subst same
    refine ⟨[⟨⟨(world.eventActionsOf other).next⟩, type, action⟩], ?_, ?_⟩
    · rw [NodeEvents.after_subscribe,
        NodeEvents.eventActionsOf_modifyActions_self]
      rfl
    · intro listener member
      rw [List.mem_singleton.mp member]
      exact ⟨rfl, rfl⟩
  · refine ⟨[], ?_, fun _ member => absurd member List.not_mem_nil⟩
    rw [NodeEvents.after_subscribe,
      NodeEvents.eventActionsOf_modifyActions_of_ne _ _ same, List.append_nil]

end Emitter

namespace Tally

variable {host : Host σ} {among : ViewId → Prop}
  {world between later : World σ}

theorem mapM {α : Type} {items : List α} {listen : α → Act σ RevokerId}
    (listens : ∀ item, ∀ world : World σ, world.Booked →
      Tally host among [(listen item).result world] [] world
        ((listen item).after world)) (booked : world.Booked) :
    Tally host among ((items.mapM listen).result world) [] world
      ((items.mapM listen).after world) := by
  induction items generalizing world with
  | nil => exact .refl world
  | cons item rest ih =>
      rw [List.mapM_cons]
      have first := listens item world booked
      exact first.trans booked (ih (first.owned booked))

/-- Several steps that register nothing. -/
theorem forM {α : Type} {items : List α} {body : α → Act σ Unit}
    (each : ∀ item, ∀ world : World σ,
      Tally host among [] [] world ((body item).after world))
    (booked : world.Booked) :
    Tally host among [] [] world ((items.forM body).after world) := by
  induction items generalizing world with
  | nil => exact .refl world
  | cons item rest ih =>
      have first := each item world
      exact first.trans booked (ih (first.owned booked))

theorem congr {revokers others : List RevokerId}
    {interludes : List (Interlude σ)}
    (tally : Tally host among revokers interludes world later)
    (same : ∀ r, r ∈ others ↔ r ∈ revokers) :
    Tally host among others interludes world later := by
  have owns (ledger : Ledger) (entry : LedgerEntry) :
      later.owns others ledger entry = later.owns revokers ledger entry := by
    have drops (subscription : Subscription) :
        later.drops others subscription = later.drops revokers subscription := by
      rw [Bool.eq_iff_iff, World.drops_iff, World.drops_iff]
      simp only [same]
    cases ledger <;> cases entry <;>
      simp only [World.owns, drops, same]
  refine { tally with
    fresh := fun r member => tally.fresh r ((same r).mp member)
    there := fun r member => tally.there r ((same r).mp member)
    grown := fun ledger => ?_ }
  obtain ⟨added, grown, unknown, rest⟩ := tally.grown ledger
  refine ⟨added, grown, unknown, ?_⟩
  simp only [owns]
  exact rest

theorem completed {revokers : List RevokerId} {interludes : List (Interlude σ)}
    {v : ViewId} {fuel : Nat} (named : among v)
    (done : View.renderWithin host fuel v world = (.ok (), later))
    (tally : Tally host among revokers interludes world between)
    (run : Run between later) (advances : between.Advances later)
    (reactions : later.reactions = between.reactions)
    (eventActions : later.eventActions = between.eventActions)
    (emitters : later.emitters = between.emitters)
    (table : later.revokers = between.revokers) :
    Tally host among [] [(world, later)] world later := by
  have same := World.ledger_congr reactions eventActions emitters table
  have ended : (View.renderWithin host fuel v).result world = .ok () :=
    congrArg Prod.fst done
  have ends : (View.renderWithin host fuel v).after world = later :=
    congrArg Prod.snd done
  have grows (ledger : Ledger) : world.ledger ledger <+:
      ((View.renderWithin host fuel v).after world).ledger ledger := by
    obtain ⟨added, grown, _⟩ := tally.grown ledger
    exact ⟨added, by rw [ends, same, grown]⟩
  refine ⟨tally.run.trans run, ends ▸ .view named ended grows,
    tally.advances.trans advances, fun booked => ?_, fun r old => ?_,
    fun _ member => absurd member List.not_mem_nil,
    fun _ member => absurd member List.not_mem_nil,
    fun ledger => ?_⟩
  · exact (tally.owned booked).of_same run emitters table
  · rw [← tally.held r old]
    simp only [World.subscription?, table]
  · obtain ⟨added, grown, unknown, _⟩ := tally.grown ledger
    rw [← same] at grown
    refine ⟨added, grown, unknown, ?_⟩
    simp [World.owns_nil, Interlude.added, grown]

theorem severed {revokers : List RevokerId} {interludes : List (Interlude σ)}
    (booked : world.Booked)
    (tally : Tally host among revokers interludes world between)
    (run : Run between later) (same : between.SameSetup later)
    (severed : World.Severed revokers between later) :
    Tally host among [] interludes world later := by
  have middle := tally.owned booked
  have progress := (run.progress middle.ordered).2
  refine ⟨tally.run.trans run, ?_, tally.advances.trans same.advances,
    fun booked => ⟨?_, ?_⟩, fun r old => ?_,
    fun _ member => absurd member List.not_mem_nil,
    fun _ member => absurd member List.not_mem_nil, fun ledger => ?_⟩
  · have trail := tally.trail.trans (.own run same)
    rwa [List.append_nil] at trail
  · exact (run.progress (tally.owned booked).ordered).1
  · intro e r member
    unfold World.emitter at member
    rw [severed.emitters] at member
    exact Nat.lt_of_lt_of_le ((tally.owned booked).owned e r member)
      progress.size
  · rw [severed.held, if_neg, tally.held r old]
    exact fun member => absurd old (Nat.not_lt.mpr (tally.fresh r member).1)
  · obtain ⟨added, grown, unknown, rest⟩ := tally.grown ledger
    have kept : later.ledger ledger = (between.ledger ledger).filter
        fun entry => !between.owns revokers ledger entry := by
      cases ledger with
      | observable o =>
          simp only [World.ledger, severed.reactions, List.filter_map]
          rfl
      | node n =>
          simp only [World.ledger, severed.eventActions, List.filter_map]
          rfl
      | emitter e =>
          have revoked (r : RevokerId) : later.isRevoked r =
              (decide (r ∈ revokers) || between.isRevoked r) := by
            unfold World.isRevoked
            rw [severed.held]
            split <;> simp [*]
          simp only [World.ledger, World.liveRevokers, World.emitter,
            severed.emitters, List.filter_map, List.filter_filter, revoked,
            Bool.not_or]
          rfl
    refine ⟨added.filter fun entry => !between.owns revokers ledger entry,
      ?_, fun entry member => unknown entry (List.mem_filter.mp member).1, ?_⟩
    · rw [kept, grown, List.filter_append]
      congr 1
      refine List.filter_eq_self.mpr fun entry member => ?_
      rw [World.owns_eq_false_of_knows tally.fresh
        (World.knows_of_mem_ledger booked.ordered member)]
      rfl
    · rw [← rest, List.filter_filter]
      apply List.filter_congr
      intro entry _
      rw [World.owns_nil, Bool.not_false, Bool.true_and]

/-- Without revokers the additions are those of the interludes. -/
theorem grown_nil {interludes : List (Interlude σ)}
    (tally : Tally host among [] interludes world later) (ledger : Ledger) :
    later.ledger ledger = world.ledger ledger ++
      interludes.flatMap fun interlude => interlude.added ledger := by
  obtain ⟨added, grown, _, rest⟩ := tally.grown ledger
  rw [grown, ← rest, List.filter_eq_self.mpr]
  intro entry _
  rw [World.owns_nil]
  rfl

end Tally

end LiveTemplate
