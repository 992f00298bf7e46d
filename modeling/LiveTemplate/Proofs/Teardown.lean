import LiveTemplate.Proofs.Dismantling
import LiveTemplate.Proofs.Severance

/-!
# Destroying a view

A view that is destroyed takes down every view below it: their emitters own
nothing any more, whatever was subscribed through them is off its source for
good, and the collections they owned are empty.

The hooks that run on the way may do anything that adds nothing to what is
below the view and takes nothing out of it but by tearing it down.  They may
destroy the collections of the view, other views, and the view itself once more.
A hook that puts a view into a collection which has been destroyed already
leaves the collection with a member.
-/

namespace LiveTemplate

variable {σ : Type}

/-- A listener has been subscribed through an emitter in the past, and emitters
have kept what they own since then. -/
inductive World.HasInstalled (client : σ) (e : EmitterId) :
    Subscription → World σ → Prop where
  | observable {before world : World σ} {o : ObservableId} {event : String}
      {reaction : Reaction} :
      Run (.initial client) before →
      Run ((Emitter.listenToObservable e o event reaction).after before)
        world →
      ((Emitter.listenToObservable e o event reaction).after before).Retains
        world →
      HasInstalled client e
        ⟨.observable o, ⟨before.nextAt (.observable o)⟩⟩ world
  | node {before world : World σ} {n : NodeId} {type : String}
      {action : EventAction} :
      Run (.initial client) before →
      Run ((Emitter.listenToNode e n type action).after before) world →
      ((Emitter.listenToNode e n type action).after before).Retains world →
      HasInstalled client e ⟨.node n, ⟨before.nextAt (.node n)⟩⟩ world

namespace World.HasInstalled

variable {client : σ} {e : EmitterId} {subscription : Subscription}
  {world later : World σ}

theorem onward (installed : HasInstalled client e subscription world)
    (run : Run world later) (retains : world.Retains later) :
    HasInstalled client e subscription later := by
  cases installed with
  | observable begun since kept =>
      exact .observable begun (since.trans run) (kept.trans retains)
  | node begun since kept =>
      exact .node begun (since.trans run) (kept.trans retains)

/-- What an emitter was given to own has a number that was given out, and is
still live or has been taken off its source. -/
theorem issued_and_owned (installed : HasInstalled client e subscription world) :
    world.Issued subscription ∧
      (world.Registered subscription → world.liveRevokers e ≠ []) := by
  have settles {source : Source} {before listening : World σ} {r : RevokerId}
      (ordered : listening.Ordered)
      (listened : Emitter.Listened source before listening r)
      (member : r ∈ (listening.emitter e).subscriptions)
      (since : Run listening world) (kept : listening.Retains world) :
      world.Issued ⟨source, ⟨before.nextAt source⟩⟩ ∧
        (world.Registered ⟨source, ⟨before.nextAt source⟩⟩ →
          world.liveRevokers e ≠ []) := by
    have progress := (since.progress ordered).2
    refine ⟨progress.issued (ordered.revokers r _ listened.held),
      fun present none => ?_⟩
    rcases progress.held r _ listened.held with live | ⟨_, absent⟩
    · rcases kept.owned e r _ member listened.held with owned | revoked
      · have listed : r ∈ world.liveRevokers e :=
          List.mem_filter.mpr ⟨owned, by simp [isRevoked, live]⟩
        rw [none] at listed
        cases listed
      · rw [revoked] at live
        cases live
    · exact absent present
  have owned (subscription : Subscription) (before : World σ) :
      ((Emitter.own e subscription).result before) ∈
        (((Emitter.own e subscription).after before).emitter e).subscriptions := by
    rw [Emitter.emitter_own, if_pos rfl]
    exact List.mem_append_right _ (List.mem_singleton_self _)
  cases installed with
  | @observable before _ o event reaction begun since kept =>
      have ordered := (begun.progress (ordered_initial client)).1
      exact settles
        ((Run.listenToObservable before e o event reaction).progress ordered).1
        (Emitter.listened_listenToObservable e o event reaction before)
        (owned _ _) since kept
  | @node before _ n type action begun since kept =>
      have ordered := (begun.progress (ordered_initial client)).1
      exact settles
        ((Run.listenToNode before e n type action).progress ordered).1
        (Emitter.listened_listenToNode e n type action before)
        (owned _ _) since kept

end World.HasInstalled

namespace View

/-- Destroying a view destroys all below it: no emitter there owns a live
subscription, the collections there are empty and stand nowhere, and whatever
was subscribed through the emitters is gone from its source for good, so that
no notice and no event reaches it any more.  What each hook does at its turn, in
the world that it finds there, must be no more than to dismantle views that are
below, or others that are watched as well. -/
theorem destroy_tears_down {host : Host σ} {client : σ} {base : World σ}
    {root : ViewId} {under : ViewId → Prop}
    (begun : Run (.initial client) base) (acyclic : base.IsAcyclicBelow root)
    (closed : base.IsDownward under) (mine : under root)
    (hooks : ∀ turn ∈ turns host .none root base,
      base.Dismantles under turn.due base turn.world →
        base.Dismantles under turn.due turn.world
          ((host.destroy turn.hook).after turn.world)) :
    let after := (destroy host root).after base
    ∀ v, base.Reaches root v →
      (after.view v).emitter = (base.view v).emitter ∧
      Emitter.liveCount after (base.view v).emitter = 0 ∧
      (∀ c ∈ (base.view v).collections,
        (after.collection c).members = [] ∧
          (after.collection c).parent = none) ∧
      ∀ subscription,
        base.HasInstalled client (base.view v).emitter subscription →
          ∀ later, Run after later →
            ¬later.Registered subscription ∧
              subscription.IsPassedOver later := by
  intro after v reached
  have ordered := (begun.progress (World.ordered_initial client)).1
  obtain ⟨dismantles, torn⟩ : base.Dismantles under .none base after ∧
      base.IsTorn .none after root :=
    tears_destroy closed ordered mine acyclic .none base (.refl base) hooks
  have spent := (torn.reaches reached).spent
  have cleared (c : CollectionId) (owned : c ∈ (base.view v).collections) :
      after.IsVacant c := by
    rcases spent.cleared c owned with left | cleared
    · cases left
    · exact cleared.toIsVacant
  have strips := dismantles.strips v (closed.reaches mine reached)
  refine ⟨strips.emitter, ?_,
    fun c owned => ⟨(cleared c owned).empty, (cleared c owned).nowhere⟩,
    fun subscription installed later onward => ?_⟩
  · rw [World.liveCount_eq_length_ledger, World.ledger, spent.silent]
    rfl
  · obtain ⟨issued, live⟩ :=
      (installed.onward dismantles.run dismantles.retains).issued_and_owned
    have progress :=
      (onward.progress (dismantles.run.progress ordered).1).2
    have missing : ¬later.Registered subscription :=
      progress.gone subscription issued fun present => live present spent.silent
    exact ⟨missing, Subscription.isPassedOver_of_absent missing⟩

end View

namespace Dashboard

/-- A list as the element of the view, an item as that of the member. -/
def page : Dom :=
  ((Dom.empty.create (.element Selector.htmlNamespace "ul" [])).2.create
    (.element Selector.htmlNamespace "li" [])).2.insertBefore ⟨0⟩ ⟨1⟩ none

/-- The third view has one view in a nested template, which has not been
rendered, and another one in its collection.  The last view stands alone.  Both
the third view and the member of its collection have a hook. -/
def start : World Unit :=
  { World.initial () with
    dom := page
    properties := ⟨#[[]]⟩
    emitters := ⟨#[⟨[], [⟨0⟩]⟩, ⟨[], []⟩, ⟨[], [⟨1⟩]⟩, ⟨[], []⟩]⟩
    templates := ⟨#[
      ⟨⟨some "p", none, none, [], [], [.view ⟨1⟩]⟩, true, none⟩,
      ⟨⟨some "ul", none, none, [], [], [.template ⟨0⟩, .collection ⟨0⟩]⟩,
        true, none⟩]⟩
    views := ⟨#[⟨⟨0⟩, ⟨0⟩, none, some ⟨1⟩, true, []⟩,
      ⟨⟨0⟩, ⟨1⟩, none, none, false, []⟩,
      ⟨⟨0⟩, ⟨2⟩, some ⟨1⟩, some ⟨0⟩, true, [⟨0⟩]⟩,
      ⟨⟨0⟩, ⟨3⟩, none, none, false, []⟩]⟩
    collections := ⟨#[⟨[⟨0⟩], some ⟨0⟩, none⟩]⟩ }

/-- A client, to some depth of calls.  The hook of the third view destroys its
collection, and that of the member destroys the view that stands alone, and the
third one once more. -/
def tearing : Nat → Host Unit
  | 0 => Host.quiet
  | depth + 1 =>
      { Host.quiet with
        destroy := fun hook =>
          if hook.index = 0 then do
            View.destroy (tearing depth) ⟨3⟩
            View.destroy (tearing depth) ⟨2⟩
          else Collection.destroy (tearing depth) ⟨0⟩ }

/-- The member listens to the observable. -/
def watching : World Unit :=
  (Emitter.listenToObservable ⟨0⟩ ⟨0⟩ "change:x" (.call ⟨0⟩)).after start

/-- The nested view listens to the list as well. -/
def listening : World Unit :=
  (Emitter.listenToNode ⟨1⟩ ⟨0⟩ "click" (.call ⟨0⟩)).after watching

theorem run_start : Run (World.initial ()) start := by
  have each (t : TemplateId) : (start.template t).applied = none ∧
      (start.template t).blueprint.IsSound t.index := by
    obtain ⟨index⟩ := t
    match index with
    | 0 => exact ⟨rfl, .nil, fun t member => by
        cases List.mem_singleton.mp member⟩
    | 1 =>
        refine ⟨rfl, .nil, fun t member => ?_⟩
        rcases List.mem_cons.mp member with same | member
        · cases same
          exact Nat.one_pos
        · cases List.mem_singleton.mp member
    | index + 2 => exact ⟨rfl, .none _⟩
  refine .aside rfl rfl rfl ⟨fun t entry kept => ?_, fun _ t => (each t).2⟩
  rw [(each t).1] at kept
  cases kept

theorem run_watching : Run (World.initial ()) watching :=
  run_start.trans (.listenToObservable _ _ _ _ _)

theorem run_listening : Run (World.initial ()) listening :=
  run_watching.trans (.listenToNode _ _ _ _ _)

theorem acyclic (v : ViewId) : listening.IsAcyclicBelow v := by
  have sound := (run_listening.progress (World.ordered_initial ())).1.sound
  refine World.IsAcyclicBelow.of_descending ViewId.index
    (fun v inner step => ?_) v
  have below : v.index < 4 := step.index_lt
  obtain ⟨index⟩ := v
  cases step with
  | placed template carries =>
      match index with
      | 0 | 1 | 3 => cases template
      | 2 =>
          cases template
          have found := (Template.mem_views_iff sound).mpr carries
          rw [show Template.views listening ⟨1⟩ = [⟨1⟩] from rfl] at found
          cases List.mem_singleton.mp found
          exact Nat.one_lt_two
  | member owned inside =>
      match index with
      | 0 | 1 | 3 => cases owned
      | 2 =>
          cases List.mem_singleton.mp owned
          cases List.mem_singleton.mp inside
          exact Nat.two_pos

private theorem permits_tearing (depth : Nat) (hook : Handler) :
    listening.Permits (fun _ => True) ((tearing depth).destroy hook) := by
  have closed : listening.IsDownward fun _ => True := fun _ _ _ _ => trivial
  have ordered := (run_listening.progress (World.ordered_initial ())).1
  induction depth generalizing hook with
  | zero => exact .pure ()
  | succ depth ih =>
      unfold tearing
      dsimp only
      split
      · refine .bind closed ?_ fun _ => ?_
        · exact View.permits_destroy closed ordered ih trivial (acyclic ⟨3⟩)
        · exact View.permits_destroy closed ordered ih trivial (acyclic ⟨2⟩)
      · exact Collection.permits_destroy closed ordered ih trivial (acyclic ⟨2⟩)
          (List.mem_singleton_self _)

/-- Destroying the view takes the listeners of the nested view and of the
member off the observable and the list, whatever the hooks destroy meanwhile. -/
theorem destroy_tears_down_dashboard :
    let after := (View.destroy (tearing 3) ⟨2⟩).after listening
    listening.Registered ⟨.observable ⟨0⟩, ⟨0⟩⟩ ∧
      listening.Registered ⟨.node ⟨0⟩, ⟨0⟩⟩ ∧
      (after.collection ⟨0⟩).members = [] ∧
      Emitter.liveCount after ⟨0⟩ = 0 ∧ Emitter.liveCount after ⟨1⟩ = 0 ∧
      ¬after.Registered ⟨.observable ⟨0⟩, ⟨0⟩⟩ ∧
      ¬after.Registered ⟨.node ⟨0⟩, ⟨0⟩⟩ := by
  intro after
  have torn := View.destroy_tears_down run_listening (acyclic ⟨2⟩)
    (fun _ _ _ _ => trivial) trivial
    fun turn _ => permits_tearing 3 turn.hook turn.due turn.world
  have member : listening.Reaches ⟨2⟩ ⟨0⟩ :=
    .single (.member (List.mem_singleton_self _) (List.mem_singleton_self _))
  have nested : listening.Reaches ⟨2⟩ ⟨1⟩ :=
    .single (.placed rfl (.nested (.head _) (.child (.head _))))
  obtain ⟨_, _, emptied, _⟩ := torn ⟨2⟩ .refl
  obtain ⟨_, quiet, _, severed⟩ := torn ⟨0⟩ member
  obtain ⟨_, silent, _, gone⟩ := torn ⟨1⟩ nested
  have listened : (Emitter.listenToNode ⟨1⟩ ⟨0⟩ "click" (.call ⟨0⟩)).Within
      (World.Retains (σ := Unit)) := World.Retains.listenToNode _ _ _ _
  refine ⟨by show _ ∈ listening.idsAt _; decide +kernel,
    by show _ ∈ listening.idsAt _; decide +kernel,
    (emptied ⟨0⟩ (List.mem_singleton_self _)).1, quiet, silent,
    (severed _ ?_ after (.refl _)).1, (gone _ ?_ after (.refl _)).1⟩
  · exact .observable run_start (.listenToNode _ _ _ _ _) (listened _)
  · exact .node run_watching (.refl _) (.refl _)

end Dashboard

namespace Latecomer

/-- A client whose hooks put the last view into the collection. -/
def adding : Host Unit :=
  { Host.quiet with
    destroy := fun _ => do
      let _ ← Collection.add Host.quiet ⟨0⟩ ⟨2⟩
      return () }

/-- The first view owns a collection with one member, which has a hook. -/
def start : World Unit :=
  { World.initial () with
    dom := ((Dom.empty.create (.element Selector.htmlNamespace "li" [])).2.create
      (.element Selector.htmlNamespace "li" [])).2
    properties := ⟨#[[]]⟩
    emitters := ⟨#[⟨[], []⟩, ⟨[], [⟨0⟩]⟩, ⟨[], []⟩]⟩
    views := ⟨#[⟨⟨0⟩, ⟨0⟩, none, none, false, [⟨0⟩]⟩,
      ⟨⟨0⟩, ⟨1⟩, none, some ⟨0⟩, true, []⟩,
      ⟨⟨0⟩, ⟨2⟩, none, some ⟨1⟩, true, []⟩]⟩
    collections := ⟨#[⟨[⟨1⟩], none, none⟩]⟩ }

/-- The hook subscribes nothing, no view is below itself, and yet the collection
of the view that was destroyed has a member. -/
theorem destroy_leaves_added_member :
    let after := (View.destroy adding ⟨0⟩).after start
    Run (World.initial ()) start ∧ start.IsAcyclicBelow ⟨0⟩ ∧
      (∀ source, after.nextAt source = start.nextAt source) ∧
      ⟨0⟩ ∈ (start.view ⟨0⟩).collections ∧
      (after.collection ⟨0⟩).members = [⟨2⟩] := by
  refine ⟨.aside rfl rfl rfl (.of_templates rfl),
    .of_descending (fun v => 3 - v.index) (fun v inner step => ?_) _,
    fun source => ?_, List.mem_singleton_self _, by decide +kernel⟩
  · have below : v.index < 3 := step.index_lt
    obtain ⟨index⟩ := v
    cases step with
    | placed template carries =>
        match index with
        | 0 | 1 | 2 => cases template
    | member owned inside =>
        match index with
        | 0 =>
            cases List.mem_singleton.mp owned
            cases List.mem_singleton.mp inside
            decide
        | 1 | 2 => cases owned
  · cases source <;> rfl

end Latecomer

end LiveTemplate
