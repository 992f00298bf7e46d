import LiveTemplate.Proofs.Assembly
import LiveTemplate.Proofs.Turns

/-!
# The journey of an event

The way of an event is fixed when it is sent: its target and, if it bubbles, the
nodes that are above the target at that moment.  At each node on the way those
take turns that listen when the event arrives.  They may do anything, also to
the nodes that lie ahead and to the tree.  The event goes on to the next node as
long as its propagation has not been stopped.
-/

namespace LiveTemplate

variable {σ : Type}

namespace Dom

variable {dom : Dom} {n : NodeId}

/-- The nodes above a node, nearest first, up to one without a parent. -/
inductive Ascends (dom : Dom) : NodeId → List NodeId → Prop where
  | top {n : NodeId} (alone : dom.parent? n = none) : Ascends dom n []
  | step {n parent : NodeId} {above : List NodeId}
      (under : dom.parent? n = some parent) (rest : Ascends dom parent above) :
      Ascends dom n (parent :: above)

private theorem Ascends.mem_above {above : List NodeId}
    (ascends : dom.Ascends n above)
    {outer : NodeId} (member : outer ∈ above) :
    Relation.TransGen dom.IsUnder n outer := by
  induction ascends with
  | top => cases member
  | step under _ ih =>
      rcases List.mem_cons.mp member with rfl | member
      · exact .single under
      · exact .head under (ih member)

/-- One does not come to a node twice. -/
theorem Ascends.nodup {above : List NodeId} (ascends : dom.Ascends n above)
    (forest : dom.IsForest) : (n :: above).Nodup := by
  induction ascends with
  | top => exact List.nodup_singleton _
  | step under rest ih =>
      exact List.nodup_cons.mpr
        ⟨fun member => forest.not_above_self _
          ((Ascends.step under rest).mem_above member), ih⟩

/-- The nodes passed on the way to a node: all different, and below it. -/
structure Passed (dom : Dom) (n : NodeId) (passed : List NodeId) : Prop where
  nodup : passed.Nodup
  there : ∀ a ∈ passed, a.index < dom.nodes.size
  below : ∀ a ∈ passed, Relation.ReflTransGen dom.IsUnder a n

theorem Passed.nil (n : NodeId) : dom.Passed n [] where
  nodup := .nil
  there _ member := (List.not_mem_nil member).elim
  below _ member := (List.not_mem_nil member).elim

theorem Passed.cons {passed : List NodeId} {parent : NodeId}
    (sofar : dom.Passed n passed) (forest : dom.IsForest)
    (under : dom.parent? n = some parent) :
    dom.Passed parent (parent :: passed) where
  nodup := List.nodup_cons.mpr
    ⟨fun again => forest.not_above_self parent
      (.tail' (sofar.below parent again) under), sofar.nodup⟩
  there := List.forall_mem_cons.mpr
    ⟨lt_size_of_child ((forest.tidy.linked _ _).mpr under), sofar.there⟩
  below := List.forall_mem_cons.mpr
    ⟨.refl, fun a member => .tail (sofar.below a member) under⟩

/-- The fuel lasts to the top. -/
theorem ascends_ancestorsWithin (forest : dom.IsForest) {fuel : Nat}
    {passed : List NodeId} (sofar : dom.Passed n passed)
    (enough : dom.nodes.size ≤ fuel + passed.length) :
    dom.Ascends n (dom.ancestorsWithin fuel n) := by
  induction fuel generalizing n passed with
  | zero =>
      refine .top (Option.eq_none_iff_forall_ne_some.mpr fun parent under => ?_)
      have further := sofar.cons forest under
      have fits := length_le_size further.nodup further.there
      rw [List.length_cons] at fits
      omega
  | succ fuel ih =>
      rw [ancestorsWithin]
      cases under : dom.parent? n with
      | none => exact .top under
      | some parent =>
          refine .step under (ih (sofar.cons forest under) ?_)
          rw [List.length_cons]
          omega

theorem ascends_ancestors (forest : dom.IsForest) (n : NodeId) :
    dom.Ascends n (dom.ancestors n) :=
  ascends_ancestorsWithin forest (.nil n) (Nat.le_refl _)

end Dom

/-- One station on the way of an event, and the calls of its listeners. -/
structure Visit (σ : Type) where
  node : NodeId
  calls : List (Call σ EventAction)

namespace NodeEvents

/-- A listener hears an event. -/
def Hears (host : Host σ) (event : DomEvent) (listener : Listener EventAction)
    (before after : World σ) : Prop :=
  after = (react host event listener.action).after before

/-- An event is at a node, with the nodes that lie ahead held: the listeners
there take turns. -/
def Calls (host : Host σ) (event : DomEvent) (n : NodeId) (ahead : List NodeId)
    (start : World σ) (calls : List (Call σ EventAction)) (final : World σ) :
    Prop :=
  let here := { event with current := some n }
  let held := Frame.refs (here.refs ++ ahead.map .node)
  ∃ last, final = last.holding start.frames ∧
    Round (·.eventActionsOf n) (Hears host here)
      ((start.eventActionsOf n).of event.type)
      (start.holding (held :: start.frames)) calls last

/-- An event goes from node to node until it has been stopped or has come to the
end of its way. -/
inductive Journey (host : Host σ) (event : DomEvent) :
    List NodeId → World σ → List (Visit σ) → World σ → Prop where
  | done (world : World σ) : Journey host event [] world [] world
  | onward {n : NodeId} {ahead : List NodeId} {start between final : World σ}
      {calls : List (Call σ EventAction)} {visits : List (Visit σ)}
      (here : Calls host event n ahead start calls between)
      (clear : between.isStopped event = false)
      (later : Journey host event ahead between visits final) :
      Journey host event (n :: ahead) start (⟨n, calls⟩ :: visits) final
  | stopped {n : NodeId} {ahead : List NodeId} {start final : World σ}
      {calls : List (Call σ EventAction)}
      (here : Calls host event n ahead start calls final)
      (stopped : final.isStopped event = true) :
      Journey host event (n :: ahead) start [⟨n, calls⟩] final

private theorem after_runEach_cons (host : Host σ) (n : NodeId)
    (event : DomEvent)
    (listener : Listener EventAction) (rest : List (Listener EventAction))
    (world : World σ) :
    (runEach host n event (listener :: rest)).after world =
      (runEach host n event rest).after
        (if (world.eventActionsOf n).contains listener.id then
          (react host event listener.action).after world
        else world) := by
  cases contained : (world.eventActionsOf n).contains listener.id <;>
    simp [runEach, contained]

/-- Call listeners at a node while the nodes that lie ahead are held. -/
def attend (host : Host σ) (event : DomEvent) (n : NodeId)
    (ahead : List NodeId) (waiting : List (Listener EventAction)) :
    Act σ Unit :=
  let here := { event with current := some n }
  keeping (.refs (here.refs ++ ahead.map .node)) (runEach host n here waiting)

private theorem after_travel_cons (host : Host σ) (event : DomEvent)
    (n : NodeId)
    (ahead : List NodeId) (world : World σ) :
    let waiting := (world.eventActionsOf n).of event.type
    let attended := (attend host event n ahead waiting).after world
    (travel host event (n :: ahead)).after world =
      if waiting.isEmpty then (travel host event ahead).after world
      else if attended.isStopped event then attended
      else (travel host event ahead).after attended := by
  intro waiting attended
  have opened : (travel host event (n :: ahead)).after world =
      (if waiting.isEmpty then travel host event ahead
      else do
        attend host event n ahead waiting
        if !(← get).isStopped event then
          travel host event ahead).after world := by
    rw [travel]
    rfl
  rw [opened]
  split
  · rfl
  · change (if !attended.isStopped event then travel host event ahead
      else pure ()).after attended = _
    cases attended.isStopped event <;> rfl

private theorem calls_nobody {host : Host σ} {event : DomEvent} {n : NodeId}
    {ahead : List NodeId} {world : World σ}
    (nobody : (world.eventActionsOf n).of event.type = []) :
    Calls host event n ahead world [] world := by
  let held := Frame.refs
    (DomEvent.refs { event with current := some n } ++ ahead.map .node)
  refine ⟨world.holding (held :: world.frames), rfl, ?_⟩
  rw [nobody]
  exact .nil _

section Orderly

variable {host : Host σ} (orderly : host.Orderly) {world : World σ}

include orderly

theorem runs_attend (event : DomEvent) (n : NodeId) (ahead : List NodeId)
    (waiting : List (Listener EventAction)) :
    (attend host event n ahead waiting).Runs := by
  exact .keeping (runs_runEach orderly n _ waiting)

theorem calls_attend (event : DomEvent) (n : NodeId) (ahead : List NodeId)
    (ordered : world.Ordered) (numbered : world.Numbered) :
    let waiting := (world.eventActionsOf n).of event.type
    ∃ calls, Calls host event n ahead world calls
      ((attend host event n ahead waiting).after world) := by
  intro waiting
  let here := { event with current := some n }
  let held := Frame.refs (here.refs ++ ahead.map .node)
  have sorted := Listeners.pairwise_of (numbered (.node n)) event.type
  have arrived : Run world (world.holding (held :: world.frames)) :=
    .holding world _
  obtain ⟨after, progress⟩ := arrived.progress ordered
  have issued (listener : Listener EventAction) (member : listener ∈ waiting) :=
    progress.issued (ordered.listeners ⟨.node n, listener.id⟩
      (List.mem_map_of_mem (List.mem_filter.mp member).1))
  have runs (listener : Listener EventAction) (_ : List (Listener EventAction))
      (world : World σ) (ordered : world.Ordered) :
      Run world ((react host here listener.action).after world) :=
    (runs_react orderly here _).run ordered
  obtain ⟨calls, round⟩ := round_each (fun _ => rfl) runs
    (fun waiting => (runEach host n here waiting).after) (fun _ => rfl)
    (after_runEach_cons host n here) after sorted issued
  exact ⟨calls, _, rfl, round⟩

private theorem journey_travel (event : DomEvent) (path : List NodeId)
    (ordered : world.Ordered) (numbered : world.Numbered)
    (clear : world.isStopped event = false) :
    ∃ visits, Journey host event path world visits
      ((travel host event path).after world) := by
  induction path generalizing world with
  | nil => exact ⟨[], .done world⟩
  | cons n ahead ih =>
      rw [after_travel_cons]
      split
      · rename_i nobody
        obtain ⟨visits, journey⟩ := ih ordered numbered clear
        have here : Calls host event n ahead world [] world :=
          calls_nobody (List.isEmpty_iff.mp nobody)
        exact ⟨_, .onward here clear journey⟩
      · obtain ⟨calls, here⟩ := calls_attend orderly event n ahead ordered
          numbered
        have run := (runs_attend orderly event n ahead
          ((world.eventActionsOf n).of event.type)).run ordered
        split
        · rename_i stopped
          exact ⟨_, .stopped here stopped⟩
        · rename_i further
          have further := eq_false_of_ne_true further
          obtain ⟨visits, journey⟩ := ih (run.progress ordered).1
            (run.numbered ordered numbered) further
          exact ⟨_, .onward here further journey⟩

/-- In every world that can be reached, whatever the code of the client does
meanwhile, an event that has not been stopped visits its target and, if it
bubbles, the nodes that are above the target when it is sent, nearest first.  At
each of them it is heard, with this target and this node, by those that listen
when it arrives and that have not been unsubscribed before their turn, in the
order of subscription.  It ends at the first node whose listeners have stopped
it, all of them having had their turn, and comes back with the target and
without a current node. -/
theorem dispatch_delivers {client : σ}
    (reached : Run (World.initial client) world)
    (forest : world.dom.IsForest) (target : NodeId) (event : DomEvent)
    (clear : world.isStopped event = false) :
    (dispatch host target event).result world =
      { event with target := some target, current := none } ∧
    ∃ above visits,
      (host.liveDom world).Ascends target above ∧ (target :: above).Nodup ∧
      Journey host { event with target := some target }
        (target :: if event.bubbles then above else []) world visits
        ((dispatch host target event).after world) := by
  have ordered := (reached.progress (World.ordered_initial client)).1
  have numbered := reached.numbered (World.ordered_initial client)
    (World.numbered_initial client)
  have shown : (host.liveDom world).IsForest :=
    World.isForest_liveDom forest _
  have ascends := Dom.ascends_ancestors shown target
  obtain ⟨visits, journey⟩ := journey_travel orderly
    { event with target := some target }
    (path (host.liveDom world) target event.bubbles) ordered numbered clear
  exact ⟨rfl, _, visits, ascends, ascends.nodup shown, journey⟩

end Orderly

end NodeEvents

namespace Halfway

/-- A client that writes down which of its handlers run and at which nodes.  The
first one takes the node out of its parent, unsubscribes the second listener,
and subscribes one more there and one at the parent.  The fourth one stops the
event. -/
def host : Host (List (Nat × Option NodeId)) where
  keeps _ := [.node ⟨0⟩]
  notice _ _ := pure ()
  event handler event := do
    modify fun world =>
      { world with client := world.client ++ [(handler.index, event.current)] }
    if handler.index = 0 then
      modifyDom (·.detach ⟨2⟩)
      NodeEvents.unsubscribe ⟨2⟩ ⟨1⟩
      let _ ← NodeEvents.subscribe ⟨2⟩ "click" (.call ⟨5⟩)
      let _ ← NodeEvents.subscribe ⟨1⟩ "click" (.call ⟨3⟩)
    if handler.index = 3 then
      event.stop
  transform _ value _ := pure value
  destroy _ := pure ()

theorem runs_subscribe (n : NodeId) (handler : Handler) :
    (NodeEvents.subscribe n "click" (.call handler) :
      Act (List (Nat × Option NodeId)) ListenerId).Runs := by
  intro world _
  exact .of_run (.subscribeNode world _ _ _)

theorem orderly : host.Orderly where
  notice _ _ := .pure ()
  event handler event := by
    have written : (modify fun world => { world with
        client := world.client ++ [(handler.index, event.current)] } :
          Act (List (Nat × Option NodeId)) Unit).Runs :=
      .aside (fun _ => rfl) (fun _ => rfl) (fun _ => rfl)
        fun _ => .of_templates rfl
    have dropped : (NodeEvents.unsubscribe ⟨2⟩ ⟨1⟩ :
        Act (List (Nat × Option NodeId)) Unit).Runs :=
      fun world _ => .of_run (.unsubscribeNode world _ _)
    have stopped : (if handler.index = 3 then event.stop else pure () :
        Act (List (Nat × Option NodeId)) Unit).Runs :=
      .ite (fun _ => .aside (fun _ => rfl) (fun _ => rfl) (fun _ => rfl)
        fun _ => .of_templates rfl) fun _ => .pure ()
    refine .bind written fun _ => .ite (fun _ => ?_) fun _ => stopped
    exact .bind (.modifyDom _) fun _ => .bind dropped fun _ =>
      .bind (runs_subscribe _ _) fun _ => .bind (runs_subscribe _ _) fun _ =>
        stopped
  transform _ value _ := .pure value
  destroy _ := .pure ()

/-- A paragraph in a division in a section. -/
def fixture : Fixture :=
  .element "section" [] [.element "div" [] [.element "p" [] []]]

/-- Three listeners at the paragraph and one at the section. -/
def subscribe : Act (List (Nat × Option NodeId)) Unit := do
  modifyDom fun dom => (fixture.mount dom).2
  let _ ← NodeEvents.subscribe ⟨2⟩ "click" (.call ⟨0⟩)
  let _ ← NodeEvents.subscribe ⟨2⟩ "click" (.call ⟨1⟩)
  let _ ← NodeEvents.subscribe ⟨2⟩ "click" (.call ⟨2⟩)
  let _ ← NodeEvents.subscribe ⟨0⟩ "click" (.call ⟨4⟩)

def start : World (List (Nat × Option NodeId)) :=
  subscribe.after (World.initial [])

theorem reached : Run (World.initial []) start := by
  have runs : subscribe.Runs := by
    refine .bind (.modifyDom _) fun _ => .bind (runs_subscribe _ _) fun _ => ?_
    exact .bind (runs_subscribe _ _) fun _ => .bind (runs_subscribe _ _)
      fun _ => .bind (runs_subscribe _ _) fun _ => .pure ()
  exact runs.run (World.ordered_initial [])

def click : DomEvent := ⟨"click", true, none, none, ⟨0⟩⟩

/-- The third listener is called and, at the parent that the paragraph has left,
the listener that is new there; the section is not reached. -/
theorem dispatch_stops_halfway :
    let sent := NodeEvents.dispatch host ⟨2⟩ click
    sent.result start = { click with target := some ⟨2⟩, current := none } ∧
    (∃ above visits, (host.liveDom start).Ascends ⟨2⟩ above ∧
      (⟨2⟩ :: above).Nodup ∧
      NodeEvents.Journey host { click with target := some ⟨2⟩ } (⟨2⟩ :: above)
        start visits (sent.after start)) ∧
    (sent.after start).client =
      [(0, some ⟨2⟩), (2, some ⟨2⟩), (3, some ⟨1⟩)] := by
  have all := NodeEvents.dispatch_delivers orderly reached
    (Fixture.grown_mount Dom.isForest_empty fixture).forest ⟨2⟩ click
    (by decide +kernel)
  exact ⟨all.1, all.2, by decide +kernel⟩

end Halfway

end LiveTemplate
