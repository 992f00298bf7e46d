import Mathlib.Data.List.Sort
import LiveTemplate.Proofs.Journeys
import LiveTemplate.Proofs.Passes
import LiveTemplate.Proofs.Records
import LiveTemplate.Proofs.Runs

/-!
# Delegated listeners

A template that is rendered into an element, or applied to one, installs its
listeners there last of all: one for each binding under each key, in the order
in which they are written.  From then on they stay what they are until they are
unsubscribed.

Whenever an event is sent, whatever happened in between and whatever its
listeners do, those take their turn that are subscribed to its type and still
there, if the event gets as far as the element.  Their action runs once, unless
they ask for a target that is not the one the event has.
-/

namespace LiveTemplate

open Selector (SelectorList)

variable {σ : Type}

/-- A key is a type of event, or one with a selector after the first at sign. -/
inductive KeyReads : String → String → Option SelectorList → Prop where
  | plain {event : String} (plain : '@' ∉ event.toList) :
      KeyReads event event none
  | delegated {event text : String} {selectors : SelectorList}
      (plain : '@' ∉ event.toList)
      (parsed : SelectorList.parse text = .ok selectors) :
      KeyReads (event ++ "@" ++ text) event (some selectors)

theorem keyReads_of_parse {key event : String} {selectors : Option SelectorList}
    (parsed : parseListenerKey key = .ok (event, selectors)) :
    KeyReads key event selectors := by
  by_cases present : '@' ∈ key.toList
  · obtain ⟨front, back, split, before⟩ := List.eq_append_cons_of_mem present
    unfold parseListenerKey at parsed
    rw [span_at_sign split before] at parsed
    dsimp only at parsed
    cases list : SelectorList.parse (String.ofList back) with
    | error cause =>
        rw [list] at parsed
        cases parsed
    | ok selectors =>
        rw [list] at parsed
        cases parsed
        have whole :
            key = String.ofList front ++ "@" ++ String.ofList back := by
          apply String.toList_injective
          simp [split]
        rw [whole]
        exact .delegated (by simpa using before) list
  · have plain : parseListenerKey key = .ok (key, none) := by
      have passed : ∀ c ∈ key.toList, (c != '@') = true := by
        intro c member
        simp only [bne_iff_ne, ne_eq]
        rintro rfl
        exact present member
      unfold parseListenerKey
      rw [List.span_eq_takeWhile_dropWhile,
        List.takeWhile_eq_self_iff.mpr passed,
        List.dropWhile_eq_nil_iff.mpr passed]
    rw [plain] at parsed
    cases parsed
    exact .plain present

/-! ## Installing listeners -/

/-- One listener for each binding under each key, in order. -/
inductive Installs : List (String × List ListenerBinding) →
    List (Listener EventAction) → Prop where
  | none : Installs [] []
  | key {key event : String} {selectors : Option SelectorList}
      {bindings : List ListenerBinding}
      {keys : List (String × List ListenerBinding)}
      {group others : List (Listener EventAction)}
      (reads : KeyReads key event selectors)
      (each : List.Forall₂ (fun binding listener => listener.event = event ∧
        listener.action = .delegate selectors binding) bindings group)
      (later : Installs keys others) :
      Installs ((key, bindings) :: keys) (group ++ others)

private theorem Installs.delegates {keys : List (String × List ListenerBinding)}
    {installed : List (Listener EventAction)}
    (installs : Installs keys installed)
    {listener : Listener EventAction} (member : listener ∈ installed) :
    ∃ selectors binding, listener.action = .delegate selectors binding := by
  induction installs with
  | none => cases member
  | key reads each _ ih =>
      rcases List.mem_append.mp member with own | other
      · clear ih
        induction each with
        | nil => cases own
        | cons first _ ih =>
            rcases List.mem_cons.mp own with rfl | later
            · exact ⟨_, _, first.2⟩
            · exact ih (List.mem_append_left _ later) later
      · exact ih other

/-- A node has got some listeners more. -/
def Appends (n : NodeId) (world later : World σ)
    (added : List (Listener EventAction)) : Prop :=
  (later.eventActionsOf n).entries =
    (world.eventActionsOf n).entries ++ added

theorem Appends.trans {n : NodeId} {world between later : World σ}
    {added more : List (Listener EventAction)}
    (first : Appends n world between added)
    (second : Appends n between later more) :
    Appends n world later (added ++ more) := by
  unfold Appends at *
  rw [second, first, List.append_assoc]

private theorem Emitter.appends_listenToNode (e : EmitterId) (n : NodeId)
    (type : String) (action : EventAction) (world : World σ) :
    ∃ id, Appends n world ((listenToNode e n type action).after world)
      [⟨id, type, action⟩] := by
  have subscribed :
      ((listenToNode e n type action).after world).eventActionsOf n =
        ((NodeEvents.subscribe n type action).after world).eventActionsOf n :=
    rfl
  refine ⟨⟨(world.eventActionsOf n).next⟩, ?_⟩
  unfold Appends
  rw [subscribed, NodeEvents.after_subscribe,
    NodeEvents.eventActionsOf_modifyActions_self]
  rfl

namespace Blueprint

theorem appends_bindings (n : NodeId) (event : String)
    (selectors : Option SelectorList) (bindings : List ListenerBinding)
    (world : World σ) :
    ∃ group, Appends n world
      ((bindings.mapM fun binding => Emitter.listenToNode binding.emitter n
        event (.delegate selectors binding)).after world) group ∧
      List.Forall₂ (fun binding listener => listener.event = event ∧
        listener.action = .delegate selectors binding) bindings group := by
  induction bindings generalizing world with
  | nil => exact ⟨[], (List.append_nil _).symm, .nil⟩
  | cons binding rest ih =>
      obtain ⟨id, first⟩ := Emitter.appends_listenToNode binding.emitter n event
        (.delegate selectors binding) world
      obtain ⟨group, later, each⟩ := ih _
      rw [List.mapM_cons]
      exact ⟨_ :: group, first.trans later, .cons ⟨rfl, rfl⟩ each⟩

/-- Install the listeners under one key. -/
def listenUnder (n : NodeId) (key : String) (bindings : List ListenerBinding) :
    Pass σ Unit := do
  let (event, selectors) ← Pass.ofExcept (parseListenerKey key)
  Pass.noteGroup (← Pass.act (bindings.mapM fun binding =>
    Emitter.listenToNode binding.emitter n event
      (.delegate selectors binding)))

private theorem ensures_listenUnder (n : NodeId) (key : String)
    (bindings : List ListenerBinding) (record : Record) (world : World σ) :
    Pass.Ensures (listenUnder n key bindings) record world fun _ later =>
      ∃ event selectors group, KeyReads key event selectors ∧
        Appends n world later group ∧
        List.Forall₂ (fun binding listener => listener.event = event ∧
          listener.action = .delegate selectors binding) bindings group := by
  refine .ofExcept_bind fun parsed accepted => ?_
  obtain ⟨event, selectors⟩ := parsed
  obtain ⟨group, appends, each⟩ :=
    appends_bindings n event selectors bindings world
  exact .act_bind (.note ⟨event, selectors, group, keyReads_of_parse accepted,
    appends, each⟩)

/-- What is written under the keys is installed, key by key. -/
theorem ensures_renderListeners (blueprint : Blueprint) (n : NodeId)
    (record : Record) (world : World σ) :
    Pass.Ensures (blueprint.renderListeners n) record world fun _ later =>
      ∃ installed, Appends n world later installed ∧
        Installs blueprint.listeners installed := by
  change Pass.Ensures (blueprint.listeners.forM fun entry =>
    listenUnder n entry.1 entry.2) record world _
  generalize blueprint.listeners = keys
  induction keys generalizing record world with
  | nil => exact .pure ⟨[], (List.append_nil _).symm, .none⟩
  | cons entry rest ih =>
      obtain ⟨key, bindings⟩ := entry
      change Pass.Ensures (listenUnder n key bindings >>= fun _ =>
        rest.forM fun entry => listenUnder n entry.1 entry.2) _ _ _
      refine (ensures_listenUnder n key bindings record world).bind
        fun _ recorded between installed => ?_
      obtain ⟨event, selectors, group, reads, appends, each⟩ := installed
      refine (ih recorded between).weaken fun _ _ later => ?_
      obtain ⟨others, more, installs⟩ := later
      exact ⟨group ++ others, appends.trans more, .key reads each installs⟩

/-- The listeners of a blueprint are the last ones at a node. -/
structure IsInstalled (blueprint : Blueprint) (world : World σ) (n : NodeId)
    (installed : List (Listener EventAction)) : Prop where
  last : installed <:+ (world.eventActionsOf n).entries
  installs : Installs blueprint.listeners installed

theorem IsInstalled.of_same {blueprint : Blueprint} {world later : World σ}
    {n : NodeId} {installed : List (Listener EventAction)}
    (there : blueprint.IsInstalled world n installed)
    (same : later.eventActions = world.eventActions) :
    blueprint.IsInstalled later n installed := by
  refine ⟨?_, there.installs⟩
  unfold World.eventActionsOf
  rw [same]
  exact there.last

/-- Whatever comes before, listeners are installed last, at the target if there
is one. -/
theorem ensures_renderElement (host : Host σ) (mounter : Mounter σ)
    (nested : Nested σ) (blueprint : Blueprint) (target : Option NodeId)
    (path : DefinitionPath) (record : Record) (world : World σ) :
    Pass.Ensures (blueprint.renderElement host mounter nested target path)
      record world fun n later => (∀ m, target = some m → n = m) ∧
        ∃ installed, blueprint.IsInstalled later n installed := by
  have anyhow {α : Type} {pass : Pass σ α} {record : Record}
      {world : World σ} : pass.Ensures record world fun _ _ => True :=
    fun _ _ _ => trivial
  have filled (node : NodeId) (applying : Bool) (record : Record)
      (world : World σ) : Pass.Ensures (do
        Pass.keeping [.node node] do
          blueprint.renderAttributes host node applying
          if applying then
            blueprint.applyMembers nested node path 0 0 blueprint.children
          else
            renderMembers mounter nested blueprint.children node path
          blueprint.renderListeners node
        return node) record world fun n later => n = node ∧
          ∃ installed, blueprint.IsInstalled later n installed := by
    have listens (record : Record) (between : World σ) :
        (blueprint.renderListeners node).Ensures record between fun _ later =>
          ∃ installed, blueprint.IsInstalled (later.holding world.frames) node
            installed := by
      refine (ensures_renderListeners blueprint node record between).weaken
        fun _ _ done => ?_
      obtain ⟨installed, appends, installs⟩ := done
      exact ⟨installed, ⟨_, appends.symm⟩, installs⟩
    refine Pass.Ensures.bind (.keeping ?_) fun _ _ _ holds => .pure ⟨rfl, holds⟩
    refine anyhow.bind fun _ recorded between _ => ?_
    dsimp only
    split
    · exact anyhow.bind fun _ recorded between _ => listens recorded between
    · exact anyhow.bind fun _ recorded between _ => listens recorded between
  unfold renderElement
  cases target with
  | some node =>
      refine (filled node true record world).weaken fun n _ done => ?_
      exact ⟨fun m same => done.1.trans (Option.some.inj same), done.2⟩
  | none =>
      cases blueprint.tag with
      | some tag =>
          refine .act_bind ((filled _ false _ _).weaken fun n _ done => ?_)
          exact ⟨nofun, done.2⟩
      | none => exact .throw

end Blueprint

namespace Template

/-- A template has been rendered into a node or applied to one, by itself or on
the way of another one. -/
inductive Instates (host : Host σ) (t : TemplateId) (n : NodeId)
    (start : World σ) : World σ → Prop where
  | render (rendered : (render host t).result start = .ok n) :
      Instates host t n start ((render host t).after start)
  | apply (applied : (apply host t n).result start = .ok n) :
      Instates host t n start ((apply host t n).after start)
  | nested {mounter : Mounter σ} {nested : Nested σ} {target : Option NodeId}
      {path : DefinitionPath} {record recorded : Record}
      (passed : ((pass host mounter nested t target path).start record).result
        start = (.ok n, recorded)) :
      Instates host t n start
        (((pass host mounter nested t target path).start record).after start)

theorem ensures_pass (host : Host σ) (mounter : Mounter σ) (nested : Nested σ)
    (t : TemplateId) (target : Option NodeId) (path : DefinitionPath)
    (record : Record) (world : World σ)
    (element : (world.template t).blueprint.text = none) :
    (pass host mounter nested t target path).Ensures record world
      fun n later => (∀ m, target = some m → n = m) ∧ ∃ installed,
        (world.template t).blueprint.IsInstalled later n installed := by
  have made : (passWith host mounter nested t (world.template t).blueprint
      target path).Ensures record world fun n later =>
        (∀ m, target = some m → n = m) ∧ ∃ installed,
          (world.template t).blueprint.IsInstalled later n installed := by
    unfold passWith
    rw [element, Option.isSome_none, if_neg Bool.false_ne_true]
    refine (Blueprint.ensures_renderElement host mounter nested _ target path
      record world).bind fun n _ later done => ?_
    obtain ⟨same, installed, there⟩ := done
    cases target with
    | none => exact .act_bind (.pure ⟨same, installed, there.of_same rfl⟩)
    | some node => exact .pure ⟨same, installed, there⟩
  intro n recorded passed
  rw [Act.result, start_pass] at passed
  rw [Act.after, start_pass]
  split at passed
  · cases passed
  · rename_i free
    rw [if_neg free]
    exact made n recorded passed

/-- When a template has been rendered into an element or applied to one, its
listeners are there. -/
theorem Instates.installed {host : Host σ} {t : TemplateId} {n : NodeId}
    {start between : World σ} (instates : Instates host t n start between)
    (element : (start.template t).blueprint.text = none) :
    ∃ installed,
      (start.template t).blueprint.IsInstalled between n installed := by
  cases instates with
  | render rendered =>
      obtain ⟨-, -, ⟨record, passed⟩, after⟩ := renderWith_ok rendered
      obtain ⟨-, installed, there⟩ := ensures_pass host _ _ t none [] .empty
        (start.holding (.refs [.template t] :: start.frames)) element n record
        passed
      rw [Template.render, after]
      exact ⟨installed, there.of_same rfl⟩
  | apply applied =>
      obtain ⟨record, node, passed, after⟩ := apply_ok applied
      obtain ⟨same, installed, there⟩ := ensures_pass host _ _ t (some n) []
        .empty (start.holding (.refs [.template t] :: start.frames)) element
        node record passed
      rw [after]
      rw [same n rfl] at there
      exact ⟨installed, there.of_same rfl⟩
  | nested passed =>
      exact (ensures_pass _ _ _ _ _ _ _ _ element _ _ passed).2

end Template

namespace World

variable {world later : World σ}

/-- What listens at a node is the same as long as it is registered. -/
def KeepsActions (world later : World σ) : Prop :=
  ∀ n, ∀ listener ∈ (world.eventActionsOf n).entries,
    later.Registered ⟨.node n, listener.id⟩ →
      listener ∈ (later.eventActionsOf n).entries

theorem KeepsActions.of_same (same : later.eventActions = world.eventActions) :
    KeepsActions world later := by
  intro n listener member _
  unfold eventActionsOf
  rw [same]
  exact member

theorem KeepsActions.subscribe (n : NodeId) (type : String)
    (action : EventAction) (world : World σ) :
    KeepsActions world ((NodeEvents.subscribe n type action).after world) := by
  intro m listener member _
  rw [NodeEvents.after_subscribe]
  by_cases same : m = n
  · subst same
    rw [NodeEvents.eventActionsOf_modifyActions_self]
    exact List.mem_append_left _ member
  · rwa [NodeEvents.eventActionsOf_modifyActions_of_ne _ _ same]

theorem KeepsActions.drop (subscription : Subscription) (world : World σ) :
    KeepsActions world (subscription.drop.after world) := by
  intro n listener member present
  change listener.id ∈
    ((subscription.drop.after world).eventActionsOf n).entries.map (·.id)
    at present
  rw [Subscription.eventActionsOf_drop] at present ⊢
  obtain ⟨other, left, same⟩ := List.mem_map.mp present
  obtain ⟨_, kept⟩ := List.mem_filter.mp left
  change other.id = listener.id at same
  rw [same] at kept
  exact List.mem_filter.mpr ⟨member, kept⟩

private theorem Numbered.eq_of_id (numbered : world.Numbered) {n : NodeId}
    {one other : Listener EventAction}
    (member : one ∈ (world.eventActionsOf n).entries)
    (memberToo : other ∈ (world.eventActionsOf n).entries)
    (same : one.id = other.id) : one = other := by
  have distinct : ((world.eventActionsOf n).entries.map (·.id)).Nodup :=
    (numbered (.node n)).imp fun less same => by
      rw [same] at less
      exact Nat.lt_irrefl _ less
  exact List.inj_on_of_nodup_map distinct member memberToo same

end World

/-- Whatever happens, a listener at a node never changes. -/
theorem Run.keepsActions {world later : World σ} (run : Run world later)
    (ordered : world.Ordered) : world.KeepsActions later := by
  induction run with
  | trans early late first second =>
      intro n listener member present
      obtain ⟨between, progress⟩ := early.progress ordered
      have issued := progress.issued (ordered.listeners ⟨.node n, listener.id⟩
        (List.mem_map_of_mem member))
      exact second between n listener (first ordered n listener member
        (late.registered_before between issued present)) present
  | aside _ eventActions _ _ => exact .of_same eventActions
  | subscribe world o event reaction => exact .of_same rfl
  | unsubscribe world o id => exact .of_same rfl
  | subscribeNode world n type action => exact .subscribe n type action world
  | unsubscribeNode world n id => exact .drop ⟨.node n, id⟩ world
  | listenToObservable world e o event reaction => exact .of_same rfl
  | listenToNode world e n type action =>
      exact .subscribe n type action world
  | revoked world => exact .of_same rfl
  | revoke world r =>
      rw [Revoker.after_revoke]
      cases world.subscription? r with
      | none => exact .of_same rfl
      | some subscription =>
          exact World.KeepsActions.drop subscription (Revoker.forget world r)

/-- A node at which an event arrives, the calls of the listeners there, and the
world in which it is done with them. -/
structure Station (σ : Type) where
  node : NodeId
  arrival : World σ
  calls : List (Call σ EventAction)
  departure : World σ

namespace NodeEvents

/-- An event goes from station to station until it has been stopped or has come
to the end of its way. -/
inductive Tours (host : Host σ) (event : DomEvent) :
    List NodeId → World σ → List (Station σ) → World σ → Prop where
  | done (world : World σ) : Tours host event [] world [] world
  | onward {n : NodeId} {ahead : List NodeId} {start between final : World σ}
      {calls : List (Call σ EventAction)} {stations : List (Station σ)}
      (here : Calls host event n ahead start calls between)
      (clear : between.isStopped event = false)
      (later : Tours host event ahead between stations final) :
      Tours host event (n :: ahead) start
        (⟨n, start, calls, between⟩ :: stations) final
  | stopped {n : NodeId} {ahead : List NodeId} {start final : World σ}
      {calls : List (Call σ EventAction)}
      (here : Calls host event n ahead start calls final)
      (stopped : final.isStopped event = true) :
      Tours host event (n :: ahead) start [⟨n, start, calls, final⟩] final

theorem Journey.tours {host : Host σ} {event : DomEvent} {path : List NodeId}
    {start final : World σ} {visits : List (Visit σ)}
    (journey : Journey host event path start visits final) :
    ∃ stations, Tours host event path start stations final := by
  induction journey with
  | done world => exact ⟨[], .done world⟩
  | onward here clear _ ih =>
      obtain ⟨stations, later⟩ := ih
      exact ⟨_, .onward here clear later⟩
  | stopped here stopped => exact ⟨_, .stopped here stopped⟩

namespace Tours

variable {host : Host σ} {event : DomEvent} {path : List NodeId}
  {start final : World σ} {stations : List (Station σ)}

theorem nodes_prefix (tours : Tours host event path start stations final) :
    stations.map (·.node) <+: path := by
  induction tours with
  | done => exact List.prefix_rfl
  | onward _ _ _ ih => exact List.prefix_cons_inj _ |>.mpr ih
  | stopped => exact List.prefix_cons_inj _ |>.mpr (List.nil_prefix)

/-- An event gets to a node on its way unless it has been stopped at a station
before. -/
theorem reaches_iff (tours : Tours host event path start stations final)
    (distinct : path.Nodup) {n : NodeId} (member : n ∈ path) :
    (∃ station ∈ stations, station.node = n) ↔
      ∀ station ∈ stations, station.node ∈ path.takeWhile (· ≠ n) →
        station.departure.isStopped event = false := by
  induction tours with
  | done => cases member
  | @onward m ahead _ _ _ _ stations _ clear later ih =>
      obtain ⟨apart, distinct⟩ := List.nodup_cons.mp distinct
      by_cases here : m = n
      · simp [here]
      · have further : n ∈ ahead := by
          rcases List.mem_cons.mp member with same | further
          · exact absurd same.symm here
          · exact further
        have nodes (station : Station σ) (inside : station ∈ stations) :
            station.node ≠ m := by
          rintro rfl
          exact apart (later.nodes_prefix.subset (List.mem_map_of_mem inside))
        rw [List.takeWhile_cons_of_pos (by simpa using here)]
        constructor
        · intro reached other inside before
          obtain ⟨station, inside', same⟩ := reached
          rcases List.mem_cons.mp inside' with rfl | inside'
          · exact absurd same here
          · rcases List.mem_cons.mp inside with rfl | inside
            · exact clear
            · refine (ih distinct further).mp ⟨station, inside', same⟩ other
                inside ?_
              exact (List.mem_cons.mp before).resolve_left (nodes other inside)
        · intro unstopped
          obtain ⟨station, inside, same⟩ := (ih distinct further).mpr
            fun station inside before =>
              unstopped station (.tail _ inside) (.tail _ before)
          exact ⟨station, .tail _ inside, same⟩
  | @stopped m ahead _ _ _ _ stopped =>
      by_cases here : m = n
      · simp [here]
      · rw [List.takeWhile_cons_of_pos (by simpa using here)]
        simp [here, stopped]

end Tours

theorem runs_linked {α : Type} {start final : World σ} {calls : List (Call σ α)}
    (linked : Call.Linked start calls final)
    (runs : ∀ call ∈ calls, call.before.Ordered → Run call.before call.after)
    (ordered : start.Ordered) :
    Run start final := by
  induction calls generalizing start with
  | nil =>
      cases linked
      exact .refl _
  | cons call rest ih =>
      obtain ⟨rfl, linked⟩ := linked
      have first := runs call (.head _) ordered
      exact first.trans (ih linked
        (fun call member => runs call (.tail _ member))
        (first.progress ordered).1)

section Orderly

variable {host : Host σ} (orderly : host.Orderly) {event : DomEvent}

include orderly

theorem Calls.run {n : NodeId} {ahead : List NodeId} {start final : World σ}
    {calls : List (Call σ EventAction)}
    (here : Calls host event n ahead start calls final)
    (ordered : start.Ordered) : Run start final := by
  obtain ⟨last, rfl, round⟩ := here
  have entered (frames : List Frame) : (start.holding frames).Ordered :=
    ((Run.holding start frames).progress ordered).1
  have turns := runs_linked round.linked (fun call member ordered => ?_)
    (entered _)
  · exact ((Run.holding start _).trans turns).trans (.holding last _)
  · rw [round.does call member]
    exact (runs_react orderly _ _).run ordered

theorem Tours.each {path : List NodeId} {start final : World σ}
    {stations : List (Station σ)}
    (tours : Tours host event path start stations final)
    (ordered : start.Ordered) :
    ∀ station ∈ stations, Run start station.arrival ∧ ∃ ahead,
      Calls host event station.node ahead station.arrival station.calls
        station.departure := by
  induction tours with
  | done => exact fun _ member => (List.not_mem_nil member).elim
  | onward here _ _ ih =>
      have run := here.run orderly ordered
      refine List.forall_mem_cons.mpr ⟨⟨.refl _, _, here⟩,
        fun station member => ?_⟩
      obtain ⟨later, calls⟩ := ih (run.progress ordered).1 station member
      exact ⟨run.trans later, calls⟩
  | stopped here _ =>
      exact List.forall_mem_cons.mpr ⟨⟨.refl _, _, here⟩,
        fun _ member => (List.not_mem_nil member).elim⟩

end Orderly

/-! ## Turns -/

section Turns

variable {host : Host σ} {event : DomEvent} {n : NodeId}
  {ahead : List NodeId} {arrival departure : World σ}
  {calls : List (Call σ EventAction)}

/-- A listener is subscribed when the event arrives and until its turn. -/
def StaysUntilTurn (n : NodeId) (arrival : World σ)
    (calls : List (Call σ EventAction)) (id : ListenerId) : Prop :=
  arrival.Registered ⟨.node n, id⟩ ∧
    ∀ call ∈ calls, call.listener.id.index < id.index →
      call.after.Registered ⟨.node n, id⟩

/-- A listener that does not change is called if the event is of its type and
it stays until its turn. -/
theorem Calls.called_iff
    (here : Calls host event n ahead arrival calls departure)
    {listener : Listener EventAction}
    (keeps : arrival.Registered ⟨.node n, listener.id⟩ →
      listener ∈ (arrival.eventActionsOf n).entries) :
    listener ∈ calls.map (·.listener) ↔
      event.type = listener.event ∧
        StaysUntilTurn n arrival calls listener.id := by
  obtain ⟨last, rfl, round⟩ := here
  have present (world : World σ) :
      (world.eventActionsOf n).contains listener.id = true ↔
        world.Registered ⟨.node n, listener.id⟩ :=
    Listeners.contains_iff_mem
  have called := round.called listener
  simp only [present] at called
  rw [List.mem_map, called]
  constructor
  · rintro ⟨waits, registered, stays⟩
    obtain ⟨_, type⟩ := List.mem_filter.mp waits
    exact ⟨(of_decide_eq_true type).symm, registered, stays⟩
  · rintro ⟨type, registered, stays⟩
    exact ⟨List.mem_filter.mpr ⟨keeps registered,
      decide_eq_true type.symm⟩, registered, stays⟩

private theorem Calls.mem_entries
    (here : Calls host event n ahead arrival calls departure)
    {call : Call σ EventAction} (member : call ∈ calls) :
    call.listener ∈ (arrival.eventActionsOf n).entries := by
  obtain ⟨last, -, round⟩ := here
  exact (List.mem_filter.mp (round.mem_waiting member)).1

end Turns

/-- The calls of some listeners at a node, in order. -/
def turnsAt (n : NodeId) (installed : List (Listener EventAction))
    (stations : List (Station σ)) : List (Call σ EventAction) :=
  (stations.filter (·.node = n)).flatMap fun station =>
    station.calls.filter fun call => call.listener.id ∈ installed.map (·.id)

theorem mem_turnsAt {n : NodeId} {installed : List (Listener EventAction)}
    {stations : List (Station σ)} {call : Call σ EventAction} :
    call ∈ turnsAt n installed stations ↔
      ∃ station ∈ stations, station.node = n ∧ call ∈ station.calls ∧
        call.listener.id ∈ installed.map (·.id) := by
  simp [turnsAt, and_assoc]

/-- An event is at most once at a node. -/
theorem stations_at {n : NodeId} {stations : List (Station σ)}
    (distinct : (stations.map (·.node)).Nodup) :
    stations.filter (·.node = n) = [] ∨
      ∃ station ∈ stations, station.node = n ∧
        stations.filter (·.node = n) = [station] := by
  induction stations with
  | nil => exact .inl rfl
  | cons first rest ih =>
      rw [List.map_cons, List.nodup_cons] at distinct
      by_cases here : first.node = n
      · have others : rest.filter (·.node = n) = [] := by
          rw [List.filter_eq_nil_iff]
          intro station member same
          refine distinct.1 (List.mem_map.mpr ⟨station, member, ?_⟩)
          rw [here]
          simpa using same
        exact .inr ⟨first, .head _, here, by
          rw [List.filter_cons_of_pos (by simpa using here), others]⟩
      · rw [List.filter_cons_of_neg (by simpa using here)]
        refine (ih distinct.2).imp_right ?_
        rintro ⟨station, member, same, only⟩
        exact ⟨station, .tail _ member, same, only⟩

/-- Listeners in the order of their numbers that are among others in this order
are a part of them. -/
theorem sublist_of_numbered {listeners others : List (Listener EventAction)}
    (sorted : listeners.Pairwise fun one other => one.id.index < other.id.index)
    (sortedToo : others.Pairwise fun one other => one.id.index < other.id.index)
    (among : listeners ⊆ others) : listeners.Sublist others := by
  have : Std.Antisymm fun one other : Listener EventAction =>
      one.id.index < other.id.index :=
    ⟨fun _ _ less more => absurd more (Nat.lt_asymm less)⟩
  have distinct : listeners.Nodup := sorted.imp fun less same => by
    rw [same] at less
    exact Nat.lt_irrefl _ less
  exact List.sublist_of_subperm_of_pairwise
    (List.subperm_of_subset distinct among) sorted sortedToo

/-- A listener asks for nothing, or the target is an element that its selectors
match. -/
def IsAskedFor (dom : Dom) (target : NodeId) : Option SelectorList → Prop
  | none => True
  | some selectors => dom.isElement target = true ∧
      selectors.holds dom.elementView target = true

/-- What the binding of a listener does with an event. -/
def act (host : Host σ) (binding : ListenerBinding) (event : DomEvent) :
    Act σ Unit :=
  match binding.action with
  | .emit name =>
      Observable.fire host binding.observable name (.event event)
  | .call handler => host.event handler event

theorem admits_iff {host : Host σ} {world : World σ} {event : DomEvent}
    {target : NodeId} (sent : event.target = some target)
    {selectors : Option SelectorList} :
    admits host world event selectors = true ↔
      IsAskedFor (host.liveDom world) target selectors := by
  cases selectors with
  | none => simp [admits, IsAskedFor]
  | some selectors => simp [admits, IsAskedFor, sent, Dom.isMatch]

/-- A delegated listener runs its action if the target is asked for, and does
nothing otherwise. -/
theorem after_react_delegate {host : Host σ} {world : World σ}
    {event : DomEvent} {target : NodeId} (sent : event.target = some target)
    (selectors : Option SelectorList) (binding : ListenerBinding) :
    let after := (react host event (.delegate selectors binding)).after world
    (IsAskedFor (host.liveDom world) target selectors →
        after = (act host binding event).after world) ∧
      (¬IsAskedFor (host.liveDom world) target selectors → after = world) := by
  intro after
  have opened : after = (if admits host world event selectors = true then
      act host binding event else pure ()).after world := rfl
  rw [← admits_iff sent, opened]
  constructor
  · intro admitted
    rw [if_pos admitted]
  · intro refused
    rw [if_neg refused]
    rfl

/-- The turns of listeners that stay what they are: in their order, each at most
once, and exactly if the event is of the type of the listener, gets to the node,
and finds the listener there until its turn. -/
theorem Tours.turns {host : Host σ} (orderly : host.Orderly) {event : DomEvent}
    {path : List NodeId} {start final : World σ} {stations : List (Station σ)}
    (tours : Tours host event path start stations final)
    (distinct : path.Nodup) (ordered : start.Ordered)
    (numbered : start.Numbered) {n : NodeId}
    {installed : List (Listener EventAction)}
    (sorted : installed.Pairwise fun one other => one.id.index < other.id.index)
    (keeps : ∀ later, Run start later → ∀ listener ∈ installed,
      later.Registered ⟨.node n, listener.id⟩ →
        listener ∈ (later.eventActionsOf n).entries) :
    ((turnsAt n installed stations).map (·.listener)).Sublist installed ∧
    ∀ listener ∈ installed,
      listener ∈ (turnsAt n installed stations).map (·.listener) ↔
        event.type = listener.event ∧ n ∈ path ∧
        (∀ station ∈ stations, station.node ∈ path.takeWhile (· ≠ n) →
          station.departure.isStopped event = false) ∧
        ∀ station ∈ stations, station.node = n →
          StaysUntilTurn n station.arrival station.calls listener.id := by
  have nodes := tours.nodes_prefix.sublist.nodup distinct
  have each (station : Station σ) (member : station ∈ stations)
      (here : station.node = n) : station.arrival.Numbered ∧
      (∀ listener ∈ installed,
        station.arrival.Registered ⟨.node n, listener.id⟩ →
          listener ∈ (station.arrival.eventActionsOf n).entries) ∧
      ∃ ahead, Calls host event n ahead station.arrival station.calls
        station.departure := by
    obtain ⟨run, ahead, calls⟩ := tours.each orderly ordered station member
    exact ⟨run.numbered ordered numbered, keeps _ run, ahead, here ▸ calls⟩
  constructor
  · rcases stations_at nodes with none | ⟨station, member, here, only⟩
    · rw [turnsAt, none]
      exact List.nil_sublist _
    · obtain ⟨numbered, stays, ahead, calls⟩ := each station member here
      rw [turnsAt, only, List.flatMap_singleton]
      refine sublist_of_numbered (List.pairwise_map.mpr ?_) sorted
        fun listener inside => ?_
      · obtain ⟨last, -, round⟩ := calls
        exact round.order.sublist List.filter_sublist
      · obtain ⟨call, turn, rfl⟩ := List.mem_map.mp inside
        obtain ⟨called, asked⟩ := List.mem_filter.mp turn
        obtain ⟨listener, own, same⟩ :=
          List.mem_map.mp (of_decide_eq_true asked)
        have there := calls.mem_entries called
        have registered :
            station.arrival.Registered ⟨.node n, listener.id⟩ :=
          List.mem_map.mpr ⟨call.listener, there, same.symm⟩
        have stayed := stays listener own registered
        rwa [← numbered.eq_of_id stayed there same]
  · intro listener own
    have turns : listener ∈ (turnsAt n installed stations).map (·.listener) ↔
        ∃ station ∈ stations, station.node = n ∧
          listener ∈ station.calls.map (·.listener) := by
      simp only [List.mem_map, mem_turnsAt]
      constructor
      · rintro ⟨call, ⟨station, member, here, called, -⟩, same⟩
        exact ⟨station, member, here, call, called, same⟩
      · rintro ⟨station, member, here, call, called, rfl⟩
        exact ⟨call, ⟨station, member, here, called, call.listener, own, rfl⟩,
          rfl⟩
    have called (station : Station σ) (member : station ∈ stations)
        (here : station.node = n) :
        listener ∈ station.calls.map (·.listener) ↔
          event.type = listener.event ∧
            StaysUntilTurn n station.arrival station.calls listener.id := by
      obtain ⟨-, stays, ahead, calls⟩ := each station member here
      exact calls.called_iff (stays listener own)
    -- No node is visited twice, so the turns at one belong to one station.
    rw [turns]
    constructor
    · rintro ⟨station, member, here, turn⟩
      obtain ⟨type, stays⟩ := (called station member here).mp turn
      have passed : n ∈ path :=
        here ▸ tours.nodes_prefix.subset (List.mem_map_of_mem member)
      refine ⟨type, passed, (tours.reaches_iff distinct passed).mp
        ⟨station, member, here⟩, fun other memberToo hereToo => ?_⟩
      have same : other = station := List.inj_on_of_nodup_map nodes memberToo
        member (hereToo.trans here.symm)
      rw [same]
      exact stays
    · rintro ⟨type, passed, unstopped, stays⟩
      obtain ⟨station, member, here⟩ :=
        (tours.reaches_iff distinct passed).mpr unstopped
      exact ⟨station, member, here, (called station member here).mpr
        ⟨type, stays station member here⟩⟩

/-- A call of a delegated listener runs the action of its binding if the target
is asked for at that moment, and does nothing otherwise. -/
theorem Tours.calls_delegate {host : Host σ} (orderly : host.Orderly)
    {event : DomEvent} {target : NodeId} (sent : event.target = some target)
    {path : List NodeId} {start final : World σ} {stations : List (Station σ)}
    (tours : Tours host event path start stations final)
    (ordered : start.Ordered) {n : NodeId}
    {keys : List (String × List ListenerBinding)}
    {installed : List (Listener EventAction)}
    (installs : Installs keys installed) {call : Call σ EventAction}
    (turn : call ∈ turnsAt n installed stations)
    (own : call.listener ∈ installed) :
    ∃ selectors binding, call.listener.action = .delegate selectors binding ∧
      (IsAskedFor (host.liveDom call.before) target selectors → call.after =
        (act host binding { event with current := some n }).after call.before) ∧
      (¬IsAskedFor (host.liveDom call.before) target selectors →
        call.after = call.before) := by
  obtain ⟨station, member, rfl, called, -⟩ := mem_turnsAt.mp turn
  obtain ⟨-, ahead, calls⟩ := tours.each orderly ordered station member
  obtain ⟨last, -, round⟩ := calls
  have heard : call.after = _ := round.does call called
  obtain ⟨selectors, binding, action⟩ := installs.delegates own
  rw [action] at heard
  rw [heard]
  have here : { event with current := some station.node }.target =
    some target := sent
  exact ⟨selectors, binding, action,
    after_react_delegate here selectors binding⟩

end NodeEvents

namespace Template

open NodeEvents

/-- A template that is rendered into an element or applied to one, in whatever
state, installs one listener for each binding under each key.  Whatever happens
afterwards, when an event is sent that has not been stopped, each of them takes
its turn at most once, in the order of the definition, and it does so exactly if
the event is of its type, goes through the element, is not stopped at a node
before it, and finds the listener there, when it arrives and until its turn.
It then runs its action, once, on the event with its target and the element,
unless it asks for a target that is not the one of the event at that moment. -/
theorem delegated_listeners_fire {host : Host σ} (orderly : host.Orderly)
    {client : σ} {t : TemplateId} {n : NodeId} {start between : World σ}
    (instates : Instates host t n start between)
    (element : (start.template t).blueprint.text = none)
    (reached : Run (World.initial client) between) :
    ∃ installed,
      (start.template t).blueprint.IsInstalled between n installed ∧
      (installed.map (·.id)).Nodup ∧
      ∀ world, Run between world → world.dom.IsForest →
      ∀ target event, world.isStopped event = false →
        let sent := { event with target := some target }
        ∃ above stations, (host.liveDom world).Ascends target above ∧
          let path := target :: if event.bubbles then above else []
          let turns := turnsAt n installed stations
          Tours host sent path world stations
            ((dispatch host target event).after world) ∧
          (turns.map (·.listener)).Sublist installed ∧
          (∀ listener ∈ installed, listener ∈ turns.map (·.listener) ↔
            event.type = listener.event ∧ n ∈ path ∧
            (∀ station ∈ stations, station.node ∈ path.takeWhile (· ≠ n) →
              station.departure.isStopped event = false) ∧
            ∀ station ∈ stations, station.node = n →
              StaysUntilTurn n station.arrival station.calls listener.id) ∧
          ∀ call ∈ turns, ∃ selectors binding,
            call.listener.action = .delegate selectors binding ∧
            (IsAskedFor (host.liveDom call.before) target selectors →
              call.after = (act host binding
                { sent with current := some n }).after call.before) ∧
            (¬IsAskedFor (host.liveDom call.before) target selectors →
              call.after = call.before) := by
  obtain ⟨installed, there⟩ := instates.installed element
  have ordered := (reached.progress (World.ordered_initial client)).1
  have numbered := reached.numbered (World.ordered_initial client)
    (World.numbered_initial client)
  have sorted : installed.Pairwise
      fun one other => one.id.index < other.id.index := by
    have all := List.pairwise_map.mp (numbered (.node n))
    exact all.sublist there.last.sublist
  refine ⟨installed, there,
    List.pairwise_map.mpr (sorted.imp fun less same => ?_),
    fun world run forest target event clear => ?_⟩
  · rw [same] at less
    exact Nat.lt_irrefl _ less
  intro sent
  obtain ⟨-, above, visits, ascends, distinct, journey⟩ := dispatch_delivers
    orderly (reached.trans run) forest target event clear
  obtain ⟨stations, tours⟩ := journey.tours
  have once : (target :: if event.bubbles then above else []).Nodup := by
    cases event.bubbles with
    | true => exact distinct
    | false => exact List.nodup_singleton _
  have orderedThere := (run.progress ordered).1
  obtain ⟨order, turns⟩ := tours.turns orderly once orderedThere
    (run.numbered ordered numbered) sorted
    fun later after listener own => (run.trans after).keepsActions ordered n
      listener (there.last.subset own)
  exact ⟨above, stations, ascends, tours, order, turns, fun call turn =>
    tours.calls_delegate orderly rfl orderedThere there.installs turn
      (order.subset (List.mem_map_of_mem turn))⟩

namespace Captioned

/-- Handlers that ran, with the target and the node of the event. -/
abbrev Log := List (Nat × Option NodeId × Option NodeId)

def log (handler : Handler) (event : DomEvent) : Act Log Unit :=
  modify fun world =>
    { world with client :=
        world.client ++ [(handler.index, event.target, event.current)] }

/-- A client that writes down which events its handlers get. -/
def host : Host Log where
  keeps _ := [.node ⟨0⟩]
  notice handler notice := do
    if let .event event := notice.payload then
      log handler event
  event := log
  transform _ value _ := pure value
  destroy _ := pure ()

theorem runs_log (handler : Handler) (event : DomEvent) :
    (log handler event).Runs := by
  exact .aside (fun _ => rfl) (fun _ => rfl) (fun _ => rfl)
    fun _ => .of_templates rfl

theorem orderly : host.Orderly where
  notice handler notice := by
    obtain ⟨name, payload⟩ := notice
    cases payload with
    | event event => exact runs_log handler event
    | change => exact .pure ()
    | text => exact .pure ()
  event := runs_log
  transform _ value _ := .pure value
  destroy _ := .pure ()

def fixture : Fixture :=
  .element "div" [] [.element "p" [] []]

def call (index : Nat) : ListenerBinding :=
  ⟨⟨0⟩, ⟨0⟩, .call ⟨index⟩⟩

/-- A division that listens for clicks on emphasis, for clicks on paragraphs,
and twice for clicks, once to pass it on. -/
def blueprint : Blueprint :=
  ⟨some "div", none, none, [], [("click@em", [call 0]), ("click@p", [call 1]),
    ("click", [⟨⟨0⟩, ⟨0⟩, .emit "pressed"⟩, call 2])], [.template ⟨0⟩]⟩

def prepared : World Log :=
  { World.initial [] with
    dom := (fixture.mount .empty).2
    properties := ⟨#[[]]⟩
    emitters := ⟨#[⟨[], []⟩]⟩
    templates := ⟨#[⟨.ofTag "p", false, none⟩, ⟨blueprint, false, none⟩]⟩ }

/-- Somebody waits for what is passed on. -/
def start : World Log :=
  (Observable.subscribe ⟨0⟩ "pressed" (.call ⟨3⟩)).after prepared

def applied : World Log := (apply host ⟨1⟩ ⟨0⟩).after start

theorem reached : Run (World.initial []) applied := by
  have begun : Run (World.initial []) prepared := by
    refine .aside rfl rfl rfl ⟨?_, ?_⟩
    · rintro ⟨index⟩ entry kept
      rcases index with _ | _ | index <;> cases kept
    · rintro _ ⟨index⟩
      rcases index with _ | _ | index
      · exact ⟨.nil, fun _ member => absurd member List.not_mem_nil⟩
      · refine ⟨.nil, fun t member => ?_⟩
        cases List.mem_singleton.mp member
        decide
      · exact .none _
  have waits := begun.trans (.subscribe prepared ⟨0⟩ "pressed" (.call ⟨3⟩))
  exact waits.trans ((Template.runs_apply orderly ⟨1⟩ ⟨0⟩).run
    (waits.progress (World.ordered_initial [])).1)

theorem forest : applied.dom.IsForest := by
  have mounted := (Fixture.grown_mount Dom.isForest_empty fixture).forest
  have same : applied.dom.nodes.rows = (fixture.mount .empty).2.nodes.rows := by
    decide +kernel
  generalize applied.dom = dom, (fixture.mount .empty).2 = other at *
  obtain ⟨⟨rows⟩⟩ := dom
  obtain ⟨⟨others⟩⟩ := other
  cases same
  exact mounted

theorem instates : Instates host ⟨1⟩ ⟨0⟩ start applied := by
  exact .apply (by decide +kernel)

def click : DomEvent := ⟨"click", true, none, none, ⟨0⟩⟩

/-- The handler for paragraphs runs, then the one that waits for what is passed
on, and then the last one, each of them once. -/
theorem click_on_caption_fires :
    (∃ installed above stations,
      blueprint.IsInstalled applied ⟨0⟩ installed ∧
      (host.liveDom applied).Ascends ⟨1⟩ above ∧
      Tours host { click with target := some ⟨1⟩ } (⟨1⟩ :: above) applied
        stations ((dispatch host ⟨1⟩ click).after applied) ∧
      ((turnsAt ⟨0⟩ installed stations).map (·.listener)).Sublist installed) ∧
    ((dispatch host ⟨1⟩ click).after applied).client =
      [(1, some ⟨1⟩, some ⟨0⟩), (3, some ⟨1⟩, some ⟨0⟩),
        (2, some ⟨1⟩, some ⟨0⟩)] := by
  have clear : applied.isStopped click = false := by decide +kernel
  obtain ⟨installed, there, -, fires⟩ :=
    delegated_listeners_fire orderly instates rfl reached
  obtain ⟨above, stations, ascends, tours, order, -⟩ :=
    fires applied (.refl _) forest ⟨1⟩ click clear
  exact ⟨⟨installed, above, stations, there, ascends, tours, order⟩,
    by decide +kernel⟩

end Captioned

end Template

end LiveTemplate
