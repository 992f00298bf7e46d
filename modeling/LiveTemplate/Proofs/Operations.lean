import LiveTemplate.Proofs.Passes
import LiveTemplate.Proofs.Records
import LiveTemplate.View

/-!
# The operations of the library are runs

Every operation of the library is a run when the handlers of the client are,
in particular when these only call the library.

A pass also has to account for its listeners.  `Pass.Tracked` says that each
listener that is new after the pass either can be given up by a revoker of the
record or was added by the code of the client.
-/

namespace LiveTemplate

variable {σ α β : Type}

/-- A run on which no listeners are added but foreign ones. -/
structure Reaches (foreign : Subscription → Prop) (world later : World σ) :
    Prop where
  run : Run world later
  counted : ∀ subscription, later.Registered subscription →
    world.Registered subscription ∨ foreign subscription

namespace Reaches

variable {foreign : Subscription → Prop}

theorem refl (world : World σ) : Reaches foreign world world := by
  refine ⟨.refl world, ?_⟩
  intro _ present
  exact .inl present

theorem trans {first second third : World σ}
    (early : Reaches foreign first second)
    (late : Reaches foreign second third) : Reaches foreign first third where
  run := early.run.trans late.run
  counted subscription present := by
    rcases late.counted subscription present with between | added
    · exact early.counted subscription between
    · exact .inr added

theorem aside {world later : World σ}
    (reactions : later.reactions = world.reactions)
    (eventActions : later.eventActions = world.eventActions)
    (revokers : later.revokers = world.revokers)
    (templates : world.KeepsTemplates later) :
    Reaches foreign world later where
  run := .aside reactions eventActions revokers templates
  counted subscription present := by
    left
    rwa [World.Registered, World.idsAt_congr reactions eventActions] at present

theorem holding (world : World σ) (frames : List Frame) :
    Reaches foreign world (world.holding frames) := by
  exact .aside rfl rfl rfl (.of_templates rfl)

theorem revoke (world : World σ) (r : RevokerId) :
    Reaches foreign world ((Revoker.revoke r).after world) where
  run := .revoke world r
  counted subscription present :=
    .inl ((Revoker.registered_revoke r world subscription).mp present).1

/-- Any run, when no listener counts as foreign. -/
theorem of_run {world later : World σ} (run : Run world later) :
    Reaches (fun _ => True) world later := by
  exact ⟨run, fun _ _ => .inr trivial⟩

end Reaches

/-- Started in a world in order, the computation is a run that adds foreign
listeners only. -/
def Act.RunsWithin (foreign : Subscription → Prop) (action : Act σ α) : Prop :=
  ∀ world, world.Ordered → Reaches foreign world (action.after world)

/-- Started in a world in order, the computation is a run. -/
abbrev Act.Runs (action : Act σ α) : Prop :=
  action.RunsWithin fun _ => True

theorem Act.Runs.run {action : Act σ α} (runs : action.Runs) {world : World σ}
    (ordered : world.Ordered) : Run world (action.after world) :=
  (runs world ordered).run

/-- The handlers of a client are runs. -/
structure Host.Orderly (host : Host σ) : Prop where
  notice : ∀ handler notice, (host.notice handler notice).Runs
  event : ∀ handler event, (host.event handler event).Runs
  transform : ∀ handler value node, (host.transform handler value node).Runs
  destroy : ∀ handler, (host.destroy handler).Runs

namespace Act.RunsWithin

variable {foreign : Subscription → Prop}

theorem pure (a : α) : (Pure.pure a : Act σ α).RunsWithin foreign := by
  intro world _
  exact .refl world

theorem bind {action : Act σ α} {next : α → Act σ β}
    (first : action.RunsWithin foreign)
    (later : ∀ a, (next a).RunsWithin foreign) :
    (action >>= next).RunsWithin foreign := by
  intro world ordered
  rw [Act.after_bind]
  have reached := first world ordered
  exact reached.trans (later _ _ (reached.run.progress ordered).1)

theorem bind_of (post : α → Prop) {action : Act σ α} {next : α → Act σ β}
    (first : action.RunsWithin foreign)
    (returns : ∀ world : World σ, world.Ordered → post (action.result world))
    (later : ∀ a, post a → (next a).RunsWithin foreign) :
    (action >>= next).RunsWithin foreign := by
  intro world ordered
  rw [Act.after_bind]
  have reached := first world ordered
  exact reached.trans (later _ (returns world ordered) _
    (reached.run.progress ordered).1)

theorem get : (MonadState.get : Act σ (World σ)).RunsWithin foreign := by
  intro world _
  exact .refl world

/-- Computations that leave listeners and revokers alone. -/
theorem aside {action : Act σ α}
    (reactions : ∀ world, (action.after world).reactions = world.reactions)
    (eventActions : ∀ world,
      (action.after world).eventActions = world.eventActions)
    (revokers : ∀ world, (action.after world).revokers = world.revokers)
    (templates : ∀ world : World σ,
      world.KeepsTemplates (action.after world)) :
    action.RunsWithin foreign := by
  intro world _
  exact .aside (reactions world) (eventActions world) (revokers world)
    (templates world)

theorem keeping {frame : Frame} {action : Act σ α}
    (runs : action.RunsWithin foreign) :
    (LiveTemplate.keeping frame action).RunsWithin foreign := by
  intro world ordered
  rw [after_keeping]
  have entered : Reaches foreign world
      (world.holding (frame :: world.frames)) := .holding world _
  exact entered.trans ((runs _ (entered.run.progress ordered).1).trans
    (.holding _ _))

theorem ite {condition : Prop} [Decidable condition] {first second : Act σ α}
    (yes : condition → first.RunsWithin foreign)
    (no : ¬condition → second.RunsWithin foreign) :
    (if condition then first else second).RunsWithin foreign := by
  split
  · exact yes ‹_›
  · exact no ‹_›

theorem forM {items : List α} {body : α → Act σ Unit}
    (runs : ∀ item, (body item).RunsWithin foreign) :
    (items.forM body).RunsWithin foreign := by
  induction items with
  | nil => exact pure ()
  | cons item rest ih => exact bind (runs item) fun _ => ih

theorem keepingEach {ref : α → Ref} {items : List α}
    {action : α → Act σ Unit} (runs : ∀ item, (action item).RunsWithin foreign) :
    (LiveTemplate.keepingEach ref action items).RunsWithin foreign := by
  induction items with
  | nil => exact pure ()
  | cons item rest ih => exact bind (keeping (runs item)) fun _ => ih

theorem mapM {items : List α} {body : α → Act σ β}
    (runs : ∀ item, (body item).RunsWithin foreign) :
    (items.mapM body).RunsWithin foreign := by
  induction items with
  | nil => exact pure []
  | cons item rest ih =>
      rw [List.mapM_cons]
      exact bind (runs item) fun _ => bind ih fun _ => pure _

theorem modifyDom (change : Dom → Dom) :
    (LiveTemplate.modifyDom change : Act σ Unit).RunsWithin foreign := by
  exact .aside (fun _ => rfl) (fun _ => rfl) (fun _ => rfl)
    fun _ => .of_templates rfl

theorem createNode (kind : NodeKind) :
    (LiveTemplate.createNode kind : Act σ NodeId).RunsWithin foreign := by
  exact .aside (fun _ => rfl) (fun _ => rfl) (fun _ => rfl)
    fun _ => .of_templates rfl

end Act.RunsWithin

/-- The transforms of a client are runs that add foreign listeners only. -/
def Host.TransformsWithin (host : Host σ) (foreign : Subscription → Prop) :
    Prop :=
  ∀ handler value node, (host.transform handler value node).RunsWithin foreign

section Values

variable {host : Host σ} {foreign : Subscription → Prop}

theorem Binding.runs_evaluate (transforms : host.TransformsWithin foreign)
    (node : NodeId) (binding : Binding) :
    (binding.evaluate host node).RunsWithin foreign := by
  unfold Binding.evaluate
  cases binding.transform with
  | none => exact .bind .get fun _ => .bind (.pure _) fun _ => .pure _
  | some handler =>
      exact .bind .get fun _ =>
        .bind (transforms handler _ node) fun _ => .pure _

mutual

theorem Chunk.runs_evaluate (transforms : host.TransformsWithin foreign)
    (node : NodeId) (chunk : Chunk) :
    (chunk.evaluate host node).RunsWithin foreign := by
  cases chunk with
  | fixed value =>
      rw [Chunk.evaluate]
      exact .pure _
  | bound binding =>
      rw [Chunk.evaluate]
      exact binding.runs_evaluate transforms node
  | namespaced namespaceName chunks =>
      rw [Chunk.evaluate]
      cases loneChoice? chunks with
      | none => exact runs_joinChunks transforms node chunks _
      | some binding => exact binding.runs_evaluate transforms node
  | styles properties =>
      rw [Chunk.evaluate]
      exact .pure _

theorem runs_joinChunks (transforms : host.TransformsWithin foreign)
    (node : NodeId) (chunks : List Chunk) (value : Value) :
    (joinChunks host node chunks value).RunsWithin foreign := by
  cases chunks with
  | nil =>
      rw [joinChunks]
      exact .pure _
  | cons chunk chunks =>
      rw [joinChunks]
      exact .bind (Chunk.runs_evaluate transforms node chunk) fun _ =>
        runs_joinChunks transforms node chunks _

end

theorem runs_evaluate (transforms : host.TransformsWithin foreign)
    (node : NodeId) (chunks : List Chunk) :
    (evaluate host node chunks).RunsWithin foreign := by
  unfold evaluate
  cases loneChoice? chunks with
  | none => exact runs_joinChunks transforms node chunks _
  | some binding => exact binding.runs_evaluate transforms node

theorem SyncGroup.runs_sync (transforms : host.TransformsWithin foreign)
    (group : SyncGroup) :
    (group.sync host).RunsWithin foreign := by
  exact .bind (runs_evaluate transforms _ _) fun _ => .modifyDom _

end Values

section Orderly

variable {host : Host σ}

namespace Observable

theorem runs_react (orderly : host.Orderly) (notice : Notice)
    (reaction : Reaction) : (react host notice reaction).Runs := by
  cases reaction with
  | sync group => exact group.runs_sync orderly.transform
  | call handler => exact orderly.notice handler notice

private theorem runs_notifyEach (orderly : host.Orderly) (o : ObservableId)
    (notice : Notice) (waiting : List (Listener Reaction)) :
    (notifyEach host o notice waiting).Runs := by
  induction waiting with
  | nil => exact .pure ()
  | cons listener rest ih =>
      rw [notifyEach]
      refine .bind .get fun world => ?_
      split
      · exact .bind (.keeping (runs_react orderly notice _)) fun _ => ih
      · exact ih

theorem runs_fire (orderly : host.Orderly) (o : ObservableId) (name : String)
    (payload : Payload) : (fire host o name payload).Runs := by
  exact .bind .get fun _ => runs_notifyEach orderly o _ _

theorem runs_set (orderly : host.Orderly) (o : ObservableId) (name : String)
    (value : Value) : (set host o name value).Runs := by
  have stored : (store o name value : Act σ Unit).Runs :=
    .aside (fun _ => rfl) (fun _ => rfl) (fun _ => rfl)
    fun _ => .of_templates rfl
  refine .bind .get fun world => .bind stored fun _ => ?_
  exact .ite (fun _ => runs_fire orderly o _ _) fun _ => .pure ()

end Observable

namespace NodeEvents

theorem runs_react (orderly : host.Orderly) (event : DomEvent)
    (action : EventAction) : (react host event action).Runs := by
  cases action with
  | call handler => exact orderly.event handler event
  | delegate selectors binding =>
      refine .bind .get fun world => .ite (fun _ => ?_) fun _ => .pure ()
      cases binding.action with
      | emit name => exact Observable.runs_fire orderly _ _ _
      | call handler => exact orderly.event handler event

theorem runs_runEach (orderly : host.Orderly) (n : NodeId) (event : DomEvent)
    (waiting : List (Listener EventAction)) :
    (runEach host n event waiting).Runs := by
  induction waiting with
  | nil => exact .pure ()
  | cons listener rest ih =>
      rw [runEach]
      refine .bind .get fun world => ?_
      split
      · exact .bind (runs_react orderly event _) fun _ => ih
      · exact ih

theorem runs_travel (orderly : host.Orderly) (event : DomEvent)
    (path : List NodeId) : (travel host event path).Runs := by
  induction path with
  | nil => exact .pure ()
  | cons n rest ih =>
      rw [travel]
      refine .bind .get fun world => .ite (fun _ => ih) fun _ => ?_
      refine .bind (.keeping (runs_runEach orderly n _ _)) fun _ => ?_
      exact .bind .get fun later => .ite (fun _ => ih) fun _ => .pure ()

theorem runs_dispatch (orderly : host.Orderly) (target : NodeId)
    (event : DomEvent) : (dispatch host target event).Runs := by
  exact .bind .get fun _ => .bind (runs_travel orderly _ _) fun _ => .pure _

end NodeEvents

namespace Emitter

theorem runs_update (e : EmitterId) (change : Emitter → Emitter) :
    (update e change : Act σ Unit).Runs := by
  exact .aside (fun _ => rfl) (fun _ => rfl) (fun _ => rfl)
    fun _ => .of_templates rfl

private theorem runs_stopListening (e : EmitterId) :
    (stopListening e : Act σ Unit).Runs := by
  refine .bind .get fun _ => ?_
  exact .bind (runs_update e _) fun _ => .forM fun r world _ => .revoke world r

theorem runs_destroy (orderly : host.Orderly) (e : EmitterId) :
    (destroy host e).Runs := by
  refine .bind .get fun _ => ?_
  refine .bind (runs_update e _) fun _ => ?_
  exact .bind (.keeping (.forM orderly.destroy)) fun _ => runs_stopListening e

end Emitter

namespace Record

theorem runs_revokeOwn (bindings : List (List RevokerId)) :
    (bindings.forM fun group =>
      group.forM Revoker.revoke : Act σ Unit).Runs := by
  exact .forM fun _ => .forM fun r world _ => .revoke world r

mutual

theorem runs_revokeAll (record : Record) :
    (revokeAll record : Act σ Unit).Runs := by
  obtain ⟨text, attributes, bindings, children⟩ := record
  rw [revokeAll]
  exact .bind (runs_revokeOwn bindings) fun _ => runs_revokeEach children

theorem runs_revokeEach (records : List Record) :
    (revokeEach records : Act σ Unit).Runs := by
  cases records with
  | nil =>
      rw [revokeEach]
      exact .pure ()
  | cons record rest =>
      rw [revokeEach]
      exact .bind (runs_revokeAll record) fun _ => runs_revokeEach rest

end

mutual

theorem runs_restore (n : NodeId) (record : Record) :
    (restore n record : Act σ Unit).Runs := by
  obtain ⟨text, attributes, bindings, children⟩ := record
  cases text with
  | some data =>
      rw [restore]
      exact .bind (runs_revokeOwn bindings) fun _ => .modifyDom _
  | none =>
      rw [restore]
      exact .bind (runs_revokeOwn bindings) fun _ =>
        .bind (.forM fun _ => .modifyDom _) fun _ =>
          runs_restoreEach n 0 children

theorem runs_restoreEach (n : NodeId) (index : Nat) (records : List Record) :
    (restoreEach n index records : Act σ Unit).Runs := by
  cases records with
  | nil =>
      rw [restoreEach]
      exact .pure ()
  | cons record rest =>
      rw [restoreEach]
      refine .bind .get fun world => ?_
      cases (world.dom.children n)[index]? with
      | some child =>
          exact .bind (runs_restore child record) fun _ =>
            runs_restoreEach n (index + 1) rest
      | none =>
          exact .bind (runs_revokeAll record) fun _ =>
            runs_restoreEach n (index + 1) rest

end

end Record

end Orderly

end LiveTemplate
