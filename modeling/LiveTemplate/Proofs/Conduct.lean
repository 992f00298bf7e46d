import LiveTemplate.Proofs.Passes
import LiveTemplate.Proofs.Subscriptions

/-!
# What a pass may do at one node

Values, slots, attributes and listeners are rendered by reading, by writing to
one node, by listening and by calling transforms.  A relation that bears all
this bounds what a pass does at a node, whatever else the relation says.

`Pass.Ends` is the rule book for what the relation does not say: what holds
when a pass succeeds, and what when it fails.
-/

namespace LiveTemplate

variable {σ α β : Type}

/-- Started in any world, the computation stays within the relation. -/
def Act.Within (relation : World σ → World σ → Prop) (action : Act σ α) :
    Prop :=
  ∀ world, relation world (action.after world)

/-- A relation that computations can be composed within. -/
structure Steady (relation : World σ → World σ → Prop) : Prop where
  refl : ∀ world, relation world world
  trans : ∀ {first second third}, relation first second →
    relation second third → relation first third
  /-- What is held meanwhile makes no difference. -/
  release : ∀ (frame : Frame) {world later : World σ},
    relation (world.holding (frame :: world.frames)) later →
      relation world (later.holding world.frames)

namespace Steady

variable {relation : World σ → World σ → Prop} (steady : Steady relation)

include steady

theorem pure (a : α) : (Pure.pure a : Act σ α).Within relation := by
  intro world
  exact steady.refl world

theorem get : (MonadState.get : Act σ (World σ)).Within relation := by
  intro world
  exact steady.refl world

theorem bind {action : Act σ α} {next : α → Act σ β}
    (first : action.Within relation) (later : ∀ a, (next a).Within relation) :
    (action >>= next).Within relation := by
  intro world
  rw [Act.after_bind]
  exact steady.trans (first world) (later _ _)

theorem keeping {frame : Frame} {action : Act σ α}
    (within : action.Within relation) :
    (LiveTemplate.keeping frame action).Within relation := by
  intro world
  rw [after_keeping]
  exact steady.release frame (within _)

theorem mapM {items : List α} {body : α → Act σ β}
    (within : ∀ item, (body item).Within relation) :
    (items.mapM body).Within relation := by
  exact Act.after_mapM steady.refl steady.trans fun item _ => within item

theorem forM {items : List α} {body : α → Act σ Unit}
    (within : ∀ item, (body item).Within relation) :
    (items.forM body).Within relation := by
  exact Act.after_forM steady.refl steady.trans fun item _ => within item

theorem keepingEach {ref : α → Ref} {items : List α} {action : α → Act σ Unit}
    (within : ∀ item, (action item).Within relation) :
    (LiveTemplate.keepingEach ref action items).Within relation := by
  induction items with
  | nil => exact steady.pure ()
  | cons item rest ih =>
      exact steady.bind (steady.keeping (within item)) fun _ => ih

end Steady

/-- A relation between worlds, whatever is on record. -/
def Pass.OnWorlds (relation : World σ → World σ → Prop)
    (before after : Record × World σ) : Prop :=
  relation before.2 after.2

/-- Whatever the outcome of the pass, the world stays within the relation. -/
def Pass.Within (relation : World σ → World σ → Prop) (pass : Pass σ α) :
    Prop :=
  pass.Keeps (Pass.OnWorlds relation)

namespace Steady

variable {relation : World σ → World σ → Prop} (steady : Steady relation)

include steady

theorem onWorlds_refl (start : Record × World σ) :
    Pass.OnWorlds relation start start :=
  steady.refl start.2

theorem onWorlds_trans {first second third : Record × World σ}
    (early : Pass.OnWorlds relation first second)
    (late : Pass.OnWorlds relation second third) :
    Pass.OnWorlds relation first third :=
  steady.trans early late

theorem passPure (a : α) : (Pure.pure a : Pass σ α).Within relation :=
  Pass.Keeps.pure steady.onWorlds_refl a

theorem passThrow (error : TemplateError) :
    (throw error : Pass σ α).Within relation :=
  Pass.Keeps.throw steady.onWorlds_refl error

theorem passOfExcept (outcome : Except TemplateError α) :
    (Pass.ofExcept outcome : Pass σ α).Within relation :=
  Pass.Keeps.ofExcept steady.onWorlds_refl outcome

omit steady in
theorem passAct {action : Act σ α} (within : action.Within relation) :
    (Pass.act action).Within relation := by
  exact Pass.Keeps.act fun _ world => within world

theorem passNote (change : Record → Record) :
    (Pass.note change : Pass σ Unit).Within relation := by
  exact Pass.Keeps.note fun _ world => steady.refl world

theorem passBind {pass : Pass σ α} {next : α → Pass σ β}
    (first : pass.Within relation) (later : ∀ a, (next a).Within relation) :
    (pass >>= next).Within relation := by
  exact Pass.Keeps.bind steady.onWorlds_refl steady.onWorlds_trans first later

theorem passGet {next : World σ → Pass σ α}
    (later : ∀ world, (next world).Within relation) :
    (Pass.act MonadState.get >>= next).Within relation :=
  steady.passBind (passAct steady.get) later

theorem passKeeping {refs : List Ref} {pass : Pass σ α}
    (within : pass.Within relation) :
    (Pass.keeping refs pass).Within relation := by
  intro record world
  rw [Pass.start_keeping, after_keeping]
  exact steady.release (.refs refs) (within record _)

theorem passForM {items : List α} {body : α → Pass σ Unit}
    (within : ∀ item, (body item).Within relation) :
    (items.forM body).Within relation := by
  exact Pass.Keeps.forM steady.onWorlds_refl steady.onWorlds_trans
    fun item _ => within item

end Steady

/-- The relation bears what is done to render at one node; `writable` says
which nodes a text may be written to. -/
structure Host.Bounds (host : Host σ) (writable : World σ → NodeId → Prop)
    (relation : World σ → World σ → Prop) : Prop
    extends Steady relation where
  transform : ∀ handler value node,
    (host.transform handler value node).Within relation
  observable : ∀ e o event reaction,
    (Emitter.listenToObservable e o event reaction).Within relation
  node : ∀ e n type action,
    (Emitter.listenToNode e n type action).Within relation
  attributes : ∀ n change,
    (modifyDom fun dom => dom.modifyAttributes n change).Within relation
  text : ∀ n data world, writable world n →
    relation world ((modifyDom fun dom => dom.setText n data).after world)
  /-- A text may still be written later on. -/
  stays : ∀ {world later : World σ} {n : NodeId}, relation world later →
    writable world n → writable later n

namespace Host.Bounds

variable {host : Host σ} {writable : World σ → NodeId → Prop}
  {relation : World σ → World σ → Prop}
  (bounds : host.Bounds writable relation)

include bounds

theorem binding (node : NodeId) (binding : Binding) :
    (binding.evaluate host node).Within relation := by
  have steady := bounds.toSteady
  unfold Binding.evaluate
  cases binding.transform with
  | none =>
      exact steady.bind steady.get fun _ =>
        steady.bind (steady.pure _) fun _ => steady.pure _
  | some handler =>
      exact steady.bind steady.get fun _ =>
        steady.bind (bounds.transform handler _ node) fun _ => steady.pure _

mutual

theorem chunk (node : NodeId) (chunk : Chunk) :
    (chunk.evaluate host node).Within relation := by
  cases chunk with
  | fixed value =>
      rw [Chunk.evaluate]
      exact bounds.toSteady.pure value
  | bound binding =>
      rw [Chunk.evaluate]
      exact bounds.binding node binding
  | namespaced namespaceName chunks =>
      rw [Chunk.evaluate]
      cases loneChoice? chunks with
      | none => exact joinChunks node chunks _
      | some binding => exact bounds.binding node binding
  | styles properties =>
      rw [Chunk.evaluate]
      exact bounds.toSteady.pure _

theorem joinChunks (node : NodeId) (chunks : List Chunk) (value : Value) :
    (LiveTemplate.joinChunks host node chunks value).Within relation := by
  cases chunks with
  | nil =>
      rw [LiveTemplate.joinChunks]
      exact bounds.toSteady.pure value
  | cons first rest =>
      rw [LiveTemplate.joinChunks]
      exact bounds.toSteady.bind (chunk node first) fun _ =>
        joinChunks node rest _

end

theorem evaluate (node : NodeId) (chunks : List Chunk) :
    (LiveTemplate.evaluate host node chunks).Within relation := by
  unfold LiveTemplate.evaluate
  cases loneChoice? chunks with
  | none => exact bounds.joinChunks node chunks _
  | some binding => exact bounds.binding node binding

/-- A slot that is an attribute or a style is written by changing attributes. -/
theorem display (slot : Slot) (value : Value) (world : World σ)
    (fits : ∀ n, slot = .text n → writable world n) :
    relation world
      ((modifyDom fun dom => slot.display dom value).after world) := by
  have attributes (n : NodeId) (change : List Attribute → List Attribute) :
      relation world
        { world with dom := world.dom.modifyAttributes n change } :=
    bounds.attributes n change world
  cases slot with
  | text n =>
      have writes (data : String) := bounds.text n data world (fits n rfl)
      simp only [Act.after_modifyDom] at writes
      simp only [Act.after_modifyDom, Slot.display, Slot.clear, Slot.set]
      split <;> exact writes _
  | attr n namespaceName name =>
      simp only [Act.after_modifyDom, Slot.display, Slot.clear, Slot.set]
      split <;> exact attributes n _
  | style n property =>
      simp only [Act.after_modifyDom, Slot.display, Slot.clear, Slot.set]
      split
      · unfold Dom.removeStyleProperty
        split
        · exact bounds.refl world
        · dsimp only
          split
          · split <;> exact attributes n _
          · exact bounds.refl world
      · exact attributes n _

theorem sync (group : SyncGroup) (world : World σ)
    (fits : ∀ n, group.slot = .text n → writable world n) :
    relation world ((group.sync host).after world) := by
  have read := bounds.evaluate group.slot.node group.chunks world
  exact bounds.trans read (bounds.display group.slot _ _ fun n same =>
    bounds.stays read (fits n same))

theorem bind (group : SyncGroup) (world : World σ)
    (fits : ∀ n, group.slot = .text n → writable world n) :
    relation world ((group.bind host).after world) := by
  exact bounds.trans (bounds.sync group world fits)
    (bounds.toSteady.mapM (fun _ => bounds.observable _ _ _ _) _)

private theorem noteBind (group : SyncGroup)
    (fits : ∀ world n, group.slot = .text n → writable world n) :
    Pass.Within relation (do
      Pass.noteGroup (← Pass.act (SyncGroup.bind host group))) := by
  exact Pass.Keeps.act_note fun _ world => bounds.bind group world (fits world)

theorem renderSlot (slot : Slot) (chunks : List Chunk)
    (element : ∀ n, slot ≠ .text n) :
    (Blueprint.renderSlot host slot chunks).Within relation := by
  have steady := bounds.toSteady
  unfold Blueprint.renderSlot
  split
  · exact bounds.noteBind _ fun _ n same => absurd same (element n)
  · refine steady.passBind (Steady.passAct (bounds.evaluate _ _)) fun value => ?_
    split
    · rename_i truthy
      refine Steady.passAct fun world => ?_
      have shown := bounds.display slot value world fun n same =>
        absurd same (element n)
      have falsy : value.isFalsy = false := by
        simpa [Value.isTruthy] using truthy
      simpa [Slot.display, falsy] using shown
    · exact steady.passPure ()

theorem renderStyles (node : NodeId) (styles : StyleMap) :
    (Blueprint.renderStyles host node styles).Within relation := by
  exact bounds.toSteady.passForM fun _ => bounds.renderSlot _ _ fun _ same => by
    cases same

theorem renderAttribute (node : NodeId) (applying : Bool) (name : String)
    (schema : Schema) :
    (Blueprint.renderAttribute host node applying name schema).Within
      relation := by
  have steady := bounds.toSteady
  have slot (chunks : List Chunk) :=
    bounds.renderSlot (.attr node schema.namespace? name) chunks
      fun _ same => by cases same
  cases applying with
  | true =>
      exact steady.passGet fun _ =>
        steady.passBind (steady.passNote _) fun _ => slot _
  | false => exact steady.passGet fun _ => slot _

theorem renderEntry (blueprint : Blueprint) (node : NodeId) (applying : Bool)
    (name : String) (schema : Schema) :
    (blueprint.renderEntry host node applying name schema).Within
      relation := by
  have steady := bounds.toSteady
  unfold Blueprint.renderEntry
  split
  · exact steady.passThrow _
  · rename_i styles _
    cases applying with
    | true =>
        exact steady.passGet fun _ => steady.passBind (steady.passNote _)
          fun _ => bounds.renderStyles node styles
    | false => exact bounds.renderStyles node styles
  · exact bounds.renderAttribute node applying name schema

theorem renderAttributes (blueprint : Blueprint) (node : NodeId)
    (applying : Bool) :
    (blueprint.renderAttributes host node applying).Within relation := by
  refine bounds.toSteady.passForM fun (name, schema) => ?_
  exact bounds.renderEntry blueprint node applying name schema

theorem renderListeners (blueprint : Blueprint) (node : NodeId) :
    (blueprint.renderListeners node : Pass σ Unit).Within relation := by
  have steady := bounds.toSteady
  refine steady.passForM fun (key, bindings) =>
    steady.passBind (steady.passOfExcept _) fun parsed => ?_
  exact Pass.Keeps.act_note fun _ world =>
    steady.mapM (fun _ => bounds.node _ _ _ _) world

theorem showText (node : NodeId) (chunks : List Chunk) (record : Record)
    (world : World σ)
    (fits : writable (world.holding (.refs [.node node] :: world.frames)) node) :
    ∃ inner,
      relation (world.holding (.refs [.node node] :: world.frames)) inner ∧
      ((Blueprint.showText host node chunks).start record).after world =
        inner.holding world.frames ∧
      (((Blueprint.showText host node chunks).start record).result world).1 =
        .ok node := by
  have steady := bounds.toSteady
  unfold Blueprint.showText
  split
  · exact ⟨_, bounds.bind ⟨chunks, .text node⟩ _ fun _ same => by
      cases same
      exact fits, rfl, rfl⟩
  · have read : relation _ ((Blueprint.plainText host node chunks).after
        (world.holding (.refs [.node node] :: world.frames))) :=
      steady.bind (steady.mapM fun chunk => bounds.chunk node chunk)
        (fun _ => steady.pure _) _
    exact ⟨_, bounds.trans read (bounds.text node _ _
      (bounds.stays read fits)), rfl, rfl⟩

end Host.Bounds

/-- A client whose code only computes. -/
def Host.quiet : Host σ where
  keeps _ := []
  notice _ _ := pure ()
  event _ _ := pure ()
  transform _ value _ := pure value
  destroy _ := pure ()

theorem Revoker.revoke_leaves (r : RevokerId) (world : World σ) :
    ∃ reactions eventActions revokers, (revoke r).after world =
      { world with
        reactions := reactions
        eventActions := eventActions
        revokers := revokers } := by
  rw [after_revoke]
  cases world.subscription? r with
  | none => exact ⟨_, _, _, rfl⟩
  | some subscription =>
      obtain ⟨source, listener⟩ := subscription
      cases source <;> exact ⟨_, _, _, rfl⟩

namespace Steady

variable {relation : World σ → World σ → Prop}

mutual

theorem revokeAll (steady : Steady relation)
    (revokes : ∀ r, (Revoker.revoke r : Act σ Unit).Within relation)
    (record : Record) : (record.revokeAll : Act σ Unit).Within relation := by
  obtain ⟨text, attributes, bindings, children⟩ := record
  rw [Record.revokeAll]
  exact steady.bind (steady.forM fun _ => steady.forM revokes) fun _ =>
    revokeEach steady revokes children

theorem revokeEach (steady : Steady relation)
    (revokes : ∀ r, (Revoker.revoke r : Act σ Unit).Within relation)
    (records : List Record) :
    (Record.revokeEach records : Act σ Unit).Within relation := by
  cases records with
  | nil =>
      rw [Record.revokeEach]
      exact steady.pure ()
  | cons record rest =>
      rw [Record.revokeEach]
      exact steady.bind (revokeAll steady revokes record) fun _ =>
        revokeEach steady revokes rest

end

mutual

/-- What revoking and writing to the document stay within, restoring a record
stays within. -/
theorem restore (steady : Steady relation)
    (revokes : ∀ r, (Revoker.revoke r : Act σ Unit).Within relation)
    (writes : ∀ change,
      (LiveTemplate.modifyDom change : Act σ Unit).Within relation)
    (n : NodeId) (record : Record) :
    (record.restore n : Act σ Unit).Within relation := by
  obtain ⟨text, attributes, bindings, children⟩ := record
  have revoked : (bindings.forM fun group => group.forM Revoker.revoke :
      Act σ Unit).Within relation :=
    steady.forM fun _ => steady.forM revokes
  cases text with
  | some data =>
      rw [Record.restore]
      exact steady.bind revoked fun _ => writes _
  | none =>
      rw [Record.restore]
      exact steady.bind revoked fun _ => steady.bind
        (steady.forM fun _ => writes _) fun _ =>
          restoreEach steady revokes writes n 0 children

theorem restoreEach (steady : Steady relation)
    (revokes : ∀ r, (Revoker.revoke r : Act σ Unit).Within relation)
    (writes : ∀ change,
      (LiveTemplate.modifyDom change : Act σ Unit).Within relation)
    (n : NodeId) (index : Nat) (records : List Record) :
    (Record.restoreEach n index records : Act σ Unit).Within relation := by
  cases records with
  | nil =>
      rw [Record.restoreEach]
      exact steady.pure ()
  | cons record rest =>
      rw [Record.restoreEach]
      refine steady.bind steady.get fun world => ?_
      cases (world.dom.children n)[index]? with
      | some child =>
          exact steady.bind (restore steady revokes writes child record)
            fun _ => restoreEach steady revokes writes n (index + 1) rest
      | none =>
          exact steady.bind (revokeAll steady revokes record) fun _ =>
            restoreEach steady revokes writes n (index + 1) rest

end

end Steady

theorem Record.templates_restore (n : NodeId) (record : Record)
    (world : World σ) :
    ((record.restore n : Act σ Unit).after world).templates =
      world.templates := by
  have steady : Steady fun world later : World σ =>
      later.templates = world.templates :=
    ⟨fun _ => rfl, fun first second => second.trans first, fun _ _ _ => id⟩
  refine steady.restore (fun r world => ?_) (fun _ _ => rfl) n record world
  obtain ⟨_, _, _, left⟩ := Revoker.revoke_leaves r world
  rw [left]

namespace Pass

/-- One condition holds of what the pass leaves behind when it succeeds, and
another when it fails. -/
def Ends (pass : Pass σ α) (record : Record) (world : World σ)
    (success : α → World σ → Prop) (failure : World σ → Prop) : Prop :=
  match ((start pass record).result world).1 with
  | .ok a => success a ((start pass record).after world)
  | .error _ => failure ((start pass record).after world)

namespace Ends

variable {record : Record} {world : World σ} {failure : World σ → Prop}

theorem pure {a : α} {success : α → World σ → Prop} (holds : success a world) :
    Ends (Pure.pure a) record world success failure :=
  holds

theorem throw {error : TemplateError} {success : α → World σ → Prop}
    (holds : failure world) :
    Ends (MonadExcept.throw error) record world success failure :=
  holds

theorem act {action : Act σ α} {success : α → World σ → Prop}
    (holds : success (action.result world) (action.after world)) :
    Ends (Pass.act action) record world success failure :=
  holds

theorem bind {pass : Pass σ α} {next : α → Pass σ β}
    {between : α → World σ → Prop} {success : β → World σ → Prop}
    (first : Ends pass record world between failure)
    (later : ∀ a recorded world, between a world →
      Ends (next a) recorded world success failure) :
    Ends (pass >>= next) record world success failure := by
  unfold Ends at first ⊢
  rw [start_bind, Act.result_bind, Act.after_bind]
  generalize (start pass record).result world = ended at first ⊢
  obtain ⟨error | a, recorded⟩ := ended
  · exact first
  · exact later a recorded _ first

/-- A pass goes on with what a computation answers and leaves behind. -/
theorem act_bind {action : Act σ α} {next : α → Pass σ β}
    {success : β → World σ → Prop}
    (later : Ends (next (action.result world)) record (action.after world)
      success failure) :
    Ends (Pass.act action >>= next) record world success failure :=
  later

theorem ofExcept_bind {outcome : Except TemplateError α}
    {next : α → Pass σ β} {success : β → World σ → Prop}
    (ok : ∀ a, outcome = .ok a →
      Ends (next a) record world success failure)
    (error : failure world) :
    Ends (Pass.ofExcept outcome >>= next) record world success failure := by
  cases outcome with
  | error _ => exact error
  | ok a => exact ok a rfl

theorem nest_bind {nested : Nested σ} {t : TemplateId}
    {target : Option NodeId} {path : DefinitionPath} {next : NodeId → Pass σ β}
    {success : β → World σ → Prop}
    (ok : ∀ n recorded, ((nested t target path).result world).1 = .ok n →
      Ends (next n) recorded ((nested t target path).after world) success
        failure)
    (error : failure ((nested t target path).after world)) :
    Ends (Pass.nest nested t target path >>= next) record world success
      failure := by
  have ends (child : Record) (outcome : Except TemplateError NodeId)
      (found : (nested t target path).result world = (outcome, child)) :
      Ends (Pass.ofExcept outcome >>= next)
        { record with children := record.children ++ [child] }
        ((nested t target path).after world) success failure :=
    ofExcept_bind (fun n same => ok n _ (by rw [found, same])) error
  exact ends _ _ rfl

theorem keeping {refs : List Ref} {pass : Pass σ α}
    {success : α → World σ → Prop}
    (inner : Ends pass record (world.holding (.refs refs :: world.frames))
      (fun a later => success a (later.holding world.frames))
      fun later => failure (later.holding world.frames)) :
    Ends (Pass.keeping refs pass) record world success failure :=
  inner

theorem weaken {pass : Pass σ α} {success weaker : α → World σ → Prop}
    {otherwise : World σ → Prop}
    (ends : Ends pass record world success failure)
    (ok : ∀ a later, success a later → weaker a later)
    (error : ∀ later, failure later → otherwise later) :
    Ends pass record world weaker otherwise := by
  unfold Ends at ends ⊢
  split <;> rename_i found <;> rw [found] at ends
  · exact ok _ _ ends
  · exact error _ ends

/-- What holds however a pass ends holds of what it leaves behind. -/
theorem after {pass : Pass σ α} {success : α → World σ → Prop}
    (ends : Ends pass record world success failure)
    (ok : ∀ a later, success a later → failure later) :
    failure ((start pass record).after world) := by
  unfold Ends at ends
  split at ends
  · exact ok _ _ ends
  · exact ends

theorem of_within {relation : World σ → World σ → Prop} {pass : Pass σ α}
    (within : pass.Within relation) :
    Ends pass record world (fun _ later => relation world later)
      (fun later => relation world later) := by
  unfold Ends
  split <;> exact within record world

/-- Of a success both conditions hold. -/
theorem and_ensures {pass : Pass σ α} {success post : α → World σ → Prop}
    (ends : Ends pass record world success failure)
    (ensures : Ensures pass record world post) :
    Ensures pass record world fun a later =>
      success a later ∧ post a later := by
  intro a recorded outcome
  unfold Ends at ends
  rw [outcome] at ends
  exact ⟨ends, ensures a recorded outcome⟩

end Ends

theorem Ensures.of_within {relation : World σ → World σ → Prop}
    {pass : Pass σ α} {record : Record} {world : World σ}
    (within : pass.Within relation) :
    Ensures pass record world fun _ later => relation world later := by
  intro _ _ _
  exact within record world

end Pass

/-- A template that is rendered afresh comes to an end as its text or its
element does. -/
theorem Template.ends_pass {host : Host σ} {mounter : Mounter σ}
    {nested : Nested σ} {t : TemplateId} {path : DefinitionPath}
    {record : Record} {world : World σ} {success : NodeId → World σ → Prop}
    {failure : World σ → Prop} (again : failure world)
    (text : (world.template t).blueprint.text.isSome = true →
      Pass.Ends ((world.template t).blueprint.renderText host none) record world
        (fun n later => success n ((update t fun template =>
          { template with rendered := true }).after later)) failure)
    (element : (world.template t).blueprint.text.isSome = false →
      Pass.Ends ((world.template t).blueprint.renderElement host mounter nested
        none path) record world
        (fun n later => success n ((update t fun template =>
          { template with rendered := true }).after later)) failure) :
    Pass.Ends (pass host mounter nested t none path) record world success
      failure := by
  have made : Pass.Ends (passWith host mounter nested t
      (world.template t).blueprint none path) record world success failure := by
    unfold passWith
    by_cases found : (world.template t).blueprint.text.isSome = true
    · rw [if_pos found]
      exact (text found).bind fun _ _ _ after => .act_bind (.pure after)
    · rw [if_neg found]
      exact (element (Bool.eq_false_iff.mpr found)).bind
        fun _ _ _ after => .act_bind (.pure after)
  have runs := start_pass host mounter nested t none path record world
  rw [Option.isNone_none, Bool.true_and] at runs
  unfold Pass.Ends Act.result Act.after at made ⊢
  by_cases found : (world.template t).rendered = true
  · rw [runs, if_pos found]
    exact again
  · rw [runs, if_neg found]
    exact made

end LiveTemplate
