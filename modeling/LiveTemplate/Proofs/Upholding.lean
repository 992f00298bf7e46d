import LiveTemplate.Proofs.Collections
import LiveTemplate.Proofs.Conduct

/-!
# What all operations uphold

Whatever the library does to listeners, revokers and emitters comes down to a
few steps.  A relation between worlds that bears these, the code of the client
and everything that concerns none of the three bears every operation of the
library: notices and events, templates, views and collections.  Passes give
nothing up and call transforms only, so that they ask for less.
-/

namespace LiveTemplate

variable {σ : Type}

/-- The same templates are in force, with the same records. -/
def World.SameRecords (world later : World σ) : Prop :=
  ∀ t, (later.template t).applied = (world.template t).applied

/-- The handlers of a client stay within the relation. -/
structure Host.Within (host : Host σ) (relation : World σ → World σ → Prop) :
    Prop where
  notice : ∀ handler notice, (host.notice handler notice).Within relation
  event : ∀ handler event, (host.event handler event).Within relation
  transform : ∀ handler value node,
    (host.transform handler value node).Within relation
  destroy : ∀ handler, (host.destroy handler).Within relation

/-- The relation bears transforms, listening through an emitter, and all that
concerns neither listeners nor revokers nor emitters nor records. -/
structure Host.Bears (host : Host σ) (relation : World σ → World σ → Prop) :
    Prop where
  transform : ∀ handler value node,
    (host.transform handler value node).Within relation
  trans : ∀ {first second third}, relation first second →
    relation second third → relation first third
  aside : ∀ {world later : World σ},
    later.reactions = world.reactions →
    later.eventActions = world.eventActions →
    later.revokers = world.revokers →
    later.emitters = world.emitters →
    world.SameRecords later → relation world later
  listenToObservable : ∀ e o event reaction,
    (Emitter.listenToObservable e o event reaction).Within relation
  listenToNode : ∀ e n type action,
    (Emitter.listenToNode e n type action).Within relation

/-- The relation bears the handlers of a client and all that the library does
to emitters, revokers and listeners. -/
structure Host.Upholds (host : Host σ) (relation : World σ → World σ → Prop) :
    Prop extends host.Within relation, host.Bears relation where
  revoke : ∀ r, (Revoker.revoke r).Within relation
  unhook : ∀ e, (Emitter.update e fun emitter =>
    { emitter with hooks := [] }).Within relation
  stopListening : ∀ e, (Emitter.stopListening e).Within relation

/-- Child views are mounted within the relation. -/
def Mounter.Within (relation : World σ → World σ → Prop)
    (mounter : Mounter σ) : Prop :=
  ∀ v, (mounter v).Within relation

def Nested.Within (relation : World σ → World σ → Prop) (nested : Nested σ) :
    Prop :=
  ∀ t target path, (nested t target path).Within relation

namespace Host.Bears

variable {host : Host σ} {relation : World σ → World σ → Prop}
  (bears : host.Bears relation)

include bears

theorem refl (world : World σ) : relation world world := by
  exact bears.aside rfl rfl rfl rfl fun _ => rfl

theorem steady : Steady relation where
  refl := bears.refl
  trans := bears.trans
  release frame world later inner := by
    have entered : relation world
        (world.holding (frame :: world.frames)) :=
      bears.aside rfl rfl rfl rfl fun _ => rfl
    have left : relation later (later.holding world.frames) :=
      bears.aside rfl rfl rfl rfl fun _ => rfl
    exact bears.trans (bears.trans entered inner) left

theorem modifyDom (change : Dom → Dom) :
    (LiveTemplate.modifyDom change).Within relation := by
  intro _
  exact bears.aside rfl rfl rfl rfl fun _ => rfl

theorem createNode (kind : NodeKind) :
    (LiveTemplate.createNode kind).Within relation := by
  intro _
  exact bears.aside rfl rfl rfl rfl fun _ => rfl

theorem bounds : host.Bounds (fun _ _ => True) relation where
  toSteady := bears.steady
  transform := bears.transform
  observable := bears.listenToObservable
  node := bears.listenToNode
  attributes _ _ := bears.modifyDom _
  text _ _ world _ := bears.modifyDom _ world
  stays _ _ := trivial

end Host.Bears

section Passes

variable {host : Host σ} {relation : World σ → World σ → Prop}
  (bears : host.Bears relation) {mounter : Mounter σ} {nested : Nested σ}

include bears

namespace Blueprint

variable (mounts : mounter.Within relation) (nests : nested.Within relation)

theorem within_nest (nests : nested.Within relation) (t : TemplateId)
    (target : Option NodeId) (path : DefinitionPath) :
    (Pass.nest nested t target path).Within relation := by
  have steady := bears.steady
  exact steady.passBind (Steady.passAct (nests t target path)) fun _ =>
    steady.passBind (steady.passNote _) fun _ => steady.passOfExcept _

theorem within_push (mount : Mount) (child : NodeId) :
    (mount.push child).Within relation := by
  exact bears.steady.bind (bears.modifyDom _) fun _ =>
    bears.steady.pure _

include mounts

theorem within_mountViews (mount : Mount) (views : List ViewId) :
    (mountViews mounter mount views).Within relation := by
  have steady := bears.steady
  induction views generalizing mount with
  | nil => exact steady.passPure mount
  | cons view rest ih =>
      rw [mountViews]
      exact steady.passBind (Steady.passAct (mounts view)) fun _ =>
        steady.passBind (steady.passOfExcept _) fun _ =>
          steady.passBind (Steady.passAct (within_push bears mount _))
            fun later => steady.passKeeping (ih later)

include nests

private theorem within_mountMembers (path : DefinitionPath) (index : Nat)
    (mount : Mount) (members : List Member) :
    (mountMembers mounter nested path index mount members).Within
      relation := by
  have steady := bears.steady
  have mountsMember (path : DefinitionPath) (mount : Mount) (member : Member) :
      (mountMember mounter nested path mount member).Within relation := by
    cases member with
    | collection c =>
        exact steady.passGet fun _ => steady.passBind
          (steady.passKeeping (within_mountViews bears mounts mount _))
            fun _ => steady.passPure _
    | view view => exact within_mountViews bears mounts mount [view]
    | node n => exact Steady.passAct (within_push bears mount n)
    | template t =>
        exact steady.passBind (within_nest bears nests t none path) fun _ =>
          Steady.passAct (within_push bears mount _)
  induction members generalizing index mount with
  | nil => exact steady.passPure mount
  | cons member rest ih =>
      rw [mountMembers]
      exact steady.passBind (mountsMember _ mount member) fun later =>
        steady.passKeeping (ih (index + 1) later)

private theorem within_renderMembers (members : List Member) (parent : NodeId)
    (path : DefinitionPath) :
    (renderMembers mounter nested members parent path).Within
      relation := by
  have steady := bears.steady
  have finishes (mount : Mount) :
      (mount.finish parent).Within relation :=
    steady.bind (bears.modifyDom _) fun _ =>
      steady.forM fun _ _ => bears.aside rfl rfl rfl rfl fun _ => rfl
  unfold renderMembers
  split
  · exact steady.passBind (Steady.passAct (bears.createNode _))
      fun fragment => steady.passKeeping (steady.passBind
        (within_mountMembers bears mounts nests path 0 _ members)
          fun mount => Steady.passAct (finishes mount))
  · exact steady.passPure ()

omit mounts in
theorem within_applyMembers (blueprint : Blueprint) (node : NodeId)
    (path : DefinitionPath) (index place : Nat) (members : List Member) :
    (blueprint.applyMembers nested node path index place members).Within
      relation := by
  have steady := bears.steady
  induction members generalizing index place with
  | nil => exact steady.passPure ()
  | cons member rest ih =>
      cases member with
      | template t =>
          rw [applyMembers]
          refine steady.passGet fun world => ?_
          dsimp only
          split
          · exact steady.passBind (within_nest bears nests t _ _)
              fun _ => ih _ _
          · exact steady.passThrow _
      | collection c => exact ih _ _
      | view view => exact steady.passThrow _
      | node n => exact steady.passThrow _

private theorem within_renderElement (blueprint : Blueprint)
    (target : Option NodeId)
    (path : DefinitionPath) :
    (blueprint.renderElement host mounter nested target path).Within
      relation := by
  have steady := bears.steady
  have bounds := bears.bounds
  have filled (node : NodeId) (applying : Bool) : Pass.Within relation (do
      Pass.keeping [.node node] do
        blueprint.renderAttributes host node applying
        if applying then
          blueprint.applyMembers nested node path 0 0 blueprint.children
        else
          renderMembers mounter nested blueprint.children node path
        blueprint.renderListeners node
      return node) := by
    refine steady.passBind (steady.passKeeping ?_) fun _ => steady.passPure node
    refine steady.passBind (bounds.renderAttributes blueprint node _)
      fun _ => ?_
    dsimp only
    split
    · exact steady.passBind
        (within_applyMembers bears nests blueprint node path 0 0 _)
        fun _ => bounds.renderListeners blueprint node
    · exact steady.passBind
        (within_renderMembers bears mounts nests _ node path)
        fun _ => bounds.renderListeners blueprint node
  unfold renderElement
  cases target with
  | some node => exact filled node true
  | none =>
      cases blueprint.tag with
      | some tag =>
          exact steady.passBind (Steady.passAct (bears.createNode _))
            fun node => filled node false
      | none => exact steady.passThrow _

omit mounts nests in
private theorem within_renderText (blueprint : Blueprint)
    (target : Option NodeId) :
    (blueprint.renderText host target).Within relation := by
  have steady := bears.steady
  have shown (node : NodeId) (chunks : List Chunk) :
      (showText host node chunks).Within relation := by
    intro record world
    obtain ⟨inner, kept, after, _⟩ := bears.bounds.showText node chunks record
      world trivial
    show relation world (((showText host node chunks).start record).after
      world)
    rw [after]
    exact steady.release (.refs [.node node]) kept
  cases target with
  | some node =>
      exact steady.passGet fun _ => steady.passBind (steady.passNote _)
        fun _ => shown node _
  | none =>
      exact steady.passBind (Steady.passAct (bears.createNode _))
        fun node => shown node _

end Blueprint

namespace Template

theorem within_update (t : TemplateId) {change : Template → Template}
    (same : ∀ template, (change template).applied = template.applied) :
    (update t change).Within relation := by
  refine fun world => bears.aside rfl rfl rfl rfl fun other => ?_
  by_cases equal : other = t
  · rw [equal, template_update, same]
  · rw [template_update_of_ne _ _ equal]

theorem within_pass (mounts : mounter.Within relation)
    (nests : nested.Within relation) (t : TemplateId) (target : Option NodeId)
    (path : DefinitionPath) :
    (pass host mounter nested t target path).Within relation := by
  have steady := bears.steady
  intro record world
  have runs := start_pass host mounter nested t target path record world
  show relation world
    (((pass host mounter nested t target path).start record) world).2
  rw [runs]
  split
  · exact bears.refl world
  · refine (?_ : Pass.Within relation (passWith host mounter nested t _
      target path)) record world
    unfold passWith
    have marked (node : NodeId) : Pass.Within relation (do
        if target.isNone then
          Pass.act (update t fun template => { template with rendered := true })
        return node : Pass σ NodeId) := by
      dsimp only
      split
      · have marks : (update t fun template =>
            { template with rendered := true }).Within relation :=
          within_update bears t fun _ => rfl
        exact steady.passBind (Steady.passAct marks) fun _ =>
          steady.passPure node
      · exact steady.passPure node
    by_cases text : (world.template t).blueprint.text.isSome = true
    · rw [if_pos text]
      exact steady.passBind (Blueprint.within_renderText bears _ target)
        marked
    · rw [if_neg text]
      exact steady.passBind (Blueprint.within_renderElement bears
        mounts nests _ target path) marked

theorem within_passWithin (mounts : mounter.Within relation) (fuel : Nat) :
    Nested.Within relation (passWithin host mounter fuel) := by
  induction fuel with
  | zero => exact fun _ _ _ world => bears.refl world
  | succ fuel ih =>
      exact fun t target path => within_pass bears mounts ih t target path
        .empty

theorem within_applyPass (t : TemplateId) (n : NodeId) :
    (applyPass host t n).Within relation := by
  exact bears.steady.keeping (within_passWithin bears
    (fun _ => bears.steady.pure _) _ t (some n) [])

end Template

end Passes

namespace Template

mutual

theorem within_compile {relation : World σ → World σ → Prop}
    (steady : Steady relation)
    (adds : ∀ blueprint, (add blueprint).Within relation)
    (parts : Parts Child) : (compile parts).Within relation := by
  obtain ⟨tag, namespaceName, text, attributes, listeners, children⟩ := parts
  rw [compile]
  exact steady.bind (within_compileChildren steady adds children)
    fun _ => steady.pure _

theorem within_compileChild {relation : World σ → World σ → Prop}
    (steady : Steady relation)
    (adds : ∀ blueprint, (add blueprint).Within relation) (child : Child) :
    (compileChild child).Within relation := by
  cases child with
  | definition parts =>
      rw [compileChild]
      exact steady.bind (within_compile steady adds parts) fun _ =>
        steady.bind (adds _) fun _ => steady.pure _
  | _ =>
      rw [compileChild]
      exact steady.pure _

theorem within_compileChildren {relation : World σ → World σ → Prop}
    (steady : Steady relation)
    (adds : ∀ blueprint, (add blueprint).Within relation)
    (children : List Child) : (compileChildren children).Within relation := by
  cases children with
  | nil =>
      rw [compileChildren]
      exact steady.pure _
  | cons child rest =>
      rw [compileChildren]
      exact steady.bind (within_compileChild steady adds child) fun _ =>
        steady.bind (within_compileChildren steady adds rest) fun _ =>
          steady.pure _

end

section Extending

variable {relation : World σ → World σ → Prop} (steady : Steady relation)
  (adds : ∀ blueprint, (add blueprint).Within relation)

include steady adds

theorem within_create (definition : Definition) :
    (create definition).Within relation := by
  exact steady.bind (within_compile steady adds definition) adds

theorem within_extend
    (merges : ∀ t (extension : Blueprint), (update t fun template =>
      { template with blueprint := template.blueprint.merge extension }).Within
        relation)
    (t : TemplateId) (definition : Definition) :
    (extend t definition).Within relation := by
  have merging (fuel : Nat) (t : TemplateId) (extension : Blueprint) :
      (mergeWithin fuel t extension).Within relation := by
    induction fuel generalizing t extension with
    | zero => exact steady.pure ()
    | succ fuel ih =>
        exact steady.bind (merges t extension) fun _ =>
          steady.bind steady.get fun _ => steady.forM fun _ => ih _ _
  refine steady.bind (within_compile steady adds definition)
    fun extension => steady.bind steady.get fun world => ?_
  split
  · exact steady.pure _
  · exact steady.bind (merging _ t extension) fun _ => steady.pure _

end Extending

/-- A new template is not in force. -/
theorem sameRecords_add (blueprint : Blueprint) (world : World σ) :
    world.SameRecords ((add blueprint).after world) := by
  intro t
  by_cases new : t.index = world.templates.size
  · have same : t = (add blueprint).result world := congrArg TemplateId.mk new
    have before : world.template t = default := by
      unfold World.template
      rw [new]
      exact Store.get_size _
    rw [before, same, template_add_self]
    rfl
  · rw [template_add_of_ne _ _ new]

end Template

section Operations

variable {host : Host σ} {relation : World σ → World σ → Prop}
  (upholds : host.Upholds relation)

include upholds

namespace Observable

private theorem within_notifyEach (o : ObservableId) (notice : Notice)
    (waiting : List (Listener Reaction)) :
    (notifyEach host o notice waiting).Within relation := by
  have steady := upholds.steady
  have reacts (reaction : Reaction) :
      (react host notice reaction).Within relation := by
    cases reaction with
    | sync group =>
        exact fun world => upholds.bounds.sync group world fun _ _ => trivial
    | call handler => exact upholds.notice handler notice
  induction waiting with
  | nil => exact steady.pure ()
  | cons listener rest ih =>
      rw [notifyEach]
      refine steady.bind steady.get fun world => ?_
      split
      · exact steady.bind (steady.keeping (reacts _)) fun _ => ih
      · exact ih

theorem within_fire (o : ObservableId) (name : String) (payload : Payload) :
    (fire host o name payload).Within relation := by
  refine upholds.steady.bind upholds.steady.get fun _ => ?_
  exact within_notifyEach upholds o _ _

theorem within_set (o : ObservableId) (name : String) (value : Value) :
    (set host o name value).Within relation := by
  have steady := upholds.steady
  have stored : (store o name value).Within relation :=
    fun _ => upholds.aside rfl rfl rfl rfl fun _ => rfl
  refine steady.bind steady.get fun world => steady.bind stored fun _ => ?_
  split
  · exact within_fire upholds o _ _
  · exact steady.pure ()

end Observable

namespace NodeEvents

private theorem within_runEach (n : NodeId) (event : DomEvent)
    (waiting : List (Listener EventAction)) :
    (runEach host n event waiting).Within relation := by
  have steady := upholds.steady
  have reacts (action : EventAction) :
      (react host event action).Within relation := by
    cases action with
    | call handler => exact upholds.event handler event
    | delegate selectors binding =>
        refine steady.bind steady.get fun world => ?_
        split
        · cases binding.action with
          | emit name => exact Observable.within_fire upholds _ _ _
          | call handler => exact upholds.event handler event
        · exact steady.pure ()
  induction waiting with
  | nil => exact steady.pure ()
  | cons listener rest ih =>
      rw [runEach]
      refine steady.bind steady.get fun world => ?_
      split
      · exact steady.bind (reacts _) fun _ => ih
      · exact ih

private theorem within_dispatch (target : NodeId) (event : DomEvent) :
    (dispatch host target event).Within relation := by
  have steady := upholds.steady
  have travels (event : DomEvent) (path : List NodeId) :
      (travel host event path).Within relation := by
    induction path with
    | nil => exact steady.pure ()
    | cons n rest ih =>
        rw [travel]
        refine steady.bind steady.get fun world => ?_
        dsimp only
        split
        · exact ih
        · refine steady.bind (steady.keeping (within_runEach upholds n _ _))
            fun _ => steady.bind steady.get fun later => ?_
          split
          · exact ih
          · exact steady.pure ()
  exact steady.bind steady.get fun _ =>
    steady.bind (travels _ _) fun _ => steady.pure _

end NodeEvents

theorem Emitter.within_destroy (e : EmitterId) :
    (Emitter.destroy host e).Within relation := by
  have steady := upholds.steady
  exact steady.bind steady.get fun _ =>
    steady.bind (upholds.unhook e) fun _ =>
      steady.bind (steady.keeping (steady.forM upholds.destroy)) fun _ =>
        upholds.stopListening e

namespace Template

theorem within_renderWith {mounter : Mounter σ}
    (mounts : mounter.Within relation) (t : TemplateId) :
    (renderWith host mounter t).Within relation := by
  have steady := upholds.steady
  refine steady.bind steady.get fun world => ?_
  split
  · exact steady.pure _
  refine steady.bind steady.get fun world => ?_
  split
  · exact steady.pure _
  · refine steady.bind (steady.keeping
      (within_passWithin upholds.toBears mounts _ t none [])) fun result => ?_
    split
    · exact steady.pure _
    · exact steady.bind (steady.revokeAll upholds.revoke _) fun _ =>
        steady.pure _

end Template

theorem Record.within_restore (n : NodeId) (record : Record) :
    (record.restore n).Within relation := by
  exact upholds.steady.restore upholds.revoke upholds.modifyDom n record

section Applying

variable {t : TemplateId} (stores : ∀ entry, (Template.update t fun template =>
  { template with applied := entry }).Within relation)

include stores

private theorem Template.within_apply (n : NodeId) :
    (apply host t n).Within relation := by
  have steady := upholds.steady
  refine steady.bind steady.get fun world => ?_
  split
  · exact steady.pure _
  refine steady.bind steady.get fun world => ?_
  split
  · exact steady.pure _
  · refine steady.bind (within_applyPass upholds.toBears t n) fun result => ?_
    split
    · exact steady.bind (stores _) fun _ => steady.pure _
    · exact steady.bind (Record.within_restore upholds n _) fun _ =>
        steady.pure _

private theorem Template.within_revert (n : NodeId) :
    (revert t n).Within relation := by
  have steady := upholds.steady
  refine steady.bind steady.get fun world => ?_
  split
  · split
    · exact steady.bind (stores none) fun _ =>
        steady.bind (Record.within_restore upholds n _) fun _ => steady.pure _
    · exact steady.pure _
  · exact steady.pure _

end Applying

namespace View

theorem within_update (v : ViewId) (change : View → View) :
    (update v change).Within relation := by
  intro _
  exact upholds.aside rfl rfl rfl rfl fun _ => rfl

theorem within_mountWith
    {render : ViewId → Act σ (Except TemplateError Unit)}
    (renders : ∀ v, (render v).Within relation) (v : ViewId) :
    (mountWith render v).Within relation := by
  have steady := upholds.steady
  have settles (outcome : Except TemplateError Unit) :
      (settleMount v outcome).Within relation := by
    cases outcome with
    | error error => exact steady.pure _
    | ok _ =>
        intro world
        show relation world (settleMount v (.ok ()) world).2
        rw [run_settleMount_ok]
        exact upholds.refl world
  intro world
  show relation world (mountWith render v world).2
  rw [run_mountWith]
  split
  · exact settles _ world
  · exact steady.bind (renders v) settles world

private theorem within_renderWithin (fuel : Nat) (v : ViewId) :
    (renderWithin host fuel v).Within relation := by
  have steady := upholds.steady
  induction fuel generalizing v with
  | zero => exact steady.pure _
  | succ fuel ih =>
      rw [renderWithin]
      refine steady.bind steady.get fun world => ?_
      dsimp only
      split
      · exact steady.pure _
      · split
        · exact steady.bind (within_update upholds v _) fun _ => steady.pure _
        · refine steady.bind (steady.keeping (Template.within_renderWith
            upholds (within_mountWith upholds ih) _)) fun outcome => ?_
          split
          · exact steady.pure _
          · exact steady.bind (within_update upholds v _) fun _ =>
              steady.pure _

theorem within_render (v : ViewId) :
    (render host v).Within relation := by
  unfold render
  exact upholds.steady.bind upholds.steady.get fun _ =>
    within_renderWithin upholds _ v

theorem within_mount (v : ViewId) : (mount host v).Within relation :=
  within_mountWith upholds (within_render upholds) v

end View

theorem Template.within_render (t : TemplateId) :
    (render host t).Within relation :=
  within_renderWith upholds (View.within_mount upholds) t

namespace Collection

theorem within_update (c : CollectionId)
    (change : Collection → Collection) :
    (update c change).Within relation := by
  intro _
  exact upholds.aside rfl rfl rfl rfl fun _ => rfl

theorem within_addAt (c : CollectionId) (index : Nat) (v : ViewId) :
    (addAt host c index v).Within relation := by
  intro world
  have mounts : (mounting host c v).Within relation :=
    upholds.steady.keeping (View.within_mount upholds v)
  show relation world (addAt host c index v world).2
  rw [run_addAt]
  split
  · exact mounts world
  · refine upholds.trans (mounts world) ?_
    dsimp only
    unfold seated
    split <;> exact upholds.aside rfl rfl rfl rfl fun _ => rfl

theorem within_detach (c : CollectionId) (v : ViewId) :
    (detach c v).Within relation := by
  intro world
  rw [after_detach]
  split
  · exact upholds.aside rfl rfl rfl rfl fun _ => rfl
  · exact upholds.refl world

theorem within_remove (c : CollectionId) (index : Nat) :
    (remove c index).Within relation := by
  intro world
  rw [after_remove]
  split
  · exact upholds.refl world
  · exact upholds.trans (within_update upholds c _ world)
      (within_detach upholds c _ _)

theorem within_clear (c : CollectionId) :
    (clear c).Within relation := by
  intro world
  rw [after_clear]
  exact upholds.trans (within_update upholds c _ world)
    (upholds.steady.forM (within_detach upholds c) _)

theorem within_destroyWith {destroyView : ViewId → Act σ Unit}
    (destroys : ∀ v, (destroyView v).Within relation)
    (c : CollectionId) : (destroyWith destroyView c).Within relation := by
  refine upholds.steady.bind upholds.steady.get fun _ => ?_
  refine upholds.steady.bind (within_update upholds c _) fun _ => ?_
  refine upholds.steady.bind
    (upholds.steady.keeping (upholds.steady.keepingEach destroys)) fun _ => ?_
  exact within_update upholds c _

end Collection

namespace View

private theorem within_destroyWithin (fuel : Nat) (v : ViewId) :
    (destroyWithin host fuel v).Within relation := by
  have steady := upholds.steady
  induction fuel generalizing v with
  | zero => exact steady.pure ()
  | succ fuel ih =>
      refine steady.keeping (steady.bind steady.get fun _ =>
        steady.bind (Emitter.within_destroy upholds _) fun _ =>
        steady.bind steady.get fun _ =>
        steady.bind (within_update upholds v _) fun _ =>
        steady.bind (steady.keepingEach
          (Collection.within_destroyWith upholds ih)) fun _ =>
        steady.bind steady.get fun world => ?_)
      split
      · exact steady.keeping (steady.keepingEach ih)
      · exact steady.pure ()

theorem within_destroy (v : ViewId) :
    (destroy host v).Within relation := by
  refine upholds.steady.bind upholds.steady.get fun _ => ?_
  exact within_destroyWithin upholds _ v

end View

theorem Collection.within_destroy (c : CollectionId) :
    (destroy host c).Within relation := by
  exact within_destroyWith upholds (View.within_destroy upholds) c

end Operations

/-- What can be done with the library, and the calls of client code that it
makes. -/
inductive Operation where
  | listenToObservable (e : EmitterId) (o : ObservableId) (event : String)
      (reaction : Reaction)
  | listenToNode (e : EmitterId) (n : NodeId) (type : String)
      (action : EventAction)
  | revoke (r : RevokerId)
  | stopListening (e : EmitterId)
  | destroy (e : EmitterId)
  | create (definition : Definition)
  | extend (t : TemplateId) (definition : Definition)
  | render (t : TemplateId)
  | apply (t : TemplateId) (n : NodeId)
  | revert (t : TemplateId) (n : NodeId)
  | set (o : ObservableId) (name : String) (value : Value)
  | fire (o : ObservableId) (name : String) (payload : Payload)
  | dispatch (n : NodeId) (event : DomEvent)
  | modifyDom (change : Dom → Dom)
  | renderView (v : ViewId)
  | destroyView (v : ViewId)
  | addAt (c : CollectionId) (index : Nat) (v : ViewId)
  | remove (c : CollectionId) (index : Nat)
  | clear (c : CollectionId)
  | destroyCollection (c : CollectionId)
  | handleNotice (handler : Handler) (notice : Notice)
  | handleEvent (handler : Handler) (event : DomEvent)
  | transform (handler : Handler) (value : Value) (n : NodeId)
  | runHook (handler : Handler)

/-- The world after an operation. -/
def Operation.after (host : Host σ) (world : World σ) : Operation → World σ
  | .listenToObservable e o event reaction =>
      (Emitter.listenToObservable e o event reaction).after world
  | .listenToNode e n type action =>
      (Emitter.listenToNode e n type action).after world
  | .revoke r => (Revoker.revoke r).after world
  | .stopListening e => (Emitter.stopListening e).after world
  | .destroy e => (Emitter.destroy host e).after world
  | .create definition => (Template.create definition).after world
  | .extend t definition => (Template.extend t definition).after world
  | .render t => (Template.render host t).after world
  | .apply t n => (Template.apply host t n).after world
  | .revert t n =>
      (Template.revert t n : Act σ (Except TemplateError Unit)).after world
  | .set o name value => (Observable.set host o name value).after world
  | .fire o name payload => (Observable.fire host o name payload).after world
  | .dispatch n event => (NodeEvents.dispatch host n event).after world
  | .modifyDom change => (LiveTemplate.modifyDom change).after world
  | .renderView v => (View.render host v).after world
  | .destroyView v => (View.destroy host v).after world
  | .addAt c index v => (Collection.addAt host c index v).after world
  | .remove c index => (Collection.remove c index).after world
  | .clear c => (Collection.clear c).after world
  | .destroyCollection c => (Collection.destroy host c).after world
  | .handleNotice handler notice => (host.notice handler notice).after world
  | .handleEvent handler event => (host.event handler event).after world
  | .transform handler value n => (host.transform handler value n).after world
  | .runHook handler => (host.destroy handler).after world

/-- Every operation stays within a relation that bears the records it keeps or
gives up. -/
theorem Host.Upholds.operation {host : Host σ}
    {relation : World σ → World σ → Prop} (upholds : host.Upholds relation)
    {operation : Operation}
    (stores : ∀ t n, operation = .apply t n ∨ operation = .revert t n →
      ∀ entry, (Template.update t fun template =>
        { template with applied := entry }).Within relation)
    (world : World σ) : relation world (operation.after host world) := by
  have adds (blueprint : Blueprint) :
      (Template.add blueprint).Within relation := fun world =>
    upholds.aside rfl rfl rfl rfl (Template.sameRecords_add blueprint world)
  cases operation with
  | listenToObservable e o event reaction =>
      exact upholds.listenToObservable e o event reaction world
  | listenToNode e n type action =>
      exact upholds.listenToNode e n type action world
  | revoke r => exact upholds.revoke r world
  | stopListening e => exact upholds.stopListening e world
  | destroy e => exact Emitter.within_destroy upholds e world
  | create definition =>
      exact Template.within_create upholds.steady adds definition world
  | extend t definition =>
      exact Template.within_extend upholds.steady adds (fun t _ =>
        Template.within_update upholds.toBears t fun _ => rfl) t definition
          world
  | render t => exact Template.within_render upholds t world
  | apply t n =>
      exact Template.within_apply upholds (stores t n (.inl rfl)) n world
  | revert t n =>
      exact Template.within_revert upholds (stores t n (.inr rfl)) n world
  | set o name value => exact Observable.within_set upholds o name value world
  | fire o name payload =>
      exact Observable.within_fire upholds o name payload world
  | dispatch n event => exact NodeEvents.within_dispatch upholds n event world
  | modifyDom change => exact upholds.modifyDom change world
  | renderView v => exact View.within_render upholds v world
  | destroyView v => exact View.within_destroy upholds v world
  | addAt c index v => exact Collection.within_addAt upholds c index v world
  | remove c index => exact Collection.within_remove upholds c index world
  | clear c => exact Collection.within_clear upholds c world
  | destroyCollection c => exact Collection.within_destroy upholds c world
  | handleNotice handler notice => exact upholds.notice handler notice world
  | handleEvent handler event => exact upholds.event handler event world
  | transform handler value n =>
      exact upholds.transform handler value n world
  | runHook handler => exact upholds.destroy handler world

end LiveTemplate
