import Mathlib.Data.List.Forall2
import LiveTemplate.Proofs.Passes
import LiveTemplate.View

/-!
# Worlds that cannot be told apart

Two worlds are twins if they differ in nothing that rendering looks at: their
templates may be written differently as long as they come to the same, and
their clients may keep different things.  What the library does in one world it
does in the other.

Templates matter only within a scope that contains whatever they nest.
-/

namespace LiveTemplate

variable {σ τ α β : Type}

namespace Store

variable {ρ : Type} [Inhabited ρ]

theorem size_modify (store : Store ρ) (number : Nat) (change : ρ → ρ) :
    (store.modify number change).size = max store.size (number + 1) := by
  unfold modify put size
  split <;> simp <;> omega

theorem eq_of_get {one other : Store ρ} (size : one.size = other.size)
    (rows : ∀ number, one.get number = other.get number) : one = other := by
  obtain ⟨first⟩ := one
  obtain ⟨second⟩ := other
  refine congrArg Store.mk (Array.ext size fun number below belowToo => ?_)
  have same := rows number
  simpa [get, below, belowToo] using same

end Store

/-- Two schemas of an attribute that are rendered in the same way: by the same
map of styles, or because they are the same. -/
structure Schema.Alike (name : String) (one other : Schema) : Prop where
  styles : entryStyles? name one = entryStyles? name other
  plain : entryStyles? name one = none → one = other

theorem Schema.Alike.refl (name : String) (schema : Schema) :
    Alike name schema schema := by
  exact ⟨rfl, fun _ => rfl⟩

/-- Two blueprints that differ at most in how the schemas of their attributes
are written. -/
structure Blueprint.Alike (one other : Blueprint) : Prop where
  tag : one.tag = other.tag
  namespaceName : one.namespaceName = other.namespaceName
  text : one.text = other.text
  attributes : List.Forall₂ (fun entry twin : String × Schema =>
    entry.1 = twin.1 ∧ Schema.Alike entry.1 entry.2 twin.2)
    one.attributes other.attributes
  listeners : one.listeners = other.listeners
  children : one.children = other.children

theorem Blueprint.Alike.refl (blueprint : Blueprint) :
    Alike blueprint blueprint where
  tag := rfl
  namespaceName := rfl
  text := rfl
  attributes := List.forall₂_same.mpr fun entry _ => ⟨rfl, .refl entry.1 entry.2⟩
  listeners := rfl
  children := rfl

/-- What may differ between two worlds: templates in a scope, and clients. -/
structure Kinship (σ τ : Type) where
  alike : Template → Template → Prop
  scope : TemplateId → Prop
  /-- Whether there have to be equally many templates. -/
  sized : Prop
  clients : σ → τ → Prop
  blueprint : ∀ {one other}, alike one other →
    one.blueprint.Alike other.blueprint
  rendered : ∀ {one other}, alike one other → one.rendered = other.rendered
  applied : ∀ {one other}, alike one other → one.applied = other.applied
  /-- What becomes of both of two templates leaves them alike. -/
  updated : ∀ {one other}, alike one other → ∀ rendered applied,
    alike ⟨one.blueprint, rendered, applied⟩
      ⟨other.blueprint, rendered, applied⟩

namespace Kinship

variable {kin : Kinship σ τ} {one other : Template}

theorem marked (same : kin.alike one other) :
    kin.alike { one with rendered := true }
      { other with rendered := true } := by
  rw [← kin.applied same]
  exact kin.updated same true one.applied

theorem keeps (same : kin.alike one other)
    (entry : Option (NodeId × Record)) :
    kin.alike { one with applied := entry }
      { other with applied := entry } := by
  rw [← kin.rendered same]
  exact kin.updated same one.rendered entry

end Kinship

/-- A world without its templates and without what its client keeps. -/
def World.rest (world : World σ) : World Unit :=
  { world with templates := .empty, client := () }

/-- Two worlds with the same rest, with templates that are alike within the
scope and with clients that are related. -/
structure Kinship.Twins (kin : Kinship σ τ) (one : World σ) (other : World τ) :
    Prop where
  rest : one.rest = other.rest
  templates : ∀ t, kin.scope t → kin.alike (one.template t) (other.template t)
  nested : ∀ t, kin.scope t → ∀ inner,
    .template inner ∈ (one.template t).blueprint.children → kin.scope inner
  size : kin.sized → one.templates.size = other.templates.size
  viewed : ∀ v t, (one.view v).template = some t → kin.scope t
  clients : kin.clients one.client other.client

namespace Kinship.Twins

variable {kin : Kinship σ τ} {one : World σ} {other : World τ}

theorem dom (twins : kin.Twins one other) : one.dom = other.dom :=
  congrArg World.dom twins.rest

theorem frames (twins : kin.Twins one other) : one.frames = other.frames :=
  congrArg World.frames twins.rest

theorem property (twins : kin.Twins one other) (o : ObservableId)
    (name : String) : one.property o name = other.property o name := by
  exact congrArg (fun world => World.property world o name) twins.rest

theorem reactionsOf (twins : kin.Twins one other) (o : ObservableId) :
    one.reactionsOf o = other.reactionsOf o := by
  exact congrArg (fun world => World.reactionsOf world o) twins.rest

theorem view (twins : kin.Twins one other) (v : ViewId) :
    one.view v = other.view v := by
  exact congrArg (fun world => World.view world v) twins.rest

theorem collection (twins : kin.Twins one other) (c : CollectionId) :
    one.collection c = other.collection c := by
  exact congrArg (fun world => World.collection world c) twins.rest

/-- What changes in both worlds, apart from templates and clients, leaves them
twins. -/
theorem step (twins : kin.Twins one other) {later : World σ} {last : World τ}
    (change : World Unit → World Unit) (first : later.rest = change one.rest)
    (second : last.rest = change other.rest)
    (templates : later.templates = one.templates)
    (lastTemplates : last.templates = other.templates)
    (views : ∀ v, (later.view v).template = (one.view v).template)
    (client : later.client = one.client)
    (lastClient : last.client = other.client) : kin.Twins later last where
  rest := by rw [first, second, twins.rest]
  templates t inside := by
    simp only [World.template, templates, lastTemplates]
    exact twins.templates t inside
  nested t inside inner := by
    simp only [World.template, templates]
    exact twins.nested t inside inner
  size sized := by
    rw [templates, lastTemplates]
    exact twins.size sized
  viewed v t found := twins.viewed v t (by rwa [← views])
  clients := by
    rw [client, lastClient]
    exact twins.clients

theorem holding (twins : kin.Twins one other) (frames : List Frame) :
    kin.Twins (one.holding frames) (other.holding frames) := by
  exact twins.step (fun world => world.holding frames) rfl rfl rfl rfl
    (fun _ => rfl) rfl rfl

theorem eq_but_templates {kin : Kinship σ σ} {one other : World σ}
    (twins : kin.Twins one other) (client : one.client = other.client) :
    { one with templates := .empty } = { other with templates := .empty } := by
  have again (world : World σ) : { world with templates := .empty } =
      { world.rest with client := world.client } := rfl
  rw [again, again, twins.rest, client]

end Kinship.Twins

/-- Started in twin worlds, two computations give the same answer and leave
twin worlds behind. -/
def Act.Mirrors (kin : Kinship σ τ) (action : Act σ α) (twin : Act τ α) :
    Prop :=
  ∀ one other, kin.Twins one other → action.result one = twin.result other ∧
    kin.Twins (action.after one) (twin.after other)

namespace Act.Mirrors

variable {kin : Kinship σ τ}

theorem pure (a : α) :
    (Pure.pure a : Act σ α).Mirrors kin (Pure.pure a : Act τ α) := by
  intro _ _ twins
  exact ⟨rfl, twins⟩

theorem bind {action : Act σ α} {twin : Act τ α} {next : α → Act σ β}
    {nextTwin : α → Act τ β} (first : action.Mirrors kin twin)
    (later : ∀ a, (next a).Mirrors kin (nextTwin a)) :
    (action >>= next).Mirrors kin (twin >>= nextTwin) := by
  intro one other twins
  obtain ⟨same, between⟩ := first one other twins
  rw [Act.result_bind, Act.after_bind, Act.result_bind, Act.after_bind, same]
  exact later _ _ _ between

/-- Both computations begin by looking at their worlds. -/
theorem get {next : World σ → Act σ α} {nextTwin : World τ → Act τ α}
    (later : ∀ one other, kin.Twins one other →
      (next one).Mirrors kin (nextTwin other)) :
    (MonadState.get >>= next : Act σ α).Mirrors kin
      (MonadState.get >>= nextTwin : Act τ α) := by
  intro one other twins
  exact later one other twins one other twins

theorem keeping {frame : Frame} {action : Act σ α} {twin : Act τ α}
    (inner : action.Mirrors kin twin) :
    (LiveTemplate.keeping frame action).Mirrors kin
      (LiveTemplate.keeping frame twin) := by
  intro one other twins
  obtain ⟨same, later⟩ := inner _ _ (twins.holding (frame :: one.frames))
  rw [result_keeping, after_keeping, result_keeping, after_keeping,
    ← twins.frames]
  exact ⟨same, later.holding one.frames⟩

theorem forM {items : List α} {body : α → Act σ Unit} {twin : α → Act τ Unit}
    (each : ∀ item ∈ items, (body item).Mirrors kin (twin item)) :
    (items.forM body).Mirrors kin (items.forM twin) := by
  induction items with
  | nil => exact pure ()
  | cons item rest ih =>
      exact bind (each item (.head _)) fun _ =>
        ih fun later member => each later (.tail _ member)

theorem mapM {items : List α} {body : α → Act σ β} {twin : α → Act τ β}
    (each : ∀ item, (body item).Mirrors kin (twin item)) :
    (items.mapM body).Mirrors kin (items.mapM twin) := by
  induction items with
  | nil => exact pure []
  | cons item rest ih =>
      rw [List.mapM_cons, List.mapM_cons]
      exact bind (each item) fun _ => bind ih fun _ => pure _

end Act.Mirrors

/-- A computation does what another one does in a world without templates and
clients. -/
structure Act.IsShared (shared : Act Unit α) (action : Act σ α) : Prop where
  result : ∀ world, action.result world = shared.result world.rest
  rest : ∀ world, (action.after world).rest = shared.after world.rest
  templates : ∀ world, (action.after world).templates = world.templates
  views : ∀ world v,
    ((action.after world).view v).template = (world.view v).template
  client : ∀ world, (action.after world).client = world.client

namespace Act.IsShared

theorem mirrors {kin : Kinship σ τ} {shared : Act Unit α} {action : Act σ α}
    {twin : Act τ α} (first : shared.IsShared action)
    (second : shared.IsShared twin) : action.Mirrors kin twin := by
  intro one other twins
  refine ⟨?_, twins.step shared.after (first.rest one) (second.rest other)
    (first.templates one) (second.templates other) (first.views one)
    (first.client one) (second.client other)⟩
  rw [first.result, second.result, twins.rest]

theorem pure (a : α) :
    IsShared (Pure.pure a : Act Unit α) (Pure.pure a : Act σ α) := by
  exact ⟨fun _ => rfl, fun _ => rfl, fun _ => rfl, fun _ _ => rfl, fun _ => rfl⟩

theorem bind {shared : Act Unit α} {action : Act σ α} {next : α → Act Unit β}
    {then' : α → Act σ β} (first : shared.IsShared action)
    (later : ∀ a, (next a).IsShared (then' a)) :
    (shared >>= next).IsShared (action >>= then') where
  result world := by
    rw [Act.result_bind, Act.result_bind, first.result, (later _).result,
      first.rest]
  rest world := by
    rw [Act.after_bind, Act.after_bind, first.result, (later _).rest,
      first.rest]
  templates world := by
    rw [Act.after_bind, (later _).templates, first.templates]
  views world v := by
    rw [Act.after_bind, (later _).views, first.views]
  client world := by
    rw [Act.after_bind, (later _).client, first.client]

theorem get {next : World Unit → Act Unit α} {then' : World σ → Act σ α}
    (later : ∀ world : World σ, (next world.rest).IsShared (then' world)) :
    (MonadState.get >>= next : Act Unit α).IsShared
      (MonadState.get >>= then' : Act σ α) where
  result world := (later world).result world
  rest world := (later world).rest world
  templates world := (later world).templates world
  views world := (later world).views world
  client world := (later world).client world

theorem forM {items : List α} {shared : α → Act Unit Unit}
    {body : α → Act σ Unit}
    (each : ∀ item, (shared item).IsShared (body item)) :
    (items.forM shared).IsShared (items.forM body) := by
  induction items with
  | nil => exact pure ()
  | cons item rest ih => exact bind (each item) fun _ => ih

theorem modifyDom (change : Dom → Dom) :
    IsShared (LiveTemplate.modifyDom change)
      (LiveTemplate.modifyDom change : Act σ Unit) := by
  exact ⟨fun _ => rfl, fun _ => rfl, fun _ => rfl, fun _ _ => rfl, fun _ => rfl⟩

theorem createNode (kind : NodeKind) :
    IsShared (LiveTemplate.createNode kind)
      (LiveTemplate.createNode kind : Act σ NodeId) := by
  exact ⟨fun _ => rfl, fun _ => rfl, fun _ => rfl, fun _ _ => rfl, fun _ => rfl⟩

theorem listenToObservable (e : EmitterId) (o : ObservableId) (event : String)
    (reaction : Reaction) :
    IsShared (Emitter.listenToObservable e o event reaction)
      (Emitter.listenToObservable e o event reaction : Act σ RevokerId) := by
  exact ⟨fun _ => rfl, fun _ => rfl, fun _ => rfl, fun _ _ => rfl, fun _ => rfl⟩

theorem listenToNode (e : EmitterId) (n : NodeId) (type : String)
    (action : EventAction) :
    IsShared (Emitter.listenToNode e n type action)
      (Emitter.listenToNode e n type action : Act σ RevokerId) := by
  exact ⟨fun _ => rfl, fun _ => rfl, fun _ => rfl, fun _ _ => rfl, fun _ => rfl⟩

theorem store (o : ObservableId) (name : String) (value : Value) :
    IsShared (Observable.store o name value)
      (Observable.store o name value : Act σ Unit) := by
  exact ⟨fun _ => rfl, fun _ => rfl, fun _ => rfl, fun _ _ => rfl, fun _ => rfl⟩

theorem setParent (c : CollectionId) (parent : NodeId)
    (anchor : Option NodeId) :
    IsShared (Collection.setParent c parent anchor)
      (Collection.setParent c parent anchor : Act σ Unit) := by
  exact ⟨fun _ => rfl, fun _ => rfl, fun _ => rfl, fun _ _ => rfl, fun _ => rfl⟩

/-- Subscriptions are given up in the same way everywhere. -/
theorem revoke (r : RevokerId) :
    IsShared (Revoker.revoke r) (Revoker.revoke r : Act σ Unit) := by
  refine get fun world => ?_
  have held : world.rest.subscription? r = world.subscription? r := rfl
  rw [held]
  cases world.subscription? r with
  | none => exact pure ()
  | some subscription =>
      obtain ⟨source, listener⟩ := subscription
      cases source <;>
        exact ⟨fun _ => rfl, fun _ => rfl, fun _ => rfl, fun _ _ => rfl,
          fun _ => rfl⟩

end Act.IsShared

mutual

/-- Whatever is on record is given up in the same way everywhere. -/
theorem Record.isShared_revokeAll (record : Record) :
    Act.IsShared record.revokeAll (record.revokeAll : Act σ Unit) := by
  obtain ⟨text, attributes, bindings, children⟩ := record
  rw [revokeAll, revokeAll]
  exact .bind (.forM fun _ => .forM .revoke) fun _ =>
    isShared_revokeEach children

theorem Record.isShared_revokeEach (records : List Record) :
    Act.IsShared (revokeEach records) (revokeEach records : Act σ Unit) := by
  cases records with
  | nil =>
      rw [revokeEach, revokeEach]
      exact .pure ()
  | cons record rest =>
      rw [revokeEach, revokeEach]
      exact .bind (isShared_revokeAll record) fun _ => isShared_revokeEach rest

end

mutual

theorem Record.isShared_restore (n : NodeId) (record : Record) :
    Act.IsShared (record.restore n) (record.restore n : Act σ Unit) := by
  obtain ⟨text, attributes, bindings, children⟩ := record
  cases text with
  | some data =>
      rw [restore, restore]
      exact .bind (.forM fun _ => .forM .revoke) fun _ => .modifyDom _
  | none =>
      rw [restore, restore]
      exact .bind (.forM fun _ => .forM .revoke) fun _ =>
        .bind (.forM fun _ => .modifyDom _) fun _ =>
          isShared_restoreEach n 0 children

theorem Record.isShared_restoreEach (n : NodeId) (index : Nat)
    (records : List Record) :
    Act.IsShared (restoreEach n index records)
      (restoreEach n index records : Act σ Unit) := by
  cases records with
  | nil =>
      rw [restoreEach, restoreEach]
      exact .pure ()
  | cons record rest =>
      rw [restoreEach, restoreEach]
      refine .get fun world => ?_
      have same : world.rest.dom = world.dom := rfl
      rw [same]
      cases (world.dom.children n)[index]? with
      | some child =>
          exact .bind (isShared_restore child record) fun _ =>
            isShared_restoreEach n (index + 1) rest
      | none =>
          exact .bind (isShared_revokeAll record) fun _ =>
            isShared_restoreEach n (index + 1) rest

end

namespace Mount

theorem isShared_push (mount : Mount) (child : NodeId) :
    Act.IsShared (mount.push child) (mount.push child : Act σ Mount) := by
  exact .bind (.modifyDom _) fun _ => .pure _

theorem isShared_finish (mount : Mount) (parent : NodeId) :
    Act.IsShared (mount.finish parent) (mount.finish parent : Act σ Unit) := by
  exact .bind (.modifyDom _) fun _ => .forM fun _ => .setParent _ _ _

end Mount

/-- Two passes do the same in twin worlds. -/
def Pass.Mirrors (kin : Kinship σ τ) (pass : Pass σ α) (twin : Pass τ α) :
    Prop :=
  ∀ record, (pass.start record).Mirrors kin (twin.start record)

namespace Pass.Mirrors

variable {kin : Kinship σ τ}

theorem pure (a : α) :
    (Pure.pure a : Pass σ α).Mirrors kin (Pure.pure a : Pass τ α) := by
  intro _
  exact .pure _

theorem throw (error : TemplateError) :
    (MonadExcept.throw error : Pass σ α).Mirrors kin
      (MonadExcept.throw error : Pass τ α) := by
  intro _
  exact .pure _

theorem ofExcept (outcome : Except TemplateError α) :
    (Pass.ofExcept outcome : Pass σ α).Mirrors kin
      (Pass.ofExcept outcome : Pass τ α) := by
  intro _
  exact .pure _

theorem note (change : Record → Record) :
    (Pass.note change : Pass σ Unit).Mirrors kin
      (Pass.note change : Pass τ Unit) := by
  intro _
  exact .pure _

theorem act {action : Act σ α} {twin : Act τ α}
    (mirrors : action.Mirrors kin twin) :
    (Pass.act action).Mirrors kin (Pass.act twin) := by
  intro record one other twins
  obtain ⟨same, later⟩ := mirrors one other twins
  exact ⟨congrArg (fun a => (Except.ok a, record)) same, later⟩

theorem shared {shared : Act Unit α} {action : Act σ α} {twin : Act τ α}
    (first : shared.IsShared action) (second : shared.IsShared twin) :
    (Pass.act action).Mirrors kin (Pass.act twin) :=
  act (first.mirrors second)

theorem bind {pass : Pass σ α} {twin : Pass τ α} {next : α → Pass σ β}
    {nextTwin : α → Pass τ β} (first : pass.Mirrors kin twin)
    (later : ∀ a, (next a).Mirrors kin (nextTwin a)) :
    (pass >>= next).Mirrors kin (twin >>= nextTwin) := by
  intro record
  rw [Pass.start_bind, Pass.start_bind]
  refine .bind (first record) ?_
  rintro ⟨error | a, recorded⟩
  · exact .pure _
  · exact later a recorded

theorem get {next : World σ → Pass σ α} {nextTwin : World τ → Pass τ α}
    (later : ∀ one other, kin.Twins one other →
      (next one).Mirrors kin (nextTwin other)) :
    (Pass.act MonadState.get >>= next).Mirrors kin
      (Pass.act MonadState.get >>= nextTwin) := by
  intro record one other twins
  exact later one other twins record one other twins

theorem keeping {refs : List Ref} {pass : Pass σ α} {twin : Pass τ α}
    (inner : pass.Mirrors kin twin) :
    (Pass.keeping refs pass).Mirrors kin (Pass.keeping refs twin) := by
  intro record
  rw [Pass.start_keeping, Pass.start_keeping]
  exact .keeping (inner record)

theorem forM {items : List α} {body : α → Pass σ Unit} {twin : α → Pass τ Unit}
    (each : ∀ item, (body item).Mirrors kin (twin item)) :
    (items.forM body).Mirrors kin (items.forM twin) := by
  induction items with
  | nil => exact pure ()
  | cons item rest ih => exact bind (each item) fun _ => ih

theorem forM₂ {relation : α → α → Prop} {items others : List α}
    {body : α → Pass σ Unit} {twin : α → Pass τ Unit}
    (paired : List.Forall₂ relation items others)
    (each : ∀ item other, relation item other →
      (body item).Mirrors kin (twin other)) :
    (items.forM body).Mirrors kin (others.forM twin) := by
  induction paired with
  | nil => exact pure ()
  | cons first _ ih => exact bind (each _ _ first) fun _ => ih

end Pass.Mirrors

end LiveTemplate
