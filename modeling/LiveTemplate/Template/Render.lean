import LiveTemplate.Collection
import LiveTemplate.Template.Record
import LiveTemplate.Template.Validate

/-!
# Rendering and applying

One pass builds a fresh tree or works on existing nodes.  It keeps a record of
what it does, also when it fails on the way.  Child views are mounted by a
function that the pass is given.
-/

namespace LiveTemplate

open Selector (SelectorList)

variable {σ : Type}

/-- A computation that records what it does and may fail. -/
abbrev Pass (σ : Type) := ExceptT TemplateError (StateT Record (Act σ))

/-- The element of a view, which is rendered first if need be. -/
abbrev Mounter (σ : Type) := ViewId → Act σ (Except TemplateError NodeId)

namespace Pass

def ofExcept {α : Type} (outcome : Except TemplateError α) : Pass σ α :=
  ExceptT.mk (pure outcome)

def act {α : Type} (action : Act σ α) : Pass σ α :=
  liftM action

def note (change : Record → Record) : Pass σ Unit :=
  modifyThe Record change

/-- Remember the subscriptions of one group. -/
def noteGroup (revokers : List RevokerId) : Pass σ Unit :=
  note fun record => { record with bindings := record.bindings ++ [revokers] }

def noteAttribute (saved : SavedAttribute) : Pass σ Unit :=
  note fun record => { record with attributes := record.attributes ++ [saved] }

/-- Hold something for the time of a pass. -/
def keeping {α : Type} (refs : List Ref) (pass : Pass σ α) : Pass σ α :=
  ExceptT.mk fun record =>
    LiveTemplate.keeping (.refs refs) ((ExceptT.run pass).run record)

end Pass

/-- Show the value of a group now and after each change of a bound property. -/
def SyncGroup.bind (host : Host σ) (group : SyncGroup) :
    Act σ (List RevokerId) := do
  group.sync host
  let bindings := group.chunks.filterMap fun chunk =>
    match chunk with
    | .bound binding => some binding
    | _ => none
  bindings.mapM fun binding =>
    Emitter.listenToObservable binding.emitter binding.observable
      (changeOf binding.property) (.sync group)

namespace Blueprint

/-- Keep a slot up to date, or write a value that never changes.  A falsy value
is not written. -/
def renderSlot (host : Host σ) (slot : Slot) (chunks : List Chunk) :
    Pass σ Unit := do
  if chunks.any Chunk.isBound then
    Pass.noteGroup (← Pass.act (SyncGroup.bind host ⟨chunks, slot⟩))
  else
    let value ← Pass.act (evaluate host slot.node chunks)
    if value.isTruthy then
      Pass.act (modifyDom fun dom => slot.set dom value)

/-- The truthy values of fixed chunks, one after the other. -/
def plainText (host : Host σ) (node : NodeId) (chunks : List Chunk) :
    Act σ String := do
  let values ← chunks.mapM (Chunk.evaluate host node)
  return String.join ((values.filter Value.isTruthy).map Value.domString)

def renderText (host : Host σ) (blueprint : Blueprint)
    (target : Option NodeId) : Pass σ NodeId := do
  let node ←
    match target with
    | some node =>
        let data := (← Pass.act get).dom.textContent node
        Pass.note fun record => { record with text := some data }
        pure node
    | none => Pass.act (createNode (.text ""))
  let chunks := flattenChunks (blueprint.text.getD [])
  Pass.keeping [.node node] do
    if chunks.any Chunk.isBound then
      Pass.noteGroup (← Pass.act (SyncGroup.bind host ⟨chunks, .text node⟩))
    else
      let data ← Pass.act (plainText host node chunks)
      Pass.act (modifyDom fun dom => dom.setText node data)
  return node

/-- The attributes whose present value is kept in front. -/
def isExtendable (name : String) : Bool :=
  name == "class" || name == "style"

/-- What stands before the value of an applied template; a present style is
closed first. -/
def keptText (name current : String) : String :=
  let trimmed := trimBlankEnd current
  if name == "style" && !trimmed.isEmpty &&
      trimmed.toList.getLast? != some ';' then
    trimmed ++ ";"
  else current

/-- Each property of a style map is a slot of its own. -/
def renderStyles (host : Host σ) (node : NodeId) (styles : StyleMap) :
    Pass σ Unit :=
  styles.forM fun (property, schema) =>
    renderSlot host (.style node property) (flattenChunks schema)

def renderAttribute (host : Host σ) (node : NodeId) (applying : Bool)
    (name : String) (schema : Schema) : Pass σ Unit := do
  let namespaceName := schema.namespace?
  let chunks := flattenChunks schema
  let current := (← Pass.act get).dom.attributeNs? node namespaceName name
  if applying then
    Pass.noteAttribute ⟨namespaceName, name, current⟩
  let kept : List Chunk :=
    match current with
    | some text =>
        if applying && isExtendable name then
          [.fixed (.text (keptText name text))]
        else []
    | none => []
  renderSlot host (.attr node namespaceName name) (kept ++ chunks)

/-- A style map is rendered property by property, any other attribute as a
whole. -/
def renderEntry (host : Host σ) (blueprint : Blueprint) (node : NodeId)
    (applying : Bool) (name : String) (schema : Schema) : Pass σ Unit :=
  match entryStyles? name schema with
  | some (.error fault) => throw (blueprint.malformed fault)
  | some (.ok styles) => do
      if applying then
        let current := (← Pass.act get).dom.attribute? node "style"
        Pass.noteAttribute ⟨none, name, current⟩
      renderStyles host node styles
  | none => renderAttribute host node applying name schema

def renderAttributes (host : Host σ) (blueprint : Blueprint) (node : NodeId)
    (applying : Bool) : Pass σ Unit :=
  blueprint.attributes.forM fun (name, schema) =>
    renderEntry host blueprint node applying name schema

/-- Install the listeners under every key, in order. -/
def renderListeners (blueprint : Blueprint) (node : NodeId) : Pass σ Unit :=
  blueprint.listeners.forM fun (key, bindings) => do
    let (event, selectors) ← Pass.ofExcept (parseListenerKey key)
    Pass.noteGroup (← Pass.act (bindings.mapM fun binding =>
      Emitter.listenToNode binding.emitter node event
        (.delegate selectors binding)))

end Blueprint

/-- What rendering a nested template comes to, and its record. -/
abbrev Nested (σ : Type) :=
  TemplateId → Option NodeId → DefinitionPath →
    Act σ (Except TemplateError NodeId × Record)

namespace Pass

/-- Render a nested template and keep its record, whatever the outcome. -/
def nest (nested : Nested σ) (t : TemplateId) (target : Option NodeId)
    (path : DefinitionPath) : Pass σ NodeId := do
  let (outcome, child) ← act (nested t target path)
  note fun record => { record with children := record.children ++ [child] }
  ofExcept outcome

end Pass

/-- Fresh children gathered in a fragment, and the collections met so far with
the first node after each. -/
structure Mount where
  fragment : NodeId
  collections : List (CollectionId × Option NodeId)

namespace Mount

def empty (fragment : NodeId) : Mount := ⟨fragment, []⟩

/-- Put a child at the end. -/
def push (mount : Mount) (child : NodeId) : Act σ Mount := do
  modifyDom fun dom => dom.appendChild mount.fragment child
  let collections := mount.collections.map fun (collection, anchor) =>
    (collection, anchor.orElse fun _ => some child)
  return { mount with collections := collections }

/-- The nodes that collections go before. -/
def anchors (mount : Mount) : List Ref :=
  mount.collections.flatMap fun (_, anchor) => anchor.toList.map .node

/-- Put a collection after its members. -/
def addCollection (mount : Mount) (collection : CollectionId) : Mount :=
  { mount with collections := mount.collections ++ [(collection, none)] }

/-- Hand the children to their parent and tell the collections about it. -/
def finish (mount : Mount) (parent : NodeId) : Act σ Unit := do
  modifyDom fun dom => dom.appendChild parent mount.fragment
  mount.collections.forM fun (collection, anchor) =>
    Collection.setParent collection parent anchor

end Mount

namespace Blueprint

/-- Put the elements of views at the end, in order. -/
def mountViews (mounter : Mounter σ) : Mount → List ViewId → Pass σ Mount
  | mount, [] => return mount
  | mount, view :: rest => do
      let element ← Pass.ofExcept (← Pass.act (mounter view))
      let mount ← Pass.act (mount.push element)
      Pass.keeping mount.anchors (mountViews mounter mount rest)

/-- Put one fresh child at the end. -/
def mountMember (mounter : Mounter σ) (nested : Nested σ) (path : DefinitionPath)
    (mount : Mount) : Member → Pass σ Mount
  | .collection collection => do
      let members := ((← Pass.act get).collection collection).members
      let mount ← Pass.keeping (members.map .view)
        (mountViews mounter mount members)
      return mount.addCollection collection
  | .view view => mountViews mounter mount [view]
  | .node node => Pass.act (mount.push node)
  | .template t => do
      let node ← Pass.nest nested t none path
      Pass.act (mount.push node)

/-- Gather fresh children from the given place on. -/
def mountMembers (mounter : Mounter σ) (nested : Nested σ) (path : DefinitionPath) :
    Nat → Mount → List Member → Pass σ Mount
  | _, mount, [] => return mount
  | index, mount, member :: rest => do
      let mount ←
        mountMember mounter nested (path ++ [index]) mount member
      Pass.keeping mount.anchors
        (mountMembers mounter nested path (index + 1) mount rest)

/-- Apply nested templates to the children of a node.  The places of the
definition and of the node are counted separately, as collections have no node
of their own. -/
def applyMembers (blueprint : Blueprint) (nested : Nested σ) (node : NodeId)
    (path : DefinitionPath) : Nat → Nat → List Member → Pass σ Unit
  | _, _, [] => return ()
  | index, place, .template t :: rest => do
      let children := (← Pass.act get).dom.children node
      match children[place]? with
      | some child =>
          let _ ← Pass.nest nested t (some child) (path ++ [index])
          applyMembers blueprint nested node path (index + 1) (place + 1) rest
      | none =>
          throw (.childrenMismatch path blueprint.templateCount
            children.length)
  | index, place, .collection _ :: rest =>
      applyMembers blueprint nested node path (index + 1) place rest
  | index, _, .view _ :: _ =>
      throw (.unsupportedApplyChild (path ++ [index]) .component)
  | index, _, .node _ :: _ =>
      throw (.unsupportedApplyChild (path ++ [index]) .rawNode)

/-- Gather fresh children and hand them to their parent. -/
def renderMembers (mounter : Mounter σ) (nested : Nested σ)
    (members : List Member) (parent : NodeId) (path : DefinitionPath) :
    Pass σ Unit := do
  if !members.isEmpty then
    let fragment ← Pass.act (createNode .fragment)
    Pass.keeping [.node fragment] do
      let mount ← mountMembers mounter nested path 0 (.empty fragment) members
      Pass.act (mount.finish parent)

def renderElement (host : Host σ) (mounter : Mounter σ) (nested : Nested σ)
    (blueprint : Blueprint) (target : Option NodeId) (path : DefinitionPath) :
    Pass σ NodeId := do
  let node ←
    match target, blueprint.tag with
    | some node, _ => pure node
    | none, some tag =>
        Pass.act (createNode (.element
          (blueprint.namespaceName.getD Selector.htmlNamespace) tag []))
    | none, none => throw (blueprint.malformed .shape)
  Pass.keeping [.node node] do
    blueprint.renderAttributes host node target.isSome
    if target.isSome then
      blueprint.applyMembers nested node path 0 0 blueprint.children
    else
      renderMembers mounter nested blueprint.children node path
    blueprint.renderListeners node
  return node

end Blueprint

namespace Template

def update (t : TemplateId) (change : Template → Template) : Act σ Unit :=
  modify fun world =>
    { world with templates := world.templates.modify t.index change }

/-- Render a template into a fresh node, or onto a target. -/
def pass (host : Host σ) (mounter : Mounter σ) (nested : Nested σ)
    (t : TemplateId) (target : Option NodeId) (path : DefinitionPath) :
    Pass σ NodeId := do
  let template := (← Pass.act get).template t
  if target.isNone && template.rendered then throw .alreadyRendered
  let blueprint := template.blueprint
  let node ←
    if blueprint.text.isSome then blueprint.renderText host target
    else blueprint.renderElement host mounter nested target path
  if target.isNone then
    Pass.act (update t fun template => { template with rendered := true })
  return node

/-- Render at most `fuel` levels of nested templates. -/
def passWithin (host : Host σ) (mounter : Mounter σ) : Nat → Nested σ
  | 0, _, _, _ => return (.error .cyclicNesting, .empty)
  | fuel + 1, t, target, path =>
      (pass host mounter (passWithin host mounter fuel) t target path).run.run
        .empty

/-- Build a fresh tree, given how views are mounted.  When that fails all
subscriptions made on the way are given up. -/
def renderWith (host : Host σ) (mounter : Mounter σ) (t : TemplateId) :
    Act σ (Except TemplateError NodeId) := do
  if ((← get).template t).rendered then return .error .alreadyRendered
  match checkFresh (← get) t with
  | .error error => return .error error
  | .ok () =>
      let result ← keeping (.refs [.template t])
        (passWithin host mounter (t.index + 1) t none [])
      match result with
      | (.ok node, _) => return .ok node
      | (.error error, record) =>
          record.revokeAll
          return .error error

/-- Work a template into an existing node and remember how to undo it. -/
def apply (host : Host σ) (t : TemplateId) (n : NodeId) :
    Act σ (Except TemplateError NodeId) := do
  if ((← get).template t).applied.isSome then return .error .alreadyApplied
  match checkApply (← get) t n with
  | .error error => return .error error
  | .ok () =>
      let noViews : Mounter σ := fun _ => return .error .componentNotRendered
      let result ← keeping (.refs [.template t])
        (passWithin host noViews (t.index + 1) t (some n) [])
      match result with
      | (.ok _, record) =>
          update t fun template => { template with applied := some (n, record) }
          return .ok n
      | (.error error, record) =>
          record.restore n
          return .error error

/-- Undo `apply` on the same node. -/
def revert (t : TemplateId) (n : NodeId) :
    Act σ (Except TemplateError Unit) := do
  match ((← get).template t).applied with
  | some (node, record) =>
      if node = n then
        update t fun template => { template with applied := none }
        record.restore n
        return .ok ()
      else return .error .revertWithoutApply
  | none => return .error .revertWithoutApply

def describe (template : Template) : String :=
  let flag (value : Bool) : String := if value then "true" else "false"
  "Template \x7b definition: " ++ quoted template.blueprint.summary ++
    ", rendered: " ++ flag template.rendered ++ ", applied: " ++
    flag template.applied.isSome ++ " \x7d"

end Template

end LiveTemplate
