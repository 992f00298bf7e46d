import LiveTemplate.Listeners
import LiveTemplate.Selector.Basic
import LiveTemplate.Store
import LiveTemplate.Template.Definition

/-!
# The world

Everything that changes: the document, observables with their listeners, the
listeners on nodes, emitters and the subscriptions they own, templates, views
and collections.  Beside it the world holds whatever state a client keeps for
its own code.

The code of a client is known to the library only as handlers.  A `Host` says
what running one does; it may do anything to the world, in particular call the
library again.
-/

namespace LiveTemplate

/-- Where a group of bindings writes its value. -/
inductive Slot where
  | text (node : NodeId)
  | attr (node : NodeId) (namespaceName : Option String) (name : String)
  | style (node : NodeId) (property : String)
  deriving DecidableEq, Repr

/-- The node a slot belongs to. -/
def Slot.node : Slot → NodeId
  | text node => node
  | attr node _ _ => node
  | style node _ => node

/-- The chunks whose joined value is kept up to date in one slot. -/
structure SyncGroup where
  chunks : List Chunk
  slot : Slot

/-- What a listener of an observable does. -/
inductive Reaction where
  | sync (group : SyncGroup)
  | call (handler : Handler)

/-- What a listener of a node does; a template's listener may require its
target to match a selector. -/
inductive EventAction where
  | call (handler : Handler)
  | delegate (selectors : Option Selector.SelectorList)
      (binding : ListenerBinding)

inductive Source where
  | observable (observable : ObservableId)
  | node (node : NodeId)
  deriving DecidableEq, Repr

/-- One listener of one source. -/
structure Subscription where
  source : Source
  listener : ListenerId
  deriving DecidableEq, Repr

/-- The subscriptions that one owner can give up together, and the handlers to
run before it does. -/
structure Emitter where
  subscriptions : List RevokerId
  hooks : List Handler
  deriving DecidableEq, Repr, Inhabited

/-- An attribute before a template was applied. -/
structure SavedAttribute where
  namespaceName : Option String
  name : String
  value : Option String
  deriving DecidableEq, Repr

/-- What rendering or applying did to one node and to the nodes below it. -/
structure Record where
  text : Option String
  attributes : List SavedAttribute
  bindings : List (List RevokerId)
  children : List Record

instance : Inhabited Record := ⟨⟨none, [], [], []⟩⟩

structure Template where
  blueprint : Blueprint
  rendered : Bool
  applied : Option (NodeId × Record)

instance : Inhabited Template := ⟨⟨.none, false, none⟩⟩

structure View where
  state : ObservableId
  emitter : EmitterId
  template : Option TemplateId
  element : Option NodeId
  rendered : Bool
  collections : List CollectionId
  deriving DecidableEq, Repr, Inhabited

structure Collection where
  members : List ViewId
  parent : Option NodeId
  anchor : Option NodeId
  deriving DecidableEq, Repr, Inhabited

/-- Something that can be held by what holds nodes, or a node. -/
inductive Ref where
  | node (node : NodeId)
  | emitter (emitter : EmitterId)
  | revoker (revoker : RevokerId)
  | template (template : TemplateId)
  | view (view : ViewId)
  | collection (collection : CollectionId)
  deriving DecidableEq, Repr

/-- What a computation under way holds: things, or listeners it has yet to
call. -/
inductive Frame where
  | refs (refs : List Ref)
  | listeners (listeners : List (Listener Reaction))

/-- Everything there is, and what the computations under way hold, the
innermost one first. -/
structure World (σ : Type) where
  dom : Dom
  frames : List Frame
  properties : Store (List (String × Value))
  reactions : Store (Listeners Reaction)
  eventActions : Store (Listeners EventAction)
  emitters : Store Emitter
  revokers : Store (Option Subscription)
  flags : Store Bool
  templates : Store Template
  views : Store View
  collections : Store Collection
  client : σ

/-- A computation that may change the world. -/
abbrev Act (σ : Type) := StateM (World σ)

/-- What the handlers of a client do, and what its state holds. -/
structure Host (σ : Type) where
  keeps : σ → List Ref
  notice : Handler → Notice → Act σ Unit
  event : Handler → DomEvent → Act σ Unit
  transform : Handler → Value → NodeId → Act σ Value
  destroy : Handler → Act σ Unit

namespace World

variable {σ : Type}

/-- The world in which nothing has been made yet. -/
def initial (client : σ) : World σ where
  dom := .empty
  frames := []
  properties := .empty
  reactions := .empty
  eventActions := .empty
  emitters := .empty
  revokers := .empty
  flags := .empty
  templates := .empty
  views := .empty
  collections := .empty
  client := client

def propertiesOf (world : World σ) (o : ObservableId) :
    List (String × Value) :=
  world.properties.get o.index

/-- The value of a property, `undefined` when it was never set. -/
def property (world : World σ) (o : ObservableId) (name : String) : Value :=
  ((world.propertiesOf o).lookup name).getD .undefined

def hasProperty (world : World σ) (o : ObservableId) (name : String) : Bool :=
  ((world.propertiesOf o).lookup name).isSome

def reactionsOf (world : World σ) (o : ObservableId) : Listeners Reaction :=
  world.reactions.get o.index

def eventActionsOf (world : World σ) (n : NodeId) : Listeners EventAction :=
  world.eventActions.get n.index

def emitter (world : World σ) (e : EmitterId) : Emitter :=
  world.emitters.get e.index

/-- The subscription a revoker can still give up. -/
def subscription? (world : World σ) (r : RevokerId) : Option Subscription :=
  world.revokers.get r.index

def isRevoked (world : World σ) (r : RevokerId) : Bool :=
  (world.subscription? r).isNone

def isStopped (world : World σ) (event : DomEvent) : Bool :=
  world.flags.get event.flag.index

def template (world : World σ) (t : TemplateId) : Template :=
  world.templates.get t.index

def view (world : World σ) (v : ViewId) : View :=
  world.views.get v.index

def collection (world : World σ) (c : CollectionId) : Collection :=
  world.collections.get c.index

end World

/-- Hold something for the time of a computation. -/
def keeping {σ α : Type} (frame : Frame) (action : Act σ α) : Act σ α := do
  let frames := (← get).frames
  modify fun world => { world with frames := frame :: frames }
  let result ← action
  modify fun world => { world with frames := frames }
  return result

/-- Do something for each of several things, holding those that have yet to
come. -/
def keepingEach {σ α : Type} (ref : α → Ref) (action : α → Act σ Unit) :
    List α → Act σ Unit
  | [] => pure ()
  | item :: rest => do
      keeping (.refs ((item :: rest).map ref)) (action item)
      keepingEach ref action rest

/-- Change the document. -/
def modifyDom {σ : Type} (change : Dom → Dom) : Act σ Unit :=
  modify fun world => { world with dom := change world.dom }

/-- Make a node that stands alone. -/
def createNode {σ : Type} (kind : NodeKind) : Act σ NodeId :=
  modifyGet fun world =>
    let (n, dom) := world.dom.create kind
    (n, { world with dom := dom })

end LiveTemplate
