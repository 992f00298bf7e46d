import LiveTemplate.Dom.Tree
import LiveTemplate.World

/-!
# What holds trees together

A node is there as long as something holds it: a client, a computation under
way, a live subscription, or a node, view, template, collection or emitter that
is there itself.  A node holds its children but not its parent, so that the
trees nobody holds fall apart into those of their parts that something holds.
Things that hold each other in a ring stay.

The document keeps its links.  `World.liveDom` is the document without the
links to nodes that are not there any more; only whoever looks from a node at
what is above or beside it can tell the two apart.
-/

namespace LiveTemplate

variable {σ : Type}

/-- The nodes that an event mentions. -/
def DomEvent.refs (event : DomEvent) : List Ref :=
  event.target.toList.map .node ++ event.current.toList.map .node

mutual

/-- The emitters of the bindings in a chunk. -/
def Chunk.emitters : Chunk → List Ref
  | .fixed _ => []
  | .bound binding => [.emitter binding.emitter]
  | .namespaced _ chunks => emittersAny chunks
  | .styles properties => emittersEntries properties

def emittersAny : List Chunk → List Ref
  | [] => []
  | chunk :: chunks => chunk.emitters ++ emittersAny chunks

def emittersEntry : String × List Chunk → List Ref
  | (_, chunks) => emittersAny chunks

def emittersEntries : List (String × List Chunk) → List Ref
  | [] => []
  | entry :: entries => emittersEntry entry ++ emittersEntries entries

end

def Member.ref : Member → Ref
  | .template t => .template t
  | .view v => .view v
  | .collection c => .collection c
  | .node n => .node n

/-- What a blueprint holds. -/
def Blueprint.refs (blueprint : Blueprint) : List Ref :=
  emittersAny (blueprint.text.getD []) ++
    blueprint.attributes.flatMap (fun (_, schema) => emittersAny schema) ++
    blueprint.listeners.flatMap (fun (_, bindings) =>
      bindings.map fun binding => .emitter binding.emitter) ++
    blueprint.children.map Member.ref

/-- The node that a listener of an observable writes to. -/
def Reaction.target : Reaction → List Ref
  | .sync group => [.node group.slot.node]
  | .call _ => []

/-- What a listener of an observable holds. -/
def Reaction.refs : Reaction → List Ref
  | .sync group => .node group.slot.node :: emittersAny group.chunks
  | .call _ => []

/-- What a frame holds, given what a listener holds. -/
def Frame.held (ofReaction : Reaction → List Ref) : Frame → List Ref
  | .refs held => held
  | .listeners waiting =>
      waiting.flatMap fun listener => ofReaction listener.action

namespace World

/-- The node that a subscription listens to, unless it was given up. -/
def sourceOf (world : World σ) (r : RevokerId) : List Ref :=
  match world.subscription? r with
  | some ⟨.node n, _⟩ => [.node n]
  | _ => []

/-- What something holds, apart from the children of nodes. -/
def references (world : World σ) : Ref → List Ref
  | .node _ => []
  | .emitter e => (world.emitter e).subscriptions.flatMap world.sourceOf
  | .revoker r => world.sourceOf r
  | .template t =>
      let template := world.template t
      template.blueprint.refs ++
        template.applied.toList.map (fun (node, _) => .node node)
  | .view v =>
      let view := world.view v
      .emitter view.emitter :: view.template.toList.map .template ++
        view.element.toList.map .node ++ view.collections.map .collection
  | .collection c =>
      let collection := world.collection c
      collection.members.map .view ++ collection.parent.toList.map .node ++
        collection.anchor.toList.map .node

/-- What is held in the first place, given what the client and a listener
hold.  A group is bound to the observables it listens to, so its listeners stay
until they are revoked. -/
def roots (world : World σ) (ofReaction : Reaction → List Ref)
    (kept : List Ref) : List Ref :=
  kept ++ world.frames.flatMap (Frame.held ofReaction) ++
    world.reactions.values.flatMap fun listeners =>
      listeners.entries.flatMap fun listener => ofReaction listener.action

/-- Some of what is there, soon found. -/
def near (world : World σ) (kept : List Ref) : List Ref :=
  world.roots Reaction.target kept ++ kept.flatMap world.references

/-- What can be reached from some things in at most `fuel` steps, beside what
has been seen before. -/
def reachWithin (world : World σ) : Nat → List Ref → List Ref → List Ref
  | 0, _, seen => seen
  | fuel + 1, found, seen =>
      let next := ((found.flatMap world.references).filter fun ref =>
        !seen.contains ref).eraseDups
      if next.isEmpty then seen
      else world.reachWithin fuel next (seen ++ next)

/-- Some things and all that can be reached from them.  No shortest path passes
anything twice. -/
def reach (world : World σ) (found : List Ref) : List Ref :=
  world.reachWithin
    (world.emitters.size + world.revokers.size + world.templates.size +
      world.views.size + world.collections.size + 1) found found

/-- Whether a view holds itself. -/
def isRing (world : World σ) (v : ViewId) : Bool :=
  (world.reach (world.references (.view v))).contains (.view v)

/-- All that is there, apart from the children of nodes: what is held in the
first place, rings of views, and what can be reached from these. -/
def standing (world : World σ) (kept : List Ref) : List Ref :=
  let held := world.reach (world.roots Reaction.refs kept).eraseDups
  let rings := ((List.range world.views.size).map ViewId.mk).filter fun v =>
    !held.contains (.view v) && world.isRing v
  world.reach (held ++ rings.map .view)

end World

namespace Dom

/-- For each node whether it is among some things. -/
def marks (dom : Dom) (refs : List Ref) : Array Bool :=
  refs.foldl
    (fun marks ref =>
      match ref with
      | .node n => marks.setIfInBounds n.index true
      | _ => marks)
    (Array.replicate dom.nodes.size false)

def isMarked (marks : Array Bool) (n : NodeId) : Bool :=
  marks[n.index]?.getD false

/-- The tops of the trees that nothing marked holds together. -/
def looseTrees (dom : Dom) (marks : Array Bool) : List NodeId :=
  ((List.range dom.nodes.size).map NodeId.mk).filter fun n =>
    (dom.parent? n).isNone && !(dom.children n).isEmpty && !isMarked marks n

/-- Take children out of unmarked nodes, tops first, for at most `fuel`
nodes. -/
def dissolveWithin (marks : Array Bool) : Nat → List NodeId → Dom → Dom
  | 0, _, dom => dom
  | _ + 1, [], dom => dom
  | fuel + 1, n :: rest, dom =>
      if isMarked marks n then dissolveWithin marks fuel rest dom
      else
        dissolveWithin marks fuel (dom.children n ++ rest)
          (dom.clearChildren n)

/-- Take the trees apart that nothing marked holds together. -/
def dissolve (dom : Dom) (marks : Array Bool) : Dom :=
  dissolveWithin marks dom.nodes.size (dom.looseTrees marks) dom

end Dom

/-- The document without the links to nodes that are not there any more, given
what the client holds.  Mostly what is near holds all trees together. -/
def World.liveDom (world : World σ) (kept : List Ref) : Dom :=
  let dom := world.dom
  if (dom.looseTrees (dom.marks (world.near kept))).isEmpty then dom
  else dom.dissolve (dom.marks (world.standing kept))

/-- The document as it presents itself to a client. -/
def Host.liveDom (host : Host σ) (world : World σ) : Dom :=
  world.liveDom (host.keeps world.client)

end LiveTemplate
