import LiveTemplate.Template.Extend
import LiveTemplate.Template.Render

/-!
# Views

A view is a component with its own state, emitter and template.  It is rendered
when it is first mounted, by a template or by a collection, and destroys what
is below it.

Views nest through their templates and collections.  How many there are of both
bounds how deep views can be nested, unless a view is inside itself, which is
an error.
-/

namespace LiveTemplate

variable {σ : Type}

namespace View

def update (v : ViewId) (change : View → View) : Act σ Unit :=
  modify fun world =>
    { world with views := world.views.modify v.index change }

/-- A view with the given state. -/
def create (state : ObservableId) : Act σ ViewId := do
  let emitter ← Emitter.create
  modifyGet fun world =>
    let (index, views) :=
      world.views.alloc ⟨state, emitter, none, none, false, []⟩
    (⟨index⟩, { world with views := views })

/-- Make a template; it becomes that of the view unless the view has been
rendered. -/
def setTemplate (v : ViewId) (definition : Definition) : Act σ TemplateId := do
  let t ← Template.create definition
  if !((← get).view v).rendered then
    update v fun view => { view with template := some t }
  return t

/-- A collection that is destroyed together with a view. -/
def createCollection (v : ViewId) : Act σ CollectionId := do
  let c ← Collection.create
  update v fun view => { view with collections := view.collections ++ [c] }
  return c

/-- The element of a view, given how a view is rendered. -/
def mountWith (render : ViewId → Act σ (Except TemplateError Unit))
    (v : ViewId) : Act σ (Except TemplateError NodeId) := do
  let outcome ←
    if ((← get).view v).rendered then pure (.ok ()) else render v
  match outcome with
  | .error error => return .error error
  | .ok () =>
      match ((← get).view v).element with
      | some element => return .ok element
      | none => return .error .componentNotRendered

/-- Render a view with at most `fuel` views inside each other. -/
def renderWithin (host : Host σ) :
    Nat → ViewId → Act σ (Except TemplateError Unit)
  | 0, _ => return .error .cyclicNesting
  | fuel + 1, v => do
      let view := (← get).view v
      if view.rendered then return .error .alreadyRendered
      match view.template with
      | none =>
          update v fun view => { view with rendered := true }
          return .ok ()
      | some t =>
          let mounter := mountWith (renderWithin host fuel)
          let outcome ← keeping (.refs [.view v])
            (Template.renderWith host mounter t)
          match outcome with
          | .error error => return .error error
          | .ok element =>
              update v fun view =>
                { view with element := some element, rendered := true }
              return .ok ()

/-- How many more views handlers may put inside each other on the way. -/
def spareDepth : Nat := 1000

/-- How many views can be inside each other.  A path of views enters each
collection once, and between two of them it meets every view once. -/
def depthBound (world : World σ) : Nat :=
  (world.views.size + 1) * (world.collections.size + 1) + spareDepth

def render (host : Host σ) (v : ViewId) : Act σ (Except TemplateError Unit) := do
  renderWithin host (depthBound (← get)) v

/-- The element of a view, which is rendered first if need be. -/
def mount (host : Host σ) (v : ViewId) :
    Act σ (Except TemplateError NodeId) :=
  mountWith (render host) v

def describe (world : World σ) (view : View) : String :=
  let element :=
    match view.element with
    | some n => "Some(" ++ world.dom.describe n ++ ")"
    | none => "None"
  "View \x7b element: " ++ element ++ ", rendered: " ++
    (if view.rendered then "true" else "false") ++ ", emitter: " ++
    Emitter.describe world view.emitter ++ " \x7d"

end View

/-- Build a fresh tree. -/
def Template.render (host : Host σ) (t : TemplateId) :
    Act σ (Except TemplateError NodeId) :=
  Template.renderWith host (View.mount host) t

namespace Collection

/-- Insert a view at a place, or at the end if the place is beyond it. -/
def addAt (host : Host σ) (c : CollectionId) (index : Nat) (v : ViewId) :
    Act σ (Except TemplateError Unit) := do
  let index := min index ((← get).collection c).members.length
  let outcome ← keeping (.refs [.collection c, .view v]) (View.mount host v)
  match outcome with
  | .error error => return .error error
  | .ok element =>
      update c fun collection =>
        { collection with members := collection.members.insertIdx index v }
      let world ← get
      let collection := world.collection c
      match collection.parent with
      | some parent =>
          let reference := referenceFor world collection index parent
          modifyDom fun dom => dom.insertBefore parent element reference
      | none => pure ()
      return .ok ()

def add (host : Host σ) (c : CollectionId) (v : ViewId) :
    Act σ (Except TemplateError Unit) := do
  addAt host c ((← get).collection c).members.length v

end Collection

namespace View

/-- Destroy a view with at most `fuel` views inside each other: its emitter,
then its collections, then the views in its template. -/
def destroyWithin (host : Host σ) : Nat → ViewId → Act σ Unit
  | 0, _ => return ()
  | fuel + 1, v => keeping (.refs [.view v]) do
      Emitter.destroy host ((← get).view v).emitter
      let owned := ((← get).view v).collections
      update v fun view => { view with collections := [] }
      keepingEach .collection
        (Collection.destroyWith (destroyWithin host fuel)) owned
      let world ← get
      match (world.view v).template with
      | some t =>
          keeping (.refs [.template t])
            (keepingEach .view (destroyWithin host fuel)
              (Template.views world t))
      | none => pure ()

def destroy (host : Host σ) (v : ViewId) : Act σ Unit := do
  destroyWithin host (depthBound (← get)) v

end View

/-- Destroy all members of a collection and forget its parent. -/
def Collection.destroy (host : Host σ) (c : CollectionId) : Act σ Unit :=
  Collection.destroyWith (View.destroy host) c

end LiveTemplate
