import LiveTemplate.Proofs.Composition
import LiveTemplate.Proofs.Grafting
import LiveTemplate.Proofs.Requests

/-!
# What a pass shows at one node

The attributes of an element and the data of a text as functions of the
properties, whether the node is fresh or was there before: an attribute that
is absent has nothing to keep in front.  The subscriptions come in the order
in which the bindings are written.
-/

namespace LiveTemplate

variable {σ : Type}

namespace Attribute

/-- Set one property of the `style` attribute. -/
def setStyle (attributes : List Attribute) (property value : String) :
    List Attribute :=
  let style := (find? attributes "style").getD ""
  set attributes "style" ((Css.Declarations.parse style).set property value).render

/-- Remove one property of the `style` attribute, and the last one with the
attribute. -/
def removeStyle (attributes : List Attribute) (property : String) :
    List Attribute :=
  match find? attributes "style" with
  | none => attributes
  | some style =>
      let declarations := Css.Declarations.parse style
      if declarations.contains property then
        let remaining := declarations.remove property
        if remaining.isEmpty then remove attributes "style"
        else set attributes "style" remaining.render
      else attributes

theorem confined_setStyle (attributes : List Attribute)
    (property value : String) :
    Confined (·.2 = "style") attributes (setStyle attributes property value) :=
  confined_set attributes "style" _

private theorem confined_removeStyle (attributes : List Attribute)
    (property : String) :
    Confined (·.2 = "style") attributes (removeStyle attributes property) := by
  unfold removeStyle
  split
  · exact .refl attributes
  · dsimp only
    split
    · split
      · exact confined_remove attributes "style"
      · exact confined_set attributes "style" _
    · exact .refl attributes

private theorem Confined.mem_of_uncovered
    {covered : Option String × String → Prop}
    {attributes later : List Attribute}
    (confined : Confined covered attributes later) {entry : Attribute}
    (member : entry ∈ later) {name : String} (differs : entry.name ≠ name)
    (within : ∀ key, covered key → key.2 = name) : entry ∈ attributes := by
  have same := confined.filter (fun key => key.2 != name) fun key covers => by
    simp [within key covers]
  have kept : entry ∈ later.filter fun entry => entry.key.2 != name :=
    List.mem_filter.mpr ⟨member, by simpa [key] using differs⟩
  rw [same] at kept
  exact (List.mem_filter.mp kept).1

end Attribute

/-- What showing a value makes of the attributes of the element that a slot
belongs to. -/
def Slot.displayIn (value : Value) (attributes : List Attribute) :
    Slot → List Attribute
  | text _ => attributes
  | attr _ namespaceName name =>
      if value.isFalsy then Attribute.removeNs attributes namespaceName name
      else Attribute.setNs attributes namespaceName name value.domString
  | style _ property =>
      if value.isFalsy then Attribute.removeStyle attributes property
      else Attribute.setStyle attributes property value.domString

theorem Slot.confined_displayIn (slot : Slot) (value : Value)
    (attributes : List Attribute) :
    Attribute.Confined slot.Covers attributes
      (slot.displayIn value attributes) := by
  cases slot with
  | text => exact .refl attributes
  | attr node namespaceName name =>
      rw [displayIn]
      split
      · exact Attribute.confined_removeNs attributes namespaceName name
      · exact Attribute.confined_setNs attributes namespaceName name _
  | style node property =>
      rw [displayIn]
      split
      · exact Attribute.confined_removeStyle attributes property
      · exact Attribute.confined_setStyle attributes property _

namespace Dom

/-- Only the kind of one node may have changed. -/
structure Redrawn (n : NodeId) (kind : NodeKind) (dom later : Dom) : Prop where
  kind : later.kind n = kind
  children : later.children n = dom.children n
  parent? : later.parent? n = dom.parent? n
  others : ∀ other, other ≠ n → later.node other = dom.node other
  size : dom.nodes.size ≤ later.nodes.size

namespace Redrawn

variable {n : NodeId} {kind first second : NodeKind}
  {dom between later : Dom}

theorem of_kind (same : dom.kind n = kind) : Redrawn n kind dom dom := by
  exact ⟨same, rfl, rfl, fun _ _ => rfl, Nat.le_refl _⟩

theorem setKind (dom : Dom) (n : NodeId) (kind : NodeKind) :
    Redrawn n kind dom (dom.setKind n kind) where
  kind := kind_setKind_self dom n kind
  children := children_setKind dom n n kind
  parent? := parent?_setKind dom n n kind
  others _ differs := node_setKind_of_ne dom kind differs
  size := dom.nodes.size_le_put _ _

theorem trans (early : Redrawn n first dom between)
    (late : Redrawn n second between later) : Redrawn n second dom later where
  kind := late.kind
  children := late.children.trans early.children
  parent? := late.parent?.trans early.parent?
  others other differs :=
    (late.others other differs).trans (early.others other differs)
  size := Nat.le_trans early.size late.size

theorem modifyAttributes {namespaceName tag : String}
    {attributes : List Attribute}
    (element : dom.kind n = .element namespaceName tag attributes)
    (change : List Attribute → List Attribute) :
    Redrawn n (.element namespaceName tag (change attributes)) dom
      (dom.modifyAttributes n change) := by
  rw [modifyAttributes_element element]
  exact setKind dom n _

end Redrawn

end Dom

theorem Slot.redrawn_display {dom : Dom} {slot : Slot}
    (proper : slot.IsProper dom) {namespaceName tag : String}
    {attributes : List Attribute}
    (element : dom.kind slot.node = .element namespaceName tag attributes)
    (value : Value) :
    dom.Redrawn slot.node
      (.element namespaceName tag (slot.displayIn value attributes))
      (slot.display dom value) := by
  cases slot with
  | text node =>
      obtain ⟨data, isText⟩ := Dom.isText_iff.mp proper
      rw [Slot.node] at element
      rw [isText] at element
      cases element
  | attr node scope name =>
      rw [Slot.node] at element ⊢
      rw [displayIn]
      unfold display
      split
      · exact .modifyAttributes element _
      · exact .modifyAttributes element _
  | style node property =>
      rw [Slot.node] at element ⊢
      have found : dom.attribute? node "style" =
          Attribute.find? attributes "style" := by
        simp [Dom.attribute?, Dom.attributes, element]
      rw [display_style, displayIn]
      split
      · unfold Dom.removeStyleProperty Attribute.removeStyle
        rw [found]
        cases Attribute.find? attributes "style" with
        | none => exact .of_kind element
        | some style =>
            dsimp only
            split
            · split
              · exact .modifyAttributes element _
              · exact .modifyAttributes element _
            · exact .of_kind element
      · unfold Dom.setStyleProperty Attribute.setStyle
        rw [found]
        exact .modifyAttributes element _

/-- One node was drawn and subscriptions were made. -/
structure World.Draws (n : NodeId) (kind : NodeKind) (requests : List Request)
    (world later : World σ) : Prop where
  dom : world.dom.Redrawn n kind later.dom
  setup : world.SameSetup later
  properties : later.properties = world.properties
  subscribed : world.Subscribed requests later

namespace World.Draws

variable {n : NodeId} {kind first second : NodeKind}
  {requests more : List Request} {world between later : World σ}

theorem of_dom {changed : Dom} (redrawn : world.dom.Redrawn n kind changed) :
    Draws n kind [] world { world with dom := changed } := by
  exact ⟨redrawn, ⟨fun _ => rfl, fun _ => rfl, fun _ => rfl⟩, rfl,
    .of_same rfl rfl rfl⟩

theorem refl (same : world.dom.kind n = kind) :
    Draws n kind [] world world :=
  of_dom (.of_kind same)

theorem trans (early : Draws n first requests world between)
    (late : Draws n second more between later) :
    Draws n second (requests ++ more) world later where
  dom := early.dom.trans late.dom
  setup := early.setup.trans late.setup
  properties := late.properties.trans early.properties
  subscribed := early.subscribed.trans late.subscribed

theorem property (draws : Draws n kind requests world later) :
    later.property = world.property := by
  funext o name
  simp only [World.property, World.propertiesOf, draws.properties]

/-- What is held meanwhile makes no difference. -/
theorem release {frames : List Frame}
    (draws : Draws n kind requests (world.holding frames) later)
    (restored : List Frame) :
    Draws n kind requests world (later.holding restored) := by
  exact ⟨draws.dom, ⟨draws.setup.blueprints, draws.setup.members,
    draws.setup.views⟩, draws.properties, draws.subscribed.release restored⟩

end World.Draws

/-- What a chunk subscribes to. -/
def Chunk.request? : Chunk → Option Request
  | .bound binding =>
      some (.observable binding.observable, changeOf binding.property)
  | _ => none

private theorem Chunk.request?_of_not_bound {chunk : Chunk}
    (fixed : chunk.isBound = false) : chunk.request? = none := by
  cases chunk <;> first | rfl | cases fixed

theorem World.Draws.listening {α : Type} {items : List α}
    {listen : α → Act σ RevokerId} {request : α → Request}
    (each : ∀ item ∈ items, ∀ (world : World σ) n,
      Draws n (world.dom.kind n) [request item] world
        ((listen item).after world)) (world : World σ) (n : NodeId) :
    Draws n (world.dom.kind n) (items.map request) world
      ((items.mapM listen).after world) := by
  induction items generalizing world with
  | nil => exact .refl rfl
  | cons item rest ih =>
      rw [List.mapM_cons]
      have first := each item (.head _) world n
      have later := ih (fun other member => each other (.tail _ member))
        ((listen item).after world)
      rw [first.dom.kind] at later
      exact first.trans later

theorem World.Draws.of_subscribed {n : NodeId} {requests : List Request}
    {world later : World σ} (dom : later.dom = world.dom)
    (setup : world.SameSetup later)
    (properties : later.properties = world.properties)
    (subscribed : world.Subscribed requests later) :
    Draws n (world.dom.kind n) requests world later where
  dom := by
    rw [dom]
    exact .of_kind rfl
  setup := setup
  properties := properties
  subscribed := subscribed

/-- What a group subscribes to. -/
def slotRequests (chunks : List Chunk) : List Request :=
  chunks.filterMap Chunk.request?

theorem slotRequests_of_fixed {chunks : List Chunk}
    (fixed : chunks.any Chunk.isBound = false) : slotRequests chunks = [] := by
  rw [List.any_eq_false] at fixed
  refine List.filterMap_eq_nil_iff.mpr fun chunk member => ?_
  exact Chunk.request?_of_not_bound (Bool.eq_false_iff.mpr (fixed chunk member))

section Meaning

variable {host : Host σ} {meaning : Meaning} {world : World σ}
  {record : Record} {n : NodeId} {chunks : List Chunk}

/-- Every binding in a schema is a function of the properties. -/
def Schema.Means (host : Host σ) (meaning : Meaning) (schema : Schema) : Prop :=
  ∀ chunk ∈ schema, ∀ binding : Binding, binding.Occurs chunk →
    binding.Means host meaning

theorem SyncGroup.draws_bind {group : SyncGroup} {kind : NodeKind}
    (isPure : ∀ binding ∈ inputsAny group.chunks, binding.IsPure host)
    (shown : world.dom.Redrawn group.slot.node kind
      (group.slot.display world.dom
        ((evaluate host group.slot.node group.chunks).result world))) :
    World.Draws group.slot.node kind (slotRequests group.chunks) world
      ((group.bind host).after world) := by
  have synced : World.Draws group.slot.node kind [] world
      ((group.sync host).after world) := by
    unfold sync
    rw [Act.after_bind, after_evaluate group.slot.node world isPure]
    exact .of_dom shown
  have listened (bindings : List Binding) :
      World.Draws group.slot.node
        (((group.sync host).after world).dom.kind group.slot.node)
        (bindings.map fun binding =>
          (.observable binding.observable, changeOf binding.property))
        ((group.sync host).after world)
        ((bindings.mapM fun binding => Emitter.listenToObservable
          binding.emitter binding.observable (changeOf binding.property)
            (.sync group)).after ((group.sync host).after world)) :=
    .listening (fun binding _ world _ => .of_subscribed rfl
      ⟨fun _ => rfl, fun _ => rfl, fun _ => rfl⟩ rfl
      (Emitter.subscribed_listenToObservable _ _ _ _ world)) _ _
  rw [synced.dom.kind] at listened
  have asked : slotRequests group.chunks =
      (group.chunks.filterMap fun chunk =>
        match chunk with
        | .bound binding => some binding
        | _ => none).map fun binding =>
          (.observable binding.observable, changeOf binding.property) := by
    unfold slotRequests
    rw [List.map_filterMap]
    refine List.filterMap_congr fun chunk _ => ?_
    cases chunk <;> rfl
  rw [asked]
  exact synced.trans (listened _)

/-- What a slot makes of the attributes of its element: a falsy value that
never changes is not written. -/
def Slot.drawIn (slot : Slot) (chunks : List Chunk) (value : Value)
    (attributes : List Attribute) : List Attribute :=
  if chunks.any Chunk.isBound || value.isTruthy then
    slot.displayIn value attributes
  else attributes

theorem Slot.confined_drawIn (slot : Slot) (chunks : List Chunk)
    (value : Value) (attributes : List Attribute) :
    Attribute.Confined slot.Covers attributes
      (slot.drawIn chunks value attributes) := by
  unfold drawIn
  split
  · exact slot.confined_displayIn value attributes
  · exact .refl attributes

namespace Schema.Means

variable {schema : Schema}

theorem isPure (means : Means host meaning schema) : IsPure host schema := by
  intro chunk member binding occurs
  exact (means chunk member binding occurs).isPure

theorem inputs (means : Means host meaning schema) :
    ∀ binding ∈ inputsAny schema, binding.Means host meaning := by
  intro binding member
  obtain ⟨chunk, inside, occurs⟩ := occurs_of_mem_inputsAny schema member
  exact means chunk inside binding occurs

theorem flatten (means : Means host meaning schema) :
    Means host meaning (flattenChunks schema) := by
  intro part member binding occurs
  obtain ⟨chunk, inside, within⟩ := occurs_of_flattenChunks schema member occurs
  exact means chunk inside binding within

theorem styleMap (means : Means host meaning schema) {styles : StyleMap}
    (found : styleMap? schema = some (.ok styles)) {property : String}
    {part : Schema} (member : (property, part) ∈ styles) :
    Means host meaning part := by
  intro chunk inside binding occurs
  obtain ⟨other, present, origin⟩ :=
    occurs_of_styleMap found member inside occurs
  exact means other present binding origin

end Schema.Means

variable {namespaceName tag : String} {attributes : List Attribute}

theorem Blueprint.draws_slot {slot : Slot} (proper : slot.IsProper world.dom)
    (isPure : ∀ binding ∈ inputsAny chunks, binding.IsPure host)
    (element : world.dom.kind slot.node =
      .element namespaceName tag attributes) :
    (renderSlot host slot chunks).Ensures record world fun _ later =>
      world.Draws slot.node (.element namespaceName tag (slot.drawIn chunks
        ((evaluate host slot.node chunks).result world) attributes))
        (slotRequests chunks) later := by
  have shown := slot.redrawn_display proper element
    ((evaluate host slot.node chunks).result world)
  unfold renderSlot Slot.drawIn
  split
  · rename_i bound
    rw [bound, Bool.true_or, if_pos rfl]
    have drawn : World.Draws (SyncGroup.slot ⟨chunks, slot⟩).node _ _ _ _ :=
      SyncGroup.draws_bind isPure shown
    exact .act_bind (.note drawn)
  · rename_i fixed
    rw [Bool.not_eq_true] at fixed
    rw [fixed, Bool.false_or, slotRequests_of_fixed fixed]
    refine .act_bind ?_
    rw [after_evaluate slot.node world isPure]
    split
    · rename_i truthy
      refine .act ?_
      unfold Slot.display at shown
      rw [if_neg (by simpa [Value.isTruthy] using truthy)] at shown
      exact .of_dom shown
    · exact .pure (.refl element)

theorem Blueprint.draws_renderSlot {slot : Slot}
    (proper : slot.IsProper world.dom) (means : Schema.Means host meaning chunks)
    (element : world.dom.kind slot.node =
      .element namespaceName tag attributes) :
    (renderSlot host slot chunks).Ensures record world fun _ later =>
      world.Draws slot.node (.element namespaceName tag (slot.drawIn chunks
        (schemaValue meaning world.property (some tag) chunks) attributes))
        (slotRequests chunks) later := by
  have tagged : world.dom.tag? slot.node = some tag := by
    simp [Dom.tag?, element]
  have value := result_evaluate slot.node world means.inputs
  rw [tagged] at value
  rw [← value]
  exact draws_slot proper means.isPure.inputs element

private theorem Pass.Ensures.forM_draws {α : Type} {items : List α}
    {body : α → Pass σ Unit} {draw : α → List Attribute → List Attribute}
    {requests : α → List Request} {reading : Reading}
    (each : ∀ item ∈ items, ∀ record (world : World σ) attributes,
      world.property = reading →
      world.dom.kind n = .element namespaceName tag attributes →
      (body item).Ensures record world fun _ later => world.Draws n
        (.element namespaceName tag (draw item attributes)) (requests item)
        later)
    (reads : world.property = reading)
    (element : world.dom.kind n = .element namespaceName tag attributes) :
    (items.forM body).Ensures record world fun _ later => world.Draws n
      (.element namespaceName tag
        (items.foldl (fun attributes item => draw item attributes) attributes))
      (items.flatMap requests) later := by
  induction items generalizing record world attributes with
  | nil => exact .pure (.refl element)
  | cons item rest ih =>
      refine (each item (.head _) record world attributes reads element).bind
        fun _ between world' first => ?_
      refine (ih (fun other member => each other (.tail _ member))
        (first.property.trans reads) first.dom.kind).weaken
          fun _ _ second => ?_
      rw [List.flatMap_cons]
      exact first.trans second

/-- What a style property of a definition makes of the attributes of an
element; which element it is plays no part. -/
def drawStyle (meaning : Meaning) (reading : Reading) (tag : Option String)
    (style : String × Schema) (attributes : List Attribute) :
    List Attribute :=
  let chunks := flattenChunks style.2
  (Slot.style default style.1).drawIn chunks
    (schemaValue meaning reading tag chunks) attributes

/-- What an attribute of a definition makes of those of an element. -/
def drawEntry (meaning : Meaning) (reading : Reading) (tag : Option String)
    (entry : String × Schema) (attributes : List Attribute) :
    List Attribute :=
  match entryStyles? entry.1 entry.2 with
  | some (.error _) => attributes
  | some (.ok styles) => styles.foldl (fun attributes style =>
      drawStyle meaning reading tag style attributes) attributes
  | none =>
      let chunks := flattenChunks entry.2
      (Slot.attr default (Schema.namespace? entry.2) entry.1).drawIn chunks
        (schemaValue meaning reading tag chunks) attributes

def entryRequests (entry : String × Schema) : List Request :=
  match entryStyles? entry.1 entry.2 with
  | some (.error _) => []
  | some (.ok styles) =>
      styles.flatMap fun style => slotRequests (flattenChunks style.2)
  | none => slotRequests (flattenChunks entry.2)

/-- Only the name matters among the attributes that are drawn. -/
theorem confined_drawEntry (meaning : Meaning) (reading : Reading)
    (tag : Option String) (entry : String × Schema)
    (attributes : List Attribute) :
    Attribute.Confined (·.2 = entry.1) attributes
      (drawEntry meaning reading tag entry attributes) := by
  unfold drawEntry
  cases found : entryStyles? entry.1 entry.2 with
  | none =>
      refine (Slot.confined_drawIn _ _ _ attributes).mono fun key covers => ?_
      rw [covers]
  | some outcome =>
      cases outcome with
      | error fault => exact .refl attributes
      | ok styles =>
          dsimp only
          rw [(eq_style_of_entryStyles? found).1]
          clear found
          induction styles generalizing attributes with
          | nil => exact .refl attributes
          | cons style rest ih =>
              refine Attribute.Confined.trans ?_ (ih _)
              exact (Slot.style default style.1).confined_drawIn _ _ attributes

private theorem name_of_mem_drawEntry {reading : Reading} {tag : Option String}
    {entry : String × Schema} {other : Attribute}
    (member : other ∈ drawEntry meaning reading tag entry attributes)
    (new : other ∉ attributes) : other.name = entry.1 := by
  by_contra differs
  exact new ((confined_drawEntry meaning reading tag entry
    attributes).mem_of_uncovered member differs fun _ covers => covers)

private theorem attributeNs?_of_unnamed {dom : Dom} {name : String}
    (element : dom.kind n = .element namespaceName tag attributes)
    (unnamed : ∀ entry ∈ attributes, entry.name ≠ name)
    (scope : Option String) : dom.attributeNs? n scope name = none := by
  unfold Dom.attributeNs? Attribute.findNs?
  rw [Option.map_eq_none_iff, List.find?_eq_none]
  simp only [Dom.attributes, element]
  intro entry member named
  exact unnamed entry member (Attribute.isNamed_iff.mp named).2

namespace Blueprint

variable {blueprint : Blueprint} {name : String} {schema : Schema}

private theorem draws_renderStyles {styles : StyleMap}
    (means : ∀ style ∈ styles, Schema.Means host meaning style.2)
    (element : world.dom.kind n = .element namespaceName tag attributes) :
    (renderStyles host n styles).Ensures record world fun _ later =>
      world.Draws n
        (.element namespaceName tag (styles.foldl (fun attributes style =>
          drawStyle meaning world.property (some tag) style attributes)
          attributes))
        (styles.flatMap fun style => slotRequests (flattenChunks style.2))
        later := by
  refine .forM_draws (fun style member record between attributes reads
    element => ?_) rfl element
  rw [← reads]
  exact draws_renderSlot trivial (means style member).flatten element

/-- An attribute that an element does not have is drawn, be the element fresh
or not. -/
theorem draws_renderEntry (applying : Bool)
    (means : Schema.Means host meaning schema)
    (element : world.dom.kind n = .element namespaceName tag attributes)
    (unnamed : ∀ entry ∈ attributes, entry.name ≠ name) :
    (renderEntry host blueprint n applying name schema).Ensures record world
      fun _ later => world.Draws n
        (.element namespaceName tag (drawEntry meaning world.property
          (some tag) (name, schema) attributes))
        (entryRequests (name, schema)) later := by
  unfold renderEntry drawEntry entryRequests
  cases found : entryStyles? name schema with
  | none =>
      have absent := attributeNs?_of_unnamed element unnamed schema.namespace?
      have drawn (record : Record) :
          (renderSlot host (.attr n schema.namespace? name)
            (flattenChunks schema)).Ensures record world fun _ later =>
              world.Draws n _ _ later :=
        draws_renderSlot trivial means.flatten element
      unfold renderAttribute
      refine .act_bind ?_
      rw [Act.result_get, Act.after_get, absent]
      cases applying with
      | true => exact .note_bind (drawn _)
      | false => exact drawn record
  | some outcome =>
      cases outcome with
      | error fault => exact .throw
      | ok styles =>
          have drawn (record : Record) :
              (renderStyles host n styles).Ensures record world
                fun _ later => world.Draws n _ _ later :=
            draws_renderStyles (fun style member => means.styleMap
              (eq_style_of_entryStyles? found).2 member) element
          cases applying with
          | true => exact .act_bind (.note_bind (drawn _))
          | false => exact drawn record

/-- Every binding in the text and in the attributes of a blueprint is a function
of the properties. -/
structure Means (host : Host σ) (meaning : Meaning) (blueprint : Blueprint) :
    Prop where
  text : ∀ schema, blueprint.text = some schema →
    Schema.Means host meaning schema
  attributes : ∀ entry ∈ blueprint.attributes,
    Schema.Means host meaning entry.2

theorem Means.of_bindings
    (means : ∀ binding : Binding, binding.Means host meaning) :
    Means host meaning blueprint := by
  constructor
  · intro _ _ _ _ binding _
    exact means binding
  · intro _ _ _ _ binding _
    exact means binding

theorem Means.isPure (means : Means host meaning blueprint) :
    blueprint.IsPure host := by
  constructor
  · intro schema found
    exact (means.text schema found).isPure
  · intro entry member
    exact (means.attributes entry member).isPure

/-- The attributes of an element that is drawn from a definition. -/
def drawnAttributes (meaning : Meaning) (reading : Reading)
    (tag : Option String) (blueprint : Blueprint) : List Attribute :=
  blueprint.attributes.foldl (fun attributes entry =>
    drawEntry meaning reading tag entry attributes) []

theorem draws_renderAttributes (applying : Bool)
    (named : (blueprint.attributes.map (·.1)).Nodup)
    (means : blueprint.Means host meaning)
    (element : world.dom.kind n = .element namespaceName tag []) :
    (renderAttributes host blueprint n applying).Ensures record world
      fun _ later => world.Draws n
        (.element namespaceName tag (blueprint.drawnAttributes meaning
          world.property (some tag)))
        (blueprint.attributes.flatMap entryRequests) later := by
  obtain ⟨_, means⟩ := means
  unfold renderAttributes drawnAttributes
  have unnamed : ∀ entry ∈ blueprint.attributes, ∀ other ∈ ([] : List Attribute),
      other.name ≠ entry.1 := by
    intro _ _ _ impossible
    cases impossible
  generalize ([] : List Attribute) = attributes at element unnamed ⊢
  generalize blueprint.attributes = entries at named means unnamed ⊢
  induction entries generalizing record world attributes with
  | nil => exact .pure (.refl element)
  | cons entry rest ih =>
      rw [List.map_cons, List.nodup_cons] at named
      have drawn : (renderEntry host blueprint n applying entry.1
          entry.2).Ensures record world fun _ later =>
            world.Draws n _ _ later :=
        draws_renderEntry applying (means entry (.head _)) element
          (unnamed entry (.head _))
      refine drawn.bind fun _ between world' first => ?_
      refine (ih _ first.dom.kind named.2
        (fun other member => means other (.tail _ member))
        fun other member found inside => ?_).weaken fun _ _ second => ?_
      · by_cases old : found ∈ attributes
        · exact unnamed other (.tail _ member) found old
        · rw [name_of_mem_drawEntry inside old]
          intro same
          apply named.1
          rw [same]
          exact List.mem_map_of_mem member
      · rw [first.property] at second
        rw [List.flatMap_cons]
        exact first.trans second

/-- What the listeners of a definition subscribe to at a node. -/
def listenerRequests (blueprint : Blueprint) (n : NodeId) : List Request :=
  blueprint.listeners.flatMap fun entry =>
    match parseListenerKey entry.1 with
    | .ok (event, _) => entry.2.map fun _ => (.node n, event)
    | .error _ => []

theorem draws_renderListeners
    (element : world.dom.kind n = .element namespaceName tag attributes) :
    (renderListeners blueprint n).Ensures record world fun _ later =>
      world.Draws n (.element namespaceName tag attributes)
        (blueprint.listenerRequests n) later := by
  unfold renderListeners listenerRequests
  generalize blueprint.listeners = entries
  induction entries generalizing record world with
  | nil => exact .pure (.refl element)
  | cons entry rest ih =>
      obtain ⟨key, bindings⟩ := entry
      rw [List.flatMap_cons]
      refine Pass.Ensures.bind (.ofExcept_bind fun parsed accepted =>
        .act_bind (.note ?_)) fun _ later between (first : world.Draws n
          (.element namespaceName tag attributes) _ between) =>
            (ih first.dom.kind).weaken fun _ _ second => first.trans second
      rw [accepted, ← element]
      exact .listening (fun _ _ world _ => .of_subscribed rfl
        ⟨fun _ => rfl, fun _ => rfl, fun _ => rfl⟩ rfl
        (Emitter.subscribed_listenToNode _ _ _ _ world)) world n

end Blueprint

/-- The data of a text that is drawn from a schema. -/
def drawnText (meaning : Meaning) (reading : Reading) (chunks : List Chunk) :
    String :=
  if chunks.any Chunk.isBound then
    let value := schemaValue meaning reading none chunks
    if value.isFalsy then "" else value.domString
  else
    let values := chunks.map (Chunk.valueIn meaning reading none)
    String.join ((values.filter Value.isTruthy).map Value.domString)

namespace Blueprint

theorem result_plainText (means : Schema.Means host meaning chunks)
    {data : String} (isText : world.dom.kind n = .text data) :
    (plainText host n chunks).result world =
      String.join (((chunks.map (Chunk.valueIn meaning world.property
        none)).filter Value.isTruthy).map Value.domString) := by
  have untagged : world.dom.tag? n = none := by
    simp [Dom.tag?, isText]
  have values : (chunks.mapM (Chunk.evaluate host n)).result world =
      chunks.map (Chunk.valueIn meaning world.property none) := by
    induction chunks with
    | nil => rfl
    | cons chunk rest ih =>
        have inputs : ∀ binding ∈ chunk.inputs, binding.Means host meaning :=
          fun binding member => means chunk (.head _) binding
            (Chunk.occurs_of_mem_inputs chunk member)
        have head := Chunk.result_evaluate n world chunk inputs
        have unchanged := Chunk.after_evaluate n world chunk
          fun binding member => (inputs binding member).isPure
        rw [untagged] at head
        rw [List.mapM_cons, Act.result_bind, head, unchanged, Act.result_bind,
          ih fun other member => means other (.tail _ member)]
        rfl
  unfold plainText
  rw [Act.result_bind, values]
  rfl

/-- The data that a text node shows of chunks. -/
def shownText (host : Host σ) (n : NodeId) (chunks : List Chunk)
    (world : World σ) : String :=
  if chunks.any Chunk.isBound then
    let value := (evaluate host n chunks).result world
    if value.isFalsy then "" else value.domString
  else (plainText host n chunks).result world

theorem shownText_eq (means : Schema.Means host meaning chunks) {data : String}
    (isText : world.dom.kind n = .text data) :
    shownText host n chunks world =
      drawnText meaning world.property chunks := by
  have untagged : world.dom.tag? n = none := by
    simp [Dom.tag?, isText]
  have value := result_evaluate n world means.inputs
  rw [untagged] at value
  rw [shownText, drawnText, value, result_plainText means isText]

theorem draws_text (isPure : Schema.IsPure host chunks) {data : String}
    (isText : world.dom.kind n = .text data) :
    Pass.Ensures (do
        if chunks.any Chunk.isBound then
          Pass.noteGroup
            (← Pass.act (SyncGroup.bind host ⟨chunks, .text n⟩))
        else
          let data ← Pass.act (plainText host n chunks)
          Pass.act (modifyDom fun dom => dom.setText n data)) record world
      fun _ later =>
        world.Draws n (.text (shownText host n chunks world))
          (slotRequests chunks) later := by
  unfold shownText
  split
  · have shown (value : Value) : world.dom.Redrawn n
        (.text (if value.isFalsy then "" else value.domString))
        ((Slot.text n).display world.dom value) := by
      rw [Slot.display_text isText]
      exact .setKind world.dom n _
    have drawn : World.Draws (SyncGroup.slot ⟨chunks, .text n⟩).node _ _ _ _ :=
      SyncGroup.draws_bind isPure.inputs (shown _)
    exact .act_bind (.note drawn)
  · rename_i fixed
    rw [Bool.not_eq_true] at fixed
    rw [slotRequests_of_fixed fixed]
    refine .act_bind ?_
    rw [after_plainText isPure]
    have written (data : String) : world.dom.Redrawn n (.text data)
        (world.dom.setText n data) := by
      unfold Dom.setText
      rw [isText]
      exact .setKind world.dom n _
    exact .act (.of_dom (written _))

theorem draws_showText_of_pure (isPure : Schema.IsPure host chunks)
    {data : String} (isText : world.dom.kind n = .text data) :
    (showText host n chunks).Ensures record world fun node later => node = n ∧
      world.Draws n (.text (shownText host n chunks
        (world.holding (.refs [.node n] :: world.frames))))
        (slotRequests chunks) later := by
  have inner : Pass.Ensures _ record
      (world.holding (.refs [.node n] :: world.frames)) _ :=
    draws_text isPure isText
  unfold showText
  exact .bind (.keeping (inner.weaken fun _ _ draws =>
    draws.release world.frames)) fun _ _ _ draws => .pure ⟨rfl, draws⟩

theorem draws_showText (means : Schema.Means host meaning chunks)
    {data : String} (isText : world.dom.kind n = .text data) :
    (showText host n chunks).Ensures record world fun node later => node = n ∧
      world.Draws n (.text (drawnText meaning world.property chunks))
        (slotRequests chunks) later := by
  have held : shownText host n chunks
      (world.holding (.refs [.node n] :: world.frames)) =
        drawnText meaning world.property chunks := shownText_eq means isText
  rw [← held]
  exact draws_showText_of_pure means.isPure isText

end Blueprint

end Meaning

end LiveTemplate
