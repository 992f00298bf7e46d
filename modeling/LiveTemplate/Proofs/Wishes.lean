import LiveTemplate.Proofs.Delegation
import LiveTemplate.Proofs.Releasing

/-!
# What definitions wish for

A definition wishes for a subscription for each binding in its text or in its
attributes and their style properties, and for one for each of its listeners.
Where a binding stands in its schema plays no part, except that a style map
gives each property a slot of its own.

`Grants` says that a computation subscribes once for each wish, and for nothing
else by itself: what else gets registered belongs to views that it renders.
-/

namespace LiveTemplate

variable {σ : Type}

/-- What a definition wishes for: that a slot shows a binding, or that a node
listens to what is written under a key. -/
inductive Wish where
  | shows (slot : Slot) (binding : Binding)
  | hears (node : NodeId) (key : String) (binding : ListenerBinding)

/-- The ledger that keeps the listener for a wish. -/
def Wish.source : Wish → Ledger
  | .shows _ binding => .observable binding.observable
  | .hears node _ _ => .node node

/-- The emitter that owns the listener for a wish. -/
def Wish.emitter : Wish → EmitterId
  | .shows _ binding => binding.emitter
  | .hears _ _ binding => binding.emitter

/-- An entry is a listener such as a wish asks for. -/
inductive Wish.Asks : Wish → LedgerEntry → Prop where
  | shows {group : SyncGroup} {binding : Binding}
      (shown : .bound binding ∈ group.chunks) (id : ListenerId) :
      Asks (.shows group.slot binding)
        (.reaction ⟨id, changeOf binding.property, .sync group⟩)
  | hears {key event : String} {selectors : Option Selector.SelectorList}
      (reads : KeyReads key event selectors) (n : NodeId)
      (binding : ListenerBinding) (id : ListenerId) :
      Asks (.hears n key binding)
        (.action ⟨id, event, .delegate selectors binding⟩)

/-- An interlude adds a listener that a wish asks for, the revoker of which
goes to the emitter of the binding, and nothing else. -/
structure Wish.IsEntered (wish : Wish) (interlude : Interlude σ) : Prop where
  entered : ∃ entry r, wish.Asks entry ∧
    interlude.added wish.source = [entry] ∧
    interlude.added (.emitter wish.emitter) = [.revoker r] ∧
    interlude.2.owns [r] wish.source entry = true
  only : ∀ ledger, ledger ≠ wish.source → ledger ≠ .emitter wish.emitter →
    interlude.added ledger = []

/-- One subscription of the emitter of the binding grants a wish. -/
inductive Wish.Granted : Wish → World σ → World σ → Prop where
  | shows {group : SyncGroup} {binding : Binding}
      (shown : .bound binding ∈ group.chunks) (world : World σ) :
      Granted (.shows group.slot binding) world
        ((Emitter.listenToObservable binding.emitter binding.observable
          (changeOf binding.property) (.sync group)).after world)
  | hears {key event : String} {selectors : Option Selector.SelectorList}
      (reads : KeyReads key event selectors) (n : NodeId)
      (binding : ListenerBinding) (world : World σ) :
      Granted (.hears n key binding) world
        ((Emitter.listenToNode binding.emitter n event
          (.delegate selectors binding)).after world)

/-- The wishes for bindings that are shown in a slot. -/
def slotWishes (slot : Slot) (schema : Schema) : List Wish :=
  (inputsAny schema).map (.shows slot)

/-- The wishes for the properties of a style map. -/
def styleWishes (node : NodeId) (styles : StyleMap) : List Wish :=
  styles.flatMap fun style => slotWishes (.style node style.1) style.2

/-- The wishes for one chunk of an attribute. -/
def Chunk.wishes (node : NodeId) (slot : Slot) : Chunk → List Wish
  | .styles properties => styleWishes node properties
  | chunk => slotWishes slot [chunk]

/-- The wishes for an attribute. -/
def entryWishes (node : NodeId) (entry : String × Schema) : List Wish :=
  entry.2.flatMap
    (Chunk.wishes node (.attr node (Schema.namespace? entry.2) entry.1))

/-- What a definition wishes for at a node.  Whatever is hung on a text adds
nothing. -/
def Blueprint.wishes (blueprint : Blueprint) (node : NodeId) : List Wish :=
  match blueprint.text with
  | some schema => slotWishes (.text node) schema
  | none =>
      blueprint.attributes.flatMap (entryWishes node) ++
        blueprint.listeners.flatMap fun entry =>
          entry.2.map (.hears node entry.1)

/-- Style maps stand in the schemas of `style` attributes only. -/
def Blueprint.KeepsStyles (blueprint : Blueprint) : Prop :=
  ∀ entry ∈ blueprint.attributes, entry.1 ≠ "style" →
    entry.2.any Chunk.isStyles = false

/-- One ledger has got an entry more, and all others are as before. -/
structure Ledger.Gains (own : Ledger) (entry : LedgerEntry)
    (world later : World σ) : Prop where
  here : later.ledger own = world.ledger own ++ [entry]
  others : ∀ ledger, ledger ≠ own → later.ledger ledger = world.ledger ledger

theorem Observable.gains_subscribe (o : ObservableId) (event : String)
    (reaction : Reaction) (world : World σ) :
    Ledger.Gains (.observable o)
      (.reaction ⟨⟨(world.reactionsOf o).next⟩, event, reaction⟩) world
      ((subscribe o event reaction).after world) := by
  rw [after_subscribe]
  constructor
  · rw [World.ledger, reactionsOf_modifyReactions_self]
    exact List.map_append
  · intro ledger foreign
    cases ledger with
    | observable other =>
        have differs : other ≠ o := fun same => foreign (same ▸ rfl)
        rw [World.ledger, reactionsOf_modifyReactions_of_ne _ _ differs]
        rfl
    | node n => rfl
    | emitter e => rfl

theorem NodeEvents.gains_subscribe (n : NodeId) (type : String)
    (action : EventAction) (world : World σ) :
    Ledger.Gains (.node n)
      (.action ⟨⟨(world.eventActionsOf n).next⟩, type, action⟩) world
      ((subscribe n type action).after world) := by
  rw [after_subscribe]
  constructor
  · rw [World.ledger, eventActionsOf_modifyActions_self]
    exact List.map_append
  · intro ledger foreign
    cases ledger with
    | observable o => rfl
    | node other =>
        have differs : other ≠ n := fun same => foreign (same ▸ rfl)
        rw [World.ledger, eventActionsOf_modifyActions_of_ne _ _ differs]
        rfl
    | emitter e => rfl

theorem Emitter.gains_own (e : EmitterId) (subscription : Subscription)
    {world : World σ} (owned : ∀ other, ∀ r ∈
      (world.emitter other).subscriptions, r.index < world.revokers.size) :
    Ledger.Gains (.emitter e) (.revoker ⟨world.revokers.size⟩) world
      ((own e subscription).after world) := by
  have grown (other : EmitterId) := liveRevokers_own e other subscription
    (owned other)
  constructor
  · rw [World.ledger, grown, if_pos rfl]
    exact List.map_append
  · intro ledger foreign
    cases ledger with
    | observable o => rfl
    | node n => rfl
    | emitter other =>
        have differs : other ≠ e := fun same => foreign (same ▸ rfl)
        rw [World.ledger, grown, if_neg differs, List.append_nil]
        rfl

theorem Interlude.added_of_append {world later : World σ} {ledger : Ledger}
    {entries : List LedgerEntry}
    (grown : later.ledger ledger = world.ledger ledger ++ entries) :
    Interlude.added (world, later) ledger = entries := by
  rw [Interlude.added, grown, List.drop_left]

theorem Wish.isEntered_of_gains {wish : Wish} {entry : LedgerEntry}
    {r : RevokerId} {world between later : World σ} (asks : wish.Asks entry)
    (listener : wish.source.Gains entry world between)
    (revoker : (Ledger.emitter wish.emitter).Gains (.revoker r) between later)
    (owns : later.owns [r] wish.source entry = true) :
    wish.IsEntered (world, later) := by
  have apart : wish.source ≠ .emitter wish.emitter := by
    cases wish <;> exact Ledger.noConfusion
  refine ⟨⟨entry, r, asks, ?_, ?_, owns⟩, fun ledger foreign strange => ?_⟩
  · refine Interlude.added_of_append ?_
    rw [revoker.others _ apart, listener.here]
  · refine Interlude.added_of_append ?_
    rw [revoker.here, listener.others _ apart.symm]
  · refine Interlude.added_of_append ?_
    rw [revoker.others _ strange, listener.others _ foreign, List.append_nil]

private theorem Wish.Granted.isEntered {wish : Wish} {world later : World σ}
    (granted : wish.Granted world later) (booked : world.Booked) :
    wish.IsEntered (world, later) := by
  cases granted with
  | @shows group binding shown =>
      have listened := Emitter.listened_listenToObservable binding.emitter
        binding.observable (changeOf binding.property) (.sync group) world
      refine isEntered_of_gains (.shows shown _)
        (Observable.gains_subscribe binding.observable _ _ world)
        (Emitter.gains_own binding.emitter _ booked.owned) ?_
      exact World.drops_iff.mpr
        ⟨_, List.mem_singleton_self _, listened.revoker ▸ listened.held⟩
  | @hears key event selectors reads n binding =>
      have listened := Emitter.listened_listenToNode binding.emitter n event
        (.delegate selectors binding) world
      refine isEntered_of_gains (.hears reads n binding _)
        (NodeEvents.gains_subscribe n _ _ world)
        (Emitter.gains_own binding.emitter _ booked.owned) ?_
      exact World.drops_iff.mpr
        ⟨_, List.mem_singleton_self _, listened.revoker ▸ listened.held⟩

/-- The binding of a chunk that is one. -/
def Chunk.binding? : Chunk → Option Binding
  | .bound binding => some binding
  | _ => none

mutual

theorem Chunk.filterMap_binding?_flatten (chunk : Chunk) :
    chunk.flatten.filterMap Chunk.binding? = chunk.inputs := by
  cases chunk with
  | fixed value => rfl
  | bound binding => rfl
  | namespaced namespaceName chunks =>
      rw [Chunk.flatten, Chunk.inputs]
      exact filterMap_binding?_flattenChunks chunks
  | styles properties => rfl

theorem filterMap_binding?_flattenChunks (chunks : List Chunk) :
    (flattenChunks chunks).filterMap Chunk.binding? = inputsAny chunks := by
  cases chunks with
  | nil => rfl
  | cons chunk rest =>
      rw [flattenChunks, inputsAny, List.filterMap_append,
        Chunk.filterMap_binding?_flatten chunk,
        filterMap_binding?_flattenChunks rest]

end

theorem mem_of_mem_filterMap_binding? {chunks : List Chunk} {binding : Binding}
    (member : binding ∈ chunks.filterMap Chunk.binding?) :
    .bound binding ∈ chunks := by
  obtain ⟨chunk, inside, same⟩ := List.mem_filterMap.mp member
  cases chunk with
  | bound other =>
      cases same
      exact inside
  | fixed => cases same
  | namespaced => cases same
  | styles => cases same

theorem filterMap_binding?_of_fixed {chunks : List Chunk}
    (fixed : chunks.any Chunk.isBound = false) :
    chunks.filterMap Chunk.binding? = [] := by
  rw [List.any_eq_false] at fixed
  refine List.filterMap_eq_nil_iff.mpr fun chunk member => ?_
  have unbound := fixed chunk member
  cases chunk with
  | bound => exact absurd rfl unbound
  | fixed => rfl
  | namespaced => rfl
  | styles => rfl

theorem slotWishes_append (slot : Slot) (first second : Schema) :
    slotWishes slot (first ++ second) =
      slotWishes slot first ++ slotWishes slot second := by
  simp [slotWishes]

section Styles

variable {node : NodeId} {styles : StyleMap}

theorem styleWishes_appendEntry (property : String) (schema : Schema)
    (styles : StyleMap) :
    (styleWishes node (appendEntry property schema styles)).Perm
      (styleWishes node styles ++
        slotWishes (.style node property) schema) := by
  unfold appendEntry
  induction styles with
  | nil => simp [updateEntry, styleWishes]
  | cons style rest ih =>
      obtain ⟨name, items⟩ := style
      have split (rest : StyleMap) (items : Schema) :
          styleWishes node ((name, items) :: rest) =
            slotWishes (.style node name) items ++ styleWishes node rest :=
        List.flatMap_cons
      rw [updateEntry]
      by_cases same : (name == property) = true
      · have named : name = property := by simpa using same
        subst named
        rw [if_pos same, split, split, slotWishes_append, List.append_assoc,
          List.append_assoc]
        exact List.perm_append_comm.append_left _
      · rw [if_neg same, split, split, List.append_assoc]
        exact ih.append_left _

theorem styleWishes_foldl (added styles : StyleMap) :
    (styleWishes node (added.foldl
      (fun map (property, schema) => appendEntry property schema map)
        styles)).Perm (styleWishes node styles ++ styleWishes node added) := by
  induction added generalizing styles with
  | nil => simp [styleWishes]
  | cons style rest ih =>
      have split : styleWishes node (style :: rest) =
          slotWishes (.style node style.1) style.2 ++ styleWishes node rest :=
        List.flatMap_cons
      rw [split, ← List.append_assoc]
      exact (ih _).trans
        ((styleWishes_appendEntry style.1 style.2 styles).append_right _)

private theorem styleWishes_foldStyle {slot : Slot} {chunk : Chunk}
    {later : StyleMap}
    (folded : foldStyle styles chunk = .ok later) :
    (styleWishes node later).Perm
      (styleWishes node styles ++ chunk.wishes node slot) := by
  cases chunk with
  | styles properties =>
      cases folded
      exact styleWishes_foldl properties styles
  | fixed value =>
      have none : Chunk.wishes node slot (.fixed value) = [] := rfl
      rw [none, List.append_nil]
      rw [foldStyle] at folded
      split at folded
      · cases folded
        exact .refl _
      · cases folded
        -- Declarations are folded in as fixed values, which wish for nothing.
        generalize (Css.Declarations.parse value.domString).entries = texts
        induction texts generalizing styles with
        | nil => exact .refl _
        | cons entry rest ih =>
            refine ih.trans ?_
            refine (styleWishes_appendEntry entry.1 _ styles).trans ?_
            exact .of_eq (List.append_nil _)
  | bound binding => cases folded
  | namespaced namespaceName chunks => cases folded

private theorem styleWishes_foldlM {slot : Slot} {schema : Schema}
    {later : StyleMap}
    (folded : schema.foldlM foldStyle styles = .ok later) :
    (styleWishes node later).Perm
      (styleWishes node styles ++ schema.flatMap (Chunk.wishes node slot)) := by
  induction schema generalizing styles with
  | nil =>
      cases folded
      exact .of_eq (List.append_nil _).symm
  | cons chunk rest ih =>
      rw [List.foldlM_cons] at folded
      cases head : foldStyle styles chunk with
      | error fault =>
          rw [head] at folded
          cases folded
      | ok between =>
          rw [head] at folded
          rw [List.flatMap_cons, ← List.append_assoc]
          exact (ih folded).trans ((styleWishes_foldStyle head).append_right _)

/-- The map that a style attribute is rendered from has the wishes of the
attribute. -/
theorem styleWishes_of_entryStyles? {name : String} {schema : Schema}
    (found : entryStyles? name schema = some (.ok styles)) :
    (styleWishes node styles).Perm (entryWishes node (name, schema)) := by
  have map := (eq_style_of_entryStyles? found).2
  unfold styleMap? at map
  split at map
  · exact styleWishes_foldlM (Option.some.inj map)
  · cases map

/-- Without a style map all bindings of an attribute are shown in it. -/
theorem entryWishes_of_unstyled {name : String} {schema : Schema}
    (unstyled : schema.any Chunk.isStyles = false) :
    entryWishes node (name, schema) =
      slotWishes (.attr node (Schema.namespace? schema) name) schema := by
  unfold entryWishes
  generalize Schema.namespace? (name, schema).2 = scope
  dsimp only
  induction schema with
  | nil => rfl
  | cons chunk rest ih =>
      rw [List.any_cons, Bool.or_eq_false_iff] at unstyled
      have head : Chunk.wishes node (.attr node scope name) chunk =
          slotWishes (.attr node scope name) [chunk] := by
        cases chunk with
        | styles => cases unstyled.1
        | fixed => rfl
        | bound => rfl
        | namespaced => rfl
      rw [List.flatMap_cons, head, ih unstyled.2, ← slotWishes_append,
        List.singleton_append]

end Styles

/-- A part of a computation that subscribes to something, and the wish that it
grants unless it is for a view. -/
structure Part (σ : Type) where
  wish : Option Wish
  interlude : Interlude σ

/-- A template and a node that it has been worked into. -/
abbrev Site := TemplateId × NodeId

/-- A computation goes its way from one world to another.  Its parts that
subscribe to something either grant a wish or are views that are rendered to
the end; the sites are the templates that are rendered or applied meanwhile. -/
inductive Course (host : Host σ) (among : ViewId → Prop) :
    World σ → List (Part σ) → List Site → World σ → Prop where
  | quiet {world later : World σ}
      (reactions : later.reactions = world.reactions)
      (eventActions : later.eventActions = world.eventActions)
      (emitters : later.emitters = world.emitters)
      (revokers : later.revokers = world.revokers) :
      Course host among world [] [] later
  | grant {wish : Wish} {world later : World σ}
      (granted : wish.Granted world later)
      (entered : wish.IsEntered (world, later)) :
      Course host among world [⟨some wish, world, later⟩] [] later
  | view {v : ViewId} {world : World σ} (inside : among v)
      (rendered : (View.render host v).result world = .ok ()) :
      Course host among world
        [⟨none, world, (View.render host v).after world⟩] []
        ((View.render host v).after world)
  | site {t : TemplateId} {n : NodeId} {world later : World σ}
      {parts : List (Part σ)} {sites : List Site}
      (course : Course host among world parts sites later)
      (instates : Template.Instates host t n world later) :
      Course host among world parts (sites ++ [(t, n)]) later
  | trans {world between later : World σ} {parts others : List (Part σ)}
      {sites more : List Site}
      (first : Course host among world parts sites between)
      (second : Course host among between others more later) :
      Course host among world (parts ++ others) (sites ++ more) later

/-- A computation grants each of some wishes once, and nothing else but views
that it renders registers anything. -/
structure Grants (host : Host σ) (among : ViewId → Prop) (wishes : List Wish)
    (sites : List Site) (world later : World σ) : Prop where
  course : ∃ parts, Course host among world parts sites later ∧
    (parts.filterMap Part.wish).Perm wishes ∧
    ∀ ledger, later.ledger ledger =
      world.ledger ledger ++ parts.flatMap fun part =>
        part.interlude.added ledger
  advances : world.Advances later
  booked : later.Booked

namespace Grants

variable {host : Host σ} {among : ViewId → Prop} {wishes others : List Wish}
  {sites more : List Site} {world between later : World σ}

/-- Nothing is subscribed to. -/
theorem quiet (booked : world.Booked) (run : Run world later)
    (advances : world.Advances later)
    (reactions : later.reactions = world.reactions)
    (eventActions : later.eventActions = world.eventActions)
    (emitters : later.emitters = world.emitters)
    (revokers : later.revokers = world.revokers) :
    Grants host among [] [] world later where
  course := by
    refine ⟨[], .quiet reactions eventActions emitters revokers, .refl _,
      fun ledger => ?_⟩
    rw [World.ledger_congr reactions eventActions emitters revokers,
      List.flatMap_nil, List.append_nil]
  advances := advances
  booked := booked.of_same run emitters revokers

theorem refl (booked : world.Booked) : Grants host among [] [] world world := by
  exact .quiet booked (.refl world) (.refl world) rfl rfl rfl rfl

theorem trans (first : Grants host among wishes sites world between)
    (second : Grants host among others more between later) :
    Grants host among (wishes ++ others) (sites ++ more) world later where
  course := by
    obtain ⟨parts, early, granted, grown⟩ := first.course
    obtain ⟨rest, late, grantedToo, grownToo⟩ := second.course
    refine ⟨parts ++ rest, early.trans late, ?_, fun ledger => ?_⟩
    · rw [List.filterMap_append]
      exact granted.append grantedToo
    · rw [grownToo, grown, List.flatMap_append, List.append_assoc]
  advances := first.advances.trans second.advances
  booked := second.booked

/-- The order of wishes plays no part. -/
theorem perm (grants : Grants host among wishes sites world later)
    (same : wishes.Perm others) :
    Grants host among others sites world later where
  course := by
    obtain ⟨parts, course, granted, grown⟩ := grants.course
    exact ⟨parts, course, granted.trans same, grown⟩
  advances := grants.advances
  booked := grants.booked

theorem site (grants : Grants host among wishes sites world later)
    {t : TemplateId} {n : NodeId}
    (instates : Template.Instates host t n world later) :
    Grants host among wishes (sites ++ [(t, n)]) world later where
  course := by
    obtain ⟨parts, course, granted⟩ := grants.course
    exact ⟨parts, course.site instates, granted⟩
  advances := grants.advances
  booked := grants.booked

/-- What is held meanwhile makes no difference. -/
theorem release {frames : List Frame} (booked : world.Booked)
    (grants : Grants host among wishes sites (world.holding frames) later)
    (restored : List Frame) :
    Grants host among wishes sites world (later.holding restored) := by
  have held (frames : List Frame) {world : World σ} (booked : world.Booked) :
      Grants host among [] [] world (world.holding frames) :=
    .quiet booked (.holding world frames)
      ((World.SameSetup.refl world).held frames).advances rfl rfl rfl rfl
  have whole := ((held frames booked).trans grants).trans
    (held restored grants.booked)
  rwa [List.append_nil, List.append_nil] at whole

/-- A part that only adds to ledgers. -/
theorem of_tally {part : Part σ} {revokers : List RevokerId}
    {interludes : List (Interlude σ)}
    (course : Course host among world [part] [] later)
    (whole : part.interlude = (world, later))
    (tally : Tally host among revokers interludes world later)
    (booked : world.Booked) :
    Grants host among part.wish.toList [] world later where
  course := by
    refine ⟨[part], course, ?_, fun ledger => ?_⟩
    · cases wish : part.wish <;> simp [wish]
    · obtain ⟨added, grown, -⟩ := tally.grown ledger
      simp [whole, Interlude.added, grown]
  advances := tally.advances
  booked := tally.owned booked

theorem grant {wish : Wish} (granted : wish.Granted world later)
    (booked : world.Booked) : Grants host among [wish] [] world later := by
  have course : Course host among world [⟨some wish, world, later⟩] [] later :=
    .grant granted (granted.isEntered booked)
  cases granted with
  | shows shown =>
      exact of_tally course rfl
        (Emitter.tally_listenToObservable _ _ _ _ booked) booked
  | hears reads n binding =>
      exact of_tally course rfl
        (Emitter.tally_listenToNode _ _ _ _ booked) booked

theorem mapM {α β : Type} {items : List α} {listen : α → Act σ β}
    {wish : α → Wish}
    (each : ∀ item ∈ items, ∀ world : World σ,
      (wish item).Granted world ((listen item).after world))
    (booked : world.Booked) :
    Grants host among (items.map wish) [] world
      ((items.mapM listen).after world) := by
  induction items generalizing world with
  | nil => exact .refl booked
  | cons item rest ih =>
      rw [List.mapM_cons]
      have first : Grants host among [wish item] [] world
          ((listen item).after world) :=
        .grant (each item (.head _) world) booked
      exact first.trans
        (ih (fun other member => each other (.tail _ member)) first.booked)

end Grants

end LiveTemplate
