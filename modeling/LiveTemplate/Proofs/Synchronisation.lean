import LiveTemplate.Proofs.Evaluation
import LiveTemplate.Proofs.ObservableRows
import LiveTemplate.Proofs.Slots
import LiveTemplate.View

/-!
# Bound slots follow their properties

A notice of a change may meet listeners that set the same or another property
again, subscribe, render or apply before the group of a binding has its turn.
Between the change and that turn the slot is out of date.  The invariant that
survives any nesting speaks of moments at which no change is waiting: there,
a group that listens anywhere listens to all its properties, and its slot shows
their present value.  While a notice is under way the slot may be stale, but
then a listener of the group is still among those waiting for their turn.
-/

namespace LiveTemplate

variable {σ : Type}

namespace Slot

/-- The text of a slot that is a whole attribute, if there is one, or a text
node. -/
def content? (dom : Dom) : Slot → Option (Option String)
  | text node =>
      match dom.kind node with
      | .text data => some (some data)
      | _ => none
  | attr node namespaceName name =>
      if dom.isElement node then
        some (dom.attributeNs? node namespaceName name)
      else none
  | style _ _ => none

/-- What a slot has to hold to show a value. -/
def shown (value : Value) : Slot → Option String
  | text _ => some (if value.isFalsy then "" else value.domString)
  | _ => if value.isFalsy then none else some value.domString

private theorem shown_eq_of_alike {left right : Value}
    (alike : left.Alike right)
    (slot : Slot) : slot.shown left = slot.shown right := by
  cases slot <;> simp [shown, alike.isFalsy_eq, alike.domString_eq]

theorem content?_display {dom : Dom} {slot : Slot}
    (present : (slot.content? dom).isSome = true) (value : Value) :
    slot.content? (slot.display dom value) = some (slot.shown value) := by
  cases slot with
  | text node =>
      cases kind : dom.kind node with
      | text data => simp [display_text kind, content?, shown]
      | element => simp [content?, kind] at present
      | fragment => simp [content?, kind] at present
  | attr node namespaceName name =>
      have element : dom.isElement node = true := by
        cases known : dom.isElement node with
        | true => rfl
        | false => simp [content?, known] at present
      rw [display_attr, content?, Dom.isElement_modifyAttributes,
        if_pos element, Dom.attributeNs?,
        Dom.attributes_modifyAttributes_self element]
      cases falsy : value.isFalsy <;> simp [shown, falsy]
  | style node property => simp [content?] at present

theorem tag?_display {dom : Dom} {slot : Slot}
    (present : (slot.content? dom).isSome = true) (value : Value) :
    (slot.display dom value).tag? slot.node = dom.tag? slot.node := by
  cases slot with
  | text node =>
      cases kind : dom.kind node with
      | text data => simp [display_text kind, Slot.node, Dom.tag?, kind]
      | element => simp [content?, kind] at present
      | fragment => simp [content?, kind] at present
  | attr node namespaceName name =>
      rw [display_attr]
      unfold Dom.modifyAttributes
      split
      · rename_i kind
        simp [Slot.node, Dom.tag?, kind]
      · rfl
  | style node property => simp [content?] at present

end Slot

namespace SyncGroup

/-- The bindings that a group listens to. -/
def bindings (group : SyncGroup) : List Binding :=
  group.chunks.filterMap fun chunk =>
    match chunk with
    | .bound binding => some binding
    | _ => none

/-- The groups that rendering makes: a schema without namespaces, behind what
it keeps of the present value. -/
def IsRendered (group : SyncGroup) : Prop :=
  ∃ (kept : List Value) (schema : Schema),
    group.chunks = kept.map .fixed ++ flattenChunks schema

/-- The bindings of the group are functions of the value and the tag. -/
def Follows (host : Host σ) (meaning : Meaning) (group : SyncGroup) : Prop :=
  ∀ binding ∈ group.bindings, binding.Means host meaning

/-- A listener of an observable brings the group up to date. -/
def Listening (group : SyncGroup) (world : World σ) : Prop :=
  ∃ o, ∃ listener ∈ (world.reactionsOf o).entries,
    listener.action = .sync group

/-- The group listens to every property that it is bound to. -/
def Wired (group : SyncGroup) (world : World σ) : Prop :=
  ∀ binding ∈ group.bindings,
    ∃ listener ∈ (world.reactionsOf binding.observable).entries,
      listener.event = changeOf binding.property ∧
        listener.action = .sync group

/-- The value of the group for the present properties. -/
def current (meaning : Meaning) (group : SyncGroup) (world : World σ) :
    Value :=
  schemaValue meaning world.property (world.dom.tag? group.slot.node)
    group.chunks

/-- The slot shows the present value. -/
def IsShown (meaning : Meaning) (group : SyncGroup) (world : World σ) : Prop :=
  group.slot.content? world.dom =
    some (group.slot.shown (group.current meaning world))

/-- A group that listens is complete and shows the present value. -/
def Settled (meaning : Meaning) (group : SyncGroup) (world : World σ) : Prop :=
  group.Listening world → group.Wired world ∧ group.IsShown meaning world

/-- Nothing that the group depends on differs between two worlds, apart from
the creation of the node that it is to write to. -/
structure Spared (group : SyncGroup) (world later : World σ) : Prop where
  property : ∀ binding ∈ group.bindings,
    later.property binding.observable binding.property =
      world.property binding.observable binding.property
  target : (group.slot.content? world.dom).isSome = true →
    group.slot.content? later.dom = group.slot.content? world.dom ∧
      later.dom.tag? group.slot.node = world.dom.tag? group.slot.node
  listeners : ∀ o listener, listener.action = .sync group →
    (listener ∈ (later.reactionsOf o).entries ↔
      listener ∈ (world.reactionsOf o).entries)

end SyncGroup

namespace Observable

/-- The worlds in which the turns of a notice begin and end, for the listeners
that get one. -/
def turns (host : Host σ) (o : ObservableId) (notice : Notice) :
    List (Listener Reaction) → World σ → List (World σ × World σ)
  | [], _ => []
  | listener :: rest, world =>
      if (world.reactionsOf o).contains listener.id then
        let later := (keeping (.listeners (listener :: rest))
          (react host notice listener.action)).after world
        (world, later) :: turns host o notice rest later
      else turns host o notice rest world

end Observable

namespace SyncGroup

/-- The runs in which a group is left to itself.  Its slot is written by
rendering and by its own listeners only, its listeners are not removed and its
properties change by `Observable.set` only.  Everything else may happen, also
while a notice is under way. -/
inductive Undisturbed (meaning : Meaning) (group : SyncGroup) :
    World σ → World σ → Prop where
  | step {world later : World σ} :
      group.Spared world later → Undisturbed meaning group world later
  | trans {world between later : World σ} :
      Undisturbed meaning group world between →
      Undisturbed meaning group between later →
      Undisturbed meaning group world later
  | create {host : Host σ} {world : World σ} :
      group.Follows host meaning →
      (group.slot.content? world.dom).isSome = true →
      Undisturbed meaning group world ((group.bind host).after world)
  | sync {host : Host σ} {world : World σ} :
      group.Follows host meaning →
      Undisturbed meaning group world ((group.sync host).after world)
  | set (host : Host σ) (world : World σ) (o : ObservableId) (name : String)
      (value : Value) :
      group.Follows host meaning →
      (let old := world.property o name
       let stored := (Observable.store o name value).after world
       old.agrees value = false →
        ∀ turn ∈ Observable.turns host o
            ⟨changeOf name, .change name value old⟩
            ((stored.reactionsOf o).of (changeOf name)) stored,
          Undisturbed meaning group turn.1 turn.2) →
      Undisturbed meaning group world
        ((Observable.set host o name value).after world)

end SyncGroup

namespace SyncGroup

variable {host : Host σ} {meaning : Meaning} {group : SyncGroup}

theorem mem_bindings {binding : Binding} :
    binding ∈ group.bindings ↔ Chunk.bound binding ∈ group.chunks := by
  unfold bindings
  rw [List.mem_filterMap]
  constructor
  · rintro ⟨chunk, member, found⟩
    cases chunk with
    | bound other =>
        cases found
        exact member
    | _ => cases found
  · intro member
    exact ⟨_, member, rfl⟩

end SyncGroup

mutual

theorem Chunk.bound_mem_flatten (chunk : Chunk) {binding : Binding}
    (member : binding ∈ inputsAny chunk.flatten) :
    Chunk.bound binding ∈ chunk.flatten := by
  cases chunk with
  | fixed value => simp [Chunk.flatten, inputsAny, Chunk.inputs] at member
  | bound other =>
      simpa [Chunk.flatten, inputsAny, Chunk.inputs] using member
  | namespaced namespaceName chunks =>
      simp only [Chunk.flatten] at member ⊢
      exact bound_mem_flattenChunks chunks member
  | styles properties =>
      simp [Chunk.flatten, inputsAny, Chunk.inputs] at member

theorem bound_mem_flattenChunks (chunks : List Chunk) {binding : Binding}
    (member : binding ∈ inputsAny (flattenChunks chunks)) :
    Chunk.bound binding ∈ flattenChunks chunks := by
  cases chunks with
  | nil => simp [flattenChunks, inputsAny] at member
  | cons chunk chunks =>
      simp only [flattenChunks, inputsAny_append, List.mem_append]
        at member ⊢
      rcases member with head | tail
      · exact .inl (Chunk.bound_mem_flatten chunk head)
      · exact .inr (bound_mem_flattenChunks chunks tail)

end

namespace SyncGroup

variable {host : Host σ} {meaning : Meaning} {group : SyncGroup}

theorem IsRendered.mem_bindings (rendered : group.IsRendered)
    {binding : Binding} (member : binding ∈ inputsAny group.chunks) :
    binding ∈ group.bindings := by
  obtain ⟨kept, schema, chunks⟩ := rendered
  rw [SyncGroup.mem_bindings, chunks, List.mem_append]
  rw [chunks, inputsAny_append, List.mem_append] at member
  rcases member with before | behind
  · simp [inputsAny_map_fixed] at before
  · exact .inr (bound_mem_flattenChunks schema behind)

theorem shown_current_eq (respects : meaning.Respects)
    (rendered : group.IsRendered) (world later : World σ)
    (alike : ∀ binding ∈ group.bindings,
      (world.property binding.observable binding.property).Alike
        (later.property binding.observable binding.property))
    (tag : later.dom.tag? group.slot.node = world.dom.tag? group.slot.node) :
    group.slot.shown (group.current meaning later) =
      group.slot.shown (group.current meaning world) := by
  symm
  apply Slot.shown_eq_of_alike
  unfold current
  rw [tag]
  exact schemaValue_alike respects fun binding member =>
    alike binding (rendered.mem_bindings member)

/-- What no undisturbed run takes away: the listeners of the group and the
node that it writes to. -/
structure Lasting (group : SyncGroup) (world later : World σ) : Prop where
  listeners : ∀ o listener, listener.action = .sync group →
    listener ∈ (world.reactionsOf o).entries →
    listener ∈ (later.reactionsOf o).entries
  target : (group.slot.content? world.dom).isSome = true →
    (group.slot.content? later.dom).isSome = true

namespace Lasting

theorem refl (world : World σ) : group.Lasting world world := by
  exact ⟨fun _ _ _ member => member, id⟩

theorem trans {world between later : World σ}
    (first : group.Lasting world between)
    (second : group.Lasting between later) : group.Lasting world later where
  listeners o listener action member :=
    second.listeners o listener action
      (first.listeners o listener action member)
  target present := second.target (first.target present)

theorem wired {world later : World σ} (lasting : group.Lasting world later)
    (wired : group.Wired world) : group.Wired later := by
  intro binding member
  obtain ⟨listener, present, event, action⟩ := wired binding member
  exact ⟨listener, lasting.listeners _ listener action present, event, action⟩

end Lasting

theorem Spared.of_same {world later : World σ}
    (properties : later.properties = world.properties)
    (reactions : later.reactions = world.reactions)
    (dom : later.dom = world.dom) : group.Spared world later := by
  refine ⟨fun binding _ => ?_, fun _ => ?_, fun o listener _ => ?_⟩
  · simp only [World.property, World.propertiesOf, properties]
  · simp only [dom, and_self]
  · simp only [World.reactionsOf, reactions]

theorem Spared.lasting {world later : World σ}
    (spared : group.Spared world later) : group.Lasting world later where
  listeners o listener action member :=
    (spared.listeners o listener action).mpr member
  target present := by
    rw [(spared.target present).1]
    exact present

theorem Spared.listening {world later : World σ}
    (spared : group.Spared world later) (listening : group.Listening later) :
    group.Listening world := by
  obtain ⟨o, listener, member, action⟩ := listening
  exact ⟨o, listener, (spared.listeners o listener action).mp member, action⟩

theorem Spared.settled (respects : meaning.Respects)
    (rendered : group.IsRendered) {world later : World σ}
    (spared : group.Spared world later)
    (settled : group.Settled meaning world) :
    group.Settled meaning later := by
  intro listening
  obtain ⟨wired, isShown⟩ := settled (spared.listening listening)
  refine ⟨spared.lasting.wired wired, ?_⟩
  obtain ⟨content, tag⟩ := spared.target (by rw [isShown]; rfl)
  have same := shown_current_eq respects rendered world later
    (fun binding member => .inl (spared.property binding member).symm) tag
  rw [IsShown, content, same]
  exact isShown

theorem after_sync (follows : group.Follows host meaning)
    (rendered : group.IsRendered) (world : World σ) :
    (group.sync host).after world =
      { world with
        dom := group.slot.display world.dom (group.current meaning world) } := by
  have means : ∀ binding ∈ inputsAny group.chunks,
      binding.Means host meaning := fun binding member =>
    follows binding (rendered.mem_bindings member)
  have unchanged := after_evaluate group.slot.node world
    fun binding member => (means binding member).isPure
  have value := result_evaluate group.slot.node world means
  simp only [sync, Act.after_bind, unchanged, value, Act.after_modifyDom]
  rfl

theorem lasting_sync (follows : group.Follows host meaning)
    (rendered : group.IsRendered) (world : World σ) :
    group.Lasting world ((group.sync host).after world) := by
  rw [after_sync follows rendered]
  refine ⟨fun _ _ _ member => member, fun present => ?_⟩
  simp [Slot.content?_display present]

theorem isShown_sync (follows : group.Follows host meaning)
    (rendered : group.IsRendered) (world : World σ)
    (present : (group.slot.content? world.dom).isSome = true) :
    group.IsShown meaning ((group.sync host).after world) := by
  rw [after_sync follows rendered, IsShown, Slot.content?_display present]
  simp only [current, Slot.tag?_display present]
  rfl

theorem after_listenAll (group : SyncGroup) (bindings : List Binding)
    (world : World σ) :
    let later := (bindings.mapM fun binding =>
      Emitter.listenToObservable binding.emitter binding.observable
        (changeOf binding.property) (.sync group)).after world
    later.dom = world.dom ∧
      (∀ o name, later.property o name = world.property o name) ∧
      (∀ o, ∀ listener ∈ (world.reactionsOf o).entries,
        listener ∈ (later.reactionsOf o).entries) ∧
      ∀ binding ∈ bindings,
        ∃ listener ∈ (later.reactionsOf binding.observable).entries,
          listener.event = changeOf binding.property ∧
            listener.action = .sync group := by
  induction bindings generalizing world with
  | nil => simp
  | cons binding rest ih =>
      simp only [List.mapM_cons, Act.after_bind, Act.after_pure]
      generalize between :
        (Emitter.listenToObservable binding.emitter binding.observable
          (changeOf binding.property) (.sync group)).after world = next
      have added : (⟨⟨(world.reactionsOf binding.observable).next⟩,
          changeOf binding.property, .sync group⟩ : Listener Reaction) ∈
            (next.reactionsOf binding.observable).entries := by
        rw [← between, Emitter.entries_listenToObservable_self]
        simp
      obtain ⟨dom, property, stay, wired⟩ := ih next
      refine ⟨by rw [dom, ← between]; rfl, fun o name => ?_,
        fun o listener member => stay o listener ?_, fun other member => ?_⟩
      · rw [property, ← between]
        rfl
      · rw [← between]
        exact Emitter.mem_entries_listenToObservable _ _ o _ _ world member
      · rcases List.mem_cons.mp member with rfl | later
        · exact ⟨_, stay _ _ added, rfl, rfl⟩
        · exact wired other later

theorem after_bind (host : Host σ) (world : World σ) :
    (group.bind host).after world =
      (group.bindings.mapM fun binding =>
        Emitter.listenToObservable binding.emitter binding.observable
          (changeOf binding.property) (.sync group)).after
        ((group.sync host).after world) := rfl

/-- A new group listens to all its properties and shows their value. -/
theorem lasting_bind (follows : group.Follows host meaning)
    (rendered : group.IsRendered) (world : World σ) :
    group.Lasting world ((group.bind host).after world) := by
  obtain ⟨dom, _, stay, _⟩ := after_listenAll group group.bindings
    ((group.sync host).after world)
  rw [after_bind]
  refine (lasting_sync follows rendered world).trans
    ⟨fun o listener _ member => stay o listener member, fun present => ?_⟩
  rw [dom]
  exact present

theorem settled_bind (follows : group.Follows host meaning)
    (rendered : group.IsRendered) {world : World σ}
    (present : (group.slot.content? world.dom).isSome = true) :
    group.Settled meaning ((group.bind host).after world) := by
  intro _listening
  obtain ⟨dom, property, _, wired⟩ := after_listenAll group group.bindings
    ((group.sync host).after world)
  rw [after_bind]
  refine ⟨wired, ?_⟩
  have isShown : group.IsShown meaning ((group.sync host).after world) :=
    isShown_sync follows rendered world present
  have reading := funext fun o => funext (property o)
  rw [IsShown, current, dom, reading]
  exact isShown

end SyncGroup

theorem Observable.after_notifyEach_cons (host : Host σ) (o : ObservableId)
    (notice : Notice) (listener : Listener Reaction)
    (rest : List (Listener Reaction)) (world : World σ) :
    (Observable.notifyEach host o notice (listener :: rest)).after world =
      (Observable.notifyEach host o notice rest).after
        (if (world.reactionsOf o).contains listener.id then
          (keeping (.listeners (listener :: rest))
            (Observable.react host notice listener.action)).after world
        else world) := by
  cases contained : (world.reactionsOf o).contains listener.id <;>
    simp [Observable.notifyEach, contained]

namespace SyncGroup

variable {host : Host σ} {meaning : Meaning} {group : SyncGroup}

/-- A listener of the group is still waiting for its turn. -/
def Due (group : SyncGroup) (o : ObservableId)
    (waiting : List (Listener Reaction)) (world : World σ) : Prop :=
  ∃ listener ∈ waiting, listener.action = .sync group ∧
    listener ∈ (world.reactionsOf o).entries

private theorem lasting_notifyEach {o : ObservableId} {notice : Notice}
    (waiting : List (Listener Reaction)) (world : World σ)
    (turns : ∀ turn ∈ Observable.turns host o notice waiting world,
      group.Lasting turn.1 turn.2) :
    group.Lasting world
      ((Observable.notifyEach host o notice waiting).after world) := by
  induction waiting generalizing world with
  | nil => exact .refl world
  | cons listener rest ih =>
      rw [Observable.after_notifyEach_cons]
      by_cases contained :
          (world.reactionsOf o).contains listener.id = true
      · simp only [Observable.turns, contained, if_true, List.mem_cons]
          at turns ⊢
        exact (turns _ (.inl rfl)).trans
          (ih _ fun turn member => turns turn (.inr member))
      · simp only [Observable.turns, contained] at turns ⊢
        exact ih world turns

/-- After a notice the group is settled if it was so before, or if one of its
listeners was waiting for it. -/
theorem settled_notifyEach (follows : group.Follows host meaning)
    (rendered : group.IsRendered) {o : ObservableId}
    {notice : Notice} (waiting : List (Listener Reaction)) (world : World σ)
    (turns : ∀ turn ∈ Observable.turns host o notice waiting world,
      group.Lasting turn.1 turn.2 ∧
        (group.Settled meaning turn.1 → group.Settled meaning turn.2))
    (before : group.Settled meaning world ∨
      group.Wired world ∧ (group.slot.content? world.dom).isSome = true ∧
        group.Due o waiting world) :
    group.Settled meaning
      ((Observable.notifyEach host o notice waiting).after world) := by
  induction waiting generalizing world with
  | nil =>
      rcases before with settled | ⟨_, _, listener, member, _⟩
      · exact settled
      · cases member
  | cons listener rest ih =>
      rw [Observable.after_notifyEach_cons]
      by_cases contained :
          (world.reactionsOf o).contains listener.id = true
      · simp only [Observable.turns, contained, if_true, List.mem_cons]
          at turns ⊢
        obtain ⟨lasting, settles⟩ := turns _ (.inl rfl)
        refine ih _ (fun turn member => turns turn (.inr member)) ?_
        rcases before with settled | ⟨wired, present, due⟩
        · exact .inl (settles settled)
        obtain ⟨waiter, member, action, subscribed⟩ := due
        rcases List.mem_cons.mp member with rfl | later
        · -- The turn of the group itself.
          left
          intro _listening
          refine ⟨lasting.wired wired, ?_⟩
          rw [action]
          exact isShown_sync follows rendered (world.holding _) present
        · right
          exact ⟨lasting.wired wired, lasting.target present, waiter, later,
            action, lasting.listeners o waiter action subscribed⟩
      · simp only [Observable.turns, contained] at turns ⊢
        refine ih world turns ?_
        rcases before with settled | ⟨wired, present, due⟩
        · exact .inl settled
        obtain ⟨waiter, member, action, subscribed⟩ := due
        rcases List.mem_cons.mp member with rfl | later
        · exact absurd (Listeners.contains_iff_mem.mpr
            (List.mem_map_of_mem subscribed)) contained
        · exact .inr ⟨wired, present, waiter, later, action, subscribed⟩

private theorem settled_or_due_store (respects : meaning.Respects)
    (rendered : group.IsRendered) {world : World σ}
    (settled : group.Settled meaning world) (o : ObservableId)
    (name : String) (value : Value) :
    let stored := (Observable.store o name value).after world
    group.Settled meaning stored ∨
      group.Wired stored ∧ (group.slot.content? stored.dom).isSome = true ∧
        group.Due o ((stored.reactionsOf o).of (changeOf name)) stored := by
  by_cases listening : group.Listening world
  · obtain ⟨wired, isShown⟩ := settled listening
    by_cases bound : ∃ binding ∈ group.bindings,
        binding.observable = o ∧ binding.property = name
    · obtain ⟨binding, member, rfl, rfl⟩ := bound
      obtain ⟨listener, present, event, action⟩ := wired binding member
      refine .inr ⟨wired, ?_, listener, ?_, action, present⟩
      · rw [Observable.dom_store, isShown]
        rfl
      · exact List.mem_filter.mpr ⟨present, by simp [event]⟩
    · left
      intro _listening
      refine ⟨wired, ?_⟩
      have same := shown_current_eq respects rendered world
        ((Observable.store o name value).after world)
        (fun binding member => .inl (Observable.property_store_of_ne value
          world fun equal => bound ⟨binding, member, equal⟩).symm) rfl
      rw [IsShown, same]
      exact isShown
  · exact .inl fun later => absurd later listening

/-- Storing a value that agrees with the present one changes nothing that is
shown. -/
theorem settled_store_of_agrees (respects : meaning.Respects)
    (rendered : group.IsRendered) {world : World σ}
    (settled : group.Settled meaning world) {o : ObservableId}
    {name : String} {value : Value}
    (agree : (world.property o name).agrees value = true) :
    group.Settled meaning ((Observable.store o name value).after world) := by
  intro listening
  obtain ⟨wired, isShown⟩ := settled listening
  refine ⟨wired, ?_⟩
  have same := shown_current_eq respects rendered world
    ((Observable.store o name value).after world)
    (fun binding member => ?_) rfl
  · rw [IsShown, same]
    exact isShown
  · by_cases bound : binding.observable = o ∧ binding.property = name
    · obtain ⟨rfl, rfl⟩ := bound
      rw [Observable.property_store_self]
      exact .inr agree
    · exact .inl (Observable.property_store_of_ne value world bound).symm

theorem Undisturbed.settles (respects : meaning.Respects)
    (rendered : group.IsRendered) {start finish : World σ}
    (run : group.Undisturbed meaning start finish) :
    group.Lasting start finish ∧
      (group.Settled meaning start → group.Settled meaning finish) := by
  induction run with
  | step spared =>
      exact ⟨spared.lasting, spared.settled respects rendered⟩
  | trans _ _ first second =>
      exact ⟨first.1.trans second.1, fun settled =>
        second.2 (first.2 settled)⟩
  | create follows present =>
      exact ⟨lasting_bind follows rendered _, fun _settled =>
        settled_bind follows rendered present⟩
  | @sync host world follows =>
      refine ⟨lasting_sync follows rendered _, fun settled listening => ?_⟩
      have before : group.Listening world := by
        rw [after_sync follows rendered] at listening
        exact listening
      obtain ⟨wired, isShown⟩ := settled before
      refine ⟨(lasting_sync follows rendered world).wired wired,
        isShown_sync follows rendered world ?_⟩
      rw [isShown]
      rfl
  | set host world o name value follows _ ih =>
      rw [Observable.after_set]
      cases agree : (world.property o name).agrees value with
      | true =>
          exact ⟨⟨fun _ _ _ member => member, id⟩, fun settled =>
            settled_store_of_agrees respects rendered settled agree⟩
      | false =>
          have turns := ih agree
          refine ⟨?_, fun settled => ?_⟩
          · have stored : group.Lasting world
                ((Observable.store o name value).after world) :=
              ⟨fun _ _ _ member => member, id⟩
            exact stored.trans (lasting_notifyEach _ _ fun turn member =>
              (turns turn member).1)
          · exact settled_notifyEach follows rendered _ _ turns
              (settled_or_due_store respects rendered settled o name value)

theorem Undisturbed.keeping {α : Type} (frame : Frame) (action : Act σ α)
    {world : World σ}
    (run : group.Undisturbed meaning
      (world.holding (frame :: world.frames))
      (action.after (world.holding (frame :: world.frames)))) :
    group.Undisturbed meaning world
      ((LiveTemplate.keeping frame action).after world) := by
  have held (between : World σ) (frames : List Frame) :
      group.Undisturbed meaning between (between.holding frames) :=
    .step (.of_same rfl rfl rfl)
  rw [after_keeping]
  exact (held world _).trans (run.trans (held _ _))

theorem Undisturbed.fire {o : ObservableId} {name : String}
    {payload : Payload} {world : World σ}
    (turns : ∀ turn ∈ Observable.turns host o ⟨name, payload⟩
        ((world.reactionsOf o).of name) world,
      group.Undisturbed meaning turn.1 turn.2) :
    group.Undisturbed meaning world
      ((Observable.fire host o name payload).after world) := by
  have told (waiting : List (Listener Reaction)) (world : World σ)
      (turns : ∀ turn ∈ Observable.turns host o ⟨name, payload⟩ waiting world,
        group.Undisturbed meaning turn.1 turn.2) :
      group.Undisturbed meaning world
        ((Observable.notifyEach host o ⟨name, payload⟩ waiting).after
          world) := by
    induction waiting generalizing world with
    | nil => exact .step (.of_same rfl rfl rfl)
    | cons listener rest ih =>
        rw [Observable.after_notifyEach_cons]
        by_cases contained :
            (world.reactionsOf o).contains listener.id = true
        · simp only [Observable.turns, contained, if_true, List.mem_cons]
            at turns ⊢
          exact (turns _ (.inl rfl)).trans
            (ih _ fun turn member => turns turn (.inr member))
        · simp only [Observable.turns, contained] at turns ⊢
          exact ih world turns
  exact told _ world turns

theorem Undisturbed.turns_of_sync (follows : group.Follows host meaning)
    {o : ObservableId} {notice : Notice}
    (waiting : List (Listener Reaction)) (world : World σ)
    (own : ∀ listener ∈ waiting, listener.action = .sync group) :
    ∀ turn ∈ Observable.turns host o notice waiting world,
      group.Undisturbed meaning turn.1 turn.2 := by
  induction waiting generalizing world with
  | nil =>
      intro turn member
      cases member
  | cons listener rest ih =>
      have head : listener.action = .sync group := own listener (by simp)
      have tail : ∀ later ∈ rest, later.action = .sync group :=
        fun later member => own later (List.mem_cons_of_mem listener member)
      unfold Observable.turns
      split
      · intro turn member
        rcases List.mem_cons.mp member with rfl | later
        · rw [head]
          exact .keeping _ _ (.sync follows)
        · exact ih _ tail turn later
      · exact ih world tail

/-- The slot of a group that was made on the way, before or while a notice was
under way, shows the value of its schema for the present properties after every
run that leaves the group to itself. -/
theorem slot_shows_value_after_run {start finish : World σ}
    (rendered : group.IsRendered) (respects : meaning.Respects)
    (follows : group.Follows host meaning) (fresh : ¬group.Listening start)
    (run : group.Undisturbed meaning start finish)
    (listening : group.Listening finish) :
    let evaluation := evaluate host group.slot.node group.chunks
    evaluation.after finish = finish ∧
      group.slot.content? finish.dom =
        some (group.slot.shown (evaluation.result finish)) := by
  have settled : group.Settled meaning finish :=
    (run.settles respects rendered).2 fun begun => absurd begun fresh
  have means : ∀ binding ∈ inputsAny group.chunks,
      binding.Means host meaning := fun binding member =>
    follows binding (rendered.mem_bindings member)
  refine ⟨after_evaluate group.slot.node finish fun binding member =>
    (means binding member).isPure, ?_⟩
  rw [result_evaluate group.slot.node finish means]
  exact (settled listening).2

end SyncGroup

end LiveTemplate
