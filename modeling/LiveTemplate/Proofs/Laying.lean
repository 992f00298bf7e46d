import LiveTemplate.Proofs.Enrolling
import LiveTemplate.Proofs.Synchronisation

/-!
# Laying groups

When a template is applied, each attribute that it binds gets a group.  The
group owns the listeners it has been given, whose numbers are all new, one for
each of its bindings.  As long as handlers only compute, no listener goes while
the template is applied, so that the group is all there afterwards.
-/

namespace LiveTemplate

variable {σ : Type}

namespace World

/-- The listeners of observables have numbers that were given out. -/
def IsDated (world : World σ) : Prop :=
  ∀ o, ∀ listener ∈ (world.reactionsOf o).entries,
    world.Issued ⟨.observable o, listener.id⟩

/-- More numbers have been given out, and listeners have such numbers. -/
structure Ages (world later : World σ) : Prop where
  next : ∀ source, world.nextAt source ≤ later.nextAt source
  dated : world.IsDated → later.IsDated

theorem Ordered.isDated {world : World σ} (ordered : world.Ordered) :
    world.IsDated := by
  intro o listener member
  exact ordered.listeners ⟨.observable o, listener.id⟩
    (List.mem_map_of_mem member)

namespace Ages

variable {world between later : World σ}

theorem issued (ages : Ages world later) {subscription : Subscription}
    (issued : world.Issued subscription) : later.Issued subscription :=
  Nat.lt_of_lt_of_le issued (ages.next _)

theorem trans (first : Ages world between) (second : Ages between later) :
    Ages world later where
  next source := Nat.le_trans (first.next source) (second.next source)
  dated dated := second.dated (first.dated dated)

/-- The listeners of observables stay as they are. -/
theorem aside (next : ∀ source, world.nextAt source ≤ later.nextAt source)
    (reactions : later.reactions = world.reactions) : Ages world later := by
  refine ⟨next, fun dated o listener member => ?_⟩
  rw [reactionsOf, reactions] at member
  exact Nat.lt_of_lt_of_le (dated o listener member) (next _)

theorem listenToObservable (e : EmitterId) (o : ObservableId) (event : String)
    (reaction : Reaction) :
    (Emitter.listenToObservable e o event reaction).Within
      (Ages (σ := σ)) := by
  intro world
  have added := Observable.added_subscribe world o event reaction
  refine ⟨added.step.next, fun dated other listener member => ?_⟩
  by_cases same : other = o
  · subst same
    rw [Emitter.entries_listenToObservable_self] at member
    rcases List.mem_append.mp member with old | new
    · exact Nat.lt_of_lt_of_le (dated _ listener old) (added.step.next _)
    · rw [List.mem_singleton.mp new]
      exact added.issued
  · rw [Emitter.reactionsOf_listenToObservable_of_ne _ _ _ _ same] at member
    exact Nat.lt_of_lt_of_le (dated _ listener member) (added.step.next _)

theorem listenToNode (e : EmitterId) (n : NodeId) (type : String)
    (action : EventAction) :
    (Emitter.listenToNode e n type action).Within (Ages (σ := σ)) := by
  intro world
  exact .aside (NodeEvents.added_subscribe world n type action).step.next rfl

end Ages

end World

/-- Listeners with new numbers have come, and none has gone. -/
structure World.Gains (world later : World σ) : Prop
    extends World.Enrolls world later where
  dated : world.IsDated → later.IsDated

namespace World.Gains

variable {world between later : World σ}

theorem ages (gains : Gains world later) : Ages world later := by
  exact ⟨gains.next, gains.dated⟩

theorem trans (first : Gains world between) (second : Gains between later) :
    Gains world later where
  toEnrolls := first.toEnrolls.trans second.toEnrolls
  dated dated := second.dated (first.dated dated)

theorem aside (reactions : later.reactions = world.reactions)
    (eventActions : later.eventActions = world.eventActions) :
    Gains world later where
  toEnrolls := .aside reactions eventActions
  dated := (Ages.aside (fun source => Nat.le_of_eq
    (nextAt_congr reactions eventActions source).symm) reactions).dated

theorem refl (world : World σ) : Gains world world := by
  exact .aside rfl rfl

theorem listeners (gains : Gains world later) {o : ObservableId}
    {listener : Listener Reaction}
    (member : listener ∈ (world.reactionsOf o).entries) :
    listener ∈ (later.reactionsOf o).entries := by
  obtain ⟨added, grown, _⟩ := gains.reactions o
  rw [grown]
  exact List.mem_append_left _ member

end World.Gains

theorem Host.OnlyComputes.gains {host : Host σ}
    (computes : host.OnlyComputes) : host.Bears World.Gains where
  transform handler value node world := by
    rw [computes]
    exact .refl world
  trans := World.Gains.trans
  aside reactions eventActions _ _ _ := .aside reactions eventActions
  listenToObservable e o event reaction world :=
    ⟨.listenToObservable e o event reaction world,
      (World.Ages.listenToObservable e o event reaction world).dated⟩
  listenToNode e n type action world :=
    ⟨.listenToNode e n type action world,
      (World.Ages.listenToNode e n type action world).dated⟩

namespace SyncGroup

/-- The group is bound to a property of an observable. -/
def BoundTo (group : SyncGroup) (o : ObservableId) (property : String) : Prop :=
  ∃ binding ∈ group.bindings,
    binding.observable = o ∧ binding.property = property

instance (group : SyncGroup) (o : ObservableId) (property : String) :
    Decidable (group.BoundTo o property) :=
  inferInstanceAs (Decidable (∃ binding ∈ group.bindings,
    binding.observable = o ∧ binding.property = property))

/-- A group that listens to some bindings gets one listener for each, behind
all others of the observable. -/
theorem added_listenAll (group : SyncGroup) (bindings : List Binding)
    (world : World σ) (o : ObservableId) :
    ∃ added,
      (((bindings.mapM fun binding =>
        Emitter.listenToObservable binding.emitter binding.observable
          (changeOf binding.property) (.sync group)).after
            world).reactionsOf o).entries =
          (world.reactionsOf o).entries ++ added ∧
        (∀ listener ∈ added, ¬world.Issued ⟨.observable o, listener.id⟩) ∧
        added.map (fun listener => (listener.event, listener.action)) =
          (bindings.filter (·.observable = o)).map fun binding =>
            (changeOf binding.property, .sync group) := by
  induction bindings generalizing world with
  | nil => exact ⟨[], (List.append_nil _).symm, nofun, rfl⟩
  | cons binding rest ih =>
      rw [List.mapM_cons]
      let next := (Emitter.listenToObservable binding.emitter
        binding.observable (changeOf binding.property) (.sync group)).after
          world
      have ages : world.Ages next := .listenToObservable _ _ _ _ world
      obtain ⟨added, grown, unissued, contents⟩ := ih next
      have new : ∀ listener ∈ added,
          ¬world.Issued ⟨.observable o, listener.id⟩ :=
        fun listener member issued =>
          unissued listener member (ages.issued issued)
      by_cases here : binding.observable = o
      · subst here
        refine ⟨⟨⟨(world.reactionsOf binding.observable).next⟩,
          changeOf binding.property, .sync group⟩ :: added, ?_, ?_, ?_⟩
        · refine grown.trans ?_
          rw [Emitter.entries_listenToObservable_self, List.append_assoc]
          rfl
        · exact List.forall_mem_cons.mpr ⟨Nat.lt_irrefl _, new⟩
        · rw [List.map_cons, contents,
            List.filter_cons_of_pos (by simp), List.map_cons]
      · refine ⟨added, grown.trans ?_, new, ?_⟩
        · rw [Emitter.reactionsOf_listenToObservable_of_ne _ _ _ _
            (Ne.symm here)]
        · rw [contents, List.filter_cons_of_neg (by simpa using here)]

end SyncGroup

/-- The group shows an attribute of a definition, behind what is kept of the
present value if there is such. -/
def SyncGroup.Renders (group : SyncGroup) (node : NodeId)
    (entry : String × Schema) : Prop :=
  ∃ kept : List Value,
    (kept ≠ [] → Blueprint.isExtendable entry.1 = true) ∧
    group = ⟨kept.map .fixed ++ flattenChunks entry.2,
      .attr node (Schema.namespace? entry.2) entry.1⟩

theorem SyncGroup.Renders.isRendered {group : SyncGroup} {node : NodeId}
    {entry : String × Schema} (renders : group.Renders node entry) :
    group.IsRendered := by
  obtain ⟨kept, _, rfl⟩ := renders
  exact ⟨kept, entry.2, rfl⟩

/-- A group that shares a target, and the world in which it is bound. -/
structure Sharer (σ : Type) where
  group : SyncGroup
  start : World σ

namespace Sharer

/-- The world once the group is bound. -/
def bound (host : Host σ) (sharer : Sharer σ) : World σ :=
  (sharer.group.bind host).after sharer.start

/-- The listener was registered when the group was bound. -/
def Owns (host : Host σ) (sharer : Sharer σ) (o : ObservableId)
    (listener : Listener Reaction) : Prop :=
  listener ∈ ((sharer.bound host).reactionsOf o).entries ∧
    listener ∉ (sharer.start.reactionsOf o).entries

/-- All listeners that the group has got are there. -/
def IsLive (host : Host σ) (world : World σ) (sharer : Sharer σ) : Prop :=
  ∀ o listener, sharer.Owns host o listener →
    listener ∈ (world.reactionsOf o).entries

/-- The group is bound between two worlds. -/
structure IsBetween (host : Host σ) (world later : World σ)
    (sharer : Sharer σ) : Prop where
  before : world.Gains sharer.start
  after : (sharer.bound host).Gains later

/-- Applying a template to a node has bound the group to an attribute. -/
structure Arises (host : Host σ) (t : TemplateId) (node : NodeId)
    (namespaceName : Option String) (name : String) (world : World σ)
    (sharer : Sharer σ) : Prop extends
    sharer.IsBetween host world ((Template.apply host t node).after world) where
  entry : ∃ schema, (name, schema) ∈ (world.template t).blueprint.attributes ∧
    Schema.namespace? schema = namespaceName ∧
    sharer.group.Renders node (name, schema)

variable {host : Host σ} {meaning : Meaning} {sharer : Sharer σ}

theorem gains_bound (computes : host.OnlyComputes) (sharer : Sharer σ) :
    sharer.start.Gains (sharer.bound host) := by
  exact computes.gains.bounds.bind sharer.group sharer.start fun _ _ => trivial

theorem exists_added (follows : sharer.group.Follows host meaning)
    (rendered : sharer.group.IsRendered) (o : ObservableId) :
    ∃ added,
      ((sharer.bound host).reactionsOf o).entries =
        (sharer.start.reactionsOf o).entries ++ added ∧
      (∀ listener ∈ added,
        ¬sharer.start.Issued ⟨.observable o, listener.id⟩) ∧
      added.map (fun listener => (listener.event, listener.action)) =
        (sharer.group.bindings.filter (·.observable = o)).map fun binding =>
          (changeOf binding.property, .sync sharer.group) := by
  have listens := sharer.group.added_listenAll sharer.group.bindings
    ((sharer.group.sync host).after sharer.start) o
  rw [bound, SyncGroup.after_bind]
  rw [SyncGroup.after_sync follows rendered] at listens ⊢
  exact listens

/-- The listeners of a group bring it up to date when a property changes that
it is bound to. -/
theorem Owns.reacts {o : ObservableId} {listener : Listener Reaction}
    (follows : sharer.group.Follows host meaning)
    (rendered : sharer.group.IsRendered)
    (owns : sharer.Owns host o listener) :
    listener.action = .sync sharer.group ∧
      ¬sharer.start.Issued ⟨.observable o, listener.id⟩ ∧
      ∃ binding ∈ sharer.group.bindings, binding.observable = o ∧
        listener.event = changeOf binding.property := by
  obtain ⟨added, entries, unissued, contents⟩ :=
    exists_added follows rendered o
  obtain ⟨member, foreign⟩ := owns
  rw [entries] at member
  have new := (List.mem_append.mp member).resolve_left foreign
  have content := List.mem_map_of_mem
    (f := fun listener => (listener.event, listener.action)) new
  rw [contents] at content
  obtain ⟨binding, among, same⟩ := List.mem_map.mp content
  obtain ⟨bound, here⟩ := List.mem_filter.mp among
  rw [Prod.mk.injEq] at same
  exact ⟨same.2.symm, unissued listener new, binding, bound,
    of_decide_eq_true here, same.1.symm⟩

theorem exists_owned (follows : sharer.group.Follows host meaning)
    (rendered : sharer.group.IsRendered) (dated : sharer.start.IsDated)
    {o : ObservableId} {property : String}
    (bound : sharer.group.BoundTo o property) :
    ∃ listener, sharer.Owns host o listener ∧
      listener.event = changeOf property := by
  obtain ⟨binding, member, here, named⟩ := bound
  obtain ⟨added, entries, unissued, contents⟩ :=
    exists_added follows rendered o
  have content : (changeOf property, Reaction.sync sharer.group) ∈
      added.map fun listener => (listener.event, listener.action) := by
    rw [contents]
    refine List.mem_map.mpr ⟨binding, List.mem_filter.mpr
      ⟨member, decide_eq_true here⟩, by rw [named]⟩
  obtain ⟨listener, new, same⟩ := List.mem_map.mp content
  refine ⟨listener, ⟨?_, fun old => ?_⟩, (Prod.mk.inj same).1⟩
  · rw [entries]
    exact List.mem_append_right _ new
  · exact unissued listener new (dated o listener old)

theorem IsLive.gains {world later : World σ}
    (live : sharer.IsLive host world) (gains : world.Gains later) :
    sharer.IsLive host later := by
  intro o listener owns
  exact gains.listeners (live o listener owns)

namespace IsBetween

variable {world later : World σ} (between : sharer.IsBetween host world later)

include between

theorem isLive : sharer.IsLive host later := by
  intro _ _ owns
  exact between.after.listeners owns.1

theorem gains (computes : host.OnlyComputes) : world.Gains later := by
  exact (between.before.trans (gains_bound computes sharer)).trans between.after

/-- If an observable got no other listeners meanwhile, the group owns all that
are new. -/
theorem owns_new (follows : sharer.group.Follows host meaning)
    (rendered : sharer.group.IsRendered) {o : ObservableId}
    (count : (later.reactionsOf o).entries.length =
      (world.reactionsOf o).entries.length +
        (sharer.group.bindings.filter (·.observable = o)).length)
    {listener : Listener Reaction}
    (member : listener ∈ (later.reactionsOf o).entries)
    (new : listener ∉ (world.reactionsOf o).entries) :
    sharer.Owns host o listener := by
  obtain ⟨before, start, _⟩ := between.before.reactions o
  obtain ⟨added, bound, _, contents⟩ := exists_added follows rendered o
  obtain ⟨after, finish, _⟩ := between.after.reactions o
  have number : added.length =
      (sharer.group.bindings.filter (·.observable = o)).length := by
    have lengths := congrArg List.length contents
    rwa [List.length_map, List.length_map] at lengths
  have lengths := congrArg List.length finish
  rw [bound, start, List.length_append, List.length_append, List.length_append,
    number, count] at lengths
  have none : before = [] := List.length_eq_zero_iff.mp (by omega)
  have last : after = [] := List.length_eq_zero_iff.mp (by omega)
  rw [none, List.append_nil] at start
  rw [last, List.append_nil] at finish
  exact ⟨finish ▸ member, start ▸ new⟩

end IsBetween

end Sharer

/-- A group that shows an attribute of a definition is bound between two
worlds. -/
def Lays (host : Host σ) (node : NodeId) (entry : String × Schema)
    (world later : World σ) : Prop :=
  ∃ sharer : Sharer σ, sharer.group.Renders node entry ∧
    sharer.IsBetween host world later

section Passes

variable {host : Host σ} {node : NodeId} {entry : String × Schema}
  {record : Record} {world between later : World σ}

theorem Lays.after_gains (gains : world.Gains between)
    (lays : Lays host node entry between later) :
    Lays host node entry world later := by
  obtain ⟨sharer, renders, inside⟩ := lays
  exact ⟨sharer, renders, gains.trans inside.before, inside.after⟩

theorem Lays.gains (lays : Lays host node entry world between)
    (gains : between.Gains later) : Lays host node entry world later := by
  obtain ⟨sharer, renders, inside⟩ := lays
  exact ⟨sharer, renders, inside.before, inside.after.trans gains⟩

theorem Pass.Within.ensures {α : Type} {pass : Pass σ α}
    {relation : World σ → World σ → Prop} (within : pass.Within relation) :
    pass.Ensures record world fun _ later => relation world later := by
  intro _ _ _
  exact within record world

/-- What is laid is not undone by what comes afterwards. -/
theorem Pass.Ensures.lays_bind {α β : Type} {pass : Pass σ α}
    {next : α → Pass σ β}
    (lays : pass.Ensures record world fun _ later =>
      Lays host node entry world later)
    (within : ∀ a, (next a).Within World.Gains) :
    (pass >>= next).Ensures record world fun _ later =>
      Lays host node entry world later := by
  refine lays.bind fun a _ _ laid => ?_
  exact (within a).ensures.weaken fun _ _ gains => laid.gains gains

namespace Blueprint

variable {blueprint : Blueprint} {mounter : Mounter σ} {nested : Nested σ}
  (computes : host.OnlyComputes)

/-- An attribute with a binding is laid. -/
theorem lays_renderAttribute
    (bound : (flattenChunks entry.2).any Chunk.isBound = true) :
    (renderAttribute host node true entry.1 entry.2).Ensures record world
      fun _ later => Lays host node entry world later := by
  have slot (kept : List Value)
      (extendable : kept ≠ [] → isExtendable entry.1 = true)
      (record : Record) :
      (renderSlot host (.attr node (Schema.namespace? entry.2) entry.1)
        (kept.map .fixed ++ flattenChunks entry.2)).Ensures record world
          fun _ later => Lays host node entry world later := by
    have some : (kept.map Chunk.fixed ++ flattenChunks entry.2).any
        Chunk.isBound = true := by
      rw [List.any_append, bound, Bool.or_true]
    unfold renderSlot
    rw [if_pos some]
    exact .act_bind (.note ⟨⟨_, world⟩, ⟨kept, extendable, rfl⟩,
      .refl world, .refl _⟩)
  unfold renderAttribute
  refine .act_bind (.note_bind ?_)
  rw [Act.result_get, Act.after_get]
  cases world.dom.attributeNs? node (Schema.namespace? entry.2) entry.1 with
  | none => exact slot [] (fun some => absurd rfl some) _
  | some text =>
      cases extendable : isExtendable entry.1 with
      | false => exact slot [] (fun some => absurd rfl some) _
      | true =>
          exact slot [.text (keptText entry.1 text)] (fun _ => extendable) _

include computes

private theorem lays_renderAttributes (member : entry ∈ blueprint.attributes)
    (whole : entryStyles? entry.1 entry.2 = none)
    (bound : (flattenChunks entry.2).any Chunk.isBound = true) :
    (blueprint.renderAttributes host node true).Ensures record world
      fun _ later => Lays host node entry world later := by
  have bounds := computes.gains.bounds
  have renders (record : Record) (world : World σ) :
      (blueprint.renderEntry host node true entry.1 entry.2).Ensures record
        world fun _ later => Lays host node entry world later := by
    unfold renderEntry
    rw [whole]
    exact lays_renderAttribute bound
  unfold renderAttributes
  generalize blueprint.attributes = attributes at member
  induction attributes generalizing record world with
  | nil => cases member
  | cons first rest ih =>
      have others : Pass.Within World.Gains (rest.forM fun entry =>
          blueprint.renderEntry host node true entry.1 entry.2) :=
        bounds.toSteady.passForM fun entry =>
          bounds.renderEntry blueprint node true entry.1 entry.2
      rcases List.mem_cons.mp member with rfl | later
      · exact (renders record world).lays_bind fun _ => others
      · have ahead := bounds.renderEntry blueprint node true first.1 first.2
        exact ahead.ensures.bind fun _ _ _ gains =>
          (ih later).weaken fun _ _ laid => laid.after_gains gains

theorem lays_renderElement (nests : nested.Within World.Gains)
    (member : entry ∈ blueprint.attributes)
    (whole : entryStyles? entry.1 entry.2 = none)
    (bound : (flattenChunks entry.2).any Chunk.isBound = true)
    (path : DefinitionPath) :
    (blueprint.renderElement host mounter nested (some node) path).Ensures
      record world fun _ later => Lays host node entry world later := by
  have bears := computes.gains
  have inside : Pass.Ensures (do
      blueprint.renderAttributes host node true
      blueprint.applyMembers nested node path 0 0 blueprint.children
      blueprint.renderListeners node) record
        (world.holding (.refs [.node node] :: world.frames)) fun _ later =>
          Lays host node entry
            (world.holding (.refs [.node node] :: world.frames)) later :=
    (lays_renderAttributes computes member whole bound).lays_bind fun _ =>
      bears.steady.passBind
        (within_applyMembers bears nests blueprint node path 0 0 _) fun _ =>
          bears.bounds.renderListeners blueprint node
  rw [renderElement_some]
  refine Pass.Ensures.bind (.keeping (inside.weaken fun _ later laid => ?_))
    fun _ _ _ laid => .pure laid
  let held := world.holding (.refs [.node node] :: world.frames)
  have entered : world.Gains held := .aside rfl rfl
  have left : later.Gains (later.holding world.frames) := .aside rfl rfl
  exact (laid.gains left).after_gains entered

end Blueprint

namespace Template

theorem lays_apply (computes : host.OnlyComputes) {t : TemplateId} {m : NodeId}
    (applied : (apply host t node).result world = .ok m)
    (isElement : (world.template t).blueprint.text = none)
    (member : entry ∈ (world.template t).blueprint.attributes)
    (whole : entryStyles? entry.1 entry.2 = none)
    (bound : (flattenChunks entry.2).any Chunk.isBound = true) :
    Lays host node entry world ((apply host t node).after world) := by
  obtain ⟨record, other, passed, ended⟩ := apply_ok applied
  let mounter : Mounter σ := fun _ => return .error .componentNotRendered
  let held := world.holding (.refs [.template t] :: world.frames)
  have bears := computes.gains
  have nests : Nested.Within World.Gains (passWithin host mounter t.index) :=
    within_passWithin bears (fun _ => bears.steady.pure _) t.index
  have made : (passWith host mounter (passWithin host mounter t.index) t
      (world.template t).blueprint (some node) []).Ensures .empty held
        fun _ later => Lays host node entry held later := by
    unfold passWith
    rw [isElement]
    exact (Blueprint.lays_renderElement computes nests member whole bound
      []).lays_bind fun _ => bears.steady.passPure _
  let pass := passWithin host mounter (t.index + 1) t (some node) []
  have outcome : pass.result held = (.ok other, record) := passed
  have laid : Lays host node entry held (pass.after held) :=
    of_passWithin outcome made
  rw [ended]
  have entered : world.Gains held := .aside rfl rfl
  refine (laid.after_gains entered).gains ?_
  exact .aside rfl rfl

end Template

end Passes

end LiveTemplate
