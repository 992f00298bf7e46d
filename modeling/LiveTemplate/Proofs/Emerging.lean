import LiveTemplate.Proofs.Fitting

/-!
# Groups that rendering and applying make

A group comes to listen when a template is rendered or applied.  From the world
in which it began to listen until the template is done it is left to itself, as
`World.Equips` says, so that it shows the present value from then on, whatever
else is rendered, applied or set as long as the group itself is left alone.
Templates that are rendered later, or applied to other nodes, do so.
-/

namespace LiveTemplate

variable {σ : Type}

namespace SyncGroup

variable {host : Host σ} {meaning : Meaning} {group : SyncGroup}
  {world made finish : World σ}

theorem Undisturbed.render {client : σ} {t : TemplateId} {n : NodeId}
    (reached : Run (.initial client) world)
    (rendered : (Template.render host t).result world = .ok n)
    (means : Member.Means host meaning world (.template t))
    (whole : group.slot.IsWhole)
    (there : group.slot.node.index < world.dom.nodes.size) :
    group.Undisturbed meaning world ((Template.render host t).after world) := by
  have sound := (reached.progress (World.ordered_initial client)).1.sound
  exact .step ((Template.equips_render sound means rendered).spared whole there
    (Nat.not_le_of_lt there))

theorem Undisturbed.apply {client : σ} {t : TemplateId} {n m : NodeId}
    (reached : Run (.initial client) world) (linked : world.dom.IsLinked)
    (isTree : world.dom.IsTree n)
    (applied : (Template.apply host t n).result world = .ok m)
    (means : Template.Means host meaning world t n)
    (whole : group.slot.IsWhole)
    (there : group.slot.node.index < world.dom.nodes.size)
    (outside : ¬world.dom.Inside n group.slot.node) :
    group.Undisturbed meaning world
      ((Template.apply host t n).after world) := by
  have sound := (reached.progress (World.ordered_initial client)).1.sound
  exact .step ((Template.equips_apply sound linked isTree means applied).spared
    whole there outside)

/-- The group was made just now.  Rendering or applying a template made it,
with callbacks that are functions of their values, or, where other callbacks
may do anything on the way, it has this moment been bound to its slot. -/
inductive Emerges (host : Host σ) (meaning : Meaning) (group : SyncGroup) :
    World σ → Prop where
  | render {client : σ} {world : World σ} {t : TemplateId} {n : NodeId} :
      Run (.initial client) world →
      (Template.render host t).result world = .ok n →
      Member.Means host meaning world (.template t) →
      ¬group.Listening world →
      group.Listening ((Template.render host t).after world) →
      Emerges host meaning group ((Template.render host t).after world)
  | apply {client : σ} {world : World σ} {t : TemplateId} {n m : NodeId} :
      Run (.initial client) world →
      world.dom.IsLinked → world.dom.IsTree n →
      (Template.apply host t n).result world = .ok m →
      Template.Means host meaning world t n →
      ¬group.Listening world →
      group.Listening ((Template.apply host t n).after world) →
      Emerges host meaning group ((Template.apply host t n).after world)
  | bind {world : World σ} :
      group.IsRendered → group.Follows host meaning → group.bindings ≠ [] →
      (group.slot.content? world.dom).isSome = true →
      ¬group.Listening world →
      Emerges host meaning group ((group.bind host).after world)

private theorem listening_bind (bound : group.bindings ≠ []) (world : World σ) :
    group.Listening ((group.bind host).after world) := by
  obtain ⟨binding, member⟩ := List.exists_mem_of_ne_nil _ bound
  obtain ⟨-, -, -, wired⟩ := after_listenAll group group.bindings
    ((group.sync host).after world)
  obtain ⟨listener, present, -, action⟩ := wired binding member
  exact ⟨binding.observable, listener, present, action⟩

/-- A new group began to listen in some world and was left to itself since. -/
theorem Emerges.begins (emerges : group.Emerges host meaning made)
    (whole : group.slot.IsWhole) :
    group.Listening made ∧ group.IsRendered ∧ group.Follows host meaning ∧
      ∃ start, ¬group.Listening start ∧
        group.Undisturbed meaning start made := by
  cases emerges with
  | render reached rendered means fresh listening =>
      have sound := (reached.progress (World.ordered_initial _)).1.sound
      exact ⟨listening, (Template.equips_render sound means rendered).begins
        group whole listening fresh⟩
  | apply reached linked isTree applied means fresh listening =>
      have sound := (reached.progress (World.ordered_initial _)).1.sound
      exact ⟨listening, (Template.equips_apply sound linked isTree means
        applied).begins group whole listening fresh⟩
  | bind rendered follows bound present fresh =>
      exact ⟨listening_bind bound _, rendered, follows, _, fresh,
        .create follows present⟩

/-- The slot of a group that rendering or applying made shows the value of its
schema for the present properties after every run that leaves the group to
itself, whatever notices met on the way. -/
theorem slot_shows_value_since_made (respects : meaning.Respects)
    (whole : group.slot.IsWhole) (emerges : group.Emerges host meaning made)
    (run : group.Undisturbed meaning made finish) :
    let evaluation := evaluate host group.slot.node group.chunks
    evaluation.after finish = finish ∧
      group.slot.content? finish.dom =
        some (group.slot.shown (evaluation.result finish)) := by
  obtain ⟨listening, rendered, follows, start, fresh, begun⟩ :=
    emerges.begins whole
  have still : group.Listening finish := by
    obtain ⟨o, listener, member, action⟩ := listening
    exact ⟨o, listener, (run.settles respects rendered).1.listeners o listener
      action member, action⟩
  exact slot_shows_value_after_run rendered respects follows fresh
    (begun.trans run) still

end SyncGroup

namespace SyncGroup

namespace Echo

/-- A client without code. -/
def quiet : Host Unit where
  keeps _ := []
  notice _ _ := pure ()
  event _ _ := pure ()
  transform _ value _ := pure value
  destroy _ := pure ()

/-- A client that sets `y` on every notice. -/
def host : Host Unit :=
  { quiet with notice := fun _ _ => Observable.set quiet ⟨0⟩ "y" (.text "b") }

def schema : Schema :=
  [.bound ⟨⟨0⟩, ⟨0⟩, "x", .value, none⟩, .bound ⟨⟨0⟩, ⟨0⟩, "y", .value, none⟩]

def group : SyncGroup := ⟨schema, .text ⟨0⟩⟩

def meaning : Meaning := fun _ value _ => value

/-- An empty text node, an observable with a client that waits for changes of
`x`, and a template that shows `x` and `y`. -/
def start : World Unit :=
  { World.initial () with
    dom := ⟨⟨#[⟨.text "", none, []⟩]⟩⟩
    properties := ⟨#[[]]⟩
    reactions := ⟨#[⟨[⟨⟨0⟩, "change:x", .call ⟨0⟩⟩], 1⟩]⟩
    emitters := ⟨#[⟨[], []⟩]⟩
    templates := ⟨#[⟨.ofText schema, false, none⟩]⟩ }

def created : World Unit := (Template.apply host ⟨0⟩ ⟨0⟩).after start

def stored : World Unit :=
  (Observable.store ⟨0⟩ "x" (.text "a")).after created

def finish : World Unit :=
  (Observable.set host ⟨0⟩ "x" (.text "a")).after created

theorem follows (host : Host Unit) : group.Follows host meaning := by
  intro binding member handler present
  have untransformed : binding.transform = none := by
    rcases List.mem_cons.mp member with rfl | later
    · rfl
    · rw [List.mem_singleton.mp later]
  rw [untransformed] at present
  cases present

/-- The client comes before the group. -/
theorem entries_created : (created.reactionsOf ⟨0⟩).entries =
    [⟨⟨0⟩, "change:x", .call ⟨0⟩⟩, ⟨⟨1⟩, "change:x", .sync group⟩,
      ⟨⟨2⟩, "change:y", .sync group⟩] := rfl

private theorem not_listening : ¬group.Listening start := by
  rintro ⟨⟨index⟩, listener, member, action⟩
  cases index with
  | zero =>
      rw [List.mem_singleton.mp member] at action
      cases action
  | succ index => cases member

theorem listening : group.Listening created := by
  refine ⟨⟨0⟩, ⟨⟨1⟩, "change:x", .sync group⟩, ?_, rfl⟩
  rw [entries_created]
  exact .tail _ (.head _)

theorem turn_client (notice : Notice) (frame : Frame) :
    group.Undisturbed meaning stored
      ((keeping frame (Observable.react host notice (.call ⟨0⟩))).after
        stored) := by
  have reaction : Observable.react host notice (.call ⟨0⟩) =
      Observable.set quiet ⟨0⟩ "y" (.text "b") := rfl
  rw [reaction]
  refine .keeping _ _ (.set quiet _ ⟨0⟩ "y" (.text "b") (follows quiet)
    fun _ => ?_)
  apply Undisturbed.turns_of_sync (follows quiet)
  intro listener member
  obtain ⟨present, event⟩ := List.mem_filter.mp member
  rw [Observable.reactionsOf_store, World.holding_reactionsOf, stored,
    Observable.reactionsOf_store, entries_created] at present
  simp only [List.mem_cons, List.not_mem_nil, or_false] at present
  rcases present with rfl | rfl | rfl
  · exact absurd event (by decide)
  · rfl
  · rfl

theorem run : group.Undisturbed meaning created finish := by
  let client : Listener Reaction := ⟨⟨0⟩, "change:x", .call ⟨0⟩⟩
  let own : Listener Reaction := ⟨⟨1⟩, "change:x", .sync group⟩
  refine .set host created ⟨0⟩ "x" (.text "a") (follows host) fun _ => ?_
  have waiting :
      (stored.reactionsOf ⟨0⟩).of "change:x" = [client, own] := by
    rw [Listeners.of, stored, Observable.reactionsOf_store, entries_created]
    rfl
  have contained :
      (stored.reactionsOf ⟨0⟩).contains client.id = true := by
    rw [Listeners.contains, stored, Observable.reactionsOf_store,
      entries_created]
    rfl
  let notice : Notice :=
    ⟨changeOf "x", .change "x" (.text "a") (created.property ⟨0⟩ "x")⟩
  show ∀ turn ∈ Observable.turns host ⟨0⟩ notice
    ((stored.reactionsOf ⟨0⟩).of "change:x") stored, _
  rw [waiting, Observable.turns, if_pos contained]
  intro turn member
  rcases List.mem_cons.mp member with rfl | later
  · exact turn_client notice _
  · refine Undisturbed.turns_of_sync (follows host) _ _
      (fun listener member => ?_) turn later
    rw [List.mem_singleton.mp member]

theorem reached : Run (World.initial ()) start := by
  let before : World Unit := { start with reactions := .empty }
  have made : Run (World.initial ()) before := by
    refine .aside rfl rfl rfl ⟨?_, ?_⟩
    · rintro ⟨index⟩ entry kept
      rcases index with _ | index <;> cases kept
    · rintro _ ⟨index⟩
      rcases index with _ | index
      · exact ⟨by decide, nofun⟩
      · exact .none _
  exact made.trans (.subscribe before ⟨0⟩ "change:x" (.call ⟨0⟩))

theorem linked : start.dom.IsLinked := by
  rintro ⟨parent⟩ ⟨child⟩
  rcases parent with _ | parent <;> rcases child with _ | child <;>
    simp [start, Dom.children, Dom.parent?, Dom.node, Store.get, default]

theorem isTree : start.dom.IsTree ⟨0⟩ := by
  exact .node Nat.one_pos .nil nofun

theorem means : Template.Means host meaning start ⟨0⟩ ⟨0⟩ := by
  intro _ _ _
  exact .of_bindings fun _ _ _ _ _ _ => ⟨rfl, rfl⟩

theorem emerges : group.Emerges host meaning created := by
  exact .apply (m := ⟨0⟩) reached linked isTree rfl means not_listening
    listening

end Echo

/-- The text shows both properties when the outer `Observable.set` is over. -/
theorem slot_shows_value_once_applied :
    (Template.apply Echo.host ⟨0⟩ ⟨0⟩).result Echo.start = .ok ⟨0⟩ ∧
      Echo.group.slot.content? Echo.finish.dom = some (some "a b") := by
  have respects : Meaning.Respects Echo.meaning :=
    fun _ _ _ _ agree => .inr agree
  have whole : Echo.group.slot.IsWhole := trivial
  have shows := (slot_shows_value_since_made respects whole Echo.emerges
    Echo.run).2
  have value : (evaluate Echo.host ⟨0⟩ Echo.schema).result Echo.finish =
      .text "a b" := by decide +kernel
  refine ⟨rfl, ?_⟩
  rw [shows]
  exact congrArg (fun value => some (Slot.shown value (.text ⟨0⟩))) value

end SyncGroup

end LiveTemplate
