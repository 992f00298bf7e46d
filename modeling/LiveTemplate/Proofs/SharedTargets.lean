import LiveTemplate.Proofs.Announcements
import LiveTemplate.Proofs.Laying
import LiveTemplate.Proofs.Restoring

/-!
# Groups that share a target

Templates that are applied to one element may bind the same attribute of it.
Each of their groups brings the attribute up to date whenever a property of its
own changes, as often as it is bound to the property, and overwrites what the
others show.

Numbers decide who is last.  A group that is bound later has only listeners with
greater numbers, and an observable calls its listeners by their numbers, so that
the last turn that writes the attribute belongs to the group bound last among
those that listen to the property.
-/

namespace LiveTemplate

variable {σ : Type}

namespace SyncGroup

/-- The group reads and listens to the same as before, and can still write. -/
structure Abides (group : SyncGroup) (world later : World σ) : Prop
    extends group.Lasting world later where
  property : ∀ binding ∈ group.bindings,
    later.property binding.observable binding.property =
      world.property binding.observable binding.property
  tag : (group.slot.content? world.dom).isSome = true →
    later.dom.tag? group.slot.node = world.dom.tag? group.slot.node

variable {host : Host σ} {meaning : Meaning} {group other : SyncGroup}
  {world between later : World σ}

theorem Spared.abides (spared : group.Spared world later) :
    group.Abides world later where
  toLasting := spared.lasting
  property := spared.property
  tag present := (spared.target present).2

namespace Abides

theorem trans (first : group.Abides world between)
    (second : group.Abides between later) : group.Abides world later where
  toLasting := first.toLasting.trans second.toLasting
  property binding member :=
    (second.property binding member).trans (first.property binding member)
  tag present := (second.tag (first.target present)).trans (first.tag present)

theorem holding (world : World σ) (frames : List Frame) :
    group.Abides world (world.holding frames) :=
  Spared.abides (.of_same rfl rfl rfl)

/-- What is held meanwhile makes no difference. -/
theorem keeping {frame : Frame} {action : Act σ Unit}
    (abides : ∀ before : World σ, group.Abides before (action.after before)) :
    group.Abides world ((LiveTemplate.keeping frame action).after world) := by
  rw [after_keeping]
  exact ((holding world _).trans (abides _)).trans (holding _ _)

/-- The value of the group stays the same. -/
theorem current_eq (rendered : group.IsRendered)
    (abides : group.Abides world later)
    (present : (group.slot.content? world.dom).isSome = true) :
    group.current meaning later = group.current meaning world := by
  unfold current
  rw [abides.tag present]
  exact schemaValue_congr fun binding member =>
    abides.property binding (rendered.mem_bindings member)

theorem sync (follows : other.Follows host meaning)
    (rendered : other.IsRendered) (same : other.slot = group.slot)
    (world : World σ) :
    group.Abides world ((other.sync host).after world) := by
  rw [after_sync follows rendered, same]
  refine ⟨⟨fun _ _ _ member => member, fun present => ?_⟩, fun _ _ => rfl,
    fun present => ?_⟩
  · rw [Slot.content?_display present]
    rfl
  · exact Slot.tag?_display present _

end Abides

private theorem content?_turn (follows : group.Follows host meaning)
    (rendered : group.IsRendered) (notice : Notice) (frame : Frame)
    (present : (group.slot.content? world.dom).isSome = true) :
    group.slot.content? ((keeping frame (Observable.react host notice
        (.sync group))).after world).dom =
      some (group.slot.shown (group.current meaning world)) := by
  show group.slot.content? ((group.sync host).after
    (world.holding (frame :: world.frames))).dom = _
  rw [after_sync follows rendered]
  exact Slot.content?_display present _

end SyncGroup

/-- What a target shows and what the groups that share it depend on is left
alone. -/
structure World.SparesShared (sharers : List (Sharer σ)) (slot : Slot)
    (world later : World σ) : Prop where
  content : slot.content? later.dom = slot.content? world.dom
  groups : ∀ sharer ∈ sharers, sharer.group.Spared world later

namespace Sharer

/-- Some groups share a target, and their callbacks are pure. -/
structure Share (host : Host σ) (meaning : Meaning) (slot : Slot)
    (sharers : List (Sharer σ)) : Prop where
  slots : ∀ sharer ∈ sharers, sharer.group.slot = slot
  rendered : ∀ sharer ∈ sharers, sharer.group.IsRendered
  follows : ∀ sharer ∈ sharers, sharer.group.Follows host meaning

/-- The reaction is that of one of the groups or leaves them alone. -/
def Admits (host : Host σ) (slot : Slot) (sharers : List (Sharer σ))
    (notice : Notice) (reaction : Reaction) : Prop :=
  (∃ sharer ∈ sharers, reaction = .sync sharer.group) ∨
    (Observable.react host notice reaction).Within
      (World.SparesShared sharers slot)

variable {host : Host σ} {meaning : Meaning} {slot : Slot}
  {sharers : List (Sharer σ)} {sharer : Sharer σ} {world : World σ}
  {o : ObservableId} {notice : Notice} {listener : Listener Reaction}

section Turns

variable (share : Share host meaning slot sharers)

include share

theorem abides_turn {reaction : Reaction}
    (admits : Admits host slot sharers notice reaction)
    (member : sharer ∈ sharers) (frame : Frame) :
    sharer.group.Abides world ((keeping frame
      (Observable.react host notice reaction)).after world) := by
  refine .keeping fun before => ?_
  rcases admits with ⟨other, among, rfl⟩ | spares
  · exact .sync (share.follows other among) (share.rendered other among)
      ((share.slots other among).trans (share.slots sharer member).symm) before
  · exact ((spares before).groups sharer member).abides

private theorem abides_notifyEach {waiting : List (Listener Reaction)}
    (admits : ∀ listener ∈ waiting,
      Admits host slot sharers notice listener.action)
    (member : sharer ∈ sharers) :
    sharer.group.Abides world
      ((Observable.notifyEach host o notice waiting).after world) := by
  induction waiting generalizing world with
  | nil => exact .holding world world.frames
  | cons listener rest ih =>
      rw [Observable.after_notifyEach_cons]
      have others : ∀ other ∈ rest,
          Admits host slot sharers notice other.action :=
        fun other among => admits other (.tail _ among)
      split
      · exact (abides_turn share (admits listener (.head _)) member _).trans
          (ih others)
      · exact ih others

omit share in
/-- Listeners that leave the target alone do not change what it shows. -/
theorem content?_notifyEach_others {waiting : List (Listener Reaction)}
    (others : ∀ listener ∈ waiting,
      (Observable.react host notice listener.action).Within
        (World.SparesShared sharers slot)) :
    slot.content?
        ((Observable.notifyEach host o notice waiting).after world).dom =
      slot.content? world.dom := by
  induction waiting generalizing world with
  | nil => rfl
  | cons listener rest ih =>
      rw [Observable.after_notifyEach_cons,
        ih fun other among => others other (.tail _ among)]
      split
      · exact (others listener (.head _) (world.holding _)).content
      · rfl

/-- The target shows the value of the group that has the last turn. -/
theorem content?_notifyEach {front back : List (Listener Reaction)}
    (admits : ∀ listener ∈ front,
      Admits host slot sharers notice listener.action)
    (member : sharer ∈ sharers) (own : listener.action = .sync sharer.group)
    (there : listener ∈ (world.reactionsOf o).entries)
    (others : ∀ listener ∈ back,
      (Observable.react host notice listener.action).Within
        (World.SparesShared sharers slot))
    (present : (slot.content? world.dom).isSome = true) :
    let later :=
      (Observable.notifyEach host o notice (front ++ listener :: back)).after
        world
    slot.content? later.dom =
      some (slot.shown (sharer.group.current meaning later)) := by
  have rendered := share.rendered sharer member
  obtain rfl := share.slots sharer member
  induction front generalizing world with
  | nil =>
      intro later
      let turned := (keeping (.listeners (listener :: back))
        (Observable.react host notice (.sync sharer.group))).after world
      have contained : (world.reactionsOf o).contains listener.id = true :=
        Listeners.contains_iff_mem.mpr (List.mem_map_of_mem there)
      have ends : later =
          (Observable.notifyEach host o notice back).after turned := by
        show (Observable.notifyEach host o notice (listener :: back)).after
          world = _
        rw [Observable.after_notifyEach_cons, if_pos contained, own]
      have turn : sharer.group.Abides world turned :=
        abides_turn share (.inl ⟨sharer, member, rfl⟩) member _
      have rest : sharer.group.Abides turned later := by
        rw [ends]
        exact abides_notifyEach share
          (fun other among => .inr (others other among)) member
      rw [rest.current_eq rendered (turn.target present),
        turn.current_eq rendered present, ends,
        content?_notifyEach_others others]
      exact SyncGroup.content?_turn (share.follows sharer member) rendered
        notice _ present
  | cons first front ih =>
      rw [List.cons_append, Observable.after_notifyEach_cons]
      have before : ∀ other ∈ front,
          Admits host sharer.group.slot sharers notice other.action :=
        fun other among => admits other (.tail _ among)
      split
      · have turn : sharer.group.Abides world
            ((keeping (.listeners (first :: (front ++ listener :: back)))
              (Observable.react host notice first.action)).after world) :=
          abides_turn share (admits first (.head _)) member _
        exact ih (turn.listeners o listener own there) before
          (turn.target present)
      · exact ih there before present

end Turns

end Sharer

/-- Templates have been applied to a node one after the other, and each has
bound a group to the same attribute of it.  Whatever else there is to be done
may have been done before, in between and since. -/
inductive Shares (host : Host σ) (node : NodeId)
    (namespaceName : Option String) (name : String) :
    List (Sharer σ) → World σ → Prop where
  | start (client : σ) :
      Shares host node namespaceName name [] (World.initial client)
  | aside {sharers : List (Sharer σ)} {world later : World σ} :
      Shares host node namespaceName name sharers world → Run world later →
      Shares host node namespaceName name sharers later
  | apply {sharers : List (Sharer σ)} {world : World σ} {t : TemplateId}
      {m : NodeId} {sharer : Sharer σ} :
      Shares host node namespaceName name sharers world →
      (Template.apply host t node).result world = .ok m →
      sharer.Arises host t node namespaceName name world →
      Shares host node namespaceName name (sharers ++ [sharer])
        ((Template.apply host t node).after world)

theorem Run.ages {world later : World σ} (run : Run world later)
    (ordered : world.Ordered) : world.Ages later := by
  have progress := run.progress ordered
  refine ⟨progress.2.next, ?_⟩
  intro _
  exact progress.1.isDated

/-- The listeners of a group have numbers that were given out before the later
groups were bound. -/
structure Sharer.Ranked (host : Host σ) (sharers : List (Sharer σ))
    (world : World σ) : Prop where
  ordered : world.Ordered
  numbered : world.Numbered
  dated : ∀ sharer ∈ sharers, sharer.start.IsDated
  onward : ∀ sharer ∈ sharers, (sharer.bound host).Ages world
  ranks : sharers.Pairwise fun one other => ∀ o listener,
    one.Owns host o listener →
      other.start.Issued ⟨.observable o, listener.id⟩

namespace Sharer.Ranked

variable {host : Host σ} {sharers : List (Sharer σ)} {sharer : Sharer σ}
  {world later : World σ}

theorem run (ranked : Ranked host sharers world) (run : Run world later) :
    Ranked host sharers later where
  ordered := (run.progress ranked.ordered).1
  numbered := run.numbered ranked.ordered ranked.numbered
  dated := ranked.dated
  onward sharer member :=
    (ranked.onward sharer member).trans (run.ages ranked.ordered)
  ranks := ranked.ranks

/-- A group that is bound later comes last. -/
theorem concat (computes : host.OnlyComputes)
    (ranked : Ranked host sharers world) (run : Run world later)
    (between : sharer.IsBetween host world later) :
    Ranked host (sharers ++ [sharer]) later where
  ordered := (run.progress ranked.ordered).1
  numbered := run.numbered ranked.ordered ranked.numbered
  dated other member := by
    rcases List.mem_append.mp member with old | new
    · exact ranked.dated other old
    · rw [List.mem_singleton.mp new]
      exact between.before.dated ranked.ordered.isDated
  onward other member := by
    rcases List.mem_append.mp member with old | new
    · exact (ranked.onward other old).trans (run.ages ranked.ordered)
    · rw [List.mem_singleton.mp new]
      exact between.after.ages
  ranks := by
    refine List.pairwise_append.mpr ⟨ranked.ranks, List.pairwise_singleton _ _,
      fun other old new member o listener owns => ?_⟩
    rw [List.mem_singleton.mp member]
    have dated := (gains_bound computes other).dated (ranked.dated other old)
    exact between.before.ages.issued
      ((ranked.onward other old).issued (dated o listener owns.1))

end Sharer.Ranked

namespace Shares

variable {host : Host σ} {node : NodeId} {namespaceName : Option String}
  {name : String} {sharers : List (Sharer σ)} {world : World σ}

theorem ranked (computes : host.OnlyComputes)
    (shares : Shares host node namespaceName name sharers world) :
    Sharer.Ranked host sharers world := by
  induction shares with
  | start client =>
      exact ⟨World.ordered_initial client, World.numbered_initial client, nofun,
        nofun, .nil⟩
  | aside _ run ranked => exact ranked.run run
  | apply _ applied arises ranked =>
      obtain ⟨_, _, accounts⟩ := Template.accounts_apply
        (computes.transformsWithin fun _ => False) ranked.ordered applied
      exact ranked.concat computes accounts.run arises.toIsBetween

theorem renders (shares : Shares host node namespaceName name sharers world)
    {sharer : Sharer σ} (member : sharer ∈ sharers) :
    ∃ schema, Schema.namespace? schema = namespaceName ∧
      sharer.group.Renders node (name, schema) := by
  induction shares with
  | start client => cases member
  | aside _ _ ih => exact ih member
  | apply _ _ arises ih =>
      rcases List.mem_append.mp member with old | new
      · exact ih old
      · rw [List.mem_singleton.mp new]
        obtain ⟨schema, _, scope, renders⟩ := arises.entry
        exact ⟨schema, scope, renders⟩

theorem share {meaning : Meaning}
    (shares : Shares host node namespaceName name sharers world)
    (follows : ∀ sharer ∈ sharers, sharer.group.Follows host meaning) :
    Sharer.Share host meaning (.attr node namespaceName name) sharers where
  slots sharer member := by
    obtain ⟨schema, rfl, kept, _, same⟩ := shares.renders member
    rw [same]
  rendered sharer member := by
    obtain ⟨_, _, renders⟩ := shares.renders member
    exact renders.isRendered
  follows := follows

/-- Whichever template is applied next, a group of it comes last, and no group
loses a listener. -/
theorem exists_next (computes : host.OnlyComputes)
    (shares : Shares host node namespaceName name sharers world)
    (live : ∀ sharer ∈ sharers, sharer.IsLive host world)
    {t : TemplateId} {m : NodeId} {schema : Schema}
    (applied : (Template.apply host t node).result world = .ok m)
    (isElement : (world.template t).blueprint.text = none)
    (member : (name, schema) ∈ (world.template t).blueprint.attributes)
    (scope : Schema.namespace? schema = namespaceName)
    (whole : entryStyles? name schema = none)
    (bound : (flattenChunks schema).any Chunk.isBound = true) :
    let later := (Template.apply host t node).after world
    ∃ sharer : Sharer σ, sharer.group.Renders node (name, schema) ∧
      sharer.IsBetween host world later ∧
      Shares host node namespaceName name (sharers ++ [sharer]) later ∧
      ∀ other ∈ sharers ++ [sharer], other.IsLive host later := by
  obtain ⟨sharer, renders, between⟩ :=
    Template.lays_apply computes applied isElement member whole bound
  refine ⟨sharer, renders, between,
    .apply shares applied ⟨between, schema, member, scope, renders⟩,
    fun other among => ?_⟩
  rcases List.mem_append.mp among with old | new
  · exact (live other old).gains (between.gains computes)
  · rw [List.mem_singleton.mp new]
    exact between.isLive

end Shares

theorem exists_last {α : Type} {items : List α} (holds : α → Prop)
    (some : ∃ item ∈ items, holds item) :
    ∃ front item back, items = front ++ item :: back ∧ holds item ∧
      ∀ other ∈ back, ¬holds other := by
  induction items with
  | nil => simp at some
  | cons first rest ih =>
      by_cases later : ∃ item ∈ rest, holds item
      · obtain ⟨front, item, back, rfl, found, last⟩ := ih later
        exact ⟨first :: front, item, back, rfl, found, last⟩
      · obtain ⟨item, member, found⟩ := some
        rcases List.mem_cons.mp member with rfl | inside
        · exact ⟨[], item, rest, rfl, found, fun other among held =>
            later ⟨other, among, held⟩⟩
        · exact absurd ⟨item, inside, found⟩ later

theorem changeOf_inj {property other : String}
    (same : changeOf property = changeOf other) : property = other := by
  unfold changeOf at same
  have texts := congrArg String.toList same
  rw [String.toList_append, String.toList_append] at texts
  exact String.toList_inj.mp (List.append_cancel_left texts)

section Winner

variable {host : Host σ} {meaning : Meaning} {slot : Slot}
  {sharers front back : List (Sharer σ)} {sharer : Sharer σ} {world : World σ}
  {o : ObservableId} {property : String} {listener : Listener Reaction}

theorem Sharer.Owns.boundTo (follows : sharer.group.Follows host meaning)
    (rendered : sharer.group.IsRendered) (owns : sharer.Owns host o listener)
    (told : listener.event = changeOf property) :
    sharer.group.BoundTo o property := by
  obtain ⟨_, _, binding, member, here, event⟩ := owns.reacts follows rendered
  exact ⟨binding, member, here, changeOf_inj (event.symm.trans told)⟩

/-- Behind the listeners of the last group that is bound to a property comes no
listener of another group. -/
theorem Sharer.Share.exists_winner
    (share : Sharer.Share host meaning slot sharers)
    (ranked : Sharer.Ranked host sharers world)
    (live : ∀ sharer ∈ sharers, sharer.IsLive host world)
    (order : sharers = front ++ sharer :: back)
    (bound : sharer.group.BoundTo o property)
    (last : ∀ other ∈ back, ¬other.group.BoundTo o property) :
    ∃ early listener late,
      (world.reactionsOf o).of (changeOf property) =
        early ++ listener :: late ∧
      listener.action = .sync sharer.group ∧
      ∀ other ∈ late, ∀ sharer ∈ sharers, ¬sharer.Owns host o other := by
  have member : sharer ∈ sharers := by simp [order]
  have follows := share.follows sharer member
  have rendered := share.rendered sharer member
  obtain ⟨mine, owned, event⟩ := Sharer.exists_owned follows rendered
    (ranked.dated sharer member) bound
  have waits : mine ∈ (world.reactionsOf o).of (changeOf property) :=
    List.mem_filter.mpr ⟨live sharer member o mine owned, decide_eq_true event⟩
  obtain ⟨early, listener, late, waiting, ⟨owner, among, owns⟩, others⟩ :=
    exists_last (fun listener => ∃ sharer ∈ sharers,
      sharer.Owns host o listener) ⟨mine, waits, sharer, member, owned⟩
  refine ⟨early, listener, late, waiting, ?_, fun other inside sharer among
    owns => others other inside ⟨sharer, among, owns⟩⟩
  have told : listener.event = changeOf property := by
    have inside : listener ∈ (world.reactionsOf o).of (changeOf property) := by
      simp [waiting]
    exact of_decide_eq_true (List.mem_filter.mp inside).2
  have ownerFollows := share.follows owner among
  have ownerRendered := share.rendered owner among
  rw [order] at among
  rcases List.mem_append.mp among with before | behind
  · -- Its listeners are called before those of the group itself.
    have ranks := ranked.ranks
    rw [order] at ranks
    have old := (List.pairwise_append.mp ranks).2.2 owner before sharer
      (.head _) o listener owns
    have new := (owned.reacts follows rendered).2.1
    have sorted := Listeners.pairwise_of
      (ranked.numbered (.observable o)) (changeOf property)
    rw [waiting] at sorted waits
    rcases List.mem_append.mp waits with earlier | rest
    · have lower := (List.pairwise_append.mp sorted).2.2 mine earlier listener
        (.head _)
      exact absurd (Nat.lt_trans lower old) new
    · rcases List.mem_cons.mp rest with rfl | later
      · exact absurd old new
      · exact absurd ⟨sharer, member, owned⟩ (others mine later)
  · rcases List.mem_cons.mp behind with rfl | later
    · exact (owns.reacts ownerFollows ownerRendered).1
    · exact absurd (owns.boundTo ownerFollows ownerRendered told)
        (last owner later)

theorem Observable.after_set_of_changes (host : Host σ) {value : Value}
    (changes : (world.property o property).agrees value = false) :
    (set host o property value).after world =
      (notifyEach host o
        ⟨changeOf property, .change property value (world.property o property)⟩
        ((world.reactionsOf o).of (changeOf property))).after
          ((store o property value).after world) := by
  rw [after_set, if_neg (by simp [changes])]
  show (notifyEach host o _ ((((store o property value).after
    world).reactionsOf o).of (changeOf property))).after _ = _
  rw [reactionsOf_store]

/-- The listeners of a notice other than those of the groups leave what the
groups share alone. -/
def Sharer.Alone (host : Host σ) (slot : Slot) (sharers : List (Sharer σ))
    (world : World σ) (o : ObservableId) (notice : Notice) : Prop :=
  ∀ listener ∈ (world.reactionsOf o).of notice.name,
    (∀ sharer ∈ sharers, ¬sharer.Owns host o listener) →
    (Observable.react host notice listener.action).Within
      (World.SparesShared sharers slot)

namespace Sharer.Share

variable (share : Sharer.Share host meaning slot sharers)

include share

theorem admits {notice : Notice}
    (alone : Sharer.Alone host slot sharers world o notice)
    (member : listener ∈ (world.reactionsOf o).of notice.name) :
    Sharer.Admits host slot sharers notice listener.action := by
  by_cases owned : ∃ sharer ∈ sharers, sharer.Owns host o listener
  · obtain ⟨sharer, among, owns⟩ := owned
    exact .inl ⟨sharer, among, (owns.reacts (share.follows sharer among)
      (share.rendered sharer among)).1⟩
  · exact .inr (alone listener member fun sharer among owns =>
      owned ⟨sharer, among, owns⟩)

/-- Once a property has changed, the target shows the value of the last group
that is bound to it. -/
theorem content?_set (ranked : Sharer.Ranked host sharers world)
    (live : ∀ sharer ∈ sharers, sharer.IsLive host world)
    (present : (slot.content? world.dom).isSome = true) {value : Value}
    (changes : (world.property o property).agrees value = false)
    (alone : Sharer.Alone host slot sharers world o
      ⟨changeOf property, .change property value (world.property o property)⟩)
    (order : sharers = front ++ sharer :: back)
    (bound : sharer.group.BoundTo o property)
    (last : ∀ other ∈ back, ¬other.group.BoundTo o property) :
    let later := (Observable.set host o property value).after world
    slot.content? later.dom =
      some (slot.shown (sharer.group.current meaning later)) := by
  intro later
  obtain ⟨early, listener, late, waiting, own, rest⟩ :=
    share.exists_winner ranked live order bound last
  have inside {other : Listener Reaction}
      (there : other ∈ early ++ listener :: late) :
      other ∈ (world.reactionsOf o).of (changeOf property) := waiting ▸ there
  have ends : later = _ := Observable.after_set_of_changes host changes
  rw [ends, waiting]
  refine Sharer.content?_notifyEach share
    (fun other among => share.admits alone
      (inside (List.mem_append_left _ among))) (by simp [order]) own ?_
    (fun other among => alone other
      (inside (List.mem_append_right _ (.tail _ among))) (rest other among))
    present
  rw [Observable.reactionsOf_store]
  exact (List.mem_filter.mp (inside (by simp))).1

private theorem content?_set_of_unbound {value : Value}
    (changes : (world.property o property).agrees value = false)
    (alone : Sharer.Alone host slot sharers world o
      ⟨changeOf property, .change property value (world.property o property)⟩)
    (none : ∀ sharer ∈ sharers, ¬sharer.group.BoundTo o property) :
    slot.content? ((Observable.set host o property value).after world).dom =
      slot.content? world.dom := by
  rw [Observable.after_set_of_changes host changes,
    Sharer.content?_notifyEach_others, Observable.dom_store]
  intro listener among
  refine alone listener among fun sharer member owns => ?_
  exact none sharer member (owns.boundTo (share.follows sharer member)
    (share.rendered sharer member)
    (of_decide_eq_true (List.mem_filter.mp among).2))

end Sharer.Share

end Winner

theorem Slot.attributeNs?_of_content? {dom : Dom} {node : NodeId}
    {namespaceName : Option String} {name : String} {text : Option String}
    (content : content? dom (.attr node namespaceName name) = some text) :
    dom.attributeNs? node namespaceName name = text := by
  rw [content?] at content
  split at content
  · exact Option.some.inj content
  · cases content

/-- Templates are applied one after the other to a node, and each binds a group
to the same attribute.  When a property is set to another value and no listener
acts but those of the groups, which are all there, the attribute shows the value
of the group bound last among those that are bound to the property, and is
absent if that value is falsy.  If none is bound to it, the attribute stays as
it is.  And whichever template is applied next, its group comes last, and the
groups are all there then. -/
theorem last_bound_group_wins {host : Host σ} {meaning : Meaning}
    {node : NodeId} {namespaceName : Option String} {name : String}
    {sharers : List (Sharer σ)} {world : World σ}
    (computes : host.OnlyComputes)
    (shares : Shares host node namespaceName name sharers world)
    (follows : ∀ sharer ∈ sharers, sharer.group.Follows host meaning)
    (live : ∀ sharer ∈ sharers, sharer.IsLive host world)
    (element : world.dom.isElement node = true)
    {o : ObservableId} {property : String} {value : Value}
    (changes : (world.property o property).agrees value = false)
    (alone : Sharer.Alone host (.attr node namespaceName name) sharers world o
      ⟨changeOf property, .change property value (world.property o property)⟩) :
    let later := (Observable.set host o property value).after world
    (∀ front sharer back, sharers = front ++ sharer :: back →
      sharer.group.BoundTo o property →
      (∀ other ∈ back, ¬other.group.BoundTo o property) →
      let evaluation := evaluate host node sharer.group.chunks
      evaluation.after later = later ∧
        later.dom.attributeNs? node namespaceName name =
          if (evaluation.result later).isFalsy then none
          else some (evaluation.result later).domString) ∧
    ((∀ sharer ∈ sharers, ¬sharer.group.BoundTo o property) →
      later.dom.attributeNs? node namespaceName name =
        world.dom.attributeNs? node namespaceName name) ∧
    ∀ t m schema, (Template.apply host t node).result world = .ok m →
      (world.template t).blueprint.text = none →
      (name, schema) ∈ (world.template t).blueprint.attributes →
      Schema.namespace? schema = namespaceName →
      entryStyles? name schema = none →
      (flattenChunks schema).any Chunk.isBound = true →
      let next := (Template.apply host t node).after world
      ∃ sharer : Sharer σ, sharer.group.Renders node (name, schema) ∧
        Shares host node namespaceName name (sharers ++ [sharer]) next ∧
        ∀ other ∈ sharers ++ [sharer], other.IsLive host next := by
  intro later
  have share := shares.share follows
  have content : Slot.content? world.dom (.attr node namespaceName name) =
      some (world.dom.attributeNs? node namespaceName name) := if_pos element
  refine ⟨fun front sharer back order bound last => ?_, fun none => ?_,
    fun t m schema applied isElement member scope whole bound => ?_⟩
  · have member : sharer ∈ sharers := by simp [order]
    have means : ∀ binding ∈ inputsAny sharer.group.chunks,
        binding.Means host meaning := fun binding among =>
      follows sharer member binding
        ((share.rendered sharer member).mem_bindings among)
    refine ⟨after_evaluate node later fun binding among =>
      (means binding among).isPure, ?_⟩
    have shown := share.content?_set (shares.ranked computes) live
      (by rw [content]; rfl) changes alone order bound last
    rw [Slot.attributeNs?_of_content? shown, result_evaluate node later means,
      SyncGroup.current, share.slots sharer member]
    rfl
  · refine Slot.attributeNs?_of_content? ?_
    rw [share.content?_set_of_unbound changes alone none, content]
  · obtain ⟨sharer, renders, _, next⟩ := shares.exists_next computes live
      applied isElement member scope whole bound
    exact ⟨sharer, renders, next⟩

namespace SharedTitle

/-- The title shows `a` and `b`, then `a` alone, then `a` of another
observable. -/
def schemas : List Schema :=
  [[.bound ⟨⟨0⟩, ⟨0⟩, "a", .value, some ⟨0⟩⟩,
      .bound ⟨⟨0⟩, ⟨0⟩, "b", .value, none⟩],
    [.bound ⟨⟨0⟩, ⟨0⟩, "a", .value, none⟩],
    [.bound ⟨⟨1⟩, ⟨0⟩, "a", .value, none⟩]]

def schema (t : Nat) : Schema :=
  schemas.getD t []

def group (t : Nat) : SyncGroup :=
  ⟨flattenChunks (schema t), .attr ⟨0⟩ none "title"⟩

def meaning : Meaning := fun _ value _ => value

def start : World Unit :=
  { World.initial () with
    dom := ⟨⟨#[⟨.element "html" "p" [], none, []⟩]⟩⟩
    properties := ⟨#[[("a", .text "x")], [("a", .text "z")]]⟩
    emitters := ⟨#[⟨[], []⟩]⟩
    templates := ⟨(schemas.map fun schema =>
      ⟨⟨none, none, none, [("title", schema)], [], []⟩, false, none⟩).toArray⟩ }

/-- The world when the first templates have been applied to the element. -/
def applied : Nat → World Unit
  | 0 => start
  | t + 1 => (Template.apply Host.quiet ⟨t⟩ ⟨0⟩).after (applied t)

theorem reached : Run (World.initial ()) start := by
  refine .aside rfl rfl rfl ⟨?_, ?_⟩
  · rintro ⟨index⟩ entry kept
    rcases index with _ | _ | _ | index <;> cases kept
  · rintro _ ⟨index⟩
    rcases index with _ | _ | _ | index
    · exact ⟨by decide, fun _ member => absurd member List.not_mem_nil⟩
    · exact ⟨by decide, fun _ member => absurd member List.not_mem_nil⟩
    · exact ⟨by decide, fun _ member => absurd member List.not_mem_nil⟩
    · exact .none _

theorem computes : (Host.quiet : Host Unit).OnlyComputes := by
  intro _ _ _ _
  rfl

theorem follows (group : SyncGroup) :
    group.Follows (Host.quiet : Host Unit) meaning :=
  fun _ _ _ _ _ _ _ => ⟨rfl, rfl⟩

theorem applies {t : Nat} (inside : t < 3) :
    (Template.apply Host.quiet ⟨t⟩ ⟨0⟩).result (applied t) = .ok ⟨0⟩ := by
  have all : ∀ t < 3, ((Template.apply Host.quiet ⟨t⟩ ⟨0⟩).result
      (applied t)).toOption = some ⟨0⟩ := by decide +kernel
  have found := all t inside
  cases outcome : (Template.apply Host.quiet ⟨t⟩ ⟨0⟩).result (applied t) with
  | error error =>
      rw [outcome] at found
      cases found
  | ok node =>
      rw [outcome] at found
      cases found
      rfl

private theorem blueprint_start {t : Nat} (inside : t < 3) :
    (start.template ⟨t⟩).blueprint =
      ⟨none, none, none, [("title", schema t)], [], []⟩ := by
  match t, inside with
  | 0, _ => rfl
  | 1, _ => rfl
  | 2, _ => rfl

theorem namespace?_eq {t : Nat} (inside : t < 3) :
    Schema.namespace? (schema t) = none := by
  have all : ∀ t < 3, Schema.namespace? (schema t) = none := by decide +kernel
  exact all t inside

theorem bound {t : Nat} (inside : t < 3) :
    (flattenChunks (schema t)).any Chunk.isBound = true := by
  have all : ∀ t < 3, (flattenChunks (schema t)).any Chunk.isBound = true := by
    decide +kernel
  exact all t inside

theorem count {t : Nat} (inside : t < 3) :
    ((applied (t + 1)).reactionsOf ⟨0⟩).entries.length =
      ((applied t).reactionsOf ⟨0⟩).entries.length +
        ((group t).bindings.filter (·.observable = ⟨0⟩)).length := by
  have all : ∀ t < 3, ((applied (t + 1)).reactionsOf ⟨0⟩).entries.length =
      ((applied t).reactionsOf ⟨0⟩).entries.length +
        ((group t).bindings.filter (·.observable = ⟨0⟩)).length := by
    decide +kernel
  exact all t inside

/-- A title takes nothing over from what was there. -/
theorem group_eq {t : Nat} (inside : t < 3) {shown : SyncGroup}
    (renders : shown.Renders ⟨0⟩ ("title", schema t)) : shown = group t := by
  obtain ⟨kept, extendable, rfl⟩ := renders
  have plain : Blueprint.isExtendable "title" = false := by decide
  have none : kept = [] := Classical.byContradiction fun some =>
    Bool.false_ne_true (plain.symm.trans (extendable some))
  rw [none, namespace?_eq inside]
  rfl

/-- The definitions are as before, the groups are all there, and they own all
listeners of the observable. -/
theorem exists_sharers {t : Nat} (inside : t ≤ 3) :
    (∀ other, ((applied t).template other).blueprint =
      (start.template other).blueprint) ∧
    ∃ sharers, Shares Host.quiet ⟨0⟩ none "title" sharers (applied t) ∧
      sharers.map (·.group) = (List.range t).map group ∧
      (∀ sharer ∈ sharers, sharer.IsLive Host.quiet (applied t)) ∧
      ∀ listener ∈ ((applied t).reactionsOf ⟨0⟩).entries,
        ∃ sharer ∈ sharers, sharer.Owns Host.quiet ⟨0⟩ listener := by
  induction t with
  | zero =>
      exact ⟨fun _ => rfl, [], .aside (.start ()) reached, rfl, nofun, nofun⟩
  | succ t ih =>
      obtain ⟨same, sharers, shares, shown, live, owned⟩ := ih (by omega)
      have blueprint := (same ⟨t⟩).trans (blueprint_start inside)
      have kept := Template.blueprint_apply (shares.ranked computes).ordered.sound
        (computes.template_isPure _ _ _) (applies inside)
      obtain ⟨sharer, renders, between, next, all⟩ :=
        shares.exists_next computes live (applies inside) (by rw [blueprint])
          (by rw [blueprint]; exact .head _) (namespace?_eq inside) rfl
          (bound inside)
      have named := group_eq inside renders
      refine ⟨fun other => (kept other).trans (same other),
        sharers ++ [sharer], next, ?_, all, fun listener member => ?_⟩
      · rw [List.map_append, shown, List.range_succ, List.map_append,
          List.map_singleton, List.map_singleton, named]
      · by_cases old : listener ∈ ((applied t).reactionsOf ⟨0⟩).entries
        · obtain ⟨owner, among, owns⟩ := owned listener old
          exact ⟨owner, List.mem_append_left _ among, owns⟩
        · refine ⟨sharer, List.mem_append_right _ (.head _),
            between.owns_new (follows _) renders.isRendered ?_ member old⟩
          rw [named]
          exact count inside

end SharedTitle

/-- The title follows the second template when `a` is set, and the first when
`b` is.  Otherwise it shows what the third one has written. -/
theorem last_bound_group_wins_title :
    ∃ sharers,
      Shares Host.quiet ⟨0⟩ none "title" sharers (SharedTitle.applied 3) ∧
      sharers.map (·.group) = [0, 1, 2].map SharedTitle.group ∧
      (∀ sharer ∈ sharers,
        sharer.IsLive Host.quiet (SharedTitle.applied 3)) ∧
      let title := fun property value =>
        ((Observable.set Host.quiet ⟨0⟩ property (.text value)).after
          (SharedTitle.applied 3)).dom.attributeNs? ⟨0⟩ none "title"
      title "a" "y" = some "y" ∧ title "a" "" = none ∧
        title "b" "w" = some "x w" ∧ title "c" "w" = some "z" := by
  obtain ⟨_, sharers, shares, shown, live, owned⟩ :=
    SharedTitle.exists_sharers (Nat.le_refl 3)
  have wins (property value : String)
      (changes : ((SharedTitle.applied 3).property ⟨0⟩ property).agrees
        (.text value) = false) :=
    last_bound_group_wins SharedTitle.computes shares
      (fun sharer _ => SharedTitle.follows sharer.group) live
      (by decide +kernel) (o := ⟨0⟩) changes fun listener waits foreign => by
        obtain ⟨sharer, among, owns⟩ :=
          owned listener (List.mem_filter.mp waits).1
        exact absurd owns (foreign sharer among)
  refine ⟨sharers, shares, shown, live, ?_⟩
  obtain ⟨first, rest, rfl, isFirst, shown⟩ := List.map_eq_cons_iff.mp shown
  obtain ⟨second, rest, rfl, isSecond, shown⟩ := List.map_eq_cons_iff.mp shown
  obtain ⟨third, rest, rfl, isThird, shown⟩ := List.map_eq_cons_iff.mp shown
  obtain rfl := List.map_eq_nil_iff.mp shown
  have notThird {property : String}
      (apart : ¬(SharedTitle.group 2).BoundTo ⟨0⟩ property) :
      ∀ other ∈ [third], ¬other.group.BoundTo ⟨0⟩ property := by
    intro other member
    rwa [List.mem_singleton.mp member, isThird]
  have byA (value : String)
      (changes : ((SharedTitle.applied 3).property ⟨0⟩ "a").agrees
        (.text value) = false) :=
    ((wins "a" value changes).1 [first] second [third] rfl
      (by rw [isSecond]; decide +kernel) (notThird (by decide +kernel))).2
  have byB := ((wins "b" "w" (by decide +kernel)).1 [] first [second, third] rfl
    (by rw [isFirst]; decide +kernel) (by
      rintro other (_ | ⟨_, member⟩)
      · rw [isSecond]
        decide +kernel
      · exact notThird (by decide +kernel) other member)).2
  have byC := (wins "c" "w" (by decide +kernel)).2.1 (by
    rintro other (_ | ⟨_, _ | ⟨_, member⟩⟩)
    · rw [isFirst]
      decide +kernel
    · rw [isSecond]
      decide +kernel
    · exact notThird (by decide +kernel) other member)
  rw [isSecond] at byA
  rw [isFirst] at byB
  exact ⟨(byA "y" (by decide +kernel)).trans (by decide +kernel),
    (byA "" (by decide +kernel)).trans (by decide +kernel),
    byB.trans (by decide +kernel), byC.trans (by decide +kernel)⟩

end LiveTemplate
