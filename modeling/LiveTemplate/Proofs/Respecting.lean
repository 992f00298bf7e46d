import LiveTemplate.Proofs.Enrolling
import LiveTemplate.Proofs.Facets

/-!
# What happens to a tree between two steps

Between two steps that apply or revert templates properties are set.  The
listeners that keep slots in a tree up to date write there; whatever else
listens leaves the tree alone and all listeners registered as they were.  So
what changes in the tree meanwhile is kept up to date by some listener.

Listeners of others may do more than nothing: they may set properties
themselves, write elsewhere, and subscribe as long as they unsubscribe again.
-/

namespace LiveTemplate

variable {σ : Type} {host : Host σ} {world between later : World σ}
  {base : Dom} {n : NodeId} {other : Reaction → Prop}

namespace World

/-- Some listener keeps the facet up to date. -/
def Refreshes (world : World σ) (facet : Facet) : Prop :=
  ∃ o, ∃ listener ∈ (world.reactionsOf o).entries,
    ∃ group, listener.action = .sync group ∧ group.slot.facet = facet

/-- In the tree below a node nothing changes but what listeners keep up to
date, and templates and listeners are as before. -/
structure Respects (n : NodeId) (world later : World σ) : Prop where
  alters : world.dom.AltersOnly n world.Refreshes later.dom
  run : Run world later
  templates : ∀ t, later.template t = world.template t
  reactions : ∀ o,
    (later.reactionsOf o).entries = (world.reactionsOf o).entries
  eventActions : ∀ m,
    (later.eventActionsOf m).entries = (world.eventActionsOf m).entries

/-- A world in order with a tree of a given form in which listeners keep slots
up to date; all listeners but these belong to others. -/
structure Attended (base : Dom) (n : NodeId) (other : Reaction → Prop)
    (world : World σ) : Prop where
  ordered : world.Ordered
  linked : world.dom.IsLinked
  isTree : world.dom.IsTree n
  form : base.SameFormBelow world.dom n
  styles : world.dom.StylesAmong n world.Refreshes
  listeners : ∀ o, ∀ listener ∈ (world.reactionsOf o).entries,
    other listener.action ∨ ∃ group, listener.action = .sync group ∧
      world.dom.Inside n group.slot.node ∧ group.slot.IsProper world.dom

theorem refreshes_congr (reactions : ∀ o,
    (later.reactionsOf o).entries = (world.reactionsOf o).entries) :
    later.Refreshes = world.Refreshes := by
  unfold Refreshes
  funext facet
  simp only [reactions]

namespace Respects

theorem refl (world : World σ) : Respects n world world := by
  exact ⟨.refl _, .refl world, fun _ => rfl, fun _ => rfl, fun _ => rfl⟩

theorem trans (first : Respects n world between)
    (second : Respects n between later) : Respects n world later where
  alters := first.alters.trans (refreshes_congr first.reactions ▸ second.alters)
  run := first.run.trans second.run
  templates t := (second.templates t).trans (first.templates t)
  reactions o := (second.reactions o).trans (first.reactions o)
  eventActions m := (second.eventActions m).trans (first.eventActions m)

/-- Only the document changes. -/
theorem of_dom {dom : Dom}
    (alters : world.dom.AltersOnly n world.Refreshes dom) :
    Respects n world { world with dom := dom } := by
  exact ⟨alters, .aside rfl rfl rfl (.of_templates rfl), fun _ => rfl,
    fun _ => rfl, fun _ => rfl⟩

theorem holding (world : World σ) (frames : List Frame) :
    Respects n world (world.holding frames) := by
  exact
    ⟨.refl _, .holding world frames, fun _ => rfl, fun _ => rfl, fun _ => rfl⟩

theorem store (o : ObservableId) (name : String) (value : Value)
    (world : World σ) :
    Respects n world ((Observable.store o name value).after world) := by
  exact ⟨.refl _, .aside rfl rfl rfl (.of_templates rfl), fun _ => rfl,
    fun _ => rfl, fun _ => rfl⟩

end Respects

theorem Attended.of_respects (attended : world.Attended base n other)
    (respects : Respects n world later) : later.Attended base n other where
  ordered := (respects.run.progress attended.ordered).1
  linked := respects.alters.linked attended.linked
  isTree := respects.alters.isTree attended.isTree
  form := attended.form.trans respects.alters.form
  styles := refreshes_congr respects.reactions ▸
    respects.alters.stylesAmong attended.styles
  listeners o listener member := by
    rw [respects.reactions] at member
    refine (attended.listeners o listener member).imp_right ?_
    rintro ⟨group, sync, inside, proper⟩
    exact ⟨group, sync, respects.alters.inside_iff.mpr inside,
      respects.alters.isProper inside proper⟩

end World

/-- Properties are set one after the other. -/
def Observable.setAll (host : Host σ)
    (changes : List (ObservableId × String × Value)) : Act σ Unit :=
  changes.forM fun (o, name, value) => set host o name value

/-- Whatever listeners of others do respects the tree. -/
def Host.LeavesTree (host : Host σ) (base : Dom) (n : NodeId)
    (other : Reaction → Prop) : Prop :=
  ∀ action, other action → ∀ notice world, World.Attended base n other world →
    World.Respects n world ((Observable.react host notice action).after world)

namespace World

/-- A group writes to the tree only what listeners keep up to date. -/
theorem Respects.sync (computes : host.OnlyComputes) {group : SyncGroup}
    (styles : world.dom.StylesAmong n world.Refreshes)
    (proper : group.slot.IsProper world.dom)
    (shows : world.dom.Inside n group.slot.node →
      world.Refreshes group.slot.facet) :
    Respects n world ((group.sync host).after world) := by
  have unchanged := after_evaluate group.slot.node world
    fun binding (_ : binding ∈ inputsAny group.chunks) => computes.isPure binding
  unfold SyncGroup.sync
  rw [Act.after_bind, unchanged, Act.after_modifyDom]
  exact .of_dom (.display styles proper shows _)

namespace Attended

variable (computes : host.OnlyComputes) (alone : host.LeavesTree base n other)

include computes alone

theorem react (attended : world.Attended base n other) {o : ObservableId}
    {listener : Listener Reaction}
    (member : listener ∈ (world.reactionsOf o).entries) (notice : Notice) :
    Respects n world
      ((Observable.react host notice listener.action).after world) := by
  rcases attended.listeners o listener member with
    foreign | ⟨group, sync, _, proper⟩
  · exact alone _ foreign notice world attended
  · rw [sync]
    exact .sync computes attended.styles proper fun _ =>
      ⟨o, listener, member, group, sync, rfl⟩

theorem notifyEach (attended : world.Attended base n other) {o : ObservableId}
    (notice : Notice) {waiting : List (Listener Reaction)}
    (members : ∀ listener ∈ waiting,
      listener ∈ (world.reactionsOf o).entries) :
    Respects n world
      ((Observable.notifyEach host o notice waiting).after world) := by
  induction waiting generalizing world with
  | nil => exact .refl world
  | cons listener rest ih =>
      rw [Observable.after_notifyEach_cons]
      have turn : Respects n world
          (if (world.reactionsOf o).contains listener.id then
            (keeping (.listeners (listener :: rest))
              (Observable.react host notice listener.action)).after world
          else world) := by
        split
        · rw [after_keeping]
          have entered : Respects n world (world.holding
            (.listeners (listener :: rest) :: world.frames)) := .holding world _
          exact (entered.trans ((attended.of_respects entered).react computes
            alone (members listener (.head _)) notice)).trans (.holding _ _)
        · exact .refl world
      refine turn.trans (ih (attended.of_respects turn) fun other among => ?_)
      rw [turn.reactions]
      exact members other (.tail _ among)

theorem set (attended : world.Attended base n other) (o : ObservableId)
    (name : String) (value : Value) :
    Respects n world ((Observable.set host o name value).after world) := by
  have stored : Respects n world ((Observable.store o name value).after world) :=
    .store o name value world
  rw [Observable.after_set]
  split
  · exact stored
  · exact stored.trans ((attended.of_respects stored).notifyEach computes alone
      _ fun listener member => List.mem_of_mem_filter member)

theorem setAll (attended : world.Attended base n other)
    (changes : List (ObservableId × String × Value)) :
    Respects n world ((Observable.setAll host changes).after world) := by
  induction changes generalizing world with
  | nil => exact .refl world
  | cons first rest ih =>
      have head := attended.set computes alone first.1 first.2.1 first.2.2
      exact head.trans (ih (attended.of_respects head))

end Attended

end World

end LiveTemplate
