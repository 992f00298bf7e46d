import LiveTemplate.Proofs.Clearance
import LiveTemplate.Proofs.Completions
import LiveTemplate.Proofs.Layout
import LiveTemplate.Proofs.Upholding

/-!
# A template is rendered once

Templates are shared by handle: one may be nested in several others, and views
render theirs while another template is rendered.  Whatever is rendered,
applied, reverted and extended, in whatever order and with whatever success, a
template that has been rendered stays so, no template is rendered to the end
twice, and nothing comes of rendering it again or of rendering what contains
it.
-/

namespace LiveTemplate

variable {σ : Type} {host : Host σ}

namespace Template

theorem mem_nested {blueprint : Blueprint} {t : TemplateId}
    (inside : .template t ∈ blueprint.children) : t ∈ blueprint.nested := by
  exact List.mem_filterMap.mpr ⟨.template t, inside, rfl⟩

theorem exists_part {relation : TemplateId → List TemplateId → Prop}
    {items : List TemplateId} {parts : List (List TemplateId)}
    (paired : List.Forall₂ relation items parts) {t : TemplateId}
    (inside : t ∈ items) : ∃ part ∈ parts, relation t part := by
  induction paired with
  | nil => cases inside
  | @cons item part items parts related _ ih =>
      rcases List.mem_cons.mp inside with rfl | later
      · exact ⟨part, .head _, related⟩
      · obtain ⟨other, member, found⟩ := ih later
        exact ⟨other, .tail _ member, found⟩

/-- The check walks all templates in a tree. -/
theorem Occurs.mem_of_unfolds {world : World σ} {t inner : TemplateId}
    {place : List Nat} (occurs : Occurs world t place inner)
    {templates : List TemplateId} (unfolds : Unfolds world t templates) :
    inner ∈ templates := by
  induction occurs generalizing templates with
  | here t =>
      obtain ⟨_, _, rfl, _⟩ := unfolds_iff.mp unfolds
      exact .head _
  | @nested t child inner index place found _ ih =>
      obtain ⟨_, parts, rfl, each⟩ := unfolds_iff.mp unfolds
      obtain ⟨part, inside, below⟩ :=
        exists_part each (mem_nested (List.mem_of_getElem? found))
      exact .tail _ (List.mem_flatten_of_mem inside (ih below))

private theorem render_refused (host : Host σ) {world : World σ}
    {t inner : TemplateId} {place : List Nat}
    (occurs : Occurs world t place inner)
    (rendered : (world.template inner).rendered = true) :
    ∃ error, render host t world = (.error error, world) := by
  unfold render
  rw [run_renderWith]
  cases own : (world.template t).rendered with
  | true => exact ⟨_, rfl⟩
  | false =>
      cases checked : checkFresh world t with
      | error error => exact ⟨error, rfl⟩
      | ok =>
          obtain ⟨below, unfolds, placeable⟩ := checkFresh_ok checked
          rcases List.mem_cons.mp (occurs.mem_of_unfolds unfolds) with
            rfl | inside
          · rw [own] at rendered
            cases rendered
          · rw [placeable.unrendered inner inside] at rendered
            cases rendered

end Template

namespace World

/-- Templates were added or extended, views rendered, and nothing else that
matters for what a template is composed of.  Older templates keep their
children, and a text that they have. -/
structure Follows (world later : World σ) : Prop where
  size : world.templates.size ≤ later.templates.size
  children : ∀ t : TemplateId, t.index < world.templates.size →
    (later.template t).blueprint.children =
      (world.template t).blueprint.children
  text : ∀ t : TemplateId, t.index < world.templates.size →
    (later.template t).blueprint.text = none →
      (world.template t).blueprint.text = none
  members : ∀ c, (later.collection c).members = (world.collection c).members
  templates : ∀ v, (later.view v).template = (world.view v).template
  rendered : ∀ v, (world.view v).rendered = true →
    (later.view v).rendered = true

/-- Handles lead to templates that are there, and from a template to older
ones. -/
structure IsClosed (world : World σ) : Prop where
  sound : world.HasSoundTemplates
  viewed : ∀ v t, (world.view v).template = some t →
    t.index < world.templates.size

/-- Whether a member is there if it is a template. -/
def HasMember (world : World σ) (member : Member) : Prop :=
  ∀ t, member = .template t → t.index < world.templates.size

namespace Follows

variable {world between later : World σ}

theorem of_advances (advances : world.Advances later)
    (size : world.templates.size ≤ later.templates.size) :
    world.Follows later where
  size := size
  children t _ := by rw [advances.blueprints]
  text t _ none := by rwa [advances.blueprints] at none
  members := advances.members
  templates := advances.templates
  rendered := advances.rendered

theorem trans (first : world.Follows between) (second : between.Follows later) :
    world.Follows later where
  size := Nat.le_trans first.size second.size
  children t below := (second.children t
    (Nat.lt_of_lt_of_le below first.size)).trans (first.children t below)
  text t below none := first.text t below
    (second.text t (Nat.lt_of_lt_of_le below first.size) none)
  members c := (second.members c).trans (first.members c)
  templates v := (second.templates v).trans (first.templates v)
  rendered v before := second.rendered v (first.rendered v before)

theorem refl (world : World σ) : world.Follows world := by
  exact .of_advances (.refl world) (Nat.le_refl _)

/-- What stands in something old later on stood there before, and is old. -/
theorem stands (follows : world.Follows later) (closed : world.IsClosed)
    {member inner : Member} {place : List Nat}
    (stands : Stands later member place inner)
    (there : world.HasMember member) :
    Stands world member place inner ∧ world.HasMember inner := by
  induction stands with
  | here => exact ⟨.here _, there⟩
  | @template t index child inner place text found _ ih =>
      have below := there t rfl
      rw [follows.children t below] at found
      have inside := List.mem_of_getElem? found
      obtain ⟨stands, old⟩ := ih fun nested same => by
        subst same
        exact Nat.lt_trans ((closed.sound t).older nested inside) below
      exact ⟨.template (follows.text t below text) found stands, old⟩
  | @collection c index v inner place found _ ih =>
      rw [follows.members] at found
      obtain ⟨stands, old⟩ := ih fun _ impossible => nomatch impossible
      exact ⟨.collection found stands, old⟩
  | @view v t inner place fresh found _ ih =>
      rw [follows.templates] at found
      obtain ⟨stands, old⟩ := ih fun other same => by
        cases same
        exact closed.viewed v t found
      refine ⟨.view (Bool.eq_false_iff.mpr fun before => ?_) found stands, old⟩
      rw [follows.rendered v before] at fresh
      cases fresh

/-- Old templates do not come to stand inside themselves. -/
theorem isAcyclic (follows : world.Follows later) (closed : world.IsClosed)
    (acyclic : ∀ t place,
      Stands world (.template t) place (.template t) → place = [])
    {t : TemplateId} (there : t.index < world.templates.size) :
    Member.IsAcyclic later (.template t) := by
  rintro inner ⟨place, stands⟩ further inside
  have old := (follows.stands closed stands fun other same => by
    cases same
    exact there).2
  exact acyclic inner further (follows.stands closed inside old).1

end Follows

end World

/-- A template does not stand inside itself where members are composed of
members with smaller numbers. -/
theorem World.eq_nil_of_descending {world : World σ} {number : Member → Nat}
    (descends : ∀ member, ∀ part ∈ world.parts member,
      number part < number member) {t : TemplateId} {place : List Nat}
    (stands : Stands world (.template t) place (.template t)) : place = [] := by
  have descent {top inner : Member} {place : List Nat}
      (stands : Stands world top place inner) :
      number inner + place.length ≤ number top := by
    induction stands with
    | here => exact Nat.le_refl _
    | template _ found _ ih =>
        exact Nat.lt_of_le_of_lt ih
          (descends _ _ (List.mem_of_getElem? found))
    | collection found _ ih =>
        exact Nat.lt_of_le_of_lt ih
          (descends _ _ (List.mem_map_of_mem (List.mem_of_getElem? found)))
    | view _ found _ ih =>
        exact Nat.lt_of_le_of_lt ih (descends _ _ (by simp [parts, found]))
  exact List.eq_nil_of_length_eq_zero (by have := descent stands; omega)

/-- Templates were added and extended, and none was marked. -/
structure World.Reshapes (world later : World σ) : Prop where
  only : later = { world with templates := later.templates }
  rendered : ∀ t, (later.template t).rendered = (world.template t).rendered
  follows : world.Follows later

private theorem World.steady_reshapes (σ : Type) : Steady (Reshapes (σ := σ))
    where
  refl world := ⟨rfl, fun _ => rfl, .refl world⟩
  trans first second :=
    ⟨by rw [second.only, first.only],
      fun t => (second.rendered t).trans (first.rendered t),
      first.follows.trans second.follows⟩
  release frame world later inner := by
    refine ⟨?_, inner.rendered, inner.follows.size, inner.follows.children,
      inner.follows.text, inner.follows.members, inner.follows.templates,
      inner.follows.rendered⟩
    rw [inner.only]
    rfl

namespace Template

private theorem reshapes_add (blueprint : Blueprint) :
    (add blueprint : Act σ TemplateId).Within World.Reshapes := by
  intro world
  have adds := adds_add blueprint world
  refine ⟨adds.only, fun t => ?_, ?_, fun t below => ?_, fun t below none => ?_,
    fun _ => rfl, fun _ => rfl, fun _ => id⟩
  · by_cases new : t.index = world.templates.size
    · have same : t = (add blueprint).result world := congrArg TemplateId.mk new
      have before : world.template t = default := by
        unfold World.template
        rw [new]
        exact Store.get_size _
      rw [before, same, template_add_self]
      rfl
    · rw [template_add_of_ne _ _ new]
  · rw [adds.size]
    exact Nat.le_succ _
  · rw [adds.old t below]
  · rwa [adds.old t below] at none

private theorem text_of_merge_none {blueprint extension : Blueprint}
    (none : (blueprint.merge extension).text = Option.none) :
    blueprint.text = Option.none := by
  unfold Parts.merge at none
  cases added : extension.text with
  | none => simpa [added] using none
  | some schema => simp [added] at none

private theorem reshapes_merge (t : TemplateId) (extension : Blueprint) :
    (update t fun template =>
      { template with blueprint := template.blueprint.merge extension } :
        Act σ Unit).Within World.Reshapes := by
  intro world
  have each (other : TemplateId) : ((update t fun template =>
      { template with blueprint := template.blueprint.merge extension }).after
        world).template other = world.template other ∨
      ((update t fun template =>
      { template with blueprint := template.blueprint.merge extension }).after
        world).template other = { world.template other with
          blueprint := (world.template other).blueprint.merge extension } := by
    by_cases same : other = t
    · rw [same]
      exact .inr (template_update t _ world)
    · exact .inl (template_update_of_ne _ _ same)
  refine ⟨rfl, fun other => ?_, ?_, fun other _ => ?_, fun other _ none => ?_,
    fun _ => rfl, fun _ => rfl, fun _ => id⟩
  · rcases each other with same | merged
    · rw [same]
    · rw [merged]
  · change _ ≤ (world.templates.modify t.index _).size
    rw [Store.size_modify]
    exact Nat.le_max_left _ _
  · rcases each other with same | merged
    · rw [same]
    · rw [merged]
      rfl
  · rcases each other with same | merged
    · rwa [same] at none
    · rw [merged] at none
      exact text_of_merge_none none

private theorem reshapes_extend (t : TemplateId) (definition : Definition) :
    (extend t definition : Act σ (Except TemplateError Unit)).Within
      World.Reshapes := by
  exact within_extend (World.steady_reshapes σ) reshapes_add reshapes_merge t
    definition

private theorem leavesTemplates_revert (t : TemplateId) (n : NodeId) :
    (revert t n : Act σ (Except TemplateError Unit)).Within
      World.LeavesTemplates := by
  have steady := World.LeavesTemplates.steady σ
  refine steady.bind steady.get fun world => ?_
  split
  · split
    · exact steady.bind (.keep t none) fun _ =>
        steady.bind (.restore n _) fun _ => steady.pure _
    · exact steady.pure _
  · exact steady.pure _

end Template

/-- A command on a template. -/
inductive Command where
  | render (t : TemplateId)
  | apply (t : TemplateId) (n : NodeId)
  | revert (t : TemplateId) (n : NodeId)
  | extend (t : TemplateId) (definition : Definition)

namespace Command

/-- The template that a command is made on. -/
def template : Command → TemplateId
  | render t => t
  | apply t _ => t
  | revert t _ => t
  | extend t _ => t

/-- Make a command, whether it succeeds or not. -/
def run (host : Host σ) : Command → Act σ Unit
  | render t => do
      let _ ← Template.render host t
  | apply t n => do
      let _ ← Template.apply host t n
  | revert t n => do
      let _ ← Template.revert t n
  | extend t definition => do
      let _ ← Template.extend t definition

/-- The templates that a command renders afresh to the end.  Reverting and
extending render nothing. -/
def entries (host : Host σ) (world : World σ) : Command → Register
  | render t => ((Template.renderEntering host.beside
      (View.mountEntering host.beside) t).after (world.beside [])).register
  | apply t n => ((Template.applyEntering host.beside t n).after
      (world.beside [])).register
  | revert _ _ => []
  | extend _ _ => []

/-- The world after some commands. -/
def after (host : Host σ) (commands : List Command) (world : World σ) :
    World σ :=
  commands.foldl (fun world command => (command.run host).after world) world

/-- The templates that some commands render afresh to the end, in order. -/
def allEntries (host : Host σ) : List Command → World σ → Register
  | [], _ => []
  | command :: rest, world =>
      command.entries host world ++
        allEntries host rest ((command.run host).after world)

end Command

theorem stands_of_beside {world : World σ} {register : Register}
    {member inner : Member} {place : List Nat}
    (stands : Stands (world.beside register) member place inner) :
    Stands world member place inner := by
  induction stands with
  | here => exact .here _
  | template text found _ ih => exact .template text found ih
  | collection found _ ih => exact .collection found ih
  | view fresh found _ ih => exact .view fresh found ih

theorem Member.IsAcyclic.beside {world : World σ} {member : Member}
    (acyclic : member.IsAcyclic world) (register : Register) :
    member.IsAcyclic (world.beside register) := by
  rintro t ⟨place, stands⟩ further inside
  exact acyclic t ⟨place, stands_of_beside stands⟩ further
    (stands_of_beside inside)

namespace Command

variable {world : World σ}

theorem completes_alone {α : Type} {action : Act (σ × Register) α}
    {plain : Act σ α} (besides : action.Besides plain)
    {scope : TemplateId → Prop} {entries : Register}
    (enters : (world.beside []).Enters (action.after (world.beside [])) scope
      entries) :
    world.Finishes (plain.after world)
        (action.after (world.beside [])).register ∧
      world.Follows (plain.after world) := by
  have same : plain.after world = (action.after (world.beside [])).alone :=
    (besides.run (world.beside [])).2
  rw [same, enters.register]
  refine ⟨⟨enters.distinct, enters.fresh, enters.rendered⟩, .of_advances
    ⟨enters.advances.blueprints, enters.advances.members,
      enters.advances.templates, enters.advances.rendered⟩ enters.size⟩

/-- What a single command completes, and that older templates are not composed
of more. -/
theorem completes_run (aside : host.TransformsAside) (command : Command)
    (acyclic : Member.IsAcyclic world (.template command.template)) :
    world.Finishes ((command.run host).after world)
        (command.entries host world) ∧
      world.Follows ((command.run host).after world) := by
  cases command with
  | render t =>
      obtain ⟨_, enters⟩ := Template.enters_renderEntering aside
        (View.enters_mountEntering aside) (acyclic.beside [])
      exact completes_alone (Template.besides_renderEntering
        View.besides_mountEntering t) enters
  | apply t n =>
      obtain ⟨_, enters⟩ :=
        Template.enters_applyEntering aside n (acyclic.beside [])
      exact completes_alone (Template.besides_applyEntering t n) enters
  | revert t n =>
      have leaves := Template.leavesTemplates_revert t n world
      exact ⟨.none leaves.rendered, .of_advances leaves.advances leaves.size⟩
  | extend t definition =>
      have reshapes := Template.reshapes_extend t definition world
      exact ⟨.none reshapes.rendered, reshapes.follows⟩

/-- Commands on templates that were there at the start complete no template
twice. -/
theorem completes_after (aside : host.TransformsAside) {start : World σ}
    (closed : start.IsClosed)
    (acyclic : ∀ t place,
      Stands start (.template t) place (.template t) → place = [])
    {commands : List Command}
    (there : ∀ command ∈ commands,
      command.template.index < start.templates.size)
    (follows : start.Follows world) :
    world.Finishes (after host commands world)
        (allEntries host commands world) ∧
      start.Follows (after host commands world) := by
  induction commands generalizing world with
  | nil => exact ⟨.none fun _ => rfl, follows⟩
  | cons command rest ih =>
      obtain ⟨completes, step⟩ := completes_run aside command
        (follows.isAcyclic closed acyclic (there command (.head _)))
      obtain ⟨more, last⟩ := ih
        (fun other member => there other (.tail _ member))
        (follows.trans step)
      exact ⟨completes.trans more, last⟩

theorem after_append (commands others : List Command) (world : World σ) :
    after host (commands ++ others) world =
      after host others (after host commands world) :=
  List.foldl_append

/-- In every run of commands from a world that can be reached, in which no
template stands inside itself, a template that has been rendered stays so; no
template is rendered to the end twice, nor one that was rendered before; and
once a template has been rendered, rendering it again, or another one in which
it is nested, fails and changes nothing. -/
theorem templates_render_once (aside : host.TransformsAside) {client : σ}
    {start : World σ} (reached : Run (World.initial client) start)
    (viewed : ∀ v t, (start.view v).template = some t →
      t.index < start.templates.size)
    (acyclic : ∀ t place,
      Stands start (.template t) place (.template t) → place = [])
    {earlier later : List Command}
    (there : ∀ command ∈ earlier ++ later,
      command.template.index < start.templates.size) :
    let between := after host earlier start
    let last := after host (earlier ++ later) start
    let entries := allEntries host (earlier ++ later) start
    (∀ t, (between.template t).rendered = true →
      (last.template t).rendered = true) ∧
    (entries.map (·.1)).Nodup ∧
    (∀ t, t ∈ entries.map (·.1) ↔
      (start.template t).rendered = false ∧ (last.template t).rendered = true) ∧
    ∀ t, (between.template t).rendered = true → ∀ outer place,
      Template.Occurs last outer place t →
        ∃ error, Template.render host outer last = (.error error, last) := by
  intro between last entries
  have closed : start.IsClosed :=
    ⟨(reached.progress (World.ordered_initial client)).1.sound, viewed⟩
  obtain ⟨whole, _⟩ :=
    completes_after aside closed acyclic there (.refl start)
  obtain ⟨_, follows⟩ := completes_after aside closed acyclic
    (fun command member => there command (List.mem_append_left _ member))
    (.refl start)
  obtain ⟨rest, _⟩ := completes_after aside closed acyclic
    (fun command member => there command (List.mem_append_right _ member))
    follows
  rw [← after_append] at rest
  have stays : ∀ t, (between.template t).rendered = true →
      (last.template t).rendered = true :=
    fun t rendered => (rest.rendered t).mpr (.inl rendered)
  refine ⟨stays, whole.distinct, fun t => ⟨fun entered => ?_, ?_⟩,
    fun t rendered outer place occurs =>
      Template.render_refused host occurs (stays t rendered)⟩
  · exact ⟨whole.fresh t entered, (whole.rendered t).mpr (.inr entered)⟩
  · rintro ⟨free, rendered⟩
    refine ((whole.rendered t).mp rendered).resolve_left fun before => ?_
    rw [free] at before
    cases before

namespace Shared

/-- A paragraph, which is also the template of a view; an element with the view
and the paragraph, and one with the paragraph only. -/
def start : World Unit :=
  { World.initial () with
    emitters := ⟨#[⟨[], []⟩]⟩
    templates := ⟨#[⟨.ofTag "p", false, none⟩,
      ⟨Template.Halted.card [.view ⟨0⟩, .template ⟨0⟩], false, none⟩,
      ⟨Template.Halted.card [.template ⟨0⟩], false, none⟩]⟩
    views := ⟨#[⟨⟨0⟩, ⟨0⟩, some ⟨0⟩, none, false, []⟩]⟩ }

/-- The first element fails when its view has been rendered. -/
def earlier : List Command := [.render ⟨1⟩]

/-- What is done to the second one afterwards. -/
def later : List Command :=
  [.extend ⟨2⟩ (Parts.none.attr "class" [.fixed (.text "wide")]),
    .apply ⟨2⟩ ⟨0⟩, .revert ⟨2⟩ ⟨0⟩]

theorem reached : Run (World.initial ()) start := by
  refine .aside rfl rfl rfl ⟨?_, ?_⟩
  · rintro ⟨index⟩ entry kept
    rcases index with _ | _ | _ | index <;> cases kept
  · rintro _ ⟨index⟩
    rcases index with _ | _ | _ | index
    · exact ⟨.nil, fun _ member => nomatch member⟩
    · refine ⟨.nil, fun t member => ?_⟩
      rcases List.mem_cons.mp member with same | later
      · cases same
      · cases List.mem_singleton.mp later
        exact Nat.one_pos
    · refine ⟨.nil, fun t member => ?_⟩
      cases List.mem_singleton.mp member
      exact Nat.two_pos
    · exact .none _

theorem viewed (v : ViewId) (t : TemplateId)
    (found : (start.view v).template = some t) :
    t.index < start.templates.size := by
  obtain ⟨index⟩ := v
  rcases index with _ | index
  · cases found
    exact Nat.succ_pos 2
  · cases found

/-- Members by what they are composed of. -/
def number : Member → Nat
  | .template ⟨0⟩ => 0
  | .template _ => 2
  | .view _ => 1
  | .collection _ => 2
  | .node _ => 0

theorem descends (member : Member) :
    ∀ part ∈ start.parts member, number part < number member := by
  intro part inside
  cases member with
  | template t =>
      obtain ⟨index⟩ := t
      rcases index with _ | _ | _ | index
      · cases inside
      · rcases List.mem_cons.mp inside with rfl | last
        · exact Nat.one_lt_two
        · cases List.mem_singleton.mp last
          exact Nat.two_pos
      · cases List.mem_singleton.mp inside
        exact Nat.two_pos
      · cases inside
  | view v =>
      obtain ⟨index⟩ := v
      rcases index with _ | index
      · cases List.mem_singleton.mp inside
        exact Nat.one_pos
      · cases inside
  | collection c => cases inside
  | node n => cases inside

end Shared

/-- The paragraph is rendered once, by the view.  That the first element fails
takes nothing back, and the second one is refused in the end. -/
theorem shared_paragraph_renders_once :
    let between := after Template.Halted.client Shared.earlier Shared.start
    let last := after Template.Halted.client (Shared.earlier ++ Shared.later)
      Shared.start
    (Template.render Template.Halted.client ⟨1⟩).result Shared.start =
        .error .alreadyRendered ∧
      allEntries Template.Halted.client (Shared.earlier ++ Shared.later)
        Shared.start = [(⟨0⟩, ⟨2⟩)] ∧
      (between.template ⟨0⟩).rendered = true ∧
      ∃ error, Template.render Template.Halted.client ⟨2⟩ last =
        (.error error, last) := by
  intro between last
  have rendered : (between.template ⟨0⟩).rendered = true := by decide +kernel
  have occurs : Template.Occurs last ⟨2⟩ [0] ⟨0⟩ :=
    .nested (by decide +kernel) (.here _)
  have aside : Template.Halted.client.TransformsAside :=
    fun _ _ _ _ => ⟨rfl, rfl, rfl⟩
  have there : ∀ command ∈ Shared.earlier ++ Shared.later,
      command.template.index < Shared.start.templates.size := by
    simp [Shared.earlier, Shared.later, template, Shared.start, Store.size]
  obtain ⟨-, -, -, refused⟩ := templates_render_once aside Shared.reached
    Shared.viewed
    (fun _ _ stands => World.eq_nil_of_descending Shared.descends stands) there
  exact ⟨by decide +kernel, by decide +kernel, rendered,
    refused ⟨0⟩ rendered ⟨2⟩ [0] occurs⟩

end Command

end LiveTemplate
