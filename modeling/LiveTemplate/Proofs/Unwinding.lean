import LiveTemplate.Proofs.Respecting

/-!
# Stacked templates

Templates may be applied to a node on top of each other.  Each keeps on record
what the ones below have written, which may be out of date when the record is
restored: what lies below keeps writing where it did.  When the templates are
reverted in the reverse order this comes out right.  What a template covers is
restored to what it was before, and whatever else has changed in the meantime
was changed by the templates below, which restore it in their turn.
-/

namespace LiveTemplate

variable {σ : Type} {host : Host σ} {world after ready : World σ}

namespace Blueprint

variable {blueprint : Blueprint} {n : NodeId}

/-- The facets of a node that are saved before a definition is rendered. -/
def facets (blueprint : Blueprint) (n : NodeId) : List Facet :=
  if blueprint.text.isSome then [.text n]
  else blueprint.keys.map fun key => .attr n key.1 key.2

private theorem facet_mem_facets {slot : Slot}
    (member : slot ∈ blueprint.slots n) :
    slot.facet ∈ blueprint.facets n := by
  unfold slots at member
  unfold facets
  split at member
  · rename_i text
    rw [if_pos text, List.mem_singleton.mp member]
    exact .head _
  · rename_i text
    obtain ⟨entry, inside, among⟩ := List.mem_flatMap.mp member
    rw [if_neg text]
    refine List.mem_map.mpr ⟨entryKey entry, List.mem_map_of_mem inside, ?_⟩
    unfold entrySlots at among
    unfold entryKey
    cases found : entryStyles? entry.1 entry.2 with
    | none =>
        rw [found] at among
        rw [List.mem_singleton.mp among]
        rfl
    | some outcome =>
        rw [found] at among
        cases outcome with
        | error fault => cases among
        | ok styles =>
            obtain ⟨style, _, rfl⟩ := List.mem_map.mp among
            rw [(eq_style_of_entryStyles? found).1]
            rfl

end Blueprint

namespace Template

variable {t : TemplateId} {n : NodeId}

/-- The facets that are saved when a template is applied. -/
def Covers (world : World σ) (t : TemplateId) (n : NodeId) (facet : Facet) :
    Prop :=
  ∃ inner m, Matched world t n inner m ∧
    facet ∈ (world.template inner).blueprint.facets m

theorem Owns.covers {slot : Slot} (owns : Owns world t n slot) :
    Covers world t n slot.facet := by
  obtain ⟨inner, m, matched, member⟩ := owns
  exact ⟨inner, m, matched, Blueprint.facet_mem_facets member⟩

end Template

namespace Restored

variable {base : World σ} {shown later : Dom} {t inner : TemplateId}
  {n m : NodeId}

/-- A node of a template before it is applied, while it is in force and once it
is restored. -/
theorem kinds_cases (fits : Graftable base t n)
    (form : base.dom.SameFormBelow shown n)
    (restored : Restored base [(t, n)] shown later)
    (matched : Matched base t n inner m) :
    ((base.template inner).blueprint.text.isSome = true ∧
      ∃ data current, base.dom.kind m = .text data ∧
        shown.kind m = .text current ∧ later.kind m = .text data) ∨
    ((base.template inner).blueprint.text.isSome = false ∧
      ∃ namespaceName tag current,
        base.dom.kind m =
          .element namespaceName tag (base.dom.attributes m) ∧
        shown.kind m = .element namespaceName tag current ∧
        later.kind m = .element namespaceName tag (SavedAttribute.putBackAll
          ((base.template inner).blueprint.attributes.map
            (savedAttribute base.dom m)) current)) := by
  have back := restored.kinds _ (.head _) inner m matched
  have shape := (form m matched.inside).2
  cases Template.graftable_of_matched fits matched with
  | text _ text isText =>
      obtain ⟨data, kind⟩ := Dom.isText_iff.mp isText
      rw [kind] at shape
      obtain ⟨current, found⟩ := NodeKind.eq_text_of_shape shape
      rw [found, Blueprint.restored, kind] at back
      exact .inl ⟨text, data, current, kind, found, back⟩
  | element text isElement =>
      obtain ⟨namespaceName, tag, attributes, kind⟩ :=
        Dom.isElement_iff.mp isElement
      rw [kind] at shape
      obtain ⟨current, found⟩ := NodeKind.eq_element_of_shape shape
      rw [found, Blueprint.restored] at back
      have listed : base.dom.attributes m = attributes := by
        rw [Dom.attributes, kind]
      refine .inr ⟨by rw [text]; rfl, namespaceName, tag, current, ?_, found,
        back⟩
      rw [kind, listed]

private theorem facet_of_covered (sound : base.HasSoundTemplates)
    (plain : base.dom.HasPlainStyles n) (fits : Graftable base t n)
    (form : base.dom.SameFormBelow shown n)
    (restored : Restored base [(t, n)] shown later) {facet : Facet}
    (covered : Template.Covers base t n facet) :
    later.facet facet = base.dom.facet facet := by
  obtain ⟨inner, m, matched, member⟩ := covered
  unfold Blueprint.facets at member
  rcases kinds_cases fits form restored matched with
    ⟨text, data, current, kind, _, back⟩ |
    ⟨text, namespaceName, tag, current, kind, _, back⟩
  · rw [if_pos text] at member
    rw [List.mem_singleton.mp member]
    exact Dom.facet_congr (back.trans kind.symm)
  · rw [if_neg (by simp [text])] at member
    obtain ⟨key, among, rfl⟩ := List.mem_map.mp member
    rw [← Blueprint.map_key_savedAttribute _ base.dom m] at among
    obtain ⟨saved, present, rfl⟩ := List.mem_map.mp among
    rw [Dom.facet_attr_of_element back, Dom.facet_attr_of_element kind]
    have distinct := Blueprint.nodup_keys (sound inner).named
    rw [← Blueprint.map_key_savedAttribute _ base.dom m] at distinct
    refine (SavedAttribute.findNs?_putBackAll distinct current present).trans ?_
    obtain ⟨entry, _, rfl⟩ := List.mem_map.mp present
    exact Blueprint.value_savedAttribute fun _ => plain m matched.inside

/-- Whatever else there is stays as it is shown. -/
theorem facet_of_uncovered (fits : Graftable base t n)
    (form : base.dom.SameFormBelow shown n)
    (restored : Restored base [(t, n)] shown later) {facet : Facet}
    (apart : ¬Template.Covers base t n facet) :
    later.facet facet = shown.facet facet := by
  by_cases found : ∃ inner, Matched base t n inner facet.node
  · obtain ⟨inner, matched⟩ := found
    have unsaved : facet ∉ (base.template inner).blueprint.facets facet.node :=
      fun member => apart ⟨inner, facet.node, matched, member⟩
    unfold Blueprint.facets at unsaved
    rcases kinds_cases fits form restored matched with
      ⟨text, data, current, _, kind, back⟩ |
      ⟨text, namespaceName, tag, current, _, kind, back⟩
    · rw [if_pos text, List.mem_singleton] at unsaved
      cases facet with
      | text m => exact absurd rfl unsaved
      | attr m scope name =>
          rw [Facet.node] at back kind
          rw [Dom.facet_attr_of_text back, Dom.facet_attr_of_text kind]
    · rw [if_neg (by simp [text])] at unsaved
      cases facet with
      | text m =>
          rw [Facet.node] at back kind
          rw [Dom.facet_text_of_element back, Dom.facet_text_of_element kind]
      | attr m scope name =>
          rw [Facet.node] at back kind
          rw [Dom.facet_attr_of_element back, Dom.facet_attr_of_element kind]
          refine (SavedAttribute.confined_putBackAll _ current).findNs?_eq ?_
          rw [Blueprint.map_key_savedAttribute]
          exact fun among => unsaved (List.mem_map.mpr ⟨_, among, rfl⟩)
  · refine Dom.facet_congr (congrArg Node.kind ?_)
    refine restored.others facet.node fun pair member inner matched => ?_
    rw [List.mem_singleton.mp member] at matched
    exact found ⟨inner, matched⟩

/-- The form of the tree is the one from before. -/
theorem form (fits : Graftable base t n)
    (form : base.dom.SameFormBelow shown n)
    (restored : Restored base [(t, n)] shown later) :
    base.dom.SameFormBelow later n := by
  intro m inside
  obtain ⟨children, shape⟩ := form m inside
  refine ⟨(restored.children m).trans children, ?_⟩
  by_cases found : ∃ inner, Matched base t n inner m
  · obtain ⟨inner, matched⟩ := found
    rcases kinds_cases fits form restored matched with
      ⟨_, data, current, kind, _, back⟩ |
      ⟨_, namespaceName, tag, current, kind, _, back⟩
    · rw [back, kind]
    · rw [back, kind]
      rfl
  · have kept : later.node m = shown.node m :=
      restored.others m fun pair member inner matched => by
        rw [List.mem_singleton.mp member] at matched
        exact found ⟨inner, matched⟩
    rw [← shape]
    exact congrArg NodeKind.shape (congrArg Node.kind kept)

theorem alters (sound : base.HasSoundTemplates)
    (plain : base.dom.HasPlainStyles n) (fits : Graftable base t n)
    {facets : Facet → Prop}
    (altered : base.dom.AltersOnly n
      (fun facet => facets facet ∨ Template.Covers base t n facet) shown)
    (restored : Restored base [(t, n)] shown later) :
    base.dom.AltersOnly n facets later where
  form := restored.form fits altered.form
  facet facet inside apart := by
    -- What is covered is put back even if it has changed in the meantime.
    by_cases covered : Template.Covers base t n facet
    · exact restored.facet_of_covered sound plain fits altered.form covered
    · have unchanged := altered.facet facet inside fun among =>
        among.elim apart covered
      exact (restored.facet_of_uncovered fits altered.form covered).trans
        unchanged
  size := Nat.le_trans altered.size restored.size
  linked linked := (altered.linked linked).of_rows restored.children
    restored.parents

end Restored

namespace Template

/-- How a world comes out of applying a template to a node. -/
structure InForce (world : World σ) (t : TemplateId) (n : NodeId)
    (record : Record) (after : World σ) : Prop where
  free : (world.template t).applied = none
  fits : Graftable world t n
  recorded : ∀ nodes, world.dom.Spans n nodes → nodes.Nodup →
    Recorded world t n record
  kept : after.template t =
    { world.template t with applied := some (n, record) }
  others : ∀ inner, inner ≠ t → after.template inner = world.template inner
  alters : world.dom.AltersOnly n (Covers world t n) after.dom
  enrolls : World.Enrolls world after
  accounts : Accounts (fun _ => False) record.revokers world after
  installed : ∀ o, ∀ listener ∈ (after.reactionsOf o).entries,
    listener ∈ (world.reactionsOf o).entries ∨
      ∃ group, listener.action = .sync group ∧ Owns world t n group.slot

variable {base : Dom} {t : TemplateId} {n m : NodeId} {other : Reaction → Prop}
  {record : Record}

private theorem free_of_apply_ok
    (applied : (apply host t n).result world = .ok m) :
    (world.template t).applied = none := by
  have runs := run_apply host t n world
  unfold Act.result at applied
  rw [runs] at applied
  split at applied
  · cases applied
  · rename_i free
    exact Option.not_isSome_iff_eq_none.mp free

theorem inForce_apply (computes : host.OnlyComputes)
    (ordered : world.Ordered) (plain : world.dom.HasPlainStyles n)
    (applied : (apply host t n).result world = .ok m) :
    ∃ record, InForce world t n record ((apply host t n).after world) := by
  have fits := graftable_of_apply_ok ordered.sound applied
  have isPure := computes.template_isPure world t n
  have enrolls := computes.enrolls_apply applied
  obtain ⟨_, stored, accounts⟩ :=
    accounts_apply (computes.transformsWithin fun _ => False) ordered applied
  obtain ⟨record, node, passed, ended⟩ := apply_ok applied
  obtain ⟨same, outcome, grafted⟩ := grafted_applyPass ordered.sound fits isPure
  rw [passed] at outcome
  cases outcome
  rw [ended] at stored accounts enrolls ⊢
  rw [template_update] at stored
  cases stored
  -- The pass changes no template; keeping the record changes one.
  have templates (inner : TemplateId) :
      ((applyPass host t n).after world).template inner =
        world.template inner := by
    unfold World.template
    rw [grafted.fills.templates]
  exact ⟨_, {
    free := free_of_apply_ok applied
    fits := fits
    recorded := grafted.recorded
    kept := by rw [template_update, templates]
    others := fun inner differs => by
      rw [template_update_of_ne _ _ differs, templates]
    alters := .of_written grafted.fills.written (plain.among _)
      fun _ owns => owns.covers
    enrolls := enrolls
    accounts := accounts
    installed := fun o listener member =>
      (grafted.fills.installed o listener member).imp_right
        fun ⟨group, sync, serves⟩ => ⟨group, sync, serves.owned⟩ }⟩

namespace InForce

variable (inForce : InForce world t n record after)

include inForce

/-- What is kept up to date was so before, or is what the template covers. -/
theorem refreshes {facet : Facet} (refreshes : after.Refreshes facet) :
    world.Refreshes facet ∨ Covers world t n facet := by
  obtain ⟨o, listener, member, group, sync, rfl⟩ := refreshes
  rcases inForce.installed o listener member with old | ⟨own, same, owns⟩
  · exact .inl ⟨o, listener, old, group, sync, rfl⟩
  · rw [sync] at same
    cases same
    exact .inr owns.covers

theorem attended (attended : world.Attended base n other)
    (plain : after.dom.HasPlainStyles n) : after.Attended base n other where
  ordered := (inForce.accounts.run.progress attended.ordered).1
  linked := inForce.alters.linked attended.linked
  isTree := inForce.alters.isTree attended.isTree
  form := attended.form.trans inForce.alters.form
  styles := plain.among _
  listeners o listener member := by
    have still {group : SyncGroup} (inside : world.dom.Inside n group.slot.node)
        (proper : group.slot.IsProper world.dom) :
        after.dom.Inside n group.slot.node ∧ group.slot.IsProper after.dom :=
      ⟨inForce.alters.inside_iff.mpr inside,
        inForce.alters.isProper inside proper⟩
    rcases inForce.installed o listener member with old | ⟨group, sync, owns⟩
    · refine (attended.listeners o listener old).imp_right ?_
      rintro ⟨group, sync, inside, proper⟩
      exact ⟨group, sync, still inside proper⟩
    · obtain ⟨inside, proper⟩ := hasProperSlots inForce.fits _ owns
      exact .inr ⟨group, sync, still inside proper⟩

/-- Until the template is reverted the tree changes where the template or one
below it writes. -/
theorem alters_of_respects (respects : World.Respects n after ready) :
    world.dom.AltersOnly n
      (fun facet => world.Refreshes facet ∨ Covers world t n facet)
      ready.dom := by
  have first := inForce.alters.mono fun facet _ covered =>
    (.inr covered : world.Refreshes facet ∨ Covers world t n facet)
  exact first.trans (respects.alters.mono fun facet _ =>
    inForce.refreshes)

/-- The record that is restored is the one from when the template was
applied. -/
theorem run_revert (respects : World.Respects n after ready) :
    (revert t n : Act σ _).result ready = .ok () ∧
      (ready.template t).applied = some (n, record) ∧
      (revert t n : Act σ _).after ready =
        (record.restore n : Act σ Unit).after
          ((update t fun template =>
            { template with applied := none }).after ready) := by
  have applied : (ready.template t).applied = some (n, record) := by
    rw [respects.templates, inForce.kept]
  have reverted : (revert t n : Act σ _).result ready = .ok () :=
    revert_of_applied applied
  obtain ⟨_, stored, ended⟩ := revert_ok reverted
  rw [applied] at stored
  cases stored
  exact ⟨reverted, applied, ended⟩

private theorem template_revert (respects : World.Respects n after ready)
    (inner : TemplateId) :
    ((revert t n : Act σ _).after ready).template inner =
      world.template inner := by
  obtain ⟨_, _, ended⟩ := inForce.run_revert respects
  rw [ended, World.template, Record.templates_restore, ← World.template]
  by_cases here : inner = t
  · rw [here, template_update, respects.templates, inForce.kept,
      ← inForce.free]
  · rw [template_update_of_ne _ _ here, respects.templates,
      inForce.others inner here]

private theorem restored_revert (attended : world.Attended base n other)
    (respects : World.Respects n after ready) :
    Restored world [(t, n)] ready.dom
      ((revert t n : Act σ _).after ready).dom := by
  obtain ⟨_, _, ended⟩ := inForce.run_revert respects
  obtain ⟨nodes, spans, distinct, _⟩ := attended.isTree.spans attended.linked
  have form : world.dom.SameFormBelow ((update t fun template =>
      { template with applied := none }).after ready).dom n :=
    (inForce.alters_of_respects respects).form
  rw [ended]
  exact (inForce.recorded nodes spans distinct).restored attended.linked
    attended.isTree inForce.fits form

/-- Reverting undoes what has been done since the template was applied, but for
what the templates below have written. -/
theorem respects_revert (attended : world.Attended base n other)
    (plain : world.dom.HasPlainStyles n)
    (respects : World.Respects n after ready) :
    World.Respects n world ((revert t n : Act σ _).after ready) := by
  obtain ⟨reverted, applied, _⟩ := inForce.run_revert respects
  have onward := inForce.accounts.run.trans respects.run
  have ordered := (onward.progress attended.ordered).1
  obtain ⟨_, stored, severed⟩ := severed_revert ordered reverted
  rw [applied] at stored
  cases stored
  have left := inForce.enrolls.leaves attended.ordered inForce.accounts
    respects.run respects.reactions respects.eventActions severed
  exact {
    alters := (inForce.restored_revert attended respects).alters
      attended.ordered.sound plain inForce.fits
      (inForce.alters_of_respects respects)
    run := onward.trans (runs_revert t n ready ordered).run
    templates := inForce.template_revert respects
    reactions := left.1
    eventActions := left.2 }

end InForce

end Template

namespace Act

variable {α β ε : Type} {step : Act σ (Except ε α)}

/-- Go on unless the step has failed. -/
def onSuccess (step : Act σ (Except ε α)) (next : Act σ (Except ε β)) :
    Act σ (Except ε β) := do
  match ← step with
  | .error error => return .error error
  | .ok _ => next

theorem run_onSuccess {next : Act σ (Except ε β)} {a : α}
    (succeeds : step.result world = .ok a) :
    step.onSuccess next world = next (step.after world) := by
  have continues : step.onSuccess next world =
      (match step.result world with
      | .error error => return .error error
      | .ok _ => next : Act σ (Except ε β)) (step.after world) := rfl
  rw [continues, succeeds]

end Act

/-- A template of a stack, with the properties that are set after it has been
applied and before it is reverted. -/
structure Layer where
  template : TemplateId
  opening : List (ObservableId × String × Value)
  closing : List (ObservableId × String × Value)

namespace Layer

/-- Apply the templates from the first to the last and revert them from the
last to the first, unless one of them fails. -/
def unwind (host : Host σ) (n : NodeId) :
    List Layer → Act σ (Except TemplateError Unit)
  | [] => return .ok ()
  | layer :: above =>
      (Template.apply host layer.template n).onSuccess do
        Observable.setAll host layer.opening
        (unwind host n above).onSuccess do
          Observable.setAll host layer.closing
          Template.revert layer.template n

/-- Each template is applied in its turn, and at no time has an attribute for
styles a namespace. -/
inductive Applies (host : Host σ) (n : NodeId) :
    List Layer → World σ → Prop where
  | nil {world : World σ} : world.dom.HasPlainStyles n → Applies host n [] world
  | cons {layer : Layer} {above : List Layer} {world : World σ} {m : NodeId} :
      world.dom.HasPlainStyles n →
      (Template.apply host layer.template n).result world = .ok m →
      ((Template.apply host layer.template n).after
        world).dom.HasPlainStyles n →
      Applies host n above ((Observable.setAll host layer.opening).after
        ((Template.apply host layer.template n).after world)) →
      Applies host n (layer :: above) world

variable {base : Dom} {n : NodeId} {other : Reaction → Prop}
  {layers : List Layer}

theorem Applies.plain (applies : Applies host n layers world) :
    world.dom.HasPlainStyles n := by
  cases applies with
  | nil plain => exact plain
  | cons plain => exact plain

/-- When all goes well the template at the bottom is reverted in the end. -/
theorem unwind_cons {layer : Layer} {above : List Layer} {m : NodeId}
    (applied : (Template.apply host layer.template n).result world = .ok m) :
    let settled := (Observable.setAll host layer.opening).after
      ((Template.apply host layer.template n).after world)
    (unwind host n above).result settled = .ok () →
      unwind host n (layer :: above) world =
        (Template.revert layer.template n : Act σ _)
          ((Observable.setAll host layer.closing).after
            ((unwind host n above).after settled)) := by
  intro settled unwound
  rw [unwind, Act.run_onSuccess applied]
  exact Act.run_onSuccess unwound

theorem respects_unwind (computes : host.OnlyComputes)
    (alone : host.LeavesTree base n other)
    (attended : world.Attended base n other)
    (applies : Applies host n layers world) :
    (unwind host n layers).result world = .ok () ∧
      World.Respects n world ((unwind host n layers).after world) := by
  -- The layers above unwind on a tree that this template attends to as well.
  induction applies with
  | nil => exact ⟨rfl, .refl _⟩
  | @cons layer above world m plain applied after _ ih =>
      obtain ⟨record, inForce⟩ :=
        Template.inForce_apply computes attended.ordered plain applied
      have standing := inForce.attended attended after
      have opening := standing.setAll computes alone layer.opening
      obtain ⟨unwound, inner⟩ := ih (standing.of_respects opening)
      have finished := opening.trans inner
      have closing := (standing.of_respects finished).setAll computes alone
        layer.closing
      have respects := finished.trans closing
      unfold Act.result Act.after
      rw [unwind_cons applied unwound]
      exact ⟨(inForce.run_revert respects).1,
        inForce.respects_revert attended plain respects⟩

/-- Templates are applied to a tree one on top of the other and reverted in the
reverse order, and between any two of these steps properties are set.  Nobody
else writes to the tree, and transforms only compute.  If every template can be
applied in its turn, every one is reverted.  In the end texts have the data and
attributes the values from before, nodes have the children from before, and the
listeners are those from before in their order. -/
theorem stack_unwinds {client : σ} {before : World σ}
    (begun : Run (World.initial client) before)
    (linked : before.dom.IsLinked) (isTree : before.dom.IsTree n)
    (computes : host.OnlyComputes)
    (others : ∀ o, ∀ listener ∈ (before.reactionsOf o).entries,
      other listener.action)
    (apart : ∀ group, other (.sync group) →
      ¬before.dom.Inside n group.slot.node)
    (alone : host.LeavesTree before.dom n other)
    (applies : Applies host n layers before) :
    let later := (unwind host n layers).after before
    (unwind host n layers).result before = .ok () ∧
      (∀ m, before.dom.Inside n m →
        later.dom.children m = before.dom.children m ∧
          (later.dom.kind m).shape = (before.dom.kind m).shape ∧
          (∀ data, before.dom.kind m = .text data →
            later.dom.kind m = .text data) ∧
          ∀ namespaceName name, later.dom.attributeNs? m namespaceName name =
            before.dom.attributeNs? m namespaceName name) ∧
      (∀ o, (later.reactionsOf o).entries = (before.reactionsOf o).entries) ∧
      ∀ m, (later.eventActionsOf m).entries =
        (before.eventActionsOf m).entries := by
  intro later
  have attended : before.Attended before.dom n other := {
    ordered := (begun.progress (World.ordered_initial client)).1
    linked := linked
    isTree := isTree
    form := fun _ _ => ⟨rfl, rfl⟩
    styles := applies.plain.among _
    listeners := fun o listener member => .inl (others o listener member) }
  obtain ⟨unwound, respects⟩ := respects_unwind computes alone attended applies
  have unattended (facet : Facet) (inside : before.dom.Inside n facet.node) :
      ¬before.Refreshes facet := by
    rintro ⟨o, listener, member, group, sync, rfl⟩
    have foreign := others o listener member
    rw [sync] at foreign
    rw [Slot.node_facet] at inside
    exact apart group foreign inside
  have same (facet : Facet) (inside : before.dom.Inside n facet.node) :
      later.dom.facet facet = before.dom.facet facet :=
    respects.alters.facet facet inside (unattended facet inside)
  refine ⟨unwound, fun m inside => ?_, respects.reactions,
    respects.eventActions⟩
  obtain ⟨children, shape⟩ := respects.alters.form m inside
  refine ⟨children, shape, fun data text => ?_, fun namespaceName name =>
    same (.attr m namespaceName name) inside⟩
  rw [text] at shape
  obtain ⟨current, found⟩ := NodeKind.eq_text_of_shape shape
  have unchanged := same (.text m) inside
  rw [Dom.facet_text_of_text found, Dom.facet_text_of_text text] at unchanged
  rw [found, Option.some.inj unchanged]

namespace Sheet

def shows (property : String) : Schema :=
  [.bound ⟨⟨0⟩, ⟨0⟩, property, .value, none⟩]

/-- An element with a text in it, and two templates that both write to the
class, the style and the text.  Another element is elsewhere. -/
def plain : World Unit :=
  { World.initial () with
    dom := ⟨⟨#[⟨.element "html" "p" [⟨none, "class", "c"⟩,
        ⟨none, "title", "a"⟩, ⟨none, "style", "margin: 0"⟩], none, [⟨1⟩]⟩,
      ⟨.text "old", some ⟨0⟩, []⟩, ⟨.element "html" "b" [], none, []⟩]⟩⟩
    properties := ⟨#[[("x", .text "b")]]⟩
    emitters := ⟨#[⟨[], []⟩]⟩
    templates := ⟨#[⟨.ofText (shows "x"), false, none⟩,
      ⟨.ofText (shows "y"), false, none⟩,
      ⟨⟨none, none, none, [("title", shows "y"), ("class", shows "x"),
        ("style", [.styles [("color", shows "x")]])], [], [.template ⟨0⟩]⟩,
        false, none⟩,
      ⟨⟨none, none, none, [("class", shows "y"), ("id", shows "x"),
        ("style", [.styles [("color", shows "y"), ("margin", shows "y")]])],
        [], [.template ⟨1⟩]⟩, false, none⟩]⟩ }

/-- A group that keeps the other element up to date. -/
def elsewhere : SyncGroup := ⟨shows "x", .attr ⟨2⟩ none "title"⟩

/-- Others listen to the property as well. -/
def start : World Unit :=
  (Observable.subscribe ⟨0⟩ "change:x" (.call ⟨0⟩)).after
    ((Observable.subscribe ⟨0⟩ "change:x" (.sync elsewhere)).after plain)

/-- What others do when they are notified. -/
def Other (action : Reaction) : Prop :=
  action = .call ⟨0⟩ ∨ action = .sync elsewhere

def stack : List Layer :=
  [⟨⟨2⟩, [(⟨0⟩, "y", .text "d")], [(⟨0⟩, "x", .text "g")]⟩,
    ⟨⟨3⟩, [(⟨0⟩, "x", .text "e"), (⟨0⟩, "y", .text "f")],
      [(⟨0⟩, "y", .undefined)]⟩]

theorem reached : Run (World.initial ()) start := by
  have begun : Run (World.initial ()) plain := by
    refine .aside rfl rfl rfl ⟨?_, ?_⟩
    · rintro ⟨index⟩ entry kept
      rcases index with _ | _ | _ | _ | index <;> cases kept
    · rintro _ ⟨index⟩
      rcases index with _ | _ | _ | _ | index
      · exact ⟨.nil, fun _ member => absurd member List.not_mem_nil⟩
      · exact ⟨.nil, fun _ member => absurd member List.not_mem_nil⟩
      · refine ⟨by decide, fun t member => ?_⟩
        cases List.mem_singleton.mp member
        decide
      · refine ⟨by decide, fun t member => ?_⟩
        cases List.mem_singleton.mp member
        decide
      · exact .none _
  exact (begun.trans (.subscribe plain ⟨0⟩ _ (.sync elsewhere))).trans
    (.subscribe _ ⟨0⟩ _ (.call ⟨0⟩))

theorem linked : start.dom.IsLinked := by
  rintro ⟨parent⟩ ⟨child⟩
  rcases parent with _ | _ | _ | parent <;>
    rcases child with _ | _ | _ | child <;>
      simp [start, plain, Observable.subscribe, Observable.modifyReactions,
        Dom.children, Dom.parent?, Dom.node, Store.get, default]

theorem isTree : start.dom.IsTree ⟨0⟩ := by
  refine .node (by decide) (by decide) fun child member => ?_
  cases List.mem_singleton.mp member
  exact .node (by decide) (by decide) fun _ member =>
    absurd member List.not_mem_nil

theorem others (o : ObservableId) :
    ∀ listener ∈ (start.reactionsOf o).entries, Other listener.action := by
  obtain ⟨index⟩ := o
  cases index with
  | zero =>
      intro listener member
      rcases List.mem_cons.mp member with rfl | last
      · exact .inr rfl
      · cases List.mem_singleton.mp last
        exact .inl rfl
  | succ index => exact fun _ member => by cases member

theorem outside : ¬start.dom.Inside ⟨0⟩ ⟨2⟩ := by
  intro inside
  cases inside with
  | under child below =>
      cases List.mem_singleton.mp child
      cases below with
      | under child => cases child

theorem apart (group : SyncGroup) (other : Other (.sync group)) :
    ¬start.dom.Inside ⟨0⟩ group.slot.node := by
  rcases other with call | sync
  · cases call
  · cases sync
    exact outside

theorem computes : Template.Card.client.OnlyComputes := by
  intro _ _ _ _
  rfl

theorem alone : Template.Card.client.LeavesTree start.dom ⟨0⟩ Other := by
  rintro _ (rfl | rfl) notice world attended
  · exact .refl world
  · exact .sync computes attended.styles trivial fun inside =>
      absurd (attended.form.inside_iff.mp inside) outside

theorem applies : Applies Template.Card.client ⟨0⟩ stack start := by
  have plain {dom : Dom} (rows : ∀ index < dom.nodes.size,
      Attribute.HasPlainStyle (dom.attributes ⟨index⟩)) :
      dom.HasPlainStyles ⟨0⟩ := .of_rows rows
  refine .cons (m := ⟨0⟩) (plain ?_) ?_ (plain ?_)
    (.cons (m := ⟨0⟩) (plain ?_) ?_ (plain ?_) (.nil (plain ?_))) <;>
    decide +kernel

end Sheet

/-- Both templates have written to the element when they are reverted, and the
title has come back behind the style. -/
theorem stack_unwinds_sheet :
    let later := (unwind Template.Card.client ⟨0⟩ Sheet.stack).after Sheet.start
    (unwind Template.Card.client ⟨0⟩ Sheet.stack).result Sheet.start = .ok () ∧
      later.dom.kind ⟨1⟩ = .text "old" ∧
      later.dom.attributeNs? ⟨0⟩ none "title" = some "a" ∧
      (later.reactionsOf ⟨0⟩).entries = (Sheet.start.reactionsOf ⟨0⟩).entries ∧
      later.dom.outerHtml ⟨0⟩ =
        "<p class=\"c\" style=\"margin: 0\" title=\"a\">old</p>" := by
  obtain ⟨unwound, nodes, reactions, _⟩ := stack_unwinds Sheet.reached
    Sheet.linked Sheet.isTree Sheet.computes Sheet.others Sheet.apart
    Sheet.alone Sheet.applies
  have text := (nodes ⟨1⟩ (.under (.head _) (.here _))).2.2.1
  have entries := (nodes ⟨0⟩ (.here _)).2.2.2
  exact ⟨unwound, text "old" rfl, entries none "title", reactions ⟨0⟩,
    by decide +kernel⟩

end Layer

end LiveTemplate
