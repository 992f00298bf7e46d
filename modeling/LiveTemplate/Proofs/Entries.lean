import LiveTemplate.Proofs.Conduct
import LiveTemplate.Proofs.Releasing
import LiveTemplate.Proofs.Registers

/-!
# What is entered in the register

A template is marked as rendered when its pass has been completed, and entered.
A pass begins only if the template is not marked, and nothing that is rendered
on the way is the template itself, unless it stands somewhere inside itself.
So whatever is entered was not marked before and is marked afterwards, and
nothing is entered twice.
-/

namespace LiveTemplate

variable {σ α β : Type}

namespace World

/-- Templates and views are rendered as before, and the client keeps what it
kept. -/
structure LeavesTemplates (world later : World σ) : Prop where
  advances : world.Advances later
  size : world.templates.size ≤ later.templates.size
  rendered : ∀ t, (later.template t).rendered = (world.template t).rendered
  client : later.client = world.client

namespace LeavesTemplates

theorem of_stores {world later : World σ}
    (templates : later.templates = world.templates)
    (views : later.views = world.views)
    (members : ∀ c,
      (later.collection c).members = (world.collection c).members)
    (client : later.client = world.client) : world.LeavesTemplates later := by
  have same (t : TemplateId) : later.template t = world.template t := by
    simp only [template, templates]
  have alike (v : ViewId) : later.view v = world.view v := by
    simp only [view, views]
  refine ⟨⟨fun t => ?_, members, fun v => ?_, fun v => ?_⟩,
    Nat.le_of_eq (by rw [templates]), fun t => ?_, client⟩
  · rw [same]
  · rw [alike]
  · rw [alike]
    exact id
  · rw [same]

theorem steady (σ : Type) : Steady (LeavesTemplates (σ := σ)) where
  refl _ := .of_stores rfl rfl (fun _ => rfl) rfl
  trans first second :=
    ⟨first.advances.trans second.advances, Nat.le_trans first.size second.size,
      fun t => (second.rendered t).trans (first.rendered t),
      second.client.trans first.client⟩
  release _ _ _ inner :=
    ⟨⟨inner.advances.blueprints, inner.advances.members,
      inner.advances.templates, inner.advances.rendered⟩, inner.size,
      inner.rendered, inner.client⟩

theorem revoke (r : RevokerId) :
    (Revoker.revoke r : Act σ Unit).Within LeavesTemplates := by
  intro world
  obtain ⟨_, _, _, left⟩ := Revoker.revoke_leaves r world
  rw [left]
  exact .of_stores rfl rfl (fun _ => rfl) rfl

/-- Giving up subscriptions leaves templates alone. -/
theorem revokeAll (record : Record) :
    (record.revokeAll : Act σ Unit).Within LeavesTemplates :=
  (steady σ).revokeAll revoke record

theorem restore (n : NodeId) (record : Record) :
    (record.restore n : Act σ Unit).Within LeavesTemplates := by
  exact (steady σ).restore revoke
    (fun _ _ => .of_stores rfl rfl (fun _ => rfl) rfl) n record

/-- What a template was applied to says nothing about its rendering. -/
theorem keep (t : TemplateId) (entry : Option (NodeId × Record)) :
    (Template.update t fun template => { template with applied := entry } :
      Act σ Unit).Within LeavesTemplates := by
  intro world
  have each (other : TemplateId) : ∃ kept, ((Template.update t fun template =>
      { template with applied := entry }).after world).template other =
        { world.template other with applied := kept } := by
    by_cases same : other = t
    · rw [same, Template.template_update]
      exact ⟨entry, rfl⟩
    · rw [Template.template_update_of_ne _ _ same]
      exact ⟨_, rfl⟩
  refine ⟨⟨fun other => ?_, fun _ => rfl, fun _ => rfl, fun _ => id⟩, ?_,
    fun other => ?_, rfl⟩
  · obtain ⟨kept, same⟩ := each other
    rw [same]
  · change _ ≤ (world.templates.modify t.index _).size
    rw [Store.size_modify]
    exact Nat.le_max_left _ _
  · obtain ⟨kept, same⟩ := each other
    rw [same]

end LeavesTemplates

/-- Some templates were rendered to the end, none of them rendered before and
none twice, and no other was marked. -/
structure Finishes (world later : World σ) (entries : Register) : Prop where
  distinct : (entries.map (·.1)).Nodup
  fresh : ∀ t ∈ entries.map (·.1), (world.template t).rendered = false
  rendered : ∀ t, (later.template t).rendered = true ↔
    (world.template t).rendered = true ∨ t ∈ entries.map (·.1)

namespace Finishes

variable {world between later : World σ} {entries more : Register}

theorem none (rendered : ∀ t,
    (later.template t).rendered = (world.template t).rendered) :
    world.Finishes later [] where
  distinct := .nil
  fresh _ member := nomatch member
  rendered t := by simp [rendered]

/-- What is entered first is not entered again, because it has been rendered. -/
theorem trans (first : world.Finishes between entries)
    (second : between.Finishes later more) :
    world.Finishes later (entries ++ more) where
  distinct := by
    rw [List.map_append, List.nodup_append]
    refine ⟨first.distinct, second.distinct, ?_⟩
    rintro t early _ late rfl
    have fresh := second.fresh t late
    rw [(first.rendered t).mpr (.inr early)] at fresh
    cases fresh
  fresh t member := by
    rw [List.map_append, List.mem_append] at member
    rcases member with early | late
    · exact first.fresh t early
    · refine Bool.eq_false_iff.mpr fun rendered => ?_
      have fresh := second.fresh t late
      rw [(first.rendered t).mpr (.inl rendered)] at fresh
      cases fresh
  rendered t := by
    rw [second.rendered, first.rendered, List.map_append, List.mem_append,
      or_assoc]

end Finishes

/-- What is completed is entered, and all of it is in scope. -/
structure Enters (world later : World (σ × Register))
    (scope : TemplateId → Prop) (entries : Register) : Prop
    extends Finishes world later entries where
  advances : world.Advances later
  size : world.templates.size ≤ later.templates.size
  register : later.register = world.register ++ entries
  covered : ∀ t ∈ entries.map (·.1), scope t

namespace Enters

variable {world between later : World (σ × Register)}
  {scope wider : TemplateId → Prop} {entries more : Register}

theorem none_of_advances (advances : world.Advances later)
    (size : world.templates.size ≤ later.templates.size)
    (register : later.register = world.register)
    (rendered : ∀ t,
      (later.template t).rendered = (world.template t).rendered) :
    world.Enters later scope [] where
  toFinishes := .none rendered
  advances := advances
  size := size
  register := by rw [register, List.append_nil]
  covered _ member := nomatch member

theorem of_leaves (leaves : world.LeavesTemplates later) :
    world.Enters later scope [] := by
  exact none_of_advances leaves.advances leaves.size
    (congrArg Prod.snd leaves.client) leaves.rendered

theorem refl (world : World (σ × Register)) : world.Enters world scope [] :=
  of_leaves ((LeavesTemplates.steady _).refl world)

theorem mono (enters : world.Enters later scope entries)
    (wide : ∀ t, scope t → wider t) : world.Enters later wider entries := by
  exact
    { enters with covered := fun t member => wide t (enters.covered t member) }

theorem trans (first : world.Enters between scope entries)
    (second : between.Enters later scope more) :
    world.Enters later scope (entries ++ more) where
  toFinishes := first.toFinishes.trans second.toFinishes
  advances := first.advances.trans second.advances
  size := Nat.le_trans first.size second.size
  register := by rw [second.register, first.register, List.append_assoc]
  covered t member := by
    rw [List.map_append, List.mem_append] at member
    exact member.elim (first.covered t) (second.covered t)

/-- What is held meanwhile makes no difference. -/
theorem release {frames others : List Frame}
    (enters : (world.holding frames).Enters later scope entries) :
    world.Enters (later.holding others) scope entries where
  advances := ⟨enters.advances.blueprints, enters.advances.members,
    enters.advances.templates, enters.advances.rendered⟩
  size := enters.size
  register := enters.register
  covered := enters.covered
  distinct := enters.distinct
  fresh := enters.fresh
  rendered := enters.rendered

end Enters

/-- When the world has come from a base, there are entries in scope. -/
def Entering (base : World (σ × Register)) (scope : TemplateId → Prop)
    (world later : World (σ × Register)) : Prop :=
  base.Advances world → ∃ entries, world.Enters later scope entries

theorem entering_of_leaves {base world later : World (σ × Register)}
    {scope : TemplateId → Prop} (leaves : world.LeavesTemplates later) :
    base.Entering scope world later := by
  intro _
  exact ⟨[], .of_leaves leaves⟩

theorem steady_entering (base : World (σ × Register))
    (scope : TemplateId → Prop) : Steady (base.Entering scope) where
  refl world _ := ⟨[], .refl world⟩
  trans early late advances := by
    obtain ⟨entries, first⟩ := early advances
    obtain ⟨more, second⟩ := late (advances.trans first.advances)
    exact ⟨entries ++ more, first.trans second⟩
  release frame world later inner advances := by
    obtain ⟨entries, enters⟩ := inner ⟨advances.blueprints, advances.members,
      advances.templates, advances.rendered⟩
    exact ⟨entries, enters.release⟩

end World

theorem Pass.entering_get {base : World (σ × Register)}
    {scope : TemplateId → Prop}
    {next : World (σ × Register) → Pass (σ × Register) α}
    (later : ∀ world, base.Advances world →
      (next world).Within (base.Entering scope)) :
    (Pass.act get >>= next).Within (base.Entering scope) := by
  intro record world advances
  exact later world advances record world advances

/-- The transforms of a client leave templates, views and collections alone. -/
def Host.TransformsAside (host : Host σ) : Prop :=
  ∀ handler value node (world : World σ),
    let later := (host.transform handler value node).after world
    later.templates = world.templates ∧ later.views = world.views ∧
      later.collections = world.collections

theorem Host.TransformsAside.bounds {host : Host σ}
    (aside : host.TransformsAside) (base : World (σ × Register))
    (scope : TemplateId → Prop) :
    host.beside.Bounds (fun _ _ => True) (base.Entering scope) where
  toSteady := World.steady_entering base scope
  transform handler value node world _ := by
    obtain ⟨templates, views, collections⟩ :=
      aside handler value node world.alone
    have same (t : TemplateId) :
        ((host.beside.transform handler value node).after world).template t =
          world.template t :=
      congrArg (fun store : Store Template => store.get t.index) templates
    have alike (v : ViewId) :
        ((host.beside.transform handler value node).after world).view v =
          world.view v :=
      congrArg (fun store : Store View => store.get v.index) views
    refine ⟨[], .none_of_advances ⟨fun t => ?_, fun c => ?_, fun v => ?_,
      fun v => ?_⟩ (Nat.le_of_eq (congrArg Store.size templates.symm)) rfl
      fun t => ?_⟩
    · rw [same]
    · exact congrArg
        (fun store : Store Collection => (store.get c.index).members) collections
    · rw [alike]
    · rw [alike]
      exact id
    · rw [same]
  observable _ _ _ _ _ :=
    World.entering_of_leaves (.of_stores rfl rfl (fun _ => rfl) rfl)
  node _ _ _ _ _ :=
    World.entering_of_leaves (.of_stores rfl rfl (fun _ => rfl) rfl)
  attributes _ _ _ :=
    World.entering_of_leaves (.of_stores rfl rfl (fun _ => rfl) rfl)
  text _ _ _ _ :=
    World.entering_of_leaves (.of_stores rfl rfl (fun _ => rfl) rfl)
  stays _ _ := trivial

theorem World.Advances.composes {world later : World σ} {member inner : Member}
    (advances : world.Advances later) (composes : later.Composes member inner) :
    world.Composes member inner := by
  obtain ⟨place, stands⟩ := composes
  exact ⟨place, advances.stands stands⟩

theorem World.advances_holding (world : World σ) (frames : List Frame) :
    world.Advances (world.holding frames) :=
  ((SameSetup.refl world).held frames).advances

/-- No template in the composition of a member stands inside itself. -/
def Member.IsAcyclic (world : World σ) (member : Member) : Prop :=
  ∀ t, world.Composes member (.template t) →
    ∀ place, Stands world (.template t) place (.template t) → place = []

namespace Member.IsAcyclic

variable {world later : World σ} {member inner : Member}

theorem below (acyclic : member.IsAcyclic world)
    (composes : world.Composes member inner) : inner.IsAcyclic world := by
  intro t further
  exact acyclic t (composes.trans further)

theorem advance (acyclic : member.IsAcyclic world)
    (advances : world.Advances later) : member.IsAcyclic later := by
  intro t composes further inside
  exact acyclic t (advances.composes composes) further (advances.stands inside)

theorem not_composes {t : TemplateId} {child : Member}
    (acyclic : Member.IsAcyclic world (.template t))
    (text : (world.template t).blueprint.text = none)
    (inside : child ∈ (world.template t).blueprint.children) :
    ¬world.Composes child (.template t) := by
  rintro ⟨place, stands⟩
  obtain ⟨index, found⟩ := List.mem_iff_getElem?.mp inside
  cases acyclic t (.refl world _) _ (.template text found stands)

end Member.IsAcyclic

/-- Mounting a view enters templates in its composition only. -/
def Mounter.Enters (mounter : Mounter (σ × Register)) : Prop :=
  ∀ v (world : World (σ × Register)), Member.IsAcyclic world (.view v) →
    ∃ entries, world.Enters ((mounter v).after world)
      (fun t => world.Composes (.view v) (.template t)) entries

/-- Rendering a nested template afresh enters templates in its composition only,
and applying it none. -/
def Nested.Enters (nested : Nested (σ × Register)) : Prop :=
  ∀ t target path (world : World (σ × Register)),
    Member.IsAcyclic world (.template t) →
      ∃ entries, world.Enters ((nested t target path).after world)
        (fun inner => target = none ∧
          world.Composes (.template t) (.template inner)) entries

/-- Members that may be rendered, and what they are composed of is in scope. -/
structure Member.InScope (base : World (σ × Register))
    (scope : TemplateId → Prop) (member : Member) : Prop where
  acyclic : member.IsAcyclic base
  covered : ∀ t, base.Composes member (.template t) → scope t

section Members

variable {base : World (σ × Register)} {scope : TemplateId → Prop}
  {mounter : Mounter (σ × Register)} {nested : Nested (σ × Register)}

theorem Pass.entering_nest (nests : nested.Enters) {t : TemplateId}
    (target : Option NodeId) (path : DefinitionPath)
    (acyclic : Member.IsAcyclic base (.template t))
    (covered : target = none → ∀ inner,
      base.Composes (.template t) (.template inner) → scope inner) :
    (Pass.nest nested t target path).Within (base.Entering scope) := by
  have steady := World.steady_entering base scope
  refine steady.passBind (Steady.passAct fun world advances => ?_) fun _ =>
    steady.passBind (steady.passNote _) fun _ => steady.passOfExcept _
  obtain ⟨entries, enters⟩ := nests t target path world
    (acyclic.advance advances)
  refine ⟨entries, enters.mono ?_⟩
  rintro inner ⟨fresh, composes⟩
  exact covered fresh inner (advances.composes composes)

namespace Mount

theorem entering_push (mount : Mount) (child : NodeId) :
    (Pass.act (mount.push child)).Within (base.Entering scope) := by
  refine Steady.passAct fun _ => ?_
  exact World.entering_of_leaves (.of_stores rfl rfl (fun _ => rfl) rfl)

theorem entering_finish (mount : Mount) (parent : NodeId) :
    (Pass.act (mount.finish parent)).Within (base.Entering scope) := by
  have steady := World.steady_entering base scope
  refine Steady.passAct (steady.bind ?_ fun _ => steady.forM fun entry => ?_)
  · exact fun _ =>
      World.entering_of_leaves (.of_stores rfl rfl (fun _ => rfl) rfl)
  · intro world
    have same := Collection.sameSetup_setParent entry.1 parent entry.2 world
    exact World.entering_of_leaves (.of_stores rfl rfl same.members rfl)

end Mount

theorem entering_createNode (kind : NodeKind) :
    (Pass.act (createNode kind)).Within (base.Entering scope) := by
  refine Steady.passAct fun _ => ?_
  exact World.entering_of_leaves (.of_stores rfl rfl (fun _ => rfl) rfl)

namespace Blueprint

theorem entering_mountViews (mounts : mounter.Enters) (mount : Mount)
    {views : List ViewId}
    (inScope : ∀ v ∈ views, Member.InScope base scope (.view v)) :
    (mountViews mounter mount views).Within (base.Entering scope) := by
  have steady := World.steady_entering base scope
  induction views generalizing mount with
  | nil => exact steady.passPure mount
  | cons v rest ih =>
      rw [mountViews]
      refine steady.passBind (Steady.passAct fun world advances => ?_) fun _ =>
        steady.passBind (steady.passOfExcept _) fun _ =>
          steady.passBind (mount.entering_push _) fun later =>
            steady.passKeeping (ih later fun other member =>
              inScope other (.tail _ member))
      have here := inScope v (.head _)
      obtain ⟨entries, enters⟩ := mounts v world (here.acyclic.advance advances)
      exact ⟨entries, enters.mono fun t composes =>
        here.covered t (advances.composes composes)⟩

variable (mounts : mounter.Enters) (nests : nested.Enters)

include mounts nests

private theorem entering_mountMember (path : DefinitionPath) (mount : Mount)
    {member : Member} (inScope : member.InScope base scope) :
    (mountMember mounter nested path mount member).Within
      (base.Entering scope) := by
  have steady := World.steady_entering base scope
  cases member with
  | template t =>
      exact steady.passBind (Pass.entering_nest nests none path inScope.acyclic
        fun _ => inScope.covered) fun _ => mount.entering_push _
  | view v =>
      refine entering_mountViews mounts mount fun other inside => ?_
      rw [List.mem_singleton.mp inside]
      exact inScope
  | collection c =>
      refine Pass.entering_get fun world advances => steady.passBind
        (steady.passKeeping (entering_mountViews mounts mount fun v inside =>
          ?_)) fun _ => steady.passPure _
      rw [advances.members] at inside
      have composes := World.composes_member inside
      exact ⟨inScope.acyclic.below composes, fun t below =>
        inScope.covered t (composes.trans below)⟩
  | node n => exact mount.entering_push n

private theorem entering_mountMembers (path : DefinitionPath) (index : Nat)
    (mount : Mount) {members : List Member}
    (inScope : ∀ member ∈ members, member.InScope base scope) :
    (mountMembers mounter nested path index mount members).Within
      (base.Entering scope) := by
  have steady := World.steady_entering base scope
  induction members generalizing index mount with
  | nil => exact steady.passPure mount
  | cons member rest ih =>
      rw [mountMembers]
      exact steady.passBind (entering_mountMember mounts nests _ mount
        (inScope member (.head _))) fun later => steady.passKeeping
          (ih (index + 1) later fun other inside =>
            inScope other (.tail _ inside))

private theorem entering_renderMembers {members : List Member}
    (inScope : ∀ member ∈ members, member.InScope base scope)
    (parent : NodeId) (path : DefinitionPath) :
    (renderMembers mounter nested members parent path).Within
      (base.Entering scope) := by
  have steady := World.steady_entering base scope
  unfold renderMembers
  split
  · exact steady.passBind (entering_createNode _) fun fragment =>
      steady.passKeeping (steady.passBind
        (entering_mountMembers mounts nests path 0 _ inScope) fun mount =>
          mount.entering_finish parent)
  · exact steady.passPure ()

omit mounts in
private theorem entering_applyMembers (blueprint : Blueprint) (node : NodeId)
    (path : DefinitionPath) (index place : Nat) {members : List Member}
    (acyclic : ∀ member ∈ members, member.IsAcyclic base) :
    (blueprint.applyMembers nested node path index place members).Within
      (base.Entering scope) := by
  have steady := World.steady_entering base scope
  induction members generalizing index place with
  | nil => exact steady.passPure ()
  | cons member rest ih =>
      have later := fun index place => ih index place fun other inside =>
        acyclic other (.tail _ inside)
      cases member with
      | template t =>
          rw [applyMembers]
          refine steady.passGet fun world => ?_
          dsimp only
          split
          · exact steady.passBind (Pass.entering_nest nests _ _
              (acyclic _ (.head _)) (absurd · (Option.some_ne_none _)))
                fun _ => later _ _
          · exact steady.passThrow _
      | collection c => exact later _ _
      | view v => exact steady.passThrow _
      | node n => exact steady.passThrow _

theorem entering_renderElement {host : Host σ} (aside : host.TransformsAside)
    (blueprint : Blueprint) (target : Option NodeId) (path : DefinitionPath)
    (acyclic : ∀ member ∈ blueprint.children, member.IsAcyclic base)
    (covered : target = none → ∀ member ∈ blueprint.children, ∀ t,
      base.Composes member (.template t) → scope t) :
    (blueprint.renderElement host.beside mounter nested target path).Within
      (base.Entering scope) := by
  have bounds := aside.bounds base scope
  have steady := bounds.toSteady
  have filled (node : NodeId) (applying : Bool)
      {children : Pass (σ × Register) Unit}
      (within : children.Within (base.Entering scope)) :
      Pass.Within (base.Entering scope) (do
        Pass.keeping [.node node] do
          blueprint.renderAttributes host.beside node applying
          children
          blueprint.renderListeners node
        return node) :=
    steady.passBind (steady.passKeeping (steady.passBind
      (bounds.renderAttributes blueprint node applying) fun _ =>
        steady.passBind within fun _ => bounds.renderListeners blueprint node))
          fun _ => steady.passPure node
  unfold renderElement
  cases target with
  | some node =>
      exact filled node true
        (entering_applyMembers nests blueprint node path 0 0 acyclic)
  | none =>
      have members (node : NodeId) := entering_renderMembers mounts nests
        (fun member inside =>
          ⟨acyclic member inside, covered rfl member inside⟩) node path
      cases blueprint.tag with
      | some tag =>
          exact steady.passBind (entering_createNode _) fun node =>
            filled node false (members node)
      | none => exact steady.passThrow _

omit mounts nests in
theorem entering_renderText {host : Host σ} (aside : host.TransformsAside)
    (blueprint : Blueprint) (target : Option NodeId) :
    (blueprint.renderText host.beside target).Within (base.Entering scope) := by
  have bounds := aside.bounds base scope
  have steady := bounds.toSteady
  have shown (node : NodeId) (chunks : List Chunk) :
      (showText host.beside node chunks).Within (base.Entering scope) := by
    intro record world
    obtain ⟨inner, kept, after, _⟩ := bounds.showText node chunks record world
      trivial
    change base.Entering scope world
      (((showText host.beside node chunks).start record).after world)
    rw [after]
    exact steady.release (.refs [.node node]) kept
  cases target with
  | some node =>
      exact steady.passGet fun _ => steady.passBind (steady.passNote _)
        fun _ => shown node _
  | none =>
      exact steady.passBind (entering_createNode _) fun node => shown node _

end Blueprint

end Members

end LiveTemplate
