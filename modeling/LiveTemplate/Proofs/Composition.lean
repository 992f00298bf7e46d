import LiveTemplate.Proofs.Templates
import LiveTemplate.View

/-!
# What a template is composed of

Members of a template bring members of their own: nested templates their
children, collections their members, and views that have yet to be rendered
the template they are rendered from.  `Stands` says at which place in all this
a member stands.  A view that has been rendered is mounted as it is, so that
nothing stands below it.
-/

namespace LiveTemplate

variable {σ : Type}

/-- A member stands at a place in the composition of another. -/
inductive Stands (world : World σ) :
    Member → List Nat → Member → Prop where
  | here (member : Member) : Stands world member [] member
  | template {t : TemplateId} {index : Nat} {child inner : Member}
      {place : List Nat} :
      (world.template t).blueprint.text = none →
      (world.template t).blueprint.children[index]? = some child →
      Stands world child place inner →
      Stands world (.template t) (index :: place) inner
  | collection {c : CollectionId} {index : Nat} {v : ViewId} {inner : Member}
      {place : List Nat} :
      (world.collection c).members[index]? = some v →
      Stands world (.view v) place inner →
      Stands world (.collection c) (index :: place) inner
  | view {v : ViewId} {t : TemplateId} {inner : Member} {place : List Nat} :
      (world.view v).rendered = false →
      (world.view v).template = some t →
      Stands world (.template t) place inner →
      Stands world (.view v) (0 :: place) inner

theorem Stands.trans {world : World σ} {top middle inner : Member}
    {place further : List Nat} (first : Stands world top place middle)
    (second : Stands world middle further inner) :
    Stands world top (place ++ further) inner := by
  induction first with
  | here => exact second
  | template text child _ ih => exact .template text child (ih second)
  | collection member _ ih => exact .collection member (ih second)
  | view fresh found _ ih => exact .view fresh found (ih second)

namespace World

variable {world : World σ}

/-- A member stands somewhere in the composition of another. -/
def Composes (world : World σ) (top inner : Member) : Prop :=
  ∃ place, Stands world top place inner

theorem Composes.refl (world : World σ) (member : Member) :
    world.Composes member member := by
  exact ⟨[], .here member⟩

theorem Composes.trans {top middle inner : Member}
    (first : world.Composes top middle) (second : world.Composes middle inner) :
    world.Composes top inner := by
  obtain ⟨place, above⟩ := first
  obtain ⟨further, below⟩ := second
  exact ⟨_, above.trans below⟩

theorem composes_child {t : TemplateId} {child : Member}
    (text : (world.template t).blueprint.text = none)
    (member : child ∈ (world.template t).blueprint.children) :
    world.Composes (.template t) child := by
  obtain ⟨index, found⟩ := List.mem_iff_getElem?.mp member
  exact ⟨_, .template text found (.here _)⟩

theorem composes_member {c : CollectionId} {v : ViewId}
    (member : v ∈ (world.collection c).members) :
    world.Composes (.collection c) (.view v) := by
  obtain ⟨index, found⟩ := List.mem_iff_getElem?.mp member
  exact ⟨_, .collection found (.here _)⟩

theorem composes_template {v : ViewId} {t : TemplateId}
    (fresh : (world.view v).rendered = false)
    (found : (world.view v).template = some t) :
    world.Composes (.view v) (.template t) := by
  exact ⟨_, .view fresh found (.here _)⟩

/-- What a member brings by itself. -/
def parts (world : World σ) : Member → List Member
  | .template t => (world.template t).blueprint.children
  | .collection c => (world.collection c).members.map .view
  | .view v => (world.view v).template.toList.map .template
  | .node _ => []

/-- Some members with all they bring are all there is below them. -/
theorem Composes.mem_of_closed {members : List Member}
    (closed : ∀ member ∈ members, ∀ part ∈ world.parts member, part ∈ members)
    {top inner : Member} (inside : top ∈ members)
    (composes : world.Composes top inner) : inner ∈ members := by
  obtain ⟨place, stands⟩ := composes
  induction stands with
  | here => exact inside
  | template _ child _ ih =>
      exact ih (closed _ inside _ (List.mem_of_getElem? child))
  | collection member _ ih =>
      exact ih (closed _ inside _
        (List.mem_map_of_mem (List.mem_of_getElem? member)))
  | view _ found _ ih =>
      exact ih (closed _ inside _ (by simp [parts, found]))

theorem closed_of_no_parts {top : Member} (none : world.parts top = []) :
    ∀ member ∈ [top], ∀ part ∈ world.parts member, part ∈ [top] := by
  intro member same part isPart
  rw [List.mem_singleton.mp same, none] at isPart
  cases isPart

/-- Nothing but itself stands in a member without parts. -/
theorem Composes.eq_of_no_parts {top inner : Member}
    (none : world.parts top = []) (composes : world.Composes top inner) :
    inner = top := by
  have inside := composes.mem_of_closed (closed_of_no_parts none)
    (List.mem_singleton_self top)
  exact List.mem_singleton.mp inside

end World

/-- The definitions, the views and the members of collections are the same. -/
structure World.SameSetup (world later : World σ) : Prop where
  blueprints : ∀ t, (later.template t).blueprint = (world.template t).blueprint
  members : ∀ c, (later.collection c).members = (world.collection c).members
  views : ∀ v, later.view v = world.view v

namespace World.SameSetup

variable {world between later : World σ}

theorem refl (world : World σ) : SameSetup world world := by
  exact ⟨fun _ => rfl, fun _ => rfl, fun _ => rfl⟩

theorem trans (first : SameSetup world between)
    (second : SameSetup between later) : SameSetup world later where
  blueprints t := (second.blueprints t).trans (first.blueprints t)
  members c := (second.members c).trans (first.members c)
  views v := (second.views v).trans (first.views v)

/-- What is held meanwhile makes no difference. -/
theorem held (same : SameSetup world later) (frames : List Frame) :
    SameSetup world (later.holding frames) := by
  exact ⟨same.blueprints, same.members, same.views⟩

end World.SameSetup

/-- What else is known of a template is no part of the setup. -/
theorem Template.sameSetup_update (t : TemplateId)
    (change : Template → Template)
    (kept : ∀ template, (change template).blueprint = template.blueprint)
    (world : World σ) : world.SameSetup ((update t change).after world) := by
  refine ⟨fun other => ?_, fun _ => rfl, fun _ => rfl⟩
  by_cases same : other = t
  · rw [same, template_update, kept]
  · rw [template_update_of_ne _ _ same]

theorem Template.sameSetup_markRendered (t : TemplateId) (world : World σ) :
    world.SameSetup ((update t fun template =>
      { template with rendered := true }).after world) := by
  exact sameSetup_update t (fun template => { template with rendered := true })
    (fun _ => rfl) world

/-- Where a collection is mounted is no part of the setup. -/
theorem Collection.sameSetup_setParent (c : CollectionId) (parent : NodeId)
    (anchor : Option NodeId) (world : World σ) :
    world.SameSetup ((setParent c parent anchor).after world) := by
  refine ⟨fun _ => rfl, fun other => ?_, fun _ => rfl⟩
  unfold setParent update World.collection
  by_cases same : other.index = c.index
  · simp [same]
  · simp [Store.get_modify_of_ne _ _ same]

/-- The same setup, except that views may have been rendered meanwhile. -/
structure World.Advances (world later : World σ) : Prop where
  blueprints : ∀ t, (later.template t).blueprint = (world.template t).blueprint
  members : ∀ c, (later.collection c).members = (world.collection c).members
  templates : ∀ v, (later.view v).template = (world.view v).template
  rendered : ∀ v, (world.view v).rendered = true →
    (later.view v).rendered = true

theorem World.SameSetup.advances {world later : World σ}
    (same : world.SameSetup later) : world.Advances later where
  blueprints := same.blueprints
  members := same.members
  templates v := by rw [same.views]
  rendered v before := by
    rw [same.views]
    exact before

namespace World.Advances

variable {world between later : World σ}

theorem refl (world : World σ) : Advances world world :=
  (SameSetup.refl world).advances

theorem trans (first : Advances world between)
    (second : Advances between later) : Advances world later where
  blueprints t := (second.blueprints t).trans (first.blueprints t)
  members c := (second.members c).trans (first.members c)
  templates v := (second.templates v).trans (first.templates v)
  rendered v before := second.rendered v (first.rendered v before)

/-- Nothing is added to what a member is composed of. -/
theorem stands (advances : Advances world later) {member inner : Member}
    {place : List Nat} (stands : Stands later member place inner) :
    Stands world member place inner := by
  induction stands with
  | here => exact .here _
  | template text child _ ih =>
      rw [advances.blueprints] at text child
      exact .template text child ih
  | collection found _ ih =>
      rw [advances.members] at found
      exact .collection found ih
  | @view v _ _ _ fresh found _ ih =>
      rw [advances.templates] at found
      refine .view (Bool.eq_false_iff.mpr fun before => ?_) found ih
      rw [advances.rendered v before] at fresh
      cases fresh

end World.Advances

namespace View

/-- What `mount` does once the view has been rendered. -/
def settleMount (v : ViewId) :
    Except TemplateError Unit → Act σ (Except TemplateError NodeId)
  | .error error => return .error error
  | .ok () => do
      match ((← get).view v).element with
      | some element => return .ok element
      | none => return .error .componentNotRendered

theorem run_settleMount_ok (v : ViewId) (world : World σ) :
    settleMount v (.ok ()) world =
      (match (world.view v).element with
        | some element => .ok element
        | none => .error .componentNotRendered, world) := by
  have looks : settleMount v (.ok ()) world =
      (match (world.view v).element with
        | some element => pure (.ok element)
        | none => pure (.error .componentNotRendered) :
          Act σ (Except TemplateError NodeId)) world := rfl
  rw [looks]
  cases (world.view v).element <;> rfl

theorem run_mountWith (render : ViewId → Act σ (Except TemplateError Unit))
    (v : ViewId) (world : World σ) :
    mountWith render v world =
      if (world.view v).rendered then settleMount v (.ok ()) world
      else (render v >>= settleMount v) world := by
  have looks : mountWith render v = (get >>= fun world =>
      (if (world.view v).rendered then pure (.ok ()) else render v) >>=
        settleMount v) := by
    unfold mountWith
    congr
    funext world
    split <;> rfl
  rw [looks]
  change (ite _ _ _ >>= settleMount v : Act σ _) world = _
  split <;> rfl

/-- What `render` of a view does with the outcome of its template. -/
def settleRender (v : ViewId) :
    Except TemplateError NodeId → Act σ (Except TemplateError Unit)
  | .error error => return .error error
  | .ok element => do
      update v fun view =>
        { view with element := some element, rendered := true }
      return .ok ()

theorem run_renderWithin (host : Host σ) (fuel : Nat) (v : ViewId)
    (world : World σ) :
    renderWithin host (fuel + 1) v world =
      if (world.view v).rendered then (.error .alreadyRendered, world)
      else
        match (world.view v).template with
        | none =>
            (.ok (), (update v fun view =>
              { view with rendered := true }).after world)
        | some t =>
            (keeping (.refs [.view v]) (Template.renderWith host
              (mountWith (renderWithin host fuel)) t) >>= settleRender v)
              world := by
  have looks : renderWithin host (fuel + 1) v = (get >>= fun world =>
      if (world.view v).rendered then pure (.error .alreadyRendered)
      else
        match (world.view v).template with
        | none => update v (fun view => { view with rendered := true }) >>=
            fun _ => pure (.ok ())
        | some t => keeping (.refs [.view v]) (Template.renderWith host
            (mountWith (renderWithin host fuel)) t) >>= settleRender v) := by
    rw [renderWithin]
    congr
  rw [looks]
  change (ite _ _ _ : Act σ _) world = _
  split
  · rfl
  · cases (world.view v).template <;> rfl

@[simp] theorem view_update (v : ViewId) (change : View → View)
    (world : World σ) :
    ((update v change).after world).view v = change (world.view v) := by
  simp [update, World.view]

theorem view_update_of_ne {v other : ViewId} (change : View → View)
    (world : World σ) (differs : other ≠ v) :
    ((update v change).after world).view other = world.view other := by
  have indexes : other.index ≠ v.index := by
    intro same
    apply differs
    cases other
    cases v
    exact congrArg ViewId.mk same
  simp [update, World.view, Store.get_modify_of_ne _ _ indexes]

theorem advances_update (v : ViewId) {change : View → View}
    (template : ∀ view, (change view).template = view.template)
    (rendered : ∀ view, (change view).rendered = true) (world : World σ) :
    world.Advances ((update v change).after world) := by
  refine ⟨fun _ => rfl, fun _ => rfl, fun other => ?_, fun other before => ?_⟩
  · by_cases same : other = v
    · subst same
      rw [view_update, template]
    · rw [view_update_of_ne _ _ same]
  · by_cases same : other = v
    · subst same
      rw [view_update, rendered]
    · rw [view_update_of_ne _ _ same]
      exact before

end View

end LiveTemplate
