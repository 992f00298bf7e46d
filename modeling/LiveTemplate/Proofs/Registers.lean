import LiveTemplate.Proofs.Mirroring

/-!
# A register of what is rendered

Which templates are rendered to the end in the course of a computation, with
which nodes, can be read off neither its result nor the world it leaves behind:
nested templates and the templates of views come to their nodes on the way.  So
that it can be spoken of, rendering is repeated here with a register beside the
client, in which a template is entered with its node as soon as its pass has
been completed without a target.  Nothing else changes, `besides_render` and
`besides_apply` say.
-/

namespace LiveTemplate

variable {σ α : Type}

/-- Templates that were rendered afresh to the end, in this order, with the
nodes that came of it. -/
abbrev Register := List (TemplateId × NodeId)

namespace World

/-- A world with a register beside its client. -/
def beside (world : World σ) (register : Register) : World (σ × Register) :=
  { world with client := (world.client, register) }

/-- A world without the register. -/
def alone (world : World (σ × Register)) : World σ :=
  { world with client := world.client.1 }

def register (world : World (σ × Register)) : Register :=
  world.client.2

end World

/-- Do something and leave the register alone. -/
def Act.beside (action : Act σ α) : Act (σ × Register) α :=
  fun world => (action.result world.alone,
    (action.after world.alone).beside world.register)

/-- The code of a client leaves the register alone. -/
def Host.beside (host : Host σ) : Host (σ × Register) where
  keeps client := host.keeps client.1
  notice handler notice := (host.notice handler notice).beside
  event handler event := (host.event handler event).beside
  transform handler value node := (host.transform handler value node).beside
  destroy handler := (host.destroy handler).beside

/-- Enter a template with its node, if there is one and it is a fresh one. -/
def enter (t : TemplateId) :
    Option NodeId → Except TemplateError NodeId → Act (σ × Register) Unit
  | none, .ok n =>
      modify fun world => world.alone.beside (world.register ++ [(t, n)])
  | _, _ => pure ()

namespace Template

/-- Like `passWithin`, with entries in the register. -/
def enterWithin (host : Host (σ × Register)) (mounter : Mounter (σ × Register)) :
    Nat → Nested (σ × Register)
  | 0, _, _, _ => return (.error .cyclicNesting, .empty)
  | fuel + 1, t, target, path => do
      let result ← (pass host mounter (enterWithin host mounter fuel) t target
        path).start .empty
      enter t target result.1
      return result

/-- Like `renderWith`, with entries in the register. -/
def renderEntering (host : Host (σ × Register))
    (mounter : Mounter (σ × Register)) (t : TemplateId) :
    Act (σ × Register) (Except TemplateError NodeId) :=
  get >>= fun world =>
    if (world.template t).rendered then return .error .alreadyRendered
    else
      match checkFresh world t with
      | .error error => return .error error
      | .ok () =>
          keeping (.refs [.template t])
            (enterWithin host mounter (t.index + 1) t none []) >>= release

/-- Like `apply`, with entries in the register if there are any. -/
def applyEntering (host : Host (σ × Register)) (t : TemplateId) (n : NodeId) :
    Act (σ × Register) (Except TemplateError NodeId) :=
  get >>= fun world =>
    if (world.template t).applied.isSome then return .error .alreadyApplied
    else
      match checkApply world t n with
      | .error error => return .error error
      | .ok () =>
          keeping (.refs [.template t])
            (enterWithin host (fun _ => return .error .componentNotRendered)
              (t.index + 1) t (some n) []) >>= settle t n

end Template

/-- Like `View.renderWithin`, with entries in the register. -/
def View.renderEntering (host : Host (σ × Register)) :
    Nat → ViewId → Act (σ × Register) (Except TemplateError Unit)
  | 0, _ => return .error .cyclicNesting
  | fuel + 1, v =>
      get >>= fun world =>
        if (world.view v).rendered then return .error .alreadyRendered
        else
          match (world.view v).template with
          | none => do
              update v fun view => { view with rendered := true }
              return .ok ()
          | some t =>
              keeping (.refs [.view v]) (Template.renderEntering host
                (mountWith (View.renderEntering host fuel)) t) >>=
                  settleRender v

/-- Like `View.mount`, with entries in the register. -/
def View.mountEntering (host : Host (σ × Register)) :
    Mounter (σ × Register) :=
  mountWith fun v => get >>= fun world =>
    View.renderEntering host (depthBound world) v

/-- Of a world with a register and the same world without it. -/
def Kinship.besides (σ : Type) : Kinship (σ × Register) σ where
  alike := Eq
  scope _ := True
  sized := True
  clients client other := client.1 = other
  blueprint same := same ▸ .refl _
  rendered same := congrArg Template.rendered same
  applied same := congrArg Template.applied same
  updated same _ _ := by rw [same]

namespace Kinship

theorem Twins.alone (world : World (σ × Register)) :
    (besides σ).Twins world world.alone where
  rest := rfl
  templates _ _ := rfl
  nested _ _ _ _ := trivial
  size _ := rfl
  viewed _ _ _ := trivial
  clients := rfl

theorem Twins.eq_alone {one : World (σ × Register)} {other : World σ}
    (twins : (besides σ).Twins one other) : other = one.alone := by
  have templates : other.templates = one.templates :=
    Store.eq_of_get (twins.size trivial).symm fun number =>
      (twins.templates ⟨number⟩ trivial).symm
  have again (world : World σ) : world =
      { world.rest with
        templates := world.templates, client := world.client } := rfl
  have client : one.alone.client = other.client := twins.clients
  rw [again other, again one.alone, templates, client]
  exact congrArg (fun rest : World Unit =>
    { rest with templates := one.templates, client := other.client })
      twins.rest.symm

end Kinship

/-- A computation does what another one does and keeps a register. -/
abbrev Act.Besides (action : Act (σ × Register) α) (plain : Act σ α) : Prop :=
  action.Mirrors (.besides σ) plain

theorem Act.Besides.run {action : Act (σ × Register) α} {plain : Act σ α}
    (besides : action.Besides plain) (world : World (σ × Register)) :
    action.result world = plain.result world.alone ∧
      plain.after world.alone = (action.after world).alone := by
  obtain ⟨result, later⟩ := besides world world.alone (.alone world)
  exact ⟨result, later.eq_alone⟩

theorem Act.besides_beside (action : Act σ α) :
    action.beside.Besides action := by
  intro one other twins
  rw [twins.eq_alone]
  exact ⟨rfl, .alone ((action.after one.alone).beside one.register)⟩

private theorem Host.mirrors_beside (host : Host σ) :
    host.beside.Mirrors (.besides σ) host := by
  constructor
  · intro _ _ _
    exact Act.besides_beside _
  · intro _ _
    exact Act.besides_beside _

theorem besides_enter (t : TemplateId) (target : Option NodeId)
    (outcome : Except TemplateError NodeId) :
    (enter t target outcome).Besides (pure () : Act σ Unit) := by
  intro one other twins
  rw [twins.eq_alone]
  refine ⟨?_, ?_⟩
  · cases target <;> cases outcome <;> rfl
  · cases target <;> cases outcome <;> exact .alone _

variable {host : Host σ} {mounter : Mounter (σ × Register)} {plain : Mounter σ}

namespace Template

theorem besides_enterWithin
    (mounts : mounter.Mirrors (.besides σ) plain) (fuel : Nat) :
    Nested.Mirrors (.besides σ) (enterWithin host.beside mounter fuel)
      (passWithin host plain fuel) := by
  induction fuel with
  | zero => exact fun _ _ _ _ => .pure _
  | succ fuel ih =>
      intro t inside target path
      have passed := mirrors_pass host.mirrors_beside mounts ih inside target
        path .empty
      exact .bind passed fun result =>
        .bind (besides_enter t target result.1) fun _ => .pure result

theorem besides_renderEntering
    (mounts : mounter.Mirrors (.besides σ) plain) (t : TemplateId) :
    (renderEntering host.beside mounter t).Besides
      (renderWith host plain t) := by
  intro one other twins
  have passed : Act.Besides (keeping (.refs [.template t])
      (enterWithin host.beside mounter (t.index + 1) t none []) >>= release)
      (renderPass host plain t >>= release) := by
    refine .bind (.keeping (besides_enterWithin mounts _ t trivial none [])) ?_
    rintro ⟨error | node, record⟩
    · exact .bind (record.isShared_revokeAll.mirrors record.isShared_revokeAll)
        fun _ => .pure _
    · exact .pure _
  have same : checkFresh one t = checkFresh other t :=
    checkFresh_twins twins trivial
  unfold Act.result Act.after
  rw [run_renderWith, ← same, ← twins.templates t trivial]
  change ((ite _ _ _ : Act _ _) one).1 = _ ∧ (Kinship.besides σ).Twins
    ((ite _ _ _ : Act _ _) one).2 _
  split
  · exact ⟨rfl, twins⟩
  · cases checkFresh one t with
    | error error => exact ⟨rfl, twins⟩
    | ok => exact passed one other twins

/-- Applying with a register. -/
theorem besides_applyEntering (t : TemplateId) (n : NodeId) :
    (applyEntering host.beside t n).Besides (apply host t n) := by
  intro one other twins
  have passed : Act.Besides (keeping (.refs [.template t])
      (enterWithin host.beside (fun _ => return .error .componentNotRendered)
        (t.index + 1) t (some n) []) >>= settle t n)
      (applyPass host t n >>= settle t n) := by
    refine .bind (.keeping (besides_enterWithin (fun _ => .pure _) _ t trivial
      (some n) [])) ?_
    rintro ⟨error | node, record⟩
    · exact .bind ((record.isShared_restore n).mirrors
        (record.isShared_restore n)) fun _ => .pure _
    · exact .bind (mirrors_update t (fun _ => rfl) fun same =>
        (Kinship.besides σ).keeps same _) fun _ => .pure _
  have same : checkApply one t n = checkApply other t n :=
    checkApply_twins twins trivial n
  unfold Act.result Act.after
  rw [run_apply, ← same, ← twins.templates t trivial]
  change ((ite _ _ _ : Act _ _) one).1 = _ ∧ (Kinship.besides σ).Twins
    ((ite _ _ _ : Act _ _) one).2 _
  split
  · exact ⟨rfl, twins⟩
  · cases checkApply one t n with
    | error error => exact ⟨rfl, twins⟩
    | ok => exact passed one other twins

end Template

namespace View

theorem besides_renderEntering (fuel : Nat) (v : ViewId) :
    (View.renderEntering host.beside fuel v).Besides
      (renderWithin host fuel v) := by
  induction fuel generalizing v with
  | zero => exact .pure _
  | succ fuel ih =>
      intro one other twins
      have settles (outcome : Except TemplateError NodeId) :
          Act.Besides (settleRender v outcome)
            (settleRender v outcome : Act σ _) := by
        cases outcome with
        | error error => exact .pure _
        | ok element =>
            exact .bind (mirrors_update v fun _ => rfl) fun _ => .pure _
      unfold Act.result Act.after
      rw [run_renderWithin, ← twins.view]
      change ((ite _ _ _ : Act _ _) one).1 = _ ∧ (Kinship.besides σ).Twins
        ((ite _ _ _ : Act _ _) one).2 _
      split
      · exact ⟨rfl, twins⟩
      · cases (one.view v).template with
        | none =>
            have marks : Act.Besides
                (update v fun view => { view with rendered := true })
                (update v fun view => { view with rendered := true } :
                  Act σ Unit) :=
              mirrors_update v fun _ => rfl
            exact ⟨rfl, (marks one other twins).2⟩
        | some t =>
            exact Act.Mirrors.bind (.keeping (Template.besides_renderEntering
              (mirrors_mountWith ih) t)) settles one other twins

theorem besides_mountEntering :
    Mounter.Mirrors (.besides σ) (mountEntering host.beside) (mount host) := by
  refine mirrors_mountWith fun v => .get fun one other twins => ?_
  have depth : depthBound one = depthBound other :=
    congrArg depthBound twins.rest
  rw [depth]
  exact besides_renderEntering _ v

end View

end LiveTemplate
