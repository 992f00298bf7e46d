import LiveTemplate.Proofs.Templates

/-!
# Passes

`Pass.start` is a pass as a computation on the world, for a record to begin
with.  Three ways to reason about it follow the same steps.  `Pass.Keeps` says
that the world stays within a relation, also when the pass fails on the way.
`Pass.Yields` says that the pass succeeds, and with what; `Pass.Ensures` says
the latter of a pass that may fail.

`render`, `apply` and `revert` come down to what they look up first.
-/

namespace LiveTemplate

variable {σ α β : Type}

namespace Pass

/-- The computation of a pass. -/
def start (pass : Pass σ α) (record : Record) :
    Act σ (Except TemplateError α × Record) :=
  pass.run.run record

theorem start_keeping (refs : List Ref) (pass : Pass σ α) (record : Record) :
    start (keeping refs pass) record =
      LiveTemplate.keeping (.refs refs) (start pass record) := rfl

/-- How a pass goes on after a step. -/
def andThen (next : α → Pass σ β) :
    Except TemplateError α × Record → Act σ (Except TemplateError β × Record)
  | (.ok a, record) => start (next a) record
  | (.error error, record) => pure (.error error, record)

theorem start_bind (pass : Pass σ α) (next : α → Pass σ β)
    (record : Record) :
    start (pass >>= next) record = start pass record >>= andThen next := by
  have stepwise : start (pass >>= next) record =
      start pass record >>= fun outcome =>
        (ExceptT.bindCont next outcome.1).run outcome.2 := rfl
  rw [stepwise]
  congr
  funext ⟨outcome, later⟩
  cases outcome <;> rfl

theorem start_get (next : World σ → Pass σ α) (record : Record)
    (world : World σ) :
    start (act get >>= next) record world =
      start (next world) record world := rfl

/-- Record and world stay within a relation, whatever the outcome. -/
def Keeps (relation : Record × World σ → Record × World σ → Prop)
    (pass : Pass σ α) : Prop :=
  ∀ record world, relation (record, world)
    (((start pass record).result world).2, (start pass record).after world)

section Keeps

variable {relation : Record × World σ → Record × World σ → Prop}

theorem Keeps.act {action : Act σ α}
    (keeps : ∀ record world, relation (record, world)
      (record, action.after world)) :
    Keeps relation (Pass.act action) :=
  keeps

theorem Keeps.note {change : Record → Record}
    (keeps : ∀ record world, relation (record, world)
      (change record, (world : World σ))) :
    Keeps relation (Pass.note change : Pass σ Unit) :=
  keeps

/-- What a computation returns is recorded at once. -/
theorem Keeps.act_note {action : Act σ α} {change : α → Record → Record}
    (keeps : ∀ record world, relation (record, world)
      (change (action.result world) record, action.after world)) :
    Keeps relation (Pass.act action >>= fun a => Pass.note (change a)) :=
  keeps

variable (refl : ∀ start, relation start start)

include refl in
theorem Keeps.pure (a : α) : Keeps relation (pure a : Pass σ α) := by
  intro record world
  exact refl (record, world)

include refl in
theorem Keeps.throw (error : TemplateError) :
    Keeps relation (throw error : Pass σ α) := by
  intro record world
  exact refl (record, world)

include refl in
theorem Keeps.ofExcept (outcome : Except TemplateError α) :
    Keeps relation (Pass.ofExcept outcome : Pass σ α) := by
  intro record world
  exact refl (record, world)

variable (trans : ∀ {first second third}, relation first second →
  relation second third → relation first third)

include refl trans in
theorem Keeps.bind {pass : Pass σ α} {next : α → Pass σ β}
    (first : Keeps relation pass) (later : ∀ a, Keeps relation (next a)) :
    Keeps relation (pass >>= next) := by
  intro record world
  rw [start_bind, Act.after_bind, Act.result_bind]
  refine trans (first record world) ?_
  rcases (start pass record).result world with ⟨outcome | outcome, between⟩
  · exact refl _
  · exact later outcome between _

include trans in
theorem Keeps.keeping
    (held : ∀ record (world : World σ) frames,
      relation (record, world) (record, world.holding frames))
    (refs : List Ref) {pass : Pass σ α} (keeps : Keeps relation pass) :
    Keeps relation (Pass.keeping refs pass) := by
  intro record world
  rw [start_keeping, after_keeping, result_keeping]
  exact trans (held record world _) (trans (keeps record _) (held _ _ _))

include refl trans in
theorem Keeps.forM {items : List α} {body : α → Pass σ Unit}
    (keeps : ∀ item ∈ items, Keeps relation (body item)) :
    Keeps relation (items.forM body) := by
  induction items with
  | nil => exact Keeps.pure refl ()
  | cons item rest ih =>
      show Keeps relation (body item >>= fun _ => rest.forM body)
      exact Keeps.bind refl trans (keeps item (by simp)) fun _ =>
        ih fun later member => keeps later (List.mem_cons_of_mem item member)

end Keeps

/-- The pass succeeds, and what it returns, records and leaves behind satisfies
a condition. -/
def Yields (pass : Pass σ α) (record : Record) (world : World σ)
    (post : α → Record → World σ → Prop) : Prop :=
  ∃ a later, (start pass record).result world = (.ok a, later) ∧
    post a later ((start pass record).after world)

section Yields

variable {record : Record} {world : World σ}

theorem Yields.pure {a : α} {post : α → Record → World σ → Prop}
    (holds : post a record world) :
    Yields (pure a) record world post := by
  exact ⟨a, record, rfl, holds⟩

theorem Yields.ofExcept {a : α} {post : α → Record → World σ → Prop}
    (holds : post a record world) :
    Yields (Pass.ofExcept (.ok a)) record world post := by
  exact ⟨a, record, rfl, holds⟩

theorem Yields.act {action : Act σ α} {post : α → Record → World σ → Prop}
    (holds : post (action.result world) record (action.after world)) :
    Yields (Pass.act action) record world post := by
  exact ⟨_, record, rfl, holds⟩

theorem Yields.note {change : Record → Record}
    {post : Unit → Record → World σ → Prop}
    (holds : post () (change record) world) :
    Yields (Pass.note change) record world post := by
  exact ⟨(), _, rfl, holds⟩

theorem Yields.bind {pass : Pass σ α} {next : α → Pass σ β}
    {between : α → Record → World σ → Prop}
    {post : β → Record → World σ → Prop}
    (first : Yields pass record world between)
    (later : ∀ a recorded world, between a recorded world →
      Yields (next a) recorded world post) :
    Yields (pass >>= next) record world post := by
  obtain ⟨a, recorded, outcome, holds⟩ := first
  obtain ⟨b, final, result, reached⟩ := later a recorded _ holds
  refine ⟨b, final, ?_, ?_⟩
  · rw [start_bind, Act.result_bind, outcome]
    exact result
  · rw [start_bind, Act.after_bind, outcome]
    exact reached

/-- A pass goes on with what a computation answers and leaves behind. -/
theorem Yields.act_bind {action : Act σ α} {next : α → Pass σ β}
    {post : β → Record → World σ → Prop}
    (later : Yields (next (action.result world)) record (action.after world)
      post) :
    Yields (Pass.act action >>= next) record world post :=
  later

theorem Yields.ofExcept_bind {a : α} {next : α → Pass σ β}
    {post : β → Record → World σ → Prop}
    (later : Yields (next a) record world post) :
    Yields (Pass.ofExcept (.ok a) >>= next) record world post :=
  later

theorem Yields.note_bind {change : Record → Record} {next : Unit → Pass σ β}
    {post : β → Record → World σ → Prop}
    (later : Yields (next ()) (change record) world post) :
    Yields (Pass.note change >>= next) record world post :=
  later

theorem Yields.keeping {refs : List Ref} {pass : Pass σ α}
    {post : α → Record → World σ → Prop}
    (inner : Yields pass record (world.holding (.refs refs :: world.frames))
      fun a later world' => post a later (world'.holding world.frames)) :
    Yields (Pass.keeping refs pass) record world post := by
  obtain ⟨a, later, outcome, holds⟩ := inner
  exact ⟨a, later, outcome, holds⟩

theorem Yields.weaken {pass : Pass σ α}
    {post weaker : α → Record → World σ → Prop}
    (yields : Yields pass record world post)
    (implies : ∀ a later world, post a later world → weaker a later world) :
    Yields pass record world weaker := by
  obtain ⟨a, later, outcome, holds⟩ := yields
  exact ⟨a, later, outcome, implies a later _ holds⟩

theorem Yields.forM
    {relation : Record × World σ → Record × World σ → Prop}
    (refl : ∀ start, relation start start)
    (trans : ∀ {first second third}, relation first second →
      relation second third → relation first third)
    {items : List α} {body : α → Pass σ Unit}
    (each : ∀ item ∈ items, ∀ record world,
      Yields (body item) record world fun _ later world' =>
        relation (record, world) (later, world')) :
    Yields (items.forM body) record world fun _ later world' =>
      relation (record, world) (later, world') := by
  induction items generalizing record world with
  | nil => exact .pure (refl _)
  | cons item rest ih =>
      refine (each item (.head _) record world).bind fun _ between world'
        first => ?_
      exact (ih fun later member => each later (.tail _ member)).weaken
        fun _ _ _ second => trans first second

end Yields

/-- If the pass succeeds, what it returns and leaves behind satisfies a
condition. -/
def Ensures (pass : Pass σ α) (record : Record) (world : World σ)
    (post : α → World σ → Prop) : Prop :=
  ∀ a later, (start pass record).result world = (.ok a, later) →
    post a ((start pass record).after world)

section Ensures

variable {record : Record} {world : World σ}

theorem Ensures.pure {a : α} {post : α → World σ → Prop}
    (holds : post a world) : Ensures (pure a) record world post := by
  intro _ _ outcome
  cases outcome
  exact holds

theorem Ensures.throw {error : TemplateError} {post : α → World σ → Prop} :
    Ensures (throw error) record world post := by
  intro _ _ outcome
  cases outcome

theorem Ensures.act {action : Act σ α} {post : α → World σ → Prop}
    (holds : post (action.result world) (action.after world)) :
    Ensures (Pass.act action) record world post := by
  intro _ _ outcome
  cases outcome
  exact holds

theorem Ensures.note {change : Record → Record}
    {post : Unit → World σ → Prop} (holds : post () world) :
    Ensures (Pass.note change) record world post := by
  intro _ _ _
  exact holds

theorem Ensures.bind {pass : Pass σ α} {next : α → Pass σ β}
    {between : α → World σ → Prop} {post : β → World σ → Prop}
    (first : Ensures pass record world between)
    (later : ∀ a recorded world, between a world →
      Ensures (next a) recorded world post) :
    Ensures (pass >>= next) record world post := by
  intro b final outcome
  rw [start_bind, Act.result_bind] at outcome
  rw [start_bind, Act.after_bind]
  have reached := first
  unfold Ensures at reached
  generalize (start pass record).result world = ended at reached outcome ⊢
  obtain ⟨error | a, recorded⟩ := ended
  · cases outcome
  · exact later a recorded _ (reached a recorded rfl) b final outcome

/-- A pass goes on with what a computation answers and leaves behind. -/
theorem Ensures.act_bind {action : Act σ α} {next : α → Pass σ β}
    {post : β → World σ → Prop}
    (later : Ensures (next (action.result world)) record (action.after world)
      post) :
    Ensures (Pass.act action >>= next) record world post :=
  later

theorem Ensures.ofExcept_bind {outcome : Except TemplateError α}
    {next : α → Pass σ β} {post : β → World σ → Prop}
    (later : ∀ a, outcome = .ok a → Ensures (next a) record world post) :
    Ensures (Pass.ofExcept outcome >>= next) record world post := by
  cases outcome with
  | error error =>
      intro _ _ impossible
      cases impossible
  | ok a => exact later a rfl

theorem Ensures.note_bind {change : Record → Record} {next : Unit → Pass σ β}
    {post : β → World σ → Prop}
    (later : Ensures (next ()) (change record) world post) :
    Ensures (Pass.note change >>= next) record world post :=
  later

theorem Ensures.keeping {refs : List Ref} {pass : Pass σ α}
    {post : α → World σ → Prop}
    (inner : Ensures pass record (world.holding (.refs refs :: world.frames))
      fun a later => post a (later.holding world.frames)) :
    Ensures (Pass.keeping refs pass) record world post :=
  inner

theorem Ensures.nest_bind {nested : Nested σ} {t : TemplateId}
    {target : Option NodeId} {path : DefinitionPath} {next : NodeId → Pass σ β}
    {post : β → World σ → Prop}
    (later : ∀ n child recorded,
      (nested t target path).result world = (.ok n, child) →
        Ensures (next n) recorded ((nested t target path).after world) post) :
    Ensures (Pass.nest nested t target path >>= next) record world post := by
  unfold Pass.nest
  rw [bind_assoc]
  refine .act_bind ?_
  cases found : (nested t target path).result world with
  | mk outcome child =>
      rw [bind_assoc]
      refine .note_bind (.ofExcept_bind fun n same => later n child _ ?_)
      rw [← same]
      exact found

theorem Ensures.weaken {pass : Pass σ α} {post weaker : α → World σ → Prop}
    (ensures : Ensures pass record world post)
    (implies : ∀ a world, post a world → weaker a world) :
    Ensures pass record world weaker := by
  intro a later outcome
  exact implies a _ (ensures a later outcome)

/-- What two arguments say about a pass. -/
theorem Ensures.and {pass : Pass σ α} {post other : α → World σ → Prop}
    (first : Ensures pass record world post)
    (second : Ensures pass record world other) :
    Ensures pass record world fun a later => post a later ∧ other a later := by
  intro a later outcome
  exact ⟨first a later outcome, second a later outcome⟩

end Ensures

end Pass

/-- Show a text in a node and keep it up to date. -/
def Blueprint.showText (host : Host σ) (node : NodeId) (chunks : List Chunk) :
    Pass σ NodeId := do
  Pass.keeping [.node node] do
    if chunks.any Chunk.isBound then
      Pass.noteGroup (← Pass.act (SyncGroup.bind host ⟨chunks, .text node⟩))
    else
      let data ← Pass.act (plainText host node chunks)
      Pass.act (modifyDom fun dom => dom.setText node data)
  return node

theorem Blueprint.renderElement_some (host : Host σ) (mounter : Mounter σ)
    (nested : Nested σ) (blueprint : Blueprint) (n : NodeId)
    (path : DefinitionPath) :
    blueprint.renderElement host mounter nested (some n) path =
      (Pass.keeping [.node n] (do
        blueprint.renderAttributes host n true
        blueprint.applyMembers nested n path 0 0 blueprint.children
        blueprint.renderListeners n) >>= fun _ => pure n) := rfl

namespace Template

/-- What a pass does once it knows its blueprint. -/
def passWith (host : Host σ) (mounter : Mounter σ) (nested : Nested σ)
    (t : TemplateId) (blueprint : Blueprint) (target : Option NodeId)
    (path : DefinitionPath) : Pass σ NodeId := do
  let node ←
    if blueprint.text.isSome then blueprint.renderText host target
    else blueprint.renderElement host mounter nested target path
  if target.isNone then
    Pass.act (update t fun template => { template with rendered := true })
  return node

theorem start_pass (host : Host σ) (mounter : Mounter σ) (nested : Nested σ)
    (t : TemplateId) (target : Option NodeId)
    (path : DefinitionPath) (record : Record) (world : World σ) :
    (pass host mounter nested t target path).start record world =
      if (target.isNone && (world.template t).rendered) = true then
        ((.error .alreadyRendered, record), world)
      else
        (passWith host mounter nested t (world.template t).blueprint target
          path).start record world := by
  have looks : pass host mounter nested t target path =
      (Pass.act get >>= fun world =>
        let made := passWith host mounter nested t (world.template t).blueprint
          target path
        if target.isNone && (world.template t).rendered then
          throw .alreadyRendered >>= fun _ => made
        else made) := rfl
  rw [looks, Pass.start_get]
  dsimp only
  split <;> rfl

/-- What working in a definition ensures holds once a nested template has been
worked in. -/
theorem of_passWithin {host : Host σ} {mounter : Mounter σ} {fuel : Nat}
    {t : TemplateId} {target : Option NodeId} {path : DefinitionPath}
    {world : World σ} {node : NodeId} {record : Record}
    {post : NodeId → World σ → Prop}
    (passed : (passWithin host mounter (fuel + 1) t target path).result world =
      (.ok node, record))
    (ensures : (passWith host mounter (passWithin host mounter fuel) t
      (world.template t).blueprint target path).Ensures .empty world post) :
    post node
      ((passWithin host mounter (fuel + 1) t target path).after world) := by
  have begun : passWithin host mounter (fuel + 1) t target path world = _ :=
    start_pass host mounter (passWithin host mounter fuel) t target path .empty
      world
  unfold Act.result at passed
  unfold Act.after
  rw [begun] at passed ⊢
  split at passed
  · cases passed
  · rename_i free
    rw [if_neg free]
    exact ensures node record passed

end Template

namespace Template

/-- The pass of `render`. -/
def renderPass (host : Host σ) (mounter : Mounter σ) (t : TemplateId) :
    Act σ (Except TemplateError NodeId × Record) :=
  keeping (.refs [.template t])
    (passWithin host mounter (t.index + 1) t none [])

/-- What `render` does with the outcome of its pass. -/
def release :
    Except TemplateError NodeId × Record → Act σ (Except TemplateError NodeId)
  | (.ok node, _) => return .ok node
  | (.error error, record) => do
      record.revokeAll
      return .error error

theorem run_renderWith (host : Host σ) (mounter : Mounter σ) (t : TemplateId)
    (world : World σ) :
    renderWith host mounter t world =
      if (world.template t).rendered then (.error .alreadyRendered, world)
      else
        match checkFresh world t with
        | .error error => (.error error, world)
        | .ok () => (renderPass host mounter t >>= release) world := by
  have looks : renderWith host mounter t = (get >>= fun world =>
      if (world.template t).rendered then pure (.error .alreadyRendered)
      else get >>= fun world =>
        match checkFresh world t with
        | .error error => pure (.error error)
        | .ok () => renderPass host mounter t >>= release) := by
    unfold renderWith
    congr
  rw [looks]
  change (ite _ _ _ : Act σ _) world = _
  split
  · rfl
  · change (match checkFresh world t with
      | .error error => pure (.error error)
      | .ok () => renderPass host mounter t >>= release : Act σ _) world = _
    cases checkFresh world t <;> rfl

theorem run_renderWith_of_passed {host : Host σ} {mounter : Mounter σ}
    {t : TemplateId} {world : World σ} {n : NodeId} {record : Record}
    (free : (world.template t).rendered = false)
    (checked : checkFresh world t = .ok ())
    (passed : (renderPass host mounter t).result world = (.ok n, record)) :
    renderWith host mounter t world =
      (.ok n, (renderPass host mounter t).after world) := by
  rw [run_renderWith, if_neg (by simp [free]), checked]
  change release ((renderPass host mounter t).result world)
    ((renderPass host mounter t).after world) = _
  rw [passed]
  rfl

theorem run_renderWith_of_refused (host : Host σ) (mounter : Mounter σ)
    {t : TemplateId} {world : World σ}
    (refused : ¬((world.template t).rendered = false ∧
      checkFresh world t = .ok ())) :
    ∃ error, renderWith host mounter t world = (.error error, world) := by
  rw [run_renderWith]
  cases free : (world.template t).rendered with
  | true => exact ⟨_, rfl⟩
  | false =>
      cases checked : checkFresh world t with
      | error error => exact ⟨error, rfl⟩
      | ok => exact absurd ⟨free, checked⟩ refused

theorem renderWith_ok {host : Host σ} {mounter : Mounter σ} {t : TemplateId}
    {world : World σ} {n : NodeId}
    (rendered : (renderWith host mounter t).result world = .ok n) :
    (world.template t).rendered = false ∧ checkFresh world t = .ok () ∧
      (∃ record, (renderPass host mounter t).result world = (.ok n, record)) ∧
      (renderWith host mounter t).after world =
        (renderPass host mounter t).after world := by
  have runs := run_renderWith host mounter t world
  unfold Act.result at rendered
  unfold Act.after
  rw [runs] at rendered ⊢
  split at rendered
  · cases rendered
  rename_i free
  rw [if_neg free]
  cases checked : checkFresh world t with
  | error error =>
      rw [checked] at rendered
      cases rendered
  | ok =>
      rw [checked] at rendered
      generalize renderPass host mounter t = pass at rendered ⊢
      change (release (pass.result world)).result (pass.after world) = _
        at rendered
      change _ ∧ _ ∧ _ ∧
        (release (pass.result world)).after (pass.after world) = _
      generalize pass.result world = passed at rendered ⊢
      obtain ⟨outcome | node, record⟩ := passed
      · cases rendered
      · cases rendered
        exact ⟨Bool.eq_false_iff.mpr free, rfl, ⟨record, rfl⟩, rfl⟩

end Template

namespace Template

/-- The pass of `apply`, in which no view is mounted. -/
def applyPass (host : Host σ) (t : TemplateId) (n : NodeId) :
    Act σ (Except TemplateError NodeId × Record) :=
  keeping (.refs [.template t])
    (passWithin host (fun _ => return .error .componentNotRendered)
      (t.index + 1) t (some n) [])

/-- What `apply` does with the outcome of its pass. -/
def settle (t : TemplateId) (n : NodeId) :
    Except TemplateError NodeId × Record → Act σ (Except TemplateError NodeId)
  | (.ok _, record) => do
      update t fun template => { template with applied := some (n, record) }
      return .ok n
  | (.error error, record) => do
      record.restore n
      return .error error

theorem run_apply (host : Host σ) (t : TemplateId) (n : NodeId)
    (world : World σ) :
    apply host t n world =
      if (world.template t).applied.isSome then
        (.error .alreadyApplied, world)
      else
        match checkApply world t n with
        | .error error => (.error error, world)
        | .ok () => (applyPass host t n >>= settle t n) world := by
  have looks : apply host t n = (get >>= fun world =>
      if (world.template t).applied.isSome then
        pure (.error .alreadyApplied)
      else get >>= fun world =>
        match checkApply world t n with
        | .error error => pure (.error error)
        | .ok () => applyPass host t n >>= settle t n) := by
    unfold apply
    congr
  rw [looks]
  change (ite _ _ _ : Act σ _) world = _
  split
  · rfl
  · change (match checkApply world t n with
      | .error error => pure (.error error)
      | .ok () => applyPass host t n >>= settle t n : Act σ _) world = _
    cases checkApply world t n <;> rfl

theorem run_apply_of_passed {host : Host σ} {t : TemplateId} {n node : NodeId}
    {world later : World σ} {record : Record}
    (free : (world.template t).applied = none)
    (checked : checkApply world t n = .ok ())
    (passed : applyPass host t n world = ((.ok node, record), later)) :
    apply host t n world =
      (.ok n, (update t fun template =>
        { template with applied := some (n, record) }).after later) := by
  rw [run_apply, if_neg (by simp [free]), checked]
  change settle t n (applyPass host t n world).1
    (applyPass host t n world).2 = _
  rw [passed]
  rfl

private theorem applyPass_text (host : Host σ) {t : TemplateId} {n : NodeId}
    {world : World σ}
    {schema : Schema} (text : (world.template t).blueprint.text = some schema)
    (bound : (flattenChunks schema).any Chunk.isBound = true) :
    let bind := SyncGroup.bind host ⟨flattenChunks schema, .text n⟩
    let entered := world.holding
      (.refs [.node n] :: .refs [.template t] :: world.frames)
    applyPass host t n world =
      ((.ok n, ⟨some (world.dom.textContent n), [], [bind.result entered], []⟩),
        (bind.after entered).holding world.frames) := by
  intro bind entered
  have passed := start_pass host (fun _ => return .error .componentNotRendered)
    (passWithin host (fun _ => return .error .componentNotRendered) t.index)
    t (some n) [] .empty (world.holding (.refs [.template t] :: world.frames))
  unfold passWith Blueprint.renderText at passed
  simp only [World.holding_template, text, Option.isSome_some,
    Option.isNone_some, Option.getD_some, bound, if_true, Bool.false_and,
    Bool.false_eq_true, if_false] at passed
  exact congrArg (fun outcome => (outcome.1, outcome.2.holding world.frames))
    passed

theorem run_apply_text (host : Host σ) {t : TemplateId} {n : NodeId}
    {world : World σ} {schema : Schema}
    (free : (world.template t).applied = none)
    (checked : checkApply world t n = .ok ())
    (text : (world.template t).blueprint.text = some schema)
    (bound : (flattenChunks schema).any Chunk.isBound = true) :
    let bind := SyncGroup.bind host ⟨flattenChunks schema, .text n⟩
    let entered := world.holding
      (.refs [.node n] :: .refs [.template t] :: world.frames)
    let record : Record :=
      ⟨some (world.dom.textContent n), [], [bind.result entered], []⟩
    apply host t n world =
      (.ok n, (update t fun template =>
        { template with applied := some (n, record) }).after
          ((bind.after entered).holding world.frames)) := by
  exact run_apply_of_passed free checked (applyPass_text host text bound)

theorem apply_ok {host : Host σ} {t : TemplateId} {n m : NodeId}
    {world : World σ} (applied : (apply host t n).result world = .ok m) :
    ∃ record node, (applyPass host t n).result world = (.ok node, record) ∧
      (apply host t n).after world =
        (update t fun template =>
          { template with applied := some (n, record) }).after
            ((applyPass host t n).after world) := by
  have runs := run_apply host t n world
  unfold Act.result at applied
  unfold Act.after
  rw [runs] at applied ⊢
  split at applied
  · cases applied
  rename_i free
  rw [if_neg free]
  cases checked : checkApply world t n with
  | error error =>
      rw [checked] at applied
      cases applied
  | ok =>
      rw [checked] at applied
      generalize applyPass host t n = pass at applied ⊢
      change (settle t n (pass.result world)).result (pass.after world) = _
        at applied
      change ∃ record node, _ ∧
        (settle t n (pass.result world)).after (pass.after world) = _
      generalize pass.result world = passed at applied ⊢
      obtain ⟨outcome | node, record⟩ := passed
      · cases applied
      · exact ⟨record, node, rfl, rfl⟩

theorem run_revert (t : TemplateId) (n : NodeId) (world : World σ) :
    revert t n world =
      match (world.template t).applied with
      | some (node, record) =>
          if node = n then
            (.ok (), (record.restore n : Act σ Unit).after
              ((update t fun template =>
                { template with applied := none }).after world))
          else (.error .revertWithoutApply, world)
      | none => (.error .revertWithoutApply, world) := by
  unfold revert
  change (match (world.template t).applied with
    | some (node, record) =>
        if node = n then do
          update t fun template => { template with applied := none }
          record.restore n
          return .ok ()
        else return .error .revertWithoutApply
    | none => return .error .revertWithoutApply :
      Act σ (Except TemplateError Unit)) world = _
  cases (world.template t).applied with
  | none => rfl
  | some entry =>
      obtain ⟨node, record⟩ := entry
      dsimp only
      split <;> rfl

theorem revert_of_applied {t : TemplateId} {n : NodeId} {record : Record}
    {world : World σ} (kept : (world.template t).applied = some (n, record)) :
    (revert t n : Act σ _).result world = .ok () := by
  unfold Act.result
  rw [run_revert, kept]
  dsimp only
  rw [if_pos rfl]

theorem revert_ok {t : TemplateId} {n : NodeId} {world : World σ}
    (reverted : (revert t n : Act σ _).result world = .ok ()) :
    ∃ record, (world.template t).applied = some (n, record) ∧
      (revert t n : Act σ _).after world =
        (record.restore n : Act σ Unit).after
          ((update t fun template =>
            { template with applied := none }).after world) := by
  unfold Act.result at reverted
  unfold Act.after
  rw [run_revert] at reverted ⊢
  cases found : (world.template t).applied with
  | none =>
      rw [found] at reverted
      cases reverted
  | some entry =>
      obtain ⟨node, record⟩ := entry
      rw [found] at reverted
      dsimp only at reverted ⊢
      split at reverted
      · rename_i same
        subst same
        exact ⟨record, rfl, by rw [if_pos rfl]; rfl⟩
      · cases reverted

end Template

end LiveTemplate
