import LiveTemplate.Proofs.Operations

/-!
# What a pass puts on record

Each listener that is new after a pass either can be given up by a revoker of
its record or was added by the code of the client.  This holds for passes that
fail on the way as well, so that whatever a record holds can be undone.
-/

namespace LiveTemplate

variable {σ α β : Type}

/-- A run that adds foreign listeners only needs no revokers. -/
theorem Accounts.of_reaches {foreign : Subscription → Prop}
    {world later : World σ} (reaches : Reaches foreign world later) :
    Accounts foreign [] world later where
  run := reaches.run
  fresh r member := by cases member
  counted subscription present := by
    rcases reaches.counted subscription present with before | added
    · exact .inl before
    · exact .inr (.inl added)

/-- The record has grown by the revokers of the new listeners. -/
structure Tracked (foreign : Subscription → Prop)
    (before after : Record × World σ) : Prop where
  text : after.1.text = before.1.text
  children : ∃ added, after.1.children = before.1.children ++ added ∧
    ∀ child ∈ added, child.Flat
  revokers : ∃ added,
    (∀ r, r ∈ after.1.revokers ↔ r ∈ before.1.revokers ∨ r ∈ added) ∧
      Accounts foreign added before.2 after.2

/-- From a world in order the record grows by the revokers of the new
listeners. -/
def Tracks (foreign : Subscription → Prop)
    (before after : Record × World σ) : Prop :=
  before.2.Ordered → Tracked foreign before after

section Tracks

variable {foreign : Subscription → Prop}

theorem Tracked.run {before after : Record × World σ}
    (tracked : Tracked foreign before after) : Run before.2 after.2 := by
  obtain ⟨_, _, accounts⟩ := tracked.revokers
  exact accounts.run

theorem Tracks.of_reaches {record : Record} {world later : World σ}
    (reaches : world.Ordered → Reaches foreign world later) :
    Tracks foreign (record, world) (record, later) := by
  intro ordered
  exact ⟨rfl, ⟨[], by simp⟩, [], by simp, .of_reaches (reaches ordered)⟩

theorem Tracks.refl (start : Record × World σ) :
    Tracks foreign start start := by
  exact .of_reaches fun _ => .refl start.2

theorem Tracks.trans {first second third : Record × World σ}
    (early : Tracks foreign first second)
    (late : Tracks foreign second third) : Tracks foreign first third := by
  intro ordered
  have former := early ordered
  have latter := late (former.run.progress ordered).1
  obtain ⟨children, grown, flat⟩ := former.children
  obtain ⟨others, grownAgain, othersFlat⟩ := latter.children
  obtain ⟨added, members, accounts⟩ := former.revokers
  obtain ⟨addedAgain, membersAgain, accountsAgain⟩ := latter.revokers
  refine ⟨latter.text.trans former.text, ⟨children ++ others, ?_, ?_⟩,
    added ++ addedAgain, fun r => ?_, accounts.trans ordered accountsAgain⟩
  · rw [grownAgain, grown, List.append_assoc]
  · intro child member
    rcases List.mem_append.mp member with before | after
    · exact flat child before
    · exact othersFlat child after
  · rw [membersAgain, members, List.mem_append, or_assoc]

theorem Tracks.holding (record : Record) (world : World σ)
    (frames : List Frame) :
    Tracks foreign (record, world) (record, world.holding frames) := by
  exact .of_reaches fun _ => .holding world frames

theorem Tracks.noteGroup {record : Record} {revokers : List RevokerId}
    {world later : World σ}
    (accounts : world.Ordered → Accounts foreign revokers world later) :
    Tracks foreign (record, world)
      ({ record with bindings := record.bindings ++ [revokers] }, later) := by
  intro ordered
  exact ⟨rfl, ⟨[], by simp⟩, revokers,
    fun _ => Record.mem_revokers_noteGroup, accounts ordered⟩

/-- The record of a nested template is kept. -/
theorem Tracks.noteChild {record child : Record} {world later : World σ}
    (accounts : world.Ordered →
      child.Flat ∧ Accounts foreign child.revokers world later) :
    Tracks foreign (record, world)
      ({ record with children := record.children ++ [child] }, later) := by
  intro ordered
  obtain ⟨flat, accounted⟩ := accounts ordered
  refine ⟨rfl, ⟨[child], rfl, fun other member => ?_⟩, child.revokers,
    fun _ => Record.mem_revokers_noteChild, accounted⟩
  rw [List.mem_singleton.mp member]
  exact flat

end Tracks

/-- Whatever the pass begins with, its record grows by the revokers of the new
listeners. -/
abbrev Pass.IsTracked (foreign : Subscription → Prop) (pass : Pass σ α) :
    Prop :=
  pass.Keeps (Tracks foreign)

namespace Pass.IsTracked

variable {foreign : Subscription → Prop}

theorem pure (a : α) : (Pure.pure a : Pass σ α).IsTracked foreign :=
  Keeps.pure Tracks.refl a

theorem throw (error : TemplateError) :
    (MonadExcept.throw error : Pass σ α).IsTracked foreign :=
  Keeps.throw Tracks.refl error

theorem ofExcept (outcome : Except TemplateError α) :
    (Pass.ofExcept outcome : Pass σ α).IsTracked foreign :=
  Keeps.ofExcept Tracks.refl outcome

theorem act {action : Act σ α} (runs : action.RunsWithin foreign) :
    (Pass.act action).IsTracked foreign := by
  exact Keeps.act fun _ world => .of_reaches (runs world)

theorem get : (Pass.act MonadState.get : Pass σ (World σ)).IsTracked foreign :=
  act .get

theorem noteAttribute (saved : SavedAttribute) :
    (Pass.noteAttribute saved : Pass σ Unit).IsTracked foreign := by
  refine Keeps.note fun ⟨_, _, _, _⟩ world _ => ?_
  refine ⟨rfl, ⟨[], by simp⟩, [], ?_, .refl world⟩
  intro _
  simp [Record.revokers]

theorem bind {pass : Pass σ α} {next : α → Pass σ β}
    (first : pass.IsTracked foreign)
    (later : ∀ a, (next a).IsTracked foreign) :
    (pass >>= next).IsTracked foreign :=
  Keeps.bind Tracks.refl Tracks.trans first later

theorem keeping {refs : List Ref} {pass : Pass σ α}
    (tracked : pass.IsTracked foreign) :
    (Pass.keeping refs pass).IsTracked foreign := by
  exact @Keeps.keeping σ α (Tracks foreign) Tracks.trans Tracks.holding refs
    pass tracked

theorem forM {items : List α} {body : α → Pass σ Unit}
    (tracked : ∀ item, (body item).IsTracked foreign) :
    (items.forM body).IsTracked foreign := by
  exact Keeps.forM Tracks.refl Tracks.trans fun item _ => tracked item

end Pass.IsTracked

section Passes

variable {host : Host σ} {foreign : Subscription → Prop}

private theorem SyncGroup.accounts_bind
    (transforms : host.TransformsWithin foreign)
    (group : SyncGroup) {world : World σ} (ordered : world.Ordered) :
    Accounts foreign ((group.bind host).result world) world
      ((group.bind host).after world) := by
  have shown := group.runs_sync transforms world ordered
  exact (Accounts.of_reaches shown).trans ordered (.mapM
    (fun _ world => .of_listened
      (.listenToObservable world _ _ _ _)
      (Emitter.listened_listenToObservable _ _ _ _ world))
    (shown.run.progress ordered).1)

theorem SyncGroup.tracked_bind (transforms : host.TransformsWithin foreign)
    (group : SyncGroup) :
    Pass.IsTracked foreign (do
      Pass.noteGroup (← Pass.act (SyncGroup.bind host group))) := by
  refine Pass.Keeps.act_note fun _ _ => ?_
  exact .noteGroup fun ordered => group.accounts_bind transforms ordered

namespace Blueprint

theorem tracked_renderSlot (transforms : host.TransformsWithin foreign)
    (slot : Slot) (chunks : List Chunk) :
    (renderSlot host slot chunks).IsTracked foreign := by
  unfold renderSlot
  split
  · exact SyncGroup.tracked_bind transforms _
  · refine .bind (.act (runs_evaluate transforms _ _)) fun value => ?_
    split
    · exact .act (.modifyDom _)
    · exact .pure ()

private theorem tracked_renderAttribute
    (transforms : host.TransformsWithin foreign)
    (node : NodeId) (applying : Bool) (name : String) (schema : Schema) :
    (renderAttribute host node applying name schema).IsTracked foreign := by
  cases applying with
  | true =>
      exact .bind .get fun _ => .bind (.noteAttribute _) fun _ =>
        tracked_renderSlot transforms _ _
  | false => exact .bind .get fun _ => tracked_renderSlot transforms _ _

theorem tracked_renderStyles (transforms : host.TransformsWithin foreign)
    (node : NodeId) (styles : StyleMap) :
    (renderStyles host node styles).IsTracked foreign := by
  exact .forM fun _ => tracked_renderSlot transforms _ _

private theorem tracked_renderEntry (transforms : host.TransformsWithin foreign)
    (blueprint : Blueprint) (node : NodeId) (applying : Bool) (name : String)
    (schema : Schema) :
    (blueprint.renderEntry host node applying name schema).IsTracked
      foreign := by
  unfold renderEntry
  split
  · exact .throw _
  · rename_i styles _found
    cases applying with
    | true =>
        exact .bind .get fun _ => .bind (.noteAttribute _) fun _ =>
          tracked_renderStyles transforms node styles
    | false => exact tracked_renderStyles transforms node styles
  · exact tracked_renderAttribute transforms node applying name schema

private theorem tracked_renderAttributes
    (transforms : host.TransformsWithin foreign)
    (blueprint : Blueprint) (node : NodeId) (applying : Bool) :
    (blueprint.renderAttributes host node applying).IsTracked foreign := by
  refine .forM fun (name, schema) => ?_
  exact tracked_renderEntry transforms blueprint node applying name schema

theorem tracked_renderListeners (blueprint : Blueprint) (node : NodeId) :
    (blueprint.renderListeners node : Pass σ Unit).IsTracked foreign := by
  refine .forM fun (key, bindings) => .bind (.ofExcept _) fun parsed => ?_
  refine Pass.Keeps.act_note fun _ _ => .noteGroup fun ordered => .mapM
    (fun binding world => ?_) ordered
  exact .of_listened (.listenToNode world _ _ _ _)
    (Emitter.listened_listenToNode binding.emitter node parsed.1
      (.delegate parsed.2 binding) world)

end Blueprint

/-- A nested template accounts for its listeners. -/
def Nested.Accounts (foreign : Subscription → Prop) (nested : Nested σ) :
    Prop :=
  ∀ t target path (world : World σ), world.Ordered →
    ((nested t target path).result world).2.Flat ∧
      LiveTemplate.Accounts foreign
        ((nested t target path).result world).2.revokers world
        ((nested t target path).after world)

theorem Pass.tracked_nest {nested : Nested σ}
    (accounts : Nested.Accounts foreign nested) (t : TemplateId)
    (target : Option NodeId) (path : DefinitionPath) :
    (Pass.nest nested t target path).IsTracked foreign := by
  have recorded : Pass.IsTracked foreign (do
      let result ← Pass.act (nested t target path)
      Pass.note fun record =>
        { record with children := record.children ++ [result.2] }) :=
    Keeps.act_note fun _ world => .noteChild fun ordered =>
      accounts t target path world ordered
  intro record world
  have tracks := recorded record world
  unfold Pass.nest
  rw [start_bind, Act.after_bind, Act.result_bind] at tracks ⊢
  exact tracks

/-- Mounting views adds foreign listeners only. -/
def Mounter.RunsWithin (foreign : Subscription → Prop)
    (mounter : Mounter σ) : Prop :=
  ∀ v, (mounter v).RunsWithin foreign

namespace Mount

theorem runs_push (mount : Mount) (child : NodeId) :
    (mount.push child : Act σ Mount).RunsWithin foreign := by
  exact .bind (.modifyDom _) fun _ => .pure _

theorem runs_finish (mount : Mount) (parent : NodeId) :
    (mount.finish parent : Act σ Unit).RunsWithin foreign := by
  refine .bind (.modifyDom _) fun _ => ?_
  refine .forM fun _ => ?_
  exact .aside (fun _ => rfl) (fun _ => rfl) (fun _ => rfl)
    fun _ => .of_templates rfl

end Mount

namespace Blueprint

variable {mounter : Mounter σ} {nested : Nested σ}

theorem tracked_mountViews (mounts : Mounter.RunsWithin foreign mounter)
    (mount : Mount) (views : List ViewId) :
    (mountViews mounter mount views).IsTracked foreign := by
  induction views generalizing mount with
  | nil => exact .pure mount
  | cons view rest ih =>
      rw [mountViews]
      exact .bind (.act (mounts view)) fun _ => .bind (.ofExcept _) fun _ =>
        .bind (.act (mount.runs_push _)) fun later => .keeping (ih later)

private theorem tracked_mountMember
    (mounts : Mounter.RunsWithin foreign mounter)
    (accounts : Nested.Accounts foreign nested) (path : DefinitionPath)
    (mount : Mount) (member : Member) :
    (mountMember mounter nested path mount member).IsTracked foreign := by
  cases member with
  | collection collection =>
      exact .bind .get fun _ =>
        .bind (.keeping (tracked_mountViews mounts mount _)) fun _ => .pure _
  | view view => exact tracked_mountViews mounts mount [view]
  | node node => exact .act (mount.runs_push node)
  | template t =>
      exact .bind (Pass.tracked_nest accounts t none path) fun _ =>
        .act (mount.runs_push _)

private theorem tracked_mountMembers
    (mounts : Mounter.RunsWithin foreign mounter)
    (accounts : Nested.Accounts foreign nested) (path : DefinitionPath)
    (index : Nat) (mount : Mount) (members : List Member) :
    (mountMembers mounter nested path index mount members).IsTracked
      foreign := by
  induction members generalizing index mount with
  | nil => exact .pure mount
  | cons member rest ih =>
      rw [mountMembers]
      exact .bind (tracked_mountMember mounts accounts _ mount member)
        fun later => .keeping (ih (index + 1) later)

private theorem tracked_applyMembers (accounts : Nested.Accounts foreign nested)
    (blueprint : Blueprint) (node : NodeId) (path : DefinitionPath)
    (index place : Nat) (members : List Member) :
    (blueprint.applyMembers nested node path index place members).IsTracked
      foreign := by
  induction members generalizing index place with
  | nil => exact .pure ()
  | cons member rest ih =>
      cases member with
      | template t =>
          rw [applyMembers]
          refine .bind .get fun world => ?_
          dsimp only
          split
          · exact .bind (Pass.tracked_nest accounts t _ _) fun _ => ih _ _
          · exact .throw _
      | collection collection => exact ih _ _
      | view view => exact .throw _
      | node child => exact .throw _

private theorem tracked_renderMembers
    (mounts : Mounter.RunsWithin foreign mounter)
    (accounts : Nested.Accounts foreign nested) (members : List Member)
    (parent : NodeId) (path : DefinitionPath) :
    (renderMembers mounter nested members parent path).IsTracked foreign := by
  unfold renderMembers
  split
  · exact .bind (.act (.createNode _)) fun fragment =>
      .keeping (.bind (tracked_mountMembers mounts accounts path 0 _ members)
        fun mount => .act (mount.runs_finish parent))
  · exact .pure ()

private theorem tracked_renderElement
    (transforms : host.TransformsWithin foreign)
    (mounts : Mounter.RunsWithin foreign mounter)
    (accounts : Nested.Accounts foreign nested) (blueprint : Blueprint)
    (target : Option NodeId) (path : DefinitionPath) :
    (blueprint.renderElement host mounter nested target path).IsTracked
      foreign := by
  have filled (node : NodeId) (applying : Bool) :
      Pass.IsTracked foreign (do
        Pass.keeping [.node node] do
          blueprint.renderAttributes host node applying
          if applying then
            blueprint.applyMembers nested node path 0 0 blueprint.children
          else
            renderMembers mounter nested blueprint.children node path
          blueprint.renderListeners node
        return node) := by
    refine .bind (.keeping ?_) fun _ => .pure node
    refine .bind (tracked_renderAttributes transforms blueprint node _)
      fun _ => ?_
    dsimp only
    split
    · exact .bind (tracked_applyMembers accounts blueprint node path 0 0 _)
        fun _ => tracked_renderListeners blueprint node
    · exact .bind (tracked_renderMembers mounts accounts _ node path)
        fun _ => tracked_renderListeners blueprint node
  unfold renderElement
  cases target with
  | some node => exact .bind (.pure node) fun node => filled node true
  | none =>
      cases blueprint.tag with
      | some tag =>
          exact .bind (.act (.createNode _)) fun node => filled node false
      | none => exact .bind (.throw _) fun node => filled node false

end Blueprint

/-- A tracked pass that begins with nothing on record accounts for its
listeners. -/
theorem Pass.IsTracked.accounts {pass : Pass σ α}
    (tracked : pass.IsTracked foreign) {world : World σ}
    (ordered : world.Ordered) :
    ((pass.start .empty).result world).2.Flat ∧
      Accounts foreign ((pass.start .empty).result world).2.revokers world
        ((pass.start .empty).after world) := by
  have kept := tracked .empty world ordered
  obtain ⟨added, grown, flat⟩ := kept.children
  obtain ⟨revokers, members, accounts⟩ := kept.revokers
  constructor
  · have text : ((pass.start .empty).result world).2.text = none := kept.text
    generalize ((pass.start .empty).result world).2 = record at text grown
    obtain ⟨_, attributes, bindings, children⟩ := record
    cases text
    refine .element fun child member => ?_
    have among : child ∈ [] ++ added := grown ▸ member
    exact flat child (by simpa using among)
  · refine accounts.congr fun r => (members r).trans ?_
    simp [Record.empty, Record.revokers, Record.revokersOf]

namespace Blueprint

theorem tracked_showText (transforms : host.TransformsWithin foreign)
    (node : NodeId) (chunks : List Chunk) :
    (showText host node chunks).IsTracked foreign := by
  refine .bind (.keeping ?_) fun _ => .pure node
  split
  · exact SyncGroup.tracked_bind transforms _
  · exact .bind (.act (.bind (.mapM fun chunk =>
      Chunk.runs_evaluate transforms node chunk) fun _ => .pure _)) fun _ =>
        .act (.modifyDom _)

theorem children_showText (host : Host σ) (node : NodeId) (chunks : List Chunk)
    (record : Record) (world : World σ) :
    ((Pass.start (showText host node chunks) record).result
      world).2.children = record.children := by
  unfold showText
  split <;> rfl

theorem accounts_renderText (transforms : host.TransformsWithin foreign)
    (blueprint : Blueprint) (target : Option NodeId) {world : World σ}
    (ordered : world.Ordered) :
    let pass := blueprint.renderText host target
    ((pass.start .empty).result world).2.Flat ∧
      Accounts foreign ((pass.start .empty).result world).2.revokers world
        ((pass.start .empty).after world) := by
  let chunks := flattenChunks (blueprint.text.getD [])
  cases target with
  | none =>
      have tracked : Pass.IsTracked foreign
          (blueprint.renderText host none) :=
        .bind (.act (.createNode _)) fun node =>
          tracked_showText transforms node chunks
      exact tracked.accounts ordered
  | some node =>
      let noted : Record := ⟨some (world.dom.textContent node), [], [], []⟩
      have same : (blueprint.renderText host (some node)).start .empty world =
          (showText host node chunks).start noted world := rfl
      have tracked := tracked_showText transforms node chunks noted world
        ordered
      have children := children_showText host node chunks noted world
      obtain ⟨revokers, members, accounts⟩ := tracked.revokers
      have text := tracked.text
      dsimp only
      rw [Act.result, Act.after, same]
      constructor
      · show Record.Flat (((showText host node chunks).start noted).result
          world).2
        generalize (((showText host node chunks).start noted).result
          world).2 = record at text children
        obtain ⟨_, attributes, bindings, _⟩ := record
        cases text
        cases children
        exact .text
      · refine accounts.congr fun r => (members r).trans ?_
        simp [noted, Record.revokers, Record.revokersOf]

end Blueprint

namespace Template

variable {mounter : Mounter σ} {nested : Nested σ}

theorem runs_update (t : TemplateId) {change : Template → Template}
    (keeps : ∀ template, (change template).applied = template.applied ∨
      ∀ entry, (change template).applied = some entry → entry.2.Flat)
    (sound : ∀ template limit, template.blueprint.IsSound limit →
      (change template).blueprint.IsSound limit) :
    (update t change : Act σ Unit).RunsWithin foreign := by
  exact .aside (fun _ => rfl) (fun _ => rfl) (fun _ => rfl)
    (keepsTemplates_update t keeps sound)

theorem runs_keep (t : TemplateId) (n : NodeId) {record : Record}
    (flat : record.Flat) :
    (update t fun template => { template with applied := some (n, record) } :
      Act σ Unit).RunsWithin foreign := by
  exact .aside (fun _ => rfl) (fun _ => rfl) (fun _ => rfl)
    (keepsTemplates_keep t n flat)

theorem runs_giveUp (t : TemplateId) :
    (update t fun template => { template with applied := none } :
      Act σ Unit).RunsWithin foreign := by
  refine runs_update t (fun _ => .inr fun entry kept => ?_) ?_
  · cases kept
  · exact fun _ _ sound => sound

theorem runs_markRendered (t : TemplateId) :
    (update t fun template => { template with rendered := true } :
      Act σ Unit).RunsWithin foreign := by
  refine runs_update t (fun _ => .inl rfl) ?_
  exact fun _ _ sound => sound

theorem tracked_passWith (transforms : host.TransformsWithin foreign)
    (mounts : Mounter.RunsWithin foreign mounter)
    (accounts : Nested.Accounts foreign nested) (t : TemplateId)
    (blueprint : Blueprint) (target : Option NodeId) (path : DefinitionPath)
    (element : blueprint.text.isSome = false) :
    (passWith host mounter nested t blueprint target path).IsTracked
      foreign := by
  unfold passWith
  rw [if_neg (by simp [element])]
  refine .bind (Blueprint.tracked_renderElement transforms mounts accounts
    blueprint target path) fun node => ?_
  dsimp only
  split
  · exact .bind (.act (runs_markRendered t)) fun _ => .pure node
  · exact .pure node

private theorem accounts_passWith_text
    (transforms : host.TransformsWithin foreign)
    (t : TemplateId) (blueprint : Blueprint) (target : Option NodeId)
    (path : DefinitionPath) (text : blueprint.text.isSome = true)
    {world : World σ} (ordered : world.Ordered) :
    let pass := passWith host mounter nested t blueprint target path
    ((pass.start .empty).result world).2.Flat ∧
      Accounts foreign ((pass.start .empty).result world).2.revokers world
        ((pass.start .empty).after world) := by
  have first := Blueprint.accounts_renderText transforms blueprint target
    ordered
  dsimp only at first ⊢
  unfold passWith
  rw [if_pos text, Pass.start_bind, Act.result_bind, Act.after_bind]
  generalize ((blueprint.renderText host target).start .empty).after world =
    later at first ⊢
  generalize ((blueprint.renderText host target).start .empty).result world =
    result at first ⊢
  obtain ⟨outcome | node, record⟩ := result
  · exact first
  · cases target with
    | some target => exact first
    | none =>
        have marked : Accounts foreign [] later _ := .of_reaches
          (runs_markRendered t later (first.2.run.progress ordered).1)
        have both := first.2.trans ordered marked
        rw [List.append_nil] at both
        exact ⟨first.1, both⟩

theorem accounts_pass (transforms : host.TransformsWithin foreign)
    (mounts : Mounter.RunsWithin foreign mounter)
    (accounts : Nested.Accounts foreign nested) (t : TemplateId)
    (target : Option NodeId) (path : DefinitionPath) {world : World σ}
    (ordered : world.Ordered) :
    let pass := pass host mounter nested t target path
    ((pass.start .empty).result world).2.Flat ∧
      Accounts foreign ((pass.start .empty).result world).2.revokers world
        ((pass.start .empty).after world) := by
  dsimp only
  unfold Act.result Act.after
  rw [start_pass]
  split
  · exact ⟨.element (fun _ member => by cases member), .refl world⟩
  · cases text : (world.template t).blueprint.text.isSome with
    | true =>
        exact accounts_passWith_text transforms t _ target path text ordered
    | false =>
        exact (tracked_passWith transforms mounts accounts t _ target path
          text).accounts ordered

theorem accounts_passWithin (transforms : host.TransformsWithin foreign)
    (mounts : Mounter.RunsWithin foreign mounter) (fuel : Nat) :
    Nested.Accounts foreign (passWithin host mounter fuel) := by
  induction fuel with
  | zero =>
      exact fun t target path world _ =>
        ⟨.element (fun _ member => by cases member), .refl world⟩
  | succ fuel ih =>
      exact fun t target path world ordered =>
        accounts_pass transforms mounts ih t target path ordered

end Template

end Passes

end LiveTemplate
