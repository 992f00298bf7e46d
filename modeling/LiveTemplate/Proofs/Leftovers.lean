import LiveTemplate.Proofs.Grafting
import LiveTemplate.Proofs.Ledgers
import LiveTemplate.Proofs.Tracking

/-!
# What a failed rendering leaves registered

A pass records the revokers of what it registers before it can fail, so that
giving up the record takes back all of it.  Only what views registered whose
own rendering was completed stays, as these belong to the views.
-/

namespace LiveTemplate

variable {σ α β : Type} {host : Host σ} {among : ViewId → Prop}
  {base : World σ}

/-- The record has grown by the revokers of a tally. -/
def Tallied (host : Host σ) (among : ViewId → Prop) (base : World σ)
    (before after : Record × World σ) : Prop :=
  base.Advances before.2 → before.2.Booked → ∃ revokers interludes,
    (∀ r, r ∈ after.1.revokers ↔ r ∈ before.1.revokers ∨ r ∈ revokers) ∧
      Tally host among revokers interludes before.2 after.2

namespace Tallied

theorem of_tally {record : Record} {world later : World σ}
    (tally : base.Advances world → world.Booked → ∃ interludes,
      Tally host among [] interludes world later) :
    Tallied host among base (record, world) (record, later) := by
  intro advances booked
  obtain ⟨interludes, tally⟩ := tally advances booked
  exact ⟨[], interludes, by simp, tally⟩

theorem refl (start : Record × World σ) :
    Tallied host among base start start := by
  exact of_tally fun _ _ => ⟨[], .refl start.2⟩

theorem trans {first second third : Record × World σ}
    (early : Tallied host among base first second)
    (late : Tallied host among base second third) :
    Tallied host among base first third := by
  intro advances booked
  obtain ⟨revokers, interludes, members, tally⟩ := early advances booked
  obtain ⟨others, more, membersAgain, tallyAgain⟩ :=
    late (advances.trans tally.advances) (tally.owned booked)
  refine ⟨revokers ++ others, interludes ++ more, fun r => ?_,
    tally.trans booked tallyAgain⟩
  rw [membersAgain, members, List.mem_append, or_assoc]

theorem holding (record : Record) (world : World σ) (frames : List Frame) :
    Tallied host among base (record, world) (record, world.holding frames) := by
  refine of_tally fun _ _ => ?_
  exact ⟨[], .quiet (.holding world frames) ((World.SameSetup.refl world).held
    frames) rfl rfl rfl rfl⟩

end Tallied

/-- Whatever the pass begins with, its record grows by the revokers of a
tally. -/
abbrev Pass.IsTallied (host : Host σ) (among : ViewId → Prop)
    (base : World σ) (pass : Pass σ α) : Prop :=
  pass.Keeps (Tallied host among base)

namespace Pass.IsTallied

theorem pure (a : α) : (Pure.pure a : Pass σ α).IsTallied host among base :=
  Keeps.pure Tallied.refl a

theorem throw (error : TemplateError) :
    (MonadExcept.throw error : Pass σ α).IsTallied host among base :=
  Keeps.throw Tallied.refl error

theorem ofExcept (outcome : Except TemplateError α) :
    (Pass.ofExcept outcome : Pass σ α).IsTallied host among base :=
  Keeps.ofExcept Tallied.refl outcome

theorem act {action : Act σ α}
    (tally : ∀ world, base.Advances world → world.Booked → ∃ interludes,
      Tally host among [] interludes world (action.after world)) :
    (Pass.act action).IsTallied host among base := by
  exact Keeps.act fun _ world => .of_tally (tally world)

/-- A computation that leaves listeners, revokers and views as they are. -/
theorem quiet {action : Act σ α}
    (run : ∀ world, Run world (action.after world))
    (same : ∀ world : World σ, world.SameSetup (action.after world))
    (reactions : ∀ world, (action.after world).reactions = world.reactions)
    (eventActions : ∀ world,
      (action.after world).eventActions = world.eventActions)
    (emitters : ∀ world, (action.after world).emitters = world.emitters)
    (revokers : ∀ world, (action.after world).revokers = world.revokers) :
    (Pass.act action).IsTallied host among base := by
  refine act fun world _ _ => ?_
  exact ⟨[], .quiet (run world) (same world) (reactions world) (eventActions
    world) (emitters world) (revokers world)⟩

theorem modifyDom (change : Dom → Dom) :
    (Pass.act (LiveTemplate.modifyDom change : Act σ Unit)).IsTallied host
      among base := by
  exact quiet (fun _ => .aside rfl rfl rfl (.of_templates rfl))
    (fun _ => ⟨fun _ => rfl, fun _ => rfl, fun _ => rfl⟩)
    (fun _ => rfl) (fun _ => rfl) (fun _ => rfl) (fun _ => rfl)

theorem createNode (kind : NodeKind) :
    (Pass.act (LiveTemplate.createNode kind : Act σ NodeId)).IsTallied host
      among base := by
  exact quiet (fun _ => .aside rfl rfl rfl (.of_templates rfl))
    (fun _ => ⟨fun _ => rfl, fun _ => rfl, fun _ => rfl⟩)
    (fun _ => rfl) (fun _ => rfl) (fun _ => rfl) (fun _ => rfl)

/-- Values without side effects. -/
theorem pureAct {action : Act σ α}
    (unchanged : ∀ world, action.after world = world) :
    (Pass.act action).IsTallied host among base := by
  exact act fun world _ _ => ⟨[], by rw [unchanged]; exact .refl world⟩

theorem bind {pass : Pass σ α} {next : α → Pass σ β}
    (first : pass.IsTallied host among base)
    (later : ∀ a, (next a).IsTallied host among base) :
    (pass >>= next).IsTallied host among base :=
  Keeps.bind Tallied.refl Tallied.trans first later

theorem look {next : World σ → Pass σ α}
    (later : ∀ world, base.Advances world →
      (next world).IsTallied host among base) :
    (Pass.act get >>= next).IsTallied host among base := by
  intro record world advances
  exact later world advances record world advances

theorem keeping {refs : List Ref} {pass : Pass σ α}
    (tallied : pass.IsTallied host among base) :
    (Pass.keeping refs pass).IsTallied host among base := by
  exact @Keeps.keeping σ α (Tallied host among base) Tallied.trans
    Tallied.holding refs pass tallied

theorem forM {items : List α} {body : α → Pass σ Unit}
    (tallied : ∀ item ∈ items, (body item).IsTallied host among base) :
    (items.forM body).IsTallied host among base :=
  Keeps.forM Tallied.refl Tallied.trans tallied

theorem noteGroup {action : Act σ (List RevokerId)}
    (tally : ∀ world : World σ, world.Booked →
      Tally host among (action.result world) [] world (action.after world)) :
    Pass.IsTallied host among base (do
      Pass.noteGroup (← Pass.act action)) := by
  refine Keeps.act_note fun _ world _ booked => ?_
  refine ⟨action.result world, [], ?_, tally world booked⟩
  intro _
  exact Record.mem_revokers_noteGroup

end Pass.IsTallied

theorem SyncGroup.tally_bind {group : SyncGroup}
    (isPure : ∀ binding ∈ inputsAny group.chunks, binding.IsPure host)
    {world : World σ} (booked : world.Booked) :
    Tally host among ((group.bind host).result world) [] world
      ((group.bind host).after world) := by
  have shown : Tally host among [] [] world
      ((group.sync host).after world) := by
    unfold sync
    rw [Act.after_bind, after_evaluate group.slot.node world isPure]
    exact .quiet (.aside rfl rfl rfl (.of_templates rfl))
      ⟨fun _ => rfl, fun _ => rfl, fun _ => rfl⟩ rfl rfl rfl rfl
  exact shown.trans booked (.mapM (fun _ _ booked =>
    Emitter.tally_listenToObservable _ _ _ _ booked) (shown.owned booked))

namespace Blueprint

variable {blueprint : Blueprint}

theorem tallied_renderSlot {slot : Slot} {chunks : List Chunk}
    (isPure : Schema.IsPure host chunks) :
    (renderSlot host slot chunks).IsTallied host among base := by
  unfold renderSlot
  split
  · exact .noteGroup fun _ booked => SyncGroup.tally_bind isPure.inputs booked
  · refine .bind (.pureAct fun world =>
      after_evaluate slot.node world isPure.inputs) fun value => ?_
    split
    · exact .modifyDom _
    · exact .pure ()

private theorem tallied_renderEntry {node : NodeId} {name : String}
    {schema : Schema}
    (isPure : Schema.IsPure host schema) :
    (renderEntry host blueprint node false name schema).IsTallied host among
      base := by
  unfold renderEntry
  cases found : entryStyles? name schema with
  | none =>
      exact .look fun world _ => tallied_renderSlot (isPure_kept isPure _ _ _)
  | some outcome =>
      cases outcome with
      | error fault => exact .throw _
      | ok styles =>
          exact .forM fun style member => tallied_renderSlot
            (isPure.styleMap (eq_style_of_entryStyles? found).2 member).flatten

private theorem tallied_renderListeners {node : NodeId} :
    (renderListeners blueprint node : Pass σ Unit).IsTallied host among
      base := by
  refine .forM fun (key, bindings) _ => .bind (.ofExcept _) fun parsed => ?_
  exact .noteGroup fun _ booked => .mapM (fun _ _ booked =>
    Emitter.tally_listenToNode _ _ _ _ booked) booked

private theorem tallied_renderText (isPure : blueprint.IsPure host) :
    (renderText host blueprint none).IsTallied host among base := by
  refine .bind (.createNode _) fun node => .bind (.keeping ?_) fun _ =>
    .pure node
  split
  · exact .noteGroup fun _ booked =>
      SyncGroup.tally_bind isPure.flatText.inputs booked
  · exact .bind (.pureAct fun world => after_plainText isPure.flatText node world)
      fun _ => .modifyDom _

end Blueprint

/-- A member whose callbacks are pure and that is one of some views if it is a
view. -/
structure Member.Eligible (host : Host σ) (among : ViewId → Prop)
    (world : World σ) (member : Member) : Prop where
  isPure : ∀ t, member = .template t → (world.template t).blueprint.IsPure host
  among : ∀ v, member = .view v → among v

/-- A member and all it is composed of are eligible. -/
def Member.IsEligible (host : Host σ) (among : ViewId → Prop)
    (world : World σ) (member : Member) : Prop :=
  ∀ place inner, Stands world member place inner →
    inner.Eligible host among world

theorem Member.IsEligible.advance {world later : World σ} {member : Member}
    (eligible : member.IsEligible host among world)
    (advances : world.Advances later) :
    member.IsEligible host among later := by
  intro place inner stands
  obtain ⟨isPure, named⟩ := eligible place inner (advances.stands stands)
  refine ⟨fun t found => ?_, named⟩
  rw [advances.blueprints]
  exact isPure t found

theorem Member.IsEligible.child {world : World σ} {t : TemplateId}
    (eligible : Member.IsEligible host among world (.template t))
    (text : (world.template t).blueprint.text = none) {member : Member}
    (inside : member ∈ (world.template t).blueprint.children) :
    member.IsEligible host among world := by
  intro place inner stands
  obtain ⟨index, found⟩ := List.mem_iff_getElem?.mp inside
  exact eligible _ inner (.template text found stands)

/-- Mounting a view leaves what the views rendered meanwhile registered. -/
def Mounter.Tallies (host : Host σ) (among : ViewId → Prop)
    (mounter : Mounter σ) : Prop :=
  ∀ v (world : World σ), Member.IsEligible host among world (.view v) →
    world.Booked → ∃ interludes,
      Tally host among [] interludes world ((mounter v).after world)

/-- Rendering a nested template puts the revokers of what it registers on
record. -/
def Nested.Tallies (host : Host σ) (among : ViewId → Prop)
    (nested : Nested σ) : Prop :=
  ∀ t path (world : World σ),
    Member.IsEligible host among world (.template t) → world.Booked →
      ∃ interludes, Tally host among
        ((nested t none path).result world).2.revokers interludes world
        ((nested t none path).after world)

theorem Pass.tallied_nest {nested : Nested σ}
    (tallies : nested.Tallies host among) {t : TemplateId}
    (eligible : Member.IsEligible host among base (.template t))
    (path : DefinitionPath) :
    (Pass.nest nested t none path).IsTallied host among base := by
  have recorded : Pass.IsTallied host among base (do
      let result ← Pass.act (nested t none path)
      Pass.note fun record =>
        { record with children := record.children ++ [result.2] }) := by
    refine Keeps.act_note fun record world advances booked => ?_
    obtain ⟨interludes, tally⟩ :=
      tallies t path world (eligible.advance advances) booked
    exact ⟨_, interludes, fun _ => Record.mem_revokers_noteChild, tally⟩
  intro record world
  have tallied := recorded record world
  unfold Pass.nest
  rw [start_bind, Act.after_bind, Act.result_bind] at tallied ⊢
  exact tallied

namespace Mount

theorem tallied_push (mount : Mount) (child : NodeId) :
    (Pass.act (mount.push child : Act σ Mount)).IsTallied host among base := by
  exact .quiet (fun _ => .aside rfl rfl rfl (.of_templates rfl))
    (fun _ => ⟨fun _ => rfl, fun _ => rfl, fun _ => rfl⟩)
    (fun _ => rfl) (fun _ => rfl) (fun _ => rfl) (fun _ => rfl)

theorem tallied_finish (mount : Mount) (parent : NodeId) :
    (Pass.act (mount.finish parent : Act σ Unit)).IsTallied host among
      base := by
  refine .act fun world _ booked => ⟨[], ?_⟩
  have appended : Tally host among [] [] world
      { world with dom := world.dom.appendChild parent mount.fragment } :=
    .quiet (.aside rfl rfl rfl (.of_templates rfl))
      ⟨fun _ => rfl, fun _ => rfl, fun _ => rfl⟩ rfl rfl rfl rfl
  refine appended.trans booked (.forM (fun entry world => ?_)
    (appended.owned booked))
  exact .quiet (.aside rfl rfl rfl (.of_templates rfl))
    (Collection.sameSetup_setParent entry.1 parent entry.2 world)
    rfl rfl rfl rfl

end Mount

namespace Blueprint

variable {blueprint : Blueprint} {mounter : Mounter σ} {nested : Nested σ}

theorem tallied_mountViews (mounts : mounter.Tallies host among)
    (mount : Mount) {views : List ViewId}
    (eligible : ∀ v ∈ views, Member.IsEligible host among base (.view v)) :
    (mountViews mounter mount views).IsTallied host among base := by
  induction views generalizing mount with
  | nil => exact .pure mount
  | cons v rest ih =>
      rw [mountViews]
      refine .bind (.act fun world advances booked => ?_) fun _ =>
        .bind (.ofExcept _) fun _ => .bind (mount.tallied_push _) fun later =>
          .keeping (ih later fun other member =>
            eligible other (.tail _ member))
      exact mounts v world ((eligible v (.head _)).advance advances) booked

private theorem tallied_mountMember (mounts : mounter.Tallies host among)
    (tallies : nested.Tallies host among) (path : DefinitionPath)
    (mount : Mount) {member : Member}
    (eligible : member.IsEligible host among base) :
    (mountMember mounter nested path mount member).IsTallied host among
      base := by
  cases member with
  | node n => exact mount.tallied_push n
  | view v =>
      refine tallied_mountViews mounts mount fun w inside => ?_
      rw [List.mem_singleton.mp inside]
      exact eligible
  | template t =>
      exact .bind (Pass.tallied_nest tallies eligible path) fun _ =>
        mount.tallied_push _
  | collection c =>
      refine .look fun world advances => .bind (.keeping
        (tallied_mountViews mounts mount fun v inside => ?_))
          fun _ => .pure _
      rw [advances.members] at inside
      obtain ⟨index, found⟩ := List.mem_iff_getElem?.mp inside
      exact fun place inner stands =>
        eligible _ inner (.collection found stands)

private theorem tallied_mountMembers (mounts : mounter.Tallies host among)
    (tallies : nested.Tallies host among) (path : DefinitionPath)
    (index : Nat) (mount : Mount) {members : List Member}
    (eligible : ∀ member ∈ members, member.IsEligible host among base) :
    (mountMembers mounter nested path index mount members).IsTallied host
      among base := by
  induction members generalizing index mount with
  | nil => exact .pure mount
  | cons member rest ih =>
      rw [mountMembers]
      exact .bind (tallied_mountMember mounts tallies _ mount
        (eligible member (.head _))) fun later =>
          .keeping (ih _ later fun other inside =>
            eligible other (.tail _ inside))

private theorem tallied_renderElement (mounts : mounter.Tallies host among)
    (tallies : nested.Tallies host among) (path : DefinitionPath)
    (isPure : blueprint.IsPure host)
    (eligible : ∀ member ∈ blueprint.children,
      member.IsEligible host among base) :
    (blueprint.renderElement host mounter nested none path).IsTallied host
      among base := by
  have filled (node : NodeId) : Pass.IsTallied host among base (do
      Pass.keeping [.node node] do
        blueprint.renderAttributes host node false
        renderMembers mounter nested blueprint.children node path
        blueprint.renderListeners node
      return node) := by
    refine .bind (.keeping (.bind (.forM fun entry member => ?_) fun _ =>
      .bind ?_ fun _ => tallied_renderListeners)) fun _ => .pure node
    · exact tallied_renderEntry (isPure.attributes entry member)
    · unfold renderMembers
      split
      · exact .bind (.createNode _) fun fragment => .keeping
          (.bind (tallied_mountMembers mounts tallies path 0 _ eligible)
            fun mount => mount.tallied_finish node)
      · exact .pure ()
  unfold renderElement
  cases blueprint.tag with
  | some tag => exact .bind (.createNode _) fun node => filled node
  | none => exact .bind (.throw _) fun node => filled node

end Blueprint

private theorem Revoker.sameSetup_revoke (r : RevokerId) (world : World σ) :
    world.SameSetup ((revoke r).after world) := by
  rw [after_revoke]
  cases world.subscription? r with
  | none => exact .refl world
  | some subscription =>
      obtain ⟨source, listener⟩ := subscription
      cases source <;> exact ⟨fun _ => rfl, fun _ => rfl, fun _ => rfl⟩

namespace Record

mutual

theorem sameSetup_revokeAll (record : Record) (world : World σ) :
    world.SameSetup ((revokeAll record : Act σ Unit).after world) := by
  obtain ⟨text, attributes, bindings, children⟩ := record
  rw [revokeAll, Act.after_bind]
  have own := Act.after_forM World.SameSetup.refl World.SameSetup.trans
    (fun group (_ : group ∈ bindings) => Act.after_forM
      World.SameSetup.refl World.SameSetup.trans
      fun r (_ : r ∈ group) => Revoker.sameSetup_revoke r) world
  exact own.trans (sameSetup_revokeEach children _)

theorem sameSetup_revokeEach (records : List Record) (world : World σ) :
    world.SameSetup ((revokeEach records : Act σ Unit).after world) := by
  cases records with
  | nil =>
      rw [revokeEach]
      exact .refl world
  | cons record rest =>
      rw [revokeEach, Act.after_bind]
      exact (sameSetup_revokeAll record world).trans
        (sameSetup_revokeEach rest _)

end

end Record

theorem Pass.IsTallied.tally {pass : Pass σ α} {world : World σ}
    (tallied : pass.IsTallied host among world) (booked : world.Booked) :
    ∃ interludes, Tally host among
      ((pass.start .empty).result world).2.revokers interludes world
      ((pass.start .empty).after world) := by
  obtain ⟨revokers, interludes, members, tally⟩ :=
    tallied .empty world (.refl world) booked
  refine ⟨interludes, tally.congr fun r => (members r).trans ?_⟩
  simp [Record.empty, Record.revokers, Record.revokersOf]

/-- What is held meanwhile does not count. -/
theorem Tally.keeping {frame : Frame} {action : Act σ α} {world : World σ}
    {revokers : List RevokerId} {interludes : List (Interlude σ)}
    (booked : world.Booked)
    (tally : Tally host among revokers interludes
      (world.holding (frame :: world.frames))
      (action.after (world.holding (frame :: world.frames)))) :
    Tally host among revokers interludes world
      ((LiveTemplate.keeping frame action).after world) := by
  have held (frames : List Frame) (world : World σ) :
      Tally host among [] [] world (world.holding frames) :=
    .quiet (.holding world frames) ((World.SameSetup.refl world).held frames)
      rfl rfl rfl rfl
  have whole := ((held (frame :: world.frames) world).trans booked tally).trans
    booked (held world.frames _)
  rw [List.append_nil, List.append_nil] at whole
  exact whole

namespace Template

variable {mounter : Mounter σ} {nested : Nested σ}

theorem tallied_markRendered (t : TemplateId) :
    (Pass.act (update t fun template =>
      { template with rendered := true } : Act σ Unit)).IsTallied host among
        base := by
  refine .act fun world _ booked => ⟨[], .quiet ?_ ?_ rfl rfl rfl rfl⟩
  · have runs : (update t fun template =>
        { template with rendered := true } : Act σ Unit).Runs :=
      runs_markRendered t
    exact (runs world booked.ordered).run
  · exact sameSetup_markRendered t world

theorem tallied_passWith (mounts : mounter.Tallies host among)
    (tallies : nested.Tallies host among) (t : TemplateId)
    (path : DefinitionPath) {blueprint : Blueprint}
    (isPure : blueprint.IsPure host)
    (eligible : blueprint.text = none → ∀ member ∈ blueprint.children,
      member.IsEligible host among base) :
    (passWith host mounter nested t blueprint none path).IsTallied host among
      base := by
  unfold passWith
  cases text : blueprint.text with
  | some schema =>
      exact .bind (Blueprint.tallied_renderText isPure) fun node =>
        .bind (tallied_markRendered t) fun _ => .pure node
  | none =>
      exact .bind (Blueprint.tallied_renderElement mounts tallies path isPure
        (eligible text)) fun node =>
          .bind (tallied_markRendered t) fun _ => .pure node

theorem tallies_passWithin (mounts : mounter.Tallies host among) (fuel : Nat) :
    Nested.Tallies host among (passWithin host mounter fuel) := by
  induction fuel with
  | zero => exact fun _ _ world _ _ => ⟨[], .refl world⟩
  | succ fuel ih =>
      intro t path world eligible booked
      have begun := start_pass host mounter (passWithin host mounter fuel) t
        none path .empty world
      unfold Act.result Act.after
      change ∃ interludes, Tally host among
        ((pass host mounter (passWithin host mounter fuel) t none path).start
          .empty world).1.2.revokers interludes world
        ((pass host mounter (passWithin host mounter fuel) t none path).start
          .empty world).2
      rw [begun]
      split
      · exact ⟨[], .refl world⟩
      · have tallied := tallied_passWith mounts ih t path
          ((eligible [] _ (.here _)).isPure t rfl) fun text _ inside =>
            eligible.child text inside
        exact tallied.tally booked

/-- The record of the pass can give up what the pass registered. -/
theorem tally_renderPass (mounts : mounter.Tallies host among)
    {t : TemplateId} {world : World σ}
    (eligible : Member.IsEligible host among world (.template t))
    (booked : world.Booked) :
    ∃ interludes, Tally host among
      ((renderPass host mounter t).result world).2.revokers interludes world
      ((renderPass host mounter t).after world) := by
  have entered : world.SameSetup
      (world.holding (.refs [.template t] :: world.frames)) :=
    (World.SameSetup.refl world).held _
  obtain ⟨interludes, passed⟩ := tallies_passWithin mounts (t.index + 1) t []
    _ (eligible.advance entered.advances)
    (booked.of_same (.holding world _) rfl rfl)
  exact ⟨interludes, passed.keeping booked⟩

/-- Rendering a template registers what its record can give up, and nothing but
what views registered stays when it fails. -/
theorem tally_renderWith (mounts : mounter.Tallies host among)
    {t : TemplateId} {world : World σ}
    (eligible : Member.IsEligible host among world (.template t))
    (booked : world.Booked) :
    ∃ revokers interludes,
      Tally host among revokers interludes world
        ((renderWith host mounter t).after world) ∧
      ∀ error, (renderWith host mounter t).result world = .error error →
        revokers = [] := by
  have runs := run_renderWith host mounter t world
  unfold Act.result Act.after
  rw [runs]
  split
  · exact ⟨[], [], .refl world, fun _ _ => rfl⟩
  · cases checkFresh world t with
    | error error => exact ⟨[], [], .refl world, fun _ _ => rfl⟩
    | ok =>
        obtain ⟨interludes, passed⟩ := tally_renderPass mounts eligible booked
        change ∃ revokers interludes,
          Tally host among revokers interludes world
            ((release ((renderPass host mounter t).result world)).after
              ((renderPass host mounter t).after world)) ∧
          ∀ error, (release ((renderPass host mounter t).result world)).result
            ((renderPass host mounter t).after world) = .error error →
              revokers = []
        generalize (renderPass host mounter t).result world = ended at passed ⊢
        obtain ⟨error | node, record⟩ := ended
        · have ordered := (passed.owned booked).ordered
          exact ⟨[], interludes, passed.severed booked
            (Record.runs_revokeAll record _ ordered).run
            (Record.sameSetup_revokeAll record _)
            (Record.severed_revokeAll record _), fun _ _ => rfl⟩
        · exact ⟨record.revokers, interludes, passed, fun _ failed => by
            cases failed⟩

end Template

end LiveTemplate
