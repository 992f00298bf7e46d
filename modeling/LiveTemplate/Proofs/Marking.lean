import LiveTemplate.Proofs.Composition
import LiveTemplate.Proofs.Freshness
import LiveTemplate.Proofs.Grafting
import LiveTemplate.View

/-!
# Passes that render fresh trees

A template that passes the checks is rendered to the end when each view in it
has been rendered before.  `World.Marks` is what such a pass does to templates:
those in the tree are marked as rendered, and nothing else about templates,
views and the members of collections changes.
-/

namespace LiveTemplate

variable {σ : Type} {host : Host σ}

/-- Whatever was rendered meanwhile is among the marked templates. -/
structure World.Marks (marked : TemplateId → Prop) (world later : World σ) :
    Prop where
  setup : world.SameSetup later
  rendered : ∀ t, ¬marked t →
    (later.template t).rendered = (world.template t).rendered

namespace World.Marks

variable {marked : TemplateId → Prop} {world between later : World σ}

theorem of_same (templates : later.templates = world.templates)
    (views : later.views = world.views)
    (collections : later.collections = world.collections) :
    Marks marked world later where
  setup := by
    refine ⟨fun t => ?_, fun c => ?_, fun v => ?_⟩
    · simp only [template, templates]
    · simp only [collection, collections]
    · simp only [view, views]
  rendered t _ := by
    simp only [template, templates]

theorem refl (world : World σ) : Marks marked world world := by
  exact .of_same rfl rfl rfl

theorem trans (first : Marks marked world between)
    (second : Marks marked between later) : Marks marked world later where
  setup := first.setup.trans second.setup
  rendered t other :=
    (second.rendered t other).trans (first.rendered t other)

theorem mono {wider : TemplateId → Prop} (marks : Marks marked world later)
    (implies : ∀ t, marked t → wider t) : Marks wider world later where
  setup := marks.setup
  rendered t other := marks.rendered t fun inside => other (implies t inside)

/-- What is held meanwhile makes no difference. -/
theorem release {frames : List Frame}
    (marks : Marks marked (world.holding frames) later)
    (restored : List Frame) : Marks marked world (later.holding restored) := by
  exact ⟨⟨marks.setup.blueprints, marks.setup.members, marks.setup.views⟩,
    marks.rendered⟩

theorem keeping {α : Type} {refs : List Ref} {pass : Pass σ α}
    {record : Record}
    (inner : pass.Yields record (world.holding (.refs refs :: world.frames))
      fun _ _ later =>
        Marks marked (world.holding (.refs refs :: world.frames)) later) :
    (Pass.keeping refs pass).Yields record world fun _ _ later =>
      Marks marked world later := by
  exact .keeping (inner.weaken fun _ _ _ marks => marks.release world.frames)

theorem before {α : Type} {pass : Pass σ α} {record : Record}
    (quiet : Marks (fun _ => False) world between)
    (inner : pass.Yields record between fun _ _ later =>
      Marks marked between later) :
    pass.Yields record between fun _ _ later => Marks marked world later := by
  refine inner.weaken fun _ _ _ marks => ?_
  exact (quiet.mono fun _ impossible => impossible.elim).trans marks

end World.Marks

/-- A pass that succeeds wherever it starts and renders nothing. -/
def Pass.Succeeds {α : Type} (pass : Pass σ α) : Prop :=
  ∀ record (world : World σ), pass.Yields record world fun _ _ later =>
    world.Marks (fun _ => False) later

namespace Pass.Succeeds

variable {α β : Type}

theorem pure (a : α) : (Pure.pure a : Pass σ α).Succeeds := by
  intro _ world
  exact .pure (.refl world)

theorem act {action : Act σ α}
    (marks : ∀ world : World σ,
      world.Marks (fun _ => False) (action.after world)) :
    (Pass.act action).Succeeds := by
  intro _ world
  exact .act (marks world)

theorem note (change : Record → Record) :
    (Pass.note change : Pass σ Unit).Succeeds := by
  exact fun _ (world : World σ) => .note (.refl world)

theorem ofExcept (a : α) : (Pass.ofExcept (.ok a) : Pass σ α).Succeeds := by
  exact fun _ (world : World σ) => .ofExcept (.refl world)

theorem bind {pass : Pass σ α} {next : α → Pass σ β} (first : pass.Succeeds)
    (later : ∀ a, (next a).Succeeds) : (pass >>= next).Succeeds := by
  intro record world
  refine (first record world).bind fun a recorded between marks => ?_
  exact (later a recorded between).weaken fun _ _ _ others => marks.trans others

theorem keeping {refs : List Ref} {pass : Pass σ α} (inner : pass.Succeeds) :
    (Pass.keeping refs pass).Succeeds := by
  intro record _
  exact World.Marks.keeping (inner record _)

theorem forM {items : List α} {body : α → Pass σ Unit}
    (each : ∀ item ∈ items, (body item).Succeeds) :
    (items.forM body).Succeeds := by
  induction items with
  | nil => exact pure ()
  | cons item rest ih =>
      exact bind (each item (.head _)) fun _ =>
        ih fun other member => each other (.tail _ member)

end Pass.Succeeds

theorem SyncGroup.marks_bind {group : SyncGroup}
    (isPure : ∀ binding ∈ inputsAny group.chunks, binding.IsPure host)
    (world : World σ) :
    world.Marks (fun _ => False) ((group.bind host).after world) := by
  unfold SyncGroup.bind SyncGroup.sync
  rw [Act.after_bind, Act.after_bind,
    after_evaluate group.slot.node world isPure, Act.after_modifyDom]
  have shown : world.Marks (fun _ => False)
      { world with
        dom := group.slot.display world.dom
          ((evaluate host group.slot.node group.chunks).result world) } :=
    .of_same rfl rfl rfl
  exact shown.trans (Act.after_mapM .refl .trans
    (fun _ _ _ => .of_same rfl rfl rfl) _)

namespace Blueprint

variable {blueprint : Blueprint}

theorem succeeds_renderSlot {slot : Slot} {chunks : List Chunk}
    (isPure : Schema.IsPure host chunks) :
    (renderSlot host slot chunks).Succeeds := by
  unfold renderSlot
  split
  · exact .bind (.act (SyncGroup.marks_bind isPure.inputs)) fun _ => .note _
  · refine .bind (.act fun world => ?_) fun value => ?_
    · rw [after_evaluate slot.node world isPure.inputs]
      exact .refl world
    · split
      · exact .act fun _ => .of_same rfl rfl rfl
      · exact .pure ()

private theorem succeeds_renderEntry {node : NodeId} {name : String}
    {schema : Schema}
    (sound : name = "style" → schema.IsStyleOrPlain)
    (isPure : Schema.IsPure host schema) :
    (renderEntry host blueprint node false name schema).Succeeds := by
  unfold renderEntry
  cases found : entryStyles? name schema with
  | none =>
      exact .bind (.act .refl) fun world =>
        succeeds_renderSlot (isPure_kept isPure _ _ _)
  | some outcome =>
      obtain ⟨style, map⟩ := eq_style_of_entryStyles? found
      cases outcome with
      | error fault =>
          exact absurd (sound style) (styleMap?_fault_iff.mp ⟨fault, map⟩)
      | ok styles =>
          exact .forM fun style member =>
            succeeds_renderSlot (isPure.styleMap map member).flatten

private theorem succeeds_renderAttributes {node : NodeId}
    (renderable : blueprint.IsRenderable) (isPure : blueprint.IsPure host) :
    (renderAttributes host blueprint node false).Succeeds := by
  refine .forM fun entry member => ?_
  exact succeeds_renderEntry (renderable.styles entry member)
    (isPure.attributes entry member)

private theorem succeeds_renderListeners {node : NodeId}
    (renderable : blueprint.IsRenderable) :
    (renderListeners blueprint node : Pass σ Unit).Succeeds := by
  refine .forM ?_
  rintro ⟨key, bindings⟩ member
  obtain ⟨parsed, accepted⟩ :=
    parseListenerKey_ok_iff.mpr (renderable.listeners _ member)
  dsimp only
  rw [accepted]
  refine .bind (.ofExcept _) fun _ => .bind (.act fun world => ?_)
    fun _ => .note _
  exact Act.after_mapM World.Marks.refl World.Marks.trans
    (fun _ _ _ => .of_same rfl rfl rfl) world

private theorem succeeds_renderText (isPure : blueprint.IsPure host) :
    (renderText host blueprint none).Succeeds := by
  refine .bind (.act fun _ => .of_same rfl rfl rfl) fun node =>
    .bind (.keeping ?_) fun _ => .pure node
  split
  · exact .bind (.act (SyncGroup.marks_bind isPure.flatText.inputs))
      fun _ => .note _
  · refine .bind (.act fun world => ?_) fun _ =>
      .act fun _ => .of_same rfl rfl rfl
    rw [after_plainText isPure.flatText]
    exact .refl world

end Blueprint

/-- A member whose callbacks are pure and that has been rendered if it is a
view. -/
structure Member.Settled (host : Host σ) (world : World σ) (member : Member) :
    Prop where
  isPure : ∀ t, member = .template t → (world.template t).blueprint.IsPure host
  mounted : ∀ v, member = .view v → (world.view v).rendered = true ∧
    ∃ element, (world.view v).element = some element

/-- A member and all it is composed of are settled. -/
def Member.IsSettled (host : Host σ) (world : World σ) (member : Member) :
    Prop :=
  ∀ place inner, Stands world member place inner → inner.Settled host world

theorem Member.IsSettled.of_setup {world later : World σ} {member : Member}
    (settled : member.IsSettled host world) (same : world.SameSetup later) :
    member.IsSettled host later := by
  intro place inner stands
  obtain ⟨isPure, mounted⟩ := settled place inner (same.advances.stands stands)
  refine ⟨fun t found => ?_, fun v found => ?_⟩
  · rw [same.blueprints]
    exact isPure t found
  · rw [same.views]
    exact mounted v found

/-- Views that have been rendered are mounted as they are. -/
def Mounter.Reuses (mounter : Mounter σ) : Prop :=
  ∀ v (world : World σ) element, (world.view v).rendered = true →
    (world.view v).element = some element →
    mounter v world = (.ok element, world)

theorem View.reuses_mountWith
    (render : ViewId → Act σ (Except TemplateError Unit)) :
    Mounter.Reuses (mountWith render) := by
  intro v world element rendered found
  rw [run_mountWith, if_pos rendered, run_settleMount_ok, found]

private theorem Template.marks_markRendered (t : TemplateId)
    {marked : TemplateId → Prop} (among : marked t) (world : World σ) :
    world.Marks marked ((update t fun template =>
      { template with rendered := true }).after world) := by
  refine ⟨sameSetup_markRendered t world, fun other unmarked => ?_⟩
  have differs : other ≠ t := fun same => unmarked (same ▸ among)
  rw [template_update_of_ne _ _ differs]

/-- The nested template is rendered, whatever was marked by then. -/
def Nested.Builds (nested : Nested σ) (world : World σ) (t : TemplateId)
    (templates : List TemplateId) : Prop :=
  ∀ later path, world.SameSetup later →
    (∀ inner ∈ templates, (later.template inner).rendered = false) →
    ∃ node record, (nested t none path).result later = (.ok node, record) ∧
      later.Marks (· ∈ templates) ((nested t none path).after later)

theorem Nested.Builds.of_setup {nested : Nested σ} {world between : World σ}
    {t : TemplateId} {templates : List TemplateId}
    (builds : nested.Builds world t templates)
    (same : world.SameSetup between) : nested.Builds between t templates := by
  intro later path setup
  exact builds later path (same.trans setup)

theorem Mount.marks_push (mount : Mount) (child : NodeId) (world : World σ) :
    world.Marks (fun _ => False)
      ((mount.push child : Act σ Mount).after world) := by
  exact .of_same rfl rfl rfl

theorem Mount.marks_finish (mount : Mount) (parent : NodeId)
    (world : World σ) :
    world.Marks (fun _ => False)
      ((mount.finish parent : Act σ Unit).after world) := by
  have appended : world.Marks (fun _ => False)
      { world with dom := world.dom.appendChild parent mount.fragment } :=
    .of_same rfl rfl rfl
  exact appended.trans (Act.after_forM World.Marks.refl World.Marks.trans
    (fun entry _ world =>
      ⟨Collection.sameSetup_setParent entry.1 parent entry.2 world,
        fun _ _ => rfl⟩) _)

namespace Blueprint

variable {mounter : Mounter σ} {nested : Nested σ} {record : Record}
  {world : World σ} {path : DefinitionPath} {mount : Mount}

theorem yields_mountViews (reuses : mounter.Reuses) {views : List ViewId}
    (mounted : ∀ v ∈ views, (world.view v).rendered = true ∧
      ∃ element, (world.view v).element = some element) :
    (mountViews mounter mount views).Yields record world fun _ _ later =>
      world.Marks (fun _ => False) later := by
  induction views generalizing mount record world with
  | nil => exact .pure (.refl world)
  | cons v rest ih =>
      obtain ⟨rendered, element, found⟩ := mounted v (.head _)
      have reused := reuses v world element rendered found
      rw [mountViews]
      refine .act_bind ?_
      rw [Act.result, Act.after, reused]
      have pushed := mount.marks_push element world
      refine .ofExcept_bind (.act_bind ((World.Marks.keeping (ih ?_)).weaken
        fun _ _ _ marks => pushed.trans marks))
      exact fun other member => mounted other (.tail _ member)

theorem yields_mountMember (reuses : mounter.Reuses) {member : Member}
    (settled : member.IsSettled host world) (other : member.template? = none) :
    (mountMember mounter nested path mount member).Yields record world
      fun _ _ later => world.Marks (fun _ => False) later := by
  cases member with
  | template t => cases other
  | node n => exact .act (mount.marks_push n world)
  | view v =>
      refine yields_mountViews reuses fun w inside => ?_
      rw [List.mem_singleton.mp inside]
      exact (settled [] _ (.here _)).mounted v rfl
  | collection c =>
      refine .act_bind ((World.Marks.keeping ?_).bind
        fun _ _ _ marks => .pure marks)
      refine yields_mountViews reuses fun v inside => ?_
      obtain ⟨index, found⟩ := List.mem_iff_getElem?.mp inside
      exact (settled [index] _ (.collection found (.here _))).mounted v rfl

private theorem yields_mountMembers (reuses : mounter.Reuses) {index : Nat}
    {members : List Member} {parts : List (List TemplateId)}
    (builds : List.Forall₂ (nested.Builds world)
      (members.filterMap Member.template?) parts)
    (nodup : parts.flatten.Nodup)
    (unrendered : ∀ t ∈ parts.flatten, (world.template t).rendered = false)
    (settled : ∀ member ∈ members, member.IsSettled host world) :
    (mountMembers mounter nested path index mount members).Yields record world
      fun _ _ later => world.Marks (· ∈ parts.flatten) later := by
  induction members generalizing index mount record world parts with
  | nil => exact .pure (.refl world)
  | cons member rest ih =>
      have restSettled : ∀ other ∈ rest, other.IsSettled host world :=
        fun other inside => settled other (.tail _ inside)
      rw [mountMembers]
      cases kind : member.template? with
      | none =>
          rw [List.filterMap_cons, kind] at builds
          refine (yields_mountMember reuses (settled member (.head _))
            kind).bind fun mount _ between marks => ?_
          have setup := marks.setup.held (.refs mount.anchors :: between.frames)
          refine marks.before (World.Marks.keeping (ih ?_ nodup ?_ ?_))
          · exact builds.imp fun _ _ each => each.of_setup setup
          · intro t inside
            exact (marks.rendered t not_false).trans (unrendered t inside)
          · exact fun other inside => (restSettled other inside).of_setup setup
      | some t =>
          have same : member = .template t := by
            cases member with
            | template other =>
                cases kind
                rfl
            | _ => cases kind
          subst same
          rw [List.filterMap_cons, kind] at builds
          cases builds with
          | @cons _ part _ parts first others =>
              rw [List.flatten_cons, List.nodup_append] at nodup
              obtain ⟨_, restNodup, apart⟩ := nodup
              obtain ⟨node, child, outcome, marks⟩ :=
                first world (path ++ [index]) (.refl world) fun inner inside =>
                  unrendered inner
                    (List.mem_flatten.mpr ⟨part, .head _, inside⟩)
              rw [mountMember, bind_assoc]
              refine .nest_bind outcome (.act_bind ?_)
              generalize (nested t none (path ++ [index])).after world =
                between at marks
              have pushed := mount.marks_push node between
              have setup := (marks.setup.trans pushed.setup).held
                (.refs ((mount.push node).result between).anchors ::
                  ((mount.push node).after between).frames)
              refine (World.Marks.keeping (ih ?_ restNodup ?_ ?_)).weaken
                fun _ _ _ later => ?_
              · exact others.imp fun _ _ each => each.of_setup setup
              · intro inner inside
                -- No template occurs twice, so none of the rest has been marked.
                have unmarked : inner ∉ part := fun before =>
                  apart inner before inner inside rfl
                exact ((pushed.rendered inner not_false).trans
                  (marks.rendered inner unmarked)).trans (unrendered inner
                    (List.mem_append_right _ inside))
              · exact fun other inside =>
                  (restSettled other inside).of_setup setup
              · rw [List.flatten_cons]
                refine (marks.mono ?_).trans ((pushed.mono ?_).trans
                  (later.mono ?_))
                · exact fun _ inside => List.mem_append_left _ inside
                · exact fun _ impossible => impossible.elim
                · exact fun _ inside => List.mem_append_right _ inside

/-- What a fresh element is made from can be rendered. -/
structure Builds (host : Host σ) (nested : Nested σ) (world : World σ)
    (blueprint : Blueprint) (parts : List (List TemplateId)) : Prop where
  renderable : blueprint.IsRenderable
  isPure : blueprint.IsPure host
  nested : List.Forall₂ (nested.Builds world) blueprint.nested parts
  nodup : parts.flatten.Nodup
  settled : ∀ member ∈ blueprint.children, member.IsSettled host world

private theorem yields_renderMembers (reuses : mounter.Reuses) {parent : NodeId}
    {blueprint : Blueprint} {parts : List (List TemplateId)}
    (builds : blueprint.Builds host nested world parts)
    (unrendered : ∀ t ∈ parts.flatten, (world.template t).rendered = false) :
    (renderMembers mounter nested blueprint.children parent path).Yields record
      world fun _ _ later => world.Marks (· ∈ parts.flatten) later := by
  unfold renderMembers
  split
  · have created : world.Marks (fun _ => False)
        ((createNode .fragment).after world) := .of_same rfl rfl rfl
    refine .act_bind (created.before (World.Marks.keeping ?_))
    have setup := created.setup.held (.refs [.node
      ((createNode .fragment).result world)] ::
        ((createNode .fragment).after world).frames)
    have settled := fun member inside =>
      (builds.settled member inside).of_setup setup
    refine (yields_mountMembers reuses ?_ builds.nodup ?_ settled).bind
      fun mount _ between marks => .act ?_
    · exact builds.nested.imp fun _ _ each => each.of_setup setup
    · exact unrendered
    · exact marks.trans ((mount.marks_finish parent between).mono
        fun _ impossible => impossible.elim)
  · exact .pure (.refl world)

theorem Builds.of_setup {blueprint : Blueprint}
    {parts : List (List TemplateId)} {between : World σ}
    (builds : blueprint.Builds host nested world parts)
    (same : world.SameSetup between) :
    blueprint.Builds host nested between parts where
  renderable := builds.renderable
  isPure := builds.isPure
  nested := builds.nested.imp fun _ _ each => each.of_setup same
  nodup := builds.nodup
  settled member inside := (builds.settled member inside).of_setup same

theorem yields_fillFresh (reuses : mounter.Reuses) {node : NodeId}
    {blueprint : Blueprint} {parts : List (List TemplateId)}
    (builds : blueprint.Builds host nested world parts)
    (unrendered : ∀ t ∈ parts.flatten, (world.template t).rendered = false) :
    Pass.Yields (do
        blueprint.renderAttributes host node false
        renderMembers mounter nested blueprint.children node path
        blueprint.renderListeners node) record world
      fun _ _ later => world.Marks (· ∈ parts.flatten) later := by
  refine (succeeds_renderAttributes builds.renderable builds.isPure _ _).bind
    fun _ _ between first => ?_
  refine first.before ((yields_renderMembers reuses
    (builds.of_setup first.setup) fun t inside => ?_).bind
      fun _ _ between second => ?_)
  · exact (first.rendered t not_false).trans (unrendered t inside)
  · exact (succeeds_renderListeners builds.renderable _ _).weaken
      fun _ _ _ third => second.trans
        (third.mono fun _ impossible => impossible.elim)

theorem yields_freshElement (reuses : mounter.Reuses)
    {blueprint : Blueprint} {parts : List (List TemplateId)}
    (builds : blueprint.Builds host nested world parts)
    (unrendered : ∀ t ∈ parts.flatten, (world.template t).rendered = false)
    (element : blueprint.text = none) :
    (blueprint.renderElement host mounter nested none path).Yields record world
      fun _ _ later => world.Marks (· ∈ parts.flatten) later := by
  unfold renderElement
  cases found : blueprint.tag with
  | none => exact absurd (by rw [found, element]; rfl) builds.renderable.shape
  | some tag =>
      let kind : NodeKind := .element
        (blueprint.namespaceName.getD Selector.htmlNamespace) tag []
      have created : world.Marks (fun _ => False)
          ((createNode kind).after world) := .of_same rfl rfl rfl
      have setup := created.setup.held (.refs [.node
        ((createNode kind).result world)] ::
          ((createNode kind).after world).frames)
      refine .act_bind ((created.before (World.Marks.keeping ?_)).bind
        fun _ _ _ marks => .pure marks)
      exact yields_fillFresh reuses (builds.of_setup setup) unrendered

end Blueprint

namespace Template

variable {mounter : Mounter σ} {nested : Nested σ} {world : World σ}
  {path : DefinitionPath}

private theorem yields_passWith_fresh (reuses : mounter.Reuses) {t : TemplateId}
    {parts : List (List TemplateId)}
    (isPure : (world.template t).blueprint.IsPure host)
    (builds : (world.template t).blueprint.text = none →
      (world.template t).blueprint.Builds host nested world parts)
    (unrendered : ∀ inner ∈ parts.flatten,
      (world.template inner).rendered = false) :
    Pass.Yields (passWith host mounter nested t (world.template t).blueprint
      none path) .empty world fun _ _ later =>
        world.Marks (· ∈ t :: parts.flatten) later := by
  have done (node : NodeId) (record : Record) (between : World σ)
      (marks : world.Marks (· ∈ parts.flatten) between) :
      Pass.Yields (Pass.act (update t fun template =>
          { template with rendered := true }) >>= fun _ => pure node)
        record between fun _ _ later =>
          world.Marks (· ∈ t :: parts.flatten) later := by
    refine .act_bind (.pure ((marks.mono ?_).trans ?_))
    · exact fun _ inside => .tail _ inside
    · exact marks_markRendered t (.head _) between
  unfold passWith
  cases text : (world.template t).blueprint.text with
  | some schema =>
      refine (Blueprint.succeeds_renderText isPure _ _).bind
        fun node record between marks => done node record between ?_
      exact marks.mono fun _ impossible => impossible.elim
  | none =>
      exact (Blueprint.yields_freshElement reuses (builds text) unrendered
        text).bind
        fun node record between marks => done node record between marks

/-- The pass over a template that passed the checks. -/
theorem builds_passWithin (reuses : mounter.Reuses) {fuel : Nat}
    (sound : world.HasSoundTemplates) {t : TemplateId}
    {templates : List TemplateId} (unfolds : Unfolds world t templates)
    (nodup : templates.Nodup)
    (settled : Member.IsSettled host world (.template t))
    (enough : t.index < fuel) :
    Nested.Builds (passWithin host mounter fuel) world t templates := by
  induction fuel generalizing t templates with
  | zero => exact absurd enough (Nat.not_lt_zero _)
  | succ fuel ih =>
      intro later path same unrendered
      obtain ⟨renderable, parts, rfl, each⟩ := unfolds_iff.mp unfolds
      obtain ⟨_, below⟩ := List.nodup_cons.mp nodup
      have blueprint := same.blueprints t
      have isPure := (settled [] _ (.here _)).isPure t rfl
      have members (text : (world.template t).blueprint.text = none) :
          ∀ member ∈ (world.template t).blueprint.children,
            member.IsSettled host world := by
        intro member inside place inner stands
        obtain ⟨index, found⟩ := List.mem_iff_getElem?.mp inside
        exact settled _ inner (.template text found stands)
      have nested (text : (world.template t).blueprint.text = none) :
          List.Forall₂ (Nested.Builds (passWithin host mounter fuel) world)
            (world.template t).blueprint.nested parts := by
        obtain ⟨count, paired⟩ := List.forall₂_iff_zip.mp each
        refine List.forall₂_iff_zip.mpr ⟨count, fun {inner part} member => ?_⟩
        obtain ⟨inside, among⟩ := List.of_mem_zip member
        have child := Blueprint.mem_children_of_mem_nested inside
        refine ih (paired member) ((List.pairwise_flatten.mp below).1 part among)
          (members text _ child) ?_
        exact Nat.lt_of_lt_of_le ((sound t).older inner child)
          (Nat.le_of_lt_succ enough)
      have builds (text : (later.template t).blueprint.text = none) :
          (later.template t).blueprint.Builds host
            (passWithin host mounter fuel) later parts := by
        rw [blueprint] at text ⊢
        exact Blueprint.Builds.of_setup
          ⟨renderable, isPure, nested text, below, members text⟩ same
      rw [← blueprint] at isPure
      obtain ⟨node, record, outcome, marks⟩ :=
        yields_passWith_fresh reuses isPure builds fun inner inside =>
          unrendered inner (.tail _ inside)
      have stepwise : passWithin host mounter (fuel + 1) t none path later =
          (passWith host mounter (passWithin host mounter fuel) t
            (later.template t).blueprint none path).start .empty later := by
        have begun := start_pass host mounter (passWithin host mounter fuel) t
          none path .empty later
        rw [if_neg (by simp [unrendered t (.head _)])] at begun
        exact begun
      refine ⟨node, record, ?_, ?_⟩
      · unfold Act.result
        rw [stepwise]
        exact outcome
      · unfold Act.after
        rw [stepwise]
        exact marks

end Template

end LiveTemplate
