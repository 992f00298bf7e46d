import LiveTemplate.Proofs.Building
import LiveTemplate.Proofs.Equipping
import LiveTemplate.Proofs.Gathering
import LiveTemplate.Proofs.Overlaying

/-!
# Templates own the slots that they fill

What is nested in a template is worked into trees of its own, and what is
rendered goes to nodes that are new.  So the parts of a definition own different
slots, and rendering or applying it leaves every group that comes with it to
itself, as long as its callbacks are functions of their values.
-/

namespace LiveTemplate

variable {σ : Type}

/-- Every binding in a template, and in what is nested in it, is a function of
the properties. -/
def Template.Means (host : Host σ) (meaning : Meaning) (world : World σ)
    (t : TemplateId) (n : NodeId) : Prop :=
  ∀ inner node, Matched world t n inner node →
    (world.template inner).blueprint.Means host meaning

/-- Working a nested template into a tree owns the slots of that tree. -/
def Nested.Equips (host : Host σ) (meaning : Meaning) (base : World σ)
    (root : NodeId) (nested : Nested σ) : Prop :=
  ∀ t n path world m record, base.Receives host root [(t, n)] →
    Template.Means host meaning base t n →
    base.Redresses (base.dom.Inside root) world → base.Undressed [n] world →
      (nested t (some n) path).result world = (.ok m, record) →
        world.Equips host meaning (fun slot => base.dom.Inside n slot.node)
          ((nested t (some n) path).after world)

section Trees

variable {host : Host σ} {meaning : Meaning} {base world : World σ}
  {record : Record} {root : NodeId} {nested : Nested σ}
  {path : DefinitionPath}

namespace Blueprint

/-- What is nested owns the trees that it is worked into. -/
theorem equips_applyMembers (overlays : nested.Overlays host base root)
    (equips : nested.Equips host meaning base root)
    (blueprint : Blueprint) {node : NodeId} {index place : Nat}
    {members : List Member} {targets : List NodeId}
    (receives : base.Receives host root
      ((members.filterMap Member.template?).zip targets))
    (means : ∀ pair ∈ (members.filterMap Member.template?).zip targets,
      Template.Means host meaning base pair.1 pair.2)
    (reached : base.Redresses (base.dom.Inside root) world)
    (undressed : base.Undressed
      (((members.filterMap Member.template?).zip targets).map (·.2)) world)
    (remaining : targets = (base.dom.children node).drop place) :
    (blueprint.applyMembers nested node path index place members).Ensures record
      world fun _ final => world.Equips host meaning (fun slot =>
        base.dom.Within (((members.filterMap Member.template?).zip
          targets).map (·.2)) slot.node) final := by
  induction members generalizing index place targets record world with
  | nil => exact .pure (.refl world)
  | cons member rest ih =>
      cases member with
      | view v => exact .throw
      | node r => exact .throw
      | collection c => exact ih receives means reached undressed remaining
      | template t =>
          rw [applyMembers]
          refine .act_bind ?_
          rw [Act.result_get, Act.after_get]
          dsimp only
          rw [undressed.children]
          cases targets with
          | nil =>
              have missing : (base.dom.children node)[place]? = none := by
                rw [← List.head?_drop, ← remaining]
                rfl
              rw [missing]
              exact .throw
          | cons n others =>
              have found : (base.dom.children node)[place]? = some n := by
                rw [← List.head?_drop, ← remaining]
                rfl
              have next : others =
                  (base.dom.children node).drop (place + 1) := by
                rw [← List.tail_drop, ← remaining]
                rfl
              -- The trees of the targets are apart: what comes later spares
              -- this one.
              have apart (inner : NodeId) (here : base.dom.Inside n inner) :
                  ¬base.dom.Within (((rest.filterMap Member.template?).zip
                    others).map (·.2)) inner := by
                rintro ⟨other, member, below⟩
                exact (List.pairwise_cons.mp receives.apart).1 other member
                  inner here below
              rw [found]
              refine .nest_bind fun m child recorded outcome => ?_
              have dressed := (overlays t n _ world m child receives.head
                reached undressed.head outcome).redresses
              have first := equips t n _ world m child receives.head
                (means (t, n) (.head _)) reached undressed.head outcome
              have further := reached.trans
                (dressed.mono fun _ => receives.head.within)
              have still := undressed.tail.dressed dressed
                fun inner here => apart inner (Dom.within_single.mp here)
              refine (ih receives.tail
                (fun pair member => means pair (.tail _ member)) further still
                next).weaken fun _ _ second => ?_
              refine (first.trans second fun slot _ => apart slot.node).mono ?_
              rintro slot (here | ⟨other, member, inside⟩)
              · exact ⟨n, .head _, here⟩
              · exact ⟨other, .tail _ member, inside⟩

/-- The attributes and the listeners of an element belong to its node, what is
nested to the nodes below. -/
theorem equips_fillElement (overlays : nested.Overlays host base root)
    (equips : nested.Equips host meaning base root) (path : DefinitionPath)
    {t : TemplateId} {n : NodeId}
    {blueprint : Blueprint} (found : (base.template t).blueprint = blueprint)
    (isElement : blueprint.text = none)
    (named : (blueprint.attributes.map (·.1)).Nodup)
    (linked : base.dom.IsLinked) (receives : base.Receives host root [(t, n)])
    (means : Template.Means host meaning base t n)
    (reached : base.Redresses (base.dom.Inside root) world)
    (undressed : base.Undressed [n] world) :
    Pass.Ensures (do
        blueprint.renderAttributes host n true
        blueprint.applyMembers nested n path 0 0 blueprint.children
        blueprint.renderListeners n) record world
      fun _ final => world.Equips host meaning
        (fun slot => base.dom.Inside n slot.node) final := by
  subst found
  have isTree : base.dom.IsTree n := receives.trees _ (.head _)
  have inside : base.dom.Inside root n := receives.inside _ (.head _)
  have fits := (graftable_element_iff isElement).mp
    (receives.fits (t, n) (.head _))
  have own := means t n (.root t n)
  have below := receives.children linked isElement
  obtain ⟨_, _, _, kind⟩ := Dom.isElement_iff.mp fits.1
  have here := (undressed.kind isTree.there).trans kind
  have element : world.dom.isElement n = true :=
    Dom.isElement_iff.mpr ⟨_, _, _, here⟩
  have there := Nat.lt_of_lt_of_le isTree.there undressed.spares.size
  have targets : ((base.template t).blueprint.nested.zip
      (base.dom.children n)).map (·.2) = base.dom.children n :=
    List.map_snd_zip (Nat.le_of_eq fits.2.2.1.symm)
  have outside : ¬base.dom.Within (base.dom.children n) n :=
    fun ⟨child, member, inside⟩ => isTree.acyclic child member inside
  refine ((overlays_renderAttributes named own.isPure.attributes here).and
    (equips_renderAttributes named own element there)).bind ?_
  rintro _ _ drawn ⟨⟨changed, asked, draws, -, -⟩, first⟩
  have redraws := World.Redresses.of_draws draws
  have further := reached.trans
    (redraws.mono fun inner same => by rw [same]; exact inside)
  have still : base.Undressed (base.dom.children n) drawn :=
    undressed.below.dressed redraws fun inner same => same ▸ outside
  rw [← targets] at still
  have meansBelow (pair : TemplateId × NodeId)
      (member : pair ∈ (base.template t).blueprint.nested.zip
        (base.dom.children n)) :
      Template.Means host meaning base pair.1 pair.2 :=
    fun inner node matched => means inner node
      (.nested isElement member matched)
  refine (equips_applyMembers overlays equips _ below meansBelow further still
    List.drop_zero.symm).bind ?_
  intro _ _ filled (second : drawn.Equips host meaning (fun slot =>
    base.dom.Within (((base.template t).blueprint.nested.zip
      (base.dom.children n)).map (·.2)) slot.node) filled)
  rw [targets] at second
  refine equips_renderListeners.weaken fun _ final
    (third : filled.Equips host meaning (fun _ => False) final) => ?_
  refine ((first.trans second fun slot _ same => ?_).settle third).mono ?_
  · rw [same]
    exact outside
  · rintro slot (same | ⟨child, member, inside⟩)
    · rw [same]
      exact .here n
    · exact .under member inside

end Blueprint

namespace Template

variable {mounter : Mounter σ}

/-- A template that is worked into a tree owns the slots of that tree. -/
theorem equips_passWith (overlays : nested.Overlays host base root)
    (equips : nested.Equips host meaning base root)
    {t : TemplateId} {n : NodeId} {blueprint : Blueprint}
    (found : (base.template t).blueprint = blueprint)
    (sound : base.HasSoundTemplates) (linked : base.dom.IsLinked)
    (receives : base.Receives host root [(t, n)])
    (means : Template.Means host meaning base t n)
    (reached : base.Redresses (base.dom.Inside root) world)
    (undressed : base.Undressed [n] world) :
    (passWith host mounter nested t blueprint (some n) path).Ensures record
      world fun _ final => world.Equips host meaning
        (fun slot => base.dom.Inside n slot.node) final := by
  subst found
  have isTree : base.dom.IsTree n := receives.trees _ (.head _)
  unfold passWith
  cases text : (base.template t).blueprint.text with
  | some schema =>
      have isText : world.dom.isText n = true := by
        have before := ((graftable_text_iff text).mp
          (receives.fits (t, n) (.head _))).2
        rwa [Dom.isText, undressed.kind isTree.there]
      have shown (record : Record) : (Blueprint.showText host n
          (flattenChunks schema)).Ensures record world _ :=
        Blueprint.equips_showText ((means t n (.root t n)).text schema text)
          isText
      unfold Blueprint.renderText
      rw [text]
      refine Pass.Ensures.bind (.act_bind (.note_bind ((shown _).weaken
        fun _ _ equips => equips.mono fun slot same => ?_)))
          fun _ _ _ equips => .pure equips
      rw [same]
      exact .here n
  | none =>
      have filled : Pass.Ensures _ record
          (world.holding (.refs [.node n] :: world.frames)) _ :=
        Blueprint.equips_fillElement overlays equips path rfl text (sound t).named
          linked receives means (reached.held _) (undressed.held _)
      rw [if_neg (by simp), Blueprint.renderElement_some]
      exact Pass.Ensures.bind (.bind (World.Equips.keeping filled)
        fun _ _ _ equips => .pure equips) fun _ _ _ equips => .pure equips

theorem equips_passWithin (host : Host σ) (meaning : Meaning) (base : World σ)
    (root : NodeId) (sound : base.HasSoundTemplates)
    (linked : base.dom.IsLinked) (mounter : Mounter σ) (fuel : Nat) :
    Nested.Equips host meaning base root (passWithin host mounter fuel) := by
  induction fuel with
  | zero =>
      intro _ _ _ _ _ _ _ _ _ _ outcome
      cases outcome
  | succ fuel ih =>
      intro t n path world m record receives means reached undressed outcome
      exact of_passWithin outcome (equips_passWith
        (overlays_passWithin host base root sound linked mounter fuel) ih
        (reached.spares.advances.blueprints t).symm sound linked receives means
        reached undressed)

end Template

end Trees

/-- Every binding in what a member is composed of is a function of the
properties. -/
def Member.Means (host : Host σ) (meaning : Meaning) (world : World σ)
    (member : Member) : Prop :=
  ∀ place t, Stands world member place (.template t) →
    (world.template t).blueprint.Means host meaning

/-- The slots of nodes that have yet to be made. -/
def World.Awaited (world : World σ) (slot : Slot) : Prop :=
  world.dom.nodes.size ≤ slot.node.index

/-- Mounting a view owns the slots of new nodes. -/
def Mounter.Equips (host : Host σ) (meaning : Meaning) (base : World σ)
    (mounter : Mounter σ) : Prop :=
  ∀ v world n, base.Advances world → Member.Means host meaning base (.view v) →
    (mounter v).result world = .ok n →
      world.Equips host meaning world.Awaited ((mounter v).after world)

/-- Rendering a nested template owns the slots of new nodes. -/
def Nested.EquipsNew (host : Host σ) (meaning : Meaning) (base : World σ)
    (nested : Nested σ) : Prop :=
  ∀ t path world n record, base.Advances world →
    Member.Means host meaning base (.template t) →
    (nested t none path).result world = (.ok n, record) →
      world.Equips host meaning world.Awaited ((nested t none path).after world)

section Fresh

variable {host : Host σ} {meaning : Meaning} {base world : World σ}
  {record : Record} {mounter : Mounter σ} {nested : Nested σ}

theorem Member.Means.inside {outer inner : Member}
    (means : outer.Means host meaning base)
    (composes : base.Composes outer inner) :
    inner.Means host meaning base := by
  obtain ⟨place, above⟩ := composes
  exact fun further t below => means _ t (above.trans below)

theorem World.Advances.held (advances : base.Advances world)
    (frames : List Frame) : base.Advances (world.holding frames) := by
  exact advances.trans ((SameSetup.refl world).held frames).advances

/-- Nodes that are made later are not those that were made before. -/
theorem World.Equips.onward {between later : World σ}
    (first : world.Equips host meaning world.Awaited between)
    (second : between.Equips host meaning between.Awaited later) :
    world.Equips host meaning world.Awaited later := by
  refine (first.trans second fun _ old _ => Nat.not_le_of_lt old).mono
    fun _ owns => ?_
  exact owns.elim id (Nat.le_trans first.size)

namespace Mount

theorem equips_push (mount : Mount) (child : NodeId) (world : World σ) :
    world.Equips host meaning (fun _ => False)
      ((mount.push child).after world) := by
  exact .appendChild mount.fragment child world

theorem equips_finish (mount : Mount) (parent : NodeId) (world : World σ) :
    world.Equips host meaning (fun _ => False)
      ((mount.finish parent).after world) := by
  have appended : world.Equips host meaning (fun _ => False) _ :=
    .appendChild parent mount.fragment world
  exact appended.settle (Act.after_forM .refl .settle
    (fun entry _ world => .of_setup
      (Collection.sameSetup_setParent entry.1 parent entry.2 world) rfl rfl rfl)
        _)

end Mount

namespace Blueprint

theorem equips_mountViews (mounts : mounter.Equips host meaning base)
    (mount : Mount) {views : List ViewId}
    (means : ∀ v ∈ views, Member.Means host meaning base (.view v))
    (advances : base.Advances world) :
    (mountViews mounter mount views).Ensures record world fun _ later =>
      world.Equips host meaning world.Awaited later := by
  induction views generalizing mount record world with
  | nil => exact .pure (.refl world)
  | cons v rest ih =>
      rw [mountViews]
      refine .act_bind (.ofExcept_bind fun n mounted => .act_bind ?_)
      have first := (mounts v world n advances (means v (.head _))
        mounted).settle (mount.equips_push n _)
      refine (World.Equips.keeping (ih _
        (fun other member => means other (.tail _ member))
        ((advances.trans first.advances).held _))).weaken
          fun _ later second => ?_
      exact first.onward second

private theorem equips_mountMember (mounts : mounter.Equips host meaning base)
    (nests : nested.EquipsNew host meaning base) (path : DefinitionPath)
    (mount : Mount) {member : Member}
    (means : member.Means host meaning base) (advances : base.Advances world) :
    (mountMember mounter nested path mount member).Ensures record world
      fun _ later => world.Equips host meaning world.Awaited later := by
  cases member with
  | node n => exact .act ((mount.equips_push n world).mono fun _ => False.elim)
  | view v =>
      refine equips_mountViews mounts mount (fun other inside => ?_) advances
      rw [List.mem_singleton.mp inside]
      exact means
  | collection c =>
      refine .act_bind ?_
      rw [Act.result_get, Act.after_get]
      refine Pass.Ensures.bind (World.Equips.keeping (equips_mountViews mounts
        mount (fun v inside => ?_) (advances.held _))) fun _ _ _ equips =>
          .pure equips
      rw [advances.members] at inside
      exact means.inside (World.composes_member inside)
  | template t =>
      refine .nest_bind fun n child recorded outcome => .act ?_
      exact (nests t path world n child advances means outcome).settle
        (mount.equips_push n _)

private theorem equips_mountMembers (mounts : mounter.Equips host meaning base)
    (nests : nested.EquipsNew host meaning base) (path : DefinitionPath)
    (index : Nat) (mount : Mount) {members : List Member}
    (means : ∀ member ∈ members, member.Means host meaning base)
    (advances : base.Advances world) :
    (mountMembers mounter nested path index mount members).Ensures record world
      fun _ later => world.Equips host meaning world.Awaited later := by
  induction members generalizing index mount record world with
  | nil => exact .pure (.refl world)
  | cons member rest ih =>
      rw [mountMembers]
      refine (equips_mountMember mounts nests _ mount (means member (.head _))
        advances).bind fun mounted _ between
          (first : world.Equips host meaning world.Awaited between) => ?_
      exact (World.Equips.keeping (ih _ mounted
        (fun other inside => means other (.tail _ inside))
        ((advances.trans first.advances).held _))).weaken
          fun _ _ second => first.onward second

private theorem equips_renderMembers (mounts : mounter.Equips host meaning base)
    (nests : nested.EquipsNew host meaning base) (parent : NodeId)
    (path : DefinitionPath) {members : List Member}
    (means : ∀ member ∈ members, member.Means host meaning base)
    (advances : base.Advances world) :
    (renderMembers mounter nested members parent path).Ensures record world
      fun _ later => world.Equips host meaning world.Awaited later := by
  unfold renderMembers
  split
  · have made : world.Equips host meaning world.Awaited _ :=
      .createNode .fragment world
    refine .act_bind ((World.Equips.keeping ?_).weaken
      fun _ later second => made.onward second)
    exact (equips_mountMembers mounts nests path 0 _ means
      ((advances.trans made.advances).held _)).bind
        fun mount _ between (equips : World.Equips host meaning _ _ between) =>
          .act (equips.settle (mount.equips_finish parent between))
  · exact .pure (.refl world)

private theorem equips_renderElement (mounts : mounter.Equips host meaning base)
    (nests : nested.EquipsNew host meaning base) (path : DefinitionPath)
    {blueprint : Blueprint} (named : (blueprint.attributes.map (·.1)).Nodup)
    (own : blueprint.Means host meaning)
    (means : ∀ member ∈ blueprint.children, member.Means host meaning base)
    (advances : base.Advances world) :
    (blueprint.renderElement host mounter nested none path).Ensures record world
      fun _ later => world.Equips host meaning world.Awaited later := by
  unfold renderElement
  cases blueprint.tag with
  | none => exact .throw
  | some tag =>
      let kind : NodeKind := .element
        (blueprint.namespaceName.getD Selector.htmlNamespace) tag []
      let n := (createNode kind).result world
      let entered := (createNode kind).after world
      have made : world.Equips host meaning (fun _ => False) entered :=
        .createNode kind world
      have there : n.index < entered.dom.nodes.size :=
        Nat.lt_of_lt_of_eq (Nat.lt_succ_self _) (world.dom.size_create kind).symm
      have element : entered.dom.isElement n = true := by
        have row := world.dom.node_create_self kind
        exact Dom.isElement_iff.mpr ⟨_, _, _, congrArg Node.kind row⟩
      let held := entered.holding (.refs [.node n] :: entered.frames)
      have onward : base.Advances held :=
        (advances.trans made.advances).held _
      have drawn : (blueprint.renderAttributes host n false).Ensures record held
          fun _ later =>
            held.Equips host meaning (fun slot => slot.node = n) later :=
        equips_renderAttributes named own element there
      have filled : Pass.Ensures (do
          blueprint.renderAttributes host n false
          renderMembers mounter nested blueprint.children n path
          blueprint.renderListeners n) record held fun _ later =>
            held.Equips host meaning world.Awaited later := by
        refine drawn.bind fun _ _ drawn first => ?_
        refine (equips_renderMembers mounts nests n path means
          (onward.trans first.advances)).bind
            fun _ _ mounted (second : drawn.Equips host meaning drawn.Awaited
              mounted) => ?_
        refine equips_renderListeners.weaken fun _ later
          (third : mounted.Equips host meaning (fun _ => False) later) => ?_
        refine ((first.trans second fun slot old _ =>
          Nat.not_le_of_lt old).settle third).mono ?_
        rintro slot (here | new)
        · rw [World.Awaited, here]
          exact Nat.le_refl _
        · exact Nat.le_trans (Nat.le_trans made.size first.size) new
      exact .act_bind (Pass.Ensures.bind (World.Equips.keeping filled)
        fun _ _ _ equips => .pure (made.after equips))

theorem equips_renderText {blueprint : Blueprint} {schema : Schema}
    (text : blueprint.text = some schema)
    (means : Schema.Means host meaning schema) :
    (blueprint.renderText host none).Ensures record world fun _ later =>
      world.Equips host meaning world.Awaited later := by
  let n := (createNode (.text "")).result world
  let entered := (createNode (.text "")).after world
  have made : world.Equips host meaning (fun _ => False) entered :=
    .createNode (.text "") world
  have isText : entered.dom.isText n = true := Dom.isText_iff.mpr
    ⟨_, congrArg Node.kind (world.dom.node_create_self (.text ""))⟩
  have shown : (showText host n (flattenChunks schema)).Ensures record entered
      fun _ later =>
        entered.Equips host meaning (fun slot => slot.node = n) later :=
    equips_showText means isText
  unfold renderText
  rw [text]
  refine .act_bind (shown.weaken fun _ _ equips =>
    (made.after equips).mono fun slot here => ?_)
  rw [World.Awaited, here]
  exact Nat.le_refl _

end Blueprint

namespace Template

variable {path : DefinitionPath}

private theorem equips_passWith_fresh
    (mounts : mounter.Equips host meaning base)
    (nests : nested.EquipsNew host meaning base)
    (sound : base.HasSoundTemplates) {t : TemplateId} {blueprint : Blueprint}
    (found : (base.template t).blueprint = blueprint)
    (means : Member.Means host meaning base (.template t))
    (advances : base.Advances world) :
    (passWith host mounter nested t blueprint none path).Ensures record world
      fun _ later => world.Equips host meaning world.Awaited later := by
  subst found
  have own := means [] t (.here _)
  have marked (n : NodeId) (record : Record) (between : World σ)
      (equips : world.Equips host meaning world.Awaited between) :
      Pass.Ensures (Pass.act (update t fun template =>
        { template with rendered := true }) >>= fun _ => pure n) record between
          fun _ later => world.Equips host meaning world.Awaited later :=
    .act_bind (.pure (equips.settle
      (.of_setup (sameSetup_markRendered t between) rfl rfl rfl)))
  unfold passWith
  cases text : (base.template t).blueprint.text with
  | some schema =>
      exact (Blueprint.equips_renderText text (own.text schema text)).bind
        marked
  | none =>
      exact (Blueprint.equips_renderElement mounts nests path (sound t).named own
        (fun member inside => means.inside (World.composes_child text inside))
        advances).bind marked

private theorem equipsNew_passWithin (mounts : mounter.Equips host meaning base)
    (sound : base.HasSoundTemplates) (fuel : Nat) :
    Nested.EquipsNew host meaning base (passWithin host mounter fuel) := by
  induction fuel with
  | zero =>
      intro _ _ _ _ _ _ _ outcome
      cases outcome
  | succ fuel ih =>
      intro t path world n record advances means outcome
      exact of_passWithin outcome (equips_passWith_fresh mounts ih sound
        (advances.blueprints t).symm means advances)

theorem equips_renderWith (mounts : mounter.Equips host meaning base)
    (sound : base.HasSoundTemplates) {t : TemplateId} {n : NodeId}
    (means : Member.Means host meaning base (.template t))
    (advances : base.Advances world)
    (rendered : (renderWith host mounter t).result world = .ok n) :
    world.Equips host meaning world.Awaited
      ((renderWith host mounter t).after world) := by
  obtain ⟨_, _, ⟨record, outcome⟩, after⟩ := renderWith_ok rendered
  have passed := equipsNew_passWithin mounts sound (t.index + 1) t [] _ n record
    (advances.trans ((World.SameSetup.refl world).held
      (.refs [.template t] :: world.frames)).advances) means outcome
  rw [after]
  exact passed.release world.frames

end Template

namespace View

theorem equips_mountWith {render : ViewId → Act σ (Except TemplateError Unit)}
    (renders : ∀ v world, base.Advances world →
      Member.Means host meaning base (.view v) →
      (render v).result world = .ok () →
        world.Equips host meaning world.Awaited ((render v).after world)) :
    Mounter.Equips host meaning base (mountWith render) := by
  intro v world n advances means mounted
  have runs := run_mountWith render v world
  unfold Act.result at mounted
  unfold Act.after
  rw [runs] at mounted ⊢
  split at mounted
  · rename_i rendered
    obtain ⟨_, _, unchanged⟩ := element_of_settleMount mounted
    rw [if_pos rendered]
    unfold Act.after at unchanged
    rw [unchanged]
    exact .refl world
  · rename_i fresh
    change (settleMount v ((render v).result world)).result
      ((render v).after world) = _ at mounted
    obtain ⟨rendered, _, unchanged⟩ := element_of_settleMount mounted
    rw [if_neg fresh]
    change world.Equips host meaning world.Awaited
      ((settleMount v ((render v).result world)).after ((render v).after world))
    rw [unchanged]
    exact renders v world advances means rendered

theorem equips_update (v : ViewId) {change : View → View}
    (template : ∀ view, (change view).template = view.template)
    (rendered : ∀ view, (change view).rendered = true) (world : World σ) :
    world.Equips host meaning (fun _ => False)
      ((update v change).after world) := by
  exact .quiet (advances_update v template rendered world) rfl (Nat.le_refl _)
    (fun _ _ => rfl) rfl

private theorem equips_renderWithin (sound : base.HasSoundTemplates)
    (fuel : Nat)
    (v : ViewId) (world : World σ) (advances : base.Advances world)
    (means : Member.Means host meaning base (.view v))
    (outcome : (renderWithin host fuel v).result world = .ok ()) :
    world.Equips host meaning world.Awaited
      ((renderWithin host fuel v).after world) := by
  induction fuel generalizing v world with
  | zero => cases outcome
  | succ fuel ih =>
      have runs := run_renderWithin host fuel v world
      unfold Act.result at outcome
      unfold Act.after
      rw [runs] at outcome ⊢
      split at outcome
      · cases outcome
      rename_i fresh
      rw [if_neg fresh]
      cases found : (world.view v).template with
      | none =>
          have marked : world.Equips host meaning (fun _ => False)
              ((update v fun view => { view with rendered := true }).after
                world) := by
            refine equips_update v ?_ ?_ world <;> exact fun _ => rfl
          exact marked.mono fun _ => False.elim
      | some t =>
          rw [found] at outcome
          have below : Member.Means host meaning base (.template t) := by
            refine means.inside (World.composes_template ?_ ?_)
            · exact Bool.eq_false_iff.mpr fun before =>
                fresh (advances.rendered v before)
            · rw [← advances.templates]
              exact found
          have entered := advances.held (.refs [.view v] :: world.frames)
          have drawn := fun n => Template.equips_renderWith (n := n)
            (equips_mountWith ih) sound below entered
          change (settleRender v ((Template.renderWith host
            (mountWith (renderWithin host fuel)) t).result (world.holding
              (.refs [.view v] :: world.frames)))
            (((Template.renderWith host (mountWith (renderWithin host fuel))
              t).after (world.holding (.refs [.view v] ::
                world.frames))).holding world.frames)).1 = _ at outcome
          change world.Equips host meaning world.Awaited
            (settleRender v ((Template.renderWith host
              (mountWith (renderWithin host fuel)) t).result (world.holding
                (.refs [.view v] :: world.frames)))
              (((Template.renderWith host (mountWith (renderWithin host fuel))
                t).after (world.holding (.refs [.view v] ::
                  world.frames))).holding world.frames)).2
          generalize (Template.renderWith host _ t).after _ = later at *
          generalize (Template.renderWith host _ t).result _ = rendered at *
          cases rendered with
          | error error => cases outcome
          | ok made =>
              have noted : (later.holding world.frames).Equips host meaning
                  (fun _ => False) ((update v fun view => { view with
                    element := some made, rendered := true }).after
                      (later.holding world.frames)) := by
                refine equips_update v ?_ ?_ _ <;> exact fun _ => rfl
              exact ((drawn made rfl).release world.frames).settle noted

/-- Rendering a view owns the slots of new nodes. -/
theorem equips_render (sound : base.HasSoundTemplates) (v : ViewId)
    (world : World σ) (advances : base.Advances world)
    (means : Member.Means host meaning base (.view v))
    (outcome : (render host v).result world = .ok ()) :
    world.Equips host meaning world.Awaited ((render host v).after world) := by
  unfold render at outcome ⊢
  rw [Act.result_bind] at outcome
  rw [Act.after_bind]
  exact equips_renderWithin sound _ v world advances means outcome

end View

end Fresh

namespace Template

variable {host : Host σ} {meaning : Meaning} {world : World σ} {t : TemplateId}

theorem equips_render {n : NodeId} (sound : world.HasSoundTemplates)
    (means : Member.Means host meaning world (.template t))
    (rendered : (render host t).result world = .ok n) :
    world.Equips host meaning world.Awaited ((render host t).after world) := by
  exact equips_renderWith (View.equips_mountWith (View.equips_render sound))
    sound means (World.Advances.refl world) rendered

theorem equips_apply {n m : NodeId} (sound : world.HasSoundTemplates)
    (linked : world.dom.IsLinked) (isTree : world.dom.IsTree n)
    (means : Template.Means host meaning world t n)
    (applied : (apply host t n).result world = .ok m) :
    world.Equips host meaning (fun slot => world.dom.Inside n slot.node)
      ((apply host t n).after world) := by
  have fits := graftable_of_apply_ok sound applied
  have receives : world.Receives host n [(t, n)] := by
    refine ⟨?_, ?_, ?_, ?_, List.pairwise_singleton _ _⟩ <;>
      intro pair member <;> rw [List.mem_singleton.mp member]
    · exact fits
    · exact fun inner node matched => (means inner node matched).isPure
    · exact isTree
    · exact .here n
  obtain ⟨record, other, passed, after⟩ := apply_ok applied
  have done := equips_passWithin host meaning world n sound linked
    (fun _ => return .error .componentNotRendered) (t.index + 1) t n [] _ other
    record receives means ((World.Redresses.refl world).held _)
    ((World.Redresses.refl world).held _) passed
  have noted := sameSetup_update t (fun template => { template with
    applied := some (n, record) }) (fun _ => rfl)
    ((applyPass host t n).after world)
  rw [after]
  exact (done.release world.frames).settle (.of_setup noted rfl rfl rfl)

end Template

end LiveTemplate
