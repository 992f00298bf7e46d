import LiveTemplate.Proofs.Realization
import LiveTemplate.View

/-!
# Rendering gathers what it mounts

A fresh pass that succeeds returns a node for its template: nested templates,
views, the members of collections and nodes that were there before are gathered
in a fragment and handed to the new element.  Views are rendered inside
templates and templates inside views, so this is shown for both by induction on
the fuel.
-/

namespace LiveTemplate

variable {σ : Type} {host : Host σ} {meaning : Meaning}
  {base world : World σ} {record : Record}

/-- Mounting a view offers its element. -/
def Mounter.Delivers (host : Host σ) (meaning : Meaning) (base : World σ)
    (mounter : Mounter σ) : Prop :=
  ∀ v world n, base.IsPlain host meaning [.view v] →
    base.Awaits [.view v] world → (mounter v).result world = .ok n →
      ∃ requests, Offers meaning base [.view v] world n requests
        ((mounter v).after world)

/-- Rendering a nested template offers a node that stands alone. -/
def Nested.Delivers (host : Host σ) (meaning : Meaning) (base : World σ)
    (nested : Nested σ) : Prop :=
  ∀ t path world n child, base.IsPlain host meaning [.template t] →
    base.Awaits [.template t] world →
      (nested t none path).result world = (.ok n, child) →
        ((nested t none path).after world).dom.IsAlone n ∧
          ∃ requests, Offers meaning base [.template t] world n requests
            ((nested t none path).after world)

namespace Mount

/-- Some more members have been gathered. -/
def Gathered (meaning : Meaning) (base : World σ) (members : List Member)
    (mount : Mount) (world : World σ) (later : Mount) (final : World σ) :
    Prop :=
  later.fragment = mount.fragment ∧ ∃ nodes requests,
    Mounts meaning base mount.fragment members world nodes requests final

variable {mount : Mount}

/-- What is held meanwhile makes no difference. -/
theorem Gathered.release {members : List Member} {frames : List Frame}
    {later : Mount} {final : World σ}
    (gathered : mount.Gathered meaning base members (world.holding frames)
      later final) (restored : List Frame) :
    mount.Gathered meaning base members world later
      (final.holding restored) := by
  obtain ⟨same, nodes, requests, mounts⟩ := gathered
  exact ⟨same, nodes, requests, mounts.release restored⟩

theorem gathered_push {members : List Member} {n : NodeId}
    {requests : List Request} {later : World σ}
    (offers : Offers meaning base members world n requests later)
    (gathers : base.Gathers mount.fragment world)
    (plain : base.IsPlain host meaning members) :
    mount.Gathered meaning base members world ((mount.push n).result later)
      ((mount.push n).after later) := by
  exact ⟨rfl, _, requests, .push offers gathers plain⟩

theorem gathered_cons {member : Member} {rest : List Member}
    {between : World σ} {next : Mount} {refs : List Ref} {pass : Pass σ Mount}
    (first : mount.Gathered meaning base [member] world next between)
    (gathers : base.Gathers mount.fragment world)
    (plain : base.IsPlain host meaning (member :: rest))
    (awaits : base.Awaits (member :: rest) world)
    (others : ∀ world, base.Gathers next.fragment world →
      base.IsPlain host meaning rest → base.Awaits rest world →
        pass.Ensures record world (next.Gathered meaning base rest world)) :
    (Pass.keeping refs pass).Ensures record between
      (mount.Gathered meaning base (member :: rest) world) := by
  obtain ⟨same, nodes, requests, mounts⟩ := first
  have apart := plain.scatters.apart
  have tail := plain.included (base.includes_tail member rest)
  have remaining : base.Awaits rest between := by
    refine (awaits.included (base.includes_tail member rest)).spared
      mounts.spares ?_ apart.views
    rintro n (touches | rfl)
    · exact apart.touches plain.linked touches
    · exact gathers.foreign tail.scatters
  rw [same] at others
  refine .keeping ((others _ ((mounts.gathers gathers).held _) tail
    (remaining.held _)).weaken fun later final gathered => ?_)
  obtain ⟨unchanged, more, asked, later⟩ := gathered
  rw [same] at unchanged later
  exact ⟨unchanged, _, _, mounts.cons (later.release between.frames) gathers
    awaits.size plain⟩

/-- The children are handed over; telling the collections changes no node. -/
theorem mounts_finish {members : List Member} {nodes : List NodeId}
    {requests : List Request} {parent : NodeId} {mid : World σ}
    (mounts : Mounts meaning base parent members world nodes requests
      { mid with dom := mid.dom.appendChild parent mount.fragment }) :
    Mounts meaning base parent members world nodes requests
      ((mount.finish parent : Act σ Unit).after mid) := by
  let relation (world later : World σ) : Prop := later.dom = world.dom ∧
    world.Spares (fun _ => False) (fun _ => False) later ∧
      world.Subscribed [] later
  have told : relation { mid with
      dom := mid.dom.appendChild parent mount.fragment }
      ((mount.finish parent : Act σ Unit).after mid) := by
    refine Act.after_forM (fun world => ⟨rfl, .refl world, .refl world⟩) ?_
      (fun entry _ world => ⟨rfl, ?_, .of_same rfl rfl rfl⟩) _
    · rintro _ _ _ ⟨dom, spares, subscribed⟩ ⟨same, later, others⟩
      exact ⟨same.trans dom, spares.trans later, subscribed.trans others⟩
    · exact .of_setup
        (Collection.sameSetup_setParent entry.1 parent entry.2 world) rfl rfl
  exact mounts.settle told.1 told.2.1 told.2.2

end Mount

namespace Blueprint

variable {mounter : Mounter σ} {nested : Nested σ} {path : DefinitionPath}
  {mount : Mount}

theorem ensures_mountViews (delivers : mounter.Delivers host meaning base)
    {views : List ViewId} (gathers : base.Gathers mount.fragment world)
    (plain : base.IsPlain host meaning (views.map .view))
    (awaits : base.Awaits (views.map .view) world) :
    (mountViews mounter mount views).Ensures record world
      (mount.Gathered meaning base (views.map .view) world) := by
  induction views generalizing mount record world with
  | nil => exact .pure ⟨rfl, [], [], .nil world⟩
  | cons v rest ih =>
      rw [mountViews]
      refine .act_bind (.ofExcept_bind fun element mounted => .act_bind ?_)
      have head := base.includes_head (.view v) (rest.map .view)
      obtain ⟨requests, offers⟩ := delivers v world element
        (plain.included head) (awaits.included head) mounted
      exact Mount.gathered_cons
        (Mount.gathered_push offers gathers (plain.included head)) gathers plain
        awaits fun _ gathers plain awaits => ih gathers plain awaits

private theorem ensures_mountMember
    (mounts : mounter.Delivers host meaning base)
    (nests : nested.Delivers host meaning base) {member : Member}
    (gathers : base.Gathers mount.fragment world)
    (plain : base.IsPlain host meaning [member])
    (awaits : base.Awaits [member] world) :
    (mountMember mounter nested path mount member).Ensures record world
      (mount.Gathered meaning base [member] world) := by
  cases member with
  | node n =>
      exact .act (Mount.gathered_push (.present rfl plain awaits) gathers plain)
  | view v => exact ensures_mountViews mounts gathers plain awaits
  | template t =>
      refine .nest_bind fun n child recorded outcome => .act ?_
      obtain ⟨_, requests, offers⟩ :=
        nests t _ world n child plain awaits outcome
      exact Mount.gathered_push offers gathers plain
  | collection c =>
      have included := base.includes_members c
      have viewed : Pass.Ensures _ record (world.holding
          (.refs ((base.collection c).members.map .view) :: world.frames)) _ :=
        ensures_mountViews mounts (gathers.held _) (plain.included included)
          ((awaits.included included).held _)
      rw [← awaits.advances.members c] at viewed
      refine .act_bind ((Pass.Ensures.keeping (viewed.weaken
        fun _ _ gathered => gathered.release world.frames)).bind ?_)
      rintro later _ final ⟨same, nodes, requests, gathered⟩
      refine .pure ⟨same, nodes, requests, ?_⟩
      rw [awaits.advances.members c] at gathered
      have realized := Realized.collection gathered.realized .nil
      rw [List.append_nil, List.append_nil] at realized
      exact gathered.widen included realized

private theorem ensures_mountMembers
    (mounts : mounter.Delivers host meaning base)
    (nests : nested.Delivers host meaning base) {index : Nat}
    {members : List Member} (gathers : base.Gathers mount.fragment world)
    (plain : base.IsPlain host meaning members)
    (awaits : base.Awaits members world) :
    (mountMembers mounter nested path index mount members).Ensures record world
      (mount.Gathered meaning base members world) := by
  induction members generalizing index mount record world with
  | nil => exact .pure ⟨rfl, [], [], .nil world⟩
  | cons member rest ih =>
      rw [mountMembers]
      have head := base.includes_head member rest
      refine (ensures_mountMember mounts nests gathers (plain.included head)
        (awaits.included head)).bind fun next _ between first => ?_
      exact Mount.gathered_cons first gathers plain awaits
        fun _ gathers plain awaits => ih gathers plain awaits

private theorem ensures_renderMembers
    (mounts : mounter.Delivers host meaning base)
    (nests : nested.Delivers host meaning base) {members : List Member}
    {parent : NodeId} (gathers : base.Gathers parent world)
    (plain : base.IsPlain host meaning members)
    (awaits : base.Awaits members world) :
    (renderMembers mounter nested members parent path).Ensures record world
      fun _ final => ∃ nodes requests,
        Mounts meaning base parent members world nodes requests final := by
  unfold renderMembers
  split
  · refine .act_bind ?_
    have basket : base.Gathers _ ((createNode .fragment).after world) :=
      .created (fun _ => nofun) awaits.size
    have created : world.Spares (fun _ => False) (fun _ => False)
        ((createNode .fragment).after world) := .createNode .fragment
    have waiting := awaits.spared created (fun _ => False.elim)
      fun _ => False.elim
    have handOver (nodes : List NodeId) (requests : List Request)
        (mid : World σ) (mounts : Mounts meaning base
          ((createNode .fragment).result world) members
          ((createNode .fragment).after world) nodes requests mid) :=
      Mounts.handOver rfl rfl mounts gathers awaits.size plain
    generalize (createNode .fragment).result world = fragment at *
    generalize (createNode .fragment).after world = entered at *
    have inside : (mountMembers mounter nested path 0 (.empty fragment)
        members).Ensures record
          (entered.holding (.refs [.node fragment] :: entered.frames)) _ :=
      ensures_mountMembers mounts nests (basket.held _) plain (waiting.held _)
    refine .keeping (inside.bind fun later _ mid gathered => .act ?_)
    obtain ⟨same, nodes, requests, gathered⟩ := gathered.release mid.frames
    have handed := handOver nodes requests mid gathered
    rw [show fragment = later.fragment from same.symm] at handed
    exact ⟨nodes, requests,
      (Mount.mounts_finish handed).release entered.frames⟩
  · rename_i none
    have empty : members = [] := by simpa using none
    subst empty
    exact .pure ⟨[], [], .nil world⟩

private theorem ensures_fillFresh (mounts : mounter.Delivers host meaning base)
    (nests : nested.Delivers host meaning base) (path : DefinitionPath)
    {n : NodeId}
    {blueprint : Blueprint} {tag : String}
    (named : (blueprint.attributes.map (·.1)).Nodup)
    (means : blueprint.Means host meaning)
    (plain : base.IsPlain host meaning blueprint.children)
    (gathers : base.Gathers n world)
    (awaits : base.Awaits blueprint.children world)
    (kind : world.dom.kind n = blueprint.elementKind tag []) :
    Pass.Ensures (do
        blueprint.renderAttributes host n false
        renderMembers mounter nested blueprint.children n path
        blueprint.renderListeners n) record world
      fun _ final => ∃ drawn filled nodes inner,
        world.Draws n (blueprint.elementKind tag
          (blueprint.drawnAttributes meaning base.property (some tag)))
          (blueprint.attributes.flatMap entryRequests) drawn ∧
        Mounts meaning base n blueprint.children drawn nodes inner filled ∧
        filled.Draws n (filled.dom.kind n) (blueprint.listenerRequests n)
          final := by
  have reads : world.property = base.property := World.Spares.property awaits
  rw [← reads]
  refine (draws_renderAttributes false named means kind).bind
    fun _ _ drawn attributes => ?_
  have entered : base.Gathers n drawn := by
    refine ⟨gathers.new, Nat.lt_of_lt_of_le gathers.there attributes.dom.size,
      ?_⟩
    rw [Dom.isText, attributes.dom.kind]
  have remaining : base.Awaits blueprint.children drawn := by
    have spares : world.Spares (· = n) (fun _ => False) drawn :=
      attributes.spares
    refine awaits.spared spares ?_ fun _ => False.elim
    rintro _ rfl
    exact gathers.foreign plain.scatters
  refine (ensures_renderMembers mounts nests entered plain remaining).bind ?_
  rintro _ _ filled ⟨nodes, inner, members⟩
  have element := members.kind.trans attributes.dom.kind
  refine (draws_renderListeners element).weaken fun _ final listeners => ?_
  refine ⟨drawn, filled, nodes, inner, attributes, members, ?_⟩
  rw [element]
  exact listeners

theorem ensures_keepFresh (mounts : mounter.Delivers host meaning base)
    (nests : nested.Delivers host meaning base) {t : TemplateId} {n : NodeId}
    {entered : World σ} {blueprint : Blueprint} {tag : String}
    (found : (base.template t).blueprint = blueprint)
    (isElement : blueprint.text = none) (tagged : blueprint.tag = some tag)
    (plain : base.IsPlain host meaning [.template t])
    (awaits : base.Awaits [.template t] world)
    (new : (createNode (blueprint.elementKind tag [])).result world = n)
    (entering :
      (createNode (blueprint.elementKind tag [])).after world = entered) :
    (Pass.keeping [.node n] (do
        blueprint.renderAttributes host n false
        renderMembers mounter nested blueprint.children n path
        blueprint.renderListeners n)).Ensures record entered
      fun _ final => final.dom.IsAlone n ∧ ∃ requests,
        Offers meaning base [.template t] world n requests final := by
  have included : base.Includes [.template t] blueprint.children :=
    found ▸ base.includes_children (found.symm ▸ isElement)
  have named : (blueprint.attributes.map (·.1)).Nodup :=
    found ▸ (plain.sound t).named
  have means : blueprint.Means host meaning :=
    found ▸ plain.means [0] t ⟨_, rfl, .here _⟩
  have gathers : base.Gathers n entered := by
    rw [← new, ← entering]
    exact .created (fun _ => nofun) awaits.size
  have kind : entered.dom.kind n = blueprint.elementKind tag [] := by
    rw [← new, ← entering]
    exact congrArg Node.kind (world.dom.node_create_self _)
  have created : world.Spares (fun _ => False) (fun _ => False) entered := by
    rw [← entering]
    exact .createNode _
  have waiting := (awaits.included included).spared created
    (fun _ => False.elim) fun _ => False.elim
  have inside : Pass.Ensures _ record
      (entered.holding (.refs [.node n] :: entered.frames)) _ :=
    ensures_fillFresh mounts nests path named means
      (plain.included included) (gathers.held _) (waiting.held _) kind
  refine .keeping (inside.weaken ?_)
  rintro _ final ⟨drawn, filled, nodes, inner, attributes, members, listeners⟩
  obtain ⟨alone, offered⟩ := Offers.element found isElement tagged plain
    awaits.size new entering (attributes.release drawn.frames) members listeners
    rfl rfl
  exact ⟨alone, _, offered.release _⟩

private theorem ensures_freshElement
    (mounts : mounter.Delivers host meaning base)
    (nests : nested.Delivers host meaning base) {t : TemplateId}
    {blueprint : Blueprint} (found : (base.template t).blueprint = blueprint)
    (isElement : blueprint.text = none)
    (plain : base.IsPlain host meaning [.template t])
    (awaits : base.Awaits [.template t] world) :
    (blueprint.renderElement host mounter nested none path).Ensures record world
      fun n final => final.dom.IsAlone n ∧ ∃ requests,
        Offers meaning base [.template t] world n requests final := by
  unfold renderElement
  cases tagged : blueprint.tag with
  | none => exact .throw
  | some tag =>
      exact .act_bind ((ensures_keepFresh mounts nests found isElement tagged
        plain awaits rfl rfl).bind fun _ _ _ offered => .pure offered)

theorem ensures_freshText {t : TemplateId} {blueprint : Blueprint}
    {schema : Schema} (found : (base.template t).blueprint = blueprint)
    (isText : blueprint.text = some schema)
    (plain : base.IsPlain host meaning [.template t])
    (awaits : base.Awaits [.template t] world) :
    (blueprint.renderText host none).Ensures record world
      fun n final => final.dom.IsAlone n ∧ ∃ requests,
        Offers meaning base [.template t] world n requests final := by
  have means : Schema.Means host meaning schema :=
    (plain.means [0] t ⟨_, rfl, .here _⟩).text schema (found ▸ isText)
  have made : ((createNode (.text "")).after world).dom.kind
      ((createNode (.text "")).result world) = .text "" :=
    congrArg Node.kind (world.dom.node_create_self _)
  have looks : blueprint.renderText host none =
      (Pass.act (createNode (.text "")) >>= fun node =>
        showText host node (flattenChunks schema)) := by
    unfold renderText
    rw [isText]
    rfl
  rw [looks]
  refine .act_bind ((draws_showText means.flatten made).weaken ?_)
  rintro _ final ⟨rfl, drawn⟩
  have reads : world.property = base.property := World.Spares.property awaits
  change World.Draws _ (.text (drawnText meaning world.property _)) _ _ _
    at drawn
  rw [reads] at drawn
  obtain ⟨alone, offers⟩ := Offers.text (found ▸ isText) rfl rfl drawn
  exact ⟨alone, _, offers⟩

end Blueprint

namespace Template

variable {mounter : Mounter σ} {nested : Nested σ} {path : DefinitionPath}

/-- A template that is rendered is offered, and marked as rendered. -/
theorem ensures_passWith_fresh (mounts : mounter.Delivers host meaning base)
    (nests : nested.Delivers host meaning base) {t : TemplateId}
    {blueprint : Blueprint} (found : (base.template t).blueprint = blueprint)
    (plain : base.IsPlain host meaning [.template t])
    (awaits : base.Awaits [.template t] world) :
    (passWith host mounter nested t blueprint none path).Ensures record world
      fun n final => final.dom.IsAlone n ∧ ∃ requests,
        Offers meaning base [.template t] world n requests final := by
  have marked (n : NodeId) (record : Record) (between : World σ)
      (offered : between.dom.IsAlone n ∧ ∃ requests,
        Offers meaning base [.template t] world n requests between) :
      Pass.Ensures (Pass.act (update t fun template =>
        { template with rendered := true }) >>= fun _ => pure n) record between
          fun n final => final.dom.IsAlone n ∧ ∃ requests,
            Offers meaning base [.template t] world n requests final := by
    obtain ⟨alone, requests, offers⟩ := offered
    exact .act_bind (.pure ⟨alone, requests, offers.settle rfl
      (.of_setup (sameSetup_markRendered t between) rfl rfl)
      (.of_same rfl rfl rfl)⟩)
  unfold passWith
  cases isText : blueprint.text with
  | some schema =>
      exact (Blueprint.ensures_freshText found isText plain awaits).bind marked
  | none =>
      exact (Blueprint.ensures_freshElement mounts nests found isText plain
        awaits).bind marked

private theorem delivers_passWithin
    (mounts : mounter.Delivers host meaning base)
    (fuel : Nat) : Nested.Delivers host meaning base
      (passWithin host mounter fuel) := by
  induction fuel with
  | zero =>
      intro _ _ _ _ _ _ _ outcome
      cases outcome
  | succ fuel ih =>
      intro t path world n child plain awaits outcome
      exact of_passWithin outcome (ensures_passWith_fresh mounts ih
        (awaits.advances.blueprints t).symm plain awaits)

theorem offers_renderWith (mounts : mounter.Delivers host meaning base)
    {t : TemplateId} {n : NodeId} (plain : base.IsPlain host meaning [.template t])
    (awaits : base.Awaits [.template t] world)
    (rendered : (renderWith host mounter t).result world = .ok n) :
    ((renderWith host mounter t).after world).dom.IsAlone n ∧
      ∃ requests, Offers meaning base [.template t] world n requests
        ((renderWith host mounter t).after world) := by
  obtain ⟨_, _, ⟨record, outcome⟩, after⟩ := renderWith_ok rendered
  rw [after]
  obtain ⟨alone, requests, offers⟩ := delivers_passWithin mounts (t.index + 1) t
    [] (world.holding (.refs [.template t] :: world.frames)) n record plain
    (awaits.held _) outcome
  exact ⟨alone, requests, offers.release world.frames⟩

end Template

namespace View

theorem spares_update (v : ViewId) {change : View → View}
    (template : ∀ view, (change view).template = view.template)
    (rendered : ∀ view, (change view).rendered = true) (world : World σ)
    {touched : NodeId → Prop} :
    world.Spares touched (· = v) ((update v change).after world) where
  advances := advances_update v template rendered world
  properties := rfl
  size := Nat.le_refl _
  nodes _ _ _ := rfl
  views _ differs := view_update_of_ne _ world differs

/-- Nothing is subscribed to when a view is marked. -/
theorem offers_update {v : ViewId} {change : View → View}
    {later : World σ} {n : NodeId} {requests : List Request}
    (template : ∀ view, (change view).template = view.template)
    (rendered : ∀ view, (change view).rendered = true)
    (offers : Offers meaning base [.view v] world n requests later) :
    Offers meaning base [.view v] world n requests
      ((update v change).after later) := by
  refine offers.settle rfl ?_ (.of_same rfl rfl rfl)
  refine (spares_update v template rendered later).mono (fun _ _ => id)
    fun other same => ?_
  rw [same]
  exact base.sees_self v []

theorem element_of_settleMount {v : ViewId} {outcome : Except TemplateError Unit}
    {n : NodeId} (mounted : (settleMount v outcome).result world = .ok n) :
    outcome = .ok () ∧ (world.view v).element = some n ∧
      (settleMount v outcome).after world = world := by
  cases outcome with
  | error error => cases mounted
  | ok =>
      have settled := run_settleMount_ok v world
      unfold Act.result at mounted
      unfold Act.after
      rw [settled] at mounted ⊢
      cases found : (world.view v).element with
      | none =>
          rw [found] at mounted
          cases mounted
      | some element =>
          rw [found] at mounted
          exact ⟨rfl, congrArg some (Except.ok.inj mounted), rfl⟩

/-- Rendering a view offers the element that it gets. -/
def Delivers (host : Host σ) (meaning : Meaning) (base : World σ)
    (render : ViewId → Act σ (Except TemplateError Unit)) : Prop :=
  ∀ v world n, base.IsPlain host meaning [.view v] →
    base.Awaits [.view v] world → (world.view v).rendered = false →
    (render v).result world = .ok () →
    (((render v).after world).view v).element = some n →
      ∃ requests, Offers meaning base [.view v] world n requests
        ((render v).after world)

theorem Delivers.mount {render : ViewId → Act σ (Except TemplateError Unit)}
    (delivers : Delivers host meaning base render) :
    Mounter.Delivers host meaning base (mountWith render) := by
  intro v world n plain awaits mounted
  have runs := run_mountWith render v world
  have same := awaits.view (base.sees_self v [])
  unfold Act.result at mounted
  unfold Act.after
  rw [runs] at mounted ⊢
  split at mounted
  · rename_i rendered
    obtain ⟨_, element, unchanged⟩ := element_of_settleMount mounted
    rw [if_pos rendered]
    refine ⟨[], ?_⟩
    unfold Act.after at unchanged
    rw [unchanged]
    refine .present ?_ plain awaits
    rw [same] at rendered element
    rw [Member.root?, if_neg (by simp [rendered]), element]
  · rename_i fresh
    change (settleMount v ((render v).result world)).result
      ((render v).after world) = _ at mounted
    obtain ⟨rendered, element, unchanged⟩ := element_of_settleMount mounted
    rw [if_neg fresh]
    change ∃ requests, Offers meaning base [.view v] world n requests
      ((settleMount v ((render v).result world)).after ((render v).after world))
    rw [unchanged]
    exact delivers v world n plain awaits (Bool.eq_false_iff.mpr fresh) rendered
      element

/-- A view is what its template comes to. -/
theorem delivers_renderWithin (host : Host σ) (meaning : Meaning)
    (base : World σ) (fuel : Nat) :
    Delivers host meaning base (renderWithin host fuel) := by
  induction fuel with
  | zero =>
      intro _ _ _ _ _ _ outcome
      cases outcome
  | succ fuel ih =>
      intro v world n plain awaits fresh outcome element
      have runs := run_renderWithin host fuel v world
      rw [if_neg (by simp [fresh])] at runs
      have same := awaits.view (base.sees_self v [])
      unfold Act.result at outcome
      unfold Act.after at element ⊢
      cases found : (world.view v).template with
      | none =>
          simp only [found] at runs
          rw [runs] at element ⊢
          change ((Act.after _ world).view v).element = _ at element
          rw [view_update] at element
          refine ⟨[], offers_update (fun _ => rfl) (fun _ => rfl)
            (.present ?_ plain awaits)⟩
          rw [same] at found element
          rw [Member.root?, if_neg (by simp [found])]
          exact element
      | some t =>
          simp only [found] at runs
          rw [same] at fresh found
          have included := base.includes_template fresh found
          have offers := fun n => Template.offers_renderWith (n := n)
            ih.mount (plain.included included) ((awaits.included included).held
              (.refs [.view v] :: world.frames))
          change renderWithin host (fuel + 1) v world =
            settleRender v ((Template.renderWith host
              (mountWith (renderWithin host fuel)) t).result (world.holding
                (.refs [.view v] :: world.frames)))
              (((Template.renderWith host (mountWith (renderWithin host fuel))
                t).after (world.holding (.refs [.view v] ::
                  world.frames))).holding world.frames) at runs
          generalize (Template.renderWith host _ t).after _ = later at *
          generalize (Template.renderWith host _ t).result _ = rendered at *
          cases rendered with
          | error error =>
              rw [runs] at outcome
              cases outcome
          | ok made =>
              rw [runs] at element ⊢
              change (((update v fun view => { view with
                element := some made, rendered := true }).after _).view
                  v).element = _ at element
              rw [view_update] at element
              cases element
              obtain ⟨_, requests, offered⟩ := offers n rfl
              refine ⟨requests, offers_update (fun _ => rfl) (fun _ => rfl) ?_⟩
              have realized := Realized.view fresh found offered.realized .nil
              rw [List.append_nil, List.append_nil] at realized
              exact (offered.release world.frames).widen included realized

theorem delivers_render (host : Host σ) (meaning : Meaning) (base : World σ) :
    Delivers host meaning base (render host) := by
  intro v world n plain awaits fresh outcome element
  unfold render at outcome element ⊢
  rw [Act.result_bind] at outcome
  rw [Act.after_bind] at element ⊢
  exact delivers_renderWithin host meaning base _ v world n plain awaits fresh
    outcome element

end View

end LiveTemplate
