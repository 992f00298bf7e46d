import LiveTemplate.Proofs.Realization
import LiveTemplate.View

/-!
# Working a template into its skeleton

The skeleton of a template is a tree of elements without attributes and of
empty texts.  Drawing starts from nothing there, as it does at a fresh node,
so that the nodes of a skeleton come to what the templates that are worked into
them are rendered as.
-/

namespace LiveTemplate

variable {σ : Type} {host : Host σ} {meaning : Meaning}
  {base world : World σ} {record : Record}

/-- Bare nodes for templates, one for one: empty texts, and elements without
attributes whose children are the skeleton of what is nested. -/
inductive Skeleton (world : World σ) : List Member → List NodeId → Prop where
  | nil : Skeleton world [] []
  | text {t : TemplateId} {n : NodeId} {schema : Schema} {rest : List Member}
      {nodes : List NodeId} :
      (world.template t).blueprint.text = some schema →
      world.dom.kind n = .text "" →
      Skeleton world rest nodes →
      Skeleton world (.template t :: rest) (n :: nodes)
  | element {t : TemplateId} {n : NodeId} {tag : String} {rest : List Member}
      {nodes : List NodeId} :
      (world.template t).blueprint.text = none →
      (world.template t).blueprint.tag = some tag →
      world.dom.kind n = (world.template t).blueprint.elementKind tag [] →
      Skeleton world (world.template t).blueprint.children
        (world.dom.children n) →
      Skeleton world rest nodes →
      Skeleton world (.template t :: rest) (n :: nodes)

namespace Dom

variable {dom : Dom}

/-- A node is inside one of several. -/
def Within (dom : Dom) (nodes : List NodeId) (inner : NodeId) : Prop :=
  ∃ n ∈ nodes, dom.Inside n inner

theorem within_single {n inner : NodeId} :
    dom.Within [n] inner ↔ dom.Inside n inner := by
  simp [Within]

end Dom

/-- Only what some nodes show may have changed. -/
structure World.Redresses (touched : NodeId → Prop) (world later : World σ) :
    Prop where
  spares : world.Spares touched (fun _ => False) later
  children : ∀ n, later.dom.children n = world.dom.children n
  parent? : ∀ n, later.dom.parent? n = world.dom.parent? n

namespace World.Redresses

variable {touched wider : NodeId → Prop} {between later : World σ}

theorem refl (world : World σ) : Redresses touched world world := by
  exact ⟨.refl world, fun _ => rfl, fun _ => rfl⟩

theorem trans (first : Redresses touched world between)
    (second : Redresses touched between later) :
    Redresses touched world later where
  spares := first.spares.trans second.spares
  children n := (second.children n).trans (first.children n)
  parent? n := (second.parent? n).trans (first.parent? n)

theorem mono (redresses : Redresses touched world later)
    (implies : ∀ n, touched n → wider n) : Redresses wider world later where
  spares := redresses.spares.mono (fun n _ => implies n) fun _ => id
  children := redresses.children
  parent? := redresses.parent?

/-- What is held meanwhile makes no difference. -/
theorem release {frames : List Frame}
    (redresses : Redresses touched (world.holding frames) later)
    (restored : List Frame) :
    Redresses touched world (later.holding restored) := by
  exact
    ⟨redresses.spares.release restored, redresses.children, redresses.parent?⟩

theorem held (redresses : Redresses touched world later)
    (frames : List Frame) : Redresses touched world (later.holding frames) := by
  exact ⟨redresses.spares.held frames, redresses.children, redresses.parent?⟩

theorem isLinked (redresses : Redresses touched world later)
    (linked : world.dom.IsLinked) : later.dom.IsLinked := by
  intro parent child
  rw [redresses.children, redresses.parent?]
  exact linked parent child

theorem isTree (redresses : Redresses touched world later) {n : NodeId}
    (isTree : world.dom.IsTree n) : later.dom.IsTree n := by
  exact isTree.of_children redresses.children redresses.spares.size

theorem of_draws {n : NodeId} {kind : NodeKind} {requests : List Request}
    (draws : world.Draws n kind requests later) :
    Redresses (· = n) world later where
  spares := draws.spares
  children other := by
    by_cases same : other = n
    · rw [same]
      exact draws.dom.children
    · exact congrArg Node.children (draws.dom.others other same)
  parent? other := by
    by_cases same : other = n
    · rw [same]
      exact draws.dom.parent?
    · exact congrArg Node.parent (draws.dom.others other same)

end World.Redresses

/-- Templates were worked into nodes. -/
structure Dresses (meaning : Meaning) (base : World σ) (members : List Member)
    (world : World σ) (nodes : List NodeId) (requests : List Request)
    (later : World σ) : Prop where
  realized : Realized meaning base later.dom members nodes requests
  redresses : world.Redresses (base.dom.Within nodes) later
  subscribed : world.Subscribed requests later

/-- Templates that stand before their skeletons in a document whose links are
in step. -/
structure World.IsBare (host : Host σ) (meaning : Meaning) (base : World σ)
    (members : List Member) (nodes : List NodeId) : Prop where
  linked : base.dom.IsLinked
  sound : base.HasSoundTemplates
  skeleton : Skeleton base members nodes
  trees : ∀ n ∈ nodes, base.dom.IsTree n
  apart : nodes.Pairwise fun one other =>
    ∀ inner, base.dom.Inside one inner → ¬base.dom.Inside other inner
  means : ∀ place t, StandsAmong base members place (.template t) →
    (base.template t).blueprint.Means host meaning

/-- The nodes are as they were in the beginning. -/
def World.Undressed (base : World σ) (nodes : List NodeId) (later : World σ) :
    Prop :=
  base.Redresses (fun n => ¬base.dom.Within nodes n) later

namespace World

variable {members : List Member} {nodes : List NodeId} {later : World σ}

namespace IsBare

theorem means_self {t : TemplateId} {rest : List Member}
    (bare : base.IsBare host meaning (.template t :: rest) nodes) :
    (base.template t).blueprint.Means host meaning := by
  exact bare.means [0] t ⟨_, rfl, .here _⟩

theorem head {member : Member} {rest : List Member} {n : NodeId}
    (bare : base.IsBare host meaning (member :: rest) (n :: nodes)) :
    base.IsBare host meaning [member] [n] where
  linked := bare.linked
  sound := bare.sound
  skeleton := by
    cases bare.skeleton with
    | text isText kind _ => exact .text isText kind .nil
    | element isElement tagged kind children _ =>
        exact .element isElement tagged kind children .nil
  trees other inside := by
    rw [List.mem_singleton.mp inside]
    exact bare.trees n (.head _)
  apart := List.pairwise_singleton _ _
  means place t stands := by
    obtain ⟨map, _, maps⟩ := base.includes_head member rest
    exact bare.means _ t (maps place _ stands)

theorem tail {member : Member} {rest : List Member} {n : NodeId}
    (bare : base.IsBare host meaning (member :: rest) (n :: nodes)) :
    base.IsBare host meaning rest nodes where
  linked := bare.linked
  sound := bare.sound
  skeleton := by
    cases bare.skeleton with
    | text _ _ rest => exact rest
    | element _ _ _ _ rest => exact rest
  trees other inside := bare.trees other (.tail _ inside)
  apart := (List.pairwise_cons.mp bare.apart).2
  means place t stands := by
    obtain ⟨map, _, maps⟩ := base.includes_tail member rest
    exact bare.means _ t (maps place _ stands)

theorem children {t : TemplateId} {n : NodeId}
    (bare : base.IsBare host meaning [.template t] [n])
    (isElement : (base.template t).blueprint.text = none) :
    base.IsBare host meaning (base.template t).blueprint.children
      (base.dom.children n) where
  linked := bare.linked
  sound := bare.sound
  skeleton := by
    cases bare.skeleton with
    | text isText =>
        rw [isElement] at isText
        cases isText
    | element _ _ _ children _ => exact children
  trees child member := (bare.trees n (.head _)).child member
  apart := by
    have isTree := bare.trees n (.head _)
    refine isTree.nodup.imp_of_mem fun first second differs inner left right => ?_
    exact differs (bare.linked.siblings isTree first second left right)
  means place inner stands := by
    obtain ⟨map, _, maps⟩ := includes_children isElement
    exact bare.means _ inner (maps place _ stands)

end IsBare

namespace Undressed

theorem head {n : NodeId} (undressed : base.Undressed (n :: nodes) later) :
    base.Undressed [n] later := by
  refine Redresses.mono undressed fun inner outside within => outside ?_
  obtain ⟨other, member, inside⟩ := within
  exact ⟨other, List.mem_cons.mpr (.inl (List.mem_singleton.mp member)), inside⟩

theorem dressed {touched : NodeId → Prop} {between : World σ}
    (undressed : base.Undressed nodes between)
    (redresses : between.Redresses touched later)
    (apart : ∀ inner, touched inner → ¬base.dom.Within nodes inner) :
    base.Undressed nodes later :=
  Redresses.trans undressed (redresses.mono apart)

theorem tail {n : NodeId} (undressed : base.Undressed (n :: nodes) later) :
    base.Undressed nodes later := by
  refine Redresses.mono undressed fun inner outside within => outside ?_
  obtain ⟨other, member, inside⟩ := within
  exact ⟨other, .tail _ member, inside⟩

theorem below {n : NodeId} (undressed : base.Undressed [n] later) :
    base.Undressed (base.dom.children n) later := by
  refine Redresses.mono undressed fun inner outside within => outside ?_
  obtain ⟨child, member, inside⟩ := within
  exact Dom.within_single.mpr (.under member inside)

theorem kind {n : NodeId} (undressed : base.Undressed [n] later)
    (there : n.index < base.dom.nodes.size) :
    later.dom.kind n = base.dom.kind n := by
  exact congrArg Node.kind (undressed.spares.nodes n there
    (not_not_intro (Dom.within_single.mpr (.here n))))

end Undressed

end World

namespace Dresses

variable {members : List Member} {nodes : List NodeId}
  {requests asked : List Request} {between later : World σ}

/-- What is held meanwhile makes no difference. -/
theorem release {frames : List Frame}
    (dresses : Dresses meaning base members (world.holding frames) nodes
      requests later) (restored : List Frame) :
    Dresses meaning base members world nodes requests
      (later.holding restored) := by
  exact ⟨dresses.realized, dresses.redresses.release restored,
    dresses.subscribed.release restored⟩

theorem kept {n : NodeId} {touched unseen : NodeId → Prop}
    (before : base.Redresses unseen world)
    (redresses : world.Redresses touched later) (isTree : base.dom.IsTree n)
    (apart : ∀ inner, base.dom.Inside n inner → ¬touched inner) :
    world.dom.SameBelow later.dom n := by
  refine .of_nodes fun inner inside => ?_
  have below := inside.of_children before.children
  exact redresses.spares.nodes inner (Nat.lt_of_lt_of_le
    (isTree.inside below).there before.spares.size) (apart inner below)

theorem cons {member : Member} {rest : List Member} {n : NodeId}
    (first : Dresses meaning base [member] world [n] requests between)
    (second : Dresses meaning base rest between nodes asked later)
    (undressed : base.Undressed nodes between)
    (bare : base.IsBare host meaning (member :: rest) (n :: nodes)) :
    Dresses meaning base (member :: rest) world (n :: nodes)
      (requests ++ asked) later where
  realized := by
    refine (first.realized.kept fun other inside => ?_).append second.realized
    rw [List.mem_singleton.mp inside]
    refine kept undressed second.redresses (bare.trees n (.head _)) ?_
    rintro inner left ⟨other, member, right⟩
    exact (List.pairwise_cons.mp bare.apart).1 other member inner left right
  redresses := by
    refine (first.redresses.mono fun inner => ?_).trans
      (second.redresses.mono fun inner => ?_)
    · rintro ⟨other, member, inside⟩
      exact ⟨other, List.mem_cons.mpr (.inl (List.mem_singleton.mp member)),
        inside⟩
    · rintro ⟨other, member, inside⟩
      exact ⟨other, .tail _ member, inside⟩
  subscribed := first.subscribed.trans second.subscribed

theorem element {t : TemplateId} {n : NodeId} {tag : String}
    {drawn filled : World σ} {inner heard : List Request}
    (isElement : (base.template t).blueprint.text = none)
    (tagged : (base.template t).blueprint.tag = some tag)
    (bare : base.IsBare host meaning [.template t] [n])
    (undressed : base.Undressed (base.dom.children n) drawn)
    (attributes : world.Draws n ((base.template t).blueprint.elementKind tag
      ((base.template t).blueprint.drawnAttributes meaning base.property
        (some tag))) asked drawn)
    (members : Dresses meaning base (base.template t).blueprint.children drawn
      (base.dom.children n) inner filled)
    (listeners : filled.Draws n (filled.dom.kind n) heard later)
    (requested :
      asked = (base.template t).blueprint.attributes.flatMap entryRequests)
    (listened : heard = (base.template t).blueprint.listenerRequests n) :
    Dresses meaning base [.template t] world [n] (asked ++ inner ++ heard)
      later := by
  have isTree := bare.trees n (.head _)
  have outside : ¬base.dom.Within (base.dom.children n) n :=
    fun ⟨child, member, inside⟩ => isTree.acyclic child member inside
  have row : filled.dom.node n = drawn.dom.node n :=
    members.redresses.spares.nodes n
      (Nat.lt_of_lt_of_le isTree.there undressed.spares.size) outside
  have finished : base.Redresses (fun _ => True) filled :=
    (World.Redresses.mono undressed fun _ _ => trivial).trans
      (members.redresses.mono fun _ _ => trivial)
  have drew := World.Redresses.of_draws listeners
  have kind : later.dom.kind n = (base.template t).blueprint.elementKind tag
      ((base.template t).blueprint.drawnAttributes meaning base.property
        (some tag)) := by
    rw [listeners.dom.kind, Dom.kind, row, ← attributes.dom.kind]
    rfl
  have children : later.dom.children n = base.dom.children n :=
    (drew.children n).trans (finished.children n)
  refine ⟨?_, ?_, ?_⟩
  · have below := members.realized.kept fun child member =>
      kept finished drew (isTree.child member) fun inner inside same =>
        outside ⟨child, member, same ▸ inside⟩
    rw [← children] at below
    have single := Realized.element isElement tagged kind below .nil
    rw [requested, listened]
    rwa [List.append_nil] at single
  · have self (inner : NodeId) (same : inner = n) :
        base.dom.Within [n] inner := by
      rw [same]
      exact Dom.within_single.mpr (.here n)
    refine ((World.Redresses.of_draws attributes).mono self).trans
      ((members.redresses.mono fun inner within => ?_).trans (drew.mono self))
    obtain ⟨child, member, inside⟩ := within
    exact Dom.within_single.mpr (.under member inside)
  · rw [List.append_assoc]
    exact attributes.subscribed.trans
      (members.subscribed.trans listeners.subscribed)

theorem text {t : TemplateId} {n : NodeId} {schema : Schema}
    (isText : (base.template t).blueprint.text = some schema)
    (drawn : world.Draws n (.text (drawnText meaning base.property
      (flattenChunks schema))) (slotRequests (flattenChunks schema)) later) :
    Dresses meaning base [.template t] world [n]
      (slotRequests (flattenChunks schema)) later where
  realized := by
    have single := Realized.text isText drawn.dom.kind .nil
    rwa [List.append_nil] at single
  redresses := by
    refine (World.Redresses.of_draws drawn).mono fun inner same => ?_
    rw [same]
    exact Dom.within_single.mpr (.here n)
  subscribed := drawn.subscribed

end Dresses

/-- A nested template dresses the skeleton that it is worked into. -/
def Nested.Dresses (host : Host σ) (meaning : Meaning) (base : World σ)
    (nested : Nested σ) : Prop :=
  ∀ t n path world m record, base.IsBare host meaning [.template t] [n] →
    base.Undressed [n] world →
      (nested t (some n) path).result world = (.ok m, record) →
        ∃ requests, LiveTemplate.Dresses meaning base [.template t] world [n]
          requests ((nested t (some n) path).after world)

namespace Blueprint

variable {nested : Nested σ} {path : DefinitionPath}

private theorem ensures_applyMembers
    (dresses : nested.Dresses host meaning base)
    (blueprint : Blueprint) {node : NodeId} {index place : Nat}
    {members : List Member} {nodes : List NodeId}
    (bare : base.IsBare host meaning members nodes)
    (undressed : base.Undressed nodes world)
    (remaining : nodes = (base.dom.children node).drop place) :
    (blueprint.applyMembers nested node path index place members).Ensures record
      world fun _ final => ∃ requests,
        Dresses meaning base members world nodes requests final := by
  induction members generalizing index place nodes record world with
  | nil =>
      cases bare.skeleton
      exact .pure ⟨[], .nil, .refl world, .refl world⟩
  | cons member rest ih =>
      obtain ⟨t, n, others, rfl, rfl⟩ : ∃ t n others,
          member = .template t ∧ nodes = n :: others := by
        cases bare.skeleton with
        | text => exact ⟨_, _, _, rfl, rfl⟩
        | element => exact ⟨_, _, _, rfl, rfl⟩
      have found : (world.dom.children node)[place]? = some n := by
        rw [undressed.children, ← List.head?_drop, ← remaining]
        rfl
      rw [applyMembers]
      refine .act_bind ?_
      rw [Act.result_get, Act.after_get]
      dsimp only
      rw [found]
      refine .nest_bind fun m child recorded outcome => ?_
      obtain ⟨requests, first⟩ :=
        dresses t n _ world m child bare.head undressed.head outcome
      have still := undressed.tail.dressed first.redresses fun inner inside => by
        rintro ⟨other, member, below⟩
        exact (List.pairwise_cons.mp bare.apart).1 other member inner
          (Dom.within_single.mp inside) below
      have next : others = (base.dom.children node).drop (place + 1) := by
        rw [← List.tail_drop, ← remaining]
        rfl
      refine (ih bare.tail still next).weaken ?_
      rintro _ final ⟨asked, second⟩
      exact ⟨_, first.cons second still bare⟩

private theorem ensures_dressElement
    (dresses : nested.Dresses host meaning base)
    (path : DefinitionPath) {t : TemplateId} {n : NodeId}
    {blueprint : Blueprint} {tag : String}
    (found : (base.template t).blueprint = blueprint)
    (isElement : blueprint.text = none) (tagged : blueprint.tag = some tag)
    (bare : base.IsBare host meaning [.template t] [n])
    (undressed : base.Undressed [n] world)
    (kind : base.dom.kind n = blueprint.elementKind tag []) :
    Pass.Ensures (do
        blueprint.renderAttributes host n true
        blueprint.applyMembers nested n path 0 0 blueprint.children
        blueprint.renderListeners n) record world
      fun _ final => ∃ requests,
        Dresses meaning base [.template t] world [n] requests final := by
  subst found
  have isTree := bare.trees n (.head _)
  have reads : world.property = base.property := undressed.spares.property
  have drawing : Pass.Ensures _ record world _ := draws_renderAttributes true
    (bare.sound t).named bare.means_self
    ((undressed.kind isTree.there).trans kind)
  rw [reads] at drawing
  refine drawing.bind fun _ _ drawn attributes => ?_
  have still := undressed.below.dressed (World.Redresses.of_draws attributes) <| by
    rintro inner same ⟨child, member, inside⟩
    exact isTree.acyclic child member (same ▸ inside)
  refine (ensures_applyMembers dresses _ (bare.children isElement) still
    rfl).bind ?_
  rintro _ _ filled ⟨inner, members⟩
  have row : filled.dom.node n = drawn.dom.node n := by
    refine members.redresses.spares.nodes n
      (Nat.lt_of_lt_of_le isTree.there still.spares.size) ?_
    rintro ⟨child, member, inside⟩
    exact isTree.acyclic child member inside
  have element := (congrArg Node.kind row).trans attributes.dom.kind
  refine (draws_renderListeners element).weaken fun _ final listeners => ?_
  rw [← element] at listeners
  exact ⟨_, .element isElement tagged bare still attributes members listeners
    rfl rfl⟩

theorem ensures_dressText {t : TemplateId} {n : NodeId}
    {blueprint : Blueprint} {schema : Schema}
    (found : (base.template t).blueprint = blueprint)
    (isText : blueprint.text = some schema)
    (bare : base.IsBare host meaning [.template t] [n])
    (undressed : base.Undressed [n] world)
    (kind : base.dom.kind n = .text "") :
    (blueprint.renderText host (some n)).Ensures record world
      fun _ final => ∃ requests,
        Dresses meaning base [.template t] world [n] requests final := by
  subst found
  have reads : world.property = base.property := undressed.spares.property
  have looks : (base.template t).blueprint.renderText host (some n) =
      (Pass.act get >>= fun world => Pass.note (fun record =>
        { record with text := some (world.dom.textContent n) }) >>= fun _ =>
          showText host n (flattenChunks schema)) := by
    unfold renderText
    rw [isText]
    rfl
  rw [looks]
  refine .act_bind (.note_bind ((draws_showText
    (bare.means_self.text schema isText).flatten
    ((undressed.kind (bare.trees n (.head _)).there).trans kind)).weaken ?_))
  rintro _ final ⟨_, drawn⟩
  rw [reads] at drawn
  exact ⟨_, .text isText drawn⟩

private theorem ensures_bareElement (mounter : Mounter σ)
    (dresses : nested.Dresses host meaning base) {t : TemplateId} {n : NodeId}
    {blueprint : Blueprint} {tag : String}
    (found : (base.template t).blueprint = blueprint)
    (isElement : blueprint.text = none) (tagged : blueprint.tag = some tag)
    (bare : base.IsBare host meaning [.template t] [n])
    (undressed : base.Undressed [n] world)
    (kind : base.dom.kind n = blueprint.elementKind tag []) :
    (blueprint.renderElement host mounter nested (some n) path).Ensures record
      world fun _ final => ∃ requests,
        Dresses meaning base [.template t] world [n] requests final := by
  have inside : Pass.Ensures _ record
      (world.holding (.refs [.node n] :: world.frames)) _ :=
    ensures_dressElement dresses path found isElement tagged bare
      (undressed.held _) kind
  rw [renderElement_some]
  refine Pass.Ensures.bind (.keeping (inside.weaken ?_))
    fun _ _ _ dressed => .pure dressed
  rintro _ final ⟨requests, dressed⟩
  exact ⟨requests, dressed.release world.frames⟩

end Blueprint

namespace Template

variable {mounter : Mounter σ} {nested : Nested σ} {path : DefinitionPath}

/-- A template is worked into its skeleton. -/
theorem ensures_passWith_bare (dresses : nested.Dresses host meaning base)
    {t : TemplateId} {n : NodeId} {blueprint : Blueprint}
    (found : (base.template t).blueprint = blueprint)
    (bare : base.IsBare host meaning [.template t] [n])
    (undressed : base.Undressed [n] world) :
    (passWith host mounter nested t blueprint (some n) path).Ensures record
      world fun _ final => ∃ requests,
        Dresses meaning base [.template t] world [n] requests final := by
  unfold passWith
  cases isText : blueprint.text with
  | some schema =>
      have kind : base.dom.kind n = .text "" := by
        cases bare.skeleton with
        | text _ kind _ => exact kind
        | element isElement =>
            rw [found, isText] at isElement
            cases isElement
      exact (Blueprint.ensures_dressText found isText bare undressed kind).bind
        fun _ _ _ dressed => .pure dressed
  | none =>
      obtain ⟨tag, tagged, kind⟩ : ∃ tag, blueprint.tag = some tag ∧
          base.dom.kind n = blueprint.elementKind tag [] := by
        cases bare.skeleton with
        | text some =>
            rw [found, isText] at some
            cases some
        | element _ tagged kind =>
            rw [found] at tagged kind
            exact ⟨_, tagged, kind⟩
      exact (Blueprint.ensures_bareElement mounter dresses found isText tagged
        bare undressed kind).bind fun _ _ _ dressed => .pure dressed

theorem dresses_passWithin (host : Host σ) (meaning : Meaning) (base : World σ)
    (mounter : Mounter σ) (fuel : Nat) :
    Nested.Dresses host meaning base (passWithin host mounter fuel) := by
  induction fuel with
  | zero =>
      intro _ _ _ _ _ _ _ _ outcome
      cases outcome
  | succ fuel ih =>
      intro t n path world m record bare undressed outcome
      exact of_passWithin outcome (ensures_passWith_bare ih
        (undressed.spares.advances.blueprints t).symm bare undressed)

theorem dresses_applyPass {t : TemplateId} {n m : NodeId} {record : Record}
    (bare : world.IsBare host meaning [.template t] [n])
    (passed : (applyPass host t n).result world = (.ok m, record)) :
    ∃ requests, Dresses meaning world [.template t] world [n] requests
      ((applyPass host t n).after world) := by
  have undressed : world.Undressed [n]
      (world.holding (.refs [.template t] :: world.frames)) :=
    (World.Redresses.refl world).held _
  obtain ⟨requests, dresses⟩ := dresses_passWithin host meaning world
    (fun _ => return .error .componentNotRendered) (t.index + 1) t n [] _ m
    record bare undressed passed
  exact ⟨requests, dresses.release world.frames⟩

end Template

end LiveTemplate
