import LiveTemplate.Proofs.Scattering

/-!
# The nodes that members come to

`Realized` says that nodes of a document are what some members come to, and
which subscriptions go with them.  It reads the document below those nodes
only, so that it stays true while other nodes are drawn and moved.

A node is offered when one member has been rendered, and the nodes of several
members are gathered at the end of another node, one after the other.
-/

namespace LiveTemplate

variable {σ : Type}

/-- The kind of an element that is made from a definition. -/
def Blueprint.elementKind (blueprint : Blueprint) (tag : String)
    (attributes : List Attribute) : NodeKind :=
  .element (blueprint.namespaceName.getD Selector.htmlNamespace) tag attributes

/-- Nodes of a document are what members come to, in order, and requests are
what is subscribed to on the way. -/
inductive Realized (meaning : Meaning) (world : World σ) (dom : Dom) :
    List Member → List NodeId → List Request → Prop where
  | nil : Realized meaning world dom [] [] []
  | text {t : TemplateId} {n : NodeId} {schema : Schema} {rest : List Member}
      {nodes : List NodeId} {requests : List Request} :
      (world.template t).blueprint.text = some schema →
      dom.kind n =
        .text (drawnText meaning world.property (flattenChunks schema)) →
      Realized meaning world dom rest nodes requests →
      Realized meaning world dom (.template t :: rest) (n :: nodes)
        (slotRequests (flattenChunks schema) ++ requests)
  | element {t : TemplateId} {n : NodeId} {tag : String} {rest : List Member}
      {nodes : List NodeId} {inner requests : List Request} :
      (world.template t).blueprint.text = none →
      (world.template t).blueprint.tag = some tag →
      dom.kind n = (world.template t).blueprint.elementKind tag
        ((world.template t).blueprint.drawnAttributes meaning world.property
          (some tag)) →
      Realized meaning world dom (world.template t).blueprint.children
        (dom.children n) inner →
      Realized meaning world dom rest nodes requests →
      Realized meaning world dom (.template t :: rest) (n :: nodes)
        (((world.template t).blueprint.attributes.flatMap entryRequests ++
          inner ++ (world.template t).blueprint.listenerRequests n) ++ requests)
  | collection {c : CollectionId} {rest : List Member}
      {inner nodes : List NodeId} {asked requests : List Request} :
      Realized meaning world dom ((world.collection c).members.map .view)
        inner asked →
      Realized meaning world dom rest nodes requests →
      Realized meaning world dom (.collection c :: rest) (inner ++ nodes)
        (asked ++ requests)
  | view {v : ViewId} {t : TemplateId} {rest : List Member}
      {inner nodes : List NodeId} {asked requests : List Request} :
      (world.view v).rendered = false →
      (world.view v).template = some t →
      Realized meaning world dom [.template t] inner asked →
      Realized meaning world dom rest nodes requests →
      Realized meaning world dom (.view v :: rest) (inner ++ nodes)
        (asked ++ requests)
  | present {member : Member} {r : NodeId} {rest : List Member}
      {nodes : List NodeId} {requests : List Request} :
      member.root? world = some r →
      (∀ n ∈ world.dom.moved r, world.dom.SameBelow dom n) →
      Realized meaning world dom rest nodes requests →
      Realized meaning world dom (member :: rest) (world.dom.moved r ++ nodes)
        requests

namespace Realized

variable {meaning : Meaning} {world : World σ} {dom later : Dom}
  {members more : List Member} {nodes others : List NodeId}
  {requests asked : List Request}

theorem append (first : Realized meaning world dom members nodes requests)
    (second : Realized meaning world dom more others asked) :
    Realized meaning world dom (members ++ more) (nodes ++ others)
      (requests ++ asked) := by
  induction first with
  | nil => exact second
  | text isText kind _ ih =>
      rw [List.append_assoc]
      exact .text isText kind ih
  | element isElement tag kind children _ _ ih =>
      rw [List.append_assoc]
      exact .element isElement tag kind children ih
  | collection members _ _ ih =>
      rw [List.append_assoc, List.append_assoc]
      exact .collection members ih
  | view fresh found template _ _ ih =>
      rw [List.append_assoc, List.append_assoc]
      exact .view fresh found template ih
  | present root same _ ih =>
      rw [List.append_assoc]
      exact .present root same ih

theorem of_text {t : TemplateId} {schema : Schema} {rest : List Member}
    (isText : (world.template t).blueprint.text = some schema)
    (realized : Realized meaning world dom (.template t :: rest) nodes
      requests) :
    ∃ n others asked, nodes = n :: others ∧
      requests = slotRequests (flattenChunks schema) ++ asked ∧
      dom.kind n =
        .text (drawnText meaning world.property (flattenChunks schema)) ∧
      Realized meaning world dom rest others asked := by
  cases realized with
  | text same kind rest =>
      rw [isText] at same
      cases same
      exact ⟨_, _, _, rfl, rfl, kind, rest⟩
  | element isElement =>
      rw [isText] at isElement
      cases isElement
  | present root => cases root

theorem of_element {t : TemplateId} {tag : String} {rest : List Member}
    (isElement : (world.template t).blueprint.text = none)
    (tagged : (world.template t).blueprint.tag = some tag)
    (realized : Realized meaning world dom (.template t :: rest) nodes
      requests) :
    ∃ n others inner asked, nodes = n :: others ∧
      requests = ((world.template t).blueprint.attributes.flatMap
        entryRequests ++ inner ++
          (world.template t).blueprint.listenerRequests n) ++ asked ∧
      dom.kind n = (world.template t).blueprint.elementKind tag
        ((world.template t).blueprint.drawnAttributes meaning world.property
          (some tag)) ∧
      Realized meaning world dom (world.template t).blueprint.children
        (dom.children n) inner ∧
      Realized meaning world dom rest others asked := by
  cases realized with
  | text isText =>
      rw [isElement] at isText
      cases isText
  | element _ same kind children rest =>
      rw [tagged] at same
      cases same
      exact ⟨_, _, _, _, rfl, rfl, kind, children, rest⟩
  | present root => cases root

theorem kept (realized : Realized meaning world dom members nodes requests)
    (same : ∀ n ∈ nodes, dom.SameBelow later n) :
    Realized meaning world later members nodes requests := by
  induction realized with
  | nil => exact .nil
  | @text _ n _ _ _ _ isText kind _ ih =>
      refine .text isText ?_ (ih fun other member => same other (.tail _ member))
      exact (same n (.head _) n (.here n)).1.trans kind
  | @element _ n _ _ _ _ _ isElement tag kind _ _ children ih =>
      have root := same n (.head _) n (.here n)
      refine .element isElement tag (root.1.trans kind) ?_
        (ih fun other member => same other (.tail _ member))
      rw [root.2]
      exact children fun child member => (same n (.head _)).child member
  | collection _ _ members ih =>
      exact .collection (members fun n inside => same n (by simp [inside]))
        (ih fun n inside => same n (by simp [inside]))
  | view fresh found _ _ template ih =>
      exact .view fresh found
        (template fun n inside => same n (by simp [inside]))
        (ih fun n inside => same n (by simp [inside]))
  | present root unchanged _ ih =>
      refine .present root (fun n inside => ?_)
        (ih fun n inside => same n (by simp [inside]))
      exact (unchanged n inside).trans (same n (by simp [inside]))

end Realized

/-- Members that keep apart in a document whose links are in step, with
definitions whose bindings are functions of the properties. -/
structure World.IsPlain (host : Host σ) (meaning : Meaning) (world : World σ)
    (members : List Member) : Prop where
  linked : world.dom.IsLinked
  sound : world.HasSoundTemplates
  scatters : world.Scatters members
  means : ∀ place t, StandsAmong world members place (.template t) →
    (world.template t).blueprint.Means host meaning

theorem World.IsPlain.included {host : Host σ} {meaning : Meaning}
    {world : World σ} {outer inner : List Member}
    (plain : world.IsPlain host meaning outer)
    (included : world.Includes outer inner) :
    world.IsPlain host meaning inner where
  linked := plain.linked
  sound := plain.sound
  scatters := plain.scatters.included included
  means place t stands := by
    obtain ⟨map, _, maps⟩ := included
    exact plain.means _ t (maps place _ stands)

/-- A member has been rendered and can be put somewhere as one node. -/
structure Offers (meaning : Meaning) (base : World σ) (members : List Member)
    (world : World σ) (n : NodeId) (requests : List Request)
    (later : World σ) : Prop where
  realized : Realized meaning base later.dom members (later.dom.moved n)
    requests
  tree : later.dom.IsTree n
  within : ∀ inner, later.dom.Inside n inner →
    world.dom.nodes.size ≤ inner.index ∨ base.Owns members inner
  moves : ∀ other, other = n ∨ other ∈ later.dom.moved n →
    world.dom.nodes.size ≤ other.index ∨ base.Touches members other
  former : ∀ parent, later.dom.parent? n = some parent →
    base.Touches members parent ∧ ¬later.dom.Inside n parent
  spares : world.Spares (base.Touches members) (base.Sees members) later
  subscribed : world.Subscribed requests later

namespace Offers

variable {meaning : Meaning} {base world later : World σ}
  {members outer : List Member} {n : NodeId} {requests : List Request}

theorem widen (offers : Offers meaning base members world n requests later)
    (included : base.Includes outer members)
    (realized : Realized meaning base later.dom outer (later.dom.moved n)
      requests) : Offers meaning base outer world n requests later where
  realized := realized
  tree := offers.tree
  within inner inside := (offers.within inner inside).imp_right included.owns
  moves other among := (offers.moves other among).imp_right included.touches
  former parent found :=
    ⟨included.touches (offers.former parent found).1,
      (offers.former parent found).2⟩
  spares := offers.spares.mono (fun _ _ => included.touches)
    fun _ => included.sees
  subscribed := offers.subscribed

/-- What is held meanwhile makes no difference. -/
theorem release {frames : List Frame}
    (offers : Offers meaning base members (world.holding frames) n requests
      later) (restored : List Frame) :
    Offers meaning base members world n requests (later.holding restored) where
  realized := offers.realized
  tree := offers.tree
  within := offers.within
  moves := offers.moves
  former := offers.former
  spares := offers.spares.release restored
  subscribed := offers.subscribed.release restored

theorem settle {final : World σ}
    (offers : Offers meaning base members world n requests later)
    (dom : final.dom = later.dom)
    (spares : later.Spares (base.Touches members) (base.Sees members) final)
    (subscribed : later.Subscribed [] final) :
    Offers meaning base members world n requests final where
  realized := by
    rw [dom]
    exact offers.realized
  tree := by
    rw [dom]
    exact offers.tree
  within := by
    rw [dom]
    exact offers.within
  moves := by
    rw [dom]
    exact offers.moves
  former := by
    rw [dom]
    exact offers.former
  spares := offers.spares.trans spares
  subscribed := by
    have both := offers.subscribed.trans subscribed
    rwa [List.append_nil] at both

theorem present {host : Host σ} {member : Member} {r : NodeId}
    (root : member.root? base = some r)
    (plain : base.IsPlain host meaning [member])
    (awaits : base.Awaits [member] world) :
    Offers meaning base [member] world r [] world := by
  have roots := World.roots_self root []
  have below := awaits.sameBelow plain.scatters roots
  have isTree := plain.scatters.trees r roots
  have row := awaits.node plain.scatters roots.owns
  have moved : world.dom.moved r = base.dom.moved r := by
    unfold Dom.moved Dom.isFragment Dom.kind Dom.children
    rw [row]
  refine ⟨?_, below.isTree isTree awaits.size, fun inner inside => ?_,
    fun other among => ?_, fun parent above => ⟨?_, fun inside => ?_⟩,
    .refl world, .refl world⟩
  · rw [moved, ← List.append_nil (base.dom.moved r)]
    refine .present root (fun n among => ?_) .nil
    unfold Dom.moved at among
    split at among
    · exact below.child among
    · rw [List.mem_singleton.mp among]
      exact below
  · exact .inr ⟨r, roots, below.inside_iff.mp inside⟩
  · rw [moved] at among
    exact .inr ⟨r, roots, among.imp_right .inr⟩
  · rw [Dom.parent?, row] at above
    exact ⟨r, roots, .inr (.inl above)⟩
  · rw [Dom.parent?, row] at above
    have inside := below.inside_iff.mp inside
    exact (isTree.inside inside).acyclic r
      ((plain.linked parent r).mpr above) inside

end Offers

/-! ## Nodes that are gathered -/

/-- Something new that takes children. -/
structure World.Gathers (base : World σ) (parent : NodeId) (world : World σ) :
    Prop where
  new : base.dom.nodes.size ≤ parent.index
  there : parent.index < world.dom.nodes.size
  notText : world.dom.isText parent = false

/-- What members come to is at the end of a parent. -/
structure Mounts (meaning : Meaning) (base : World σ) (parent : NodeId)
    (members : List Member) (world : World σ) (nodes : List NodeId)
    (requests : List Request) (later : World σ) : Prop where
  realized : Realized meaning base later.dom members nodes requests
  trees : ∀ n ∈ nodes, later.dom.IsTree n
  nodup : nodes.Nodup
  within : ∀ n ∈ nodes, ∀ inner, later.dom.Inside n inner →
    world.dom.nodes.size ≤ inner.index ∨ base.Owns members inner
  moves : ∀ n ∈ nodes,
    world.dom.nodes.size ≤ n.index ∨ base.Touches members n
  kind : later.dom.kind parent = world.dom.kind parent
  parent? : later.dom.parent? parent = world.dom.parent? parent
  children : later.dom.children parent = world.dom.children parent ++ nodes
  spares : world.Spares (fun n => base.Touches members n ∨ n = parent)
    (base.Sees members) later
  subscribed : world.Subscribed requests later

namespace World.Gathers

variable {host : Host σ} {meaning : Meaning} {base world later : World σ}
  {parent : NodeId} {members : List Member} {nodes : List NodeId}
  {requests : List Request}

theorem foreign (gathers : base.Gathers parent world)
    (scatters : base.Scatters members) : ¬base.Owns members parent := by
  intro owns
  exact Nat.not_lt_of_le gathers.new (scatters.lt_of_owns owns)

theorem untouched (gathers : base.Gathers parent world)
    (plain : base.IsPlain host meaning members) :
    ¬base.Touches members parent := by
  intro touches
  exact Nat.not_lt_of_le gathers.new
    (plain.scatters.lt_of_touches plain.linked touches)

/-- A node that is new since then or owned is another one. -/
theorem ne_of_within (gathers : base.Gathers parent world)
    (scatters : base.Scatters members) {n : NodeId}
    (within : world.dom.nodes.size ≤ n.index ∨ base.Owns members n) :
    n ≠ parent := by
  rintro rfl
  rcases within with new | owns
  · exact Nat.not_lt_of_le new gathers.there
  · exact gathers.foreign scatters owns

theorem ne_of_moves (gathers : base.Gathers parent world)
    (plain : base.IsPlain host meaning members) {n : NodeId}
    (moves : world.dom.nodes.size ≤ n.index ∨ base.Touches members n) :
    n ≠ parent := by
  rintro rfl
  rcases moves with new | touches
  · exact Nat.not_lt_of_le new gathers.there
  · exact gathers.untouched plain touches

theorem of_kind (gathers : base.Gathers parent world)
    (kind : later.dom.kind parent = world.dom.kind parent)
    (size : world.dom.nodes.size ≤ later.dom.nodes.size) :
    base.Gathers parent later where
  new := gathers.new
  there := Nat.lt_of_lt_of_le gathers.there size
  notText := by
    unfold Dom.isText
    rw [kind]
    exact gathers.notText

theorem created {kind : NodeKind} (notText : ∀ data, kind ≠ .text data)
    (grown : base.dom.nodes.size ≤ world.dom.nodes.size) :
    base.Gathers ((createNode kind).result world)
      ((createNode kind).after world) where
  new := grown
  there := Nat.lt_of_lt_of_eq (Nat.lt_succ_self _)
    (world.dom.size_create kind).symm
  notText := by
    have row : ((createNode kind).after world).dom.kind
        ((createNode kind).result world) = kind :=
      congrArg Node.kind (world.dom.node_create_self kind)
    rw [Bool.eq_false_iff, ne_eq, Dom.isText_iff, row]
    exact fun ⟨data, isText⟩ => notText data isText

theorem held (gathers : base.Gathers parent world) (frames : List Frame) :
    base.Gathers parent (world.holding frames) := by
  exact ⟨gathers.new, gathers.there, gathers.notText⟩

end World.Gathers

namespace Mounts

variable {host : Host σ} {meaning : Meaning}
  {base world between later : World σ} {parent : NodeId}
  {members outer : List Member} {nodes others : List NodeId}
  {requests asked : List Request}

theorem gathers (mounts : Mounts meaning base parent members world nodes
      requests later) (gathers : base.Gathers parent world) :
    base.Gathers parent later :=
  gathers.of_kind mounts.kind mounts.spares.size

theorem nil (world : World σ) :
    Mounts meaning base parent [] world [] [] world where
  realized := .nil
  trees _ impossible := absurd impossible List.not_mem_nil
  nodup := .nil
  within _ impossible := absurd impossible List.not_mem_nil
  moves _ impossible := absurd impossible List.not_mem_nil
  kind := rfl
  parent? := rfl
  children := (List.append_nil _).symm
  spares := .refl world
  subscribed := .refl world

theorem widen (mounts : Mounts meaning base parent members world nodes requests
      later) (included : base.Includes outer members)
    (realized : Realized meaning base later.dom outer nodes requests) :
    Mounts meaning base parent outer world nodes requests later where
  realized := realized
  trees := mounts.trees
  nodup := mounts.nodup
  within n member inner inside :=
    (mounts.within n member inner inside).imp_right included.owns
  moves n member := (mounts.moves n member).imp_right included.touches
  kind := mounts.kind
  parent? := mounts.parent?
  children := mounts.children
  spares := mounts.spares.mono (fun _ _ => .imp_left included.touches)
    fun _ => included.sees
  subscribed := mounts.subscribed

/-- What is held meanwhile makes no difference. -/
theorem release {frames : List Frame}
    (mounts : Mounts meaning base parent members (world.holding frames) nodes
      requests later) (restored : List Frame) :
    Mounts meaning base parent members world nodes requests
      (later.holding restored) where
  realized := mounts.realized
  trees := mounts.trees
  nodup := mounts.nodup
  within := mounts.within
  moves := mounts.moves
  kind := mounts.kind
  parent? := mounts.parent?
  children := mounts.children
  spares := mounts.spares.release restored
  subscribed := mounts.subscribed.release restored

theorem settle {final : World σ}
    (mounts : Mounts meaning base parent members world nodes requests later)
    (dom : final.dom = later.dom)
    (spares : later.Spares (fun _ => False) (fun _ => False) final)
    (subscribed : later.Subscribed [] final) :
    Mounts meaning base parent members world nodes requests final where
  realized := by
    rw [dom]
    exact mounts.realized
  trees := by
    rw [dom]
    exact mounts.trees
  nodup := mounts.nodup
  within := by
    rw [dom]
    exact mounts.within
  moves := mounts.moves
  kind := by
    rw [dom]
    exact mounts.kind
  parent? := by
    rw [dom]
    exact mounts.parent?
  children := by
    rw [dom]
    exact mounts.children
  spares := mounts.spares.trans
    (spares.mono (fun _ _ => False.elim) fun _ => False.elim)
  subscribed := by
    have both := mounts.subscribed.trans subscribed
    rwa [List.append_nil] at both

theorem inside_of_moved {dom : Dom} {n child : NodeId}
    (member : child ∈ dom.moved n) : dom.Inside n child := by
  unfold Dom.moved at member
  split at member
  · exact .child member
  · rw [List.mem_singleton.mp member]
    exact .here n

private theorem ne_of_inside_moved {dom : Dom} {n child inner : NodeId}
    (isTree : dom.IsTree n) (member : child ∈ dom.moved n)
    (inside : dom.Inside child inner) (fragment : dom.isFragment n = true) :
    inner ≠ n := by
  rw [Dom.moved, if_pos fragment] at member
  rintro rfl
  exact isTree.acyclic child member inside

theorem push {n : NodeId}
    (offers : Offers meaning base members world n requests later)
    (gathers : base.Gathers parent world)
    (plain : base.IsPlain host meaning members) :
    Mounts meaning base parent members world (later.dom.moved n) requests
      { later with dom := later.dom.appendChild parent n } := by
  have row : later.dom.node parent = world.dom.node parent :=
    offers.spares.nodes parent gathers.there (gathers.untouched plain)
  have kind : later.dom.kind parent = world.dom.kind parent :=
    congrArg Node.kind row
  have elsewhere : later.dom.parent? n ≠ some parent :=
    fun above => gathers.untouched plain (offers.former parent above).1
  have appended := Dom.appended (gathers.of_kind kind offers.spares.size).notText
    (gathers.ne_of_moves plain (offers.moves n (.inl rfl))) offers.tree.nodup
    elsewhere
  -- the former parent is outside, so nothing changes below what is moved
  have below : ∀ inner ∈ later.dom.moved n, later.dom.SameBelow
      (later.dom.appendChild parent n) inner := by
    intro child member inner inside
    have under := (inside_of_moved member).trans inside
    refine ⟨appended.kind inner, appended.children inner ?_ ?_
      (ne_of_inside_moved offers.tree member inside)⟩
    · exact gathers.ne_of_within plain.scatters (offers.within inner under)
    · exact fun above => (offers.former inner above).2 under
  have trees : ∀ child ∈ later.dom.moved n, later.dom.IsTree child :=
    fun child member => offers.tree.inside (inside_of_moved member)
  have quiet : later.Subscribed []
      { later with dom := later.dom.appendChild parent n } :=
    .of_same rfl rfl rfl
  have subscribed := offers.subscribed.trans quiet
  rw [List.append_nil] at subscribed
  refine ⟨offers.realized.kept below, fun child member =>
    (below child member).isTree (trees child member) appended.size, ?_,
    fun child member inner inside => offers.within inner
      ((inside_of_moved member).trans
        ((below child member).inside_iff.mp inside)),
    fun child member => offers.moves child (.inr member),
    (appended.kind parent).trans kind, ?_, ?_, ⟨?_, offers.spares.properties,
      Nat.le_trans offers.spares.size appended.size, ?_, offers.spares.views⟩,
    subscribed⟩
  · unfold Dom.moved
    split
    · exact offers.tree.nodup
    · exact List.nodup_singleton n
  · rw [appended.parent?, if_neg fun member => ?_]
    · exact congrArg Node.parent row
    · exact gathers.ne_of_moves plain (offers.moves parent (.inr member)) rfl
  · rw [appended.children_parent]
    exact congrArg (· ++ later.dom.moved n) (congrArg Node.children row)
  · exact ⟨offers.spares.advances.blueprints, offers.spares.advances.members,
      offers.spares.advances.templates, offers.spares.advances.rendered⟩
  · intro other old untouched
    rw [not_or] at untouched
    have stays : ¬(other = n ∨ other ∈ later.dom.moved n) := fun among =>
      (offers.moves other among).elim (fun new => Nat.not_lt_of_le new old)
        untouched.1
    rw [not_or] at stays
    refine (appended.node_eq untouched.2 (fun above => ?_) stays.1
      stays.2).trans (offers.spares.nodes other old untouched.1)
    exact untouched.1 (offers.former other above).1

theorem cons {member : Member} {rest : List Member}
    (first : Mounts meaning base parent [member] world nodes requests between)
    (second : Mounts meaning base parent rest between others asked later)
    (gathers : base.Gathers parent world)
    (grown : base.dom.nodes.size ≤ world.dom.nodes.size)
    (plain : base.IsPlain host meaning (member :: rest)) :
    Mounts meaning base parent (member :: rest) world (nodes ++ others)
      (requests ++ asked) later := by
  have apart := plain.scatters.apart
  have head := plain.included (base.includes_head member rest)
  have tail := plain.included (base.includes_tail member rest)
  have old {n : NodeId} (lt : n.index < base.dom.nodes.size) :
      ¬world.dom.nodes.size ≤ n.index :=
    Nat.not_le_of_lt (Nat.lt_of_lt_of_le lt grown)
  have below : ∀ n ∈ nodes, between.dom.SameBelow later.dom n := by
    intro n inside
    refine .of_nodes fun inner under => second.spares.nodes inner
      ((first.trees n inside).inside under).there ?_
    rintro (touches | same)
    · rcases first.within n inside inner under with new | owns
      · exact old (tail.scatters.lt_of_touches plain.linked touches) new
      · exact apart.symm.touches plain.linked touches owns
    · exact gathers.ne_of_within head.scatters
        (first.within n inside inner under) same
  refine ⟨(first.realized.kept below).append second.realized, ?_, ?_, ?_, ?_,
    second.kind.trans first.kind, second.parent?.trans first.parent?, ?_, ?_,
    first.subscribed.trans second.subscribed⟩
  · intro n member
    rcases List.mem_append.mp member with inside | inside
    · exact (below n inside).isTree (first.trees n inside) second.spares.size
    · exact second.trees n inside
  · refine List.nodup_append.mpr ⟨first.nodup, second.nodup, ?_⟩
    rintro n left _ right rfl
    rcases second.within n right n (.here n) with new | owns
    · exact Nat.not_lt_of_le new (first.trees n left).there
    · rcases first.within n left n (.here n) with new | others
      · exact old (tail.scatters.lt_of_owns owns) new
      · exact apart.owns plain.linked others owns
  · intro n member inner inside
    rcases List.mem_append.mp member with among | among
    · exact (first.within n among inner ((below n among).inside_iff.mp
        inside)).imp_right (base.includes_head _ rest).owns
    · refine (second.within n among inner inside).imp ?_
        (base.includes_tail _ rest).owns
      exact Nat.le_trans first.spares.size
  · intro n member
    rcases List.mem_append.mp member with among | among
    · exact (first.moves n among).imp_right (base.includes_head _ rest).touches
    · refine (second.moves n among).imp ?_ (base.includes_tail _ rest).touches
      exact Nat.le_trans first.spares.size
  · rw [second.children, first.children, List.append_assoc]
  · refine (first.spares.mono ?_ ?_).trans (second.spares.mono ?_ ?_)
    · exact fun _ _ => .imp_left (base.includes_head _ rest).touches
    · exact fun _ => (base.includes_head _ rest).sees
    · exact fun _ _ => .imp_left (base.includes_tail _ rest).touches
    · exact fun _ => (base.includes_tail _ rest).sees

/-- A fragment that has just been created is an empty place to gather nodes
in. -/
theorem opened {fragment : NodeId} {entered : World σ}
    (made : (createNode .fragment).result world = fragment)
    (entering : (createNode .fragment).after world = entered)
    (grown : base.dom.nodes.size ≤ world.dom.nodes.size) :
    entered.dom.node fragment = ⟨.fragment, none, []⟩ ∧
      base.Gathers fragment entered ∧
      world.dom.nodes.size ≤ fragment.index ∧
      world.Spares (fun _ => False) (fun _ => False) entered ∧
      world.Subscribed [] entered := by
  subst made
  subst entering
  have row : ((createNode .fragment).after world).dom.node
      ((createNode .fragment).result world) = ⟨.fragment, none, []⟩ :=
    world.dom.node_create_self .fragment
  have new : world.dom.nodes.size ≤
      ((createNode .fragment).result world).index := Nat.le_refl _
  refine ⟨row, ⟨Nat.le_trans grown new, ?_, ?_⟩, new, .createNode .fragment,
    .of_same rfl rfl rfl⟩
  · exact Nat.lt_of_lt_of_eq (Nat.lt_succ_self _)
      (world.dom.size_create .fragment).symm
  · simp only [Dom.isText, Dom.kind, row]

theorem handOver {fragment : NodeId} {entered mid : World σ}
    (made : (createNode .fragment).result world = fragment)
    (entering : (createNode .fragment).after world = entered)
    (mounts : Mounts meaning base fragment members entered nodes requests mid)
    (gathers : base.Gathers parent world)
    (grown : base.dom.nodes.size ≤ world.dom.nodes.size)
    (plain : base.IsPlain host meaning members) :
    Mounts meaning base parent members world nodes requests
      { mid with dom := mid.dom.appendChild parent fragment } := by
  obtain ⟨row, basket, new, created, quiet⟩ :=
    opened made entering grown
  have asked := quiet.trans mounts.subscribed
  have isFragment : mid.dom.isFragment fragment = true := by
    rw [Dom.isFragment, mounts.kind, Dom.kind, row]
  have children : mid.dom.children fragment = nodes := by
    rw [mounts.children, Dom.children, row, List.nil_append]
  have free : mid.dom.parent? fragment = none := by
    rw [mounts.parent?, Dom.parent?, row]
  have orphan (other : NodeId) : mid.dom.parent? fragment ≠ some other := by
    rw [free]
    exact Option.some_ne_none other |>.symm
  have differs : fragment ≠ parent := by
    rintro rfl
    exact Nat.not_lt_of_le new gathers.there
  have entry : base.Gathers parent entered := gathers.of_kind
    (congrArg Node.kind (created.nodes parent gathers.there not_false))
    created.size
  have stays : mid.dom.node parent = world.dom.node parent := by
    refine (mounts.spares.nodes parent entry.there ?_).trans
      (created.nodes parent gathers.there not_false)
    rintro (touches | same)
    · exact gathers.untouched plain touches
    · exact differs same.symm
  have kind := congrArg Node.kind stays
  have appended := Dom.appended (gathers.of_kind kind
      (Nat.le_trans created.size mounts.spares.size)).notText differs
    (children ▸ mounts.nodup) (orphan parent)
  have moved : mid.dom.moved fragment = nodes := by
    rw [Dom.moved, if_pos isFragment, children]
  -- Only the fragment and the parent change, and neither is below a node.
  have below : ∀ n ∈ nodes, mid.dom.SameBelow
      (mid.dom.appendChild parent fragment) n := by
    intro n member inner inside
    have within := mounts.within n member inner inside
    exact ⟨appended.kind inner, appended.children inner
      (entry.ne_of_within plain.scatters within) (orphan inner) fun _ =>
        basket.ne_of_within plain.scatters within⟩
  have since {n : NodeId} {owned : Prop}
      (within : entered.dom.nodes.size ≤ n.index ∨ owned) :
      world.dom.nodes.size ≤ n.index ∨ owned :=
    within.imp_left (Nat.le_trans created.size)
  refine ⟨mounts.realized.kept below, fun n member =>
    (below n member).isTree (mounts.trees n member) appended.size, mounts.nodup,
    fun n member inner inside => since (mounts.within n member inner
      ((below n member).inside_iff.mp inside)),
    fun n member => since (mounts.moves n member),
    (appended.kind parent).trans kind, ?_, ?_, ⟨?_, ?_, ?_, ?_, ?_⟩, ?_⟩
  · rw [appended.parent?, if_neg fun member => ?_]
    · exact congrArg Node.parent stays
    · rw [moved] at member
      exact entry.ne_of_moves plain (mounts.moves parent member) rfl
  · rw [appended.children_parent, moved]
    exact congrArg (· ++ nodes) (congrArg Node.children stays)
  · have advances := created.advances.trans mounts.spares.advances
    exact ⟨advances.blueprints, advances.members, advances.templates,
      advances.rendered⟩
  · exact mounts.spares.properties.trans created.properties
  · exact Nat.le_trans created.size
      (Nat.le_trans mounts.spares.size appended.size)
  · intro other old untouched
    rw [not_or] at untouched
    have elsewhere : other ≠ fragment := by
      rintro rfl
      exact Nat.not_lt_of_le new old
    have unmoved : other ∉ mid.dom.moved fragment := by
      rw [moved]
      intro member
      rcases since (mounts.moves other member) with fresh | touches
      · exact Nat.not_lt_of_le fresh old
      · exact untouched.1 touches
    refine (appended.node_eq untouched.2 (orphan other) elsewhere
      unmoved).trans ((mounts.spares.nodes other
        (Nat.lt_of_lt_of_le old created.size) ?_).trans
          (created.nodes other old not_false))
    exact fun inside => inside.elim untouched.1 elsewhere
  · exact fun v unseen => (mounts.spares.views v unseen).trans
      (created.views v not_false)
  · exact ⟨asked.size, asked.made, asked.held, asked.listens⟩

end Mounts

namespace Offers

variable {host : Host σ} {meaning : Meaning}
  {base world entered drawn filled final : World σ} {t : TemplateId}
  {n : NodeId} {nodes : List NodeId} {asked inner heard : List Request}

theorem spares_new {made : NodeKind} {touched : NodeId → Prop}
    {seen : ViewId → Prop}
    (new : (createNode made).result world = n)
    (entering : (createNode made).after world = entered)
    (spares : entered.Spares (fun other => touched other ∨ other = n) seen
      final) : world.Spares touched seen final := by
  have created : world.Spares (fun other => touched other ∨ other = n) seen
      entered := by
    rw [← entering]
    exact .createNode made
  refine (created.trans spares).mono (fun other old inside => ?_) fun _ => id
  refine inside.resolve_right ?_
  rintro rfl
  exact Nat.lt_irrefl _ (Nat.lt_of_lt_of_eq old
    (congrArg NodeId.index new))

theorem element {blueprint : Blueprint} {tag : String}
    (found : (base.template t).blueprint = blueprint)
    (isElement : blueprint.text = none) (tagged : blueprint.tag = some tag)
    (plain : base.IsPlain host meaning [.template t])
    (grown : base.dom.nodes.size ≤ world.dom.nodes.size)
    (new : (createNode (blueprint.elementKind tag [])).result world = n)
    (entering :
      (createNode (blueprint.elementKind tag [])).after world = entered)
    (attributes : entered.Draws n (blueprint.elementKind tag
      (blueprint.drawnAttributes meaning base.property (some tag))) asked drawn)
    (members : Mounts meaning base n blueprint.children drawn nodes inner
      filled)
    (listeners : filled.Draws n (filled.dom.kind n) heard final)
    (requested : asked = blueprint.attributes.flatMap entryRequests)
    (listened : heard = blueprint.listenerRequests n) :
    final.dom.IsAlone n ∧ Offers meaning base [.template t] world n
      (asked ++ inner ++ heard) final := by
  subst found
  have included := base.includes_children isElement
  have within := plain.included included
  have created : base.Gathers n entered := by
    rw [← new, ← entering]
    exact .created (fun _ => nofun) grown
  have row : entered.dom.node n = ⟨(base.template t).blueprint.elementKind tag
      [], none, []⟩ := by
    rw [← new, ← entering]
    exact world.dom.node_create_self _
  have gathers : base.Gathers n drawn := by
    refine ⟨created.new, Nat.lt_of_lt_of_le created.there attributes.dom.size,
      ?_⟩
    rw [Dom.isText, attributes.dom.kind]
    rfl
  -- The listeners are written at the new node, which is below no child.
  have below : ∀ child ∈ nodes, filled.dom.SameBelow final.dom child :=
    fun child member => .of_nodes fun other inside =>
      listeners.dom.others other (gathers.ne_of_within within.scatters
        (members.within child member other inside))
  have kind : final.dom.kind n = (base.template t).blueprint.elementKind tag
      ((base.template t).blueprint.drawnAttributes meaning base.property
        (some tag)) := by
    rw [listeners.dom.kind, members.kind, attributes.dom.kind]
  have children : final.dom.children n = nodes := by
    rw [listeners.dom.children, members.children, attributes.dom.children,
      Dom.children, row, List.nil_append]
  have free : final.dom.parent? n = none := by
    rw [listeners.dom.parent?, members.parent?, attributes.dom.parent?,
      Dom.parent?, row]
  have moved : final.dom.moved n = [n] := by
    rw [Dom.moved, Dom.isFragment, kind]
    rfl
  have fresh : world.dom.nodes.size ≤ n.index := by
    rw [← new]
    exact Nat.le_refl _
  have before : world.dom.nodes.size ≤ drawn.dom.nodes.size :=
    Nat.le_trans fresh (Nat.le_of_lt gathers.there)
  have trees : ∀ child ∈ nodes, final.dom.IsTree child := fun child member =>
    (below child member).isTree (members.trees child member) listeners.dom.size
  refine ⟨⟨free, moved⟩, ?_, ?_, fun other inside => ?_, fun other among => .inl ?_,
    fun parent above => ?_, spares_new new entering ?_, ?_⟩
  · have realized := members.realized.kept below
    rw [← children] at realized
    rw [moved, requested, listened]
    have single := Realized.element isElement tagged kind realized .nil
    rwa [List.append_nil] at single
  · refine .node ?_ (children ▸ members.nodup) (children ▸ trees)
    exact Nat.lt_of_lt_of_le gathers.there
      (Nat.le_trans members.spares.size listeners.dom.size)
  · cases inside with
    | here => exact .inl fresh
    | under member deeper =>
        rw [children] at member
        exact (members.within _ member other ((below _ member).inside_iff.mp
          deeper)).imp (Nat.le_trans before) included.owns
  · rw [moved] at among
    rcases among with rfl | among
    · exact fresh
    · rw [List.mem_singleton.mp among]
      exact fresh
  · rw [free] at above
    cases above
  · refine (attributes.spares.mono (fun _ _ => .inr) fun _ => id).trans
      ((members.spares.mono ?_ fun _ => included.sees).trans
        (listeners.spares.mono (fun _ _ => .inr) fun _ => id))
    exact fun _ _ => .imp_left included.touches
  · have quiet : world.Subscribed [] entered := by
      rw [← entering]
      exact .of_same rfl rfl rfl
    rw [List.append_assoc]
    exact quiet.trans (attributes.subscribed.trans
      (members.subscribed.trans listeners.subscribed))

theorem text {schema : Schema}
    (found : (base.template t).blueprint.text = some schema)
    (new : (createNode (.text "")).result world = n)
    (entering : (createNode (.text "")).after world = entered)
    (drawn : entered.Draws n (.text (drawnText meaning base.property
      (flattenChunks schema))) (slotRequests (flattenChunks schema)) final) :
    final.dom.IsAlone n ∧ Offers meaning base [.template t] world n
      (slotRequests (flattenChunks schema)) final := by
  have row : entered.dom.node n = ⟨.text "", none, []⟩ := by
    rw [← new, ← entering]
    exact world.dom.node_create_self _
  have there : n.index < entered.dom.nodes.size := by
    rw [← new, ← entering]
    exact Nat.lt_of_lt_of_eq (Nat.lt_succ_self _)
      (world.dom.size_create _).symm
  have fresh : world.dom.nodes.size ≤ n.index := by
    rw [← new]
    exact Nat.le_refl _
  have children : final.dom.children n = [] := by
    rw [drawn.dom.children, Dom.children, row]
  have free : final.dom.parent? n = none := by
    rw [drawn.dom.parent?, Dom.parent?, row]
  have moved : final.dom.moved n = [n] := by
    rw [Dom.moved, Dom.isFragment, drawn.dom.kind]
    rfl
  refine ⟨⟨free, moved⟩, ?_, ?_, fun other inside => .inl ?_,
    fun other among => .inl ?_,
    fun parent above => ?_, spares_new new entering ?_, ?_⟩
  · rw [moved]
    have single := Realized.text found drawn.dom.kind .nil
    rwa [List.append_nil] at single
  · refine .node (Nat.lt_of_lt_of_le there drawn.dom.size) ?_ ?_
    · rw [children]
      exact .nil
    · rw [children]
      exact fun _ impossible => absurd impossible List.not_mem_nil
  · cases inside with
    | here => exact fresh
    | under member _ =>
        rw [children] at member
        cases member
  · rw [moved] at among
    rcases among with rfl | among
    · exact fresh
    · rw [List.mem_singleton.mp among]
      exact fresh
  · rw [free] at above
    cases above
  · exact drawn.spares.mono (fun _ _ => .inr) fun _ => id
  · have quiet : world.Subscribed [] entered := by
      rw [← entering]
      exact .of_same rfl rfl rfl
    exact quiet.trans drawn.subscribed

end Offers

end LiveTemplate
