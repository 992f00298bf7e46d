import LiveTemplate.Dom.Fixture
import LiveTemplate.Proofs.AttributeLists
import LiveTemplate.Proofs.Moving
import LiveTemplate.Proofs.Trees

/-!
# The trees of fixtures

Mounting a fixture leaves the nodes of a document alone and builds the tree
that the fixture describes from new ones.  What is mounted later on, and where,
makes no difference to a tree that has been built.
-/

namespace LiveTemplate

/-- An attribute without a namespace. -/
def Attribute.plain (entry : String × String) : Attribute :=
  ⟨none, entry.1, entry.2⟩

namespace Fixture

mutual

/-- The tree that a fixture describes. -/
def tree : Fixture → Tree
  | element tag attributes children =>
      .element Selector.htmlNamespace tag (attributes.map Attribute.plain)
        (trees children)
  | text data => .text data

def trees : List Fixture → List Tree
  | [] => []
  | child :: rest => tree child :: trees rest

end

mutual

/-- Every element names each of its attributes once. -/
def IsNamed : Fixture → Prop
  | element _ attributes children =>
      (attributes.map (·.1)).Nodup ∧ AreNamed children
  | text _ => True

def AreNamed : List Fixture → Prop
  | [] => True
  | child :: rest => IsNamed child ∧ AreNamed rest

end

end Fixture

private theorem Attribute.set_plain {attributes : List (String × String)}
    {name : String} (unnamed : name ∉ attributes.map (·.1)) (value : String) :
    set (attributes.map plain) name value =
      (attributes ++ [(name, value)]).map plain := by
  induction attributes with
  | nil => rfl
  | cons entry rest ih =>
      rw [List.map_cons, List.mem_cons, not_or] at unnamed
      have other : (entry.1 == name) = false :=
        beq_eq_false_iff_ne.mpr (Ne.symm unnamed.1)
      have later := ih unnamed.2
      unfold set at later ⊢
      rw [List.map_cons, setWhere]
      simp only [plain, other, Bool.false_eq_true, if_false, List.cons_append,
        List.map_cons]
      exact congrArg _ later

namespace Dom

/-- One node may have changed, but is where it was. -/
structure AltersKind (dom later : Dom) (n : NodeId) : Prop where
  others : ∀ other, other ≠ n → later.node other = dom.node other
  children : later.children n = dom.children n
  parent? : later.parent? n = dom.parent? n
  size : dom.nodes.size ≤ later.nodes.size

theorem AltersKind.refl (dom : Dom) (n : NodeId) : AltersKind dom dom n := by
  exact ⟨fun _ _ => rfl, rfl, rfl, Nat.le_refl _⟩

theorem AltersKind.trans {dom between later : Dom} {n : NodeId}
    (first : AltersKind dom between n) (second : AltersKind between later n) :
    AltersKind dom later n where
  others other differs :=
    (second.others other differs).trans (first.others other differs)
  children := second.children.trans first.children
  parent? := second.parent?.trans first.parent?
  size := Nat.le_trans first.size second.size

private theorem altersKind_setKind (dom : Dom) (n : NodeId) (kind : NodeKind) :
    AltersKind dom (dom.setKind n kind) n where
  others _ differs := node_setKind_of_ne dom kind differs
  children := children_setKind dom n n kind
  parent? := parent?_setKind dom n n kind
  size := size_le_modify dom n _

/-- Attributes of different names are appended one after the other. -/
theorem setAttributes_rows {n : NodeId} {namespaceName tag : String}
    {added present : List (String × String)} {dom : Dom}
    (kind : dom.kind n =
      .element namespaceName tag (present.map Attribute.plain))
    (named : ((present ++ added).map (·.1)).Nodup) :
    let later := added.foldl
      (fun dom (name, value) => dom.setAttribute n name value) dom
    AltersKind dom later n ∧ later.kind n =
      .element namespaceName tag ((present ++ added).map Attribute.plain) := by
  induction added generalizing present dom with
  | nil => exact ⟨.refl dom n, by rw [List.append_nil]; exact kind⟩
  | cons entry rest ih =>
      obtain ⟨name, value⟩ := entry
      have unnamed : name ∉ present.map (·.1) := by
        rw [List.map_append, List.map_cons] at named
        exact fun member => (List.nodup_append.mp named).2.2 name member name
          (.head _) rfl
      have set : dom.setAttribute n name value = dom.setKind n
          (.element namespaceName tag
            ((present ++ [(name, value)]).map Attribute.plain)) := by
        rw [setAttribute, modifyAttributes_element kind,
          Attribute.set_plain unnamed]
      have again : present ++ (name, value) :: rest =
          (present ++ [(name, value)]) ++ rest := by simp
      rw [again] at named ⊢
      obtain ⟨alters, made⟩ := ih
        (kind_setKind_self dom n _) named
      rw [List.foldl_cons]
      dsimp only
      rw [set]
      exact ⟨(altersKind_setKind dom n _).trans alters, made⟩

end Dom

namespace Fixture

variable {dom between later : Dom} {parent n : NodeId} {kind : NodeKind}

/-- The newest node, which has nothing in it and is in nothing. -/
structure Bare (dom later : Dom) (kind : NodeKind) (n : NodeId) : Prop where
  number : n.index = dom.nodes.size
  there : n.index < later.nodes.size
  others : ∀ other, other ≠ n → later.node other = dom.node other
  kind : later.kind n = kind
  childless : later.children n = []
  alone : later.parent? n = none

theorem bare_create (dom : Dom) (kind : NodeKind) :
    Bare dom (dom.create kind).2 kind (dom.create kind).1 where
  number := rfl
  there := by
    rw [Dom.size_create]
    exact Nat.lt_succ_self _
  others _ differs := Dom.node_create_of_ne dom kind differs
  kind := congrArg Node.kind (Dom.node_create_self dom kind)
  childless := congrArg Node.children (Dom.node_create_self dom kind)
  alone := congrArg Node.parent (Dom.node_create_self dom kind)

namespace Bare

theorem beyond (bare : Bare dom between kind n) :
    dom.nodes.size ≤ between.nodes.size := by
  rw [← bare.number]
  exact Nat.le_of_lt bare.there

theorem ne_of_old (bare : Bare dom between kind n) {other : NodeId}
    (old : other.index < dom.nodes.size) : other ≠ n := by
  rintro rfl
  exact absurd bare.number (Nat.ne_of_lt old)

theorem alters (bare : Bare dom between kind n) {changed : NodeKind}
    (alters : between.AltersKind later n) (made : later.kind n = changed) :
    Bare dom later changed n where
  number := bare.number
  there := Nat.lt_of_lt_of_le bare.there alters.size
  others other differs :=
    (alters.others other differs).trans (bare.others other differs)
  kind := made
  childless := alters.children.trans bare.childless
  alone := alters.parent?.trans bare.alone

end Bare

private theorem bare_element (dom : Dom) (tag : String)
    {attributes : List (String × String)}
    (distinct : (attributes.map (·.1)).Nodup) :
    let created := dom.create (.element Selector.htmlNamespace tag [])
    Bare dom (attributes.foldl
        (fun dom (name, value) => dom.setAttribute created.1 name value)
          created.2)
      (.element Selector.htmlNamespace tag (attributes.map Attribute.plain))
      created.1 := by
  intro created
  have bare : Bare dom created.2 (.element Selector.htmlNamespace tag
      (([] : List (String × String)).map Attribute.plain)) created.1 :=
    bare_create dom _
  have named :
      ((([] : List (String × String)) ++ attributes).map (·.1)).Nodup :=
    distinct
  obtain ⟨alters, kind⟩ := Dom.setAttributes_rows bare.kind named
  rw [List.nil_append] at kind
  exact bare.alters alters kind

/-- A node that stands alone, with a tree of nodes that are as new. -/
structure Mounted (limit : Nat) (later : Dom) (tree : Tree) (n : NodeId) :
    Prop where
  alone : later.parent? n = none
  solid : later.isFragment n = false
  isTree : later.IsTree n
  recent : ∀ inner, later.Inside n inner → limit ≤ inner.index
  tree : later.tree n = tree

theorem Mounted.limit_le {limit : Nat} {tree : Tree} {n : NodeId}
    (mounted : Mounted limit later tree n) : limit ≤ n.index :=
  mounted.recent n (.here n)

/-- Nodes that come one after the other, with trees of nodes that are as new. -/
structure Filled (limit : Nat) (later : Dom) (trees : List Tree)
    (nodes : List NodeId) : Prop where
  nodup : nodes.Nodup
  isTree : ∀ n ∈ nodes, later.IsTree n
  recent : ∀ n ∈ nodes, ∀ inner, later.Inside n inner → limit ≤ inner.index
  trees : nodes.map later.tree = trees

theorem Filled.nil (limit : Nat) (later : Dom) : Filled limit later [] [] where
  nodup := .nil
  isTree _ member := nomatch member
  recent _ member := nomatch member
  trees := rfl

/-- The old nodes but one are as they were. -/
structure Leaves (dom later : Dom) (parent : Option NodeId) : Prop where
  nodes : ∀ n, n.index < dom.nodes.size → some n ≠ parent →
    later.node n = dom.node n
  size : dom.nodes.size ≤ later.nodes.size

/-- Trees have been built from new nodes at the end of a node. -/
structure Fills (dom later : Dom) (parent : NodeId) (trees : List Tree) :
    Prop where
  leaves : Leaves dom later (some parent)
  parent? : later.parent? parent = dom.parent? parent
  kind : later.kind parent = dom.kind parent
  ends : ∃ nodes, later.children parent = dom.children parent ++ nodes ∧
    Filled dom.nodes.size later trees nodes

theorem Fills.nil (dom : Dom) (parent : NodeId) : Fills dom dom parent [] where
  leaves := ⟨fun _ _ _ => rfl, Nat.le_refl _⟩
  parent? := rfl
  kind := rfl
  ends := ⟨[], (List.append_nil _).symm, .nil _ _⟩

theorem Bare.mounted {trees : List Tree} (bare : Bare dom between kind n)
    (solid : kind ≠ .fragment) (fills : Fills between later n trees) :
    Leaves dom later none ∧
      Mounted dom.nodes.size later (.ofKind kind trees) n := by
  obtain ⟨nodes, ends, filled⟩ := fills.ends
  rw [bare.childless, List.nil_append] at ends
  have own : later.kind n = kind := fills.kind.trans bare.kind
  have isTree : later.IsTree n := by
    refine .node (Nat.lt_of_lt_of_le bare.there fills.leaves.size) ?_ ?_
    · rw [ends]
      exact filled.nodup
    · rw [ends]
      exact filled.isTree
  refine ⟨⟨fun m old _ => ?_, Nat.le_trans bare.beyond fills.leaves.size⟩,
    fills.parent?.trans bare.alone, ?_, isTree, ?_, ?_⟩
  · have differs := bare.ne_of_old old
    rw [fills.leaves.nodes m (Nat.lt_of_lt_of_le old bare.beyond)
      fun same => differs (Option.some.inj same), bare.others m differs]
  · rw [Dom.isFragment, own]
    cases kind with
    | fragment => exact absurd rfl solid
    | _ => rfl
  · intro inner inside
    cases inside with
    | here => exact Nat.le_of_eq bare.number.symm
    | under member deeper =>
        rw [ends] at member
        exact Nat.le_trans bare.beyond (filled.recent _ member inner deeper)
  · rw [Dom.tree_eq isTree, own, ends, filled.trees]

/-- A node has been put at the end of another one, and nothing else has
happened to the old nodes. -/
structure Attached (dom later : Dom) (parent n : NodeId) : Prop where
  leaves : Leaves dom later (some parent)
  parent? : later.parent? parent = dom.parent? parent
  kind : later.kind parent = dom.kind parent
  children : later.children parent = dom.children parent ++ [n]

theorem Mounted.appended {tree : Tree}
    (mounted : Mounted dom.nodes.size between tree n)
    (kept : Leaves dom between none) (there : parent.index < dom.nodes.size)
    (notText : dom.isText parent = false) :
    between.Appended parent n (between.appendChild parent n) := by
  refine Dom.appended ?_ ?_ mounted.isTree.nodup ?_
  · rwa [Dom.isText, Dom.kind,
      kept.nodes parent there (Option.some_ne_none parent)]
  · rintro rfl
    exact absurd there (Nat.not_lt.mpr mounted.limit_le)
  · rw [mounted.alone]
    exact (Option.some_ne_none parent).symm

theorem Mounted.attached {tree : Tree}
    (mounted : Mounted dom.nodes.size between tree n)
    (kept : Leaves dom between none) (there : parent.index < dom.nodes.size)
    (appended : between.Appended parent n later) :
    Attached dom later parent n := by
  have row := kept.nodes parent there (Option.some_ne_none parent)
  have moved : between.moved n = [n] := by
    rw [Dom.moved, if_neg (by simp [mounted.solid])]
  have old {m : NodeId} (old : m.index < dom.nodes.size) :
      m ∉ between.moved n := by
    rw [moved, List.mem_singleton]
    rintro rfl
    exact absurd old (Nat.not_lt.mpr mounted.limit_le)
  refine ⟨⟨fun m older differs => ?_, Nat.le_trans kept.size appended.size⟩,
    ?_, ?_, ?_⟩
  · rw [appended.node_eq (fun same => differs (congrArg some same)) ?_
        (fun same => old older (moved ▸ List.mem_singleton.mpr same))
        (old older), kept.nodes m older (Option.some_ne_none m)]
    rw [mounted.alone]
    exact (Option.some_ne_none m).symm
  · rw [appended.parent?, if_neg (old there), Dom.parent?, row, Dom.parent?]
  · rw [appended.kind, Dom.kind, row, Dom.kind]
  · rw [appended.children_parent, moved, Dom.children, row, Dom.children]

/-- A tree that has been built stays as it is when it is put at the end of a
node and others are put after it. -/
theorem Filled.cons {limit middle : Nat} {nodes : List NodeId} {tree : Tree}
    {trees : List Tree} (older : parent.index < limit)
    (first : Mounted limit dom tree n)
    (appended : Dom.Appended dom parent n between)
    (leaves : Leaves between later (some parent))
    (rest : Filled middle later trees nodes) (lower : limit ≤ middle)
    (upper : dom.nodes.size ≤ middle) :
    Filled limit later (tree :: trees) (n :: nodes) := by
  have same : dom.SameBelow later n := by
    intro inner inside
    have differs : inner ≠ parent := by
      rintro rfl
      exact absurd older (Nat.not_lt.mpr (first.recent inner inside))
    have within := (first.isTree.inside inside).there
    have row := leaves.nodes inner (Nat.lt_of_lt_of_le within appended.size)
      fun impossible => differs (Option.some.inj impossible)
    have kept : between.children inner = dom.children inner := by
      refine appended.children inner differs ?_ ?_
      · rw [first.alone]
        exact (Option.some_ne_none inner).symm
      · rw [first.solid]
        exact fun impossible => (nomatch impossible)
    constructor
    · rw [← appended.kind inner, Dom.kind, row, Dom.kind]
    · rw [← kept, Dom.children, row, Dom.children]
  have grown := Nat.le_trans appended.size leaves.size
  refine ⟨List.nodup_cons.mpr ⟨fun member => ?_, rest.nodup⟩, ?_, ?_, ?_⟩
  · have after := Nat.le_trans upper (rest.recent n member n (.here n))
    exact absurd first.isTree.there (Nat.not_lt.mpr after)
  · intro m member
    rcases List.mem_cons.mp member with rfl | member
    · exact same.isTree first.isTree grown
    · exact rest.isTree m member
  · intro m member inner inside
    rcases List.mem_cons.mp member with rfl | member
    · exact first.recent inner (same.inside_iff.mp inside)
    · exact Nat.le_trans lower (rest.recent m member inner inside)
  · rw [List.map_cons, same.tree_eq first.isTree grown, first.tree, rest.trees]

theorem Fills.cons {put : Dom} {tree : Tree} {trees : List Tree}
    (mounted : Mounted dom.nodes.size between tree n)
    (there : parent.index < dom.nodes.size)
    (appended : between.Appended parent n put)
    (attached : Attached dom put parent n)
    (rest : Fills put later parent trees) :
    Fills dom later parent (tree :: trees) := by
  obtain ⟨nodes, ends, filled⟩ := rest.ends
  refine ⟨⟨fun m old differs => ?_,
      Nat.le_trans attached.leaves.size rest.leaves.size⟩,
    rest.parent?.trans attached.parent?, rest.kind.trans attached.kind,
    n :: nodes, ?_, .cons there mounted appended rest.leaves filled
      attached.leaves.size appended.size⟩
  · rw [rest.leaves.nodes m (Nat.lt_of_lt_of_le old attached.leaves.size)
      differs, attached.leaves.nodes m old differs]
  · rw [ends, attached.children, List.append_assoc, List.singleton_append]

mutual

theorem mounted_mount (dom : Dom) (fixture : Fixture)
    (named : fixture.IsNamed) :
    Leaves dom (mount dom fixture).2 none ∧
      Mounted dom.nodes.size (mount dom fixture).2 fixture.tree
        (mount dom fixture).1 := by
  cases fixture with
  | text data =>
      rw [mount, tree]
      exact (bare_create dom (.text data)).mounted (by simp) (.nil _ _)
  | element tag attributes children =>
      rw [IsNamed] at named
      rw [mount, tree]
      have bare := bare_element dom tag named.1
      refine bare.mounted (by simp)
        (fills_mountAll _ _ children named.2 ?_ bare.there)
      rw [Dom.isText, bare.kind]

theorem fills_mountAll (dom : Dom) (parent : NodeId)
    (fixtures : List Fixture) (named : AreNamed fixtures)
    (notText : dom.isText parent = false)
    (there : parent.index < dom.nodes.size) :
    Fills dom (mountAll dom parent fixtures) parent (trees fixtures) := by
  cases fixtures with
  | nil =>
      rw [mountAll, trees]
      exact .nil dom parent
  | cons fixture rest =>
      rw [AreNamed] at named
      obtain ⟨kept, mounted⟩ := mounted_mount dom fixture named.1
      rw [mountAll, trees]
      have appended := mounted.appended kept there notText
      have attached := mounted.attached kept there appended
      exact .cons mounted there appended attached
        (fills_mountAll _ _ rest named.2 (by rwa [Dom.isText, attached.kind])
          (Nat.lt_of_lt_of_le there attached.leaves.size))

end

theorem outerHtml_mount (dom : Dom) {fixture : Fixture}
    (named : fixture.IsNamed) :
    (mount dom fixture).2.outerHtml (mount dom fixture).1 =
      fixture.tree.markup := by
  exact congrArg Tree.markup (mounted_mount dom fixture named).2.tree

end Fixture

end LiveTemplate
