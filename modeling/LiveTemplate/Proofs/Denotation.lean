import LiveTemplate.Proofs.Gathering
import LiveTemplate.Proofs.Runs

/-!
# What a template denotes

`Denotes` reads trees off definitions, properties and the nodes that are there
before rendering, without a pass and without a document that changes.  There is
at most one list of trees for some members, and rendering builds it: the node
that is returned stands alone, and its tree is the one that the template
denotes.
-/

namespace LiveTemplate

variable {σ : Type} {host : Host σ} {meaning : Meaning}

/-- What an attribute of a definition comes to: nothing unless its value is
truthy. -/
def shownAttribute? (meaning : Meaning) (reading : Reading)
    (tag : Option String) (entry : String × Schema) : Option Attribute :=
  let value := schemaValue meaning reading tag (flattenChunks entry.2)
  if value.isTruthy then
    some ⟨entry.2.namespace?, entry.1, value.domString⟩
  else none

/-- The attributes of a definition without a style map, in order. -/
def Blueprint.shownAttributes (meaning : Meaning) (reading : Reading)
    (tag : Option String) (blueprint : Blueprint) : List Attribute :=
  blueprint.attributes.filterMap (shownAttribute? meaning reading tag)

/-- No attribute is rendered property by property. -/
def Blueprint.IsUnstyled (blueprint : Blueprint) : Prop :=
  ∀ entry ∈ blueprint.attributes, entryStyles? entry.1 entry.2 = none

namespace Attribute

theorem setNs_of_unnamed {attributes : List Attribute} {name : String}
    (unnamed : ∀ entry ∈ attributes, entry.name ≠ name)
    (namespaceName : Option String) (value : String) :
    setNs attributes namespaceName name value =
      attributes ++ [⟨namespaceName, name, value⟩] := by
  unfold setNs
  induction attributes with
  | nil => rfl
  | cons entry rest ih =>
      have other : ¬entry.isNamed namespaceName name = true :=
        fun named => unnamed entry (.head _) (isNamed_iff.mp named).2
      rw [setWhere, if_neg other, ih fun entry member =>
        unnamed entry (.tail _ member), List.cons_append]

private theorem removeNs_of_unnamed {attributes : List Attribute}
    {name : String}
    (unnamed : ∀ entry ∈ attributes, entry.name ≠ name)
    (namespaceName : Option String) :
    removeNs attributes namespaceName name = attributes := by
  refine List.filter_eq_self.mpr fun entry member => ?_
  rw [Bool.not_eq_true', Bool.eq_false_iff]
  exact fun named => unnamed entry member (isNamed_iff.mp named).2

end Attribute

section Shown

variable {reading : Reading} {tag : Option String}

private theorem name_of_mem_shownAttribute? {entry : String × Schema}
    {shown : Attribute}
    (member : shown ∈ (shownAttribute? meaning reading tag entry).toList) :
    shown.name = entry.1 := by
  rw [Option.mem_toList, shownAttribute?] at member
  split at member
  · cases member
    rfl
  · cases member

/-- A new attribute is drawn at the end if its value is truthy. -/
theorem drawEntry_of_unnamed {entry : String × Schema}
    {attributes : List Attribute}
    (unstyled : entryStyles? entry.1 entry.2 = none)
    (unnamed : ∀ other ∈ attributes, other.name ≠ entry.1) :
    drawEntry meaning reading tag entry attributes =
      attributes ++ (shownAttribute? meaning reading tag entry).toList := by
  unfold drawEntry shownAttribute?
  rw [unstyled]
  dsimp only
  generalize schemaValue meaning reading tag (flattenChunks entry.2) = value
  rw [Slot.drawIn, Slot.displayIn, Attribute.setNs_of_unnamed unnamed,
    Attribute.removeNs_of_unnamed unnamed]
  cases falsy : value.isFalsy <;> simp [Value.isTruthy, falsy]

private theorem Blueprint.drawnAttributes_eq {blueprint : Blueprint}
    (named : (blueprint.attributes.map (·.1)).Nodup)
    (unstyled : blueprint.IsUnstyled) :
    blueprint.drawnAttributes meaning reading tag =
      blueprint.shownAttributes meaning reading tag := by
  unfold drawnAttributes shownAttributes
  unfold IsUnstyled at unstyled
  generalize blueprint.attributes = entries at named unstyled ⊢
  suffices drawn : ∀ attributes : List Attribute,
      (∀ entry ∈ entries, ∀ other ∈ attributes, other.name ≠ entry.1) →
      entries.foldl (fun attributes entry =>
        drawEntry meaning reading tag entry attributes) attributes =
        attributes ++ entries.filterMap (shownAttribute? meaning reading tag) by
    exact drawn [] fun _ _ _ impossible => absurd impossible List.not_mem_nil
  induction entries with
  | nil =>
      intro attributes _
      rw [List.foldl_nil, List.filterMap_nil, List.append_nil]
  | cons entry rest ih =>
      intro attributes unnamed
      rw [List.map_cons, List.nodup_cons] at named
      rw [List.foldl_cons, drawEntry_of_unnamed (unstyled entry (.head _))
        (unnamed entry (.head _)), ih named.2
          (fun other member => unstyled other (.tail _ member)) _ ?_,
        List.append_assoc]
      · cases shown : shownAttribute? meaning reading tag entry <;> simp [shown]
      · intro later member other among
        rcases List.mem_append.mp among with old | new
        · exact unnamed later (.tail _ member) other old
        · rw [name_of_mem_shownAttribute? new]
          intro same
          rw [same] at named
          exact named.1 (List.mem_map_of_mem member)

end Shown

/-- The trees that members denote, one after the other. -/
inductive Denotes (meaning : Meaning) (world : World σ) :
    List Member → List Tree → Prop where
  | nil : Denotes meaning world [] []
  | text {t : TemplateId} {schema : Schema} {rest : List Member}
      {trees : List Tree} :
      (world.template t).blueprint.text = some schema →
      Denotes meaning world rest trees →
      Denotes meaning world (.template t :: rest)
        (.text (drawnText meaning world.property (flattenChunks schema)) ::
          trees)
  | element {t : TemplateId} {tag : String} {rest : List Member}
      {children trees : List Tree} :
      (world.template t).blueprint.text = none →
      (world.template t).blueprint.tag = some tag →
      Denotes meaning world (world.template t).blueprint.children children →
      Denotes meaning world rest trees →
      Denotes meaning world (.template t :: rest)
        (.element ((world.template t).blueprint.namespaceName.getD
          Selector.htmlNamespace) tag
          ((world.template t).blueprint.shownAttributes meaning world.property
            (some tag)) children :: trees)
  | collection {c : CollectionId} {rest : List Member}
      {members trees : List Tree} :
      Denotes meaning world ((world.collection c).members.map .view) members →
      Denotes meaning world rest trees →
      Denotes meaning world (.collection c :: rest) (members ++ trees)
  | view {v : ViewId} {t : TemplateId} {rest : List Member}
      {elements trees : List Tree} :
      (world.view v).rendered = false →
      (world.view v).template = some t →
      Denotes meaning world [.template t] elements →
      Denotes meaning world rest trees →
      Denotes meaning world (.view v :: rest) (elements ++ trees)
  | present {member : Member} {r : NodeId} {rest : List Member}
      {trees : List Tree} :
      member.root? world = some r →
      Denotes meaning world rest trees →
      Denotes meaning world (member :: rest)
        ((world.dom.moved r).map world.dom.tree ++ trees)

variable {world : World σ}

theorem Member.root?_fresh {v : ViewId} {t : TemplateId}
    (fresh : (world.view v).rendered = false)
    (found : (world.view v).template = some t) :
    Member.root? world (.view v) = none := by
  exact if_pos ⟨fresh, by rw [found]; rfl⟩

theorem Denotes.unique {members : List Member} {trees others : List Tree}
    (first : Denotes meaning world members trees)
    (second : Denotes meaning world members others) : trees = others := by
  induction first generalizing others with
  | nil =>
      cases second
      rfl
  | text isText _ ih =>
      cases second with
      | text same rest =>
          rw [isText] at same
          cases same
          rw [ih rest]
      | element isElement =>
          rw [isText] at isElement
          cases isElement
      | present root => cases root
  | element isElement tagged _ _ children ih =>
      cases second with
      | text isText =>
          rw [isElement] at isText
          cases isText
      | element _ same inner rest =>
          rw [tagged] at same
          cases same
          rw [children inner, ih rest]
      | present root => cases root
  | collection _ _ members ih =>
      cases second with
      | collection inner rest => rw [members inner, ih rest]
      | present root => cases root
  | view fresh found _ _ elements ih =>
      cases second with
      | view _ same inner rest =>
          rw [found] at same
          cases same
          rw [elements inner, ih rest]
      | present root =>
          rw [Member.root?_fresh fresh found] at root
          cases root
  | present root _ ih =>
      cases second with
      | text => cases root
      | element => cases root
      | collection => cases root
      | view fresh found =>
          rw [Member.root?_fresh fresh found] at root
          cases root
      | present same rest =>
          rw [root] at same
          cases same
          rw [ih rest]

/-- No definition among members has a style map. -/
def World.IsUnstyled (world : World σ) (members : List Member) : Prop :=
  ∀ place t, StandsAmong world members place (.template t) →
    (world.template t).blueprint.IsUnstyled

theorem World.IsUnstyled.included {outer inner : List Member}
    (unstyled : world.IsUnstyled outer)
    (included : world.Includes outer inner) : world.IsUnstyled inner := by
  obtain ⟨map, _, maps⟩ := included
  exact fun place t stands => unstyled _ t (maps place _ stands)

theorem Realized.denotes {dom : Dom} {members : List Member}
    {nodes : List NodeId} {requests : List Request}
    (realized : Realized meaning world dom members nodes requests)
    (plain : world.IsPlain host meaning members)
    (unstyled : world.IsUnstyled members)
    (grown : world.dom.nodes.size ≤ dom.nodes.size)
    (trees : ∀ n ∈ nodes, dom.IsTree n) :
    Denotes meaning world members (nodes.map dom.tree) := by
  induction realized with
  | nil => exact .nil
  | @text t n schema rest _ _ isText kind _ ih =>
      have tail := world.includes_tail (.template t) rest
      rw [List.map_cons, Dom.tree_eq (trees n (.head _)), kind]
      exact .text isText (ih (plain.included tail) (unstyled.included tail)
        fun other member => trees other (.tail _ member))
  | @element t n tag rest _ _ _ isElement tagged kind _ _ children ih =>
      have tail := world.includes_tail (.template t) rest
      have head := world.includes_head (.template t) rest
      have below := world.includes_children isElement
      have isTree := trees n (.head _)
      rw [List.map_cons, Dom.tree_eq isTree, kind, Blueprint.drawnAttributes_eq
        (plain.sound t).named (unstyled [0] t ⟨_, rfl, .here _⟩)]
      exact .element isElement tagged
        (children ((plain.included head).included below)
          ((unstyled.included head).included below)
          fun child member => isTree.child member)
        (ih (plain.included tail) (unstyled.included tail)
          fun other member => trees other (.tail _ member))
  | @collection c rest _ _ _ _ _ _ members ih =>
      have tail := world.includes_tail (.collection c) rest
      have head := world.includes_head (.collection c) rest
      have below := world.includes_members c
      rw [List.map_append]
      exact .collection
        (members ((plain.included head).included below)
          ((unstyled.included head).included below)
          fun n member => trees n (by simp [member]))
        (ih (plain.included tail) (unstyled.included tail)
          fun n member => trees n (by simp [member]))
  | @view v t rest _ _ _ _ fresh found _ _ template ih =>
      have tail := world.includes_tail (.view v) rest
      have head := world.includes_head (.view v) rest
      have below := world.includes_template fresh found
      rw [List.map_append]
      exact .view fresh found
        (template ((plain.included head).included below)
          ((unstyled.included head).included below)
          fun n member => trees n (by simp [member]))
        (ih (plain.included tail) (unstyled.included tail)
          fun n member => trees n (by simp [member]))
  | @present member r rest _ _ root same _ ih =>
      have tail := world.includes_tail member rest
      have isTree := plain.scatters.trees r (World.roots_self root rest)
      -- What was there already is only moved, so its tree is that of the start.
      have moved : (world.dom.moved r).map dom.tree =
          (world.dom.moved r).map world.dom.tree := by
        refine List.map_congr_left fun n among => ?_
        refine (same n among).tree_eq ?_ grown
        unfold Dom.moved at among
        split at among
        · exact isTree.child among
        · rw [List.mem_singleton.mp among]
          exact isTree
      rw [List.map_append, moved]
      exact .present root (ih (plain.included tail) (unstyled.included tail)
        fun n member => trees n (by simp [member]))

namespace Template

/-- In a world that can be reached, with links that are in step, rendering a
template succeeds with a node that stands alone and has the tree that the
template denotes, provided that what it moves keeps apart. -/
theorem render_builds_denotation {client : σ} {world : World σ}
    (reached : Run (World.initial client) world)
    (linked : world.dom.IsLinked) {t : TemplateId}
    (scatters : world.Scatters [.template t])
    (means : ∀ place inner, StandsAmong world [.template t] place
      (.template inner) → (world.template inner).blueprint.Means host meaning)
    (unstyled : world.IsUnstyled [.template t]) {n : NodeId}
    (rendered : (render host t).result world = .ok n) :
    let later := (render host t).after world
    later.dom.parent? n = none ∧ ∀ trees,
      Denotes meaning world [.template t] trees ↔
        trees = [later.dom.tree n] := by
  intro later
  have plain : world.IsPlain host meaning [.template t] :=
    ⟨linked, (reached.progress (World.ordered_initial client)).1.sound,
      scatters, means⟩
  obtain ⟨alone, requests, offers⟩ := offers_renderWith
    (View.delivers_render host meaning world).mount plain
    (World.Awaits.refl world _) rendered
  have realized := offers.realized
  rw [alone.moved] at realized
  have denotes := realized.denotes plain unstyled offers.spares.size
    fun other member => by
      rw [List.mem_singleton.mp member]
      exact offers.tree
  exact ⟨alone.parent?, fun trees => ⟨fun denoted => denoted.unique denotes,
    fun same => same ▸ denotes⟩⟩

namespace Gallery

/-- A client whose code changes nothing. -/
def client : Host Unit where
  keeps _ := []
  notice _ _ := pure ()
  event _ _ := pure ()
  transform _ value _ := pure value
  destroy _ := pure ()

def same : Meaning := fun _ value _ => value

/-- A schema for a property. -/
def shows (property : String) : Schema :=
  [.bound ⟨⟨0⟩, ⟨0⟩, property, .value, some ⟨0⟩⟩]

/-- A list with an item, a text that belongs to a view, a view that is yet to
be rendered, and an element with a title for all of them. -/
def start : World Unit :=
  { World.initial () with
    dom := ⟨⟨#[⟨.element "html" "ul" [], none, [⟨1⟩]⟩,
      ⟨.element "html" "li" [], some ⟨0⟩, []⟩, ⟨.text "b", none, []⟩]⟩⟩
    properties := ⟨#[[("x", .text "a")]]⟩
    emitters := ⟨#[⟨[], []⟩]⟩
    templates := ⟨#[⟨.ofText (shows "x"), false, none⟩,
      ⟨.ofText [.fixed (.text "c")], false, none⟩,
      ⟨⟨some "div", none, none, [("title", shows "x"), ("lang", shows "y")], [],
        [.collection ⟨0⟩, .node ⟨1⟩, .template ⟨1⟩]⟩, false, none⟩]⟩
    views := ⟨#[⟨⟨0⟩, ⟨0⟩, some ⟨0⟩, none, false, []⟩,
      ⟨⟨0⟩, ⟨0⟩, none, some ⟨2⟩, true, []⟩]⟩
    collections := ⟨#[⟨[⟨0⟩, ⟨1⟩], none, none⟩]⟩ }

theorem reached : Run (World.initial ()) start := by
  refine .aside rfl rfl rfl ⟨?_, ?_⟩
  · rintro ⟨index⟩ entry kept
    rcases index with _ | _ | _ | index <;> cases kept
  · rintro _ ⟨index⟩
    rcases index with _ | _ | _ | index
    · exact ⟨.nil, fun _ member => absurd member List.not_mem_nil⟩
    · exact ⟨.nil, fun _ member => absurd member List.not_mem_nil⟩
    · refine ⟨by decide, fun t member => ?_⟩
      rcases List.mem_cons.mp member with same | member
      · cases same
      rcases List.mem_cons.mp member with same | member
      · cases same
      · cases List.mem_singleton.mp member
        exact Nat.one_lt_two
    · exact .none _

/-- Whatever stands in the element, and where. -/
def places : List (List Nat × Member) :=
  [([0], .template ⟨2⟩), ([0, 0], .collection ⟨0⟩), ([0, 0, 0], .view ⟨0⟩),
    ([0, 0, 0, 0], .template ⟨0⟩), ([0, 0, 1], .view ⟨1⟩),
    ([0, 1], .node ⟨1⟩), ([0, 2], .template ⟨1⟩)]

theorem stands_text {t : TemplateId} {schema : Schema}
    (isText : (start.template t).blueprint.text = some schema)
    {place : List Nat} {inner : Member}
    (stands : Stands start (.template t) place inner) :
    (place, inner) = ([], .template t) := by
  cases stands with
  | here => rfl
  | template isElement =>
      rw [isText] at isElement
      cases isElement

theorem stands_collection {place : List Nat} {inner : Member}
    (stands : Stands start (.collection ⟨0⟩) place inner) :
    (0 :: 0 :: place, inner) ∈ places := by
  cases stands with
  | here => exact .tail _ (.head _)
  | @collection _ index v _ place found stands =>
      rcases index with _ | _ | index
      · cases found
        cases stands with
        | here => decide
        | view fresh found stands =>
            cases found
            cases stands_text rfl stands
            decide
      · cases found
        cases stands with
        | here => decide
        | view fresh => cases fresh
      · cases found

theorem mem_places {place : List Nat} {inner : Member}
    (stands : StandsAmong start [.template ⟨2⟩] place inner) :
    (place, inner) ∈ places := by
  rcases place with _ | ⟨_ | index, place⟩
  · exact stands.elim
  · obtain ⟨_, found, stands⟩ := stands
    cases found
    cases stands with
    | here => exact .head _
    | @template _ index child _ place _ found stands =>
        rcases index with _ | _ | _ | index
        · cases found
          exact stands_collection stands
        · cases found
          cases stands
          decide
        · cases found
          cases stands_text rfl stands
          decide
        · cases found
  · obtain ⟨_, missing, _⟩ := stands
    cases missing

theorem linked : start.dom.IsLinked := by
  rintro ⟨parent⟩ ⟨child⟩
  rcases parent with _ | _ | _ | parent <;>
    rcases child with _ | _ | _ | child <;>
    simp [start, Dom.children, Dom.parent?, Dom.node, Store.get, default]

theorem root_of_places {place : List Nat} {member : Member} {r : NodeId}
    (among : (place, member) ∈ places) (root : member.root? start = some r) :
    (place, r) = ([0, 0, 1], ⟨2⟩) ∨ (place, r) = ([0, 1], ⟨1⟩) := by
  simp only [places, List.mem_cons, Prod.mk.injEq, List.not_mem_nil,
    or_false] at among
  rcases among with ⟨rfl, rfl⟩ | ⟨rfl, rfl⟩ | ⟨rfl, rfl⟩ | ⟨rfl, rfl⟩ |
    ⟨rfl, rfl⟩ | ⟨rfl, rfl⟩ | ⟨rfl, rfl⟩ <;> cases root
  · exact .inl rfl
  · exact .inr rfl

theorem eq_of_inside {n inner : NodeId} (none : start.dom.children n = [])
    (inside : start.dom.Inside n inner) : inner = n := by
  cases inside with
  | here => rfl
  | under member =>
      rw [none] at member
      cases member

theorem isTree {n : NodeId} (there : n.index < 3)
    (none : start.dom.children n = []) : start.dom.IsTree n := by
  exact .node there (none ▸ .nil) (none ▸ fun _ member =>
    absurd member List.not_mem_nil)

theorem scatters : start.Scatters [.template ⟨2⟩] := by
  have places_eq : ∀ a ∈ places, ∀ b ∈ places, a.2 = b.2 → a.1 = b.1 := by
    decide
  refine ⟨?_, ?_, ?_⟩
  · rintro r ⟨place, member, stands, root⟩
    rcases root_of_places (mem_places stands) root with same | same
    · cases same
      exact isTree (by decide) rfl
    · cases same
      exact isTree (by decide) rfl
  · intro p q v left right
    exact places_eq _ (mem_places left) _ (mem_places right) rfl
  · intro p q one other r s left right root below inside
    rcases root_of_places (mem_places left) root with same | same <;> cases same
    · cases eq_of_inside rfl inside
      rcases root_of_places (mem_places right) below with same | same
      · cases same
        rfl
      · cases same
    · cases eq_of_inside rfl inside
      rcases root_of_places (mem_places right) below with same | same
      · cases same
      · cases same
        rfl

theorem means (t : TemplateId) :
    (start.template t).blueprint.Means client same := by
  exact .of_bindings fun _ _ _ _ _ _ => ⟨rfl, rfl⟩

theorem unstyled : start.IsUnstyled [.template ⟨2⟩] := by
  rintro place ⟨index⟩ _ entry member
  rcases index with _ | _ | _ | index
  · cases member
  · cases member
  · rcases List.mem_cons.mp member with rfl | member
    · rfl
    · cases List.mem_singleton.mp member
      rfl
  · cases member

theorem renders : (render client ⟨2⟩).result start = .ok ⟨3⟩ := by
  decide +kernel

end Gallery

/-- The item leaves its list, and the attribute without a value is left out. -/
theorem render_gallery :
    let later := (render Gallery.client ⟨2⟩).after Gallery.start
    later.dom.parent? ⟨3⟩ = none ∧
      Denotes Gallery.same Gallery.start [.template ⟨2⟩]
        [later.dom.tree ⟨3⟩] ∧
      later.dom.outerHtml ⟨3⟩ = "<div title=\"a\">ab<li></li>c</div>" := by
  obtain ⟨free, denotes⟩ := render_builds_denotation Gallery.reached
    Gallery.linked Gallery.scatters (fun _ inner _ => Gallery.means inner)
    Gallery.unstyled Gallery.renders
  refine ⟨free, (denotes _).mpr rfl, ?_⟩
  decide +kernel

end Template

end LiveTemplate
