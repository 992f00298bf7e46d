import LiveTemplate.Proofs.Application
import LiveTemplate.Proofs.Gathering
import LiveTemplate.Proofs.Retrying
import LiveTemplate.Proofs.Skeletons

/-!
# Applying and rendering agree

A template that can be rendered and brings nothing but nested definitions can
be worked into its skeleton, and rendered afterwards.  Both come to the same
tree and subscribe to the same things in the same order: two nodes that come to
the same members have the same trees, and what they subscribe to corresponds.
-/

namespace LiveTemplate

variable {σ : Type} {host : Host σ} {meaning : Meaning} {world : World σ}

/-- Two nodes stand at the same place below two others. -/
inductive Dom.Corresponds (one other : Dom) :
    NodeId → NodeId → NodeId → NodeId → Prop where
  | here (n m : NodeId) : Corresponds one other n m n m
  | under {n m child twin inner counterpart : NodeId} {index : Nat} :
      (one.children n)[index]? = some child →
      (other.children m)[index]? = some twin →
      Corresponds one other child twin inner counterpart →
      Corresponds one other n m inner counterpart

/-- The same event of the same observable or of two nodes that are related. -/
inductive Request.Matches (related : NodeId → NodeId → Prop) :
    Request → Request → Prop where
  | observable (o : ObservableId) (event : String) :
      Matches related (.observable o, event) (.observable o, event)
  | node {n m : NodeId} (event : String) :
      related n m → Matches related (.node n, event) (.node m, event)

section Matches

variable {related : NodeId → NodeId → Prop}

theorem Request.matches_observables {requests : List Request}
    (observables : ∀ request ∈ requests, ∃ o event,
      request = (.observable o, event)) :
    List.Forall₂ (Request.Matches related) requests requests := by
  refine List.forall₂_same.mpr fun request member => ?_
  obtain ⟨o, event, rfl⟩ := observables request member
  exact .observable o event

theorem observable_of_mem_slotRequests {chunks : List Chunk} {request : Request}
    (member : request ∈ slotRequests chunks) :
    ∃ o event, request = (.observable o, event) := by
  obtain ⟨chunk, _, asked⟩ := List.mem_filterMap.mp member
  cases chunk with
  | bound binding =>
      cases asked
      exact ⟨_, _, rfl⟩
  | fixed => cases asked
  | namespaced => cases asked
  | styles => cases asked

private theorem observable_of_mem_entryRequests {entry : String × Schema}
    {request : Request} (member : request ∈ entryRequests entry) :
    ∃ o event, request = (.observable o, event) := by
  unfold entryRequests at member
  split at member
  · cases member
  · obtain ⟨style, _, inside⟩ := List.mem_flatMap.mp member
    exact observable_of_mem_slotRequests inside
  · exact observable_of_mem_slotRequests member

/-- What an attribute subscribes to does not depend on the node. -/
theorem Request.matches_attributes (blueprint : Blueprint) :
    List.Forall₂ (Request.Matches related)
      (blueprint.attributes.flatMap entryRequests)
      (blueprint.attributes.flatMap entryRequests) := by
  refine matches_observables fun request member => ?_
  obtain ⟨entry, _, inside⟩ := List.mem_flatMap.mp member
  exact observable_of_mem_entryRequests inside

/-- Listeners of a definition wait for the same events at both nodes. -/
theorem Request.matches_listeners (blueprint : Blueprint) {n m : NodeId}
    (pair : related n m) :
    List.Forall₂ (Request.Matches related) (blueprint.listenerRequests n)
      (blueprint.listenerRequests m) := by
  unfold Blueprint.listenerRequests
  induction blueprint.listeners with
  | nil => exact .nil
  | cons entry rest ih =>
      rw [List.flatMap_cons, List.flatMap_cons]
      refine List.rel_append ?_ ih
      cases parseListenerKey entry.1 with
      | error => exact .nil
      | ok parsed =>
          rw [List.forall₂_map_left_iff, List.forall₂_map_right_iff]
          exact List.forall₂_same.mpr fun _ _ => .node _ pair

end Matches

/-- Nodes that come to the same templates have the same trees, and subscribe to
what corresponds. -/
theorem Realized.agree {one other : Dom} {later : World σ}
    (blueprints : ∀ t,
      (later.template t).blueprint = (world.template t).blueprint)
    (reads : later.property = world.property) {members : List Member}
    {bare nodes twins : List NodeId} {asked heard : List Request}
    (skeleton : Skeleton world members bare)
    (first : Realized meaning world one members nodes asked)
    (second : Realized meaning later other members twins heard)
    (trees : ∀ n ∈ nodes, one.IsTree n)
    (others : ∀ m ∈ twins, other.IsTree m)
    {related : NodeId → NodeId → Prop}
    (pairs : ∀ (index : Nat) n m, nodes[index]? = some n →
      twins[index]? = some m → ∀ inner counterpart,
      one.Corresponds other n m inner counterpart → related inner counterpart) :
    nodes.map one.tree = twins.map other.tree ∧
      List.Forall₂ (Request.Matches related) asked heard := by
  induction skeleton generalizing nodes twins asked heard related with
  | nil =>
      cases first
      cases second
      exact ⟨rfl, .nil⟩
  | text isText _ _ ih =>
      obtain ⟨n, nodes, asked, rfl, rfl, drawn, first⟩ := first.of_text isText
      rw [← blueprints] at isText
      obtain ⟨m, twins, heard, rfl, rfl, same, second⟩ :=
        second.of_text isText
      obtain ⟨rest, matched⟩ := ih first second
        (fun inner member => trees inner (.tail _ member))
        (fun inner member => others inner (.tail _ member))
        fun index => pairs (index + 1)
      refine ⟨?_, List.rel_append (Request.matches_observables fun _ =>
        observable_of_mem_slotRequests) matched⟩
      rw [List.map_cons, List.map_cons, rest, Dom.tree_eq (trees n (.head _)),
        Dom.tree_eq (others m (.head _)), drawn, same, reads]
      rfl
  | element isElement tagged _ _ _ children ih =>
      obtain ⟨n, nodes, inner, asked, rfl, rfl, drawn, below, first⟩ :=
        first.of_element isElement tagged
      rw [← blueprints] at isElement tagged
      obtain ⟨m, twins, twin, heard, rfl, rfl, same, under, second⟩ :=
        second.of_element isElement tagged
      rw [blueprints] at same under ⊢
      have isTree := trees n (.head _)
      have isTwin := others m (.head _)
      -- The listeners of the two elements are paired by the places of their nodes.
      have related := pairs 0 n m rfl rfl
      obtain ⟨nested, inside⟩ := children below under
        (fun child member => isTree.child member)
        (fun child member => isTwin.child member)
        fun index child twin left right inner counterpart corresponds =>
          related inner counterpart (.under left right corresponds)
      obtain ⟨rest, matched⟩ := ih first second
        (fun inner member => trees inner (.tail _ member))
        (fun inner member => others inner (.tail _ member))
        fun index => pairs (index + 1)
      constructor
      · rw [List.map_cons, List.map_cons, rest, Dom.tree_eq isTree,
          Dom.tree_eq isTwin, drawn, same, reads, nested]
      · refine List.rel_append (List.rel_append (List.rel_append ?_ inside) ?_)
          matched
        · exact Request.matches_attributes _
        · exact Request.matches_listeners _ (related n m (.here n m))

private theorem Realized.agree_single {one other : Dom} {later : World σ}
    (blueprints : ∀ t,
      (later.template t).blueprint = (world.template t).blueprint)
    (reads : later.property = world.property) {member : Member}
    {bare n m : NodeId} {asked heard : List Request}
    (skeleton : Skeleton world [member] [bare])
    (first : Realized meaning world one [member] [n] asked)
    (second : Realized meaning later other [member] [m] heard)
    (isTree : one.IsTree n) (isTwin : other.IsTree m) :
    one.tree n = other.tree m ∧
      List.Forall₂ (Request.Matches (one.Corresponds other n m)) asked
        heard := by
  have pairs (index : Nat) (left right : NodeId)
      (found : [n][index]? = some left) (twin : [m][index]? = some right)
      (inner counterpart : NodeId)
      (corresponds : one.Corresponds other left right inner counterpart) :
      one.Corresponds other n m inner counterpart := by
    cases index with
    | zero =>
        cases found
        cases twin
        exact corresponds
    | succ index => cases found
  obtain ⟨trees, matched⟩ := agree blueprints reads skeleton first second
    (fun _ inside => List.mem_singleton.mp inside ▸ isTree)
    (fun _ inside => List.mem_singleton.mp inside ▸ isTwin) pairs
  exact ⟨(List.cons.inj trees).1, matched⟩

namespace Skeleton

variable {members : List Member} {nodes : List NodeId}

theorem template_of_stands (skeleton : Skeleton world members nodes)
    {place : List Nat} {inner : Member}
    (stands : StandsAmong world members place inner) :
    ∃ t, inner = .template t := by
  have descend {t : TemplateId} {rest : List Member} {index : Nat}
      {place : List Nat}
      (later : ∀ {p}, StandsAmong world rest p inner →
        ∃ t, inner = .template t)
      (below : ∀ {p}, (world.template t).blueprint.text = none →
        StandsAmong world (world.template t).blueprint.children p inner →
          ∃ t, inner = .template t)
      (stands : StandsAmong world (.template t :: rest) (index :: place)
        inner) : ∃ t, inner = .template t := by
    cases index with
    | succ index => exact later (p := index :: place) stands
    | zero =>
        obtain ⟨_, same, stands⟩ := stands
        cases same
        cases stands with
        | here => exact ⟨t, rfl⟩
        | template element found stands =>
            exact below (p := _ :: _) element ⟨_, found, stands⟩
  induction skeleton generalizing place with
  | nil =>
      cases place with
      | nil => exact stands.elim
      | cons index place =>
          obtain ⟨_, missing, _⟩ := stands
          cases missing
  | text isText _ _ ih =>
      cases place with
      | nil => exact stands.elim
      | cons index place =>
          refine descend ih (fun isElement _ => ?_) stands
          rw [isText] at isElement
          cases isElement
  | element _ _ _ _ _ children ih =>
      cases place with
      | nil => exact stands.elim
      | cons index place => exact descend ih (fun _ => children) stands

theorem template_of_mem (skeleton : Skeleton world members nodes)
    {member : Member} (inside : member ∈ members) :
    ∃ t, member = .template t := by
  obtain ⟨index, found⟩ := List.mem_iff_getElem?.mp inside
  exact skeleton.template_of_stands
    (show StandsAmong world members [index] member from ⟨_, found, .here _⟩)

/-- Templates that can be rendered fit their skeletons. -/
theorem graftable (skeleton : Skeleton world members nodes)
    (unfolds : ∀ t, .template t ∈ members →
      ∃ templates, Template.Unfolds world t templates) :
    List.Forall₂ (Graftable world) (members.filterMap Member.template?)
      nodes := by
  induction skeleton with
  | nil => exact .nil
  | @text t n schema rest nodes isText kind _ ih =>
      obtain ⟨_, unfolded⟩ := unfolds t (.head _)
      have shape := (Template.unfolds_iff.mp unfolded).1.shape
      refine .cons ?_ (ih fun other member => unfolds other (.tail _ member))
      refine (graftable_text_iff isText).mpr ⟨?_, Dom.isText_iff.mpr ⟨_, kind⟩⟩
      rw [isText] at shape
      cases tagged : (world.template t).blueprint.tag with
      | none => rfl
      | some tag =>
          rw [tagged] at shape
          exact absurd rfl shape
  | @element t n tag rest nodes isElement _ kind below _ children ih =>
      obtain ⟨_, unfolded⟩ := unfolds t (.head _)
      obtain ⟨renderable, parts, _, each⟩ := Template.unfolds_iff.mp unfolded
      refine .cons ?_ (ih fun other member => unfolds other (.tail _ member))
      have nested := children fun inner member => by
        have among : inner ∈ (world.template t).blueprint.nested :=
          List.mem_filterMap.mpr ⟨_, member, rfl⟩
        obtain ⟨count, paired⟩ := List.forall₂_iff_zip.mp each
        obtain ⟨part, inside⟩ := exists_mem_zip count among
        exact ⟨part, paired inside⟩
      obtain ⟨count, paired⟩ := List.forall₂_iff_zip.mp nested
      refine (graftable_element_iff isElement).mpr ⟨Dom.isElement_iff.mpr
        ⟨_, _, _, kind⟩, ⟨renderable.listeners, renderable.styles, ?_, ?_⟩,
        count, fun _ _ member => paired member⟩
      · intro v inside
        obtain ⟨_, impossible⟩ := below.template_of_mem inside
        cases impossible
      · intro r inside
        obtain ⟨_, impossible⟩ := below.template_of_mem inside
        cases impossible

end Skeleton

theorem Matched.stands {t inner : TemplateId} {n node : NodeId}
    (matched : Matched world t n inner node) :
    ∃ place, Stands world (.template t) place (.template inner) := by
  induction matched with
  | root t n => exact ⟨[], .here _⟩
  | nested isElement paired _ ih =>
      obtain ⟨place, stands⟩ := ih
      have member := Blueprint.mem_children_of_mem_nested
        (List.of_mem_zip paired).1
      obtain ⟨index, found⟩ := List.mem_iff_getElem?.mp member
      exact ⟨index :: place, .template isElement found stands⟩

theorem World.Advances.standsAmong {later : World σ}
    (advances : world.Advances later) {members : List Member}
    {place : List Nat} {inner : Member}
    (stands : StandsAmong later members place inner) :
    StandsAmong world members place inner := by
  cases place with
  | nil => exact stands.elim
  | cons index place =>
      obtain ⟨member, found, stands⟩ := stands
      exact ⟨member, found, advances.stands stands⟩

theorem World.Scatters.of_templates {members : List Member}
    (only : ∀ place inner, StandsAmong world members place inner →
      ∃ t, inner = .template t) : world.Scatters members where
  trees r roots := by
    obtain ⟨place, member, stands, root⟩ := roots
    obtain ⟨t, rfl⟩ := only place member stands
    cases root
  views p q v stands _ := by
    obtain ⟨t, impossible⟩ := only p _ stands
    cases impossible
  roots p q one other r s stands _ root _ _ := by
    obtain ⟨t, rfl⟩ := only p one stands
    cases root

namespace Template

theorem template_keep (t other : TemplateId) (entry : NodeId × Record)
    (world : World σ) :
    let later := (update t fun template =>
      { template with applied := some entry }).after world
    (later.template other).blueprint = (world.template other).blueprint ∧
      (later.template other).rendered = (world.template other).rendered := by
  intro later
  by_cases same : other = t
  · subst same
    simp only [later, template_update, and_self]
  · simp only [later, template_update_of_ne _ _ same, and_self]

/-- A template that can be rendered is worked into its skeleton. -/
theorem apply_bare {t : TemplateId} {n : NodeId} {templates : List TemplateId}
    (bare : world.IsBare host meaning [.template t] [n])
    (free : (world.template t).applied = none)
    (unfolds : Unfolds world t templates) :
    (apply host t n).result world = .ok n ∧
      (∀ other, (((apply host t n).after world).template other).rendered =
        (world.template other).rendered) ∧
      ∃ requests, Dresses meaning world [.template t] world [n] requests
        ((apply host t n).after world) := by
  have fits : Graftable world t n := by
    have each := bare.skeleton.graftable fun other member => by
      cases List.mem_singleton.mp member
      exact ⟨templates, unfolds⟩
    cases each with
    | cons fits _ => exact fits
  have isPure : IsPure host world t n := fun inner node matched => by
    obtain ⟨place, stands⟩ := matched.stands
    exact (bare.means (0 :: place) inner ⟨_, rfl, stands⟩).isPure
  obtain ⟨record, passed, grafted⟩ := grafted_applyPass bare.sound fits isPure
  obtain ⟨requests, dresses⟩ := dresses_applyPass bare passed
  have runs := run_apply_of_passed free ((checkApply_ok_iff bare.sound).mpr fits)
    (Prod.ext passed rfl)
  have same := grafted.fills.templates
  have result : (apply host t n).result world = .ok n := congrArg Prod.fst runs
  have after : (apply host t n).after world = (update t fun template =>
      { template with applied := some (n, record) }).after
        ((applyPass host t n).after world) := congrArg Prod.snd runs
  rw [result, after]
  generalize (applyPass host t n).after world = applied at *
  have kept := fun other => template_keep t other (n, record) applied
  have quiet : applied.Subscribed [] ((update t fun template =>
      { template with applied := some (n, record) }).after applied) :=
    .of_same rfl rfl rfl
  have subscribed := dresses.subscribed.trans quiet
  rw [List.append_nil] at subscribed
  refine ⟨rfl, fun other => ?_, requests, dresses.realized,
    dresses.redresses.trans ⟨.of_setup ⟨fun other => (kept other).1,
      fun _ => rfl, fun _ => rfl⟩ rfl rfl, fun _ => rfl, fun _ => rfl⟩,
    subscribed⟩
  exact (kept other).2.trans (by rw [World.template, World.template, same])

/-- A template that can be rendered is rendered once its skeleton shows
something. -/
theorem render_bare {base world : World σ} {touched : NodeId → Prop}
    {t : TemplateId} {n : NodeId}
    (bare : base.IsBare host meaning [.template t] [n])
    (redresses : base.Redresses touched world)
    (free : (world.template t).rendered = false)
    (checked : checkFresh world t = .ok ()) :
    ∃ m requests, (render host t).result world = .ok m ∧
      ((render host t).after world).dom.IsAlone m ∧
      Offers meaning world [.template t] world m requests
        ((render host t).after world) := by
  have advances := redresses.spares.advances
  have only (place : List Nat) (inner : Member)
      (stands : StandsAmong world [.template t] place inner) :
      ∃ other, inner = .template other :=
    bare.skeleton.template_of_stands (advances.standsAmong stands)
  have means (place : List Nat) (inner : TemplateId)
      (stands : StandsAmong world [.template t] place (.template inner)) :
      (world.template inner).blueprint.Means host meaning := by
    rw [advances.blueprints]
    exact bare.means place inner (advances.standsAmong stands)
  have sound : world.HasSoundTemplates := fun other => by
    rw [advances.blueprints]
    exact bare.sound other
  have settled : Member.IsSettled host world (.template t) := by
    intro place inner stands
    have among : StandsAmong world [.template t] (0 :: place) inner :=
      ⟨_, rfl, stands⟩
    obtain ⟨other, rfl⟩ := only _ _ among
    refine ⟨fun found same => ?_, fun v impossible => by cases impossible⟩
    cases same
    exact (means _ _ among).isPure
  obtain ⟨m, record, _, _, passed, _⟩ := marks_renderPass
    (View.reuses_mountWith (View.render host)) sound settled free checked
  have rendered : (render host t).result world = .ok m :=
    congrArg Prod.fst (run_renderWith_of_passed free checked passed)
  obtain ⟨alone, requests, offers⟩ := offers_renderWith
    (View.delivers_render host meaning world).mount
    ⟨redresses.isLinked bare.linked, sound, .of_templates only, means⟩
    (World.Awaits.refl world _) rendered
  exact ⟨m, requests, rendered, alone, offers⟩

/-- In a world that can be reached, a template that can be rendered and is not
in force is worked into its skeleton.  Rendered afterwards it comes to the same
markup, with the same subscriptions in the same order. -/
theorem apply_agrees_with_render {client : σ} {world : World σ}
    (reached : Run (World.initial client) world)
    (linked : world.dom.IsLinked) {t : TemplateId} {n : NodeId}
    (skeleton : Skeleton world [.template t] [n])
    (isTree : world.dom.IsTree n)
    (means : ∀ place inner, StandsAmong world [.template t] place
      (.template inner) → (world.template inner).blueprint.Means host meaning)
    (free : (world.template t).applied = none)
    (renders : ∃ m, (render host t).result world = .ok m) :
    let applied := (apply host t n).after world
    let later := (render host t).after applied
    (apply host t n).result world = .ok n ∧
      ∃ m, (render host t).result applied = .ok m ∧
        applied.dom.outerHtml n = later.dom.outerHtml m ∧
        ∃ asked heard, world.Subscribed asked applied ∧
          applied.Subscribed heard later ∧
          List.Forall₂ (Request.Matches
            (applied.dom.Corresponds later.dom n m)) asked heard := by
  intro applied later
  have sound := (reached.progress (World.ordered_initial client)).1.sound
  obtain ⟨_, rendered⟩ := renders
  obtain ⟨fresh, checked, _⟩ := renderWith_ok rendered
  obtain ⟨below, unfolds, _⟩ := checkFresh_ok checked
  have bare : world.IsBare host meaning [.template t] [n] :=
    ⟨linked, sound, skeleton,
      fun _ member => List.mem_singleton.mp member ▸ isTree,
      List.pairwise_singleton _ _, means⟩
  obtain ⟨done, unrendered, asked, dresses⟩ := apply_bare bare free unfolds
  have spares := dresses.redresses.spares
  obtain ⟨m, heard, result, alone, offers⟩ := render_bare bare
    dresses.redresses ((unrendered t).trans fresh)
    ((checkFresh_congr spares.advances.blueprints unrendered t).trans checked)
  have twin := offers.realized
  rw [alone.moved] at twin
  obtain ⟨trees, matched⟩ := dresses.realized.agree_single
    spares.advances.blueprints spares.property skeleton twin
    (dresses.redresses.isTree isTree) offers.tree
  exact ⟨done, m, result, congrArg Tree.markup trees, asked, heard,
    dresses.subscribed, offers.subscribed, matched⟩

namespace Couple

def same : Meaning := fun _ value _ => value

/-- A schema for the property of the observable. -/
def shows : Schema := [.bound Card.binding]

/-- A bare element with an empty text in it, and the templates for both. -/
def start : World Unit :=
  { World.initial () with
    dom := ⟨⟨#[⟨.element "html" "p" [], none, [⟨1⟩]⟩,
      ⟨.text "", some ⟨0⟩, []⟩]⟩⟩
    properties := ⟨#[[("x", .text "a")]]⟩
    emitters := ⟨#[⟨[], []⟩]⟩
    templates := ⟨#[⟨.ofText (.fixed (.text "b") :: shows), false, none⟩,
      ⟨⟨some "p", some "html", none,
        [("title", shows), ("style", [.styles [("color", shows)]]),
          ("lang", [.namespaced "xml" shows])],
        [("click@p", [⟨⟨0⟩, ⟨0⟩, .emit "y"⟩])], [.template ⟨0⟩]⟩, false,
        none⟩]⟩ }

theorem reached : Run (World.initial ()) start := by
  refine .aside rfl rfl rfl ⟨?_, ?_⟩
  · rintro ⟨index⟩ entry kept
    rcases index with _ | _ | index <;> cases kept
  · rintro _ ⟨index⟩
    rcases index with _ | _ | index
    · exact ⟨.nil, fun _ member => absurd member List.not_mem_nil⟩
    · refine ⟨by decide, fun t member => ?_⟩
      cases List.mem_singleton.mp member
      exact Nat.one_pos
    · exact .none _

theorem linked : start.dom.IsLinked := by
  rintro ⟨parent⟩ ⟨child⟩
  rcases parent with _ | _ | parent <;> rcases child with _ | _ | child <;>
    simp [start, Dom.children, Dom.parent?, Dom.node, Store.get, default]

theorem skeleton : Skeleton start [.template ⟨1⟩] [⟨0⟩] := by
  exact .element rfl rfl rfl (.text rfl rfl .nil) .nil

theorem isTree : start.dom.IsTree ⟨0⟩ := by
  refine .node (by decide) (by decide) fun child member => ?_
  cases List.mem_singleton.mp member
  exact .node (by decide) (by decide) fun _ member =>
    absurd member List.not_mem_nil

theorem means (t : TemplateId) :
    (start.template t).blueprint.Means Card.client same := by
  exact .of_bindings fun _ _ _ _ _ _ => ⟨rfl, rfl⟩

theorem renders : (render Card.client ⟨1⟩).result start = .ok ⟨2⟩ := by
  decide +kernel

end Couple

/-- The element that was there shows what a fresh one does. -/
theorem apply_agrees_with_render_couple :
    let applied := (apply Card.client ⟨1⟩ ⟨0⟩).after Couple.start
    (∃ m, (render Card.client ⟨1⟩).result applied = .ok m ∧
      applied.dom.outerHtml ⟨0⟩ =
        ((render Card.client ⟨1⟩).after applied).dom.outerHtml m) ∧
      applied.dom.outerHtml ⟨0⟩ =
        "<p title=\"a\" style=\"color: a;\" lang=\"a\">b a</p>" := by
  obtain ⟨_, m, rendered, html, _⟩ := apply_agrees_with_render Couple.reached
    Couple.linked Couple.skeleton Couple.isTree
    (fun _ inner _ => Couple.means inner) rfl ⟨_, Couple.renders⟩
  refine ⟨⟨m, rendered, html⟩, ?_⟩
  decide +kernel

end Template

end LiveTemplate
