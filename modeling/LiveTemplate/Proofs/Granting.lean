import LiveTemplate.Proofs.Clearance
import LiveTemplate.Proofs.Wishes

/-!
# Every wish is granted once

Rendering a template, or applying it to a node, goes through its definition:
each element and each text gets a node, at which all that it wishes for is
granted.  Passes with pure bindings that succeed are followed member by member;
it makes no difference whether nodes are fresh or were there before.
-/

namespace LiveTemplate

variable {σ : Type} {host : Host σ} {among : ViewId → Prop}
  {base world : World σ} {record : Record}

theorem SyncGroup.grants_bind (group : SyncGroup)
    (isPure : ∀ binding ∈ inputsAny group.chunks, binding.IsPure host)
    (booked : world.Booked) :
    Grants host among
      ((group.chunks.filterMap Chunk.binding?).map (.shows group.slot)) []
      world ((group.bind host).after world) := by
  have shown : Grants host among [] [] world
      ((group.sync host).after world) := by
    unfold sync
    rw [Act.after_bind, after_evaluate group.slot.node world isPure]
    have same : world.SameSetup ((modifyDom fun dom => group.slot.display dom
        ((evaluate host group.slot.node group.chunks).result world)).after
          world) := ⟨fun _ => rfl, fun _ => rfl, fun _ => rfl⟩
    exact .quiet booked (.aside rfl rfl rfl (.of_templates rfl)) same.advances
      rfl rfl rfl rfl
  exact shown.trans (.mapM (fun binding member world =>
    .shows (mem_of_mem_filterMap_binding? member) world) shown.booked)

/-- Nothing that changes only the document subscribes to anything. -/
theorem Grants.of_dom (booked : world.Booked) (dom : Dom) :
    Grants host among [] [] world { world with dom := dom } := by
  have same : world.SameSetup { world with dom := dom } :=
    ⟨fun _ => rfl, fun _ => rfl, fun _ => rfl⟩
  exact .quiet booked (.aside rfl rfl rfl (.of_templates rfl)) same.advances
    rfl rfl rfl rfl

/-- What is done by a pass for which what it holds makes no difference. -/
theorem Pass.Ensures.keeping_released {α : Type} {refs : List Ref}
    {pass : Pass σ α} {holds : World σ → World σ → Prop}
    (booked : world.Booked)
    (release : ∀ frames later restored, holds (world.holding frames) later →
      holds world (later.holding restored))
    (inner : ∀ held : World σ, world.Advances held → held.Booked →
      pass.Ensures record held fun _ later => holds held later) :
    (Pass.keeping refs pass).Ensures record world fun _ later =>
      holds world later := by
  have held := (World.SameSetup.refl world).held (.refs refs :: world.frames)
  have entered := booked.of_same
    (.holding world (.refs refs :: world.frames)) rfl rfl
  exact .keeping ((inner _ held.advances entered).weaken
    fun _ later done => release _ later world.frames done)

theorem Grants.keeping {α : Type} {refs : List Ref} {pass : Pass σ α}
    {wishes : List Wish} (booked : world.Booked)
    (inner : ∀ held : World σ, world.Advances held → held.Booked →
      pass.Ensures record held fun _ later =>
        Grants host among wishes [] held later) :
    (Pass.keeping refs pass).Ensures record world fun _ later =>
      Grants host among wishes [] world later := by
  exact .keeping_released booked
    (fun _ _ restored grants => grants.release booked restored) inner

theorem Pass.Ensures.forM_grants {α : Type} {items : List α}
    {body : α → Pass σ Unit} {wishes : α → List Wish}
    (each : ∀ item ∈ items, ∀ record (world : World σ), world.Booked →
      (body item).Ensures record world fun _ later =>
        Grants host among (wishes item) [] world later)
    (booked : world.Booked) :
    (items.forM body).Ensures record world fun _ later =>
      Grants host among (items.flatMap wishes) [] world later := by
  induction items generalizing record world with
  | nil => exact .pure (.refl booked)
  | cons item rest ih =>
      refine (each item (.head _) record world booked).bind
        fun _ recorded between first => ?_
      refine (ih (fun other member => each other (.tail _ member))
        first.booked).weaken fun _ _ second => ?_
      rw [List.flatMap_cons]
      exact first.trans second

namespace Blueprint

variable {blueprint : Blueprint}

theorem grants_renderSlot {slot : Slot} {chunks : List Chunk}
    (isPure : Schema.IsPure host chunks) (booked : world.Booked) :
    (renderSlot host slot chunks).Ensures record world fun _ later =>
      Grants host among ((chunks.filterMap Chunk.binding?).map (.shows slot)) []
        world later := by
  unfold renderSlot
  split
  · exact .act_bind (.note
      (SyncGroup.grants_bind ⟨chunks, slot⟩ isPure.inputs booked))
  · rename_i fixed
    rw [filterMap_binding?_of_fixed (Bool.eq_false_iff.mpr fixed)]
    refine .act_bind ?_
    rw [after_evaluate slot.node world isPure.inputs]
    split
    · exact .act (.of_dom booked _)
    · exact .pure (.refl booked)

theorem grants_renderFlat {slot : Slot} (front : List Chunk) {schema : Schema}
    (isFixed : ∀ chunk ∈ front, ∃ value, chunk = .fixed value)
    (isPure : Schema.IsPure host schema) (booked : world.Booked) :
    (renderSlot host slot (front ++ flattenChunks schema)).Ensures record world
      fun _ later => Grants host among (slotWishes slot schema) [] world
        later := by
  have shown : (front ++ flattenChunks schema).filterMap Chunk.binding? =
      inputsAny schema := by
    rw [List.filterMap_append, filterMap_binding?_flattenChunks,
      List.filterMap_eq_nil_iff.mpr fun chunk member => ?_, List.nil_append]
    obtain ⟨value, rfl⟩ := isFixed chunk member
    rfl
  unfold slotWishes
  rw [← shown]
  exact grants_renderSlot (isPure.flatten.prepend isFixed) booked

/-- An attribute, in front of which a value that was there may be kept. -/
theorem grants_renderAttribute {node : NodeId} {applying : Bool}
    {name : String} {schema : Schema} (isPure : Schema.IsPure host schema)
    (booked : world.Booked) :
    (renderAttribute host node applying name schema).Ensures record world
      fun _ later => Grants host among
        (slotWishes (.attr node (Schema.namespace? schema) name) schema) []
        world later := by
  have shown (front : List Chunk)
      (isFixed : ∀ chunk ∈ front, ∃ value, chunk = .fixed value)
      (record : Record) : Pass.Ensures
        (renderSlot host (.attr node (Schema.namespace? schema) name)
          (front ++ flattenChunks schema)) record world
        fun _ later => Grants host among
          (slotWishes (.attr node (Schema.namespace? schema) name) schema) []
          world later :=
    grants_renderFlat front isFixed isPure booked
  have isFixed (isKept : Bool) (text : String) :
      ∀ chunk ∈ if isKept then [Chunk.fixed (.text text)] else [],
        ∃ value, chunk = .fixed value := by
    cases isKept with
    | true => exact fun _ member => ⟨_, List.mem_singleton.mp member⟩
    | false => exact fun _ none => (List.not_mem_nil none).elim
  unfold renderAttribute
  refine .act_bind ?_
  rw [Act.result_get, Act.after_get]
  cases world.dom.attributeNs? node (Schema.namespace? schema) name with
  | none =>
      cases applying with
      | true => exact .note_bind (shown [] (isFixed false "") _)
      | false => exact shown [] (isFixed false "") _
  | some text =>
      cases applying with
      | true => exact .note_bind (shown _ (isFixed _ _) _)
      | false => exact shown _ (isFixed _ _) _

private theorem grants_renderEntry {node : NodeId} {applying : Bool}
    {name : String}
    {schema : Schema} (isPure : Schema.IsPure host schema)
    (styles : name ≠ "style" → schema.any Chunk.isStyles = false)
    (booked : world.Booked) :
    (renderEntry host blueprint node applying name schema).Ensures record world
      fun _ later =>
        Grants host among (entryWishes node (name, schema)) [] world later := by
  unfold renderEntry
  cases found : entryStyles? name schema with
  | none =>
      have unstyled : schema.any Chunk.isStyles = false := by
        by_cases style : name = "style"
        · unfold entryStyles? styleMap? at found
          rw [if_pos (by simpa using style)] at found
          split at found
          · cases found
          · exact Bool.eq_false_iff.mpr ‹_›
        · exact styles style
      rw [entryWishes_of_unstyled unstyled]
      exact grants_renderAttribute isPure booked
  | some outcome =>
      cases outcome with
      | error fault => exact .throw
      | ok properties =>
          have map := (eq_style_of_entryStyles? found).2
          have shown (record : Record) :
              (renderStyles host node properties).Ensures record world
                fun _ later => Grants host among
                  (entryWishes node (name, schema)) [] world later := by
            have each : (renderStyles host node properties).Ensures record world
                fun _ later => Grants host among
                  (styleWishes node properties) [] world later :=
              .forM_grants (fun style member _ _ booked =>
                grants_renderFlat []
                  (fun _ none => (List.not_mem_nil none).elim)
                  (isPure.styleMap map member) booked) booked
            exact each.weaken fun _ _ grants =>
              grants.perm (styleWishes_of_entryStyles? found)
          cases applying with
          | true => exact .act_bind (.note_bind (shown _))
          | false => exact shown _

private theorem grants_renderAttributes {node : NodeId} {applying : Bool}
    (isPure : blueprint.IsPure host) (styles : blueprint.KeepsStyles)
    (booked : world.Booked) :
    (blueprint.renderAttributes host node applying).Ensures record world
      fun _ later => Grants host among
        (blueprint.attributes.flatMap (entryWishes node)) [] world later := by
  exact .forM_grants (fun entry member _ _ booked =>
    grants_renderEntry (isPure.attributes entry member) (styles entry member)
      booked) booked

private theorem grants_renderListeners {node : NodeId} (booked : world.Booked) :
    (blueprint.renderListeners node).Ensures record world
      fun _ later => Grants host among
        (blueprint.listeners.flatMap fun entry =>
          entry.2.map (.hears node entry.1)) [] world later := by
  refine .forM_grants (fun entry _ record world booked => ?_) booked
  refine .ofExcept_bind fun parsed accepted => .act_bind (.note ?_)
  exact .mapM (fun binding _ world =>
    .hears (keyReads_of_parse accepted) node binding world) booked

theorem grants_renderText {schema : Schema} (target : Option NodeId)
    (isText : blueprint.text = some schema) (isPure : blueprint.IsPure host)
    (booked : world.Booked) :
    (blueprint.renderText host target).Ensures record world fun n later =>
      Grants host among (slotWishes (.text n) schema) [] world later := by
  have flat := isPure.flatText
  rw [isText, Option.getD_some] at flat
  have shown (node : NodeId) (record : Record) {world : World σ}
      (booked : world.Booked) :
      (showText host node (flattenChunks schema)).Ensures record world
        fun n later =>
          Grants host among (slotWishes (.text n) schema) [] world later := by
    refine (Grants.keeping booked fun held _ entered => ?_).bind
      fun _ _ _ grants => .pure grants
    unfold slotWishes
    rw [← filterMap_binding?_flattenChunks]
    split
    · exact .act_bind (.note
        (SyncGroup.grants_bind ⟨_, .text node⟩ flat.inputs entered))
    · rename_i fixed
      rw [filterMap_binding?_of_fixed (Bool.eq_false_iff.mpr fixed)]
      refine .act_bind ?_
      rw [after_plainText flat]
      exact .act (.of_dom entered _)
  unfold renderText
  rw [isText]
  cases target with
  | some node => exact .act_bind (.note_bind (shown node _ booked))
  | none =>
      have made : Grants host among [] [] world
          ((createNode (.text "")).after world) := .of_dom booked _
      exact .act_bind ((shown _ record made.booked).weaken
        fun _ _ grants => made.trans grants)

end Blueprint

/-! ## Members -/

/-- Nodes for the definitions among some members, those nested in an element
before its own. -/
inductive Sites (world : World σ) : List Member → List Site → Prop where
  | nil : Sites world [] []
  | text {t : TemplateId} {n : NodeId} {schema : Schema} {rest : List Member}
      {sites : List Site}
      (isText : (world.template t).blueprint.text = some schema)
      (later : Sites world rest sites) :
      Sites world (.template t :: rest) ((t, n) :: sites)
  | element {t : TemplateId} {n : NodeId} {rest : List Member}
      {inner sites : List Site}
      (isElement : (world.template t).blueprint.text = none)
      (children : Sites world (world.template t).blueprint.children inner)
      (later : Sites world rest sites) :
      Sites world (.template t :: rest) (inner ++ (t, n) :: sites)
  | other {member : Member} {rest : List Member} {sites : List Site}
      (other : member.isTemplate = false) (later : Sites world rest sites) :
      Sites world (member :: rest) sites

theorem Sites.cons {member : Member} {rest : List Member}
    {first sites : List Site} (head : Sites world [member] first)
    (tail : Sites world rest sites) :
    Sites world (member :: rest) (first ++ sites) := by
  cases head with
  | text isText later =>
      cases later
      exact .text isText tail
  | element isElement children later =>
      cases later
      rw [List.append_assoc]
      exact .element isElement children tail
  | other other later =>
      cases later
      exact .other other tail

/-- What the definition of a template wishes for at a node. -/
def World.wishesAt (world : World σ) (site : Site) : List Wish :=
  (world.template site.1).blueprint.wishes site.2

/-- The definitions among some members have got nodes, and all that they wish
for there. -/
def Fulfils (host : Host σ) (among : ViewId → Prop) (base : World σ)
    (members : List Member) (world later : World σ) : Prop :=
  ∃ sites, Sites base members sites ∧
    Grants host among (sites.flatMap base.wishesAt) sites world later

namespace Fulfils

variable {between later : World σ} {members rest : List Member}
  {member : Member}

theorem nil (booked : world.Booked) :
    Fulfils host among base [] world world := by
  exact ⟨[], .nil, .refl booked⟩

theorem cons (head : Fulfils host among base [member] world between)
    (tail : Fulfils host among base rest between later) :
    Fulfils host among base (member :: rest) world later := by
  obtain ⟨first, sites, grants⟩ := head
  obtain ⟨others, more, grantsToo⟩ := tail
  refine ⟨first ++ others, sites.cons more, ?_⟩
  rw [List.flatMap_append]
  exact grants.trans grantsToo

theorem other (grants : Grants host among [] [] world later)
    (other : member.isTemplate = false) :
    Fulfils host among base [member] world later := by
  exact ⟨[], .other other .nil, grants⟩

/-- Something that subscribes to nothing may follow. -/
theorem settle (fulfils : Fulfils host among base members world between)
    (grants : Grants host among [] [] between later) :
    Fulfils host among base members world later := by
  obtain ⟨sites, all, granted⟩ := fulfils
  have whole := granted.trans grants
  rw [List.append_nil, List.append_nil] at whole
  exact ⟨sites, all, whole⟩

theorem advances (fulfils : Fulfils host among base members world later) :
    world.Advances later := by
  obtain ⟨sites, _, grants⟩ := fulfils
  exact grants.advances

theorem booked (fulfils : Fulfils host among base members world later) :
    later.Booked := by
  obtain ⟨sites, _, grants⟩ := fulfils
  exact grants.booked

theorem release {frames : List Frame} (booked : world.Booked)
    (fulfils : Fulfils host among base members (world.holding frames) later)
    (restored : List Frame) :
    Fulfils host among base members world (later.holding restored) := by
  obtain ⟨sites, all, grants⟩ := fulfils
  exact ⟨sites, all, grants.release booked restored⟩

end Fulfils

theorem Fulfils.keeping {α : Type} {refs : List Ref} {pass : Pass σ α}
    {members : List Member} (booked : world.Booked)
    (inner : ∀ held : World σ, world.Advances held → held.Booked →
      pass.Ensures record held fun _ later =>
        Fulfils host among base members held later) :
    (Pass.keeping refs pass).Ensures record world fun _ later =>
      Fulfils host among base members world later := by
  exact .keeping_released booked
    (fun _ _ restored fulfils => fulfils.release booked restored) inner

/-- A member with pure callbacks whose own definition keeps style maps where
they belong. -/
structure Member.IsNeat (host : Host σ) (among : ViewId → Prop)
    (world : World σ) (member : Member) : Prop where
  eligible : member.IsEligible host among world
  styles : ∀ t place inner, member = .template t →
    Template.Occurs world t place inner →
      (world.template inner).blueprint.KeepsStyles

theorem Member.IsNeat.child {t : TemplateId} {member : Member}
    (neat : Member.IsNeat host among base (.template t))
    (element : (base.template t).blueprint.text = none)
    (inside : member ∈ (base.template t).blueprint.children) :
    member.IsNeat host among base where
  eligible := neat.eligible.child element inside
  styles inner place other same occurs := by
    obtain ⟨index, found⟩ := List.mem_iff_getElem?.mp inside
    rw [same] at found
    exact neat.styles t (index :: place) other rfl (.nested found occurs)

/-- Mounting a view subscribes to nothing but what the view does. -/
def Mounter.Grants (host : Host σ) (among : ViewId → Prop) (base : World σ)
    (mounter : Mounter σ) : Prop :=
  ∀ v (world : World σ) n, base.Advances world → world.Booked →
    Member.IsEligible host among base (.view v) →
    (mounter v).result world = .ok n →
      LiveTemplate.Grants host among [] [] world ((mounter v).after world)

/-- A nested template gets a node, in which its definition is fulfilled. -/
def Nested.Fulfils (host : Host σ) (among : ViewId → Prop) (base : World σ)
    (nested : Nested σ) : Prop :=
  ∀ t target path (world : World σ) n record, base.Advances world →
    world.Booked → Member.IsNeat host among base (.template t) →
    (nested t target path).result world = (.ok n, record) →
      ∃ sites, Sites base [.template t] (sites ++ [(t, n)]) ∧
        Grants host among ((sites ++ [(t, n)]).flatMap base.wishesAt)
          (sites ++ [(t, n)]) world ((nested t target path).after world)

namespace Mount

theorem grants_push (mount : Mount) (child : NodeId) (booked : world.Booked) :
    Grants host among [] [] world ((mount.push child).after world) := by
  exact .of_dom booked _

theorem grants_finish (mount : Mount) (parent : NodeId)
    (booked : world.Booked) :
    Grants host among [] [] world ((mount.finish parent).after world) := by
  have settled (entries : List (CollectionId × Option NodeId))
      {world : World σ} (booked : world.Booked) :
      Grants host among [] [] world ((entries.forM fun entry =>
        Collection.setParent entry.1 parent entry.2).after world) := by
    induction entries generalizing world with
    | nil => exact .refl booked
    | cons entry rest ih =>
        have first : Grants host among [] [] world
            ((Collection.setParent entry.1 parent entry.2).after world) :=
          .quiet booked (.aside rfl rfl rfl (.of_templates rfl))
            (Collection.sameSetup_setParent _ _ _ _).advances rfl rfl rfl rfl
        exact first.trans (ih first.booked)
  have appended : Grants host among [] [] world
      { world with dom := world.dom.appendChild parent mount.fragment } :=
    .of_dom booked _
  exact appended.trans (settled mount.collections appended.booked)

end Mount

namespace Blueprint

variable {blueprint : Blueprint} {mounter : Mounter σ} {nested : Nested σ}

theorem grants_mountViews (mounts : mounter.Grants host among base)
    (mount : Mount) {views : List ViewId}
    (eligible : ∀ v ∈ views, Member.IsEligible host among base (.view v))
    (advances : base.Advances world) (booked : world.Booked) :
    (mountViews mounter mount views).Ensures record world fun _ later =>
      Grants host among [] [] world later := by
  induction views generalizing mount record world with
  | nil => exact .pure (.refl booked)
  | cons v rest ih =>
      rw [mountViews]
      refine .act_bind (.ofExcept_bind fun n mounted => .act_bind ?_)
      have first := mounts v world n advances booked (eligible v (.head _))
        mounted
      have pushed := first.trans (mount.grants_push n first.booked)
      refine (Grants.keeping pushed.booked fun held onward entered =>
        ih _ (fun other member => eligible other (.tail _ member))
          ((advances.trans pushed.advances).trans onward) entered).weaken
            fun _ _ later => ?_
      exact pushed.trans later

private theorem fulfils_mountMember (mounts : mounter.Grants host among base)
    (nests : nested.Fulfils host among base) (path : DefinitionPath)
    (mount : Mount) {member : Member} (neat : member.IsNeat host among base)
    (advances : base.Advances world) (booked : world.Booked) :
    (mountMember mounter nested path mount member).Ensures record world
      fun _ later => Fulfils host among base [member] world later := by
  cases member with
  | node n => exact .act (.other (mount.grants_push n booked) rfl)
  | view v =>
      refine (grants_mountViews mounts mount (fun other inside => ?_) advances
        booked).weaken fun _ _ grants => .other grants rfl
      rw [List.mem_singleton.mp inside]
      exact neat.eligible
  | collection c =>
      refine .act_bind ?_
      rw [Act.result_get, Act.after_get]
      refine (Grants.keeping booked fun held onward entered =>
        grants_mountViews mounts mount (fun v inside => ?_)
          (advances.trans onward) entered).bind
            fun _ _ _ grants => .pure (.other grants rfl)
      rw [advances.members] at inside
      obtain ⟨index, found⟩ := List.mem_iff_getElem?.mp inside
      exact fun place inner stands =>
        neat.eligible _ inner (.collection found stands)
  | template t =>
      refine .nest_bind fun n child recorded found => .act ?_
      obtain ⟨sites, all, grants⟩ :=
        nests t none path world n child advances booked neat found
      have fulfils : Fulfils host among base [.template t] world
          ((nested t none path).after world) := ⟨_, all, grants⟩
      exact fulfils.settle (mount.grants_push n grants.booked)

private theorem fulfils_mountMembers (mounts : mounter.Grants host among base)
    (nests : nested.Fulfils host among base) (path : DefinitionPath)
    (index : Nat) (mount : Mount) {members : List Member}
    (neat : ∀ member ∈ members, member.IsNeat host among base)
    (advances : base.Advances world) (booked : world.Booked) :
    (mountMembers mounter nested path index mount members).Ensures record world
      fun _ later => Fulfils host among base members world later := by
  induction members generalizing index mount record world with
  | nil => exact .pure (.nil booked)
  | cons member rest ih =>
      rw [mountMembers]
      refine (fulfils_mountMember mounts nests _ mount (neat member (.head _))
        advances booked).bind fun mounted recorded between head => ?_
      refine (Fulfils.keeping head.booked fun held onward entered =>
        ih _ mounted (fun other inside => neat other (.tail _ inside))
          ((advances.trans head.advances).trans onward) entered).weaken
            fun _ _ tail => ?_
      exact head.cons tail

private theorem fulfils_renderMembers (mounts : mounter.Grants host among base)
    (nests : nested.Fulfils host among base) (parent : NodeId)
    (path : DefinitionPath) {members : List Member}
    (neat : ∀ member ∈ members, member.IsNeat host among base)
    (advances : base.Advances world) (booked : world.Booked) :
    (renderMembers mounter nested members parent path).Ensures record world
      fun _ later => Fulfils host among base members world later := by
  unfold renderMembers
  split
  · have made : Grants host among [] [] world
        ((createNode .fragment).after world) := .of_dom booked _
    refine .act_bind ((Fulfils.keeping made.booked
      fun held onward entered => ?_).weaken
        fun _ later (fulfils : Fulfils host among base members _ later) => ?_)
    · refine (fulfils_mountMembers mounts nests path 0 _ neat
        ((advances.trans made.advances).trans onward) entered).bind
          fun mount _ between fulfils => .act ?_
      exact fulfils.settle (mount.grants_finish parent fulfils.booked)
    · obtain ⟨sites, all, grants⟩ := fulfils
      exact ⟨sites, all, made.trans grants⟩
  · rename_i empty
    have none : members = [] := by simpa using empty
    rw [none]
    exact .pure (.nil booked)

/-- Working nested templates into the children of a node. -/
theorem fulfils_applyMembers (nests : nested.Fulfils host among base)
    (node : NodeId) (path : DefinitionPath) (index place : Nat)
    {members : List Member}
    (neat : ∀ member ∈ members, member.IsNeat host among base)
    (advances : base.Advances world) (booked : world.Booked) :
    (blueprint.applyMembers nested node path index place members).Ensures record
      world fun _ later => Fulfils host among base members world later := by
  induction members generalizing index place record world with
  | nil => exact .pure (.nil booked)
  | cons member rest ih =>
      have others := fun other inside => neat other (.tail member inside)
      cases member with
      | view v => exact .throw
      | node n => exact .throw
      | collection c =>
          refine (ih _ _ others advances booked).weaken fun _ _ tail => ?_
          exact Fulfils.cons (.other (.refl booked) rfl) tail
      | template t =>
          rw [applyMembers]
          refine .act_bind ?_
          rw [Act.result_get, Act.after_get]
          dsimp only
          split
          · rename_i child _
            refine .nest_bind fun n recorded _ found => ?_
            obtain ⟨sites, all, grants⟩ := nests t (some child) _ world n
              recorded advances booked (neat _ (.head _)) found
            refine (ih _ _ others (advances.trans grants.advances)
              grants.booked).weaken fun _ _ tail => ?_
            exact Fulfils.cons ⟨_, all, grants⟩ tail
          · exact .throw

/-- An element has got what its definition wishes for, and so have the
definitions nested in it. -/
def FulfilledAt (host : Host σ) (among : ViewId → Prop) (base : World σ)
    (blueprint : Blueprint) (n : NodeId) (world later : World σ) : Prop :=
  ∃ sites, Sites base blueprint.children sites ∧
    Grants host among (sites.flatMap base.wishesAt ++ blueprint.wishes n) sites
      world later

private theorem fulfilled_renderElement
    (mounts : mounter.Grants host among base)
    (nests : nested.Fulfils host among base) (target : Option NodeId)
    (path : DefinitionPath) (isElement : blueprint.text = none)
    (isPure : blueprint.IsPure host) (styles : blueprint.KeepsStyles)
    (neat : ∀ member ∈ blueprint.children, member.IsNeat host among base)
    (advances : base.Advances world) (booked : world.Booked) :
    (blueprint.renderElement host mounter nested target path).Ensures record
      world fun n later =>
        blueprint.FulfilledAt host among base n world later := by
  have filled (node : NodeId) (applying : Bool) (record : Record)
      {world : World σ} (advances : base.Advances world)
      (booked : world.Booked) : Pass.Ensures (do
        Pass.keeping [.node node] do
          blueprint.renderAttributes host node applying
          if applying then
            blueprint.applyMembers nested node path 0 0 blueprint.children
          else
            renderMembers mounter nested blueprint.children node path
          blueprint.renderListeners node
        return node) record world fun n later =>
          blueprint.FulfilledAt host among base n world later := by
    have release (frames : List Frame) (later : World σ)
        (restored : List Frame) (done : blueprint.FulfilledAt host among base
          node (world.holding frames) later) :
        blueprint.FulfilledAt host among base node world
          (later.holding restored) := by
      obtain ⟨sites, all, grants⟩ := done
      exact ⟨sites, all, grants.release booked restored⟩
    refine (Pass.Ensures.keeping_released booked release
      fun held opens entered => ?_).bind fun _ _ _ done => .pure done
    refine (grants_renderAttributes isPure styles entered).bind
      fun _ recorded between (attributes : Grants host among _ [] _ between) =>
        ?_
    have onward := (advances.trans opens).trans attributes.advances
    -- Listeners come last, whichever way the children were worked in.
    have listens (record : Record) (inside : World σ)
        (fulfils : Fulfils host among base blueprint.children between inside) :
        (blueprint.renderListeners node).Ensures record inside fun _ later =>
          blueprint.FulfilledAt host among base node held later := by
      refine (grants_renderListeners fulfils.booked).weaken
        fun _ later (listeners : Grants host among _ [] _ later) => ?_
      obtain ⟨sites, all, grants⟩ := fulfils
      have whole := (attributes.trans grants).trans listeners
      rw [List.nil_append, List.append_nil] at whole
      refine ⟨sites, all, whole.perm ?_⟩
      rw [wishes, isElement]
      exact (List.perm_append_comm.append_right _).trans
        (.of_eq (List.append_assoc _ _ _))
    dsimp only
    split
    · exact (fulfils_applyMembers nests node path 0 0 neat onward
        attributes.booked).bind fun _ => listens
    · exact (fulfils_renderMembers mounts nests node path neat onward
        attributes.booked).bind fun _ => listens
  unfold renderElement
  cases target with
  | some node => exact filled node true record advances booked
  | none =>
      cases blueprint.tag with
      | some tag =>
          have made : Grants host among [] [] world ((createNode (.element
              (blueprint.namespaceName.getD Selector.htmlNamespace) tag
              [])).after world) := .of_dom booked _
          refine .act_bind ((filled _ false record
            (advances.trans made.advances) made.booked).weaken
              fun _ _ fulfils => ?_)
          obtain ⟨sites, all, grants⟩ := fulfils
          exact ⟨sites, all, made.trans grants⟩
      | none => exact .throw

/-- A text that is worked into an existing node stays there. -/
theorem ensures_renderText (host : Host σ) (blueprint : Blueprint) (m : NodeId)
    (record : Record) (world : World σ) :
    (blueprint.renderText host (some m)).Ensures record world
      fun n _ => n = m := by
  have shown (record : Record) : (showText host m
      (flattenChunks (blueprint.text.getD []))).Ensures record world
        fun n _ => n = m := by
    have anyhow {pass : Pass σ Unit} : pass.Ensures record world
        fun _ _ => True := fun _ _ _ => trivial
    exact anyhow.bind fun _ _ _ _ => .pure rfl
  exact .act_bind (.note_bind (shown _))

end Blueprint

/-! ## Templates -/

namespace Template

variable {mounter : Mounter σ} {nested : Nested σ}

private theorem grants_markRendered (t : TemplateId) (booked : world.Booked) :
    Grants host among [] [] world
      ((update t fun template =>
        { template with rendered := true }).after world) := by
  have runs : (update t fun template =>
      { template with rendered := true } : Act σ Unit).Runs :=
    runs_markRendered t
  exact .quiet booked (runs world booked.ordered).run
    (sameSetup_markRendered t world).advances rfl rfl rfl rfl

/-- A template has got what its definition wishes for, after all that is nested
in it. -/
def FulfilledAt (host : Host σ) (among : ViewId → Prop) (base : World σ)
    (t : TemplateId) (n : NodeId) (world later : World σ) : Prop :=
  ∃ sites, Sites base [.template t] (sites ++ [(t, n)]) ∧
    Grants host among ((sites ++ [(t, n)]).flatMap base.wishesAt) sites world
      later

private theorem fulfilled_passWith (mounts : mounter.Grants host among base)
    (nests : nested.Fulfils host among base) {t : TemplateId}
    (neat : Member.IsNeat host among base (.template t))
    (target : Option NodeId) (path : DefinitionPath)
    (advances : base.Advances world) (booked : world.Booked) :
    (passWith host mounter nested t (base.template t).blueprint target
      path).Ensures record world fun n later =>
        FulfilledAt host among base t n world later := by
  have isPure := (neat.eligible [] _ (.here _)).isPure t rfl
  have marks (n : NodeId) (record : Record) (between : World σ)
      (done : FulfilledAt host among base t n world between) :
      Pass.Ensures (do
        if target.isNone then
          Pass.act (update t fun template => { template with rendered := true })
        return n) record between fun n later =>
          FulfilledAt host among base t n world later := by
    cases target with
    | some node => exact .pure done
    | none =>
        obtain ⟨sites, all, grants⟩ := done
        have whole := grants.trans (grants_markRendered t grants.booked)
        rw [List.append_nil, List.append_nil] at whole
        exact .act_bind (.pure ⟨sites, all, whole⟩)
  unfold passWith
  cases text : (base.template t).blueprint.text with
  | some schema =>
      rw [Option.isSome_some, if_pos rfl]
      refine (Blueprint.grants_renderText target text isPure booked).bind
        fun n recorded between (grants : Grants host among _ [] _ between) =>
          marks n recorded between ⟨[], .text text .nil, ?_⟩
      have wishes : [(t, n)].flatMap base.wishesAt =
          slotWishes (.text n) schema := by
        rw [List.flatMap_singleton, World.wishesAt, Blueprint.wishes, text]
      rw [List.nil_append, wishes]
      exact grants
  | none =>
      rw [Option.isSome_none, if_neg Bool.false_ne_true]
      refine (Blueprint.fulfilled_renderElement mounts nests target path text
        isPure (neat.styles t [] t rfl (.here t))
        (fun member inside => neat.child text inside) advances booked).bind
          fun n recorded between fulfils => marks n recorded between ?_
      obtain ⟨sites, all, grants⟩ := fulfils
      refine ⟨sites, .element text all .nil, ?_⟩
      rw [List.flatMap_append, List.flatMap_singleton]
      exact grants

/-- A nested pass that succeeds works in its template. -/
theorem fulfils_passWithin (mounts : mounter.Grants host among base)
    (fuel : Nat) :
    Nested.Fulfils host among base (passWithin host mounter fuel) := by
  induction fuel with
  | zero =>
      intro _ _ _ _ _ _ _ _ _ failed
      cases failed
  | succ fuel ih =>
      intro t target path world n record advances booked neat passed
      change ((pass host mounter (passWithin host mounter fuel) t target
        path).start .empty).result world = (.ok n, record) at passed
      have instates : Instates host t n world _ := .nested passed
      rw [Act.result, start_pass] at passed
      split at passed
      · cases passed
      rename_i free
      rw [advances.blueprints] at passed
      obtain ⟨sites, all, grants⟩ := fulfilled_passWith mounts ih neat target
        path advances booked n record passed
      refine ⟨sites, all, ?_⟩
      change Grants host among _ _ world ((pass host mounter
        (passWithin host mounter fuel) t target path).start .empty world).2
      have after := start_pass host mounter (passWithin host mounter fuel) t
        target path .empty world
      rw [if_neg free, advances.blueprints] at after
      unfold Act.after at instates grants
      rw [after] at instates ⊢
      exact grants.site instates

/-- A pass that works in an existing node returns it. -/
theorem eq_of_passWithin {fuel : Nat} {t : TemplateId} {m n : NodeId}
    {path : DefinitionPath}
    (passed : (passWithin host mounter fuel t (some m) path).result world =
      (.ok n, record)) : n = m := by
  cases fuel with
  | zero => cases passed
  | succ fuel =>
      change ((pass host mounter (passWithin host mounter fuel) t (some m)
        path).start .empty).result world = (.ok n, record) at passed
      rw [Act.result, start_pass] at passed
      split at passed
      · cases passed
      generalize (world.template t).blueprint = blueprint at passed
      have text := blueprint.ensures_renderText host m .empty world
      have element := (Blueprint.ensures_renderElement host mounter
        (passWithin host mounter fuel) blueprint (some m) path .empty
          world).weaken fun _ _ done => done.1 m rfl
      have ends (n : NodeId) (record : Record) (later : World σ)
          (same : n = m) : Pass.Ensures (do
            if (some m).isNone then
              Pass.act (update t fun template =>
                { template with rendered := true })
            return n) record later fun n _ => n = m :=
        .pure same
      have ensured : (passWith host mounter (passWithin host mounter fuel) t
          blueprint (some m) path).Ensures .empty world fun n _ => n = m := by
        unfold passWith
        cases blueprint.text.isSome with
        | true =>
            rw [if_pos rfl]
            exact text.bind ends
        | false =>
            rw [if_neg Bool.false_ne_true]
            exact element.bind ends
      exact ensured n record passed

end Template

theorem View.grants_mount : Mounter.Grants host among base (mount host) := by
  intro v world n advances booked eligible mounted
  have here := eligible.advance advances
  have runs := run_mountWith (render host) v world
  change mount host v world = _ at runs
  unfold Act.result at mounted
  unfold Act.after
  rw [runs] at mounted ⊢
  split
  · have unchanged := after_settleMount v (.ok ()) world
    unfold Act.after at unchanged
    rw [unchanged]
    exact .refl booked
  · rename_i fresh
    rw [if_neg fresh] at mounted
    change ((settleMount v ((render host v).result world)).result
      ((render host v).after world)) = .ok n at mounted
    obtain ⟨interludes, tally⟩ := tallies_render host among v world here booked
    have unchanged := after_settleMount v ((render host v).result world)
      ((render host v).after world)
    change Grants host among [] [] world ((settleMount v
      ((render host v).result world)).after ((render host v).after world))
    rw [unchanged]
    cases outcome : (render host v).result world with
    | error error =>
        rw [outcome] at mounted
        cases mounted
    | ok =>
        have named := (here [] _ (.here _)).among v rfl
        exact Grants.of_tally (.view named outcome) rfl tally booked

namespace Template

/-- A template has been rendered into a node or applied to one, by itself. -/
inductive WorksIn (host : Host σ) (t : TemplateId) (n : NodeId)
    (world : World σ) : World σ → Prop where
  | render (rendered : (render host t).result world = .ok n) :
      WorksIn host t n world ((render host t).after world)
  | apply (applied : (apply host t n).result world = .ok n) :
      WorksIn host t n world ((apply host t n).after world)

theorem grants_pass (mounts : mounter.Grants host among world) {t : TemplateId}
    {target : Option NodeId} {n : NodeId}
    (neat : Member.IsNeat host among world (.template t))
    (booked : world.Booked)
    (passed : (keeping (.refs [.template t]) (passWithin host mounter
      (t.index + 1) t target [])).result world = (.ok n, record)) :
    ∃ sites, Sites world [.template t] (sites ++ [(t, n)]) ∧
      Grants host among ((sites ++ [(t, n)]).flatMap world.wishesAt)
        (sites ++ [(t, n)]) world
        ((keeping (.refs [.template t]) (passWithin host mounter (t.index + 1)
          t target [])).after world) := by
  have held := (World.SameSetup.refl world).held
    (.refs [.template t] :: world.frames)
  have entered := booked.of_same
    (.holding world (.refs [.template t] :: world.frames)) rfl rfl
  obtain ⟨sites, all, grants⟩ := fulfils_passWithin mounts (t.index + 1) t
    target [] _ n record held.advances entered neat passed
  exact ⟨sites, all, grants.release booked world.frames⟩

/-- When a template is worked in, each definition in it gets a node, and each
binding that it shows and each of its listeners gets one subscription.  Ledgers
grow by these and by what views add that are rendered meanwhile. -/
theorem bindings_installed_once {client : σ} {world later : World σ}
    (reached : Run (World.initial client) world)
    (owned : ∀ e, ∀ r ∈ (world.emitter e).subscriptions,
      r.index < world.revokers.size)
    {t : TemplateId} {n : NodeId} (works : WorksIn host t n world later)
    (isPure : ∀ place inner, Stands world (.template t) place
      (.template inner) → (world.template inner).blueprint.IsPure host)
    (styles : ∀ place inner, Occurs world t place inner →
      (world.template inner).blueprint.KeepsStyles) :
    ∃ parts sites,
      Course host
        (fun v => ∃ place, Stands world (.template t) place (.view v))
        world parts (sites ++ [(t, n)]) later ∧
      Sites world [.template t] (sites ++ [(t, n)]) ∧
      (parts.filterMap Part.wish).Perm
        ((sites ++ [(t, n)]).flatMap world.wishesAt) ∧
      ∀ ledger, later.ledger ledger = world.ledger ledger ++
        parts.flatMap fun part => part.interlude.added ledger := by
  have booked : world.Booked :=
    ⟨(reached.progress (World.ordered_initial client)).1, owned⟩
  have neat : Member.IsNeat host
      (fun v => ∃ place, Stands world (.template t) place (.view v)) world
      (.template t) := by
    refine ⟨fun place inner stands => ⟨fun other same => ?_, fun v same => ?_⟩,
      fun other place inner same occurs => ?_⟩
    · exact isPure place other (same ▸ stands)
    · exact ⟨place, same ▸ stands⟩
    · cases same
      exact styles place inner occurs
  cases works with
  | render rendered =>
      obtain ⟨-, -, ⟨record, passed⟩, after⟩ := renderWith_ok rendered
      obtain ⟨sites, all, grants⟩ :=
        grants_pass View.grants_mount neat booked passed
      obtain ⟨parts, course, granted, grown⟩ := grants.course
      change (render host t).after world = _ at after
      rw [after]
      exact ⟨parts, sites, course, all, granted, grown⟩
  | apply applied =>
      obtain ⟨record, m, passed, after⟩ := apply_ok applied
      have inner := passed
      rw [applyPass, result_keeping] at inner
      have same : m = n := eq_of_passWithin inner
      subst same
      obtain ⟨sites, all, grants⟩ := grants_pass
        (fun _ _ _ _ _ _ failed => by cases failed) neat booked passed
      obtain ⟨parts, course, granted, grown⟩ := grants.course
      rw [after]
      -- Keeping the record of the pass subscribes to nothing.
      have idle (between : World σ) : Course host
          (fun v => ∃ place, Stands world (.template t) place (.view v))
          between [] [] ((update t fun template =>
            { template with applied := some (m, record) }).after between) :=
        .quiet rfl rfl rfl rfl
      have kept := course.trans (idle _)
      rw [List.append_nil, List.append_nil] at kept
      exact ⟨parts, sites, kept, all, granted, grown⟩

namespace Label

/-- A client whose code changes nothing. -/
def client : Host Unit where
  keeps _ := []
  notice _ _ := pure ()
  event _ _ := pure ()
  transform _ value _ := pure value
  destroy _ := pure ()

/-- A schema for a property, the subscriptions of which go to an emitter. -/
def shows (e : EmitterId) : Schema :=
  [.bound ⟨⟨0⟩, e, "x", .value, none⟩]

def call (e : EmitterId) : ListenerBinding :=
  ⟨⟨0⟩, e, .call ⟨0⟩⟩

/-- A link that shows a property twice, has a style and listens to clicks on
itself and on what is in it. -/
def link : Blueprint :=
  ⟨some "a", none, none,
    [("href", [.namespaced "http://www.w3.org/1999/xlink"
        (.fixed (.text "#") :: shows ⟨0⟩ ++ shows ⟨0⟩)]),
      ("style", [.styles [("color", shows ⟨1⟩)],
        .fixed (.text "margin: 0")])],
    [("click", [call ⟨2⟩, call ⟨2⟩]), ("click@b", [call ⟨2⟩])],
    [.template ⟨0⟩]⟩

/-- The text in the link has got a title, which plays no part. -/
def start : World Unit :=
  { World.initial () with
    properties := ⟨#[[("x", .text "a")]]⟩
    emitters := ⟨#[⟨[], []⟩, ⟨[], []⟩, ⟨[], []⟩, ⟨[], []⟩, ⟨[], []⟩]⟩
    templates := ⟨#[⟨⟨none, none, some (shows ⟨3⟩), [("title", shows ⟨4⟩)], [],
      []⟩, false, none⟩, ⟨link, false, none⟩]⟩ }

def labelled : World Unit :=
  (render client ⟨1⟩).after start

theorem reached : Run (World.initial ()) start := by
  refine .aside rfl rfl rfl ⟨?_, ?_⟩
  · rintro ⟨index⟩ entry kept
    rcases index with _ | _ | index <;> cases kept
  · rintro _ ⟨index⟩
    rcases index with _ | _ | index
    · exact ⟨by decide, fun _ member => absurd member List.not_mem_nil⟩
    · refine ⟨by decide, fun t member => ?_⟩
      cases List.mem_singleton.mp member
      decide
    · exact .none _

theorem owned (e : EmitterId) :
    ∀ r ∈ (start.emitter e).subscriptions, r.index < start.revokers.size := by
  obtain ⟨index⟩ := e
  rcases index with _ | _ | _ | _ | _ | index <;>
    exact fun _ member => absurd member List.not_mem_nil

theorem isPure (t : TemplateId) :
    (start.template t).blueprint.IsPure client := by
  exact .of_bindings fun _ _ _ _ _ _ => rfl

theorem keepsStyles (t : TemplateId) :
    (start.template t).blueprint.KeepsStyles := by
  have all : ∀ blueprint ∈ [(start.template ⟨0⟩).blueprint, link],
      ∀ entry ∈ blueprint.attributes, entry.1 ≠ "style" →
        entry.2.any Chunk.isStyles = false := by
    decide
  obtain ⟨index⟩ := t
  rcases index with _ | _ | index
  · exact all _ (.head _)
  · exact all _ (.tail _ (.head _))
  · exact fun _ member => absurd member List.not_mem_nil

theorem works : WorksIn client ⟨1⟩ ⟨0⟩ start labelled := by
  exact .render (by decide +kernel)

/-- The emitters own two subscriptions for the property, one for the color,
three for clicks, one for the text and none for the title. -/
theorem bindings_of_label_installed :
    (∃ parts sites,
      Course client
        (fun v => ∃ place, Stands start (.template ⟨1⟩) place (.view v))
        start parts (sites ++ [(⟨1⟩, ⟨0⟩)]) labelled ∧
      Sites start [.template ⟨1⟩] (sites ++ [(⟨1⟩, ⟨0⟩)]) ∧
      (parts.filterMap Part.wish).Perm
        ((sites ++ [(⟨1⟩, ⟨0⟩)]).flatMap start.wishesAt) ∧
      ∀ ledger, labelled.ledger ledger = start.ledger ledger ++
        parts.flatMap fun part => part.interlude.added ledger) ∧
    [0, 1, 2, 3, 4].map (fun index => Emitter.liveCount labelled ⟨index⟩) =
      [2, 1, 3, 1, 0] := by
  exact ⟨bindings_installed_once reached owned works (fun _ _ _ => isPure _)
    (fun _ _ _ => keepsStyles _), by decide +kernel⟩

end Label

end Template

end LiveTemplate
