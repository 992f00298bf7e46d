import LiveTemplate.Proofs.Building
import LiveTemplate.Proofs.Displays
import LiveTemplate.Proofs.Facets
import LiveTemplate.Proofs.Laying

/-!
# Slots and the groups that come with them

Working a template into nodes fills one slot after the other and binds groups to
some of them.  `World.Equips` says of a part of this which slots it owns: the
others hold what they held before, and a group that is new was bound to an owned
slot and has been left to itself since then.  Parts that own different slots can
be put together, as the later one leaves the groups of the earlier one alone.
The slots of one element have different names.
-/

namespace LiveTemplate

variable {σ : Type}

namespace Slot

/-- A whole attribute or a text. -/
def IsWhole : Slot → Prop
  | style _ _ => False
  | _ => True

/-- The node of a slot is of the kind that the slot is for. -/
def IsThere (dom : Dom) : Slot → Prop
  | text node => dom.isText node = true
  | attr node _ _ => dom.isElement node = true
  | style node _ => dom.isElement node = true

/-- Showing a value in a slot may change what the other one holds. -/
def Meets (slot : Slot) : Slot → Prop
  | text node => slot = text node
  | attr node namespaceName name =>
      slot.node = node ∧ slot.Covers (namespaceName, name)
  | style node _ => slot.node = node ∧ slot.Covers (none, "style")

theorem meets_self (slot : Slot) : slot.Meets slot := by
  cases slot <;> simp [Meets, Covers, node]

theorem Meets.node_eq {slot other : Slot} (meets : slot.Meets other) :
    other.node = slot.node := by
  cases other with
  | text node => rw [meets]
  | attr node namespaceName name => exact meets.1.symm
  | style node property => exact meets.1.symm

namespace IsThere

variable {dom : Dom} {slot : Slot}

theorem isProper (there : slot.IsThere dom) : slot.IsProper dom := by
  cases slot with
  | text node => exact there
  | attr => trivial
  | style => trivial

private theorem isSome_content? (there : slot.IsThere dom)
    (whole : slot.IsWhole) :
    (slot.content? dom).isSome = true := by
  cases slot with
  | text node =>
      obtain ⟨data, kind⟩ := Dom.isText_iff.mp there
      simp [content?, kind]
  | attr node namespaceName name =>
      have element : dom.isElement node = true := there
      simp [content?, element]
  | style node property => exact whole.elim

theorem lt_size (there : slot.IsThere dom) :
    slot.node.index < dom.nodes.size := by
  by_contra beyond
  have missing : dom.kind slot.node = .fragment := by
    have none : dom.nodes.rows[slot.node.index]? = none :=
      Array.getElem?_eq_none (Nat.not_lt.mp beyond)
    rw [Dom.kind, Dom.node, Store.get, none]
    rfl
  cases slot <;>
    simp [IsThere, Dom.isText, Dom.isElement, node] at there missing <;>
    simp [missing] at there

end IsThere

theorem content?_modifyAttributes (dom : Dom) (n m : NodeId)
    (change : List Attribute → List Attribute) :
    (text n).content? (dom.modifyAttributes m change) =
      (text n).content? dom := by
  by_cases same : n = m
  · subst same
    cases kind : dom.kind n with
    | element =>
        rw [Dom.modifyAttributes_element kind]
        simp [content?, kind]
    | text => simp [Dom.modifyAttributes, kind]
    | fragment => simp [Dom.modifyAttributes, kind]
  · simp only [content?, Dom.kind, Dom.node_modifyAttributes_of_ne dom change
      same]

private theorem display_style_cases (dom : Dom) (node : NodeId)
    (property : String)
    (value : Value) :
    (style node property).display dom value = dom ∨
      ∃ change, (style node property).display dom value =
        dom.modifyAttributes node change := by
  rw [display_style]
  split
  · unfold Dom.removeStyleProperty
    split
    · exact .inl rfl
    · dsimp only
      split
      · split
        · exact .inr ⟨_, rfl⟩
        · exact .inr ⟨_, rfl⟩
      · exact .inl rfl
  · exact .inr ⟨_, rfl⟩

/-- A slot holds what it held when a value is shown in one that has nothing to
do with it. -/
theorem content?_display_of_not_meets {dom : Dom} {slot other : Slot}
    (proper : slot.IsProper dom) (apart : ¬slot.Meets other) (value : Value) :
    other.content? (slot.display dom value) = other.content? dom := by
  cases other with
  | text n =>
      cases slot with
      | text m =>
          have differs : n ≠ m := fun same => apart (by rw [same]; rfl)
          have row := node_display_of_ne proper value (n := n) differs
          simp only [content?, Dom.kind, row]
      | attr m namespaceName name =>
          rw [display_attr, content?_modifyAttributes]
      | style m property =>
          rcases display_style_cases dom m property value with
            same | ⟨change, changed⟩
          · rw [same]
          · rw [changed, content?_modifyAttributes]
  | attr n namespaceName name =>
      have element := (sameShape_display proper value).isElement n
      have found : (slot.display dom value).attributeNs? n namespaceName name =
          dom.attributeNs? n namespaceName name := by
        by_cases same : slot.node = n
        · subst same
          exact (confined_display proper value).findNs?_eq
            fun covers => apart ⟨rfl, covers⟩
        · have row := node_display_of_ne proper value (Ne.symm same)
          simp only [Dom.attributeNs?, Dom.attributes, Dom.kind, row]
      simp only [content?, element, found]
  | style n property => rfl

end Slot

/-- Some slots were filled.  Slots that are not owned hold what they held
before, and each group that is new was bound to an owned slot and left to itself
since. -/
structure World.Equips (host : Host σ) (meaning : Meaning) (owned : Slot → Prop)
    (world later : World σ) : Prop where
  advances : world.Advances later
  property : later.property = world.property
  size : world.dom.nodes.size ≤ later.dom.nodes.size
  shape : ∀ n : NodeId, n.index < world.dom.nodes.size →
    (later.dom.kind n).shape = (world.dom.kind n).shape
  content : ∀ slot, slot.node.index < world.dom.nodes.size → ¬owned slot →
    slot.content? later.dom = slot.content? world.dom
  stays : ∀ o, ∀ listener ∈ (world.reactionsOf o).entries,
    listener ∈ (later.reactionsOf o).entries
  comes : ∀ o, ∀ listener ∈ (later.reactionsOf o).entries,
    ∀ group, listener.action = .sync group → group.slot.IsWhole →
      listener ∈ (world.reactionsOf o).entries ∨
        owned group.slot ∧ group.slot.node.index < later.dom.nodes.size
  begins : ∀ group : SyncGroup, group.slot.IsWhole → group.Listening later →
    ¬group.Listening world → group.IsRendered ∧ group.Follows host meaning ∧
      ∃ start, ¬group.Listening start ∧
        group.Undisturbed meaning start later

private theorem NodeKind.tag_eq_of_shape {dom later : Dom} {n : NodeId}
    (same : (later.kind n).shape = (dom.kind n).shape) :
    later.tag? n = dom.tag? n := by
  unfold Dom.tag?
  cases kind : dom.kind n <;> cases known : later.kind n <;>
    simp_all [NodeKind.shape]

namespace World.Equips

variable {host : Host σ} {meaning : Meaning} {owned wider more : Slot → Prop}
  {world between later : World σ} {group : SyncGroup}

theorem spared (equips : Equips host meaning owned world later)
    (whole : group.slot.IsWhole)
    (there : group.slot.node.index < world.dom.nodes.size)
    (foreign : ¬owned group.slot) : group.Spared world later where
  property binding _ := by rw [equips.property]
  target _ := ⟨equips.content _ there foreign,
    NodeKind.tag_eq_of_shape (equips.shape _ there)⟩
  listeners o listener action :=
    ⟨fun member => (equips.comes o listener member group action
      whole).resolve_right fun new => foreign new.1, equips.stays o listener⟩

theorem isElement (equips : Equips host meaning owned world later)
    {n : NodeId} (there : n.index < world.dom.nodes.size) :
    later.dom.isElement n = world.dom.isElement n := by
  have same := equips.shape n there
  unfold Dom.isElement
  cases kind : world.dom.kind n <;> cases known : later.dom.kind n <;>
    simp_all [NodeKind.shape]

theorem mono (equips : Equips host meaning owned world later)
    (implies : ∀ slot, owned slot → wider slot) :
    Equips host meaning wider world later where
  advances := equips.advances
  property := equips.property
  size := equips.size
  shape := equips.shape
  content slot there foreign :=
    equips.content slot there fun owns => foreign (implies slot owns)
  stays := equips.stays
  comes o listener member group action whole :=
    (equips.comes o listener member group action whole).imp_right fun new =>
      ⟨implies _ new.1, new.2⟩
  begins := equips.begins

theorem owns_new (equips : Equips host meaning owned world later)
    (whole : group.slot.IsWhole) (listening : group.Listening later)
    (new : ¬group.Listening world) :
    owned group.slot ∧ group.slot.node.index < later.dom.nodes.size := by
  obtain ⟨o, listener, member, action⟩ := listening
  exact (equips.comes o listener member group action whole).resolve_left
    fun old => new ⟨o, listener, old, action⟩

/-- A new group of the first part is left to itself by the second one if that
does not own its slot. -/
theorem trans_of_new (first : Equips host meaning owned world between)
    (second : Equips host meaning more between later)
    (apart : ∀ group : SyncGroup, group.slot.IsWhole →
      group.Listening between → ¬group.Listening world → ¬more group.slot) :
    Equips host meaning (fun slot => owned slot ∨ more slot) world later where
  advances := first.advances.trans second.advances
  property := second.property.trans first.property
  size := Nat.le_trans first.size second.size
  shape n there := (second.shape n (Nat.lt_of_lt_of_le there first.size)).trans
    (first.shape n there)
  content slot there foreign := by
    rw [not_or] at foreign
    exact (second.content slot (Nat.lt_of_lt_of_le there first.size)
      foreign.2).trans (first.content slot there foreign.1)
  stays o listener member := second.stays o listener
    (first.stays o listener member)
  comes o listener member group action whole := by
    rcases second.comes o listener member group action whole with
      old | ⟨owns, there⟩
    · refine (first.comes o listener old group action whole).imp_right
        fun new => ?_
      exact ⟨.inl new.1, Nat.lt_of_lt_of_le new.2 second.size⟩
    · exact .inr ⟨.inr owns, there⟩
  begins group whole listening new := by
    by_cases early : group.Listening between
    · obtain ⟨rendered, follows, start, fresh, run⟩ :=
        first.begins group whole early new
      have there := (first.owns_new whole early new).2
      exact ⟨rendered, follows, start, fresh, run.trans
        (.step (second.spared whole there (apart group whole early new)))⟩
    · exact second.begins group whole listening early

theorem trans (first : Equips host meaning owned world between)
    (second : Equips host meaning more between later)
    (apart : ∀ slot, slot.node.index < between.dom.nodes.size → owned slot →
      ¬more slot) :
    Equips host meaning (fun slot => owned slot ∨ more slot) world later := by
  exact first.trans_of_new second fun _ whole listening new =>
    have ⟨owns, there⟩ := first.owns_new whole listening new
    apart _ there owns

/-- Nothing happens to the slots that were there, and no observable gets a
listener. -/
theorem quiet (advances : world.Advances later)
    (property : later.property = world.property)
    (size : world.dom.nodes.size ≤ later.dom.nodes.size)
    (kind : ∀ n : NodeId, n.index < world.dom.nodes.size →
      later.dom.kind n = world.dom.kind n)
    (reactions : later.reactions = world.reactions) :
    Equips host meaning owned world later where
  advances := advances
  property := property
  size := size
  shape n there := congrArg NodeKind.shape (kind n there)
  content slot there _ := by
    cases slot with
    | text n => simp only [Slot.content?, kind n there]
    | attr n namespaceName name =>
        have same := kind n there
        have element : later.dom.isElement n = world.dom.isElement n := by
          simp only [Dom.isElement, same]
        simp only [Slot.content?, element, Dom.attributeNs?, Dom.attributes,
          same]
    | style n property => rfl
  stays o listener member := by
    rw [reactionsOf, reactions]
    exact member
  comes o listener member _ _ _ := by
    rw [reactionsOf, reactions] at member
    exact .inl member
  begins group _ listening new := by
    obtain ⟨o, listener, member, action⟩ := listening
    rw [reactionsOf, reactions] at member
    exact absurd ⟨o, listener, member, action⟩ new

theorem of_setup (same : world.SameSetup later)
    (properties : later.properties = world.properties)
    (dom : later.dom = world.dom)
    (reactions : later.reactions = world.reactions) :
    Equips host meaning owned world later := by
  refine quiet same.advances ?_ (Nat.le_of_eq (by rw [dom]))
    (fun _ _ => by rw [dom]) reactions
  funext o name
  simp only [World.property, propertiesOf, properties]

theorem refl (world : World σ) : Equips host meaning owned world world := by
  exact .of_setup (.refl world) rfl rfl rfl

theorem settle (first : Equips host meaning owned world between)
    (second : Equips host meaning (fun _ => False) between later) :
    Equips host meaning owned world later := by
  refine (first.trans second fun _ _ _ => not_false).mono fun _ owns => ?_
  exact owns.resolve_right not_false

/-- What comes before owns nothing. -/
theorem after (first : Equips host meaning (fun _ => False) world between)
    (second : Equips host meaning owned between later) :
    Equips host meaning owned world later := by
  refine (first.trans second fun _ _ => False.elim).mono fun _ owns => ?_
  exact owns.resolve_left not_false

/-- What is held meanwhile makes no difference. -/
theorem release {frames : List Frame}
    (equips : Equips host meaning owned (world.holding frames) later)
    (restored : List Frame) :
    Equips host meaning owned world (later.holding restored) := by
  have held (frames : List Frame) (world : World σ) :
      Equips host meaning (fun _ => False) world (world.holding frames) :=
    .of_setup ((SameSetup.refl world).held frames) rfl rfl rfl
  exact ((held frames world).after equips).settle (held restored later)

theorem keeping {α : Type} {refs : List Ref} {pass : Pass σ α}
    {record : Record}
    (inner : pass.Ensures record
      (world.holding (.refs refs :: world.frames)) fun _ later =>
        Equips host meaning owned
          (world.holding (.refs refs :: world.frames)) later) :
    (Pass.keeping refs pass).Ensures record world fun _ later =>
      Equips host meaning owned world later := by
  exact .keeping (inner.weaken fun _ _ equips => equips.release world.frames)

theorem createNode (kind : NodeKind) (world : World σ) :
    Equips host meaning owned world
      ((LiveTemplate.createNode kind).after world) := by
  refine quiet (World.SameSetup.advances ⟨fun _ => rfl, fun _ => rfl,
    fun _ => rfl⟩) rfl (Dom.size_le_create world.dom kind) (fun n there => ?_)
      rfl
  refine congrArg Node.kind (Store.get_alloc_of_ne _ _ ?_)
  exact Nat.ne_of_lt there

theorem appendChild (parent child : NodeId) (world : World σ) :
    Equips host meaning owned world
      ((modifyDom fun dom => dom.appendChild parent child).after world) := by
  exact quiet
    (World.SameSetup.advances ⟨fun _ => rfl, fun _ => rfl, fun _ => rfl⟩) rfl
    (Dom.size_le_insertBefore _ _ _ _)
    (fun n _ => Dom.kind_insertBefore _ _ _ _ n) rfl

end World.Equips

section Slots

variable {host : Host σ} {meaning : Meaning} {owned : Slot → Prop}
  {world : World σ} {record : Record}

theorem World.Equips.display {slot : Slot} (there : slot.IsThere world.dom)
    (owns : ∀ other, slot.Meets other → owned other) (value : Value) :
    world.Equips host meaning owned
      { world with dom := slot.display world.dom value } where
  advances := World.SameSetup.advances ⟨fun _ => rfl, fun _ => rfl,
    fun _ => rfl⟩
  property := rfl
  size := slot.size_le_display there.isProper value
  shape n _ := (Slot.sameShape_display there.isProper value).shape n
  content other _ foreign := Slot.content?_display_of_not_meets there.isProper
    (fun meets => foreign (owns other meets)) value
  stays _ _ member := member
  comes _ _ member _ _ _ := .inl member
  begins _ _ listening new := absurd listening new

theorem SyncGroup.mem_bind {group : SyncGroup} (rendered : group.IsRendered)
    (follows : group.Follows host meaning) {o : ObservableId}
    {listener : Listener Reaction}
    (member : listener ∈
      (((group.bind host).after world).reactionsOf o).entries) :
    listener ∈ (world.reactionsOf o).entries ∨
      listener.action = .sync group := by
  obtain ⟨added, grown, -, contents⟩ := group.added_listenAll group.bindings
    ((group.sync host).after world) o
  rw [after_bind, grown, List.mem_append] at member
  refine member.imp (fun old => ?_) fun new => ?_
  · rw [after_sync follows rendered] at old
    exact old
  · have content := List.mem_map_of_mem
      (f := fun listener => (listener.event, listener.action)) new
    rw [contents] at content
    obtain ⟨_, _, same⟩ := List.mem_map.mp content
    exact (congrArg Prod.snd same).symm

theorem SyncGroup.equips_bind {group : SyncGroup}
    (rendered : group.IsRendered) (follows : group.Follows host meaning)
    (there : group.slot.IsThere world.dom)
    (owns : ∀ other, group.slot.Meets other → owned other) :
    world.Equips host meaning owned ((group.bind host).after world) := by
  let shown := (group.sync host).after world
  have synced : world.Equips host meaning owned shown := by
    have after := after_sync follows rendered world
    change world.Equips host meaning owned ((group.sync host).after world)
    rw [after]
    exact .display there owns _
  obtain ⟨dom, property, stays, -⟩ :=
    after_listenAll group group.bindings shown
  have setup : shown.SameSetup ((group.bind host).after world) := by
    rw [after_bind]
    exact Act.after_mapM .refl .trans
      (fun _ _ _ => ⟨fun _ => rfl, fun _ => rfl, fun _ => rfl⟩) shown
  have bound : ((group.bind host).after world).dom = shown.dom := dom
  refine ⟨synced.advances.trans setup.advances, ?_, ?_, fun n old => ?_,
    fun slot old foreign => ?_, fun o listener member => ?_,
    fun o listener member other action _ => ?_,
    fun other whole listening new => ?_⟩
  · exact (funext fun o => funext (property o)).trans synced.property
  · rw [bound]
    exact synced.size
  · rw [bound]
    exact synced.shape n old
  · rw [bound]
    exact synced.content slot old foreign
  · exact stays o listener (synced.stays o listener member)
  · refine (mem_bind rendered follows member).imp_right fun own => ?_
    rw [own] at action
    cases action
    rw [bound]
    exact ⟨owns _ group.slot.meets_self,
      Nat.lt_of_lt_of_le there.lt_size synced.size⟩
  · obtain ⟨o, listener, member, action⟩ := listening
    have own := (mem_bind rendered follows member).resolve_left
      fun old => new ⟨o, listener, old, action⟩
    rw [own] at action
    cases action
    exact ⟨rendered, follows, world, new,
      .create follows (there.isSome_content? whole)⟩

theorem Schema.Means.follows {schema : Schema}
    (means : Schema.Means host meaning schema) (kept : List Value)
    (slot : Slot) :
    SyncGroup.Follows host meaning
      ⟨kept.map .fixed ++ flattenChunks schema, slot⟩ := by
  intro binding member
  rw [SyncGroup.mem_bindings, List.mem_append] at member
  rcases member with before | behind
  · obtain ⟨_, _, impossible⟩ := List.mem_map.mp before
    cases impossible
  · exact means.flatten _ behind binding .bound

end Slots

/-- A slot of a node for attributes of a name. -/
def Slot.IsNamed (n : NodeId) (name : String) : Slot → Prop
  | text _ => False
  | attr node _ other => node = n ∧ other = name
  | style node _ => node = n ∧ name = "style"

theorem Slot.IsNamed.node_eq {n : NodeId} {name : String} {slot : Slot}
    (named : slot.IsNamed n name) : slot.node = n := by
  cases slot with
  | text => exact named.elim
  | attr => exact named.1
  | style => exact named.1

theorem Slot.IsNamed.eq {n : NodeId} {name other : String} {slot : Slot}
    (named : slot.IsNamed n name) (again : slot.IsNamed n other) :
    name = other := by
  cases slot with
  | text => exact named.elim
  | attr => exact named.2.symm.trans again.2
  | style => exact named.2.trans again.2.symm

section Nodes

variable {host : Host σ} {meaning : Meaning} {owned : Slot → Prop}
  {world : World σ} {record : Record} {n : NodeId}

namespace Blueprint

variable {blueprint : Blueprint} {name : String} {schema : Schema}

/-- A slot is filled with a schema, behind values that are kept in front.  No
other slot gets a group. -/
theorem equips_renderSlot {slot : Slot} (kept : List Value)
    (means : Schema.Means host meaning schema)
    (there : slot.IsThere world.dom)
    (owns : ∀ other, slot.Meets other → owned other) :
    (renderSlot host slot (kept.map .fixed ++ flattenChunks schema)).Ensures
      record world fun _ later =>
        world.Equips host meaning owned later ∧
          ∀ group : SyncGroup, group.Listening later →
            group.Listening world ∨ group.slot = slot := by
  unfold renderSlot
  split
  · let group : SyncGroup := ⟨kept.map .fixed ++ flattenChunks schema, slot⟩
    have rendered : group.IsRendered := ⟨kept, schema, rfl⟩
    have follows : group.Follows host meaning := means.follows kept slot
    refine .act_bind (.note ⟨group.equips_bind rendered follows there owns,
      fun other listening => ?_⟩)
    obtain ⟨o, listener, member, action⟩ := listening
    refine (group.mem_bind rendered follows member).imp
      (fun old => ⟨o, listener, old, action⟩) fun own => ?_
    rw [own] at action
    cases action
    rfl
  · have isPure : Schema.IsPure host
        (kept.map .fixed ++ flattenChunks schema) := by
      refine means.isPure.flatten.prepend fun chunk member => ?_
      obtain ⟨value, _, rfl⟩ := List.mem_map.mp member
      exact ⟨value, rfl⟩
    refine .act_bind ?_
    rw [after_evaluate slot.node world isPure.inputs]
    split
    · rename_i truthy
      have shown : world.Equips host meaning owned _ :=
        .display there owns ((evaluate host slot.node
          (kept.map .fixed ++ flattenChunks schema)).result world)
      rw [Slot.display, if_neg (by simpa [Value.isTruthy] using truthy)]
        at shown
      exact .act ⟨shown, fun _ => .inl⟩
    · exact .pure ⟨.refl world, fun _ => .inl⟩

private theorem equips_renderAttribute {applying : Bool}
    (means : Schema.Means host meaning schema)
    (element : world.dom.isElement n = true) :
    (renderAttribute host n applying name schema).Ensures record world
      fun _ later => world.Equips host meaning (Slot.IsNamed n name) later := by
  have owns (other : Slot)
      (meets : (Slot.attr n schema.namespace? name).Meets other) :
      other.IsNamed n name := by
    cases other with
    | text => cases meets
    | attr node namespaceName other =>
        exact ⟨meets.1.symm, congrArg Prod.snd meets.2⟩
    | style node property =>
        exact ⟨meets.1.symm, (congrArg Prod.snd meets.2).symm⟩
  have there : (Slot.attr n schema.namespace? name).IsThere world.dom := element
  have filled (kept : List Value) (record : Record) :
      (renderSlot host (.attr n schema.namespace? name)
        (kept.map .fixed ++ flattenChunks schema)).Ensures record world
          fun _ later =>
            world.Equips host meaning (Slot.IsNamed n name) later :=
    Pass.Ensures.weaken
      (equips_renderSlot kept means there owns) fun _ _ done => done.1
  unfold renderAttribute
  refine .act_bind ?_
  rw [Act.result_get, Act.after_get]
  cases world.dom.attributeNs? n schema.namespace? name with
  | none =>
      cases applying with
      | true => exact .note_bind (filled [] _)
      | false => exact filled [] record
  | some text =>
      cases applying with
      | true =>
          refine .note_bind ?_
          dsimp only
          cases isExtendable name with
          | true => exact filled [.text (keptText name text)] _
          | false => exact filled [] _
      | false => exact filled [] record

/-- The properties of a style map share the `style` attribute, but none of their
groups shows the whole of it. -/
theorem equips_renderStyles {styles : StyleMap}
    (means : ∀ style ∈ styles, Schema.Means host meaning style.2)
    (element : world.dom.isElement n = true)
    (there : n.index < world.dom.nodes.size) :
    (renderStyles host n styles).Ensures record world fun _ later =>
      world.Equips host meaning (Slot.IsNamed n "style") later ∧
        ∀ group : SyncGroup, group.slot.IsWhole → group.Listening later →
          group.Listening world := by
  unfold renderStyles
  induction styles generalizing record world with
  | nil => exact .pure ⟨.refl world, fun _ _ => id⟩
  | cons style rest ih =>
      have owns (other : Slot) (meets : (Slot.style n style.1).Meets other) :
          other.IsNamed n "style" := by
        cases other with
        | text => cases meets
        | attr => exact ⟨meets.1.symm, meets.2⟩
        | style => exact ⟨meets.1.symm, rfl⟩
      have filled : (renderSlot host (.style n style.1)
          (flattenChunks style.2)).Ensures record world _ :=
        equips_renderSlot [] (means style (.head _)) element owns
      refine filled.bind ?_
      rintro _ _ between ⟨first, only⟩
      have early (group : SyncGroup) (whole : group.slot.IsWhole)
          (listening : group.Listening between) : group.Listening world := by
        refine (only group listening).resolve_right fun same => ?_
        rw [same] at whole
        exact whole
      refine (ih (fun other member => means other (.tail _ member))
        ((first.isElement there).trans element)
        (Nat.lt_of_lt_of_le there first.size)).weaken ?_
      rintro _ later ⟨second, none⟩
      refine ⟨(first.trans_of_new second fun group whole listening new =>
        absurd (early group whole listening) new).mono fun slot owns =>
          owns.elim id id, fun group whole listening =>
            early group whole (none group whole listening)⟩

private theorem equips_renderEntry {applying : Bool}
    (means : Schema.Means host meaning schema)
    (element : world.dom.isElement n = true)
    (there : n.index < world.dom.nodes.size) :
    (renderEntry host blueprint n applying name schema).Ensures record world
      fun _ later => world.Equips host meaning (Slot.IsNamed n name) later := by
  unfold renderEntry
  cases found : entryStyles? name schema with
  | none => exact equips_renderAttribute means element
  | some outcome =>
      obtain ⟨rfl, map⟩ := eq_style_of_entryStyles? found
      cases outcome with
      | error fault => exact .throw
      | ok styles =>
          have filled (record : Record) :
              (renderStyles host n styles).Ensures record world fun _ later =>
                world.Equips host meaning (Slot.IsNamed n "style") later :=
            (equips_renderStyles (fun style member => means.styleMap map member)
              element there).weaken fun _ _ done => done.1
          cases applying with
          | true => exact .act_bind (.note_bind (filled _))
          | false => exact filled record

theorem equips_renderAttributes {applying : Bool}
    (named : (blueprint.attributes.map (·.1)).Nodup)
    (means : blueprint.Means host meaning)
    (element : world.dom.isElement n = true)
    (there : n.index < world.dom.nodes.size) :
    (blueprint.renderAttributes host n applying).Ensures record world
      fun _ later =>
        world.Equips host meaning (fun slot => slot.node = n) later := by
  obtain ⟨_, means⟩ := means
  unfold renderAttributes
  generalize blueprint.attributes = entries at named means
  have filled : Pass.Ensures (entries.forM fun entry =>
      renderEntry host blueprint n applying entry.1 entry.2) record world
        fun _ later => world.Equips host meaning (fun slot =>
          ∃ entry ∈ entries, slot.IsNamed n entry.1) later := by
    induction entries generalizing record world with
    | nil => exact .pure (.refl world)
    | cons entry rest ih =>
        rw [List.map_cons, List.nodup_cons] at named
        refine (equips_renderEntry (means entry (.head _)) element there).bind
          fun _ _ between (first : World.Equips host meaning _ world between) =>
            ?_
        refine (ih ((first.isElement there).trans element)
          (Nat.lt_of_lt_of_le there first.size) named.2
          (fun other member => means other (.tail _ member))).weaken
            fun _ _ second => ?_
        refine (first.trans second ?_).mono ?_
        · rintro slot - here ⟨other, member, again⟩
          apply named.1
          rw [here.eq again]
          exact List.mem_map_of_mem member
        · rintro slot (here | ⟨other, member, again⟩)
          · exact ⟨entry, .head _, here⟩
          · exact ⟨other, .tail _ member, again⟩
  exact filled.weaken fun _ _ equips => equips.mono fun _ owns =>
    have ⟨_, _, named⟩ := owns
    named.node_eq

theorem equips_renderListeners :
    (blueprint.renderListeners n).Ensures record world fun _ later =>
      world.Equips host meaning (fun _ => False) later := by
  unfold renderListeners
  generalize blueprint.listeners = entries
  induction entries generalizing record world with
  | nil => exact .pure (.refl world)
  | cons entry rest ih =>
      refine Pass.Ensures.bind (.ofExcept_bind fun parsed _ => .act_bind
        (.note ?_)) fun _ later between
          (first : world.Equips host meaning (fun _ => False) between) =>
            ih.weaken fun _ _ second => first.settle second
      exact Act.after_mapM .refl .settle (fun _ _ _ => .of_setup
        ⟨fun _ => rfl, fun _ => rfl, fun _ => rfl⟩ rfl rfl rfl) world

theorem equips_showText (means : Schema.Means host meaning schema)
    (isText : world.dom.isText n = true) :
    (showText host n (flattenChunks schema)).Ensures record world
      fun _ later =>
        world.Equips host meaning (fun slot => slot.node = n) later := by
  let group : SyncGroup := ⟨flattenChunks schema, .text n⟩
  let held := world.holding (.refs [.node n] :: world.frames)
  have there : group.slot.IsThere held.dom := isText
  have owns (other : Slot) (meets : group.slot.Meets other) : other.node = n :=
    meets.node_eq
  unfold showText
  refine Pass.Ensures.bind (World.Equips.keeping ?_) fun _ _ _ equips =>
    .pure equips
  split
  · exact .act_bind (.note (group.equips_bind ⟨[], schema, rfl⟩
      (means.follows [] _) there owns))
  · refine .act_bind ?_
    rw [after_plainText means.isPure.flatten]
    refine .act ?_
    rw [Act.after_modifyDom, ← setText_eq_display]
    exact .display there owns _

end Blueprint

end Nodes

end LiveTemplate
