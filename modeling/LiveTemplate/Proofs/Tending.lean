import LiveTemplate.Proofs.Displays
import LiveTemplate.Proofs.PuttingBack
import LiveTemplate.Proofs.Synchronisation
import LiveTemplate.Proofs.Trees

/-!
# Trees while a template is in force

Between `apply` and `revert` properties change and the slots of the template
follow them, while listeners of others do what they like outside of the tree.
All that has changed in the tree by then was saved by `apply`: values are shown
under the keys of the definition only, a style map being shown in the `style`
attribute that has no namespace.
-/

namespace LiveTemplate

variable {σ : Type} {host : Host σ} {base world : World σ}

/-- The key under which an attribute of a definition is saved. -/
def entryKey (entry : String × Schema) : Option String × String :=
  if (entryStyles? entry.1 entry.2).isSome then (none, entry.1)
  else (Schema.namespace? entry.2, entry.1)

private theorem key_savedAttribute (dom : Dom) (n : NodeId)
    (entry : String × Schema) :
    (savedAttribute dom n entry).key = entryKey entry := by
  unfold savedAttribute entryKey
  split <;> rfl

theorem entryKey_snd (entry : String × Schema) :
    (entryKey entry).2 = entry.1 := by
  unfold entryKey
  split <;> rfl

/-- A style property is shown in the attributes of that name, or in a new one
without a namespace. -/
theorem Attribute.confined_displayIn_style
    {covered : Option String × String → Prop} {attributes : List Attribute}
    (within : ∀ entry ∈ attributes, (entry.name == "style") = true →
      covered entry.key)
    (new : covered (none, "style")) (n : NodeId) (property : String)
    (value : Value) :
    Confined covered attributes
      ((Slot.style n property).displayIn value attributes) := by
  have sets (text : String) :
      Confined covered attributes (set attributes "style" text) :=
    .setWhere within new fun entry same =>
      beq_iff_eq.mpr (congrArg Prod.snd same)
  have removes : Confined covered attributes (remove attributes "style") :=
    .eraseP within
  rw [Slot.displayIn]
  split
  · unfold removeStyle
    split
    · exact .refl attributes
    · dsimp only
      split
      · split
        · exact removes
        · exact sets _
      · exact .refl attributes
  · exact sets _

theorem Attribute.HasPlainStyle.confined_displayIn
    {attributes : List Attribute} (plain : HasPlainStyle attributes)
    (n : NodeId) (property : String) (value : Value) :
    Confined (· = (none, "style")) attributes
      ((Slot.style n property).displayIn value attributes) := by
  have confined := confined_displayIn_style (fun entry member named =>
    (plain.key_eq member named).symm) rfl n property value
  exact confined.mono fun _ same => same.symm

namespace Blueprint

variable {blueprint : Blueprint} {attributes : List Attribute} {n : NodeId}

def keys (blueprint : Blueprint) : List (Option String × String) :=
  blueprint.attributes.map entryKey

theorem nodup_keys (named : (blueprint.attributes.map (·.1)).Nodup) :
    blueprint.keys.Nodup := by
  refine .of_map Prod.snd ?_
  have names : blueprint.keys.map Prod.snd =
      blueprint.attributes.map (·.1) := by
    unfold keys
    rw [List.map_map]
    exact List.map_congr_left fun entry _ => entryKey_snd entry
  rw [names]
  exact named

/-- A style map finds the `style` attribute without a namespace. -/
def Suits (blueprint : Blueprint) (attributes : List Attribute) : Prop :=
  ∀ entry ∈ blueprint.attributes,
    (entryStyles? entry.1 entry.2).isSome = true →
      Attribute.HasPlainStyle attributes

theorem confined_displayIn (named : (blueprint.attributes.map (·.1)).Nodup)
    {slot : Slot} (member : slot ∈ blueprint.slots n)
    (suits : blueprint.Suits attributes) (value : Value) :
    Attribute.Confined (· ∈ blueprint.keys) attributes
        (slot.displayIn value attributes) ∧
      blueprint.Suits (slot.displayIn value attributes) := by
  unfold slots at member
  split at member
  · rw [List.mem_singleton.mp member]
    exact ⟨.refl attributes, suits⟩
  obtain ⟨entry, inside, among⟩ := List.mem_flatMap.mp member
  have covered : entryKey entry ∈ blueprint.keys := List.mem_map_of_mem inside
  unfold entrySlots at among
  cases found : entryStyles? entry.1 entry.2 with
  | none =>
      have key : entryKey entry = (Schema.namespace? entry.2, entry.1) := by
        simp [entryKey, found]
      rw [found] at among
      rw [List.mem_singleton.mp among]
      have confined := (Slot.confined_displayIn
        (.attr n (Schema.namespace? entry.2) entry.1) value attributes)
      refine ⟨confined.mono fun _ same => ?_, fun other there styled => ?_⟩
      · rw [same, ← key]
        exact covered
      · -- The style map is another attribute, as names do not repeat.
        intro shown present style
        refine suits other there styled shown
          (confined.mem_before present fun same => ?_) style
        obtain ⟨outcome, map⟩ := Option.isSome_iff_exists.mp styled
        have names : other.1 = entry.1 := by
          rw [(eq_style_of_entryStyles? map).1, ← style]
          exact congrArg Prod.snd same
        rw [List.inj_on_of_nodup_map named there inside names, found] at map
        cases map
  | some outcome =>
      rw [found] at among
      cases outcome with
      | error fault => cases among
      | ok styles =>
          obtain ⟨style, _, rfl⟩ := List.mem_map.mp among
          have plain := suits entry inside (by rw [found]; rfl)
          have key : entryKey entry = (none, "style") := by
            rw [entryKey, found, (eq_style_of_entryStyles? found).1]
            rfl
          have confined := plain.confined_displayIn n style.1 value
          exact ⟨confined.mono fun _ same => by rw [same, ← key]; exact covered,
            fun _ _ _ => plain.of_confined confined⟩

theorem map_key_savedAttribute (blueprint : Blueprint) (dom : Dom)
    (n : NodeId) :
    (blueprint.attributes.map (savedAttribute dom n)).map SavedAttribute.key =
      blueprint.keys := by
  unfold keys
  rw [List.map_map]
  exact List.map_congr_left fun entry _ => key_savedAttribute dom n entry

theorem value_savedAttribute {dom : Dom} {entry : String × Schema}
    (plain : (entryStyles? entry.1 entry.2).isSome = true →
      Attribute.HasPlainStyle (dom.attributes n)) :
    (savedAttribute dom n entry).value = Attribute.findNs? (dom.attributes n)
      (savedAttribute dom n entry).namespaceName
      (savedAttribute dom n entry).name := by
  unfold savedAttribute
  split
  · rename_i styled
    obtain ⟨outcome, map⟩ := Option.isSome_iff_exists.mp styled
    rw [(eq_style_of_entryStyles? map).1]
    exact (plain styled).find?_eq
  · rfl

theorem undo_savedAttribute {dom : Dom} {current : List Attribute}
    (named : (blueprint.attributes.map (·.1)).Nodup)
    (suits : blueprint.Suits (dom.attributes n))
    (once : ((dom.attributes n).map Attribute.key).Nodup)
    (confined : Attribute.Confined (· ∈ blueprint.keys) (dom.attributes n)
      current) :
    SavedAttribute.Undo (blueprint.attributes.map (savedAttribute dom n))
      (dom.attributes n) current := by
  have keys := blueprint.map_key_savedAttribute dom n
  refine ⟨keys ▸ nodup_keys named, once, fun one member => ?_, keys ▸ confined⟩
  obtain ⟨entry, inside, rfl⟩ := List.mem_map.mp member
  exact value_savedAttribute (suits entry inside)

end Blueprint

/-- What becomes of a document in which values are shown in some slots and
anything may happen outside of a tree. -/
inductive Dom.Tended (owned : Slot → Prop) (inTree : NodeId → Prop) :
    Dom → Dom → Prop where
  | refl (dom : Dom) : Tended owned inTree dom dom
  | display {dom between : Dom} {slot : Slot} (value : Value) :
      Tended owned inTree dom between → owned slot → slot.IsProper between →
      Tended owned inTree dom (slot.display between value)
  | elsewhere {dom between later : Dom} :
      Tended owned inTree dom between →
      (∀ m, inTree m → later.node m = between.node m) →
      between.nodes.size ≤ later.nodes.size →
      Tended owned inTree dom later

theorem NodeKind.eq_text_of_shape {kind : NodeKind} {data : String}
    (same : kind.shape = NodeKind.shape (.text data)) :
    ∃ shown, kind = .text shown := by
  cases kind with
  | text shown => exact ⟨shown, rfl⟩
  | element => cases same
  | fragment => cases same

theorem NodeKind.eq_element_of_shape {kind : NodeKind}
    {namespaceName tag : String} {attributes : List Attribute}
    (same : kind.shape =
      NodeKind.shape (.element namespaceName tag attributes)) :
    ∃ shown, kind = .element namespaceName tag shown := by
  cases kind with
  | element scope name shown =>
      cases same
      exact ⟨shown, rfl⟩
  | text => cases same
  | fragment => cases same

theorem Slot.size_le_display {dom : Dom} {slot : Slot}
    (proper : slot.IsProper dom) (value : Value) :
    dom.nodes.size ≤ (slot.display dom value).nodes.size := by
  rcases display_cases proper value with
    same | ⟨change, _, changed⟩ | ⟨_, data, written⟩
  · rw [same]
  · rw [changed]
    unfold Dom.modifyAttributes
    split
    · exact dom.nodes.size_le_put _ _
    · exact Nat.le_refl _
  · rw [written]
    exact dom.nodes.size_le_put _ _

namespace Dom.Tended

variable {owned : Slot → Prop} {inTree : NodeId → Prop} {dom later : Dom}
  {m : NodeId}

theorem of_written (written : Dom.Written owned dom later) :
    Tended owned inTree dom later := by
  induction written with
  | refl => exact .refl _
  | display value _ owns proper ih => exact .display value ih owns proper

theorem size (tended : Tended owned inTree dom later) :
    dom.nodes.size ≤ later.nodes.size := by
  induction tended with
  | refl => exact Nat.le_refl _
  | display value _ _ proper ih =>
      exact Nat.le_trans ih (Slot.size_le_display proper value)
  | elsewhere _ _ grown ih => exact Nat.le_trans ih grown

theorem form (tended : Tended owned inTree dom later) (inside : inTree m) :
    later.children m = dom.children m ∧
      (later.kind m).shape = (dom.kind m).shape := by
  induction tended with
  | refl => exact ⟨rfl, rfl⟩
  | display value _ _ proper ih =>
      have same := Slot.sameShape_display proper value
      rw [same.children, same.shape]
      exact ih
  | elsewhere _ rows _ ih =>
      unfold Dom.children Dom.kind
      rw [rows m inside]
      exact ih

theorem isProper (tended : Tended owned inTree dom later) {slot : Slot}
    (inside : inTree slot.node) (proper : slot.IsProper dom) :
    slot.IsProper later := by
  cases slot with
  | text node =>
      obtain ⟨data, kind⟩ := Dom.isText_iff.mp proper
      have shape := (tended.form inside).2
      rw [Slot.node, kind] at shape
      exact Dom.isText_iff.mpr (NodeKind.eq_text_of_shape shape)
  | attr => trivial
  | style => trivial

theorem node_eq (tended : Tended owned inTree dom later) (inside : inTree m)
    (apart : ∀ slot, owned slot → slot.node ≠ m) :
    later.node m = dom.node m := by
  induction tended with
  | refl => rfl
  | display value _ owns proper ih =>
      rw [Slot.node_display_of_ne proper value (apart _ owns).symm]
      exact ih
  | elsewhere _ rows _ ih => exact (rows m inside).trans ih

theorem element {blueprint : Blueprint}
    (named : (blueprint.attributes.map (·.1)).Nodup)
    (tended : Tended owned inTree dom later) (inside : inTree m)
    (own : ∀ slot, owned slot → slot.node = m → slot ∈ blueprint.slots m)
    {namespaceName tag : String} {attributes : List Attribute}
    (element : dom.kind m = .element namespaceName tag attributes)
    (suits : blueprint.Suits attributes) :
    ∃ current, later.kind m = .element namespaceName tag current ∧
      Attribute.Confined (· ∈ blueprint.keys) attributes current ∧
      blueprint.Suits current := by
  induction tended with
  | refl => exact ⟨attributes, element, .refl attributes, suits⟩
  | @display between slot value _ owns proper ih =>
      obtain ⟨current, kind, confined, still⟩ := ih
      by_cases here : slot.node = m
      · have member := own slot owns here
        subst here
        obtain ⟨changed, suited⟩ :=
          Blueprint.confined_displayIn named member still value
        exact ⟨_, (Slot.redrawn_display proper kind value).kind,
          confined.trans changed, suited⟩
      · refine ⟨current, ?_, confined, still⟩
        unfold Dom.kind
        rw [Slot.node_display_of_ne proper value (Ne.symm here)]
        exact kind
  | elsewhere _ rows _ ih =>
      obtain ⟨current, kind, kept⟩ := ih
      refine ⟨current, ?_, kept⟩
      unfold Dom.kind
      rw [rows m inside]
      exact kind

end Dom.Tended

namespace Template

/-- A listener is a group of the template or belongs to others. -/
def Knows (host : Host σ) (base : World σ) (t : TemplateId) (n : NodeId)
    (other : Reaction → Prop) (action : Reaction) : Prop :=
  other action ∨ ∃ group, action = .sync group ∧
    group.Serves host (Owns base t n)

/-- The template is in force: only its slots were written in the tree, its
record is kept, and all listeners of observables are known. -/
structure Presides (host : Host σ) (base : World σ) (t : TemplateId)
    (n : NodeId) (entry : NodeId × Record) (other : Reaction → Prop)
    (world : World σ) : Prop where
  dom : Dom.Tended (Owns base t n) (base.dom.Inside n) base.dom world.dom
  applied : (world.template t).applied = some entry
  listeners : ∀ o, ∀ listener ∈ (world.reactionsOf o).entries,
    Knows host base t n other listener.action

/-- The listeners of others leave the tree and the template alone. -/
def LeavesAlone (host : Host σ) (base : World σ) (t : TemplateId) (n : NodeId)
    (entry : NodeId × Record) (other : Reaction → Prop) : Prop :=
  ∀ action, other action → ∀ notice world,
    Presides host base t n entry other world →
      Presides host base t n entry other
        ((Observable.react host notice action).after world)

/-- The slots of the template are in the tree, those for texts at texts. -/
def HasProperSlots (base : World σ) (t : TemplateId) (n : NodeId) : Prop :=
  ∀ slot, Owns base t n slot →
    base.dom.Inside n slot.node ∧ slot.IsProper base.dom

namespace Presides

variable {t : TemplateId} {n : NodeId} {entry : NodeId × Record}
  {other : Reaction → Prop}

theorem holding (presides : Presides host base t n entry other world)
    (frames : List Frame) :
    Presides host base t n entry other (world.holding frames) := by
  exact ⟨presides.dom, presides.applied, presides.listeners⟩

/-- A turn of any listener. -/
theorem react (alone : LeavesAlone host base t n entry other)
    (proper : HasProperSlots base t n) {action : Reaction}
    (known : Knows host base t n other action) (notice : Notice)
    (presides : Presides host base t n entry other world) :
    Presides host base t n entry other
      ((Observable.react host notice action).after world) := by
  rcases known with foreign | ⟨group, rfl, serves⟩
  · exact alone _ foreign notice world presides
  · obtain ⟨inside, isProper⟩ := proper _ serves.owned
    have ready := presides.dom.isProper inside isProper
    have unchanged := after_evaluate group.slot.node world serves.isPure
    change Presides host base t n entry other ((group.sync host).after world)
    unfold SyncGroup.sync
    rw [Act.after_bind, unchanged, Act.after_modifyDom]
    exact ⟨.display _ presides.dom serves.owned ready, presides.applied,
      presides.listeners⟩

theorem notifyEach (alone : LeavesAlone host base t n entry other)
    (proper : HasProperSlots base t n) {o : ObservableId} {notice : Notice}
    {waiting : List (Listener Reaction)}
    (known : ∀ listener ∈ waiting, Knows host base t n other listener.action)
    (presides : Presides host base t n entry other world) :
    Presides host base t n entry other
      ((Observable.notifyEach host o notice waiting).after world) := by
  induction waiting generalizing world with
  | nil => exact presides
  | cons listener rest ih =>
      rw [Observable.after_notifyEach_cons]
      refine ih (fun later member => known later (.tail _ member)) ?_
      split
      · rw [after_keeping]
        exact ((presides.holding _).react alone proper
          (known listener (.head _)) notice).holding _
      · exact presides

theorem set (alone : LeavesAlone host base t n entry other)
    (proper : HasProperSlots base t n) (o : ObservableId) (name : String)
    (value : Value) (presides : Presides host base t n entry other world) :
    Presides host base t n entry other
      ((Observable.set host o name value).after world) := by
  have stored : Presides host base t n entry other
      ((Observable.store o name value).after world) :=
    ⟨presides.dom, presides.applied, presides.listeners⟩
  rw [Observable.after_set]
  split
  · exact stored
  · exact stored.notifyEach alone proper fun listener member =>
      stored.listeners o listener (List.mem_of_mem_filter member)

theorem sets (alone : LeavesAlone host base t n entry other)
    (proper : HasProperSlots base t n)
    (sets : List (ObservableId × String × Value))
    (presides : Presides host base t n entry other world) :
    Presides host base t n entry other
      ((sets.forM fun change => Observable.set host change.1 change.2.1
        change.2.2 : Act σ Unit).after world) := by
  induction sets generalizing world with
  | nil => exact presides
  | cons first rest ih =>
      exact ih (presides.set alone proper first.1 first.2.1 first.2.2)

end Presides

end Template

end LiveTemplate
