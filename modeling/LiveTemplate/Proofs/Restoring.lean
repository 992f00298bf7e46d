import LiveTemplate.Proofs.Application
import LiveTemplate.Proofs.Records
import LiveTemplate.Proofs.Tending

/-!
# Reverting brings back the tree

`revert` puts back the text of every text node and every attribute that was
saved, and touches nothing else.  An attribute that has been removed meanwhile
comes back at the end of its list.  So the tree comes back with the attributes
of each node in the order in which they are then, and exactly as it was if
those that were missing had been the last ones, in the order of the definition.
-/

namespace LiveTemplate

variable {σ : Type} {host : Host σ} {base world : World σ}

private theorem exists_forall₂ {α β : Type} {R : α → β → Prop} {items : List α}
    (each : ∀ a ∈ items, ∃ b, R a b) : ∃ parts, List.Forall₂ R items parts := by
  induction items with
  | nil => exact ⟨[], .nil⟩
  | cons a rest ih =>
      obtain ⟨b, related⟩ := each a (.head _)
      obtain ⟨parts, others⟩ := ih fun other member => each other (.tail _ member)
      exact ⟨b :: parts, .cons related others⟩

private theorem eq_of_mem_zip {α β : Type} {left : List α} {right : List β}
    (nodup : right.Nodup) {a a' : α} {b : β} (first : (a, b) ∈ left.zip right)
    (second : (a', b) ∈ left.zip right) : a = a' := by
  induction left generalizing right with
  | nil => cases first
  | cons head rest ih =>
      cases right with
      | nil => cases first
      | cons other others =>
          rw [List.nodup_cons] at nodup
          rw [List.zip_cons_cons] at first second
          rcases List.mem_cons.mp first with here | there <;>
            rcases List.mem_cons.mp second with also | elsewhere
          · cases here
            cases also
            rfl
          · cases here
            exact absurd (List.of_mem_zip elsewhere).2 nodup.1
          · cases also
            exact absurd (List.of_mem_zip there).2 nodup.1
          · exact ih nodup.2 there elsewhere

namespace Dom

variable {dom : Dom} {n : NodeId}

private theorem nodup_flatten {children : List NodeId}
    {parts : List (List NodeId)}
    (each : List.Forall₂ (fun child part =>
      dom.Spans child part ∧ part.Nodup ∧ ∀ m ∈ part, dom.Inside child m)
      children parts)
    (nodup : children.Nodup)
    (apart : ∀ one ∈ children, ∀ other ∈ children, ∀ m,
      dom.Inside one m → dom.Inside other m → one = other) :
    parts.flatten.Nodup ∧
      ∀ m ∈ parts.flatten, ∃ child ∈ children, dom.Inside child m := by
  induction each with
  | nil => exact ⟨.nil, fun _ member => by cases member⟩
  | @cons child part children parts here _ ih =>
      rw [List.nodup_cons] at nodup
      obtain ⟨distinct, below⟩ := ih nodup.2 fun one first other second =>
        apart one (.tail _ first) other (.tail _ second)
      rw [List.flatten_cons]
      constructor
      · refine List.nodup_append.mpr ⟨here.2.1, distinct, ?_⟩
        intro m left m' right same
        subst same
        obtain ⟨other, among, inside⟩ := below m right
        have equal := apart child (.head _) other (.tail _ among) m
          (here.2.2 m left) inside
        exact nodup.1 (equal ▸ among)
      · intro m member
        rcases List.mem_append.mp member with left | right
        · exact ⟨child, .head _, here.2.2 m left⟩
        · obtain ⟨other, among, inside⟩ := below m right
          exact ⟨other, .tail _ among, inside⟩

theorem IsTree.spans (linked : dom.IsLinked) (isTree : dom.IsTree n) :
    ∃ nodes, dom.Spans n nodes ∧ nodes.Nodup ∧
      ∀ m ∈ nodes, dom.Inside n m := by
  induction isTree with
  | @node n there once below ih =>
      have isTree : dom.IsTree n := .node there once below
      obtain ⟨parts, each⟩ := exists_forall₂ ih
      obtain ⟨distinct, within⟩ := nodup_flatten each once
        fun one first other second m left right =>
          linked.siblings isTree first second left right
      refine ⟨n :: parts.flatten, .node each.length_eq fun child part member =>
        (List.forall₂_zip each member).1, ?_, fun m member => ?_⟩
      · refine List.nodup_cons.mpr ⟨fun member => ?_, distinct⟩
        obtain ⟨child, among, inside⟩ := within n member
        exact isTree.acyclic child among inside
      · rcases List.mem_cons.mp member with rfl | member
        · exact .here m
        · obtain ⟨child, among, inside⟩ := within m member
          exact .under among inside

end Dom

namespace Matched

variable {t inner other : TemplateId} {n m : NodeId}

theorem inside (matched : Matched base t n inner m) : base.dom.Inside n m := by
  induction matched with
  | root => exact .here _
  | nested _ member _ ih => exact .under (List.of_mem_zip member).2 ih

/-- One template at most is worked into a node. -/
theorem unique (linked : base.dom.IsLinked) (isTree : base.dom.IsTree n)
    (first : Matched base t n inner m) (second : Matched base t n other m) :
    inner = other := by
  induction first with
  | root =>
      cases second with
      | root => rfl
      | nested _ member deeper =>
          exact absurd deeper.inside
            (isTree.acyclic _ (List.of_mem_zip member).2)
  | @nested t nested inner n child m _ member matched ih =>
      cases second with
      | root =>
          exact absurd matched.inside
            (isTree.acyclic _ (List.of_mem_zip member).2)
      | @nested _ nested' _ _ child' _ _ among deeper =>
          have among' := (List.of_mem_zip among).2
          have member' := (List.of_mem_zip member).2
          have same := linked.siblings isTree member' among' matched.inside
            deeper.inside
          subst same
          have equal := eq_of_mem_zip isTree.nodup member among
          subst equal
          exact ih (isTree.child member') deeper

end Matched

/-- The document has the same form below a node. -/
def Dom.SameFormBelow (dom later : Dom) (n : NodeId) : Prop :=
  ∀ m, dom.Inside n m → later.children m = dom.children m ∧
    (later.kind m).shape = (dom.kind m).shape

/-- What a node comes to when what was saved for a definition is put back. -/
def Blueprint.restored (blueprint : Blueprint) (before : Dom) (n : NodeId) :
    NodeKind → NodeKind
  | .element namespaceName tag attributes =>
      .element namespaceName tag (SavedAttribute.putBackAll
        (blueprint.attributes.map (savedAttribute before n)) attributes)
  | .text _ => before.kind n
  | .fragment => .fragment

/-- The nodes that templates are worked into were put back, and no others. -/
structure Restored (base : World σ) (pairs : List (TemplateId × NodeId))
    (dom later : Dom) : Prop where
  others : ∀ m, (∀ pair ∈ pairs, ∀ inner, ¬Matched base pair.1 pair.2 inner m) →
    later.node m = dom.node m
  children : ∀ m, later.children m = dom.children m
  parents : ∀ m, later.parent? m = dom.parent? m
  kinds : ∀ pair ∈ pairs, ∀ inner m, Matched base pair.1 pair.2 inner m →
    later.kind m =
      (base.template inner).blueprint.restored base.dom m (dom.kind m)
  size : dom.nodes.size ≤ later.nodes.size

namespace Restored

variable {dom between later : Dom} {pair : TemplateId × NodeId}
  {pairs : List (TemplateId × NodeId)}

theorem nil (dom : Dom) : Restored base [] dom dom := by
  refine ⟨fun _ _ => rfl, fun _ => rfl, fun _ => rfl, ?_, Nat.le_refl _⟩
  intro _ member
  exact absurd member List.not_mem_nil

theorem node_eq (restored : Restored base [pair] dom later) {m : NodeId}
    (outside : ¬base.dom.Inside pair.2 m) : later.node m = dom.node m := by
  exact restored.others m fun other member inner matched => by
    rw [List.mem_singleton.mp member] at matched
    exact outside matched.inside

/-- Trees that have no node in common are restored one after the other. -/
theorem cons (first : Restored base [pair] dom between)
    (rest : Restored base pairs between later)
    (apart : ∀ other ∈ pairs, ∀ m, base.dom.Inside pair.2 m →
      ¬base.dom.Inside other.2 m) : Restored base (pair :: pairs) dom later where
  others m unmatched :=
    (rest.others m fun other member => unmatched other (.tail _ member)).trans
      (first.others m fun other member => by
        rw [List.mem_singleton.mp member]
        exact unmatched pair (.head _))
  children m := (rest.children m).trans (first.children m)
  parents m := (rest.parents m).trans (first.parents m)
  kinds other member inner m matched := by
    rcases List.mem_cons.mp member with rfl | behind
    · have kept : later.node m = between.node m :=
        rest.others m fun another among inmost below =>
          apart another among m matched.inside below.inside
      unfold Dom.kind
      rw [kept]
      exact first.kinds other (.head _) inner m matched
    · have kept : between.kind m = dom.kind m :=
        congrArg Node.kind (first.node_eq fun inside =>
          apart other behind m inside matched.inside)
      rw [rest.kinds other behind inner m matched, kept]
  size := Nat.le_trans first.size rest.size

theorem root {t : TemplateId} {n : NodeId} (isTree : base.dom.IsTree n)
    (below : ∀ pair, pair ∈ pairs ↔
      (base.template t).blueprint.text = none ∧
        pair ∈ (base.template t).blueprint.nested.zip (base.dom.children n))
    (here : dom.Redrawn n ((base.template t).blueprint.restored base.dom n
      (dom.kind n)) between)
    (rest : Restored base pairs between later) :
    Restored base [(t, n)] dom later where
  others m unmatched := by
    have differs : m ≠ n := by
      rintro rfl
      exact unmatched _ (.head _) t (.root t m)
    have kept : later.node m = between.node m := by
      refine rest.others m fun pair member inner matched => ?_
      obtain ⟨element, among⟩ := (below pair).mp member
      exact unmatched _ (.head _) inner (.nested element among matched)
    exact kept.trans (here.others m differs)
  children m := by
    rw [rest.children]
    by_cases same : m = n
    · rw [same]
      exact here.children
    · exact congrArg Node.children (here.others m same)
  parents m := by
    rw [rest.parents]
    by_cases same : m = n
    · rw [same]
      exact here.parent?
    · exact congrArg Node.parent (here.others m same)
  kinds pair member inner m matched := by
    rw [List.mem_singleton.mp member] at matched
    cases matched with
    | root =>
        have kept : later.node n = between.node n := by
          refine rest.others n fun pair among inner matched => ?_
          have inside := (List.of_mem_zip ((below pair).mp among).2).2
          exact isTree.acyclic _ inside matched.inside
        rw [← here.kind]
        exact congrArg Node.kind kept
    | nested element among matched =>
        have differs : m ≠ n := by
          rintro rfl
          exact isTree.acyclic _ (List.of_mem_zip among).2 matched.inside
        rw [rest.kinds _ ((below _).mpr ⟨element, among⟩) inner m matched]
        exact congrArg _ (congrArg Node.kind (here.others m differs))
  size := Nat.le_trans here.size rest.size

end Restored

/-- Giving up a subscription changes no node. -/
theorem Revoker.dom_revoke (r : RevokerId) (world : World σ) :
    ((revoke r).after world).dom = world.dom := by
  rw [after_revoke]
  cases world.subscription? r with
  | none => rfl
  | some subscription =>
      obtain ⟨source, listener⟩ := subscription
      cases source <;> rfl

namespace Record

theorem dom_revokeBindings (bindings : List (List RevokerId))
    (world : World σ) :
    ((bindings.forM fun group => group.forM Revoker.revoke :
      Act σ Unit).after world).dom = world.dom := by
  have each (group : List RevokerId) (world : World σ) :
      ((group.forM Revoker.revoke : Act σ Unit).after world).dom =
        world.dom := by
    induction group generalizing world with
    | nil => rfl
    | cons r rest ih => exact (ih _).trans (Revoker.dom_revoke r world)
  induction bindings generalizing world with
  | nil => rfl
  | cons group rest ih => exact (ih _).trans (each group world)

private theorem redrawn_restoreAttributes {n : NodeId}
    {namespaceName tag : String}
    (saved : List SavedAttribute) {attributes : List Attribute}
    (element : world.dom.kind n = .element namespaceName tag attributes) :
    world.dom.Redrawn n (.element namespaceName tag
      (SavedAttribute.putBackAll saved attributes))
      ((saved.forM (restoreAttribute n) : Act σ Unit).after world).dom := by
  induction saved generalizing world attributes with
  | nil => exact .of_kind element
  | cons one rest ih =>
      have first : world.dom.Redrawn n (.element namespaceName tag
          (one.putBack attributes))
          ((restoreAttribute n one : Act σ Unit).after world).dom := by
        unfold restoreAttribute SavedAttribute.putBack
        rw [Act.after_modifyDom]
        cases one.value with
        | some value => exact .modifyAttributes element _
        | none => exact .modifyAttributes element _
      exact first.trans (ih first.kind)

private theorem restored_restoreEach {n : NodeId}
    {pairs : List (TemplateId × NodeId)}
    {records : List Record} {index : Nat}
    (each : List.Forall₂ (fun pair record => ∀ world : World σ,
      base.dom.SameFormBelow world.dom pair.2 →
        Restored base [pair] world.dom
          ((restore pair.2 record : Act σ Unit).after world).dom) pairs records)
    (apart : pairs.Pairwise fun one other => ∀ m, base.dom.Inside one.2 m →
      ¬base.dom.Inside other.2 m)
    (found : ∀ place pair, pairs[place]? = some pair →
      (world.dom.children n)[index + place]? = some pair.2)
    (form : ∀ pair ∈ pairs, base.dom.SameFormBelow world.dom pair.2) :
    Restored base pairs world.dom
      ((restoreEach n index records : Act σ Unit).after world).dom := by
  induction each generalizing world index with
  | nil => exact .nil world.dom
  | @cons pair record pairs records restores _ ih =>
      rw [List.pairwise_cons] at apart
      have here : (world.dom.children n)[index]? = some pair.2 :=
        found 0 pair rfl
      rw [after_restoreEach_cons, here]
      have first := restores world (form pair (.head _))
      refine first.cons (ih apart.2 (fun place other among => ?_)
        fun other among m inside => ?_) apart.1
      · rw [first.children, Nat.add_right_comm]
        exact found (place + 1) other among
      · have kept := first.node_eq fun within => apart.1 other among m within inside
        unfold Dom.children Dom.kind
        rw [kept]
        exact form other (.tail _ among) m inside

end Record

namespace Recorded

variable {t : TemplateId} {n : NodeId} {bindings : List (List RevokerId)}

/-- A text node is put back. -/
theorem restored_text {data : String} (isTree : base.dom.IsTree n)
    (text : (base.template t).blueprint.text.isSome = true)
    (kind : base.dom.kind n = .text data)
    (form : base.dom.SameFormBelow world.dom n) :
    Restored base [(t, n)] world.dom
      ((Record.restore n ⟨some data, [], bindings, []⟩ :
        Act σ Unit).after world).dom := by
  have shape := (form n (.here n)).2
  rw [kind] at shape
  obtain ⟨shown, found⟩ := NodeKind.eq_text_of_shape shape
  have written : world.dom.Redrawn n ((base.template t).blueprint.restored
      base.dom n (world.dom.kind n)) (world.dom.setText n data) := by
    unfold Dom.setText
    rw [found, Blueprint.restored, kind]
    exact .setKind world.dom n _
  rw [Record.restore, Act.after_bind, Act.after_modifyDom,
    Record.dom_revokeBindings]
  refine .root isTree (fun pair => ?_) written (.nil _)
  simp [Option.isSome_iff_ne_none.mp text]

private theorem restored_element {records : List Record}
    (linked : base.dom.IsLinked) (isTree : base.dom.IsTree n)
    (text : (base.template t).blueprint.text = none)
    (element : base.dom.isElement n = true)
    (counted : (base.template t).blueprint.nested.length =
      (base.dom.children n).length)
    (each : List.Forall₂ (fun pair record => ∀ world : World σ,
      base.dom.SameFormBelow world.dom pair.2 →
        Restored base [pair] world.dom
          ((record.restore pair.2 : Act σ Unit).after world).dom)
      ((base.template t).blueprint.nested.zip (base.dom.children n)) records)
    (form : base.dom.SameFormBelow world.dom n) :
    Restored base [(t, n)] world.dom
      ((Record.restore n ⟨none, (base.template t).blueprint.attributes.map
        (savedAttribute base.dom n), bindings, records⟩ :
          Act σ Unit).after world).dom := by
  obtain ⟨namespaceName, tag, attributes, kind⟩ := Dom.isElement_iff.mp element
  have shape := (form n (.here n)).2
  rw [kind] at shape
  obtain ⟨shown, found⟩ := NodeKind.eq_element_of_shape shape
  have isChild {pair : TemplateId × NodeId}
      (among : pair ∈ (base.template t).blueprint.nested.zip
        (base.dom.children n)) : pair.2 ∈ base.dom.children n :=
    (List.of_mem_zip among).2
  have apart : ((base.template t).blueprint.nested.zip
      (base.dom.children n)).Pairwise fun one other =>
        ∀ m, base.dom.Inside one.2 m → ¬base.dom.Inside other.2 m := by
    have distinct := isTree.nodup
    rw [← List.map_snd_zip (Nat.le_of_eq counted.symm)] at distinct
    refine (List.pairwise_map.mp distinct).imp_of_mem ?_
    intro one other first second differs m left right
    exact differs (linked.siblings isTree (isChild first) (isChild second)
      left right)
  rw [Record.restore, Act.after_bind]
  have quiet := Record.dom_revokeBindings bindings world
  generalize (bindings.forM fun group => group.forM Revoker.revoke :
    Act σ Unit).after world = revoked at quiet
  rw [← quiet] at form found ⊢
  have here := Record.redrawn_restoreAttributes
    ((base.template t).blueprint.attributes.map (savedAttribute base.dom n))
    found
  rw [Act.after_bind]
  refine .root isTree (fun pair => by simp [text]) ?_
    (Record.restored_restoreEach each apart (fun place pair among => ?_)
      fun pair among m inside => ?_)
  · rw [found, Blueprint.restored]
    exact here
  · rw [here.children, (form n (.here n)).1, Nat.zero_add]
    exact (List.getElem?_zip_eq_some.mp among).2
  · have differs : m ≠ n := by
      rintro rfl
      exact isTree.acyclic _ (isChild among) inside
    unfold Dom.children Dom.kind
    rw [here.others m differs]
    exact form m (.under (isChild among) inside)

/-- What `apply` has recorded puts back the nodes of the tree. -/
theorem restored {record : Record} (recorded : Recorded base t n record)
    (linked : base.dom.IsLinked) (isTree : base.dom.IsTree n)
    (fits : Graftable base t n)
    (form : base.dom.SameFormBelow world.dom n) :
    Restored base [(t, n)] world.dom
      ((record.restore n : Act σ Unit).after world).dom := by
  induction recorded generalizing world with
  | text text kind => exact restored_text isTree text kind form
  | @element t n bindings records text count _ ih =>
      obtain ⟨element, _, counted, nested⟩ :=
        (graftable_element_iff text).mp fits
      refine restored_element linked isTree text element counted
        (List.forall₂_iff_zip.mpr ⟨count, fun {pair record} member world => ?_⟩)
        form
      have among := (List.of_mem_zip member).1
      exact ih pair.1 pair.2 record member
        (isTree.child (List.of_mem_zip among).2) (nested pair.1 pair.2 among)

end Recorded

/-- The same but for the order of attributes. -/
inductive NodeKind.Rearranged : NodeKind → NodeKind → Prop where
  | element (namespaceName tag : String) {before later : List Attribute} :
      later.Perm before → Rearranged (.element namespaceName tag before)
        (.element namespaceName tag later)
  | text (data : String) : Rearranged (.text data) (.text data)
  | fragment : Rearranged .fragment .fragment

theorem NodeKind.Rearranged.refl (kind : NodeKind) : Rearranged kind kind := by
  cases kind with
  | element => exact .element _ _ (.refl _)
  | text data => exact .text data
  | fragment => exact .fragment

namespace Template

variable {t inner : TemplateId} {n m : NodeId}

/-- At every node of the template the attributes that were there before stand
in their order, those that are missing counted last. -/
def ComesBack (base : World σ) (t : TemplateId) (n : NodeId)
    (world : World σ) : Prop :=
  ∀ inner m, Matched base t n inner m →
    Attribute.ComeBack (base.template inner).blueprint.keys
      (base.dom.attributes m) (world.dom.attributes m)

theorem graftable_of_matched (fits : Graftable base t n)
    (matched : Matched base t n inner m) : Graftable base inner m := by
  induction matched with
  | root => exact fits
  | nested text member _ ih =>
      exact ih (((graftable_element_iff text).mp fits).2.2.2 _ _ member)

theorem hasProperSlots (fits : Graftable base t n) :
    HasProperSlots base t n := by
  rintro slot ⟨inner, m, matched, member⟩
  rw [node_of_mem_slots member]
  refine ⟨matched.inside, ?_⟩
  unfold Blueprint.slots at member
  split at member
  · rename_i text
    rw [List.mem_singleton.mp member]
    obtain ⟨schema, isText⟩ := Option.isSome_iff_exists.mp text
    exact ((graftable_text_iff isText).mp
      (graftable_of_matched fits matched)).2
  · obtain ⟨entry, _, among⟩ := List.mem_flatMap.mp member
    exact (covers_of_mem_entrySlots among).2.1 base.dom

/-- A node that a template is worked into is put back but for the order of its
attributes, and with their order exactly if they come back in it. -/
theorem rearranged_of_restored (linked : base.dom.IsLinked)
    (isTree : base.dom.IsTree n) (fits : Graftable base t n)
    (sound : base.HasSoundTemplates) (matched : Matched base t n inner m)
    (once : ((base.dom.attributes m).map Attribute.key).Nodup)
    (suits : (base.template inner).blueprint.Suits (base.dom.attributes m))
    {shown later : Dom} (tended : Dom.Tended (Owns base t n)
      (base.dom.Inside n) base.dom shown)
    (restored : Restored base [(t, n)] shown later) :
    (base.dom.kind m).Rearranged (later.kind m) ∧
      (later.kind m = base.dom.kind m ↔
        Attribute.ComeBack (base.template inner).blueprint.keys
          (base.dom.attributes m) (shown.attributes m)) := by
  have back := restored.kinds _ (.head _) inner m matched
  have form := (tended.form matched.inside).2
  cases graftable_of_matched fits matched with
  | text _ _ isText =>
      obtain ⟨data, kind⟩ := Dom.isText_iff.mp isText
      rw [kind] at form
      obtain ⟨current, found⟩ := NodeKind.eq_text_of_shape form
      rw [found, Blueprint.restored] at back
      rw [back]
      refine ⟨.refl _, iff_of_true rfl ?_⟩
      simp [Attribute.ComeBack, Dom.attributes, kind, found]
  | element _ isElement =>
      obtain ⟨namespaceName, tag, attributes, kind⟩ :=
        Dom.isElement_iff.mp isElement
      have listed : base.dom.attributes m = attributes := by
        rw [Dom.attributes, kind]
      have own (slot : Slot) (owns : Owns base t n slot) (here : slot.node = m) :
          slot ∈ (base.template inner).blueprint.slots m := by
        obtain ⟨other, node, among, member⟩ := owns
        rw [node_of_mem_slots member] at here
        subst here
        rw [matched.unique linked isTree among]
        exact member
      obtain ⟨current, found, confined, _⟩ := tended.element
        (sound inner).named matched.inside own kind (listed ▸ suits)
      have undo := Blueprint.undo_savedAttribute (sound inner).named suits once
        (listed ▸ confined)
      have perm := undo.perm
      have exact_condition := undo.eq_iff
      rw [Blueprint.map_key_savedAttribute] at exact_condition
      rw [found, Blueprint.restored] at back
      have now : shown.attributes m = current := by
        rw [Dom.attributes, found]
      rw [listed] at perm exact_condition ⊢
      rw [back, kind, now, ← exact_condition]
      exact ⟨.element namespaceName tag perm, by simp⟩

/-- So is any node of the tree; those without a template stay as they are. -/
theorem rearranged_inside (linked : base.dom.IsLinked)
    (isTree : base.dom.IsTree n) (fits : Graftable base t n)
    (sound : base.HasSoundTemplates) (inside : base.dom.Inside n m)
    (once : ((base.dom.attributes m).map Attribute.key).Nodup)
    (suits : ∀ inner, Matched base t n inner m →
      (base.template inner).blueprint.Suits (base.dom.attributes m))
    {shown later : Dom} (tended : Dom.Tended (Owns base t n)
      (base.dom.Inside n) base.dom shown)
    (restored : Restored base [(t, n)] shown later) :
    (base.dom.kind m).Rearranged (later.kind m) ∧
      (later.kind m = base.dom.kind m ↔ ∀ inner, Matched base t n inner m →
        Attribute.ComeBack (base.template inner).blueprint.keys
          (base.dom.attributes m) (shown.attributes m)) := by
  by_cases found : ∃ inner, Matched base t n inner m
  · obtain ⟨inner, matched⟩ := found
    obtain ⟨rearranged, condition⟩ := rearranged_of_restored linked isTree fits
      sound matched once (suits inner matched) tended restored
    refine ⟨rearranged, condition.trans ⟨fun back other also => ?_,
      fun back => back inner matched⟩⟩
    rw [← matched.unique linked isTree also]
    exact back
  · have none := not_exists.mp found
    have apart (slot : Slot) (owns : Owns base t n slot) : slot.node ≠ m := by
      obtain ⟨inner, node, matched, member⟩ := owns
      rw [node_of_mem_slots member]
      rintro rfl
      exact none inner matched
    have kept : later.node m = shown.node m :=
      restored.others m fun pair member inner => by
        rw [List.mem_singleton.mp member]
        exact none inner
    have same : later.kind m = base.dom.kind m :=
      congrArg Node.kind (kept.trans (tended.node_eq inside apart))
    rw [same]
    exact ⟨.refl _, iff_of_true rfl fun inner matched =>
      absurd matched (none inner)⟩

theorem graftable_of_apply_ok (sound : base.HasSoundTemplates)
    (applied : (apply host t n).result base = .ok m) : Graftable base t n := by
  have runs := run_apply host t n base
  unfold Act.result at applied
  rw [runs] at applied
  split at applied
  · cases applied
  cases checked : checkApply base t n with
  | error error =>
      rw [checked] at applied
      cases applied
  | ok => exact (checkApply_ok_iff sound).mp checked

theorem blueprint_apply (sound : base.HasSoundTemplates)
    (isPure : IsPure host base t n)
    (applied : (apply host t n).result base = .ok m) (inner : TemplateId) :
    (((apply host t n).after base).template inner).blueprint =
      (base.template inner).blueprint := by
  obtain ⟨record, _, _, ended⟩ := apply_ok applied
  obtain ⟨_, _, grafted⟩ :=
    grafted_applyPass sound (graftable_of_apply_ok sound applied) isPure
  have kept := (sameSetup_update t (fun template =>
    { template with applied := some (n, record) }) (fun _ => rfl)
      ((applyPass host t n).after base)).blueprints inner
  rw [ended, kept, World.template, grafted.fills.templates, World.template]

private theorem presides_apply (sound : base.HasSoundTemplates)
    (isPure : IsPure host base t n)
    (applied : (apply host t n).result base = .ok m)
    {other : Reaction → Prop}
    (others : ∀ o, ∀ listener ∈ (base.reactionsOf o).entries,
      other listener.action) :
    ∃ record, (∀ nodes, base.dom.Spans n nodes → nodes.Nodup →
        Recorded base t n record) ∧
      Presides host base t n (n, record) other
        ((apply host t n).after base) := by
  obtain ⟨record, node, passed, ended⟩ := apply_ok applied
  obtain ⟨same, outcome, grafted⟩ :=
    grafted_applyPass sound (graftable_of_apply_ok sound applied) isPure
  rw [passed] at outcome
  cases outcome
  refine ⟨record, grafted.recorded, ?_⟩
  rw [ended]
  refine ⟨.of_written grafted.fills.written, by rw [template_update],
    fun o listener member => ?_⟩
  rcases grafted.fills.installed o listener member with old | new
  · exact .inl (others o listener old)
  · exact .inr new

/-- In a world that can be reached, a template with pure bindings is applied to
a tree, any number of properties is set, and the template is reverted, while
nobody else writes to the tree.  Every node of the tree is then as before but
for the order of its attributes.  The tree is exactly as before, and so is its
markup, if and only if the attributes come back in their order. -/
theorem revert_restores_iff {client : σ} {before : World σ}
    (begun : Run (World.initial client) before)
    (linked : before.dom.IsLinked) (isTree : before.dom.IsTree n)
    (isPure : IsPure host before t n)
    (once : ∀ m, before.dom.Inside n m →
      ((before.dom.attributes m).map Attribute.key).Nodup)
    (suits : ∀ inner m, Matched before t n inner m →
      (before.template inner).blueprint.Suits (before.dom.attributes m))
    (applied : ∃ m, (apply host t n).result before = .ok m)
    {other : Reaction → Prop}
    (others : ∀ o, ∀ listener ∈ (before.reactionsOf o).entries,
      other listener.action)
    (alone : ∀ entry, LeavesAlone host before t n entry other)
    (sets : List (ObservableId × String × Value)) :
    let after := (apply host t n).after before
    let world := (sets.forM fun change => Observable.set host change.1
      change.2.1 change.2.2 : Act σ Unit).after after
    let later := (revert t n : Act σ _).after world
    (revert t n : Act σ _).result world = .ok () ∧
      (∀ m, before.dom.Inside n m →
        later.dom.children m = before.dom.children m ∧
          (before.dom.kind m).Rearranged (later.dom.kind m)) ∧
      ((∀ m, before.dom.Inside n m →
        later.dom.kind m = before.dom.kind m) ↔
          ComesBack before t n world) ∧
      (ComesBack before t n world →
        later.dom.outerHtml n = before.dom.outerHtml n) := by
  intro after world later
  have sound := (begun.progress (World.ordered_initial client)).1.sound
  obtain ⟨result, applied⟩ := applied
  have fits := graftable_of_apply_ok sound applied
  obtain ⟨record, recorded, presides⟩ :=
    presides_apply sound isPure applied others
  -- Sets write to what the template covers only, so the record still tells all.
  have presides : Presides host before t n (n, record) other world :=
    presides.sets (alone _) (hasProperSlots fits) sets
  have reverts : (revert t n : Act σ _).result world = .ok () :=
    revert_of_applied presides.applied
  obtain ⟨kept, stored, ended⟩ := revert_ok reverts
  rw [presides.applied] at stored
  cases stored
  obtain ⟨nodes, spans, distinct, _⟩ := isTree.spans linked
  have form : before.dom.SameFormBelow ((update t fun template =>
      { template with applied := none }).after world).dom n :=
    fun m inside => presides.dom.form inside
  have restored : Restored before [(t, n)] world.dom later.dom := by
    change later = _ at ended
    rw [ended]
    exact (recorded nodes spans distinct).restored linked isTree fits form
  have each (m : NodeId) (inside : before.dom.Inside n m) :=
    rearranged_inside linked isTree fits sound inside (once m inside)
      (fun inner => suits inner m) presides.dom restored
  have children (m : NodeId) (inside : before.dom.Inside n m) :
      later.dom.children m = before.dom.children m :=
    (restored.children m).trans (presides.dom.form inside).1
  have same : (∀ m, before.dom.Inside n m →
      later.dom.kind m = before.dom.kind m) ↔ ComesBack before t n world :=
    ⟨fun kinds inner m matched => (each m matched.inside).2.mp
        (kinds m matched.inside) inner matched,
      fun back m inside => (each m inside).2.mpr fun inner => back inner m⟩
  refine ⟨reverts, fun m inside => ⟨children m inside, (each m inside).1⟩, same,
    fun back => ?_⟩
  have below : before.dom.SameBelow later.dom n := fun m inside =>
    ⟨same.mpr back m inside, children m inside⟩
  exact congrArg Tree.markup (below.tree_eq isTree
    (Nat.le_trans presides.dom.size restored.size))

namespace Sheet

def shows (property : String) : Schema :=
  [.bound ⟨⟨0⟩, ⟨0⟩, property, .value, some ⟨0⟩⟩]

/-- An element whose last attribute is the title, with a text in it.  The
template has a title as well, but no value for it. -/
def plain : World Unit :=
  { World.initial () with
    dom := ⟨⟨#[⟨.element "html" "p" [⟨none, "class", "c"⟩,
        ⟨none, "style", "margin: 0"⟩, ⟨none, "title", "a"⟩], none, [⟨1⟩]⟩,
      ⟨.text "old", some ⟨0⟩, []⟩]⟩⟩
    properties := ⟨#[[("x", .text "b")]]⟩
    emitters := ⟨#[⟨[], []⟩]⟩
    templates := ⟨#[⟨.ofText (shows "x"), false, none⟩,
      ⟨⟨none, none, none, [("title", shows "y"), ("class", shows "x"),
        ("style", [.styles [("color", shows "x")]])], [], [.template ⟨0⟩]⟩,
        false, none⟩]⟩ }

/-- Somebody else listens to the property as well. -/
def start : World Unit :=
  (Observable.subscribe ⟨0⟩ "change:x" (.call ⟨0⟩)).after plain

theorem begun : Run (World.initial ()) plain := by
  refine .aside rfl rfl rfl ⟨?_, ?_⟩
  · rintro ⟨index⟩ entry kept
    rcases index with _ | _ | index <;> cases kept
  · rintro _ ⟨index⟩
    rcases index with _ | _ | index
    · exact ⟨.nil, fun _ member => absurd member List.not_mem_nil⟩
    · refine ⟨by decide, fun t member => ?_⟩
      cases List.mem_singleton.mp member
      exact Nat.one_pos
    · exact .none _

theorem reached : Run (World.initial ()) start := by
  exact begun.trans (.subscribe plain ⟨0⟩ "change:x" (.call ⟨0⟩))

theorem linked : start.dom.IsLinked := by
  rintro ⟨parent⟩ ⟨child⟩
  rcases parent with _ | _ | parent <;> rcases child with _ | _ | child <;>
    simp [start, plain, Observable.subscribe, Observable.modifyReactions,
      Dom.children, Dom.parent?, Dom.node, Store.get, default]

theorem isTree : start.dom.IsTree ⟨0⟩ := by
  refine .node (by decide) (by decide) fun child member => ?_
  cases List.mem_singleton.mp member
  exact .node (by decide) (by decide) fun _ member =>
    absurd member List.not_mem_nil

theorem isPure : IsPure Card.client start ⟨1⟩ ⟨0⟩ := by
  intro _ _ _
  exact .of_bindings fun _ _ _ _ _ _ => rfl

theorem matched_cases {inner : TemplateId} {m : NodeId}
    (matched : Matched start ⟨1⟩ ⟨0⟩ inner m) :
    (inner, m) = (⟨1⟩, ⟨0⟩) ∨ (inner, m) = (⟨0⟩, ⟨1⟩) := by
  cases matched with
  | root => exact .inl rfl
  | nested _ member matched =>
      cases List.mem_singleton.mp member
      cases matched with
      | root => exact .inr rfl
      | nested text => cases text

theorem alone (entry : NodeId × Record) :
    LeavesAlone Card.client start ⟨1⟩ ⟨0⟩ entry (· = .call ⟨0⟩) := by
  rintro _ rfl notice world presides
  exact presides

theorem others (o : ObservableId) :
    ∀ listener ∈ (start.reactionsOf o).entries, listener.action = .call ⟨0⟩ := by
  obtain ⟨index⟩ := o
  cases index with
  | zero =>
      intro listener member
      cases List.mem_singleton.mp member
      rfl
  | succ index => exact fun _ member => by cases member

theorem once (m : NodeId) :
    ((start.dom.attributes m).map Attribute.key).Nodup := by
  obtain ⟨index⟩ := m
  rcases index with _ | _ | index
  · decide
  · exact .nil
  · exact .nil

theorem plainStyle (m : NodeId) :
    Attribute.HasPlainStyle (start.dom.attributes m) := by
  have scopes : ((start.dom.attributes m).all (·.namespaceName.isNone)) =
      true := by
    obtain ⟨index⟩ := m
    rcases index with _ | _ | index <;> rfl
  intro entry member _
  exact Option.isNone_iff_eq_none.mp (List.all_eq_true.mp scopes entry member)

def sets : List (ObservableId × String × Value) := [(⟨0⟩, "x", .text "d")]

/-- The world in which the property has been set. -/
def changed : World Unit :=
  (sets.forM fun change => Observable.set Card.client change.1 change.2.1
    change.2.2 : Act Unit Unit).after ((apply Card.client ⟨1⟩ ⟨0⟩).after start)

theorem comesBack : ComesBack start ⟨1⟩ ⟨0⟩ changed := by
  intro inner m matched
  rcases matched_cases matched with same | same
  · cases same
    decide +kernel
  · cases same
    decide +kernel

end Sheet

/-- The title is missing while the template is in force, and comes back where
it was. -/
theorem revert_restores_sheet :
    let later := (revert ⟨1⟩ ⟨0⟩ : Act Unit _).after Sheet.changed
    (revert ⟨1⟩ ⟨0⟩ : Act Unit _).result Sheet.changed = .ok () ∧
      Sheet.changed.dom.outerHtml ⟨0⟩ =
        "<p class=\"c d\" style=\"margin: 0; color: d;\">d</p>" ∧
      later.dom.outerHtml ⟨0⟩ = Sheet.start.dom.outerHtml ⟨0⟩ := by
  have applied : (apply Card.client ⟨1⟩ ⟨0⟩).result Sheet.start = .ok ⟨0⟩ := by
    decide +kernel
  obtain ⟨reverted, _, _, back⟩ := revert_restores_iff Sheet.reached
    Sheet.linked Sheet.isTree Sheet.isPure (fun m _ => Sheet.once m)
    (fun _ m _ _ _ _ => Sheet.plainStyle m) ⟨_, applied⟩ Sheet.others
    Sheet.alone Sheet.sets
  exact ⟨reverted, by decide +kernel, back Sheet.comesBack⟩

namespace Shift

/-- An element whose title is not the last attribute, and a template that has
no value for the title. -/
def start : World Unit :=
  { World.initial () with
    dom := ⟨⟨#[⟨.element "html" "p"
      [⟨none, "title", "a"⟩, ⟨none, "id", "b"⟩], none, []⟩]⟩⟩
    properties := ⟨#[[]]⟩
    emitters := ⟨#[⟨[], []⟩]⟩
    templates := ⟨#[⟨⟨none, none, none,
      [("title", [.bound ⟨⟨0⟩, ⟨0⟩, "x", .value, none⟩])], [], []⟩, false,
        none⟩]⟩ }

theorem reached : Run (World.initial ()) start := by
  refine .aside rfl rfl rfl ⟨?_, ?_⟩
  · rintro ⟨index⟩ entry kept
    cases index <;> cases kept
  · rintro _ ⟨index⟩
    cases index with
    | zero => exact ⟨by decide, fun _ member => absurd member List.not_mem_nil⟩
    | succ index => exact .none _

def applied : World Unit := (apply Card.client ⟨0⟩ ⟨0⟩).after start

end Shift

/-- An attribute that is missing before the template is reverted comes back
behind the others. -/
theorem revert_moves_title :
    let later := (revert ⟨0⟩ ⟨0⟩ : Act Unit _).after Shift.applied
    Run (World.initial ()) Shift.start ∧
      (apply Card.client ⟨0⟩ ⟨0⟩).result Shift.start = .ok ⟨0⟩ ∧
      (revert ⟨0⟩ ⟨0⟩ : Act Unit _).result Shift.applied = .ok () ∧
      Shift.start.dom.outerHtml ⟨0⟩ = "<p title=\"a\" id=\"b\"></p>" ∧
      later.dom.outerHtml ⟨0⟩ = "<p id=\"b\" title=\"a\"></p>" ∧
      later.dom.attributes ⟨0⟩ ≠ Shift.start.dom.attributes ⟨0⟩ := by
  refine ⟨Shift.reached, ?_, ?_, ?_, ?_, ?_⟩ <;> decide +kernel

end Template

end LiveTemplate
