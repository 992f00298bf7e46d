import LiveTemplate.Proofs.Joining
import LiveTemplate.Proofs.Restoring
import LiveTemplate.Proofs.Skeletons

/-!
# Templates over attributes that are there

Worked into a node that has attributes, an attribute of a definition comes to
what is kept of its present value and to the truthy values of its schema, next
to each other.  The values are those seen while the template is worked in; only
what nodes of the tree show may have changed by then.
-/

namespace LiveTemplate

variable {σ : Type} {host : Host σ} {base world : World σ} {record : Record}
  {n : NodeId}

/-- What is kept of a present value. -/
def keptChunks (name : String) (current : Option String) : List Chunk :=
  match current with
  | some text =>
      if Blueprint.isExtendable name then
        [.fixed (.text (Blueprint.keptText name text))]
      else []
  | none => []

/-- The texts that an attribute comes to: what is kept of the present one, and
the truthy values of its schema. -/
def overlaidTexts (host : Host σ) (seen : World σ) (n : NodeId)
    (name : String) (schema : Schema) (current : Option String) :
    List String :=
  (truthyValues host seen n (keptChunks name current)).map Value.domString ++
    (truthyValues host seen n schema).map Value.domString

/-- What an attribute comes to.  A schema without bindings that comes to nothing
leaves it alone. -/
def overlaid (host : Host σ) (seen : World σ) (n : NodeId) (name : String)
    (schema : Schema) (current : Option String) : Option String :=
  if overlaidTexts host seen n name schema current ≠ [] then
    some (spaced (overlaidTexts host seen n name schema current))
  else if (flattenChunks schema).any Chunk.isBound then none
  else current

/-- Of an attribute that can be extended the present value is kept, as it is
closed, if there is any. -/
theorem overlaidTexts_extendable {name : String}
    (extendable : Blueprint.isExtendable name = true) (seen : World σ)
    (schema : Schema) (current : Option String) :
    overlaidTexts host seen n name schema current =
      ((current.map (Blueprint.keptText name)).toList ++
        (truthyValues host seen n schema).map Value.domString).filter
          (· ≠ "") := by
  have values : ((truthyValues host seen n schema).map Value.domString).filter
      (· ≠ "") = (truthyValues host seen n schema).map Value.domString := by
    refine List.filter_eq_self.mpr fun text member => ?_
    simpa using Value.domStrings_ne_empty (areTruthy_filter _) text member
  rw [overlaidTexts, List.filter_append, values]
  congr 1
  cases current with
  | none => rfl
  | some text =>
      by_cases empty : Blueprint.keptText name text = "" <;>
        simp [keptChunks, extendable, truthyValues, valuesAny, Chunk.values,
          empty, List.filter_cons, Value.isTruthy, Value.isFalsy,
          Value.domString]

theorem findNs?_drawIn {seen : World σ} {chunks : List Chunk}
    (isPure : ∀ binding ∈ inputsAny chunks, binding.IsPure host)
    (namespaceName : Option String) (name : String)
    (attributes : List Attribute) :
    Attribute.findNs?
        ((Slot.attr n namespaceName name).drawIn chunks
          ((evaluate host n chunks).result seen) attributes)
        namespaceName name =
      if (truthyValues host seen n chunks).map Value.domString ≠ [] then
        some (spaced ((truthyValues host seen n chunks).map Value.domString))
      else if chunks.any Chunk.isBound then none
      else Attribute.findNs? attributes namespaceName name := by
  have same : ((evaluate host n chunks).result seen).Matches
      (Value.joined (truthyValues host seen n chunks)) :=
    matches_evaluate isPure
  have truthy : Value.AreTruthy (truthyValues host seen n chunks) :=
    areTruthy_filter _
  have falsy := same.isFalsy_eq.trans (Value.isFalsy_joined truthy)
  unfold Slot.drawIn Slot.displayIn Value.isTruthy
  by_cases none : truthyValues host seen n chunks = []
  · rw [none] at falsy ⊢
    rw [falsy]
    cases chunks.any Chunk.isBound <;> simp
  · have some : (truthyValues host seen n chunks).isEmpty = false := by
      simpa using none
    rw [some] at falsy
    have shown := same.eq_of_truthy
      (by rw [Value.isTruthy, Value.isFalsy_joined truthy, some]; rfl)
    rw [falsy, shown, Value.domString_joined none]
    simp [none]

theorem texts_keptChunks (seen : World σ) (name : String) (schema : Schema)
    (current : Option String) :
    (truthyValues host seen n
        (keptChunks name current ++ flattenChunks schema)).map
      Value.domString = overlaidTexts host seen n name schema current := by
  rw [truthyValues, valuesAny_append, List.filter_append, List.map_append,
    valuesAny_flattenChunks]
  rfl

private theorem any_isBound_keptChunks (name : String)
    (current : Option String) :
    (keptChunks name current).any Chunk.isBound = false := by
  unfold keptChunks
  split
  · split <;> rfl
  · rfl

/-- An attribute of a definition was worked in among attributes. -/
structure Overlays (host : Host σ) (seen : World σ) (n : NodeId)
    (entry : String × Schema) (attributes later : List Attribute) : Prop where
  confined : Attribute.Confined (·.2 = entry.1) attributes later
  shown : entryStyles? entry.1 entry.2 = none →
    Attribute.findNs? later (Schema.namespace? entry.2) entry.1 =
      overlaid host seen n entry.1 entry.2
        (Attribute.findNs? attributes (Schema.namespace? entry.2) entry.1)

theorem attributeNs?_of_element {dom : Dom} {namespaceName tag : String}
    {attributes : List Attribute}
    (element : dom.kind n = .element namespaceName tag attributes)
    (scope : Option String) (name : String) :
    dom.attributeNs? n scope name = Attribute.findNs? attributes scope name := by
  simp only [Dom.attributeNs?, Dom.attributes, element]

/-- An attribute of a node came to what it comes to over its former value, as
it was seen in some moment. -/
def Overlies (host : Host σ) (moment : World σ → Prop) (before after : Dom)
    (n : NodeId) (entry : String × Schema) : Prop :=
  entryStyles? entry.1 entry.2 = none → ∃ seen, moment seen ∧
    after.attributeNs? n (Schema.namespace? entry.2) entry.1 =
      overlaid host seen n entry.1 entry.2
        (before.attributeNs? n (Schema.namespace? entry.2) entry.1)

namespace Overlies

variable {moment wider : World σ → Prop} {before other after later : Dom}
  {entry : String × Schema}

theorem mono (overlies : Overlies host moment before after n entry)
    (implies : ∀ seen, moment seen → wider seen) :
    Overlies host wider before after n entry := by
  intro plain
  obtain ⟨seen, here, shown⟩ := overlies plain
  exact ⟨seen, implies seen here, shown⟩

theorem of_kinds (overlies : Overlies host moment before after n entry)
    (former : other.kind n = before.kind n)
    (present : later.kind n = after.kind n) :
    Overlies host moment other later n entry := by
  unfold Overlies Dom.attributeNs? Dom.attributes at overlies ⊢
  rw [former, present]
  exact overlies

end Overlies

section Element

variable {blueprint : Blueprint} {namespaceName tag : String}
  {attributes : List Attribute}

namespace Blueprint

private theorem overlays_renderAttribute {name : String} {schema : Schema}
    (isPure : Schema.IsPure host schema)
    (element : world.dom.kind n = .element namespaceName tag attributes) :
    (renderAttribute host n true name schema).Ensures record world
      fun _ later => ∃ changed requests,
        world.Draws n (.element namespaceName tag changed) requests later ∧
          Overlays host world n (name, schema) attributes changed := by
  have present := attributeNs?_of_element element schema.namespace? name
  have inputs : ∀ binding ∈ inputsAny
      (keptChunks name (world.dom.attributeNs? n schema.namespace? name) ++
        flattenChunks schema), binding.IsPure host :=
    (isPure_kept isPure _ _ _).inputs
  have drawn (record : Record) : (renderSlot host (.attr n schema.namespace? name)
      (keptChunks name (world.dom.attributeNs? n schema.namespace? name) ++
        flattenChunks schema)).Ensures record world fun _ later =>
      world.Draws n _ _ later :=
    draws_slot trivial inputs element
  unfold renderAttribute
  refine .act_bind (.note_bind ((drawn _).weaken fun _ later draws => ?_))
  refine ⟨_, _, draws, ?_, fun _ => ?_⟩
  · exact (Slot.confined_drawIn _ _ _ attributes).mono
      fun key covers => congrArg Prod.snd covers
  · rw [Slot.node, findNs?_drawIn inputs, texts_keptChunks, List.any_append,
      any_isBound_keptChunks, Bool.false_or, present]
    rfl

private theorem overlays_renderStyles {styles : StyleMap}
    (isPure : ∀ style ∈ styles, Schema.IsPure host style.2)
    (element : world.dom.kind n = .element namespaceName tag attributes) :
    (renderStyles host n styles).Ensures record world
      fun _ later => ∃ changed requests,
        world.Draws n (.element namespaceName tag changed) requests later ∧
          Attribute.Confined (·.2 = "style") attributes changed := by
  unfold renderStyles
  induction styles generalizing record world attributes with
  | nil => exact .pure ⟨_, _, .refl element, .refl _⟩
  | cons style rest ih =>
      have first : (renderSlot host (.style n style.1)
          (flattenChunks style.2)).Ensures record world fun _ later =>
            world.Draws n _ _ later :=
        draws_slot trivial (isPure style (.head _)).flatten.inputs element
      refine first.bind fun _ _ between drawn => ?_
      refine (ih (fun other member => isPure other (.tail _ member))
        drawn.dom.kind).weaken ?_
      rintro _ later ⟨changed, requests, draws, confined⟩
      exact ⟨changed, _, drawn.trans draws,
        (Slot.confined_drawIn (.style n style.1) _ _ attributes).trans confined⟩

private theorem overlays_renderEntry {name : String} {schema : Schema}
    (isPure : Schema.IsPure host schema)
    (element : world.dom.kind n = .element namespaceName tag attributes) :
    (renderEntry host blueprint n true name schema).Ensures record world
      fun _ later => ∃ changed requests,
        world.Draws n (.element namespaceName tag changed) requests later ∧
          Overlays host world n (name, schema) attributes changed := by
  unfold renderEntry
  cases found : entryStyles? name schema with
  | none => exact overlays_renderAttribute isPure element
  | some outcome =>
      obtain ⟨rfl, map⟩ := eq_style_of_entryStyles? found
      cases outcome with
      | error fault => exact .throw
      | ok styles =>
          refine .act_bind (.note_bind ((overlays_renderStyles
            (fun style member => isPure.styleMap map member)
              element).weaken ?_))
          rintro _ later ⟨changed, requests, draws, confined⟩
          refine ⟨changed, requests, draws, confined, fun plain => ?_⟩
          rw [found] at plain
          cases plain

/-- Attributes of different names are worked in one after the other. -/
theorem overlays_renderAttributes
    (named : (blueprint.attributes.map (·.1)).Nodup)
    (isPure : ∀ entry ∈ blueprint.attributes, Schema.IsPure host entry.2)
    (element : world.dom.kind n = .element namespaceName tag attributes) :
    (renderAttributes host blueprint n true).Ensures record world
      fun _ later => ∃ changed requests,
        world.Draws n (.element namespaceName tag changed) requests later ∧
          Attribute.Confined (·.2 ∈ blueprint.attributes.map (·.1)) attributes
            changed ∧
          ∀ entry ∈ blueprint.attributes,
            Overlies host (fun seen => ∃ drawn asked,
              world.Draws n (.element namespaceName tag drawn) asked seen)
              world.dom later.dom n entry := by
  unfold renderAttributes
  generalize blueprint.attributes = entries at named isPure
  induction entries generalizing record world attributes with
  | nil => exact .pure ⟨_, _, .refl element, .refl _, nofun⟩
  | cons entry rest ih =>
      rw [List.map_cons, List.nodup_cons] at named
      refine (overlays_renderEntry (isPure entry (.head _)) element).bind ?_
      rintro _ _ between ⟨first, asked, drawn, overlays⟩
      refine (ih drawn.dom.kind named.2
        fun other member => isPure other (.tail _ member)).weaken ?_
      rintro _ later ⟨changed, requests, draws, confined, each⟩
      refine ⟨changed, _, drawn.trans draws, ?_, fun other member => ?_⟩
      · exact (overlays.confined.mono fun key same => same ▸ .head _).trans
          (confined.mono fun key covers => .tail _ covers)
      · obtain _ | ⟨_, member⟩ := member
        · intro plain
          refine ⟨world, ⟨_, _, .refl element⟩, ?_⟩
          rw [attributeNs?_of_element draws.dom.kind,
            attributeNs?_of_element element, confined.findNs?_eq named.1]
          exact overlays.shown plain
        · intro plain
          obtain ⟨seen, ⟨_, heard, moment⟩, shown⟩ := each other member plain
          refine ⟨seen, ⟨_, _, drawn.trans moment⟩, shown.trans ?_⟩
          have differs : other.1 ≠ entry.1 := fun same =>
            named.1 (same ▸ List.mem_map_of_mem member)
          rw [attributeNs?_of_element drawn.dom.kind,
            attributeNs?_of_element element,
            overlays.confined.findNs?_eq differs]

theorem overlays_renderText (isPure : blueprint.IsPure host) {data : String}
    (isText : world.dom.kind n = .text data) :
    (blueprint.renderText host (some n)).Ensures record world fun _ later =>
      ∃ shown requests, world.Draws n (.text shown) requests later := by
  unfold renderText
  exact .act_bind (.note_bind ((draws_showText_of_pure isPure.flatText
    isText).weaken fun _ _ drawn => ⟨_, _, drawn.2⟩))

end Blueprint

end Element

/-- Templates with pure bindings that fit trees which are apart from each other
and inside one tree. -/
structure World.Receives (host : Host σ) (base : World σ) (root : NodeId)
    (pairs : List (TemplateId × NodeId)) : Prop where
  fits : ∀ pair ∈ pairs, Graftable base pair.1 pair.2
  isPure : ∀ pair ∈ pairs, Template.IsPure host base pair.1 pair.2
  trees : ∀ pair ∈ pairs, base.dom.IsTree pair.2
  inside : ∀ pair ∈ pairs, base.dom.Inside root pair.2
  apart : (pairs.map (·.2)).Pairwise fun one other =>
    ∀ inner, base.dom.Inside one inner → ¬base.dom.Inside other inner

/-- A moment while templates are worked into a tree, as it is at one of the
nodes. -/
structure World.Meanwhile (base : World σ) (root n : NodeId) (seen : World σ) :
    Prop where
  redresses : base.Redresses (base.dom.Inside root) seen
  tag? : seen.dom.tag? n = base.dom.tag? n

/-- Templates were worked into nodes of a tree.  Each attribute came to what it
comes to over the one that was there in the beginning. -/
structure Overlaid (host : Host σ) (base : World σ) (root : NodeId)
    (pairs : List (TemplateId × NodeId)) (world later : World σ) : Prop where
  redresses : world.Redresses (base.dom.Within (pairs.map (·.2))) later
  shown : ∀ pair ∈ pairs, ∀ inner m, Matched base pair.1 pair.2 inner m →
    (base.template inner).blueprint.text = none →
      ∀ entry ∈ (base.template inner).blueprint.attributes,
        Overlies host (base.Meanwhile root m) base.dom later.dom m entry

namespace World.Receives

variable {root : NodeId} {pair : TemplateId × NodeId}
  {rest : List (TemplateId × NodeId)} {t : TemplateId}

theorem head (receives : base.Receives host root (pair :: rest)) :
    base.Receives host root [pair] := by
  refine ⟨?_, ?_, ?_, ?_, List.pairwise_singleton _ _⟩ <;>
    intro other member <;> rw [List.mem_singleton.mp member]
  · exact receives.fits pair (.head _)
  · exact receives.isPure pair (.head _)
  · exact receives.trees pair (.head _)
  · exact receives.inside pair (.head _)

theorem tail (receives : base.Receives host root (pair :: rest)) :
    base.Receives host root rest where
  fits other member := receives.fits other (.tail _ member)
  isPure other member := receives.isPure other (.tail _ member)
  trees other member := receives.trees other (.tail _ member)
  inside other member := receives.inside other (.tail _ member)
  apart := (List.pairwise_cons.mp receives.apart).2

theorem within {pairs : List (TemplateId × NodeId)}
    (receives : base.Receives host root pairs) {inner : NodeId}
    (within : base.dom.Within (pairs.map (·.2)) inner) :
    base.dom.Inside root inner := by
  obtain ⟨n, member, inside⟩ := within
  obtain ⟨pair, among, rfl⟩ := List.mem_map.mp member
  exact (receives.inside pair among).trans inside

theorem children (linked : base.dom.IsLinked)
    (receives : base.Receives host root [(t, n)])
    (isElement : (base.template t).blueprint.text = none) :
    base.Receives host root
      ((base.template t).blueprint.nested.zip (base.dom.children n)) := by
  have isTree := receives.trees _ (.head _)
  have fits := (graftable_element_iff isElement).mp
    (receives.fits (t, n) (.head _))
  have child (pair) (member : pair ∈ (base.template t).blueprint.nested.zip
      (base.dom.children n)) : pair.2 ∈ base.dom.children n :=
    (List.of_mem_zip member).2
  refine ⟨fun pair => fits.2.2.2 pair.1 pair.2, ?_, ?_, ?_, ?_⟩
  · intro pair member inner m matched
    exact receives.isPure (t, n) (.head _) inner m
      (.nested isElement member matched)
  · exact fun pair member => isTree.child (child pair member)
  · exact fun pair member => (receives.inside (t, n) (.head _)).trans
      (.child (child pair member))
  · rw [List.map_snd_zip (Nat.le_of_eq fits.2.2.1.symm)]
    refine isTree.nodup.imp_of_mem fun first second differs inner left right => ?_
    exact differs (linked.siblings isTree first second left right)

end World.Receives

namespace Overlaid

variable {root : NodeId} {pair : TemplateId × NodeId}
  {rest : List (TemplateId × NodeId)} {between later : World σ}

theorem cons (first : Overlaid host base root [pair] world between)
    (second : Overlaid host base root rest between later)
    (reached : base.Redresses (base.dom.Inside root) between)
    (receives : base.Receives host root (pair :: rest)) :
    Overlaid host base root (pair :: rest) world later where
  redresses := by
    refine (first.redresses.mono fun inner => ?_).trans
      (second.redresses.mono fun inner => ?_)
    · rintro ⟨other, member, inside⟩
      exact ⟨other, List.mem_cons.mpr (.inl (List.mem_singleton.mp member)),
        inside⟩
    · rintro ⟨other, member, inside⟩
      exact ⟨other, .tail _ member, inside⟩
  shown other member inner m matched isElement entry among := by
    obtain _ | ⟨_, member⟩ := member
    · have overlies := first.shown pair (.head _) inner m matched isElement
        entry among
      refine overlies.of_kinds rfl (congrArg Node.kind ?_)
      refine second.redresses.spares.nodes m ?_ ?_
      · exact Nat.lt_of_lt_of_le
          ((receives.trees pair (.head _)).inside matched.inside).there
          reached.spares.size
      · rintro ⟨other, member, inside⟩
        exact (List.pairwise_cons.mp receives.apart).1 other member m
          matched.inside inside
    · exact second.shown other member inner m matched isElement entry among

/-- An element is worked in once its attributes, what is nested and its
listeners are. -/
theorem of_element {t : TemplateId} {n : NodeId}
    {drawn filled final : World σ} {namespaceName tag : String}
    {attributes changed : List Attribute} {asked requests : List Request}
    (isTree : base.dom.IsTree n) (inside : base.dom.Inside root n)
    (element : base.dom.kind n = .element namespaceName tag attributes)
    (reached : base.Redresses (base.dom.Inside root) world)
    (here : world.dom.kind n = base.dom.kind n)
    (draws : world.Draws n (.element namespaceName tag changed) asked drawn)
    (each : ∀ entry ∈ (base.template t).blueprint.attributes,
      Overlies host (fun seen => ∃ drawn asked,
        world.Draws n (.element namespaceName tag drawn) asked seen)
        world.dom drawn.dom n entry)
    (targets : ((base.template t).blueprint.nested.zip
      (base.dom.children n)).map (·.2) = base.dom.children n)
    (members : Overlaid host base root
      ((base.template t).blueprint.nested.zip (base.dom.children n)) drawn
        filled)
    (row : filled.dom.node n = drawn.dom.node n)
    (listeners : filled.Draws n (.element namespaceName tag changed) requests
      final) :
    Overlaid host base root [(t, n)] world final := by
  have self (inner : NodeId) (same : inner = n) :
      base.dom.Within [n] inner :=
    Dom.within_single.mpr (same ▸ .here inner)
  have outside : ¬base.dom.Within (base.dom.children n) n :=
    fun ⟨child, member, inside⟩ => isTree.acyclic child member inside
  refine ⟨((World.Redresses.of_draws draws).mono self).trans
    ((members.redresses.mono fun inner within => ?_).trans
      ((World.Redresses.of_draws listeners).mono self)), ?_⟩
  · rw [targets] at within
    obtain ⟨child, member, inside⟩ := within
    exact Dom.within_single.mpr (.under member inside)
  · intro pair member inner m matched plain entry among
    obtain rfl := List.mem_singleton.mp member
    cases matched with
    | root =>
        refine ((each entry among).mono fun seen moment => ?_).of_kinds
          here.symm (listeners.dom.kind.trans draws.dom.kind.symm)
        obtain ⟨_, heard, seen⟩ := moment
        refine ⟨reached.trans ((World.Redresses.of_draws seen).mono
          fun inner same => by rw [same]; exact inside), ?_⟩
        rw [Dom.tag?, Dom.tag?, seen.dom.kind, element]
    | nested _ paired deeper =>
        refine (members.shown _ paired inner m deeper plain entry
          among).of_kinds rfl (congrArg Node.kind (listeners.dom.others m ?_))
        rintro rfl
        exact outside ⟨_, (List.of_mem_zip paired).2, deeper.inside⟩

end Overlaid

/-- A nested template is worked into the tree that it fits. -/
def Nested.Overlays (host : Host σ) (base : World σ) (root : NodeId)
    (nested : Nested σ) : Prop :=
  ∀ t n path world m record, base.Receives host root [(t, n)] →
    base.Redresses (base.dom.Inside root) world → base.Undressed [n] world →
      (nested t (some n) path).result world = (.ok m, record) →
        Overlaid host base root [(t, n)] world
          ((nested t (some n) path).after world)

namespace Blueprint

variable {root : NodeId} {nested : Nested σ} {path : DefinitionPath}

private theorem overlays_applyMembers
    (overlays : nested.Overlays host base root)
    (blueprint : Blueprint) {node : NodeId} {index place : Nat}
    {members : List Member} {targets : List NodeId}
    (receives : base.Receives host root
      ((members.filterMap Member.template?).zip targets))
    (reached : base.Redresses (base.dom.Inside root) world)
    (undressed : base.Undressed
      (((members.filterMap Member.template?).zip targets).map (·.2)) world)
    (remaining : targets = (base.dom.children node).drop place) :
    (blueprint.applyMembers nested node path index place members).Ensures record
      world fun _ final => Overlaid host base root
        ((members.filterMap Member.template?).zip targets) world final := by
  induction members generalizing index place targets record world with
  | nil => exact .pure ⟨.refl world, nofun⟩
  | cons member rest ih =>
      cases member with
      | view v => exact .throw
      | node r => exact .throw
      | collection c => exact ih receives reached undressed remaining
      | template t =>
          rw [applyMembers]
          refine .act_bind ?_
          rw [Act.result_get, Act.after_get]
          dsimp only
          rw [undressed.children]
          cases targets with
          | nil =>
              have missing : (base.dom.children node)[place]? = none := by
                rw [← List.head?_drop, ← remaining]
                rfl
              rw [missing]
              exact .throw
          | cons n others =>
              have found : (base.dom.children node)[place]? = some n := by
                rw [← List.head?_drop, ← remaining]
                rfl
              rw [found]
              refine .nest_bind fun m child recorded outcome => ?_
              have first := overlays t n _ world m child receives.head reached
                undressed.head outcome
              have further := reached.trans
                (first.redresses.mono fun _ => receives.head.within)
              have still := undressed.tail.dressed first.redresses
                fun inner here there => by
                  obtain ⟨other, member, below⟩ := there
                  exact (List.pairwise_cons.mp receives.apart).1 other member
                    inner (Dom.within_single.mp here) below
              have next : others =
                  (base.dom.children node).drop (place + 1) := by
                rw [← List.tail_drop, ← remaining]
                rfl
              exact (ih receives.tail further still next).weaken
                fun _ _ second => first.cons second further receives

private theorem overlays_fillElement (overlays : nested.Overlays host base root)
    (path : DefinitionPath) {t : TemplateId} {n : NodeId}
    {blueprint : Blueprint} (found : (base.template t).blueprint = blueprint)
    (isElement : blueprint.text = none)
    (named : (blueprint.attributes.map (·.1)).Nodup)
    (linked : base.dom.IsLinked) (receives : base.Receives host root [(t, n)])
    (reached : base.Redresses (base.dom.Inside root) world)
    (undressed : base.Undressed [n] world) :
    Pass.Ensures (do
        blueprint.renderAttributes host n true
        blueprint.applyMembers nested n path 0 0 blueprint.children
        blueprint.renderListeners n) record world
      fun _ final => Overlaid host base root [(t, n)] world final := by
  subst found
  have isTree : base.dom.IsTree n := receives.trees _ (.head _)
  have inside : base.dom.Inside root n := receives.inside _ (.head _)
  have fits := (graftable_element_iff isElement).mp
    (receives.fits (t, n) (.head _))
  have isPure := receives.isPure (t, n) (.head _) t n (.root t n)
  have below := receives.children linked isElement
  obtain ⟨_, _, _, kind⟩ := Dom.isElement_iff.mp fits.1
  have here := undressed.kind isTree.there
  refine (overlays_renderAttributes named isPure.attributes
    (here.trans kind)).bind ?_
  rintro _ _ drawn ⟨changed, asked, draws, -, each⟩
  have redraws := World.Redresses.of_draws draws
  have further := reached.trans
    (redraws.mono fun inner same => by rw [same]; exact inside)
  have targets : ((base.template t).blueprint.nested.zip
      (base.dom.children n)).map (·.2) = base.dom.children n :=
    List.map_snd_zip (Nat.le_of_eq fits.2.2.1.symm)
  have outside : ¬base.dom.Within (base.dom.children n) n :=
    fun ⟨child, member, inside⟩ => isTree.acyclic child member inside
  have still : base.Undressed (base.dom.children n) drawn :=
    undressed.below.dressed redraws fun inner same => same ▸ outside
  rw [← targets] at still
  refine (overlays_applyMembers overlays _ below further still
    List.drop_zero.symm).bind ?_
  intro _ _ filled (members : Overlaid host base root
    ((base.template t).blueprint.nested.zip (base.dom.children n)) drawn filled)
  have row : filled.dom.node n = drawn.dom.node n := by
    refine members.redresses.spares.nodes n
      (Nat.lt_of_lt_of_le isTree.there still.spares.size) ?_
    rw [targets]
    exact outside
  have element := (congrArg Node.kind row).trans draws.dom.kind
  exact (draws_renderListeners element).weaken fun _ final listeners =>
    .of_element isTree inside kind reached here draws each targets members row
      listeners

end Blueprint

namespace Template

variable {mounter : Mounter σ} {root : NodeId} {nested : Nested σ}
  {path : DefinitionPath}

/-- A template is worked into the tree that it fits. -/
theorem overlays_passWith (overlays : nested.Overlays host base root)
    {t : TemplateId} {n : NodeId} {blueprint : Blueprint}
    (found : (base.template t).blueprint = blueprint)
    (sound : base.HasSoundTemplates) (linked : base.dom.IsLinked)
    (receives : base.Receives host root [(t, n)])
    (reached : base.Redresses (base.dom.Inside root) world)
    (undressed : base.Undressed [n] world) :
    (passWith host mounter nested t blueprint (some n) path).Ensures record
      world fun _ final => Overlaid host base root [(t, n)] world final := by
  subst found
  have isTree : base.dom.IsTree n := receives.trees _ (.head _)
  have isPure := receives.isPure (t, n) (.head _) t n (.root t n)
  unfold passWith
  cases isText : (base.template t).blueprint.text with
  | some schema =>
      obtain ⟨_, kind⟩ := Dom.isText_iff.mp ((graftable_text_iff isText).mp
        (receives.fits (t, n) (.head _))).2
      refine (Blueprint.overlays_renderText isPure
        ((undressed.kind isTree.there).trans kind)).bind ?_
      rintro _ _ final ⟨shown, requests, draws⟩
      refine .pure ⟨(World.Redresses.of_draws draws).mono fun inner same =>
        Dom.within_single.mpr (same ▸ .here inner), ?_⟩
      intro pair member inner m matched plain
      obtain rfl := List.mem_singleton.mp member
      cases matched with
      | root => rw [isText] at plain; cases plain
      | nested isElement => rw [isText] at isElement; cases isElement
  | none =>
      have inside : Pass.Ensures _ record
          (world.holding (.refs [.node n] :: world.frames)) _ :=
        Blueprint.overlays_fillElement overlays path rfl isText (sound t).named
          linked receives (reached.held _) (undressed.held _)
      rw [if_neg (by simp), Blueprint.renderElement_some]
      refine Pass.Ensures.bind (.bind (.keeping (inside.weaken
        fun _ final done => ?_)) fun _ _ _ done => .pure done)
          fun _ _ _ done => .pure done
      exact ⟨done.redresses.release world.frames, done.shown⟩

theorem overlays_passWithin (host : Host σ) (base : World σ) (root : NodeId)
    (sound : base.HasSoundTemplates) (linked : base.dom.IsLinked)
    (mounter : Mounter σ) (fuel : Nat) :
    Nested.Overlays host base root (passWithin host mounter fuel) := by
  induction fuel with
  | zero =>
      intro _ _ _ _ _ _ _ _ _ outcome
      cases outcome
  | succ fuel ih =>
      intro t n path world m record receives reached undressed outcome
      exact of_passWithin outcome (overlays_passWith ih
        (reached.spares.advances.blueprints t).symm sound linked receives
        reached undressed)

/-- Once a template is worked into a tree, only what nodes of the tree show may
have changed, and each attribute of a definition came to what it comes to. -/
theorem overlaid_apply {t : TemplateId} {n node : NodeId}
    (sound : world.HasSoundTemplates) (linked : world.dom.IsLinked)
    (isTree : world.dom.IsTree n) (isPure : IsPure host world t n)
    (applied : (apply host t n).result world = .ok node) :
    Overlaid host world n [(t, n)] world ((apply host t n).after world) := by
  have fits := graftable_of_apply_ok sound applied
  have receives : world.Receives host n [(t, n)] := by
    refine ⟨?_, ?_, ?_, ?_, List.pairwise_singleton _ _⟩ <;>
      intro pair member <;> rw [List.mem_singleton.mp member]
    · exact fits
    · exact isPure
    · exact isTree
    · exact .here n
  obtain ⟨record, other, passed, after⟩ := apply_ok applied
  have done := overlays_passWithin host world n sound linked
    (fun _ => return .error .componentNotRendered) (t.index + 1) t n [] _ other
    record receives ((World.Redresses.refl world).held _)
    ((World.Redresses.refl world).held _) passed
  have noted := sameSetup_update t (fun template => { template with
    applied := some (n, record) }) (fun _ => rfl)
    ((applyPass host t n).after world)
  rw [after]
  exact ⟨(done.redresses.release world.frames).trans
    ⟨.of_setup noted rfl rfl, fun _ => rfl, fun _ => rfl⟩, done.shown⟩

/-- Once a template is worked into a tree, each attribute of a definition in it
is what it comes to over the one that the node had before. -/
theorem overlies_apply {t inner : TemplateId} {n m node : NodeId}
    (sound : world.HasSoundTemplates) (linked : world.dom.IsLinked)
    (isTree : world.dom.IsTree n) (isPure : IsPure host world t n)
    (applied : (apply host t n).result world = .ok node)
    (matched : Matched world t n inner m)
    (isElement : (world.template inner).blueprint.text = none)
    {entry : String × Schema}
    (member : entry ∈ (world.template inner).blueprint.attributes) :
    Overlies host (world.Redresses (world.dom.Inside n)) world.dom
      ((apply host t n).after world).dom m entry := by
  exact ((overlaid_apply sound linked isTree isPure applied).shown (t, n) (.head
    _) inner m matched isElement entry member).mono fun _ seen => seen.redresses

namespace Paragraph

/-- A paragraph with an attribute, a template for that attribute, and an object
with a property. -/
def start (name present : String) (schema : Schema) : World Unit :=
  { World.initial () with
    dom := ⟨⟨#[⟨.element "html" "p" [⟨none, name, present⟩], none, []⟩]⟩⟩
    properties := ⟨#[[("kind", .text "wide open")]]⟩
    emitters := ⟨#[⟨[], []⟩]⟩
    templates := ⟨#[⟨⟨none, none, none, [(name, schema)], [], []⟩, false,
      none⟩]⟩ }

variable (name present : String) (schema : Schema)

theorem reached : Run (World.initial ()) (start name present schema) := by
  refine .aside rfl rfl rfl ⟨?_, ?_⟩
  · rintro ⟨index⟩ entry kept
    rcases index with _ | index <;> cases kept
  · rintro _ ⟨index⟩
    rcases index with _ | index
    · exact ⟨by simp [start, World.template, Store.get], nofun⟩
    · exact .none _

theorem linked : (start name present schema).dom.IsLinked := by
  rintro ⟨parent⟩ ⟨child⟩
  rcases parent with _ | parent <;> rcases child with _ | child <;>
    simp [start, Dom.children, Dom.parent?, Dom.node, Store.get, default]

theorem isTree : (start name present schema).dom.IsTree ⟨0⟩ := by
  exact .node Nat.one_pos .nil nofun

theorem isPure : IsPure Card.client (start name present schema) ⟨0⟩ ⟨0⟩ := by
  intro _ _ _
  exact .of_bindings fun _ _ _ _ _ _ => rfl

end Paragraph

end Template

end LiveTemplate
