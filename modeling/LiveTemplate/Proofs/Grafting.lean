import LiveTemplate.Proofs.Matching
import LiveTemplate.Proofs.ObservableRows
import LiveTemplate.Proofs.Passes
import LiveTemplate.Proofs.Purity

/-!
# Working a template into existing nodes

Whoever applies a template with pure bindings to a node that it fits sees the
pass succeed.  Each step of the pass is followed for what it records and for
what it does to the world, which is to show values in slots of the template and
to keep them up to date.
-/

namespace LiveTemplate

variable {σ : Type} {host : Host σ}

/-- Every template that is worked in has pure bindings. -/
def Template.IsPure (host : Host σ) (world : World σ) (t : TemplateId)
    (n : NodeId) : Prop :=
  ∀ inner node, Matched world t n inner node →
    (world.template inner).blueprint.IsPure host

/-- A group that keeps a slot up to date without further effects. -/
structure SyncGroup.Serves (host : Host σ) (owned : Slot → Prop)
    (group : SyncGroup) : Prop where
  owned : owned group.slot
  isPure : ∀ binding ∈ inputsAny group.chunks, binding.IsPure host

/-- Values were shown in owned slots, for which groups were installed. -/
structure World.Fills (host : Host σ) (owned : Slot → Prop)
    (world later : World σ) : Prop where
  templates : later.templates = world.templates
  written : Dom.Written owned world.dom later.dom
  installed : ∀ o, ∀ listener ∈ (later.reactionsOf o).entries,
    listener ∈ (world.reactionsOf o).entries ∨
      ∃ group, listener.action = .sync group ∧ group.Serves host owned

namespace World.Fills

variable {owned : Slot → Prop} {world between later : World σ}

theorem of_same (templates : later.templates = world.templates)
    (dom : later.dom = world.dom) (reactions : later.reactions = world.reactions) :
    Fills host owned world later where
  templates := templates
  written := by
    rw [dom]
    exact .refl _
  installed o listener member := by
    left
    unfold reactionsOf at member ⊢
    rw [← reactions]
    exact member

theorem refl (world : World σ) : Fills host owned world world := by
  exact .of_same rfl rfl rfl

theorem trans (first : Fills host owned world between)
    (second : Fills host owned between later) :
    Fills host owned world later where
  templates := second.templates.trans first.templates
  written := first.written.trans second.written
  installed o listener member := by
    rcases second.installed o listener member with old | new
    · exact first.installed o listener old
    · exact .inr new

theorem mono {wider : Slot → Prop} (fills : Fills host owned world later)
    (implies : ∀ slot, owned slot → wider slot) :
    Fills host wider world later where
  templates := fills.templates
  written := fills.written.mono implies
  installed o listener member := by
    rcases fills.installed o listener member with
      old | ⟨group, action, serves⟩
    · exact .inl old
    · exact .inr ⟨group, action, implies _ serves.owned, serves.isPure⟩

theorem display {slot : Slot} (value : Value) (owns : owned slot)
    (proper : slot.IsProper world.dom) :
    Fills host owned world
      { world with dom := slot.display world.dom value } where
  templates := rfl
  written := .display value (.refl _) owns proper
  installed _ _ member := .inl member

theorem mapM {α β : Type} {items : List α} {body : α → Act σ β}
    (each : ∀ item ∈ items, ∀ world,
      Fills host owned world ((body item).after world)) (world : World σ) :
    Fills host owned world ((items.mapM body).after world) :=
  Act.after_mapM .refl .trans each world

end World.Fills

/-- A pass has added to its record and filled slots. -/
structure Works (host : Host σ) (owned : Slot → Prop)
    (saved : List SavedAttribute) (nested : List Record)
    (before after : Record × World σ) : Prop where
  text : after.1.text = before.1.text
  attributes : after.1.attributes = before.1.attributes ++ saved
  children : after.1.children = before.1.children ++ nested
  fills : before.2.Fills host owned after.2

namespace Works

variable {owned : Slot → Prop} {saved savedLater : List SavedAttribute}
  {nested nestedLater : List Record} {before between after : Record × World σ}

theorem of_fills {record : Record} {world later : World σ}
    (fills : world.Fills host owned later) :
    Works host owned [] [] (record, world) (record, later) := by
  exact ⟨rfl, by simp, by simp, fills⟩

theorem save (record : Record) (world : World σ) (saved : SavedAttribute) :
    Works host owned [saved] [] (record, world)
      ({ record with attributes := record.attributes ++ [saved] }, world) := by
  exact ⟨rfl, rfl, by simp, .refl world⟩

theorem trans (first : Works host owned saved nested before between)
    (second : Works host owned savedLater nestedLater between after) :
    Works host owned (saved ++ savedLater) (nested ++ nestedLater) before
      after where
  text := second.text.trans first.text
  attributes := by
    rw [second.attributes, first.attributes, List.append_assoc]
  children := by
    rw [second.children, first.children, List.append_assoc]
  fills := first.fills.trans second.fills

/-- What is held meanwhile makes no difference. -/
theorem release {record later : Record} {world world' : World σ}
    {frames : List Frame}
    (works : Works host owned saved nested (record, world.holding frames)
      (later, world')) (restored : List Frame) :
    Works host owned saved nested (record, world)
      (later, world'.holding restored) := by
  have fills := works.fills
  exact ⟨works.text, works.attributes, works.children, fills.templates,
    fills.written, fills.installed⟩

theorem keeping {α : Type} {refs : List Ref} {pass : Pass σ α}
    {record : Record} {world : World σ}
    (inner : pass.Yields record
      (world.holding (.refs refs :: world.frames)) fun _ later world' =>
        Works host owned saved nested
          (record, world.holding (.refs refs :: world.frames))
          (later, world')) :
    (Pass.keeping refs pass).Yields record world fun _ later world' =>
      Works host owned saved nested (record, world) (later, world') := by
  exact .keeping (inner.weaken fun _ _ _ works => works.release world.frames)

theorem mono {wider : Slot → Prop}
    (works : Works host owned saved nested before after)
    (implies : ∀ slot, owned slot → wider slot) :
    Works host wider saved nested before after := by
  exact ⟨works.text, works.attributes, works.children, works.fills.mono implies⟩

end Works

private theorem SyncGroup.Serves.fills_listen {owned : Slot → Prop}
    {group : SyncGroup} (serves : group.Serves host owned)
    (binding : Binding) (world : World σ) :
    world.Fills host owned
      ((Emitter.listenToObservable binding.emitter binding.observable
        (changeOf binding.property) (.sync group)).after world) where
  templates := rfl
  written := .refl _
  installed o listener member := by
    by_cases same : o = binding.observable
    · subst same
      rw [Emitter.entries_listenToObservable_self, List.mem_append] at member
      rcases member with old | new
      · exact .inl old
      · right
        rw [List.mem_singleton.mp new]
        exact ⟨group, rfl, serves⟩
    · rw [Emitter.reactionsOf_listenToObservable_of_ne _ _ _ _ same] at member
      exact .inl member

private theorem SyncGroup.Serves.fills_sync {owned : Slot → Prop}
    {group : SyncGroup}
    (serves : group.Serves host owned) {world : World σ}
    (proper : group.slot.IsProper world.dom) :
    world.Fills host owned ((group.sync host).after world) := by
  have unchanged := after_evaluate group.slot.node world serves.isPure
  unfold sync
  rw [Act.after_bind, unchanged, Act.after_modifyDom]
  exact .display _ serves.owned proper

/-- A new group shows a value and is installed. -/
theorem SyncGroup.Serves.fills_bind {owned : Slot → Prop} {group : SyncGroup}
    (serves : group.Serves host owned) {world : World σ}
    (proper : group.slot.IsProper world.dom) :
    world.Fills host owned ((group.bind host).after world) := by
  unfold SyncGroup.bind
  rw [Act.after_bind]
  exact (serves.fills_sync proper).trans
    (.mapM (fun binding _ world => serves.fills_listen binding world) _)

namespace Blueprint

variable {owned : Slot → Prop} {record : Record} {world : World σ}

/-- A slot is filled, whether its value changes or not. -/
theorem yields_renderSlot {slot : Slot} {chunks : List Chunk}
    (isPure : Schema.IsPure host chunks) (owns : owned slot)
    (proper : slot.IsProper world.dom) :
    Pass.Yields (renderSlot host slot chunks) record world
      fun _ later world' =>
        Works host owned [] [] (record, world) (later, world') := by
  unfold renderSlot
  split
  · have serves : SyncGroup.Serves host owned ⟨chunks, slot⟩ :=
      ⟨owns, isPure.inputs⟩
    refine .act_bind (.note ⟨rfl, by simp, by simp, ?_⟩)
    exact serves.fills_bind proper
  · have unchanged := after_evaluate slot.node world isPure.inputs
    refine .act_bind ?_
    rw [unchanged]
    split
    · rename_i truthy
      refine .act (.of_fills ?_)
      have shown : world.Fills host owned _ :=
        .display ((evaluate host slot.node chunks).result world) owns proper
      unfold Slot.display at shown
      rw [if_neg (by simpa [Value.isTruthy] using truthy)] at shown
      exact shown
    · exact .pure (.of_fills (.refl world))

private theorem yields_renderStyles {node : NodeId} {styles : StyleMap}
    (isPure : ∀ style ∈ styles, Schema.IsPure host style.2)
    (owns : ∀ style ∈ styles, owned (.style node style.1)) :
    Pass.Yields (renderStyles host node styles) record world
      fun _ later world' =>
        Works host owned [] [] (record, world) (later, world') := by
  refine .forM (fun _ => .of_fills (.refl _)) Works.trans ?_
  intro style member record world
  exact yields_renderSlot (isPure style member).flatten (owns style member)
    trivial

/-- What is kept of a present value never changes. -/
theorem isPure_kept {schema : Schema} (isPure : Schema.IsPure host schema)
    (current : Option String) (isKept : Bool) (kept : String → String) :
    Schema.IsPure host
      ((match current with
        | some text => if isKept then [.fixed (.text (kept text))] else []
        | none => []) ++ flattenChunks schema) := by
  refine Schema.IsPure.prepend (fun chunk member => ?_) isPure.flatten
  split at member
  · split at member
    · exact ⟨_, List.mem_singleton.mp member⟩
    · cases member
  · cases member

private theorem yields_renderAttribute {node : NodeId} {name : String}
    {schema : Schema} (isPure : Schema.IsPure host schema)
    (owns : owned (.attr node schema.namespace? name)) :
    Pass.Yields (renderAttribute host node true name schema) record world
      fun _ later world' =>
        Works host owned
          [⟨schema.namespace?, name,
            world.dom.attributeNs? node schema.namespace? name⟩] []
          (record, world) (later, world') := by
  unfold renderAttribute
  refine .act_bind (.note_bind ?_)
  refine (yields_renderSlot (isPure_kept isPure _ _ _) owns trivial).weaken
    fun _ later world' works => ?_
  exact (Works.save record world _).trans works

private theorem yields_renderEntry {blueprint : Blueprint} {node : NodeId}
    {name : String} {schema : Schema}
    (sound : name = "style" → schema.IsStyleOrPlain)
    (isPure : Schema.IsPure host schema)
    (owns : ∀ slot ∈ entrySlots node (name, schema), owned slot) :
    Pass.Yields (renderEntry host blueprint node true name schema) record world
      fun _ later world' =>
        Works host owned [savedAttribute world.dom node (name, schema)] []
          (record, world) (later, world') := by
  unfold renderEntry
  unfold entrySlots at owns
  unfold savedAttribute
  cases found : entryStyles? name schema with
  | none =>
      simp only [found, List.mem_singleton, forall_eq] at owns
      exact yields_renderAttribute isPure owns
  | some outcome =>
      obtain ⟨style, map⟩ := eq_style_of_entryStyles? found
      cases outcome with
      | error fault =>
          exact absurd (sound style) (styleMap?_fault_iff.mp ⟨fault, map⟩)
      | ok styles =>
          simp only [found, List.mem_map, forall_exists_index, and_imp,
            forall_apply_eq_imp_iff₂] at owns
          refine .act_bind (.note_bind ?_)
          refine (yields_renderStyles (fun style member => ?_) owns).weaken ?_
          · exact isPure.styleMap map member
          · intro _ later world' works
            exact (Works.save record world _).trans works

/-- Attributes of different names are saved as they were before the first of
them was rendered. -/
theorem yields_renderAttributes {blueprint : Blueprint} {node : NodeId}
    (named : (blueprint.attributes.map (·.1)).Nodup)
    (styles : ∀ entry ∈ blueprint.attributes, entry.1 = "style" →
      Schema.IsStyleOrPlain entry.2)
    (isPure : ∀ entry ∈ blueprint.attributes, Schema.IsPure host entry.2)
    (owns : ∀ entry ∈ blueprint.attributes, ∀ slot ∈ entrySlots node entry,
      owned slot) :
    Pass.Yields (renderAttributes host blueprint node true) record world
      fun _ later world' =>
        Works host owned
          (blueprint.attributes.map (savedAttribute world.dom node)) []
          (record, world) (later, world') := by
  unfold renderAttributes
  generalize blueprint.attributes = entries at named styles isPure owns
  induction entries generalizing record world with
  | nil => exact .pure (.of_fills (.refl world))
  | cons entry rest ih =>
      rw [List.map_cons, List.nodup_cons] at named
      refine (yields_renderEntry (styles entry (.head _))
        (isPure entry (.head _)) (fun _ member => member)).bind
          fun _ between world' head => ?_
      have unsaved : rest.map (savedAttribute world'.dom node) =
          rest.map (savedAttribute world.dom node) := by
        apply List.map_congr_left
        intro other member
        refine savedAttribute_of_written head.fills.written fun same => ?_
        apply named.1
        rw [← same]
        exact List.mem_map_of_mem member
      refine (ih named.2 (fun other member => styles other (.tail _ member))
        (fun other member => isPure other (.tail _ member))
        (fun other member => owns other (.tail _ member))).weaken
          fun _ later world'' tail => ?_
      rw [unsaved] at tail
      exact (head.mono (owns entry (.head _))).trans tail

/-- Listeners of well-formed keys are installed. -/
theorem yields_renderListeners {blueprint : Blueprint} {node : NodeId}
    (keys : ∀ entry ∈ blueprint.listeners, IsListenerKey entry.1) :
    Pass.Yields (renderListeners blueprint node) record world
      fun _ later world' =>
        Works host owned [] [] (record, world) (later, world') := by
  refine .forM (fun _ => .of_fills (.refl _)) Works.trans ?_
  rintro ⟨key, bindings⟩ member record world
  obtain ⟨parsed, accepted⟩ := parseListenerKey_ok_iff.mpr (keys _ member)
  dsimp only
  rw [accepted]
  refine .ofExcept_bind (.act_bind (.note ⟨rfl, by simp, by simp, ?_⟩))
  exact World.Fills.mapM (fun _ _ _ => .of_same rfl rfl rfl) world

end Blueprint

theorem World.Fills.sameForm {owned : Slot → Prop} {world later : World σ}
    (fills : world.Fills host owned later) : world.SameForm later := by
  exact ⟨fills.templates, fills.written.sameShape⟩

/-- The template was worked into the node and the nodes below. -/
structure Grafted (host : Host σ) (world : World σ) (t : TemplateId)
    (n : NodeId) (record : Record) (later : World σ) : Prop where
  fills : world.Fills host (Template.Owns world t n) later
  recorded : ∀ nodes, world.dom.Spans n nodes → nodes.Nodup →
    Recorded world t n record

/-- The nested template is worked into the node, whatever is shown by then. -/
def Nested.Grafts (host : Host σ) (nested : Nested σ) (world : World σ)
    (t : TemplateId) (n : NodeId) : Prop :=
  ∀ later path, world.SameForm later →
    ∃ record, (nested t (some n) path).result later = (.ok n, record) ∧
      Grafted host later t n record ((nested t (some n) path).after later)

theorem Nested.Grafts.of_sameForm {nested : Nested σ}
    {world between : World σ} {t : TemplateId} {n : NodeId}
    (grafts : nested.Grafts host world t n) (form : world.SameForm between) :
    nested.Grafts host between t n := by
  intro later path same
  exact grafts later path (form.trans same)

theorem Pass.Yields.nest_bind {β : Type} {nested : Nested σ} {t : TemplateId}
    {target : Option NodeId} {path : DefinitionPath} {next : NodeId → Pass σ β}
    {record child : Record} {world : World σ} {n : NodeId}
    {post : β → Record → World σ → Prop}
    (outcome : (nested t target path).result world = (.ok n, child))
    (later : Yields (next n)
      { record with children := record.children ++ [child] }
      ((nested t target path).after world) post) :
    Yields (Pass.nest nested t target path >>= next) record world post := by
  unfold Pass.nest
  rw [bind_assoc]
  refine .act_bind ?_
  rw [outcome, bind_assoc]
  exact .note_bind (.ofExcept_bind later)

/-- Nested templates are worked into the nodes from the given place on, one
for one. -/
theorem Blueprint.yields_applyMembers {nested : Nested σ} {owned : Slot → Prop}
    {record : Record} {world : World σ} (blueprint : Blueprint) {node : NodeId}
    {path : DefinitionPath} {index place : Nat} {members : List Member}
    (views : ∀ v, .view v ∉ members) (nodes : ∀ n, .node n ∉ members)
    {targets : List NodeId}
    (remaining : targets = (world.dom.children node).drop place)
    (count : (members.filterMap Member.template?).length = targets.length)
    (grafts : ∀ t n,
      (t, n) ∈ (members.filterMap Member.template?).zip targets →
      nested.Grafts host world t n ∧
        ∀ slot, Template.Owns world t n slot → owned slot) :
    Pass.Yields (applyMembers blueprint nested node path index place members)
      record world fun _ later world' => ∃ records,
        Works host owned [] records (record, world) (later, world') ∧
          ∀ parts, List.Forall₂ world.dom.Spans targets parts →
            parts.flatten.Nodup →
            List.Forall₂ (fun pair => Recorded world pair.1 pair.2)
              ((members.filterMap Member.template?).zip targets) records := by
  induction members generalizing record world index place targets with
  | nil =>
      rw [applyMembers]
      exact .pure ⟨[], .of_fills (.refl world), fun _ _ _ => .nil⟩
  | cons member rest ih =>
      have restViews : ∀ v, .view v ∉ rest := fun v inside =>
        views v (.tail _ inside)
      have restNodes : ∀ n, .node n ∉ rest := fun n inside =>
        nodes n (.tail _ inside)
      cases member with
      | view v => exact absurd (.head _) (views v)
      | node n => exact absurd (.head _) (nodes n)
      | collection c =>
          rw [applyMembers]
          exact ih restViews restNodes remaining count grafts
      | template t =>
          cases targets with
          | nil => simp [Member.template?] at count
          | cons child others =>
              have here : (world.dom.children node)[place]? = some child := by
                have dropped := congrArg (·[0]?) remaining
                simpa using dropped.symm
              obtain ⟨graftsHead, ownsHead⟩ := grafts t child (.head _)
              obtain ⟨made, outcome, grafted⟩ :=
                graftsHead world (path ++ [index]) (.refl world)
              rw [applyMembers]
              refine .act_bind ?_
              simp only [Act.result_get, Act.after_get, here]
              refine .nest_bind outcome ?_
              have form := grafted.fills.sameForm
              generalize (nested t (some child) (path ++ [index])).after world =
                between at grafted form
              have remainingLater :
                  others = (between.dom.children node).drop (place + 1) := by
                rw [form.shape.children, ← List.tail_drop, ← remaining]
                rfl
              refine (ih restViews restNodes remainingLater
                (by simpa [Member.template?] using count)
                fun t' n' paired => ?_).weaken ?_
              · obtain ⟨graftsLater, ownsLater⟩ := grafts t' n' (.tail _ paired)
                exact ⟨graftsLater.of_sameForm form, fun slot owns =>
                  ownsLater slot (form.owns.mp owns)⟩
              · rintro _ later world' ⟨records, works, recorded⟩
                have head : Works host owned [] [made] (record, world)
                    ({ record with children := record.children ++ [made] },
                      between) :=
                  ⟨rfl, by simp, rfl, grafted.fills.mono ownsHead⟩
                refine ⟨made :: records, head.trans works, ?_⟩
                -- What was saved below one node is not what is written below
                -- another, as the trees of the nodes are apart.
                intro parts spans nodup
                cases spans with
                | @cons _ part _ parts headSpans restSpans =>
                    rw [List.flatten_cons, List.nodup_append] at nodup
                    obtain ⟨headNodup, restNodup, apart⟩ := nodup
                    have shaped := restSpans.imp fun _ _ spans =>
                      form.shape.spans spans
                    refine .cons (grafted.recorded part headSpans headNodup)
                      (Recorded.each_of_rows (recorded parts shaped restNodup)
                        grafted.fills.templates
                        (fun _ inside => (List.of_mem_zip inside).2)
                        restSpans fun m within => ?_)
                    refine grafted.fills.written.node_eq fun slot owns => ?_
                    exact apart _ (owns.mem_of_spans headSpans) m within

theorem setText_eq_display (dom : Dom) (n : NodeId) (data : String) :
    (Slot.text n).display dom (.text data) = dom.setText n data := by
  unfold Slot.display
  split
  · rename_i falsy
    have empty : data = "" := by simpa [Value.isFalsy] using falsy
    rw [empty]
    rfl
  · rfl

theorem after_plainText {chunks : List Chunk}
    (isPure : Schema.IsPure host chunks) (node : NodeId) (world : World σ) :
    (Blueprint.plainText host node chunks).after world = world := by
  have evaluated : (chunks.mapM (Chunk.evaluate host node)).after world =
      world := by
    induction chunks with
    | nil => rfl
    | cons chunk rest ih =>
        have head := Chunk.after_evaluate node world chunk fun binding member =>
          isPure chunk (.head _) binding
            (Chunk.occurs_of_mem_inputs chunk member)
        simp only [List.mapM_cons, Act.after_bind, Act.after_pure, head]
        exact ih fun other member => isPure other (.tail _ member)
  unfold Blueprint.plainText
  rw [Act.after_bind, evaluated]
  rfl

namespace Blueprint

variable {owned : Slot → Prop} {record : Record} {world : World σ} {n : NodeId}

/-- A text is shown, whether it is kept up to date or not. -/
theorem yields_showText {chunks : List Chunk}
    (isPure : Schema.IsPure host chunks) (isText : world.dom.isText n = true)
    (owns : owned (.text n)) :
    Pass.Yields (showText host n chunks) record world
      fun node later world' => node = n ∧
        Works host owned [] [] (record, world) (later, world') := by
  unfold showText
  refine (Works.keeping ?_).bind fun _ later world' works => .pure ⟨rfl, works⟩
  split
  · have serves : SyncGroup.Serves host owned ⟨chunks, .text n⟩ :=
      ⟨owns, isPure.inputs⟩
    refine .act_bind (.note ⟨rfl, by simp, by simp, ?_⟩)
    exact serves.fills_bind isText
  · refine .act_bind ?_
    rw [after_plainText isPure]
    refine .act (.of_fills ?_)
    rw [Act.after_modifyDom, ← setText_eq_display]
    exact .display _ owns isText

theorem yields_renderText {blueprint : Blueprint}
    (isPure : blueprint.IsPure host) (isText : world.dom.isText n = true)
    (owns : owned (.text n)) :
    Pass.Yields (renderText host blueprint (some n)) record world
      fun node later world' => node = n ∧
        Works host owned [] []
          ({ record with text := some (world.dom.textContent n) }, world)
          (later, world') := by
  unfold renderText
  exact .act_bind (.note_bind
    (yields_showText isPure.flatText isText owns))

/-- The attributes of an element were rendered and nested templates worked into
its children. -/
def Filled (host : Host σ) (owned : Slot → Prop) (blueprint : Blueprint)
    (n : NodeId) (before after : Record × World σ) : Prop :=
  ∃ records,
    Works host owned
      (blueprint.attributes.map (savedAttribute before.2.dom n)) records before
      after ∧
    ∀ nodes, before.2.dom.Spans n nodes → nodes.Nodup →
      List.Forall₂ (fun pair => Recorded before.2 pair.1 pair.2)
        (blueprint.nested.zip (before.2.dom.children n)) records

theorem Filled.release {blueprint : Blueprint} {later : Record}
    {world' : World σ} {frames : List Frame}
    (filled : Filled host owned blueprint n (record, world.holding frames)
      (later, world')) (restored : List Frame) :
    Filled host owned blueprint n (record, world)
      (later, world'.holding restored) := by
  obtain ⟨records, works, recorded⟩ := filled
  refine ⟨records, works.release restored, fun nodes spans nodup => ?_⟩
  obtain ⟨parts, rfl, below⟩ := spans.parts
  exact Recorded.each_of_rows (recorded _ spans nodup) rfl
    (fun _ inside => (List.of_mem_zip inside).2) below fun _ _ => rfl

theorem yields_fillElement {blueprint : Blueprint} {nested : Nested σ}
    (path : DefinitionPath)
    (named : (blueprint.attributes.map (·.1)).Nodup)
    (isPure : blueprint.IsPure host) (applicable : blueprint.IsApplicable)
    (owns : ∀ entry ∈ blueprint.attributes, ∀ slot ∈ entrySlots n entry,
      owned slot)
    (count : blueprint.nested.length = (world.dom.children n).length)
    (grafts : ∀ t child,
      (t, child) ∈ blueprint.nested.zip (world.dom.children n) →
      nested.Grafts host world t child ∧
        ∀ slot, Template.Owns world t child slot → owned slot) :
    Pass.Yields (do
        blueprint.renderAttributes host n true
        blueprint.applyMembers nested n path 0 0 blueprint.children
        blueprint.renderListeners n) record world
      fun _ later world' =>
        blueprint.Filled host owned n (record, world) (later, world') := by
  let here : Slot → Prop := fun slot =>
    ∃ entry ∈ blueprint.attributes, slot ∈ entrySlots n entry
  have ownsHere : ∀ entry ∈ blueprint.attributes,
      ∀ slot ∈ entrySlots n entry, here slot :=
    fun entry member slot inside => ⟨entry, member, inside⟩
  refine (yields_renderAttributes named applicable.styles isPure.attributes
    ownsHere).bind fun _ between world' first => ?_
  have form := first.fills.sameForm
  have all : world.dom.children n = (world'.dom.children n).drop 0 := by
    rw [form.shape.children, List.drop_zero]
  have graftsLater : ∀ t child,
      (t, child) ∈ blueprint.nested.zip (world.dom.children n) →
      nested.Grafts host world' t child ∧
        ∀ slot, Template.Owns world' t child slot → owned slot := by
    intro t child paired
    obtain ⟨graftsChild, ownsChild⟩ := grafts t child paired
    exact ⟨graftsChild.of_sameForm form, fun slot owns =>
      ownsChild slot (form.owns.mp owns)⟩
  refine (yields_applyMembers blueprint applicable.views applicable.nodes all
    count graftsLater).bind ?_
  · rintro _ later world'' ⟨records, second, recorded⟩
    have listening : Pass.Yields (renderListeners blueprint n) later world''
        fun _ last world''' =>
          Works host owned [] [] (later, world'') (last, world''') :=
      yields_renderListeners applicable.listeners
    refine listening.weaken fun _ last world''' third => ?_
    refine ⟨records, ?_, ?_⟩
    · have works := ((first.mono ?_).trans second).trans third
      · simpa using works
      · rintro slot ⟨entry, member, inside⟩
        exact owns entry member slot inside
    · intro nodes spans nodup
      obtain ⟨parts, rfl, below⟩ := spans.parts
      rw [List.nodup_cons] at nodup
      have shaped := below.imp fun _ _ spans => form.shape.spans spans
      refine Recorded.each_of_rows (recorded parts shaped nodup.2)
        form.templates (fun _ inside => (List.of_mem_zip inside).2)
        below fun m within => ?_
      refine first.fills.written.node_eq ?_
      rintro slot ⟨entry, _, inside⟩ same
      rw [(covers_of_mem_entrySlots inside).1] at same
      rw [same] at nodup
      exact nodup.1 within

private theorem yields_renderElement {blueprint : Blueprint} {nested : Nested σ}
    {mounter : Mounter σ} {path : DefinitionPath}
    (named : (blueprint.attributes.map (·.1)).Nodup)
    (isPure : blueprint.IsPure host) (applicable : blueprint.IsApplicable)
    (owns : ∀ entry ∈ blueprint.attributes, ∀ slot ∈ entrySlots n entry,
      owned slot)
    (count : blueprint.nested.length = (world.dom.children n).length)
    (grafts : ∀ t child,
      (t, child) ∈ blueprint.nested.zip (world.dom.children n) →
      nested.Grafts host world t child ∧
        ∀ slot, Template.Owns world t child slot → owned slot) :
    Pass.Yields (renderElement host mounter nested blueprint (some n) path)
      record world fun node later world' => node = n ∧
        blueprint.Filled host owned n (record, world) (later, world') := by
  unfold renderElement
  let held := world.holding (.refs [.node n] :: world.frames)
  have form : world.SameForm held := ⟨rfl, .refl _⟩
  have filled : Pass.Yields _ record held fun _ later world' =>
      blueprint.Filled host owned n (record, held) (later, world') :=
    yields_fillElement path named isPure applicable owns count
      fun t child paired => ⟨(grafts t child paired).1.of_sameForm form,
        fun slot owns => (grafts t child paired).2 slot (form.owns.mp owns)⟩
  simp only [pure_bind, Option.isSome_some, if_true]
  refine .bind (.keeping (filled.weaken fun _ _ _ done =>
    done.release world.frames)) fun _ _ _ done => .pure ⟨rfl, done⟩

end Blueprint

private theorem Dom.textContent_of_text {dom : Dom} {n : NodeId} {data : String}
    (kind : dom.kind n = .text data) : dom.textContent n = data := by
  unfold textContent tree
  cases dom.nodes.size <;>
    simp [treeWithin, kind, Tree.ofKind, Tree.textContent]

namespace Template

theorem IsPure.of_sameForm {world later : World σ} {t : TemplateId}
    {n : NodeId} (isPure : IsPure host world t n)
    (form : world.SameForm later) : IsPure host later t n := by
  intro inner node matched
  rw [form.template]
  exact isPure inner node (form.matched.mp matched)

theorem yields_passWith {mounter : Mounter σ} {nested : Nested σ}
    {world : World σ} {t : TemplateId} {n : NodeId} {path : DefinitionPath}
    (sound : world.HasSoundTemplates) (fits : Graftable world t n)
    (isPure : (world.template t).blueprint.IsPure host)
    (grafts : ∀ inner child, (world.template t).blueprint.text = none →
      (inner, child) ∈
        (world.template t).blueprint.nested.zip (world.dom.children n) →
      nested.Grafts host world inner child) :
    Pass.Yields (passWith host mounter nested t (world.template t).blueprint
      (some n) path) .empty world fun node record world' =>
        node = n ∧ Grafted host world t n record world' := by
  unfold passWith
  cases fits with
  | text _ text isText =>
      rw [if_pos text]
      have owns : Owns world t n (.text n) := by
        refine ⟨t, n, .root t n, ?_⟩
        rw [Blueprint.slots, if_pos text]
        exact .head _
      refine (Blueprint.yields_renderText isPure isText owns).bind ?_
      rintro _ record world' ⟨rfl, works⟩
      refine .pure ⟨rfl, works.fills, fun _ _ _ => ?_⟩
      obtain ⟨data, kind⟩ := Dom.isText_iff.mp isText
      obtain ⟨saved, attributes, bindings, children⟩ := record
      have sameText : saved = some data := by
        rw [← Dom.textContent_of_text kind]
        exact works.text
      have sameAttributes : attributes = [] := works.attributes
      have sameChildren : children = [] := works.children
      rw [sameText, sameAttributes, sameChildren]
      exact .text text kind
  | element text _ applicable count each =>
      rw [if_neg (by simp [text])]
      have ownsEntries : ∀ entry ∈ (world.template t).blueprint.attributes,
          ∀ slot ∈ entrySlots n entry, Owns world t n slot := by
        intro entry member slot inside
        refine ⟨t, n, .root t n, ?_⟩
        rw [Blueprint.slots, if_neg (by simp [text])]
        exact List.mem_flatMap.mpr ⟨entry, member, inside⟩
      have ownsNested : ∀ inner child, (inner, child) ∈
          (world.template t).blueprint.nested.zip (world.dom.children n) →
          ∀ slot, Owns world inner child slot → Owns world t n slot := by
        rintro inner child paired slot ⟨inmost, node, matched, member⟩
        exact ⟨inmost, node, .nested text paired matched, member⟩
      refine (Blueprint.yields_renderElement (sound t).named isPure applicable
        ownsEntries count fun inner child paired =>
          ⟨grafts inner child text paired,
            ownsNested inner child paired⟩).bind ?_
      rintro _ record world' ⟨rfl, records, works, recorded⟩
      refine .pure ⟨rfl, works.fills, fun nodes spans nodup => ?_⟩
      obtain ⟨counted, below⟩ :=
        List.forall₂_iff_zip.mp (recorded nodes spans nodup)
      obtain ⟨saved, attributes, bindings, children⟩ := record
      have sameText : saved = none := works.text
      have sameAttributes := works.attributes
      have sameChildren : children = records := works.children
      simp only [Record.empty, List.nil_append] at sameAttributes
      rw [sameText, sameAttributes, sameChildren]
      exact .element text counted fun _ _ _ paired => below paired

theorem grafts_passWithin {mounter : Mounter σ} {fuel : Nat} {world : World σ}
    {t : TemplateId} {n : NodeId} (sound : world.HasSoundTemplates)
    (fits : Graftable world t n) (isPure : IsPure host world t n)
    (enough : t.index < fuel) :
    Nested.Grafts host (passWithin host mounter fuel) world t n := by
  induction fuel generalizing world t n with
  | zero => exact absurd enough (Nat.not_lt_zero _)
  | succ fuel ih =>
      intro later path form
      have soundLater := form.hasSoundTemplates sound
      have fitsLater := form.graftable fits
      have isPureLater := isPure.of_sameForm form
      have nested : ∀ inner child, (later.template t).blueprint.text = none →
          (inner, child) ∈ (later.template t).blueprint.nested.zip
            (later.dom.children n) →
          Nested.Grafts host (passWithin host mounter fuel) later inner
            child := by
        intro inner child text paired
        refine ih soundLater ?_ ?_ ?_
        · exact (((graftable_element_iff text).mp fitsLater).2.2.2) inner child
            paired
        · intro inmost node matched
          exact isPureLater inmost node (.nested text paired matched)
        · have older := (soundLater t).older inner
            (Blueprint.mem_children_of_mem_nested (List.of_mem_zip paired).1)
          exact Nat.lt_of_lt_of_le older (Nat.le_of_lt_succ enough)
      have stepwise : passWithin host mounter (fuel + 1) t (some n) path
          later = (passWith host mounter (passWithin host mounter fuel) t
            (later.template t).blueprint (some n) path).start .empty later :=
        start_pass host mounter (passWithin host mounter fuel) t (some n)
          path .empty later
      have passed : Pass.Yields (passWith host mounter _ t
          (later.template t).blueprint (some n) path) .empty later _ :=
        yields_passWith soundLater fitsLater (isPureLater t n (.root t n))
          nested
      obtain ⟨node, record, outcome, rfl, grafted⟩ := passed
      refine ⟨record, ?_, ?_⟩
      · unfold Act.result
        rw [stepwise]
        exact outcome
      · unfold Act.after
        rw [stepwise]
        exact grafted

end Template

end LiveTemplate
