import Mathlib.Data.List.TakeDrop
import Mathlib.Data.List.TakeWhile
import LiveTemplate.Proofs.Templates

/-!
# What the checks before applying say

`Graftable` describes which templates fit which nodes.  It does without fuel,
paths and errors; the check finds no fault exactly when it holds.
-/

namespace LiveTemplate

open Selector (SelectorList)

variable {σ : Type}

theorem Except.bind_eq_ok_iff {ε α β : Type} {first : Except ε α}
    {next : α → Except ε β} {b : β} :
    first >>= next = .ok b ↔ ∃ a, first = .ok a ∧ next a = .ok b := by
  cases first <;> simp [bind, Except.bind]

/-- A check that comes before another computation. -/
theorem Except.check_eq_ok_iff {ε β : Type} {check : Except ε Unit}
    {next : Except ε β} {b : β} :
    (check >>= fun _ => next) = .ok b ↔ check = .ok () ∧ next = .ok b := by
  cases check <;> simp [bind, Except.bind]

/-- A condition that is refused before another computation. -/
theorem Except.refuse_eq_ok_iff {ε β : Type} {refused : Prop}
    [Decidable refused] {error : ε} {next : Except ε β} {b : β} :
    (if refused then do
      let _ ← (throw error : Except ε PUnit)
      next
    else next) = .ok b ↔ ¬refused ∧ next = .ok b := by
  split <;> simp [*, throw, throwThe, MonadExceptOf.throw, bind, Except.bind]

theorem Except.forM_eq_ok_iff {ε α : Type} {items : List α}
    {check : α → Except ε Unit} :
    items.forM check = .ok () ↔ ∀ item ∈ items, check item = .ok () := by
  induction items with
  | nil => simp [List.forM, pure, Except.pure]
  | cons item rest ih =>
      have stepwise : (item :: rest).forM check =
          check item >>= fun _ => rest.forM check := rfl
      rw [stepwise, check_eq_ok_iff, ih, List.forall_mem_cons]

/-- What follows the first at sign of a listener key is a selector. -/
def IsListenerKey (key : String) : Prop :=
  ∀ event selector, key.toList = event ++ '@' :: selector → '@' ∉ event →
    ∃ selectors, SelectorList.parse (String.ofList selector) = .ok selectors

/-- A schema with a map of style properties has nothing else but values that
never change. -/
def Schema.IsStyleOrPlain (schema : Schema) : Prop :=
  (∃ properties, .styles properties ∈ schema) → ∀ chunk ∈ schema,
    (∃ properties, chunk = .styles properties) ∨ ∃ value, chunk = .fixed value

def Member.template? : Member → Option TemplateId
  | .template t => some t
  | _ => none

namespace Blueprint

/-- The nested templates, in order. -/
def nested (blueprint : Blueprint) : List TemplateId :=
  blueprint.children.filterMap Member.template?

theorem mem_children_of_mem_nested {blueprint : Blueprint} {t : TemplateId}
    (member : t ∈ blueprint.nested) : .template t ∈ blueprint.children := by
  obtain ⟨child, inside, found⟩ := List.mem_filterMap.mp member
  cases child with
  | template other =>
      cases found
      exact inside
  | _ => cases found

/-- What is asked of a definition whatever node it is applied to. -/
structure IsApplicable (blueprint : Blueprint) : Prop where
  listeners : ∀ entry ∈ blueprint.listeners, IsListenerKey entry.1
  styles : ∀ entry ∈ blueprint.attributes, entry.1 = "style" →
    Schema.IsStyleOrPlain entry.2
  views : ∀ v, .view v ∉ blueprint.children
  nodes : ∀ n, .node n ∉ blueprint.children

end Blueprint

/-- A template fits a node, and the templates nested in it fit its children,
one for one. -/
inductive Graftable (world : World σ) : TemplateId → NodeId → Prop where
  | text {t : TemplateId} {n : NodeId} :
      (world.template t).blueprint.tag = none →
      (world.template t).blueprint.text.isSome = true →
      world.dom.isText n = true → Graftable world t n
  | element {t : TemplateId} {n : NodeId} :
      (world.template t).blueprint.text = none →
      world.dom.isElement n = true →
      (world.template t).blueprint.IsApplicable →
      (world.template t).blueprint.nested.length =
        (world.dom.children n).length →
      (∀ nested child, (nested, child) ∈
        (world.template t).blueprint.nested.zip (world.dom.children n) →
        Graftable world nested child) →
      Graftable world t n

section Graftable

variable {world : World σ} {t : TemplateId} {n : NodeId}

theorem graftable_text_iff {schema : Schema}
    (text : (world.template t).blueprint.text = some schema) :
    Graftable world t n ↔
      (world.template t).blueprint.tag = none ∧ world.dom.isText n = true := by
  constructor
  · intro fits
    cases fits with
    | text tag _ isText => exact ⟨tag, isText⟩
    | element missing =>
        rw [text] at missing
        cases missing
  · rintro ⟨tag, isText⟩
    exact .text tag (by rw [text]; rfl) isText

theorem graftable_element_iff
    (text : (world.template t).blueprint.text = none) :
    Graftable world t n ↔
      world.dom.isElement n = true ∧
        (world.template t).blueprint.IsApplicable ∧
        (world.template t).blueprint.nested.length =
          (world.dom.children n).length ∧
        ∀ nested child, (nested, child) ∈
          (world.template t).blueprint.nested.zip (world.dom.children n) →
          Graftable world nested child := by
  constructor
  · intro fits
    cases fits with
    | text _ present =>
        rw [text] at present
        cases present
    | element _ element applicable count each =>
        exact ⟨element, applicable, count, each⟩
  · rintro ⟨element, applicable, count, each⟩
    exact .element text element applicable count each

end Graftable

theorem span_at_sign {key event selector : List Char}
    (split : key = event ++ '@' :: selector) (before : '@' ∉ event) :
    key.span (· != '@') = (event, '@' :: selector) := by
  have passed : ∀ c ∈ event, (c != '@') = true := by
    intro c member
    simp only [bne_iff_ne, ne_eq]
    rintro rfl
    exact before member
  rw [List.span_eq_takeWhile_dropWhile, split,
    List.takeWhile_append_of_pos passed, List.dropWhile_append_of_pos passed]
  simp

theorem parseListenerKey_ok_iff {key : String} :
    (∃ parsed, parseListenerKey key = .ok parsed) ↔ IsListenerKey key := by
  by_cases present : '@' ∈ key.toList
  · obtain ⟨event, selector, split, before⟩ :=
      List.eq_append_cons_of_mem present
    have parts := span_at_sign split before
    have parsed : (∃ parsed, parseListenerKey key = .ok parsed) ↔
        ∃ selectors, SelectorList.parse (String.ofList selector) =
          .ok selectors := by
      unfold parseListenerKey
      rw [parts]
      dsimp only
      cases SelectorList.parse (String.ofList selector) <;> simp
    rw [parsed]
    constructor
    · intro accepted event' selector' split' before'
      have same := parts.symm.trans (span_at_sign split' before')
      cases same
      exact accepted
    · intro accepted
      exact accepted event selector split before
  · have parts : key.toList.span (· != '@') = (key.toList, []) := by
      have passed : ∀ c ∈ key.toList, (c != '@') = true := by
        intro c member
        simp only [bne_iff_ne, ne_eq]
        rintro rfl
        exact present member
      rw [List.span_eq_takeWhile_dropWhile,
        List.takeWhile_eq_self_iff.mpr passed,
        List.dropWhile_eq_nil_iff.mpr passed]
    constructor
    · intro _parsed event selector split _before
      rw [split] at present
      simp at present
    · intro _accepted
      unfold parseListenerKey
      rw [parts]
      exact ⟨_, rfl⟩

theorem foldStyle_ok_iff {map : StyleMap} {chunk : Chunk} :
    (∃ later, foldStyle map chunk = .ok later) ↔
      (∃ properties, chunk = .styles properties) ∨
        ∃ value, chunk = .fixed value := by
  cases chunk with
  | fixed value =>
      rw [foldStyle]
      split <;> simp
  | bound binding => simp [foldStyle]
  | namespaced namespaceName chunks => simp [foldStyle]
  | styles properties => simp [foldStyle]

private theorem foldlM_foldStyle_ok_iff (map : StyleMap) {schema : Schema} :
    (∃ later, schema.foldlM foldStyle map = .ok later) ↔
      ∀ chunk ∈ schema, (∃ properties, chunk = .styles properties) ∨
        ∃ value, chunk = .fixed value := by
  induction schema generalizing map with
  | nil =>
      simp only [List.foldlM_nil, List.not_mem_nil, false_implies,
        implies_true, iff_true]
      exact ⟨map, rfl⟩
  | cons chunk rest ih =>
      simp only [List.foldlM_cons, Except.bind_eq_ok_iff, List.mem_cons,
        forall_eq_or_imp]
      constructor
      · rintro ⟨final, between, head, tail⟩
        exact ⟨foldStyle_ok_iff.mp ⟨between, head⟩, (ih between).mp ⟨final, tail⟩⟩
      · rintro ⟨head, tail⟩
        obtain ⟨between, folded⟩ := foldStyle_ok_iff.mpr head
        obtain ⟨final, rest⟩ := (ih between).mpr tail
        exact ⟨final, between, folded, rest⟩

theorem styleMap?_fault_iff {schema : Schema} :
    (∃ fault, styleMap? schema = some (.error fault)) ↔
      ¬schema.IsStyleOrPlain := by
  have mapped : schema.any Chunk.isStyles = true ↔
      ∃ properties, .styles properties ∈ schema := by
    rw [List.any_eq_true]
    constructor
    · rintro ⟨chunk, member, styles⟩
      cases chunk with
      | styles properties => exact ⟨properties, member⟩
      | _ => cases styles
    · rintro ⟨properties, member⟩
      exact ⟨_, member, rfl⟩
  unfold styleMap? Schema.IsStyleOrPlain
  rw [← mapped, ← foldlM_foldStyle_ok_iff []]
  by_cases styles : schema.any Chunk.isStyles = true
  · rw [if_pos styles]
    cases schema.foldlM foldStyle [] <;> simp [styles]
  · rw [if_neg styles]
    simp [styles]

namespace Blueprint

theorem checkEntries_ok_iff {blueprint : Blueprint} :
    blueprint.checkEntries = .ok () ↔
      (∀ entry ∈ blueprint.listeners, IsListenerKey entry.1) ∧
        ∀ entry ∈ blueprint.attributes, entry.1 = "style" →
          Schema.IsStyleOrPlain entry.2 := by
  unfold checkEntries
  rw [Except.check_eq_ok_iff, Except.forM_eq_ok_iff, Except.forM_eq_ok_iff]
  refine and_congr (forall₂_congr ?_) (forall₂_congr ?_)
  · rintro ⟨key, bindings⟩ _member
    rw [← parseListenerKey_ok_iff]
    dsimp only
    cases parseListenerKey key <;> simp [bind, Except.bind, pure, Except.pure]
  · rintro ⟨name, schema⟩ _member
    dsimp only
    by_cases style : name = "style"
    · simp only [style, beq_self_eq_true, if_true, true_implies]
      split
      · rename_i fault found
        simp only [throw, throwThe, MonadExceptOf.throw, reduceCtorEq, false_iff]
        exact styleMap?_fault_iff.mp ⟨fault, found⟩
      · rename_i sound
        refine ⟨fun _ => ?_, fun _ => rfl⟩
        by_contra faulty
        obtain ⟨fault, found⟩ := styleMap?_fault_iff.mpr faulty
        exact sound fault found
    · simp [style, pure, Except.pure]

private theorem checkApplicable_ok_iff {path : DefinitionPath} {index : Nat}
    {children : List Member} :
    checkApplicable path index children = .ok () ↔
      (∀ v, .view v ∉ children) ∧ ∀ n, .node n ∉ children := by
  induction children generalizing index with
  | nil => simp [checkApplicable]
  | cons member rest ih =>
      cases member with
      | view v =>
          simp only [checkApplicable, reduceCtorEq, false_iff]
          exact fun clear => clear.1 v (.head _)
      | node n =>
          simp only [checkApplicable, reduceCtorEq, false_iff]
          exact fun clear => clear.2 n (.head _)
      | template t => simpa [checkApplicable] using ih
      | collection c => simpa [checkApplicable] using ih

theorem templateCount_eq (blueprint : Blueprint) :
    blueprint.templateCount = blueprint.nested.length := by
  unfold templateCount nested
  induction blueprint.children with
  | nil => rfl
  | cons member rest ih =>
      cases member <;> simp [Member.isTemplate, Member.template?, ih,
        List.countP_cons, List.filterMap_cons]

end Blueprint

namespace Template

/-- Nested templates are checked one for one when there are as many of them as
nodes. -/
theorem checkApplyChildren_ok_iff {mismatch : TemplateError}
    {path : DefinitionPath} {index : Nat}
    {check : TemplateId → NodeId → DefinitionPath →
      Except TemplateError Unit}
    {fits : TemplateId → NodeId → Prop} {members : List Member}
    {nodes : List NodeId}
    (decides : ∀ t, .template t ∈ members → ∀ n path,
      check t n path = .ok () ↔ fits t n)
    (count : (members.filterMap Member.template?).length = nodes.length) :
    checkApplyChildren mismatch path check index members nodes = .ok () ↔
      ∀ t n, (t, n) ∈ (members.filterMap Member.template?).zip nodes →
        fits t n := by
  induction members generalizing index nodes with
  | nil => simp [checkApplyChildren]
  | cons member rest ih =>
      have later : ∀ t, .template t ∈ rest → ∀ n path,
          check t n path = .ok () ↔ fits t n :=
        fun t inside => decides t (List.mem_cons_of_mem member inside)
      cases member with
      | template t =>
          cases nodes with
          | nil => simp [Member.template?] at count
          | cons n nodes =>
              have remaining :
                  (rest.filterMap Member.template?).length = nodes.length := by
                simpa [Member.template?] using count
              rw [checkApplyChildren, Except.check_eq_ok_iff,
                decides t (.head _), ih later remaining]
              constructor
              · rintro ⟨head, tail⟩ t' n' member
                rcases List.mem_cons.mp member with same | inside
                · cases same
                  exact head
                · exact tail t' n' inside
              · intro each
                exact ⟨each t n (.head _), fun t' n' inside =>
                  each t' n' (.tail _ inside)⟩
      | view v => exact ih later count
      | collection c => exact ih later count
      | node n => exact ih later count

private theorem checkApplyWithin_ok_iff {world : World σ}
    (sound : world.HasSoundTemplates) {fuel : Nat} {t : TemplateId}
    (enough : t.index < fuel) {n : NodeId} {path : DefinitionPath} :
    checkApplyWithin world fuel t n path = .ok () ↔ Graftable world t n := by
  induction fuel generalizing t n path with
  | zero => exact absurd enough (Nat.not_lt_zero _)
  | succ fuel ih =>
      have decides : ∀ t', .template t' ∈ (world.template t).blueprint.children →
          ∀ n path, checkApplyWithin world fuel t' n path = .ok () ↔
            Graftable world t' n := by
        intro t' member n path
        exact ih (Nat.lt_of_lt_of_le ((sound t).older t' member)
          (Nat.le_of_lt_succ enough))
      unfold checkApplyWithin
      dsimp only
      rw [Except.refuse_eq_ok_iff]
      cases text : (world.template t).blueprint.text with
      | some schema =>
          rw [graftable_text_iff text]
          simp only [Option.isSome_some, Bool.and_true, if_true,
            Option.not_isSome_iff_eq_none]
          refine and_congr_right fun _ => ?_
          cases world.dom.isText n <;>
            simp [throw, throwThe, MonadExceptOf.throw, pure, Except.pure]
      | none =>
          rw [graftable_element_iff text]
          simp only [Option.isSome_none, Bool.and_false, Bool.false_eq_true,
            if_false, not_false_eq_true, true_and, Except.refuse_eq_ok_iff,
            Except.check_eq_ok_iff, Blueprint.checkEntries_ok_iff,
            Blueprint.checkApplicable_ok_iff, Blueprint.templateCount_eq]
          constructor
          · rintro ⟨element, entries, children, count, each⟩
            have counted := not_not.mp count
            refine ⟨by simpa using element, ⟨entries.1, entries.2, children.1,
              children.2⟩, counted, ?_⟩
            exact (checkApplyChildren_ok_iff decides counted).mp each
          · rintro ⟨element, applicable, count, each⟩
            refine ⟨by simpa using element,
              ⟨applicable.listeners, applicable.styles⟩,
              ⟨applicable.views, applicable.nodes⟩, not_not.mpr count, ?_⟩
            exact (checkApplyChildren_ok_iff decides count).mpr each

theorem checkApply_ok_iff {world : World σ}
    (sound : world.HasSoundTemplates) {t : TemplateId} {n : NodeId} :
    checkApply world t n = .ok () ↔ Graftable world t n :=
  checkApplyWithin_ok_iff sound (Nat.lt_succ_self _)

end Template

end LiveTemplate
