import Mathlib.Data.List.Forall2
import LiveTemplate.Proofs.Validation

/-!
# What the checks before rendering say

The check walks the templates nested in a template, in order.  It accepts a
template exactly when each of them is well-formed, none has been rendered and
none has two places.  `Unfolds` lists the templates, so that the pass that
follows can be compared with the list.
-/

namespace LiveTemplate

variable {σ : Type}

/-- What is asked of a definition that is rendered. -/
structure Blueprint.IsRenderable (blueprint : Blueprint) : Prop where
  shape : blueprint.tag.isSome ≠ blueprint.text.isSome
  listeners : ∀ entry ∈ blueprint.listeners, IsListenerKey entry.1
  styles : ∀ entry ∈ blueprint.attributes, entry.1 = "style" →
    Schema.IsStyleOrPlain entry.2

namespace Template

/-- The templates in the definition of a template, itself first, each of them
well-formed. -/
inductive Unfolds (world : World σ) : TemplateId → List TemplateId → Prop where
  | node {t : TemplateId} {parts : List (List TemplateId)} :
      (world.template t).blueprint.IsRenderable →
      (world.template t).blueprint.nested.length = parts.length →
      (∀ inner part, (inner, part) ∈
        (world.template t).blueprint.nested.zip parts →
        Unfolds world inner part) →
      Unfolds world t (t :: parts.flatten)

variable {world : World σ}

theorem unfolds_iff {t : TemplateId} {templates : List TemplateId} :
    Unfolds world t templates ↔
      (world.template t).blueprint.IsRenderable ∧
        ∃ parts, templates = t :: parts.flatten ∧
          List.Forall₂ (Unfolds world) (world.template t).blueprint.nested
            parts := by
  constructor
  · intro unfolds
    cases unfolds with
    | @node _ parts renderable count each =>
        exact ⟨renderable, parts, rfl, List.forall₂_iff_zip.mpr
          ⟨count, fun paired => each _ _ paired⟩⟩
  · rintro ⟨renderable, parts, rfl, each⟩
    obtain ⟨count, paired⟩ := List.forall₂_iff_zip.mp each
    exact .node renderable count fun _ _ member => paired member

/-- Templates can be placed: they have not been rendered and have one place
each, apart from those that were placed before. -/
structure Placeable (world : World σ) (seen templates : List TemplateId) :
    Prop where
  nodup : templates.Nodup
  unseen : ∀ t ∈ templates, t ∉ seen
  unrendered : ∀ t ∈ templates, (world.template t).rendered = false

theorem Placeable.nil (seen : List TemplateId) : Placeable world seen [] := by
  refine ⟨.nil, ?_, ?_⟩
  · intro _ member
    exact (nomatch member)
  · intro _ member
    exact (nomatch member)

/-- Placing some templates after others. -/
theorem Placeable.append {seen first second : List TemplateId}
    (early : Placeable world seen first)
    (late : Placeable world (seen ++ first) second) :
    Placeable world seen (first ++ second) where
  nodup := by
    refine List.nodup_append.mpr ⟨early.nodup, late.nodup, ?_⟩
    rintro t before _ after rfl
    exact late.unseen t after (List.mem_append_right _ before)
  unseen t member := by
    rcases List.mem_append.mp member with before | after
    · exact early.unseen t before
    · exact fun old => late.unseen t after (List.mem_append_left _ old)
  unrendered t member := by
    rcases List.mem_append.mp member with before | after
    · exact early.unrendered t before
    · exact late.unrendered t after

theorem Placeable.single {seen : List TemplateId} {t : TemplateId}
    (unrendered : (world.template t).rendered = false) (unseen : t ∉ seen) :
    Placeable world seen [t] where
  nodup := by simp
  unseen other member := by
    rw [List.mem_singleton.mp member]
    exact unseen
  unrendered other member := by
    rw [List.mem_singleton.mp member]
    exact unrendered

private theorem checkFreshChildren_ok
    {check : TemplateId → List TemplateId →
      Except TemplateError (List TemplateId)} {members : List Member}
    {seen later : List TemplateId}
    (sound : ∀ t seen later, check t seen = .ok later →
      ∃ below, later = seen ++ below ∧ Unfolds world t (t :: below) ∧
        Placeable world seen below)
    (passed : checkFreshChildren world check members seen = .ok later) :
    ∃ parts, later = seen ++ parts.flatten ∧
      List.Forall₂ (Unfolds world) (members.filterMap Member.template?)
        parts ∧ Placeable world seen parts.flatten := by
  induction members generalizing seen with
  | nil =>
      cases passed
      exact ⟨[], by simp, .nil, .nil _⟩
  | cons member rest ih =>
      cases member with
      | template t =>
          rw [checkFreshChildren] at passed
          split at passed
          · cases passed
          · rename_i free
            simp only [Bool.or_eq_true, List.contains_eq_mem,
              decide_eq_true_eq, not_or, Bool.not_eq_true] at free
            obtain ⟨between, head, tail⟩ :=
              Except.bind_eq_ok_iff.mp passed
            obtain ⟨below, rfl, unfolds, placeable⟩ :=
              sound t _ _ head
            obtain ⟨parts, rfl, each, others⟩ := ih tail
            refine ⟨(t :: below) :: parts, by simp, .cons unfolds each, ?_⟩
            rw [List.append_assoc] at others
            exact ((Placeable.single free.1 free.2).append placeable).append
              others
      | view v => exact ih passed
      | collection c => exact ih passed
      | node n => exact ih passed

theorem checkFreshWithin_ok {fuel : Nat} {t : TemplateId}
    {seen later : List TemplateId}
    (passed : checkFreshWithin world fuel t seen = .ok later) :
    ∃ below, later = seen ++ below ∧ Unfolds world t (t :: below) ∧
      Placeable world seen below := by
  induction fuel generalizing t seen later with
  | zero => cases passed
  | succ fuel ih =>
      rw [checkFreshWithin] at passed
      dsimp only at passed
      rw [Except.refuse_eq_ok_iff, Except.check_eq_ok_iff,
        Blueprint.checkEntries_ok_iff] at passed
      obtain ⟨shape, ⟨listeners, styles⟩, children⟩ := passed
      obtain ⟨parts, same, each, placeable⟩ :=
        checkFreshChildren_ok (fun _ _ _ => ih) children
      exact ⟨parts.flatten, same, unfolds_iff.mpr
        ⟨⟨shape, listeners, styles⟩, parts, rfl, each⟩, placeable⟩

/-- What the check before rendering says about the templates of a tree. -/
theorem checkFresh_ok {t : TemplateId}
    (passed : checkFresh world t = .ok ()) :
    ∃ below, Unfolds world t (t :: below) ∧ Placeable world [t] below := by
  obtain ⟨later, checked, _⟩ := Except.bind_eq_ok_iff.mp passed
  obtain ⟨below, _, unfolds, placeable⟩ := checkFreshWithin_ok checked
  exact ⟨below, unfolds, placeable⟩

theorem nodup_of_placeable {t : TemplateId} {below : List TemplateId}
    (placeable : Placeable world [t] below) : (t :: below).Nodup := by
  refine List.nodup_cons.mpr ⟨fun member => ?_, placeable.nodup⟩
  exact placeable.unseen t member (List.mem_singleton_self t)

theorem checkFresh_congr {later : World σ}
    (blueprints : ∀ t,
      (later.template t).blueprint = (world.template t).blueprint)
    (rendered : ∀ t,
      (later.template t).rendered = (world.template t).rendered)
    (t : TemplateId) : checkFresh later t = checkFresh world t := by
  have children (check : TemplateId → List TemplateId →
      Except TemplateError (List TemplateId)) (members : List Member)
      (seen : List TemplateId) :
      checkFreshChildren later check members seen =
        checkFreshChildren world check members seen := by
    induction members generalizing seen with
    | nil => rfl
    | cons member rest ih =>
        cases member with
        | template t => simp only [checkFreshChildren, rendered, ih]
        | view v => exact ih seen
        | collection c => exact ih seen
        | node n => exact ih seen
  have within (fuel : Nat) :
      checkFreshWithin later fuel = checkFreshWithin world fuel := by
    induction fuel with
    | zero => rfl
    | succ fuel ih =>
        funext t seen
        simp only [checkFreshWithin, blueprints, children, ih]
  rw [checkFresh, checkFresh, within]

end Template

end LiveTemplate
