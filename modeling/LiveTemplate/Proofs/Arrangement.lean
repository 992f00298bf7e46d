import Mathlib.Logic.Relation
import LiveTemplate.Proofs.Templates
import LiveTemplate.Proofs.Trees
import LiveTemplate.View

/-!
# How views are arranged

A view is over the views in its template, at whatever depth of nesting, and
over the members of the collections it owns.  Where no view is below itself, no
more views are below each other than there are, so that the depth which
`View.destroy` allows for is never reached.
-/

namespace LiveTemplate

variable {σ : Type} {world : World σ}

namespace Template

/-- A view stands among the children of a template or of one nested in it. -/
inductive Carries (world : World σ) : TemplateId → ViewId → Prop where
  | child {t : TemplateId} {v : ViewId} :
      .view v ∈ (world.template t).blueprint.children → Carries world t v
  | nested {t inner : TemplateId} {v : ViewId} :
      .template inner ∈ (world.template t).blueprint.children →
      Carries world inner v → Carries world t v

theorem carries_congr {later : World σ}
    (same : later.templates = world.templates) {t : TemplateId} {v : ViewId} :
    Carries later t v ↔ Carries world t v := by
  have moves {first second : World σ} (same : second.templates = first.templates)
      (carries : Carries first t v) : Carries second t v := by
    induction carries with
    | child member =>
        refine .child ?_
        rwa [World.template, same]
    | nested member _ ih =>
        refine .nested ?_ ih
        rwa [World.template, same]
  exact ⟨moves same.symm, moves same⟩

private theorem mem_viewsAmong {nested : TemplateId → List ViewId} {v : ViewId}
    {members : List Member} :
    v ∈ viewsAmong nested members ↔
      .view v ∈ members ∨ ∃ t, .template t ∈ members ∧ v ∈ nested t := by
  induction members with
  | nil => simp [viewsAmong]
  | cons member rest ih =>
      cases member with
      | view other => simp [viewsAmong, ih, or_assoc]
      | template t =>
          simp only [viewsAmong, List.mem_append, ih, List.mem_cons,
            reduceCtorEq, false_or, Member.template.injEq]
          constructor
          · rintro (here | there | ⟨t, member, inside⟩)
            · exact .inr ⟨t, .inl rfl, here⟩
            · exact .inl there
            · exact .inr ⟨t, .inr member, inside⟩
          · rintro (there | ⟨other, rfl | member, inside⟩)
            · exact .inr (.inl there)
            · exact .inl inside
            · exact .inr (.inr ⟨other, member, inside⟩)
      | collection c => simp [viewsAmong, ih]
      | node n => simp [viewsAmong, ih]

/-- Nested templates are older, so that the search ends with nothing left. -/
theorem mem_viewsWithin (sound : world.HasSoundTemplates) {v : ViewId}
    {fuel : Nat} {t : TemplateId} (deep : t.index < fuel) :
    v ∈ viewsWithin world fuel t ↔ Carries world t v := by
  induction fuel generalizing t with
  | zero => exact absurd deep (Nat.not_lt_zero _)
  | succ fuel ih =>
      rw [viewsWithin, mem_viewsAmong]
      have older (inner : TemplateId)
          (member : .template inner ∈ (world.template t).blueprint.children) :
          v ∈ viewsWithin world fuel inner ↔ Carries world inner v :=
        ih (Nat.lt_of_lt_of_le ((sound t).older inner member)
          (Nat.le_of_lt_succ deep))
      constructor
      · rintro (here | ⟨inner, member, inside⟩)
        · exact .child here
        · exact .nested member ((older inner member).mp inside)
      · intro carries
        cases carries with
        | child here => exact .inl here
        | nested member inside =>
            exact .inr ⟨_, member, (older _ member).mpr inside⟩

theorem mem_views_iff (sound : world.HasSoundTemplates) {t : TemplateId}
    {v : ViewId} : v ∈ views world t ↔ Carries world t v :=
  mem_viewsWithin sound (Nat.lt_succ_self _)

end Template

namespace World

/-- A view stands in the template of another, or it is a member of a collection
that the other one owns. -/
inductive Over (world : World σ) (v inner : ViewId) : Prop where
  | placed {t : TemplateId} :
      (world.view v).template = some t → Template.Carries world t inner →
      Over world v inner
  | member {c : CollectionId} :
      c ∈ (world.view v).collections → inner ∈ (world.collection c).members →
      Over world v inner

/-- A view itself or one that is below it, at whatever depth. -/
def Reaches (world : World σ) : ViewId → ViewId → Prop :=
  Relation.ReflTransGen world.Over

/-- No view that is reached from the given one is below itself. -/
def IsAcyclicBelow (world : World σ) (v : ViewId) : Prop :=
  ∀ inner, world.Reaches v inner →
    ¬Relation.TransGen world.Over inner inner

theorem IsAcyclicBelow.inner {v inner : ViewId}
    (acyclic : world.IsAcyclicBelow v) (step : world.Over v inner) :
    world.IsAcyclicBelow inner := by
  intro other reached
  exact acyclic other (.head step reached)

theorem IsAcyclicBelow.of_descending (number : ViewId → Nat)
    (descends : ∀ v inner, world.Over v inner → number inner < number v)
    (v : ViewId) : world.IsAcyclicBelow v := by
  intro inner _ ring
  have falls {above below : ViewId}
      (chain : Relation.TransGen world.Over above below) :
      number below < number above := by
    induction chain with
    | single step => exact descends _ _ step
    | tail _ step ih => exact Nat.lt_trans (descends _ _ step) ih
  exact Nat.lt_irrefl _ (falls ring)

theorem Over.index_lt {v inner : ViewId} (step : world.Over v inner) :
    v.index < world.views.size := by
  by_cases within : v.index < world.views.size
  · exact within
  · have missing : world.view v = default := by
      unfold Store.size at within
      simp [view, Store.get, Array.getElem?_eq_none (Nat.le_of_not_lt within)]
    cases step with
    | placed template _ =>
        rw [missing] at template
        cases template
    | member owned _ =>
        rw [missing] at owned
        cases owned

/-- Less than the given number of views are below each other, starting with the
given one. -/
def Shallow (world : World σ) : Nat → ViewId → Prop
  | 0, _ => False
  | depth + 1, v => ∀ inner, world.Over v inner → world.Shallow depth inner

theorem Shallow.mono {depth more : Nat} {v : ViewId}
    (shallow : world.Shallow depth v) (enough : depth ≤ more) :
    world.Shallow more v := by
  induction depth generalizing more v with
  | zero => exact shallow.elim
  | succ depth ih =>
      obtain ⟨more, rfl⟩ := Nat.exists_eq_add_of_le' (Nat.lt_of_lt_of_le
        (Nat.succ_pos depth) enough)
      exact fun inner step => ih (shallow inner step) (Nat.le_of_succ_le_succ
        enough)

/-- The views passed on the way down are different ones that are there. -/
theorem shallow_of_passed {v : ViewId} (acyclic : world.IsAcyclicBelow v)
    {passed : List ViewId} (nodup : passed.Nodup)
    (above : ∀ a ∈ passed, a.index < world.views.size ∧
      Relation.TransGen world.Over a v) {depth : Nat}
    (enough : world.views.size < depth + passed.length) :
    world.Shallow depth v := by
  induction depth generalizing v passed with
  | zero =>
      have injective : Function.Injective ViewId.index := by
        intro left right same
        cases left
        cases right
        exact congrArg ViewId.mk same
      have fits := length_le_of_numbered injective nodup
        fun a member => (above a member).1
      omega
  | succ depth ih =>
      intro inner step
      have fresh : v ∉ passed := fun before =>
        acyclic v .refl (above v before).2
      refine ih (acyclic.inner step) (List.nodup_cons.mpr ⟨fresh, nodup⟩)
        (fun a member => ?_) ?_
      · rcases List.mem_cons.mp member with rfl | before
        · exact ⟨step.index_lt, .single step⟩
        · exact ⟨(above a before).1, (above a before).2.tail step⟩
      · rw [List.length_cons]
        omega

theorem IsAcyclicBelow.shallow {v : ViewId}
    (acyclic : world.IsAcyclicBelow v) :
    world.Shallow (View.depthBound world) v := by
  refine shallow_of_passed acyclic List.nodup_nil
    (fun _ member => absurd member List.not_mem_nil) ?_
  have room : world.views.size + 1 ≤
      (world.views.size + 1) * (world.collections.size + 1) :=
    Nat.le_mul_of_pos_right _ (Nat.succ_pos _)
  unfold View.depthBound
  rw [List.length_nil]
  omega

end World

end LiveTemplate
