import LiveTemplate.Proofs.Marking
import LiveTemplate.Proofs.Subscriptions

/-!
# Rendering again after a failure

A template that is refused by the checks is refused before anything has changed,
and one that passes them is rendered to the end if its views have come to
elements before, so that a failed rendering can be repeated.  A view that fails
on the way is different: what was mounted before it stays as it is, and nested
templates stay marked as rendered.
-/

namespace LiveTemplate

variable {σ : Type} {host : Host σ}

/-- The view has been rendered and has come to an element. -/
def World.IsMounted (world : World σ) (v : ViewId) : Prop :=
  (world.view v).rendered = true ∧
    ∃ element, (world.view v).element = some element

namespace Template

theorem marks_renderPass {mounter : Mounter σ} (reuses : mounter.Reuses)
    {world : World σ} {t : TemplateId} (sound : world.HasSoundTemplates)
    (settled : Member.IsSettled host world (.template t))
    (free : (world.template t).rendered = false)
    (checked : checkFresh world t = .ok ()) :
    ∃ node record templates, Unfolds world t templates ∧
      (renderPass host mounter t).result world = (.ok node, record) ∧
      world.Marks (· ∈ templates) ((renderPass host mounter t).after world) := by
  obtain ⟨below, unfolds, placeable⟩ := checkFresh_ok checked
  have unrendered : ∀ inner ∈ t :: below,
      (world.template inner).rendered = false := by
    intro inner member
    rcases List.mem_cons.mp member with rfl | inside
    · exact free
    · exact placeable.unrendered inner inside
  obtain ⟨node, record, outcome, marks⟩ := builds_passWithin reuses sound
    unfolds (nodup_of_placeable placeable) settled (Nat.lt_succ_self t.index)
    _ [] ((World.SameSetup.refl world).held
      (.refs [.template t] :: world.frames)) unrendered
  exact ⟨node, record, t :: below, unfolds, outcome, marks.release _⟩

/-- In every world that can be reached, a template whose views have all come to
elements before is rendered exactly if it has not been and passes the checks.
Whatever views there are, the world is as it was when a template is not
rendered, unless it passes the checks and has a view that has no element yet. -/
theorem render_all_or_nothing {client : σ} {world : World σ}
    (reached : Run (World.initial client) world) {t : TemplateId}
    (isPure : ∀ place inner, Stands world (.template t) place
      (.template inner) → (world.template inner).blueprint.IsPure host) :
    let passes := (world.template t).rendered = false ∧
      checkFresh world t = .ok ()
    ((∀ place v, Stands world (.template t) place (.view v) →
        world.IsMounted v) →
      ((∃ n, (render host t).result world = .ok n) ↔ passes)) ∧
    ∀ error, (render host t).result world = .error error →
      (render host t).after world = world ∨
        passes ∧ ∃ place v, Stands world (.template t) place (.view v) ∧
          ¬world.IsMounted v := by
  intro passes
  have sound := (reached.progress (World.ordered_initial client)).1.sound
  by_cases clear : passes
  · have renders (mounted : ∀ place v,
        Stands world (.template t) place (.view v) → world.IsMounted v) :
        ∃ n, (render host t).result world = .ok n := by
      have settled : Member.IsSettled host world (.template t) := by
        refine fun place inner stands => ⟨?_, ?_⟩
        · rintro other rfl
          exact isPure place other stands
        · rintro v rfl
          exact mounted place v stands
      obtain ⟨n, record, _, _, passed, _⟩ := marks_renderPass
        (View.reuses_mountWith (View.render host)) sound settled clear.1 clear.2
      exact ⟨n, congrArg Prod.fst
        (run_renderWith_of_passed clear.1 clear.2 passed)⟩
    refine ⟨fun mounted => iff_of_true (renders mounted) clear,
      fun error failed => .inr ⟨clear, ?_⟩⟩
    by_contra none
    obtain ⟨n, rendered⟩ := renders fun place v stands =>
      by_contra fun missing => none ⟨place, v, stands, missing⟩
    cases failed.symm.trans rendered
  · obtain ⟨error, refused⟩ :=
      run_renderWith_of_refused host (View.mount host) clear
    have result : (render host t).result world = .error error :=
      congrArg Prod.fst refused
    refine ⟨fun _ => iff_of_false ?_ clear,
      fun _ _ => .inl (congrArg Prod.snd refused)⟩
    rintro ⟨n, rendered⟩
    cases result.symm.trans rendered

namespace Halted

/-- A client whose code changes nothing. -/
def client : Host Unit where
  keeps _ := []
  notice _ _ := pure ()
  event _ _ := pure ()
  transform _ value _ := pure value
  destroy _ := pure ()

def card (members : List Member) : Blueprint :=
  { (Parts.ofTag "div" : Blueprint) with children := members }

/-- A paragraph, an element with the paragraph and a view that has no template,
and one with the view and the paragraph twice. -/
def start : World Unit :=
  { World.initial () with
    emitters := ⟨#[⟨[], []⟩]⟩
    templates := ⟨#[⟨.ofTag "p", false, none⟩,
      ⟨card [.template ⟨0⟩, .view ⟨0⟩], false, none⟩,
      ⟨card [.view ⟨0⟩, .template ⟨0⟩, .template ⟨0⟩], false, none⟩]⟩
    views := ⟨#[⟨⟨0⟩, ⟨0⟩, none, none, false, []⟩]⟩ }

theorem reached : Run (World.initial ()) start := by
  refine .aside rfl rfl rfl ⟨?_, ?_⟩
  · rintro ⟨index⟩ entry kept
    rcases index with _ | _ | _ | index <;> cases kept
  · rintro _ ⟨index⟩
    rcases index with _ | _ | _ | index
    · exact ⟨.nil, fun _ member => nomatch member⟩
    · refine ⟨.nil, fun t member => ?_⟩
      rcases List.mem_cons.mp member with same | later
      · cases same
        exact Nat.one_pos
      · cases List.mem_singleton.mp later
    · refine ⟨.nil, fun t member => ?_⟩
      rcases List.mem_cons.mp member with view | member
      · cases view
      · rcases List.mem_cons.mp member with same | later
        · cases same
          exact Nat.two_pos
        · cases List.mem_singleton.mp later
          exact Nat.two_pos
    · exact .none _

theorem isPure (t : TemplateId) :
    (start.template t).blueprint.IsPure client := by
  exact .of_bindings fun _ _ _ _ _ _ => rfl

end Halted

/-- The paragraph cannot have two places, and nothing is left of the attempt,
although the view in front of it has no element. -/
theorem render_twice_nested_leaves_world :
    (render Halted.client ⟨2⟩).result Halted.start = .error .alreadyRendered ∧
      (render Halted.client ⟨2⟩).after Halted.start = Halted.start := by
  have failed : (render Halted.client ⟨2⟩).result Halted.start =
      .error .alreadyRendered := rfl
  have unchanged := (render_all_or_nothing Halted.reached
    fun _ inner _ => Halted.isPure inner).2 _ failed
  refine ⟨failed, unchanged.resolve_right ?_⟩
  rintro ⟨⟨-, checked⟩, -⟩
  cases checked

/-- When the view turns out to have no element, the paragraph before it stays
marked as rendered, so that the element cannot be rendered later on. -/
theorem render_keeps_nested_rendered :
    (render Halted.client ⟨1⟩).result Halted.start =
        .error .componentNotRendered ∧
      (Halted.start.template ⟨0⟩).rendered = false ∧
      (((render Halted.client ⟨1⟩).after Halted.start).template
        ⟨0⟩).rendered = true := by
  refine ⟨?_, rfl, ?_⟩
  · decide +kernel
  · decide +kernel

end Template

end LiveTemplate
