import LiveTemplate.Proofs.Grafting
import LiveTemplate.Proofs.Subscriptions

/-!
# Applying succeeds or changes nothing

The checks of `apply` and the pass that follows them walk the definition and
the nodes separately.  They agree: what passes the checks is worked in to the
end, and whatever else is refused before anything has changed.
-/

namespace LiveTemplate

variable {σ : Type} {host : Host σ}

/-- What is held meanwhile makes no difference. -/
theorem Grafted.release {world later : World σ} {frames : List Frame}
    {t : TemplateId} {n : NodeId} {record : Record}
    (grafted : Grafted host (world.holding frames) t n record later)
    (restored : List Frame) :
    Grafted host world t n record (later.holding restored) := by
  have form : world.SameForm (world.holding frames) := ⟨rfl, .refl _⟩
  have fills := grafted.fills.mono fun slot owns => form.owns.mp owns
  refine ⟨⟨fills.templates, fills.written, fills.installed⟩, ?_⟩
  intro nodes spans nodup
  exact (grafted.recorded nodes spans nodup).of_rows rfl spans fun _ _ => rfl

namespace Template

theorem grafted_applyPass {world : World σ} {t : TemplateId} {n : NodeId}
    (sound : world.HasSoundTemplates) (fits : Graftable world t n)
    (isPure : IsPure host world t n) :
    ∃ record, (applyPass host t n).result world = (.ok n, record) ∧
      Grafted host world t n record ((applyPass host t n).after world) := by
  have form : world.SameForm
      (world.holding (.refs [.template t] :: world.frames)) := ⟨rfl, .refl _⟩
  obtain ⟨record, outcome, grafted⟩ := grafts_passWithin sound fits isPure
    (Nat.lt_succ_self t.index) _ [] form
  exact ⟨record, outcome, grafted.release world.frames⟩

/-- In every world that can be reached `apply` succeeds exactly if the template
is not in force and fits the node, and leaves the world as it was when it does
not succeed. -/
theorem apply_all_or_nothing {client : σ} {world : World σ}
    (reached : Run (World.initial client) world) {t : TemplateId} {n : NodeId}
    (isPure : IsPure host world t n) :
    ((∃ m, (apply host t n).result world = .ok m) ↔
      (world.template t).applied = none ∧ Graftable world t n) ∧
    ∀ error, (apply host t n).result world = .error error →
      (apply host t n).after world = world := by
  have ordered := (reached.progress (World.ordered_initial client)).1
  have runs := run_apply host t n world
  unfold Act.result Act.after
  cases applied : (world.template t).applied with
  | some entry =>
      rw [runs, if_pos (by simp [applied])]
      simp
  | none =>
      rw [if_neg (by simp [applied])] at runs
      cases checked : checkApply world t n with
      | error error =>
          have misfit : ¬Graftable world t n := by
            intro fits
            rw [(checkApply_ok_iff ordered.sound).mpr fits] at checked
            cases checked
          rw [checked] at runs
          rw [runs]
          simp [misfit]
      | ok =>
          have fits := (checkApply_ok_iff ordered.sound).mp checked
          obtain ⟨record, passed, _⟩ :=
            grafted_applyPass ordered.sound fits isPure
          have succeeds := run_apply_of_passed applied checked
            (Prod.ext passed rfl)
          rw [succeeds]
          simp [fits]

namespace Card

/-- A client whose code changes nothing. -/
def client : Host Unit where
  keeps _ := []
  notice _ _ := pure ()
  event _ _ := pure ()
  transform _ value _ := pure value
  destroy _ := pure ()

def binding : Binding := ⟨⟨0⟩, ⟨0⟩, "x", .value, some ⟨0⟩⟩

/-- An element with a text in it, a template for the text, and one for the
element that has a collection before the text. -/
def start : World Unit :=
  { World.initial () with
    dom := ⟨⟨#[⟨.element "html" "p" [⟨none, "class", "a"⟩], none, [⟨1⟩]⟩,
      ⟨.text "old", some ⟨0⟩, []⟩]⟩⟩
    emitters := ⟨#[⟨[], []⟩]⟩
    templates := ⟨#[⟨.ofText [.bound binding], false, none⟩,
      ⟨⟨none, none, none, [("class", [.bound binding])],
        [("click@p", [⟨⟨0⟩, ⟨0⟩, .emit "y"⟩])],
        [.collection ⟨0⟩, .template ⟨0⟩]⟩, false, none⟩]⟩ }

theorem reached : Run (World.initial ()) start := by
  refine .aside rfl rfl rfl ⟨?_, ?_⟩
  · rintro ⟨index⟩ entry kept
    rcases index with _ | _ | index <;> cases kept
  · rintro _ ⟨index⟩
    rcases index with _ | _ | index
    · exact ⟨.nil, fun _ member => nomatch member⟩
    · refine ⟨by decide, fun t member => ?_⟩
      rcases List.mem_cons.mp member with same | later
      · cases same
      · cases List.mem_singleton.mp later
        exact Nat.one_pos
    · exact .none _

theorem isPure (t : TemplateId) (n : NodeId) : IsPure client start t n := by
  intro _ _ _
  exact .of_bindings fun _ _ _ _ _ _ => rfl

private theorem graftable_text : Graftable start ⟨0⟩ ⟨1⟩ := by
  exact .text rfl rfl rfl

theorem parsed_key : ∃ parsed, parseListenerKey "click@p" = .ok parsed := by
  have accepted : (parseListenerKey "click@p").isOk = true := by
    decide +kernel
  cases found : parseListenerKey "click@p" with
  | ok parsed => exact ⟨parsed, rfl⟩
  | error error =>
      rw [found] at accepted
      cases accepted

private theorem graftable_element : Graftable start ⟨1⟩ ⟨0⟩ := by
  refine .element rfl rfl ⟨?_, ?_, ?_, ?_⟩ rfl ?_
  · intro entry member
    rw [List.mem_singleton.mp member]
    exact parseListenerKey_ok_iff.mp parsed_key
  · intro entry member
    rw [List.mem_singleton.mp member]
    exact fun impossible => absurd impossible (by decide)
  · intro v member
    rcases List.mem_cons.mp member with same | later
    · cases same
    · cases List.mem_singleton.mp later
  · intro n member
    rcases List.mem_cons.mp member with same | later
    · cases same
    · cases List.mem_singleton.mp later
  · intro nested child member
    cases List.mem_singleton.mp member
    exact graftable_text

end Card

/-- The template is worked into the element and refused by its text. -/
theorem apply_element_and_not_text :
    (∃ m, (apply Card.client ⟨1⟩ ⟨0⟩).result Card.start = .ok m) ∧
      (apply Card.client ⟨1⟩ ⟨1⟩).after Card.start = Card.start := by
  have element := apply_all_or_nothing Card.reached (Card.isPure ⟨1⟩ ⟨0⟩)
  have text := apply_all_or_nothing Card.reached (Card.isPure ⟨1⟩ ⟨1⟩)
  refine ⟨element.1.mpr ⟨rfl, Card.graftable_element⟩, ?_⟩
  have misfit : ¬Graftable Card.start ⟨1⟩ ⟨1⟩ := by
    intro fits
    have isElement := ((graftable_element_iff rfl).mp fits).1
    cases isElement
  cases outcome : (apply Card.client ⟨1⟩ ⟨1⟩).result Card.start with
  | ok m => exact absurd (text.1.mp ⟨m, outcome⟩).2 misfit
  | error error => exact text.2 error outcome

end Template

end LiveTemplate
