import LiveTemplate.Proofs.Leftovers
import LiveTemplate.Proofs.Runs

/-!
# Rendering that fails

Views are rendered inside templates and templates inside views, with less fuel
for each view.  Whatever has been mounted when a rendering fails, the ledgers
then hold what they held before and what views registered whose own rendering
was completed meanwhile.
-/

namespace LiveTemplate

variable {σ : Type} {host : Host σ} {among : ViewId → Prop}

namespace View

private theorem eligible_template {world : World σ} {v : ViewId}
    {t : TemplateId}
    (eligible : Member.IsEligible host among world (.view v))
    (fresh : (world.view v).rendered = false)
    (found : (world.view v).template = some t) :
    Member.IsEligible host among world (.template t) := by
  intro _ inner stands
  exact eligible _ inner (.view fresh found stands)

theorem after_settleMount (v : ViewId) (outcome : Except TemplateError Unit)
    (world : World σ) : (settleMount v outcome).after world = world := by
  cases outcome with
  | error => rfl
  | ok => exact congrArg Prod.snd (run_settleMount_ok v world)

/-- What rendering a view leaves registered was registered by views. -/
def Tallies (host : Host σ) (among : ViewId → Prop)
    (render : ViewId → Act σ (Except TemplateError Unit)) : Prop :=
  ∀ v (world : World σ), Member.IsEligible host among world (.view v) →
    world.Booked → ∃ interludes,
      Tally host among [] interludes world ((render v).after world)

theorem Tallies.mount {render : ViewId → Act σ (Except TemplateError Unit)}
    (renders : Tallies host among render) :
    Mounter.Tallies host among (mountWith render) := by
  intro v world eligible booked
  have runs := run_mountWith render v world
  unfold Act.after
  rw [runs]
  split
  · refine ⟨[], ?_⟩
    have unchanged := after_settleMount v (.ok ()) world
    unfold Act.after at unchanged
    rw [unchanged]
    exact .refl world
  · obtain ⟨interludes, tally⟩ := renders v world eligible booked
    refine ⟨interludes, ?_⟩
    have unchanged := after_settleMount v ((render v).result world)
      ((render v).after world)
    rw [← unchanged] at tally
    exact tally

theorem tally_completed {v : ViewId} {fuel : Nat} {change : View → View}
    (template : ∀ view, (change view).template = view.template)
    (rendered : ∀ view, (change view).rendered = true)
    {world between : World σ} (named : among v) (booked : world.Booked)
    (done : renderWithin host fuel v world =
      (.ok (), (update v change).after between))
    {revokers : List RevokerId} {interludes : List (Interlude σ)}
    (tally : Tally host among revokers interludes world between) :
    ∃ interludes, Tally host among [] interludes world
      ((renderWithin host fuel v).after world) := by
  have marked : Run between ((update v change).after between) :=
    (runs_update v change between (tally.owned booked).ordered).run
  have completed := tally.completed named done marked
    (advances_update v template rendered between) rfl rfl rfl rfl
  unfold Act.after at completed ⊢
  rw [done]
  exact ⟨_, completed⟩

/-- A view that could be rendered is an interlude; otherwise the views inside
it are. -/
theorem tallies_renderWithin (host : Host σ) (among : ViewId → Prop)
    (fuel : Nat) : Tallies host among (renderWithin host fuel) := by
  induction fuel with
  | zero => exact fun _ world _ _ => ⟨[], .refl world⟩
  | succ fuel ih =>
      intro v world eligible booked
      have named := (eligible [] _ (.here _)).among v rfl
      have runs := run_renderWithin host fuel v world
      by_cases rendered : (world.view v).rendered = true
      · rw [if_pos rendered] at runs
        refine ⟨[], ?_⟩
        unfold Act.after
        rw [runs]
        exact .refl world
      rw [if_neg rendered] at runs
      cases found : (world.view v).template with
      | none =>
          simp only [found] at runs
          refine tally_completed ?_ ?_ named booked runs (.refl world) <;>
            exact fun _ => rfl
      | some t =>
          simp only [found] at runs
          have entered : world.SameSetup
              (world.holding (.refs [.view v] :: world.frames)) :=
            (World.SameSetup.refl world).held _
          obtain ⟨revokers, interludes, inside, released⟩ :=
            Template.tally_renderWith ih.mount ((eligible_template eligible
              (Bool.eq_false_iff.mpr rendered) found).advance entered.advances)
              (booked.of_same (.holding world _) rfl rfl)
          have tally := inside.keeping booked
          rw [← result_keeping] at released
          generalize keeping _ _ = rendering at runs tally released
          change _ = settleRender v (rendering.result world)
            (rendering.after world) at runs
          generalize rendering.result world = outcome at runs released
          cases outcome with
          | error error =>
              cases released error rfl
              unfold Act.after
              rw [runs]
              exact ⟨interludes, tally⟩
          | ok element =>
              refine tally_completed ?_ ?_ named booked runs tally <;>
                exact fun _ => rfl

theorem tallies_render (host : Host σ) (among : ViewId → Prop) :
    Tallies host among (render host) := by
  intro v world eligible booked
  unfold render
  rw [Act.after_bind]
  exact tallies_renderWithin host among _ v world eligible booked

end View

namespace Template

/-- When rendering a template fails in a world that can be reached, every list
of listeners and every count of live subscriptions is as before, except for
what views registered that stand in the template and were rendered to the end
meanwhile. -/
theorem render_error_keeps_views_only {client : σ} {world : World σ}
    (reached : Run (World.initial client) world)
    (owned : ∀ e, ∀ r ∈ (world.emitter e).subscriptions,
      r.index < world.revokers.size)
    {t : TemplateId}
    (isPure : ∀ place inner, Stands world (.template t) place
      (.template inner) → (world.template inner).blueprint.IsPure host)
    {error : TemplateError}
    (failed : (render host t).result world = .error error) :
    let later := (render host t).after world
    ∃ interludes, Trail host
        (fun v => ∃ place, Stands world (.template t) place (.view v))
        world interludes later ∧
      (∀ ledger, later.ledger ledger = world.ledger ledger ++
        interludes.flatMap fun interlude => interlude.added ledger) ∧
      ∀ e, Emitter.liveCount later e = Emitter.liveCount world e +
        (interludes.flatMap fun interlude =>
          interlude.added (.emitter e)).length := by
  intro later
  have booked : world.Booked :=
    ⟨(reached.progress (World.ordered_initial client)).1, owned⟩
  have eligible : Member.IsEligible host
      (fun v => ∃ place, Stands world (.template t) place (.view v)) world
      (.template t) := by
    intro place inner stands
    refine ⟨fun other same => isPure place other ?_, fun v same => ⟨place, ?_⟩⟩
    · exact same ▸ stands
    · exact same ▸ stands
  obtain ⟨revokers, interludes, tally, released⟩ :=
    tally_renderWith (View.tallies_render host _).mount eligible booked
  cases released error failed
  have grown (ledger : Ledger) : later.ledger ledger = world.ledger ledger ++
      interludes.flatMap fun interlude => interlude.added ledger :=
    tally.grown_nil ledger
  refine ⟨interludes, tally.trail, grown, fun e => ?_⟩
  simp only [World.liveCount_eq_length_ledger, grown, List.length_append]

namespace Halfway

/-- A client whose code changes nothing. -/
def client : Host Unit where
  keeps _ := []
  notice _ _ := pure ()
  event _ _ := pure ()
  transform _ value _ := pure value
  destroy _ := pure ()

/-- A schema for a property, the subscriptions of which go to an emitter. -/
def shows (e : EmitterId) : Schema :=
  [.bound ⟨⟨0⟩, e, "x", .value, none⟩]

/-- A view with a text, another one without a template, and an element with a
title and both of them. -/
def start : World Unit :=
  { World.initial () with
    properties := ⟨#[[("x", .text "a")]]⟩
    emitters := ⟨#[⟨[], []⟩, ⟨[], []⟩, ⟨[], []⟩]⟩
    templates := ⟨#[⟨.ofText (shows ⟨1⟩), false, none⟩,
      ⟨⟨some "div", none, none, [("title", shows ⟨0⟩)], [],
        [.view ⟨0⟩, .view ⟨1⟩]⟩, false, none⟩]⟩
    views := ⟨#[⟨⟨0⟩, ⟨1⟩, some ⟨0⟩, none, false, []⟩,
      ⟨⟨0⟩, ⟨2⟩, none, none, false, []⟩]⟩ }

theorem reached : Run (World.initial ()) start := by
  refine .aside rfl rfl rfl ⟨?_, ?_⟩
  · rintro ⟨index⟩ entry kept
    rcases index with _ | _ | index <;> cases kept
  · rintro _ ⟨index⟩
    rcases index with _ | _ | index
    · exact ⟨.nil, fun _ member => nomatch member⟩
    · refine ⟨by decide, fun t member => ?_⟩
      rcases List.mem_cons.mp member with same | later
      · cases same
      · cases List.mem_singleton.mp later
    · exact .none _

theorem owned (e : EmitterId) :
    ∀ r ∈ (start.emitter e).subscriptions, r.index < start.revokers.size := by
  obtain ⟨index⟩ := e
  rcases index with _ | _ | _ | index <;> exact fun _ member => nomatch member

theorem isPure (t : TemplateId) :
    (start.template t).blueprint.IsPure client := by
  exact .of_bindings fun _ _ _ _ _ _ => rfl

theorem fails : (render client ⟨1⟩).result start =
    .error .componentNotRendered := by
  decide +kernel

end Halfway

/-- The title is not kept up to date any more, while the text of the view that
was rendered still is. -/
theorem render_error_keeps_text_of_view :
    let later := (render Halfway.client ⟨1⟩).after Halfway.start
    (∃ interludes, Trail Halfway.client
        (fun v => ∃ place,
          Stands Halfway.start (.template ⟨1⟩) place (.view v))
        Halfway.start interludes later ∧
      (∀ ledger, later.ledger ledger = Halfway.start.ledger ledger ++
        interludes.flatMap fun interlude => interlude.added ledger) ∧
      ∀ e, Emitter.liveCount later e = Emitter.liveCount Halfway.start e +
        (interludes.flatMap fun interlude =>
          interlude.added (.emitter e)).length) ∧
    Emitter.liveCount later ⟨0⟩ = 0 ∧ Emitter.liveCount later ⟨1⟩ = 1 := by
  refine ⟨render_error_keeps_views_only Halfway.reached Halfway.owned
    (fun _ _ _ => Halfway.isPure _) Halfway.fails, ?_, ?_⟩
  · decide +kernel
  · decide +kernel

end Template

end LiveTemplate
