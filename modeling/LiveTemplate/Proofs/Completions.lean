import LiveTemplate.Proofs.Entries

/-!
# What is entered by rendering

Passes are followed to their ends, and so are the rendering of templates and
views and the mounting of views.  Whatever fails on the way, templates are
marked exactly as they are entered.
-/

namespace LiveTemplate

variable {σ : Type} {host : Host σ} {mounter : Mounter (σ × Register)}
  {nested : Nested (σ × Register)}

/-- What holds however a pass ends holds of its outcome and of what it leaves
behind. -/
theorem Pass.Ends.outcome {α : Type} {pass : Pass σ α} {record : Record}
    {world : World σ} (holds : Except TemplateError α → World σ → Prop)
    (ends : Ends pass record world (fun a later => holds (.ok a) later)
      fun later => ∀ error, holds (.error error) later) :
    holds ((start pass record).result world).1
      ((start pass record).after world) := by
  unfold Ends at ends
  split at ends <;> rename_i found <;> rw [found]
  · exact ends
  · exact ends _

namespace World.Enters

variable {world between : World (σ × Register)} {scope : TemplateId → Prop}
  {entries : Register}

theorem single {t : TemplateId} (free : (world.template t).rendered = false)
    (inside : scope t) (n : NodeId) :
    world.Enters ((enter t none (.ok n)).after
      ((Template.update t fun template =>
        { template with rendered := true }).after world)) scope [(t, n)] := by
  have mark := (Template.sameSetup_markRendered t world).advances
  constructor
  · constructor
    · simp
    · intro other member
      rw [List.mem_singleton.mp member]
      exact free
    · intro other
      change (((Template.update t _).after world).template other).rendered =
        true ↔ _
      by_cases same : other = t
      · rw [same, Template.template_update]
        simp
      · rw [Template.template_update_of_ne _ _ same]
        simp [same]
  · exact ⟨mark.blueprints, mark.members, mark.templates, mark.rendered⟩
  · change _ ≤ (world.templates.modify t.index _).size
    rw [Store.size_modify]
    exact Nat.le_max_left _ _
  · rfl
  · intro other member
    rw [List.mem_singleton.mp member]
    exact inside

theorem complete {t : TemplateId}
    (enters : world.Enters between (fun inner => scope inner ∧ inner ≠ t)
      entries)
    (free : (world.template t).rendered = false) (inside : scope t)
    (n : NodeId) :
    world.Enters ((enter t none (.ok n)).after
      ((Template.update t fun template =>
        { template with rendered := true }).after between)) scope
      (entries ++ [(t, n)]) := by
  refine (enters.mono fun _ both => both.1).trans (single ?_ inside n)
  refine Bool.eq_false_iff.mpr fun rendered => ?_
  rcases (enters.rendered t).mp rendered with before | entered
  · rw [free] at before
    cases before
  · exact (enters.covered t entered).2 rfl

end World.Enters

namespace Template

variable (aside : host.TransformsAside)

include aside

private theorem enters_freshPass (mounts : mounter.Enters)
    (nests : nested.Enters)
    {t : TemplateId} (path : DefinitionPath) {world : World (σ × Register)}
    (acyclic : Member.IsAcyclic world (.template t)) :
    let passed := (pass host.beside mounter nested t none path).start .empty
    ∃ entries, world.Enters
      ((enter t none (passed.result world).1).after (passed.after world))
      (fun inner => world.Composes (.template t) (.template inner))
      entries := by
  intro passed
  by_cases rendered : (world.template t).rendered = true
  · have runs := start_pass host.beside mounter nested t none path .empty world
    rw [Option.isNone_none, Bool.true_and, if_pos rendered] at runs
    change passed world = _ at runs
    unfold Act.result Act.after
    rw [runs]
    exact ⟨[], .refl world⟩
  -- What is entered on the way is not the template itself.
  have completes {body : Pass (σ × Register) NodeId}
      (within : body.Within (world.Entering fun inner =>
        world.Composes (.template t) (.template inner) ∧ inner ≠ t)) :
      Pass.Ends body .empty world
        (fun n later => ∃ entries, world.Enters ((enter t none (.ok n)).after
          ((update t fun template =>
            { template with rendered := true }).after later))
          (fun inner => world.Composes (.template t) (.template inner)) entries)
        (fun later => ∀ error, ∃ entries, world.Enters
          ((enter t none (.error error)).after later)
          (fun inner => world.Composes (.template t) (.template inner))
          entries) := by
    refine (Pass.Ends.of_within within).weaken (fun n later enters => ?_)
      fun later enters => ?_
    · obtain ⟨entries, enters⟩ := enters (.refl world)
      exact ⟨_, enters.complete (Bool.eq_false_iff.mpr rendered)
        (.refl world _) n⟩
    · obtain ⟨entries, enters⟩ := enters (.refl world)
      exact fun _ => ⟨entries, enters.mono fun _ both => both.1⟩
  refine Pass.Ends.outcome (fun outcome later =>
    ∃ entries, world.Enters ((enter t none outcome).after later)
      (fun inner => world.Composes (.template t) (.template inner)) entries)
    (ends_pass (fun _ => ⟨[], .refl world⟩) (fun _ => ?_) fun text => ?_)
  · exact completes (Blueprint.entering_renderText aside _ none)
  · have empty := Option.isNone_iff_eq_none.mp
      (Option.isSome_eq_false_iff.mp text)
    refine completes (Blueprint.entering_renderElement mounts nests aside _
      none path (fun member inside => ?_) fun _ member inside inner below => ?_)
    · exact acyclic.below (World.composes_child empty inside)
    · refine ⟨(World.composes_child empty inside).trans below, ?_⟩
      rintro rfl
      exact acyclic.not_composes empty inside below

/-- The pass of a template that is applied to a node, in which nothing is
entered. -/
theorem enters_targetPass (mounts : mounter.Enters) (nests : nested.Enters)
    {t : TemplateId} (n : NodeId) (path : DefinitionPath)
    {world : World (σ × Register)}
    (acyclic : Member.IsAcyclic world (.template t)) :
    ∃ entries, world.Enters
      (((pass host.beside mounter nested t (some n) path).start .empty).after
        world) (fun _ => False) entries := by
  have steady := World.steady_entering world fun _ => False
  have passed : (passWith host.beside mounter nested t
      (world.template t).blueprint (some n) path).Within
        (world.Entering fun _ => False) := by
    have finished (node : NodeId) : Pass.Within (world.Entering fun _ => False)
        (pure node : Pass (σ × Register) NodeId) := steady.passPure node
    unfold passWith
    by_cases text : (world.template t).blueprint.text.isSome = true
    · rw [if_pos text]
      exact steady.passBind (Blueprint.entering_renderText aside _ _) finished
    · have empty := Option.isNone_iff_eq_none.mp
        (Option.isSome_eq_false_iff.mp (Bool.eq_false_iff.mpr text))
      rw [if_neg text]
      exact steady.passBind (Blueprint.entering_renderElement mounts nests aside
        _ (some n) path (fun member inside =>
          acyclic.below (World.composes_child empty inside))
        fun impossible => absurd impossible (Option.some_ne_none n)) finished
  have runs :=
    start_pass host.beside mounter nested t (some n) path .empty world
  rw [Option.isNone_some, Bool.false_and, if_neg Bool.false_ne_true] at runs
  unfold Act.after
  rw [runs]
  exact passed .empty world (.refl world)

theorem enters_enterWithin (mounts : mounter.Enters) (fuel : Nat) :
    Nested.Enters (enterWithin host.beside mounter fuel) := by
  induction fuel with
  | zero => exact fun _ _ _ world _ => ⟨[], .refl world⟩
  | succ fuel ih =>
      intro t target path world acyclic
      cases target with
      | none =>
          obtain ⟨entries, enters⟩ :=
            enters_freshPass aside mounts ih path acyclic
          exact ⟨entries, enters.mono fun _ composes => ⟨rfl, composes⟩⟩
      | some n =>
          obtain ⟨entries, enters⟩ :=
            enters_targetPass aside mounts ih n path acyclic
          exact ⟨entries, enters.mono fun _ impossible => impossible.elim⟩

theorem enters_renderEntering (mounts : mounter.Enters) {t : TemplateId}
    {world : World (σ × Register)}
    (acyclic : Member.IsAcyclic world (.template t)) :
    ∃ entries, world.Enters
      ((renderEntering host.beside mounter t).after world)
      (fun inner => world.Composes (.template t) (.template inner))
      entries := by
  change ∃ entries, world.Enters ((ite _ _ _ : Act _ _) world).2 _ entries
  split
  · exact ⟨[], .refl world⟩
  cases checkFresh world t with
  | error error => exact ⟨[], .refl world⟩
  | ok =>
      have entered :=
        world.advances_holding (.refs [.template t] :: world.frames)
      obtain ⟨entries, enters⟩ := enters_enterWithin aside mounts (t.index + 1)
        t none [] _ (acyclic.advance entered)
      have passed : world.Enters ((keeping (.refs [.template t])
          (enterWithin host.beside mounter (t.index + 1) t none [])).after
            world)
          (fun inner => world.Composes (.template t) (.template inner))
          entries := by
        rw [after_keeping]
        exact enters.release.mono fun _ inside => entered.composes inside.2
      change ∃ entries, world.Enters ((_ >>= release : Act _ _).after world) _
        entries
      rw [Act.after_bind]
      generalize (keeping (.refs [.template t]) (enterWithin host.beside mounter
        (t.index + 1) t none [])).result world = result
      obtain ⟨error | n, record⟩ := result
      · exact ⟨_, passed.trans (.of_leaves (.revokeAll record _))⟩
      · exact ⟨entries, passed⟩

theorem enters_applyEntering {t : TemplateId} (n : NodeId)
    {world : World (σ × Register)}
    (acyclic : Member.IsAcyclic world (.template t)) :
    ∃ entries, world.Enters ((applyEntering host.beside t n).after world)
      (fun _ => False) entries := by
  change ∃ entries, world.Enters ((ite _ _ _ : Act _ _) world).2 _ entries
  split
  · exact ⟨[], .refl world⟩
  cases checkApply world t n with
  | error error => exact ⟨[], .refl world⟩
  | ok =>
      have entered :=
        world.advances_holding (.refs [.template t] :: world.frames)
      have mounts : Mounter.Enters (σ := σ)
          (fun _ => return .error .componentNotRendered) :=
        fun _ world _ => ⟨[], .refl world⟩
      obtain ⟨entries, enters⟩ := enters_enterWithin aside mounts (t.index + 1)
        t (some n) [] _ (acyclic.advance entered)
      have passed : world.Enters ((keeping (.refs [.template t])
          (enterWithin host.beside (fun _ => return .error .componentNotRendered)
            (t.index + 1) t (some n) [])).after world) (fun _ => False)
          entries := by
        rw [after_keeping]
        exact enters.release.mono fun _ inside => nomatch inside.1
      change ∃ entries, world.Enters ((_ >>= settle t n : Act _ _).after world) _
        entries
      rw [Act.after_bind]
      generalize (keeping (.refs [.template t]) (enterWithin host.beside
        (fun _ => return .error .componentNotRendered) (t.index + 1) t (some n)
          [])).result world = result
      obtain ⟨error | node, record⟩ := result
      · exact ⟨_, passed.trans (.of_leaves (.restore n record _))⟩
      · exact ⟨_, passed.trans (.of_leaves (.keep t _ _))⟩

end Template

namespace View

variable (aside : host.TransformsAside)

include aside

omit aside in
/-- Views are marked as rendered without entries. -/
theorem enters_update (v : ViewId) {change : View → View}
    (template : ∀ view, (change view).template = view.template)
    (rendered : ∀ view, (change view).rendered = true)
    (world : World (σ × Register)) (scope : TemplateId → Prop) :
    world.Enters ((update v change).after world) scope [] := by
  exact .none_of_advances (advances_update v template rendered world)
    (Nat.le_refl _) rfl fun _ => rfl

omit aside in
theorem enters_mountWith
    {render : ViewId → Act (σ × Register) (Except TemplateError Unit)}
    (renders : ∀ v (world : World (σ × Register)),
      Member.IsAcyclic world (.view v) → ∃ entries,
        world.Enters ((render v).after world)
          (fun t => world.Composes (.view v) (.template t)) entries) :
    Mounter.Enters (mountWith render) := by
  intro v world acyclic
  have runs := run_mountWith render v world
  unfold Act.after
  rw [runs]
  split
  · have unchanged := after_settleMount v (.ok ()) world
    unfold Act.after at unchanged
    rw [unchanged]
    exact ⟨[], .refl world⟩
  · have unchanged := after_settleMount v ((render v).result world)
      ((render v).after world)
    change ∃ entries, world.Enters
      ((settleMount v ((render v).result world)).after
        ((render v).after world)) _ entries
    rw [unchanged]
    exact renders v world acyclic

theorem enters_renderEntering (fuel : Nat) (v : ViewId)
    (world : World (σ × Register))
    (acyclic : Member.IsAcyclic world (.view v)) :
    ∃ entries, world.Enters
      ((View.renderEntering host.beside fuel v).after world)
      (fun t => world.Composes (.view v) (.template t)) entries := by
  induction fuel generalizing v world with
  | zero => exact ⟨[], .refl world⟩
  | succ fuel ih =>
      change ∃ entries, world.Enters ((ite _ _ _ : Act _ _) world).2 _ entries
      split
      · exact ⟨[], .refl world⟩
      rename_i fresh
      cases found : (world.view v).template with
      | none =>
          have marked (scope : TemplateId → Prop) :
              world.Enters ((update v fun view =>
                { view with rendered := true }).after world) scope [] :=
            enters_update v (by intro; rfl) (by intro; rfl) world scope
          exact ⟨[], marked _⟩
      | some t =>
          have composes :=
            World.composes_template (Bool.eq_false_iff.mpr fresh) found
          have entered :=
            world.advances_holding (.refs [.view v] :: world.frames)
          obtain ⟨entries, enters⟩ := Template.enters_renderEntering aside
            (enters_mountWith ih) ((acyclic.below composes).advance entered)
          have passed : world.Enters ((keeping (.refs [.view v])
              (Template.renderEntering host.beside
                (mountWith (View.renderEntering host.beside fuel)) t)).after
                  world)
              (fun t => world.Composes (.view v) (.template t)) entries := by
            rw [after_keeping]
            exact enters.release.mono fun _ inside =>
              composes.trans (entered.composes inside)
          change ∃ entries, world.Enters
            ((_ >>= settleRender v : Act _ _).after world) _ entries
          rw [Act.after_bind]
          generalize (keeping (.refs [.view v]) (Template.renderEntering
            host.beside (mountWith (View.renderEntering host.beside fuel))
              t)).result world = outcome
          cases outcome with
          | error error => exact ⟨entries, passed⟩
          | ok element =>
              have marked (world : World (σ × Register))
                  (scope : TemplateId → Prop) :
                  world.Enters ((update v fun view =>
                    { view with element := some element, rendered := true
                      }).after world) scope [] :=
                enters_update v (by intro; rfl) (by intro; rfl) world scope
              exact ⟨_, passed.trans (marked _ _)⟩

theorem enters_mountEntering : (mountEntering host.beside).Enters := by
  exact enters_mountWith fun v world acyclic => by
    rw [Act.after_bind]
    exact enters_renderEntering aside _ v world acyclic

end View

end LiveTemplate
