import LiveTemplate.Proofs.Tracking

/-!
# Templates, views and collections

Passes were followed for their records.  What the operations do around a pass
is a run as well, and so is what views and collections do.
-/

namespace LiveTemplate

variable {σ : Type}

variable {host : Host σ}

namespace Template

theorem runs_passWithin (orderly : host.Orderly) {mounter : Mounter σ}
    (mounts : Mounter.RunsWithin (fun _ => True) mounter) (fuel : Nat)
    (t : TemplateId) (target : Option NodeId) (path : DefinitionPath) :
    (passWithin host mounter fuel t target path).Runs := by
  intro world ordered
  exact .of_run (accounts_passWithin orderly.transform mounts fuel t target path
    world ordered).2.run

theorem runs_renderWith (orderly : host.Orderly) {mounter : Mounter σ}
    (mounts : Mounter.RunsWithin (fun _ => True) mounter) (t : TemplateId) :
    (renderWith host mounter t).Runs := by
  refine .bind .get fun world => .ite (fun _ => .pure _) fun _ =>
    .bind .get fun world => ?_
  split
  · exact .pure _
  · refine .bind (.keeping (runs_passWithin orderly mounts _ t none []))
      fun result => ?_
    split
    · exact .pure _
    · exact .bind (Record.runs_revokeAll _) fun _ => .pure _

theorem runs_add {blueprint : Blueprint} {world : World σ}
    (sound : blueprint.IsSound world.templates.size) :
    Run world ((add blueprint).after world) := by
  exact .aside rfl rfl rfl (keepsTemplates_add sound)

mutual

/-- Attributes are named once and templates are among the first ones. -/
def IsSound (limit : Nat) : Parts Child → Prop
  | ⟨_, _, _, attributes, _, children⟩ =>
      (attributes.map (·.1)).Nodup ∧ SoundChildren limit children

def SoundChild (limit : Nat) : Child → Prop
  | .definition parts => IsSound limit parts
  | .template t => t.index < limit
  | .view _ => True
  | .collection _ => True
  | .node _ => True

def SoundChildren (limit : Nat) : List Child → Prop
  | [] => True
  | child :: rest => SoundChild limit child ∧ SoundChildren limit rest

end

/-- Making templates is a run that only adds some. -/
structure Grows (world later : World σ) : Prop where
  run : Run world later
  size : world.templates.size ≤ later.templates.size

theorem Grows.trans {first second third : World σ}
    (early : Grows first second) (late : Grows second third) :
    Grows first third := by
  exact ⟨early.run.trans late.run, Nat.le_trans early.size late.size⟩

theorem grows_add {blueprint : Blueprint} {world : World σ}
    (sound : blueprint.IsSound world.templates.size) :
    Grows world ((add blueprint).after world) := by
  refine ⟨runs_add sound, ?_⟩
  simp [add, Store.alloc, Store.size]

theorem index_add_lt (blueprint : Blueprint) (world : World σ) :
    ((add blueprint).result world).index <
      ((add blueprint).after world).templates.size := by
  simp [add, Store.alloc, Store.size]

mutual

theorem grows_compile {limit : Nat} (parts : Parts Child)
    (sound : IsSound limit parts) {world : World σ}
    (bound : limit ≤ world.templates.size) :
    Grows world ((compile parts).after world) ∧
      ((compile parts).result world).IsSound
        ((compile parts).after world).templates.size := by
  obtain ⟨tag, namespaceName, text, attributes, listeners, children⟩ := parts
  rw [IsSound] at sound
  obtain ⟨grown, older⟩ := grows_compileChildren children sound.2 bound
  rw [compile]
  exact ⟨grown, sound.1, older⟩

theorem grows_compileChild {limit : Nat} (child : Child)
    (sound : SoundChild limit child) {world : World σ}
    (bound : limit ≤ world.templates.size) :
    Grows world ((compileChild child).after world) ∧
      ∀ t, (compileChild child).result world = .template t →
        t.index < ((compileChild child).after world).templates.size := by
  have same : Grows world world := ⟨.refl world, Nat.le_refl _⟩
  cases child with
  | definition parts =>
      rw [SoundChild] at sound
      obtain ⟨grown, nested⟩ := grows_compile parts sound bound
      rw [compileChild]
      refine ⟨grown.trans (grows_add nested), fun t made => ?_⟩
      cases made
      exact index_add_lt _ _
  | template t =>
      rw [SoundChild] at sound
      rw [compileChild]
      refine ⟨same, fun other made => ?_⟩
      cases made
      exact Nat.lt_of_lt_of_le sound bound
  | view v =>
      rw [compileChild]
      exact ⟨same, fun _ made => nomatch made⟩
  | collection c =>
      rw [compileChild]
      exact ⟨same, fun _ made => nomatch made⟩
  | node n =>
      rw [compileChild]
      exact ⟨same, fun _ made => nomatch made⟩

theorem grows_compileChildren {limit : Nat} (children : List Child)
    (sound : SoundChildren limit children) {world : World σ}
    (bound : limit ≤ world.templates.size) :
    Grows world ((compileChildren children).after world) ∧
      ∀ t, .template t ∈ (compileChildren children).result world →
        t.index < ((compileChildren children).after world).templates.size := by
  cases children with
  | nil =>
      rw [compileChildren]
      exact ⟨⟨.refl world, Nat.le_refl _⟩, fun _ member => nomatch member⟩
  | cons child rest =>
      rw [SoundChildren] at sound
      obtain ⟨grown, first⟩ := grows_compileChild child sound.1 bound
      obtain ⟨more, others⟩ := grows_compileChildren rest sound.2
        (Nat.le_trans bound grown.size)
      rw [compileChildren]
      refine ⟨grown.trans more, fun t member => ?_⟩
      rcases List.mem_cons.mp member with made | later
      · exact Nat.lt_of_lt_of_le (first t made.symm) more.size
      · exact others t later

end

/-- Making a template from a definition is a run. -/
theorem run_create {definition : Definition} {world : World σ}
    (sound : IsSound world.templates.size definition) :
    Run world ((create definition).after world) := by
  obtain ⟨grown, nested⟩ := grows_compile definition sound (Nat.le_refl _)
  exact grown.run.trans (runs_add nested)

private theorem runs_mergeWithin (fuel : Nat) (t : TemplateId)
    (extension : Blueprint) :
    (mergeWithin fuel t extension : Act σ Unit).Runs := by
  induction fuel generalizing t extension with
  | zero => exact .pure ()
  | succ fuel ih =>
      have merges : (update t fun template =>
          { template with blueprint := template.blueprint.merge extension } :
            Act σ Unit).Runs := by
        refine runs_update t (fun _ => .inl rfl) fun template limit sound => ?_
        exact sound.merge extension
      exact .bind merges fun _ => .bind .get fun _ => .forM fun _ => ih _ _

theorem run_extend {t : TemplateId} {definition : Definition}
    {world : World σ} (ordered : world.Ordered)
    (sound : IsSound world.templates.size definition) :
    Run world ((extend t definition).after world) := by
  obtain ⟨grown, _⟩ := grows_compile definition sound (Nat.le_refl _)
  unfold extend
  rw [Act.after_bind]
  refine grown.run.trans (Act.Runs.run ?_ (grown.run.progress ordered).1)
  refine .bind .get fun later => ?_
  split
  · exact .pure _
  · exact .bind (runs_mergeWithin _ t _) fun _ => .pure _

theorem runs_apply (orderly : host.Orderly) (t : TemplateId) (n : NodeId) :
    (apply host t n).Runs := by
  refine .bind .get fun world => .ite (fun _ => .pure _) fun _ =>
    .bind .get fun world => ?_
  split
  · exact .pure _
  · refine .bind_of (fun result => result.2.Flat)
      (.keeping (runs_passWithin orderly (fun _ => .pure _) _ t (some n) []))
      (fun world ordered => ?_) fun result flat => ?_
    · have entered := Run.holding world (.refs [.template t] :: world.frames)
      rw [result_keeping]
      exact (accounts_passWithin orderly.transform (fun _ => .pure _) _ t
        (some n) [] _ (entered.progress ordered).1).1
    · split
      · exact .bind (runs_keep t n flat) fun _ => .pure _
      · exact .bind (Record.runs_restore n _) fun _ => .pure _

theorem runs_revert (t : TemplateId) (n : NodeId) :
    (revert t n : Act σ (Except TemplateError Unit)).Runs := by
  refine .bind .get fun world => ?_
  split
  · refine .ite (fun _ => ?_) fun _ => .pure _
    refine .bind (runs_giveUp t) fun _ => ?_
    exact .bind (Record.runs_restore n _) fun _ => .pure _
  · exact .pure _

end Template

namespace View

theorem runs_update (v : ViewId) (change : View → View) :
    (update v change : Act σ Unit).Runs := by
  exact .aside (fun _ => rfl) (fun _ => rfl) (fun _ => rfl)
    fun _ => .of_templates rfl

theorem runs_mountWith {render : ViewId → Act σ (Except TemplateError Unit)}
    (renders : ∀ v, (render v).Runs) (v : ViewId) :
    (mountWith render v).Runs := by
  refine .bind .get fun world => ?_
  split <;> refine .bind ?_ fun outcome => ?_
  case isTrue.refine_1 => exact .pure _
  case isFalse.refine_1 => exact renders v
  all_goals
    dsimp only
    split
    · exact .pure _
    · refine .bind .get fun world => ?_
      split <;> exact .pure _

private theorem runs_renderWithin (orderly : host.Orderly) (fuel : Nat)
    (v : ViewId) :
    (renderWithin host fuel v).Runs := by
  induction fuel generalizing v with
  | zero => exact .pure _
  | succ fuel ih =>
      rw [renderWithin]
      refine .bind .get fun world => .ite (fun _ => .pure _) fun _ => ?_
      split
      · exact .bind (runs_update v _) fun _ => .pure _
      · refine .bind (.keeping (Template.runs_renderWith orderly
          (runs_mountWith ih) _)) fun outcome => ?_
        split
        · exact .pure _
        · exact .bind (runs_update v _) fun _ => .pure _

theorem runs_mount (orderly : host.Orderly) (v : ViewId) :
    (mount host v).Runs := by
  exact runs_mountWith
    (fun v => .bind .get fun _ => runs_renderWithin orderly _ v) v

end View

/-- Rendering a template is a run. -/
theorem Template.runs_render (orderly : host.Orderly) (t : TemplateId) :
    (Template.render host t).Runs :=
  runs_renderWith orderly (View.runs_mount orderly) t

namespace Collection

theorem runs_update (c : CollectionId) (change : Collection → Collection) :
    (update c change : Act σ Unit).Runs := by
  exact .aside (fun _ => rfl) (fun _ => rfl) (fun _ => rfl)
    fun _ => .of_templates rfl

theorem runs_detach (c : CollectionId) (v : ViewId) :
    (detach c v : Act σ Unit).Runs := by
  refine .bind .get fun world => ?_
  split
  · exact .modifyDom _
  · exact .pure ()

theorem runs_remove (c : CollectionId) (index : Nat) :
    (remove c index : Act σ (Option ViewId)).Runs := by
  refine .bind .get fun world => ?_
  split
  · exact .pure _
  · exact .bind (runs_update c _) fun _ =>
      .bind (runs_detach c _) fun _ => .pure _

theorem runs_clear (c : CollectionId) : (clear c : Act σ Unit).Runs := by
  refine .bind .get fun _ => ?_
  exact .bind (runs_update c _) fun _ => .forM (runs_detach c)

theorem runs_addAt (orderly : host.Orderly) (c : CollectionId) (index : Nat)
    (v : ViewId) : (addAt host c index v).Runs := by
  refine .bind .get fun _ => .bind (.keeping (View.runs_mount orderly v))
    fun outcome => ?_
  split
  · exact .pure _
  · refine .bind (runs_update c _) fun _ => .bind .get fun world => ?_
    dsimp only
    split
    · exact .bind (.modifyDom _) fun _ => .pure _
    · exact .pure _

private theorem runs_destroyWith {destroyView : ViewId → Act σ Unit}
    (destroys : ∀ v, (destroyView v).Runs) (c : CollectionId) :
    (destroyWith destroyView c).Runs := by
  refine .bind .get fun _ => ?_
  refine .bind (runs_update c _) fun _ => ?_
  exact .bind (.keeping (.keepingEach destroys)) fun _ => runs_update c _

end Collection

namespace View

private theorem runs_destroyWithin (orderly : host.Orderly) (fuel : Nat)
    (v : ViewId) :
    (destroyWithin host fuel v).Runs := by
  induction fuel generalizing v with
  | zero => exact .pure ()
  | succ fuel ih =>
      refine .keeping (.bind .get fun _ =>
        .bind (Emitter.runs_destroy orderly _) fun _ => .bind .get fun _ =>
        .bind (runs_update v _) fun _ =>
        .bind (.keepingEach (Collection.runs_destroyWith ih)) fun _ =>
        .bind .get fun world => ?_)
      split
      · exact .keeping (.keepingEach ih)
      · exact .pure ()

theorem runs_destroy (orderly : host.Orderly) (v : ViewId) :
    (destroy host v).Runs := by
  exact .bind .get fun _ => runs_destroyWithin orderly _ v

end View

end LiveTemplate
