import LiveTemplate.Proofs.Tearing

/-!
# Taking an arrangement of views apart

`View.destroy` goes down three kinds of way: through its emitter, through the
collections it owns and through the views in its template.  Hooks run on the
way, `View.turns`, each with what is due by then: the views whose destruction
has begun, the members that wait for theirs, and the collections that are
forgotten but not yet destroyed.

If each hook at its turn only dismantles what is below, so does the whole
destruction, and the view is torn down in the end.  The hypothesis of the
induction is `View.Tears`, for a view that is destroyed in any world which comes
of dismantling, whatever is due.  A hook may therefore destroy views and
collections itself, `View.dismantles_destroy`, those that are being destroyed
among them.
-/

namespace LiveTemplate

variable {σ α : Type}

/-- A hook that is run, the world it finds, and what is due by then. -/
structure HookTurn (σ : Type) where
  hook : Handler
  world : World σ
  due : Due

/-- The turns that are taken while something is done for each of several
things. -/
def eachTurns (ref : α → Ref) (action : α → Act σ Unit)
    (turns : α → World σ → List (HookTurn σ)) :
    List α → World σ → List (HookTurn σ)
  | [], _ => []
  | item :: rest, world =>
      let refs := (item :: rest).map ref
      turns item (world.holding (.refs refs :: world.frames)) ++
        eachTurns ref action turns rest
          ((keeping (.refs refs) (action item)).after world)

namespace Emitter

/-- The turns of some hooks, one after the other. -/
def hookTurns (host : Host σ) (due : Due) :
    List Handler → World σ → List (HookTurn σ)
  | [], _ => []
  | hook :: rest, world =>
      ⟨hook, world, due⟩ ::
        hookTurns host due rest ((host.destroy hook).after world)

/-- The turns of the hooks of an emitter that is destroyed. -/
def destroyTurns (host : Host σ) (due : Due) (e : EmitterId)
    (world : World σ) : List (HookTurn σ) :=
  let unhooked := (update e fun emitter =>
    { emitter with hooks := [] }).after world
  hookTurns host due (world.emitter e).hooks
    (unhooked.holding (.refs [.emitter e] :: unhooked.frames))

end Emitter

/-- The turns that are taken while a collection is destroyed, whose members are
due meanwhile. -/
def Collection.destroyTurns (destroyView : ViewId → Act σ Unit)
    (turns : Due → ViewId → World σ → List (HookTurn σ)) (due : Due)
    (c : CollectionId) (world : World σ) : List (HookTurn σ) :=
  let members := (world.collection c).members
  let emptied := (update c fun collection =>
    { collection with members := [] }).after world
  eachTurns .view destroyView (turns (due.withViews members)) members
    (emptied.holding (.refs [.collection c] :: emptied.frames))

namespace View

/-- The turns that are taken while the views in the template of a view are
destroyed. -/
def placedTurns (destroyView : ViewId → Act σ Unit)
    (turns : ViewId → World σ → List (HookTurn σ)) (v : ViewId)
    (world : World σ) : List (HookTurn σ) :=
  match (world.view v).template with
  | some t =>
      eachTurns .view destroyView turns (Template.views world t)
        (world.holding (.refs [.template t] :: world.frames))
  | none => []

/-- The turns that are taken while a view is destroyed, with at most `fuel`
views inside each other. -/
def turnsWithin (host : Host σ) :
    Nat → Due → ViewId → World σ → List (HookTurn σ)
  | 0, _, _, _ => []
  | fuel + 1, due, v, world =>
      let destroyView := destroyWithin host fuel
      let begun := due.withViews [v]
      let entered := world.holding (.refs [.view v] :: world.frames)
      let silenced :=
        (Emitter.destroy host (entered.view v).emitter).after entered
      let owned := (silenced.view v).collections
      let forgotten := (update v fun view =>
        { view with collections := [] }).after silenced
      let cleared := (keepingEach .collection
        (Collection.destroyWith destroyView) owned).after forgotten
      Emitter.destroyTurns host begun (entered.view v).emitter entered ++
        (eachTurns .collection (Collection.destroyWith destroyView)
          (Collection.destroyTurns destroyView (turnsWithin host fuel)
            (begun.withCollections owned)) owned forgotten ++
        placedTurns destroyView (turnsWithin host fuel begun) v cleared)

/-- The turns of the hooks that run when a view is destroyed. -/
def turns (host : Host σ) (due : Due) (v : ViewId) (world : World σ) :
    List (HookTurn σ) :=
  turnsWithin host (depthBound world) due v world

end View

/-- At its turn the hook dismantles some views at most, if all before has done
no more. -/
def World.Allows (base : World σ) (under : ViewId → Prop) (host : Host σ)
    (turn : HookTurn σ) : Prop :=
  base.Dismantles under turn.due base turn.world →
    base.Dismantles under turn.due turn.world
      ((host.destroy turn.hook).after turn.world)

section Teardown

variable {host : Host σ} {base world : World σ} {under : ViewId → Prop}
  {due : Due} (closed : base.IsDownward under)

namespace Emitter

theorem dismantles_unhook (e : EmitterId) :
    (update e fun emitter => { emitter with hooks := [] }).Within
      (base.Dismantles under due) := by
  refine fun world => ⟨.aside rfl rfl rfl (.of_templates rfl),
    retains_unhook e world, Nat.le_refl _, Nat.le_refl _, fun v _ => ?_⟩
  refine .aside rfl (fun _ _ => rfl) (fun _ _ none => none) rfl ?_
  unfold World.liveRevokers
  by_cases same : (base.view v).emitter = e
  · rw [same, emitter_update_self]
    exact List.Subset.refl _
  · rw [emitter_update_of_ne _ _ same]
    exact List.Subset.refl _

theorem liveRevokers_stopListening (e other : EmitterId) (world : World σ) :
    ((stopListening e).after world).liveRevokers other ⊆
      if other = e then [] else world.liveRevokers other := by
  let owned := (world.emitter e).subscriptions
  let emptied := (update e fun emitter =>
    { emitter with subscriptions := [] }).after world
  have ends : (stopListening e).after world =
      (owned.forM Revoker.revoke : Act σ Unit).after emptied := rfl
  intro r member
  obtain ⟨listed, live⟩ := List.mem_filter.mp member
  rw [emitter_stopListening] at listed
  by_cases same : other = e
  · subst same
    rw [emitter_update_self] at listed
    cases listed
  · rw [if_neg same]
    rw [emitter_update_of_ne _ _ same] at listed
    refine List.mem_filter.mpr ⟨listed, ?_⟩
    rw [ends, World.isRevoked, subscription?_revokeEach] at live
    split at live
    · cases live
    · exact live

private theorem dismantles_stopListening (e : EmitterId) :
    (stopListening e).Within (base.Dismantles under due) := by
  intro world
  let owned := (world.emitter e).subscriptions
  let emptied := (update e fun emitter =>
    { emitter with subscriptions := [] }).after world
  have ends : (stopListening e).after world =
      (owned.forM Revoker.revoke : Act σ Unit).after emptied := rfl
  have run : Run world ((stopListening e).after world) := by
    rw [ends]
    have first : Run world emptied := .aside rfl rfl rfl (.of_templates rfl)
    exact first.trans (Act.after_forM Run.refl Run.trans
      (fun r _ world => .revoke world r) emptied)
  have live (other : EmitterId) :
      ((stopListening e).after world).liveRevokers other ⊆
        world.liveRevokers other := by
    refine List.Subset.trans (liveRevokers_stopListening e other world) ?_
    split
    · exact List.nil_subset _
    · exact List.Subset.refl _
  have retains := retains_stopListening e world
  obtain ⟨_, _, _, left⟩ := revokeEach_leaves owned emptied
  rw [ends, left] at run live retains ⊢
  exact ⟨run, retains, Nat.le_refl _, Nat.le_refl _, fun v _ =>
    .aside rfl (fun _ _ => rfl) (fun _ _ none => none) rfl (live _)⟩

include closed

theorem dismantles_hooks {hooks : List Handler}
    (current : base.Dismantles under due base world)
    (allowed : ∀ turn ∈ hookTurns host due hooks world,
      base.Allows under host turn) :
    base.Dismantles under due world ((hooks.forM host.destroy).after world) := by
  induction hooks generalizing world with
  | nil => exact .refl world
  | cons hook rest ih =>
      obtain ⟨first, others⟩ := List.forall_mem_cons.mp allowed
      have early := first current
      exact early.trans closed (ih (current.trans closed early) others)

private theorem dismantles_destroy {e : EmitterId}
    (current : base.Dismantles under due base world)
    (allowed : ∀ turn ∈ destroyTurns host due e world,
      base.Allows under host turn) :
    base.Dismantles under due world ((destroy host e).after world) ∧
      ((destroy host e).after world).liveRevokers e = [] := by
  let unhooked := (update e fun emitter =>
    { emitter with hooks := [] }).after world
  let hooked := (keeping (.refs [.emitter e])
    ((world.emitter e).hooks.forM host.destroy)).after unhooked
  have ends : (destroy host e).after world =
      (stopListening e).after hooked := after_destroy host e world
  have unhooks : base.Dismantles under due world unhooked :=
    dismantles_unhook e world
  have runs : base.Dismantles under due unhooked hooked := by
    refine (World.Dismantles.steady closed).release (.refs [.emitter e]) ?_
    refine dismantles_hooks closed ?_ allowed
    exact (current.trans closed unhooks).trans closed (.holding _ _)
  rw [ends]
  refine ⟨(unhooks.trans closed runs).trans closed
    (dismantles_stopListening e hooked), ?_⟩
  have silent := liveRevokers_stopListening e e hooked
  rw [if_pos rfl] at silent
  exact List.subset_nil.mp silent

end Emitter

/-- If each thing is done within what is allowed, so are all of them, one after
the other, and what has been done stays so. -/
theorem dismantles_each {ref : α → Ref} {action : α → Act σ Unit}
    {turns : α → World σ → List (HookTurn σ)} {items : List α}
    (done : α → World σ → Prop) (closed : base.IsDownward under)
    (does : ∀ item ∈ items, ∀ world, base.Dismantles under due base world →
      (∀ turn ∈ turns item world, base.Allows under host turn) →
        base.Dismantles under due world ((action item).after world) ∧
          done item ((action item).after world))
    (stays : ∀ item ∈ items, ∀ {world later},
      base.Dismantles under due world later → done item world →
        done item later)
    (current : base.Dismantles under due base world)
    (allowed : ∀ turn ∈ eachTurns ref action turns items world,
      base.Allows under host turn) :
    base.Dismantles under due world
        ((keepingEach ref action items).after world) ∧
      ∀ item ∈ items, done item ((keepingEach ref action items).after world) := by
  induction items generalizing world with
  | nil => exact ⟨.refl world, fun _ member => absurd member List.not_mem_nil⟩
  | cons item rest ih =>
      obtain ⟨mine, others⟩ := List.forall_mem_append.mp allowed
      let refs := (item :: rest).map ref
      let entered := world.holding (.refs refs :: world.frames)
      let left := (keeping (.refs refs) (action item)).after world
      obtain ⟨inner, ready⟩ := does item (.head _) entered
        (current.trans closed (.holding _ world)) mine
      have early : base.Dismantles under due world left :=
        (World.Dismantles.steady closed).release (.refs refs) inner
      have finished : done item left :=
        stays item (.head _) (.holding world.frames _) ready
      obtain ⟨late, rests⟩ := ih (fun other member => does other (.tail _ member))
        (fun other member => stays other (.tail _ member))
        (current.trans closed early) others
      refine ⟨early.trans closed late, fun other member => ?_⟩
      rcases List.mem_cons.mp member with rfl | member
      · exact stays other (.head _) late finished
      · exact rests other member

/-- Destroyed in a world that comes of dismantling, a view is torn down, and
what is below is only dismantled. -/
def View.Tears (base : World σ) (under : ViewId → Prop) (host : Host σ)
    (destroyView : ViewId → Act σ Unit)
    (turns : Due → ViewId → World σ → List (HookTurn σ)) (v : ViewId) : Prop :=
  ∀ due world, base.Dismantles under due base world →
    (∀ turn ∈ turns due v world, base.Allows under host turn) →
      base.Dismantles under due world ((destroyView v).after world) ∧
        base.IsTorn due ((destroyView v).after world) v

variable {destroyView : ViewId → Act σ Unit}
  {turns : Due → ViewId → World σ → List (HookTurn σ)}

include closed

theorem View.dismantles_views {views : List ViewId}
    (tears : ∀ v ∈ views, View.Tears base under host destroyView turns v)
    (mine : ∀ v ∈ views, under v)
    (current : base.Dismantles under due base world)
    (allowed : ∀ turn ∈ eachTurns .view destroyView (turns due) views world,
      base.Allows under host turn) :
    base.Dismantles under due world
      ((keepingEach .view destroyView views).after world) ∧
      ∀ v ∈ views, base.IsTorn due
        ((keepingEach .view destroyView views).after world) v := by
  exact dismantles_each (fun v world => base.IsTorn due world v) closed
    (fun v member => tears v member due)
    (fun v member _ _ dismantles torn =>
      dismantles.isTorn closed (mine v member) torn) current allowed

namespace Collection

omit closed in
theorem dismantles_empty (c : CollectionId) (world : World σ) :
    base.Dismantles under (due.withViews (world.collection c).members) world
      ((update c fun collection =>
        { collection with members := [] }).after world) := by
  let emptied := (update c fun collection =>
    { collection with members := [] }).after world
  have templates : emptied.templates = world.templates := rfl
  have each (other : CollectionId) :
      (emptied.collection other).members ⊆ (world.collection other).members ∧
        (emptied.collection other).parent = (world.collection other).parent := by
    by_cases same : other = c
    · rw [same, collection_update]
      exact ⟨List.nil_subset _, rfl⟩
    · rw [collection_update_of_ne _ _ same]
      exact ⟨List.Subset.refl _, rfl⟩
  refine ⟨.aside rfl rfl rfl (.of_templates rfl), .aside rfl rfl, Nat.le_refl _,
    ?_, fun v _ => ?_⟩
  · exact Store.size_le_put _ _ _
  · exact {
      emitter := rfl
      template := rfl
      carried := fun _ _ _ => Template.carries_congr templates
      live := List.Subset.refl _
      owned := List.Subset.refl _
      members := fun other _ => (each other).1
      nowhere := fun other _ none => (each other).2.trans none
      released := fun _ _ present => .inl present
      torn := fun other _ m _ present => by
        by_cases same : other = c
        · subst same
          exact .inr (.inl (List.mem_append_left _ present))
        · rw [collection_update_of_ne _ _ same]
          exact .inl present }

omit closed in
theorem dismantles_forget (c : CollectionId) :
    (update c fun collection =>
      { collection with parent := none, anchor := none }).Within
        (base.Dismantles under due) := by
  intro world
  refine ⟨.aside rfl rfl rfl (.of_templates rfl), .aside rfl rfl, Nat.le_refl _,
    ?_, fun v _ => .aside rfl (fun other _ => ?_) (fun other _ none => ?_) rfl
      (List.Subset.refl _)⟩
  · exact Store.size_le_put _ _ _
  all_goals
    by_cases same : other = c
    · rw [same, collection_update]
    · rw [collection_update_of_ne _ _ same]
      try exact none

theorem dismantles_destroyWith {c : CollectionId} {v : ViewId} (mine : under v)
    (owned : c ∈ (base.view v).collections)
    (tears : ∀ m, base.Over v m →
      View.Tears base under host destroyView turns m)
    (current : base.Dismantles under due base world)
    (allowed : ∀ turn ∈ destroyTurns destroyView turns due c world,
      base.Allows under host turn) :
    let later := (destroyWith destroyView c).after world
    base.Dismantles under due world later ∧
      base.IsCleared due later (base.IsTorn due later) c := by
  let members := (world.collection c).members
  -- All members wait for their turn from when the list is emptied.
  let more := due.withViews members
  let emptied := (update c fun collection =>
    { collection with members := [] }).after world
  let destroyed := (keeping (.refs [.collection c])
    (keepingEach .view destroyView members)).after emptied
  intro later
  have ends : later = (update c fun collection =>
    { collection with parent := none, anchor := none }).after destroyed := rfl
  have inside (m : ViewId) (member : m ∈ members) : base.Over v m :=
    .member owned ((current.strips v mine).members c owned member)
  have empties : base.Dismantles under more world emptied :=
    dismantles_empty c world
  have widened : base.Dismantles under more base world :=
    current.weaken (List.subset_append_right _ _) (List.Subset.refl _)
  obtain ⟨inner, torn⟩ := View.dismantles_views closed
    (fun m member => tears m (inside m member))
    (fun m member => closed v m mine (inside m member))
    ((widened.trans closed empties).trans closed (.holding _ emptied)) allowed
  have destroys : base.Dismantles under more emptied destroyed :=
    (World.Dismantles.steady closed).release (.refs [.collection c]) inner
  have forgets : base.Dismantles under more destroyed later := by
    rw [ends]
    exact dismantles_forget c destroyed
  have gone : base.Dismantles under more emptied later :=
    destroys.trans closed forgets
  have settles : base.Settles more due later := by
    refine ⟨fun m member => ?_, fun _ member => .inl member⟩
    rcases List.mem_append.mp member with waited | left
    · have below := closed v m mine (inside m waited)
      have released : base.Dismantles under more _ destroyed :=
        .holding emptied.frames _
      exact .inr (forgets.isTorn closed below
        (released.isTorn closed below (torn m waited)))
    · exact .inl left
  have dismantles : base.Dismantles under due world later :=
    (empties.trans closed gone).settle settles
  have empty : (later.collection c).members = [] := by
    have fewer := (gone.strips v mine).members c owned
    rw [show (emptied.collection c).members = [] by
      rw [collection_update]] at fewer
    exact List.subset_nil.mp fewer
  have nowhere : (later.collection c).parent = none := by
    rw [ends, collection_update]
  refine ⟨dismantles, ⟨empty, nowhere⟩, fun m member => ?_⟩
  rcases (current.strips v mine).torn c owned m member member with
    waited | left | torn
  · rcases settles.views m (List.mem_append_left _ waited) with left | torn
    · exact .inl left
    · exact .inr (torn.settle settles)
  · exact .inl left
  · exact .inr (dismantles.isTorn closed
      (closed v m mine (.member owned member)) torn)

end Collection

namespace View

omit closed in
theorem dismantles_forget (v : ViewId) (world : World σ) :
    base.Dismantles under (due.withCollections (world.view v).collections) world
      ((update v fun view => { view with collections := [] }).after world) := by
  let forgotten := (update v fun view =>
    { view with collections := [] }).after world
  have templates : forgotten.templates = world.templates := rfl
  have each (other : ViewId) :
      (forgotten.view other).emitter = (world.view other).emitter ∧
        (forgotten.view other).template = (world.view other).template ∧
        (forgotten.view other).collections ⊆ (world.view other).collections := by
    by_cases same : other = v
    · rw [same, view_update]
      exact ⟨rfl, rfl, List.nil_subset _⟩
    · rw [view_update_of_ne _ _ same]
      exact ⟨rfl, rfl, List.Subset.refl _⟩
  refine ⟨.aside rfl rfl rfl (.of_templates rfl), .aside rfl rfl, ?_,
    Nat.le_refl _, fun other _ => ?_⟩
  · exact Store.size_le_put _ _ _
  · exact {
      emitter := (each other).1
      template := (each other).2.1
      carried := fun _ _ _ => Template.carries_congr templates
      live := List.Subset.refl _
      owned := (each other).2.2
      members := fun _ _ => List.Subset.refl _
      nowhere := fun _ _ none => none
      released := fun c _ present => by
        by_cases same : other = v
        · subst same
          exact .inr (.inl (List.mem_append_left _ present))
        · rw [view_update_of_ne _ _ same]
          exact .inl present
      torn := fun _ _ _ _ present => .inl present }

private theorem dismantles_collections {v : ViewId} (mine : under v)
    (tears : ∀ m, base.Over v m → Tears base under host destroyView turns m)
    (current : base.Dismantles under due base world) :
    let owned := (world.view v).collections
    let forgotten := (update v fun view =>
      { view with collections := [] }).after world
    let later := (keepingEach .collection (Collection.destroyWith destroyView)
      owned).after forgotten
    (∀ turn ∈ eachTurns .collection (Collection.destroyWith destroyView)
        (Collection.destroyTurns destroyView turns (due.withCollections owned))
        owned forgotten, base.Allows under host turn) →
      base.Dismantles under due world later ∧
        ∀ c ∈ owned, base.IsCleared due later (base.IsTorn due later) c := by
  intro owned forgotten later allowed
  let more := due.withCollections owned
  have forgets : base.Dismantles under more world forgotten :=
    dismantles_forget v world
  have widened : base.Dismantles under more base world :=
    current.weaken (List.Subset.refl _) (List.subset_append_right _ _)
  have known (c : CollectionId) (member : c ∈ owned) :
      c ∈ (base.view v).collections :=
    (current.strips v mine).owned member
  obtain ⟨clears, cleared⟩ : base.Dismantles under more forgotten later ∧
      ∀ c ∈ owned, base.IsCleared more later (base.IsTorn more later) c :=
    dismantles_each
      (fun c world => base.IsCleared more world (base.IsTorn more world) c) closed
      (fun c member _ ready turns => Collection.dismantles_destroyWith closed
        mine (known c member) tears ready turns)
      (fun c member _ _ dismantles cleared =>
        dismantles.isCleared closed mine (known c member) cleared)
      (widened.trans closed forgets) allowed
  have settles : base.Settles more due later := by
    refine ⟨fun _ member => .inl member, fun c member => ?_⟩
    rcases List.mem_append.mp member with listed | left
    · exact .inr (cleared c listed)
    · exact .inl left
  exact ⟨(forgets.trans closed clears).settle settles,
    fun c member => (cleared c member).settle settles⟩

omit closed

/-- What `destroy` does last: it destroys the views in the template. -/
def destroyPlaced (destroyView : ViewId → Act σ Unit) (v : ViewId) :
    Act σ Unit := do
  let world ← get
  match (world.view v).template with
  | some t =>
      keeping (.refs [.template t])
        (keepingEach .view destroyView (Template.views world t))
  | none => pure ()

private theorem destroyWithin_succ (host : Host σ) (fuel : Nat) (v : ViewId) :
    destroyWithin host (fuel + 1) v = keeping (.refs [.view v]) (do
      Emitter.destroy host ((← get).view v).emitter
      let owned := ((← get).view v).collections
      update v fun view => { view with collections := [] }
      keepingEach .collection
        (Collection.destroyWith (destroyWithin host fuel)) owned
      destroyPlaced (destroyWithin host fuel) v) := by
  rw [destroyWithin]
  rfl

theorem after_destroySteps (silence : EmitterId → Act σ Unit)
    (forget : Act σ Unit) (clear : List CollectionId → Act σ Unit)
    (rest : Act σ Unit) (v : ViewId) (world : World σ) :
    let silenced := (silence (world.view v).emitter).after world
    Act.after (do
      silence ((← get).view v).emitter
      let owned := ((← get).view v).collections
      forget
      clear owned
      rest) world =
      rest.after ((clear (silenced.view v).collections).after
        (forget.after silenced)) := rfl

private theorem after_destroyWithin (host : Host σ) (fuel : Nat) (v : ViewId)
    (world : World σ) :
    let entered := world.holding (.refs [.view v] :: world.frames)
    let silenced :=
      (Emitter.destroy host (entered.view v).emitter).after entered
    (destroyWithin host (fuel + 1) v).after world =
      ((destroyPlaced (destroyWithin host fuel) v).after
        ((keepingEach .collection
          (Collection.destroyWith (destroyWithin host fuel))
          (silenced.view v).collections).after
            ((update v fun view => { view with collections := [] }).after
              silenced))).holding world.frames := by
  intro entered silenced
  have steps := after_destroySteps (Emitter.destroy host)
    (update v fun view => { view with collections := [] })
    (keepingEach .collection (Collection.destroyWith (destroyWithin host fuel)))
    (destroyPlaced (destroyWithin host fuel) v) v entered
  rw [destroyWithin_succ, after_keeping]
  exact congrArg (World.holding · world.frames) steps

private theorem dismantles_destroyPlaced (closed : base.IsDownward under)
    {v : ViewId}
    (mine : under v) (sound : world.HasSoundTemplates)
    (tears : ∀ m, base.Over v m → Tears base under host destroyView turns m)
    (current : base.Dismantles under due base world)
    (allowed : ∀ turn ∈ placedTurns destroyView (turns due) v world,
      base.Allows under host turn) :
    let later := (destroyPlaced destroyView v).after world
    base.Dismantles under due world later ∧
      ∀ t, (base.view v).template = some t → ∀ m,
        Template.Carries base t m → base.IsTorn due later m := by
  have strips := current.strips v mine
  unfold placedTurns at allowed
  unfold destroyPlaced
  rw [Act.after_bind, Act.after_get, Act.result_get]
  rw [strips.template] at allowed ⊢
  cases found : (base.view v).template with
  | none => exact ⟨.refl world, fun t absent => nomatch absent⟩
  | some t =>
      rw [found] at allowed
      let destroyed := (keepingEach .view destroyView
        (Template.views world t)).after
          (world.holding (.refs [.template t] :: world.frames))
      have placed (m : ViewId) :
          m ∈ Template.views world t ↔ Template.Carries base t m :=
        (Template.mem_views_iff sound).trans (strips.carried t found m)
      have inside (m : ViewId) (member : m ∈ Template.views world t) :
          base.Over v m := .placed found ((placed m).mp member)
      obtain ⟨inner, torn⟩ := dismantles_views closed
        (fun m member => tears m (inside m member))
        (fun m member => closed v m mine (inside m member))
        (current.trans closed (.holding _ world)) allowed
      intro later
      have ends : later = destroyed.holding world.frames :=
        after_keeping _ _ world
      have leaves : base.Dismantles under due destroyed
          (destroyed.holding world.frames) := .holding world.frames destroyed
      rw [ends]
      refine ⟨(World.Dismantles.steady closed).release (.refs [.template t])
        inner, fun other here m carries => ?_⟩
      cases here
      exact leaves.isTorn closed (closed v m mine (.placed found carries))
        (torn m ((placed m).mpr carries))

/-- Each collection that the view had in the beginning is cleared: it is still
listed, so its turn comes now, or it is due, or it had been cleared before. -/
private theorem cleared_of_listed (closed : base.IsDownward under) {v : ViewId}
    (mine : under v) {c : CollectionId} (inside : c ∈ (base.view v).collections)
    {silenced later : World σ} (quiet : base.Dismantles under due base silenced)
    (late : base.Dismantles under due silenced later)
    (gone : ∀ c ∈ (silenced.view v).collections,
      base.IsCleared due later (base.IsTorn due later) c) :
    c ∈ due.collections ∨
      base.IsCleared due later (base.IsTorn due later) c := by
  have strips := quiet.strips v mine
  rcases strips.released c inside inside with listed | left | vacant
  · exact .inr (gone c listed)
  · exact .inl left
  · refine .inr ⟨(late.strips v mine).isVacant inside vacant,
      fun m member => ?_⟩
    rcases strips.torn c inside m member member with there | left | torn
    · rw [vacant.empty] at there
      cases there
    · exact .inl left
    · have below := closed v m mine (.member inside member)
      exact .inr (late.isTorn closed below torn)

private theorem tears_destroyWithin (closed : base.IsDownward under)
    (ordered : base.Ordered) {fuel : Nat} {v : ViewId} (mine : under v)
    (shallow : base.Shallow fuel v) :
    Tears base under host (destroyWithin host fuel) (turnsWithin host fuel)
      v := by
  induction fuel generalizing v with
  | zero => exact shallow.elim
  | succ fuel ih =>
      have tears (m : ViewId) (step : base.Over v m) :
          Tears base under host (destroyWithin host fuel)
            (turnsWithin host fuel) m :=
        ih (closed v m mine step) (shallow m step)
      intro due world current allowed
      -- The view is due to what runs inside, and torn down when that is over.
      let begun := due.withViews [v]
      let entered := world.holding (.refs [.view v] :: world.frames)
      let e := (entered.view v).emitter
      let silenced := (Emitter.destroy host e).after entered
      let owned := (silenced.view v).collections
      let forgotten := (update v fun view =>
        { view with collections := [] }).after silenced
      let cleared := (keepingEach .collection
        (Collection.destroyWith (destroyWithin host fuel)) owned).after forgotten
      let placed := (destroyPlaced (destroyWithin host fuel) v).after cleared
      have ends : (destroyWithin host (fuel + 1) v).after world =
          placed.holding world.frames := after_destroyWithin host fuel v world
      obtain ⟨hooks, others⟩ := List.forall_mem_append.mp allowed
      obtain ⟨clearing, placing⟩ := List.forall_mem_append.mp others
      have same : e = (base.view v).emitter := (current.strips v mine).emitter
      have widened : base.Dismantles under begun base world :=
        current.weaken (List.subset_append_right _ _) (List.Subset.refl _)
      have enters : base.Dismantles under begun world entered :=
        .holding _ world
      obtain ⟨silences, silent⟩ := Emitter.dismantles_destroy closed
        (widened.trans closed enters) hooks
      have quiet : base.Dismantles under begun base silenced :=
        (widened.trans closed enters).trans closed silences
      obtain ⟨clears, gone⟩ := dismantles_collections closed mine tears quiet
        clearing
      have empty : base.Dismantles under begun base cleared :=
        quiet.trans closed clears
      obtain ⟨places, done⟩ := dismantles_destroyPlaced closed mine
        (empty.run.progress ordered).1.sound tears empty placing
      have late : base.Dismantles under begun silenced placed :=
        clears.trans closed places
      have finished (c : CollectionId) (listed : c ∈ owned) :
          base.IsCleared begun placed (base.IsTorn begun placed) c :=
        places.isCleared closed mine ((quiet.strips v mine).owned listed)
          (gone c listed)
      have torn : base.IsTorn begun placed v := by
        refine .of_spent ⟨?_, fun c inside =>
            cleared_of_listed closed mine inside quiet late finished,
          fun t found m carries => .inr (done t found m carries)⟩
        have fewer := (late.strips v mine).live
        rw [← same, silent] at fewer
        rw [← same]
        exact List.subset_nil.mp fewer
      have settles : base.Settles begun due placed := by
        refine ⟨fun u member => ?_, fun _ member => .inl member⟩
        rcases List.mem_cons.mp member with rfl | left
        · exact .inr torn
        · exact .inl left
      have leaves : base.Dismantles under due placed
          (placed.holding world.frames) := .holding world.frames placed
      have whole : base.Dismantles under begun world placed :=
        (enters.trans closed silences).trans closed late
      rw [ends]
      exact ⟨(whole.settle settles).trans closed leaves,
        leaves.isTorn closed mine (torn.settle settles)⟩

end View

end Teardown

section Permitted

variable {host : Host σ} {base : World σ} {under : ViewId → Prop}
  {v : ViewId}

theorem View.tears_destroy (closed : base.IsDownward under)
    (ordered : base.Ordered) (mine : under v)
    (acyclic : base.IsAcyclicBelow v) :
    View.Tears base under host (View.destroy host) (View.turns host) v := by
  intro due world current allowed
  have deep : View.depthBound base ≤ View.depthBound world := by
    unfold View.depthBound
    exact Nat.add_le_add_right (Nat.mul_le_mul
      (Nat.succ_le_succ current.views) (Nat.succ_le_succ current.collections)) _
  have shallow := acyclic.shallow.mono deep
  unfold View.turns at allowed
  unfold View.destroy
  rw [Act.after_bind, Act.after_get, Act.result_get]
  generalize View.depthBound world = fuel at shallow allowed ⊢
  exact View.tears_destroyWithin closed ordered mine shallow due world current
    allowed

/-- Whatever has been dismantled before and is due, the computation dismantles
some views at most. -/
def World.Permits (base : World σ) (under : ViewId → Prop)
    (action : Act σ α) : Prop :=
  ∀ due world, base.Dismantles under due base world →
    base.Dismantles under due world (action.after world)

namespace World.Permits

variable {β : Type}

theorem pure (a : α) : base.Permits under (Pure.pure a : Act σ α) := by
  intro _ world _
  exact .refl world

theorem bind (closed : base.IsDownward under) {action : Act σ α}
    {next : α → Act σ β} (first : base.Permits under action)
    (later : ∀ a, base.Permits under (next a)) :
    base.Permits under (action >>= next) := by
  intro due world current
  rw [Act.after_bind]
  have early := first due world current
  exact early.trans closed (later _ due _ (current.trans closed early))

theorem allows {turn : HookTurn σ}
    (permits : base.Permits under (host.destroy turn.hook)) :
    base.Allows under host turn :=
  permits turn.due turn.world

end World.Permits

variable (closed : base.IsDownward under) (ordered : base.Ordered)
  (permits : ∀ hook, base.Permits under (host.destroy hook))
  (mine : under v)

include closed ordered permits mine

/-- A hook may destroy a view, whether it is being destroyed or not. -/
theorem View.permits_destroy (acyclic : base.IsAcyclicBelow v) :
    base.Permits under (destroy host v) := by
  intro due world current
  have tears : Tears base under host (destroy host) (turns host) v :=
    tears_destroy closed ordered mine acyclic
  exact (tears due world current fun turn _ => (permits turn.hook).allows).1

theorem Collection.permits_destroy (acyclic : base.IsAcyclicBelow v)
    {c : CollectionId} (owned : c ∈ (base.view v).collections) :
    base.Permits under (destroy host c) := by
  intro due world current
  have tears (m : ViewId) (step : base.Over v m) :
      View.Tears base under host (View.destroy host) (View.turns host) m :=
    View.tears_destroy closed ordered (closed v m mine step)
      (acyclic.inner step)
  exact (dismantles_destroyWith closed mine owned tears current
    fun turn _ => (permits turn.hook).allows).1

end Permitted

end LiveTemplate
