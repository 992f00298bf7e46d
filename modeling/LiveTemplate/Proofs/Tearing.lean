import LiveTemplate.Proofs.Arrangement
import LiveTemplate.Proofs.Collections
import LiveTemplate.Proofs.Retention

/-!
# What is torn down

What is below a view is read in a base world, since while the view is destroyed
collections are emptied and forgotten.  `World.Dismantles` is what may happen to
the views below meanwhile: nothing is added to them, and nothing is taken out of
them that has not been torn down.

A view that is being destroyed may be destroyed once more by a hook, which then
finds less than there was.  So some views and collections are due: their
destruction is under way and will not be left half done.  A view is torn down,
`World.IsTorn`, when nothing is left of it and of all that it reaches without
going through what is due.  This is a largest fixed point, so that views which
are destroyed on the way to each other pose no problem.  When something has been
done, what was torn down with this due is torn down without it,
`World.IsTorn.settle`.
-/

namespace LiveTemplate

variable {σ : Type}

/-- Views and collections whose destruction is under way. -/
structure Due where
  views : List ViewId
  collections : List CollectionId

namespace Due

def none : Due := ⟨[], []⟩

def withViews (due : Due) (views : List ViewId) : Due :=
  { due with views := views ++ due.views }

def withCollections (due : Due) (collections : List CollectionId) : Due :=
  { due with collections := collections ++ due.collections }

end Due

namespace World

/-- A collection is empty and stands nowhere. -/
structure IsVacant (world : World σ) (c : CollectionId) : Prop where
  empty : (world.collection c).members = []
  nowhere : (world.collection c).parent = none

/-- A collection is vacant, and the members it had are gone or due. -/
structure IsCleared (base : World σ) (due : Due) (world : World σ)
    (gone : ViewId → Prop) (c : CollectionId) : Prop extends
    world.IsVacant c where
  members : ∀ m ∈ (base.collection c).members, m ∈ due.views ∨ gone m

/-- The emitter of a view has no live subscription, its collections are cleared,
and the views in its template are gone, but for what is due. -/
structure IsSpent (base : World σ) (due : Due) (world : World σ)
    (gone : ViewId → Prop) (v : ViewId) : Prop where
  silent : world.liveRevokers (base.view v).emitter = []
  cleared : ∀ c ∈ (base.view v).collections,
    c ∈ due.collections ∨ base.IsCleared due world gone c
  placed : ∀ t, (base.view v).template = some t → ∀ m,
    Template.Carries base t m → m ∈ due.views ∨ gone m

/-- A view is among views that are spent as far as these are gone. -/
def IsTorn (base : World σ) (due : Due) (world : World σ) (v : ViewId) :
    Prop :=
  ∃ gone : ViewId → Prop,
    (∀ u, gone u → base.IsSpent due world gone u) ∧ gone v

variable {base world between later : World σ} {due more : Due} {v : ViewId}
  {c : CollectionId} {gone others : ViewId → Prop}

theorem IsCleared.weaken (cleared : base.IsCleared due world gone c)
    (weaker : ∀ m ∈ (base.collection c).members, gone m → others m) :
    base.IsCleared due world others c where
  toIsVacant := cleared.toIsVacant
  members m member := (cleared.members m member).imp_right (weaker m member)

/-- More may be gone. -/
theorem IsSpent.weaken (spent : base.IsSpent due world gone v)
    (weaker : ∀ m, base.Over v m → gone m → others m) :
    base.IsSpent due world others v where
  silent := spent.silent
  cleared c owned := (spent.cleared c owned).imp_right fun cleared =>
    cleared.weaken fun m member => weaker m (.member owned member)
  placed t found m carries := (spent.placed t found m carries).imp_right
    (weaker m (.placed found carries))

theorem IsTorn.spent (torn : base.IsTorn due world v) :
    base.IsSpent due world (base.IsTorn due world) v := by
  obtain ⟨gone, spent, mine⟩ := torn
  exact (spent v mine).weaken fun m _ theirs => ⟨gone, spent, theirs⟩

/-- A view is torn down when it is spent as far as others are torn down. -/
theorem IsTorn.of_spent
    (spent : base.IsSpent due world (base.IsTorn due world) v) :
    base.IsTorn due world v := by
  refine ⟨fun u => base.IsTorn due world u ∨ u = v, fun u mine => ?_, .inr rfl⟩
  rcases mine with torn | rfl
  · exact torn.spent.weaken fun _ _ => .inl
  · exact spent.weaken fun _ _ => .inl

theorem IsTorn.reaches (torn : base.IsTorn .none world v) {inner : ViewId}
    (reached : base.Reaches v inner) : base.IsTorn .none world inner := by
  induction reached with
  | refl => exact torn
  | tail _ step ih =>
      have spent := ih.spent
      cases step with
      | placed found carries =>
          rcases spent.placed _ found _ carries with left | gone
          · cases left
          · exact gone
      | member owned member =>
          rcases spent.cleared _ owned with left | cleared
          · cases left
          rcases cleared.members _ member with left | gone
          · cases left
          · exact gone

/-- What was due on top of something else has been done. -/
structure Settles (base : World σ) (more due : Due) (world : World σ) :
    Prop where
  views : ∀ v ∈ more.views, v ∈ due.views ∨ base.IsTorn more world v
  collections : ∀ c ∈ more.collections, c ∈ due.collections ∨
    base.IsCleared more world (base.IsTorn more world) c

namespace Settles

private theorem of_subset (views : more.views ⊆ due.views)
    (collections : more.collections ⊆ due.collections) :
    base.Settles more due world := by
  constructor
  · intro _ member
    exact .inl (views member)
  · intro _ member
    exact .inl (collections member)

variable (settles : base.Settles more due world)

include settles

theorem view (either : v ∈ more.views ∨ base.IsTorn more world v) :
    v ∈ due.views ∨ base.IsTorn more world v :=
  either.elim (settles.views v) .inr

theorem isCleared
    (cleared : base.IsCleared more world (base.IsTorn more world) c) :
    base.IsCleared due world (base.IsTorn more world) c where
  toIsVacant := cleared.toIsVacant
  members m member := settles.view (cleared.members m member)

end Settles

/-- What is torn down is so without what has been done meanwhile. -/
theorem IsTorn.settle (torn : base.IsTorn more world v)
    (settles : base.Settles more due world) : base.IsTorn due world v := by
  refine ⟨base.IsTorn more world, fun u gone => ?_, torn⟩
  have spent := gone.spent
  refine ⟨spent.silent, fun c owned => ?_, fun t found m carries =>
    settles.view (spent.placed t found m carries)⟩
  rcases spent.cleared c owned with left | cleared
  · exact (settles.collections c left).imp_right settles.isCleared
  · exact .inr (settles.isCleared cleared)

theorem IsCleared.settle
    (cleared : base.IsCleared more world (base.IsTorn more world) c)
    (settles : base.Settles more due world) :
    base.IsCleared due world (base.IsTorn due world) c := by
  exact (settles.isCleared cleared).weaken fun _ _ torn => torn.settle settles

/-- A view stays as it is, except that subscriptions are revoked, and that
collections and members are taken away which have been torn down or are due. -/
structure Strips (base : World σ) (due : Due) (world later : World σ)
    (v : ViewId) : Prop where
  emitter : (later.view v).emitter = (world.view v).emitter
  template : (later.view v).template = (world.view v).template
  carried : ∀ t, (base.view v).template = some t → ∀ inner,
    Template.Carries later t inner ↔ Template.Carries world t inner
  live : later.liveRevokers (base.view v).emitter ⊆
    world.liveRevokers (base.view v).emitter
  owned : (later.view v).collections ⊆ (world.view v).collections
  members : ∀ c ∈ (base.view v).collections,
    (later.collection c).members ⊆ (world.collection c).members
  nowhere : ∀ c ∈ (base.view v).collections,
    (world.collection c).parent = none → (later.collection c).parent = none
  released : ∀ c ∈ (base.view v).collections, c ∈ (world.view v).collections →
    c ∈ (later.view v).collections ∨ c ∈ due.collections ∨ later.IsVacant c
  torn : ∀ c ∈ (base.view v).collections, ∀ m ∈ (base.collection c).members,
    m ∈ (world.collection c).members → m ∈ (later.collection c).members ∨
      m ∈ due.views ∨ base.IsTorn due later m

/-- Some views with all that is below them. -/
def IsDownward (base : World σ) (under : ViewId → Prop) : Prop :=
  ∀ v inner, under v → base.Over v inner → under inner

/-- Nothing is added to some views, and nothing is taken out of them that has
not been torn down, but for what is due. -/
structure Dismantles (base : World σ) (under : ViewId → Prop) (due : Due)
    (world later : World σ) : Prop where
  run : Run world later
  retains : Retains world later
  views : world.views.size ≤ later.views.size
  collections : world.collections.size ≤ later.collections.size
  strips : ∀ v, under v → base.Strips due world later v

variable {under : ViewId → Prop}

theorem IsDownward.reaches (closed : base.IsDownward under) (mine : under v)
    {inner : ViewId} (reached : base.Reaches v inner) : under inner := by
  induction reached with
  | refl => exact mine
  | tail _ step ih => exact closed _ _ ih step

namespace Strips

theorem isVacant (strips : base.Strips due world later v)
    (owned : c ∈ (base.view v).collections) (vacant : world.IsVacant c) :
    later.IsVacant c where
  empty := by
    have fewer := strips.members c owned
    rw [vacant.empty] at fewer
    exact List.subset_nil.mp fewer
  nowhere := strips.nowhere c owned vacant.nowhere

theorem isCleared (strips : base.Strips due world later v)
    (owned : c ∈ (base.view v).collections)
    (cleared : base.IsCleared more world gone c) :
    base.IsCleared more later gone c where
  toIsVacant := strips.isVacant owned cleared.toIsVacant
  members := cleared.members

theorem isSpent (strips : base.Strips due world later v)
    (spent : base.IsSpent more world gone v) :
    base.IsSpent more later gone v where
  silent := by
    have fewer := strips.live
    rw [spent.silent] at fewer
    exact List.subset_nil.mp fewer
  cleared c owned := (spent.cleared c owned).imp_right (strips.isCleared owned)
  placed := spent.placed

/-- The collections and the templates stay, and the emitter loses at most
subscriptions. -/
theorem aside (view : later.view v = world.view v)
    (members : ∀ c ∈ (base.view v).collections,
      (later.collection c).members = (world.collection c).members)
    (nowhere : ∀ c ∈ (base.view v).collections,
      (world.collection c).parent = none → (later.collection c).parent = none)
    (templates : later.templates = world.templates)
    (live : later.liveRevokers (base.view v).emitter ⊆
      world.liveRevokers (base.view v).emitter) :
    base.Strips due world later v where
  emitter := by rw [view]
  template := by rw [view]
  carried _ _ _ := Template.carries_congr templates
  live := live
  owned := by
    rw [view]
    exact List.Subset.refl _
  members c owned := by
    rw [members c owned]
    exact List.Subset.refl _
  nowhere := nowhere
  released c _ present := by
    rw [view]
    exact .inl present
  torn c owned m _ present := by
    rw [members c owned]
    exact .inl present

theorem refl (world : World σ) (v : ViewId) :
    base.Strips due world world v := by
  exact .aside rfl (fun _ _ => rfl) (fun _ _ none => none) rfl
    (List.Subset.refl _)

end Strips

namespace Dismantles

theorem isTorn (dismantles : base.Dismantles under due world later)
    (closed : base.IsDownward under) (mine : under v)
    (torn : base.IsTorn more world v) : base.IsTorn more later v := by
  obtain ⟨gone, spent, here⟩ := torn
  refine ⟨fun u => gone u ∧ under u, fun u ⟨theirs, below⟩ => ?_, here, mine⟩
  have stays := (dismantles.strips u below).isSpent (spent u theirs)
  exact stays.weaken fun m step gone => ⟨gone, closed u m below step⟩

theorem isCleared (dismantles : base.Dismantles under due world later)
    (closed : base.IsDownward under) (mine : under v)
    (owned : c ∈ (base.view v).collections)
    (cleared : base.IsCleared more world (base.IsTorn more world) c) :
    base.IsCleared more later (base.IsTorn more later) c := by
  refine ((dismantles.strips v mine).isCleared owned cleared).weaken
    fun m member torn => ?_
  exact dismantles.isTorn closed (closed v m mine (.member owned member)) torn

theorem refl (world : World σ) : base.Dismantles under due world world := by
  exact ⟨.refl world, .refl world, Nat.le_refl _, Nat.le_refl _,
    fun _ _ => .refl world _⟩

theorem trans (closed : base.IsDownward under)
    (first : base.Dismantles under due world between)
    (second : base.Dismantles under due between later) :
    base.Dismantles under due world later := by
  refine ⟨first.run.trans second.run, first.retains.trans second.retains,
    Nat.le_trans first.views second.views,
    Nat.le_trans first.collections second.collections, fun v mine => ?_⟩
  have early := first.strips v mine
  have late := second.strips v mine
  exact {
    emitter := late.emitter.trans early.emitter
    template := late.template.trans early.template
    carried := fun t found inner =>
      (late.carried t found inner).trans (early.carried t found inner)
    live := List.Subset.trans late.live early.live
    owned := List.Subset.trans late.owned early.owned
    members := fun c owned =>
      List.Subset.trans (late.members c owned) (early.members c owned)
    nowhere := fun c owned none =>
      late.nowhere c owned (early.nowhere c owned none)
    released := fun c owned present => by
      rcases early.released c owned present with kept | left | vacant
      · exact late.released c owned kept
      · exact .inr (.inl left)
      · exact .inr (.inr (late.isVacant owned vacant))
    torn := fun c owned m member present => by
      rcases early.torn c owned m member present with kept | left | torn
      · exact late.torn c owned m member kept
      · exact .inr (.inl left)
      · exact .inr (.inr (second.isTorn closed
          (closed v m mine (.member owned member)) torn)) }

theorem holding (frames : List Frame) (world : World σ) :
    base.Dismantles under due world (world.holding frames) := by
  refine
    ⟨.holding world frames, .aside rfl rfl, Nat.le_refl _, Nat.le_refl _, ?_⟩
  intro _ _
  exact .aside rfl (fun _ _ => rfl) (fun _ _ none => none) rfl
    (List.Subset.refl _)

theorem steady (closed : base.IsDownward under) :
    Steady (base.Dismantles under due) where
  refl := refl
  trans := trans closed
  release _ _ _ inner :=
    ((holding _ _).trans closed inner).trans closed (holding _ _)

/-- What is taken out because it was due may be so once it has been done. -/
theorem settle (dismantles : base.Dismantles under more world later)
    (settles : base.Settles more due later) :
    base.Dismantles under due world later := by
  refine ⟨dismantles.run, dismantles.retains, dismantles.views,
    dismantles.collections, fun v mine => ?_⟩
  have strips := dismantles.strips v mine
  exact {
    emitter := strips.emitter
    template := strips.template
    carried := strips.carried
    live := strips.live
    owned := strips.owned
    members := strips.members
    nowhere := strips.nowhere
    released := fun c owned present => by
      rcases strips.released c owned present with kept | left | vacant
      · exact .inl kept
      · rcases settles.collections c left with still | cleared
        · exact .inr (.inl still)
        · exact .inr (.inr cleared.toIsVacant)
      · exact .inr (.inr vacant)
    torn := fun c owned m member present => by
      rcases strips.torn c owned m member present with kept | either
      · exact .inl kept
      · rcases settles.view either with still | torn
        · exact .inr (.inl still)
        · exact .inr (.inr (torn.settle settles)) }

theorem weaken (dismantles : base.Dismantles under due world later)
    (views : due.views ⊆ more.views)
    (collections : due.collections ⊆ more.collections) :
    base.Dismantles under more world later :=
  dismantles.settle (.of_subset views collections)

end Dismantles

end World

end LiveTemplate
