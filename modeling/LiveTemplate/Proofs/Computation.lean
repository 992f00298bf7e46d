import LiveTemplate.World

/-!
# Running computations

`Act.result` and `Act.after` take the outcome of a computation apart.  Both
follow a `do` block step by step, so that later modules never look into the
state monad.
-/

namespace LiveTemplate

variable {σ α β : Type}

namespace Act

/-- What a computation answers when it is started in a world. -/
def result (action : Act σ α) (world : World σ) : α :=
  (action world).1

/-- The world that a computation leaves behind. -/
def after (action : Act σ α) (world : World σ) : World σ :=
  (action world).2

@[simp] theorem result_pure (a : α) (world : World σ) :
    result (pure a) world = a := rfl

@[simp] theorem after_pure (a : α) (world : World σ) :
    after (pure a) world = world := rfl

@[simp] theorem result_bind (action : Act σ α) (next : α → Act σ β)
    (world : World σ) :
    result (action >>= next) world =
      (next (action.result world)).result (action.after world) := rfl

@[simp] theorem after_bind (action : Act σ α) (next : α → Act σ β)
    (world : World σ) :
    after (action >>= next) world =
      (next (action.result world)).after (action.after world) := rfl

@[simp] theorem result_map (f : α → β) (action : Act σ α) (world : World σ) :
    result (f <$> action) world = f (action.result world) := rfl

@[simp] theorem after_map (f : α → β) (action : Act σ α) (world : World σ) :
    after (f <$> action) world = action.after world := rfl

@[simp] theorem result_get (world : World σ) :
    result get world = world := rfl

@[simp] theorem after_get (world : World σ) :
    after get world = world := rfl

@[simp] theorem after_modify (change : World σ → World σ) (world : World σ) :
    after (modify change) world = change world := rfl

@[simp] theorem result_modifyGet (change : World σ → α × World σ)
    (world : World σ) :
    result (modifyGet change) world = (change world).1 := rfl

@[simp] theorem after_modifyGet (change : World σ → α × World σ)
    (world : World σ) :
    after (modifyGet change) world = (change world).2 := rfl

@[simp] theorem after_modifyDom (change : Dom → Dom) (world : World σ) :
    after (modifyDom change) world = { world with dom := change world.dom } :=
  rfl

/-- A branch is taken before the computation starts. -/
@[simp] theorem after_ite (condition : Prop) [Decidable condition]
    (first second : Act σ α) (world : World σ) :
    after (if condition then first else second) world =
      if condition then first.after world else second.after world := by
  split <;> rfl

@[simp] theorem result_ite (condition : Prop) [Decidable condition]
    (first second : Act σ α) (world : World σ) :
    result (if condition then first else second) world =
      if condition then first.result world else second.result world := by
  split <;> rfl

/-- What each computation of a list does to any world is done by all in
turn. -/
theorem after_mapM {relation : World σ → World σ → Prop}
    (refl : ∀ world, relation world world)
    (trans : ∀ {first second third}, relation first second →
      relation second third → relation first third)
    {items : List α} {body : α → Act σ β}
    (each : ∀ item ∈ items, ∀ world, relation world ((body item).after world))
    (world : World σ) :
    relation world ((items.mapM body).after world) := by
  induction items generalizing world with
  | nil => exact refl world
  | cons item rest ih =>
      simp only [List.mapM_cons, after_bind, after_pure]
      exact trans (each item (.head _) world)
        (ih (fun other member => each other (.tail _ member)) _)

theorem after_forM {relation : World σ → World σ → Prop}
    (refl : ∀ world, relation world world)
    (trans : ∀ {first second third}, relation first second →
      relation second third → relation first third)
    {items : List α} {body : α → Act σ Unit}
    (each : ∀ item ∈ items, ∀ world, relation world ((body item).after world))
    (world : World σ) :
    relation world ((items.forM body).after world) := by
  induction items generalizing world with
  | nil => exact refl world
  | cons item rest ih =>
      exact trans (each item (.head _) world)
        (ih (fun other member => each other (.tail _ member)) _)

end Act

/-- The world in which a frame is held beside those of another world. -/
def World.holding (world : World σ) (frames : List Frame) : World σ :=
  { world with frames := frames }

@[simp] theorem result_keeping (frame : Frame) (action : Act σ α)
    (world : World σ) :
    (keeping frame action).result world =
      action.result (world.holding (frame :: world.frames)) := rfl

@[simp] theorem after_keeping (frame : Frame) (action : Act σ α)
    (world : World σ) :
    (keeping frame action).after world =
      (action.after (world.holding (frame :: world.frames))).holding
        world.frames := rfl

namespace World

@[simp] theorem holding_dom (world : World σ) (frames : List Frame) :
    (world.holding frames).dom = world.dom := rfl

@[simp] theorem holding_property (world : World σ) (frames : List Frame)
    (o : ObservableId) (name : String) :
    (world.holding frames).property o name = world.property o name := rfl

@[simp] theorem holding_reactionsOf (world : World σ) (frames : List Frame)
    (o : ObservableId) :
    (world.holding frames).reactionsOf o = world.reactionsOf o := rfl

@[simp] theorem holding_eventActionsOf (world : World σ) (frames : List Frame)
    (n : NodeId) :
    (world.holding frames).eventActionsOf n = world.eventActionsOf n := rfl

@[simp] theorem holding_subscription? (world : World σ) (frames : List Frame)
    (r : RevokerId) :
    (world.holding frames).subscription? r = world.subscription? r := rfl

@[simp] theorem holding_template (world : World σ) (frames : List Frame)
    (t : TemplateId) :
    (world.holding frames).template t = world.template t := rfl

end World

end LiveTemplate
