import LiveTemplate.Proofs.Retrying

/-!
# When a tree can be rendered

The check before rendering walks a tree of templates in order and collects
those it has met.  It passes exactly if every template in the tree is
well-formed and unrendered and stands at one place only.  A tree of templates
and raw nodes that passes is rendered to the end, so that nothing is left for
the pass to find out.
-/

namespace LiveTemplate

variable {σ : Type} {host : Host σ}

namespace Template

/-- A template stands at a place in the tree of another, whatever that one is
made of. -/
inductive Occurs (world : World σ) :
    TemplateId → List Nat → TemplateId → Prop where
  | here (t : TemplateId) : Occurs world t [] t
  | nested {t child inner : TemplateId} {index : Nat} {place : List Nat} :
      (world.template t).blueprint.children[index]? = some (.template child) →
      Occurs world child place inner → Occurs world t (index :: place) inner

/-- A template stands at a place below some members. -/
def Among (world : World σ) (members : List Member) :
    List Nat → TemplateId → Prop
  | [], _ => False
  | index :: place, inner =>
      ∃ t, members[index]? = some (.template t) ∧ Occurs world t place inner

/-- The same place below the members after the first. -/
def later : List Nat → List Nat
  | [] => []
  | index :: place => (index + 1) :: place

theorem later_inj {place other : List Nat} :
    later place = later other ↔ place = other := by
  cases place <;> cases other <;> simp [later]

section Places

variable {world : World σ} {t inner : TemplateId} {place : List Nat}
  {member : Member} {members : List Member}

/-- A template is at the top of its tree, the others are below its children. -/
theorem occurs_iff :
    Occurs world t place inner ↔
      (place = [] ∧ inner = t) ∨
        Among world (world.template t).blueprint.children place inner := by
  constructor
  · intro occurs
    cases occurs with
    | here => exact .inl ⟨rfl, rfl⟩
    | nested found below => exact .inr ⟨_, found, below⟩
  · rintro (⟨rfl, rfl⟩ | among)
    · exact .here inner
    · cases place with
      | nil => exact among.elim
      | cons index place =>
          obtain ⟨child, found, below⟩ := among
          exact .nested found below

theorem not_among_nil : ¬Among world [] place inner := by
  cases place with
  | nil => exact id
  | cons index place =>
      rintro ⟨t, found, _⟩
      cases found

theorem among_cons_zero :
    Among world (member :: members) (0 :: place) inner ↔
      ∃ t, member = .template t ∧ Occurs world t place inner := by
  simp [Among]

theorem among_cons_later :
    Among world (member :: members) (later place) inner ↔
      Among world members place inner := by
  cases place <;> simp [Among, later]

/-- Below the first of some members, or below the others. -/
theorem among_cons_cases (among : Among world (member :: members) place inner) :
    (∃ t further, member = .template t ∧ place = 0 :: further ∧
      Occurs world t further inner) ∨
    ∃ further, place = later further ∧ Among world members further inner := by
  match place, among with
  | 0 :: further, among =>
      obtain ⟨t, same, occurs⟩ := among_cons_zero.mp among
      exact .inl ⟨t, further, same, rfl, occurs⟩
  | (index + 1) :: further, among => exact .inr ⟨index :: further, rfl, among⟩

end Places

/-- A template that can be rendered as far as it alone is concerned. -/
structure IsFresh (template : Template) : Prop where
  renderable : template.blueprint.IsRenderable
  unrendered : template.rendered = false

/-- The templates below some members are fresh and have one place each, where
others were met before. -/
structure Vacant (world : World σ) (members : List Member)
    (seen : List TemplateId) : Prop where
  fresh : ∀ place t, Among world members place t → (world.template t).IsFresh
  unseen : ∀ place t, Among world members place t → t ∉ seen
  single : ∀ place other t, Among world members place t →
    Among world members other t → place = other

/-- What has been met after a walk below some members. -/
def Meets (world : World σ) (members : List Member)
    (seen met : List TemplateId) : Prop :=
  ∀ t, t ∈ met ↔ t ∈ seen ∨ ∃ place, Among world members place t

section Vacant

variable {world : World σ} {t : TemplateId} {member : Member}
  {members : List Member} {seen between met : List TemplateId}

theorem vacant_nil (world : World σ) (seen : List TemplateId) :
    Vacant world [] seen where
  fresh _ _ among := absurd among not_among_nil
  unseen _ _ among := absurd among not_among_nil
  single _ _ _ among := absurd among not_among_nil

theorem meets_nil (world : World σ) (seen : List TemplateId) :
    Meets world [] seen seen := by
  intro t
  refine ⟨.inl, ?_⟩
  rintro (before | ⟨place, among⟩)
  · exact before
  · exact absurd among not_among_nil

theorem Vacant.tail (vacant : Vacant world (member :: members) seen) :
    Vacant world members seen where
  fresh _ t among := vacant.fresh _ t (among_cons_later.mpr among)
  unseen _ t among := vacant.unseen _ t (among_cons_later.mpr among)
  single _ _ t one two := later_inj.mp (vacant.single _ _ t
    (among_cons_later.mpr one) (among_cons_later.mpr two))

theorem among_cons_other (other : member.template? = none)
    {place : List Nat} {inner : TemplateId}
    (among : Among world (member :: members) place inner) :
    ∃ further, place = later further ∧ Among world members further inner := by
  rcases among_cons_cases among with ⟨t, _, rfl, _⟩ | rest
  · cases other
  · exact rest

private theorem vacant_cons_other (other : member.template? = none) :
    Vacant world (member :: members) seen ↔ Vacant world members seen := by
  refine ⟨Vacant.tail, fun vacant => ⟨fun place t among => ?_,
    fun place t among => ?_, fun place further t one two => ?_⟩⟩
  · obtain ⟨_, _, below⟩ := among_cons_other other among
    exact vacant.fresh _ t below
  · obtain ⟨_, _, below⟩ := among_cons_other other among
    exact vacant.unseen _ t below
  · obtain ⟨_, rfl, first⟩ := among_cons_other other one
    obtain ⟨_, rfl, second⟩ := among_cons_other other two
    exact congrArg later (vacant.single _ _ t first second)

private theorem meets_cons_other (other : member.template? = none)
    (meets : Meets world members seen met) :
    Meets world (member :: members) seen met := by
  intro t
  refine (meets t).trans (or_congr_right ⟨?_, ?_⟩)
  · rintro ⟨place, below⟩
    exact ⟨_, among_cons_later.mpr below⟩
  · rintro ⟨place, among⟩
    obtain ⟨_, _, below⟩ := among_cons_other other among
    exact ⟨_, below⟩

theorem among_cons_self :
    Among world (.template t :: members) [0] t := by
  exact among_cons_zero.mpr ⟨t, rfl, .here t⟩

theorem among_cons_below {place : List Nat} {inner : TemplateId}
    (below : Among world (world.template t).blueprint.children place inner) :
    Among world (.template t :: members) (0 :: place) inner := by
  exact among_cons_zero.mpr ⟨t, rfl, occurs_iff.mpr (.inr below)⟩

/-- A nested template, what is below it, and what comes after it. -/
theorem among_cons_template {place : List Nat} {inner : TemplateId}
    (among : Among world (.template t :: members) place inner) :
    (place = [0] ∧ inner = t) ∨
      (∃ further, place = 0 :: further ∧
        Among world (world.template t).blueprint.children further inner) ∨
      ∃ further, place = later further ∧ Among world members further inner := by
  rcases among_cons_cases among with ⟨_, further, same, rfl, occurs⟩ | after
  · cases same
    rcases occurs_iff.mp occurs with ⟨rfl, rfl⟩ | below
    · exact .inl ⟨rfl, rfl⟩
    · exact .inr (.inl ⟨further, rfl, below⟩)
  · exact .inr (.inr after)

private theorem meets_cons_template
    (first : Meets world (world.template t).blueprint.children (seen ++ [t])
      between) (second : Meets world members between met) :
    Meets world (.template t :: members) seen met := by
  intro inner
  rw [second inner, first inner, List.mem_append, List.mem_singleton]
  constructor
  · rintro (((before | rfl) | ⟨place, below⟩) | ⟨place, after⟩)
    · exact .inl before
    · exact .inr ⟨_, among_cons_self⟩
    · exact .inr ⟨_, among_cons_below below⟩
    · exact .inr ⟨_, among_cons_later.mpr after⟩
  · rintro (before | ⟨place, among⟩)
    · exact .inl (.inl (.inl before))
    · rcases among_cons_template among with
        ⟨_, same⟩ | ⟨_, _, below⟩ | ⟨_, _, after⟩
      · exact .inl (.inl (.inr same))
      · exact .inl (.inr ⟨_, below⟩)
      · exact .inr ⟨_, after⟩

/-- What is below a nested template stands apart from it. -/
theorem Vacant.below (vacant : Vacant world (.template t :: members) seen) :
    Vacant world (world.template t).blueprint.children (seen ++ [t]) where
  fresh _ inner below := vacant.fresh _ inner (among_cons_below below)
  unseen place inner below := by
    rw [List.mem_append, List.mem_singleton]
    rintro (before | rfl)
    · exact vacant.unseen _ inner (among_cons_below below) before
    · cases vacant.single _ _ inner among_cons_self (among_cons_below below)
      exact below
  single _ _ inner one two := (List.cons.inj (vacant.single _ _ inner
    (among_cons_below one) (among_cons_below two))).2

/-- What comes after a nested template stands apart from its whole tree. -/
theorem Vacant.after (vacant : Vacant world (.template t :: members) seen)
    (meets : Meets world (world.template t).blueprint.children (seen ++ [t])
      between) : Vacant world members between where
  fresh := vacant.tail.fresh
  single := vacant.tail.single
  unseen place inner after := by
    have elsewhere {other : List Nat}
        (among : Among world (.template t :: members) (0 :: other) inner) :
        False := by
      have same := vacant.single _ _ inner among (among_cons_later.mpr after)
      cases place with
      | nil => exact after
      | cons => cases same
    rw [meets inner, List.mem_append, List.mem_singleton]
    rintro ((before | rfl) | ⟨further, below⟩)
    · exact vacant.tail.unseen _ inner after before
    · exact elsewhere among_cons_self
    · exact elsewhere (among_cons_below below)

private theorem vacant_cons_template
    (meets : Meets world (world.template t).blueprint.children (seen ++ [t])
      between) :
    Vacant world (.template t :: members) seen ↔
      ((world.template t).IsFresh ∧ t ∉ seen) ∧
      Vacant world (world.template t).blueprint.children (seen ++ [t]) ∧
      Vacant world members between := by
  constructor
  · intro vacant
    exact ⟨⟨vacant.fresh _ t among_cons_self,
      vacant.unseen _ t among_cons_self⟩,
      vacant.below, vacant.after meets⟩
  · rintro ⟨⟨fresh, unseen⟩, below, after⟩
    have within {place : List Nat} {inner : TemplateId}
        (among : Among world (world.template t).blueprint.children place
          inner) : inner ∉ seen ∧ inner ≠ t := by
      have new := below.unseen _ inner among
      rwa [List.mem_append, List.mem_singleton, not_or] at new
    have beyond {place : List Nat} {inner : TemplateId}
        (among : Among world members place inner) :
        (inner ∉ seen ∧ inner ≠ t) ∧ ∀ further,
          ¬Among world (world.template t).blueprint.children further inner := by
      have new := after.unseen _ inner among
      rwa [meets inner, List.mem_append, List.mem_singleton, not_or, not_or,
        not_exists] at new
    refine ⟨fun place inner among => ?_, fun place inner among => ?_,
      fun place other inner one two => ?_⟩
    · rcases among_cons_template among with
        ⟨_, rfl⟩ | ⟨_, _, among⟩ | ⟨_, _, among⟩
      · exact fresh
      · exact below.fresh _ inner among
      · exact after.fresh _ inner among
    · rcases among_cons_template among with
        ⟨_, rfl⟩ | ⟨_, _, among⟩ | ⟨_, _, among⟩
      · exact unseen
      · exact (within among).1
      · exact (beyond among).1.1
    · rcases among_cons_template one with
          ⟨rfl, rfl⟩ | ⟨_, rfl, first⟩ | ⟨_, rfl, first⟩ <;>
        rcases among_cons_template two with
          ⟨rfl, same⟩ | ⟨_, rfl, second⟩ | ⟨_, rfl, second⟩
      · rfl
      · exact absurd rfl (within second).2
      · exact absurd rfl (beyond second).1.2
      · exact absurd same (within first).2
      · exact congrArg _ (below.single _ _ inner first second)
      · exact absurd first ((beyond second).2 _)
      · exact absurd same (beyond first).1.2
      · exact absurd second ((beyond first).2 _)
      · exact congrArg later (after.single _ _ inner first second)

end Vacant

section Check

variable {world : World σ}

/-- A check of a template that passes exactly if the tree is vacant, and says
what it has met. -/
structure Decides (world : World σ)
    (check : TemplateId → List TemplateId →
      Except TemplateError (List TemplateId)) (t : TemplateId) : Prop where
  passes : ∀ seen, (∃ met, check t seen = .ok met) ↔
    (world.template t).blueprint.IsRenderable ∧
      Vacant world (world.template t).blueprint.children seen
  meets : ∀ seen met, check t seen = .ok met →
    Meets world (world.template t).blueprint.children seen met

private theorem checkFreshChildren_template_ok_iff
    {check : TemplateId → List TemplateId →
      Except TemplateError (List TemplateId)} {t : TemplateId}
    {rest : List Member} {seen met : List TemplateId} :
    checkFreshChildren world check (.template t :: rest) seen = .ok met ↔
      ((world.template t).rendered = false ∧ t ∉ seen) ∧
        ∃ between, check t (seen ++ [t]) = .ok between ∧
          checkFreshChildren world check rest between = .ok met := by
  rw [checkFreshChildren]
  by_cases free : (world.template t).rendered = false ∧ t ∉ seen
  · rw [if_neg (by simp [free]), Except.bind_eq_ok_iff]
    exact (and_iff_right free).symm
  · rw [if_pos (by simpa [Classical.or_iff_not_imp_left] using free)]
    refine ⟨fun refused => ?_, fun passed => absurd passed.1 free⟩
    cases refused

theorem checkFreshChildren_ok_iff
    {check : TemplateId → List TemplateId →
      Except TemplateError (List TemplateId)} {members : List Member}
    (decides : ∀ t, .template t ∈ members → Decides world check t)
    (seen : List TemplateId) :
    ((∃ met, checkFreshChildren world check members seen = .ok met) ↔
      Vacant world members seen) ∧
    ∀ met, checkFreshChildren world check members seen = .ok met →
      Meets world members seen met := by
  induction members generalizing seen with
  | nil =>
      refine ⟨⟨fun _ => vacant_nil world seen, fun _ => ⟨seen, rfl⟩⟩, ?_⟩
      intro met passed
      cases passed
      exact meets_nil world seen
  | cons member rest ih =>
      have passed (other : member.template? = none)
          (same : checkFreshChildren world check (member :: rest) seen =
            checkFreshChildren world check rest seen) :
          ((∃ met, checkFreshChildren world check (member :: rest) seen =
            .ok met) ↔ Vacant world (member :: rest) seen) ∧
          ∀ met, checkFreshChildren world check (member :: rest) seen =
            .ok met → Meets world (member :: rest) seen met := by
        obtain ⟨vacant, meets⟩ :=
          ih (fun t inside => decides t (.tail _ inside)) seen
        rw [same, vacant_cons_other other]
        exact ⟨vacant, fun met passed =>
          meets_cons_other other (meets met passed)⟩
      cases member with
      | view v => exact passed rfl rfl
      | collection c => exact passed rfl rfl
      | node n => exact passed rfl rfl
      | template t =>
          obtain ⟨passes, meets⟩ := decides t (.head _)
          have others := ih fun t inside => decides t (.tail _ inside)
          simp only [checkFreshChildren_template_ok_iff]
          refine ⟨⟨?_, fun vacant => ?_⟩, ?_⟩
          · rintro ⟨met, free, between, first, second⟩
            obtain ⟨renderable, below⟩ := (passes _).mp ⟨between, first⟩
            exact (vacant_cons_template (meets _ _ first)).mpr
              ⟨⟨⟨renderable, free.1⟩, free.2⟩, below,
                (others between).1.mp ⟨met, second⟩⟩
          · have fresh := vacant.fresh _ t among_cons_self
            obtain ⟨between, first⟩ :=
              (passes _).mpr ⟨fresh.renderable, vacant.below⟩
            obtain ⟨met, second⟩ :=
              (others between).1.mpr (vacant.after (meets _ _ first))
            exact ⟨met, ⟨fresh.unrendered, vacant.unseen _ t among_cons_self⟩,
              between, first, second⟩
          · rintro met ⟨_, between, first, second⟩
            exact meets_cons_template (meets _ _ first)
              ((others between).2 met second)

private theorem decides_checkFreshWithin (sound : world.HasSoundTemplates)
    {fuel : Nat}
    {t : TemplateId} (enough : t.index < fuel) :
    Decides world (checkFreshWithin world fuel) t := by
  induction fuel generalizing t with
  | zero => exact absurd enough (Nat.not_lt_zero _)
  | succ fuel ih =>
      have nested : ∀ inner,
          .template inner ∈ (world.template t).blueprint.children →
            Decides world (checkFreshWithin world fuel) inner :=
        fun inner inside => ih (Nat.lt_of_lt_of_le
          ((sound t).older inner inside) (Nat.le_of_lt_succ enough))
      have children := checkFreshChildren_ok_iff nested
      have stepwise (seen met : List TemplateId) :
          checkFreshWithin world (fuel + 1) t seen = .ok met ↔
            (world.template t).blueprint.IsRenderable ∧
              checkFreshChildren world (checkFreshWithin world fuel)
                (world.template t).blueprint.children seen = .ok met := by
        rw [checkFreshWithin]
        dsimp only
        rw [Except.refuse_eq_ok_iff, Except.check_eq_ok_iff,
          Blueprint.checkEntries_ok_iff]
        constructor
        · rintro ⟨shape, ⟨listeners, styles⟩, passed⟩
          exact ⟨⟨shape, listeners, styles⟩, passed⟩
        · rintro ⟨⟨shape, listeners, styles⟩, passed⟩
          exact ⟨shape, ⟨listeners, styles⟩, passed⟩
      constructor
      · intro seen
        simp only [stepwise, exists_and_left, (children seen).1]
      · intro seen met passed
        exact (children seen).2 met ((stepwise seen met).mp passed).2

/-- A template whose tree is clear: all of it is fresh, and nothing in it has
two places. -/
structure IsClear (world : World σ) (t : TemplateId) : Prop where
  fresh : ∀ place inner, Occurs world t place inner →
    (world.template inner).IsFresh
  single : ∀ place other inner, Occurs world t place inner →
    Occurs world t other inner → place = other

private theorem vacant_singleton_iff {t : TemplateId} :
    Vacant world [.template t] [] ↔ IsClear world t := by
  have rooted {place : List Nat} {inner : TemplateId}
      (occurs : Occurs world t place inner) :
      Among world [.template t] (0 :: place) inner :=
    among_cons_zero.mpr ⟨t, rfl, occurs⟩
  have unrooted {place : List Nat} {inner : TemplateId}
      (among : Among world [.template t] place inner) :
      ∃ further, place = 0 :: further ∧ Occurs world t further inner := by
    rcases among_cons_cases among with
      ⟨_, further, same, rfl, occurs⟩ | ⟨_, _, none⟩
    · cases same
      exact ⟨further, rfl, occurs⟩
    · exact absurd none not_among_nil
  constructor
  · intro vacant
    exact ⟨fun _ inner occurs => vacant.fresh _ inner (rooted occurs),
      fun _ _ inner one two => (List.cons.inj
        (vacant.single _ _ inner (rooted one) (rooted two))).2⟩
  · intro clear
    refine ⟨fun _ inner among => ?_, fun _ _ _ => List.not_mem_nil,
      fun _ _ inner one two => ?_⟩
    · obtain ⟨_, _, occurs⟩ := unrooted among
      exact clear.fresh _ inner occurs
    · obtain ⟨_, rfl, first⟩ := unrooted one
      obtain ⟨_, rfl, second⟩ := unrooted two
      exact congrArg _ (clear.single _ _ inner first second)

/-- A template is unrendered and passes the check exactly if its tree is
clear. -/
theorem checkFresh_ok_iff (sound : world.HasSoundTemplates) {t : TemplateId} :
    ((world.template t).rendered = false ∧ checkFresh world t = .ok ()) ↔
      IsClear world t := by
  have decides : ∀ inner, Member.template inner ∈ [Member.template t] →
      Decides world (checkFreshWithin world (t.index + 1)) inner := by
    intro inner inside
    cases List.mem_singleton.mp inside
    exact decides_checkFreshWithin sound (Nat.lt_succ_self t.index)
  rw [← vacant_singleton_iff, ← (checkFreshChildren_ok_iff decides []).1]
  cases free : (world.template t).rendered with
  | true => simp [checkFreshChildren, free]
  | false =>
      simp [checkFresh, checkFreshChildren, free, Except.bind_eq_ok_iff, pure,
        Except.pure]

end Check

/-- Templates and raw nodes are all that a tree is made of, and its callbacks
are pure. -/
structure IsPlain (host : Host σ) (world : World σ) (t : TemplateId) :
    Prop where
  children : ∀ place inner, Occurs world t place inner →
    ∀ child ∈ (world.template inner).blueprint.children,
      (∃ nested, child = .template nested) ∨ ∃ n, child = .node n
  isPure : ∀ place inner, Occurs world t place inner →
    (world.template inner).blueprint.IsPure host

section Plain

variable {world : World σ} {t : TemplateId}

theorem IsPlain.nested (plain : IsPlain host world t) {child : TemplateId}
    (inside : .template child ∈ (world.template t).blueprint.children) :
    IsPlain host world child := by
  obtain ⟨index, found⟩ := List.mem_iff_getElem?.mp inside
  exact ⟨fun _ inner occurs => plain.children _ inner (.nested found occurs),
    fun _ inner occurs => plain.isPure _ inner (.nested found occurs)⟩

theorem IsPlain.stands {place : List Nat} {inner : Member}
    (plain : IsPlain host world t)
    (stands : Stands world (.template t) place inner) :
    (∃ nested, inner = .template nested ∧ Occurs world t place nested) ∨
      ∃ n, inner = .node n := by
  generalize top : Member.template t = member at stands
  induction stands generalizing t with
  | here =>
      subst top
      exact .inl ⟨t, rfl, .here t⟩
  | @template _ _ child _ _ _ found below ih =>
      cases top
      have inside := List.mem_of_getElem? found
      rcases plain.children _ _ (.here _) child inside with
        ⟨nested, rfl⟩ | ⟨n, rfl⟩
      · rcases ih (plain.nested inside) rfl with ⟨nested, same, occurs⟩ | node
        · exact .inl ⟨nested, same, .nested found occurs⟩
        · exact .inr node
      · cases below
        exact .inr ⟨n, rfl⟩
  | collection => cases top
  | view => cases top

theorem IsPlain.isSettled (plain : IsPlain host world t) :
    Member.IsSettled host world (.template t) := by
  intro place inner stands
  rcases plain.stands stands with ⟨nested, rfl, occurs⟩ | ⟨n, rfl⟩
  · refine ⟨fun other same => ?_, fun _ impossible => nomatch impossible⟩
    cases same
    exact plain.isPure _ nested occurs
  · exact ⟨fun _ impossible => (nomatch impossible),
      fun _ impossible => nomatch impossible⟩

/-- In every world that can be reached, a tree of templates and nodes is
rendered exactly if it is clear, and otherwise the world stays as it is. -/
theorem render_ok_iff_clear {client : σ}
    (reached : Run (World.initial client) world)
    (plain : IsPlain host world t) :
    ((∃ n, (render host t).result world = .ok n) ↔ IsClear world t) ∧
      ∀ error, (render host t).result world = .error error →
        (render host t).after world = world := by
  have sound := (reached.progress (World.ordered_initial client)).1.sound
  rw [← checkFresh_ok_iff sound]
  unfold render Act.result Act.after
  by_cases clear : (world.template t).rendered = false ∧
      checkFresh world t = .ok ()
  · obtain ⟨node, record, _, _, outcome, _⟩ :=
      marks_renderPass (View.reuses_mountWith (View.render host)) sound
        plain.isSettled clear.1 clear.2
    have succeeds := run_renderWith_of_passed clear.1 clear.2 outcome
    unfold View.mount
    rw [succeeds]
    simp [clear]
  · obtain ⟨error, refused⟩ :=
      run_renderWith_of_refused host (View.mount host) clear
    rw [refused]
    simp [clear]

namespace Board

/-- A paragraph with a style of two kinds and a listener for its own clicks. -/
def note : Blueprint :=
  { (Parts.ofTag "p" : Blueprint) with
    attributes := [("style", [.styles [("color", [.fixed (.text "red")])],
      .fixed (.text "top: 0")])]
    listeners := [("click@p", [⟨⟨0⟩, ⟨0⟩, .emit "read"⟩])] }

/-- The note, a board with the note and a raw text, and a wall with the board
and once more with the note. -/
def start : World Unit :=
  { World.initial () with
    dom := (Dom.empty.create (.text "pinned")).2
    emitters := ⟨#[⟨[], []⟩]⟩
    templates := ⟨#[⟨note, false, none⟩,
      ⟨Halted.card [.template ⟨0⟩, .node ⟨0⟩], false, none⟩,
      ⟨Halted.card [.template ⟨1⟩, .template ⟨0⟩], false, none⟩]⟩ }

theorem reached : Run (World.initial ()) start := by
  refine .aside rfl rfl rfl ⟨?_, ?_⟩
  · rintro ⟨index⟩ entry kept
    rcases index with _ | _ | _ | index <;> cases kept
  · rintro _ ⟨index⟩
    rcases index with _ | _ | _ | index
    · exact ⟨by decide, fun _ member => nomatch member⟩
    · refine ⟨.nil, fun t member => ?_⟩
      rcases List.mem_cons.mp member with same | later
      · cases same
        exact Nat.one_pos
      · cases List.mem_singleton.mp later
    · refine ⟨.nil, fun t member => ?_⟩
      rcases List.mem_cons.mp member with same | later
      · cases same
        exact Nat.one_lt_two
      · cases List.mem_singleton.mp later
        exact Nat.two_pos
    · exact .none _

theorem children (t : TemplateId) :
    ∀ child ∈ (start.template t).blueprint.children,
      (∃ nested, child = .template nested) ∨ ∃ n, child = .node n := by
  obtain ⟨index⟩ := t
  intro child inside
  rcases index with _ | _ | _ | index
  · cases inside
  · rcases List.mem_cons.mp inside with rfl | later
    · exact .inl ⟨_, rfl⟩
    · exact .inr ⟨_, List.mem_singleton.mp later⟩
  · rcases List.mem_cons.mp inside with rfl | later
    · exact .inl ⟨_, rfl⟩
    · exact .inl ⟨_, List.mem_singleton.mp later⟩
  · cases inside

theorem plain (t : TemplateId) : IsPlain Halted.client start t := by
  constructor
  · intro _ inner _
    exact children inner
  · intro _ _ _
    exact .of_bindings fun _ _ _ _ _ _ => rfl

end Board

/-- The board is rendered with its note.  The wall is not, because the note
would have two places, and nothing comes of the attempt. -/
theorem render_board_and_wall :
    (∃ n, (render Halted.client ⟨1⟩).result Board.start = .ok n) ∧
      (∃ error, (render Halted.client ⟨2⟩).result Board.start =
        .error error) ∧
      (render Halted.client ⟨2⟩).after Board.start = Board.start := by
  have sound :=
    (Board.reached.progress (World.ordered_initial ())).1.sound
  have board : IsClear Board.start ⟨1⟩ :=
    (checkFresh_ok_iff sound).mp ⟨rfl, by decide +kernel⟩
  have wall : ¬IsClear Board.start ⟨2⟩ := fun clear => by
    have first : Occurs Board.start ⟨2⟩ [0, 0] ⟨0⟩ :=
      .nested rfl (.nested rfl (.here _))
    have second : Occurs Board.start ⟨2⟩ [1] ⟨0⟩ := .nested rfl (.here _)
    cases clear.single _ _ _ first second
  obtain ⟨succeeds, stays⟩ :=
    render_ok_iff_clear Board.reached (Board.plain ⟨2⟩)
  refine ⟨(render_ok_iff_clear Board.reached (Board.plain ⟨1⟩)).1.mpr board, ?_⟩
  cases outcome : (render Halted.client ⟨2⟩).result Board.start with
  | ok n => exact absurd (succeeds.mp ⟨n, outcome⟩) wall
  | error error => exact ⟨⟨error, rfl⟩, stays error outcome⟩

end Plain

end Template

end LiveTemplate
