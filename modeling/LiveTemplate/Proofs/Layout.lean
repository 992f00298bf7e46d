import LiveTemplate.Proofs.Templates

/-!
# Where the templates of a definition are

Making a template from a definition makes one from every definition nested in
it, the inner ones first.  So they take up consecutive numbers, and which
number belongs to which definition follows from how many definitions are nested
in the ones before it.
-/

namespace LiveTemplate

variable {σ : Type}

mutual

/-- How many definitions are nested in a definition. -/
def Parts.width : Parts Child → Nat
  | ⟨_, _, _, _, _, children⟩ => Child.widths children

def Child.width : Child → Nat
  | .definition parts => parts.width + 1
  | .template _ => 0
  | .view _ => 0
  | .collection _ => 0
  | .node _ => 0

def Child.widths : List Child → Nat
  | [] => 0
  | child :: rest => child.width + Child.widths rest

end

/-- What becomes of a child when the templates in it begin at a number. -/
def Child.memberAt (base : Nat) : Child → Member
  | .definition parts => .template ⟨base + parts.width⟩
  | .template t => .template t
  | .view v => .view v
  | .collection c => .collection c
  | .node n => .node n

def Child.membersAt (base : Nat) : List Child → List Member
  | [] => []
  | child :: rest => child.memberAt base :: membersAt (base + child.width) rest

/-- The blueprint of a definition when the templates in it begin at a number. -/
def Parts.blueprintAt (base : Nat) (parts : Parts Child) : Blueprint :=
  ⟨parts.tag, parts.namespaceName, parts.text, parts.attributes,
    parts.listeners, Child.membersAt base parts.children⟩

mutual

/-- The templates nested in a definition are there, beginning at a number. -/
def Laid (world : World σ) (base : Nat) : Parts Child → Prop
  | ⟨_, _, _, _, _, children⟩ => LaidChildren world base children

def LaidChild (world : World σ) (base : Nat) : Child → Prop
  | .definition parts =>
      Laid world base parts ∧ world.template ⟨base + parts.width⟩ =
        ⟨parts.blueprintAt base, false, none⟩
  | .template _ => True
  | .view _ => True
  | .collection _ => True
  | .node _ => True

def LaidChildren (world : World σ) (base : Nat) : List Child → Prop
  | [] => True
  | child :: rest =>
      LaidChild world base child ∧
        LaidChildren world (base + child.width) rest

end

section Numbers

variable {world later : World σ}

theorem width_eq (parts : Parts Child) :
    parts.width = Child.widths parts.children := by
  cases parts
  rw [Parts.width]

theorem laid_iff {base : Nat} {parts : Parts Child} :
    Laid world base parts ↔ LaidChildren world base parts.children := by
  cases parts
  rw [Laid]

mutual

/-- Only the numbers in between matter. -/
theorem laid_congr (parts : Parts Child) {base : Nat}
    (same : ∀ t : TemplateId, base ≤ t.index → t.index < base + parts.width →
      later.template t = world.template t) (laid : Laid world base parts) :
    Laid later base parts := by
  cases parts
  rw [Laid] at laid ⊢
  rw [Parts.width] at same
  exact laidChildren_congr _ same laid

theorem laidChild_congr (child : Child) {base : Nat}
    (same : ∀ t : TemplateId, base ≤ t.index → t.index < base + child.width →
      later.template t = world.template t) (laid : LaidChild world base child) :
    LaidChild later base child := by
  cases child with
  | definition parts =>
      rw [LaidChild] at laid ⊢
      rw [Child.width] at same
      refine ⟨laid_congr parts (fun t above below => same t above ?_) laid.1, ?_⟩
      · omega
      · rw [same ⟨base + parts.width⟩ (by simp) (by simp)]
        exact laid.2
  | template t => rwa [LaidChild] at laid ⊢
  | view v => rwa [LaidChild] at laid ⊢
  | collection c => rwa [LaidChild] at laid ⊢
  | node n => rwa [LaidChild] at laid ⊢

theorem laidChildren_congr (children : List Child) {base : Nat}
    (same : ∀ t : TemplateId, base ≤ t.index →
      t.index < base + Child.widths children →
        later.template t = world.template t)
    (laid : LaidChildren world base children) :
    LaidChildren later base children := by
  cases children with
  | nil => trivial
  | cons child rest =>
      rw [LaidChildren] at laid ⊢
      rw [Child.widths] at same
      refine ⟨laidChild_congr child
        (fun t above below => same t above ?_) laid.1,
        laidChildren_congr rest (fun t above below => same t ?_ ?_) laid.2⟩ <;>
        omega

end

end Numbers

namespace Template

/-- Templates were added, and nothing else happened. -/
structure Adds (world later : World σ) (count : Nat) : Prop where
  only : later = { world with templates := later.templates }
  size : later.templates.size = world.templates.size + count
  old : ∀ t : TemplateId, t.index < world.templates.size →
    later.template t = world.template t

namespace Adds

variable {world between later : World σ}

theorem refl (world : World σ) : Adds world world 0 := by
  exact ⟨rfl, rfl, fun _ _ => rfl⟩

theorem trans {count more : Nat} (first : Adds world between count)
    (second : Adds between later more) : Adds world later (count + more) where
  only := by
    rw [second.only, first.only]
  size := by rw [second.size, first.size, Nat.add_assoc]
  old t below := by
    rw [second.old t (by rw [first.size]; omega), first.old t below]

end Adds

theorem adds_add (blueprint : Blueprint) (world : World σ) :
    Adds world ((add blueprint).after world) 1 where
  only := rfl
  size := by simp [add, Store.alloc, Store.size]
  old t below := template_add_of_ne blueprint world (Nat.ne_of_lt below)

/-- The templates nested in a definition come first, and then its own. -/
theorem laid_create_of_compile {parts : Parts Child} {world : World σ}
    (compiled : (compile parts).result world =
        parts.blueprintAt world.templates.size ∧
      Adds world ((compile parts).after world) parts.width ∧
      Laid ((compile parts).after world) world.templates.size parts) :
    (create parts).result world = ⟨world.templates.size + parts.width⟩ ∧
      Adds world ((create parts).after world) (parts.width + 1) ∧
      LaidChild ((create parts).after world) world.templates.size
        (.definition parts) := by
  obtain ⟨blueprint, adds, laid⟩ := compiled
  have stepwise : (create parts).after world =
      (add (parts.blueprintAt world.templates.size)).after
        ((compile parts).after world) := by
    rw [← blueprint]
    rfl
  have added := adds_add (parts.blueprintAt world.templates.size)
    ((compile parts).after world)
  have number : (add (parts.blueprintAt world.templates.size)).result
      ((compile parts).after world) = ⟨world.templates.size + parts.width⟩ :=
    congrArg TemplateId.mk adds.size
  rw [stepwise, LaidChild, ← number]
  refine ⟨?_, adds.trans added, ?_, template_add_self _ _⟩
  · rw [number]
    exact congrArg TemplateId.mk adds.size
  · refine laid_congr parts (fun t _ below => added.old t ?_) laid
    rw [adds.size]
    exact below

mutual

/-- Compiling a definition lays out the templates nested in it. -/
theorem laid_compile (parts : Parts Child) (world : World σ) :
    (compile parts).result world = parts.blueprintAt world.templates.size ∧
      Adds world ((compile parts).after world) parts.width ∧
      Laid ((compile parts).after world) world.templates.size parts := by
  obtain ⟨tag, namespaceName, text, attributes, listeners, children⟩ := parts
  obtain ⟨members, adds, laid⟩ := laid_compileChildren children world
  rw [compile, Parts.width, Laid]
  refine ⟨?_, adds, laid⟩
  rw [Act.result_bind, members]
  rfl

theorem laid_compileChild (child : Child) (world : World σ) :
    (compileChild child).result world =
        child.memberAt world.templates.size ∧
      Adds world ((compileChild child).after world) child.width ∧
      LaidChild ((compileChild child).after world) world.templates.size
        child := by
  cases child with
  | definition parts =>
      obtain ⟨number, adds, laid⟩ :=
        laid_create_of_compile (laid_compile parts world)
      have stepwise : (compileChild (.definition parts) : Act σ Member) =
          Member.template <$> create parts := by
        rw [compileChild]
        rfl
      rw [stepwise, Child.width]
      exact ⟨congrArg Member.template number, adds, laid⟩
  | template t =>
      rw [compileChild, Child.width, LaidChild]
      exact ⟨rfl, .refl world, trivial⟩
  | view v =>
      rw [compileChild, Child.width, LaidChild]
      exact ⟨rfl, .refl world, trivial⟩
  | collection c =>
      rw [compileChild, Child.width, LaidChild]
      exact ⟨rfl, .refl world, trivial⟩
  | node n =>
      rw [compileChild, Child.width, LaidChild]
      exact ⟨rfl, .refl world, trivial⟩

theorem laid_compileChildren (children : List Child) (world : World σ) :
    (compileChildren children).result world =
        Child.membersAt world.templates.size children ∧
      Adds world ((compileChildren children).after world)
        (Child.widths children) ∧
      LaidChildren ((compileChildren children).after world)
        world.templates.size children := by
  cases children with
  | nil =>
      rw [compileChildren, Child.widths, LaidChildren]
      exact ⟨rfl, .refl world, trivial⟩
  | cons child rest =>
      obtain ⟨member, adds, laid⟩ := laid_compileChild child world
      obtain ⟨members, more, others⟩ :=
        laid_compileChildren rest ((compileChild child).after world)
      rw [adds.size] at members others
      rw [compileChildren, Child.widths, LaidChildren, Child.membersAt]
      refine ⟨?_, adds.trans more, ?_, others⟩
      · rw [← member, ← members]
        rfl
      · refine laidChild_congr child (fun t _ below => more.old t ?_) laid
        rw [adds.size]
        exact below

end

/-- Making a template lays out its definition. -/
theorem laid_create (definition : Definition) (world : World σ) :
    (create definition).result world =
        ⟨world.templates.size + definition.width⟩ ∧
      Adds world ((create definition).after world) (definition.width + 1) ∧
      LaidChild ((create definition).after world) world.templates.size
        (.definition definition) :=
  laid_create_of_compile (laid_compile definition world)

end Template

mutual

/-- A definition together with what another one adds to it. -/
def Parts.absorb : Parts Child → Parts Child → Parts Child
  | ⟨tag, namespaceName, text, attributes, listeners, children⟩, extension =>
      { Parts.merge ⟨tag, namespaceName, text, attributes, listeners, children⟩
          extension with
        children := Child.absorbEach children extension.children }

def Child.absorb : Child → Child → Child
  | .definition parts, .definition extension =>
      .definition (parts.absorb extension)
  | .definition parts, _ => .definition parts
  | .template t, _ => .template t
  | .view v, _ => .view v
  | .collection c, _ => .collection c
  | .node n, _ => .node n

def Child.absorbEach : List Child → List Child → List Child
  | [], _ => []
  | child :: rest, [] => child :: rest
  | child :: rest, other :: others =>
      child.absorb other :: Child.absorbEach rest others

end

/-- A definition that adds nothing. -/
structure Parts.IsBlank (parts : Parts Child) : Prop where
  text : parts.text = Option.none
  attributes : parts.attributes = []
  listeners : parts.listeners = []
  children : parts.children = []

mutual

/-- An extension has no children, or one for each child of a definition, and
then all of them are definitions.  To templates that are spare, which were made
before, it adds nothing. -/
def Parts.Suits (spare : TemplateId → Prop) :
    Parts Child → Parts Child → Prop
  | ⟨_, _, _, _, _, children⟩, extension =>
      extension.children = [] ∨
        Child.SuitEach spare children extension.children

def Child.Suits (spare : TemplateId → Prop) : Child → Child → Prop
  | .definition parts, .definition extension => parts.Suits spare extension
  | .template t, .definition extension => spare t ∧ extension.IsBlank
  | .definition _, _ => False
  | .template _, _ => False
  | .view _, _ => False
  | .collection _, _ => False
  | .node _, _ => False

def Child.SuitEach (spare : TemplateId → Prop) : List Child → List Child → Prop
  | [], others => others = []
  | _ :: _, [] => False
  | child :: rest, other :: others =>
      child.Suits spare other ∧ Child.SuitEach spare rest others

end

theorem Child.Suits.cases {spare : TemplateId → Prop} {child other : Child}
    (suits : child.Suits spare other) :
    (∃ parts extension, child = .definition parts ∧
      other = .definition extension ∧ parts.Suits spare extension) ∨
    ∃ t extension, child = .template t ∧ other = .definition extension ∧
      spare t ∧ extension.IsBlank := by
  cases child with
  | definition parts =>
      cases other with
      | definition extension =>
          rw [Child.Suits] at suits
          exact .inl ⟨parts, extension, rfl, rfl, suits⟩
      | _ => simp [Child.Suits] at suits
  | template t =>
      cases other with
      | definition extension =>
          rw [Child.Suits] at suits
          exact .inr ⟨t, extension, rfl, rfl, suits⟩
      | _ => simp [Child.Suits] at suits
  | _ => simp [Child.Suits] at suits

mutual

theorem width_absorb (parts extension : Parts Child) :
    (parts.absorb extension).width = parts.width := by
  obtain ⟨tag, namespaceName, text, attributes, listeners, children⟩ := parts
  rw [Parts.absorb, width_eq, Parts.width]
  exact widths_absorbEach children extension.children

theorem width_absorbChild (child other : Child) :
    (child.absorb other).width = child.width := by
  cases child with
  | definition parts =>
      cases other with
      | definition extension =>
          rw [Child.absorb, Child.width, Child.width, width_absorb]
      | _ => simp [Child.absorb]
  | _ => simp [Child.absorb]

theorem widths_absorbEach (children others : List Child) :
    Child.widths (Child.absorbEach children others) =
      Child.widths children := by
  cases children with
  | nil => rw [Child.absorbEach]
  | cons child rest =>
      cases others with
      | nil => rw [Child.absorbEach]
      | cons other others =>
          rw [Child.absorbEach, Child.widths, Child.widths, width_absorbChild,
            widths_absorbEach]

end

/-- Merging leaves the places of nested definitions alone. -/
theorem membersAt_absorbEach (base : Nat) (children others : List Child) :
    Child.membersAt base (Child.absorbEach children others) =
      Child.membersAt base children := by
  induction children generalizing base others with
  | nil => rw [Child.absorbEach]
  | cons child rest ih =>
      cases others with
      | nil => rw [Child.absorbEach]
      | cons other others =>
          rw [Child.absorbEach, Child.membersAt, Child.membersAt,
            width_absorbChild, ih]
          congr 1
          cases child with
          | definition parts =>
              cases other with
              | definition extension =>
                  rw [Child.absorb, Child.memberAt, Child.memberAt,
                    width_absorb]
              | _ => simp [Child.absorb]
          | _ => simp [Child.absorb]

theorem children_absorb (parts extension : Parts Child) :
    (parts.absorb extension).children =
      Child.absorbEach parts.children extension.children := by
  cases parts
  rw [Parts.absorb]

theorem blueprintAt_absorb (base other : Nat) (parts extension : Parts Child) :
    (parts.absorb extension).blueprintAt base =
      Parts.merge (parts.blueprintAt base) (extension.blueprintAt other) := by
  obtain ⟨tag, namespaceName, text, attributes, listeners, children⟩ := parts
  rw [Parts.absorb]
  unfold Parts.blueprintAt
  rw [membersAt_absorbEach]
  rfl

namespace Template

/-- Templates may have changed between two numbers, and nothing else. -/
structure Alters (world later : World σ) (low high : Nat) : Prop where
  only : later = { world with templates := later.templates }
  outside : ∀ t : TemplateId, t.index < low ∨ high ≤ t.index →
    later.template t = world.template t

namespace Alters

variable {world between later : World σ} {low high : Nat}

theorem refl (world : World σ) (low high : Nat) :
    Alters world world low high := by
  exact ⟨rfl, fun _ _ => rfl⟩

theorem trans (first : Alters world between low high)
    (second : Alters between later low high) : Alters world later low high where
  only := by rw [second.only, first.only]
  outside t apart := by rw [second.outside t apart, first.outside t apart]

theorem mono {lower higher : Nat} (alters : Alters world later low high)
    (below : lower ≤ low) (above : high ≤ higher) :
    Alters world later lower higher where
  only := alters.only
  outside t apart := alters.outside t (by omega)

theorem laid (alters : Alters world later low high) {parts : Parts Child}
    {base : Nat} (apart : base + parts.width ≤ low ∨ high ≤ base)
    (laid : Laid world base parts) : Laid later base parts := by
  exact laid_congr parts (fun t _ _ => alters.outside t (by omega)) laid

theorem laidChild (alters : Alters world later low high) {child : Child}
    {base : Nat} (apart : base + child.width ≤ low ∨ high ≤ base)
    (laid : LaidChild world base child) : LaidChild later base child := by
  exact laidChild_congr child (fun t _ _ => alters.outside t (by omega)) laid

theorem laidChildren (alters : Alters world later low high)
    {children : List Child} {base : Nat}
    (apart : base + Child.widths children ≤ low ∨ high ≤ base)
    (laid : LaidChildren world base children) :
    LaidChildren later base children := by
  exact laidChildren_congr children (fun t _ _ => alters.outside t (by omega))
    laid

end Alters

theorem extendedPairs_nil (world : World σ) (members : List Member) :
    extendedPairs world members [] = [] := by
  cases members with
  | nil => rfl
  | cons member rest => cases member <;> rfl

theorem after_mergeWithin (fuel : Nat) (t : TemplateId) (extension : Blueprint)
    (world : World σ) :
    let merged := (update t fun template =>
      { template with blueprint := template.blueprint.merge extension }).after
        world
    (mergeWithin (fuel + 1) t extension).after world =
      ((extendedPairs merged (world.template t).blueprint.children
        extension.children).forM fun (nested, added) =>
          mergeWithin fuel nested added).after merged := by
  intro merged
  have children : (merged.template t).blueprint.children =
      (world.template t).blueprint.children := by
    rw [template_update]
    rfl
  rw [← children]
  rfl

/-- What merging comes to at one level, given what it comes to below. -/
theorem laid_mergeOwn {parts extension : Parts Child} {fuel base other : Nat}
    {world : World σ} (above : base + parts.width < other)
    (laid : LaidChild world base (.definition parts))
    (laidToo : Laid world other extension)
    (nested : ∀ merged : World σ, Laid merged base parts →
      Laid merged other extension →
      let later := ((extendedPairs merged (Child.membersAt base parts.children)
        (Child.membersAt other extension.children)).forM fun (nested, added) =>
          mergeWithin fuel nested added).after merged
      Alters merged later base (base + parts.width) ∧
        LaidChildren later base
          (Child.absorbEach parts.children extension.children)) :
    let later := (mergeWithin (fuel + 1) ⟨base + parts.width⟩
      (extension.blueprintAt other)).after world
    Alters world later base (base + parts.width + 1) ∧
      LaidChild later base (.definition (parts.absorb extension)) := by
  intro later
  rw [LaidChild] at laid
  have steps := after_mergeWithin fuel ⟨base + parts.width⟩
    (extension.blueprintAt other) world
  change later = _ at steps
  rw [laid.2] at steps
  have own := template_update ⟨base + parts.width⟩ (fun template =>
    { template with
      blueprint := template.blueprint.merge (extension.blueprintAt other) }) world
  rw [laid.2] at own
  have alters : Alters world ((update ⟨base + parts.width⟩ fun template =>
      { template with
        blueprint := template.blueprint.merge
          (extension.blueprintAt other) }).after world)
      (base + parts.width) (base + parts.width + 1) := by
    refine ⟨rfl, fun t apart => template_update_of_ne _ _ ?_⟩
    rintro rfl
    exact apart.elim (Nat.lt_irrefl _) (Nat.lt_irrefl _)
  generalize (update ⟨base + parts.width⟩ fun template =>
    { template with
      blueprint := template.blueprint.merge
        (extension.blueprintAt other) }).after world = merged at steps own alters
  obtain ⟨below, children⟩ : Alters merged later base (base + parts.width) ∧
      LaidChildren later base
        (Child.absorbEach parts.children extension.children) := by
    rw [steps]
    exact nested merged (alters.laid (.inl (Nat.le_refl _)) laid.1)
      (alters.laid (.inr above) laidToo)
  rw [LaidChild, laid_iff, width_absorb, children_absorb]
  refine ⟨(alters.mono (by omega) (Nat.le_refl _)).trans
    (below.mono (Nat.le_refl _) (by omega)), children, ?_⟩
  rw [below.outside _ (.inr (Nat.le_refl _)), own, blueprintAt_absorb base other]

private theorem alters_mergeWithin_blank {extension : Parts Child}
    (blank : extension.IsBlank) (fuel : Nat) (t : TemplateId) (other : Nat)
    (world : World σ) (low high : Nat) :
    Alters world ((mergeWithin fuel t (extension.blueprintAt other)).after world)
      low high := by
  cases fuel with
  | zero => exact .refl world low high
  | succ fuel =>
      have none : (extension.blueprintAt other).children = [] := by
        unfold Parts.blueprintAt
        rw [blank.children]
        rfl
      rw [after_mergeWithin, none, extendedPairs_nil]
      refine ⟨rfl, fun inner _ => ?_⟩
      by_cases same : inner = t
      · rw [same]
        refine (template_update t _ world).trans ?_
        unfold Parts.merge Parts.blueprintAt
        rw [blank.text, blank.attributes, blank.listeners]
        rfl
      · exact template_update_of_ne _ _ same

mutual

/-- Merging an extension makes of the templates laid out for a definition those
of both together. -/
theorem laid_mergeWithin {spare : TemplateId → Prop} (parts : Parts Child)
    {extension : Parts Child} (suits : parts.Suits spare extension)
    {fuel base other : Nat} {world : World σ}
    (enough : base + parts.width < fuel) (above : base + parts.width < other)
    (laid : LaidChild world base (.definition parts))
    (laidToo : Laid world other extension) :
    let later := (mergeWithin fuel ⟨base + parts.width⟩
      (extension.blueprintAt other)).after world
    Alters world later base (base + parts.width + 1) ∧
      LaidChild later base (.definition (parts.absorb extension)) := by
  cases fuel with
  | zero => exact absurd enough (Nat.not_lt_zero _)
  | succ fuel =>
      refine laid_mergeOwn above laid laidToo fun merged begun begunToo => ?_
      obtain ⟨tag, namespaceName, text, attributes, listeners, children⟩ := parts
      rw [Laid] at begun
      rw [laid_iff] at begunToo
      rw [Parts.Suits] at suits
      rw [Parts.width] at enough above ⊢
      rcases suits with none | suits
      · rw [none, Child.membersAt, extendedPairs_nil]
        refine ⟨.refl merged _ _, ?_⟩
        cases children <;> (rw [Child.absorbEach]; exact begun)
      · exact laid_mergeChildren children suits (Nat.le_of_lt_succ enough)
          (Nat.le_of_lt above) begun begunToo begunToo

theorem laid_mergeChild {spare : TemplateId → Prop} (child : Child)
    {added : Child} (suits : child.Suits spare added) {fuel base other : Nat}
    {start world : World σ} (enough : base + child.width ≤ fuel)
    (above : base + child.width ≤ other) (laid : LaidChild world base child)
    (begun : LaidChild start other added)
    (laidToo : LaidChild world other added) :
    ∃ t extension, child.memberAt base = .template t ∧
      added.memberAt other = .template extension ∧
      let later := (mergeWithin fuel t
        (start.template extension).blueprint).after world
      Alters world later base (base + child.width) ∧
        LaidChild later base (child.absorb added) := by
  rcases suits.cases with ⟨parts, extension, rfl, rfl, suits⟩ |
    ⟨t, extension, rfl, rfl, _, blank⟩
  · rw [Child.width] at enough above
    rw [LaidChild] at begun laidToo
    refine ⟨⟨base + parts.width⟩, ⟨other + extension.width⟩, ?_, ?_, ?_⟩
    · rw [Child.memberAt]
    · rw [Child.memberAt]
    · rw [begun.2, Child.width, Child.absorb]
      exact laid_mergeWithin parts suits
        (show base + parts.width < fuel by omega)
        (show base + parts.width < other by omega) laid laidToo.1
  · rw [LaidChild] at begun
    refine ⟨t, ⟨other + extension.width⟩, ?_, ?_, ?_, ?_⟩
    · rw [Child.memberAt]
    · rw [Child.memberAt]
    · rw [begun.2]
      exact alters_mergeWithin_blank blank fuel t other world _ _
    · rw [Child.absorb, LaidChild]
      trivial

theorem laid_mergeChildren {spare : TemplateId → Prop} (children : List Child)
    {others : List Child} (suits : Child.SuitEach spare children others)
    {fuel base other : Nat} {start world : World σ}
    (enough : base + Child.widths children ≤ fuel)
    (above : base + Child.widths children ≤ other)
    (laid : LaidChildren world base children)
    (begun : LaidChildren start other others)
    (laidToo : LaidChildren world other others) :
    let later := ((extendedPairs start (Child.membersAt base children)
      (Child.membersAt other others)).forM fun (nested, added) =>
        mergeWithin fuel nested added).after world
    Alters world later base (base + Child.widths children) ∧
      LaidChildren later base (Child.absorbEach children others) := by
  intro later
  cases children with
  | nil =>
      rw [Child.absorbEach, LaidChildren]
      exact ⟨.refl world _ _, trivial⟩
  | cons child rest =>
      cases others with
      | nil => simp [Child.SuitEach] at suits
      | cons added others =>
          rw [Child.SuitEach] at suits
          rw [LaidChildren] at laid begun laidToo
          rw [Child.widths] at enough above
          obtain ⟨t, extension, own, theirs, first, head⟩ :=
            laid_mergeChild child suits.1
              (show base + child.width ≤ fuel by omega)
              (show base + child.width ≤ other by omega) laid.1 begun.1
              laidToo.1
          obtain ⟨second, tail⟩ := laid_mergeChildren rest suits.2
            (show base + child.width + Child.widths rest ≤ fuel by omega)
            (show base + child.width + Child.widths rest ≤
              other + added.width by omega)
            (first.laidChildren (.inr (Nat.le_refl _)) laid.2) begun.2
            (first.laidChildren (.inr (by omega)) laidToo.2)
          have pairs : extendedPairs start
              (Child.membersAt base (child :: rest))
              (Child.membersAt other (added :: others)) =
              (t, (start.template extension).blueprint) ::
                extendedPairs start
                  (Child.membersAt (base + child.width) rest)
                  (Child.membersAt (other + added.width) others) := by
            rw [Child.membersAt, Child.membersAt, own, theirs, extendedPairs]
          have steps : later = ((extendedPairs start
              (Child.membersAt (base + child.width) rest)
              (Child.membersAt (other + added.width) others)).forM
                fun (nested, added) => mergeWithin fuel nested added).after
              ((mergeWithin fuel t
                (start.template extension).blueprint).after world) := by
            unfold later
            rw [pairs]
            rfl
          rw [← steps] at second tail
          rw [Child.absorbEach, LaidChildren, Child.widths, width_absorbChild]
          refine ⟨(first.mono (Nat.le_refl _) (by omega)).trans
            (second.mono (by omega) (by omega)), ?_, tail⟩
          refine second.laidChild (.inl ?_) head
          exact Nat.le_of_eq (congrArg _ (width_absorbChild _ _))

end

private theorem length_membersAt (base : Nat) (children : List Child) :
    (Child.membersAt base children).length = children.length := by
  induction children generalizing base with
  | nil => rfl
  | cons child rest ih =>
      rw [Child.membersAt, List.length_cons, List.length_cons, ih]

private theorem length_of_suitEach {spare : TemplateId → Prop}
    {children others : List Child}
    (suits : Child.SuitEach spare children others) :
    children.length = others.length := by
  induction children generalizing others with
  | nil =>
      rw [Child.SuitEach] at suits
      rw [suits]
  | cons child rest ih =>
      cases others with
      | nil => simp [Child.SuitEach] at suits
      | cons other others =>
          rw [Child.SuitEach] at suits
          rw [List.length_cons, List.length_cons, ih suits.2]

/-- A template that has not been rendered may be extended by what adds
nothing. -/
theorem checkExtendWithin_blank {extension : Parts Child}
    (blank : extension.IsBlank) {world : World σ} {t : TemplateId}
    (free : (world.template t).rendered = false) (fuel other : Nat) :
    checkExtendWithin world (fuel + 1) t (extension.blueprintAt other) =
      .ok () := by
  rw [checkExtendWithin, checkExtendLevel, free]
  unfold Parts.blueprintAt
  rw [blank.children]
  rfl

section Check

variable {spare : TemplateId → Prop} {world : World σ} {limit : Nat}

mutual

theorem checkExtendWithin_laid
    (unused : ∀ t, spare t →
      t.index < limit ∧ (world.template t).rendered = false)
    (parts : Parts Child) {extension : Parts Child}
    (suits : parts.Suits spare extension) {fuel base other : Nat}
    (later : limit ≤ base) (enough : base + parts.width < fuel)
    (laid : LaidChild world base (.definition parts))
    (laidToo : Laid world other extension) :
    checkExtendWithin world fuel ⟨base + parts.width⟩
      (extension.blueprintAt other) = .ok () := by
  cases fuel with
  | zero => exact absurd enough (Nat.not_lt_zero _)
  | succ fuel =>
      obtain ⟨tag, namespaceName, text, attributes, listeners, children⟩ := parts
      rw [LaidChild, Laid] at laid
      rw [laid_iff] at laidToo
      rw [Parts.Suits] at suits
      rw [Parts.width] at enough laid ⊢
      rw [checkExtendWithin, checkExtendLevel]
      simp only [laid.2, Parts.blueprintAt]
      rcases suits with none | suits
      · rw [none]
        rfl
      · have each := checkExtendChildren_laid unused children suits later
          (Nat.le_of_lt_succ enough) laid.1 laidToo
        simp only [length_membersAt, length_of_suitEach suits, each]
        rw [if_neg Bool.false_ne_true, if_neg (not_not_intro rfl)]
        exact ite_self _

theorem checkExtendChild_laid
    (unused : ∀ t, spare t →
      t.index < limit ∧ (world.template t).rendered = false)
    (child : Child) {added : Child}
    (suits : child.Suits spare added) {fuel base other : Nat}
    (later : limit ≤ base) (enough : base + child.width ≤ fuel)
    (laid : LaidChild world base child)
    (laidToo : LaidChild world other added) :
    ∃ t extension, child.memberAt base = .template t ∧
      added.memberAt other = .template extension ∧
      checkExtendWithin world fuel t (world.template extension).blueprint =
        .ok () := by
  rcases suits.cases with ⟨parts, extension, rfl, rfl, suits⟩ |
    ⟨t, extension, rfl, rfl, free, blank⟩
  · rw [Child.width] at enough
    rw [LaidChild] at laidToo
    refine ⟨⟨base + parts.width⟩, ⟨other + extension.width⟩, ?_, ?_, ?_⟩
    · rw [Child.memberAt]
    · rw [Child.memberAt]
    · rw [laidToo.2]
      exact checkExtendWithin_laid unused parts suits later
        (show base + parts.width < fuel by omega) laid laidToo.1
  · rw [LaidChild] at laidToo
    obtain ⟨below, free⟩ := unused t free
    refine ⟨t, ⟨other + extension.width⟩, ?_, ?_, ?_⟩
    · rw [Child.memberAt]
    · rw [Child.memberAt]
    · rw [laidToo.2]
      obtain ⟨fuel, rfl⟩ : ∃ less, fuel = less + 1 :=
        Nat.exists_eq_succ_of_ne_zero (by omega)
      exact checkExtendWithin_blank blank free fuel other

theorem checkExtendChildren_laid
    (unused : ∀ t, spare t →
      t.index < limit ∧ (world.template t).rendered = false)
    (children : List Child) {others : List Child}
    (suits : Child.SuitEach spare children others) {fuel base other : Nat}
    (later : limit ≤ base) (enough : base + Child.widths children ≤ fuel)
    (laid : LaidChildren world base children)
    (laidToo : LaidChildren world other others) (mixed : TemplateError) :
    checkExtendChildren mixed (fun nested added =>
        checkExtendWithin world fuel nested (world.template added).blueprint)
      (Child.membersAt base children) (Child.membersAt other others) =
        .ok () := by
  cases children with
  | nil => rfl
  | cons child rest =>
      cases others with
      | nil => simp [Child.SuitEach] at suits
      | cons added others =>
          rw [Child.SuitEach] at suits
          rw [LaidChildren] at laid laidToo
          rw [Child.widths] at enough
          obtain ⟨t, extension, own, theirs, head⟩ :=
            checkExtendChild_laid unused child suits.1 later
              (show base + child.width ≤ fuel by omega) laid.1 laidToo.1
          have tail := checkExtendChildren_laid unused rest suits.2
            (Nat.le_add_right_of_le later)
            (show base + child.width + Child.widths rest ≤ fuel by omega)
            laid.2 laidToo.2 mixed
          rw [Child.membersAt, Child.membersAt, own, theirs,
            checkExtendChildren, head]
          exact tail

end

end Check

/-- A template is extended by a definition that suits its own: it becomes the
template of both together. -/
theorem laid_extend {spare : TemplateId → Prop} {parts extension : Parts Child}
    (suits : parts.Suits spare extension) {base : Nat} {world : World σ}
    (unused : ∀ t, spare t →
      t.index < base ∧ (world.template t).rendered = false)
    (newest : base + parts.width < world.templates.size)
    (laid : LaidChild world base (.definition parts)) :
    let t : TemplateId := ⟨base + parts.width⟩
    let later := (extend t extension).after world
    (extend t extension).result world = .ok () ∧
      later = { world with templates := later.templates } ∧
      (∀ other : TemplateId, other.index < base →
        later.template other = world.template other) ∧
      LaidChild later base (.definition (parts.absorb extension)) := by
  intro t later
  obtain ⟨blueprint, adds, laidToo⟩ := laid_compile extension world
  have same : LaidChild ((compile extension).after world) base
      (.definition parts) := by
    refine laidChild_congr _ (fun t _ below => adds.old t ?_) laid
    rw [Child.width] at below
    omega
  have still : ∀ other, spare other → other.index < base ∧
      (((compile extension).after world).template other).rendered = false := by
    intro other free
    obtain ⟨below, free⟩ := unused other free
    refine ⟨below, ?_⟩
    rw [adds.old other (by omega)]
    exact free
  have checked := checkExtendWithin_laid still parts suits (Nat.le_refl base)
    (Nat.lt_succ_self (base + parts.width)) same laidToo
  obtain ⟨alters, merged⟩ := laid_mergeWithin parts suits
    (Nat.lt_succ_self (base + parts.width)) newest same laidToo
  have result : (extend t extension).result world = .ok () := by
    rw [extend, Act.result_bind, Act.result_bind, Act.result_get,
      Act.after_get, blueprint, checked]
    rfl
  have after : later = (mergeWithin (t.index + 1) t
      (extension.blueprintAt world.templates.size)).after
        ((compile extension).after world) := by
    change (extend t extension).after world = _
    rw [extend, Act.after_bind, Act.after_bind, Act.result_get,
      Act.after_get, blueprint, checked]
    rfl
  rw [← after] at alters merged
  refine ⟨result, ?_, fun other below => ?_, merged⟩
  · rw [alters.only, adds.only]
  · rw [alters.outside other (.inl below), adds.old other (by omega)]

end Template

end LiveTemplate
