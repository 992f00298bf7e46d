import LiveTemplate.Proofs.Accrual
import LiveTemplate.Proofs.Layout
import LiveTemplate.Proofs.Mirroring
import LiveTemplate.Proofs.Retrying
import LiveTemplate.Proofs.Runs

/-!
# Extending is writing

A definition is amended by calls of the builder, to itself and to the
definitions nested in it.  The calls may be made before a template is made of
it, or they may be collected in a definition that the template is extended by:
it is rendered to the same tree, with the same subscriptions, or fails for the
same reason.
-/

namespace LiveTemplate

variable {σ : Type}

/-- Calls of the builder for a definition and, in the same way, for all its
children or for none of them.  The tag and the namespace are those of the
definition in which the calls are collected. -/
inductive Amendment where
  | mk (tag namespaceName : Option String) (additions : List Addition)
    (children : List Amendment)

namespace Amendment

def additions : Amendment → List Addition
  | mk _ _ additions _ => additions

def children : Amendment → List Amendment
  | mk _ _ _ children => children

mutual

/-- The definition that the calls are collected in. -/
def extension : Amendment → Definition
  | mk tag namespaceName additions children =>
      additions.foldl Addition.apply
        ⟨tag, namespaceName, none, [], [], extensions children⟩

def extensions : List Amendment → List Child
  | [] => []
  | amendment :: rest => .definition amendment.extension :: extensions rest

end

mutual

/-- Style maps that are passed whole name each property once. -/
def IsTidy : Amendment → Prop
  | mk _ _ additions children =>
      (∀ addition ∈ additions, addition.IsTidy) ∧ AreTidy children

def AreTidy : List Amendment → Prop
  | [] => True
  | amendment :: rest => amendment.IsTidy ∧ AreTidy rest

end

end Amendment

mutual

/-- A definition for which the builder was called as an amendment says. -/
def Parts.amend : Parts Child → Amendment → Parts Child
  | ⟨tag, namespaceName, text, attributes, listeners, children⟩, amendment =>
      amendment.additions.foldl Addition.apply
        ⟨tag, namespaceName, text, attributes, listeners,
          Child.amendEach children amendment.children⟩

def Child.amend : Child → Amendment → Child
  | .definition parts, amendment => .definition (parts.amend amendment)
  | .template t, _ => .template t
  | .view v, _ => .view v
  | .collection c, _ => .collection c
  | .node n, _ => .node n

def Child.amendEach : List Child → List Amendment → List Child
  | [], _ => []
  | child :: rest, [] => child :: rest
  | child :: rest, amendment :: others =>
      child.amend amendment :: Child.amendEach rest others

end

/-- An amendment that changes nothing. -/
def Amendment.IsBlank (amendment : Amendment) : Prop :=
  amendment.additions = [] ∧ amendment.children = []

mutual

/-- Either no child is amended, or all of them are definitions and are amended
one by one.  Children that are templates already, and spare, are passed over. -/
def Parts.Fits (spare : TemplateId → Prop) : Parts Child → Amendment → Prop
  | ⟨_, _, _, _, _, children⟩, amendment =>
      amendment.children = [] ∨ Child.FitEach spare children amendment.children

def Child.Fits (spare : TemplateId → Prop) : Child → Amendment → Prop
  | .definition parts, amendment => parts.Fits spare amendment
  | .template t, amendment => spare t ∧ amendment.IsBlank
  | .view _, _ => False
  | .collection _, _ => False
  | .node _, _ => False

def Child.FitEach (spare : TemplateId → Prop) :
    List Child → List Amendment → Prop
  | [], amendments => amendments = []
  | _ :: _, [] => False
  | child :: rest, amendment :: others =>
      child.Fits spare amendment ∧ Child.FitEach spare rest others

end

mutual

/-- Names occur once throughout a definition, and the templates in it are among
the first ones. -/
def Parts.IsWellMade (limit : Nat) : Parts Child → Prop
  | ⟨tag, namespaceName, text, attributes, listeners, children⟩ =>
      (Parts.mk tag namespaceName text attributes listeners children).IsTidy ∧
        Child.AreWellMade limit children

def Child.IsWellMade (limit : Nat) : Child → Prop
  | .definition parts => parts.IsWellMade limit
  | .template t => t.index < limit
  | .view _ => True
  | .collection _ => True
  | .node _ => True

def Child.AreWellMade (limit : Nat) : List Child → Prop
  | [] => True
  | child :: rest => child.IsWellMade limit ∧ Child.AreWellMade limit rest

end

theorem additions_apart (parts : Parts Child) (additions : List Addition) :
    (additions.foldl Addition.apply parts).tag = parts.tag ∧
      (additions.foldl Addition.apply parts).namespaceName =
        parts.namespaceName ∧
      (additions.foldl Addition.apply parts).text = parts.text ∧
      (additions.foldl Addition.apply parts).children = parts.children := by
  induction additions generalizing parts with
  | nil => exact ⟨rfl, rfl, rfl, rfl⟩
  | cons addition rest ih =>
      obtain ⟨tag, namespaceName, text, children⟩ := ih (addition.apply parts)
      rw [List.foldl_cons, tag, namespaceName, text, children]
      cases addition <;> exact ⟨rfl, rfl, rfl, rfl⟩

theorem children_amend (parts : Parts Child) (amendment : Amendment) :
    (parts.amend amendment).children =
      Child.amendEach parts.children amendment.children := by
  cases parts
  rw [Parts.amend]
  exact (additions_apart _ _).2.2.2

private theorem text_extension (amendment : Amendment) :
    amendment.extension.text = none := by
  cases amendment
  rw [Amendment.extension]
  exact (additions_apart _ _).2.2.1

theorem children_extension (amendment : Amendment) :
    amendment.extension.children = Amendment.extensions amendment.children := by
  cases amendment
  rw [Amendment.extension]
  exact (additions_apart _ _).2.2.2

theorem amendEach_nil (children : List Child) :
    Child.amendEach children [] = children := by
  cases children <;> rw [Child.amendEach]

private theorem absorbEach_nil (children : List Child) :
    Child.absorbEach children [] = children := by
  cases children <;> rw [Child.absorbEach]

mutual

theorem width_amend (parts : Parts Child) (amendment : Amendment) :
    (parts.amend amendment).width = parts.width := by
  rw [width_eq, children_amend]
  obtain ⟨tag, namespaceName, text, attributes, listeners, children⟩ := parts
  rw [Parts.width]
  exact widths_amendEach children amendment.children

theorem width_amendChild (child : Child) (amendment : Amendment) :
    (child.amend amendment).width = child.width := by
  cases child with
  | definition parts =>
      rw [Child.amend, Child.width, Child.width, width_amend]
  | _ => rw [Child.amend]

theorem widths_amendEach (children : List Child)
    (amendments : List Amendment) :
    Child.widths (Child.amendEach children amendments) =
      Child.widths children := by
  cases children with
  | nil => rw [Child.amendEach]
  | cons child rest =>
      cases amendments with
      | nil => rw [Child.amendEach]
      | cons amendment others =>
          rw [Child.amendEach, Child.widths, Child.widths, width_amendChild,
            widths_amendEach]

end

/-- Amending leaves the places of nested definitions alone. -/
theorem membersAt_amendEach (base : Nat) (children : List Child)
    (amendments : List Amendment) :
    Child.membersAt base (Child.amendEach children amendments) =
      Child.membersAt base children := by
  induction children generalizing base amendments with
  | nil => rw [Child.amendEach]
  | cons child rest ih =>
      cases amendments with
      | nil => rw [Child.amendEach]
      | cons amendment others =>
          rw [Child.amendEach, Child.membersAt, Child.membersAt,
            width_amendChild, ih]
          congr 1
          cases child with
          | definition parts =>
              rw [Child.amend, Child.memberAt, Child.memberAt, width_amend]
          | _ => rw [Child.amend]

section Fitting

variable {spare : TemplateId → Prop}

private theorem isBlank_extension {amendment : Amendment}
    (blank : amendment.IsBlank) :
    amendment.extension.IsBlank := by
  obtain ⟨_, _, additions, children⟩ := amendment
  obtain ⟨rfl, rfl⟩ := blank
  rw [Amendment.extension, Amendment.extensions]
  exact ⟨rfl, rfl, rfl, rfl⟩

mutual

/-- What is collected for a definition can be merged into it. -/
theorem suits_extension (parts : Parts Child) {amendment : Amendment}
    (fits : parts.Fits spare amendment) :
    parts.Suits spare amendment.extension := by
  obtain ⟨tag, namespaceName, text, attributes, listeners, children⟩ := parts
  rw [Parts.Fits] at fits
  rw [Parts.Suits, children_extension]
  rcases fits with none | fits
  · rw [none]
    exact .inl rfl
  · exact .inr (suitEach_extensions children fits)

theorem suits_extensionChild (child : Child) {amendment : Amendment}
    (fits : child.Fits spare amendment) :
    child.Suits spare (.definition amendment.extension) := by
  cases child with
  | definition parts =>
      rw [Child.Fits] at fits
      rw [Child.Suits]
      exact suits_extension parts fits
  | template t =>
      rw [Child.Fits] at fits
      rw [Child.Suits]
      exact ⟨fits.1, isBlank_extension fits.2⟩
  | _ => exact absurd fits (by simp [Child.Fits])

theorem suitEach_extensions (children : List Child)
    {amendments : List Amendment}
    (fits : Child.FitEach spare children amendments) :
    Child.SuitEach spare children (Amendment.extensions amendments) := by
  cases children with
  | nil =>
      rw [Child.FitEach] at fits
      rw [fits, Amendment.extensions, Child.SuitEach]
  | cons child rest =>
      cases amendments with
      | nil => simp [Child.FitEach] at fits
      | cons amendment others =>
          rw [Child.FitEach] at fits
          rw [Amendment.extensions, Child.SuitEach]
          exact ⟨suits_extensionChild child fits.1,
            suitEach_extensions rest fits.2⟩

end

theorem fits_iff {parts : Parts Child} {amendment : Amendment} :
    parts.Fits spare amendment ↔ amendment.children = [] ∨
      Child.FitEach spare parts.children amendment.children := by
  cases parts
  rw [Parts.Fits]

mutual

theorem fits_amend (parts : Parts Child) (earlier : Amendment)
    {amendment : Amendment} (fits : parts.Fits spare amendment) :
    (parts.amend earlier).Fits spare amendment := by
  rw [fits_iff, children_amend]
  obtain ⟨tag, namespaceName, text, attributes, listeners, children⟩ := parts
  rw [Parts.Fits] at fits
  exact fits.imp_right (fitEach_amendEach children earlier.children)

theorem fits_amendChild (child : Child) (earlier : Amendment)
    {amendment : Amendment} (fits : child.Fits spare amendment) :
    (child.amend earlier).Fits spare amendment := by
  cases child with
  | definition parts =>
      rw [Child.Fits] at fits
      rw [Child.amend, Child.Fits]
      exact fits_amend parts earlier fits
  | _ => rwa [Child.amend]

theorem fitEach_amendEach (children : List Child) (earlier : List Amendment)
    {amendments : List Amendment}
    (fits : Child.FitEach spare children amendments) :
    Child.FitEach spare (Child.amendEach children earlier) amendments := by
  cases children with
  | nil => rwa [Child.amendEach]
  | cons child rest =>
      cases earlier with
      | nil => rwa [Child.amendEach]
      | cons before earlier =>
          cases amendments with
          | nil => simp [Child.FitEach] at fits
          | cons amendment others =>
              rw [Child.FitEach] at fits
              rw [Child.amendEach, Child.FitEach]
              exact ⟨fits_amendChild child before fits.1,
                fitEach_amendEach rest earlier fits.2⟩

end

end Fitting

theorem isWellMade_iff {limit : Nat} {parts : Parts Child} :
    parts.IsWellMade limit ↔
      parts.IsTidy ∧ Child.AreWellMade limit parts.children := by
  cases parts
  rw [Parts.IsWellMade]

/-- Only what is under names matters for being tidy. -/
theorem Parts.IsTidy.withChildren {parts : Parts Child} (tidy : parts.IsTidy)
    (children : List Child) :
    ({ parts with children := children } : Parts Child).IsTidy := by
  exact ⟨tidy.attributes, tidy.listeners, tidy.schemas⟩

mutual

theorem isWellMade_amend {limit : Nat} (parts : Parts Child)
    (made : parts.IsWellMade limit) {amendment : Amendment}
    (tidy : amendment.IsTidy) : (parts.amend amendment).IsWellMade limit := by
  obtain ⟨_, _, additions, amendments⟩ := amendment
  obtain ⟨tag, namespaceName, text, attributes, listeners, children⟩ := parts
  rw [Amendment.IsTidy] at tidy
  rw [Parts.IsWellMade] at made
  rw [isWellMade_iff, children_amend]
  refine ⟨?_, areWellMade_amendEach children made.2 tidy.2⟩
  rw [Parts.amend]
  exact (made.1.withChildren _).foldl tidy.1

theorem isWellMade_amendChild {limit : Nat} (child : Child)
    (made : child.IsWellMade limit) {amendment : Amendment}
    (tidy : amendment.IsTidy) : (child.amend amendment).IsWellMade limit := by
  cases child with
  | definition parts =>
      rw [Child.IsWellMade] at made
      rw [Child.amend, Child.IsWellMade]
      exact isWellMade_amend parts made tidy
  | _ => rwa [Child.amend]

theorem areWellMade_amendEach {limit : Nat} (children : List Child)
    (made : Child.AreWellMade limit children) {amendments : List Amendment}
    (tidy : Amendment.AreTidy amendments) :
    Child.AreWellMade limit (Child.amendEach children amendments) := by
  cases children with
  | nil => rwa [Child.amendEach]
  | cons child rest =>
      cases amendments with
      | nil => rwa [Child.amendEach]
      | cons amendment others =>
          rw [Amendment.AreTidy] at tidy
          rw [Child.AreWellMade] at made
          rw [Child.amendEach, Child.AreWellMade]
          exact ⟨isWellMade_amendChild child made.1 tidy.1,
            areWellMade_amendEach rest made.2 tidy.2⟩

end

mutual

theorem isWellMade_extension (limit : Nat) (amendment : Amendment)
    (tidy : amendment.IsTidy) : amendment.extension.IsWellMade limit := by
  rw [isWellMade_iff, children_extension]
  obtain ⟨tag, namespaceName, additions, amendments⟩ := amendment
  rw [Amendment.IsTidy] at tidy
  refine ⟨?_, areWellMade_extensions limit amendments tidy.2⟩
  rw [Amendment.extension]
  exact (Parts.IsTidy.of_empty rfl rfl).foldl tidy.1

theorem areWellMade_extensions (limit : Nat) (amendments : List Amendment)
    (tidy : Amendment.AreTidy amendments) :
    Child.AreWellMade limit (Amendment.extensions amendments) := by
  cases amendments with
  | nil =>
      rw [Amendment.extensions, Child.AreWellMade]
      trivial
  | cons amendment others =>
      rw [Amendment.AreTidy] at tidy
      rw [Amendment.extensions, Child.AreWellMade, Child.IsWellMade]
      exact ⟨isWellMade_extension limit amendment tidy.1,
        areWellMade_extensions limit others tidy.2⟩

end

mutual

theorem isSound_of_isWellMade {limit : Nat} (parts : Parts Child)
    (made : parts.IsWellMade limit) : Template.IsSound limit parts := by
  obtain ⟨tag, namespaceName, text, attributes, listeners, children⟩ := parts
  rw [Parts.IsWellMade] at made
  rw [Template.IsSound]
  exact ⟨made.1.attributes, soundChildren_of_areWellMade children made.2⟩

theorem soundChild_of_isWellMade {limit : Nat} (child : Child)
    (made : child.IsWellMade limit) : Template.SoundChild limit child := by
  cases child with
  | definition parts =>
      rw [Child.IsWellMade] at made
      rw [Template.SoundChild]
      exact isSound_of_isWellMade parts made
  | template t =>
      rw [Child.IsWellMade] at made
      rwa [Template.SoundChild]
  | _ => simp [Template.SoundChild]

theorem soundChildren_of_areWellMade {limit : Nat} (children : List Child)
    (made : Child.AreWellMade limit children) :
    Template.SoundChildren limit children := by
  cases children with
  | nil => simp [Template.SoundChildren]
  | cons child rest =>
      rw [Child.AreWellMade] at made
      rw [Template.SoundChildren]
      exact ⟨soundChild_of_isWellMade child made.1,
        soundChildren_of_areWellMade rest made.2⟩

end

/-- What is collected for a definition accrues to it. -/
theorem accrues_amend {parts : Parts Child} (tidy : parts.IsTidy)
    {amendment : Amendment} (tidyToo : amendment.IsTidy) :
    Parts.Accrues
      { parts with
        children := Child.amendEach parts.children amendment.children }
      amendment.extension (parts.amend amendment) := by
  obtain ⟨tag, namespaceName, additions, amendments⟩ := amendment
  cases parts
  rw [Amendment.IsTidy] at tidyToo
  rw [Amendment.extension, Parts.amend]
  exact (Parts.Accrues.start (tidy.withChildren _) rfl rfl).foldl
    (tidy.withChildren _) tidyToo.1

/-- Of a definition and what is added to it, and of the definition with the
additions made to it, come blueprints that are alike. -/
theorem alike_blueprintAt (base : Nat) {parts : Parts Child}
    (tidy : parts.IsTidy) {amendment : Amendment} (tidyToo : amendment.IsTidy) :
    ((parts.absorb amendment.extension).blueprintAt base).Alike
      ((parts.amend amendment).blueprintAt base) := by
  have accrues := accrues_amend tidy tidyToo
  have members : Child.membersAt base (parts.amend amendment).children =
      Child.membersAt base parts.children := by
    rw [children_amend, membersAt_amendEach]
  have text : Parts.text (Parts.merge (parts.blueprintAt base)
      (amendment.extension.blueprintAt base)) = parts.text := by
    unfold Parts.merge Parts.blueprintAt
    rw [text_extension]
  rw [blueprintAt_absorb base base]
  constructor
  · exact accrues.tag.symm
  · exact accrues.namespaceName.symm
  · exact text.trans accrues.text.symm
  · exact accrues.attributes (tidy.withChildren _)
  · exact accrues.listeners
  · exact members.symm

/-- Where the same definitions are laid out, the templates are the same. -/
theorem laidChildren_unique (children : List Child) {base : Nat}
    {one : World σ} {other : World σ} (laid : LaidChildren one base children)
    (laidToo : LaidChildren other base children) (t : TemplateId)
    (above : base ≤ t.index)
    (below : t.index < base + Child.widths children) :
    one.template t = other.template t := by
  cases children with
  | nil =>
      rw [Child.widths] at below
      omega
  | cons child rest =>
      rw [LaidChildren] at laid laidToo
      rw [Child.widths] at below
      by_cases first : t.index < base + child.width
      · cases child with
        | definition parts =>
            rw [LaidChild] at laid laidToo
            rw [Child.width] at first
            by_cases last : t.index = base + parts.width
            · have same : t = ⟨base + parts.width⟩ := congrArg TemplateId.mk last
              rw [same, laid.1.2, laidToo.1.2]
            · rw [width_eq] at first last
              exact laidChildren_unique parts.children (laid_iff.mp laid.1.1)
                (laid_iff.mp laidToo.1.1) t above (by omega)
        | _ =>
            rw [Child.width] at first
            omega
      · exact laidChildren_unique rest laid.2 laidToo.2 t (by omega) (by omega)
termination_by sizeOf children
decreasing_by
  all_goals subst_vars
  · cases parts
    decreasing_tactic
  · decreasing_tactic

/-- Templates that come to the same, each as far as the other. -/
structure Template.Alike (one other : Template) : Prop where
  blueprint : one.blueprint.Alike other.blueprint
  rendered : one.rendered = other.rendered
  applied : one.applied = other.applied

theorem Template.Alike.of_eq {one other : Template} (same : one = other) :
    Alike one other := by
  exact same ▸ ⟨.refl _, rfl, rfl⟩

mutual

/-- The templates of a definition that was extended are like those of the
definition with the additions made to it. -/
theorem alike_laid (parts : Parts Child) {limit base : Nat}
    (made : parts.IsWellMade limit) {amendment : Amendment}
    (tidy : amendment.IsTidy) {one other : World σ}
    (laid : Laid one base (parts.absorb amendment.extension))
    (laidToo : Laid other base (parts.amend amendment)) (t : TemplateId)
    (above : base ≤ t.index) (below : t.index < base + parts.width) :
    (one.template t).Alike (other.template t) := by
  rw [laid_iff, children_absorb, children_extension] at laid
  rw [laid_iff, children_amend] at laidToo
  rw [isWellMade_iff] at made
  obtain ⟨tag, namespaceName, text, attributes, listeners, children⟩ := parts
  obtain ⟨_, _, additions, amendments⟩ := amendment
  rw [Amendment.IsTidy] at tidy
  rw [Parts.width] at below
  exact alike_laidChildren children made.2 tidy.2 laid laidToo t above below

theorem alike_laidChild (child : Child) {limit base : Nat}
    (made : child.IsWellMade limit) {amendment : Amendment}
    (tidy : amendment.IsTidy) {one other : World σ}
    (laid : LaidChild one base (child.absorb (.definition amendment.extension)))
    (laidToo : LaidChild other base (child.amend amendment)) (t : TemplateId)
    (above : base ≤ t.index) (below : t.index < base + child.width) :
    (one.template t).Alike (other.template t) := by
  cases child with
  | definition parts =>
      rw [Child.IsWellMade] at made
      rw [Child.absorb, LaidChild, width_absorb] at laid
      rw [Child.amend, LaidChild, width_amend] at laidToo
      rw [Child.width] at below
      by_cases last : t.index = base + parts.width
      · have same : t = ⟨base + parts.width⟩ := congrArg TemplateId.mk last
        rw [same, laid.2, laidToo.2]
        exact ⟨alike_blueprintAt base (isWellMade_iff.mp made).1 tidy, rfl, rfl⟩
      · exact alike_laid parts made tidy laid.1 laidToo.1 t above (by omega)
  | _ =>
      rw [Child.width] at below
      omega

theorem alike_laidChildren (children : List Child) {limit base : Nat}
    (made : Child.AreWellMade limit children) {amendments : List Amendment}
    (tidy : Amendment.AreTidy amendments) {one other : World σ}
    (laid : LaidChildren one base
      (Child.absorbEach children (Amendment.extensions amendments)))
    (laidToo : LaidChildren other base (Child.amendEach children amendments))
    (t : TemplateId) (above : base ≤ t.index)
    (below : t.index < base + Child.widths children) :
    (one.template t).Alike (other.template t) := by
  cases children with
  | nil =>
      rw [Child.widths] at below
      omega
  | cons child rest =>
      cases amendments with
      | nil =>
          rw [Amendment.extensions, absorbEach_nil] at laid
          rw [amendEach_nil] at laidToo
          exact .of_eq (laidChildren_unique _ laid laidToo t above below)
      | cons amendment others =>
          rw [Child.AreWellMade] at made
          rw [Amendment.AreTidy] at tidy
          rw [Amendment.extensions, Child.absorbEach, LaidChildren,
            width_absorbChild] at laid
          rw [Child.amendEach, LaidChildren, width_amendChild] at laidToo
          rw [Child.widths] at below
          by_cases first : t.index < base + child.width
          · exact alike_laidChild child made.1 tidy.1 laid.1 laidToo.1 t above
              first
          · exact alike_laidChildren rest made.2 tidy.2 laid.2 laidToo.2 t
              (by omega) (by omega)

end

/-- Of worlds in which the first templates come to the same. -/
def Kinship.below (σ : Type) (limit : Nat) : Kinship σ σ where
  alike := Template.Alike
  scope t := t.index < limit
  sized := False
  clients := Eq
  blueprint alike := alike.blueprint
  rendered alike := alike.rendered
  applied alike := alike.applied
  updated alike _ _ := ⟨alike.blueprint, rfl, rfl⟩

/-- The code of a client is the same for templates that are written
differently but come to the same. -/
def Host.IsImpartial (host : Host σ) : Prop :=
  ∀ limit, host.Mirrors (.below σ limit) host

/-- Properties are set, a template is rendered, and more properties are set. -/
def Template.renderAmid (host : Host σ) (t : TemplateId)
    (before after : List (ObservableId × String × Value)) :
    Act σ (Except TemplateError NodeId) := do
  before.forM fun (o, name, value) => Observable.set host o name value
  let outcome ← Template.render host t
  after.forM fun (o, name, value) => Observable.set host o name value
  return outcome

/-- A template that is there and has not been rendered. -/
structure World.IsSpare (world : World σ) (t : TemplateId) : Prop where
  old : t.index < world.templates.size
  free : (world.template t).rendered = false

namespace Template

private theorem mirrors_renderAmid {kin : Kinship σ σ} {host : Host σ}
    (mirrors : host.Mirrors kin host) {t : TemplateId} (inside : kin.scope t)
    (before after : List (ObservableId × String × Value)) :
    (renderAmid host t before after).Mirrors kin
      (renderAmid host t before after) := by
  refine .bind (.forM fun _ _ => mirrors.set _ _ _) fun _ => ?_
  refine .bind (mirrors_render mirrors inside) fun _ => ?_
  exact .bind (.forM fun _ _ => mirrors.set _ _ _) fun _ => .pure _

/-- A template is made and extended at once: only templates are added, and they
are those of the definition with the extension merged in. -/
theorem laid_create_extend (world : World σ) {definition : Definition}
    {amendment : Amendment} (fits : definition.Fits world.IsSpare amendment) :
    let t := (create definition).result world
    let shorter := (create definition).after world
    let later := (extend t amendment.extension).after shorter
    (extend t amendment.extension).result shorter = .ok () ∧
      t.index = world.templates.size + definition.width ∧
      later = { world with templates := later.templates } ∧
      (∀ other : TemplateId, other.index < world.templates.size →
        later.template other = world.template other) ∧
      LaidChild later world.templates.size
        (.definition (definition.absorb amendment.extension)) := by
  intro t shorter later
  obtain ⟨number, adds, laid⟩ := laid_create definition world
  change t = _ at number
  have newest : world.templates.size + definition.width <
      shorter.templates.size := by
    rw [adds.size]
    omega
  have unused : ∀ other, world.IsSpare other →
      other.index < world.templates.size ∧
        (shorter.template other).rendered = false := by
    intro other spare
    refine ⟨spare.old, ?_⟩
    rw [adds.old other spare.old]
    exact spare.free
  obtain ⟨succeeds, only, older, merged⟩ :=
    laid_extend (suits_extension definition fits) unused newest laid
  rw [← number] at succeeds only older merged
  refine ⟨succeeds, congrArg TemplateId.index number, ?_, ?_, merged⟩
  · exact only.trans (congrArg (fun between : World σ =>
      { between with templates := later.templates }) adds.only)
  · intro other old
    exact (older other old).trans (adds.old other old)

private theorem sound_create_extend {client : σ} {world : World σ}
    (reached : Run (World.initial client) world) {definition : Definition}
    (made : definition.IsWellMade world.templates.size)
    {amendment : Amendment} (tidy : amendment.IsTidy) (t : TemplateId) :
    ((extend t amendment.extension).after
      ((create definition).after world)).HasSoundTemplates := by
  have begun := reached.trans (run_create (isSound_of_isWellMade _ made))
  have ordered := (begun.progress (World.ordered_initial client)).1
  have extended := begun.trans (run_extend ordered
    (isSound_of_isWellMade _ (isWellMade_extension _ amendment tidy)) (t := t))
  exact (extended.progress (World.ordered_initial client)).1.sound

/-- A template that was extended and the template of the longer definition have
twin worlds around them. -/
theorem twins_extend {client : σ} {world : World σ}
    (reached : Run (World.initial client) world)
    (viewed : ∀ v t, (world.view v).template = some t →
      t.index < world.templates.size)
    {definition : Definition}
    (made : definition.IsWellMade world.templates.size)
    {amendment : Amendment} (tidy : amendment.IsTidy)
    (fits : definition.Fits world.IsSpare amendment) :
    let t := (create definition).result world
    let shorter := (create definition).after world
    let one := (extend t amendment.extension).after shorter
    let other := (create (definition.amend amendment)).after world
    (extend t amendment.extension).result shorter = .ok () ∧
      (create (definition.amend amendment)).result world = t ∧
      (Kinship.below σ (t.index + 1)).Twins one other := by
  intro t shorter one other
  obtain ⟨succeeds, number, only, older, merged⟩ :=
    laid_create_extend world fits
  obtain ⟨numberToo, addsToo, laidToo⟩ :=
    laid_create (definition.amend amendment) world
  have onlyToo : other = { world with templates := other.templates } :=
    addsToo.only
  change t.index = _ at number
  change one = { world with templates := one.templates } at only
  refine ⟨succeeds, ?_, ?_⟩
  · rw [numberToo, width_amend, ← number]
  constructor
  · rw [only, onlyToo]
    rfl
  · intro inner inside
    change inner.index < t.index + 1 at inside
    by_cases old : inner.index < world.templates.size
    · exact .of_eq ((older inner old).trans (addsToo.old inner old).symm)
    · have child :
          Child.IsWellMade world.templates.size (.definition definition) := by
        rw [Child.IsWellMade]
        exact made
      rw [← Child.absorb] at merged
      rw [← Child.amend] at laidToo
      refine alike_laidChild _ child tidy merged laidToo inner
        (Nat.le_of_not_lt old) ?_
      rw [Child.width, ← Nat.add_assoc, ← number]
      exact inside
  · intro outer inside inner nested
    have sound := sound_create_extend reached made tidy t
    exact Nat.lt_trans ((sound outer).older inner nested) inside
  · exact False.elim
  · intro v inner found
    rw [only] at found
    change inner.index < t.index + 1
    rw [number]
    exact Nat.lt_succ_of_lt (Nat.lt_add_right _ (viewed v inner found))
  · rw [only, onlyToo]
    rfl

/-- A definition is written with two series of calls, or written with the first
series and then extended by what the second one makes.  The extension succeeds,
and both templates are rendered with the same result, whatever properties are
set before and after, and leave the same behind but for templates. -/
theorem extending_is_writing {host : Host σ} (impartial : host.IsImpartial)
    {client : σ} {world : World σ}
    (reached : Run (World.initial client) world)
    (viewed : ∀ v t, (world.view v).template = some t →
      t.index < world.templates.size)
    {definition : Definition}
    (made : definition.IsWellMade world.templates.size)
    {first second : Amendment} (tidy : first.IsTidy) (tidyToo : second.IsTidy)
    (fits : definition.Fits world.IsSpare second)
    (before after : List (ObservableId × String × Value)) :
    let t := (create (definition.amend first)).result world
    let shorter := (create (definition.amend first)).after world
    let one := (extend t second.extension).after shorter
    let other := (create ((definition.amend first).amend second)).after world
    (extend t second.extension).result shorter = .ok () ∧
      (create ((definition.amend first).amend second)).result world = t ∧
      (renderAmid host t before after).result one =
        (renderAmid host t before after).result other ∧
      { (renderAmid host t before after).after one with
        templates := .empty } =
      { (renderAmid host t before after).after other with
        templates := .empty } := by
  intro t shorter one other
  obtain ⟨succeeds, number, twins⟩ := twins_extend reached viewed
    (isWellMade_amend definition made tidy) tidyToo
    (fits_amend definition first fits)
  obtain ⟨same, later⟩ := mirrors_renderAmid (impartial (t.index + 1))
    (Nat.lt_succ_self t.index) before after one other twins
  refine ⟨succeeds, number, same, ?_⟩
  exact later.eq_but_templates later.clients

namespace Letter

/-- A tone to be shown, and an emitter. -/
def start : World Unit :=
  { World.initial () with
    properties := ⟨#[[("tone", .text "red")]]⟩
    emitters := ⟨#[⟨[], []⟩]⟩ }

theorem reached : Run (World.initial ()) start := by
  exact .aside rfl rfl rfl (.of_templates rfl)

def tone : Chunk := .bound ⟨⟨0⟩, ⟨0⟩, "tone", .value, none⟩

/-- A card with a line of text on it. -/
def card : Definition :=
  (Parts.ofTag "div").child (.definition (.ofTag "span"))

/-- A color and a place are written at once. -/
def sketch : Amendment :=
  .mk none none
    [.style "color" [.fixed (.text "dark")],
      .attr "style" [.fixed (.text "top: 0")]] []

/-- More of the color and of the place, a class and a listener follow, and the
line gets a title. -/
def finish : Amendment :=
  .mk none none
    [.style "color" [tone], .attr "class" [.fixed (.text "card")],
      .style "top" [.fixed (.text "px")],
      .on "click" ⟨⟨0⟩, ⟨0⟩, .emit "opened"⟩]
    [.mk none none [.attr "title" [tone]] []]

theorem impartial : Halted.client.IsImpartial := by
  intro _
  exact ⟨fun _ _ _ => .pure _, fun _ _ => .pure _⟩

end Letter

/-- The card is rendered in either way, and the tone is followed in the same
way. -/
theorem card_extended_as_written :
    let t := (create (Letter.card.amend Letter.sketch)).result Letter.start
    let shorter := (create (Letter.card.amend Letter.sketch)).after Letter.start
    let one := (extend t Letter.finish.extension).after shorter
    let other := (create ((Letter.card.amend Letter.sketch).amend
      Letter.finish)).after Letter.start
    let changes := [((⟨0⟩, "tone", .text "blue") :
      ObservableId × String × Value)]
    (renderAmid Halted.client t [] changes).result one = .ok ⟨0⟩ ∧
      (renderAmid Halted.client t [] changes).result one =
        (renderAmid Halted.client t [] changes).result other ∧
      { (renderAmid Halted.client t [] changes).after one with
        templates := .empty } =
      { (renderAmid Halted.client t [] changes).after other with
        templates := .empty } := by
  intro t shorter one other changes
  have made : Letter.card.IsWellMade Letter.start.templates.size := by
    simp only [Letter.card, Parts.child, Parts.ofTag, Parts.none,
      List.nil_append, Parts.IsWellMade, Child.AreWellMade, Child.IsWellMade,
      and_true]
    exact ⟨.of_empty rfl rfl, .of_empty rfl rfl⟩
  have sketched : Letter.sketch.IsTidy := by
    simp [Letter.sketch, Amendment.IsTidy, Amendment.AreTidy, Addition.IsTidy,
      Schema.NamesOnce]
  have finished : Letter.finish.IsTidy := by
    simp [Letter.finish, Amendment.IsTidy, Amendment.AreTidy, Addition.IsTidy,
      Schema.NamesOnce, Letter.tone]
  have fits : Letter.card.Fits Letter.start.IsSpare Letter.finish := by
    simp [Letter.card, Letter.finish, Parts.child, Parts.ofTag, Parts.none,
      Amendment.children, Parts.Fits, Child.FitEach, Child.Fits]
  obtain ⟨-, -, same, later⟩ := extending_is_writing Letter.impartial
    Letter.reached (fun _ _ impossible => nomatch impossible) made
    sketched finished fits [] changes
  refine ⟨?_, same, later⟩
  decide +kernel

end Template

end LiveTemplate
