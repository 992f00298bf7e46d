import LiveTemplate.Proofs.Accounting
import LiveTemplate.Proofs.Moments

/-!
# Hooks run once

Destroying an emitter takes its hooks over and runs them one after the other.
A hook may do anything: register further hooks, with the same emitter too,
subscribe, and destroy the emitter once more while the destruction that runs it
is still under way.

`Annals.Course` tells how one world becomes another and what happens to hooks
meanwhile, in order.  The hooks in the list of an emitter are the pending ones;
each step keeps this, however destructions are nested.
-/

namespace LiveTemplate

variable {σ : Type}

namespace Emitter

theorem hooks_stopListening (e other : EmitterId) (world : World σ) :
    (((stopListening e).after world).emitter other).hooks =
      (world.emitter other).hooks := by
  rw [emitter_stopListening]
  by_cases same : other = e
  · rw [same, emitter_update_self]
  · rw [emitter_update_of_ne _ _ same]

theorem hooks_own (e other : EmitterId) (subscription : Subscription)
    (world : World σ) :
    (((own e subscription).after world).emitter other).hooks =
      (world.emitter other).hooks := by
  rw [emitter_own]
  split
  · rename_i same
    rw [same]
  · rfl

end Emitter

/-- A world, and what has happened to hooks until then. -/
structure Annals (σ : Type) where
  world : World σ
  moments : List Moment

/-- One hook is run, with all that it brings about. -/
structure HookCall (σ : Type) where
  hook : Handler
  before : Annals σ
  after : Annals σ

/-- Each call begins where the one before it has ended. -/
def HookCall.Linked : Annals σ → List (HookCall σ) → Annals σ → Prop
  | start, [], final => final = start
  | start, call :: rest, final =>
      call.before = start ∧ Linked call.after rest final

namespace Annals

/-- Write down one more moment. -/
def note (annals : Annals σ) (moment : Moment) : Annals σ :=
  { annals with moments := annals.moments ++ [moment] }

/-- The hooks of an emitter are taken over. -/
def takeOver (annals : Annals σ) (e : EmitterId) : Annals σ :=
  let unhooked := (Emitter.update e fun emitter =>
    { emitter with hooks := [] }).after annals.world
  ⟨unhooked.holding (.refs [.emitter e] :: unhooked.frames),
    annals.moments ++ [.begins e]⟩

/-- One world becomes another by registering hooks and destroying emitters, and
by whatever leaves hooks alone.  What the hooks do that a destruction runs has
been told in the same way. -/
inductive Course : Annals σ → Annals σ → Prop where
  | trans {first second third : Annals σ} :
      Course first second → Course second third → Course first third
  | aside {world later : World σ} (moments : List Moment) :
      (∀ e, (later.emitter e).hooks = (world.emitter e).hooks) →
      Course ⟨world, moments⟩ ⟨later, moments⟩
  | beforeDestroy (annals : Annals σ) (e : EmitterId) (hook : Handler) :
      Course annals ⟨(Emitter.beforeDestroy e hook).after annals.world,
        annals.moments ++ [.registers e hook]⟩
  | destroy {host : Host σ} {annals last : Annals σ} {e : EmitterId}
      {calls : List (HookCall σ)} :
      calls.map (·.hook) = (annals.world.emitter e).hooks →
      HookCall.Linked (annals.takeOver e) calls last →
      (∀ call ∈ calls, call.after.world =
        (host.destroy call.hook).after call.before.world) →
      (∀ call ∈ calls, Course
        (call.before.note (.runs annals.moments.length call.hook)) call.after) →
      Course annals
        ⟨(Emitter.destroy host e).after annals.world, last.moments⟩

/-- The hooks that emitters have are the pending ones, and runs are part of
destructions that have begun. -/
structure IsFaithful (annals : Annals σ) : Prop where
  hooks : ∀ e, (annals.world.emitter e).hooks =
    (Moment.waiting e annals.moments).map (·.2)
  labelled : ∀ {place start : Nat} {hook : Handler},
    annals.moments[place]? = some (.runs start hook) →
      start < place ∧ ∃ e, annals.moments[start]? = some (.begins e)

theorem IsFaithful.concat {annals : Annals σ} (faithful : annals.IsFaithful)
    {later : World σ} {moment : Moment}
    (hooks : ∀ e, (later.emitter e).hooks =
      (moment.update e (Moment.waiting e annals.moments)
        annals.moments.length).map (·.2))
    (labelled : ∀ {start hook}, moment = .runs start hook →
      ∃ e, annals.moments[start]? = some (.begins e)) :
    IsFaithful ⟨later, annals.moments ++ [moment]⟩ := by
  have kept {place : Nat} {old : Moment}
      (there : annals.moments[place]? = some old) :
      (annals.moments ++ [moment])[place]? = some old :=
    Moment.getElem?_concat_iff.mpr (.inl there)
  refine ⟨fun e => ?_, fun there => ?_⟩
  · rw [hooks, Moment.waiting_concat]
  · rcases Moment.getElem?_concat_iff.mp there with old | ⟨rfl, same⟩
    · obtain ⟨before, e, begun⟩ := faithful.labelled old
      exact ⟨before, e, kept begun⟩
    · obtain ⟨e, begun⟩ := labelled same
      exact ⟨Moment.lt_of_getElem? begun, e, kept begun⟩

/-- Moments are added in which the destructions that begin run what is pending
when they do; otherwise hooks are run by some own destructions only. -/
structure Goes (own : Nat → Prop) (first last : Annals σ) : Prop where
  known : ∀ start, own start → start < first.moments.length ∧
    ∃ e, first.moments[start]? = some (.begins e)
  grown : ∃ more, last.moments = first.moments ++ more
  added : ∀ {place start : Nat} {hook : Handler},
    first.moments.length ≤ place →
    last.moments[place]? = some (.runs start hook) →
      own start ∨ first.moments.length ≤ start
  faithful : first.IsFaithful → last.IsFaithful
  taken : first.IsFaithful → ∀ {start : Nat} {e : EmitterId},
    first.moments.length ≤ start →
    last.moments[start]? = some (.begins e) →
      (Moment.runsOf start last.moments).map (·.2) =
        (Moment.waiting e (last.moments.take start)).map (·.2)

namespace Goes

variable {own : Nat → Prop} {first second third : Annals σ}

theorem length_le (goes : Goes own first second) :
    first.moments.length ≤ second.moments.length := by
  obtain ⟨more, grown⟩ := goes.grown
  rw [grown, List.length_append]
  exact Nat.le_add_right _ _

/-- What was written down stays. -/
theorem getElem?_eq (goes : Goes own first second) {place : Nat}
    (old : place < first.moments.length) :
    second.moments[place]? = first.moments[place]? := by
  obtain ⟨more, grown⟩ := goes.grown
  rw [grown, List.getElem?_append_left old]

theorem take_eq (goes : Goes own first second) {place : Nat}
    (old : place ≤ first.moments.length) :
    second.moments.take place = first.moments.take place := by
  obtain ⟨more, grown⟩ := goes.grown
  rw [grown, List.take_append_of_le_length old]

/-- A destruction that is over runs nothing any more. -/
theorem runsOf_eq (goes : Goes own first second) {start : Nat}
    (old : start < first.moments.length) (foreign : ¬own start) :
    Moment.runsOf start second.moments =
      Moment.runsOf start first.moments := by
  obtain ⟨more, grown⟩ := goes.grown
  rw [grown, Moment.runsOf_append, List.append_right_eq_self,
    List.filterMap_eq_nil_iff]
  rintro ⟨moment, place⟩ member
  obtain ⟨beyond, there⟩ :=
    List.mk_mem_zipIdx_iff_le_and_getElem?_sub.mp member
  cases moment with
  | runs begun hook =>
      rw [Moment.run?, if_neg]
      rintro rfl
      rw [← List.getElem?_append_right beyond, ← grown] at there
      rcases goes.added beyond there with mine | fresh
      · exact foreign mine
      · exact Nat.not_lt_of_le fresh old
  | _ => rfl

theorem trans (one : Goes own first second) (two : Goes own second third) :
    Goes own first third where
  known := one.known
  grown := by
    obtain ⟨more, grown⟩ := one.grown
    obtain ⟨rest, grows⟩ := two.grown
    exact ⟨more ++ rest, by rw [grows, grown, List.append_assoc]⟩
  added {place start hook} beyond there := by
    rcases Nat.lt_or_ge place second.moments.length with old | new
    · rw [two.getElem?_eq old] at there
      exact one.added beyond there
    · rcases two.added new there with mine | fresh
      · exact .inl mine
      · exact .inr (Nat.le_trans one.length_le fresh)
  faithful begun := two.faithful (one.faithful begun)
  taken faithful {start e} beyond begun := by
    rcases Nat.lt_or_ge start second.moments.length with old | new
    · have foreign : ¬own start := fun mine =>
        Nat.not_lt_of_le beyond (one.known start mine).1
      rw [two.runsOf_eq old foreign, two.take_eq (Nat.le_of_lt old)]
      rw [two.getElem?_eq old] at begun
      exact one.taken faithful beyond begun
    · exact two.taken (one.faithful faithful) new begun

/-- What runs nothing of older destructions may do so. -/
theorem widen (goes : Goes (fun _ => False) first second)
    (known : ∀ start, own start → start < first.moments.length ∧
      ∃ e, first.moments[start]? = some (.begins e)) :
    Goes own first second where
  known := known
  grown := goes.grown
  added beyond there := .inr ((goes.added beyond there).resolve_left id)
  faithful := goes.faithful
  taken := goes.taken

theorem aside {world later : World σ} (moments : List Moment)
    (hooks : ∀ e, (later.emitter e).hooks = (world.emitter e).hooks) :
    Goes (fun _ => False) ⟨world, moments⟩ ⟨later, moments⟩ where
  known _ := False.elim
  grown := ⟨[], (List.append_nil _).symm⟩
  added beyond there :=
    absurd (Moment.lt_of_getElem? there) (Nat.not_lt_of_le beyond)
  faithful faithful :=
    ⟨fun e => (hooks e).trans (faithful.hooks e), faithful.labelled⟩
  taken _ _ _ beyond there :=
    absurd (Moment.lt_of_getElem? there) (Nat.not_lt_of_le beyond)

/-- One more hook is pending. -/
theorem registers (annals : Annals σ) (e : EmitterId) (hook : Handler) :
    Goes (fun _ => False) annals
      ⟨(Emitter.beforeDestroy e hook).after annals.world,
        annals.moments ++ [.registers e hook]⟩ where
  known _ := False.elim
  grown := ⟨_, rfl⟩
  added beyond there := nomatch Moment.eq_of_concat there beyond
  faithful faithful := by
    refine faithful.concat (fun other => ?_) nofun
    rw [Moment.update, Emitter.beforeDestroy]
    by_cases same : e = other
    · subst same
      rw [Emitter.emitter_update_self, if_pos rfl, List.map_append,
        ← faithful.hooks]
      rfl
    · rw [Emitter.emitter_update_of_ne _ _ (Ne.symm same), if_neg same]
      exact faithful.hooks other
  taken _ _ _ beyond there := nomatch Moment.eq_of_concat there beyond

theorem runs {annals : Annals σ} {k : Nat} {e : EmitterId}
    (begun : annals.moments[k]? = some (.begins e)) (hook : Handler) :
    Goes (· = k) annals (annals.note (.runs k hook)) where
  known _ same := same ▸ ⟨Moment.lt_of_getElem? begun, e, begun⟩
  grown := ⟨_, rfl⟩
  added beyond there := by
    cases Moment.eq_of_concat there beyond
    exact .inl rfl
  faithful faithful := by
    refine faithful.concat faithful.hooks fun same => ?_
    cases same
    exact ⟨e, begun⟩
  taken _ _ _ beyond there := nomatch Moment.eq_of_concat there beyond

theorem calls {calls : List (HookCall σ)} {k : Nat} {e : EmitterId}
    (linked : HookCall.Linked first calls second)
    (goes : ∀ call ∈ calls, Goes (fun _ => False)
      (call.before.note (.runs k call.hook)) call.after)
    (begun : first.moments[k]? = some (.begins e)) :
    Goes (· = k) first second ∧
      (Moment.runsOf k second.moments).map (·.2) =
        (Moment.runsOf k first.moments).map (·.2) ++ calls.map (·.hook) := by
  have known {annals : Annals σ}
      (there : annals.moments[k]? = some (.begins e)) (start : Nat)
      (same : start = k) : start < annals.moments.length ∧
        ∃ e, annals.moments[start]? = some (.begins e) :=
    same ▸ ⟨Moment.lt_of_getElem? there, e, there⟩
  induction calls generalizing first with
  | nil =>
      cases linked
      exact ⟨(aside _ fun _ => rfl).widen (known begun), by simp⟩
  | cons call rest ih =>
      obtain ⟨rfl, linked⟩ := linked
      have turn := runs begun call.hook
      have through := goes call (.head _)
      have there :=
        (turn.getElem?_eq (Moment.lt_of_getElem? begun)).trans begun
      have still :=
        (through.getElem?_eq (Moment.lt_of_getElem? there)).trans there
      obtain ⟨others, ran⟩ := ih linked
        (fun call member => goes call (.tail _ member)) still
      refine ⟨(turn.trans (through.widen (known there))).trans others, ?_⟩
      rw [ran, through.runsOf_eq (Moment.lt_of_getElem? there) id, note,
        Moment.runsOf_append]
      simp [Moment.run?]

end Goes

private theorem hooks_takeOver (annals : Annals σ) (e other : EmitterId) :
    ((annals.takeOver e).world.emitter other).hooks =
      if e = other then [] else (annals.world.emitter other).hooks := by
  show (((Emitter.update e _).after annals.world).emitter other).hooks = _
  by_cases same : e = other
  · rw [if_pos same, same, Emitter.emitter_update_self]
  · rw [if_neg same, Emitter.emitter_update_of_ne _ _ (Ne.symm same)]

theorem IsFaithful.takeOver {annals : Annals σ} (faithful : annals.IsFaithful)
    (e : EmitterId) : (annals.takeOver e).IsFaithful := by
  refine faithful.concat (fun other => ?_) nofun
  show ((annals.takeOver e).world.emitter other).hooks = _
  rw [hooks_takeOver, Moment.update, faithful.hooks]
  split <;> rfl

/-- No hook has been run yet by a destruction that begins. -/
theorem IsFaithful.runsOf_takeOver {annals : Annals σ}
    (faithful : annals.IsFaithful) (e : EmitterId) :
    Moment.runsOf annals.moments.length (annals.takeOver e).moments = [] := by
  rw [List.eq_nil_iff_forall_not_mem]
  rintro ⟨place, hook⟩ member
  rcases Moment.getElem?_concat_iff.mp (Moment.mem_runsOf.mp member) with
    old | ⟨_, other⟩
  · exact Nat.lt_asymm (Moment.lt_of_getElem? old) (faithful.labelled old).1
  · cases other

private theorem world_of_linked {host : Host σ} {calls : List (HookCall σ)}
    {first last : Annals σ} (linked : HookCall.Linked first calls last)
    (worlds : ∀ call ∈ calls, call.after.world =
      (host.destroy call.hook).after call.before.world) :
    last.world =
      ((calls.map (·.hook)).forM host.destroy : Act σ Unit).after
        first.world := by
  induction calls generalizing first with
  | nil => exact congrArg Annals.world linked
  | cons call rest ih =>
      obtain ⟨rfl, linked⟩ := linked
      rw [ih linked fun call member => worlds call (.tail _ member),
        worlds call (.head _)]
      rfl

private theorem hooks_destroy (host : Host σ) (annals : Annals σ)
    (e other : EmitterId) :
    (((Emitter.destroy host e).after annals.world).emitter other).hooks =
      ((((annals.world.emitter e).hooks.forM host.destroy : Act σ Unit).after
        (annals.takeOver e).world).emitter other).hooks := by
  rw [Emitter.after_destroy, Emitter.hooks_stopListening, after_keeping]
  rfl

theorem Goes.destroys {host : Host σ} {annals last : Annals σ} {e : EmitterId}
    {calls : List (HookCall σ)}
    (hooks : calls.map (·.hook) = (annals.world.emitter e).hooks)
    (linked : HookCall.Linked (annals.takeOver e) calls last)
    (worlds : ∀ call ∈ calls, call.after.world =
      (host.destroy call.hook).after call.before.world)
    (goes : ∀ call ∈ calls, Goes (fun _ => False)
      (call.before.note (.runs annals.moments.length call.hook)) call.after) :
    Goes (fun _ => False) annals
      ⟨(Emitter.destroy host e).after annals.world, last.moments⟩ := by
  let k := annals.moments.length
  have begun : (annals.takeOver e).moments[k]? = some (.begins e) :=
    Moment.getElem?_concat_iff.mpr (.inr ⟨rfl, rfl⟩)
  have longer : (annals.takeOver e).moments.length = k + 1 :=
    List.length_append
  obtain ⟨through, ran⟩ := Goes.calls linked goes begun
  obtain ⟨more, grown⟩ := through.grown
  have since : last.moments = annals.moments ++ (.begins e :: more) := by
    rw [grown, Annals.takeOver, List.append_assoc]
    rfl
  have there : last.moments[k]? = some (.begins e) := by
    rw [since]
    simp [k]
  refine ⟨fun _ => False.elim, ⟨_, since⟩,
    fun {place start hook} beyond found => ?_, fun faithful => ?_,
    fun faithful {start e'} beyond begins => ?_⟩
  · rcases Nat.eq_or_lt_of_le beyond with rfl | after
    · cases there.symm.trans found
    · rcases through.added (longer ▸ after) found with same | fresh
      · exact .inr (Nat.le_of_eq same.symm)
      · rw [longer] at fresh
        exact .inr (Nat.le_of_succ_le fresh)
  · have kept := through.faithful (faithful.takeOver e)
    refine ⟨fun other => ?_, kept.labelled⟩
    rw [← kept.hooks, hooks_destroy, world_of_linked linked worlds, hooks]
  · rcases Nat.eq_or_lt_of_le beyond with rfl | after
    · cases there.symm.trans begins
      have before : last.moments.take k = annals.moments := by
        rw [since, List.take_left]
      rw [before, ran, faithful.runsOf_takeOver, hooks, faithful.hooks]
      rfl
    · exact through.taken (faithful.takeOver e) (longer ▸ after) begins

theorem Course.goes {first last : Annals σ} (course : Course first last) :
    Goes (fun _ => False) first last := by
  induction course with
  | trans _ _ one two => exact one.trans two
  | aside moments hooks => exact .aside moments hooks
  | beforeDestroy annals e hook => exact .registers annals e hook
  | destroy hooks linked worlds _ goes =>
      exact .destroys hooks linked worlds goes

theorem IsFaithful.initial (client : σ) :
    IsFaithful ⟨World.initial client, []⟩ := by
  exact ⟨fun _ => rfl, nofun⟩

end Annals

/-- What has become of a world can be told, whatever was told before. -/
def World.Recounts (world later : World σ) : Prop :=
  ∀ moments, ∃ told, Annals.Course ⟨world, moments⟩ ⟨later, told⟩

namespace World.Recounts

open Annals (Course)

theorem aside {world later : World σ}
    (hooks : ∀ e, (later.emitter e).hooks = (world.emitter e).hooks) :
    world.Recounts later := by
  intro moments
  exact ⟨moments, .aside moments hooks⟩

theorem steady : Steady (World.Recounts (σ := σ)) where
  refl _ := aside fun _ => rfl
  trans first second moments := by
    obtain ⟨told, early⟩ := first moments
    obtain ⟨more, late⟩ := second told
    exact ⟨more, early.trans late⟩
  release frame world later inner moments := by
    obtain ⟨told, course⟩ := inner moments
    have entered : Course ⟨world, moments⟩
        ⟨world.holding (frame :: world.frames), moments⟩ :=
      .aside moments fun _ => rfl
    have left : Course ⟨later, told⟩ ⟨later.holding world.frames, told⟩ :=
      .aside told fun _ => rfl
    exact ⟨told, (entered.trans course).trans left⟩

end World.Recounts

namespace Emitter

open Annals (Course)

/-- What is done with emitters. -/
inductive Call where
  | beforeDestroy (e : EmitterId) (hook : Handler)
  | listenToObservable (e : EmitterId) (o : ObservableId) (event : String)
      (reaction : Reaction)
  | listenToNode (e : EmitterId) (n : NodeId) (type : String)
      (action : EventAction)
  | revoke (r : RevokerId)
  | stopListening (e : EmitterId)
  | destroy (e : EmitterId)

namespace Call

def run (host : Host σ) : Call → Act σ Unit
  | .beforeDestroy e hook => Emitter.beforeDestroy e hook
  | .listenToObservable e o event reaction => do
      let _ ← Emitter.listenToObservable e o event reaction
  | .listenToNode e n type action => do
      let _ ← Emitter.listenToNode e n type action
  | .revoke r => Revoker.revoke r
  | .stopListening e => Emitter.stopListening e
  | .destroy e => Emitter.destroy host e

/-- What is told of a call before what it brings about. -/
def opening : Call → List Moment
  | .beforeDestroy e hook => [.registers e hook]
  | .destroy e => [.begins e]
  | _ => []

end Call

variable {host : Host σ}

/-- Running hooks can be told of if each of them can. -/
theorem exists_hookCalls
    (within : ∀ hook, (host.destroy hook).Within World.Recounts) (start : Nat)
    (hooks : List Handler) (first : Annals σ) :
    ∃ calls last, calls.map HookCall.hook = hooks ∧
      HookCall.Linked first calls last ∧
      (∀ call ∈ calls, call.after.world =
        (host.destroy call.hook).after call.before.world) ∧
      ∀ call ∈ calls,
        Course (call.before.note (.runs start call.hook)) call.after := by
  induction hooks generalizing first with
  | nil => exact ⟨[], first, rfl, rfl, nofun, nofun⟩
  | cons hook rest ih =>
      obtain ⟨told, course⟩ := within hook first.world
        (first.note (.runs start hook)).moments
      obtain ⟨calls, last, same, linked, worlds, courses⟩ :=
        ih ⟨(host.destroy hook).after first.world, told⟩
      refine ⟨⟨hook, first, _⟩ :: calls, last, congrArg (hook :: ·) same,
        ⟨rfl, linked⟩, ?_, ?_⟩
      · exact List.forall_mem_cons.mpr ⟨rfl, worlds⟩
      · exact List.forall_mem_cons.mpr ⟨course, courses⟩

/-- Every call can be told of, beginning with its own moment. -/
theorem Call.exists_course
    (within : ∀ hook, (host.destroy hook).Within World.Recounts)
    (annals : Annals σ) (call : Call) :
    ∃ more, Course annals ⟨(call.run host).after annals.world,
      annals.moments ++ call.opening ++ more⟩ := by
  have silent {later : World σ}
      (hooks : ∀ e, (later.emitter e).hooks = (annals.world.emitter e).hooks) :
      ∃ more, Course annals ⟨later, annals.moments ++ [] ++ more⟩ :=
    ⟨[], by simpa using Course.aside annals.moments hooks⟩
  cases call with
  | beforeDestroy e hook =>
      exact ⟨[], by simpa [opening] using .beforeDestroy annals e hook⟩
  | listenToObservable e o event reaction =>
      exact silent fun other => hooks_own e other _ _
  | listenToNode e n type action =>
      exact silent fun other => hooks_own e other _ _
  | revoke r =>
      refine silent fun other => ?_
      obtain ⟨_, _, _, left⟩ := Revoker.revoke_leaves r annals.world
      rw [run, left]
      rfl
  | stopListening e => exact silent fun other => hooks_stopListening e other _
  | destroy e =>
      obtain ⟨calls, last, hooks, linked, worlds, courses⟩ :=
        exists_hookCalls within annals.moments.length
          (annals.world.emitter e).hooks (annals.takeOver e)
      have begun : (annals.takeOver e).moments[annals.moments.length]? =
          some (.begins e) := Moment.getElem?_concat_iff.mpr (.inr ⟨rfl, rfl⟩)
      obtain ⟨more, grown⟩ := (Annals.Goes.calls linked
        (fun call member => (courses call member).goes) begun).1.grown
      refine ⟨more, ?_⟩
      rw [show annals.moments ++ opening (.destroy e) ++ more = last.moments
        from grown.symm]
      exact .destroy hooks linked worlds courses

private theorem liveCount_stopListening (e : EmitterId) (world : World σ) :
    liveCount ((stopListening e).after world) e = 0 := by
  rw [liveCount, emitter_stopListening, emitter_update_self]
  rfl

/-- However hooks are registered and emitters destroyed, from inside hooks too:
every hook that is run was registered before the destruction that runs it began,
none is run twice, each is run if a destruction begins after its registration,
and a destruction runs those that are pending when it begins, in the order of
their registration.  Pending are the hooks in the list of the emitter.  Every
call continues what is told, if the hooks of the client do, and when a
destruction is over, whatever the hooks have done, the emitter has no live
subscription. -/
theorem hooks_run_once
    (within : ∀ hook, (host.destroy hook).Within World.Recounts) {client : σ}
    {world : World σ} {moments : List Moment}
    (course : Course ⟨World.initial client, []⟩ ⟨world, moments⟩) :
    (∀ call : Call, ∃ more, Course ⟨world, moments⟩
      ⟨(call.run host).after world, moments ++ call.opening ++ more⟩) ∧
    (∃ origin, Moment.Settles moments origin) ∧
    (∀ e, (world.emitter e).hooks =
      (Moment.waiting e moments).map (·.2)) ∧
    ∀ (inner : Host σ) (before : World σ) (e : EmitterId),
      liveCount ((destroy inner e).after before) e = 0 := by
  have goes := course.goes
  have initial := Annals.IsFaithful.initial client
  have faithful := goes.faithful initial
  refine ⟨Call.exists_course within ⟨world, moments⟩, ?_, ?_, ?_⟩
  · exact Moment.exists_settles faithful.labelled
      (goes.taken initial (Nat.zero_le _))
  · exact faithful.hooks
  · intro inner before e
    rw [after_destroy]
    exact liveCount_stopListening e _

namespace Nested

/-- Hooks write down that they are run and make the calls of a script; so do the
hooks that are run meanwhile, down to some depth. -/
def scripted (script : Handler → List Call) : Nat → Host (List Handler)
  | 0 => Host.quiet
  | depth + 1 =>
      { Host.quiet with
        destroy := fun hook => do
          modify fun world => { world with client := world.client ++ [hook] }
          (script hook).forM (Call.run (scripted script depth)) }

private theorem within_scripted (script : Handler → List Call) (depth : Nat)
    (hook : Handler) :
    ((scripted script depth).destroy hook).Within World.Recounts := by
  have steady := World.Recounts.steady (σ := List Handler)
  induction depth generalizing hook with
  | zero => exact steady.pure ()
  | succ depth ih =>
      refine steady.bind (fun _ => .aside fun _ => rfl) fun _ =>
        steady.forM fun call world moments => ?_
      obtain ⟨more, course⟩ := call.exists_course ih ⟨world, moments⟩
      exact ⟨_, course⟩

/-- The first hook registers one more, destroys the emitter once more and
subscribes through it, as the second one does. -/
def script (hook : Handler) : List Call :=
  match hook.index with
  | 0 => [.beforeDestroy ⟨0⟩ ⟨3⟩, .destroy ⟨0⟩,
      .listenToObservable ⟨0⟩ ⟨0⟩ "change:a" (.call ⟨4⟩)]
  | 1 => [.listenToNode ⟨0⟩ ⟨0⟩ "click" (.call ⟨5⟩)]
  | _ => []

/-- Two hooks are registered. -/
def hooked : World (List Handler) :=
  (do
    beforeDestroy ⟨0⟩ ⟨0⟩
    beforeDestroy ⟨0⟩ ⟨1⟩ : Act _ Unit).after (World.initial [])

def destroyed : World (List Handler) :=
  (destroy (scripted script 2) ⟨0⟩).after hooked

/-- The emitter is destroyed twice, the second time by the first hook. -/
def moments : List Moment :=
  [.registers ⟨0⟩ ⟨0⟩, .registers ⟨0⟩ ⟨1⟩, .begins ⟨0⟩, .runs 2 ⟨0⟩,
    .registers ⟨0⟩ ⟨3⟩, .begins ⟨0⟩, .runs 5 ⟨3⟩, .runs 2 ⟨1⟩]

/-- A hook is run, and so much has been told when it is done. -/
def call (depth : Nat) (before : Annals (List Handler)) (hook : Handler)
    (told : Nat) : HookCall (List Handler) :=
  ⟨hook, before,
    ⟨((scripted script depth).destroy hook).after before.world,
      moments.take told⟩⟩

/-- What the first hook finds, does and leaves. -/
def first : HookCall (List Handler) :=
  call 2 (Annals.takeOver ⟨hooked, moments.take 2⟩ ⟨0⟩) ⟨0⟩ 7

def second : HookCall (List Handler) := call 2 first.after ⟨1⟩ 8

/-- The first hook has written down that it is run. -/
def noted : World (List Handler) :=
  { first.before.world with client := [⟨0⟩] }

def registered : World (List Handler) :=
  (beforeDestroy ⟨0⟩ ⟨3⟩).after noted

def third : HookCall (List Handler) :=
  call 1 (Annals.takeOver ⟨registered, moments.take 5⟩ ⟨0⟩) ⟨3⟩ 7

theorem course_first :
    Course (first.before.note (.runs 2 ⟨0⟩)) first.after := by
  let between : World (List Handler) :=
    (destroy (scripted script 1) ⟨0⟩).after registered
  have begun : Course (first.before.note (.runs 2 ⟨0⟩))
      ⟨noted, moments.take 4⟩ := .aside _ fun _ => rfl
  have registers : Course ⟨noted, moments.take 4⟩
      ⟨registered, moments.take 5⟩ := .beforeDestroy _ ⟨0⟩ ⟨3⟩
  have again : Course ⟨registered, moments.take 5⟩
      ⟨between, third.after.moments⟩ :=
    .destroy (rfl : [third].map (·.hook) = _) ⟨rfl, rfl⟩
      (List.forall_mem_singleton.mpr rfl)
      (List.forall_mem_singleton.mpr (.aside _ fun _ => rfl))
  have ends : first.after.world = (listenToObservable ⟨0⟩ ⟨0⟩ "change:a"
      (.call ⟨4⟩)).after between := rfl
  have listens : Course ⟨between, third.after.moments⟩ first.after :=
    .aside _ fun other => (congrArg (fun world : World (List Handler) =>
      (world.emitter other).hooks) ends).trans (hooks_own ⟨0⟩ other _ _)
  exact ((begun.trans registers).trans again).trans listens

theorem course : Course ⟨World.initial [], []⟩ ⟨destroyed, moments⟩ := by
  have registered : Course ⟨World.initial [], []⟩ ⟨hooked, moments.take 2⟩ :=
    .trans (.beforeDestroy _ ⟨0⟩ ⟨0⟩) (.beforeDestroy _ ⟨0⟩ ⟨1⟩)
  have listens : Course (first.after.note (.runs 2 ⟨1⟩)) second.after :=
    .aside _ fun other => hooks_own ⟨0⟩ other _ _
  have destroys : Course ⟨hooked, moments.take 2⟩
      ⟨destroyed, second.after.moments⟩ :=
    .destroy (rfl : [first, second].map (·.hook) = _) ⟨rfl, rfl, rfl⟩
      (List.forall_mem_cons.mpr ⟨rfl, List.forall_mem_singleton.mpr rfl⟩)
      (List.forall_mem_cons.mpr
        ⟨course_first, List.forall_mem_singleton.mpr listens⟩)
  exact registered.trans destroys

/-- The hook registered last is run by the second destruction, the second hook
after it by the first one, and nothing that the hooks have subscribed is
left. -/
theorem hooks_run_nested :
    (∃ origin, Moment.Settles moments origin) ∧
    destroyed.client = [⟨0⟩, ⟨3⟩, ⟨1⟩] ∧
    (destroyed.emitter ⟨0⟩).hooks = [] ∧
    (first.after.world.emitter ⟨0⟩).subscriptions = [⟨0⟩] ∧
    liveCount destroyed ⟨0⟩ = 0 := by
  have all := hooks_run_once (within_scripted script 2) course
  exact ⟨all.2.1, by decide +kernel, by decide +kernel, by decide +kernel,
    all.2.2.2 (scripted script 2) hooked ⟨0⟩⟩

end Nested

end Emitter

end LiveTemplate
