import Mathlib.Data.List.Induction
import Mathlib.Data.Nat.Find
import LiveTemplate.Emitter

/-!
# Registrations and runs of hooks

A record of what happens to the hooks of emitters: they are registered,
destructions begin, and hooks are run as a part of one that has begun.  A hook
is pending from its registration until the next destruction of its emitter
begins.

When each destruction runs the hooks that are pending at its beginning, the
runs can be paired off with the registrations, and no hook is run twice.  What
is pending is taken over as a list, so the pairing is by place in two lists of
the same hooks.
-/

namespace LiveTemplate

/-- Something that happens to hooks.  A run says where among all moments the
destruction began that it is part of. -/
inductive Moment where
  | registers (e : EmitterId) (hook : Handler)
  | begins (e : EmitterId)
  | runs (start : Nat) (hook : Handler)
  deriving DecidableEq

namespace Moment

/-- A hook has been registered before the present and no destruction of the
emitter has begun since. -/
def Pending (moments : List Moment) (e : EmitterId) (now place : Nat) : Prop :=
  place < now ∧ (∃ hook, moments[place]? = some (.registers e hook)) ∧
    ∀ k, place < k → k < now → moments[k]? ≠ some (.begins e)

/-- All hooks that are run have been registered: where, the origin says. -/
structure Settles (moments : List Moment) (origin : Nat → Nat) : Prop where
  /-- A hook that is run was registered, with the emitter that is destroyed,
  before the destruction began. -/
  earlier : ∀ {place start hook}, moments[place]? = some (.runs start hook) →
    origin place < start ∧ start < place ∧
      ∃ e, moments[start]? = some (.begins e) ∧
        moments[origin place]? = some (.registers e hook)
  /-- No hook is run twice. -/
  once : ∀ {place other start begun hook more},
    moments[place]? = some (.runs start hook) →
    moments[other]? = some (.runs begun more) →
    origin place = origin other → place = other
  /-- A hook is run if a destruction of its emitter begins later. -/
  run : ∀ {place k e hook}, moments[place]? = some (.registers e hook) →
    place < k → moments[k]? = some (.begins e) →
    ∃ later start, moments[later]? = some (.runs start hook) ∧
      origin later = place
  /-- A destruction runs the hooks that are pending when it begins. -/
  pending : ∀ {start e}, moments[start]? = some (.begins e) → ∀ place,
    Pending moments e start place ↔
      ∃ later hook, moments[later]? = some (.runs start hook) ∧
        origin later = place
  /-- It runs them in the order in which they were registered. -/
  order : ∀ {place other start hook more},
    moments[place]? = some (.runs start hook) →
    moments[other]? = some (.runs start more) →
    (place < other ↔ origin place < origin other)

/-- What a moment does to the pending hooks of an emitter. -/
def update (e : EmitterId) (waiting : List (Nat × Handler)) (place : Nat) :
    Moment → List (Nat × Handler)
  | .registers other hook =>
      if other = e then waiting ++ [(place, hook)] else waiting
  | .begins other => if other = e then [] else waiting
  | .runs _ _ => waiting

/-- The pending hooks of an emitter, with the places of their registrations. -/
def waiting (e : EmitterId) (moments : List Moment) : List (Nat × Handler) :=
  moments.zipIdx.foldl (fun waiting (moment, place) =>
    update e waiting place moment) []

/-- The destruction that a run is a part of. -/
def start? : Moment → Option Nat
  | .runs start _ => some start
  | _ => none

/-- The run that a moment is, as a part of a given destruction. -/
def run? (start : Nat) : Moment × Nat → Option (Nat × Handler)
  | (.runs other hook, place) =>
      if other = start then some (place, hook) else none
  | _ => none

/-- The hooks that a destruction runs, with the places of the runs. -/
def runsOf (start : Nat) (moments : List Moment) : List (Nat × Handler) :=
  moments.zipIdx.filterMap (run? start)

variable {moments : List Moment} {e : EmitterId} {start place : Nat}
  {hook : Handler}

theorem waiting_concat (e : EmitterId) (moments : List Moment)
    (moment : Moment) :
    waiting e (moments ++ [moment]) =
      moment.update e (waiting e moments) moments.length := by
  simp [waiting, List.zipIdx_append]

theorem runsOf_append (start : Nat) (moments more : List Moment) :
    runsOf start (moments ++ more) =
      runsOf start moments ++
        (more.zipIdx moments.length).filterMap (run? start) := by
  simp [runsOf, List.zipIdx_append]

theorem mem_runsOf :
    (place, hook) ∈ runsOf start moments ↔
      moments[place]? = some (.runs start hook) := by
  unfold runsOf
  rw [List.mem_filterMap]
  constructor
  · rintro ⟨⟨moment, other⟩, member, found⟩
    have there := List.mem_zipIdx_iff_getElem?.mp member
    cases moment with
    | runs begun ran =>
        simp only [run?, Option.ite_none_right_eq_some, Option.some.injEq,
          Prod.mk.injEq] at found
        obtain ⟨rfl, rfl, rfl⟩ := found
        exact there
    | _ => cases found
  · intro there
    exact ⟨(.runs start hook, place), List.mem_zipIdx_iff_getElem?.mpr there,
      by simp [run?]⟩

/-- What stands in a list that has got one more item. -/
theorem getElem?_concat_iff {last moment : Moment} {k : Nat} :
    (moments ++ [last])[k]? = some moment ↔
      moments[k]? = some moment ∨ k = moments.length ∧ last = moment := by
  rcases Nat.lt_trichotomy k moments.length with before | rfl | beyond
  · rw [List.getElem?_append_left before]
    simp [Nat.ne_of_lt before]
  · simp
  · rw [List.getElem?_eq_none (by simpa using Nat.succ_le_of_lt beyond),
      List.getElem?_eq_none (Nat.le_of_lt beyond)]
    simp [Nat.ne_of_gt beyond]

theorem lt_of_getElem? {moment : Moment}
    (there : moments[place]? = some moment) : place < moments.length :=
  (List.getElem?_eq_some_iff.mp there).1

theorem eq_of_concat {last moment : Moment}
    (there : (moments ++ [last])[place]? = some moment)
    (beyond : moments.length ≤ place) : last = moment := by
  rcases getElem?_concat_iff.mp there with old | ⟨_, same⟩
  · exact absurd (lt_of_getElem? old) (Nat.not_lt_of_le beyond)
  · exact same

private theorem pairwise_runsOf (start : Nat) (moments : List Moment) :
    (runsOf start moments).Pairwise fun one other => one.1 < other.1 := by
  have places : moments.zipIdx.Pairwise fun one other => one.2 < other.2 := by
    rw [← List.pairwise_map (f := Prod.snd) (R := (· < ·)),
      List.zipIdx_map_snd]
    exact List.pairwise_lt_range'
  refine places.filterMap _ fun one other before first found second also => ?_
  obtain ⟨moment, place⟩ := one
  obtain ⟨more, later⟩ := other
  cases moment <;> simp [run?] at found
  cases more <;> simp [run?] at also
  rw [← found.2, ← also.2]
  exact before

theorem mem_waiting :
    (place, hook) ∈ waiting e moments ↔
      moments[place]? = some (.registers e hook) ∧
        ∀ k, place < k → moments[k]? ≠ some (.begins e) := by
  induction moments using List.reverseRecOn with
  | nil => simp [waiting]
  | append_singleton moments last ih =>
      have beyond (k : Nat) (after : moments.length < k) :
          moments[k]? ≠ some (.begins e) :=
        fun there => Nat.lt_asymm after (lt_of_getElem? there)
      rw [waiting_concat]
      simp only [ne_eq, getElem?_concat_iff]
      cases last with
      | registers other more =>
          rw [update]
          by_cases same : other = e
          · subst same
            simp only [if_true, List.mem_append, ih, List.mem_singleton,
              Prod.mk.injEq, registers.injEq, true_and, reduceCtorEq, and_false,
              or_false]
            constructor
            · rintro (old | ⟨rfl, rfl⟩)
              · exact ⟨.inl old.1, old.2⟩
              · exact ⟨.inr ⟨rfl, rfl⟩, beyond⟩
            · rintro ⟨old | new, since⟩
              · exact .inl ⟨old, since⟩
              · exact .inr ⟨new.1, new.2.symm⟩
          · simp [same, ih]
      | begins other =>
          rw [update]
          by_cases same : other = e
          · subst same
            simp only [if_true, List.not_mem_nil, false_iff, reduceCtorEq,
              and_false, or_false]
            rintro ⟨old, since⟩
            exact since _ (lt_of_getElem? old) (.inr ⟨rfl, trivial⟩)
          · simp [same, ih]
      | runs start more => simpa [update] using ih

private theorem pairwise_waiting (e : EmitterId) (moments : List Moment) :
    (waiting e moments).Pairwise fun one other => one.1 < other.1 := by
  induction moments using List.reverseRecOn with
  | nil => exact .nil
  | append_singleton moments last ih =>
      rw [waiting_concat]
      cases last with
      | registers other hook =>
          rw [update]
          split
          · refine List.pairwise_append.mpr
              ⟨ih, List.pairwise_singleton _ _, fun one member new among => ?_⟩
            rw [List.mem_singleton.mp among]
            exact lt_of_getElem? (mem_waiting.mp member).1
          · exact ih
      | begins other =>
          rw [update]
          split
          · exact .nil
          · exact ih
      | runs start hook => exact ih

/-- Some runs are paired off with some registrations of the same hooks, both in
their order. -/
structure Paired (runs waiting : List (Nat × Handler)) (origin : Nat → Nat) :
    Prop where
  sends : ∀ {place hook}, (place, hook) ∈ runs →
    (origin place, hook) ∈ waiting
  covers : ∀ {place hook}, (place, hook) ∈ waiting →
    ∃ later, (later, hook) ∈ runs ∧ origin later = place
  mono : ∀ {one other}, one ∈ runs → other ∈ runs → one.1 < other.1 →
    origin one.1 < origin other.1

private theorem exists_paired {runs waiting : List (Nat × Handler)}
    (order : runs.Pairwise fun one other => one.1 < other.1)
    (ordered : waiting.Pairwise fun one other => one.1 < other.1)
    (same : runs.map (·.2) = waiting.map (·.2)) :
    ∃ origin, Paired runs waiting origin := by
  induction runs generalizing waiting with
  | nil =>
      rw [List.map_nil, eq_comm, List.map_eq_nil_iff] at same
      subst same
      exact ⟨id, nofun, nofun, nofun⟩
  | cons run runs ih =>
      cases waiting with
      | nil => cases same
      | cons first waiting =>
          obtain ⟨place, hook⟩ := run
          obtain ⟨registered, more⟩ := first
          simp only [List.map_cons, List.cons.injEq] at same
          obtain ⟨rfl, same⟩ := same
          obtain ⟨later, order⟩ := List.pairwise_cons.mp order
          obtain ⟨after, ordered⟩ := List.pairwise_cons.mp ordered
          obtain ⟨origin, paired⟩ := ih order ordered same
          -- The origins of the other runs are kept.
          have other {run : Nat × Handler} (member : run ∈ runs) :
              run.1 ≠ place := Nat.ne_of_gt (later run member)
          refine ⟨Function.update origin place registered,
            fun member => ?_, fun member => ?_, fun one two before => ?_⟩
          · rcases List.mem_cons.mp member with same | member
            · cases same
              simp
            · rw [Function.update_of_ne (other member)]
              exact .tail _ (paired.sends member)
          · rcases List.mem_cons.mp member with same | member
            · cases same
              exact ⟨place, .head _, by simp⟩
            · obtain ⟨run, among, found⟩ := paired.covers member
              exact ⟨run, .tail _ among, by
                rw [Function.update_of_ne (other among), found]⟩
          · rcases List.mem_cons.mp two with rfl | two
            · rcases List.mem_cons.mp one with rfl | one
              · exact absurd before (Nat.lt_irrefl _)
              · exact absurd before (Nat.lt_asymm (later _ one))
            · rw [Function.update_of_ne (other two)]
              rcases List.mem_cons.mp one with rfl | one
              · rw [Function.update_self]
                exact after _ (paired.sends two)
              · rw [Function.update_of_ne (other one)]
                exact paired.mono one two before

theorem mem_waiting_take {now : Nat} :
    (place, hook) ∈ waiting e (moments.take now) ↔
      place < now ∧ moments[place]? = some (.registers e hook) ∧
        ∀ k, place < k → k < now → moments[k]? ≠ some (.begins e) := by
  simp only [mem_waiting, List.getElem?_take]
  grind

theorem pending_iff {now : Nat} :
    Pending moments e now place ↔
      ∃ hook, (place, hook) ∈ waiting e (moments.take now) := by
  simp only [mem_waiting_take, Pending]
  grind

/-- A destruction runs what was pending when it began, in that order. -/
structure Traced (moments : List Moment) (origin : Nat → Nat) : Prop where
  after : ∀ {place start : Nat} {hook : Handler},
    moments[place]? = some (.runs start hook) → start < place
  sends : ∀ {place start hook}, moments[place]? = some (.runs start hook) →
    ∃ e, moments[start]? = some (.begins e) ∧
      (origin place, hook) ∈ waiting e (moments.take start)
  covers : ∀ {start e place hook}, moments[start]? = some (.begins e) →
    (place, hook) ∈ waiting e (moments.take start) →
    ∃ later, moments[later]? = some (.runs start hook) ∧ origin later = place
  mono : ∀ {place other start hook more},
    moments[place]? = some (.runs start hook) →
    moments[other]? = some (.runs start more) →
    place < other → origin place < origin other

private theorem exists_traced
    (labelled : ∀ {place start : Nat} {hook : Handler},
      moments[place]? = some (.runs start hook) →
        start < place ∧ ∃ e, moments[start]? = some (.begins e))
    (taken : ∀ {start : Nat} {e : EmitterId},
      moments[start]? = some (.begins e) →
      (runsOf start moments).map (·.2) =
        (waiting e (moments.take start)).map (·.2)) :
    ∃ origin, Traced moments origin := by
  have each (start : Nat) : ∃ origin, ∀ e,
      moments[start]? = some (.begins e) → Paired (runsOf start moments)
        (waiting e (moments.take start)) origin := by
    by_cases begun : ∃ e, moments[start]? = some (.begins e)
    · obtain ⟨e, found⟩ := begun
      obtain ⟨origin, paired⟩ := exists_paired (pairwise_runsOf start moments)
        (pairwise_waiting e _) (taken found)
      refine ⟨origin, fun other also => ?_⟩
      cases found.symm.trans also
      exact paired
    · exact ⟨id, fun e found => absurd ⟨e, found⟩ begun⟩
  choose origins paired using each
  let origin (place : Nat) : Nat :=
    ((moments[place]?.bind start?).map (origins · place)).getD place
  have origin_eq {place start : Nat} {hook : Handler}
      (found : moments[place]? = some (.runs start hook)) :
      origin place = origins start place := by
    simp [origin, found, start?]
  refine ⟨origin, fun found => (labelled found).1, fun {place start hook} found
    => ?_, fun {start e place hook} begun member => ?_,
    fun {place other start hook more} found also before => ?_⟩
  · obtain ⟨_, e, begun⟩ := labelled found
    rw [origin_eq found]
    exact ⟨e, begun, (paired start e begun).sends (mem_runsOf.mpr found)⟩
  · obtain ⟨later, among, same⟩ := (paired start e begun).covers member
    have there := mem_runsOf.mp among
    exact ⟨later, there, (origin_eq there).trans same⟩
  · obtain ⟨_, e, begun⟩ := labelled found
    rw [origin_eq found, origin_eq also]
    exact (paired start e begun).mono (mem_runsOf.mpr found)
      (mem_runsOf.mpr also) before

namespace Traced

variable {origin : Nat → Nat} (traced : Traced moments origin)

include traced

theorem earlier (found : moments[place]? = some (.runs start hook)) :
    origin place < start ∧ start < place ∧
      ∃ e, moments[start]? = some (.begins e) ∧
        moments[origin place]? = some (.registers e hook) := by
  obtain ⟨e, begun, member⟩ := traced.sends found
  obtain ⟨early, registered, _⟩ := mem_waiting_take.mp member
  exact ⟨early, traced.after found, e, begun, registered⟩

theorem pending (begun : moments[start]? = some (.begins e)) (place : Nat) :
    Pending moments e start place ↔
      ∃ later hook, moments[later]? = some (.runs start hook) ∧
        origin later = place := by
  rw [pending_iff]
  constructor
  · rintro ⟨hook, member⟩
    obtain ⟨later, there, found⟩ := traced.covers begun member
    exact ⟨later, hook, there, found⟩
  · rintro ⟨later, hook, there, rfl⟩
    obtain ⟨e', also, member⟩ := traced.sends there
    cases begun.symm.trans also
    exact ⟨hook, member⟩

theorem exists_run {k : Nat}
    (registered : moments[place]? = some (.registers e hook))
    (later : place < k) (begun : moments[k]? = some (.begins e)) :
    ∃ later start, moments[later]? = some (.runs start hook) ∧
      origin later = place := by
  have begins : ∃ k, place < k ∧ moments[k]? = some (.begins e) :=
    ⟨k, later, begun⟩
  obtain ⟨behind, first⟩ := Nat.find_spec begins
  have pends : Pending moments e (Nat.find begins) place :=
    ⟨behind, ⟨hook, registered⟩, fun j after before also =>
      Nat.find_min begins before ⟨after, also⟩⟩
  obtain ⟨turn, ran, there, rfl⟩ := (traced.pending first place).mp pends
  obtain ⟨_, _, _, _, again⟩ := traced.earlier there
  cases registered.symm.trans again
  exact ⟨turn, Nat.find begins, there, rfl⟩

/-- What one destruction has taken over is not pending for a later one. -/
theorem apart {other begun : Nat} {more : Handler}
    (found : moments[place]? = some (.runs start hook))
    (also : moments[other]? = some (.runs begun more))
    (before : start < begun) : origin place ≠ origin other := by
  intro same
  obtain ⟨e, first, waited⟩ := traced.sends found
  obtain ⟨e', _, waits⟩ := traced.sends also
  obtain ⟨early, registered, _⟩ := mem_waiting_take.mp waited
  obtain ⟨_, again, since⟩ := mem_waiting_take.mp waits
  rw [← same] at again since
  cases registered.symm.trans again
  exact since start early before first

theorem once {other begun : Nat} {more : Handler}
    (found : moments[place]? = some (.runs start hook))
    (also : moments[other]? = some (.runs begun more))
    (same : origin place = origin other) : place = other := by
  rcases Nat.lt_trichotomy start begun with before | rfl | before
  · exact absurd same (traced.apart found also before)
  · rcases Nat.lt_trichotomy place other with before | equal | before
    · exact absurd same (Nat.ne_of_lt (traced.mono found also before))
    · exact equal
    · exact absurd same (Nat.ne_of_gt (traced.mono also found before))
  · exact absurd same.symm (traced.apart also found before)

theorem order {other : Nat} {more : Handler}
    (found : moments[place]? = some (.runs start hook))
    (also : moments[other]? = some (.runs start more)) :
    place < other ↔ origin place < origin other := by
  refine ⟨traced.mono found also, fun before => ?_⟩
  rcases Nat.lt_trichotomy place other with after | rfl | after
  · exact after
  · exact absurd before (Nat.lt_irrefl _)
  · exact absurd before (Nat.lt_asymm (traced.mono also found after))

theorem settles : Settles moments origin where
  earlier := traced.earlier
  once := traced.once
  run := traced.exists_run
  pending := traced.pending
  order := traced.order

end Traced

/-- If each destruction has run what was pending when it began, then all that
was run can be told from the registrations. -/
theorem exists_settles
    (labelled : ∀ {place start : Nat} {hook : Handler},
      moments[place]? = some (.runs start hook) →
        start < place ∧ ∃ e, moments[start]? = some (.begins e))
    (taken : ∀ {start : Nat} {e : EmitterId},
      moments[start]? = some (.begins e) →
      (runsOf start moments).map (·.2) =
        (waiting e (moments.take start)).map (·.2)) :
    ∃ origin, Settles moments origin := by
  obtain ⟨origin, traced⟩ := exists_traced labelled taken
  exact ⟨origin, traced.settles⟩

end Moment

end LiveTemplate
