import Mathlib
import Znode.Lib.System

/-!
# The stop watch

A `StopWatch` records laps: a time point and the duration since the previous one. The start is recorded as a lap as
well.

* `Clock` : the readings of `TimeClock::now()`, which never go back;
* `StopWatch.start`, `lap`, `stop`, `reset`, `sinceStart` : the functions of the source, on a watch and the number of
  readings so far;
* `Recorded` : what holds of the laps after all calls. The durations are the differences of the time points, so their
  sum is that of the first and the last one (`laps_telescope`);
* `stopWatch_laps_iff` : the runs in which the time points never go back. A `start` after a `stop` records the time of
  the first start again;
* `sinceStart_eq_sum` : the time from the start to the last lap.

Time points are nanoseconds since the epoch of the clock; `TimePoint()` is the epoch itself.
-/

namespace Znode.Infra
open Znode.Lib

/-- A clock that never goes back: `now n` is what its reading number `n` gives. -/
structure Clock where
  now : Nat → Int
  monotone : Monotone now

structure Lap where
  timePoint : Int := 0
  duration : Int := 0
deriving DecidableEq, Repr

/-- A stop watch, and how often the clock has been read. -/
structure StopWatch where
  started : Bool := false
  startTime : Int := 0
  laps : List Lap := []
  readings : Nat := 0
deriving DecidableEq, Repr

namespace StopWatch

/-- `laps_.emplace_back(time, time - laps_.back().first)`; the first lap has the duration zero. -/
def record (w : StopWatch) (time : Int) : StopWatch :=
  { w with laps := w.laps ++ [⟨time, w.laps.getLast?.elim 0 fun back => time - back.timePoint⟩] }

section
variable (clock : Clock)

def lap (w : StopWatch) : Lap × StopWatch :=
  if !w.started || w.laps.isEmpty then ({}, w)
  else
    let recorded := { w with readings := w.readings + 1 }.record (clock.now w.readings)
    (recorded.laps.getLast?.getD {}, recorded)

def stop (w : StopWatch) : Lap × StopWatch :=
  if !w.started then ({}, w) else ((w.lap clock).1, { (w.lap clock).2 with started := false })

def reset (w : StopWatch) : StopWatch := { (w.stop clock).2 with startTime := 0, laps := [] }

/-- The start time is only set where there is none. -/
def setStartTime (w : StopWatch) : StopWatch :=
  if w.startTime = 0 then { w with startTime := clock.now w.readings, readings := w.readings + 1 } else w

def startAgain (w : StopWatch) : Int × StopWatch :=
  if w.started then (w.startTime, w)
  else
    let timed := { w with started := true }.setStartTime clock
    (timed.startTime, timed.record timed.startTime)

def start (w : StopWatch) (withReset : Bool := false) : Int × StopWatch :=
  if withReset then (w.reset clock).startAgain clock else w.startAgain clock

end

def sinceStart (w : StopWatch) (origin : Int) : Int := if w.startTime = 0 then 0 else origin - w.startTime

inductive Call where
  | start (withReset : Bool)
  | lap
  | stop
  | reset
deriving DecidableEq, Repr

def step (clock : Clock) (w : StopWatch) : Call → Option StopWatch
  | .start withReset => some (w.start clock withReset).2
  | .lap => some (w.lap clock).2
  | .stop => some (w.stop clock).2
  | .reset => some (w.reset clock)

end StopWatch

/-! ## The laps -/

namespace Lap

/-- What is meant to hold of the laps. -/
structure Right (laps : List Lap) : Prop where
  sorted : laps.Pairwise fun a b => a.timePoint ≤ b.timePoint
  nonneg : ∀ lap ∈ laps, 0 ≤ lap.duration
  difference : laps.IsChain fun a b => b.duration = b.timePoint - a.timePoint
  sum : ∀ first ∈ laps.head?, ∀ last ∈ laps.getLast?,
    (laps.map Lap.duration).sum = last.timePoint - first.timePoint

/-- The durations are the differences of the time points, and the first one is zero. -/
structure Linked (laps : List Lap) : Prop where
  difference : laps.IsChain fun a b => b.duration = b.timePoint - a.timePoint
  first : ∀ first ∈ laps.head?, first.duration = 0

def Ordered (laps : List Lap) : Prop := laps.IsChain fun a b => a.timePoint ≤ b.timePoint

variable {laps : List Lap}

/-- The durations after a lap add up to the time since then. -/
theorem sum_duration {a : Lap} (h : (a :: laps).IsChain fun a b => b.duration = b.timePoint - a.timePoint) :
    (laps.map duration).sum = ((a :: laps).getLast (List.cons_ne_nil a laps)).timePoint - a.timePoint := by
  induction laps generalizing a with
  | nil => simp
  | cons b laps ih =>
      obtain ⟨hb, hlaps⟩ := List.isChain_cons_cons.mp h
      rw [List.map_cons, List.sum_cons, ih hlaps, hb, List.getLast_cons (List.cons_ne_nil b laps)]
      omega

theorem Linked.sum (h : Linked laps) : ∀ first ∈ laps.head?, ∀ last ∈ laps.getLast?,
    (laps.map duration).sum = last.timePoint - first.timePoint := by
  intro first hfirst last hlast
  cases laps with
  | nil => cases hfirst
  | cons a laps =>
      have hzero := h.first first hfirst
      cases hfirst
      rw [List.getLast?_eq_some_getLast (List.cons_ne_nil first laps)] at hlast
      cases hlast
      rw [List.map_cons, List.sum_cons, hzero, sum_duration h.difference, Int.zero_add]

theorem duration_nonneg {a : Lap} (h : (a :: laps).IsChain fun a b => b.duration = b.timePoint - a.timePoint)
    (hordered : Ordered (a :: laps)) : ∀ lap ∈ laps, 0 ≤ lap.duration := by
  induction laps generalizing a with
  | nil => simp
  | cons b laps ih =>
      obtain ⟨hb, hlaps⟩ := List.isChain_cons_cons.mp h
      obtain ⟨hle, hrest⟩ := List.isChain_cons_cons.mp hordered
      refine List.forall_mem_cons.mpr ⟨?_, ih hlaps hrest⟩
      omega

/-- For such laps the order of the time points is all that is left to show. -/
theorem Linked.right_iff (h : Linked laps) : Right laps ↔ Ordered laps := by
  have htrans : IsTrans Lap fun a b => a.timePoint ≤ b.timePoint := ⟨fun _ _ _ => le_trans⟩
  constructor
  · intro hright
    exact hright.sorted.isChain
  · intro hordered
    refine ⟨List.isChain_iff_pairwise.mp hordered, ?_, h.difference, h.sum⟩
    cases laps with
    | nil => simp
    | cons a laps =>
        refine List.forall_mem_cons.mpr ⟨?_, duration_nonneg h.difference hordered⟩
        rw [h.first a rfl]

theorem Linked.append (h : Linked laps) (time : Int) :
    Linked (laps ++ [⟨time, laps.getLast?.elim 0 fun back => time - back.timePoint⟩]) := by
  constructor
  · refine List.isChain_append.mpr ⟨h.difference, List.isChain_singleton _, ?_⟩
    intro back hback next hnext
    cases hnext
    rw [Option.mem_def.mp hback]
    rfl
  · intro first hfirst
    cases laps with
    | nil =>
        cases hfirst
        rfl
    | cons a laps => exact h.first first hfirst

theorem ordered_append_iff {lap : Lap} : Ordered (laps ++ [lap]) ↔
    Ordered laps ∧ ∀ back ∈ laps.getLast?, back.timePoint ≤ lap.timePoint := by
  unfold Ordered
  rw [List.isChain_append]
  simp

end Lap

/-! ## The watch -/

namespace StopWatch
variable {clock : Clock} {w w' : StopWatch}

/-- What has been recorded was read before. -/
structure Past (clock : Clock) (w : StopWatch) : Prop where
  linked : Lap.Linked w.laps
  laps : ∀ lap ∈ w.laps, ∀ n, w.readings ≤ n → lap.timePoint ≤ clock.now n
  startTime : w.startTime ≠ 0 → ∀ n, w.readings ≤ n → w.startTime ≤ clock.now n

/-- After every call: the last lap is not before the start either. -/
structure Recorded (clock : Clock) (w : StopWatch) : Prop extends Past clock w where
  back : w.startTime ≠ 0 → ∀ back ∈ w.laps.getLast?, w.startTime ≤ back.timePoint

theorem recorded_new (clock : Clock) : Recorded clock {} := by
  refine ⟨⟨⟨List.isChain_nil, by simp⟩, by simp, fun h => absurd rfl h⟩, fun h => absurd rfl h⟩

theorem Past.record (h : Past clock w) {time : Int} (hread : ∀ n, w.readings ≤ n → time ≤ clock.now n)
    (hstart : w.startTime ≠ 0 → w.startTime ≤ time) : Recorded clock (w.record time) where
  linked := h.linked.append time
  laps := by
    intro lap hlap n hn
    rcases List.mem_append.mp hlap with hlap | hlap
    · exact h.laps lap hlap n hn
    · rw [List.mem_singleton.mp hlap]
      exact hread n hn
  startTime := h.startTime
  back := by
    intro hne back hback
    rw [StopWatch.record, List.getLast?_concat] at hback
    cases hback
    exact hstart hne

theorem Past.tick (h : Past clock w) : Past clock { w with readings := w.readings + 1 } where
  linked := h.linked
  laps := fun lap hlap n hn => h.laps lap hlap n (Nat.le_of_succ_le hn)
  startTime := fun hne n hn => h.startTime hne n (Nat.le_of_succ_le hn)

/-! ## The calls -/

/-- **The rule of the calls.** What holds after a reset, and is kept by a lap, a stop and a start that does not reset,
is kept by every call. -/
theorem step_rule {inv : StopWatch → Prop} (hreset : ∀ w : StopWatch, inv (w.reset clock))
    (hstart : ∀ w, inv w → inv (w.startAgain clock).2) (hlap : ∀ w, inv w → inv (w.lap clock).2)
    (hstop : ∀ w, inv w → inv (w.stop clock).2) (w : StopWatch) (c : Call) (w' : StopWatch) (h : inv w)
    (hstep : w.step clock c = some w') : inv w' := by
  cases c with
  | start withReset =>
      cases hstep
      unfold start
      split_ifs
      · exact hstart _ (hreset w)
      · exact hstart w h
  | lap =>
      cases hstep
      exact hlap w h
  | stop =>
      cases hstep
      exact hstop w h
  | reset =>
      cases hstep
      exact hreset w

theorem recorded_lap (h : Recorded clock w) : Recorded clock (w.lap clock).2 := by
  unfold lap
  split_ifs
  · exact h
  · apply h.toPast.tick.record
    · intro n hn
      exact clock.monotone (Nat.le_of_succ_le hn)
    · intro hne
      exact h.startTime hne w.readings le_rfl

theorem ordered_lap (h : Recorded clock w) (hordered : Lap.Ordered w.laps) : Lap.Ordered (w.lap clock).2.laps := by
  unfold lap
  split_ifs
  · exact hordered
  · refine Lap.ordered_append_iff.mpr ⟨hordered, ?_⟩
    intro back hback
    exact h.laps back (List.mem_of_getLast? hback) w.readings le_rfl

theorem recorded_stop (h : Recorded clock w) : Recorded clock (w.stop clock).2 := by
  unfold stop
  split_ifs
  · exact h
  · have hlap := recorded_lap h
    exact ⟨⟨hlap.linked, hlap.laps, hlap.startTime⟩, hlap.back⟩

theorem ordered_stop (h : Recorded clock w) (hordered : Lap.Ordered w.laps) : Lap.Ordered (w.stop clock).2.laps := by
  unfold stop
  split_ifs
  · exact hordered
  · exact ordered_lap h hordered

theorem recorded_reset (clock : Clock) (w : StopWatch) : Recorded clock (w.reset clock) := by
  refine ⟨⟨⟨List.isChain_nil, ?_⟩, ?_, fun h => absurd rfl h⟩, fun h => absurd rfl h⟩
  · simp [reset]
  · simp [reset]

theorem past_setStartTime (h : Past clock w) : Past clock (w.setStartTime clock) ∧
    ∀ n, (w.setStartTime clock).readings ≤ n → (w.setStartTime clock).startTime ≤ clock.now n := by
  unfold setStartTime
  split_ifs with hzero
  · have hread : ∀ n, w.readings + 1 ≤ n → clock.now w.readings ≤ clock.now n := fun n hn =>
      clock.monotone (Nat.le_of_succ_le hn)
    exact ⟨⟨h.linked, h.tick.laps, fun _ => hread⟩, hread⟩
  · exact ⟨h, h.startTime hzero⟩

theorem startAgain_of_started (h : w.started = true) : w.startAgain clock = (w.startTime, w) := if_pos h

theorem startAgain_of_stopped (h : w.started = false) : (w.startAgain clock).2 =
    ({ w with started := true }.setStartTime clock).record
      ({ w with started := true }.setStartTime clock).startTime := by
  rw [startAgain, if_neg (by simp [h])]

theorem recorded_startAgain (h : Recorded clock w) : Recorded clock (w.startAgain clock).2 := by
  cases hstarted : w.started with
  | true =>
      rw [startAgain_of_started hstarted]
      exact h
  | false =>
      have hpast : Past clock { w with started := true } := ⟨h.linked, h.laps, h.startTime⟩
      obtain ⟨htimed, hread⟩ := past_setStartTime hpast
      rw [startAgain_of_stopped hstarted]
      exact htimed.record hread fun _ => le_rfl

theorem recorded_step (w : StopWatch) (c : Call) (w' : StopWatch) (h : Recorded clock w)
    (hstep : w.step clock c = some w') : Recorded clock w' :=
  step_rule (recorded_reset clock) (fun _ => recorded_startAgain) (fun _ => recorded_lap) (fun _ => recorded_stop)
    w c w' h hstep

/-- A start without a reset, of a watch that was stopped, finds that the clock has not moved since its first start (or
that it was started at the epoch, which counts as no start). -/
def StartsInTime (w : StopWatch) (c : Call) : Prop :=
  c = .start false → w.started = false → w.startTime ≠ 0 → ∀ back ∈ w.laps.getLast?, back.timePoint = w.startTime

/-- The laps after a start of a watch that was stopped. -/
theorem ordered_startAgain_iff (h : Recorded clock w) (hordered : Lap.Ordered w.laps) (hstopped : w.started = false) :
    Lap.Ordered (w.startAgain clock).2.laps ↔
      (w.startTime ≠ 0 → ∀ back ∈ w.laps.getLast?, back.timePoint = w.startTime) := by
  have hlaps : ({ w with started := true }.setStartTime clock).laps = w.laps := by
    unfold setStartTime
    split_ifs <;> rfl
  rw [startAgain_of_stopped hstopped, record, hlaps, Lap.ordered_append_iff, and_iff_right hordered]
  unfold setStartTime
  split_ifs with hzero
  · -- the time of now
    refine iff_of_true (fun back hback => ?_) (fun hne => absurd hzero hne)
    exact h.laps back (List.mem_of_getLast? hback) w.readings le_rfl
  · -- the time of the first start
    rw [imp_iff_right hzero]
    refine forall₂_congr fun back hback => ?_
    have hle := h.back hzero back hback
    constructor
    · intro hge
      exact le_antisymm hge hle
    · intro heq
      exact heq.le

theorem ordered_start_reset (clock : Clock) (w : StopWatch) : Lap.Ordered (w.start clock true).2.laps := by
  have hstopped : (w.reset clock).started = false := by
    unfold reset stop
    split_ifs with hstarted
    · simpa using hstarted
    · rfl
  refine (ordered_startAgain_iff (recorded_reset clock w) List.isChain_nil hstopped).mpr ?_
  exact fun hne => absurd rfl hne

/-- **What one call does to the order of the laps.** -/
theorem startsInTime_iff (w : StopWatch) (c : Call) (h : Recorded clock w ∧ Lap.Ordered w.laps) :
    w.StartsInTime c ↔ ∀ w' ∈ w.step clock c, Recorded clock w' ∧ Lap.Ordered w'.laps := by
  have hordered : (∀ w' ∈ w.step clock c, Recorded clock w' ∧ Lap.Ordered w'.laps) ↔
      ∀ w' ∈ w.step clock c, Lap.Ordered w'.laps :=
    forall₂_congr fun w' hw' => and_iff_right (recorded_step w c w' h.1 hw')
  rw [hordered]
  cases c with
  | start withReset =>
      simp only [step, Option.mem_def, Option.some.injEq, forall_eq']
      cases withReset with
      | true => exact iff_of_true (fun heq => by cases heq) (ordered_start_reset clock w)
      | false =>
          rw [StartsInTime, imp_iff_right rfl]
          change _ ↔ Lap.Ordered (w.startAgain clock).2.laps
          cases hstarted : w.started with
          | true =>
              rw [startAgain_of_started hstarted]
              exact iff_of_true (fun heq => by cases heq) h.2
          | false => rw [ordered_startAgain_iff h.1 h.2 hstarted, imp_iff_right rfl]
  | lap =>
      refine iff_of_true (fun heq => by cases heq) fun w' hw' => ?_
      cases hw'
      exact ordered_lap h.1 h.2
  | stop =>
      refine iff_of_true (fun heq => by cases heq) fun w' hw' => ?_
      cases hw'
      exact ordered_stop h.1 h.2
  | reset =>
      refine iff_of_true (fun heq => by cases heq) fun w' hw' => ?_
      cases hw'
      exact List.isChain_nil

/-- In all runs the durations are the differences of the time points, and add up to the time between the first and the
last of them. -/
theorem laps_telescope {calls : List Call} (hrun : runSystem (step clock) {} calls = some w) :
    (w.laps.IsChain fun a b => b.duration = b.timePoint - a.timePoint) ∧
      ∀ first ∈ w.laps.head?, ∀ last ∈ w.laps.getLast?,
        (w.laps.map Lap.duration).sum = last.timePoint - first.timePoint := by
  have h := runSystem_keeps recorded_step (recorded_new clock) hrun
  exact ⟨h.linked.difference, h.linked.sum⟩

/-- **The laps are right** along a run exactly when every start without a reset, of a watch that was stopped, comes
before the clock has moved. -/
theorem stopWatch_laps_iff (clock : Clock) (calls : List Call) :
    (∀ n, ∀ w ∈ runSystem (step clock) {} (calls.take n), Lap.Right w.laps) ↔
      Throughout (step clock) StartsInTime {} calls := by
  have hgoal : ∀ w, Recorded clock w → (Lap.Right w.laps ↔ Recorded clock w ∧ Lap.Ordered w.laps) :=
    fun w h => h.linked.right_iff.trans (and_iff_right h).symm
  have hnew := recorded_new clock
  exact throughout_iff_goal recorded_step hgoal startsInTime_iff hnew ⟨hnew, List.isChain_nil⟩ calls

/-! ## The time since the start -/

/-- The first lap is that of the start. -/
def Anchored (w : StopWatch) : Prop := ∀ first ∈ w.laps.head?, first.timePoint = w.startTime ∧ w.startTime ≠ 0

theorem Anchored.record (h : w.Anchored) {time : Int} (hnew : w.laps = [] → time = w.startTime ∧ w.startTime ≠ 0) :
    (w.record time).Anchored := by
  unfold Anchored StopWatch.record
  intro first hfirst
  cases hlaps : w.laps with
  | nil =>
      rw [hlaps] at hfirst
      cases hfirst
      exact hnew hlaps
  | cons a laps =>
      rw [hlaps] at hfirst
      exact h first (by rw [hlaps]; exact hfirst)

theorem anchored_lap (h : w.Anchored) : (w.lap clock).2.Anchored := by
  unfold lap
  split_ifs with hnothing
  · exact h
  · rw [Bool.or_eq_true, not_or, List.isEmpty_iff] at hnothing
    exact Anchored.record h fun hnil => absurd hnil hnothing.2

theorem anchored_stop (h : w.Anchored) : (w.stop clock).2.Anchored := by
  unfold stop
  split_ifs
  · exact h
  · exact anchored_lap h

theorem anchored_reset (clock : Clock) (w : StopWatch) : (w.reset clock).Anchored := by simp [Anchored, reset]

/-- A clock that never shows the epoch gives a start time. -/
theorem anchored_startAgain (hclock : ∀ n, clock.now n ≠ 0) (h : w.Anchored) : (w.startAgain clock).2.Anchored := by
  cases hstarted : w.started with
  | true =>
      rw [startAgain_of_started hstarted]
      exact h
  | false =>
      rw [startAgain_of_stopped hstarted]
      unfold setStartTime
      split_ifs with hzero
      · -- without a start time there are no laps
        have hnil : w.laps = [] := by
          refine List.head?_eq_none_iff.mp (Option.eq_none_iff_forall_not_mem.mpr fun first hfirst => ?_)
          exact (h first hfirst).2 hzero
        refine Anchored.record ?_ fun _ => ⟨rfl, hclock _⟩
        simp [Anchored, hnil]
      · exact Anchored.record h fun _ => ⟨rfl, hzero⟩

/-- Up to the last lap, the time since the start is that of all laps together. -/
theorem sinceStart_eq_sum (hclock : ∀ n, clock.now n ≠ 0) {calls : List Call}
    (hrun : runSystem (step clock) {} calls = some w) :
    ∀ last ∈ w.laps.getLast?, w.sinceStart last.timePoint = (w.laps.map Lap.duration).sum := by
  intro last hlast
  have hstep := step_rule (anchored_reset clock) (fun _ => anchored_startAgain hclock) (fun _ => anchored_lap)
    (fun _ => anchored_stop)
  have hanchored : w.Anchored := runSystem_keeps hstep (fun _ h => by cases h) hrun
  obtain ⟨first, hfirst⟩ : ∃ first, w.laps.head? = some first := by
    refine Option.isSome_iff_exists.mp (List.isSome_head?.mpr ?_)
    exact List.ne_nil_of_mem (List.mem_of_getLast? hlast)
  obtain ⟨hstart, hne⟩ := hanchored first hfirst
  rw [(laps_telescope hrun).2 first hfirst last hlast, hstart, sinceStart, if_neg hne]

/-! ## Starting again -/

/-- A clock that moves by one between any two readings. -/
def steady : Clock := ⟨fun n => n + 1, fun m n h => by simpa using h⟩

/-- Started, stopped and started again: the last lap is that of the first start. -/
theorem stopWatch_goes_back : ∃ w, runSystem (step steady) {} [.start false, .stop, .start false] = some w ∧
    w.laps = [⟨1, 0⟩, ⟨2, 1⟩, ⟨1, -1⟩] ∧ ¬ Lap.Right w.laps := by
  refine ⟨_, rfl, rfl, fun h => ?_⟩
  exact absurd (h.nonneg ⟨1, -1⟩ (by decide)) (by decide)

end StopWatch

end Znode.Infra
