import Mathlib
import Znode.Lib.System
import Znode.Node.Peer

/-!
# The statistics of the ping meter

`TimedPingMeter` is the ping meter with its clock and its statistics; `Peer` has it without them
(`toPingMeter_startSample`, `endSample_eq_some`). The moving average is computed in floating point and enters as an
arbitrary function of the sample and the average so far.

* `PingStats.record` : what a sample does to the statistics. An average of zero is taken for a meter that has no samples
  yet, and so starts the minimum and the maximum anew;
* `recent` : the samples since that happened last;
* `extrema_recent` : the meter holds the minimum and the maximum of these;
* `ping_statistics_iff` : the runs after which they are those of all samples.
-/

namespace Znode.Node
open Znode.Lib

/-- The average, the minimum and the maximum of the durations, in milliseconds. -/
structure PingStats where
  ema : Int := 0
  min : Int := 0
  max : Int := 0
deriving DecidableEq, Repr

section
variable (average : Int → Int → Int)

/-- The end of `end_sample`, for a duration that is not negative. -/
def PingStats.record (s : PingStats) (duration : Int) : PingStats :=
  if s.ema = 0 then { ema := duration, min := duration, max := duration }
  else
    { ema := average duration s.ema
      min := if duration < s.min then duration else s.min
      max := if duration > s.max then duration else s.max }

/-- The samples since the last one that met an average of zero. -/
def recent : PingStats → List Int → List Int → List Int
  | _, samples, [] => samples
  | s, samples, d :: durations =>
    recent (s.record average d) (if s.ema = 0 then [d] else samples ++ [d]) durations

/-- `PingMeter`; times are in nanoseconds. -/
structure TimedPingMeter extends PingMeter where
  pingStart : Int := 0
  stats : PingStats := {}
deriving DecidableEq, Repr

namespace TimedPingMeter

def startSample (m : TimedPingMeter) (now : Int) : TimedPingMeter :=
  if m.pingInProgress then m else { m with pingStart := now, pingInProgress := true }

def setNonce (m : TimedPingMeter) (nonce : UInt64) : TimedPingMeter :=
  { m with toPingMeter := m.toPingMeter.setNonce nonce }

/-- `duration_cast<milliseconds>`. -/
def milliseconds (nanoseconds : Int) : Int := nanoseconds.tdiv 1000000

/-- `steady_clock::time_point::min()`. -/
def timePointMin : Int := -2 ^ 63

/-- `end_sample`. The clock is read at its start and again for the duration; a failed `ASSERT` ends the program. -/
def endSample (m : TimedPingMeter) (timeNow now : Int) : Option TimedPingMeter :=
  if !m.pingInProgress then some m
  else if timeNow ≥ m.pingStart then
    let duration := milliseconds (now - m.pingStart)
    let m := { m with pingInProgress := false, pingStart := timePointMin, pingNonce := none }
    if duration < 0 then some m
    else some { m with stats := m.stats.record average duration }
  else none

theorem toPingMeter_startSample (m : TimedPingMeter) (now : Int) :
    (m.startSample now).toPingMeter = m.toPingMeter.startSample := by
  rw [startSample, PingMeter.startSample]
  split_ifs with h
  · rw [← h]
  · rfl

/-- The duration that an `end_sample` adds to the statistics, if it adds one. -/
def sample (m : TimedPingMeter) (now : Int) : Option Int :=
  if m.pingInProgress ∧ 0 ≤ milliseconds (now - m.pingStart) then some (milliseconds (now - m.pingStart)) else none

variable {average} {m m' : TimedPingMeter} {timeNow now : Int}

theorem endSample_eq_some (h : m.endSample average timeNow now = some m') :
    m'.toPingMeter = m.toPingMeter.endSample ∧
      m'.stats = (m.sample now).toList.foldl (PingStats.record average) m.stats := by
  unfold endSample at h
  unfold PingMeter.endSample sample
  cases hprogress : m.pingInProgress with
  | false =>
      obtain rfl : m = m' := by simpa [hprogress] using h
      simp
  | true =>
      simp only [hprogress, Bool.not_true, Bool.false_eq_true, if_false] at h
      split_ifs at h with hstart hduration
      · obtain rfl := Option.some.inj h
        simp [hduration.not_ge]
      · obtain rfl := Option.some.inj h
        simp [not_lt.mp hduration]

end TimedPingMeter

inductive MeterEvent where
  | startSample (now : Int)
  | setNonce (nonce : UInt64)
  | endSample (timeNow now : Int)
deriving DecidableEq, Repr

/-- A run of the meter, with the durations of the samples it completed. -/
structure MeterRun where
  meter : TimedPingMeter := {}
  durations : List Int := []
deriving DecidableEq, Repr

def MeterRun.step (r : MeterRun) : MeterEvent → Option MeterRun
  | .startSample now => some { r with meter := r.meter.startSample now }
  | .setNonce nonce => some { r with meter := r.meter.setNonce nonce }
  | .endSample timeNow now => (r.meter.endSample average timeNow now).map fun m =>
      { meter := m, durations := r.durations ++ (r.meter.sample now).toList }

variable {average}

theorem MeterRun.stats_step {r r' : MeterRun} {e : MeterEvent}
    (hr : r.meter.stats = r.durations.foldl (PingStats.record average) {}) (h : r.step average e = some r') :
    r'.meter.stats = r'.durations.foldl (PingStats.record average) {} := by
  cases e with
  | startSample now =>
      cases h
      rw [← hr]
      exact apply_ite TimedPingMeter.stats _ _ _ |>.trans (ite_self _)
  | setNonce nonce =>
      cases h
      exact hr
  | endSample timeNow now =>
      obtain ⟨m, hm, rfl⟩ := Option.map_eq_some_iff.mp h
      rw [List.foldl_append, ← hr]
      exact (TimedPingMeter.endSample_eq_some hm).2

theorem MeterRun.stats_eq {events : List MeterEvent} {r : MeterRun}
    (h : runSystem (MeterRun.step average) {} events = some r) :
    r.meter.stats = r.durations.foldl (PingStats.record average) {} :=
  runSystem_keeps (fun _ _ _ => stats_step) rfl h

/-! ## The recent samples -/

/-- The minimum and the maximum are those of the samples. -/
def PingStats.Extrema (s : PingStats) (samples : List Int) : Prop :=
  IsLeast { d | d ∈ samples } s.min ∧ IsGreatest { d | d ∈ samples } s.max

theorem extrema_record {s : PingStats} {samples : List Int} (h : s.ema ≠ 0 → s.Extrema samples) (d : Int) :
    (s.record average d).Extrema (if s.ema = 0 then [d] else samples ++ [d]) := by
  rw [PingStats.record]
  by_cases hema : s.ema = 0
  · rw [if_pos hema, if_pos hema]
    simp [PingStats.Extrema]
  · rw [if_neg hema, if_neg hema]
    obtain ⟨hmin, hmax⟩ := h hema
    have hset : { x | x ∈ samples ++ [d] } = insert d { x | x ∈ samples } := by
      ext x
      simp [or_comm]
    have hlower : (if d < s.min then d else s.min) = min d s.min := (min_def_lt d s.min).symm
    have hupper : (if d > s.max then d else s.max) = max d s.max := (max_def_lt s.max d).symm.trans (max_comm _ _)
    rw [PingStats.Extrema, hset, hlower, hupper]
    exact ⟨hmin.insert d, hmax.insert d⟩

theorem extrema_foldl {s : PingStats} {samples : List Int} (h : s.Extrema samples) (durations : List Int) :
    (durations.foldl (PingStats.record average) s).Extrema (recent average s samples durations) := by
  induction durations generalizing s samples with
  | nil => exact h
  | cons d durations ih => exact ih (extrema_record (fun _ => h) d)

theorem extrema_recent {durations : List Int} (h : durations ≠ []) :
    (durations.foldl (PingStats.record average) {}).Extrema (recent average {} [] durations) := by
  obtain ⟨d, durations, rfl⟩ := List.exists_cons_of_ne_nil h
  exact extrema_foldl (extrema_record (fun h => absurd rfl h) d) durations

theorem mem_of_mem_recent {s : PingStats} {samples durations : List Int} {x : Int}
    (h : x ∈ recent average s samples durations) : x ∈ samples ∨ x ∈ durations := by
  induction durations generalizing s samples with
  | nil => exact .inl h
  | cons d durations ih =>
      rcases ih h with hx | hx
      · split_ifs at hx
        · exact .inr (List.mem_cons.mpr (.inl (List.mem_singleton.mp hx)))
        · exact (List.mem_append.mp hx).imp_right fun hx => List.mem_cons.mpr (.inl (List.mem_singleton.mp hx))
      · exact .inr (List.mem_cons_of_mem d hx)

/-- The minimum and the maximum of the recent samples are those of all samples when none of the others lies outside of
their range. -/
theorem extrema_iff_recent {s : PingStats} {samples durations : List Int} (h : s.Extrema samples)
    (hsub : ∀ x ∈ samples, x ∈ durations) :
    s.Extrema durations ↔ ∀ d ∈ durations, (∃ lo ∈ samples, lo ≤ d) ∧ ∃ hi ∈ samples, d ≤ hi := by
  obtain ⟨⟨hmin, hlower⟩, hmax, hupper⟩ := h
  constructor
  · rintro ⟨hleast, hgreatest⟩ d hd
    exact ⟨⟨s.min, hmin, hleast.2 hd⟩, s.max, hmax, hgreatest.2 hd⟩
  · intro hrange
    refine ⟨⟨hsub _ hmin, fun d hd => ?_⟩, hsub _ hmax, fun d hd => ?_⟩
    · obtain ⟨⟨lo, hlo, hle⟩, -⟩ := hrange d hd
      exact (hlower hlo).trans hle
    · obtain ⟨-, hi, hhi, hle⟩ := hrange d hd
      exact hle.trans (hupper hhi)

/-- **Ping statistics.** After a run that completed a sample the meter holds the minimum and the maximum of all samples
exactly when those since the last restart span the range of all. -/
theorem ping_statistics_iff (average : Int → Int → Int) (events : List MeterEvent) (r : MeterRun)
    (hrun : runSystem (MeterRun.step average) {} events = some r) (hsamples : r.durations ≠ []) :
    r.meter.stats.Extrema r.durations ↔
      ∀ d ∈ r.durations,
        (∃ lo ∈ recent average {} [] r.durations, lo ≤ d) ∧ ∃ hi ∈ recent average {} [] r.durations, d ≤ hi := by
  rw [MeterRun.stats_eq hrun]
  refine extrema_iff_recent (extrema_recent hsamples) fun x hx => ?_
  exact (mem_of_mem_recent hx).resolve_left List.not_mem_nil

/-- Two samples of 3 and 2 ms. -/
theorem ping_statistics_two_samples :
    (PingStats.record (fun _ ema => ema) (PingStats.record (fun _ ema => ema) {} 3) 2).Extrema [3, 2] :=
  (ping_statistics_iff (fun _ ema => ema)
    [.startSample 0, .endSample 3000000 3000000, .startSample 4000000, .endSample 6000000 6000000] _ rfl
    (by decide)).mpr (by decide)

/-- A sample of 0 ms leaves an average of zero. The next one, of 5 ms, is taken for the first, and the minimum is
lost. -/
theorem ping_minimum_lost :
    ∃ r, runSystem (MeterRun.step fun d ema => (13 * d + 7 * ema) / 20) {}
        [.startSample 0, .endSample 10 10, .startSample 1000000, .endSample 6000000 6000000] = some r ∧
      r.durations = [0, 5] ∧ r.meter.stats.min = 5 ∧ ¬ r.meter.stats.Extrema r.durations := by
  refine ⟨_, rfl, rfl, rfl, fun h => ?_⟩
  have hle : (5 : Int) ≤ 0 := h.1.2 (List.mem_cons_self : (0 : Int) ∈ [0, 5])
  exact absurd hle (by decide)

end

end Znode.Node
