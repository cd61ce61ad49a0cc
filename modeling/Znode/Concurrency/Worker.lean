import Mathlib
import Znode.Lib.System
import Znode.Concurrency.Timer

/-!
# Workers

A `Worker` runs `work` in a thread of its own, which waits for kicks. The thread ends with three statements after
`work`: `set_stopped`, which allows the next start, and then two stores to members that the next start uses as well.

* `Worker.step` : one atomic access of one of the threads. There are the threads of all starts so far, a controller in
  `start` or `stop`, and others that kick. A wait for the condition variable may end at any time;
* `worker_runs_safe` : in every run at most one thread is in `work`, and the status tells whether there is one; `work`
  is not woken more often than it was kicked;
* `worker_orderly` : in the runs in which the controller calls `stop` between two starts, no kick is lost, the worker
  has the id of its thread, and nothing is left to be done after `stop`;
* `kick_lost` : without that, the thread of the last start can take away a kick for the next one.

Only one thread at a time is in `start` or `stop`: the member `thread_` is not guarded. `stop` is not called by the
worker itself, where it fails an assertion. A `boost::thread` that is destroyed while it can be joined is detached,
which is what the library does unless it is configured otherwise.
-/

namespace Znode.Concurrency
open Znode.Lib

namespace Worker

inductive Phase where
  /-- It stores its id. -/
  | starting
  /-- It is in `work`, outside of `wait_for_kick`. -/
  | working
  /-- It tries to take the kick. -/
  | trying
  /-- It waits, or yields. -/
  | pausing
  /-- It asks whether the worker is running. -/
  | checking
  /-- `set_stopped()`. -/
  | ended
  /-- `kicked_.exchange(false)`. -/
  | clearing
  /-- `id_.store(0)`. -/
  | forgetting
  | finished
deriving DecidableEq, Repr

namespace Phase

def inWork : Phase → Bool
  | working | trying | pausing | checking => true
  | _ => false

/-- Before `set_stopped`. -/
def active : Phase → Bool
  | starting | ended => true
  | phase => phase.inWork

end Phase

inductive Controller where
  | idle
  -- in `start`, after the status has been set
  | clearException
  | clearKicked
  | clearId
  | spawn
  -- in `stop`, after the status has been read
  | requestStop
  | kick
  | join
deriving DecidableEq, Repr

def Controller.starting : Controller → Bool
  | clearException | clearKicked | clearId | spawn => true
  | _ => false

inductive Ending where
  | returned
  /-- With a `std::exception`, which is kept. -/
  | exception
  | otherException
deriving DecidableEq, Repr

end Worker

/-- `Worker`, with all its threads. The `i`-th one has the id `i + 1`. -/
structure Worker where
  state : ComponentStatus := .kNotStarted
  kicked : Bool := false
  id : Nat := 0
  /-- `exception_ptr_`, by the thread it comes from. -/
  exceptionPtr : Option Nat := none
  /-- `thread_`. -/
  thread : Option Nat := none
  threads : Nat → Worker.Phase := fun _ => .finished
  count : Nat := 0
  controller : Worker.Controller := .idle
  /-- For the statements: the number of kicks, and of those `wait_for_kick` has returned true for. -/
  kicks : Nat := 0
  served : Nat := 0
  /-- For the statements: there has been a kick since `start` has cleared them and the last one was taken. -/
  pending : Bool := false

namespace Worker

inductive Event where
  /-- `start` and `stop` begin. -/
  | start
  | stop
  /-- The next access of the controller. -/
  | control
  /-- `kick`, by any thread. -/
  | kick
  /-- `work` calls `wait_for_kick`. -/
  | wait (i : Nat)
  | leave (i : Nat) (ending : Ending)
  /-- The next access of a thread. -/
  | advance (i : Nat)
deriving DecidableEq, Repr

variable (w : Worker)

def set (i : Nat) (phase : Phase) : Worker := { w with threads := fun j => if j = i then phase else w.threads j }

def kickOnce : Worker := { w with kicked := true, pending := true, kicks := w.kicks + 1 }

def control : Option Worker :=
  match w.controller with
  | .idle => none
  | .clearException => some { w with exceptionPtr := none, controller := .clearKicked }
  | .clearKicked => some { w with kicked := false, pending := false, controller := .clearId }
  | .clearId => some { w with id := 0, controller := .spawn }
  | .spawn => some { w.set w.count .starting with
      thread := some w.count, count := w.count + 1, controller := .idle }
  | .requestStop => some { w with
      state := w.state.stop.2, controller := if w.state.stop.1 then .kick else .join }
  | .kick => some { w.kickOnce with controller := .join }
  | .join => w.thread.elim (some { w with controller := .idle }) fun i =>
      if w.threads i = .finished then some { w with thread := none, controller := .idle } else none

def advance (i : Nat) : Option Worker :=
  match w.threads i with
  | .starting => some { w.set i .working with id := i + 1 }
  | .trying =>
    -- `compare_exchange_strong`
    if w.kicked then some { w.set i .working with kicked := false, pending := false, served := w.served + 1 }
    else some (w.set i .pausing)
  | .pausing => some (w.set i .checking)
  | .checking => some (w.set i (if w.state = .kStarted then .trying else .working))
  | .ended => some { w.set i .clearing with state := .kNotStarted }
  | .clearing => some { w.set i .forgetting with kicked := false }
  | .forgetting => some { w.set i .finished with id := 0 }
  | .working => none
  | .finished => none

def step : Event → Option Worker
  | .start =>
    if w.controller = .idle then
      some { w with
        state := w.state.start.2, controller := if w.state.start.1 then .clearException else .idle }
    else none
  | .stop =>
    if w.controller = .idle then
      some { w with controller := if w.state = .kNotStarted then .join else .requestStop }
    else none
  | .control => w.control
  | .kick => some w.kickOnce
  | .wait i => if w.threads i = .working then some (w.set i .trying) else none
  | .leave i ending =>
    if w.threads i = .working then
      some { w.set i .ended with exceptionPtr := if ending = .exception then some i else w.exceptionPtr }
    else none
  | .advance i => w.advance i

/-! ## Every run -/

variable {w}

structure Sound (w : Worker) : Prop where
  /-- Only the last thread is before `set_stopped`. -/
  last : ∀ i, (w.threads i).active → i + 1 = w.count
  /-- It and a start that is under way keep the status from `kNotStarted`, and exclude each other. -/
  running : ∀ i, (w.threads i).active → w.state ≠ .kNotStarted ∧ w.controller.starting = false
  starting : w.controller.starting → w.state ≠ .kNotStarted
  /-- Something keeps the status from it. -/
  status : w.state ≠ .kNotStarted → w.controller.starting = false → ∃ i, (w.threads i).active
  /-- The exception is one of the last thread, which has left `work`. -/
  exception : ∀ i, w.exceptionPtr = some i → i + 1 = w.count ∧ (w.threads i).inWork = false ∧ w.threads i ≠ .starting
  noException : w.controller.starting → w.controller = .clearException ∨ w.exceptionPtr = none
  served : w.served + w.kicked.toNat ≤ w.kicks

theorem sound_new : Sound {} where
  last := by simp [Phase.active, Phase.inWork]
  running := by simp [Phase.active, Phase.inWork]
  starting := by simp [Controller.starting]
  status := by simp
  exception := by simp
  noException := by simp [Controller.starting]
  served := by simp

variable {w' : Worker} {i : Nat} {phase : Phase}

theorem Phase.active_of_inWork (h : phase.inWork) : phase.active := by
  cases phase <;> first | rfl | cases h

theorem threads_set (w : Worker) (i j : Nat) (phase : Phase) :
    (w.set i phase).threads j = if j = i then phase else w.threads j := rfl

theorem Sound.move (h : w.Sound) (hi : (w.threads i).inWork ∨ w.threads i = .starting) (hphase : phase.inWork)
    (id served : Nat) (kicked pending : Bool) (hserved : served + kicked.toNat ≤ w.kicks) :
    Sound { w.set i phase with id := id, served := served, kicked := kicked, pending := pending } := by
  have hactive : (w.threads i).active := by
    rcases hi with hi | hi
    · exact Phase.active_of_inWork hi
    · rw [hi]
      rfl
  have hthreads : ∀ j, ((w.set i phase).threads j).active → (w.threads j).active := by
    intro j hj
    rw [threads_set] at hj
    split_ifs at hj with hij
    · exact hij ▸ hactive
    · exact hj
  refine ⟨fun j hj => h.last j (hthreads j hj), fun j hj => h.running j (hthreads j hj), h.starting, ?_, ?_,
    h.noException, hserved⟩
  · intro _ _
    refine ⟨i, ?_⟩
    change ((w.set i phase).threads i).active
    rw [threads_set, if_pos rfl]
    exact Phase.active_of_inWork hphase
  · -- the exception is not one of a thread in `work`
    intro j hj
    have hother := h.exception j hj
    have hij : j ≠ i := by
      rintro rfl
      rcases hi with hi | hi
      · exact absurd hi (by simp [hother.2.1])
      · exact hother.2.2 hi
    change _ ∧ ((w.set i phase).threads j).inWork = false ∧ (w.set i phase).threads j ≠ .starting
    rw [threads_set, if_neg hij]
    exact hother

theorem Sound.pass (h : w.Sound) (hi : (w.threads i).active = false) (hphase : phase.active = false) (id : Nat)
    (kicked : Bool) (hserved : w.served + kicked.toNat ≤ w.kicks) :
    Sound { w.set i phase with id := id, kicked := kicked } := by
  have hthreads : ∀ j, ((w.set i phase).threads j).active ↔ (w.threads j).active := by
    intro j
    rw [threads_set]
    split_ifs with hij
    · subst hij
      simp [hi, hphase]
    · rfl
  have hkind : phase.inWork = false ∧ phase ≠ .starting := by
    cases phase <;> first | exact ⟨rfl, by decide⟩ | cases hphase
  refine ⟨fun j hj => h.last j ((hthreads j).mp hj), fun j hj => h.running j ((hthreads j).mp hj), h.starting, ?_, ?_,
    h.noException, hserved⟩
  · intro hstate hstarting
    obtain ⟨j, hj⟩ := h.status hstate hstarting
    exact ⟨j, (hthreads j).mpr hj⟩
  · intro j hj
    have hother := h.exception j hj
    change _ ∧ ((w.set i phase).threads j).inWork = false ∧ (w.set i phase).threads j ≠ .starting
    rw [threads_set]
    split_ifs
    · exact ⟨hother.1, hkind⟩
    · exact hother

theorem Sound.leave (h : w.Sound) (hi : w.threads i = .working) (ending : Ending) :
    Sound { w.set i .ended with exceptionPtr := if ending = .exception then some i else w.exceptionPtr } := by
  have hactive : (w.threads i).active := by
    rw [hi]
    rfl
  have hthreads : ∀ j, ((w.set i .ended).threads j).active → (w.threads j).active := by
    intro j hj
    rw [threads_set] at hj
    split_ifs at hj with hij
    · exact hij ▸ hactive
    · exact hj
  have hrunning := h.running i hactive
  refine ⟨fun j hj => h.last j (hthreads j hj), fun j hj => h.running j (hthreads j hj), h.starting, ?_, ?_, ?_,
    h.served⟩
  · intro _ _
    refine ⟨i, ?_⟩
    change ((w.set i .ended).threads i).active
    rw [threads_set, if_pos rfl]
    rfl
  · intro j hj
    change j + 1 = w.count ∧ ((w.set i .ended).threads j).inWork = false ∧ (w.set i .ended).threads j ≠ .starting
    rw [threads_set]
    by_cases hij : j = i
    · subst hij
      rw [if_pos rfl]
      exact ⟨h.last j hactive, rfl, by decide⟩
    · change (if ending = .exception then some i else w.exceptionPtr) = some j at hj
      rw [if_neg hij]
      split_ifs at hj
      · exact absurd (Option.some.inj hj).symm hij
      · exact h.exception j hj
  · intro hstarting
    rw [show w.controller.starting = true from hstarting] at hrunning
    cases hrunning.2

/-- `set_stopped`: there is no other thread before it. -/
theorem Sound.setStopped (h : w.Sound) (hi : w.threads i = .ended) :
    Sound { w.set i .clearing with state := .kNotStarted } := by
  have hactive : (w.threads i).active := by
    rw [hi]
    rfl
  have hnone : ∀ j, ¬ ((w.set i .clearing).threads j).active := by
    intro j hj
    rw [threads_set] at hj
    split_ifs at hj with hij
    · cases hj
    · exact hij (Nat.succ_injective ((h.last j hj).trans (h.last i hactive).symm))
  have hrunning := h.running i hactive
  refine ⟨fun j hj => absurd hj (hnone j), fun j hj => absurd hj (hnone j), ?_, fun hstate => absurd rfl hstate, ?_,
    h.noException, h.served⟩
  · intro hstarting
    rw [show w.controller.starting = true from hstarting] at hrunning
    cases hrunning.2
  · intro j hj
    have hother := h.exception j hj
    change _ ∧ ((w.set i .clearing).threads j).inWork = false ∧ (w.set i .clearing).threads j ≠ .starting
    rw [threads_set]
    split_ifs
    · exact ⟨hother.1, rfl, by decide⟩
    · exact hother

theorem Sound.advance (h : w.Sound) (hstep : w.advance i = some w') : w'.Sound := by
  unfold Worker.advance at hstep
  split at hstep
  case h_1 hi =>
      cases hstep
      exact h.move (Or.inr hi) rfl (i + 1) w.served w.kicked w.pending h.served
  case h_2 hi =>
      have hin : (w.threads i).inWork := by
        rw [hi]
        rfl
      have hserved := h.served
      split_ifs at hstep with hkicked
      · cases hstep
        rw [hkicked] at hserved
        exact h.move (Or.inl hin) rfl w.id (w.served + 1) false false hserved
      · cases hstep
        exact h.move (Or.inl hin) rfl w.id w.served w.kicked w.pending hserved
  case h_3 hi =>
      cases hstep
      exact h.move (Or.inl (by rw [hi]; rfl)) rfl w.id w.served w.kicked w.pending h.served
  case h_4 hi =>
      cases hstep
      exact h.move (Or.inl (by rw [hi]; rfl)) (by split_ifs <;> rfl) w.id w.served w.kicked w.pending h.served
  case h_5 hi =>
      cases hstep
      exact h.setStopped hi
  case h_6 hi =>
      cases hstep
      exact h.pass (by rw [hi]; rfl) rfl w.id false (Nat.le_trans (Nat.le_add_right ..) h.served)
  case h_7 hi =>
      cases hstep
      exact h.pass (by rw [hi]; rfl) rfl 0 w.kicked h.served
  case h_8 => cases hstep
  case h_9 => cases hstep

/-- While a start is under way, no thread is before `set_stopped`. -/
theorem Sound.not_active (h : w.Sound) (hstarting : w.controller.starting) (j : Nat) : ¬ (w.threads j).active := by
  intro hj
  have hno := (h.running j hj).2
  rw [hstarting] at hno
  cases hno

theorem Sound.spawn (h : w.Sound) (hspawn : w.controller = .spawn) :
    Sound { w.set w.count .starting with thread := some w.count, count := w.count + 1, controller := .idle } := by
  have hstarting : w.controller.starting := by
    rw [hspawn]
    rfl
  have hthreads : ∀ j, ((w.set w.count .starting).threads j).active → j = w.count := by
    intro j hj
    rw [threads_set] at hj
    split_ifs at hj with hij
    · exact hij
    · exact absurd hj (h.not_active hstarting j)
  refine ⟨fun j hj => congrArg Nat.succ (hthreads j hj), fun j _ => ⟨h.starting hstarting, rfl⟩, ?_, ?_, ?_, ?_,
    h.served⟩
  · intro hidle
    cases hidle
  · intro _ _
    refine ⟨w.count, ?_⟩
    change ((w.set w.count .starting).threads w.count).active
    rw [threads_set, if_pos rfl]
    rfl
  · intro j hj
    have hnone := (h.noException hstarting).resolve_left (by simp [hspawn])
    rw [show w.exceptionPtr = some j from hj] at hnone
    cases hnone
  · intro hidle
    cases hidle

theorem Sound.pace (h : w.Sound) {controller : Controller} (hsame : controller.starting = w.controller.starting)
    {exceptionPtr : Option Nat} (hexception : exceptionPtr = none ∨ exceptionPtr = w.exceptionPtr)
    (hno : controller.starting → controller = .clearException ∨ exceptionPtr = none) (thread : Option Nat)
    (id kicks : Nat) (kicked pending : Bool) (hserved : w.served + kicked.toNat ≤ kicks) :
    Sound { w with
      controller := controller, exceptionPtr := exceptionPtr, thread := thread, id := id, kicks := kicks,
      kicked := kicked, pending := pending } := by
  refine ⟨h.last, fun j hj => ⟨(h.running j hj).1, hsame.trans (h.running j hj).2⟩, fun hs => h.starting (hsame ▸ hs),
    fun hstate hs => h.status hstate (hsame ▸ hs), ?_, hno, hserved⟩
  intro j hj
  rcases hexception with rfl | rfl
  · cases hj
  · exact h.exception j hj

theorem Sound.kick (h : w.Sound) : w.served + true.toNat ≤ w.kicks + 1 :=
  Nat.add_le_add_right (Nat.le_trans (Nat.le_add_right ..) h.served) 1

theorem Sound.control (h : w.Sound) (hstep : w.control = some w') : w'.Sound := by
  have hserved := h.served
  unfold Worker.control at hstep
  split at hstep
  case h_1 => cases hstep
  case h_2 hc =>
      cases hstep
      exact h.pace (by rw [hc]; rfl) (Or.inl rfl) (fun _ => Or.inr rfl) w.thread w.id w.kicks w.kicked w.pending hserved
  case h_3 hc =>
      have hnone := (h.noException (by rw [hc]; rfl)).resolve_left (by simp [hc])
      cases hstep
      exact h.pace (by rw [hc]; rfl) (Or.inr rfl) (fun _ => Or.inr hnone) w.thread w.id w.kicks false false
        (Nat.le_trans (Nat.le_add_right ..) hserved)
  case h_4 hc =>
      have hnone := (h.noException (by rw [hc]; rfl)).resolve_left (by simp [hc])
      cases hstep
      exact h.pace (by rw [hc]; rfl) (Or.inr rfl) (fun _ => Or.inr hnone) w.thread 0 w.kicks w.kicked w.pending hserved
  case h_5 hc =>
      cases hstep
      exact h.spawn hc
  case h_6 hc =>
      cases hstep
      have hstop : w.state.stop.2 = .kNotStarted ↔ w.state = .kNotStarted := by
        cases w.state <;> decide
      have hidle : (if w.state.stop.1 then Controller.kick else Controller.join).starting = false := by
        split_ifs <;> rfl
      refine ⟨h.last, fun j hj => ⟨mt hstop.mp (h.running j hj).1, hidle⟩, fun hs => ?_,
        fun hstate _ => h.status (mt hstop.mpr hstate) (by rw [hc]; rfl), h.exception, fun hs => ?_, hserved⟩
      · exact absurd hs (by simp [hidle])
      · exact absurd hs (by simp [hidle])
  case h_7 hc =>
      cases hstep
      exact h.pace (by rw [hc]; rfl) (Or.inr rfl) (fun hs => absurd hs (by decide)) w.thread w.id (w.kicks + 1)
        true true h.kick
  case h_8 hc =>
      cases hthread : w.thread with
      | none =>
          rw [hthread] at hstep
          cases hstep
          exact h.pace (by rw [hc]; rfl) (Or.inr rfl) (fun hs => absurd hs (by decide))
            none w.id w.kicks w.kicked w.pending hserved
      | some i =>
          rw [hthread, Option.elim_some] at hstep
          split_ifs at hstep
          cases hstep
          exact h.pace (by rw [hc]; rfl) (Or.inr rfl) (fun hs => absurd hs (by decide))
            none w.id w.kicks w.kicked w.pending hserved

theorem Sound.request (h : w.Sound) (hstate : w.state = .kNotStarted) :
    Sound { w with state := w.state.start.2, controller := if w.state.start.1 then .clearException else .idle } := by
  have hnone : ∀ j, ¬ (w.threads j).active := fun j hj => (h.running j hj).1 hstate
  rw [hstate]
  refine ⟨fun j hj => absurd hj (hnone j), fun j hj => absurd hj (hnone j), fun _ => by simp [ComponentStatus.start],
    fun _ hs => ?_, h.exception, fun _ => Or.inl rfl, h.served⟩
  cases hs

/-- A start of a worker that has been started does nothing. -/
theorem start_refused {state : ComponentStatus} (h : state ≠ .kNotStarted) : state.start = (false, state) := by
  cases state with
  | kNotStarted => exact absurd rfl h
  | kStarted => rfl
  | kStopping => rfl

theorem Sound.step (h : w.Sound) {e : Event} (hstep : w.step e = some w') : w'.Sound := by
  cases e with
  | start =>
      obtain ⟨hidle, heq⟩ := Option.ite_none_right_eq_some.mp hstep
      cases heq
      by_cases hstate : w.state = .kNotStarted
      · exact h.request hstate
      · rw [start_refused hstate, ← hidle]
        exact h
  | stop =>
      obtain ⟨hidle, heq⟩ := Option.ite_none_right_eq_some.mp hstep
      cases heq
      have hno : (if w.state = .kNotStarted then Controller.join else Controller.requestStop).starting = false := by
        split_ifs <;> rfl
      exact h.pace (by rw [hno, hidle]; rfl) (Or.inr rfl) (fun hs => absurd hs (by simp [hno])) w.thread w.id w.kicks
        w.kicked w.pending h.served
  | control => exact h.control hstep
  | kick =>
      cases hstep
      exact h.pace rfl (Or.inr rfl) h.noException w.thread w.id (w.kicks + 1) true true h.kick
  | wait i =>
      obtain ⟨hi, heq⟩ := Option.ite_none_right_eq_some.mp hstep
      cases heq
      exact h.move (Or.inl (by rw [hi]; rfl)) rfl w.id w.served w.kicked w.pending h.served
  | leave i ending =>
      obtain ⟨hi, heq⟩ := Option.ite_none_right_eq_some.mp hstep
      cases heq
      exact h.leave hi ending
  | advance i => exact h.advance hstep

theorem sound_of_run {events : List Event} (hrun : runSystem step {} events = some w) : w.Sound := by
  have hstep : ∀ w e w', Sound w → step w e = some w' → Sound w' := fun _ _ _ h hstep => h.step hstep
  exact runSystem_keeps hstep sound_new hrun

end Worker

open Worker in
/-- **Workers, in any run**: at most one of the threads is in `work`; the status is `kNotStarted` exactly when no
thread is before `set_stopped` and no start is under way; `wait_for_kick` has not returned true more often than there
were kicks; and an exception that is kept comes from the last thread, which has left `work`. -/
theorem worker_runs_safe (events : List Worker.Event) (w : Worker) (hrun : runSystem step {} events = some w) :
    (∀ i j, (w.threads i).inWork → (w.threads j).inWork → i = j) ∧
      (w.state = .kNotStarted ↔ w.controller.starting = false ∧ ∀ i, (w.threads i).active = false) ∧
      w.served ≤ w.kicks ∧
      ∀ i, w.exceptionPtr = some i → i + 1 = w.count ∧ (w.threads i).inWork = false := by
  have h := sound_of_run hrun
  refine ⟨?_, ?_, Nat.le_trans (Nat.le_add_right ..) h.served,
    fun i hi => ⟨(h.exception i hi).1, (h.exception i hi).2.1⟩⟩
  · intro i j hi hj
    have hlast := h.last i (Phase.active_of_inWork hi)
    have hlast' := h.last j (Phase.active_of_inWork hj)
    omega
  · constructor
    · intro hstate
      refine ⟨?_, fun i => ?_⟩
      · by_contra hstarting
        exact h.starting (by simpa using hstarting) hstate
      · by_contra hactive
        exact (h.running i (by simpa using hactive)).1 hstate
    · rintro ⟨hstarting, hnone⟩
      by_contra hstate
      obtain ⟨i, hi⟩ := h.status hstate hstarting
      rw [hnone i] at hi
      cases hi

/-! ## Runs with a stop between two starts -/

namespace Worker
variable {w w' : Worker} {i : Nat} {phase : Phase}

/-- The thread has stored its id, and has not cleared it yet. -/
def Phase.hasId : Phase → Bool
  | starting | finished => false
  | _ => true

/-- `start` is called when there is no thread to be joined: never before, or `stop` has been called since. -/
def StopsFirst (w : Worker) (e : Event) : Prop := e = .start → w.thread = none

instance (w : Worker) (e : Event) : Decidable (StopsFirst w e) := inferInstanceAs (Decidable (e = .start → _))

/-- A kick has been made and is not there any more, although nobody has taken it. -/
def LosesKick (w : Worker) : Prop :=
  w.state ≠ .kNotStarted ∧ w.controller ≠ .clearException ∧ w.controller ≠ .clearKicked ∧ w.pending ∧ w.kicked = false

structure Orderly (w : Worker) : Prop where
  sound : w.Sound
  /-- The threads of earlier starts are over. -/
  others : ∀ i, i + 1 ≠ w.count → w.threads i = .finished
  pointer : ∀ i, w.thread = some i → i + 1 = w.count
  joined : w.thread = none → ∀ i, w.threads i = .finished
  starting : w.controller.starting → w.thread = none
  /-- The status is not set again before the thread has cleared its members. -/
  stopped : ∀ i, w.threads i = .clearing ∨ w.threads i = .forgetting → w.state = .kNotStarted
  id : w.id = if (w.threads (w.count - 1)).hasId then w.count else 0
  kick : w.pending → w.kicked ∨ w.state = .kNotStarted ∨ w.controller = .clearException ∨ w.controller = .clearKicked

theorem orderly_new : Orderly {} where
  sound := sound_new
  others := fun _ _ => rfl
  pointer := by simp
  joined := fun _ _ => rfl
  starting := by simp [Controller.starting]
  stopped := by simp
  id := rfl
  kick := by simp

/-- A thread that is not over is the one of the last start. -/
theorem Orderly.eq_last (h : w.Orderly) (hi : w.threads i ≠ .finished) : i + 1 = w.count := by
  by_contra hne
  exact hi (h.others i hne)

theorem Orderly.thread_eq (h : w.Orderly) (hi : w.threads i ≠ .finished) : w.thread = some i := by
  cases hthread : w.thread with
  | none => exact absurd (h.joined hthread i) hi
  | some j =>
      have hj := h.pointer j hthread
      have hlast := h.eq_last hi
      exact congrArg some (by omega)

theorem Orderly.thread (h : w.Orderly) (hi : w.threads i ≠ .finished) {state : ComponentStatus} {id served : Nat}
    {kicked pending : Bool} {exceptionPtr : Option Nat}
    (hsound : Sound { w.set i phase with
      state := state, id := id, served := served, kicked := kicked, pending := pending, exceptionPtr := exceptionPtr })
    (hstopped : phase = .clearing ∨ phase = .forgetting → state = .kNotStarted)
    (hid : id = if phase.hasId then i + 1 else 0)
    (hkick : pending → kicked ∨ state = .kNotStarted ∨ w.controller = .clearException ∨ w.controller = .clearKicked) :
    Orderly { w.set i phase with
      state := state, id := id, served := served, kicked := kicked, pending := pending,
      exceptionPtr := exceptionPtr } := by
  have hlast := h.eq_last hi
  have hthread := h.thread_eq hi
  refine ⟨hsound, ?_, h.pointer, ?_, h.starting, ?_, ?_, hkick⟩
  · intro j hj
    have hji : j ≠ i := fun hji => hj (hji ▸ hlast)
    exact (threads_set w i j phase).trans ((if_neg hji).trans (h.others j hj))
  · intro hnone
    rw [show w.thread = none from hnone] at hthread
    cases hthread
  · intro j hj
    by_cases hji : j = i
    · refine hstopped ?_
      subst hji
      simpa [set] using hj
    · have hover : (w.set i phase).threads j = .finished := by
        rw [threads_set, if_neg hji]
        exact h.others j fun hj' => hji (by omega)
      rcases hj with hj | hj
      · exact absurd (hj.symm.trans hover) (by decide)
      · exact absurd (hj.symm.trans hover) (by decide)
  · change id = if ((w.set i phase).threads (w.count - 1)).hasId then w.count else 0
    rw [show w.count - 1 = i by omega, threads_set, if_pos rfl, hid, hlast]

theorem Orderly.hasId (h : w.Orderly) (hi : (w.threads i).hasId) : w.id = i + 1 := by
  have hne : w.threads i ≠ .finished := by
    intro hfinished
    rw [hfinished] at hi
    cases hi
  have hlast := h.eq_last hne
  rw [h.id, show w.count - 1 = i by omega, if_pos hi, hlast]

theorem Orderly.advance (h : w.Orderly) (hstep : w.advance i = some w') : w'.Orderly := by
  have hsound := h.sound.advance hstep
  unfold Worker.advance at hstep
  split at hstep
  case h_1 hi =>
      cases hstep
      exact h.thread (by simp [hi]) hsound (by simp) rfl h.kick
  case h_2 hi =>
      have hid := h.hasId (i := i) (by rw [hi]; rfl)
      split_ifs at hstep with hkicked
      · cases hstep
        exact h.thread (by simp [hi]) hsound (by simp) hid (by simp)
      · cases hstep
        exact h.thread (by simp [hi]) hsound (by simp) hid h.kick
  case h_3 hi =>
      cases hstep
      exact h.thread (by simp [hi]) hsound (by simp) (h.hasId (by rw [hi]; rfl)) h.kick
  case h_4 hi =>
      have hid := h.hasId (i := i) (by rw [hi]; rfl)
      cases hstep
      refine h.thread (by simp [hi]) hsound ?_ ?_ h.kick
      · split_ifs <;> simp
      · have hphase : (if w.state = .kStarted then Phase.trying else Phase.working).hasId := by
          split_ifs <;> rfl
        rw [if_pos hphase]
        exact hid
  case h_5 hi =>
      cases hstep
      exact h.thread (by simp [hi]) hsound (fun _ => rfl) (h.hasId (by rw [hi]; rfl)) fun _ => Or.inr (Or.inl rfl)
  case h_6 hi =>
      -- the kick that is cleared here was made for a worker that has stopped
      have hstate := h.stopped i (Or.inl hi)
      cases hstep
      exact h.thread (by simp [hi]) hsound (fun _ => hstate) (h.hasId (by rw [hi]; rfl)) fun _ => Or.inr (Or.inl hstate)
  case h_7 hi =>
      cases hstep
      exact h.thread (by simp [hi]) hsound (by simp) rfl h.kick
  case h_8 => cases hstep
  case h_9 => cases hstep

theorem Orderly.pace (h : w.Orderly) {controller : Controller} {thread exceptionPtr : Option Nat}
    {state : ComponentStatus} {kicks : Nat} {kicked pending : Bool}
    (hsound : Sound { w with
      controller := controller, thread := thread, exceptionPtr := exceptionPtr, state := state, kicks := kicks,
      kicked := kicked, pending := pending })
    (hthread : thread = w.thread ∨ thread = none ∧ ∀ i, w.threads i = .finished)
    (hstarting : controller.starting → thread = none)
    (hstate : state = .kNotStarted ↔ w.state = .kNotStarted)
    (hkick : pending → kicked ∨ state = .kNotStarted ∨ controller = .clearException ∨ controller = .clearKicked) :
    Orderly { w with
      controller := controller, thread := thread, exceptionPtr := exceptionPtr, state := state, kicks := kicks,
      kicked := kicked, pending := pending } := by
  refine ⟨hsound, h.others, ?_, ?_, hstarting, fun i hi => hstate.mpr (h.stopped i hi), h.id, hkick⟩
  · intro i hi
    rcases hthread with rfl | ⟨rfl, -⟩
    · exact h.pointer i hi
    · cases hi
  · intro hnone i
    rcases hthread with rfl | ⟨-, hall⟩
    · exact h.joined hnone i
    · exact hall i

/-- Once `start` has cleared the kicks, those that are made are there as long as the worker has not stopped. -/
theorem Orderly.kept (h : w.Orderly) (hc : w.controller ≠ .clearException ∧ w.controller ≠ .clearKicked)
    (hpending : w.pending) : w.kicked ∨ w.state = .kNotStarted := by
  rcases h.kick hpending with hkick | hkick | hkick | hkick
  · exact Or.inl hkick
  · exact Or.inr hkick
  · exact absurd hkick hc.1
  · exact absurd hkick hc.2

theorem Orderly.all_finished (h : w.Orderly) (hstarting : w.controller.starting) (i : Nat) :
    w.threads i = .finished := h.joined (h.starting hstarting) i

theorem Orderly.control (h : w.Orderly) (hstep : w.control = some w') : w'.Orderly := by
  have hsound := h.sound.control hstep
  unfold Worker.control at hstep
  split at hstep
  case h_1 => cases hstep
  case h_2 hc =>
      cases hstep
      exact h.pace hsound (Or.inl rfl) (fun _ => h.starting (by rw [hc]; rfl)) Iff.rfl
        fun _ => Or.inr (Or.inr (Or.inr rfl))
  case h_3 hc =>
      cases hstep
      exact h.pace hsound (Or.inl rfl) (fun _ => h.starting (by rw [hc]; rfl)) Iff.rfl (by simp)
  case h_4 hc =>
      have hall := h.all_finished (by rw [hc]; rfl)
      cases hstep
      refine ⟨hsound, h.others, h.pointer, h.joined, fun _ => h.starting (by rw [hc]; rfl), h.stopped, ?_, ?_⟩
      · change 0 = if (w.threads (w.count - 1)).hasId then w.count else 0
        rw [hall]
        rfl
      · exact fun hpending => (h.kept (by simp [hc]) hpending).imp_right Or.inl
  case h_5 hc =>
      have hall := h.all_finished (by rw [hc]; rfl)
      have hid := h.id
      rw [hall] at hid
      cases hstep
      refine ⟨hsound, ?_, ?_, by simp, by simp [Controller.starting], ?_, ?_, ?_⟩
      · intro j hj
        have hne : j ≠ w.count := fun hjc => hj (congrArg Nat.succ hjc)
        exact (threads_set ..).trans ((if_neg hne).trans (hall j))
      · intro j hj
        exact congrArg Nat.succ (Option.some.inj hj).symm
      · intro j hj
        change (w.set w.count .starting).threads j = _ ∨ (w.set w.count .starting).threads j = _ at hj
        rw [threads_set, hall j] at hj
        split_ifs at hj <;> simp at hj
      · change w.id = if ((w.set w.count .starting).threads (w.count + 1 - 1)).hasId then w.count + 1 else 0
        rw [Nat.add_sub_cancel, threads_set, if_pos rfl]
        exact hid
      · exact fun hpending => (h.kept (by simp [hc]) hpending).imp_right Or.inl
  case h_6 hc =>
      have hstop : w.state.stop.2 = .kNotStarted ↔ w.state = .kNotStarted := by
        cases w.state <;> decide
      cases hstep
      refine h.pace hsound (Or.inl rfl) ?_ hstop ?_
      · intro hs
        split_ifs at hs <;> cases hs
      · exact fun hpending => (h.kept (by simp [hc]) hpending).imp_right fun hstate => Or.inl (hstop.mpr hstate)
  case h_7 hc =>
      cases hstep
      exact h.pace hsound (Or.inl rfl) (fun hs => absurd hs (by decide)) Iff.rfl fun _ => Or.inl rfl
  case h_8 hc =>
      have hkeep : w.pending → w.kicked ∨ w.state = .kNotStarted ∨ Controller.idle = .clearException ∨
          Controller.idle = .clearKicked :=
        fun hpending => (h.kept (by simp [hc]) hpending).imp_right Or.inl
      cases hthread : w.thread with
      | none =>
          rw [hthread] at hstep
          cases hstep
          exact h.pace hsound (Or.inl hthread.symm) (fun hs => absurd hs (by decide)) Iff.rfl hkeep
      | some i =>
          rw [hthread, Option.elim_some] at hstep
          obtain ⟨hi, heq⟩ := Option.ite_none_right_eq_some.mp hstep
          have hall : ∀ j, w.threads j = .finished := by
            intro j
            by_cases hji : j = i
            · exact hji ▸ hi
            · exact h.others j fun hj => hji (by have := h.pointer i hthread; omega)
          cases heq
          exact h.pace hsound (Or.inr ⟨rfl, hall⟩) (fun hs => absurd hs (by decide)) Iff.rfl hkeep

theorem Orderly.step (h : w.Orderly) {e : Event} (hp : w.StopsFirst e) (hstep : w.step e = some w') : w'.Orderly := by
  have hsound := h.sound.step hstep
  cases e with
  | start =>
      obtain ⟨hidle, heq⟩ := Option.ite_none_right_eq_some.mp hstep
      have hnone := hp rfl
      cases heq
      by_cases hstate : w.state = .kNotStarted
      · -- no thread is left that could be about to clear its members
        refine ⟨hsound, h.others, h.pointer, h.joined, fun _ => hnone, ?_, h.id, ?_⟩
        · intro j hj
          change w.threads j = _ ∨ w.threads j = _ at hj
          rw [h.joined hnone j] at hj
          rcases hj with hj | hj <;> cases hj
        · intro _
          refine Or.inr (Or.inr (Or.inl ?_))
          change (if w.state.start.1 then Controller.clearException else Controller.idle) = _
          rw [hstate]
          rfl
      · rw [start_refused hstate, ← hidle]
        exact h
  | stop =>
      obtain ⟨hidle, heq⟩ := Option.ite_none_right_eq_some.mp hstep
      cases heq
      refine h.pace hsound (Or.inl rfl) ?_ Iff.rfl ?_
      · intro hs
        split_ifs at hs <;> cases hs
      · exact fun hpending => (h.kept (by simp [hidle]) hpending).imp_right Or.inl
  | control => exact h.control hstep
  | kick =>
      cases hstep
      exact h.pace hsound (Or.inl rfl) h.starting Iff.rfl fun _ => Or.inl rfl
  | wait i =>
      obtain ⟨hi, heq⟩ := Option.ite_none_right_eq_some.mp hstep
      cases heq
      exact h.thread (by simp [hi]) hsound (by simp) (h.hasId (by rw [hi]; rfl)) h.kick
  | leave i ending =>
      obtain ⟨hi, heq⟩ := Option.ite_none_right_eq_some.mp hstep
      cases heq
      exact h.thread (by simp [hi]) hsound (by simp) (h.hasId (by rw [hi]; rfl)) h.kick
  | advance i => exact h.advance hstep

theorem orderly_of_run {events : List Event} (hall : Throughout step StopsFirst {} events)
    (hrun : runSystem step {} events = some w) : w.Orderly := by
  have hstep : ∀ w e w', Orderly w → StopsFirst w e → step w e = some w' → Orderly w' :=
    fun _ _ _ h hp hstep => h.step hp hstep
  exact runSystem_invariant hstep orderly_new hall hrun

end Worker

open Worker in
/-- **Workers that are stopped before they are started again**: no kick is lost; in `work` the worker has the id of its
thread; and when the thread has been joined and no start is under way, all threads are over, the status is `kNotStarted`
and the id is cleared. -/
theorem worker_orderly (events : List Worker.Event) (w : Worker) (hall : Throughout step StopsFirst {} events)
    (hrun : runSystem step {} events = some w) :
    ¬ w.LosesKick ∧ (∀ i, (w.threads i).inWork → w.id = i + 1) ∧
      (w.thread = none → w.controller.starting = false →
        (∀ i, w.threads i = .finished) ∧ w.state = .kNotStarted ∧ w.id = 0) := by
  have h := orderly_of_run hall hrun
  refine ⟨?_, ?_, ?_⟩
  · rintro ⟨hstate, hc, hc', hpending, hkicked⟩
    rcases h.kept ⟨hc, hc'⟩ hpending with hkick | hkick
    · exact absurd hkick (by simp [hkicked])
    · exact hstate hkick
  · intro i hi
    refine h.hasId ?_
    cases hphase : w.threads i <;> first | rfl | exact absurd hi (by simp [hphase, Phase.inWork])
  · intro hthread hstarting
    have hover := h.joined hthread
    refine ⟨hover, ?_, ?_⟩
    · by_contra hstate
      obtain ⟨i, hi⟩ := h.sound.status hstate hstarting
      rw [hover i] at hi
      cases hi
    · rw [h.id, hover]
      rfl

namespace Worker

def startCall : List Event := [.start, .control, .control, .control, .control]

/-- The first thread ends by itself, and is about to clear its members when the worker is started again. -/
def restart : List Event := startCall ++ [.advance 0, .leave 0 .returned, .advance 0] ++ startCall

/-- A kick for the new thread is cleared by the old one. -/
theorem kick_lost : ∃ w, runSystem step {} (restart ++ [.kick, .advance 0]) = some w ∧ w.LosesKick :=
  ⟨_, rfl, by decide, by decide, by decide, rfl, rfl⟩

/-- The same with a stop before the second start, in which the kick is taken. -/
def orderlyRestart : List Event :=
  startCall ++ [.advance 0, .leave 0 .exception, .advance 0, .stop, .advance 0, .advance 0, .control] ++ startCall ++
    [.kick, .advance 1, .wait 1, .advance 1]

end Worker

open Worker in
theorem worker_runs_safe_restart :
    ∃ w, runSystem step {} (restart ++ [.kick, .advance 0]) = some w ∧ w.served ≤ w.kicks ∧ w.kicks = 1 :=
  ⟨_, rfl, (worker_runs_safe (restart ++ [.kick, .advance 0]) _ rfl).2.2.1, rfl⟩

open Worker in
theorem worker_orderly_restart : ∃ w, runSystem step {} orderlyRestart = some w ∧ ¬ w.LosesKick ∧ w.served = 1 ∧
    w.id = 2 := by
  have hall : Throughout step StopsFirst {} orderlyRestart := by decide +kernel
  exact ⟨_, rfl, (worker_orderly orderlyRestart _ hall rfl).1, rfl, rfl⟩

end Znode.Concurrency
