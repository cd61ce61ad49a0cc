import Mathlib
import Znode.Lib.System
import Znode.Concurrency.Timer

/-!
# Waiting for a component to stop

Threads in `wait_stopped` sleep on a condition variable until the status is `kNotStarted`. The thread that ends the
component calls `set_stopped`: it stores the status and then notifies, without the mutex of the condition variable.

* `Stoppable.step` : what the threads can do next. A waiter tests the predicate and goes to sleep in two steps, between
  which it holds the mutex; it may wake up without a notification;
* `Stoppable.Lost` : the component has stopped, the notification is over, and a waiter is asleep;
* `no_lost_wakeup_iff` : the runs without such a state are those in which no waiter goes to sleep after the
  notification of a component that is still stopped.

`start` and `stop` may be called at any time by other threads.
-/

namespace Znode.Concurrency
open Znode.Lib

inductive Waiter where
  /-- It needs `component_stopped_mutex_`, at first and after every wake-up. -/
  | locking
  /-- It has the mutex and evaluates the predicate next. -/
  | testing
  /-- It has the mutex, the predicate was false, and it goes to sleep next. -/
  | committed
  | asleep
  | returned
deriving DecidableEq, Repr

inductive Notifier where
  | storing
  | notifying
  | finished
deriving DecidableEq, Repr

structure Stoppable where
  state : ComponentStatus
  mutex : Option Nat := none
  waiters : Nat → Waiter := fun _ => .locking
  notifier : Notifier := .storing

namespace Stoppable

inductive Event where
  | lock (i : Nat)
  | test (i : Nat)
  | sleep (i : Nat)
  | wake (i : Nat)
  | store
  | notify
  | start
  | stop
deriving DecidableEq, Repr

def set (s : Stoppable) (i : Nat) (waiter : Waiter) : Stoppable :=
  { s with waiters := Function.update s.waiters i waiter }

def step (s : Stoppable) : Event → Option Stoppable
  | .lock i =>
    if s.waiters i = .locking ∧ s.mutex = none then some { s.set i .testing with mutex := some i } else none
  | .test i =>
    if s.waiters i = .testing then
      -- leaving `wait_stopped` unlocks the mutex
      if s.state = .kNotStarted then some { s.set i .returned with mutex := none } else some (s.set i .committed)
    else none
  | .sleep i => if s.waiters i = .committed then some { s.set i .asleep with mutex := none } else none
  | .wake i => if s.waiters i = .asleep then some (s.set i .locking) else none
  | .store => if s.notifier = .storing then some { s with state := .kNotStarted, notifier := .notifying } else none
  | .notify =>
    if s.notifier = .notifying then
      some { s with
        waiters := fun i => if s.waiters i = .asleep then .locking else s.waiters i
        notifier := .finished }
    else none
  | .start => some { s with state := s.state.start.2 }
  | .stop => some { s with state := s.state.stop.2 }

/-- The component has stopped and nobody will notify again. -/
def Over (s : Stoppable) : Prop := s.state = .kNotStarted ∧ s.notifier = .finished

/-- A waiter sleeps although all is over. -/
def Lost (s : Stoppable) : Prop := s.Over ∧ ∃ i, s.waiters i = .asleep

/-- A waiter goes to sleep while there is something to wait for. -/
def SleepsInTime (s : Stoppable) (e : Event) : Prop := ∀ i, e = .sleep i → s.waiters i = .committed → ¬ s.Over

variable {s s' : Stoppable}

/-- Over a step that puts nobody to sleep and ends nothing, nothing is lost. -/
theorem not_lost_of_asleep (h : ¬ s.Lost) (hover : s'.Over → s.Over)
    (hasleep : ∀ i, s'.waiters i = .asleep → s.waiters i = .asleep) : ¬ s'.Lost := by
  rintro ⟨hs', i, hi⟩
  exact h ⟨hover hs', i, hasleep i hi⟩

theorem asleep_of_set {i j : Nat} {waiter : Waiter} (hwaiter : waiter ≠ .asleep)
    (h : (s.set i waiter).waiters j = .asleep) : s.waiters j = .asleep := by
  by_cases hj : j = i
  · subst hj
    exact absurd ((Function.update_self ..).symm.trans h) hwaiter
  · rwa [← Function.update_of_ne hj waiter s.waiters]

theorem start_ne_kNotStarted {status : ComponentStatus} : status.start.2 ≠ .kNotStarted := by
  cases status <;> decide

theorem stop_eq_kNotStarted {status : ComponentStatus} (h : status.stop.2 = .kNotStarted) : status = .kNotStarted := by
  cases status <;> first | rfl | cases h

theorem step_not_lost {e : Event} (h : ¬ s.Lost) (hin : s.SleepsInTime e) (hstep : s.step e = some s') : ¬ s'.Lost := by
  cases e with
  | lock i =>
      simp only [step] at hstep
      split_ifs at hstep
      cases hstep
      exact not_lost_of_asleep h id fun j => asleep_of_set (by decide)
  | test i =>
      simp only [step] at hstep
      split_ifs at hstep <;> cases hstep
      · exact not_lost_of_asleep h id fun j => asleep_of_set (by decide)
      · exact not_lost_of_asleep h id fun j => asleep_of_set (by decide)
  | sleep i =>
      simp only [step] at hstep
      split_ifs at hstep with hi
      cases hstep
      exact fun hlost => hin i rfl hi hlost.1
  | wake i =>
      simp only [step] at hstep
      split_ifs at hstep
      cases hstep
      exact not_lost_of_asleep h id fun j => asleep_of_set (by decide)
  | store =>
      simp only [step] at hstep
      split_ifs at hstep
      cases hstep
      rintro ⟨⟨-, hfinished⟩, -⟩
      cases hfinished
  | notify =>
      simp only [step] at hstep
      split_ifs at hstep
      cases hstep
      rintro ⟨-, i, hi⟩
      -- whoever was asleep has been woken
      change (if s.waiters i = .asleep then Waiter.locking else s.waiters i) = .asleep at hi
      split_ifs at hi with hasleep
      exact hasleep hi
  | start =>
      cases hstep
      exact fun hlost => start_ne_kNotStarted hlost.1.1
  | stop =>
      cases hstep
      exact not_lost_of_asleep h (fun hover => ⟨stop_eq_kNotStarted hover.1, hover.2⟩) fun _ => id

/-- A waiter that goes to sleep too late is not woken any more. -/
theorem sleep_lost {i : Nat} (hi : s.waiters i = .committed) (hover : s.Over) :
    ∃ s', s.step (.sleep i) = some s' ∧ s'.Lost :=
  ⟨_, if_pos hi, hover, i, Function.update_self ..⟩

theorem sleepsInTime_iff (s : Stoppable) (e : Event) (h : ¬ s.Lost) :
    s.SleepsInTime e ↔ ∀ s' ∈ s.step e, ¬ s'.Lost := by
  constructor
  · intro hin s' hs'
    exact step_not_lost h hin hs'
  · rintro hall i rfl hi hover
    obtain ⟨s', hs', hlost⟩ := sleep_lost hi hover
    exact hall s' hs' hlost

/-- **No wake-up is lost** along a run exactly when no waiter goes to sleep after the notification, while the component
is still stopped. -/
theorem no_lost_wakeup_iff (status : ComponentStatus) (events : List Event) :
    (∀ n, ∀ s ∈ runSystem step { state := status } (events.take n), ¬ s.Lost) ↔
      Throughout step SleepsInTime { state := status } events := by
  apply throughout_iff_invariant sleepsInTime_iff
  rintro ⟨⟨-, hfinished⟩, -⟩
  cases hfinished

/-- The store and the notification fall between the test of the waiter and its sleep: it is not woken any more. -/
theorem lost_wakeup : ∃ s,
    runSystem step { state := .kStopping } [.lock 0, .test 0, .store, .notify, .sleep 0] = some s ∧ s.Lost :=
  ⟨_, rfl, ⟨rfl, rfl⟩, 0, rfl⟩

end Stoppable

end Znode.Concurrency
