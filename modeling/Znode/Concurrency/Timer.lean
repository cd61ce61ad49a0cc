import Mathlib
import Znode.Lib.System

/-!
# The asynchronous timer

A `Timer` has a status, which `start` and `stop` change, and a coroutine `work()`, which waits on the timer of asio and
calls the callback. The coroutine advances when its wait completes; what the callback does is part of the run.

* `Timer.step` : the calls on a timer, the passing of time, and the steps of the coroutines;
* `Timer.Change` : what a step can do to the status and the coroutines (`change_of_step`);
* `timer_lifeCycle_iff` : the runs in which status and coroutine stay paired. A `start` takes the status before it looks
  at the interval and the callback;
* `timer_reset_postpones_iff` : the runs in which `reset` does what it says. A cancelled wait ends the coroutine,
  whoever cancelled it.

Several `work()` coroutines are possible in the model; that there is at most one is proved.
-/

namespace Znode.Concurrency
open Znode.Lib

inductive ComponentStatus where
  | kNotStarted
  | kStarted
  | kStopping
deriving DecidableEq, Repr

namespace ComponentStatus

def start : ComponentStatus → Bool × ComponentStatus
  | kNotStarted => (true, kStarted)
  | status => (false, status)

def stop : ComponentStatus → Bool × ComponentStatus
  | kStarted => (true, kStopping)
  | status => (false, status)

end ComponentStatus

/-- How the wait of a coroutine stands. -/
inductive Wait where
  | pending (deadline : Int)
  | expired
  | failed (aborted : Bool)
deriving DecidableEq, Repr

/-- Where a `work()` coroutine stands: not yet run, in `co_await`, or in the callback. -/
inductive Work where
  | spawned
  | waiting (waitInterval : Int) (resubmit : Bool) (wait : Wait)
  | calling (waitInterval : Int) (resubmit : Bool)
deriving DecidableEq, Repr

/-- `timer_.cancel()`, for one coroutine. A wait that has expired is not called back. -/
def Work.cancel : Work → Work
  | waiting waitInterval resubmit (.pending _) => waiting waitInterval resubmit (.failed true)
  | work => work

/-- `Timer`. Of the callback it says whether there is one, of the exception whether one was captured; times are in
milliseconds. -/
structure Timer where
  status : ComponentStatus := .kNotStarted
  autoreset : Bool := false
  interval : Int := 0
  callBack : Bool := false
  exceptionPtr : Bool := false
  works : List Work := []
  now : Int := 0
deriving DecidableEq, Repr

namespace Timer

def isRunning (t : Timer) : Bool := t.status = .kStarted

def setCallback (t : Timer) (callBack : Bool) : Timer :=
  if !t.isRunning then { t with exceptionPtr := false, callBack := callBack } else t

def start (t : Timer) : Bool × Timer :=
  let (started, status) := t.status.start
  let t := { t with status := status }
  if !started then (false, t)
  else if t.interval = 0 ∨ t.callBack = false then (false, t)
  else (true, { t with exceptionPtr := false, works := t.works ++ [.spawned] })

def startWith (t : Timer) (interval : Int) (callBack : Bool) : Bool × Timer :=
  if !t.isRunning then { t with interval := interval, callBack := callBack }.start else (false, t)

def cancel (t : Timer) : Timer := { t with works := t.works.map Work.cancel }

def stop (t : Timer) : Bool × Timer :=
  let (stopping, status) := t.status.stop
  let t := { t with status := status }
  if !stopping then (false, t) else (true, t.cancel)

def reset (t : Timer) : Timer := t.cancel

/-- `timer_.expires_after(wait_interval)` and the `co_await` after it, in the `i`-th coroutine. The new expiry time
cancels all other waits. -/
def await (t : Timer) (i : Nat) (waitInterval : Int) (resubmit : Bool) : Timer :=
  { t with works := (t.works.map Work.cancel).set i (.waiting waitInterval resubmit (.pending (t.now + waitInterval))) }

/-- The end of `work()`: the loop or an exception has left the `try` block. -/
def leave (t : Timer) (i : Nat) (captured : Bool) : Timer :=
  { t with exceptionPtr := t.exceptionPtr || captured, works := t.works.eraseIdx i, status := .kNotStarted }

inductive Event where
  | setCallback (callBack : Bool)
  | setInterval (interval : Int)
  | setAutoreset (value : Bool)
  | start
  | startWith (interval : Int) (callBack : Bool)
  | stop
  | reset
  /-- Time passes. -/
  | advance (milliseconds : Nat)
  /-- The wait of the `i`-th coroutine completes, at its deadline or with an error of the system. -/
  | expire (i : Nat)
  | waitError (i : Nat)
  /-- The `i`-th coroutine runs until its next wait, or until it calls the callback. -/
  | resume (i : Nat)
  /-- The callback returns and has set the interval, or throws. -/
  | returns (i : Nat) (waitInterval : Int)
  | throws (i : Nat) (systemError : Bool)
deriving DecidableEq, Repr

/-- The `i`-th coroutine runs. An empty callback throws `std::bad_function_call`. -/
def resume (t : Timer) (i : Nat) : Option Timer :=
  match t.works[i]? with
  | some .spawned => some (t.await i t.interval t.autoreset)
  | some (.waiting waitInterval resubmit .expired) =>
    if t.callBack then some { t with works := t.works.set i (.calling waitInterval resubmit) }
    else some (t.leave i true)
  | some (.waiting _ _ (.failed _)) => some (t.leave i false)
  | _ => none

/-- The callback of the `i`-th coroutine has returned. -/
def returns (t : Timer) (i : Nat) (waitInterval : Int) : Option Timer :=
  match t.works[i]? with
  | some (.calling _ resubmit) =>
    if t.isRunning ∧ resubmit ∧ waitInterval ≠ 0 then some (t.await i waitInterval resubmit)
    else some (t.leave i false)
  | _ => none

/-- The callback of the `i`-th coroutine has thrown. A `boost::system::system_error` is not captured. -/
def throws (t : Timer) (i : Nat) (systemError : Bool) : Option Timer :=
  match t.works[i]? with
  | some (.calling _ _) => some (t.leave i (!systemError))
  | _ => none

def complete (t : Timer) (i : Nat) (due : Int → Bool) (wait : Wait) : Option Timer :=
  match t.works[i]? with
  | some (.waiting waitInterval resubmit (.pending deadline)) =>
    if due deadline then some { t with works := t.works.set i (.waiting waitInterval resubmit wait) } else none
  | _ => none

def step (t : Timer) : Event → Option Timer
  | .setCallback callBack => some (t.setCallback callBack)
  | .setInterval interval => some { t with interval := interval }
  | .setAutoreset value => some { t with autoreset := value }
  | .start => some t.start.2
  | .startWith interval callBack => some (t.startWith interval callBack).2
  | .stop => some t.stop.2
  | .reset => some t.reset
  | .advance milliseconds => some { t with now := t.now + milliseconds }
  | .expire i => t.complete i (fun deadline => deadline ≤ t.now) .expired
  | .waitError i => t.complete i (fun _ => true) (.failed false)
  | .resume i => t.resume i
  | .returns i waitInterval => t.returns i waitInterval
  | .throws i systemError => t.throws i systemError

def construct (autoreset : Bool) (interval : Int) (callBack : Bool) (now : Int) : Timer :=
  { autoreset := autoreset, interval := interval, callBack := callBack, now := now }

/-! ## What a step changes -/

section
variable {t t' : Timer} {i : Nat}

theorem start_of_ne (h : t.status ≠ .kNotStarted) : t.start = (false, t) := by
  have hstatus : t.status.start = (false, t.status) := by
    unfold ComponentStatus.start
    split
    · exact absurd ‹_› h
    · rfl
  simp [start, hstatus]

theorem start_invalid (h : t.status = .kNotStarted) (hargs : ¬ (t.interval ≠ 0 ∧ t.callBack = true)) :
    t.start = (false, { t with status := .kStarted }) := by
  have hargs' : t.interval = 0 ∨ t.callBack = false := by
    simpa [Classical.or_iff_not_imp_left] using hargs
  simp [start, h, ComponentStatus.start, hargs']

theorem start_valid (h : t.status = .kNotStarted) (hargs : t.interval ≠ 0 ∧ t.callBack = true) :
    t.start = (true, { t with status := .kStarted, exceptionPtr := false, works := t.works ++ [.spawned] }) := by
  simp [start, h, ComponentStatus.start, hargs]

def prepared (t : Timer) (interval : Int) (callBack : Bool) : Timer :=
  if !t.isRunning then { t with interval := interval, callBack := callBack } else t

theorem status_prepared (interval : Int) (callBack : Bool) : (t.prepared interval callBack).status = t.status := by
  unfold prepared
  split_ifs <;> rfl

theorem works_prepared (interval : Int) (callBack : Bool) : (t.prepared interval callBack).works = t.works := by
  unfold prepared
  split_ifs <;> rfl

theorem startWith_eq (interval : Int) (callBack : Bool) :
    t.startWith interval callBack = (t.prepared interval callBack).start := by
  rw [startWith, prepared]
  split_ifs with h
  · rfl
  · have hrunning : t.status = .kStarted := by simpa [isRunning] using h
    rw [start_of_ne (by rw [hrunning]; decide)]

/-- A `start` that takes the status finds an interval and a callback. -/
def ValidStart (t : Timer) : Event → Prop
  | .start => t.status = .kNotStarted → t.interval ≠ 0 ∧ t.callBack = true
  | .startWith interval callBack => t.status = .kNotStarted → interval ≠ 0 ∧ callBack = true
  | _ => True

/-- What a step with valid arguments does to the status and the coroutines. -/
inductive Change (t t' : Timer) : Prop
  | keeps (hstatus : t'.status = t.status) (hworks : t'.works.length = t.works.length)
      (hcallBack : t.status = .kStarted → t'.callBack = t.callBack)
  | stops (hstatus : t.status = .kStarted) (hstatus' : t'.status = .kStopping)
      (hworks : t'.works.length = t.works.length)
  | spawns (hstatus : t.status = .kNotStarted) (hstatus' : t'.status = .kStarted)
      (hworks : t'.works.length = t.works.length + 1) (hcallBack : t'.callBack = true)
  | leaves (hstatus' : t'.status = .kNotStarted) (hworks : t'.works.length + 1 = t.works.length)

/-- A `start` that fails has taken the status. -/
def Claimed (t t' : Timer) : Prop := t.status = .kNotStarted ∧ t'.status = .kStarted ∧ t'.works = t.works

/-- `start()` on a timer that has the status and the coroutines of `t`. -/
theorem change_start {t₀ : Timer} (hstatus₀ : t₀.status = t.status) (hworks₀ : t₀.works = t.works)
    (hcallBack₀ : t.status = .kStarted → t₀.callBack = t.callBack) :
    (t.status = .kNotStarted → t₀.interval ≠ 0 ∧ t₀.callBack = true) ∧ Change t t₀.start.2 ∨
      ¬ (t.status = .kNotStarted → t₀.interval ≠ 0 ∧ t₀.callBack = true) ∧ Claimed t t₀.start.2 := by
  by_cases hstatus : t.status = .kNotStarted
  · by_cases hargs : t₀.interval ≠ 0 ∧ t₀.callBack = true
    · rw [start_valid (hstatus₀.trans hstatus) hargs, hworks₀]
      exact .inl ⟨fun _ => hargs, .spawns hstatus rfl (by simp) hargs.2⟩
    · rw [start_invalid (hstatus₀.trans hstatus) hargs]
      exact .inr ⟨fun h => hargs (h hstatus), hstatus, rfl, hworks₀⟩
  · rw [start_of_ne (hstatus₀ ▸ hstatus)]
    exact .inl ⟨fun h => absurd h hstatus, .keeps hstatus₀ (congrArg List.length hworks₀) hcallBack₀⟩

theorem stop_started (h : t.status = .kStarted) : t.stop = (true, { t with status := .kStopping }.cancel) := by
  simp [stop, h, ComponentStatus.stop]

theorem stop_of_ne (h : t.status ≠ .kStarted) : t.stop = (false, t) := by
  have hstatus : t.status.stop = (false, t.status) := by
    unfold ComponentStatus.stop
    split
    · exact absurd ‹_› h
    · rfl
  simp [stop, hstatus]

theorem change_stop (t : Timer) : Change t t.stop.2 := by
  by_cases hstatus : t.status = .kStarted
  · rw [stop_started hstatus]
    exact .stops hstatus rfl (List.length_map _)
  · rw [stop_of_ne hstatus]
    exact .keeps rfl rfl fun _ => rfl

theorem change_await (waitInterval : Int) (resubmit : Bool) : Change t (t.await i waitInterval resubmit) :=
  .keeps rfl (by simp [await]) fun _ => rfl

theorem change_leave {work : Work} (hi : t.works[i]? = some work) (captured : Bool) :
    Change t (t.leave i captured) := by
  obtain ⟨hlt, -⟩ := List.getElem?_eq_some_iff.mp hi
  apply Change.leaves rfl
  rw [leave, List.length_eraseIdx_of_lt hlt]
  omega

theorem change_set (work : Work) : Change t { t with works := t.works.set i work } :=
  .keeps rfl List.length_set fun _ => rfl

theorem change_complete {due : Int → Bool} {wait : Wait} (h : t.complete i due wait = some t') : Change t t' := by
  unfold complete at h
  split at h
  · split_ifs at h
    cases h
    exact change_set _
  · cases h

theorem change_resume (h : t.resume i = some t') : Change t t' := by
  unfold resume at h
  split at h
  · cases h
    exact change_await _ _
  · split_ifs at h <;> cases h
    · exact change_set _
    · exact change_leave ‹_› true
  · cases h
    exact change_leave ‹_› false
  · cases h

theorem change_returns {waitInterval : Int} (h : t.returns i waitInterval = some t') : Change t t' := by
  unfold returns at h
  split at h
  · split_ifs at h <;> cases h
    · exact change_await _ _
    · exact change_leave ‹_› false
  · cases h

theorem change_throws {systemError : Bool} (h : t.throws i systemError = some t') : Change t t' := by
  unfold throws at h
  split at h
  · cases h
    exact change_leave ‹_› _
  · cases h

theorem change_setCallback (callBack : Bool) : Change t (t.setCallback callBack) := by
  unfold setCallback
  split_ifs with hrunning
  · exact .keeps rfl rfl fun hstatus => absurd hrunning (by simp [isRunning, hstatus])
  · exact .keeps rfl rfl fun _ => rfl

/-- A step is one of the four changes, or a `start` with arguments that are not valid. -/
theorem change_of_step {e : Event} (h : t.step e = some t') :
    t.ValidStart e ∧ Change t t' ∨ ¬ t.ValidStart e ∧ Claimed t t' := by
  cases e with
  | start =>
      cases h
      exact change_start rfl rfl fun _ => rfl
  | startWith interval callBack =>
      have hargs : (t.status = .kNotStarted → interval ≠ 0 ∧ callBack = true) ↔
          (t.status = .kNotStarted → (t.prepared interval callBack).interval ≠ 0 ∧
            (t.prepared interval callBack).callBack = true) := by
        refine imp_congr_right fun hstatus => ?_
        simp [prepared, isRunning, hstatus]
      rw [step, startWith_eq] at h
      cases h
      rw [ValidStart, hargs]
      exact change_start (status_prepared interval callBack) (works_prepared interval callBack)
        fun hstatus => by simp [prepared, isRunning, hstatus]
  | setCallback callBack =>
      cases h
      exact .inl ⟨trivial, change_setCallback callBack⟩
  | stop =>
      cases h
      exact .inl ⟨trivial, change_stop t⟩
  | reset =>
      cases h
      exact .inl ⟨trivial, .keeps rfl (List.length_map _) fun _ => rfl⟩
  | expire i => exact .inl ⟨trivial, change_complete h⟩
  | waitError i => exact .inl ⟨trivial, change_complete h⟩
  | resume i => exact .inl ⟨trivial, change_resume h⟩
  | returns i waitInterval => exact .inl ⟨trivial, change_returns h⟩
  | throws i systemError => exact .inl ⟨trivial, change_throws h⟩
  | setInterval | setAutoreset | advance =>
      cases h
      exact .inl ⟨trivial, .keeps rfl rfl fun _ => rfl⟩

/-! ## The life cycle -/

/-- There is at most one coroutine, and none before the start. -/
def Single (t : Timer) : Prop := t.works.length ≤ 1 ∧ (t.status = .kNotStarted → t.works = [])

theorem single_construct (autoreset : Bool) (interval : Int) (callBack : Bool) (now : Int) :
    (construct autoreset interval callBack now).Single := ⟨Nat.zero_le _, fun _ => rfl⟩

/-- The work coroutine is live while the timer is started or stopping. -/
def Live (t : Timer) : Prop := t.status ≠ .kNotStarted → t.works ≠ []

theorem single_change (h : t.Single) (hchange : Change t t') : t'.Single := by
  obtain ⟨hone, hnone⟩ := h
  cases hchange with
  | keeps hstatus hworks hcallBack =>
      refine ⟨hworks.trans_le hone, fun hstatus' => ?_⟩
      rw [← List.length_eq_zero_iff, hworks, List.length_eq_zero_iff]
      exact hnone (hstatus ▸ hstatus')
  | stops hstatus hstatus' hworks => exact ⟨hworks.trans_le hone, fun h => by simp [hstatus'] at h⟩
  | spawns hstatus hstatus' hworks hcallBack =>
      rw [hnone hstatus] at hworks
      exact ⟨hworks.le, fun h => by simp [hstatus'] at h⟩
  | leaves hstatus' hworks =>
      exact ⟨by omega, fun _ => List.length_eq_zero_iff.mp (by omega)⟩

theorem single_step {e : Event} (h : t.Single) (hstep : t.step e = some t') : t'.Single := by
  rcases change_of_step hstep with ⟨-, hchange⟩ | ⟨-, -, hstatus, hworks⟩
  · exact single_change h hchange
  · exact ⟨hworks ▸ h.1, fun h => by simp [hstatus] at h⟩

theorem live_change (h : t.Live) (hchange : Change t t') : t'.Live := by
  intro hstatus₁
  rw [← List.length_pos_iff]
  cases hchange with
  | keeps hstatus hworks hcallBack => exact hworks ▸ List.length_pos_iff.mpr (h (hstatus ▸ hstatus₁))
  | stops hstatus hstatus' hworks => exact hworks ▸ List.length_pos_iff.mpr (h (by simp [hstatus]))
  | spawns hstatus hstatus' hworks hcallBack => exact hworks ▸ Nat.succ_pos _
  | leaves hstatus' hworks => exact absurd hstatus' hstatus₁

/-- A step keeps status and coroutine together exactly when it is not a `start` without its arguments. -/
theorem validStart_iff {e : Event} (h : t.Single ∧ t.Live) :
    t.ValidStart e ↔ ∀ t' ∈ t.step e, t'.Single ∧ t'.Live := by
  constructor
  · intro hvalid t' ht'
    rcases change_of_step ht' with ⟨-, hchange⟩ | ⟨hinvalid, -⟩
    · exact ⟨single_change h.1 hchange, live_change h.2 hchange⟩
    · exact absurd hvalid hinvalid
  · intro hall
    by_contra hinvalid
    obtain ⟨t', ht'⟩ : ∃ t', t.step e = some t' := by
      cases e with
      | start => exact ⟨_, rfl⟩
      | startWith => exact ⟨_, rfl⟩
      | _ => exact absurd trivial hinvalid
    rcases change_of_step ht' with ⟨hvalid, -⟩ | ⟨-, hstatus, hstatus', hworks⟩
    · exact hinvalid hvalid
    · -- the status says started, and there is no coroutine
      exact (hall t' ht').2 (by simp [hstatus']) (hworks.trans (h.1.2 hstatus))

def startReturns (t : Timer) : Event → Option Bool
  | .start => some t.start.1
  | .startWith interval callBack => some (t.startWith interval callBack).1
  | _ => none

/-- A timer whose `start` returned false can still be started. -/
def FailedStartKeeps (t : Timer) (e : Event) : Prop :=
  t.status = .kNotStarted → t.startReturns e = some false → ∀ t' ∈ t.step e, t'.status = .kNotStarted

theorem failedStartKeeps_of_valid {e : Event} (h : t.ValidStart e) : t.FailedStartKeeps e := by
  intro hstatus hfalse
  cases e with
  | start =>
      rw [startReturns, start_valid hstatus (h hstatus)] at hfalse
      cases hfalse
  | startWith interval callBack =>
      have hvalid : (t.prepared interval callBack).interval ≠ 0 ∧ (t.prepared interval callBack).callBack = true := by
        simpa [prepared, isRunning, hstatus] using h hstatus
      rw [startReturns, startWith_eq, start_valid ((status_prepared _ _).trans hstatus) hvalid] at hfalse
      cases hfalse
  | _ => cases hfalse

/-- At most one `work()` is live, and one is while the status is `kStarted` or `kStopping`. -/
def LifeCycle (t : Timer) : Prop :=
  t.works.length ≤ 1 ∧ (t.status = .kStarted ∨ t.status = .kStopping → t.works.length = 1)

theorem lifeCycle_iff (h : t.Single) : t.LifeCycle ↔ t.Single ∧ t.Live := by
  have hlive : t.status = .kStarted ∨ t.status = .kStopping ↔ t.status ≠ .kNotStarted := by
    cases t.status <;> decide
  have hone := h.1
  rw [LifeCycle, and_iff_right h.1, and_iff_right h, hlive, Live, ← List.length_pos_iff]
  exact imp_congr_right fun _ => by omega

theorem lifeCycle_run_iff (hsingle : t.Single) (hlive : t.Live) (events : List Event) :
    (∀ n, ∀ t' ∈ runSystem step t (events.take n), t'.LifeCycle) ↔ Throughout step ValidStart t events := by
  apply throughout_iff_goal (fun _ _ _ => single_step) (fun _ => lifeCycle_iff) (fun t e h => validStart_iff h) hsingle
  exact ⟨hsingle, hlive⟩

end

/-- **The life cycle.** Status and coroutine stay paired in a run, and a failed `start` leaves the timer as it was,
exactly when every `start` that finds the timer not started has an interval and a callback. -/
theorem timer_lifeCycle_iff (autoreset : Bool) (interval : Int) (callBack : Bool) (now : Int) (events : List Event) :
    ((∀ n, ∀ t ∈ runSystem step (construct autoreset interval callBack now) (events.take n), t.LifeCycle) ∧
        Throughout step FailedStartKeeps (construct autoreset interval callBack now) events) ↔
      Throughout step ValidStart (construct autoreset interval callBack now) events := by
  have hsingle := single_construct autoreset interval callBack now
  rw [lifeCycle_run_iff hsingle fun h => absurd rfl h]
  apply and_iff_left_of_imp
  intro hvalid
  exact throughout_iff.mpr fun n e he t ht => failedStartKeeps_of_valid (throughout_iff.mp hvalid n e he t ht)

/-- A timer that is started without a callback is started and has no coroutine; a `stop` leaves it stopping, and it can
never be started. -/
theorem timer_started_without_callback :
    let events : List Event := [.start, .stop, .startWith 100 true]
    runSystem step (construct true 100 false 0) (events.take 1) =
        some { construct true 100 false 0 with status := .kStarted } ∧
      runSystem step (construct true 100 false 0) events =
        some { construct true 100 true 0 with status := .kStopping } ∧
      ¬ ∀ n, ∀ t ∈ runSystem step (construct true 100 false 0) (events.take n), t.LifeCycle := by
  refine ⟨rfl, rfl, fun h => ?_⟩
  exact absurd ((h 1 _ rfl).2 (.inl rfl)) (by decide)

/-! ## Resetting -/

section
variable {t t' : Timer}

/-- The timer is running, and its coroutine waits and will wait again. -/
def WaitsOn (t : Timer) (waitInterval deadline : Int) : Prop :=
  t.status = .kStarted ∧ t.works = [.waiting waitInterval true (.pending deadline)]

/-- A `reset` of a timer that waits leaves it waiting for another full interval, once the coroutine has seen the
cancelled wait. -/
def ResetPostpones (t : Timer) (e : Event) : Prop :=
  e = .reset → ∀ waitInterval deadline, t.WaitsOn waitInterval deadline →
    t.reset.resume 0 = some { t with works := [.waiting waitInterval true (.pending (t.now + waitInterval))] }

/-- The callback is called at the deadline, if the wait is left alone. -/
def CallsAtDeadline (t : Timer) : Prop :=
  ∀ waitInterval deadline, t.WaitsOn waitInterval deadline →
    runSystem step t [.advance (deadline - t.now).toNat, .expire 0, .resume 0] =
      some { t with now := t.now + (deadline - t.now).toNat, works := [.calling waitInterval true] }

def NoResetWhileWaiting (t : Timer) (e : Event) : Prop :=
  e = .reset → ∀ waitInterval deadline, ¬ t.WaitsOn waitInterval deadline

/-- A cancelled wait ends the coroutine and with it the timer. -/
theorem resume_reset {waitInterval deadline : Int} (h : t.WaitsOn waitInterval deadline) :
    t.reset.resume 0 = some { t with works := [], status := .kNotStarted } := by
  obtain ⟨-, hworks⟩ := h
  simp [reset, cancel, resume, leave, hworks, Work.cancel]

theorem resetPostpones_iff {e : Event} : t.ResetPostpones e ↔ t.NoResetWhileWaiting e := by
  refine imp_congr_right fun _ => forall₂_congr fun waitInterval deadline => ?_
  constructor
  · intro h hwaits
    have hstatus := congrArg (Option.map status) ((resume_reset hwaits).symm.trans (h hwaits))
    simp [hwaits.1] at hstatus
  · intro h hwaits
    exact absurd hwaits h

/-- A coroutine of a running timer has a callback to call. -/
def HasCallBack (t : Timer) : Prop := t.Single ∧ (t.status = .kStarted → t.works ≠ [] → t.callBack = true)

theorem hasCallBack_step {e : Event} (h : t.HasCallBack) (hstep : t.step e = some t') : t'.HasCallBack := by
  obtain ⟨hsingle, hcall⟩ := h
  refine ⟨single_step hsingle hstep, fun hstatus₁ hworks₁ => ?_⟩
  rcases change_of_step hstep with ⟨-, hchange⟩ | ⟨-, hstatus, -, hworks⟩
  · cases hchange with
    | keeps hstatus hworks hcallBack =>
        have hstarted : t.status = .kStarted := hstatus ▸ hstatus₁
        rw [hcallBack hstarted]
        exact hcall hstarted (List.length_pos_iff.mp (hworks ▸ List.length_pos_iff.mpr hworks₁))
    | stops hstatus hstatus' hworks => simp [hstatus'] at hstatus₁
    | spawns hstatus hstatus' hworks hcallBack => exact hcallBack
    | leaves hstatus' hworks => simp [hstatus'] at hstatus₁
  · exact absurd (hworks.trans (hsingle.2 hstatus)) hworks₁

theorem callsAtDeadline (h : t.HasCallBack) : t.CallsAtDeadline := by
  intro waitInterval deadline hwaits
  obtain ⟨hstatus, hworks⟩ := hwaits
  have hcallBack := h.2 hstatus (by simp [hworks])
  have hdue : deadline ≤ t.now + (deadline - t.now).toNat := by omega
  generalize (deadline - t.now).toNat = wait at hdue
  simp [runSystem, step, complete, resume, hworks, hcallBack, hdue]

end

/-- **Resetting.** Whatever waits undisturbed calls the callback at its deadline, and `reset` only postpones it, exactly
in the runs in which no `reset` meets a timer that waits. -/
theorem timer_reset_postpones_iff (interval : Int) (callBack : Bool) (now : Int) (events : List Event) :
    (Throughout step ResetPostpones (construct true interval callBack now) events ∧
        ∀ n, ∀ t ∈ runSystem step (construct true interval callBack now) (events.take n), t.CallsAtDeadline) ↔
      Throughout step NoResetWhileWaiting (construct true interval callBack now) events := by
  have hcalls : ∀ n, ∀ t ∈ runSystem step (construct true interval callBack now) (events.take n),
      t.CallsAtDeadline := by
    intro n t ht
    apply callsAtDeadline
    exact runSystem_keeps (fun _ _ _ => hasCallBack_step) ⟨single_construct .., fun _ h => absurd rfl h⟩ ht
  rw [and_iff_left hcalls, throughout_iff, throughout_iff]
  simp only [resetPostpones_iff]

/-- A `reset` in the middle of the first interval ends the timer. -/
theorem timer_reset_ends_timer :
    let events : List Event := [.start, .resume 0, .advance 50, .reset]
    runSystem step (construct true 100 true 0) (events ++ [.resume 0]) = some (construct true 100 true 50) ∧
      ¬ Throughout step ResetPostpones (construct true 100 true 0) events := by
  refine ⟨rfl, fun h => ?_⟩
  have hpostpones := throughout_iff.mp h 3 .reset rfl _ rfl rfl 100 100 ⟨rfl, rfl⟩
  exact absurd hpostpones (by decide)

end Timer

end Znode.Concurrency
