import Mathlib
import Znode.Lib.System

/-!
# Channels

`Channel` wraps a `concurrent_channel` of asio. `try_receive` makes three calls on it, each of them atomic: `is_open`,
`ready` and `try_receive`. The last one hands an element to the handler if there is one; whether the handler has set
an error decides the answer.

* `Channel` : the channel of asio. Its elements are those a receiver can get, buffered or offered by a suspended sender;
* `Channels.step` : senders, receivers and `close` calls in any order, and the threads in `try_receive`;
* `Outcome.Truthful` : a call of `try_receive` has answered according to what it removed and stored;
* `try_receive_truthful_iff` : the runs in which all calls do. When another receiver has taken the element in between,
  the handler does not run and the answer is `true`; when the element was sent with an error, it is removed and the
  answer is `false`.

What `ready` answers is a parameter.
-/

namespace Znode.Concurrency
open Znode.Lib

/-- What a sender passes: whether the error code is set, and the value. -/
structure Element (T : Type) where
  error : Bool
  value : T
deriving DecidableEq, Repr

/-- `concurrent_channel`. A suspended `async_receive` gets the next element before anybody can see it. -/
structure Channel (T : Type) where
  maxBufferSize : Nat := 0
  isOpen : Bool := true
  elements : List (Element T) := []
  receivers : Nat := 0
deriving DecidableEq, Repr

namespace Channel
variable {T : Type}

/-- A sender that waits for room offers its element as well. -/
def asyncSend (c : Channel T) (element : Element T) : Channel T :=
  if !c.isOpen then c
  else if c.receivers = 0 then { c with elements := c.elements ++ [element] }
  else { c with receivers := c.receivers - 1 }

/-- `try_send` needs room in the buffer, or a receiver. -/
def trySend (c : Channel T) (value : T) : Channel T :=
  if c.receivers = 0 ∧ c.maxBufferSize ≤ c.elements.length then c else c.asyncSend ⟨false, value⟩

def asyncReceive (c : Channel T) : Channel T :=
  if c.elements ≠ [] then { c with elements := c.elements.tail }
  else if c.isOpen then { c with receivers := c.receivers + 1 }
  else c

/-- What is in the buffer stays, the suspended senders and receivers fail. -/
def close (c : Channel T) : Channel T :=
  { c with isOpen := false, elements := c.elements.take c.maxBufferSize, receivers := 0 }

end Channel

/-- A finished call of `try_receive`: the answer, the `result` argument before and after, and the elements that were
removed. -/
structure Outcome (T : Type) where
  ret : Bool
  before : T
  after : T
  removed : List (Element T)
deriving DecidableEq, Repr

/-- The answer is `true` exactly when one element was removed and stored; with `false`, nothing has changed. -/
def Outcome.Truthful {T : Type} (r : Outcome T) : Prop :=
  (r.ret = true ↔ ∃ element, r.removed = [element] ∧ r.after = element.value) ∧
    (r.ret = false → r.after = r.before ∧ r.removed = [])

/-- Where a thread stands in `try_receive`, with its `result` argument. -/
inductive Receiving (T : Type) where
  | outside
  | foundOpen (result : T)
  | foundReady (result : T)
deriving DecidableEq, Repr

/-- The channel, the threads, and the calls of `try_receive` that have returned. -/
structure Channels (T : Type) where
  channel : Channel T
  threads : Nat → Receiving T := fun _ => .outside
  outcomes : List (Outcome T) := []

namespace Channels
variable {T : Type}

/-- The atomic steps; `i` is a thread that calls `try_receive`. -/
inductive Event (T : Type) where
  | asyncSend (element : Element T)
  | trySend (value : T)
  | asyncReceive
  | close
  | isOpen (i : Nat) (result : T)
  | ready (i : Nat)
  | tryReceive (i : Nat)
deriving DecidableEq, Repr

def advance (s : Channels T) (i : Nat) (thread : Receiving T) : Channels T :=
  { s with threads := Function.update s.threads i thread }

def leave (s : Channels T) (i : Nat) (outcome : Outcome T) : Channels T :=
  { s.advance i .outside with outcomes := outcome :: s.outcomes }

/-- `channel_.try_receive(handler)` and the `return` after it. -/
def take (s : Channels T) (i : Nat) (result : T) : Channels T :=
  match s.channel.elements with
  | [] => s.leave i ⟨true, result, result, []⟩
  | element :: elements =>
    { s.leave i ⟨!element.error, result, if element.error then result else element.value, [element]⟩ with
      channel := { s.channel with elements := elements } }

def step (ready : Channel T → Bool) (s : Channels T) : Event T → Option (Channels T)
  | .asyncSend element => some { s with channel := s.channel.asyncSend element }
  | .trySend value => some { s with channel := s.channel.trySend value }
  | .asyncReceive => some { s with channel := s.channel.asyncReceive }
  | .close => some { s with channel := s.channel.close }
  | .isOpen i result =>
    match s.threads i with
    | .outside =>
      some (if s.channel.isOpen then s.advance i (.foundOpen result) else s.leave i ⟨false, result, result, []⟩)
    | _ => none
  | .ready i =>
    match s.threads i with
    | .foundOpen result =>
      some (if ready s.channel then s.advance i (.foundReady result) else s.leave i ⟨false, result, result, []⟩)
    | _ => none
  | .tryReceive i =>
    match s.threads i with
    | .foundReady result => some (s.take i result)
    | _ => none

def Truthful (s : Channels T) : Prop := ∀ r ∈ s.outcomes, r.Truthful

/-- A thread that has found the channel ready still finds an element, and it was sent without an error. -/
def FindsElement (s : Channels T) (e : Event T) : Prop :=
  ∀ i result, e = .tryReceive i → s.threads i = .foundReady result →
    ∃ element ∈ s.channel.elements.head?, element.error = false

end Channels

/-! ## The answers -/

namespace Outcome
variable {T : Type} {result : T}

theorem truthful_refused : Truthful ⟨false, result, result, []⟩ := by simp [Truthful]

theorem not_truthful_missed : ¬ Truthful ⟨true, result, result, []⟩ := by simp [Truthful]

theorem truthful_handled {element : Element T} :
    Truthful ⟨!element.error, result, if element.error then result else element.value, [element]⟩ ↔
      element.error = false := by
  cases element.error <;> simp [Truthful]

end Outcome

namespace Channels
variable {T : Type} {ready : Channel T → Bool} {s s' : Channels T}

theorem truthful_leave {i : Nat} {outcome : Outcome T} :
    (s.leave i outcome).Truthful ↔ outcome.Truthful ∧ s.Truthful := List.forall_mem_cons

theorem truthful_take {i : Nat} {result : T} (h : s.Truthful) :
    (s.take i result).Truthful ↔ ∃ element ∈ s.channel.elements.head?, element.error = false := by
  unfold take
  cases s.channel.elements with
  | nil => simpa [truthful_leave] using fun hmissed => absurd hmissed Outcome.not_truthful_missed
  | cons element elements =>
      change (s.leave i _).Truthful ↔ _
      rw [truthful_leave, Outcome.truthful_handled]
      simp [h]

/-- A step in which whoever takes an element finds a good one keeps the answers truthful. -/
theorem step_truthful {e : Event T} (h : s.Truthful) (hfinds : s.FindsElement e) (hstep : s.step ready e = some s') :
    s'.Truthful := by
  cases e with
  | asyncSend _ | trySend _ | asyncReceive | close =>
      cases hstep
      exact h
  | isOpen i result =>
      simp only [step] at hstep
      split at hstep <;> cases hstep
      split_ifs
      · exact h
      · exact truthful_leave.mpr ⟨Outcome.truthful_refused, h⟩
  | ready i =>
      simp only [step] at hstep
      split at hstep <;> cases hstep
      split_ifs
      · exact h
      · exact truthful_leave.mpr ⟨Outcome.truthful_refused, h⟩
  | tryReceive i =>
      simp only [step] at hstep
      split at hstep <;> cases hstep
      rename_i result hready
      exact (truthful_take h).mpr (hfinds i result rfl hready)

theorem findsElement_iff (s : Channels T) (e : Event T) (h : s.Truthful) :
    s.FindsElement e ↔ ∀ s' ∈ s.step ready e, s'.Truthful := by
  constructor
  · intro hfinds s' hs'
    exact step_truthful h hfinds hs'
  · rintro hall i result rfl hready
    have hstep : s.step ready (.tryReceive i) = some (s.take i result) := by simp only [step, hready]
    exact (truthful_take h).mp (hall _ hstep)

/-- **`try_receive` reports truthfully** along a run exactly when every thread that has found the channel ready still
finds an element there, one that was sent without an error. -/
theorem try_receive_truthful_iff (ready : Channel T → Bool) (channel : Channel T) (events : List (Event T)) :
    (∀ n, ∀ s ∈ runSystem (step ready) { channel := channel } (events.take n), s.Truthful) ↔
      Throughout (step ready) FindsElement { channel := channel } events := by
  apply throughout_iff_invariant findsElement_iff
  exact fun _ hr => absurd hr List.not_mem_nil

def hasElement (c : Channel T) : Bool := !c.elements.isEmpty

/-- Two threads find the channel ready. One takes the only element, and the other one still answers `true`. -/
theorem try_receive_missed : ∃ s, runSystem (step hasElement) { channel := { elements := [⟨false, 7⟩] } }
    [.isOpen 0 0, .ready 0, .isOpen 1 0, .ready 1, .tryReceive 0, .tryReceive 1] = some s ∧
      ⟨true, 0, 0, []⟩ ∈ s.outcomes ∧ ¬ s.Truthful := by
  refine ⟨_, rfl, List.mem_cons_self, fun h => ?_⟩
  exact Outcome.not_truthful_missed (h _ List.mem_cons_self)

end Channels

end Znode.Concurrency
