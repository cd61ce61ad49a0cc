import Mathlib.Data.UInt

/-!
# Error codes and undefined behaviour

* `Errc` : the error codes of the library that the parsers return;
* `Trap` : what a call does that neither returns a value nor an error code;
* `Result` : a value, an error code or a trap (`bind_eq_ok_iff`, `map_eq_ok_iff`);
* `fitInt64` : an integer that must fit `int64_t`; arithmetic of `int64_t` on it (`mulInt64`, `addInt64`, `divInt64`).
-/

namespace Znode.Core

inductive Errc where
  | invalidArgument
  | resultOutOfRange
  | valueTooLarge
  | badAddress
  | illegalByteSequence
deriving DecidableEq, Repr

/-- Undefined behaviour, and the exception of `boost::lexical_cast`. -/
inductive Trap where
  | signedOverflow
  | divisionByZero
  | shiftTooLarge
  | indexOutOfRange
  | badLexicalCast
deriving DecidableEq, Repr

inductive Stop where
  | errc (e : Errc)
  | trap (t : Trap)
deriving DecidableEq, Repr

abbrev Result := Except Stop

theorem bind_eq_ok_iff {ε α β : Type} {x : Except ε α} {f : α → Except ε β} {b : β} :
    (x >>= f) = .ok b ↔ ∃ a, x = .ok a ∧ f a = .ok b := by
  cases x with
  | error e => simp [bind, Except.bind]
  | ok a => simp [bind, Except.bind]

theorem map_eq_ok_iff {ε α β : Type} {x : Except ε α} {f : α → β} {b : β} :
    x.map f = .ok b ↔ ∃ a, x = .ok a ∧ f a = b := by
  cases x with
  | error e => simp [Except.map]
  | ok a => simp [Except.map]

def fitInt64 (v : Int) : Result Int64 :=
  if -2 ^ 63 ≤ v ∧ v < 2 ^ 63 then .ok (Int64.ofInt v) else .error (.trap .signedOverflow)

def mulInt64 (a b : Int64) : Result Int64 := fitInt64 (a.toInt * b.toInt)

def addInt64 (a b : Int64) : Result Int64 := fitInt64 (a.toInt + b.toInt)

/-- Division towards zero. -/
def divInt64 (a b : Int64) : Result Int64 :=
  if b = 0 then .error (.trap .divisionByZero) else fitInt64 (a.toInt.tdiv b.toInt)

theorem fitInt64_ok {v : Int} (hlo : -2 ^ 63 ≤ v) (hhi : v < 2 ^ 63) : fitInt64 v = .ok (Int64.ofInt v) :=
  if_pos ⟨hlo, hhi⟩

theorem mulInt64_ok {a b : Int64} (hlo : -2 ^ 63 ≤ a.toInt * b.toInt) (hhi : a.toInt * b.toInt < 2 ^ 63) :
    ∃ c, mulInt64 a b = .ok c ∧ c.toInt = a.toInt * b.toInt :=
  ⟨_, fitInt64_ok hlo hhi, Int64.toInt_ofInt_of_le hlo hhi⟩

theorem addInt64_ok {a b : Int64} (hlo : -2 ^ 63 ≤ a.toInt + b.toInt) (hhi : a.toInt + b.toInt < 2 ^ 63) :
    ∃ c, addInt64 a b = .ok c ∧ c.toInt = a.toInt + b.toInt :=
  ⟨_, fitInt64_ok hlo hhi, Int64.toInt_ofInt_of_le hlo hhi⟩

theorem divInt64_ok {a b : Int64} (ha : 0 ≤ a.toInt) (hb : 0 < b.toInt) :
    ∃ c, divInt64 a b = .ok c ∧ c.toInt = a.toInt / b.toInt := by
  have hne : b ≠ 0 := by
    intro hzero
    rw [hzero] at hb
    exact absurd hb (by decide)
  have hdiv : a.toInt.tdiv b.toInt = a.toInt / b.toInt := Int.tdiv_eq_ediv_of_nonneg ha
  have hlo : 0 ≤ a.toInt / b.toInt := Int.ediv_nonneg ha hb.le
  have hle : a.toInt / b.toInt ≤ a.toInt := Int.ediv_le_self _ ha
  have hhi := a.toInt_lt
  refine ⟨_, ?_, Int64.toInt_ofInt_of_le (by omega) (by omega)⟩
  rw [divInt64, if_neg hne, hdiv, fitInt64_ok (by omega) (by omega)]

end Znode.Core
