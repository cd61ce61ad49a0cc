import Mathlib
import Znode.Core.Amounts

/-!
# Fee rates

`FeeRate`: a rate is made of what was paid for a size, and charges a fee for a size.

* `ofPaid_eq`, `fee_eq` : without overflow both are the divisions of natural numbers `rateOf` and `feeOf`;
* `le_feeOf_add`, `feeOf_le` : what the two divisions lose, and that they gain nothing unless the fee comes out as zero
  (`RoundsUp`);
* `fee_of_paid` : the bounds of the fee for the size that was paid for.
-/

namespace Znode.Core
open Znode.Lib

/-- `1_KB` as an `int64_t`. -/
def oneKB : Int64 := 1000

structure FeeRate extends Amount
deriving DecidableEq, Repr

namespace FeeRate

def ofPaid (paid : Amount) (size : UInt64) : Result FeeRate :=
  if size = 0 then .ok { value := 0 }
  else do
    let rate ← divInt64 (← mulInt64 paid.value oneKB) size.toInt64
    return { value := rate }

/-- `FeeRate::fee`. A fee that comes out as zero is the rate itself. -/
def fee (rate : FeeRate) (bytesSize : UInt64 := 1000) : Result Amount := do
  let ret ← divInt64 (← mulInt64 rate.value bytesSize.toInt64) oneKB
  if ret = 0 then return { value := rate.value } else return { value := ret }

/-- The rate, and the fee for a size, in natural numbers. -/
def rateOf (paid size : Nat) : Nat := paid * 1000 / size

def feeOf (rate size : Nat) : Nat := if rate * size / 1000 = 0 then rate else rate * size / 1000

theorem toInt_oneKB : oneKB.toInt = 1000 := by decide

theorem toInt_toInt64 {size : UInt64} (h : size.toNat < 2 ^ 63) : size.toInt64.toInt = size.toNat := by
  have hnat : size.toInt64 = Int64.ofNat size.toNat := by rw [← UInt64.toInt64_ofNat', UInt64.ofNat_toNat]
  rw [hnat, Int64.toInt_ofNat_of_lt h]

theorem ofPaid_eq {paid : Amount} {size : UInt64} {p : Nat} (hpaid : paid.value.toInt = p)
    (hp : p ≤ 2100000000000000) (hlo : 1 ≤ size.toNat) (hhi : size.toNat < 2 ^ 63) :
    ∃ rate, ofPaid paid size = .ok rate ∧ rate.value.toInt = rateOf p size.toNat := by
  have hne : size ≠ 0 := by
    intro hzero
    rw [hzero] at hlo
    exact absurd hlo (by decide)
  have hsize := toInt_toInt64 hhi
  obtain ⟨m, hm, hmInt⟩ := mulInt64_ok (a := paid.value) (b := oneKB) (by rw [hpaid, toInt_oneKB]; omega)
    (by rw [hpaid, toInt_oneKB]; omega)
  rw [hpaid, toInt_oneKB] at hmInt
  obtain ⟨d, hd, hdInt⟩ := divInt64_ok (a := m) (b := size.toInt64) (by omega) (by omega)
  refine ⟨{ value := d }, ?_, ?_⟩
  · rw [ofPaid, if_neg hne, hm]
    simp only [bind, Except.bind, hd]
    rfl
  · rw [hdInt, hmInt, hsize, rateOf]
    push_cast
    rfl

theorem fee_eq {rate : FeeRate} {size : UInt64} {r : Nat} (hrate : rate.value.toInt = r)
    (hr : r * size.toNat < 2 ^ 63) (hhi : size.toNat < 2 ^ 63) :
    ∃ f, rate.fee size = .ok f ∧ f.value.toInt = feeOf r size.toNat := by
  have hsize := toInt_toInt64 hhi
  have hprod : rate.value.toInt * size.toInt64.toInt = (r * size.toNat : Nat) := by
    rw [hrate, hsize]
    push_cast
    rfl
  obtain ⟨m, hm, hmInt⟩ := mulInt64_ok (a := rate.value) (b := size.toInt64) (by rw [hprod]; omega)
    (by rw [hprod]; exact_mod_cast hr)
  rw [hprod] at hmInt
  obtain ⟨d, hd, hdInt⟩ := divInt64_ok (a := m) (b := oneKB) (by omega) (by rw [toInt_oneKB]; omega)
  rw [hmInt, toInt_oneKB] at hdInt
  have hzero : d = 0 ↔ r * size.toNat / 1000 = 0 := by
    rw [← Int64.toInt_inj, hdInt, Int64.toInt_zero]
    omega
  refine ⟨{ value := if d = 0 then rate.value else d }, ?_, ?_⟩
  · rw [fee, hm]
    simp only [bind, Except.bind, hd]
    split_ifs <;> rfl
  · simp only [hzero, feeOf]
    split_ifs
    · exact hrate
    · rw [hdInt]
      push_cast
      rfl

/-- The case in which the fee comes out as zero and the rate is more than what was paid. -/
def RoundsUp (paid size : Nat) : Prop := paid = 1 ∧ size < 500 ∧ 1000 % size ≠ 0

theorem rateOf_mul (paid : Nat) {size : Nat} (h : 1 ≤ size) :
    rateOf paid size * size ≤ paid * 1000 ∧ paid * 1000 < rateOf paid size * size + size :=
  ⟨Nat.div_mul_le_self _ _, Nat.lt_div_mul_add h⟩

theorem le_feeOf_add (paid : Nat) {size : Nat} (h : 1 ≤ size) :
    paid ≤ feeOf (rateOf paid size) size + (size + 999) / 1000 := by
  obtain ⟨hle, hlt⟩ := rateOf_mul paid h
  unfold feeOf
  split_ifs with hzero <;> omega

theorem feeOf_le {paid size : Nat} (h : 1 ≤ size) (hround : ¬ RoundsUp paid size) :
    feeOf (rateOf paid size) size ≤ paid := by
  obtain ⟨hle, hlt⟩ := rateOf_mul paid h
  unfold feeOf
  split_ifs with hzero
  · by_cases hsize : 1000 ≤ size
    · -- a rate for fewer bytes than were paid for
      have hmul := Nat.mul_le_mul_left (rateOf paid size) hsize
      omega
    · -- at most one unit was paid, or the fee would not come out as zero
      have hpaid : paid ≤ 1 := by omega
      interval_cases paid
      · simp [rateOf]
      · rw [rateOf, Nat.one_mul] at hzero ⊢
        by_contra hgt
        have hhalf : 2 * size ≤ 1000 := (Nat.le_div_iff_mul_le h).mp (by omega)
        have hdiv := Nat.div_add_mod' 1000 size
        have hmod : 1000 % size ≠ 0 := by omega
        have hne : size ≠ 500 := fun heq => hmod (by rw [heq])
        exact hround ⟨rfl, by omega, hmod⟩
  · omega

theorem feeOf_roundsUp {paid size : Nat} (hround : RoundsUp paid size) :
    feeOf (rateOf paid size) size = 1000 / size := by
  obtain ⟨rfl, hsize, hmod⟩ := hround
  have hlt : 1000 / size * size < 1000 := by
    have hdiv := Nat.div_add_mod' 1000 size
    omega
  rw [feeOf, rateOf, Nat.one_mul, if_pos (Nat.div_eq_of_lt hlt)]

/-- **What a rate charges back** for the size it was made of, for every valid amount and size up to 4 MiB: nothing
overflows, and the fee is not lower than what was paid by more than one unit for each thousand bytes begun. It is not
higher either, unless one unit was paid for less than 500 bytes and their number does not divide 1000: the fee comes out
as zero then, and is the rate instead. -/
theorem fee_of_paid {paid : Amount} {size : UInt64} (hpaid : paid.validMoney) (hlo : 1 ≤ size.toNat)
    (hhi : size.toNat ≤ 4 * 2 ^ 20) :
    ∃ rate f, ofPaid paid size = .ok rate ∧ rate.fee size = .ok f ∧
      paid.value.toInt - ((size.toNat + 999) / 1000 : Nat) ≤ f.value.toInt ∧
      (f.value.toInt ≤ paid.value.toInt ∨
        paid.value.toInt = 1 ∧ size.toNat < 500 ∧ 1000 % size.toNat ≠ 0 ∧
          f.value.toInt = (1000 / size.toNat : Nat)) := by
  obtain ⟨hnonneg, hmax⟩ := (Amount.validMoney_iff paid).mp hpaid
  obtain ⟨p, hp⟩ := Int.eq_ofNat_of_zero_le hnonneg
  obtain ⟨rate, hrate, hrateInt⟩ := ofPaid_eq hp (by omega) hlo (by omega)
  have hmul := (rateOf_mul p hlo).1
  obtain ⟨f, hf, hfInt⟩ := fee_eq hrateInt (by omega : rateOf p size.toNat * size.toNat < 2 ^ 63) (by omega)
  refine ⟨rate, f, hrate, hf, ?_, ?_⟩
  · have hle := le_feeOf_add p hlo
    omega
  · by_cases hround : RoundsUp p size.toNat
    · have hfee := feeOf_roundsUp hround
      obtain ⟨hone, hsize, hmod⟩ := hround
      exact .inr ⟨by omega, hsize, hmod, by rw [hfInt, hfee]⟩
    · have hle := feeOf_le hlo hround
      exact .inl (by omega)

theorem fee_of_paid_one_coin :
    Amount.validMoney { value := 100000000 } ∧
      ∃ rate f, ofPaid { value := 100000000 } 300 = .ok rate ∧ rate.fee 300 = .ok f ∧
        100000000 - ((300 + 999) / 1000 : Nat) ≤ f.value.toInt ∧
        (f.value.toInt ≤ 100000000 ∨ (100000000 : Int) = 1 ∧ 300 < 500 ∧ 1000 % 300 ≠ 0 ∧
          f.value.toInt = (1000 / 300 : Nat)) :=
  ⟨by decide, @fee_of_paid { value := 100000000 } 300 (by decide) (by decide) (by decide)⟩

/-- One unit paid for 400 bytes: the rate is two units, and so is the fee. -/
theorem fee_exceeds_paid : Amount.validMoney { value := 1 } ∧ ofPaid { value := 1 } 400 = .ok { value := 2 } ∧
    fee { value := 2 } 400 = .ok { value := 2 } ∧ ¬ (2 : Int64).toInt ≤ (1 : Int64).toInt := by
  decide

end FeeRate

end Znode.Core
