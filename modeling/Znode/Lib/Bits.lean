import Mathlib.Data.List.GetD
import Mathlib.Data.Nat.Bitwise
import Mathlib.Data.UInt
import Znode.Lib.BigEndian

/-!
# Bits of byte strings, the highest bit of the first byte first

* `bit s k` : bit `k`; byte strings of one length are determined by their bits (`ext_bit`);
* `bit_beBytes` : the bits of a number written in bytes;
* `Agree p s t` : the first `p` bits are the same, byte by byte `agree_cons` and `agree_high`;
* `IsFront p s t` : `t` has the first `p` bits of `s` and zeros behind them. There is one such string
  (`IsFront.unique`), taking it twice is taking the shorter one (`IsFront.comp`), and strings agree on `p` bits if
  theirs are the same (`IsFront.eq_iff_agree`);
* `isFront_and` : a mask of `p` ones gives it; `isFront_take` : it is whole bytes and zeros if `p` is a number of bytes.
-/

namespace Znode.Lib

/-- Bit `k` of a byte string; behind the end there are zeros. -/
def bit (s : Bytes) (k : Nat) : Bool := (s.getD (k / 8) 0).toNat.testBit (7 - k % 8)

theorem bit_of_length_le {s : Bytes} {k : Nat} (h : 8 * s.length ≤ k) : bit s k = false := by
  rw [bit, List.getD_eq_default _ _ (by omega)]
  exact Nat.zero_testBit _

/-- **Byte strings are the same** if their bits are. -/
theorem ext_bit {s t : Bytes} (hlen : s.length = t.length) (h : ∀ k, bit s k = bit t k) : s = t := by
  apply List.ext_getElem hlen
  intro i hs ht
  apply UInt8.toNat_inj.mp
  apply Nat.eq_of_testBit_eq
  intro j
  by_cases hj : j < 8
  · have hbit := h (8 * i + (7 - j))
    have hi : (8 * i + (7 - j)) / 8 = i := by omega
    have hj' : 7 - (8 * i + (7 - j)) % 8 = j := by omega
    rwa [bit, bit, hi, hj', List.getD_eq_getElem _ _ hs, List.getD_eq_getElem _ _ ht] at hbit
  · -- a byte has eight bits
    have hhigh : ∀ b : UInt8, b.toNat.testBit j = false := fun b =>
      Nat.testBit_lt_two_pow (b.toNat_lt.trans_le (Nat.pow_le_pow_right (by decide) (Nat.le_of_not_lt hj)))
    rw [hhigh, hhigh]

theorem bit_cons_of_lt (b : UInt8) (s : Bytes) {k : Nat} (hk : k < 8) : bit (b :: s) k = b.toNat.testBit (7 - k) := by
  rw [bit, Nat.div_eq_of_lt hk, Nat.mod_eq_of_lt hk, List.getD_cons_zero]

theorem bit_cons_add (b : UInt8) (s : Bytes) (k : Nat) : bit (b :: s) (k + 8) = bit s k := by
  rw [bit, bit, Nat.add_div_right k (by decide), Nat.add_mod_right, List.getD_cons_succ]

theorem bit_replicate_append (n : Nat) (s : Bytes) (k : Nat) :
    bit (List.replicate n 0xFF ++ s) k = (decide (k < 8 * n) || bit s (k - 8 * n)) := by
  induction n generalizing k with
  | zero => simp
  | succ n ih =>
      rw [List.replicate_succ, List.cons_append]
      by_cases hk : k < 8
      · rw [bit_cons_of_lt _ _ hk, decide_eq_true (by omega), Bool.true_or]
        exact Nat.testBit_two_pow_sub_one 8 _ |>.trans (decide_eq_true (by omega))
      · obtain ⟨j, rfl⟩ := Nat.exists_eq_add_of_le' (Nat.le_of_not_lt hk)
        rw [bit_cons_add, ih, show j + 8 - 8 * (n + 1) = j - 8 * n by omega,
          decide_eq_decide.mpr (by omega : j + 8 < 8 * (n + 1) ↔ j < 8 * n)]

theorem bit_zeros (n k : Nat) : bit (List.replicate n 0) k = false := by
  rw [bit]
  by_cases hk : k / 8 < n
  · rw [List.getD_eq_getElem _ _ (by rwa [List.length_replicate]), List.getElem_replicate]
    exact Nat.zero_testBit _
  · rw [List.getD_eq_default _ _ (by rw [List.length_replicate]; omega)]
    exact Nat.zero_testBit _

theorem bit_beBytes {n k : Nat} (v : Nat) (hk : k < 8 * n) : bit (beBytes n v) k = v.testBit (8 * n - 1 - k) := by
  induction n generalizing k with
  | zero => omega
  | succ n ih =>
      rw [beBytes_succ]
      by_cases hfirst : k < 8
      · rw [bit_cons_of_lt _ _ hfirst, UInt8.toNat_ofNat', Nat.testBit_mod_two_pow, decide_eq_true (by omega),
          Bool.true_and, show 256 ^ n = 2 ^ (8 * n) by rw [Nat.pow_mul], Nat.testBit_div_two_pow]
        congr 1
        omega
      · obtain ⟨j, rfl⟩ := Nat.exists_eq_add_of_le' (Nat.le_of_not_lt hfirst)
        rw [bit_cons_add, ih (by omega)]
        congr 1
        omega

theorem bit_and {s t : Bytes} (hlen : s.length = t.length) (k : Nat) :
    bit (List.zipWith (· &&& ·) s t) k = (bit s k && bit t k) := by
  by_cases hk : k / 8 < s.length
  · have hk' : k / 8 < (List.zipWith (· &&& ·) s t).length := by
      rw [List.length_zipWith]
      omega
    rw [bit, bit, bit, List.getD_eq_getElem _ _ hk', List.getElem_zipWith, List.getD_eq_getElem _ _ hk,
      List.getD_eq_getElem _ _ (hlen ▸ hk), UInt8.toNat_and, Nat.testBit_and]
  · rw [bit_of_length_le (s := s) (by omega), bit_of_length_le (by rw [List.length_zipWith]; omega), Bool.false_and]

/-- The first `p` bits are the same. -/
def Agree (p : Nat) (s t : Bytes) : Prop := ∀ k < p, bit s k = bit t k

instance (p : Nat) (s t : Bytes) : Decidable (Agree p s t) := inferInstanceAs (Decidable (∀ k < p, bit s k = bit t k))

theorem Agree.mono {p q : Nat} {s t : Bytes} (h : Agree q s t) (hpq : p ≤ q) : Agree p s t :=
  fun k hk => h k (hk.trans_le hpq)

theorem Agree.symm {p : Nat} {s t : Bytes} (h : Agree p s t) : Agree p t s := fun k hk => (h k hk).symm

theorem Agree.trans {p : Nat} {s t u : Bytes} (h : Agree p s t) (h' : Agree p t u) : Agree p s u :=
  fun k hk => (h k hk).trans (h' k hk)

@[simp]
theorem agree_zero (s t : Bytes) : Agree 0 s t := fun k hk => absurd hk (Nat.not_lt_zero k)

theorem agree_iff_eq {p : Nat} {s t : Bytes} (hlen : s.length = t.length) (hp : 8 * s.length ≤ p) :
    Agree p s t ↔ s = t := by
  constructor
  · intro h
    apply ext_bit hlen
    intro k
    by_cases hk : k < p
    · exact h k hk
    · rw [bit_of_length_le (by omega), bit_of_length_le (by omega)]
  · rintro rfl k -
    rfl

theorem agree_high {p : Nat} (hp : p ≤ 8) (x y : UInt8) (s t : Bytes) :
    Agree p (x :: s) (y :: t) ↔ x.toNat / 2 ^ (8 - p) = y.toNat / 2 ^ (8 - p) := by
  constructor
  · intro h
    apply Nat.eq_of_testBit_eq
    intro j
    rw [Nat.testBit_div_two_pow, Nat.testBit_div_two_pow]
    by_cases hj : j < p
    · have hbit := h (p - 1 - j) (by omega)
      rw [bit_cons_of_lt _ _ (by omega), bit_cons_of_lt _ _ (by omega)] at hbit
      rwa [show 7 - (p - 1 - j) = j + (8 - p) by omega] at hbit
    · have hhigh : ∀ b : UInt8, b.toNat.testBit (j + (8 - p)) = false := fun b =>
        Nat.testBit_lt_two_pow (b.toNat_lt.trans_le (Nat.pow_le_pow_right (by decide) (by omega)))
      rw [hhigh, hhigh]
  · intro h k hk
    rw [bit_cons_of_lt _ _ (by omega), bit_cons_of_lt _ _ (by omega), show 7 - k = p - 1 - k + (8 - p) by omega,
      ← Nat.testBit_div_two_pow, ← Nat.testBit_div_two_pow, h]

theorem agree_cons (p : Nat) (x y : UInt8) (s t : Bytes) :
    Agree (p + 8) (x :: s) (y :: t) ↔ x = y ∧ Agree p s t := by
  constructor
  · intro h
    have hfirst := (agree_high le_rfl x y s t).mp (h.mono (Nat.le_add_left 8 p))
    refine ⟨UInt8.toNat_inj.mp (by simpa using hfirst), fun k hk => ?_⟩
    have hbit := h (k + 8) (by omega)
    rwa [bit_cons_add, bit_cons_add] at hbit
  · rintro ⟨rfl, h⟩ k hk
    by_cases hfirst : k < 8
    · rw [bit_cons_of_lt _ _ hfirst, bit_cons_of_lt _ _ hfirst]
    · obtain ⟨j, rfl⟩ := Nat.exists_eq_add_of_le' (Nat.le_of_not_lt hfirst)
      rw [bit_cons_add, bit_cons_add]
      exact h j (by omega)

/-- `t` has the first `p` bits of `s`, and zeros behind them. -/
structure IsFront (p : Nat) (s t : Bytes) : Prop where
  length : t.length = s.length
  bits : ∀ k, bit t k = (decide (k < p) && bit s k)

section Front
variable {p q : Nat} {s t s' t' : Bytes}

theorem IsFront.agree (h : IsFront p s t) : Agree p t s := by
  intro k hk
  rw [h.bits, decide_eq_true hk, Bool.true_and]

theorem IsFront.eq_iff_agree (hs : IsFront p s s') (ht : IsFront p t t') (hlen : s.length = t.length) :
    s' = t' ↔ Agree p s t := by
  constructor
  · intro heq k hk
    rw [← hs.agree k hk, heq, ht.agree k hk]
  · intro hagree
    apply ext_bit (by rw [hs.length, ht.length, hlen])
    intro k
    rw [hs.bits, ht.bits]
    by_cases hk : k < p
    · rw [hagree k hk]
    · rw [decide_eq_false hk, Bool.false_and, Bool.false_and]

theorem IsFront.unique (h : IsFront p s t) (h' : IsFront p s t') : t = t' :=
  (h.eq_iff_agree h' rfl).mpr fun _ _ => rfl

/-- The first `p` bits of the first `q` bits. -/
theorem IsFront.comp (hq : IsFront q s s') (hp : IsFront p s' t) (hpq : p ≤ q) : IsFront p s t := by
  refine ⟨hp.length.trans hq.length, fun k => ?_⟩
  rw [hp.bits, hq.bits]
  by_cases hk : k < p
  · rw [decide_eq_true (hk.trans_le hpq), Bool.true_and]
  · rw [decide_eq_false hk, Bool.false_and, Bool.false_and]

theorem IsFront.self (h : IsFront p s t) : IsFront p t t := by
  refine ⟨rfl, fun k => ?_⟩
  rw [h.bits, ← Bool.and_assoc, Bool.and_self]

/-- `t` is what `s` begins with if it has no bits behind the first `p`, and agrees with `s` on these. -/
theorem isFront_iff : IsFront p s t ↔ IsFront p t t ∧ t.length = s.length ∧ Agree p t s := by
  constructor
  · exact fun h => ⟨h.self, h.length, h.agree⟩
  · rintro ⟨hself, hlen, hagree⟩
    refine ⟨hlen, fun k => ?_⟩
    rw [hself.bits]
    by_cases hk : k < p
    · rw [hagree k hk]
    · rw [decide_eq_false hk, Bool.false_and, Bool.false_and]

theorem isFront_take (s : Bytes) (m : Nat) : IsFront (8 * m) s (s.take m ++ List.replicate (s.length - m) 0) := by
  refine ⟨by rw [List.length_append, List.length_take, List.length_replicate]; omega, fun k => ?_⟩
  induction m generalizing s k with
  | zero => simp [bit_zeros]
  | succ m ih =>
      cases s with
      | nil => simp [bit_of_length_le]
      | cons b s =>
          rw [List.take_succ_cons, List.cons_append, List.length_cons, Nat.add_sub_add_right]
          by_cases hk : k < 8
          · rw [bit_cons_of_lt _ _ hk, bit_cons_of_lt _ _ hk, decide_eq_true (by omega), Bool.true_and]
          · obtain ⟨j, rfl⟩ := Nat.exists_eq_add_of_le' (Nat.le_of_not_lt hk)
            rw [bit_cons_add, bit_cons_add, ih s j, decide_eq_decide.mpr (by omega : j + 8 < 8 * (m + 1) ↔ j < 8 * m)]

theorem isFront_and {mask : Bytes} (hlen : s.length = mask.length)
    (hmask : ∀ k < 8 * s.length, bit mask k = decide (k < p)) : IsFront p s (List.zipWith (· &&& ·) s mask) := by
  refine ⟨by rw [List.length_zipWith]; omega, fun k => ?_⟩
  rw [bit_and hlen, Bool.and_comm]
  by_cases hk : k < 8 * s.length
  · rw [hmask k hk]
  · rw [bit_of_length_le (Nat.le_of_not_lt hk), Bool.and_false, Bool.and_false]

end Front

end Znode.Lib
