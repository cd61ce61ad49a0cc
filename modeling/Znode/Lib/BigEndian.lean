import Mathlib.Order.Lex
import Mathlib.Data.List.Lex
import Mathlib.Data.UInt
import Znode.Lib.Bytes
import Znode.Lib.Radix

/-!
# Big-endian numbers, and the order of byte strings

* `beBytes n v` : the `n` low bytes of `v`, most significant first; `beVal` reads them back;
* `beBytes_lt` : the strings of one length are in the order of the numbers they stand for;
* `significant v` : the bytes of `v` without a zero in front. A byte string is a string of digits in base 256
  (`beVal_eq_horner`, `leading_toNat`, `dropWhile_zero_eq`).
-/

namespace Znode.Lib

/-- Bytes in the order of their values; byte strings are then ordered as in a dictionary. -/
instance linearOrderUInt8 : LinearOrder UInt8 where
  le_refl _ := Nat.le_refl _
  le_trans _ _ _ := Nat.le_trans
  le_antisymm _ _ h h' := UInt8.toNat_inj.mp (Nat.le_antisymm h h')
  le_total a b := Nat.le_total a.toNat b.toNat
  lt_iff_le_not_ge a b := Nat.lt_iff_le_and_not_ge (m := a.toNat) (n := b.toNat)
  toDecidableLE := inferInstance

/-- The `n` low bytes of `v`, most significant first. -/
def beBytes (n v : Nat) : Bytes := (leBytes n v).reverse

/-- The number a byte string stands for, most significant byte first. -/
def beVal (l : Bytes) : Nat := leVal l.reverse

@[simp] theorem length_beBytes (n v : Nat) : (beBytes n v).length = n := by
  rw [beBytes, List.length_reverse, length_leBytes]

theorem beVal_beBytes {n v : Nat} (h : v < 256 ^ n) : beVal (beBytes n v) = v := by
  rw [beVal, beBytes, List.reverse_reverse, leVal_leBytes h]

theorem leBytes_succ_last (n v : Nat) : leBytes (n + 1) v = leBytes n v ++ [UInt8.ofNat (v / 256 ^ n)] := by
  induction n generalizing v with
  | zero => simp [leBytes]
  | succ n ih =>
      rw [leBytes, ih, Nat.div_div_eq_div_mul, ← pow_succ', leBytes, List.cons_append]

theorem beBytes_succ (n v : Nat) : beBytes (n + 1) v = UInt8.ofNat (v / 256 ^ n) :: beBytes n v := by
  rw [beBytes, leBytes_succ_last, List.reverse_append, List.reverse_singleton, List.singleton_append, beBytes]

theorem beBytes_lt_of_mod_lt {n v w : Nat} (h : v % 256 ^ n < w % 256 ^ n) : beBytes n v < beBytes n w := by
  induction n with
  | zero => simp [Nat.mod_one] at h
  | succ n ih =>
      -- the first bytes decide, unless they are equal
      rw [Nat.pow_succ, Nat.mod_mul, Nat.mod_mul] at h
      have hpos : 0 < 256 ^ n := Nat.pow_pos (by decide)
      have hv := Nat.mod_lt v hpos
      have hw := Nat.mod_lt w hpos
      rw [beBytes_succ, beBytes_succ, List.cons_lt_cons_iff]
      rcases lt_trichotomy (v / 256 ^ n % 256) (w / 256 ^ n % 256) with hlt | heq | hgt
      · refine Or.inl (UInt8.lt_iff_toNat_lt.mpr ?_)
        simpa using hlt
      · refine Or.inr ⟨UInt8.toNat_inj.mp (by simpa using heq), ih ?_⟩
        rw [heq] at h
        omega
      · have hle : w / 256 ^ n % 256 + 1 ≤ v / 256 ^ n % 256 := hgt
        have hmul := Nat.mul_le_mul_left (256 ^ n) hle
        rw [Nat.mul_add, Nat.mul_one] at hmul
        omega

theorem beBytes_lt {n v w : Nat} (h : v < w) (hw : w < 256 ^ n) : beBytes n v < beBytes n w := by
  refine beBytes_lt_of_mod_lt ?_
  rwa [Nat.mod_eq_of_lt hw, Nat.mod_eq_of_lt (h.trans hw)]

/-! ## Digits in base 256 -/

/-- The bytes of a number, most significant first, none for zero. -/
def significant (v : Nat) : Bytes := (radix 256 v).map UInt8.ofNat

theorem toNat_lt_of_mem_map {l : Bytes} : ∀ d ∈ l.map UInt8.toNat, d < 256 := by
  intro d hd
  obtain ⟨byte, -, rfl⟩ := List.mem_map.mp hd
  exact byte.toNat_lt

theorem map_toNat_ofNat {l : List Nat} (h : ∀ d ∈ l, d < 256) : (l.map UInt8.ofNat).map UInt8.toNat = l := by
  rw [List.map_map]
  refine (List.map_congr_left fun d hd => ?_).trans (List.map_id l)
  exact (UInt8.toNat_ofNat').trans (Nat.mod_eq_of_lt (h d hd))

theorem map_ofNat_toNat (l : Bytes) : (l.map UInt8.toNat).map UInt8.ofNat = l := by
  rw [List.map_map]
  exact (List.map_congr_left fun byte _ => UInt8.ofNat_toNat).trans (List.map_id l)

theorem beVal_eq_horner (l : Bytes) : beVal l = horner 256 (l.map UInt8.toNat) := by
  rw [beVal, leVal, List.map_reverse, horner_eq_ofDigits]

theorem beVal_significant (v : Nat) : beVal (significant v) = v := by
  rw [beVal_eq_horner, significant, map_toNat_ofNat fun d hd => radix_lt (by decide) hd, horner_radix]

theorem isZero_comp_toNat : (fun n : Nat => decide (n = 0)) ∘ UInt8.toNat = fun byte : UInt8 => decide (byte = 0) := by
  funext byte
  rw [Function.comp_apply, decide_eq_decide]
  exact UInt8.toNat_inj (b := 0)

theorem leading_toNat (l : Bytes) : leading (l.map UInt8.toNat) = (l.takeWhile (· = 0)).length := by
  rw [leading, List.takeWhile_map, List.length_map, isZero_comp_toNat]

/-- Without the zeros in front the significant bytes are left. -/
theorem dropWhile_zero_eq (l : Bytes) : l.dropWhile (· = 0) = significant (beVal l) := by
  rw [significant, beVal_eq_horner, ← dropWhile_zero (by decide) toNat_lt_of_mem_map, List.dropWhile_map,
    map_ofNat_toNat, isZero_comp_toNat]

theorem head?_significant (v : Nat) : (significant v).head? ≠ some 0 := by
  have hback := map_toNat_ofNat (l := radix 256 v) fun d hd => radix_lt (by decide) hd
  intro h
  apply head?_radix 256 v
  rw [← hback, List.head?_map, ← significant, h]
  rfl

theorem significant_eq_nil_iff {v : Nat} : significant v = [] ↔ v = 0 := by
  rw [significant, List.map_eq_nil_iff, radix_eq_nil_iff]

end Znode.Lib
