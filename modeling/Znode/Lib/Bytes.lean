import Mathlib.Data.Nat.Digits.Lemmas
import Mathlib.Tactic.Ring

/-!
# Byte strings: fixed widths and little-endian numbers

* `Octets n` : byte strings of length `n`, by type;
* `leBytes n v` : the `n` low bytes of `v`, least significant first; `leVal` reads them back
  (`leVal_leBytes`, `leBytes_leVal`, `leVal_lt`);
* `slice l off n` : the `n` bytes at offset `off` (fewer at the end of `l`), and how slices behave
  when the string grows at its end (`slice_append`);
* `cut lo hi l` : `l` without its elements from `lo` on and below `hi` (`cut_append`);
* `resized n a l` : the first `n` elements of `l`, filled up with `a`.
-/

namespace Znode.Lib

abbrev Bytes := List UInt8

/-- Byte strings of length `n`. -/
abbrev Octets (n : Nat) := {b : Bytes // b.length = n}

def Octets.zero (n : Nat) : Octets n := ⟨List.replicate n 0, List.length_replicate⟩

/-- The first `n` bytes of `l`, zero filled when `l` is shorter. -/
def Octets.ofBytes (n : Nat) (l : Bytes) : Octets n :=
  ⟨l.take n ++ List.replicate (n - l.length) 0, by simp; omega⟩

theorem Octets.val_ofBytes {n : Nat} {l : Bytes} (h : l.length = n) : (Octets.ofBytes n l).val = l := by
  subst h
  simp [Octets.ofBytes]

@[simp] theorem Octets.ofBytes_val {n : Nat} (o : Octets n) : Octets.ofBytes n o.val = o :=
  Subtype.ext (Octets.val_ofBytes o.property)

/-! ## Slices -/

/-- The `n` bytes of `l` at offset `off`, fewer when `l` ends before. -/
def slice {α : Type} (l : List α) (off n : Nat) : List α := (l.drop off).take n

section Slices
variable {α : Type}

theorem length_slice (l : List α) (off n : Nat) : (slice l off n).length = min n (l.length - off) := by
  simp [slice]

theorem length_slice_of_le {l : List α} {off n : Nat} (h : off + n ≤ l.length) :
    (slice l off n).length = n := by
  rw [length_slice]
  omega

theorem slice_append {l : List α} {off n : Nat} (h : off + n ≤ l.length) (r : List α) :
    slice (l ++ r) off n = slice l off n := by
  unfold slice
  rw [List.drop_append_of_le_length (by omega), List.take_append_of_le_length (by simp; omega)]

theorem slice_append_right {l r : List α} {off n : Nat} (h : l.length ≤ off) :
    slice (l ++ r) off n = slice r (off - l.length) n := by
  unfold slice
  rw [List.drop_append, List.drop_eq_nil_of_le h, List.nil_append]

theorem slice_full {l : List α} {n : Nat} (h : l.length = n) : slice l 0 n = l := by
  subst h
  simp [slice]

/-- `l` without its elements from `lo` on and below `hi`. -/
def cut (lo hi : Nat) (l : List α) : List α := l.take lo ++ l.drop hi

@[simp] theorem length_cut (lo hi : Nat) (l : List α) : (cut lo hi l).length = min lo l.length + (l.length - hi) := by
  simp [cut]

theorem cut_append {lo hi : Nat} (h : lo ≤ hi) (l r : List α) :
    cut lo hi (l ++ r) = cut lo hi l ++ cut (lo - l.length) (hi - l.length) r := by
  unfold cut
  rw [List.take_append, List.drop_append, List.append_assoc, List.append_assoc]
  congr 1
  by_cases hlo : lo ≤ l.length
  · rw [Nat.sub_eq_zero_of_le hlo, List.take_zero, List.nil_append, List.nil_append]
  · rw [List.drop_eq_nil_of_le (by omega : l.length ≤ hi), List.nil_append, List.nil_append]

/-- The first `n` elements of `l`, with copies of `a` where there are fewer. -/
def resized (n : Nat) (a : α) (l : List α) : List α := l.take n ++ List.replicate (n - l.length) a

theorem length_resized (n : Nat) (a : α) (l : List α) : (resized n a l).length = n := by
  rw [resized, List.length_append, List.length_take, List.length_replicate]
  omega

theorem resized_of_length_le {n : Nat} {l : List α} (h : l.length ≤ n) (a : α) :
    resized n a l = l ++ List.replicate (n - l.length) a := by
  rw [resized, List.take_of_length_le h]

end Slices

/-! ## Little-endian numbers -/

/-- The `n` low bytes of `v`, least significant first. -/
def leBytes : Nat → Nat → Bytes
  | 0, _ => []
  | n + 1, v => UInt8.ofNat v :: leBytes n (v / 256)

/-- The number a byte string stands for, least significant byte first. -/
def leVal (l : Bytes) : Nat := Nat.ofDigits 256 (l.map UInt8.toNat)

@[simp] theorem length_leBytes (n v : Nat) : (leBytes n v).length = n := by
  induction n generalizing v with
  | zero => rfl
  | succ n ih => simp [leBytes, ih]

@[simp] theorem leVal_nil : leVal [] = 0 := by simp [leVal]

theorem leVal_cons (b : UInt8) (l : Bytes) : leVal (b :: l) = b.toNat + 256 * leVal l := by
  simp [leVal, Nat.ofDigits_cons]

theorem leVal_zeros_append (n : Nat) (l : Bytes) : leVal (List.replicate n 0 ++ l) = 256 ^ n * leVal l := by
  rw [leVal, List.map_append, List.map_replicate, UInt8.toNat_zero, Nat.ofDigits_append, Nat.ofDigits_replicate_zero,
    List.length_replicate, Nat.zero_add, leVal]

theorem leVal_lt (l : Bytes) : leVal l < 256 ^ l.length := by
  have h := Nat.ofDigits_lt_base_pow_length (b := 256) (l := l.map UInt8.toNat) (by decide) (by
    intro d hd
    obtain ⟨b, -, rfl⟩ := List.mem_map.mp hd
    exact b.toNat_lt)
  simpa [leVal] using h

theorem leVal_leBytes {n v : Nat} (h : v < 256 ^ n) : leVal (leBytes n v) = v := by
  induction n generalizing v with
  | zero =>
      have : v = 0 := by simpa using h
      simp [leBytes, this]
  | succ n ih =>
      have hdiv : v / 256 < 256 ^ n := by
        rw [Nat.div_lt_iff_lt_mul (by decide), ← pow_succ]
        exact h
      rw [leBytes, leVal_cons, ih hdiv, UInt8.toNat_ofNat']
      omega

theorem leBytes_leVal {n : Nat} {l : Bytes} (h : l.length = n) : leBytes n (leVal l) = l := by
  induction l generalizing n with
  | nil => subst h; rfl
  | cons b l ih =>
      subst h
      have hb := b.toNat_lt
      have hlow : UInt8.ofNat (b.toNat + 256 * leVal l) = b := by
        apply UInt8.toNat_inj.mp
        rw [UInt8.toNat_ofNat']
        omega
      have hhigh : (b.toNat + 256 * leVal l) / 256 = leVal l := by omega
      rw [List.length_cons, leBytes, leVal_cons, hlow, hhigh, ih rfl]

theorem take_leBytes {k n : Nat} (h : k ≤ n) (v : Nat) : (leBytes n v).take k = leBytes k v := by
  induction k generalizing n v with
  | zero => rfl
  | succ k ih =>
      cases n with
      | zero => omega
      | succ n => rw [leBytes, List.take_succ_cons, ih (by omega), leBytes]

theorem length_flatten_of_length {α : Type} {l : List (List α)} {n : Nat} (h : ∀ c ∈ l, c.length = n) :
    l.flatten.length = l.length * n := by
  rw [List.length_flatten, List.map_congr_left h, List.map_const', List.sum_replicate_nat]

end Znode.Lib
