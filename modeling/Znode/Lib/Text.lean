import Mathlib.Algebra.Order.Field.Rat
import Mathlib.Data.List.TakeWhile
import Mathlib.Data.UInt
import Mathlib.Tactic.FieldSimp
import Znode.Lib.Bytes
import Znode.Lib.Radix

/-!
# Text as bytes, and numbers in decimal

* `ascii` : the bytes of a text in ASCII;
* `decimalVal` : the number decimal digits stand for; `decimal` writes a number without a zero in front
  (`decimalVal_decimal`, `decimal_digits`, `head?_decimal`);
* `zeroPadded` : the digits of a number filled with zeros to a width; `decimalInt`, `zeroPaddedInt` with a sign;
* `fractionVal whole fract` : the number with the digits `whole` before the point and `fract` after it. Zeros at the end
  do not count (`fractionVal_zeros`);
* `IsDecimalOf x s` : `s` is the decimal expansion of `x`, with no digit that could be left out.
-/

namespace Znode.Lib

def ascii (s : String) : Bytes := s.toList.map fun c => UInt8.ofNat c.toNat

/-! ## Digits -/

def isDigit (c : UInt8) : Bool := 48 ≤ c.toNat && c.toNat ≤ 57

def digitVal (c : UInt8) : Nat := c.toNat - 48

/-- The digit of a value below ten. -/
def digitChar (d : Nat) : UInt8 := UInt8.ofNat (48 + d)

theorem digitChar_zero : digitChar 0 = 48 := rfl

theorem isDigit_iff {c : UInt8} : isDigit c ↔ 48 ≤ c.toNat ∧ c.toNat ≤ 57 := by
  simp [isDigit]

theorem toNat_digitChar {d : Nat} (h : d < 10) : (digitChar d).toNat = 48 + d := by
  rw [digitChar, UInt8.toNat_ofNat']
  omega

theorem isDigit_digitChar {d : Nat} (h : d < 10) : isDigit (digitChar d) := by
  rw [isDigit_iff, toNat_digitChar h]
  omega

theorem digitVal_digitChar {d : Nat} (h : d < 10) : digitVal (digitChar d) = d := by
  rw [digitVal, toNat_digitChar h]
  omega

theorem digitVal_lt {c : UInt8} (h : isDigit c) : digitVal c < 10 := by
  rw [isDigit_iff] at h
  rw [digitVal]
  omega

/-! ## Numbers -/

def decimalVal (s : Bytes) : Nat := horner 10 (s.map digitVal)

def decimal (n : Nat) : Bytes := if n = 0 then [digitChar 0] else (radix 10 n).map digitChar

/-- A number in decimal, filled with zeros to `width` digits. -/
def zeroPadded (width n : Nat) : Bytes := List.replicate (width - (decimal n).length) (digitChar 0) ++ decimal n

def AllDigits (s : Bytes) : Prop := ∀ c ∈ s, isDigit c

instance (s : Bytes) : Decidable (AllDigits s) := List.decidableBAll (fun c => isDigit c = true) s

theorem AllDigits.append {s t : Bytes} (hs : AllDigits s) (ht : AllDigits t) : AllDigits (s ++ t) := by
  intro c hc
  rcases List.mem_append.mp hc with h | h
  · exact hs c h
  · exact ht c h

theorem allDigits_map {l : List Nat} (h : ∀ d ∈ l, d < 10) : AllDigits (l.map digitChar) := by
  intro c hc
  obtain ⟨d, hd, rfl⟩ := List.mem_map.mp hc
  exact isDigit_digitChar (h d hd)

theorem decimalVal_map {l : List Nat} (h : ∀ d ∈ l, d < 10) : decimalVal (l.map digitChar) = horner 10 l := by
  rw [decimalVal, List.map_map]
  congr 1
  exact (List.map_congr_left fun d hd => digitVal_digitChar (h d hd)).trans (List.map_id l)

theorem decimalVal_append (s t : Bytes) : decimalVal (s ++ t) = decimalVal s * 10 ^ t.length + decimalVal t := by
  rw [decimalVal, List.map_append, horner_append, List.length_map, decimalVal, decimalVal]

theorem decimalVal_zeros (n : Nat) : decimalVal (List.replicate n (digitChar 0)) = 0 := by
  rw [decimalVal, List.map_replicate, digitVal_digitChar (by decide), horner_replicate_zero]

theorem decimalVal_lt {s : Bytes} (h : AllDigits s) : decimalVal s < 10 ^ s.length := by
  rw [decimalVal, ← List.length_map (f := digitVal)]
  refine horner_lt (by decide) fun d hd => ?_
  obtain ⟨c, hc, rfl⟩ := List.mem_map.mp hd
  exact digitVal_lt (h c hc)

theorem radix_ten_lt {n d : Nat} (h : d ∈ radix 10 n) : d < 10 := radix_lt (by decide) h

theorem decimal_digits (n : Nat) : AllDigits (decimal n) := by
  unfold decimal
  split_ifs
  · decide
  · exact allDigits_map fun d hd => radix_ten_lt hd

@[simp] theorem decimalVal_decimal (n : Nat) : decimalVal (decimal n) = n := by
  unfold decimal
  split_ifs with h
  · rw [h]
    decide
  · rw [decimalVal_map fun d hd => radix_ten_lt hd, horner_radix]

theorem decimal_ne_nil (n : Nat) : decimal n ≠ [] := by
  unfold decimal
  split_ifs with h
  · decide
  · simpa [radix_eq_nil_iff] using h

theorem head?_decimal {n : Nat} (h : n ≠ 0) : (decimal n).head? ≠ some (digitChar 0) := by
  rw [decimal, if_neg h, List.head?_map]
  intro hhead
  obtain ⟨d, hd, hdigit⟩ := Option.map_eq_some_iff.mp hhead
  have hlt : d < 10 := radix_ten_lt (List.mem_of_mem_head? hd)
  have hzero : d = 0 := by
    have hval := congrArg digitVal hdigit
    rwa [digitVal_digitChar hlt, digitVal_digitChar (by decide)] at hval
  rw [hzero] at hd
  exact head?_radix 10 n hd

theorem length_decimal_le {n k : Nat} (hk : 0 < k) (h : n < 10 ^ k) : (decimal n).length ≤ k := by
  unfold decimal
  split_ifs
  · exact hk
  · rw [List.length_map]
    exact (length_radix_le_iff (by decide)).mpr h

theorem zeroPadded_digits (width n : Nat) : AllDigits (zeroPadded width n) := by
  refine AllDigits.append (fun c hc => ?_) (decimal_digits n)
  rw [List.eq_of_mem_replicate hc]
  decide

theorem decimalVal_zeroPadded (width n : Nat) : decimalVal (zeroPadded width n) = n := by
  rw [zeroPadded, decimalVal_append, decimalVal_zeros, Nat.zero_mul, Nat.zero_add, decimalVal_decimal]

theorem length_zeroPadded {width n : Nat} (hw : 0 < width) (h : n < 10 ^ width) :
    (zeroPadded width n).length = width := by
  have hlen := length_decimal_le hw h
  rw [zeroPadded, List.length_append, List.length_replicate]
  omega

theorem takeWhile_append_of_head {α : Type} {p : α → Bool} {a b : List α} (ha : ∀ c ∈ a, p c)
    (hb : ∀ c ∈ b.head?, p c = false) : (a ++ b).takeWhile p = a := by
  rw [List.takeWhile_append_of_pos ha]
  cases b with
  | nil => simp
  | cons c b => simp [hb c rfl]

theorem takeWhile_isDigit {s rest : Bytes} (hs : AllDigits s) (hrest : ∀ c ∈ rest.head?, isDigit c = false) :
    (s ++ rest).takeWhile isDigit = s :=
  takeWhile_append_of_head hs hrest

/-- A text is cut in one way only where a class of characters ends. -/
theorem cut_unique {α : Type} {p : α → Bool} {a₁ a₂ b₁ b₂ : List α} (ha₁ : ∀ c ∈ a₁, p c) (ha₂ : ∀ c ∈ a₂, p c)
    (hb₁ : ∀ c ∈ b₁.head?, p c = false) (hb₂ : ∀ c ∈ b₂.head?, p c = false) (h : a₁ ++ b₁ = a₂ ++ b₂) :
    a₁ = a₂ ∧ b₁ = b₂ := by
  have hfront : a₁ = a₂ := by rw [← takeWhile_append_of_head ha₁ hb₁, h, takeWhile_append_of_head ha₂ hb₂]
  exact ⟨hfront, List.append_cancel_left (hfront ▸ h)⟩

/-! ## Signs and fractions -/

def decimalInt (i : Int) : Bytes := if i < 0 then ascii "-" ++ decimal i.natAbs else decimal i.natAbs

/-- A number with its sign, filled with zeros to `width` characters. -/
def zeroPaddedInt (width : Nat) (i : Int) : Bytes :=
  if i < 0 then ascii "-" ++ zeroPadded (width - 1) i.natAbs else zeroPadded width i.natAbs

/-- The number with these digits before and after the point. -/
def fractionVal (whole fract : Bytes) : Rat := decimalVal whole + decimalVal fract / 10 ^ fract.length

theorem fractionVal_zeros (whole fract : Bytes) (n : Nat) :
    fractionVal whole (fract ++ List.replicate n (digitChar 0)) = fractionVal whole fract := by
  rw [fractionVal, fractionVal, decimalVal_append, decimalVal_zeros, List.length_append, List.length_replicate]
  push_cast
  rw [pow_add]
  field_simp
  ring

/-- The digits behind the point, with the point if there are any. -/
def pointed (fract : Bytes) : Bytes := if fract = [] then [] else ascii "." ++ fract

@[simp] theorem pointed_nil : pointed [] = [] := rfl

theorem pointed_of_ne_nil {fract : Bytes} (h : fract ≠ []) : pointed fract = 46 :: fract := by
  rw [pointed, if_neg h]
  rfl

theorem drop_pointed (fract : Bytes) : (pointed fract).drop 1 = fract := by
  cases fract <;> rfl

theorem head?_pointed {fract : Bytes} : ∀ c ∈ (pointed fract).head?, c = 46 := by
  by_cases h : fract = []
  · simp [h]
  · simp [pointed_of_ne_nil h]

/-- `s` is the decimal expansion of `x` with these digits before and after the point: a minus sign for a negative
number, no zero in front of the whole part but for zero itself, no zero at the end of the fraction, and no point without
a fraction. -/
structure Expansion (x : Rat) (s whole fract : Bytes) : Prop where
  wholeDigits : AllDigits whole
  fractDigits : AllDigits fract
  text : s = (if x < 0 then ascii "-" else []) ++ whole ++ (if fract = [] then [] else ascii "." ++ fract)
  nonempty : whole ≠ []
  front : whole.head? = some (digitChar 0) → whole = [digitChar 0]
  last : fract.getLast? ≠ some (digitChar 0)
  value : fractionVal whole fract = |x|

def IsDecimalOf (x : Rat) (s : Bytes) : Prop := ∃ whole fract, Expansion x s whole fract

end Znode.Lib
