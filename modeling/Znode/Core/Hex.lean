import Mathlib
import Znode.Core.Checked
import Znode.Lib.Bytes

/-!
# Hexadecimal strings

`enc::hex::encode` and `enc::hex::decode`. A character is its byte, as the tables are indexed by it.

* `kUnhexTable`, `kUnhexTable4` : the value of a digit, in the lower and in the upper half of a byte, `0xff` for the
  other characters (`unhex_eq`, `unhex4_eq`);
* `decodeBlocks`, `decodePairs` : the loop over eight characters and the loop over two. The first finds a bad
  character by OR-ing the values of four digits, which hides nothing as the values of digits leave half of the byte
  zero (`or_eq_bad_iff`, `decodeBlocks_eq_decodePairs`);
* `nibbles` : the halves of the bytes. Decoding makes of digits the bytes with these nibbles (`decodeDigits_ok_iff`);
* `hex_codec` : what is accepted, what it stands for, and both round trips.
-/

namespace Znode.Core.Hex
open Znode.Lib

inductive EncError where
  | kSuccess
  | kIllegalHexDigit
  | kIllegalBase58Digit
  | kIllegalBase64Digit
  | kInputTooLarge
  | kInputTooNarrow
  | kUnexpectedError
deriving DecidableEq, Repr

/-- The characters from `0` to `9` and from `a` to `f`. -/
def kHexDigits : List UInt8 := [48, 49, 50, 51, 52, 53, 54, 55, 56, 57, 97, 98, 99, 100, 101, 102]

/-- The value of a hexadecimal digit, `0xff` for the other characters. -/
def kUnhexTable : List UInt8 :=
  List.replicate 48 0xff ++ [0x00, 0x01, 0x02, 0x03, 0x04, 0x05, 0x06, 0x07, 0x08, 0x09] ++
    List.replicate 7 0xff ++ [0x0a, 0x0b, 0x0c, 0x0d, 0x0e, 0x0f] ++
    List.replicate 26 0xff ++ [0x0a, 0x0b, 0x0c, 0x0d, 0x0e, 0x0f] ++ List.replicate 153 0xff

/-- The value of a hexadecimal digit in the upper half of a byte, `0xff` for the other characters. -/
def kUnhexTable4 : List UInt8 :=
  List.replicate 48 0xff ++ [0x00, 0x10, 0x20, 0x30, 0x40, 0x50, 0x60, 0x70, 0x80, 0x90] ++
    List.replicate 7 0xff ++ [0xa0, 0xb0, 0xc0, 0xd0, 0xe0, 0xf0] ++
    List.replicate 26 0xff ++ [0xa0, 0xb0, 0xc0, 0xd0, 0xe0, 0xf0] ++ List.replicate 153 0xff

def unhex (c : UInt8) : UInt8 := kUnhexTable.getD c.toNat 0xff

def unhex4 (c : UInt8) : UInt8 := kUnhexTable4.getD c.toNat 0xff

def hexDigit (value : Nat) : UInt8 := kHexDigits.getD value 0

def hasPrefix : Bytes → Bool
  | first :: second :: _ => first == 48 && (second == 120 || second == 88)
  | _ => false

def encode (bytes : Bytes) (withPrefix : Bool := false) : Bytes :=
  (if withPrefix then [(48 : UInt8), 120] else []) ++
    bytes.flatMap fun src : UInt8 => [hexDigit (src >>> 4).toNat, hexDigit (src &&& 0x0f).toNat]

/-- The loop over two characters. There is an even number of them, so that none is left alone. -/
def decodePairs : Bytes → Except EncError Bytes
  | c₁ :: c₂ :: src =>
    let a := unhex4 c₁
    let b := unhex c₂
    if a = 0xff ∨ b = 0xff then .error .kIllegalHexDigit
    else (decodePairs src).map fun out => (a ||| b) :: out
  | _ => .ok []

/-- The loop over eight characters, and the loop over two for the rest. -/
def decodeBlocks : Bytes → Except EncError Bytes
  | c₁ :: c₂ :: c₃ :: c₄ :: c₅ :: c₆ :: c₇ :: c₈ :: src =>
    let a := unhex4 c₁
    let b := unhex c₂
    let c := unhex4 c₃
    let d := unhex c₄
    let e := unhex4 c₅
    let f := unhex c₆
    let g := unhex4 c₇
    let h := unhex c₈
    if (b ||| d ||| f ||| h) = 0xff ∨ (a ||| c ||| e ||| g) = 0xff then .error .kIllegalHexDigit
    else (decodeBlocks src).map fun out => (a ||| b) :: (c ||| d) :: (e ||| f) :: (g ||| h) :: out
  | src => decodePairs src

/-- `decode` after the prefix: the first of an odd number of digits makes a byte of its own. -/
def decodeDigits : Bytes → Except EncError Bytes
  | [] => .ok []
  | c :: src =>
    if (c :: src).length % 2 = 1 then
      let b := unhex c
      if b = 0xff then .error .kIllegalHexDigit
      else (decodeBlocks src).map fun out => b :: out
    else decodeBlocks (c :: src)

def decode (hexStr : Bytes) : Except EncError Bytes :=
  decodeDigits (if hasPrefix hexStr then hexStr.drop 2 else hexStr)

/-! ## The tables -/

/-- The value of a hexadecimal digit, upper or lower case. -/
def digitOf (c : UInt8) : Option Nat :=
  if 48 ≤ c.toNat ∧ c.toNat ≤ 57 then some (c.toNat - 48)
  else if 65 ≤ c.toNat ∧ c.toNat ≤ 70 then some (c.toNat - 55)
  else if 97 ≤ c.toNat ∧ c.toNat ≤ 102 then some (c.toNat - 87)
  else none

def toLower (c : UInt8) : UInt8 := if 65 ≤ c.toNat ∧ c.toNat ≤ 90 then c + 32 else c

theorem toLower_eq_iff {c d : UInt8} :
    toLower c = d ↔ (if 65 ≤ c.toNat ∧ c.toNat ≤ 90 then c.toNat + 32 else c.toNat) = d.toNat := by
  rw [← UInt8.toNat_inj, toLower]
  split_ifs with h
  · rw [UInt8.toNat_add, show (32 : UInt8).toNat = 32 from rfl, Nat.mod_eq_of_lt (by omega)]
  · rfl

theorem forall_uint8 {p : UInt8 → Prop} (h : ∀ n < 256, p (UInt8.ofNat n)) (c : UInt8) : p c := by
  have hc := h c.toNat c.toNat_lt
  rwa [UInt8.ofNat_toNat] at hc

theorem getD_map_range (f : Nat → UInt8) (c : UInt8) : ((List.range 256).map f).getD c.toNat 0xff = f c.toNat := by
  have hc : c.toNat < 256 := c.toNat_lt
  simp [List.getD_eq_getElem?_getD, hc]

theorem unhex_eq (c : UInt8) : unhex c = (digitOf c).elim 0xff UInt8.ofNat := by
  have htable : kUnhexTable = (List.range 256).map fun n => (digitOf (UInt8.ofNat n)).elim 0xff UInt8.ofNat := by
    decide +kernel
  rw [unhex, htable, getD_map_range, UInt8.ofNat_toNat]

theorem unhex4_eq (c : UInt8) : unhex4 c = (digitOf c).elim 0xff fun d => UInt8.ofNat (16 * d) := by
  have htable : kUnhexTable4 =
      (List.range 256).map fun n => (digitOf (UInt8.ofNat n)).elim 0xff fun d => UInt8.ofNat (16 * d) := by
    decide +kernel
  rw [unhex4, htable, getD_map_range, UInt8.ofNat_toNat]

theorem digitOf_lt {c : UInt8} {d : Nat} (h : digitOf c = some d) : d < 16 := by
  unfold digitOf at h
  split_ifs at h <;> cases h <;> omega

theorem hexDigit_digitOf {c : UInt8} {d : Nat} (h : digitOf c = some d) : hexDigit d = toLower c := by
  have hall : ∀ c, ∀ d ∈ digitOf c, hexDigit d = toLower c := by
    apply forall_uint8
    decide +kernel
  exact hall c d h

theorem digitOf_hexDigit {d : Nat} (h : d < 16) : digitOf (hexDigit d) = some d := by
  revert d
  decide

/-! ## The halves of the bytes -/

/-- The upper and the lower half of each byte. -/
def nibbles (bytes : Bytes) : List Nat := bytes.flatMap fun b => [b.toNat / 16, b.toNat % 16]

theorem nibbles_cons (b : UInt8) (bytes : Bytes) :
    nibbles (b :: bytes) = b.toNat / 16 :: b.toNat % 16 :: nibbles bytes := rfl

theorem length_nibbles (bytes : Bytes) : (nibbles bytes).length = 2 * bytes.length := by
  induction bytes with
  | nil => rfl
  | cons b bytes ih =>
      rw [nibbles_cons, List.length_cons, List.length_cons, ih, List.length_cons]
      omega

theorem nibbles_lt {bytes : Bytes} {d : Nat} (h : d ∈ nibbles bytes) : d < 16 := by
  obtain ⟨b, -, hd⟩ := List.mem_flatMap.mp h
  have hb := b.toNat_lt
  simp only [List.mem_cons, List.not_mem_nil, or_false] at hd
  omega

theorem toNat_upperHalf (b : UInt8) : (b >>> 4).toNat = b.toNat / 16 := by
  rw [UInt8.toNat_shiftRight, Nat.shiftRight_eq_div_pow]
  rfl

theorem toNat_lowerHalf (b : UInt8) : (b &&& 0x0f).toNat = b.toNat % 16 := by
  rw [UInt8.toNat_and]
  exact Nat.and_two_pow_sub_one_eq_mod b.toNat 4

theorem encode_eq (bytes : Bytes) (withPrefix : Bool) :
    encode bytes withPrefix = (if withPrefix then [48, 120] else []) ++ (nibbles bytes).map hexDigit := by
  simp only [encode, nibbles, List.map_flatMap, toNat_upperHalf, toNat_lowerHalf, List.map_cons, List.map_nil]

theorem halves_or {x y : Nat} (hx : x < 16) (hy : y < 16) :
    (UInt8.ofNat (16 * x) ||| UInt8.ofNat y).toNat = 16 * x + y := by
  rw [UInt8.toNat_or, UInt8.toNat_ofNat', UInt8.toNat_ofNat', Nat.mod_eq_of_lt (by omega), Nat.mod_eq_of_lt (by omega)]
  exact (Nat.two_pow_add_eq_or_of_lt (show y < 2 ^ 4 from hy) x).symm

/-! ## The loop over two characters -/

theorem unhex_bad_iff (c : UInt8) : unhex c = 0xff ↔ digitOf c = none := by
  have hdigit : ∀ d < 16, UInt8.ofNat d ≠ 0xff := by decide
  rw [unhex_eq]
  cases h : digitOf c with
  | none => simp
  | some d => simpa using hdigit d (digitOf_lt h)

theorem unhex4_bad_iff (c : UInt8) : unhex4 c = 0xff ↔ digitOf c = none := by
  have hdigit : ∀ d < 16, UInt8.ofNat (16 * d) ≠ 0xff := by decide
  rw [unhex4_eq]
  cases h : digitOf c with
  | none => simp
  | some d => simpa using hdigit d (digitOf_lt h)

theorem unhex_or {c₁ c₂ : UInt8} {d₁ d₂ : Nat} (h₁ : digitOf c₁ = some d₁) (h₂ : digitOf c₂ = some d₂) :
    (unhex4 c₁ ||| unhex c₂).toNat = 16 * d₁ + d₂ := by
  rw [unhex4_eq, unhex_eq, h₁, h₂]
  exact halves_or (digitOf_lt h₁) (digitOf_lt h₂)

theorem byte_eq_iff {b : UInt8} {d₁ d₂ : Nat} (h : d₂ < 16) :
    b.toNat = 16 * d₁ + d₂ ↔ b.toNat / 16 = d₁ ∧ b.toNat % 16 = d₂ := by
  omega

theorem decodePairs_cons (c₁ c₂ : UInt8) (src : Bytes) : decodePairs (c₁ :: c₂ :: src) =
    if digitOf c₁ = none ∨ digitOf c₂ = none then .error .kIllegalHexDigit
    else (decodePairs src).map fun out => (unhex4 c₁ ||| unhex c₂) :: out := by
  simp only [decodePairs, unhex_bad_iff, unhex4_bad_iff]

/-- **The loop over two characters** accepts digits only, and makes of them the bytes with these halves. -/
theorem decodePairs_ok_iff {l out : Bytes} (heven : l.length % 2 = 0) :
    decodePairs l = .ok out ↔ l.map digitOf = (nibbles out).map some := by
  induction l using List.twoStepInduction generalizing out with
  | nil =>
      cases out with
      | nil => simp [decodePairs, nibbles]
      | cons b out => simp [decodePairs, nibbles_cons]
  | singleton c => simp at heven
  | cons_cons c₁ c₂ src ih _ =>
      rw [decodePairs_cons]
      cases h₁ : digitOf c₁ with
      | none => cases out <;> simp [h₁, nibbles]
      | some d₁ =>
          cases h₂ : digitOf c₂ with
          | none => cases out <;> simp [h₁, h₂, nibbles]
          | some d₂ =>
              have hbyte := unhex_or h₁ h₂
              have hlen : src.length % 2 = 0 := by
                rw [List.length_cons, List.length_cons] at heven
                omega
              cases out with
              | nil => simp [h₁, h₂, map_eq_ok_iff, nibbles]
              | cons b out =>
                  simp only [h₁, h₂, reduceCtorEq, or_self, if_false, map_eq_ok_iff, ih hlen, List.cons.injEq,
                    nibbles_cons, List.map_cons, Option.some.injEq]
                  constructor
                  · rintro ⟨_, hrest, rfl, rfl⟩
                    obtain ⟨hhigh, hlow⟩ := (byte_eq_iff (digitOf_lt h₂)).mp hbyte
                    exact ⟨hhigh.symm, hlow.symm, hrest⟩
                  · rintro ⟨hhigh, hlow, hrest⟩
                    refine ⟨out, hrest, UInt8.toNat_inj.mp ?_, rfl⟩
                    rw [hbyte, hhigh, hlow]
                    omega

theorem decodePairs_digits {l : Bytes} (heven : l.length % 2 = 0) (hl : ∀ c ∈ l, (digitOf c).isSome) :
    ∃ out, decodePairs l = .ok out := by
  induction l using List.twoStepInduction with
  | nil => exact ⟨[], rfl⟩
  | singleton c => simp at heven
  | cons_cons c₁ c₂ src ih _ =>
      simp only [List.mem_cons, forall_eq_or_imp, Option.isSome_iff_ne_none] at hl
      obtain ⟨out, hout⟩ := ih (by simp only [List.length_cons] at heven; omega)
        (fun c hc => Option.isSome_iff_ne_none.mpr (hl.2.2 c hc))
      rw [decodePairs_cons, if_neg (by simp [hl.1, hl.2.1]), hout]
      exact ⟨_, rfl⟩

/-! ## The loop over eight characters -/

/-- A value is the mark of a bad character, or it has no bit of `m`. -/
def Marked (m x : UInt8) : Prop := x = 0xff ∨ x &&& m = 0

theorem marked_unhex (c : UInt8) : Marked 0xf0 (unhex c) := by
  have hdigit : ∀ d < 16, UInt8.ofNat d &&& 0xf0 = 0 := by decide
  rw [unhex_eq]
  cases h : digitOf c with
  | none => exact .inl rfl
  | some d => exact .inr (hdigit d (digitOf_lt h))

theorem marked_unhex4 (c : UInt8) : Marked 0x0f (unhex4 c) := by
  have hdigit : ∀ d < 16, UInt8.ofNat (16 * d) &&& 0x0f = 0 := by decide
  rw [unhex4_eq]
  cases h : digitOf c with
  | none => exact .inl rfl
  | some d => exact .inr (hdigit d (digitOf_lt h))

/-- OR-ing such values neither hides a mark nor makes one. -/
theorem or_eq_bad_iff {m x y : UInt8} (hm : m ≠ 0) (hx : Marked m x) (hy : Marked m y) :
    Marked m (x ||| y) ∧ (x ||| y = 0xff ↔ x = 0xff ∨ y = 0xff) := by
  rcases hx with rfl | hx
  · have hbad : 0xff ||| y = 0xff := UInt8.neg_one_or
    exact ⟨.inl hbad, by simp [hbad]⟩
  rcases hy with rfl | hy
  · have hbad : x ||| 0xff = 0xff := UInt8.or_neg_one
    exact ⟨.inl hbad, by simp [hbad]⟩
  -- neither is marked, and the bits of `m` stay clear
  have hclear : ∀ z : UInt8, z &&& m = 0 → z ≠ 0xff := by
    rintro z hz rfl
    have hones : 0xff &&& m = m := UInt8.neg_one_and
    exact hm (hones.symm.trans hz)
  have hor : (x ||| y) &&& m = 0 := by
    have hdist : (x ||| y) &&& m = x &&& m ||| y &&& m := UInt8.toBitVec_inj.mp BitVec.and_or_distrib_right
    rw [hdist, hx, hy]
    rfl
  exact ⟨.inr hor, iff_of_false (hclear _ hor) (not_or.mpr ⟨hclear x hx, hclear y hy⟩)⟩

theorem or_four_eq_bad_iff {m a b c d : UInt8} (hm : m ≠ 0) (ha : Marked m a) (hb : Marked m b) (hc : Marked m c)
    (hd : Marked m d) : a ||| b ||| c ||| d = 0xff ↔ ((a = 0xff ∨ b = 0xff) ∨ c = 0xff) ∨ d = 0xff := by
  obtain ⟨hab, iab⟩ := or_eq_bad_iff hm ha hb
  obtain ⟨habc, iabc⟩ := or_eq_bad_iff hm hab hc
  rw [(or_eq_bad_iff hm habc hd).2, iabc, iab]

theorem or_pairs (a b c d e f g h : Prop) :
    (((b ∨ d) ∨ f) ∨ h) ∨ (((a ∨ c) ∨ e) ∨ g) ↔ (a ∨ b) ∨ (c ∨ d) ∨ (e ∨ f) ∨ (g ∨ h) := by
  simp only [or_left_comm, or_comm]

/-- One round of the loop over eight characters is four rounds of the loop over two. -/
theorem decodeBlocks_cons {c₁ c₂ c₃ c₄ c₅ c₆ c₇ c₈ : UInt8} {src : Bytes} (ih : decodeBlocks src = decodePairs src) :
    decodeBlocks (c₁ :: c₂ :: c₃ :: c₄ :: c₅ :: c₆ :: c₇ :: c₈ :: src) =
      decodePairs (c₁ :: c₂ :: c₃ :: c₄ :: c₅ :: c₆ :: c₇ :: c₈ :: src) := by
  have hlow := or_four_eq_bad_iff (by decide) (marked_unhex c₂) (marked_unhex c₄) (marked_unhex c₆) (marked_unhex c₈)
  have hhigh := or_four_eq_bad_iff (by decide) (marked_unhex4 c₁) (marked_unhex4 c₃) (marked_unhex4 c₅)
    (marked_unhex4 c₇)
  rw [decodeBlocks]
  simp only [hlow, hhigh, unhex_bad_iff, unhex4_bad_iff, or_pairs, ih, decodePairs_cons]
  by_cases h₁ : digitOf c₁ = none ∨ digitOf c₂ = none
  · rw [if_pos h₁, if_pos (.inl h₁)]
  rw [if_neg h₁]
  by_cases h₂ : digitOf c₃ = none ∨ digitOf c₄ = none
  · rw [if_pos h₂, if_pos (.inr (.inl h₂))]
    rfl
  rw [if_neg h₂]
  by_cases h₃ : digitOf c₅ = none ∨ digitOf c₆ = none
  · rw [if_pos h₃, if_pos (.inr (.inr (.inl h₃)))]
    rfl
  rw [if_neg h₃]
  by_cases h₄ : digitOf c₇ = none ∨ digitOf c₈ = none
  · rw [if_pos h₄, if_pos (.inr (.inr (.inr h₄)))]
    rfl
  rw [if_neg h₄, if_neg (not_or.mpr ⟨h₁, not_or.mpr ⟨h₂, not_or.mpr ⟨h₃, h₄⟩⟩⟩)]
  cases decodePairs src <;> rfl

/-- **The two loops agree** on every input. -/
theorem decodeBlocks_eq_decodePairs (l : Bytes) : decodeBlocks l = decodePairs l := by
  induction hn : l.length using Nat.strong_induction_on generalizing l with
  | _ n ih =>
      -- fewer than eight characters are left to the loop over two
      rcases l with _ | ⟨c₁, _ | ⟨c₂, _ | ⟨c₃, _ | ⟨c₄, _ | ⟨c₅, _ | ⟨c₆, _ | ⟨c₇, _ | ⟨c₈, src⟩⟩⟩⟩⟩⟩⟩⟩
      on_goal 9 =>
        subst hn
        exact decodeBlocks_cons (ih src.length (by simp only [List.length_cons]; omega) src rfl)
      all_goals rw [decodeBlocks]; rintro _ _ _ _ _ _ _ _ _ ⟨⟩

/-! ## Both directions -/

/-- Digits in front of which one is missing get a zero. -/
def padded {α : Type} (zero : α) (l : List α) : List α := if l.length % 2 = 1 then zero :: l else l

theorem map_padded {α β : Type} (f : α → β) (zero : α) (l : List α) :
    (padded zero l).map f = padded (f zero) (l.map f) := by
  unfold padded
  rw [List.length_map]
  split_ifs <;> rfl

/-- **After the prefix**, digits are accepted only. They become the bytes with these halves, a zero in front when
their number is odd. -/
theorem decodeDigits_ok_iff {l out : Bytes} :
    decodeDigits l = .ok out ↔ padded (some 0) (l.map digitOf) = (nibbles out).map some := by
  unfold padded
  rw [List.length_map]
  cases l with
  | nil => exact decodePairs_ok_iff (l := []) rfl
  | cons c src =>
      simp only [decodeDigits, decodeBlocks_eq_decodePairs]
      by_cases hodd : (c :: src).length % 2 = 1
      · rw [if_pos hodd, if_pos hodd]
        have heven : src.length % 2 = 0 := by
          rw [List.length_cons] at hodd
          omega
        -- a digit alone is a pair of digits, the first of which is zero
        have hpair : decodePairs (48 :: c :: src) = .ok out ↔ (48 :: c :: src).map digitOf = (nibbles out).map some :=
          decodePairs_ok_iff (by simp only [List.length_cons]; omega)
        rw [decodePairs_cons] at hpair
        simpa [unhex_bad_iff, show digitOf 48 = some 0 from rfl, show unhex4 48 = 0 from rfl] using hpair
      · rw [if_neg hodd, if_neg hodd]
        exact decodePairs_ok_iff (by omega)

theorem decodeDigits_digits {l : Bytes} (hl : ∀ c ∈ l, (digitOf c).isSome) : ∃ out, decodeDigits l = .ok out := by
  cases l with
  | nil => exact ⟨[], rfl⟩
  | cons c src =>
      simp only [decodeDigits, decodeBlocks_eq_decodePairs]
      by_cases hodd : (c :: src).length % 2 = 1
      · have hc : digitOf c ≠ none := Option.isSome_iff_ne_none.mp (hl c List.mem_cons_self)
        obtain ⟨out, hout⟩ := decodePairs_digits (l := src) (by rw [List.length_cons] at hodd; omega)
          (fun d hd => hl d (List.mem_cons_of_mem c hd))
        rw [if_pos hodd, if_neg (by rwa [unhex_bad_iff]), hout]
        exact ⟨_, rfl⟩
      · rw [if_neg hodd]
        exact decodePairs_digits (by omega) hl

/-- What may stand in front of the digits: nothing, `0x` or `0X`. -/
def markers : List Bytes := [[], [48, 120], [48, 88]]

theorem hasPrefix_digits {l : Bytes} (hl : ∀ c ∈ l, (digitOf c).isSome) : hasPrefix l = false := by
  rcases l with _ | ⟨c₁, _ | ⟨c₂, l⟩⟩
  · rfl
  · rfl
  · have hc : c₂ ≠ 120 ∧ c₂ ≠ 88 := by
      have hsome := hl c₂ (by simp)
      constructor
      · rintro rfl
        cases hsome
      · rintro rfl
        cases hsome
    simp [hasPrefix, hc.1, hc.2]

theorem decode_append {p ds : Bytes} (hp : p ∈ markers) (hds : ∀ c ∈ ds, (digitOf c).isSome) :
    decode (p ++ ds) = decodeDigits ds := by
  simp only [markers, List.mem_cons, List.not_mem_nil, or_false] at hp
  rcases hp with rfl | rfl | rfl
  · rw [List.nil_append, decode, hasPrefix_digits hds]
    rfl
  · rfl
  · rfl

theorem exists_marker (s : Bytes) : ∃ p ∈ markers, ∃ ds, s = p ++ ds ∧ decode s = decodeDigits ds := by
  cases hs : hasPrefix s with
  | false => exact ⟨[], by simp [markers], s, rfl, by rw [decode, hs]; rfl⟩
  | true =>
      rcases s with _ | ⟨c₁, _ | ⟨c₂, ds⟩⟩
      · cases hs
      · cases hs
      · refine ⟨[c₁, c₂], ?_, ds, rfl, by rw [decode, hs]; rfl⟩
        simpa [hasPrefix, markers, ← and_or_left] using hs

theorem digits_of_decodeDigits {ds out : Bytes} (h : decodeDigits ds = .ok out) : ∀ c ∈ ds, (digitOf c).isSome := by
  rw [decodeDigits_ok_iff] at h
  intro c hc
  have hmem : digitOf c ∈ padded (some 0) (ds.map digitOf) := by
    have hmap := List.mem_map_of_mem (f := digitOf) hc
    unfold padded
    split_ifs
    · exact List.mem_cons_of_mem _ hmap
    · exact hmap
  rw [h] at hmem
  obtain ⟨d, -, hd⟩ := List.mem_map.mp hmem
  rw [← hd]
  rfl

theorem nibbles_of_decodeDigits {ds out : Bytes} (h : decodeDigits ds = .ok out) :
    nibbles out = padded 0 (ds.map fun c => (digitOf c).getD 0) := by
  have hdigits := digits_of_decodeDigits h
  have hvalues : ds.map digitOf = (ds.map fun c => (digitOf c).getD 0).map some := by
    rw [List.map_map]
    apply List.map_congr_left
    intro c hc
    obtain ⟨d, hd⟩ := Option.isSome_iff_exists.mp (hdigits c hc)
    simp [hd]
  rw [decodeDigits_ok_iff, hvalues, ← map_padded] at h
  exact (List.map_injective_iff.mpr (Option.some_injective Nat) h).symm

theorem length_of_decodeDigits {ds out : Bytes} (h : decodeDigits ds = .ok out) : out.length = (ds.length + 1) / 2 := by
  have hlength := congrArg List.length (nibbles_of_decodeDigits h)
  rw [length_nibbles, padded, List.length_map] at hlength
  split_ifs at hlength <;> simp at hlength <;> omega

/-- The text of these bytes: the digits in lower case, a zero in front when their number is odd. -/
theorem encode_of_decodeDigits {ds out : Bytes} (h : decodeDigits ds = .ok out) :
    encode out = padded 48 (ds.map toLower) := by
  have hlower : (ds.map fun c => (digitOf c).getD 0).map hexDigit = ds.map toLower := by
    rw [List.map_map]
    apply List.map_congr_left
    intro c hc
    obtain ⟨d, hd⟩ := Option.isSome_iff_exists.mp (digits_of_decodeDigits h c hc)
    simpa [hd] using hexDigit_digitOf hd
  rw [encode_eq, nibbles_of_decodeDigits h, map_padded, hlower]
  rfl

theorem length_encode (bytes : Bytes) (withPrefix : Bool) :
    (encode bytes withPrefix).length = (if withPrefix then 2 else 0) + 2 * bytes.length := by
  rw [encode_eq, List.length_append, List.length_map, length_nibbles]
  cases withPrefix <;> rfl

theorem marker_mem (withPrefix : Bool) : (if withPrefix then [(48 : UInt8), 120] else []) ∈ markers := by
  cases withPrefix <;> decide

theorem digitOf_of_mem_hexDigits {bytes : Bytes} : ∀ c ∈ (nibbles bytes).map hexDigit, (digitOf c).isSome := by
  intro c hc
  obtain ⟨d, hd, rfl⟩ := List.mem_map.mp hc
  rw [digitOf_hexDigit (nibbles_lt hd)]
  rfl

theorem decode_encode (bytes : Bytes) (withPrefix : Bool) : decode (encode bytes withPrefix) = .ok bytes := by
  have hdigits : ((nibbles bytes).map hexDigit).map digitOf = (nibbles bytes).map some := by
    rw [List.map_map]
    exact List.map_congr_left fun d hd => digitOf_hexDigit (nibbles_lt hd)
  rw [encode_eq, decode_append (marker_mem withPrefix) digitOf_of_mem_hexDigits, decodeDigits_ok_iff, hdigits, padded,
    List.length_map, length_nibbles, if_neg (by omega)]

/-- **The hexadecimal codec.** -/
theorem hex_codec :
    (∀ s, (∃ out, decode s = .ok out) ↔ ∃ p ∈ markers, ∃ ds, s = p ++ ds ∧ ∀ c ∈ ds, (digitOf c).isSome) ∧
    (∀ p ∈ markers, ∀ ds out, (∀ c ∈ ds, (digitOf c).isSome) → decode (p ++ ds) = .ok out →
      out.length = (ds.length + 1) / 2 ∧ nibbles out = padded 0 (ds.map fun c => (digitOf c).getD 0) ∧
        encode out = padded 48 (ds.map toLower)) ∧
    (∀ bytes withPrefix, decode (encode bytes withPrefix) = .ok bytes) ∧
    ∀ l, decodeBlocks l = decodePairs l := by
  refine ⟨?_, ?_, ?_, decodeBlocks_eq_decodePairs⟩
  · intro s
    constructor
    · rintro ⟨out, hout⟩
      obtain ⟨p, hp, ds, hs, hdecode⟩ := exists_marker s
      exact ⟨p, hp, ds, hs, digits_of_decodeDigits (hdecode.symm.trans hout)⟩
    · rintro ⟨p, hp, ds, rfl, hds⟩
      rw [decode_append hp hds]
      exact decodeDigits_digits hds
  · intro p hp ds out hds hout
    rw [decode_append hp hds] at hout
    exact ⟨length_of_decodeDigits hout, nibbles_of_decodeDigits hout, encode_of_decodeDigits hout⟩
  · exact decode_encode

end Znode.Core.Hex
