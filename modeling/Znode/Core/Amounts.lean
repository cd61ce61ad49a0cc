import Mathlib
import Znode.Core.Checked
import Znode.Lib.Regex
import Znode.Lib.Text

/-!
# Amounts

`Amount`, on `int64_t` with overflow as a trap.

* `Amount.fromString`, `Amount.toText` : the pattern and the arithmetic of the one, the division, the two numbers and
  the loop over the last characters of the other;
* `amountPattern_matches_iff` : what the pattern stands for; `fromString_of_text` : what is returned for it;
* `stripZeroes_fraction` : the loop leaves the fraction without its last zeros;
* `amount_text` : the texts accepted, their value, and the way back from `toText`;
* `printsExpansion_iff` : the text is the decimal expansion for amounts above minus one coin only.
-/

namespace Znode.Core
open Znode.Lib

def kCoinMaxDecimals : Nat := 8

def kCoin : Int64 := 100000000

def kCoinMaxSupply : Int64 := 21000000

def kCurrency : Bytes := ascii "ZEN"

structure Amount where
  value : Int64 := 0
deriving DecidableEq, Repr

namespace Amount

def kMax : Int64 := kCoinMaxSupply * kCoin

def validMoney (a : Amount) : Bool := 0 ≤ a.value && a.value ≤ kMax

/-! ## Reading -/

/-- `^(\d{0,n})(\.\d{0,m})?$`, with the digits of the supply and of the fraction. -/
def amountPattern : Regex UInt8 :=
  .seq (.group (.many true 0 (some (decimal kCoinMaxSupply.toInt.toNat).length) isDigit))
    (.opt (.group (.seq (.one (· = 46)) (.many true 0 (some kCoinMaxDecimals) isDigit))))

/-- `boost::lexical_cast<int64_t>` of digits. -/
def lexicalCast (s : Bytes) : Result Int64 :=
  if s ≠ [] ∧ AllDigits s ∧ decimalVal s < 2 ^ 63 then .ok (Int64.ofNat (decimalVal s))
  else .error (.trap .badLexicalCast)

/-- A part of the text as a number, zero if it is empty. -/
def readPart (part : Bytes) : Result Int64 := if part.isEmpty then .ok 0 else lexicalCast part

/-- The fraction without its point, filled with zeros; empty if there is none. -/
def fractDigits (fractPart : Bytes) : Bytes :=
  if fractPart.isEmpty then [] else resized kCoinMaxDecimals 48 (fractPart.drop 1)

def ofParts (whole fract : Int64) : Result Amount := do
  let value ← addInt64 (← mulInt64 whole kCoin) fract
  let ret : Amount := { value := value }
  if !ret.validMoney then throw (.errc .resultOutOfRange) else return ret

def fromString (input : Bytes) : Result Amount :=
  match amountPattern.fullMatch input with
  | none => .error (.errc .invalidArgument)
  | some groups => do
    let whole ← readPart (Regex.str groups 1)
    let fract ← readPart (fractDigits (Regex.str groups 2))
    ofParts whole fract

/-! ## Writing -/

/-- The loop over the last characters, on the text read backwards: zeros are taken off, and the point behind them. -/
def stripZeroes : Bytes → Bytes
  | [] => []
  | c :: formatted =>
    if c = 48 then stripZeroes formatted
    else if c = 46 then formatted
    else c :: formatted

def toText (a : Amount) : Bytes :=
  if a.value = 0 then ascii "0 " ++ kCurrency
  else
    let quot := a.value.toInt.tdiv kCoin.toInt
    let rem := a.value.toInt.tmod kCoin.toInt
    let sign := if a.value < 0 then ascii "-" else []
    let rem := if a.value < 0 then rem * -1 else rem
    let formatted := sign ++ decimalInt quot ++ ascii "." ++ zeroPaddedInt 8 rem
    (stripZeroes formatted.reverse).reverse ++ ascii " " ++ kCurrency

/-! ## What is read -/

/-- `input` is written with these digits before and after the point, which is there if there are any after it. -/
structure IsAmountText (input whole fract : Bytes) : Prop where
  wholeDigits : AllDigits whole
  wholeLength : whole.length ≤ (decimal kCoinMaxSupply.toInt.toNat).length
  fractDigits : AllDigits fract
  fractLength : fract.length ≤ kCoinMaxDecimals
  text : input = whole ∧ fract = [] ∨ input = whole ++ ascii "." ++ fract

/-- The groups of a text: the fraction with its point. -/
theorem amountPattern_matches_iff {input : Bytes} {groups : List (Option Bytes)} :
    amountPattern.Matches input groups ↔ ∃ whole fract, AllDigits whole ∧
      whole.length ≤ (decimal kCoinMaxSupply.toInt.toNat).length ∧ AllDigits fract ∧ fract.length ≤ kCoinMaxDecimals ∧
      (input = whole ∧ fract = [] ∧ groups = [some whole, none] ∨
        input = whole ++ 46 :: fract ∧ groups = [some whole, some (46 :: fract)]) := by
  constructor
  · rintro ⟨whole, _, _, _, ⟨_, ⟨hwhole, -, hlen, rfl⟩, rfl⟩, hopt, rfl, rfl⟩
    rcases hopt with ⟨_, ⟨_, fract, _, _, ⟨⟨c, hc, rfl⟩, rfl⟩, ⟨hfract, -, hlen', rfl⟩, rfl, rfl⟩, rfl⟩ | ⟨rfl, rfl⟩
    · rw [of_decide_eq_true hc]
      exact ⟨whole, fract, hwhole, hlen _ rfl, hfract, hlen' _ rfl, .inr ⟨rfl, rfl⟩⟩
    · exact ⟨whole, [], hwhole, hlen _ rfl, by simp [AllDigits], by simp, .inl ⟨List.append_nil whole, rfl, rfl⟩⟩
  · rintro ⟨whole, fract, hwhole, hlen, hfract, hlen', ⟨rfl, -, rfl⟩ | ⟨rfl, rfl⟩⟩
    · exact ⟨input, [], [some input], [none], ⟨[], ⟨hwhole, Nat.zero_le _, by simpa using hlen, rfl⟩, rfl⟩,
        .inr ⟨rfl, rfl⟩, (List.append_nil input).symm, rfl⟩
    · exact ⟨whole, 46 :: fract, [some whole], [some (46 :: fract)],
        ⟨[], ⟨hwhole, Nat.zero_le _, by simpa using hlen, rfl⟩, rfl⟩,
        .inl ⟨[], ⟨[46], fract, [], [], ⟨⟨46, rfl, rfl⟩, rfl⟩, ⟨hfract, Nat.zero_le _, by simpa using hlen', rfl⟩,
          rfl, rfl⟩, rfl⟩, rfl, rfl⟩

/-- The whole part ends where the digits end. -/
theorem amountPattern_unique {input : Bytes} {gs₁ gs₂ : List (Option Bytes)} (h₁ : amountPattern.Matches input gs₁)
    (h₂ : amountPattern.Matches input gs₂) : gs₁ = gs₂ := by
  have hsplit : ∀ {gs}, amountPattern.Matches input gs → gs = [some (input.takeWhile isDigit),
      if input.drop (input.takeWhile isDigit).length = [] then none
      else some (input.drop (input.takeWhile isDigit).length)] := by
    intro gs hgs
    obtain ⟨whole, fract, hwhole, -, -, -, ⟨rfl, -, rfl⟩ | ⟨rfl, rfl⟩⟩ := amountPattern_matches_iff.mp hgs
    · have htake : input.takeWhile isDigit = input := List.takeWhile_eq_self_iff.mpr hwhole
      rw [htake, List.drop_length, if_pos rfl]
    · have htake : (whole ++ 46 :: fract).takeWhile isDigit = whole := takeWhile_isDigit hwhole (by simp; decide)
      rw [htake, List.drop_left, if_neg (List.cons_ne_nil _ _)]
  rw [hsplit h₁, hsplit h₂]

/-- The whole part times `kCoin`, and the fraction filled with zeros to `kCoinMaxDecimals` digits. -/
def amountOf (whole fract : Bytes) : Nat :=
  decimalVal whole * kCoin.toInt.toNat +
    decimalVal (fract ++ List.replicate (kCoinMaxDecimals - fract.length) (digitChar 0))

theorem toInt_kCoin : kCoin.toInt = 100000000 := by decide

theorem toInt_kMax : kMax.toInt = 2100000000000000 := by decide

theorem validMoney_iff (a : Amount) : a.validMoney ↔ 0 ≤ a.value.toInt ∧ a.value.toInt ≤ 2100000000000000 := by
  rw [validMoney, Bool.and_eq_true, decide_eq_true_eq, decide_eq_true_eq, Int64.le_iff_toInt_le,
    Int64.le_iff_toInt_le, toInt_kMax]
  rfl

theorem readPart_eq {s : Bytes} (hs : AllDigits s) (hlen : s.length ≤ 8) :
    readPart s = .ok (Int64.ofNat (decimalVal s)) := by
  have hlt : decimalVal s < 2 ^ 63 :=
    calc decimalVal s < 10 ^ s.length := decimalVal_lt hs
      _ ≤ 10 ^ 8 := Nat.pow_le_pow_right (by decide) hlen
      _ < 2 ^ 63 := by decide
  cases s with
  | nil => rfl
  | cons c s =>
      rw [readPart, if_neg (by simp), lexicalCast, if_pos ⟨List.cons_ne_nil c s, hs, hlt⟩]

theorem ofParts_eq {w f : Nat} (hw : w < 10 ^ 8) (hf : f < 10 ^ 8) :
    ofParts (Int64.ofNat w) (Int64.ofNat f) = if w * 100000000 + f ≤ 2100000000000000
      then .ok { value := Int64.ofNat (w * 100000000 + f) } else .error (.errc .resultOutOfRange) := by
  have hwInt : (Int64.ofNat w).toInt = w := Int64.toInt_ofNat_of_lt (by omega)
  have hfInt : (Int64.ofNat f).toInt = f := Int64.toInt_ofNat_of_lt (by omega)
  have hsum : (Int64.ofNat (w * 100000000 + f)).toInt = w * 100000000 + f := by
    rw [Int64.toInt_ofNat_of_lt (by omega)]
    push_cast
    rfl
  obtain ⟨p, hp, hpInt⟩ := mulInt64_ok (a := Int64.ofNat w) (b := kCoin) (by rw [hwInt, toInt_kCoin]; omega)
    (by rw [hwInt, toInt_kCoin]; omega)
  rw [hwInt, toInt_kCoin] at hpInt
  obtain ⟨v, hv, hvInt⟩ := addInt64_ok (a := p) (b := Int64.ofNat f) (by rw [hpInt, hfInt]; omega)
    (by rw [hpInt, hfInt]; omega)
  have hvalue : v = Int64.ofNat (w * 100000000 + f) := by
    apply Int64.toInt_inj.mp
    rw [hvInt, hpInt, hfInt, hsum]
  have hvalid := validMoney_iff { value := v }
  rw [ofParts, hp]
  simp only [bind, Except.bind, hv]
  by_cases hle : w * 100000000 + f ≤ 2100000000000000
  · rw [if_pos hle, hvalid.mpr (by rw [hvalue, hsum]; omega), hvalue]
    rfl
  · have hfalse : ({ value := v } : Amount).validMoney = false := by
      rw [Bool.eq_false_iff, ne_eq, hvalid, hvalue, hsum]
      omega
    rw [if_neg hle, hfalse]
    rfl

/-- The fraction has no more digits than the pattern takes, so that none is cut off. -/
theorem fractDigits_cons {fract : Bytes} (h : fract.length ≤ kCoinMaxDecimals) : fractDigits (46 :: fract) =
    fract ++ List.replicate (kCoinMaxDecimals - fract.length) (digitChar 0) := by
  rw [fractDigits, if_neg (by simp), List.drop_one, List.tail_cons, resized_of_length_le h]
  rfl

theorem padded_digits {fract : Bytes} (h : AllDigits fract) (n : Nat) :
    AllDigits (fract ++ List.replicate n (digitChar 0)) := by
  refine h.append fun c hc => ?_
  rw [List.eq_of_mem_replicate hc]
  decide

theorem fromString_of_match {input : Bytes} {groups : List (Option Bytes)}
    (hmatch : amountPattern.fullMatch input = some groups) (hwhole : AllDigits (Regex.str groups 1))
    (hwholeLen : (Regex.str groups 1).length ≤ 8) (hfract : AllDigits (fractDigits (Regex.str groups 2)))
    (hfractLen : (fractDigits (Regex.str groups 2)).length ≤ 8) : fromString input =
      ofParts (Int64.ofNat (decimalVal (Regex.str groups 1)))
        (Int64.ofNat (decimalVal (fractDigits (Regex.str groups 2)))) := by
  rw [fromString, hmatch]
  simp only [readPart_eq hwhole hwholeLen, readPart_eq hfract hfractLen, bind, Except.bind]

/-- **The text decides** what is returned. -/
theorem fromString_of_text {input whole fract : Bytes} (h : IsAmountText input whole fract) :
    fromString input = if amountOf whole fract ≤ 2100000000000000
      then .ok { value := Int64.ofNat (amountOf whole fract) } else .error (.errc .resultOutOfRange) := by
  obtain ⟨hwhole, hwholeLen, hfract, hfractLen, htext⟩ := h
  have hw : decimalVal whole < 10 ^ 8 :=
    (decimalVal_lt hwhole).trans_le (Nat.pow_le_pow_right (by decide) hwholeLen)
  have hfilled : AllDigits (fract ++ List.replicate (kCoinMaxDecimals - fract.length) (digitChar 0)) :=
    padded_digits hfract _
  have hfilledLen : (fract ++ List.replicate (kCoinMaxDecimals - fract.length) (digitChar 0)).length = 8 := by
    rw [List.length_append, List.length_replicate]
    exact Nat.add_sub_cancel' hfractLen
  have hf : decimalVal (fract ++ List.replicate (kCoinMaxDecimals - fract.length) (digitChar 0)) < 10 ^ 8 := by
    have hlt := decimalVal_lt hfilled
    rwa [hfilledLen] at hlt
  have hunique : ∀ gs₁ gs₂, amountPattern.Matches input gs₁ → amountPattern.Matches input gs₂ → gs₁ = gs₂ :=
    fun _ _ => amountPattern_unique
  rcases htext with ⟨rfl, rfl⟩ | rfl
  · have hmatch : amountPattern.fullMatch input = some [some input, none] :=
      (Regex.fullMatch_eq_some_iff hunique).mpr
        (amountPattern_matches_iff.mpr ⟨input, [], hwhole, hwholeLen, hfract, hfractLen, .inl ⟨rfl, rfl, rfl⟩⟩)
    rw [fromString_of_match hmatch hwhole hwholeLen hfract (Nat.zero_le _)]
    exact ofParts_eq hw hf
  · have hmatch : amountPattern.fullMatch (whole ++ ascii "." ++ fract) = some [some whole, some (46 :: fract)] :=
      (Regex.fullMatch_eq_some_iff hunique).mpr (amountPattern_matches_iff.mpr
        ⟨whole, fract, hwhole, hwholeLen, hfract, hfractLen, .inr ⟨List.append_assoc _ _ _, rfl⟩⟩)
    have hdigits : fractDigits (Regex.str [some whole, some (46 :: fract)] 2) =
        fract ++ List.replicate (kCoinMaxDecimals - fract.length) (digitChar 0) := fractDigits_cons hfractLen
    rw [fromString_of_match hmatch hwhole hwholeLen (by rwa [hdigits]) (by rw [hdigits, hfilledLen]), hdigits]
    exact ofParts_eq hw hf

theorem fromString_of_not_text {input : Bytes} (h : ¬ ∃ whole fract, IsAmountText input whole fract) :
    fromString input = .error (.errc .invalidArgument) := by
  have hnone : amountPattern.fullMatch input = none := by
    rw [Regex.fullMatch_eq_none_iff]
    intro groups hgroups
    obtain ⟨whole, fract, hwhole, hlen, hfract, hlen', htext⟩ := amountPattern_matches_iff.mp hgroups
    refine h ⟨whole, fract, hwhole, hlen, hfract, hlen', ?_⟩
    rcases htext with ⟨hinput, hnil, -⟩ | ⟨hinput, -⟩
    · exact .inl ⟨hinput, hnil⟩
    · rw [hinput, List.append_assoc]
      exact .inr rfl
  rw [fromString, hnone]

/-- The amount is the number of the text in units of `1 / kCoin`. -/
theorem amountOf_eq {whole fract : Bytes} (h : fract.length ≤ kCoinMaxDecimals) :
    (amountOf whole fract : Rat) = fractionVal whole fract * 100000000 := by
  have hlen : (fract ++ List.replicate (kCoinMaxDecimals - fract.length) (digitChar 0)).length = 8 := by
    rw [List.length_append, List.length_replicate]
    exact Nat.add_sub_cancel' h
  rw [← fractionVal_zeros whole fract (kCoinMaxDecimals - fract.length), fractionVal, hlen, amountOf, toInt_kCoin]
  push_cast
  norm_num
  ring

/-! ## What is written -/

def trimmed (fract : Bytes) : Bytes := fract.rdropWhile (· = 48)

theorem stripZeroes_append {fract front : Bytes} (h : AllDigits fract) :
    stripZeroes (fract ++ 46 :: front) =
      if fract.dropWhile (· = 48) = [] then front else fract.dropWhile (· = 48) ++ 46 :: front := by
  induction fract with
  | nil => rfl
  | cons c fract ih =>
      obtain ⟨hc, hfract⟩ := List.forall_mem_cons.mp h
      by_cases hzero : c = 48
      · rw [List.dropWhile_cons_of_pos (by simpa using hzero), List.cons_append, stripZeroes, if_pos hzero, ih hfract]
      · have hpoint : c ≠ 46 := by
          intro hpoint
          rw [hpoint] at hc
          exact absurd hc (by decide)
        rw [List.dropWhile_cons_of_neg (by simpa using hzero), if_neg (List.cons_ne_nil _ _), List.cons_append,
          stripZeroes, if_neg hzero, if_neg hpoint]

/-- **The loop over the last characters** leaves the fraction without its zeros. -/
theorem stripZeroes_fraction (front : Bytes) {fract : Bytes} (h : AllDigits fract) :
    (stripZeroes (front ++ ascii "." ++ fract).reverse).reverse = front ++ pointed (trimmed fract) := by
  have hreverse : (front ++ ascii "." ++ fract).reverse = fract.reverse ++ 46 :: front.reverse := by
    rw [List.reverse_append, List.reverse_append]
    rfl
  have htrim : trimmed fract = (fract.reverse.dropWhile (· = 48)).reverse := rfl
  rw [hreverse, stripZeroes_append fun c hc => h c (List.mem_reverse.mp hc), pointed, htrim]
  by_cases hnil : fract.reverse.dropWhile (· = 48) = []
  · rw [if_pos hnil, hnil, List.reverse_reverse, List.reverse_nil, if_pos rfl, List.append_nil]
  · rw [if_neg hnil, if_neg (by simpa using hnil), List.reverse_append, List.reverse_cons, List.reverse_reverse,
      List.append_assoc]
    rfl

theorem trimmed_append (fract : Bytes) :
    trimmed fract ++ List.replicate (fract.length - (trimmed fract).length) (digitChar 0) = fract := by
  have hsplit : trimmed fract ++ fract.rtakeWhile (· = 48) = fract := List.rdropWhile_append_rtakeWhile
  have hzeros : fract.rtakeWhile (· = 48) = List.replicate (fract.rtakeWhile (· = 48)).length (digitChar 0) :=
    List.eq_replicate_of_mem fun c hc => by simpa [digitChar_zero] using List.mem_rtakeWhile_imp hc
  have hlen := congrArg List.length hsplit
  rw [List.length_append] at hlen
  rw [hzeros] at hsplit
  rw [← hlen, Nat.add_sub_cancel_left]
  exact hsplit

theorem trimmed_digits {fract : Bytes} (h : AllDigits fract) : AllDigits (trimmed fract) :=
  fun c hc => h c (( List.rdropWhile_prefix _ _).subset hc)

theorem getLast?_trimmed (fract : Bytes) : (trimmed fract).getLast? ≠ some (digitChar 0) := by
  intro h
  have hne : trimmed fract ≠ [] := by
    intro hnil
    rw [hnil] at h
    cases h
  rw [List.getLast?_eq_some_getLast hne, Option.some.injEq] at h
  exact List.rdropWhile_last_not _ fract hne (decide_eq_true h)

def wholeText (a : Amount) : Bytes := decimal (a.value.toInt.natAbs / 100000000)

def fractText (a : Amount) : Bytes := trimmed (zeroPadded 8 (a.value.toInt.natAbs % 100000000))

theorem decimalInt_natCast (n : Nat) : decimalInt n = decimal n := by
  rw [decimalInt, if_neg (by omega), Int.natAbs_natCast]

theorem decimalInt_neg {n : Nat} (h : n ≠ 0) : decimalInt (-n) = ascii "-" ++ decimal n := by
  rw [decimalInt, if_pos (by omega), Int.natAbs_neg, Int.natAbs_natCast]

theorem zeroPaddedInt_natCast (n : Nat) : zeroPaddedInt 8 n = zeroPadded 8 n := by
  rw [zeroPaddedInt, if_neg (by omega), Int.natAbs_natCast]

theorem tdiv_natCast (n : Nat) : (n : Int).tdiv 100000000 = (n / 100000000 : Nat) := by
  rw [Int.tdiv_eq_ediv_of_nonneg (by omega)]
  omega

theorem tmod_natCast (n : Nat) : (n : Int).tmod 100000000 = (n % 100000000 : Nat) := by
  rw [Int.tmod_eq_emod_of_nonneg (by omega)]
  omega

/-- **The text of an amount.** The whole part of a negative amount has a sign of its own. -/
theorem toText_eq (a : Amount) : a.toText =
    ((if a.value.toInt < 0 then ascii "-" else []) ++ (if a.value.toInt ≤ -100000000 then ascii "-" else []) ++
      a.wholeText ++ pointed a.fractText) ++ (ascii " " ++ kCurrency) := by
  have hlt : a.value < 0 ↔ a.value.toInt < 0 := Int64.lt_iff_toInt_lt
  by_cases hzero : a.value = 0
  · rw [toText, if_pos hzero, wholeText, fractText, hzero]
    decide
  have hne : a.value.toInt ≠ 0 := fun h => hzero (Int64.toInt_inj.mp h)
  have hstrip := fun front (n : Nat) => stripZeroes_fraction front (zeroPadded_digits 8 n)
  simp only [toText, if_neg hzero, hlt, toInt_kCoin]
  obtain ⟨n, hn | hn⟩ := Int.eq_nat_or_neg a.value.toInt
  · rw [wholeText, fractText, hn, Int.natAbs_natCast, if_neg (by omega), if_neg (by omega), if_neg (by omega),
      tdiv_natCast, tmod_natCast, decimalInt_natCast, zeroPaddedInt_natCast, hstrip, List.append_assoc]
    rfl
  · have hpos : n ≠ 0 := by omega
    rw [wholeText, fractText, hn, Int.natAbs_neg, Int.natAbs_natCast, if_pos (by omega), if_pos (by omega),
      Int.neg_tdiv, Int.neg_tmod, tdiv_natCast, tmod_natCast, Int.neg_mul_neg, Int.mul_one, zeroPaddedInt_natCast,
      hstrip, List.append_assoc]
    congr 2
    by_cases hcoin : n / 100000000 = 0
    · rw [if_neg (by omega), hcoin]
      rfl
    · rw [if_pos (by omega), decimalInt_neg hcoin]
      rfl

/-! ## Both directions -/

theorem fromString_ok_iff {input : Bytes} {a : Amount} : fromString input = .ok a ↔
    ∃ whole fract, IsAmountText input whole fract ∧ fractionVal whole fract ≤ kCoinMaxSupply.toInt ∧
      a.value.toInt = amountOf whole fract := by
  have hvalue : ∀ {whole fract}, IsAmountText input whole fract →
      (fractionVal whole fract ≤ kCoinMaxSupply.toInt ↔ amountOf whole fract ≤ 2100000000000000) := by
    intro whole fract h
    have hsupply : (kCoinMaxSupply.toInt : Rat) = 21000000 := by decide
    rw [hsupply, ← Nat.cast_le (α := Rat), amountOf_eq h.fractLength]
    constructor
    · intro hle
      push_cast
      linarith
    · intro hle
      push_cast at hle
      linarith
  have hint : ∀ {n : Nat}, n ≤ 2100000000000000 → (Int64.ofNat n).toInt = n :=
    fun h => Int64.toInt_ofNat_of_lt (by omega)
  constructor
  · intro h
    by_cases htext : ∃ whole fract, IsAmountText input whole fract
    · obtain ⟨whole, fract, htext⟩ := htext
      rw [fromString_of_text htext] at h
      split_ifs at h with hle
      · cases h
        exact ⟨whole, fract, htext, (hvalue htext).mpr hle, hint hle⟩
    · rw [fromString_of_not_text htext] at h
      cases h
  · rintro ⟨whole, fract, htext, hle, ha⟩
    rw [hvalue htext] at hle
    rw [fromString_of_text htext, if_pos hle, Except.ok.injEq, Amount.mk.injEq]
    apply Int64.toInt_inj.mp
    rw [hint hle, ha]

theorem fromString_no_trap (input : Bytes) (t : Trap) : fromString input ≠ .error (.trap t) := by
  intro h
  by_cases htext : ∃ whole fract, IsAmountText input whole fract
  · obtain ⟨whole, fract, htext⟩ := htext
    rw [fromString_of_text htext] at h
    split_ifs at h
    cases h
  · rw [fromString_of_not_text htext] at h
    cases h

theorem fractText_digits (a : Amount) : AllDigits a.fractText := trimmed_digits (zeroPadded_digits 8 _)

theorem length_zeroPadded_fract (a : Amount) : (zeroPadded 8 (a.value.toInt.natAbs % 100000000)).length = 8 :=
  length_zeroPadded (by decide) (Nat.mod_lt _ (by decide))

/-- The digits after the point with the zeros that were taken off. -/
theorem fractText_append (a : Amount) : a.fractText ++ List.replicate (8 - a.fractText.length) (digitChar 0) =
    zeroPadded 8 (a.value.toInt.natAbs % 100000000) := by
  have h := trimmed_append (zeroPadded 8 (a.value.toInt.natAbs % 100000000))
  rwa [length_zeroPadded_fract] at h

theorem isAmountText_toText {a : Amount} (h : a.value.toInt.natAbs ≤ 2100000000000000) :
    IsAmountText (a.wholeText ++ pointed a.fractText) a.wholeText a.fractText where
  wholeDigits := decimal_digits _
  wholeLength := length_decimal_le (by decide) (by
    have hwidth : (decimal kCoinMaxSupply.toInt.toNat).length = 8 := by decide
    rw [hwidth]
    omega)
  fractDigits := a.fractText_digits
  fractLength := by
    have hlen := ( List.rdropWhile_prefix (· = 48) (zeroPadded 8 (a.value.toInt.natAbs % 100000000))).length_le
    rwa [length_zeroPadded_fract] at hlen
  text := by
    unfold pointed
    split_ifs with hnil
    · exact .inl ⟨List.append_nil _, hnil⟩
    · exact .inr (List.append_assoc _ _ _).symm

theorem amountOf_toText (a : Amount) : amountOf a.wholeText a.fractText = a.value.toInt.natAbs := by
  rw [amountOf, kCoinMaxDecimals, fractText_append, decimalVal_zeroPadded, wholeText, decimalVal_decimal, toInt_kCoin]
  exact Nat.div_add_mod' _ _

theorem fromString_toText {a : Amount} (h : a.validMoney) :
    ∃ text, a.toText = text ++ (ascii " " ++ kCurrency) ∧ fromString text = .ok a := by
  obtain ⟨hlo, hhi⟩ := (validMoney_iff a).mp h
  refine ⟨a.wholeText ++ pointed a.fractText, ?_, ?_⟩
  · rw [toText_eq, if_neg (by omega), if_neg (by omega)]
    rfl
  · rw [fromString_of_text (isAmountText_toText (by omega)), amountOf_toText, if_pos (by omega), Except.ok.injEq]
    apply congrArg Amount.mk
    apply Int64.toInt_inj.mp
    rw [Int64.toInt_ofNat_of_lt (by omega)]
    omega

/-- **Amounts as text.** Accepted are at most as many digits as the supply has, and a point with at most eight digits,
up to the supply; the amount is exact, nothing overflows, and the text of an amount is read back. -/
theorem amount_text :
    (∀ input a, fromString input = .ok a ↔ ∃ whole fract, IsAmountText input whole fract ∧
      fractionVal whole fract ≤ kCoinMaxSupply.toInt ∧ a.value.toInt = amountOf whole fract) ∧
    (∀ input t, fromString input ≠ .error (.trap t)) ∧
    ∀ a : Amount, a.validMoney → ∃ text, a.toText = text ++ (ascii " " ++ kCurrency) ∧ fromString text = .ok a :=
  ⟨fun _ _ => fromString_ok_iff, fromString_no_trap, fun _ => fromString_toText⟩

/-! ## The decimal expansion -/

/-- What stands before the currency is the decimal expansion of the amount in coins. -/
def PrintsExpansion (a : Amount) : Prop :=
  ∃ text, a.toText = text ++ (ascii " " ++ kCurrency) ∧ IsDecimalOf (a.value.toInt / 10 ^ 8) text

theorem fractionVal_toText (a : Amount) :
    fractionVal a.wholeText a.fractText = |(a.value.toInt : Rat) / 10 ^ 8| := by
  have hdivmod : (a.value.toInt.natAbs / 100000000 : Nat) * 100000000 + a.value.toInt.natAbs % 100000000 =
      a.value.toInt.natAbs := Nat.div_add_mod' _ _
  have habs : |(a.value.toInt : Rat)| = (a.value.toInt.natAbs : Rat) := by
    rw [Nat.cast_natAbs, Int.cast_abs]
  have hcast := congrArg (Nat.cast (R := Rat)) hdivmod
  push_cast at hcast
  rw [← fractionVal_zeros _ _ (8 - a.fractText.length), fractText_append, fractionVal, decimalVal_zeroPadded,
    length_zeroPadded_fract, wholeText, decimalVal_decimal, abs_div, habs, ← hcast]
  norm_num
  ring

/-- Above minus one coin. -/
theorem printsExpansion_of_lt {a : Amount} (h : -100000000 < a.value.toInt) : a.PrintsExpansion := by
  have hsign : (a.value.toInt : Rat) / 10 ^ 8 < 0 ↔ a.value.toInt < 0 := by
    rw [div_lt_iff₀ (by norm_num), zero_mul]
    exact Int.cast_lt_zero
  refine ⟨_, a.toText_eq, a.wholeText, a.fractText, ?_⟩
  constructor
  · exact decimal_digits _
  · exact a.fractText_digits
  · rw [if_neg (by omega : ¬ a.value.toInt ≤ -100000000), List.append_nil]
    simp only [hsign]
    rfl
  · exact decimal_ne_nil _
  · intro hhead
    by_cases hwhole : a.value.toInt.natAbs / 100000000 = 0
    · rw [wholeText, hwhole]
      rfl
    · exact absurd hhead (head?_decimal hwhole)
  · exact getLast?_trimmed _
  · exact a.fractionVal_toText

/-- From minus one coin on there are two signs. -/
theorem not_printsExpansion {a : Amount} (h : a.value.toInt ≤ -100000000) : ¬ a.PrintsExpansion := by
  rintro ⟨text, htext, whole, fract, hexp⟩
  have hneg : (a.value.toInt : Rat) / 10 ^ 8 < 0 := by
    rw [div_lt_iff₀ (by norm_num), zero_mul]
    exact Int.cast_lt_zero.mpr (by omega)
  have hsame := List.append_cancel_right (a.toText_eq.symm.trans htext)
  rw [if_pos (by omega), if_pos h, hexp.text, if_pos hneg, List.append_assoc, List.append_assoc, List.append_assoc,
    List.append_cancel_left_eq] at hsame
  -- the whole part would begin with the second sign
  obtain ⟨c, whole', rfl⟩ := List.exists_cons_of_ne_nil hexp.nonempty
  have hc : c = 45 := (List.cons.inj hsame).1.symm
  have hdigit := hexp.wholeDigits c List.mem_cons_self
  rw [hc] at hdigit
  exact absurd hdigit (by decide)

/-- **The text is the decimal expansion** for amounts above minus one coin, and for no other. -/
theorem printsExpansion_iff (a : Amount) : a.PrintsExpansion ↔ -100000000 < a.value.toInt := by
  constructor
  · intro hprints
    by_contra hle
    exact not_printsExpansion (not_lt.mp hle) hprints
  · exact printsExpansion_of_lt

theorem minus_one_and_a_half : toText { value := -150000000 } = ascii "--1.5 ZEN" ∧
    ¬ PrintsExpansion { value := -150000000 } :=
  ⟨by decide +kernel, not_printsExpansion (by decide)⟩

end Amount

end Znode.Core
