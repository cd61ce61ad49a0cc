import Mathlib
import Znode.Core.Checked
import Znode.Core.Hex
import Znode.Lib.Regex
import Znode.Lib.Text

/-!
# Sizes for people

* `parseHumanBytes` : the pattern, the unit and the arithmetic of `uint64_t`, which wraps;
* `IsSizeText` : the texts the pattern stands for (`sizePattern_matches_iff`), each read in one way
  (`isSizeText_unique`), and `exactSize`, the size such a text means;
* `parseHumanBytes_of_text` : what is returned is the exact size modulo `2 ^ 64`, and nothing is refused;
* `parsedOrRefused_iff` : the size is exact for texts that mean less than `2 ^ 64` only;
* `toHumanBytes` : the loop over the suffixes, on rationals (`scale_mul_pow`, `scale_lt_iff`), and the table;
* `staysInside_iff` : the index stays inside the table below the fifth power of the divisor only.
-/

namespace Znode.Core
open Znode.Lib

def kKB : UInt64 := 1000
def kMB : UInt64 := kKB * 1000
def kGB : UInt64 := kMB * 1000
def kTB : UInt64 := kGB * 1000
def kKiB : UInt64 := 1024
def kMiB : UInt64 := kKiB <<< 10
def kGiB : UInt64 := kMiB <<< 10
def kTiB : UInt64 := kGiB <<< 10

def iequals (a b : Bytes) : Bool := a.map Hex.toLower = b.map Hex.toLower

/-! ## Reading -/

/-- `(\.\d{1,3})` without its parentheses. -/
def fractPattern : Regex UInt8 := .seq (.one (· = 46)) (.many true 1 (some 3) isDigit)

/-- `(B|KB|MB|GB|TB|KiB|MiB|GiB|TiB)` without its parentheses. -/
def unitPattern : Regex UInt8 :=
  Regex.oneOf Hex.toLower (ascii "B") (["KB", "MB", "GB", "TB", "KiB", "MiB", "GiB", "TiB"].map ascii)

/-- `^(\d{0,10})(\.\d{1,3})?\ *?(B|KB|MB|GB|TB|KiB|MiB|GiB|TiB)?$`, in either case. -/
def sizePattern : Regex UInt8 :=
  .seq (.group (.many true 0 (some 10) isDigit)) <|
  .seq (.opt (.group fractPattern)) <|
  .seq (.many false 0 none (· = 32)) (.opt (.group unitPattern))

/-- `std::strtoull` of digits. -/
def strtoull (s : Bytes) : UInt64 :=
  if decimalVal s < 2 ^ 64 then UInt64.ofNat (decimalVal s) else UInt64.ofNat (2 ^ 64 - 1)

def multiplierOf (suffix : Bytes) : UInt64 :=
  if iequals suffix (ascii "KB") then kKB
  else if iequals suffix (ascii "MB") then kMB
  else if iequals suffix (ascii "GB") then kGB
  else if iequals suffix (ascii "TB") then kTB
  else if iequals suffix (ascii "KiB") then kKiB
  else if iequals suffix (ascii "MiB") then kMiB
  else if iequals suffix (ascii "GiB") then kGiB
  else if iequals suffix (ascii "TiB") then kTiB
  else 1

/-- The loop over the places behind the point. -/
def fractBase (fractPart : Bytes) : UInt32 := (List.range' 1 (fractPart.length - 1)).foldl (fun base _ => base * 10) 10

/-- The arithmetic of `parse_human_bytes` on the parts of the text. -/
def sizeOfParts (wholePart fractPart suffix : Bytes) : UInt64 :=
  let multiplier := multiplierOf suffix
  let value := strtoull wholePart * multiplier
  if 1 < multiplier ∧ ¬ fractPart.isEmpty then
    value + multiplier * strtoull fractPart / (fractBase fractPart).toUInt64
  else value

def parseHumanBytes (input : Bytes) : Result UInt64 :=
  if input.isEmpty then .ok 0
  else
    match sizePattern.fullMatch input with
    | none => .error (.errc .invalidArgument)
    | some groups => .ok (sizeOfParts (Regex.str groups 1) ((Regex.str groups 2).drop 1) (Regex.str groups 3))

/-! ## The texts of sizes -/

def unitSizes : List (Bytes × Nat) :=
  [(ascii "B", 1), (ascii "KB", 10 ^ 3), (ascii "MB", 10 ^ 6), (ascii "GB", 10 ^ 9), (ascii "TB", 10 ^ 12),
    (ascii "KiB", 2 ^ 10), (ascii "MiB", 2 ^ 20), (ascii "GiB", 2 ^ 30), (ascii "TiB", 2 ^ 40)]

/-- A unit in either case, or none, stands for `m` bytes. -/
def IsUnit (unit : Bytes) (m : Nat) : Prop := unit = [] ∧ m = 1 ∨ ∃ u, (u, m) ∈ unitSizes ∧ iequals unit u

/-- `input` has these digits before and after the point and this unit, which stands for `m` bytes. -/
structure IsSizeText (input whole fract unit : Bytes) (m : Nat) : Prop where
  wholeDigits : AllDigits whole
  wholeLength : whole.length ≤ 10
  fractDigits : AllDigits fract
  fractLength : fract.length ≤ 3
  isUnit : IsUnit unit m
  text : ∃ spaces, input = whole ++ (pointed fract ++ (List.replicate spaces 32 ++ unit))

/-- The size with these digits before and after the point. -/
def exactSize (whole fract : Bytes) (m : Nat) : Nat :=
  decimalVal whole * m + if 1 < m then ⌊m * fractionVal [] fract⌋₊ else 0

theorem floor_mul_fractionVal (m : Nat) (fract : Bytes) :
    ⌊m * fractionVal [] fract⌋₊ = m * decimalVal fract / 10 ^ fract.length := by
  have hnil : decimalVal [] = 0 := rfl
  rw [fractionVal, hnil, Nat.cast_zero, zero_add, ← mul_div_assoc, ← Nat.floor_div_eq_div (K := Rat)]
  push_cast
  rfl

theorem unitPattern_matches_iff {unit : Bytes} : unit = [] ∨ unitPattern.Matches unit [] ↔ ∃ m, IsUnit unit m := by
  have hwords : ∀ u, u ∈ ascii "B" :: ["KB", "MB", "GB", "TB", "KiB", "MiB", "GiB", "TiB"].map ascii ↔
      ∃ m, (u, m) ∈ unitSizes := by
    simp [unitSizes, exists_or]
  rw [unitPattern, Regex.oneOf_matches_iff]
  constructor
  · rintro (rfl | ⟨⟨u, hu, heq⟩, -⟩)
    · exact ⟨1, .inl ⟨rfl, rfl⟩⟩
    · obtain ⟨m, hm⟩ := (hwords u).mp hu
      exact ⟨m, .inr ⟨u, hm, decide_eq_true heq⟩⟩
  · rintro ⟨m, ⟨rfl, -⟩ | ⟨u, hu, heq⟩⟩
    · exact .inl rfl
    · exact .inr ⟨⟨u, (hwords u).mpr ⟨m, hu⟩, of_decide_eq_true heq⟩, rfl⟩

theorem fractPattern_matches_iff {s : Bytes} : s = [] ∨ fractPattern.Matches s [] ↔
    ∃ fract, AllDigits fract ∧ fract.length ≤ 3 ∧ s = pointed fract := by
  constructor
  · rintro (rfl | ⟨_, fract, _, _, ⟨⟨c, hc, rfl⟩, -⟩, ⟨hfract, hlo, hhi, -⟩, rfl, -⟩)
    · exact ⟨[], by simp [AllDigits], by simp, rfl⟩
    · have hne : fract ≠ [] := List.length_pos_iff.mp hlo
      exact ⟨fract, hfract, hhi 3 rfl, by rw [of_decide_eq_true hc, pointed_of_ne_nil hne]; rfl⟩
  · rintro ⟨fract, hfract, hlen, rfl⟩
    by_cases hne : fract = []
    · exact .inl (by rw [hne, pointed_nil])
    · refine .inr ⟨[46], fract, [], [], ⟨⟨46, rfl, rfl⟩, rfl⟩, ⟨hfract, List.length_pos_iff.mpr hne, ?_, rfl⟩, ?_, rfl⟩
      · simpa using hlen
      · exact pointed_of_ne_nil hne

theorem fractGroup_matches_iff {s : Bytes} {gs : List (Option Bytes)} :
    (Regex.opt (.group fractPattern)).Matches s gs ↔
      (∃ fract, AllDigits fract ∧ fract.length ≤ 3 ∧ s = pointed fract) ∧ gs = [Regex.taken s] := by
  rw [← fractPattern_matches_iff]
  refine Regex.opt_group_matches_iff rfl ?_
  rintro ⟨_, _, _, _, ⟨⟨c, -, rfl⟩, -⟩, -, hnil, -⟩
  cases hnil

theorem unitGroup_matches_iff {unit : Bytes} {gs : List (Option Bytes)} :
    (Regex.opt (.group unitPattern)).Matches unit gs ↔ (∃ m, IsUnit unit m) ∧ gs = [Regex.taken unit] := by
  rw [← unitPattern_matches_iff]
  refine Regex.opt_group_matches_iff rfl ?_
  rw [unitPattern, Regex.oneOf_matches_iff]
  decide

/-- The groups of a text: the fraction with its point, and a unit if there is one. -/
theorem sizePattern_matches_iff {input : Bytes} {groups : List (Option Bytes)} : sizePattern.Matches input groups ↔
    ∃ whole fract unit m, IsSizeText input whole fract unit m ∧
      groups = [some whole, Regex.taken (pointed fract), Regex.taken unit] := by
  constructor
  · rintro ⟨whole, _, _, _, ⟨_, ⟨hwhole, -, hlen, rfl⟩, rfl⟩,
      ⟨s, _, _, _, hs, ⟨spaces, unit, _, _, ⟨hspaces, -, -, rfl⟩, hunit, rfl, rfl⟩, rfl, rfl⟩, rfl, rfl⟩
    obtain ⟨⟨fract, hfract, hlen', rfl⟩, rfl⟩ := fractGroup_matches_iff.mp hs
    obtain ⟨⟨m, hm⟩, rfl⟩ := unitGroup_matches_iff.mp hunit
    have hreplicate : spaces = List.replicate spaces.length 32 :=
      List.eq_replicate_of_mem fun c hc => of_decide_eq_true (hspaces c hc)
    exact ⟨whole, fract, unit, m, ⟨hwhole, hlen 10 rfl, hfract, hlen', hm, spaces.length, by rw [← hreplicate]⟩, rfl⟩
  · rintro ⟨whole, fract, unit, m, ⟨hwhole, hlen, hfract, hlen', hm, spaces, rfl⟩, rfl⟩
    have hs := fractGroup_matches_iff.mpr ⟨⟨fract, hfract, hlen', rfl⟩, rfl⟩
    have hunit := unitGroup_matches_iff.mpr ⟨⟨m, hm⟩, rfl⟩
    refine ⟨whole, _, [some whole], _, ⟨[], ⟨hwhole, Nat.zero_le _, by simpa using hlen, rfl⟩, rfl⟩,
      ⟨_, _, _, _, hs, ⟨List.replicate spaces 32, unit, [], _, ⟨?_, Nat.zero_le _, by simp, rfl⟩, hunit, rfl, rfl⟩,
        rfl, rfl⟩, rfl, rfl⟩
    intro c hc
    exact decide_eq_true (List.eq_of_mem_replicate hc)

/-! ## One way to read -/

theorem IsUnit.head {unit : Bytes} {m : Nat} (h : IsUnit unit m) :
    ∀ c ∈ unit.head?, isDigit c = false ∧ c ≠ 46 ∧ c ≠ 32 := by
  have hletters : ∀ u ∈ unitSizes, ∀ c ∈ (u.1.map Hex.toLower).head?, c ∈ ascii "bkmgt" := by
    decide +kernel
  have hlower : ∀ c : UInt8, Hex.toLower c ∈ ascii "bkmgt" → isDigit c = false ∧ c ≠ 46 ∧ c ≠ 32 := by
    decide +kernel
  intro c hc
  rcases h with ⟨rfl, -⟩ | ⟨u, hu, heq⟩
  · cases hc
  · apply hlower
    apply hletters _ hu
    rw [← of_decide_eq_true heq, List.head?_map, hc]
    rfl

theorem pointed_unique {f₁ f₂ r₁ r₂ : Bytes} (hf₁ : AllDigits f₁) (hf₂ : AllDigits f₂)
    (hr₁ : ∀ c ∈ r₁.head?, isDigit c = false ∧ c ≠ 46) (hr₂ : ∀ c ∈ r₂.head?, isDigit c = false ∧ c ≠ 46)
    (h : pointed f₁ ++ r₁ = pointed f₂ ++ r₂) : f₁ = f₂ ∧ r₁ = r₂ := by
  by_cases h₁ : f₁ = [] <;> by_cases h₂ : f₂ = []
  · rw [h₁, h₂] at h
    exact ⟨h₁.trans h₂.symm, h⟩
  · -- the second text has a point where the first has none
    have hhead : r₁.head? = some 46 := by
      rw [h₁] at h
      rw [show r₁ = pointed f₂ ++ r₂ from h]
      rw [pointed_of_ne_nil h₂]
      rfl
    exact absurd rfl (hr₁ 46 hhead).2
  · have hhead : r₂.head? = some 46 := by
      rw [h₂] at h
      rw [show r₂ = pointed f₁ ++ r₁ from h.symm]
      rw [pointed_of_ne_nil h₁]
      rfl
    exact absurd rfl (hr₂ 46 hhead).2
  · rw [pointed_of_ne_nil h₁, pointed_of_ne_nil h₂] at h
    exact cut_unique hf₁ hf₂ (fun c hc => (hr₁ c hc).1) (fun c hc => (hr₂ c hc).1) (List.cons.inj h).2

theorem spaces_head (spaces : Nat) {unit : Bytes} {m : Nat} (h : IsUnit unit m) :
    ∀ c ∈ (List.replicate spaces (32 : UInt8) ++ unit).head?, isDigit c = false ∧ c ≠ 46 := by
  intro c hc
  cases spaces with
  | zero =>
      have hc' := h.head c (by simpa using hc)
      exact ⟨hc'.1, hc'.2.1⟩
  | succ n =>
      have hc' : c = 32 := by simpa [List.replicate_succ] using hc.symm
      rw [hc']
      decide

theorem isSizeText_unique {input w₁ f₁ u₁ w₂ f₂ u₂ : Bytes} {m₁ m₂ : Nat} (h₁ : IsSizeText input w₁ f₁ u₁ m₁)
    (h₂ : IsSizeText input w₂ f₂ u₂ m₂) : w₁ = w₂ ∧ f₁ = f₂ ∧ u₁ = u₂ := by
  obtain ⟨n₁, htext₁⟩ := h₁.text
  obtain ⟨n₂, htext₂⟩ := h₂.text
  have hrest : ∀ {f r : Bytes}, (∀ c ∈ r.head?, isDigit c = false ∧ c ≠ 46) →
      ∀ c ∈ (pointed f ++ r).head?, isDigit c = false := by
    intro f r hr c hc
    rcases hf : (pointed f).head? with _ | d
    · rw [List.head?_eq_none_iff.mp hf] at hc
      exact (hr c hc).1
    · rw [List.head?_append, hf] at hc
      obtain rfl : d = c := by simpa using hc
      rw [head?_pointed d hf]
      rfl
  have hs₁ := spaces_head n₁ h₁.isUnit
  have hs₂ := spaces_head n₂ h₂.isUnit
  obtain ⟨hw, hafter⟩ := cut_unique h₁.wholeDigits h₂.wholeDigits (hrest hs₁) (hrest hs₂) (htext₁.symm.trans htext₂)
  obtain ⟨hf, hend⟩ := pointed_unique h₁.fractDigits h₂.fractDigits hs₁ hs₂ hafter
  have hspace : ∀ {n : Nat}, ∀ c ∈ List.replicate n (32 : UInt8), decide (c = 32) = true :=
    fun c hc => decide_eq_true (List.eq_of_mem_replicate hc)
  have hletter : ∀ {u : Bytes} {m : Nat}, IsUnit u m → ∀ c ∈ u.head?, decide (c = 32) = false :=
    fun hu c hc => decide_eq_false (hu.head c hc).2.2
  exact ⟨hw, hf, (cut_unique hspace hspace (hletter h₁.isUnit) (hletter h₂.isUnit) hend).2⟩

theorem sizePattern_fullMatch {input whole fract unit : Bytes} {m : Nat} (h : IsSizeText input whole fract unit m) :
    sizePattern.fullMatch input = some [some whole, Regex.taken (pointed fract), Regex.taken unit] := by
  apply (Regex.fullMatch_eq_some_iff _).mpr (sizePattern_matches_iff.mpr ⟨whole, fract, unit, m, h, rfl⟩)
  intro gs₁ gs₂ hgs₁ hgs₂
  obtain ⟨w₁, f₁, u₁, m₁, ht₁, rfl⟩ := sizePattern_matches_iff.mp hgs₁
  obtain ⟨w₂, f₂, u₂, m₂, ht₂, rfl⟩ := sizePattern_matches_iff.mp hgs₂
  obtain ⟨rfl, rfl, rfl⟩ := isSizeText_unique ht₁ ht₂
  rfl

/-! ## What is returned -/

theorem multiplierOf_of_isUnit {unit : Bytes} {m : Nat} (h : IsUnit unit m) : (multiplierOf unit).toNat = m := by
  rcases h with ⟨rfl, rfl⟩ | ⟨u, hu, heq⟩
  · decide
  · have hfold : ∀ v, iequals unit v = iequals u v := by
      intro v
      rw [iequals, iequals, of_decide_eq_true heq]
    have htable : ∀ u ∈ unitSizes, (multiplierOf u.1).toNat = u.2 := by decide
    calc (multiplierOf unit).toNat = (multiplierOf u).toNat := by simp only [multiplierOf, hfold]
      _ = m := htable (u, m) hu

theorem IsUnit.le {unit : Bytes} {m : Nat} (h : IsUnit unit m) : m ≤ 2 ^ 40 := by
  have htable : ∀ u ∈ unitSizes, u.2 ≤ 2 ^ 40 := by decide
  rcases h with ⟨-, rfl⟩ | ⟨u, hu, -⟩
  · decide
  · exact htable _ hu

theorem toNat_strtoull {s : Bytes} (h : AllDigits s) (hlen : s.length ≤ 10) : (strtoull s).toNat = decimalVal s := by
  have hlt : decimalVal s < 2 ^ 64 := calc
    decimalVal s < 10 ^ s.length := decimalVal_lt h
    _ ≤ 10 ^ 10 := Nat.pow_le_pow_right (by decide) hlen
    _ < 2 ^ 64 := by decide
  rw [strtoull, if_pos hlt, UInt64.toNat_ofNat_of_lt' hlt]

theorem toNat_fractBase {fract : Bytes} (hne : fract ≠ []) (hlen : fract.length ≤ 3) :
    (fractBase fract).toNat = 10 ^ fract.length := by
  have hpos := List.length_pos_iff.mpr hne
  unfold fractBase
  interval_cases fract.length <;> decide

theorem lt_of_fract {fract : Bytes} {m : Nat} (hfract : AllDigits fract) (hlen : fract.length ≤ 3) (hm : m ≤ 2 ^ 40) :
    m * decimalVal fract < 2 ^ 64 := by
  have hlt : decimalVal fract < 10 ^ 3 :=
    (decimalVal_lt hfract).trans_le (Nat.pow_le_pow_right (by decide) hlen)
  calc m * decimalVal fract ≤ 2 ^ 40 * 10 ^ 3 := Nat.mul_le_mul hm hlt.le
    _ < 2 ^ 64 := by decide

/-- The arithmetic is that of the exact size, modulo `2 ^ 64`: the product of the fraction does not wrap, that of the
whole part and the sum may. -/
theorem sizeOfParts_eq {whole fract unit : Bytes} {m : Nat} (hwhole : AllDigits whole)
    (hwholeLength : whole.length ≤ 10)
    (hfract : AllDigits fract) (hfractLength : fract.length ≤ 3) (hm : IsUnit unit m) :
    sizeOfParts whole fract unit = UInt64.ofNat (exactSize whole fract m) := by
  have hmul := multiplierOf_of_isUnit hm
  have hone : 1 < multiplierOf unit ↔ 1 < m := by
    rw [UInt64.lt_iff_toNat_lt, hmul]
    rfl
  have hw := toNat_strtoull hwhole hwholeLength
  have hf := toNat_strtoull hfract (hfractLength.trans (by decide))
  have hvalue : strtoull whole * multiplierOf unit = UInt64.ofNat (decimalVal whole * m) := by
    rw [← hw, ← hmul, UInt64.ofNat_mul, UInt64.ofNat_toNat, UInt64.ofNat_toNat]
  simp only [sizeOfParts, exactSize, hvalue, hone, floor_mul_fractionVal]
  by_cases hbig : 1 < m
  · by_cases hempty : fract = []
    · have hnil : decimalVal [] = 0 := rfl
      simp [hempty, hnil]
    · have hquotient : multiplierOf unit * strtoull fract / (fractBase fract).toUInt64 =
          UInt64.ofNat (m * decimalVal fract / 10 ^ fract.length) := by
        have hlt := lt_of_fract hfract hfractLength hm.le
        apply UInt64.toNat_inj.mp
        rw [UInt64.toNat_div, UInt64.toNat_mul, hmul, hf, Nat.mod_eq_of_lt hlt, UInt32.toNat_toUInt64,
          toNat_fractBase hempty hfractLength, UInt64.toNat_ofNat_of_lt' ((Nat.div_le_self _ _).trans_lt hlt)]
      rw [if_pos ⟨hbig, by simp [hempty]⟩, if_pos hbig, hquotient, UInt64.ofNat_add]
  · rw [if_neg fun h => hbig h.1, if_neg hbig, Nat.add_zero]

/-- **What `parse_human_bytes` returns** for a size: the exact one modulo `2 ^ 64`. -/
theorem parseHumanBytes_of_text {input whole fract unit : Bytes} {m : Nat} (h : IsSizeText input whole fract unit m) :
    parseHumanBytes input = .ok (UInt64.ofNat (exactSize whole fract m)) := by
  rw [← sizeOfParts_eq h.wholeDigits h.wholeLength h.fractDigits h.fractLength h.isUnit, parseHumanBytes,
    sizePattern_fullMatch h]
  by_cases hinput : input = []
  · -- an empty text has empty parts
    obtain ⟨spaces, htext⟩ := h.text
    rw [hinput] at htext
    obtain ⟨hwhole, hrest⟩ := List.append_eq_nil_iff.mp htext.symm
    obtain ⟨-, hend⟩ := List.append_eq_nil_iff.mp hrest
    rw [hinput, hwhole, (List.append_eq_nil_iff.mp hend).2, if_pos List.isEmpty_nil]
    have hone : ¬ 1 < multiplierOf [] := by decide
    simp only [sizeOfParts, hone, false_and, if_false]
    rfl
  · rw [if_neg (by simpa using hinput)]
    simp only [Regex.str, List.getD_cons_zero, List.getD_cons_succ, Nat.reduceSub, Regex.getD_taken, drop_pointed,
      Option.getD_some]

theorem isSizeText_of_parse {input : Bytes} {v : UInt64} (h : parseHumanBytes input = .ok v) :
    ∃ whole fract unit m, IsSizeText input whole fract unit m := by
  by_cases hinput : input = []
  · refine ⟨[], [], [], 1, ⟨?_, ?_, ?_, ?_, .inl ⟨rfl, rfl⟩, 0, hinput⟩⟩ <;> decide
  · rw [parseHumanBytes, if_neg (by simpa using hinput)] at h
    cases hmatch : sizePattern.fullMatch input with
    | none =>
        rw [hmatch] at h
        cases h
    | some groups =>
        obtain ⟨whole, fract, unit, m, htext, -⟩ := sizePattern_matches_iff.mp (Regex.matches_of_fullMatch hmatch)
        exact ⟨whole, fract, unit, m, htext⟩

/-- No step of the arithmetic leaves the range of `uint64_t`. -/
def NoWrap (whole fract : Bytes) (m : Nat) : Prop :=
  decimalVal whole * m < 2 ^ 64 ∧ (1 < m → m * decimalVal fract < 2 ^ 64) ∧ exactSize whole fract m < 2 ^ 64

/-- A size is parsed exactly, without a step that wraps, and what does not fit 64 bits is refused. -/
def ParsedOrRefused (input : Bytes) : Prop :=
  (∀ v, parseHumanBytes input = .ok v → ∃ whole fract unit m, IsSizeText input whole fract unit m ∧
    v.toNat = exactSize whole fract m ∧ NoWrap whole fract m) ∧
  (∀ whole fract unit m, IsSizeText input whole fract unit m → 2 ^ 64 ≤ exactSize whole fract m →
    ∃ e, parseHumanBytes input = .error (.errc e))

/-- **Sizes are parsed exactly** if they are below `2 ^ 64`, and only then: there is no test of the range. -/
theorem parsedOrRefused_iff (input : Bytes) : ParsedOrRefused input ↔
    ∀ whole fract unit m, IsSizeText input whole fract unit m → exactSize whole fract m < 2 ^ 64 := by
  constructor
  · intro h whole fract unit m htext
    by_contra hlarge
    obtain ⟨e, he⟩ := h.2 whole fract unit m htext (Nat.le_of_not_lt hlarge)
    rw [parseHumanBytes_of_text htext] at he
    cases he
  · intro h
    constructor
    · intro v hv
      obtain ⟨whole, fract, unit, m, htext⟩ := isSizeText_of_parse hv
      have hfits := h whole fract unit m htext
      rw [parseHumanBytes_of_text htext, Except.ok.injEq] at hv
      refine ⟨whole, fract, unit, m, htext, ?_, (Nat.le_add_right _ _).trans_lt hfits, fun _ => ?_, hfits⟩
      · rw [← hv, UInt64.toNat_ofNat_of_lt' hfits]
      · exact lt_of_fract htext.fractDigits htext.fractLength htext.isUnit.le
    · intro whole fract unit m htext hlarge
      exact absurd (h whole fract unit m htext) (Nat.not_lt.mpr hlarge)

theorem isSizeText_tebibytes : IsSizeText (ascii "16777216TiB") (ascii "16777216") [] (ascii "TiB") (2 ^ 40) where
  wholeDigits := by decide
  wholeLength := by decide
  fractDigits := by decide
  fractLength := by decide
  isUnit := .inr ⟨ascii "TiB", by decide, by decide⟩
  text := ⟨0, by decide⟩

theorem exactSize_tebibytes : exactSize (ascii "16777216") [] (2 ^ 40) = 2 ^ 64 := by
  rw [exactSize, floor_mul_fractionVal]
  decide

/-- `2 ^ 24` tebibytes are `2 ^ 64` bytes; they are read as none. -/
theorem tebibytes_wrap : parseHumanBytes (ascii "16777216TiB") = .ok 0 ∧ ¬ ParsedOrRefused (ascii "16777216TiB") := by
  have hzero : parseHumanBytes (ascii "16777216TiB") = .ok 0 := by
    rw [parseHumanBytes_of_text isSizeText_tebibytes, exactSize_tebibytes]
    rfl
  refine ⟨hzero, fun h => ?_⟩
  obtain ⟨e, he⟩ := h.2 _ _ _ _ isSizeText_tebibytes exactSize_tebibytes.ge
  rw [hzero] at he
  cases he

example : parseHumanBytes (ascii "1.5 kib") = .ok 1536 := by decide +kernel

/-! ## Writing -/

def suffixes : List Bytes := ["B", "KB", "MB", "GB", "TB"].map ascii

def binarySuffixes : List Bytes := ["B", "KiB", "MiB", "GiB", "TiB"].map ascii

def divisor (binary : Bool) : Rat := if binary then kKiB.toNat else kKB.toNat

/-- The loop `while (value >= divisor and index < suffixes.size())`. -/
def scale (divisor value : Rat) (index : Nat) : Rat × Nat :=
  if divisor ≤ value ∧ index < suffixes.length then scale divisor (value / divisor) (index + 1) else (value, index)
termination_by suffixes.length - index

/-- The nearest whole number, the even one in the middle of two. -/
def roundHalfEven (q : Rat) : Nat :=
  let below := ⌊q⌋₊
  if q - below < 1 / 2 then below
  else if 1 / 2 < q - below then below + 1
  else if below % 2 = 0 then below else below + 1

/-- The conversion `%.nf` of a number that is not negative. -/
def fixed (places : Nat) (q : Rat) : Bytes :=
  let scaled := roundHalfEven (q * 10 ^ places)
  if places = 0 then decimal scaled
  else decimal (scaled / 10 ^ places) ++ ascii "." ++ zeroPadded places (scaled % 10 ^ places)

/-- The table is read at the index the loop leaves. -/
def toHumanBytes (input : UInt64) (binary : Bool) : Result Bytes :=
  let scaled := scale (divisor binary) input.toNat 0
  match (if binary then binarySuffixes else suffixes)[scaled.2]? with
  | none => .error (.trap .indexOutOfRange)
  | some suffix => .ok (fixed (if scaled.2 > 0 then 2 else 0) scaled.1 ++ ascii " " ++ suffix)

example : toHumanBytes 1512000000000 false = .ok (ascii "1.51 TB") := by decide +kernel
example : toHumanBytes 48496640 true = .ok (ascii "46.25 MiB") := by decide +kernel

section Scale
variable {d : Rat} (hd : 1 < d)
include hd

/-- The power that is divided out is kept in the index. -/
theorem scale_mul_pow (value : Rat) (index : Nat) :
    (scale d value index).1 * d ^ (scale d value index).2 = value * d ^ index := by
  have hne : d ≠ 0 := (zero_lt_one.trans hd).ne'
  fun_induction scale d value index with
  | case1 value index h ih =>
      rw [ih, pow_succ']
      field_simp
  | case2 value index h => rfl

/-- The loop ends inside the table if there are powers enough above the value. A value that has been divided is not
below one. -/
theorem scale_lt_iff {value : Rat} {index : Nat} (hindex : index ≤ suffixes.length) (hvalue : 0 < index → 1 ≤ value) :
    (scale d value index).2 < suffixes.length ↔ value < d ^ (suffixes.length - index) := by
  have hpos : 0 < d := zero_lt_one.trans hd
  fun_induction scale d value index with
  | case1 value index h ih =>
      have hsub : suffixes.length - index = suffixes.length - (index + 1) + 1 := by omega
      refine (ih h.2 fun _ => (one_le_div hpos).mpr h.1).trans ?_
      rw [div_lt_iff₀ hpos, hsub, pow_succ]
  | case2 value index h =>
      rcases hindex.eq_or_lt with hend | hlt
      · rw [hend, Nat.sub_self, pow_zero]
        exact iff_of_false (lt_irrefl _) (not_lt.mpr (hvalue (hend ▸ by decide)))
      · have hsmall : value < d := lt_of_not_ge fun hge => h ⟨hge, hlt⟩
        exact iff_of_true hlt (hsmall.trans_le (le_self_pow₀ hd.le (by omega)))

end Scale

/-- The text is made, the index the loop leaves is one of the table, and the scaled value stands for the input. -/
def StaysInside (input : UInt64) (binary : Bool) : Prop :=
  (∃ text, toHumanBytes input binary = .ok text) ∧
  (scale (divisor binary) input.toNat 0).2 < (if binary then binarySuffixes else suffixes).length ∧
  (scale (divisor binary) input.toNat 0).1 * divisor binary ^ (scale (divisor binary) input.toNat 0).2 = input.toNat

theorem one_lt_divisor (binary : Bool) : 1 < divisor binary := by
  cases binary <;> decide

theorem length_table (binary : Bool) : (if binary then binarySuffixes else suffixes).length = suffixes.length := by
  cases binary <;> rfl

theorem toHumanBytes_ok_iff {input : UInt64} {binary : Bool} : (∃ text, toHumanBytes input binary = .ok text) ↔
    (scale (divisor binary) input.toNat 0).2 < (if binary then binarySuffixes else suffixes).length := by
  rw [toHumanBytes]
  cases h : (if binary then binarySuffixes else suffixes)[(scale (divisor binary) input.toNat 0).2]? with
  | none => simpa using List.getElem?_eq_none_iff.mp h
  | some suffix => simpa using (List.getElem?_eq_some_iff.mp h).1

/-- The end of the table, in bytes. -/
theorem index_lt_iff (input : UInt64) (binary : Bool) :
    (scale (divisor binary) input.toNat 0).2 < suffixes.length ↔
      input.toNat < if binary then 2 ^ 50 else 10 ^ 15 := by
  rw [scale_lt_iff (one_lt_divisor binary) (Nat.zero_le _) fun h => absurd h (lt_irrefl 0)]
  have hpow : divisor binary ^ (suffixes.length - 0) = ((if binary then 2 ^ 50 else 10 ^ 15 : Nat) : Rat) := by
    cases binary <;> decide +kernel
  rw [hpow, Nat.cast_lt]

/-- **The suffix tables** are left by the loop from the fifth power of the divisor on, and only then. -/
theorem staysInside_iff (input : UInt64) (binary : Bool) :
    StaysInside input binary ↔ input.toNat < if binary then 2 ^ 50 else 10 ^ 15 := by
  rw [StaysInside, toHumanBytes_ok_iff, length_table, index_lt_iff]
  constructor
  · exact fun h => h.1
  · intro h
    refine ⟨h, h, ?_⟩
    rw [scale_mul_pow (one_lt_divisor binary), pow_zero, mul_one]

/-- A thousand terabytes: the table is read behind its end. -/
theorem petabyte_outside : toHumanBytes 1000000000000000 false = .error (.trap .indexOutOfRange) ∧
    ¬ StaysInside 1000000000000000 false := by
  have hout : toHumanBytes 1000000000000000 false = .error (.trap .indexOutOfRange) := by decide +kernel
  refine ⟨hout, fun h => ?_⟩
  obtain ⟨text, htext⟩ := h.1
  rw [hout] at htext
  cases htext

end Znode.Core
