import Mathlib
import Znode.Net.SubNet

/-!
# What is read as a prefix length

A prefix length is written as a number, or as the octets of a mask.

* `Reading` : an octet and more octets, each behind a character, such as the pattern of a mask stands for. A text may
  have several, since the characters between the octets may be digits;
* `Reading.Longest`, `fieldsPattern_fullMatch` : the matcher finds the one whose octets are the longest, the first octet
  before the second;
* `LooseMask`, `addOctets_ok_iff` : the octets that the loop accepts. Each is ones and then zeros, and behind a zero
  there are zeros only; but an octet that is not full may be followed by one that is not zero;
* `IsNetmask` : as many ones, and then zeros. These are loose masks, of as many ones (`IsNetmask.looseMask`);
* `prefixLength_right_iff` : the texts that are read as a prefix length when they are one, and only then.
-/

namespace Znode.Net
open Znode.Lib Znode.Core

/-! ## Readings -/

def IsOctetText (s : Bytes) : Prop := AllDigits s ∧ 1 ≤ s.length ∧ s.length ≤ 3

instance (s : Bytes) : Decidable (IsOctetText s) := inferInstanceAs (Decidable (_ ∧ _))

/-- What an unescaped point in a pattern stands for. -/
def isPoint (c : UInt8) : Bool := c ≠ 10 && c ≠ 13

/-- An octet, and octets behind characters that separate them. -/
@[ext]
structure Reading where
  first : Bytes
  rest : List (UInt8 × Bytes)

namespace Reading

def text (r : Reading) : Bytes := r.first ++ r.rest.flatMap fun f => f.1 :: f.2

def octets (r : Reading) : List Bytes := r.first :: r.rest.map Prod.snd

/-- The text is read as `n + 1` octets. -/
structure Reads (n : Nat) (input : Bytes) (r : Reading) : Prop where
  text_eq : r.text = input
  length_eq : r.rest.length = n
  octet : ∀ o ∈ r.octets, IsOctetText o
  point : ∀ f ∈ r.rest, isPoint f.1

/-- No reading of the text takes more into its first octets. -/
def Longest (n : Nat) (input : Bytes) (r : Reading) : Prop :=
  Reads n input r ∧ ∀ r', Reads n input r' → r'.octets.map List.length ≤ r.octets.map List.length

/-- The reading behind the first octet and the character that follows it. -/
def cons (front : Bytes) (c : UInt8) (r : Reading) : Reading := { first := front, rest := (c, r.first) :: r.rest }

theorem text_cons (front : Bytes) (c : UInt8) (r : Reading) : (cons front c r).text = front ++ c :: r.text := by
  simp [cons, text]

theorem octets_cons (front : Bytes) (c : UInt8) (r : Reading) : (cons front c r).octets = front :: r.octets := by
  simp [cons, octets]

theorem reads_cons {n : Nat} {input front : Bytes} {c : UInt8} {r : Reading} :
    Reads (n + 1) input (cons front c r) ↔
      IsOctetText front ∧ isPoint c ∧ ∃ rest, input = front ++ c :: rest ∧ Reads n rest r := by
  constructor
  · intro h
    have hoctets := h.octet
    rw [octets_cons, List.forall_mem_cons] at hoctets
    have hpoints := List.forall_mem_cons.mp h.point
    refine ⟨hoctets.1, hpoints.1, r.text, ?_, rfl, Nat.succ.inj h.length_eq, hoctets.2, hpoints.2⟩
    rw [← h.text_eq, text_cons]
  · rintro ⟨hfront, hc, _, rfl, rfl, hlen, hoctets, hpoints⟩
    refine ⟨text_cons front c r, congrArg Nat.succ hlen, ?_, List.forall_mem_cons.mpr ⟨hc, hpoints⟩⟩
    rw [octets_cons, List.forall_mem_cons]
    exact ⟨hfront, hoctets⟩

theorem exists_cons {n : Nat} {input : Bytes} {r : Reading} (h : Reads (n + 1) input r) :
    ∃ front c r', r = cons front c r' := by
  obtain ⟨⟨c, o⟩, rest, hrest⟩ := List.exists_cons_of_length_eq_add_one h.length_eq
  exact ⟨r.first, c, { first := o, rest := rest }, by rw [cons, ← hrest]⟩

end Reading

/-- `n + 1` octets, with any character between them. -/
def fieldsPattern : Nat → Regex UInt8
  | 0 => .group (.many true 1 (some 3) isDigit)
  | n + 1 => .seq (.group (.many true 1 (some 3) isDigit)) (.seq (.one isPoint) (fieldsPattern n))

theorem decimalNotationPattern_eq : decimalNotationPattern = fieldsPattern 3 := rfl

theorem octet_matches_iff {s : Bytes} : (Regex.many true 1 (some 3) isDigit).Matches s [] ↔ IsOctetText s := by
  simp [Regex.matches_many_iff, IsOctetText, AllDigits]

theorem octet_fullMatch_iff {s : Bytes} {gs : List (Option Bytes)} :
    (Regex.group (.many true 1 (some 3) isDigit)).fullMatch s = some gs ↔ IsOctetText s ∧ gs = [some s] := by
  have hmatches : ∀ gs, (Regex.group (.many true 1 (some 3) isDigit)).Matches s gs ↔ IsOctetText s ∧ gs = [some s] := by
    intro gs
    constructor
    · rintro ⟨gs', h, rfl⟩
      obtain rfl : gs' = [] := h.2.2.2
      exact ⟨octet_matches_iff.mp h, rfl⟩
    · rintro ⟨h, rfl⟩
      exact ⟨[], octet_matches_iff.mpr h, rfl⟩
  rw [Regex.fullMatch_eq_some_iff, hmatches]
  intro gs₁ gs₂ h₁ h₂
  rw [((hmatches gs₁).mp h₁).2, ((hmatches gs₂).mp h₂).2]

namespace Reading

theorem reads_zero {s : Bytes} {r : Reading} : Reads 0 s r ↔ IsOctetText s ∧ r = { first := s, rest := [] } := by
  constructor
  · intro h
    obtain ⟨first, rest⟩ := r
    obtain rfl : rest = [] := List.length_eq_zero_iff.mp h.length_eq
    obtain rfl : first = s := by simpa [text] using h.text_eq
    exact ⟨h.octet first (.head _), rfl⟩
  · rintro ⟨h, rfl⟩
    exact ⟨by simp [text], rfl, by simpa [octets] using h, by simp⟩

theorem Reads.matches {n : Nat} {s : Bytes} {r : Reading} (h : Reads n s r) :
    (fieldsPattern n).Matches s (r.octets.map some) := by
  induction n generalizing s r with
  | zero =>
      obtain ⟨hs, rfl⟩ := reads_zero.mp h
      exact ⟨[], octet_matches_iff.mpr hs, rfl⟩
  | succ n ih =>
      obtain ⟨front, c, r, rfl⟩ := exists_cons h
      obtain ⟨hfront, hc, rest, rfl, hrest⟩ := reads_cons.mp h
      refine ⟨front, c :: rest, [some front], r.octets.map some, ⟨[], octet_matches_iff.mpr hfront, rfl⟩,
        ⟨[c], rest, [], _, ⟨⟨c, hc, rfl⟩, rfl⟩, ih hrest, rfl, rfl⟩, rfl, ?_⟩
      rw [octets_cons, List.map_cons]
      rfl

/-- Readings of one text with first octets of one length go on with the same text. -/
theorem lengths_cons_le_iff {front front' : Bytes} {c c' : UInt8} {r r' : Reading} :
    (cons front' c' r').octets.map List.length ≤ (cons front c r).octets.map List.length ↔
      front'.length < front.length ∨
        front'.length = front.length ∧ r'.octets.map List.length ≤ r.octets.map List.length := by
  rw [octets_cons, octets_cons, List.map_cons, List.map_cons, ← not_lt, ← not_lt, List.cons_lt_cons_iff]
  rcases Nat.lt_trichotomy front'.length front.length with hlt | heq | hgt
  · simp [hlt, hlt.ne', hlt.not_gt]
  · simp [heq]
  · simp [hgt, hgt.ne', hgt.not_gt]

theorem longest_cons {n : Nat} {s front : Bytes} {c : UInt8} {r : Reading} :
    Longest (n + 1) s (cons front c r) ↔
      IsOctetText front ∧ isPoint c ∧ ∃ rest, s = front ++ c :: rest ∧ Longest n rest r ∧
        ∀ front' c' r', Reads (n + 1) s (cons front' c' r') → front'.length ≤ front.length := by
  constructor
  · rintro ⟨hreads, hmax⟩
    obtain ⟨hfront, hc, rest, rfl, hrest⟩ := reads_cons.mp hreads
    refine ⟨hfront, hc, rest, rfl, ⟨hrest, fun r' hr' => ?_⟩, fun front' c' r' hr' => ?_⟩
    · have hle := hmax _ (reads_cons.mpr ⟨hfront, hc, rest, rfl, hr'⟩)
      exact ((lengths_cons_le_iff.mp hle).resolve_left (Nat.lt_irrefl _)).2
    · exact (lengths_cons_le_iff.mp (hmax _ hr')).elim Nat.le_of_lt fun h => h.1.le
  · rintro ⟨hfront, hc, rest, rfl, ⟨hrest, hmax⟩, hlongest⟩
    refine ⟨reads_cons.mpr ⟨hfront, hc, rest, rfl, hrest⟩, fun r' hr' => ?_⟩
    obtain ⟨front', c', r', rfl⟩ := exists_cons hr'
    rw [lengths_cons_le_iff]
    rcases (hlongest front' c' r' hr').lt_or_eq with hlt | heq
    · exact .inl hlt
    · -- the same front, so the same text behind it
      obtain ⟨-, -, rest', hsame, hrest'⟩ := reads_cons.mp hr'
      obtain ⟨rfl, htail⟩ := List.append_inj hsame heq.symm
      obtain ⟨-, rfl⟩ := List.cons.inj htail
      exact .inr ⟨rfl, hmax r' hrest'⟩

end Reading

/-- **The matcher finds the longest reading.** -/
theorem fieldsPattern_fullMatch {n : Nat} {s : Bytes} {gs : List (Option Bytes)} :
    (fieldsPattern n).fullMatch s = some gs ↔ ∃ r, Reading.Longest n s r ∧ gs = r.octets.map some := by
  induction n generalizing s gs with
  | zero =>
      rw [fieldsPattern, octet_fullMatch_iff]
      constructor
      · rintro ⟨hs, rfl⟩
        refine ⟨{ first := s, rest := [] }, ⟨Reading.reads_zero.mpr ⟨hs, rfl⟩, fun r' hr' => ?_⟩, rfl⟩
        rw [(Reading.reads_zero.mp hr').2]
      · rintro ⟨r, ⟨hreads, -⟩, rfl⟩
        obtain ⟨hs, rfl⟩ := Reading.reads_zero.mp hreads
        exact ⟨hs, rfl⟩
  | succ n ih =>
      rw [fieldsPattern, Regex.fullMatch_greedy_seq]
      simp only [octet_matches_iff, Regex.fullMatch_one_seq, ih]
      constructor
      · rintro ⟨front, _, _, rfl, hfront, ⟨c, rest, rfl, hc, r, hr, rfl⟩, rfl, hmax⟩
        refine ⟨Reading.cons front c r, Reading.longest_cons.mpr ⟨hfront, hc, rest, rfl, hr, ?_⟩, ?_⟩
        · intro front' c' r' hr'
          obtain ⟨hfront', hc', rest', hsame, hrest'⟩ := Reading.reads_cons.mp hr'
          obtain ⟨gs', hgs'⟩ := Option.isSome_iff_exists.mp (Regex.fullMatch_isSome hrest'.matches)
          refine hmax front' _ hsame hfront' (Option.isSome_iff_exists.mpr ⟨gs', ?_⟩)
          exact Regex.fullMatch_one_seq.mpr ⟨c', rest', rfl, hc', hgs'⟩
        · rw [Reading.octets_cons, List.map_cons]
      · rintro ⟨r, hr, rfl⟩
        obtain ⟨front, c, r, rfl⟩ := Reading.exists_cons hr.1
        obtain ⟨hfront, hc, rest, rfl, hrest, hmax⟩ := Reading.longest_cons.mp hr
        refine ⟨front, c :: rest, r.octets.map some, rfl, hfront, ⟨c, rest, rfl, hc, r, hrest, rfl⟩, ?_, ?_⟩
        · rw [Reading.octets_cons, List.map_cons]
        · intro front' rest' hsame hfront' hsome
          obtain ⟨gs', hgs'⟩ := Option.isSome_iff_exists.mp hsome
          obtain ⟨c', rest'', rfl, hc', hgs'⟩ := Regex.fullMatch_one_seq.mp hgs'
          obtain ⟨r', hr', -⟩ := ih.mp hgs'
          exact hmax front' c' r' (Reading.reads_cons.mpr ⟨hfront', hc', rest'', hsame, hr'.1⟩)

/-! ## Points between the octets -/

namespace Reading

/-- The octets stand between points. -/
def Dotted (r : Reading) : Prop := ∀ f ∈ r.rest, f.1 = 46

theorem not_mem_of_isOctetText {s : Bytes} (h : IsOctetText s) : 46 ∉ s := fun hmem => absurd (h.1 46 hmem) (by decide)

theorem count_text {n : Nat} {s : Bytes} {r : Reading} (h : Reads n s r) :
    s.count 46 = r.rest.countP fun f => f.1 = 46 := by
  induction n generalizing s r with
  | zero =>
      obtain ⟨hs, rfl⟩ := reads_zero.mp h
      exact List.count_eq_zero.mpr (not_mem_of_isOctetText hs)
  | succ n ih =>
      obtain ⟨front, c, r, rfl⟩ := exists_cons h
      obtain ⟨hfront, -, rest, rfl, hrest⟩ := reads_cons.mp h
      rw [List.count_append, List.count_eq_zero.mpr (not_mem_of_isOctetText hfront), List.count_cons, ih hrest, cons,
        List.countP_cons, Nat.zero_add]
      simp

theorem text_of_dotted {r : Reading} (h : r.Dotted) : r.text = [46].intercalate r.octets := by
  obtain ⟨first, rest⟩ := r
  induction rest generalizing first with
  | nil => simp [text, octets]
  | cons f rest ih =>
      obtain ⟨c, o⟩ := f
      obtain ⟨rfl, hrest⟩ := List.forall_mem_cons.mp h
      calc text (cons first 46 { first := o, rest := rest })
        _ = first ++ 46 :: [46].intercalate (octets { first := o, rest := rest }) := by rw [text_cons, ih o hrest]
        _ = [46].intercalate (octets (cons first 46 { first := o, rest := rest })) := by
          rw [octets_cons, octets, List.intercalate_cons_cons]
          simp

theorem octets_eq_splitOn {n : Nat} {s : Bytes} {r : Reading} (h : Reads n s r) (hdotted : r.Dotted) :
    r.octets = s.splitOn 46 := by
  rw [← h.text_eq, text_of_dotted hdotted, List.splitOn_intercalate]
  · exact fun o ho => not_mem_of_isOctetText (h.octet o ho)
  · exact List.cons_ne_nil _ _

/-- A text with its octets between points has no other reading. -/
theorem eq_of_dotted {n : Nat} {s : Bytes} {r r' : Reading} (h : Reads n s r) (hdotted : r.Dotted) (h' : Reads n s r') :
    r' = r := by
  -- all points of the text separate octets, so in the other reading they do too
  have hcount : r.rest.countP (fun f => f.1 = 46) = r.rest.length :=
    List.countP_eq_length.mpr fun f hf => decide_eq_true (hdotted f hf)
  have hdotted' : r'.Dotted := by
    have hcount' : r'.rest.countP (fun f => f.1 = 46) = r'.rest.length := by
      rw [← count_text h', count_text h, hcount, h.length_eq, h'.length_eq]
    exact fun f hf => of_decide_eq_true (List.countP_eq_length.mp hcount' f hf)
  have hoctets : r'.octets = r.octets := (octets_eq_splitOn h' hdotted').trans (octets_eq_splitOn h hdotted).symm
  obtain ⟨hfirst, hrest⟩ := List.cons.inj hoctets
  have hpairs : ∀ q : Reading, q.Dotted → q.rest = (q.rest.map Prod.snd).map fun o => (46, o) := by
    intro q hq
    rw [List.map_map]
    exact (List.map_id' q.rest).symm.trans (List.map_congr_left fun f hf => by simp [← hq f hf])
  exact Reading.ext hfirst (by rw [hpairs r' hdotted', hpairs r hdotted, hrest])

end Reading

/-! ## Masks -/

/-- Each octet is one that counts or zero, and behind a zero there are zeros only. -/
def LooseMask (vs : List Nat) : Prop := (∀ v ∈ vs, v = 0 ∨ v ∈ maskOctets) ∧ vs.Pairwise fun v w => v = 0 → w = 0

instance (vs : List Nat) : Decidable (LooseMask vs) := inferInstanceAs (Decidable (_ ∧ _))

/-- How many ones there are in the octets. -/
def ones (vs : List Nat) : Nat := (vs.map popcount16).sum

theorem lexicalCast16_octet {s : Bytes} (h : IsOctetText s) : lexicalCast16 s = some (decimalVal s) := by
  obtain ⟨hdigits, hpos, hle⟩ := h
  have hlt : decimalVal s < 2 ^ 16 :=
    (decimalVal_lt hdigits).trans_le ((Nat.pow_le_pow_right (by decide) hle).trans (by decide))
  exact if_pos ⟨List.length_pos_iff.mp hpos, hdigits, hlt⟩

theorem looseMask_cons {v : Nat} {vs : List Nat} :
    LooseMask (v :: vs) ↔ (v = 0 ∨ v ∈ maskOctets) ∧ (v = 0 → ∀ w ∈ vs, w = 0) ∧ LooseMask vs := by
  rw [LooseMask, List.forall_mem_cons, List.pairwise_cons, LooseMask]
  tauto

/-- **The loop** accepts the loose masks and counts their ones. -/
theorem addOctets_ok_iff {parts : List Bytes} (hparts : ∀ p ∈ parts, IsOctetText p) {zeroFound : Bool} {ret n : Nat} :
    addOctets parts zeroFound ret = .ok n ↔
      LooseMask (parts.map decimalVal) ∧ (zeroFound → ∀ v ∈ parts.map decimalVal, v = 0) ∧
        n = ret + ones (parts.map decimalVal) := by
  induction parts generalizing zeroFound ret with
  | nil => simp [addOctets, LooseMask, ones, eq_comm]
  | cons part parts ih =>
      obtain ⟨hpart, hparts⟩ := List.forall_mem_cons.mp hparts
      rw [addOctets, lexicalCast16_octet hpart, List.map_cons, looseMask_cons, List.forall_mem_cons, ones,
        List.map_cons, List.sum_cons, ← ones]
      generalize decimalVal part = v
      by_cases hzero : v = 0
      · have hpopcount : popcount16 0 = 0 := rfl
        simp only [hzero, if_true, ih hparts, hpopcount, Nat.zero_add, true_or, true_and, true_imp_iff]
        tauto
      · by_cases hmask : v ∈ maskOctets
        · cases zeroFound with
          | true => simp [hzero, hmask]
          | false => simp [hzero, hmask, ih hparts, Nat.add_assoc]
        · simp [hzero, hmask]

/-- The octets of an IPv4 mask: `n` ones, and then zeros. -/
structure IsNetmask (vs : List Nat) (n : Nat) : Prop where
  length_eq : vs.length = 4
  octet : ∀ v ∈ vs, v ≤ 255
  le : n ≤ 32
  bits : ∀ k < 32, bit (vs.map UInt8.ofNat) k = decide (k < n)

def netmask (n : Nat) : Bytes := [partialMask (min 8 n), partialMask (min 8 (n - 8)), partialMask (min 8 (n - 16)),
  partialMask (min 8 (n - 24))]

theorem bit_netmask : ∀ n ≤ 32, ∀ k < 32, bit (netmask n) k = decide (k < n) := by
  decide +kernel

theorem IsNetmask.eq_netmask {vs : List Nat} {n : Nat} (h : IsNetmask vs n) : vs = (netmask n).map UInt8.toNat := by
  have hbytes : vs.map UInt8.ofNat = netmask n := by
    apply ext_bit (by rw [List.length_map, h.length_eq]; rfl)
    intro k
    by_cases hk : k < 32
    · rw [h.bits k hk, bit_netmask n h.le k hk]
    · rw [bit_of_length_le (by rw [List.length_map, h.length_eq]; omega),
        bit_of_length_le (by rw [netmask]; simp; omega)]
  rw [← hbytes, List.map_map]
  refine (List.map_id' vs).symm.trans (List.map_congr_left fun v hv => ?_)
  exact (UInt8.toNat_ofNat_of_lt' (Nat.lt_succ_of_le (h.octet v hv))).symm

/-- **A mask is a loose mask** of as many ones. -/
theorem IsNetmask.looseMask {vs : List Nat} {n : Nat} (h : IsNetmask vs n) : LooseMask vs ∧ ones vs = n := by
  have hall : ∀ n ≤ 32, LooseMask ((netmask n).map UInt8.toNat) ∧ ones ((netmask n).map UInt8.toNat) = n := by
    decide +kernel
  rw [h.eq_netmask]
  exact hall n h.le

/-! ## Prefix lengths -/

def Reading.values (r : Reading) : List Nat := r.octets.map decimalVal

/-- One to three digits, of a value that is at most 128. -/
def IsLengthText (input : Bytes) (n : Nat) : Prop := IsOctetText input ∧ decimalVal input = n ∧ n ≤ 128

/-- Four octets between points that are a mask. -/
def IsMaskText (input : Bytes) (n : Nat) : Prop :=
  ∃ r, Reading.Reads 3 input r ∧ r.Dotted ∧ IsNetmask r.values n

/-- A prefix length is read where the text is one, and it is this one. -/
def PrefixLengthRight (input : Bytes) : Prop :=
  ∀ n, parsePrefixLength input = .ok n ↔ IsLengthText input n.toNat ∨ IsMaskText input n.toNat

/-- A text of four octets among 0, 128, 192, .., 255 with the zeros last has points between them and is a mask. Where
it can be read in several ways, the first octets are as long as they can be. -/
def ReadsMask (input : Bytes) : Prop :=
  ∀ r, Reading.Longest 3 input r → LooseMask r.values → r.Dotted ∧ ∃ n, IsNetmask r.values n

section
variable {input : Bytes}

theorem ones_le {vs : List Nat} (h : LooseMask vs) : ones vs ≤ 8 * vs.length := by
  have hoctet : ∀ v ∈ 0 :: maskOctets, popcount16 v ≤ 8 := by decide
  have hsum := List.sum_le_card_nsmul (vs.map popcount16) 8 (List.forall_mem_map.mpr fun v hv =>
    hoctet v (List.mem_cons.mpr (h.1 v hv)))
  rw [ones]
  simpa [Nat.mul_comm] using hsum

theorem Reading.Reads.length_octets {r : Reading} {n : Nat} (h : Reads n input r) : r.octets.length = n + 1 := by
  rw [octets, List.length_cons, List.length_map, h.length_eq]

theorem toNat_ones {r : Reading} (h : Reading.Reads 3 input r) (hloose : LooseMask r.values) :
    (UInt8.ofNat (ones r.values)).toNat = ones r.values := by
  have hle := ones_le hloose
  rw [Reading.values, List.length_map, h.length_octets] at hle
  exact UInt8.toNat_ofNat_of_lt' (hle.trans_lt (by decide))

theorem parsePrefixLength_of_longest {r : Reading} (h : Reading.Longest 3 input r) {n : UInt8} :
    parsePrefixLength input = .ok n ↔ LooseMask r.values ∧ n.toNat = ones r.values := by
  have hmatch : (fieldsPattern 3).fullMatch input = some (r.octets.map some) :=
    fieldsPattern_fullMatch.mpr ⟨r, h, rfl⟩
  have hparts : [1, 2, 3, 4].map (Regex.str (r.octets.map some)) = r.octets := by
    obtain ⟨a, b, c, d, hoctets⟩ := List.length_eq_four.mp h.1.length_octets
    rw [hoctets]
    rfl
  have hne : input.isEmpty = false := by
    rw [← h.1.text_eq, Reading.text, List.isEmpty_eq_false_iff]
    exact List.append_ne_nil_of_left_ne_nil (List.length_pos_iff.mp (h.1.octet r.first (.head _)).2.1) _
  rw [parsePrefixLength, hne, if_neg Bool.false_ne_true, decimalNotationPattern_eq, hmatch]
  simp only [hparts, map_eq_ok_iff, addOctets_ok_iff h.1.octet, Bool.false_eq_true, false_imp_iff, true_and,
    Nat.zero_add]
  constructor
  · rintro ⟨m, ⟨hloose, rfl⟩, rfl⟩
    exact ⟨hloose, toNat_ones h.1 hloose⟩
  · rintro ⟨hloose, hn⟩
    exact ⟨_, ⟨hloose, rfl⟩, by rw [← Reading.values, ← hn, UInt8.ofNat_toNat]⟩

theorem parsePrefixLength_of_not_reads (h : ∀ r, ¬ Reading.Reads 3 input r) {n : UInt8} :
    parsePrefixLength input = .ok n ↔ IsLengthText input n.toNat := by
  have hmask : decimalNotationPattern.fullMatch input = none := by
    rw [decimalNotationPattern_eq, Option.eq_none_iff_forall_ne_some]
    intro gs hgs
    obtain ⟨r, hr, -⟩ := fieldsPattern_fullMatch.mp hgs
    exact h r hr.1
  by_cases hoctet : IsOctetText input
  · have hcidr : cidrNotationPattern.fullMatch input = some [some input] := octet_fullMatch_iff.mpr ⟨hoctet, rfl⟩
    have hne : input.isEmpty = false := List.isEmpty_eq_false_iff.mpr (List.length_pos_iff.mp hoctet.2.1)
    rw [parsePrefixLength, hne, if_neg Bool.false_ne_true, hmask, hcidr, lexicalCast16_octet hoctet]
    simp only [IsLengthText, hoctet, true_and]
    split_ifs with hlarge
    · refine iff_of_false (fun hok => by cases hok) ?_
      omega
    · rw [Except.ok.injEq, ← UInt8.toNat_inj,
        UInt8.toNat_ofNat_of_lt' (Nat.lt_of_le_of_lt (Nat.not_lt.mp hlarge) (by decide))]
      omega
  · have hcidr : cidrNotationPattern.fullMatch input = none := by
      rw [Option.eq_none_iff_forall_ne_some]
      exact fun gs hgs => hoctet (octet_fullMatch_iff.mp hgs).1
    refine iff_of_false (fun hok => ?_) fun hlength => hoctet hlength.1
    rw [parsePrefixLength, hmask, hcidr] at hok
    split_ifs at hok

theorem Reading.Reads.length_le {n : Nat} {r : Reading} (h : Reads n input r) : 2 * n + 1 ≤ input.length := by
  induction n generalizing input r with
  | zero => exact (reads_zero.mp h).1.2.1
  | succ n ih =>
      obtain ⟨front, c, r, rfl⟩ := exists_cons h
      obtain ⟨hfront, -, rest, rfl, hrest⟩ := reads_cons.mp h
      have hlen := ih hrest
      have hpos := hfront.2.1
      rw [List.length_append, List.length_cons]
      omega

theorem isMaskText_iff {r : Reading} (h : Reading.Reads 3 input r) {n : Nat} :
    IsMaskText input n ↔ r.Dotted ∧ IsNetmask r.values n := by
  constructor
  · rintro ⟨r', hr', hdotted, hmask⟩
    obtain rfl := Reading.eq_of_dotted hr' hdotted h
    exact ⟨hdotted, hmask⟩
  · rintro ⟨hdotted, hmask⟩
    exact ⟨r, h, hdotted, hmask⟩

end

/-- **Prefix lengths.** A text is read as a prefix length exactly when it is one, unless the octets the matcher finds in
it pass the loop and are not a mask, or do not stand between points. -/
theorem prefixLength_right_iff (input : Bytes) : PrefixLengthRight input ↔ ReadsMask input := by
  by_cases hreads : ∃ r, Reading.Reads 3 input r
  · obtain ⟨r₀, hr₀⟩ := hreads
    obtain ⟨gs, hgs⟩ := Option.isSome_iff_exists.mp (Regex.fullMatch_isSome hr₀.matches)
    obtain ⟨r, hr, -⟩ := fieldsPattern_fullMatch.mp hgs
    have hlong : ∀ n, ¬ IsLengthText input n := fun n h => by
      have hlen := hr.1.length_le
      have hle := h.1.2.2
      omega
    constructor
    · intro hright r' hr' hloose
      have hok := (parsePrefixLength_of_longest hr').mpr ⟨hloose, toNat_ones hr'.1 hloose⟩
      obtain ⟨hdotted, hmask⟩ := (isMaskText_iff hr'.1).mp (((hright _).mp hok).resolve_left (hlong _))
      exact ⟨hdotted, _, hmask⟩
    · intro hmasks n
      rw [parsePrefixLength_of_longest hr, or_iff_right (hlong _), isMaskText_iff hr.1]
      constructor
      · rintro ⟨hloose, hn⟩
        obtain ⟨hdotted, m, hmask⟩ := hmasks r hr hloose
        rw [hn, hmask.looseMask.2]
        exact ⟨hdotted, hmask⟩
      · rintro ⟨-, hmask⟩
        exact ⟨hmask.looseMask.1, hmask.looseMask.2.symm⟩
  · have hno : ∀ r, ¬ Reading.Reads 3 input r := not_exists.mp hreads
    refine iff_of_true (fun n => ?_) fun r hr => absurd hr.1 (hno r)
    rw [parsePrefixLength_of_not_reads hno, or_iff_left]
    rintro ⟨r, hr, -⟩
    exact hno r hr

/-- Letters between the octets, and a mask that goes on behind an octet that is not full. -/
theorem masks_misread :
    parsePrefixLength (ascii "255a255a255a0") = .ok 24 ∧ ¬ PrefixLengthRight (ascii "255a255a255a0") ∧
      parsePrefixLength (ascii "255.254.255.0") = .ok 23 ∧ ¬ PrefixLengthRight (ascii "255.254.255.0") := by
  have hletters : parsePrefixLength (ascii "255a255a255a0") = .ok 24 := by decide +kernel
  have hpoints : parsePrefixLength (ascii "255.254.255.0") = .ok 23 := by decide +kernel
  refine ⟨hletters, fun h => ?_, hpoints, fun h => ?_⟩
  · rcases (h 24).mp hletters with hlength | ⟨r, hr, hdotted, -⟩
    · exact absurd hlength.1 (by decide)
    · have hcount := Reading.count_text hr
      rw [List.countP_eq_length.mpr fun f hf => decide_eq_true (hdotted f hf), hr.length_eq] at hcount
      exact absurd hcount (by decide)
  · rcases (h 23).mp hpoints with hlength | ⟨r, hr, hdotted, hmask⟩
    · exact absurd hlength.1 (by decide)
    · have hoctets := Reading.octets_eq_splitOn hr hdotted
      have hvalues := hmask.eq_netmask
      rw [Reading.values, hoctets] at hvalues
      exact absurd hvalues (by decide +kernel)

end Znode.Net
