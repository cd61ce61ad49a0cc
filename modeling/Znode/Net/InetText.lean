import Mathlib
import Znode.Net.AddressText

/-!
# Addresses as the library writes and reads them

`inet_ntop` and `inet_pton`, for both families.

* `inetNtop4`, `inetPton4_inetNtop4` : four numbers between points, and they are read back;
* `words`, `wordsBytes` : an IPv6 address is eight words of 16 bits;
* `bestRun` : the run of zero words that is left out, the first of the longest;
* `inetNtop6` : words in base 16 between colons. Where the run leaves only the last two words, or the last three if the
  first of these is `ffff`, the last 32 bits are written as an IPv4 address;
* `inetPton6` : what stands left and right of `::`, and zeros between them;
* `inetPton6_inetNtop6` : what is written without an IPv4 tail is read back;
* `hasTail_cases` : a tail is written for IPv4-mapped addresses and for those of which only the last 32 bits are set,
  and not only the lower half of these.
-/

namespace Znode.Net
open Znode.Lib Znode.Core

/-! ## IPv4 -/

def inetNtop4 (bytes : Octets 4) : Bytes := [46].intercalate (bytes.val.map fun b => decimal b.toNat)

theorem mapM_map_some {α β : Type} {f : β → Option α} {g : α → β} {l : List α} (h : ∀ x ∈ l, f (g x) = some x) :
    (l.map g).mapM f = some l := by
  induction l with
  | nil => rfl
  | cons x l ih =>
      obtain ⟨hx, hl⟩ := List.forall_mem_cons.mp h
      rw [List.map_cons, List.mapM_cons, hx, ih hl]
      rfl

theorem readOctet_decimal (b : UInt8) : readOctet (decimal b.toNat) = some b := by
  have hhead : (decimal b.toNat).head? = some 48 → (decimal b.toNat).length = 1 := by
    intro hzero
    by_cases hb : b.toNat = 0
    · rw [hb]
      rfl
    · exact absurd hzero (head?_decimal hb)
  have hval : decimalVal (decimal b.toNat) = b.toNat := decimalVal_decimal _
  rw [readOctet, if_pos ⟨decimal_ne_nil _, decimal_digits _, hhead, by rw [hval]; exact b.toNat_lt⟩, hval,
    UInt8.ofNat_toNat]

theorem inetPton4_inetNtop4 (bytes : Octets 4) : inetPton4 (inetNtop4 bytes) = some bytes := by
  have hsplit : (inetNtop4 bytes).splitOn 46 = bytes.val.map fun b => decimal b.toNat := by
    apply List.splitOn_intercalate
    · intro s hs hpoint
      obtain ⟨b, -, rfl⟩ := List.mem_map.mp hs
      exact absurd (decimal_digits _ 46 hpoint) (by decide)
    · intro hnil
      have hlen := congrArg List.length hnil
      rw [List.length_map, bytes.property] at hlen
      cases hlen
  rw [inetPton4, hsplit, mapM_map_some fun b _ => readOctet_decimal b, Option.bind_some, dif_pos bytes.property]

/-! ## Words -/

/-- The words of 16 bits in a byte string, the high byte first. -/
def words : Bytes → List Nat
  | high :: low :: s => (high.toNat * 256 + low.toNat) :: words s
  | _ => []

def wordsBytes (ws : List Nat) : Bytes := ws.flatMap fun w => [UInt8.ofNat (w / 256), UInt8.ofNat w]

theorem length_words (s : Bytes) : (words s).length = s.length / 2 := by
  fun_induction words s with
  | case1 high low s ih =>
      simp only [List.length_cons, ih]
      omega
  | case2 s h =>
      rcases s with _ | ⟨a, _ | ⟨b, s⟩⟩
      · rfl
      · simp
      · exact absurd rfl (h a b s)

theorem words_lt {s : Bytes} {w : Nat} (h : w ∈ words s) : w < 2 ^ 16 := by
  fun_induction words s with
  | case1 high low s ih =>
      rcases List.mem_cons.mp h with rfl | h
      · have h₁ := high.toNat_lt
        have h₂ := low.toNat_lt
        omega
      · exact ih h
  | case2 => cases h

theorem wordsBytes_words {s : Bytes} (h : s.length % 2 = 0) : wordsBytes (words s) = s := by
  fun_induction words s with
  | case1 high low s ih =>
      have h₁ := high.toNat_lt
      have h₂ := low.toNat_lt
      have hhigh : UInt8.ofNat ((high.toNat * 256 + low.toNat) / 256) = high := by
        rw [show (high.toNat * 256 + low.toNat) / 256 = high.toNat by omega, UInt8.ofNat_toNat]
      have hlow : UInt8.ofNat (high.toNat * 256 + low.toNat) = low := by
        apply UInt8.toNat_inj.mp
        rw [UInt8.toNat_ofNat']
        omega
      rw [wordsBytes, List.flatMap_cons, hhigh, hlow, ← wordsBytes, ih (by simp only [List.length_cons] at h; omega)]
      rfl
  | case2 s hs =>
      rcases s with _ | ⟨a, _ | ⟨b, s⟩⟩
      · rfl
      · cases h
      · exact absurd rfl (hs a b s)

/-! ## Words as text -/

def hexText (n : Nat) : Bytes := if n = 0 then [48] else (radix 16 n).map Hex.hexDigit

def joinWords (ws : List Nat) : Bytes := [58].intercalate (ws.map hexText)

/-- One to four digits of base 16. -/
def readHex16 (s : Bytes) : Option Nat :=
  (s.mapM Hex.digitOf).bind fun ds => if ds ≠ [] ∧ ds.length ≤ 4 then some (horner 16 ds) else none

/-- The last of the groups of an address: a word, or the two words of an IPv4 address. -/
def readLast (s : Bytes) : Option (List Nat) :=
  ((readHex16 s).map fun w => [w]).orElse fun _ => (inetPton4 s).map fun bytes => words bytes.val

def readGroups (s : Bytes) : Option (List Nat) :=
  let groups := s.splitOn 58
  (groups.dropLast.mapM readHex16).bind fun ws => (readLast (groups.getLastD [])).map (ws ++ ·)

/-- What stands left and right of the first `::`. -/
def splitDouble : Bytes → Option (Bytes × Bytes)
  | [] => none
  | c :: s =>
    if c = 58 ∧ s.head? = some 58 then some ([], s.drop 1)
    else (splitDouble s).map fun sides => (c :: sides.1, sides.2)

/-- The words left of `::`; there may be none. -/
def readLeft (s : Bytes) : Option (List Nat) := if s = [] then some [] else (s.splitOn 58).mapM readHex16

def readRight (s : Bytes) : Option (List Nat) := if s = [] then some [] else readGroups s

def inetPton6 (s : Bytes) : Option (Octets 16) :=
  (splitDouble s).elim
    ((readGroups s).bind fun ws => if ws.length = 8 then some (Octets.ofBytes 16 (wordsBytes ws)) else none)
    fun sides => (readLeft sides.1).bind fun left => (readRight sides.2).bind fun right =>
      if left.length + right.length < 8 then
        some (Octets.ofBytes 16 (wordsBytes (left ++ List.replicate (8 - left.length - right.length) 0 ++ right)))
      else none

theorem hexText_ne_nil (n : Nat) : hexText n ≠ [] := by
  unfold hexText
  split_ifs with h
  · decide
  · simpa [radix_eq_nil_iff] using h

theorem digitOf_hexText (n : Nat) : ∀ c ∈ hexText n, ∃ d, Hex.digitOf c = some d := by
  unfold hexText
  split_ifs with h
  · exact fun c hc => ⟨0, by rw [List.mem_singleton.mp hc]; rfl⟩
  · intro c hc
    obtain ⟨d, hd, rfl⟩ := List.mem_map.mp hc
    exact ⟨d, Hex.digitOf_hexDigit (radix_lt (by decide) hd)⟩

theorem colon_notMem_hexText (n : Nat) : 58 ∉ hexText n := by
  intro h
  obtain ⟨d, hd⟩ := digitOf_hexText n 58 h
  cases hd

theorem readHex16_hexText {n : Nat} (h : n < 2 ^ 16) : readHex16 (hexText n) = some n := by
  unfold hexText
  split_ifs with hzero
  · rw [hzero]
    rfl
  · have hdigits := mapM_map_some (f := Hex.digitOf) (g := Hex.hexDigit) (l := radix 16 n) fun d hd =>
      Hex.digitOf_hexDigit (radix_lt (by decide) hd)
    have hlen : (radix 16 n).length ≤ 4 := (length_radix_le_iff (by decide)).mpr h
    rw [readHex16, hdigits, Option.bind_some, if_pos ⟨mt radix_eq_nil_iff.mp hzero, hlen⟩, horner_radix]

/-! ### Splitting -/

theorem splitOn_joinWords {ws : List Nat} (h : ws ≠ []) : (joinWords ws).splitOn 58 = ws.map hexText := by
  apply List.splitOn_intercalate
  · intro s hs
    obtain ⟨w, -, rfl⟩ := List.mem_map.mp hs
    exact colon_notMem_hexText w
  · simpa using h

theorem splitDouble_append {s : Bytes} (h : 58 ∉ s) (t : Bytes) :
    splitDouble (s ++ t) = (splitDouble t).map fun sides => (s ++ sides.1, sides.2) := by
  induction s with
  | nil => simp
  | cons c s ih =>
      obtain ⟨hc, hs⟩ := not_or.mp (mt List.mem_cons.mpr h)
      rw [List.cons_append, splitDouble, if_neg fun h => hc h.1.symm, ih hs, Option.map_map]
      rfl

theorem splitDouble_colon {t : Bytes} (h : t.head? ≠ some 58) :
    splitDouble (58 :: t) = (splitDouble t).map fun sides => (58 :: sides.1, sides.2) := by
  rw [splitDouble, if_neg fun hcolons => h hcolons.2]

theorem joinWords_singleton (w : Nat) : joinWords [w] = hexText w := by
  simp [joinWords]

theorem joinWords_cons (w : Nat) {ws : List Nat} (h : ws ≠ []) :
    joinWords (w :: ws) = hexText w ++ 58 :: joinWords ws := by
  obtain ⟨v, ws, rfl⟩ := List.exists_cons_of_ne_nil h
  rw [joinWords, List.map_cons, List.map_cons, List.intercalate_cons_cons, joinWords, List.map_cons]
  simp

theorem head?_joinWords_append {ws : List Nat} (h : ws ≠ []) (t : Bytes) : (joinWords ws ++ t).head? ≠ some 58 := by
  obtain ⟨w, ws, rfl⟩ := List.exists_cons_of_ne_nil h
  obtain ⟨t', ht'⟩ : ∃ t', joinWords (w :: ws) ++ t = hexText w ++ t' := by
    by_cases hws : ws = []
    · exact ⟨t, by rw [hws, joinWords_singleton]⟩
    · exact ⟨58 :: joinWords ws ++ t, by rw [joinWords_cons w hws, List.append_assoc]⟩
  rw [ht', List.head?_append_of_ne_nil _ (hexText_ne_nil w)]
  exact fun hhead => colon_notMem_hexText w (List.mem_of_mem_head? hhead)

theorem joinWords_eq_nil_iff {ws : List Nat} : joinWords ws = [] ↔ ws = [] := by
  constructor
  · intro h
    by_contra hws
    obtain ⟨w, ws, rfl⟩ := List.exists_cons_of_ne_nil hws
    by_cases hws : ws = []
    · rw [hws, joinWords_singleton] at h
      exact hexText_ne_nil w h
    · simp [joinWords_cons w hws] at h
  · rintro rfl
    rfl

theorem splitDouble_joinWords_append (ws : List Nat) (t : Bytes) :
    splitDouble (joinWords ws ++ t) = (splitDouble t).map fun sides => (joinWords ws ++ sides.1, sides.2) := by
  induction ws with
  | nil => simp [joinWords]
  | cons w ws ih =>
      by_cases hws : ws = []
      · rw [hws, joinWords_singleton, splitDouble_append (colon_notMem_hexText w)]
      · rw [joinWords_cons w hws, List.append_assoc, List.cons_append, splitDouble_append (colon_notMem_hexText w),
          splitDouble_colon (head?_joinWords_append hws t), ih, Option.map_map, Option.map_map]
        simp [Function.comp_def]

theorem splitDouble_joinWords (ws : List Nat) : splitDouble (joinWords ws) = none := by
  have h := splitDouble_joinWords_append ws []
  rwa [List.append_nil] at h

theorem splitDouble_compressed (left : List Nat) (t : Bytes) :
    splitDouble (joinWords left ++ 58 :: 58 :: t) = some (joinWords left, t) := by
  rw [splitDouble_joinWords_append, splitDouble, if_pos ⟨rfl, rfl⟩]
  simp

theorem readHex16_words {ws : List Nat} (h : ∀ w ∈ ws, w < 2 ^ 16) : (ws.map hexText).mapM readHex16 = some ws :=
  mapM_map_some fun w hw => readHex16_hexText (h w hw)

theorem readGroups_joinWords {ws : List Nat} (hne : ws ≠ []) (h : ∀ w ∈ ws, w < 2 ^ 16) :
    readGroups (joinWords ws) = some ws := by
  obtain ⟨front, w, rfl⟩ : ∃ front w, ws = front ++ [w] := ⟨_, _, (List.dropLast_append_getLast hne).symm⟩
  obtain ⟨hfront, hw⟩ := List.forall_mem_append.mp h
  rw [readGroups, splitOn_joinWords hne, List.map_append, List.map_singleton, List.dropLast_concat,
    readHex16_words hfront, List.getLastD_concat, readLast, readHex16_hexText (hw w (.head _))]
  rfl

theorem readLeft_joinWords {ws : List Nat} (h : ∀ w ∈ ws, w < 2 ^ 16) : readLeft (joinWords ws) = some ws := by
  rw [readLeft]
  split_ifs with hnil
  · rw [joinWords_eq_nil_iff.mp hnil]
  · rw [splitOn_joinWords (mt joinWords_eq_nil_iff.mpr hnil), readHex16_words h]

theorem readRight_joinWords {ws : List Nat} (h : ∀ w ∈ ws, w < 2 ^ 16) : readRight (joinWords ws) = some ws := by
  rw [readRight]
  split_ifs with hnil
  · rw [joinWords_eq_nil_iff.mp hnil]
  · rw [readGroups_joinWords (mt joinWords_eq_nil_iff.mpr hnil) h]

/-- Words, zeros, and words. -/
theorem inetPton6_compressed {left right : List Nat} (hleft : ∀ w ∈ left, w < 2 ^ 16) (hright : ∀ w ∈ right, w < 2 ^ 16)
    (hlen : left.length + right.length < 8) :
    inetPton6 (joinWords left ++ 58 :: 58 :: joinWords right) =
      some (Octets.ofBytes 16 (wordsBytes (left ++ List.replicate (8 - left.length - right.length) 0 ++ right))) := by
  rw [inetPton6, splitDouble_compressed, Option.elim_some, readLeft_joinWords hleft, Option.bind_some,
    readRight_joinWords hright, Option.bind_some, if_pos hlen]

theorem inetPton6_full {ws : List Nat} (h : ∀ w ∈ ws, w < 2 ^ 16) (hlen : ws.length = 8) :
    inetPton6 (joinWords ws) = some (Octets.ofBytes 16 (wordsBytes ws)) := by
  have hne : ws ≠ [] := fun hnil => by simp [hnil] at hlen
  rw [inetPton6, splitDouble_joinWords, Option.elim_none, readGroups_joinWords hne h, Option.bind_some, if_pos hlen]

/-! ## Writing -/

/-- How many zero words there are from word `i` on. -/
def zeroRun (ws : List Nat) (i : Nat) : Nat := ((ws.drop i).takeWhile (· = 0)).length

/-- The first of the longest runs of at least two zero words: where it begins, and its length. -/
def bestRun (ws : List Nat) : Option (Nat × Nat) :=
  (List.range ws.length).foldl
    (fun best i =>
      if 2 ≤ zeroRun ws i ∧ best.all (fun run => run.2 < zeroRun ws i) then some (i, zeroRun ws i) else best)
    none

/-- The last 32 bits are written as an IPv4 address. -/
def HasTail (ws : List Nat) (run : Nat × Nat) : Prop :=
  run.1 = 0 ∧ (run.2 = 6 ∨ run.2 = 5 ∧ ws.getD 5 0 = 0xFFFF)

instance (ws : List Nat) (run : Nat × Nat) : Decidable (HasTail ws run) := inferInstanceAs (Decidable (_ ∧ _))

def inetNtop6 (bytes : Octets 16) : Bytes :=
  let ws := words bytes.val
  (bestRun ws).elim (joinWords ws) fun run =>
    if HasTail ws run then
      ascii "::" ++ (if run.2 = 5 then ascii "ffff:" else []) ++ inetNtop4 (Octets.ofBytes 4 (bytes.val.drop 12))
    else joinWords (ws.take run.1) ++ ascii "::" ++ joinWords (ws.drop (run.1 + run.2))

theorem bestRun_spec {ws : List Nat} {run : Nat × Nat} (h : bestRun ws = some run) :
    run.1 < ws.length ∧ run.2 = zeroRun ws run.1 ∧ 2 ≤ run.2 := by
  revert run
  rw [bestRun]
  refine List.foldlRecOn (motive := fun best => ∀ {run : Nat × Nat}, best = some run →
    run.1 < ws.length ∧ run.2 = zeroRun ws run.1 ∧ 2 ≤ run.2) (List.range ws.length) _ ?_ ?_
  · intro run hrun
    cases hrun
  · intro best hbest i hi run hrun
    split_ifs at hrun with hlonger
    · cases hrun
      exact ⟨List.mem_range.mp hi, rfl, hlonger.1⟩
    · exact hbest hrun

theorem dropWhile_zeroRun (ws : List Nat) (i : Nat) :
    (ws.drop i).dropWhile (· = 0) = ws.drop (i + zeroRun ws i) := by
  rw [← List.drop_drop]
  nth_rewrite 2 [← List.takeWhile_append_dropWhile (p := (· = 0)) (l := ws.drop i)]
  rw [zeroRun, List.drop_left]

/-- The run is cut out of the words. -/
theorem append_zeroRun (ws : List Nat) (i : Nat) :
    ws.take i ++ List.replicate (zeroRun ws i) 0 ++ ws.drop (i + zeroRun ws i) = ws := by
  have hzeros : (ws.drop i).takeWhile (· = 0) = List.replicate (zeroRun ws i) 0 :=
    List.eq_replicate_iff.mpr ⟨rfl, fun w hw => by simpa using List.mem_takeWhile_imp hw⟩
  rw [List.append_assoc, ← hzeros, ← dropWhile_zeroRun, List.takeWhile_append_dropWhile, List.take_append_drop]

theorem inetNtop6_none {bytes : Octets 16} (h : bestRun (words bytes.val) = none) :
    inetNtop6 bytes = joinWords (words bytes.val) := by
  simp only [inetNtop6, h, Option.elim_none]

theorem inetNtop6_some {bytes : Octets 16} {run : Nat × Nat} (h : bestRun (words bytes.val) = some run)
    (htail : ¬ HasTail (words bytes.val) run) :
    inetNtop6 bytes =
      joinWords ((words bytes.val).take run.1) ++ 58 :: 58 :: joinWords ((words bytes.val).drop (run.1 + run.2)) := by
  simp only [inetNtop6, h, Option.elim_some, if_neg htail, List.append_assoc]
  rfl

/-- **What is written without an IPv4 tail is read back.** -/
theorem inetPton6_inetNtop6 {bytes : Octets 16}
    (h : ∀ run ∈ bestRun (words bytes.val), ¬ HasTail (words bytes.val) run) :
    inetPton6 (inetNtop6 bytes) = some bytes := by
  have hlen : (words bytes.val).length = 8 := by rw [length_words, bytes.property]
  have hbytes : Octets.ofBytes 16 (wordsBytes (words bytes.val)) = bytes := by
    apply Subtype.ext
    rw [wordsBytes_words (by rw [bytes.property]), Octets.val_ofBytes bytes.property]
  have hlt : ∀ w ∈ words bytes.val, w < 2 ^ 16 := fun w hw => words_lt hw
  cases hrun : bestRun (words bytes.val) with
  | none => rw [inetNtop6_none hrun, inetPton6_full hlt hlen, hbytes]
  | some run =>
      obtain ⟨hbegin, hzeros, htwo⟩ := bestRun_spec hrun
      have happend := append_zeroRun (words bytes.val) run.1
      rw [← hzeros] at happend
      have hsum := congrArg List.length happend
      simp only [List.length_append, List.length_replicate, hlen] at hsum
      rw [inetNtop6_some hrun (h run hrun), inetPton6_compressed (fun w hw => hlt w (List.mem_of_mem_take hw))
        (fun w hw => hlt w (List.mem_of_mem_drop hw)) (by omega)]
      rw [show 8 - ((words bytes.val).take run.1).length - ((words bytes.val).drop (run.1 + run.2)).length =
        run.2 by omega, happend, hbytes]

/-! ### The tail -/

/-- The address ends in an IPv4 address: only the last 32 bits are set, and some of the upper half of these. -/
def HasDottedTail (bytes : Octets 16) : Prop :=
  bytes.val.take 12 = List.replicate 12 0 ∧ 0xFFFF < beVal (bytes.val.drop 12)

instance (bytes : Octets 16) : Decidable (HasDottedTail bytes) := inferInstanceAs (Decidable (_ ∧ _))

def IsMappedAddress (bytes : Octets 16) : Prop := bytes.val.take 12 = List.replicate 10 0 ++ [0xFF, 0xFF]

instance (bytes : Octets 16) : Decidable (IsMappedAddress bytes) := inferInstanceAs (Decidable (_ = _))

theorem head?_drop_zeroRun (ws : List Nat) (i : Nat) : (ws.drop (i + zeroRun ws i)).head? ≠ some 0 := by
  intro hzero
  have hnot := List.head?_dropWhile_not (· = 0) (ws.drop i)
  rw [dropWhile_zeroRun, hzero] at hnot
  exact of_decide_eq_false hnot rfl

/-- A tail is written for these addresses only. -/
theorem hasTail_cases {bytes : Octets 16} {run : Nat × Nat} (hrun : bestRun (words bytes.val) = some run)
    (htail : HasTail (words bytes.val) run) : HasDottedTail bytes ∨ IsMappedAddress bytes := by
  have hlen : (words bytes.val).length = 8 := by rw [length_words, bytes.property]
  have hbytes : wordsBytes (words bytes.val) = bytes.val := wordsBytes_words (by rw [bytes.property])
  have hlt : ∀ w ∈ words bytes.val, w < 2 ^ 16 := fun w hw => words_lt hw
  obtain ⟨-, hzeros, -⟩ := bestRun_spec hrun
  obtain ⟨hbegin, hcount⟩ := htail
  have happend := append_zeroRun (words bytes.val) 0
  have hnext := head?_drop_zeroRun (words bytes.val) 0
  rw [hbegin] at hzeros
  rw [← hzeros, Nat.zero_add, List.take_zero, List.nil_append] at happend
  rw [← hzeros, Nat.zero_add] at hnext
  rcases hcount with hcount | ⟨hcount, hones⟩
  · -- The seventh word ends the run, so one of the upper 16 bits is set.
    rw [hcount] at happend hnext
    obtain ⟨v, w, hvw⟩ :=
      List.length_eq_two.mp (show ((words bytes.val).drop 6).length = 2 by rw [List.length_drop, hlen])
    rw [hvw] at happend hnext
    rw [← happend] at hbytes hlt
    have hv : v < 2 ^ 16 := hlt v (by simp)
    have hv' : v ≠ 0 := fun hzero => hnext (by rw [hzero]; rfl)
    refine .inl ⟨by rw [← hbytes]; rfl, ?_⟩
    have hdrop : bytes.val.drop 12 = [UInt8.ofNat (v / 256), UInt8.ofNat v, UInt8.ofNat (w / 256), UInt8.ofNat w] := by
      rw [← hbytes]
      rfl
    rw [hdrop, beVal_eq_horner]
    simp only [List.map_cons, List.map_nil, UInt8.toNat_ofNat', horner, List.foldl_cons, List.foldl_nil]
    omega
  · rw [hcount] at happend
    obtain ⟨u, v, w, huvw⟩ :=
      List.length_eq_three.mp (show ((words bytes.val).drop 5).length = 3 by rw [List.length_drop, hlen])
    rw [huvw] at happend
    rw [← happend] at hones hbytes
    obtain rfl : u = 0xFFFF := hones
    exact .inr (by rw [IsMappedAddress, ← hbytes]; rfl)

theorem bestRun_six_zeros {v : Nat} (hv : v ≠ 0) (w : Nat) : bestRun (List.replicate 6 0 ++ [v, w]) = some (0, 6) := by
  by_cases hw : w = 0
  · simp [bestRun, zeroRun, List.range_succ, hv, hw]
  · simp [bestRun, zeroRun, List.range_succ, hv, hw]

theorem bestRun_of_hasDottedTail {bytes : Octets 16} (h : HasDottedTail bytes) :
    bestRun (words bytes.val) = some (0, 6) := by
  obtain ⟨hfirst, hlast⟩ := h
  obtain ⟨a, b, c, d, htail⟩ : ∃ a b c d, bytes.val.drop 12 = [a, b, c, d] :=
    List.length_eq_four.mp (by rw [List.length_drop, bytes.property])
  have hwords : words bytes.val = List.replicate 6 0 ++ [a.toNat * 256 + b.toNat, c.toNat * 256 + d.toNat] := by
    rw [← List.take_append_drop 12 bytes.val, hfirst, htail]
    rfl
  rw [htail, beVal_eq_horner] at hlast
  simp only [List.map_cons, List.map_nil, horner, List.foldl_cons, List.foldl_nil] at hlast
  have hc := c.toNat_lt
  have hd := d.toNat_lt
  rw [hwords, bestRun_six_zeros (by omega)]

end Znode.Net
