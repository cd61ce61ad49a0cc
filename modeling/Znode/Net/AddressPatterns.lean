import Mathlib
import Znode.Net.AddressText

/-!
# What the patterns of addresses stand for

* `portPattern_matches_iff`, `bracketed_matches_iff` : a port behind a colon, and an address whose brackets may be left
  out one by one;
* `IsQuad`, `IsHexText`, `IsMapped` : the texts that the three patterns take for an address;
* `kIPv4Pattern_quad`, `kIPv6Pattern_between`, `kIPv6IPv4Pattern_between` : the groups that are found in an address
  and a port;
* `kIPv6Pattern_bare`, `kIPv6IPv4Pattern_bare` : the groups that are found in an address without brackets. Where it
  could end in a port, the matcher takes all of it for the address.
-/

namespace Znode.Net
open Znode.Lib Znode.Core

/-! ### Ports and brackets -/

def IsNumber (s : Bytes) : Prop := s ≠ [] ∧ AllDigits s

def portText (port : Option Bytes) : Bytes := port.elim [] (58 :: ·)

theorem portPattern_matches_iff {s : Bytes} {gs : List (Option Bytes)} :
    portPattern.Matches s gs ↔ ∃ port : Option Bytes, (∀ d ∈ port, IsNumber d) ∧ s = portText port ∧ gs = [port] := by
  constructor
  · rintro (⟨_, d, _, _, ⟨⟨c, hc, rfl⟩, rfl⟩, ⟨_, ⟨hdigits, hlen, -, rfl⟩, rfl⟩, rfl, rfl⟩ | ⟨rfl, rfl⟩)
    · refine ⟨some d, ?_, ?_, rfl⟩
      · rintro _ ⟨⟩
        exact ⟨List.ne_nil_of_length_pos hlen, hdigits⟩
      · rw [of_decide_eq_true hc]
        rfl
    · exact ⟨none, by simp, rfl, rfl⟩
  · rintro ⟨port, hport, rfl, rfl⟩
    cases port with
    | none => exact .inr ⟨rfl, rfl⟩
    | some d =>
        obtain ⟨hne, hdigits⟩ := hport d rfl
        exact .inl ⟨[58], d, [], [some d], ⟨⟨58, rfl, rfl⟩, rfl⟩,
          ⟨[], ⟨hdigits, List.length_pos_iff.mpr hne, by simp, rfl⟩, rfl⟩, rfl, rfl⟩

theorem mem_portText {port : Option Bytes} (hport : ∀ d ∈ port, IsNumber d) {c : UInt8} (hc : c ∈ portText port) :
    c = 58 ∨ isDigit c := by
  cases port with
  | none => cases hc
  | some d => exact (List.mem_cons.mp hc).imp_right ((hport d rfl).2 c)

theorem notMem_portText {port : Option Bytes} (hport : ∀ d ∈ port, IsNumber d) {c : UInt8} (hcolon : c ≠ 58)
    (hdigit : isDigit c = false) : c ∉ portText port := by
  intro hc
  rcases mem_portText hport hc with rfl | hc
  · exact hcolon rfl
  · rw [hdigit] at hc
    cases hc

theorem portText_injective : Function.Injective portText := by
  intro port port' h
  cases port with
  | none => cases port' <;> simp_all [portText]
  | some d => cases port' <;> simp_all [portText]

theorem append_portText_inj {s s' : Bytes} (hs : 58 ∉ s) (hs' : 58 ∉ s') {port port' : Option Bytes}
    (h : s ++ portText port = s' ++ portText port') : s = s' ∧ port = port' := by
  have hhead : ∀ port : Option Bytes, ∀ c ∈ (portText port).head?, decide (c ≠ 58) = false := by
    rintro (_ | d) c hc
    · cases hc
    · cases hc
      rfl
  obtain ⟨hfront, hport⟩ := cut_unique (p := fun c => decide (c ≠ 58))
    (fun c hc => decide_eq_true fun hcolon => hs (hcolon ▸ hc))
    (fun c hc => decide_eq_true fun hcolon => hs' (hcolon ▸ hc)) (hhead port) (hhead port') h
  exact ⟨hfront, portText_injective hport⟩

theorem opt_one_matches_iff {c : UInt8} {s : Bytes} {gs : List (Option Bytes)} :
    (Regex.opt (.one (· = c))).Matches s gs ↔ (s = [] ∨ s = [c]) ∧ gs = [] := by
  constructor
  · rintro (⟨⟨d, hd, rfl⟩, rfl⟩ | ⟨rfl, rfl⟩)
    · rw [of_decide_eq_true hd]
      exact ⟨.inr rfl, rfl⟩
    · exact ⟨.inl rfl, rfl⟩
  · rintro ⟨rfl | rfl, rfl⟩
    · exact .inr ⟨rfl, rfl⟩
    · exact .inl ⟨⟨c, decide_eq_true rfl, rfl⟩, rfl⟩

theorem bracketed_matches_iff {r : Regex UInt8} {s : Bytes} {gs : List (Option Bytes)} :
    (Regex.seq (bracketed r) portPattern).Matches s gs ↔ ∃ lb x rb port gs', (lb = [] ∨ lb = [91]) ∧
      (rb = [] ∨ rb = [93]) ∧ (∀ d ∈ port, IsNumber d) ∧ r.Matches x gs' ∧ s = lb ++ x ++ rb ++ portText port ∧
      gs = gs' ++ [port] := by
  constructor
  · rintro ⟨_, _, _, _, ⟨lb, _, _, _, hlb, ⟨x, rb, gs', _, hx, hrb, rfl, rfl⟩, rfl, rfl⟩, hport, rfl, rfl⟩
    obtain ⟨hleft, rfl⟩ := opt_one_matches_iff.mp hlb
    obtain ⟨hright, rfl⟩ := opt_one_matches_iff.mp hrb
    obtain ⟨port, hnumber, rfl, rfl⟩ := portPattern_matches_iff.mp hport
    exact ⟨lb, x, rb, port, gs', hleft, hright, hnumber, hx, by simp, by simp⟩
  · rintro ⟨lb, x, rb, port, gs', hlb, hrb, hnumber, hx, rfl, rfl⟩
    refine ⟨lb ++ (x ++ rb), portText port, gs', [port], ⟨lb, x ++ rb, [], gs', opt_one_matches_iff.mpr ⟨hlb, rfl⟩,
      ⟨x, rb, gs', [], hx, opt_one_matches_iff.mpr ⟨hrb, rfl⟩, rfl, by simp⟩, rfl, rfl⟩,
      portPattern_matches_iff.mpr ⟨port, hnumber, rfl, rfl⟩, by simp, rfl⟩

def IsQuad (s : Bytes) : Prop := quadPattern.Matches s []

theorem quadPattern_matches_iff {s : Bytes} {gs : List (Option Bytes)} :
    quadPattern.Matches s gs ↔ IsQuad s ∧ gs = [] := by
  constructor
  · intro h
    obtain rfl : gs = [] := List.length_eq_zero_iff.mp (Regex.length_of_matches h)
    exact ⟨h, rfl⟩
  · rintro ⟨h, rfl⟩
    exact h

theorem IsQuad.mem {s : Bytes} (h : IsQuad s) : 46 ∈ s ∧ ∀ c ∈ s, c = 46 ∨ isDigit c := by
  obtain ⟨a, _, _, _, ha, ⟨_, _, _, _, ⟨⟨d₁, hd₁, rfl⟩, -⟩, ⟨b, _, _, _, hb, ⟨_, _, _, _, ⟨⟨d₂, hd₂, rfl⟩, -⟩,
    ⟨c, _, _, _, hc, ⟨_, d, _, _, ⟨⟨d₃, hd₃, rfl⟩, -⟩, hd, rfl, -⟩, rfl, -⟩, rfl, -⟩, rfl, -⟩, rfl, -⟩, rfl, -⟩ := h
  rw [of_decide_eq_true hd₁, of_decide_eq_true hd₂, of_decide_eq_true hd₃]
  refine ⟨by simp, fun x hx => ?_⟩
  simp only [List.mem_append, List.mem_cons, List.not_mem_nil, or_false] at hx
  rcases hx with hx | rfl | hx | rfl | hx | rfl | hx
  · exact .inr (ha.1 x hx)
  · exact .inl rfl
  · exact .inr (hb.1 x hx)
  · exact .inl rfl
  · exact .inr (hc.1 x hx)
  · exact .inl rfl
  · exact .inr (hd.1 x hx)

/-- What is between the brackets, if there are no other brackets. -/
theorem bracketed_matches_between {r : Regex UInt8} (hr : ∀ x gs, r.Matches x gs → 91 ∉ x ∧ 93 ∉ x) {t : Bytes}
    {port : Option Bytes} (hport : ∀ d ∈ port, IsNumber d) {gs : List (Option Bytes)} :
    (Regex.seq (bracketed r) portPattern).Matches (91 :: t ++ 93 :: portText port) gs ↔
      ∃ gs', r.Matches t gs' ∧ gs = gs' ++ [port] := by
  constructor
  · intro h
    obtain ⟨lb, x, rb, port', gs', hlb, hrb, hport', hx, hs, rfl⟩ := bracketed_matches_iff.mp h
    obtain ⟨hx₁, hx₂⟩ := hr x gs' hx
    have hopen : 91 ∈ lb ++ x ++ rb ++ portText port' := by rw [← hs]; simp
    have hclose : 93 ∈ lb ++ x ++ rb ++ portText port' := by rw [← hs]; simp
    have h₁ := notMem_portText hport' (c := 91) (by decide) (by decide)
    have h₂ := notMem_portText hport' (c := 93) (by decide) (by decide)
    rcases hlb with rfl | rfl
    · rcases hrb with rfl | rfl <;> simp [hx₁, h₁] at hopen
    · rcases hrb with rfl | rfl
      · simp [hx₂, h₂] at hclose
      · have hcut : x ++ 93 :: portText port' = t ++ 93 :: portText port := by simpa using hs.symm
        obtain ⟨rfl, -, hsame⟩ := (List.append_cons_inj_of_notMem hx₂ h₂).mp hcut
        exact ⟨gs', hx, by rw [portText_injective hsame]⟩
  · rintro ⟨gs', ht, rfl⟩
    exact bracketed_matches_iff.mpr ⟨[91], t, [93], port, gs', .inr rfl, .inr rfl, hport, ht, by simp, rfl⟩

theorem bracketed_matches_bare {r : Regex UInt8} {t : Bytes} (hopen : 91 ∉ t) (hclose : 93 ∉ t)
    {gs : List (Option Bytes)} (h : (Regex.seq (bracketed r) portPattern).Matches t gs) :
    ∃ x port gs', r.Matches x gs' ∧ t = x ++ portText port ∧ gs = gs' ++ [port] := by
  obtain ⟨lb, x, rb, port, gs', hlb, hrb, -, hx, rfl, rfl⟩ := bracketed_matches_iff.mp h
  obtain rfl : lb = [] := hlb.resolve_right fun hlb => hopen (by simp [hlb])
  obtain rfl : rb = [] := hrb.resolve_right fun hrb => hclose (by simp [hrb])
  exact ⟨x, port, gs', hx, by simp, rfl⟩

/-! ### IPv4-mapped addresses -/

theorem mappedWord : ascii "::ffff:" = [58, 58, 102, 102, 102, 102, 58] := rfl

/-- `::ffff:`, in either case, and an IPv4 address. -/
def IsMapped (t : Bytes) : Prop := ∃ m q, t = m ++ q ∧ m.map Hex.toLower = ascii "::ffff:" ∧ IsQuad q

theorem mappedGroup_matches_iff {t : Bytes} {gs : List (Option Bytes)} :
    (Regex.group (.seq mappedPattern (.group quadPattern))).Matches t gs ↔
      ∃ m q, t = m ++ q ∧ m.map Hex.toLower = ascii "::ffff:" ∧ IsQuad q ∧ gs = [some t, some q] := by
  have hword : (ascii "::ffff:").map Hex.toLower = ascii "::ffff:" := by
    rw [mappedWord]
    decide
  constructor
  · rintro ⟨_, ⟨m, q, _, _, hm, ⟨_, hq, rfl⟩, rfl, rfl⟩, rfl⟩
    obtain ⟨hlower, rfl⟩ := (Regex.word_matches_iff Hex.toLower).mp hm
    obtain ⟨hquad, rfl⟩ := quadPattern_matches_iff.mp hq
    exact ⟨m, q, rfl, hlower.trans hword, hquad, rfl⟩
  · rintro ⟨m, q, rfl, hm, hq, rfl⟩
    exact ⟨[some q], ⟨m, q, [], [some q], (Regex.word_matches_iff Hex.toLower).mpr ⟨hm.trans hword.symm, rfl⟩,
      ⟨[], hq, rfl⟩, rfl, rfl⟩, rfl⟩

theorem eq_colon_of_toLower {c : UInt8} (h : Hex.toLower c = 58) : c = 58 := by
  rw [Hex.toLower_eq_iff, show (58 : UInt8).toNat = 58 from rfl] at h
  rw [← UInt8.toNat_inj, show (58 : UInt8).toNat = 58 from rfl]
  split_ifs at h <;> omega

theorem mem_mapped {m : Bytes} (hm : m.map Hex.toLower = ascii "::ffff:") {c : UInt8} (hc : c ∈ m) :
    c = 58 ∨ Hex.toLower c = 102 := by
  have hlower : Hex.toLower c ∈ ascii "::ffff:" := hm ▸ List.mem_map_of_mem hc
  have hword : ∀ d ∈ ascii "::ffff:", d = 58 ∨ d = 102 := by simp [mappedWord]
  exact (hword _ hlower).imp_left eq_colon_of_toLower

theorem IsQuad.notMem {q : Bytes} (h : IsQuad q) {c : UInt8} (hpoint : c ≠ 46) (hdigit : isDigit c = false) :
    c ∉ q := by
  intro hc
  rcases h.mem.2 c hc with rfl | hc
  · exact hpoint rfl
  · rw [hdigit] at hc
    cases hc

theorem mapped_notMem {m q : Bytes} (hm : m.map Hex.toLower = ascii "::ffff:") (hq : IsQuad q) :
    91 ∉ m ++ q ∧ 93 ∉ m ++ q := by
  have hnot : ∀ c ∈ m, c ≠ 91 ∧ c ≠ 93 := by
    intro c hc
    rcases mem_mapped hm hc with rfl | hc
    · decide
    · constructor <;> rintro rfl <;> cases hc
  constructor
  · exact List.mem_append.not.mpr (not_or.mpr ⟨fun h => (hnot _ h).1 rfl, hq.notMem (by decide) (by decide)⟩)
  · exact List.mem_append.not.mpr (not_or.mpr ⟨fun h => (hnot _ h).2 rfl, hq.notMem (by decide) (by decide)⟩)

theorem mappedGroup_notMem (x : Bytes) (gs : List (Option Bytes))
    (h : (Regex.group (.seq mappedPattern (.group quadPattern))).Matches x gs) : 91 ∉ x ∧ 93 ∉ x := by
  obtain ⟨m, q, rfl, hm, hq, -⟩ := mappedGroup_matches_iff.mp h
  exact mapped_notMem hm hq

theorem mappedGroup_matches_append {m q : Bytes} (hm : m.map Hex.toLower = ascii "::ffff:") (hq : IsQuad q)
    {port : Option Bytes} {m' q' : Bytes} (hm' : m'.map Hex.toLower = ascii "::ffff:") (hq' : IsQuad q')
    (h : m ++ q = m' ++ q' ++ portText port) : m = m' ∧ q = q' ∧ port = none := by
  have hlen : m.length = m'.length := by
    have hmap := congrArg List.length (hm.trans hm'.symm)
    rwa [List.length_map, List.length_map] at hmap
  rw [List.append_assoc] at h
  obtain ⟨rfl, htail⟩ := List.append_inj h hlen
  have hcut : q ++ portText none = q' ++ portText port := by rw [← htail]; exact List.append_nil q
  obtain ⟨rfl, hport⟩ := append_portText_inj (hq.notMem (by decide) (by decide)) (hq'.notMem (by decide) (by decide))
    hcut
  exact ⟨rfl, rfl, hport.symm⟩

theorem kIPv6IPv4Pattern_between {m q : Bytes} (hm : m.map Hex.toLower = ascii "::ffff:") (hq : IsQuad q)
    {port : Option Bytes} (hport : ∀ d ∈ port, IsNumber d) :
    kIPv6IPv4Pattern.fullMatch (91 :: (m ++ q) ++ 93 :: portText port) = some [some (m ++ q), some q, port] := by
  apply Regex.fullMatch_of_matches_iff
  intro gs
  rw [kIPv6IPv4Pattern, bracketed_matches_between mappedGroup_notMem hport]
  constructor
  · rintro ⟨gs', hgs', rfl⟩
    obtain ⟨m', q', hsame, hm', hq', rfl⟩ := mappedGroup_matches_iff.mp hgs'
    have hnone : m ++ q = m' ++ q' ++ portText none := hsame.trans (List.append_nil _).symm
    obtain ⟨-, rfl, -⟩ := mappedGroup_matches_append hm hq hm' hq' hnone
    rfl
  · rintro rfl
    exact ⟨_, mappedGroup_matches_iff.mpr ⟨m, q, rfl, hm, hq, rfl⟩, rfl⟩

theorem kIPv6IPv4Pattern_bare {m q : Bytes} (hm : m.map Hex.toLower = ascii "::ffff:") (hq : IsQuad q) :
    kIPv6IPv4Pattern.fullMatch (m ++ q) = some [some (m ++ q), some q, none] := by
  apply Regex.fullMatch_of_matches_iff
  intro gs
  obtain ⟨hopen, hclose⟩ := mapped_notMem hm hq
  constructor
  · intro h
    obtain ⟨x, port, gs', hx, hs, rfl⟩ := bracketed_matches_bare hopen hclose h
    obtain ⟨m', q', rfl, hm', hq', rfl⟩ := mappedGroup_matches_iff.mp hx
    obtain ⟨rfl, rfl, rfl⟩ := mappedGroup_matches_append hm hq hm' hq' hs
    rfl
  · rintro rfl
    exact bracketed_matches_iff.mpr ⟨[], m ++ q, [], none, _, .inl rfl, .inl rfl, by simp,
      mappedGroup_matches_iff.mpr ⟨m, q, rfl, hm, hq, rfl⟩, by simp [portText], rfl⟩

theorem kIPv6IPv4Pattern_between_none {t : Bytes} (ht : ¬ IsMapped t) {port : Option Bytes}
    (hport : ∀ d ∈ port, IsNumber d) : kIPv6IPv4Pattern.fullMatch (91 :: t ++ 93 :: portText port) = none := by
  apply Regex.fullMatch_eq_none_iff.mpr
  intro gs h
  obtain ⟨gs', hgs', -⟩ := (bracketed_matches_between mappedGroup_notMem hport).mp h
  obtain ⟨m, q, hmq, hm, hq, -⟩ := mappedGroup_matches_iff.mp hgs'
  exact ht ⟨m, q, hmq, hm, hq⟩

/-- A text that the pattern of IPv4-mapped addresses stands for. -/
theorem kIPv6IPv4Pattern_mem {s : Bytes} {gs : List (Option Bytes)} (h : kIPv6IPv4Pattern.Matches s gs) :
    46 ∈ s ∧ ∃ c ∈ s, Hex.toLower c = 102 := by
  obtain ⟨lb, x, rb, port, gs', -, -, -, hx, rfl, -⟩ := bracketed_matches_iff.mp h
  obtain ⟨m, q, rfl, hm, hq, -⟩ := mappedGroup_matches_iff.mp hx
  have hletter : (102 : UInt8) ∈ m.map Hex.toLower := by rw [hm, mappedWord]; decide
  obtain ⟨c, hc, hlower⟩ := List.mem_map.mp hletter
  exact ⟨by simp [hq.mem.1], c, by simp [hc], hlower⟩

/-! ### The other addresses -/

theorem toLower_ne_of_quad {c : UInt8} (h : c = 46 ∨ c = 58 ∨ isDigit c) : Hex.toLower c ≠ 102 := by
  rw [Ne, Hex.toLower_eq_iff, show (102 : UInt8).toNat = 102 from rfl]
  rcases h with rfl | rfl | h
  · decide
  · decide
  · rw [isDigit_iff] at h
    split_ifs <;> omega

/-- There is no letter in an IPv4 address and its port. -/
theorem kIPv6IPv4Pattern_quad {q : Bytes} (hq : IsQuad q) {port : Option Bytes} (hport : ∀ d ∈ port, IsNumber d) :
    kIPv6IPv4Pattern.fullMatch (q ++ portText port) = none := by
  apply Regex.fullMatch_eq_none_iff.mpr
  intro gs h
  obtain ⟨-, c, hc, hlower⟩ := kIPv6IPv4Pattern_mem h
  refine toLower_ne_of_quad ?_ hlower
  rcases List.mem_append.mp hc with hc | hc
  · exact (hq.mem.2 c hc).imp_right .inr
  · exact .inr (mem_portText hport hc)

theorem kIPv4Pattern_quad {q : Bytes} (hq : IsQuad q) {port : Option Bytes} (hport : ∀ d ∈ port, IsNumber d) :
    kIPv4Pattern.fullMatch (q ++ portText port) = some [some q, port] := by
  apply Regex.fullMatch_of_matches_iff
  intro gs
  constructor
  · rintro ⟨q', _, _, _, ⟨_, hq', rfl⟩, hport', hs, rfl⟩
    obtain ⟨hquad, rfl⟩ := quadPattern_matches_iff.mp hq'
    obtain ⟨port', -, rfl, rfl⟩ := portPattern_matches_iff.mp hport'
    obtain ⟨rfl, rfl⟩ :=
      append_portText_inj (hq.notMem (by decide) (by decide)) (hquad.notMem (by decide) (by decide)) hs
    rfl
  · rintro rfl
    exact ⟨q, portText port, [some q], [port], ⟨[], hq, rfl⟩, portPattern_matches_iff.mpr ⟨port, hport, rfl, rfl⟩,
      rfl, rfl⟩

theorem kIPv4Pattern_notMem {s : Bytes} {gs : List (Option Bytes)} (h : kIPv4Pattern.Matches s gs) : 91 ∉ s := by
  obtain ⟨q, _, _, _, ⟨_, hq, rfl⟩, hport, rfl, rfl⟩ := h
  obtain ⟨hquad, rfl⟩ := quadPattern_matches_iff.mp hq
  obtain ⟨port, hnumber, rfl, rfl⟩ := portPattern_matches_iff.mp hport
  exact List.mem_append.not.mpr
    (not_or.mpr ⟨hquad.notMem (by decide) (by decide), notMem_portText hnumber (by decide) (by decide)⟩)

theorem kIPv4Pattern_bracket (s : Bytes) : kIPv4Pattern.fullMatch (91 :: s) = none :=
  Regex.fullMatch_eq_none_iff.mpr fun _ h => kIPv4Pattern_notMem h List.mem_cons_self

/-- Digits of base 16 and colons, at least one. -/
def IsHexText (t : Bytes) : Prop := t ≠ [] ∧ ∀ c ∈ t, isHexOrColon c

theorem hexGroup_matches_iff {t : Bytes} {gs : List (Option Bytes)} :
    (Regex.group (.many true 1 none isHexOrColon)).Matches t gs ↔ IsHexText t ∧ gs = [some t] := by
  constructor
  · rintro ⟨_, ⟨hall, hlen, -, rfl⟩, rfl⟩
    exact ⟨⟨List.ne_nil_of_length_pos hlen, hall⟩, rfl⟩
  · rintro ⟨⟨hne, hall⟩, rfl⟩
    exact ⟨[], ⟨hall, List.length_pos_iff.mpr hne, by simp, rfl⟩, rfl⟩

theorem IsHexText.notMem {t : Bytes} (h : IsHexText t) {c : UInt8} (hc : isHexOrColon c = false) : c ∉ t := by
  intro hmem
  have htrue := h.2 c hmem
  rw [hc] at htrue
  cases htrue

theorem IsHexText.not_isMapped {t : Bytes} (h : IsHexText t) : ¬ IsMapped t := by
  rintro ⟨m, q, rfl, -, hq⟩
  exact h.notMem rfl (List.mem_append_right m hq.mem.1)

theorem hexGroup_notMem (x : Bytes) (gs : List (Option Bytes))
    (h : (Regex.group (.many true 1 none isHexOrColon)).Matches x gs) : 91 ∉ x ∧ 93 ∉ x :=
  have hx := (hexGroup_matches_iff.mp h).1
  ⟨hx.notMem rfl, hx.notMem rfl⟩

theorem kIPv6Pattern_between {t : Bytes} (ht : IsHexText t) {port : Option Bytes} (hport : ∀ d ∈ port, IsNumber d) :
    kIPv6Pattern.fullMatch (91 :: t ++ 93 :: portText port) = some [some t, port] := by
  apply Regex.fullMatch_of_matches_iff
  intro gs
  rw [kIPv6Pattern, bracketed_matches_between hexGroup_notMem hport]
  constructor
  · rintro ⟨gs', hgs', rfl⟩
    rw [(hexGroup_matches_iff.mp hgs').2]
    rfl
  · rintro rfl
    exact ⟨_, hexGroup_matches_iff.mpr ⟨ht, rfl⟩, rfl⟩

theorem kIPv6Pattern_between_none {t : Bytes} (ht : ¬ IsHexText t) {port : Option Bytes}
    (hport : ∀ d ∈ port, IsNumber d) : kIPv6Pattern.fullMatch (91 :: t ++ 93 :: portText port) = none := by
  apply Regex.fullMatch_eq_none_iff.mpr
  intro gs h
  obtain ⟨gs', hgs', -⟩ := (bracketed_matches_between hexGroup_notMem hport).mp h
  exact ht (hexGroup_matches_iff.mp hgs').1

/-- Without brackets the whole text is taken for the address, also what could be a port. -/
theorem kIPv6Pattern_bare {t : Bytes} (ht : IsHexText t) : kIPv6Pattern.fullMatch t = some [some t, none] := by
  apply Regex.fullMatch_of_head?
  have hopen : (Regex.one fun c : UInt8 => decide (c = 91)).paths t = [] := by
    obtain ⟨c, t, rfl⟩ := List.exists_cons_of_ne_nil ht.1
    have hc : c ≠ 91 := fun hc => ht.notMem (c := 91) rfl (by simp [hc])
    simp [Regex.paths_one_cons, hc]
  have hgroup := Regex.head?_paths_group_many ht.2 (List.length_pos_iff.mpr ht.1)
  have hclose : ((Regex.opt (.one fun c : UInt8 => decide (c = 93))).paths []).head? = some ([], []) := rfl
  have hport : (portPattern.paths []).head? = some ([none], []) := rfl
  exact Regex.head?_paths_seq
    (Regex.head?_paths_seq (Regex.head?_paths_opt hopen) (Regex.head?_paths_seq hgroup hclose)) hport

theorem kIPv6Pattern_notMem {s : Bytes} {gs : List (Option Bytes)} (h : kIPv6Pattern.Matches s gs) : 46 ∉ s := by
  obtain ⟨lb, x, rb, port, gs', hlb, hrb, hport, hx, rfl, -⟩ := bracketed_matches_iff.mp h
  have h₁ : 46 ∉ x := (hexGroup_matches_iff.mp hx).1.notMem rfl
  have h₂ := notMem_portText hport (c := 46) (by decide) (by decide)
  rcases hlb with rfl | rfl <;> rcases hrb with rfl | rfl <;> simp [h₁, h₂]

end Znode.Net
