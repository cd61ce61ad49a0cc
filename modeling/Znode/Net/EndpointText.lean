import Mathlib
import Znode.Net.AddressPatterns
import Znode.Net.InetText

/-!
# Endpoints as text

* `IPEndpoint.toString`, `IPEndpoint.fromString` : an IPv6 address stands between brackets, and the port behind a colon.
  The text is read by the patterns of addresses; what they take for the address is read once more by
  `IPAddress.fromString`. The port is looked for in a group that depends on the pattern: the fourth for an IPv4-mapped
  address, whose pattern has three, the second for the others;
* `IPEndpoint.fromString_quad`, `fromString_hex`, `fromString_mapped`, `fromString_dotted` : what is read from an
  address and a port, for the four kinds of address;
* `endpoint_roundTrip_iff` : endpoints are read back unless their address is written with an IPv4 tail;
* `endpoint_port_kept_iff` : the port is kept unless there is an IPv4 tail between the brackets.
-/

namespace Znode.Net
open Znode.Lib Znode.Core

def IPAddress.toString : IPAddress → Bytes
  | v4 bytes => inetNtop4 bytes
  | v6 bytes => ascii "[" ++ inetNtop6 bytes ++ ascii "]"

/-- `boost::lexical_cast<uint64_t>` of digits. -/
def lexicalCast64 (s : Bytes) : Option Nat :=
  if s ≠ [] ∧ AllDigits s ∧ decimalVal s < 2 ^ 64 then some (decimalVal s) else none

namespace IPEndpoint

def toString (e : IPEndpoint) : Bytes := e.address.toString ++ ascii ":" ++ decimal e.port.toNat

/-- An address and the text of its port, if the group of the port took part. -/
def withPort (address : IPAddress) (port : Option Bytes) : Result IPEndpoint :=
  port.elim (.ok { address := address }) fun text =>
    (lexicalCast64 text).elim (.error (.errc .invalidArgument)) fun parsed =>
      if 65535 ≤ parsed then .error (.errc .valueTooLarge)
      else .ok { address := address, port := UInt16.ofNat parsed }

section
variable (makeAddressV4 : Bytes → Option (Octets 4)) (makeAddressV6 : Bytes → Option (Octets 16))

/-- The endpoint in these groups of a match. A group that the pattern does not have took no part. -/
def ofMatches (groups : List (Option Bytes)) (addressMatch portMatch : Nat) : Result IPEndpoint := do
  let parsedAddress ← IPAddress.fromString makeAddressV4 makeAddressV6 (Regex.str groups addressMatch)
  withPort parsedAddress (groups.getD (portMatch - 1) none)

def fromString (input : Bytes) : Result IPEndpoint :=
  if input.isEmpty then .ok {}
  else
    (kIPv6IPv4Pattern.fullMatch input).elim
      (((kIPv4Pattern.fullMatch input).or (kIPv6Pattern.fullMatch input)).elim (.error (.errc .invalidArgument))
        fun groups => ofMatches makeAddressV4 makeAddressV6 groups 1 2)
      fun groups => ofMatches makeAddressV4 makeAddressV6 groups 1 4

end

end IPEndpoint

/-! ## What is read -/

section
variable (makeAddressV4 : Bytes → Option (Octets 4)) (makeAddressV6 : Bytes → Option (Octets 16))

theorem IPAddress.fromString_quad {q : Bytes} (hq : IsQuad q) :
    IPAddress.fromString makeAddressV4 makeAddressV6 q = orBadAddress ((makeAddressV4 q).map .v4) := by
  have hnone : ∀ d ∈ (none : Option Bytes), IsNumber d := by simp
  have h₁ := kIPv6IPv4Pattern_quad hq hnone
  have h₂ : kIPv6Pattern.fullMatch q = none :=
    Regex.fullMatch_eq_none_iff.mpr fun gs h => kIPv6Pattern_notMem h hq.mem.1
  have h₃ := kIPv4Pattern_quad hq hnone
  rw [portText, Option.elim_none, List.append_nil] at h₁ h₃
  have hne : q.isEmpty = false := List.isEmpty_eq_false_iff.mpr (List.ne_nil_of_mem hq.mem.1)
  simp only [IPAddress.fromString, hne, h₁, h₂, h₃]
  rfl

theorem IPAddress.fromString_hex {t : Bytes} (ht : IsHexText t) :
    IPAddress.fromString makeAddressV4 makeAddressV6 t = orBadAddress ((makeAddressV6 t).map .v6) := by
  have h₁ : kIPv6IPv4Pattern.fullMatch t = none :=
    Regex.fullMatch_eq_none_iff.mpr fun gs h => ht.notMem rfl (kIPv6IPv4Pattern_mem h).1
  have hne : t.isEmpty = false := List.isEmpty_eq_false_iff.mpr ht.1
  simp only [IPAddress.fromString, hne, h₁, kIPv6Pattern_bare ht]
  rfl

theorem IPAddress.fromString_mapped {m q : Bytes} (hm : m.map Hex.toLower = ascii "::ffff:") (hq : IsQuad q) :
    IPAddress.fromString makeAddressV4 makeAddressV6 (m ++ q) =
      orBadAddress (((makeAddressV6 (m ++ q)).bind toV4).map .v4) := by
  have hne : (m ++ q).isEmpty = false :=
    List.isEmpty_eq_false_iff.mpr (List.ne_nil_of_mem (List.mem_append_right m hq.mem.1))
  simp only [IPAddress.fromString, hne, kIPv6IPv4Pattern_bare hm hq]
  rfl

namespace IPEndpoint

theorem fromString_quad {q p : Bytes} (hq : IsQuad q) (hp : IsNumber p) :
    fromString makeAddressV4 makeAddressV6 (q ++ 58 :: p) =
      orBadAddress ((makeAddressV4 q).map .v4) >>= fun address => withPort address (some p) := by
  have hport : ∀ d ∈ some p, IsNumber d := by simpa using hp
  have h₁ := kIPv6IPv4Pattern_quad hq hport
  have h₂ := kIPv4Pattern_quad hq hport
  rw [portText, Option.elim_some] at h₁ h₂
  have hne : (q ++ 58 :: p).isEmpty = false := by simp
  rw [← IPAddress.fromString_quad makeAddressV4 makeAddressV6 hq]
  simp only [fromString, hne, h₁, h₂, Option.elim_none]
  rfl

theorem fromString_hex {t p : Bytes} (ht : IsHexText t) (hp : IsNumber p) :
    fromString makeAddressV4 makeAddressV6 (91 :: t ++ 93 :: 58 :: p) =
      orBadAddress ((makeAddressV6 t).map .v6) >>= fun address => withPort address (some p) := by
  have hport : ∀ d ∈ some p, IsNumber d := by simpa using hp
  have h₁ := kIPv6IPv4Pattern_between_none ht.not_isMapped hport
  have h₂ : kIPv4Pattern.fullMatch (91 :: t ++ 93 :: 58 :: p) = none := kIPv4Pattern_bracket _
  have h₃ := kIPv6Pattern_between ht hport
  rw [portText, Option.elim_some] at h₁ h₃
  have hne : (91 :: t ++ 93 :: 58 :: p).isEmpty = false := by simp
  rw [← IPAddress.fromString_hex makeAddressV4 makeAddressV6 ht]
  simp only [fromString, hne, h₁, h₂, h₃, Option.elim_none, Option.none_or]
  rfl

/-- The port of an IPv4-mapped address is looked for in a group that the pattern does not have. -/
theorem fromString_mapped {t p : Bytes} (ht : IsMapped t) (hp : IsNumber p) :
    fromString makeAddressV4 makeAddressV6 (91 :: t ++ 93 :: 58 :: p) =
      orBadAddress (((makeAddressV6 t).bind toV4).map .v4) >>= fun address => .ok { address := address } := by
  obtain ⟨m, q, rfl, hm, hq⟩ := ht
  have h := kIPv6IPv4Pattern_between hm hq (show ∀ d ∈ some p, IsNumber d by simpa using hp)
  rw [portText, Option.elim_some] at h
  have hne : (91 :: (m ++ q) ++ 93 :: 58 :: p).isEmpty = false := by simp
  rw [← IPAddress.fromString_mapped makeAddressV4 makeAddressV6 hm hq]
  simp only [fromString, hne, h, Option.elim_some]
  rfl

/-- The patterns have no other IPv6 address with an IPv4 tail. -/
theorem fromString_dotted {t p : Bytes} (hhex : ¬ IsHexText t) (hmapped : ¬ IsMapped t) (hp : IsNumber p) :
    fromString makeAddressV4 makeAddressV6 (91 :: t ++ 93 :: 58 :: p) = .error (.errc .invalidArgument) := by
  have hport : ∀ d ∈ some p, IsNumber d := by simpa using hp
  have h₁ := kIPv6IPv4Pattern_between_none hmapped hport
  have h₂ : kIPv4Pattern.fullMatch (91 :: t ++ 93 :: 58 :: p) = none := kIPv4Pattern_bracket _
  have h₃ := kIPv6Pattern_between_none hhex hport
  rw [portText, Option.elim_some] at h₁ h₃
  have hne : (91 :: t ++ 93 :: 58 :: p).isEmpty = false := by simp
  simp only [fromString, hne, h₁, h₂, h₃, Option.elim_none, Option.none_or]
  rfl

theorem withPort_some_eq_ok_iff {address : IPAddress} {p : Bytes} (hp : IsNumber p) {e : IPEndpoint} :
    withPort address (some p) = .ok e ↔
      decimalVal p < 65535 ∧ { address := address, port := UInt16.ofNat (decimalVal p) } = e := by
  rw [withPort, Option.elim_some, lexicalCast64]
  by_cases hfits : decimalVal p < 2 ^ 64
  · rw [if_pos ⟨hp.1, hp.2, hfits⟩, Option.elim_some]
    split_ifs with hlarge
    · simp [hlarge]
    · simp [Nat.lt_of_not_le hlarge]
  · rw [if_neg fun h => hfits h.2.2, Option.elim_none]
    simp
    omega

theorem orBadAddress_bind_eq_ok_iff {o : Option IPAddress} {f : IPAddress → Result IPEndpoint} {e : IPEndpoint} :
    (orBadAddress o >>= f) = .ok e ↔ ∃ address, o = some address ∧ f address = .ok e := by
  rw [bind_eq_ok_iff]
  cases o with
  | none => simp [orBadAddress]
  | some address => simp [orBadAddress]

end IPEndpoint

end

/-! ## Round trips -/

theorem octet_matches (b : UInt8) : (Regex.many true 1 (some 3) isDigit).Matches (decimal b.toNat) [] := by
  have hlt := b.toNat_lt
  refine ⟨decimal_digits _, List.length_pos_iff.mpr (decimal_ne_nil _), ?_, rfl⟩
  rintro _ ⟨⟩
  exact length_decimal_le (by decide) (by omega)

theorem isQuad_inetNtop4 (bytes : Octets 4) : IsQuad (inetNtop4 bytes) := by
  obtain ⟨a, b, c, d, hbytes⟩ := List.length_eq_four.mp bytes.property
  have htext : inetNtop4 bytes =
      decimal a.toNat ++ ([46] ++ (decimal b.toNat ++ ([46] ++ (decimal c.toNat ++ ([46] ++ decimal d.toNat))))) := by
    simp [inetNtop4, hbytes, List.intercalate]
  have hdot : (Regex.one fun c : UInt8 => decide (c = 46)).Matches [46] [] := ⟨⟨46, rfl, rfl⟩, rfl⟩
  rw [htext]
  exact ⟨_, _, [], [], octet_matches a, ⟨_, _, [], [], hdot, ⟨_, _, [], [], octet_matches b, ⟨_, _, [], [], hdot,
    ⟨_, _, [], [], octet_matches c, ⟨_, _, [], [], hdot, octet_matches d, rfl, rfl⟩, rfl, rfl⟩, rfl, rfl⟩, rfl, rfl⟩,
    rfl, rfl⟩, rfl, rfl⟩

theorem isHexOrColon_of_digitOf {c : UInt8} {d : Nat} (h : Hex.digitOf c = some d) : isHexOrColon c := by
  unfold Hex.digitOf at h
  simp only [isHexOrColon, isDigit, Bool.or_eq_true, Bool.and_eq_true, decide_eq_true_eq]
  split_ifs at h <;> simp [*]

theorem isHexOrColon_joinWords (ws : List Nat) : ∀ c ∈ joinWords ws, isHexOrColon c := by
  have hword : ∀ w, ∀ c ∈ hexText w, isHexOrColon c := by
    intro w c hc
    obtain ⟨d, hd⟩ := digitOf_hexText w c hc
    exact isHexOrColon_of_digitOf hd
  induction ws with
  | nil => exact fun c hc => by cases hc
  | cons w ws ih =>
      by_cases hws : ws = []
      · rw [hws, joinWords_singleton]
        exact hword w
      · rw [joinWords_cons w hws]
        intro c hc
        rcases List.mem_append.mp hc with hc | hc
        · exact hword w c hc
        · rcases List.mem_cons.mp hc with rfl | hc
          · rfl
          · exact ih c hc

theorem isHexText_inetNtop6 {bytes : Octets 16}
    (h : ∀ run ∈ bestRun (words bytes.val), ¬ HasTail (words bytes.val) run) :
    IsHexText (inetNtop6 bytes) := by
  cases hrun : bestRun (words bytes.val) with
  | none =>
      have hne : words bytes.val ≠ [] :=
        List.ne_nil_of_length_pos (by rw [length_words, bytes.property]; decide)
      rw [inetNtop6_none hrun]
      exact ⟨mt joinWords_eq_nil_iff.mp hne, isHexOrColon_joinWords _⟩
  | some run =>
      rw [inetNtop6_some hrun (h run hrun)]
      refine ⟨by simp, fun c hc => ?_⟩
      rcases List.mem_append.mp hc with hc | hc
      · exact isHexOrColon_joinWords _ c hc
      · rcases List.mem_cons.mp hc with rfl | hc
        · rfl
        · rcases List.mem_cons.mp hc with rfl | hc
          · rfl
          · exact isHexOrColon_joinWords _ c hc

theorem inetNtop6_of_hasDottedTail {bytes : Octets 16} (h : HasDottedTail bytes) :
    inetNtop6 bytes = 58 :: 58 :: inetNtop4 (Octets.ofBytes 4 (bytes.val.drop 12)) := by
  have htail : HasTail (words bytes.val) (0, 6) := ⟨rfl, .inl rfl⟩
  simp only [inetNtop6, bestRun_of_hasDottedTail h, Option.elim_some, if_pos htail]
  rfl

/-- The text of the address has an IPv4 tail. -/
def IPAddress.PrintsDotted : IPAddress → Prop
  | v4 _ => False
  | v6 bytes => HasDottedTail bytes

def IPAddress.IsMappedV6 : IPAddress → Prop
  | v4 _ => False
  | v6 bytes => IsMappedAddress bytes

instance : (address : IPAddress) → Decidable address.PrintsDotted
  | .v4 _ => inferInstanceAs (Decidable False)
  | .v6 bytes => inferInstanceAs (Decidable (HasDottedTail bytes))

instance : (address : IPAddress) → Decidable address.IsMappedV6
  | .v4 _ => inferInstanceAs (Decidable False)
  | .v6 bytes => inferInstanceAs (Decidable (IsMappedAddress bytes))

namespace IPEndpoint
variable {makeAddressV4 : Bytes → Option (Octets 4)} {makeAddressV6 : Bytes → Option (Octets 16)}

theorem isNumber_decimal (n : Nat) : IsNumber (decimal n) := ⟨decimal_ne_nil n, decimal_digits n⟩

theorem withPort_decimal (address : IPAddress) {port : UInt16} (h : port.toNat < 65535) :
    withPort address (some (decimal port.toNat)) = .ok { address := address, port := port } := by
  rw [withPort_some_eq_ok_iff (isNumber_decimal _), decimalVal_decimal, UInt16.ofNat_toNat]
  exact ⟨h, rfl⟩

theorem toNat_port_lt {e : IPEndpoint} (h : e.isValid) : e.port.toNat < 65535 := by
  simp only [isValid, Bool.and_eq_true, decide_eq_true_eq] at h
  exact UInt16.lt_iff_toNat_lt.mp h.2

theorem toString_v6 (bytes : Octets 16) (port : UInt16) :
    toString ⟨.v6 bytes, port⟩ = 91 :: inetNtop6 bytes ++ 93 :: 58 :: decimal port.toNat := by
  simp only [toString, IPAddress.toString, List.append_assoc]
  rfl

theorem fromString_printsDotted {bytes : Octets 16} (h : HasDottedTail bytes) (port : UInt16) :
    fromString makeAddressV4 makeAddressV6 (toString ⟨.v6 bytes, port⟩) = .error (.errc .invalidArgument) := by
  have hquad := isQuad_inetNtop4 (Octets.ofBytes 4 (bytes.val.drop 12))
  rw [toString_v6, inetNtop6_of_hasDottedTail h]
  apply fromString_dotted _ _ _ _ (isNumber_decimal _)
  · intro hhex
    exact hhex.notMem (c := 46) rfl (by simp [hquad.mem.1])
  · rintro ⟨m, q, htext, hm, -⟩
    -- A letter in front of the IPv4 address would be one of its digits.
    have hletter : (102 : UInt8) ∈ m.map Hex.toLower := by rw [hm, mappedWord]; decide
    obtain ⟨c, hc, hlower⟩ := List.mem_map.mp hletter
    have hmem : c ∈ 58 :: 58 :: inetNtop4 (Octets.ofBytes 4 (bytes.val.drop 12)) := by
      rw [htext]
      exact List.mem_append_left q hc
    refine toLower_ne_of_quad ?_ hlower
    rcases List.mem_cons.mp hmem with rfl | hmem
    · exact .inr (.inl rfl)
    · rcases List.mem_cons.mp hmem with rfl | hmem
      · exact .inr (.inl rfl)
      · exact (hquad.mem.2 c hmem).imp_right .inr

theorem fromString_toString_v4 (h₄ : ∀ s b, inetPton4 s = some b → makeAddressV4 s = some b) (bytes : Octets 4)
    {port : UInt16} (hport : port.toNat < 65535) :
    fromString makeAddressV4 makeAddressV6 (toString ⟨.v4 bytes, port⟩) = .ok ⟨.v4 bytes, port⟩ := by
  have htext : toString ⟨.v4 bytes, port⟩ = inetNtop4 bytes ++ 58 :: decimal port.toNat := by
    simp only [toString, IPAddress.toString, List.append_assoc]
    rfl
  rw [htext, fromString_quad _ _ (isQuad_inetNtop4 bytes) (isNumber_decimal _), h₄ _ _ (inetPton4_inetNtop4 bytes)]
  exact withPort_decimal _ hport

theorem fromString_toString_v6 (h₆ : ∀ s b, inetPton6 s = some b → makeAddressV6 s = some b) {bytes : Octets 16}
    (hmapped : ¬ IsMappedAddress bytes) (htail : ¬ HasDottedTail bytes) {port : UInt16} (hport : port.toNat < 65535) :
    fromString makeAddressV4 makeAddressV6 (toString ⟨.v6 bytes, port⟩) = .ok ⟨.v6 bytes, port⟩ := by
  have hplain : ∀ run ∈ bestRun (words bytes.val), ¬ HasTail (words bytes.val) run := fun run hrun hhas =>
    (hasTail_cases hrun hhas).elim htail hmapped
  rw [toString_v6, fromString_hex _ _ (isHexText_inetNtop6 hplain) (isNumber_decimal _),
    h₆ _ _ (inetPton6_inetNtop6 hplain)]
  exact withPort_decimal _ hport

end IPEndpoint

/-- **Round trip.** A valid endpoint outside `::ffff:0:0/96` is read back from its text unless the address in it has an
IPv4 tail, which no pattern accepts. -/
theorem endpoint_roundTrip_iff {makeAddressV4 : Bytes → Option (Octets 4)} {makeAddressV6 : Bytes → Option (Octets 16)}
    (h₄ : ∀ s b, inetPton4 s = some b → makeAddressV4 s = some b)
    (h₆ : ∀ s b, inetPton6 s = some b → makeAddressV6 s = some b) {e : IPEndpoint} (hvalid : e.isValid)
    (hmapped : ¬ e.address.IsMappedV6) :
    IPEndpoint.fromString makeAddressV4 makeAddressV6 e.toString = .ok e ↔ ¬ e.address.PrintsDotted := by
  have hport := IPEndpoint.toNat_port_lt hvalid
  obtain ⟨bytes | bytes, port⟩ := e
  · exact iff_of_true (IPEndpoint.fromString_toString_v4 h₄ bytes hport) not_false
  · constructor
    · intro hok htail
      rw [IPEndpoint.fromString_printsDotted htail] at hok
      cases hok
    · exact fun htail => IPEndpoint.fromString_toString_v6 h₆ hmapped htail hport

theorem endpoint_roundTrip_loopback :
    IPEndpoint.fromString inetPton4 inetPton6
        (IPEndpoint.toString ⟨.v6 ⟨[0, 0, 0, 0, 0, 0, 0, 0, 0, 0, 0, 0, 0, 0, 0, 1], rfl⟩, 8333⟩) =
      .ok ⟨.v6 ⟨[0, 0, 0, 0, 0, 0, 0, 0, 0, 0, 0, 0, 0, 0, 0, 1], rfl⟩, 8333⟩ :=
  (endpoint_roundTrip_iff (fun _ _ h => h) (fun _ _ h => h) (by decide) (by decide)).mpr (by decide)

/-- `::1.2.3.4`, port 8333. -/
def compatibleEndpoint : IPEndpoint := ⟨.v6 ⟨[0, 0, 0, 0, 0, 0, 0, 0, 0, 0, 0, 0, 1, 2, 3, 4], rfl⟩, 8333⟩

theorem compatible_endpoint_not_read_back :
    compatibleEndpoint.isValid ∧ ¬ compatibleEndpoint.address.IsMappedV6 ∧
      compatibleEndpoint.toString = ascii "[::1.2.3.4]:8333" ∧
      ∀ makeAddressV4 makeAddressV6,
        IPEndpoint.fromString makeAddressV4 makeAddressV6 compatibleEndpoint.toString =
          .error (.errc .invalidArgument) :=
  ⟨by decide, by decide, by decide +kernel, fun _ _ => IPEndpoint.fromString_printsDotted (by decide) _⟩

/-! ## Ports -/

/-- What stands for a host in front of the colon of a port: an IPv4 address, or a text between brackets. -/
inductive HostText where
  | v4 (quad : Bytes) (h : IsQuad quad)
  | v6 (t : Bytes)

namespace HostText

def text : HostText → Bytes
  | v4 quad _ => quad
  | v6 t => ascii "[" ++ t ++ ascii "]"

section
variable (makeAddressV4 : Bytes → Option (Octets 4)) (makeAddressV6 : Bytes → Option (Octets 16))

def WellFormed : HostText → Prop
  | v4 quad _ => (makeAddressV4 quad).isSome
  | v6 t => (makeAddressV6 t).isSome

/-- The port is read from the text, and a port below 65535 is read from every host that is well formed. -/
def KeepsPort (host : HostText) (p : Bytes) : Prop :=
  (∀ e, IPEndpoint.fromString makeAddressV4 makeAddressV6 (host.text ++ ascii ":" ++ p) = .ok e →
    e.port.toNat = decimalVal p) ∧
  (host.WellFormed makeAddressV4 makeAddressV6 → decimalVal p < 65535 →
    ∃ e, IPEndpoint.fromString makeAddressV4 makeAddressV6 (host.text ++ ascii ":" ++ p) = .ok e)

/-- There is no IPv4 tail between the brackets; or it does no harm, since the port of an IPv4-mapped address is the one
that is returned, or since the text is to be refused in any case. -/
def PortSafe (port : Nat) : HostText → Prop
  | v4 _ _ => True
  | v6 t => IsHexText t ∨ makeAddressV6 t = none ∨ IsMapped t ∧ port = 0 ∨ ¬ IsMapped t ∧ 65535 ≤ port

end

end HostText

/-! ### IPv4-mapped addresses as the library reads them -/

theorem mapM_eq_none {α β : Type} {f : α → Option β} {l : List α} {x : α} (hx : x ∈ l) (hf : f x = none) :
    l.mapM f = none := by
  induction l with
  | nil => cases hx
  | cons y l ih =>
      rw [List.mapM_cons]
      rcases List.mem_cons.mp hx with rfl | hx
      · rw [hf]
        rfl
      · rw [ih hx]
        cases f y <;> rfl

theorem readHex16_quad {q : Bytes} (hq : IsQuad q) : readHex16 q = none := by
  rw [readHex16, mapM_eq_none hq.mem.1 rfl]
  rfl

theorem digitOf_of_toLower {c : UInt8} (h : Hex.toLower c = 102) : Hex.digitOf c = some 15 := by
  rw [Hex.toLower_eq_iff, show (102 : UInt8).toNat = 102 from rfl] at h
  rcases show c.toNat = 70 ∨ c.toNat = 102 by split_ifs at h <;> omega with hc | hc
  · simp [Hex.digitOf, hc]
  · simp [Hex.digitOf, hc]

theorem mapped_eq {m : Bytes} (hm : m.map Hex.toLower = ascii "::ffff:") :
    ∃ f : Bytes, f.map Hex.toLower = List.replicate 4 102 ∧ m = 58 :: 58 :: f ++ [58] := by
  simp only [mappedWord, List.map_eq_cons_iff, List.map_eq_nil_iff] at hm
  obtain ⟨c₁, _, rfl, h₁, c₂, _, rfl, h₂, a, _, rfl, ha, b, _, rfl, hb, c, _, rfl, hc, d, _, rfl, hd,
    c₃, _, rfl, h₃, rfl⟩ := hm
  refine ⟨[a, b, c, d], ?_, ?_⟩
  · simp only [List.map_cons, List.map_nil, ha, hb, hc, hd]
    rfl
  · rw [eq_colon_of_toLower h₁, eq_colon_of_toLower h₂, eq_colon_of_toLower h₃]
    rfl

theorem readHex16_mapped {f : Bytes} (hf : f.map Hex.toLower = List.replicate 4 102) : readHex16 f = some 0xFFFF := by
  have hdigit : ∀ c ∈ f, Hex.digitOf c = some 15 := fun c hc =>
    digitOf_of_toLower (List.eq_of_mem_replicate (n := 4) (hf ▸ List.mem_map_of_mem hc))
  obtain ⟨a, b, c, d, rfl⟩ : ∃ a b c d, f = [a, b, c, d] :=
    List.length_eq_four.mp (by rw [← List.length_map Hex.toLower, hf, List.length_replicate])
  simp only [List.forall_mem_cons] at hdigit
  obtain ⟨ha, hb, hc, hd, -⟩ := hdigit
  simp only [readHex16, List.mapM_cons, ha, hb, hc, hd]
  rfl

theorem readGroups_mapped {f q : Bytes} (hf : f.map Hex.toLower = List.replicate 4 102) (hq : IsQuad q) :
    readGroups (f ++ 58 :: q) = (inetPton4 q).map fun bytes => 0xFFFF :: words bytes.val := by
  have hcolon : 58 ∉ f := by
    intro hmem
    have hlower : Hex.toLower 58 ∈ List.replicate 4 102 := hf ▸ List.mem_map_of_mem hmem
    cases List.eq_of_mem_replicate hlower
  have hsplit : (f ++ 58 :: q).splitOn 58 = [f, q] := by
    rw [show f ++ 58 :: q = [58].intercalate [f, q] by simp [List.intercalate]]
    apply List.splitOn_intercalate
    · rintro s hs
      rcases List.mem_pair.mp hs with rfl | rfl
      · exact hcolon
      · exact hq.notMem (by decide) (by decide)
    · simp
  have hfront : [f].mapM readHex16 = some [0xFFFF] := by
    rw [List.mapM_cons, readHex16_mapped hf]
    rfl
  have hlast : readLast q = (inetPton4 q).map fun bytes => words bytes.val := by
    rw [readLast, readHex16_quad hq]
    rfl
  simp only [readGroups, hsplit]
  rw [show [f, q].dropLast = [f] from rfl, hfront, Option.bind_some, show [f, q].getLastD [] = q from rfl, hlast,
    Option.map_map]
  rfl

/-- `::ffff:` is five zero words and a word of ones. -/
theorem toV4_of_inetPton6 {t : Bytes} {b : Octets 16} (ht : IsMapped t) (hb : inetPton6 t = some b) :
    (toV4 b).isSome := by
  obtain ⟨m, q, rfl, hm, hq⟩ := ht
  obtain ⟨f, hf, rfl⟩ := mapped_eq hm
  have hsplit : splitDouble (58 :: 58 :: f ++ [58] ++ q) = some ([], f ++ 58 :: q) := by
    simp [splitDouble]
  have hright : readRight (f ++ 58 :: q) = (inetPton4 q).map fun bytes => 0xFFFF :: words bytes.val := by
    rw [readRight, if_neg (by simp), readGroups_mapped hf hq]
  rw [inetPton6, hsplit, Option.elim_some, hright, readLeft, if_pos rfl, Option.bind_some] at hb
  obtain ⟨right, hright, hb⟩ := Option.bind_eq_some_iff.mp hb
  obtain ⟨bytes, -, rfl⟩ := Option.map_eq_some_iff.mp hright
  obtain ⟨v, w, hvw⟩ := List.length_eq_two.mp (show (words bytes.val).length = 2 by rw [length_words, bytes.property])
  rw [hvw] at hb
  obtain rfl := Option.some.inj hb
  rfl

section
variable {makeAddressV4 : Bytes → Option (Octets 4)} {makeAddressV6 : Bytes → Option (Octets 16)}

theorem HostText.text_v6 (t p : Bytes) : (HostText.v6 t).text ++ ascii ":" ++ p = 91 :: t ++ 93 :: 58 :: p := by
  simp only [HostText.text, List.append_assoc]
  rfl

theorem HostText.text_v4 (quad : Bytes) (h : IsQuad quad) (p : Bytes) :
    (HostText.v4 quad h).text ++ ascii ":" ++ p = quad ++ 58 :: p := by
  simp only [HostText.text, List.append_assoc]
  rfl

/-- An address that is read, and its port. -/
theorem HostText.keepsPort_of_withPort {host : HostText} {p : Bytes} (hp : IsNumber p) {o : Option IPAddress}
    (hread : IPEndpoint.fromString makeAddressV4 makeAddressV6 (host.text ++ ascii ":" ++ p) =
      orBadAddress o >>= fun address => IPEndpoint.withPort address (some p))
    (ho : host.WellFormed makeAddressV4 makeAddressV6 → o.isSome) : host.KeepsPort makeAddressV4 makeAddressV6 p := by
  simp only [HostText.KeepsPort, hread, IPEndpoint.orBadAddress_bind_eq_ok_iff,
    IPEndpoint.withPort_some_eq_ok_iff hp]
  constructor
  · rintro e ⟨address, -, hlt, rfl⟩
    exact Nat.mod_eq_of_lt (by omega)
  · intro hwell hlt
    obtain ⟨address, ho⟩ := Option.isSome_iff_exists.mp (ho hwell)
    exact ⟨_, address, ho, hlt, rfl⟩

theorem HostText.keepsPort_of_ok {host : HostText} {p : Bytes} {e : IPEndpoint}
    (h : IPEndpoint.fromString makeAddressV4 makeAddressV6 (host.text ++ ascii ":" ++ p) = .ok e) :
    host.KeepsPort makeAddressV4 makeAddressV6 p ↔ e.port.toNat = decimalVal p := by
  rw [HostText.KeepsPort, h]
  constructor
  · exact fun hkeeps => hkeeps.1 e rfl
  · intro hport
    refine ⟨?_, fun _ _ => ⟨e, rfl⟩⟩
    rintro _ ⟨⟩
    exact hport

theorem HostText.keepsPort_of_error {host : HostText} {p : Bytes} {stop : Stop}
    (h : IPEndpoint.fromString makeAddressV4 makeAddressV6 (host.text ++ ascii ":" ++ p) = .error stop) :
    host.KeepsPort makeAddressV4 makeAddressV6 p ↔
      (host.WellFormed makeAddressV4 makeAddressV6 → 65535 ≤ decimalVal p) := by
  rw [HostText.KeepsPort, h]
  constructor
  · intro hkeeps hwell
    by_contra hlt
    obtain ⟨e, he⟩ := hkeeps.2 hwell (Nat.lt_of_not_le hlt)
    cases he
  · intro hlarge
    refine ⟨?_, fun hwell hlt => absurd (hlarge hwell) (Nat.not_le.mpr hlt)⟩
    rintro _ ⟨⟩

/-- **The port is kept** behind a host without an IPv4 tail between brackets. The port of an IPv4-mapped address is
always zero, and any other address with such a tail is refused. The library is trusted to convert the addresses that
it reads from IPv4-mapped texts, as `inetPton6` does (`toV4_of_inetPton6`). -/
theorem endpoint_port_kept_iff
    (hmapped : ∀ t b, IsMapped t → makeAddressV6 t = some b → (toV4 b).isSome) (host : HostText) {p : Bytes}
    (hp : IsNumber p) :
    host.KeepsPort makeAddressV4 makeAddressV6 p ↔ host.PortSafe makeAddressV6 (decimalVal p) := by
  cases host with
  | v4 quad hquad =>
      refine iff_of_true (HostText.keepsPort_of_withPort hp (o := (makeAddressV4 quad).map .v4) ?_ ?_) trivial
      · rw [HostText.text_v4, IPEndpoint.fromString_quad _ _ hquad hp]
      · rw [HostText.WellFormed, Option.isSome_map]
        exact id
  | v6 t =>
      by_cases hhex : IsHexText t
      · refine iff_of_true (HostText.keepsPort_of_withPort hp (o := (makeAddressV6 t).map .v6) ?_ ?_) (.inl hhex)
        · rw [HostText.text_v6, IPEndpoint.fromString_hex _ _ hhex hp]
        · rw [HostText.WellFormed, Option.isSome_map]
          exact id
      · by_cases hmap : IsMapped t
        · have hread := IPEndpoint.fromString_mapped makeAddressV4 makeAddressV6 hmap hp
          rw [← HostText.text_v6] at hread
          cases hmake : makeAddressV6 t with
          | none =>
              rw [hmake] at hread
              rw [HostText.keepsPort_of_error hread]
              simp [HostText.WellFormed, HostText.PortSafe, hmake]
          | some b =>
              obtain ⟨bytes, hbytes⟩ := Option.isSome_iff_exists.mp (hmapped t b hmap hmake)
              rw [hmake, Option.bind_some, hbytes] at hread
              rw [HostText.keepsPort_of_ok hread]
              simp [HostText.PortSafe, hhex, hmap, hmake, eq_comm]
        · have hread := IPEndpoint.fromString_dotted makeAddressV4 makeAddressV6 hhex hmap hp
          rw [← HostText.text_v6] at hread
          rw [HostText.keepsPort_of_error hread]
          cases hmake : makeAddressV6 t <;> simp [HostText.WellFormed, HostText.PortSafe, hhex, hmap, hmake]

end

theorem port_kept_loopback : (HostText.v6 (ascii "::1")).KeepsPort inetPton4 inetPton6 (ascii "8333") :=
  (endpoint_port_kept_iff (fun _ _ => toV4_of_inetPton6) _ ⟨by decide +kernel, by decide +kernel⟩).mpr
    (.inl ⟨by decide +kernel, by decide +kernel⟩)

/-- The port of `::ffff:1.2.3.4` is lost, and `::1.2.3.4` is refused. -/
theorem mapped_port_lost :
    IPEndpoint.fromString inetPton4 inetPton6 (ascii "[::ffff:1.2.3.4]:8333") = .ok ⟨IPAddress.ofV4 1 2 3 4, 0⟩ ∧
    (inetPton6 (ascii "::1.2.3.4")).isSome ∧
    IPEndpoint.fromString inetPton4 inetPton6 (ascii "[::1.2.3.4]:8333") = .error (.errc .invalidArgument) := by
  decide +kernel

end Znode.Net
