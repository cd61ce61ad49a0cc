import Mathlib
import Znode.Lib.BigEndian
import Znode.Lib.Bits
import Znode.Net.AddressText

/-!
# Subnets

* `IPSubNet` with `parsePrefixLength`, `fromString`, `contains` and `calculateSubnetBaseAddress`. IPv4 addresses are
  masked as a word, with a shift that is a trap when it is by the width of the word; IPv6 addresses byte by byte;
* `isFront_word`, `isFront_bytes` : masking leaves the bits of the prefix;
* `calculateSubnetBaseAddress_ok` : the base address has the bits of the prefix, for every prefix but the empty one of
  IPv4;
* `subnetBaseRight_iff` : base addresses are right but for that one;
* `contains_ok` : an address is found if masking it gives the base address as it is written;
* `membershipRight_iff` : this is membership unless the base address has bits behind the prefix.
-/

namespace Znode.Net
open Znode.Lib Znode.Core

/-! ## Prefix lengths -/

/-- `^([0-9]{1,3}).([0-9]{1,3}).([0-9]{1,3}).([0-9]{1,3})$`. The points are not escaped: they stand for every character
but the ends of a line. -/
def decimalNotationPattern : Regex UInt8 :=
  let octet := Regex.group (.many true 1 (some 3) isDigit)
  let point := Regex.one fun c => c ≠ 10 && c ≠ 13
  .seq octet <| .seq point <| .seq octet <| .seq point <| .seq octet <| .seq point octet

/-- `^([0-9]{1,3})$`. -/
def cidrNotationPattern : Regex UInt8 := .group (.many true 1 (some 3) isDigit)

def lexicalCast16 (s : Bytes) : Option Nat :=
  if s ≠ [] ∧ AllDigits s ∧ decimalVal s < 2 ^ 16 then some (decimalVal s) else none

def popcount16 (n : Nat) : Nat := (List.range 16).countP (n.testBit ·)

/-- The cases of the `switch` that count. -/
def maskOctets : List Nat := [128, 192, 224, 240, 248, 252, 254, 255]

/-- The loop over the octets of a mask. -/
def addOctets : List Bytes → (zeroFound : Bool) → (ret : Nat) → Result Nat
  | [], _, ret => .ok ret
  | part :: parts, zeroFound, ret =>
    match lexicalCast16 part with
    | none => .error (.errc .invalidArgument)
    | some octet =>
      if octet = 0 then addOctets parts true ret
      else if octet ∈ maskOctets then
        if zeroFound then .error (.errc .illegalByteSequence)
        else addOctets parts zeroFound (ret + popcount16 octet)
      else .error (.errc .invalidArgument)

def parsePrefixLength (input : Bytes) : Result UInt8 :=
  if input.isEmpty then .error (.errc .invalidArgument)
  else
    match decimalNotationPattern.fullMatch input with
    | some groups => (addOctets ([1, 2, 3, 4].map (Regex.str groups)) false 0).map UInt8.ofNat
    | none =>
      match cidrNotationPattern.fullMatch input with
      | none => .error (.errc .invalidArgument)
      | some _ =>
        match lexicalCast16 input with
        | none => .error (.errc .invalidArgument)
        | some ret => if 128 < ret then .error (.errc .valueTooLarge) else .ok (UInt8.ofNat ret)

/-! ## Subnets -/

structure IPSubNet where
  baseAddress : IPAddress := default
  prefixLength : UInt8 := 0
deriving DecidableEq, Repr

def IPAddress.width : IPAddress → Nat
  | v4 _ => 32
  | v6 _ => 128

/-- `0xFFFFFFFFU << n`; a shift by the width of the word is undefined. -/
def shiftedOnes (n : Nat) : Result UInt32 :=
  if n < 32 then .ok (0xFFFFFFFF <<< UInt32.ofNat n) else .error (.trap .shiftTooLarge)

def toUint (bytes : Octets 4) : UInt32 := UInt32.ofNat (beVal bytes.val)

/-- The byte of a prefix that ends in it. -/
def partialMask (bits : Nat) : UInt8 := ((0xFF : UInt32) &&& (0xFF : UInt32) <<< UInt32.ofNat (8 - bits)).toUInt8

/-- The mask of an IPv6 prefix: whole bytes first, then the byte the prefix ends in. -/
def byteMask (prefixLength : Nat) : Bytes :=
  let mask := (List.range (prefixLength / 8)).foldl (fun mask i => mask.set i 0xFF) (List.replicate 16 0)
  if prefixLength % 8 ≠ 0 then mask.set (prefixLength / 8) (partialMask (prefixLength % 8)) else mask

namespace IPSubNet

def isValid (s : IPSubNet) : Bool :=
  s.baseAddress.isValid && 0 < s.prefixLength.toNat && s.prefixLength.toNat ≤ s.baseAddress.width

def contains (s : IPSubNet) (address : IPAddress) : Result Bool :=
  if !s.isValid || (address.isUnspecified || address.isLoopback) then .ok false
  else
    match s.baseAddress, address with
    | .v4 base, .v4 bytes => do
      let mask ← shiftedOnes (32 - s.prefixLength.toNat)
      return toUint bytes &&& mask == toUint base
    | .v4 _, .v6 _ => .ok false
    | .v6 _, .v4 _ => .ok false
    | .v6 base, .v6 bytes =>
      let mask := byteMask s.prefixLength.toNat
      .ok ((List.range 16).all fun i => bytes.val.getD i 0 &&& mask.getD i 0 == base.val.getD i 0)

def containsIPAddress (s : IPSubNet) (address : IPAddress) : Result Bool :=
  if !s.isValid || !address.isValid then .ok false else s.contains address

section
variable (makeAddressV4 : Bytes → Option (Octets 4)) (makeAddressV6 : Bytes → Option (Octets 16))

/-- The base address is kept as it is written, with the bits behind the prefix. -/
def fromString (input : Bytes) : Result IPSubNet :=
  if input.isEmpty then .ok {}
  else
    match input.splitOn 47 with
    | [text] => do
      let address ← IPAddress.fromString makeAddressV4 makeAddressV6 text
      return { baseAddress := address, prefixLength := UInt8.ofNat address.width }
    | [text, length] => do
      let address ← IPAddress.fromString makeAddressV4 makeAddressV6 text
      let parsed ← parsePrefixLength length
      if address.getType = .kIPv4 ∧ 32 < parsed.toNat then .error (.errc .valueTooLarge)
      else .ok { baseAddress := address, prefixLength := parsed }
    | _ => .error (.errc .invalidArgument)

end

end IPSubNet

/-- The bytes of a word, as `calculate_subnet_base_address` takes them out. -/
def wordBytes (w : UInt32) : Octets 4 :=
  ⟨[(w >>> 24 &&& 0xFF).toUInt8, (w >>> 16 &&& 0xFF).toUInt8, (w >>> 8 &&& 0xFF).toUInt8, (w &&& 0xFF).toUInt8], rfl⟩

/-- `calculate_subnet_base_address` of an `ip::address`. -/
def calculateSubnetBaseAddress (address : IPAddress) (prefixLength : Nat) : Result IPAddress :=
  match address with
  | .v4 bytes =>
    if 32 < prefixLength then .error (.errc .valueTooLarge)
    else do
      let mask ← shiftedOnes (32 - prefixLength)
      return .v4 (wordBytes (mask &&& toUint bytes))
  | .v6 bytes =>
    if 128 < prefixLength then .error (.errc .valueTooLarge)
    else .ok (.v6 (Octets.ofBytes 16 (List.zipWith (· &&& ·) bytes.val (byteMask prefixLength))))

def calculateSubnetBaseIPAddress (address : IPAddress) (prefixLength : Nat) : Result IPAddress :=
  if !address.isValid then .error (.errc .invalidArgument) else calculateSubnetBaseAddress address prefixLength

/-! ## Words -/

theorem shiftedOnes_ok {n : Nat} (hn : n < 32) : ∃ mask, shiftedOnes n = .ok mask ∧
    ∀ j < 32, mask.toNat.testBit j = decide (n ≤ j) := by
  refine ⟨_, if_pos hn, fun j hj => ?_⟩
  have hones : (0xFFFFFFFF : UInt32).toNat = 2 ^ 32 - 1 := rfl
  have hshift : (UInt32.ofNat n).toNat % 32 = n := by
    rw [UInt32.toNat_ofNat']
    omega
  rw [UInt32.toNat_shiftLeft, hones, hshift, Nat.testBit_mod_two_pow, Nat.testBit_shiftLeft,
    Nat.testBit_two_pow_sub_one, decide_eq_true hj, decide_eq_true (by omega : j - n < 32), Bool.true_and,
    Bool.and_true]

theorem shiftRight_byte (w : UInt32) {shift : Nat} (hshift : shift < 32) :
    (w >>> UInt32.ofNat shift &&& 0xFF).toUInt8 = UInt8.ofNat (w.toNat / 2 ^ shift) := by
  have hones : (0xFF : UInt32).toNat = 2 ^ 8 - 1 := rfl
  have hmod : (UInt32.ofNat shift).toNat % 32 = shift := by
    rw [UInt32.toNat_ofNat']
    omega
  apply UInt8.toNat_inj.mp
  rw [UInt32.toNat_toUInt8, UInt32.toNat_and, hones, Nat.and_two_pow_sub_one_eq_mod, UInt32.toNat_shiftRight, hmod,
    Nat.shiftRight_eq_div_pow, UInt8.toNat_ofNat', Nat.mod_mod]

theorem wordBytes_eq (w : UInt32) : (wordBytes w).val = beBytes 4 w.toNat := by
  have h0 : (w &&& 0xFF).toUInt8 = UInt8.ofNat w.toNat := by
    simpa using shiftRight_byte w (by decide : 0 < 32)
  simp only [beBytes_succ, wordBytes]
  rw [h0]
  exact congrArg₂ _ (shiftRight_byte w (by decide : 24 < 32))
    (congrArg₂ _ (shiftRight_byte w (by decide : 16 < 32))
      (congrArg₂ _ (shiftRight_byte w (by decide : 8 < 32)) (by simp [beBytes, leBytes])))

theorem toNat_toUint (bytes : Octets 4) : (toUint bytes).toNat = beVal bytes.val := by
  have hlt : beVal bytes.val < 256 ^ 4 := by
    have h := leVal_lt bytes.val.reverse
    rwa [List.length_reverse, bytes.property] at h
  exact UInt32.toNat_ofNat_of_lt' hlt

theorem toUint_wordBytes (w : UInt32) : toUint (wordBytes w) = w := by
  apply UInt32.toNat_inj.mp
  rw [toNat_toUint, wordBytes_eq, beVal_beBytes w.toNat_lt]

theorem wordBytes_toUint (bytes : Octets 4) : wordBytes (toUint bytes) = bytes := by
  apply Subtype.ext
  rw [wordBytes_eq, toNat_toUint, beBytes, beVal, leBytes_leVal (by rw [List.length_reverse, bytes.property]),
    List.reverse_reverse]

theorem bit_wordBytes (w : UInt32) {k : Nat} (hk : k < 32) : bit (wordBytes w).val k = w.toNat.testBit (31 - k) := by
  rw [wordBytes_eq, bit_beBytes _ hk]

/-- Masking a word with `p` ones in front. -/
theorem isFront_word {p : Nat} (hp : p ≤ 32) {mask : UInt32}
    (hmask : ∀ j < 32, mask.toNat.testBit j = decide (32 - p ≤ j)) (bytes : Octets 4) :
    IsFront p bytes.val (wordBytes (mask &&& toUint bytes)).val := by
  refine ⟨(wordBytes _).property.trans bytes.property.symm, fun k => ?_⟩
  by_cases hk : k < 32
  · rw [bit_wordBytes _ hk, UInt32.toNat_and, Nat.testBit_and, hmask _ (by omega), ← bit_wordBytes _ hk,
      wordBytes_toUint, decide_eq_decide.mpr (by omega : 32 - p ≤ 31 - k ↔ k < p)]
  · have hbytes : 8 * bytes.val.length ≤ k := by
      rw [bytes.property]
      omega
    rw [bit_of_length_le hbytes, Bool.and_false, bit_of_length_le]
    rw [(wordBytes _).property]
    omega

/-! ## The mask of bytes -/

theorem foldl_set_ones {n m : Nat} (hm : m ≤ n) :
    (List.range m).foldl (fun mask i => mask.set i 0xFF) (List.replicate n (0 : UInt8)) =
      List.replicate m 0xFF ++ List.replicate (n - m) 0 := by
  induction m with
  | zero => rfl
  | succ m ih =>
      have hrest : n - m = n - (m + 1) + 1 := by omega
      rw [List.range_succ, List.foldl_append, ih (by omega), List.foldl_cons, List.foldl_nil,
        List.set_append_right _ _ (by simp), List.length_replicate, Nat.sub_self, hrest, List.replicate_succ,
        List.set_cons_zero, List.replicate_succ', List.append_assoc]
      rfl

theorem testBit_partialMask : ∀ bits < 8, ∀ j < 8, (partialMask bits).toNat.testBit (7 - j) = decide (j < bits) := by
  decide

theorem bit_byteMask {p : Nat} (hp : p ≤ 128) (k : Nat) : bit (byteMask p) k = decide (k < p) := by
  rw [byteMask, foldl_set_ones (by omega : p / 8 ≤ 16)]
  split_ifs with hpartial
  · have hrest : 16 - p / 8 = 15 - p / 8 + 1 := by omega
    rw [List.set_append_right _ _ (by simp), List.length_replicate, Nat.sub_self, hrest, List.replicate_succ,
      List.set_cons_zero, bit_replicate_append]
    by_cases hk : k - 8 * (p / 8) < 8
    · rw [bit_cons_of_lt _ _ hk, testBit_partialMask _ (Nat.mod_lt p (by decide)) _ hk, ← Bool.decide_or]
      exact decide_eq_decide.mpr (by omega)
    · obtain ⟨j, hj⟩ := Nat.exists_eq_add_of_le' (Nat.le_of_not_lt hk)
      rw [hj, bit_cons_add, bit_zeros, Bool.or_false]
      exact decide_eq_decide.mpr (by omega)
  · rw [bit_replicate_append, bit_zeros, Bool.or_false]
    exact decide_eq_decide.mpr (by omega)

theorem length_byteMask {p : Nat} (hp : p ≤ 128) : (byteMask p).length = 16 := by
  rw [byteMask, foldl_set_ones (by omega : p / 8 ≤ 16)]
  split_ifs <;> simp <;> omega

theorem isFront_bytes {p : Nat} (hp : p ≤ 128) (bytes : Octets 16) :
    IsFront p bytes.val (List.zipWith (· &&& ·) bytes.val (byteMask p)) :=
  isFront_and (bytes.property.trans (length_byteMask hp).symm) fun k _ => bit_byteMask hp k

theorem all_and_iff {a m b : Bytes} {n : Nat} (ha : a.length = n) (hm : m.length = n) (hb : b.length = n) :
    (List.range n).all (fun i => a.getD i 0 &&& m.getD i 0 == b.getD i 0) ↔ List.zipWith (· &&& ·) a m = b := by
  rw [List.all_eq_true]
  constructor
  · intro h
    apply List.ext_getElem (by rw [List.length_zipWith]; omega)
    intro i hi hib
    have hand := h i (List.mem_range.mpr (hb ▸ hib))
    rw [beq_iff_eq, List.getD_eq_getElem _ _ (by omega), List.getD_eq_getElem _ _ (by omega),
      List.getD_eq_getElem _ _ hib] at hand
    rw [List.getElem_zipWith, hand]
  · rintro rfl i hi
    have hin := List.mem_range.mp hi
    rw [beq_iff_eq, List.getD_eq_getElem _ _ (by omega), List.getD_eq_getElem _ _ (by omega),
      List.getD_eq_getElem _ _ (by rw [List.length_zipWith]; omega), List.getElem_zipWith]

/-! ## Base addresses -/

theorem IPAddress.length_toBytes (a : IPAddress) : 8 * a.toBytes.length = a.width := by
  cases a with
  | v4 b => rw [toBytes, b.property, width]
  | v6 b => rw [toBytes, b.property, width]

theorem IPAddress.getType_eq_iff {a b : IPAddress} : a.getType = b.getType ↔ a.toBytes.length = b.toBytes.length := by
  cases a with
  | v4 a =>
      cases b with
      | v4 b => simp [getType, toBytes, a.property, b.property]
      | v6 b => simp [getType, toBytes, a.property, b.property]
  | v6 a =>
      cases b with
      | v4 b => simp [getType, toBytes, a.property, b.property]
      | v6 b => simp [getType, toBytes, a.property, b.property]

theorem IPAddress.toBytes_inj {a b : IPAddress} (h : a.toBytes = b.toBytes) : a = b := by
  have htype := getType_eq_iff.mpr (congrArg List.length h)
  cases a with
  | v4 a =>
      cases b with
      | v4 b => exact congrArg v4 (Subtype.ext h)
      | v6 b => cases htype
  | v6 a =>
      cases b with
      | v4 b => cases htype
      | v6 b => exact congrArg v6 (Subtype.ext h)

/-- The shift of the mask is by the width of a word. -/
def ShiftsOut (a : IPAddress) (p : Nat) : Prop := a.getType = .kIPv4 ∧ p = 0

/-- **The base address** has the bits of the prefix. -/
theorem calculateSubnetBaseAddress_ok {a : IPAddress} {p : Nat} (hp : p ≤ a.width) (hshift : ¬ ShiftsOut a p) :
    ∃ b, calculateSubnetBaseAddress a p = .ok b ∧ IsFront p a.toBytes b.toBytes := by
  cases a with
  | v4 bytes =>
      have hpos : p ≠ 0 := fun h => hshift ⟨rfl, h⟩
      obtain ⟨mask, hmask, hbits⟩ := shiftedOnes_ok (by omega : 32 - p < 32)
      refine ⟨.v4 (wordBytes (mask &&& toUint bytes)), ?_, isFront_word hp hbits bytes⟩
      rw [calculateSubnetBaseAddress, if_neg (show ¬ 32 < p from Nat.not_lt.mpr hp), hmask]
      rfl
  | v6 bytes =>
      refine ⟨_, if_neg (Nat.not_lt.mpr hp), ?_⟩
      have hfront := isFront_bytes hp bytes
      rwa [IPAddress.toBytes, IPAddress.toBytes, Octets.val_ofBytes (hfront.length.trans bytes.property)]

theorem calculateSubnetBaseAddress_eq_ok_iff {a b : IPAddress} {p : Nat} (hp : p ≤ a.width) (hshift : ¬ ShiftsOut a p) :
    calculateSubnetBaseAddress a p = .ok b ↔ IsFront p a.toBytes b.toBytes := by
  obtain ⟨c, hc, hfront⟩ := calculateSubnetBaseAddress_ok hp hshift
  rw [hc, Except.ok.injEq]
  constructor
  · rintro rfl
    exact hfront
  · exact fun hb => IPAddress.toBytes_inj (hfront.unique hb)

theorem calculateSubnetBaseAddress_shiftsOut {a : IPAddress} {p : Nat} (h : ShiftsOut a p) :
    calculateSubnetBaseAddress a p = .error (.trap .shiftTooLarge) := by
  obtain ⟨htype, rfl⟩ := h
  cases a with
  | v4 bytes => rfl
  | v6 bytes => cases htype

theorem calculateSubnetBaseAddress_of_width_lt {a : IPAddress} {p : Nat} (h : a.width < p) :
    calculateSubnetBaseAddress a p = .error (.errc .valueTooLarge) := by
  cases a with
  | v4 bytes => exact if_pos h
  | v6 bytes => exact if_pos h

/-- The base address is found without a shift by the width of a word, it has the bits of the prefix and zeros behind
them, it is its own base address, and it is that of the base address of every longer prefix. -/
def SubnetBaseRight (a : IPAddress) (p : Nat) : Prop :=
  ∃ b, calculateSubnetBaseAddress a p = .ok b ∧ IsFront p a.toBytes b.toBytes ∧
    calculateSubnetBaseAddress b p = .ok b ∧
    ∀ q, p ≤ q → q ≤ a.width → ∃ c, calculateSubnetBaseAddress a q = .ok c ∧ calculateSubnetBaseAddress c p = .ok b

/-- What holds of the width and the family of an address holds of its base addresses. -/
theorem same_family_of_isFront {a b : IPAddress} {p : Nat} (h : IsFront p a.toBytes b.toBytes) :
    b.getType = a.getType ∧ b.width = a.width := by
  refine ⟨IPAddress.getType_eq_iff.mpr h.length, ?_⟩
  rw [← IPAddress.length_toBytes, ← IPAddress.length_toBytes, h.length]

/-- **Base addresses** are right for every address and prefix, but for the empty prefix of IPv4. -/
theorem subnetBaseRight_iff (a : IPAddress) (p : Nat) (hp : p ≤ a.width) :
    SubnetBaseRight a p ↔ ¬ (a.getType = .kIPv4 ∧ p = 0) := by
  constructor
  · rintro ⟨b, hb, -⟩ hshift
    rw [calculateSubnetBaseAddress_shiftsOut hshift] at hb
    cases hb
  · intro hshift
    have hof : ∀ {c : IPAddress} {q : Nat}, IsFront q a.toBytes c.toBytes → p ≤ c.width ∧ ¬ ShiftsOut c p := by
      intro c q hc
      obtain ⟨htype, hwidth⟩ := same_family_of_isFront hc
      exact ⟨hwidth ▸ hp, fun h => hshift ⟨htype ▸ h.1, h.2⟩⟩
    obtain ⟨b, hb, hfront⟩ := calculateSubnetBaseAddress_ok hp hshift
    refine ⟨b, hb, hfront, ?_, fun q hpq hq => ?_⟩
    · exact (calculateSubnetBaseAddress_eq_ok_iff (hof hfront).1 (hof hfront).2).mpr hfront.self
    · obtain ⟨c, hc, hfrontc⟩ := calculateSubnetBaseAddress_ok hq fun h => hshift ⟨h.1, by have := h.2; omega⟩
      obtain ⟨d, hd, hfrontd⟩ := calculateSubnetBaseAddress_ok (hof hfrontc).1 (hof hfrontc).2
      refine ⟨c, hc, ?_⟩
      rw [hd, Except.ok.injEq]
      exact IPAddress.toBytes_inj ((hfrontc.comp hfrontd hpq).unique hfront)

theorem subnetBaseRight_group : SubnetBaseRight (.ofV4 8 8 4 4) 16 :=
  (subnetBaseRight_iff (.ofV4 8 8 4 4) 16 (by decide)).mpr (by decide)

/-- The empty prefix of an IPv4 address: a shift by 32 bits. -/
theorem empty_prefix_shifts_out :
    calculateSubnetBaseAddress (.ofV4 8 8 4 4) 0 = .error (.trap .shiftTooLarge) ∧
      ¬ SubnetBaseRight (.ofV4 8 8 4 4) 0 := by
  have htrap : calculateSubnetBaseAddress (.ofV4 8 8 4 4) 0 = .error (.trap .shiftTooLarge) :=
    calculateSubnetBaseAddress_shiftsOut ⟨rfl, rfl⟩
  refine ⟨htrap, ?_⟩
  rintro ⟨b, hb, -⟩
  rw [htrap] at hb
  cases hb

/-! ## Membership -/

namespace IPSubNet

/-- The address is of the family of the base address and has its bits, as many as the prefix is long. -/
def Includes (s : IPSubNet) (a : IPAddress) : Prop :=
  a.getType = s.baseAddress.getType ∧ Agree s.prefixLength.toNat s.baseAddress.toBytes a.toBytes

instance (s : IPSubNet) (a : IPAddress) : Decidable (s.Includes a) :=
  inferInstanceAs (Decidable (_ ∧ _))

theorem isValid_iff {s : IPSubNet} : s.isValid ↔
    s.baseAddress.isValid ∧ 0 < s.prefixLength.toNat ∧ s.prefixLength.toNat ≤ s.baseAddress.width := by
  simp [isValid, and_assoc]

section
variable {s : IPSubNet} {a : IPAddress} (hvalid : s.isValid) (hspecified : a.isUnspecified = false)
  (hloopback : a.isLoopback = false)
include hvalid hspecified hloopback

/-- **What `contains` tests**: whether the base address is the address with the bits of the prefix only. -/
theorem contains_ok : ∃ r, s.contains a = .ok r ∧
    (r = true ↔ IsFront s.prefixLength.toNat a.toBytes s.baseAddress.toBytes) := by
  obtain ⟨base, length⟩ := s
  obtain ⟨-, hpos, hlength⟩ := isValid_iff.mp hvalid
  have hguard : (!isValid ⟨base, length⟩ || (a.isUnspecified || a.isLoopback)) = false := by
    rw [hvalid, hspecified, hloopback]
    rfl
  unfold contains
  rw [hguard]
  cases base with
  | v4 base =>
      cases a with
      | v4 bytes =>
          have hpos' : 0 < length.toNat := hpos
          have hlength' : length.toNat ≤ 32 := hlength
          obtain ⟨mask, hmask, hbits⟩ := shiftedOnes_ok (by omega : 32 - length.toNat < 32)
          have hfront := isFront_word hlength' hbits bytes
          refine ⟨toUint bytes &&& mask == toUint base, by simp only [hmask]; rfl, ?_⟩
          rw [beq_iff_eq, UInt32.and_comm]
          constructor
          · intro heq
            rwa [heq, wordBytes_toUint] at hfront
          · intro hbase
            rw [← toUint_wordBytes (mask &&& toUint bytes), Subtype.ext (hfront.unique hbase)]
      | v6 bytes =>
          refine ⟨false, rfl, iff_of_false (by decide) fun h => ?_⟩
          cases (same_family_of_isFront h).1
  | v6 base =>
      cases a with
      | v4 bytes =>
          refine ⟨false, rfl, iff_of_false (by decide) fun h => ?_⟩
          cases (same_family_of_isFront h).1
      | v6 bytes =>
          have hlength' : length.toNat ≤ 128 := hlength
          have hfront := isFront_bytes hlength' bytes
          refine ⟨_, rfl, (all_and_iff bytes.property (length_byteMask hlength') base.property).trans ?_⟩
          constructor
          · intro heq
            rwa [heq] at hfront
          · exact fun hbase => hfront.unique hbase

theorem contains_iff : ∃ r, s.contains a = .ok r ∧ (r = true ↔
    IsFront s.prefixLength.toNat s.baseAddress.toBytes s.baseAddress.toBytes ∧ s.Includes a) := by
  obtain ⟨r, hr, hfront⟩ := contains_ok hvalid hspecified hloopback
  refine ⟨r, hr, hfront.trans (isFront_iff.trans ?_)⟩
  rw [Includes, IPAddress.getType_eq_iff, eq_comm (a := a.toBytes.length)]

end

/-- The two overloads test the same. -/
theorem containsIPAddress_eq (s : IPSubNet) (a : IPAddress) : s.containsIPAddress a = s.contains a := by
  have hany : a.isAny = a.isUnspecified := by cases a <;> rfl
  unfold containsIPAddress contains IPAddress.isValid
  rw [hany, Bool.or_self, Bool.not_not]
  cases s.isValid <;> cases a.isUnspecified <;> rfl

/-- The base addresses are the same if the bits of the prefix are. -/
theorem base_eq_iff {s : IPSubNet} (hvalid : s.isValid) (a : IPAddress) :
    calculateSubnetBaseAddress s.baseAddress s.prefixLength.toNat =
      calculateSubnetBaseAddress a s.prefixLength.toNat ↔ s.Includes a := by
  obtain ⟨-, hpos, hlength⟩ := isValid_iff.mp hvalid
  have hshift : ∀ x : IPAddress, ¬ ShiftsOut x s.prefixLength.toNat := fun x h => hpos.ne' h.2
  obtain ⟨b, hb, hfront⟩ := calculateSubnetBaseAddress_ok hlength (hshift _)
  rw [hb, Includes, IPAddress.getType_eq_iff]
  by_cases hwidth : s.prefixLength.toNat ≤ a.width
  · obtain ⟨c, hc, hfrontc⟩ := calculateSubnetBaseAddress_ok hwidth (hshift a)
    rw [hc, Except.ok.injEq]
    constructor
    · rintro rfl
      have hlen := hfrontc.length.symm.trans hfront.length
      exact ⟨hlen, (hfront.eq_iff_agree hfrontc hlen.symm).mp rfl⟩
    · rintro ⟨hlen, hagree⟩
      exact IPAddress.toBytes_inj ((hfront.eq_iff_agree hfrontc hlen.symm).mpr hagree)
  · -- the prefix is one of IPv6, the address one of IPv4
    rw [calculateSubnetBaseAddress_of_width_lt (Nat.lt_of_not_le hwidth)]
    refine iff_of_false nofun fun h => hwidth ?_
    rwa [← IPAddress.length_toBytes, h.1, IPAddress.length_toBytes]

/-- An address is found in the subnet if it is of the family of the base address and has its first bits, which is if
their base addresses are the same. -/
def MembershipRight (s : IPSubNet) (a : IPAddress) : Prop :=
  ∃ r, s.contains a = .ok r ∧ (r = true ↔ s.Includes a) ∧
    (r = true ↔ calculateSubnetBaseAddress s.baseAddress s.prefixLength.toNat =
      calculateSubnetBaseAddress a s.prefixLength.toNat)

/-- **Membership** is what it should be if the base address has no bits behind the prefix, or the address is not of the
subnet; a base address that has such bits hides every address of its subnet. -/
theorem membershipRight_iff (s : IPSubNet) (a : IPAddress) (hvalid : s.isValid) (hspecified : a.isUnspecified = false)
    (hloopback : a.isLoopback = false) : s.MembershipRight a ↔
      IsFront s.prefixLength.toNat s.baseAddress.toBytes s.baseAddress.toBytes ∨ ¬ s.Includes a := by
  obtain ⟨r, hr, hcontains⟩ := contains_iff hvalid hspecified hloopback
  rw [MembershipRight, base_eq_iff hvalid]
  constructor
  · rintro ⟨r', hr', hincludes, -⟩
    obtain rfl : r = r' := Except.ok.inj (hr.symm.trans hr')
    by_contra hno
    obtain ⟨hhost, hin⟩ := not_or.mp hno
    exact hhost (hcontains.mp (hincludes.mpr (not_not.mp hin))).1
  · intro h
    have hincludes : r = true ↔ s.Includes a := by
      rw [hcontains, and_iff_right_iff_imp]
      exact fun hin => h.resolve_right (not_not.mpr hin)
    exact ⟨r, hr, hincludes, hincludes⟩

theorem membershipRight_private :
    MembershipRight { baseAddress := .ofV4 192 168 1 0, prefixLength := 24 } (.ofV4 192 168 1 10) := by
  have hbase : calculateSubnetBaseAddress (.ofV4 192 168 1 0) 24 = .ok (.ofV4 192 168 1 0) := by decide +kernel
  refine (membershipRight_iff _ _ (by decide) (by decide) (by decide)).mpr (.inl ?_)
  exact (calculateSubnetBaseAddress_eq_ok_iff (by decide) fun h => absurd h.2 (by decide)).mp hbase

/-- A subnet written with the address of a host: no address is found in it. -/
theorem host_bits_hide : fromString inetPton4 (fun _ => none) (ascii "192.168.1.1/24") =
      .ok { baseAddress := .ofV4 192 168 1 1, prefixLength := 24 } ∧
    isValid { baseAddress := .ofV4 192 168 1 1, prefixLength := 24 } ∧
    ¬ MembershipRight { baseAddress := .ofV4 192 168 1 1, prefixLength := 24 } (.ofV4 192 168 1 10) := by
  refine ⟨by decide +kernel, by decide, ?_⟩
  rintro ⟨r, hr, hincludes, -⟩
  have hfalse : contains { baseAddress := .ofV4 192 168 1 1, prefixLength := 24 } (.ofV4 192 168 1 10) = .ok false := by
    decide +kernel
  obtain rfl : r = false := Except.ok.inj (hr.symm.trans hfalse)
  exact absurd (hincludes.mpr (by decide)) (by decide)

end IPSubNet

end Znode.Net
