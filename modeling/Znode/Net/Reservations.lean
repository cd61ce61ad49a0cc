import Mathlib
import Znode.Net.SubNet

/-!
# Reserved addresses

The blocks of addresses that an RFC reserves are subnets. `publishedBlocks` has those of the RFCs; the tests of
`address_v4_reservation` and `address_v6_reservation` are membership tests too, and `codedBlocks` has the subnets they
test (`addressReservation_eq_lookup`).

* `lookup` : the tests in turn, where a later one overrides an earlier one. Since no two blocks overlap, an address has
  at most one reservation (`lookup_eq_iff`);
* `addressReservation_eq_iff`, `isRoutable_eq_false_iff` : what the code answers, in terms of the coded blocks;
* `reservations_right_iff` : the addresses for which these are the answers of the published table. Four classes are
  coded with another block.
-/

namespace Znode.Net
open Znode.Lib Znode.Core IPAddressReservationType

/-! ## Subnets that overlap -/

namespace IPSubNet

/-- An address of the one may be in the other. -/
def Overlaps (s s' : IPSubNet) : Prop :=
  s.baseAddress.getType = s'.baseAddress.getType ∧
    Agree (min s.prefixLength.toNat s'.prefixLength.toNat) s.baseAddress.toBytes s'.baseAddress.toBytes

instance (s s' : IPSubNet) : Decidable (s.Overlaps s') := inferInstanceAs (Decidable (_ ∧ _))

theorem Overlaps.symm {s s' : IPSubNet} (h : s.Overlaps s') : s'.Overlaps s :=
  ⟨h.1.symm, Nat.min_comm _ _ ▸ h.2.symm⟩

theorem overlaps_of_includes {s s' : IPSubNet} {a : IPAddress} (h : s.Includes a) (h' : s'.Includes a) :
    s.Overlaps s' :=
  ⟨h.1.symm.trans h'.1, (h.2.mono (Nat.min_le_left _ _)).trans (h'.2.mono (Nat.min_le_right _ _)).symm⟩

theorem includes_of_overlaps {s s' : IPSubNet} {a : IPAddress} (h : s.Overlaps s')
    (hle : s.prefixLength.toNat ≤ s'.prefixLength.toNat) (h' : s'.Includes a) : s.Includes a := by
  obtain ⟨htype, hagree⟩ := h
  rw [Nat.min_eq_left hle] at hagree
  exact ⟨h'.1.trans htype.symm, hagree.trans (h'.2.mono hle)⟩

end IPSubNet

def subnetV4 (a b c d : UInt8) (prefixLength : UInt8) : IPSubNet :=
  { baseAddress := .ofV4 a b c d, prefixLength := prefixLength }

/-- An IPv6 subnet, from the bytes its base address begins with. -/
def subnetV6 (front : Bytes) (prefixLength : UInt8) : IPSubNet :=
  { baseAddress := .v6 (Octets.ofBytes 16 front), prefixLength := prefixLength }

/-! ## The tables -/

def publishedBlocks : IPAddressReservationType → List IPSubNet
  | kNotReserved => []
  | kRFC1918 => [subnetV4 10 0 0 0 8, subnetV4 172 16 0 0 12, subnetV4 192 168 0 0 16]
  | kRFC2544 => [subnetV4 198 18 0 0 15]
  | kRFC6598 => [subnetV4 100 64 0 0 10]
  | kRFC5737 => [subnetV4 192 0 2 0 24, subnetV4 198 51 100 0 24, subnetV4 203 0 113 0 24]
  | kRFC3927 => [subnetV4 169 254 0 0 16]
  | kRFC3849 => [subnetV6 [0x20, 0x01, 0x0D, 0xB8] 32]
  | kRFC3964 => [subnetV6 [0x20, 0x02] 16]
  | kRFC4193 => [subnetV6 [0xFC] 7]
  | kRFC4380 => [subnetV6 [0x20, 0x01, 0x00, 0x00] 32]
  | kRFC4843 => [subnetV6 [0x20, 0x01, 0x00, 0x10] 28]
  | kRFC4862 => [subnetV6 [0xFE, 0x80] 10]
  | kRFC6052 => [subnetV6 [0x00, 0x64, 0xFF, 0x9B] 96]
  | kRFC6145 => [subnetV6 [0, 0, 0, 0, 0, 0, 0, 0, 0xFF, 0xFF, 0, 0] 96]

def codedBlocks : IPAddressReservationType → List IPSubNet
  | kRFC2544 => [subnetV4 192 18 0 0 15]
  | kRFC4862 => [subnetV6 [0xFE, 0x80] 16]
  | kRFC6052 => [subnetV6 [0x00, 0x64, 0xFF, 0x9B] 32]
  | kRFC6145 => [subnetV6 [0x00, 0x00, 0xFF, 0xFF] 128]
  | type => publishedBlocks type

def reservationTypes : List IPAddressReservationType :=
  [kRFC1918, kRFC2544, kRFC6598, kRFC5737, kRFC3927, kRFC3849, kRFC3964, kRFC4193, kRFC4380, kRFC4843, kRFC4862,
    kRFC6052, kRFC6145]

theorem mem_reservationTypes {type : IPAddressReservationType} : type ∈ reservationTypes ↔ type ≠ kNotReserved := by
  cases type <;> decide

def InBlocks (blocks : IPAddressReservationType → List IPSubNet) (type : IPAddressReservationType)
    (a : IPAddress) : Prop :=
  ∃ s ∈ blocks type, s.Includes a

instance (blocks : IPAddressReservationType → List IPSubNet) (type : IPAddressReservationType) (a : IPAddress) :
    Decidable (InBlocks blocks type a) := inferInstanceAs (Decidable (∃ s ∈ blocks type, s.Includes a))

/-- One test after the other; the last that succeeds decides. -/
def lookupReservation (blocks : IPAddressReservationType → List IPSubNet) (a : IPAddress) : IPAddressReservationType :=
  reservationTypes.foldl (fun ret type => if InBlocks blocks type a then type else ret) kNotReserved

def BlocksDisjoint (blocks : IPAddressReservationType → List IPSubNet) : Prop :=
  (reservationTypes.flatMap blocks).Pairwise fun s s' => ¬ s.Overlaps s'

instance (blocks : IPAddressReservationType → List IPSubNet) : Decidable (BlocksDisjoint blocks) :=
  inferInstanceAs (Decidable (List.Pairwise _ _))

theorem blocksDisjoint_published : BlocksDisjoint publishedBlocks := by
  decide +kernel

theorem blocksDisjoint_coded : BlocksDisjoint codedBlocks := by
  decide +kernel

section
variable {blocks : IPAddressReservationType → List IPSubNet} {type type' : IPAddressReservationType} {a : IPAddress}

theorem BlocksDisjoint.unique (h : BlocksDisjoint blocks) (htype : type ∈ reservationTypes)
    (htype' : type' ∈ reservationTypes) (hin : InBlocks blocks type a) (hin' : InBlocks blocks type' a) :
    type = type' := by
  by_contra hne
  obtain ⟨s, hs, hincludes⟩ := hin
  obtain ⟨s', hs', hincludes'⟩ := hin'
  have hpairwise := (List.pairwise_flatMap.mp h).2
  have hsymm : Std.Symm fun type type' => ∀ s ∈ blocks type, ∀ s' ∈ blocks type', ¬ s.Overlaps s' :=
    ⟨fun type type' h s hs s' hs' hoverlaps => h s' hs' s hs hoverlaps.symm⟩
  exact hpairwise.forall htype htype' hne s hs s' hs' (IPSubNet.overlaps_of_includes hincludes hincludes')

/-- Where at most one test can succeed, the order of the tests does not matter. -/
theorem foldl_lastTest {p : IPAddressReservationType → Prop} [DecidablePred p] {types : List IPAddressReservationType}
    (hunique : ∀ t ∈ types, ∀ t' ∈ types, p t → p t' → t = t') (ret : IPAddressReservationType) :
    types.foldl (fun ret t => if p t then t else ret) ret = type ↔
      (type ∈ types ∧ p type) ∨ (ret = type ∧ ∀ t ∈ types, ¬ p t) := by
  induction types generalizing ret with
  | nil => simp
  | cons t types ih =>
      rw [List.foldl_cons, ih fun u hu u' hu' => hunique u (.tail t hu) u' (.tail t hu')]
      by_cases ht : p t
      · have hrest : (∀ u ∈ types, ¬ p u) ↔ t ∉ types := by
          constructor
          · exact fun h hmem => h t hmem ht
          · intro h u hu hpu
            exact h (hunique t (.head _) u (.tail t hu) ht hpu ▸ hu)
        have hall : ¬ ∀ u ∈ t :: types, ¬ p u := fun h => h t (.head _) ht
        rw [if_pos ht, hrest, or_iff_left (b := ret = type ∧ _) fun h => hall h.2]
        constructor
        · rintro (⟨hmem, hp⟩ | ⟨rfl, -⟩)
          · exact ⟨.tail t hmem, hp⟩
          · exact ⟨.head _, ht⟩
        · rintro ⟨hmem, hp⟩
          obtain rfl := hunique t (.head _) type hmem ht hp
          by_cases hmem' : t ∈ types
          · exact .inl ⟨hmem', hp⟩
          · exact .inr ⟨rfl, hmem'⟩
      · have htail : type ∈ t :: types ∧ p type ↔ type ∈ types ∧ p type := by
          refine and_congr_left fun hp => List.mem_cons.trans (or_iff_right fun heq => ht (heq ▸ hp))
        rw [if_neg ht, List.forall_mem_cons, and_iff_right ht, htail]

/-- An address has the one reservation whose blocks it lies in. -/
theorem lookupReservation_eq_iff (h : BlocksDisjoint blocks) (htype : type ≠ kNotReserved) :
    lookupReservation blocks a = type ↔ InBlocks blocks type a := by
  rw [lookupReservation, foldl_lastTest fun t ht t' ht' => h.unique ht ht']
  simp [mem_reservationTypes, htype, htype.symm]

end

/-! ## What the code tests -/

namespace IPAddress

theorem includes_v4 {a b c d p : UInt8} {bytes : Octets 4} :
    (subnetV4 a b c d p).Includes (v4 bytes) ↔ Agree p.toNat [a, b, c, d] bytes.val := by
  simp [IPSubNet.Includes, subnetV4, ofV4, getType, toBytes]

theorem includes_v6 {front : Bytes} {p : UInt8} {bytes : Octets 16} :
    (subnetV6 front p).Includes (v6 bytes) ↔ Agree p.toNat (Octets.ofBytes 16 front).val bytes.val := by
  simp [IPSubNet.Includes, subnetV6, getType, toBytes]

theorem not_includes_v4_v6 {a b c d p : UInt8} {bytes : Octets 16} : ¬ (subnetV4 a b c d p).Includes (v6 bytes) := by
  simp [IPSubNet.Includes, subnetV4, ofV4, getType]

theorem not_includes_v6_v4 {front : Bytes} {p : UInt8} {bytes : Octets 4} :
    ¬ (subnetV6 front p).Includes (v4 bytes) := by
  simp [IPSubNet.Includes, subnetV6, getType]

section
variable {c₁ c₂ c₃ c₄ c₅ c₆ c₇ c₈ : Prop} [i₁ : Decidable c₁] [i₂ : Decidable c₂] [i₃ : Decidable c₃]
    [i₄ : Decidable c₄]
  [i₅ : Decidable c₅] {α : Type} {ret x₁ x₂ x₃ x₄ x₅ x₆ x₇ x₈ : α}

/-- A variable that test after test overwrites. -/
theorem runTests_five :
    (Id.run do
      let mut ret := ret
      if c₁ then ret := x₁
      if c₂ then ret := x₂
      if c₃ then ret := x₃
      if c₄ then ret := x₄
      if c₅ then ret := x₅
      return ret) =
    if c₅ then x₅ else if c₄ then x₄ else if c₃ then x₃ else if c₂ then x₂ else if c₁ then x₁ else ret := by
  cases i₁ <;> cases i₂ <;> cases i₃ <;> cases i₄ <;> cases i₅ <;> rfl

theorem runTests_eight [i₆ : Decidable c₆] [i₇ : Decidable c₇] [i₈ : Decidable c₈] :
    (Id.run do
      let mut ret := ret
      if c₁ then ret := x₁
      if c₂ then ret := x₂
      if c₃ then ret := x₃
      if c₄ then ret := x₄
      if c₅ then ret := x₅
      if c₆ then ret := x₆
      if c₇ then ret := x₇
      if c₈ then ret := x₈
      return ret) =
    if c₈ then x₈ else if c₇ then x₇ else if c₆ then x₆ else if c₅ then x₅ else if c₄ then x₄ else if c₃ then x₃
      else if c₂ then x₂ else if c₁ then x₁ else ret := by
  -- Five tests remain behind the first three.
  cases i₁ <;> cases i₂ <;> cases i₃ <;> exact @runTests_five c₄ c₅ c₆ c₇ c₈ i₄ i₅ i₆ i₇ i₈ α _ x₄ x₅ x₆ x₇ x₈

end

theorem agree_byte (p : Nat) (x y : UInt8) (s t : Bytes) :
    Agree (p + 8) (x :: s) (y :: t) ↔ y.toNat = x.toNat ∧ Agree p s t := by
  rw [agree_cons, ← UInt8.toNat_inj, eq_comm]

theorem agree_bits {p : Nat} (_ : 0 < p) (hlt : p < 8) (x y : UInt8) (s t : Bytes) :
    Agree p (x :: s) (y :: t) ↔ y.toNat / 2 ^ (8 - p) = x.toNat / 2 ^ (8 - p) := by
  rw [agree_high hlt.le, eq_comm]

theorem addressV4Reservation_eq_lookup (bytes : Octets 4) :
    addressV4Reservation bytes = lookupReservation codedBlocks (v4 bytes) := by
  obtain ⟨val, hlen⟩ := bytes
  obtain ⟨x, y, z, w, rfl⟩ := List.length_eq_four.mp hlen
  have hprivate : y.toNat / 16 = 1 ↔ 16 ≤ y.toNat ∧ y.toNat ≤ 31 := by omega
  have hshared : y.toNat / 64 = 1 ↔ 64 ≤ y.toNat ∧ y.toNat ≤ 127 := by omega
  have hbenchmark : y.toNat / 2 = 9 ↔ y.toNat = 18 ∨ y.toNat = 19 := by omega
  refine runTests_five.trans ?_
  simp [lookupReservation, reservationTypes, InBlocks, codedBlocks, publishedBlocks, includes_v4, not_includes_v6_v4,
    agree_byte, agree_bits, addrByte, hprivate, hshared, hbenchmark]

theorem addressV6Reservation_eq_lookup (bytes : Octets 16) :
    addressV6Reservation bytes = lookupReservation codedBlocks (v6 bytes) := by
  obtain ⟨val, hlen⟩ := bytes
  obtain ⟨x, _, rfl⟩ := List.exists_cons_of_length_eq_add_one hlen
  obtain ⟨y, _, rfl⟩ := List.exists_cons_of_length_eq_add_one (Nat.succ.inj hlen)
  obtain ⟨z, _, rfl⟩ := List.exists_cons_of_length_eq_add_one (Nat.succ.inj (Nat.succ.inj hlen))
  obtain ⟨w, rest, rfl⟩ := List.exists_cons_of_length_eq_add_one (Nat.succ.inj (Nat.succ.inj (Nat.succ.inj hlen)))
  have hlocal : x.toNat / 2 = 126 ↔ x.toNat = 252 ∨ x.toNat = 253 := by omega
  have hlen' : rest.length = 12 := by simpa using hlen
  have hrest : Agree 96 [0, 0, 0, 0, 0, 0, 0, 0, 0, 0, 0, 0] rest ↔ rest = [0, 0, 0, 0, 0, 0, 0, 0, 0, 0, 0, 0] := by
    refine (agree_iff_eq ?_ (by decide)).trans eq_comm
    exact hlen'.symm
  have hx : x = 0 ↔ x.toNat = 0 := UInt8.toNat_inj.symm
  have hy : y = 0 ↔ y.toNat = 0 := UInt8.toNat_inj.symm
  have hz : z = 0xFF ↔ z.toNat = 0xFF := UInt8.toNat_inj.symm
  have hw : w = 0xFF ↔ w.toNat = 0xFF := UInt8.toNat_inj.symm
  refine runTests_eight.trans ?_
  simp [lookupReservation, reservationTypes, InBlocks, codedBlocks, publishedBlocks, includes_v6, not_includes_v4_v6,
    agree_byte, agree_bits, addrByte, Octets.ofBytes, hlocal, hrest, hx, hy, hz, hw]

/-- The tests of the code are those of its table. -/
theorem addressReservation_eq_lookup {a : IPAddress} (h : a.isUnspecified = false) :
    a.addressReservation = lookupReservation codedBlocks a := by
  cases a with
  | v4 bytes =>
      rw [addressReservation, h, if_neg Bool.false_ne_true]
      exact addressV4Reservation_eq_lookup bytes
  | v6 bytes =>
      rw [addressReservation, h, if_neg Bool.false_ne_true]
      exact addressV6Reservation_eq_lookup bytes

theorem addressReservation_eq_iff {a : IPAddress} (h : a.isUnspecified = false) {type : IPAddressReservationType}
    (htype : type ≠ kNotReserved) : a.addressReservation = type ↔ InBlocks codedBlocks type a := by
  rw [addressReservation_eq_lookup h, lookupReservation_eq_iff blocksDisjoint_coded htype]

/-- The classes that `is_routable` lists. -/
def unroutableTypes : List IPAddressReservationType :=
  [kRFC1918, kRFC2544, kRFC3927, kRFC4862, kRFC6598, kRFC5737, kRFC4193, kRFC4843, kRFC3849]

theorem isRoutable_eq_false_iff (a : IPAddress) :
    a.isRoutable = false ↔ a.isUnspecified ∨ a.isLoopback ∨ a.addressReservation ∈ unroutableTypes := by
  have hvalid : a.isValid = !a.isUnspecified := by
    cases a <;> simp [isValid, isAny, isUnspecified]
  cases hunspecified : a.isUnspecified with
  | true => simp [isRoutable, hvalid, hunspecified]
  | false =>
      cases hloopback : a.isLoopback with
      | true => simp [isRoutable, hloopback]
      | false =>
          simp only [isRoutable, hvalid, hunspecified, hloopback, Bool.not_false, Bool.not_true, Bool.or_self,
            Bool.false_eq_true, if_false, false_or]
          generalize a.addressReservation = type
          cases type <;> decide

/-! ## The published table -/

/-- The code answers what the published blocks say. -/
def ReservationRight (a : IPAddress) : Prop :=
  (a.isUnspecified = false →
      ∀ type, type ≠ kNotReserved → (a.addressReservation = type ↔ InBlocks publishedBlocks type a)) ∧
    (a.isRoutable = false ↔
      a.isUnspecified ∨ a.isLoopback ∨ ∃ type ∈ unroutableTypes, InBlocks publishedBlocks type a)

/-- The address is in none of the blocks that are coded wrongly: 198.18/15 is coded as 192.18/15, fe80::/10 as
fe80::/16, 64:ff9b::/96 as 64:ff9b::/32 and ::ffff:0:0:0/96 as the address 0:ffff::. -/
def OutsideMiscoded (a : IPAddress) : Prop :=
  ¬ (subnetV4 198 18 0 0 15).Includes a ∧ ¬ (subnetV4 192 18 0 0 15).Includes a ∧
    ((subnetV6 [0xFE, 0x80] 10).Includes a → (subnetV6 [0xFE, 0x80] 16).Includes a) ∧
    ((subnetV6 [0x00, 0x64, 0xFF, 0x9B] 32).Includes a → (subnetV6 [0x00, 0x64, 0xFF, 0x9B] 96).Includes a) ∧
    ¬ (subnetV6 [0, 0, 0, 0, 0, 0, 0, 0, 0xFF, 0xFF, 0, 0] 96).Includes a ∧
    ¬ (subnetV6 [0x00, 0x00, 0xFF, 0xFF] 128).Includes a

instance (a : IPAddress) : Decidable (OutsideMiscoded a) := inferInstanceAs (Decidable (_ ∧ _))

section
variable {a : IPAddress}

theorem not_includes_both {s s' : IPSubNet} (h : ¬ s.Overlaps s') (hs : s.Includes a) : ¬ s'.Includes a :=
  fun hs' => h (IPSubNet.overlaps_of_includes hs hs')

/-- **The two tables agree** on an address outside of the blocks that are coded wrongly. -/
theorem tables_agree_iff :
    (∀ type, type ≠ kNotReserved → (InBlocks codedBlocks type a ↔ InBlocks publishedBlocks type a)) ↔
      OutsideMiscoded a := by
  have hbenchmark : (subnetV4 192 18 0 0 15).Includes a → ¬ (subnetV4 198 18 0 0 15).Includes a :=
    not_includes_both (by decide)
  have hlinkLocal : (subnetV6 [0xFE, 0x80] 16).Includes a → (subnetV6 [0xFE, 0x80] 10).Includes a :=
    IPSubNet.includes_of_overlaps (by decide) (by decide)
  have htranslators : (subnetV6 [0x00, 0x64, 0xFF, 0x9B] 96).Includes a →
      (subnetV6 [0x00, 0x64, 0xFF, 0x9B] 32).Includes a :=
    IPSubNet.includes_of_overlaps (by decide) (by decide)
  have htranslation : (subnetV6 [0x00, 0x00, 0xFF, 0xFF] 128).Includes a →
      ¬ (subnetV6 [0, 0, 0, 0, 0, 0, 0, 0, 0xFF, 0xFF, 0, 0] 96).Includes a :=
    not_includes_both (by decide)
  constructor
  · intro h
    have h₁ := h kRFC2544 (by decide)
    have h₂ := h kRFC4862 (by decide)
    have h₃ := h kRFC6052 (by decide)
    have h₄ := h kRFC6145 (by decide)
    simp only [InBlocks, codedBlocks, publishedBlocks, List.mem_singleton, exists_eq_left] at h₁ h₂ h₃ h₄
    exact ⟨fun hin => hbenchmark (h₁.mpr hin) hin, fun hin => hbenchmark hin (h₁.mp hin), h₂.mpr, h₃.mp,
      fun hin => htranslation (h₄.mpr hin) hin, fun hin => htranslation hin (h₄.mp hin)⟩
  · rintro ⟨hbench, hbench', hlocal, htrans, hmapped, hmapped'⟩ type htype
    cases type with
    | kRFC2544 =>
        simp only [InBlocks, codedBlocks, publishedBlocks, List.mem_singleton, exists_eq_left]
        exact iff_of_false hbench' hbench
    | kRFC4862 =>
        simp only [InBlocks, codedBlocks, publishedBlocks, List.mem_singleton, exists_eq_left]
        exact ⟨hlinkLocal, hlocal⟩
    | kRFC6052 =>
        simp only [InBlocks, codedBlocks, publishedBlocks, List.mem_singleton, exists_eq_left]
        exact ⟨htrans, htranslators⟩
    | kRFC6145 =>
        simp only [InBlocks, codedBlocks, publishedBlocks, List.mem_singleton, exists_eq_left]
        exact iff_of_false hmapped' hmapped
    | _ => exact Iff.rfl

theorem outsideMiscoded_of_unspecified (h : a.isUnspecified = true) : OutsideMiscoded a := by
  cases a with
  | v4 bytes =>
      obtain rfl : bytes = Octets.zero 4 := by simpa [isUnspecified] using h
      decide
  | v6 bytes =>
      obtain rfl : bytes = Octets.zero 16 := by simpa [isUnspecified] using h
      decide

theorem mem_unroutableTypes_iff
    (h : ∀ type, type ≠ kNotReserved → (a.addressReservation = type ↔ InBlocks publishedBlocks type a)) :
    a.addressReservation ∈ unroutableTypes ↔ ∃ type ∈ unroutableTypes, InBlocks publishedBlocks type a := by
  have hne : ∀ type ∈ unroutableTypes, type ≠ kNotReserved := by
    rintro _ hmem rfl
    exact absurd hmem (by decide)
  constructor
  · intro hmem
    exact ⟨_, hmem, (h _ (hne _ hmem)).mp rfl⟩
  · rintro ⟨type, hmem, hin⟩
    rwa [(h type (hne type hmem)).mpr hin]

theorem reservationRight_iff : ReservationRight a ↔ OutsideMiscoded a := by
  cases hunspecified : a.isUnspecified with
  | true =>
      have hroutable : a.isRoutable = false := (isRoutable_eq_false_iff a).mpr (.inl hunspecified)
      simp [ReservationRight, hunspecified, hroutable, outsideMiscoded_of_unspecified hunspecified]
  | false =>
      have hclasses : (∀ type, type ≠ kNotReserved → (a.addressReservation = type ↔ InBlocks publishedBlocks type a)) ↔
          OutsideMiscoded a := by
        rw [← tables_agree_iff]
        exact forall₂_congr fun type htype => by rw [addressReservation_eq_iff hunspecified htype]
      rw [ReservationRight, hclasses, hunspecified]
      simp only [true_imp_iff]
      apply and_iff_left_of_imp
      intro h
      rw [isRoutable_eq_false_iff, hunspecified, mem_unroutableTypes_iff (hclasses.mpr h)]

end

end IPAddress

/-- **Reserved addresses.** The published blocks are pairwise disjoint, and the code classifies an address as they do
exactly when it is outside of those that are coded wrongly. -/
theorem reservations_right_iff (a : IPAddress) :
    ((reservationTypes.flatMap publishedBlocks).Pairwise fun s s' => ¬ (s.Includes a ∧ s'.Includes a)) ∧
      (a.ReservationRight ↔ a.OutsideMiscoded) :=
  ⟨blocksDisjoint_published.imp fun h hboth => h (IPSubNet.overlaps_of_includes hboth.1 hboth.2),
    IPAddress.reservationRight_iff⟩

/-- 198.18.0.1 and fe90:1:: are not found to be reserved, and 192.18.0.1 is. -/
theorem reservations_miscoded :
    (IPAddress.ofV4 198 18 0 1).addressReservation = kNotReserved ∧ (IPAddress.ofV4 198 18 0 1).isRoutable = true ∧
      (IPAddress.ofV4 192 18 0 1).addressReservation = kRFC2544 ∧
      (IPAddress.v6 (Octets.ofBytes 16 [0xFE, 0x90, 0, 1])).addressReservation = kNotReserved ∧
      ¬ (IPAddress.ofV4 198 18 0 1).ReservationRight ∧ ¬ (IPAddress.ofV4 192 18 0 1).ReservationRight ∧
      ¬ (IPAddress.v6 (Octets.ofBytes 16 [0xFE, 0x90, 0, 1])).ReservationRight := by
  simp only [IPAddress.reservationRight_iff]
  decide +kernel

end Znode.Net
