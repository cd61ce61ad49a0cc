import Mathlib
import Znode.Core.Block

/-!
# Comparing block headers

* `memcmp`, `hashSpaceship` : `operator<=>` of a `Hash` is the lexicographic order of its bytes
  (`hashSpaceship_eq`);
* `BlockHeader.spaceship` : `operator<=>` of a header. It is transitive and oriented (the instance of `TransCmp`), and
  two headers are equal under it when they agree outside their solutions (`spaceship_eq_iff`);
* `BlockHeader.equals` : `==` on two headers. The class declares no `operator==`; what is found is the one that comes
  with the defaulted `operator<=>` of `Serializable`, a class without members;
* `comparedAsValues_iff` : the pairs of headers that both operators compare as values.
-/

namespace Znode.Core
open Znode.Lib
open Std (TransCmp)

/-- `std::memcmp` over two arrays of one length: the difference of the first bytes that differ. -/
def memcmp : Bytes → Bytes → Int
  | a :: s, b :: t => if a = b then memcmp s t else (a.toNat : Int) - b.toNat
  | _, _ => 0

def hashSpaceship {n : Nat} (a b : Octets n) : Ordering :=
  let result := memcmp a.val b.val
  if result < 0 then .lt
  else if result > 0 then .gt
  else .eq

theorem compare_memcmp {s t : Bytes} (hlen : s.length = t.length) : compare (memcmp s t) 0 = compare s t := by
  induction s generalizing t with
  | nil =>
      obtain rfl := List.length_eq_zero_iff.mp hlen.symm
      rfl
  | cons a s ih =>
      obtain ⟨b, t, rfl⟩ := List.exists_cons_of_length_eq_add_one hlen.symm
      rw [List.compare_cons_cons, memcmp]
      by_cases hab : a = b
      · rw [if_pos hab, ih (Nat.succ.inj hlen), hab, Std.compare_self]
        rfl
      · rw [if_neg hab]
        rcases Nat.lt_or_gt_of_ne (mt UInt8.toNat_inj.mp hab) with hlt | hgt
        · rw [Std.compare_eq_lt.mpr (UInt8.lt_iff_toNat_lt.mpr hlt), compare_lt_iff_lt.mpr (by omega)]
          rfl
        · rw [Std.compare_eq_gt.mpr (UInt8.lt_iff_toNat_lt.mpr hgt), compare_gt_iff_gt.mpr (by omega)]
          rfl

theorem hashSpaceship_eq {n : Nat} (a b : Octets n) : hashSpaceship a b = compare a.val b.val := by
  rw [← compare_memcmp (a.property.trans b.property.symm), hashSpaceship]
  rcases lt_trichotomy (memcmp a.val b.val) 0 with hlt | heq | hgt
  · rw [if_pos hlt, compare_lt_iff_lt.mpr hlt]
  · rw [heq]
    rfl
  · rw [if_neg (by omega), if_pos hgt, compare_gt_iff_gt.mpr hgt]

instance {n : Nat} : TransCmp (hashSpaceship (n := n)) := by
  have heq : hashSpaceship (n := n) = compareOn Subtype.val := funext₂ hashSpaceship_eq
  rw [heq]
  infer_instance

theorem hashSpaceship_eq_iff {n : Nat} {a b : Octets n} : hashSpaceship a b = .eq ↔ a = b := by
  rw [hashSpaceship_eq, Std.compare_eq_iff_eq, Subtype.val_inj]

namespace BlockHeader

/-- `BlockHeader::operator<=>`. The solution takes no part in it. -/
def spaceship (a b : BlockHeader) : Ordering :=
  (compare a.version b.version).then <|
  (hashSpaceship a.parentHash b.parentHash).then <|
  (hashSpaceship a.merkleRoot b.merkleRoot).then <|
  (hashSpaceship a.scctRoot b.scctRoot).then <|
  (compare a.time b.time).then <|
  (compare a.bits b.bits).then <|
  if a.nonce < b.nonce then .lt
  else if a.nonce > b.nonce then .gt
  else .eq

theorem nonceSpaceship_eq (x y : BitVec 256) :
    (if x < y then Ordering.lt else if x > y then .gt else .eq) = compare x y := by
  change _ = if x < y then Ordering.lt else if x = y then .eq else .gt
  split_ifs with hlt hgt heq heq
  · rfl
  · exact absurd hgt (heq ▸ BitVec.lt_irrefl y)
  · rfl
  · rfl
  · exact absurd (BitVec.le_antisymm (BitVec.not_lt.mp hgt) (BitVec.not_lt.mp hlt)) heq

theorem spaceship_eq_compareLex :
    spaceship =
      compareLex (compareOn version) (
      compareLex (Ordering.byKey parentHash hashSpaceship) (
      compareLex (Ordering.byKey merkleRoot hashSpaceship) (
      compareLex (Ordering.byKey scctRoot hashSpaceship) (
      compareLex (compareOn time) (
      compareLex (compareOn bits) (compareOn nonce)))))) := by
  ext a b : 2
  rw [spaceship, nonceSpaceship_eq]
  rfl

instance : TransCmp spaceship := by
  rw [spaceship_eq_compareLex]
  infer_instance

theorem spaceship_eq_iff {a b : BlockHeader} : a.spaceship b = .eq ↔ { a with solution := b.solution } = b := by
  obtain ⟨_, _, _, _, _, _, _, _⟩ := a
  obtain ⟨_, _, _, _, _, _, _, _⟩ := b
  simp only [spaceship, nonceSpaceship_eq, Ordering.then_eq_eq, Std.compare_eq_iff_eq, hashSpaceship_eq_iff, mk.injEq,
    and_true]

end BlockHeader

/-- `ser::Serializable` as `operator==` sees it: the class has no members. -/
structure SerializableBase where

/-- The `operator==` that comes with the defaulted `operator<=>` of `Serializable`: all members are equal. -/
def SerializableBase.equals (_ _ : SerializableBase) : Bool := true

namespace BlockHeader

def toBase (_ : BlockHeader) : SerializableBase := {}

/-- `a == b` on two headers. A class that declares its own `operator<=>` gets no `operator==` from it, and so the lookup
finds the one of the base. -/
def equals (a b : BlockHeader) : Bool := a.toBase.equals b.toBase

/-- Both operators find the two headers equal exactly when they are. -/
def ComparedAsValues (a b : BlockHeader) : Prop :=
  (a.equals b = true ↔ a = b) ∧ (a.spaceship b = .eq ↔ a = b)

theorem comparedAsValues_iff {a b : BlockHeader} : ComparedAsValues a b ↔ a = b := by
  constructor
  · intro h
    exact h.1.mp rfl
  · rintro rfl
    exact ⟨iff_of_true rfl rfl, iff_of_true (spaceship_eq_iff.mpr rfl) rfl⟩

/-- **Block header comparison.** Two different headers are never compared as values: `==` holds of any two headers. The
order is oriented and transitive, and what it finds equal may still differ in the solution. -/
theorem header_comparison (a b c : BlockHeader) :
    (ComparedAsValues a b ↔ a = b) ∧ a.spaceship b = (b.spaceship a).swap ∧
      ((a.spaceship b).isLE → (b.spaceship c).isLE → (a.spaceship c).isLE) ∧
      (a.spaceship b = .eq ↔ { a with solution := b.solution } = b) :=
  ⟨comparedAsValues_iff, Std.OrientedCmp.eq_swap, TransCmp.isLE_trans, spaceship_eq_iff⟩

/-- Two headers of different versions are equal under `==`, and two that differ in their solutions are equal under
`<=>`. -/
theorem unequal_headers_compared_equal :
    (equals { version := 15 } { version := 16 } = true ∧ ¬ ComparedAsValues { version := 15 } { version := 16 }) ∧
      spaceship { solution := [1] } { solution := [2] } = .eq ∧
      ¬ ComparedAsValues { solution := [1] } { solution := [2] } := by
  simp only [comparedAsValues_iff]
  decide +kernel

end BlockHeader

end Znode.Core
