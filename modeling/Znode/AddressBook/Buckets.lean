import Mathlib
import Znode.AddressBook.Entries
import Znode.Lib.Counts
import Znode.Net.SubNet

/-!
# Buckets a group of addresses can reach

The bucket number of a slot is a hash of a group and of a number below a fixed bound, whatever the rest of the
service is. So those who control one group of addresses fill few buckets, for every key and every hash function.

* `computeGroup_eq_base` : a group is the base address `calculate_subnet_base_address` gives, behind its family;
* `computeGroup_eq_iff` : the groups are the families and their /16 (IPv4) or /64 (IPv6) subnets;
* `buckets_bounded` : at most `kNewBucketsPerSourceGroup` new buckets for the sources of a group, and
  `kTriedBucketsPerGroup` tried buckets for the services of a group.
-/

namespace Znode.Net
open Znode.Lib

namespace AddressBook

/-- The bytes of the subnet a group stands for: 16 bits of an IPv4 address, 64 bits of an IPv6 one. -/
def groupBytes : IPAddress → Bytes
  | .v4 bytes => bytes.val.take (kIPv4SubnetGroupsPrefix / 8)
  | .v6 bytes => bytes.val.take (kIPv6SubnetGroupsPrefix / 8)

theorem subnetBytes_eq_iff {a b : Bytes} (n : Nat) (hlen : a.length = b.length) :
    subnetBytes a n = subnetBytes b n ↔ a.take (n / 8) = b.take (n / 8) := by
  unfold subnetBytes
  constructor
  · intro h
    refine (List.append_inj h ?_).1
    rw [List.length_take, List.length_take, hlen]
  · intro h
    rw [h, hlen]

def groupPrefix : IPAddress → Nat
  | .v4 _ => kIPv4SubnetGroupsPrefix
  | .v6 _ => kIPv6SubnetGroupsPrefix

theorem isFront_subnetBytes (s : Bytes) {n : Nat} (hn : 8 * (n / 8) = n) : IsFront n s (subnetBytes s n) := by
  have hfront := isFront_take s (n / 8)
  rwa [hn] at hfront

theorem computeGroup_eq_base {a : IPAddress} (hvalid : a.isValid) :
    ∃ b, calculateSubnetBaseIPAddress a (groupPrefix a) = .ok b ∧
      computeGroup a = [1, if a.getType = .kIPv4 then 1 else 4] ++ b.toBytes := by
  have hlength : groupPrefix a ≤ a.width ∧ ¬ ShiftsOut a (groupPrefix a) := by
    cases a with
    | v4 bytes => exact ⟨(by decide : 16 ≤ 32), fun h => absurd h.2 (by decide : ¬ 16 = 0)⟩
    | v6 bytes => exact ⟨(by decide : 64 ≤ 128), fun h => absurd h.2 (by decide : ¬ 64 = 0)⟩
  obtain ⟨b, hb, hfront⟩ := calculateSubnetBaseAddress_ok hlength.1 hlength.2
  refine ⟨b, by rw [calculateSubnetBaseIPAddress, hvalid]; exact hb, ?_⟩
  cases a with
  | v4 bytes =>
      rw [hfront.unique (isFront_subnetBytes bytes.val (by decide : 8 * (16 / 8) = 16))]
      rfl
  | v6 bytes =>
      rw [hfront.unique (isFront_subnetBytes bytes.val (by decide : 8 * (64 / 8) = 64))]
      rfl

/-- The family is in the second byte. -/
theorem computeGroup_eq_iff (a b : IPAddress) :
    computeGroup a = computeGroup b ↔ a.getType = b.getType ∧ groupBytes a = groupBytes b := by
  cases a with
  | v4 a =>
      cases b with
      | v4 b =>
          have h := subnetBytes_eq_iff kIPv4SubnetGroupsPrefix (a.property.trans b.property.symm)
          rw [computeGroup, computeGroup, List.append_cancel_left_eq, h]
          exact (and_iff_right rfl).symm
      | v6 b => simp [computeGroup, IPAddress.getType]
  | v6 a =>
      cases b with
      | v4 b => simp [computeGroup, IPAddress.getType]
      | v6 b =>
          have h := subnetBytes_eq_iff kIPv6SubnetGroupsPrefix (a.property.trans b.property.symm)
          rw [computeGroup, computeGroup, List.append_cancel_left_eq, h]
          exact (and_iff_right rfl).symm

section
variable (sipHash24 : Bytes → Bytes → Octets 8) (key : Bytes)

/-- The buckets for the services that sources of one group advertise. -/
def newBucketsOfGroup (group : Bytes) : Set Nat :=
  {x | ∃ endpoint source, computeGroup source = group ∧ (hashNewSlot sipHash24 key endpoint source).x = x}

/-- The buckets for the services with an address of one group. -/
def triedBucketsOfGroup (group : Bytes) : Set Nat :=
  {x | ∃ endpoint : IPEndpoint, computeGroup endpoint.address = group ∧ (hashTriedSlot sipHash24 key endpoint).x = x}

/-- The bucket of the hash of a group with a number. -/
def bucketOf (group : Bytes) (count i : Nat) : Nat := leVal (sipHash24 key (group ++ leBytes 8 i)).val % count

theorem newBucketsOfGroup_le (group : Bytes) :
    (newBucketsOfGroup sipHash24 key group).encard ≤ kNewBucketsPerSourceGroup := by
  refine encard_le_of_numbered (bucketOf sipHash24 key group kNewBucketsCount) ?_
  rintro x ⟨endpoint, source, rfl, rfl⟩
  exact ⟨_, Nat.mod_lt _ (by decide), rfl⟩

theorem triedBucketsOfGroup_le (group : Bytes) :
    (triedBucketsOfGroup sipHash24 key group).encard ≤ kTriedBucketsPerGroup := by
  refine encard_le_of_numbered (bucketOf sipHash24 key group kTriedBucketsCount) ?_
  rintro x ⟨endpoint, rfl, rfl⟩
  exact ⟨_, Nat.mod_lt _ (by decide), rfl⟩

/-- **The sources of a group fill few buckets**, for every key: at most 64 new ones with what they advertise, and the
services of a group at most 8 tried ones; a group is a family and a subnet of it. -/
theorem buckets_bounded (sipHash24 : Bytes → Bytes → Octets 8) (key : Bytes) :
    (∀ group, (newBucketsOfGroup sipHash24 key group).encard ≤ kNewBucketsPerSourceGroup) ∧
      (∀ group, (triedBucketsOfGroup sipHash24 key group).encard ≤ kTriedBucketsPerGroup) ∧
      ∀ a b, computeGroup a = computeGroup b ↔ a.getType = b.getType ∧ groupBytes a = groupBytes b :=
  ⟨newBucketsOfGroup_le sipHash24 key, triedBucketsOfGroup_le sipHash24 key, computeGroup_eq_iff⟩

end

end AddressBook

end Znode.Net
