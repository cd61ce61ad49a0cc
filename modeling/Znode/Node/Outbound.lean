import Mathlib
import Znode.Lib.PriorityQueue
import Znode.Node.Peer

/-!
# The queue of outgoing messages

`push_message` puts a message into `outbound_messages_queue_` with its priority, and `start_write` takes the top of
the queue. The comparator orders by the number of the priority, and the top of a `std::priority_queue` is a largest
element: `kLow` comes before `kHigh`, and equal priorities come in no order.

* `Peer.takeMessage` : the top, for a choice among the largest elements;
* `isNext` : the position of the message that should be taken;
* `takesInOrder`, `takesAlone` : sequences of pushes and takes, the first as it should be, the second with no
  take that finds two messages;
* `takesInOrder_iff` : they are the same.
-/

namespace Znode.Node
open Znode.Lib Znode.Core Znode.Net

def MessagePriority.toNat : MessagePriority → Nat
  | kHigh => 0
  | kNormal => 1
  | kLow => 2

abbrev QueueItem := Message × MessagePriority

/-- `MessageQueueItemComparator` orders by this key. -/
def QueueItem.key (item : QueueItem) : Nat := item.2.toNat

/-- Takes a message from the queue, in `start_write`. -/
def Peer.takeMessage (choice : Nat) (p : Peer) : Option (Message × Peer) := do
  let i ← topIndex QueueItem.key choice p.outboundMessages
  let item ← p.outboundMessages[i]?
  return (item.1, { p with outboundMessages := p.outboundMessages.eraseIdx i })

/-- The message at `i` is the one to be sent next: no other is more urgent, and none of its priority was pushed
before it. -/
def isNext (q : List QueueItem) (i : Nat) : Bool :=
  q[i]?.any fun item =>
    (q.all fun other => item.2.toNat ≤ other.2.toNat) && (q.take i).all fun other => other.2 ≠ item.2

theorem isNext_iff {q : List QueueItem} {i : Nat} : isNext q i ↔ ∃ item, q[i]? = some item ∧
    (∀ other ∈ q, item.2.toNat ≤ other.2.toNat) ∧ ∀ other ∈ q.take i, other.2 ≠ item.2 := by
  rw [isNext, Option.any_eq_true]
  simp

theorem MessagePriority.toNat_injective : Function.Injective MessagePriority.toNat := by
  intro a b h
  cases a <;> cases b <;> first | rfl | cases h

/-- The top is always the right message exactly when there is no other. -/
theorem tops_isNext_iff (q : List QueueItem) : (∀ i ∈ tops QueueItem.key q, isNext q i) ↔ q.length ≤ 1 := by
  constructor
  · intro hnext
    by_contra hlong
    have hne : q ≠ [] := List.ne_nil_of_length_pos (by omega)
    obtain ⟨i, hi⟩ := List.exists_mem_of_ne_nil _ (tops_ne_nil hne : tops QueueItem.key q ≠ [])
    obtain ⟨item, hitem, hleast, -⟩ := isNext_iff.mp (hnext i hi)
    obtain ⟨a, ha, hlargest⟩ := mem_tops_iff.mp hi
    obtain rfl : item = a := Option.some.inj (hitem.symm.trans ha)
    -- the largest key is the least one, so all keys are equal, and the second message may be taken
    have hsame : ∀ other ∈ q, other.2 = item.2 := fun other hother =>
      MessagePriority.toNat_injective (le_antisymm (hlargest other hother) (hleast other hother))
    have hsecond := List.getElem?_eq_getElem (show 1 < q.length by omega)
    have htop : 1 ∈ tops QueueItem.key q := by
      refine mem_tops_iff.mpr ⟨_, hsecond, fun other hother => ?_⟩
      unfold QueueItem.key
      rw [hsame other hother, hsame _ (List.mem_of_getElem? hsecond)]
    obtain ⟨second, hget, -, hfirst⟩ := isNext_iff.mp (hnext 1 htop)
    have hmem : q[0] ∈ q.take 1 := List.mem_take_iff_getElem.mpr ⟨0, by omega, rfl⟩
    exact hfirst _ hmem ((hsame _ (List.getElem_mem _)).trans (hsame _ (List.mem_of_getElem? hget)).symm)
  · intro hshort i hi
    obtain ⟨a, ha, -⟩ := mem_tops_iff.mp hi
    have hlt := (List.getElem?_eq_some_iff.mp ha).1
    obtain rfl : i = 0 := by omega
    obtain ⟨b, rfl⟩ := List.length_eq_one_iff.mp (show q.length = 1 by omega)
    simp [isNext]

/-! ## Pushes and takes -/

inductive QueueCall where
  | push (payload : MessagePayload) (priority : MessagePriority)
  | take

section
variable (sha256 : Bytes → Octets 32) (magic : Octets 4)

def pushes (version : Int) (payload : MessagePayload) : Bool :=
  ((Message.push sha256 payload).run (Message.new version magic)).isOk

def Peer.pushed (payload : MessagePayload) (priority : MessagePriority) (p : Peer) : Peer :=
  ((Peer.pushMessage sha256 magic payload priority).run p).state

/-- The node after a message was taken, if there was one. -/
def Peer.taken (choice : Nat) (p : Peer) : Peer := ((p.takeMessage choice).map Prod.snd).getD p

/-- Every take is of the message that should be taken. -/
def takesInOrder : (Nat → Nat) → Peer → List QueueCall → Bool
  | _, _, [] => true
  | choices, p, .push payload priority :: calls => takesInOrder choices (p.pushed sha256 magic payload priority) calls
  | choices, p, .take :: calls =>
    ((topIndex QueueItem.key (choices 0) p.outboundMessages).all (isNext p.outboundMessages)) &&
      takesInOrder (fun n => choices (n + 1)) (p.taken (choices 0)) calls

/-- No take finds two messages, when there are `queued` of them at the start. -/
def takesAlone (version : Int) : Nat → List QueueCall → Bool
  | _, [] => true
  | queued, .push payload _ :: calls => takesAlone version (queued + (pushes sha256 magic version payload).toNat) calls
  | queued, .take :: calls => queued ≤ 1 && takesAlone version (queued - 1) calls

theorem Peer.pushed_spec (payload : MessagePayload) (priority : MessagePriority) (p : Peer) :
    (p.pushed sha256 magic payload priority).version = p.version ∧
      (p.pushed sha256 magic payload priority).outboundMessages.length =
        p.outboundMessages.length + (pushes sha256 magic p.version payload).toNat := by
  simp only [Peer.pushed, Peer.pushMessage, pushes, Act.run]
  cases Message.push sha256 payload (Message.new p.version magic) with
  | ok u m => exact ⟨rfl, List.length_append⟩
  | error e m => exact ⟨rfl, rfl⟩
  | fault f m => exact ⟨rfl, rfl⟩

theorem Peer.taken_spec (choice : Nat) (p : Peer) :
    (p.taken choice).version = p.version ∧
      (p.taken choice).outboundMessages.length = p.outboundMessages.length - 1 := by
  by_cases hempty : p.outboundMessages = []
  · simp [Peer.taken, Peer.takeMessage, hempty, topIndex_nil]
  · obtain ⟨i, hi⟩ : ∃ i, topIndex QueueItem.key choice p.outboundMessages = some i := topIndex_isSome hempty choice
    obtain ⟨item, hitem, -⟩ := mem_tops_iff.mp (topIndex_mem hi)
    have hlt := (List.getElem?_eq_some_iff.mp hitem).1
    simp [Peer.taken, Peer.takeMessage, hi, List.length_eraseIdx, hlt]

/-- One take is right, whatever the choice, when it finds no second message. -/
theorem take_isNext_iff (q : List QueueItem) :
    (∀ choice, (topIndex QueueItem.key choice q).all (isNext q)) ↔ q.length ≤ 1 := by
  rw [← tops_isNext_iff]
  constructor
  · intro h i hi
    obtain ⟨choice, hchoice⟩ := exists_topIndex hi
    simpa [hchoice] using h choice
  · intro h choice
    rw [Option.all_eq_true]
    intro i hi
    exact h i (topIndex_mem hi)

end

/-- **The messages go out in order of urgency, and in the order they were pushed, exactly in those sequences of
pushes and takes in which no take finds two messages.** -/
theorem takesInOrder_iff (sha256 : Bytes → Octets 32) (magic : Octets 4) (p : Peer) (calls : List QueueCall) :
    (∀ choices, takesInOrder sha256 magic choices p calls) ↔
      takesAlone sha256 magic p.version p.outboundMessages.length calls := by
  induction calls generalizing p with
  | nil => simp [takesInOrder, takesAlone]
  | cons call calls ih =>
      cases call with
      | push payload priority =>
          obtain ⟨hversion, hlength⟩ := p.pushed_spec sha256 magic payload priority
          simp only [takesInOrder, takesAlone]
          rw [ih, hversion, hlength]
      | take =>
          have htaken : ∀ choice, (∀ choices, takesInOrder sha256 magic choices (p.taken choice) calls) ↔
              takesAlone sha256 magic p.version (p.outboundMessages.length - 1) calls := by
            intro choice
            obtain ⟨hversion, hlength⟩ := p.taken_spec choice
            rw [ih, hversion, hlength]
          simp only [takesInOrder, takesAlone, Bool.and_eq_true, decide_eq_true_eq]
          rw [← take_isNext_iff]
          constructor
          · intro h
            refine ⟨fun choice => (h fun _ => choice).1, (htaken 0).mp fun choices => ?_⟩
            exact (h fun n => n.casesOn 0 choices).2
          · rintro ⟨hfirst, hrest⟩ choices
            exact ⟨hfirst (choices 0), (htaken (choices 0)).mpr hrest _⟩

def twoQueued (first second : MessagePriority) : List QueueCall :=
  [.push (.null ⟨.kGetAddr, kGetAddr_mem_nullTypes⟩) first, .push (.null ⟨.kVerAck, kVerAck_mem_nullTypes⟩) second]

/-- A `getaddr` of low priority goes out before a `verack` of high priority, and of two messages with the same
priority the second may be the first to go. -/
theorem takes_out_of_order :
    takesInOrder (fun _ => kEmptyHash) (Octets.zero 4) (fun _ => 0) { connectionType := .kInbound }
        (twoQueued .kLow .kHigh ++ [.take]) = false ∧
      takesInOrder (fun _ => kEmptyHash) (Octets.zero 4) (fun _ => 1) { connectionType := .kInbound }
        (twoQueued .kHigh .kHigh ++ [.take]) = false := by
  decide +kernel

end Znode.Node
