import Mathlib
import Znode.Core.Stream
import Znode.Lib.System

/-!
# The cursor of a data stream

The operations of `DataStream` beside `write`, `push_back`, `read`, `seekg` and `clear`, and what any sequence of
them does to the cursor. An iterator is the index of its element in the buffer, the end of the buffer its size.

* `StreamOp`, `StreamOp.step` : the operations on one stream, as a transition system;
* `Sound` : the cursor is in the buffer, `avail` does not wrap and a read returns what it was asked for;
* `sound_iff_resize` : the states of a run are sound exactly when no `resize` goes below the cursor, which `resize`
  does not move;
* `Removes` : the bytes of a range are taken out of the read and of the unread part (`removes_of_erasure`).
-/

namespace Znode.Core
open Znode.Lib

/-- `DataStream::resize`: the cursor stays where it is. -/
def resize (newSize : Nat) (item : UInt8 := 0) : Ser Unit := do
  let s ← get
  if newSize > kMaxStreamSize then throw (.ser .kInputTooLarge)
  set { s with buffer := resized newSize item s.buffer }

namespace SDataStream

/-- `DataStream::rewind`: nothing happens when `count` is more than what was read. -/
def rewind (s : SDataStream) (count : Option Nat := none) : SDataStream :=
  match count with
  | none => { s with readPosition := 0 }
  | some n => if n ≤ s.readPosition then { s with readPosition := s.readPosition - n } else s

/-- `DataStream::insert`: the cursor stays where it is, not bounded by `kMaxStreamSize`. -/
def insert (s : SDataStream) (loc : Nat) (item : UInt8) : SDataStream :=
  { s with buffer := s.buffer.take loc ++ item :: s.buffer.drop loc }

/-- `DataStream::erase` of the element at an iterator. -/
def eraseAt (s : SDataStream) (pos : Nat) : SDataStream :=
  if pos = s.size then s
  else
    let buffer := cut pos (pos + 1) s.buffer
    let moved := if s.readPosition > 0 && s.readPosition > pos then s.readPosition - 1 else s.readPosition
    { s with buffer := buffer, readPosition := min moved buffer.length }

/-- `DataStream::erase` of a range, up to the end of the buffer when `count` is omitted. -/
def erase (s : SDataStream) (pos : Nat) (count : Option Nat := none) : SDataStream :=
  if count = some 0 || pos ≥ s.size then s
  else
    let maxCount := s.size - pos
    let count := min (count.getD maxCount) maxCount
    let readPosition :=
      if s.readPosition > 0 && s.readPosition > pos then s.readPosition - min (s.readPosition - pos) count
      else s.readPosition
    { s with buffer := cut pos (pos + count) s.buffer, readPosition := readPosition }

def ignore (s : SDataStream) (count : Nat := 1) : SDataStream :=
  { s with readPosition := s.readPosition + min count s.avail }

/-- `DataStream::consume`: drops what was read, at most up to `pos`. -/
def consume (s : SDataStream) (pos : Option Nat := none) : SDataStream :=
  let count := min s.readPosition (pos.getD s.readPosition)
  { s with buffer := cut 0 count s.buffer, readPosition := s.readPosition - count }

/-- `DataStream::get_clear`: moves what is unread to the end of `dst`. Both streams, as they are afterwards. -/
def getClear (s dst : SDataStream) : Except Error (SDataStream × SDataStream) :=
  match (write (slice s.buffer s.readPosition s.avail)).run dst with
  | .ok _ dst => .ok (s.clear, dst)
  | .error e _ => .error e

end SDataStream

/-! ## What an erasure removes -/

namespace SDataStream
variable {s : SDataStream}

def alreadyRead (s : SDataStream) : Bytes := s.buffer.take s.readPosition

def unread (s : SDataStream) : Bytes := s.buffer.drop s.readPosition

/-- `s'` is `s` without the bytes from `lo` on and below `hi`, and the cursor stands between the same bytes: the
range is missing in the read and in the unread part, wherever it lies. -/
structure Removes (lo hi : Nat) (s s' : SDataStream) : Prop where
  buffer : s'.buffer = cut lo hi s.buffer
  alreadyRead : s'.alreadyRead = cut lo hi s.alreadyRead
  unread : s'.unread = cut (lo - s.readPosition) (hi - s.readPosition) s.unread
  cursor : s'.readPosition ≤ s'.size
  frame : s'.scope = s.scope ∧ s'.version = s.version ∧ s'.computedSize = s.computedSize

/-- The stream without a range, the cursor moved back by the read bytes in it. -/
def without (s : SDataStream) (lo hi : Nat) : SDataStream :=
  { s with buffer := cut lo hi s.buffer, readPosition := min lo s.readPosition + (s.readPosition - hi) }

theorem length_alreadyRead (h : s.readPosition ≤ s.size) : s.alreadyRead.length = s.readPosition :=
  List.length_take_of_le h

theorem removes_without (h : s.readPosition ≤ s.size) {lo hi : Nat} (hle : lo ≤ hi) :
    Removes lo hi s (s.without lo hi) := by
  have hlen := length_alreadyRead h
  have hsplit : cut lo hi s.buffer =
      cut lo hi s.alreadyRead ++ cut (lo - s.readPosition) (hi - s.readPosition) s.unread := by
    have hcut := cut_append hle s.alreadyRead s.unread
    rwa [hlen, alreadyRead, unread, List.take_append_drop] at hcut
  -- the cursor of the result is the length of what is left of the read part
  have hcursor : (s.without lo hi).readPosition = (cut lo hi s.alreadyRead).length := by
    rw [length_cut, hlen]
    rfl
  refine ⟨rfl, ?_, ?_, ?_, rfl, rfl, rfl⟩
  · rw [alreadyRead, hcursor]
    exact (congrArg (List.take _) hsplit).trans List.take_left
  · rw [unread, hcursor]
    exact (congrArg (List.drop _) hsplit).trans List.drop_left
  · rw [hcursor]
    change _ ≤ (cut lo hi s.buffer).length
    rw [hsplit, List.length_append]
    exact Nat.le_add_right _ _

theorem cut_of_length_le {l : Bytes} {lo hi : Nat} (h : l.length ≤ hi) (hi' : Nat) (h' : l.length ≤ hi') :
    cut lo hi l = cut lo hi' l := by
  rw [cut, cut, List.drop_eq_nil_of_le h, List.drop_eq_nil_of_le h']

theorem cut_self (n : Nat) (l : Bytes) : cut n n l = l := List.take_append_drop n l

theorem eq_without {s' : SDataStream} {lo hi : Nat} (hbuffer : s'.buffer = cut lo hi s.buffer)
    (hcursor : s'.readPosition = min lo s.readPosition + (s.readPosition - hi))
    (hframe : s'.scope = s.scope ∧ s'.version = s.version ∧ s'.computedSize = s.computedSize) :
    s' = s.without lo hi := by
  obtain ⟨hscope, hversion, hsize⟩ := hframe
  cases s'
  rw [without, SDataStream.mk.injEq]
  exact ⟨hbuffer, hcursor, hscope, hversion, hsize⟩

theorem eraseAt_eq (h : s.readPosition ≤ s.size) {pos : Nat} (hpos : pos ≤ s.size) :
    s.eraseAt pos = s.without pos (pos + 1) := by
  unfold eraseAt
  by_cases hend : pos = s.size
  · rw [if_pos hend]
    refine eq_without ?_ (by omega) ⟨rfl, rfl, rfl⟩
    rw [cut_of_length_le (by change s.size ≤ _; omega) pos (le_of_eq hend.symm), cut_self]
  · rw [if_neg hend]
    refine eq_without rfl ?_ ⟨rfl, rfl, rfl⟩
    have hlen : (cut pos (pos + 1) s.buffer).length = s.size - 1 := by
      rw [length_cut]
      change min pos s.size + (s.size - (pos + 1)) = _
      omega
    simp only [hlen, Bool.and_eq_true, decide_eq_true_eq]
    split_ifs <;> omega

theorem erase_eq (h : s.readPosition ≤ s.size) (pos : Nat) (count : Option Nat) :
    s.erase pos count = s.without pos (pos + count.getD (s.size - pos)) := by
  unfold erase
  by_cases hnone : count = some 0 ∨ pos ≥ s.size
  · rw [if_pos (by simpa using hnone)]
    refine eq_without ?_ ?_ ⟨rfl, rfl, rfl⟩
    · rcases hnone with rfl | hpos
      · exact (cut_self pos s.buffer).symm
      · rw [cut_of_length_le (by change s.size ≤ _; omega) pos hpos, cut_self]
    · rcases hnone with rfl | hpos
      · rw [Option.getD_some]
        omega
      · omega
  · rw [if_neg (by simpa using hnone)]
    rw [not_or] at hnone
    refine eq_without ?_ ?_ ⟨rfl, rfl, rfl⟩
    · change cut pos (pos + min (count.getD (s.size - pos)) (s.size - pos)) s.buffer = _
      -- a count past the end is clipped, and the range ends at the end of the buffer either way
      by_cases hclip : count.getD (s.size - pos) ≤ s.size - pos
      · rw [Nat.min_eq_left hclip]
      · rw [Nat.min_eq_right (by omega)]
        exact cut_of_length_le (by change s.size ≤ _; omega) _ (by change s.size ≤ _; omega)
    · simp only [Bool.and_eq_true, decide_eq_true_eq]
      split_ifs <;> omega

theorem consume_eq (s : SDataStream) (pos : Option Nat) :
    s.consume pos = s.without 0 (min s.readPosition (pos.getD s.readPosition)) :=
  eq_without rfl (by simp only [consume]; omega) ⟨rfl, rfl, rfl⟩

/-- **What an erasure removes.** -/
theorem removes_of_erasure (s : SDataStream) (h : s.readPosition ≤ s.size) :
    (∀ pos ≤ s.size, Removes pos (pos + 1) s (s.eraseAt pos)) ∧
      (∀ pos count, Removes pos (pos + count) s (s.erase pos (some count))) ∧
      (∀ pos, Removes pos (max pos s.size) s (s.erase pos none)) ∧
      (∀ pos, Removes 0 (min pos s.readPosition) s (s.consume (some pos))) ∧
      Removes 0 s.readPosition s (s.consume none) := by
  refine ⟨?_, ?_, ?_, ?_, ?_⟩
  · intro pos hpos
    rw [eraseAt_eq h hpos]
    exact removes_without h (Nat.le_succ pos)
  · intro pos count
    rw [erase_eq h]
    exact removes_without h (Nat.le_add_right pos count)
  · intro pos
    have hend : max pos s.size = pos + (s.size - pos) := by omega
    rw [erase_eq h, hend]
    exact removes_without h (Nat.le_add_right pos _)
  · intro pos
    rw [consume_eq, Nat.min_comm pos]
    exact removes_without h (Nat.zero_le _)
  · rw [consume_eq, Option.getD_none, Nat.min_self]
    exact removes_without h (Nat.zero_le _)

/-- A range across the cursor: one of its bytes was read, the other was not. -/
theorem removes_across_cursor :
    Removes 1 3 { buffer := [1, 2, 3, 4], readPosition := 2 } { buffer := [1, 4], readPosition := 1 } :=
  (removes_of_erasure { buffer := [1, 2, 3, 4], readPosition := 2 } (by decide)).2.1 1 2

end SDataStream

/-! ## Sequences of operations -/

inductive StreamOp where
  | write (data : Bytes)
  | pushBack (byte : UInt8)
  | resize (newSize : Nat) (item : UInt8)
  | insert (loc : Nat) (item : UInt8)
  | eraseAt (pos : Nat)
  | erase (pos : Nat) (count : Option Nat)
  | read (count : Option Nat)
  | ignore (count : Nat)
  | rewind (count : Option Nat)
  | seekg (position : Nat)
  | consume (pos : Option Nat)
  | getClear (dst : SDataStream)
  | clear

/-- The stream a call leaves, also when it fails. -/
def leftBy {α : Type} (c : Ser α) (s : SDataStream) : SDataStream :=
  match c.run s with
  | .ok _ s' => s'
  | .error _ s' => s'

/-- An operation on a stream. An iterator has to be one of the buffer. -/
def StreamOp.step (s : SDataStream) : StreamOp → Option SDataStream
  | .write data => some (leftBy (Core.write data) s)
  | .pushBack byte => some (leftBy (Core.pushBack byte) s)
  | .resize newSize item => some (leftBy (Core.resize newSize item) s)
  | .insert loc item => if loc ≤ s.size then some (s.insert loc item) else none
  | .eraseAt pos => if pos ≤ s.size then some (s.eraseAt pos) else none
  | .erase pos count => some (s.erase pos count)
  | .read count => some (leftBy (Core.read count) s)
  | .ignore count => some (s.ignore count)
  | .rewind count => some (s.rewind count)
  | .seekg position => some (s.seekg position).2
  | .consume pos => some (s.consume pos)
  | .getClear dst => some (((s.getClear dst).toOption.map Prod.fst).getD s)
  | .clear => some s.clear

namespace SDataStream

/-- The cursor is in the buffer, what is available does not wrap, and a read that succeeds returns as many bytes as
it was asked for, those at the cursor. -/
def Sound (s : SDataStream) : Prop :=
  s.readPosition ≤ s.size ∧ s.avail = s.size - s.readPosition ∧
    ∀ count bytes s', (read count).run s = .ok bytes s' →
      bytes = slice s.buffer s.readPosition (count.getD (s.size - s.readPosition)) ∧
        bytes.length = count.getD (s.size - s.readPosition)

theorem leftBy_write (data : Bytes) (s : SDataStream) : leftBy (write data) s =
    if s.buffer.length + data.length > kMaxStreamSize then s else { s with buffer := s.buffer ++ data } := by
  rw [leftBy, write_run]
  split_ifs <;> rfl

theorem read_run_getD (count : Option Nat) (s : SDataStream) : (read count).run s =
    if count.getD s.avail > s.avail then .error (.ser .kReadOverflow) s
    else .ok (slice s.buffer s.readPosition (count.getD s.avail))
      { s with readPosition := s.readPosition + count.getD s.avail } := by
  simp only [read]
  split <;> simp [*]

theorem leftBy_read (count : Option Nat) (s : SDataStream) : leftBy (read count) s =
    if count.getD s.avail > s.avail then s else { s with readPosition := s.readPosition + count.getD s.avail } := by
  rw [leftBy, read_run_getD]
  split_ifs <;> rfl

theorem leftBy_resize (newSize : Nat) (item : UInt8) (s : SDataStream) : leftBy (resize newSize item) s =
    if newSize > kMaxStreamSize then s
    else { s with buffer := resized newSize item s.buffer } := by
  simp only [leftBy, resize]
  split_ifs <;> simp [*]

/-- A stream is sound when its cursor is in the buffer. -/
theorem sound_iff (s : SDataStream) : s.Sound ↔ s.readPosition ≤ s.size := by
  constructor
  · exact fun h => h.1
  · intro h
    have havail : s.avail = s.size - s.readPosition := avail_of_le h
    refine ⟨h, havail, ?_⟩
    intro count bytes s' hread
    rw [read_run_getD, havail] at hread
    split_ifs at hread with hfit
    cases hread
    refine ⟨rfl, ?_⟩
    rw [length_slice]
    change min _ (s.size - s.readPosition) = _
    omega

end SDataStream

namespace StreamOp

/-- A `resize` that is done does not go below the cursor. -/
def KeepsUnread (s : SDataStream) : StreamOp → Prop
  | .resize newSize _ => newSize ≤ kMaxStreamSize → s.readPosition ≤ newSize
  | _ => True

/-- **One operation** keeps the cursor in the buffer, unless it is a `resize` below it. -/
theorem step_cursor {s s' : SDataStream} {op : StreamOp} (h : s.readPosition ≤ s.size) (hop : KeepsUnread s op)
    (hstep : step s op = some s') : s'.readPosition ≤ s'.size := by
  cases op with
  | write data =>
      cases hstep
      rw [SDataStream.leftBy_write]
      split_ifs
      · exact h
      · exact h.trans (by simp [SDataStream.size])
  | pushBack byte =>
      cases hstep
      change s.readPosition ≤ (s.buffer ++ [byte]).length
      exact h.trans (by simp [SDataStream.size])
  | resize newSize item =>
      cases hstep
      rw [SDataStream.leftBy_resize]
      split_ifs with hbig
      · exact h
      · exact (hop (by omega)).trans (le_of_eq (length_resized newSize item s.buffer).symm)
  | insert loc item =>
      obtain ⟨hloc, hs'⟩ := Option.ite_none_right_eq_some.mp hstep
      cases hs'
      refine h.trans ?_
      simp only [SDataStream.size, SDataStream.insert, List.length_append, List.length_cons, List.length_take,
        List.length_drop]
      omega
  | eraseAt pos =>
      obtain ⟨hpos, hs'⟩ := Option.ite_none_right_eq_some.mp hstep
      cases hs'
      rw [SDataStream.eraseAt_eq h hpos]
      exact (SDataStream.removes_without h (Nat.le_succ pos)).cursor
  | erase pos count =>
      cases hstep
      rw [SDataStream.erase_eq h]
      exact (SDataStream.removes_without h (Nat.le_add_right pos _)).cursor
  | read count =>
      cases hstep
      have havail : s.avail = s.size - s.readPosition := SDataStream.avail_of_le h
      rw [SDataStream.leftBy_read, havail]
      split_ifs with hfit
      · exact h
      · change s.readPosition + _ ≤ s.size
        omega
  | ignore count =>
      cases hstep
      have havail : s.avail = s.size - s.readPosition := SDataStream.avail_of_le h
      change s.readPosition + min count s.avail ≤ s.size
      omega
  | rewind count =>
      cases hstep
      cases count with
      | none => exact Nat.zero_le _
      | some n =>
          simp only [SDataStream.rewind]
          split_ifs
          · exact (Nat.sub_le _ _).trans h
          · exact h
  | seekg position =>
      cases hstep
      exact Nat.min_le_right _ _
  | consume pos =>
      cases hstep
      rw [SDataStream.consume_eq]
      exact (SDataStream.removes_without h (Nat.zero_le _)).cursor
  | getClear dst =>
      cases hstep
      cases hmoved : s.getClear dst with
      | error e => exact h
      | ok streams =>
          unfold SDataStream.getClear at hmoved
          split at hmoved
          · cases hmoved
            exact Nat.le_refl 0
          · cases hmoved
  | clear =>
      cases hstep
      exact Nat.le_refl 0

theorem keepsUnread_iff (s : SDataStream) (op : StreamOp) (h : s.Sound) :
    KeepsUnread s op ↔ ∀ s' ∈ step s op, s'.Sound := by
  simp only [SDataStream.sound_iff] at h ⊢
  refine ⟨fun hop s' hstep => step_cursor h hop hstep, ?_⟩
  intro hall
  cases op with
  | resize newSize item =>
      intro hfit
      have hafter := hall _ rfl
      rw [SDataStream.leftBy_resize, if_neg (by omega)] at hafter
      exact hafter.trans (le_of_eq (length_resized newSize item s.buffer))
  | _ => trivial

end StreamOp

def SDataStream.ofBytes (data : Bytes) (scope : Scope) (version : Int) : SDataStream :=
  { buffer := data, scope := scope, version := version }

/-- **Sequences of operations.** All the states of a run are sound exactly when every `resize` that is done leaves
what was read: it is the one operation that shortens the buffer without moving the cursor. -/
theorem sound_iff_resize (data : Bytes) (scope : Scope) (version : Int) (ops : List StreamOp) :
    (∀ n, ∀ s ∈ runSystem StreamOp.step (SDataStream.ofBytes data scope version) (ops.take n), s.Sound) ↔
      Throughout StreamOp.step StreamOp.KeepsUnread (SDataStream.ofBytes data scope version) ops :=
  throughout_iff_invariant StreamOp.keepsUnread_iff ((SDataStream.sound_iff _).mpr (Nat.zero_le _)) ops

/-- Two bytes are written and read, then one of them is cut off: `avail` wraps around, and a read of two bytes
succeeds with nothing behind it. -/
theorem unsound_after_resize : ∃ s, runSystem StreamOp.step {} [.write [1, 2], .read (some 2), .resize 1 0] = some s ∧
    ¬ s.Sound ∧ s.avail = 2 ^ 64 - 1 ∧ ∃ s', (read (some 2)).run s = .ok [] s' := by
  refine ⟨{ buffer := [1], readPosition := 2 }, by decide, ?_, by decide, { buffer := [1], readPosition := 4 }, rfl⟩
  rw [SDataStream.sound_iff]
  decide

end Znode.Core
