import Mathlib
import Znode.Lib.Counts
import Znode.Net.Message

/-!
# Chunks of a byte string

The items of a vectorized payload have a fixed size, and `count_duplicate_data_chunks` looks for two equal ones.

* `dataChunks_spec`, `dataChunks_flatten` : data that are a whole number of chunks, and their chunks;
* `countDuplicates_eq` : what the loop returns, from any set of chunks it has seen and any count;
* `count_duplicate_data_chunks_eq` : the number of chunks without that of the distinct ones, at most the maximum.
-/

namespace Znode.Net
open Znode.Lib Znode.Core

/-! ## The chunks of a byte string -/

theorem dataChunks_succ {data : Bytes} {n s : Nat} (hs : 0 < s) (h : data.length = (n + 1) * s) :
    dataChunks data s = data.take s :: dataChunks (data.drop s) s := by
  have hn : (data.drop s).length = n * s := by
    rw [List.length_drop, h, Nat.add_mul, Nat.one_mul, Nat.add_sub_cancel]
  unfold dataChunks
  rw [h, hn, Nat.mul_div_cancel _ hs, Nat.mul_div_cancel _ hs, List.range_succ_eq_map, List.map_cons, List.map_map]
  refine List.cons_eq_cons.mpr ⟨by simp [slice], List.map_congr_left fun i _ => ?_⟩
  simp only [Function.comp_apply, slice, List.drop_drop]
  rw [Nat.succ_mul, Nat.add_comm]

theorem dataChunks_spec {s : Nat} (hs : 0 < s) (n : Nat) {data : Bytes} (h : data.length = n * s) :
    (dataChunks data s).length = n ∧ (dataChunks data s).flatten = data ∧ ∀ c ∈ dataChunks data s, c.length = s := by
  induction n generalizing data with
  | zero =>
      rw [Nat.zero_mul, List.length_eq_zero_iff] at h
      simp [dataChunks, h]
  | succ n ih =>
      have hrest : (data.drop s).length = n * s := by
        rw [List.length_drop, h, Nat.add_mul, Nat.one_mul, Nat.add_sub_cancel]
      obtain ⟨hcount, hflat, hlen⟩ := ih hrest
      rw [dataChunks_succ hs h]
      refine ⟨by rw [List.length_cons, hcount], by rw [List.flatten_cons, hflat, List.take_append_drop], ?_⟩
      rw [List.forall_mem_cons]
      refine ⟨?_, hlen⟩
      rw [List.length_take, h, Nat.add_mul, Nat.one_mul]
      omega

theorem dataChunks_flatten {s : Nat} (hs : 0 < s) {l : List Bytes} (h : ∀ c ∈ l, c.length = s) :
    dataChunks l.flatten s = l := by
  induction l with
  | nil => simp [dataChunks]
  | cons c l ih =>
      obtain ⟨hc, hl⟩ := List.forall_mem_cons.mp h
      have hlen : (c :: l).flatten.length = (l.length + 1) * s := length_flatten_of_length h
      rw [dataChunks_succ hs hlen, List.flatten_cons, List.take_left' hc, List.drop_left' hc, ih hl]

/-! ## The search for duplicates -/

/-- A count that stops at a maximum, where there is one. -/
def capped (maxCount count : Nat) : Nat := if maxCount = 0 then count else min maxCount count

theorem capped_pos_iff {maxCount count : Nat} : 0 < capped maxCount count ↔ 0 < count := by
  unfold capped
  split_ifs <;> omega

/-- **The loop** adds to its count the chunks that are found again, up to the maximum. -/
theorem countDuplicates_eq {maxCount count : Nat} (hcount : maxCount = 0 ∨ count < maxCount)
    (chunks uniqueChunks : List Bytes) :
    countDuplicates maxCount chunks uniqueChunks count = capped maxCount (count + repeated chunks uniqueChunks) := by
  induction chunks generalizing uniqueChunks count with
  | nil =>
      rw [countDuplicates, repeated_of_nil, capped]
      split_ifs <;> omega
  | cons chunk chunks ih =>
      rw [countDuplicates]
      by_cases hmem : chunk ∈ uniqueChunks
      · rw [if_pos hmem, repeated_cons_of_mem hmem]
        split_ifs with hmax
        · rw [capped, if_neg hmax.1]
          omega
        · rw [ih (by omega)]
          congr 1
          omega
      · rw [if_neg hmem, repeated_cons_of_notMem hmem, ih hcount]

theorem dataChunks_of_short {data : Bytes} {chunkSize : Nat} (h : chunkSize = 0 ∨ data.length < chunkSize) :
    dataChunks data chunkSize = [] := by
  have hnone : data.length / chunkSize = 0 := by
    rcases h with h | h
    · rw [h, Nat.div_zero]
    · exact Nat.div_eq_of_lt h
  simp [dataChunks, hnone]

theorem countDuplicateDataChunks_eq (data : Bytes) (chunkSize maxCount : Nat) :
    countDuplicateDataChunks data chunkSize maxCount = capped maxCount (repeated (dataChunks data chunkSize) []) := by
  unfold countDuplicateDataChunks
  split_ifs with hshort
  · rw [dataChunks_of_short hshort, repeated_of_nil, capped]
    split_ifs <;> omega
  · rw [countDuplicates_eq (by omega), Nat.zero_add]

/-- Some chunk occurs twice exactly when a duplicate is counted, whatever the maximum is. -/
theorem countDuplicateDataChunks_pos_iff (data : Bytes) (chunkSize maxCount : Nat) :
    0 < countDuplicateDataChunks data chunkSize maxCount ↔ ¬ (dataChunks data chunkSize).Nodup := by
  rw [countDuplicateDataChunks_eq, capped_pos_iff, repeated_pos_iff]

/-- Two places with the same chunk. -/
theorem not_nodup_dataChunks_iff (data : Bytes) (chunkSize : Nat) : ¬ (dataChunks data chunkSize).Nodup ↔
    ∃ i j, i < j ∧ j < data.length / chunkSize ∧
      slice data (i * chunkSize) chunkSize = slice data (j * chunkSize) chunkSize := by
  rw [dataChunks, List.Nodup, List.pairwise_map, List.pairwise_iff_getElem]
  simp only [List.length_range, List.getElem_range, not_forall, not_not]
  constructor
  · rintro ⟨i, j, -, hj, hij, heq⟩
    exact ⟨i, j, hij, hj, heq⟩
  · rintro ⟨i, j, hij, hj, heq⟩
    exact ⟨i, j, hij.trans hj, hj, hij, heq⟩

/-- **Duplicate chunks are counted exactly.** The count is the number of complete chunks without that of the distinct
ones, at most `maxCount` if that is not zero. It is zero when the size is zero or exceeds the data, and with a maximum
of one it tells whether two complete chunks are equal. -/
theorem count_duplicate_data_chunks_eq (data : Bytes) (chunkSize maxCount : Nat) :
    let chunks := (List.range (data.length / chunkSize)).map fun i => slice data (i * chunkSize) chunkSize
    countDuplicateDataChunks data chunkSize maxCount =
      (if maxCount = 0 then chunks.length - chunks.toFinset.card
        else min maxCount (chunks.length - chunks.toFinset.card)) ∧
    (chunkSize = 0 ∨ data.length < chunkSize → countDuplicateDataChunks data chunkSize maxCount = 0) ∧
    (countDuplicateDataChunks data chunkSize 1 ≠ 0 ↔ ∃ i j, i < j ∧ j < data.length / chunkSize ∧
      slice data (i * chunkSize) chunkSize = slice data (j * chunkSize) chunkSize) := by
  refine ⟨?_, ?_, ?_⟩
  · rw [countDuplicateDataChunks_eq, repeated_nil]
    rfl
  · intro hshort
    rw [countDuplicateDataChunks, if_pos hshort]
  · rw [← not_nodup_dataChunks_iff, ← countDuplicateDataChunks_pos_iff data chunkSize 1, Nat.pos_iff_ne_zero]

end Znode.Net
