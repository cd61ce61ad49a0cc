import Mathlib

/-!
# The salted Jenkins hash

`Jenkins::Hash` is meant to be the `lookup3` hash of the words of a source, each of them combined with a word of a salt.

* `Jenkins.hash` : the code. In a full block the third word is added to `b`, and the first one of the last words is not
  added at all;
* `Jenkins.lookup3` : the `hashword2` of lookup3 with zero initial values;
* `hashWords_congr` : the code does not read one of the words;
* `exists_lookup3_ne` : lookup3 depends on it. The words before it can be chosen freely, and the mixing function takes
  every state to every other one;
* `hashWords_eq_lookup3Words` : where the words in question are those of the salt, the two agree;
* `hash_eq_lookup3_iff` : they agree on all inputs of a length only when there are no words.

A pointer is the function that reads from it.
-/

namespace Znode.Core.Jenkins

abbrev Word := BitVec 32

structure Words where
  a : Word
  b : Word
  c : Word
deriving DecidableEq, Repr

def hashMix (s : Words) : Words :=
  let a := s.a - s.c
  let a := a ^^^ s.c.rotateLeft 4
  let c := s.c + s.b
  let b := s.b - a
  let b := b ^^^ a.rotateLeft 6
  let a := a + c
  let c := c - b
  let c := c ^^^ b.rotateLeft 8
  let b := b + a
  let a := a - c
  let a := a ^^^ c.rotateLeft 16
  let c := c + b
  let b := b - a
  let b := b ^^^ a.rotateLeft 19
  let a := a + c
  let c := c - b
  let c := c ^^^ b.rotateLeft 4
  let b := b + a
  ⟨a, b, c⟩

def hashFinal (s : Words) : Words :=
  let c := s.c ^^^ s.b
  let c := c - s.b.rotateLeft 14
  let a := s.a ^^^ c
  let a := a - c.rotateLeft 11
  let b := s.b ^^^ a
  let b := b - a.rotateLeft 25
  let c := c ^^^ b
  let c := c - b.rotateLeft 16
  let a := a ^^^ c
  let a := a - c.rotateLeft 4
  let b := b ^^^ a
  let b := b - a.rotateLeft 14
  let c := c ^^^ b
  let c := c - b.rotateLeft 24
  ⟨a, b, c⟩

/-- `a`, `b` and `c` before the first word; `n` words are `4 * n` bytes. -/
def init (n : Nat) : Words :=
  let a := 0xdeadbeef + BitVec.ofNat 32 (n * 4)
  ⟨a, a, a⟩

/-- `(b << 32) | c`. -/
def pack (s : Words) : BitVec 64 := s.b.setWidth 64 <<< 32 ||| s.c.setWidth 64

/-- The loop over the full blocks, and the `switch` over what is left. -/
def hashWords : Nat → (Nat → Word) → (Nat → Word) → Words → Words
  | n + 4, source, salt, s =>
    hashWords (n + 1) (fun i => source (i + 3)) (fun i => salt (i + 3))
      (hashMix ⟨s.a + (source 0 ^^^ salt 0), s.b + (source 1 ^^^ salt 1) + (source 2 ^^^ salt 2), s.c⟩)
  | 3, source, salt, s => hashFinal ⟨s.a, s.b + (source 1 ^^^ salt 1), s.c + (source 2 ^^^ salt 2)⟩
  | 2, source, salt, s => hashFinal ⟨s.a, s.b + (source 1 ^^^ salt 1), s.c⟩
  | 1, _, _, s => hashFinal s
  | 0, _, _, s => s

def hash (source : Nat → Word) (length : Nat) (salt : Nat → Word) : BitVec 64 :=
  pack (hashWords length source salt (init length))

/-! ## The reference -/

/-- `hashword2` of lookup3: three words are added to `a`, `b` and `c` in every round, and the last one to three words
before the final mix. -/
def lookup3Words : Nat → (Nat → Word) → Words → Words
  | n + 4, k, s => lookup3Words (n + 1) (fun i => k (i + 3)) (hashMix ⟨s.a + k 0, s.b + k 1, s.c + k 2⟩)
  | 3, k, s => hashFinal ⟨s.a + k 0, s.b + k 1, s.c + k 2⟩
  | 2, k, s => hashFinal ⟨s.a + k 0, s.b + k 1, s.c⟩
  | 1, k, s => hashFinal ⟨s.a + k 0, s.b, s.c⟩
  | 0, _, s => s

def lookup3 (n : Nat) (k : Nat → Word) : BitVec 64 := pack (lookup3Words n k (init n))

/-! ## The word that is left out -/

/-- The first of the last words. -/
def ignored (n : Nat) : Nat := 3 * ((n - 1) / 3)

/-- The code does not read it. -/
theorem hashWords_congr {source source' : Nat → Word} (salt : Nat → Word) {n : Nat} (s : Words)
    (h : ∀ i, i ≠ ignored n → source i = source' i) : hashWords n source salt s = hashWords n source' salt s := by
  unfold ignored at h
  fun_induction hashWords n source salt s generalizing source' with
  | case1 n source salt s ih =>
      rw [hashWords, ← h 0 (by omega), ← h 1 (by omega), ← h 2 (by omega)]
      exact ih fun i hi => h (i + 3) (by omega)
  | case2 source salt s => rw [hashWords, h 1 (by omega), h 2 (by omega)]
  | case3 source salt s => rw [hashWords, h 1 (by omega)]
  | case4 => rfl
  | case5 => rfl

/-- The words that are not added where lookup3 adds them: the third one of each full block, and the ignored one. -/
def misplaced (n i : Nat) : Prop := i < n ∧ (i = ignored n ∨ i % 3 = 2 ∧ i < ignored n)

/-- They do not matter when nothing is left of them. -/
theorem hashWords_eq_lookup3Words {source salt : Nat → Word} {n : Nat} (s : Words)
    (h : ∀ i, misplaced n i → source i = salt i) :
    hashWords n source salt s = lookup3Words n (fun i => source i ^^^ salt i) s := by
  unfold misplaced ignored at h
  fun_induction hashWords n source salt s with
  | case1 n source salt s ih =>
      have hthird := BitVec.xor_eq_zero_iff.mpr (h 2 (by omega))
      refine (ih fun i hi => h (i + 3) (by omega)).trans ?_
      rw [lookup3Words, hthird, BitVec.add_zero, BitVec.add_zero]
  | case2 source salt s => rw [lookup3Words, BitVec.xor_eq_zero_iff.mpr (h 0 (by omega)), BitVec.add_zero]
  | case3 source salt s => rw [lookup3Words, BitVec.xor_eq_zero_iff.mpr (h 0 (by omega)), BitVec.add_zero]
  | case4 source salt s => rw [lookup3Words, BitVec.xor_eq_zero_iff.mpr (h 0 (by omega)), BitVec.add_zero]
  | case5 => rfl

/-! ## The mixing function reaches every state -/

/-- One of the six steps of `HashMix`, on `a`. -/
def mixA (k : Nat) (s : Words) : Words := ⟨(s.a - s.c) ^^^ s.c.rotateLeft k, s.b, s.c + s.b⟩

def mixB (k : Nat) (s : Words) : Words := ⟨s.a + s.c, (s.b - s.a) ^^^ s.a.rotateLeft k, s.c⟩

def mixC (k : Nat) (s : Words) : Words := ⟨s.a, s.b + s.a, (s.c - s.b) ^^^ s.b.rotateLeft k⟩

theorem hashMix_eq : hashMix = mixC 4 ∘ mixB 19 ∘ mixA 16 ∘ mixC 8 ∘ mixB 6 ∘ mixA 4 := rfl

theorem sub_xor_cancel (x y z : Word) : ((x ^^^ y) + z - z) ^^^ y = x := by
  rw [BitVec.add_sub_cancel, BitVec.xor_assoc, BitVec.xor_self, BitVec.xor_zero]

theorem mixA_surjective (k : Nat) : Function.Surjective (mixA k) := by
  intro s
  refine ⟨⟨(s.a ^^^ (s.c - s.b).rotateLeft k) + (s.c - s.b), s.b, s.c - s.b⟩, ?_⟩
  simp only [mixA, sub_xor_cancel, BitVec.sub_add_cancel]

theorem mixB_surjective (k : Nat) : Function.Surjective (mixB k) := by
  intro s
  refine ⟨⟨s.a - s.c, (s.b ^^^ (s.a - s.c).rotateLeft k) + (s.a - s.c), s.c⟩, ?_⟩
  simp only [mixB, sub_xor_cancel, BitVec.sub_add_cancel]

theorem mixC_surjective (k : Nat) : Function.Surjective (mixC k) := by
  intro s
  refine ⟨⟨s.a, s.b - s.a, (s.c ^^^ (s.b - s.a).rotateLeft k) + (s.b - s.a)⟩, ?_⟩
  simp only [mixC, sub_xor_cancel, BitVec.sub_add_cancel]

theorem hashMix_surjective : Function.Surjective hashMix := by
  rw [hashMix_eq]
  exact (mixC_surjective 4).comp ((mixB_surjective 19).comp ((mixA_surjective 16).comp
    ((mixC_surjective 8).comp ((mixB_surjective 6).comp (mixA_surjective 4)))))

/-! ## The reference reads it -/

def Sensitive (s : Words) : Prop := pack (hashFinal s) ≠ pack (hashFinal { s with a := s.a + 1 })

/-- Two inputs that differ in the word the code leaves out, with different hashes. -/
def Distinguished (n : Nat) (s : Words) : Prop :=
  ∃ k k' : Nat → Word, (∀ i, i ≠ ignored n → k i = k' i) ∧ pack (lookup3Words n k s) ≠ pack (lookup3Words n k' s)

def prepend (x y z : Word) (k : Nat → Word) : Nat → Word
  | 0 => x
  | 1 => y
  | 2 => z
  | i + 3 => k i

/-- One to three words are enough. -/
theorem Sensitive.distinguished {s : Words} (h : Sensitive s) {n : Nat} (hpos : 0 < n) (hn : n < 4) :
    Distinguished n s := by
  have hzero : ignored n = 0 := by
    unfold ignored
    omega
  refine ⟨fun _ => 0, fun i => if i = 0 then 1 else 0, fun i hi => (if_neg (hzero ▸ hi)).symm, ?_⟩
  interval_cases n
  all_goals simpa [lookup3Words, Sensitive] using h

/-- A full block before: its words are chosen so that the mix reaches a given state. -/
theorem Distinguished.block {n : Nat} {s₀ : Words} (h : Distinguished (n + 1) s₀) (s : Words) :
    Distinguished (n + 4) s := by
  obtain ⟨k, k', hagree, hne⟩ := h
  obtain ⟨t, ht⟩ := hashMix_surjective s₀
  have hreach : ∀ k, lookup3Words (n + 4) (prepend (t.a - s.a) (t.b - s.b) (t.c - s.c) k) s =
      lookup3Words (n + 1) k s₀ := by
    intro k
    change lookup3Words (n + 1) k (hashMix ⟨s.a + (t.a - s.a), s.b + (t.b - s.b), s.c + (t.c - s.c)⟩) = _
    simp only [BitVec.add_comm s.a, BitVec.add_comm s.b, BitVec.add_comm s.c, BitVec.sub_add_cancel, ht]
  refine ⟨prepend (t.a - s.a) (t.b - s.b) (t.c - s.c) k, prepend (t.a - s.a) (t.b - s.b) (t.c - s.c) k', ?_, ?_⟩
  · intro i hi
    rcases i with _ | _ | _ | i
    · rfl
    · rfl
    · rfl
    · refine hagree i fun heq => hi ?_
      unfold ignored at heq ⊢
      omega
  · rwa [hreach, hreach]

theorem sensitive_zero : Sensitive ⟨0, 0, 0⟩ := by
  unfold Sensitive
  decide +kernel

theorem sensitive_init : ∀ n < 4, Sensitive (init n) := by
  unfold Sensitive
  decide +kernel

theorem distinguished_zero {n : Nat} (hpos : 0 < n) : Distinguished n ⟨0, 0, 0⟩ := by
  induction n using Nat.strongRecOn with
  | ind n ih =>
      by_cases hn : n < 4
      · exact sensitive_zero.distinguished hpos hn
      · obtain ⟨m, rfl⟩ := Nat.exists_eq_add_of_le' (Nat.le_of_not_lt hn)
        exact (ih (m + 1) (by omega) (Nat.succ_pos m)).block _

theorem exists_lookup3_ne {n : Nat} (hpos : 0 < n) : Distinguished n (init n) := by
  by_cases hn : n < 4
  · exact (sensitive_init n hn).distinguished hpos hn
  · obtain ⟨m, rfl⟩ := Nat.exists_eq_add_of_le' (Nat.le_of_not_lt hn)
    exact (distinguished_zero (Nat.succ_pos m)).block _

/-- **The code is lookup3 on all inputs of `n` words** only for `n = 0`. It is on those inputs whose misplaced words
are the words of the salt. -/
theorem hash_eq_lookup3_iff (n : Nat) :
    ((∀ source salt : Nat → Word, hash source n salt = lookup3 n fun i => source i ^^^ salt i) ↔ n = 0) ∧
      ∀ source salt : Nat → Word, (∀ i, misplaced n i → source i = salt i) →
        hash source n salt = lookup3 n fun i => source i ^^^ salt i := by
  refine ⟨⟨?_, ?_⟩, fun source salt h => congrArg pack (hashWords_eq_lookup3Words (init n) h)⟩
  · intro hall
    by_contra hne
    obtain ⟨k, k', hagree, hdiffer⟩ := exists_lookup3_ne (Nat.pos_of_ne_zero hne)
    -- without a salt the two inputs have the same hash
    have hk := hall k fun _ => 0#32
    have hk' := hall k' fun _ => 0#32
    simp only [BitVec.xor_zero] at hk hk'
    refine hdiffer (hk.symm.trans (Eq.trans ?_ hk'))
    rw [hash, hash, hashWords_congr _ _ hagree]
  · rintro rfl source salt
    rfl

/-- The only word is not read. -/
theorem hash_one_word : hash (fun _ => 1) 1 (fun _ => 0) = hash (fun _ => 0) 1 (fun _ => 0) ∧
    hash (fun _ => 1) 1 (fun _ => 0) ≠ lookup3 1 fun _ => 1 ^^^ 0 := by
  refine ⟨rfl, ?_⟩
  decide +kernel

end Znode.Core.Jenkins
