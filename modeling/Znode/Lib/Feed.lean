import Mathlib.Data.List.Basic

/-!
# Incremental recognisers

A recogniser looks at the input seen so far and asks for more, fails, or is done after a prefix.
`Stable` says that a failure and a completion survive more input. A machine `step` fed in pieces
follows a recogniser (`Follows`) when from the state `pending C` of an unfinished input `C` it
answers on a piece `D` as the recogniser does on `C ++ D`. Then the pieces do not matter
(`Follows.feed_pending`): feeding them one by one answers as the recogniser does on their
concatenation.

A stream of complete items cut into pieces: `completions` says which items each piece completes.
-/

namespace Znode.Lib

variable {α σ ε : Type}

/-- What a recogniser says of the input seen so far; `done n` is complete after `n` elements. -/
inductive Verdict (ε : Type) where
  | more
  | fail (e : ε)
  | done (n : Nat)
deriving DecidableEq, Repr

/-- The answer of a machine to one piece of input: the state after it and the input left over. -/
inductive Reply (α σ ε : Type) where
  | more (s : σ)
  | fail (e : ε) (s : σ) (rest : List α)
  | done (s : σ) (rest : List α)
deriving Repr

/-- A failure and a completion survive more input. -/
structure Stable (scan : List α → Verdict ε) : Prop where
  fail : ∀ {C e}, scan C = .fail e → ∀ D, ∃ e', scan (C ++ D) = .fail e'
  done : ∀ {C n}, scan C = .done n → n ≤ C.length ∧ ∀ D, scan (C ++ D) = .done n

/-- `step` answers on unfinished input as `scan` does: `pending C` is the state after the unfinished
input `C`, `final C` the state after the complete input `C`. The call returns (`some`). -/
structure Follows (scan : List α → Verdict ε) (pending final : List α → σ)
    (step : σ → List α → Option (Reply α σ ε)) : Prop where
  more : ∀ {C D}, scan C = .more → D ≠ [] → scan (C ++ D) = .more →
    step (pending C) D = some (.more (pending (C ++ D)))
  fail : ∀ {C D e}, scan C = .more → D ≠ [] → scan (C ++ D) = .fail e →
    ∃ s rest, step (pending C) D = some (.fail e s rest)
  done : ∀ {C D n}, scan C = .more → D ≠ [] → scan (C ++ D) = .done n →
    step (pending C) D = some (.done (final ((C ++ D).take n)) ((C ++ D).drop n))

/-- Feed the pieces one by one, up to the first answer other than `more`; what is left over is
followed by the pieces not fed. -/
def feed (step : σ → List α → Option (Reply α σ ε)) : σ → List (List α) → Option (Reply α σ ε)
  | s, [] => some (.more s)
  | s, c :: cs =>
    match step s c with
    | none => none
    | some (.more s') => feed step s' cs
    | some (.fail e s' rest) => some (.fail e s' (rest ++ cs.flatten))
    | some (.done s' rest) => some (.done s' (rest ++ cs.flatten))

/-- How a reply agrees with the verdict on the whole input `B`. -/
def Agrees (pending final : List α → σ) (B : List α) : Verdict ε → Option (Reply α σ ε) → Prop
  | .more, r => r = some (.more (pending B))
  | .fail _, r => ∃ e s rest, r = some (.fail e s rest)
  | .done n, r => r = some (.done (final (B.take n)) (B.drop n))

/-- **The pieces do not matter.** -/
theorem Follows.feed_pending {scan : List α → Verdict ε} {pending final : List α → σ}
    {step : σ → List α → Option (Reply α σ ε)} (hf : Follows scan pending final step)
    (hs : Stable scan) : ∀ (cs : List (List α)) (C : List α), scan C = .more →
      (∀ c ∈ cs, c ≠ []) →
      Agrees pending final (C ++ cs.flatten) (scan (C ++ cs.flatten)) (feed step (pending C) cs) := by
  intro cs
  induction cs with
  | nil =>
      intro C hC _
      simp [feed, Agrees, hC]
  | cons c cs ih =>
      intro C hC hne
      have hc : c ≠ [] := hne c (List.mem_cons_self ..)
      rw [List.flatten_cons, ← List.append_assoc]
      cases h : scan (C ++ c) with
      | more =>
          rw [feed, hf.more hC hc h]
          exact ih (C ++ c) h fun d hd => hne d (List.mem_cons_of_mem _ hd)
      | fail e =>
          -- the machine stops here; the recogniser still fails on the whole
          obtain ⟨s, rest, hstep⟩ := hf.fail hC hc h
          obtain ⟨e', he'⟩ := hs.fail h cs.flatten
          rw [feed, hstep, he']
          exact ⟨e, s, _, rfl⟩
      | done n =>
          obtain ⟨hn, hD⟩ := hs.done h
          rw [feed, hf.done hC hc h, hD cs.flatten]
          simp only [Agrees]
          rw [List.take_append_of_le_length hn, List.drop_append_of_le_length hn]

/-! ## Streams of complete items -/

theorem Stable.more_of_append {scan : List α → Verdict ε} (hs : Stable scan) {C D : List α}
    (h : scan (C ++ D) = .more) : scan C = .more := by
  cases hC : scan C with
  | more => rfl
  | fail e =>
      obtain ⟨e', he'⟩ := hs.fail hC D
      rw [he'] at h
      cases h
  | done n =>
      rw [(hs.done hC).2 D] at h
      cases h

/-- Nothing short of a complete item is complete. -/
theorem Stable.more_of_lt {scan : List α → Verdict ε} (hs : Stable scan) {C D : List α} {n : Nat}
    (h : scan (C ++ D) = .done n) (hlt : C.length < n) : scan C = .more := by
  cases hC : scan C with
  | more => rfl
  | fail e =>
      obtain ⟨e', he'⟩ := hs.fail hC D
      rw [he'] at h
      cases h
  | done m =>
      obtain ⟨hm, hdone⟩ := hs.done hC
      rw [hdone D] at h
      cases h
      omega

/-- Two ways to cut one list: the longer first part starts with the shorter one. -/
theorem append_split {A R B S : List α} (h : A ++ R = B ++ S) (hle : B.length ≤ A.length) :
    ∃ E, A = B ++ E ∧ S = E ++ R := by
  rcases List.append_eq_append_iff.mp h with ⟨E, rfl, hR⟩ | ⟨E, hA, hS⟩
  · have hE : E = [] := by
      rw [List.length_append] at hle
      exact List.eq_nil_of_length_eq_zero (by omega)
    subst hE
    exact ⟨[], by simp, by simpa using hR.symm⟩
  · exact ⟨E, hA, hS⟩

/-- An unfinished input is shorter than the complete item it begins. -/
theorem Stable.lt_of_more {scan : List α → Verdict ε} (hs : Stable scan) {C D x S : List α} {n : Nat}
    (hC : scan C = .more) (hx : scan x = .done n) (h : C ++ D = x ++ S) : C.length < x.length := by
  by_contra hle
  obtain ⟨E, rfl, -⟩ := append_split h (Nat.not_lt.mp hle)
  rw [(hs.done hx).2 E] at hC
  cases hC

section Items
variable {β : Type}

def contents (items : List (List α × β)) : List α := (items.map Prod.fst).flatten

@[simp] theorem contents_nil : contents ([] : List (List α × β)) = [] := rfl

@[simp] theorem contents_cons (x : List α × β) (items : List (List α × β)) :
    contents (x :: items) = x.1 ++ contents items := rfl

@[simp] theorem contents_append (items items' : List (List α × β)) :
    contents (items ++ items') = contents items ++ contents items' := by
  simp [contents]

/-- The items that end within the first `n` elements. -/
def completeWithin : List (List α × β) → Nat → List (List α × β)
  | [], _ => []
  | x :: items, n => if x.1.length ≤ n then x :: completeWithin items (n - x.1.length) else []

/-- The items each piece completes, when `seen` elements of the first one are already there. -/
def completions (items : List (List α × β)) (seen : Nat) : List (List α) → List (List (List α × β))
  | [] => []
  | piece :: pieces =>
    let done := completeWithin items (seen + piece.length)
    done :: completions (items.drop done.length) (seen + piece.length - (contents done).length) pieces

theorem completeWithin_append_drop (items : List (List α × β)) (n : Nat) :
    completeWithin items n ++ items.drop (completeWithin items n).length = items := by
  induction items generalizing n with
  | nil => rfl
  | cons x items ih =>
      unfold completeWithin
      split_ifs with h
      · rw [List.cons_append, List.length_cons, List.drop_succ_cons, ih]
      · rfl

theorem length_contents_completeWithin (items : List (List α × β)) (n : Nat) :
    (contents (completeWithin items n)).length ≤ n := by
  induction items generalizing n with
  | nil => exact Nat.zero_le n
  | cons x items ih =>
      unfold completeWithin
      split_ifs with h
      · have := ih (n - x.1.length)
        rw [contents_cons, List.length_append]
        omega
      · exact Nat.zero_le n

/-- What is left of the first `n` elements does not complete the next item. -/
theorem rest_lt_of_completeWithin {items rest : List (List α × β)} {x : List α × β} {n : Nat}
    (h : items.drop (completeWithin items n).length = x :: rest) :
    n < (contents (completeWithin items n)).length + x.1.length := by
  induction items generalizing n with
  | nil => simp at h
  | cons y items ih =>
      unfold completeWithin at h ⊢
      split_ifs at h ⊢ with hy
      · rw [List.length_cons, List.drop_succ_cons] at h
        have := ih h
        rw [contents_cons, List.length_append]
        omega
      · rw [List.length_nil, List.drop_zero, List.cons.injEq] at h
        rw [← h.1]
        simpa using hy

/-- The stream after the items within its first part `A` were taken off. -/
theorem contents_drop_completeWithin {items : List (List α × β)} {A R T : List α}
    (h : A ++ R = contents items ++ T) :
    A.drop (contents (completeWithin items A.length)).length ++ R =
      contents (items.drop (completeWithin items A.length).length) ++ T := by
  have hitems := completeWithin_append_drop items A.length
  rw [← hitems, contents_append, List.append_assoc] at h
  obtain ⟨E, hA, hrest⟩ := append_split h (length_contents_completeWithin items A.length)
  calc A.drop (contents (completeWithin items A.length)).length ++ R
      = (contents (completeWithin items A.length) ++ E).drop (contents (completeWithin items A.length)).length ++
        R := by
        rw [← hA]
    _ = E ++ R := by rw [List.drop_left]
    _ = contents (items.drop (completeWithin items A.length).length) ++ T := hrest.symm

end Items

end Znode.Lib
