import Mathlib.Data.Nat.Notation

/-!
# Machines that answer

A machine is a function `step : σ → ε → α × σ`: what it answers to a call, and its state afterwards.

* `answers step s calls` : the answers to calls that are made one after the other; `after step s calls` : the state
  they lead to;
* `simulation` : two machines whose states stay related, and which give the same answers in related states, cannot be
  told apart by any calls;
* `after_keeps` : what every call keeps, all calls keep.
-/

namespace Znode.Lib

variable {σ τ ε α : Type}

def answers (step : σ → ε → α × σ) : σ → List ε → List α
  | _, [] => []
  | s, e :: calls => (step s e).1 :: answers step (step s e).2 calls

def after (step : σ → ε → α × σ) : σ → List ε → σ
  | s, [] => s
  | s, e :: calls => after step (step s e).2 calls

variable {step : σ → ε → α × σ} {step' : τ → ε → α × τ}

theorem after_keeps {inv : σ → Prop} (hstep : ∀ s e, inv s → inv (step s e).2) {s : σ} (hs : inv s) (calls : List ε) :
    inv (after step s calls) := by
  induction calls generalizing s with
  | nil => exact hs
  | cons e calls ih => exact ih (hstep s e hs)

/-- **The rule of simulation.** -/
theorem simulation {rel : σ → τ → Prop}
    (hstep : ∀ s t e, rel s t → (step s e).1 = (step' t e).1 ∧ rel (step s e).2 (step' t e).2) {s : σ} {t : τ}
    (h : rel s t) (calls : List ε) : answers step s calls = answers step' t calls ∧
      rel (after step s calls) (after step' t calls) := by
  induction calls generalizing s t with
  | nil => exact ⟨rfl, h⟩
  | cons e calls ih =>
      obtain ⟨hanswer, hnext⟩ := hstep s t e h
      obtain ⟨hrest, hlast⟩ := ih hnext
      refine ⟨?_, hlast⟩
      rw [answers, answers, hanswer, hrest]

end Znode.Lib
