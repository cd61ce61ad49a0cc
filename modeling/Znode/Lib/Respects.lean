import Mathlib.Data.Nat.Notation

/-!
# Calls that respect a relation on their states

`Respects R c` : a call `c` that returns does so with the same value from every related state, and the
states it leaves are related again. The rules below follow the operations of `EStateM`; a relation is
then checked for the primitive calls alone.
-/

namespace Znode.Lib

variable {ε ρ α β : Type} {R : ρ → ρ → Prop}

/-- Where `c` returns, it returns the same value from a related state, and ends in related states. -/
def Respects (R : ρ → ρ → Prop) (c : EStateM ε ρ α) : Prop :=
  ∀ s t a s', R s t → c.run s = .ok a s' → ∃ t', c.run t = .ok a t' ∧ R s' t'

theorem bind_eq_ok {c : EStateM ε ρ α} {k : α → EStateM ε ρ β} {s s' : ρ} {b : β} (h : (c >>= k).run s = .ok b s') :
    ∃ a s₁, c.run s = .ok a s₁ ∧ (k a).run s₁ = .ok b s' := by
  rw [EStateM.run_bind] at h
  cases hrun : c.run s with
  | error e s₁ => simp [hrun] at h
  | ok a s₁ => exact ⟨a, s₁, rfl, by simpa [hrun] using h⟩

namespace Respects

theorem pure (a : α) : Respects R (Pure.pure a : EStateM ε ρ α) := by
  rintro s t b s' hR ⟨⟩
  exact ⟨t, rfl, hR⟩

theorem throw (e : ε) : Respects R (MonadExcept.throw e : EStateM ε ρ α) := by
  rintro s t a s' - ⟨⟩

theorem bind {c : EStateM ε ρ α} {k : α → EStateM ε ρ β} (hc : Respects R c) (hk : ∀ a, Respects R (k a)) :
    Respects R (c >>= k) := by
  intro s t b s' hR h
  obtain ⟨a, s1, hrun, hrest⟩ := bind_eq_ok h
  obtain ⟨t1, ht1, hR1⟩ := hc s t a s1 hR hrun
  obtain ⟨t', ht', hR'⟩ := hk a s1 t1 b s' hR1 hrest
  exact ⟨t', by rw [EStateM.run_bind, ht1]; exact ht', hR'⟩

theorem get {k : ρ → EStateM ε ρ α} (hk : ∀ s, Respects R (k s)) (hv : ∀ s t, R s t → k s = k t) :
    Respects R (MonadState.get >>= k) := by
  intro s t a s' hR h
  obtain ⟨t', ht', hR'⟩ := hk s s t a s' hR h
  refine ⟨t', ?_, hR'⟩
  change (k t).run t = _
  rw [← hv s t hR]
  exact ht'

theorem ite {c : Prop} [Decidable c] {m m' : EStateM ε ρ α} (hm : Respects R m) (hm' : Respects R m') :
    Respects R (if c then m else m') := by
  split
  · exact hm
  · exact hm'

theorem guard {c : Prop} [Decidable c] (e : ε) {k : EStateM ε ρ α} (hk : Respects R k) :
    Respects R (if c then (do MonadExcept.throw e; k) else k) :=
  ite ((throw e).bind fun _ => hk) hk

end Respects

end Znode.Lib
