import Mathlib.Data.Nat.Notation

/-!
# Calls on a state that return, fail or fault

* `Outcome` : how a call ends. It returns a value (`ok`), it returns an error code (`error`), or it does
  not return at all (`fault`); the state reached is kept in all three cases;
* `Act ε φ σ` : the monad of such calls on a state `σ`, with one `run` lemma per operation;
* `Act.Ensures m s Q` : from `s` the call `m` returns, and what it returns satisfies `Q`;
* `Act.Grows f m` : however the call `m` ends, `f` of the state is not smaller than before;
* `Act.Keeps f m` : however the call `m` ends, `f` of the state is what it was;
* `Act.Within I m s Q` : from `s` the call `m` keeps `I` if it does not return, and ensures `Q` if it does.
-/

namespace Znode.Lib

inductive Outcome (ε φ σ α : Type) where
  | ok (a : α) (s : σ)
  | error (e : ε) (s : σ)
  | fault (f : φ) (s : σ)
deriving DecidableEq, Repr

/-- The state reached, however the call ends. -/
def Outcome.state {ε φ σ α : Type} : Outcome ε φ σ α → σ
  | .ok _ s => s
  | .error _ s => s
  | .fault _ s => s

def Outcome.isOk {ε φ σ α : Type} : Outcome ε φ σ α → Bool
  | .ok _ _ => true
  | _ => false

theorem Outcome.eq_ok_of_isOk {ε φ σ : Type} {o : Outcome ε φ σ Unit} (h : o.isOk) : o = .ok () o.state := by
  cases o with
  | ok a s => rfl
  | error e s => cases h
  | fault f s => cases h

/-- Calls on a state `σ` with errors `ε` and faults `φ`. -/
def Act (ε φ σ α : Type) := σ → Outcome ε φ σ α

namespace Act
variable {ε φ σ τ α β : Type}

def run (m : Act ε φ σ α) (s : σ) : Outcome ε φ σ α := m s

instance : Monad (Act ε φ σ) where
  pure a := fun s => .ok a s
  bind m k := fun s =>
    match m s with
    | .ok a s' => k a s'
    | .error e s' => .error e s'
    | .fault f s' => .fault f s'

instance : MonadStateOf σ (Act ε φ σ) where
  get := fun s => .ok s s
  set s' := fun _ => .ok () s'
  modifyGet f := fun s => .ok (f s).1 (f s).2

instance : MonadExceptOf ε (Act ε φ σ) where
  throw e := fun s => .error e s
  tryCatch m h := fun s =>
    match m s with
    | .error e s' => h e s'
    | r => r

def raise (f : φ) : Act ε φ σ α := fun s => .fault f s

/-- Goes on only when `b` holds. -/
def require (f : φ) (b : Bool) : Act ε φ σ Unit := if b then pure () else raise f

/-- An error as a value. -/
def attempt {ε' : Type} (m : Act ε φ σ α) : Act ε' φ σ (Except ε α) := fun s =>
  match m s with
  | .ok a s' => .ok (.ok a) s'
  | .error e s' => .ok (.error e) s'
  | .fault f s' => .fault f s'

def ofExcept (r : Except ε α) : Act ε φ σ α :=
  match r with
  | .ok a => pure a
  | .error e => throw e

def zoom (get : σ → τ) (put : τ → σ → σ) (m : EStateM ε τ α) : Act ε φ σ α := fun s =>
  match m.run (get s) with
  | .ok a t => .ok a (put t s)
  | .error e t => .error e (put t s)

/-- A call on a part of the state that may fault itself. -/
def focus (get : σ → τ) (put : τ → σ → σ) (m : Act ε φ τ α) : Act ε φ σ α := fun s =>
  match m (get s) with
  | .ok a t => .ok a (put t s)
  | .error e t => .error e (put t s)
  | .fault f t => .fault f (put t s)

section Run
variable (s : σ)

@[simp] theorem run_pure (a : α) : (pure a : Act ε φ σ α).run s = .ok a s := rfl

@[simp] theorem run_bind (m : Act ε φ σ α) (k : α → Act ε φ σ β) : (m >>= k).run s =
    match m.run s with
    | .ok a s' => (k a).run s'
    | .error e s' => .error e s'
    | .fault f s' => .fault f s' := rfl

@[simp] theorem run_get : (get : Act ε φ σ σ).run s = .ok s s := rfl

@[simp] theorem run_set (s' : σ) : (set s' : Act ε φ σ PUnit).run s = .ok () s' := rfl

@[simp] theorem run_modify (f : σ → σ) : (modify f : Act ε φ σ PUnit).run s = .ok () (f s) := rfl

@[simp] theorem run_throw (e : ε) : (throw e : Act ε φ σ α).run s = .error e s := rfl

@[simp] theorem run_raise (f : φ) : (raise f : Act ε φ σ α).run s = .fault f s := rfl

@[simp] theorem run_require (f : φ) (b : Bool) :
    (require f b : Act ε φ σ Unit).run s = if b then .ok () s else .fault f s := by
  cases b <;> rfl

@[simp] theorem run_attempt {ε' : Type} (m : Act ε φ σ α) : (m.attempt : Act ε' φ σ (Except ε α)).run s =
    match m.run s with
    | .ok a s' => .ok (.ok a) s'
    | .error e s' => .ok (.error e) s'
    | .fault f s' => .fault f s' := rfl

@[simp] theorem run_ofExcept (r : Except ε α) : (ofExcept r : Act ε φ σ α).run s =
    match r with
    | .ok a => .ok a s
    | .error e => .error e s := by
  cases r <;> rfl

@[simp] theorem run_zoom (get : σ → τ) (put : τ → σ → σ) (m : EStateM ε τ α) :
    (zoom get put m : Act ε φ σ α).run s =
      match m.run (get s) with
      | .ok a t => .ok a (put t s)
      | .error e t => .error e (put t s) := rfl

@[simp] theorem run_focus (get : σ → τ) (put : τ → σ → σ) (m : Act ε φ τ α) :
    (focus get put m : Act ε φ σ α).run s =
      match m.run (get s) with
      | .ok a t => .ok a (put t s)
      | .error e t => .error e (put t s)
      | .fault f t => .fault f (put t s) := rfl

@[simp] theorem run_ite (c : Prop) [Decidable c] (m m' : Act ε φ σ α) :
    (if c then m else m').run s = if c then m.run s else m'.run s := by
  split <;> rfl

theorem run_bind_ok {s s'' : σ} {m : Act ε φ σ α} {k : α → Act ε φ σ β} {b : β}
    (h : (m >>= k).run s = .ok b s'') : ∃ a s', m.run s = .ok a s' ∧ (k a).run s' = .ok b s'' := by
  rw [run_bind] at h
  cases hm : m.run s with
  | ok a s' => exact ⟨a, s', rfl, by rw [hm] at h; exact h⟩
  | error e s' => simp [hm] at h
  | fault f s' => simp [hm] at h

/-- A value computed at the end does not change the state. -/
theorem state_bind_pure (m : Act ε φ σ α) (f : α → β) :
    ((m >>= fun a => pure (f a)).run s).state = (m.run s).state := by
  rw [run_bind]
  cases m.run s <;> rfl

end Run

/-! ## Calls that return -/

/-- From `s` the call `m` returns, with a value and a state that satisfy `Q`. -/
def Ensures (m : Act ε φ σ α) (s : σ) (Q : α → σ → Prop) : Prop :=
  ∃ a s', m.run s = .ok a s' ∧ Q a s'

section Ensures
variable {s : σ} {m : Act ε φ σ α} {k : α → Act ε φ σ β} {Q R : α → σ → Prop} {Q' : β → σ → Prop}

theorem Ensures.pure {a : α} (h : Q a s) : Ensures (Pure.pure a : Act ε φ σ α) s Q := ⟨a, s, rfl, h⟩

theorem Ensures.mono (h : Ensures m s Q) (hQ : ∀ a s', Q a s' → R a s') : Ensures m s R := by
  obtain ⟨a, s', hrun, hq⟩ := h
  exact ⟨a, s', hrun, hQ a s' hq⟩

theorem Ensures.of_run {a : α} {s' : σ} (h : Ensures m s Q) (hrun : m.run s = .ok a s') : Q a s' := by
  obtain ⟨b, t, hrun', hq⟩ := h
  rw [hrun] at hrun'
  cases hrun'
  exact hq

/-- The rule of composition. -/
theorem Ensures.bind (h : Ensures m s Q) (hk : ∀ a s', Q a s' → Ensures (k a) s' Q') :
    Ensures (m >>= k) s Q' := by
  obtain ⟨a, s', hrun, hq⟩ := h
  obtain ⟨b, s'', hrun', hq'⟩ := hk a s' hq
  exact ⟨b, s'', by rw [run_bind, hrun]; exact hrun', hq'⟩

/-- The rule of composition, for a first call that is known. -/
theorem Ensures.step {a : α} {s' : σ} (h : m.run s = .ok a s') (hk : Ensures (k a) s' Q') :
    Ensures (m >>= k) s Q' := by
  obtain ⟨b, s'', hrun, hq⟩ := hk
  exact ⟨b, s'', by rw [run_bind, h]; exact hrun, hq⟩

theorem Ensures.require {f : φ} {c : Bool} {k : Unit → Act ε φ σ β} (hc : c = true) (hk : Ensures (k ()) s Q') :
    Ensures (Act.require f c >>= k) s Q' :=
  Ensures.step (by rw [run_require, if_pos hc]) hk

end Ensures

/-! ## Measures that never shrink -/

/-- However the call ends, `f` is not smaller than before. -/
structure Grows (f : σ → Nat) (m : Act ε φ σ α) : Prop where
  le : ∀ s, f s ≤ f (m.run s).state

namespace Grows
variable {f : σ → Nat} {m m' : Act ε φ σ α} {k : α → Act ε φ σ β}

theorem pure (a : α) : Grows f (Pure.pure a : Act ε φ σ α) := ⟨fun _ => Nat.le_refl _⟩

theorem get : Grows f (MonadState.get : Act ε φ σ σ) := ⟨fun _ => Nat.le_refl _⟩

theorem raise (e : φ) : Grows f (Act.raise e : Act ε φ σ α) := ⟨fun _ => Nat.le_refl _⟩

theorem modify {g : σ → σ} (hg : ∀ s, f s ≤ f (g s)) :
    Grows f (modifyGet fun s => (PUnit.unit, g s) : Act ε φ σ PUnit) := ⟨hg⟩

theorem bind (hm : Grows f m) (hk : ∀ a, Grows f (k a)) : Grows f (m >>= k) := by
  constructor
  intro s
  rw [run_bind]
  have hs := hm.le s
  cases hrun : m.run s with
  | ok a s' =>
      rw [hrun] at hs
      exact Nat.le_trans hs ((hk a).le s')
  | error e s' =>
      rw [hrun] at hs
      exact hs
  | fault e s' =>
      rw [hrun] at hs
      exact hs

theorem ite (c : Prop) [Decidable c] (hm : Grows f m) (hm' : Grows f m') : Grows f (if c then m else m') := by
  split
  · exact hm
  · exact hm'

/-- What a call reaches, a longer one passes. -/
theorem le_bind (hk : ∀ a, Grows f (k a)) (s : σ) : f (m.run s).state ≤ f ((m >>= k).run s).state := by
  rw [run_bind]
  cases m.run s with
  | ok a s' => exact (hk a).le s'
  | error e s' => exact Nat.le_refl _
  | fault e s' => exact Nat.le_refl _

theorem require (e : φ) (c : Bool) : Grows f (Act.require e c : Act ε φ σ Unit) :=
  ite _ (pure ()) (raise e)

end Grows

/-! ## What a call does not touch -/

/-- However the call ends, `f` is what it was. -/
def Keeps (f : σ → τ) (m : Act ε φ σ α) : Prop := ∀ s, f (m.run s).state = f s

namespace Keeps
variable {f : σ → τ} {m m' : Act ε φ σ α} {k : α → Act ε φ σ β}

theorem pure (a : α) : Keeps f (Pure.pure a : Act ε φ σ α) := fun _ => rfl

theorem get : Keeps f (MonadState.get : Act ε φ σ σ) := fun _ => rfl

theorem throw (e : ε) : Keeps f (MonadExcept.throw e : Act ε φ σ α) := fun _ => rfl

theorem raise (e : φ) : Keeps f (Act.raise e : Act ε φ σ α) := fun _ => rfl

theorem modify {g : σ → σ} (hg : ∀ s, f (g s) = f s) :
    Keeps f (modifyGet fun s => (PUnit.unit, g s) : Act ε φ σ PUnit) := hg

theorem bind (hm : Keeps f m) (hk : ∀ a, Keeps f (k a)) : Keeps f (m >>= k) := by
  intro s
  rw [run_bind, ← hm s]
  cases m.run s with
  | ok a s' => exact hk a s'
  | error e s' => rfl
  | fault e s' => rfl

theorem ite (c : Prop) [Decidable c] (hm : Keeps f m) (hm' : Keeps f m') : Keeps f (if c then m else m') := by
  split
  · exact hm
  · exact hm'

/-- A check before the rest of a call. -/
theorem guard (c : Prop) [Decidable c] (e : ε) (hm : Keeps f m) :
    Keeps f (if c then (do MonadExcept.throw e; m) else m) :=
  ite c (bind (throw e) fun _ => hm) hm

theorem attempt {ε' : Type} (hm : Keeps f m) : Keeps f (m.attempt : Act ε' φ σ (Except ε α)) := by
  intro s
  rw [run_attempt, ← hm s]
  cases m.run s <;> rfl

end Keeps

/-! ## Calls that may end early -/

/-- From `s`, the call returns what satisfies `Q`, or ends early in a state that satisfies `I`. -/
def Within (I : σ → Prop) (m : Act ε φ σ α) (s : σ) (Q : α → σ → Prop) : Prop :=
  match m.run s with
  | .ok a s' => Q a s'
  | .error _ s' => I s'
  | .fault _ s' => I s'

namespace Within
variable {I : σ → Prop} {s : σ} {m m' : Act ε φ σ α} {k : α → Act ε φ σ β} {Q : α → σ → Prop} {Q' : β → σ → Prop}

theorem pure {a : α} (h : Q a s) : Within I (Pure.pure a : Act ε φ σ α) s Q := h

theorem bind (hm : Within I m s Q) (hk : ∀ a s', Q a s' → Within I (k a) s' Q') : Within I (m >>= k) s Q' := by
  unfold Within at hm ⊢
  rw [run_bind]
  cases hrun : m.run s with
  | ok a s' =>
      rw [hrun] at hm
      exact hk a s' hm
  | error e s' =>
      rw [hrun] at hm
      exact hm
  | fault e s' =>
      rw [hrun] at hm
      exact hm

theorem step {a : α} {s' : σ} (h : m.run s = .ok a s') (hk : Within I (k a) s' Q') : Within I (m >>= k) s Q' := by
  unfold Within at hk ⊢
  rw [run_bind, h]
  exact hk

theorem ofExcept {r : Except ε α} (hI : I s) (hQ : ∀ a, r = .ok a → Q a s) :
    Within I (Act.ofExcept r : Act ε φ σ α) s Q := by
  cases r with
  | ok a => exact hQ a rfl
  | error e => exact hI

theorem of_forall (hI : ∀ s', I s') (hQ : ∀ a s', m.run s = .ok a s' → Q a s') : Within I m s Q := by
  unfold Within
  cases hrun : m.run s with
  | ok a s' => exact hQ a s' hrun
  | error e s' => exact hI s'
  | fault e s' => exact hI s'

theorem of_keeps {f : σ → τ} {P : τ → Prop} (hm : Keeps f m) (hs : P (f s)) :
    Within (fun s' => P (f s')) m s fun _ s' => P (f s') := by
  have hf := hm s
  unfold Within
  cases hrun : m.run s <;>
    · rw [hrun] at hf
      rw [← hf] at hs
      exact hs

theorem attempt {ε' : Type} (hm : Within I m s Q) :
    Within I (m.attempt : Act ε' φ σ (Except ε α)) s fun r s' =>
      match r with
      | .ok a => Q a s'
      | .error _ => I s' := by
  unfold Within at hm ⊢
  rw [run_attempt]
  cases hrun : m.run s <;>
    · rw [hrun] at hm
      exact hm

theorem focus {get : σ → τ} {put : τ → σ → σ} {c : Act ε φ τ α}
    (hc : Within (fun t => I (put t s)) c (get s) fun a t => Q a (put t s)) :
    Within I (Act.focus get put c) s Q := by
  unfold Within at hc ⊢
  rw [run_focus]
  cases hrun : c.run (get s) <;>
    · rw [hrun] at hc
      exact hc

theorem imp {J : σ → Prop} {R : α → σ → Prop} (hm : Within I m s Q) (hI : ∀ s', I s' → J s')
    (hQ : ∀ a s', Q a s' → R a s') : Within J m s R := by
  unfold Within at hm ⊢
  cases hrun : m.run s with
  | ok a s' =>
      rw [hrun] at hm
      exact hQ a s' hm
  | error e s' =>
      rw [hrun] at hm
      exact hI s' hm
  | fault e s' =>
      rw [hrun] at hm
      exact hI s' hm

theorem mono {R : α → σ → Prop} (hm : Within I m s Q) (hQ : ∀ a s', Q a s' → R a s') : Within I m s R :=
  hm.imp (fun _ h => h) hQ

theorem state (hm : Within I m s fun _ => I) : I (m.run s).state := by
  unfold Within at hm
  cases hrun : m.run s <;>
    · rw [hrun] at hm
      exact hm

end Within

end Act

end Znode.Lib
