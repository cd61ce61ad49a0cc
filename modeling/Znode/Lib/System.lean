import Mathlib.Data.Nat.Notation

/-!
# Transition systems

A system is a partial function `step : σ → ε → Option σ`: what an event does to a state, where it can happen.

* `runSystem step s events` : the state after the events, when each of them can happen in its turn;
* `Throughout step p s events` : every event of a run meets `p`, a condition on the state before it;
* `runSystem_invariant` : what every step that meets the condition keeps, every such run keeps;
* `runSystem_keeps` : the same without a condition;
* `throughout_iff` : the condition, event by event;
* `throughout_iff_invariant` : where the condition says exactly which steps keep the invariant, the runs that meet
  it are those in which no state breaks the invariant;
* `throughout_iff_goal` : the same for what the invariant says under facts that every step keeps;
* `throughout_iff_runs` : where it says exactly which steps can be made, they are those that do not get stuck.
-/

namespace Znode.Lib

variable {σ ε : Type} (step : σ → ε → Option σ)

def runSystem : σ → List ε → Option σ
  | s, [] => some s
  | s, e :: events => (step s e).bind fun s' => runSystem s' events

/-- Every event of the run meets `p`. -/
def Throughout (p : σ → ε → Prop) : σ → List ε → Prop
  | _, [] => True
  | s, e :: events => p s e ∧ ∀ s' ∈ step s e, Throughout p s' events

instance decidableThroughout (p : σ → ε → Prop) [∀ s e, Decidable (p s e)] :
    ∀ s events, Decidable (Throughout step p s events)
  | _, [] => inferInstanceAs (Decidable True)
  | s, e :: events =>
    have := fun s' => decidableThroughout p s' events
    inferInstanceAs (Decidable (p s e ∧ ∀ s' ∈ step s e, Throughout step p s' events))

variable {step} {p : σ → ε → Prop}

/-- **The rule of invariants.** -/
theorem runSystem_invariant {inv : σ → Prop}
    (hstep : ∀ s e s', inv s → p s e → step s e = some s' → inv s') {s s' : σ} {events : List ε}
    (hinit : inv s) (hall : Throughout step p s events) (hrun : runSystem step s events = some s') : inv s' := by
  induction events generalizing s with
  | nil =>
      cases hrun
      exact hinit
  | cons e events ih =>
      obtain ⟨s₁, hfirst, hrest⟩ := Option.bind_eq_some_iff.mp hrun
      obtain ⟨hp, hlater⟩ := hall
      exact ih (hstep s e s₁ hinit hp hfirst) (hlater s₁ hfirst) hrest

theorem throughout_of_forall (h : ∀ s e, p s e) (s : σ) (events : List ε) : Throughout step p s events := by
  induction events generalizing s with
  | nil => trivial
  | cons e events ih => exact ⟨h s e, fun s' _ => ih s'⟩

theorem runSystem_keeps {inv : σ → Prop} (hstep : ∀ s e s', inv s → step s e = some s' → inv s') {s s' : σ}
    {events : List ε} (hinit : inv s) (hrun : runSystem step s events = some s') : inv s' :=
  runSystem_invariant (p := fun _ _ => True) (fun s e s' h _ => hstep s e s' h) hinit
    (throughout_of_forall (fun _ _ => trivial) s events) hrun

/-- Every event of the run, in the state it finds. -/
theorem throughout_iff {s : σ} {events : List ε} :
    Throughout step p s events ↔
      ∀ n e, events[n]? = some e → ∀ s' ∈ runSystem step s (events.take n), p s' e := by
  induction events generalizing s with
  | nil => simp [Throughout]
  | cons e events ih =>
      constructor
      · rintro ⟨hfirst, hlater⟩ n e' he' s' hs'
        cases n with
        | zero =>
            cases he'
            cases hs'
            exact hfirst
        | succ n =>
            obtain ⟨s₁, hs₁, hrest⟩ := Option.bind_eq_some_iff.mp hs'
            exact ih.mp (hlater s₁ hs₁) n e' he' s' hrest
      · intro h
        refine ⟨h 0 e rfl s rfl, fun s₁ hs₁ => ih.mpr fun n e' he' s' hs' => ?_⟩
        exact h (n + 1) e' he' s' (Option.bind_eq_some_iff.mpr ⟨s₁, hs₁, hs'⟩)

/-- The invariant holds in every state of a run exactly when every step meets the condition. -/
theorem throughout_iff_invariant {inv : σ → Prop} (hstep : ∀ s e, inv s → (p s e ↔ ∀ s' ∈ step s e, inv s')) {s : σ}
    (hinit : inv s) (events : List ε) :
    (∀ n, ∀ s' ∈ runSystem step s (events.take n), inv s') ↔ Throughout step p s events := by
  constructor
  · intro hall
    induction events generalizing s with
    | nil => trivial
    | cons e events ih =>
        have hnext : ∀ s' ∈ step s e, inv s' := by
          intro s' hs'
          refine hall 1 s' ?_
          rw [Option.mem_def] at hs' ⊢
          simp [runSystem, hs']
        refine ⟨(hstep s e hinit).mpr hnext, ?_⟩
        intro s₁ hs₁
        apply ih (hnext s₁ hs₁)
        intro n s' hs'
        refine hall (n + 1) s' ?_
        rw [Option.mem_def] at hs₁
        simpa [runSystem, hs₁] using hs'
  · intro hall n s' hs'
    induction events generalizing s n with
    | nil =>
        rw [List.take_nil] at hs'
        cases hs'
        exact hinit
    | cons e events ih =>
        cases n with
        | zero =>
            cases hs'
            exact hinit
        | succ n =>
            obtain ⟨s₁, hfirst, hrest⟩ := Option.bind_eq_some_iff.mp hs'
            obtain ⟨hp, hlater⟩ := hall
            exact ih ((hstep s e hinit).mp hp s₁ hfirst) (hlater s₁ hfirst) n hrest

/-- Under the facts `kept`, which every step keeps, the goal is the invariant. -/
theorem throughout_iff_goal {kept inv goal : σ → Prop} (hkeeps : ∀ s e s', kept s → step s e = some s' → kept s')
    (hgoal : ∀ s, kept s → (goal s ↔ inv s)) (hstep : ∀ s e, inv s → (p s e ↔ ∀ s' ∈ step s e, inv s')) {s : σ}
    (hkept : kept s) (hinit : inv s) (events : List ε) :
    (∀ n, ∀ s' ∈ runSystem step s (events.take n), goal s') ↔ Throughout step p s events := by
  rw [← throughout_iff_invariant hstep hinit]
  refine forall_congr' fun n => forall₂_congr fun s' hs' => hgoal s' ?_
  exact runSystem_keeps hkeeps hkept hs'

/-- Where the condition says exactly which steps can be made from a state with the invariant, the runs that meet it are
those in which every event can happen in its turn. -/
theorem throughout_iff_runs {inv : σ → Prop}
    (hstep : ∀ s e, inv s → (p s e ↔ ∃ s', step s e = some s' ∧ inv s')) {s : σ} (hinit : inv s) (events : List ε) :
    (∀ n e, events[n]? = some e →
      ∃ s₁ s₂, runSystem step s (events.take n) = some s₁ ∧ inv s₁ ∧ step s₁ e = some s₂ ∧ inv s₂) ↔
      Throughout step p s events := by
  constructor
  · intro hall
    refine throughout_iff.mpr fun n e he s' hs' => ?_
    obtain ⟨s₁, s₂, hrun, hinv₁, hnext, hinv₂⟩ := hall n e he
    have heq : s₁ = s' := Option.some.inj (hrun.symm.trans hs')
    exact heq ▸ (hstep s₁ e hinv₁).mpr ⟨s₂, hnext, hinv₂⟩
  · intro hall
    induction events generalizing s with
    | nil => simp
    | cons e events ih =>
        obtain ⟨hp, hlater⟩ := hall
        obtain ⟨s₁, hnext, hinv₁⟩ := (hstep s e hinit).mp hp
        intro n e' he'
        cases n with
        | zero =>
            cases he'
            exact ⟨s, s₁, rfl, hinit, hnext, hinv₁⟩
        | succ n =>
            obtain ⟨s₂, s₃, hrun, hinv₂, hstep₂, hinv₃⟩ := ih hinv₁ (hlater s₁ hnext) n e' he'
            refine ⟨s₂, s₃, ?_, hinv₂, hstep₂, hinv₃⟩
            rw [List.take_succ_cons, runSystem, hnext, Option.bind_some, hrun]

end Znode.Lib
