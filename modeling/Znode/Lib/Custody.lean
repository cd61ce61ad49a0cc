import Mathlib

/-!
# Resources and who has them

Resources are numbered as they are created. Each of them is in one of some pools, or somebody has it, or it is closed,
or it is lost.

* `Custody` : what the pools and the holders have;
* `Custody.Agrees` : a custody that is described by a function from resources to places, so that no resource is in two
  of them;
* the lemmas after it : what a resource does when it changes its place.
-/

namespace Znode.Lib

/-- The pools of `τ`, and what the holders `ι` have. -/
structure Custody (τ ι : Type) where
  pools : τ → List Nat := fun _ => []
  holder : ι → Option Nat := fun _ => none
  closed : List Nat := []
  lost : List Nat := []
  created : Nat := 0

inductive Custody.Place (τ ι : Type) where
  | unborn
  | pooled (t : τ)
  | held (i : ι)
  | closed
  | lost
deriving DecidableEq

namespace Custody
variable {τ ι : Type}

/-- The places are those of a function, and nothing is twice in one of them. -/
structure Agrees (c : Custody τ ι) (place : Nat → Place τ ι) : Prop where
  pools : ∀ t r, r ∈ c.pools t ↔ place r = .pooled t
  nodup_pools : ∀ t, (c.pools t).Nodup
  holder : ∀ i r, c.holder i = some r ↔ place r = .held i
  closed : ∀ r, r ∈ c.closed ↔ place r = .closed
  nodup_closed : c.closed.Nodup
  lost : ∀ r, r ∈ c.lost ↔ place r = .lost
  nodup_lost : c.lost.Nodup
  unborn : ∀ r, c.created ≤ r ↔ place r = .unborn

theorem agrees_new : ({} : Custody τ ι).Agrees fun _ => .unborn where
  pools := by simp
  nodup_pools := by simp
  holder := by simp
  closed := by simp
  nodup_closed := by simp
  lost := by simp
  nodup_lost := by simp
  unborn := by simp

theorem Agrees.holder_inj {c : Custody τ ι} {place : Nat → Place τ ι} (h : c.Agrees place) {i j : ι} {r : Nat}
    (hi : c.holder i = some r) (hj : c.holder j = some r) : i = j := by
  rw [h.holder] at hi hj
  rw [hi] at hj
  exact Place.held.inj hj

theorem Agrees.somewhere {c : Custody τ ι} {place : Nat → Place τ ι} (h : c.Agrees place) {r : Nat}
    (hr : r < c.created) :
    (∃ t, r ∈ c.pools t) ∨ (∃ i, c.holder i = some r) ∨ r ∈ c.closed ∨ r ∈ c.lost := by
  cases hplace : place r with
  | unborn =>
      have hle := (h.unborn r).mpr hplace
      omega
  | pooled t => exact Or.inl ⟨t, (h.pools t r).mpr hplace⟩
  | held i => exact Or.inr (Or.inl ⟨i, (h.holder i r).mpr hplace⟩)
  | closed => exact Or.inr (Or.inr (Or.inl ((h.closed r).mpr hplace)))
  | lost => exact Or.inr (Or.inr (Or.inr ((h.lost r).mpr hplace)))

/-- When nobody has anything any more, what has been created is closed or lost. -/
theorem Agrees.perm_range {c : Custody τ ι} {place : Nat → Place τ ι} (h : c.Agrees place)
    (hpools : ∀ t, c.pools t = [])
    (hholder : ∀ i, c.holder i = none) : (c.closed ++ c.lost).Perm (List.range c.created) := by
  have hnodup : (c.closed ++ c.lost).Nodup := by
    refine List.nodup_append.mpr ⟨h.nodup_closed, h.nodup_lost, ?_⟩
    rintro r hr s hs rfl
    rw [h.closed] at hr
    rw [h.lost, hr] at hs
    cases hs
  refine (List.perm_ext_iff_of_nodup hnodup List.nodup_range).mpr fun r => ?_
  rw [List.mem_append, List.mem_range]
  constructor
  · intro hr
    by_contra hge
    have hunborn := (h.unborn r).mp (Nat.le_of_not_lt hge)
    rw [h.closed, h.lost, hunborn] at hr
    simp at hr
  · intro hr
    rcases h.somewhere hr with ⟨t, ht⟩ | ⟨i, hi⟩ | hin
    · rw [hpools t] at ht
      cases ht
    · rw [hholder i] at hi
      cases hi
    · exact hin

/-! ## Moves of the holders -/

section Holders
variable [DecidableEq ι] (c : Custody τ ι)

def create (i : ι) : Custody τ ι :=
  { c with holder := Function.update c.holder i (some c.created), created := c.created + 1 }

def close (i : ι) (r : Nat) : Custody τ ι :=
  { c with holder := Function.update c.holder i none, closed := r :: c.closed }

def lose (i : ι) (r : Nat) : Custody τ ι :=
  { c with holder := Function.update c.holder i none, lost := r :: c.lost }

def swap (i j : ι) : Custody τ ι := { c with holder := fun k => c.holder (Equiv.swap i j k) }

variable {c} {place : Nat → Place τ ι} {i : ι} {r : Nat}

theorem Agrees.create (h : c.Agrees place) (hi : c.holder i = none) :
    (c.create i).Agrees (Function.update place c.created (.held i)) := by
  have hnew : place c.created = .unborn := (h.unborn _).mp le_rfl
  obtain ⟨hpools, hpools', hholder, hclosed, hclosed', hlost, hlost', hunborn⟩ := h
  constructor <;> simp only [Custody.create, Function.update_apply] <;> grind

theorem Agrees.close (h : c.Agrees place) (hi : c.holder i = some r) :
    (c.close i r).Agrees (Function.update place r .closed) := by
  obtain ⟨hpools, hpools', hholder, hclosed, hclosed', hlost, hlost', hunborn⟩ := h
  constructor <;> simp only [Custody.close, Function.update_apply] <;> grind

theorem Agrees.lose (h : c.Agrees place) (hi : c.holder i = some r) :
    (c.lose i r).Agrees (Function.update place r .lost) := by
  obtain ⟨hpools, hpools', hholder, hclosed, hclosed', hlost, hlost', hunborn⟩ := h
  constructor <;> simp only [Custody.lose, Function.update_apply] <;> grind

theorem Agrees.swap (h : c.Agrees place) (i j : ι) :
    (c.swap i j).Agrees fun r =>
      match place r with
      | .held k => .held (Equiv.swap i j k)
      | q => q := by
  have hmap : ∀ r q, (∀ k, q ≠ Place.held k) →
      ((match place r with
        | .held k => Place.held (Equiv.swap i j k)
        | q => q) = q ↔ place r = q) := by
    intro r q hq
    cases hplace : place r <;> grind
  constructor
  case holder =>
    intro k r
    rw [Custody.swap, h.holder]
    cases hplace : place r with
    | held k' =>
        simp only [Place.held.injEq]
        rw [← Equiv.symm_apply_eq, Equiv.symm_swap]
    | unborn | pooled | closed | lost => simp
  case pools => exact fun t r => (h.pools t r).trans (hmap r _ (by simp)).symm
  case closed => exact fun r => (h.closed r).trans (hmap r _ (by simp)).symm
  case lost => exact fun r => (h.lost r).trans (hmap r _ (by simp)).symm
  case unborn => exact fun r => (h.unborn r).trans (hmap r _ (by simp)).symm
  case nodup_pools => exact h.nodup_pools
  case nodup_closed => exact h.nodup_closed
  case nodup_lost => exact h.nodup_lost

end Holders

/-! ## Moves from and to a pool -/

section Pools
variable [DecidableEq τ] [DecidableEq ι] (c : Custody τ ι)

/-- The top of the pool, `r`, for `i`. -/
def acquire (t : τ) (i : ι) (r : Nat) : Custody τ ι :=
  { c with pools := Function.update c.pools t (c.pools t).tail, holder := Function.update c.holder i (some r) }

/-- What `i` has goes to the pool. -/
def release (t : τ) (i : ι) (r : Nat) : Custody τ ι :=
  { c with pools := Function.update c.pools t (r :: c.pools t), holder := Function.update c.holder i none }

def drain (t : τ) : Custody τ ι :=
  { c with pools := Function.update c.pools t [], closed := c.pools t ++ c.closed }

variable {c} {place : Nat → Place τ ι} {t : τ} {i : ι} {r : Nat}

theorem Agrees.acquire (h : c.Agrees place) {rest : List Nat} (hr : c.pools t = r :: rest) (hi : c.holder i = none) :
    (c.acquire t i r).Agrees (Function.update place r (.held i)) := by
  have hpooled : place r = .pooled t := (h.pools t r).mp (by rw [hr]; exact List.mem_cons_self)
  have hrest : ∀ s, s ∈ rest ↔ s ≠ r ∧ place s = .pooled t := by
    intro s
    have hnodup := h.nodup_pools t
    rw [hr, List.nodup_cons] at hnodup
    rw [← h.pools, hr, List.mem_cons]
    grind
  have hnodup : rest.Nodup := (hr ▸ h.nodup_pools t).of_cons
  obtain ⟨hpools, hpools', hholder, hclosed, hclosed', hlost, hlost', hunborn⟩ := h
  constructor <;> simp only [Custody.acquire, Function.update_apply, hr, List.tail_cons] <;> grind

theorem Agrees.release (h : c.Agrees place) (hi : c.holder i = some r) :
    (c.release t i r).Agrees (Function.update place r (.pooled t)) := by
  obtain ⟨hpools, hpools', hholder, hclosed, hclosed', hlost, hlost', hunborn⟩ := h
  constructor <;> simp only [Custody.release, Function.update_apply] <;> grind

theorem Agrees.drain (h : c.Agrees place) (t : τ) :
    (c.drain t).Agrees fun r => if place r = .pooled t then .closed else place r := by
  obtain ⟨hpools, hpools', hholder, hclosed, hclosed', hlost, hlost', hunborn⟩ := h
  constructor
  case nodup_closed =>
    refine List.nodup_append.mpr ⟨hpools' t, hclosed', ?_⟩
    rintro r hr s hs rfl
    rw [hpools] at hr
    rw [hclosed, hr] at hs
    cases hs
  all_goals simp only [Custody.drain, Function.update_apply, List.mem_append]
  all_goals grind

end Pools

end Custody

end Znode.Lib
