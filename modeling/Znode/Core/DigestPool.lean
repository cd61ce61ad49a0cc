import Mathlib
import Znode.Lib.System
import Znode.Lib.Custody
import Znode.Core.Hmac

/-!
# Digests that share a pool of contexts

A `MessageDigest` takes its context from a pool that all threads share, and gives it back when it is destroyed. The
pool locks each of its calls, but the constructor makes two of them: it asks whether the pool is empty, and then takes
a context from it.

* `OpenSsl` : contexts, which keep the digest they were initialised for;
* `DigestPool.step` : one call of one of the threads, for digests of any kinds;
* `digests_isolated` : in every run each digest computes the hash of its own data, and no context is lost;
* `digests_never_abort` : if nobody asks between the question and the `acquire()` of another one, no constructor fails;
* `null_context` : without that, a constructor can find the pool empty that was not empty when it asked.

After `finalize` a digest is initialised again before it is used, as the source requires. `finalize(true)`, which
reads the state of the context, is left out. The pool is taken to be one for the program, although it is `static` in a
header.
-/

namespace Znode.Core
open Znode.Lib

/-- The digests of the library by kind, and the state of a new context. -/
structure OpenSsl (κ : Type) where
  evp : κ → Evp
  blank : ∀ k, (evp k).Context

namespace OpenSsl
variable {κ : Type} (ssl : OpenSsl κ)

/-- An `EVP_MD_CTX`: nothing, or the state of the digest it was initialised for. -/
abbrev Ctx := Option (Σ k, (ssl.evp k).Context)

/-- `EVP_DigestInit_ex` for the digest the context has. -/
def digestReinit : ssl.Ctx → ssl.Ctx := Option.map fun context => ⟨context.1, (ssl.evp context.1).digestInit context.2⟩

def digestUpdate (ctx : ssl.Ctx) (data : Bytes) : ssl.Ctx :=
  if data = [] then ctx
  else ctx.map fun context => ⟨context.1, (ssl.evp context.1).digestUpdate context.2 data⟩

/-- The digest, empty after an error, and the context afterwards. -/
def digestFinal : ssl.Ctx → Bytes × ssl.Ctx
  | none => ([], none)
  | some context =>
    let final := (ssl.evp context.1).digestFinal context.2
    (final.1.getD [], some ⟨context.1, final.2⟩)

/-- The context has been initialised for `k`, and has digested these bytes since then. -/
def Digested (k : κ) (ctx : ssl.Ctx) (data : Bytes) : Prop :=
  ∃ context, ctx = some ⟨k, context⟩ ∧ (ssl.evp k).Digested context data

variable {ssl} {k : κ} {ctx : ssl.Ctx} {data : Bytes}

theorem Digested.update (h : ssl.Digested k ctx data) (more : Bytes) :
    ssl.Digested k (ssl.digestUpdate ctx more) (data ++ more) := by
  unfold digestUpdate
  split_ifs with hempty
  · rwa [hempty, List.append_nil]
  · obtain ⟨context, rfl, hdigested⟩ := h
    exact ⟨_, rfl, hdigested.update more⟩

theorem Digested.final (h : ssl.Digested k ctx data) : (ssl.digestFinal ctx).1 = (ssl.evp k).hash data := by
  obtain ⟨context, rfl, hdigested⟩ := h
  change ((ssl.evp k).digestFinal context).1.getD [] = _
  rw [hdigested.final, Option.getD_some]

variable [DecidableEq κ]

variable (ssl) in
def digestInitEx (k : κ) : ssl.Ctx → ssl.Ctx
  | none => some ⟨k, (ssl.evp k).digestInit (ssl.blank k)⟩
  | some ⟨k', context⟩ =>
    if h : k' = k then some ⟨k, (ssl.evp k).digestInit (h ▸ context)⟩
    else some ⟨k, (ssl.evp k).digestInit (ssl.blank k)⟩

theorem digested_initEx (k : κ) (ctx : ssl.Ctx) : ssl.Digested k (ssl.digestInitEx k ctx) [] := by
  cases ctx with
  | none => exact ⟨_, rfl, Evp.digested_init _ (ssl.blank k)⟩
  | some context =>
      obtain ⟨k', context⟩ := context
      by_cases h : k' = k
      · subst h
        exact ⟨_, dif_pos rfl, Evp.digested_init _ context⟩
      · exact ⟨_, dif_neg h, Evp.digested_init _ (ssl.blank k)⟩

end OpenSsl

/-- How far a `MessageDigest` is. -/
inductive Life (κ : Type) where
  | unborn
  /-- It has asked whether the pool is empty. -/
  | checked (kind : κ) (empty : Bool)
  | live (kind : κ)
  | destroyed
deriving DecidableEq

/-- The digests, numbered, and the contexts they share. -/
structure DigestPool {κ : Type} (ssl : OpenSsl κ) where
  custody : Custody Unit Nat := {}
  contexts : Nat → ssl.Ctx := fun _ => none
  digests : Nat → Life κ := fun _ => .unborn
  /-- What a digest has been given since it was initialised, and nothing after `finalize`. -/
  ingested : Nat → Option Bytes := fun _ => none
  /-- An assertion has failed. -/
  aborted : Bool := false

namespace DigestPool

inductive Event (κ : Type) where
  /-- `MDContexts.empty()` in a constructor. -/
  | check (i : Nat) (kind : κ)
  /-- The rest of the constructor. -/
  | finish (i : Nat)
  | init (i : Nat)
  | update (i : Nat) (data : Bytes)
  | finalize (i : Nat)
  | destroy (i : Nat)

variable {κ : Type} {ssl : OpenSsl κ}

section Contexts
variable (m : DigestPool ssl)

def pool : List Nat := m.custody.pools ()

/-- A call of a digest that changes its context. -/
def useContext (i : Nat) (f : ssl.Ctx → ssl.Ctx) (ingested : Option Bytes) : Option (DigestPool ssl) :=
  match m.digests i, m.custody.holder i with
  | .live _, some r =>
    some { m with
      contexts := Function.update m.contexts r (f (m.contexts r))
      ingested := Function.update m.ingested i ingested }
  | _, _ => none

def release (i : Nat) : Option (DigestPool ssl) :=
  match m.digests i, m.custody.holder i with
  | .live _, some r =>
    some { m with
      custody := m.custody.release () i r
      digests := Function.update m.digests i .destroyed
      ingested := Function.update m.ingested i none }
  | _, _ => none

def finalized (i : Nat) : Option Bytes := (m.custody.holder i).map fun r => (ssl.digestFinal (m.contexts r)).1

end Contexts

/-! ## Every digest has a context of its own -/

/-- The contexts are in the pool or belong to one live digest, which finds in it what it has been given. -/
structure Sound (m : DigestPool ssl) : Prop where
  agrees : ∃ place, m.custody.Agrees place
  kept : m.custody.closed = [] ∧ m.custody.lost = []
  idle : ∀ i, (∀ k, m.digests i ≠ .live k) → m.custody.holder i = none
  live : ∀ i k, m.digests i = .live k → ∃ r, m.custody.holder i = some r ∧
    (∃ context, m.contexts r = some ⟨k, context⟩) ∧ ∀ data, m.ingested i = some data →
      ssl.Digested k (m.contexts r) data

theorem sound_new : Sound ({} : DigestPool ssl) where
  agrees := ⟨_, Custody.agrees_new⟩
  kept := ⟨rfl, rfl⟩
  idle := fun _ _ => rfl
  live := fun _ _ h => by cases h

variable {m m' : DigestPool ssl} {i : Nat} {k : κ}

theorem Sound.others (h : m.Sound) {custody : Custody Unit Nat} (hagrees : ∃ place, custody.Agrees place) {r : Nat}
    (hi : custody.holder i = some r) (hother : ∀ j, j ≠ i → custody.holder j = m.custody.holder j) (ctx : ssl.Ctx)
    {j : Nat} (hj : m.digests j = .live k) (hji : j ≠ i) :
    ∃ r', custody.holder j = some r' ∧ (∃ context, Function.update m.contexts r ctx r' = some ⟨k, context⟩) ∧
      ∀ data, m.ingested j = some data → ssl.Digested k (Function.update m.contexts r ctx r') data := by
  obtain ⟨place, hplace⟩ := hagrees
  obtain ⟨r', hr', hctx⟩ := h.live j k hj
  have hholder : custody.holder j = some r' := (hother j hji).trans hr'
  have hne : r' ≠ r := fun heq => hji (hplace.holder_inj hholder (heq ▸ hi))
  refine ⟨r', hholder, ?_⟩
  rwa [Function.update_of_ne hne]

/-- A call that keeps the kind of the context, and the description of what it has digested. -/
theorem Sound.useContext (h : m.Sound) {f : ssl.Ctx → ssl.Ctx} {ingested : Option Bytes}
    (hkind : ∀ k context, ∃ context', f (some ⟨k, context⟩) = some ⟨k, context'⟩)
    (hdigested : ∀ k ctx, (∃ context, ctx = some ⟨k, context⟩) →
      (∀ data, m.ingested i = some data → ssl.Digested k ctx data) → ∀ data, ingested = some data →
        ssl.Digested k (f ctx) data)
    (hstep : m.useContext i f ingested = some m') : m'.Sound := by
  cases hlife : m.digests i with
  | unborn | checked | destroyed => simp [DigestPool.useContext, hlife] at hstep
  | live k =>
      obtain ⟨r, hr, hctx, hdata⟩ := h.live i k hlife
      simp only [DigestPool.useContext, hlife, hr, Option.some.injEq] at hstep
      subst hstep
      refine ⟨h.agrees, h.kept, h.idle, fun j k' hj => ?_⟩
      by_cases hji : j = i
      · subst hji
        cases hlife.symm.trans hj
        refine ⟨r, hr, ?_, fun data hdata' => ?_⟩
        · obtain ⟨context, hcontext⟩ := hctx
          obtain ⟨context', hcontext'⟩ := hkind k context
          exact ⟨context', (Function.update_self ..).trans (hcontext ▸ hcontext')⟩
        · have hingested : Function.update m.ingested j ingested j = some data := hdata'
          rw [Function.update_self] at hingested
          have hf := hdigested k (m.contexts r) hctx hdata data hingested
          simp only [Function.update_self]
          exact hf
      · obtain ⟨r', hr', hctx', hdigested'⟩ := h.others h.agrees hr (fun _ _ => rfl) (f (m.contexts r)) hj hji
        exact ⟨r', hr', hctx', fun data hdata' => hdigested' data ((Function.update_of_ne hji _ _).symm.trans hdata')⟩

theorem release_cases (h : m.Sound) (hstep : m.release i = some m') : ∃ r, m.custody.holder i = some r ∧
    m' = { m with
      custody := m.custody.release () i r
      digests := Function.update m.digests i .destroyed
      ingested := Function.update m.ingested i none } := by
  cases hlife : m.digests i with
  | unborn | checked | destroyed => simp [DigestPool.release, hlife] at hstep
  | live k =>
      obtain ⟨r, hr, -⟩ := h.live i k hlife
      simp only [DigestPool.release, hlife, hr, Option.some.injEq] at hstep
      exact ⟨r, hr, hstep.symm⟩

theorem Sound.release (h : m.Sound) (hstep : m.release i = some m') : m'.Sound := by
  obtain ⟨place, hplace⟩ := h.agrees
  obtain ⟨r, hr, rfl⟩ := release_cases h hstep
  refine ⟨⟨_, hplace.release hr⟩, h.kept, fun j hj => ?_, fun j k hj => ?_⟩
  · by_cases hji : j = i
    · subst hji
      exact Function.update_self ..
    · refine (Function.update_of_ne hji _ _).trans (h.idle j fun k hk => hj k ?_)
      exact (Function.update_of_ne hji _ _).trans hk
  · have hji : j ≠ i := by
      rintro rfl
      have hlive : Function.update m.digests j .destroyed j = .live k := hj
      rw [Function.update_self] at hlive
      cases hlive
    obtain ⟨r', hr', hctx, hdigested⟩ := h.live j k ((Function.update_of_ne hji _ _).symm.trans hj)
    refine ⟨r', (Function.update_of_ne hji _ _).trans hr', hctx, fun data hdata => hdigested data ?_⟩
    exact (Function.update_of_ne hji _ _).symm.trans hdata

theorem Sound.check (h : m.Sound) (hunborn : m.digests i = .unborn) (empty : Bool) :
    Sound { m with digests := Function.update m.digests i (.checked k empty) } := by
  refine ⟨h.agrees, h.kept, fun j hj => h.idle j fun k' hk' => ?_, fun j k' hj => h.live j k' ?_⟩
  · have hji : j ≠ i := by
      rintro rfl
      cases hunborn.symm.trans hk'
    exact hj k' ((Function.update_of_ne hji _ _).trans hk')
  · have hji : j ≠ i := by
      rintro rfl
      have hlive : Function.update m.digests j (.checked k empty) j = .live k' := hj
      rw [Function.update_self] at hlive
      cases hlive
    exact (Function.update_of_ne hji _ _).symm.trans hj
variable [DecidableEq κ]

section Step
variable (m : DigestPool ssl)

/-- The digest gets the context `r`, which it initialises. -/
def adopt (i : Nat) (k : κ) (custody : Custody Unit Nat) (r : Nat) : DigestPool ssl :=
  { m with
    custody := custody
    contexts := Function.update m.contexts r (ssl.digestInitEx k (m.contexts r))
    digests := Function.update m.digests i (.live k)
    ingested := Function.update m.ingested i (some []) }

/-- The constructor after it has asked. -/
def finishStep (i : Nat) : Option (DigestPool ssl) :=
  match m.digests i with
  | .checked k true => some (m.adopt i k (m.custody.create i) m.custody.created)
  | .checked k false =>
    match m.pool with
    | [] => some { m with aborted := true }
    | r :: _ => some (m.adopt i k (m.custody.acquire () i r) r)
  | _ => none

def act : Event κ → Option (DigestPool ssl)
  | .check i k =>
    if m.digests i = .unborn then some { m with digests := Function.update m.digests i (.checked k m.pool.isEmpty) }
    else none
  | .finish i => m.finishStep i
  | .init i => m.useContext i ssl.digestReinit (some [])
  | .update i data =>
    match m.ingested i with
    | some before => m.useContext i (ssl.digestUpdate · data) (some (before ++ data))
    | none => none
  | .finalize i =>
    match m.ingested i with
    | some _ => m.useContext i (fun ctx => (ssl.digestFinal ctx).2) none
    | none => none
  | .destroy i => m.release i

def step (e : Event κ) : Option (DigestPool ssl) := if m.aborted then none else m.act e

end Step

/-! ## The steps -/

variable {m m' : DigestPool ssl} {i : Nat} {k : κ}

theorem Sound.adopt (h : m.Sound) {custody : Custody Unit Nat} (hagrees : ∃ place, custody.Agrees place)
    (hkept : custody.closed = [] ∧ custody.lost = []) {r : Nat}
    (hholder : custody.holder = Function.update m.custody.holder i (some r)) : (m.adopt i k custody r).Sound := by
  have hi : custody.holder i = some r := by rw [hholder, Function.update_self]
  have hother : ∀ j, j ≠ i → custody.holder j = m.custody.holder j := by
    intro j hj
    rw [hholder, Function.update_of_ne hj]
  refine ⟨hagrees, hkept, ?_, ?_⟩
  · intro j hj
    have hji : j ≠ i := by
      rintro rfl
      exact hj k (Function.update_self ..)
    refine (hother j hji).trans (h.idle j fun k' hk' => hj k' ?_)
    exact (Function.update_of_ne hji _ _).trans hk'
  · intro j k' hj
    by_cases hji : j = i
    · subst hji
      have hkind : k' = k := by
        have hlive : Function.update m.digests j (.live k) j = .live k' := hj
        rw [Function.update_self] at hlive
        exact (Life.live.inj hlive).symm
      subst hkind
      have hdigested := OpenSsl.digested_initEx k' (m.contexts r)
      have hcontext : (m.adopt j k' custody r).contexts r = ssl.digestInitEx k' (m.contexts r) :=
        Function.update_self ..
      refine ⟨r, hi, ?_, fun data hdata => ?_⟩
      · obtain ⟨context, hctx, -⟩ := hdigested
        exact ⟨_, hcontext.trans hctx⟩
      · have hempty : Function.update m.ingested j (some []) j = some data := hdata
        rw [Function.update_self] at hempty
        cases hempty
        exact hcontext ▸ hdigested
    · have hlive : m.digests j = .live k' := (Function.update_of_ne hji _ _).symm.trans hj
      obtain ⟨r', hr', hctx, hdigested⟩ := h.others hagrees hi hother (ssl.digestInitEx k (m.contexts r)) hlive hji
      refine ⟨r', hr', hctx, fun data hdata => hdigested data ?_⟩
      exact (Function.update_of_ne hji _ _).symm.trans hdata

theorem Sound.finishStep (h : m.Sound) (hstep : m.finishStep i = some m') : m'.Sound := by
  obtain ⟨place, hplace⟩ := h.agrees
  cases hlife : m.digests i with
  | unborn | live | destroyed => simp [DigestPool.finishStep, hlife] at hstep
  | checked k empty =>
      have hnone : m.custody.holder i = none := h.idle i (by simp [hlife])
      cases empty with
      | true =>
          simp only [DigestPool.finishStep, hlife, Option.some.injEq] at hstep
          subst hstep
          exact h.adopt ⟨_, hplace.create hnone⟩ h.kept rfl
      | false =>
          cases hpool : m.pool with
          | nil =>
              simp only [DigestPool.finishStep, hlife, hpool, Option.some.injEq] at hstep
              subst hstep
              exact ⟨h.agrees, h.kept, h.idle, h.live⟩
          | cons r rest =>
              simp only [DigestPool.finishStep, hlife, hpool, Option.some.injEq] at hstep
              subst hstep
              exact h.adopt ⟨_, hplace.acquire hpool hnone⟩ h.kept rfl

theorem Sound.step (h : m.Sound) {e : Event κ} (hstep : m.step e = some m') : m'.Sound := by
  obtain ⟨-, hstep⟩ := Option.ite_none_left_eq_some.mp hstep
  cases e with
  | check i k =>
      obtain ⟨hunborn, heq⟩ := Option.ite_none_right_eq_some.mp hstep
      cases heq
      exact h.check hunborn _
  | finish i => exact h.finishStep hstep
  | init i =>
      refine h.useContext (fun k context => ⟨_, rfl⟩) ?_ hstep
      rintro k ctx ⟨context, rfl⟩ - data hdata
      cases hdata
      exact ⟨_, rfl, Evp.digested_init _ context⟩
  | update i data =>
      cases hbefore : m.ingested i with
      | none => simp [act, hbefore] at hstep
      | some before =>
          simp only [act, hbefore] at hstep
          refine h.useContext (fun k context => ?_) ?_ hstep
          · unfold OpenSsl.digestUpdate
            split_ifs
            · exact ⟨context, rfl⟩
            · exact ⟨_, rfl⟩
          · rintro k ctx - hdigested after hafter
            cases hafter
            exact (hdigested before hbefore).update data
  | finalize i =>
      cases hbefore : m.ingested i with
      | none => simp [act, hbefore] at hstep
      | some before =>
          simp only [act, hbefore] at hstep
          refine h.useContext (fun k context => ⟨_, rfl⟩) ?_ hstep
          rintro k ctx - - after hafter
          cases hafter
  | destroy i => exact h.release hstep

theorem sound_of_run {events : List (Event κ)} (hrun : runSystem step ({} : DigestPool ssl) events = some m) :
    m.Sound := by
  have hstep : ∀ (m : DigestPool ssl) e m', m.Sound → m.step e = some m' → m'.Sound := fun _ _ _ h hstep => h.step hstep
  exact runSystem_keeps hstep sound_new hrun

end DigestPool

open DigestPool in
/-- **Digests are isolated**: whatever digests of whatever kinds the threads construct, use and destroy, and in whatever
order their calls come, `finalize` returns the hash of what this digest has been given since it was initialised. No two
digests have the same context, and every context is in the pool or belongs to a digest. -/
theorem digests_isolated {κ : Type} [DecidableEq κ] (ssl : OpenSsl κ) (events : List (DigestPool.Event κ))
    (m : DigestPool ssl) (hrun : runSystem step {} events = some m) :
    (∀ i k data, m.digests i = .live k → m.ingested i = some data → m.finalized i = some ((ssl.evp k).hash data)) ∧
      (∀ i j r, m.custody.holder i = some r → m.custody.holder j = some r → i = j) ∧
      (∀ i r, m.custody.holder i = some r → r ∉ m.pool) ∧
      ∀ r < m.custody.created, r ∈ m.pool ∨ ∃ i, m.custody.holder i = some r := by
  have h := sound_of_run hrun
  obtain ⟨place, hplace⟩ := h.agrees
  refine ⟨fun i k data hlive hdata => ?_, fun i j r => hplace.holder_inj, fun i r hi hr => ?_, fun r hr => ?_⟩
  · obtain ⟨r, hr, -, hdigested⟩ := h.live i k hlive
    rw [finalized, hr, Option.map_some, (hdigested data hdata).final]
  · rw [hplace.holder] at hi
    rw [pool, hplace.pools, hi] at hr
    cases hr
  · rcases hplace.somewhere hr with ⟨t, ht⟩ | hheld | hclosed | hlost
    · exact Or.inl ht
    · exact Or.inr hheld
    · rw [h.kept.1] at hclosed
      cases hclosed
    · rw [h.kept.2] at hlost
      cases hlost

namespace DigestPool
variable {κ : Type} {ssl : OpenSsl κ} {m m' : DigestPool ssl}

/-! ## Constructors one at a time -/

/-- A digest is begun only when no other one is about to take a context from the pool. One that has found the pool empty
makes a new context, and is no danger. -/
def Alone (m : DigestPool ssl) (e : Event κ) : Prop := ∀ i k, e = .check i k → ∀ j k', m.digests j ≠ .checked k' false

/-- At most one digest is about to take a context from the pool, which is as the digest found it, or larger. -/
structure Unhurried (m : DigestPool ssl) : Prop where
  sound : m.Sound
  running : m.aborted = false
  one : ∀ i j k k', m.digests i = .checked k false → m.digests j = .checked k' false → i = j
  pool : ∀ i k, m.digests i = .checked k false → m.pool ≠ []

theorem unhurried_new : Unhurried ({} : DigestPool ssl) where
  sound := sound_new
  running := rfl
  one := fun _ _ _ _ h => by cases h
  pool := fun _ _ h => by cases h

variable {i : Nat} {k : κ}

theorem Unhurried.leave (h : m.Unhurried) (hsound : m'.Sound) (hrunning : m'.aborted = m.aborted) {life : Life κ}
    (hlife : ∀ k empty, life ≠ .checked k empty) (hdigests : m'.digests = Function.update m.digests i life)
    (hpool : ∀ j, j ≠ i → ∀ k, m.digests j = .checked k false → m'.pool ≠ []) : m'.Unhurried := by
  have hother : ∀ j k empty, m'.digests j = .checked k empty → j ≠ i ∧ m.digests j = .checked k empty := by
    intro j k empty hj
    rw [hdigests, Function.update_apply] at hj
    split_ifs at hj with hji
    · exact absurd hj (hlife k empty)
    · exact ⟨hji, hj⟩
  refine ⟨hsound, hrunning.trans h.running, fun j j' k k' hj hj' => ?_, fun j k hj => ?_⟩
  · exact h.one j j' k k' (hother j k false hj).2 (hother j' k' false hj').2
  · obtain ⟨hji, hj⟩ := hother j k false hj
    exact hpool j hji k hj

theorem Unhurried.useContext (h : m.Unhurried) (hsound : m'.Sound) {f : ssl.Ctx → ssl.Ctx} {ingested : Option Bytes}
    (hstep : m.useContext i f ingested = some m') : m'.Unhurried := by
  unfold DigestPool.useContext at hstep
  split at hstep
  · cases hstep
    exact ⟨hsound, h.running, h.one, h.pool⟩
  · cases hstep

variable [DecidableEq κ]

theorem Unhurried.finishStep (h : m.Unhurried) (hsound : m'.Sound) (hstep : m.finishStep i = some m') :
    m'.Unhurried := by
  cases hlife : m.digests i with
  | unborn | live | destroyed => simp [DigestPool.finishStep, hlife] at hstep
  | checked k empty =>
      cases empty with
      | true =>
          -- the new context does not come from the pool
          simp only [DigestPool.finishStep, hlife, Option.some.injEq] at hstep
          subst hstep
          exact h.leave hsound rfl (by simp) rfl fun j _ => h.pool j
      | false =>
          cases hpool : m.pool with
          | nil => exact absurd hpool (h.pool i k hlife)
          | cons r rest =>
              simp only [DigestPool.finishStep, hlife, hpool, Option.some.injEq] at hstep
              subst hstep
              exact h.leave hsound rfl (by simp) rfl fun j hji k' hj => absurd (h.one j i k' k hj hlife) hji

theorem Unhurried.step (h : m.Unhurried) {e : Event κ} (halone : m.Alone e) (hstep : m.step e = some m') :
    m'.Unhurried := by
  have hsound := h.sound.step hstep
  obtain ⟨-, hstep⟩ := Option.ite_none_left_eq_some.mp hstep
  cases e with
  | check i k =>
      obtain ⟨hunborn, heq⟩ := Option.ite_none_right_eq_some.mp hstep
      cases heq
      have hself : ∀ j k', Function.update m.digests i (.checked k m.pool.isEmpty) j = .checked k' false →
          j = i ∧ m.pool.isEmpty = false := by
        intro j k' hj
        rw [Function.update_apply] at hj
        split_ifs at hj with hji
        · exact ⟨hji, (Life.checked.inj hj).2⟩
        · exact absurd hj (halone i k rfl j k')
      refine ⟨hsound, h.running, fun j j' k₁ k₂ hj hj' => ?_, fun j k' hj => ?_⟩
      · exact (hself j k₁ hj).1.trans (hself j' k₂ hj').1.symm
      · have hempty := (hself j k' hj).2
        intro hnil
        have hnil' : m.pool = [] := hnil
        rw [hnil'] at hempty
        cases hempty
  | finish i => exact h.finishStep hsound hstep
  | init i => exact h.useContext hsound hstep
  | update i data =>
      cases hbefore : m.ingested i with
      | none => simp [act, hbefore] at hstep
      | some before =>
          simp only [act, hbefore] at hstep
          exact h.useContext hsound hstep
  | finalize i =>
      cases hbefore : m.ingested i with
      | none => simp [act, hbefore] at hstep
      | some before =>
          simp only [act, hbefore] at hstep
          exact h.useContext hsound hstep
  | destroy i =>
      obtain ⟨r, -, rfl⟩ := release_cases h.sound hstep
      refine h.leave hsound rfl (by simp) rfl fun j _ k _ => ?_
      change Function.update m.custody.pools () (r :: m.custody.pools ()) () ≠ []
      simp

theorem unhurried_of_run {events : List (Event κ)} (hall : Throughout step Alone ({} : DigestPool ssl) events)
    (hrun : runSystem step ({} : DigestPool ssl) events = some m) : m.Unhurried := by
  have hstep : ∀ (m : DigestPool ssl) e m', m.Unhurried → m.Alone e → m.step e = some m' → m'.Unhurried :=
    fun _ _ _ h halone hstep => h.step halone hstep
  exact runSystem_invariant hstep unhurried_new hall hrun

end DigestPool

open DigestPool in
/-- **Constructors one at a time**: in the runs in which no digest is begun between the question and the `acquire()` of
another one that found a context in the pool, no constructor ends in a failed assertion. -/
theorem digests_never_abort {κ : Type} [DecidableEq κ] (ssl : OpenSsl κ) (events : List (DigestPool.Event κ))
    (m : DigestPool ssl) (hall : Throughout step Alone ({} : DigestPool ssl) events)
    (hrun : runSystem step {} events = some m) :
    m.aborted = false :=
  (unhurried_of_run hall hrun).running

namespace DigestPool

def lengthsSsl : OpenSsl Unit := { evp := fun _ => Evp.lengths, blank := fun _ => ([] : Bytes) }

/-- The first two digests are constructed at once; a third one takes over the context of one, while the other is in
use. -/
def reuse : List (Event Unit) :=
  [.check 0 (), .check 1 (), .finish 0, .update 0 [1, 2], .finish 1, .update 1 [3], .finalize 0, .destroy 0,
    .check 2 (), .finish 2, .update 2 [4, 5], .update 1 [6], .update 2 [7]]

end DigestPool

open DigestPool in
theorem digests_isolated_reuse : ∃ m : DigestPool lengthsSsl, runSystem step {} reuse = some m ∧
    m.finalized 2 = some [3] ∧ m.finalized 1 = some [2] ∧ m.custody.created = 2 := by
  refine ⟨_, rfl, ?_, ?_, rfl⟩
  · exact (digests_isolated lengthsSsl reuse _ rfl).1 2 () [4, 5, 7] rfl rfl
  · exact (digests_isolated lengthsSsl reuse _ rfl).1 1 () [3, 6] rfl rfl

open DigestPool in
theorem digests_never_abort_reuse :
    ∃ m : DigestPool lengthsSsl, runSystem step {} reuse = some m ∧ m.aborted = false := by
  have hall : Throughout step Alone ({} : DigestPool lengthsSsl) reuse := by
    simp only [Throughout, Alone, reuse, step, act, finishStep, adopt, useContext, release, pool, Custody.create]
    simp
    refine ⟨fun j k => ?_, fun j k => ?_⟩ <;>
      · simp only [Function.update_apply]
        split_ifs <;> simp
  exact ⟨_, rfl, digests_never_abort lengthsSsl reuse _ hall rfl⟩

open DigestPool in
/-- Two constructors ask while there is one context in the pool: the second one gets none. -/
theorem null_context : ∃ m : DigestPool lengthsSsl, runSystem step {}
    [.check 0 (), .finish 0, .destroy 0, .check 1 (), .check 2 (), .finish 1, .finish 2] = some m ∧ m.aborted = true :=
  ⟨_, rfl, rfl⟩

end Znode.Core
