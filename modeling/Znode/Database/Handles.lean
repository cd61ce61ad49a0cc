import Mathlib
import Znode.Lib.System
import Znode.Lib.Custody

/-!
# The handles of the cursors

A `Cursor` has a handle of MDBX. When it is destroyed, the handle goes to a pool of the thread that destroys it, where
the next cursor of this thread finds it. What is in the pool is closed when the thread ends.

* `Handles.step` : constructors, moves, bindings, `close` and destructors of any cursors in any threads;
* `handles_accounted` : in every run, the handle of a cursor is open and is its own, and no handle is closed twice;
* `handles_all_closed` : when the cursors are destroyed and the threads have ended, every handle is closed, except those
  of the constructors that threw. A constructor that throws does not run the destructor, and so loses its handle.

Whether a handle is still bound to another transaction, whether memory is available and whether the table can be
opened is up to the run.
-/

namespace Znode.Database
open Znode.Lib

inductive CursorLife where
  | unborn
  | alive
  | destroyed
deriving DecidableEq

/-- The cursors, numbered, and the handles of all of them. -/
structure Handles where
  custody : Custody Nat Nat := {}
  cursors : Nat → CursorLife := fun _ => .unborn
  ended : Nat → Bool := fun _ => false
  /-- The number of constructors that threw when they had a handle. -/
  failed : Nat := 0

namespace Handles

structure Conditions where
  /-- The handle is bound to another transaction that is still there. -/
  stale : Bool
  /-- `mdbx_cursor_create` succeeds. -/
  memory : Bool
  /-- The table is opened, and the cursor is bound to it. -/
  opens : Bool

inductive Event where
  | construct (thread k : Nat) (conditions : Conditions)
  | bind (k : Nat) (conditions : Conditions)
  /-- The cursor `k` from the cursor `j`. -/
  | moveConstruct (k j : Nat)
  | moveAssign (k j : Nat)
  | close (k : Nat)
  | destroy (thread k : Nat)
  | endThread (thread : Nat)

def createHandle (c : Custody Nat Nat) (k : Nat) (memory : Bool) : Custody Nat Nat := if memory then c.create k else c

/-- `handles_pool_.acquire()`, and a new handle if there is none. -/
def takeHandle (c : Custody Nat Nat) (thread k : Nat) (memory : Bool) : Custody Nat Nat :=
  match c.pools thread with
  | r :: _ => c.acquire thread k r
  | [] => createHandle c k memory

/-- What `bind` does to the handle. -/
def bindHandle (c : Custody Nat Nat) (k : Nat) (conditions : Conditions) : Custody Nat Nat :=
  match c.holder k with
  | some r => if conditions.stale then createHandle (c.close k r) k conditions.memory else c
  | none => c

section Step
variable (h : Handles)

/-- The constructor. It throws if the cursor is not bound in the end. -/
def construct (thread k : Nat) (conditions : Conditions) : Handles :=
  let c := bindHandle (takeHandle h.custody thread k conditions.memory) k conditions
  match c.holder k with
  | none => { h with custody := c, cursors := Function.update h.cursors k .destroyed }
  | some r =>
    if conditions.opens then { h with custody := c, cursors := Function.update h.cursors k .alive }
    else
      { h with
        custody := c.lose k r
        cursors := Function.update h.cursors k .destroyed
        failed := h.failed + 1 }

def close (k : Nat) : Handles :=
  match h.custody.holder k with
  | some r => { h with custody := h.custody.close k r }
  | none => h

def destroy (thread k : Nat) : Handles :=
  match h.custody.holder k with
  | some r =>
    { h with custody := h.custody.release thread k r, cursors := Function.update h.cursors k .destroyed }
  | none => { h with cursors := Function.update h.cursors k .destroyed }

def step : Event → Option Handles
  | .construct thread k conditions =>
    if h.ended thread = false ∧ h.cursors k = .unborn then some (h.construct thread k conditions) else none
  | .bind k conditions =>
    if h.cursors k = .alive then some { h with custody := bindHandle h.custody k conditions } else none
  | .moveConstruct k j =>
    if h.cursors k = .unborn ∧ h.cursors j = .alive then
      some { h with custody := h.custody.swap k j, cursors := Function.update h.cursors k .alive }
    else none
  | .moveAssign k j =>
    if h.cursors k = .alive ∧ h.cursors j = .alive then some { h with custody := h.custody.swap k j } else none
  | .close k => if h.cursors k = .alive then some (h.close k) else none
  | .destroy thread k =>
    if h.ended thread = false ∧ h.cursors k = .alive then some (h.destroy thread k) else none
  | .endThread thread =>
    if h.ended thread = false then
      some { h with custody := h.custody.drain thread, ended := Function.update h.ended thread true }
    else none

end Step

/-- Every handle has one place, only living cursors have one, and what is lost was lost by a constructor. -/
structure Accounted (h : Handles) : Prop where
  agrees : ∃ place, h.custody.Agrees place
  alive : ∀ k r, h.custody.holder k = some r → h.cursors k = .alive
  lost : h.custody.lost.length = h.failed

theorem accounted_new : Accounted {} where
  agrees := ⟨_, Custody.agrees_new⟩
  alive := fun _ _ h => by cases h
  lost := rfl

/-! ## What the calls do to the custody -/

/-- The custody after a call on the handle of `k`: nobody else's has changed, and nothing is lost. -/
structure Local (c c' : Custody Nat Nat) (k : Nat) : Prop where
  agrees : ∃ place, c'.Agrees place
  others : ∀ j, j ≠ k → c'.holder j = c.holder j
  lost : c'.lost = c.lost

variable {c c' c'' : Custody Nat Nat} {place : Nat → Custody.Place Nat Nat} {k r : Nat}

theorem Local.refl (h : c.Agrees place) : Local c c k := ⟨⟨place, h⟩, fun _ _ => rfl, rfl⟩

theorem Local.trans (h : Local c c' k) (h' : Local c' c'' k) : Local c c'' k :=
  ⟨h'.agrees, fun j hj => (h'.others j hj).trans (h.others j hj), h'.lost.trans h.lost⟩

theorem local_createHandle (h : c.Agrees place) (hk : c.holder k = none) (memory : Bool) :
    Local c (createHandle c k memory) k := by
  unfold createHandle
  split
  · exact ⟨⟨_, h.create hk⟩, fun j hj => Function.update_of_ne hj _ _, rfl⟩
  · exact Local.refl h

theorem local_close (h : c.Agrees place) (hk : c.holder k = some r) : Local c (c.close k r) k :=
  ⟨⟨_, h.close hk⟩, fun _ hj => Function.update_of_ne hj _ _, rfl⟩

theorem local_takeHandle (h : c.Agrees place) (hk : c.holder k = none) (thread : Nat) (memory : Bool) :
    Local c (takeHandle c thread k memory) k := by
  unfold takeHandle
  cases hpool : c.pools thread with
  | nil => exact local_createHandle h hk memory
  | cons r rest => exact ⟨⟨_, h.acquire hpool hk⟩, fun j hj => Function.update_of_ne hj _ _, rfl⟩

theorem local_bindHandle (h : c.Agrees place) (conditions : Conditions) : Local c (bindHandle c k conditions) k := by
  unfold bindHandle
  cases hk : c.holder k with
  | none => exact Local.refl h
  | some r =>
      split_ifs
      · have hclosed := local_close h hk
        obtain ⟨place', hplace'⟩ := hclosed.agrees
        exact hclosed.trans (local_createHandle hplace' (Function.update_self ..) conditions.memory)
      · exact Local.refl h

/-! ## The steps -/

variable {h h' : Handles}

theorem Accounted.of_local (hinv : h.Accounted) (hlocal : Local h.custody c' k) {cursors : Nat → CursorLife}
    (hothers : ∀ j, j ≠ k → cursors j = h.cursors j) (hk : ∀ r, c'.holder k = some r → cursors k = .alive) :
    Accounted { h with custody := c', cursors := cursors } := by
  refine ⟨hlocal.agrees, fun j r hj => ?_, (congrArg List.length hlocal.lost).trans hinv.lost⟩
  by_cases hjk : j = k
  · subst hjk
    exact hk r hj
  · rw [hlocal.others j hjk] at hj
    exact (hothers j hjk).trans (hinv.alive j r hj)

theorem Accounted.holder_none (hinv : h.Accounted) (hk : h.cursors k ≠ .alive) : h.custody.holder k = none := by
  cases hholder : h.custody.holder k with
  | none => rfl
  | some r => exact absurd (hinv.alive k r hholder) hk

theorem Accounted.construct (hinv : h.Accounted) (hk : h.cursors k = .unborn) (thread : Nat) (conditions : Conditions) :
    (h.construct thread k conditions).Accounted := by
  obtain ⟨place, hplace⟩ := hinv.agrees
  have hnone : h.custody.holder k = none := hinv.holder_none (by simp [hk])
  have htake := local_takeHandle hplace hnone thread conditions.memory
  obtain ⟨place', hplace'⟩ := htake.agrees
  have hlocal := htake.trans (local_bindHandle hplace' conditions)
  have hothers : ∀ life, ∀ j, j ≠ k → Function.update h.cursors k life j = h.cursors j := fun life j hj =>
    Function.update_of_ne hj _ _
  simp only [Handles.construct]
  generalize bindHandle (takeHandle h.custody thread k conditions.memory) k conditions = c at hlocal ⊢
  cases hholder : c.holder k with
  | none => exact hinv.of_local hlocal (hothers _) fun r hr => by rw [hholder] at hr; cases hr
  | some r =>
      cases conditions.opens with
      | true => exact hinv.of_local hlocal (hothers _) fun _ _ => Function.update_self ..
      | false =>
          obtain ⟨place'', hplace''⟩ := hlocal.agrees
          refine ⟨⟨_, hplace''.lose hholder⟩, fun j s hj => ?_, ?_⟩
          · have hjk : j ≠ k := by
              rintro rfl
              have hupdate : Function.update c.holder j none j = some s := hj
              rw [Function.update_self] at hupdate
              cases hupdate
            have hj' : h.custody.holder j = some s :=
              (hlocal.others j hjk).symm.trans ((Function.update_of_ne hjk _ _).symm.trans hj)
            exact (hothers _ j hjk).trans (hinv.alive j s hj')
          · change (r :: c.lost).length = h.failed + 1
            rw [List.length_cons, hlocal.lost, hinv.lost]

theorem Accounted.close (hinv : h.Accounted) (hk : h.cursors k = .alive) : (h.close k).Accounted := by
  obtain ⟨place, hplace⟩ := hinv.agrees
  unfold Handles.close
  cases hholder : h.custody.holder k with
  | none => exact hinv
  | some r => exact hinv.of_local (local_close hplace hholder) (fun _ _ => rfl) fun _ _ => hk

theorem Accounted.destroy (hinv : h.Accounted) (thread k : Nat) : (h.destroy thread k).Accounted := by
  obtain ⟨place, hplace⟩ := hinv.agrees
  have hothers : ∀ j, j ≠ k → Function.update h.cursors k .destroyed j = h.cursors j := fun j hj =>
    Function.update_of_ne hj _ _
  unfold Handles.destroy
  cases hholder : h.custody.holder k with
  | none =>
      refine hinv.of_local (Local.refl hplace) hothers fun r hr => ?_
      rw [hholder] at hr
      cases hr
  | some r =>
      have hlocal : Local h.custody (h.custody.release thread k r) k :=
        ⟨⟨_, hplace.release hholder⟩, fun j hj => Function.update_of_ne hj _ _, rfl⟩
      refine hinv.of_local hlocal hothers fun s hs => ?_
      have hupdate : Function.update h.custody.holder k none k = some s := hs
      rw [Function.update_self] at hupdate
      cases hupdate

theorem Accounted.swap (hinv : h.Accounted) {k j : Nat} {cursors : Nat → CursorLife} (hk : cursors k = .alive)
    (hj : cursors j = .alive) (hothers : ∀ i, i ≠ k → cursors i = h.cursors i) :
    Accounted { h with custody := h.custody.swap k j, cursors := cursors } := by
  obtain ⟨place, hplace⟩ := hinv.agrees
  refine ⟨⟨_, hplace.swap k j⟩, fun i r hi => ?_, hinv.lost⟩
  have hholder : h.custody.holder (Equiv.swap k j i) = some r := hi
  by_cases hik : i = k
  · exact hik ▸ hk
  · by_cases hij : i = j
    · exact hij ▸ hj
    · rw [Equiv.swap_apply_of_ne_of_ne hik hij] at hholder
      exact (hothers i hik).trans (hinv.alive i r hholder)

theorem Accounted.step (hinv : h.Accounted) {e : Event} (hstep : h.step e = some h') : h'.Accounted := by
  obtain ⟨place, hplace⟩ := hinv.agrees
  cases e with
  | construct thread k conditions =>
      obtain ⟨⟨-, hk⟩, heq⟩ := Option.ite_none_right_eq_some.mp hstep
      cases heq
      exact hinv.construct hk thread conditions
  | bind k conditions =>
      obtain ⟨hk, heq⟩ := Option.ite_none_right_eq_some.mp hstep
      cases heq
      exact hinv.of_local (local_bindHandle hplace conditions) (fun _ _ => rfl) fun _ _ => hk
  | moveConstruct k j =>
      obtain ⟨⟨hk, hj⟩, heq⟩ := Option.ite_none_right_eq_some.mp hstep
      cases heq
      have hjk : j ≠ k := by
        rintro rfl
        rw [hk] at hj
        cases hj
      exact hinv.swap (Function.update_self ..) ((Function.update_of_ne hjk _ _).trans hj)
        fun i hi => Function.update_of_ne hi _ _
  | moveAssign k j =>
      obtain ⟨⟨hk, hj⟩, heq⟩ := Option.ite_none_right_eq_some.mp hstep
      cases heq
      exact hinv.swap hk hj fun _ _ => rfl
  | close k =>
      obtain ⟨hk, heq⟩ := Option.ite_none_right_eq_some.mp hstep
      cases heq
      exact hinv.close hk
  | destroy thread k =>
      obtain ⟨-, heq⟩ := Option.ite_none_right_eq_some.mp hstep
      cases heq
      exact hinv.destroy thread k
  | endThread thread =>
      obtain ⟨-, heq⟩ := Option.ite_none_right_eq_some.mp hstep
      cases heq
      exact ⟨⟨_, hplace.drain thread⟩, hinv.alive, hinv.lost⟩

theorem accounted_of_run {events : List Event} (hrun : runSystem step {} events = some h) : h.Accounted := by
  have hstep : ∀ h e h', Accounted h → step h e = some h' → Accounted h' := fun _ _ _ hinv hstep => hinv.step hstep
  exact runSystem_keeps hstep accounted_new hrun

end Handles

open Handles in
/-- **The handles of the cursors**: in every run, a handle that a cursor has is open, belongs to no other cursor and
is in no pool; a handle in a pool is open and in no other pool; and no handle is closed twice. -/
theorem handles_accounted (events : List Handles.Event) (h : Handles) (hrun : runSystem step {} events = some h) :
    (∀ k r, h.custody.holder k = some r → h.cursors k = .alive ∧ r ∉ h.custody.closed ∧
      (∀ j, h.custody.holder j = some r → j = k) ∧ ∀ thread, r ∉ h.custody.pools thread) ∧
      (∀ thread r, r ∈ h.custody.pools thread → r ∉ h.custody.closed ∧
        ∀ thread', r ∈ h.custody.pools thread' → thread' = thread) ∧
      h.custody.closed.Nodup := by
  have hinv := accounted_of_run hrun
  obtain ⟨place, hplace⟩ := hinv.agrees
  refine ⟨fun k r hk => ⟨hinv.alive k r hk, ?_, fun j hj => hplace.holder_inj hj hk, fun thread hr => ?_⟩,
    fun thread r hr => ⟨?_, fun thread' hr' => ?_⟩, hplace.nodup_closed⟩
  · rw [hplace.closed, (hplace.holder k r).mp hk]
    simp
  · rw [hplace.pools, (hplace.holder k r).mp hk] at hr
    cases hr
  · rw [hplace.closed, (hplace.pools thread r).mp hr]
    simp
  · rw [hplace.pools, (hplace.pools thread r).mp hr] at hr'
    cases hr'
    rfl

namespace Handles

def fine : Conditions := { stale := false, memory := true, opens := true }

/-- Two cursors exchange their handles, and one of them is destroyed in another thread, where the next cursor finds a
handle that it cannot use. A constructor that throws loses its handle. -/
def twoThreads : List Event :=
  [.construct 0 0 fine, .construct 0 1 fine, .moveAssign 0 1, .destroy 1 0, .construct 1 2 { fine with stale := true },
    .construct 0 3 { fine with opens := false }]

end Handles

open Handles in
theorem handles_accounted_two : ∃ h, runSystem step {} twoThreads = some h ∧ h.custody.holder 1 = some 0 ∧
    h.custody.holder 2 = some 2 ∧ h.custody.closed = [1] ∧ h.custody.lost = [3] ∧ 0 ∉ h.custody.closed := by
  refine ⟨_, rfl, rfl, rfl, rfl, rfl, ?_⟩
  exact ((handles_accounted twoThreads _ rfl).1 1 0 rfl).2.1

open Handles in
/-- **In the end**: when no cursor is left and no thread has a handle in its pool, the handles that have been created
are closed, except one for every constructor that threw when it had a handle. -/
theorem handles_all_closed (events : List Handles.Event) (h : Handles) (hrun : runSystem step {} events = some h)
    (hcursors : ∀ k, h.cursors k ≠ .alive) (hpools : ∀ thread, h.custody.pools thread = []) :
    (h.custody.closed ++ h.custody.lost).Perm (List.range h.custody.created) ∧ h.custody.lost.length = h.failed := by
  have hinv := accounted_of_run hrun
  obtain ⟨place, hplace⟩ := hinv.agrees
  exact ⟨hplace.perm_range hpools fun k => hinv.holder_none (hcursors k), hinv.lost⟩

open Handles in
theorem handles_all_closed_two :
    ∃ h, runSystem step {} (twoThreads ++ [.destroy 0 1, .destroy 0 2, .endThread 0]) = some h ∧
    (h.custody.closed ++ h.custody.lost).Perm (List.range 4) ∧ h.failed = 1 := by
  refine ⟨_, rfl, ?_, rfl⟩
  refine (handles_all_closed (twoThreads ++ [.destroy 0 1, .destroy 0 2, .endThread 0]) _ rfl ?_ ?_).1
  · intro k hk
    rcases k with _ | _ | _ | _ | k <;> cases hk
  · intro thread
    rcases thread with _ | _ | thread <;> rfl

end Znode.Database
