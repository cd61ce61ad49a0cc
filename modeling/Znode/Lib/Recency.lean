import Mathlib.Data.List.Nodup
import Mathlib.Data.List.TakeDrop

/-!
# The most recent keys

A history of keys, the latest one first, and the distinct keys in it.

* `recent m history` : the `m` most recent distinct keys;
* `touch m key keys` : what a new key does to them;
* `recent_cons` : the two agree.
-/

namespace Znode.Lib

variable {α : Type} [DecidableEq α]

/-- The `m` most recent distinct keys of a history that has the latest key first. -/
def recent (m : Nat) (history : List α) : List α := history.eraseDups.take m

@[simp] theorem recent_nil (m : Nat) : recent m ([] : List α) = [] := by simp [recent]

/-- A key that is there moves to the front; a new one comes to the front, and there it may push out the last one. -/
def touch (m : Nat) (key : α) (keys : List α) : List α :=
  if key ∈ keys then key :: keys.erase key else (key :: keys).take m

theorem eraseDups_filter (p : α → Bool) (l : List α) : (l.filter p).eraseDups = l.eraseDups.filter p := by
  induction hn : l.length using Nat.strongRecOn generalizing l with
  | ind n ih =>
      cases l with
      | nil => rfl
      | cons a l =>
          have hshort : ∀ q : α → Bool, (l.filter q).length < n := fun q => by
            rw [← hn]
            exact Nat.lt_succ_of_le (List.length_filter_le q l)
          have hcommute : (l.filter p).filter (fun b => !b == a) = (l.filter fun b => !b == a).filter p := by
            rw [List.filter_filter, List.filter_filter]
            exact List.filter_congr fun b _ => Bool.and_comm _ _
          rw [List.eraseDups_cons, List.filter_cons, List.filter_cons]
          by_cases hp : p a
          · rw [if_pos hp, if_pos hp, List.eraseDups_cons, hcommute, ih _ (hshort _) _ rfl]
          · -- the keys equal to `a` fail `p` as well
            have hself : (l.filter p).filter (fun b => !b == a) = l.filter p := by
              refine List.filter_eq_self.mpr fun b hb => ?_
              have hpb := List.of_mem_filter hb
              simp only [Bool.not_eq_true', beq_eq_false_iff_ne, ne_eq]
              rintro rfl
              exact hp hpb
            rw [if_neg hp, if_neg (by simpa using hp), ← ih _ (hshort _) _ rfl, ← hcommute, hself]

theorem nodup_eraseDups (l : List α) : l.eraseDups.Nodup := by
  induction l with
  | nil => exact List.nodup_nil
  | cons a l ih =>
      rw [List.eraseDups_cons, eraseDups_filter]
      refine List.nodup_cons.mpr ⟨?_, ih.filter _⟩
      simp

theorem eraseDups_cons_erase (key : α) (history : List α) :
    (key :: history).eraseDups = key :: history.eraseDups.erase key := by
  rw [List.eraseDups_cons, eraseDups_filter, (nodup_eraseDups history).erase_eq_filter]
  rfl

theorem take_cons_erase {key : α} {keys : List α} (m : Nat) (h : keys.Nodup) :
    (key :: keys.erase key).take m = touch m key (keys.take m) := by
  unfold touch
  by_cases hkey : key ∈ keys
  · obtain ⟨before, after, rfl⟩ := List.append_of_mem hkey
    have hbefore : key ∉ before := fun hin => (List.nodup_append.mp h).2.2 key hin key List.mem_cons_self rfl
    rw [List.erase_append_right _ hbefore, List.erase_cons_head]
    by_cases hm : before.length < m
    · -- the key is among the first `m`
      have htake : (before ++ key :: after).take m = before ++ key :: after.take (m - before.length - 1) := by
        rw [List.take_append, List.take_of_length_le (Nat.le_of_lt hm), List.take_cons (by omega)]
      rw [htake, if_pos (by simp), List.erase_append_right _ hbefore, List.erase_cons_head, List.take_cons (by omega),
        List.take_append, List.take_of_length_le (by omega)]
      congr 3
      omega
    · have htake : (before ++ key :: after).take m = before.take m := List.take_append_of_le_length (by omega)
      have hout : key ∉ before.take m := fun hin => hbefore (List.mem_of_mem_take hin)
      rw [htake, if_neg hout]
      cases m with
      | zero => rfl
      | succ m =>
          rw [List.take_succ_cons, List.take_succ_cons, List.take_append_of_le_length (by omega), List.take_take,
            Nat.min_eq_left (Nat.le_succ m)]
  · have hout : key ∉ keys.take m := fun hin => hkey (List.mem_of_mem_take hin)
    rw [List.erase_of_not_mem hkey, if_neg hout]
    cases m with
    | zero => rfl
    | succ m => rw [List.take_succ_cons, List.take_succ_cons, List.take_take, Nat.min_eq_left (Nat.le_succ m)]

/-- **A new key touches the most recent ones.** -/
theorem recent_cons (m : Nat) (key : α) (history : List α) :
    recent m (key :: history) = touch m key (recent m history) := by
  rw [recent, eraseDups_cons_erase, take_cons_erase m (nodup_eraseDups history), recent]

end Znode.Lib
