import Mathlib.Data.List.TakeWhile
import Mathlib.Data.Nat.Digits.Lemmas
import Mathlib.Tactic.Ring

/-!
# Digit strings, most significant digit first

* `horner b l` : the number with the digits `l` in base `b`, by Horner's rule;
* `radix b n` : the digits of `n`, without a zero in front (`horner_radix`, `radix_lt`, `head?_radix`);
* `leading l` : how many zeros stand in front. Together with the number they determine the string
  (`leading_append_radix`);
* `recode b c` : digits in base `b` written in base `c`, with as many zeros in front; it is undone by
  `recode c b` (`recode_recode`);
* `divLoop` : the loop that divides by the base and puts each remainder in front.
-/

namespace Znode.Lib

/-- The number with the digits `l` in base `b`. -/
def horner (b : Nat) (l : List Nat) : Nat := l.foldl (fun acc d => acc * b + d) 0

/-- The digits of `n` in base `b`, none for zero. -/
def radix (b n : Nat) : List Nat := (Nat.digits b n).reverse

/-- How many zeros are in front. -/
def leading (l : List Nat) : Nat := (l.takeWhile (· = 0)).length

theorem horner_eq_ofDigits (b : Nat) (l : List Nat) : horner b l = Nat.ofDigits b l.reverse := by
  rw [Nat.ofDigits_eq_foldr, List.foldr_reverse, horner]
  congr 1
  funext acc d
  rw [Nat.cast_id]
  ring

@[simp] theorem horner_nil (b : Nat) : horner b [] = 0 := rfl

theorem horner_append (b : Nat) (l r : List Nat) : horner b (l ++ r) = horner b l * b ^ r.length + horner b r := by
  rw [horner_eq_ofDigits, List.reverse_append, Nat.ofDigits_append, List.length_reverse, ← horner_eq_ofDigits,
    ← horner_eq_ofDigits]
  ring

theorem horner_cons (b d : Nat) (l : List Nat) : horner b (d :: l) = d * b ^ l.length + horner b l := by
  rw [← List.singleton_append, horner_append]
  simp [horner]

theorem horner_replicate_zero (b n : Nat) : horner b (List.replicate n 0) = 0 := by
  rw [horner_eq_ofDigits, List.reverse_replicate, Nat.ofDigits_replicate_zero]

theorem horner_zeros_append (b n : Nat) (l : List Nat) : horner b (List.replicate n 0 ++ l) = horner b l := by
  rw [horner_append, horner_replicate_zero, Nat.zero_mul, Nat.zero_add]

@[simp] theorem horner_radix (b n : Nat) : horner b (radix b n) = n := by
  rw [horner_eq_ofDigits, radix, List.reverse_reverse, Nat.ofDigits_digits]

@[simp] theorem radix_zero (b : Nat) : radix b 0 = [] := by
  simp [radix]

theorem radix_eq_nil_iff {b n : Nat} : radix b n = [] ↔ n = 0 := by
  rw [radix, List.reverse_eq_nil_iff, Nat.digits_eq_nil_iff_eq_zero]

theorem leading_cons_zero (l : List Nat) : leading (0 :: l) = leading l + 1 := by
  simp [leading]

theorem leading_eq_zero {l : List Nat} (h : l.head? ≠ some 0) : leading l = 0 := by
  cases l with
  | nil => rfl
  | cons d l =>
      have hd : d ≠ 0 := fun hzero => h (by rw [hzero, List.head?_cons])
      simp [leading, hd]

theorem leading_zeros_append (n : Nat) {l : List Nat} (h : l.head? ≠ some 0) :
    leading (List.replicate n 0 ++ l) = n := by
  induction n with
  | zero => exact leading_eq_zero h
  | succ n ih => rw [List.replicate_succ, List.cons_append, leading_cons_zero, ih]

theorem head?_radix (b n : Nat) : (radix b n).head? ≠ some 0 := by
  rw [radix, List.head?_reverse]
  intro h
  have hne : Nat.digits b n ≠ [] := by
    intro hnil
    rw [hnil] at h
    cases h
  rw [List.getLast?_eq_some_getLast hne, Option.some.injEq] at h
  exact Nat.getLast_digit_ne_zero b (Nat.digits_ne_nil_iff_ne_zero.mp hne) h

/-- The zeros in front, counted on the characters the digits are written with. -/
theorem leading_map {α : Type} [DecidableEq α] {f : Nat → α} {mark : α} {l : List Nat}
    (h : ∀ d ∈ l, f d = mark ↔ d = 0) : ((l.map f).takeWhile (· = mark)).length = leading l := by
  induction l with
  | nil => rfl
  | cons d l ih =>
      have hd := h d List.mem_cons_self
      have hl := ih fun x hx => h x (List.mem_cons_of_mem d hx)
      by_cases hzero : d = 0
      · rw [hzero, leading_cons_zero, ← hl, List.map_cons,
          List.takeWhile_cons_of_pos (by simpa using (hzero ▸ hd).mpr rfl), List.length_cons]
      · rw [leading_eq_zero (by simpa using hzero), List.map_cons,
          List.takeWhile_cons_of_neg (by simpa using fun heq => hzero (hd.mp heq))]
        rfl

section Base
variable {b : Nat} (hb : 1 < b)
include hb

theorem horner_lt {l : List Nat} (hl : ∀ d ∈ l, d < b) : horner b l < b ^ l.length := by
  rw [horner_eq_ofDigits, ← List.length_reverse]
  exact Nat.ofDigits_lt_base_pow_length hb fun d hd => hl d (List.mem_reverse.mp hd)

theorem radix_lt {n d : Nat} (h : d ∈ radix b n) : d < b :=
  Nat.digits_lt_base hb (List.mem_reverse.mp h)

theorem length_radix_le_iff {n k : Nat} : (radix b n).length ≤ k ↔ n < b ^ k := by
  rw [radix, List.length_reverse, Nat.digits_length_le_iff hb]

/-- Digits without a zero in front are those of their number. -/
theorem radix_horner {l : List Nat} (hl : ∀ d ∈ l, d < b) (hhead : l.head? ≠ some 0) : radix b (horner b l) = l := by
  rw [horner_eq_ofDigits, radix, Nat.digits_ofDigits b hb l.reverse, List.reverse_reverse]
  · exact fun d hd => hl d (List.mem_reverse.mp hd)
  · intro hne hlast
    apply hhead
    rw [← List.getLast?_reverse, List.getLast?_eq_some_getLast hne, hlast]

/-- The zeros in front and the number determine the string. -/
theorem leading_append_radix {l : List Nat} (hl : ∀ d ∈ l, d < b) :
    List.replicate (leading l) 0 ++ radix b (horner b l) = l := by
  induction l with
  | nil => simp [leading]
  | cons d l ih =>
      by_cases hd : d = 0
      · subst hd
        rw [leading_cons_zero, List.replicate_succ, List.cons_append, horner_cons, Nat.zero_mul, Nat.zero_add,
          ih fun x hx => hl x (List.mem_cons_of_mem 0 hx)]
      · have hhead : (d :: l).head? ≠ some 0 := by simpa using hd
        rw [leading_eq_zero hhead, radix_horner hb hl hhead]
        rfl

theorem dropWhile_zero {l : List Nat} (hl : ∀ d ∈ l, d < b) : l.dropWhile (· = 0) = radix b (horner b l) := by
  have hsplit := List.takeWhile_append_dropWhile (p := (· = 0)) (l := l)
  have hzeros : l.takeWhile (· = 0) = List.replicate (leading l) 0 :=
    List.eq_replicate_of_mem fun d hd => by simpa using List.mem_takeWhile_imp hd
  rw [hzeros] at hsplit
  exact List.append_cancel_left (hsplit.trans (leading_append_radix hb hl).symm)

end Base

/-! ## From one base to another -/

/-- Digits in base `b` written in base `c`, with as many zeros in front. -/
def recode (b c : Nat) (l : List Nat) : List Nat := List.replicate (leading l) 0 ++ radix c (horner b l)

section Recode
variable {b c : Nat}

theorem recode_lt (hc : 1 < c) {l : List Nat} {d : Nat} (h : d ∈ recode b c l) : d < c := by
  rcases List.mem_append.mp h with hzero | hdigit
  · rw [List.eq_of_mem_replicate hzero]
    omega
  · exact radix_lt hc hdigit

theorem leading_recode (l : List Nat) : leading (recode b c l) = leading l :=
  leading_zeros_append _ (head?_radix c _)

theorem horner_recode (l : List Nat) : horner c (recode b c l) = horner b l := by
  rw [recode, horner_zeros_append, horner_radix]

/-- **Writing in another base** loses nothing. -/
theorem recode_recode (hb : 1 < b) {l : List Nat} (hl : ∀ d ∈ l, d < b) :
    recode c b (recode b c l) = l := by
  rw [recode, leading_recode, horner_recode, leading_append_radix hb hl]

@[simp] theorem recode_nil : recode b c [] = [] := by
  simp [recode, leading]

end Recode

/-! ## Division by the base -/

/-- The loop `while (value != 0)`: the remainder of the division by `b` goes in front. -/
def divLoop {α : Type} (b : Nat) (hb : 1 < b) (digit : Nat → α) (value : Nat) (out : List α) : List α :=
  if value = 0 then out
  else divLoop b hb digit (value / b) (digit (value % b) :: out)
termination_by value
decreasing_by exact Nat.div_lt_self (Nat.pos_of_ne_zero ‹_›) hb

theorem divLoop_eq {α : Type} {b : Nat} (hb : 1 < b) (digit : Nat → α) (value : Nat) (out : List α) :
    divLoop b hb digit value out = (radix b value).map digit ++ out := by
  fun_induction divLoop b hb digit value out with
  | case1 out => simp
  | case2 value out h ih =>
      rw [ih, radix, radix, Nat.digits_def' hb (Nat.pos_of_ne_zero h), List.reverse_cons, List.map_append,
        List.append_assoc]
      rfl

end Znode.Lib
