import Mathlib.Data.List.Basic
import Mathlib.Data.List.TakeWhile

/-!
# Regular expressions with groups

* `Regex α` : classes of characters, their repetition, sequence, choice, option and groups;
* `Regex.paths` : the ways to match the front of a text, in the order in which a backtracking matcher tries them, each
  with what the groups took and what is left;
* `Regex.fullMatch` : the first way that leaves nothing;
* `Regex.Matches r s groups` : the expression stands for the whole text, whatever the order of the ways. A match is one
  of these (`matches_of_fullMatch`), there is one if there can be (`fullMatch_isSome`), and when the groups are
  determined by the text it is the only one (`fullMatch_eq_some_iff`);
* `Regex.fullMatch_of_head?`, `Regex.fullMatch_seq`, `Regex.fullMatch_greedy_seq` : when they are not, what is tried
  first decides. A greedy group takes the longest front that the rest can complete;
* `Regex.opt_group_matches_iff` : a group that may be left out;
* `Regex.word`, `Regex.oneOf` : a word, one of several words, with characters told apart up to a function.
-/

namespace Znode.Lib

/-- Regular expressions. A repetition takes as many characters as it can if `greedy`, as few as it can otherwise. -/
inductive Regex (α : Type) where
  | empty
  | one (p : α → Bool)
  | many (greedy : Bool) (lo : Nat) (hi : Option Nat) (p : α → Bool)
  | seq (r t : Regex α)
  | alt (r t : Regex α)
  | opt (r : Regex α)
  | group (r : Regex α)

namespace Regex
variable {α : Type}

def groups : Regex α → Nat
  | empty => 0
  | one _ => 0
  | many _ _ _ _ => 0
  | seq r t => r.groups + t.groups
  | alt r t => r.groups + t.groups
  | opt r => r.groups
  | group r => r.groups + 1

def unmatched (n : Nat) : List (Option (List α)) := List.replicate n none

/-- The lengths from `lo` to `n`, in the order in which a repetition tries them. -/
def lengths (greedy : Bool) (lo n : Nat) : List Nat :=
  let up := (List.range (n + 1)).filter (lo ≤ ·)
  if greedy then up.reverse else up

/-- The ways to match the front of a text: what the groups took, and what is left. -/
def paths : Regex α → List α → List (List (Option (List α)) × List α)
  | empty, s => [([], s)]
  | one _, [] => []
  | one p, c :: s => if p c then [([], s)] else []
  | many greedy lo hi p, s =>
    let run := (s.takeWhile p).length
    (lengths greedy lo (hi.elim run (min run))).map fun n => ([], s.drop n)
  | seq r t, s =>
    (r.paths s).flatMap fun m => (t.paths m.2).map fun m' => (m.1 ++ m'.1, m'.2)
  | alt r t, s =>
    (r.paths s).map (fun m => (m.1 ++ unmatched t.groups, m.2)) ++
      (t.paths s).map fun m => (unmatched r.groups ++ m.1, m.2)
  | opt r, s => r.paths s ++ [(unmatched r.groups, s)]
  | group r, s => (r.paths s).map fun m => (some (s.take (s.length - m.2.length)) :: m.1, m.2)

/-- The first way that leaves nothing. -/
def fullMatch (r : Regex α) (s : List α) : Option (List (Option (List α))) :=
  ((r.paths s).find? fun m => m.2.isEmpty).map Prod.fst

/-- The text of group `i`, counted from one; empty for a group that took no part. -/
def str (gs : List (Option (List α))) (i : Nat) : List α := (gs.getD (i - 1) none).getD []

/-- The expression stands for the text, and these are its groups. -/
def Matches : Regex α → List α → List (Option (List α)) → Prop
  | empty, s, gs => s = [] ∧ gs = []
  | one p, s, gs => (∃ c, p c ∧ s = [c]) ∧ gs = []
  | many _ lo hi p, s, gs => (∀ c ∈ s, p c) ∧ lo ≤ s.length ∧ (∀ n ∈ hi, s.length ≤ n) ∧ gs = []
  | seq r t, s, gs => ∃ s₁ s₂ gs₁ gs₂, r.Matches s₁ gs₁ ∧ t.Matches s₂ gs₂ ∧ s = s₁ ++ s₂ ∧ gs = gs₁ ++ gs₂
  | alt r t, s, gs => (∃ gs₁, r.Matches s gs₁ ∧ gs = gs₁ ++ unmatched t.groups) ∨
      ∃ gs₂, t.Matches s gs₂ ∧ gs = unmatched r.groups ++ gs₂
  | opt r, s, gs => r.Matches s gs ∨ s = [] ∧ gs = unmatched r.groups
  | group r, s, gs => ∃ gs', r.Matches s gs' ∧ gs = some s :: gs'

/-! ## One kind of expression at a time -/

section
variable {r t : Regex α} {s : List α} {gs : List (Option (List α))} {greedy : Bool} {lo : Nat} {hi : Option Nat}
  {p : α → Bool}

theorem paths_empty : (empty : Regex α).paths s = [([], s)] := rfl

theorem paths_one_nil : (one p).paths [] = [] := rfl

theorem paths_one_cons {c : α} : (one p).paths (c :: s) = if p c then [([], s)] else [] := rfl

theorem paths_many : (many greedy lo hi p).paths s =
    (lengths greedy lo (hi.elim (s.takeWhile p).length (min (s.takeWhile p).length))).map fun n => ([], s.drop n) := rfl

theorem paths_seq : (seq r t).paths s =
    (r.paths s).flatMap fun m => (t.paths m.2).map fun m' => (m.1 ++ m'.1, m'.2) := rfl

theorem paths_alt : (alt r t).paths s =
    (r.paths s).map (fun m => (m.1 ++ unmatched t.groups, m.2)) ++
      (t.paths s).map fun m => (unmatched r.groups ++ m.1, m.2) := rfl

theorem paths_opt : (opt r).paths s = r.paths s ++ [(unmatched r.groups, s)] := rfl

theorem paths_group : (group r).paths s =
    (r.paths s).map fun m => (some (s.take (s.length - m.2.length)) :: m.1, m.2) := rfl

theorem matches_empty_iff : (empty : Regex α).Matches s gs ↔ s = [] ∧ gs = [] := Iff.rfl

theorem matches_many_iff : (many greedy lo hi p).Matches s gs ↔
    (∀ c ∈ s, p c) ∧ lo ≤ s.length ∧ (∀ n ∈ hi, s.length ≤ n) ∧ gs = [] := Iff.rfl

theorem matches_alt_iff : (alt r t).Matches s gs ↔
    (∃ gs₁, r.Matches s gs₁ ∧ gs = gs₁ ++ unmatched t.groups) ∨
      ∃ gs₂, t.Matches s gs₂ ∧ gs = unmatched r.groups ++ gs₂ := Iff.rfl

theorem matches_opt_iff : (opt r).Matches s gs ↔ r.Matches s gs ∨ s = [] ∧ gs = unmatched r.groups := Iff.rfl

theorem matches_group_iff : (group r).Matches s gs ↔ ∃ gs', r.Matches s gs' ∧ gs = some s :: gs' := Iff.rfl

end

/-! ## The ways and the texts -/

theorem mem_lengths {greedy : Bool} {lo n k : Nat} : k ∈ lengths greedy lo n ↔ lo ≤ k ∧ k ≤ n := by
  unfold lengths
  cases greedy <;> simp <;> omega

/-- The fronts of a text in a class are those of its longest front in the class. -/
theorem forall_mem_take_iff {p : α → Bool} {s : List α} {n : Nat} (hn : n ≤ s.length) :
    (∀ c ∈ s.take n, p c) ↔ n ≤ (s.takeWhile p).length := by
  induction s generalizing n with
  | nil =>
      have : n = 0 := by simpa using hn
      simp [this]
  | cons c s ih =>
      cases n with
      | zero => simp
      | succ n =>
          rw [List.take_succ_cons, List.forall_mem_cons, ih (by simpa using hn)]
          by_cases hc : p c
          · simp [List.takeWhile_cons_of_pos hc, hc]
          · simp [List.takeWhile_cons_of_neg hc, hc]

theorem le_elim_min_iff {hi : Option Nat} {run k : Nat} : k ≤ hi.elim run (min run) ↔ k ≤ run ∧ ∀ n ∈ hi, k ≤ n := by
  cases hi with
  | none => simp
  | some n => simp only [Option.elim_some, Nat.le_min, Option.mem_def, Option.some.injEq, forall_eq']

theorem mem_lengths_iff_matches {greedy : Bool} {lo n : Nat} {hi : Option Nat} {p : α → Bool} {s : List α} :
    n ∈ lengths greedy lo (hi.elim (s.takeWhile p).length (min (s.takeWhile p).length)) ↔
      n ≤ s.length ∧ (many greedy lo hi p).Matches (s.take n) [] := by
  rw [mem_lengths, le_elim_min_iff]
  constructor
  · rintro ⟨hlo, hrun, hhi⟩
    have hlen : n ≤ s.length := Nat.le_trans hrun (List.takeWhile_sublist p).length_le
    rw [matches_many_iff, List.length_take_of_le hlen, forall_mem_take_iff hlen]
    exact ⟨hlen, hrun, hlo, hhi, rfl⟩
  · rintro ⟨hlen, hmatch⟩
    rw [matches_many_iff, List.length_take_of_le hlen, forall_mem_take_iff hlen] at hmatch
    exact ⟨hmatch.2.1, hmatch.1, hmatch.2.2.1⟩

theorem mem_paths_many {greedy : Bool} {lo : Nat} {hi : Option Nat} {p : α → Bool} {s rest : List α}
    {gs : List (Option (List α))} : (gs, rest) ∈ (many greedy lo hi p).paths s ↔
      ∃ front, s = front ++ rest ∧ (many greedy lo hi p).Matches front gs := by
  simp only [paths_many, List.mem_map, mem_lengths_iff_matches, Prod.mk.injEq]
  constructor
  · rintro ⟨n, ⟨-, hmatch⟩, rfl, rfl⟩
    exact ⟨s.take n, (List.take_append_drop n s).symm, hmatch⟩
  · rintro ⟨front, rfl, hmatch⟩
    obtain rfl : gs = [] := hmatch.2.2.2
    refine ⟨front.length, ⟨by simp, ?_⟩, rfl, List.drop_left⟩
    rwa [List.take_left]

/-- **The ways to match** are the fronts the expression stands for. -/
theorem mem_paths_iff (r : Regex α) {s rest : List α} {gs : List (Option (List α))} :
    (gs, rest) ∈ r.paths s ↔ ∃ front, s = front ++ rest ∧ r.Matches front gs := by
  induction r generalizing s rest gs with
  | empty =>
      simp only [paths_empty, matches_empty_iff, List.mem_singleton, Prod.mk.injEq]
      constructor
      · rintro ⟨rfl, rfl⟩
        exact ⟨[], rfl, rfl, rfl⟩
      · rintro ⟨front, hs, rfl, rfl⟩
        exact ⟨rfl, hs.symm⟩
  | one p =>
      constructor
      · intro h
        cases s with
        | nil => cases h
        | cons c s =>
            rw [paths_one_cons] at h
            split_ifs at h with hc
            · rw [List.mem_singleton, Prod.mk.injEq] at h
              exact ⟨[c], by rw [h.2]; rfl, ⟨c, hc, rfl⟩, h.1⟩
            · cases h
      · rintro ⟨front, rfl, ⟨c, hc, rfl⟩, rfl⟩
        simp [paths_one_cons, hc]
  | many greedy lo hi p => exact mem_paths_many
  | seq r t ihr iht =>
      simp only [paths_seq, List.mem_flatMap, List.mem_map, Prod.exists, Prod.mk.injEq, ihr, iht]
      constructor
      · rintro ⟨gs₁, mid, ⟨s₁, rfl, h₁⟩, gs₂, rest', ⟨s₂, rfl, h₂⟩, rfl, rfl⟩
        exact ⟨s₁ ++ s₂, (List.append_assoc s₁ s₂ rest').symm, s₁, s₂, gs₁, gs₂, h₁, h₂, rfl, rfl⟩
      · rintro ⟨front, rfl, s₁, s₂, gs₁, gs₂, h₁, h₂, rfl, rfl⟩
        exact ⟨gs₁, s₂ ++ rest, ⟨s₁, List.append_assoc s₁ s₂ rest, h₁⟩, gs₂, rest, ⟨s₂, rfl, h₂⟩, rfl, rfl⟩
  | alt r t ihr iht =>
      simp only [paths_alt, List.mem_append, List.mem_map, Prod.exists, Prod.mk.injEq, ihr, iht, matches_alt_iff]
      constructor
      · rintro (⟨gs₁, rest', ⟨front, rfl, h⟩, rfl, rfl⟩ | ⟨gs₂, rest', ⟨front, rfl, h⟩, rfl, rfl⟩)
        · exact ⟨front, rfl, .inl ⟨gs₁, h, rfl⟩⟩
        · exact ⟨front, rfl, .inr ⟨gs₂, h, rfl⟩⟩
      · rintro ⟨front, rfl, ⟨gs₁, h, rfl⟩ | ⟨gs₂, h, rfl⟩⟩
        · exact .inl ⟨gs₁, rest, ⟨front, rfl, h⟩, rfl, rfl⟩
        · exact .inr ⟨gs₂, rest, ⟨front, rfl, h⟩, rfl, rfl⟩
  | opt r ih =>
      simp only [paths_opt, List.mem_append, List.mem_singleton, Prod.mk.injEq, ih, matches_opt_iff]
      constructor
      · rintro (⟨front, hs, h⟩ | ⟨hgs, rfl⟩)
        · exact ⟨front, hs, .inl h⟩
        · exact ⟨[], rfl, .inr ⟨rfl, hgs⟩⟩
      · rintro ⟨front, rfl, h | ⟨rfl, hgs⟩⟩
        · exact .inl ⟨front, rfl, h⟩
        · exact .inr ⟨hgs, rfl⟩
  | group r ih =>
      simp only [paths_group, List.mem_map, Prod.exists, Prod.mk.injEq, ih, matches_group_iff]
      constructor
      · rintro ⟨gs', rest', ⟨front, rfl, h⟩, rfl, rfl⟩
        refine ⟨front, rfl, gs', h, ?_⟩
        rw [List.length_append, Nat.add_sub_cancel, List.take_left]
      · rintro ⟨front, rfl, gs', h, rfl⟩
        refine ⟨gs', rest, ⟨front, rfl, h⟩, ?_, rfl⟩
        rw [List.length_append, Nat.add_sub_cancel, List.take_left]

theorem matches_of_fullMatch {r : Regex α} {s : List α} {gs : List (Option (List α))} (h : r.fullMatch s = some gs) :
    r.Matches s gs := by
  obtain ⟨m, hm, rfl⟩ := Option.map_eq_some_iff.mp h
  have hempty := List.find?_some hm
  have hrest : m.2 = [] := List.isEmpty_iff.mp hempty
  obtain ⟨front, hfront, hmatch⟩ := r.mem_paths_iff.mp (List.mem_of_find?_eq_some hm)
  rwa [hfront, hrest, List.append_nil]

theorem fullMatch_isSome {r : Regex α} {s : List α} {gs : List (Option (List α))} (h : r.Matches s gs) :
    (r.fullMatch s).isSome := by
  rw [fullMatch, Option.isSome_map, List.find?_isSome]
  exact ⟨(gs, []), r.mem_paths_iff.mpr ⟨s, (List.append_nil s).symm, h⟩, rfl⟩

theorem fullMatch_eq_none_iff {r : Regex α} {s : List α} : r.fullMatch s = none ↔ ∀ gs, ¬ r.Matches s gs := by
  constructor
  · intro hnone gs hgs
    have hsome := fullMatch_isSome hgs
    rw [hnone] at hsome
    cases hsome
  · intro hno
    cases h : r.fullMatch s with
    | none => rfl
    | some gs => exact absurd (matches_of_fullMatch h) (hno gs)

/-- **When the text determines the groups**, they are what the matcher finds. -/
theorem fullMatch_eq_some_iff {r : Regex α} {s : List α} {gs : List (Option (List α))}
    (hunique : ∀ gs₁ gs₂, r.Matches s gs₁ → r.Matches s gs₂ → gs₁ = gs₂) :
    r.fullMatch s = some gs ↔ r.Matches s gs := by
  constructor
  · exact matches_of_fullMatch
  · intro h
    obtain ⟨gs', hgs'⟩ := Option.isSome_iff_exists.mp (fullMatch_isSome h)
    rw [hgs', hunique gs' gs (matches_of_fullMatch hgs') h]

theorem fullMatch_of_matches_iff {r : Regex α} {s : List α} {gs : List (Option (List α))}
    (h : ∀ gs', r.Matches s gs' ↔ gs' = gs) : r.fullMatch s = some gs :=
  (fullMatch_eq_some_iff fun gs₁ gs₂ h₁ h₂ => ((h gs₁).mp h₁).trans ((h gs₂).mp h₂).symm).mpr ((h gs).mpr rfl)

/-! ## The order of the ways -/

/-- The first way, if it leaves nothing. -/
theorem fullMatch_of_head? {r : Regex α} {s : List α} {gs : List (Option (List α))}
    (h : (r.paths s).head? = some (gs, [])) : r.fullMatch s = some gs := by
  obtain ⟨ways, hways⟩ := List.head?_eq_some_iff.mp h
  rw [fullMatch, hways]
  rfl

theorem head?_paths_seq {r t : Regex α} {s s₁ s₂ : List α} {gs₁ gs₂ : List (Option (List α))}
    (hr : (r.paths s).head? = some (gs₁, s₁)) (ht : (t.paths s₁).head? = some (gs₂, s₂)) :
    ((seq r t).paths s).head? = some (gs₁ ++ gs₂, s₂) := by
  obtain ⟨ways₁, hways₁⟩ := List.head?_eq_some_iff.mp hr
  obtain ⟨ways₂, hways₂⟩ := List.head?_eq_some_iff.mp ht
  rw [paths_seq, hways₁, List.flatMap_cons, hways₂]
  rfl

/-- An option that cannot be taken is left out. -/
theorem head?_paths_opt {r : Regex α} {s : List α} (h : r.paths s = []) :
    ((opt r).paths s).head? = some (unmatched r.groups, s) := by
  rw [paths_opt, h]
  rfl

/-- A greedy group takes the whole text if it can. -/
theorem head?_paths_group_many {lo : Nat} {p : α → Bool} {s : List α} (hp : ∀ c ∈ s, p c) (hlo : lo ≤ s.length) :
    ((group (many true lo none p)).paths s).head? = some ([some s], []) := by
  have hlengths : (lengths true lo s.length).head? = some s.length := by
    rw [lengths, if_pos rfl, List.head?_reverse, List.range_succ, List.filter_append,
      List.filter_cons_of_pos (by simpa using hlo), List.filter_nil, List.getLast?_concat]
  rw [paths_group, paths_many, List.takeWhile_eq_self_iff.mpr hp, Option.elim_none, List.head?_map, List.head?_map,
    hlengths]
  simp

/-- A sequence takes the first way of its first part that the second part can complete. -/
theorem fullMatch_seq (r t : Regex α) (s : List α) :
    (seq r t).fullMatch s = (r.paths s).findSome? fun m => (t.fullMatch m.2).map (m.1 ++ ·) := by
  simp only [fullMatch, paths_seq, List.find?_flatMap, List.find?_map, List.map_findSome?]
  congr 1
  funext m
  simp [Function.comp_def]

theorem fullMatch_one_seq {p : α → Bool} {t : Regex α} {s : List α} {gs : List (Option (List α))} :
    (seq (one p) t).fullMatch s = some gs ↔ ∃ c rest, s = c :: rest ∧ p c ∧ t.fullMatch rest = some gs := by
  rw [fullMatch_seq]
  cases s with
  | nil => simp [paths_one_nil]
  | cons c s =>
      by_cases hc : p c
      · simp [paths_one_cons, hc]
      · simp [paths_one_cons, hc]

/-- In a list that falls, the first element that serves is the greatest one. -/
theorem findSome?_eq_some_iff_max {β : Type} {l : List Nat} (hfalls : l.Pairwise (· > ·)) {f : Nat → Option β} {b : β} :
    l.findSome? f = some b ↔ ∃ n ∈ l, f n = some b ∧ ∀ m ∈ l, (f m).isSome → m ≤ n := by
  induction l with
  | nil => simp
  | cons n l ih =>
      obtain ⟨hn, hl⟩ := List.pairwise_cons.mp hfalls
      rw [List.findSome?_cons]
      cases hf : f n with
      | some b' =>
          constructor
          · intro h
            cases h
            exact ⟨n, .head l, hf,
              fun m hm _ => (List.mem_cons.mp hm).elim Nat.le_of_eq fun hm => Nat.le_of_lt (hn m hm)⟩
          · rintro ⟨k, hk, hfk, hmax⟩
            have hle := hmax n (.head l) (by rw [hf]; rfl)
            rcases List.mem_cons.mp hk with rfl | hk
            · exact hf.symm.trans hfk
            · exact absurd (hn k hk) (Nat.not_lt.mpr hle)
      | none =>
          rw [ih hl]
          constructor
          · rintro ⟨k, hk, hfk, hmax⟩
            refine ⟨k, .tail n hk, hfk, fun m hm hsome => ?_⟩
            rcases List.mem_cons.mp hm with rfl | hm
            · rw [hf] at hsome
              cases hsome
            · exact hmax m hm hsome
          · rintro ⟨k, hk, hfk, hmax⟩
            rcases List.mem_cons.mp hk with rfl | hk
            · rw [hf] at hfk
              cases hfk
            · exact ⟨k, hk, hfk, fun m hm => hmax m (.tail n hm)⟩

theorem pairwise_lengths (lo n : Nat) : (lengths true lo n).Pairwise (· > ·) := by
  rw [lengths, if_pos rfl, List.pairwise_reverse]
  exact List.pairwise_lt_range.filter _

/-- **A greedy group** takes the longest front that the rest of the expression can complete. -/
theorem fullMatch_greedy_seq {lo : Nat} {hi : Option Nat} {p : α → Bool} {t : Regex α} {s : List α}
    {gs : List (Option (List α))} :
    (seq (group (many true lo hi p)) t).fullMatch s = some gs ↔
      ∃ front rest gs', s = front ++ rest ∧ (many true lo hi p).Matches front [] ∧ t.fullMatch rest = some gs' ∧
        gs = some front :: gs' ∧ ∀ front' rest', s = front' ++ rest' → (many true lo hi p).Matches front' [] →
          (t.fullMatch rest').isSome → front'.length ≤ front.length := by
  rw [fullMatch_seq, paths_group, paths_many, List.map_map, List.findSome?_map,
    findSome?_eq_some_iff_max (pairwise_lengths lo _)]
  simp only [mem_lengths_iff_matches, Function.comp_apply, Option.map_eq_some_iff, Option.isSome_map, List.cons_append,
    List.nil_append, List.length_drop]
  constructor
  · rintro ⟨n, ⟨hlen, hmatch⟩, ⟨gs', hgs', rfl⟩, hmax⟩
    refine ⟨s.take n, s.drop n, gs', (List.take_append_drop n s).symm, hmatch, hgs', ?_, ?_⟩
    · rw [Nat.sub_sub_self hlen]
    · rintro front' rest' rfl hmatch' hsome
      rw [List.length_take_of_le hlen]
      refine hmax front'.length ⟨by simp, ?_⟩ ?_
      · rwa [List.take_left]
      · rwa [List.drop_left]
  · rintro ⟨front, rest, gs', rfl, hmatch, hgs', rfl, hmax⟩
    refine ⟨front.length, ⟨by simp, ?_⟩, ⟨gs', ?_, ?_⟩, ?_⟩
    · rwa [List.take_left]
    · rwa [List.drop_left]
    · rw [Nat.sub_sub_self (by simp), List.take_left]
    · rintro m ⟨hlen, hmatch'⟩ hsome
      have hle := hmax _ _ (List.take_append_drop m (front ++ rest)).symm hmatch' hsome
      rwa [List.length_take_of_le hlen] at hle

/-! ## Groups that may be left out -/

theorem length_of_matches {r : Regex α} {s : List α} {gs : List (Option (List α))} (h : r.Matches s gs) :
    gs.length = r.groups := by
  induction r generalizing s gs with
  | empty => rw [h.2]; rfl
  | one p => rw [h.2]; rfl
  | many greedy lo hi p => rw [h.2.2.2]; rfl
  | seq r t ihr iht =>
      obtain ⟨_, _, gs₁, gs₂, h₁, h₂, -, rfl⟩ := h
      rw [List.length_append, ihr h₁, iht h₂, groups]
  | alt r t ihr iht =>
      rcases h with ⟨gs₁, h₁, rfl⟩ | ⟨gs₂, h₂, rfl⟩
      · rw [List.length_append, ihr h₁, unmatched, List.length_replicate, groups]
      · rw [List.length_append, iht h₂, unmatched, List.length_replicate, groups]
  | opt r ih =>
      rcases h with h | ⟨-, rfl⟩
      · exact ih h
      · rw [unmatched, List.length_replicate, groups]
  | group r ih =>
      obtain ⟨gs', h', rfl⟩ := h
      rw [List.length_cons, ih h', groups]

/-- The group of an expression that does not stand for the empty text. -/
def taken (s : List α) : Option (List α) := if s.isEmpty then none else some s

theorem getD_taken (s : List α) : (taken s).getD [] = s := by
  cases s <;> rfl

theorem opt_group_matches_iff {r : Regex α} (hgroups : r.groups = 0) (hempty : ¬ r.Matches [] []) {s : List α}
    {gs : List (Option (List α))} :
    (opt (group r)).Matches s gs ↔ (s = [] ∨ r.Matches s []) ∧ gs = [taken s] := by
  constructor
  · rintro (⟨gs', h, rfl⟩ | ⟨rfl, rfl⟩)
    · obtain rfl : gs' = [] := List.length_eq_zero_iff.mp ((length_of_matches h).trans hgroups)
      have hne : s ≠ [] := fun hs => hempty (hs ▸ h)
      exact ⟨.inr h, by simp [taken, hne]⟩
    · exact ⟨.inl rfl, by rw [groups, hgroups]; rfl⟩
  · rintro ⟨rfl | h, rfl⟩
    · exact .inr ⟨rfl, by rw [groups, hgroups]; rfl⟩
    · have hne : s ≠ [] := fun hs => hempty (hs ▸ h)
      exact .inl ⟨[], h, by simp [taken, hne]⟩

/-! ## Words -/

section Words
variable {β : Type} [DecidableEq β] (fold : α → β)

/-- The characters of a word, told apart by `fold` only. -/
def word : List α → Regex α
  | [] => empty
  | c :: w => seq (one fun d => fold d = fold c) (word w)

/-- One of several words, the first of them first. -/
def oneOf (w : List α) : List (List α) → Regex α
  | [] => word fold w
  | w' :: ws => alt (word fold w) (oneOf w' ws)

theorem groups_word (w : List α) : (word fold w).groups = 0 := by
  induction w with
  | nil => rfl
  | cons c w ih => rw [word, groups, ih, groups]

theorem groups_oneOf (w : List α) (ws : List (List α)) : (oneOf fold w ws).groups = 0 := by
  induction ws generalizing w with
  | nil => exact groups_word fold w
  | cons w' ws ih => rw [oneOf, groups, groups_word, ih]

theorem word_matches_iff {w s : List α} {gs : List (Option (List α))} :
    (word fold w).Matches s gs ↔ s.map fold = w.map fold ∧ gs = [] := by
  induction w generalizing s gs with
  | nil => simp [word, matches_empty_iff]
  | cons c w ih =>
      constructor
      · rintro ⟨_, s₂, _, gs₂, ⟨⟨d, hd, rfl⟩, rfl⟩, hw, rfl, rfl⟩
        obtain ⟨hs₂, rfl⟩ := ih.mp hw
        exact ⟨by rw [List.cons_append, List.nil_append, List.map_cons, List.map_cons, of_decide_eq_true hd, hs₂], rfl⟩
      · rintro ⟨hs, rfl⟩
        cases s with
        | nil => cases hs
        | cons d s =>
            rw [List.map_cons, List.map_cons, List.cons.injEq] at hs
            exact ⟨[d], s, [], [], ⟨⟨d, decide_eq_true hs.1, rfl⟩, rfl⟩, ih.mpr ⟨hs.2, rfl⟩, rfl, rfl⟩

theorem oneOf_matches_iff {w s : List α} {ws : List (List α)} {gs : List (Option (List α))} :
    (oneOf fold w ws).Matches s gs ↔ (∃ v ∈ w :: ws, s.map fold = v.map fold) ∧ gs = [] := by
  induction ws generalizing w gs with
  | nil => simp [oneOf, word_matches_iff]
  | cons w' ws ih =>
      rw [oneOf, matches_alt_iff, groups_word, groups_oneOf, List.exists_mem_cons_iff]
      simp [-List.mem_cons, word_matches_iff, ih, unmatched, or_and_right]

end Words

end Regex

end Znode.Lib
