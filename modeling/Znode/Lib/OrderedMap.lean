import Mathlib.Order.Lattice

/-!
# Ordered maps

A map with ordered keys, as a store with a cursor shows it: the list of its entries in the order of the keys.

* `OrderedMap.upsert` : writes a value at a key; `OrderedMap.get` : the value at a key, also after it (`get_upsert`);
* `OrderedMap.upsertAll` : writes a list of entries, one after the other;
* `entries_upsertAll` : what is written in the order of the keys behind the last one is appended.
-/

namespace Znode.Lib

/-- The entries, in the order of the keys. -/
structure OrderedMap (κ ν : Type) [LinearOrder κ] where
  entries : List (κ × ν)
  sorted : entries.Pairwise fun x y => x.1 < y.1

namespace OrderedMap
variable {κ ν : Type} [LinearOrder κ]

instance : EmptyCollection (OrderedMap κ ν) := ⟨⟨[], List.Pairwise.nil⟩⟩

def place (k : κ) (v : ν) : List (κ × ν) → List (κ × ν)
  | [] => [(k, v)]
  | x :: l => if k < x.1 then (k, v) :: x :: l else if k = x.1 then (k, v) :: l else x :: place k v l

theorem mem_place {k : κ} {v : ν} {l : List (κ × ν)} {x : κ × ν} (h : x ∈ place k v l) : x = (k, v) ∨ x ∈ l := by
  induction l with
  | nil => exact Or.inl (List.mem_singleton.mp h)
  | cons y l ih =>
      unfold place at h
      split_ifs at h
      · exact List.mem_cons.mp h
      · exact (List.mem_cons.mp h).imp_right (List.mem_cons_of_mem y)
      · rcases List.mem_cons.mp h with rfl | h
        · exact Or.inr List.mem_cons_self
        · exact (ih h).imp_right (List.mem_cons_of_mem y)

theorem sorted_place (k : κ) (v : ν) {l : List (κ × ν)} (h : l.Pairwise fun x y => x.1 < y.1) :
    (place k v l).Pairwise fun x y => x.1 < y.1 := by
  induction l with
  | nil => exact List.pairwise_singleton _ _
  | cons x l ih =>
      obtain ⟨hx, hl⟩ := List.pairwise_cons.mp h
      unfold place
      split_ifs with hlt heq
      · refine List.pairwise_cons.mpr ⟨?_, h⟩
        rintro y hy
        rcases List.mem_cons.mp hy with rfl | hy
        · exact hlt
        · exact hlt.trans (hx y hy)
      · exact List.pairwise_cons.mpr ⟨fun y hy => heq ▸ hx y hy, hl⟩
      · refine List.pairwise_cons.mpr ⟨?_, ih hl⟩
        intro y hy
        rcases mem_place hy with rfl | hy
        · exact lt_of_le_of_ne (not_lt.mp hlt) (Ne.symm heq)
        · exact hx y hy

/-- Writes a value, over the one that is there. -/
def upsert (m : OrderedMap κ ν) (k : κ) (v : ν) : OrderedMap κ ν := ⟨place k v m.entries, sorted_place k v m.sorted⟩

def upsertAll (m : OrderedMap κ ν) (l : List (κ × ν)) : OrderedMap κ ν := l.foldl (fun m x => m.upsert x.1 x.2) m

theorem upsertAll_append (m : OrderedMap κ ν) (l l' : List (κ × ν)) :
    m.upsertAll (l ++ l') = (m.upsertAll l).upsertAll l' := List.foldl_append

theorem place_of_lt {k : κ} {v : ν} {l : List (κ × ν)} (h : ∀ x ∈ l, x.1 < k) : place k v l = l ++ [(k, v)] := by
  induction l with
  | nil => rfl
  | cons x l ih =>
      obtain ⟨hx, hl⟩ := List.forall_mem_cons.mp h
      rw [place, if_neg hx.asymm, if_neg hx.ne', ih hl, List.cons_append]

theorem entries_upsertAll (m : OrderedMap κ ν) {l : List (κ × ν)}
    (h : (m.entries ++ l).Pairwise fun x y => x.1 < y.1) : (m.upsertAll l).entries = m.entries ++ l := by
  induction l generalizing m with
  | nil => exact (List.append_nil _).symm
  | cons x l ih =>
      have hlast : ∀ y ∈ m.entries, y.1 < x.1 := fun y hy =>
        (List.pairwise_append.mp h).2.2 y hy x List.mem_cons_self
      have hentries : (m.upsert x.1 x.2).entries = m.entries ++ [x] := place_of_lt hlast
      have hnext := ih (m.upsert x.1 x.2) (by rwa [hentries, List.append_assoc])
      rwa [hentries, List.append_assoc] at hnext

/-! ## Lookups -/

/-- The value of the first entry with the key. -/
def lookup (k : κ) (l : List (κ × ν)) : Option ν := (l.find? fun x => x.1 = k).map Prod.snd

def get (m : OrderedMap κ ν) (k : κ) : Option ν := lookup k m.entries

@[simp] theorem get_empty (k : κ) : (∅ : OrderedMap κ ν).get k = none := rfl

theorem lookup_cons (k : κ) (x : κ × ν) (l : List (κ × ν)) :
    lookup k (x :: l) = if x.1 = k then some x.2 else lookup k l := by
  unfold lookup
  rw [List.find?_cons]
  split_ifs with h
  · simp [h]
  · simp [h]

theorem lookup_place (k k' : κ) (v : ν) (l : List (κ × ν)) :
    lookup k' (place k v l) = if k' = k then some v else lookup k' l := by
  induction l with
  | nil =>
      rw [place, lookup_cons]
      simp only [eq_comm]
  | cons x l ih =>
      unfold place
      by_cases hk : k' = k
      · subst hk
        rw [if_pos rfl] at ih ⊢
        split_ifs with hlt heq
        · rw [lookup_cons, if_pos rfl]
        · rw [lookup_cons, if_pos rfl]
        · rw [lookup_cons, if_neg (Ne.symm heq), ih]
      · rw [if_neg hk] at ih ⊢
        split_ifs with hlt heq
        · rw [lookup_cons, if_neg (Ne.symm hk)]
        · rw [lookup_cons, if_neg (Ne.symm hk), lookup_cons, if_neg (heq ▸ Ne.symm hk)]
        · rw [lookup_cons, lookup_cons, ih]

theorem get_upsert (m : OrderedMap κ ν) (k k' : κ) (v : ν) :
    (m.upsert k v).get k' = if k' = k then some v else m.get k' := lookup_place k k' v m.entries

end OrderedMap

end Znode.Lib
