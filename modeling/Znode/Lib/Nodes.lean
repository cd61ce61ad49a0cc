import Mathlib.Data.List.Nodup
import Mathlib.Data.List.Perm.Subperm

/-!
# Containers of nodes

A container whose elements live in nodes. A node keeps its identity when it is moved, and the identity of a node that is
gone is not used again; a handle of a node is its identity.

* `Nodes.get?` : the element of a node;
* `Nodes.pushFront`, `Nodes.pushBack` : a new node; `Nodes.erase`, `Nodes.popBack`, `Nodes.clear` : nodes go;
* `Nodes.toFront` : moves a node to the front.

When the elements are distinct, `erase` and `toFront` do to the elements what they do to the nodes.
-/

namespace Znode.Lib

/-- Nodes with their elements, in the order of the container, and the identity of the next node. -/
structure Nodes (α : Type) where
  nodes : List (Nat × α) := []
  next : Nat := 0
  fresh : ∀ x ∈ nodes, x.1 < next := by simp
  nodup : (nodes.map Prod.fst).Nodup := by simp

namespace Nodes
variable {α : Type} (c : Nodes α)

def values : List α := c.nodes.map Prod.snd

def get? (id : Nat) : Option α := (c.nodes.find? fun x => x.1 = id).map Prod.snd

theorem next_ne {x : Nat × α} (h : x ∈ c.nodes) : c.next ≠ x.1 := Nat.ne_of_gt (c.fresh x h)

def pushFront (a : α) : Nodes α where
  nodes := (c.next, a) :: c.nodes
  next := c.next + 1
  fresh := List.forall_mem_cons.mpr ⟨Nat.lt_succ_self _, fun x hx => Nat.lt_succ_of_lt (c.fresh x hx)⟩
  nodup := by
    refine List.nodup_cons.mpr ⟨fun h => ?_, c.nodup⟩
    obtain ⟨x, hx, heq⟩ := List.mem_map.mp h
    exact c.next_ne hx heq.symm

def pushBack (a : α) : Nodes α where
  nodes := c.nodes ++ [(c.next, a)]
  next := c.next + 1
  fresh := by
    intro x hx
    rcases List.mem_append.mp hx with hx | hx
    · exact Nat.lt_succ_of_lt (c.fresh x hx)
    · rw [List.mem_singleton.mp hx]
      exact Nat.lt_succ_self _
  nodup := by
    rw [List.map_append, List.nodup_append]
    refine ⟨c.nodup, List.nodup_singleton _, ?_⟩
    intro i hi j hj
    obtain ⟨x, hx, rfl⟩ := List.mem_map.mp hi
    rw [List.mem_singleton.mp hj]
    exact (c.next_ne hx).symm

/-- Some of the nodes, in another order. -/
def part {l : List (Nat × α)} (h : l.Subperm c.nodes) : Nodes α where
  nodes := l
  next := c.next
  fresh := fun x hx => c.fresh x (h.subset hx)
  nodup := by
    obtain ⟨l', hperm, hsub⟩ := h
    exact (hperm.map Prod.fst).nodup_iff.mp (c.nodup.sublist (hsub.map _))

def erase (id : Nat) : Nodes α := c.part (l := c.nodes.filter fun x => x.1 ≠ id) List.filter_sublist.subperm

def popBack : Nodes α := c.part (List.dropLast_sublist c.nodes).subperm

def clear : Nodes α := c.part List.nil_subperm

/-- Moves a node to the front; there is nothing when it is not a node of the container. -/
def toFront (id : Nat) : Option (Nodes α) :=
  if id ∈ c.nodes.map Prod.fst then
    some (c.part (List.filter_append_perm (fun x => x.1 = id) c.nodes).subperm)
  else none

variable {c} {a : α} {id : Nat}

theorem get?_eq_some : c.get? id = some a ↔ (id, a) ∈ c.nodes := by
  unfold get?
  constructor
  · intro h
    obtain ⟨x, hfind, rfl⟩ := Option.map_eq_some_iff.mp h
    have hid : x.1 = id := by simpa using List.find?_some hfind
    rw [← hid]
    exact List.mem_of_find?_eq_some hfind
  · intro h
    cases hfind : c.nodes.find? fun x => x.1 = id with
    | none => exact absurd (List.find?_eq_none.mp hfind _ h) (by simp)
    | some x =>
        have hid : x.1 = id := by simpa using List.find?_some hfind
        have hx := List.inj_on_of_nodup_map c.nodup (List.mem_of_find?_eq_some hfind) h hid
        rw [hx]
        rfl

theorem filterMap_get? (c : Nodes α) : (c.nodes.map Prod.fst).filterMap c.get? = c.values := by
  rw [List.filterMap_map, values, ← List.filterMap_eq_map]
  exact List.filterMap_congr fun x hx => get?_eq_some.mpr hx

theorem split_of_mem (h : (id, a) ∈ c.nodes) : ∃ before after, c.nodes = before ++ (id, a) :: after ∧
    (∀ x ∈ before, x.1 ≠ id) ∧ ∀ x ∈ after, x.1 ≠ id := by
  obtain ⟨before, after, hsplit⟩ := List.append_of_mem h
  have hnodup := c.nodup
  rw [hsplit, List.map_append, List.map_cons, List.nodup_append, List.nodup_cons] at hnodup
  obtain ⟨-, ⟨hafter, -⟩, hbefore⟩ := hnodup
  refine ⟨before, after, hsplit, ?_, ?_⟩
  · intro x hx
    exact hbefore x.1 (List.mem_map_of_mem hx) id List.mem_cons_self
  · rintro x hx rfl
    exact hafter (List.mem_map.mpr ⟨x, hx, rfl⟩)

theorem nodes_erase {before after : List (Nat × α)} (hsplit : c.nodes = before ++ (id, a) :: after)
    (hbefore : ∀ x ∈ before, x.1 ≠ id) (hafter : ∀ x ∈ after, x.1 ≠ id) : (c.erase id).nodes = before ++ after := by
  change c.nodes.filter _ = _
  rw [hsplit, List.filter_append, List.filter_cons_of_neg (by simp), List.filter_eq_self.mpr (by simpa using hbefore),
    List.filter_eq_self.mpr (by simpa using hafter)]

theorem nodes_erase_head {rest : List (Nat × α)} (hnodes : c.nodes = (id, a) :: rest) : (c.erase id).nodes = rest := by
  have hnodup := c.nodup
  rw [hnodes, List.map_cons, List.nodup_cons] at hnodup
  rw [nodes_erase (hnodes.trans (List.nil_append _).symm) (by simp), List.nil_append]
  rintro x hx rfl
  exact hnodup.1 (List.mem_map.mpr ⟨x, hx, rfl⟩)

theorem values_erase [DecidableEq α] (hvalues : c.values.Nodup) (h : (id, a) ∈ c.nodes) :
    (c.erase id).values = c.values.erase a := by
  obtain ⟨before, after, hsplit, hbefore, hafter⟩ := split_of_mem h
  rw [values, hsplit, List.map_append, List.map_cons, List.nodup_append] at hvalues
  have hfirst : a ∉ before.map Prod.snd := fun hin => hvalues.2.2 a hin a List.mem_cons_self rfl
  rw [values, nodes_erase hsplit hbefore hafter, values, hsplit, List.map_append, List.map_append, List.map_cons,
    List.erase_append_right _ hfirst, List.erase_cons_head]

/-- A node that is moved to the front, with the elements afterwards. -/
theorem toFront_of_mem [DecidableEq α] (hvalues : c.values.Nodup) (h : (id, a) ∈ c.nodes) :
    ∃ c', c.toFront id = some c' ∧ (∀ x, x ∈ c'.nodes ↔ x ∈ c.nodes) ∧ c'.values = a :: c.values.erase a := by
  obtain ⟨before, after, hsplit, hbefore, hafter⟩ := split_of_mem h
  refine ⟨_, if_pos (List.mem_map_of_mem h), ?_, ?_⟩
  · intro x
    exact (List.filter_append_perm (fun x => x.1 = id) c.nodes).mem_iff
  · have hnode : (c.nodes.filter fun x => x.1 = id) = [(id, a)] := by
      rw [hsplit, List.filter_append, List.filter_cons_of_pos (by simp),
        List.filter_eq_nil_iff.mpr (by simpa using hbefore), List.filter_eq_nil_iff.mpr (by simpa using hafter),
        List.nil_append]
    have hrest : (c.nodes.filter fun x => !decide (x.1 = id)) = (c.erase id).nodes :=
      List.filter_congr fun x _ => (decide_not ..).symm
    change ((c.nodes.filter fun x => x.1 = id) ++ c.nodes.filter fun x => !decide (x.1 = id)).map Prod.snd = _
    rw [hnode, hrest, ← values_erase hvalues h]
    rfl

end Nodes

end Znode.Lib
