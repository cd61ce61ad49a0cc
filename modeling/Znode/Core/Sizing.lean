import Mathlib
import Znode.Core.Serializable

/-!
# Computed sizes

`serializedSize` runs the `serialization` of a class with `kComputeSize`. What it returns is compared with what
`kSerialize` appends, along the `serialization` of the class.

* `Adds c a n`, `Counts c a n` : a call that returns has appended `n` bytes; a call on a fresh stream accounts for
  `n` bytes. Either returns `a`;
* `Serializes c x y n`, `Measures c x y n` : the same for an object `x` that becomes `y`;
* `Sized F x y n` : both, for the two actions of one `serialization`;
* `SizedWhen F x P` : the size of an object that can be serialized is right exactly when `P` holds.

`Adds` and `Serializes` say nothing of calls that fail: `push_back` may go past `kMaxStreamSize`, so the appended
bytes need not fit.
-/

namespace Znode.Core
open Znode.Lib

variable {σ τ α β : Type}

/-- `Serializable::serialized_size`, with the object it leaves. -/
def serializedSize (F : Action → SerOf σ Unit) (x : σ) (stream : SDataStream) : Nat × σ :=
  match (F .kComputeSize).run (x, stream) with
  | .error _ ys => (0, ys.1)
  | .ok _ ys => (ys.2.computedSize, ys.1)

def SDataStream.Fresh (s : SDataStream) : Prop := s.buffer = [] ∧ s.readPosition = 0

/-! ## Calls on a stream -/

def Adds (c : Ser α) (a : α) (n : Nat) : Prop :=
  ∀ s b s', c.run s = .ok b s' → b = a ∧ s'.buffer.length = s.buffer.length + n

def Counts (c : Ser α) (a : α) (n : Nat) : Prop :=
  ∀ t : SDataStream, t.Fresh → ∃ t', c.run t = .ok a t' ∧ t'.Fresh ∧ t'.computedSize = t.computedSize + n

section Calls
variable {c : Ser α} {d : α → Ser β} {a : α} {b : β} {m n : Nat}

theorem Adds.pure (a : α) : Adds (Pure.pure a) a 0 := by
  rintro s b s' ⟨⟩
  exact ⟨rfl, rfl⟩

theorem Adds.bind (hc : Adds c a m) (hd : Adds (d a) b n) : Adds (c >>= d) b (m + n) := by
  intro s b' s' h
  obtain ⟨a', s1, hrun, hrest⟩ := bind_eq_ok h
  obtain ⟨rfl, h1⟩ := hc s a' s1 hrun
  obtain ⟨rfl, h2⟩ := hd s1 b' s' hrest
  exact ⟨rfl, by omega⟩

theorem Adds.map (hc : Adds c a n) (f : α → β) : Adds (c >>= fun a => Pure.pure (f a)) (f a) n :=
  hc.bind (d := fun a => Pure.pure (f a)) (Adds.pure (f a))

theorem Counts.pure (a : α) : Counts (Pure.pure a) a 0 := fun t ht => ⟨t, rfl, ht, rfl⟩

theorem Counts.bind (hc : Counts c a m) (hd : Counts (d a) b n) : Counts (c >>= d) b (m + n) := by
  intro t ht
  obtain ⟨t1, hrun, ht1, h1⟩ := hc t ht
  obtain ⟨t2, hrun', ht2, h2⟩ := hd t1 ht1
  refine ⟨t2, ?_, ht2, by omega⟩
  rw [EStateM.run_bind, hrun]
  exact hrun'

theorem Counts.map (hc : Counts c a n) (f : α → β) : Counts (c >>= fun a => Pure.pure (f a)) (f a) n :=
  hc.bind (d := fun a => Pure.pure (f a)) (Counts.pure (f a))

theorem Adds.guard {p : Prop} [Decidable p] (e : Error) (hc : Adds c a n) :
    Adds (if p then (do throw e; c) else c) a n := by
  split
  · rintro s b s' ⟨⟩
  · exact hc

theorem counts_addSize (n : Nat) : Counts (addSize n) () n := fun _ ht => ⟨_, rfl, ht, rfl⟩

theorem adds_write (data : Bytes) : Adds (write data) () data.length := by
  intro s b s' h
  rw [write_run] at h
  split_ifs at h
  cases h
  exact ⟨rfl, List.length_append⟩

theorem adds_pushBack (byte : UInt8) : Adds (pushBack byte) () 1 := by
  rintro s b s' ⟨⟩
  exact ⟨rfl, List.length_append⟩

theorem adds_writeCompact (v : Nat) : Adds (writeCompact v) () (serCompactSizeof v) := by
  have hlong : ∀ k, k ≤ 8 →
      Adds (pushBack (compactPrefix (k + 1)) >>= fun _ => write ((leBytes 8 v).take k)) () (k + 1) := by
    intro k hk
    have h := (adds_pushBack (compactPrefix (k + 1))).bind (d := fun _ => write _) (adds_write ((leBytes 8 v).take k))
    have hlen : 1 + ((leBytes 8 v).take k).length = k + 1 := by rw [take_leBytes hk, length_leBytes, Nat.add_comm]
    rwa [hlen] at h
  unfold writeCompact
  rcases serCompactSizeof_cases v with h | h | h | h
  · simpa [h] using adds_pushBack _
  · simpa [h] using hlong 2 (by decide)
  · simpa [h] using hlong 4 (by decide)
  · simpa [h] using hlong 8 (by decide)

end Calls

/-! ## Both actions of a `bind` -/

/-- Binding returns what was bound, and both actions agree on the size. -/
def SizedCall (f : Action → Ser α) (a : α) (n : Nat) : Prop := Adds (f .kSerialize) a n ∧ Counts (f .kComputeSize) a n

section Binds
variable {n : Nat}

theorem SizedCall.map {f : Action → Ser α} {a : α} (h : SizedCall f a n) (g : α → β) :
    SizedCall (fun action => f action >>= fun a => Pure.pure (g a)) (g a) n :=
  ⟨h.1.map g, h.2.map g⟩

theorem sized_bindUInt (n v : Nat) : SizedCall (fun action => bindUInt n action v) v n := by
  have hadds := (adds_write (leBytes n v)).map fun _ => v
  rw [length_leBytes] at hadds
  exact ⟨hadds, (counts_addSize n).map fun _ => v⟩

theorem sized_bindInt (n : Nat) (v : Int) : SizedCall (fun action => bindInt n action v) v n := by
  have hadds := (adds_write (leBytes n (v % 256 ^ n).toNat)).map fun _ => v
  rw [length_leBytes] at hadds
  exact ⟨hadds, (counts_addSize n).map fun _ => v⟩

theorem sized_bindBool (b : Bool) : SizedCall (fun action => bindBool action b) b 1 :=
  ⟨(adds_pushBack _).map fun _ => b, (counts_addSize 1).map fun _ => b⟩

theorem sized_bindOctets (o : Octets n) : SizedCall (fun action => bindOctets n action o) o n := by
  have hadds := (adds_write o.val).map fun _ => o
  rw [o.property] at hadds
  exact ⟨hadds, (counts_addSize n).map fun _ => o⟩

theorem sized_bindString (b : Bytes) :
    SizedCall (fun action => bindString action b) b (serCompactSizeof b.length + b.length) :=
  ⟨(adds_writeCompact b.length).bind ((adds_write b).map fun _ => b), (counts_addSize _).map fun _ => b⟩

end Binds

/-! ## Objects -/

def Serializes (c : SerOf σ Unit) (x y : σ) (n : Nat) : Prop :=
  ∀ s z s', c.run (x, s) = .ok () (z, s') → z = y ∧ s'.buffer.length = s.buffer.length + n

def Measures (c : SerOf σ Unit) (x y : σ) (n : Nat) : Prop :=
  ∀ t : SDataStream, t.Fresh → ∃ t', c.run (x, t) = .ok () (y, t') ∧ t'.Fresh ∧ t'.computedSize = t.computedSize + n

section Objects
variable {c : SerOf σ Unit} {d : Unit → SerOf σ Unit} {x y z : σ} {m n : Nat}

theorem Serializes.bind (hc : Serializes c x y m) (hd : Serializes (d ()) y z n) :
    Serializes (c >>= d) x z (m + n) := by
  intro s x' s' h
  obtain ⟨_, ⟨y', s1⟩, hrun, hrest⟩ := bind_eq_ok h
  obtain ⟨rfl, h1⟩ := hc s y' s1 hrun
  obtain ⟨rfl, h2⟩ := hd s1 x' s' hrest
  exact ⟨rfl, by omega⟩

theorem Measures.bind (hc : Measures c x y m) (hd : Measures (d ()) y z n) : Measures (c >>= d) x z (m + n) := by
  intro t ht
  obtain ⟨t1, hrun, ht1, h1⟩ := hc t ht
  obtain ⟨t2, hrun', ht2, h2⟩ := hd t1 ht1
  refine ⟨t2, ?_, ht2, by omega⟩
  rw [EStateM.run_bind, hrun]
  exact hrun'

theorem Serializes.pure (x : σ) : Serializes (Pure.pure ()) x x 0 := by
  rintro s z s' ⟨⟩
  exact ⟨rfl, rfl⟩

theorem Serializes.update (f : σ → σ) (x : σ) : Serializes (SerOf.update f) x (f x) 0 := by
  rintro s z s' ⟨⟩
  exact ⟨rfl, rfl⟩

theorem Measures.update (f : σ → σ) (x : σ) : Measures (SerOf.update f) x (f x) 0 := fun t ht => ⟨t, rfl, ht, rfl⟩

theorem Serializes.field {get : σ → α} (put : α → σ → σ) {bind : α → Ser α} {a : α} (h : Adds (bind (get x)) a n) :
    Serializes (SerOf.field get put bind) x (put a x) n := by
  intro s z s' hrun
  rw [SerOf.field_run] at hrun
  cases hbind : (bind (get x)).run s with
  | error e s1 => simp [hbind] at hrun
  | ok b s1 =>
      simp only [hbind] at hrun
      cases hrun
      obtain ⟨rfl, h1⟩ := h s b s' hbind
      exact ⟨rfl, h1⟩

theorem Measures.field {get : σ → α} (put : α → σ → σ) {bind : α → Ser α} {a : α} (h : Counts (bind (get x)) a n) :
    Measures (SerOf.field get put bind) x (put a x) n := by
  intro t ht
  obtain ⟨t', hrun, ht', hsize⟩ := h t ht
  exact ⟨t', by rw [SerOf.field_run, hrun], ht', hsize⟩

theorem Serializes.member {get : σ → τ} (put : τ → σ → σ) {bind : SerOf τ Unit} {a : τ}
    (h : Serializes bind (get x) a n) : Serializes (SerOf.member get put bind) x (put a x) n := by
  intro s z s' hrun
  rw [SerOf.member_run] at hrun
  cases hbind : bind.run (get x, s) with
  | error e ys => simp [hbind] at hrun
  | ok u ys =>
      simp only [hbind] at hrun
      cases hrun
      obtain ⟨rfl, h1⟩ := h s ys.1 ys.2 hbind
      exact ⟨rfl, h1⟩

theorem Measures.member {get : σ → τ} (put : τ → σ → σ) {bind : SerOf τ Unit} {a : τ}
    (h : Measures bind (get x) a n) : Measures (SerOf.member get put bind) x (put a x) n := by
  intro t ht
  obtain ⟨t', hrun, ht', hsize⟩ := h t ht
  exact ⟨t', by rw [SerOf.member_run, hrun], ht', hsize⟩

theorem Serializes.onStream {c : Ser α} {k : α → SerOf σ Unit} {a : α} (hc : Adds c a m) (hk : Serializes (k a) x y n) :
    Serializes (SerOf.onStream c >>= k) x y (m + n) := by
  intro s z s' h
  rw [EStateM.run_bind, SerOf.onStream_run] at h
  cases hrun : c.run s with
  | error e s1 => simp [hrun] at h
  | ok b s1 =>
      simp only [hrun] at h
      obtain ⟨rfl, h1⟩ := hc s b s1 hrun
      obtain ⟨rfl, h2⟩ := hk s1 z s' h
      exact ⟨rfl, by omega⟩

theorem Measures.onStream {c : Ser α} {k : α → SerOf σ Unit} {a : α} (hc : Counts c a m) (hk : Measures (k a) x y n) :
    Measures (SerOf.onStream c >>= k) x y (m + n) := by
  intro t ht
  obtain ⟨t1, hrun, ht1, h1⟩ := hc t ht
  obtain ⟨t2, hrun', ht2, h2⟩ := hk t1 ht1
  refine ⟨t2, ?_, ht2, by omega⟩
  rw [EStateM.run_bind, SerOf.onStream_run, hrun]
  exact hrun'

theorem Serializes.guard {p : Prop} [Decidable p] (e : Error) (hc : Serializes c x y n) :
    Serializes (if p then (do throw e; c) else c) x y n := by
  split
  · rintro s z s' ⟨⟩
  · exact hc

theorem Measures.guard {p : Prop} [Decidable p] (e : Error) (hp : ¬ p) (hc : Measures c x y n) :
    Measures (if p then (do throw e; c) else c) x y n := by
  rwa [if_neg hp]

theorem Measures.skip {p : Prop} [Decidable p] (hp : ¬ p) : Measures (if p then c else Pure.pure ()) x x 0 := by
  rw [if_neg hp]
  exact fun t ht => ⟨t, rfl, ht, rfl⟩

/-- Every element of a vector, all of them of one size. -/
theorem Serializes.each {bind : SerOf τ Unit} {f : τ → τ} (h : ∀ x, Serializes bind x (f x) n) (l : List τ) :
    Serializes (SerOf.each bind) l (l.map f) (l.length * n) := by
  induction l with
  | nil =>
      rintro s z s' ⟨⟩
      exact ⟨rfl, by simp⟩
  | cons x l ih =>
      intro s z s' hrun
      rw [SerOf.each_run_cons] at hrun
      cases hx : bind.run (x, s) with
      | error e ys => simp [hx] at hrun
      | ok u ys =>
          simp only [hx] at hrun
          obtain ⟨hy, h1⟩ := h x s ys.1 ys.2 hx
          cases hl : (SerOf.each bind).run (l, ys.2) with
          | error e zs => simp [hl] at hrun
          | ok v zs =>
              simp only [hl] at hrun
              cases hrun
              obtain ⟨hz, h2⟩ := ih ys.2 zs.1 zs.2 hl
              refine ⟨by rw [hy, hz, List.map_cons], ?_⟩
              rw [h2, h1, List.length_cons, Nat.succ_mul]
              omega

theorem Serializes.get {k : σ × SDataStream → SerOf σ Unit} (h : ∀ s, Serializes (k (x, s)) x y n) :
    Serializes (MonadState.get >>= k) x y n := fun s => h s s

theorem Measures.get {k : σ × SDataStream → SerOf σ Unit} (h : ∀ t, t.Fresh → Measures (k (x, t)) x y n) :
    Measures (MonadState.get >>= k) x y n := fun t ht => h t ht t ht

end Objects

/-! ## Both actions of a `serialization` -/

def Sized (F : Action → SerOf σ Unit) (x y : σ) (n : Nat) : Prop :=
  Serializes (F .kSerialize) x y n ∧ Measures (F .kComputeSize) x y n

namespace Sized
variable {F G : Action → SerOf σ Unit} {x y z : σ} {m n : Nat}

theorem bind (hF : Sized F x y m) (hG : Sized G y z n) :
    Sized (fun action => F action >>= fun _ => G action) x z (m + n) :=
  ⟨hF.1.bind hG.1, hF.2.bind hG.2⟩

theorem update (f : σ → σ) (x : σ) : Sized (fun _ => SerOf.update f) x (f x) 0 :=
  ⟨Serializes.update f x, Measures.update f x⟩

theorem field {get : σ → α} (put : α → σ → σ) {f : Action → α → Ser α} {a : α}
    (h : SizedCall (fun action => f action (get x)) a n) :
    Sized (fun action => SerOf.field get put (f action)) x (put a x) n :=
  ⟨Serializes.field put h.1, Measures.field put h.2⟩

theorem member {get : σ → τ} (put : τ → σ → σ) {F : Action → SerOf τ Unit} {a : τ} (h : Sized F (get x) a n) :
    Sized (fun action => SerOf.member get put (F action)) x (put a x) n :=
  ⟨Serializes.member put h.1, Measures.member put h.2⟩

end Sized

/-! ## The size against the bytes -/

/-- Once `x` was serialized into an empty stream, its size on a fresh stream is that of the bytes written, and
leaves `x` as it was, exactly when `P` holds. -/
def SizedWhen (F : Action → SerOf σ Unit) (x : σ) (P : Prop) : Prop :=
  ∀ s x' s' t, s.buffer = [] → (F .kSerialize).run (x, s) = .ok () (x', s') → t.Fresh → t.computedSize = 0 →
    (serializedSize F x t = (s'.buffer.length, x) ↔ P)

namespace SizedWhen
variable {F : Action → SerOf σ Unit} {x y z : σ} {m n : Nat} {P : Prop}

/-- Both actions return: the sizes are compared, and the object with the one left. -/
theorem of_measures (hwrite : Serializes (F .kSerialize) x y n) (hmeasure : Measures (F .kComputeSize) x z m) :
    SizedWhen F x (m = n ∧ z = x) := by
  intro s x' s' t hs hrun ht hzero
  obtain ⟨-, hlen⟩ := hwrite s x' s' hrun
  obtain ⟨t', hcompute, -, hsize⟩ := hmeasure t ht
  rw [hs, List.length_nil, Nat.zero_add] at hlen
  rw [hzero, Nat.zero_add] at hsize
  rw [serializedSize, hcompute, hlen]
  simp only [Prod.mk.injEq, hsize]

/-- Computing the size fails where bytes are written: the size is always wrong. -/
theorem of_error (hwrite : ∀ s z s', (F .kSerialize).run (x, s) = .ok () (z, s') → s.buffer.length < s'.buffer.length)
    (herror : ∀ t, t.Fresh → ∃ e ys, (F .kComputeSize).run (x, t) = .error e ys) : SizedWhen F x False := by
  intro s x' s' t hs hrun ht _
  obtain ⟨e, ys, hcompute⟩ := herror t ht
  have hlen := hwrite s x' s' hrun
  rw [serializedSize, hcompute, iff_false]
  intro h
  exact (Nat.zero_le _).trans_lt hlen |>.ne (congrArg Prod.fst h)

theorem congr {Q : Prop} (h : SizedWhen F x P) (hiff : P ↔ Q) : SizedWhen F x Q :=
  fun s x' s' t hs hrun ht hzero => (h s x' s' t hs hrun ht hzero).trans hiff

end SizedWhen

theorem Sized.sizedWhen {F : Action → SerOf σ Unit} {x y : σ} {n : Nat} (h : Sized F x y n) : SizedWhen F x (y = x) :=
  (SizedWhen.of_measures h.1 h.2).congr (and_iff_right rfl)

end Znode.Core
