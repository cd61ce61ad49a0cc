import Mathlib
import Znode.Core.Compact
import Znode.Lib.Respects

/-!
# Serializable objects

* `SerOf σ` : the `serialization` functions of a class `σ`, on the object and the stream. What was bound
  before a failure stays in the object, as in the source;
* `SerOf.field`, `SerOf.member`, `SerOf.each` : binding a plain field, a serializable member, and every
  element of a vector;
* `SerOf.lift` : an object is bound as a part of another one;
* `WriteStable`, `ReadStable` : the relations between streams that every serialization and every deserialization
  respects, `BindStable` what they share. Serializing only appends, and what it appends depends on the version of the
  stream alone (`writeStable_appendedTo`); deserializing does not depend on the version (`readStable_sameBytes`).
-/

namespace Znode.Core
open Znode.Lib

variable {σ τ α β : Type}

abbrev SerOf (σ : Type) := EStateM Error (σ × SDataStream)

namespace SerOf

def onStream (c : Ser α) : SerOf σ α := fun xs =>
  match c.run xs.2 with
  | .ok a s => .ok a (xs.1, s)
  | .error e s => .error e (xs.1, s)

def update (f : σ → σ) : SerOf σ Unit := fun xs => .ok () (f xs.1, xs.2)

/-- Binds a field, which is stored as soon as it was read. -/
def field (get : σ → α) (put : α → σ → σ) (bind : α → Ser α) : SerOf σ Unit := fun xs =>
  match (bind (get xs.1)).run xs.2 with
  | .ok a s => .ok () (put a xs.1, s)
  | .error e s => .error e (xs.1, s)

/-- Binds an object, and puts it back where it came from. -/
def lift (wrap : σ → τ) (x : σ) (bind : SerOf σ Unit) (s : SDataStream) : EStateM.Result Error (τ × SDataStream) Unit :=
  match bind.run (x, s) with
  | .ok _ ys => .ok () (wrap ys.1, ys.2)
  | .error e ys => .error e (wrap ys.1, ys.2)

def member (get : σ → τ) (put : τ → σ → σ) (bind : SerOf τ Unit) : SerOf σ Unit := fun xs =>
  lift (put · xs.1) (get xs.1) bind xs.2

/-- Binds the elements of a list one after the other, up to the first failure. -/
def eachFrom (bind : SerOf τ Unit) : List τ → SDataStream → EStateM.Result Error (List τ × SDataStream) Unit
  | [], s => .ok () ([], s)
  | x :: l, s =>
    match bind.run (x, s) with
    | .error e ys => .error e (ys.1 :: l, ys.2)
    | .ok _ ys =>
      match eachFrom bind l ys.2 with
      | .ok _ zs => .ok () (ys.1 :: zs.1, zs.2)
      | .error e zs => .error e (ys.1 :: zs.1, zs.2)

def each (bind : SerOf τ Unit) : SerOf (List τ) Unit := fun xs => eachFrom bind xs.1 xs.2

theorem update_run (f : σ → σ) (xs : σ × SDataStream) : (update f).run xs = .ok () (f xs.1, xs.2) := rfl

theorem onStream_run (c : Ser α) (xs : σ × SDataStream) : (onStream c).run xs =
    match c.run xs.2 with
    | .ok a s => .ok a (xs.1, s)
    | .error e s => .error e (xs.1, s) := rfl

theorem field_run (get : σ → α) (put : α → σ → σ) (bind : α → Ser α) (xs : σ × SDataStream) :
    (field get put bind).run xs =
      match (bind (get xs.1)).run xs.2 with
      | .ok a s => .ok () (put a xs.1, s)
      | .error e s => .error e (xs.1, s) := rfl

theorem lift_ok {wrap : σ → τ} {c : SerOf σ Unit} {x y : σ} {s t : SDataStream} (h : c.run (x, s) = .ok () (y, t)) :
    lift wrap x c s = .ok () (wrap y, t) := by
  rw [lift, h]

theorem run_of_lift {wrap : σ → τ} {c : SerOf σ Unit} {x : σ} {s : SDataStream} {u : Unit} {ys : τ × SDataStream}
    (h : lift wrap x c s = .ok u ys) : ∃ y, c.run (x, s) = .ok () (y, ys.2) ∧ ys.1 = wrap y := by
  unfold lift at h
  cases hrun : c.run (x, s) with
  | error e zs =>
      rw [hrun] at h
      cases h
  | ok a zs =>
      rw [hrun] at h
      cases h
      exact ⟨zs.1, rfl, rfl⟩

theorem member_run (get : σ → τ) (put : τ → σ → σ) (bind : SerOf τ Unit) (xs : σ × SDataStream) :
    (member get put bind).run xs =
      match bind.run (get xs.1, xs.2) with
      | .ok _ ys => .ok () (put ys.1 xs.1, ys.2)
      | .error e ys => .error e (put ys.1 xs.1, ys.2) := rfl

theorem each_run_nil (bind : SerOf τ Unit) (s : SDataStream) : (each bind).run ([], s) = .ok () ([], s) := rfl

theorem each_run_cons (bind : SerOf τ Unit) (x : τ) (l : List τ) (s : SDataStream) :
    (each bind).run (x :: l, s) =
      match bind.run (x, s) with
      | .error e ys => .error e (ys.1 :: l, ys.2)
      | .ok _ ys =>
        match (each bind).run (l, ys.2) with
        | .ok _ zs => .ok () (ys.1 :: zs.1, zs.2)
        | .error e zs => .error e (ys.1 :: zs.1, zs.2) := rfl

end SerOf

/-! ## Serializing appends -/

def SDataStream.append (s : SDataStream) (w : Bytes) : SDataStream := { s with buffer := s.buffer ++ w }

theorem SDataStream.append_append (s : SDataStream) (w w' : Bytes) :
    (s.append w).append w' = s.append (w ++ w') := by
  simp [append]

theorem SDataStream.append_nil (s : SDataStream) : s.append [] = s := by
  simp [append]

theorem write_run_of_le {data : Bytes} {s : SDataStream} (h : s.buffer.length + data.length ≤ kMaxStreamSize) :
    (write data).run s = .ok () (s.append data) := by
  rw [write_run, if_neg (Nat.not_lt.mpr h)]
  rfl

theorem bindOctets_run_write {n : Nat} {s : SDataStream} (o : Octets n)
    (h : s.buffer.length + n ≤ kMaxStreamSize) :
    (bindOctets n .kSerialize o).run s = .ok o (s.append o.val) := by
  have hfit : s.buffer.length + o.val.length ≤ kMaxStreamSize := by rw [o.property]; exact h
  simp [bindOctets, write_run_of_le hfit]

theorem bindUInt_run_write {n : Nat} {s : SDataStream} (v : Nat) (h : s.buffer.length + n ≤ kMaxStreamSize) :
    (bindUInt n .kSerialize v).run s = .ok v (s.append (leBytes n v)) := by
  have hfit : s.buffer.length + (leBytes n v).length ≤ kMaxStreamSize := by simpa using h
  simp [bindUInt, writeData, write_run_of_le hfit]

theorem bindOctets_run_read {n : Nat} {s : SDataStream} (o : Octets n)
    (h : s.readPosition + n ≤ s.buffer.length) : (bindOctets n .kDeserialize o).run s =
      .ok (Octets.ofBytes n (slice s.buffer s.readPosition n)) (s.atPos (s.readPosition + n)) := by
  simp [bindOctets, read_run_of_le h, SDataStream.atPos]

theorem bindUInt_run_read {n : Nat} {s : SDataStream} (v : Nat)
    (h : s.readPosition + n ≤ s.buffer.length) : (bindUInt n .kDeserialize v).run s =
      .ok (leVal (slice s.buffer s.readPosition n)) (s.atPos (s.readPosition + n)) := by
  simp [bindUInt, readAs_run_of_le h, SDataStream.atPos]

/-! ## Calls on related streams -/

/-- What writing may look at and do to a stream, kept by a relation between streams. -/
structure WriteStable (R : SDataStream → SDataStream → Prop) : Prop where
  write : ∀ data, Respects R (write data)
  pushBack : ∀ byte, Respects R (pushBack byte)
  version : ∀ {s t}, R s t → s.version = t.version

/-- What reading may look at and do to a stream, kept by a relation between streams. -/
structure ReadStable (R : SDataStream → SDataStream → Prop) : Prop where
  read : ∀ n, Respects R (read (some n))
  avail : ∀ {s t}, R s t → s.avail = t.avail

/-- A relation that the binding of the elementary types keeps, for one action. -/
structure BindStable (action : Action) (R : SDataStream → SDataStream → Prop) : Prop where
  moves : action ≠ .kComputeSize
  bindUInt : ∀ n v, Respects R (bindUInt n action v)
  bindInt : ∀ n v, Respects R (bindInt n action v)
  bindBool : ∀ b, Respects R (bindBool action b)
  bindOctets : ∀ {n : Nat} (o : Octets n), Respects R (bindOctets n action o)
  bindString : ∀ s, Respects R (bindString action s)

section Streams
variable {R : SDataStream → SDataStream → Prop}

namespace WriteStable

theorem writeCompact (h : WriteStable R) (obj : Nat) : Respects R (writeCompact obj) := by
  unfold Core.writeCompact
  dsimp only
  exact Respects.ite (h.pushBack _) ((h.pushBack _).bind fun _ => h.write _)

theorem bindStable (h : WriteStable R) : BindStable .kSerialize R where
  moves := by decide
  bindUInt _ v := (h.write _).bind fun _ => Respects.pure v
  bindInt _ v := (h.write _).bind fun _ => Respects.pure v
  bindBool b := (h.pushBack _).bind fun _ => Respects.pure b
  bindOctets o := (h.write _).bind fun _ => Respects.pure o
  bindString s := (h.writeCompact _).bind fun _ => (h.write _).bind fun _ => Respects.pure s

end WriteStable

namespace ReadStable

theorem readAs (h : ReadStable R) (n : Nat) : Respects R (readAs n) :=
  (h.read n).bind fun _ => Respects.pure _

theorem readCompact (h : ReadStable R) (rangeCheck : Bool) : Respects R (readCompact rangeCheck) := by
  have hcanonical : ∀ width floor, Respects R (readCanonical width floor) := fun width floor =>
    (h.readAs width).bind fun _ => Respects.guard _ (Respects.pure _)
  have hrange : ∀ ret, Respects R (checkRange rangeCheck ret) := fun ret => Respects.guard _ (Respects.pure _)
  rw [readCompact_eq]
  refine (h.readAs 1).bind fun tag => Respects.ite (hrange tag) (Respects.ite ?_ (Respects.ite ?_ ?_))
  all_goals exact (hcanonical _ _).bind hrange

theorem bindStable (h : ReadStable R) : BindStable .kDeserialize R where
  moves := by decide
  bindUInt n _ := h.readAs n
  bindInt n _ := (h.readAs n).bind fun _ => Respects.pure _
  bindBool _ := (h.readAs 1).bind fun _ => Respects.pure _
  bindOctets {n} _ := (h.read n).bind fun _ => Respects.pure _
  bindString _ := (h.readCompact _).bind fun n => h.read n

end ReadStable

/-- Related streams beside the same object. -/
def Along (σ : Type) (R : SDataStream → SDataStream → Prop) (x y : σ × SDataStream) : Prop :=
  x.1 = y.1 ∧ R x.2 y.2

theorem respects_onStream {c : Ser α} (hc : Respects R c) :
    Respects (Along σ R) (SerOf.onStream c : SerOf σ α) := by
  rintro ⟨x, s⟩ ⟨y, t⟩ a xs' ⟨rfl, hR⟩ h
  rw [SerOf.onStream_run] at h
  cases hrun : c.run s with
  | error e s1 => simp [hrun] at h
  | ok b s1 =>
      simp only [hrun] at h
      cases h
      obtain ⟨t', ht, hR'⟩ := hc s t a s1 hR hrun
      exact ⟨(x, t'), by rw [SerOf.onStream_run, ht], rfl, hR'⟩

theorem respects_update (f : σ → σ) : Respects (Along σ R) (SerOf.update f) := by
  rintro ⟨x, s⟩ ⟨y, t⟩ u xs' ⟨rfl, hR⟩ ⟨⟩
  exact ⟨(f x, t), rfl, rfl, hR⟩

theorem respects_field {get : σ → α} {put : α → σ → σ} {b : α → Ser α} (hb : ∀ a, Respects R (b a)) :
    Respects (Along σ R) (SerOf.field get put b) := by
  rintro ⟨x, s⟩ ⟨y, t⟩ u xs' ⟨rfl, hR⟩ h
  rw [SerOf.field_run] at h
  cases hrun : (b (get x)).run s with
  | error e s1 => simp [hrun] at h
  | ok a s1 =>
      simp only [hrun] at h
      cases h
      obtain ⟨t', ht, hR'⟩ := hb (get x) s t a s1 hR hrun
      exact ⟨(put a x, t'), by rw [SerOf.field_run, ht], rfl, hR'⟩

theorem respects_lift (wrap : σ → τ) {c : SerOf σ Unit} (hc : Respects (Along σ R) c) (x : σ) {s t : SDataStream}
    {u : Unit} {ps : τ × SDataStream} (hR : R s t) (h : SerOf.lift wrap x c s = .ok u ps) :
    ∃ pt, SerOf.lift wrap x c t = .ok u pt ∧ Along τ R ps pt := by
  obtain ⟨y, hrun, hy⟩ := SerOf.run_of_lift h
  obtain ⟨⟨y', t'⟩, ht, rfl, hR'⟩ := hc (x, s) (x, t) () (y, ps.2) ⟨rfl, hR⟩ hrun
  exact ⟨(wrap y, t'), SerOf.lift_ok ht, hy, hR'⟩

theorem respects_member {get : σ → τ} {put : τ → σ → σ} {c : SerOf τ Unit} (hc : Respects (Along τ R) c) :
    Respects (Along σ R) (SerOf.member get put c) := by
  rintro ⟨x, s⟩ ⟨y, t⟩ u xs' ⟨rfl, hR⟩ h
  exact respects_lift (put · x) hc (get x) hR h

theorem respects_each {c : SerOf τ Unit} (hc : Respects (Along τ R) c) :
    Respects (Along (List τ) R) (SerOf.each c) := by
  rintro ⟨l, s⟩
  induction l generalizing s with
  | nil =>
      rintro ⟨l', t⟩ u xs' ⟨rfl, hR⟩ ⟨⟩
      exact ⟨([], t), rfl, rfl, hR⟩
  | cons x l ih =>
      rintro ⟨l', t⟩ u xs' ⟨rfl, hR⟩ h
      rw [SerOf.each_run_cons] at h
      cases hx : c.run (x, s) with
      | error e ys => simp [hx] at h
      | ok a ys =>
          simp only [hx] at h
          obtain ⟨⟨y', t1⟩, ht1, rfl, hR1⟩ := hc (x, s) (x, t) a ys ⟨rfl, hR⟩ hx
          cases hl : (SerOf.each c).run (l, ys.2) with
          | error e zs => simp [hl] at h
          | ok b zs =>
              simp only [hl] at h
              cases h
              obtain ⟨⟨l1, t2⟩, ht2, rfl, hR2⟩ := ih ys.2 (l, t1) b zs ⟨rfl, hR1⟩ hl
              exact ⟨(ys.1 :: zs.1, t2), by rw [SerOf.each_run_cons, ht1]; simp only [ht2], rfl, hR2⟩

end Streams

/-! ## Two relations -/

/-- `s` and `t` come from `s₀` and `t₀` by appending the same bytes. -/
def AppendedTo (s₀ t₀ s t : SDataStream) : Prop := ∃ w, s = s₀.append w ∧ t = t₀.append w

/-- What is written depends on the version of the stream alone, as long as the stream has room for it. -/
theorem writeStable_appendedTo {s₀ t₀ : SDataStream} (hv : s₀.version = t₀.version)
    (hlen : t₀.buffer.length ≤ s₀.buffer.length) : WriteStable (AppendedTo s₀ t₀) where
  write data := by
    rintro s t a s' ⟨w, rfl, rfl⟩ h
    rw [write_run] at h
    split_ifs at h with hfit
    cases h
    refine ⟨(t₀.append w).append data, write_run_of_le ?_, w ++ data, ?_, ?_⟩
    · simp only [SDataStream.append, List.length_append] at hfit ⊢
      omega
    · exact s₀.append_append w data
    · exact t₀.append_append w data
  pushBack byte := by
    rintro s t a s' ⟨w, rfl, rfl⟩ ⟨⟩
    exact ⟨(t₀.append w).append [byte], rfl, w ++ [byte], s₀.append_append w [byte], t₀.append_append w [byte]⟩
  version := by
    rintro s t ⟨w, rfl, rfl⟩
    exact hv

/-- The streams hold the bytes `B` and differ in their version at most. -/
def SameBytes (B : Bytes) (s t : SDataStream) : Prop := s.buffer = B ∧ ∃ v, t = { s with version := v }

/-- Nothing that is read depends on the version of the stream, and the bytes stay. -/
theorem readStable_sameBytes (B : Bytes) : ReadStable (SameBytes B) where
  read n := by
    rintro s t a s' ⟨hB, v, rfl⟩ h
    rw [read_run] at h
    split_ifs at h with hfit
    cases h
    exact ⟨_, by rw [read_run]; exact if_neg hfit, hB, v, rfl⟩
  avail := by
    rintro s t ⟨-, v, rfl⟩
    rfl

end Znode.Core
