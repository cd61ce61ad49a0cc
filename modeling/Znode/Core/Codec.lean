import Mathlib
import Znode.Core.Serializable

/-!
# Codecs

What serializing appends and what deserializing makes of the bytes at the cursor, as rules that are put together
along the `serialization` of a class.

* `Puts c a w`, `Gets c a w` : a call on a stream appends `w`, or finds `w` at the cursor, and returns `a`;
* `Emits c x y w` : serializing the object `x` appends `w` and makes `y` of it. `Writes c x w` : it stays as it is;
* `Reads c y x w` : deserializing `w` into the object `y` makes it `x`;
* `Refuses c y w` : deserializing `w` into the object `y` fails;
* `Takes c w` : whatever the object was before, deserializing `w` into it succeeds;
* `Appends c x w`, `Drains c y x w` : the same for a whole stream, where the version may change and the end counts;
* `Writes.roundTrip`, `Appends.roundTrip` : what was written into a stream is read back from it, to its end.
-/

namespace Znode.Core
open Znode.Lib

variable {σ τ α β : Type}

/-! ## Calls on a stream -/

def Puts (c : Ser α) (a : α) (w : Bytes) : Prop :=
  ∀ s : SDataStream, s.buffer.length + w.length ≤ kMaxStreamSize → c.run s = .ok a (s.append w)

/-- The bytes at the cursor begin with `w`. -/
def SDataStream.Ahead (s : SDataStream) (w : Bytes) : Prop :=
  s.readPosition ≤ s.buffer.length ∧ w <+: s.buffer.drop s.readPosition

def SDataStream.skip (s : SDataStream) (n : Nat) : SDataStream := s.atPos (s.readPosition + n)

def Gets (c : Ser α) (a : α) (w : Bytes) : Prop := ∀ s : SDataStream, s.Ahead w → c.run s = .ok a (s.skip w.length)

namespace SDataStream
variable {s : SDataStream} {w w' : Bytes}

theorem Ahead.le (h : s.Ahead w) : s.readPosition + w.length ≤ s.buffer.length := by
  have hlen := h.2.length_le
  have hpos := h.1
  rw [List.length_drop] at hlen
  omega

theorem Ahead.slice (h : s.Ahead w) : slice s.buffer s.readPosition w.length = w :=
  List.prefix_iff_eq_take.mp h.2 |>.symm

theorem Ahead.of_append (h : s.Ahead (w ++ w')) : s.Ahead w ∧ (s.skip w.length).Ahead w' := by
  refine ⟨⟨h.1, (List.prefix_append w w').trans h.2⟩, ?_, ?_⟩
  · have hle := h.le
    rw [List.length_append] at hle
    exact (Nat.add_le_add_left (Nat.le_add_right _ _) _).trans hle
  · obtain ⟨rest, hrest⟩ := h.2
    refine ⟨rest, ?_⟩
    change w' ++ rest = s.buffer.drop (s.readPosition + w.length)
    rw [← List.drop_drop, ← hrest, List.append_assoc, List.drop_left]

theorem length_append (s : SDataStream) (w : Bytes) : (s.append w).buffer.length = s.buffer.length + w.length :=
  List.length_append

theorem skip_skip (s : SDataStream) (m n : Nat) : (s.skip m).skip n = s.skip (m + n) := by
  simp [skip, atPos, Nat.add_assoc]

end SDataStream

section Calls
variable {c : Ser α} {d : α → Ser β} {a : α} {b : β} {w w' : Bytes}

theorem Puts.pure (a : α) : Puts (Pure.pure a) a [] := by
  intro s _
  rw [SDataStream.append_nil]
  rfl

theorem Puts.bind (hc : Puts c a w) (hd : Puts (d a) b w') : Puts (c >>= d) b (w ++ w') := by
  intro s hfit
  rw [List.length_append] at hfit
  rw [EStateM.run_bind, hc s (by omega)]
  simp only
  rw [hd _ (by rw [SDataStream.length_append]; omega), SDataStream.append_append]

theorem Gets.pure (a : α) : Gets (Pure.pure a) a [] := fun _ _ => rfl

theorem Gets.bind (hc : Gets c a w) (hd : Gets (d a) b w') : Gets (c >>= d) b (w ++ w') := by
  intro s hahead
  obtain ⟨h, h'⟩ := hahead.of_append
  rw [EStateM.run_bind, hc s h]
  simp only
  rw [hd _ h', SDataStream.skip_skip, List.length_append]

theorem Puts.map (hc : Puts c a w) (f : α → β) : Puts (c >>= fun a => Pure.pure (f a)) (f a) w := by
  simpa using Puts.bind (d := fun a => Pure.pure (f a)) hc (Puts.pure (f a))

theorem Gets.map (hc : Gets c a w) (f : α → β) : Gets (c >>= fun a => Pure.pure (f a)) (f a) w := by
  simpa using Gets.bind (d := fun a => Pure.pure (f a)) hc (Gets.pure (f a))

end Calls

section Primitives
variable {n : Nat} {w : Bytes}

theorem puts_write (data : Bytes) : Puts (write data) () data := fun _ hfit => write_run_of_le hfit

theorem puts_pushBack (byte : UInt8) : Puts (pushBack byte) () [byte] := fun _ _ => rfl

theorem gets_read (hw : w.length = n) : Gets (read (some n)) w w := by
  intro s h
  subst hw
  rw [read_run_of_le h.le, h.slice]
  rfl

theorem gets_readAs (hw : w.length = n) : Gets (readAs n) (leVal w) w := (gets_read hw).map leVal

theorem puts_bindUInt (n v : Nat) : Puts (bindUInt n .kSerialize v) v (leBytes n v) :=
  (puts_write (leBytes n v)).map fun _ => v

theorem gets_bindUInt (v : Nat) (hw : w.length = n) : Gets (bindUInt n .kDeserialize v) (leVal w) w := gets_readAs hw

theorem puts_bindInt (n : Nat) (v : Int) : Puts (bindInt n .kSerialize v) v (leBytes n (v % 256 ^ n).toNat) :=
  (puts_write _).map fun _ => v

theorem gets_bindInt (v : Int) (hw : w.length = n) :
    Gets (bindInt n .kDeserialize v) (Int.bmod (leVal w) (256 ^ n)) w :=
  (gets_readAs hw).map fun m => Int.bmod m (256 ^ n)

theorem puts_bindBool (b : Bool) : Puts (bindBool .kSerialize b) b [if b then 1 else 0] :=
  (puts_pushBack _).map fun _ => b

theorem gets_bindBool (b : Bool) (hw : w.length = 1) : Gets (bindBool .kDeserialize b) (leVal w == 1) w :=
  (gets_readAs hw).map fun m => m == 1

theorem puts_bindOctets (o : Octets n) : Puts (bindOctets n .kSerialize o) o o.val := (puts_write o.val).map fun _ => o

theorem gets_bindOctets (o : Octets n) (hw : w.length = n) :
    Gets (bindOctets n .kDeserialize o) (Octets.ofBytes n w) w :=
  (gets_read hw).map (Octets.ofBytes n)

theorem puts_writeCompact (v : Nat) : Puts (writeCompact v) () (compactBytes v) := by
  intro s hfit
  rw [length_compactBytes] at hfit
  rw [writeCompact_run, if_neg (fun h => absurd h.2 (not_lt.mpr hfit))]
  rfl

theorem gets_readCompact {v : Nat} (hv : v ≤ kMaxSerializedCompactSize) : Gets readCompact v (compactBytes v) := by
  intro s h
  obtain ⟨rest, hrest⟩ := h.2
  rw [length_compactBytes]
  refine (readCompact_ok_iff h.1).mpr ⟨fun _ => hv, ?_, ⟨rest, hrest.symm⟩, rfl⟩
  unfold kMaxSerializedCompactSize at hv
  omega

theorem puts_bindString (b : Bytes) : Puts (bindString .kSerialize b) b (compactBytes b.length ++ b) :=
  (puts_writeCompact b.length).bind ((puts_write b).map fun _ => b)

theorem gets_bindString (b : Bytes) {b' : Bytes} (hb' : b'.length ≤ kMaxSerializedCompactSize) :
    Gets (bindString .kDeserialize b) b' (compactBytes b'.length ++ b') :=
  (gets_readCompact hb').bind (gets_read rfl)

/-! The bytes of a value of the type are read as that value. -/

theorem gets_uint (v₀ : Nat) {v : Nat} (hv : v < 256 ^ n) : Gets (bindUInt n .kDeserialize v₀) v (leBytes n v) := by
  have h := gets_bindUInt v₀ (length_leBytes n v)
  rwa [leVal_leBytes hv] at h

theorem gets_int (v₀ : Int) {v : Int} (hlow : -256 ^ n ≤ 2 * v) (hhigh : 2 * v < 256 ^ n) :
    Gets (bindInt n .kDeserialize v₀) v (leBytes n (v % 256 ^ n).toNat) := by
  have hpos : (0 : Int) < 256 ^ n := by positivity
  have hmod := Int.emod_nonneg v hpos.ne'
  have hlt := Int.emod_lt_of_pos v hpos
  have hval : leVal (leBytes n (v % 256 ^ n).toNat) = (v % 256 ^ n).toNat := by
    apply leVal_leBytes
    zify
    rwa [Int.toNat_of_nonneg hmod]
  have h := gets_bindInt v₀ (length_leBytes n (v % 256 ^ n).toNat)
  rw [hval, Int.toNat_of_nonneg hmod] at h
  have hv : Int.bmod (v % 256 ^ n) (256 ^ n) = v := by
    rw [show (256 : Int) ^ n = ((256 ^ n : Nat) : Int) by norm_cast, Int.emod_bmod]
    apply Int.bmod_eq_of_le_mul_two
    · push_cast
      omega
    · push_cast
      omega
  rwa [hv] at h

theorem gets_bool (b₀ b : Bool) : Gets (bindBool .kDeserialize b₀) b [if b then 1 else 0] := by
  have h := gets_bindBool b₀ (w := [if b then 1 else 0]) rfl
  cases b <;> simpa [leVal] using h

theorem gets_octets (o₀ o : Octets n) : Gets (bindOctets n .kDeserialize o₀) o o.val := by
  simpa using gets_bindOctets o₀ o.property

end Primitives

/-! ## Objects -/

def Emits (c : SerOf σ Unit) (x y : σ) (w : Bytes) : Prop :=
  ∀ s : SDataStream, s.buffer.length + w.length ≤ kMaxStreamSize → c.run (x, s) = .ok () (y, s.append w)

def Writes (c : SerOf σ Unit) (x : σ) (w : Bytes) : Prop :=
  ∀ s : SDataStream, s.buffer.length + w.length ≤ kMaxStreamSize → c.run (x, s) = .ok () (x, s.append w)

def Reads (c : SerOf σ Unit) (y x : σ) (w : Bytes) : Prop :=
  ∀ s : SDataStream, s.Ahead w → c.run (y, s) = .ok () (x, s.skip w.length)

section Objects
variable {c : SerOf σ Unit} {d : Unit → SerOf σ Unit} {x y z : σ} {w w' : Bytes}

theorem Writes.emits (h : Writes c x w) : Emits c x x w := h

theorem Emits.bind (hc : Emits c x y w) (hd : Emits (d ()) y z w') : Emits (c >>= d) x z (w ++ w') := by
  intro s hfit
  rw [List.length_append] at hfit
  rw [EStateM.run_bind, hc s (by omega)]
  simp only
  rw [hd _ (by rw [SDataStream.length_append]; omega), SDataStream.append_append]

theorem Writes.bind (hc : Writes c x w) (hd : Writes (d ()) x w') : Writes (c >>= d) x (w ++ w') :=
  Emits.bind hc.emits hd.emits

theorem Reads.bind (hc : Reads c x y w) (hd : Reads (d ()) y z w') : Reads (c >>= d) x z (w ++ w') := by
  intro s hahead
  obtain ⟨h, h'⟩ := hahead.of_append
  rw [EStateM.run_bind, hc s h]
  simp only
  rw [hd _ h', SDataStream.skip_skip, List.length_append]

theorem Emits.update (f : σ → σ) (x : σ) : Emits (SerOf.update f) x (f x) [] := by
  intro s _
  rw [SerOf.update_run, SDataStream.append_nil]

theorem Writes.update {f : σ → σ} (hf : f x = x) : Writes (SerOf.update f) x [] := by
  have h := Emits.update f x
  rwa [hf] at h

theorem Reads.update (f : σ → σ) (y : σ) : Reads (SerOf.update f) y (f y) [] := fun _ _ => rfl

theorem Writes.field {get : σ → α} {put : α → σ → σ} {bind : α → Ser α} (h : Puts (bind (get x)) (get x) w)
    (hput : put (get x) x = x) : Writes (SerOf.field get put bind) x w := by
  intro s hfit
  rw [SerOf.field_run, h s hfit]
  simp only
  rw [hput]

theorem Reads.field {get : σ → α} (put : α → σ → σ) {bind : α → Ser α} {a : α} (h : Gets (bind (get y)) a w) :
    Reads (SerOf.field get put bind) y (put a y) w := by
  intro s hahead
  rw [SerOf.field_run, h s hahead]

theorem Emits.member {get : σ → τ} (put : τ → σ → σ) {bind : SerOf τ Unit} {b : τ} (h : Emits bind (get x) b w) :
    Emits (SerOf.member get put bind) x (put b x) w := by
  intro s hfit
  rw [SerOf.member_run, h s hfit]

theorem Writes.member {get : σ → τ} {put : τ → σ → σ} {bind : SerOf τ Unit} (h : Writes bind (get x) w)
    (hput : put (get x) x = x) : Writes (SerOf.member get put bind) x w := by
  have hemits := Emits.member put h.emits
  rwa [hput] at hemits

theorem Reads.member {get : σ → τ} (put : τ → σ → σ) {bind : SerOf τ Unit} {b : τ} (h : Reads bind (get y) b w) :
    Reads (SerOf.member get put bind) y (put b y) w := by
  intro s hahead
  rw [SerOf.member_run, h s hahead]

theorem Emits.onStream {c : Ser α} {k : α → SerOf σ Unit} {a : α} (hc : Puts c a w) (hk : Emits (k a) x y w') :
    Emits (SerOf.onStream c >>= k) x y (w ++ w') := by
  intro s hfit
  rw [List.length_append] at hfit
  rw [EStateM.run_bind, SerOf.onStream_run, hc s (by omega)]
  simp only
  rw [hk _ (by rw [SDataStream.length_append]; omega), SDataStream.append_append]

theorem Writes.onStream {c : Ser α} {k : α → SerOf σ Unit} {a : α} (hc : Puts c a w) (hk : Writes (k a) x w') :
    Writes (SerOf.onStream c >>= k) x (w ++ w') := Emits.onStream hc hk.emits

theorem Writes.pure (x : σ) : Writes (Pure.pure ()) x [] := by
  intro s _
  rw [SDataStream.append_nil]
  rfl

theorem Writes.guard {p : Prop} [Decidable p] (e : Error) (hp : ¬ p) (hc : Writes c x w) :
    Writes (if p then (do throw e; c) else c) x w := by
  rwa [if_neg hp]

theorem Emits.get {k : σ × SDataStream → SerOf σ Unit} (h : ∀ s, Emits (k (x, s)) x y w) :
    Emits (MonadState.get >>= k) x y w := fun s hfit => h s s hfit

theorem Writes.get {k : σ × SDataStream → SerOf σ Unit} (h : ∀ s, Writes (k (x, s)) x w) :
    Writes (MonadState.get >>= k) x w := Emits.get h

theorem Reads.onStream {c : Ser α} {k : α → SerOf σ Unit} {a : α} (hc : Gets c a w) (hk : Reads (k a) y z w') :
    Reads (SerOf.onStream c >>= k) y z (w ++ w') := by
  intro s hahead
  obtain ⟨h, h'⟩ := hahead.of_append
  rw [EStateM.run_bind, SerOf.onStream_run, hc s h]
  simp only
  rw [hk _ h', SDataStream.skip_skip, List.length_append]

theorem Reads.get {k : σ × SDataStream → SerOf σ Unit} (h : ∀ s, Reads (k (y, s)) y z w) :
    Reads (MonadState.get >>= k) y z w := fun s hahead => h s s hahead

theorem Emits.each {bind : SerOf τ Unit} {f : τ → τ} {encode : τ → Bytes} {l : List τ}
    (h : ∀ x ∈ l, Emits bind x (f x) (encode x)) : Emits (SerOf.each bind) l (l.map f) (l.flatMap encode) := by
  induction l with
  | nil =>
      intro s _
      rw [SerOf.each_run_nil, List.flatMap_nil, SDataStream.append_nil, List.map_nil]
  | cons x l ih =>
      intro s hfit
      rw [List.flatMap_cons, List.length_append] at hfit
      have hrest := ih (fun x hx => h x (List.mem_cons_of_mem _ hx)) (s.append (encode x))
        (by rw [SDataStream.length_append]; omega)
      rw [SerOf.each_run_cons, h x List.mem_cons_self s (by omega)]
      simp only
      rw [hrest]
      simp only
      rw [SDataStream.append_append, List.flatMap_cons, List.map_cons]

theorem Writes.each {bind : SerOf τ Unit} {encode : τ → Bytes} {l : List τ} (h : ∀ x ∈ l, Writes bind x (encode x)) :
    Writes (SerOf.each bind) l (l.flatMap encode) := by
  have hemits := Emits.each (f := id) h
  rwa [List.map_id] at hemits

theorem Reads.each_nil (bind : SerOf τ Unit) : Reads (SerOf.each bind) [] [] [] := fun _ _ => rfl

theorem Reads.each_cons {bind : SerOf τ Unit} {x y : τ} {l l' : List τ} (hx : Reads bind y x w)
    (hl : Reads (SerOf.each bind) l l' w') : Reads (SerOf.each bind) (y :: l) (x :: l') (w ++ w') := by
  intro s hahead
  obtain ⟨h, h'⟩ := hahead.of_append
  rw [SerOf.each_run_cons, hx s h]
  simp only
  rw [hl _ h', SDataStream.skip_skip, List.length_append]

/-- Every element is read over the one it replaces. -/
theorem Reads.each {bind : SerOf τ Unit} {l l' : List τ} {ws : List Bytes} (hlen : l.length = l'.length)
    (h : List.Forall₂ (fun x w => ∀ y, Reads bind y x w) l' ws) : Reads (SerOf.each bind) l l' ws.flatten := by
  induction h generalizing l with
  | nil =>
      rw [List.length_nil, List.length_eq_zero_iff] at hlen
      subst hlen
      exact Reads.each_nil bind
  | @cons x w l' ws hx _ ih =>
      cases l with
      | nil => cases hlen
      | cons y l => exact (hx y).each_cons (ih (Nat.succ.inj hlen))

/-! Bytes that are refused. -/

def Refuses (c : SerOf σ Unit) (y : σ) (w : Bytes) : Prop :=
  ∀ s : SDataStream, s.Ahead w → ∃ e x, c.run (y, s) = .error e x

theorem Refuses.bind_left (hc : Refuses c y w) : Refuses (c >>= d) y (w ++ w') := by
  intro s hahead
  obtain ⟨e, x, hrun⟩ := hc s hahead.of_append.1
  exact ⟨e, x, by rw [EStateM.run_bind, hrun]⟩

theorem Refuses.bind (hc : Reads c x y w) (hd : Refuses (d ()) y w') : Refuses (c >>= d) x (w ++ w') := by
  intro s hahead
  obtain ⟨h, h'⟩ := hahead.of_append
  obtain ⟨e, z, hrun⟩ := hd _ h'
  exact ⟨e, z, by rw [EStateM.run_bind, hc s h]; exact hrun⟩

/-- A string that is too long. -/
theorem Refuses.string {get : σ → Bytes} {put : Bytes → σ → σ} {b : Bytes}
    (hlong : kMaxSerializedCompactSize < b.length) (hlen : b.length < 256 ^ 4) :
    Refuses (SerOf.field get put (bindString .kDeserialize)) y (compactBytes b.length ++ b) := by
  intro s hahead
  obtain ⟨r, hr⟩ := hahead.2
  have hread := readCompact_run s hahead.1
  rw [← hr, List.append_assoc, parseCompact_of_gt hlong hlen] at hread
  obtain ⟨p, -, hread⟩ := hread
  refine ⟨.ser .kCompactSizeTooBig, (y, s.atPos p), ?_⟩
  rw [SerOf.field_run]
  simp only [bindString, EStateM.run_bind, hread]

end Objects

/-! ## Bytes that are read into any object -/

def Takes (c : SerOf σ Unit) (w : Bytes) : Prop := ∀ y, ∃ x, Reads c y x w

namespace Takes
variable {c : SerOf σ Unit} {d : Unit → SerOf σ Unit} {w w' : Bytes} {m n : Nat}

theorem bind (hc : Takes c w) (hd : Takes (d ()) w') : Takes (c >>= d) (w ++ w') := by
  intro y
  obtain ⟨x, hx⟩ := hc y
  obtain ⟨z, hz⟩ := hd x
  exact ⟨z, hx.bind hz⟩

/-- A sequence of two calls, each of which takes every byte string of its length. -/
theorem bind_of_length (hc : ∀ w, w.length = m → Takes c w) (hd : ∀ w, w.length = n → Takes (d ()) w)
    (hw : w.length = m + n) : Takes (c >>= d) w := by
  rw [← List.take_append_drop m w]
  refine bind (hc _ ?_) (hd _ ?_)
  · rw [List.length_take]
    omega
  · rw [List.length_drop]
    omega

theorem update (f : σ → σ) : Takes (SerOf.update f) [] := fun y => ⟨f y, Reads.update f y⟩

theorem field {get : σ → α} {put : α → σ → σ} {bind : α → Ser α} (h : ∀ a, ∃ b, Gets (bind a) b w) :
    Takes (SerOf.field get put bind) w := by
  intro y
  obtain ⟨b, hb⟩ := h (get y)
  exact ⟨put b y, Reads.field put hb⟩

theorem member {get : σ → τ} {put : τ → σ → σ} {bind : SerOf τ Unit} (h : Takes bind w) :
    Takes (SerOf.member get put bind) w := by
  intro y
  obtain ⟨b, hb⟩ := h (get y)
  exact ⟨put b y, Reads.member put hb⟩

theorem onStream {c : Ser α} {k : α → SerOf σ Unit} {a : α} (hc : Gets c a w) (hk : Takes (k a) w') :
    Takes (SerOf.onStream c >>= k) (w ++ w') := by
  intro y
  obtain ⟨z, hz⟩ := hk y
  exact ⟨z, Reads.onStream hc hz⟩

theorem get (h : Takes c w) : Takes (MonadState.get >>= fun _ => c) w := by
  intro y
  obtain ⟨x, hx⟩ := h y
  exact ⟨x, Reads.get fun _ => hx⟩

theorem each {bind : SerOf τ Unit} {ws : List Bytes} (h : ∀ w ∈ ws, Takes bind w) :
    ∀ {l : List τ}, l.length = ws.length → ∃ l', Reads (SerOf.each bind) l l' ws.flatten := by
  induction ws with
  | nil =>
      intro l hlen
      exact ⟨[], Reads.each hlen List.Forall₂.nil⟩
  | cons w ws ih =>
      intro l hlen
      cases l with
      | nil => cases hlen
      | cons y l =>
          obtain ⟨x, hx⟩ := h w List.mem_cons_self y
          obtain ⟨l', hl'⟩ := ih (fun w hw => h w (List.mem_cons_of_mem _ hw)) (Nat.succ.inj hlen)
          exact ⟨x :: l', hx.each_cons hl'⟩

end Takes

/-! ## Bytes up to the end of the stream -/

/-- Serializing `x` appends `w` and leaves the cursor; the version of the stream may change. -/
def Appends (c : SerOf σ Unit) (x : σ) (w : Bytes) : Prop :=
  ∀ s : SDataStream, s.buffer.length + w.length ≤ kMaxStreamSize →
    ∃ t, c.run (x, s) = .ok () (x, t) ∧ t.buffer = s.buffer ++ w ∧ t.readPosition = s.readPosition

/-- The bytes from the cursor to the end of the stream are `w`. -/
def SDataStream.Holds (s : SDataStream) (w : Bytes) : Prop :=
  s.readPosition ≤ s.buffer.length ∧ s.buffer.drop s.readPosition = w

/-- Deserializing a stream that holds `w` makes `x` of the object `y`, and ends at the end of the stream. -/
def Drains (c : SerOf σ Unit) (y x : σ) (w : Bytes) : Prop :=
  ∀ s : SDataStream, s.Holds w → ∃ t, c.run (y, s) = .ok () (x, t) ∧ t.eof

namespace SDataStream
variable {s : SDataStream} {w w' : Bytes}

theorem Holds.ahead (h : s.Holds (w ++ w')) : s.Ahead w ∧ (s.skip w.length).Holds w' := by
  have hahead : s.Ahead (w ++ w') := ⟨h.1, h.2 ▸ List.prefix_rfl⟩
  refine ⟨hahead.of_append.1, hahead.of_append.2.1, ?_⟩
  change s.buffer.drop (s.readPosition + w.length) = w'
  rw [← List.drop_drop, h.2, List.drop_left]

theorem Holds.avail (h : s.Holds w) : s.avail = w.length := by
  rw [avail_of_le h.1, ← List.length_drop, h.2]

theorem Holds.eof (h : s.Holds []) : s.eof := by
  rw [SDataStream.eof, decide_eq_true_eq]
  exact List.drop_eq_nil_iff.mp h.2

end SDataStream

section Ends
variable {c : SerOf σ Unit} {d : Unit → SerOf σ Unit} {x y z : σ} {w w' : Bytes}

theorem Writes.appends (h : Writes c x w) : Appends c x w := fun s hfit => ⟨_, h s hfit, rfl, rfl⟩

theorem Appends.bind (hc : Appends c x w) (hd : Appends (d ()) x w') : Appends (c >>= d) x (w ++ w') := by
  intro s hfit
  rw [List.length_append] at hfit
  obtain ⟨t, hrun, hbuffer, hpos⟩ := hc s (by omega)
  obtain ⟨u, hrun', hbuffer', hpos'⟩ := hd t (by rw [hbuffer, List.length_append]; omega)
  refine ⟨u, ?_, by rw [hbuffer', hbuffer, List.append_assoc], hpos'.trans hpos⟩
  rw [EStateM.run_bind, hrun]
  exact hrun'

theorem Reads.drains (h : Reads c y x w) : Drains c y x w := by
  intro s hs
  rw [← List.append_nil w] at hs
  obtain ⟨hahead, hrest⟩ := hs.ahead
  exact ⟨_, h s hahead, hrest.eof⟩

theorem Drains.pure (x : σ) : Drains (Pure.pure ()) x x [] := fun s hs => ⟨s, rfl, hs.eof⟩

theorem Drains.bind (hc : Reads c x y w) (hd : Drains (d ()) y z w') : Drains (c >>= d) x z (w ++ w') := by
  intro s hs
  obtain ⟨hahead, hrest⟩ := hs.ahead
  obtain ⟨t, hrun, heof⟩ := hd _ hrest
  refine ⟨t, ?_, heof⟩
  rw [EStateM.run_bind, hc s hahead]
  exact hrun

theorem Drains.onStream {c : Ser α} {k : α → SerOf σ Unit} {a : α} (hc : Gets c a w) (hk : Drains (k a) y z w') :
    Drains (SerOf.onStream c >>= k) y z (w ++ w') := by
  intro s hs
  obtain ⟨hahead, hrest⟩ := hs.ahead
  obtain ⟨t, hrun, heof⟩ := hk _ hrest
  refine ⟨t, ?_, heof⟩
  rw [EStateM.run_bind, SerOf.onStream_run, hc s hahead]
  exact hrun

theorem Drains.get {k : σ × SDataStream → SerOf σ Unit} (h : ∀ s : SDataStream, s.Holds w → Drains (k (y, s)) y z w) :
    Drains (MonadState.get >>= k) y z w := fun s hs => h s hs s hs

theorem Drains.guard {p : Prop} [Decidable p] (e : Error) (hp : ¬ p) (hc : Drains c y x w) :
    Drains (if p then (do throw e; c) else c) y x w := by
  rwa [if_neg hp]

theorem Appends.roundTrip {c d : SerOf σ Unit} (hc : Appends c x w) (hd : Drains d y z w)
    (hfit : w.length ≤ kMaxStreamSize) (s : SDataStream) (hempty : s.buffer = []) (hstart : s.readPosition = 0) :
    ∃ t u, c.run (x, s) = .ok () (x, t) ∧ d.run (y, t) = .ok () (z, u) ∧ u.eof := by
  obtain ⟨t, hwrite, hbuffer, hpos⟩ := hc s (by simpa [hempty] using hfit)
  rw [hempty, List.nil_append] at hbuffer
  rw [hstart] at hpos
  have hholds : t.Holds w := ⟨by rw [hpos]; exact Nat.zero_le _, by rw [hbuffer, hpos, List.drop_zero]⟩
  obtain ⟨u, hread, heof⟩ := hd t hholds
  exact ⟨t, u, hwrite, hread, heof⟩

end Ends

/-- **What was written into an empty stream is read back from it, to its end.** -/
theorem Writes.roundTrip {c d : SerOf σ Unit} {x y z : σ} {w : Bytes} (hc : Writes c x w) (hd : Reads d y z w)
    (hfit : w.length ≤ kMaxStreamSize) (s : SDataStream) (hempty : s.buffer = []) (hstart : s.readPosition = 0) :
    ∃ t u, c.run (x, s) = .ok () (x, t) ∧ d.run (y, t) = .ok () (z, u) ∧ u.eof :=
  hc.appends.roundTrip hd.drains hfit s hempty hstart

end Znode.Core
