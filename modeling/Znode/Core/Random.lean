import Mathlib
import Znode.Lib.System

/-!
# Random bits and random intervals

`randbits` keeps the rest of a 64-bit word for its next calls. The generator is a sequence of words, `generator i` the
`i`-th that is drawn.

* `BitBuffer.randbits` : one call, with the word that is drawn if the call draws one;
* `Draws` : a run of calls. Beside the buffer of the code it records which word is in the buffer, how many of its bits
  were returned, and for each call of at most 32 bits the bits it returned;
* `Draws.Tracked` : what holds in every run. The bits a call returns stand at the recorded positions of the recorded
  word, as if the word went on with zeros, and no position is returned twice;
* `Draws.Right` : the size of the buffer is the number of bits that are left in it, and every bit that was returned is a
  bit of its word;
* `randbits_right_iff` : the runs all of whose states are right. The size after a refill is computed from the word
  itself and not from its width.

`randomizeAround` draws from a band around a value.

* `randomizeAround_eq` : the clamp of the percentage is the wrong way round, so the band is always the whole of
  `[0, 2 * val]`;
* `jitter_in_band_iff` : the percentages for which the draws stay in their band.
-/

namespace Znode.Core
open Znode.Lib

/-- The static variables of `randbits`. -/
structure BitBuffer where
  bitBuffer : UInt64 := 0
  bitBufferSize : UInt8 := 0
deriving DecidableEq, Repr

namespace BitBuffer

/-- The refill: `bit_buffer_size = static_cast<uint8_t>(bit_buffer * size_t(CHAR_BIT))`. -/
def fill (word : UInt64) : BitBuffer := { bitBuffer := word, bitBufferSize := (word * 8).toUInt8 }

/-- The low bits of the buffer are returned and shifted out. -/
def takeBits (s : BitBuffer) (bits : UInt8) : UInt64 × BitBuffer :=
  let ret := s.bitBuffer &&& (0xFFFFFFFFFFFFFFFF >>> (64 - bits).toUInt64)
  (ret, { bitBuffer := s.bitBuffer >>> bits.toUInt64, bitBufferSize := s.bitBufferSize - bits })

/-- `randbits`; `word` is what `randomize<uint64_t>()` gives if it is called. -/
def randbits (s : BitBuffer) (bits : UInt8) (word : UInt64) : UInt64 × BitBuffer :=
  if bits = 0 then (0, s)
  else
    let bits := if bits < 63 then bits else 63
    if bits > 32 then (word >>> (64 - bits).toUInt64, s)
    else (if s.bitBufferSize < bits then fill word else s).takeBits bits

theorem size_fill (word : UInt64) : (fill word).bitBufferSize.toNat = word.toNat * 8 % 256 := by
  simp [fill]

section takeBits
variable (s : BitBuffer) {bits : UInt8} (hpos : 0 < bits.toNat) (hle : bits.toNat ≤ 32)

include hpos hle in
theorem takeBits_fst : (s.takeBits bits).1.toNat = s.bitBuffer.toNat % 2 ^ bits.toNat := by
  have hshift : (64 - bits).toUInt64.toNat = 64 - bits.toNat :=
    UInt8.toNat_sub_of_le 64 bits (UInt8.le_iff_toNat_le.mpr (hle.trans (by decide)))
  have hmask : (0xFFFFFFFFFFFFFFFF : UInt64).toNat >>> ((64 - bits.toNat) % 64) = 2 ^ bits.toNat - 1 := by
    generalize bits.toNat = n at hpos hle ⊢
    interval_cases n <;> rfl
  rw [takeBits, UInt64.toNat_and, UInt64.toNat_shiftRight, hshift, hmask, Nat.and_two_pow_sub_one_eq_mod]

include hle in
theorem takeBits_bitBuffer : (s.takeBits bits).2.bitBuffer.toNat = s.bitBuffer.toNat >>> bits.toNat := by
  rw [takeBits, UInt64.toNat_shiftRight, UInt8.toNat_toUInt64, Nat.mod_eq_of_lt (by omega)]

theorem takeBits_bitBufferSize :
    (s.takeBits bits).2.bitBufferSize.toNat = (256 - bits.toNat + s.bitBufferSize.toNat) % 256 :=
  UInt8.toNat_sub _ _

end takeBits

theorem randbits_short (s : BitBuffer) {bits : UInt8} (hpos : 0 < bits.toNat) (hle : bits.toNat ≤ 32) (word : UInt64) :
    s.randbits bits word = (if s.bitBufferSize < bits then fill word else s).takeBits bits := by
  have hne : bits ≠ 0 := fun h => absurd hpos (by rw [h]; decide)
  have hlt : bits < 63 := UInt8.lt_iff_toNat_lt.mpr (hle.trans_lt (by decide))
  have hshort : ¬ bits > 32 := fun h => absurd (UInt8.lt_iff_toNat_lt.mp h) (Nat.not_lt.mpr hle)
  simp only [randbits, if_neg hne, if_pos hlt, if_neg hshort]

theorem randbits_long (s : BitBuffer) {bits : UInt8} (hlong : 32 < bits.toNat) (word : UInt64) :
    (s.randbits bits word).2 = s := by
  have hne : bits ≠ 0 := fun h => absurd hlong (by rw [h]; decide)
  have hcut : (if bits < 63 then bits else 63) > 32 := by
    split_ifs
    · exact UInt8.lt_iff_toNat_lt.mpr hlong
    · decide
  simp only [randbits, if_neg hne, if_pos hcut]

end BitBuffer

/-- What a call returned: `count` bits of a word, from position `first` on. -/
structure Return where
  value : UInt64
  word : Nat
  first : Nat
  count : Nat
deriving DecidableEq, Repr

/-- The bits, as the index of a word and a position in it. -/
def Return.positions (r : Return) : List (Nat × Nat) := (List.range' r.first r.count).map fun k => (r.word, k)

/-- A run of calls of `randbits`. Before the first one no bit is left in the buffer. -/
structure Draws where
  buffer : BitBuffer := {}
  drawn : Nat := 0
  word : Nat := 0
  returned : Nat := 64
  returns : List Return := []
deriving DecidableEq, Repr

namespace Draws

def Short (bits : UInt8) : Prop := 0 < bits.toNat ∧ bits.toNat ≤ 32

instance (bits : UInt8) : Decidable (Short bits) := inferInstanceAs (Decidable (_ ∧ _))

def Refills (d : Draws) (bits : UInt8) : Prop := d.buffer.bitBufferSize < bits

instance (d : Draws) (bits : UInt8) : Decidable (d.Refills bits) := inferInstanceAs (Decidable (_ < _))

variable (generator : Nat → UInt64)

def refill (d : Draws) : Draws :=
  { d with buffer := .fill (generator d.drawn), drawn := d.drawn + 1, word := d.drawn, returned := 0 }

/-- The record of a call that takes `count` bits from the buffer. -/
def take (d : Draws) (ret : UInt64 × BitBuffer) (count : Nat) : Draws :=
  { d with
    buffer := ret.2
    returned := d.returned + count
    returns := d.returns ++ [{ value := ret.1, word := d.word, first := d.returned, count := count }] }

def call (d : Draws) (bits : UInt8) : Draws :=
  let ret := d.buffer.randbits bits (generator d.drawn)
  if bits = 0 then { d with buffer := ret.2 }
  else if Short bits then
    if d.Refills bits then (d.refill generator).take ret bits.toNat else d.take ret bits.toNat
  else { d with buffer := ret.2, drawn := d.drawn + 1 }

/-- A run of `randbits`, as a transition system that never stops. -/
def step (d : Draws) (bits : UInt8) : Option Draws := some (d.call generator bits)

variable {generator} {d : Draws} {bits : UInt8}

theorem call_not_short (hshort : ¬ Short bits) :
    ∃ n, d.drawn ≤ n ∧ d.call generator bits = { d with drawn := n } := by
  rcases Nat.eq_zero_or_pos bits.toNat with hzero | hpos
  · obtain rfl : bits = 0 := UInt8.toNat_inj.mp hzero
    exact ⟨d.drawn, le_rfl, rfl⟩
  · have hne : bits ≠ 0 := fun h => absurd hpos (by rw [h]; decide)
    have hlong : 32 < bits.toNat := Nat.lt_of_not_le fun h => hshort ⟨hpos, h⟩
    refine ⟨d.drawn + 1, Nat.le_succ _, ?_⟩
    simp only [call, if_neg hne, if_neg hshort, BitBuffer.randbits_long _ hlong]

theorem call_refills (hshort : Short bits) (hrefills : d.Refills bits) :
    d.call generator bits =
      (d.refill generator).take ((d.refill generator).buffer.takeBits bits) bits.toNat := by
  have hne : bits ≠ 0 := fun h => absurd hshort.1 (by rw [h]; decide)
  simp only [call, if_neg hne, if_pos hshort, if_pos hrefills, BitBuffer.randbits_short _ hshort.1 hshort.2]
  rw [if_pos (show d.buffer.bitBufferSize < bits from hrefills)]
  rfl

theorem call_buffered (hshort : Short bits) (hbuffered : ¬ d.Refills bits) :
    d.call generator bits = d.take (d.buffer.takeBits bits) bits.toNat := by
  have hne : bits ≠ 0 := fun h => absurd hshort.1 (by rw [h]; decide)
  simp only [call, if_neg hne, if_pos hshort, if_neg hbuffered, BitBuffer.randbits_short _ hshort.1 hshort.2]
  rw [if_neg (show ¬ d.buffer.bitBufferSize < bits from hbuffered)]

variable (generator d bits) in
/-- A call takes nothing from the buffer, or it takes its bits from it, perhaps after a refill. -/
theorem call_cases :
    (¬ Short bits ∧ ∃ n, d.drawn ≤ n ∧ d.call generator bits = { d with drawn := n }) ∨
      Short bits ∧ ∃ d₀, (d.Refills bits ∧ d₀ = d.refill generator ∨ ¬ d.Refills bits ∧ d₀ = d) ∧
        d.call generator bits = d₀.take (d₀.buffer.takeBits bits) bits.toNat := by
  by_cases hshort : Short bits
  · refine .inr ⟨hshort, ?_⟩
    by_cases hrefills : d.Refills bits
    · exact ⟨_, .inl ⟨hrefills, rfl⟩, call_refills hshort hrefills⟩
    · exact ⟨_, .inr ⟨hrefills, rfl⟩, call_buffered hshort hrefills⟩
  · exact .inl ⟨hshort, call_not_short hshort⟩

/-! ## What every run keeps -/

/-- The value is what the record says, where the bits beyond the word are zeros. -/
def ReadFrom (generator : Nat → UInt64) (r : Return) : Prop :=
  r.value.toNat = (generator r.word).toNat >>> r.first % 2 ^ r.count

def positions (d : Draws) : List (Nat × Nat) := d.returns.flatMap Return.positions

variable (generator) in
structure Tracked (d : Draws) : Prop where
  bitBuffer : d.buffer.bitBuffer.toNat = (generator d.word).toNat >>> d.returned
  buffered : d.word < d.drawn ∨ d.buffer.bitBufferSize = 0
  readFrom : ∀ r ∈ d.returns, ReadFrom generator r
  drawn : ∀ r ∈ d.returns, r.word < d.drawn
  before : ∀ r ∈ d.returns, r.word = d.word → r.first + r.count ≤ d.returned
  nodup : d.positions.Nodup

theorem tracked_init : Tracked generator {} where
  bitBuffer := (Nat.shiftRight_eq_zero _ _ (UInt64.toNat_lt _)).symm
  buffered := .inr rfl
  readFrom := by simp
  drawn := by simp
  before := by simp
  nodup := List.nodup_nil

theorem tracked_refill (h : Tracked generator d) : Tracked generator (d.refill generator) where
  bitBuffer := rfl
  buffered := .inl (Nat.lt_succ_self _)
  readFrom := h.readFrom
  drawn r hr := (h.drawn r hr).trans (Nat.lt_succ_self _)
  before r hr hword := absurd hword (h.drawn r hr).ne
  nodup := h.nodup

theorem positions_take {ret : UInt64 × BitBuffer} {count : Nat} :
    (d.take ret count).positions = d.positions ++ (List.range' d.returned count).map fun k => (d.word, k) := by
  simp [positions, take, Return.positions]

theorem forall_returns_take {ret : UInt64 × BitBuffer} {count : Nat} {p : Return → Prop} :
    (∀ r ∈ (d.take ret count).returns, p r) ↔
      (∀ r ∈ d.returns, p r) ∧ p { value := ret.1, word := d.word, first := d.returned, count := count } := by
  simp [take, or_imp, forall_and]

theorem tracked_take (h : Tracked generator d) (hdrawn : d.word < d.drawn) (hshort : Short bits) :
    Tracked generator (d.take (d.buffer.takeBits bits) bits.toNat) where
  bitBuffer := by
    rw [take, BitBuffer.takeBits_bitBuffer _ hshort.2, h.bitBuffer, Nat.shiftRight_add]
  buffered := .inl hdrawn
  readFrom := by
    apply forall_returns_take.mpr ⟨h.readFrom, ?_⟩
    rw [ReadFrom, BitBuffer.takeBits_fst _ hshort.1 hshort.2, h.bitBuffer]
  drawn := forall_returns_take.mpr ⟨h.drawn, hdrawn⟩
  before := by
    refine forall_returns_take.mpr ⟨fun r hr hword => ?_, fun _ => le_rfl⟩
    exact (h.before r hr hword).trans (Nat.le_add_right _ _)
  nodup := by
    rw [positions_take]
    apply h.nodup.append
    · exact (List.nodup_range' _).map fun k l hkl => (Prod.mk.inj hkl).2
    · -- what is returned now lies above all that was returned of this word
      intro p hp hnew
      obtain ⟨r, hr, hrp⟩ := List.mem_flatMap.mp hp
      obtain ⟨k, hk, rfl⟩ := List.mem_map.mp hrp
      obtain ⟨l, hl, hlp⟩ := List.mem_map.mp hnew
      obtain ⟨hword, rfl⟩ := Prod.mk.inj hlp
      have hbefore := h.before r hr hword.symm
      rw [List.mem_range'_1] at hk hl
      omega

theorem tracked_call (h : Tracked generator d) (bits : UInt8) : Tracked generator (d.call generator bits) := by
  rcases call_cases generator d bits with ⟨-, n, hn, heq⟩ | ⟨hshort, d₀, ⟨-, rfl⟩ | ⟨hbuffered, rfl⟩, heq⟩
  · rw [heq]
    exact { h with
      buffered := h.buffered.imp_left fun hword => hword.trans_le hn
      drawn := fun r hr => (h.drawn r hr).trans_le hn }
  · rw [heq]
    exact tracked_take (tracked_refill h) (Nat.lt_succ_self _) hshort
  · rw [heq]
    -- an empty buffer would have been refilled
    refine tracked_take h (h.buffered.resolve_right fun hempty => hbuffered ?_) hshort
    rw [Refills, hempty]
    exact UInt8.lt_iff_toNat_lt.mpr hshort.1

/-! ## The size of the buffer -/

/-- The size is the number of bits of the buffered word that were not returned, and all that were returned are bits of
their words. -/
def Sized (d : Draws) : Prop :=
  d.buffer.bitBufferSize.toNat + d.returned = 64 ∧ ∀ p ∈ d.positions, p.2 < 64

/-- A word that is drawn into the buffer gives the size 64. The size is the low byte of eight times the word. -/
def FillsRight (generator : Nat → UInt64) (d : Draws) (bits : UInt8) : Prop :=
  Short bits → d.Refills bits → (generator d.drawn).toNat % 32 = 8

instance (d : Draws) (bits : UInt8) : Decidable (FillsRight generator d bits) := inferInstanceAs (Decidable (_ → _ → _))

theorem sized_take (hpositions : ∀ p ∈ d.positions, p.2 < 64) :
    (d.take (d.buffer.takeBits bits) bits.toNat).Sized ↔
      (256 - bits.toNat + d.buffer.bitBufferSize.toNat) % 256 + (d.returned + bits.toNat) = 64 := by
  rw [Sized, positions_take, ← BitBuffer.takeBits_bitBufferSize]
  apply and_iff_left_of_imp
  intro hsize
  refine List.forall_mem_append.mpr ⟨hpositions, List.forall_mem_map.mpr fun k hk => ?_⟩
  rw [List.mem_range'_1] at hk
  exact hk.2.trans_le ((Nat.le_add_left _ _).trans hsize.le)

theorem fillsRight_iff (h : d.Sized) : FillsRight generator d bits ↔ (d.call generator bits).Sized := by
  obtain ⟨hsize, hpositions⟩ := h
  rcases call_cases generator d bits with
    ⟨hshort, n, -, heq⟩ | ⟨hshort, d₀, ⟨hrefills, rfl⟩ | ⟨hbuffered, rfl⟩, heq⟩
  · rw [heq]
    exact iff_of_true (fun h => absurd h hshort) ⟨hsize, hpositions⟩
  · rw [heq, sized_take (d := d.refill generator) hpositions]
    have hle := hshort.2
    simp only [FillsRight, hshort, hrefills, true_imp_iff, refill, BitBuffer.size_fill]
    omega
  · rw [heq, sized_take hpositions]
    have hle : bits.toNat ≤ d₀.buffer.bitBufferSize.toNat :=
      Nat.le_of_not_lt fun h => hbuffered (UInt8.lt_iff_toNat_lt.mpr h)
    have hpos := hshort.1
    exact iff_of_true (fun _ h => absurd h hbuffered) (by omega)

/-- Nothing is reused, nothing invented: the size is at most 64 and counts the bits that are left, and the bits that
were returned are bits of the words, each of them at its own position. -/
structure Right (generator : Nat → UInt64) (d : Draws) : Prop where
  size_le : d.buffer.bitBufferSize.toNat ≤ 64
  size_add : d.buffer.bitBufferSize.toNat + d.returned = 64
  readFrom : ∀ r ∈ d.returns, ReadFrom generator r
  nodup : d.positions.Nodup
  inWord : ∀ p ∈ d.positions, p.2 < 64

theorem right_iff_sized (h : Tracked generator d) : Right generator d ↔ d.Sized := by
  constructor
  · intro hright
    exact ⟨hright.size_add, hright.inWord⟩
  · rintro ⟨hsize, hpositions⟩
    exact ⟨(Nat.le_add_right _ _).trans hsize.le, hsize, h.readFrom, h.nodup, hpositions⟩

/-- **Random bits.** All states of a run are right exactly when every word that was drawn into the buffer happens to
give the size 64. -/
theorem randbits_right_iff (generator : Nat → UInt64) (calls : List UInt8) :
    (∀ n, ∀ d ∈ runSystem (step generator) {} (calls.take n), Right generator d) ↔
      Throughout (step generator) (FillsRight generator) {} calls := by
  have hkeeps : ∀ d bits d', Tracked generator d → step generator d bits = some d' → Tracked generator d' :=
    fun d bits d' h hd' => Option.some.inj hd' ▸ tracked_call h bits
  have hstep : ∀ d bits, Sized d → (FillsRight generator d bits ↔ ∀ d' ∈ step generator d bits, Sized d') :=
    fun d bits h => by simp [step, fillsRight_iff h]
  have hinit : Sized {} := ⟨rfl, fun p hp => absurd hp List.not_mem_nil⟩
  exact throughout_iff_goal hkeeps (fun _ => right_iff_sized) hstep tracked_init hinit calls

/-- A word that ends in 16 gives the size 128. Of the 96 bits that are returned from it, 32 lie beyond its end. -/
theorem randbits_invents_bits :
    ¬ ∀ n, ∀ d ∈ runSystem (step fun _ => 16) {} ([32, 32, 32].take n), Right (fun _ => 16) d := by
  intro h
  have hstate := h 3 _ rfl
  exact absurd (hstate.inWord (0, 64) (by decide)) (by decide)

end Draws

/-! ## A band around a value -/

/-- `std::uniform_int_distribution` gives numbers of its range. -/
def InRange (dis : UInt32 → UInt32 → UInt32) : Prop := ∀ lo hi, lo ≤ hi → lo ≤ dis lo hi ∧ dis lo hi ≤ hi

section randomize
variable (dis : UInt32 → UInt32 → UInt32)

def randomizeBetween (min max : UInt32) : UInt32 := if min = max then min else dis min max

/-- `static_cast<uint32_t>` of a number that is not negative. Where the result does not fit, the conversion is
undefined. -/
def truncateUInt32 (x : ℚ) : Option UInt32 := if ⌊x⌋₊ < 2 ^ 32 then some (.ofNat ⌊x⌋₊) else none

/-- `randomize(val, percentage)` for a `uint32_t`, over exact fractions. -/
def randomizeAround (val : UInt32) (percentage : ℚ) : Option UInt32 :=
  if val = 0 ∨ percentage = 0 then some val
  else
    let percentage := max 1 |percentage|
    (truncateUInt32 (val.toNat * percentage)).map fun variance =>
      if variance = 0 then val
      else
        let min := if val > 0 + variance then val - variance else 0
        let max := if 0xFFFFFFFF - variance > val then val + variance else 0xFFFFFFFF
        randomizeBetween dis min max

/-- The interval that `on_ping_timer_expired` sets, in milliseconds. -/
def nextPingInterval (pingIntervalSeconds : UInt32) : Option UInt32 :=
  randomizeAround dis (pingIntervalSeconds * 1000) (3 / 10)

variable {dis}

theorem randomizeBetween_mem (hdis : InRange dis) {min max : UInt32} (h : min ≤ max) :
    min ≤ randomizeBetween dis min max ∧ randomizeBetween dis min max ≤ max := by
  rw [randomizeBetween]
  split_ifs with heq
  · exact ⟨UInt32.le_refl _, h⟩
  · exact hdis min max h

theorem truncateUInt32_natCast (val : UInt32) : truncateUInt32 val.toNat = some val := by
  rw [truncateUInt32, Nat.floor_natCast, if_pos (UInt32.toNat_lt val), UInt32.ofNat_toNat]

def bandTop (val : UInt32) : UInt32 := if 0xFFFFFFFF - val > val then val + val else 0xFFFFFFFF

theorem toNat_bandTop (val : UInt32) : (bandTop val).toNat = min (val.toNat + val.toNat) (2 ^ 32 - 1) := by
  have hval := UInt32.toNat_lt val
  have hsub : (0xFFFFFFFF - val).toNat = 2 ^ 32 - 1 - val.toNat :=
    UInt32.toNat_sub_of_le _ _ (UInt32.le_iff_toNat_le.mpr (Nat.le_pred_of_lt hval))
  rw [bandTop]
  split_ifs with h <;> rw [gt_iff_lt, UInt32.lt_iff_toNat_lt, hsub] at h
  · rw [UInt32.toNat_add]
    omega
  · rw [show (0xFFFFFFFF : UInt32).toNat = 2 ^ 32 - 1 from rfl]
    omega

theorem randomizeAround_eq {val : UInt32} {percentage : ℚ} (hval : val ≠ 0) (hpos : 0 < percentage)
    (hle : percentage ≤ 1) : randomizeAround dis val percentage = some (randomizeBetween dis 0 (bandTop val)) := by
  have hclamp : max 1 |percentage| = 1 := by
    rw [abs_of_pos hpos, max_eq_left hle]
  have hcond : ¬ (val = 0 ∨ percentage = 0) := by
    rintro (h | h)
    · exact hval h
    · exact hpos.ne' h
  have hmin : ¬ val > 0 + val := by
    rw [UInt32.zero_add]
    exact UInt32.lt_irrefl val
  simp only [randomizeAround, if_neg hcond, hclamp, mul_one, truncateUInt32_natCast, Option.map_some, if_neg hval,
    if_neg hmin, bandTop]

/-- Whatever is drawn stays within the percentage of the value. -/
def InBand (val : UInt32) (percentage : ℚ) : Prop :=
  ∀ dis, InRange dis → ∃ r, randomizeAround dis val percentage = some r ∧
    val.toNat - ⌊val.toNat * percentage⌋₊ ≤ r.toNat ∧ r.toNat ≤ min (val.toNat + ⌊val.toNat * percentage⌋₊) (2 ^ 32 - 1)

/-- The interval is within 30% of the setting and not zero. -/
def PingIntervalInBand (pingIntervalSeconds : UInt32) : Prop :=
  ∀ dis, InRange dis → ∃ r, nextPingInterval dis pingIntervalSeconds = some r ∧ r ≠ 0 ∧
    |(r.toNat : ℚ) - pingIntervalSeconds.toNat * 1000| ≤ pingIntervalSeconds.toNat * 1000 * (3 / 10)

/-- The distribution that always gives the lower end. -/
theorem inRange_lowest : InRange fun lo _ => lo := fun lo _ h => ⟨UInt32.le_refl lo, h⟩

theorem randomizeAround_lowest {val : UInt32} {percentage : ℚ} (hval : val ≠ 0) (hpos : 0 < percentage)
    (hle : percentage ≤ 1) : randomizeAround (fun lo _ => lo) val percentage = some 0 := by
  rw [randomizeAround_eq hval hpos hle, randomizeBetween, ite_self]

theorem inBand_one {val : UInt32} (hval : val ≠ 0) : InBand val 1 := by
  intro dis hdis
  refine ⟨_, randomizeAround_eq hval one_pos le_rfl, ?_⟩
  obtain ⟨-, hle⟩ := randomizeBetween_mem hdis UInt32.zero_le
  rw [UInt32.le_iff_toNat_le, toNat_bandTop] at hle
  rw [mul_one, Nat.floor_natCast]
  exact ⟨by omega, hle⟩

theorem not_inBand {val : UInt32} {percentage : ℚ} (hval : val ≠ 0) (hpos : 0 < percentage) (hlt : percentage < 1) :
    ¬ InBand val percentage := by
  intro h
  obtain ⟨r, hr, hlow, -⟩ := h _ inRange_lowest
  rw [randomizeAround_lowest hval hpos hlt.le] at hr
  obtain rfl := Option.some.inj hr
  have hnat : 0 < val.toNat := Nat.pos_of_ne_zero fun h => hval (UInt32.toNat_inj.mp h)
  have hfloor : ⌊val.toNat * percentage⌋₊ < val.toNat := by
    rw [Nat.floor_lt (by positivity)]
    exact mul_lt_of_lt_one_right (by exact_mod_cast hnat) hlt
  rw [UInt32.toNat_zero] at hlow
  omega

/-- No setting keeps the interval between two pings in its band: it can be zero. -/
theorem not_pingIntervalInBand {pingIntervalSeconds : UInt32} (h : pingIntervalSeconds * 1000 ≠ 0) :
    ¬ PingIntervalInBand pingIntervalSeconds := by
  intro hband
  obtain ⟨r, hr, hne, -⟩ := hband _ inRange_lowest
  rw [nextPingInterval, randomizeAround_lowest h (by norm_num) (by norm_num)] at hr
  exact hne (Option.some.inj hr).symm

/-- **Jittered values.** The draws around a value stay in their band exactly when the percentage is one, and no interval
between pings does. -/
theorem jitter_in_band_iff (val : UInt32) (percentage : ℚ) (hval : 0 < val) (hpos : 0 < percentage)
    (hle : percentage ≤ 1) :
    (InBand val percentage ↔ percentage = 1) ∧
      ∀ seconds : UInt32, 1 ≤ seconds.toNat → seconds.toNat * 1000 < 2 ^ 32 → ¬ PingIntervalInBand seconds := by
  have hne : val ≠ 0 := fun h => absurd hval (by rw [h]; decide)
  refine ⟨⟨fun h => ?_, fun h => h ▸ inBand_one hne⟩, fun seconds hone hlt => not_pingIntervalInBand fun hzero => ?_⟩
  · exact hle.eq_or_lt.resolve_right fun hlt => not_inBand hne hpos hlt h
  · have hnat := congrArg UInt32.toNat hzero
    rw [UInt32.toNat_mul, show (1000 : UInt32).toNat = 1000 from rfl, Nat.mod_eq_of_lt hlt, UInt32.toNat_zero] at hnat
    omega

theorem jitter_at_thirty_seconds : ¬ InBand 30000 (3 / 10) ∧ InBand 30000 1 := by
  refine ⟨fun h => ?_, (jitter_in_band_iff 30000 1 (by decide) (by norm_num) (by norm_num)).1.mpr rfl⟩
  have hone := (jitter_in_band_iff 30000 (3 / 10) (by decide) (by norm_num) (by norm_num)).1.mp h
  norm_num at hone

/-- Thirty seconds and 30% can give the interval zero. -/
theorem jittered_interval_zero :
    nextPingInterval (fun lo _ => lo) 30 = some 0 ∧ ¬ InBand 30000 (3 / 10) ∧ ¬ PingIntervalInBand 30 :=
  ⟨randomizeAround_lowest (by decide) (by norm_num) (by norm_num),
    not_inBand (by decide) (by norm_num) (by norm_num), not_pingIntervalInBand (by decide)⟩

end randomize

end Znode.Core
