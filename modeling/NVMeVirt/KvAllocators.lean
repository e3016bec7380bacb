import NVMeVirt.KvFtl
import NVMeVirt.Lib.Ranges

/-!
# The allocators of the key-value namespace

`append_only.c` and `bitmap.c`. Neither gives anything back, and neither sees that the device is
full: the one goes on past its end, the other takes the answer of the search for an index.
`bitmap_find_next_zero_area` of the kernel is a parameter.
-/

namespace NVMeVirt
set_option autoImplicit false
open Outcome Ranges

def largeLength : Nat := 4096

/-- The bits of `small_bitmap[600000]` and of `large_bitmap[300000]`. -/
def smallBitmapBits : Nat := 600000 * 64
def largeBitmapBits : Nat := 300000 * 64

structure BitmapClass where
  nbits : Nat
  bitmap : Nat → Bool
  lastPos : Nat
  capacity : Nat

structure BitmapAllocator where
  small : BitmapClass
  large : BitmapClass
  devSize : Nat
  totalWritten : Nat

/-- `bitmap_zero`, for an `unsigned int` of bits. -/
def bitmapZero (bits nbits : Nat) : Except Fault BitmapClass :=
  if u32 nbits ≤ bits then .ok ⟨nbits, fun _ => false, 0, 0⟩ else .error .badAddress

def bitmapAllocatorInit (size : Nat) : Except Fault BitmapAllocator := do
  let small ← bitmapZero smallBitmapBits (size / 2 / smallLength)
  let large ← bitmapZero largeBitmapBits (size / 2 / largeLength)
  return ⟨small, large, size, 0⟩

/-- `bitmap_find_next_zero_area(map, size, start, nr, align_mask)`. -/
abbrev FindZeroArea := (Nat → Bool) → Nat → Nat → Nat → Nat → Nat

/-- Either branch of `bitmap_allocate`, up to the index. `bitmap_set` gets no further than the
end of the array. -/
def takeBit (find : FindZeroArea) (bits : Nat) (c : BitmapClass) : Except Fault (BitmapClass × Nat) :=
  let off := find c.bitmap c.nbits c.lastPos 1 0
  if off < bits then
    let lastPos := off + 1
    .ok (⟨c.nbits, Function.update c.bitmap off true, if c.nbits < lastPos then 0 else lastPos,
      c.capacity + 1⟩, off)
  else .error .badAddress

def bitmapAllocate (find : FindZeroArea) (a : BitmapAllocator) (length : Nat) :
    Except Fault (BitmapAllocator × Nat) := do
  let a := { a with totalWritten := u64 (a.totalWritten + length) }
  if smallLength < length then
    let (large, off) ← takeBit find largeBitmapBits a.large
    return ({ a with large := large }, u64 (a.devSize / 2 + off * largeLength))
  else
    let (small, off) ← takeBit find smallBitmapBits a.small
    return ({ a with small := small }, u64 (off * smallLength))

inductive AllocatorType where
  | bitmap
  | appendOnly
  deriving DecidableEq, Repr

/-- The calls of `allocate` with these lengths: the offsets returned, each with its length. -/
def allocations {σ : Type} (allocate : σ → Nat → Except Fault (σ × Nat)) :
    List Nat → σ → Except Fault (List (Nat × Nat))
  | [], _ => .ok []
  | length :: lengths, s => do
    let (s, offset) ← allocate s length
    let rs ← allocations allocate lengths s
    return (offset, length) :: rs

def kvAllocations (find : FindZeroArea) (size : Nat) (lengths : List Nat) :
    AllocatorType → Except Fault (List (Nat × Nat))
  | .bitmap => do
    let a ← bitmapAllocatorInit size
    allocations (bitmapAllocate find) lengths a
  | .appendOnly =>
    allocations (fun a length => .ok (appendOnlyAllocate a length)) lengths (appendOnlyAllocatorInit size)

/-- The callers take `-1` for a failure. -/
def Granted (r : Nat × Nat) : Prop := r.1 ≠ 2^64 - 1

/-- The extents lie in the device, no two of them meet, and the bitmap allocator keeps small and
large ones in their halves. -/
structure KeptApart (size : Nat) (type : AllocatorType) (rs : List (Nat × Nat)) : Prop where
  within : ∀ r ∈ rs, Granted r → r.1 + r.2 ≤ size
  apart : rs.Pairwise (fun a b => Granted a → Granted b → ∀ i, ¬ (Within a i ∧ Within b i))
  small : type = .bitmap → ∀ r ∈ rs, Granted r → r.2 ≤ smallLength → r.1 + r.2 ≤ size / 2
  large : type = .bitmap → ∀ r ∈ rs, Granted r → smallLength < r.2 → size / 2 ≤ r.1

/-- What the append-only allocator returns from `latest` on. -/
def appendOnlyExtents : Nat → List Nat → List (Nat × Nat)
  | _, [] => []
  | latest, length :: lengths => (latest, length) :: appendOnlyExtents (u64 (latest + length)) lengths

variable {size : Nat} {lengths : List Nat}

theorem allocations_appendOnly (a : AppendOnly) (lengths : List Nat) :
    allocations (fun a length => .ok (appendOnlyAllocate a length)) lengths a =
      .ok (appendOnlyExtents a.latest lengths) := by
  induction lengths generalizing a with
  | nil => rfl
  | cons length lengths ih =>
    rw [allocations, ok_bind, appendOnlyExtents]
    simp only [ih]
    rfl

theorem appendOnlyExtents_append {s : Nat} (hs : s < 2^64) (p q : List Nat) :
    appendOnlyExtents s (p ++ q) = appendOnlyExtents s p ++ appendOnlyExtents (u64 (s + p.sum)) q := by
  induction p generalizing s with
  | nil =>
    rw [List.nil_append, List.sum_nil, Nat.add_zero, u64, Nat.mod_eq_of_lt hs]
    rfl
  | cons length p ih =>
    have hsum : u64 (u64 (s + length) + p.sum) = u64 (s + (length + p.sum)) := by
      unfold u64
      omega
    have hlt : u64 (s + length) < 2^64 := Nat.mod_lt _ (by decide)
    rw [List.cons_append, appendOnlyExtents, appendOnlyExtents, List.cons_append, ih hlt, hsum, List.sum_cons]

/-- Without a wrap the extents lie end to end. -/
theorem appendOnlyExtents_tiles {s : Nat} (hpos : ∀ l ∈ lengths, 0 < l) (hfit : s + lengths.sum < 2^64) :
    Tiles s (appendOnlyExtents s lengths) (s + lengths.sum) := by
  induction lengths generalizing s with
  | nil => exact tiles_nil
  | cons length lengths ih =>
    rw [List.sum_cons] at hfit ⊢
    have hu : u64 (s + length) = s + length := by
      unfold u64
      omega
    refine ⟨rfl, hpos length List.mem_cons_self, ?_⟩
    rw [hu, ← Nat.add_assoc]
    exact ih (fun l hl => hpos l (List.mem_cons_of_mem _ hl)) (by omega)

theorem keptApart_of_tiles {rs : List (Nat × Nat)} {total : Nat} (h : Tiles 0 rs total)
    (hfit : total ≤ size) : KeptApart size .appendOnly rs where
  within := fun _ hr _ => (h.end_le hr).trans hfit
  apart := h.pairwise.imp (fun hab _ _ => hab)
  small := fun htype => nomatch htype
  large := fun htype => nomatch htype

/-- The append-only allocator has room for all lengths, or runs out of 64-bit offsets at the
last one. -/
def AppendOnlyFits (size : Nat) (lengths : List Nat) : Prop :=
  lengths.sum ≤ size ∨ size = 2^64 - 1 ∧ lengths.dropLast.sum = size

theorem appendOnly_keptApart (hsize : size < 2^64) (hpos : ∀ l ∈ lengths, 0 < l)
    (hfit : AppendOnlyFits size lengths) : KeptApart size .appendOnly (appendOnlyExtents 0 lengths) := by
  rcases hfit with hfit | ⟨hmax, hlast⟩
  · have htiles := appendOnlyExtents_tiles (s := 0) hpos (by omega)
    rw [Nat.zero_add] at htiles
    exact keptApart_of_tiles htiles hfit
  · rcases List.eq_nil_or_concat' lengths with rfl | ⟨before, l, rfl⟩
    · exact keptApart_of_tiles tiles_nil (Nat.zero_le _)
    · rw [List.dropLast_concat] at hlast
      have hpos' : ∀ l ∈ before, 0 < l := fun l hl => hpos l (List.mem_append_left _ hl)
      have htiles := appendOnlyExtents_tiles (s := 0) hpos' (by omega)
      rw [Nat.zero_add] at htiles
      have hbefore : KeptApart size .appendOnly (appendOnlyExtents 0 before) :=
        keptApart_of_tiles htiles (Nat.le_of_eq hlast)
      have hfailed : ¬ Granted (u64 (0 + before.sum), l) := by
        unfold Granted u64
        omega
      rw [appendOnlyExtents_append (by decide)]
      refine ⟨?_, ?_, fun htype => (nomatch htype), fun htype => nomatch htype⟩
      · intro r hr hgranted
        rcases List.mem_append.mp hr with hr | hr
        · exact hbefore.within r hr hgranted
        · obtain rfl := List.mem_singleton.mp hr
          exact absurd hgranted hfailed
      · rw [List.pairwise_append]
        refine ⟨hbefore.apart, List.pairwise_singleton _ _, ?_⟩
        intro a _ b hb _ hgranted
        obtain rfl := List.mem_singleton.mp hb
        exact absurd hgranted hfailed

theorem appendOnlyFits_of_keptApart (hsize : size < 2^64) (hlengths : ∀ l ∈ lengths, 0 < l ∧ l ≤ largeLength)
    (h : KeptApart size .appendOnly (appendOnlyExtents 0 lengths)) : AppendOnlyFits size lengths := by
  by_contra hfit
  obtain ⟨hover, hlast⟩ := not_or.mp hfit
  obtain ⟨before, l, after, rfl, hle, hlt⟩ := exists_split (Nat.lt_of_not_le hover)
  have hstart : u64 (0 + before.sum) = before.sum := by
    unfold u64
    omega
  rw [appendOnlyExtents_append (by decide), hstart, appendOnlyExtents] at h
  -- the extent that leaves the device can only be the failure at the very end
  have hmax : before.sum = 2^64 - 1 := by
    by_contra hne
    have := h.within (before.sum, l) (by simp) hne
    simp only at this
    omega
  have hsize' : size = 2^64 - 1 := by omega
  cases after with
  | nil =>
    apply hlast
    rw [List.dropLast_concat]
    omega
  | cons l' after =>
    -- the next one starts again at the bottom, where the first extents are
    obtain ⟨hl, hl'⟩ := hlengths l (by simp)
    obtain ⟨hnext, _⟩ := hlengths l' (by simp)
    unfold largeLength at hl'
    have hwrap : u64 (before.sum + l) = l - 1 := by
      unfold u64
      omega
    rw [appendOnlyExtents, hwrap] at h
    have htiles := appendOnlyExtents_tiles (s := 0) (fun l hl => (hlengths l (List.mem_append_left _ hl)).1)
      (show 0 + before.sum < 2^64 by omega)
    obtain ⟨r, hr, hin⟩ := (htiles.cover (l - 1)).mpr ⟨Nat.zero_le _, by omega⟩
    have hapart := (List.pairwise_append.mp h.apart).2.2 r hr (l - 1, l') (by simp)
    have hgranted : Granted r := by
      unfold Granted
      have := hin.1
      omega
    refine hapart hgranted ?_ (l - 1) ⟨hin, Nat.le_refl _, ?_⟩
    · unfold Granted
      simp only
      omega
    · simp only
      omega

/-- The first zero from `start` on, or a number beyond `size`. -/
structure FindsZeroArea (find : FindZeroArea) : Prop where
  found : ∀ {map size start i}, start ≤ i → i < size → map i = false →
    (∀ j, start ≤ j → j < i → map j = true) →
    find map size start 1 0 = i
  none : ∀ {map size start}, (∀ j, start ≤ j → j < size → map j = true) → size < find map size start 1 0

/-- The first `k` bits are taken and the next search starts behind them. -/
structure BitmapClass.Used (c : BitmapClass) (nbits k : Nat) : Prop where
  nbits_eq : c.nbits = nbits
  le : k ≤ nbits
  lastPos_eq : c.lastPos = k
  bitmap_iff : ∀ j, c.bitmap j = true ↔ j < k

variable {find : FindZeroArea} {c c' : BitmapClass} {bits nbits k m off : Nat}

theorem BitmapClass.Used.find_eq (hu : c.Used nbits k) (hf : FindsZeroArea find) (hk : k < nbits) :
    find c.bitmap c.nbits c.lastPos 1 0 = k := by
  have hfree : c.bitmap k = false := by
    rw [← Bool.not_eq_true, hu.bitmap_iff]
    exact Nat.lt_irrefl k
  rw [hu.nbits_eq, hu.lastPos_eq]
  exact hf.found (Nat.le_refl k) hk hfree (fun j h₁ h₂ => absurd h₂ (Nat.not_lt.mpr h₁))

theorem takeBit_next (hf : FindsZeroArea find) (hu : c.Used nbits k) (hk : k < nbits) (hbits : k < bits) :
    ∃ c', takeBit find bits c = .ok (c', k) ∧ c'.Used nbits (k + 1) := by
  unfold takeBit
  rw [hu.find_eq hf hk]
  simp only
  rw [if_pos hbits, hu.nbits_eq]
  refine ⟨_, rfl, rfl, hk, if_neg (Nat.not_lt.mpr hk), fun j => ?_⟩
  by_cases hj : j = k
  · simp [hj]
  · simp only [Function.update_of_ne hj, hu.bitmap_iff]
    omega

theorem takeBit_beyond (hf : FindsZeroArea find) (hu : c.Used nbits k) (hk : min nbits bits ≤ k)
    (h : takeBit find bits c = .ok (c', off)) : nbits < off ∧ off < bits := by
  have hoff : off = find c.bitmap c.nbits c.lastPos 1 0 ∧ off < bits := by
    unfold takeBit at h
    simp only at h
    split at h
    · rename_i hlt
      cases h
      exact ⟨rfl, hlt⟩
    · cases h
  refine ⟨?_, hoff.2⟩
  have hle := hu.le
  by_cases hfull : k = nbits
  · rw [hoff.1, hu.nbits_eq]
    apply hf.none
    intro j _ hj
    exact (hu.bitmap_iff j).mpr (hfull ▸ hj)
  · have hnext := hu.find_eq hf (by omega)
    have := hoff.1.trans hnext
    omega

def smallCapacity (size : Nat) : Nat := min (size / 2 / smallLength) smallBitmapBits
def largeCapacity (size : Nat) : Nat := min (size / 2 / largeLength) largeBitmapBits

structure BitmapAllocator.Used (a : BitmapAllocator) (size k m : Nat) : Prop where
  devSize_eq : a.devSize = size
  small : a.small.Used (size / 2 / smallLength) k
  large : a.large.Used (size / 2 / largeLength) m

/-- A small extent from index `k` on, or a large one from `m` on. -/
def FromIndex (size k m : Nat) (r : Nat × Nat) : Prop :=
  (r.2 ≤ smallLength ∧ ∃ j, k ≤ j ∧ j < smallCapacity size ∧ r.1 = j * smallLength) ∨
    (smallLength < r.2 ∧ r.2 ≤ largeLength ∧
      ∃ j, m ≤ j ∧ j < largeCapacity size ∧ r.1 = size / 2 + j * largeLength)

variable {a a' : BitmapAllocator} {length : Nat}

theorem bitmapAllocate_small (hf : FindsZeroArea find) (hu : a.Used size k m) (hlen : length ≤ smallLength)
    (hk : k < smallCapacity size) :
    ∃ a', bitmapAllocate find a length = .ok (a', k * smallLength) ∧ a'.Used size (k + 1) m := by
  obtain ⟨hbit, hbits⟩ : k < size / 2 / smallLength ∧ k < smallBitmapBits := Nat.lt_min.mp hk
  obtain ⟨c, hc, hused⟩ := takeBit_next hf hu.small hbit hbits
  unfold bitmapAllocate
  simp only
  rw [if_neg (Nat.not_lt.mpr hlen), hc]
  have hoff : u64 (k * smallLength) = k * smallLength := by
    unfold smallBitmapBits at hbits
    unfold u64 smallLength
    omega
  rw [ok_bind, hoff]
  exact ⟨_, rfl, hu.devSize_eq, hused, hu.large⟩

theorem bitmapAllocate_large (hf : FindsZeroArea find) (hu : a.Used size k m) (hlen : smallLength < length)
    (hm : m < largeCapacity size) (hsize : size < 2^64) :
    ∃ a', bitmapAllocate find a length = .ok (a', size / 2 + m * largeLength) ∧ a'.Used size k (m + 1) := by
  obtain ⟨hbit, hbits⟩ : m < size / 2 / largeLength ∧ m < largeBitmapBits := Nat.lt_min.mp hm
  obtain ⟨c, hc, hused⟩ := takeBit_next hf hu.large hbit hbits
  unfold bitmapAllocate
  simp only
  rw [if_pos hlen, hc, hu.devSize_eq]
  have hoff : u64 (size / 2 + m * largeLength) = size / 2 + m * largeLength := by
    unfold largeBitmapBits at hbits
    unfold u64 largeLength
    omega
  rw [ok_bind, hoff]
  exact ⟨_, rfl, rfl, hu.small, hused⟩

/-- A small extent that is granted when no small bit is left runs into the upper half. -/
theorem bitmapAllocate_small_beyond (hf : FindsZeroArea find) (hu : a.Used size k m)
    (hlen : length ≤ smallLength) (hk : smallCapacity size ≤ k) (h : bitmapAllocate find a length = .ok (a', off)) :
    Granted (off, length) ∧ size / 2 < off := by
  unfold bitmapAllocate at h
  simp only at h
  rw [if_neg (Nat.not_lt.mpr hlen)] at h
  obtain ⟨⟨c, i⟩, hc, h⟩ := bind_eq_ok.mp h
  obtain ⟨hbeyond, hbits⟩ := takeBit_beyond hf hu.small hk hc
  cases h
  unfold Granted smallBitmapBits u64 smallLength at *
  simp only
  omega

theorem bitmapAllocate_large_beyond (hf : FindsZeroArea find) (hu : a.Used size k m)
    (hlen : smallLength < length) (hm : largeCapacity size ≤ m) (hsize : size < 2^64)
    (h : bitmapAllocate find a length = .ok (a', off)) :
    Granted (off, length) ∧ size ≤ off := by
  unfold bitmapAllocate at h
  simp only at h
  rw [if_pos hlen] at h
  obtain ⟨⟨c, i⟩, hc, h⟩ := bind_eq_ok.mp h
  obtain ⟨hbeyond, hbits⟩ := takeBit_beyond hf hu.large hm hc
  cases h
  have hdev := hu.devSize_eq
  unfold Granted largeBitmapBits u64 largeLength at *
  simp only
  omega

theorem FromIndex.mono {k' m' : Nat} {r : Nat × Nat} (h : FromIndex size k' m' r) (hk : k ≤ k')
    (hm : m ≤ m') : FromIndex size k m r := by
  rcases h with ⟨hlen, j, hj, hcap, hr⟩ | ⟨hlen, hlen', j, hj, hcap, hr⟩
  · exact .inl ⟨hlen, j, hk.trans hj, hcap, hr⟩
  · exact .inr ⟨hlen, hlen', j, hm.trans hj, hcap, hr⟩

theorem FromIndex.bounds {r : Nat × Nat} (h : FromIndex size k m r) : r.1 + r.2 ≤ size ∧
    (r.2 ≤ smallLength → r.1 + r.2 ≤ size / 2) ∧ (smallLength < r.2 → size / 2 ≤ r.1) := by
  unfold FromIndex smallCapacity largeCapacity smallLength largeLength at h
  unfold smallLength
  rcases h with ⟨hlen, j, _, hcap, hr⟩ | ⟨hlen, hlen', j, _, hcap, hr⟩
  · omega
  · omega

/-- Extents of later indices keep off an earlier one. -/
theorem FromIndex.apart_small {r : Nat × Nat} (h : FromIndex size (k + 1) m r) (hk : k < smallCapacity size)
    (hlen : length ≤ smallLength) (i : Nat) : ¬ (Within (k * smallLength, length) i ∧ Within r i) := by
  unfold FromIndex smallCapacity largeCapacity smallLength largeLength at *
  unfold Within
  simp only
  rcases h with ⟨_, j, hj, _, hr⟩ | ⟨_, _, j, _, _, hr⟩
  · omega
  · omega

theorem FromIndex.apart_large {r : Nat × Nat} (h : FromIndex size k (m + 1) r) (hlen : length ≤ largeLength)
    (i : Nat) : ¬ (Within (size / 2 + m * largeLength, length) i ∧ Within r i) := by
  unfold FromIndex smallCapacity largeCapacity smallLength largeLength at *
  unfold Within
  simp only
  rcases h with ⟨_, j, _, hcap, hr⟩ | ⟨_, _, j, hj, _, hr⟩
  · omega
  · omega

def smallCount (lengths : List Nat) : Nat := lengths.countP (fun length => length ≤ smallLength)
def largeCount (lengths : List Nat) : Nat := lengths.countP (fun length => smallLength < length)

theorem smallCount_cons : smallCount (length :: lengths) = smallCount [length] + smallCount lengths := by
  unfold smallCount
  rw [← List.countP_append, List.singleton_append]

theorem largeCount_cons : largeCount (length :: lengths) = largeCount [length] + largeCount lengths := by
  unfold largeCount
  rw [← List.countP_append, List.singleton_append]

theorem counts_small (hlen : length ≤ smallLength) : smallCount [length] = 1 ∧ largeCount [length] = 0 := by
  unfold smallCount largeCount
  simp [hlen]

theorem counts_large (hlen : smallLength < length) : smallCount [length] = 0 ∧ largeCount [length] = 1 := by
  unfold smallCount largeCount
  simp [hlen]

/-- One call gets the next index of its class, and later calls get extents apart from it. -/
structure TakesNext (find : FindZeroArea) (a : BitmapAllocator) (size k m length : Nat)
    (a' : BitmapAllocator) (off : Nat) : Prop where
  ok : bitmapAllocate find a length = .ok (a', off)
  used : a'.Used size (k + smallCount [length]) (m + largeCount [length])
  here : FromIndex size k m (off, length)
  later : ∀ r, FromIndex size (k + smallCount [length]) (m + largeCount [length]) r →
    ∀ i, ¬ (Within (off, length) i ∧ Within r i)

theorem bitmapAllocate_next (hf : FindsZeroArea find) (hsize : size < 2^64) (hlen : length ≤ largeLength)
    (hu : a.Used size k m) (hk : k + smallCount [length] ≤ smallCapacity size)
    (hm : m + largeCount [length] ≤ largeCapacity size) : ∃ a' off, TakesNext find a size k m length a' off := by
  by_cases hsmall : length ≤ smallLength
  · obtain ⟨hone, hnone⟩ := counts_small hsmall
    rw [hone] at hk
    obtain ⟨a', ha, hu'⟩ := bitmapAllocate_small hf hu hsmall hk
    refine ⟨a', _, ha, ?_, .inl ⟨hsmall, k, Nat.le_refl k, hk, rfl⟩, ?_⟩
    · rw [hone, hnone]
      exact hu'
    · rw [hone, hnone]
      exact fun r hr => hr.apart_small hk hsmall
  · have hlarge : smallLength < length := Nat.lt_of_not_le hsmall
    obtain ⟨hnone, hone⟩ := counts_large hlarge
    rw [hone] at hm
    obtain ⟨a', ha, hu'⟩ := bitmapAllocate_large hf hu hlarge hm hsize
    refine ⟨a', _, ha, ?_, .inr ⟨hlarge, hlen, m, Nat.le_refl m, hm, rfl⟩, ?_⟩
    · rw [hone, hnone]
      exact hu'
    · rw [hone, hnone]
      exact fun r hr => hr.apart_large hlen

/-- A call that finds no bit of its class gets an extent where it may not be. -/
theorem bitmapAllocate_room (hf : FindsZeroArea find) (hsize : size < 2^64) (hpos : 0 < length)
    (hu : a.Used size k m) (hk : k ≤ smallCapacity size) (hm : m ≤ largeCapacity size)
    (h : bitmapAllocate find a length = .ok (a', off))
    (hwithin : Granted (off, length) → off + length ≤ size ∧ (length ≤ smallLength → off + length ≤ size / 2)) :
    k + smallCount [length] ≤ smallCapacity size ∧ m + largeCount [length] ≤ largeCapacity size := by
  by_cases hsmall : length ≤ smallLength
  · obtain ⟨hone, hnone⟩ := counts_small hsmall
    rw [hone, hnone]
    refine ⟨?_, hm⟩
    by_contra hfull
    obtain ⟨hgranted, hover⟩ := bitmapAllocate_small_beyond hf hu hsmall (by omega) h
    have hlow := (hwithin hgranted).2 hsmall
    omega
  · have hlarge : smallLength < length := Nat.lt_of_not_le hsmall
    obtain ⟨hnone, hone⟩ := counts_large hlarge
    rw [hone, hnone]
    refine ⟨hk, ?_⟩
    by_contra hfull
    obtain ⟨hgranted, hover⟩ := bitmapAllocate_large_beyond hf hu hlarge (by omega) hsize h
    have hinside := (hwithin hgranted).1
    omega

/-- With bits enough for all calls each gets the next index of its class. -/
theorem allocations_bitmap (hf : FindsZeroArea find) (hsize : size < 2^64)
    (hlengths : ∀ l ∈ lengths, l ≤ largeLength) (hu : a.Used size k m)
    (hk : k + smallCount lengths ≤ smallCapacity size) (hm : m + largeCount lengths ≤ largeCapacity size) :
    ∃ rs, allocations (bitmapAllocate find) lengths a = .ok rs ∧ (∀ r ∈ rs, FromIndex size k m r) ∧
      rs.Pairwise (fun x y => ∀ i, ¬ (Within x i ∧ Within y i)) := by
  induction lengths generalizing a k m with
  | nil => exact ⟨[], rfl, fun _ hr => (nomatch hr), .nil⟩
  | cons length lengths ih =>
    rw [smallCount_cons] at hk
    rw [largeCount_cons] at hm
    have hlen := hlengths length List.mem_cons_self
    have hrest : ∀ l ∈ lengths, l ≤ largeLength := fun l hl => hlengths l (List.mem_cons_of_mem _ hl)
    obtain ⟨a', off, t⟩ := bitmapAllocate_next hf hsize hlen hu (by omega) (by omega)
    obtain ⟨rs, hrs, hfrom, hpair⟩ := ih hrest t.used (by omega) (by omega)
    refine ⟨(off, length) :: rs, ?_, ?_, .cons (fun r hr => t.later r (hfrom r hr)) hpair⟩
    · rw [allocations, t.ok, ok_bind]
      simp only [hrs]
      rfl
    · intro r hr
      rcases List.mem_cons.mp hr with rfl | hr
      · exact t.here
      · exact (hfrom r hr).mono (Nat.le_add_right k _) (Nat.le_add_right m _)

/-- Extents that keep apart were within the bits. -/
theorem counts_of_keptApart (hf : FindsZeroArea find) (hsize : size < 2^64)
    (hlengths : ∀ l ∈ lengths, 0 < l ∧ l ≤ largeLength) (hu : a.Used size k m) (hk : k ≤ smallCapacity size)
    (hm : m ≤ largeCapacity size) {rs : List (Nat × Nat)}
    (h : allocations (bitmapAllocate find) lengths a = .ok rs) (hkept : KeptApart size .bitmap rs) :
    k + smallCount lengths ≤ smallCapacity size ∧ m + largeCount lengths ≤ largeCapacity size := by
  induction lengths generalizing a k m rs with
  | nil => exact ⟨hk, hm⟩
  | cons length lengths ih =>
    obtain ⟨⟨a', off⟩, ha, h⟩ := bind_eq_ok.mp h
    obtain ⟨rest, hrest, h⟩ := bind_eq_ok.mp h
    cases h
    have hkept' : KeptApart size .bitmap rest :=
      { within := fun r hr => hkept.within r (List.mem_cons_of_mem _ hr)
        apart := (List.pairwise_cons.mp hkept.apart).2
        small := fun htype r hr => hkept.small htype r (List.mem_cons_of_mem _ hr)
        large := fun htype r hr => hkept.large htype r (List.mem_cons_of_mem _ hr) }
    obtain ⟨hpos, hlen⟩ := hlengths length List.mem_cons_self
    obtain ⟨hk', hm'⟩ := bitmapAllocate_room hf hsize hpos hu hk hm ha (fun hgranted =>
      ⟨hkept.within _ List.mem_cons_self hgranted, hkept.small rfl _ List.mem_cons_self hgranted⟩)
    obtain ⟨a'', off', t⟩ := bitmapAllocate_next hf hsize hlen hu hk' hm'
    obtain ⟨rfl, rfl⟩ : a' = a'' ∧ off = off' := by
      have heq := ha.symm.trans t.ok
      cases heq
      exact ⟨rfl, rfl⟩
    rw [smallCount_cons, largeCount_cons, ← Nat.add_assoc, ← Nat.add_assoc]
    exact ih (fun l hl => hlengths l (List.mem_cons_of_mem _ hl)) t.used hk' hm' hrest hkept'

theorem bitmapAllocatorInit_used (h : bitmapAllocatorInit size = .ok a) : a.Used size 0 0 := by
  have hzero : ∀ {bits nbits : Nat} {c : BitmapClass}, bitmapZero bits nbits = .ok c → c.Used nbits 0 := by
    intro bits nbits c hc
    unfold bitmapZero at hc
    split at hc
    · cases hc
      exact ⟨rfl, Nat.zero_le _, rfl, fun j => iff_of_false Bool.false_ne_true (Nat.not_lt_zero j)⟩
    · cases hc
  obtain ⟨small, hsmall, h⟩ := bind_eq_ok.mp h
  obtain ⟨large, hlarge, h⟩ := bind_eq_ok.mp h
  cases h
  exact ⟨rfl, hzero hsmall, hzero hlarge⟩

/-- The arrays take the bits that are cleared, and there is a bit for each call. -/
structure BitmapFits (size : Nat) (lengths : List Nat) : Prop where
  small_array : u32 (size / 2 / smallLength) ≤ smallBitmapBits
  large_array : u32 (size / 2 / largeLength) ≤ largeBitmapBits
  small : smallCount lengths ≤ smallCapacity size
  large : largeCount lengths ≤ largeCapacity size

theorem bitmap_keptApart_iff (hf : FindsZeroArea find) (hsize : size < 2^64)
    (hlengths : ∀ l ∈ lengths, 0 < l ∧ l ≤ largeLength) :
    (∃ rs, kvAllocations find size lengths .bitmap = .ok rs ∧ KeptApart size .bitmap rs) ↔
      BitmapFits size lengths := by
  constructor
  · rintro ⟨rs, hrs, hkept⟩
    obtain ⟨a, ha, hrs⟩ := bind_eq_ok.mp hrs
    obtain ⟨hsmall, hlarge⟩ := counts_of_keptApart hf hsize hlengths (bitmapAllocatorInit_used ha)
      (Nat.zero_le _) (Nat.zero_le _) hrs hkept
    obtain ⟨_, hzero, ha⟩ := bind_eq_ok.mp ha
    obtain ⟨_, hzero', _⟩ := bind_eq_ok.mp ha
    rw [Nat.zero_add] at hsmall hlarge
    exact ⟨exists_ite_ok.mp ⟨_, hzero⟩, exists_ite_ok.mp ⟨_, hzero'⟩, hsmall, hlarge⟩
  · intro h
    obtain ⟨a, ha⟩ : ∃ a, bitmapAllocatorInit size = .ok a := by
      unfold bitmapAllocatorInit bitmapZero
      rw [if_pos h.small_array, if_pos h.large_array]
      exact ⟨_, rfl⟩
    obtain ⟨rs, hrs, hfrom, hpair⟩ := allocations_bitmap hf hsize (fun l hl => (hlengths l hl).2)
      (bitmapAllocatorInit_used ha) (by rw [Nat.zero_add]; exact h.small)
        (by rw [Nat.zero_add]; exact h.large)
    refine ⟨rs, bind_eq_ok.mpr ⟨a, ha, hrs⟩, ?_⟩
    exact
      { within := fun r hr _ => (hfrom r hr).bounds.1
        apart := hpair.imp (fun hab _ _ => hab)
        small := fun _ r hr _ => (hfrom r hr).bounds.2.1
        large := fun _ r hr _ => (hfrom r hr).bounds.2.2 }

def AllocatorFits (size : Nat) (lengths : List Nat) : AllocatorType → Prop
  | .bitmap => BitmapFits size lengths
  | .appendOnly => AppendOnlyFits size lengths

/-- The extents of a history keep apart and within the device exactly when there is room for them. -/
theorem allocations_kept_apart_iff (find : FindZeroArea) (type : AllocatorType) (size : Nat)
    (lengths : List Nat)
    (hf : FindsZeroArea find) (hsize : size < 2^64) (hlengths : ∀ l ∈ lengths, 0 < l ∧ l ≤ largeLength) :
    (∃ rs, kvAllocations find size lengths type = .ok rs ∧ KeptApart size type rs) ↔
      AllocatorFits size lengths type := by
  cases type with
  | bitmap => exact bitmap_keptApart_iff hf hsize hlengths
  | appendOnly =>
    unfold kvAllocations
    rw [allocations_appendOnly]
    constructor
    · rintro ⟨rs, hrs, hkept⟩
      cases hrs
      exact appendOnlyFits_of_keptApart hsize hlengths hkept
    · exact fun h => ⟨_, rfl, appendOnly_keptApart hsize (fun l hl => (hlengths l hl).1) h⟩

/-- What the kernel's function does for one bit without alignment. -/
def findNextZeroArea (map : Nat → Bool) (size start nr _alignMask : Nat) : Nat :=
  ((List.range' start (size - start)).find? (fun i => !map i)).getD (size + nr)

theorem findNextZeroArea_finds : FindsZeroArea findNextZeroArea where
  found := by
    intro map size start i hstart hi hfree htaken
    have hfirst : (List.range' start (size - start)).find? (fun i => !map i) = some i := by
      rw [List.find?_range'_eq_some]
      refine ⟨by simp [hfree], List.mem_range'_1.mpr ⟨hstart, by omega⟩, fun j h₁ h₂ => ?_⟩
      simp [htaken j h₁ h₂]
    unfold findNextZeroArea
    rw [hfirst]
    rfl
  none := by
    intro map size start htaken
    have hnone : (List.range' start (size - start)).find? (fun i => !map i) = none := by
      rw [List.find?_range'_eq_none]
      intro j h₁ h₂
      simp [htaken j h₁ (by omega)]
    unfold findNextZeroArea
    rw [hnone]
    exact Nat.lt_succ_self size

/-- A device of 1 MiB has 128 large bits; the next large extent would lie behind its end, as would
that of call 257 of the append-only allocator. -/
theorem allocations_beyond_end : (¬ ∃ rs,
    kvAllocations findNextZeroArea (2^20) (List.replicate 257 4096) .appendOnly
      = .ok rs ∧ KeptApart (2^20) .appendOnly rs) ∧
    ¬ ∃ rs, kvAllocations findNextZeroArea (2^20) (List.replicate 129 4096) .bitmap = .ok rs ∧
      KeptApart (2^20) .bitmap rs := by
  constructor
  · rintro ⟨rs, hrs, hkept⟩
    obtain rfl := Except.ok.inj (hrs.symm.trans (allocations_appendOnly _ _))
    have hover := hkept.within (2^20, 4096) (by decide +kernel) (by unfold Granted; decide)
    exact absurd hover (by decide)
  · rintro ⟨rs, hrs, hkept⟩
    have hfits := (bitmap_keptApart_iff findNextZeroArea_finds (by decide) (by decide +kernel)).mp ⟨rs, hrs,
      hkept⟩
    exact absurd hfits.large (by decide +kernel)

theorem allocations_kept_apart_mixed : (∃ rs,
    kvAllocations findNextZeroArea (2^20) [1, 4096, 1024, 1025] .bitmap =
      .ok rs ∧ KeptApart (2^20) .bitmap rs) ∧
    ∃ rs, kvAllocations findNextZeroArea (2^20) [1, 4096, 1024, 1025] .appendOnly = .ok rs ∧
      KeptApart (2^20) .appendOnly rs :=
  ⟨(allocations_kept_apart_iff findNextZeroArea .bitmap (2^20) [1, 4096, 1024, 1025] findNextZeroArea_finds
      (by decide) (by decide)).mpr ⟨by decide, by decide, by decide, by decide⟩,
    (allocations_kept_apart_iff findNextZeroArea .appendOnly (2^20) [1, 4096, 1024, 1025]
      findNextZeroArea_finds
      (by decide) (by decide)).mpr (.inl (by decide))⟩

end NVMeVirt
