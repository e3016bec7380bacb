import NVMeVirt.KvIter
import NVMeVirt.Lib.Paging

/-!
# Listing the keys of a table

Reads of one iterator until the end status: each reply is a page of records, and all of them together
list the keys that match. The cursor of a read is that of `Paging`; a page has room for 51 records.
-/

namespace NVMeVirt
set_option autoImplicit false
open Outcome LittleEndian Paging

variable {kv kv' : KvIterFtl} {c : KvIterContext} {cmd : NvmeKvIterCommand} {host buf : Nat → UInt8}

/-- The sixteen bytes of a key. -/
def MappingEntry.keyBytes (e : MappingEntry) : List UInt8 := (List.range 16).map (fun j => e.key.getD j 0)

/-- The slots in use whose first four key bytes have the bits of `keyPrefix` under `bitmask`. -/
def matchingSlots (kv : KvFtl) (keyPrefix bitmask : Nat) : List Nat :=
  (List.range kv.hashSlots).filter (fun slot => (kv.kvMappingTable slot).memOffset.isSome &&
    decide ((kv.kvMappingTable slot).keyWord &&& bitmask = keyPrefix &&& bitmask))

/-- A reply: the number of its records, then each key behind its length. -/
structure ListsKeys (reply : Nat → UInt8) (keys : List (List UInt8)) : Prop where
  count : value reply 4 0 = keys.length
  lengths : ∀ i < keys.length, value reply 4 (4 + 20 * i) = 16
  records : ∀ i key, keys[i]? = some key → ∀ j < 16, reply (8 + 20 * i + j) = key.getD j 0

/-- The bytes from `a` to the end of its page. -/
def pageRoom (a : Nat) : Nat := pageSize - a % pageSize

/-- The data pointers have room for the largest reply, in one page or in two. -/
structure HostBuffer (cmd : NvmeKvIterCommand) : Prop where
  room : 1024 ≤ pageRoom cmd.prp1 + pageRoom cmd.prp2
  apart : pageRoom cmd.prp1 < 1024 → cmd.prp1 / pageSize ≠ cmd.prp2 / pageSize

/-- Byte `a` of what a command has brought to the host. -/
def received (cmd : NvmeKvIterCommand) (host : Nat → UInt8) (a : Nat) : UInt8 :=
  host (if a < pageRoom cmd.prp1 then cmd.prp1 + a else cmd.prp2 + (a - pageRoom cmd.prp1))

theorem pageRoom_pos (a : Nat) : 0 < pageRoom a := Nat.sub_pos_of_lt (Nat.mod_lt a (by decide))

theorem performIoLoop_done (rw : NvmeRwCommand) (fuel : Nat) (p : PrpCursor) (offset : Nat) (mem : Memory) :
    performIoLoop 0 rw fuel p offset 0 mem = .ok mem := by
  cases fuel with
  | zero => exact if_pos rfl
  | succ fuel => exact if_pos rfl

theorem fromStorage_inside {mem : Memory} {src paddr m a : Nat} (ha : a < m) (hfit : src + a < 2^64) :
    (mem.fromStorage src paddr m).host (paddr + a) = mem.storage (src + a) := by
  unfold Memory.fromStorage
  dsimp only
  rw [if_pos ⟨Nat.le_add_right _ _, Nat.add_lt_add_left ha _⟩, Nat.add_sub_cancel_left, u64_eq hfit]

theorem fromStorage_outside {mem : Memory} {src paddr m a : Nat} (ha : a < paddr ∨ paddr + m ≤ a) :
    (mem.fromStorage src paddr m).host a = mem.host a := if_neg (by omega)

theorem performIoLoop_piece {p p' : PrpCursor} {fuel offset remaining paddr : Nat} {mem : Memory}
    (hpos : 0 < remaining) (hfit : offset + remaining < 2^64)
    (hprp : nextPrp mem.host (iterRwCommand cmd) p remaining = .ok (p', paddr)) :
    performIoLoop 0 (iterRwCommand cmd) (fuel + 1) p offset remaining mem =
      performIoLoop 0 (iterRwCommand cmd) fuel p' (offset + min remaining (pageRoom paddr))
        (remaining - min remaining (pageRoom paddr))
        (mem.fromStorage offset paddr (min remaining (pageRoom paddr))) := by
  have hmin : min remaining (pageRoom paddr) ≤ remaining := Nat.min_le_left _ _
  rw [performIoLoop, if_neg hpos.ne', hprp, ok_bind]
  dsimp only
  rw [pieceSize_eq, u64_eq (by omega), Nat.zero_add, u64_eq (show offset < 2^64 by omega)]
  rfl

/-- The bytes of the buffer up to the end of the first page go there, the others to the second page. -/
theorem iterCopy_received (buf host : Nat → UInt8) (hb : HostBuffer cmd) {n : Nat} (hpos : 0 < n)
    (hn : n ≤ 1024) : ∃ host', iterCopy cmd buf n host = .ok host' ∧ ∀ a < n, received cmd host' a = buf a := by
  have hroom := pageRoom_pos cmd.prp1
  have hfirst : ∀ h, nextPrp h (iterRwCommand cmd) .start n = .ok (⟨1, 0, none⟩, cmd.prp1) := fun _ => rfl
  obtain ⟨fuel, hfuel⟩ := Nat.exists_eq_add_of_le' hpos
  unfold iterCopy
  have hloop : performIoLoop 0 (iterRwCommand cmd) n = performIoLoop 0 (iterRwCommand cmd) (fuel + 1) := by
    rw [hfuel]
  rw [hloop, performIoLoop_piece hpos (by omega) (hfirst _)]
  rcases Nat.lt_or_ge (pageRoom cmd.prp1) n with hshort | hlong
  · have happart := hb.apart (by omega)
    have hsum := hb.room
    have hsecond : ∀ h, nextPrp h (iterRwCommand cmd) ⟨1, 0, none⟩ (n - pageRoom cmd.prp1) =
        .ok (⟨2, 0, none⟩, cmd.prp2) := by
      intro h
      unfold nextPrp pageSize
      dsimp only
      rw [if_neg (by omega), if_pos (by omega), if_neg (by omega)]
      rfl
    obtain ⟨fuel, rfl⟩ := Nat.exists_eq_add_of_le' (show 0 < fuel by omega)
    rw [Nat.min_eq_right hshort.le, performIoLoop_piece (by omega) (by omega) (hsecond _),
      Nat.min_eq_left (by omega), Nat.sub_self, performIoLoop_done, ok_bind]
    refine ⟨_, rfl, ?_⟩
    intro a ha
    unfold received
    split
    · rename_i hin
      rw [fromStorage_outside, fromStorage_inside hin (by omega), Nat.zero_add]
      unfold pageRoom pageSize at *
      omega
    · rw [fromStorage_inside (by omega) (by omega)]
      change buf _ = buf a
      congr 1
      omega
  · rw [Nat.min_eq_left hlong, Nat.sub_self, performIoLoop_done, ok_bind]
    refine ⟨_, rfl, ?_⟩
    intro a ha
    unfold received
    rw [if_pos (by omega), fromStorage_inside ha (by omega), Nat.zero_add]

def offers (kv : KvFtl) (c : KvIterContext) (slot : Nat) : Option (List UInt8) :=
  if c.Takes (kv.kvMappingTable slot) then some (kv.kvMappingTable slot).keyBytes else none

structure Recorded (buf : Nat → UInt8) (keys : List (List UInt8)) : Prop where
  lengths : ∀ i < keys.length, ∀ j < 4, buf (4 + 20 * i + j) = digit 16 j
  records : ∀ i key, keys[i]? = some key → ∀ j < 16, buf (8 + 20 * i + j) = key.getD j 0

theorem Recorded.nil (buf : Nat → UInt8) : Recorded buf [] :=
  ⟨fun _ hi => absurd hi (Nat.not_lt_zero _), fun _ _ h => nomatch h⟩

theorem keyBytes_getD (e : MappingEntry) {j : Nat} (hj : j < 16) : e.keyBytes.getD j 0 = e.key.getD j 0 := by
  unfold MappingEntry.keyBytes
  rw [List.getD_eq_getElem?_getD, List.getElem?_map, List.getElem?_range hj]
  rfl

theorem Recorded.put {keys : List (List UInt8)} (r : Recorded buf keys) (e : MappingEntry) :
    Recorded (writeRecord buf (4 + 20 * keys.length) e) (keys ++ [e.keyBytes]) := by
  have hold : ∀ a, a < 4 + 20 * keys.length → writeRecord buf (4 + 20 * keys.length) e a = buf a := by
    intro a ha
    unfold writeRecord
    rw [if_neg (by omega), if_neg (by omega)]
  constructor
  · intro i hi j hj
    rw [List.length_append, List.length_singleton] at hi
    rcases Nat.lt_or_ge i keys.length with hlt | hge
    · rw [hold _ (by omega)]
      exact r.lengths i hlt j hj
    · obtain rfl : i = keys.length := by omega
      unfold writeRecord
      rw [if_pos (by omega), Nat.add_sub_cancel_left]
  · intro i key hkey j hj
    rcases Nat.lt_or_ge i keys.length with hlt | hge
    · rw [hold _ (by omega)]
      rw [List.getElem?_append_left hlt] at hkey
      exact r.records i key hkey j hj
    · have hi := (List.getElem?_eq_some_iff.mp hkey).1
      rw [List.length_append, List.length_singleton] at hi
      obtain rfl : i = keys.length := by omega
      rw [List.getElem?_concat_length] at hkey
      obtain rfl := Option.some.inj hkey
      unfold writeRecord
      rw [if_neg (by omega), if_pos (by omega), keyBytes_getD e hj]
      congr 1
      omega

theorem Recorded.lists {keys : List (List UInt8)} (r : Recorded buf keys) (hn : keys.length < 2^32)
    {reply : Nat → UInt8} (hreply : ∀ a < 4 + 20 * keys.length, reply a = writeHeader buf keys.length a) :
    ListsKeys reply keys := by
  have hbuf : ∀ a, 4 ≤ a → a < 4 + 20 * keys.length → reply a = buf a := by
    intro a hlo hhi
    rw [hreply a hhi]
    exact if_neg (Nat.not_lt.mpr hlo)
  constructor
  · have hcount : value reply 4 0 = keys.length % 256^4 := by
      apply value_digits
      intro j hj
      rw [Nat.zero_add, hreply j (by omega)]
      exact if_pos hj
    rw [hcount]
    exact Nat.mod_eq_of_lt (by omega)
  · intro i hi
    have hlen : value reply 4 (4 + 20 * i) = 16 % 256^4 := by
      apply value_digits
      intro j hj
      rw [hbuf _ (by omega) (by omega)]
      exact r.lengths i hi j hj
    exact hlen.trans (by decide)
  · intro i key hkey j hj
    have hi := (List.getElem?_eq_some_iff.mp hkey).1
    rw [hbuf _ (by omega) (by omega)]
    exact r.records i key hkey j hj

/-- A scan under way: the buffer holds `keys`, and the offset and the count are theirs. -/
structure Scanning (s : IterScan) (keys : List (List UInt8)) : Prop where
  recorded : Recorded s.buf keys
  bufOffset : s.bufOffset = 4 + 20 * keys.length
  nrKeys : s.nrKeys = keys.length
  fits : keys.length ≤ 51

theorem Scanning.move {s : IterScan} {keys : List (List UInt8)} (k : Scanning s keys) (pos : Nat) :
    Scanning { s with pos := pos } keys := ⟨k.recorded, k.bufOffset, k.nrKeys, k.fits⟩

theorem Scanning.put {s : IterScan} {keys : List (List UInt8)} (k : Scanning s keys)
    (hroom : keys.length < 51) (e : MappingEntry) : Scanning (s.put e) (keys ++ [e.keyBytes]) := by
  have hlen : (keys ++ [e.keyBytes]).length = keys.length + 1 := by
    rw [List.length_append, List.length_singleton]
  unfold IterScan.put
  constructor
  · rw [k.bufOffset]
    exact k.recorded.put e
  · rw [hlen, k.bufOffset]
    ring
  · rw [hlen, k.nrKeys]
  · rw [hlen]
    exact hroom

section Scan

variable {kv : KvFtl}

theorem offers_some {slot : Nat} {key : List UInt8} :
    offers kv c slot = some key ↔
      c.Takes (kv.kvMappingTable slot) ∧ key = (kv.kvMappingTable slot).keyBytes := by
  unfold offers
  split
  · rename_i h
    exact ⟨fun he => ⟨h, (Option.some.inj he).symm⟩, fun he => congrArg some he.2.symm⟩
  · rename_i h
    exact ⟨fun he => (nomatch he), fun he => absurd he.1 h⟩

theorem offers_none {slot : Nat} : offers kv c slot = none ↔ ¬ c.Takes (kv.kvMappingTable slot) := by
  unfold offers
  split
  · rename_i h
    exact ⟨fun he => (nomatch he), fun he => absurd h he⟩
  · rename_i h
    exact ⟨fun _ => h, fun _ => rfl⟩

/-- What a scan from `s` has come to when it stops behind the page `r`. -/
structure Scanned (kv : KvFtl) (s s' : IterScan) (keys : List (List UInt8)) (r : List (List UInt8) × Nat) :
    Prop where
  scanning : Scanning s' (keys ++ r.1)
  pos : s'.pos = r.2
  atEnd : s'.atEnd = (s.atEnd || decide (s.pos < kv.hashSlots ∧ r.2 = kv.hashSlots))

theorem Scanning.stop {s : IterScan} {keys : List (List UInt8)} (k : Scanning s keys) :
    Scanned kv s s keys ([], s.pos) := by
  have hnot : ¬ (s.pos < kv.hashSlots ∧ s.pos = kv.hashSlots) := by omega
  refine ⟨?_, rfl, ?_⟩
  · rw [List.append_nil]
    exact k
  · rw [decide_eq_false hnot, Bool.or_false]

/-- The turn of the loop behind the test of the slot. -/
def nextSlot (kv : KvFtl) (c : KvIterContext) (fuel : Nat) (s : IterScan) : Except Fault IterScan :=
  if s.pos + 1 = kv.hashSlots then .ok { s with pos := s.pos + 1, atEnd := true }
  else scanSlots kv c fuel { s with pos := s.pos + 1 }

theorem scanSlots_end {fuel : Nat} {s : IterScan} (h : kv.hashSlots ≤ s.pos) :
    scanSlots kv c (fuel + 1) s = .ok s := if_pos h

theorem scanSlots_skip {fuel : Nat} {s : IterScan} (hpos : s.pos < kv.hashSlots)
    (h : ¬ c.Takes (kv.kvMappingTable s.pos)) : scanSlots kv c (fuel + 1) s = nextSlot kv c fuel s := by
  rw [scanSlots, if_neg (Nat.not_le.mpr hpos)]
  dsimp only
  rw [if_neg (fun hc => h hc.1), if_neg h]
  rfl

theorem scanSlots_full {fuel : Nat} {s : IterScan} (hpos : s.pos < kv.hashSlots)
    (h : c.Takes (kv.kvMappingTable s.pos)) (hfull : 1024 < s.bufOffset + 4 + 16) :
    scanSlots kv c (fuel + 1) s = .ok s := by
  rw [scanSlots, if_neg (Nat.not_le.mpr hpos)]
  exact if_pos ⟨h, hfull⟩

theorem scanSlots_take {fuel : Nat} {s : IterScan} (hpos : s.pos < kv.hashSlots)
    (h : c.Takes (kv.kvMappingTable s.pos)) (hroom : s.bufOffset + 4 + 16 ≤ 1024) :
    scanSlots kv c (fuel + 1) s = nextSlot kv c fuel (s.put (kv.kvMappingTable s.pos)) := by
  rw [scanSlots, if_neg (Nat.not_le.mpr hpos)]
  dsimp only
  rw [if_neg (fun hc => absurd hc.2 (Nat.not_lt.mpr hroom)), if_pos h]
  rfl

/-- The loop fills the buffer with a page. -/
theorem scanSlots_page (fuel : Nat) (s : IterScan) (keys : List (List UInt8)) (k : Scanning s keys)
    (hpos : s.pos ≤ kv.hashSlots) (hfuel : kv.hashSlots ≤ s.pos + fuel) :
    ∃ s', scanSlots kv c (fuel + 1) s = .ok s' ∧
      Scanned kv s s' keys (page (offers kv c) kv.hashSlots fuel (51 - keys.length) s.pos) := by
  induction fuel generalizing s keys with
  | zero => exact ⟨s, scanSlots_end hfuel, k.stop⟩
  | succ fuel ih =>
    -- the rest of the loop behind a slot that has been dealt with
    have hnext : ∀ s₁ keys₁, Scanning s₁ keys₁ → s₁.pos = s.pos → s.pos < kv.hashSlots →
        ∃ s', nextSlot kv c (fuel + 1) s₁ = .ok s' ∧ Scanned kv s₁ s' keys₁
          (page (offers kv c) kv.hashSlots fuel (51 - keys₁.length) (s.pos + 1)) := by
      intro s₁ keys₁ k₁ hs₁ hlt
      unfold nextSlot
      split
      · rename_i hlast
        rw [page_end (by omega)]
        refine ⟨_, rfl, ?_, by rw [hs₁], ?_⟩
        · rw [List.append_nil]
          exact ⟨k₁.recorded, k₁.bufOffset, k₁.nrKeys, k₁.fits⟩
        · rw [decide_eq_true ⟨by omega, by omega⟩, Bool.or_true]
      · rename_i hmore
        obtain ⟨s', hs', hscan⟩ := ih { s₁ with pos := s₁.pos + 1 } keys₁ (k₁.move _)
          (show s₁.pos + 1 ≤ _ by omega) (show _ ≤ s₁.pos + 1 + fuel by omega)
        dsimp only at hscan
        rw [hs₁] at hscan
        refine ⟨s', hs', hscan.scanning, hscan.pos, ?_⟩
        rw [hscan.atEnd]
        congr 2
        apply propext
        dsimp only
        constructor
        · exact fun h => ⟨by omega, h.2⟩
        · exact fun h => ⟨by omega, h.2⟩
    rcases Nat.lt_or_ge s.pos kv.hashSlots with hlt | hge
    · cases hslot : offers kv c s.pos with
      | none =>
        rw [scanSlots_skip hlt (offers_none.mp hslot), page_skip hlt hslot]
        exact hnext s keys k rfl hlt
      | some key =>
        obtain ⟨htakes, rfl⟩ := offers_some.mp hslot
        have hoff := k.bufOffset
        rcases Nat.lt_or_ge keys.length 51 with hroom | hfull
        · have hone : 51 - keys.length = 51 - (keys.length + 1) + 1 := by omega
          rw [scanSlots_take hlt htakes (by omega), hone, page_take hlt hslot]
          obtain ⟨s', hs', hscan⟩ := hnext _ _ (k.put hroom (kv.kvMappingTable s.pos)) rfl hlt
          rw [List.length_append, List.length_singleton] at hscan
          refine ⟨s', hs', ?_, hscan.pos, hscan.atEnd⟩
          have hkeys := hscan.scanning
          rwa [List.append_assoc] at hkeys
        · have hnone : 51 - keys.length = 0 := by omega
          rw [scanSlots_full hlt htakes (by omega), hnone, page_full hlt hslot]
          exact ⟨s, rfl, k.stop⟩
    · rw [page_end hge]
      exact ⟨s, scanSlots_end hge, k.stop⟩

end Scan

/-- What a read answers when it brings `keys`. -/
structure Replies (cmd : NvmeKvIterCommand) (o : KvIterOutcome) (keys : List (List UInt8)) : Prop where
  lists : ListsKeys (received cmd o.host) keys
  length : o.result.result0 = 4 + 20 * keys.length
  length_le : o.result.result0 ≤ 1024

/-- The iterator `h` is `c`, and stands at `pos`. -/
def OpenAt (kv : KvIterFtl) (h : Nat) (c : KvIterContext) (pos : Nat) : Prop :=
  ∃ buf, kv.iterHandle h = .context { c with buf := buf, currentPos := pos }

/-- A read brings the page from the position of its iterator on, and leaves the iterator behind it. -/
theorem kvIterRead_page {pos : Nat} (host : Nat → UInt8) (hb : HostBuffer cmd) (h16 : cmd.iterHandle ≤ 16)
    (hopen : OpenAt kv cmd.iterHandle c pos) (hpos : pos ≤ kv.hashSlots) (r : List (List UInt8) × Nat)
    (hr : r = page (offers kv.toKvFtl c) kv.hashSlots kv.hashSlots 51 pos) :
    ∃ o, kvIterRead kv cmd host = .ok o ∧ Replies cmd o r.1 ∧ o.kv.toKvFtl = kv.toKvFtl ∧
      OpenAt o.kv cmd.iterHandle c r.2 ∧
      o.result.status = if pos < kv.hashSlots ∧ r.2 = kv.hashSlots then kvIterEnd else kvSuccess := by
  obtain ⟨buf, hctx⟩ := hopen
  have k : Scanning ⟨pos, 4, 0, false, buf⟩ [] := ⟨.nil buf, rfl, rfl, Nat.zero_le _⟩
  obtain ⟨s, hs, hscan⟩ := scanSlots_page (c := { c with buf := buf, currentPos := pos }) kv.hashSlots _ _ k
    hpos (Nat.le_add_left _ _)
  change Scanned kv.toKvFtl _ _ [] (page (offers kv.toKvFtl c) kv.hashSlots kv.hashSlots 51 pos) at hscan
  rw [← hr] at hscan
  obtain ⟨hrec, hoff, hnr, hfits⟩ := hscan.scanning
  rw [List.nil_append] at hrec hoff hnr hfits
  have hlen : s.bufOffset ≤ 1024 := by omega
  obtain ⟨host', hcopy, hrecv⟩ := iterCopy_received (writeHeader s.buf s.nrKeys) host hb
    (show 0 < s.bufOffset by omega) hlen
  refine ⟨⟨kv.setHandle cmd.iterHandle (.context { c with
      buf := writeHeader s.buf s.nrKeys
      currentPos := s.pos }), host', ⟨s.bufOffset, if s.atEnd then kvIterEnd else kvSuccess⟩⟩,
    ?_, ⟨?_, hoff, hlen⟩, rfl, ⟨writeHeader s.buf s.nrKeys, ?_⟩, ?_⟩
  · rw [kvIterRead_context h16 hctx]
    unfold readContext
    rw [hs, ok_bind]
    dsimp only
    rw [hcopy]
    rfl
  · apply hrec.lists (by omega)
    intro a ha
    rw [hrecv a (by omega), hnr]
  · rw [KvIterFtl.setHandle_same, hscan.pos]
  · rw [hscan.atEnd, Bool.false_or]
    by_cases hend : pos < kv.hashSlots ∧ r.2 = kv.hashSlots
    · rw [if_pos hend, decide_eq_true hend]
      rfl
    · rw [if_neg hend, decide_eq_false hend]
      rfl

/-- A read, as the worker comes to it. -/
structure IterRead where
  cmd : NvmeKvIterCommand
  host : Nat → UInt8

/-- Reads until the end status, with the replies. What runs before read `k` does `between k` to the table. -/
def readToEnd (reads : Nat → IterRead) (between : Nat → KvIterFtl → KvIterFtl) :
    Nat → Nat → KvIterFtl → Except Fault (List (NvmeKvIterCommand × KvIterOutcome))
  | 0, _, _ => .error .outOfFuel
  | fuel + 1, k, kv => do
    let o ← kvIterRead (between k kv) (reads k).cmd (reads k).host
    if o.result.status = kvIterEnd then return [((reads k).cmd, o)]
    else
      let replies ← readToEnd reads between fuel (k + 1) o.kv
      return ((reads k).cmd, o) :: replies

/-- Neither the mapping table nor the iterator `h` has changed. -/
structure Untouched (h : Nat) (kv kv' : KvIterFtl) : Prop where
  table : kv'.toKvFtl = kv.toKvFtl
  handle : kv'.iterHandle h = kv.iterHandle h

theorem OpenAt.untouched {h pos : Nat} (hopen : OpenAt kv h c pos) (hu : Untouched h kv kv') :
    OpenAt kv' h c pos := by
  obtain ⟨buf, hctx⟩ := hopen
  exact ⟨buf, hu.handle.trans hctx⟩

/-- The replies are those of the pages, and the last one has the end status. -/
structure Listing (replies : List (NvmeKvIterCommand × KvIterOutcome)) (pages : List (List (List UInt8))) :
    Prop where
  each : List.Forall₂ (fun r keys => Replies r.1 r.2 keys) replies pages
  ended : ∃ init last, replies = init ++ [last] ∧ last.2.result.status = kvIterEnd ∧
    ∀ r ∈ init, r.2.result.status = kvSuccess

theorem Listing.last {cmd : NvmeKvIterCommand} {o : KvIterOutcome} {keys : List (List UInt8)}
    (hr : Replies cmd o keys) (hs : o.result.status = kvIterEnd) : Listing [(cmd, o)] [keys] :=
  ⟨.cons hr .nil, [], _, rfl, hs, fun _ h => nomatch h⟩

theorem Listing.cons {cmd : NvmeKvIterCommand} {o : KvIterOutcome} {keys : List (List UInt8)}
    {replies : List (NvmeKvIterCommand × KvIterOutcome)} {pages : List (List (List UInt8))}
    (hr : Replies cmd o keys) (hs : o.result.status = kvSuccess) (h : Listing replies pages) :
    Listing ((cmd, o) :: replies) (keys :: pages) := by
  obtain ⟨init, last, rfl, hend, hinit⟩ := h.ended
  refine ⟨.cons hr h.each, (cmd, o) :: init, last, rfl, hend, ?_⟩
  intro r hmem
  rcases List.mem_cons.mp hmem with rfl | hmem
  · exact hs
  · exact hinit r hmem

theorem readToEnd_pages {h : Nat} {reads : Nat → IterRead} {between : Nat → KvIterFtl → KvIterFtl}
    (h16 : h ≤ 16) (hreads : ∀ k, (reads k).cmd.iterHandle = h ∧ HostBuffer (reads k).cmd)
    (hbetween : ∀ k kv, Untouched h kv (between k kv)) (fuel k pos : Nat) (kv : KvIterFtl)
    (hopen : OpenAt kv h c pos) (hpos : pos < kv.hashSlots) (hfuel : kv.hashSlots ≤ pos + fuel) :
    ∃ replies, readToEnd reads between fuel k kv = .ok replies ∧
      Listing replies (pages (offers kv.toKvFtl c) kv.hashSlots 51 fuel pos) := by
  induction fuel generalizing k pos kv with
  | zero => omega
  | succ fuel ih =>
    obtain ⟨hhandle, hb⟩ := hreads k
    have hu := hbetween k kv
    have hopen' := hopen.untouched hu
    rw [← hhandle] at h16 hopen'
    have hslots : (between k kv).hashSlots = kv.hashSlots := congrArg KvFtl.hashSlots hu.table
    obtain ⟨o, ho, hrep, htable, hnext, hstatus⟩ := kvIterRead_page (reads k).host hb h16 hopen'
      (by omega) _ rfl
    rw [hu.table] at hrep hstatus hnext
    have hend : (page (offers kv.toKvFtl c) kv.hashSlots kv.hashSlots 51 pos).2 ≤ kv.hashSlots :=
      (page_stop kv.hashSlots 51 pos hpos.le).2
    rw [readToEnd, ho, ok_bind, pages]
    dsimp only
    by_cases hlast : (page (offers kv.toKvFtl c) kv.hashSlots kv.hashSlots 51 pos).2 = kv.hashSlots
    · rw [if_pos ⟨hpos, hlast⟩] at hstatus
      rw [if_pos hstatus, if_pos hlast.ge]
      exact ⟨_, rfl, .last hrep hstatus⟩
    · rw [if_neg (fun hc => hlast hc.2)] at hstatus
      have hlt : pos < (page (offers kv.toKvFtl c) kv.hashSlots kv.hashSlots 51 pos).2 :=
        page_lt (by omega) (by decide) hpos
      have htable' : o.kv.toKvFtl = kv.toKvFtl := htable.trans hu.table
      have hslots' : o.kv.hashSlots = kv.hashSlots := congrArg KvFtl.hashSlots htable'
      rw [hhandle] at hnext
      obtain ⟨replies, hrest, hlisting⟩ := ih (k + 1) _ o.kv hnext (by omega) (by omega)
      rw [htable'] at hlisting
      rw [if_neg (by rw [hstatus]; decide), if_neg (by omega), hrest, ok_bind]
      exact ⟨_, rfl, hlisting.cons hrep hstatus⟩

theorem pending_offers (kv : KvFtl) (c : KvIterContext) : pending (offers kv c) kv.hashSlots 0 =
    (matchingSlots kv c.keyPrefix c.bitmask).map (fun slot => (kv.kvMappingTable slot).keyBytes) := by
  unfold pending matchingSlots
  rw [Nat.sub_zero, ← List.range_eq_range']
  induction List.range kv.hashSlots with
  | nil => rfl
  | cons slot slots ih =>
    rw [List.filterMap_cons, List.filter_cons, ih]
    unfold offers KvIterContext.Takes
    by_cases huse : (kv.kvMappingTable slot).memOffset = none
    · simp [huse]
    · by_cases hbits : (kv.kvMappingTable slot).keyWord &&& c.bitmask = c.keyPrefix &&& c.bitmask
      · simp [huse, hbits, Option.isSome_iff_ne_none]
      · simp [huse, hbits]

theorem kvIterOpen_openAt {h : Nat} (op : NvmeKvIterCommand) (mem : Nat → UInt8)
    (hfree : freeIterHandle kv = some h) :
    OpenAt (kvIterOpen kv op mem).1 h ⟨op.iterVal, op.iterBitmask, mem, 0⟩ 0 ∧
      (kvIterOpen kv op mem).1.toKvFtl = kv.toKvFtl := by
  unfold kvIterOpen
  rw [hfree]
  exact ⟨⟨mem, KvIterFtl.setHandle_same _ _ _⟩, rfl⟩

/-- Reading a new iterator to the end lists the keys that match, each once and in the order of the slots. -/
theorem listing_complete {h : Nat} {op : NvmeKvIterCommand} {mem : Nat → UInt8} {reads : Nat → IterRead}
    {between : Nat → KvIterFtl → KvIterFtl} (hslots : 0 < kv.hashSlots) (hfree : freeIterHandle kv = some h)
    (hreads : ∀ k, (reads k).cmd.iterHandle = h ∧ HostBuffer (reads k).cmd)
    (hbetween : ∀ k kv, Untouched h kv (between k kv)) :
    ∃ replies pages, readToEnd reads between kv.hashSlots 0 (kvIterOpen kv op mem).1 = .ok replies ∧
      Listing replies pages ∧ pages.flatten = (matchingSlots kv.toKvFtl op.iterVal op.iterBitmask).map
        (fun slot => (kv.kvMappingTable slot).keyBytes) := by
  obtain ⟨hopen, htable⟩ := kvIterOpen_openAt op mem hfree
  have hcount : (kvIterOpen kv op mem).1.hashSlots = kv.hashSlots := congrArg KvFtl.hashSlots htable
  obtain ⟨replies, hreplies, hlisting⟩ := readToEnd_pages (freeIterHandle_some hfree).2.1 hreads hbetween
    kv.hashSlots 0 0 _ hopen (by omega) (by omega)
  rw [htable] at hlisting
  refine ⟨replies, _, hreplies, hlisting, ?_⟩
  rw [pages_flatten (by decide) hslots (by omega), pending_offers]

/-- Two keys and a free slot between them. -/
def threeSlots : KvIterFtl := kvInitIter
  { hashSlots := 3
    hashSlots_int := by decide
    kvMappingTable := fun slot =>
      if slot = 1 then .blank else ⟨List.replicate 18 (UInt8.ofNat (65 + slot)), some 0, 4, none⟩ } false

/-- Opens an iterator for all keys. -/
def openAll : NvmeKvIterCommand := ⟨nvmeCmdKvIterReq, 0, 0, 0, iterOptionOpen, 0, 0⟩

/-- Reads the iterator 1 into two pages, with 16 bytes in the first. -/
def readInTwo : IterRead := ⟨⟨nvmeCmdKvIterRead, 0x1ff0, 0x3000, 1, 0, 0, 0⟩, fun _ => 0⟩

theorem readInTwo_buffer : readInTwo.cmd.iterHandle = 1 ∧ HostBuffer readInTwo.cmd := by
  refine ⟨rfl, ?_⟩
  constructor <;> decide

theorem listing_complete_threeSlots : ∃ replies pages,
    readToEnd (fun _ => readInTwo) (fun _ kv => kv) 3 0 (kvIterOpen threeSlots openAll (fun _ => 0)).1 =
      .ok replies ∧ Listing replies pages ∧ pages.flatten = [List.replicate 16 65, List.replicate 16 67] :=
  listing_complete (show 0 < threeSlots.hashSlots by decide)
    (show freeIterHandle threeSlots = some 1 from rfl) (fun _ => readInTwo_buffer) (fun _ _ => ⟨rfl, rfl⟩)

end NVMeVirt
