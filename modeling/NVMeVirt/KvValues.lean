import NVMeVirt.KvMap

/-!
# The values of the keys

The allocator packs values end to end and a later store of a key goes where the first one
went, whatever its length. Values are isolated as long as no store runs into the bytes of
another key.
-/

namespace NVMeVirt
set_option autoImplicit false
open Outcome Links Gather

/-- The bytes that the PRP entries of a store name. -/
def KvCall.value (call : KvCall) : Except Fault (List UInt8) := do
  let length := cmdValueLength call.cmd
  let ps ← prpPieces call.host (kvRwCommand call.cmd) length .start 0 length
  return (List.range length).map (loadAll id call.host ps (fun _ => 0))

/-- The host memory after `v` went to where the PRP entries of a retrieve lead. -/
def KvCall.receives (call : KvCall) (v : List UInt8) : Except Fault (Nat → UInt8) := do
  let mem ← kvCopy call.cmd 0 v.length ⟨call.host, fun i => v.getD i 0⟩
  return mem.host

variable {cmd : NvmeRwCommand} {mem mem' : Memory}

/-- A piece of a read shows the bytes of the storage, wherever they are. -/
theorem transfer_read (hw : ¬ WritesData cmd) {storage' : Nat → UInt8} {src src' paddr n : Nat}
    (hsame : ∀ i, i < n → mem.storage (u64 (src + i)) = storage' (u64 (src' + i))) :
    transfer cmd (u64 src) paddr n mem =
      { transfer cmd (u64 src') paddr n { mem with storage := storage' } with storage := mem.storage } := by
  unfold transfer
  rw [if_neg hw, if_neg hw]
  split
  · unfold Memory.fromStorage
    simp only
    congr 1
    funext a
    split
    · rename_i ha
      have hadd : ∀ s : Nat, u64 (u64 s + (a - paddr)) = u64 (s + (a - paddr)) := by
        intro s
        unfold u64
        omega
      rw [hadd, hadd]
      exact hsame (a - paddr) (by omega)
    · rfl
  · rfl

/-- A read gives the host the same wherever its bytes lie in the storage. -/
theorem performIoLoop_read (hw : ¬ WritesData cmd) {storage' : Nat → UInt8}
    {start start' base base' done fuel remaining : Nat} {c : PrpCursor}
    (hsame : ∀ i, done ≤ i → i < done + remaining →
      mem.storage (u64 (start + base + i)) = storage' (u64 (start' + base' + i))) :
    performIoLoop start cmd fuel c (u64 (base + done)) remaining mem =
      (do
        let m ← performIoLoop start' cmd fuel c (u64 (base' + done)) remaining { mem with storage := storage' }
        return { m with storage := mem.storage }) := by
  induction fuel generalizing c done remaining mem with
  | zero =>
    rw [performIoLoop, performIoLoop]
    split <;> rfl
  | succ fuel ih =>
    rw [performIoLoop, performIoLoop]
    split
    · rfl
    · simp only
      cases nextPrp mem.host cmd c remaining with
      | error e => rfl
      | ok r =>
        obtain ⟨c', paddr⟩ := r
        rw [ok_bind, ok_bind]
        have hle := pieceSize_le paddr remaining
        have haddr : ∀ s b : Nat, u64 (s + u64 (b + done)) = u64 (s + b + done) := by
          intro s b
          unfold u64
          omega
        have hnext : ∀ b : Nat, u64 (u64 (b + done) + pieceSize paddr remaining) =
            u64 (b + (done + pieceSize paddr remaining)) := by
          intro b
          unfold u64
          omega
        have hpiece : ∀ i, i < pieceSize paddr remaining →
            mem.storage (u64 (start + base + done + i)) = storage' (u64 (start' + base' + done + i)) := by
          intro i hi
          rw [Nat.add_assoc (start + base), Nat.add_assoc (start' + base')]
          exact hsame (done + i) (by omega) (by omega)
        simp only [haddr, hnext]
        generalize hm : transfer cmd (u64 (start + base + done)) paddr (pieceSize paddr remaining) mem = m
        have hstorage : m.storage = mem.storage := hm ▸ transfer_storage hw
        have hother : { m with storage := storage' } = transfer cmd (u64 (start' + base' + done)) paddr
            (pieceSize paddr remaining) { mem with storage := storage' } := by
          have hback : (transfer cmd (u64 (start' + base' + done)) paddr (pieceSize paddr remaining)
            { mem with storage := storage' }).storage = storage' := transfer_storage hw
          rw [← hm, transfer_read hw hpiece]
          generalize transfer cmd (u64 (start' + base' + done)) paddr (pieceSize paddr remaining)
            { mem with storage := storage' } = m' at hback ⊢
          cases hback
          rfl
        have htail : ∀ i, done + pieceSize paddr remaining ≤ i →
            i < done + pieceSize paddr remaining + (remaining - pieceSize paddr remaining) →
            m.storage (u64 (start + base + i)) = storage' (u64 (start' + base' + i)) := by
          intro i h₁ h₂
          rw [hstorage]
          exact hsame i (by omega) (by omega)
        rw [ih htail, hother, hstorage]

variable {storageSize n : Nat} {calls : List KvCall} {call : KvCall} {st st' : KvState} {found : Option Nat}

theorem kvRwCommand_writes {cmd : NvmeKvCommand} :
    WritesData (kvRwCommand cmd) ↔ cmd.opcode = nvmeCmdKvStore := by
  unfold WritesData kvRwCommand
  simp only
  split
  · rename_i h
    exact iff_of_true (.inl rfl) h
  · rename_i h
    exact iff_of_false (fun hw => hw.elim (fun hw => nomatch (show nvmeCmdRead = nvmeCmdWrite from hw))
      (fun hw => nomatch (show nvmeCmdRead = nvmeCmdZoneAppend from hw))) h

/-- A store puts its value at `offset` and leaves the other bytes alone. -/
theorem kvCopy_store (hop : call.cmd.opcode = nvmeCmdKvStore)
    {offset : Nat} {storage : Nat → UInt8} {mem' : Memory} (hoff : offset < 2^64)
    (h : kvCopy call.cmd offset (cmdValueLength call.cmd) ⟨call.host, storage⟩ = .ok mem') :
    ∃ v, call.value = .ok v ∧ v.length = cmdValueLength call.cmd ∧ ∀ a, mem'.storage a =
      if behind offset a < v.length then v.getD (behind offset a) 0 else storage a := by
  have hlen : cmdValueLength call.cmd < 2^32 := Nat.mod_lt _ (by decide)
  unfold kvCopy at h
  rw [show offset = u64 (offset + 0) by unfold u64; omega] at h
  obtain ⟨ps, hps, hmem⟩ := performIoLoop_write (kvRwCommand_writes.mpr hop) (by omega) h
  have hlaid : Laid 0 ps (cmdValueLength call.cmd) := by
    have := prpPieces_laid hps
    rwa [Nat.zero_add] at this
  refine ⟨(List.range (cmdValueLength call.cmd)).map (loadAll id call.host ps (fun _ => 0)), ?_, ?_, ?_⟩
  · unfold KvCall.value
    simp only
    rw [hps, ok_bind]
    rfl
  · rw [List.length_map, List.length_range]
  · intro a
    rw [hmem]
    simp only [List.length_map, List.length_range, Nat.zero_add]
    rw [loadAll_eq hlaid (fun _ => 0)]
    split
    · rename_i hin
      rw [List.getD_eq_getElem?_getD, List.getElem?_map, List.getElem?_range hin]
      rfl
    · rfl

/-- A retrieve hands over what the storage holds from `offset` on. -/
theorem kvCopy_retrieve (hop : call.cmd.opcode = nvmeCmdKvRetrieve) {offset : Nat} {storage : Nat → UInt8}
    {v : List UInt8} (hoff : offset < 2^64) (hfit : offset + v.length ≤ 2^64)
    (hv : ∀ i, i < v.length → storage (offset + i) = v.getD i 0) :
    kvCopy call.cmd offset v.length ⟨call.host, storage⟩ =
      (do let host ← call.receives v; return ⟨host, storage⟩) := by
  have hread : ¬ WritesData (kvRwCommand call.cmd) := by
    rw [kvRwCommand_writes, hop]
    decide
  have hoff' : u64 (offset + 0) = offset := by
    unfold u64
    omega
  have hzero : u64 (0 + 0) = 0 := rfl
  have hloop : performIoLoop 0 (kvRwCommand call.cmd) v.length .start (u64 (offset + 0)) v.length
      ⟨call.host, storage⟩ = (do
        let m ← performIoLoop 0 (kvRwCommand call.cmd) v.length .start (u64 (0 + 0)) v.length
          ⟨call.host, fun i => v.getD i 0⟩
        return { m with storage := storage }) := by
    apply performIoLoop_read hread
    intro i _ hi
    have h₁ : u64 (0 + offset + i) = offset + i := by
      unfold u64
      omega
    have h₂ : u64 (0 + 0 + i) = i := by
      unfold u64
      omega
    rw [h₁, h₂]
    exact hv i (by omega)
  rw [hoff', hzero] at hloop
  unfold KvCall.receives kvCopy
  rw [hloop]
  cases performIoLoop 0 (kvRwCommand call.cmd) v.length .start 0 v.length ⟨call.host, fun i => v.getD i 0⟩ with
  | error e => rfl
  | ok m => rfl

def KvFtl.extent (kv : KvFtl) (slot : Nat) : Nat × Nat :=
  ((kv.kvMappingTable slot).memOffset.getD 0, (kv.kvMappingTable slot).length)

/-- Where a store puts its data: to the place of the value before, or to the allocator's. -/
def storeOffset (st : KvState) (cmd : NvmeKvCommand) : Option Nat → Nat
  | none => (allocateMemOffset st.allocator cmd).2
  | some slot => (st.ftl.extent slot).1

/-- The table after a store, whether the key is new or not. -/
structure KvFtl.Puts (kv kv' : KvFtl) (n : Nat) (key : List UInt8)
    (slot : Nat) (extent : Nat × Nat) : Prop where
  occupied : ∀ s, kv'.Occupied s ↔ kv.Occupied s ∨ s = slot
  keyAt : kv'.keyAt n slot = key
  extent_eq : kv'.extent slot = extent
  other : ∀ s, s ≠ slot → kv'.keyAt n s = kv.keyAt n s ∧ kv'.extent s = kv.extent s
  fresh : ∀ s, kv.Occupied s → s ≠ slot → kv.keyAt n s ≠ key

variable {kv kv' : KvFtl} {key : List UInt8}

theorem KvFtl.Inserted.puts {valOffset length slot : Nat} (hi : kv.Inserted kv' key valOffset length slot)
    (hlen : key.length = n) (hnew : ¬ kv.Holds n key) : kv.Puts kv' n key slot (valOffset, length) where
  occupied := fun _ => hi.occupied
  keyAt := hlen ▸ hi.keyAt_slot
  extent_eq := by
    unfold KvFtl.extent
    rw [hi.filled]
    rfl
  other := by
    intro s hs
    obtain ⟨_, hoff, hlength⟩ := hi.same hs
    refine ⟨hi.keyAt_other hs, ?_⟩
    unfold KvFtl.extent
    rw [hoff, hlength]
  fresh := fun s hs _ hkey => hnew ⟨s, hs, hkey⟩

theorem KvFtl.Mapped.puts_length {slot length : Nat} (hm : kv.Mapped n) (hocc : kv.Occupied slot) :
    kv.Puts (kv.setEntry slot { kv.kvMappingTable slot with length := length }) n (kv.keyAt n slot) slot
      ((kv.extent slot).1, length) where
  occupied := by
    intro s
    rw [(kv.sameChains_setLength slot length).occupied]
    exact ⟨.inl, fun h => h.elim id (fun heq => heq ▸ hocc)⟩
  keyAt := (kv.sameChains_setLength slot length).keyAt_eq n slot
  extent_eq := by
    unfold KvFtl.extent
    rw [KvFtl.setEntry_self]
  other := by
    intro s hs
    refine ⟨(kv.sameChains_setLength slot length).keyAt_eq n s, ?_⟩
    unfold KvFtl.extent
    rw [KvFtl.setEntry_of_ne hs]
  fresh := fun _ hs hne hkey => hne (hm.unique hs hocc hkey)

theorem KvFtl.Mapped.puts_same {slot : Nat} (hm : kv.Mapped n) (hocc : kv.Occupied slot) :
    kv.Puts kv n (kv.keyAt n slot) slot (kv.extent slot) where
  occupied := fun _ => ⟨.inl, fun h => h.elim id (fun heq => heq ▸ hocc)⟩
  keyAt := rfl
  extent_eq := rfl
  other := fun _ _ => ⟨rfl, rfl⟩
  fresh := fun _ hs hne hkey => hne (hm.unique hs hocc hkey)

/-- An update with another length changes the length in the table. -/
def LengthKept (entry : Nat × Nat) (length : Nat) : Prop :=
  length = entry.2 ∨ length ≤ smallLength ∧ entry.2 ≤ smallLength

instance (entry : Nat × Nat) (length : Nat) : Decidable (LengthKept entry length) :=
  inferInstanceAs (Decidable (_ ∨ _ ∧ _))

/-- What a store leaves: the value at its place, the table with the key in a slot. -/
structure StoreDone (storageSize n : Nat) (st st' : KvState) (call : KvCall) (found : Option Nat) (slot : Nat)
    (v : List UInt8) : Prop where
  value : call.value = .ok v
  length_eq : v.length = cmdValueLength call.cmd
  slot_eq : ∀ t, found = some t → slot = t
  puts : st.ftl.Puts st'.ftl n call.key slot (storeOffset st call.cmd found, v.length)
  storage : ∀ a, st'.mem.storage a = if behind (storeOffset st call.cmd found) a < v.length
    then v.getD (behind (storeOffset st call.cmd found) a) 0 else st.mem.storage a

theorem KvFtl.Mapped.perform_store (hm : st.ftl.Mapped n) (hop : call.cmd.opcode = nvmeCmdKvStore)
    (hkey : cmdKey call.cmd = .ok call.key) (hlen : call.key.length = n)
    (hr : searchKey st.ftl call.cmd = .ok found)
    (hf : st.ftl.Finds call.key (st.ftl.hashSlot call.key) found)
    (hkept : ∀ t, found = some t → LengthKept (st.ftl.extent t) (cmdValueLength call.cmd))
    (hoff : storeOffset st call.cmd found < 2^64) {res : KvResult}
    (h : st.perform storageSize call = .ok (st', res)) :
    ∃ slot v, StoreDone storageSize n st st' call found slot v := by
  unfold KvState.perform doPerformKvIo at h
  rw [KvState.withHost_ftl, getMappingEntry_eq hr, ok_bind, if_pos hop] at h
  unfold performKvStore at h
  cases found with
  | none =>
    obtain ⟨mem', hcopy, h⟩ := bind_eq_ok.mp h
    obtain ⟨ftl, hnew, h⟩ := bind_eq_ok.mp h
    cases h
    obtain ⟨v, hv, hvlen, hstorage⟩ := kvCopy_store hop hoff hcopy
    obtain ⟨_, slot, hi⟩ := hm.toSound.newMappingEntry hkey hnew
    have hnotin : ¬ st.ftl.Holds n call.key := fun hh => (hf.holds_iff hm hlen).mpr hh rfl
    exact ⟨slot, v, hv, hvlen, (fun _ h => nomatch h), hvlen ▸ hi.puts hlen hnotin, hstorage⟩
  | some t =>
    obtain ⟨hocc, hkeyt⟩ := (hf.iff_of_mapped hm hlen t).mp rfl
    obtain ⟨offset, hoffset⟩ := Option.ne_none_iff_exists'.mp hocc.2
    have hentry : (foundEntry st.ftl call.cmd (some t)).memOffset = some offset := hoffset
    have hplace : storeOffset st call.cmd (some t) = offset := by
      simp only [storeOffset, KvFtl.extent, hoffset, Option.getD_some]
    rw [hentry] at h
    obtain ⟨mem', hcopy, h⟩ := bind_eq_ok.mp h
    obtain ⟨ftl, hftl, h⟩ := bind_eq_ok.mp h
    cases h
    obtain ⟨v, hv, hvlen, hstorage⟩ := kvCopy_store hop (hplace ▸ hoff) hcopy
    refine ⟨t, v, hv, hvlen, (fun _ h => Option.some.inj h), ?_, by rw [hplace]; exact hstorage⟩
    have hstart : (st.ftl.extent t).1 = offset := hplace
    rw [← hkeyt, hplace, hvlen]
    unfold updateLength at hftl
    split at hftl
    · unfold updateMappingEntry at hftl
      rw [KvState.withHost_ftl, hr, ok_bind] at hftl
      cases hftl
      rw [← hstart]
      exact hm.puts_length hocc
    · -- the lengths are equal, or the condition on them fails
      rename_i hsame
      cases hftl
      have hlength : cmdValueLength call.cmd = (st.ftl.extent t).2 := by
        by_contra hne
        exact hsame ⟨hne, (hkept t rfl).resolve_left hne⟩
      have hputs := hm.puts_same hocc
      rw [show st.ftl.extent t = (offset, cmdValueLength call.cmd) from Prod.ext hstart hlength.symm] at hputs
      exact hputs

/-- The condition on a store. Its length can be recorded, its data ends within the storage area,
and the bytes that it writes are no other key's. -/
structure KeepsApart (storageSize : Nat) (st : KvState) (cmd : NvmeKvCommand) (found : Option Nat) : Prop where
  length : ∀ t, found = some t → LengthKept (st.ftl.extent t) (cmdValueLength cmd)
  fits : storeOffset st cmd found + cmdValueLength cmd ≤ storageSize
  apart : ∀ s, st.ftl.Occupied s → found ≠ some s → ∀ a,
    ¬ (Ranges.Within (storeOffset st cmd found, cmdValueLength cmd) a ∧ Ranges.Within (st.ftl.extent s) a)

structure Holding (storageSize : Nat) (st : KvState) (slot : Nat) (call : KvCall) (v : List UInt8) : Prop where
  value : call.value = .ok v
  length_eq : (st.ftl.extent slot).2 = v.length
  fits : (st.ftl.extent slot).1 + v.length ≤ storageSize
  bytes : ∀ i, i < v.length → st.mem.storage ((st.ftl.extent slot).1 + i) = v.getD i 0

structure Keeps (storageSize n : Nat) (calls : List KvCall) (st : KvState) : Prop
    extends Tracks n calls st.ftl where
  holding : ∀ s, st.ftl.Occupied s → ∃ c v, lastChange calls (st.ftl.keyAt n s) = some c ∧
    Holding storageSize st s c v

theorem behind_of_le {start a : Nat} (hs : start < 2^64) (ha : a < 2^64) (h : start ≤ a) :
    behind start a = a - start := by
  unfold behind u64
  omega

theorem StoreDone.storage_outside {slot : Nat} {v : List UInt8}
    (h : StoreDone storageSize n st st' call found slot v) (hsize : storageSize < 2^64)
    (hfit : storeOffset st call.cmd found + v.length ≤ storageSize) {a : Nat} (ha : a < 2^64)
    (hout : ¬ Ranges.Within (storeOffset st call.cmd found, v.length) a) :
    st'.mem.storage a = st.mem.storage a := by
  rw [h.storage, if_neg]
  intro hin
  apply hout
  unfold behind u64 at hin
  unfold Ranges.Within
  simp only
  omega

theorem StoreDone.holding {slot : Nat} {v : List UInt8} (h : StoreDone storageSize n st st' call found slot v)
    (hsize : storageSize < 2^64) (hfit : storeOffset st call.cmd found + v.length ≤ storageSize) :
    Holding storageSize st' slot call v where
  value := h.value
  length_eq := by rw [h.puts.extent_eq]
  fits := by
    rw [h.puts.extent_eq]
    exact hfit
  bytes := by
    intro i hi
    rw [h.puts.extent_eq, h.storage]
    have hb : behind (storeOffset st call.cmd found) (storeOffset st call.cmd found + i) = i := by
      rw [behind_of_le (by omega) (by omega) (by omega)]
      omega
    simp only [hb]
    rw [if_pos hi]

theorem StoreDone.holding_other {slot s : Nat} {v w : List UInt8} {c : KvCall}
    (h : StoreDone storageSize n st st' call found slot v) (hsize : storageSize < 2^64)
    (hfit : storeOffset st call.cmd found + v.length ≤ storageSize) (hs : s ≠ slot)
    (hapart : ∀ a, ¬ (Ranges.Within (storeOffset st call.cmd found, v.length) a ∧
      Ranges.Within (st.ftl.extent s) a))
    (hw : Holding storageSize st s c w) : Holding storageSize st' s c w := by
  have heq := (h.puts.other s hs).2
  refine ⟨hw.value, heq ▸ hw.length_eq, heq ▸ hw.fits, ?_⟩
  intro i hi
  have hfits := hw.fits
  rw [heq, h.storage_outside hsize hfit (by omega)]
  · exact hw.bytes i hi
  · intro hin
    refine hapart _ ⟨hin, Nat.le_add_right _ _, ?_⟩
    rw [hw.length_eq]
    exact Nat.add_lt_add_left hi _

theorem Keeps.step (hk : Keeps storageSize n calls st) (hsize : storageSize < 2^64)
    (hop : call.cmd.opcode = nvmeCmdKvStore) (hlen : cmdKeyLength call.cmd = n) (hn : n ≤ kvcmdInlineKeyMax)
    (hapart : ∀ found, searchKey st.ftl call.cmd = .ok found → KeepsApart storageSize st call.cmd found)
    {res : KvResult} (h : st.perform storageSize call = .ok (st', res)) :
    Keeps storageSize n (calls ++ [call]) st' := by
  have hkey := KvCall.cmdKey_eq hlen hn
  have hklen : call.key.length = n := (cmdKey_length hkey).trans hlen
  obtain ⟨found, hr, hf⟩ := hk.toSound.searchKey hkey
  have hcond := hapart found hr
  have hfits := hcond.fits
  obtain ⟨slot, v, hdone⟩ : ∃ slot v, StoreDone storageSize n st st' call found slot v :=
    hk.toMapped.perform_store hop hkey hklen hr hf hcond.length (by omega) h
  rw [← hdone.length_eq] at hfits
  have hdelete : call.cmd.opcode = nvmeCmdKvDelete → SafeDelete n st.ftl call.cmd := by
    rw [hop]
    exact fun h => nomatch (show nvmeCmdKvStore = nvmeCmdKvDelete from h)
  refine ⟨hk.toTracks.step hlen hn hdelete h, ?_⟩
  intro s hs
  by_cases heq : s = slot
  · have hch : call.changes call.key = true := by simp [KvCall.changes, hop]
    refine ⟨call, v, ?_, heq ▸ hdone.holding hsize hfits⟩
    rw [heq, hdone.puts.keyAt, lastChange_snoc, if_pos hch]
  · have hocc : st.ftl.Occupied s := ((hdone.puts.occupied s).mp hs).resolve_right heq
    obtain ⟨c, w, hc, hw⟩ := hk.holding s hocc
    have hne : st.ftl.keyAt n s ≠ call.key := hdone.puts.fresh s hocc heq
    have hch : ¬ call.changes (st.ftl.keyAt n s) = true := by simp [KvCall.changes, Ne.symm hne]
    have hsapart := hcond.apart s hocc (fun h => heq (hdone.slot_eq s h).symm)
    rw [← hdone.length_eq] at hsapart
    refine ⟨c, w, ?_, hdone.holding_other hsize hfits heq hsapart hw⟩
    rw [(hdone.puts.other s heq).1, lastChange_snoc, if_neg hch]
    exact hc

/-- What a `kv_retrieve` gives back for every key: the last value stored, up to the length asked for. -/
def ValuesKept (storageSize n : Nat) (calls : List KvCall) (st : KvState) : Prop :=
  ∀ call : KvCall, call.cmd.opcode = nvmeCmdKvRetrieve → cmdKeyLength call.cmd = n →
    match lastChange calls call.key with
    | none => st.perform storageSize call = .ok (st.withHost call.host, ⟨0, kvErrKeyNotExist⟩)
    | some c => ∃ v, c.value = .ok v ∧ v.length = cmdValueLength c.cmd ∧
      st.perform storageSize call = (do
        let host ← call.receives (v.take (cmdValueLength call.cmd))
        return (st.withHost host, ⟨min v.length (cmdValueLength call.cmd), kvSuccess⟩))

theorem KvCall.value_length {v : List UInt8} (h : call.value = .ok v) :
    v.length = cmdValueLength call.cmd := by
  unfold KvCall.value at h
  obtain ⟨ps, _, h⟩ := bind_eq_ok.mp h
  cases h
  rw [List.length_map, List.length_range]

theorem getD_take {v : List UInt8} {m i : Nat} (h : i < (v.take m).length) :
    (v.take m).getD i 0 = v.getD i 0 := by
  rw [List.length_take] at h
  rw [List.getD_eq_getElem?_getD, List.getD_eq_getElem?_getD, List.getElem?_take_of_lt (by omega)]

/-- A retrieve of a slot that holds `v`. -/
theorem Holding.retrieve {t : Nat} {c : KvCall} {v : List UInt8} (hh : Holding storageSize st t c v)
    (hsize : storageSize < 2^64) (hocc : st.ftl.Occupied t) (hop : call.cmd.opcode = nvmeCmdKvRetrieve)
    (hr : searchKey st.ftl call.cmd = .ok (some t)) :
    st.perform storageSize call = (do
      let host ← call.receives (v.take (cmdValueLength call.cmd))
      return (st.withHost host, ⟨min v.length (cmdValueLength call.cmd), kvSuccess⟩)) := by
  obtain ⟨offset, hoffset⟩ := Option.ne_none_iff_exists'.mp hocc.2
  have hstart : (st.ftl.extent t).1 = offset := by
    simp only [KvFtl.extent, hoffset, Option.getD_some]
  have hfits := hh.fits
  have hbytes := hh.bytes
  rw [hstart] at hfits hbytes
  have htake : min v.length (cmdValueLength call.cmd) = (v.take (cmdValueLength call.cmd)).length := by
    rw [List.length_take, Nat.min_comm]
  have hcopy := kvCopy_retrieve (v := v.take (cmdValueLength call.cmd)) hop (by omega : offset < 2^64)
    (by omega) (fun i hi => (hbytes i (by omega)).trans (getD_take hi).symm)
  have hlength : (foundEntry st.ftl call.cmd (some t)).length = v.length := hh.length_eq
  have hentry : (foundEntry st.ftl call.cmd (some t)).memOffset = some offset := hoffset
  unfold KvState.perform doPerformKvIo
  rw [KvState.withHost_ftl, getMappingEntry_eq hr, ok_bind, if_neg (by rw [hop]; decide), if_pos hop]
  unfold performKvRetrieve
  rw [hentry]
  simp only
  rw [hlength, htake]
  unfold KvState.withHost
  simp only
  rw [hcopy]
  cases call.receives (v.take (cmdValueLength call.cmd)) with
  | error e => rfl
  | ok host => rfl

theorem Keeps.valuesKept (hk : Keeps storageSize n calls st) (hsize : storageSize < 2^64)
    (hn : n ≤ kvcmdInlineKeyMax) (hcalls : ∀ c ∈ calls, c.cmd.opcode = nvmeCmdKvStore) :
    ValuesKept storageSize n calls st := by
  intro call hop hlen
  have hkey := KvCall.cmdKey_eq hlen hn
  have hklen : call.key.length = n := (cmdKey_length hkey).trans hlen
  obtain ⟨found, hr, hf⟩ := hk.toSound.searchKey hkey
  cases hlast : lastChange calls call.key with
  | none =>
    have hnone : found = none := by
      by_contra hne
      obtain ⟨c, hc, _⟩ := (hk.holds_iff _).mp ((hf.holds_iff hk.toMapped hklen).mp hne)
      rw [hlast] at hc
      cases hc
    subst hnone
    simp only
    unfold KvState.perform doPerformKvIo
    rw [KvState.withHost_ftl, getMappingEntry_eq hr, ok_bind, if_neg (by rw [hop]; decide), if_pos hop]
    rfl
  | some c =>
    have hc : c ∈ calls := (List.mem_filter.mp (List.mem_of_getLast? hlast)).1
    have hne := (hf.holds_iff hk.toMapped hklen).mpr ((hk.holds_iff _).mpr ⟨c, hlast, hcalls c hc⟩)
    obtain ⟨t, rfl⟩ := Option.ne_none_iff_exists'.mp hne
    obtain ⟨hocc, hkeyt⟩ := (hf.iff_of_mapped hk.toMapped hklen t).mp rfl
    obtain ⟨c', v, hc', hh⟩ := hk.holding t hocc
    rw [hkeyt, hlast] at hc'
    cases hc'
    exact ⟨v, hh.value, KvCall.value_length hh.value, hh.retrieve hsize hocc hop hr⟩

/-- Each store of the run keeps apart from the other keys. -/
def StoresApart (storageSize : Nat) (st₀ : KvState) (calls : List KvCall) : Prop :=
  ∀ pre call s found, pre ++ [call] <+: calls → kvRun storageSize pre st₀ = .ok s →
    searchKey s.ftl call.cmd = .ok found → KeepsApart storageSize s call.cmd found

variable {st₀ : KvState}

theorem StoresApart.keeps (h₀ : Tracks n [] st₀.ftl) (hsize : storageSize < 2^64) (hn : n ≤ kvcmdInlineKeyMax)
    (hcalls : ∀ c ∈ calls, c.cmd.opcode = nvmeCmdKvStore ∧ cmdKeyLength c.cmd = n)
    (hapart : StoresApart storageSize st₀ calls) (hrun : kvRun storageSize calls st₀ = .ok st) :
    Keeps storageSize n calls st := by
  induction calls using List.reverseRecOn generalizing st with
  | nil =>
    cases hrun
    refine ⟨h₀, fun s hs => ?_⟩
    obtain ⟨c, hc, _⟩ := (h₀.holds_iff _).mp ⟨s, hs, rfl⟩
    cases hc
  | append_singleton calls call ih =>
    obtain ⟨s, res, hs, hstep⟩ := kvRun_snoc.mp hrun
    have hpre : calls <+: calls ++ [call] := List.prefix_append ..
    have hk := ih (fun c hc => hcalls c (List.mem_append_left _ hc))
      (fun pre c s found hp => hapart pre c s found (hp.trans hpre)) hs
    obtain ⟨hop, hlen⟩ := hcalls call (by simp)
    exact hk.step hsize hop hlen hn
      (fun found hr => hapart calls call s found (List.prefix_refl _) hs hr) hstep

/-- Values are isolated in a run of stores that keep apart. -/
theorem kv_values_kept (tableSize storageSize n : Nat) (mem : Memory) (st₀ st : KvState) (calls : List KvCall)
    (hinit : kvInitNamespace tableSize storageSize mem = .ok st₀) (hslots : 0 < st₀.ftl.hashSlots)
    (hsize : storageSize < 2^64) (hn : n ≤ kvcmdInlineKeyMax)
    (hcalls : ∀ c ∈ calls, c.cmd.opcode = nvmeCmdKvStore ∧ cmdKeyLength c.cmd = n)
    (hapart : StoresApart storageSize st₀ calls) (hrun : kvRun storageSize calls st₀ = .ok st) :
    ValuesKept storageSize n calls st :=
  (hapart.keeps (Tracks.init hinit hslots) hsize hn hcalls hrun).valuesKept hsize hn
    (fun c hc => (hcalls c hc).1)

/-- A command for `akcl` or `imxa` with `words` words of data `b`. -/
def KvCall.withData (call : KvCall) (words : Nat) (b : UInt8) : KvCall :=
  ⟨{ call.cmd with valueLen := words }, fun _ => b⟩

/-- Four bytes for `akcl`, four bytes for `imxa`, then eight for `akcl`. -/
def growing : List KvCall :=
  [(akcl nvmeCmdKvStore).withData 1 1, (imxa nvmeCmdKvStore).withData 1 2, (akcl nvmeCmdKvStore).withData 2 3]

def growingRun : Except Fault (KvState × KvState × (KvState × KvResult) × List UInt8 × (Nat → UInt8)) := do
  let st₀ ← kvInitNamespace (2^30) (2^30) ⟨fun _ => 0, fun _ => 0⟩
  let st ← kvRun (2^30) growing st₀
  let r ← st.perform (2^30) (imxa nvmeCmdKvRetrieve)
  let v ← ((imxa nvmeCmdKvStore).withData 1 2).value
  let host ← (imxa nvmeCmdKvRetrieve).receives (v.take 4)
  return (st₀, st, r, v, host)

/-- The longer value runs into the next one. -/
theorem store_overwrites_neighbour : ∃ st₀ st,
    kvInitNamespace (2^30) (2^30) ⟨fun _ => 0, fun _ => 0⟩ = .ok st₀ ∧ kvRun (2^30) growing st₀ = .ok st ∧
    st.allocator.latest ≤ 2^30 ∧ ¬ ValuesKept (2^30) 4 growing st := by
  obtain ⟨⟨st₀, st, ⟨st', res⟩, v, host⟩, hrun, hp⟩ := exists_of_check (show check (fun r =>
      decide (r.2.1.allocator.latest ≤ 2^30) && decide (r.2.2.1.1.mem.host 0 = 3) &&
        decide (r.2.2.2.2 0 = 2)) growingRun = true by decide +kernel)
  unfold growingRun at hrun
  obtain ⟨_, hinit, hrun⟩ := bind_eq_ok.mp hrun
  obtain ⟨_, hst, hrun⟩ := bind_eq_ok.mp hrun
  obtain ⟨_, hretrieve, hrun⟩ := bind_eq_ok.mp hrun
  obtain ⟨_, hvalue, hrun⟩ := bind_eq_ok.mp hrun
  obtain ⟨_, hhost, hrun⟩ := bind_eq_ok.mp hrun
  cases hrun
  simp only [Bool.and_eq_true, decide_eq_true_eq] at hp
  obtain ⟨⟨hlatest, hgot⟩, hstored⟩ := hp
  refine ⟨st₀, st, hinit, hst, hlatest, fun hkept => ?_⟩
  have hlast : lastChange growing (imxa nvmeCmdKvRetrieve).key = some ((imxa nvmeCmdKvStore).withData 1 2) := rfl
  have hall := hkept (imxa nvmeCmdKvRetrieve) rfl rfl
  rw [hlast] at hall
  obtain ⟨w, hw, _, hperform⟩ := hall
  rw [hvalue] at hw
  cases hw
  rw [show cmdValueLength (imxa nvmeCmdKvRetrieve).cmd = 4 from rfl, hhost, hretrieve] at hperform
  cases hperform
  rw [show (st.withHost host).mem.host 0 = host 0 from rfl, hstored] at hgot
  cases hgot

/-- `KeepsApart`, over the slots of the table. -/
def keepsApart (storageSize : Nat) (st : KvState) (cmd : NvmeKvCommand) (found : Option Nat) : Bool :=
  let offset := storeOffset st cmd found
  let length := cmdValueLength cmd
  found.all (fun t => decide (LengthKept (st.ftl.extent t) length)) &&
    decide (offset + length ≤ storageSize) &&
    decide (∀ s < st.ftl.hashSlots, (st.ftl.kvMappingTable s).memOffset = none ∨ found = some s ∨
      offset + length ≤ (st.ftl.extent s).1 ∨ (st.ftl.extent s).1 + (st.ftl.extent s).2 ≤ offset)

theorem KeepsApart.of_check {cmd : NvmeKvCommand} {found : Option Nat}
    (h : keepsApart storageSize st cmd found = true) : KeepsApart storageSize st cmd found := by
  unfold keepsApart at h
  simp only [Bool.and_eq_true, decide_eq_true_eq] at h
  obtain ⟨⟨hlength, hfits⟩, hslots⟩ := h
  refine ⟨?_, hfits, ?_⟩
  · rintro t rfl
    exact of_decide_eq_true hlength
  · rintro s ⟨hs, hocc⟩ hne a ⟨⟨ha, ha'⟩, hb, hb'⟩
    rcases hslots s hs with hfree | hfound | hbelow | habove
    · exact hocc hfree
    · exact hne hfound
    · exact absurd ha' (by omega)
    · exact absurd hb' (by omega)

def storesApart (storageSize : Nat) : List KvCall → KvState → Bool
  | [], _ => true
  | call :: calls, st =>
    check (keepsApart storageSize st call.cmd) (searchKey st.ftl call.cmd) &&
      check (fun r => storesApart storageSize calls r.1) (st.perform storageSize call)

theorem StoresApart.of_check {calls : List KvCall} (h : storesApart storageSize calls st₀ = true) :
    StoresApart storageSize st₀ calls := by
  induction calls generalizing st₀ with
  | nil => exact fun pre call s found hp => absurd hp.length_le (by simp)
  | cons first rest ih =>
    obtain ⟨hfirst, hrest⟩ := Bool.and_eq_true_iff.mp h
    intro pre call s found hp hrun hr
    cases pre with
    | nil =>
      cases hrun
      obtain ⟨rfl, -⟩ := List.cons_prefix_cons.mp hp
      rw [hr] at hfirst
      exact .of_check hfirst
    | cons first' pre =>
      obtain ⟨rfl, hpre⟩ := List.cons_prefix_cons.mp hp
      obtain ⟨r, hr₁, hrun⟩ := bind_eq_ok.mp hrun
      rw [hr₁] at hrest
      exact ih hrest pre call s found hpre hrun hr

/-- Two keys in a table of three slots, the first stored again shorter and then as long as before. -/
def rewriting : List KvCall :=
  [(akcl nvmeCmdKvStore).withData 2 1, (imxa nvmeCmdKvStore).withData 1 2, (akcl nvmeCmdKvStore).withData 1 3,
    (akcl nvmeCmdKvStore).withData 2 4]

def rewritingRun : Except Fault (KvState × KvState) := do
  let st₀ ← kvInitNamespace 144 (2^30) ⟨fun _ => 0, fun _ => 0⟩
  let st ← kvRun (2^30) rewriting st₀
  return (st₀, st)

theorem kv_values_kept_one : ∃ st₀ st, kvInitNamespace 144 (2^30) ⟨fun _ => 0, fun _ => 0⟩ = .ok st₀ ∧
    kvRun (2^30) rewriting st₀ = .ok st ∧ st.allocator.latest = 12 ∧ ValuesKept (2^30) 4 rewriting st := by
  obtain ⟨⟨st₀, st⟩, hrun, hp⟩ := exists_of_check (show check (fun r =>
      decide (0 < r.1.ftl.hashSlots ∧ r.2.allocator.latest = 12) &&
      storesApart (2^30) rewriting r.1) rewritingRun = true by decide +kernel)
  unfold rewritingRun at hrun
  obtain ⟨_, hinit, hrun⟩ := bind_eq_ok.mp hrun
  obtain ⟨_, hst, hrun⟩ := bind_eq_ok.mp hrun
  cases hrun
  obtain ⟨hstate, hapart⟩ := Bool.and_eq_true_iff.mp hp
  obtain ⟨hslots, hlatest⟩ := of_decide_eq_true hstate
  have hcalls : ∀ c ∈ rewriting, c.cmd.opcode = nvmeCmdKvStore ∧ cmdKeyLength c.cmd = 4 := by
    unfold rewriting
    simp only [List.forall_mem_cons, List.not_mem_nil, false_imp_iff, implies_true, and_true]
    exact ⟨⟨rfl, rfl⟩, ⟨rfl, rfl⟩, ⟨rfl, rfl⟩, rfl, rfl⟩
  exact ⟨st₀, st, hinit, hst, hlatest, kv_values_kept 144 (2^30) 4 _ st₀ st rewriting hinit hslots (by decide)
    (by decide) hcalls (.of_check hapart) hst⟩

end NVMeVirt
