import NVMeVirt.KvKeys

/-!
# Tables after any run

Stores, retrieves, deletes and batches in any order, with keys of any length. The links stay in
range and lead to slots that were filled later, so no walk along them goes on for ever.
-/

namespace NVMeVirt
set_option autoImplicit false
open Outcome Links Relation

variable {kv kv' : KvFtl} {key : List UInt8} {storageSize : Nat} {st st' : KvState} {res : KvResult}

theorem KvFtl.Sound.newMappingEntryByKey (hs : kv.Sound) {valLen valOffset : Nat}
    (h : newMappingEntryByKey storageSize kv key valLen valOffset = .ok kv') :
    ∃ slot, kv.Inserted kv' key valOffset valLen slot := by
  unfold NVMeVirt.newMappingEntryByKey at h
  obtain ⟨_, _, h⟩ := bind_eq_ok.mp h
  obtain ⟨key', hkey, h⟩ := bind_eq_ok.mp h
  rw [entryKey_eq hkey] at h
  obtain ⟨⟨slot, prev⟩, hnew, h⟩ := bind_eq_ok.mp h
  have hslot := hs.newSlot hnew
  refine ⟨slot, ?_⟩
  cases prev with
  | none =>
    cases h
    exact hslot.inserted
  | some p =>
    cases h
    exact hslot.chained

theorem KvFtl.Sound.becomes {cmd : NvmeKvCommand} {found : Option Nat} (hs : kv.Sound)
    (hkey : cmdKey cmd = .ok key) (h : Becomes storageSize cmd kv found kv') : kv'.Sound := by
  cases h with
  | same _ _ => exact hs
  | @length slot _ => exact hs.sameChains (kv.sameChains_setLength slot _)
  | insert _ hnew =>
    obtain ⟨_, slot, hi⟩ := hs.newMappingEntry hkey hnew
    exact hs.insert hi
  | @delete slot _ => exact hs.delete slot

theorem KvState.perform_key {call : KvCall} (h : st.perform storageSize call = .ok (st', res)) :
    cmdKey call.cmd = .ok call.key := by
  unfold KvState.perform doPerformKvIo at h
  obtain ⟨_, hentry, _⟩ := bind_eq_ok.mp h
  unfold getMappingEntry at hentry
  obtain ⟨_, hsearch, _⟩ := bind_eq_ok.mp hentry
  unfold searchKey at hsearch
  obtain ⟨key, hkey, _⟩ := bind_eq_ok.mp hsearch
  exact KvCall.cmdKey_eq rfl (cmdKey_eq_ok.mp hkey).1

theorem KvState.perform_sound {call : KvCall} (hs : st.ftl.Sound)
    (h : st.perform storageSize call = .ok (st', res)) : st'.ftl.Sound := by
  have hkey := KvState.perform_key h
  obtain ⟨found, hr, hf⟩ := hs.searchKey hkey
  exact hs.becomes hkey (KvState.perform_becomes hr hf h)

theorem doPerformKvBatchedIo_sound {sub : SubCmd} (hs : st.ftl.Sound)
    (h : doPerformKvBatchedIo storageSize sub st = .ok st') : st'.ftl.Sound := by
  unfold doPerformKvBatchedIo at h
  obtain ⟨entry, _, h⟩ := bind_eq_ok.mp h
  split at h
  · split at h
    · obtain ⟨ftl, hnew, h⟩ := bind_eq_ok.mp h
      cases h
      obtain ⟨slot, hi⟩ := hs.newMappingEntryByKey hnew
      exact hs.insert hi
    · cases h
      exact hs
  · cases h
    exact hs

theorem batchLoop_sound {buffer : Nat → UInt8} {length n i payloadOffset : Nat} (hs : st.ftl.Sound)
    (h : batchLoop storageSize buffer length n i payloadOffset st = .ok st') : st'.ftl.Sound := by
  induction n generalizing i payloadOffset st with
  | zero =>
    cases h
    exact hs
  | succ n ih =>
    obtain ⟨⟨sub, next⟩, _, h⟩ := bind_eq_ok.mp h
    obtain ⟨s, hsub, h⟩ := bind_eq_ok.mp h
    exact ih (doPerformKvBatchedIo_sound hs hsub) h

theorem KvState.serve_sound {request : KvRequest} (hs : st.ftl.Sound)
    (h : st.serve storageSize request = .ok (st', res)) : st'.ftl.Sound := by
  cases request with
  | io call => exact KvState.perform_sound hs h
  | batch call =>
    unfold KvState.serve doPerformKvBatch at h
    obtain ⟨buffer, _, h⟩ := bind_eq_ok.mp h
    obtain ⟨s, hloop, h⟩ := bind_eq_ok.mp h
    cases h
    have hs' : (st.withHost call.host).ftl.Sound := hs
    exact batchLoop_sound hs' hloop

theorem getHashSlot_pos {slot : Nat} (h : getHashSlot kv key = .ok slot) : 0 < kv.hashSlots := by
  unfold getHashSlot divisor at h
  split at h
  · cases h
  · rename_i hne
    exact Nat.pos_of_ne_zero hne

theorem kvInitNamespace_sound {tableSize : Nat} {mem : Memory}
    (hinit : kvInitNamespace tableSize storageSize mem = .ok st) (hpos : 0 < st.ftl.hashSlots) :
      st.ftl.Sound :=
  (KeyOwners.init hinit hpos).toSound

theorem kvServe_sound {requests : List KvRequest} (hs : st.ftl.Sound)
    (h : kvServe storageSize requests st = .ok st') : st'.ftl.Sound := by
  induction requests generalizing st with
  | nil =>
    cases h
    exact hs
  | cons request requests ih =>
    obtain ⟨⟨s, r⟩, hstep, h⟩ := bind_eq_ok.mp h
    exact ih (KvState.serve_sound hs hstep) h

theorem searchByKey_pos {found : Option Nat} (h : searchByKey kv key = .ok found) : 0 < kv.hashSlots := by
  obtain ⟨_, _, h⟩ := bind_eq_ok.mp h
  obtain ⟨_, hslot, _⟩ := bind_eq_ok.mp h
  exact getHashSlot_pos hslot

theorem KvState.perform_pos {call : KvCall} (h : st.perform storageSize call = .ok (st', res)) :
    0 < st.ftl.hashSlots := by
  have hkey := KvState.perform_key h
  unfold KvState.perform doPerformKvIo at h
  obtain ⟨_, hentry, _⟩ := bind_eq_ok.mp h
  obtain ⟨_, hsearch, _⟩ := bind_eq_ok.mp hentry
  rw [searchKey_eq hkey] at hsearch
  exact searchByKey_pos hsearch

theorem doPerformKvBatchedIo_pos {sub : SubCmd} (h : doPerformKvBatchedIo storageSize sub st = .ok st') :
    0 < st.ftl.hashSlots := by
  obtain ⟨_, hentry, _⟩ := bind_eq_ok.mp h
  obtain ⟨_, hsearch, _⟩ := bind_eq_ok.mp hentry
  exact searchByKey_pos hsearch

/-- Nothing is done to a table without slots. -/
theorem KvState.serve_empty {request : KvRequest} (h₀ : st.ftl.hashSlots = 0)
    (h : st.serve storageSize request = .ok (st', res)) : st'.ftl = st.ftl := by
  have hnone : ¬ 0 < st.ftl.hashSlots := by
    rw [h₀]
    exact Nat.lt_irrefl 0
  cases request with
  | io call => exact absurd (KvState.perform_pos h) hnone
  | batch call =>
    unfold KvState.serve doPerformKvBatch at h
    obtain ⟨buffer, _, h⟩ := bind_eq_ok.mp h
    obtain ⟨s, hloop, h⟩ := bind_eq_ok.mp h
    cases h
    cases hn : call.cmd.rsvd4 with
    | zero =>
      rw [hn] at hloop
      cases hloop
      rfl
    | succ n =>
      rw [hn] at hloop
      obtain ⟨_, _, hloop⟩ := bind_eq_ok.mp hloop
      obtain ⟨_, hsub, _⟩ := bind_eq_ok.mp hloop
      exact absurd (doPerformKvBatchedIo_pos hsub) hnone

theorem kvServe_empty {requests : List KvRequest} (h₀ : st.ftl.hashSlots = 0)
    (h : kvServe storageSize requests st = .ok st') : st'.ftl = st.ftl := by
  induction requests generalizing st with
  | nil =>
    cases h
    rfl
  | cons request requests ih =>
    obtain ⟨⟨s, r⟩, hstep, h⟩ := bind_eq_ok.mp h
    have hs : s.ftl = st.ftl := KvState.serve_empty h₀ hstep
    exact (ih (hs ▸ h₀) h).trans hs

/-- The states that some run leads to. -/
def KvReachable (storageSize : Nat) (st : KvState) : Prop :=
  ∃ tableSize mem st₀ requests, kvInitNamespace tableSize storageSize mem = .ok st₀ ∧
    kvServe storageSize requests st₀ = .ok st

theorem KvReachable.sound (h : KvReachable storageSize st) (hpos : 0 < st.ftl.hashSlots) : st.ftl.Sound := by
  obtain ⟨tableSize, mem, st₀, requests, hinit, hrun⟩ := h
  have hpos₀ : 0 < st₀.ftl.hashSlots := by
    apply Nat.pos_of_ne_zero
    intro h₀
    rw [kvServe_empty h₀ hrun, h₀] at hpos
    exact Nat.lt_irrefl 0 hpos
  exact kvServe_sound (kvInitNamespace_sound hinit hpos₀) hrun

theorem KvFtl.Sound.updateMappingEntry (hs : kv.Sound) {cmd : NvmeKvCommand} (hkey : cmdKey cmd = .ok key) :
    ∃ kv', updateMappingEntry kv cmd = .ok kv' := by
  obtain ⟨found, hr, _⟩ := hs.searchKey hkey
  unfold NVMeVirt.updateMappingEntry
  rw [hr, ok_bind]
  cases found with
  | none => exact ⟨_, rfl⟩
  | some slot => exact ⟨_, rfl⟩

theorem KvFtl.Sound.deleteMappingEntry (hs : kv.Sound) {cmd : NvmeKvCommand} (hkey : cmdKey cmd = .ok key) :
    ∃ kv', deleteMappingEntry kv cmd = .ok kv' := by
  obtain ⟨found, hr, _⟩ := hs.searchKey hkey
  unfold NVMeVirt.deleteMappingEntry
  rw [hr, ok_bind]
  cases found with
  | none => exact ⟨_, rfl⟩
  | some slot => exact ⟨_, rfl⟩

/-- From a slot in use `find_next_slot` gets to a free slot when there is one. -/
theorem KvFtl.Sound.findNextSlot (hs : kv.Sound) {free slot : Nat} (hfree : kv.Free free)
    (hslot : kv.Occupied slot) : ∃ t p, findNextSlot kv slot = .ok (t, p) ∧ kv.Free t := by
  obtain ⟨stamp, now, hst⟩ := hs.stamped
  obtain ⟨r, hr, _, hlast⟩ := findTail_last hs hst none hslot.1 (enough_start kv stamp slot)
  obtain ⟨p, rfl, hp, _⟩ := hlast hslot
  have hdist : probeDistance kv free p < kv.hashSlots := by
    have h₁ := hfree.1
    have h₂ := hp.1
    unfold probeDistance
    split <;> omega
  obtain ⟨t, ht⟩ := probeSlot_ends hfree hp.1 hdist
  refine ⟨t, p, ?_, probeSlot_free ht⟩
  unfold NVMeVirt.findNextSlot
  rw [hr, ok_bind]
  simp only
  rw [ht]
  rfl

/-- The links are in range, no walk meets a slot twice, and each loop comes to its end. -/
structure WalksEnd (kv : KvFtl) : Prop where
  next_lt : ∀ {s t}, s < kv.hashSlots → (kv.kvMappingTable s).nextSlot = some t → t < kv.hashSlots
  free_unlinked : ∀ {s}, kv.Free s → (kv.kvMappingTable s).nextSlot = none
  once : ∀ walk : List Nat, walk.IsChain kv.links.Step → walk.Nodup
  get : ∀ cmd key, cmdKey cmd = .ok key → ∃ e, getMappingEntry kv cmd = .ok e
  getByKey : ∀ key : List UInt8, key.length ≤ 18 → ∃ e, getMappingEntryByKey kv key = .ok e
  update : ∀ cmd key, cmdKey cmd = .ok key → ∃ kv', updateMappingEntry kv cmd = .ok kv'
  delete : ∀ cmd key, cmdKey cmd = .ok key → ∃ kv', deleteMappingEntry kv cmd = .ok kv'
  next : ∀ slot, kv.Occupied slot → ∃ t p, findNextSlot kv slot = .ok (t, p) ∧ kv.Free t

theorem KvFtl.Sound.walksEnd (hs : kv.Sound) {free : Nat} (hfree : kv.Free free) : WalksEnd kv where
  next_lt := fun _ hnext => hs.next_lt hnext
  free_unlinked := fun h => hs.free_unlinked h.2
  once := by
    obtain ⟨stamp, now, hst⟩ := hs.stamped
    exact fun _ hwalk => hst.nodup hwalk
  get := by
    intro cmd key hkey
    obtain ⟨found, hr, _⟩ := hs.searchKey hkey
    exact ⟨_, getMappingEntry_eq hr⟩
  getByKey := by
    intro key hlen
    obtain ⟨found, hr, _⟩ := hs.searchByKey hlen
    exact ⟨_, getMappingEntryByKey_eq hr⟩
  update := fun _ _ hkey => hs.updateMappingEntry hkey
  delete := fun _ _ hkey => hs.deleteMappingEntry hkey
  next := fun _ hslot => hs.findNextSlot hfree hslot

/-- After every run that leaves a slot free. -/
theorem kv_walks_end (tableSize storageSize : Nat) (mem : Memory) (st₀ st : KvState)
    (requests : List KvRequest) (hinit : kvInitNamespace tableSize storageSize mem = .ok st₀)
    (hrun : kvServe storageSize requests st₀ = .ok st) (hfree : ∃ slot, st.ftl.Free slot) :
    WalksEnd st.ftl := by
  obtain ⟨slot, hslot⟩ := hfree
  have hreach : KvReachable storageSize st := ⟨tableSize, mem, st₀, requests, hinit, hrun⟩
  exact (hreach.sound (Nat.zero_lt_of_lt hslot.1)).walksEnd hslot

def SubCmd.bytes (sub : SubCmd) : List UInt8 :=
  sub.key ++ List.replicate (alignUp sub.key.length - sub.key.length) 0 ++
    sub.value ++ List.replicate (alignUp sub.value.length - sub.value.length) 0 ++ List.replicate alignLen 0

/-- Byte `a` of a payload with these sub-commands. -/
def payloadByte (subs : List SubCmd) (a : Nat) : UInt8 :=
  if a < batchCmdHeadSize then
    match subs[a / subCmdAttributeSize]? with
    | none => 0
    | some sub =>
      let j := a % subCmdAttributeSize
      if j = 0 then UInt8.ofNat sub.opcode
      else if j = 1 then UInt8.ofNat sub.key.length
      else if 4 ≤ j ∧ j < 8 then LittleEndian.digit sub.value.length (j - 4)
      else 0
  else (subs.flatMap SubCmd.bytes).getD (a - (batchCmdHeadSize + alignLen)) 0

/-- A batch with a payload of one page, host page 0. -/
def pageBatch (subs : List SubCmd) : KvBatchCall where
  cmd := ⟨⟨0x85, 0, 0, pageSize / 4, 0, List.replicate 16 0, rfl⟩, subs.length⟩
  host := payloadByte subs

def storeSub (call : KvCall) (words : Nat) (b : UInt8) : SubCmd :=
  ⟨nvmeCmdKvStore, call.key, List.replicate (4 * words) b⟩

/-- Two keys on one chain, an update of one of them and a new key in a batch, a delete, and the
deleted key again. -/
def mixedRequests : List KvRequest :=
  [.io (akcl nvmeCmdKvStore), .io (imxa nvmeCmdKvStore),
    .batch (pageBatch [storeSub (akcl nvmeCmdKvStore) 1 1, storeSub aabakbx 2 2]),
    .io (akcl nvmeCmdKvDelete), .io (akcl nvmeCmdKvStore)]

def mixedRun : Except Fault (KvState × KvState) := do
  let st₀ ← kvInitNamespace (2^30) (2^30) ⟨fun _ => 0, fun _ => 0⟩
  let st ← kvServe (2^30) mixedRequests st₀
  return (st₀, st)

theorem kv_walks_end_mixed : ∃ st₀ st, kvInitNamespace (2^30) (2^30) ⟨fun _ => 0, fun _ => 0⟩ = .ok st₀ ∧
    kvServe (2^30) mixedRequests st₀ = .ok st ∧ WalksEnd st.ftl := by
  obtain ⟨⟨st₀, st⟩, hrun, hp⟩ := exists_of_check (show check (fun r => decide (0 < r.2.ftl.hashSlots) &&
      decide ((r.2.ftl.kvMappingTable 0).memOffset = none)) mixedRun = true by decide +kernel)
  unfold mixedRun at hrun
  obtain ⟨_, hinit, hrun⟩ := bind_eq_ok.mp hrun
  obtain ⟨_, hst, hrun⟩ := bind_eq_ok.mp hrun
  cases hrun
  simp only [Bool.and_eq_true, decide_eq_true_eq] at hp
  exact ⟨st₀, st, hinit, hst, kv_walks_end (2^30) (2^30) _ st₀ st mixedRequests hinit hst ⟨0, hp⟩⟩

end NVMeVirt
