import NVMeVirt.KvRuns
import NVMeVirt.KvValues

/-!
# A batch and its parts

`__do_perform_kv_batch` against the same stores one by one. The batched path follows the same
chains, takes the same offsets and writes the same bytes; what it leaves out is the length of an
entry that is stored again.
-/

namespace NVMeVirt
set_option autoImplicit false
open Outcome Links Relation Gather

variable {kv kv' : KvFtl} {key : List UInt8} {storageSize : Nat}

theorem KvFtl.SameChains.setEntry (h : kv.SameChains kv') {e e' : MappingEntry} (slot : Nat)
    (hkey : e'.key = e.key) (hoff : e'.memOffset = e.memOffset) (hnext : e'.nextSlot = e.nextSlot) :
    (kv.setEntry slot e).SameChains (kv'.setEntry slot e') where
  hashSlots_eq := h.hashSlots_eq
  key_eq := by
    intro s
    by_cases hs : s = slot
    · simp [hs, hkey]
    · simp [hs, h.key_eq]
  memOffset_eq := by
    intro s
    by_cases hs : s = slot
    · simp [hs, hoff]
    · simp [hs, h.memOffset_eq]
  next_eq := by
    intro s
    by_cases hs : s = slot
    · simp [hs, hnext]
    · simp [hs, h.next_eq]

theorem KvFtl.entry_error {slot : Nat} (h : ¬ slot < kv.hashSlots) : kv.entry slot = .error .badAddress :=
  if_neg h

theorem KvFtl.SameChains.searchChain (h : kv.SameChains kv') {fuel slot : Nat} :
    searchChain kv' key fuel slot = searchChain kv key fuel slot := by
  induction fuel generalizing slot with
  | zero => rfl
  | succ fuel ih =>
    rw [NVMeVirt.searchChain, NVMeVirt.searchChain]
    by_cases hslot : slot < kv.hashSlots
    · rw [KvFtl.entry_ok hslot, KvFtl.entry_ok (h.hashSlots_eq ▸ hslot), ok_bind, ok_bind, h.memOffset_eq,
        h.key_eq, h.next_eq]
      simp only [ih]
    · rw [KvFtl.entry_error hslot, KvFtl.entry_error (h.hashSlots_eq ▸ hslot)]
      rfl

theorem KvFtl.SameChains.findTail (h : kv.SameChains kv') {fuel tail : Nat} {prevs : Option Nat} :
    findTail kv' fuel tail prevs = findTail kv fuel tail prevs := by
  induction fuel generalizing tail prevs with
  | zero => rfl
  | succ fuel ih =>
    rw [NVMeVirt.findTail, NVMeVirt.findTail]
    by_cases hslot : tail < kv.hashSlots
    · rw [KvFtl.entry_ok hslot, KvFtl.entry_ok (h.hashSlots_eq ▸ hslot), ok_bind, ok_bind, h.memOffset_eq,
        h.next_eq]
      simp only [ih]
    · rw [KvFtl.entry_error hslot, KvFtl.entry_error (h.hashSlots_eq ▸ hslot)]
      rfl

theorem KvFtl.SameChains.probeSlot (h : kv.SameChains kv') {fuel slot : Nat} :
    probeSlot kv' fuel slot = probeSlot kv fuel slot := by
  induction fuel generalizing slot with
  | zero => rfl
  | succ fuel ih =>
    rw [NVMeVirt.probeSlot, NVMeVirt.probeSlot]
    by_cases hslot : slot < kv.hashSlots
    · rw [KvFtl.entry_ok hslot, KvFtl.entry_ok (h.hashSlots_eq ▸ hslot), ok_bind, ok_bind, h.memOffset_eq]
      simp only [ih, h.hashSlots_eq]
    · rw [KvFtl.entry_error hslot, KvFtl.entry_error (h.hashSlots_eq ▸ hslot)]
      rfl

theorem KvFtl.SameChains.getHashSlot (h : kv.SameChains kv') : getHashSlot kv' key = getHashSlot kv key := by
  unfold NVMeVirt.getHashSlot
  rw [h.hashSlots_eq]

theorem KvFtl.SameChains.searchByKey (h : kv.SameChains kv') : searchByKey kv' key = searchByKey kv key := by
  unfold NVMeVirt.searchByKey
  simp only [h.getHashSlot, h.searchChain, h.hashSlots_eq]

theorem KvFtl.SameChains.newSlot (h : kv.SameChains kv') : newSlot kv' key = newSlot kv key := by
  unfold NVMeVirt.newSlot
  rw [h.getHashSlot]
  cases NVMeVirt.getHashSlot kv key with
  | error e => rfl
  | ok slot =>
    rw [ok_bind, ok_bind]
    by_cases hslot : slot < kv.hashSlots
    · rw [KvFtl.entry_ok hslot, KvFtl.entry_ok (h.hashSlots_eq ▸ hslot), ok_bind, ok_bind, h.memOffset_eq]
      unfold findNextSlot
      simp only [h.findTail, h.probeSlot, h.hashSlots_eq]
    · rw [KvFtl.entry_error hslot, KvFtl.entry_error (h.hashSlots_eq ▸ hslot)]
      rfl

section Copy
variable {cmd : NvmeRwCommand} {mem : Memory} {start fuel remaining : Nat} {c : PrpCursor}

theorem performIoLoop_u64 (offset : Nat) : performIoLoop start cmd fuel c offset remaining mem =
    performIoLoop start cmd fuel c (u64 offset) remaining mem := by
  have hadd : ∀ m : Nat, u64 (u64 offset + m) = u64 (offset + m) := fun m => Nat.mod_add_mod ..
  have hstart : u64 (start + u64 offset) = u64 (start + offset) := Nat.add_mod_mod ..
  cases fuel with
  | zero => rfl
  | succ fuel =>
    rw [performIoLoop, performIoLoop]
    simp only [hadd, hstart]

theorem transfer_host (hw : WritesData cmd) {addr paddr n : Nat} : (transfer cmd addr paddr n mem).host =
    mem.host := by
  unfold transfer
  rw [if_pos hw]
  rfl

/-- A write goes through when its data can be found. -/
theorem performIoLoop_returns (hw : WritesData cmd) {done offset : Nat} {ps : List Piece}
    (h : prpPieces mem.host cmd fuel c done remaining = .ok ps) :
    ∃ mem', performIoLoop start cmd fuel c offset remaining mem = .ok mem' := by
  induction fuel generalizing c done offset remaining mem ps with
  | zero =>
    rw [prpPieces] at h
    rw [performIoLoop]
    split at h
    · rename_i hr
      exact ⟨mem, if_pos hr⟩
    · cases h
  | succ fuel ih =>
    rw [prpPieces] at h
    rw [performIoLoop]
    split at h
    · rename_i hr
      exact ⟨mem, if_pos hr⟩
    · rename_i hr
      obtain ⟨⟨c', paddr⟩, hprp, h⟩ := bind_eq_ok.mp h
      obtain ⟨rest, hrest, _⟩ := bind_eq_ok.mp h
      rw [if_neg hr, hprp, ok_bind]
      apply ih
      rw [transfer_host hw]
      exact hrest

end Copy

/-- The copy of a store whose data can be found. -/
theorem kvCopy_putValue {call : KvCall} {v : List UInt8} (hop : call.cmd.opcode = nvmeCmdKvStore)
    (hv : call.value = .ok v) (offset : Nat) (storage : Nat → UInt8) :
    kvCopy call.cmd offset (cmdValueLength call.cmd) ⟨call.host, storage⟩ =
      .ok (Memory.putValue ⟨call.host, storage⟩ offset v) := by
  have hw : WritesData (kvRwCommand call.cmd) := kvRwCommand_writes.mpr hop
  have hpieces : ∃ ps, prpPieces call.host (kvRwCommand call.cmd) (cmdValueLength call.cmd) .start 0
      (cmdValueLength call.cmd) = .ok ps := by
    unfold KvCall.value at hv
    obtain ⟨ps, hps, _⟩ := bind_eq_ok.mp hv
    exact ⟨ps, hps⟩
  obtain ⟨ps, hps⟩ := hpieces
  obtain ⟨mem', hmem⟩ : ∃ mem', kvCopy call.cmd offset (cmdValueLength call.cmd) ⟨call.host, storage⟩ =
    .ok mem' :=
    performIoLoop_returns hw hps
  have hoff : kvCopy call.cmd (u64 offset) (cmdValueLength call.cmd) ⟨call.host, storage⟩ = .ok mem' :=
    (performIoLoop_u64 offset).symm.trans hmem
  obtain ⟨v', hv', _, hstorage⟩ := kvCopy_store hop (Nat.mod_lt _ (by decide)) hoff
  obtain rfl : v' = v := Except.ok.inj (hv'.symm.trans hv)
  have hhost : mem'.host = call.host := by
    have hlen : cmdValueLength call.cmd < 2^32 := Nat.mod_lt _ (by decide)
    have hzero : u64 offset = u64 (offset + 0) := rfl
    unfold kvCopy at hoff
    rw [hzero] at hoff
    obtain ⟨_, _, hload⟩ := performIoLoop_write hw (by omega) hoff
    rw [hload]
  have hbehind : ∀ a, behind (u64 offset) a = behind offset a := fun a => by
    unfold behind u64
    rw [Nat.mod_mod]
  rw [hmem]
  congr 1
  cases mem' with
  | mk host' storage' =>
    unfold Memory.putValue
    obtain rfl : host' = call.host := hhost
    congr 1
    funext a
    rw [← hbehind]
    exact hstorage a

theorem KvFtl.SameChains.trans {kv'' : KvFtl} (h : kv.SameChains kv') (h' : kv'.SameChains kv'') :
    kv.SameChains kv'' where
  hashSlots_eq := h'.hashSlots_eq.trans h.hashSlots_eq
  key_eq := fun s => (h'.key_eq s).trans (h.key_eq s)
  memOffset_eq := fun s => (h'.memOffset_eq s).trans (h.memOffset_eq s)
  next_eq := fun s => (h'.next_eq s).trans (h.next_eq s)

theorem KvFtl.SameChains.refl (kv : KvFtl) : kv.SameChains kv :=
  ⟨rfl, fun _ => rfl, fun _ => rfl, fun _ => rfl⟩

theorem KvFtl.SameChains.newMappingEntryByKey (h : kv.SameChains kv') (valLen valOffset : Nat) :
    Both KvFtl.SameChains (newMappingEntryByKey storageSize kv key valLen valOffset)
      (newMappingEntryByKey storageSize kv' key valLen valOffset) := by
  unfold NVMeVirt.newMappingEntryByKey
  apply Both.same
  intro _ _
  apply Both.same
  intro key' _
  rw [h.newSlot]
  apply Both.same
  rintro ⟨slot, prev⟩ _
  have hfill : (kv.setEntry slot (fillEntry (kv.kvMappingTable slot) key' valOffset valLen)).SameChains
      (kv'.setEntry slot (fillEntry (kv'.kvMappingTable slot) key' valOffset valLen)) := by
    apply h.setEntry slot
    · unfold fillEntry
      simp only [h.key_eq]
    · rfl
    · exact h.next_eq slot
  cases prev with
  | none => exact hfill
  | some p =>
    unfold chainMapping
    exact hfill.setEntry p (hfill.key_eq p) (hfill.memOffset_eq p) rfl

/-- The states differ in the lengths of the entries and in the host memory at most. -/
structure Alike (st st' : KvState) : Prop where
  chains : st.ftl.SameChains st'.ftl
  allocator_eq : st'.allocator = st.allocator
  storage_eq : st'.mem.storage = st.mem.storage

/-- The command stores what the sub-command stores. -/
structure SameStore (sub : SubCmd) (call : KvCall) : Prop where
  sub_opcode : sub.opcode = nvmeCmdKvStore
  opcode : call.cmd.opcode = nvmeCmdKvStore
  key : cmdKey call.cmd = .ok sub.key
  value : call.value = .ok sub.value

theorem SameStore.length_eq {sub : SubCmd} {call : KvCall} (h : SameStore sub call) :
    cmdValueLength call.cmd = sub.value.length := (KvCall.value_length h.value).symm

theorem updateLength_same {cmd : NvmeKvCommand} {found : Option Nat} (hr : searchKey kv cmd = .ok found)
    (entry : MappingEntry) : ∃ kv', updateLength kv cmd entry = .ok kv' ∧ kv.SameChains kv' := by
  unfold updateLength
  split
  · unfold updateMappingEntry
    rw [hr, ok_bind]
    cases found with
    | none => exact ⟨kv, rfl, .refl kv⟩
    | some slot => exact ⟨_, rfl, kv.sameChains_setLength slot _⟩
  · exact ⟨kv, rfl, .refl kv⟩

theorem KvFtl.SameChains.entryFound (h : kv.SameChains kv') (n : Nat) (found : Option Nat) :
    (entryFound kv' n found).memOffset = (entryFound kv n found).memOffset := by
  cases found with
  | none => rfl
  | some slot => exact h.memOffset_eq slot

variable {sub : SubCmd} {call : KvCall} {b b' s st : KvState} {found : Option Nat}

theorem doPerformKvBatchedIo_store (hop : sub.opcode = nvmeCmdKvStore)
    (hr : NVMeVirt.searchByKey st.ftl sub.key = .ok found) :
    doPerformKvBatchedIo storageSize sub st =
      match (entryFound st.ftl sub.key.length found).memOffset with
      | none => do
        let (allocator, newOffset) := allocateMemOffsetByLength st.allocator sub.value.length
        let ftl ← newMappingEntryByKey storageSize st.ftl sub.key sub.value.length newOffset
        return ⟨ftl, allocator, st.mem.putValue newOffset sub.value⟩
      | some offset => .ok { st with mem := st.mem.putValue offset sub.value } := by
  unfold doPerformKvBatchedIo
  rw [getMappingEntryByKey_eq hr, ok_bind, if_pos hop]
  rfl

theorem perform_store (hss : SameStore sub call) (hr : NVMeVirt.searchByKey st.ftl sub.key = .ok found) :
    st.perform storageSize call =
      match (entryFound st.ftl sub.key.length found).memOffset with
      | none => do
        let (allocator, newOffset) := allocateMemOffsetByLength st.allocator sub.value.length
        let ftl ← newMappingEntryByKey storageSize st.ftl sub.key sub.value.length newOffset
        return (⟨ftl, allocator, (st.withHost call.host).mem.putValue newOffset sub.value⟩, ⟨0, kvSuccess⟩)
      | some offset => do
        let ftl ← updateLength st.ftl call.cmd (entryFound st.ftl sub.key.length found)
        return ({ st with ftl := ftl, mem := (st.withHost call.host).mem.putValue offset sub.value },
          ⟨0, kvSuccess⟩) := by
  have hmem : ∀ offset, kvCopy call.cmd offset sub.value.length (st.withHost call.host).mem =
      .ok ((st.withHost call.host).mem.putValue offset sub.value) := by
    intro offset
    have hcopy := kvCopy_putValue hss.opcode hss.value offset st.mem.storage
    rw [hss.length_eq] at hcopy
    exact hcopy
  unfold KvState.perform doPerformKvIo
  rw [KvState.withHost_ftl, getMappingEntry_eq_byKey hss.key, getMappingEntryByKey_eq hr, ok_bind,
    if_pos hss.opcode]
  unfold performKvStore
  simp only [KvState.withHost_ftl, hss.length_eq, allocateMemOffset, newMappingEntry_eq_byKey hss.key]
  cases (entryFound st.ftl sub.key.length found).memOffset with
  | none =>
    simp only [hmem, ok_bind]
    rfl
  | some offset =>
    simp only [hmem, ok_bind]
    rfl

theorem store_both (ha : Alike b s) (hss : SameStore sub call) :
    Both (fun b' r => Alike b' r.1) (doPerformKvBatchedIo storageSize sub b)
      (s.perform storageSize call) := by
  have hs : NVMeVirt.searchByKey s.ftl sub.key = NVMeVirt.searchByKey b.ftl sub.key := ha.chains.searchByKey
  have hput : ∀ offset, ((s.withHost call.host).mem.putValue offset sub.value).storage =
      (b.mem.putValue offset sub.value).storage := by
    intro offset
    unfold Memory.putValue KvState.withHost
    rw [ha.storage_eq]
  cases hr : NVMeVirt.searchByKey b.ftl sub.key with
  | error e =>
    rw [hr] at hs
    unfold doPerformKvBatchedIo KvState.perform doPerformKvIo
    rw [KvState.withHost_ftl, getMappingEntry_eq_byKey hss.key]
    unfold getMappingEntryByKey
    rw [hr, hs]
    exact rfl
  | ok found =>
    rw [hr] at hs
    rw [doPerformKvBatchedIo_store hss.sub_opcode hr, perform_store hss hs, ha.chains.entryFound,
      ha.allocator_eq]
    cases (entryFound b.ftl sub.key.length found).memOffset with
    | none =>
      apply (ha.chains.newMappingEntryByKey _ _).bind
      intro ftl ftl' hftl
      exact ⟨hftl, rfl, hput _⟩
    | some offset =>
      have hkey : searchKey s.ftl call.cmd = .ok found := (searchKey_eq hss.key).trans hs
      obtain ⟨ftl, hftl, hsame⟩ := updateLength_same hkey (entryFound s.ftl sub.key.length found)
      rw [hftl]
      exact ⟨ha.chains.trans hsame, rfl, hput offset⟩

theorem KvFtl.Answer.unique (hs : kv.Sound) {found' : Option Nat} (h : kv.Answer key found)
    (h' : kv.Answer key found') : found = found' := by
  obtain ⟨stamp, now, hst⟩ := hs.stamped
  cases found with
  | none =>
    cases found' with
    | none => rfl
    | some t => exact absurd h'.finds.2.2 (h.finds t h'.finds.1 h'.finds.2.1)
  | some t =>
    cases found' with
    | none => exact absurd h.finds.2.2 (h'.finds t h.finds.1 h.finds.2.1)
    | some u =>
      have htu := h.first rfl h'.finds.1 h'.finds.2.1 h'.finds.2.2
      have hut := h'.first rfl h.finds.1 h.finds.2.1 h.finds.2.2
      rw [hst.antisymm htu hut]

theorem KvFtl.SameChains.answer (h : kv.SameChains kv') (ha : kv.Answer key found) :
    kv'.Answer key found where
  finds := by
    cases found with
    | none =>
      intro t ht hreach
      rw [h.links_eq, h.hashSlot_eq] at hreach
      rw [h.keyAt_eq]
      exact ha.finds t (h.occupied.mp ht) hreach
    | some t =>
      refine ⟨h.occupied.mpr ha.finds.1, ?_, ?_⟩
      · rw [h.links_eq, h.hashSlot_eq]
        exact ha.finds.2.1
      · rw [h.keyAt_eq]
        exact ha.finds.2.2
  first := by
    intro t u hfound hu hreach hkey
    rw [h.links_eq, h.hashSlot_eq] at hreach
    rw [h.keyAt_eq] at hkey
    rw [h.links_eq]
    exact ha.first hfound (h.occupied.mp hu) hreach hkey

section Answers
variable {valOffset length slot : Nat} {key' : List UInt8}

theorem KvFtl.Inserted.reach_of (hs : kv.Sound) (hi : kv.Inserted kv' key valOffset length slot) {a t : Nat}
    (h : kv'.links.Reach a t) (hne : t ≠ slot) : kv.links.Reach a t := by
  induction h using ReflTransGen.head_induction_on with
  | refl => exact ReflTransGen.refl
  | head hstep hrest ih =>
    rename_i x y
    have hy : y ≠ slot := by
      rintro rfl
      have hend : ∀ c, ¬ kv'.links.Step y c := by
        intro c hc
        have hnext := hc.2.1
        rw [hi.unlinked hs] at hnext
        cases hnext
      exact hne (Cells.reach_of_no_step hrest hend).symm
    exact ReflTransGen.head (hi.step_of hs hstep hy) ih

theorem KvFtl.Inserted.hashSlot_eq (hi : kv.Inserted kv' key valOffset length slot) (key' : List UInt8) :
    kv'.hashSlot key' = kv.hashSlot key' := by
  unfold KvFtl.hashSlot
  rw [hi.hashSlots_eq]

theorem KvFtl.Inserted.answer_self (hs : kv.Sound) (hi : kv.Inserted kv' key valOffset length slot)
    (ha : kv.Answer key none) : kv'.Answer key (some slot) where
  finds := ⟨hi.occupied.mpr (.inr rfl), hi.reach, hi.keyAt_slot⟩
  first := by
    intro t u ht hu hreach hkey
    cases ht
    by_cases heq : u = slot
    · rw [heq]
      exact ReflTransGen.refl
    · have hocc : kv.Occupied u := (hi.occupied.mp hu).resolve_right heq
      rw [hi.keyAt_other heq] at hkey
      rw [hi.hashSlot_eq] at hreach
      exact absurd hkey (ha.finds u hocc (hi.reach_of hs hreach heq))

theorem KvFtl.Inserted.answer_other (hs : kv.Sound) (hi : kv.Inserted kv' key valOffset length slot)
    (hlen : key'.length = key.length) (hne : key' ≠ key) (ha : kv.Answer key' found) : kv'.Answer key'
      found := by
  have hold : ∀ {u}, kv'.Occupied u → kv'.links.Reach (kv'.hashSlot key') u → kv'.keyAt key'.length u = key' →
      kv.Occupied u ∧ kv.links.Reach (kv.hashSlot key') u ∧ kv.keyAt key'.length u = key' := by
    intro u hu hreach hkey
    have huslot : u ≠ slot := by
      rintro rfl
      rw [hlen, hi.keyAt_slot] at hkey
      exact hne hkey.symm
    rw [hi.hashSlot_eq] at hreach
    rw [hi.keyAt_other huslot] at hkey
    exact ⟨(hi.occupied.mp hu).resolve_right huslot, hi.reach_of hs hreach huslot, hkey⟩
  constructor
  · cases found with
    | none =>
      intro t ht hreach hkey
      obtain ⟨hocc, hreach, hkey⟩ := hold ht hreach hkey
      exact ha.finds t hocc hreach hkey
    | some t =>
      obtain ⟨hocc, hreach, hkey⟩ := ha.finds
      refine ⟨hi.occupied.mpr (.inl hocc), ?_, ?_⟩
      · rw [hi.hashSlot_eq]
        exact hreach.mono (fun _ _ => hi.step)
      · rw [hi.keyAt_other (hi.ne_of_occupied hocc)]
        exact hkey
  · intro t u hfound hu hreach hkey
    obtain ⟨hocc, hreach, hkey⟩ := hold hu hreach hkey
    exact (ha.first hfound hocc hreach hkey).mono (fun _ _ => hi.step)

end Answers

def KvFtl.lengthAt (kv : KvFtl) (slot : Nat) : Nat := (kv.kvMappingTable slot).length

/-- The length in the entry of a key, if there is an entry. -/
def tableLength (kv : KvFtl) (key : List UInt8) : Option Nat :=
  match getMappingEntryByKey kv key with
  | .ok e => e.memOffset.map (fun _ => e.length)
  | .error _ => none

theorem KvFtl.Answer.tableLength (hs : kv.Sound) (hlen : key.length ≤ 18) (ha : kv.Answer key found) :
    tableLength kv key = found.map kv.lengthAt := by
  obtain ⟨found', hr, ha'⟩ := hs.searchByKey hlen
  obtain rfl := ha.unique hs ha'
  unfold NVMeVirt.tableLength
  rw [getMappingEntryByKey_eq hr]
  cases found with
  | none => rfl
  | some t =>
    obtain ⟨offset, hoffset⟩ := Option.ne_none_iff_exists'.mp ha.finds.1.2
    change (kv.kvMappingTable t).memOffset.map _ = _
    rw [hoffset]
    rfl

/-- A store of `length` bytes, by the slot that was found. `g` gives the new length of an entry
that there is already. -/
inductive Stores (kv : KvFtl) (key : List UInt8) (length : Nat) (g : Nat → Nat → Nat) : Option Nat → KvFtl →
    Prop
  | insert {kv' : KvFtl} {valOffset slot : Nat} (hi : kv.Inserted kv' key valOffset length slot) :
      Stores kv key length g none kv'
  | update {kv' : KvFtl} {t : Nat} (same : kv.SameChains kv') (own : kv'.lengthAt t =
    g (kv.lengthAt t) length)
      (other : ∀ s, s ≠ t → kv'.lengthAt s = kv.lengthAt s) : Stores kv key length g (some t) kv'

section Stores
variable {length : Nat} {g : Nat → Nat → Nat} {key' : List UInt8}

theorem Stores.sound (hs : kv.Sound) (h : Stores kv key length g found kv') : kv'.Sound := by
  cases h with
  | insert hi => exact hs.insert hi
  | update same _ _ => exact hs.sameChains same

theorem Stores.own (hs : kv.Sound) (ha : kv.Answer key found) (h : Stores kv key length g found kv') :
    ∃ t, kv'.Answer key (some t) ∧ kv'.lengthAt t = (found.map kv.lengthAt).elim length (g · length) ∧
      ∀ s, s ≠ t → kv'.lengthAt s = kv.lengthAt s := by
  cases h with
  | @insert _ _ slot hi =>
    refine ⟨slot, hi.answer_self hs ha, ?_, fun s hne => (hi.same hne).2.2⟩
    unfold KvFtl.lengthAt
    rw [hi.filled]
    rfl
  | @update _ t same own other => exact ⟨t, same.answer ha, own, other⟩

theorem Stores.answer_other (hs : kv.Sound) (h : Stores kv key length g found kv')
    (hlen : key'.length = key.length) (hne : key' ≠ key) {found' : Option Nat} (ha : kv.Answer key' found') :
    kv'.Answer key' found' := by
  cases h with
  | insert hi => exact hi.answer_other hs hlen hne ha
  | update same _ _ => exact same.answer ha

theorem Stores.answer_some (hs : kv.Sound) (h : Stores kv key length g found kv') (ha : kv.Answer key found)
    (hlen : key'.length = key.length) {t : Nat} (ha' : kv.Answer key' (some t)) : kv'.Answer key'
      (some t) := by
  by_cases hne : key' = key
  · subst hne
    obtain rfl := ha.unique hs ha'
    cases h with
    | update same _ _ => exact same.answer ha'
  · exact h.answer_other hs hlen hne ha'

theorem KvFtl.Answer.ne {t u : Nat} (ha : kv.Answer key (some t)) (ha' : kv.Answer key' (some u))
    (hlen : key'.length = key.length) (hne : key' ≠ key) : u ≠ t := by
  rintro rfl
  have hkey' := ha'.finds.2.2
  rw [hlen, ha.finds.2.2] at hkey'
  exact hne hkey'.symm

theorem Stores.tableLength_self (hs : kv.Sound) (hkey : key.length ≤ 18) (ha : kv.Answer key found)
    (h : Stores kv key length g found kv') :
    tableLength kv' key = some ((tableLength kv key).elim length (g · length)) := by
  obtain ⟨t, hown, hlength, _⟩ := h.own hs ha
  rw [hown.tableLength (h.sound hs) hkey, ha.tableLength hs hkey, ← hlength]
  rfl

theorem Stores.tableLength_other (hs : kv.Sound) (hkey : key.length ≤ 18) (ha : kv.Answer key found)
    (h : Stores kv key length g found kv') (hlen : key'.length = key.length) (hne : key' ≠ key) :
    tableLength kv' key' = tableLength kv key' := by
  obtain ⟨t, hown, _, hother⟩ := h.own hs ha
  obtain ⟨found', _, ha'⟩ := hs.searchByKey (hlen ▸ hkey)
  have ha'' := h.answer_other hs hlen hne ha'
  rw [ha''.tableLength (h.sound hs) (hlen ▸ hkey), ha'.tableLength hs (hlen ▸ hkey)]
  cases found' with
  | none => rfl
  | some u => exact congrArg some (hother u (hown.ne ha'' hlen hne))

end Stores

inductive StoresAll (g : Nat → Nat → Nat) : KvFtl → List SubCmd → KvFtl → Prop
  | nil (kv : KvFtl) : StoresAll g kv [] kv
  | cons {kv kv' kv'' : KvFtl} {sub : SubCmd} {subs : List SubCmd} {found : Option Nat}
      (answer : kv.Answer sub.key found) (first : Stores kv sub.key sub.value.length g found kv')
      (rest : StoresAll g kv' subs kv'') : StoresAll g kv (sub :: subs) kv''

def lengthsOf (subs : List SubCmd) (key : List UInt8) : List Nat :=
  (subs.filter (fun sub => sub.key = key)).map (fun sub => sub.value.length)

def lengthAfter (g : Nat → Nat → Nat) (before : Option Nat) (lengths : List Nat) : Option Nat :=
  lengths.foldl (fun before length => some (before.elim length (g · length))) before

variable {g : Nat → Nat → Nat} {subs : List SubCmd} {n : Nat}

theorem lengthsOf_cons (sub : SubCmd) (subs : List SubCmd) (key : List UInt8) : lengthsOf (sub :: subs) key =
    if sub.key = key then sub.value.length :: lengthsOf subs key else lengthsOf subs key := by
  unfold lengthsOf
  by_cases h : sub.key = key
  · simp [h]
  · simp [h]

theorem StoresAll.sound (hs : kv.Sound) (h : StoresAll g kv subs kv') : kv'.Sound := by
  induction h with
  | nil => exact hs
  | cons _ first _ ih => exact ih (first.sound hs)

theorem StoresAll.tableLength (hs : kv.Sound) (hn : n ≤ 18) (hsubs : ∀ sub ∈ subs, sub.key.length = n)
    (h : StoresAll g kv subs kv') (hkey : key.length = n) :
    tableLength kv' key = lengthAfter g (tableLength kv key) (lengthsOf subs key) := by
  induction h with
  | nil => rfl
  | @cons kv kv₁ kv' sub subs found answer first rest ih =>
    have hsub := hsubs sub List.mem_cons_self
    rw [ih (first.sound hs) (fun sub hsub => hsubs sub (List.mem_cons_of_mem _ hsub)), lengthsOf_cons]
    by_cases heq : sub.key = key
    · rw [if_pos heq, lengthAfter, lengthAfter, List.foldl_cons, ← heq,
        first.tableLength_self hs (hsub.trans_le hn) answer]
    · rw [if_neg heq, first.tableLength_other hs (hsub.trans_le hn) answer (hkey.trans hsub.symm)
      (Ne.symm heq)]

theorem StoresAll.answer_some (hs : kv.Sound) (hsubs : ∀ sub ∈ subs, sub.key.length = n)
    (h : StoresAll g kv subs kv') (hkey : key.length = n) {t : Nat} (ha : kv.Answer key (some t)) :
    kv'.Answer key (some t) := by
  induction h with
  | nil => exact ha
  | @cons kv kv₁ kv' sub subs found answer first rest ih =>
    have hsub := hsubs sub List.mem_cons_self
    apply ih (first.sound hs) (fun sub hsub => hsubs sub (List.mem_cons_of_mem _ hsub))
    exact first.answer_some hs answer (hkey.trans hsub.symm) ha

theorem StoresAll.lengthAt (hs : kv.Sound) (hsubs : ∀ sub ∈ subs, sub.key.length = n)
    (h : StoresAll g kv subs kv') (t : Nat) :
    (∃ sub ∈ subs, kv'.Answer sub.key (some t)) ∨ kv'.lengthAt t = kv.lengthAt t := by
  induction h with
  | nil => exact .inr rfl
  | @cons kv kv₁ kv' sub subs found answer first rest ih =>
    have hrest : ∀ sub ∈ subs, sub.key.length = n := fun sub hsub => hsubs sub (List.mem_cons_of_mem _ hsub)
    obtain ⟨u, hown, _, hother⟩ := first.own hs answer
    rcases ih (first.sound hs) hrest with ⟨sub', hsub', ha⟩ | heq
    · exact .inl ⟨sub', List.mem_cons_of_mem _ hsub', ha⟩
    · by_cases htu : t = u
      · have hkeep := rest.answer_some (first.sound hs) hrest (hsubs sub List.mem_cons_self) hown
        exact .inl ⟨sub, List.mem_cons_self, htu ▸ hkeep⟩
      · exact .inr (heq.trans (hother t htu))

def batchedLength (before _length : Nat) : Nat := before

/-- `update_mapping_entry` takes place between small lengths only. -/
def updatedLength (before length : Nat) : Nat :=
  if length ≤ smallLength ∧ before ≤ smallLength then length else before

def lastSmall (lengths : List Nat) : Option Nat :=
    (lengths.filter (fun length => length ≤ smallLength)).getLast?

def firstLength (before : Option Nat) (lengths : List Nat) : Option Nat := before.or lengths.head?

theorem lengthAfter_batched (before : Option Nat) (lengths : List Nat) :
    lengthAfter batchedLength before lengths = firstLength before lengths := by
  induction lengths generalizing before with
  | nil => cases before <;> rfl
  | cons length lengths ih =>
    change lengthAfter batchedLength (some (before.elim length (batchedLength · length))) lengths = _
    rw [ih]
    cases before <;> rfl

theorem lengthAfter_snoc (g : Nat → Nat → Nat) (before : Option Nat) (lengths : List Nat) (length : Nat) :
    lengthAfter g before (lengths ++ [length]) =
      some ((lengthAfter g before lengths).elim length (g · length)) := by
  unfold lengthAfter
  rw [List.foldl_append]
  rfl

theorem lastSmall_snoc (lengths : List Nat) (length : Nat) :
    lastSmall (lengths ++ [length]) = if length ≤ smallLength then some length else lastSmall lengths := by
  unfold lastSmall
  rw [List.filter_append]
  by_cases h : length ≤ smallLength
  · simp [h]
  · simp [h]

theorem firstLength_snoc {before : Option Nat} {lengths : List Nat} {first : Nat} (length : Nat)
    (h : firstLength before lengths = some first) : firstLength before (lengths ++ [length]) =
      some first := by
  cases before with
  | some _ => exact h
  | none =>
    cases lengths with
    | nil => cases h
    | cons _ _ => exact h

theorem lengthAfter_updated {before : Option Nat} {lengths : List Nat} {first : Nat}
    (h : firstLength before lengths = some first) : lengthAfter updatedLength before lengths =
      some (if first ≤ smallLength then (lastSmall lengths).getD first else first) := by
  induction lengths using List.reverseRecOn generalizing first with
  | nil =>
    have hbefore : before = some first := (Option.or_none).symm.trans h
    rw [hbefore]
    change some first = some (if _ then first else first)
    rw [ite_self]
  | append_singleton lengths length ih =>
    rw [lengthAfter_snoc, lastSmall_snoc]
    cases hfirst : firstLength before lengths with
    | some first' =>
      obtain rfl : first' = first := Option.some.inj ((firstLength_snoc length hfirst).symm.trans h)
      rw [ih hfirst]
      change some (updatedLength _ length) = _
      unfold updatedLength
      by_cases hsmall : first' ≤ smallLength
      · have hlast : (lastSmall lengths).getD first' ≤ smallLength := by
          cases hl : lastSmall lengths with
          | none => exact hsmall
          | some l => exact of_decide_eq_true (List.mem_filter.mp (List.mem_of_getLast? hl)).2
        by_cases hlen : length ≤ smallLength
        · simp [hsmall, hlast, hlen]
        · simp [hsmall, hlen]
      · simp [hsmall]
    | none =>
      obtain ⟨rfl, hnil⟩ := Option.or_eq_none_iff.mp hfirst
      obtain rfl := List.head?_eq_none_iff.mp hnil
      obtain rfl : length = first := Option.some.inj h
      by_cases hlen : length ≤ smallLength
      · simp [hlen, lengthAfter]
      · simp [hlen, lengthAfter]

theorem lengthAfter_eq_iff (before : Option Nat) (lengths : List Nat) :
    lengthAfter updatedLength before lengths = lengthAfter batchedLength before lengths ↔
      ∀ first, firstLength before lengths = some first → first ≤ smallLength →
        ∀ l, lastSmall lengths = some l → l = first := by
  rw [lengthAfter_batched]
  cases hfirst : firstLength before lengths with
  | none =>
    obtain ⟨rfl, hnil⟩ := Option.or_eq_none_iff.mp hfirst
    obtain rfl := List.head?_eq_none_iff.mp hnil
    exact iff_of_true rfl (fun _ h => nomatch h)
  | some first =>
    rw [lengthAfter_updated hfirst, Option.some.injEq]
    constructor
    · rintro heq first' hf hsmall l hl
      obtain rfl := Option.some.inj hf
      rw [if_pos hsmall, hl] at heq
      exact heq
    · intro h
      split
      · rename_i hsmall
        cases hl : lastSmall lengths with
        | none => rfl
        | some l => exact h first rfl hsmall l hl
      · rfl

def performSubs (storageSize : Nat) : List SubCmd → KvState → Except Fault KvState
  | [], st => .ok st
  | sub :: subs, st => do
    let st ← doPerformKvBatchedIo storageSize sub st
    performSubs storageSize subs st

variable {st' : KvState} {calls : List KvCall} {res : KvResult}

theorem KvFtl.Answer.memOffset_some {t : Nat} (ha : kv.Answer key (some t)) (n : Nat) :
    ∃ offset, (NVMeVirt.entryFound kv n (some t)).memOffset = some offset :=
  Option.ne_none_iff_exists'.mp ha.finds.1.2

theorem doPerformKvBatchedIo_stores (hs : st.ftl.Sound) (hop : sub.opcode = nvmeCmdKvStore)
    (hlen : sub.key.length ≤ 18) (h : doPerformKvBatchedIo storageSize sub st = .ok st') :
    ∃ found, st.ftl.Answer sub.key found ∧
      Stores st.ftl sub.key sub.value.length batchedLength found st'.ftl := by
  obtain ⟨found, hr, ha⟩ := hs.searchByKey hlen
  refine ⟨found, ha, ?_⟩
  rw [doPerformKvBatchedIo_store hop hr] at h
  cases found with
  | none =>
    obtain ⟨ftl, hnew, h⟩ := bind_eq_ok.mp h
    cases h
    obtain ⟨slot, hi⟩ := hs.newMappingEntryByKey hnew
    exact .insert hi
  | some t =>
    obtain ⟨offset, hoffset⟩ := ha.memOffset_some sub.key.length
    rw [hoffset] at h
    cases h
    exact .update (.refl _) rfl (fun _ _ => rfl)

theorem lengthAt_setLength (kv : KvFtl) (slot length s : Nat) :
    (kv.setEntry slot { kv.kvMappingTable slot with length := length }).lengthAt s =
      if s = slot then length else kv.lengthAt s := by
  unfold KvFtl.lengthAt
  by_cases h : s = slot
  · simp [h]
  · simp [h]

theorem perform_stores (hs : st.ftl.Sound) (hss : SameStore sub call)
    (h : st.perform storageSize call = .ok (st', res)) :
    ∃ found, st.ftl.Answer sub.key found ∧
      Stores st.ftl sub.key sub.value.length updatedLength found st'.ftl := by
  obtain ⟨found, hr, ha⟩ := hs.searchByKey (cmdKey_le hss.key)
  refine ⟨found, ha, ?_⟩
  rw [perform_store hss hr] at h
  cases found with
  | none =>
    obtain ⟨ftl, hnew, h⟩ := bind_eq_ok.mp h
    cases h
    obtain ⟨slot, hi⟩ := hs.newMappingEntryByKey hnew
    exact .insert hi
  | some t =>
    obtain ⟨offset, hoffset⟩ := ha.memOffset_some sub.key.length
    rw [hoffset] at h
    obtain ⟨ftl, hftl, h⟩ := bind_eq_ok.mp h
    cases h
    have hkey : searchKey st.ftl call.cmd = .ok (some t) := (searchKey_eq hss.key).trans hr
    unfold updateLength UpdatesLength updateMappingEntry at hftl
    rw [hkey, hss.length_eq] at hftl
    change (if sub.value.length ≠ st.ftl.lengthAt t ∧ sub.value.length ≤ smallLength ∧
      st.ftl.lengthAt t ≤ smallLength then _ else _) = _ at hftl
    split at hftl
    · rename_i hup
      cases hftl
      refine .update (st.ftl.sameChains_setLength t _) ?_ (fun s hne => ?_)
      · rw [lengthAt_setLength, if_pos rfl, updatedLength, if_pos hup.2]
      · rw [lengthAt_setLength, if_neg hne]
    · rename_i hup
      cases hftl
      refine .update (.refl _) ?_ (fun _ _ => rfl)
      unfold updatedLength
      split
      · rename_i hsmall
        by_contra hne
        exact hup ⟨Ne.symm hne, hsmall⟩
      · rfl

theorem performSubs_stores (hs : st.ftl.Sound)
    (hsubs : ∀ sub ∈ subs, sub.opcode = nvmeCmdKvStore ∧ sub.key.length ≤ 18)
    (h : performSubs storageSize subs st = .ok st') : StoresAll batchedLength st.ftl subs st'.ftl := by
  induction subs generalizing st with
  | nil =>
    cases h
    exact .nil _
  | cons sub subs ih =>
    obtain ⟨s, hfirst, h⟩ := bind_eq_ok.mp h
    obtain ⟨hop, hlen⟩ := hsubs sub List.mem_cons_self
    obtain ⟨found, ha, hstores⟩ := doPerformKvBatchedIo_stores hs hop hlen hfirst
    exact .cons ha hstores (ih (hstores.sound hs) (fun sub hsub => hsubs sub (List.mem_cons_of_mem _ hsub)) h)

theorem kvRun_stores (hs : st.ftl.Sound) (hparts : List.Forall₂ SameStore subs calls)
    (h : kvRun storageSize calls st = .ok st') : StoresAll updatedLength st.ftl subs st'.ftl := by
  induction hparts generalizing st with
  | nil =>
    cases h
    exact .nil _
  | cons hss _ ih =>
    obtain ⟨⟨s, res⟩, hfirst, h⟩ := bind_eq_ok.mp h
    obtain ⟨found, ha, hstores⟩ := perform_stores hs hss hfirst
    exact .cons ha hstores (ih (hstores.sound hs) h)

theorem performSubs_both (ha : Alike b s) (hparts : List.Forall₂ SameStore subs calls) :
    Both Alike (performSubs storageSize subs b) (kvRun storageSize calls s) := by
  induction hparts generalizing b s with
  | nil => exact ha
  | cons hss _ ih =>
    apply (store_both ha hss).bind
    exact fun _ _ hr => ih hr

theorem StoresAll.lengths_eq {g' : Nat → Nat → Nat} {kv₁ kv₂ : KvFtl} (hs : kv.Sound) (hn : n ≤ 18)
    (hsubs : ∀ sub ∈ subs, sub.key.length = n) (h₁ : StoresAll g kv subs kv₁) (h₂ : StoresAll g' kv subs kv₂)
    (hsame : kv₁.SameChains kv₂)
    (heq : ∀ sub ∈ subs, NVMeVirt.tableLength kv₂ sub.key = NVMeVirt.tableLength kv₁ sub.key) (t : Nat) :
    kv₂.lengthAt t = kv₁.lengthAt t := by
  have hof : ∀ sub ∈ subs, kv₁.Answer sub.key (some t) → kv₂.lengthAt t = kv₁.lengthAt t := by
    intro sub hsub ha
    have hlen : sub.key.length ≤ 18 := (hsubs sub hsub).trans_le hn
    have htable := heq sub hsub
    rw [ha.tableLength (h₁.sound hs) hlen, (hsame.answer ha).tableLength (h₂.sound hs) hlen] at htable
    exact Option.some.inj htable
  have hback : kv₂.SameChains kv₁ :=
    ⟨hsame.hashSlots_eq.symm, fun s => (hsame.key_eq s).symm, fun s => (hsame.memOffset_eq s).symm,
      fun s => (hsame.next_eq s).symm⟩
  rcases h₁.lengthAt hs hsubs t with ⟨sub, hsub, ha⟩ | hold₁
  · exact hof sub hsub ha
  · rcases h₂.lengthAt hs hsubs t with ⟨sub, hsub, ha⟩ | hold₂
    · exact hof sub hsub (hback.answer ha)
    · exact hold₂.trans hold₁.symm

end NVMeVirt
