import NVMeVirt.KvParts

/-!
# The stores of a batch

A batch whose payload holds a list of stores has their effect one by one, up to the lengths of
the entries that are stored again.
-/

namespace NVMeVirt
set_option autoImplicit false
open Outcome Links

variable {storageSize length n : Nat} {buffer : Nat → UInt8} {subs : List SubCmd} {calls : List KvCall}
  {st st₁ st₂ : KvState} {res : KvResult}

def SubCmd.size (sub : SubCmd) : Nat := alignUp sub.key.length + alignUp sub.value.length + alignLen

/-- Where the part of sub-command `i` begins behind the head of the payload. -/
def payloadStart (subs : List SubCmd) (i : Nat) : Nat := alignLen + ((subs.take i).map SubCmd.size).sum

/-- The buffer holds the attributes in its head, then key and value of each sub-command, each from a
multiple of 64 bytes on. -/
structure Payload (buffer : Nat → UInt8) (length : Nat) (subs : List SubCmd) : Prop where
  opcode : ∀ i (h : i < subs.length), (buffer (subCmdAttributeSize * i)).toNat = subs[i].opcode
  keySize : ∀ i (h : i < subs.length), (buffer (subCmdAttributeSize * i + 1)).toNat = subs[i].key.length
  valueSize : ∀ i (h : i < subs.length),
    LittleEndian.value buffer 4 (subCmdAttributeSize * i + 4) = subs[i].value.length
  key : ∀ i (h : i < subs.length) j (hj : j < subs[i].key.length),
    buffer (batchCmdHeadSize + payloadStart subs i + j) = subs[i].key[j]
  value : ∀ i (h : i < subs.length) j (hj : j < subs[i].value.length),
    buffer (batchCmdHeadSize + payloadStart subs i + alignUp subs[i].key.length + j) = subs[i].value[j]
  fits : ∀ i (h : i < subs.length),
    batchCmdHeadSize + payloadStart subs i + alignUp subs[i].key.length + subs[i].value.length ≤ length

theorem payloadStart_succ {i : Nat} (h : i < subs.length) :
    payloadStart subs (i + 1) = payloadStart subs i + subs[i].size := by
  unfold payloadStart
  rw [List.take_succ_eq_append_getElem h, List.map_append, List.sum_append]
  simp only [List.map_cons, List.map_nil, List.sum_singleton]
  omega

theorem le_alignUp (n : Nat) : n ≤ alignUp n := by
  unfold alignUp alignLen
  omega

theorem readBuffer_eq {start : Nat} {bytes : List UInt8}
    (h : ∀ j (hj : j < bytes.length), buffer (start + j) = bytes[j]) (hfit : start + bytes.length ≤ length) :
    readBuffer buffer length start bytes.length = .ok bytes := by
  unfold readBuffer
  rw [if_pos hfit]
  congr 1
  apply List.ext_getElem
  · rw [List.length_map, List.length_range]
  · intro j _ hj
    rw [List.getElem_map, List.getElem_range]
    exact h j hj

theorem Payload.subCmd (h : Payload buffer length subs) {i : Nat} (hi : i < subs.length)
    (hhead : i < maxSubCmd) (hkey : subs[i].key.length ≤ 20) (hvalue : subs[i].value.length ≤ 4097) :
    subCmd buffer length i (payloadStart subs i) = .ok (subs[i], payloadStart subs (i + 1)) := by
  have hfits := h.fits i hi
  have hup := le_alignUp subs[i].key.length
  have hattr : ¬ length < subCmdAttributeSize * i + subCmdAttributeSize := by
    unfold batchCmdHeadSize at hfits
    unfold subCmdAttributeSize
    unfold maxSubCmd at hhead
    omega
  have hlimits : ¬ (20 < subs[i].key.length ∨ 4097 < subs[i].value.length) := by omega
  unfold NVMeVirt.subCmd
  simp only [h.keySize i hi, h.valueSize i hi, h.opcode i hi]
  rw [if_neg hattr, if_neg hlimits, readBuffer_eq (h.key i hi) (by omega), ok_bind,
    readBuffer_eq (h.value i hi) hfits, ok_bind, payloadStart_succ hi]
  rfl

theorem Payload.batchLoop (h : Payload buffer length subs) (hcount : subs.length ≤ maxSubCmd)
    (hsubs : ∀ sub ∈ subs, sub.key.length ≤ 20 ∧ sub.value.length ≤ 4097) {m i : Nat}
    (him : i + m = subs.length) :
    batchLoop storageSize buffer length m i (payloadStart subs i) st =
      performSubs storageSize (subs.drop i) st := by
  induction m generalizing i st with
  | zero =>
    rw [List.drop_eq_nil_of_le (by omega)]
    rfl
  | succ m ih =>
    have hi : i < subs.length := by omega
    obtain ⟨hkey, hvalue⟩ := hsubs subs[i] (List.getElem_mem hi)
    rw [NVMeVirt.batchLoop, h.subCmd hi (by omega) hkey hvalue, ok_bind, List.drop_eq_getElem_cons hi,
      performSubs]
    simp only
    cases doPerformKvBatchedIo storageSize subs[i] st with
    | error e => rfl
    | ok s => exact ih (by omega)

/-- The PRP entries of the command lead to a payload with these sub-commands. -/
def KvBatchCall.Carries (call : KvBatchCall) (subs : List SubCmd) : Prop :=
  call.cmd.rsvd4 = subs.length ∧ ∃ buffer, batchBuffer call.cmd call.host = .ok buffer ∧
    Payload buffer (cmdValueLength call.cmd.toNvmeKvCommand) subs

theorem KvBatchCall.Carries.serve {call : KvBatchCall} (h : call.Carries subs)
    (hcount : subs.length ≤ maxSubCmd)
    (hsubs : ∀ sub ∈ subs, sub.key.length ≤ 20 ∧ sub.value.length ≤ 4097) :
    st.serve storageSize (.batch call) =
      (do let s ← performSubs storageSize subs (st.withHost call.host); return (s, ⟨0, kvSuccess⟩)) := by
  obtain ⟨hn, buffer, hbuffer, hpayload⟩ := h
  have hstart : st.serve storageSize (.batch call) = (do
      let buffer ← batchBuffer call.cmd call.host
      let s ← NVMeVirt.batchLoop storageSize buffer (cmdValueLength call.cmd.toNvmeKvCommand) call.cmd.rsvd4 0
        alignLen (st.withHost call.host)
      return (s, ⟨0, kvSuccess⟩)) := rfl
  rw [hstart, hbuffer, ok_bind, hn]
  have hloop : NVMeVirt.batchLoop storageSize buffer (cmdValueLength call.cmd.toNvmeKvCommand) subs.length 0
      alignLen (st.withHost call.host) = performSubs storageSize subs (st.withHost call.host) :=
    hpayload.batchLoop hcount hsubs (Nat.zero_add _)
  rw [hloop]

/-- The tables are the same, and every retrieve does the same. -/
structure SameOutcome (storageSize : Nat) (st₁ st₂ : KvState) : Prop where
  entries : ∀ slot, st₂.ftl.kvMappingTable slot = st₁.ftl.kvMappingTable slot
  retrieve : ∀ call : KvCall, call.cmd.opcode = nvmeCmdKvRetrieve →
    st₂.perform storageSize call = st₁.perform storageSize call

theorem KvFtl.SameChains.eq {kv kv' : KvFtl} (h : kv.SameChains kv')
    (hlength : ∀ t, kv'.lengthAt t = kv.lengthAt t) : kv' = kv := by
  obtain ⟨slots, _, table⟩ := kv
  obtain ⟨slots', _, table'⟩ := kv'
  obtain rfl : slots' = slots := h.hashSlots_eq
  obtain rfl : table' = table := by
    funext t
    have hkey : (table' t).key = (table t).key := h.key_eq t
    have hoff : (table' t).memOffset = (table t).memOffset := h.memOffset_eq t
    have hnext : (table' t).nextSlot = (table t).nextSlot := h.next_eq t
    have hlen : (table' t).length = (table t).length := hlength t
    calc table' t = ⟨(table' t).key, (table' t).memOffset, (table' t).length, (table' t).nextSlot⟩ := rfl
      _ = ⟨(table t).key, (table t).memOffset, (table t).length, (table t).nextSlot⟩ := by
        rw [hkey, hoff, hlen, hnext]
      _ = table t := rfl
  rfl

theorem Alike.sameOutcome_iff (ha : Alike st₁ st₂) :
    SameOutcome storageSize st₁ st₂ ↔ ∀ t, st₂.ftl.lengthAt t = st₁.ftl.lengthAt t := by
  constructor
  · intro h t
    unfold KvFtl.lengthAt
    rw [h.entries]
  · intro h
    have hftl : st₂.ftl = st₁.ftl := ha.chains.eq h
    have hstate : ∀ host, st₂.withHost host = st₁.withHost host := by
      intro host
      unfold KvState.withHost
      simp only [hftl, ha.allocator_eq, ha.storage_eq]
    refine ⟨fun slot => by rw [hftl], fun call _ => ?_⟩
    unfold KvState.perform
    rw [hstate]

/-- For each key: the length that its entry has first, from before or from the batch, is more than
1024, or the last value of at most 1024 bytes has that length. -/
def LengthsKept (kv : KvFtl) (subs : List SubCmd) : Prop :=
  ∀ key first, firstLength (tableLength kv key) (lengthsOf subs key) = some first → first ≤ smallLength →
    ∀ l, lastSmall (lengthsOf subs key) = some l → l = first

theorem lengthsOf_nil {key : List UInt8} (h : ∀ sub ∈ subs, sub.key ≠ key) : lengthsOf subs key = [] := by
  unfold lengthsOf
  rw [List.filter_eq_nil_iff.mpr (fun sub hsub heq => h sub hsub (of_decide_eq_true heq)), List.map_nil]

theorem lengthsKept_iff {kv : KvFtl} (hsubs : ∀ sub ∈ subs, sub.key.length = n) :
    LengthsKept kv subs ↔ ∀ key : List UInt8, key.length = n →
      lengthAfter updatedLength (tableLength kv key) (lengthsOf subs key) =
        lengthAfter batchedLength (tableLength kv key) (lengthsOf subs key) := by
  constructor
  · intro h key _
    rw [lengthAfter_eq_iff]
    exact h key
  · intro h key
    by_cases hkey : key.length = n
    · exact (lengthAfter_eq_iff _ _).mp (h key hkey)
    · rw [lengthsOf_nil (fun sub hsub heq => hkey ((congrArg List.length heq).symm.trans (hsubs sub hsub)))]
      exact fun _ _ _ _ hl => nomatch hl

theorem sameOutcome_iff_kept {kv : KvFtl} (hs : kv.Sound) (hn : n ≤ 18)
    (hsubs : ∀ sub ∈ subs, sub.key.length = n) (h₁ : StoresAll batchedLength kv subs st₁.ftl)
    (h₂ : StoresAll updatedLength kv subs st₂.ftl) (ha : Alike st₁ st₂) :
    SameOutcome storageSize st₁ st₂ ↔ LengthsKept kv subs := by
  rw [ha.sameOutcome_iff, lengthsKept_iff hsubs]
  constructor
  · intro h key hkey
    rw [← h₂.tableLength hs hn hsubs hkey, ← h₁.tableLength hs hn hsubs hkey, ha.chains.eq h]
  · intro h
    apply StoresAll.lengths_eq hs hn hsubs h₁ h₂ ha.chains
    intro sub hsub
    have hkey := hsubs sub hsub
    rw [h₂.tableLength hs hn hsubs hkey, h₁.tableLength hs hn hsubs hkey]
    exact h sub.key hkey

theorem sameStores_all (h : List.Forall₂ SameStore subs calls) :
    ∀ sub ∈ subs, sub.opcode = nvmeCmdKvStore ∧ sub.key.length ≤ 18 := by
  induction h with
  | nil => exact fun _ hsub => nomatch hsub
  | cons hss _ ih =>
    intro sub hsub
    rcases List.mem_cons.mp hsub with rfl | hsub
    · exact ⟨hss.sub_opcode, cmdKey_le hss.key⟩
    · exact ih sub hsub

/-- Where the batch and its parts return, the outcomes differ in the lengths at most. -/
theorem outcomes_iff_kept {st₁ st₂ : KvState} {host : Nat → UInt8} {n : Nat}
    (hreach : KvReachable storageSize st) (hsubs : ∀ sub ∈ subs, sub.key.length = n)
    (hparts : List.Forall₂ SameStore subs calls)
    (hbatch : performSubs storageSize subs (st.withHost host) = .ok st₁)
    (hrun : kvRun storageSize calls st = .ok st₂) (ha : Alike st₁ st₂) :
    SameOutcome storageSize st₁ st₂ ↔ LengthsKept st.ftl subs := by
  have hstore := sameStores_all hparts
  cases subs with
  | nil =>
    cases hparts
    cases hbatch
    cases hrun
    exact iff_of_true (ha.sameOutcome_iff.mpr (fun _ => rfl)) (fun _ _ _ _ _ hl => nomatch hl)
  | cons sub subs =>
    obtain ⟨_, hfirst, _⟩ := bind_eq_ok.mp hbatch
    have hpos : 0 < (st.withHost host).ftl.hashSlots := doPerformKvBatchedIo_pos hfirst
    have hsound : st.ftl.Sound := hreach.sound hpos
    have hn : n ≤ 18 := hsubs sub List.mem_cons_self ▸ (hstore sub List.mem_cons_self).2
    have hbatched : StoresAll batchedLength (st.withHost host).ftl (sub :: subs) st₁.ftl :=
      performSubs_stores hsound hstore hbatch
    exact sameOutcome_iff_kept hsound hn hsubs hbatched (kvRun_stores hsound hparts hrun) ha

/-- A batch fails as its parts do. Where it returns, the parts lead to the same tables and the same
values exactly when no key gets another small length after the one that its entry has. -/
theorem batch_parts_iff (storageSize n : Nat) (st : KvState) (call : KvBatchCall) (subs : List SubCmd)
    (calls : List KvCall) (hreach : KvReachable storageSize st) (hcount : subs.length ≤ maxSubCmd)
    (hsubs : ∀ sub ∈ subs, sub.key.length = n ∧ sub.value.length ≤ 4096) (hcarries : call.Carries subs)
    (hparts : List.Forall₂ SameStore subs calls) :
    (∀ e, st.serve storageSize (.batch call) = .error e → kvRun storageSize calls st = .error e) ∧
    ∀ st₁ res, st.serve storageSize (.batch call) = .ok (st₁, res) →
      ((∃ st₂, kvRun storageSize calls st = .ok st₂ ∧ SameOutcome storageSize st₁ st₂) ↔
        LengthsKept st.ftl subs) := by
  have hstore := sameStores_all hparts
  have hserve : st.serve storageSize (.batch call) = (do
      let s ← performSubs storageSize subs (st.withHost call.host)
      return (s, ⟨0, kvSuccess⟩)) :=
    hcarries.serve hcount (fun sub hsub =>
      ⟨(hstore sub hsub).2.trans (by decide), (hsubs sub hsub).2.trans (by decide)⟩)
  have hboth : Both Alike (performSubs storageSize subs (st.withHost call.host))
    (kvRun storageSize calls st) :=
    performSubs_both ⟨.refl _, rfl, rfl⟩ hparts
  rw [hserve]
  constructor
  · intro e he
    exact hboth.of_error (bind_pure_eq_error.mp he)
  · intro st₁ res h
    obtain ⟨s, hs, h⟩ := bind_eq_ok.mp h
    cases h
    obtain ⟨st₂, hrun, ha⟩ := hboth.of_ok hs
    rw [← outcomes_iff_kept hreach (fun sub hsub => (hsubs sub hsub).1) hparts hs hrun ha]
    constructor
    · rintro ⟨st₂', hrun', hsame⟩
      obtain rfl := Except.ok.inj (hrun.symm.trans hrun')
      exact hsame
    · exact fun hsame => ⟨st₂, hrun, hsame⟩

/-- Four bytes for `akcl`, then eight. -/
def longerAkcl : List SubCmd := [storeSub (akcl nvmeCmdKvStore) 1 1, storeSub (akcl nvmeCmdKvStore) 2 2]

def longerAkclParts : List KvCall :=
  [(akcl nvmeCmdKvStore).withData 1 1, (akcl nvmeCmdKvStore).withData 2 2]

theorem longerAkcl_carries : (pageBatch longerAkcl).Carries longerAkcl := by
  refine ⟨rfl, _, rfl, ?_⟩
  constructor <;> decide +kernel

theorem longerAkcl_parts : List.Forall₂ SameStore longerAkcl longerAkclParts :=
  .cons ⟨rfl, rfl, rfl, rfl⟩ (.cons ⟨rfl, rfl, rfl, rfl⟩ .nil)

def longerAkclRun : Except Fault (KvState × (KvState × KvResult) × KvState) := do
  let st₀ ← kvInitNamespace (2^30) (2^30) ⟨fun _ => 0, fun _ => 0⟩
  let r ← st₀.serve (2^30) (.batch (pageBatch longerAkcl))
  let st ← kvRun (2^30) longerAkclParts st₀
  return (st₀, r, st)

/-- After the batch the entry says four bytes, after its two parts eight. -/
theorem batch_keeps_length : ∃ st₀ st₁ res st₂, KvReachable (2^30) st₀ ∧
    (pageBatch longerAkcl).Carries longerAkcl ∧
    List.Forall₂ SameStore longerAkcl longerAkclParts ∧
    st₀.serve (2^30) (.batch (pageBatch longerAkcl)) = .ok (st₁, res) ∧
    kvRun (2^30) longerAkclParts st₀ = .ok st₂ ∧
    tableLength st₁.ftl (akcl nvmeCmdKvStore).key = some 4 ∧
    tableLength st₂.ftl (akcl nvmeCmdKvStore).key = some 8 ∧
    ¬ ∃ st, kvRun (2^30) longerAkclParts st₀ = .ok st ∧ SameOutcome (2^30) st₁ st := by
  obtain ⟨⟨st₀, ⟨st₁, res⟩, st₂⟩, hrun, hp⟩ := exists_of_check (show check (fun r =>
      decide (tableLength r.2.1.1.ftl (akcl nvmeCmdKvStore).key = some 4) &&
        decide (tableLength r.2.2.ftl (akcl nvmeCmdKvStore).key = some 8) &&
        decide (r.2.1.1.ftl.lengthAt (r.2.1.1.ftl.hashSlot (akcl nvmeCmdKvStore).key) ≠
          r.2.2.ftl.lengthAt (r.2.1.1.ftl.hashSlot (akcl nvmeCmdKvStore).key))) longerAkclRun =
            true by decide +kernel)
  unfold longerAkclRun at hrun
  obtain ⟨_, hinit, hrun⟩ := bind_eq_ok.mp hrun
  obtain ⟨_, hbatch, hrun⟩ := bind_eq_ok.mp hrun
  obtain ⟨_, hparts, hrun⟩ := bind_eq_ok.mp hrun
  cases hrun
  simp only [Bool.and_eq_true, decide_eq_true_eq] at hp
  obtain ⟨⟨hfour, height⟩, hdiffer⟩ := hp
  refine ⟨st₀, st₁, res, st₂, ⟨2^30, _, st₀, [], hinit, rfl⟩, longerAkcl_carries, longerAkcl_parts, hbatch,
    hparts, hfour,
    height, ?_⟩
  rintro ⟨st, hst, hsame⟩
  obtain rfl := Except.ok.inj (hparts.symm.trans hst)
  apply hdiffer
  unfold KvFtl.lengthAt
  rw [hsame.entries]

/-- Two keys, and one of them again with another value of the same length. -/
def sameLengths : List SubCmd :=
  [storeSub (akcl nvmeCmdKvStore) 1 1, storeSub (imxa nvmeCmdKvStore) 2 2, storeSub (akcl nvmeCmdKvStore) 1 3]

def sameLengthsParts : List KvCall :=
  [(akcl nvmeCmdKvStore).withData 1 1, (imxa nvmeCmdKvStore).withData 2 2, (akcl nvmeCmdKvStore).withData 1 3]

theorem tableLength_init {tableSize : Nat} {mem : Memory}
    (hinit : kvInitNamespace tableSize storageSize mem = .ok st) (hpos : 0 < st.ftl.hashSlots)
    (key : List UInt8) : tableLength st.ftl key = none := by
  by_cases hlen : key.length ≤ 18
  · have ho : KeyOwners storageSize st [] st := KeyOwners.init hinit hpos
    obtain ⟨found, _, ha⟩ := ho.toSound.searchByKey hlen
    rw [ha.tableLength ho.toSound hlen]
    cases found with
    | none => rfl
    | some t =>
      obtain ⟨k, hk⟩ := ho.occupied.mp ha.finds.1
      exact absurd hk filledFor_nil
  · unfold tableLength getMappingEntryByKey searchByKey entryKey
    rw [if_neg hlen]
    rfl

theorem lengthsKept_of_one {kv : KvFtl} (hnew : ∀ key, tableLength kv key = none)
    (hone : ∀ sub ∈ subs, ∀ sub' ∈ subs, sub.key = sub'.key → sub.value.length = sub'.value.length) :
    LengthsKept kv subs := by
  intro key first hfirst _ l hl
  rw [hnew] at hfirst
  have hmem : ∀ {m}, m ∈ lengthsOf subs key → ∃ sub ∈ subs, sub.key = key ∧ sub.value.length = m := by
    intro m hm
    obtain ⟨sub, hsub, rfl⟩ := List.mem_map.mp hm
    obtain ⟨hsub, hkey⟩ := List.mem_filter.mp hsub
    exact ⟨sub, hsub, of_decide_eq_true hkey, rfl⟩
  obtain ⟨sub, hsub, hkey, rfl⟩ := hmem (List.mem_of_head? hfirst)
  obtain ⟨sub', hsub', hkey', rfl⟩ := hmem (List.mem_filter.mp (List.mem_of_getLast? hl)).1
  exact hone sub' hsub' sub hsub (hkey'.trans hkey.symm)

def sameLengthsRun : Except Fault (KvState × KvState × KvResult) := do
  let st₀ ← kvInitNamespace (2^30) (2^30) ⟨fun _ => 0, fun _ => 0⟩
  let r ← st₀.serve (2^30) (.batch (pageBatch sameLengths))
  return (st₀, r)

theorem batch_parts_same_lengths : ∃ st₀ st₁ res st₂,
    st₀.serve (2^30) (.batch (pageBatch sameLengths)) = .ok (st₁, res) ∧
    kvRun (2^30) sameLengthsParts st₀ = .ok st₂ ∧ SameOutcome (2^30) st₁ st₂ := by
  obtain ⟨⟨st₀, st₁, res⟩, hrun, hp⟩ := exists_of_check (show check (fun r =>
      decide (0 < r.1.ftl.hashSlots)) sameLengthsRun = true by decide +kernel)
  unfold sameLengthsRun at hrun
  obtain ⟨_, hinit, hrun⟩ := bind_eq_ok.mp hrun
  obtain ⟨_, hbatch, hrun⟩ := bind_eq_ok.mp hrun
  cases hrun
  have hcarries : (pageBatch sameLengths).Carries sameLengths := by
    refine ⟨rfl, _, rfl, ?_⟩
    constructor <;> decide +kernel
  have hparts : List.Forall₂ SameStore sameLengths sameLengthsParts :=
    .cons ⟨rfl, rfl, rfl, rfl⟩ (.cons ⟨rfl, rfl, rfl, rfl⟩ (.cons ⟨rfl, rfl, rfl, rfl⟩ .nil))
  have hkept : LengthsKept st₀.ftl sameLengths :=
    lengthsKept_of_one (tableLength_init hinit (of_decide_eq_true hp)) (by decide)
  have hiff := (batch_parts_iff (2^30) 4 st₀ (pageBatch sameLengths) sameLengths sameLengthsParts
    ⟨2^30, _, st₀, [], hinit, rfl⟩ (by decide) (by decide) hcarries hparts).2 st₁ res hbatch
  obtain ⟨st₂, hst₂, hsame⟩ := hiff.mpr hkept
  exact ⟨st₀, st₁, res, st₂, hbatch, hst₂, hsame⟩

end NVMeVirt
