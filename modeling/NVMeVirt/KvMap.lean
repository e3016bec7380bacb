import NVMeVirt.KvTable

/-!
# The mapping table as a finite map

With keys of one length the table holds the keys whose last store or delete was a store, as
long as each delete meets a slot that no other key is found through.
-/

namespace NVMeVirt
set_option autoImplicit false
open Outcome Links Relation

/-- The four commands that `__do_perform_kv_io` serves. -/
def IsKvIo (cmd : NvmeKvCommand) : Prop :=
  cmd.opcode = nvmeCmdKvStore ∨ cmd.opcode = nvmeCmdKvRetrieve ∨ cmd.opcode = nvmeCmdKvExist ∨
    cmd.opcode = nvmeCmdKvDelete

instance (cmd : NvmeKvCommand) : Decidable (IsKvIo cmd) := inferInstanceAs (Decidable (_ ∨ _))

def KvCall.key (call : KvCall) : List UInt8 := call.cmd.key.take (cmdKeyLength call.cmd)

def KvCall.changes (call : KvCall) (key : List UInt8) : Bool :=
  (call.cmd.opcode = nvmeCmdKvStore ∨ call.cmd.opcode = nvmeCmdKvDelete) ∧ call.key = key

def lastChange (calls : List KvCall) (key : List UInt8) : Option KvCall :=
  (calls.filter (fun call => call.changes key)).getLast?

def Stored (calls : List KvCall) (key : List UInt8) : Prop :=
  ∃ call, lastChange calls key = some call ∧ call.cmd.opcode = nvmeCmdKvStore

variable {calls : List KvCall} {call : KvCall} {key : List UInt8} {storageSize n : Nat}

theorem lastChange_snoc : lastChange (calls ++ [call]) key =
    if call.changes key then some call else lastChange calls key := by
  unfold lastChange
  rw [List.filter_append]
  cases h : call.changes key with
  | true => simp [h]
  | false => simp [h]

theorem stored_snoc_of_keeps (h : call.changes key = false) :
    Stored (calls ++ [call]) key ↔ Stored calls key := by
  unfold Stored
  rw [lastChange_snoc, h]
  simp

theorem stored_snoc_store (hop : call.cmd.opcode = nvmeCmdKvStore) :
    Stored (calls ++ [call]) key ↔ key = call.key ∨ Stored calls key := by
  by_cases h : key = call.key
  · have hch : call.changes key = true := by simp [KvCall.changes, hop, h]
    unfold Stored
    rw [lastChange_snoc, hch]
    simp [hop, h]
  · rw [stored_snoc_of_keeps (by simp [KvCall.changes, Ne.symm h])]
    simp [h]

theorem stored_snoc_delete (hop : call.cmd.opcode = nvmeCmdKvDelete) :
    Stored (calls ++ [call]) key ↔ key ≠ call.key ∧ Stored calls key := by
  by_cases h : key = call.key
  · have hch : call.changes key = true := by simp [KvCall.changes, hop, h]
    unfold Stored
    rw [lastChange_snoc, hch]
    simp [hop, h, nvmeCmdKvDelete, nvmeCmdKvStore]
  · rw [stored_snoc_of_keeps (by simp [KvCall.changes, Ne.symm h])]
    simp [h]

theorem stored_snoc_other (h₁ : call.cmd.opcode ≠ nvmeCmdKvStore) (h₂ : call.cmd.opcode ≠ nvmeCmdKvDelete) :
    Stored (calls ++ [call]) key ↔ Stored calls key :=
  stored_snoc_of_keeps (by simp [KvCall.changes, h₁, h₂])

/-- The copy of the entry found that a lookup of `n` bytes returns. -/
def entryFound (kv : KvFtl) (n : Nat) : Option Nat → MappingEntry
  | none => .blank
  | some slot =>
    let e := kv.kvMappingTable slot
    { e with key := e.key.take n ++ MappingEntry.blank.key.drop n }

def foundEntry (kv : KvFtl) (cmd : NvmeKvCommand) : Option Nat → MappingEntry :=
  entryFound kv (cmdKeyLength cmd)

variable {kv kv' : KvFtl} {cmd : NvmeKvCommand} {st st' : KvState} {found : Option Nat}

theorem getMappingEntry_eq (h : searchKey kv cmd = .ok found) :
    getMappingEntry kv cmd = .ok (foundEntry kv cmd found) := by
  unfold getMappingEntry
  rw [h, ok_bind]
  cases found with
  | none => rfl
  | some slot => rfl

theorem foundEntry_free (cmd : NvmeKvCommand) {key : List UInt8} {slot : Nat} (h : kv.Finds key slot found) :
    (foundEntry kv cmd found).memOffset = none ↔ found = none := by
  cases found with
  | none => exact ⟨fun _ => rfl, fun _ => rfl⟩
  | some t =>
    constructor
    · exact fun hfree => absurd hfree h.1.2
    · exact fun hnone => nomatch hnone

inductive Becomes (storageSize : Nat) (cmd : NvmeKvCommand) (kv : KvFtl) : Option Nat → KvFtl → Prop where
  | same {found : Option Nat} (hstore : cmd.opcode = nvmeCmdKvStore → found ≠ none)
      (hdelete : cmd.opcode = nvmeCmdKvDelete → found = none) : Becomes storageSize cmd kv found kv
  | length {slot : Nat} (hop : cmd.opcode = nvmeCmdKvStore) :
      Becomes storageSize cmd kv (some slot)
        (kv.setEntry slot { kv.kvMappingTable slot with length := cmdValueLength cmd })
  | insert {newOffset : Nat} {kv' : KvFtl} (hop : cmd.opcode = nvmeCmdKvStore)
      (h : newMappingEntry storageSize kv cmd newOffset = .ok kv') : Becomes storageSize cmd kv none kv'
  | delete {slot : Nat} (hop : cmd.opcode = nvmeCmdKvDelete) :
      Becomes storageSize cmd kv (some slot) (kv.setEntry slot .blank)

theorem performKvStore_becomes {key : List UInt8} {slot : Nat} {st st' : KvState} {res : KvResult}
    (hop : cmd.opcode = nvmeCmdKvStore) (hr : searchKey st.ftl cmd = .ok found)
    (hf : st.ftl.Finds key slot found)
    (h : performKvStore storageSize cmd (foundEntry st.ftl cmd found) st = .ok (st', res)) :
    Becomes storageSize cmd st.ftl found st'.ftl := by
  unfold performKvStore at h
  have hiff := foundEntry_free cmd hf
  have hdel : cmd.opcode = nvmeCmdKvDelete → found = none := by
    rw [hop]
    exact fun h => nomatch h
  split at h
  · rename_i hnone
    obtain rfl := hiff.mp hnone
    obtain ⟨_, _, h⟩ := bind_eq_ok.mp h
    obtain ⟨ftl, hnew, h⟩ := bind_eq_ok.mp h
    cases h
    exact .insert hop hnew
  · rename_i offset hsome
    cases found with
    | none => cases hsome
    | some t =>
      obtain ⟨_, _, h⟩ := bind_eq_ok.mp h
      obtain ⟨ftl, hftl, h⟩ := bind_eq_ok.mp h
      cases h
      unfold updateLength at hftl
      split at hftl
      · unfold updateMappingEntry at hftl
        rw [hr, ok_bind] at hftl
        cases hftl
        exact .length hop
      · cases hftl
        exact .same (fun _ h => nomatch h) hdel

theorem doPerformKvIo_becomes {key : List UInt8} {slot : Nat} {res : KvResult}
    (hr : searchKey st.ftl cmd = .ok found) (hf : st.ftl.Finds key slot found)
    (h : doPerformKvIo storageSize cmd st = .ok (st', res)) :
    Becomes storageSize cmd st.ftl found st'.ftl := by
  have hiff := foundEntry_free cmd hf
  unfold doPerformKvIo at h
  rw [getMappingEntry_eq hr, ok_bind] at h
  split_ifs at h with hstore hretrieve hexist hnone hdelete hnone
  · exact performKvStore_becomes hstore hr hf h
  · -- a retrieve changes the memory only
    have hsame : st'.ftl = st.ftl := by
      unfold performKvRetrieve at h
      split at h
      · cases h
        rfl
      · obtain ⟨_, _, h⟩ := bind_eq_ok.mp h
        cases h
        rfl
    rw [hsame]
    exact .same (fun h => absurd h hstore) (fun h => by rw [hretrieve] at h; cases h)
  · cases h
    exact .same (fun h => absurd h hstore) (fun h => by rw [hexist] at h; cases h)
  · cases h
    exact .same (fun h => absurd h hstore) (fun h => by rw [hexist] at h; cases h)
  · cases h
    exact .same (fun h => absurd h hstore) (fun _ => hiff.mp hnone)
  · obtain ⟨ftl, hftl, h⟩ := bind_eq_ok.mp h
    cases h
    cases found with
    | none => exact absurd rfl hnone
    | some t =>
      unfold deleteMappingEntry at hftl
      rw [hr, ok_bind] at hftl
      cases hftl
      exact .delete hdelete
  · cases h
    exact .same (fun h => absurd h hstore) (fun h => absurd h hdelete)

theorem KvState.perform_becomes {key : List UInt8} {slot : Nat} {res : KvResult}
    (hr : searchKey st.ftl call.cmd = .ok found) (hf : st.ftl.Finds key slot found)
    (h : st.perform storageSize call = .ok (st', res)) :
    Becomes storageSize call.cmd st.ftl found st'.ftl := by
  have hb : Becomes storageSize call.cmd (st.withHost call.host).ftl found st'.ftl :=
    doPerformKvIo_becomes hr hf h
  exact hb

structure KvFtl.Mapped (kv : KvFtl) (n : Nat) : Prop extends kv.Sound where
  unique : ∀ {s t}, kv.Occupied s → kv.Occupied t → kv.keyAt n s = kv.keyAt n t → s = t
  found : ∀ {s}, kv.Occupied s → kv.links.Reach (kv.hashSlot (kv.keyAt n s)) s

def KvFtl.Holds (kv : KvFtl) (n : Nat) (key : List UInt8) : Prop := ∃ t, kv.Occupied t ∧ kv.keyAt n t = key

theorem KvFtl.Finds.iff_of_mapped (hm : kv.Mapped n) (hlen : key.length = n)
    (h : kv.Finds key (kv.hashSlot key) found) (t : Nat) :
    found = some t ↔ kv.Occupied t ∧ kv.keyAt n t = key := by
  subst hlen
  constructor
  · rintro rfl
    exact ⟨h.1, h.2.2⟩
  · rintro ⟨hocc, hkey⟩
    have hreach := hm.found hocc
    rw [hkey] at hreach
    cases found with
    | none => exact absurd hkey (h t hocc hreach)
    | some s =>
      have heq : s = t := hm.unique h.1 hocc (h.2.2.trans hkey.symm)
      rw [heq]

theorem KvFtl.Finds.holds_iff (hm : kv.Mapped n) (hlen : key.length = n)
    (h : kv.Finds key (kv.hashSlot key) found) : found ≠ none ↔ kv.Holds n key := by
  rw [Option.ne_none_iff_exists']
  unfold KvFtl.Holds
  exact exists_congr (fun t => h.iff_of_mapped hm hlen t)

theorem KvFtl.Mapped.insert {valOffset length slot : Nat} (hm : kv.Mapped n) (hlen : key.length = n)
    (hnew : ¬ kv.Holds n key) (hi : kv.Inserted kv' key valOffset length slot) : kv'.Mapped n where
  toSound := hm.toSound.insert hi
  unique := by
    intro s t hs ht heq
    have hslot : kv'.keyAt n slot = key := hlen ▸ hi.keyAt_slot
    have hother : ∀ {x}, kv.Occupied x → kv'.keyAt n x = key → False := by
      intro x hx hkey
      rw [hi.keyAt_other (hi.ne_of_occupied hx)] at hkey
      exact hnew ⟨x, hx, hkey⟩
    rcases hi.occupied.mp hs with hs | rfl
    · rcases hi.occupied.mp ht with ht | rfl
      · rw [hi.keyAt_other (hi.ne_of_occupied hs), hi.keyAt_other (hi.ne_of_occupied ht)] at heq
        exact hm.unique hs ht heq
      · exact (hother hs (heq.trans hslot)).elim
    · rcases hi.occupied.mp ht with ht | rfl
      · exact (hother ht (heq.symm.trans hslot)).elim
      · rfl
  found := by
    intro s hs
    rcases hi.occupied.mp hs with hs | rfl
    · rw [hi.keyAt_other (hi.ne_of_occupied hs)]
      have hreach := (hm.found hs).mono (fun _ _ => hi.step)
      unfold KvFtl.hashSlot at hreach ⊢
      rw [hi.hashSlots_eq]
      exact hreach
    · have hslot : kv'.keyAt n s = key := hlen ▸ hi.keyAt_slot
      rw [hslot]
      exact hi.reach

theorem KvFtl.Inserted.holds {valOffset length slot : Nat} (hlen : key.length = n)
    (hi : kv.Inserted kv' key valOffset length slot) {k : List UInt8} :
    kv'.Holds n k ↔ k = key ∨ kv.Holds n k := by
  have hslot : kv'.keyAt n slot = key := hlen ▸ hi.keyAt_slot
  constructor
  · rintro ⟨t, ht, hkey⟩
    rcases hi.occupied.mp ht with ht | rfl
    · rw [hi.keyAt_other (hi.ne_of_occupied ht)] at hkey
      exact .inr ⟨t, ht, hkey⟩
    · exact .inl (hkey.symm.trans hslot)
  · rintro (rfl | ⟨t, ht, hkey⟩)
    · exact ⟨slot, hi.occupied.mpr (.inr rfl), hslot⟩
    · refine ⟨t, hi.occupied.mpr (.inl ht), ?_⟩
      rw [hi.keyAt_other (hi.ne_of_occupied ht)]
      exact hkey

/-- Slot `d` is on the way to no key but its own. -/
def KvFtl.Detached (kv : KvFtl) (n d : Nat) : Prop :=
  ∀ v, kv.Occupied v → v ≠ d → ¬ kv.links.Passes (kv.hashSlot (kv.keyAt n v)) d v

theorem KvFtl.Mapped.delete {d : Nat} (hm : kv.Mapped n) (hd : kv.Detached n d) :
    (kv.setEntry d .blank).Mapped n where
  toSound := hm.toSound.delete d
  unique := by
    intro s t hs ht heq
    obtain ⟨hs, hsd⟩ := KvFtl.occupied_delete.mp hs
    obtain ⟨ht, htd⟩ := KvFtl.occupied_delete.mp ht
    rw [KvFtl.keyAt_delete hsd, KvFtl.keyAt_delete htd] at heq
    exact hm.unique hs ht heq
  found := by
    intro s hs
    obtain ⟨hs, hsd⟩ := KvFtl.occupied_delete.mp hs
    rw [KvFtl.keyAt_delete hsd, KvFtl.links_delete]
    exact Cells.reach_erase (hm.found hs) (hd s hs hsd)

theorem KvFtl.Mapped.holds_delete {d : Nat} (hm : kv.Mapped n) (hd : kv.Occupied d) {k : List UInt8} :
    (kv.setEntry d .blank).Holds n k ↔ k ≠ kv.keyAt n d ∧ kv.Holds n k := by
  constructor
  · rintro ⟨t, ht, hkey⟩
    obtain ⟨ht, htd⟩ := KvFtl.occupied_delete.mp ht
    rw [KvFtl.keyAt_delete htd] at hkey
    refine ⟨?_, t, ht, hkey⟩
    rintro rfl
    exact htd (hm.unique ht hd hkey)
  · rintro ⟨hne, t, ht, hkey⟩
    have htd : t ≠ d := by
      rintro rfl
      exact hne hkey.symm
    refine ⟨t, KvFtl.occupied_delete.mpr ⟨ht, htd⟩, ?_⟩
    rw [KvFtl.keyAt_delete htd]
    exact hkey

theorem KvFtl.Mapped.sameChains (hm : kv.Mapped n) (h : kv.SameChains kv') : kv'.Mapped n where
  toSound := hm.toSound.sameChains h
  unique := by
    intro s t hs ht heq
    rw [h.keyAt_eq, h.keyAt_eq] at heq
    exact hm.unique (h.occupied.mp hs) (h.occupied.mp ht) heq
  found := by
    intro s hs
    rw [h.keyAt_eq, h.hashSlot_eq, h.links_eq]
    exact hm.found (h.occupied.mp hs)

theorem KvFtl.SameChains.holds (h : kv.SameChains kv') {k : List UInt8} : kv'.Holds n k ↔ kv.Holds n k := by
  unfold KvFtl.Holds
  exact exists_congr (fun t => by rw [h.occupied, h.keyAt_eq])

structure Tracks (n : Nat) (calls : List KvCall) (kv : KvFtl) : Prop extends kv.Mapped n where
  holds_iff : ∀ key, kv.Holds n key ↔ Stored calls key

theorem KvCall.cmdKey_eq (hlen : cmdKeyLength call.cmd = n) (hn : n ≤ kvcmdInlineKeyMax) :
    cmdKey call.cmd = .ok call.key := cmdKey_eq_ok.mpr ⟨hlen ▸ hn, rfl⟩

theorem Tracks.init {tableSize : Nat} {mem : Memory}
    (hinit : kvInitNamespace tableSize storageSize mem = .ok st)
    (hpos : 0 < st.ftl.hashSlots) : Tracks n [] st.ftl := by
  unfold kvInitNamespace at hinit
  split at hinit
  · cases hinit
    have hfree : ∀ s, ¬ KvFtl.Occupied ⟨tableSize / kvMappingEntrySize, by assumption,
        fun _ => ⟨List.replicate 18 0, none, 2^64 - 1, none⟩⟩ s := fun s hs => hs.2 rfl
    exact
      { pos := hpos
        next_lt := fun h => nomatch h
        free_unlinked := fun _ => rfl
        stamped := ⟨fun _ => 0, 1, fun _ => Nat.zero_lt_one, fun hstep => absurd hstep.1 (hfree _)⟩
        unique := fun hs => absurd hs (hfree _)
        found := fun hs => absurd hs (hfree _)
        holds_iff := fun key => ⟨fun ⟨t, ht, _⟩ => absurd ht (hfree t), fun ⟨_, h, _⟩ => nomatch h⟩ }
  · cases hinit

def SafeDelete (n : Nat) (kv : KvFtl) (cmd : NvmeKvCommand) : Prop :=
  ∀ d, searchKey kv cmd = .ok (some d) → kv.Detached n d

theorem Tracks.becomes (ht : Tracks n calls kv) (hkey : cmdKey call.cmd = .ok call.key)
    (hlen : call.key.length = n) (hr : searchKey kv call.cmd = .ok found)
    (hf : kv.Finds call.key (kv.hashSlot call.key) found)
    (hsafe : call.cmd.opcode = nvmeCmdKvDelete → SafeDelete n kv call.cmd)
    (h : Becomes storageSize call.cmd kv found kv') : Tracks n (calls ++ [call]) kv' := by
  have hholds := hf.holds_iff ht.toMapped hlen
  cases h with
  | same hstore hdelete =>
    refine ⟨ht.toMapped, fun key => ?_⟩
    rw [ht.holds_iff]
    by_cases h₁ : call.cmd.opcode = nvmeCmdKvStore
    · rw [stored_snoc_store h₁]
      refine ⟨.inr, fun h => h.elim (fun heq => ?_) id⟩
      exact (ht.holds_iff key).mp (heq ▸ hholds.mp (hstore h₁))
    · by_cases h₂ : call.cmd.opcode = nvmeCmdKvDelete
      · rw [stored_snoc_delete h₂]
        refine ⟨fun h => ⟨?_, h⟩, And.right⟩
        rintro rfl
        exact hholds.mpr ((ht.holds_iff _).mpr h) (hdelete h₂)
      · exact (stored_snoc_other h₁ h₂).symm
  | length hop =>
    have hsame := kv.sameChains_setLength ‹Nat› (cmdValueLength call.cmd)
    refine ⟨ht.toMapped.sameChains hsame, fun key => ?_⟩
    rw [hsame.holds, ht.holds_iff, stored_snoc_store hop]
    refine ⟨.inr, fun h => h.elim (fun heq => ?_) id⟩
    exact (ht.holds_iff key).mp (heq ▸ hholds.mp (fun h => nomatch h))
  | insert hop hnew =>
    obtain ⟨_, slot, hi⟩ := ht.toSound.newMappingEntry hkey hnew
    have hfresh : ¬ kv.Holds n call.key := fun h => hholds.mpr h rfl
    refine ⟨ht.toMapped.insert hlen hfresh hi, fun key => ?_⟩
    rw [hi.holds hlen, ht.holds_iff, stored_snoc_store hop]
  | delete hop =>
    rename_i slot
    obtain ⟨hocc, hslot⟩ := (hf.iff_of_mapped ht.toMapped hlen slot).mp rfl
    refine ⟨ht.toMapped.delete (hsafe hop slot hr), fun key => ?_⟩
    rw [ht.toMapped.holds_delete hocc, hslot, ht.holds_iff, stored_snoc_delete hop]

theorem Tracks.step (ht : Tracks n calls st.ftl) (hlen : cmdKeyLength call.cmd = n)
    (hn : n ≤ kvcmdInlineKeyMax) {res : KvResult}
    (hsafe : call.cmd.opcode = nvmeCmdKvDelete → SafeDelete n st.ftl call.cmd)
    (h : st.perform storageSize call = .ok (st', res)) : Tracks n (calls ++ [call]) st'.ftl := by
  have hkey := KvCall.cmdKey_eq hlen hn
  have hklen : call.key.length = n := (cmdKey_length hkey).trans hlen
  obtain ⟨found, hr, hf⟩ := ht.toSound.searchKey hkey
  exact ht.becomes hkey hklen hr hf hsafe (KvState.perform_becomes hr hf h)

def KvCall.reports (storageSize : Nat) (st : KvState) (call : KvCall) (status : Nat) : Prop :=
  ∃ st' res, st.perform storageSize call = .ok (st', res) ∧ res.status = status

theorem perform_exist (hop : call.cmd.opcode = nvmeCmdKvExist) (hr : searchKey st.ftl call.cmd = .ok found)
    {key : List UInt8} {slot : Nat} (hf : st.ftl.Finds key slot found) :
    call.reports storageSize st (if found = none then kvErrKeyNotExist else kvSuccess) := by
  have hiff := foundEntry_free call.cmd hf
  unfold KvCall.reports KvState.perform doPerformKvIo
  rw [KvState.withHost_ftl, getMappingEntry_eq hr, ok_bind, if_neg (by rw [hop]; decide),
    if_neg (by rw [hop]; decide), if_pos hop]
  by_cases h : found = none
  · rw [if_pos (hiff.mpr h), if_pos h]
    exact ⟨_, _, rfl, rfl⟩
  · rw [if_neg (fun hn => h (hiff.mp hn)), if_neg h]
    exact ⟨_, _, rfl, rfl⟩

theorem perform_retrieve (hop : call.cmd.opcode = nvmeCmdKvRetrieve)
    (hr : searchKey st.ftl call.cmd = .ok found)
    {key : List UInt8} {slot : Nat} (hf : st.ftl.Finds key slot found) :
    call.reports storageSize st kvErrKeyNotExist ↔ found = none := by
  have hiff := foundEntry_free call.cmd hf
  unfold KvCall.reports KvState.perform doPerformKvIo
  rw [KvState.withHost_ftl, getMappingEntry_eq hr, ok_bind, if_neg (by rw [hop]; decide), if_pos hop, ← hiff]
  unfold performKvRetrieve
  constructor
  · rintro ⟨st', res, h, hst⟩
    split at h
    · rename_i hnone
      exact hnone
    · obtain ⟨_, _, h⟩ := bind_eq_ok.mp h
      cases h
      cases hst
  · intro hnone
    rw [hnone]
    exact ⟨_, _, rfl, rfl⟩

theorem perform_delete (hop : call.cmd.opcode = nvmeCmdKvDelete) (hr : searchKey st.ftl call.cmd = .ok found) :
    ∃ st' res, st.perform storageSize call = .ok (st', res) := by
  unfold KvState.perform doPerformKvIo
  rw [KvState.withHost_ftl, getMappingEntry_eq hr, ok_bind, if_neg (by rw [hop]; decide),
    if_neg (by rw [hop]; decide), if_neg (by rw [hop]; decide), if_pos hop]
  split
  · exact ⟨_, _, rfl⟩
  · unfold deleteMappingEntry
    rw [hr, ok_bind]
    cases found with
    | none => exact ⟨_, _, rfl⟩
    | some slot => exact ⟨_, _, rfl⟩

/-- No loop of the computation runs for ever. -/
def Ends {α : Type} (x : Except Fault α) : Prop := Sat x (fun _ => True) (· ≠ .outOfFuel)

theorem Ends.bind {α β : Type} {x : Except Fault α} {f : α → Except Fault β} (hx : Ends x)
    (hf : ∀ a, Ends (f a)) : Ends (x >>= f) := Sat.bind hx (fun a _ => hf a)

theorem ends_ok {α : Type} (a : α) : Ends (.ok a) := trivial

theorem Ends.ne {α : Type} {x : Except Fault α} (h : Ends x) : x ≠ .error .outOfFuel :=
  fun hx => Sat.of_error h hx rfl

theorem nextPrp_ends (host : Nat → UInt8) (cmd : NvmeRwCommand) (c : PrpCursor) (remaining : Nat) :
    Ends (nextPrp host cmd c remaining) := by
  unfold nextPrp
  simp only
  split_ifs
  · exact ends_ok _
  · exact ends_ok _
  · exact ends_ok _
  · split
    · exact fun h => nomatch h
    · exact ends_ok _

theorem performIoLoop_ends {cmd : NvmeRwCommand} {start fuel offset remaining : Nat} {c : PrpCursor}
    {mem : Memory} (hfuel : remaining ≤ fuel) :
    Ends (performIoLoop start cmd fuel c offset remaining mem) := by
  induction fuel generalizing c offset remaining mem with
  | zero =>
    rw [performIoLoop, if_pos (Nat.le_zero.mp hfuel)]
    exact ends_ok _
  | succ fuel ih =>
    rw [performIoLoop]
    split
    · exact ends_ok _
    · rename_i hne
      apply (nextPrp_ends mem.host cmd c remaining).bind
      intro r
      have hpos : 0 < pieceSize r.2 remaining := pieceSize_pos hne
      exact ih (by omega)

theorem KvFtl.Sound.newMappingEntry_ends (hs : kv.Sound) {valOffset free : Nat} (hkey : cmdKey cmd = .ok key)
    (hfree : kv.Free free) : Ends (NVMeVirt.newMappingEntry storageSize kv cmd valOffset) := by
  obtain ⟨⟨slot, prev⟩, hslot⟩ := hs.newSlot_ends key hfree
  unfold NVMeVirt.newMappingEntry
  have hassert : Ends (nvmevAssert (valOffset < storageSize)) := by
    unfold nvmevAssert
    split
    · exact ends_ok _
    · exact fun h => nomatch h
  apply hassert.bind
  intro _
  rw [hkey, ok_bind, hslot, ok_bind]
  cases prev with
  | none => exact ends_ok _
  | some p => exact ends_ok _

theorem KvFtl.Sound.perform_ends (hs : st.ftl.Sound) (hkey : cmdKey call.cmd = .ok key) {free : Nat}
    (hfree : st.ftl.Free free) : Ends (st.perform storageSize call) := by
  obtain ⟨found, hr, _⟩ := hs.searchKey hkey
  unfold KvState.perform doPerformKvIo
  rw [KvState.withHost_ftl, getMappingEntry_eq hr, ok_bind]
  split_ifs
  · unfold performKvStore
    split
    · apply (performIoLoop_ends (Nat.le_refl _)).bind
      intro mem
      exact (hs.newMappingEntry_ends hkey hfree).bind (fun ftl => ends_ok _)
    · apply (performIoLoop_ends (Nat.le_refl _)).bind
      intro mem
      unfold updateLength updateMappingEntry
      rw [KvState.withHost_ftl, hr, ok_bind]
      split
      · cases found with
        | none => exact ends_ok _
        | some slot => exact ends_ok _
      · exact ends_ok _
  · unfold performKvRetrieve
    split
    · exact ends_ok _
    · exact (performIoLoop_ends (Nat.le_refl _)).bind (fun mem => ends_ok _)
  · exact ends_ok _
  · exact ends_ok _
  · exact ends_ok _
  · unfold deleteMappingEntry
    rw [hr, ok_bind]
    cases found with
    | none => exact ends_ok _
    | some slot => exact ends_ok _
  · exact ends_ok _

/-- The state shows the keys whose last store or delete was a store, and no others. -/
structure FiniteMap (storageSize n : Nat) (calls : List KvCall) (st : KvState) : Prop where
  exist : ∀ call : KvCall, call.cmd.opcode = nvmeCmdKvExist → cmdKeyLength call.cmd = n →
    (call.reports storageSize st kvErrKeyNotExist ↔ ¬ Stored calls call.key) ∧
      (call.reports storageSize st kvSuccess ↔ Stored calls call.key)
  retrieve : ∀ call : KvCall, call.cmd.opcode = nvmeCmdKvRetrieve → cmdKeyLength call.cmd = n →
    (call.reports storageSize st kvErrKeyNotExist ↔ ¬ Stored calls call.key)
  unique : ∀ s t, st.ftl.Occupied s → st.ftl.Occupied t → st.ftl.keyAt n s = st.ftl.keyAt n t → s = t
  returns : ∀ call : KvCall, cmdKeyLength call.cmd = n → (∃ slot, st.ftl.Free slot) →
    st.perform storageSize call ≠ .error .outOfFuel

theorem KvCall.reports_unique {s s' : Nat} (h : call.reports storageSize st s)
    (h' : call.reports storageSize st s') : s = s' := by
  obtain ⟨_, _, hr, rfl⟩ := h
  obtain ⟨_, _, hr', rfl⟩ := h'
  rw [hr] at hr'
  cases hr'
  rfl

theorem perform_exist_iff (hop : call.cmd.opcode = nvmeCmdKvExist) (hr : searchKey st.ftl call.cmd = .ok found)
    {key : List UInt8} {slot : Nat} (hf : st.ftl.Finds key slot found) :
    (call.reports storageSize st kvErrKeyNotExist ↔ found = none) ∧
      (call.reports storageSize st kvSuccess ↔ found ≠ none) := by
  have hreport : call.reports storageSize st (if found = none then kvErrKeyNotExist else kvSuccess) :=
    perform_exist hop hr hf
  have hdiffer : kvSuccess ≠ kvErrKeyNotExist := by decide
  by_cases h : found = none
  · rw [if_pos h] at hreport
    refine ⟨iff_of_true hreport h, iff_of_false ?_ (not_not.mpr h)⟩
    exact fun hs => hdiffer (KvCall.reports_unique hs hreport)
  · rw [if_neg h] at hreport
    refine ⟨iff_of_false ?_ h, iff_of_true hreport h⟩
    exact fun hs => hdiffer (KvCall.reports_unique hreport hs)

theorem Tracks.finiteMap (ht : Tracks n calls st.ftl) (hn : n ≤ kvcmdInlineKeyMax) :
    FiniteMap storageSize n calls st := by
  have hfound : ∀ call : KvCall, cmdKeyLength call.cmd = n → ∃ found, searchKey st.ftl call.cmd = .ok found ∧
      st.ftl.Finds call.key (st.ftl.hashSlot call.key) found ∧ (found = none ↔ ¬ Stored calls call.key) := by
    intro call hlen
    have hkey := KvCall.cmdKey_eq hlen hn
    obtain ⟨found, hr, hf⟩ := ht.toSound.searchKey hkey
    have hholds := (hf.holds_iff ht.toMapped ((cmdKey_length hkey).trans hlen)).trans (ht.holds_iff _)
    exact ⟨found, hr, hf, by rw [← hholds, not_not]⟩
  refine
    { exist := ?_
      retrieve := ?_
      unique := fun _ _ => ht.unique
      returns := fun call hlen ⟨_, hfree⟩ => (ht.toSound.perform_ends (KvCall.cmdKey_eq hlen hn) hfree).ne }
  · intro call hop hlen
    obtain ⟨found, hr, hf, hiff⟩ := hfound call hlen
    obtain ⟨hmissing, hpresent⟩ : (call.reports storageSize st kvErrKeyNotExist ↔ found = none) ∧
        (call.reports storageSize st kvSuccess ↔ found ≠ none) := perform_exist_iff hop hr hf
    rw [ne_eq, hiff, not_not] at hpresent
    exact ⟨hmissing.trans hiff, hpresent⟩
  · intro call hop hlen
    obtain ⟨found, hr, hf, hiff⟩ := hfound call hlen
    exact (perform_retrieve hop hr hf).trans hiff

theorem Becomes.of_delete {slot : Nat} (hop : cmd.opcode = nvmeCmdKvDelete)
    (h : Becomes storageSize cmd kv (some slot) kv') : kv' = kv.setEntry slot .blank := by
  cases h with
  | same _ hdelete => cases hdelete hop
  | length hstore =>
    rw [hop] at hstore
    cases hstore
  | delete _ => rfl

theorem KvFtl.Mapped.search_cut {d v : Nat} (hm : kv.Mapped n) (hv : kv.Occupied v) (hvd : v ≠ d)
    (hpass : kv.links.Passes (kv.hashSlot (kv.keyAt n v)) d v) (hlen : (kv.keyAt n v).length = n)
    (hf : (kv.setEntry d .blank).Finds (kv.keyAt n v) (kv.hashSlot (kv.keyAt n v)) found) : found = none := by
  cases found with
  | none => rfl
  | some t =>
    exfalso
    obtain ⟨ht, hreach, hkey⟩ := hf
    obtain ⟨ht, htd⟩ := KvFtl.occupied_delete.mp ht
    rw [KvFtl.keyAt_delete htd, hlen] at hkey
    obtain rfl : t = v := hm.unique ht hv hkey
    obtain ⟨stamp, now, hst⟩ := hm.stamped
    rw [KvFtl.links_delete] at hreach
    exact hst.not_reach_erase hpass hvd hreach

theorem Stored.exists_call (h : Stored calls key) : ∃ c ∈ calls, c.key = key := by
  obtain ⟨c, hc, _⟩ := h
  obtain ⟨hmem, hch⟩ := List.mem_filter.mp (List.mem_of_getLast? hc)
  unfold KvCall.changes at hch
  exact ⟨c, hmem, (of_decide_eq_true hch).2⟩

/-- The same key in a `kv_exist`. -/
def KvCall.toExist (call : KvCall) : KvCall := ⟨{ call.cmd with opcode := nvmeCmdKvExist }, call.host⟩

/-- A delete that cuts off another key shows. -/
theorem Tracks.safe_of_finiteMap (ht : Tracks n calls st.ftl) (hcalls : ∀ c ∈ calls, cmdKeyLength c.cmd = n)
    (hlen : cmdKeyLength call.cmd = n) (hn : n ≤ kvcmdInlineKeyMax)
    (hop : call.cmd.opcode = nvmeCmdKvDelete) {res : KvResult}
    (h : st.perform storageSize call = .ok (st', res)) (hmap : FiniteMap storageSize n (calls ++ [call]) st') :
    SafeDelete n st.ftl call.cmd := by
  intro d hd v hv hvd hpass
  have hkey := KvCall.cmdKey_eq hlen hn
  obtain ⟨found, hr, hf⟩ := ht.toSound.searchKey hkey
  obtain rfl : some d = found := Except.ok.inj (hd.symm.trans hr)
  obtain ⟨hdocc, hdkey⟩ := (hf.iff_of_mapped ht.toMapped ((cmdKey_length hkey).trans hlen) d).mp rfl
  have hst' := (KvState.perform_becomes hd hf h).of_delete hop
  -- ask for the key in `v`, with the command that stored it turned into a `kv_exist`
  have hstored : Stored calls (st.ftl.keyAt n v) := (ht.holds_iff _).mp ⟨v, hv, rfl⟩
  obtain ⟨c, hc, hck⟩ := hstored.exists_call
  have hask : cmdKey c.toExist.cmd = .ok (st.ftl.keyAt n v) := hck ▸ KvCall.cmdKey_eq (hcalls c hc) hn
  obtain ⟨found', hr', hf'⟩ := (ht.toSound.delete d).searchKey hask
  have hnone := ht.toMapped.search_cut hv hvd hpass ((cmdKey_length hask).trans (hcalls c hc)) hf'
  rw [← hst'] at hr' hf'
  have hexist := hmap.exist c.toExist rfl (hcalls c hc)
  have hmissing : c.toExist.reports storageSize st' kvErrKeyNotExist :=
    (perform_exist_iff rfl hr' hf').1.mpr hnone
  refine hexist.1.mp hmissing ((stored_snoc_delete hop).mpr ⟨?_, ?_⟩)
  · rintro heq
    have hvkey : st.ftl.keyAt n v = call.key := hck.symm.trans heq
    exact hvd (ht.unique hv hdocc (hvkey.trans hdkey.symm))
  · exact hck.symm ▸ hstored

theorem Tracks.safe_of_only (ht : Tracks n calls st.ftl) (hlen : cmdKeyLength call.cmd = n)
    (hn : n ≤ kvcmdInlineKeyMax) (honly : ∀ key, Stored calls key → key = call.key) :
    SafeDelete n st.ftl call.cmd := by
  intro d hd v hv hvd
  have hkey := KvCall.cmdKey_eq hlen hn
  obtain ⟨found, hr, hf⟩ := ht.toSound.searchKey hkey
  obtain rfl : some d = found := Except.ok.inj (hd.symm.trans hr)
  obtain ⟨hdocc, hdkey⟩ := (hf.iff_of_mapped ht.toMapped ((cmdKey_length hkey).trans hlen) d).mp rfl
  have hvkey := honly _ ((ht.holds_iff _).mp ⟨v, hv, rfl⟩)
  exact absurd (ht.unique hv hdocc (hvkey.trans hdkey.symm)) hvd

/-- Each delete of the run meets a slot that is on the way to no other key. -/
def SafeDeletes (storageSize n : Nat) (st₀ : KvState) (calls : List KvCall) : Prop :=
  ∀ pre call st, pre ++ [call] <+: calls → kvRun storageSize pre st₀ = .ok st →
    call.cmd.opcode = nvmeCmdKvDelete → SafeDelete n st.ftl call.cmd

variable {st₀ : KvState}

theorem SafeDeletes.mono {calls' : List KvCall} (h : SafeDeletes storageSize n st₀ calls)
    (hpre : calls' <+: calls) : SafeDeletes storageSize n st₀ calls' :=
  fun pre call st hp => h pre call st (hp.trans hpre)

theorem SafeDeletes.nil : SafeDeletes storageSize n st₀ [] := by
  intro pre call _ hp
  exact absurd hp.length_le (by simp)

theorem SafeDeletes.snoc (h : SafeDeletes storageSize n st₀ calls)
    (hlast : ∀ st, kvRun storageSize calls st₀ = .ok st → call.cmd.opcode = nvmeCmdKvDelete →
      SafeDelete n st.ftl call.cmd) : SafeDeletes storageSize n st₀ (calls ++ [call]) := by
  intro pre c st hp hrun hop
  rcases List.prefix_concat_iff.mp hp with heq | hp
  · obtain ⟨rfl, hc⟩ := List.append_inj' heq rfl
    obtain rfl : c = call := List.singleton_inj.mp hc
    exact hlast st hrun hop
  · exact h pre c st hp hrun hop

theorem SafeDeletes.tracks (h₀ : Tracks n [] st₀.ftl) (hcalls : ∀ c ∈ calls, cmdKeyLength c.cmd = n)
    (hn : n ≤ kvcmdInlineKeyMax) (hsafe : SafeDeletes storageSize n st₀ calls)
    (hrun : kvRun storageSize calls st₀ = .ok st) : Tracks n calls st.ftl := by
  induction calls using List.reverseRecOn generalizing st with
  | nil =>
    cases hrun
    exact h₀
  | append_singleton calls call ih =>
    obtain ⟨s, res, hs, hstep⟩ := kvRun_snoc.mp hrun
    have hpre : calls <+: calls ++ [call] := List.prefix_append ..
    have ht := ih (fun c hc => hcalls c (List.mem_append_left _ hc)) (hsafe.mono hpre) hs
    exact ht.step (hcalls call (by simp)) hn (hsafe calls call s (List.prefix_refl _) hs) hstep

/-- Seen from outside, a run with an unsafe delete goes wrong at the first one. -/
theorem safeDeletes_of_finiteMap (h₀ : Tracks n [] st₀.ftl) (hcalls : ∀ c ∈ calls, cmdKeyLength c.cmd = n)
    (hn : n ≤ kvcmdInlineKeyMax)
    (hmap : ∀ pre st, pre <+: calls → kvRun storageSize pre st₀ = .ok st → FiniteMap storageSize n pre st) :
    SafeDeletes storageSize n st₀ calls := by
  induction calls using List.reverseRecOn with
  | nil => exact .nil
  | append_singleton calls call ih =>
    have hpre : calls <+: calls ++ [call] := List.prefix_append ..
    have hcalls' : ∀ c ∈ calls, cmdKeyLength c.cmd = n := fun c hc => hcalls c (List.mem_append_left _ hc)
    have hlen := hcalls call (by simp)
    have hsafe := ih hcalls' (fun pre st hp => hmap pre st (hp.trans hpre))
    apply hsafe.snoc
    intro st hrun hop
    have ht := hsafe.tracks h₀ hcalls' hn hrun
    obtain ⟨found, hr, _⟩ := ht.toSound.searchKey (KvCall.cmdKey_eq hlen hn)
    obtain ⟨st', res, hstep⟩ : ∃ st' res, st.perform storageSize call = .ok (st', res) := perform_delete hop hr
    have hall := hmap _ st' (List.prefix_refl _) (kvRun_snoc.mpr ⟨st, res, hrun, hstep⟩)
    exact ht.safe_of_finiteMap hcalls' hlen hn hop hstep hall

/-- The table behaves as a finite map in every state of a run exactly when each delete of the
run meets a slot that no other stored key is found through. -/
theorem kv_finite_map (tableSize storageSize n : Nat) (mem : Memory) (st₀ : KvState) (calls : List KvCall)
    (hinit : kvInitNamespace tableSize storageSize mem = .ok st₀) (hslots : 0 < st₀.ftl.hashSlots)
    (hn : n ≤ kvcmdInlineKeyMax) (hcalls : ∀ c ∈ calls, cmdKeyLength c.cmd = n) :
    (∀ pre st, pre <+: calls → kvRun storageSize pre st₀ = .ok st → FiniteMap storageSize n pre st) ↔
      SafeDeletes storageSize n st₀ calls := by
  have h₀ : Tracks n [] st₀.ftl := Tracks.init hinit hslots
  constructor
  · exact safeDeletes_of_finiteMap h₀ hcalls hn
  · intro hsafe pre st hpre hrun
    have ht := (hsafe.mono hpre).tracks h₀ (fun c hc => hcalls c (hpre.subset hc)) hn hrun
    exact ht.finiteMap hn

/-- A command for a four-byte key, with one word of data from host page 0. -/
def fourByteCall (opcode : Nat) (k₀ k₁ k₂ k₃ : UInt8) : KvCall where
  cmd := ⟨opcode, 0, 0, 1, 3, k₀ :: k₁ :: k₂ :: k₃ :: List.replicate 12 0, rfl⟩
  host := fun _ => 0

/-- The keys `akcl` and `imxa` have the same hash slot in a table of 1 GiB. -/
def akcl (opcode : Nat) : KvCall := fourByteCall opcode 0x61 0x6b 0x63 0x6c

def imxa (opcode : Nat) : KvCall := fourByteCall opcode 0x69 0x6d 0x78 0x61

def colliding : List KvCall := [akcl nvmeCmdKvStore, imxa nvmeCmdKvStore, akcl nvmeCmdKvDelete]

def collidingRun : Except Fault (KvState × KvState × KvState × KvResult) := do
  let st₀ ← kvInitNamespace (2^30) (2^30) ⟨fun _ => 0, fun _ => 0⟩
  let st ← kvRun (2^30) colliding st₀
  let (st', res) ← st.perform (2^30) (imxa nvmeCmdKvExist)
  return (st₀, st, st', res)

/-- The delete of `akcl` takes the link to `imxa` along. -/
theorem delete_loses_key : ∃ st₀ st, kvInitNamespace (2^30) (2^30) ⟨fun _ => 0, fun _ => 0⟩ = .ok st₀ ∧
    kvRun (2^30) colliding st₀ = .ok st ∧ (∃ slot, st.ftl.Free slot) ∧
    Stored colliding (imxa nvmeCmdKvExist).key ∧
    (imxa nvmeCmdKvExist).reports (2^30) st kvErrKeyNotExist ∧ ¬ FiniteMap (2^30) 4 colliding st := by
  obtain ⟨⟨st₀, st, st', res⟩, hrun, hp⟩ := exists_of_check (show check (fun r =>
      decide (r.2.2.2.status = kvErrKeyNotExist) && decide (0 < r.2.1.ftl.hashSlots) &&
        decide ((r.2.1.ftl.kvMappingTable 0).memOffset = none)) collidingRun = true by decide +kernel)
  unfold collidingRun at hrun
  obtain ⟨_, hinit, hrun⟩ := bind_eq_ok.mp hrun
  obtain ⟨_, hst, hrun⟩ := bind_eq_ok.mp hrun
  obtain ⟨⟨_, _⟩, hexist, hrun⟩ := bind_eq_ok.mp hrun
  cases hrun
  simp only [Bool.and_eq_true, decide_eq_true_eq] at hp
  obtain ⟨⟨hstatus, hpos⟩, hfree⟩ := hp
  have hstored : Stored colliding (imxa nvmeCmdKvExist).key := ⟨imxa nvmeCmdKvStore, rfl, rfl⟩
  have hreports : (imxa nvmeCmdKvExist).reports (2^30) st kvErrKeyNotExist := ⟨_, _, hexist, hstatus⟩
  refine ⟨st₀, st, hinit, hst, ⟨0, hpos, hfree⟩, hstored, hreports, fun hmap => ?_⟩
  exact (hmap.exist (imxa nvmeCmdKvExist) rfl rfl).1.mp hreports hstored

def onlyAkcl : List KvCall := [akcl nvmeCmdKvStore, akcl nvmeCmdKvDelete]

def onlyAkclRun : Except Fault (KvState × KvState) := do
  let st₀ ← kvInitNamespace (2^30) (2^30) ⟨fun _ => 0, fun _ => 0⟩
  let st ← kvRun (2^30) onlyAkcl st₀
  return (st₀, st)

theorem onlyAkcl_safe {st₀ : KvState} (h₀ : Tracks 4 [] st₀.ftl) : SafeDeletes (2^30) 4 st₀ onlyAkcl := by
  have hstore : SafeDeletes (2^30) 4 st₀ [akcl nvmeCmdKvStore] :=
    SafeDeletes.nil.snoc (fun _ _ hop => nomatch (show nvmeCmdKvStore = nvmeCmdKvDelete from hop))
  apply hstore.snoc
  intro st hrun _
  have ht := hstore.tracks h₀ (fun c hc => by rw [List.mem_singleton.mp hc]; rfl) (by decide) hrun
  refine ht.safe_of_only rfl (by decide) (fun key hkey => ?_)
  obtain ⟨c, hc, rfl⟩ := hkey.exists_call
  rw [List.mem_singleton.mp hc]
  rfl

theorem kv_finite_map_only_key : ∃ st₀ st, kvInitNamespace (2^30) (2^30) ⟨fun _ => 0, fun _ => 0⟩ = .ok st₀ ∧
    kvRun (2^30) onlyAkcl st₀ = .ok st ∧ FiniteMap (2^30) 4 onlyAkcl st := by
  obtain ⟨⟨st₀, st⟩, hrun, hp⟩ := exists_of_check (show check (fun r =>
      decide (0 < r.1.ftl.hashSlots)) onlyAkclRun = true by decide +kernel)
  unfold onlyAkclRun at hrun
  obtain ⟨_, hinit, hrun⟩ := bind_eq_ok.mp hrun
  obtain ⟨_, hst, hrun⟩ := bind_eq_ok.mp hrun
  cases hrun
  have hpos : 0 < st₀.ftl.hashSlots := of_decide_eq_true hp
  have hcalls : ∀ c ∈ onlyAkcl, cmdKeyLength c.cmd = 4 := by
    intro c hc
    rcases List.mem_cons.mp hc with rfl | hc
    · rfl
    · rw [List.mem_singleton.mp hc]
      rfl
  have hmap := (kv_finite_map (2^30) (2^30) 4 _ st₀ onlyAkcl hinit hpos (by decide) hcalls).mpr
    (onlyAkcl_safe (Tracks.init hinit hpos))
  exact ⟨st₀, st, hinit, hst, hmap onlyAkcl st (List.prefix_refl _) hst⟩

end NVMeVirt
