import NVMeVirt.KvParts
import NVMeVirt.Lib.PackedStore

/-!
# The key-value namespace as a store

As long as stores fit the places of their keys and no delete cuts a chain, the namespace
answers every command as a map from keys to values would: what is retrieved is what was stored
last, and a deleted key is gone.
-/

namespace NVMeVirt
set_option autoImplicit false
open Outcome Links

/-- The data of a store, when the PRP entries lead to it. -/
def KvCall.bytes (call : KvCall) : List UInt8 :=
  match call.value with
  | .ok v => v
  | .error _ => []

def KvCall.request (call : KvCall) : PackedStore.Request (List UInt8) (List UInt8) :=
  if call.cmd.opcode = nvmeCmdKvStore then .put call.key call.bytes
  else if call.cmd.opcode = nvmeCmdKvRetrieve then .get call.key
  else if call.cmd.opcode = nvmeCmdKvExist then .has call.key
  else .drop call.key

/-- The host memory and the completion by which the host learns of a reply. -/
def KvCall.shown (call : KvCall) : PackedStore.Reply (List UInt8) → Except Fault ((Nat → UInt8) × KvResult)
  | .done => .ok (call.host, ⟨0, kvSuccess⟩)
  | .missing => .ok (call.host, ⟨0, kvErrKeyNotExist⟩)
  | .found v => do
    let host ← call.receives (v.take (cmdValueLength call.cmd))
    return (host, ⟨min v.length (cmdValueLength call.cmd), kvSuccess⟩)

/-- What fits: the storage area in all, and in an update a length that can be recorded. -/
def kvRules (storageSize : Nat) : PackedStore.Rules (List UInt8) where
  size := List.length
  cap := storageSize
  replaces v w := LengthKept (0, v.length) w.length

abbrev ValueStore := PackedStore.Store (List UInt8) (List UInt8)

variable {storageSize tableSize n : Nat} {calls : List KvCall} {call : KvCall} {st st' : KvState}
  {s : ValueStore} {found : Option Nat}

theorem request_store (hop : call.cmd.opcode = nvmeCmdKvStore) : call.request = .put call.key call.bytes :=
  if_pos hop

theorem request_retrieve (hop : call.cmd.opcode = nvmeCmdKvRetrieve) : call.request = .get call.key := by
  unfold KvCall.request
  rw [if_neg (by rw [hop]; decide), if_pos hop]

theorem request_exist (hop : call.cmd.opcode = nvmeCmdKvExist) : call.request = .has call.key := by
  unfold KvCall.request
  rw [if_neg (by rw [hop]; decide), if_neg (by rw [hop]; decide), if_pos hop]

theorem request_delete (hop : call.cmd.opcode = nvmeCmdKvDelete) : call.request = .drop call.key := by
  unfold KvCall.request
  rw [if_neg (by rw [hop]; decide), if_neg (by rw [hop]; decide), if_neg (by rw [hop]; decide)]

theorem KvCall.bytes_eq {v : List UInt8} (h : call.value = .ok v) : call.bytes = v := by
  unfold KvCall.bytes
  rw [h]

theorem performIoLoop_host {cmd : NvmeRwCommand} {mem mem' : Memory} (hw : WritesData cmd)
    {start offset fuel remaining : Nat} {c : PrpCursor}
    (h : performIoLoop start cmd fuel c offset remaining mem = .ok mem') : mem'.host = mem.host := by
  induction fuel generalizing c offset remaining mem with
  | zero =>
    rw [performIoLoop] at h
    split at h <;> cases h
    rfl
  | succ fuel ih =>
    rw [performIoLoop] at h
    split at h
    · cases h
      rfl
    · obtain ⟨⟨c', paddr⟩, _, h⟩ := bind_eq_ok.mp h
      rw [ih h, transfer_host hw]

/-- A store that goes through has its data, takes the room of a new key and leaves the host
memory alone. -/
theorem perform_store_leaves (hop : call.cmd.opcode = nvmeCmdKvStore)
    (hr : searchKey st.ftl call.cmd = .ok found) {key : List UInt8} {slot : Nat}
    (hf : st.ftl.Finds key slot found) (hoff : storeOffset st call.cmd found < 2^64) {res : KvResult}
    (h : st.perform storageSize call = .ok (st', res)) :
    (∃ v, call.value = .ok v) ∧ st'.mem.host = call.host ∧ res = ⟨0, kvSuccess⟩ ∧ st'.allocator =
      if found = none then (allocateMemOffset st.allocator call.cmd).1 else st.allocator := by
  have hcopied : ∀ {mem' : Memory}, kvCopy call.cmd (storeOffset st call.cmd found)
      (cmdValueLength call.cmd) ⟨call.host, st.mem.storage⟩ = .ok mem' →
      (∃ v, call.value = .ok v) ∧ mem'.host = call.host := by
    intro mem' hcopy
    obtain ⟨v, hv, _⟩ := kvCopy_store hop hoff hcopy
    exact ⟨⟨v, hv⟩, performIoLoop_host (kvRwCommand_writes.mpr hop) hcopy⟩
  unfold KvState.perform doPerformKvIo at h
  rw [KvState.withHost_ftl, getMappingEntry_eq hr, ok_bind, if_pos hop] at h
  unfold performKvStore at h
  cases found with
  | none =>
    obtain ⟨mem', hcopy, h⟩ := bind_eq_ok.mp h
    obtain ⟨ftl, _, h⟩ := bind_eq_ok.mp h
    cases h
    obtain ⟨hv, hhost⟩ := hcopied hcopy
    exact ⟨hv, hhost, rfl, (if_pos rfl).symm⟩
  | some t =>
    obtain ⟨offset, hoffset⟩ := Option.ne_none_iff_exists'.mp hf.1.2
    have hentry : (foundEntry st.ftl call.cmd (some t)).memOffset = some offset := hoffset
    have hplace : storeOffset st call.cmd (some t) = offset := by
      simp only [storeOffset, KvFtl.extent, hoffset, Option.getD_some]
    rw [hplace] at hcopied
    rw [hentry] at h
    obtain ⟨mem', hcopy, h⟩ := bind_eq_ok.mp h
    obtain ⟨ftl, _, h⟩ := bind_eq_ok.mp h
    cases h
    obtain ⟨hv, hhost⟩ := hcopied hcopy
    exact ⟨hv, hhost, rfl, (if_neg (Option.some_ne_none _)).symm⟩

theorem perform_other_leaves (hop : call.cmd.opcode ≠ nvmeCmdKvStore) {res : KvResult}
    (h : st.perform storageSize call = .ok (st', res)) :
    st'.mem.storage = st.mem.storage ∧ st'.allocator = st.allocator := by
  unfold KvState.perform doPerformKvIo at h
  obtain ⟨entry, _, h⟩ := bind_eq_ok.mp h
  rw [if_neg hop] at h
  split_ifs at h
  · unfold performKvRetrieve at h
    split at h
    · cases h
      exact ⟨rfl, rfl⟩
    · obtain ⟨mem', hcopy, h⟩ := bind_eq_ok.mp h
      cases h
      have hsame : mem'.storage = (st.withHost call.host).mem.storage :=
        performIoLoop_storage (fun hw => hop (kvRwCommand_writes.mp hw)) hcopy
      exact ⟨hsame, rfl⟩
  · cases h
    exact ⟨rfl, rfl⟩
  · cases h
    exact ⟨rfl, rfl⟩
  · cases h
    exact ⟨rfl, rfl⟩
  · obtain ⟨ftl, _, h⟩ := bind_eq_ok.mp h
    cases h
    exact ⟨rfl, rfl⟩
  · cases h
    exact ⟨rfl, rfl⟩

structure KvState.Shows (st : KvState) (storageSize n : Nat) (calls : List KvCall) (s : ValueStore) : Prop
    extends Tracks n calls st.ftl where
  latest : st.allocator.latest = s.used
  present : ∀ {key}, s.entries key ≠ none → st.ftl.Holds n key
  holding : ∀ {t}, st.ftl.Occupied t → ∃ e c, s.entries (st.ftl.keyAt n t) = some e ∧
    (st.ftl.extent t).1 = e.start ∧ Holding storageSize st t c e.value

theorem KvState.Shows.absent (k : st.Shows storageSize n calls s) (hlen : call.key.length = n)
    (hf : st.ftl.Finds call.key (st.ftl.hashSlot call.key) none) : s.entries call.key = none := by
  by_contra hne
  exact (hf.holds_iff k.toMapped hlen).mpr (k.present hne) rfl

theorem KvState.Shows.slot (k : st.Shows storageSize n calls s) (hlen : call.key.length = n) {t : Nat}
    (hf : st.ftl.Finds call.key (st.ftl.hashSlot call.key) (some t)) :
    st.ftl.Occupied t ∧ ∃ e c, s.entries call.key = some e ∧ (st.ftl.extent t).1 = e.start ∧
      Holding storageSize st t c e.value := by
  obtain ⟨hocc, hkey⟩ := (hf.iff_of_mapped k.toMapped hlen t).mp rfl
  obtain ⟨e, c, he, hh⟩ := k.holding hocc
  rw [hkey] at he
  exact ⟨hocc, e, c, he, hh⟩

theorem KvState.Shows.place (k : st.Shows storageSize n calls s) (p : s.Packed (kvRules storageSize))
    (hsize : storageSize + 1 < 2^64) (hlen : call.key.length = n)
    (hf : st.ftl.Finds call.key (st.ftl.hashSlot call.key) found) :
    ∃ e, (s.put (kvRules storageSize) call.key call.bytes).entries call.key = some e ∧
      e.value = call.bytes ∧ e.start = storeOffset st call.cmd found ∧
      storeOffset st call.cmd found ≤ storageSize := by
  have hcap : s.used ≤ storageSize := p.used_le
  cases found with
  | none =>
    have hoff : storeOffset st call.cmd none = s.used := by
      rw [← k.latest]
      exact if_neg (by rw [show st.allocator.latest = s.used from k.latest]; omega)
    rw [PackedStore.put_new (k.absent hlen hf), hoff]
    exact ⟨_, Function.update_self .., rfl, rfl, hcap⟩
  | some t =>
    obtain ⟨_, e, c, he, hstart, _⟩ := k.slot hlen hf
    have hfits := (p.fits he).2
    rw [PackedStore.put_present he]
    refine ⟨_, Function.update_self .., rfl, hstart.symm, ?_⟩
    change (st.ftl.extent t).1 ≤ storageSize
    omega

theorem KvState.Shows.store (k : st.Shows storageSize n calls s) (p : s.Packed (kvRules storageSize))
    (hsize : storageSize + 1 < 2^64) (hop : call.cmd.opcode = nvmeCmdKvStore)
    (hlen : cmdKeyLength call.cmd = n) (hn : n ≤ kvcmdInlineKeyMax)
    (hfit : s.Fits (kvRules storageSize) call.key call.bytes) {res : KvResult}
    (h : st.perform storageSize call = .ok (st', res)) :
    st'.Shows storageSize n (calls ++ [call]) (s.put (kvRules storageSize) call.key call.bytes) ∧
      st'.mem.host = call.host ∧ res = ⟨0, kvSuccess⟩ := by
  have hkey := KvCall.cmdKey_eq hlen hn
  have hklen : call.key.length = n := (cmdKey_length hkey).trans hlen
  obtain ⟨found, hr, hf⟩ := k.toSound.searchKey hkey
  obtain ⟨e, he, hvalue, hstart, hoff⟩ := k.place p hsize hklen hf
  obtain ⟨⟨v, hv⟩, hhost, hres, halloc⟩ := perform_store_leaves hop hr hf (by omega) h
  have hlength : call.bytes.length = cmdValueLength call.cmd := by
    rw [KvCall.bytes_eq hv]
    exact KvCall.value_length hv
  have hkept : ∀ t, found = some t → LengthKept (st.ftl.extent t) (cmdValueLength call.cmd) := by
    rintro t rfl
    obtain ⟨_, e₀, c, he₀, _, hh⟩ := k.slot hklen hf
    unfold PackedStore.Store.Fits at hfit
    rw [he₀] at hfit
    have hrep : LengthKept (0, e₀.value.length) call.bytes.length := hfit.2
    unfold LengthKept at hrep ⊢
    rw [hh.length_eq, ← hlength]
    exact hrep
  obtain ⟨slot, w, hdone⟩ := k.toMapped.perform_store hop hkey hklen hr hf hkept (by omega) h
  obtain rfl : w = call.bytes := by rw [KvCall.bytes_eq hdone.value]
  have p' : (s.put (kvRules storageSize) call.key call.bytes).Packed (kvRules storageSize) :=
    PackedStore.Store.Packed.next p (show s.Permits (kvRules storageSize) (.put call.key call.bytes) from hfit)
  have hend : storeOffset st call.cmd found + call.bytes.length ≤ storageSize := by
    have h₁ := p'.fits he
    have h₂ := p'.used_le
    rw [hvalue, hstart] at h₁
    exact Nat.le_trans (Nat.le_trans (Nat.add_le_add_left h₁.1 _) h₁.2) h₂
  have hdelete : call.cmd.opcode = nvmeCmdKvDelete → SafeDelete n st.ftl call.cmd := by
    rw [hop]
    exact fun h => nomatch (show nvmeCmdKvStore = nvmeCmdKvDelete from h)
  have ht := k.toTracks.step hlen hn hdelete h
  refine ⟨⟨ht, ?_, ?_, ?_⟩, hhost, hres⟩
  · rw [halloc]
    cases found with
    | none =>
      have hnew := k.absent hklen hf
      rw [if_pos rfl, PackedStore.put_new hnew]
      unfold PackedStore.Store.Fits at hfit
      rw [hnew] at hfit
      have hroom : s.used + call.bytes.length ≤ storageSize := hfit
      change u64 (st.allocator.latest + cmdValueLength call.cmd) = s.used + call.bytes.length
      rw [k.latest, hlength]
      unfold u64
      omega
    | some t =>
      obtain ⟨_, e₀, c, he₀, _⟩ := k.slot hklen hf
      rw [if_neg (Option.some_ne_none _), PackedStore.put_present he₀]
      exact k.latest
  · intro key hne
    rw [ht.holds_iff, stored_snoc_store hop]
    by_cases hk : key = call.key
    · exact Or.inl hk
    · rw [PackedStore.put_other hk] at hne
      exact Or.inr ((k.holds_iff key).mp (k.present hne))
  · intro t hocc
    by_cases hts : t = slot
    · rw [hts, hdone.puts.keyAt, hdone.puts.extent_eq]
      refine ⟨e, call, he, hstart.symm, ?_⟩
      rw [hvalue]
      exact hdone.holding (by omega) hend
    · have hocc₀ := ((hdone.puts.occupied t).mp hocc).resolve_right hts
      obtain ⟨e₀, c, he₀, hstart₀, hh⟩ := k.holding hocc₀
      have hne : st.ftl.keyAt n t ≠ call.key := hdone.puts.fresh t hocc₀ hts
      have he₁ := he₀
      have hkept : (s.put (kvRules storageSize) call.key call.bytes).entries (st.ftl.keyAt n t) = _ :=
        PackedStore.put_other hne
      rw [← hkept] at he₁
      have hapart := p'.apart he he₁ (Ne.symm hne)
      rw [(hdone.puts.other t hts).1, (hdone.puts.other t hts).2]
      refine ⟨e₀, c, he₁, hstart₀, hdone.holding_other (by omega) hend hts ?_ hh⟩
      rintro a ⟨hin₁, hin₂⟩
      have hroom := (p'.fits he).1
      have hroom₀ := (p'.fits he₁).1
      rw [hvalue] at hroom
      unfold Ranges.Within at hin₁ hin₂
      rw [hstart₀, hh.length_eq] at hin₂
      rw [hstart] at hapart
      change call.bytes.length ≤ e.room at hroom
      change e₀.value.length ≤ e₀.room at hroom₀
      omega

theorem Holding.congr {t : Nat} {c : KvCall} {v : List UInt8} (hh : Holding storageSize st t c v)
    (hextent : st'.ftl.extent t = st.ftl.extent t) (hstorage : st'.mem.storage = st.mem.storage) :
    Holding storageSize st' t c v := by
  refine ⟨hh.value, ?_, ?_, ?_⟩
  · rw [hextent]
    exact hh.length_eq
  · rw [hextent]
    exact hh.fits
  · intro i hi
    rw [hextent, hstorage]
    exact hh.bytes i hi

theorem KvState.Shows.idle (k : st.Shows storageSize n calls s) {calls' : List KvCall}
    (ht : Tracks n calls' st'.ftl) (hftl : st'.ftl = st.ftl) (hstorage : st'.mem.storage = st.mem.storage)
    (halloc : st'.allocator = st.allocator) : st'.Shows storageSize n calls' s := by
  refine ⟨ht, by rw [halloc, k.latest], ?_, ?_⟩
  · intro key hne
    rw [hftl]
    exact k.present hne
  · intro t hocc
    rw [hftl] at hocc ⊢
    obtain ⟨e, c, he, hstart, hh⟩ := k.holding hocc
    exact ⟨e, c, he, hstart, hh.congr (by rw [hftl]) hstorage⟩

theorem KvState.Shows.erase (k : st.Shows storageSize n calls s) {calls' : List KvCall} {d : Nat}
    (ht : Tracks n calls' st'.ftl) (hocc : st.ftl.Occupied d) (hftl : st'.ftl = st.ftl.setEntry d .blank)
    (hstorage : st'.mem.storage = st.mem.storage) (halloc : st'.allocator = st.allocator) :
    st'.Shows storageSize n calls' (s.drop (st.ftl.keyAt n d)) := by
  refine ⟨ht, by rw [halloc, k.latest]; rfl, ?_, ?_⟩
  · intro key hne
    rw [hftl, k.toMapped.holds_delete hocc]
    by_cases hkey : key = st.ftl.keyAt n d
    · rw [hkey, PackedStore.drop_self] at hne
      exact absurd rfl hne
    · rw [PackedStore.drop_other hkey] at hne
      exact ⟨hkey, k.present hne⟩
  · intro t hocc'
    rw [hftl] at hocc'
    obtain ⟨hocct, htd⟩ := KvFtl.occupied_delete.mp hocc'
    obtain ⟨e, c, he, hstart, hh⟩ := k.holding hocct
    have hne : st.ftl.keyAt n t ≠ st.ftl.keyAt n d := fun heq => htd (k.unique hocct hocc heq)
    have hextent : st'.ftl.extent t = st.ftl.extent t := by
      rw [hftl]
      unfold KvFtl.extent
      rw [KvFtl.setEntry_of_ne htd]
    rw [hextent]
    rw [hftl, KvFtl.keyAt_delete htd, PackedStore.drop_other hne]
    exact ⟨e, c, he, hstart, hh.congr hextent hstorage⟩

theorem KvState.Shows.other (k : st.Shows storageSize n calls s) (hio : IsKvIo call.cmd)
    (hop : call.cmd.opcode ≠ nvmeCmdKvStore) (hlen : cmdKeyLength call.cmd = n) (hn : n ≤ kvcmdInlineKeyMax)
    (hsafe : call.cmd.opcode = nvmeCmdKvDelete → SafeDelete n st.ftl call.cmd) {res : KvResult}
    (h : st.perform storageSize call = .ok (st', res)) :
    st'.Shows storageSize n (calls ++ [call]) (s.next (kvRules storageSize) call.request) := by
  have hkey := KvCall.cmdKey_eq hlen hn
  have hklen : call.key.length = n := (cmdKey_length hkey).trans hlen
  obtain ⟨found, hr, hf⟩ := k.toSound.searchKey hkey
  obtain ⟨hstorage, halloc⟩ := perform_other_leaves hop h
  have ht := k.toTracks.step hlen hn hsafe h
  have hb := KvState.perform_becomes hr hf h
  have hread : call.cmd.opcode ≠ nvmeCmdKvDelete →
      s.next (kvRules storageSize) call.request = s ∧ st'.ftl = st.ftl := by
    intro hne
    refine ⟨?_, ?_⟩
    · rcases hio with h | h | h | h
      · exact absurd h hop
      · rw [request_retrieve h]
        rfl
      · rw [request_exist h]
        rfl
      · exact absurd h hne
    · generalize st'.ftl = kv at hb
      cases hb with
      | same => rfl
      | length h => exact absurd h hop
      | insert h => exact absurd h hop
      | delete h => exact absurd h hne
  by_cases hdel : call.cmd.opcode = nvmeCmdKvDelete
  · rw [request_delete hdel]
    change st'.Shows storageSize n (calls ++ [call]) (s.drop call.key)
    generalize hkv : st'.ftl = kv at hb
    cases hb with
    | same _ hnone =>
      rw [hnone hdel] at hf
      rw [PackedStore.drop_absent (k.absent hklen hf)]
      exact k.idle ht hkv hstorage halloc
    | length h => exact absurd h hop
    | insert h => exact absurd h hop
    | delete _ =>
      obtain ⟨hocc, hkeyt⟩ := (hf.iff_of_mapped k.toMapped hklen _).mp rfl
      rw [← hkeyt]
      exact k.erase ht hocc hkv hstorage halloc
  · obtain ⟨hnext, hftl⟩ := hread hdel
    rw [hnext]
    exact k.idle ht hftl hstorage halloc

theorem perform_retrieve_none (hop : call.cmd.opcode = nvmeCmdKvRetrieve)
    (hr : searchKey st.ftl call.cmd = .ok none) :
    st.perform storageSize call = .ok (st.withHost call.host, ⟨0, kvErrKeyNotExist⟩) := by
  unfold KvState.perform doPerformKvIo
  rw [KvState.withHost_ftl, getMappingEntry_eq hr, ok_bind, if_neg (by rw [hop]; decide), if_pos hop]
  rfl

theorem perform_exist_eq (hop : call.cmd.opcode = nvmeCmdKvExist)
    (hr : searchKey st.ftl call.cmd = .ok found) {key : List UInt8} {slot : Nat}
    (hf : st.ftl.Finds key slot found) : st.perform storageSize call =
      .ok (st.withHost call.host, ⟨0, if found = none then kvErrKeyNotExist else kvSuccess⟩) := by
  have hiff := foundEntry_free call.cmd hf
  unfold KvState.perform doPerformKvIo
  rw [KvState.withHost_ftl, getMappingEntry_eq hr, ok_bind, if_neg (by rw [hop]; decide),
    if_neg (by rw [hop]; decide), if_pos hop]
  by_cases hnone : found = none
  · rw [if_pos (hiff.mpr hnone), if_pos hnone]
    rfl
  · rw [if_neg (fun h => hnone (hiff.mp h)), if_neg hnone]
    rfl

theorem perform_delete_eq (hop : call.cmd.opcode = nvmeCmdKvDelete)
    (hr : searchKey st.ftl call.cmd = .ok found) {key : List UInt8} {slot : Nat}
    (hf : st.ftl.Finds key slot found) : ∃ ftl, st.perform storageSize call =
      .ok ({ st.withHost call.host with ftl := ftl },
        ⟨0, if found = none then kvErrKeyNotExist else kvSuccess⟩) := by
  have hiff := foundEntry_free call.cmd hf
  unfold KvState.perform doPerformKvIo
  rw [KvState.withHost_ftl, getMappingEntry_eq hr, ok_bind, if_neg (by rw [hop]; decide),
    if_neg (by rw [hop]; decide), if_neg (by rw [hop]; decide), if_pos hop]
  unfold deleteMappingEntry
  rw [hr, ok_bind]
  cases found with
  | none => exact ⟨_, rfl⟩
  | some t =>
    rw [if_neg (fun h => nomatch hiff.mp h)]
    exact ⟨_, rfl⟩

/-- What the host learns, a fault on its data included. -/
theorem KvState.Shows.answers (k : st.Shows storageSize n calls s) (hsize : storageSize < 2^64)
    (hio : IsKvIo call.cmd) (hop : call.cmd.opcode ≠ nvmeCmdKvStore)
    (hlen : cmdKeyLength call.cmd = n) (hn : n ≤ kvcmdInlineKeyMax) :
    (st.perform storageSize call).map (fun r => (r.1.mem.host, r.2)) =
      call.shown (PackedStore.reply s.value call.request) := by
  have hkey := KvCall.cmdKey_eq hlen hn
  have hklen : call.key.length = n := (cmdKey_length hkey).trans hlen
  obtain ⟨found, hr, hf⟩ := k.toSound.searchKey hkey
  have hvalue : found = none ∧ s.value call.key = none ∨ ∃ t v c, found = some t ∧
      s.value call.key = some v ∧ st.ftl.Occupied t ∧ Holding storageSize st t c v := by
    unfold PackedStore.Store.value
    cases found with
    | none => exact Or.inl ⟨rfl, by rw [k.absent hklen hf]; rfl⟩
    | some t =>
      obtain ⟨hocc, e, c, he, _, hh⟩ := k.slot hklen hf
      exact Or.inr ⟨t, e.value, c, rfl, by rw [he]; rfl, hocc, hh⟩
  rcases hio with h | h | h | h
  · exact absurd h hop
  · rw [request_retrieve h]
    change _ = call.shown ((s.value call.key).elim .missing .found)
    rcases hvalue with ⟨rfl, hv⟩ | ⟨t, v, c, rfl, hv, hocc, hh⟩
    · rw [hv, perform_retrieve_none h hr]
      rfl
    · rw [hv, hh.retrieve hsize hocc h hr]
      change _ = call.shown (.found v)
      unfold KvCall.shown
      dsimp only
      cases call.receives (v.take (cmdValueLength call.cmd)) with
      | error f => rfl
      | ok host => rfl
  · rw [request_exist h, perform_exist_eq h hr hf]
    change _ = call.shown ((s.value call.key).elim .missing (fun _ => .done))
    rcases hvalue with ⟨rfl, hv⟩ | ⟨t, v, c, rfl, hv, _⟩
    · rw [hv]
      rfl
    · rw [hv]
      rfl
  · obtain ⟨ftl, hperform⟩ := perform_delete_eq h hr hf
    rw [request_delete h, hperform]
    change _ = call.shown ((s.value call.key).elim .missing (fun _ => .done))
    rcases hvalue with ⟨rfl, hv⟩ | ⟨t, v, c, rfl, hv, _⟩
    · rw [hv]
      rfl
    · rw [hv]
      rfl

/-- A run from power on, with what the host memory and the completion are after each command. -/
inductive KvTrace (tableSize storageSize n : Nat) :
    KvState → List (KvCall × (Nat → UInt8) × KvResult) → Prop where
  | init {mem : Memory} {st : KvState} (hinit : kvInitNamespace tableSize storageSize mem = .ok st)
      (hslots : 0 < st.ftl.hashSlots) : KvTrace tableSize storageSize n st []
  | command {st st' : KvState} {log : List (KvCall × (Nat → UInt8) × KvResult)} {call : KvCall}
      {res : KvResult} (h : KvTrace tableSize storageSize n st log) (hio : IsKvIo call.cmd)
      (hlen : cmdKeyLength call.cmd = n)
      (hsafe : call.cmd.opcode = nvmeCmdKvDelete → SafeDelete n st.ftl call.cmd)
      (hstep : st.perform storageSize call = .ok (st', res)) :
      KvTrace tableSize storageSize n st' (log ++ [(call, st'.mem.host, res)])

def requests (log : List (KvCall × (Nat → UInt8) × KvResult)) :
    List (PackedStore.Request (List UInt8) (List UInt8)) := log.map (fun e => e.1.request)

variable {log : List (KvCall × (Nat → UInt8) × KvResult)}

theorem Tracks.shows {mem : Memory} (hinit : kvInitNamespace tableSize storageSize mem = .ok st)
    (hslots : 0 < st.ftl.hashSlots) : st.Shows storageSize n [] .empty := by
  have ht : Tracks n [] st.ftl := Tracks.init hinit hslots
  have hempty : ∀ t, ¬ st.ftl.Occupied t := by
    intro t hocc
    obtain ⟨c, hc, _⟩ := (ht.holds_iff _).mp ⟨t, hocc, rfl⟩
    cases hc
  refine ⟨ht, ?_, fun h => absurd rfl h, fun hocc => absurd hocc (hempty _)⟩
  unfold kvInitNamespace at hinit
  split at hinit <;> cases hinit
  rfl

theorem KvState.Shows.step (k : st.Shows storageSize n calls s) (p : s.Packed (kvRules storageSize))
    (hsize : storageSize + 1 < 2^64) (hio : IsKvIo call.cmd) (hlen : cmdKeyLength call.cmd = n)
    (hn : n ≤ kvcmdInlineKeyMax) (hsafe : call.cmd.opcode = nvmeCmdKvDelete → SafeDelete n st.ftl call.cmd)
    (hperm : s.Permits (kvRules storageSize) call.request) {res : KvResult}
    (h : st.perform storageSize call = .ok (st', res)) :
    st'.Shows storageSize n (calls ++ [call]) (s.next (kvRules storageSize) call.request) ∧
      call.shown (PackedStore.reply s.value call.request) = .ok (st'.mem.host, res) := by
  by_cases hop : call.cmd.opcode = nvmeCmdKvStore
  · rw [request_store hop] at hperm ⊢
    obtain ⟨k', hhost, rfl⟩ := k.store p hsize hop hlen hn hperm h
    rw [hhost]
    exact ⟨k', rfl⟩
  · refine ⟨k.other hio hop hlen hn hsafe h, ?_⟩
    rw [← k.answers (by omega) hio hop hlen hn, h]
    rfl

theorem KvTrace.shows (h : KvTrace tableSize storageSize n st log) (hsize : storageSize + 1 < 2^64)
    (hn : n ≤ kvcmdInlineKeyMax) (hperm : PackedStore.Permitted (kvRules storageSize) (requests log)) :
    st.Shows storageSize n (log.map Prod.fst)
        (PackedStore.Store.run (kvRules storageSize) .empty (requests log)) ∧
      ∀ before call host res, before ++ [(call, host, res)] <+: log →
        call.shown (PackedStore.reply (PackedStore.contents (requests before)) call.request) =
          .ok (host, res) := by
  induction h with
  | init hinit hslots =>
    refine ⟨Tracks.shows hinit hslots, fun before call host res hp => ?_⟩
    exact absurd hp.length_le (by simp)
  | @command st st' log call res h hio hlen hsafe hstep ih =>
    have hreq : requests (log ++ [(call, st'.mem.host, res)]) = requests log ++ [call.request] := by
      simp [requests]
    rw [hreq] at hperm ⊢
    obtain ⟨k, hanswers⟩ := ih hperm.init
    obtain ⟨k', hanswer⟩ := k.step hperm.init.packed hsize hio hlen hn hsafe hperm.last hstep
    rw [PackedStore.value_run] at hanswer
    rw [PackedStore.run_snoc, List.map_append]
    refine ⟨k', fun before c host r hp => ?_⟩
    rcases List.prefix_concat_iff.mp hp with heq | hp
    · obtain ⟨rfl, hlast⟩ := List.append_inj' heq rfl
      cases hlast
      exact hanswer
    · exact hanswers before c host r hp

/-- The namespace answers as a map from keys to values does. -/
theorem kv_device (hsize : storageSize + 1 < 2^64) (hn : n ≤ kvcmdInlineKeyMax)
    (h : KvTrace tableSize storageSize n st log)
    (hperm : PackedStore.Permitted (kvRules storageSize) (requests log)) :
    (∀ before call host res, before ++ [(call, host, res)] <+: log →
      call.shown (PackedStore.reply (PackedStore.contents (requests before)) call.request) =
        .ok (host, res)) ∧
    ∀ call : KvCall, IsKvIo call.cmd → call.cmd.opcode ≠ nvmeCmdKvStore → cmdKeyLength call.cmd = n →
      (st.perform storageSize call).map (fun r => (r.1.mem.host, r.2)) =
        call.shown (PackedStore.reply (PackedStore.contents (requests log)) call.request) := by
  obtain ⟨k, hanswers⟩ := h.shows hsize hn hperm
  refine ⟨hanswers, fun call hio hop hlen => ?_⟩
  rw [← PackedStore.value_run (g := kvRules storageSize)]
  exact k.answers (by omega) hio hop hlen hn

def storeAkcl : KvCall := (akcl nvmeCmdKvStore).withData 1 7
def retrieveAkcl : KvCall := (akcl nvmeCmdKvRetrieve).withData 2 0

theorem kv_device_deleted : ∃ st log, KvTrace (2^30) (2^30) 4 st log ∧
    log.map (fun e => e.2.2) = [⟨0, kvSuccess⟩, ⟨4, kvSuccess⟩, ⟨0, kvSuccess⟩] ∧
    (st.perform (2^30) retrieveAkcl).map (fun r => (r.1.mem.host, r.2)) =
      .ok (retrieveAkcl.host, ⟨0, kvErrKeyNotExist⟩) := by
  have hrun : check (fun (r : KvState × (KvState × KvResult) × (KvState × KvResult) × (KvState × KvResult)) =>
      decide (0 < r.1.ftl.hashSlots) && decide ([r.2.1.2, r.2.2.1.2, r.2.2.2.2] =
        [⟨0, kvSuccess⟩, ⟨4, kvSuccess⟩, ⟨0, kvSuccess⟩])) (do
      let st₀ ← kvInitNamespace (2^30) (2^30) ⟨fun _ => 0, fun _ => 0⟩
      let r₁ ← st₀.perform (2^30) storeAkcl
      let r₂ ← r₁.1.perform (2^30) retrieveAkcl
      let r₃ ← r₂.1.perform (2^30) (akcl nvmeCmdKvDelete)
      return (st₀, r₁, r₂, r₃)) = true := by decide +kernel
  obtain ⟨r, hr, hp⟩ := exists_of_check hrun
  obtain ⟨st₀, hinit, hr⟩ := bind_eq_ok.mp hr
  obtain ⟨⟨st₁, res₁⟩, h₁, hr⟩ := bind_eq_ok.mp hr
  obtain ⟨⟨st₂, res₂⟩, h₂, hr⟩ := bind_eq_ok.mp hr
  obtain ⟨⟨st₃, res₃⟩, h₃, hr⟩ := bind_eq_ok.mp hr
  cases hr
  simp only [Bool.and_eq_true, decide_eq_true_eq] at hp
  have hroom : (PackedStore.Store.run (kvRules (2^30)) .empty []).Permits (kvRules (2^30))
      storeAkcl.request := show 0 + storeAkcl.bytes.length ≤ 2^30 by decide
  have hone : PackedStore.Permitted (kvRules (2^30)) [storeAkcl.request] :=
    PackedStore.permitted_nil.snoc hroom
  have hrules : PackedStore.Permitted (kvRules (2^30)) [storeAkcl.request, retrieveAkcl.request] :=
    hone.snoc trivial
  have t₂ : KvTrace (2^30) (2^30) 4 st₂ ([] ++ [(storeAkcl, _, res₁)] ++ [(retrieveAkcl, _, res₂)]) :=
    ((KvTrace.init hinit hp.1).command (Or.inl rfl) rfl (fun h => absurd h (by decide)) h₁).command
      (Or.inr (Or.inl rfl)) rfl (fun h => absurd h (by decide)) h₂
  have hsafe : SafeDelete 4 st₂.ftl (akcl nvmeCmdKvDelete).cmd := by
    refine (t₂.shows (by decide) (by decide) hrules).1.toTracks.safe_of_only rfl (by decide) ?_
    intro key hkey
    obtain ⟨c, hc, rfl⟩ := hkey.exists_call
    rcases List.mem_cons.mp hc with rfl | hc
    · rfl
    · rw [List.mem_singleton.mp hc]
      rfl
  have t₃ := t₂.command (Or.inr (Or.inr (Or.inr rfl))) rfl (fun _ => hsafe) h₃
  refine ⟨st₃, _, t₃, hp.2, ?_⟩
  exact (kv_device (by decide) (by decide) t₃ (hrules.snoc trivial)).2 retrieveAkcl
    (Or.inr (Or.inl rfl)) (by decide) rfl

end NVMeVirt
