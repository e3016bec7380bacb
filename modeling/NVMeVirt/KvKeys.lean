import NVMeVirt.KvBatch
import NVMeVirt.KvMap

/-!
# Whose entry a lookup finds

An entry does not say how long its key is, and a lookup compares as many bytes as its own key
has. It goes wrong where a chain leads to the entry of a longer key that begins the same way,
or of a shorter one when the rest is zeros, before the entry of the key itself.
-/

namespace NVMeVirt
set_option autoImplicit false
open Outcome Links Relation

variable {kv kv' : KvFtl} {key : List UInt8} {storageSize : Nat}

/-- No entry that passes for the key comes before the one found. -/
theorem searchChain_first {fuel slot t : Nat} (h : searchChain kv key fuel slot = .ok (some t)) {u : Nat}
    (hu : kv.Occupied u) (hreach : kv.links.Reach slot u) (hkey : kv.keyAt key.length u = key) :
    kv.links.Reach t u := by
  induction fuel generalizing slot with
  | zero => cases h
  | succ fuel ih =>
    have hocc := hreach.live hu
    rw [searchChain, KvFtl.entry_ok hocc.1, ok_bind, if_neg hocc.2] at h
    split at h
    · cases h
      exact hreach
    · rename_i hne
      have hsu : slot ≠ u := by
        rintro rfl
        exact hne hkey
      obtain ⟨x, hx, hxu⟩ := (ReflTransGen.cases_head hreach).resolve_left hsu
      rw [show (kv.kvMappingTable slot).nextSlot = some x from hx.2.1] at h
      exact ih h hxu

/-- What a lookup comes back with: the first slot on the way that passes for the key. -/
structure KvFtl.Answer (kv : KvFtl) (key : List UInt8) (found : Option Nat) : Prop where
  finds : kv.Finds key (kv.hashSlot key) found
  first : ∀ {t u}, found = some t → kv.Occupied u → kv.links.Reach (kv.hashSlot key) u →
    kv.keyAt key.length u = key → kv.links.Reach t u

theorem KvFtl.Sound.searchByKey (hs : kv.Sound) (hlen : key.length ≤ 18) :
    ∃ found, searchByKey kv key = .ok found ∧ kv.Answer key found := by
  obtain ⟨stamp, now, hst⟩ := hs.stamped
  unfold NVMeVirt.searchByKey
  rw [entryKey_ok hlen, ok_bind, hs.getHashSlot, ok_bind]
  obtain ⟨found, hr, hf⟩ := searchChain_finds hs hst (hs.hashSlot_lt key) (enough_start kv stamp _)
  refine ⟨found, hr, hf, ?_⟩
  rintro t u rfl
  exact searchChain_first hr

/-- The `key[18]` of a slot that was used once: the table starts with zeros. -/
def keyField (key : List UInt8) : List UInt8 := key ++ List.replicate (18 - key.length) 0

/-- `memcmp` over the length of `key` finds no difference to the entry of `stored`. -/
def PassesFor (key stored : List UInt8) : Prop := key <+: keyField stored

instance (key stored : List UInt8) : Decidable (PassesFor key stored) :=
  inferInstanceAs (Decidable (_ <+: _))

theorem passesFor_self (key : List UInt8) : PassesFor key key := List.prefix_append ..

/-- A key passes for those it begins, and for itself without zeros at its end. -/
theorem passesFor_iff {stored : List UInt8} (hkey : key.length ≤ 18) :
    PassesFor key stored ↔ key <+: stored ∨ ∃ n, key = stored ++ List.replicate n 0 := by
  unfold PassesFor keyField
  constructor
  · intro h
    by_cases hle : key.length ≤ stored.length
    · exact .inl (List.prefix_of_prefix_length_le h (List.prefix_append ..) hle)
    · right
      obtain ⟨tail, rfl⟩ := List.prefix_of_prefix_length_le (List.prefix_append stored _) h (by omega)
      have htail : tail <+: List.replicate (18 - stored.length) 0 :=
        (List.prefix_append_right_inj stored).mp h
      exact ⟨tail.length, congrArg (stored ++ ·) (List.prefix_replicate_iff.mp htail).2⟩
  · rintro (h | ⟨n, rfl⟩)
    · exact h.trans (List.prefix_append ..)
    · rw [List.length_append, List.length_replicate] at hkey
      rw [List.prefix_append_right_inj]
      exact List.prefix_replicate_iff.mpr
        ⟨by rw [List.length_replicate]; omega, by rw [List.length_replicate]⟩

structure KvFtl.Owned (kv : KvFtl) (owns : List UInt8 → Nat → Prop) : Prop extends kv.Sound where
  occupied : ∀ {s}, kv.Occupied s ↔ ∃ key, owns key s
  owner : ∀ {key key' s}, owns key s → owns key' s → key = key'
  single : ∀ {key s t}, owns key s → owns key t → s = t
  field : ∀ {key s}, owns key s → (kv.kvMappingTable s).key = keyField key
  unused : ∀ {s}, kv.Free s → (kv.kvMappingTable s).key = List.replicate 18 0
  reach : ∀ {key s}, owns key s → kv.links.Reach (kv.hashSlot key) s

/-- The entries on the way that pass for the key lie behind the one of the key itself. -/
def KvFtl.ToldApart (kv : KvFtl) (owns : List UInt8 → Nat → Prop) (key : List UInt8) : Prop :=
  ∀ stored s, owns stored s → PassesFor key stored → kv.links.Reach (kv.hashSlot key) s →
    ∃ t, owns key t ∧ kv.links.Reach t s

variable {owns : List UInt8 → Nat → Prop} {found : Option Nat}

theorem KvFtl.Owned.keyAt_iff (ho : kv.Owned owns) {stored : List UInt8} {s : Nat} (h : owns stored s) :
    kv.keyAt key.length s = key ↔ PassesFor key stored := by
  unfold KvFtl.keyAt PassesFor
  rw [ho.field h, List.prefix_iff_eq_take]
  exact eq_comm

/-- A lookup finds the own entry of each key just if the chain tells the key apart. -/
theorem KvFtl.Owned.answer_iff (ho : kv.Owned owns) (ha : kv.Answer key found) :
    (∀ t, found = some t ↔ owns key t) ↔ kv.ToldApart owns key := by
  have hself : ∀ {t}, owns key t → kv.keyAt key.length t = key :=
    fun h => (ho.keyAt_iff h).mpr (passesFor_self key)
  constructor
  · intro hown stored s hs hpass hreach
    have hocc : kv.Occupied s := ho.occupied.mpr ⟨stored, hs⟩
    have hkey : kv.keyAt key.length s = key := (ho.keyAt_iff hs).mpr hpass
    cases hf : found with
    | none =>
      have hnone := ha.finds
      rw [hf] at hnone
      exact absurd hkey (hnone s hocc hreach)
    | some t => exact ⟨t, (hown t).mp hf, ha.first hf hocc hreach hkey⟩
  · intro htold t
    constructor
    · rintro rfl
      obtain ⟨hocc, hreach, hkey⟩ := ha.finds
      obtain ⟨stored, hstored⟩ := ho.occupied.mp hocc
      obtain ⟨s, hs, hst⟩ := htold stored t hstored ((ho.keyAt_iff hstored).mp hkey) hreach
      -- the key's own slot passes as well, so it is not before the one found
      have hts : kv.links.Reach t s := ha.first rfl (ho.occupied.mpr ⟨key, hs⟩) (ho.reach hs) (hself hs)
      obtain ⟨stamp, now, hstamp⟩ := ho.stamped
      exact hstamp.antisymm hst hts ▸ hs
    · intro ht
      have hocc : kv.Occupied t := ho.occupied.mpr ⟨key, ht⟩
      cases hf : found with
      | none =>
        have hnone := ha.finds
        rw [hf] at hnone
        exact absurd (hself ht) (hnone t hocc (ho.reach ht))
      | some u =>
        have hu := ha.finds
        rw [hf] at hu
        obtain ⟨hocc, hreach, hkey⟩ := hu
        obtain ⟨stored, hstored⟩ := ho.occupied.mp hocc
        obtain ⟨s, hs, hsu⟩ := htold stored u hstored ((ho.keyAt_iff hstored).mp hkey) hreach
        obtain rfl := ho.single hs ht
        have hus : kv.links.Reach u s := ha.first hf (ho.occupied.mpr ⟨key, hs⟩) (ho.reach hs) (hself hs)
        obtain ⟨stamp, now, hstamp⟩ := ho.stamped
        rw [hstamp.antisymm hus hsu]

theorem KvFtl.Owned.congr (ho : kv.Owned owns) {owns' : List UInt8 → Nat → Prop}
    (h : ∀ key s, owns' key s ↔ owns key s) : kv.Owned owns' := by
  rwa [show owns' = owns from funext fun key => funext fun s => propext (h key s)]

theorem KvFtl.Owned.sameChains (ho : kv.Owned owns) (h : kv.SameChains kv') : kv'.Owned owns where
  toSound := ho.toSound.sameChains h
  occupied := h.occupied.trans ho.occupied
  owner := ho.owner
  single := ho.single
  field := fun hs => (h.key_eq _).trans (ho.field hs)
  unused := by
    intro s hs
    rw [h.key_eq]
    apply ho.unused
    exact ⟨h.hashSlots_eq ▸ hs.1, h.memOffset_eq s ▸ hs.2⟩
  reach := by
    intro key s hs
    rw [h.hashSlot_eq, h.links_eq]
    exact ho.reach hs

/-- The slot of a new key belongs to it. -/
theorem KvFtl.Owned.insert {valOffset length slot : Nat} (ho : kv.Owned owns)
    (hi : kv.Inserted kv' key valOffset length slot) (hnew : ∀ s, ¬ owns key s) (hlen : key.length ≤ 18) :
    kv'.Owned (fun k s => owns k s ∨ k = key ∧ s = slot) := by
  have hfree : ∀ {k}, ¬ owns k slot := fun h => (ho.occupied.mpr ⟨_, h⟩).2 hi.free.2
  have hold : ∀ {k s}, owns k s → s ≠ slot := by
    rintro k s h rfl
    exact hfree h
  refine
    { toSound := ho.toSound.insert hi
      occupied := ?_
      owner := ?_
      single := ?_
      field := ?_
      unused := ?_
      reach := ?_ }
  · intro s
    rw [hi.occupied, ho.occupied]
    constructor
    · rintro (⟨k, hk⟩ | rfl)
      · exact ⟨k, .inl hk⟩
      · exact ⟨key, .inr ⟨rfl, rfl⟩⟩
    · rintro ⟨k, hk | ⟨_, rfl⟩⟩
      · exact .inl ⟨k, hk⟩
      · exact .inr rfl
  · rintro k k' s (h | ⟨rfl, rfl⟩) (h' | ⟨rfl, hs⟩)
    · exact ho.owner h h'
    · exact absurd hs (hold h)
    · exact absurd h' hfree
    · rfl
  · rintro k s t (h | ⟨rfl, rfl⟩) (h' | ⟨hk, rfl⟩)
    · exact ho.single h h'
    · exact absurd (hk ▸ h) (hnew s)
    · exact absurd h' (hnew t)
    · rfl
  · rintro k s (h | ⟨rfl, rfl⟩)
    · rw [(hi.same (hold h)).1]
      exact ho.field h
    · rw [hi.filled]
      unfold fillEntry keyField
      simp only
      rw [ho.unused hi.free, List.drop_replicate]
  · intro s hs
    have hne : s ≠ slot := by
      rintro rfl
      exact (hi.occupied.mpr (.inr rfl)).2 hs.2
    rw [(hi.same hne).1]
    apply ho.unused
    exact ⟨hi.hashSlots_eq ▸ hs.1, (hi.same hne).2.1 ▸ hs.2⟩
  · rintro k s (h | ⟨rfl, rfl⟩)
    · have hreach := (ho.reach h).mono (fun _ _ => hi.step)
      unfold KvFtl.hashSlot at hreach ⊢
      rw [hi.hashSlots_eq]
      exact hreach
    · exact hi.reach

/-- A store of the key found the slot free and left it in use. -/
def FilledFor (storageSize : Nat) (st₀ : KvState) (calls : List KvCall) (key : List UInt8) (slot : Nat) :
    Prop :=
  ∃ pre call st st' res, pre ++ [call] <+: calls ∧ kvRun storageSize pre st₀ = .ok st ∧
    st.perform storageSize call = .ok (st', res) ∧ st.ftl.Free slot ∧ st'.ftl.Occupied slot ∧ call.key = key

variable {st₀ st st' : KvState} {calls : List KvCall} {call : KvCall} {res : KvResult}

theorem filledFor_nil {slot : Nat} : ¬ FilledFor storageSize st₀ [] key slot := by
  rintro ⟨pre, call, _, _, _, hpre, _⟩
  exact absurd hpre.length_le (by simp)

theorem filledFor_snoc (hrun : kvRun storageSize calls st₀ = .ok st)
    (hstep : st.perform storageSize call = .ok (st', res)) {slot : Nat} :
    FilledFor storageSize st₀ (calls ++ [call]) key slot ↔ FilledFor storageSize st₀ calls key slot ∨
      st.ftl.Free slot ∧ st'.ftl.Occupied slot ∧ call.key = key := by
  constructor
  · rintro ⟨pre, c, s, s', r, hpre, hs, hr, hfree, hocc, hkey⟩
    rcases List.prefix_concat_iff.mp hpre with heq | hpre
    · obtain ⟨rfl, hc⟩ := List.append_inj' heq rfl
      obtain rfl : c = call := List.singleton_inj.mp hc
      rw [hrun] at hs
      cases hs
      rw [hstep] at hr
      cases hr
      exact .inr ⟨hfree, hocc, hkey⟩
    · exact .inl ⟨pre, c, s, s', r, hpre, hs, hr, hfree, hocc, hkey⟩
  · rintro (⟨pre, c, s, s', r, hpre, h⟩ | ⟨hfree, hocc, hkey⟩)
    · exact ⟨pre, c, s, s', r, hpre.trans (List.prefix_append ..), h⟩
    · exact ⟨calls, call, st, st', res, List.prefix_refl _, hrun, hstep, hfree, hocc, hkey⟩

/-- The keys that own a slot are those that were stored. -/
structure KeyOwners (storageSize : Nat) (st₀ : KvState) (calls : List KvCall) (st : KvState) : Prop
    extends st.ftl.Owned (FilledFor storageSize st₀ calls) where
  stored : ∀ key, (∃ s, FilledFor storageSize st₀ calls key s) ↔ ∃ c ∈ calls, c.key = key

theorem KeyOwners.init {tableSize : Nat} {mem : Memory}
    (hinit : kvInitNamespace tableSize storageSize mem = .ok st) (hpos : 0 < st.ftl.hashSlots) :
    KeyOwners storageSize st [] st := by
  have hsound : st.ftl.Sound := (Tracks.init (n := 0) hinit hpos).toSound
  have hentry : ∀ s, st.ftl.kvMappingTable s = ⟨List.replicate 18 0, none, 2^64 - 1, none⟩ := by
    unfold kvInitNamespace at hinit
    split at hinit
    · cases hinit
      exact fun _ => rfl
    · cases hinit
  exact
    { toSound := hsound
      occupied := ⟨fun hs => absurd (by rw [hentry]) hs.2, fun hk => hk.elim fun _ h => absurd h filledFor_nil⟩
      owner := fun h => absurd h filledFor_nil
      single := fun h => absurd h filledFor_nil
      field := fun h => absurd h filledFor_nil
      unused := fun _ => by rw [hentry]
      reach := fun h => absurd h filledFor_nil
      stored := fun _ => ⟨fun hs => hs.elim fun _ h => absurd h filledFor_nil,
        fun hc => hc.elim fun _ h => absurd h.1 List.not_mem_nil⟩ }

theorem KeyOwners.update (ho : KeyOwners storageSize st₀ calls st)
    (hrun : kvRun storageSize calls st₀ = .ok st) (hstep : st.perform storageSize call = .ok (st', res))
    (hsame : st.ftl.SameChains st'.ftl) {t : Nat} (ht : FilledFor storageSize st₀ calls call.key t) :
    KeyOwners storageSize st₀ (calls ++ [call]) st' := by
  have hfill : ∀ k s, FilledFor storageSize st₀ (calls ++ [call]) k s ↔
    FilledFor storageSize st₀ calls k s := by
    intro k s
    rw [filledFor_snoc hrun hstep]
    refine ⟨fun h => h.elim id (fun ⟨hfree, hocc, _⟩ => ?_), .inl⟩
    exact absurd hfree.2 (hsame.occupied.mp hocc).2
  refine ⟨(ho.toOwned.sameChains hsame).congr hfill, fun k => ?_⟩
  simp only [hfill, ho.stored, List.mem_append, List.mem_singleton]
  constructor
  · rintro ⟨c, hc, hk⟩
    exact ⟨c, .inl hc, hk⟩
  · rintro ⟨c, hc | rfl, hk⟩
    · exact ⟨c, hc, hk⟩
    · exact hk ▸ (ho.stored _).mp ⟨t, ht⟩

theorem KeyOwners.insert (ho : KeyOwners storageSize st₀ calls st)
    (hrun : kvRun storageSize calls st₀ = .ok st) (hstep : st.perform storageSize call = .ok (st', res))
    {valOffset length slot : Nat} (hi : st.ftl.Inserted st'.ftl call.key valOffset length slot)
    (hlen : call.key.length ≤ 18) (hnew : ∀ s, ¬ FilledFor storageSize st₀ calls call.key s) :
    KeyOwners storageSize st₀ (calls ++ [call]) st' := by
  have hfill : ∀ k s, FilledFor storageSize st₀ (calls ++ [call]) k s ↔
      FilledFor storageSize st₀ calls k s ∨ k = call.key ∧ s = slot := by
    intro k s
    rw [filledFor_snoc hrun hstep]
    refine or_congr_right ⟨fun ⟨hfree, hocc, hk⟩ => ⟨hk.symm, ?_⟩, ?_⟩
    · exact (hi.occupied.mp hocc).resolve_left (fun h => h.2 hfree.2)
    · rintro ⟨rfl, rfl⟩
      exact ⟨hi.free, hi.occupied.mpr (.inr rfl), rfl⟩
  refine ⟨(ho.toOwned.insert hi hnew hlen).congr hfill, fun k => ?_⟩
  simp only [hfill, List.mem_append, List.mem_singleton]
  constructor
  · rintro ⟨s, h | ⟨rfl, _⟩⟩
    · obtain ⟨c, hc, hk⟩ := (ho.stored k).mp ⟨s, h⟩
      exact ⟨c, .inl hc, hk⟩
    · exact ⟨call, .inr rfl, rfl⟩
  · rintro ⟨c, hc | rfl, hk⟩
    · obtain ⟨s, hs⟩ := (ho.stored k).mpr ⟨c, hc, hk⟩
      exact ⟨s, .inl hs⟩
    · exact ⟨slot, .inr ⟨hk.symm, rfl⟩⟩

theorem KeyOwners.step (ho : KeyOwners storageSize st₀ calls st) (hrun : kvRun storageSize calls st₀ = .ok st)
    (hop : call.cmd.opcode = nvmeCmdKvStore) (hkey : cmdKey call.cmd = .ok call.key)
    (htold : st.ftl.ToldApart (FilledFor storageSize st₀ calls) call.key)
    (hstep : st.perform storageSize call = .ok (st', res)) : KeyOwners storageSize st₀ (calls ++ [call])
      st' := by
  have hlen : call.key.length ≤ 18 := cmdKey_le hkey
  obtain ⟨found, hr, ha⟩ := ho.toSound.searchByKey hlen
  have hown := (ho.toOwned.answer_iff ha).mpr htold
  rw [← searchKey_eq hkey] at hr
  have hbecomes := KvState.perform_becomes hr ha.finds hstep
  generalize hftl : st'.ftl = kv' at hbecomes
  cases hbecomes with
  | same hstore _ =>
    obtain ⟨t, ht⟩ := Option.ne_none_iff_exists'.mp (hstore hop)
    exact ho.update hrun hstep (hftl ▸ ⟨rfl, fun _ => rfl, fun _ => rfl, fun _ => rfl⟩) ((hown t).mp ht)
  | @length slot _ =>
    exact ho.update hrun hstep (hftl ▸ st.ftl.sameChains_setLength slot _) ((hown slot).mp rfl)
  | insert _ hnew =>
    obtain ⟨_, slot, hi⟩ := ho.toSound.newMappingEntry hkey hnew
    exact ho.insert hrun hstep (hftl ▸ hi) hlen (fun s hs => nomatch (hown s).mpr hs)
  | delete hdelete =>
    rw [hop] at hdelete
    cases hdelete

/-- Both lookups of the key return a copy of slot `found`, the one that was filled for the key,
if the key was stored. -/
structure Identifies (storageSize : Nat) (st₀ : KvState) (calls : List KvCall) (st : KvState)
    (key : List UInt8) (found : Option Nat) : Prop where
  search : searchByKey st.ftl key = .ok found
  entry : ∀ cmd, cmdKey cmd = .ok key → getMappingEntry st.ftl cmd = .ok (entryFound st.ftl key.length found)
  entryByKey : getMappingEntryByKey st.ftl key = .ok (entryFound st.ftl key.length found)
  stored : found ≠ none ↔ ∃ c ∈ calls, c.key = key
  own : ∀ t, found = some t ↔ FilledFor storageSize st₀ calls key t

theorem getMappingEntryByKey_eq {found : Option Nat} (h : searchByKey kv key = .ok found) :
    getMappingEntryByKey kv key = .ok (entryFound kv key.length found) := by
  unfold getMappingEntryByKey
  rw [h, ok_bind]
  cases found with
  | none => rfl
  | some slot => rfl

theorem KeyOwners.identifies_iff (ho : KeyOwners storageSize st₀ calls st) (hlen : key.length ≤ 18) :
    (∃ found, Identifies storageSize st₀ calls st key found) ↔
      st.ftl.ToldApart (FilledFor storageSize st₀ calls) key := by
  obtain ⟨found, hr, ha⟩ := ho.toSound.searchByKey hlen
  rw [← ho.toOwned.answer_iff ha]
  constructor
  · rintro ⟨found', h⟩
    obtain rfl : found' = found := Except.ok.inj (h.search.symm.trans hr)
    exact h.own
  · intro hown
    have hentry := getMappingEntryByKey_eq hr
    refine ⟨found, hr, fun cmd hkey => (getMappingEntry_eq_byKey hkey).trans hentry, hentry, ?_, hown⟩
    rw [← ho.stored, Option.ne_none_iff_exists']
    exact exists_congr hown

/-- What is asked of the commands: stores with keys that fit into the command. -/
def InlineStores (calls : List KvCall) : Prop :=
  ∀ c ∈ calls, c.cmd.opcode = nvmeCmdKvStore ∧ cmdKeyLength c.cmd ≤ kvcmdInlineKeyMax

theorem InlineStores.mono {calls' : List KvCall} (h : InlineStores calls) (hpre : calls' <+: calls) :
    InlineStores calls' := fun c hc => h c (hpre.subset hc)

theorem inlineStores_singleton (hop : call.cmd.opcode = nvmeCmdKvStore)
    (hlen : cmdKeyLength call.cmd ≤ kvcmdInlineKeyMax) : InlineStores [call] := by
  intro c hc
  obtain rfl := List.mem_singleton.mp hc
  exact ⟨hop, hlen⟩

/-- Every state of a run keeps the owners as long as the keys stored are told apart. -/
theorem KeyOwners.run (h₀ : KeyOwners storageSize st₀ [] st₀) (hcalls : InlineStores calls)
    (htold : ∀ pre call s, pre ++ [call] <+: calls → kvRun storageSize pre st₀ = .ok s →
      KeyOwners storageSize st₀ pre s → s.ftl.ToldApart (FilledFor storageSize st₀ pre) call.key)
    (hrun : kvRun storageSize calls st₀ = .ok st) : KeyOwners storageSize st₀ calls st := by
  induction calls using List.reverseRecOn generalizing st with
  | nil =>
    cases hrun
    exact h₀
  | append_singleton calls call ih =>
    obtain ⟨s, res, hs, hstep⟩ := kvRun_snoc.mp hrun
    have hpre : calls <+: calls ++ [call] := List.prefix_append ..
    have ho := ih (hcalls.mono hpre) (fun pre c s hp => htold pre c s (hp.trans hpre)) hs
    obtain ⟨hop, hlen⟩ := hcalls call (by simp)
    exact ho.step hs hop (KvCall.cmdKey_eq rfl hlen) (htold calls call s (List.prefix_refl _) hs ho) hstep

theorem InlineStores.key_length (h : InlineStores calls) (hc : call ∈ calls) :
    0 < call.key.length ∧ call.key.length ≤ kvcmdInlineKeyMax := by
  have hle := (h call hc).2
  rw [cmdKey_length (KvCall.cmdKey_eq rfl hle)]
  exact ⟨Nat.succ_pos _, hle⟩

/-- In every state of a run of stores each key is found through its own entry, exactly when in
every state no chain leads to an entry that passes for the key before the key's own. -/
theorem keys_identified_iff (tableSize storageSize : Nat) (mem : Memory) (st₀ : KvState) (calls : List KvCall)
    (hinit : kvInitNamespace tableSize storageSize mem = .ok st₀) (hslots : 0 < st₀.ftl.hashSlots)
    (hcalls : InlineStores calls) :
    (∀ pre st key, pre <+: calls → kvRun storageSize pre st₀ = .ok st →
      0 < key.length → key.length ≤ kvcmdInlineKeyMax → ∃ found,
        Identifies storageSize st₀ pre st key found) ↔
    (∀ pre st key, pre <+: calls → kvRun storageSize pre st₀ = .ok st →
      0 < key.length → key.length ≤ kvcmdInlineKeyMax →
        st.ftl.ToldApart (FilledFor storageSize st₀ pre) key) := by
  have h₀ : KeyOwners storageSize st₀ [] st₀ := KeyOwners.init hinit hslots
  have hle : ∀ {key : List UInt8}, key.length ≤ kvcmdInlineKeyMax → key.length ≤ 18 :=
    fun h => Nat.le_trans h (by decide)
  constructor
  · intro h pre st key hpre hrun hpos hlen
    have ho : KeyOwners storageSize st₀ pre st := by
      apply h₀.run (hcalls.mono hpre) _ hrun
      intro pre' call s hp hs ho
      have hp' : pre' ++ [call] <+: calls := hp.trans hpre
      have hmem : call ∈ calls := hp'.subset (List.mem_append_right _ (List.mem_singleton_self _))
      obtain ⟨hcpos, hclen⟩ := hcalls.key_length hmem
      exact (ho.identifies_iff (hle hclen)).mp
        (h pre' s call.key ((List.prefix_append ..).trans hp') hs hcpos hclen)
    exact (ho.identifies_iff (hle hlen)).mp (h pre st key hpre hrun hpos hlen)
  · intro h pre st key hpre hrun hpos hlen
    have ho : KeyOwners storageSize st₀ pre st := by
      apply h₀.run (hcalls.mono hpre) _ hrun
      intro pre' call s hp hs _
      have hp' : pre' ++ [call] <+: calls := hp.trans hpre
      have hmem : call ∈ calls := hp'.subset (List.mem_append_right _ (List.mem_singleton_self _))
      obtain ⟨hcpos, hclen⟩ := hcalls.key_length hmem
      exact h pre' s call.key ((List.prefix_append ..).trans hp') hs hcpos hclen
    exact (ho.identifies_iff (hle hlen)).mpr (h pre st key hpre hrun hpos hlen)

/-- A store of the key in the first bytes of `key`, with one word of data from host page 0. -/
def inlineStore (keyLen : Nat) (key : List UInt8) (h : key.length = kvcmdInlineKeyMax) : KvCall where
  cmd := ⟨nvmeCmdKvStore, 0, 0, 1, keyLen, key, h⟩
  host := fun _ => 0

/-- The key `aabakbx`. In a table of 1 GiB its hash slot is the one of `a`. -/
def aabakbx : KvCall :=
  inlineStore 6 ([0x61, 0x61, 0x62, 0x61, 0x6b, 0x62, 0x78] ++ List.replicate 9 0) rfl

def longerKeyRun : Except Fault (KvState × KvState × Option Nat) := do
  let st₀ ← kvInitNamespace (2^30) (2^30) ⟨fun _ => 0, fun _ => 0⟩
  let st ← kvRun (2^30) [aabakbx] st₀
  let found ← searchByKey st.ftl [0x61]
  return (st₀, st, found)

/-- Only `aabakbx` was stored, but there is an entry for `a`. -/
theorem longer_key_found : ∃ st₀ st, kvInitNamespace (2^30) (2^30) ⟨fun _ => 0, fun _ => 0⟩ = .ok st₀ ∧
    kvRun (2^30) [aabakbx] st₀ = .ok st ∧ InlineStores [aabakbx] ∧ 0 < st₀.ftl.hashSlots ∧
    (∀ c ∈ [aabakbx], c.key ≠ [0x61]) ∧
    (∃ e, getMappingEntryByKey st.ftl [0x61] = .ok e ∧ e.memOffset ≠ none) ∧
    ¬ ∃ found, Identifies (2^30) st₀ [aabakbx] st [0x61] found := by
  obtain ⟨⟨st₀, st, found⟩, hrun, hp⟩ :=
    exists_of_check (show check (fun r => decide (0 < r.1.ftl.hashSlots) &&
      decide ((entryFound r.2.1.ftl 1 r.2.2).memOffset ≠ none)) longerKeyRun = true by decide +kernel)
  unfold longerKeyRun at hrun
  obtain ⟨_, hinit, hrun⟩ := bind_eq_ok.mp hrun
  obtain ⟨_, hst, hrun⟩ := bind_eq_ok.mp hrun
  obtain ⟨_, hsearch, hrun⟩ := bind_eq_ok.mp hrun
  cases hrun
  simp only [Bool.and_eq_true, decide_eq_true_eq] at hp
  obtain ⟨hpos, hfound⟩ := hp
  have hstores : InlineStores [aabakbx] := inlineStores_singleton rfl (by decide)
  have hkeys : ∀ c ∈ [aabakbx], c.key ≠ [0x61] := by
    intro c hc
    obtain rfl := List.mem_singleton.mp hc
    decide
  refine ⟨st₀, st, hinit, hst, hstores, hpos, hkeys, ⟨_, getMappingEntryByKey_eq hsearch, hfound⟩, ?_⟩
  rintro ⟨found', h⟩
  obtain rfl : found' = found := Except.ok.inj (h.search.symm.trans hsearch)
  have hne : found' ≠ none := by
    rintro rfl
    exact hfound rfl
  obtain ⟨c, hc, hkey⟩ := h.stored.mp hne
  exact hkeys c hc hkey

/-- The key `a` alone. -/
def onlyA : KvCall := inlineStore 0 (0x61 :: List.replicate 15 0) rfl

def onlyARun : Except Fault (KvState × KvState) := do
  let st₀ ← kvInitNamespace (2^30) (2^30) ⟨fun _ => 0, fun _ => 0⟩
  let st ← kvRun (2^30) [onlyA] st₀
  return (st₀, st)

theorem reach_only {kv : KvFtl} {a s : Nat} (honly : ∀ t, kv.Occupied t → t = s) (hs : kv.Occupied s)
    (h : kv.links.Reach a s) : a = s := honly a (h.live hs)

/-- Followed by zeros, `a` hashes to another slot. -/
theorem onlyA_apart {st₀ st : KvState} {key : List UInt8}
    (hinit : kvInitNamespace (2^30) (2^30) ⟨fun _ => 0, fun _ => 0⟩ = .ok st₀) (hpos : 0 < st₀.ftl.hashSlots)
    (hslots : st.ftl.hashSlots = 22369621) (hrun : kvRun (2^30) [onlyA] st₀ = .ok st) (hkey : 0 < key.length)
    (hlen : key.length ≤ kvcmdInlineKeyMax) : st.ftl.ToldApart (FilledFor (2^30) st₀ [onlyA]) key := by
  have h₀ : KeyOwners (2^30) st₀ [] st₀ := KeyOwners.init hinit hpos
  have hstores : InlineStores [onlyA] := inlineStores_singleton rfl (by decide)
  have ho : KeyOwners (2^30) st₀ [onlyA] st := by
    apply h₀.run hstores _ hrun
    intro pre call s hp _ _ stored t ht
    have hnil : pre = [] := by
      apply List.eq_nil_of_length_eq_zero
      have := hp.length_le
      simp only [List.length_append, List.length_singleton] at this
      omega
    exact absurd (hnil ▸ ht) filledFor_nil
  have hkeys : ∀ {k t}, FilledFor (2^30) st₀ [onlyA] k t → k = [0x61] := by
    intro k t ht
    obtain ⟨c, hc, rfl⟩ := (ho.stored k).mp ⟨t, ht⟩
    rw [List.mem_singleton.mp hc]
    rfl
  intro stored s hs hpass hreach
  obtain rfl := hkeys hs
  by_cases heq : key = [0x61]
  · exact ⟨s, heq ▸ hs, ReflTransGen.refl⟩
  · exfalso
    have honly : ∀ t, st.ftl.Occupied t → t = s := by
      intro t ht
      obtain ⟨k, hk⟩ := ho.occupied.mp ht
      exact ho.single hk (hkeys hk ▸ hs)
    have hocc : st.ftl.Occupied s := ho.occupied.mpr ⟨_, hs⟩
    have hsame : st.ftl.hashSlot key = st.ftl.hashSlot [0x61] :=
      (reach_only honly hocc hreach).trans (reach_only honly hocc (ho.reach hs)).symm
    rcases (passesFor_iff (Nat.le_trans hlen (by decide))).mp hpass with hpre | ⟨n, rfl⟩
    · exact heq (hpre.eq_of_length_le hkey)
    · have hn : n < 16 := by
        rw [List.length_append, List.length_replicate] at hlen
        exact Nat.lt_of_lt_of_le (Nat.lt_add_left_iff_pos.mpr (by decide)) hlen
      have hhash : ∀ n < 16, hashFunction ([0x61] ++ List.replicate n 0) % 22369621 =
        hashFunction [0x61] % 22369621 →
          n = 0 := by decide +kernel
      unfold KvFtl.hashSlot at hsame
      rw [hslots] at hsame
      exact heq (by rw [hhash n hn hsame]; rfl)

theorem keys_identified_only_a : ∃ st₀ st, kvInitNamespace (2^30) (2^30) ⟨fun _ => 0, fun _ => 0⟩ = .ok st₀ ∧
    kvRun (2^30) [onlyA] st₀ = .ok st ∧ ∀ key : List UInt8, 0 < key.length → key.length ≤ kvcmdInlineKeyMax →
      ∃ found, Identifies (2^30) st₀ [onlyA] st key found := by
  obtain ⟨⟨st₀, st⟩, hrun, hp⟩ := exists_of_check (show check (fun r => decide (0 < r.1.ftl.hashSlots) &&
      decide (r.2.ftl.hashSlots = 22369621)) onlyARun = true by decide +kernel)
  unfold onlyARun at hrun
  obtain ⟨_, hinit, hrun⟩ := bind_eq_ok.mp hrun
  obtain ⟨_, hst, hrun⟩ := bind_eq_ok.mp hrun
  cases hrun
  simp only [Bool.and_eq_true, decide_eq_true_eq] at hp
  obtain ⟨hpos, hslots⟩ := hp
  have hstores : InlineStores [onlyA] := inlineStores_singleton rfl (by decide)
  have hall := (keys_identified_iff (2^30) (2^30) _ st₀ [onlyA] hinit hpos hstores).mpr (by
    intro pre s key hpre hs hkey hlen
    rcases List.prefix_concat_iff.mp (show pre <+: [] ++ [onlyA] from hpre) with rfl | hnil
    · rw [List.nil_append, hst] at hs
      cases hs
      exact onlyA_apart hinit hpos hslots hst hkey hlen
    · obtain rfl := List.prefix_nil.mp hnil
      exact fun _ _ h => absurd h filledFor_nil)
  exact ⟨st₀, st, hinit, hst, fun key => hall [onlyA] st key (List.prefix_refl _) hst⟩

end NVMeVirt
