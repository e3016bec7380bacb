import NVMeVirt.KvFtl
import NVMeVirt.Lib.Links

/-!
# The chains of the mapping table

Chains of several hash slots run together, and a link may lead to a slot that was deleted
and filled again. What never happens is that a slot links to one that was filled before it.
-/

namespace NVMeVirt
set_option autoImplicit false
open Outcome Links Relation

def KvFtl.Occupied (kv : KvFtl) (slot : Nat) : Prop :=
  slot < kv.hashSlots ∧ (kv.kvMappingTable slot).memOffset ≠ none

def KvFtl.Free (kv : KvFtl) (slot : Nat) : Prop :=
  slot < kv.hashSlots ∧ (kv.kvMappingTable slot).memOffset = none

def KvFtl.links (kv : KvFtl) : Cells Nat where
  live := kv.Occupied
  next := fun slot => (kv.kvMappingTable slot).nextSlot

def KvFtl.hashSlot (kv : KvFtl) (key : List UInt8) : Nat := hashFunction key % kv.hashSlots

/-- The first `n` bytes of the key in a slot. -/
def KvFtl.keyAt (kv : KvFtl) (n slot : Nat) : List UInt8 := (kv.kvMappingTable slot).key.take n

structure KvFtl.Sound (kv : KvFtl) : Prop where
  pos : 0 < kv.hashSlots
  next_lt : ∀ {s t}, (kv.kvMappingTable s).nextSlot = some t → t < kv.hashSlots
  free_unlinked : ∀ {s}, (kv.kvMappingTable s).memOffset = none → (kv.kvMappingTable s).nextSlot = none
  stamped : ∃ stamp now, Stamped kv.links stamp now

variable {kv kv' : KvFtl} {key : List UInt8} {cmd : NvmeKvCommand}

@[simp] theorem KvFtl.setEntry_self (kv : KvFtl) (slot : Nat) (e : MappingEntry) :
    (kv.setEntry slot e).kvMappingTable slot = e := Function.update_self ..

@[simp] theorem KvFtl.setEntry_of_ne {slot s : Nat} {e : MappingEntry} (h : s ≠ slot) :
    (kv.setEntry slot e).kvMappingTable s = kv.kvMappingTable s := Function.update_of_ne h ..

@[simp] theorem KvFtl.setEntry_hashSlots (kv : KvFtl) (slot : Nat) (e : MappingEntry) :
    (kv.setEntry slot e).hashSlots = kv.hashSlots := rfl

theorem KvFtl.entry_ok {slot : Nat} (h : slot < kv.hashSlots) : kv.entry slot = .ok (kv.kvMappingTable slot) :=
  if_pos h

theorem KvFtl.Sound.hashSlot_lt (hs : kv.Sound) (key : List UInt8) :
    kv.hashSlot key < kv.hashSlots := Nat.mod_lt _ hs.pos

theorem KvFtl.Sound.getHashSlot (hs : kv.Sound) : getHashSlot kv key = .ok (kv.hashSlot key) := by
  have hpos := hs.pos
  unfold NVMeVirt.getHashSlot divisor
  rw [if_neg (by omega)]
  rfl

theorem cmdKey_eq_ok : cmdKey cmd = .ok key ↔
    cmdKeyLength cmd ≤ kvcmdInlineKeyMax ∧ key = cmd.key.take (cmdKeyLength cmd) := by
  unfold cmdKey
  split
  · rename_i h
    constructor
    · intro hk
      cases hk
      exact ⟨h, rfl⟩
    · rintro ⟨_, rfl⟩
      rfl
  · rename_i h
    constructor
    · intro hk
      cases hk
    · exact fun hk => absurd hk.1 h

theorem cmdKey_length (h : cmdKey cmd = .ok key) : key.length = cmdKeyLength cmd := by
  obtain ⟨hle, rfl⟩ := cmdKey_eq_ok.mp h
  rw [List.length_take, cmd.key_length]
  exact Nat.min_eq_left hle

/-- What a search for `key` from `slot` may come back with. -/
def KvFtl.Finds (kv : KvFtl) (key : List UInt8) (slot : Nat) : Option Nat → Prop
  | none => ∀ t, kv.Occupied t → kv.links.Reach slot t → kv.keyAt key.length t ≠ key
  | some t => kv.Occupied t ∧ kv.links.Reach slot t ∧ kv.keyAt key.length t = key

theorem finds_of_free {slot : Nat} (h : ¬ kv.Occupied slot) : kv.Finds key slot none :=
  fun _ ht hreach _ => h (hreach.live ht)

theorem finds_of_step {slot next : Nat} {r : Option Nat} (hne : kv.keyAt key.length slot ≠ key)
    (hnext : (kv.kvMappingTable slot).nextSlot = some next) (hocc : kv.Occupied slot)
    (h : kv.Finds key next r) : kv.Finds key slot r := by
  have hstep : kv.Occupied next → kv.links.Step slot next := fun hn => ⟨hocc, hnext, hn⟩
  cases r with
  | none =>
    intro t ht hreach
    by_cases heq : slot = t
    · exact heq ▸ hne
    · obtain ⟨x, hx, hxt⟩ := (ReflTransGen.cases_head hreach).resolve_left heq
      have hxn : x = next := Option.some.inj (hx.2.1.symm.trans hnext)
      exact h t ht (hxn ▸ hxt)
  | some t =>
    obtain ⟨ht, hreach, hkey⟩ := h
    exact ⟨ht, ReflTransGen.head (hstep (hreach.live ht)) hreach, hkey⟩

theorem finds_of_end {slot : Nat} (hne : kv.keyAt key.length slot ≠ key)
    (hend : (kv.kvMappingTable slot).nextSlot = none) : kv.Finds key slot none := by
  intro t _ hreach
  have hstep : ∀ c, ¬ kv.links.Step slot c := by
    intro c hc
    have := hc.2.1
    rw [show kv.links.next slot = none from hend] at this
    cases this
  exact Cells.reach_of_no_step hreach hstep ▸ hne

/-- Enough fuel for a walk that starts at `slot`. -/
def Enough (kv : KvFtl) (stamp : Nat → Nat) (fuel slot : Nat) : Prop :=
  0 < fuel ∧ (kv.Occupied slot → ahead kv.links stamp kv.hashSlots slot < fuel)

theorem enough_start (kv : KvFtl) (stamp : Nat → Nat) (slot : Nat) :
    Enough kv stamp (kv.hashSlots + 1) slot :=
  ⟨Nat.succ_pos _, fun _ => Nat.lt_succ_of_le (ahead_le _ _ _ _)⟩

theorem Enough.step {stamp : Nat → Nat} {now fuel slot next : Nat} (h : Enough kv stamp (fuel + 1) slot)
    (hst : Stamped kv.links stamp now) (hocc : kv.Occupied slot)
    (hnext : (kv.kvMappingTable slot).nextSlot = some next) : Enough kv stamp fuel next := by
  have hfuel := h.2 hocc
  have hpos : 0 < ahead kv.links stamp kv.hashSlots slot := ahead_pos hocc.1 hocc
  refine ⟨by omega, fun hn => ?_⟩
  have hlt := hst.ahead_lt hocc.1 (⟨hocc, hnext, hn⟩ : kv.links.Step slot next)
  omega

theorem searchChain_finds (hs : kv.Sound) {stamp : Nat → Nat} {now : Nat} (hst : Stamped kv.links stamp now)
    {fuel slot : Nat} (hslot : slot < kv.hashSlots) (hfuel : Enough kv stamp fuel slot) :
    ∃ r, searchChain kv key fuel slot = .ok r ∧ kv.Finds key slot r := by
  induction fuel generalizing slot with
  | zero => exact absurd hfuel.1 (Nat.lt_irrefl 0)
  | succ fuel ih =>
    rw [searchChain, KvFtl.entry_ok hslot, ok_bind]
    split
    · rename_i hfree
      exact ⟨none, rfl, finds_of_free (fun hocc => hocc.2 hfree)⟩
    · rename_i hocc
      have hocc : kv.Occupied slot := ⟨hslot, hocc⟩
      split
      · rename_i hkey
        exact ⟨some slot, rfl, hocc, ReflTransGen.refl, hkey⟩
      · rename_i hne
        split
        · rename_i hend
          exact ⟨none, rfl, finds_of_end hne hend⟩
        · rename_i next hnext
          obtain ⟨r, hr, hfinds⟩ := ih (hs.next_lt hnext) (hfuel.step hst hocc hnext)
          exact ⟨r, hr, finds_of_step hne hnext hocc hfinds⟩

theorem KvFtl.Sound.searchKey (hs : kv.Sound) (hkey : cmdKey cmd = .ok key) :
    ∃ r, searchKey kv cmd = .ok r ∧ kv.Finds key (kv.hashSlot key) r := by
  obtain ⟨stamp, now, hst⟩ := hs.stamped
  unfold NVMeVirt.searchKey
  rw [hkey, ok_bind, hs.getHashSlot, ok_bind]
  exact searchChain_finds hs hst (hs.hashSlot_lt key) (enough_start kv stamp _)

theorem findTail_last (hs : kv.Sound) {stamp : Nat → Nat} {now : Nat} (hst : Stamped kv.links stamp now)
    {fuel slot : Nat} (prevs : Option Nat) (hslot : slot < kv.hashSlots) (hfuel : Enough kv stamp fuel slot) :
    ∃ r, findTail kv fuel slot prevs = .ok r ∧ (¬ kv.Occupied slot → r = prevs) ∧
      (kv.Occupied slot → ∃ p, r = some p ∧ kv.Occupied p ∧ kv.links.Reach slot p ∧
        ∀ c, ¬ kv.links.Step p c) := by
  induction fuel generalizing slot prevs with
  | zero => exact absurd hfuel.1 (Nat.lt_irrefl 0)
  | succ fuel ih =>
    rw [findTail, KvFtl.entry_ok hslot, ok_bind]
    split
    · rename_i hfree
      exact ⟨prevs, rfl, fun _ => rfl, fun hocc => absurd hfree hocc.2⟩
    · rename_i hocc
      have hocc : kv.Occupied slot := ⟨hslot, hocc⟩
      split
      · rename_i hend
        refine ⟨some slot, rfl, fun h => absurd hocc h, fun _ => ⟨slot, rfl, hocc, ReflTransGen.refl, ?_⟩⟩
        intro c hc
        have := hc.2.1
        rw [show kv.links.next slot = none from hend] at this
        cases this
      · rename_i next hnext
        obtain ⟨r, hr, hfree, hlast⟩ := ih (some slot) (hs.next_lt hnext) (hfuel.step hst hocc hnext)
        refine ⟨r, hr, fun h => absurd hocc h, fun _ => ?_⟩
        by_cases hn : kv.Occupied next
        · obtain ⟨p, hp, hpocc, hreach, hend⟩ := hlast hn
          exact ⟨p, hp, hpocc, ReflTransGen.head ⟨hocc, hnext, hn⟩ hreach, hend⟩
        · refine ⟨slot, hfree hn, hocc, ReflTransGen.refl, fun c hc => hn ?_⟩
          have hcn : c = next := Option.some.inj (hc.2.1.symm.trans hnext)
          exact hcn ▸ hc.2.2

theorem probeSlot_free {fuel slot t : Nat} (h : probeSlot kv fuel slot = .ok t) : kv.Free t := by
  induction fuel generalizing slot with
  | zero => cases h
  | succ fuel ih =>
    rw [probeSlot] at h
    obtain ⟨e, he, h⟩ := bind_eq_ok.mp h
    unfold KvFtl.entry at he
    split at he
    · rename_i hslot
      cases he
      split at h
      · rename_i hfree
        cases h
        exact ⟨hslot, hfree⟩
      · exact ih h
    · cases he

/-- How far a free slot lies ahead of a probe. -/
def probeDistance (kv : KvFtl) (free slot : Nat) : Nat :=
  if slot ≤ free then free - slot else kv.hashSlots - slot + free

theorem probeSlot_ends {free : Nat} (hfree : kv.Free free) {fuel slot : Nat} (hslot : slot < kv.hashSlots)
    (hfuel : probeDistance kv free slot < fuel) : ∃ t, probeSlot kv fuel slot = .ok t := by
  induction fuel generalizing slot with
  | zero => exact absurd hfuel (Nat.not_lt_zero _)
  | succ fuel ih =>
    rw [probeSlot, KvFtl.entry_ok hslot, ok_bind]
    split
    · exact ⟨slot, rfl⟩
    · rename_i hocc
      have hne : slot ≠ free := by
        rintro rfl
        exact hocc hfree.2
      have hint := kv.hashSlots_int
      have hflt := hfree.1
      have hu : u32 (slot + 1) = slot + 1 := by
        unfold u32
        omega
      rw [hu]
      unfold probeDistance at hfuel
      apply ih
      · split <;> omega
      · unfold probeDistance
        split_ifs at hfuel ⊢ <;> omega

structure KvFtl.NewSlot (kv : KvFtl) (key : List UInt8) (slot : Nat) (prev : Option Nat) : Prop where
  free : kv.Free slot
  home : prev = none → slot = kv.hashSlot key
  tail : ∀ {p}, prev = some p → kv.Occupied p ∧ kv.links.Reach (kv.hashSlot key) p ∧ ∀ c, ¬ kv.links.Step p c

/-- The hash slot is free, or the search for a slot starts from the last one of the chain. -/
theorem KvFtl.Sound.newSlot_eq (hs : kv.Sound) (key : List UInt8) :
    (kv.Free (kv.hashSlot key) ∧ newSlot kv key = .ok (kv.hashSlot key, none)) ∨
      ∃ p, kv.Occupied p ∧ kv.links.Reach (kv.hashSlot key) p ∧ (∀ c, ¬ kv.links.Step p c) ∧
        newSlot kv key = (do let slot ← probeSlot kv kv.hashSlots p; return (slot, some p)) := by
  obtain ⟨stamp, now, hst⟩ := hs.stamped
  have hlt := hs.hashSlot_lt key
  unfold newSlot
  rw [hs.getHashSlot, ok_bind, KvFtl.entry_ok hlt, ok_bind]
  split
  · rename_i hfree
    exact .inl ⟨⟨hlt, hfree⟩, rfl⟩
  · rename_i hocc
    obtain ⟨r, hr, _, hlast⟩ := findTail_last hs hst none hlt (enough_start kv stamp _)
    obtain ⟨p, rfl, hp, hreach, hend⟩ := hlast ⟨hlt, hocc⟩
    refine .inr ⟨p, hp, hreach, hend, ?_⟩
    unfold findNextSlot
    rw [hr, ok_bind]
    simp only
    cases probeSlot kv kv.hashSlots p with
    | error e => rfl
    | ok slot => rfl

theorem KvFtl.Sound.newSlot (hs : kv.Sound) {slot : Nat} {prev : Option Nat}
    (h : NVMeVirt.newSlot kv key = .ok (slot, prev)) : kv.NewSlot key slot prev := by
  rcases hs.newSlot_eq key with ⟨hfree, heq⟩ | ⟨p, hp, hreach, hend, heq⟩
  · rw [heq] at h
    cases h
    exact ⟨hfree, fun _ => rfl, fun h => nomatch h⟩
  · rw [heq] at h
    obtain ⟨t, ht, h⟩ := bind_eq_ok.mp h
    cases h
    refine ⟨probeSlot_free ht, (fun h => nomatch h), fun h => ?_⟩
    cases h
    exact ⟨hp, hreach, hend⟩

theorem KvFtl.Sound.newSlot_ends (hs : kv.Sound) (key : List UInt8) {free : Nat} (hfree : kv.Free free) :
    ∃ r, NVMeVirt.newSlot kv key = .ok r := by
  rcases hs.newSlot_eq key with ⟨_, heq⟩ | ⟨p, hp, _, _, heq⟩
  · exact ⟨_, heq⟩
  · have hdist : probeDistance kv free p < kv.hashSlots := by
      have h₁ := hfree.1
      have h₂ := hp.1
      unfold probeDistance
      split <;> omega
    obtain ⟨t, ht⟩ := probeSlot_ends hfree hp.1 hdist
    rw [heq, ht]
    exact ⟨_, rfl⟩

/-- What `new_mapping_entry` does to the table. -/
structure KvFtl.Inserted (kv kv' : KvFtl) (key : List UInt8) (valOffset length slot : Nat) : Prop where
  hashSlots_eq : kv'.hashSlots = kv.hashSlots
  free : kv.Free slot
  filled : kv'.kvMappingTable slot = fillEntry (kv.kvMappingTable slot) key valOffset length
  other : ∀ {s}, s ≠ slot → kv'.kvMappingTable s = kv.kvMappingTable s ∨
    kv.Occupied s ∧ (∀ c, ¬ kv.links.Step s c) ∧
      kv'.kvMappingTable s = { kv.kvMappingTable s with nextSlot := some slot }
  chained : slot = kv.hashSlot key ∨ ∃ p, kv.Occupied p ∧ kv.links.Reach (kv.hashSlot key) p ∧
    (kv'.kvMappingTable p).nextSlot = some slot

section NewSlot
variable {valOffset length slot : Nat}

theorem KvFtl.NewSlot.inserted (h : kv.NewSlot key slot none) :
    kv.Inserted (kv.setEntry slot (fillEntry (kv.kvMappingTable slot) key valOffset length)) key valOffset length
      slot where
  hashSlots_eq := rfl
  free := h.free
  filled := KvFtl.setEntry_self ..
  other := fun hne => .inl (KvFtl.setEntry_of_ne hne)
  chained := .inl (h.home rfl)

theorem KvFtl.NewSlot.chained {p : Nat} (h : kv.NewSlot key slot (some p)) :
    kv.Inserted (chainMapping (kv.setEntry slot (fillEntry (kv.kvMappingTable slot) key valOffset length)) p slot)
      key valOffset length slot := by
  obtain ⟨hp, hreach, hend⟩ := h.tail rfl
  have hne : p ≠ slot := by
    rintro rfl
    exact hp.2 h.free.2
  unfold chainMapping
  refine
    { hashSlots_eq := rfl
      free := h.free
      filled := ?_
      other := ?_
      chained := .inr ⟨p, hp, hreach, ?_⟩ }
  · rw [KvFtl.setEntry_of_ne hne.symm, KvFtl.setEntry_self]
  · intro s hs
    by_cases heq : s = p
    · subst heq
      refine .inr ⟨hp, hend, ?_⟩
      rw [KvFtl.setEntry_self, KvFtl.setEntry_of_ne hs]
    · exact .inl ((KvFtl.setEntry_of_ne heq).trans (KvFtl.setEntry_of_ne hs))
  · rw [KvFtl.setEntry_self]

end NewSlot

theorem valOffset_lt {storageSize valOffset : Nat} {u : Unit} (h : nvmevAssert (valOffset < storageSize) = .ok u) :
    valOffset < storageSize := by
  by_contra hn
  rw [nvmevAssert_false hn] at h
  cases h

theorem KvFtl.Sound.newMappingEntry (hs : kv.Sound) {storageSize valOffset : Nat} (hkey : cmdKey cmd = .ok key)
    (h : newMappingEntry storageSize kv cmd valOffset = .ok kv') :
    valOffset < storageSize ∧ ∃ slot, kv.Inserted kv' key valOffset (cmdValueLength cmd) slot := by
  unfold NVMeVirt.newMappingEntry at h
  obtain ⟨_, hassert, h⟩ := bind_eq_ok.mp h
  rw [hkey, ok_bind] at h
  obtain ⟨⟨slot, prev⟩, hnew, h⟩ := bind_eq_ok.mp h
  have hslot := hs.newSlot hnew
  refine ⟨valOffset_lt hassert, slot, ?_⟩
  cases prev with
  | none =>
    cases h
    exact hslot.inserted
  | some p =>
    cases h
    exact hslot.chained

section Inserted
variable {valOffset length slot : Nat}

theorem KvFtl.Inserted.same (hi : kv.Inserted kv' key valOffset length slot) {s : Nat} (hne : s ≠ slot) :
    (kv'.kvMappingTable s).key = (kv.kvMappingTable s).key ∧
      (kv'.kvMappingTable s).memOffset = (kv.kvMappingTable s).memOffset ∧
      (kv'.kvMappingTable s).length = (kv.kvMappingTable s).length := by
  rcases hi.other hne with h | ⟨_, _, h⟩
  · rw [h]
    exact ⟨rfl, rfl, rfl⟩
  · rw [h]
    exact ⟨rfl, rfl, rfl⟩

theorem KvFtl.Inserted.occupied (hi : kv.Inserted kv' key valOffset length slot) {s : Nat} :
    kv'.Occupied s ↔ kv.Occupied s ∨ s = slot := by
  unfold KvFtl.Occupied
  rw [hi.hashSlots_eq]
  by_cases h : s = slot
  · subst h
    rw [hi.filled]
    have hlt := hi.free.1
    simp [fillEntry, hlt]
  · rw [(hi.same h).2.1]
    simp [h]

theorem KvFtl.Inserted.ne_of_occupied (hi : kv.Inserted kv' key valOffset length slot) {s : Nat}
    (h : kv.Occupied s) : s ≠ slot := by
  rintro rfl
  exact h.2 hi.free.2

theorem KvFtl.Inserted.keyAt_slot (hi : kv.Inserted kv' key valOffset length slot) :
    kv'.keyAt key.length slot = key := by
  unfold KvFtl.keyAt
  rw [hi.filled]
  exact List.take_left ..

theorem KvFtl.Inserted.keyAt_other (hi : kv.Inserted kv' key valOffset length slot) {n s : Nat}
    (h : s ≠ slot) : kv'.keyAt n s = kv.keyAt n s := by
  unfold KvFtl.keyAt
  rw [(hi.same h).1]

theorem KvFtl.Inserted.unlinked (hs : kv.Sound) (hi : kv.Inserted kv' key valOffset length slot) :
    kv'.links.next slot = none := by
  have h := hs.free_unlinked hi.free.2
  unfold KvFtl.links
  simp only
  rw [hi.filled]
  exact h

/-- Only links into the new slot are new. -/
theorem KvFtl.Inserted.step_of (hs : kv.Sound) (hi : kv.Inserted kv' key valOffset length slot) {a b : Nat}
    (hstep : kv'.links.Step a b) (hb : b ≠ slot) : kv.links.Step a b := by
  obtain ⟨ha, hnext, hlive⟩ := hstep
  have hne : a ≠ slot := by
    rintro rfl
    rw [hi.unlinked hs] at hnext
    cases hnext
  have hocc : kv.Occupied a := (hi.occupied.mp ha).resolve_right hne
  have hocc' : kv.Occupied b := (hi.occupied.mp hlive).resolve_right hb
  refine ⟨hocc, ?_, hocc'⟩
  unfold KvFtl.links at hnext
  simp only at hnext
  rcases hi.other hne with h | ⟨_, _, h⟩
  · rw [h] at hnext
    exact hnext
  · rw [h] at hnext
    exact absurd (Option.some.inj hnext).symm hb

theorem KvFtl.Inserted.step (hi : kv.Inserted kv' key valOffset length slot) {a b : Nat}
    (hstep : kv.links.Step a b) : kv'.links.Step a b := by
  obtain ⟨ha, hnext, hb⟩ := hstep
  refine ⟨hi.occupied.mpr (.inl ha), ?_, hi.occupied.mpr (.inl hb)⟩
  unfold KvFtl.links
  simp only
  rcases hi.other (hi.ne_of_occupied ha) with h | ⟨_, hend, _⟩
  · rw [h]
    exact hnext
  · exact absurd ⟨ha, hnext, hb⟩ (hend b)

theorem KvFtl.Inserted.reach (hi : kv.Inserted kv' key valOffset length slot) :
    kv'.links.Reach (kv'.hashSlot key) slot := by
  have hhash : kv'.hashSlot key = kv.hashSlot key := by
    unfold KvFtl.hashSlot
    rw [hi.hashSlots_eq]
  rw [hhash]
  rcases hi.chained with h | ⟨p, hp, hreach, hnext⟩
  · rw [← h]
    exact ReflTransGen.refl
  · exact ReflTransGen.tail (hreach.mono (fun _ _ => hi.step))
      ⟨hi.occupied.mpr (.inl hp), hnext, hi.occupied.mpr (.inr rfl)⟩

theorem KvFtl.Sound.insert (hs : kv.Sound) (hi : kv.Inserted kv' key valOffset length slot) : kv'.Sound where
  pos := hi.hashSlots_eq ▸ hs.pos
  next_lt := by
    intro s t hnext
    rw [hi.hashSlots_eq]
    by_cases h : s = slot
    · subst h
      have hnone := hi.unlinked hs
      rw [show kv'.links.next s = some t from hnext] at hnone
      cases hnone
    · rcases hi.other h with heq | ⟨_, _, heq⟩
      · rw [heq] at hnext
        exact hs.next_lt hnext
      · rw [heq] at hnext
        cases hnext
        exact hi.free.1
  free_unlinked := by
    intro s hfree
    by_cases h : s = slot
    · subst h
      exact hi.unlinked hs
    · rcases hi.other h with heq | ⟨hocc, _, heq⟩
      · rw [heq] at hfree ⊢
        exact hs.free_unlinked hfree
      · rw [heq] at hfree
        exact absurd hfree hocc.2
  stamped := by
    obtain ⟨stamp, now, hst⟩ := hs.stamped
    exact ⟨_, _, hst.fill (hi.unlinked hs) (fun hstep hne => hi.step_of hs hstep hne)⟩

end Inserted

theorem KvFtl.occupied_delete {d s : Nat} :
    (kv.setEntry d .blank).Occupied s ↔ kv.Occupied s ∧ s ≠ d := by
  unfold KvFtl.Occupied
  by_cases h : s = d
  · simp [h, MappingEntry.blank]
  · simp [h]

theorem KvFtl.links_delete (kv : KvFtl) (d : Nat) : (kv.setEntry d .blank).links = kv.links.erase d := by
  unfold KvFtl.links Cells.erase
  congr 1
  · funext s
    exact propext KvFtl.occupied_delete
  · funext s
    by_cases h : s = d
    · simp [h, MappingEntry.blank]
    · simp [h]

theorem KvFtl.keyAt_delete {d n s : Nat} (h : s ≠ d) : (kv.setEntry d .blank).keyAt n s = kv.keyAt n s := by
  unfold KvFtl.keyAt
  rw [KvFtl.setEntry_of_ne h]

theorem KvFtl.Sound.delete (hs : kv.Sound) (d : Nat) : (kv.setEntry d .blank).Sound where
  pos := hs.pos
  next_lt := by
    intro s t hnext
    by_cases h : s = d
    · simp [h, MappingEntry.blank] at hnext
    · rw [KvFtl.setEntry_of_ne h] at hnext
      exact hs.next_lt hnext
  free_unlinked := by
    intro s hfree
    by_cases h : s = d
    · simp [h, MappingEntry.blank]
    · rw [KvFtl.setEntry_of_ne h] at hfree ⊢
      exact hs.free_unlinked hfree
  stamped := by
    obtain ⟨stamp, now, hst⟩ := hs.stamped
    rw [KvFtl.links_delete]
    exact ⟨stamp, now, hst.erase⟩

/-- The two tables agree in all but the lengths. -/
structure KvFtl.SameChains (kv kv' : KvFtl) : Prop where
  hashSlots_eq : kv'.hashSlots = kv.hashSlots
  key_eq : ∀ s, (kv'.kvMappingTable s).key = (kv.kvMappingTable s).key
  memOffset_eq : ∀ s, (kv'.kvMappingTable s).memOffset = (kv.kvMappingTable s).memOffset
  next_eq : ∀ s, (kv'.kvMappingTable s).nextSlot = (kv.kvMappingTable s).nextSlot

theorem KvFtl.sameChains_setLength (kv : KvFtl) (slot n : Nat) :
    kv.SameChains (kv.setEntry slot { kv.kvMappingTable slot with length := n }) := by
  refine ⟨rfl, ?_, ?_, ?_⟩ <;>
  · intro s
    by_cases h : s = slot
    · simp [h]
    · simp [h]

theorem KvFtl.SameChains.occupied (h : kv.SameChains kv') {s : Nat} : kv'.Occupied s ↔ kv.Occupied s := by
  unfold KvFtl.Occupied
  rw [h.hashSlots_eq, h.memOffset_eq]

theorem KvFtl.SameChains.links_eq (h : kv.SameChains kv') : kv'.links = kv.links := by
  unfold KvFtl.links
  congr 1
  · funext s
    exact propext h.occupied
  · funext s
    exact h.next_eq s

theorem KvFtl.SameChains.keyAt_eq (h : kv.SameChains kv') (n s : Nat) : kv'.keyAt n s = kv.keyAt n s := by
  unfold KvFtl.keyAt
  rw [h.key_eq]

theorem KvFtl.SameChains.hashSlot_eq (h : kv.SameChains kv') (key : List UInt8) :
    kv'.hashSlot key = kv.hashSlot key := by
  unfold KvFtl.hashSlot
  rw [h.hashSlots_eq]

theorem KvFtl.Sound.sameChains (hs : kv.Sound) (h : kv.SameChains kv') : kv'.Sound where
  pos := h.hashSlots_eq ▸ hs.pos
  next_lt := by
    intro s t hnext
    rw [h.next_eq] at hnext
    rw [h.hashSlots_eq]
    exact hs.next_lt hnext
  free_unlinked := by
    intro s hfree
    rw [h.memOffset_eq] at hfree
    rw [h.next_eq]
    exact hs.free_unlinked hfree
  stamped := h.links_eq ▸ hs.stamped

end NVMeVirt
