import NVMeVirt.ConvConsistency
import NVMeVirt.ConvSteps
import NVMeVirt.Lib.FlashStore

/-!
# The partition as a store on flash

Between commands a partition shows a `FlashStore`: free pages are clean cells, `maptbl` is where the
keys are, `erase_cnt` counts the erases. Every step of `conv_write` and `do_gc` is a step of the
store, a copy of the collector a move. What a host would find in the mapped pages is therefore what
it wrote last.
-/

namespace NVMeVirt
set_option autoImplicit false
open Outcome FlashStore

universe u
variable {ν : Type u} {clk : Nat → Nat} {spp : SsdParams} {cpp : ConvParams} {s s' : ConvFtl}

/-- The pages that exist. -/
abbrev FlashPage (spp : SsdParams) := { a : Ppa // Page spp a }

def flashLayout (spp : SsdParams) : Layout (FlashPage spp) BlkAddr where
  block a := a.1.addr
  place a := a.1.pg

abbrev FlashState (spp : SsdParams) (ν : Type u) := Store Nat (FlashPage spp) BlkAddr ν

abbrev FlashTrace (spp : SsdParams) (ν : Type u) := List (Op Nat (FlashPage spp) BlkAddr ν)

/-- A location as an entry of `maptbl`. -/
def entryOf : Option (FlashPage spp) → Ppa
  | none => unmappedPpa
  | some a => a.1

structure ShowsStore (s : ConvFtl) (st : FlashState spp ν) : Prop where
  clean : ∀ a, st.cell a = none ↔ pgStatus s a.1 = .free
  entry : ∀ lpn < spp.ttPgs, s.maptbl lpn = entryOf (st.loc lpn)
  outside : ∀ lpn, spp.ttPgs ≤ lpn → st.loc lpn = none
  erases : ∀ a : FlashPage spp, st.erases a.1.addr = (s.ssd.blk a.1.addr).eraseCnt

/-- The partition shows what a run from the blank store that wrote `pairs` has led to. -/
def FlashStored (spp : SsdParams) (s : ConvFtl) (pairs : List (Nat × ν)) : Prop :=
  ∃ (trace : FlashTrace spp ν) (st : FlashState spp ν),
    Run (flashLayout spp) blank trace st ∧ puts trace = pairs ∧ ShowsStore s st

variable {st : FlashState spp ν} {pairs : List (Nat × ν)}

theorem Page.addr_eq {a : Ppa} (h : Page spp a) : a.addr = ⟨a.ch, a.lun, 0, a.blk⟩ := by
  unfold Ppa.addr
  rw [h.pl]

theorem entryOf_eq_page {o : Option (FlashPage spp)} {a : FlashPage spp} : entryOf o = a.1 ↔ o = some a := by
  cases o with
  | none => exact ⟨fun h => absurd h.symm a.2.mapped, fun h => nomatch h⟩
  | some b => exact ⟨fun h => congrArg some (Subtype.ext h),
    fun h => congrArg Subtype.val (Option.some.inj h)⟩

theorem entryOf_eq_unmapped {o : Option (FlashPage spp)} : entryOf o = unmappedPpa ↔ o = none := by
  cases o with
  | none => exact ⟨fun _ => rfl, fun _ => rfl⟩
  | some b => exact ⟨fun h => absurd h b.2.mapped, fun h => nomatch h⟩

theorem ShowsStore.loc_lt (k : ShowsStore s st) {lpn : Nat} {a : FlashPage spp} (h : st.loc lpn = some a) :
    lpn < spp.ttPgs := by
  by_contra hge
  rw [k.outside lpn (Nat.not_lt.mp hge)] at h
  cases h

theorem ShowsStore.loc_iff (k : ShowsStore s st) {lpn : Nat} (hl : lpn < spp.ttPgs) (a : FlashPage spp) :
    st.loc lpn = some a ↔ s.maptbl lpn = a.1 := by
  rw [k.entry lpn hl, entryOf_eq_page]

theorem ShowsStore.congr (k : ShowsStore s st)
    (hst : ∀ a, Page spp a → (pgStatus s' a = .free ↔ pgStatus s a = .free))
    (htbl : s'.maptbl = s.maptbl) (her : ∀ a, (s'.ssd.blk a).eraseCnt = (s.ssd.blk a).eraseCnt) :
    ShowsStore s' st := by
  refine ⟨fun a => (k.clean a).trans (hst a.1 a.2).symm, ?_, k.outside,
    fun a => (k.erases a).trans (her _).symm⟩
  rw [htbl]
  exact k.entry

theorem FlashStored.congr (h : FlashStored spp s pairs)
    (hst : ∀ a, Page spp a → (pgStatus s' a = .free ↔ pgStatus s a = .free))
    (htbl : s'.maptbl = s.maptbl) (her : ∀ a, (s'.ssd.blk a).eraseCnt = (s.ssd.blk a).eraseCnt) :
    FlashStored spp s' pairs := by
  obtain ⟨trace, st, hrun, hputs, k⟩ := h
  exact ⟨trace, st, hrun, hputs, k.congr hst htbl her⟩

theorem pgStatus_of_blk (hblk : s'.ssd.blk = s.ssd.blk) (a : Ppa) : pgStatus s' a = pgStatus s a := by
  unfold pgStatus statusAt blockAt
  rw [hblk]

theorem FlashStored.of_blk (h : FlashStored spp s pairs) (hblk : s'.ssd.blk = s.ssd.blk)
    (htbl : s'.maptbl = s.maptbl) :
    FlashStored spp s' pairs :=
  h.congr (fun a _ => by rw [pgStatus_of_blk hblk]) htbl (fun a => by rw [hblk])

structure SameWear (s s' : ConvFtl) : Prop where
  erases : ∀ a, (s'.ssd.blk a).eraseCnt = (s.ssd.blk a).eraseCnt
  collections : s'.gcCnt = s.gcCnt

theorem SameWear.trans {s'' : ConvFtl} (h : SameWear s s') (h' : SameWear s' s'') : SameWear s s'' :=
  ⟨fun a => (h'.erases a).trans (h.erases a), h'.collections.trans h.collections⟩

theorem setWp_wear (s : ConvFtl) (io : IoType) (wp : WritePointer) : SameWear s (setWp s io wp) := by
  cases io <;> exact ⟨fun _ => rfl, rfl⟩

theorem advanceWritePointer_wear {io : IoType} (h : advanceWritePointer spp s io = .ok s') :
    SameWear s s' := by
  unfold advanceWritePointer at h
  obtain ⟨_, _, h⟩ := bind_eq_ok.mp h
  dsimp only at h
  split at h
  · cases h
    exact setWp_wear s io _
  obtain ⟨_, _, h⟩ := bind_eq_ok.mp h
  split at h
  · cases h
    exact setWp_wear s io _
  obtain ⟨_, _, h⟩ := bind_eq_ok.mp h
  split at h
  · cases h
    exact setWp_wear s io _
  split at h
  · cases h
    exact setWp_wear s io _
  unfold closeLine at h
  obtain ⟨lm, _, h⟩ := bind_eq_ok.mp h
  obtain ⟨_, _, h⟩ := bind_eq_ok.mp h
  split at h
  · cases h
  · obtain ⟨_, _, h⟩ := bind_eq_ok.mp h
    obtain ⟨_, h⟩ := nvmevAssert_bind_ok.mp h
    obtain ⟨_, h⟩ := nvmevAssert_bind_ok.mp h
    obtain ⟨_, h⟩ := nvmevAssert_bind_ok.mp h
    obtain ⟨_, h⟩ := nvmevAssert_bind_ok.mp h
    cases h
    cases io <;> exact ⟨fun _ => rfl, rfl⟩

theorem setBlk_wear (s : ConvFtl) (ppa : Ppa) {blk : NandBlock}
    (h : blk.eraseCnt = (s.ssd.blk ppa.addr).eraseCnt) : SameWear s (s.setBlk ppa blk) := by
  refine ⟨fun a => ?_, rfl⟩
  change (Function.update s.ssd.blk ppa.addr blk a).eraseCnt = _
  by_cases ha : a = ppa.addr
  · rw [ha, Function.update_self, h]
  · rw [Function.update_of_ne ha]

theorem writeNewPage_wear {io : IoType} {lpn : Nat} {ppa : Ppa}
    (h : writeNewPage spp s io lpn = .ok (s', ppa)) : SameWear s s' := by
  unfold writeNewPage at h
  obtain ⟨q, _, h⟩ := bind_eq_ok.mp h
  obtain ⟨s₁, hmap, h⟩ := bind_eq_ok.mp h
  obtain ⟨s₂, hrmap, h⟩ := bind_eq_ok.mp h
  obtain ⟨s₃, hvalid, h⟩ := bind_eq_ok.mp h
  obtain ⟨s₄, hadv, h⟩ := bind_eq_ok.mp h
  cases h
  unfold setMaptblEnt at hmap
  obtain ⟨_, hmap⟩ := nvmevAssert_bind_ok.mp hmap
  cases hmap
  unfold setRmapEnt at hrmap
  obtain ⟨_, _, hrmap⟩ := bind_eq_ok.mp hrmap
  cases hrmap
  unfold markPageValid at hvalid
  obtain ⟨pg, _, hvalid⟩ := bind_eq_ok.mp hvalid
  obtain ⟨_, hvalid⟩ := nvmevAssert_bind_ok.mp hvalid
  obtain ⟨_, hvalid⟩ := nvmevAssert_bind_ok.mp hvalid
  split at hvalid
  · cases hvalid
  obtain ⟨_, hvalid⟩ := nvmevAssert_bind_ok.mp hvalid
  cases hvalid
  obtain ⟨he, hc⟩ := advanceWritePointer_wear hadv
  refine ⟨fun a => (he a).trans ?_, hc⟩
  apply (setBlk_wear s ppa ?_).erases a
  rfl

theorem dropOldPage_wear {ppa : Ppa} (h : dropOldPage spp s ppa = .ok s') : SameWear s s' := by
  unfold dropOldPage at h
  split at h
  swap
  · cases h
    exact ⟨fun _ => rfl, rfl⟩
  obtain ⟨s₁, hinv, h⟩ := bind_eq_ok.mp h
  unfold setRmapEnt at h
  obtain ⟨_, _, h⟩ := bind_eq_ok.mp h
  cases h
  unfold markPageInvalid at hinv
  obtain ⟨pg, _, hinv⟩ := bind_eq_ok.mp hinv
  obtain ⟨_, hinv⟩ := nvmevAssert_bind_ok.mp hinv
  obtain ⟨_, hinv⟩ := nvmevAssert_bind_ok.mp hinv
  obtain ⟨_, hinv⟩ := nvmevAssert_bind_ok.mp hinv
  split at hinv
  · cases hinv
  obtain ⟨lm, _, hinv⟩ := bind_eq_ok.mp hinv
  cases hinv
  refine ⟨fun a => ?_, rfl⟩
  apply (setBlk_wear s ppa ?_).erases a
  rfl

theorem writeNewPage_line {io : IoType} {lpn c l x p : Nat} {held : Option Nat} (g : Geometry spp)
    (hs : Sound spp s held) (h : writeNewPage spp s io lpn = .ok (s', pageAt c l x p)) :
    (getWp s io).curline = x := by
  obtain ⟨hh, fill, i, _⟩ := hs
  obtain ⟨_, hppa, _⟩ := writeNewPage_steps h
  rw [getNewPage_eq i g io] at hppa
  exact congrArg Ppa.blk (Except.ok.inj hppa)

section Program

variable {held : Option Nat} {io : IoType} {lpn c l x p : Nat} (g : Geometry spp) (hs : Sound spp s held)
  (heq : writeNewPage spp s io lpn = .ok (s', pageAt c l x p)) (hw : Wrote spp s s' io lpn c l x p)

include g hs heq hw

/-- Pages are taken in the order of their block. -/
theorem ShowsStore.ready (k : ShowsStore s st) :
    Ready (flashLayout spp) st ⟨pageAt c l x p, hw.range.page⟩ := by
  have hcur := writeNewPage_line g hs heq
  obtain ⟨h, fill, i, hset, _⟩ := hs
  have hr := hw.range
  have hx := (i.cur io x).mp hcur
  have hfill : fill x = allocIndex spp c l p := by
    rw [hw.index, ← hset io, hcur]
  refine ⟨(k.clean _).mpr hw.was_free, ?_⟩
  intro a hblock hplace hclean
  have hfree := (k.clean a).mp hclean
  have hpg : a.1.pg < p := hplace
  change a.1.addr = (pageAt c l x p).addr at hblock
  rw [a.2.addr_eq, pageAt_addr] at hblock
  injection hblock with hc hl _ hb
  unfold pgStatus at hfree
  rw [hc, hl, hb] at hfree
  have hle := ((i.contents x hx.1 (by rw [hx.2]; cases io <;> decide)).free_iff c hr.ch l hr.lun _
    a.2.range.pg).mp hfree
  have hlt := allocIndex_lt_of_pg_lt g.wordlines hr.ch hr.lun hpg
  omega

omit g hs in
theorem ShowsStore.program (k : ShowsStore s st) {val : Option ν} (hval : val ≠ none) : ShowsStore s'
    { st with
      cell := Function.update st.cell ⟨pageAt c l x p, hw.range.page⟩ val
      loc := Function.update st.loc lpn (some ⟨pageAt c l x p, hw.range.page⟩) } := by
  refine ⟨?_, ?_, ?_, ?_⟩
  · intro a
    dsimp only
    rw [hw.restatus.pgStatus a.2]
    by_cases ha : a.1 = pageAt c l x p
    · obtain rfl : a = ⟨pageAt c l x p, hw.range.page⟩ := Subtype.ext ha
      rw [Function.update_self, if_pos rfl]
      exact ⟨fun he => absurd he hval, fun he => nomatch he⟩
    · rw [Function.update_of_ne (fun he => ha (congrArg Subtype.val he)), if_neg ha]
      exact k.clean a
  · intro lpn' hl'
    dsimp only
    rw [hw.maptbl]
    by_cases he : lpn' = lpn
    · rw [he, Function.update_self, Function.update_self]
      rfl
    · rw [Function.update_of_ne he, Function.update_of_ne he]
      exact k.entry lpn' hl'
  · intro lpn' hl'
    dsimp only
    rw [Function.update_of_ne]
    · exact k.outside lpn' hl'
    · rintro rfl
      exact absurd hw.lpn_lt (Nat.not_lt.mpr hl')
  · intro a
    rw [(writeNewPage_wear heq).erases]
    exact k.erases a

theorem FlashStored.put (h : FlashStored spp s pairs) (v : ν) : FlashStored spp s' (pairs ++ [(lpn, v)]) := by
  obtain ⟨trace, st, hrun, rfl, k⟩ := h
  refine ⟨_, _, hrun.snoc (.put (k := lpn) (v := v) (k.ready g hs heq hw)), ?_,
    k.program heq hw (Option.some_ne_none v)⟩
  rw [puts_append]
  rfl

theorem FlashStored.move (h : FlashStored spp s pairs) {b : FlashPage spp} (hat : s.maptbl lpn = b.1)
    (hused : pgStatus s b.1 ≠ .free) : FlashStored spp s' pairs := by
  obtain ⟨trace, st, hrun, rfl, k⟩ := h
  refine ⟨_, _, hrun.snoc (.move (k.ready g hs heq hw) ((k.loc_iff hw.lpn_lt b).mpr hat)), ?_,
    k.program heq hw (fun he => hused ((k.clean b).mp he))⟩
  rw [puts_append]
  exact List.append_nil _

end Program

/-- One page of `conv_write`. -/
theorem FlashStored.write (h : FlashStored spp s pairs) (g : Geometry spp) (hs : Sound spp s none)
    (hm : MapOk spp s (ValidPage spp s)) {lpn : Nat} {ppa : Ppa}
    (hok : convWritePage spp s lpn = .ok (s', ppa)) (v : ν) : FlashStored spp s' (pairs ++ [(lpn, v)]) := by
  unfold convWritePage getMaptblEnt at hok
  by_cases hl : lpn < spp.ttPgs
  swap
  · rw [if_neg hl, error_bind] at hok
    cases hok
  rw [if_pos hl, ok_bind] at hok
  obtain ⟨s₁, hdrop, hnew⟩ := bind_eq_ok.mp hok
  obtain ⟨hs₁, hd, hdo⟩ := (dropOldPage_sat g hs (M := True) (fun _ => hm) hl).of_ok hdrop
  have hdo := hdo trivial
  have h₁ : FlashStored spp s₁ pairs := by
    refine h.congr ?_ hd.maptbl (dropOldPage_wear hdrop).erases
    intro a ha
    by_cases he : a = s.maptbl lpn
    · have hlive := (hm.forward lpn hl (he ▸ ha.mapped)).1.2
      rw [hdo.gone a ha he, he, hlive]
      exact ⟨fun hf => (nomatch hf), fun hf => (nomatch hf)⟩
    · rw [hdo.status a ha he]
  obtain ⟨_, c, l, x, p, hppa, _, hw⟩ := (writeNewPage_sat g hs₁ .user lpn).of_ok hnew
  dsimp only at hppa hw
  subst hppa
  exact h₁.put g hs₁ hnew hw v

/-- The blocks of a victim line are spent one after the other. -/
theorem FlashStored.erase (h : FlashStored spp s pairs) {c l v p : Nat}
    (hfull : ∀ q < spp.pgsPerBlk, statusAt s c l v q ≠ .free)
    (hdeserted : ∀ lpn < spp.ttPgs, ∀ a : FlashPage spp, s.maptbl lpn = a.1 → a.1.addr ≠ ⟨c, l, 0, v⟩) :
    FlashStored spp (s.setBlk (pageAt c l v p) (erasedBlock spp (blockAt s c l v))) pairs := by
  obtain ⟨trace, st, hrun, rfl, k⟩ := h
  have hput := blockPut_setBlk s c l v p (erasedBlock spp (blockAt s c l v))
  have hspent : Spent (flashLayout spp) st ⟨c, l, 0, v⟩ := by
    refine ⟨?_, fun lpn a hat => hdeserted lpn (k.loc_lt hat) a ((k.loc_iff (k.loc_lt hat) a).mp hat)⟩
    intro a hblock hclean
    have hfree := (k.clean a).mp hclean
    change a.1.addr = _ at hblock
    rw [a.2.addr_eq] at hblock
    injection hblock with hc hl _ hb
    unfold pgStatus at hfree
    rw [hc, hl, hb] at hfree
    exact hfull _ a.2.range.pg hfree
  refine ⟨_, _, hrun.snoc (.erase hspent), ?_, ?_, k.entry, k.outside, ?_⟩
  · rw [puts_append]
    exact List.append_nil _
  · intro a
    change (if a.1.addr = _ then none else st.cell a) = none ↔ _
    unfold pgStatus statusAt
    rw [a.2.addr_eq, hput]
    by_cases he : a.1.ch = c ∧ a.1.lun = l ∧ a.1.blk = v
    · rw [if_pos he, if_pos (by rw [he.1, he.2.1, he.2.2])]
      exact ⟨fun _ => (erasedBlock_clean _).free _ a.2.range.pg, fun _ => rfl⟩
    · rw [if_neg he, if_neg]
      · exact k.clean a
      · intro hblock
        injection hblock with hc hl _ hb
        exact he ⟨hc, hl, hb⟩
  · intro a
    change Function.update st.erases ⟨c, l, 0, v⟩ _ a.1.addr =
      (Function.update s.ssd.blk (pageAt c l v p).addr _ a.1.addr).eraseCnt
    rw [pageAt_addr]
    by_cases he : a.1.addr = ⟨c, l, 0, v⟩
    · rw [he, Function.update_self, Function.update_self, ← he, k.erases a, he]
      rfl
    · rw [Function.update_of_ne he, Function.update_of_ne he]
      exact k.erases a

theorem stored_collect {s₀ : ConvFtl} {v : Nat} (g : Geometry spp) (hno : NoFree spp s₀ v) :
    CollectRule clk spp True s₀ v (fun _ _ _ _ s => FlashStored spp s pairs) := by
  refine ⟨?_, ?_, fun _ h _ _ => h, ?_, fun h => h.of_blk rfl rfl, fun h _ => h, fun h => h, fun h _ => h⟩
  · intro f c l i s ncmd ssd t _ h _ hok
    exact h.of_blk ((ssdAdvanceNand_blk clk spp s.ssd ncmd).of_ok hok) rfl
  · intro f c l i s s' c' l' x' p' m h hi hr hv heq _ hw
    refine h.move g m.sound heq hw (b := ⟨_, hr.page⟩)
      ((m.map trivial).backward _ (livePage_here hi hr hv)).2 ?_
    intro hfree
    exact nomatch hv.symm.trans hfree
  · intro f c l s m h hf hc hl
    refine h.erase ?_ ?_
    · intro q hq
      rw [m.statusAt_eq (by omega) hc hl]
      exact hno c hc l hl q hq
    · intro lpn hlpn a hat hblock
      rw [a.2.addr_eq] at hblock
      injection hblock with hca hla _ hba
      obtain ⟨⟨_, hn⟩, _⟩ := (m.map trivial).forward lpn hlpn (hat ▸ a.2.mapped)
      rw [hat] at hn
      refine hn ⟨hba, ?_⟩
      rw [hca, hla]
      exact passed_last g hf a.2.range.pg

theorem doGc_stored {force : Bool} {r : Int} (h : FlashStored spp s pairs) (g : Geometry spp)
    (hs : Sound spp s none) (hm : MapOk spp s (ValidPage spp s))
    (hok : doGc clk spp cpp s force = .ok (s', r)) : FlashStored spp s' pairs := by
  rcases selectVictimLine_cases hs g force with
    ⟨hnone, _⟩ | ⟨v, s₁, hsel, hv, _, hid, hno, hfits, hrel, hwp, hfree, hs₁⟩
  · unfold doGc at hok
    rw [hnone] at hok
    cases hok
    exact h
  · rw [doGc_selected g hsel hid hv] at hok
    obtain ⟨t, hcopy, hok⟩ := bind_eq_ok.mp hok
    cases hok
    have m := Mid.begin (M := True) g (fun _ => hm) hrel hwp hfree hs₁
    have h₁ : FlashStored spp (collecting s₁ v) pairs := h.of_blk (congrArg Ssd.blk hrel.ssd) hrel.maptbl
    exact ((gcCopyBack_sat (stored_collect g hno) m h₁ g hfits hno hv).of_ok hcopy).2.of_blk rfl rfl

theorem gcWhileHigh_stored {fuel : Nat} (h : FlashStored spp s pairs) (g : Geometry spp)
    (hs : Sound spp s none) (hm : MapOk spp s (ValidPage spp s))
    (hok : gcWhileHigh clk spp cpp fuel s = .ok s') : FlashStored spp s' pairs := by
  induction fuel generalizing s with
  | zero =>
    unfold gcWhileHigh at hok
    split at hok
    · cases hok
    · cases hok
      exact h
  | succ fuel ih =>
    unfold gcWhileHigh at hok
    split at hok
    · obtain ⟨⟨t, r⟩, hgc, hrest⟩ := bind_eq_ok.mp hok
      have h₁ := doGc_stored h g hs hm hgc
      rcases (doGc_sat hs g (M := True) (fun _ => hm) true).of_ok hgc with ⟨he, _⟩ | ⟨v, _, _, hcol⟩
      · dsimp only at he
        subst he
        exact ih h₁ hs hm hrest
      · exact ih h₁ hcol.sound (hcol.map trivial) hrest
    · cases hok
      exact h

/-- The writes of a history that go to partition `i`, under its own page numbers. -/
def partPairs (parts i : Nat) (hist : List (Nat × ν)) : List (Nat × ν) :=
  (hist.filter (fun p => p.1 % parts == i)).map (fun p => (p.1 / parts, p.2))

theorem partPairs_snoc (parts i : Nat) (hist : List (Nat × ν)) (lpn : Nat) (v : ν) :
    partPairs parts i (hist ++ [(lpn, v)]) =
      partPairs parts i hist ++ if lpn % parts = i then [(lpn / parts, v)] else [] := by
  unfold partPairs
  rw [List.filter_append, List.map_append, List.filter_singleton]
  by_cases h : lpn % parts = i
  · simp [h]
  · rw [if_neg h, beq_false_of_ne h]
    rfl

theorem lastOf_partPairs (parts lpn : Nat) (hist : List (Nat × ν)) :
    lastOf (lpn / parts) none (partPairs parts (lpn % parts) hist) = lastOf lpn none hist := by
  induction hist using List.reverseRecOn with
  | nil => rfl
  | append_singleton hist p ih =>
    obtain ⟨lpn', v⟩ := p
    rw [partPairs_snoc, lastOf_append, ih, lastOf_snoc]
    by_cases he : lpn' = lpn
    · subst he
      rw [if_pos rfl, if_pos rfl]
      exact if_pos rfl
    · rw [if_neg he]
      split
      · rename_i hmod
        refine if_neg (fun hdiv => he ?_)
        change lpn' / parts = lpn / parts at hdiv
        rw [← Nat.div_add_mod lpn' parts, ← Nat.div_add_mod lpn parts, hdiv, hmod]
      · rfl

def NsStored (spp : SsdParams) (ns : ConvNs) (hist : List (Nat × ν)) : Prop :=
  ∀ i < ns.nrParts, FlashStored spp (ns.load i) (partPairs ns.nrParts i hist)

variable {ns ns' : ConvNs} {hist : List (Nat × ν)} {req : NvmevRequest} {ret ret' : NvmevResult}
  {ops : List InternalOp}

theorem NsStored.idle (h : NsStored spp ns hist) (hid : Idle ns ns') : NsStored spp ns' hist := by
  intro i hi
  rw [hid.shell.nrParts] at hi ⊢
  obtain ⟨ssd, he, hblk⟩ := hid.slept i
  rw [he]
  exact (h i hi).of_blk hblk rfl

/-- One partition has served a page, the others have at most seen the link and the clock move. -/
theorem NsStored.store (h : NsStored spp ns hist) {part : Nat} {f : ConvFtl} {hist' : List (Nat × ν)}
    (hf : FlashStored spp f (partPairs ns.nrParts part hist'))
    (hother : ∀ i, i ≠ part → partPairs ns.nrParts i hist' = partPairs ns.nrParts i hist) :
    NsStored spp (ns.store part f) hist' := by
  intro i hi
  change FlashStored spp _ (partPairs ns.nrParts i hist')
  by_cases he : i = part
  · rw [he, load_store_same]
    exact hf
  · rw [load_store_other ns f he, hother i he]
    exact (h i hi).of_blk rfl rfl

theorem writeOneLpn_stored {stime lpn : Nat} {w w' : WriteState} (h : NsStored spp w.ns hist)
    (k : NsOk spp True w.ns) (g : Geometry spp) (hok : writeOneLpn clk spp req stime lpn w = .ok w') (v : ν) :
    NsStored spp w'.ns (hist ++ [(lpn, v)]) := by
  have hpart : lpn % w.ns.nrParts < w.ns.nrParts := Nat.mod_lt _ k.parts_pos
  unfold writeOneLpn at hok
  obtain ⟨⟨f, ppa⟩, hpage, hok⟩ := bind_eq_ok.mp hok
  have hs := k.sound _ hpart
  have hm := k.map trivial _ hpart
  obtain ⟨hsf, _, hw⟩ := (convWritePage_sat g hs (M := True) (fun _ => hm) _).of_ok hpage
  have hf : FlashStored spp f (partPairs w.ns.nrParts (lpn % w.ns.nrParts) (hist ++ [(lpn, v)])) := by
    rw [partPairs_snoc, if_pos rfl]
    exact (h _ hpart).write g hs hm hpage v
  have hother : ∀ i, i ≠ lpn % w.ns.nrParts →
      partPairs w.ns.nrParts i (hist ++ [(lpn, v)]) = partPairs w.ns.nrParts i hist := by
    intro i hi
    rw [partPairs_snoc, if_neg (Ne.symm hi), List.append_nil]
  dsimp only at hok hsf hw
  split at hok
  · obtain ⟨⟨ssd, t⟩, hnand, hok⟩ := bind_eq_ok.mp hok
    cases hok
    have hdie := hw.page.range
    obtain ⟨hblk, _⟩ := (ssdAdvanceNand_paced clk spp hsf.perf _ hdie.ch hdie.lun).of_ok hnand
    exact h.store (hf.of_blk hblk rfl) hother
  · cases hok
    exact h.store hf hother

def commandPairs (spp : SsdParams) (cmd : NvmeCommand) (payload : Nat → ν) : List (Nat × ν) :=
  (List.range (pageCount spp cmd)).map (fun k => (startLpn spp cmd + k, payload (startLpn spp cmd + k)))

theorem convWrite_stored (h : NsStored spp ns hist) (k : NsOk spp True ns) (g : Geometry spp)
    (hok : convWrite clk spp ns req = .ok (some (ns', ret, ops))) (payload : Nat → ν) :
    NsStored spp ns' (hist ++ commandPairs spp req.cmd payload) := by
  unfold convWrite at hok
  dsimp only at hok
  split at hok
  · cases hok
  split at hok
  · cases hok
  split at hok
  · cases hok
  generalize hns₁ : ({ ns with writeBuffer := (bufferAllocate ns.writeBuffer
    (lbaToByte (nrLba req.cmd))).1 } : ConvNs) = ns₁ at hok
  have hload : ∀ i, ns₁.load i = ns.load i := fun i => by subst hns₁; rfl
  have hnr : ns₁.nrParts = ns.nrParts := by subst hns₁; rfl
  have k₁ : NsOk spp True ns₁ := by
    refine ⟨by subst hns₁; exact k.csi, hnr ▸ k.parts_pos, ?_, ?_⟩
    · intro i hi
      rw [hload]
      exact k.sound i (hnr ▸ hi)
    · intro hM i hi
      rw [hload]
      exact k.map hM i (hnr ▸ hi)
  have h₁ : NsStored spp ns₁ hist := by
    intro i hi
    rw [hload, hnr]
    exact h i (hnr ▸ hi)
  obtain ⟨⟨ssd, t⟩, hxfer, hok⟩ := bind_eq_ok.mp hok
  obtain ⟨w, hw, hok⟩ := bind_eq_ok.mp hok
  cases hok
  obtain ⟨hblk, hperf⟩ :=
    (ssdAdvanceWriteBuffer_paced clk spp (k₁.sound 0 k₁.parts_pos).perf _ _).of_ok hxfer
  refine (upto_induct (fun n w => NsOk spp True w.ns ∧ NsStored spp w.ns (hist ++ (List.range n).map
    (fun j => (startLpn spp req.cmd + j, payload (startLpn spp req.cmd + j))))) hw
    ⟨k₁.sleep k₁.parts_pos hblk hperf, ?_⟩ ?_).2
  · rw [List.range_zero, List.map_nil, List.append_nil]
    exact h₁.idle (idle_store hblk)
  · rintro n _ w₁ w₂ ⟨kw, hw₁⟩ hone
    refine ⟨(writeOneLpn_run kw g hone).1, ?_⟩
    rw [List.range_succ, List.map_append, ← List.append_assoc]
    exact writeOneLpn_stored hw₁ kw g hone _

def writtenBy (spp : SsdParams) (cmd : NvmeCommand) (accepted : Bool) (payload : Nat → ν) : List (Nat × ν) :=
  if accepted = true ∧ cmd.opcode = .write then commandPairs spp cmd payload else []

theorem convDispatch_stored (h : NsStored spp ns hist) (k : NsOk spp True ns) (g : Geometry spp)
    (hok : convDispatch clk spp ns req ret = .ok (some (ns', ret', ops))) (payload : Nat → ν) :
    NsStored spp ns' (hist ++ writtenBy spp req.cmd true payload) := by
  rcases (convDispatch_sat k g req ret).of_ok hok ns' ret' ops rfl with ⟨hop, _, hid, _⟩ | ⟨hop, _⟩
  · unfold writtenBy
    rw [if_neg (fun hc => hop hc.2), List.append_nil]
    exact h.idle hid
  · unfold convDispatch at hok
    rw [hop] at hok
    unfold writtenBy
    rw [if_pos ⟨rfl, hop⟩]
    exact convWrite_stored h k g hok payload

theorem convProcNvmeIoCmd_stored {fuel : Nat} {o : ProcOutcome} (h : NsStored spp ns hist)
    (k : NsOk spp True ns) (g : Geometry spp)
    (hok : convProcNvmeIoCmd clk spp cpp fuel ns req ret = .ok o) (payload : Nat → ν) :
    NsStored spp o.ns (hist ++ writtenBy spp req.cmd o.accepted payload) := by
  rcases convProcNvmeIoCmd_cases hok with ⟨_, rfl⟩ | ⟨ns₁, ret', ops, f, hd, hf, rfl⟩
  · unfold writtenBy
    rw [if_neg (fun hc => nomatch hc.1), List.append_nil]
    exact h
  · have h₁ := convDispatch_stored h k g hd payload
    have k₁ := ((convDispatch_sat k g req ret).of_ok hd ns₁ ret' ops rfl).nsOk
    exact h₁.store (gcWhileHigh_stored (h₁ 0 k₁.parts_pos) g (k₁.sound 0 k₁.parts_pos)
      (k₁.map trivial 0 k₁.parts_pos) hf) (fun _ _ => rfl)

section Run

variable {cfg : ConvConfig} {mem : Nat → Leftover} {size : Nat} {host : ConvNs → NvmevRequest → Prop}

/-- Runs as in `Reachable`, with the pages that the host has written and their data. -/
inductive DataRun (clk : Nat → Nat) (cfg : ConvConfig) (mem : Nat → Leftover) (size : Nat)
    (host : ConvNs → NvmevRequest → Prop) (spp : SsdParams) :
    ConvNs → List InternalOp → List (Nat × ν) → Prop where
  | init {ns : ConvNs} (h : convInitNamespace cfg.toSsdConfig mem size = .ok (spp, ns)) :
      DataRun clk cfg mem size host spp ns [] []
  | command {ns : ConvNs} {ops : List InternalOp} {hist : List (Nat × ν)} {fuel : Nat} {req : NvmevRequest}
      {ret : NvmevResult} {o : ProcOutcome} (payload : Nat → ν)
      (hr : DataRun clk cfg mem size host spp ns ops hist) (hreq : host ns req)
      (h : convProcNvmeIoCmd clk spp (convInitParams cfg.toSsdConfig) fuel ns req ret = .ok o) :
      DataRun clk cfg mem size host spp o.ns (ops ++ o.ops)
        (hist ++ writtenBy spp req.cmd o.accepted payload)
  | release {ns : ConvNs} {ops : List InternalOp} {hist : List (Nat × ν)} {op : InternalOp}
      (hr : DataRun clk cfg mem size host spp ns ops hist) (h : op ∈ ops) :
      DataRun clk cfg mem size host spp
        { ns with writeBuffer := bufferRelease ns.writeBuffer op.buffsToRelease } (ops.erase op) hist

theorem DataRun.reachable (hr : DataRun clk cfg mem size host spp ns ops hist) :
    Reachable clk cfg mem size host spp ns ops := by
  induction hr with
  | init h => exact .init h
  | command _ _ hreq h ih => exact ih.command hreq h
  | release _ h ih => exact ih.release h

theorem Reachable.dataRun [Nonempty ν] (hr : Reachable clk cfg mem size host spp ns ops) :
    ∃ hist : List (Nat × ν), DataRun clk cfg mem size host spp ns ops hist := by
  induction hr with
  | init h => exact ⟨[], .init h⟩
  | command _ hreq h ih =>
    obtain ⟨hist, hrun⟩ := ih
    exact ⟨_, hrun.command (fun _ => Classical.arbitrary ν) hreq h⟩
  | release _ h ih =>
    obtain ⟨hist, hrun⟩ := ih
    exact ⟨hist, hrun.release h⟩

theorem freshFtl_stored {mem : Leftover} (hm : Blank spp mem) :
    FlashStored spp (freshFtl spp mem (ssdInit spp)) ([] : List (Nat × ν)) := by
  refine ⟨[], blank, .nil, rfl, ?_, ?_, fun _ _ => rfl, fun _ => rfl⟩
  · exact fun a => ⟨fun _ => rfl, fun _ => rfl⟩
  · intro lpn hlpn
    exact initMaptbl_unmapped hm hlpn

theorem DataRun.stored (hr : DataRun clk cfg mem size host spp ns ops hist)
    (hblank : AllBlank spp mem cfg.ssdPartitions) : NsStored spp ns hist := by
  induction hr with
  | init h =>
    have hf := convInitNamespace_ok h
    intro i hi
    rw [hf.load i hi]
    exact freshFtl_stored (hblank i (hf.nrParts ▸ hi))
  | @command ns ops hist fuel req ret o payload hr hreq h ih =>
    rcases Nat.eq_zero_or_pos spp.ttPgs with hz | hpos
    · -- without pages nothing is ever written
      obtain ⟨_, hp, _, hall⟩ := hr.reachable.frozen hz
      obtain ⟨ssd, he, _⟩ := hall 0 hp
      obtain ⟨hid, _⟩ := convProcNvmeIoCmd_no_pages hz hp (by rw [he]; rfl) h
      have hnone : writtenBy spp req.cmd o.accepted payload = [] := by
        unfold writtenBy
        refine if_neg ?_
        rintro ⟨hacc, hop⟩
        rcases convProcNvmeIoCmd_cases h with ⟨_, rfl⟩ | ⟨ns₁, ret', ops', f, hd, _, _⟩
        · exact nomatch hacc
        · unfold convDispatch convWrite at hd
          rw [hop] at hd
          dsimp only at hd
          rw [if_neg (Nat.ne_of_gt hp), if_pos (hz ▸ Nat.zero_le _)] at hd
          cases hd
      rw [hnone, List.append_nil]
      exact ih.idle hid
    · have g := hr.reachable.geometry hpos
      obtain ⟨k, _, _⟩ := hr.reachable.nsOk hpos
      exact convProcNvmeIoCmd_stored ih ⟨k.csi, k.parts_pos, k.sound, fun _ => k.map hblank⟩ g h payload
  | release _ _ ih => exact ih

theorem DataRun.parts_pos (hr : DataRun clk cfg mem size host spp ns ops hist) : 0 < ns.nrParts := by
  rcases Nat.eq_zero_or_pos spp.ttPgs with hz | hpos
  · exact (hr.reachable.frozen hz).2.1
  · exact (hr.reachable.nsOk hpos).1.parts_pos

/-- The run of every partition is a run of the store that writes what the host has written. A page
is mapped if and only if it has been written, and its cell holds what was written last. -/
theorem host_finds_writes (hr : DataRun clk cfg mem size host spp ns ops hist)
    (hblank : AllBlank spp mem cfg.ssdPartitions) :
    ∃ (trace : Nat → FlashTrace spp ν) (st : Nat → FlashState spp ν),
      (∀ i < ns.nrParts, Run (flashLayout spp) blank (trace i) (st i) ∧
        puts (trace i) = partPairs ns.nrParts i hist ∧ ShowsStore (ns.load i) (st i)) ∧
      ∀ lpn, lpn / ns.nrParts < spp.ttPgs →
        (mappedPpa ((ns.load (lpn % ns.nrParts)).maptbl (lpn / ns.nrParts)) = true ↔ ∃ p ∈ hist, p.1 = lpn) ∧
        ∀ v, lastOf lpn none hist = some v ↔ ∃ a : FlashPage spp,
          (ns.load (lpn % ns.nrParts)).maptbl (lpn / ns.nrParts) = a.1 ∧
            (st (lpn % ns.nrParts)).cell a = some v := by
  have hn := hr.parts_pos
  have : Nonempty (FlashState spp ν) := ⟨blank⟩
  choose! trace st hall using hr.stored hblank
  refine ⟨trace, st, hall, ?_⟩
  intro lpn hl
  obtain ⟨hrun, hputs, k⟩ := hall (lpn % ns.nrParts) (Nat.mod_lt _ hn)
  have hget := hrun.get placed_blank (lpn / ns.nrParts)
  rw [hputs] at hget
  change _ = lastOf _ none _ at hget
  rw [lastOf_partPairs] at hget
  rw [k.entry _ hl, ← hget]
  unfold Store.get
  constructor
  · rw [mappedPpa_iff, Ne, entryOf_eq_unmapped]
    have hnone := lastOf_none_iff lpn hist
    rw [← hget] at hnone
    unfold Store.get at hnone
    constructor
    · intro hloc
      by_contra hno
      obtain ⟨a, ha⟩ := Option.ne_none_iff_exists'.mp hloc
      rw [ha, Option.bind_some] at hnone
      exact (hrun.placed placed_blank).used _ _ ha (hnone.mpr (fun p hp he => hno ⟨p, hp, he⟩))
    · rintro ⟨p, hp, he⟩ hloc
      rw [hloc] at hnone
      exact hnone.mp rfl p hp he
  · intro v
    rw [Option.bind_eq_some_iff]
    constructor
    · rintro ⟨a, ha, hv⟩
      exact ⟨a, entryOf_eq_page.mpr ha, hv⟩
    · rintro ⟨a, ha, hv⟩
      exact ⟨a, entryOf_eq_page.mp ha, hv⟩

theorem twoPartitions_overwrite : ∃ spp ns o o', convInitNamespace twoPartitions.toSsdConfig
      (fun _ => zeroLeftover) 90112 = .ok (spp, ns) ∧
    convProcNvmeIoCmd (fun _ => 0) spp (convInitParams twoPartitions.toSsdConfig) 0 ns (hostWrite 8 8)
      ⟨0, 0⟩ = .ok o ∧
    convProcNvmeIoCmd (fun _ => 0) spp (convInitParams twoPartitions.toSsdConfig) 0 o.ns (hostWrite 8 8)
      ⟨0, 0⟩ = .ok o' ∧
    ([] ++ writtenBy spp (hostWrite 8 8).cmd o.accepted (fun _ => 7)) ++
      writtenBy spp (hostWrite 8 8).cmd o'.accepted (fun _ => 8) = [(1, 7), (1, 8)] ∧
    spp.ttPgs = 11 ∧ o'.ns.nrParts = 2 :=
  ⟨_, _, _, _, rfl, rfl, rfl, rfl, rfl, rfl⟩

theorem host_finds_writes_twoPartitions : ∃ spp ns ops, ∃ st : Nat → FlashState spp Nat,
    DataRun (fun _ => 0) twoPartitions (fun _ => zeroLeftover) 90112 anyRequest spp ns ops
      [(1, 7), (1, 8)] ∧ mappedPpa ((ns.load 0).maptbl 0) = false ∧
    ∃ a : FlashPage spp, (ns.load 1).maptbl 0 = a.1 ∧ (st 1).cell a = some 8 := by
  obtain ⟨spp, ns₀, o, o', hinit, h, h', hhist, htt, hn⟩ := twoPartitions_overwrite
  have hr₀ : DataRun (fun _ => 0) twoPartitions (fun _ => zeroLeftover) 90112 anyRequest spp ns₀ []
    ([] : List (Nat × Nat)) := .init hinit
  have hr := (hr₀.command (fun _ => 7) trivial h).command (fun _ => 8) trivial h'
  rw [hhist] at hr
  have hblank : AllBlank spp (fun _ => zeroLeftover) twoPartitions.ssdPartitions := by
    intro i _ lpn hlow hlt
    omega
  obtain ⟨trace, st, _, hall⟩ := host_finds_writes hr hblank
  have hzero := (hall 0 (by rw [hn, htt]; decide)).1
  have hone := (hall 1 (by rw [hn, htt]; decide)).2 8
  rw [hn] at hzero hone
  refine ⟨spp, o'.ns, _, st, hr, ?_, hone.mp rfl⟩
  apply Bool.eq_false_iff.mpr
  intro hm
  obtain ⟨p, hp, he⟩ := hzero.mp hm
  rcases List.mem_pair.mp hp with rfl | rfl
  · cases he
  · cases he

end Run

end NVMeVirt
