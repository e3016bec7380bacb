import NVMeVirt.Lib.TwoWay
import NVMeVirt.ConvPointer

/-!
# The mapping tables of a partition

`maptbl` and `rmap` are paired over the live pages: between commands these are the valid
pages, during a collection the valid pages that have not been copied yet. `convWritePage_sat`
is one turn of the page loop of `conv_write`.
-/

namespace NVMeVirt
set_option autoImplicit false
open Outcome PQueue TwoWay

variable {spp : SsdParams} {s s' : ConvFtl}

/-- `ppa` is the address of a page as `get_new_page` and `do_gc` build it. -/
structure Page (spp : SsdParams) (ppa : Ppa) : Prop where
  range : InRange spp ppa.ch ppa.lun ppa.blk ppa.pg
  pl : ppa.pl = 0
  rsv : ppa.rsv = 0

theorem Page.eq_pageAt {a : Ppa} (h : Page spp a) : a = pageAt a.ch a.lun a.blk a.pg := by
  obtain ⟨_, hpl, hrsv⟩ := h
  cases a
  simp only at hpl hrsv
  subst hpl hrsv
  rfl

theorem InRange.page {c l x p : Nat} (h : InRange spp c l x p) : Page spp (pageAt c l x p) :=
  ⟨h, rfl, rfl⟩

theorem Page.validPpa {a : Ppa} (h : Page spp a) (g : Geometry spp) : validPpa spp a := by
  rw [h.eq_pageAt]
  exact h.range.validPpa g

theorem Page.mapped {a : Ppa} (h : Page spp a) : a ≠ unmappedPpa := by
  intro he
  have hm := mappedPpa_pageAt a.ch a.lun a.blk a.pg
  rw [← h.eq_pageAt, he] at hm
  exact absurd hm (by decide)

/-- The index of a page in `rmap`. -/
def pgidx (spp : SsdParams) (a : Ppa) : Nat := pageIndex spp a.ch a.lun a.blk a.pg

theorem pgidx_inj (g : Geometry spp) {a b : Ppa} (ha : Page spp a) (hb : Page spp b)
    (he : pgidx spp a = pgidx spp b) : a = b := by
  obtain ⟨h₁, h₂, h₃, h₄⟩ := pageIndex_inj g ha.range hb.range he
  rw [ha.eq_pageAt, hb.eq_pageAt, h₁, h₂, h₃, h₄]

def pgStatus (s : ConvFtl) (a : Ppa) : PgStatus := statusAt s a.ch a.lun a.blk a.pg

def ValidPage (spp : SsdParams) (s : ConvFtl) (a : Ppa) : Prop := Page spp a ∧ pgStatus s a = .valid

def MapOk (spp : SsdParams) (s : ConvFtl) (live : Ppa → Prop) : Prop :=
  Paired (fun lpn => lpn < spp.ttPgs) unmappedPpa s.maptbl live (fun a => s.rmap (pgidx spp a))

theorem Restatus.pgStatus {c l x p : Nat} {st : PgStatus} (hr : Restatus s s' c l x p st) {a : Ppa}
    (ha : Page spp a) :
    pgStatus s' a = if a = pageAt c l x p then st else pgStatus s a := by
  unfold NVMeVirt.pgStatus
  rw [hr a.ch a.lun a.blk a.pg]
  by_cases he : a = pageAt c l x p
  · subst he
    simp [pageAt]
  · have hne : ¬ (a.ch = c ∧ a.lun = l ∧ a.blk = x ∧ a.pg = p) := by
      rintro ⟨rfl, rfl, rfl, rfl⟩
      exact he ha.eq_pageAt
    rw [if_neg hne, if_neg he]

/-- Writing a page through either write pointer, with the old page of `lpn` no longer live. -/
theorem MapOk.wrote {live live' : Ppa → Prop} (m : MapOk spp s live) (g : Geometry spp)
    {s₁ : ConvFtl} {io : IoType} {lpn c l x p : Nat} (hw : Wrote spp s₁ s' io lpn c l x p)
    (hpage : ∀ a, live a → Page spp a) (hnot : ¬ live (pageAt c l x p))
    (hmap : s₁.maptbl = s.maptbl)
    (hrmap : ∀ a, live a → a ≠ s.maptbl lpn → s₁.rmap (pgidx spp a) = s.rmap (pgidx spp a))
    (hlive : ∀ a, live' a ↔ a = pageAt c l x p ∨ live a ∧ a ≠ s.maptbl lpn) :
    MapOk spp s' live' := by
  unfold MapOk
  rw [hw.maptbl, hmap]
  refine m.rebind hw.lpn_lt hnot ?_ ?_ hlive
  · change s'.rmap (pageIndex spp c l x p) = lpn
    rw [hw.rmap, Function.update_self]
  · intro a ha hne
    have hidx : pgidx spp a ≠ pageIndex spp c l x p := by
      intro he
      have hq : a = pageAt c l x p := pgidx_inj g (hpage a ha) hw.range.page he
      exact hnot (hq ▸ ha)
    change s'.rmap (pgidx spp a) = s.rmap (pgidx spp a)
    rw [hw.rmap, Function.update_of_ne hidx]
    exact hrmap a ha hne

theorem Sound.retable {held : Option Nat} (hs : Sound spp s held) (m : Nat → Ppa) (r : Nat → Nat) :
    Sound spp { s with maptbl := m, rmap := r } held := by
  obtain ⟨h, fill, i, hset, hheld⟩ := hs
  refine ⟨h, fill, i.retable m r, ?_, hheld⟩
  intro io
  exact hset io

theorem markPageInvalid_sound (g : Geometry spp) (hs : Sound spp s none) {c l x p : Nat}
    (hr : InRange spp c l x p) (hv : statusAt s c l x p = .valid) :
    ∃ s₁, markPageInvalid spp s (pageAt c l x p) = .ok s₁ ∧ Sound spp s₁ none ∧
      Restatus s s₁ c l x p .invalid ∧ s₁.maptbl = s.maptbl ∧ s₁.rmap = s.rmap ∧
      s₁.lm.freeLineList = s.lm.freeLineList ∧ ∀ io, getWp s₁ io = getWp s io := by
  obtain ⟨h, fill, i, hset, hheld⟩ := hs
  have hnot : h x ≠ .held := fun he => nomatch (hheld x).mp he
  obtain ⟨lm', hok, hch, i'⟩ := markPageInvalid_ok i g hset hr hv hnot
  have hwp : ∀ io, getWp (pageInvalidated s c l x p lm') io = getWp s io := fun io => by cases io <;> rfl
  refine ⟨_, hok, ⟨_, fill, i', ?_, fun z => (retire_held h x z).trans (hheld z)⟩,
    pageInvalidated_restatus s c l x p lm', rfl, rfl, hch.free, hwp⟩
  intro io
  unfold Settled
  rw [hwp]
  exact hset io

/-- What the first half of the loop body does: the old page of `lpn`, if any, is dropped. -/
structure Dropped (spp : SsdParams) (s s₁ : ConvFtl) (lpn : Nat) : Prop where
  maptbl : s₁.maptbl = s.maptbl
  free : s₁.lm.freeLineList = s.lm.freeLineList
  wp : ∀ io, getWp s₁ io = getWp s io

/-- With paired tables nothing but the page of `lpn` is touched. -/
structure DroppedOnly (spp : SsdParams) (s s₁ : ConvFtl) (lpn : Nat) : Prop where
  gone : ∀ a, Page spp a → a = s.maptbl lpn → pgStatus s₁ a = .invalid
  status : ∀ a, Page spp a → a ≠ s.maptbl lpn → pgStatus s₁ a = pgStatus s a
  rmap : ∀ a, Page spp a → a ≠ s.maptbl lpn → s₁.rmap (pgidx spp a) = s.rmap (pgidx spp a)

theorem dropOldPage_sat (g : Geometry spp) (hs : Sound spp s none) {M : Prop}
    (hm : M → MapOk spp s (ValidPage spp s)) {lpn : Nat} (hl : lpn < spp.ttPgs) :
    Sat (dropOldPage spp s (s.maptbl lpn))
      (fun s₁ => Sound spp s₁ none ∧ Dropped spp s s₁ lpn ∧ (M → DroppedOnly spp s s₁ lpn))
      (fun _ => ¬ M) := by
  unfold dropOldPage
  by_cases hmap : s.maptbl lpn = unmappedPpa
  · have hf : mappedPpa (s.maptbl lpn) = false := by simp [mappedPpa, hmap]
    rw [hf]
    refine ⟨hs, ⟨rfl, rfl, fun _ => rfl⟩, fun _ => ⟨?_, fun _ _ _ => rfl, fun _ _ _ => rfl⟩⟩
    intro a ha he
    exact absurd (he.trans hmap) ha.mapped
  · have ht : mappedPpa (s.maptbl lpn) = true := by simp [mappedPpa, hmap]
    rw [if_pos ht]
    have hlive : M → Page spp (s.maptbl lpn) ∧ pgStatus s (s.maptbl lpn) = .valid :=
      fun hM => ((hm hM).forward lpn hl hmap).1
    generalize hmp : s.maptbl lpn = a at *
    by_cases hva : validPpa spp a ∧ pgStatus s a = .valid
    · obtain ⟨hr, hpl⟩ := validPpa_inRange g hva.1
      obtain ⟨s₁, hok, hs₁, hst, hmt, hrm, hfree, hwp⟩ := markPageInvalid_sound g hs hr hva.2
      -- the reserved bits of the address play no part
      have hok' : markPageInvalid spp s a = .ok s₁ := by
        rw [← hok]
        cases a
        simp only at hpl
        subst hpl
        rfl
      have hidx : setRmapEnt spp s₁ invalidLpn a =
          .ok { s₁ with rmap := Function.update s₁.rmap (pgidx spp a) invalidLpn } := by
        rw [show setRmapEnt spp s₁ invalidLpn a =
            setRmapEnt spp s₁ invalidLpn (pageAt a.ch a.lun a.blk a.pg) by
          cases a
          simp only at hpl
          subst hpl
          rfl]
        exact setRmapEnt_ok g hr invalidLpn
      rw [hok', ok_bind, hidx]
      refine ⟨hs₁.retable _ _, ⟨hmt, hfree, hwp⟩, fun hM => ?_⟩
      have hpa := (hlive hM).1
      refine ⟨?_, ?_, ?_⟩
      · rintro b hb he
        obtain rfl := he.trans hmp
        exact (hst.pgStatus hb).trans (if_pos hb.eq_pageAt)
      · intro b hb hne
        rw [hmp] at hne
        refine (hst.pgStatus hb).trans (if_neg ?_)
        rw [← hpa.eq_pageAt]
        exact hne
      · intro b hb hne
        rw [hmp] at hne
        have hn : pgidx spp b ≠ pgidx spp a := fun he => hne (pgidx_inj g hb hpa he)
        change Function.update s₁.rmap (pgidx spp a) invalidLpn (pgidx spp b) = _
        rw [Function.update_of_ne hn, hrm]
    · have herr : ∃ e, markPageInvalid spp s a = .error e := by
        unfold markPageInvalid getPg
        by_cases hv : validPpa spp a
        · have hpl := (validPpa_inRange g hv).2
          have hst : ¬ ((s.ssd.blk a.addr).pg a.pg).status = .valid := by
            intro he
            apply hva
            refine ⟨hv, ?_⟩
            unfold pgStatus statusAt blockAt
            rw [← he]
            unfold Ppa.addr
            rw [hpl]
          rw [if_pos hv, ok_bind, nvmevAssert_false hst]
          exact ⟨_, rfl⟩
        · rw [if_neg hv]
          exact ⟨_, rfl⟩
      obtain ⟨e, he⟩ := herr
      rw [he]
      intro hM
      have hl' := hlive hM
      exact hva ⟨by rw [hl'.1.eq_pageAt]; exact hl'.1.range.validPpa g, hl'.2⟩

/-- One logical page of `conv_write`. -/
structure PageWritten (spp : SsdParams) (s s' : ConvFtl) (lpn : Nat) (ppa : Ppa) : Prop where
  page : Page spp ppa
  index : allocIndex spp ppa.ch ppa.lun ppa.pg = wpIndex spp s.wp
  maptbl : s'.maptbl = Function.update s.maptbl lpn ppa
  gcWp : s'.gcWp = s.gcWp
  budget : budget spp s .user = budget spp s' .user + 1

theorem convWritePage_sat (g : Geometry spp) (hs : Sound spp s none) {M : Prop}
    (hm : M → MapOk spp s (ValidPage spp s)) (lpn : Nat) :
    Sat (convWritePage spp s lpn)
      (fun r => Sound spp r.1 none ∧ (M → MapOk spp r.1 (ValidPage spp r.1)) ∧
        PageWritten spp s r.1 lpn r.2)
      (fun _ => ¬ Fits spp ∨ spp.ttPgs ≤ lpn ∨ budget spp s .user = 1 ∨ ¬ M) := by
  unfold convWritePage getMaptblEnt
  by_cases hl : lpn < spp.ttPgs
  swap
  · rw [if_neg hl]
    exact Or.inr (Or.inl (Nat.not_lt.mp hl))
  rw [if_pos hl, ok_bind]
  refine ((dropOldPage_sat g hs hm hl).mono (fun _ hp => hp) ?_).bind ?_
  · exact fun _ he => Or.inr (Or.inr (Or.inr he))
  rintro s₁ ⟨hs₁, hd, hdo⟩
  have hbud : ∀ io, budget spp s₁ io = budget spp s io := by
    intro io
    unfold budget
    rw [hd.free, hd.wp]
  refine (writeNewPage_sat g hs₁ .user lpn).mono ?_ ?_
  · rintro ⟨s', ppa⟩ ⟨hs', c, l, x, p, hppa, _, hw⟩
    dsimp only at hs' hppa hw ⊢
    subst hppa
    have hq := hw.range.page
    refine ⟨hs', ?_, ⟨hq, ?_, ?_, ?_, ?_⟩⟩
    · intro hM
      have hdo := hdo hM
      have hfree : pgStatus s₁ (pageAt c l x p) = .free := hw.was_free
      refine (hm hM).wrote g hw (fun a ha => ha.1) ?_ hd.maptbl ?_ ?_
      · rintro ⟨_, hv⟩
        by_cases he : pageAt c l x p = s.maptbl lpn
        · rw [hdo.gone _ hq he] at hfree
          exact nomatch hfree
        · rw [hdo.status _ hq he, hv] at hfree
          exact nomatch hfree
      · exact fun a ha hne => hdo.rmap a ha.1 hne
      · intro a
        by_cases he : a = pageAt c l x p
        · subst he
          refine ⟨fun _ => Or.inl rfl, fun _ => ⟨hq, ?_⟩⟩
          rw [hw.restatus.pgStatus hq, if_pos rfl]
        · constructor
          · rintro ⟨ha, hv⟩
            rw [hw.restatus.pgStatus ha, if_neg he] at hv
            have hne : a ≠ s.maptbl lpn := by
              intro hc
              rw [hdo.gone a ha hc] at hv
              exact nomatch hv
            rw [hdo.status a ha hne] at hv
            exact Or.inr ⟨⟨ha, hv⟩, hne⟩
          · rintro (hc | ⟨⟨ha, hv⟩, hne⟩)
            · exact absurd hc he
            · refine ⟨ha, ?_⟩
              rw [hw.restatus.pgStatus ha, if_neg he, hdo.status a ha hne, hv]
    · exact hw.index.trans (by rw [hd.wp]; rfl)
    · rw [hw.maptbl, hd.maptbl]
    · exact (hw.other_wp .gc (by decide)).trans (hd.wp .gc)
    · rw [← hbud]
      exact hw.budget
  · intro _ he
    rw [hbud] at he
    rcases he with he | he | he
    · exact Or.inl (fun hfits => he (hs₁.placeFits hfits .user))
    · exact Or.inr (Or.inl he)
    · exact Or.inr (Or.inr (Or.inl he))

end NVMeVirt
