import NVMeVirt.ConvPage

/-!
# Write pointers

`advance_write_pointer` visits the pages of a line in the order of `allocIndex` and takes a
clean line when one is used up. `writeNewPage_sat` is the allocation step that host writes
and garbage collection share.
-/

namespace NVMeVirt
set_option autoImplicit false
open Outcome PQueue

variable {spp : SsdParams} {s s' : ConvFtl} {h : Nat → Home} {fill : Nat → Nat} {io : IoType}

theorem checkAddr_ok {a bound : Nat} (hlt : a < bound) : checkAddr a bound = .ok () :=
  nvmevAssert_true hlt

/-- The three ways the write pointer moves on inside its line, and the end of the line. -/
theorem advanceWritePointer_cases (g : Wordlines spp) (w : WpOk spp (getWp s io)) :
    (∃ wp', advanceWritePointer spp s io = .ok (setWp s io wp') ∧ WpOk spp wp' ∧
      wp'.curline = (getWp s io).curline ∧ wpIndex spp wp' = wpIndex spp (getWp s io) + 1) ∨
    (advanceWritePointer spp s io =
        closeLine spp s io { getWp s io with ch := 0, lun := 0, pg := 0 } ∧
      wpIndex spp (getWp s io) + 1 = spp.pgsPerLine) := by
  unfold advanceWritePointer
  -- the tests of the nested `if`s carry the record updates in their instances
  dsimp +instances only
  rw [checkAddr_ok w.pg, ok_bind]
  generalize getWp s io = wp at *
  have hdvd : spp.pgsPerBlk % spp.pgsPerOneshotpg = 0 := by rw [g.blk_oneshot, Nat.mul_mod_right]
  have hpg := w.pg
  by_cases h₁ : (wp.pg + 1) % spp.pgsPerOneshotpg = 0
  · obtain ⟨hdiv, hlast, hdiv', hmod'⟩ := step_next g.oneshot_pos h₁
    have hle : spp.pgsPerOneshotpg ≤ wp.pg + 1 := by
      have hm := Nat.mod_le wp.pg spp.pgsPerOneshotpg
      omega
    rw [if_neg (not_not.mpr h₁), checkAddr_ok w.ch, ok_bind]
    by_cases h₂ : wp.ch + 1 = spp.nchs
    · rw [if_neg (not_not.mpr h₂), checkAddr_ok w.lun, ok_bind]
      by_cases h₃ : wp.lun + 1 = spp.lunsPerCh
      · have hback : wp.pg + 1 - spp.pgsPerOneshotpg + spp.pgsPerOneshotpg = wp.pg + 1 := by omega
        rw [if_neg (not_not.mpr h₃), hback]
        by_cases h₄ : wp.pg + 1 = spp.pgsPerBlk
        · right
          rw [if_neg (not_not.mpr h₄)]
          exact ⟨rfl, allocIndex_last g h₂ h₃ h₄⟩
        · left
          rw [if_pos h₄]
          refine ⟨_, rfl, ⟨g.nchs_pos, g.luns_pos, by dsimp only; omega, w.pl, w.blk⟩, rfl, ?_⟩
          unfold wpIndex allocIndex
          dsimp only
          rw [hdiv, h₁, ← h₂, ← h₃]
          have he : ((wp.pg / spp.pgsPerOneshotpg + 1) * (wp.lun + 1) + 0) * (wp.ch + 1) + 0 =
              (wp.pg / spp.pgsPerOneshotpg * (wp.lun + 1) + wp.lun) * (wp.ch + 1) + wp.ch + 1 := by ring
          rw [he, Nat.add_one_mul]
          omega
      · left
        rw [if_pos h₃]
        refine ⟨_, rfl, ⟨g.nchs_pos, ?_, by dsimp only; omega, w.pl, w.blk⟩, rfl, ?_⟩
        · have hl := w.lun
          dsimp only
          omega
        · unfold wpIndex allocIndex
          dsimp only
          rw [hdiv', hmod', ← h₂]
          have he : (wp.pg / spp.pgsPerOneshotpg * spp.lunsPerCh + (wp.lun + 1)) * (wp.ch + 1) + 0 =
              (wp.pg / spp.pgsPerOneshotpg * spp.lunsPerCh + wp.lun) * (wp.ch + 1) + wp.ch + 1 := by ring
          rw [he, Nat.add_one_mul]
          omega
    · left
      rw [if_pos h₂]
      refine ⟨_, rfl, ⟨?_, w.lun, by dsimp only; omega, w.pl, w.blk⟩, rfl, ?_⟩
      · have hc := w.ch
        dsimp only
        omega
      · unfold wpIndex allocIndex
        dsimp only
        rw [hdiv', hmod', ← Nat.add_assoc, Nat.add_one_mul]
        omega
  · left
    obtain ⟨hdiv, hmod⟩ := step_same g.oneshot_pos h₁
    rw [if_pos h₁]
    refine ⟨_, rfl, ⟨w.ch, w.lun, ?_, w.pl, w.blk⟩, rfl, ?_⟩
    · have hne : wp.pg + 1 ≠ spp.pgsPerBlk := by
        intro he
        rw [he] at h₁
        exact h₁ hdvd
      dsimp only
      omega
    · unfold wpIndex allocIndex
      dsimp only
      rw [hdiv, hmod]
      rfl

/-- Nothing but the containers and the write pointers differ. -/
structure Relined (s s' : ConvFtl) : Prop where
  ssd : s'.ssd = s.ssd
  maptbl : s'.maptbl = s.maptbl
  rmap : s'.rmap = s.rmap
  vpc : ∀ y, (s'.lm.lines y).vpc = (s.lm.lines y).vpc
  ipc : ∀ y, (s'.lm.lines y).ipc = (s.lm.lines y).ipc

theorem Relined.blockAt (r : Relined s s') (c l x : Nat) : blockAt s' c l x = blockAt s c l x := by
  unfold NVMeVirt.blockAt
  rw [r.ssd]

theorem Relined.statusAt (r : Relined s s') (c l x p : Nat) :
    statusAt s' c l x p = statusAt s c l x p := by
  unfold NVMeVirt.statusAt
  rw [r.blockAt]

theorem Relined.contents (r : Relined s s') {x n : Nat} (k : LineContents spp s x n) :
    LineContents spp s' x n :=
  k.congr (fun c _ l _ => r.blockAt c l x) (r.vpc x) (r.ipc x)

/-- A line that is allocated to the end can always be shelved. -/
theorem shelveLine_ok {lm : LineMgmt} (a : Shelved spp lm h) {x : Nat} (hx : x < spp.blksPerPl)
    (hk : (h x).Loose) (htot : (lm.lines x).vpc + (lm.lines x).ipc = spp.pgsPerLine) :
    ∃ lm' k, shelveLine spp lm x = .ok lm' ∧ Shelved spp lm' (Function.update h x k) ∧
      (k = .full ∧ (lm.lines x).vpc = spp.pgsPerLine ∨ k = .victim ∧ 0 < (lm.lines x).ipc) ∧
      lm'.freeLineList = lm.freeLineList ∧
      (∀ y, (lm'.lines y).vpc = (lm.lines y).vpc) ∧ ∀ y, (lm'.lines y).ipc = (lm.lines y).ipc := by
  unfold shelveLine
  dsimp only
  by_cases hv : (lm.lines x).vpc = spp.pgsPerLine
  · rw [if_pos hv, nvmevAssert_true (by omega), ok_bind]
    exact ⟨_, .full, rfl, a.put_full hx hk, Or.inl ⟨rfl, hv⟩, rfl, fun _ => rfl, fun _ => rfl⟩
  · obtain ⟨pq, lines, hins, hr, a'⟩ := a.put_victim hx hk
    rw [if_neg hv, nvmevAssert_true (by omega), ok_bind, nvmevAssert_true (by omega), ok_bind, hins,
      ok_bind]
    exact ⟨_, .victim, rfl, a', Or.inr ⟨rfl, by omega⟩, rfl, hr.vpc, hr.ipc⟩

@[simp] theorem getWp_setWp_self (s : ConvFtl) (io : IoType) (wp : WritePointer) :
    getWp (setWp s io wp) io = wp := by
  cases io <;> rfl

theorem getWp_setWp_other (s : ConvFtl) {io io' : IoType} (wp : WritePointer) (hne : io' ≠ io) :
    getWp (setWp s io wp) io' = getWp s io' := by
  cases io <;> cases io' <;> first | rfl | exact absurd rfl hne

@[simp] theorem setWp_lm (s : ConvFtl) (io : IoType) (wp : WritePointer) : (setWp s io wp).lm = s.lm := by
  cases io <;> rfl

theorem setWp_relined (s : ConvFtl) (io : IoType) (wp : WritePointer) : Relined s (setWp s io wp) := by
  cases io <;> exact ⟨rfl, rfl, rfl, fun _ => rfl, fun _ => rfl⟩

/-- Lines may change their homes as long as the new homes agree with what the lines hold. -/
theorem Inv.reline (i : Inv spp s h fill) (r : Relined s s') {h' : Nat → Home}
    (wp : ∀ io, WpOk spp (getWp s' io))
    (cur : ∀ io x, (getWp s' io).curline = x ↔ x < spp.blksPerPl ∧ h' x = io.home)
    (shelved : Shelved spp s'.lm h') (held : ∀ x, h x = .held → h' x = .held)
    (free : ∀ x < spp.blksPerPl, h' x = .free → h x = .free)
    (closed : ∀ x < spp.blksPerPl, h' x = .full ∨ h' x = .victim → fill x = spp.pgsPerLine)
    (full : ∀ x < spp.blksPerPl, h' x = .full → (s.lm.lines x).vpc = spp.pgsPerLine)
    (victim : ∀ x < spp.blksPerPl, h' x = .victim → 0 < (s.lm.lines x).ipc)
    (fits : ∀ x < spp.blksPerPl, h' x = .full ∨ h' x = .victim ∨ h' x = .held → Fits spp) :
    Inv spp s' h' fill := by
  refine ⟨r.ssd ▸ i.perf, wp, cur, shelved, ?_, ?_, ?_, closed, ?_, ?_, fits⟩
  · intro c hc l hl x hx
    rw [r.blockAt]
    exact i.shape c hc l hl x hx
  · intro x hx hk
    exact r.contents (i.contents x hx (fun he => hk (held x he)))
  · intro x hx hk
    exact i.fill_free x hx (free x hx hk)
  · intro x hx hk
    rw [r.vpc]
    exact full x hx hk
  · intro x hx hk
    rw [r.ipc]
    exact victim x hx hk

theorem Inv.moveWp (i : Inv spp s h fill) {wp : WritePointer} (w : WpOk spp wp)
    (hcur : wp.curline = (getWp s io).curline) : Inv spp (setWp s io wp) h fill := by
  refine i.reline (setWp_relined s io wp) ?_ ?_ ?_ (fun _ hk => hk) (fun _ _ hk => hk) i.fill_closed
    i.full_vpc i.victim_ipc i.fits
  · intro io'
    by_cases hio : io' = io
    · subst hio
      rw [getWp_setWp_self]
      exact w
    · rw [getWp_setWp_other s wp hio]
      exact i.wp io'
  · intro io' x
    by_cases hio : io' = io
    · subst hio
      rw [getWp_setWp_self, hcur]
      exact i.cur io' x
    · rw [getWp_setWp_other s wp hio]
      exact i.cur io' x
  · rw [setWp_lm]
    exact i.shelved

/-- The homes after line `x` went to `k` and line `y` took its place. -/
def swapHomes (h : Nat → Home) (x : Nat) (k : Home) (y : Nat) : Nat → Home :=
  Function.update (Function.update h x k) y (h x)

theorem swapHomes_cases {x y : Nat} {k : Home} (z : Nat) :
    z = x ∧ swapHomes h x k y z = k ∨ z = y ∧ swapHomes h x k y z = h x ∨
      z ≠ x ∧ z ≠ y ∧ swapHomes h x k y z = h z := by
  unfold swapHomes
  by_cases hzy : z = y
  · exact Or.inr (Or.inl ⟨hzy, by rw [hzy, Function.update_self]⟩)
  · rw [Function.update_of_ne hzy]
    by_cases hzx : z = x
    · exact Or.inl ⟨hzx, by rw [hzx, Function.update_self]⟩
    · exact Or.inr (Or.inr ⟨hzx, hzy, Function.update_of_ne hzx _ _⟩)

theorem swapHomes_same {x y : Nat} {k k' : Home} (hk : k ≠ k') (hx : h x ≠ k')
    (hy : h y ≠ k') (z : Nat) : swapHomes h x k y z = k' ↔ h z = k' := by
  rcases swapHomes_cases (h := h) (x := x) (y := y) (k := k) z with ⟨rfl, he⟩ | ⟨rfl, he⟩ | ⟨_, _, he⟩
  · rw [he]
    exact ⟨fun hc => absurd hc hk, fun hc => absurd hc hx⟩
  · rw [he]
    exact ⟨fun hc => absurd hc hx, fun hc => absurd hc hy⟩
  · rw [he]

/-- The write pointer after it has taken over line `y`. -/
def freshWp (wp : WritePointer) (y : Nat) : WritePointer :=
  { wp with curline := y, blk := y, ch := 0, lun := 0, pg := 0 }

/-- The invariant after a used-up line `x` has been shelved at `k` and line `y` opened. -/
theorem Inv.swap (i : Inv spp s h fill) (g : Geometry spp) (hfits : Fits spp) {x y : Nat} {k : Home}
    (hcur : (getWp s io).curline = x) (hfill : fill x = spp.pgsPerLine) (hy : y < spp.blksPerPl)
    (hky : h y = .free) (hyx : y ≠ x) {lm' : LineMgmt} (a : Shelved spp lm' (swapHomes h x k y))
    (hk : k = .full ∧ (s.lm.lines x).vpc = spp.pgsPerLine ∨ k = .victim ∧ 0 < (s.lm.lines x).ipc)
    (hv : ∀ y, (lm'.lines y).vpc = (s.lm.lines y).vpc)
    (hi : ∀ y, (lm'.lines y).ipc = (s.lm.lines y).ipc) :
    Inv spp (setWp { s with lm := lm' } io (freshWp (getWp s io) y)) (swapHomes h x k y) fill := by
  have hkx : h x = io.home := hcur ▸ (i.cur_lt io).2
  have hio : ∀ io', getWp { s with lm := lm' } io' = getWp s io' := fun io' => by cases io' <;> rfl
  have hkk : k ≠ .held ∧ k ≠ .free ∧ ∀ io' : IoType, k ≠ io'.home := by
    rcases hk with ⟨rfl, _⟩ | ⟨rfl, _⟩ <;> exact ⟨by decide, by decide, fun io' => by cases io' <;> decide⟩
  have hxx : h x ≠ .held ∧ h x ≠ .free ∧ h x ≠ .full ∧ h x ≠ .victim := by
    rw [hkx]
    cases io <;> exact ⟨by decide, by decide, by decide, by decide⟩
  have hr : Relined s (setWp { s with lm := lm' } io (freshWp (getWp s io) y)) := by
    cases io <;> exact ⟨rfl, rfl, rfl, hv, hi⟩
  refine i.reline hr ?_ ?_ ?_ ?_ ?_ ?_ ?_ ?_ (fun _ _ _ => hfits)
  · intro io'
    by_cases hio' : io' = io
    · subst hio'
      rw [getWp_setWp_self]
      exact ⟨g.nchs_pos, g.luns_pos, g.blk_pos, (i.wp io').pl, rfl⟩
    · rw [getWp_setWp_other _ _ hio', hio]
      exact i.wp io'
  · intro io' z
    by_cases hio' : io' = io
    · subst hio'
      rw [getWp_setWp_self]
      change y = z ↔ _
      rcases swapHomes_cases (h := h) (x := x) (y := y) (k := k) z with ⟨rfl, he⟩ | ⟨rfl, he⟩ | ⟨hzx, hzy, he⟩
      · rw [he]
        exact ⟨fun hc => absurd hc hyx, fun hc => absurd hc.2 (hkk.2.2 io')⟩
      · rw [he, hkx]
        exact ⟨fun _ => ⟨hy, rfl⟩, fun _ => rfl⟩
      · rw [he, ← i.cur io' z, hcur]
        exact ⟨fun hc => absurd hc.symm hzy, fun hc => absurd hc.symm hzx⟩
    · rw [getWp_setWp_other _ _ hio', hio, i.cur io' z, swapHomes_same (hkk.2.2 io')]
      · rw [hkx]
        exact fun he => hio' (IoType.home_inj he).symm
      · rw [hky]
        cases io' <;> decide
  · rw [setWp_lm]
    exact a
  · intro z hz
    exact (swapHomes_same hkk.1 hxx.1 (by simp [hky]) z).mpr hz
  · intro z _ hz
    rcases swapHomes_cases (h := h) (x := x) (y := y) (k := k) z with ⟨rfl, he⟩ | ⟨rfl, he⟩ | ⟨_, _, he⟩
    · exact absurd (he.symm.trans hz) hkk.2.1
    · exact hky
    · exact he.symm.trans hz
  · intro z hz' hz
    rcases swapHomes_cases (h := h) (x := x) (y := y) (k := k) z with ⟨rfl, he⟩ | ⟨rfl, he⟩ | ⟨_, _, he⟩
    · exact hfill
    · rw [he] at hz
      exact absurd hz (by simp [hxx])
    · rw [he] at hz
      exact i.fill_closed z hz' hz
  · intro z hz' hz
    rcases swapHomes_cases (h := h) (x := x) (y := y) (k := k) z with ⟨rfl, he⟩ | ⟨rfl, he⟩ | ⟨_, _, he⟩
    · rcases hk with ⟨_, hfull⟩ | ⟨rfl, _⟩
      · exact hfull
      · exact nomatch he.symm.trans hz
    · exact absurd (he.symm.trans hz) hxx.2.2.1
    · exact i.full_vpc z hz' (he.symm.trans hz)
  · intro z hz' hz
    rcases swapHomes_cases (h := h) (x := x) (y := y) (k := k) z with ⟨rfl, he⟩ | ⟨rfl, he⟩ | ⟨_, _, he⟩
    · rcases hk with ⟨rfl, _⟩ | ⟨_, hipc⟩
      · exact nomatch he.symm.trans hz
      · exact hipc
    · exact absurd (he.symm.trans hz) hxx.2.2.2
    · exact i.victim_ipc z hz' (he.symm.trans hz)

/-- A used-up line is shelved and the head of the free list takes its place. -/
theorem closeLine_cases (i : Inv spp s h fill) (g : Geometry spp) (hfits : Fits spp)
    (hfill : fill (getWp s io).curline = spp.pgsPerLine) :
    (s.lm.freeLineList = [] ∧
      closeLine spp s io { getWp s io with ch := 0, lun := 0, pg := 0 } = .error .nullLine) ∨
    ∃ y rest lm' h', s.lm.freeLineList = y :: rest ∧ lm'.freeLineList = rest ∧
      closeLine spp s io { getWp s io with ch := 0, lun := 0, pg := 0 } =
        .ok (setWp { s with lm := lm' } io (freshWp (getWp s io) y)) ∧
      Inv spp (setWp { s with lm := lm' } io (freshWp (getWp s io) y)) h' fill ∧
      Relined s (setWp { s with lm := lm' } io (freshWp (getWp s io) y)) ∧
      fill y = 0 ∧ y < spp.blksPerPl ∧ h y = .free ∧ ∀ z, h' z = .held ↔ h z = .held := by
  obtain ⟨hx, hkx⟩ := i.cur_lt io
  have w := i.wp io
  generalize hcur : (getWp s io).curline = x at *
  have hcont := i.contents x hx (by rw [hkx]; cases io <;> decide)
  rw [hfill] at hcont
  obtain ⟨lm₁, k, hsh, a₁, hk, hfree₁, hv₁, hi₁⟩ :=
    shelveLine_ok i.shelved hx (hkx ▸ io.home_loose) (hcont.closed g)
  have hblk : (getWp s io).blk < spp.blksPerPl := by
    rw [w.blk, hcur]
    exact hx
  unfold closeLine
  dsimp only
  rw [hcur, hsh, ok_bind, checkAddr_ok hblk, ok_bind]
  unfold getNextFreeLine
  rw [hfree₁]
  cases hfl : s.lm.freeLineList with
  | nil => exact Or.inl ⟨rfl, rfl⟩
  | cons y rest =>
    right
    obtain ⟨hy, hky⟩ := (i.shelved.free_mem y).mp (hfl ▸ List.mem_cons_self)
    have hyx : y ≠ x := by
      rintro rfl
      rw [hky] at hkx
      cases io <;> exact nomatch hkx
    have hid : (lm₁.lines y).id = y := a₁.line_id y hy
    have a₂ := a₁.take_free (hfree₁.trans hfl) (hkx ▸ io.home_loose)
    have hr : Relined s (setWp { s with lm :=
        { lm₁ with freeLineList := rest, freeLineCnt := lm₁.freeLineCnt - 1 } } io
        (freshWp (getWp s io) y)) := by
      cases io <;> exact ⟨rfl, rfl, rfl, hv₁, hi₁⟩
    refine ⟨y, rest, { lm₁ with freeLineList := rest, freeLineCnt := lm₁.freeLineCnt - 1 },
      swapHomes h x k y, rfl, rfl, ?_, i.swap g hfits hcur hfill hy hky hyx a₂ hk hv₁ hi₁, hr,
      i.fill_free y hy hky, hy, hky, ?_⟩
    · dsimp only
      rw [hid, checkAddr_ok hy, ok_bind, nvmevAssert_true rfl, ok_bind, ok_bind, ok_bind,
        nvmevAssert_true w.pl, ok_bind]
      rfl
    · have hkk : k ≠ .held := by rcases hk with ⟨rfl, _⟩ | ⟨rfl, _⟩ <;> decide
      exact swapHomes_same hkk (by rw [hkx]; cases io <;> decide) (by simp [hky])

/-- A consistent partition, with line `held` in the hands of the collector. -/
def Sound (spp : SsdParams) (s : ConvFtl) (held : Option Nat) : Prop :=
  ∃ h fill, Inv spp s h fill ∧ (∀ io, Settled spp s fill io) ∧ ∀ x, h x = .held ↔ held = some x

/-- The pages that `io` can allocate, counting the current one. -/
def budget (spp : SsdParams) (s : ConvFtl) (io : IoType) : Nat :=
  s.lm.freeLineList.length * spp.pgsPerLine + (spp.pgsPerLine - wpIndex spp (getWp s io))

/-- The page (`c`, `l`, `x`, `p`) was allocated through `io`. -/
structure Allocated (spp : SsdParams) (s s' : ConvFtl) (io : IoType) (c l x p : Nat) : Prop where
  range : InRange spp c l x p
  index : allocIndex spp c l p = wpIndex spp (getWp s io)
  was_free : statusAt s c l x p = .free
  restatus : Restatus s s' c l x p .valid
  blocks : ∀ c' l' x', x' ≠ x → blockAt s' c' l' x' = blockAt s c' l' x'
  ipc : ∀ y, (s'.lm.lines y).ipc = (s.lm.lines y).ipc
  other_wp : ∀ io', io' ≠ io → getWp s' io' = getWp s io'
  budget : budget spp s io = budget spp s' io + 1

structure Wrote (spp : SsdParams) (s s' : ConvFtl) (io : IoType) (lpn c l x p : Nat) : Prop
    extends Allocated spp s s' io c l x p where
  lpn_lt : lpn < spp.ttPgs
  maptbl : s'.maptbl = Function.update s.maptbl lpn (pageAt c l x p)
  rmap : s'.rmap = Function.update s.rmap (pageIndex spp c l x p) lpn

theorem Inv.retable (i : Inv spp s h fill) (m : Nat → Ppa) (r : Nat → Nat) :
    Inv spp { s with maptbl := m, rmap := r } h fill :=
  ⟨i.perf, i.wp, i.cur, i.shelved, i.shape,
    fun x hx hk => (i.contents x hx hk).congr (fun _ _ _ _ => rfl) rfl rfl,
    i.fill_free, i.fill_closed, i.full_vpc, i.victim_ipc, i.fits⟩

theorem getNewPage_eq (i : Inv spp s h fill) (g : Geometry spp) (io : IoType) :
    getNewPage s io = .ok (pageAt ((getWp s io).ch % 2^chBits) ((getWp s io).lun % 2^lunBits)
      (getWp s io).curline ((getWp s io).pg % 2^pageBits)) := by
  have w := i.wp io
  have hx := (i.cur_lt io).1
  have hblk : (getWp s io).blk % 2^blkBits = (getWp s io).curline := by
    rw [w.blk]
    exact Nat.mod_eq_of_lt (Nat.lt_of_lt_of_le hx g.blks_le)
  unfold getNewPage
  dsimp only
  rw [w.pl, Nat.zero_mod, nvmevAssert_true rfl, ok_bind, hblk]
  rfl

theorem setMaptblEnt_ok {lpn : Nat} (hl : lpn < spp.ttPgs) (ppa : Ppa) :
    setMaptblEnt spp s lpn ppa = .ok { s with maptbl := Function.update s.maptbl lpn ppa } := by
  unfold setMaptblEnt
  rw [nvmevAssert_true hl, ok_bind]
  rfl

theorem setRmapEnt_ok (g : Geometry spp) {c l x p : Nat} (hr : InRange spp c l x p) (lpn : Nat) :
    setRmapEnt spp s lpn (pageAt c l x p) =
      .ok { s with rmap := Function.update s.rmap (pageIndex spp c l x p) lpn } := by
  unfold setRmapEnt
  rw [ppa2pgidx_pageAt g hr, ok_bind]
  rfl

theorem markPageValid_taken (g : Geometry spp) {c l x p : Nat} (hr : InRange spp c l x p)
    (hne : statusAt s c l x p ≠ .free) : markPageValid spp s (pageAt c l x p) = .error .assertion := by
  have hst : ((blockAt s c l x).pg p).status ≠ .free := hne
  unfold markPageValid
  rw [getPg_pageAt g hr, ok_bind, nvmevAssert_false hst, error_bind]

/-- The other write pointer stands on another line. -/
theorem Inv.cur_ne (i : Inv spp s h fill) {io' : IoType} (hne : io' ≠ io) :
    (getWp s io').curline ≠ (getWp s io).curline := by
  intro he
  have hk := (i.cur_lt io').2
  rw [he, (i.cur_lt io).2] at hk
  exact hne (IoType.home_inj hk).symm

theorem wpIndex_freshWp (wp : WritePointer) (y : Nat) : wpIndex spp (freshWp wp y) = 0 := by
  simp [wpIndex, freshWp, allocIndex]

/-- `advance_write_pointer` after the page under the pointer has been taken. -/
theorem advanceWritePointer_sat (i : Inv spp s h fill) (g : Geometry spp)
    (hfill : fill (getWp s io).curline = wpIndex spp (getWp s io) + 1)
    (hother : ∀ io', io' ≠ io → Settled spp s fill io')
    (hfits : wpIndex spp (getWp s io) + 1 = spp.pgsPerLine → Fits spp) :
    Sat (advanceWritePointer spp s io)
      (fun s' => (∃ h', Inv spp s' h' fill ∧ (∀ io, Settled spp s' fill io) ∧
          ∀ z, h' z = .held ↔ h z = .held) ∧
        Relined s s' ∧ (∀ io', io' ≠ io → getWp s' io' = getWp s io') ∧
        budget spp s io = budget spp s' io + 1)
      (fun _ => budget spp s io = 1) := by
  have hlt := (i.wp io).index_lt g.wordlines
  rcases advanceWritePointer_cases g.wordlines (i.wp io) with ⟨wp', heq, w', hcur, hidx⟩ | ⟨heq, hend⟩
  · rw [heq]
    refine ⟨⟨h, i.moveWp w' hcur, ?_, fun _ => Iff.rfl⟩, setWp_relined s io wp', ?_, ?_⟩
    · intro io'
      unfold Settled
      by_cases hio : io' = io
      · subst hio
        rw [getWp_setWp_self, hcur, hidx]
        exact hfill
      · rw [getWp_setWp_other s wp' hio]
        exact hother io' hio
    · exact fun io' hio => getWp_setWp_other s wp' hio
    · unfold budget
      rw [getWp_setWp_self, setWp_lm, hidx]
      omega
  · rw [heq]
    rcases closeLine_cases i g (hfits hend) (hfill.trans hend) with
      ⟨hnil, herr⟩ | ⟨y, rest, lm', h', hcons, hrest, hok, i', hr, hy, _, _, hheld⟩
    · rw [herr]
      change budget spp s io = 1
      unfold budget
      rw [hnil, List.length_nil, Nat.zero_mul]
      omega
    · rw [hok]
      have hwp : ∀ io', io' ≠ io →
          getWp (setWp { s with lm := lm' } io (freshWp (getWp s io) y)) io' = getWp s io' := by
        intro io' hio
        rw [getWp_setWp_other _ _ hio]
        cases io' <;> rfl
      refine ⟨⟨h', i', ?_, hheld⟩, hr, hwp, ?_⟩
      · intro io'
        unfold Settled
        by_cases hio : io' = io
        · subst hio
          rw [getWp_setWp_self, wpIndex_freshWp]
          exact hy
        · rw [hwp io' hio]
          exact hother io' hio
      · unfold budget
        rw [getWp_setWp_self, wpIndex_freshWp, setWp_lm, hcons, List.length_cons, Nat.add_one_mul]
        change _ = lm'.freeLineList.length * spp.pgsPerLine + _ + 1
        rw [hrest]
        omega

theorem allocate_sat (i : Inv spp s h fill) (g : Geometry spp) (hset : ∀ io, Settled spp s fill io)
    {c l p : Nat} (hr : InRange spp c l (getWp s io).curline p)
    (hidx : allocIndex spp c l p = wpIndex spp (getWp s io))
    (hfits : wpIndex spp (getWp s io) + 1 = spp.pgsPerLine → Fits spp) :
    Sat (markPageValid spp s (pageAt c l (getWp s io).curline p) >>= fun s => advanceWritePointer spp s io)
      (fun s' => (∃ h' fill', Inv spp s' h' fill' ∧ (∀ io, Settled spp s' fill' io) ∧
          ∀ z, h' z = .held ↔ h z = .held) ∧
        s'.maptbl = s.maptbl ∧ s'.rmap = s.rmap ∧
        Allocated spp s s' io c l (getWp s io).curline p)
      (fun _ => budget spp s io = 1) := by
  have hkx := (i.cur_lt io).2
  have hcur : ∀ io', (getWp s io').curline = (getWp s io).curline → io' = io := by
    intro io' he
    by_contra hne
    exact i.cur_ne hne he
  have hsetx := hset io
  unfold Settled at hsetx
  generalize hx₀ : (getWp s io).curline = x at *
  have hcont := i.contents x hr.blk (by rw [hkx]; cases io <;> decide)
  have hfree := (hcont.free_iff _ hr.ch _ hr.lun _ hr.pg).mpr (by omega)
  obtain ⟨hbv, hlv⟩ := hcont.room g hr hfree
  rw [markPageValid_eq g hr hfree hbv hlv, ok_bind]
  have i₁ := i.validate g hr (hkx ▸ io.home_open) (hidx.trans hsetx.symm)
  have hwp : ∀ io', getWp (pageValidated s c l x p) io' = getWp s io' := fun io' => by cases io' <;> rfl
  have hbud : budget spp (pageValidated s c l x p) io = budget spp s io := by
    unfold budget
    rw [hwp]
    rfl
  refine Sat.mono (advanceWritePointer_sat i₁ g ?_ ?_ ?_) ?_ ?_
  · rw [hwp, hx₀, Function.update_self, hsetx]
  · intro io' hio
    unfold Settled
    rw [hwp, Function.update_of_ne (fun he => hio (hcur io' he))]
    exact hset io'
  · rw [hwp]
    exact hfits
  · rintro s' ⟨⟨h', i', hset', hheld⟩, hrel, hother, hb⟩
    refine ⟨⟨h', _, i', hset', hheld⟩, hrel.maptbl, hrel.rmap, hr, hidx, hfree, ?_, ?_, ?_, ?_, ?_⟩
    · intro c' l' x' p'
      rw [hrel.statusAt]
      exact pageValidated_restatus s c l x p c' l' x' p'
    · intro c' l' x' hne
      rw [hrel.blockAt]
      exact (pageValidated_put s c l x p).other (fun hc => hne hc.2.2)
    · intro y
      rw [hrel.ipc]
      apply setLine_field Line.ipc s.lm
      rfl
    · intro io' hio
      rw [hother io' hio, hwp]
    · rw [← hb, hbud]
  · intro _ hb
    exact hbud.symm.trans hb

/-- The address of the page under a write pointer fits its bit fields. -/
structure PlaceFits (wp : WritePointer) : Prop where
  ch : wp.ch < 2^chBits
  lun : wp.lun < 2^lunBits
  pg : wp.pg < 2^pageBits

theorem Sound.placeFits {held : Option Nat} (hs : Sound spp s held) (hfits : Fits spp) (io : IoType) :
    PlaceFits (getWp s io) := by
  obtain ⟨h, fill, i, _⟩ := hs
  have w := i.wp io
  exact ⟨w.ch.trans_le hfits.nchs_le, w.lun.trans_le hfits.luns_le, w.pg.trans_le hfits.pgs_le⟩

/-- The allocation step. It stops only where the address of the page does not fit its bit fields, where
the logical page is out of range, or where the last page of the last line is taken. -/
theorem writeNewPage_sat (g : Geometry spp) {held : Option Nat} (hs : Sound spp s held) (io : IoType)
    (lpn : Nat) :
    Sat (writeNewPage spp s io lpn)
      (fun r => Sound spp r.1 held ∧ ∃ c l x p, r.2 = pageAt c l x p ∧ held ≠ some x ∧
        Wrote spp s r.1 io lpn c l x p)
      (fun _ => ¬ PlaceFits (getWp s io) ∨ spp.ttPgs ≤ lpn ∨ budget spp s io = 1) := by
  obtain ⟨h, fill, i, hset, hheld⟩ := hs
  obtain ⟨hx, hkx⟩ := i.cur_lt io
  have w := i.wp io
  have hnotheld : h (getWp s io).curline ≠ .held := by
    rw [hkx]
    cases io <;> decide
  unfold writeNewPage
  rw [getNewPage_eq i g io, ok_bind]
  by_cases hl : lpn < spp.ttPgs
  swap
  · unfold setMaptblEnt
    rw [nvmevAssert_false hl, error_bind, error_bind]
    exact Or.inr (Or.inl (Nat.not_lt.mp hl))
  have hc := Nat.mod_le (getWp s io).ch (2^chBits)
  have hlu := Nat.mod_le (getWp s io).lun (2^lunBits)
  have hp := Nat.mod_le (getWp s io).pg (2^pageBits)
  have hr : InRange spp ((getWp s io).ch % 2^chBits) ((getWp s io).lun % 2^lunBits)
      (getWp s io).curline ((getWp s io).pg % 2^pageBits) :=
    ⟨Nat.lt_of_le_of_lt hc w.ch, Nat.lt_of_le_of_lt hlu w.lun, hx, Nat.lt_of_le_of_lt hp w.pg⟩
  rw [setMaptblEnt_ok hl, ok_bind, setRmapEnt_ok g hr, ok_bind]
  by_cases hex : (getWp s io).ch % 2^chBits = (getWp s io).ch ∧
      (getWp s io).lun % 2^lunBits = (getWp s io).lun ∧
      (getWp s io).pg % 2^pageBits = (getWp s io).pg
  · have hidx : allocIndex spp ((getWp s io).ch % 2^chBits) ((getWp s io).lun % 2^lunBits)
        ((getWp s io).pg % 2^pageBits) = wpIndex spp (getWp s io) := by
      rw [hex.1, hex.2.1, hex.2.2]
      rfl
    have hfits : wpIndex spp (getWp s io) + 1 = spp.pgsPerLine → Fits spp := by
      intro hend
      obtain ⟨h₁, h₂, h₃⟩ := allocIndex_eq_last g w.ch w.lun hend
      have hm₁ := Nat.mod_lt (getWp s io).ch (Nat.two_pow_pos chBits)
      have hm₂ := Nat.mod_lt (getWp s io).lun (Nat.two_pow_pos lunBits)
      have hm₃ := Nat.mod_lt (getWp s io).pg (Nat.two_pow_pos pageBits)
      exact ⟨by omega, by omega, by omega⟩
    generalize (getWp s io).ch % 2^chBits = c at *
    generalize (getWp s io).lun % 2^lunBits = l at *
    generalize (getWp s io).pg % 2^pageBits = p at *
    let s₁ : ConvFtl := { s with
      maptbl := Function.update s.maptbl lpn (pageAt c l (getWp s io).curline p)
      rmap := Function.update s.rmap (pageIndex spp c l (getWp s io).curline p) lpn }
    have hwp : ∀ io', getWp s₁ io' = getWp s io' := fun io' => by cases io' <;> rfl
    have i₁ : Inv spp s₁ h fill := i.retable _ _
    have hset₁ : ∀ io, Settled spp s₁ fill io := by
      intro io'
      unfold Settled
      rw [hwp]
      exact hset io'
    have hr₁ : InRange spp c l (getWp s₁ io).curline p := by
      rw [hwp]
      exact hr
    have hall := allocate_sat i₁ g hset₁ hr₁ (by rw [hwp]; exact hidx) (by rw [hwp]; exact hfits)
    rw [hwp] at hall
    change Sat (markPageValid spp s₁ (pageAt c l (getWp s io).curline p) >>= fun s' =>
      advanceWritePointer spp s' io >>= fun s' => pure (s', pageAt c l (getWp s io).curline p)) _ _
    rw [← bind_assoc]
    have hb : budget spp s₁ io = budget spp s io := by
      unfold budget
      rw [hwp]
    refine (hall.mono ?_ ?_).bind (R := fun s' => Sound spp s' held ∧ Wrote spp s s' io lpn c l
      (getWp s io).curline p) ?_
    · rintro s' ⟨⟨h', fill', i', hset', hheld'⟩, hmt, hrm, ha⟩
      refine ⟨⟨h', fill', i', hset', fun z => (hheld' z).trans (hheld z)⟩, ⟨?_, hl, hmt, hrm⟩⟩
      exact ⟨hr, hidx, ha.was_free, ha.restatus, ha.blocks, ha.ipc,
        fun io' hio => (ha.other_wp io' hio).trans (hwp io'), hb ▸ ha.budget⟩
    · intro _ he
      exact Or.inr (Or.inr (hb ▸ he))
    · rintro s' ⟨hsound, hwrote⟩
      exact ⟨hsound, c, l, _, p, rfl, fun he => hnotheld ((hheld _).mpr he), hwrote⟩
  · -- a truncated address is one that the pointer has already passed
    have hlt := allocIndex_lt_of_le g w.ch w.lun hc hlu hp hex
    have hcont := i.contents _ hx hnotheld
    rw [hset io] at hcont
    rw [markPageValid_taken g hr, error_bind]
    · left
      intro ha
      exact hex ⟨Nat.mod_eq_of_lt ha.ch, Nat.mod_eq_of_lt ha.lun, Nat.mod_eq_of_lt ha.pg⟩
    · intro hf
      exact absurd ((hcont.free_iff _ hr.ch _ hr.lun _ hr.pg).mp hf) (Nat.not_le.mpr hlt)

end NVMeVirt
