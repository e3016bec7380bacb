import NVMeVirt.ZnsHistory

/-!
# The write buffer of a zone

A write takes its bytes from the buffer of the zone. They are given back in whole one-shot
pages, or with the last piece of the zone. A reset starts the zone over and leaves the
buffer as it is, so what was in a started one-shot page is not given back: `lost`.
-/

namespace NVMeVirt
set_option autoImplicit false
open Outcome

variable {clk : Nat → Nat} {spp : SsdParams} {ftl ftl' : ZnsFtl} {zid leak : Nat}

/-- The bytes that scheduled releases will give back to a buffer. -/
def owed (ref : BufferRef) (calls : List ZnsRelease) : Nat :=
  ((calls.filter (fun c => c.buffer = ref)).map ZnsRelease.buffsToRelease).sum

theorem owed_append (ref : BufferRef) (a b : List ZnsRelease) :
    owed ref (a ++ b) = owed ref a + owed ref b := by
  simp [owed]

theorem owed_erase (ref : BufferRef) {c : ZnsRelease} {calls : List ZnsRelease} (h : c ∈ calls) :
    owed ref calls = (if c.buffer = ref then c.buffsToRelease else 0) + owed ref (calls.erase c) := by
  have hp := (((List.perm_cons_erase h).filter (fun c => decide (c.buffer = ref))).map
    ZnsRelease.buffsToRelease).sum_eq
  rw [owed, hp, List.filter_cons]
  by_cases hb : c.buffer = ref
  · simp [owed, hb]
  · simp [owed, hb]

theorem owed_eq_zero {ref : BufferRef} {calls : List ZnsRelease} (h : ∀ c ∈ calls, c.buffer ≠ ref) :
    owed ref calls = 0 := by
  rw [owed, List.filter_eq_nil_iff.mpr (fun c hc => by simpa using h c hc)]
  rfl

theorem setBuffer_zone_ne {ref : BufferRef} (buf : Buffer) (h : ref ≠ .zone zid) :
    (ftl.setBuffer ref buf).zoneWriteBuffer zid = ftl.zoneWriteBuffer zid := by
  cases ref with
  | shared => rfl
  | zone z => exact Function.update_of_ne (fun he => h (congrArg BufferRef.zone he.symm)) _ _
  | zrwa z => rfl

def pagesPerZone (zp : ZnsParams) : Nat := zp.zoneSize / 4096

/-- Of the first `x` pages of a zone, those in one-shot pages that were programmed. -/
def programmedPages (spp : SsdParams) (zp : ZnsParams) (x : Nat) : Nat :=
  if x = pagesPerZone zp then x else x / spp.pgsPerOneshotpg * spp.pgsPerOneshotpg

/-- The bytes of the zone's data in a started one-shot page that is not programmed yet. -/
def startedBytes (spp : SsdParams) (ftl : ZnsFtl) (z : Nat) : Nat :=
  if (ftl.zoneDescs z).wp = (ftl.zoneDescs z).zoneEnd then 0
  else lbaToByte ((ftl.zoneDescs z).wp - (ftl.zoneDescs z).zslba) % (spp.pgsPerOneshotpg * spp.pgsz)

/-- A piece of a one-shot page that reaches the end of the zone is released whole. -/
theorem programmed_end {zp : ZnsParams} {off pgs : Nat} (hpgsz : spp.pgsz = 4096)
    (hpages : zp.zoneSize % 4096 = 0) (hpos : 0 < pgs)
    (hfit : off % spp.pgsPerOneshotpg + pgs ≤ spp.pgsPerOneshotpg) (hend : off + pgs = pagesPerZone zp) :
    (if 0 < zp.zoneSize % (spp.pgsPerOneshotpg * spp.pgsz) then
        zp.zoneSize % (spp.pgsPerOneshotpg * spp.pgsz) else spp.pgsPerOneshotpg * spp.pgsz) +
      4096 * programmedPages spp zp off = 4096 * programmedPages spp zp (off + pgs) := by
  have hsize : zp.zoneSize = 4096 * (off + pgs) := by
    rw [hend, pagesPerZone]
    omega
  have hoff := Nat.div_add_mod' off spp.pgsPerOneshotpg
  have hne : off ≠ pagesPerZone zp := by omega
  have hrest : (off + pgs) % spp.pgsPerOneshotpg =
      (off % spp.pgsPerOneshotpg + pgs) % spp.pgsPerOneshotpg := (Nat.mod_add_mod _ _ _).symm
  rw [programmedPages, if_neg hne, programmedPages, if_pos hend, hpgsz,
    Nat.mul_comm spp.pgsPerOneshotpg, hsize, Nat.mul_mod_mul_left, hrest]
  rcases Nat.lt_or_eq_of_le hfit with hlt | heq
  · rw [Nat.mod_eq_of_lt hlt]
    split <;> omega
  · rw [heq, Nat.mod_self]
    split <;> omega

theorem programmed_whole {zp : ZnsParams} {off pgs : Nat} (hone : 0 < spp.pgsPerOneshotpg)
    (hoff : off < pagesPerZone zp)
    (hfull : off % spp.pgsPerOneshotpg + pgs = spp.pgsPerOneshotpg) (hend : off + pgs ≠ pagesPerZone zp) :
    spp.pgsPerOneshotpg + programmedPages spp zp off = programmedPages spp zp (off + pgs) := by
  have hdiv := Nat.div_add_mod' off spp.pgsPerOneshotpg
  have hnext : off + pgs = (off / spp.pgsPerOneshotpg + 1) * spp.pgsPerOneshotpg := by
    rw [Nat.add_one_mul]
    omega
  rw [programmedPages, if_neg (Nat.ne_of_lt hoff), programmedPages, if_neg hend, hnext,
    Nat.mul_div_cancel _ hone, Nat.add_one_mul]
  omega

theorem programmed_open {zp : ZnsParams} {off pgs : Nat} (hoff : off < pagesPerZone zp)
    (hopen : off % spp.pgsPerOneshotpg + pgs < spp.pgsPerOneshotpg) (hend : off + pgs ≠ pagesPerZone zp) :
    programmedPages spp zp (off + pgs) = programmedPages spp zp off := by
  have hdiv := Nat.div_add_mod' off spp.pgsPerOneshotpg
  have hsame : (off + pgs) / spp.pgsPerOneshotpg = off / spp.pgsPerOneshotpg := by
    apply Nat.div_eq_of_lt_le
    · omega
    · rw [Nat.add_one_mul]
      omega
  rw [programmedPages, if_neg hend, programmedPages, if_neg (Nat.ne_of_lt hoff), hsame]

section Pages

variable {zp : ZnsParams}

theorem Addressable.lbas_eq_pages (g : Addressable spp zp) : lbasPerZone zp = 8 * pagesPerZone zp :=
  g.lbas_eq

theorem Addressable.zone_pages (g : Addressable spp zp) (zid : Nat) :
    zid * lbasPerZone zp = 8 * (zid * pagesPerZone zp) := by
  rw [g.lbas_eq_pages, Nat.mul_left_comm]

theorem Addressable.zoneToElpn_eq (g : Addressable spp zp) (hz : zid < zp.nrZones) :
    zoneToElpn spp zp zid = zid * pagesPerZone zp + pagesPerZone zp - 1 := by
  have hend := g.zone_end_le hz
  have hpages := g.zone_pages zid
  have hlbas := g.lbas_eq_pages
  have hpos := g.lbas_pos
  have hu : u32 (zid + 1) = zid + 1 := Nat.mod_eq_of_lt (Nat.lt_of_le_of_lt hz g.zones_lt)
  have hs : zoneToSlba spp zp (zid + 1) = zid * lbasPerZone zp + lbasPerZone zp := by
    rw [g.zoneToSlba_eq hz, Nat.add_one_mul]
  rw [zoneToElpn, zoneToElba, hu, hs, g.secsPerPg]
  unfold u64
  omega

/-- `__lpn_to_ppa` finds the zone of a page and the offset in it, as long as 32 bits can number the pages. -/
theorem Zoned.zone_and_offset (g : Zoned spp zp) (hpages : zp.nrZones * pagesPerZone zp < 2^32)
    (hz : zid < zp.nrZones) {off : Nat} (hoff : off < pagesPerZone zp) :
    lpnToZone spp zp (zid * pagesPerZone zp + off) = zid ∧
      u64 (zid * pagesPerZone zp + off + (2^64 - zoneToSlpn spp zp zid)) = off := by
  have hlt : zid * pagesPerZone zp < 2^32 := Nat.lt_of_le_of_lt (Nat.mul_le_mul_right _ hz.le) hpages
  have hle : pagesPerZone zp ≤ zp.nrZones * pagesPerZone zp := Nat.le_mul_of_pos_left _ (Nat.zero_lt_of_lt hz)
  have hslpn : zoneToSlpn spp zp zid = zid * pagesPerZone zp := by
    unfold zoneToSlpn
    rw [g.pgsz]
    exact Nat.mod_eq_of_lt hlt
  constructor
  · unfold lpnToZone
    rw [g.pgsz]
    change u32 ((zid * pagesPerZone zp + off) / pagesPerZone zp) = zid
    rw [Nat.mul_comm, Nat.mul_add_div (by omega), Nat.div_eq_of_lt hoff]
    exact Nat.mod_eq_of_lt (Nat.lt_trans hz g.zones_lt)
  · rw [hslpn]
    unfold u64
    omega

theorem Addressable.pages_lt (g : Addressable spp zp) : zp.nrZones * pagesPerZone zp < 2^32 := by
  have hpages := g.zone_pages zp.nrZones
  have hsmall := g.small
  omega

theorem Addressable.lpnToPpa_pg (g : Addressable spp zp) (hz : zid < zp.nrZones)
    (hone : 0 < spp.pgsPerOneshotpg) (hbits : spp.pgsPerOneshotpg ≤ 2^pageBits) {off : Nat}
    (hoff : off < pagesPerZone zp) :
    (lpnToPpa spp zp (zid * pagesPerZone zp + off)).pg % spp.pgsPerOneshotpg =
      off % spp.pgsPerOneshotpg := by
  obtain ⟨hzone, hu⟩ := g.zone_and_offset g.pages_lt hz hoff
  have hlt := Nat.mod_lt off hone
  simp only [lpnToPpa, hzone, hu]
  rw [Nat.mod_eq_of_lt (Nat.lt_of_lt_of_le hlt hbits), Nat.mod_eq_of_lt hlt]

/-- What the loop schedules between two pages of the zone: the one-shot pages that it completed. -/
structure Scheduled (spp : SsdParams) (zp : ZnsParams) (ref : BufferRef) (p p' : ProgramState)
    (a b : Nat) : Prop where
  own : owed ref p'.calls + 4096 * programmedPages spp zp a =
    owed ref p.calls + 4096 * programmedPages spp zp b
  others : ∀ r, r ≠ ref → owed r p'.calls = owed r p.calls

theorem Scheduled.trans {ref : BufferRef} {p p' p'' : ProgramState} {a b c : Nat}
    (h : Scheduled spp zp ref p p' a b) (h' : Scheduled spp zp ref p' p'' b c) :
    Scheduled spp zp ref p p'' a c := by
  refine ⟨?_, fun r hr => (h'.others r hr).trans (h.others r hr)⟩
  have h₁ := h.own
  have h₂ := h'.own
  omega

theorem programOneshot_scheduled {ppa : Ppa} {stime sqId bytes a b : Nat} {ref : BufferRef}
    {p p' : ProgramState} (h : programOneshot clk spp ppa stime sqId ref bytes p = .ok p')
    (hbytes : bytes + 4096 * programmedPages spp zp a = 4096 * programmedPages spp zp b) :
    Scheduled spp zp ref p p' a b := by
  unfold programOneshot at h
  obtain ⟨⟨ssd, done⟩, _, h⟩ := bind_eq_ok.mp h
  cases h
  refine ⟨?_, fun r hr => ?_⟩
  · have hone : owed ref [⟨sqId, done, ref, bytes⟩] = bytes := by simp [owed]
    simp only [owed_append, hone]
    omega
  · have hnone : owed r [⟨sqId, done, ref, bytes⟩] = 0 := by simp [owed, Ne.symm hr]
    simp only [owed_append, hnone, Nat.add_zero]

/-- The release that goes with a piece, when it completes a one-shot page or the zone. -/
theorem bufsToRelease_eq (g : Addressable spp zp) (hz : zid < zp.nrZones)
    (hone : 0 < spp.pgsPerOneshotpg) {off pgs : Nat} (hpos : 0 < pgs) (hoff : off < pagesPerZone zp)
    (hfit : off % spp.pgsPerOneshotpg + pgs ≤ spp.pgsPerOneshotpg)
    (hdone : off % spp.pgsPerOneshotpg + pgs = spp.pgsPerOneshotpg ∨ off + pgs = pagesPerZone zp) :
    bufsToRelease spp zp (zoneToElpn spp zp zid) (zid * pagesPerZone zp + off + pgs - 1) +
      4096 * programmedPages spp zp off = 4096 * programmedPages spp zp (off + pgs) := by
  have helpn := g.zoneToElpn_eq hz
  by_cases hend : off + pgs = pagesPerZone zp
  · have hlast : zid * pagesPerZone zp + off + pgs - 1 = zoneToElpn spp zp zid := by
      rw [helpn]
      omega
    have h := programmed_end g.pgsz g.pages hpos hfit hend
    simpa only [bufsToRelease, hlast, true_and] using h
  · have hlast : zid * pagesPerZone zp + off + pgs - 1 ≠ zoneToElpn spp zp zid := by
      rw [helpn]
      omega
    have h := programmed_whole hone hoff (hdone.resolve_right hend) hend
    rw [bufsToRelease]
    simp only [hlast, false_and, if_false, g.pgsz]
    omega

theorem writePages_scheduled (g : Addressable spp zp) (hz : zid < zp.nrZones)
    (hone : 0 < spp.pgsPerOneshotpg) (hbits : spp.pgsPerOneshotpg ≤ 2^pageBits)
    {ref : BufferRef} {stime sqId fuel : Nat} {a b : Nat} {p p' : ProgramState} (hab : a ≤ b)
    (hpos : 0 < b) (hb : b ≤ pagesPerZone zp)
    (h : writePages clk spp zp (zoneToElpn spp zp zid) (zid * pagesPerZone zp + b - 1) stime sqId ref fuel
      (zid * pagesPerZone zp + a) p = .ok p') : Scheduled spp zp ref p p' a b := by
  induction fuel generalizing a p with
  | zero =>
    rw [writePages] at h
    split at h
    · cases h
      obtain rfl : a = b := by omega
      exact ⟨rfl, fun _ _ => rfl⟩
    · cases h
  | succ fuel ih =>
    rw [writePages] at h
    split at h
    · cases h
      obtain rfl : a = b := by omega
      exact ⟨rfl, fun _ _ => rfl⟩
    · have ha : a < pagesPerZone zp := by omega
      simp only [g.lpnToPpa_pg hz hone hbits ha] at h
      have hlt := Nat.mod_lt a hone
      obtain ⟨pgs, hpgs⟩ : ∃ pgs, pgs = min (zid * pagesPerZone zp + b - 1 -
        (zid * pagesPerZone zp + a) + 1) (spp.pgsPerOneshotpg - a % spp.pgsPerOneshotpg) := ⟨_, rfl⟩
      rw [← hpgs] at h
      have hpgsb : a + pgs ≤ b := by omega
      have helpn := g.zoneToElpn_eq hz
      split at h
      · rename_i hdone
        obtain ⟨q, hq, h⟩ := bind_eq_ok.mp h
        rw [Nat.add_assoc _ a pgs] at h
        refine Scheduled.trans (programOneshot_scheduled hq ?_) (ih hpgsb h)
        apply bufsToRelease_eq g hz hone (by omega) ha (by omega)
        omega
      · rename_i hopen
        rw [not_or] at hopen
        rw [pure_eq_ok, ok_bind, Nat.add_assoc _ a pgs] at h
        have hsame := programmed_open ha
          (by omega : a % spp.pgsPerOneshotpg + pgs < spp.pgsPerOneshotpg) (by omega)
        exact Scheduled.trans ⟨by rw [hsame], fun _ _ => rfl⟩ (ih hpgsb h)

end Pages

/-- Runs whose writes are whole pages and succeed, or are refused for now. Beside the state: the
releases scheduled and not applied, and what each zone had in a started one-shot page when it
was reset. -/
inductive ZoneBufferRun (clk : Nat → Nat) (cfg : ZnsConfig) (old : ZnsParams) (size : Nat)
    (spp : SsdParams) : ZnsFtl → List ZnsRelease → (Nat → Nat) → Prop
  | init {ftl : ZnsFtl} (h : znsInitNamespace cfg old size = .ok (spp, ftl)) :
      ZoneBufferRun clk cfg old size spp ftl [] (fun _ => 0)
  | command {ftl : ZnsFtl} {pending : List ZnsRelease} {lost : Nat → Nat} {garbage : Nat}
      {req : ZnsRequest} {ret : NvmevResult} {out : ZnsOutcome}
      (before : ZoneBufferRun clk cfg old size spp ftl pending lost)
      (ask : ¬ AsksZrwa req.cmd) (length : req.cmd.length < 2^16)
      (aligned : IsWrite req.cmd → nrLbasFromRwCmd req.cmd % 8 = 0)
      (h : znsProcNvmeIoCmd clk spp garbage ftl req ret = .ok out)
      (succeeds : IsWrite req.cmd → out.accepted = true → out.ret.status = nvmeScSuccess) :
      ZoneBufferRun clk cfg old size spp out.ftl (pending ++ out.calls)
        (fun z => lost z + if Resets spp ftl req.cmd z then startedBytes spp ftl z else 0)
  | release {ftl : ZnsFtl} {pending : List ZnsRelease} {lost : Nat → Nat} {c : ZnsRelease}
      (before : ZoneBufferRun clk cfg old size spp ftl pending lost) (h : c ∈ pending) :
      ZoneBufferRun clk cfg old size spp
        (ftl.setBuffer c.buffer (bufferRelease (ftl.buffer c.buffer) c.buffsToRelease))
        (pending.erase c) lost

theorem ZoneBufferRun.reachable {cfg : ZnsConfig} {old : ZnsParams} {size : Nat}
    {pending : List ZnsRelease} {lost : Nat → Nat}
    (h : ZoneBufferRun clk cfg old size spp ftl pending lost) :
    ZnsReachable clk cfg old size spp (fun _ cmd => ¬ AsksZrwa cmd) ftl := by
  induction h with
  | init h => exact .init h
  | command before ask length aligned h succeeds ih => exact .command ih ask length h
  | release before h ih => exact .release ih _ _

/-- The buffer of zone `z` against its first `x` pages, which are the written ones. -/
structure ZoneBalanced (spp : SsdParams) (ftl : ZnsFtl) (pending : List ZnsRelease) (lost z x : Nat) :
    Prop where
  le : x ≤ pagesPerZone ftl.zp
  wp : (ftl.zoneDescs z).wp = z * lbasPerZone ftl.zp + 8 * x
  size_lt : (ftl.zoneWriteBuffer z).size < 2^64
  total : (ftl.zoneWriteBuffer z).remaining + 4096 * x + owed (.zone z) pending + lost =
    (ftl.zoneWriteBuffer z).size + 4096 * programmedPages spp ftl.zp x

namespace ZoneBalanced

variable {pending : List ZnsRelease} {lost x : Nat}

theorem started (b : ZoneBalanced spp ftl pending lost zid x) (p : PointersOk spp ftl)
    (hz : zid < ftl.zp.nrZones) :
    startedBytes spp ftl zid + 4096 * programmedPages spp ftl.zp x = 4096 * x := by
  have hlbas := p.addressable.lbas_eq_pages
  have hle := b.le
  rw [startedBytes, p.zoneEnd_eq hz, p.zslba zid hz, b.wp, programmedPages]
  by_cases hend : x = pagesPerZone ftl.zp
  · rw [if_pos (by omega), if_pos hend]
    omega
  · rw [if_neg (by omega), if_neg hend, p.addressable.pgsz, Nat.mul_comm spp.pgsPerOneshotpg,
      show lbaToByte (zid * lbasPerZone ftl.zp + 8 * x - zid * lbasPerZone ftl.zp) = 4096 * x by
        unfold lbaToByte lbaSize lbaBits
        omega,
      Nat.mul_mod_mul_left]
    have hdiv := Nat.div_add_mod' x spp.pgsPerOneshotpg
    omega

theorem stay (b : ZoneBalanced spp ftl pending lost zid x) (hp : ftl'.zp = ftl.zp)
    (hw : (ftl'.zoneDescs zid).wp = (ftl.zoneDescs zid).wp)
    (hb : ftl'.zoneWriteBuffer zid = ftl.zoneWriteBuffer zid) : ZoneBalanced spp ftl' pending lost zid x := by
  refine ⟨?_, ?_, ?_, ?_⟩
  · rw [hp]
    exact b.le
  · rw [hw, hp]
    exact b.wp
  · rw [hb]
    exact b.size_lt
  · rw [hb, hp]
    exact b.total

theorem reset (b : ZoneBalanced spp ftl pending lost zid x) (p : PointersOk spp ftl)
    (hz : zid < ftl.zp.nrZones) (hp : ftl'.zp = ftl.zp)
    (hw : (ftl'.zoneDescs zid).wp = zid * lbasPerZone ftl.zp)
    (hb : ftl'.zoneWriteBuffer zid = ftl.zoneWriteBuffer zid) :
    ZoneBalanced spp ftl' pending (lost + startedBytes spp ftl zid) zid 0 := by
  have hs := b.started p hz
  have ht := b.total
  have hzero : programmedPages spp ftl'.zp 0 = 0 := by
    unfold programmedPages
    split <;> simp
  refine ⟨Nat.zero_le _, by rw [hw, hp]; rfl, by rw [hb]; exact b.size_lt, ?_⟩
  rw [hb, hzero]
  omega

theorem release {c : ZnsRelease} (b : ZoneBalanced spp ftl pending lost zid x) (hc : c ∈ pending) :
    ZoneBalanced spp (ftl.setBuffer c.buffer (bufferRelease (ftl.buffer c.buffer) c.buffsToRelease))
      (pending.erase c) lost zid x := by
  have ho := owed_erase (.zone zid) hc
  have ht := b.total
  have hlt := b.size_lt
  have hle : 4096 * programmedPages spp ftl.zp x ≤ 4096 * x := by
    unfold programmedPages
    split
    · exact Nat.le_refl _
    · exact Nat.mul_le_mul_left _ (Nat.div_mul_le_self _ _)
  refine ⟨by rw [ZnsFtl.setBuffer_zp]; exact b.le,
    by rw [ZnsFtl.setBuffer_zp, ZnsFtl.setBuffer_zoneDescs]; exact b.wp, ?_, ?_⟩
  all_goals by_cases hown : c.buffer = .zone zid
  · simpa [hown, ZnsFtl.setBuffer, ZnsFtl.buffer, bufferRelease] using hlt
  · rw [setBuffer_zone_ne _ hown]
    exact hlt
  · rw [if_pos hown] at ho
    simp only [hown, ZnsFtl.setBuffer, ZnsFtl.buffer, bufferRelease, Function.update_self]
    rw [u64_eq (by omega)]
    omega
  · rw [setBuffer_zone_ne _ hown, ZnsFtl.setBuffer_zp]
    rw [if_neg hown] at ho
    omega

/-- A write of whole pages to the zone: what it takes and what it schedules. -/
theorem written {cmd : ZnsCommand} {t sqId : Nat} {ssd : Ssd} {q : ProgramState}
    (b : ZoneBalanced spp ftl pending lost (zoneOf spp ftl cmd) x) (p : PointersOk spp ftl)
    (hone : 0 < spp.pgsPerOneshotpg) (hbits : spp.pgsPerOneshotpg ≤ 2^pageBits)
    (hwb : ftl.zp.zoneWbSize ≠ 0) (hz : zoneOf spp ftl cmd < ftl.zp.nrZones)
    (hplain : (ftl.zoneDescs (zoneOf spp ftl cmd)).zrwav = false) (hlen : cmd.length < 2^16)
    (haligned : nrLbasFromRwCmd cmd % 8 = 0) (room : HasRoom spp ftl cmd)
    (w : ZoneWritten spp ftl ftl' cmd leak)
    (pages : writePages clk spp ftl.zp (zoneToElpn spp ftl.zp (zoneOf spp ftl cmd)) (lastLpn spp ftl cmd) t
      sqId (.zone (zoneOf spp ftl cmd)) (lastLpn spp ftl cmd + 1 - firstLpn spp ftl cmd)
      (firstLpn spp ftl cmd) ⟨ssd, t, []⟩ = .ok q) :
    ZoneBalanced spp ftl' (pending ++ q.calls) lost (zoneOf spp ftl cmd) (x + nrLbasFromRwCmd cmd / 8) ∧
      ∀ r, r ≠ .zone (zoneOf spp ftl cmd) → owed r q.calls = 0 := by
  have hn : 0 < nrLbasFromRwCmd cmd := Nat.succ_pos _
  have hlbas := p.addressable.lbas_eq_pages
  have hstart := p.addressable.zone_pages (zoneOf spp ftl cmd)
  have hend := p.addressable.zone_end_le hz
  have hslba : writeLba spp ftl cmd = zoneOf spp ftl cmd * lbasPerZone ftl.zp + 8 * x :=
    w.checks.wp.trans b.wp
  have hin := w.inside p hlen hz hplain
  rw [p.zoneEnd_eq hz] at hin
  -- the loop runs from page x of the zone to the end of the command
  have hfirst : firstLpn spp ftl cmd = zoneOf spp ftl cmd * pagesPerZone ftl.zp + x := by
    rw [firstLpn, lbaToLpn, p.addressable.secsPerPg]
    omega
  have hlast : lastLpn spp ftl cmd =
      zoneOf spp ftl cmd * pagesPerZone ftl.zp + (x + nrLbasFromRwCmd cmd / 8) - 1 := by
    rw [lastLpn, lbaToLpn, p.addressable.secsPerPg]
    unfold u64
    omega
  rw [hlast, hfirst] at pages
  have hs := writePages_scheduled p.addressable hz hone hbits (Nat.le_add_right _ _) (by omega) (by omega)
    pages
  have hown := hs.own
  have hbuf : ftl'.zoneWriteBuffer (zoneOf spp ftl cmd) = { ftl.zoneWriteBuffer (zoneOf spp ftl cmd) with
      remaining := (ftl.zoneWriteBuffer (zoneOf spp ftl cmd)).remaining -
        lbaToByte (nrLbasFromRwCmd cmd) } := by
    rw [w.buffers.zoneWriteBuffer, charged, writeBufferOf, if_pos hwb]
    exact Function.update_self _ _ _
  rw [HasRoom, writeBufferOf, if_pos hwb] at room
  change lbaToByte (nrLbasFromRwCmd cmd) ≤ (ftl.zoneWriteBuffer (zoneOf spp ftl cmd)).remaining at room
  have hbytes : lbaToByte (nrLbasFromRwCmd cmd) = 4096 * (nrLbasFromRwCmd cmd / 8) := by
    unfold lbaToByte lbaSize lbaBits
    omega
  have ht := b.total
  obtain ⟨s, _, hd⟩ := w.zone
  refine ⟨⟨?_, ?_, ?_, ?_⟩, fun r hr => hs.others r hr⟩
  · rw [w.zp]
    omega
  · rw [hd, w.wp p hlen hz hplain, w.zp]
    change writeLba spp ftl cmd + nrLbasFromRwCmd cmd = _
    omega
  · rw [hbuf]
    exact b.size_lt
  · rw [hbuf, w.zp, owed_append]
    simp only [show owed _ ([] : List ZnsRelease) = 0 from rfl] at hown
    simp only
    omega

theorem scheduled (b : ZoneBalanced spp ftl pending lost zid x) {calls : List ZnsRelease}
    (h : owed (.zone zid) calls = 0) : ZoneBalanced spp ftl (pending ++ calls) lost zid x := by
  refine ⟨b.le, b.wp, b.size_lt, ?_⟩
  rw [owed_append, h]
  exact b.total

end ZoneBalanced

def BuffersBalanced (spp : SsdParams) (ftl : ZnsFtl) (pending : List ZnsRelease) (lost : Nat → Nat) : Prop :=
  ∀ z < ftl.zp.nrZones, ∃ x, ZoneBalanced spp ftl pending (lost z) z x

section Command

variable {pending : List ZnsRelease} {lost : Nat → Nat} {garbage : Nat} {req : ZnsRequest}
  {ret : NvmevResult} {out : ZnsOutcome}

theorem BuffersBalanced.write (b : BuffersBalanced spp ftl pending lost) (k : ZnsOk spp ftl leak)
    (p : PointersOk spp ftl) (hplain : ∀ z, (ftl.zoneDescs z).zrwav = false)
    (hone : 0 < spp.pgsPerOneshotpg) (hbits : spp.pgsPerOneshotpg ≤ 2^pageBits)
    (hwb : ftl.zp.zoneWbSize ≠ 0) (hlen : req.cmd.length < 2^16) (hw : IsWrite req.cmd)
    (haligned : nrLbasFromRwCmd req.cmd % 8 = 0)
    (h : znsProcNvmeIoCmd clk spp garbage ftl req ret = .ok out)
    (hs : out.accepted = true → out.ret.status = nvmeScSuccess) :
    BuffersBalanced spp out.ftl (pending ++ out.calls) lost := by
  obtain ⟨hz, hcase⟩ := write_plain hplain hw h
  have href : writeBufferOf ftl (zoneOf spp ftl req.cmd) = .zone (zoneOf spp ftl req.cmd) := if_pos hwb
  cases hcase with
  | refused short =>
    rw [List.append_nil]
    exact b
  | rejected room failed => exact absurd (hs rfl) failed
  | @written t target ssd q room passed pages =>
    have w := zoneWritten_of k hlen hz (hplain _) passed q.ssd
    rw [href] at pages
    obtain ⟨x, hx⟩ := b _ hz
    obtain ⟨hown, hothers⟩ := hx.written p hone hbits hwb hz (hplain _) hlen haligned room w pages
    unfold BuffersBalanced
    rw [w.zp]
    intro z hlt
    by_cases hne : z = zoneOf spp ftl req.cmd
    · subst hne
      exact ⟨_, hown⟩
    · have hkeep : (BufferRef.zone z) ≠ .zone (zoneOf spp ftl req.cmd) := fun he => hne (by cases he; rfl)
      have hbuf : (charged spp ftl req.cmd).zoneWriteBuffer z = ftl.zoneWriteBuffer z := by
        rw [charged, href]
        exact setBuffer_zone_ne _ hkeep.symm
      obtain ⟨y, hy⟩ := b z hlt
      have hy' := hy.stay w.zp (by rw [w.others z hne]) (by rw [w.buffers.zoneWriteBuffer, hbuf])
      exact ⟨y, hy'.scheduled (hothers _ hkeep)⟩

theorem BuffersBalanced.other (b : BuffersBalanced spp ftl pending lost) (k : ZnsOk spp ftl leak)
    (p : PointersOk spp ftl) (hplain : ∀ z, (ftl.zoneDescs z).zrwav = false)
    (hask : ¬ AsksZrwa req.cmd) (hlen : req.cmd.length < 2^16) (hw : ¬ IsWrite req.cmd)
    (h : znsProcNvmeIoCmd clk spp garbage ftl req ret = .ok out) :
    BuffersBalanced spp out.ftl (pending ++ out.calls)
      (fun z => lost z + if Resets spp ftl req.cmd z then startedBytes spp ftl z else 0) := by
  have hzp := (znsProcNvmeIoCmd_kept k hlen h).zp
  obtain ⟨hcalls, hbuf, hwp⟩ := not_write_wp k p hplain hask hw h
  rw [hcalls, List.append_nil]
  unfold BuffersBalanced
  rw [hzp]
  intro z hz
  obtain ⟨x, hx⟩ := b z hz
  have hb : out.ftl.zoneWriteBuffer z = ftl.zoneWriteBuffer z := by rw [hbuf]
  dsimp only
  by_cases hr : Resets spp ftl req.cmd z
  · rw [if_pos hr]
    exact ⟨0, hx.reset p hz hzp ((hwp z hz).1 hr) hb⟩
  · rw [if_neg hr]
    exact ⟨x, hx.stay hzp ((hwp z hz).2 hr) hb⟩

end Command

theorem znsInitNamespace_balanced {cfg : ZnsConfig} {old : ZnsParams} {size : Nat}
    (h : znsInitNamespace cfg old size = .ok (spp, ftl)) (hsmall : size / lbaSize < 2^32) :
    BuffersBalanced spp ftl [] (fun _ => 0) := by
  have p := (znsInitNamespace_ok h).2.2.1 hsmall
  unfold znsInitNamespace at h
  obtain ⟨spp', _, h⟩ := bind_eq_ok.mp h
  obtain ⟨zp, hzp, h⟩ := bind_eq_ok.mp h
  cases h
  have hwb : zp.zoneWbSize < 2^32 := by
    unfold znsInitParams at hzp
    obtain ⟨_, hzp⟩ := divisor_bind_ok.mp hzp
    obtain ⟨_, hzp⟩ := divisor_bind_ok.mp hzp
    obtain ⟨_, hzp⟩ := nvmevAssert_bind_ok.mp hzp
    obtain ⟨_, hzp⟩ := nvmevAssert_bind_ok.mp hzp
    cases hzp
    exact Nat.mod_lt _ (by decide)
  intro z hz
  refine ⟨0, Nat.zero_le _, ?_, ?_, ?_⟩
  · rw [(p.pointers z hz).start rfl rfl, p.zslba z hz]
    rfl
  · exact Nat.lt_trans hwb (by decide)
  · have hzero : programmedPages spp (znsInitFtl spp zp).zp 0 = 0 := by
      unfold programmedPages
      split <;> simp
    rw [hzero]
    rfl

theorem ZoneBufferRun.balanced {cfg : ZnsConfig} {old : ZnsParams} {size : Nat}
    {pending : List ZnsRelease} {lost : Nat → Nat} (hsmall : size / lbaSize < 2^32)
    (hbits : spp.pgsPerOneshotpg ≤ 2^pageBits)
    (h : ZoneBufferRun clk cfg old size spp ftl pending lost) (hwb : ftl.zp.zoneWbSize ≠ 0) :
    0 < spp.pgsPerOneshotpg ∧ BuffersBalanced spp ftl pending lost := by
  induction h with
  | init h => exact ⟨(znsInitNamespace_ok h).1.oneshot, znsInitNamespace_balanced h hsmall⟩
  | @command ftl pending lost garbage req ret out before ask length aligned h succeeds ih =>
    have hr := before.reachable
    obtain ⟨leak, k⟩ := hr.ok
    have p := hr.pointers hsmall
    have hplain := hr.plain (fun _ _ ha => ha)
    rw [(znsProcNvmeIoCmd_kept k length h).zp] at hwb
    obtain ⟨hone, ih⟩ := ih hwb
    refine ⟨hone, ?_⟩
    by_cases hw : IsWrite req.cmd
    · simp only [if_neg (hw.not_resets _), Nat.add_zero]
      exact ih.write k p hplain hone hbits hwb length hw (aligned hw) h (succeeds hw)
    · exact ih.other k p hplain ask length hw h
  | release before hc ih =>
    rw [ZnsFtl.setBuffer_zp] at hwb
    obtain ⟨hone, ih⟩ := ih hwb
    refine ⟨hone, ?_⟩
    unfold BuffersBalanced
    rw [ZnsFtl.setBuffer_zp]
    intro z hz
    obtain ⟨x, hx⟩ := ih z hz
    exact ⟨x, hx.release hc⟩

/-- Once the releases of a zone's buffer are applied, it holds the bytes in the started one-shot
page and nothing else exactly when no reset ever met a started one-shot page. -/
theorem zone_buffer_exact {cfg : ZnsConfig} {old : ZnsParams} {size z : Nat}
    {pending : List ZnsRelease} {lost : Nat → Nat} (hsmall : size / lbaSize < 2^32)
    (hbits : spp.pgsPerOneshotpg ≤ 2^pageBits)
    (h : ZoneBufferRun clk cfg old size spp ftl pending lost) (hwb : ftl.zp.zoneWbSize ≠ 0)
    (hz : z < ftl.zp.nrZones) (hidle : ∀ c ∈ pending, c.buffer ≠ .zone z) :
    (ftl.zoneWriteBuffer z).size - (ftl.zoneWriteBuffer z).remaining = startedBytes spp ftl z ↔
      lost z = 0 := by
  obtain ⟨_, hb⟩ := h.balanced hsmall hbits hwb
  obtain ⟨x, hx⟩ := hb z hz
  have hs := hx.started (h.reachable.pointers hsmall) hz
  have ht := hx.total
  rw [owed_eq_zero hidle] at ht
  constructor
  · intro heq
    omega
  · intro heq
    omega

/-- A write of `n` LBAs at LBA 0, and the reset of zone 0. -/
def writeStart (n : Nat) : ZnsRequest := ⟨⟨.write, 0, n - 1, false, .other, false, 0, 0, 0⟩, 1, 0⟩

def resetStart : ZnsRequest := ⟨⟨.zoneMgmtSend, 0, 0, false, .reset, false, 0, 0, 0⟩, 1, 0⟩

def fillAndReset (n : Nat) : Except Fault (SsdParams × ZnsFtl × ZnsOutcome × ZnsFtl × ZnsOutcome) := do
  let (spp, ftl) ← znsInitNamespace wdZn540 zeroedParams (2^32)
  let out ← znsProcNvmeIoCmd (fun _ => 0) spp 0 ftl (writeStart n) ⟨0, 0⟩
  let applied := match out.calls with
    | [] => out.ftl
    | c :: _ => out.ftl.setBuffer c.buffer (bufferRelease (out.ftl.buffer c.buffer) c.buffsToRelease)
  let out' ← znsProcNvmeIoCmd (fun _ => 0) spp 0 applied resetStart ⟨0, 0⟩
  return (spp, ftl, out, applied, out')

theorem zone_buffer_exact_programmed : ∃ spp ftl lost,
    ZoneBufferRun (fun _ => 0) wdZn540 zeroedParams (2^32) spp ftl [] lost ∧ lost 0 = 0 ∧
    (ftl.zoneWriteBuffer 0).size - (ftl.zoneWriteBuffer 0).remaining = startedBytes spp ftl 0 := by
  have hrun : check (fun (spp, _, out, applied, out') => decide (out.ret.status = nvmeScSuccess) &&
      decide (out.calls.length = 1) && decide (spp.pgsPerOneshotpg ≤ 2^pageBits) &&
      decide (out'.ftl.zp.zoneWbSize ≠ 0) && decide (0 < out'.ftl.zp.nrZones) &&
      decide (out'.calls = []) && decide (startedBytes spp applied 0 = 0))
      (fillAndReset 192) = true := by decide +kernel
  obtain ⟨r, hr, hp⟩ := exists_of_check hrun
  unfold fillAndReset at hr
  obtain ⟨⟨spp, ftl⟩, hinit, hr⟩ := bind_eq_ok.mp hr
  obtain ⟨out, hproc, hr⟩ := bind_eq_ok.mp hr
  obtain ⟨out', hreset, hr⟩ := bind_eq_ok.mp hr
  cases hr
  simp only [Bool.and_eq_true, decide_eq_true_eq] at hp
  obtain ⟨⟨⟨⟨⟨⟨hok, hcalls⟩, hbits⟩, hwb⟩, hz⟩, hnone⟩, hstart⟩ := hp
  obtain ⟨c, hc⟩ := List.length_eq_one_iff.mp hcalls
  rw [hc] at hreset hstart
  have h₁ := (ZoneBufferRun.init hinit).command (by simp [AsksZrwa, writeStart]) (by decide)
    (fun _ => by decide) hproc (fun _ _ => hok)
  rw [hc] at h₁
  have h₂ := h₁.release (List.mem_singleton_self c)
  rw [List.nil_append, List.erase_cons_head] at h₂
  have h₃ := h₂.command (by simp [AsksZrwa, resetStart]) (by decide)
    (fun hw => absurd hw (by simp [IsWrite, resetStart])) hreset
    (fun hw => absurd hw (by simp [IsWrite, resetStart]))
  rw [hnone, List.append_nil] at h₃
  have hlost : (fun z => (fun z => 0 + if Resets spp ftl (writeStart 192).cmd z then startedBytes spp ftl z
      else 0) z + if Resets spp (out.ftl.setBuffer c.buffer
        (bufferRelease (out.ftl.buffer c.buffer) c.buffsToRelease)) resetStart.cmd z then
      startedBytes spp (out.ftl.setBuffer c.buffer
        (bufferRelease (out.ftl.buffer c.buffer) c.buffsToRelease)) z else 0) 0 = 0 := by
    have hw : ¬ Resets spp ftl (writeStart 192).cmd 0 := IsWrite.not_resets (.inl rfl) 0
    simp only [hw, hstart, if_false, ite_self]
  exact ⟨spp, out'.ftl, _, h₃, hlost,
    (zone_buffer_exact (by decide) hbits h₃ hwb hz (fun _ h => absurd h List.not_mem_nil)).mpr hlost⟩

/-- After a write of one page and a reset nothing is pending and a page is missing. -/
theorem reset_keeps_buffer : ∃ spp ftl lost,
    ZoneBufferRun (fun _ => 0) wdZn540 zeroedParams (2^32) spp ftl [] lost ∧
    ftl.zp.zoneWbSize ≠ 0 ∧ 0 < ftl.zp.nrZones ∧ startedBytes spp ftl 0 = 0 ∧
    (ftl.zoneDescs 0).state = .empty ∧
    (ftl.zoneWriteBuffer 0).size - (ftl.zoneWriteBuffer 0).remaining = 4096 := by
  have hrun : check (fun (spp, _, out, _, out') => decide (out.ret.status = nvmeScSuccess) &&
      decide (out.calls = []) && decide (out'.calls = []) && decide (out'.ftl.zp.zoneWbSize ≠ 0) &&
      decide (0 < out'.ftl.zp.nrZones) && decide (startedBytes spp out'.ftl 0 = 0) &&
      decide ((out'.ftl.zoneDescs 0).state = .empty) &&
      decide ((out'.ftl.zoneWriteBuffer 0).size - (out'.ftl.zoneWriteBuffer 0).remaining = 4096))
      (fillAndReset 8) = true := by decide +kernel
  obtain ⟨r, hr, hp⟩ := exists_of_check hrun
  unfold fillAndReset at hr
  obtain ⟨⟨spp, ftl⟩, hinit, hr⟩ := bind_eq_ok.mp hr
  obtain ⟨out, hproc, hr⟩ := bind_eq_ok.mp hr
  obtain ⟨out', hreset, hr⟩ := bind_eq_ok.mp hr
  cases hr
  simp only [Bool.and_eq_true, decide_eq_true_eq] at hp
  obtain ⟨⟨⟨⟨⟨⟨⟨hok, hcalls⟩, hnone⟩, hwb⟩, hz⟩, hstart⟩, hempty⟩, hheld⟩ := hp
  rw [hcalls] at hreset
  have h₁ := (ZoneBufferRun.init hinit).command (by simp [AsksZrwa, writeStart]) (by decide)
    (fun _ => by decide) hproc (fun _ _ => hok)
  rw [hcalls, List.append_nil] at h₁
  have h₂ := h₁.command (by simp [AsksZrwa, resetStart]) (by decide)
    (fun hw => absurd hw (by simp [IsWrite, resetStart])) hreset
    (fun hw => absurd hw (by simp [IsWrite, resetStart]))
  rw [hnone, List.append_nil] at h₂
  exact ⟨spp, out'.ftl, _, h₂, hwb, hz, hstart, hempty, hheld⟩

end NVMeVirt
