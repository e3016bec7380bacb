import NVMeVirt.ZnsBuffer
import NVMeVirt.ZnsTraps
import NVMeVirt.ZoneAddresses

/-!
# Filling a zone piece by piece

The page loop of `__zns_write` programs a one-shot page in the command that reaches its last page. The
write unit is 512 bytes, so that two commands may share this page, and then both program it.
-/

namespace NVMeVirt
set_option autoImplicit false
open Outcome

variable {clk : Nat → Nat} {spp : SsdParams} {ftl ftl' : ZnsFtl} {zid leak : Nat}

section Logged

variable (clk : Nat → Nat) (spp : SsdParams)

/-- `writePages`, and the first page of each piece that is programmed. -/
def writePagesLogged (zp : ZnsParams) (zoneElpn elpn stime sqId : Nat) (ref : BufferRef) :
    Nat → Nat → ProgramState → Except Fault (ProgramState × List Nat)
  | 0, lpn, p => if elpn < lpn then .ok (p, []) else .error .outOfFuel
  | fuel + 1, lpn, p =>
    if elpn < lpn then .ok (p, [])
    else
      let ppa := lpnToPpa spp zp lpn
      let pgOff := ppa.pg % spp.pgsPerOneshotpg
      let pgs := min (elpn - lpn + 1) (spp.pgsPerOneshotpg - pgOff)
      if pgOff + pgs = spp.pgsPerOneshotpg ∨ lpn + pgs - 1 = zoneElpn then do
        let p ← programOneshot clk spp ppa stime sqId ref (bufsToRelease spp zp zoneElpn (lpn + pgs - 1)) p
        let (p, programs) ← writePagesLogged zp zoneElpn elpn stime sqId ref fuel (lpn + pgs) p
        return (p, lpn :: programs)
      else writePagesLogged zp zoneElpn elpn stime sqId ref fuel (lpn + pgs) p

/-- `znsWritePlain`, the bytes that it takes from the buffer and the pieces that it programs. -/
def znsWritePlainLogged (ftl : ZnsFtl) (req : ZnsRequest) (ret : NvmevResult) :
    Except Fault (ZnsOutcome × Nat × List Nat) := do
  let nrLba := nrLbasFromRwCmd req.cmd
  let zid := lbaToZone spp ftl.zp req.cmd.slba
  if ftl.zp.nrZones ≤ zid then .error .badAddress
  let slba := if req.cmd.opcode = .zoneAppend then (ftl.zoneDescs zid).wp else req.cmd.slba
  let cmd := { req.cmd with slba := slba }
  let slpn := lbaToLpn spp slba
  let elpn := lbaToLpn spp (u64 (slba + nrLba + (2^64 - 1)))
  let zoneElpn := zoneToElpn spp ftl.zp zid
  let ref := writeBufferOf ftl zid
  let (buf, allocated) := bufferAllocate (ftl.buffer ref) (lbaToByte nrLba)
  if allocated < lbaToByte nrLba then return (⟨false, ftl, cmd, ret, []⟩, allocated, [])
  let ftl := ftl.setBuffer ref buf
  let (ftl, status) := admitWrite spp ftl zid slba nrLba
  if status ≠ nvmeScSuccess then
    return (⟨true, ftl, cmd, ⟨status, req.nsecsStart⟩, []⟩, allocated, [])
  let ftl := increaseWritePtr spp ftl zid nrLba
  let (ssd, nsecsXferCompleted) ← ssdAdvanceWriteBuffer clk spp ftl.ssd req.nsecsStart (lbaToByte nrLba)
  let (p, programs) ← writePagesLogged clk spp ftl.zp zoneElpn elpn nsecsXferCompleted req.sqId ref
    (elpn + 1 - slpn) slpn ⟨ssd, nsecsXferCompleted, []⟩
  return (⟨true, { ftl with ssd := p.ssd }, cmd,
    ⟨nvmeScSuccess, targetOf spp cmd p.nsecsLatest nsecsXferCompleted⟩, p.calls⟩, allocated, programs)

end Logged

/-- The successful writes to a zone: their LBAs, the bytes that each took from the buffer, the first page
of each piece that was programmed, and the releases that were scheduled. -/
structure FillLog where
  cuts : List Nat
  allocated : List Nat
  programs : List Nat
  calls : List ZnsRelease

def FillLog.add (l : FillLog) (n bytes : Nat) (programs : List Nat) (calls : List ZnsRelease) : FillLog :=
  ⟨l.cuts ++ [n], l.allocated ++ [bytes], l.programs ++ programs, l.calls ++ calls⟩

/-- Runs from a state where the write pointer of zone `zid` is at its start, as it is in an empty zone:
successful writes and appends to the zone, other commands that leave its write pointer alone, and the
releases that are due. -/
inductive ZoneFilling (clk : Nat → Nat) (cfg : ZnsConfig) (old : ZnsParams) (size : Nat) (spp : SsdParams)
    (zid : Nat) : ZnsFtl → List ZnsRelease → FillLog → Prop
  | start {ftl : ZnsFtl} {pending : List ZnsRelease}
      (h : ZnsReachable clk cfg old size spp (fun _ _ => True) ftl) (zone : zid < ftl.zp.nrZones)
      (empty : (ftl.zoneDescs zid).wp = (ftl.zoneDescs zid).zslba) :
      ZoneFilling clk cfg old size spp zid ftl pending ⟨[], [], [], []⟩
  | write {ftl : ZnsFtl} {pending : List ZnsRelease} {l : FillLog} {garbage bytes : Nat}
      {programs : List Nat} {req : ZnsRequest} {ret : NvmevResult} {out : ZnsOutcome}
      (before : ZoneFilling clk cfg old size spp zid ftl pending l) (length : req.cmd.length < 2^16)
      (hits : IsWrite req.cmd) (zone : zoneOf spp ftl req.cmd = zid)
      (plain : (ftl.zoneDescs zid).zrwav = false)
      (h : znsProcNvmeIoCmd clk spp garbage ftl req ret = .ok out)
      (logged : znsWritePlainLogged clk spp ftl req ret = .ok (out, bytes, programs))
      (accepted : out.accepted = true) (succeeds : out.ret.status = nvmeScSuccess) :
      ZoneFilling clk cfg old size spp zid out.ftl (pending ++ out.calls)
        (l.add (nrLbasFromRwCmd req.cmd) bytes programs out.calls)
  | other {ftl : ZnsFtl} {pending : List ZnsRelease} {l : FillLog} {garbage : Nat} {req : ZnsRequest}
      {ret : NvmevResult} {out : ZnsOutcome} (before : ZoneFilling clk cfg old size spp zid ftl pending l)
      (length : req.cmd.length < 2^16) (h : znsProcNvmeIoCmd clk spp garbage ftl req ret = .ok out)
      (keeps : (out.ftl.zoneDescs zid).wp = (ftl.zoneDescs zid).wp) :
      ZoneFilling clk cfg old size spp zid out.ftl (pending ++ out.calls) l
  | release {ftl : ZnsFtl} {pending : List ZnsRelease} {l : FillLog} {c : ZnsRelease}
      (before : ZoneFilling clk cfg old size spp zid ftl pending l) (h : c ∈ pending) :
      ZoneFilling clk cfg old size spp zid
        (ftl.setBuffer c.buffer (bufferRelease (ftl.buffer c.buffer) c.buffsToRelease)) (pending.erase c) l

/-- The one-shot page of the zone that a page is in. -/
def shotOf (spp : SsdParams) (zp : ZnsParams) (zid lpn : Nat) : Nat :=
  (lpn - zid * pagesPerZone zp) / spp.pgsPerOneshotpg

/-- Each one-shot page of the zone is programmed once, and the releases add up to the zone as the
allocations do. -/
structure FilledExactly (spp : SsdParams) (zp : ZnsParams) (zid : Nat) (l : FillLog) : Prop where
  programs : (l.programs.map (shotOf spp zp zid)).Perm
    (List.range (divRoundUp (pagesPerZone zp) spp.pgsPerOneshotpg))
  released : (l.calls.map ZnsRelease.buffsToRelease).sum = l.allocated.sum
  allocated : l.allocated.sum = zp.zoneSize

/-- The LBA is inside the last page of a one-shot page, and not at its edge. -/
def SplitsLastPage (spp : SsdParams) (zp : ZnsParams) (lba : Nat) : Prop :=
  lba % spp.secsPerPg ≠ 0 ∧ (lba / spp.secsPerPg % spp.pgsPerOneshotpg = spp.pgsPerOneshotpg - 1 ∨
    lba / spp.secsPerPg + 1 = pagesPerZone zp)

section Copies

variable {zp : ZnsParams} {zoneElpn elpn stime sqId : Nat} {ref : BufferRef}

theorem writePagesLogged_fst (fuel lpn : Nat) (p : ProgramState) :
    (writePagesLogged clk spp zp zoneElpn elpn stime sqId ref fuel lpn p).map Prod.fst =
      writePages clk spp zp zoneElpn elpn stime sqId ref fuel lpn p := by
  induction fuel generalizing lpn p with
  | zero =>
    rw [writePagesLogged, writePages]
    split <;> rfl
  | succ fuel ih =>
    rw [writePagesLogged, writePages]
    split
    · rfl
    · dsimp only
      split
      · cases programOneshot clk spp (lpnToPpa spp zp lpn) stime sqId ref _ p with
        | error e => rfl
        | ok q =>
          rw [ok_bind, ok_bind, ← ih]
          cases writePagesLogged clk spp zp zoneElpn elpn stime sqId ref fuel _ q <;> rfl
      · exact ih _ _

theorem znsWritePlainLogged_fst (req : ZnsRequest) (ret : NvmevResult) :
    (znsWritePlainLogged clk spp ftl req ret).map Prod.fst = znsWritePlain clk spp ftl req ret := by
  unfold znsWritePlainLogged znsWritePlain
  simp only [pure_eq_ok]
  split
  · rfl
  generalize (if req.cmd.opcode = .zoneAppend then
    (ftl.zoneDescs (lbaToZone spp ftl.zp req.cmd.slba)).wp else req.cmd.slba) = slba
  split
  · rfl
  split
  · rfl
  cases ssdAdvanceWriteBuffer clk spp _ req.nsecsStart _ with
  | error e => rfl
  | ok r =>
    rw [ok_bind, ok_bind, ← writePagesLogged_fst]
    cases writePagesLogged clk spp _ _ _ _ _ _ _ _ _ <;> rfl

end Copies

/-- A zone has 524288 pages, and 24 of them make a one-shot page. The last one-shot page of the zone,
number 21845, has 8. -/
structure Zn540 (spp : SsdParams) (zp : ZnsParams) : Prop extends Zoned spp zp where
  oneshot : spp.pgsPerOneshotpg = 24
  zoneSize : zp.zoneSize = 2^31

/-- The one-shot pages that are complete when the zone is written up to page `b`. -/
def completeShots (b : Nat) : Nat := if b = 524288 then 21846 else b / 24

/-- The one-shot pages that a write of the pages from `a` to `b` of the zone completes. -/
def shotsBetween (a b : Nat) : List Nat :=
  if a < b then List.range' (a / 24) (completeShots b - a / 24) else []

def shotBytes (k : Nat) : Nat := if k = 21845 then 32768 else 98304

def lastPage (k : Nat) : Nat := if k = 21845 then 524287 else 24 * k + 23

theorem shotsBetween_fires {a c b : Nat} (hac : a < c) (hcb : c ≤ b) (hb : b ≤ 524288)
    (hfit : a % 24 + (c - a) ≤ 24) (hdone : a % 24 + (c - a) = 24 ∨ c = 524288) :
    shotsBetween a b = a / 24 :: shotsBetween c b := by
  have hpos : completeShots b - a / 24 = completeShots b - a / 24 - 1 + 1 := by
    unfold completeShots
    split <;> omega
  rw [shotsBetween, if_pos (by omega), hpos, List.range'_succ]
  congr 1
  unfold shotsBetween completeShots
  rcases Nat.lt_or_eq_of_le hcb with hlt | rfl
  · have hnext : c / 24 = a / 24 + 1 := by omega
    rw [if_pos hlt, hnext, Nat.sub_sub]
  · have hnone : (if c = 524288 then 21846 else c / 24) - a / 24 - 1 = 0 := by
      split <;> omega
    rw [if_neg (Nat.lt_irrefl c), hnone]
    rfl

theorem shotsBetween_open {a b : Nat} (hab : a < b) (hopen : a % 24 + (b - a) < 24) (hb : b < 524288) :
    shotsBetween a b = [] := by
  have hnone : completeShots b - a / 24 = 0 := by
    rw [completeShots, if_neg (Nat.ne_of_lt hb)]
    omega
  rw [shotsBetween, if_pos hab, hnone]
  rfl

theorem mem_shotsBetween {a b k : Nat} (hb : b ≤ 524288) :
    k ∈ shotsBetween a b ↔ k < 21846 ∧ a ≤ lastPage k ∧ lastPage k < b := by
  unfold shotsBetween lastPage
  split
  · rw [List.mem_range'_1]
    unfold completeShots
    split <;> split <;> omega
  · constructor
    · intro h
      cases h
    · split <;> omega

theorem shotsBetween_self (b : Nat) : shotsBetween b b = [] := if_neg (Nat.lt_irrefl b)

theorem shotsBetween_nodup (a b : Nat) : (shotsBetween a b).Nodup := by
  unfold shotsBetween
  split
  · exact List.nodup_range'
  · exact List.nodup_nil

namespace Zn540

variable {zp : ZnsParams}

theorem pagesPerZone_eq (g : Zn540 spp zp) : pagesPerZone zp = 524288 := by
  rw [pagesPerZone, g.zoneSize]
  decide

theorem lbasPerZone_eq (g : Zn540 spp zp) : lbasPerZone zp = 2^22 := by
  rw [lbasPerZone, g.zoneSize]
  decide

theorem secs_eq (g : Zn540 spp zp) : zp.zoneSize / spp.secsz = 2^22 := by
  rw [g.zoneSize, g.secsz]
  decide

/-- In a zone that ends before `2^32` the loop finds its place in the one-shot page. -/
theorem pgOff_eq (g : Zn540 spp zp) (hz : (zid + 1) * 2^22 < 2^32) {off : Nat} (hoff : off < 524288) :
    (lpnToPpa spp zp (zid * 524288 + off)).pg % spp.pgsPerOneshotpg = off % 24 := by
  have hsize : zp.zoneSize / spp.pgsz = 524288 := by
    rw [g.zoneSize, g.pgsz]
    decide
  have hzone : lpnToZone spp zp (zid * 524288 + off) = zid := by
    unfold lpnToZone u32
    rw [hsize]
    omega
  have hslpn : zoneToSlpn spp zp zid = zid * 524288 := by
    unfold zoneToSlpn u32
    rw [hsize]
    omega
  have hu : u64 (zid * 524288 + off + (2^64 - zid * 524288)) = off := by
    unfold u64
    omega
  have hbits : (2 : Nat)^pageBits = 65536 := by decide
  simp only [lpnToPpa, hzone, hslpn, hu, g.oneshot, hbits]
  omega

theorem zoneToElpn_eq (g : Zn540 spp zp) (hz : (zid + 1) * 2^22 < 2^32) :
    zoneToElpn spp zp zid = zid * 524288 + 524287 := by
  unfold zoneToElpn zoneToElba zoneToSlba u64 u32
  rw [g.secs_eq, g.secsPerPg]
  omega

/-- In a later zone the page that the code takes for its last one is outside of the zone. -/
theorem zoneToElpn_outside (g : Zn540 spp zp) (hz : 2^32 ≤ (zid + 1) * 2^22) (hfit : (zid + 1) * 2^22 < 2^63)
    {x : Nat} (hlo : zid * 524288 ≤ x) (hhi : x < zid * 524288 + 524288) : zoneToElpn spp zp zid ≠ x := by
  unfold zoneToElpn zoneToElba zoneToSlba u64 u32
  rw [g.secs_eq, g.secsPerPg]
  omega

theorem bufsToRelease_eq (g : Zn540 spp zp) (hz : (zid + 1) * 2^22 < 2^32) {a c : Nat} (hac : a < c)
    (hc : c ≤ 524288) (hfit : a % 24 + (c - a) ≤ 24) (hdone : a % 24 + (c - a) = 24 ∨ c = 524288) :
    bufsToRelease spp zp (zoneToElpn spp zp zid) (zid * 524288 + c - 1) = shotBytes (a / 24) := by
  rw [bufsToRelease, g.zoneToElpn_eq hz, g.oneshot, g.pgsz, g.zoneSize, shotBytes]
  split <;> split <;> omega

end Zn540

section Loop

variable {zp : ZnsParams} {stime sqId : Nat} {ref : BufferRef}

theorem programOneshot_released {ppa : Ppa} {bytes : Nat} {p p' : ProgramState}
    (h : programOneshot clk spp ppa stime sqId ref bytes p = .ok p') :
    p'.calls.map ZnsRelease.buffsToRelease = p.calls.map ZnsRelease.buffsToRelease ++ [bytes] := by
  unfold programOneshot at h
  obtain ⟨_, _, h⟩ := bind_eq_ok.mp h
  cases h
  rw [List.map_append]
  rfl

/-- Between two pages of a zone that ends before `2^32` the loop programs the one-shot pages that the
write completes, and each gives back the bytes that it has. -/
theorem writePagesLogged_shots (g : Zn540 spp zp) (hz : (zid + 1) * 2^22 < 2^32) {fuel a b : Nat}
    {p : ProgramState} {r : ProgramState × List Nat} (hab : a ≤ b) (hpos : 0 < b) (hb : b ≤ 524288)
    (h : writePagesLogged clk spp zp (zoneToElpn spp zp zid) (zid * 524288 + b - 1) stime sqId ref fuel
      (zid * 524288 + a) p = .ok r) :
    r.2.map (shotOf spp zp zid) = shotsBetween a b ∧
      r.1.calls.map ZnsRelease.buffsToRelease =
        p.calls.map ZnsRelease.buffsToRelease ++ (shotsBetween a b).map shotBytes := by
  have hdone : ∀ {q : ProgramState} {c : Nat}, c ≤ b → zid * 524288 + b - 1 < zid * 524288 + c →
      ([] : List Nat).map (shotOf spp zp zid) = shotsBetween c b ∧
        q.calls.map ZnsRelease.buffsToRelease =
          q.calls.map ZnsRelease.buffsToRelease ++ (shotsBetween c b).map shotBytes := by
    intro q c hc hlt
    obtain rfl : c = b := by omega
    rw [shotsBetween_self, List.map_nil, List.map_nil, List.append_nil]
    exact ⟨rfl, rfl⟩
  induction fuel generalizing a p r with
  | zero =>
    rw [writePagesLogged] at h
    split at h
    · rename_i hlt
      cases h
      exact hdone hab hlt
    · cases h
  | succ fuel ih =>
    rw [writePagesLogged] at h
    split at h
    · rename_i hlt
      cases h
      exact hdone hab hlt
    · have ha : a < 524288 := by omega
      dsimp only at h
      rw [g.pgOff_eq hz ha, g.oneshot, g.zoneToElpn_eq hz, ← g.zoneToElpn_eq hz] at h
      obtain ⟨c, hc, hac, hcb, hfit⟩ : ∃ c,
        min (zid * 524288 + b - 1 - (zid * 524288 + a) + 1) (24 - a % 24) =
          c - a ∧ a < c ∧ c ≤ b ∧ a % 24 + (c - a) ≤ 24 :=
        ⟨a + min (b - a) (24 - a % 24), by omega, by omega, by omega, by omega⟩
      have hnext : zid * 524288 + a + (c - a) = zid * 524288 + c := by omega
      rw [hc, hnext] at h
      split at h
      · rename_i hfires
        rw [g.zoneToElpn_eq hz] at hfires
        have hwhole : a % 24 + (c - a) = 24 ∨ c = 524288 := by omega
        obtain ⟨q, hq, h⟩ := bind_eq_ok.mp h
        obtain ⟨⟨p', programs⟩, hrest, h⟩ := bind_eq_ok.mp h
        cases h
        obtain ⟨hshots, hbytes⟩ := ih hcb hrest
        rw [programOneshot_released hq, g.bufsToRelease_eq hz hac (hcb.trans hb) hfit hwhole] at hbytes
        have hfirst : shotOf spp zp zid (zid * 524288 + a) = a / 24 := by
          rw [shotOf, g.pagesPerZone_eq, g.oneshot, Nat.add_sub_cancel_left]
        rw [shotsBetween_fires hac hcb hb hfit hwhole]
        refine ⟨?_, ?_⟩
        · rw [List.map_cons, hfirst, hshots]
        · rw [hbytes, List.map_cons, List.append_assoc]
          rfl
      · rename_i hopen
        rw [g.zoneToElpn_eq hz] at hopen
        obtain rfl : c = b := by omega
        rw [shotsBetween_open hac (by omega) (by omega)]
        have hlast := ih (Nat.le_refl c) h
        rwa [shotsBetween_self] at hlast

theorem writePagesLogged_whole (g : Zn540 spp zp) {zoneElpn elpn fuel lpn : Nat} {p : ProgramState}
    {r : ProgramState × List Nat} (hout : ∀ x, lpn ≤ x → x ≤ elpn → zoneElpn ≠ x)
    (h : writePagesLogged clk spp zp zoneElpn elpn stime sqId ref fuel lpn p = .ok r) :
    ∃ n, r.1.calls.map ZnsRelease.buffsToRelease =
      p.calls.map ZnsRelease.buffsToRelease ++ List.replicate n 98304 := by
  have hdone : ∀ q : ProgramState, ∃ n, q.calls.map ZnsRelease.buffsToRelease =
      q.calls.map ZnsRelease.buffsToRelease ++ List.replicate n 98304 :=
    fun q => ⟨0, (List.append_nil _).symm⟩
  induction fuel generalizing lpn p r with
  | zero =>
    rw [writePagesLogged] at h
    split at h
    · cases h
      exact hdone p
    · cases h
  | succ fuel ih =>
    rw [writePagesLogged] at h
    split at h
    · cases h
      exact hdone p
    · dsimp only at h
      rw [g.oneshot] at h
      have hoff : (lpnToPpa spp zp lpn).pg % 24 < 24 := Nat.mod_lt _ (by decide)
      obtain ⟨pgs, hpgs, hpos, hle⟩ : ∃ pgs, min (elpn - lpn + 1) (24 - (lpnToPpa spp zp lpn).pg % 24) = pgs ∧
          0 < pgs ∧ lpn + pgs - 1 ≤ elpn := ⟨_, rfl, by omega, by omega⟩
      rw [hpgs] at h
      have hrest : ∀ x, lpn + pgs ≤ x → x ≤ elpn → zoneElpn ≠ x := fun x hx => hout x (by omega)
      split at h
      · obtain ⟨q, hq, h⟩ := bind_eq_ok.mp h
        obtain ⟨⟨p', programs⟩, hloop, h⟩ := bind_eq_ok.mp h
        cases h
        have hbytes : bufsToRelease spp zp zoneElpn (lpn + pgs - 1) = 98304 := by
          have hne := hout (lpn + pgs - 1) (by omega) hle
          rw [bufsToRelease, g.oneshot, g.pgsz]
          simp only [hne.symm, false_and, if_false]
        obtain ⟨n, hn⟩ := ih hrest hloop
        refine ⟨n + 1, ?_⟩
        rw [hn, programOneshot_released hq, hbytes, List.append_assoc, List.replicate_succ]
        rfl
      · exact ih hrest h

end Loop

theorem bufferAllocate_le (buf : Buffer) (size : Nat) : (bufferAllocate buf size).2 ≤ size := by
  unfold bufferAllocate
  dsimp only
  split <;> omega

theorem znsWritePlainLogged_written {req : ZnsRequest} {ret : NvmevResult} {out : ZnsOutcome} {bytes : Nat}
    {programs : List Nat} (h : znsWritePlainLogged clk spp ftl req ret = .ok (out, bytes, programs))
    (accepted : out.accepted = true) (succeeds : out.ret.status = nvmeScSuccess) :
    zoneOf spp ftl req.cmd < ftl.zp.nrZones ∧ (admission spp ftl req.cmd).2 = nvmeScSuccess ∧
      bytes = lbaToByte (nrLbasFromRwCmd req.cmd) ∧ ∃ t ssd p,
        writePagesLogged clk spp ftl.zp (zoneToElpn spp ftl.zp (zoneOf spp ftl req.cmd))
          (lastLpn spp ftl req.cmd) t req.sqId (writeBufferOf ftl (zoneOf spp ftl req.cmd))
          (lastLpn spp ftl req.cmd + 1 - firstLpn spp ftl req.cmd) (firstLpn spp ftl req.cmd) ⟨ssd, t, []⟩ =
            .ok (p, programs) ∧
        out.calls = p.calls ∧ out.ftl = { increaseWritePtr spp (admission spp ftl req.cmd).1
          (zoneOf spp ftl req.cmd) (nrLbasFromRwCmd req.cmd) with ssd := p.ssd } := by
  unfold znsWritePlainLogged at h
  simp only [pure_eq_ok] at h
  split at h
  · cases h
  rename_i hz
  generalize hslba : (if req.cmd.opcode = .zoneAppend then
    (ftl.zoneDescs (lbaToZone spp ftl.zp req.cmd.slba)).wp else req.cmd.slba) = slba at h
  change writeLba spp ftl req.cmd = slba at hslba
  subst hslba
  have hpos : 0 < lbaToByte (nrLbasFromRwCmd req.cmd) := by
    unfold lbaToByte nrLbasFromRwCmd lbaSize lbaBits
    omega
  split at h
  · cases h
    cases accepted
  rename_i hs
  obtain ⟨room, hbuf⟩ := bufferAllocate_room hpos hs
  rw [hbuf] at h
  split at h
  · rename_i hf
    cases h
    exact absurd succeeds hf
  rename_i hf
  obtain ⟨⟨ssd, t⟩, _, h⟩ := bind_eq_ok.mp h
  obtain ⟨⟨p, _⟩, hp, h⟩ := bind_eq_ok.mp h
  cases h
  rw [increaseWritePtr_zp, admitWrite_zp, ZnsFtl.setBuffer_zp] at hp
  exact ⟨Nat.lt_of_not_le hz, Decidable.of_not_not hf,
    Nat.le_antisymm (bufferAllocate_le _ _) (Nat.le_of_not_lt hs), t, ssd, p, hp, rfl, rfl⟩

/-- The LBA is inside the last page of one-shot page `k`. -/
def InsideLast (k lba : Nat) : Prop := 8 * lastPage k < lba ∧ lba < 8 * lastPage k + 8

/-- The one-shot pages that were programmed against the pieces that the zone was written in so far. -/
structure ShotsFilled (shots cuts : List Nat) : Prop where
  lt : ∀ k ∈ shots, k < 21846
  some : ∀ k < 21846, 0 < shots.count k ↔ 8 * lastPage k < cuts.sum
  once : ∀ k < 21846, shots.count k ≤ 1 ↔ ∀ i < cuts.length, ¬ InsideLast k (cuts.take i).sum

theorem ShotsFilled.nil : ShotsFilled [] [] := by
  refine ⟨fun k hk => absurd hk List.not_mem_nil, fun k _ => ?_, fun k _ => ?_⟩
  · simp
  · simp

theorem ShotsFilled.add {shots cuts : List Nat} {n : Nat} (h : ShotsFilled shots cuts) (hn : 0 < n)
    (hfit : cuts.sum + n ≤ 2^22) :
    ShotsFilled (shots ++ shotsBetween (cuts.sum / 8) ((cuts.sum + n - 1) / 8 + 1)) (cuts ++ [n]) := by
  have hmem : ∀ k, k ∈ shotsBetween (cuts.sum / 8) ((cuts.sum + n - 1) / 8 + 1) ↔
      k < 21846 ∧ cuts.sum / 8 ≤ lastPage k ∧ lastPage k < (cuts.sum + n - 1) / 8 + 1 :=
    fun k => mem_shotsBetween (by omega)
  have hcount := fun k => (shotsBetween_nodup (cuts.sum / 8) ((cuts.sum + n - 1) / 8 + 1)).count (a := k)
  have hsum : (cuts ++ [n]).sum = cuts.sum + n := by rw [List.sum_append, List.sum_singleton]
  -- the new boundary is the one where this piece starts
  have hbounds : ∀ k, (∀ i < (cuts ++ [n]).length, ¬ InsideLast k ((cuts ++ [n]).take i).sum) ↔
      (∀ i < cuts.length, ¬ InsideLast k (cuts.take i).sum) ∧ ¬ InsideLast k cuts.sum := by
    intro k
    rw [List.length_append, List.length_singleton, Nat.forall_lt_succ_right, List.take_left]
    refine and_congr (forall_congr' fun i => ?_) Iff.rfl
    refine forall_congr' fun hi => ?_
    rw [List.take_append_of_le_length hi.le]
  refine ⟨?_, ?_, ?_⟩
  · intro k hk
    rcases List.mem_append.mp hk with hold | hnew
    · exact h.lt k hold
    · exact ((hmem k).mp hnew).1
  · intro k hk
    have hsome := h.some k hk
    rw [List.count_append, hcount, hsum]
    by_cases hin : k ∈ shotsBetween (cuts.sum / 8) ((cuts.sum + n - 1) / 8 + 1)
    · rw [if_pos hin]
      have hpage := (hmem k).mp hin
      omega
    · rw [if_neg hin]
      rw [hmem k] at hin
      omega
  · intro k hk
    have hsome := h.some k hk
    have honce := h.once k hk
    rw [List.count_append, hcount, hbounds, ← honce]
    unfold InsideLast
    by_cases hin : k ∈ shotsBetween (cuts.sum / 8) ((cuts.sum + n - 1) / 8 + 1)
    · rw [if_pos hin]
      have hpage := (hmem k).mp hin
      omega
    · rw [if_neg hin]
      rw [hmem k] at hin
      omega

section Run

variable {cfg : ZnsConfig} {old : ZnsParams} {size : Nat} {pending : List ZnsRelease} {l : FillLog}

theorem ssdInitParams_oneshot {cfg : SsdConfig} {capacity n : Nat}
    (h : ssdInitParams cfg capacity n = .ok spp) : spp.pgsPerOneshotpg = cfg.oneshotPageSize / 4096 := by
  obtain ⟨_, p⟩ := ssdInitParams_produced h
  have hone := p.oneshot_pages
  omega

theorem ZnsReachable.zn540 {Allowed : ZnsFtl → ZnsCommand → Prop}
    (h : ZnsReachable clk wdZn540 old size spp Allowed ftl) : Zn540 spp ftl.zp := by
  induction h with
  | init h =>
    unfold znsInitNamespace at h
    obtain ⟨_, hspp, h⟩ := bind_eq_ok.mp h
    obtain ⟨zp, hzp, h⟩ := bind_eq_ok.mp h
    cases h
    refine ⟨(znsInitParams_zoned (ssdInitParams_checked hspp).paged hzp).1, ?_, ?_⟩
    · rw [ssdInitParams_oneshot hspp]
      decide
    · unfold znsInitParams at hzp
      obtain ⟨_, hzp⟩ := divisor_bind_ok.mp hzp
      obtain ⟨_, hzp⟩ := divisor_bind_ok.mp hzp
      obtain ⟨_, hzp⟩ := nvmevAssert_bind_ok.mp hzp
      obtain ⟨_, hzp⟩ := nvmevAssert_bind_ok.mp hzp
      cases hzp
      exact (by decide : u32 wdZn540.zoneSize = 2^31)
  | command before allowed length h ih =>
    obtain ⟨leak, k⟩ := before.ok
    rw [(znsProcNvmeIoCmd_kept k length h).zp]
    exact ih
  | release before ref n ih =>
    rw [ZnsFtl.setBuffer_zp]
    exact ih

theorem ZoneFilling.reachable (h : ZoneFilling clk cfg old size spp zid ftl pending l) :
    ZnsReachable clk cfg old size spp (fun _ _ => True) ftl ∧ zid < ftl.zp.nrZones := by
  induction h with
  | start h zone empty => exact ⟨h, zone⟩
  | write before length hits zone plain h logged accepted succeeds ih =>
    obtain ⟨leak, k⟩ := ih.1.ok
    rw [(znsProcNvmeIoCmd_kept k length h).zp]
    exact ⟨ih.1.command trivial length h, ih.2⟩
  | other before length h keeps ih =>
    obtain ⟨leak, k⟩ := ih.1.ok
    rw [(znsProcNvmeIoCmd_kept k length h).zp]
    exact ⟨ih.1.command trivial length h, ih.2⟩
  | release before h ih =>
    rw [ZnsFtl.setBuffer_zp]
    exact ⟨ih.1.release _ _, ih.2⟩

/-- What a filling has done to its zone, as long as it stays inside. -/
structure Filled (spp : SsdParams) (zid : Nat) (ftl : ZnsFtl) (l : FillLog) : Prop where
  wp : (ftl.zoneDescs zid).wp = zid * 2^22 + l.cuts.sum
  allocated : l.allocated = l.cuts.map lbaToByte
  shots : (zid + 1) * 2^22 < 2^32 → ShotsFilled (l.programs.map (shotOf spp ftl.zp zid)) l.cuts ∧
    l.calls.map ZnsRelease.buffsToRelease = (l.programs.map (shotOf spp ftl.zp zid)).map shotBytes
  whole : 2^32 ≤ (zid + 1) * 2^22 →
    ∃ n, l.calls.map ZnsRelease.buffsToRelease = List.replicate n 98304

theorem Filled.same (f : Filled spp zid ftl l) (hzp : ftl'.zp = ftl.zp)
    (hwp : (ftl'.zoneDescs zid).wp = (ftl.zoneDescs zid).wp) : Filled spp zid ftl' l := by
  refine ⟨hwp.trans f.wp, f.allocated, ?_, f.whole⟩
  rw [hzp]
  exact f.shots

theorem Zn540.firstLpn_eq (g : Zn540 spp ftl.zp) {cmd : ZnsCommand} {start : Nat}
    (hslba : writeLba spp ftl cmd = zid * 2^22 + start) : firstLpn spp ftl cmd = zid * 524288 + start / 8 := by
  rw [firstLpn, lbaToLpn, g.secsPerPg, hslba]
  omega

theorem Zn540.lastLpn_eq (g : Zn540 spp ftl.zp) {cmd : ZnsCommand} {start : Nat}
    (hend : (zid + 1) * 2^22 < 2^63) (hslba : writeLba spp ftl cmd = zid * 2^22 + start)
    (hsum : start + nrLbasFromRwCmd cmd ≤ 2^22) :
    lastLpn spp ftl cmd = zid * 524288 + ((start + nrLbasFromRwCmd cmd - 1) / 8 + 1) - 1 := by
  have hpos : 0 < nrLbasFromRwCmd cmd := Nat.succ_pos _
  rw [lastLpn, lbaToLpn, g.secsPerPg, hslba]
  unfold u64
  omega

theorem Filled.write {req : ZnsRequest} {ret : NvmevResult} {out : ZnsOutcome} {bytes : Nat}
    {programs : List Nat} (f : Filled spp zid ftl l) (k : ZnsOk spp ftl leak) (g : Zn540 spp ftl.zp)
    (hend : (zid + 1) * 2^22 < 2^63) (hlen : req.cmd.length < 2^16) (zone : zoneOf spp ftl req.cmd = zid)
    (plain : (ftl.zoneDescs zid).zrwav = false)
    (logged : znsWritePlainLogged clk spp ftl req ret = .ok (out, bytes, programs))
    (accepted : out.accepted = true) (succeeds : out.ret.status = nvmeScSuccess)
    (hsum : l.cuts.sum + nrLbasFromRwCmd req.cmd ≤ 2^22) :
    Filled spp zid out.ftl (l.add (nrLbasFromRwCmd req.cmd) bytes programs out.calls) := by
  obtain ⟨hz, passed, hbytes, t, ssd, p, hpages, hcalls, hftl⟩ :=
    znsWritePlainLogged_written logged accepted succeeds
  subst zone
  have w : ZoneWritten spp ftl out.ftl req.cmd leak := hftl ▸ zoneWritten_of k hlen hz plain passed p.ssd
  have hpos : 0 < nrLbasFromRwCmd req.cmd := Nat.succ_pos _
  have hslba : writeLba spp ftl req.cmd = zoneOf spp ftl req.cmd * 2^22 + l.cuts.sum := w.checks.wp.trans f.wp
  rw [g.firstLpn_eq hslba, g.lastLpn_eq hend hslba hsum] at hpages
  refine ⟨?_, ?_, ?_, ?_⟩
  · obtain ⟨s, _, hd⟩ := w.zone
    rw [hd]
    change u64 (writeLba spp ftl req.cmd + nrLbasFromRwCmd req.cmd) = _
    rw [hslba, FillLog.add, List.sum_append, List.sum_singleton]
    unfold u64
    omega
  · rw [FillLog.add, f.allocated, hbytes, List.map_append]
    rfl
  · intro hz
    obtain ⟨hshots, hreleased⟩ := f.shots hz
    obtain ⟨hnew, hbytes⟩ := writePagesLogged_shots g hz (by omega) (Nat.succ_pos _) (by omega) hpages
    rw [w.zp, FillLog.add, List.map_append, hnew, List.map_append, hcalls, hreleased, hbytes, List.map_append]
    exact ⟨hshots.add hpos hsum, rfl⟩
  · intro hz
    obtain ⟨m, hm⟩ := f.whole hz
    have hout : ∀ x, zoneOf spp ftl req.cmd * 524288 + l.cuts.sum / 8 ≤ x →
        x ≤ zoneOf spp ftl req.cmd * 524288 + ((l.cuts.sum + nrLbasFromRwCmd req.cmd - 1) / 8 + 1) - 1 →
        zoneToElpn spp ftl.zp (zoneOf spp ftl req.cmd) ≠ x := by
      intro x hlo hhi
      have hhi' : x < zoneOf spp ftl req.cmd * 524288 + 524288 := by omega
      exact g.zoneToElpn_outside hz hend (Nat.le_trans (Nat.le_add_right _ _) hlo) hhi'
    obtain ⟨n, hn⟩ := writePagesLogged_whole g hout hpages
    refine ⟨m + n, ?_⟩
    rw [FillLog.add, List.map_append, hm, hcalls, hn, List.map_nil, List.nil_append, List.replicate_add]

theorem ZoneFilling.filled (h : ZoneFilling clk wdZn540 old size spp zid ftl pending l) (hsize : size < 2^64)
    (hsum : l.cuts.sum ≤ 2^22) : Filled spp zid ftl l := by
  induction h with
  | start h zone empty =>
    have a := h.laidOut.zoneAt hsize zone
    refine ⟨?_, rfl, fun _ => ⟨.nil, rfl⟩, fun _ => ⟨0, rfl⟩⟩
    rw [empty, a.zslba, h.zn540.lbasPerZone_eq, List.sum_nil, Nat.add_zero]
  | write before length hits zone plain h logged accepted succeeds ih =>
    rw [FillLog.add, List.sum_append, List.sum_singleton] at hsum
    obtain ⟨hr, hz⟩ := before.reachable
    obtain ⟨leak, k⟩ := hr.ok
    have hend := (hr.laidOut.zoneAt hsize hz).end_lt
    rw [hr.zn540.lbasPerZone_eq] at hend
    exact (ih (by omega)).write k hr.zn540 (by omega) length zone plain logged accepted succeeds hsum
  | other before length h keeps ih =>
    obtain ⟨leak, k⟩ := before.reachable.1.ok
    exact (ih hsum).same (znsProcNvmeIoCmd_kept k length h).zp keeps
  | release before h ih =>
    exact (ih hsum).same (by rw [ZnsFtl.setBuffer_zp]) (by rw [ZnsFtl.setBuffer_zoneDescs])

end Run

theorem shotBytes_whole {n : Nat} (hn : n ≤ 21845) : (List.range n).map shotBytes = List.replicate n 98304 := by
  rw [List.eq_replicate_iff]
  refine ⟨by rw [List.length_map, List.length_range], ?_⟩
  intro b hb
  obtain ⟨k, hk, rfl⟩ := List.mem_map.mp hb
  have hlt : k < n := List.mem_range.mp hk
  rw [shotBytes, if_neg (by omega)]

-- `n` instead of the number keeps the kernel from counting up to it
theorem shotBytes_last {n : Nat} (hn : n = 21845) :
    ((List.range (n + 1)).map shotBytes).sum = n * 98304 + 32768 := by
  rw [List.range_succ, List.map_append, List.sum_append, shotBytes_whole hn.le, List.sum_replicate, smul_eq_mul,
    List.map_singleton, List.sum_singleton, shotBytes, if_pos hn]

theorem shotBytes_total : ((List.range 21846).map shotBytes).sum = 2^31 := shotBytes_last rfl

theorem sum_lbaToByte (cuts : List Nat) : (cuts.map lbaToByte).sum = 512 * cuts.sum := by
  induction cuts with
  | nil => rfl
  | cons n cuts ih =>
    rw [List.map_cons, List.sum_cons, List.sum_cons, ih]
    unfold lbaToByte lbaSize lbaBits
    omega

theorem Zn540.splitsLastPage_iff {zp : ZnsParams} (g : Zn540 spp zp) {lba : Nat} (hlba : lba ≤ 2^22) :
    SplitsLastPage spp zp lba ↔ ∃ k < 21846, InsideLast k lba := by
  unfold SplitsLastPage
  rw [g.secsPerPg, g.oneshot, g.pagesPerZone_eq]
  constructor
  · rintro ⟨hedge, hpage⟩
    refine ⟨lba / 8 / 24, by omega, ?_⟩
    unfold InsideLast lastPage
    split <;> omega
  · rintro ⟨k, hk, hin⟩
    unfold InsideLast lastPage at hin
    split at hin <;> omega

/-- Each one-shot page is programmed once when no piece starts inside the last page of one. -/
theorem ShotsFilled.perm_iff {shots cuts : List Nat} (h : ShotsFilled shots cuts) (hsum : cuts.sum = 2^22) :
    shots.Perm (List.range 21846) ↔ ∀ k < 21846, ∀ i < cuts.length, ¬ InsideLast k (cuts.take i).sum := by
  have hcount := fun k => (List.nodup_range (n := 21846)).count (a := k)
  have hpos : ∀ k < 21846, 0 < shots.count k := by
    intro k hk
    rw [h.some k hk, hsum]
    unfold lastPage
    split <;> omega
  rw [List.perm_iff_count]
  constructor
  · intro hperm k hk
    rw [← h.once k hk, hperm k, hcount, if_pos (List.mem_range.mpr hk)]
  · intro hin k
    rw [hcount]
    by_cases hk : k < 21846
    · rw [if_pos (List.mem_range.mpr hk)]
      exact Nat.le_antisymm ((h.once k hk).mpr (hin k hk)) (hpos k hk)
    · rw [if_neg (fun hmem => hk (List.mem_range.mp hmem))]
      exact List.count_eq_zero.mpr (fun hmem => hk (h.lt k hmem))

theorem Zn540.splits_iff {zp : ZnsParams} (g : Zn540 spp zp) {cuts : List Nat} (hsum : cuts.sum = 2^22) :
    (∀ i ≤ cuts.length, ¬ SplitsLastPage spp zp (cuts.take i).sum) ↔
      ∀ k < 21846, ∀ i < cuts.length, ¬ InsideLast k (cuts.take i).sum := by
  have hle : ∀ i, (cuts.take i).sum ≤ 2^22 := by
    intro i
    rw [← hsum]
    exact (List.take_sublist i cuts).sum_le_sum (fun _ _ => Nat.zero_le _)
  constructor
  · intro h k hk i hi hin
    exact h i hi.le ((g.splitsLastPage_iff (hle i)).mpr ⟨k, hk, hin⟩)
  · intro h i hi hsplit
    obtain ⟨k, hk, hin⟩ := (g.splitsLastPage_iff (hle i)).mp hsplit
    rcases Nat.lt_or_eq_of_le hi with hlt | rfl
    · exact h k hk i hlt hin
    · -- the end of the zone is at an edge
      rw [List.take_length, hsum] at hsplit
      have hedge := hsplit.1
      rw [g.secsPerPg] at hedge
      exact hedge (by decide)

/-- A zone that is written from its start to its end in any pieces is filled exactly when it ends before
`2^32` and no piece starts inside the last page of a one-shot page. -/
theorem filled_exactly_iff {old : ZnsParams} {size : Nat} {pending : List ZnsRelease} {l : FillLog}
    (h : ZoneFilling clk wdZn540 old size spp zid ftl pending l) (hsize : size < 2^64)
    (whole : l.cuts.sum = lbasPerZone ftl.zp) :
    FilledExactly spp ftl.zp zid l ↔ (zid + 1) * lbasPerZone ftl.zp < 2^32 ∧
      ∀ i ≤ l.cuts.length, ¬ SplitsLastPage spp ftl.zp (l.cuts.take i).sum := by
  have g := h.reachable.1.zn540
  rw [g.lbasPerZone_eq] at whole ⊢
  have f := h.filled hsize whole.le
  have hallocated : l.allocated.sum = 2^31 := by
    rw [f.allocated, sum_lbaToByte, whole]
    decide
  have hshots : divRoundUp (pagesPerZone ftl.zp) spp.pgsPerOneshotpg = 21846 := by
    rw [g.pagesPerZone_eq, g.oneshot]
    decide
  rw [g.splits_iff whole]
  constructor
  · intro k
    have hsmall : (zid + 1) * 2^22 < 2^32 := by
      refine Nat.lt_of_not_le fun hlarge => ?_
      -- whole one-shot pages do not add up to the zone
      obtain ⟨n, hn⟩ := f.whole hlarge
      have hreleased := k.released
      rw [hn, hallocated, List.sum_replicate] at hreleased
      simp only [smul_eq_mul] at hreleased
      omega
    have hperm := k.programs
    rw [hshots] at hperm
    exact ⟨hsmall, ((f.shots hsmall).1.perm_iff whole).mp hperm⟩
  · rintro ⟨hsmall, hin⟩
    obtain ⟨hfilled, hreleased⟩ := f.shots hsmall
    have hperm := (hfilled.perm_iff whole).mpr hin
    refine ⟨?_, ?_, ?_⟩
    · rw [hshots]
      exact hperm
    · rw [hreleased, (hperm.map shotBytes).sum_eq, shotBytes_total, hallocated]
    · rw [hallocated, g.zoneSize]

section Whole

variable {zp : ZnsParams} {stime sqId : Nat} {ref : BufferRef}

structure OnDie (spp : SsdParams) (zp : ZnsParams) : Prop where
  nchs : spp.nchs = 8
  lunsPerCh : spp.lunsPerCh = 4
  ttLuns : spp.ttLuns = 32
  diesPerZone : zp.diesPerZone = 32
  writeUnitSize : spp.writeUnitSize = 512
  xfer : 0 < spp.maxChXferSize

theorem OnDie.lpnToPpa_die (d : OnDie spp zp) (lpn : Nat) :
    (lpnToPpa spp zp lpn).ch < spp.nchs ∧ (lpnToPpa spp zp lpn).lun < spp.lunsPerCh := by
  unfold lpnToPpa dieToLun dieToChannel
  dsimp only
  rw [d.nchs, d.lunsPerCh, d.ttLuns, d.diesPerZone]
  constructor
  · exact Nat.lt_of_le_of_lt (Nat.mod_le _ _) (Nat.mod_lt _ (by decide))
  · refine Nat.lt_of_le_of_lt (Nat.mod_le _ _) ?_
    unfold u32 u64
    omega

theorem programOneshot_returns {ppa : Ppa} {bytes : Nat} {p : ProgramState} (hp : p.ssd.PerfOk)
    (hmax : 0 < spp.maxChXferSize) (hdie : ppa.ch < spp.nchs ∧ ppa.lun < spp.lunsPerCh) :
    ∃ p' t, programOneshot clk spp ppa stime sqId ref bytes p = .ok p' ∧ p'.ssd.PerfOk ∧
      p'.calls = p.calls ++ [⟨sqId, t, ref, bytes⟩] := by
  obtain ⟨⟨ssd, t⟩, hr, ht⟩ := ssdAdvanceNand_returns clk spp hp hmax
    { type := .user, cmd := .write, xferSize := spp.pgsPerOneshotpg * spp.pgsz, stime := stime,
      interleavePciDma := false, ppa := ppa } hdie.1 hdie.2
  refine ⟨⟨ssd, max t p.nsecsLatest, p.calls ++ [⟨sqId, t, ref, bytes⟩]⟩, t, ?_, ht.2, rfl⟩
  unfold programOneshot
  rw [hr]
  rfl

theorem writePagesLogged_returns (d : OnDie spp zp) (hone : 0 < spp.pgsPerOneshotpg) {zoneElpn elpn : Nat}
    (fuel lpn : Nat) {p : ProgramState} (hp : p.ssd.PerfOk) (hfuel : elpn + 1 ≤ lpn + fuel) :
    ∃ r, writePagesLogged clk spp zp zoneElpn elpn stime sqId ref fuel lpn p = .ok r ∧ r.1.ssd.PerfOk ∧
      ∀ c ∈ r.1.calls, c ∈ p.calls ∨ c.buffer = ref := by
  induction fuel generalizing lpn p with
  | zero =>
    rw [writePagesLogged, if_pos (by omega)]
    exact ⟨_, rfl, hp, fun c hc => .inl hc⟩
  | succ fuel ih =>
    rw [writePagesLogged]
    by_cases hend : elpn < lpn
    · rw [if_pos hend]
      exact ⟨_, rfl, hp, fun c hc => .inl hc⟩
    · rw [if_neg hend]
      dsimp only
      have hoff := Nat.mod_lt (lpnToPpa spp zp lpn).pg hone
      obtain ⟨pgs, hpgs, hpos⟩ : ∃ pgs, min (elpn - lpn + 1)
          (spp.pgsPerOneshotpg - (lpnToPpa spp zp lpn).pg % spp.pgsPerOneshotpg) = pgs ∧ 0 < pgs :=
        ⟨_, rfl, by omega⟩
      rw [hpgs]
      split
      · obtain ⟨q, t, hq, hperf, hcalls⟩ : ∃ q t, programOneshot clk spp (lpnToPpa spp zp lpn) stime sqId ref
            (bufsToRelease spp zp zoneElpn (lpn + pgs - 1)) p = .ok q ∧ q.ssd.PerfOk ∧
              q.calls = p.calls ++ [⟨sqId, t, ref, bufsToRelease spp zp zoneElpn (lpn + pgs - 1)⟩] :=
          programOneshot_returns hp d.xfer (d.lpnToPpa_die lpn)
        obtain ⟨r, hr, hperf', hbuf⟩ := ih (lpn + pgs) hperf (by omega)
        rw [hq, ok_bind, hr, ok_bind]
        refine ⟨_, rfl, hperf', fun c hc => ?_⟩
        rcases hbuf c hc with hold | hnew
        · rw [hcalls] at hold
          rcases List.mem_append.mp hold with hp | hq
          · exact .inl hp
          · rw [List.mem_singleton.mp hq]
            exact .inr rfl
        · exact .inr hnew
      · exact ih (lpn + pgs) hp (by omega)

end Whole

structure ReadyToFill (spp : SsdParams) (ftl : ZnsFtl) : Prop where
  dies : OnDie spp ftl.zp
  opened : Opened (ftl.zoneDescs 0)
  plain : (ftl.zoneDescs 0).zrwav = false
  room : 98304 ≤ (ftl.zoneWriteBuffer 0).remaining
  fits : (ftl.zoneWriteBuffer 0).remaining < 2^63
  perf : ftl.ssd.PerfOk
  wb : ftl.zp.zoneWbSize ≠ 0

/-- The write of `n` LBAs at `lba`. -/
def writeFrom (lba n : Nat) : ZnsRequest := ⟨⟨.write, lba, n - 1, false, .other, false, 0, 0, 0⟩, 1, 0⟩

theorem writeFrom_lbas (w : Nat) {n : Nat} (hn : 0 < n) : nrLbasFromRwCmd (writeFrom w n).cmd = n :=
  Nat.sub_add_cancel hn

theorem Zn540.zone_zero {zp : ZnsParams} (g : Zn540 spp zp) {w : Nat} (hw : w < 2^22) :
    lbaToZone spp zp w = 0 := by
  unfold lbaToZone u32
  rw [g.secs_eq]
  omega

theorem admitWrite_opened {slba n : Nat} (hs : Opened (ftl.zoneDescs zid))
    (hunit : lbaToByte n % spp.writeUnitSize = 0) (hb : checkBoundaryError spp ftl.zp slba n = true)
    (hwp : slba = (ftl.zoneDescs zid).wp) : admitWrite spp ftl zid slba n = (ftl, nvmeScSuccess) := by
  unfold admitWrite openForWrite
  rw [if_neg (fun h => h hunit), if_neg (by rw [hb]; exact Bool.noConfusion), if_neg (fun h => h hwp)]
  rcases hs with hs | hs
  · rw [hs]
  · rw [hs]

theorem ReadyToFill.allocates (r : ReadyToFill spp ftl) {n : Nat} (hn : n ≤ 192) :
    ∃ buf, bufferAllocate (ftl.buffer (.zone 0)) (lbaToByte n) = (buf, lbaToByte n) := by
  have hbytes : lbaToByte n ≤ (ftl.zoneWriteBuffer 0).remaining := by
    have hroom := r.room
    unfold lbaToByte lbaSize lbaBits
    omega
  unfold bufferAllocate
  rw [if_neg (show ¬ (ftl.buffer (.zone 0)).remaining < lbaToByte n from Nat.not_lt.mpr hbytes)]
  exact ⟨_, rfl⟩

theorem ReadyToFill.admits (r : ReadyToFill spp ftl) (g : Zn540 spp ftl.zp) {w n : Nat} (hn : 0 < n)
    (hfit : w + n ≤ 2^22) (hwp : (ftl.zoneDescs 0).wp = w) (buf : Buffer) :
    admitWrite spp (ftl.setBuffer (.zone 0) buf) 0 w n = (ftl.setBuffer (.zone 0) buf, nvmeScSuccess) := by
  apply admitWrite_opened
  · rw [ZnsFtl.setBuffer_zoneDescs]
    exact r.opened
  · rw [r.dies.writeUnitSize]
    unfold lbaToByte lbaSize lbaBits
    omega
  · rw [ZnsFtl.setBuffer_zp]
    unfold checkBoundaryError lbaToZone u32 u64
    rw [g.secs_eq, decide_eq_true_eq]
    omega
  · rw [ZnsFtl.setBuffer_zoneDescs]
    exact hwp.symm

theorem ReadyToFill.writes (r : ReadyToFill spp ftl) (g : Zn540 spp ftl.zp) (hz : 0 < ftl.zp.nrZones)
    {w n : Nat} {ret : NvmevResult} (hn : 0 < n) (hn' : n ≤ 192) (hfit : w + n ≤ 2^22)
    (hwp : (ftl.zoneDescs 0).wp = w) : ∃ out bytes programs,
      znsWritePlainLogged clk spp ftl (writeFrom w n) ret = .ok (out, bytes, programs) ∧ out.accepted = true ∧
        out.ret.status = nvmeScSuccess ∧ out.ftl.ssd.PerfOk ∧ ∀ c ∈ out.calls, c.buffer = .zone 0 := by
  have hzone : lbaToZone spp ftl.zp w = 0 := g.zone_zero (by omega)
  have href : writeBufferOf ftl 0 = .zone 0 := if_pos r.wb
  obtain ⟨buf, hbuf⟩ := r.allocates hn'
  have hadmit := r.admits g hn hfit hwp buf
  have hperf : (increaseWritePtr spp (ftl.setBuffer (.zone 0) buf) 0 n).ssd.PerfOk := by
    rw [increaseWritePtr_ssd, ZnsFtl.setBuffer_ssd]
    exact r.perf
  obtain ⟨⟨ssd, t⟩, hxfer, -, hperf⟩ : ∃ r, ssdAdvanceWriteBuffer clk spp
      (increaseWritePtr spp (ftl.setBuffer (.zone 0) buf) 0 n).ssd (writeFrom w n).nsecsStart (lbaToByte n) =
        .ok r ∧ Timed _ r.1 := ssdAdvancePcie_returns clk hperf _ _
  have hzp : (increaseWritePtr spp (ftl.setBuffer (.zone 0) buf) 0 n).zp = ftl.zp := by
    rw [increaseWritePtr_zp, ZnsFtl.setBuffer_zp]
  obtain ⟨⟨p, programs⟩, hpages, hperf, hcalls⟩ : ∃ r,
    writePagesLogged clk spp ftl.zp (zoneToElpn spp ftl.zp 0)
      (lbaToLpn spp (u64 (w + n + (2^64 - 1)))) t (writeFrom w n).sqId (.zone 0)
      (lbaToLpn spp (u64 (w + n + (2^64 - 1))) + 1 - lbaToLpn spp w) (lbaToLpn spp w) ⟨ssd, t, []⟩ = .ok r ∧
        r.1.ssd.PerfOk ∧ ∀ c ∈ r.1.calls, c ∈ [] ∨ c.buffer = .zone 0 :=
    writePagesLogged_returns r.dies (by rw [g.oneshot]; decide) _ _ hperf (by omega)
  unfold znsWritePlainLogged
  have hplain : (writeFrom w n).cmd.opcode ≠ .zoneAppend := ZnsOpcode.noConfusion
  have hslba : (writeFrom w n).cmd.slba = w := rfl
  simp only [hslba, writeFrom_lbas w hn, hzone, if_neg hplain, href, hbuf, hadmit,
    if_neg (Nat.not_le.mpr hz), hzp, Nat.lt_irrefl, if_false, ne_eq, not_true]
  rw [hxfer, ok_bind, hpages, ok_bind]
  refine ⟨_, _, _, rfl, rfl, rfl, hperf, fun c hc => ?_⟩
  exact (hcalls c hc).resolve_left List.not_mem_nil

theorem writeFrom_proc (k : ZnsOk spp ftl leak) {w n : Nat} {ret : NvmevResult} {out : ZnsOutcome}
    {bytes : Nat} {programs : List Nat} (hz : zoneOf spp ftl (writeFrom w n).cmd = 0)
    (plain : (ftl.zoneDescs 0).zrwav = false) (hzones : 0 < ftl.zp.nrZones)
    (h : znsWritePlainLogged clk spp ftl (writeFrom w n) ret = .ok (out, bytes, programs)) :
    znsProcNvmeIoCmd clk spp 0 ftl (writeFrom w n) ret = .ok out := by
  have hplain : znsWritePlain clk spp ftl (writeFrom w n) ret = .ok out := by
    rw [← znsWritePlainLogged_fst, h]
    rfl
  unfold znsProcNvmeIoCmd
  change znsWrite clk spp ftl (writeFrom w n) ret = .ok out
  have hzone : lpnToZone spp ftl.zp (lbaToLpn spp (writeFrom w n).cmd.slba) = 0 :=
    (k.zoned.lpnToZone_eq _).trans hz
  unfold znsWrite
  dsimp only
  rw [hzone, if_neg (Nat.not_le.mpr hzones), if_pos plain]
  exact hplain

theorem znsWritePlainLogged_perfOk {req : ZnsRequest} {ret : NvmevResult} {r : ZnsOutcome × Nat × List Nat}
    (hp : ftl.ssd.PerfOk) (hmax : 0 < spp.maxChXferSize)
    (h : znsWritePlainLogged clk spp ftl req ret = .ok r) : r.1.ftl.ssd.PerfOk := by
  have hplain : znsWritePlain clk spp ftl req ret = .ok r.1 := by
    rw [← znsWritePlainLogged_fst, h]
    rfl
  exact (znsWritePlain_harmless hp hmax).of_ok hplain

theorem setBuffer_zone_self (ftl : ZnsFtl) (zid : Nat) (buf : Buffer) :
    (ftl.setBuffer (.zone zid) buf).zoneWriteBuffer zid = buf := Function.update_self _ _ _

/-- What the write of the LBAs from `w` to `w + n` leaves in zone 0. -/
structure PieceDone (spp : SsdParams) (ftl ftl' : ZnsFtl) (w n : Nat) (calls : List ZnsRelease) : Prop where
  zp : ftl'.zp = ftl.zp
  perf : ftl'.ssd.PerfOk
  buffer : ∀ c ∈ calls, c.buffer = .zone 0
  released : calls.map ZnsRelease.buffsToRelease =
    (shotsBetween (w / 8) ((w + n - 1) / 8 + 1)).map shotBytes
  remaining : (ftl'.zoneWriteBuffer 0).remaining = (ftl.zoneWriteBuffer 0).remaining - 512 * n
  opened : w + n < 2^22 → Opened (ftl'.zoneDescs 0)
  plain : (ftl'.zoneDescs 0).zrwav = false

section Pieces

variable {old : ZnsParams} {size : Nat} {pending : List ZnsRelease} {l : FillLog}

/-- The next piece of zone 0, when it is open and the buffer has room. -/
theorem ZoneFilling.next (hF : ZoneFilling clk wdZn540 old size spp 0 ftl pending l) (hsize : size < 2^64)
    (r : ReadyToFill spp ftl) {n : Nat} (hn : 0 < n) (hn' : n ≤ 192) (hfit : l.cuts.sum + n ≤ 2^22) :
    ∃ ftl' calls l', ZoneFilling clk wdZn540 old size spp 0 ftl' (pending ++ calls) l' ∧
      l'.cuts = l.cuts ++ [n] ∧ PieceDone spp ftl ftl' l.cuts.sum n calls := by
  obtain ⟨hr, hz⟩ := hF.reachable
  obtain ⟨leak, k⟩ := hr.ok
  have g := hr.zn540
  have a := hr.laidOut.zoneAt hsize hz
  have hwp : (ftl.zoneDescs 0).wp = l.cuts.sum := by
    rw [(hF.filled hsize (by omega)).wp]
    omega
  obtain ⟨out, bytes, programs, hout, accepted, succeeds, hperf, hbuf⟩ :
      ∃ out bytes programs, znsWritePlainLogged clk spp ftl (writeFrom l.cuts.sum n) ⟨0, 0⟩ =
        .ok (out, bytes, programs) ∧ out.accepted = true ∧ out.ret.status = nvmeScSuccess ∧
          out.ftl.ssd.PerfOk ∧ ∀ c ∈ out.calls, c.buffer = .zone 0 := r.writes g hz hn hn' hfit hwp
  have hlen : (writeFrom l.cuts.sum n).cmd.length < 2^16 := by
    change n - 1 < 2^16
    omega
  have hlbas := writeFrom_lbas l.cuts.sum hn
  have hw : l.cuts.sum < 2^22 := by omega
  have hzone : zoneOf spp ftl (writeFrom l.cuts.sum n).cmd = 0 := g.zone_zero hw
  have hproc := writeFrom_proc k hzone r.plain hz hout
  have hF' := hF.write hlen (.inl rfl) hzone r.plain hproc hout accepted succeeds
  obtain ⟨-, passed, -, t, ssd, p, hpages, hcalls, hftl⟩ := znsWritePlainLogged_written hout accepted succeeds
  have w : ZoneWritten spp ftl out.ftl (writeFrom l.cuts.sum n).cmd leak :=
    hftl ▸ zoneWritten_of k hlen (by rw [hzone]; exact hz) (by rw [hzone]; exact r.plain) passed p.ssd
  have hslba : writeLba spp ftl (writeFrom l.cuts.sum n).cmd = l.cuts.sum := rfl
  obtain ⟨s, hs, hd⟩ := w.zone
  rw [hzone, hslba, hlbas] at hd
  have hslba' : writeLba spp ftl (writeFrom l.cuts.sum n).cmd = 0 * 2^22 + l.cuts.sum := by
    rw [hslba, Nat.zero_mul, Nat.zero_add]
  rw [g.firstLpn_eq hslba', g.lastLpn_eq (by decide) hslba' (by rwa [hlbas]), hlbas, hzone] at hpages
  obtain ⟨-, hreleased⟩ := writePagesLogged_shots g (by decide) (by omega) (Nat.succ_pos _) (by omega) hpages
  refine ⟨out.ftl, out.calls, _, hF', by rw [FillLog.add, hlbas], ?_⟩
  refine ⟨w.zp, hperf, hbuf, ?_, ?_, ?_, ?_⟩
  · rw [hcalls, hreleased]
    rfl
  · rw [w.buffers.zoneWriteBuffer, charged, hzone, hlbas, writeBufferOf, if_pos r.wb, setBuffer_zone_self]
    change (ftl.zoneWriteBuffer 0).remaining - lbaToByte n = _
    unfold lbaToByte lbaSize lbaBits
    omega
  · intro hlt
    have hfull : fullAt spp ftl 0 = 2^22 := by
      unfold fullAt zoneToSlba
      rw [a.zoneCapacity, g.lbasPerZone_eq, Nat.zero_mul]
      decide
    have hself : u64 (l.cuts.sum + n) = l.cuts.sum + n := Nat.mod_eq_of_lt (by omega)
    rw [hfull, hself, if_neg (Nat.ne_of_lt hlt)] at hd
    rw [hd]
    exact hs
  · rw [hd]
    exact r.plain

/-- A whole one-shot page is written and its bytes are given back. -/
theorem ZoneFilling.nextShot (hF : ZoneFilling clk wdZn540 old size spp 0 ftl pending l) (hsize : size < 2^64)
    (r : ReadyToFill spp ftl) {j : Nat} (hj : j < 21845) (hsum : l.cuts.sum = 192 * j) :
    ∃ ftl' pending' l', ZoneFilling clk wdZn540 old size spp 0 ftl' pending' l' ∧ l'.cuts = l.cuts ++ [192] ∧
      ReadyToFill spp ftl' := by
  obtain ⟨ftl', calls, l', hF', hcuts, d⟩ := hF.next hsize r (n := 192) (by decide) (by decide) (by omega)
  have hshots : shotsBetween (l.cuts.sum / 8) ((l.cuts.sum + 192 - 1) / 8 + 1) = [j] := by
    have h₁ : l.cuts.sum / 8 = 24 * j := by omega
    have h₂ : (l.cuts.sum + 192 - 1) / 8 + 1 = 24 * j + 24 := by omega
    have h₃ : completeShots (24 * j + 24) - 24 * j / 24 = 1 := by
      rw [completeShots, if_neg (by omega)]
      omega
    rw [h₁, h₂, shotsBetween, if_pos (by omega), h₃, Nat.mul_div_cancel_left j (by decide)]
    rfl
  have hreleased := d.released
  rw [hshots, List.map_singleton, shotBytes, if_neg (by omega), List.map_eq_singleton_iff] at hreleased
  obtain ⟨c, rfl, hbytes⟩ := hreleased
  have hbuffer := d.buffer c (List.mem_singleton_self c)
  have hroom := r.room
  have hfits := r.fits
  have hremaining := d.remaining
  refine ⟨_, _, l', hF'.release (List.mem_append_right _ (List.mem_singleton_self c)), hcuts, ?_⟩
  have hbuf : ((ftl'.setBuffer c.buffer
    (bufferRelease (ftl'.buffer c.buffer) c.buffsToRelease)).zoneWriteBuffer
      0).remaining = (ftl.zoneWriteBuffer 0).remaining := by
    rw [hbuffer, hbytes, setBuffer_zone_self]
    change u64 ((ftl'.zoneWriteBuffer 0).remaining + 98304) = _
    have hself : u64 ((ftl'.zoneWriteBuffer 0).remaining + 98304) =
      (ftl'.zoneWriteBuffer 0).remaining + 98304 :=
      Nat.mod_eq_of_lt (by omega)
    omega
  refine ⟨?_, ?_, ?_, ?_, ?_, ?_, ?_⟩
  · rw [ZnsFtl.setBuffer_zp, d.zp]
    exact r.dies
  · rw [ZnsFtl.setBuffer_zoneDescs]
    exact d.opened (by omega)
  · rw [ZnsFtl.setBuffer_zoneDescs]
    exact d.plain
  · rw [hbuf]
    exact hroom
  · rw [hbuf]
    exact hfits
  · rw [ZnsFtl.setBuffer_ssd]
    exact d.perf
  · rw [ZnsFtl.setBuffer_zp, d.zp]
    exact r.wb

/-- From a whole number of one-shot pages the rest of the zone can be written. -/
theorem ZoneFilling.rest (hF : ZoneFilling clk wdZn540 old size spp 0 ftl pending l) (hsize : size < 2^64)
    (r : ReadyToFill spp ftl) {j m : Nat} (hm : j + m = 21845) (hsum : l.cuts.sum = 192 * j) :
    ∃ ftl' pending' l', ZoneFilling clk wdZn540 old size spp 0 ftl' pending' l' ∧
      l'.cuts = l.cuts ++ (List.replicate m 192 ++ [64]) := by
  induction m generalizing ftl pending l j with
  | zero =>
    obtain ⟨ftl', calls, l', hF', hcuts, _⟩ := hF.next hsize r (n := 64) (by decide) (by decide) (by omega)
    exact ⟨ftl', _, l', hF', hcuts⟩
  | succ m ih =>
    obtain ⟨ftl', pending', l', hF', hcuts, r'⟩ := hF.nextShot hsize r (by omega) hsum
    have hsum' : l'.cuts.sum = 192 * (j + 1) := by
      rw [hcuts, List.sum_append, List.sum_singleton, hsum]
      omega
    obtain ⟨ftl'', pending'', l'', hF'', hcuts'⟩ := ih hF' r' (by omega) hsum'
    refine ⟨ftl'', pending'', l'', hF'', ?_⟩
    rw [hcuts', hcuts, List.append_assoc]
    rfl

end Pieces

/-- The first one-shot page of zone 0 in two pieces, on a namespace of 4 GiB. -/
def twoPieces (n : Nat) :
    Except Fault (SsdParams × ZnsFtl × (ZnsOutcome × Nat × List Nat) × ZnsOutcome × Nat × List Nat) := do
  let (spp, ftl) ← znsInitNamespace wdZn540 zeroedParams (2^32)
  let first ← znsWritePlainLogged (fun _ => 0) spp ftl (writeFrom 0 n) ⟨0, 0⟩
  let second ← znsWritePlainLogged (fun _ => 0) spp first.1.ftl (writeFrom n (192 - n)) ⟨0, 0⟩
  return (spp, ftl, first, second)

/-- Both writes succeed, and what the rest of the zone needs is there. -/
def twoPiecesOk (n : Nat) : Bool :=
  check (fun (spp, ftl, first, second) => first.1.accepted && second.1.accepted &&
    decide (first.1.ret.status = nvmeScSuccess) && decide (second.1.ret.status = nvmeScSuccess) &&
    !(ftl.zoneDescs 0).zrwav && !(first.1.ftl.zoneDescs 0).zrwav && !(second.1.ftl.zoneDescs 0).zrwav &&
    decide (zoneOf spp ftl (writeFrom 0 n).cmd = 0) &&
    decide (zoneOf spp first.1.ftl (writeFrom n (192 - n)).cmd = 0) &&
    decide (0 < ftl.zp.nrZones) && decide (0 < first.1.ftl.zp.nrZones) &&
    decide ((ftl.zoneDescs 0).wp = (ftl.zoneDescs 0).zslba) &&
    decide ((second.1.ftl.zoneDescs 0).state = .openedImpl) &&
    decide ((second.1.ftl.zoneWriteBuffer 0).remaining = 884736) &&
    decide (second.1.ftl.zp.zoneWbSize ≠ 0) && decide (second.1.ftl.zp.diesPerZone = 32) &&
    decide (spp.nchs = 8) && decide (spp.lunsPerCh = 4) && decide (spp.ttLuns = 32) &&
    decide (spp.writeUnitSize = 512)) (twoPieces n)

theorem twoPieces_fills {n : Nat} (hn : 0 < n) (hn' : n < 192) (h : twoPiecesOk n = true) :
    ∃ spp ftl pending l, ZoneFilling (fun _ => 0) wdZn540 zeroedParams (2^32) spp 0 ftl pending l ∧
      l.cuts = n :: (192 - n) :: (List.replicate 21844 192 ++ [64]) ∧ l.cuts.sum = lbasPerZone ftl.zp := by
  obtain ⟨r, hr, hp⟩ := exists_of_check h
  unfold twoPieces at hr
  obtain ⟨⟨spp, ftl⟩, hinit, hr⟩ := bind_eq_ok.mp hr
  obtain ⟨⟨out, bytes, programs⟩, hfirst, hr⟩ := bind_eq_ok.mp hr
  obtain ⟨⟨out', bytes', programs'⟩, hsecond, hr⟩ := bind_eq_ok.mp hr
  cases hr
  simp only [Bool.and_eq_true, decide_eq_true_eq, Bool.not_eq_true'] at hp
  obtain ⟨⟨⟨⟨⟨⟨⟨⟨⟨⟨⟨⟨⟨⟨⟨⟨⟨⟨⟨acc, acc'⟩, hst⟩, hst'⟩, hv⟩, hv'⟩, hv''⟩, hzone⟩, hzone'⟩, hz⟩, hz'⟩, hempty⟩,
    hopen⟩, hroom⟩, hwb⟩, hdies⟩, hnchs⟩, hluns⟩, htt⟩, hunit⟩ := hp
  have h₀ : ZnsReachable (fun _ => 0) wdZn540 zeroedParams (2^32) spp (fun _ _ => True) ftl := .init hinit
  have hF₀ : ZoneFilling (fun _ => 0) wdZn540 zeroedParams (2^32) spp 0 ftl [] ⟨[], [], [], []⟩ :=
    .start h₀ hz hempty
  obtain ⟨leak, k⟩ := h₀.ok
  have hlen : n - 1 < 2^16 := by omega
  have hlen' : 192 - n - 1 < 2^16 := by omega
  have hF₁ := hF₀.write hlen (.inl rfl) hzone hv
    (writeFrom_proc k hzone hv hz hfirst) hfirst acc hst
  obtain ⟨leak', k'⟩ := hF₁.reachable.1.ok
  have hF₂ := hF₁.write hlen' (.inl rfl) hzone' hv'
    (writeFrom_proc k' hzone' hv' hz' hsecond) hsecond acc' hst'
  have hcuts : (((⟨[], [], [], []⟩ : FillLog).add (nrLbasFromRwCmd (writeFrom 0 n).cmd) bytes programs
      out.calls).add (nrLbasFromRwCmd (writeFrom n (192 - n)).cmd) bytes' programs' out'.calls).cuts =
      [n, 192 - n] := by
    rw [writeFrom_lbas 0 hn, writeFrom_lbas n (Nat.sub_pos_of_lt hn')]
    rfl
  obtain ⟨hdiv, hrated, hperf⟩ := znsInitNamespace_sound
    (znsConfigs_sound (List.mem_cons_of_mem _ (List.mem_singleton_self _))) hinit
  have hready : ReadyToFill spp out'.ftl := {
    dies := ⟨hnchs, hluns, htt, hdies, hunit, hrated.xfer⟩
    opened := .inl hopen
    plain := hv''
    room := by
      rw [hroom]
      decide
    fits := by
      rw [hroom]
      decide
    perf := znsWritePlainLogged_perfOk (znsWritePlainLogged_perfOk hperf hrated.xfer hfirst) hrated.xfer
      hsecond
    wb := hwb }
  obtain ⟨m, hm⟩ : ∃ m, m = 21844 := ⟨_, rfl⟩
  rw [← hm]
  obtain ⟨ftl', pending, l, hF, hl⟩ := hF₂.rest (by decide) hready (j := 1) (m := m) (by omega) (by
    rw [hcuts, List.sum_cons, List.sum_singleton]
    omega)
  rw [hcuts] at hl
  refine ⟨spp, ftl', pending, l, hF, hl, ?_⟩
  rw [hF.reachable.1.zn540.lbasPerZone_eq, hl, List.sum_append, List.sum_append, List.sum_replicate,
    List.sum_cons,
    List.sum_singleton, List.sum_singleton, smul_eq_mul]
  omega

/-- A zone written in pieces of whole pages. -/
theorem filled_exactly_pages : ∃ spp ftl pending l,
    ZoneFilling (fun _ => 0) wdZn540 zeroedParams (2^32) spp 0 ftl pending l ∧
      l.cuts = 184 :: 8 :: (List.replicate 21844 192 ++ [64]) ∧ FilledExactly spp ftl.zp 0 l := by
  obtain ⟨spp, ftl, pending, l, h, hcuts, hwhole⟩ := twoPieces_fills (n := 184) (by decide) (by decide)
    (by decide +kernel)
  refine ⟨spp, ftl, pending, l, h, hcuts, (filled_exactly_iff h (by decide) hwhole).mpr ⟨?_, ?_⟩⟩
  · rw [h.reachable.1.zn540.lbasPerZone_eq]
    decide
  · intro i _ hsplit
    have hedge := hsplit.1
    rw [h.reachable.1.zn540.secsPerPg] at hedge
    refine hedge (Nat.mod_eq_zero_of_dvd (List.dvd_sum fun n hn => ?_))
    have hmem := List.mem_of_mem_take hn
    rw [hcuts] at hmem
    simp only [List.mem_cons, List.mem_append, List.mem_replicate, List.not_mem_nil, or_false] at hmem
    omega

/-- The second write starts inside page 23, and the first one-shot page is programmed twice. -/
theorem last_page_programmed_twice : ∃ spp ftl pending l,
    ZoneFilling (fun _ => 0) wdZn540 zeroedParams (2^32) spp 0 ftl pending l ∧
      l.cuts = 188 :: 4 :: (List.replicate 21844 192 ++ [64]) ∧ l.cuts.sum = lbasPerZone ftl.zp ∧
      (l.programs.map (shotOf spp ftl.zp 0)).count 0 ≠ 1 ∧ ¬ FilledExactly spp ftl.zp 0 l := by
  obtain ⟨spp, ftl, pending, l, h, hcuts, hwhole⟩ := twoPieces_fills (n := 188) (by decide) (by decide)
    (by decide +kernel)
  have g := h.reachable.1.zn540
  have hsum := hwhole
  rw [g.lbasPerZone_eq] at hsum
  obtain ⟨hshots, -⟩ := (h.filled (by decide) hsum.le).shots (by decide)
  have htwice : (l.programs.map (shotOf spp ftl.zp 0)).count 0 ≠ 1 := by
    intro hone
    have hlen : 1 < l.cuts.length := by
      rw [hcuts, List.length_cons, List.length_cons]
      omega
    have hfirst : (l.cuts.take 1).sum = 188 := by
      rw [hcuts, List.take_succ_cons, List.take_zero, List.sum_singleton]
    have hin := (hshots.once 0 (by decide)).mp hone.le 1 hlen
    rw [hfirst] at hin
    exact hin (by unfold InsideLast lastPage; decide)
  refine ⟨spp, ftl, pending, l, h, hcuts, hwhole, htwice, fun k => htwice ?_⟩
  have hshots' : divRoundUp (pagesPerZone ftl.zp) spp.pgsPerOneshotpg = 21846 := by
    rw [g.pagesPerZone_eq, g.oneshot]
    decide
  have hperm := k.programs
  rw [hshots'] at hperm
  rw [hperm.count_eq, List.nodup_range.count, if_pos (List.mem_range.mpr (by decide))]

end NVMeVirt
