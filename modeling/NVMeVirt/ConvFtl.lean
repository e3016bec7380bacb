import NVMeVirt.Ssd
import NVMeVirt.PQueue

/-!
# The conventional flash translation layer

`conv_ftl.c`: page mapping over lines (one block of every die), two write pointers, and
greedy garbage collection. A line is referred to by its index in `lines`; the intrusive
lists are lists of such indices. Loops that the source does not bound take the number of
turns as an argument.
-/

namespace NVMeVirt
set_option autoImplicit false
open Outcome

structure ConvParams where
  gcThresLines : Nat
  gcThresLinesHigh : Nat
  enableGcDelay : Bool
  pbaPcent : Nat
  deriving Repr, DecidableEq

structure Line where
  id : Nat
  ipc : Nat
  vpc : Nat
  pos : Nat
  deriving Repr, DecidableEq, Inhabited

structure WritePointer where
  curline : Nat
  ch : Nat
  lun : Nat
  pg : Nat
  blk : Nat
  pl : Nat
  deriving Repr, DecidableEq, Inhabited

structure LineMgmt where
  lines : Nat → Line
  freeLineList : List Nat
  victimLinePq : PQueue Nat
  fullLineList : List Nat
  ttLines : Nat
  freeLineCnt : Nat
  victimLineCnt : Nat
  fullLineCnt : Nat
  deriving Inhabited

structure WriteFlowControl where
  writeCredits : Nat
  creditsToRefill : Nat
  deriving Repr, DecidableEq, Inhabited

structure ConvFtl where
  ssd : Ssd
  maptbl : Nat → Ppa
  rmap : Nat → Nat
  wp : WritePointer
  gcWp : WritePointer
  lm : LineMgmt
  wfc : WriteFlowControl
  gcCnt : Nat
  deriving Inhabited

/-- What `vmalloc` and `kmalloc` leave in the tables before they are initialised. -/
structure Leftover where
  maptbl : Nat → Ppa
  rmap : Nat → Nat
  pq : Nat → Nat

def LineMgmt.setLine (lm : LineMgmt) (i : Nat) (line : Line) : LineMgmt :=
  { lm with lines := Function.update lm.lines i line }

def ConvFtl.setBlk (s : ConvFtl) (ppa : Ppa) (blk : NandBlock) : ConvFtl :=
  { s with ssd := { s.ssd with blk := Function.update s.ssd.blk ppa.addr blk } }

/-- `victim_line_cmp_pri` and the other callbacks of the victim queue. -/
def victimLineOps : PQueueOps (Nat → Line) Nat where
  cmppri next curr := decide (curr < next)
  getpri lines x := (lines x).vpc
  setpri lines x pri := Function.update lines x { lines x with vpc := pri }
  getpos lines x := (lines x).pos
  setpos lines x pos := Function.update lines x { lines x with pos := pos }

variable (clk : Nat → Nat) (spp : SsdParams) (cpp : ConvParams)

def lastPgInWordline (ppa : Ppa) : Bool :=
  ppa.pg % spp.pgsPerOneshotpg == spp.pgsPerOneshotpg - 1

def shouldGcHigh (s : ConvFtl) : Bool := s.lm.freeLineCnt ≤ cpp.gcThresLinesHigh

def validPpa (ppa : Ppa) : Prop :=
  ppa.ch < spp.nchs ∧ ppa.lun < spp.lunsPerCh ∧ ppa.pl < spp.plsPerLun ∧
    ppa.blk < spp.blksPerPl ∧ ppa.pg < spp.pgsPerBlk

instance (ppa : Ppa) : Decidable (validPpa spp ppa) := by
  unfold validPpa
  infer_instance

def validLpn (lpn : Nat) : Prop := lpn < spp.ttPgs

instance (lpn : Nat) : Decidable (validLpn spp lpn) := by
  unfold validLpn
  infer_instance

def mappedPpa (ppa : Ppa) : Bool := !(ppa == unmappedPpa)

def getMaptblEnt (s : ConvFtl) (lpn : Nat) : Except Fault Ppa :=
  if lpn < spp.ttPgs then .ok (s.maptbl lpn) else .error .badAddress

def setMaptblEnt (s : ConvFtl) (lpn : Nat) (ppa : Ppa) : Except Fault ConvFtl := do
  nvmevAssert (lpn < spp.ttPgs)
  return { s with maptbl := Function.update s.maptbl lpn ppa }

def ppa2pgidx (ppa : Ppa) : Except Fault Nat := do
  let pgidx := u64 (ppa.ch * spp.pgsPerCh + ppa.lun * spp.pgsPerLun + ppa.pl * spp.pgsPerPl +
    ppa.blk * spp.pgsPerBlk + ppa.pg)
  nvmevAssert (pgidx < spp.ttPgs)
  return pgidx

def getRmapEnt (s : ConvFtl) (ppa : Ppa) : Except Fault Nat := do
  let pgidx ← ppa2pgidx spp ppa
  return s.rmap pgidx

def setRmapEnt (s : ConvFtl) (lpn : Nat) (ppa : Ppa) : Except Fault ConvFtl := do
  let pgidx ← ppa2pgidx spp ppa
  return { s with rmap := Function.update s.rmap pgidx lpn }

/-- `get_pg`; the five indices must be inside the arrays that `ssd_init` allocated. -/
def getPg (s : ConvFtl) (ppa : Ppa) : Except Fault NandPage :=
  if validPpa spp ppa then .ok ((s.ssd.blk ppa.addr).pg ppa.pg) else .error .badAddress

def initLines (mem : Leftover) : Except Fault LineMgmt := do
  nvmevAssert (spp.blksPerPl = spp.ttLines)
  return {
    lines := fun i => ⟨i, 0, 0, 0⟩
    freeLineList := List.range spp.blksPerPl
    victimLinePq := PQueue.pqueueInit spp.ttLines mem.pq
    fullLineList := []
    ttLines := spp.blksPerPl
    freeLineCnt := spp.blksPerPl
    victimLineCnt := 0
    fullLineCnt := 0 }

def getNextFreeLine (lm : LineMgmt) : Option (Nat × LineMgmt) :=
  match lm.freeLineList with
  | [] => none
  | curline :: rest => some (curline, { lm with freeLineList := rest, freeLineCnt := lm.freeLineCnt - 1 })

def getWp (s : ConvFtl) : IoType → WritePointer
  | .user => s.wp
  | .gc => s.gcWp

def setWp (s : ConvFtl) (io : IoType) (wp : WritePointer) : ConvFtl :=
  match io with
  | .user => { s with wp := wp }
  | .gc => { s with gcWp := wp }

def prepareWritePointer (s : ConvFtl) (io : IoType) : Except Fault ConvFtl :=
  match getNextFreeLine s.lm with
  | none => .error .assertion
  | some (curline, lm) => .ok (setWp { s with lm := lm } io
      { curline := curline, ch := 0, lun := 0, pg := 0, blk := (lm.lines curline).id, pl := 0 })

def checkAddr (a bound : Nat) : Except Fault Unit := nvmevAssert (a < bound)

/-- `advance_write_pointer` gives a used-up line to the full list or to the victim queue. -/
def shelveLine (lm : LineMgmt) (i : Nat) : Except Fault LineMgmt := do
  let line := lm.lines i
  if line.vpc = spp.pgsPerLine then
    nvmevAssert (line.ipc = 0)
    return { lm with fullLineList := lm.fullLineList ++ [i], fullLineCnt := lm.fullLineCnt + 1 }
  else
    nvmevAssert (line.vpc < spp.pgsPerLine)
    nvmevAssert (0 < line.ipc)
    let (pq, lines) ← PQueue.pqueueInsert victimLineOps lm.victimLinePq lm.lines i
    return { lm with victimLinePq := pq, lines := lines, victimLineCnt := lm.victimLineCnt + 1 }

/-- The part of `advance_write_pointer` that is reached when a line is used up: a clean one
takes its place. -/
def closeLine (s : ConvFtl) (io : IoType) (wpp : WritePointer) : Except Fault ConvFtl := do
  let lm ← shelveLine spp s.lm wpp.curline
  checkAddr wpp.blk spp.blksPerPl
  match getNextFreeLine lm with
  | none => .error .nullLine
  | some (curline, lm) => do
    let blk := (lm.lines curline).id
    checkAddr blk spp.blksPerPl
    nvmevAssert (wpp.pg = 0)
    nvmevAssert (wpp.lun = 0)
    nvmevAssert (wpp.ch = 0)
    nvmevAssert (wpp.pl = 0)
    return setWp { s with lm := lm } io { wpp with curline := curline, blk := blk }

def advanceWritePointer (s : ConvFtl) (io : IoType) : Except Fault ConvFtl := do
  let wpp := getWp s io
  checkAddr wpp.pg spp.pgsPerBlk
  let wpp := { wpp with pg := wpp.pg + 1 }
  if wpp.pg % spp.pgsPerOneshotpg ≠ 0 then return setWp s io wpp
  let wpp := { wpp with pg := wpp.pg - spp.pgsPerOneshotpg }
  checkAddr wpp.ch spp.nchs
  let wpp := { wpp with ch := wpp.ch + 1 }
  if wpp.ch ≠ spp.nchs then return setWp s io wpp
  let wpp := { wpp with ch := 0 }
  checkAddr wpp.lun spp.lunsPerCh
  let wpp := { wpp with lun := wpp.lun + 1 }
  if wpp.lun ≠ spp.lunsPerCh then return setWp s io wpp
  let wpp := { wpp with lun := 0, pg := wpp.pg + spp.pgsPerOneshotpg }
  if wpp.pg ≠ spp.pgsPerBlk then return setWp s io wpp
  closeLine spp s io { wpp with pg := 0 }

/-- The fields of the write pointer are stored into the bit fields of the address. -/
def getNewPage (s : ConvFtl) (io : IoType) : Except Fault Ppa := do
  let wp := getWp s io
  let ppa : Ppa :=
    { ch := wp.ch % 2^chBits, lun := wp.lun % 2^lunBits, pg := wp.pg % 2^pageBits,
      blk := wp.blk % 2^blkBits, pl := wp.pl % 2^plBits, rsv := 0 }
  nvmevAssert (ppa.pl = 0)
  return ppa

/-- The loop counter of `init_maptbl` is an `int`: from `2^31` entries on the counter turns
negative, compares as a huge unsigned number, and the rest of the table keeps its old contents. -/
def initMaptbl (mem : Leftover) : Nat → Ppa :=
  fun i => if i < min spp.ttPgs (2^31) then unmappedPpa else mem.maptbl i

def initRmap (mem : Leftover) : Nat → Nat :=
  fun i => if i < min spp.ttPgs (2^31) then invalidLpn else mem.rmap i

def convInitFtl (mem : Leftover) (ssd : Ssd) : Except Fault ConvFtl := do
  let lm ← initLines spp mem
  let unset : WritePointer := ⟨0, 0, 0, 0, 0, 0⟩
  let s : ConvFtl :=
    { ssd := ssd, maptbl := initMaptbl spp mem, rmap := initRmap spp mem, wp := unset, gcWp := unset,
      lm := lm, wfc := ⟨spp.pgsPerLine, spp.pgsPerLine⟩, gcCnt := 0 }
  let s ← prepareWritePointer s .user
  prepareWritePointer s .gc

/-- `list_del_init` takes the line out of whichever list it is on. -/
def listDelInit (lm : LineMgmt) (i : Nat) : LineMgmt :=
  { lm with freeLineList := lm.freeLineList.erase i, fullLineList := lm.fullLineList.erase i }

/-- The last part of `mark_page_invalid`: the counters of the line, which moves from the
full list to the victim queue with its first invalid page. -/
def invalidateLine (lm : LineMgmt) (i : Nat) : Except Fault LineMgmt := do
  let line := lm.lines i
  nvmevAssert (line.ipc < spp.pgsPerLine)
  let wasFullLine := line.vpc == spp.pgsPerLine
  if wasFullLine then nvmevAssert (line.ipc = 0)
  let line := { line with ipc := line.ipc + 1 }
  let lm := lm.setLine i line
  nvmevAssert (0 < line.vpc ∧ line.vpc ≤ spp.pgsPerLine)
  let lm :=
    if line.pos ≠ 0 then
      let (pq, lines) :=
        PQueue.pqueueChangePriority victimLineOps lm.victimLinePq lm.lines (line.vpc - 1) i
      { lm with victimLinePq := pq, lines := lines }
    else lm.setLine i { line with vpc := line.vpc - 1 }
  if wasFullLine then
    let lm := listDelInit lm i
    let lm := { lm with fullLineCnt := lm.fullLineCnt - 1 }
    let (pq, lines) ← PQueue.pqueueInsert victimLineOps lm.victimLinePq lm.lines i
    return { lm with victimLinePq := pq, lines := lines, victimLineCnt := lm.victimLineCnt + 1 }
  else return lm

def markPageInvalid (s : ConvFtl) (ppa : Ppa) : Except Fault ConvFtl := do
  let pg ← getPg spp s ppa
  nvmevAssert (pg.status = .valid)
  let blk := s.ssd.blk ppa.addr
  let blk := { blk with pg := Function.update blk.pg ppa.pg { pg with status := .invalid } }
  nvmevAssert (blk.ipc < spp.pgsPerBlk)
  nvmevAssert (0 < blk.vpc ∧ blk.vpc ≤ spp.pgsPerBlk)
  let s := s.setBlk ppa { blk with ipc := blk.ipc + 1, vpc := blk.vpc - 1 }
  if spp.blksPerPl ≤ ppa.blk then .error .badAddress
  let lm ← invalidateLine spp s.lm ppa.blk
  return { s with lm := lm }

def markPageValid (s : ConvFtl) (ppa : Ppa) : Except Fault ConvFtl := do
  let pg ← getPg spp s ppa
  nvmevAssert (pg.status = .free)
  let blk := s.ssd.blk ppa.addr
  let blk := { blk with pg := Function.update blk.pg ppa.pg { pg with status := .valid } }
  nvmevAssert (blk.vpc < spp.pgsPerBlk)
  let s := s.setBlk ppa { blk with vpc := blk.vpc + 1 }
  if spp.blksPerPl ≤ ppa.blk then .error .badAddress
  let line := s.lm.lines ppa.blk
  nvmevAssert (line.vpc < spp.pgsPerLine)
  return { s with lm := s.lm.setLine ppa.blk { line with vpc := line.vpc + 1 } }

def markBlockFree (s : ConvFtl) (ppa : Ppa) : Except Fault ConvFtl := do
  let blk := s.ssd.blk ppa.addr
  nvmevAssert (∀ i < spp.pgsPerBlk, (blk.pg i).nsecs = spp.secsPerPg)
  nvmevAssert (blk.npgs = spp.pgsPerBlk)
  return s.setBlk ppa { blk with
    pg := fun i => if i < spp.pgsPerBlk then { blk.pg i with status := .free } else blk.pg i
    ipc := 0
    vpc := 0
    eraseCnt := blk.eraseCnt + 1 }

/-- The five calls that `conv_write` and `gc_write_page` have in common: the next page of
the write pointer is given to `lpn`. -/
def writeNewPage (s : ConvFtl) (io : IoType) (lpn : Nat) : Except Fault (ConvFtl × Ppa) := do
  let ppa ← getNewPage s io
  let s ← setMaptblEnt spp s lpn ppa
  let s ← setRmapEnt spp s lpn ppa
  let s ← markPageValid spp s ppa
  let s ← advanceWritePointer spp s io
  return (s, ppa)

/-- Issues a NAND command and drops its completion time. -/
def nandDelay (s : ConvFtl) (ncmd : NandCmd) : Except Fault ConvFtl := do
  if cpp.enableGcDelay then
    let (ssd, _) ← ssdAdvanceNand clk spp s.ssd ncmd
    return { s with ssd := ssd }
  else return s

def gcWritePage (s : ConvFtl) (oldPpa : Ppa) : Except Fault ConvFtl := do
  let lpn ← getRmapEnt spp s oldPpa
  nvmevAssert (validLpn spp lpn)
  let (s, newPpa) ← writeNewPage spp s .gc lpn
  let last := lastPgInWordline spp newPpa
  nandDelay clk spp cpp s {
    type := .gc
    cmd := if last then .write else .nop
    xferSize := if last then spp.pgsz * spp.pgsPerOneshotpg else 0
    stime := 0
    interleavePciDma := false
    ppa := newPpa }

def selectVictimLine (s : ConvFtl) (force : Bool) : Option (Nat × ConvFtl) :=
  match PQueue.pqueuePeek s.lm.victimLinePq with
  | none => none
  | some victim =>
    if !force && spp.pgsPerLine / 8 < (s.lm.lines victim).vpc then none
    else
      match PQueue.pqueuePop victimLineOps s.lm.victimLinePq s.lm.lines with
      | none => none
      | some (_, pq, lines) =>
        some (victim, { s with lm := { s.lm with
          victimLinePq := pq
          lines := Function.update lines victim { lines victim with pos := 0 }
          victimLineCnt := s.lm.victimLineCnt - 1 } })

/-- `ppa` after `i` increments of its page field. -/
def Ppa.incPg (ppa : Ppa) (i : Nat) : Ppa := { ppa with pg := (ppa.pg + i) % 2^pageBits }

/-- The first loop of `clean_one_flashpg`. -/
def countFlashpg (s : ConvFtl) (ppa : Ppa) : Except Fault Nat :=
  upto (fun i cnt => do
    let pg ← getPg spp s (ppa.incPg i)
    nvmevAssert (pg.status ≠ .free)
    return if pg.status = .valid then cnt + 1 else cnt) spp.pgsPerFlashpg 0

def cleanOneFlashpg (s : ConvFtl) (ppa : Ppa) : Except Fault ConvFtl := do
  let cnt ← countFlashpg spp s ppa
  if cnt = 0 then return s
  let s ← nandDelay clk spp cpp s {
    type := .gc
    cmd := .read
    xferSize := spp.pgsz * cnt
    stime := 0
    interleavePciDma := false
    ppa := ppa }
  upto (fun i s => do
    let pg ← getPg spp s (ppa.incPg i)
    if pg.status = .valid then gcWritePage clk spp cpp s (ppa.incPg i) else return s)
    spp.pgsPerFlashpg s

def markLineFree (s : ConvFtl) (ppa : Ppa) : Except Fault ConvFtl := do
  if spp.blksPerPl ≤ ppa.blk then .error .badAddress
  let lm := s.lm.setLine ppa.blk { s.lm.lines ppa.blk with ipc := 0, vpc := 0 }
  return { s with lm :=
    { lm with freeLineList := lm.freeLineList ++ [ppa.blk], freeLineCnt := lm.freeLineCnt + 1 } }

/-- The address that the three loop counters of `do_gc` give. -/
def gcPpa (line flashpg ch lun : Nat) : Ppa :=
  { ch := ch % 2^chBits, lun := lun % 2^lunBits, pl := 0, blk := line % 2^blkBits,
    pg := flashpg * spp.pgsPerFlashpg % 2^pageBits, rsv := 0 }

/-- The body of the innermost loop of `do_gc`: one flash page of one die, and the erase of
the block when it was the last one. -/
def gcOneFlashpg (line flashpg ch lun : Nat) (s : ConvFtl) : Except Fault ConvFtl := do
  let ppa := gcPpa spp line flashpg ch lun
  let s ← cleanOneFlashpg clk spp cpp s ppa
  if flashpg = spp.flashpgsPerBlk - 1 then
    let s ← markBlockFree spp s ppa
    let s ← nandDelay clk spp cpp s {
      type := .gc
      cmd := .erase
      xferSize := 0
      stime := 0
      interleavePciDma := false
      ppa := ppa }
    let lun := s.ssd.getLun ppa
    return { s with ssd := s.ssd.setLun ppa { lun with gcEndtime := lun.nextLunAvailTime } }
  else return s

def gcCopyBack (line : Nat) (s : ConvFtl) : Except Fault ConvFtl :=
  upto (fun flashpg => upto (fun ch => upto (fun lun =>
    gcOneFlashpg clk spp cpp line flashpg ch lun) spp.lunsPerCh) spp.nchs) spp.flashpgsPerBlk s

def doGc (s : ConvFtl) (force : Bool) : Except Fault (ConvFtl × Int) :=
  match selectVictimLine spp s force with
  | none => .ok (s, -1)
  | some (victim, s) => do
    let s := { s with gcCnt := s.gcCnt + 1 }
    let line := s.lm.lines victim
    let s := { s with wfc := { s.wfc with creditsToRefill := line.ipc } }
    let s ← gcCopyBack clk spp cpp line.id s
    let s ← markLineFree spp s (gcPpa spp line.id 0 0 0)
    return (s, 0)

/-- `while (should_gc_high(conv_ftl)) do_gc(conv_ftl, true);` in at most `fuel` turns. -/
def gcWhileHigh : Nat → ConvFtl → Except Fault ConvFtl
  | 0, s => if shouldGcHigh cpp s then .error .outOfFuel else .ok s
  | fuel + 1, s =>
    if shouldGcHigh cpp s then do
      let (s, _) ← doGc clk spp cpp s true
      gcWhileHigh fuel s
    else .ok s

/-- The old copy of a logical page that is written again. -/
def dropOldPage (s : ConvFtl) (ppa : Ppa) : Except Fault ConvFtl :=
  if mappedPpa ppa then do
    let s ← markPageInvalid spp s ppa
    setRmapEnt spp s invalidLpn ppa
  else .ok s

/-- What the loop of `conv_write` does to the tables for one logical page. -/
def convWritePage (s : ConvFtl) (localLpn : Nat) : Except Fault (ConvFtl × Ppa) := do
  let ppa ← getMaptblEnt spp s localLpn
  let s ← dropOldPage spp s ppa
  writeNewPage spp s .user localLpn

end NVMeVirt
