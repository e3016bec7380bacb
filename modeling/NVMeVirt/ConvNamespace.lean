import NVMeVirt.ConvFtl

/-!
# A conventional namespace: partitions and commands

The command handlers of `conv_ftl.c` over all partitions. The PCIe link, the write buffer
and the clock are shared: `load` gives a partition its view of them, `store` writes the
view back. `schedule_internal_operation` returns nothing to the handler, so the handler
yields the list of its calls in order.
-/

namespace NVMeVirt
set_option autoImplicit false
open Outcome

inductive Csi where
  | nvm
  | kv
  | zns
  deriving Repr, DecidableEq

inductive NvmeOpcode where
  | write
  | read
  | flush
  | printCmt
  | other
  deriving Repr, DecidableEq

structure NvmeCommand where
  opcode : NvmeOpcode
  slba : Nat
  length : Nat
  fua : Bool
  deriving Repr, DecidableEq

structure NvmevRequest where
  cmd : NvmeCommand
  sqId : Nat
  nsecsStart : Nat
  deriving Repr, DecidableEq

structure NvmevResult where
  status : Nat
  nsecsTarget : Nat
  deriving Repr, DecidableEq

def nvmeScSuccess : Nat := 0

/-- One call of `schedule_internal_operation`: the bytes go back to the write buffer. -/
structure InternalOp where
  sqid : Nat
  nsecsTarget : Nat
  buffsToRelease : Nat
  deriving Repr, DecidableEq

structure ConvNs where
  csi : Csi
  nrParts : Nat
  size : Nat
  ftls : Nat → ConvFtl
  pcie : ChannelModel
  writeBuffer : Buffer
  ticks : Nat

namespace ConvNs

def load (ns : ConvNs) (i : Nat) : ConvFtl :=
  let f := ns.ftls i
  { f with ssd := { f.ssd with pcie := ns.pcie, ticks := ns.ticks } }

def store (ns : ConvNs) (i : Nat) (f : ConvFtl) : ConvNs :=
  { ns with ftls := Function.update ns.ftls i f, pcie := f.ssd.pcie, ticks := f.ssd.ticks }

end ConvNs

def convInitParams (cfg : SsdConfig) : ConvParams where
  gcThresLines := 8
  gcThresLinesHigh := 8
  enableGcDelay := true
  pbaPcent := 100 + cfg.opAreaHundredths

variable (clk : Nat → Nat) (spp : SsdParams) (cpp : ConvParams)

/-- Partitions are initialised one after the other; all of them share the first one's PCIe
link and write buffer. -/
def convInitFtls (mem : Nat → Leftover) (n : Nat) : Except Fault (Nat → ConvFtl) :=
  upto (fun i ftls => do
    let f ← convInitFtl spp (mem i) (ssdInit spp)
    return Function.update ftls i f) n
    (fun _ => default)

def convNsSize (cpp : ConvParams) (size : Nat) : Nat := u64 (size * 100) / cpp.pbaPcent

def convInitNamespace (cfg : SsdConfig) (mem : Nat → Leftover) (size : Nat) :
    Except Fault (SsdParams × ConvNs) := do
  let spp ← ssdInitParams cfg size cfg.ssdPartitions
  let cpp := convInitParams cfg
  let ftls ← convInitFtls spp mem cfg.ssdPartitions
  return (spp, {
    csi := .nvm
    nrParts := cfg.ssdPartitions
    size := convNsSize cpp size
    ftls := ftls
    pcie := chmodelInit spp.pcieBandwidth
    writeBuffer := bufferInit spp.writeBufferSize
    ticks := 0 })

def nrLba (cmd : NvmeCommand) : Nat := cmd.length + 1
def startLpn (cmd : NvmeCommand) : Nat := cmd.slba / spp.secsPerPg
def endLpn (cmd : NvmeCommand) : Nat := u64 (cmd.slba + nrLba cmd - 1) / spp.secsPerPg

def isSameFlashPage (ppa1 ppa2 : Ppa) : Bool :=
  ppa1.addr == ppa2.addr && ppa1.pg / spp.pgsPerFlashpg == ppa2.pg / spp.pgsPerFlashpg

/-- The local variables of the read loop, with the NAND commands issued so far. -/
structure ReadState where
  ssd : Ssd
  xferSize : Nat
  prevPpa : Ppa
  nsecsLatest : Nat
  issued : List NandCmd

def issueRead (stime : Nat) (r : ReadState) : Except Fault ReadState := do
  let srd : NandCmd :=
    { type := .user, cmd := .read, xferSize := r.xferSize, stime := stime,
      interleavePciDma := true, ppa := r.prevPpa }
  let (ssd, nsecsCompleted) ← ssdAdvanceNand clk spp r.ssd srd
  return { r with ssd := ssd, nsecsLatest := max nsecsCompleted r.nsecsLatest,
                  issued := r.issued ++ [srd] }

def readOnePage (f : ConvFtl) (stime localLpn : Nat) (r : ReadState) : Except Fault ReadState := do
  let curPpa ← getMaptblEnt spp f localLpn
  if mappedPpa curPpa = false ∨ ¬ validPpa spp curPpa then return r
  if mappedPpa r.prevPpa = true ∧ isSameFlashPage spp curPpa r.prevPpa = true then
    return { r with xferSize := r.xferSize + spp.pgsz }
  let r ← if 0 < r.xferSize then issueRead clk spp stime r else pure r
  return { r with xferSize := spp.pgsz, prevPpa := curPpa }

/-- The pages `start_lpn, start_lpn + nr_parts, ..` of one partition. -/
def readPart (ns : ConvNs) (stime start last nsecsLatest : Nat) :
    Except Fault (ConvNs × Nat × List NandCmd) := do
  let part := start % ns.nrParts
  let f := ns.load part
  let prevPpa ← getMaptblEnt spp f (start / ns.nrParts)
  let r ← upto (fun k r => readOnePage clk spp f stime ((start + k * ns.nrParts) / ns.nrParts) r)
    ((last - start) / ns.nrParts + 1) ⟨f.ssd, 0, prevPpa, nsecsLatest, []⟩
  let r ← if 0 < r.xferSize then issueRead clk spp stime r else pure r
  return (ns.store part { f with ssd := r.ssd }, r.nsecsLatest, r.issued)

/-- Returns `none` when the command is refused. -/
def convRead (ns : ConvNs) (req : NvmevRequest) : Except Fault (Option (ConvNs × NvmevResult)) := do
  let first := startLpn spp req.cmd
  let last := endLpn spp req.cmd
  if ns.nrParts = 0 then .error .divideError
  if spp.ttPgs ≤ last / ns.nrParts then return none
  let lat := if lbaToByte (nrLba req.cmd) ≤ kb 4 * ns.nrParts then spp.fw4kbRdLat else spp.fwRdLat
  let stime := u64 (req.nsecsStart + lat)
  let (ns, nsecsLatest) ← upto (fun i (ns, nsecsLatest) =>
    if first + i ≤ last then do
      let (ns, nsecsLatest, _) ← readPart clk spp ns stime (first + i) last nsecsLatest
      return (ns, nsecsLatest)
    else return (ns, nsecsLatest)) ns.nrParts (ns, req.nsecsStart)
  return some (ns, ⟨nvmeScSuccess, nsecsLatest⟩)

/-- The local variables of the write loop, with the internal operations scheduled so far. -/
structure WriteState where
  ns : ConvNs
  nsecsLatest : Nat
  ops : List InternalOp

def writeOneLpn (req : NvmevRequest) (stime lpn : Nat) (w : WriteState) : Except Fault WriteState := do
  let part := lpn % w.ns.nrParts
  let (f, ppa) ← convWritePage spp (w.ns.load part) (lpn / w.ns.nrParts)
  if lastPgInWordline spp ppa then
    let (ssd, nsecsCompleted) ← ssdAdvanceNand clk spp f.ssd
      { type := .user, cmd := .write, xferSize := spp.pgsz * spp.pgsPerOneshotpg, stime := stime,
        interleavePciDma := false, ppa := ppa }
    return { ns := w.ns.store part { f with ssd := ssd }
             nsecsLatest := max nsecsCompleted w.nsecsLatest
             ops := w.ops ++ [⟨req.sqId, nsecsCompleted, spp.pgsPerOneshotpg * spp.pgsz⟩] }
  else return { w with ns := w.ns.store part f }

/-- The page loop of `conv_write`, from `first` to `last`. -/
def writeLpns (req : NvmevRequest) (stime first last : Nat) (w : WriteState) :
    Except Fault WriteState :=
  upto (fun k => writeOneLpn clk spp req stime (first + k)) (last + 1 - first) w

def convWrite (ns : ConvNs) (req : NvmevRequest) :
    Except Fault (Option (ConvNs × NvmevResult × List InternalOp)) := do
  let first := startLpn spp req.cmd
  let last := endLpn spp req.cmd
  let bytes := lbaToByte (nrLba req.cmd)
  if ns.nrParts = 0 then .error .divideError
  if spp.ttPgs ≤ last / ns.nrParts then return none
  let (wbuf, allocated) := bufferAllocate ns.writeBuffer bytes
  if allocated < bytes then return none
  let ns := { ns with writeBuffer := wbuf }
  let f := ns.load 0
  let (ssd, nsecsXferCompleted) ← ssdAdvanceWriteBuffer clk spp f.ssd req.nsecsStart bytes
  let ns := ns.store 0 { f with ssd := ssd }
  let w ← writeLpns clk spp req nsecsXferCompleted first last ⟨ns, nsecsXferCompleted, []⟩
  let target :=
    if req.cmd.fua || !spp.writeEarlyCompletion then w.nsecsLatest else nsecsXferCompleted
  return some (w.ns, ⟨nvmeScSuccess, target⟩, w.ops)

def flushPart (i : Nat) (p : ConvNs × Nat) : ConvNs × Nat :=
  let f := p.1.load i
  let (ssd, idle) := ssdNextIdleTime clk spp f.ssd
  (p.1.store i { f with ssd := ssd }, max p.2 idle)

def convFlush (ns : ConvNs) : ConvNs × NvmevResult :=
  let start := clk ns.ticks
  let (ns, latest) := (List.range ns.nrParts).foldl (fun p i => flushPart clk spp i p)
    ({ ns with ticks := ns.ticks + 1 }, start)
  (ns, ⟨nvmeScSuccess, latest⟩)

/-- What a command handler gives back: `accepted = false` is the C `return false`. -/
structure ProcOutcome where
  accepted : Bool
  ns : ConvNs
  ret : NvmevResult
  ops : List InternalOp

/-- The `switch` of `conv_proc_nvme_io_cmd`; `none` is its `return false`. -/
def convDispatch (ns : ConvNs) (req : NvmevRequest) (ret : NvmevResult) :
    Except Fault (Option (ConvNs × NvmevResult × List InternalOp)) :=
  match req.cmd.opcode with
  | .write => convWrite clk spp ns req
  | .read => do
    match ← convRead clk spp ns req with
    | none => return none
    | some (ns, ret) => return some (ns, ret, [])
  | .flush =>
    let (ns, ret) := convFlush clk spp ns
    .ok (some (ns, ret, []))
  | .printCmt => .ok (some (ns, ret, []))
  | .other => .ok (some (ns, ret, []))

/-- The GC loop that ends every accepted command runs on the first partition. `fuel` bounds
the turns of that loop only. -/
def convProcNvmeIoCmd (fuel : Nat) (ns : ConvNs) (req : NvmevRequest) (ret : NvmevResult) :
    Except Fault ProcOutcome := do
  nvmevAssert (ns.csi = .nvm)
  match ← convDispatch clk spp ns req ret with
  | none => return ⟨false, ns, ret, []⟩
  | some (ns, ret, ops) =>
    let f ← gcWhileHigh clk spp cpp fuel (ns.load 0)
    return ⟨true, ns.store 0 f, ret, ops⟩

end NVMeVirt
