import NVMeVirt.IoCopy

/-!
# The key-value namespace

`kv_ftl.c` with the append-only allocator that `ssd_config.h` selects. `none` stands for the
`-1` of `mem_offset` and `next_slot`. `kv_init_namespace` counts the slots in an `int`, so a
slot number never is the `-1` of an `unsigned int`.
-/

namespace NVMeVirt
set_option autoImplicit false
open Outcome

def nvmeCmdKvStore : Nat := 0x81
def nvmeCmdKvRetrieve : Nat := 0x90
def nvmeCmdKvDelete : Nat := 0xA1
def nvmeCmdKvExist : Nat := 0xB3

def kvSuccess : Nat := 0
def kvErrKeyNotExist : Nat := 0x310

def smallLength : Nat := 1024
def kvcmdInlineKeyMax : Nat := 16

/-- `valueLen` counts words; `keyLen` is one less than the length of the key. -/
structure NvmeKvCommand where
  opcode : Nat
  prp1 : Nat
  prp2 : Nat
  valueLen : Nat
  keyLen : Nat
  key : List UInt8
  key_length : key.length = kvcmdInlineKeyMax
  deriving Repr, DecidableEq

def cmdKeyLength (cmd : NvmeKvCommand) : Nat := cmd.keyLen + 1

def cmdValueLength (cmd : NvmeKvCommand) : Nat := u32 (cmd.valueLen * 4)

/-- The bytes that hashing and `memcmp` read. The command holds no more than sixteen. -/
def cmdKey (cmd : NvmeKvCommand) : Except Fault (List UInt8) :=
  if cmdKeyLength cmd ≤ kvcmdInlineKeyMax then .ok (cmd.key.take (cmdKeyLength cmd)) else .error .badAddress

structure MappingEntry where
  key : List UInt8
  memOffset : Option Nat
  length : Nat
  nextSlot : Option Nat
  deriving Repr, DecidableEq

def kvMappingEntrySize : Nat := 48

/-- `memset(…, -1, sizeof(struct mapping_entry))`. -/
def MappingEntry.blank : MappingEntry := ⟨List.replicate 18 0xff, none, 2^64 - 1, none⟩

structure KvFtl where
  hashSlots : Nat
  hashSlots_int : hashSlots < 2^31
  kvMappingTable : Nat → MappingEntry

def KvFtl.entry (kv : KvFtl) (slot : Nat) : Except Fault MappingEntry :=
  if slot < kv.hashSlots then .ok (kv.kvMappingTable slot) else .error .badAddress

def KvFtl.setEntry (kv : KvFtl) (slot : Nat) (e : MappingEntry) : KvFtl :=
  { kv with kvMappingTable := Function.update kv.kvMappingTable slot e }

def hashFunction (key : List UInt8) : Nat :=
  key.foldl (fun h b => u32 (h * 16777619) ^^^ b.toNat) 2166136261

def getHashSlot (kv : KvFtl) (key : List UInt8) : Except Fault Nat := do
  let hashSlots ← divisor kv.hashSlots
  return hashFunction key % hashSlots

def chainMapping (kv : KvFtl) (prev slot : Nat) : KvFtl :=
  kv.setEntry prev { kv.kvMappingTable prev with nextSlot := some slot }

/-- The loop of `get_mapping_entry`, `update_mapping_entry` and `delete_mapping_entry`. -/
def searchChain (kv : KvFtl) (key : List UInt8) : Nat → Nat → Except Fault (Option Nat)
  | 0, _ => .error .outOfFuel
  | fuel + 1, slot => do
    let e ← kv.entry slot
    if e.memOffset = none then return none
    else if e.key.take key.length = key then return some slot
    else
      match e.nextSlot with
      | none => return none
      | some next => searchChain kv key fuel next

def searchKey (kv : KvFtl) (cmd : NvmeKvCommand) : Except Fault (Option Nat) := do
  let key ← cmdKey cmd
  let slot ← getHashSlot kv key
  searchChain kv key (kv.hashSlots + 1) slot

def getMappingEntry (kv : KvFtl) (cmd : NvmeKvCommand) : Except Fault MappingEntry := do
  match ← searchKey kv cmd with
  | none => return .blank
  | some slot =>
    let e := kv.kvMappingTable slot
    let n := cmdKeyLength cmd
    return { e with key := e.key.take n ++ MappingEntry.blank.key.drop n }

def updateMappingEntry (kv : KvFtl) (cmd : NvmeKvCommand) : Except Fault KvFtl := do
  match ← searchKey kv cmd with
  | none => return kv
  | some slot => return kv.setEntry slot { kv.kvMappingTable slot with length := cmdValueLength cmd }

def deleteMappingEntry (kv : KvFtl) (cmd : NvmeKvCommand) : Except Fault KvFtl := do
  match ← searchKey kv cmd with
  | none => return kv
  | some slot => return kv.setEntry slot .blank

/-- The first loop of `find_next_slot`: the last slot in use, `prevs`. -/
def findTail (kv : KvFtl) : Nat → Nat → Option Nat → Except Fault (Option Nat)
  | 0, _, _ => .error .outOfFuel
  | fuel + 1, tail, prevs => do
    let e ← kv.entry tail
    if e.memOffset = none then return prevs
    else
      match e.nextSlot with
      | none => return some tail
      | some next => findTail kv fuel next (some tail)

/-- The second loop: the next free slot, from the start of the table after its end. -/
def probeSlot (kv : KvFtl) : Nat → Nat → Except Fault Nat
  | 0, _ => .error .outOfFuel
  | fuel + 1, slot => do
    let e ← kv.entry slot
    if e.memOffset = none then return slot
    else
      let slot := u32 (slot + 1)
      probeSlot kv fuel (if kv.hashSlots ≤ slot then 0 else slot)

/-- Returns the slot and `prev_slot`. -/
def findNextSlot (kv : KvFtl) (originalSlot : Nat) : Except Fault (Nat × Nat) := do
  match ← findTail kv (kv.hashSlots + 1) originalSlot none with
  | none => .error .badAddress
  | some prevs =>
    let slot ← probeSlot kv kv.hashSlots prevs
    return (slot, prevs)

/-- Where a new key goes: its hash slot, or behind the last slot of the chain there. -/
def newSlot (kv : KvFtl) (key : List UInt8) : Except Fault (Nat × Option Nat) := do
  let slot ← getHashSlot kv key
  let e ← kv.entry slot
  if e.memOffset = none then return (slot, none)
  else
    let (slot, prev) ← findNextSlot kv slot
    return (slot, some prev)

/-- `next_slot` keeps what it was. -/
def fillEntry (e : MappingEntry) (key : List UInt8) (valOffset length : Nat) : MappingEntry :=
  { e with key := key ++ e.key.drop key.length, memOffset := some valOffset, length := length }

def newMappingEntry (storageSize : Nat) (kv : KvFtl) (cmd : NvmeKvCommand) (valOffset : Nat) :
    Except Fault KvFtl := do
  nvmevAssert (valOffset < storageSize)
  let key ← cmdKey cmd
  let (slot, prevSlot) ← newSlot kv key
  let kv := kv.setEntry slot (fillEntry (kv.kvMappingTable slot) key valOffset (cmdValueLength cmd))
  match prevSlot with
  | none => return kv
  | some prev => return chainMapping kv prev slot

structure AppendOnly where
  latest : Nat
  devSize : Nat
  totalWritten : Nat
  deriving Repr, DecidableEq

def appendOnlyAllocatorInit (size : Nat) : AppendOnly := ⟨0, size, 0⟩

def appendOnlyAllocate (a : AppendOnly) (length : Nat) : AppendOnly × Nat :=
  ({ a with latest := u64 (a.latest + length), totalWritten := u64 (a.totalWritten + length) }, a.latest)

/-- For a `kv_store`; a failed allocation counts as offset 0. -/
def allocateMemOffset (a : AppendOnly) (cmd : NvmeKvCommand) : AppendOnly × Nat :=
  let (a, offset) := appendOnlyAllocate a (cmdValueLength cmd)
  (a, if offset = 2^64 - 1 then 0 else offset)

structure KvState where
  ftl : KvFtl
  allocator : AppendOnly
  mem : Memory

/-- What a command gives back: the function's value and `*status`, which comes in as success. -/
structure KvResult where
  result0 : Nat
  status : Nat
  deriving Repr, DecidableEq

/-- The entry as a block command: the data pointers are at the same place. -/
def kvRwCommand (cmd : NvmeKvCommand) : NvmeRwCommand where
  opcode := if cmd.opcode = nvmeCmdKvStore then nvmeCmdWrite else nvmeCmdRead
  commandId := 0
  nsid := 1
  prp1 := cmd.prp1
  prp2 := cmd.prp2
  slba := 0
  length := 0
  control := 0

/-- The `while (remaining)` of `__do_perform_kv_io`. It is that of `__do_perform_io`, with
`kv_store` for a write and `kv_retrieve` for a read. -/
def kvCopy (cmd : NvmeKvCommand) (offset length : Nat) (mem : Memory) : Except Fault Memory :=
  performIoLoop 0 (kvRwCommand cmd) length .start offset length mem

def UpdatesLength (entry : MappingEntry) (length : Nat) : Prop :=
  length ≠ entry.length ∧ length ≤ smallLength ∧ entry.length ≤ smallLength

instance (entry : MappingEntry) (length : Nat) : Decidable (UpdatesLength entry length) :=
  inferInstanceAs (Decidable (_ ∧ _))

/-- With another pair of lengths there is only a message. -/
def updateLength (kv : KvFtl) (cmd : NvmeKvCommand) (entry : MappingEntry) : Except Fault KvFtl :=
  if UpdatesLength entry (cmdValueLength cmd) then updateMappingEntry kv cmd else .ok kv

def performKvStore (storageSize : Nat) (cmd : NvmeKvCommand) (entry : MappingEntry) (st : KvState) :
    Except Fault (KvState × KvResult) :=
  match entry.memOffset with
  | none => do
    let (allocator, newOffset) := allocateMemOffset st.allocator cmd
    let mem ← kvCopy cmd newOffset (cmdValueLength cmd) st.mem
    let ftl ← newMappingEntry storageSize st.ftl cmd newOffset
    return (⟨ftl, allocator, mem⟩, ⟨0, kvSuccess⟩)
  | some offset => do
    let mem ← kvCopy cmd offset (cmdValueLength cmd) st.mem
    let ftl ← updateLength st.ftl cmd entry
    return ({ st with ftl := ftl, mem := mem }, ⟨0, kvSuccess⟩)

def performKvRetrieve (cmd : NvmeKvCommand) (entry : MappingEntry) (st : KvState) :
    Except Fault (KvState × KvResult) :=
  match entry.memOffset with
  | none => .ok (st, ⟨0, kvErrKeyNotExist⟩)
  | some offset => do
    let length := min entry.length (cmdValueLength cmd)
    let mem ← kvCopy cmd offset length st.mem
    return ({ st with mem := mem }, ⟨length, kvSuccess⟩)

def doPerformKvIo (storageSize : Nat) (cmd : NvmeKvCommand) (st : KvState) :
    Except Fault (KvState × KvResult) := do
  let entry ← getMappingEntry st.ftl cmd
  if cmd.opcode = nvmeCmdKvStore then performKvStore storageSize cmd entry st
  else if cmd.opcode = nvmeCmdKvRetrieve then performKvRetrieve cmd entry st
  else if cmd.opcode = nvmeCmdKvExist then
    if entry.memOffset = none then return (st, ⟨0, kvErrKeyNotExist⟩)
    else return (st, ⟨0, kvSuccess⟩)
  else if cmd.opcode = nvmeCmdKvDelete then
    if entry.memOffset = none then return (st, ⟨0, kvErrKeyNotExist⟩)
    else
      let ftl ← deleteMappingEntry st.ftl cmd
      return ({ st with ftl := ftl }, ⟨0, kvSuccess⟩)
  else return (st, ⟨0, kvSuccess⟩)

/-- The mapping table has `tableSize` bytes. -/
def kvInitNamespace (tableSize storageSize : Nat) (mem : Memory) : Except Fault KvState :=
  if h : tableSize / kvMappingEntrySize < 2^31 then
    .ok { ftl := ⟨tableSize / kvMappingEntrySize, h, fun _ => ⟨List.replicate 18 0, none, 2^64 - 1, none⟩⟩
          allocator := appendOnlyAllocatorInit storageSize
          mem := mem }
  else .error .intOverflow

/-- A command, with what the host memory holds when the worker comes to it. -/
structure KvCall where
  cmd : NvmeKvCommand
  host : Nat → UInt8

def KvState.withHost (st : KvState) (host : Nat → UInt8) : KvState :=
  { st with mem := { st.mem with host := host } }

@[simp] theorem KvState.withHost_ftl (st : KvState) (host : Nat → UInt8) :
    (st.withHost host).ftl = st.ftl := rfl

def KvState.perform (st : KvState) (storageSize : Nat) (call : KvCall) : Except Fault (KvState × KvResult) :=
  doPerformKvIo storageSize call.cmd (st.withHost call.host)

def kvRun (storageSize : Nat) : List KvCall → KvState → Except Fault KvState
  | [], st => .ok st
  | call :: calls, st => do
    let (st, _) ← st.perform storageSize call
    kvRun storageSize calls st

theorem kvRun_append {storageSize : Nat} {calls calls' : List KvCall} {st : KvState} :
    kvRun storageSize (calls ++ calls') st = kvRun storageSize calls st >>= kvRun storageSize calls' := by
  induction calls generalizing st with
  | nil => rfl
  | cons call calls ih =>
    rw [List.cons_append, kvRun, kvRun]
    cases st.perform storageSize call with
    | error e => rfl
    | ok r => exact ih

theorem kvRun_snoc {storageSize : Nat} {calls : List KvCall} {call : KvCall} {st st' : KvState} :
    kvRun storageSize (calls ++ [call]) st = .ok st' ↔
      ∃ s r, kvRun storageSize calls st = .ok s ∧ s.perform storageSize call = .ok (st', r) := by
  rw [kvRun_append, bind_eq_ok]
  constructor
  · rintro ⟨s, hs, h⟩
    obtain ⟨⟨s', r⟩, hr, h⟩ := bind_eq_ok.mp h
    cases h
    exact ⟨s, r, hs, hr⟩
  · rintro ⟨s, r, hs, hr⟩
    refine ⟨s, hs, ?_⟩
    rw [kvRun, hr]
    rfl

end NVMeVirt
