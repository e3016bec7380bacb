import NVMeVirt.KvTable
import NVMeVirt.Lib.LittleEndian

/-!
# Batches of key-value stores

`__do_perform_kv_batch`, and the mapping functions that take a key with its length instead of
a command. `kmalloc` is taken to give the buffer that it is asked for.
-/

namespace NVMeVirt
set_option autoImplicit false
open Outcome

def maxSubCmd : Nat := 8
def alignLen : Nat := 64

/-- `sizeof(struct batch_cmd_head)`. -/
def batchCmdHeadSize : Nat := 512

/-- `sizeof(struct sub_cmd_attribute)`. -/
def subCmdAttributeSize : Nat := 16

/-- A longer key would run over the end of `key[18]` in an entry. -/
def entryKey (key : List UInt8) : Except Fault (List UInt8) :=
  if key.length ≤ 18 then .ok key else .error .badAddress

def searchByKey (kv : KvFtl) (key : List UInt8) : Except Fault (Option Nat) := do
  let key ← entryKey key
  let slot ← getHashSlot kv key
  searchChain kv key (kv.hashSlots + 1) slot

def getMappingEntryByKey (kv : KvFtl) (key : List UInt8) : Except Fault MappingEntry := do
  match ← searchByKey kv key with
  | none => return .blank
  | some slot =>
    let e := kv.kvMappingTable slot
    return { e with key := e.key.take key.length ++ MappingEntry.blank.key.drop key.length }

def newMappingEntryByKey (storageSize : Nat) (kv : KvFtl) (key : List UInt8) (valLen valOffset : Nat) :
    Except Fault KvFtl := do
  nvmevAssert (valOffset < storageSize)
  let key ← entryKey key
  let (slot, prevSlot) ← newSlot kv key
  let kv := kv.setEntry slot (fillEntry (kv.kvMappingTable slot) key valOffset valLen)
  match prevSlot with
  | none => return kv
  | some prev => return chainMapping kv prev slot

def allocateMemOffsetByLength (a : AppendOnly) (valLen : Nat) : AppendOnly × Nat :=
  let (a, offset) := appendOnlyAllocate a valLen
  (a, if offset = 2^64 - 1 then 0 else offset)

/-- `memcpy(nvmev_vdev->storage_mapped + offset, value, val_len)`. -/
def Memory.putValue (mem : Memory) (offset : Nat) (value : List UInt8) : Memory :=
  { mem with storage := fun a =>
      if behind offset a < value.length then value.getD (behind offset a) 0 else mem.storage a }

structure SubCmd where
  opcode : Nat
  key : List UInt8
  value : List UInt8
  deriving Repr, DecidableEq

/-- An update leaves the entry as it is: the call of `update_mapping_entry` is commented out. -/
def doPerformKvBatchedIo (storageSize : Nat) (sub : SubCmd) (st : KvState) : Except Fault KvState := do
  let entry ← getMappingEntryByKey st.ftl sub.key
  if sub.opcode = nvmeCmdKvStore then
    match entry.memOffset with
    | none =>
      let (allocator, newOffset) := allocateMemOffsetByLength st.allocator sub.value.length
      let ftl ← newMappingEntryByKey storageSize st.ftl sub.key sub.value.length newOffset
      return ⟨ftl, allocator, st.mem.putValue newOffset sub.value⟩
    | some offset => return { st with mem := st.mem.putValue offset sub.value }
  else return st

/-- The command of a batch is the store command, with the count of sub-commands in `rsvd4`. -/
structure NvmeKvBatchCommand extends NvmeKvCommand where
  rsvd4 : Nat
  deriving Repr, DecidableEq

/-- The bytes `buffer[at .. at + n)`. -/
def readBuffer (buffer : Nat → UInt8) (length start n : Nat) : Except Fault (List UInt8) :=
  if start + n ≤ length then .ok ((List.range n).map (fun i => buffer (start + i))) else .error .badAddress

def alignUp (n : Nat) : Nat := ((n - 1) / alignLen + 1) * alignLen

/-- Sub-command `i`, and how far its part of the payload reaches. `key[20]` and the 4097 bytes
of `value` take no more. -/
def subCmd (buffer : Nat → UInt8) (length i payloadOffset : Nat) : Except Fault (SubCmd × Nat) := do
  let attr := subCmdAttributeSize * i
  if length < attr + subCmdAttributeSize then .error .badAddress
  let opcode := (buffer attr).toNat
  let keyLen := (buffer (attr + 1)).toNat
  let valLen := LittleEndian.value buffer 4 (attr + 4)
  if 20 < keyLen ∨ 4097 < valLen then .error .badAddress
  let start := batchCmdHeadSize + payloadOffset
  let key ← readBuffer buffer length start keyLen
  let value ← readBuffer buffer length (start + alignUp keyLen) valLen
  return (⟨opcode, key, value⟩, payloadOffset + (alignUp keyLen + alignUp valLen + alignLen))

def batchLoop (storageSize : Nat) (buffer : Nat → UInt8) (length : Nat) :
    Nat → Nat → Nat → KvState → Except Fault KvState
  | 0, _, _, st => .ok st
  | n + 1, i, payloadOffset, st => do
    let (sub, payloadOffset) ← subCmd buffer length i payloadOffset
    let st ← doPerformKvBatchedIo storageSize sub st
    batchLoop storageSize buffer length n (i + 1) payloadOffset st

/-- The `while (remaining)`: the loop is that of `__do_perform_kv_io` for a store, with `buffer`
in the place of the storage. -/
def batchBuffer (cmd : NvmeKvBatchCommand) (host : Nat → UInt8) : Except Fault (Nat → UInt8) := do
  let length := cmdValueLength cmd.toNvmeKvCommand
  let rw := { kvRwCommand cmd.toNvmeKvCommand with opcode := nvmeCmdWrite }
  let mem ← performIoLoop 0 rw length .start 0 length ⟨host, fun _ => 0⟩
  return mem.storage

def doPerformKvBatch (storageSize : Nat) (cmd : NvmeKvBatchCommand) (st : KvState) :
    Except Fault (KvState × KvResult) := do
  let buffer ← batchBuffer cmd st.mem.host
  let st ← batchLoop storageSize buffer (cmdValueLength cmd.toNvmeKvCommand) cmd.rsvd4 0 alignLen st
  return (st, ⟨0, kvSuccess⟩)

/-- A batch, with what the host memory holds when the worker comes to it. -/
structure KvBatchCall where
  cmd : NvmeKvBatchCommand
  host : Nat → UInt8

inductive KvRequest where
  | io (call : KvCall)
  | batch (call : KvBatchCall)

def KvState.serve (st : KvState) (storageSize : Nat) : KvRequest → Except Fault (KvState × KvResult)
  | .io call => st.perform storageSize call
  | .batch call => doPerformKvBatch storageSize call.cmd (st.withHost call.host)

def kvServe (storageSize : Nat) : List KvRequest → KvState → Except Fault KvState
  | [], st => .ok st
  | request :: requests, st => do
    let (st, _) ← st.serve storageSize request
    kvServe storageSize requests st

variable {kv : KvFtl} {cmd : NvmeKvCommand} {key : List UInt8}

theorem entryKey_ok (h : key.length ≤ 18) : entryKey key = .ok key := if_pos h

theorem entryKey_eq {key' : List UInt8} (h : entryKey key = .ok key') : key' = key := by
  unfold entryKey at h
  split at h
  · cases h
    rfl
  · cases h

theorem cmdKey_le (h : cmdKey cmd = .ok key) : key.length ≤ 18 := by
  have hle : cmdKeyLength cmd ≤ kvcmdInlineKeyMax := (cmdKey_eq_ok.mp h).1
  rw [cmdKey_length h]
  exact Nat.le_trans hle (by decide)

theorem cmdKey_entryKey (h : cmdKey cmd = .ok key) : entryKey key = .ok key := entryKey_ok (cmdKey_le h)

theorem searchKey_eq (h : cmdKey cmd = .ok key) : searchKey kv cmd = searchByKey kv key := by
  unfold searchKey searchByKey
  rw [h, ok_bind, cmdKey_entryKey h, ok_bind]

theorem getMappingEntry_eq_byKey (h : cmdKey cmd = .ok key) :
    getMappingEntry kv cmd = getMappingEntryByKey kv key := by
  unfold getMappingEntryByKey
  rw [← searchKey_eq h, cmdKey_length h]
  rfl

theorem newMappingEntry_eq_byKey {storageSize valOffset : Nat} (h : cmdKey cmd = .ok key) :
    newMappingEntry storageSize kv cmd valOffset =
      newMappingEntryByKey storageSize kv key (cmdValueLength cmd) valOffset := by
  unfold newMappingEntryByKey
  rw [cmdKey_entryKey h, ← h]
  rfl

end NVMeVirt
