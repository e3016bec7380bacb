import NVMeVirt.KvFtl
import NVMeVirt.Lib.LittleEndian

/-!
# Iterators of the key-value namespace

`kv_iter_open`, `kv_iter_close` and `kv_iter_read`. The handle table has seventeen entries; the first one is
never given out, and `kv_init_namespace` does not clear the last one. Of a context only the fields that
are read again are kept.
-/

namespace NVMeVirt
set_option autoImplicit false
open Outcome LittleEndian

def nvmeCmdKvIterReq : Nat := 0xB1
def nvmeCmdKvIterRead : Nat := 0xB2

def iterOptionOpen : Nat := 0x01
def iterOptionClose : Nat := 0x02

/-- The status of the read that comes to the end of the table. -/
def kvIterEnd : Nat := 0x393

structure NvmeKvIterCommand where
  opcode : Nat
  prp1 : Nat
  prp2 : Nat
  iterHandle : Nat
  option : Nat
  iterVal : Nat
  iterBitmask : Nat
  deriving Repr, DecidableEq

structure KvIterContext where
  keyPrefix : Nat
  bitmask : Nat
  buf : Nat → UInt8
  currentPos : Nat

/-- An entry of `iter_handle`. `stray` is a pointer that the allocation of the table left there. -/
inductive IterHandle where
  | null
  | stray
  | context (c : KvIterContext)

def IterHandle.isNull : IterHandle → Bool
  | .null => true
  | _ => false

structure KvIterFtl extends KvFtl where
  iterHandle : Nat → IterHandle

def KvIterFtl.setHandle (kv : KvIterFtl) (iter : Nat) (h : IterHandle) : KvIterFtl :=
  { kv with iterHandle := Function.update kv.iterHandle iter h }

@[simp] theorem KvIterFtl.setHandle_same (kv : KvIterFtl) (iter : Nat) (h : IterHandle) :
    (kv.setHandle iter h).iterHandle iter = h := Function.update_self _ _ _

theorem KvIterFtl.setHandle_other (kv : KvIterFtl) {iter i : Nat} (h : IterHandle) (hi : i ≠ iter) :
    (kv.setHandle iter h).iterHandle i = kv.iterHandle i := Function.update_of_ne hi _ _

/-- Entry `iter` of the table of seventeen. -/
def KvIterFtl.handle (kv : KvIterFtl) (iter : Nat) : Except Fault IterHandle :=
  if iter ≤ 16 then .ok (kv.iterHandle iter) else .error .badAddress

/-- The loop of `kv_init_namespace` ends before entry 16. `dirty` says that `kmalloc` returned memory with
something else than a null pointer there. -/
def kvInitIter (ftl : KvFtl) (dirty : Bool) : KvIterFtl :=
  { ftl with iterHandle := fun i => if 16 ≤ i ∧ dirty = true then .stray else .null }

def emptyTable : KvFtl := ⟨0, by decide, fun _ => .blank⟩

/-- The loop of `kv_iter_open`. -/
def freeIterHandle (kv : KvIterFtl) : Option Nat :=
  (List.range' 1 16).find? (fun iter => (kv.iterHandle iter).isNull)

/-- `mem` is what the new buffer holds. Without a free entry `*status` is left alone. -/
def kvIterOpen (kv : KvIterFtl) (cmd : NvmeKvIterCommand) (mem : Nat → UInt8) : KvIterFtl × KvResult :=
  match freeIterHandle kv with
  | none => (kv, ⟨1, kvSuccess⟩)
  | some iter => (kv.setHandle iter (.context ⟨cmd.iterVal, cmd.iterBitmask, mem, 0⟩), ⟨iter, kvSuccess⟩)

def kvIterClose (kv : KvIterFtl) (cmd : NvmeKvIterCommand) : Except Fault (KvIterFtl × KvResult) := do
  match ← kv.handle cmd.iterHandle with
  | .null => return (kv, ⟨0, kvSuccess⟩)
  | .stray => .error .badAddress
  | .context _ => return (kv.setHandle cmd.iterHandle .null, ⟨0, kvSuccess⟩)

/-- The first four bytes of a key as an `unsigned int`. -/
def MappingEntry.keyWord (e : MappingEntry) : Nat := value (fun i => e.key.getD i 0) 4 0

/-- The test of the loop: a slot in use whose key has the bits of the iterator. -/
def KvIterContext.Takes (c : KvIterContext) (e : MappingEntry) : Prop :=
  e.memOffset ≠ none ∧ e.keyWord &&& c.bitmask = c.keyPrefix &&& c.bitmask

instance (c : KvIterContext) (e : MappingEntry) : Decidable (c.Takes e) := inferInstanceAs (Decidable (_ ∧ _))

/-- Two `memcpy`s: the length 16 and the key. -/
def writeRecord (buf : Nat → UInt8) (off : Nat) (e : MappingEntry) : Nat → UInt8 := fun a =>
  if off ≤ a ∧ a < off + 4 then digit 16 (a - off)
  else if off + 4 ≤ a ∧ a < off + 20 then e.key.getD (a - (off + 4)) 0
  else buf a

/-- The local variables of the loop, with the buffer that it fills. `atEnd` is `end`. -/
structure IterScan where
  pos : Nat
  bufOffset : Nat
  nrKeys : Nat
  atEnd : Bool
  buf : Nat → UInt8

def IterScan.put (s : IterScan) (e : MappingEntry) : IterScan :=
  { s with bufOffset := s.bufOffset + 20, nrKeys := s.nrKeys + 1, buf := writeRecord s.buf s.bufOffset e }

/-- The `while` of `kv_iter_read`. A key that has no room any more keeps its slot for the next read. -/
def scanSlots (kv : KvFtl) (c : KvIterContext) : Nat → IterScan → Except Fault IterScan
  | 0, _ => .error .outOfFuel
  | fuel + 1, s =>
    if kv.hashSlots ≤ s.pos then .ok s
    else
      let e := kv.kvMappingTable s.pos
      if c.Takes e ∧ 1024 < s.bufOffset + 4 + 16 then .ok s
      else
        let s := if c.Takes e then s.put e else s
        let s := { s with pos := s.pos + 1 }
        if s.pos = kv.hashSlots then .ok { s with atEnd := true } else scanSlots kv c fuel s

/-- `memcpy(handle->buf, &nr_keys, 4)`. -/
def writeHeader (buf : Nat → UInt8) (nrKeys : Nat) : Nat → UInt8 := fun a =>
  if a < 4 then digit nrKeys a else buf a

/-- What a handler returns, and the host memory behind it. -/
structure KvIterOutcome where
  kv : KvIterFtl
  host : Nat → UInt8
  result : KvResult

def iterRwCommand (cmd : NvmeKvIterCommand) : NvmeRwCommand where
  opcode := nvmeCmdRead
  commandId := 0
  nsid := 1
  prp1 := cmd.prp1
  prp2 := cmd.prp2
  slba := 0
  length := 0
  control := 0

/-- The copy to the host is the loop of `__do_perform_io`, with the buffer in the place of the storage. -/
def iterCopy (cmd : NvmeKvIterCommand) (buf : Nat → UInt8) (length : Nat) (host : Nat → UInt8) :
    Except Fault (Nat → UInt8) := do
  let mem ← performIoLoop 0 (iterRwCommand cmd) length .start 0 length ⟨host, buf⟩
  return mem.host

def readContext (kv : KvIterFtl) (c : KvIterContext) (cmd : NvmeKvIterCommand) (host : Nat → UInt8) :
    Except Fault KvIterOutcome := do
  let s ← scanSlots kv.toKvFtl c (kv.hashSlots + 1) ⟨c.currentPos, 4, 0, false, c.buf⟩
  let buf := writeHeader s.buf s.nrKeys
  let host ← iterCopy cmd buf s.bufOffset host
  return {
    kv := kv.setHandle cmd.iterHandle (.context { c with currentPos := s.pos, buf := buf })
    host := host
    result := ⟨s.bufOffset, if s.atEnd then kvIterEnd else kvSuccess⟩ }

def kvIterRead (kv : KvIterFtl) (cmd : NvmeKvIterCommand) (host : Nat → UInt8) :
    Except Fault KvIterOutcome := do
  match ← kv.handle cmd.iterHandle with
  | .null => return ⟨kv, host, ⟨0, kvSuccess⟩⟩
  | .stray => .error .badAddress
  | .context c => readContext kv c cmd host

/-- The memory that an open allocates holds `mem`. -/
def doPerformKvIterIo (kv : KvIterFtl) (cmd : NvmeKvIterCommand) (mem host : Nat → UInt8) :
    Except Fault KvIterOutcome :=
  if cmd.opcode = nvmeCmdKvIterReq then
    if cmd.option &&& iterOptionOpen ≠ 0 then
      let (kv, result) := kvIterOpen kv cmd mem
      .ok ⟨kv, host, result⟩
    else if cmd.option &&& iterOptionClose ≠ 0 then do
      let (kv, result) ← kvIterClose kv cmd
      return ⟨kv, host, result⟩
    else .ok ⟨kv, host, ⟨0, kvSuccess⟩⟩
  else if cmd.opcode = nvmeCmdKvIterRead then kvIterRead kv cmd host
  else .ok ⟨kv, host, ⟨0, kvSuccess⟩⟩

variable {kv kv' : KvIterFtl} {cmd : NvmeKvIterCommand} {host mem : Nat → UInt8} {o : KvIterOutcome} {i : Nat}

theorem freeIterHandle_some (h : freeIterHandle kv = some i) :
    1 ≤ i ∧ i ≤ 16 ∧ kv.iterHandle i = .null := by
  have hmem := List.mem_range'_1.mp (List.mem_of_find?_eq_some h)
  have hnull := List.find?_some h
  refine ⟨hmem.1, by omega, ?_⟩
  cases hi : kv.iterHandle i with
  | null => rfl
  | stray =>
    rw [hi] at hnull
    cases hnull
  | context c =>
    rw [hi] at hnull
    cases hnull

theorem freeIterHandle_none (h : freeIterHandle kv = none) (hlo : 1 ≤ i) (hhi : i ≤ 16) :
    kv.iterHandle i ≠ .null := by
  intro hnull
  have hmem : i ∈ List.range' 1 16 := List.mem_range'_1.mpr ⟨hlo, by omega⟩
  have hnot := List.find?_eq_none.mp h i hmem
  rw [hnull] at hnot
  exact hnot rfl

theorem kvIterRead_context {c : KvIterContext} (h16 : cmd.iterHandle ≤ 16)
    (h : kv.iterHandle cmd.iterHandle = .context c) : kvIterRead kv cmd host = readContext kv c cmd host := by
  unfold kvIterRead KvIterFtl.handle
  rw [if_pos h16, ok_bind, h]

theorem kvIterRead_ok (h : kvIterRead kv cmd host = .ok o) :
    cmd.iterHandle ≤ 16 ∧ ((kv.iterHandle cmd.iterHandle = .null ∧ o = ⟨kv, host, ⟨0, kvSuccess⟩⟩) ∨
      ∃ c, kv.iterHandle cmd.iterHandle = .context c ∧ readContext kv c cmd host = .ok o) := by
  unfold kvIterRead KvIterFtl.handle at h
  split at h
  · rename_i h16
    refine ⟨h16, ?_⟩
    rw [ok_bind] at h
    split at h
    · rename_i hnull
      cases h
      exact Or.inl ⟨hnull, rfl⟩
    · cases h
    · rename_i c hctx
      exact Or.inr ⟨c, hctx, h⟩
  · cases h

/-- A read changes the iterator that it reads through, and nothing but its buffer and its position. -/
theorem readContext_kv {c : KvIterContext} (h : readContext kv c cmd host = .ok o) :
    ∃ pos buf, o.kv = kv.setHandle cmd.iterHandle (.context { c with currentPos := pos, buf := buf }) := by
  unfold readContext at h
  obtain ⟨s, _, h⟩ := bind_eq_ok.mp h
  obtain ⟨_, _, h⟩ := bind_eq_ok.mp h
  cases h
  exact ⟨_, _, rfl⟩

theorem kvIterClose_ok {r : KvIterFtl × KvResult} (h : kvIterClose kv cmd = .ok r) :
    cmd.iterHandle ≤ 16 ∧ r.2 = ⟨0, kvSuccess⟩ ∧ ((kv.iterHandle cmd.iterHandle = .null ∧ r.1 = kv) ∨
      ∃ c, kv.iterHandle cmd.iterHandle = .context c ∧ r.1 = kv.setHandle cmd.iterHandle .null) := by
  unfold kvIterClose KvIterFtl.handle at h
  split at h
  · rename_i h16
    rw [ok_bind] at h
    split at h
    · rename_i hnull
      cases h
      exact ⟨h16, rfl, Or.inl ⟨hnull, rfl⟩⟩
    · cases h
    · rename_i c hctx
      cases h
      exact ⟨h16, rfl, Or.inr ⟨c, hctx, rfl⟩⟩
  · cases h

end NVMeVirt
