import NVMeVirt.PrpPaths
import NVMeVirt.Lib.FlashStore

/-!
# The storage as a store of bytes

Workers make the transfers of reads and writes in any order, each by the processor or by the DMA
engine, while the host goes on using its memory. Every build has one namespace, which begins where
the storage does.
-/

namespace NVMeVirt
set_option autoImplicit false
open Outcome FlashStore

variable {cmd : NvmeRwCommand} {mem mem' mem₀ : Memory} {mapped : Nat → Option Nat}
  {hist : List (Nat × UInt8)}

/-- The storage address of byte `i` of the command. -/
def storageAddr (cmd : NvmeRwCommand) (i : Nat) : Nat := u64 (cmd.slba * lbaSize + i)

/-- The bytes that a write brings, with their addresses, from the buffers as they are when it is made. -/
def broughtBy (cmd : NvmeRwCommand) (mem : Memory) (n : Nat) : List (Nat × UInt8) :=
  if WritesData cmd then
    (List.range n).map fun i => (storageAddr cmd i, mem.host (bufferAddr mem.host cmd i))
  else []

/-- A read or write of the namespace, with PRP entries that describe its buffer. -/
structure Described (cmd : NvmeRwCommand) (mem : Memory) : Prop where
  nsid : cmd.nsid = 1
  length : cmd.length < 2^16
  prps : PrpsOk mem.host cmd
  keeps : KeepsList mem.host cmd

/-- Transfers one after the other; the host changes its memory in between as it likes. -/
inductive TransferRun (mapped : Nat → Option Nat) (mem₀ : Memory) : Memory → List (Nat × UInt8) → Prop
  | start : TransferRun mapped mem₀ mem₀ []
  | host {mem : Memory} {hist : List (Nat × UInt8)} (before : TransferRun mapped mem₀ mem hist)
      (host : Nat → UInt8) : TransferRun mapped mem₀ { mem with host := host } hist
  | copy {mem mem' : Memory} {hist : List (Nat × UInt8)} {cmd : NvmeRwCommand}
      (before : TransferRun mapped mem₀ mem hist) (ioUsingDma : Bool) (described : Described cmd mem)
      (h : performIo ioUsingDma mapped cmd mem = .ok mem') :
      TransferRun mapped mem₀ mem' (hist ++ broughtBy cmd mem (cmdIoSize cmd))

theorem broughtBy_succ (hw : WritesData cmd) (n : Nat) : broughtBy cmd mem (n + 1) =
    broughtBy cmd mem n ++ [(storageAddr cmd n, mem.host (bufferAddr mem.host cmd n))] := by
  unfold broughtBy
  rw [if_pos hw, if_pos hw, List.range_succ, List.map_append, List.map_singleton]

theorem broughtBy_read (hw : ¬ WritesData cmd) (n : Nat) : broughtBy cmd mem n = [] := if_neg hw

theorem copyAt_storage (hw : WritesData cmd) {offset paddr a : Nat} (ha : a < 2^64) :
    (copyAt cmd offset paddr 1 mem).storage a =
      if storageAddr cmd offset = a then mem.host paddr else mem.storage a := by
  unfold copyAt transfer Memory.toStorage
  rw [if_pos hw]
  dsimp only
  have hiff : behind (u64 (cmd.slba * lbaSize + offset)) a < 1 ↔ storageAddr cmd offset = a := by
    unfold behind storageAddr u64
    omega
  by_cases h : storageAddr cmd offset = a
  · have hzero : behind (u64 (cmd.slba * lbaSize + offset)) a = 0 := Nat.lt_one_iff.mp (hiff.mpr h)
    rw [if_pos (hiff.mpr h), if_pos h, hzero, Nat.add_zero]
  · rw [if_neg (fun hb => h (hiff.mp hb)), if_neg h]

/-- The first `n` bytes of a write are in the storage, and nothing else has changed there. -/
theorem moved_storage (hw : WritesData cmd) (n : Nat) {a : Nat} (ha : a < 2^64) :
    some ((moved cmd mem n).storage a) = lastOf a (some (mem.storage a)) (broughtBy cmd mem n) := by
  induction n with
  | zero =>
    unfold broughtBy
    rw [if_pos hw]
    rfl
  | succ n ih =>
    have hread : cmd.opcode ≠ nvmeCmdRead := by
      rcases hw with h | h <;> rw [h] <;> decide
    have hhost : ∀ b, (moved cmd mem n).host b = mem.host b := fun b => moved_host (fun hr => absurd hr hread)
    rw [broughtBy_succ hw, lastOf_snoc, moved_succ, copyAt_storage hw ha, hhost, ← ih]
    split <;> rfl

theorem moved_keeps_storage (hw : ¬ WritesData cmd) (n : Nat) : (moved cmd mem n).storage = mem.storage := by
  induction n with
  | zero => rfl
  | succ n ih =>
    rw [moved_succ]
    exact (transfer_storage hw).trans ih

/-- A read brings every byte of its range to its place in the buffer. -/
theorem moved_read (hr : cmd.opcode = nvmeCmdRead) {n : Nat}
    (hinj : ∀ i < n, ∀ j < n, bufferAddr mem.host cmd i = bufferAddr mem.host cmd j → i = j) :
    ∀ i < n, (moved cmd mem n).host (bufferAddr mem.host cmd i) = mem.storage (storageAddr cmd i) := by
  have hw : ¬ WritesData cmd := by
    unfold WritesData
    rw [hr]
    decide
  induction n with
  | zero => exact fun i hi => absurd hi (Nat.not_lt_zero i)
  | succ n ih =>
    intro i hi
    rw [moved_succ]
    rcases Nat.lt_succ_iff_lt_or_eq.mp hi with hlt | rfl
    · have hne : bufferAddr mem.host cmd n ≠ bufferAddr mem.host cmd i := fun he =>
        absurd (hinj n (Nat.lt_succ_self n) i hi he) (Nat.ne_of_gt hlt)
      rw [copyAt_host (fun _ => hne)]
      exact ih (fun i hi j hj => hinj i (Nat.lt_succ_of_lt hi) j (Nat.lt_succ_of_lt hj)) i hlt
    · have hlast : ∀ m : Memory, ∀ p, (copyAt cmd i p 1 m).host p = m.storage (storageAddr cmd i) := by
        intro m p
        unfold copyAt transfer Memory.fromStorage
        rw [if_neg hw, if_pos hr]
        dsimp only
        rw [if_pos ⟨Nat.le_refl p, Nat.lt_succ_self p⟩, Nat.sub_self, Nat.add_zero]
        congr 1
        unfold storageAddr u64
        omega
      rw [hlast, moved_keeps_storage hw]

theorem Described.moves (d : Described cmd mem) (hmap : mapped 0 = some 0) (ioUsingDma : Bool) :
    performIo ioUsingDma mapped cmd mem = .ok (describedTransfer cmd mem) := by
  unfold NVMeVirt.performIo
  cases ioUsingDma with
  | true => exact doPerformIoUsingDma_moves d.length d.prps
  | false => exact doPerformIo_moves d.nsid hmap d.length d.prps d.keeps

theorem Described.performIo (d : Described cmd mem) (hmap : mapped 0 = some 0) {ioUsingDma : Bool}
    (h : performIo ioUsingDma mapped cmd mem = .ok mem') : mem' = moved cmd mem (cmdIoSize cmd) := by
  rw [d.moves hmap, describedTransfer_eq] at h
  cases h
  rfl

theorem TransferRun.storage (hmap : mapped 0 = some 0) (h : TransferRun mapped mem₀ mem hist) {a : Nat}
    (ha : a < 2^64) : some (mem.storage a) = lastOf a (some (mem₀.storage a)) hist := by
  induction h with
  | start => rfl
  | host _ _ ih => exact ih
  | @copy mem mem' hist cmd _ ioUsingDma d h ih =>
    rw [d.performIo hmap h, lastOf_append, ← ih]
    by_cases hw : WritesData cmd
    · exact moved_storage hw _ ha
    · rw [moved_keeps_storage hw, broughtBy_read hw]
      rfl

/-- Every byte of the storage is the last one that a write brought to it, and a read brings just these
bytes to the places that its entries describe. -/
theorem storage_is_last_written (hmap : mapped 0 = some 0) (h : TransferRun mapped mem₀ mem hist) :
    (∀ a < 2^64, some (mem.storage a) = lastOf a (some (mem₀.storage a)) hist) ∧
    ∀ ioUsingDma cmd mem', Described cmd mem → cmd.opcode = nvmeCmdRead →
      (∀ i < cmdIoSize cmd, ∀ j < cmdIoSize cmd,
        bufferAddr mem.host cmd i = bufferAddr mem.host cmd j → i = j) →
      performIo ioUsingDma mapped cmd mem = .ok mem' → ∀ i < cmdIoSize cmd,
        some (mem'.host (bufferAddr mem.host cmd i)) =
          lastOf (storageAddr cmd i) (some (mem₀.storage (storageAddr cmd i))) hist := by
  refine ⟨fun a ha => h.storage hmap ha, ?_⟩
  intro ioUsingDma cmd mem' d hr hinj hio i hi
  rw [d.performIo hmap hio, moved_read hr hinj i hi]
  exact h.storage hmap (Nat.mod_lt _ (by decide))

/-- A block to or from one page. -/
def pageCommand (opcode page slba : Nat) : NvmeRwCommand := ⟨opcode, 7, 1, page * pageSize, 0, slba, 0, 0⟩

theorem pageCommand_described (opcode page slba : Nat) (h : page + 1 < 2^52) (mem : Memory) :
    Described (pageCommand opcode page slba) mem ∧
      ∀ i < 512, bufferAddr mem.host (pageCommand opcode page slba) i = page * pageSize + i := by
  have hsize : cmdIoSize (pageCommand opcode page slba) = 512 := by
    change (0 + 1) * lbaSize = 512
    decide
  have hfirst : firstBytes (pageCommand opcode page slba) = 4096 := by
    unfold firstBytes pageCommand pageSize
    dsimp only
    omega
  have hcount : prpCount (pageCommand opcode page slba) = 1 := by
    unfold prpCount
    rw [hfirst, hsize]
    rfl
  have hlist : ¬ UsesList (pageCommand opcode page slba) := by
    unfold UsesList
    rw [hfirst, hsize]
    decide
  refine ⟨⟨rfl, Nat.two_pow_pos 16, ⟨?_, ?_, ?_, fun hl => absurd hl hlist⟩, fun _ hl => absurd hl hlist⟩, ?_⟩
  · intro j hj
    omega
  · intro j hj
    obtain rfl : j = 0 := by omega
    unfold prpEntry pageCommand pageSize
    dsimp only
    omega
  · omega
  · intro i hi
    unfold bufferAddr
    rw [hfirst, if_pos (by omega)]
    rfl

def oneNamespace (_ : Nat) : Option Nat := some 0

def nineAt (a : Nat) : Memory := ⟨fun b => if b = a then 9 else 0, fun _ => 0⟩

/-- A block is written from page 1 by the DMA engine, and read back to page 3 by the processor. -/
theorem storage_is_last_written_readBack : ∃ mem hist mem',
    TransferRun oneNamespace (nineAt 0x1003) mem hist ∧
    performIo false oneNamespace (pageCommand nvmeCmdRead 3 5) mem = .ok mem' ∧ mem'.host 0x3003 = 9 := by
  obtain ⟨hw, _⟩ := pageCommand_described nvmeCmdWrite 1 5 (by decide) (nineAt 0x1003)
  have hmap : oneNamespace 0 = some 0 := rfl
  have hwrite := hw.moves hmap true
  have run := TransferRun.copy .start true hw hwrite
  obtain ⟨hr, haddr⟩ := pageCommand_described nvmeCmdRead 3 5 (by decide)
    (describedTransfer (pageCommand nvmeCmdWrite 1 5) (nineAt 0x1003))
  have hread := hr.moves hmap false
  refine ⟨_, _, _, run, hread, ?_⟩
  have hback := (storage_is_last_written hmap run).2 false _ _ hr rfl ?_ hread 3 (by decide)
  · have haddr₃ : 3 * pageSize + 3 = 0x3003 := by decide
    have hlast : lastOf (storageAddr (pageCommand nvmeCmdRead 3 5) 3)
        (some ((nineAt 0x1003).storage (storageAddr (pageCommand nvmeCmdRead 3 5) 3)))
        ([] ++ broughtBy (pageCommand nvmeCmdWrite 1 5) (nineAt 0x1003)
          (cmdIoSize (pageCommand nvmeCmdWrite 1 5))) = some 9 := by decide +kernel
    rw [haddr 3 (by decide), haddr₃, hlast] at hback
    exact Option.some.inj hback
  · intro i hi j hj he
    rw [haddr i hi, haddr j hj] at he
    exact Nat.add_left_cancel he

end NVMeVirt
