import NVMeVirt.IoCopy

/-!
# The two ways to transfer

`__do_perform_io` takes the PRP entries one at a time, `__do_perform_io_using_dma` takes them
all first and submits contiguous pages at once. Both are compared with the transfer byte by byte
that the entries describe.
-/

namespace NVMeVirt
set_option autoImplicit false
open Outcome Ranges Gather

/-- The bytes from `prp1` to the end of its page. -/
def firstBytes (cmd : NvmeRwCommand) : Nat := pageSize - cmd.prp1 % pageSize

/-- Byte of the transfer at which entry `j` comes in. -/
def entryStart (cmd : NvmeRwCommand) : Nat → Nat
  | 0 => 0
  | j + 1 => firstBytes cmd + j * pageSize

@[simp] theorem entryStart_zero (cmd : NvmeRwCommand) : entryStart cmd 0 = 0 := rfl

@[simp] theorem entryStart_succ (cmd : NvmeRwCommand) (j : Nat) :
    entryStart cmd (j + 1) = firstBytes cmd + j * 4096 := rfl

/-- More than one page is left after the first entry: `prp2` points to a list. -/
def UsesList (cmd : NvmeRwCommand) : Prop := firstBytes cmd + pageSize < cmdIoSize cmd

instance (cmd : NvmeRwCommand) : Decidable (UsesList cmd) := inferInstanceAs (Decidable (_ < _))

def prpEntry (host : Nat → UInt8) (cmd : NvmeRwCommand) : Nat → Nat
  | 0 => cmd.prp1
  | j + 1 => if UsesList cmd then hostU64 host (cmd.prp2 + 8 * j) else cmd.prp2

def prpCount (cmd : NvmeRwCommand) : Nat := (cmdIoSize cmd - firstBytes cmd + (pageSize - 1)) / pageSize + 1

/-- Where byte `i` of the buffer is. -/
def bufferAddr (host : Nat → UInt8) (cmd : NvmeRwCommand) (i : Nat) : Nat :=
  if i < firstBytes cmd then cmd.prp1 + i
  else prpEntry host cmd ((i - firstBytes cmd) / pageSize + 1) + (i - firstBytes cmd) % pageSize

/-- Byte `i` of the buffer to or from byte `slba * LBA_SIZE + i` of the storage, one after the other. -/
def describedTransfer (cmd : NvmeRwCommand) (mem : Memory) : Memory :=
  (List.range (cmdIoSize cmd)).foldl
    (fun m i => transfer cmd (u64 (cmd.slba * lbaSize + i)) (bufferAddr mem.host cmd i) 1 m) mem

/-- Aligned entries after the first, at most 512 of them, on pages below the last one that 64 bits
can address, in a list that does not leave its page. -/
structure PrpsOk (host : Nat → UInt8) (cmd : NvmeRwCommand) : Prop where
  aligned : ∀ j, j + 1 < prpCount cmd → prpEntry host cmd (j + 1) % pageSize = 0
  below : ∀ j < prpCount cmd, prpEntry host cmd j + pageSize < 2^64
  count : prpCount cmd ≤ 512
  onePage : UsesList cmd → cmd.prp2 % pageSize + 8 * (prpCount cmd - 1) ≤ pageSize

/-- A read does not bring its data to an entry of its list that it has still to use. -/
def KeepsList (host : Nat → UInt8) (cmd : NvmeRwCommand) : Prop :=
  cmd.opcode = nvmeCmdRead → UsesList cmd → ∀ j, j + 1 < prpCount cmd →
    ∀ i < entryStart cmd (j + 1), ∀ b < 8, bufferAddr host cmd i ≠ cmd.prp2 + 8 * j + b

variable {cmd : NvmeRwCommand} {mem : Memory} {host : Nat → UInt8} {mapped : Nat → Option Nat}

theorem cmdIoSize_pos (hlen : cmd.length < 2^16) : 0 < cmdIoSize cmd := by
  unfold cmdIoSize lbaSize lbaBits
  omega

theorem cmdIoSize_lt (hlen : cmd.length < 2^16) : cmdIoSize cmd < 2^64 := by
  unfold cmdIoSize lbaSize lbaBits
  omega

theorem firstBytes_pos (cmd : NvmeRwCommand) : 0 < firstBytes cmd ∧ firstBytes cmd ≤ pageSize := by
  have := Nat.mod_lt cmd.prp1 (show 0 < pageSize by decide)
  unfold firstBytes
  omega

theorem lt_prpCount_iff (hlen : cmd.length < 2^16) {j : Nat} :
    j < prpCount cmd ↔ entryStart cmd j < cmdIoSize cmd := by
  have hpos := cmdIoSize_pos hlen
  unfold prpCount pageSize
  cases j with
  | zero => exact iff_of_true (Nat.succ_pos _) hpos
  | succ j =>
    rw [entryStart_succ]
    omega

theorem le_entryStart (j : Nat) : j ≤ entryStart cmd j := by
  have := firstBytes_pos cmd
  cases j with
  | zero => exact Nat.zero_le _
  | succ j =>
    rw [entryStart_succ]
    omega

theorem prpCount_le (hlen : cmd.length < 2^16) : prpCount cmd ≤ cmdIoSize cmd := by
  obtain ⟨j, hj⟩ : ∃ j, prpCount cmd = j + 1 := ⟨_, rfl⟩
  have hstart := (lt_prpCount_iff hlen).mp (show j < prpCount cmd by omega)
  have hle : j ≤ entryStart cmd j := le_entryStart j
  omega

theorem entryStart_lt_succ (j : Nat) : entryStart cmd j < entryStart cmd (j + 1) := by
  have := firstBytes_pos cmd
  cases j with
  | zero =>
    rw [entryStart_succ, entryStart_zero]
    omega
  | succ j =>
    rw [entryStart_succ, entryStart_succ]
    omega

theorem entryStart_mono {j k : Nat} (h : j ≤ k) : entryStart cmd j ≤ entryStart cmd k :=
  (strictMono_nat_of_lt_succ entryStart_lt_succ).monotone h

theorem bufferAddr_entry {i j : Nat} (hi : entryStart cmd j ≤ i) (hj : i < entryStart cmd (j + 1)) :
    bufferAddr host cmd i = prpEntry host cmd j + (i - entryStart cmd j) := by
  unfold bufferAddr
  cases j with
  | zero =>
    rw [entryStart_succ] at hj
    rw [if_pos (by omega)]
    rfl
  | succ j =>
    rw [entryStart_succ] at hi hj
    have hdiv : (i - firstBytes cmd) / 4096 = j := by omega
    have hmod : (i - firstBytes cmd) % 4096 = i - (firstBytes cmd + j * 4096) := by omega
    unfold pageSize
    rw [if_neg (by omega), hdiv, hmod, entryStart_succ]

/-- Where the transfer stands when `j` entries have been used. -/
def cut (cmd : NvmeRwCommand) (j : Nat) : Nat := min (entryStart cmd j) (cmdIoSize cmd)

theorem cut_of_lt (hlen : cmd.length < 2^16) {j : Nat} (h : j < prpCount cmd) :
    cut cmd j = entryStart cmd j := Nat.min_eq_left (le_of_lt ((lt_prpCount_iff hlen).mp h))

theorem cut_end (hlen : cmd.length < 2^16) : cut cmd (prpCount cmd) = cmdIoSize cmd := by
  refine Nat.min_eq_right (Nat.le_of_not_lt fun h => ?_)
  exact Nat.lt_irrefl _ ((lt_prpCount_iff hlen).mpr h)

theorem cut_le (cmd : NvmeRwCommand) (j : Nat) : cut cmd j ≤ cmdIoSize cmd := Nat.min_le_right _ _

theorem cut_mono {j k : Nat} (h : j ≤ k) : cut cmd j ≤ cut cmd k :=
  min_le_min_right _ (entryStart_mono h)

theorem pieceSize_entry (hlen : cmd.length < 2^16) (hp : PrpsOk host cmd) {j : Nat} (hj : j < prpCount cmd) :
    pieceSize (prpEntry host cmd j) (cmdIoSize cmd - cut cmd j) = cut cmd (j + 1) - cut cmd j := by
  have hmod := Nat.mod_lt (prpEntry host cmd j) (show 0 < pageSize by decide)
  rw [pieceSize_eq, cut_of_lt hlen hj]
  unfold cut
  cases j with
  | zero =>
    have hfirst : pageSize - prpEntry host cmd 0 % pageSize = firstBytes cmd := rfl
    rw [hfirst, entryStart_succ, entryStart_zero]
    omega
  | succ j =>
    rw [hp.aligned j hj, entryStart_succ, entryStart_succ]
    unfold pageSize
    omega

/-- The cursor when `j` entries have been taken. -/
def cursorAt (cmd : NvmeRwCommand) : Nat → PrpCursor
  | 0 => .start
  | 1 => ⟨1, 0, none⟩
  | j + 2 => if UsesList cmd then ⟨j + 2, j + 1, some cmd.prp2⟩ else ⟨j + 2, 0, none⟩

theorem cursorAt_prpOffs (j : Nat) : (cursorAt cmd j).prpOffs = j := by
  match j with
  | 0 => rfl
  | 1 => rfl
  | j + 2 =>
    rw [cursorAt]
    split <;> rfl

/-- Whatever the memory holds by then, the next entry is the one in its place. -/
theorem nextPrp_at (hlen : cmd.length < 2^16) {j : Nat} (hj : j < prpCount cmd) :
    nextPrp host cmd (cursorAt cmd j) (cmdIoSize cmd - cut cmd j) =
      .ok (cursorAt cmd (j + 1), prpEntry host cmd j) := by
  have hstart := (lt_prpCount_iff hlen).mp hj
  rw [cut_of_lt hlen hj]
  match j with
  | 0 => rfl
  | 1 =>
    have hiff : pageSize < cmdIoSize cmd - entryStart cmd 1 ↔ UsesList cmd := by
      rw [entryStart_succ] at hstart ⊢
      unfold UsesList
      omega
    by_cases hl : UsesList cmd
    · simp only [nextPrp, cursorAt, prpEntry, if_pos hl, if_pos (hiff.mpr hl)]
      rfl
    · simp only [nextPrp, cursorAt, prpEntry, if_neg hl, if_neg (mt hiff.mp hl)]
      rfl
  | j + 2 =>
    rw [entryStart_succ] at hstart
    have hl : UsesList cmd := by
      unfold UsesList pageSize
      omega
    simp [nextPrp, cursorAt, prpEntry, hl]

theorem fromStorage_succ (start offset paddr n : Nat) (mem : Memory) :
    mem.fromStorage (u64 (start + offset)) paddr (n + 1) =
      (mem.fromStorage (u64 (start + offset)) paddr n).fromStorage
        (u64 (start + (offset + n))) (paddr + n) 1 := by
  unfold Memory.fromStorage
  congr 1
  funext a
  dsimp only
  by_cases hlast : paddr + n ≤ a ∧ a < paddr + n + 1
  · have haddr : u64 (u64 (start + offset) + (a - paddr)) =
        u64 (u64 (start + (offset + n)) + (a - (paddr + n))) := by
      unfold u64
      omega
    rw [if_pos (by omega), if_pos hlast, haddr]
  rw [if_neg hlast]
  by_cases hin : paddr ≤ a ∧ a < paddr + n
  · rw [if_pos (by omega), if_pos hin]
  · rw [if_neg (by omega), if_neg hin]

/-- The `memcpy` of `n` bytes of the transfer from byte `offset` on. -/
def copyAt (cmd : NvmeRwCommand) (offset paddr n : Nat) (mem : Memory) : Memory :=
  transfer cmd (u64 (cmd.slba * lbaSize + offset)) paddr n mem

/-- A `memcpy` moves its bytes one after the other. -/
theorem copyAt_bytewise (cmd : NvmeRwCommand) : Bytewise (copyAt cmd) (2^64) := by
  constructor
  · intro offset paddr mem
    by_cases hw : WritesData cmd
    · simp [copyAt, transfer, hw, Memory.toStorage]
    by_cases hr : cmd.opcode = nvmeCmdRead
    · have hn : ∀ a, ¬ (paddr ≤ a ∧ a < paddr) := by omega
      simp [copyAt, transfer, hw, hr, Memory.fromStorage, hn]
    · simp [copyAt, transfer, hw, hr]
  · intro offset paddr n mem hfit
    by_cases hw : WritesData cmd
    · unfold copyAt
      rw [transfer_write hw (by omega), transfer_write hw (by omega), transfer_write hw (by omega),
        Piece.load_succ]
    by_cases hr : cmd.opcode = nvmeCmdRead
    · simp only [copyAt, transfer, if_neg hw, if_pos hr]
      exact fromStorage_succ _ offset paddr n mem
    · simp only [copyAt, transfer, if_neg hw, if_neg hr]

/-- The memory when the first `n` bytes have been moved. -/
def moved (cmd : NvmeRwCommand) (mem : Memory) (n : Nat) : Memory :=
  copyBytes (copyAt cmd) (bufferAddr mem.host cmd) 0 n mem

theorem describedTransfer_eq (cmd : NvmeRwCommand) (mem : Memory) :
    describedTransfer cmd mem = moved cmd mem (cmdIoSize cmd) := by
  unfold describedTransfer moved copyBytes
  rw [List.range_eq_range']
  rfl

theorem moved_succ (n : Nat) :
    moved cmd mem (n + 1) = copyAt cmd n (bufferAddr mem.host cmd n) 1 (moved cmd mem n) := by
  unfold moved
  rw [copyBytes_add, Nat.zero_add]
  rfl

theorem entry_follows (hlen : cmd.length < 2^16) {j : Nat} (hj : j < prpCount cmd) :
    Piece.Follows (bufferAddr host cmd) ⟨cut cmd j, prpEntry host cmd j, cut cmd (j + 1) - cut cmd j⟩ := by
  intro k hk
  have hcut : cut cmd (j + 1) ≤ entryStart cmd (j + 1) := Nat.min_le_left _ _
  change k < cut cmd (j + 1) - cut cmd j at hk
  change bufferAddr host cmd (cut cmd j + k) = prpEntry host cmd j + k
  rw [cut_of_lt hlen hj] at hk ⊢
  rw [bufferAddr_entry (Nat.le_add_right _ _) (by omega), Nat.add_sub_cancel_left]

theorem cut_lt_succ (hlen : cmd.length < 2^16) {j : Nat} (hj : j < prpCount cmd) :
    cut cmd j < cut cmd (j + 1) := by
  have hstart := (lt_prpCount_iff hlen).mp hj
  have hlt : entryStart cmd j < entryStart cmd (j + 1) := entryStart_lt_succ j
  unfold cut
  omega

theorem moved_entry (hlen : cmd.length < 2^16) {j : Nat} (hj : j < prpCount cmd) :
    copyAt cmd (cut cmd j) (prpEntry mem.host cmd j) (cut cmd (j + 1) - cut cmd j)
      (moved cmd mem (cut cmd j)) = moved cmd mem (cut cmd (j + 1)) := by
  have hle := cut_lt_succ hlen hj
  have hend := cut_le cmd (j + 1)
  have hsize := cmdIoSize_lt hlen
  have hfollow : Piece.Follows (bufferAddr mem.host cmd)
      ⟨cut cmd j, prpEntry mem.host cmd j, cut cmd (j + 1) - cut cmd j⟩ := entry_follows hlen hj
  have hpiece := (copyAt_bytewise cmd).piece (s := moved cmd mem (cut cmd j)) hfollow
    (show cut cmd j + (cut cmd (j + 1) - cut cmd j) ≤ 2^64 by omega)
  refine hpiece.trans ?_
  unfold moved
  conv_rhs => rw [show cut cmd (j + 1) = cut cmd j + (cut cmd (j + 1) - cut cmd j) by omega]
  rw [copyBytes_add, Nat.zero_add]

theorem copyAt_host {offset paddr a : Nat} (h : cmd.opcode = nvmeCmdRead → paddr ≠ a) :
    (copyAt cmd offset paddr 1 mem).host a = mem.host a := by
  unfold copyAt transfer
  by_cases hw : WritesData cmd
  · rw [if_pos hw]
    rfl
  by_cases hr : cmd.opcode = nvmeCmdRead
  · have hne := h hr
    rw [if_neg hw, if_pos hr]
    exact if_neg (by omega)
  · rw [if_neg hw, if_neg hr]

/-- Host memory changes only where a read brings its bytes. -/
theorem moved_host {n a : Nat}
    (h : cmd.opcode = nvmeCmdRead → ∀ i < n, bufferAddr mem.host cmd i ≠ a) :
    (moved cmd mem n).host a = mem.host a := by
  induction n with
  | zero => rfl
  | succ n ih =>
    rw [moved_succ, copyAt_host (fun hr => h hr n (Nat.lt_succ_self n))]
    exact ih (fun hr i hi => h hr i (Nat.lt_succ_of_lt hi))

theorem hostU64_congr {host' : Nat → UInt8} {a : Nat} (h : ∀ b < 8, host' (a + b) = host (a + b)) :
    hostU64 host' a = hostU64 host a := by
  unfold hostU64
  refine List.foldr_ext _ _ _ ?_
  intro b hb v
  rw [h b (List.mem_range.mp hb)]

theorem prpEntry_kept (hlen : cmd.length < 2^16) (hk : KeepsList mem.host cmd)
    {j : Nat} (hj : j < prpCount cmd) :
    prpEntry (moved cmd mem (cut cmd j)).host cmd j = prpEntry mem.host cmd j := by
  cases j with
  | zero => rfl
  | succ j =>
    simp only [prpEntry]
    by_cases hl : UsesList cmd
    · rw [if_pos hl, if_pos hl]
      refine hostU64_congr ?_
      intro b hb
      refine moved_host ?_
      intro hr i hi
      rw [cut_of_lt hlen hj] at hi
      exact hk hr hl j hj i hi b hb
    · rw [if_neg hl, if_neg hl]

/-- From entry `j` on, the loop moves what is left. -/
theorem performIoLoop_moves (hlen : cmd.length < 2^16) (hp : PrpsOk mem.host cmd) (hk : KeepsList mem.host cmd)
    {left j fuel : Nat} (hj : j + left = prpCount cmd) (hfuel : left ≤ fuel) :
    performIoLoop 0 cmd fuel (cursorAt cmd j) (u64 (cmdIoOffset cmd + cut cmd j))
      (cmdIoSize cmd - cut cmd j) (moved cmd mem (cut cmd j)) = .ok (moved cmd mem (cmdIoSize cmd)) := by
  induction left generalizing j fuel with
  | zero =>
    obtain rfl : j = prpCount cmd := hj
    rw [cut_end hlen, Nat.sub_self]
    cases fuel with
    | zero => rw [performIoLoop, if_pos rfl]
    | succ fuel => rw [performIoLoop, if_pos rfl]
  | succ left ih =>
    cases fuel with
    | zero => exact absurd hfuel (Nat.not_succ_le_zero left)
    | succ fuel =>
      have hlt : j < prpCount cmd := by omega
      have hcut := cut_lt_succ hlen hlt
      have hend := cut_le cmd (j + 1)
      rw [performIoLoop, if_neg (by omega), nextPrp_at hlen hlt, ok_bind]
      dsimp only
      rw [prpEntry_kept hlen hk hlt, pieceSize_entry hlen hp hlt]
      have hoff : u64 (u64 (cmdIoOffset cmd + cut cmd j) + (cut cmd (j + 1) - cut cmd j)) =
          u64 (cmdIoOffset cmd + cut cmd (j + 1)) := by
        unfold u64
        omega
      have haddr : u64 (0 + u64 (cmdIoOffset cmd + cut cmd j)) = u64 (cmd.slba * lbaSize + cut cmd j) := by
        unfold cmdIoOffset u64
        omega
      have hstep : copyAt cmd (cut cmd j) (prpEntry mem.host cmd j) (cut cmd (j + 1) - cut cmd j)
          (moved cmd mem (cut cmd j)) = moved cmd mem (cut cmd (j + 1)) := moved_entry hlen hlt
      unfold copyAt at hstep
      rw [hoff, haddr, hstep, Nat.sub_sub_sub_cancel_right (le_of_lt hcut)]
      exact ih (by omega) (Nat.le_of_succ_le_succ hfuel)

theorem doPerformIo_moves (hns : cmd.nsid = 1) (hmap : mapped 0 = some 0) (hlen : cmd.length < 2^16)
    (hp : PrpsOk mem.host cmd) (hk : KeepsList mem.host cmd) :
    doPerformIo mapped cmd mem = .ok (describedTransfer cmd mem) := by
  have hnsid : u32 (cmd.nsid + (2^32 - 1)) = 0 := by
    rw [hns]
    rfl
  have hstart : u64 (cmdIoOffset cmd + cut cmd 0) = cmdIoOffset cmd := by
    unfold cut cmdIoOffset u64
    rw [entryStart_zero]
    omega
  have hrun := performIoLoop_moves hlen hp hk (Nat.zero_add _) (prpCount_le hlen)
  have hzero : cut cmd 0 = 0 := Nat.zero_min _
  rw [hstart, hzero] at hrun
  unfold doPerformIo
  rw [hnsid, hmap, describedTransfer_eq]
  exact hrun

def entriesFrom (host : Nat → UInt8) (cmd : NvmeRwCommand) (j n : Nat) : List Nat :=
  (List.range' j n).map (prpEntry host cmd)

theorem entriesFrom_succ (j n : Nat) :
    entriesFrom host cmd j (n + 1) = prpEntry host cmd j :: entriesFrom host cmd (j + 1) n := by
  unfold entriesFrom
  rw [List.range'_succ, List.map_cons]

theorem gatherPrps_entries (hlen : cmd.length < 2^16) (hp : PrpsOk host cmd) {left j fuel : Nat}
    (paddrs : List Nat) (hj : j + left = prpCount cmd) (hfuel : left ≤ fuel) :
    gatherPrps host cmd fuel (cursorAt cmd j) (cmdIoSize cmd - cut cmd j) paddrs =
      .ok (paddrs ++ entriesFrom host cmd j left) := by
  induction left generalizing j fuel paddrs with
  | zero =>
    obtain rfl : j = prpCount cmd := hj
    rw [cut_end hlen, Nat.sub_self]
    cases fuel with
    | zero => simp [gatherPrps, entriesFrom]
    | succ fuel => simp [gatherPrps, entriesFrom]
  | succ left ih =>
    cases fuel with
    | zero => exact absurd hfuel (Nat.not_succ_le_zero left)
    | succ fuel =>
      have hlt : j < prpCount cmd := by omega
      have hcut := cut_lt_succ hlen hlt
      have hend := cut_le cmd (j + 1)
      have hcount := hp.count
      rw [gatherPrps, if_neg (by omega), nextPrp_at hlen hlt, ok_bind]
      dsimp only
      rw [cursorAt_prpOffs, if_neg (by omega), pieceSize_entry hlen hp hlt,
        Nat.sub_sub_sub_cancel_right (le_of_lt hcut),
        ih (paddrs ++ [prpEntry host cmd j]) (by omega) (Nat.le_of_succ_le_succ hfuel)]
      rw [entriesFrom_succ, List.append_assoc]
      rfl

/-- `n` entries behind entry `j` continue one another. -/
def RunsOn (host : Nat → UInt8) (cmd : NvmeRwCommand) (j n : Nat) : Prop :=
  ∀ m < n, prpEntry host cmd (j + m + 1) = u64 (prpEntry host cmd (j + m) + pageSize)

/-- The inner loop takes along the entries that continue the page before. -/
theorem contiguous_entries (left : Nat) : ∀ j, ∃ n ≤ left,
    contiguous (prpEntry host cmd j) (entriesFrom host cmd (j + 1) left) =
      (n, entriesFrom host cmd (j + 1 + n) (left - n)) ∧ RunsOn host cmd j n := by
  induction left with
  | zero => exact fun j => ⟨0, le_refl 0, rfl, fun m hm => absurd hm (Nat.not_lt_zero m)⟩
  | succ left ih =>
    intro j
    rw [entriesFrom_succ, contiguous]
    by_cases hnext : prpEntry host cmd (j + 1) = u64 (prpEntry host cmd j + pageSize)
    · obtain ⟨n, hn, hc, hrun⟩ := ih (j + 1)
      refine ⟨n + 1, Nat.succ_le_succ hn, ?_, ?_⟩
      · rw [if_pos hnext, hc, Nat.succ_sub_succ, show j + 1 + (n + 1) = j + 1 + 1 + n by omega]
      · intro m hm
        cases m with
        | zero => exact hnext
        | succ m =>
          have h := hrun m (Nat.lt_of_succ_lt_succ hm)
          rwa [show j + 1 + m = j + (m + 1) by omega] at h
    · refine ⟨0, Nat.zero_le _, ?_, fun m hm => absurd hm (Nat.not_lt_zero m)⟩
      rw [if_neg hnext, Nat.add_zero, Nat.sub_zero, entriesFrom_succ]

/-- Entries that continue each other lie on consecutive pages, the first of them aligned too. -/
theorem run_of_contiguous (hp : PrpsOk host cmd) {j n : Nat} (hn : j + n < prpCount cmd)
    (h : RunsOn host cmd j n) {m : Nat} (hm : m ≤ n) :
    prpEntry host cmd (j + m) = prpEntry host cmd j + m * pageSize := by
  induction m with
  | zero => simp
  | succ m ih =>
    have hlt : prpEntry host cmd (j + m) + pageSize < 2^64 := hp.below (j + m) (by omega)
    rw [← Nat.add_assoc, h m hm, u64, Nat.mod_eq_of_lt hlt, ih (Nat.le_of_succ_le hm)]
    unfold pageSize
    omega

theorem starts_of_contiguous (hp : PrpsOk host cmd) {j n : Nat} (hn : j + n < prpCount cmd)
    (h : RunsOn host cmd j n) {m : Nat} (hm : m ≤ n + 1) (hpos : 0 < n) :
    entryStart cmd (j + m) = entryStart cmd j + m * 4096 := by
  cases j with
  | zero =>
    -- the first entry is aligned because the one that continues it is
    have hal : prpEntry host cmd (0 + 1) % 4096 = 0 := hp.aligned 0 (by omega)
    have hone := run_of_contiguous hp hn h hpos
    have hfirst : firstBytes cmd = 4096 := by
      rw [hone] at hal
      have hz : prpEntry host cmd 0 = cmd.prp1 := rfl
      rw [hz] at hal
      unfold firstBytes pageSize at *
      omega
    cases m with
    | zero => rfl
    | succ m =>
      rw [Nat.zero_add, entryStart_succ, entryStart_zero, hfirst]
      omega
  | succ j =>
    rw [show j + 1 + m = j + m + 1 by omega, entryStart_succ, entryStart_succ]
    omega

theorem merged_size (hlen : cmd.length < 2^16) (hp : PrpsOk host cmd) {j n : Nat} (hn : j + n < prpCount cmd)
    (h : RunsOn host cmd j n) :
    min (cmdIoSize cmd - cut cmd j)
      (pieceSize (prpEntry host cmd j) (cmdIoSize cmd - cut cmd j) + n * pageSize) =
      cut cmd (j + 1 + n) - cut cmd j := by
  have hlt : j < prpCount cmd := by omega
  have hcut := cut_lt_succ hlen hlt
  have hend := cut_le cmd (j + 1)
  rw [pieceSize_entry hlen hp hlt]
  cases n with
  | zero =>
    rw [Nat.zero_mul, Nat.add_zero, Nat.add_zero]
    omega
  | succ n =>
    have hone := starts_of_contiguous hp hn h (m := 1) (by omega) (Nat.succ_pos n)
    have hall := starts_of_contiguous hp hn h (le_refl _) (Nat.succ_pos n)
    rw [cut_of_lt hlen (show j + 1 < prpCount cmd by omega), cut_of_lt hlen hlt, hone]
    unfold cut pageSize
    rw [show j + 1 + (n + 1) = j + (n + 1 + 1) by omega, hall]
    omega

theorem merged_follows (hlen : cmd.length < 2^16) (hp : PrpsOk host cmd) {j n : Nat}
    (hn : j + n < prpCount cmd) (h : RunsOn host cmd j n) :
    Piece.Follows (bufferAddr host cmd) ⟨cut cmd j, prpEntry host cmd j, cut cmd (j + 1 + n) - cut cmd j⟩ := by
  have hlt : j < prpCount cmd := by omega
  rcases Nat.eq_zero_or_pos n with rfl | hpos
  · exact entry_follows hlen hlt
  intro k hk
  have hstart : ∀ m ≤ n + 1, entryStart cmd (j + m) = entryStart cmd j + m * 4096 :=
    fun m hm => starts_of_contiguous hp hn h hm hpos
  have hcut : cut cmd (j + 1 + n) ≤ entryStart cmd (j + (n + 1)) := by
    rw [show j + 1 + n = j + (n + 1) by omega]
    exact Nat.min_le_left _ _
  change k < cut cmd (j + 1 + n) - cut cmd j at hk
  change bufferAddr host cmd (cut cmd j + k) = prpEntry host cmd j + k
  rw [hstart (n + 1) (le_refl _)] at hcut
  rw [cut_of_lt hlen hlt] at hk ⊢
  -- byte `k` is on page `k / 4096` of the run
  obtain ⟨m, hm⟩ : ∃ m, m = k / 4096 := ⟨_, rfl⟩
  have hmn : m ≤ n := by omega
  have hlo := hstart m (Nat.le_succ_of_le hmn)
  have hhi := hstart (m + 1) (Nat.succ_le_succ hmn)
  rw [bufferAddr_entry (j := j + m) (by omega) (by rw [Nat.add_assoc, hhi]; omega),
    run_of_contiguous hp hn h hmn, hlo]
  unfold pageSize
  omega

theorem dmaPieces_entries (hlen : cmd.length < 2^16) (hp : PrpsOk host cmd) {left j fuel : Nat}
    (hj : j + left = prpCount cmd) (hfuel : left ≤ fuel) : ∃ ps,
      dmaPieces fuel (entriesFrom host cmd j left) (cut cmd j) (cmdIoSize cmd - cut cmd j) = .ok ps ∧
      ∀ p ∈ ps, p.Follows (bufferAddr host cmd) := by
  induction fuel generalizing j left with
  | zero =>
    obtain rfl : j = prpCount cmd := by omega
    refine ⟨[], ?_, fun p hm => absurd hm List.not_mem_nil⟩
    unfold dmaPieces
    rw [cut_end hlen, Nat.sub_self, if_pos rfl]
  | succ fuel ih =>
    cases left with
    | zero =>
      obtain rfl : j = prpCount cmd := hj
      refine ⟨[], ?_, fun p hm => absurd hm List.not_mem_nil⟩
      unfold dmaPieces
      rw [cut_end hlen, Nat.sub_self, if_pos rfl]
    | succ left =>
      have hlt : j < prpCount cmd := by omega
      have hcut := cut_lt_succ hlen hlt
      have hend := cut_le cmd (j + 1)
      obtain ⟨n, hn, hc, hrun⟩ := @contiguous_entries cmd host left j
      have hlast : j + n < prpCount cmd := by omega
      obtain ⟨ps, hps, hfollow⟩ := @ih (left - n) (j + 1 + n) (by omega) (by omega)
      have hle : cut cmd j ≤ cut cmd (j + 1 + n) := cut_mono (by omega)
      refine ⟨⟨cut cmd j, prpEntry host cmd j, cut cmd (j + 1 + n) - cut cmd j⟩ :: ps, ?_, ?_⟩
      · unfold dmaPieces
        rw [entriesFrom_succ, if_neg (by omega)]
        dsimp only
        rw [hc]
        dsimp only
        rw [merged_size hlen hp hlast hrun, Nat.add_sub_cancel' hle, Nat.sub_sub_sub_cancel_right hle, hps]
        rfl
      · intro p hm
        rcases List.mem_cons.mp hm with rfl | hm
        · exact merged_follows hlen hp hlast hrun
        · exact hfollow p hm

theorem doPerformIoUsingDma_moves (hlen : cmd.length < 2^16) (hp : PrpsOk mem.host cmd) :
    doPerformIoUsingDma cmd mem = .ok (describedTransfer cmd mem) := by
  have hzero : cut cmd 0 = 0 := Nat.zero_min _
  have hgather := gatherPrps_entries hlen hp [] (Nat.zero_add _) (prpCount_le hlen)
  obtain ⟨ps, hps, hfollow⟩ := dmaPieces_entries hlen hp (Nat.zero_add _) (prpCount_le hlen)
  rw [hzero, Nat.sub_zero] at hgather hps
  have hlaid := dmaPieces_laid hps
  have hsize := cmdIoSize_lt hlen
  rw [Nat.zero_add] at hlaid
  have hcopy : (fun (m : Memory) (p : Piece) =>
      transfer cmd (u64 (cmdIoOffset cmd + p.offset)) p.addr p.size m) =
      fun m p => copyAt cmd p.offset p.addr p.size m := by
    funext m p
    unfold copyAt cmdIoOffset u64
    rw [Nat.mod_add_mod]
  have hmove := (copyAt_bytewise cmd).pieces (s := mem) hlaid (le_of_lt hsize) hfollow
  unfold doPerformIoUsingDma
  rw [show gatherPrps mem.host cmd (cmdIoSize cmd) .start (cmdIoSize cmd) [] =
    .ok ([] ++ entriesFrom mem.host cmd 0 (prpCount cmd)) from hgather, ok_bind, List.nil_append, hps, ok_bind,
    hcopy, hmove, describedTransfer_eq]
  rfl

/-- Both ways move the bytes that the PRP entries describe, one after the other, and nothing else. -/
theorem performIo_described (hns : cmd.nsid = 1) (hmap : mapped 0 = some 0) (hlen : cmd.length < 2^16)
    (hp : PrpsOk mem.host cmd) (hk : KeepsList mem.host cmd) (ioUsingDma : Bool) :
    performIo ioUsingDma mapped cmd mem = .ok (describedTransfer cmd mem) := by
  unfold performIo
  cases ioUsingDma with
  | true => exact doPerformIoUsingDma_moves hlen hp
  | false => exact doPerformIo_moves hns hmap hlen hp hk

/-- A host whose page at `0x8000` lists three consecutive pages. -/
def listedMem : Memory where
  host a := if a = 0x8001 then 0x20 else if a = 0x8009 then 0x30 else if a = 0x8011 then 0x40 else 0
  storage _ := 0

/-- A write of 24 blocks from the middle of a page. -/
def listedWrite : NvmeRwCommand := ⟨nvmeCmdWrite, 7, 1, 0x1200, 0x8000, 0, 23, 0⟩

theorem listedWrite_prps : PrpsOk listedMem.host listedWrite := by
  have hcount : prpCount listedWrite = 4 := by decide
  refine ⟨?_, ?_, ?_, fun _ => by decide⟩
  · intro j hj
    rw [hcount] at hj
    obtain rfl | rfl | rfl : j = 0 ∨ j = 1 ∨ j = 2 := by omega
    all_goals decide
  · intro j hj
    rw [hcount] at hj
    obtain rfl | rfl | rfl | rfl : j = 0 ∨ j = 1 ∨ j = 2 ∨ j = 3 := by omega
    all_goals decide
  · rw [hcount]
    decide

theorem performIo_described_write :
    entriesFrom listedMem.host listedWrite 0 4 = [0x1200, 0x2000, 0x3000, 0x4000] ∧
    ∀ ioUsingDma, performIo ioUsingDma (fun _ => some 0) listedWrite listedMem =
      .ok (describedTransfer listedWrite listedMem) :=
  ⟨by decide, performIo_described rfl rfl (by decide) listedWrite_prps (fun h => absurd h (by decide))⟩

/-- A host whose page at `0x1000` lists the two pages behind it. -/
def selfListedMem : Memory where
  host a := if a = 0x1001 then 0x20 else if a = 0x1009 then 0x30 else if 0x2000 ≤ a then 1 else 0
  storage _ := 0

/-- A read of 24 blocks whose first page is its list. -/
def selfListedRead : NvmeRwCommand := ⟨nvmeCmdRead, 7, 1, 0x1000, 0x1000, 0, 23, 0⟩

/-- The first page brings zeros into the list. One way goes on with the entries that it holds then,
the other one with those of before. -/
theorem performIo_overwrites_list : selfListedRead.nsid = 1 ∧ selfListedRead.length < 2^16 ∧
    PrpsOk selfListedMem.host selfListedRead ∧
    (doPerformIo (fun _ => some 0) selfListedRead selfListedMem).map (·.host 0x2000) = .ok 1 ∧
    (doPerformIoUsingDma selfListedRead selfListedMem).map (·.host 0x2000) = .ok 0 ∧
    doPerformIo (fun _ => some 0) selfListedRead selfListedMem ≠
      doPerformIoUsingDma selfListedRead selfListedMem := by
  have hcount : prpCount selfListedRead = 3 := by decide
  have hcpu : (doPerformIo (fun _ => some 0) selfListedRead selfListedMem).map (·.host 0x2000) = .ok 1 := by
    decide
  have hdma : (doPerformIoUsingDma selfListedRead selfListedMem).map (·.host 0x2000) = .ok 0 := by
    decide
  refine ⟨rfl, by decide, ⟨?_, ?_, ?_, fun _ => by decide⟩, hcpu, hdma, ?_⟩
  · intro j hj
    rw [hcount] at hj
    obtain rfl | rfl : j = 0 ∨ j = 1 := by omega
    all_goals decide
  · intro j hj
    rw [hcount] at hj
    obtain rfl | rfl | rfl : j = 0 ∨ j = 1 ∨ j = 2 := by omega
    all_goals decide
  · rw [hcount]
    decide
  · intro h
    rw [h, hdma] at hcpu
    cases hcpu

end NVMeVirt
