import NVMeVirt.IoThread
import NVMeVirt.SimpleFtl
import NVMeVirt.Lib.Gather

/-!
# The data transfer

`__do_perform_io` and `__do_perform_io_using_dma`: the worker follows the PRP entries of the
submission entry and copies piece by piece. Storage addresses count from the start of the
storage area, in 64 bits; the host's pages are outside of it. A mapped page is read at its
physical address.
-/

namespace NVMeVirt
set_option autoImplicit false
open Outcome Ranges Gather

def pageSize : Nat := 4096

structure Memory where
  host : Nat → UInt8
  storage : Nat → UInt8

/-- How far `a` lies behind `start` in 64-bit addresses. -/
def behind (start a : Nat) : Nat := u64 (a + (2^64 - u64 start))

def Memory.toStorage (mem : Memory) (dst paddr n : Nat) : Memory :=
  { mem with storage := fun a => if behind dst a < n then mem.host (paddr + behind dst a) else mem.storage a }

def Memory.fromStorage (mem : Memory) (src paddr n : Nat) : Memory :=
  { mem with host := fun a =>
      if paddr ≤ a ∧ a < paddr + n then mem.storage (u64 (src + (a - paddr))) else mem.host a }

/-- The `u64` at a host address. -/
def hostU64 (host : Nat → UInt8) (a : Nat) : Nat :=
  (List.range 8).foldr (fun i v => (host (a + i)).toNat + 256 * v) 0

def WritesData (cmd : NvmeRwCommand) : Prop := cmd.opcode = nvmeCmdWrite ∨ cmd.opcode = nvmeCmdZoneAppend

instance (cmd : NvmeRwCommand) : Decidable (WritesData cmd) := inferInstanceAs (Decidable (_ ∨ _))

/-- The `memcpy` of one piece, to or from storage address `addr`. -/
def transfer (cmd : NvmeRwCommand) (addr paddr n : Nat) (mem : Memory) : Memory :=
  if WritesData cmd then mem.toStorage addr paddr n
  else if cmd.opcode = nvmeCmdRead then mem.fromStorage addr paddr n
  else mem

def cmdIoOffset (cmd : NvmeRwCommand) : Nat := u64 (cmd.slba * lbaSize)

/-- `prp_offs`, `prp2_offs` and `paddr_list`; `none` is `NULL`. -/
structure PrpCursor where
  prpOffs : Nat
  prp2Offs : Nat
  paddrList : Option Nat
  deriving Repr, DecidableEq

def PrpCursor.start : PrpCursor := ⟨0, 0, none⟩

/-- The next entry: `prp1`, then `prp2` or the list that it points to. -/
def nextPrp (host : Nat → UInt8) (cmd : NvmeRwCommand) (c : PrpCursor) (remaining : Nat) :
    Except Fault (PrpCursor × Nat) :=
  let prpOffs := c.prpOffs + 1
  if prpOffs = 1 then .ok ({ c with prpOffs := prpOffs }, cmd.prp1)
  else if prpOffs = 2 then
    if pageSize < remaining then
      .ok (⟨prpOffs, c.prp2Offs + 1, some cmd.prp2⟩, hostU64 host (cmd.prp2 + 8 * c.prp2Offs))
    else .ok ({ c with prpOffs := prpOffs }, cmd.prp2)
  else
    match c.paddrList with
    | none => .error .badAddress
    | some l => .ok (⟨prpOffs, c.prp2Offs + 1, some l⟩, hostU64 host (l + 8 * c.prp2Offs))

/-- `io_size`: a page at most, and not over the end of the page. -/
def pieceSize (paddr remaining : Nat) : Nat :=
  let ioSize := min remaining pageSize
  let memOffs := paddr % pageSize
  if memOffs ≠ 0 ∧ pageSize < ioSize + memOffs then pageSize - memOffs else ioSize

/-- The `while (remaining)` of `__do_perform_io`. A read may change the host memory that the
next entry comes from. -/
def performIoLoop (mapped : Nat) (cmd : NvmeRwCommand) :
    Nat → PrpCursor → Nat → Nat → Memory → Except Fault Memory
  | 0, _, _, remaining, mem => if remaining = 0 then .ok mem else .error .outOfFuel
  | fuel + 1, c, offset, remaining, mem =>
    if remaining = 0 then .ok mem
    else do
      let (c, paddr) ← nextPrp mem.host cmd c remaining
      let ioSize := pieceSize paddr remaining
      performIoLoop mapped cmd fuel c (u64 (offset + ioSize)) (remaining - ioSize)
        (transfer cmd (u64 (mapped + offset)) paddr ioSize mem)

/-- `mapped` gives the start of each namespace; there is none for an unknown `nsid`. -/
def doPerformIo (mapped : Nat → Option Nat) (cmd : NvmeRwCommand) (mem : Memory) : Except Fault Memory :=
  match mapped (u32 (cmd.nsid + (2^32 - 1))) with
  | none => .error .badAddress
  | some start =>
    performIoLoop start cmd (cmdIoSize cmd) .start (cmdIoOffset cmd) (cmdIoSize cmd) mem

/-- The first loop, into `paddr_list[513]`. Index 0 stays unused. -/
def gatherPrps (host : Nat → UInt8) (cmd : NvmeRwCommand) :
    Nat → PrpCursor → Nat → List Nat → Except Fault (List Nat)
  | 0, _, remaining, paddrs => if remaining = 0 then .ok paddrs else .error .outOfFuel
  | fuel + 1, c, remaining, paddrs =>
    if remaining = 0 then .ok paddrs
    else do
      let (c, paddr) ← nextPrp host cmd c remaining
      if 512 < c.prpOffs then .error .badAddress
      gatherPrps host cmd fuel c (remaining - pieceSize paddr remaining) (paddrs ++ [paddr])

/-- The inner `for`: entries that continue the page before are taken along. -/
def contiguous (prev : Nat) : List Nat → Nat × List Nat
  | [] => (0, [])
  | paddr :: rest =>
    if paddr = u64 (prev + pageSize) then
      let (n, rest) := contiguous paddr rest
      (n + 1, rest)
    else (0, paddr :: rest)

/-- The second loop: the pieces that are submitted, by their offset in the command. -/
def dmaPieces : Nat → List Nat → Nat → Nat → Except Fault (List Piece)
  | 0, _, _, remaining => if remaining = 0 then .ok [] else .error .outOfFuel
  | fuel + 1, paddrs, offset, remaining =>
    if remaining = 0 then .ok []
    else
      match paddrs with
      | [] => .error .badAddress
      | paddr :: rest => do
        let (n, rest) := contiguous paddr rest
        let ioSize := min remaining (pieceSize paddr remaining + n * pageSize)
        let ps ← dmaPieces fuel rest (offset + ioSize) (remaining - ioSize)
        return ⟨offset, paddr, ioSize⟩ :: ps

/-- The target is `storage_start + offset`, whatever the namespace. The engine is taken to copy
what it is told to. -/
def doPerformIoUsingDma (cmd : NvmeRwCommand) (mem : Memory) : Except Fault Memory := do
  let paddrs ← gatherPrps mem.host cmd (cmdIoSize cmd) .start (cmdIoSize cmd) []
  let ps ← dmaPieces (cmdIoSize cmd) paddrs 0 (cmdIoSize cmd)
  return ps.foldl (fun mem p => transfer cmd (u64 (cmdIoOffset cmd + p.offset)) p.addr p.size mem) mem

/-- What a worker does for a request. -/
def performIo (ioUsingDma : Bool) (mapped : Nat → Option Nat) (cmd : NvmeRwCommand) (mem : Memory) :
    Except Fault Memory :=
  if ioUsingDma then doPerformIoUsingDma cmd mem else doPerformIo mapped cmd mem

/-- The pieces of `__do_perform_io`, by their offset in the command. -/
def prpPieces (host : Nat → UInt8) (cmd : NvmeRwCommand) :
    Nat → PrpCursor → Nat → Nat → Except Fault (List Piece)
  | 0, _, _, remaining => if remaining = 0 then .ok [] else .error .outOfFuel
  | fuel + 1, c, offset, remaining =>
    if remaining = 0 then .ok []
    else do
      let (c, paddr) ← nextPrp host cmd c remaining
      let ioSize := pieceSize paddr remaining
      let ps ← prpPieces host cmd fuel c (offset + ioSize) (remaining - ioSize)
      return ⟨offset, paddr, ioSize⟩ :: ps

/-- Where in host memory the data of the command is. -/
def pieces (ioUsingDma : Bool) (host : Nat → UInt8) (cmd : NvmeRwCommand) : Except Fault (List Piece) :=
  if ioUsingDma then do
    let paddrs ← gatherPrps host cmd (cmdIoSize cmd) .start (cmdIoSize cmd) []
    dmaPieces (cmdIoSize cmd) paddrs 0 (cmdIoSize cmd)
  else prpPieces host cmd (cmdIoSize cmd) .start 0 (cmdIoSize cmd)

/-- The storage address of the first byte. -/
def transferStart (ioUsingDma : Bool) (mapped : Nat → Option Nat) (cmd : NvmeRwCommand) : Option Nat :=
  if ioUsingDma then some (cmdIoOffset cmd)
  else (mapped (u32 (cmd.nsid + (2^32 - 1)))).map (· + cmdIoOffset cmd)

variable {cmd : NvmeRwCommand} {mapped : Nat → Option Nat} {mem mem' : Memory} {ioUsingDma : Bool}
  {host : Nat → UInt8}

theorem pieceSize_eq (paddr remaining : Nat) :
    pieceSize paddr remaining = min remaining (pageSize - paddr % pageSize) := by
  have := Nat.mod_lt paddr (show 0 < pageSize by decide)
  unfold pieceSize
  simp only
  split <;> omega

theorem pieceSize_le (paddr remaining : Nat) : pieceSize paddr remaining ≤ remaining := by
  unfold pieceSize pageSize
  simp only
  split <;> omega

theorem pieceSize_pos {paddr remaining : Nat} (h : remaining ≠ 0) : 0 < pieceSize paddr remaining := by
  unfold pieceSize pageSize
  simp only
  split <;> omega

theorem prpPieces_laid {fuel offset remaining : Nat} {c : PrpCursor} {ps : List Piece}
    (h : prpPieces host cmd fuel c offset remaining = .ok ps) : Laid offset ps (offset + remaining) := by
  induction fuel generalizing c offset remaining ps with
  | zero =>
    rw [prpPieces] at h
    split at h
    · cases h
      simp_all [Laid, Tiles]
    · cases h
  | succ fuel ih =>
    rw [prpPieces] at h
    split at h
    · cases h
      simp_all [Laid, Tiles]
    · rename_i hne
      obtain ⟨⟨c', paddr⟩, _, h⟩ := bind_eq_ok.mp h
      obtain ⟨rest, hrest, h⟩ := bind_eq_ok.mp h
      cases h
      have hle := pieceSize_le paddr remaining
      have hl := ih hrest
      rw [show offset + pieceSize paddr remaining + (remaining - pieceSize paddr remaining) =
        offset + remaining by omega] at hl
      exact ⟨rfl, pieceSize_pos hne, hl⟩

theorem dmaPieces_laid {fuel offset remaining : Nat} {paddrs : List Nat} {ps : List Piece}
    (h : dmaPieces fuel paddrs offset remaining = .ok ps) : Laid offset ps (offset + remaining) := by
  induction fuel generalizing paddrs offset remaining ps with
  | zero =>
    unfold dmaPieces at h
    split at h
    · cases h
      simp_all [Laid, Tiles]
    · cases h
  | succ fuel ih =>
    unfold dmaPieces at h
    split at h
    · cases h
      simp_all [Laid, Tiles]
    · rename_i hne
      cases paddrs with
      | nil => cases h
      | cons paddr paddrs =>
        obtain ⟨rest, hrest, h⟩ := bind_eq_ok.mp h
        cases h
        have hpos : 0 < pieceSize paddr remaining := pieceSize_pos hne
        obtain ⟨n, hn⟩ : ∃ n, n = min remaining (pieceSize paddr remaining +
          (contiguous paddr paddrs).1 * pageSize) := ⟨_, rfl⟩
        have hl := ih hrest
        rw [← hn] at hl ⊢
        rw [show offset + n + (remaining - n) = offset + remaining by omega] at hl
        exact ⟨rfl, by show 0 < n; omega, hl⟩

theorem pieces_laid {ps : List Piece} (h : pieces ioUsingDma host cmd = .ok ps) :
    Laid 0 ps (cmdIoSize cmd) := by
  unfold pieces at h
  cases ioUsingDma with
  | true =>
    obtain ⟨paddrs, _, h⟩ := bind_eq_ok.mp h
    simpa using dmaPieces_laid h
  | false => simpa using prpPieces_laid h

theorem behind_shift {start done n a : Nat} (hfit : done + n ≤ 2^64) :
    behind (u64 (start + done)) a < n ↔ done ≤ behind start a ∧ behind start a < done + n := by
  unfold behind u64
  omega

theorem transfer_write (hw : WritesData cmd) {start offset paddr n : Nat} (hfit : offset + n ≤ 2^64) :
    transfer cmd (u64 (start + offset)) paddr n mem =
      { mem with storage := Piece.load (behind start) mem.host ⟨offset, paddr, n⟩ mem.storage } := by
  unfold transfer Memory.toStorage
  rw [if_pos hw]
  congr 1
  funext a
  have hiff : behind (u64 (start + offset)) a < n ↔
      offset ≤ behind start a ∧ behind start a < offset + n := behind_shift hfit
  have heq : behind (u64 (start + offset)) a < n →
      behind (u64 (start + offset)) a = behind start a - offset := by
    unfold behind u64
    omega
  unfold Piece.load
  by_cases h : behind (u64 (start + offset)) a < n
  · rw [if_pos h, if_pos (hiff.mp h), heq h]
  · rw [if_neg h, if_neg (fun hc => h (hiff.mpr hc))]

theorem transfer_storage (hw : ¬ WritesData cmd) {addr paddr n : Nat} :
    (transfer cmd addr paddr n mem).storage = mem.storage := by
  unfold transfer
  rw [if_neg hw]
  split <;> rfl

theorem transferAll_storage (hw : ¬ WritesData cmd) {start : Nat} {ps : List Piece} :
    (ps.foldl (fun mem p => transfer cmd (u64 (start + p.offset)) p.addr p.size mem) mem).storage =
      mem.storage := by
  induction ps generalizing mem with
  | nil => rfl
  | cons p ps ih => exact ih.trans (transfer_storage hw)

theorem transferAll_write (hw : WritesData cmd) {start lo hi : Nat} {ps : List Piece} (h : Laid lo ps hi)
    (hfit : hi ≤ 2^64) :
    ps.foldl (fun mem p => transfer cmd (u64 (start + p.offset)) p.addr p.size mem) mem =
      { mem with storage := loadAll (behind start) mem.host ps mem.storage } := by
  induction ps generalizing lo mem with
  | nil => rfl
  | cons p ps ih =>
    obtain ⟨h₁, _, hl⟩ := h
    have hle := hl.le
    have h₁' : p.offset = lo := h₁
    have hsize : lo + p.size ≤ hi := hle
    rw [List.foldl_cons, transfer_write hw (by omega : p.offset + p.size ≤ 2^64), ih hl]
    rfl

theorem performIoLoop_write (hw : WritesData cmd) {start base done fuel remaining : Nat} {c : PrpCursor}
    (hfit : done + remaining ≤ 2^64)
    (h : performIoLoop start cmd fuel c (u64 (base + done)) remaining mem = .ok mem') :
    ∃ ps, prpPieces mem.host cmd fuel c done remaining = .ok ps ∧
      mem' = { mem with storage := loadAll (behind (start + base)) mem.host ps mem.storage } := by
  induction fuel generalizing c done remaining mem with
  | zero =>
    rw [performIoLoop] at h
    split at h
    · rename_i hr
      cases h
      exact ⟨[], by rw [prpPieces, if_pos hr], rfl⟩
    · cases h
  | succ fuel ih =>
    rw [performIoLoop] at h
    split at h
    · rename_i hr
      cases h
      exact ⟨[], by rw [prpPieces, if_pos hr], rfl⟩
    · rename_i hr
      obtain ⟨⟨c', paddr⟩, hprp, h⟩ := bind_eq_ok.mp h
      have hle := pieceSize_le paddr remaining
      have haddr : u64 (start + u64 (base + done)) = u64 (start + base + done) := by
        unfold u64
        omega
      have hnext : u64 (u64 (base + done) + pieceSize paddr remaining) =
          u64 (base + (done + pieceSize paddr remaining)) := by
        unfold u64
        omega
      simp only [haddr, hnext, transfer_write hw (by omega : done + pieceSize paddr remaining ≤ 2^64)] at h
      obtain ⟨ps, hps, hmem⟩ := ih (by omega) h
      refine ⟨⟨done, paddr, pieceSize paddr remaining⟩ :: ps, ?_, hmem⟩
      rw [prpPieces, if_neg hr, hprp, ok_bind]
      simp only [hps, ok_bind, pure_eq_ok]

theorem performIoLoop_storage (hw : ¬ WritesData cmd) {start offset fuel remaining : Nat} {c : PrpCursor}
    (h : performIoLoop start cmd fuel c offset remaining mem = .ok mem') : mem'.storage = mem.storage := by
  induction fuel generalizing c offset remaining mem with
  | zero =>
    rw [performIoLoop] at h
    split at h <;> cases h
    rfl
  | succ fuel ih =>
    rw [performIoLoop] at h
    split at h
    · cases h
      rfl
    · obtain ⟨⟨c', paddr⟩, _, h⟩ := bind_eq_ok.mp h
      rw [ih h, transfer_storage hw]

/-- A write leaves the host memory alone and loads its pieces. -/
theorem performIo_write (hw : WritesData cmd) (hlen : cmd.length < 2^16)
    (h : performIo ioUsingDma mapped cmd mem = .ok mem') :
    ∃ start ps, transferStart ioUsingDma mapped cmd = some start ∧
      pieces ioUsingDma mem.host cmd = .ok ps ∧
      mem'.storage = loadAll (behind start) mem.host ps mem.storage := by
  have hsize : cmdIoSize cmd ≤ 2^64 := by
    unfold cmdIoSize lbaSize lbaBits
    omega
  unfold performIo at h
  unfold transferStart pieces
  cases ioUsingDma with
  | true =>
    obtain ⟨paddrs, hpaddrs, h⟩ := bind_eq_ok.mp h
    obtain ⟨ps, hps, h⟩ := bind_eq_ok.mp h
    cases h
    refine ⟨cmdIoOffset cmd, ps, rfl, ?_, ?_⟩
    · simp only [if_true, hpaddrs, ok_bind, hps]
    · have hl := dmaPieces_laid hps
      rw [transferAll_write hw hl (by omega)]
  | false =>
    simp only [Bool.false_eq_true, if_false, doPerformIo] at h ⊢
    split at h
    · cases h
    · rename_i start hstart
      rw [show cmdIoOffset cmd = u64 (cmdIoOffset cmd + 0) from (Nat.mod_mod _ _).symm] at h
      obtain ⟨ps, hps, rfl⟩ := performIoLoop_write hw (by omega) h
      exact ⟨_, ps, by rw [hstart]; rfl, hps, rfl⟩

theorem performIo_storage (hw : ¬ WritesData cmd) (h : performIo ioUsingDma mapped cmd mem = .ok mem') :
    mem'.storage = mem.storage := by
  unfold performIo at h
  cases ioUsingDma with
  | true =>
    obtain ⟨paddrs, _, h⟩ := bind_eq_ok.mp h
    obtain ⟨ps, _, h⟩ := bind_eq_ok.mp h
    cases h
    exact transferAll_storage hw
  | false =>
    simp only [Bool.false_eq_true, if_false, doPerformIo] at h
    split at h
    · cases h
    · exact performIoLoop_storage hw h

/-- The command brings to the cells of `s` what they hold already. -/
def SameData (ioUsingDma : Bool) (mapped : Nat → Option Nat) (cmd : NvmeRwCommand) (mem : Memory)
    (s : Nat → Prop) : Prop :=
  ∀ start ps, transferStart ioUsingDma mapped cmd = some start →
    pieces ioUsingDma mem.host cmd = .ok ps →
    ∀ p ∈ ps, ∀ a, s a → Within p.range (behind start a) →
      mem.storage a = mem.host (p.addr + (behind start a - p.offset))

/-- A transfer leaves the cells of `s` alone exactly when it is no write or brings nothing new. -/
theorem performIo_unchanged_iff (hlen : cmd.length < 2^16)
    (h : performIo ioUsingDma mapped cmd mem = .ok mem') (s : Nat → Prop) :
    (∀ a, s a → mem'.storage a = mem.storage a) ↔
      ¬ WritesData cmd ∨ SameData ioUsingDma mapped cmd mem s := by
  by_cases hw : WritesData cmd
  · obtain ⟨start, ps, hstart, hps, hmem⟩ := performIo_write hw hlen h
    rw [hmem, loadAll_unchanged_iff (pieces_laid hps) s]
    constructor
    · intro hsame
      refine .inr (fun start' ps' hstart' hps' => ?_)
      cases hstart.symm.trans hstart'
      cases hps.symm.trans hps'
      exact hsame
    · intro hsame
      exact (hsame.resolve_left (fun hn => hn hw)) start ps hstart hps
  · rw [performIo_storage hw h]
    exact ⟨fun _ => .inl hw, fun _ _ _ => rfl⟩

theorem performIo_outside (hlen : cmd.length < 2^16) {start : Nat}
    (h : performIo ioUsingDma mapped cmd mem = .ok mem')
    (hstart : transferStart ioUsingDma mapped cmd = some start) {a : Nat}
    (ha : cmdIoSize cmd ≤ behind start a) : mem'.storage a = mem.storage a := by
  by_cases hw : WritesData cmd
  · obtain ⟨start', ps, hstart', hps, hmem⟩ := performIo_write hw hlen h
    cases hstart.symm.trans hstart'
    rw [hmem]
    exact loadAll_outside (pieces_laid hps) (.inr ha)
  · rw [performIo_storage hw h]

/-- The storage side of each `memcpy` of `__do_perform_io`: address and size. -/
def ioAccesses (mapped : Nat) (cmd : NvmeRwCommand) :
    Nat → PrpCursor → Nat → Nat → Memory → Except Fault (List (Nat × Nat))
  | 0, _, _, remaining, _ => if remaining = 0 then .ok [] else .error .outOfFuel
  | fuel + 1, c, offset, remaining, mem =>
    if remaining = 0 then .ok []
    else do
      let (c, paddr) ← nextPrp mem.host cmd c remaining
      let ioSize := pieceSize paddr remaining
      let rest ← ioAccesses mapped cmd fuel c (u64 (offset + ioSize)) (remaining - ioSize)
        (transfer cmd (u64 (mapped + offset)) paddr ioSize mem)
      return (u64 (mapped + offset), ioSize) :: rest

/-- The storage side of all copies that are made for a read or write. -/
def storageAccesses (ioUsingDma : Bool) (mapped : Nat → Option Nat) (cmd : NvmeRwCommand) (mem : Memory) :
    Except Fault (List (Nat × Nat)) :=
  if ioUsingDma then do
    let ps ← pieces true mem.host cmd
    return ps.map fun p => (u64 (cmdIoOffset cmd + p.offset), p.size)
  else
    match mapped (u32 (cmd.nsid + (2^32 - 1))) with
    | none => .error .badAddress
    | some start => ioAccesses start cmd (cmdIoSize cmd) .start (cmdIoOffset cmd) (cmdIoSize cmd) mem

/-- One of the accesses reaches address `a`. -/
def Reaches (accesses : List (Nat × Nat)) (a : Nat) : Prop := ∃ r ∈ accesses, behind r.1 a < r.2

theorem ioAccesses_reaches {start base done fuel remaining : Nat} {c : PrpCursor}
    {accesses : List (Nat × Nat)} (hfit : done + remaining ≤ 2^64)
    (h : ioAccesses start cmd fuel c (u64 (base + done)) remaining mem = .ok accesses) (a : Nat) :
    Reaches accesses a ↔
      done ≤ behind (start + base) a ∧ behind (start + base) a < done + remaining := by
  induction fuel generalizing c done remaining mem accesses with
  | zero =>
    rw [ioAccesses] at h
    split at h
    · cases h
      simp only [Reaches, List.not_mem_nil, false_and, exists_false, false_iff]
      omega
    · cases h
  | succ fuel ih =>
    rw [ioAccesses] at h
    split at h
    · cases h
      simp only [Reaches, List.not_mem_nil, false_and, exists_false, false_iff]
      omega
    · obtain ⟨⟨c', paddr⟩, _, h⟩ := bind_eq_ok.mp h
      obtain ⟨rest, hrest, h⟩ := bind_eq_ok.mp h
      cases h
      have hle := pieceSize_le paddr remaining
      have hnext : u64 (u64 (base + done) + pieceSize paddr remaining) =
          u64 (base + (done + pieceSize paddr remaining)) := by
        unfold u64
        omega
      have haddr : u64 (start + u64 (base + done)) = u64 (start + base + done) := by
        unfold u64
        omega
      simp only [hnext] at hrest
      have hcons : Reaches ((u64 (start + u64 (base + done)), pieceSize paddr remaining) :: rest) a ↔
          behind (u64 (start + u64 (base + done))) a < pieceSize paddr remaining ∨ Reaches rest a := by
        simp [Reaches]
      rw [hcons, ih (by omega) hrest, haddr, behind_shift (by omega)]
      omega

theorem dmaAccesses_reaches {start lo hi : Nat} {ps : List Piece} (h : Laid lo ps hi) (hfit : hi ≤ 2^64)
    (a : Nat) : Reaches (ps.map fun p => (u64 (start + p.offset), p.size)) a ↔
      lo ≤ behind start a ∧ behind start a < hi := by
  induction ps generalizing lo with
  | nil =>
    obtain rfl : lo = hi := h
    simp only [Reaches, List.map_nil, List.not_mem_nil, false_and, exists_false, false_iff]
    omega
  | cons p ps ih =>
    obtain ⟨h₁, _, hl⟩ := h
    have hle := hl.le
    have h₁' : p.offset = lo := h₁
    have hsize : lo + p.size ≤ hi := hle
    have hrest := ih hl
    change _ ↔ lo + p.size ≤ _ ∧ _ at hrest
    have hcons : Reaches ((p :: ps).map fun p => (u64 (start + p.offset), p.size)) a ↔
        behind (u64 (start + p.offset)) a < p.size ∨
          Reaches (ps.map fun p => (u64 (start + p.offset), p.size)) a := by
      simp [Reaches]
    rw [hcons, hrest, behind_shift (by omega)]
    omega

/-- Together the copies reach the bytes from the start of the transfer on, as many as it has. -/
theorem storageAccesses_reaches (hlen : cmd.length < 2^16) {accesses : List (Nat × Nat)}
    (h : storageAccesses ioUsingDma mapped cmd mem = .ok accesses) :
    ∃ start, transferStart ioUsingDma mapped cmd = some start ∧
      ∀ a, Reaches accesses a ↔ behind start a < cmdIoSize cmd := by
  have hsize : cmdIoSize cmd ≤ 2^64 := by
    unfold cmdIoSize lbaSize lbaBits
    omega
  unfold storageAccesses at h
  unfold transferStart
  cases ioUsingDma with
  | true =>
    obtain ⟨ps, hps, h⟩ := bind_eq_ok.mp h
    cases h
    refine ⟨cmdIoOffset cmd, rfl, fun a => ?_⟩
    rw [dmaAccesses_reaches (pieces_laid hps) hsize]
    simp
  | false =>
    simp only [Bool.false_eq_true, if_false] at h ⊢
    split at h
    · cases h
    · rename_i start hstart
      refine ⟨start + cmdIoOffset cmd, by rw [hstart]; rfl, fun a => ?_⟩
      rw [show cmdIoOffset cmd = u64 (cmdIoOffset cmd + 0) from (Nat.mod_mod _ _).symm] at h
      rw [ioAccesses_reaches (by omega) h]
      simp

/-- What the actions of a worker do to the memory; the submission entry is read again. -/
def performActions (ioUsingDma : Bool) (mapped : Nat → Option Nat) (sqes : Nat → Option SubmissionQueue) :
    List WorkerAction → Memory → Except Fault Memory
  | [], mem => .ok mem
  | .performIo sqid sqEntry :: rest, mem => do
    match sqes sqid with
    | none => .error .badAddress
    | some sq =>
      let mem ← performIo ioUsingDma mapped (sq.sq sqEntry) mem
      performActions ioUsingDma mapped sqes rest mem
  | .fillCqResult _ :: rest, mem => performActions ioUsingDma mapped sqes rest mem
  | .bufferRelease _ _ :: rest, mem => performActions ioUsingDma mapped sqes rest mem

theorem performActions_finish {sqes : Nat → Option SubmissionQueue} (w : IoWork) :
    performActions ioUsingDma mapped sqes [finishOf w] mem = .ok mem := by
  unfold finishOf
  split <;> rfl

/-- A command that its handler answered with an error, and the work entry that was made for it. -/
structure Rejected {σ : Type} (proc : ProcIoCmd σ) (d : Dispatcher σ) (sq : SubmissionQueue)
    (sqid sqEntry wall now : Nat) (o : HandlerOutcome σ) (worker : IoWorker) (e : Nat) : Prop where
  handled : handled proc d sq sqid sqEntry wall = .ok o
  accepted : o.accepted = true
  failed : o.ret.status ≠ nvmeScSuccess
  entry : ∃ w, (worker.workQueue e).data =
    (requestWork sqid sq.cqid sqEntry o.cmd.commandId wall now o.ret w).data

/-- The turn of the worker makes the transfer, whatever status the entry has. -/
theorem Rejected.transfers {σ : Type} {proc : ProcIoCmd σ} {d : Dispatcher σ} {sq sq' : SubmissionQueue}
    {sqid sqEntry wall now time e : Nat} {o : HandlerOutcome σ} {worker : IoWorker}
    {sqes : Nat → Option SubmissionQueue} (r : Rejected proc d sq sqid sqEntry wall now o worker e)
    (hsq : sqes sqid = some sq')
    (h : performActions ioUsingDma mapped sqes (workerTurn worker e time).2.2 mem = .ok mem') :
    performIo ioUsingDma mapped (sq'.sq sqEntry) mem = .ok mem' := by
  obtain ⟨w, hw⟩ := r.entry
  have hdone := IoWork.isCompleted_congr hw
  obtain ⟨hentry, hinternal, hcopied⟩ := IoWork.data_congr hw
  have hsqid : (worker.workQueue e).sqid = sqid := congrArg IoWork.sqid hw
  have hcopy : copyActions (worker.workQueue e) = [.performIo sqid sqEntry] := by
    rw [copyActions, hcopied, hinternal, hentry, hsqid]
    rfl
  have hio : ∀ rest, performActions ioUsingDma mapped sqes (.performIo sqid sqEntry :: rest) mem =
      performIo ioUsingDma mapped (sq'.sq sqEntry) mem >>= performActions ioUsingDma mapped sqes rest := by
    intro rest
    rw [performActions, hsq]
  by_cases ht : (worker.workQueue e).nsecsTarget ≤ time
  · rw [workerTurn_finish hdone ht, hcopy] at h
    obtain ⟨m, hm, h⟩ := bind_eq_ok.mp ((hio _).symm.trans h)
    cases (performActions_finish _).symm.trans h
    exact hm
  · rw [workerTurn_wait hdone (Nat.lt_of_not_le ht), hcopy] at h
    obtain ⟨m, hm, h⟩ := bind_eq_ok.mp ((hio _).symm.trans h)
    cases h
    exact hm

end NVMeVirt
