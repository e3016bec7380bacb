import NVMeVirt.Lib.Ranges

/-!
# Gathered copies

A transfer brings bytes `lo` to `hi` in pieces, each from a place of its own. `pos` says
which byte of the transfer a cell of the target takes.
-/

namespace Gather
set_option autoImplicit false
open Ranges

universe u v

variable {α : Type u} {β : Type v}

structure Piece where
  offset : Nat
  addr : Nat
  size : Nat
  deriving Repr, DecidableEq

def Piece.range (p : Piece) : Nat × Nat := (p.offset, p.size)

def Piece.load (pos : α → Nat) (host : Nat → β) (p : Piece) (mem : α → β) : α → β := fun a =>
  if p.offset ≤ pos a ∧ pos a < p.offset + p.size then host (p.addr + (pos a - p.offset)) else mem a

def loadAll (pos : α → Nat) (host : Nat → β) (ps : List Piece) (mem : α → β) : α → β :=
  ps.foldl (fun mem p => p.load pos host mem) mem

def Laid (lo : Nat) (ps : List Piece) (hi : Nat) : Prop := Tiles lo (ps.map Piece.range) hi

variable {pos : α → Nat} {host : Nat → β} {mem : α → β} {ps : List Piece} {lo hi : Nat}

theorem Laid.end_le (h : Laid lo ps hi) {p : Piece} (hp : p ∈ ps) : p.offset + p.size ≤ hi := by
  induction ps generalizing lo with
  | nil => exact absurd hp List.not_mem_nil
  | cons q ps ih =>
    obtain ⟨h₁, h₂, hl⟩ := h
    rcases List.mem_cons.mp hp with rfl | hp
    · rw [show p.offset = lo from h₁]
      exact hl.le
    · exact ih hl hp

theorem Piece.load_outside {p : Piece} {a : α} (h : ¬ Within p.range (pos a)) :
    p.load pos host mem a = mem a := if_neg h

theorem Piece.load_inside {p : Piece} {a : α} (h : Within p.range (pos a)) :
    p.load pos host mem a = host (p.addr + (pos a - p.offset)) := if_pos h

theorem Piece.load_succ (offset addr n : Nat) : Piece.load pos host ⟨offset, addr, n + 1⟩ mem =
    Piece.load pos host ⟨offset + n, addr + n, 1⟩ (Piece.load pos host ⟨offset, addr, n⟩ mem) := by
  funext a
  unfold Piece.load
  dsimp only
  by_cases hlast : offset + n ≤ pos a ∧ pos a < offset + n + 1
  · rw [if_pos (by omega), if_pos hlast, show addr + (pos a - offset) = addr + n + (pos a - (offset + n)) by omega]
  rw [if_neg hlast]
  by_cases hin : offset ≤ pos a ∧ pos a < offset + n
  · rw [if_pos (by omega), if_pos hin]
  · rw [if_neg (by omega), if_neg hin]

theorem loadAll_outside (h : Laid lo ps hi) {a : α} (ha : pos a < lo ∨ hi ≤ pos a) :
    loadAll pos host ps mem a = mem a := by
  induction ps generalizing lo mem with
  | nil => rfl
  | cons p ps ih =>
    obtain ⟨h₁, h₂, hl⟩ := h
    have hle := hl.le
    have hout : ¬ Within p.range (pos a) := by
      unfold Within
      omega
    exact (ih hl (by omega)).trans (Piece.load_outside hout)

theorem loadAll_inside (h : Laid lo ps hi) {p : Piece} (hp : p ∈ ps) {a : α}
    (ha : Within p.range (pos a)) :
    loadAll pos host ps mem a = host (p.addr + (pos a - p.offset)) := by
  induction ps generalizing lo mem with
  | nil => exact absurd hp List.not_mem_nil
  | cons q ps ih =>
    obtain ⟨h₁, h₂, hl⟩ := h
    rcases List.mem_cons.mp hp with rfl | hp
    · -- the later pieces start after this one
      have hlt : pos a < lo + p.range.2 := h₁ ▸ ha.2
      exact (loadAll_outside hl (.inl hlt)).trans (Piece.load_inside ha)
    · exact ih hl hp

theorem loadAll_eq (h : Laid 0 ps hi) (base : Nat → β) (a : α) :
    loadAll pos host ps mem a = if pos a < hi then loadAll id host ps base (pos a) else mem a := by
  by_cases hin : pos a < hi
  · obtain ⟨r, hr, hw⟩ := (h.cover (pos a)).mpr ⟨Nat.zero_le _, hin⟩
    obtain ⟨p, hp, rfl⟩ := List.mem_map.mp hr
    rw [if_pos hin, loadAll_inside h hp hw, loadAll_inside h hp (show Within p.range (id (pos a)) from hw)]
    rfl
  · rw [if_neg hin, loadAll_outside h (.inr (Nat.le_of_not_lt hin))]

/-- Nothing changes in `s` exactly when each piece brings there what is there already. -/
theorem loadAll_unchanged_iff (h : Laid lo ps hi) (s : α → Prop) :
    (∀ a, s a → loadAll pos host ps mem a = mem a) ↔
      ∀ p ∈ ps, ∀ a, s a → Within p.range (pos a) → mem a = host (p.addr + (pos a - p.offset)) := by
  constructor
  · intro hsame p hp a hs ha
    rw [← hsame a hs]
    exact loadAll_inside h hp ha
  · intro hsame a hs
    by_cases hin : lo ≤ pos a ∧ pos a < hi
    · obtain ⟨r, hr, hw⟩ := (h.cover (pos a)).mpr hin
      obtain ⟨p, hp, rfl⟩ := List.mem_map.mp hr
      rw [loadAll_inside h hp hw]
      exact (hsame p hp a hs hw).symm
    · exact loadAll_outside h (by omega)

section Bytes
variable {σ : Type u} (copy : Nat → Nat → Nat → σ → σ) {addr : Nat → Nat} {bound : Nat} {s : σ}

/-- `copy offset addr n` moves the bytes from `offset` on one after the other, up to `bound`. -/
structure Bytewise (bound : Nat) : Prop where
  zero : ∀ offset addr s, copy offset addr 0 s = s
  succ : ∀ offset addr n s, offset + n < bound →
    copy offset addr (n + 1) s = copy (offset + n) (addr + n) 1 (copy offset addr n s)

/-- Bytes `lo` to `lo + n` of the transfer, byte `i` from or to `addr i`. -/
def copyBytes (addr : Nat → Nat) (lo n : Nat) (s : σ) : σ :=
  (List.range' lo n).foldl (fun s i => copy i (addr i) 1 s) s

/-- The piece is where `addr` says. -/
def Piece.Follows (addr : Nat → Nat) (p : Piece) : Prop := ∀ k < p.size, addr (p.offset + k) = p.addr + k

variable {copy}

theorem copyBytes_add (lo n m : Nat) :
    copyBytes copy addr lo (n + m) s = copyBytes copy addr (lo + n) m (copyBytes copy addr lo n s) := by
  unfold copyBytes
  rw [← List.range'_append_1, List.foldl_append]

theorem Bytewise.piece (h : Bytewise copy bound) {p : Piece} (hp : p.Follows addr)
    (hb : p.offset + p.size ≤ bound) :
    copy p.offset p.addr p.size s = copyBytes copy addr p.offset p.size s := by
  obtain ⟨offset, paddr, n⟩ := p
  change offset + n ≤ bound at hb
  change copy offset paddr n s = copyBytes copy addr offset n s
  induction n with
  | zero => exact h.zero offset paddr s
  | succ n ih =>
    have hlast : addr (offset + n) = paddr + n := hp n (Nat.lt_succ_self n)
    rw [h.succ offset paddr n s (by omega), copyBytes_add, ← hlast,
      ih (fun k hk => hp k (Nat.lt_succ_of_lt hk)) (by omega)]
    rfl

/-- However a transfer is cut into pieces, it moves the same bytes in the same order. -/
theorem Bytewise.pieces (h : Bytewise copy bound) (hl : Laid lo ps hi) (hb : hi ≤ bound)
    (hp : ∀ p ∈ ps, p.Follows addr) :
    ps.foldl (fun s p => copy p.offset p.addr p.size s) s = copyBytes copy addr lo (hi - lo) s := by
  induction ps generalizing lo s with
  | nil =>
    obtain rfl : lo = hi := hl
    rw [Nat.sub_self]
    rfl
  | cons p ps ih =>
    obtain ⟨h₁, -, hl⟩ := hl
    have hoff : p.offset = lo := h₁
    have hle : lo + p.size ≤ hi := hl.le
    have hfirst : copy p.offset p.addr p.size s = copyBytes copy addr lo p.size s := by
      rw [← hoff]
      exact h.piece (hp p List.mem_cons_self) (by omega)
    rw [List.foldl_cons, ih hl (fun q hq => hp q (List.mem_cons_of_mem p hq)), hfirst,
      show hi - lo = p.size + (hi - (lo + p.size)) by omega, copyBytes_add]
    rfl

end Bytes

end Gather
