import Mathlib.Data.List.Induction
import NVMeVirt.Lib.LittleEndian

/-!
# Registers in a byte memory

Bit `b` of a memory is bit `b % 8` of its byte `b / 8`. A register is written by reading its
bytes as a number, putting new bits in where a mask has ones, and writing the bytes back. After
any number of writes a bit is what the last write that had it in its mask put there.
-/

namespace Registers
set_option autoImplicit false
open LittleEndian

def bit (mem : Nat → UInt8) (b : Nat) : Bool := (mem (b / 8)).toNat.testBit (b % 8)

/-- The low `n` bytes of `v` go to address `a`. -/
def store (mem : Nat → UInt8) (a n v : Nat) : Nat → UInt8 := fun i =>
  if a ≤ i ∧ i < a + n then digit v (i - a) else mem i

def merge {w : Nat} (old new mask : BitVec w) : BitVec w := (old &&& ~~~mask) ||| (new &&& mask)

variable {mem : Nat → UInt8} {a b n v w : Nat}

theorem testBit_digit (v i j : Nat) :
    (digit v i).toNat.testBit j = (decide (j < 8) && v.testBit (8 * i + j)) := by
  rw [digit_toNat, show (256 : Nat) = 2^8 from rfl, ← Nat.pow_mul, Nat.testBit_mod_two_pow,
    Nat.testBit_div_two_pow, Nat.add_comm j]

theorem testBit_value (mem : Nat → UInt8) (n a j : Nat) :
    (value mem n a).testBit j = (decide (j < 8 * n) && bit mem (8 * a + j)) := by
  induction n generalizing a j with
  | zero => simp [value]
  | succ n ih =>
    rw [value_succ, show (256 : Nat) = 2^8 from rfl, Nat.add_comm,
      Nat.testBit_two_pow_mul_add _ (mem a).toNat_lt]
    split
    · rename_i hj
      have hbyte : (8 * a + j) / 8 = a := by omega
      have hbit : (8 * a + j) % 8 = j := by omega
      rw [bit, hbyte, hbit, decide_eq_true (by omega), Bool.true_and]
    · rename_i hj
      have hnext : 8 * (a + 1) + (j - 8) = 8 * a + j := by omega
      have hlt : j - 8 < 8 * n ↔ j < 8 * (n + 1) := by omega
      rw [ih, hnext, decide_eq_decide.mpr hlt]

theorem bit_store : bit (store mem a n v) b =
    if 8 * a ≤ b ∧ b < 8 * (a + n) then v.testBit (b - 8 * a) else bit mem b := by
  unfold bit store
  by_cases h : 8 * a ≤ b ∧ b < 8 * (a + n)
  · have hin : a ≤ b / 8 ∧ b / 8 < a + n := by omega
    have hat : 8 * (b / 8 - a) + b % 8 = b - 8 * a := by omega
    rw [if_pos h, if_pos hin, testBit_digit, hat, decide_eq_true (Nat.mod_lt b (by decide)), Bool.true_and]
  · have hout : ¬ (a ≤ b / 8 ∧ b / 8 < a + n) := by omega
    rw [if_neg h, if_neg hout]

theorem getLsbD_merge {old new mask : BitVec w} {j : Nat} :
    (merge old new mask).getLsbD j = if mask.getLsbD j then new.getLsbD j else old.getLsbD j := by
  unfold merge
  rw [BitVec.getLsbD_or, BitVec.getLsbD_and, BitVec.getLsbD_and, BitVec.getLsbD_not]
  by_cases hj : j < w
  · cases mask.getLsbD j <;> simp [hj]
  · simp [BitVec.getLsbD_of_ge _ _ (Nat.le_of_not_lt hj)]

/-- A masked write. The memory may have changed since the register was read. -/
theorem bit_write (mem mem' : Nat → UInt8) (hn : 8 * n ≤ w) (new mask : BitVec w) :
    bit (store mem' a n (merge (BitVec.ofNat w (value mem n a)) new mask).toNat) b =
      if 8 * a ≤ b ∧ b < 8 * (a + n) then
        if mask.getLsbD (b - 8 * a) then new.getLsbD (b - 8 * a) else bit mem b
      else bit mem' b := by
  rw [bit_store]
  split
  · rename_i h
    have hback : 8 * a + (b - 8 * a) = b := by omega
    rw [BitVec.testBit_toNat, getLsbD_merge, BitVec.getLsbD_ofNat, testBit_value, hback,
      decide_eq_true (show b - 8 * a < w by omega), decide_eq_true (show b - 8 * a < 8 * n by omega),
      Bool.true_and, Bool.true_and]
  · rfl

universe u v₁ x
variable {σ : Type u} {ε : Type v₁} {β : Type x} {g : σ → β} {step : σ → ε → σ} {writes : ε → Option β}

def lastWritten (writes : ε → Option β) (events : List ε) (first : β) : β :=
  ((events.filterMap writes).getLast?).getD first

theorem lastWritten_snoc (events : List ε) (e : ε) (first : β) :
    lastWritten writes (events ++ [e]) first = (writes e).getD (lastWritten writes events first) := by
  unfold lastWritten
  rw [List.filterMap_append]
  cases h : writes e with
  | none => simp [h]
  | some y => simp [h]

theorem get_run {P : ε → Prop} (hstep : ∀ s e, P e → g (step s e) = (writes e).getD (g s))
    {events : List ε} (hall : ∀ e ∈ events, P e) (s : σ) :
    g (events.foldl step s) = lastWritten writes events (g s) := by
  induction events using List.reverseRecOn with
  | nil => rfl
  | append_singleton events e ih =>
    rw [List.foldl_append, lastWritten_snoc]
    change g (step (events.foldl step s) e) = _
    rw [hstep _ _ (hall e (by simp)), ih (fun e he => hall e (List.mem_append_left _ he))]

theorem run_keeps {I : σ → Prop} {P : ε → Prop} (hstep : ∀ s e, P e → I s → I (step s e))
    {events : List ε} (hall : ∀ e ∈ events, P e) {s : σ} (h : I s) : I (events.foldl step s) := by
  induction events generalizing s with
  | nil => exact h
  | cons e events ih =>
    exact ih (fun e he => hall e (List.mem_cons_of_mem _ he)) (hstep s e (hall e (by simp)) h)

theorem lastWritten_none {events : List ε} (h : ∀ e ∈ events, writes e = none) (first : β) :
    lastWritten writes events first = first := by
  unfold lastWritten
  rw [List.filterMap_eq_nil_iff.mpr h]
  rfl

end Registers
