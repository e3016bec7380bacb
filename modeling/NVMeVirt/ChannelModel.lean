import NVMeVirt.Params

/-!
# Bandwidth model of a NAND channel and of the PCIe link

`channel_model.c`: a ring of `nrCreditEntries` time slots, each with the transfer
credits still available in it. `head` is the slot of the current time.
-/

namespace NVMeVirt
set_option autoImplicit false
open Outcome

def nrCreditEntries : Nat := 1024 * 96
def unitTimeInterval : Nat := 4000
def unitXferSize : Nat := 128
def unitXferCredits : Nat := 1

structure ChannelModel where
  curTime : Nat
  head : Nat
  validLen : Nat
  maxCredits : Nat
  commandCredits : Nat
  xferLat : Nat
  availCredits : Nat → Nat
  deriving Inhabited

def bandwidthToTxTime (mbs : Nat) : Nat := u32 (unitXferSize * 1000000000 / (mbs * 2^20))

def bandwidthToMaxCredits (mbs : Nat) : Nat :=
  u32 (mbs * 2^20 * unitTimeInterval / 1000000000 / unitXferSize * unitXferCredits)

/-- `memset` on the credit array; a credit is one byte. -/
def memsetCredits (a : Nat → Nat) (start value length : Nat) : Nat → Nat :=
  fun i => if start ≤ i ∧ i < start + length then value % 2^8 else a i

def chmodelInit (bandwidth : Nat) : ChannelModel where
  curTime := 0
  head := 0
  validLen := 0
  maxCredits := bandwidthToMaxCredits bandwidth
  commandCredits := 0
  xferLat := bandwidthToTxTime bandwidth
  availCredits := memsetCredits (fun _ => 0) 0 (bandwidthToMaxCredits bandwidth) nrCreditEntries

/-- The `while (1)` of `chmodel_request`: credits are taken slot by slot until the
request is served or the ring is exhausted. -/
def consumeCredits (head : Nat) : Nat → (Nat → Nat) → Nat → Nat → Nat → (Nat → Nat) × Nat × Nat
  | 0, avail, pos, _, delay => (avail, pos, delay)
  | fuel + 1, avail, pos, remaining, delay =>
    let consumed := if remaining ≤ avail pos then remaining else avail pos
    let avail := Function.update avail pos (avail pos - consumed)
    let remaining := remaining - consumed
    if remaining ≠ 0 then
      let nextPos := (pos + 1) % nrCreditEntries
      if nextPos ≠ head then consumeCredits head fuel avail nextPos remaining (delay + 1)
      else (avail, pos, delay)
    else (avail, pos, delay)

/-- Moves `head` to the slot of the current time and refills the slots left behind. -/
def chmodelAdvance (ch : ChannelModel) (curTime : Nat) : ChannelModel :=
  let offs := u32 (u64 (curTime / unitTimeInterval + 2^64 - ch.curTime / unitTimeInterval))
  let offs := if offs < ch.validLen then offs else ch.validLen
  let avail :=
    if nrCreditEntries ≤ ch.head + offs then
      memsetCredits (memsetCredits ch.availCredits ch.head ch.maxCredits (nrCreditEntries - ch.head))
        0 ch.maxCredits (offs - (nrCreditEntries - ch.head))
    else memsetCredits ch.availCredits ch.head ch.maxCredits offs
  { ch with
    availCredits := avail
    head := (ch.head + offs) % nrCreditEntries
    curTime := curTime
    validLen := ch.validLen - offs }

/-- Number of slots from `head` to `pos`, both included. -/
def slotsUpTo (head pos : Nat) : Nat :=
  if head ≤ pos then pos - head + 1 else nrCreditEntries - (head - pos - 1)

def chmodelRequest (curTime : Nat) (ch : ChannelModel) (requestTime length : Nat) :
    Except Fault (ChannelModel × Nat) := do
  let unitsToXfer := u32 (divRoundUp length unitXferSize)
  let ch := chmodelAdvance ch curTime
  nvmevAssert (ch.validLen ≤ nrCreditEntries)
  if requestTime < curTime then return (ch, requestTime)
  let requestTimeOffs := u32 (requestTime / unitTimeInterval - curTime / unitTimeInterval)
  if nrCreditEntries ≤ requestTimeOffs then return (ch, requestTime)
  let pos := (ch.head + requestTimeOffs) % nrCreditEntries
  let remainingCredits := u32 (unitsToXfer * unitXferCredits + ch.commandCredits)
  if ch.maxCredits = 0 then .error .divideError
  let defaultDelay := remainingCredits / ch.maxCredits
  let (avail, pos, delay) :=
    consumeCredits ch.head nrCreditEntries ch.availCredits pos remainingCredits 0
  let validLength := slotsUpTo ch.head pos
  let delay := if defaultDelay < delay then delay - defaultDelay else 0
  let totalLatency := u64 (u32 (ch.xferLat * unitsToXfer) + delay * unitTimeInterval)
  return ({ ch with
      availCredits := avail
      validLen := if ch.validLen < validLength then validLength else ch.validLen },
    u64 (requestTime + totalLatency))

/-- What keeps the ring's own assertion from firing. -/
structure ChannelModel.Wf (ch : ChannelModel) : Prop where
  head_lt : ch.head < nrCreditEntries
  validLen_le : ch.validLen ≤ nrCreditEntries
  credits_pos : 0 < ch.maxCredits

theorem chmodelInit_wf {bandwidth : Nat} (h : 0 < bandwidthToMaxCredits bandwidth) :
    (chmodelInit bandwidth).Wf := by
  refine ⟨?_, Nat.zero_le _, h⟩
  change 0 < nrCreditEntries
  decide

theorem chmodelAdvance_wf {ch : ChannelModel} (h : ch.Wf) (curTime : Nat) :
    (chmodelAdvance ch curTime).Wf := by
  refine ⟨Nat.mod_lt _ (by decide), ?_, h.credits_pos⟩
  have hl := h.validLen_le
  simp only [chmodelAdvance]
  omega

theorem consumeCredits_pos_lt (head fuel : Nat) (avail : Nat → Nat) (pos remaining delay : Nat)
    (h : pos < nrCreditEntries) :
    (consumeCredits head fuel avail pos remaining delay).2.1 < nrCreditEntries := by
  induction fuel generalizing avail pos remaining delay with
  | zero => exact h
  | succ fuel ih =>
    unfold consumeCredits
    generalize (if remaining ≤ avail pos then remaining else avail pos) = consumed
    dsimp only
    split
    · split
      · exact ih _ _ _ _ (Nat.mod_lt _ (by decide))
      · exact h
    · exact h

theorem slotsUpTo_le {head pos : Nat} (hpos : pos < nrCreditEntries) :
    slotsUpTo head pos ≤ nrCreditEntries := by
  unfold slotsUpTo
  split <;> omega

/-- A request on a well-formed ring returns and leaves it well formed. -/
theorem chmodelRequest_returns {ch : ChannelModel} (h : ch.Wf) (curTime requestTime length : Nat) :
    ∃ r, chmodelRequest curTime ch requestTime length = .ok r ∧ r.1.Wf := by
  have hw := chmodelAdvance_wf h curTime
  simp only [chmodelRequest, nvmevAssert_true hw.validLen_le, ok_bind]
  split
  · exact ⟨_, rfl, hw⟩
  · split
    · exact ⟨_, rfl, hw⟩
    · rw [if_neg (Nat.ne_of_gt hw.credits_pos)]
      refine ⟨_, rfl, hw.head_lt, ?_, hw.credits_pos⟩
      have hpos := fun remaining => consumeCredits_pos_lt (chmodelAdvance ch curTime).head
        nrCreditEntries (chmodelAdvance ch curTime).availCredits
        (((chmodelAdvance ch curTime).head +
          u32 (requestTime / unitTimeInterval - curTime / unitTimeInterval)) % nrCreditEntries)
        remaining 0 (Nat.mod_lt _ (by decide))
      dsimp only
      split
      · exact slotsUpTo_le (hpos _)
      · exact hw.validLen_le

end NVMeVirt
