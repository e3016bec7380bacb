import NVMeVirt.ChannelTimeline

/-!
# An idle channel

When all the intervals that have been charged are over, a channel answers like a new one, as long
as no gap between its calls has been lost in the 32 bits of `cur_time_offs`.
-/

namespace NVMeVirt
set_option autoImplicit false
open Outcome

/-- All credits are left in the slot of the `j`-th interval from the clock on. -/
def Full (ch : ChannelModel) (j : Nat) : Prop :=
  ch.availCredits ((ch.head + j) % nrCreditEntries) = ch.maxCredits % 2^8

/-- The call has changed the credits of interval `k`. -/
def ChannelCall.Charges (c : ChannelCall) (ch ch' : ChannelModel) (k : Nat) : Prop :=
  ∃ j, j < nrCreditEntries ∧ k = c.now + j ∧
    ch'.availCredits ((ch'.head + j) % nrCreditEntries) ≠
      (chmodelAdvance ch c.curTime).availCredits (((chmodelAdvance ch c.curTime).head + j) % nrCreditEntries)

/-- The intervals since the last call, when they are kept in 32 bits, are fewer than `2^32` or still
not fewer than `valid_len`. -/
def GapKept (ch : ChannelModel) (curTime : Nat) : Prop :=
  curTime / unitTimeInterval - ch.curTime / unitTimeInterval < 2^32 ∨
    ch.validLen ≤ (curTime / unitTimeInterval - ch.curTime / unitTimeInterval) % 2^32

/-- The states after any sequence of calls whose clocks meet `rule`, each with the intervals that
have been charged so far. -/
inductive ChannelRun (rule : ChannelModel → Nat → Prop) (bandwidth : Nat) :
    ChannelModel → (Nat → Prop) → Prop where
  | init : ChannelRun rule bandwidth (chmodelInit bandwidth) fun _ => False
  | call {ch : ChannelModel} {charged : Nat → Prop} (hr : ChannelRun rule bandwidth ch charged)
      (c : ChannelCall) {r : ChannelModel × Nat} (hc : rule ch c.curTime)
      (h : chmodelRequest c.curTime ch c.requestTime c.length = .ok r) :
      ChannelRun rule bandwidth r.1 fun k => charged k ∨ c.Charges ch r.1 k

/-- At a time when the charged intervals are over, any request completes as on a new channel. -/
def AnswersAsNew (bandwidth : Nat) (ch : ChannelModel) (charged : Nat → Prop) (curTime : Nat) : Prop :=
  (∀ k, charged k → (k + 1) * unitTimeInterval ≤ curTime) → ∀ requestTime length,
    (chmodelRequest curTime ch requestTime length).map Prod.snd =
      (chmodelRequest curTime (chmodelInit bandwidth) requestTime length).map Prod.snd

variable {bandwidth curTime : Nat} {ch : ChannelModel} {charged : Nat → Prop}

/-- The head has gone past all that has been charged, or as far as the clock. -/
theorem headOffs_reach (hg : GapKept ch curTime) : headOffs ch curTime = ch.validLen ∨
    curTime / unitTimeInterval ≤ ch.curTime / unitTimeInterval + headOffs ch curTime := by
  rcases Nat.lt_or_ge (curTime / unitTimeInterval) (ch.curTime / unitTimeInterval) with hback | hforth
  · exact Or.inr (by omega)
  have hoffs : u32 (u64 (curTime / unitTimeInterval + 2^64 - ch.curTime / unitTimeInterval)) =
      (curTime / unitTimeInterval - ch.curTime / unitTimeInterval) % 2^32 := by
    unfold u32 u64
    omega
  unfold headOffs
  dsimp only
  rw [hoffs]
  rcases hg with hnear | hfar
  · rw [Nat.mod_eq_of_lt hnear]
    split <;> omega
  · rw [if_neg (by omega)]
    exact Or.inl rfl

theorem headOffs_le (ch : ChannelModel) (curTime : Nat) : headOffs ch curTime ≤ ch.validLen := by
  unfold headOffs
  dsimp only
  split <;> omega

/-- A slot of the window after the head has moved: refilled, or one that was there before. -/
theorem full_advance (hhead : ch.head < nrCreditEntries) (hvalid : ch.validLen ≤ nrCreditEntries) {j : Nat}
    (hj : j < nrCreditEntries) : Full (chmodelAdvance ch curTime) j ↔
      (headOffs ch curTime + j < nrCreditEntries → Full ch (headOffs ch curTime + j)) := by
  have hle := headOffs_le ch curTime
  unfold Full
  rw [chmodelAdvance_eq]
  dsimp only
  rw [Nat.mod_add_mod, Nat.add_assoc]
  by_cases hin : headOffs ch curTime + j < nrCreditEntries
  · rw [refill_byte hhead hin, if_neg (by omega)]
    exact ⟨fun h _ => h, fun h => h hin⟩
  · have hwrap : (ch.head + (headOffs ch curTime + j)) % nrCreditEntries =
        (ch.head + (headOffs ch curTime + j - nrCreditEntries)) % nrCreditEntries := by
      rw [show ch.head + (headOffs ch curTime + j) =
        ch.head + (headOffs ch curTime + j - nrCreditEntries) + nrCreditEntries by omega, Nat.add_mod_right]
    rw [hwrap, refill_byte hhead (by omega), if_pos (by omega)]
    exact iff_of_true rfl (fun h => absurd h hin)

/-- A slot that is not full belongs to an interval that ends no later than one that has been charged. -/
structure Remembers (bandwidth : Nat) (ch : ChannelModel) (charged : Nat → Prop) : Prop where
  head_lt : ch.head < nrCreditEntries
  validLen_le : ch.validLen ≤ nrCreditEntries
  maxCredits : ch.maxCredits = (chmodelInit bandwidth).maxCredits
  commandCredits : ch.commandCredits = (chmodelInit bandwidth).commandCredits
  xferLat : ch.xferLat = (chmodelInit bandwidth).xferLat
  fresh : ∀ j, ch.validLen ≤ j → j < nrCreditEntries → Full ch j
  charged : ∀ j, j < nrCreditEntries → ¬ Full ch j →
    ∃ k, charged k ∧ ch.curTime / unitTimeInterval + j ≤ k

theorem init_full {j : Nat} (hj : j < nrCreditEntries) : Full (chmodelInit bandwidth) j := by
  change memsetCredits (fun _ => 0) 0 _ nrCreditEntries ((0 + j) % nrCreditEntries) = _
  unfold memsetCredits
  rw [Nat.zero_add, Nat.mod_eq_of_lt hj, if_pos ⟨Nat.zero_le j, by omega⟩]
  rfl

theorem init_remembers (bandwidth : Nat) : Remembers bandwidth (chmodelInit bandwidth) fun _ => False where
  head_lt := nrCreditEntries_pos
  validLen_le := Nat.zero_le _
  maxCredits := rfl
  commandCredits := rfl
  xferLat := rfl
  fresh := fun _ _ hj => init_full hj
  charged := fun _ hj hf => absurd (init_full hj) hf

theorem Remembers.advance (k : Remembers bandwidth ch charged) (hg : GapKept ch curTime) :
    Remembers bandwidth (chmodelAdvance ch curTime) charged := by
  have hle := headOffs_le ch curTime
  have hvalid := k.validLen_le
  refine ⟨Nat.mod_lt _ nrCreditEntries_pos, ?_, k.maxCredits, k.commandCredits, k.xferLat, ?_, ?_⟩
  · rw [chmodelAdvance_eq]
    dsimp only
    omega
  · intro j hj hlt
    rw [chmodelAdvance_eq] at hj
    dsimp only at hj
    exact (full_advance k.head_lt hvalid hlt).mpr (fun hin => k.fresh _ (by omega) hin)
  · intro j hj hf
    rw [full_advance k.head_lt hvalid hj, Classical.not_imp] at hf
    obtain ⟨hin, hf⟩ := hf
    -- the slot has been charged, so the head has not gone past all of them
    have hinside : headOffs ch curTime + j < ch.validLen := by
      by_contra hout
      exact hf (k.fresh _ (by omega) hin)
    obtain ⟨i, hi, hle⟩ := k.charged _ hin hf
    refine ⟨i, hi, ?_⟩
    change curTime / unitTimeInterval + j ≤ i
    rcases headOffs_reach hg with hall | hreach
    · omega
    · omega

/-- The slots behind the last one used are as before. -/
theorem takeCredits_after (fuel : Nat) : ∀ (o : Nat) (b : Nat → Nat) (n delay : Nat),
    o ≤ (takeCredits fuel o b n delay).2.1 ∧
      ∀ j, (takeCredits fuel o b n delay).2.1 < j → (takeCredits fuel o b n delay).1 j = b j := by
  induction fuel with
  | zero => exact fun o b n delay => ⟨Nat.le_refl o, fun _ _ => rfl⟩
  | succ fuel ih =>
    intro o b n delay
    unfold takeCredits
    dsimp only
    generalize (if n ≤ b o then n else b o) = taken
    have hset : ∀ j, o < j → Function.update b o (b o - taken) j = b j :=
      fun j hj => Function.update_of_ne (Nat.ne_of_gt hj) _ _
    by_cases hleft : n - taken = 0
    · rw [if_neg (by simpa using hleft)]
      exact ⟨Nat.le_refl o, hset⟩
    rw [if_pos hleft]
    by_cases hfull : o + 1 = nrCreditEntries
    · rw [if_neg (by simpa using hfull)]
      exact ⟨Nat.le_refl o, hset⟩
    · rw [if_pos hfull]
      obtain ⟨hge, hafter⟩ := ih (o + 1) (Function.update b o (b o - taken)) (n - taken) (delay + 1)
      refine ⟨by omega, ?_⟩
      intro j hj
      rw [hafter j hj, hset j (by omega)]

/-- The channel when `n` credits have been taken from offset `o` on. -/
def ChannelModel.take (ch : ChannelModel) (o n : Nat) : ChannelModel :=
  let s := consumeCredits ch.head nrCreditEntries ch.availCredits ((ch.head + o) % nrCreditEntries) n 0
  { ch with
    availCredits := s.1
    validLen := if ch.validLen < slotsUpTo ch.head s.2.1 then slotsUpTo ch.head s.2.1 else ch.validLen }

/-- A call that returns moves the head, and may take credits. -/
theorem chmodelRequest_cases {requestTime length : Nat} {r : ChannelModel × Nat}
    (h : chmodelRequest curTime ch requestTime length = .ok r) : r.1 = chmodelAdvance ch curTime ∨
      ∃ o n, o < nrCreditEntries ∧ r.1 = (chmodelAdvance ch curTime).take o n := by
  unfold chmodelRequest at h
  dsimp only at h
  obtain ⟨-, -, h⟩ := bind_eq_ok.mp h
  by_cases hpast : requestTime < curTime
  · rw [if_pos hpast] at h
    cases h
    exact Or.inl rfl
  rw [if_neg hpast] at h
  by_cases hfar : nrCreditEntries ≤ u32 (requestTime / unitTimeInterval - curTime / unitTimeInterval)
  · rw [if_pos hfar] at h
    cases h
    exact Or.inl rfl
  rw [if_neg hfar] at h
  by_cases hzero : (chmodelAdvance ch curTime).maxCredits = 0
  · rw [if_pos hzero] at h
    cases h
  · rw [if_neg hzero] at h
    cases h
    exact Or.inr ⟨_, _, Nat.lt_of_not_le hfar, rfl⟩

theorem Remembers.weaken (k : Remembers bandwidth ch charged) {charged' : Nat → Prop}
    (h : ∀ i, charged i → charged' i) : Remembers bandwidth ch charged' where
  head_lt := k.head_lt
  validLen_le := k.validLen_le
  maxCredits := k.maxCredits
  commandCredits := k.commandCredits
  xferLat := k.xferLat
  fresh := k.fresh
  charged := by
    intro j hj hf
    obtain ⟨i, hi, hle⟩ := k.charged j hj hf
    exact ⟨i, h i hi, hle⟩

/-- Taking credits charges the slots that it changes, and `valid_len` covers them. -/
theorem Remembers.take (k : Remembers bandwidth ch charged) {o : Nat} (ho : o < nrCreditEntries) (n : Nat) :
    Remembers bandwidth (ch.take o n) fun i => charged i ∨ ∃ j, j < nrCreditEntries ∧
      i = ch.curTime / unitTimeInterval + j ∧
      (ch.take o n).availCredits ((ch.head + j) % nrCreditEntries) ≠
        ch.availCredits ((ch.head + j) % nrCreditEntries) := by
  have hloop := consumeCredits_window k.head_lt nrCreditEntries o ch.availCredits
    (fun j => ch.availCredits ((ch.head + j) % nrCreditEntries)) n 0 ho (fun _ _ => rfl)
  obtain ⟨-, hafter⟩ := takeCredits_after nrCreditEntries o
    (fun j => ch.availCredits ((ch.head + j) % nrCreditEntries)) n 0
  have hslots := slotsUpTo_slot k.head_lt hloop.inside
  rw [← hloop.pos] at hslots
  have hinside := hloop.inside
  have hvalid := k.validLen_le
  have hlen : (ch.take o n).validLen ≤ nrCreditEntries ∧ ∀ j, (ch.take o n).validLen ≤ j →
      ch.validLen ≤ j ∧ (takeCredits nrCreditEntries o
        (fun j => ch.availCredits ((ch.head + j) % nrCreditEntries)) n 0).2.1 < j := by
    unfold ChannelModel.take
    dsimp only
    rw [hslots]
    split
    · exact ⟨by omega, fun j hj => by omega⟩
    · exact ⟨hvalid, fun j hj => by omega⟩
  refine ⟨k.head_lt, hlen.1, k.maxCredits, k.commandCredits, k.xferLat, ?_, ?_⟩
  · intro j hj hlt
    obtain ⟨hold, hlast⟩ := hlen.2 j hj
    exact ((hloop.slots j hlt).trans (hafter j hlast)).trans (k.fresh j hold hlt)
  · intro j hj hf
    by_cases hsame : (ch.take o n).availCredits ((ch.head + j) % nrCreditEntries) =
        ch.availCredits ((ch.head + j) % nrCreditEntries)
    · obtain ⟨i, hi, hle⟩ := k.charged j hj (fun hfull => hf (hsame.trans hfull))
      exact ⟨i, Or.inl hi, hle⟩
    · exact ⟨_, Or.inr ⟨j, hj, rfl, hsame⟩, Nat.le_refl _⟩

theorem Remembers.call (k : Remembers bandwidth ch charged) (c : ChannelCall) (hg : GapKept ch c.curTime)
    {r : ChannelModel × Nat} (h : chmodelRequest c.curTime ch c.requestTime c.length = .ok r) :
    Remembers bandwidth r.1 fun i => charged i ∨ c.Charges ch r.1 i := by
  have ka := k.advance hg
  rcases chmodelRequest_cases h with hr | ⟨o, n, ho, hr⟩
  · rw [hr]
    exact ka.weaken (fun i hi => Or.inl hi)
  · rw [hr]
    refine (ka.take ho n).weaken ?_
    rintro i (hi | ⟨j, hj, rfl, hne⟩)
    · exact Or.inl hi
    · exact Or.inr ⟨j, hj, rfl, hne⟩

theorem ChannelRun.remembers (h : ChannelRun GapKept bandwidth ch charged) :
    Remembers bandwidth ch charged := by
  induction h with
  | init => exact init_remembers bandwidth
  | call _ c hc h ih => exact ih.call c hc h

def ChannelModel.credits (ch : ChannelModel) (length : Nat) : Nat :=
  u32 (u32 (divRoundUp length unitXferSize) * unitXferCredits + ch.commandCredits)

/-- The completion time of a request whose credits take `delay` intervals more than the first one. -/
def ChannelModel.completion (ch : ChannelModel) (requestTime length delay : Nat) : Nat :=
  u64 (requestTime + u64 (u32 (ch.xferLat * u32 (divRoundUp length unitXferSize)) +
    (if ch.credits length / ch.maxCredits < delay then delay - ch.credits length / ch.maxCredits else 0) *
      unitTimeInterval))

/-- The answer alone, in terms of the window that the head has moved to. -/
theorem chmodelRequest_answer (hvalid : (chmodelAdvance ch curTime).validLen ≤ nrCreditEntries)
    {b : Nat → Nat} (hb : ∀ j, j < nrCreditEntries → (chmodelAdvance ch curTime).availCredits
      (((chmodelAdvance ch curTime).head + j) % nrCreditEntries) = b j) (requestTime length : Nat) :
    (chmodelRequest curTime ch requestTime length).map Prod.snd =
      if requestTime < curTime ∨
          nrCreditEntries ≤ u32 (requestTime / unitTimeInterval - curTime / unitTimeInterval) then
        .ok requestTime
      else if (chmodelAdvance ch curTime).maxCredits = 0 then .error .divideError
      else .ok ((chmodelAdvance ch curTime).completion requestTime length
        (takeCredits nrCreditEntries (u32 (requestTime / unitTimeInterval - curTime / unitTimeInterval)) b
          ((chmodelAdvance ch curTime).credits length) 0).2.2) := by
  unfold chmodelRequest
  dsimp only
  rw [nvmevAssert_true hvalid, ok_bind]
  by_cases hpast : requestTime < curTime
  · rw [if_pos hpast, if_pos (Or.inl hpast)]
    rfl
  rw [if_neg hpast]
  by_cases hfar : nrCreditEntries ≤ u32 (requestTime / unitTimeInterval - curTime / unitTimeInterval)
  · rw [if_pos hfar, if_pos (Or.inr hfar)]
    rfl
  rw [if_neg hfar, if_neg (not_or.mpr ⟨hpast, hfar⟩)]
  by_cases hzero : (chmodelAdvance ch curTime).maxCredits = 0
  · rw [if_pos hzero, if_pos hzero, error_bind]
    rfl
  rw [if_neg hzero, if_neg hzero]
  have hhead : (chmodelAdvance ch curTime).head < nrCreditEntries := Nat.mod_lt _ nrCreditEntries_pos
  have hloop := consumeCredits_window hhead nrCreditEntries _ _ b
    ((chmodelAdvance ch curTime).credits length) 0 (Nat.lt_of_not_le hfar) hb
  rw [← hloop.delay]
  rfl

/-- Two channels of one bandwidth with all of their credits give the same answer. -/
theorem chmodelRequest_snd {ch' : ChannelModel} {charged' : Nat → Prop}
    (k : Remembers bandwidth (chmodelAdvance ch curTime) charged)
    (k' : Remembers bandwidth (chmodelAdvance ch' curTime) charged')
    (hf : ∀ j, j < nrCreditEntries → Full (chmodelAdvance ch curTime) j)
    (hf' : ∀ j, j < nrCreditEntries → Full (chmodelAdvance ch' curTime) j) (requestTime length : Nat) :
    (chmodelRequest curTime ch requestTime length).map Prod.snd =
      (chmodelRequest curTime ch' requestTime length).map Prod.snd := by
  have hmax := k.maxCredits.trans k'.maxCredits.symm
  have hcommand := k.commandCredits.trans k'.commandCredits.symm
  have hlat := k.xferLat.trans k'.xferLat.symm
  have hcredits : (chmodelAdvance ch curTime).credits length =
      (chmodelAdvance ch' curTime).credits length := by
    unfold ChannelModel.credits
    rw [hcommand]
  have hcompletion : (chmodelAdvance ch curTime).completion requestTime length =
      (chmodelAdvance ch' curTime).completion requestTime length := by
    funext delay
    unfold ChannelModel.completion
    rw [hcredits, hmax, hlat]
  rw [chmodelRequest_answer k.validLen_le hf, chmodelRequest_answer k'.validLen_le hf', hcredits, hcompletion, hmax]

/-- In every run whose gaps are kept, a channel answers like a new one when the charged intervals are
over. -/
theorem channel_answers_as_new (h : ChannelRun GapKept bandwidth ch charged) (hg : GapKept ch curTime) :
    AnswersAsNew bandwidth ch charged curTime := by
  intro hover requestTime length
  have k := h.remembers.advance hg
  have knew : Remembers bandwidth (chmodelAdvance (chmodelInit bandwidth) curTime) fun _ => False :=
    (init_remembers bandwidth).advance (Or.inr (Nat.zero_le _))
  refine chmodelRequest_snd k knew ?_ ?_ requestTime length
  · intro j hj
    by_contra hf
    obtain ⟨i, hi, hle⟩ := k.charged j hj hf
    have hend := hover i hi
    have hnow : (chmodelAdvance ch curTime).curTime = curTime := rfl
    rw [hnow] at hle
    unfold unitTimeInterval at hend hle
    omega
  · intro j hj
    by_contra hf
    obtain ⟨i, hi, -⟩ := knew.charged j hj hf
    exact hi

theorem charges_before {ch ch' : ChannelModel} {requestTime length k : Nat}
    (h : ChannelCall.Charges ⟨0, requestTime, length⟩ ch ch' k) : (k + 1) * unitTimeInterval ≤ 400000000 := by
  obtain ⟨j, hj, rfl, -⟩ := h
  have hnow : ChannelCall.now ⟨0, requestTime, length⟩ = 0 := Nat.zero_div _
  rw [hnow]
  unfold nrCreditEntries at hj
  unfold unitTimeInterval
  omega

/-- Ten intervals are charged, and 0.4 seconds later the channel is like new. -/
theorem channel_answers_as_new_later : ∃ ch charged, ChannelRun GapKept 800 ch charged ∧ ch.validLen = 10 ∧
    AnswersAsNew 800 ch charged 400000000 ∧
    (chmodelRequest 400000000 ch 400000000 3200).map Prod.snd =
      (chmodelRequest 400000000 (chmodelInit 800) 400000000 3200).map Prod.snd := by
  have hlen : (chmodelRequest 0 (chmodelInit 800) 0 33280).map (fun r => (r.1.validLen, r.1.curTime)) =
      .ok (10, 0) := by decide +kernel
  cases hr : chmodelRequest 0 (chmodelInit 800) 0 33280 with
  | error e =>
    rw [hr] at hlen
    cases hlen
  | ok r =>
    rw [hr] at hlen
    obtain ⟨hvalid, htime⟩ := Prod.mk.inj (Except.ok.inj hlen)
    have hrun := ChannelRun.call (@ChannelRun.init GapKept 800) ⟨0, 0, 33280⟩ (Or.inl (by decide)) hr
    have hnew : AnswersAsNew 800 r.1 _ 400000000 :=
      channel_answers_as_new hrun (Or.inl (by rw [htime]; decide))
    refine ⟨_, _, hrun, hvalid, hnew, hnew ?_ 400000000 3200⟩
    rintro k (hk | hk)
    · exact hk.elim
    · exact charges_before hk

/-- `2^32` intervals later, no time seems to have passed. -/
theorem channel_remembers : ∃ ch charged, ChannelRun (fun _ _ => True) 800 ch charged ∧
    (∀ k, charged k → (k + 1) * unitTimeInterval ≤ 2^32 * unitTimeInterval) ∧
    (chmodelRequest (2^32 * unitTimeInterval) ch (2^32 * unitTimeInterval) 3200).map Prod.snd =
      .ok (2^32 * unitTimeInterval + 43800) ∧
    (chmodelRequest (2^32 * unitTimeInterval) (chmodelInit 800) (2^32 * unitTimeInterval) 3200).map Prod.snd =
      .ok (2^32 * unitTimeInterval + 3800) ∧
    ¬ AnswersAsNew 800 ch charged (2^32 * unitTimeInterval) := by
  have hold : (chmodelRequest 0 (chmodelInit 800) 0 33280 >>= fun r =>
      (chmodelRequest (2^32 * unitTimeInterval) r.1 (2^32 * unitTimeInterval) 3200).map Prod.snd) =
        .ok (2^32 * unitTimeInterval + 43800) := by decide +kernel
  have hnew : (chmodelRequest (2^32 * unitTimeInterval) (chmodelInit 800) (2^32 * unitTimeInterval) 3200).map
      Prod.snd = .ok (2^32 * unitTimeInterval + 3800) := by decide +kernel
  obtain ⟨r, hr, hold⟩ := bind_eq_ok.mp hold
  have hrun := ChannelRun.call (@ChannelRun.init (fun _ _ => True) 800) ⟨0, 0, 33280⟩ trivial hr
  have hover : ∀ k, (False ∨ ChannelCall.Charges ⟨0, 0, 33280⟩ (chmodelInit 800) r.1 k) →
      (k + 1) * unitTimeInterval ≤ 2^32 * unitTimeInterval := by
    rintro k (hk | hk)
    · exact hk.elim
    · exact le_trans (charges_before hk) (by decide)
  refine ⟨_, _, hrun, hover, hold, hnew, ?_⟩
  intro h
  have heq := h hover (2^32 * unitTimeInterval) 3200
  rw [hold, hnew] at heq
  exact absurd (Except.ok.inj heq) (by decide)

end NVMeVirt
