import NVMeVirt.ChannelIdle
import NVMeVirt.Lib.Supply

/-!
# Longer transfers

A request is charged interval by interval, and `chmodel_request` takes off the intervals that its
credits fill on an idle channel. When these are counted and when they are not depends on what the
intervals have left.
-/

namespace NVMeVirt
set_option autoImplicit false
open Outcome Supply

/-- A channel as `ssd_init_ch` sets it up. -/
def channelSetup (bandwidth fwChXferLat : Nat) : ChannelModel :=
  { chmodelInit bandwidth with
    xferLat := u32 ((chmodelInit bandwidth).xferLat + fwChXferLat * unitXferSize / kb 4) }

/-- The states after any sequence of calls, at any times. -/
inductive ChannelReachable (start : ChannelModel) : ChannelModel → Prop where
  | start : ChannelReachable start start
  | call {ch : ChannelModel} (hr : ChannelReachable start ch) (c : ChannelCall) {r : ChannelModel × Nat}
      (h : chmodelRequest c.curTime ch c.requestTime c.length = .ok r) : ChannelReachable start r.1

/-- How many intervals after the one of the clock the request's is, in the 32 bits that it is kept in. -/
def requestOffs (curTime requestTime : Nat) : Nat :=
  u32 (requestTime / unitTimeInterval - curTime / unitTimeInterval)

/-- What the `j`-th interval from the request's on has left. -/
def windowCredit (ch : ChannelModel) (curTime requestTime j : Nat) : Nat :=
  let ch := chmodelAdvance ch curTime
  ch.availCredits ((ch.head + (requestOffs curTime requestTime + j)) % nrCreditEntries)

/-- What the ring has left for the request. -/
def windowTotal (ch : ChannelModel) (curTime requestTime : Nat) : Nat :=
  upTo (windowCredit ch curTime requestTime) (nrCreditEntries - requestOffs curTime requestTime)

def unitsToXfer (length : Nat) : Nat := (length + unitXferSize - 1) / unitXferSize

/-- Of two transfers that fit, the longer one does not complete earlier. -/
def CompletesInOrder (ch : ChannelModel) (curTime requestTime : Nat) : Prop :=
  ∀ l₁ l₂, l₁ ≤ l₂ → unitsToXfer l₂ ≤ windowTotal ch curTime requestTime →
    ∃ t₁ t₂, (chmodelRequest curTime ch requestTime l₁).map Prod.snd = .ok t₁ ∧
      (chmodelRequest curTime ch requestTime l₂).map Prod.snd = .ok t₂ ∧ t₁ ≤ t₂

/-- The request is charged to the ring at all. -/
def Charged (curTime requestTime : Nat) : Prop :=
  curTime ≤ requestTime ∧ requestOffs curTime requestTime < nrCreditEntries

/-- A transfer of all that is left completes before the clock runs over. -/
def EndsInTime (ch : ChannelModel) (curTime requestTime : Nat) : Prop :=
  ∀ j < nrCreditEntries - requestOffs curTime requestTime, 0 < windowCredit ch curTime requestTime j →
    requestTime + cost ch.xferLat unitTimeInterval ch.maxCredits (windowTotal ch curTime requestTime) j < 2^64

variable {bandwidth fwChXferLat curTime requestTime : Nat} {ch start : ChannelModel}

structure Slots (bandwidth fwChXferLat : Nat) (ch : ChannelModel) : Prop where
  validLen_le : ch.validLen ≤ nrCreditEntries
  maxCredits : ch.maxCredits = bandwidthToMaxCredits bandwidth
  commandCredits : ch.commandCredits = 0
  xferLat : ch.xferLat = (channelSetup bandwidth fwChXferLat).xferLat
  avail_le : ∀ i, ch.availCredits i ≤ ch.maxCredits

theorem memsetCredits_le {a : Nat → Nat} {value : Nat} (h : ∀ i, a i ≤ value) (start length i : Nat) :
    memsetCredits a start value length i ≤ value := by
  unfold memsetCredits
  split
  · exact Nat.mod_le value _
  · exact h i

theorem setup_slots (bandwidth fwChXferLat : Nat) :
    Slots bandwidth fwChXferLat (channelSetup bandwidth fwChXferLat) where
  validLen_le := Nat.zero_le _
  maxCredits := rfl
  commandCredits := rfl
  xferLat := rfl
  avail_le := memsetCredits_le (fun _ => Nat.zero_le _) 0 nrCreditEntries

theorem Slots.advance (k : Slots bandwidth fwChXferLat ch) (curTime : Nat) :
    Slots bandwidth fwChXferLat (chmodelAdvance ch curTime) := by
  refine ⟨?_, k.maxCredits, k.commandCredits, k.xferLat, ?_⟩
  · rw [chmodelAdvance_eq]
    exact (Nat.sub_le _ _).trans k.validLen_le
  · intro i
    rw [chmodelAdvance_eq]
    dsimp only
    unfold refill
    split
    · exact memsetCredits_le (memsetCredits_le k.avail_le _ _) _ _ i
    · exact memsetCredits_le k.avail_le _ _ i

theorem consumeCredits_le (head fuel : Nat) (a : Nat → Nat) (pos n delay i : Nat) :
    (consumeCredits head fuel a pos n delay).1 i ≤ a i := by
  induction fuel generalizing a pos n delay with
  | zero => exact Nat.le_refl _
  | succ fuel ih =>
    have hset : ∀ x, Function.update a pos (a pos - x) i ≤ a i := by
      intro x
      by_cases hi : i = pos
      · subst hi
        rw [Function.update_self]
        exact Nat.sub_le _ _
      · rw [Function.update_of_ne hi]
    unfold consumeCredits
    dsimp only
    generalize (if n ≤ a pos then n else a pos) = taken
    split
    · split
      · exact (ih _ _ _ _).trans (hset _)
      · exact hset _
    · exact hset _

theorem Slots.take (k : Slots bandwidth fwChXferLat ch) (o n : Nat) :
    Slots bandwidth fwChXferLat (ch.take o n) := by
  have hpos := consumeCredits_pos_lt ch.head nrCreditEntries ch.availCredits ((ch.head + o) % nrCreditEntries)
    n 0 (Nat.mod_lt _ nrCreditEntries_pos)
  refine ⟨?_, k.maxCredits, k.commandCredits, k.xferLat, ?_⟩
  · unfold ChannelModel.take
    dsimp only
    split
    · exact slotsUpTo_le hpos
    · exact k.validLen_le
  · exact fun i => (consumeCredits_le _ _ _ _ _ _ i).trans (k.avail_le i)

theorem ChannelReachable.slots (h : ChannelReachable (channelSetup bandwidth fwChXferLat) ch) :
    Slots bandwidth fwChXferLat ch := by
  induction h with
  | start => exact setup_slots bandwidth fwChXferLat
  | call _ c h ih =>
    rcases chmodelRequest_cases h with hr | ⟨o, n, _, hr⟩
    · rw [hr]
      exact ih.advance c.curTime
    · rw [hr]
      exact (ih.advance c.curTime).take o n

/-- The loop stops in the interval in which the credits are met. -/
theorem takeCredits_meets (fuel : Nat) : ∀ (o : Nat) (b : Nat → Nat) (n delay : Nat), o < nrCreditEntries →
    nrCreditEntries - o ≤ fuel → n ≤ upTo (fun j => b (o + j)) (nrCreditEntries - o) →
    ∃ d, (takeCredits fuel o b n delay).2.2 = delay + d ∧ o + d < nrCreditEntries ∧
      Meets (fun j => b (o + j)) n d := by
  induction fuel with
  | zero =>
    intro o b n delay ho hfuel
    omega
  | succ fuel ih =>
    intro o b n delay ho hfuel hn
    unfold takeCredits
    dsimp only
    by_cases hserved : n ≤ b o
    · rw [if_pos hserved, Nat.sub_self, if_neg (by simp)]
      refine ⟨0, rfl, ho, ?_, fun h => absurd h (Nat.lt_irrefl 0)⟩
      rw [upTo_cons]
      exact Nat.le_add_right_of_le hserved
    rw [if_neg hserved, if_pos (by omega)]
    have hsplit : nrCreditEntries - o = nrCreditEntries - (o + 1) + 1 := by omega
    rw [hsplit, upTo_cons] at hn
    have hshift : (fun j => b (o + (j + 1))) = fun j => b (o + 1 + j) := by
      funext j
      rw [Nat.add_assoc, Nat.add_comm 1 j]
    rw [hshift] at hn
    by_cases hfull : o + 1 = nrCreditEntries
    · rw [hfull, Nat.sub_self] at hn
      exact absurd hn hserved
    rw [if_pos hfull]
    have hrest : (fun j => Function.update b o (b o - b o) (o + 1 + j)) = fun j => b (o + 1 + j) := by
      funext j
      exact Function.update_of_ne (by omega) _ _
    obtain ⟨d, hd, hlt, hmeets⟩ := ih (o + 1) (Function.update b o (b o - b o)) (n - b o) (delay + 1)
      (by omega) (by omega) (by
        rw [hrest]
        exact Nat.sub_le_iff_le_add'.mpr hn)
    rw [hrest, ← hshift] at hmeets
    exact ⟨d + 1, by omega, by omega, hmeets.cons (Nat.not_le.mp hserved)⟩

theorem bandwidthToTxTime_le (bandwidth : Nat) :
    bandwidthToTxTime bandwidth ≤ unitXferSize * 1000000000 / (bandwidth * 2^20) := Nat.mod_le _ _

theorem bandwidthToMaxCredits_le (bandwidth : Nat) :
    bandwidthToMaxCredits bandwidth ≤ bandwidth * 2^20 * unitTimeInterval / 1000000000 / unitXferSize := by
  refine (Nat.mod_le _ _).trans (Nat.le_of_eq ?_)
  rw [show unitXferCredits = 1 from rfl, Nat.mul_one]

/-- With a credit in each interval, a unit takes less than an interval. -/
theorem bandwidthToTxTime_lt (hpos : 1 ≤ bandwidthToMaxCredits bandwidth) :
    bandwidthToTxTime bandwidth ≤ 3937 := by
  have hmax := hpos.trans (bandwidthToMaxCredits_le bandwidth)
  have hmbs : 31 ≤ bandwidth := by
    unfold unitTimeInterval unitXferSize at hmax
    omega
  calc bandwidthToTxTime bandwidth
      ≤ unitXferSize * 1000000000 / (bandwidth * 2^20) := bandwidthToTxTime_le bandwidth
    _ ≤ unitXferSize * 1000000000 / (31 * 2^20) := Nat.div_le_div_left (Nat.mul_le_mul_right _ hmbs) (by decide)
    _ = 3937 := by decide

theorem bandwidthToTxTime_mul_le (bandwidth : Nat) :
    bandwidthToTxTime bandwidth * bandwidthToMaxCredits bandwidth ≤ unitTimeInterval := by
  have hcredits : bandwidthToMaxCredits bandwidth * (unitXferSize * 1000000000) ≤
      bandwidth * 2^20 * unitTimeInterval := by
    have h := Nat.mul_le_of_le_div _ _ _ (Nat.mul_le_of_le_div _ _ _ (bandwidthToMaxCredits_le bandwidth))
    rwa [Nat.mul_assoc] at h
  have htime := Nat.mul_le_of_le_div _ _ _ (bandwidthToTxTime_le bandwidth)
  refine Nat.le_of_mul_le_mul_right (c := unitXferSize * 1000000000) ?_ (by decide)
  calc bandwidthToTxTime bandwidth * bandwidthToMaxCredits bandwidth * (unitXferSize * 1000000000)
      = bandwidthToTxTime bandwidth * (bandwidthToMaxCredits bandwidth * (unitXferSize * 1000000000)) :=
        Nat.mul_assoc _ _ _
    _ ≤ bandwidthToTxTime bandwidth * (bandwidth * 2^20 * unitTimeInterval) := Nat.mul_le_mul_left _ hcredits
    _ = bandwidthToTxTime bandwidth * (bandwidth * 2^20) * unitTimeInterval := (Nat.mul_assoc _ _ _).symm
    _ ≤ unitXferSize * 1000000000 * unitTimeInterval := Nat.mul_le_mul_right _ htime
    _ = unitTimeInterval * (unitXferSize * 1000000000) := Nat.mul_comm _ _

theorem setup_xferLat_le (hfw : fwChXferLat ≤ 413) :
    (channelSetup bandwidth fwChXferLat).xferLat ≤ bandwidthToTxTime bandwidth + 12 := by
  refine (Nat.mod_le _ _).trans (Nat.add_le_add_left ?_ _)
  calc fwChXferLat * unitXferSize / kb 4 ≤ 413 * unitXferSize / kb 4 :=
        Nat.div_le_div_right (Nat.mul_le_mul_right _ hfw)
    _ = 12 := by decide

/-- A channel whose credits fit their byte. -/
structure Usable (ch : ChannelModel) : Prop where
  maxCredits_pos : 1 ≤ ch.maxCredits
  maxCredits_le : ch.maxCredits ≤ 255
  xferLat_lt : ch.xferLat < unitTimeInterval
  xferLat_mul_le : ch.xferLat * ch.maxCredits ≤ 7060

theorem Slots.usable (k : Slots bandwidth fwChXferLat ch) (hfw : fwChXferLat ≤ 413)
    (hpos : 1 ≤ ch.maxCredits) (hcap : ch.maxCredits ≤ 255) : Usable ch := by
  have hlat : ch.xferLat ≤ bandwidthToTxTime bandwidth + 12 := k.xferLat ▸ setup_xferLat_le hfw
  have htx := bandwidthToTxTime_lt (k.maxCredits ▸ hpos)
  have hmul := bandwidthToTxTime_mul_le bandwidth
  rw [← k.maxCredits] at hmul
  refine ⟨hpos, hcap, ?_, ?_⟩
  · unfold unitTimeInterval
    omega
  · calc ch.xferLat * ch.maxCredits ≤ (bandwidthToTxTime bandwidth + 12) * ch.maxCredits :=
          Nat.mul_le_mul_right _ hlat
      _ = bandwidthToTxTime bandwidth * ch.maxCredits + 12 * ch.maxCredits := Nat.add_mul _ _ _
      _ ≤ 4000 + 12 * 255 := Nat.add_le_add hmul (Nat.mul_le_mul_left 12 hcap)

theorem Slots.windowTotal_le (k : Slots bandwidth fwChXferLat ch) (curTime requestTime : Nat) :
    windowTotal ch curTime requestTime ≤ nrCreditEntries * ch.maxCredits :=
  (upTo_le (fun _ => (k.advance curTime).avail_le _) _).trans (Nat.mul_le_mul_right _ (Nat.sub_le _ _))

/-- Units that fit the ring, and the intervals of the ring, cost less than a second. -/
theorem Usable.cost_lt (u : Usable ch) {n d : Nat} (hn : n ≤ nrCreditEntries * ch.maxCredits)
    (hd : d < nrCreditEntries) : ch.xferLat * n ≤ 694026240 ∧
      cost ch.xferLat unitTimeInterval ch.maxCredits n d < 2^32 := by
  have hprice : ch.xferLat * n ≤ nrCreditEntries * 7060 := by
    calc ch.xferLat * n ≤ ch.xferLat * (nrCreditEntries * ch.maxCredits) := Nat.mul_le_mul_left _ hn
      _ = nrCreditEntries * (ch.xferLat * ch.maxCredits) := Nat.mul_left_comm _ _ _
      _ ≤ nrCreditEntries * 7060 := Nat.mul_le_mul_left _ u.xferLat_mul_le
  have hdelay : d - n / ch.maxCredits ≤ d := Nat.sub_le _ _
  unfold cost
  unfold nrCreditEntries at hprice hd
  unfold unitTimeInterval
  omega

structure Answer (ch : ChannelModel) (curTime requestTime length d : Nat) : Prop where
  meets : Meets (windowCredit ch curTime requestTime) (unitsToXfer length) d
  inside : d < nrCreditEntries - requestOffs curTime requestTime
  cost_lt : cost ch.xferLat unitTimeInterval ch.maxCredits (unitsToXfer length) d < 2^32
  answer : (chmodelRequest curTime ch requestTime length).map Prod.snd =
    .ok (u64 (requestTime + cost ch.xferLat unitTimeInterval ch.maxCredits (unitsToXfer length) d))

theorem Slots.answer (k : Slots bandwidth fwChXferLat ch) (u : Usable ch) (hc : Charged curTime requestTime)
    {length : Nat} (hfit : unitsToXfer length ≤ windowTotal ch curTime requestTime) :
    ∃ d, Answer ch curTime requestTime length d := by
  obtain ⟨hpast, hfar⟩ := hc
  have hroom := hfit.trans (k.windowTotal_le curTime requestTime)
  have hunits : unitsToXfer length < 2^32 := by
    refine hroom.trans_lt ((Nat.mul_le_mul_left _ u.maxCredits_le).trans_lt ?_)
    decide
  have hdiv : u32 (divRoundUp length unitXferSize) = unitsToXfer length := by
    unfold unitsToXfer unitXferSize at hunits ⊢
    unfold u32 divRoundUp u64
    omega
  have hcredits : (chmodelAdvance ch curTime).credits length = unitsToXfer length := by
    have hcommand : (chmodelAdvance ch curTime).commandCredits = 0 := k.commandCredits
    unfold ChannelModel.credits unitXferCredits
    rw [hcommand, hdiv, Nat.mul_one, Nat.add_zero]
    exact Nat.mod_eq_of_lt hunits
  have hcharged : ¬ (requestTime < curTime ∨
      nrCreditEntries ≤ u32 (requestTime / unitTimeInterval - curTime / unitTimeInterval)) :=
    not_or.mpr ⟨Nat.not_lt.mpr hpast, Nat.not_le.mpr hfar⟩
  obtain ⟨d, hdelay, hlt, hmeets⟩ := takeCredits_meets nrCreditEntries (requestOffs curTime requestTime)
    (fun j => (chmodelAdvance ch curTime).availCredits (((chmodelAdvance ch curTime).head + j) % nrCreditEntries))
    (unitsToXfer length) 0 hfar (Nat.sub_le _ _) hfit
  obtain ⟨hprice, hcost⟩ := u.cost_lt hroom (d := d) (by omega)
  refine ⟨d, hmeets, by omega, hcost, ?_⟩
  have hzero : ¬ (chmodelAdvance ch curTime).maxCredits = 0 := Nat.one_le_iff_ne_zero.mp u.maxCredits_pos
  rw [chmodelRequest_answer (k.advance curTime).validLen_le (fun _ _ => rfl), if_neg hcharged, if_neg hzero,
    hcredits]
  change Except.ok ((chmodelAdvance ch curTime).completion requestTime length
    (takeCredits nrCreditEntries (requestOffs curTime requestTime) _ (unitsToXfer length) 0).2.2) = _
  rw [hdelay, Nat.zero_add]
  unfold ChannelModel.completion
  rw [hcredits, hdiv]
  have hsaved : (if unitsToXfer length / (chmodelAdvance ch curTime).maxCredits < d then
      d - unitsToXfer length / (chmodelAdvance ch curTime).maxCredits else 0) =
        d - unitsToXfer length / ch.maxCredits := by
    change (if unitsToXfer length / ch.maxCredits < d then _ else _) = _
    split
    · rfl
    · omega
  have hlat : u32 ((chmodelAdvance ch curTime).xferLat * unitsToXfer length) =
      ch.xferLat * unitsToXfer length := Nat.mod_eq_of_lt (by
    change ch.xferLat * unitsToXfer length < _
    omega)
  rw [hsaved, hlat]
  change Except.ok (u64 (requestTime + u64 (cost ch.xferLat unitTimeInterval ch.maxCredits _ d))) = _
  have hlong : u64 (cost ch.xferLat unitTimeInterval ch.maxCredits (unitsToXfer length) d) =
      cost ch.xferLat unitTimeInterval ch.maxCredits (unitsToXfer length) d := Nat.mod_eq_of_lt (by omega)
  rw [hlong]

/-- A transfer of `n` units. -/
theorem unitsToXfer_mul (n : Nat) : unitsToXfer (n * unitXferSize) = n := by
  unfold unitsToXfer unitXferSize
  omega

theorem unitsToXfer_mono {l₁ l₂ : Nat} (h : l₁ ≤ l₂) : unitsToXfer l₁ ≤ unitsToXfer l₂ :=
  Nat.div_le_div_right (by omega)

theorem Answer.unique {length d e : Nat} (h : Answer ch curTime requestTime length d)
    (hm : Meets (windowCredit ch curTime requestTime) (unitsToXfer length) e) : e = d :=
  hm.unique h.meets

theorem unitsToXfer_zero : unitsToXfer 0 = 0 := by decide

/-- Before nothing has been transferred, nothing completes. -/
theorem CompletesInOrder.ends (hord : CompletesInOrder ch curTime requestTime)
    (hclock : requestTime < 2^64) {length d e : Nat} (h₀ : Answer ch curTime requestTime 0 e)
    (h : Answer ch curTime requestTime length d) (hfit : unitsToXfer length ≤ windowTotal ch curTime requestTime) :
    requestTime + cost ch.xferLat unitTimeInterval ch.maxCredits (unitsToXfer length) d < 2^64 := by
  have hfree : cost ch.xferLat unitTimeInterval ch.maxCredits (unitsToXfer 0) e = 0 := by
    have hmeets := h₀.meets
    rw [unitsToXfer_zero] at hmeets ⊢
    rw [hmeets.zero, cost_zero]
  obtain ⟨t₁, t₂, ht₁, ht₂, hle⟩ := hord 0 length (Nat.zero_le _) hfit
  rw [h₀.answer, hfree, Nat.add_zero] at ht₁
  rw [h.answer] at ht₂
  obtain rfl := Except.ok.inj ht₁
  obtain rfl := Except.ok.inj ht₂
  have hcost := h.cost_lt
  unfold u64 at hle
  omega

/-- Two transfers that complete before the clock runs over are ordered by their cost. -/
theorem completes_iff_cost {l₁ l₂ d e : Nat} (h₁ : Answer ch curTime requestTime l₁ d)
    (h₂ : Answer ch curTime requestTime l₂ e)
    (hend₁ : requestTime + cost ch.xferLat unitTimeInterval ch.maxCredits (unitsToXfer l₁) d < 2^64)
    (hend₂ : requestTime + cost ch.xferLat unitTimeInterval ch.maxCredits (unitsToXfer l₂) e < 2^64) :
    (∃ t₁ t₂, (chmodelRequest curTime ch requestTime l₁).map Prod.snd = .ok t₁ ∧
      (chmodelRequest curTime ch requestTime l₂).map Prod.snd = .ok t₂ ∧ t₁ ≤ t₂) ↔
      cost ch.xferLat unitTimeInterval ch.maxCredits (unitsToXfer l₁) d ≤
        cost ch.xferLat unitTimeInterval ch.maxCredits (unitsToXfer l₂) e := by
  have hlong₁ := h₁.answer
  have hlong₂ := h₂.answer
  unfold u64 at hlong₁ hlong₂
  rw [Nat.mod_eq_of_lt hend₁] at hlong₁
  rw [Nat.mod_eq_of_lt hend₂] at hlong₂
  constructor
  · rintro ⟨t₁, t₂, ht₁, ht₂, hle⟩
    rw [hlong₁] at ht₁
    rw [hlong₂] at ht₂
    obtain rfl := Except.ok.inj ht₁
    obtain rfl := Except.ok.inj ht₂
    omega
  · intro hle
    exact ⟨_, _, hlong₁, hlong₂, Nat.add_le_add_left hle requestTime⟩

theorem completesInOrder_uncharged (k : Slots bandwidth fwChXferLat ch) (hc : ¬ Charged curTime requestTime) :
    CompletesInOrder ch curTime requestTime := by
  intro l₁ l₂ _ _
  have hnow : requestTime < curTime ∨
      nrCreditEntries ≤ u32 (requestTime / unitTimeInterval - curTime / unitTimeInterval) := by
    unfold Charged requestOffs at hc
    omega
  have hall : ∀ l, (chmodelRequest curTime ch requestTime l).map Prod.snd = .ok requestTime := by
    intro l
    rw [chmodelRequest_answer (k.advance curTime).validLen_le (fun _ _ => rfl), if_pos hnow]
  exact ⟨requestTime, requestTime, hall l₁, hall l₂, Nat.le_refl _⟩

/-- A transfer of `n` units of those that are left. -/
theorem Slots.answer_units (k : Slots bandwidth fwChXferLat ch) (u : Usable ch)
    (hc : Charged curTime requestTime) {n : Nat} (hn : n ≤ windowTotal ch curTime requestTime) :
    ∃ d, Answer ch curTime requestTime (n * unitXferSize) d :=
  k.answer u hc (by rwa [unitsToXfer_mul])

theorem CompletesInOrder.ends_units (hord : CompletesInOrder ch curTime requestTime)
    (k : Slots bandwidth fwChXferLat ch) (u : Usable ch) (hc : Charged curTime requestTime)
    (hclock : requestTime < 2^64) {n d : Nat} (hn : n ≤ windowTotal ch curTime requestTime)
    (h : Answer ch curTime requestTime (n * unitXferSize) d) :
    requestTime + cost ch.xferLat unitTimeInterval ch.maxCredits (unitsToXfer (n * unitXferSize)) d < 2^64 := by
  have hnone : unitsToXfer 0 ≤ windowTotal ch curTime requestTime := by
    rw [unitsToXfer_zero]
    exact Nat.zero_le _
  obtain ⟨e, h₀⟩ := k.answer u hc hnone
  exact hord.ends hclock h₀ h (by rwa [unitsToXfer_mul])

theorem CompletesInOrder.ordered (hord : CompletesInOrder ch curTime requestTime)
    (k : Slots bandwidth fwChXferLat ch) (u : Usable ch) (hc : Charged curTime requestTime)
    (hclock : requestTime < 2^64) :
    Ordered (windowCredit ch curTime requestTime) ch.xferLat unitTimeInterval ch.maxCredits
      (windowTotal ch curTime requestTime) := by
  intro n m d e hnm hm hmeets₁ hmeets₂
  have hn := hnm.trans hm
  obtain ⟨d', h₁⟩ := k.answer_units u hc hn
  obtain ⟨e', h₂⟩ := k.answer_units u hc hm
  obtain rfl : d = d' := h₁.unique (by rwa [unitsToXfer_mul])
  obtain rfl : e = e' := h₂.unique (by rwa [unitsToXfer_mul])
  have hcost := (completes_iff_cost h₁ h₂ (hord.ends_units k u hc hclock hn h₁)
    (hord.ends_units k u hc hclock hm h₂)).mp
    (hord _ _ (Nat.mul_le_mul_right _ hnm) (by rwa [unitsToXfer_mul]))
  rwa [unitsToXfer_mul, unitsToXfer_mul] at hcost

/-- The transfer of all that is left takes every interval with credits, and it completes in time. -/
theorem CompletesInOrder.endsInTime (hord : CompletesInOrder ch curTime requestTime)
    (k : Slots bandwidth fwChXferLat ch) (u : Usable ch) (hc : Charged curTime requestTime)
    (hclock : requestTime < 2^64) : EndsInTime ch curTime requestTime := by
  intro j hj hleft
  obtain ⟨d, h⟩ := k.answer_units u hc (Nat.le_refl _)
  have hend := hord.ends_units k u hc hclock (Nat.le_refl _) h
  have hmeets := h.meets
  rw [unitsToXfer_mul] at hend hmeets
  have hjd : j ≤ d := hmeets.le_of_pos hleft (upTo_mono hj)
  refine (Nat.add_le_add_left ?_ _).trans_lt hend
  exact Nat.add_le_add_left (Nat.mul_le_mul_right _ (Nat.sub_le_sub_right hjd _)) _

/-- The other way, no transfer costs more than the one of all that is left, which ends in time. -/
theorem completesInOrder_of_ordered (k : Slots bandwidth fwChXferLat ch) (u : Usable ch)
    (hc : Charged curTime requestTime) (hclock : requestTime < 2^64)
    (hord : Ordered (windowCredit ch curTime requestTime) ch.xferLat unitTimeInterval ch.maxCredits
      (windowTotal ch curTime requestTime)) (hends : EndsInTime ch curTime requestTime) :
    CompletesInOrder ch curTime requestTime := by
  intro l₁ l₂ hl hfit
  have hunits := unitsToXfer_mono hl
  obtain ⟨d, h₁⟩ := k.answer u hc (hunits.trans hfit)
  obtain ⟨e, h₂⟩ := k.answer u hc hfit
  obtain ⟨f, hall⟩ := k.answer_units u hc (Nat.le_refl _)
  have hmeets := hall.meets
  rw [unitsToXfer_mul] at hmeets
  have hend : requestTime + cost ch.xferLat unitTimeInterval ch.maxCredits
      (windowTotal ch curTime requestTime) f < 2^64 := by
    rcases Nat.eq_zero_or_pos (windowTotal ch curTime requestTime) with hnone | hsome
    · rw [hnone] at hmeets ⊢
      rw [hmeets.zero, cost_zero]
      exact hclock
    · exact hends f hall.inside (hmeets.last_pos hsome)
  have hcost₂ := hord _ _ _ _ hfit (Nat.le_refl _) h₂.meets hmeets
  have hend₂ := (Nat.add_le_add_left hcost₂ requestTime).trans_lt hend
  have hcost := hord _ _ _ _ hunits hfit h₁.meets h₂.meets
  have hend₁ := (Nat.add_le_add_left hcost requestTime).trans_lt hend₂
  exact (completes_iff_cost h₁ h₂ hend₁ hend₂).mpr hcost

theorem completesInOrder_iff_ordered (k : Slots bandwidth fwChXferLat ch) (u : Usable ch)
    (hc : Charged curTime requestTime) (hclock : requestTime < 2^64) :
    CompletesInOrder ch curTime requestTime ↔
      Ordered (windowCredit ch curTime requestTime) ch.xferLat unitTimeInterval ch.maxCredits
        (windowTotal ch curTime requestTime) ∧ EndsInTime ch curTime requestTime := by
  constructor
  · intro hord
    exact ⟨hord.ordered k u hc hclock, hord.endsInTime k u hc hclock⟩
  · rintro ⟨hord, hends⟩
    exact completesInOrder_of_ordered k u hc hclock hord hends

/-- For every reachable channel, longer transfers complete in order exactly when the request is not
charged, or when the intervals it meets are balanced and the clock does not run over. -/
theorem completes_in_order_iff (h : ChannelReachable (channelSetup bandwidth fwChXferLat) ch)
    (hfw : fwChXferLat ≤ 413) (hpos : 1 ≤ ch.maxCredits) (hcap : ch.maxCredits ≤ 255)
    (hclock : requestTime < 2^64) :
    CompletesInOrder ch curTime requestTime ↔ (Charged curTime requestTime →
      Balanced (windowCredit ch curTime requestTime) ch.maxCredits (windowTotal ch curTime requestTime) ∧
        EndsInTime ch curTime requestTime) := by
  have k := h.slots
  have u := k.usable hfw hpos hcap
  by_cases hc : Charged curTime requestTime
  · have hlast : nrCreditEntries - requestOffs curTime requestTime =
        nrCreditEntries - requestOffs curTime requestTime - 1 + 1 := by
      have := hc.2
      omega
    have htotal : windowTotal ch curTime requestTime ≤ upTo (windowCredit ch curTime requestTime)
        (nrCreditEntries - requestOffs curTime requestTime - 1 + 1) := by
      rw [← hlast]
      exact Nat.le_refl _
    rw [completesInOrder_iff_ordered k u hc hclock, ordered_iff hpos u.xferLat_lt htotal]
    exact ⟨fun hboth _ => hboth, fun himp => himp hc⟩
  · exact iff_of_true (completesInOrder_uncharged k hc) (fun hc' => absurd hc' hc)

/-- On a new channel every interval has 26 units of 128 bytes. -/
theorem completes_in_order_new : CompletesInOrder (channelSetup 800 413) 4000 9000 := by
  refine (completes_in_order_iff ChannelReachable.start (by decide) (by decide) (by decide) (by decide)).mpr ?_
  intro _
  have hoffs : requestOffs 4000 9000 = 1 := by decide
  have hslot : ∀ i, i < nrCreditEntries → (chmodelAdvance (channelSetup 800 413) 4000).availCredits i = 26 := by
    intro i hi
    have hold : (channelSetup 800 413).availCredits i = 26 := by
      change memsetCredits (fun _ => 0) 0 _ nrCreditEntries i = 26
      unfold memsetCredits
      rw [if_pos ⟨Nat.zero_le i, by omega⟩]
      decide
    change memsetCredits (channelSetup 800 413).availCredits 0 (channelSetup 800 413).maxCredits 0 i = 26
    unfold memsetCredits
    rw [if_neg (by omega)]
    exact hold
  have hcredit : ∀ j, windowCredit (channelSetup 800 413) 4000 9000 j = 26 :=
    fun j => hslot _ (Nat.mod_lt _ nrCreditEntries_pos)
  have htotal : windowTotal (channelSetup 800 413) 4000 9000 = 98303 * 26 := by
    unfold windowTotal
    rw [upTo_const (fun i _ => hcredit i), hoffs]
    decide
  have hmax : (channelSetup 800 413).maxCredits = 26 := by decide
  have hlat : (channelSetup 800 413).xferLat = 164 := by decide
  constructor
  · intro k _ _
    rw [upTo_const (fun i _ => hcredit i), hmax]
    exact Or.inl (Nat.le_succ _)
  · intro j hj _
    rw [htotal, hmax, hlat]
    unfold nrCreditEntries at hj
    unfold cost unitTimeInterval
    omega

/-- After a transfer of 52 units, 25 units wait until the third interval. The 26th takes them there for
nothing. -/
theorem longer_completes_earlier : ∃ ch, ChannelReachable (channelSetup 800 0) ch ∧ ch.maxCredits = 26 ∧
    unitsToXfer 3328 ≤ windowTotal ch 0 0 ∧
    (chmodelRequest 0 ch 0 3200).map Prod.snd = .ok 11800 ∧
    (chmodelRequest 0 ch 0 3328).map Prod.snd = .ok 7952 ∧ ¬ CompletesInOrder ch 0 0 := by
  have hruns : (chmodelRequest 0 (channelSetup 800 0) 0 6656).map (fun r =>
      (r.1.maxCredits, windowCredit r.1 0 0 2, (chmodelRequest 0 r.1 0 3200).map Prod.snd,
        (chmodelRequest 0 r.1 0 3328).map Prod.snd)) = .ok (26, 26, .ok 11800, .ok 7952) := by decide +kernel
  cases hr : chmodelRequest 0 (channelSetup 800 0) 0 6656 with
  | error e =>
    rw [hr] at hruns
    cases hruns
  | ok r =>
    rw [hr] at hruns
    obtain ⟨hmax, hruns⟩ := Prod.mk.inj (Except.ok.inj hruns)
    obtain ⟨hcredit, hruns⟩ := Prod.mk.inj hruns
    obtain ⟨hshort, hlong⟩ := Prod.mk.inj hruns
    have hfit : unitsToXfer 3328 ≤ windowTotal r.1 0 0 := by
      have hthree : upTo (windowCredit r.1 0 0) 3 ≤ windowTotal r.1 0 0 := upTo_mono (by decide)
      have hunits : unitsToXfer 3328 = 26 := by decide
      rw [upTo_succ, hcredit] at hthree
      omega
    refine ⟨r.1, ChannelReachable.start.call ⟨0, 0, 6656⟩ hr, hmax, hfit, hshort, hlong, ?_⟩
    intro hord
    obtain ⟨t₁, t₂, ht₁, ht₂, hle⟩ := hord 3200 3328 (by decide) hfit
    rw [hshort] at ht₁
    rw [hlong] at ht₂
    obtain rfl := Except.ok.inj ht₁
    obtain rfl := Except.ok.inj ht₂
    exact absurd hle (by decide)

end NVMeVirt
