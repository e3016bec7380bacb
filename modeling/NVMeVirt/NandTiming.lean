import NVMeVirt.ConvConsistency
import NVMeVirt.ConvSteps

/-!
# NAND timing

A LUN takes one command after the other: a command starts when the LUN is free, and the LUN is
free again when the command has finished. The commands of a run are in its log, the newest one
first. A flush waits for the clocks of all LUNs, so it waits for every command before it.
-/

namespace NVMeVirt
set_option autoImplicit false
open Outcome

variable {clk : Nat → Nat} {spp : SsdParams} {ssd ssd' : Ssd} {s s' : ConvFtl} {log : List NandEvent}

def Ssd.clock (ssd : Ssd) (c l : Nat) : Nat := ((ssd.ch c).lun l).nextLunAvailTime

def NandEvent.cmdStime (clk : Nat → Nat) (e : NandEvent) : Nat :=
  if e.ncmd.stime = 0 then clk e.before.ticks else e.ncmd.stime

/-- The time at which the LUN takes the command. -/
def NandEvent.start (clk : Nat → Nat) (e : NandEvent) : Nat :=
  max (e.before.clock e.ncmd.ppa.ch e.ncmd.ppa.lun) (e.cmdStime clk)

def NandEvent.finish (e : NandEvent) : Nat := e.after.clock e.ncmd.ppa.ch e.ncmd.ppa.lun

/-- The state when the clock has been read. -/
def NandEvent.begun (e : NandEvent) : Ssd :=
  if e.ncmd.stime = 0 then { e.before with ticks := e.before.ticks + 1 } else e.before

def NandEvent.readLat (spp : SsdParams) (e : NandEvent) : Nat :=
  if e.ncmd.xferSize = 4096 then spp.pg4kbRdLat.at (getCell spp e.ncmd.ppa)
  else spp.pgRdLat.at (getCell spp e.ncmd.ppa)

theorem setLun_clock_self (ssd : Ssd) (ppa : Ppa) (lun : NandLun) :
    (ssd.setLun ppa lun).clock ppa.ch ppa.lun = lun.nextLunAvailTime := by
  unfold Ssd.clock Ssd.setLun
  dsimp only
  rw [Function.update_self]
  dsimp only
  rw [Function.update_self]

theorem setLun_clock_other (ssd : Ssd) (ppa : Ppa) (lun : NandLun) {c l : Nat}
    (hne : ¬ (c = ppa.ch ∧ l = ppa.lun)) : (ssd.setLun ppa lun).clock c l = ssd.clock c l := by
  unfold Ssd.clock Ssd.setLun
  dsimp only
  by_cases hc : c = ppa.ch
  · subst hc
    rw [Function.update_self]
    dsimp only
    rw [Function.update_of_ne (fun hl => hne ⟨rfl, hl⟩)]
  · rw [Function.update_of_ne hc]

theorem consumeCredits_delay_le (head fuel : Nat) (avail : Nat → Nat) (pos remaining delay : Nat) :
    (consumeCredits head fuel avail pos remaining delay).2.2 ≤ delay + fuel := by
  induction fuel generalizing avail pos remaining delay with
  | zero => exact Nat.le_refl delay
  | succ fuel ih =>
    unfold consumeCredits
    generalize (if remaining ≤ avail pos then remaining else avail pos) = consumed
    dsimp only
    split
    · split
      · exact Nat.le_trans (ih _ _ _ _) (by omega)
      · exact Nat.le_add_right delay _
    · exact Nat.le_add_right delay _

theorem le_transfer {t lat delay : Nat} (ht : t < 2^63)
    (hlat : lat < 2^32) (hdelay : delay ≤ nrCreditEntries) :
    t ≤ u64 (t + u64 (lat + delay * unitTimeInterval)) := by
  unfold nrCreditEntries at hdelay
  unfold u64 unitTimeInterval
  rw [Nat.mod_eq_of_lt (a := lat + delay * 4000) (by omega), Nat.mod_eq_of_lt (by omega)]
  exact Nat.le_add_right t _

/-- A transfer ends no earlier than it was requested. -/
theorem chmodelRequest_le {curTime t len : Nat} {ch : ChannelModel} {r : ChannelModel × Nat}
    (h : chmodelRequest curTime ch t len = .ok r) (ht : t < 2^63) : t ≤ r.2 := by
  unfold chmodelRequest at h
  obtain ⟨_, h⟩ := nvmevAssert_bind_ok.mp h
  dsimp only at h
  split at h
  · cases h
    exact Nat.le_refl t
  split at h
  · cases h
    exact Nat.le_refl t
  split at h
  · cases h
  cases h
  refine le_transfer ht (Nat.mod_lt _ (Nat.two_pow_pos 32)) ?_
  have hle := fun a pos credits => consumeCredits_delay_le (chmodelAdvance ch curTime).head
    nrCreditEntries a pos credits 0
  split
  · exact Nat.le_trans (Nat.sub_le _ _) (by simpa only [Nat.zero_add] using hle _ _ _)
  · exact Nat.zero_le _

theorem ssdAdvanceCh_ok {ppa : Ppa} {t t' len : Nat} (h : ssdAdvanceCh clk ssd ppa t len = .ok (ssd', t')) :
    ssd'.clock = ssd.clock ∧ (t < 2^63 → t ≤ t') := by
  unfold ssdAdvanceCh at h
  obtain ⟨⟨model, time⟩, hreq, h⟩ := bind_eq_ok.mp h
  cases h
  refine ⟨?_, fun ht => chmodelRequest_le hreq ht⟩
  funext c l
  unfold Ssd.clock
  by_cases hc : c = ppa.ch
  · subst hc
    dsimp only
    rw [Function.update_self]
  · dsimp only
    rw [Function.update_of_ne hc]

theorem ssdAdvancePcie_ok {t t' len : Nat} (h : ssdAdvancePcie clk ssd t len = .ok (ssd', t')) :
    ssd'.clock = ssd.clock ∧ (t < 2^63 → t ≤ t') := by
  unfold ssdAdvancePcie at h
  obtain ⟨⟨model, time⟩, hreq, h⟩ := bind_eq_ok.mp h
  cases h
  exact ⟨rfl, fun ht => chmodelRequest_le hreq ht⟩

/-- The second half of a transfer: what has left the chip is sent on, if it is to be interleaved. -/
def sendOn (clk : Nat → Nat) (interleave : Bool) (ssd : Ssd) (t len : Nat) : Except Fault (Ssd × Nat) :=
  if interleave then ssdAdvancePcie clk ssd t len else .ok (ssd, t)

theorem sendOn_ok {interleave : Bool} {t t' len : Nat} (h : sendOn clk interleave ssd t len = .ok (ssd', t')) :
    ssd'.clock = ssd.clock ∧ (t < 2^63 → t ≤ t') := by
  unfold sendOn at h
  split at h
  · exact ssdAdvancePcie_ok h
  · cases h
    exact ⟨rfl, fun _ => Nat.le_refl t⟩

/-- The times at which the transfers of a read start, and the end of the last one, are below `2^63`. -/
def XfersInTime (clk : Nat → Nat) (spp : SsdParams) (ppa : Ppa) (interleave : Bool) :
    Nat → Ssd → Nat → Nat → Prop
  | 0, _, _, t => t < 2^63
  | fuel + 1, ssd, remaining, t => t < 2^63 ∧ ∀ ssd₁ t₁ ssd₂ t₂, remaining ≠ 0 →
      ssdAdvanceCh clk ssd ppa t (min remaining spp.maxChXferSize) = .ok (ssd₁, t₁) →
      sendOn clk interleave ssd₁ t₁ (min remaining spp.maxChXferSize) = .ok (ssd₂, t₂) →
      XfersInTime clk spp ppa interleave fuel ssd₂ (remaining - min remaining spp.maxChXferSize) t₁

theorem XfersInTime.lt {ppa : Ppa} {interleave : Bool} {fuel remaining t : Nat}
    (h : XfersInTime clk spp ppa interleave fuel ssd remaining t) : t < 2^63 := by
  cases fuel with
  | zero => exact h
  | succ fuel => exact h.1

theorem readXfer_ok {ppa : Ppa} {interleave : Bool} {fuel remaining t c t' c' : Nat}
    (h : readXfer clk spp ppa interleave fuel ssd remaining t c = .ok (ssd', t', c')) (hc : t ≤ c)
    (hin : XfersInTime clk spp ppa interleave fuel ssd remaining t) :
    ssd'.clock = ssd.clock ∧ t ≤ t' ∧ t' ≤ c' := by
  induction fuel generalizing ssd remaining t c with
  | zero =>
    unfold readXfer at h
    split at h
    · cases h
      exact ⟨rfl, Nat.le_refl _, hc⟩
    · cases h
  | succ fuel ih =>
    by_cases hz : remaining = 0
    · subst hz
      rw [readXfer_zero] at h
      cases h
      exact ⟨rfl, Nat.le_refl _, hc⟩
    · rw [readXfer_succ _ _ _ _ _ _ _ _ _ hz] at h
      obtain ⟨⟨ssd₁, t₁⟩, h₁, h⟩ := bind_eq_ok.mp h
      have h : (sendOn clk interleave ssd₁ t₁ (min remaining spp.maxChXferSize) >>= fun r =>
          readXfer clk spp ppa interleave fuel r.1 (remaining - min remaining spp.maxChXferSize) t₁ r.2) =
          .ok (ssd', t', c') := by
        cases interleave <;> exact h
      obtain ⟨⟨ssd₂, t₂⟩, h₂, h⟩ := bind_eq_ok.mp h
      obtain ⟨hclock₁, hle₁⟩ := ssdAdvanceCh_ok h₁
      have h₂ : sendOn clk interleave ssd₁ t₁ _ = .ok (ssd₂, t₂) := h₂
      obtain ⟨hclock₂, hle₂⟩ := sendOn_ok h₂
      have hin' := hin.2 ssd₁ t₁ ssd₂ t₂ hz h₁ h₂
      obtain ⟨hclock, hle, hle'⟩ := ih h (hle₂ hin'.lt) hin'
      exact ⟨hclock.trans (hclock₂.trans hclock₁), Nat.le_trans (hle₁ hin.lt) hle, hle'⟩

/-- The times of a command are below `2^63`. -/
structure InTime (clk : Nat → Nat) (spp : SsdParams) (e : NandEvent) : Prop where
  start : e.start clk < 2^63
  read : e.ncmd.cmd = .read → e.readLat spp < 2^63 ∧ XfersInTime clk spp e.ncmd.ppa e.ncmd.interleavePciDma
    e.ncmd.xferSize e.begun e.ncmd.xferSize (e.start clk + e.readLat spp)
  write : e.ncmd.cmd = .write → spp.pgWrLat < 2^63 ∧ ∀ ssd t,
    ssdAdvanceCh clk e.begun e.ncmd.ppa (e.start clk) e.ncmd.xferSize = .ok (ssd, t) → t < 2^63
  erase : e.ncmd.cmd = .erase → spp.blkErLat < 2^63

/-- What one command does: its LUN is busy from its start to its finish, the other LUNs are not
concerned. -/
structure Occupies (clk : Nat → Nat) (e : NandEvent) : Prop where
  busy : e.start clk ≤ e.finish
  done : e.start clk ≤ e.done
  freed : e.ncmd.cmd ≠ .read → e.done = e.finish
  others : ∀ c l, ¬ (c = e.ncmd.ppa.ch ∧ l = e.ncmd.ppa.lun) → e.after.clock c l = e.before.clock c l

theorem le_u64_add {t d : Nat} (ht : t < 2^63) (hd : d < 2^63) : t ≤ u64 (t + d) ∧ u64 (t + d) = t + d := by
  have he : u64 (t + d) = t + d := Nat.mod_eq_of_lt (by omega)
  exact ⟨by omega, he⟩

/-- The command has left the clocks alone but for that of its LUN, which is set to `t`. -/
theorem occupies_of {e : NandEvent} {ssd : Ssd} {lun : NandLun} (hclock : ssd.clock = e.before.clock)
    (hafter : e.after = ssd.setLun e.ncmd.ppa lun) (hbusy : e.start clk ≤ lun.nextLunAvailTime)
    (hdone : e.start clk ≤ e.done) (hfreed : e.ncmd.cmd ≠ .read → e.done = lun.nextLunAvailTime) :
    Occupies clk e := by
  have hfinish : e.finish = lun.nextLunAvailTime := by
    unfold NandEvent.finish
    rw [hafter]
    exact setLun_clock_self ssd e.ncmd.ppa lun
  refine ⟨hfinish.symm ▸ hbusy, hdone, fun hne => (hfreed hne).trans hfinish.symm, ?_⟩
  intro c l hne
  rw [hafter, setLun_clock_other ssd e.ncmd.ppa lun hne, hclock]

theorem ssdAdvanceNand_occupies {e : NandEvent} (hcmd : Commanded spp e.ncmd)
    (hok : ssdAdvanceNand clk spp e.before e.ncmd = .ok (e.after, e.done)) (hin : InTime clk spp e) :
    Occupies clk e := by
  have hbegun : (if e.ncmd.stime = 0 then ({ e.before with ticks := e.before.ticks + 1 }, clk e.before.ticks)
      else (e.before, e.ncmd.stime)) = (e.begun, e.cmdStime clk) := by
    unfold NandEvent.begun NandEvent.cmdStime
    split <;> rfl
  have hclock : e.begun.clock = e.before.clock := by
    unfold NandEvent.begun
    split <;> rfl
  have hlun : e.begun.getLun e.ncmd.ppa = e.before.getLun e.ncmd.ppa := by
    unfold NandEvent.begun
    split <;> rfl
  have hstart := hin.start
  unfold ssdAdvanceNand at hok
  rw [hbegun] at hok
  dsimp only at hok
  rw [if_neg hcmd.mapped, if_neg (not_not.mpr hcmd.die), hlun] at hok
  cases hop : e.ncmd.cmd with
  | read =>
    rw [hop] at hok
    obtain ⟨⟨ssd₁, t₁, c₁⟩, hx, hok⟩ := bind_eq_ok.mp hok
    obtain ⟨hafter, hdone⟩ := Prod.mk.inj (Except.ok.inj hok)
    obtain ⟨hlat, hxfers⟩ := hin.read hop
    obtain ⟨hle, heq⟩ := le_u64_add hstart hlat
    change readXfer _ _ _ _ _ _ _ (u64 (e.start clk + e.readLat spp))
      (u64 (e.start clk + e.readLat spp)) = _ at hx
    rw [heq] at hx hle
    obtain ⟨hclock₁, hfrom, hto⟩ := readXfer_ok hx (Nat.le_refl _) hxfers
    refine occupies_of (hclock₁.trans hclock) hafter.symm (Nat.le_trans hle hfrom) ?_
      (fun hne => absurd hop hne)
    exact hdone ▸ Nat.le_trans hle (Nat.le_trans hfrom hto)
  | write =>
    rw [hop] at hok
    obtain ⟨⟨ssd₁, t₁⟩, hx, hok⟩ := bind_eq_ok.mp hok
    obtain ⟨hafter, hdone⟩ := Prod.mk.inj (Except.ok.inj hok)
    obtain ⟨hlat, hend⟩ := hin.write hop
    obtain ⟨hclock₁, hle₁⟩ := ssdAdvanceCh_ok hx
    have hle := Nat.le_trans (hle₁ hstart) (le_u64_add (hend _ _ hx) hlat).1
    exact occupies_of (hclock₁.trans hclock) hafter.symm hle (hdone ▸ hle) (fun _ => hdone.symm)
  | erase =>
    rw [hop] at hok
    obtain ⟨hafter, hdone⟩ := Prod.mk.inj (Except.ok.inj hok)
    have hle := (le_u64_add hstart (hin.erase hop)).1
    exact occupies_of hclock hafter.symm hle (hdone ▸ hle) (fun _ => hdone.symm)
  | nop =>
    rw [hop] at hok
    obtain ⟨hafter, hdone⟩ := Prod.mk.inj (Except.ok.inj hok)
    exact occupies_of hclock hafter.symm (Nat.le_refl _) (Nat.le_of_eq hdone) (fun _ => hdone.symm)

theorem closeLine_ssd {io : IoType} {wpp : WritePointer} (hok : closeLine spp s io wpp = .ok s') :
    s'.ssd = s.ssd := by
  unfold closeLine checkAddr at hok
  obtain ⟨_, _, hok⟩ := bind_eq_ok.mp hok
  obtain ⟨_, hok⟩ := nvmevAssert_bind_ok.mp hok
  split at hok
  · cases hok
  · dsimp only at hok
    obtain ⟨_, hok⟩ := nvmevAssert_bind_ok.mp hok
    obtain ⟨_, hok⟩ := nvmevAssert_bind_ok.mp hok
    obtain ⟨_, hok⟩ := nvmevAssert_bind_ok.mp hok
    obtain ⟨_, hok⟩ := nvmevAssert_bind_ok.mp hok
    obtain ⟨_, hok⟩ := nvmevAssert_bind_ok.mp hok
    cases hok
    exact (setWp_relined _ io _).ssd

theorem advanceWritePointer_ssd {io : IoType} (hok : advanceWritePointer spp s io = .ok s') :
    s'.ssd = s.ssd := by
  unfold advanceWritePointer checkAddr at hok
  dsimp +instances only at hok
  obtain ⟨_, hok⟩ := nvmevAssert_bind_ok.mp hok
  split at hok
  · cases hok
    exact (setWp_relined s io _).ssd
  obtain ⟨_, hok⟩ := nvmevAssert_bind_ok.mp hok
  split at hok
  · cases hok
    exact (setWp_relined s io _).ssd
  obtain ⟨_, hok⟩ := nvmevAssert_bind_ok.mp hok
  split at hok
  · cases hok
    exact (setWp_relined s io _).ssd
  split at hok
  · cases hok
    exact (setWp_relined s io _).ssd
  exact closeLine_ssd hok

theorem FtlStep.clock (h : FtlStep spp s s') : s'.ssd.clock = s.ssd.clock := by
  cases h with
  | link pcie ticks => rfl
  | drop _ _ hok =>
    rcases dropOldPage_steps hok with rfl | ⟨_, _, _, _, _, rfl⟩ <;> rfl
  | write _ hok =>
    obtain ⟨_, _, _, _, _, hadv⟩ := writeNewPage_steps hok
    rw [advanceWritePointer_ssd hadv]
    rfl
  | select _ hsel =>
    unfold selectVictimLine at hsel
    split at hsel
    · cases hsel
    split at hsel
    · cases hsel
    split at hsel
    · cases hsel
    cases hsel
    rfl
  | recount wfc n => rfl
  | erase c l p _ => rfl
  | endtime ppa t =>
    funext c l
    by_cases hd : c = ppa.ch ∧ l = ppa.lun
    · obtain ⟨rfl, rfl⟩ := hd
      exact setLun_clock_self _ _ _
    · exact setLun_clock_other _ _ _ hd
  | free _ _ => rfl

def SameLun (e e' : NandEvent) : Prop :=
  e.ncmd.ppa.ch = e'.ncmd.ppa.ch ∧ e.ncmd.ppa.lun = e'.ncmd.ppa.lun

/-- The commands of a run, which began in `s`, one LUN after the other. -/
structure OnTime (clk : Nat → Nat) (s : ConvFtl) (log : List NandEvent) (s' : ConvFtl) : Prop where
  later : ∀ c l, s.ssd.clock c l ≤ s'.ssd.clock c l
  occupies : ∀ e ∈ log, Occupies clk e
  apart : log.Pairwise (fun new old => SameLun new old → old.finish ≤ new.start clk)
  passed : ∀ e ∈ log, e.finish ≤ s'.ssd.clock e.ncmd.ppa.ch e.ncmd.ppa.lun

theorem OnTime.nand {e : NandEvent} (h : OnTime clk s log { s' with ssd := e.before })
    (he : Occupies clk e) : OnTime clk s (e :: log) { s' with ssd := e.after } := by
  have hmono : ∀ c l, e.before.clock c l ≤ e.after.clock c l := by
    intro c l
    by_cases hd : c = e.ncmd.ppa.ch ∧ l = e.ncmd.ppa.lun
    · obtain ⟨rfl, rfl⟩ := hd
      exact Nat.le_trans (Nat.le_max_left _ _) he.busy
    · exact Nat.le_of_eq (he.others c l hd).symm
  refine ⟨fun c l => Nat.le_trans (h.later c l) (hmono c l), ?_, ?_, ?_⟩
  · intro e' he'
    rcases List.mem_cons.mp he' with rfl | hmem
    · exact he
    · exact h.occupies e' hmem
  · refine List.pairwise_cons.mpr ⟨?_, h.apart⟩
    intro old hmem hsame
    have hpassed : old.finish ≤ e.before.clock old.ncmd.ppa.ch old.ncmd.ppa.lun := h.passed old hmem
    rw [← hsame.1, ← hsame.2] at hpassed
    exact Nat.le_trans hpassed (Nat.le_max_left _ _)
  · intro e' he'
    rcases List.mem_cons.mp he' with rfl | hmem
    · exact Nat.le_refl _
    · exact Nat.le_trans (h.passed e' hmem) (hmono _ _)

theorem FtlRun.onTime (run : FtlRun clk spp s log s') (hin : ∀ e ∈ log, InTime clk spp e) :
    OnTime clk s log s' := by
  induction run with
  | start =>
    exact ⟨fun _ _ => Nat.le_refl _, fun _ he => (nomatch he), List.Pairwise.nil, fun _ he => (nomatch he)⟩
  | nand _ hcmd hok ih =>
    have hlog := ih (fun e he => hin e (List.mem_cons_of_mem _ he))
    exact hlog.nand (ssdAdvanceNand_occupies hcmd hok (hin _ List.mem_cons_self))
  | step _ hstep ih =>
    have h := ih hin
    have hclock := hstep.clock
    refine ⟨?_, h.occupies, h.apart, ?_⟩
    · rw [hclock]
      exact h.later
    · rw [hclock]
      exact h.passed

theorem le_latestLun (ch : SsdChannel) (latest n : Nat) : latest ≤ latestLun ch latest n ∧
    ∀ l < n, (ch.lun l).nextLunAvailTime ≤ latestLun ch latest n := by
  induction n with
  | zero => exact ⟨Nat.le_refl _, fun l hl => absurd hl (Nat.not_lt_zero l)⟩
  | succ n ih =>
    unfold latestLun
    refine ⟨Nat.le_trans ih.1 (Nat.le_max_left _ _), ?_⟩
    intro l hl
    rcases Nat.lt_succ_iff_lt_or_eq.mp hl with hlt | rfl
    · exact Nat.le_trans (ih.2 l hlt) (Nat.le_max_left _ _)
    · exact Nat.le_max_right _ _

theorem le_latestCh (ssd : Ssd) (latest n : Nat) : latest ≤ latestCh spp ssd latest n ∧
    ∀ c < n, ∀ l < spp.lunsPerCh, ssd.clock c l ≤ latestCh spp ssd latest n := by
  induction n with
  | zero => exact ⟨Nat.le_refl _, fun c hc => absurd hc (Nat.not_lt_zero c)⟩
  | succ n ih =>
    unfold latestCh
    obtain ⟨hfrom, hall⟩ := le_latestLun (ssd.ch n) (latestCh spp ssd latest n) spp.lunsPerCh
    refine ⟨Nat.le_trans ih.1 hfrom, ?_⟩
    intro c hc l hl
    rcases Nat.lt_succ_iff_lt_or_eq.mp hc with hlt | rfl
    · exact Nat.le_trans (ih.2 c hlt l hl) hfrom
    · exact hall l hl

/-- The fold of `conv_flush` over some partitions: the clocks stay, and the latest time passes those
of the partitions it has seen. -/
theorem flushParts_latest (l : List Nat) (p : ConvNs × Nat) :
    p.2 ≤ (l.foldl (fun p i => flushPart clk spp i p) p).2 ∧
      ∀ i ∈ l, ∀ c < spp.nchs, ∀ u < spp.lunsPerCh,
        (p.1.load i).ssd.clock c u ≤ (l.foldl (fun p i => flushPart clk spp i p) p).2 := by
  induction l generalizing p with
  | nil => exact ⟨Nat.le_refl _, fun _ hi => nomatch hi⟩
  | cons i l ih =>
    have hclock : ∀ j, ((flushPart clk spp i p).1.load j).ssd.clock = (p.1.load j).ssd.clock := by
      intro j
      unfold flushPart
      by_cases hj : j = i
      · rw [hj, load_store_same]
        rfl
      · rw [load_store_other _ _ hj]
        rfl
    obtain ⟨hfrom, hall⟩ := ih (flushPart clk spp i p)
    rw [List.foldl_cons]
    refine ⟨Nat.le_trans (Nat.le_max_left _ _) hfrom, ?_⟩
    intro j hj c hc u hu
    rcases List.mem_cons.mp hj with rfl | hmem
    · refine Nat.le_trans ?_ (Nat.le_trans (Nat.le_max_right _ _) hfrom)
      have hle : ∀ c < spp.nchs, ∀ l < spp.lunsPerCh, (p.1.load j).ssd.clock c l ≤ latestCh spp _ _ spp.nchs :=
        (le_latestCh (p.1.load j).ssd (clk (p.1.load j).ssd.ticks) spp.nchs).2
      exact hle c hc u hu
    · rw [← hclock j]
      exact hall j hmem c hc u hu

theorem clock_le_convFlush (clk : Nat → Nat) {ns : ConvNs} {i c l : Nat} (hi : i < ns.nrParts)
    (hc : c < spp.nchs) (hl : l < spp.lunsPerCh) :
    (ns.load i).ssd.clock c l ≤ (convFlush clk spp ns).2.nsecsTarget :=
  (flushParts_latest (List.range ns.nrParts) ({ ns with ticks := ns.ticks + 1 }, clk ns.ticks)).2 i
    (List.mem_range.mpr hi) c hc l hl

theorem FtlRun.commanded (run : FtlRun clk spp s log s') : ∀ e ∈ log, Commanded spp e.ncmd := by
  induction run with
  | start => exact fun _ he => nomatch he
  | nand _ hcmd _ ih =>
    intro e he
    rcases List.mem_cons.mp he with rfl | hmem
    · exact hcmd
    · exact ih e hmem
  | step _ _ ih => exact ih

/-- Whatever commands the partitions have been through (`convProcNvmeIoCmd_run`), every LUN has served
its own one after the other, and a flush ends no earlier than any program or erase before it. -/
theorem nand_commands_in_order {ns : ConvNs} {start : Nat → ConvFtl} {logs : Nat → List NandEvent}
    (run : ∀ i < ns.nrParts, FtlRun clk spp (start i) (logs i) (ns.load i))
    (hin : ∀ i < ns.nrParts, ∀ e ∈ logs i, InTime clk spp e) :
    (∀ i < ns.nrParts, OnTime clk (start i) (logs i) (ns.load i)) ∧
      ∀ i < ns.nrParts, ∀ e ∈ logs i, e.ncmd.cmd = .write ∨ e.ncmd.cmd = .erase →
        e.done ≤ (convFlush clk spp ns).2.nsecsTarget := by
  have hall : ∀ i < ns.nrParts, OnTime clk (start i) (logs i) (ns.load i) :=
    fun i hi => (run i hi).onTime (hin i hi)
  refine ⟨hall, ?_⟩
  intro i hi e he hop
  have hdie := ((run i hi).commanded e he).die
  have hread : e.ncmd.cmd ≠ .read := by rcases hop with hw | hw <;> rw [hw] <;> decide
  calc e.done = e.finish := ((hall i hi).occupies e he).freed hread
    _ ≤ (ns.load i).ssd.clock e.ncmd.ppa.ch e.ncmd.ppa.lun := (hall i hi).passed e he
    _ ≤ (convFlush clk spp ns).2.nsecsTarget := clock_le_convFlush clk hi hdie.1 hdie.2

def programFirst : NandCmd := ⟨.user, .write, 4096, 5, false, ⟨0, 0, 0, 0, 0, 0⟩⟩

def eraseFirst : NandCmd := ⟨.gc, .erase, 0, 0, false, ⟨0, 0, 0, 0, 0, 0⟩⟩

def stillTime (_ : Nat) : Nat := 0

def ProgramFits (spp : SsdParams) (e : NandEvent) : Bool :=
  decide (e.ncmd.cmd = .write ∧ e.start stillTime < 2^63 ∧ spp.pgWrLat < 2^63) &&
    check (fun r => decide (r.2 < 2^63))
      (ssdAdvanceCh stillTime e.begun e.ncmd.ppa (e.start stillTime) e.ncmd.xferSize)

theorem ProgramFits.inTime {spp : SsdParams} {e : NandEvent} (h : ProgramFits spp e = true) :
    InTime stillTime spp e := by
  obtain ⟨hbounds, hxfer⟩ := Bool.and_eq_true_iff.mp h
  obtain ⟨hop, hstart, hlat⟩ := of_decide_eq_true hbounds
  refine ⟨hstart, fun he => (nomatch hop.symm.trans he), fun _ => ⟨hlat, ?_⟩,
    fun he => (nomatch hop.symm.trans he)⟩
  intro ssd t hok
  rw [hok] at hxfer
  exact of_decide_eq_true hxfer

def ConvNs.afterNand (ns : ConvNs) (i : Nat) (ssd : Ssd) : ConvNs := ns.store i { ns.load i with ssd := ssd }

/-- On the first partition a page is programmed, its block erased and the page programmed again; then a
page of the second partition is programmed. -/
def fourCommands : Except Fault
    (SsdParams × ConvNs × (Ssd × Nat) × (Ssd × Nat) × (Ssd × Nat) × (Ssd × Nat)) := do
  let (spp, ns) ← convInitNamespace twoPartitions.toSsdConfig (fun _ => zeroLeftover) 90112
  let r₁ ← ssdAdvanceNand stillTime spp (ns.load 0).ssd programFirst
  let r₂ ← ssdAdvanceNand stillTime spp r₁.1 eraseFirst
  let r₃ ← ssdAdvanceNand stillTime spp r₂.1 programFirst
  let r₄ ← ssdAdvanceNand stillTime spp ((ns.afterNand 0 r₃.1).load 1).ssd programFirst
  return (spp, ns, r₁, r₂, r₃, r₄)

/-- The programs of the one die follow one another, and a flush waits for the second. -/
theorem nand_commands_in_order_program : ∃ (spp : SsdParams) (ns ns' : ConvNs) (e₁ e₂ e₃ e₄ : NandEvent),
    e₁.ncmd = programFirst ∧ e₂.ncmd = eraseFirst ∧ e₃.ncmd = programFirst ∧ e₄.ncmd = programFirst ∧
    OnTime stillTime (ns.load 0) [e₃, e₂, e₁] (ns'.load 0) ∧ OnTime stillTime (ns.load 1) [e₄] (ns'.load 1) ∧
    e₁.done = 189869 ∧ e₃.done = 379733 ∧ e₃.done ≤ (convFlush stillTime spp ns').2.nsecsTarget := by
  obtain ⟨⟨spp, ns, r₁, r₂, r₃, r₄⟩, hrun, hp⟩ := exists_of_check (show check (fun r =>
      decide (r.1.nchs = 1 ∧ r.1.lunsPerCh = 1 ∧ r.1.blkErLat < 2^63 ∧ r.2.1.nrParts = 2 ∧
        r.2.2.1.2 = 189869 ∧ r.2.2.2.2.1.2 = 379733) &&
      ProgramFits r.1 ⟨(r.2.1.load 0).ssd, programFirst, r.2.2.1.1, r.2.2.1.2⟩ &&
      decide (NandEvent.start stillTime ⟨r.2.2.1.1, eraseFirst, r.2.2.2.1.1, r.2.2.2.1.2⟩ < 2^63) &&
      ProgramFits r.1 ⟨r.2.2.2.1.1, programFirst, r.2.2.2.2.1.1, r.2.2.2.2.1.2⟩ &&
      ProgramFits r.1 ⟨((r.2.1.afterNand 0 r.2.2.2.2.1.1).load 1).ssd, programFirst, r.2.2.2.2.2.1,
        r.2.2.2.2.2.2⟩) fourCommands = true by decide +kernel)
  unfold fourCommands at hrun
  obtain ⟨⟨_, _⟩, -, hrun⟩ := bind_eq_ok.mp hrun
  obtain ⟨_, h₁, hrun⟩ := bind_eq_ok.mp hrun
  obtain ⟨_, h₂, hrun⟩ := bind_eq_ok.mp hrun
  obtain ⟨_, h₃, hrun⟩ := bind_eq_ok.mp hrun
  obtain ⟨_, h₄, hrun⟩ := bind_eq_ok.mp hrun
  cases hrun
  simp only [Bool.and_eq_true, decide_eq_true_eq] at hp
  obtain ⟨⟨⟨⟨⟨hch, hlun, herase, hparts, hdone₁, hdone₃⟩, hfits₁⟩, hstart₂⟩, hfits₃⟩, hfits₄⟩ := hp
  have hprogram : Commanded spp programFirst :=
    ⟨⟨by rw [hch]; decide, by rw [hlun]; decide⟩, by decide, fun _ he => nomatch he⟩
  have heraseCmd : Commanded spp eraseFirst :=
    ⟨⟨by rw [hch]; decide, by rw [hlun]; decide⟩, by decide, fun _ he => nomatch he⟩
  let ns₀ := ns.afterNand 0 r₃.1
  let e₁ : NandEvent := ⟨(ns.load 0).ssd, programFirst, r₁.1, r₁.2⟩
  let e₂ : NandEvent := ⟨r₁.1, eraseFirst, r₂.1, r₂.2⟩
  let e₃ : NandEvent := ⟨r₂.1, programFirst, r₃.1, r₃.2⟩
  let e₄ : NandEvent := ⟨(ns₀.load 1).ssd, programFirst, r₄.1, r₄.2⟩
  have hrun₀ : FtlRun stillTime spp (ns.load 0) [e₃, e₂, e₁] { ns.load 0 with ssd := r₃.1 } :=
    ((FtlRun.start.nand hprogram h₁).nand heraseCmd h₂).nand hprogram h₃
  -- the partitions share the link and the clock
  have hlink₁ : ns₀.load 1 =
      { ns.load 1 with ssd := { (ns.load 1).ssd with pcie := r₃.1.pcie, ticks := r₃.1.ticks } } :=
    load_store_other ns _ (by decide)
  have hlink₀ : (ns₀.afterNand 1 r₄.1).load 0 =
      { ns₀.load 0 with ssd := { (ns₀.load 0).ssd with pcie := r₄.1.pcie, ticks := r₄.1.ticks } } :=
    load_store_other ns₀ _ (by decide)
  have hsame₀ : ns₀.load 0 = { ns.load 0 with ssd := r₃.1 } := load_store_same ns 0 _
  have hsame₁ : (ns₀.afterNand 1 r₄.1).load 1 = { ns₀.load 1 with ssd := r₄.1 } := load_store_same ns₀ 1 _
  have hrun₁ : FtlRun stillTime spp (ns.load 1) [e₄] ((ns₀.afterNand 1 r₄.1).load 1) := by
    rw [hsame₁]
    refine FtlRun.nand ?_ hprogram h₄
    rw [hlink₁]
    exact FtlRun.start.step (.link _ _)
  have hrun : ∀ i < (ns₀.afterNand 1 r₄.1).nrParts, FtlRun stillTime spp (ns.load i)
      (if i = 0 then [e₃, e₂, e₁] else [e₄]) ((ns₀.afterNand 1 r₄.1).load i) := by
    intro i hi
    have hi : i < ns.nrParts := hi
    rcases (show i = 0 ∨ i = 1 by omega) with rfl | rfl
    · rw [if_pos rfl, hlink₀, hsame₀]
      exact hrun₀.step (.link _ _)
    · exact hrun₁
  have hin : ∀ i < ns.nrParts, ∀ e ∈ (if i = 0 then [e₃, e₂, e₁] else [e₄]), InTime stillTime spp e := by
    intro i _
    have herases : InTime stillTime spp e₂ :=
      ⟨hstart₂, fun he => (nomatch he), fun he => (nomatch he), fun _ => herase⟩
    by_cases hi : i = 0
    · simp only [if_pos hi, List.forall_mem_cons]
      exact ⟨ProgramFits.inTime hfits₃, herases, ProgramFits.inTime hfits₁, fun _ he => nomatch he⟩
    · simp only [if_neg hi, List.forall_mem_singleton]
      exact ProgramFits.inTime hfits₄
  obtain ⟨hall, hflush⟩ := nand_commands_in_order hrun hin
  have hparts' : (ns₀.afterNand 1 r₄.1).nrParts = 2 := hparts
  have h0 : 0 < (ns₀.afterNand 1 r₄.1).nrParts := by omega
  have h1 : 1 < (ns₀.afterNand 1 r₄.1).nrParts := by omega
  exact ⟨spp, ns, ns₀.afterNand 1 r₄.1, e₁, e₂, e₃, e₄, rfl, rfl, rfl, rfl, hall 0 h0, hall 1 h1,
    hdone₁, hdone₃, hflush 0 h0 e₃ List.mem_cons_self (Or.inl rfl)⟩

end NVMeVirt
