import NVMeVirt.Bars

/-!
# Enabling the controller

What the admin queue is like when `CSTS.RDY` goes from 0 to 1.
-/

namespace NVMeVirt
set_option autoImplicit false
open Outcome Ring

/-- What the host assumes after it has enabled the controller. -/
structure PowerOn (v : NvmevDev) : Prop where
  queue : ∃ queue, v.adminQ = some queue ∧ queue.cqHead = 0 ∧ queue.phase = true
  sqDb : v.oldDbs 0 = 0
  cqDb : v.oldDbs 1 = 0

/-- The completions posted since `cq_head` was put back fill whole laps of the ring, the wraps since
the last change of AQA are even in number, and the doorbell values seen last are zero. -/
structure LogSettled (log : AdminLog) (depth : Nat) : Prop where
  whole : depth ∣ log.posted
  even : (log.laps + log.posted / depth) % 2 = 0
  sqDb : log.sqDb = 0
  cqDb : log.cqDb = 0

/-- The call has turned `CSTS.RDY` from 0 to 1. -/
def BarCall.enables (c : BarCall) : Prop := c.before.bar.rdy = false ∧ c.after.bar.rdy = true

variable {visited : List Bars} {calls : List BarCall} {log : AdminLog} {b b' : Bars}

theorem LogInv.powerOn_iff {v : NvmevDev} (inv : LogInv log v) (hq : v.adminQ ≠ none) :
    PowerOn v ↔ LogSettled log (cqDepthOf v) := by
  cases hqueue : v.adminQ with
  | none => exact absurd hqueue hq
  | some queue =>
    obtain ⟨hpos, hcur⟩ := inv.queue queue hqueue
    have hhead : queue.cqHead = log.posted % queue.cqDepth := by
      have h := congrArg Cursor.slot hcur
      unfold lapStart Cursor.after at h
      rwa [Nat.zero_add] at h
    have hphase : queue.phase = decide ((log.laps + log.posted / queue.cqDepth) % 2 = 0) :=
      (congrArg Cursor.phase hcur).trans (lapStart_phase _ _ _)
    have hdepth : cqDepthOf v = queue.cqDepth := by
      unfold cqDepthOf
      rw [hqueue]
    rw [hdepth]
    constructor
    · rintro ⟨⟨queue', hq', h0, h1⟩, hsq, hcq⟩
      obtain rfl := Option.some.inj (hqueue.symm.trans hq')
      refine ⟨Nat.dvd_of_mod_eq_zero (hhead.symm.trans h0), ?_, inv.sqDb.symm.trans hsq,
        inv.cqDb.symm.trans hcq⟩
      rw [hphase] at h1
      exact of_decide_eq_true h1
    · intro k
      refine ⟨⟨queue, hqueue, hhead.trans (Nat.mod_eq_zero_of_dvd k.whole), ?_⟩, inv.sqDb.trans k.sqDb,
        inv.cqDb.trans k.cqDb⟩
      rw [hphase]
      exact decide_eq_true k.even

theorem procEnable_rdy (h : b.bar.rdy = false) (h' : (procEnable b).rdy = true) : b.adm.adminQ ≠ none := by
  unfold procEnable at h'
  split at h'
  · split at h'
    · rename_i hsome
      exact Option.isSome_iff_ne_none.mp hsome
    · rw [h] at h'
      cases h'
  · cases h'

/-- Nothing is enabled without an admin queue. -/
theorem nvmevProcBars_enables (hstep : nvmevProcBars b = .ok b') (h : b.bar.rdy = false)
    (h' : b'.bar.rdy = true) : b'.adm.adminQ ≠ none := by
  have hstay : b'.bar.rdy ≠ b.bar.rdy := by
    rw [h, h']
    decide
  unfold nvmevProcBars at hstep
  split at hstep
  · cases hstep
    exact absurd rfl hstay
  · split at hstep
    · split at hstep
      · cases hstep
        exact absurd rfl hstay
      · cases hstep
        exact absurd rfl hstay
    · split at hstep
      · split at hstep
        · cases hstep
          exact absurd rfl hstay
        · cases hstep
          exact absurd rfl hstay
      · split at hstep
        · unfold procCc at hstep
          split at hstep
          · obtain ⟨adm, hadm, hstep⟩ := bind_eq_ok.mp hstep
            obtain ⟨queue, -, hadm⟩ := bind_eq_ok.mp hadm
            cases hadm
            cases hstep
            exact Option.some_ne_none _
          · cases hstep
            exact procEnable_rdy (b := b) h h'
        · cases hstep
          exact absurd rfl hstay

theorem BarRun.call_inv (h : BarRun visited calls log b) :
    ∀ c ∈ calls, nvmevProcBars c.before = .ok c.after ∧ LogInv c.log c.after.adm := by
  induction h with
  | boot _ => exact fun c hc => absurd hc List.not_mem_nil
  | host _ _ ih => exact ih
  | bars hrun hstep ih =>
    intro c hc
    rcases List.mem_append.mp hc with hc | hc
    · exact ih c hc
    · obtain rfl := List.mem_singleton.mp hc
      exact ⟨hstep, (nvmevProcBars_step hstep).logInv hrun.logInv⟩
  | dbs _ _ ih => exact ih

/-- In any run the admin queue is in its power-on state whenever the controller gets ready exactly
when it is settled each time. -/
theorem power_on_iff (h : BarRun visited calls log b) :
    (∀ c ∈ calls, c.enables → PowerOn c.after.adm) ↔
      ∀ c ∈ calls, c.enables → LogSettled c.log (cqDepthOf c.after.adm) := by
  have hiff : ∀ c ∈ calls, c.enables → (PowerOn c.after.adm ↔ LogSettled c.log (cqDepthOf c.after.adm)) := by
    intro c hc he
    obtain ⟨hstep, inv⟩ := h.call_inv c hc
    exact inv.powerOn_iff (nvmevProcBars_enables hstep he.1 he.2)
  constructor
  · exact fun hall c hc he => (hiff c hc he).mp (hall c hc he)
  · exact fun hall c hc he => (hiff c hc he).mpr (hall c hc he)

/-- The registers of queues of 2 entries, with the given value of CC. -/
def Bars.setUp (b : Bars) (cc : Nat) : Bars := b.write 0x10001 0x10000 0x20000 cc

def Bars.ringAdmin (b : Bars) : Bars :=
  { b with adm := { b.adm with dbs := Function.update b.adm.dbs 0 1 } }

theorem Bars.ringAdmin_step (b : Bars) : HostStep b b.ringAdmin := ⟨rfl, rfl, rfl, rfl, rfl, rfl⟩

/-- Enable, one identify command, disable, enable again with the same registers: the queue is where
the command has left it. -/
theorem reenable_keeps_head : ∃ visited calls log b, BarRun visited calls log b ∧
    b.bar.rdy = true ∧ (b.adm.adminQ.map AdminQueue.cqHead) = some 1 ∧ b.adm.oldDbs 0 = 1 ∧
    ¬ ∀ c ∈ calls, c.enables → PowerOn c.after.adm := by
  obtain ⟨⟨b₅, b⟩, hrun, hp⟩ := exists_of_check (show check (fun (r : Bars × Bars) =>
      decide (r.1.bar.rdy = false) && decide (r.2.bar.rdy = true) &&
      decide ((r.2.adm.adminQ.map AdminQueue.cqHead) = some 1) && decide (r.2.adm.oldDbs 0 = 1)) (do
    let b ← nvmevProcBars ((bootBars identifyCtrl).setUp 1)
    let b ← nvmevProcBars b
    let b ← nvmevProcBars b
    let b ← nvmevProcBars b
    let adm ← procDbsAdmin b.ringAdmin.adm
    let b₅ ← nvmevProcBars (Bars.setUp { b.ringAdmin with adm := adm } 0)
    let b₆ ← nvmevProcBars (b₅.setUp 1)
    return (b₅, b₆)) = true by decide +kernel)
  obtain ⟨b₁, h₁, hrun⟩ := bind_eq_ok.mp hrun
  obtain ⟨b₂, h₂, hrun⟩ := bind_eq_ok.mp hrun
  obtain ⟨b₃, h₃, hrun⟩ := bind_eq_ok.mp hrun
  obtain ⟨b₄, h₄, hrun⟩ := bind_eq_ok.mp hrun
  obtain ⟨adm, hadm, hrun⟩ := bind_eq_ok.mp hrun
  obtain ⟨_, h₅, hrun⟩ := bind_eq_ok.mp hrun
  obtain ⟨_, h₆, hrun⟩ := bind_eq_ok.mp hrun
  cases hrun
  simp only [Bool.and_eq_true, decide_eq_true_eq] at hp
  obtain ⟨⟨⟨hoff, hon⟩, hhead⟩, hdb⟩ := hp
  have hr := BarRun.boot (bootBars_booted identifyCtrl) |>.host (Bars.write_step _ _ _ _ _) |>.bars h₁
    |>.bars h₂ |>.bars h₃ |>.bars h₄ |>.host (Bars.ringAdmin_step _) |>.dbs hadm
    |>.host (Bars.write_step _ _ _ _ _) |>.bars h₅ |>.host (Bars.write_step _ _ _ _ _) |>.bars h₆
  refine ⟨_, _, _, b, hr, hon, hhead, hdb, fun hall => ?_⟩
  have k := hall _ (List.mem_append_right _ (List.mem_singleton_self _)) ⟨hoff, hon⟩
  exact absurd (hdb.symm.trans k.sqDb) (by decide)

theorem AdminLog.start_bars (depth : Nat) (change : BarChange) :
    AdminLog.start.bars depth change = .start := by
  cases change with
  | acq => simp [bars, start]
  | shutdown => simp [bars, start]
  | aqa => rfl
  | asq => rfl
  | cc => rfl
  | nothing => rfl

theorem logSettled_start (depth : Nat) : LogSettled .start depth :=
  ⟨Nat.dvd_zero depth, by simp [AdminLog.start], rfl, rfl⟩

/-- The first enable after loading. -/
theorem power_on_first : ∃ visited calls log b, BarRun visited calls log b ∧ b.bar.rdy = true ∧
    ∀ c ∈ calls, c.enables → PowerOn c.after.adm := by
  obtain ⟨b, hrun, hp⟩ := exists_of_check (show check (fun (b : Bars) => decide (b.bar.rdy = true)) (do
    let b ← nvmevProcBars ((bootBars identifyCtrl).setUp 1)
    let b ← nvmevProcBars b
    let b ← nvmevProcBars b
    nvmevProcBars b) = true by decide +kernel)
  obtain ⟨b₁, h₁, hrun⟩ := bind_eq_ok.mp hrun
  obtain ⟨b₂, h₂, hrun⟩ := bind_eq_ok.mp hrun
  obtain ⟨b₃, h₃, h₄⟩ := bind_eq_ok.mp hrun
  have hr := BarRun.boot (bootBars_booted identifyCtrl) |>.host (Bars.write_step _ _ _ _ _) |>.bars h₁
    |>.bars h₂ |>.bars h₃ |>.bars h₄
  refine ⟨_, _, _, b, hr, of_decide_eq_true hp, (power_on_iff hr).mpr ?_⟩
  intro c hc _
  simp only [List.nil_append, List.mem_append, List.mem_singleton, AdminLog.start_bars] at hc
  have hlog : c.log = .start := by
    rcases hc with ((rfl | rfl) | rfl) | rfl <;> rfl
  rw [hlog]
  exact logSettled_start _

end NVMeVirt
