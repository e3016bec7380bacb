import NVMeVirt.Doorbells

/-!
# A log of the handlers

Handlers that write down what they accept, as it was given to them, and what they answer. Nothing else
looks at the log, so a call of `nvmev_proc_dbs` does with them what it does without.
-/

namespace NVMeVirt
set_option autoImplicit false
open Outcome

structure HandlerAnswer where
  cmd : NvmeRwCommand
  ret : NvmevResult

/-- The state of the namespaces, with the queue and the answer of every command accepted. -/
abbrev Logged (σ : Type) := σ × List (Nat × HandlerAnswer)

variable {σ : Type}

def logged (proc : ProcIoCmd σ) : ProcIoCmd (Logged σ) := fun i t cmd sqid wall ret => do
  let o ← proc i t.1 cmd sqid wall ret
  let log := if o.accepted then t.2 ++ [(sqid, ⟨cmd, o.ret⟩)] else t.2
  return ⟨o.accepted, (o.ftl, log), o.cmd, o.ret, o.calls⟩

def Dispatcher.bare (d : Dispatcher (Logged σ)) : Dispatcher σ := ⟨d.io, d.ftl.1, d.sqes⟩

def Device.bare (v : Device (Logged σ)) : Device σ := ⟨v.adm, v.io, v.ftl.1⟩

@[simp] theorem Dispatcher.bare_sqes (d : Dispatcher (Logged σ)) : d.bare.sqes = d.sqes := rfl

@[simp] theorem Device.bare_adm (v : Device (Logged σ)) : v.bare.adm = v.adm := rfl

variable {proc : ProcIoCmd σ} {v : Device (Logged σ)} {wall now : Nat → Nat → Nat}

theorem nvmevProcIo_logged (d : Dispatcher (Logged σ)) (sqid sqEntry wall now : Nat) :
    Both (fun r r' => r = (r'.1.bare, r'.2)) (nvmevProcIo proc d.bare sqid sqEntry wall now)
      (nvmevProcIo (logged proc) d sqid sqEntry wall now) := by
  unfold nvmevProcIo
  rw [Dispatcher.bare_sqes]
  cases d.sqes sqid with
  | none => exact rfl
  | some sq =>
    unfold logged
    dsimp only [Dispatcher.bare]
    rw [bind_assoc]
    refine Both.same fun o _ => ?_
    rw [pure_bind]
    refine Both.same fun io _ => ?_
    dsimp only
    split
    · exact rfl
    · refine Both.same fun io₁ _ => ?_
      exact Both.same fun io₂ _ => rfl

theorem procIoLoop_logged {sqid queueSize n seq sqEntry : Nat} {wall now : Nat → Nat}
    (d : Dispatcher (Logged σ)) :
    Both (fun r r' => r = (r'.1.bare, r'.2)) (procIoLoop proc sqid queueSize wall now n seq sqEntry d.bare)
      (procIoLoop (logged proc) sqid queueSize wall now n seq sqEntry d) := by
  induction n generalizing seq sqEntry d with
  | zero => exact rfl
  | succ n ih =>
    unfold procIoLoop
    refine (nvmevProcIo_logged d sqid sqEntry _ _).bind ?_
    rintro _ ⟨d', size⟩ rfl
    cases size with
    | none => exact rfl
    | some ioSize => exact ih (d'.updateSq sqid (·.dispatched ioSize))

theorem nvmevProcIoSq_logged {sqid newDb oldDb : Nat} {wall now : Nat → Nat} (d : Dispatcher (Logged σ)) :
    Both (fun r r' => r = (r'.1.bare, r'.2)) (nvmevProcIoSq proc d.bare sqid newDb oldDb wall now)
      (nvmevProcIoSq (logged proc) d sqid newDb oldDb wall now) := by
  unfold nvmevProcIoSq
  rw [Dispatcher.bare_sqes]
  cases d.sqes sqid with
  | none => exact rfl
  | some sq =>
    refine (procIoLoop_logged d).bind ?_
    rintro _ ⟨d', seq⟩ rfl
    exact Both.same fun _ _ => rfl

theorem procDbsSq_logged (qid : Nat) : Both (fun v' v => v' = v.bare)
    (procDbsSq proc wall now qid v.bare) (procDbsSq (logged proc) wall now qid v) := by
  unfold procDbsSq
  rw [Device.bare_adm]
  cases v.adm.sqes qid with
  | none => exact rfl
  | some sq =>
    dsimp only
    split
    · exact rfl
    · refine (nvmevProcIoSq_logged v.dispatcher).bind ?_
      rintro _ ⟨d, latestDb⟩ rfl
      exact rfl

theorem procDbsCq_logged (qid : Nat) :
    Both (fun v' v => v' = v.bare) (procDbsCq qid v.bare) (procDbsCq qid v) := by
  unfold procDbsCq
  rw [Device.bare_adm]
  cases v.adm.cqes qid with
  | none => exact rfl
  | some cq =>
    dsimp only
    split
    · exact rfl
    · exact Both.same fun _ _ => rfl

theorem nvmevProcDbs_logged : Both (fun v' v => v' = v.bare) (nvmevProcDbs proc wall now v.bare)
    (nvmevProcDbs (logged proc) wall now v) := by
  unfold nvmevProcDbs
  refine Both.same fun adm _ => ?_
  have hsqs : Both (fun v' v => v' = v.bare) (procDbsSqs proc wall now adm.nrSq { v.bare with adm := adm })
      (procDbsSqs (logged proc) wall now adm.nrSq { v with adm := adm }) :=
    Both.upto (by rintro k _ t rfl; exact procDbsSq_logged (k + 1)) _ rfl
  refine hsqs.bind ?_
  rintro _ t rfl
  exact Both.upto (by rintro k _ t rfl; exact procDbsCq_logged (k + 1)) _ rfl

end NVMeVirt
