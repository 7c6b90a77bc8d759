import Mavmm.Features

/-!
# Progress at intercepted instructions

The handler of an intercepted instruction moves the guest past it, or switches
the intercept off so that the guest executes it next time.  `vmrun` is always
intercepted and has no handler, so a guest that executes it exits forever
(`exit_progress_iff`).
-/

namespace Mavmm

/-- The instructions that can be intercepted. -/
inductive Intercept where
  | vmrun
  | vmmcall
  | intn
  | iret
  | popf
  | cr3Write
deriving DecidableEq

namespace Intercept

def exitcode : Intercept → BitVec 64
  | .vmrun => vmexitVmrun
  | .vmmcall => vmexitVmmcall
  | .intn => vmexitSwint
  | .iret => vmexitIret
  | .popf => vmexitPopf
  | .cr3Write => vmexitCr3Write

/-- The length of the instruction.  Prefixes are ignored: with a prefix in front, as `iretq` has
one, the instruction is longer by a byte. -/
def length : Intercept → BitVec 64
  | .vmrun => 3#64
  | .vmmcall => 3#64
  | .intn => 2#64
  | .iret => 1#64
  | .popf => 1#64
  | .cr3Write => 3#64

def on (c : Vmcb) : Intercept → Bool
  | .vmrun => has c.general2Intercepts intrcptVmrun
  | .vmmcall => has c.general2Intercepts intrcptVmmcall
  | .intn => has c.general1Intercepts intrcptIntn
  | .iret => has c.general1Intercepts intrcptIret
  | .popf => has c.general1Intercepts intrcptPopf
  | .cr3Write => has c.crIntercepts intrcptWriteCr3

end Intercept

section
variable {m m' : Machine} {u : Unit} {flags : BitVec 32} {c : Vmcb}

/-! ## The handlers -/

theorem handleVmSwint_rip (h : handleVmSwint.Returns m u m') :
    m'.vmcb.rip = m.vmcb.rip + 2#64 := by
  simp only [handleVmSwint, Exec.returns_bind, Exec.returns_probe, Exec.returns_when,
    returns_modifyVmcb] at h
  obtain ⟨vector, _, ⟨-, rfl⟩, v, t, h, rfl⟩ := h
  split at h
  · obtain ⟨new, -, -, hvmcb⟩ := handleSyscall_spec h
    change t.vmcb.rip + 2#64 = _
    rw [hvmcb]
    rfl
  · rw [h]

theorem userEnableIntercept_rip (h : (userEnableIntercept flags).Returns m u m') :
    m'.vmcb.rip = m.vmcb.rip := by
  simp only [userEnableIntercept, Exec.returns_bind, Exec.liftM_eq_probe, Exec.returns_probe,
    Exec.returns_when, returns_modifyVmcb, returns_modifyVm, returns_vmAddTrackedProcess] at h
  obtain ⟨v, t, h, rfl⟩ := h
  split at h
  · obtain ⟨-, _, ⟨-, rfl⟩, -, _, rfl, pname, _, ⟨-, rfl⟩, rfl⟩ := h
    rfl
  · subst h
    rfl

theorem userDisableIntercept_rip (h : (userDisableIntercept flags).Returns m u m') :
    m'.vmcb.rip = m.vmcb.rip := by
  simp only [userDisableIntercept, vmRemoveTrackedProcess, Exec.returns_bind,
    Exec.liftM_eq_probe, Exec.returns_probe, Exec.returns_modify, Exec.returns_when,
    returns_modifyVmcb, returns_modifyVm] at h
  obtain ⟨v, t, h, rfl⟩ := h
  split at h
  · obtain ⟨-, _, ⟨-, rfl⟩, pname, _, ⟨-, rfl⟩, -, _, ⟨-, rfl⟩, -, _, ⟨-, _, ⟨-, rfl⟩, rfl⟩,
      tracked, _, ⟨-, rfl⟩, h⟩ := h
    split at h
    · subst h
      rfl
    · subst h
      rfl
  · subst h
    rfl

theorem handleVmVmmcall_rip (h : handleVmVmmcall.Returns m u m') :
    m'.vmcb.rip = m.vmcb.rip + 3#64 := by
  simp only [handleVmVmmcall, Exec.returns_bind, Exec.liftM_eq_probe, Exec.returns_probe,
    Probe.returns_read, returns_modifyVmcb] at h
  obtain ⟨v, _, rfl, _, _, ⟨rfl, rfl⟩, -, _, ⟨-, rfl⟩, -, _, ⟨-, rfl⟩, -, _, ⟨-, rfl⟩, -, _,
    ⟨-, rfl⟩, h⟩ := h
  split at h
  · exact userEnableIntercept_rip h
  · split at h
    · exact userDisableIntercept_rip h
    · rw [← (Exec.returns_pure.mp h).2]

theorem on_iret_skipped :
    Intercept.on ((c.disableIntercept userItcIret).enableIntercept userSingleStepping) .iret =
      false := by
  change ((c.disableIntercept userItcIret).enableIntercept userSingleStepping).control.on .iret = _
  rw [on_enableIntercept, on_disableIntercept, show asked userItcIret .iret = true by decide,
    show asked userSingleStepping .iret = false by decide]
  simp

theorem on_popf_enableIntercept :
    Intercept.on (c.enableIntercept flags) .popf = Intercept.on c .popf := by
  simp only [Intercept.on, Vmcb.enableIntercept, intrcptIntn, intrcptIret, intrcptPopf,
    has_setWhen, Nat.reduceLT, Nat.reduceEqDiff, decide_false, Bool.and_false, Bool.or_false]

theorem on_cr3Write_skipped :
    Intercept.on ((c.disableIntercept userItcTaskswitch).enableIntercept userSingleStepping)
      .cr3Write = false := by
  have hts : has userItcTaskswitch userItcTaskswitch = true := by decide
  have hstep : has userSingleStepping userItcTaskswitch = false := by decide
  simp only [Intercept.on, Vmcb.enableIntercept, Vmcb.disableIntercept, hts, hstep]
  simp only [intrcptWriteCr3, has_setWhen, has_clearWhen, Nat.reduceLT, decide_true, Bool.and_true,
    Bool.not_true, Bool.and_false, Bool.or_false]

end

/-! ## The exit -/

/-- The second word of general intercepts stays as it was set up. -/
theorem Handled.general2Intercepts_eq {m : Machine} {vm : VmInfo} {c : Control}
    (h : Handled m vm c) : c.general2Intercepts = m.vmcb.general2Intercepts := by
  cases h with
  | debug =>
    unfold Vmcb.resumeSkipped
    dsimp only
    split
    · rfl
    · rfl
  | _ => rfl

theorem vmrun_intercepted {m₀ m : Machine} {es : List GuestExit} (hboot : Booted m₀)
    (hrun : Run ExitStep m₀ es m) : Intercept.vmrun.on m.vmcb = true := by
  have hwords : m.vmcb.general2Intercepts = intrcptVmrun ||| intrcptVmmcall := by
    refine @Run.invariant _ _ _ _ _ _
      (fun m => m.vmcb.general2Intercepts = intrcptVmrun ||| intrcptVmmcall) hrun ?_
      fun h hstep => ((handleVmexit_spec (ExitStep.returns hstep)).general2Intercepts_eq).trans h
    obtain ⟨blank, t, -, rfl⟩ := hboot
    rfl
  change has m.vmcb.general2Intercepts intrcptVmrun = true
  rw [hwords]
  decide

/-- An exit for an intercepted instruction moves the guest past the instruction, or switches the
intercept off, exactly when the instruction is not `vmrun`. -/
theorem exit_progress_iff {m m' : Machine} {e : GuestExit} {i : Intercept}
    (hon : i.on m.vmcb = true) (hexit : e.vmcb.exitcode = i.exitcode) (hstep : ExitStep m e m') :
    (m'.vmcb.rip = e.vmcb.rip + i.length ∨ i.on m'.vmcb = false) ↔ i ≠ .vmrun := by
  have hdispatch := handleVmexit_dispatch hstep.returns
  cases i with
  | vmrun =>
    have heq : m.deliver e = m' := hdispatch.vmrun hexit
    refine ⟨fun h => ?_, fun h => absurd rfl h⟩
    subst heq
    rcases h with hrip | hoff
    · have hne : ∀ x : BitVec 64, x ≠ x + 3#64 := by
        intro x
        bv_omega
      exact absurd hrip (hne _)
    · exact absurd (hon.symm.trans hoff) (by simp)
  | vmmcall =>
    exact iff_of_true (Or.inl (handleVmVmmcall_rip (hdispatch.vmmcall hexit))) (by simp)
  | intn => exact iff_of_true (Or.inl (handleVmSwint_rip (hdispatch.swint hexit))) (by simp)
  | iret =>
    obtain ⟨fmap, syscallmap, -, -, hvmcb⟩ := handleVmIret_spec (hdispatch.iret hexit)
    refine iff_of_true (Or.inr ?_) (by simp)
    rw [hvmcb]
    exact on_iret_skipped
  | popf =>
    obtain ⟨-, hvmcb⟩ := handlePopf_spec (hdispatch.popf hexit)
    refine iff_of_true (Or.inr ?_) (by simp)
    rw [hvmcb, on_popf_enableIntercept]
    simp only [Intercept.on, intrcptPopf, has_and_not, has_bit_bit, Nat.reduceLT, decide_true,
      Bool.not_true, Bool.and_false]
  | cr3Write =>
    have h := hdispatch.cr3Write hexit
    simp only [handleCr3Write, Exec.returns_bind, returns_modifyVmcb] at h
    obtain ⟨v, _, rfl, h⟩ := h
    obtain ⟨-, hvmcb⟩ := skipIntercptCurInstr_spec h
    refine iff_of_true (Or.inr ?_) (by simp)
    rw [hvmcb]
    exact on_cr3Write_skipped

theorem exit_progress_iff_vmmcall :
    let e := userCommand userCmdEnable 0#64
    (Machine.boot.next e).vmcb.rip = e.vmcb.rip + Intercept.vmmcall.length ∨
      Intercept.vmmcall.on (Machine.boot.next e).vmcb = false := by
  intro e
  have hon : Intercept.vmmcall.on Machine.boot.vmcb = true := by decide
  exact (exit_progress_iff hon rfl (exitStep_next (by decide +kernel))).mpr (by decide)

/-- The guest executes `vmrun`: the handler changes nothing, and the guest exits again. -/
theorem exit_no_progress :
    let e := threadExit vmexitVmrun 0x40#16 0#64 0#64
    Intercept.vmrun.on Machine.boot.vmcb = true ∧ ExitStep Machine.boot e (Machine.boot.next e) ∧
      (Machine.boot.next e).vmcb.rip = e.vmcb.rip ∧
      Intercept.vmrun.on (Machine.boot.next e).vmcb = true := by
  intro e
  exact ⟨by decide, exitStep_next (by decide +kernel), by decide +kernel, by decide +kernel⟩

end Mavmm
