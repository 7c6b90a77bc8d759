import Mavmm.Features

/-!
# Traps that the monitor sets

Single stepping sets the trap flag and the intercept of the debug exception
together, and clears them together.  Only `int 0x80` sets the flag alone; so the
monitor catches every trap that it causes exactly when each system call comes
while it is stepping already (`traps_caught_iff`).
-/

namespace Mavmm

/-- A trap after the next instruction of the guest goes to the monitor. -/
def Caught (m : Machine) : Prop := m.vmcb.control.on .tf = true → m.vmcb.control.on .db = true

/-- The guest does not set the trap flag itself. -/
def KeepsTrapFlag (m : Machine) (e : GuestExit) : Prop :=
  has e.vmcb.rflags x86RflagsTf = true → has m.vmcb.rflags x86RflagsTf = true

/-- A system call comes while debug exceptions are intercepted. -/
def SyscallStepped (m : Machine) (e : GuestExit) : Prop :=
  e.vmcb.exitcode = vmexitSwint → intVector.Returns (m.deliver e) 0x80#8 →
    m.vmcb.control.on .db = true

/-- An exit of a guest that leaves the trap flag alone, and its handling. -/
def UntrappedStep (m : Machine) (e : GuestExit) (m' : Machine) : Prop :=
  KeepsTrapFlag m e ∧ ExitStep m e m'

section
variable {m m' : Machine} {e : GuestExit} {c : Vmcb} {flags : BitVec 32}

theorem caught_enableIntercept (h : c.control.on .tf = true → c.control.on .db = true)
    (htf : (c.enableIntercept flags).control.on .tf = true) :
    (c.enableIntercept flags).control.on .db = true := by
  rw [on_enableIntercept, Bool.or_eq_true] at htf ⊢
  exact htf.imp_left h

theorem caught_disableIntercept (h : c.control.on .tf = true → c.control.on .db = true)
    (htf : (c.disableIntercept flags).control.on .tf = true) :
    (c.disableIntercept flags).control.on .db = true := by
  rw [on_disableIntercept, Bool.and_eq_true] at htf ⊢
  exact ⟨h htf.1, htf.2⟩

/-- What an exit leaves is caught if what it found was, and a system call was stepped. -/
theorem Handled.caught {vm : VmInfo} {c : Control} (h : Handled m vm c)
    (hm : m.vmcb.control.on .tf = true → m.vmcb.control.on .db = true)
    (hsyscall : m.vmcb.exitcode = vmexitSwint → intVector.Returns m 0x80#8 →
      m.vmcb.control.on .db = true) : c.on .tf = true → c.on .db = true := by
  intro htf
  cases h with
  | quiet => exact hm htf
  | syscall hexit hvector hnew =>
    rw [on_traceReturn, hsyscall hexit hvector, Bool.true_or]
  | iret hexit htables => exact caught_enableIntercept (caught_disableIntercept hm) htf
  | debug hexit hskip =>
    unfold Vmcb.resumeSkipped at htf ⊢
    dsimp only at htf ⊢
    split at htf
    · next hstop =>
      rw [if_pos hstop]
      exact caught_disableIntercept (caught_enableIntercept hm) htf
    · next hstay =>
      rw [if_neg hstay]
      exact caught_enableIntercept hm htf
  | unpack hexit hfault => exact caught_enableIntercept (caught_disableIntercept hm) htf
  | cr3Write hexit =>
    refine caught_enableIntercept (caught_disableIntercept fun h => ?_) htf
    rw [on_setPopf] at h ⊢
    exact hm h
  | popf hexit =>
    refine caught_enableIntercept (fun h => ?_) htf
    rw [on_clearPopf] at h ⊢
    exact hm h
  | enable => exact hm htf
  | disable => exact hm htf

theorem caught_step (h : Caught m) (hstep : UntrappedStep m e m') (hsyscall : SyscallStepped m e) :
    Caught m' := by
  have hm : (m.deliver e).vmcb.control.on .tf = true → (m.deliver e).vmcb.control.on .db = true :=
    fun htf => h (hstep.1 htf)
  exact (handleVmexit_spec hstep.2.returns).caught hm hsyscall

/-- After a system call the trap flag is set, so what it leaves is caught only if it was stepped. -/
theorem syscallStepped_of_caught (hstep : ExitStep m e m') (h : Caught m') : SyscallStepped m e := by
  intro hexit hvector
  obtain ⟨vector, hvector', ⟨-, new, -, -, hcontrol⟩ | ⟨hne, -, -⟩⟩ :=
    handleVmSwint_spec ((handleVmexit_dispatch hstep.returns).swint hexit)
  · unfold Caught at h
    rw [hcontrol, on_traceReturn, on_traceReturn, Bool.or_true, Bool.or_false] at h
    exact h rfl
  · exact absurd (hvector'.unique hvector) hne

theorem caught_booted (h : Booted m) : Caught m := by
  obtain ⟨blank, t, -, rfl⟩ := h
  have hoff : Vmcb.mbrStart.control.on .tf = false := by decide
  intro htf
  exact absurd (hoff.symm.trans htf) Bool.false_ne_true

end

/-- In a run of a guest that does not set the trap flag itself, every state returned to the guest
has its trap flag caught exactly when every system call comes while debug exceptions are
intercepted. -/
theorem traps_caught_iff {m₀ m : Machine} {es : List GuestExit} (hboot : Booted m₀) :
    Run (fun m e m' => UntrappedStep m e m' ∧ Caught m') m₀ es m ↔
      Run (fun m e m' => UntrappedStep m e m' ∧ SyscallStepped m e) m₀ es m := by
  constructor
  · intro h
    induction h with
    | nil => exact .nil
    | snoc _ hstep ih =>
      exact ih.snoc ⟨hstep.1, syscallStepped_of_caught hstep.1.2 hstep.2⟩
  · intro h
    have hboth : Run (fun m e m' => UntrappedStep m e m' ∧ Caught m') m₀ es m ∧ Caught m := by
      induction h with
      | nil => exact ⟨.nil, caught_booted hboot⟩
      | snoc _ hstep ih =>
        have hcaught := caught_step ih.2 hstep.1 hstep.2
        exact ⟨ih.1.snoc ⟨hstep.1, hcaught⟩, hcaught⟩
    exact hboth.1

/-- The user asks for single stepping, and a process runs and reads. -/
theorem traps_caught_iff_stepped :
    let enable := userCommand userCmdEnable 16#64
    let call := threadExit vmexitSwint 0x40#16 3#64 0#64
    let m := (Machine.boot.next enable).next contextSwitch
    Run (fun m e m' => UntrappedStep m e m' ∧ Caught m') Machine.boot [enable, contextSwitch, call]
      (m.next call) := by
  intro enable call m
  have henable : ExitStep Machine.boot enable (Machine.boot.next enable) :=
    exitStep_next (by decide +kernel)
  have hswitch : ExitStep (Machine.boot.next enable) contextSwitch m :=
    exitStep_next (by decide +kernel)
  have hcall : ExitStep m call (m.next call) := exitStep_next (by decide +kernel)
  have hdb : m.vmcb.control.on .db = true := by decide +kernel
  have hclear : ¬ has Vmcb.mbrStart.rflags x86RflagsTf = true := by decide
  have hrun : Run (fun m e m' => UntrappedStep m e m' ∧ SyscallStepped m e) Machine.boot
      [enable, contextSwitch, call] (m.next call) :=
    .snoc (.snoc (.snoc .nil ⟨⟨fun h => absurd h hclear, henable⟩, fun h => absurd h (by decide)⟩)
      ⟨⟨fun h => absurd h hclear, hswitch⟩, fun h => absurd h (by decide)⟩)
      ⟨⟨fun h => absurd h hclear, hcall⟩, fun _ _ => hdb⟩
  exact (traps_caught_iff booted_boot).mpr hrun

/-- The first system call of the guest sets a trap that the guest gets itself. -/
theorem traps_not_caught :
    let call := threadExit vmexitSwint 0x40#16 3#64 0#64
    Run UntrappedStep Machine.boot [call] (Machine.boot.next call) ∧
      ¬ Caught (Machine.boot.next call) := by
  intro call
  have hclear : ¬ has Vmcb.mbrStart.rflags x86RflagsTf = true := by decide
  have hcall : ExitStep Machine.boot call (Machine.boot.next call) :=
    exitStep_next (by decide +kernel)
  have htf : (Machine.boot.next call).vmcb.control.on .tf = true := by decide +kernel
  have hdb : (Machine.boot.next call).vmcb.control.on .db = false := by decide +kernel
  refine ⟨.snoc .nil ⟨fun h => absurd h hclear, hcall⟩, fun hcaught => ?_⟩
  rw [hcaught htf] at hdb
  cases hdb

end Mavmm
