import Mavmm.Features

/-!
# Intercepts and requests at a context switch

The last instruction of the guest's context switch, `popf`, switches on what is
requested and nothing off.  What is on right after it is what is requested as
long as nothing else was on before: each feature that is on was requested, or
steps over a skipped instruction (`Covered`).  Three things break this: an
`int 0x80`, which traces its return whatever was requested; a command that
withdraws a request, and leaves the intercepts alone; and a context switch that
completes before the exception after a skipped instruction.
-/

namespace Mavmm

/-- What is on was requested, or steps over a skipped instruction; what is skipped was
requested. -/
structure Covered (requested skipped : BitVec 32) (c : Control) : Prop where
  on : ∀ f, c.on f = true → asked requested f = true ∨
    (asked userSingleStepping f = true ∧ skipped ≠ 0#32)
  skip : ∀ f, asked skipped f = true → asked requested f = true

def Machine.Covered (m : Machine) : Prop :=
  Mavmm.Covered m.vm.itcFlag m.vm.itcSkipFlag m.vmcb.control

/-- What the guest and the user may do without a feature staying on that is not requested. -/
structure Orderly (m : Machine) (e : GuestExit) : Prop where
  /-- The guest does not set the trap flag itself. -/
  trap : has e.vmcb.rflags x86RflagsTf = true → has m.vmcb.rflags x86RflagsTf = true
  /-- System calls are watched with their returns, step by step. -/
  syscall : e.vmcb.exitcode = vmexitSwint → intVector.Returns (m.deliver e) 0x80#8 →
    has m.vm.itcFlag userItcIret = true ∧
      (has m.vm.itcFlag userSingleStepping = true ∨ m.vm.itcSkipFlag ≠ 0#32)
  iret : e.vmcb.exitcode = vmexitIret → has m.vm.itcFlag userItcIret = true
  /-- A context switch completes after the exception for the last skipped instruction. -/
  popf : e.vmcb.exitcode = vmexitPopf →
    has m.vm.itcFlag userSingleStepping = true ∨ m.vm.itcSkipFlag = 0#32
  /-- A request is withdrawn while nothing that it asked for is on or skipped. -/
  disable : e.vmcb.exitcode = vmexitVmmcall → e.regs.rbx = userCmdDisable →
    Mavmm.Covered (m.vm.itcFlag &&& ~~~e.regs.rcx.setWidth 32) m.vm.itcSkipFlag
      (m.deliver e).vmcb.control

/-! ## One exit -/

section
variable {requested skipped flags : BitVec 32} {c : Vmcb} {f : Feature}

theorem asked_of_has_stepping (h : has requested userSingleStepping = true)
    (hf : asked userSingleStepping f = true) : asked requested f = true := by
  cases f with
  | intn => exact absurd hf (by decide)
  | iret => exact absurd hf (by decide)
  | db => exact h
  | tf => exact h
  | pf => exact absurd hf (by decide)

/-- An intercept that was requested is skipped, and the next instruction is stepped over. -/
theorem Covered.skipInstr (h : Covered requested skipped c.control) {flag : BitVec 32}
    (hflag : flag ≠ 0#32) (hasked : ∀ f, asked flag f = true → asked requested f = true) :
    Covered requested (skipped ||| flag)
      ((c.disableIntercept flag).enableIntercept userSingleStepping).control := by
  have hne : skipped ||| flag ≠ 0#32 := by
    intro hzero
    exact hflag (BitVec.or_eq_zero_iff.mp hzero).2
  constructor
  · intro f hf
    rw [on_enableIntercept, on_disableIntercept, Bool.or_eq_true, Bool.and_eq_true] at hf
    rcases hf with ⟨hon, -⟩ | hstep
    · rcases h.on f hon with hreq | ⟨hstep, -⟩
      · exact Or.inl hreq
      · exact Or.inr ⟨hstep, hne⟩
    · exact Or.inr ⟨hstep, hne⟩
  · intro f hf
    rw [asked_or, Bool.or_eq_true] at hf
    exact hf.elim (h.skip f) (hasked f)

/-- The exception after a skipped instruction. -/
theorem Covered.resumeSkipped {vm : VmInfo} (h : Covered vm.itcFlag vm.itcSkipFlag c.control) :
    Covered vm.itcFlag 0#32 (c.resumeSkipped vm).control := by
  have henabled : ∀ f, (c.enableIntercept vm.itcSkipFlag).control.on f = true →
      asked vm.itcFlag f = true ∨ asked userSingleStepping f = true := by
    intro f hf
    rw [on_enableIntercept, Bool.or_eq_true] at hf
    rcases hf with hon | hskip
    · exact (h.on f hon).imp_right And.left
    · exact Or.inl (h.skip f hskip)
  constructor
  · intro f hf
    refine Or.inl ?_
    unfold Vmcb.resumeSkipped at hf
    dsimp only at hf
    split at hf
    · rw [on_disableIntercept, Bool.and_eq_true, Bool.not_eq_true'] at hf
      rcases henabled f hf.1 with hreq | hstep
      · exact hreq
      · rw [hf.2] at hstep
        cases hstep
    · next hstay =>
      rcases henabled f hf with hreq | hstep
      · exact hreq
      · have hstepping : has vm.itcFlag userSingleStepping = true :=
          Decidable.not_not.mp fun hno => hstay (Or.inr hno)
        exact asked_of_has_stepping hstepping hstep
  · intro f hf
    rw [asked_zero] at hf
    cases hf

theorem Covered.mono {c : Control} (h : Covered requested skipped c)
    (hle : ∀ f, asked requested f = true → asked flags f = true) : Covered flags skipped c :=
  ⟨fun f hf => (h.on f hf).imp_left (hle f), fun f hf => hle f (h.skip f hf)⟩

/-- At `int 0x80` the return is traced, step by step. -/
theorem Covered.traceReturn (h : Covered requested skipped c.control)
    (hiret : has requested userItcIret = true)
    (hstep : has requested userSingleStepping = true ∨ skipped ≠ 0#32) :
    Covered requested skipped c.traceReturn.control := by
  refine ⟨fun f hf => ?_, h.skip⟩
  cases f with
  | intn =>
    refine h.on .intn ?_
    simpa only [Vmcb.traceReturn, Vmcb.control, Control.on, intrcptIntn, intrcptIret, has_or,
      has_bit_bit, Nat.reduceLT, Nat.reduceEqDiff, decide_false, Bool.or_false] using hf
  | iret => exact Or.inl hiret
  | db => exact h.on .db hf
  | tf => exact hstep.imp_right fun hne => ⟨by decide, hne⟩
  | pf => exact h.on .pf hf

end

section
variable {m m' : Machine} {e : GuestExit}

/-- The guest does not change the intercepts, and sets no trap flag itself. -/
theorem covered_deliver (h : m.Covered) (horderly : Orderly m e) : (m.deliver e).Covered := by
  refine ⟨fun f hf => ?_, h.skip⟩
  cases f with
  | intn => exact h.on .intn hf
  | iret => exact h.on .iret hf
  | db => exact h.on .db hf
  | tf => exact h.on .tf (horderly.trap hf)
  | pf => exact h.on .pf hf

theorem Covered.congr {requested skipped : BitVec 32} {c c' : Control}
    (h : Mavmm.Covered requested skipped c) (hon : ∀ f, c'.on f = c.on f) :
    Mavmm.Covered requested skipped c' :=
  ⟨fun f hf => h.on f (hon f ▸ hf), h.skip⟩

theorem asked_of_asked_iret {requested : BitVec 32} {f : Feature}
    (h : has requested userItcIret = true) (hf : asked userItcIret f = true) :
    asked requested f = true := by
  cases f with
  | iret => exact h
  | _ => exact absurd hf (by decide)

theorem asked_of_asked_unpack {requested : BitVec 32} {f : Feature}
    (h : has requested userUnpack = true) (hf : asked userUnpack f = true) :
    asked requested f = true := by
  cases f with
  | pf => exact h
  | _ => exact absurd hf (by decide)

/-- Each of the nine ways an exit is handled keeps what is on covered. -/
theorem Handled.covered {vm : VmInfo} {c : Control} (h : Handled (m.deliver e) vm c)
    (hd : (m.deliver e).Covered) (horderly : Orderly m e) :
    Mavmm.Covered vm.itcFlag vm.itcSkipFlag c := by
  cases h with
  | quiet => exact hd
  | syscall hexit hvector hnew =>
    obtain ⟨hiret, hstepping⟩ := horderly.syscall hexit hvector
    exact hd.traceReturn hiret hstepping
  | iret hexit htables =>
    exact hd.skipInstr (by decide) fun f => asked_of_asked_iret (horderly.iret hexit)
  | debug hexit hskip => exact hd.resumeSkipped
  | unpack hexit hfault =>
    exact hd.skipInstr (by decide) fun f => asked_of_asked_unpack hfault.2.2
  | cr3Write hexit =>
    refine (hd.congr (fun _ => on_setPopf)).skipInstr (by decide) fun f hf => ?_
    rw [asked_taskswitch] at hf
    cases hf
  | popf hexit =>
    refine ⟨fun f hf => ?_, hd.skip⟩
    rw [on_enableIntercept, on_clearPopf, asked_without_taskswitch, Bool.or_eq_true] at hf
    exact hf.elim (hd.on f) Or.inl
  | enable hexit hcmd hflags =>
    refine (hd.congr fun f => ?_).mono fun f hf => ?_
    · cases f <;> rfl
    · rw [asked_or, hf, Bool.true_or]
  | disable hexit hcmd hflags hptracked =>
    subst hflags
    refine (horderly.disable hexit hcmd).congr fun f => ?_
    cases f <;> rfl

theorem covered_step (h : m.Covered) (horderly : Orderly m e) (hstep : ExitStep m e m') :
    m'.Covered :=
  (handleVmexit_spec hstep.returns).covered (covered_deliver h horderly) horderly

/-! ## Runs -/

/-- An exit that is orderly, and its handling. -/
def OrderlyStep (m : Machine) (e : GuestExit) (m' : Machine) : Prop :=
  Orderly m e ∧ ExitStep m e m'

theorem covered_booted (h : Booted m) : m.Covered := by
  have hoff : ∀ f, Vmcb.mbrStart.control.on f = false := by
    intro f
    cases f <;> decide
  obtain ⟨blank, t, -, rfl⟩ := id h
  unfold Machine.Covered
  rw [h.vm_eq]
  constructor
  · intro f hf
    rw [hoff f] at hf
    cases hf
  · intro f hf
    rw [asked_zero] at hf
    cases hf

theorem covered_run {m₀ : Machine} {es : List GuestExit} (hboot : Booted m₀)
    (hrun : Run OrderlyStep m₀ es m) : m.Covered :=
  hrun.invariant (covered_booted hboot) fun h hstep => covered_step h hstep.1 hstep.2

/-- The features that are on are those that are requested. -/
def Agrees (requested : BitVec 32) (c : Control) : Prop := ∀ f, c.on f = asked requested f

/-- The end of a context switch, from a machine on which nothing else is on. -/
theorem agrees_after_popf (h : m.Covered) (horderly : Orderly m e) (hstep : ExitStep m e m')
    (hexit : e.vmcb.exitcode = vmexitPopf) : Agrees m'.vm.itcFlag m'.vmcb.control := by
  have hd : (m.deliver e).Covered := covered_deliver h horderly
  obtain ⟨hvm, hvmcb⟩ := handlePopf_spec ((handleVmexit_dispatch hstep.returns).popf hexit)
  intro f
  rw [hvm, hvmcb, on_enableIntercept, on_clearPopf, asked_without_taskswitch]
  change ((m.deliver e).vmcb.control.on f || asked m.vm.itcFlag f) = asked m.vm.itcFlag f
  cases hon : (m.deliver e).vmcb.control.on f with
  | false => rfl
  | true =>
    rcases hd.on f hon with hreq | ⟨hstep, hskip⟩
    · exact hreq.symm
    · rcases horderly.popf hexit with hstepping | hzero
      · exact (asked_of_has_stepping hstepping hstep).symm
      · exact absurd hzero hskip

/-- In an orderly run, what is on right after a context switch is what is requested if the new
process is tracked, and nothing if it is not. -/
theorem popf_agrees {m₀ : Machine} {es : List GuestExit} {pname : Addr} (hboot : Booted m₀)
    (hrun : Run OrderlyStep m₀ es m) (hstep : OrderlyStep m e m')
    (hexit : e.vmcb.exitcode = vmexitPopf)
    (_hname : (getCurProcessName 0).Returns (m.deliver e) pname) :
    Agrees (if vmIsProcessTracked m'.vm pname then m'.vm.itcFlag else 0#32) m'.vmcb.control :=
  agrees_after_popf (covered_run hboot hrun) hstep.1 hstep.2 hexit

end

/-! ## Two runs -/

theorem orderly_enable (m : Machine) : Orderly m (userCommand userCmdEnable 8#64) where
  trap h := absurd h (by decide)
  syscall h := absurd h (by decide)
  iret h := absurd h (by decide)
  popf h := absurd h (by decide)
  disable _ h := absurd h (by decide)

theorem orderly_contextSwitch {m : Machine} (h : m.vm.itcSkipFlag = 0#32) :
    Orderly m contextSwitch where
  trap h := absurd h (by decide)
  syscall h := absurd h (by decide)
  iret h := absurd h (by decide)
  popf _ := Or.inr h
  disable h := absurd h (by decide)

theorem popf_agrees_iret : ∃ m m' pname,
    Run OrderlyStep Machine.boot [userCommand userCmdEnable 8#64] m ∧
      OrderlyStep m contextSwitch m' ∧ (getCurProcessName 0).Returns (m.deliver contextSwitch) pname ∧
      m'.vm.itcFlag = userItcIret ∧ m'.vmcb.control.on .iret = true ∧
      Agrees (if vmIsProcessTracked m'.vm pname then m'.vm.itcFlag else 0#32) m'.vmcb.control := by
  obtain ⟨m, hm, hskip⟩ := completesWith_ok (show completesWith
    (fun m => m.vm.itcSkipFlag = 0#32 ∧ completesWith (fun m' => m'.vm.itcFlag = userItcIret ∧
      m'.vmcb.control.on .iret) (m.exit contextSwitch) ∧ completesWith (fun _ => true)
        ((getCurProcessName 0 (m.deliver contextSwitch)).2))
    (Machine.boot.exit (userCommand userCmdEnable 8#64)) = true by decide +kernel)
  obtain ⟨hskip, hpopf, hname⟩ := of_decide_eq_true hskip
  obtain ⟨m', hm', hon⟩ := completesWith_ok hpopf
  obtain ⟨hflag, hon⟩ := of_decide_eq_true hon
  obtain ⟨pname, hname, -⟩ := completesWith_ok hname
  have hrun : Run OrderlyStep Machine.boot [userCommand userCmdEnable 8#64] m :=
    .snoc .nil ⟨orderly_enable _, hm⟩
  have hstep : OrderlyStep m contextSwitch m' := ⟨orderly_contextSwitch hskip, hm'⟩
  exact ⟨m, m', pname, hrun, hstep, hname, hflag, hon,
    popf_agrees booted_boot hrun hstep rfl hname⟩

/-- IRET stays intercepted after the user has withdrawn the request. -/
theorem popf_disagrees : ∃ m m' pname,
    Run ExitStep Machine.boot
      [userCommand userCmdEnable 8#64, contextSwitch, userCommand userCmdDisable 8#64] m ∧
    ExitStep m contextSwitch m' ∧ (getCurProcessName 0).Returns (m.deliver contextSwitch) pname ∧
    ¬ Agrees (if vmIsProcessTracked m'.vm pname then m'.vm.itcFlag else 0#32) m'.vmcb.control := by
  obtain ⟨m, hm, h⟩ := completesWith_ok (show completesWith
    (fun m => completesWith (fun m' => m'.vm.itcFlag = 0#32 ∧ m'.vmcb.control.on .iret)
      (m.exit contextSwitch) ∧ completesWith (fun _ => true)
        ((getCurProcessName 0 (m.deliver contextSwitch)).2))
    ([userCommand userCmdEnable 8#64, contextSwitch, userCommand userCmdDisable 8#64].foldlM
      Machine.exit Machine.boot) = true by decide +kernel)
  obtain ⟨hpopf, hname⟩ := of_decide_eq_true h
  obtain ⟨m', hm', hon⟩ := completesWith_ok hpopf
  obtain ⟨hflag, hon⟩ := of_decide_eq_true hon
  obtain ⟨pname, hname, -⟩ := completesWith_ok hname
  refine ⟨m, m', pname, run_of_foldlM hm, hm', hname, fun hagrees => ?_⟩
  have hiret := hagrees .iret
  rw [hon, vmIsProcessTracked, if_pos rfl, hflag, asked_zero] at hiret
  cases hiret

end Mavmm
