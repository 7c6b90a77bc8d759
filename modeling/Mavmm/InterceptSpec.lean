import Mavmm.Intercept
import Mavmm.VmSpec

/-!
# What an exit can do

The nine ways a completed exit changes what the monitor keeps and the words
that control the processor (`Handled`).  Everything else that a handler changes
is overwritten before the next exit.
-/

namespace Mavmm

section
variable {m m' : Machine} {u : Unit}

/-! ## System calls -/

/-- The number of the system call. -/
def Machine.callNo (m : Machine) : Nat := (m.vmcb.rax.setWidth 32).toNat

/-- The record that the handler of the call makes itself. -/
inductive OwnInfo (m : Machine) : SyscallInfo → Prop
  | read (h : m.callNo = sysNrRead) : OwnInfo m (.read m.regs.rcx)
  | opened {filename : Addr} (h : m.callNo = sysNrOpen)
      (hp : (regDs GuestRegs.rbx).Returns m filename) (hne : filename ≠ -1#64) :
      OwnInfo m (.opened filename)
  | recvfrom {bufferGl size : BitVec 64} (h : m.callNo = sysNrSocketcall)
      (hcall : m.regs.rbx.setWidth 32 = callRecvfrom)
      (hbuffer : (socketArg 4#64).Returns m bufferGl) (hsize : (socketArg 8#64).Returns m size) :
      OwnInfo m (.recvfrom bufferGl (bufsize size))

/-- The entries that `int 0x80` adds to the waiting threads. -/
inductive NewWaiting (m : Machine) : List Tid2syscallMap → Prop
  | own {tid : BitVec 32} {info : SyscallInfo} (h : OwnInfo m info)
      (htid : (getCurThreadid 3).Returns m tid) : NewWaiting m [⟨tid, info⟩]
  | other {tid : BitVec 32} (h : ∀ info, ¬ OwnInfo m info) (hempty : m.vm.syscallmap = [])
      (htid : (getCurThreadid 3).Returns m tid) : NewWaiting m [⟨tid, .other⟩]
  | none (h : ∀ info, ¬ OwnInfo m info) (hne : m.vm.syscallmap ≠ []) : NewWaiting m []

theorem sysRead_spec (h : sysRead.Returns m u m') :
    ∃ tid, (getCurThreadid 3).Returns m tid ∧ m.addWaiting tid (.read m.regs.rcx) = m' := by
  simp only [sysRead, Exec.returns_bind, Exec.returns_probe, Exec.liftM_eq_probe,
    returns_vmAddWaitingThread] at h
  obtain ⟨-, t, ⟨-, rfl⟩, tid, t, ⟨htid, rfl⟩, arg, t, ⟨harg, rfl⟩, -, h⟩ := h
  rw [← Probe.returns_read.mp harg] at h
  exact ⟨tid, htid, h⟩

theorem sysOpen_spec (h : sysOpen.Returns m u m') :
    ∃ filename, (regDs GuestRegs.rbx).Returns m filename ∧
      ((filename = -1#64 ∧ m = m') ∨ (filename ≠ -1#64 ∧
        ∃ tid, (getCurThreadid 3).Returns m tid ∧ m.addWaiting tid (.opened filename) = m')) := by
  simp only [sysOpen, Exec.returns_bind, Exec.returns_probe, Exec.liftM_eq_probe,
    Exec.returns_when, returns_vmAddWaitingThread] at h
  obtain ⟨filename, t, ⟨hp, rfl⟩, h⟩ := h
  refine ⟨filename, hp, ?_⟩
  split at h
  · next hne =>
    obtain ⟨-, t, ⟨-, rfl⟩, tid, t, ⟨htid, rfl⟩, -, h⟩ := h
    exact Or.inr ⟨hne, tid, htid, h⟩
  · next heq => exact Or.inl ⟨Decidable.not_not.mp heq, h⟩

/-- In user mode the thread is looked for in the same way whatever the mode's number is. -/
theorem getCurThreadid_user {mode : Nat} (h : mode ≠ 0) : getCurThreadid mode = getCurThreadid 3 := by
  unfold getCurThreadid getTaskStruct
  rw [if_neg h, if_neg (by simp)]

theorem sysRecvfrom_spec (h : sysRecvfrom.Returns m u m') :
    ∃ bufferGl size tid, (socketArg 4#64).Returns m bufferGl ∧ (socketArg 8#64).Returns m size ∧
      (getCurThreadid 3).Returns m tid ∧
      m.addWaiting tid (.recvfrom bufferGl (bufsize size)) = m' := by
  simp only [sysRecvfrom, Exec.returns_bind, Exec.returns_probe, Exec.liftM_eq_probe,
    returns_vmAddWaitingThread] at h
  obtain ⟨bufferGl, t, ⟨hbuffer, rfl⟩, -, t, ⟨-, rfl⟩, size, t, ⟨hsize, rfl⟩, -, t, ⟨-, rfl⟩, -, t,
    ⟨-, rfl⟩, tid, t, ⟨htid, rfl⟩, -, h⟩ := h
  rw [getCurThreadid_user (by simp)] at htid
  exact ⟨bufferGl, size, tid, hbuffer, hsize, htid, h⟩

/-- The handler of a call adds its own record, or leaves the machine alone. -/
theorem sysDispatch_spec {sysNargs : Nat} (h : (sysDispatch m.callNo sysNargs).Returns m u m') :
    (∃ tid info, OwnInfo m info ∧ (getCurThreadid 3).Returns m tid ∧ m.addWaiting tid info = m') ∨
      ((∀ info, ¬ OwnInfo m info) ∧ m = m') := by
  unfold sysDispatch at h
  split at h
  · next hread =>
    obtain ⟨tid, htid, h⟩ := sysRead_spec h
    exact Or.inl ⟨tid, _, .read hread, htid, h⟩
  · next hread =>
    split at h
    · next hopen =>
      obtain ⟨filename, hp, ⟨hbad, h⟩ | ⟨hne, tid, htid, h⟩⟩ := sysOpen_spec h
      · refine Or.inr ⟨fun info hinfo => ?_, h⟩
        cases hinfo with
        | read hnr => exact hread hnr
        | opened hnr hp' hne => exact hne ((Probe.Returns.unique hp' hp).trans hbad)
        | recvfrom hnr => exact absurd (hopen.symm.trans hnr) (by decide)
      · exact Or.inl ⟨tid, _, .opened hopen hp hne, htid, h⟩
    · next hopen =>
      split at h
      · next hsocket =>
        simp only [sysSocketcall, Exec.returns_bind, Exec.returns_probe] at h
        obtain ⟨call, t, ⟨hreg, rfl⟩, h⟩ := h
        rw [← Probe.returns_read.mp hreg] at h
        split at h
        · next hcall =>
          obtain ⟨b, s, tid, hb, hs, htid, h⟩ := sysRecvfrom_spec h
          exact Or.inl ⟨tid, _, .recvfrom hsocket hcall hb hs, htid, h⟩
        · next hcall =>
          refine Or.inr ⟨fun info hinfo => ?_, (Exec.returns_probe.mp h).2⟩
          cases hinfo with
          | read hnr => exact hread hnr
          | opened hnr => exact hopen hnr
          | recvfrom hnr hcall' => exact hcall hcall'
      · next hsocket =>
        refine Or.inr ⟨fun info hinfo => ?_, (Exec.returns_probe.mp h).2⟩
        cases hinfo with
        | read hnr => exact hread hnr
        | opened hnr => exact hopen hnr
        | recvfrom hnr => exact hsocket hnr

/-- The control block after `int 0x80`, which traces and intercepts the return. -/
def Vmcb.traceReturn (c : Vmcb) : Vmcb :=
  { c with
    rflags := c.rflags ||| x86RflagsTf
    general1Intercepts := c.general1Intercepts ||| intrcptIret }

theorem handleSyscall_spec (h : handleSyscall.Returns m u m') :
    ∃ new, NewWaiting m new ∧
      m'.vm = { m.vm with syscallmap := m.vm.syscallmap ++ new } ∧
      m'.vmcb = m.vmcb.traceReturn := by
  simp only [handleSyscall, Exec.returns_bind, Exec.returns_probe, Probe.returns_read] at h
  obtain ⟨rax, t, ⟨rfl, rfl⟩, h⟩ := h
  split at h
  · cases h
  · next entry _ =>
    simp only [Exec.returns_bind, Exec.liftM_eq_probe, Exec.returns_probe, Probe.returns_read,
      Exec.returns_when, returns_modifyVmcb, returns_vmAddWaitingThread] at h
    obtain ⟨-, t, ⟨-, rfl⟩, v, t, hdispatch, waiting, t', ⟨rfl, rfl⟩, -, t', hother, -, _, rfl, -,
      rfl⟩ := h
    have hdispatch : (sysDispatch m.callNo entry.sysNargs).Returns m v t := hdispatch
    rcases sysDispatch_spec hdispatch with ⟨tid, info, hinfo, htid, rfl⟩ | ⟨hnone, rfl⟩
    · have hne : (m.addWaiting tid info).vm.syscallmap ≠ [] := by simp [Machine.addWaiting]
      rw [if_neg hne] at hother
      subst hother
      exact ⟨_, .own hinfo htid, rfl, rfl⟩
    · split at hother
      · next hempty =>
        obtain ⟨tid, _, ⟨htid, rfl⟩, -, rfl⟩ := hother
        exact ⟨_, .other hnone hempty htid, rfl, rfl⟩
      · next hne =>
        subst hother
        refine ⟨_, .none hnone hne, ?_, rfl⟩
        rw [List.append_nil]

/-! ## The return of a call -/

/-- The names that the return of a recorded call adds. -/
def Machine.newNames (m : Machine) : SyscallInfo → List Fid2nameMap
  | .opened arg =>
    [{ fid := m.vmcb.rax.setWidth 32
       fname := cstr (fun k => m.mem (arg + BitVec.ofNat 64 k)) (vmMaxFilename - 1) }]
  | _ => []

/-- What `iret` does to the two tables. -/
inductive IretTables (m : Machine) : List Fid2nameMap → List Tid2syscallMap → Prop
  | idle (h : m.vm.syscallmap = []) : IretTables m m.vm.fmap m.vm.syscallmap
  | unmatched {tid : BitVec 32} (hne : m.vm.syscallmap ≠ [])
      (htid : (getCurThreadid 0).Returns m tid) (h : m.vm.waitingSyscall tid = none) :
      IretTables m m.vm.fmap m.vm.syscallmap
  | matched {tid : BitVec 32} {info : SyscallInfo} (hne : m.vm.syscallmap ≠ [])
      (htid : (getCurThreadid 0).Returns m tid) (h : m.vm.waitingSyscall tid = some info) :
      IretTables m (m.vm.fmap ++ m.newNames info)
        (FlatTable.remove Tid2syscallMap.tid tid m.vm.syscallmap)

theorem skipIntercptCurInstr_spec {flag : BitVec 32}
    (h : (skipIntercptCurInstr flag).Returns m u m') :
    m'.vm = { m.vm with itcSkipFlag := m.vm.itcSkipFlag ||| flag } ∧
      m'.vmcb = (m.vmcb.disableIntercept flag).enableIntercept userSingleStepping := by
  simp only [skipIntercptCurInstr, Exec.returns_bind, returns_modifyVm] at h
  obtain ⟨v, t, hdisable, w, t', rfl, henable⟩ := h
  obtain ⟨hvm, hvmcb, -⟩ := vmDisableIntercept_spec hdisable
  obtain ⟨hvm', hvmcb', -⟩ := vmEnableIntercept_spec henable
  rw [hvm', hvmcb', hvm, hvmcb]
  exact ⟨rfl, rfl⟩

theorem syscallIret_spec {info : SyscallInfo} (h : (syscallIret info).Returns m u m') :
    { m with vm := { m.vm with fmap := m.vm.fmap ++ m.newNames info } } = m' := by
  cases info with
  | other =>
    simp only [syscallIret, Exec.returns_bind, Exec.liftM_eq_probe, Exec.returns_probe] at h
    obtain ⟨rax, t, ⟨-, rfl⟩, -, rfl⟩ := h
    rw [show m.newNames .other = [] from rfl, List.append_nil]
  | read arg =>
    rw [show m.newNames (.read arg) = [] from rfl, List.append_nil]
    exact (Exec.returns_probe.mp h).2
  | opened arg =>
    simp only [syscallIret, sysOpenIret, Exec.returns_bind, Exec.returns_probe,
      returns_vmAddFileid2nameMap, Probe.returns_bind, Probe.returns_log, Probe.returns_read] at h
    obtain ⟨t, t', ⟨⟨-, -, rfl⟩, rfl⟩, -, rfl⟩ := h
    rfl
  | recvfrom arg datasize =>
    rw [show m.newNames (.recvfrom arg datasize) = [] from rfl, List.append_nil]
    exact (Exec.returns_probe.mp h).2

theorem handleReturn_spec (h : handleReturn.Returns m u m') :
    ∃ fmap syscallmap, IretTables m fmap syscallmap ∧
      { m with vm := { m.vm with fmap, syscallmap } } = m' := by
  simp only [handleReturn, Exec.returns_bind, Exec.returns_probe, Probe.returns_read,
    Exec.returns_when] at h
  obtain ⟨waiting, t, ⟨rfl, rfl⟩, h⟩ := h
  split at h
  · next hne =>
    simp only [Exec.liftM_eq_probe, Exec.returns_probe, vmGetWaitingSyscall,
      Probe.returns_read] at h
    obtain ⟨tid, _, ⟨htid, rfl⟩, info, _, ⟨rfl, rfl⟩, h⟩ := h
    split at h
    · next hnone =>
      obtain ⟨-, rfl⟩ := Exec.returns_pure.mp h
      exact ⟨_, _, .unmatched hne htid hnone, rfl⟩
    · next info hsome =>
      obtain ⟨v, t', hiret, hremove⟩ := Exec.returns_bind.mp h
      have hiret := syscallIret_spec hiret
      have hremove := returns_modifyVm.mp hremove
      subst hiret hremove
      exact ⟨_, _, .matched hne htid hsome, rfl⟩
  · next hempty =>
    exact ⟨_, _, .idle (Decidable.not_not.mp hempty), h⟩

theorem handleVmIret_spec (h : handleVmIret.Returns m u m') :
    ∃ fmap syscallmap, IretTables m fmap syscallmap ∧
      m'.vm = { m.vm with
        fmap, syscallmap, itcSkipFlag := m.vm.itcSkipFlag ||| userItcIret } ∧
      m'.vmcb = (m.vmcb.disableIntercept userItcIret).enableIntercept userSingleStepping := by
  obtain ⟨v, t, hreturn, hskip⟩ := Exec.returns_bind.mp h
  obtain ⟨fmap, syscallmap, htables, rfl⟩ := handleReturn_spec hreturn
  obtain ⟨hvm, hvmcb⟩ := skipIntercptCurInstr_spec hskip
  exact ⟨fmap, syscallmap, htables, hvm, hvmcb⟩

/-! ## The words that control the processor -/

/-- The intercept words and the flags of the guest. -/
structure Control where
  crIntercepts : BitVec 32
  exceptionIntercepts : BitVec 32
  general1Intercepts : BitVec 32
  general2Intercepts : BitVec 32
  rflags : BitVec 64

def Vmcb.control (c : Vmcb) : Control where
  crIntercepts := c.crIntercepts
  exceptionIntercepts := c.exceptionIntercepts
  general1Intercepts := c.general1Intercepts
  general2Intercepts := c.general2Intercepts
  rflags := c.rflags

/-- The end of a debug exception that finds a skipped intercept. -/
def Vmcb.resumeSkipped (vm : VmInfo) (c : Vmcb) : Vmcb :=
  let c := c.enableIntercept vm.itcSkipFlag
  if ¬ vm.btrackcurrent ∨ ¬ has vm.itcFlag userSingleStepping
  then c.disableIntercept userSingleStepping else c

/-- Whether a page fault is a write to a page that was protected for unpacking. -/
def UnpackFault (m : Machine) : Prop :=
  has m.vmcb.exitinfo1 1#64 ∧ has m.vmcb.exitinfo1 2#64 ∧ has m.vm.itcFlag userUnpack

/-- What a completed exit leaves of what the monitor keeps and of the controlling words. -/
inductive Handled (m : Machine) : VmInfo → Control → Prop
  | quiet {cs : BitVec 64} : Handled m { m.vm with orgSysenterCs := cs } m.vmcb.control
  | syscall {new : List Tid2syscallMap} (hexit : m.vmcb.exitcode = vmexitSwint)
      (hvector : intVector.Returns m 0x80#8) (hnew : NewWaiting m new) :
      Handled m { m.vm with syscallmap := m.vm.syscallmap ++ new } m.vmcb.traceReturn.control
  | iret {fmap : List Fid2nameMap} {syscallmap : List Tid2syscallMap}
      (hexit : m.vmcb.exitcode = vmexitIret) (htables : IretTables m fmap syscallmap) :
      Handled m { m.vm with fmap, syscallmap, itcSkipFlag := m.vm.itcSkipFlag ||| userItcIret }
        ((m.vmcb.disableIntercept userItcIret).enableIntercept userSingleStepping).control
  | debug (hexit : m.vmcb.exitcode = vmexitExceptionDb) (hskip : m.vm.itcSkipFlag ≠ 0#32) :
      Handled m { m.vm with itcSkipFlag := 0#32 } (m.vmcb.resumeSkipped m.vm).control
  | unpack (hexit : m.vmcb.exitcode = vmexitExceptionPf) (hfault : UnpackFault m) :
      Handled m { m.vm with itcSkipFlag := m.vm.itcSkipFlag ||| userUnpack }
        ((m.vmcb.disableIntercept userUnpack).enableIntercept userSingleStepping).control
  | cr3Write (hexit : m.vmcb.exitcode = vmexitCr3Write) :
      Handled m { m.vm with itcSkipFlag := m.vm.itcSkipFlag ||| userItcTaskswitch }
        ((({ m.vmcb with general1Intercepts := m.vmcb.general1Intercepts ||| intrcptPopf } :
          Vmcb).disableIntercept userItcTaskswitch).enableIntercept userSingleStepping).control
  | popf (hexit : m.vmcb.exitcode = vmexitPopf) :
      Handled m { m.vm with btrackcurrent := true }
        (({ m.vmcb with general1Intercepts := m.vmcb.general1Intercepts &&& ~~~intrcptPopf } :
          Vmcb).enableIntercept (m.vm.itcFlag &&& ~~~userItcTaskswitch)).control
  | enable {flags : BitVec 32} (hexit : m.vmcb.exitcode = vmexitVmmcall)
      (hcmd : m.regs.rbx = userCmdEnable) (hflags : m.regs.rcx.setWidth 32 = flags) :
      Handled m { m.vm with itcFlag := m.vm.itcFlag ||| flags }
        { m.vmcb.control with
          crIntercepts :=
            setWhen (has flags userItcTaskswitch) intrcptWriteCr3 m.vmcb.crIntercepts }
  | disable {flags cr : BitVec 32} {ptracked : List (List Byte)}
      (hexit : m.vmcb.exitcode = vmexitVmmcall) (hcmd : m.regs.rbx = userCmdDisable)
      (hflags : m.regs.rcx.setWidth 32 = flags)
      (hptracked : ptracked.length ≤ m.vm.ptracked.length) :
      Handled m { m.vm with itcFlag := m.vm.itcFlag &&& ~~~flags, ptracked }
        { m.vmcb.control with crIntercepts := cr }

/-! ## Exceptions, task switches and commands -/

theorem handleDb_spec (hexit : m.vmcb.exitcode = vmexitExceptionDb)
    (h : handleDb.Returns m u m') : Handled m m'.vm m'.vmcb.control := by
  simp only [handleDb, Exec.returns_bind, Exec.returns_probe, Probe.returns_read,
    Exec.returns_when, returns_modifyVm] at h
  obtain ⟨vm, t, ⟨rfl, rfl⟩, h⟩ := h
  split at h
  · next hskip =>
    obtain ⟨v, t, henable, w, _, rfl, h⟩ := h
    obtain ⟨hvm, hvmcb, -⟩ := vmEnableIntercept_spec henable
    have hdone : m'.vm = { m.vm with itcSkipFlag := 0#32 } ∧
        m'.vmcb = m.vmcb.resumeSkipped m.vm := by
      split at h
      · next hstep =>
        obtain ⟨hvm', hvmcb', -⟩ := vmDisableIntercept_spec h
        rw [hvm', hvmcb', hvm, hvmcb, Vmcb.resumeSkipped, if_pos hstep]
        exact ⟨rfl, rfl⟩
      · next hstep =>
        subst h
        rw [hvm, hvmcb, Vmcb.resumeSkipped, if_neg hstep]
        exact ⟨rfl, rfl⟩
    rw [hdone.1, hdone.2]
    exact .debug hexit hskip
  · subst h
    exact .quiet

theorem injectException_spec (h : injectException.Returns m u m') :
    m'.vm = m.vm ∧ m'.vmcb.control = m.vmcb.control := by
  simp only [injectException, Exec.returns_bind, Exec.liftM_eq_probe, Exec.returns_probe,
    returns_modifyVmcb] at h
  obtain ⟨-, _, rfl, c, _, ⟨-, rfl⟩, -, rfl⟩ := h
  exact ⟨rfl, rfl⟩

/-- A handler that keeps both is a quiet one. -/
theorem Handled.of_eq (hvm : m'.vm = m.vm) (hcontrol : m'.vmcb.control = m.vmcb.control) :
    Handled m m'.vm m'.vmcb.control := by
  rw [hvm, hcontrol]
  exact .quiet

theorem handleVmException_spec (h : handleVmException.Returns m u m') :
    Handled m m'.vm m'.vmcb.control := by
  simp only [handleVmException, Exec.returns_bind, Exec.liftM_eq_probe, Exec.returns_probe,
    Probe.returns_read] at h
  obtain ⟨_, _, ⟨rfl, rfl⟩, h⟩ := h
  simp only [id] at h
  split at h
  · simp only [Exec.returns_bind, Exec.returns_probe] at h
    obtain ⟨-, _, ⟨-, rfl⟩, -, _, ⟨-, rfl⟩, h⟩ := h
    obtain ⟨hvm, hcontrol⟩ := injectException_spec h
    exact .of_eq hvm hcontrol
  · split at h
    · simp only [Exec.returns_bind, Exec.returns_probe, returns_modifyVmcb] at h
      obtain ⟨-, _, ⟨-, rfl⟩, rfl⟩ := h
      exact .quiet
    · split at h
      · next hexit => exact handleDb_spec hexit h
      · split at h
        · next hexit =>
          split at h
          · next hfault =>
            simp only [Exec.returns_bind, Exec.returns_probe] at h
            obtain ⟨-, _, ⟨-, rfl⟩, h⟩ := h
            obtain ⟨hvm, hvmcb⟩ := skipIntercptCurInstr_spec h
            rw [hvm, hvmcb]
            exact .unpack hexit hfault
          · simp only [Exec.returns_bind, Exec.returns_probe, returns_modifyVmcb] at h
            obtain ⟨-, _, ⟨-, rfl⟩, -, _, rfl, h⟩ := h
            obtain ⟨hvm, hcontrol⟩ := injectException_spec h
            exact .of_eq hvm hcontrol
        · obtain ⟨hvm, hcontrol⟩ := injectException_spec h
          exact .of_eq hvm hcontrol

theorem handleVmSwint_spec (h : handleVmSwint.Returns m u m') :
    ∃ vector, intVector.Returns m vector ∧
      ((vector = 0x80#8 ∧ ∃ new, NewWaiting m new ∧
          m'.vm = { m.vm with syscallmap := m.vm.syscallmap ++ new } ∧
          m'.vmcb.control = m.vmcb.traceReturn.control) ∨
        (vector ≠ 0x80#8 ∧ m'.vm = m.vm ∧ m'.vmcb.control = m.vmcb.control)) := by
  simp only [handleVmSwint, Exec.returns_bind, Exec.returns_probe, Exec.returns_when,
    returns_modifyVmcb] at h
  obtain ⟨vector, _, ⟨hvector, rfl⟩, v, t, h, rfl⟩ := h
  refine ⟨vector, hvector, ?_⟩
  split at h
  · next h80 =>
    obtain ⟨new, hnew, hvm, hvmcb⟩ := handleSyscall_spec h
    refine Or.inl ⟨h80, new, hnew, hvm, ?_⟩
    rw [← hvmcb]
    rfl
  · next h80 =>
    subst h
    exact Or.inr ⟨h80, rfl, rfl⟩

theorem handleCr3Write_spec (hexit : m.vmcb.exitcode = vmexitCr3Write)
    (h : handleCr3Write.Returns m u m') : Handled m m'.vm m'.vmcb.control := by
  simp only [handleCr3Write, Exec.returns_bind, returns_modifyVmcb] at h
  obtain ⟨v, _, rfl, h⟩ := h
  obtain ⟨hvm, hvmcb⟩ := skipIntercptCurInstr_spec h
  rw [hvm, hvmcb]
  exact .cr3Write hexit

theorem handlePopf_spec (h : handlePopf.Returns m u m') :
    m'.vm = { m.vm with btrackcurrent := true } ∧
      m'.vmcb = ({ m.vmcb with general1Intercepts := m.vmcb.general1Intercepts &&& ~~~intrcptPopf } :
        Vmcb).enableIntercept (m.vm.itcFlag &&& ~~~userItcTaskswitch) := by
  simp only [handlePopf, vmIsProcessTracked, if_true, Exec.returns_bind, Exec.liftM_eq_probe,
    Exec.returns_probe, Probe.returns_read, returns_modifyVmcb, returns_modifyVm] at h
  obtain ⟨pname, _, ⟨-, rfl⟩, v, _, rfl, vm, _, ⟨rfl, rfl⟩, w, t, henable, rfl⟩ := h
  obtain ⟨hvm, hvmcb, -⟩ := vmEnableIntercept_spec henable
  exact ⟨congrArg (fun vm => { vm with btrackcurrent := true }) hvm, hvmcb⟩

theorem userEnableIntercept_spec {flags : BitVec 32}
    (h : (userEnableIntercept flags).Returns m u m') :
    m'.vm = { m.vm with itcFlag := m.vm.itcFlag ||| flags } ∧
      m'.vmcb.control = { m.vmcb.control with
        crIntercepts := setWhen (has flags userItcTaskswitch) intrcptWriteCr3 m.vmcb.crIntercepts }
      := by
  simp only [userEnableIntercept, Exec.returns_bind, Exec.liftM_eq_probe, Exec.returns_probe,
    Exec.returns_when, returns_modifyVmcb, returns_modifyVm, returns_vmAddTrackedProcess] at h
  obtain ⟨v, t, h, rfl⟩ := h
  split at h
  · next hts =>
    obtain ⟨-, _, ⟨-, rfl⟩, -, _, rfl, pname, _, ⟨-, rfl⟩, rfl⟩ := h
    rw [setWhen, if_pos hts]
    exact ⟨rfl, rfl⟩
  · next hts =>
    subst h
    rw [setWhen, if_neg hts]
    exact ⟨rfl, rfl⟩

theorem userDisableIntercept_spec {flags : BitVec 32}
    (h : (userDisableIntercept flags).Returns m u m') :
    ∃ cr ptracked, ptracked.length ≤ m.vm.ptracked.length ∧
      m'.vm = { m.vm with itcFlag := m.vm.itcFlag &&& ~~~flags, ptracked } ∧
      m'.vmcb.control = { m.vmcb.control with crIntercepts := cr } := by
  simp only [userDisableIntercept, vmRemoveTrackedProcess, Exec.returns_bind,
    Exec.liftM_eq_probe, Exec.returns_probe, Exec.returns_modify, Exec.returns_when,
    returns_modifyVmcb, returns_modifyVm] at h
  obtain ⟨v, t, h, rfl⟩ := h
  split at h
  · obtain ⟨-, _, ⟨-, rfl⟩, pname, _, ⟨-, rfl⟩, -, _, ⟨-, rfl⟩, -, _, ⟨-, _, ⟨-, rfl⟩, rfl⟩,
      tracked, _, ⟨-, rfl⟩, h⟩ := h
    split at h
    · subst h
      exact ⟨_, _, List.length_eraseP_le, rfl, rfl⟩
    · subst h
      exact ⟨_, _, List.length_eraseP_le, rfl, rfl⟩
  · subst h
    exact ⟨_, _, Nat.le_refl _, rfl, rfl⟩

theorem handleVmVmmcall_spec (hexit : m.vmcb.exitcode = vmexitVmmcall)
    (h : handleVmVmmcall.Returns m u m') : Handled m m'.vm m'.vmcb.control := by
  simp only [handleVmVmmcall, Exec.returns_bind, Exec.liftM_eq_probe, Exec.returns_probe,
    Probe.returns_read, returns_modifyVmcb] at h
  obtain ⟨v, _, rfl, _, _, ⟨rfl, rfl⟩, -, _, ⟨-, rfl⟩, -, _, ⟨-, rfl⟩, -, _, ⟨-, rfl⟩, -, _,
    ⟨-, rfl⟩, h⟩ := h
  split at h
  · next hcmd =>
    obtain ⟨hvm, hcontrol⟩ := userEnableIntercept_spec h
    rw [hvm, hcontrol]
    exact .enable hexit hcmd rfl
  · split at h
    · next hcmd =>
      obtain ⟨cr, ptracked, hlen, hvm, hcontrol⟩ := userDisableIntercept_spec h
      rw [hvm, hcontrol]
      exact .disable hexit hcmd rfl hlen
    · obtain ⟨-, rfl⟩ := Exec.returns_pure.mp h
      exact .quiet

theorem handleVmWrmsr_spec (h : handleVmWrmsr.Returns m u m') :
    Handled m m'.vm m'.vmcb.control := by
  simp only [handleVmWrmsr, Exec.returns_bind, Exec.returns_probe, Probe.returns_read] at h
  obtain ⟨_, _, ⟨rfl, rfl⟩, h⟩ := h
  split at h
  · simp only [Exec.returns_bind, returns_modifyVm, returns_modifyVmcb] at h
    obtain ⟨-, _, rfl, rfl⟩ := h
    exact .quiet
  · simp only [Exec.liftM_eq_probe, Exec.returns_probe] at h
    rw [← h.2]
    exact .quiet

/-- A completed exit is one of the nine. -/
theorem handleVmexit_spec (h : handleVmexit.Returns m u m') : Handled m m'.vm m'.vmcb.control := by
  simp only [handleVmexit, Exec.returns_bind, Exec.liftM_eq_probe, Exec.returns_probe,
    Probe.returns_read] at h
  obtain ⟨_, _, ⟨rfl, rfl⟩, -, _, ⟨-, rfl⟩, -, _, ⟨-, rfl⟩, h⟩ := h
  split at h
  · rw [Exec.returns_when] at h
    split at h
    · exact handleVmWrmsr_spec h
    · subst h
      exact .quiet
  · split at h
    · exact handleVmException_spec h
    · split at h
      · next hexit =>
        obtain ⟨vector, hvector, ⟨rfl, new, hnew, hvm, hcontrol⟩ | ⟨-, hvm, hcontrol⟩⟩ :=
          handleVmSwint_spec h
        · rw [hvm, hcontrol]
          exact .syscall hexit hvector hnew
        · exact .of_eq hvm hcontrol
      · split at h
        · simp only [handleVmNpf, Exec.returns_bind, Exec.liftM_eq_probe, Exec.returns_probe] at h
          obtain ⟨errcode, t, -, v, t', -, hfault, -⟩ := h
          cases hfault
        · split at h
          · next hexit => exact handleVmVmmcall_spec hexit h
          · split at h
            · next hexit =>
              obtain ⟨fmap, syscallmap, htables, hvm, hvmcb⟩ := handleVmIret_spec h
              rw [hvm, hvmcb]
              exact .iret hexit htables
            · split at h
              · next hexit => exact handleCr3Write_spec hexit h
              · split at h
                · next hexit =>
                  obtain ⟨hvm, hvmcb⟩ := handlePopf_spec h
                  rw [hvm, hvmcb]
                  exact .popf hexit
                · obtain ⟨-, rfl⟩ := Exec.returns_pure.mp h
                  exact .quiet

/-- The handlers of the exits for instructions; there is none for `vmrun`. -/
structure Dispatched (m : Machine) (u : Unit) (m' : Machine) : Prop where
  swint : m.vmcb.exitcode = vmexitSwint → handleVmSwint.Returns m u m'
  iret : m.vmcb.exitcode = vmexitIret → handleVmIret.Returns m u m'
  popf : m.vmcb.exitcode = vmexitPopf → handlePopf.Returns m u m'
  vmmcall : m.vmcb.exitcode = vmexitVmmcall → handleVmVmmcall.Returns m u m'
  cr3Write : m.vmcb.exitcode = vmexitCr3Write → handleCr3Write.Returns m u m'
  vmrun : m.vmcb.exitcode = vmexitVmrun → m = m'

theorem handleVmexit_dispatch (h : handleVmexit.Returns m u m') : Dispatched m u m' := by
  simp only [handleVmexit, Exec.returns_bind, Exec.liftM_eq_probe, Exec.returns_probe,
    Probe.returns_read] at h
  obtain ⟨_, _, ⟨rfl, rfl⟩, -, _, ⟨-, rfl⟩, -, _, ⟨-, rfl⟩, h⟩ := h
  refine ⟨fun hexit => ?_, fun hexit => ?_, fun hexit => ?_, fun hexit => ?_, fun hexit => ?_,
    fun hexit => ?_⟩
  · rw [hexit, if_neg (by decide), if_neg (by decide), if_pos rfl] at h
    exact h
  · rw [hexit, if_neg (by decide), if_neg (by decide), if_neg (by decide), if_neg (by decide),
      if_neg (by decide), if_pos rfl] at h
    exact h
  · rw [hexit, if_neg (by decide), if_neg (by decide), if_neg (by decide), if_neg (by decide),
      if_neg (by decide), if_neg (by decide), if_neg (by decide), if_pos rfl] at h
    exact h
  · rw [hexit, if_neg (by decide), if_neg (by decide), if_neg (by decide), if_neg (by decide),
      if_pos rfl] at h
    exact h
  · rw [hexit, if_neg (by decide), if_neg (by decide), if_neg (by decide), if_neg (by decide),
      if_neg (by decide), if_neg (by decide), if_pos rfl] at h
    exact h
  · rw [hexit, if_neg (by decide), if_neg (by decide), if_neg (by decide), if_neg (by decide),
      if_neg (by decide), if_neg (by decide), if_neg (by decide), if_neg (by decide)] at h
    exact (Exec.returns_pure.mp h).2

end

end Mavmm
