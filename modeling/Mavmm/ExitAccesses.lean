import Mavmm.Accesses
import Mavmm.InterceptSpec

/-!
# The accesses of an exit

Which pointers an exit follows, and how far: the vector of `int`, the lookup of
the current thread at `int 0x80` and at `iret`, the name of the process at
`popf`, the arguments of the system calls, the buffers of those that return,
the name a user stops tracking, and the words of the page directory when pages
are protected for unpacking.  An exit makes only permitted accesses exactly when
these are permitted (`emits_handleVmexit_iff`).
-/

namespace Mavmm

namespace AccessRule

/-! ## What is needed -/

section
variable (A : AccessRule) (m : Machine)

/-- The words of the page directory. -/
def Directory : Prop := ∀ index < 1024, A.dirWord (directoryWord m.vmcb.cr3 index)

/-- What `recvfrom` needs: its buffer, the peer and the size are words of the block, and the
peer's address is read. -/
def RecvfromNeeds : Prop :=
  A.At m m.vmcb.dsSel (m.regs.rcx + 4#64) fun buffer => A.deref buffer (.bytes 0 8) ∧
    A.At m m.vmcb.dsSel (m.regs.rcx + 16#64) fun peer => A.deref peer (.bytes 0 8) ∧
      A.At m m.vmcb.dsSel (m.regs.rcx + 8#64) fun size => A.deref size (.bytes 0 8) ∧
        A.At m m.vmcb.dsSel (m.mem.load64 peer) fun p => A.PeerPort p ∧ A.UserThread m

/-- What the handler of the call needs. -/
def DispatchNeeds : Prop :=
  if m.callNo = sysNrRead then A.UserThread m
  else if m.callNo = sysNrOpen then
    A.At m m.vmcb.dsSel m.regs.rbx fun p => p ≠ -1#64 → A.deref p (.string 0) ∧ A.UserThread m
  else if m.callNo = sysNrSocketcall then
    if m.regs.rbx.setWidth 32 = callRecvfrom then A.RecvfromNeeds m
    else A.SocketNeeds m (m.regs.rbx.setWidth 32)
  else A.LookNeeds m m.callNo

/-- What `int 0x80` needs.  The thread is looked for once more where nothing was recorded and no
thread waits. -/
def SyscallNeeds : Prop :=
  ∀ entry, syscalls[m.callNo]? = some entry →
    A.DispatchNeeds m ∧ (m.vm.syscallmap = [] →
      (sysDispatch m.callNo entry.sysNargs).Returns m () m → A.UserThread m)

/-- What the return of a recorded call needs. -/
def ReturnNeeds : SyscallInfo → Prop
  | .other => True
  | .read arg => A.ReadReturn m arg
  | .opened arg => A.deref arg (.bytes 0 vmMaxFilename)
  | .recvfrom arg datasize => A.RecvfromReturn m arg datasize

/-- What the end of tracking a process needs: its name is printed and compared. -/
def UntrackNeeds (p : Addr) : Prop :=
  A.deref p (.string 0) ∧
    ∀ name ∈ comparedNames m.mem p m.vm.ptracked, A.deref p (.bytes 0 (strcmpReads m.mem name p))

/-- What an exit needs to make only permitted accesses. -/
structure ExitNeeds : Prop where
  swint : m.vmcb.exitcode = vmexitSwint →
    A.At m m.vmcb.csSel m.vmcb.rip fun p =>
      A.deref p (.bytes 1 1) ∧ (m.mem (p + 1#64) = 0x80#8 → A.SyscallNeeds m)
  iret : m.vmcb.exitcode = vmexitIret → m.vm.syscallmap ≠ [] →
    A.KernelThread m fun tid => ∀ info, m.vm.waitingSyscall tid = some info → A.ReturnNeeds m info
  popf : m.vmcb.exitcode = vmexitPopf →
    A.KernelTask m fun task => (task ≠ -1#64 → A.deref task (.string 0x18c)) ∧
      (has m.vm.itcFlag userUnpack → A.Directory m)
  enable : m.vmcb.exitcode = vmexitVmmcall → m.regs.rbx = userCmdEnable →
    has (m.regs.rcx.setWidth 32) userItcTaskswitch → A.Descriptor m m.vmcb.dsSel
  disable : m.vmcb.exitcode = vmexitVmmcall → m.regs.rbx = userCmdDisable →
    has (m.regs.rcx.setWidth 32) userItcTaskswitch →
      A.At m m.vmcb.dsSel m.regs.rdx (A.UntrackNeeds m)
  debug : m.vmcb.exitcode = vmexitExceptionDb → has m.vm.itcSkipFlag userUnpack → A.Directory m
  unpack : m.vmcb.exitcode = vmexitExceptionPf → UnpackFault m → A.Directory m

end

section
variable {A : AccessRule} {m t : Machine} {α : Type}

theorem emits_ensures {x : Handler α} :
    x.Emits A.Holds m ↔ x.Ensures A.Holds m fun _ _ => True := Exec.ensures_true.symm

theorem ensures_look {x : Look α} {Q : α → Machine → Prop} :
    (Exec.probe x).Ensures A.Holds t Q ↔ A.Permits x t fun a => Q a t := Exec.ensures_probe

/-! ## Steps that follow no pointer -/

theorem emits_outf {fmt : String} {args : List OutArg}
    (h : args.filterMap OutArg.deref = []) : (outf fmt args).Emits A.Holds t :=
  Probe.ensures_true.mp ((permits_plain h).mpr trivial)

theorem emits_text {text : String} : (outf text []).Emits A.Holds t := emits_outf rfl

theorem emits_textWhen {c : Prop} [Decidable c] {text : String} :
    (outfWhen c text []).Emits A.Holds t :=
  Probe.ensures_true.mp ((permits_plainWhen rfl).mpr trivial)

theorem emits_storeSlot {page : TablePage} {off len : Nat} :
    (storeSlot page off len).Emits A.Holds t := by
  refine Probe.emits_bind.mpr ⟨by simp [Holds], fun _ _ => ?_⟩
  split
  · exact Probe.emits_ofExcept
  · exact Probe.emits_pure

theorem emits_vmAddWaitingThread {tid : BitVec 32} {info : SyscallInfo} :
    (vmAddWaitingThread tid info).Emits A.Holds t := by
  simp [vmAddWaitingThread, modifyVm, emits_storeSlot]

theorem emits_vmAddFileid2nameMap {id : BitVec 32} {name : Nat → Byte} :
    (vmAddFileid2nameMap id name).Emits A.Holds t := by
  simp [vmAddFileid2nameMap, modifyVm, emits_storeSlot]

theorem emits_printVmcbState : printVmcbState.Emits A.Holds t := by
  simp [printVmcbState, emits_text, emits_outf, OutArg.deref]

theorem emits_printPageErrorcode {errcode : BitVec 64} :
    (printPageErrorcode errcode).Emits A.Holds t := by
  simp [printPageErrorcode, emits_text, emits_textWhen]

theorem emits_injectException : injectException.Emits A.Holds t := by
  simp [injectException, modifyVmcb, emits_outf, OutArg.deref, intArg]

theorem emits_handleVmWrmsr : handleVmWrmsr.Emits A.Holds t := by
  refine Exec.emits_bind.mpr ⟨by simp, fun s t' _ => ?_⟩
  split
  · simp [modifyVm, modifyVmcb]
  · simp [emits_text]

theorem emits_handleVmNpf : handleVmNpf.Emits A.Holds t := by
  simp [handleVmNpf, emits_printPageErrorcode, fault]

/-! ## The page directory -/

theorem ensures_updateGuestDirectory {f : BitVec 32 → BitVec 32} :
    (updateGuestDirectory f).Emits A.Holds t ↔ A.Directory t := by
  simp [updateGuestDirectory, Directory, Holds]

theorem emits_vmDisableIntercept_iff {flags : BitVec 32} :
    (vmDisableIntercept flags).Emits A.Holds t ↔ (has flags userUnpack → A.Directory t) := by
  simp [vmDisableIntercept, vmUnprotectAllNonpaeGuestpage, modifyVmcb, emits_text,
    ensures_updateGuestDirectory]

theorem emits_vmEnableIntercept_iff {flags : BitVec 32} :
    (vmEnableIntercept flags).Emits A.Holds t ↔ (has flags userUnpack → A.Directory t) := by
  simp [vmEnableIntercept, vmProtectAllNonpaeGuestpage, modifyVmcb, emits_text,
    ensures_updateGuestDirectory]

theorem emits_skipIntercptCurInstr_iff {flag : BitVec 32} :
    (skipIntercptCurInstr flag).Emits A.Holds t ↔ (has flag userUnpack → A.Directory t) := by
  have hstep : ∀ s, (vmEnableIntercept userSingleStepping).Emits A.Holds s := fun s =>
    emits_vmEnableIntercept_iff.mpr fun h => absurd h (by decide)
  simp [skipIntercptCurInstr, modifyVm, emits_vmDisableIntercept_iff, hstep]

theorem emits_handleDb_iff :
    handleDb.Emits A.Holds t ↔ (has t.vm.itcSkipFlag userUnpack → A.Directory t) := by
  have hstop : ∀ s, (vmDisableIntercept userSingleStepping).Emits A.Holds s := fun s =>
    emits_vmDisableIntercept_iff.mpr fun h => absurd h (by decide)
  have hskip : ¬ t.vm.itcSkipFlag = 0#32 ∨ (has t.vm.itcSkipFlag userUnpack → A.Directory t) := by
    by_cases h : t.vm.itcSkipFlag = 0#32
    · refine Or.inr fun hunpack => absurd hunpack ?_
      rw [h]
      decide
    · exact Or.inl h
  simp [handleDb, modifyVm, emits_vmEnableIntercept_iff, hstop, hskip]

/-- A write to a page protected for unpacking is let through once. -/
theorem emits_handleVmException_iff :
    handleVmException.Emits A.Holds m ↔
      (m.vmcb.exitcode = vmexitExceptionDb → has m.vm.itcSkipFlag userUnpack → A.Directory m) ∧
      (m.vmcb.exitcode = vmexitExceptionPf → UnpackFault m → A.Directory m) := by
  have hfree : ∀ {x : Handler Unit}, x.Emits A.Holds m → m.vmcb.exitcode ≠ vmexitExceptionDb →
      m.vmcb.exitcode ≠ vmexitExceptionPf → (x.Emits A.Holds m ↔
        (m.vmcb.exitcode = vmexitExceptionDb → has m.vm.itcSkipFlag userUnpack → A.Directory m) ∧
        (m.vmcb.exitcode = vmexitExceptionPf → UnpackFault m → A.Directory m)) :=
    fun hx hdb hpf => iff_of_true hx ⟨fun h => absurd h hdb, fun h => absurd h hpf⟩
  rw [emits_ensures]
  unfold handleVmException
  rw [Exec.ensures_bind, Exec.liftM_eq_probe, ensures_look, permits_read, ← emits_ensures]
  dsimp only [id]
  by_cases hts : m.vmcb.exitcode = vmexitExceptionTs
  · rw [if_pos hts]
    refine hfree ?_ (by rw [hts]; decide) (by rw [hts]; decide)
    simp [emits_printVmcbState, emits_text, emits_injectException]
  rw [if_neg hts]
  by_cases hgp : m.vmcb.exitcode = vmexitExceptionGp
  · rw [if_pos hgp]
    refine hfree ?_ (by rw [hgp]; decide) (by rw [hgp]; decide)
    simp [emits_printVmcbState, modifyVmcb]
  rw [if_neg hgp]
  by_cases hdb : m.vmcb.exitcode = vmexitExceptionDb
  · have hpf : m.vmcb.exitcode ≠ vmexitExceptionPf := by rw [hdb]; decide
    rw [if_pos hdb, emits_handleDb_iff]
    exact ⟨fun h => ⟨fun _ => h, fun h' => absurd h' hpf⟩, fun h => h.1 hdb⟩
  rw [if_neg hdb]
  by_cases hpf : m.vmcb.exitcode = vmexitExceptionPf
  · rw [if_pos hpf]
    have hunpack : has userUnpack userUnpack := by decide
    refine Iff.trans ?_ (and_iff_right_of_imp fun _ h => absurd h hdb).symm
    refine Iff.trans ?_ (forall_prop_of_true hpf).symm
    unfold UnpackFault
    split
    · next hfault =>
      simp [emits_outf, OutArg.deref, emits_skipIntercptCurInstr_iff, hunpack, hfault]
    · next hfault =>
      refine iff_of_true ?_ fun h => absurd h hfault
      simp [emits_printPageErrorcode, modifyVmcb, emits_injectException]
  · rw [if_neg hpf]
    exact hfree emits_injectException hdb hpf

/-! ## System calls -/

theorem ensures_vmAddWaitingThread {tid : BitVec 32} {info : SyscallInfo} :
    (vmAddWaitingThread tid info).Ensures A.Holds t (fun _ _ => True) ↔ True :=
  iff_true_intro (emits_ensures.mp emits_vmAddWaitingThread)

theorem emits_sysRead_iff : sysRead.Emits A.Holds m ↔ A.UserThread m := by
  rw [emits_ensures]
  unfold sysRead
  simp only [Exec.liftM_eq_probe, Exec.ensures_bind, Exec.ensures_probe, permits_bind,
    permits_outFname, permits_reg, ensures_vmAddWaitingThread]
  rw [permits_outReg fun _ => rfl, permits_outReg fun _ => rfl]
  exact permits_getCurThreadid_user (by simp)

theorem emits_sysOpen_iff :
    sysOpen.Emits A.Holds m ↔ A.At m m.vmcb.dsSel m.regs.rbx fun p =>
      p ≠ -1#64 → A.deref p (.string 0) ∧ A.UserThread m := by
  rw [emits_ensures]
  unfold sysOpen
  simp only [Exec.liftM_eq_probe, Exec.ensures_bind, Exec.ensures_probe, Exec.ensures_when,
    permits_bind, permits_reg, permits_regDs, permits_outf, ensures_vmAddWaitingThread,
    implies_true, and_true]
  refine at_congr fun p => imp_congr_right fun _ => and_congr ?_ ?_
  · simp [maskArg]
  · exact permits_getCurThreadid_user (by simp)

theorem emits_sysRecvfrom_iff : sysRecvfrom.Emits A.Holds m ↔ A.RecvfromNeeds m := by
  rw [emits_ensures]
  unfold sysRecvfrom RecvfromNeeds
  simp only [Exec.liftM_eq_probe, Exec.ensures_bind, Exec.ensures_probe, permits_socketArg,
    permits_translateDs, permits_outPeerPort, ensures_vmAddWaitingThread]
  have huser : A.Permits (getCurThreadid 102) m (fun _ => True) ↔ A.UserThread m :=
    permits_getCurThreadid_user (by simp)
  simp only [huser]

theorem emits_sysDispatch_iff {sysNargs : Nat} :
    (sysDispatch m.callNo sysNargs).Emits A.Holds m ↔ A.DispatchNeeds m := by
  unfold sysDispatch DispatchNeeds
  by_cases hread : m.callNo = sysNrRead
  · rw [if_pos hread, if_pos hread]
    exact emits_sysRead_iff
  rw [if_neg hread, if_neg hread]
  by_cases hopen : m.callNo = sysNrOpen
  · rw [if_pos hopen, if_pos hopen]
    exact emits_sysOpen_iff
  rw [if_neg hopen, if_neg hopen]
  by_cases hsocket : m.callNo = sysNrSocketcall
  · rw [if_pos hsocket, if_pos hsocket, emits_ensures]
    unfold sysSocketcall
    rw [Exec.ensures_bind, ensures_look, permits_reg]
    dsimp only
    by_cases hcall : m.regs.rbx.setWidth 32 = callRecvfrom
    · rw [if_pos hcall, if_pos hcall, ← emits_ensures]
      exact emits_sysRecvfrom_iff
    · rw [if_neg hcall, if_neg hcall, Exec.ensures_probe]
      exact permits_socketcall _
  · rw [if_neg hsocket, if_neg hsocket, emits_ensures, Exec.ensures_probe]
    exact permits_sysLook _ _

theorem emits_handleSyscall_iff : handleSyscall.Emits A.Holds m ↔ A.SyscallNeeds m := by
  rw [emits_ensures]
  unfold handleSyscall SyscallNeeds Machine.callNo
  rw [Exec.ensures_bind, ensures_look, permits_read]
  dsimp only
  cases hentry : syscalls[(m.vmcb.rax.setWidth 32).toNat]? with
  | none =>
    refine iff_of_true ?_ nofun
    rw [ensures_look]
    exact Probe.ensures_ofExcept.mpr nofun
  | some entry =>
    have hname : ([OutArg.text entry.sysName]).filterMap OutArg.deref = [] := rfl
    simp only [Exec.liftM_eq_probe, Exec.ensures_bind, ensures_look, permits_plain hname,
      permits_read, Exec.ensures_when, modifyVmcb, Exec.ensures_modify, permits_text,
      ensures_vmAddWaitingThread, implies_true, and_true]
    constructor
    · rintro ⟨hemits, hrest⟩ _ hsome
      cases hsome
      exact ⟨emits_sysDispatch_iff.mp hemits, fun hempty hreturns =>
        (permits_getCurThreadid_user (by simp)).mp (hrest () m hreturns hempty)⟩
    · intro h
      obtain ⟨hdispatch, hlook⟩ := h entry rfl
      refine ⟨emits_sysDispatch_iff.mpr hdispatch, fun _ t ht hempty => ?_⟩
      have ht : (sysDispatch m.callNo entry.sysNargs).Returns m () t := ht
      rcases sysDispatch_spec ht with ⟨tid, info, -, -, rfl⟩ | ⟨-, rfl⟩
      · simp [Machine.addWaiting] at hempty
      · exact (permits_getCurThreadid_user (by simp)).mpr (hlook hempty ht)

/-! ## The other exits -/

theorem emits_handleVmSwint_iff :
    handleVmSwint.Emits A.Holds m ↔
      A.At m m.vmcb.csSel m.vmcb.rip fun p =>
        A.deref p (.bytes 1 1) ∧ (m.mem (p + 1#64) = 0x80#8 → A.SyscallNeeds m) := by
  rw [emits_ensures]
  unfold handleVmSwint intVector
  simp only [Exec.ensures_bind, ensures_look, permits_bind, permits_read, permits_translate,
    permits_loadAt, Exec.ensures_when, modifyVmcb, Exec.ensures_modify, ← emits_ensures,
    emits_handleSyscall_iff, implies_true, and_true]
  rfl

theorem emits_userEnableIntercept_iff {flags : BitVec 32} :
    (userEnableIntercept flags).Emits A.Holds t ↔
      (has flags userItcTaskswitch → A.Descriptor t t.vmcb.dsSel) := by
  rw [emits_ensures]
  unfold userEnableIntercept vmAddTrackedProcess
  simp only [vmIsProcessTracked, Exec.liftM_eq_probe, Exec.ensures_bind, Exec.ensures_when,
    ensures_look, permits_text, modifyVmcb, modifyVm, Exec.ensures_modify, permits_regDs,
    permits_read, not_true_eq_false, false_implies, implies_true, and_true, At]
  rfl

theorem emits_userDisableIntercept_iff {flags : BitVec 32} :
    (userDisableIntercept flags).Emits A.Holds t ↔
      (has flags userItcTaskswitch → A.At t t.vmcb.dsSel t.regs.rdx (A.UntrackNeeds t)) := by
  rw [emits_ensures]
  unfold userDisableIntercept vmRemoveTrackedProcess UntrackNeeds
  simp only [Exec.liftM_eq_probe, Exec.ensures_bind, Exec.ensures_when, ensures_look,
    permits_text, Exec.ensures_modify, modifyVmcb, modifyVm, permits_regDs, permits_read,
    permits_bind, permits_str, implies_true, and_true, id]
  refine imp_congr_right fun _ => at_congr fun p => and_congr_right fun _ => ?_
  refine Probe.ensures_log.trans ((and_iff_left trivial).trans ?_)
  exact List.forall_mem_map

theorem emits_handleVmVmmcall_iff :
    handleVmVmmcall.Emits A.Holds m ↔
      (m.regs.rbx = userCmdEnable → has (m.regs.rcx.setWidth 32) userItcTaskswitch →
        A.Descriptor m m.vmcb.dsSel) ∧
      (m.regs.rbx = userCmdDisable → has (m.regs.rcx.setWidth 32) userItcTaskswitch →
        A.At m m.vmcb.dsSel m.regs.rdx (A.UntrackNeeds m)) := by
  have hword : ∀ (fmt : String) (w : BitVec 64) {Q : Unit → Prop},
      A.Permits (outf fmt [.word w]) { m with vmcb := { m.vmcb with rip := m.vmcb.rip + 3#64 } }
        Q ↔ Q () := fun fmt w => permits_plain rfl
  rw [emits_ensures]
  unfold handleVmVmmcall
  simp only [Exec.liftM_eq_probe, Exec.ensures_bind, modifyVmcb, Exec.ensures_modify, ensures_look,
    permits_read, id, hword]
  by_cases henable : m.regs.rbx = userCmdEnable
  · have hdisable : ¬ m.regs.rbx = userCmdDisable := by rw [henable]; decide
    rw [if_pos henable, ← emits_ensures, emits_userEnableIntercept_iff]
    exact ⟨fun h => ⟨fun _ => h, fun hd => absurd hd hdisable⟩, fun h => h.1 henable⟩
  · rw [if_neg henable]
    by_cases hdisable : m.regs.rbx = userCmdDisable
    · rw [if_pos hdisable, ← emits_ensures, emits_userDisableIntercept_iff]
      exact ⟨fun h => ⟨fun he => absurd he henable, fun _ => h⟩, fun h => h.2 hdisable⟩
    · rw [if_neg hdisable, Exec.ensures_pure]
      exact iff_of_true trivial ⟨fun he => absurd he henable, fun hd => absurd hd hdisable⟩

/-- Task switches are not what protects the pages. -/
theorem has_userUnpack_switched {flags : BitVec 32} :
    has (flags &&& ~~~userItcTaskswitch) userUnpack = has flags userUnpack := by
  have hmask : ~~~userItcTaskswitch &&& userUnpack = userUnpack := by decide
  unfold has
  rw [BitVec.and_assoc, hmask]

theorem emits_handlePopf_iff :
    handlePopf.Emits A.Holds m ↔
      A.KernelTask m fun task => (task ≠ -1#64 → A.deref task (.string 0x18c)) ∧
        (has m.vm.itcFlag userUnpack → A.Directory m) := by
  rw [emits_ensures]
  unfold handlePopf getCurProcessName getTaskStruct
  simp only [if_true, vmIsProcessTracked, Exec.liftM_eq_probe, Exec.ensures_bind, modifyVmcb,
    modifyVm, Exec.ensures_modify, ensures_look, permits_bind, permits_read, permits_pure,
    permits_strWhen, permits_getCurProcessTaskstruct]
  refine iff_of_eq (congrArg (A.KernelTask m) (funext fun task => propext ?_))
  refine and_congr_right fun _ => ?_
  rw [← has_userUnpack_switched, ← emits_ensures, emits_vmEnableIntercept_iff]
  rfl

theorem emits_syscallIret_iff {info : SyscallInfo} :
    (syscallIret info).Emits A.Holds m ↔ A.ReturnNeeds m info := by
  rw [emits_ensures]
  cases info with
  | other =>
    refine iff_true_intro (emits_ensures.mp (Exec.emits_bind.mpr ⟨?_, fun rax t _ => ?_⟩))
    · exact Exec.emits_probe.mpr Probe.emits_read
    · exact Exec.emits_probe.mpr (emits_outf rfl)
  | read arg => exact Exec.ensures_probe.trans permits_sysReadIret
  | opened arg =>
    refine emits_ensures.symm.trans (Exec.emits_bind.trans ?_)
    refine (and_iff_left fun _ _ _ => emits_vmAddFileid2nameMap).trans ?_
    simp [Holds, ReturnNeeds]
  | recvfrom arg datasize => exact Exec.ensures_probe.trans permits_sysRecvfromIret

theorem emits_handleReturn_iff :
    handleReturn.Emits A.Holds m ↔ (m.vm.syscallmap ≠ [] → A.KernelThread m fun tid =>
      ∀ info, m.vm.waitingSyscall tid = some info → A.ReturnNeeds m info) := by
  rw [emits_ensures]
  unfold handleReturn
  simp only [Exec.liftM_eq_probe, Exec.ensures_bind, Exec.ensures_when, ensures_look,
    permits_read, implies_true, and_true, permits_getCurThreadid_kernel]
  refine imp_congr_right fun _ => ?_
  refine iff_of_eq (congrArg (A.KernelThread m) (funext fun tid => propext ?_))
  rw [vmGetWaitingSyscall, permits_read]
  cases m.vm.waitingSyscall tid with
  | none => exact iff_of_true (Exec.ensures_pure.mpr trivial) nofun
  | some info =>
    refine emits_ensures.symm.trans (Exec.emits_bind.trans ?_)
    refine (and_iff_left fun _ _ _ => Exec.emits_modify).trans (emits_syscallIret_iff.trans ?_)
    exact ⟨fun h _ hsome => Option.some.inj hsome ▸ h, fun h => h info rfl⟩

theorem emits_handleVmIret_iff :
    handleVmIret.Emits A.Holds m ↔ (m.vm.syscallmap ≠ [] → A.KernelThread m fun tid =>
      ∀ info, m.vm.waitingSyscall tid = some info → A.ReturnNeeds m info) := by
  have hskip : ∀ t, (skipIntercptCurInstr userItcIret).Emits A.Holds t := fun t =>
    emits_skipIntercptCurInstr_iff.mpr fun h => absurd h (by decide)
  refine Exec.emits_bind.trans ((and_iff_left fun _ t _ => hskip t).trans ?_)
  exact emits_handleReturn_iff

theorem emits_handleCr3Write : handleCr3Write.Emits A.Holds m := by
  refine Exec.emits_bind.mpr ⟨Exec.emits_modify, fun _ _ _ => ?_⟩
  exact emits_skipIntercptCurInstr_iff.mpr fun h => absurd h (by decide)

/-! ## Exits -/

theorem exitNeeds_of_ne (hswint : m.vmcb.exitcode ≠ vmexitSwint)
    (hiret : m.vmcb.exitcode ≠ vmexitIret) (hpopf : m.vmcb.exitcode ≠ vmexitPopf)
    (hvmmcall : m.vmcb.exitcode ≠ vmexitVmmcall) : A.ExitNeeds m ↔
      (m.vmcb.exitcode = vmexitExceptionDb → has m.vm.itcSkipFlag userUnpack → A.Directory m) ∧
      (m.vmcb.exitcode = vmexitExceptionPf → UnpackFault m → A.Directory m) := by
  refine ⟨fun h => ⟨h.debug, h.unpack⟩, fun h => ?_⟩
  exact {
    swint := fun h' => absurd h' hswint
    iret := fun h' => absurd h' hiret
    popf := fun h' => absurd h' hpopf
    enable := fun h' => absurd h' hvmmcall
    disable := fun h' => absurd h' hvmmcall
    debug := h.1
    unpack := h.2 }

/-- What is asked of another code is asked in vain. -/
theorem of_exitcode_ne {c d : BitVec 64} {P : Prop} (hexit : m.vmcb.exitcode = c) (hne : c ≠ d)
    (h : m.vmcb.exitcode = d) : P := absurd (hexit.symm.trans h) hne

/-- An exit with a code of its own needs what its handler needs. -/
theorem exitNeeds_swint (hexit : m.vmcb.exitcode = vmexitSwint) : A.ExitNeeds m ↔
    A.At m m.vmcb.csSel m.vmcb.rip fun p =>
      A.deref p (.bytes 1 1) ∧ (m.mem (p + 1#64) = 0x80#8 → A.SyscallNeeds m) := by
  refine ⟨fun h => h.swint hexit, fun h => ?_⟩
  exact {
    swint := fun _ => h
    iret := of_exitcode_ne hexit (by decide)
    popf := of_exitcode_ne hexit (by decide)
    enable := of_exitcode_ne hexit (by decide)
    disable := of_exitcode_ne hexit (by decide)
    debug := of_exitcode_ne hexit (by decide)
    unpack := of_exitcode_ne hexit (by decide) }

theorem exitNeeds_iret (hexit : m.vmcb.exitcode = vmexitIret) : A.ExitNeeds m ↔
    (m.vm.syscallmap ≠ [] → A.KernelThread m fun tid =>
      ∀ info, m.vm.waitingSyscall tid = some info → A.ReturnNeeds m info) := by
  refine ⟨fun h => h.iret hexit, fun h => ?_⟩
  exact {
    swint := of_exitcode_ne hexit (by decide)
    iret := fun _ => h
    popf := of_exitcode_ne hexit (by decide)
    enable := of_exitcode_ne hexit (by decide)
    disable := of_exitcode_ne hexit (by decide)
    debug := of_exitcode_ne hexit (by decide)
    unpack := of_exitcode_ne hexit (by decide) }

theorem exitNeeds_popf (hexit : m.vmcb.exitcode = vmexitPopf) : A.ExitNeeds m ↔
    A.KernelTask m fun task => (task ≠ -1#64 → A.deref task (.string 0x18c)) ∧
      (has m.vm.itcFlag userUnpack → A.Directory m) := by
  refine ⟨fun h => h.popf hexit, fun h => ?_⟩
  exact {
    swint := of_exitcode_ne hexit (by decide)
    iret := of_exitcode_ne hexit (by decide)
    popf := fun _ => h
    enable := of_exitcode_ne hexit (by decide)
    disable := of_exitcode_ne hexit (by decide)
    debug := of_exitcode_ne hexit (by decide)
    unpack := of_exitcode_ne hexit (by decide) }

theorem exitNeeds_vmmcall (hexit : m.vmcb.exitcode = vmexitVmmcall) : A.ExitNeeds m ↔
    (m.regs.rbx = userCmdEnable → has (m.regs.rcx.setWidth 32) userItcTaskswitch →
      A.Descriptor m m.vmcb.dsSel) ∧
    (m.regs.rbx = userCmdDisable → has (m.regs.rcx.setWidth 32) userItcTaskswitch →
      A.At m m.vmcb.dsSel m.regs.rdx (A.UntrackNeeds m)) := by
  refine ⟨fun h => ⟨h.enable hexit, h.disable hexit⟩, fun h => ?_⟩
  exact {
    swint := of_exitcode_ne hexit (by decide)
    iret := of_exitcode_ne hexit (by decide)
    popf := of_exitcode_ne hexit (by decide)
    enable := fun _ => h.1
    disable := fun _ => h.2
    debug := of_exitcode_ne hexit (by decide)
    unpack := of_exitcode_ne hexit (by decide) }

/-- An exit of another code accesses nothing. -/
theorem exitNeeds_quiet (hswint : m.vmcb.exitcode ≠ vmexitSwint)
    (hiret : m.vmcb.exitcode ≠ vmexitIret) (hpopf : m.vmcb.exitcode ≠ vmexitPopf)
    (hvmmcall : m.vmcb.exitcode ≠ vmexitVmmcall) (hdb : m.vmcb.exitcode ≠ vmexitExceptionDb)
    (hpf : m.vmcb.exitcode ≠ vmexitExceptionPf) : A.ExitNeeds m :=
  (exitNeeds_of_ne hswint hiret hpopf hvmmcall).mpr
    ⟨fun h => absurd h hdb, fun h => absurd h hpf⟩

/-- Output before a handler asks for nothing. -/
theorem permits_before {x : Look Unit} {R : Prop} (hx : x.Emits A.Holds m)
    (hreturns : x.Returns m ()) : A.Permits x m (fun _ => R) ↔ R :=
  ⟨fun h => h.2 () hreturns, fun hR => ⟨hx, fun _ _ => hR⟩⟩

/-- Whatever the exit, whether it completes or not. -/
theorem emits_handleVmexit_iff : handleVmexit.Emits A.Holds m ↔ A.ExitNeeds m := by
  have hcode : (outf "**** #VMEXIT - exit code: %x\n" [intArg m.vmcb.exitcode]).Emits
      A.Holds m := emits_outf rfl
  rw [emits_ensures]
  unfold handleVmexit
  rw [Exec.ensures_bind, ensures_look, permits_read, Exec.ensures_bind, Exec.liftM_eq_probe,
    ensures_look, permits_before hcode rfl, Exec.ensures_bind, Exec.liftM_eq_probe, ensures_look,
    permits_before emits_printVmcbState rfl, ← emits_ensures]
  by_cases hmsr : m.vmcb.exitcode = vmexitMsr
  · rw [if_pos hmsr]
    refine iff_of_true (Exec.emits_when.mpr fun _ => emits_handleVmWrmsr) ?_
    apply exitNeeds_quiet <;> (rw [hmsr]; decide)
  rw [if_neg hmsr]
  by_cases hexception : vmexitExceptionDe ≤ m.vmcb.exitcode ∧ m.vmcb.exitcode ≤ vmexitExceptionXf
  · rw [if_pos hexception, emits_handleVmException_iff, exitNeeds_of_ne]
    all_goals
      intro h
      rw [h] at hexception
      revert hexception
      decide
  rw [if_neg hexception]
  by_cases hswint : m.vmcb.exitcode = vmexitSwint
  · rw [if_pos hswint, exitNeeds_swint hswint]
    exact emits_handleVmSwint_iff
  rw [if_neg hswint]
  by_cases hnpf : m.vmcb.exitcode = vmexitNpf
  · rw [if_pos hnpf]
    refine iff_of_true emits_handleVmNpf ?_
    apply exitNeeds_quiet <;> (rw [hnpf]; decide)
  rw [if_neg hnpf]
  by_cases hvmmcall : m.vmcb.exitcode = vmexitVmmcall
  · rw [if_pos hvmmcall, exitNeeds_vmmcall hvmmcall]
    exact emits_handleVmVmmcall_iff
  rw [if_neg hvmmcall]
  by_cases hiret : m.vmcb.exitcode = vmexitIret
  · rw [if_pos hiret, exitNeeds_iret hiret]
    exact emits_handleVmIret_iff
  rw [if_neg hiret]
  by_cases hcr3 : m.vmcb.exitcode = vmexitCr3Write
  · rw [if_pos hcr3]
    refine iff_of_true emits_handleCr3Write ?_
    apply exitNeeds_quiet <;> (rw [hcr3]; decide)
  rw [if_neg hcr3]
  by_cases hpopf : m.vmcb.exitcode = vmexitPopf
  · rw [if_pos hpopf, exitNeeds_popf hpopf]
    exact emits_handlePopf_iff
  · rw [if_neg hpopf]
    have hdb : m.vmcb.exitcode ≠ vmexitExceptionDb := by
      intro h
      rw [h] at hexception
      exact hexception (by decide)
    have hpf : m.vmcb.exitcode ≠ vmexitExceptionPf := by
      intro h
      rw [h] at hexception
      exact hexception (by decide)
    exact iff_of_true Exec.emits_pure (exitNeeds_quiet hswint hiret hpopf hvmmcall hdb hpf)

end

end AccessRule

end Mavmm
