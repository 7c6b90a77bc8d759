import Mavmm.Syscall

/-!
# Exits of the guest (intercept.c, vmcb.c)

`handle_vmexit` and the handlers it calls.  An intercept that a handler has to
let through once is switched off, remembered in the skip word, and switched on
again by the debug exception after the next instruction.

Between two exits the processor and the guest change everything but what the
monitor keeps and the intercept words (`Machine.deliver`).
-/

namespace Mavmm

/-! ## Output (vmcb.c) -/

/-- `print_vmcb_state`. -/
def printVmcbState : Look Unit := do
  let m ← Probe.read id
  let c := m.vmcb
  let sel (s : BitVec 16) : OutArg := .int (s.setWidth 32)
  outf "*******  VMCB STATE  *********\n" []
  outf "cs:ip = %x:%x\n" [sel c.csSel, .word c.rip]
  outf "ss:sp = %x:%x\n" [sel c.ssSel, .word c.rsp]
  outf "ds:bp = %x:%x\n" [sel c.dsSel, .word m.regs.rbp]
  outf "eax = %x, ebx = %x, ecx = %x, edx = %x\n"
    [.word c.rax, .word m.regs.rbx, .word m.regs.rcx, .word m.regs.rdx]
  outf "esi = %x, edi = %x" [.word m.regs.rsi, .word m.regs.rdi]
  outf "cpl=%x\n" [.int (c.cpl.setWidth 32)]
  outf "cr0=%x, cr3=%x, cr4=%x\n" [.word c.cr0, .word c.cr3, .word c.cr4]
  outf "rflags=%x, efer=%x\n" [.word c.rflags, .word c.efer]

/-- `print_page_errorcode`. -/
def printPageErrorcode (errcode : BitVec 64) : Look Unit := do
  outf (if has errcode 1#64 then "page fault was caused by a page-protection violation\n"
    else "page fault was caused by a not-present page\n") []
  outf (if has errcode 2#64 then "memory access was write\n" else "memory access was read\n") []
  outf (if has errcode 4#64 then "an access in user mode caused the page fault\n"
    else "an access in supervisor mode caused the page fault\n") []
  outfWhen (has errcode 8#64)
    "error caused by reading a '1' from reserved field, \t\t\twhen CR4.PSE=1 or CR4.PAE=1\n" []
  outfWhen (has errcode 16#64)
    "error caused by instruction fetch, when \t\t\tEFER.NXE=1 && CR4.PAE=1" []

/-! ## Skipping an intercept -/

/-- `__skip_intercpt_cur_instr`. -/
def skipIntercptCurInstr (flag : BitVec 32) : Handler Unit := do
  vmDisableIntercept flag
  modifyVm fun vm => { vm with itcSkipFlag := vm.itcSkipFlag ||| flag }
  vmEnableIntercept userSingleStepping

/-! ## Software interrupts and their return -/

/-- The fields of `eventinj_t` without the error code, written over `x`. -/
def injectEvent (vector : BitVec 8) (type : BitVec 3) (ev : BitVec 1) (x : BitVec 64) : BitVec 64 :=
  let x := Bits.setField x 0 vector
  let x := Bits.setField x 8 type
  let x := Bits.setField x 11 ev
  Bits.setField x 31 1#1

def eventTypeException : BitVec 3 := 3#3
def eventTypeSwint : BitVec 3 := 4#3

/-- `__handle_vm_npf`. -/
def handleVmNpf : Handler Unit := do
  let errcode ← Exec.probe (Probe.read fun m => m.vmcb.exitinfo1)
  printPageErrorcode errcode
  Exec.probe (fault (.fatalFailure "Nested page fault!"))

/-- The vector of the `int` instruction the guest stopped at. -/
def intVector : Look (BitVec 8) := do
  let c ← Probe.read fun m => m.vmcb
  let ipaddrHp ← translate c.csSel c.rip
  loadAt Mem.load8 ipaddrHp 1

/-- `__handle_vm_swint`. -/
def handleVmSwint : Handler Unit := do
  let vector ← Exec.probe intVector
  Exec.when (vector = 0x80#8) handleSyscall
  modifyVmcb fun c =>
    { c with eventinj := injectEvent vector eventTypeSwint 0#1 c.eventinj, rip := c.rip + 2#64 }

/-- The return of a recorded call. -/
def syscallIret : SyscallInfo → Handler Unit
  | .other => do
    let rax ← Exec.probe (Probe.read fun m => m.vmcb.rax)
    outf "syscall return: %x\n" [.word rax]
  | .read arg => Exec.probe (sysReadIret arg)
  | .opened arg => sysOpenIret arg
  | .recvfrom arg datasize => Exec.probe (sysRecvfromIret arg datasize)

/-- The part of `__handle_vm_iret` that looks for the record of the current thread. -/
def handleReturn : Handler Unit := do
  let waiting ← Exec.probe (Probe.read fun m => m.vm.syscallmap)
  Exec.when (waiting ≠ []) do
    let tid ← getCurThreadid 0
    match ← Exec.probe (vmGetWaitingSyscall tid) with
    | none => pure ()
    | some info =>
      syscallIret info
      vmRemoveWaitingThread tid

/-- `__handle_vm_iret`. -/
def handleVmIret : Handler Unit := do
  handleReturn
  skipIntercptCurInstr userItcIret

/-! ## Exceptions -/

def vmexitExceptionDe : BitVec 64 := 64#64
def vmexitExceptionDb : BitVec 64 := 65#64
def vmexitExceptionTs : BitVec 64 := 74#64
def vmexitExceptionGp : BitVec 64 := 77#64
def vmexitExceptionPf : BitVec 64 := 78#64
def vmexitExceptionXf : BitVec 64 := 83#64

/-- A debug exception: skipped intercepts are switched on again.  The test for single stepping
that the code makes first has no effect. -/
def handleDb : Handler Unit := do
  let vm ← Exec.probe (Probe.read fun m => m.vm)
  Exec.when (vm.itcSkipFlag ≠ 0#32) do
    vmEnableIntercept vm.itcSkipFlag
    modifyVm fun vm => { vm with itcSkipFlag := 0#32 }
    Exec.when (¬ vm.btrackcurrent ∨ ¬ has vm.itcFlag userSingleStepping)
      (vmDisableIntercept userSingleStepping)

/-- The handling of an exception that the guest gets itself. -/
def injectException : Handler Unit := do
  modifyVmcb fun c =>
    let vector := (c.exitcode - vmexitExceptionDe).setWidth 8
    let eventinj := injectEvent vector eventTypeException 1#1 c.eventinj
    { c with eventinj := Bits.setField eventinj 32 (c.exitinfo1.setWidth 32) }
  let c ← Exec.probe (Probe.read fun m => m.vmcb)
  outf "\n#Exception vector=%x injected into guest, code: %x\n"
    [intArg (c.exitcode - vmexitExceptionDe), .word c.eventinj]

/-- `__handle_vm_exception`. -/
def handleVmException : Handler Unit := do
  let m ← Exec.probe (Probe.read id)
  let c := m.vmcb
  if c.exitcode = vmexitExceptionTs then
    printVmcbState
    outf "TSS invalid!" []
    injectException
  else if c.exitcode = vmexitExceptionGp then
    printVmcbState
    modifyVmcb fun c =>
      { c with
        csSel := m.vm.orgSysenterCs.setWidth 16
        ssSel := (m.vm.orgSysenterCs + 8#64).setWidth 16
        rsp := c.sysenterEsp
        rip := c.sysenterEip }
  else if c.exitcode = vmexitExceptionDb then handleDb
  else if c.exitcode = vmexitExceptionPf then
    if has c.exitinfo1 1#64 ∧ has c.exitinfo1 2#64 ∧ has m.vm.itcFlag userUnpack then
      outf "USER_UNPACK: guest wrote to %x\n" [.word c.exitinfo2]
      skipIntercptCurInstr userUnpack
    else
      printPageErrorcode c.exitinfo1
      modifyVmcb fun c => { c with cr2 := c.exitinfo2 }
      injectException
  else injectException

/-! ## Task switches -/

/-- `__handle_cr3_write`. -/
def handleCr3Write : Handler Unit := do
  -- popf is the last instruction of the guest's switch_to
  modifyVmcb fun c => { c with general1Intercepts := c.general1Intercepts ||| intrcptPopf }
  skipIntercptCurInstr userItcTaskswitch

/-- `__handle_popf`. -/
def handlePopf : Handler Unit := do
  let pname ← getCurProcessName 0
  modifyVmcb fun c => { c with general1Intercepts := c.general1Intercepts &&& ~~~intrcptPopf }
  let vm ← Exec.probe (Probe.read fun m => m.vm)
  let flags := vm.itcFlag &&& ~~~userItcTaskswitch
  if vmIsProcessTracked vm pname then
    vmEnableIntercept flags
    modifyVm fun vm => { vm with btrackcurrent := true }
  else
    vmDisableIntercept flags
    modifyVm fun vm => { vm with btrackcurrent := false }

/-! ## Commands of the user -/

/-- `user_enable_intercept`. -/
def userEnableIntercept (flags : BitVec 32) : Handler Unit := do
  Exec.when (has flags userItcTaskswitch) do
    outf "User enable taskswitch interception\n" []
    modifyVmcb fun c => { c with crIntercepts := c.crIntercepts ||| intrcptWriteCr3 }
    let pname ← Exec.probe (regDs GuestRegs.rdx)
    vmAddTrackedProcess pname
  modifyVm fun vm => { vm with itcFlag := vm.itcFlag ||| flags }

/-- `user_disable_intercept`. -/
def userDisableIntercept (flags : BitVec 32) : Handler Unit := do
  Exec.when (has flags userItcTaskswitch) do
    outf "User disable taskswitch interception\n" []
    let pname ← Exec.probe (regDs GuestRegs.rdx)
    outf "remove process from tracking list: %s\n" [.str pname 0]
    vmRemoveTrackedProcess pname
    let tracked ← Exec.probe (Probe.read fun m => m.vm.ptracked)
    Exec.when (tracked = [])
      (modifyVmcb fun c => { c with crIntercepts := c.crIntercepts &&& ~~~intrcptWriteCr3 })
  modifyVm fun vm => { vm with itcFlag := vm.itcFlag &&& ~~~flags }

def userCmdEnable : BitVec 64 := 0#64
def userCmdDisable : BitVec 64 := 1#64

/-- `__handle_vm_vmmcall`. -/
def handleVmVmmcall : Handler Unit := do
  modifyVmcb fun c => { c with rip := c.rip + 3#64 }
  let m ← Exec.probe (Probe.read id)
  let r := m.regs
  outf "GOT A VMMCALL!!! eax = %x, " [.word m.vmcb.rax]
  outf "ebx = %x, " [.word r.rbx]
  outf "ecx = %x, " [.word r.rcx]
  outf "edx = %x\n" [.word r.rdx]
  if r.rbx = userCmdEnable then userEnableIntercept (r.rcx.setWidth 32)
  else if r.rbx = userCmdDisable then userDisableIntercept (r.rcx.setWidth 32)

/-! ## Model-specific registers -/

def msrIa32SysenterCs : BitVec 64 := 0x174#64
def sysenterCsFault : BitVec 64 := 0#64

/-- `__handle_vm_wrmsr`. -/
def handleVmWrmsr : Handler Unit := do
  let m ← Exec.probe (Probe.read id)
  if m.regs.rcx = msrIa32SysenterCs then
    modifyVm fun vm =>
      { vm with orgSysenterCs := m.regs.rdx <<< 32 + (0xffffffff#64 &&& m.vmcb.rax) }
    modifyVmcb fun c => { c with sysenterCs := sysenterCsFault, rip := c.rip + 2#64 }
  else outf "\n\nShould NOT REACH HERE!!!\n\n" []

/-! ## The exit -/

def vmexitMsr : BitVec 64 := 124#64
def vmexitVmrun : BitVec 64 := 128#64
def vmexitSwint : BitVec 64 := 117#64
def vmexitNpf : BitVec 64 := 1024#64
def vmexitVmmcall : BitVec 64 := 129#64
def vmexitIret : BitVec 64 := 116#64
def vmexitCr3Write : BitVec 64 := 19#64
def vmexitPopf : BitVec 64 := 113#64

/-- `handle_vmexit`. -/
def handleVmexit : Handler Unit := do
  let c ← Exec.probe (Probe.read fun m => m.vmcb)
  outf "**** #VMEXIT - exit code: %x\n" [intArg c.exitcode]
  printVmcbState
  if c.exitcode = vmexitMsr then Exec.when (c.exitinfo1 = 1#64) handleVmWrmsr
  else if vmexitExceptionDe ≤ c.exitcode ∧ c.exitcode ≤ vmexitExceptionXf then handleVmException
  else if c.exitcode = vmexitSwint then handleVmSwint
  else if c.exitcode = vmexitNpf then handleVmNpf
  else if c.exitcode = vmexitVmmcall then handleVmVmmcall
  else if c.exitcode = vmexitIret then handleVmIret
  else if c.exitcode = vmexitCr3Write then handleCr3Write
  else if c.exitcode = vmexitPopf then handlePopf

/-! ## Runs -/

/-- What the guest leaves behind at an exit. -/
structure GuestExit where
  vmcb : Vmcb
  regs : GuestRegs
  mem : Mem

/-- The machine at an exit; the intercept words are the monitor's. -/
def Machine.deliver (m : Machine) (e : GuestExit) : Machine where
  vm := m.vm
  vmcb := { e.vmcb with
    crIntercepts := m.vmcb.crIntercepts
    exceptionIntercepts := m.vmcb.exceptionIntercepts
    general1Intercepts := m.vmcb.general1Intercepts
    general2Intercepts := m.vmcb.general2Intercepts }
  regs := e.regs
  mem := e.mem

/-- The machine after an exit. -/
def Machine.exit (m : Machine) (e : GuestExit) : Except Fault Machine :=
  (handleVmexit (m.deliver e)).2.map Prod.snd

/-- An exit and its handling. -/
def ExitStep (m : Machine) (e : GuestExit) (m' : Machine) : Prop := m.exit e = .ok m'

theorem ExitStep.returns {m m' : Machine} {e : GuestExit} (h : ExitStep m e m') :
    handleVmexit.Returns (m.deliver e) () m' := by
  unfold ExitStep Machine.exit at h
  unfold Exec.Returns
  cases hrun : (handleVmexit (m.deliver e)).2 with
  | error f =>
    rw [hrun] at h
    cases h
  | ok r =>
    rw [hrun] at h
    cases h
    rfl

theorem run_of_foldlM {m m' : Machine} {es : List GuestExit}
    (h : es.foldlM Machine.exit m = .ok m') : Run ExitStep m es m' := Run.of_foldlM h

/-- The machine after an exit that completes. -/
def Machine.next (m : Machine) (e : GuestExit) : Machine :=
  match m.exit e with
  | .ok m' => m'
  | .error _ => m

theorem exitStep_next {m : Machine} {e : GuestExit}
    (h : completesWith (fun _ => true) (m.exit e) = true) : ExitStep m e (m.next e) := by
  obtain ⟨m', hm', -⟩ := completesWith_ok h
  unfold ExitStep Machine.next
  rw [hm']

/-- The machine that `vm_create` leaves, with memory cleared. -/
def Machine.boot : Machine where
  vm := { orgSysenterCs := 0#64, itcFlag := 0#32, itcSkipFlag := 0#32
          fmap := [⟨0#32, cstr (literal "stdin") 19⟩, ⟨1#32, cstr (literal "stdout") 19⟩,
            ⟨2#32, cstr (literal "stderr") 19⟩]
          syscallmap := [], ptracked := [], btrackcurrent := false }
  vmcb := .mbrStart
  regs := { rbx := 0#64, rcx := 0#64, rdx := 0#64, rsi := 0#64, rdi := 0#64, rbp := 0#64 }
  mem := fun _ => 0#8

theorem booted_boot : Booted Machine.boot := ⟨Machine.boot, Machine.boot, rfl, rfl⟩

/-- An exit of a thread in real mode; its data segment tells which of two threads it is. -/
def threadExit (exitcode : BitVec 64) (dsSel : BitVec 16) (rax rbx : BitVec 64) : GuestExit where
  vmcb := { Vmcb.mbrStart with exitcode, dsSel, rax }
  regs := { Machine.boot.regs with rbx }
  -- the vector of `int`, the two ids, and a name
  mem := fun a => (List.lookup a
    [(0x7c01#64, 0x80#8), (0x4a8#64, 1#8), (0x5a8#64, 2#8), (0xa00#64, 0x61#8)]).getD 0#8

/-- A command of the user, and the end of a context switch. -/
def userCommand (cmd flags : BitVec 64) : GuestExit where
  vmcb := { Vmcb.mbrStart with exitcode := vmexitVmmcall }
  regs := { Machine.boot.regs with rbx := cmd, rcx := flags }
  mem := Machine.boot.mem

def contextSwitch : GuestExit where
  vmcb := { Vmcb.mbrStart with exitcode := vmexitPopf }
  regs := Machine.boot.regs
  mem := Machine.boot.mem

end Mavmm
