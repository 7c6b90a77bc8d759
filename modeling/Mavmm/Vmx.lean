import Mavmm.Page
import Mavmm.Vm

/-!
# Setting up VMX (vmx.c, vmcs.c)

On an Intel processor each control word has a capability register: its low half
has the bits that must be set, its high half those that may be.
`vmx_detect_capability` reads the registers into global variables and starts
each word from the bits that must be set; `vmx_set_control_params` adds what the
monitor needs and writes the words to the VMCS.

An action logs what it writes with `__vmwrite`.
-/

namespace Mavmm

/-! ## State -/

/-- The contents of the model-specific registers. -/
abbrev Msrs := BitVec 32 → BitVec 64

/-- The variables for one control word: `vmx_..._control`, `vmx_..._default1` and
`vmx_..._default0`. -/
structure VmxCtl where
  control : BitVec 32
  default1 : BitVec 32
  default0 : BitVec 32

/-- The global variables of vmcs.c. -/
structure VmxVars where
  basicMsrLow : BitVec 32
  basicMsrHigh : BitVec 32
  pinBasedExec : VmxCtl
  cpuBasedExec : VmxCtl
  secondaryExec : VmxCtl
  vmexit : VmxCtl
  vmentry : VmxCtl
  eptVpidCap : BitVec 64
  cpuHasInsOutsInstrInfo : Bool
  vmcsRevisionId : BitVec 32
  eptControl : BitVec 64

structure VmxState where
  msrs : Msrs
  vars : VmxVars
  cr0 : BitVec 64
  cr4 : BitVec 64
  gdtBase : BitVec 64
  idtBase : BitVec 64
  /-- The address of `vmx_asm_vmexit_handler`. -/
  vmexitHandler : BitVec 64
  host : Host
  nCr3 : BitVec 64
  ioInterceptTable : BitVec 64
  msrInterceptTable : BitVec 64

/-- The fields of the VMCS that are written here, and the one for the secondary controls. -/
inductive VmcsField where
  | virtualProcessorId
  | hostEsSelector
  | hostCsSelector
  | hostSsSelector
  | hostDsSelector
  | hostFsSelector
  | hostGsSelector
  | hostTrSelector
  | ioBitmapA
  | ioBitmapB
  | msrBitmap
  | eptPointer
  | pinBasedVmExecControl
  | cpuBasedVmExecControl
  | vmExitControls
  | vmEntryControls
  | secondaryVmExecControl
  | hostSysenterCs
  | hostCr0
  | hostCr4
  | hostFsBase
  | hostGsBase
  | hostTrBase
  | hostGdtrBase
  | hostIdtrBase
  | hostSysenterEsp
  | hostSysenterEip
  | hostRip
deriving DecidableEq

structure Vmwrite where
  field : VmcsField
  value : BitVec 64
deriving DecidableEq

abbrev VmxM := Exec Fault Vmwrite VmxState

def vmwrite (field : VmcsField) (value : BitVec 64) : VmxM Unit :=
  Exec.probe (Probe.log [{ field, value }])

/-- A control word, widened for `__vmwrite`. -/
def vmwriteCtl (field : VmcsField) (ctl : VmxVars → VmxCtl) : VmxM Unit := do
  let control ← Exec.probe (Probe.read fun s => (ctl s.vars).control)
  vmwrite field (control.setWidth 64)

namespace VmxState

def setVars (f : VmxVars → VmxVars) (s : VmxState) : VmxState := { s with vars := f s.vars }
def setHost (host : Host) (s : VmxState) : VmxState := { s with host }
def setIoInterceptTable (table : BitVec 64) (s : VmxState) : VmxState :=
  { s with ioInterceptTable := table }
def setMsrInterceptTable (table : BitVec 64) (s : VmxState) : VmxState :=
  { s with msrInterceptTable := table }

end VmxState

def modifyVars (f : VmxVars → VmxVars) : VmxM Unit := Exec.modify (VmxState.setVars f)

def onHost {α : Type} (x : HostM α) : VmxM α := fun s =>
  ([], (x s.host).map fun r => (r.1, s.setHost r.2))

/-! ## Registers and bits (msr-index.h, vmcs.h) -/

def msrIa32VmxBasic : BitVec 32 := 0x480#32
def msrIa32VmxPinbasedCtls : BitVec 32 := 0x481#32
def msrIa32VmxProcbasedCtls : BitVec 32 := 0x482#32
def msrIa32VmxExitCtls : BitVec 32 := 0x483#32
def msrIa32VmxEntryCtls : BitVec 32 := 0x484#32
def msrIa32VmxCr0Fixed0 : BitVec 32 := 0x486#32
def msrIa32VmxCr0Fixed1 : BitVec 32 := 0x487#32
def msrIa32VmxProcbasedCtls2 : BitVec 32 := 0x48b#32
def msrIa32VmxEptVpidCap : BitVec 32 := 0x48c#32
def msrIa32VmxTruePinbasedCtls : BitVec 32 := 0x48d#32
def msrIa32VmxTrueProcbasedCtls : BitVec 32 := 0x48e#32
def msrIa32VmxTrueExitCtls : BitVec 32 := 0x48f#32
def msrIa32VmxTrueEntryCtls : BitVec 32 := 0x490#32
def ia32FeatureControlMsr : BitVec 32 := 0x3a#32
def ia32FeatureControlMsrLock : BitVec 32 := 0x0001#32
def ia32FeatureControlMsrEnableVmxonOutsideSmx : BitVec 32 := 0x0004#32

def cpuBasedActivateIoBitmap : BitVec 32 := 0x02000000#32
def cpuBasedActivateMsrBitmap : BitVec 32 := 0x10000000#32
def cpuBasedActivateSecondaryControls : BitVec 32 := 0x80000000#32
def secondaryExecEnableEpt : BitVec 32 := 0x00000002#32
def secondaryExecEnableVpid : BitVec 32 := 0x00000020#32
def vmExitIa32eMode : BitVec 32 := 0x00000200#32
def vmExitAckIntrOnExit : BitVec 32 := 0x00008000#32
def vmExitSaveGuestPat : BitVec 32 := 0x00040000#32
def vmExitLoadHostPat : BitVec 32 := 0x00080000#32
def vmEntryLoadGuestPat : BitVec 32 := 0x00004000#32

def x86FeatureVmx : Nat := 5
def x86Cr0Ts : BitVec 64 := 0x00000008#64
def x86Cr4Vmxe : BitVec 64 := 0x2000#64
def x86Cr4Osxsave : BitVec 64 := 0x40000#64
def vmmDs64 : BitVec 64 := 56#64
def vmmCs64 : BitVec 64 := 40#64

/-! ## Capabilities -/

/-- The halves that `rdmsr` reads. -/
def msrLow (msrs : Msrs) (msr : BitVec 32) : BitVec 32 := (msrs msr).extractLsb' 0 32
def msrHigh (msrs : Msrs) (msr : BitVec 32) : BitVec 32 := (msrs msr).extractLsb' 32 32

def VmxCtl.rdmsr (msrs : Msrs) (msr : BitVec 32) (c : VmxCtl) : VmxCtl :=
  { c with default1 := msrLow msrs msr, default0 := msrHigh msrs msr }

/-- A control word starts with the bits that must be set. -/
def VmxCtl.start (c : VmxCtl) : VmxCtl := { c with control := c.default1 }

def VmxVars.readBasic (msrs : Msrs) (v : VmxVars) : VmxVars := { v with
  basicMsrLow := msrLow msrs msrIa32VmxBasic
  basicMsrHigh := msrHigh msrs msrIa32VmxBasic
  vmcsRevisionId := msrLow msrs msrIa32VmxBasic }

/-- The capability registers of the four words that always exist. -/
def VmxVars.readCtls (msrs : Msrs) (v : VmxVars) : VmxVars :=
  if ¬ has v.basicMsrHigh (1#32 <<< 23) then { v with
    pinBasedExec := v.pinBasedExec.rdmsr msrs msrIa32VmxPinbasedCtls
    cpuBasedExec := v.cpuBasedExec.rdmsr msrs msrIa32VmxProcbasedCtls
    vmexit := v.vmexit.rdmsr msrs msrIa32VmxExitCtls
    vmentry := v.vmentry.rdmsr msrs msrIa32VmxEntryCtls }
  else { v with
    pinBasedExec := v.pinBasedExec.rdmsr msrs msrIa32VmxTruePinbasedCtls
    cpuBasedExec := v.cpuBasedExec.rdmsr msrs msrIa32VmxTrueProcbasedCtls
    vmexit := v.vmexit.rdmsr msrs msrIa32VmxTrueExitCtls
    vmentry := v.vmentry.rdmsr msrs msrIa32VmxTrueEntryCtls }

/-- The capabilities of the secondary controls; the bit that is tested is the one that says the
secondary controls must be on. -/
def VmxVars.readSecondary (msrs : Msrs) (v : VmxVars) : VmxVars :=
  if has v.cpuBasedExec.default1 cpuBasedActivateSecondaryControls then
    let v := { v with secondaryExec := v.secondaryExec.rdmsr msrs msrIa32VmxProcbasedCtls2 }
    if has v.secondaryExec.default1 (secondaryExecEnableEpt ||| secondaryExecEnableVpid) then
      { v with eptVpidCap := msrs msrIa32VmxEptVpidCap }
    else v
  else v

/-- What is done the first time through. -/
def VmxVars.firstTime (v : VmxVars) : VmxVars :=
  if v.pinBasedExec.control = 0#32 then { v with
    vmcsRevisionId := v.basicMsrLow
    pinBasedExec := v.pinBasedExec.start
    cpuBasedExec := v.cpuBasedExec.start
    secondaryExec := v.secondaryExec.start
    vmexit := v.vmexit.start
    vmentry := v.vmentry.start
    cpuHasInsOutsInstrInfo := has v.basicMsrHigh (1#32 <<< 22) }
  else v

/-- `vmx_detect_capability`. -/
def vmxDetectCapability : VmxM Unit := do
  let msrs ← Exec.probe (Probe.read VmxState.msrs)
  modifyVars (VmxVars.readBasic msrs)
  modifyVars (VmxVars.readCtls msrs)
  modifyVars (VmxVars.readSecondary msrs)
  modifyVars VmxVars.firstTime

/-- `enable_vmx`; `ecx` is what `cpuid_ecx (1)` gives. -/
def enableVmx (ecx : BitVec 32) : VmxM Unit := do
  Exec.when (¬ has ecx (1#32 <<< x86FeatureVmx))
    (Exec.probe (Probe.ofExcept fun _ => fatalFailure "No VMX feature!\n"))
  vmxDetectCapability
  let s ← Exec.probe (Probe.read id)
  Exec.when (¬ has s.vars.secondaryExec.control secondaryExecEnableEpt)
    (Exec.probe (Probe.ofExcept fun _ => fatalFailure "No EPT support!\n"))
  Exec.modify fun s => { s with cr4 := s.cr4 ||| x86Cr4Vmxe }
  Exec.when (~~~s.cr0 &&& s.msrs msrIa32VmxCr0Fixed0 ≠ 0#64 ∨
      s.cr0 &&& ~~~s.msrs msrIa32VmxCr0Fixed1 ≠ 0#64)
    (Exec.probe (Probe.ofExcept fun _ =>
      fatalFailure "Some settings of host CR0 are not allowed in VMX operation.\n"))
  let eax := msrLow s.msrs ia32FeatureControlMsr
  Exec.when (has eax ia32FeatureControlMsrLock ∧
      ¬ has eax ia32FeatureControlMsrEnableVmxonOutsideSmx)
    (Exec.probe (Probe.ofExcept fun _ => fatalFailure "VMX disabled by BIOS.\n"))

/-! ## Control words -/

/-- `create_intercept_table`. -/
def createInterceptTable (size : BitVec 64) : HostM (BitVec 64) := fun host => do
  let (pfn, nalloc) ← allocHostPages (size >>> pageShift) 1#64 host.nalloc
  let paddr := pfn <<< pageShift
  return (paddr, { mem := host.mem.fill paddr size.toNat 0#8, nalloc })

/-- `word |= bits`. -/
def VmxCtl.add (bits : BitVec 32) (c : VmxCtl) : VmxCtl := { c with control := c.control ||| bits }

/-- `vmx_ept_control` with the nested page table at `nCr3`; the address is not shifted. -/
def eptControlFor (nCr3 x : BitVec 64) : BitVec 64 :=
  let x := Bits.setField x 0 6#3
  let x := Bits.setField x 3 3#3
  let x := Bits.setField x 6 0#6
  Bits.setField x 12 (nCr3.setWidth 52)

/-- `vmcs_init_host_env`. -/
def vmcsInitHostEnv : VmxM Unit := do
  let s ← Exec.probe (Probe.read id)
  vmwrite .hostSsSelector vmmDs64
  vmwrite .hostDsSelector vmmDs64
  vmwrite .hostEsSelector vmmDs64
  vmwrite .hostFsSelector vmmDs64
  vmwrite .hostGsSelector vmmDs64
  vmwrite .hostFsBase 0#64
  vmwrite .hostGsBase 0#64
  vmwrite .hostCr0 (s.cr0 ||| x86Cr0Ts)
  vmwrite .hostCr4 (s.cr4 ||| x86Cr4Osxsave)
  vmwrite .hostCsSelector vmmCs64
  vmwrite .hostRip s.vmexitHandler
  vmwrite .hostSysenterCs 0#64
  vmwrite .hostSysenterEip 0#64
  vmwrite .hostSysenterEsp 0#64
  vmwrite .hostGdtrBase s.gdtBase
  vmwrite .hostIdtrBase s.idtBase
  vmwrite .hostTrSelector vmmDs64
  vmwrite .hostTrBase 0#64

/-- `vmx_set_control_params`. -/
def vmxSetControlParams : VmxM Unit := do
  vmwriteCtl .pinBasedVmExecControl VmxVars.pinBasedExec
  modifyVars fun v =>
    { v with cpuBasedExec := v.cpuBasedExec.add cpuBasedActivateSecondaryControls }
  modifyVars fun v => { v with cpuBasedExec := v.cpuBasedExec.add cpuBasedActivateIoBitmap }
  let io ← onHost (createInterceptTable (8#64 <<< 10))
  Exec.modify (VmxState.setIoInterceptTable io)
  vmwrite .ioBitmapA io
  vmwrite .ioBitmapB (io + 4096#64)
  modifyVars fun v => { v with cpuBasedExec := v.cpuBasedExec.add cpuBasedActivateMsrBitmap }
  let msr ← onHost (createInterceptTable (4#64 <<< 10))
  Exec.modify (VmxState.setMsrInterceptTable msr)
  vmwrite .msrBitmap msr
  vmwriteCtl .cpuBasedVmExecControl VmxVars.cpuBasedExec
  modifyVars fun v => { v with secondaryExec := v.secondaryExec.add secondaryExecEnableEpt }
  let nCr3 ← Exec.probe (Probe.read VmxState.nCr3)
  modifyVars fun v => { v with eptControl := eptControlFor nCr3 v.eptControl }
  let eptp ← Exec.probe (Probe.read fun s => s.vars.eptControl)
  vmwrite .eptPointer eptp
  modifyVars fun v => { v with secondaryExec := v.secondaryExec.add secondaryExecEnableVpid }
  vmwrite .virtualProcessorId 1#64
  modifyVars fun v =>
    { v with vmexit := v.vmexit.add (vmExitIa32eMode ||| vmExitAckIntrOnExit) }
  modifyVars fun v =>
    { v with vmexit := v.vmexit.add (vmExitSaveGuestPat ||| vmExitLoadHostPat) }
  vmwriteCtl .vmExitControls VmxVars.vmexit
  modifyVars fun v => { v with vmentry := v.vmentry.add vmEntryLoadGuestPat }
  vmwriteCtl .vmEntryControls VmxVars.vmentry
  vmcsInitHostEnv

end Mavmm
