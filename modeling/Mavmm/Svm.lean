import Mavmm.Cpu
import Mavmm.Lib.Record
import Mavmm.VmcbCheck
import Mavmm.VmxSetup

/-!
# Starting SVM (vmcb.h, svm.c, vm.c)

`vm_init` identifies the processor and calls `init_amd` or `init_intel`.  On an
AMD processor `init_amd` turns SVM on, allocates the host save area and the
control block, and fills the control block in memory: `struct vmcb` is packed,
and here it is a record of its fields, the reserved ones included.

An action logs the registers that are written with `wrmsr`.  The output of
`outf` is left out.
-/

namespace Mavmm

/-! ## The control block (vmcb.h) -/

inductive VmcbSeg where
  | es
  | cs
  | ss
  | ds
  | fs
  | gs
  | gdtr
  | ldtr
  | idtr
  | tr
deriving DecidableEq

/-- The fields of `struct seg_selector`. -/
inductive SegPart where
  | sel
  | attrs
  | limit
  | base
deriving DecidableEq

inductive VmcbField where
  | crIntercepts
  | drIntercepts
  | exceptionIntercepts
  | general1Intercepts
  | general2Intercepts
  | res01
  | res02
  | res03
  | res04
  | res05
  | res06
  | res06a
  | pauseFilterCount
  | iopmBasePa
  | msrpmBasePa
  | tscOffset
  | guestAsid
  | tlbControl
  | res07
  | vintr
  | interruptShadow
  | exitcode
  | exitinfo1
  | exitinfo2
  | exitintinfo
  | npEnable
  | res08
  | eventinj
  | nCr3
  | lbrControl
  | res09
  | nextrip
  | res10a
  | seg (s : VmcbSeg) (part : SegPart)
  | res10
  | res11
  | cpl
  | res12
  | efer
  | res13
  | cr4
  | cr3
  | cr0
  | dr7
  | dr6
  | rflags
  | rip
  | res14
  | rsp
  | res15
  | rax
  | star
  | lstar
  | cstar
  | sfmask
  | kerngsbase
  | sysenterCs
  | sysenterEsp
  | sysenterEip
  | cr2
  | pdpe0
  | pdpe1
  | pdpe2
  | pdpe3
  | gPat
  | debugctlmsr
  | lastbranchfromip
  | lastbranchtoip
  | lastintfromip
  | lastinttoip
  | res16
deriving DecidableEq

def SegPart.width : SegPart → Nat
  | .sel => 2
  | .attrs => 2
  | .limit => 4
  | .base => 8

namespace VmcbField

def width : VmcbField → Nat
  | crIntercepts | drIntercepts | exceptionIntercepts | general1Intercepts
  | general2Intercepts | res01 | res06 | guestAsid | res12 => 4
  | res06a | pauseFilterCount => 2
  | tlbControl | cpl => 1
  | res07 | res11 => 3
  | seg _ part => part.width
  | res08 => 2 * 8
  | res10a => 102 * 8
  | res10 => 5 * 8
  | res13 => 14 * 8
  | res14 => 11 * 8
  | res15 => 3 * 8
  | res16 => 301 * 8
  | _ => 8

/-- The registers of type `svm_segment_register_t`. -/
def segments : List VmcbField :=
  [.es, .cs, .ss, .ds, .fs, .gs, .gdtr, .ldtr, .idtr, .tr].flatMap fun s =>
    [seg s .sel, seg s .attrs, seg s .limit, seg s .base]

/-- The fields in the order of their declaration. -/
def all : List VmcbField :=
  [crIntercepts, drIntercepts, exceptionIntercepts, general1Intercepts, general2Intercepts,
    res01, res02, res03, res04, res05, res06, res06a, pauseFilterCount, iopmBasePa, msrpmBasePa,
    tscOffset, guestAsid, tlbControl, res07, vintr, interruptShadow, exitcode, exitinfo1,
    exitinfo2, exitintinfo, npEnable, res08, eventinj, nCr3, lbrControl, res09, nextrip,
    res10a] ++ segments ++
  [res10, res11, cpl, res12, efer, res13, cr4, cr3, cr0, dr7, dr6, rflags, rip, res14, rsp,
    res15, rax, star, lstar, cstar, sfmask, kerngsbase, sysenterCs, sysenterEsp, sysenterEip, cr2,
    pdpe0, pdpe1, pdpe2, pdpe3, gPat, debugctlmsr, lastbranchfromip, lastbranchtoip,
    lastintfromip, lastinttoip, res16]

theorem mem_segments (s : VmcbSeg) (part : SegPart) : seg s part ∈ segments := by
  refine List.mem_flatMap.mpr ⟨s, ?_, ?_⟩
  · cases s <;> decide
  · cases part <;> simp

theorem mem_all (f : VmcbField) : f ∈ all := by
  cases f with
  | seg s part => exact List.mem_append_left _ (List.mem_append_right _ (mem_segments s part))
  | _ => decide

end VmcbField

/-- `struct vmcb` in memory. -/
def vmcbRecord : Record VmcbField where
  width := VmcbField.width
  fields := VmcbField.all
  complete := VmcbField.mem_all
  size_le := by decide

theorem size_vmcbRecord : vmcbRecord.size = 4096 := by decide

/-- The offsets that the comments of vmcb.h give. -/
example : [VmcbField.crIntercepts, .general2Intercepts, .iopmBasePa, .msrpmBasePa, .guestAsid,
    .vintr, .exitcode, .npEnable, .eventinj, .nCr3, .res10a, .seg .es .sel, .efer, .cr4].map
      vmcbRecord.offset =
    [0x00, 0x10, 0x40, 0x48, 0x58, 0x60, 0x70, 0x90, 0xa8, 0xb0, 0xd0, 1024, 1024 + 0xd0,
      1024 + 0x148] := by decide

/-! ### What the monitor reads of it -/

section
variable (read : (f : VmcbField) → BitVec (8 * f.width))

/-- The fields that the handlers use. -/
def Vmcb.ofFields : Vmcb where
  crIntercepts := read .crIntercepts
  exceptionIntercepts := read .exceptionIntercepts
  general1Intercepts := read .general1Intercepts
  general2Intercepts := read .general2Intercepts
  exitcode := read .exitcode
  exitinfo1 := read .exitinfo1
  exitinfo2 := read .exitinfo2
  eventinj := read .eventinj
  csSel := read (.seg .cs .sel)
  ssSel := read (.seg .ss .sel)
  dsSel := read (.seg .ds .sel)
  gdtrBase := read (.seg .gdtr .base)
  trSel := read (.seg .tr .sel)
  cpl := read .cpl
  efer := read .efer
  cr4 := read .cr4
  cr3 := read .cr3
  cr0 := read .cr0
  rflags := read .rflags
  rip := read .rip
  rsp := read .rsp
  rax := read .rax
  sysenterCs := read .sysenterCs
  sysenterEsp := read .sysenterEsp
  sysenterEip := read .sysenterEip
  cr2 := read .cr2

/-- The fields that `vmcb_check_consistency` reads. -/
def VmcbChecked.ofFields : VmcbChecked where
  toVmcb := Vmcb.ofFields read
  csAttrs := read (.seg .cs .attrs)
  dr7 := read .dr7
  dr6 := read .dr6

end

/-! ## State -/

/-- What `vm->vm_run` and `vm->vm_exit` may point to. -/
inductive VmHandler where
  | svmRun
  | handleVmexit
deriving DecidableEq

/-- What `vm_init` works on: `cpuinfo`, the state shared with `init_intel`, the fields of
`struct vm_info` for AMD processors, and `host_save_area`. -/
structure InitState where
  cpuinfo : CpuinfoX86
  setup : VmxSetup
  vmcb : Addr
  vmRun : Option VmHandler
  vmExit : Option VmHandler
  hostSaveArea : Addr

inductive InitEvent where
  | wrmsr (msr : BitVec 32) (value : BitVec 64)
  | vmx (e : VmxEvent)
deriving DecidableEq

abbrev InitM := Exec VmxFault InitEvent InitState

namespace InitState

def msrs (s : InitState) : Msrs := s.setup.vmx.msrs
def host (s : InitState) : Host := s.setup.vmx.host
def mem (s : InitState) : Mem := s.host.mem
def nalloc (s : InitState) : NaiveAllocator := s.host.nalloc
def nCr3 (s : InitState) : BitVec 64 := s.setup.vmx.nCr3

def setCpuinfo (f : CpuinfoX86 → CpuinfoX86) (s : InitState) : InitState :=
  { s with cpuinfo := f s.cpuinfo }

def setSetup (setup : VmxSetup) (s : InitState) : InitState := { s with setup }

def setHost (host : Host) (s : InitState) : InitState :=
  s.setSetup (s.setup.setVmx (s.setup.vmx.setHost host))

def setHostSaveArea (hostSaveArea : Addr) (s : InitState) : InitState := { s with hostSaveArea }
def setVmcb (vmcb : Addr) (s : InitState) : InitState := { s with vmcb }

/-- `vm->vm_run` and `vm->vm_exit` point to the functions for AMD processors. -/
def setHandlers (s : InitState) : InitState :=
  { s with vmRun := some .svmRun, vmExit := some .handleVmexit }

def setMsr (msr : BitVec 32) (value : BitVec 64) (s : InitState) : InitState :=
  s.setSetup (s.setup.setVmx { s.setup.vmx with msrs := Function.update s.msrs msr value })

end InitState

def modifyCpuinfo (f : CpuinfoX86 → CpuinfoX86) : InitM Unit :=
  Exec.modify (InitState.setCpuinfo f)

/-- An action on the memory and the allocator. -/
def onMemory {α : Type} (x : HostM α) : InitM α :=
  Exec.within InitState.setup InitState.setSetup InitEvent.vmx id (onVmx (onHost x))

def wrmsr (msr : BitVec 32) (low high : BitVec 32) : InitM Unit := do
  Exec.probe (Probe.log [.wrmsr msr (high ++ low)])
  Exec.modify (InitState.setMsr msr (high ++ low))

def initFatal {α : Type} (msg : String) : InitM α :=
  Exec.probe (Probe.ofExcept fun _ => .error (.monitor (.fatalFailure msg)))

/-! ## The functions of svm.c -/

def svmFeatureNpt : BitVec 32 := 1#32 <<< 0
def msrEfer : BitVec 32 := 0xc0000080#32
def msrK8VmHsavePa : BitVec 32 := 0xc0010117#32

/-- `alloc_host_save_area`. -/
def allocHostSaveArea : HostM Addr := fun host => do
  let (n, nalloc) ← allocHostPages 1#64 1#64 host.nalloc
  let hsa := n <<< pageShift
  return (hsa,
    { mem := if hsa ≠ 0#64 then host.mem.fill hsa pageSize 0#8 else host.mem, nalloc })

/-- `alloc_vmcb`. -/
def allocVmcb : HostM Addr := fun host => do
  let (pfn, nalloc) ← allocHostPages 1#64 1#64 host.nalloc
  let vmcb := pfn <<< pageShift
  return (vmcb, { mem := host.mem.fill vmcb vmcbRecord.size 0#8, nalloc })

/-- Stores to fields of the control block. -/
def storeVmcb (vmcb : Addr) (ws : List vmcbRecord.Write) : HostM Unit := fun host =>
  .ok ((), { host with mem := vmcbRecord.setAll vmcb ws host.mem })

/-- What `set_control_params` stores before the tables. -/
def controlParams : List vmcbRecord.Write :=
  [⟨.npEnable, 1#64⟩, ⟨.tlbControl, 0#8⟩, ⟨.tscOffset, 0#64⟩, ⟨.guestAsid, 1#32⟩,
    ⟨.general2Intercepts, intrcptVmrun ||| intrcptVmmcall⟩]

def setControlParams (vmcb : Addr) : HostM Unit := do
  storeVmcb vmcb controlParams
  let iopm ← createInterceptTable (12#64 <<< 10)
  storeVmcb vmcb [⟨.iopmBasePa, iopm⟩]
  let msrpm ← createInterceptTable (8#64 <<< 10)
  storeVmcb vmcb [⟨.msrpmBasePa, msrpm⟩]

/-- What `set_vm_to_mbr_start_state` stores. -/
def mbrStartFields : List vmcbRecord.Write :=
  [⟨.rax, 0#64⟩, ⟨.rip, 0x7c00#64⟩, ⟨.seg .cs .attrs, 0x019b#16⟩, ⟨.seg .cs .limit, 0xffff#32⟩,
    ⟨.seg .cs .base, 0#64⟩, ⟨.seg .cs .sel, 0#16⟩, ⟨.seg .ds .sel, 0x0040#16⟩,
    ⟨.seg .fs .sel, 0xe717#16⟩, ⟨.seg .gs .sel, 0xf000#16⟩] ++
  [VmcbSeg.ss, .ds, .es, .fs, .gs].flatMap (fun x =>
    [⟨.seg x .attrs, 0x93#16⟩, ⟨.seg x .base, 0#64⟩, ⟨.seg x .limit, 0xffff#32⟩]) ++
  [⟨.rsp, 0x000003e2#64⟩, ⟨.seg .ss .attrs, 0x193#16⟩, ⟨.seg .ds .base, 0o400#64⟩,
    ⟨.seg .fs .base, 0xe7170#64⟩, ⟨.seg .gs .base, 0xf0000#64⟩, ⟨.efer, eferSvme⟩,
    ⟨.cr0, 0x10#64⟩, ⟨.seg .idtr .limit, 0x3ff#32⟩, ⟨.seg .idtr .base, 0#64⟩,
    ⟨.seg .gdtr .limit, 0x20#32⟩, ⟨.seg .gdtr .base, 0x06e127#64⟩, ⟨.rflags, 0x2206#64⟩,
    ⟨.cpl, 0#8⟩, ⟨.gPat, 0x7040600070406#64⟩]

def setVmToMbrStartState (vmcb : Addr) : HostM Unit := storeVmcb vmcb mbrStartFields

/-- The word that `enable_svm` fills is not the one that it tests. -/
def CpuinfoX86.fillFifth (cpuid : Cpuid) (c : CpuinfoX86) : CpuinfoX86 := { c with
  x86Capability := Function.update c.x86Capability 5 (cpuid 0x80000001#32).ecx }

/-- `enable_svm`. -/
def enableSvm (cpuid : Cpuid) : InitM Unit := do
  modifyCpuinfo (CpuinfoX86.fillFifth cpuid)
  let c ← Exec.probe (Probe.read InitState.cpuinfo)
  Exec.when (¬ c.testBit x86FeatureSvm) (initFatal "No svm feature!\n")
  let np := (cpuid 0x8000000a#32).edx &&& svmFeatureNpt
  Exec.when (np = 0#32) (initFatal "Nested paging is not supported.\n")
  let msrs ← Exec.probe (Probe.read InitState.msrs)
  wrmsr msrEfer (msrLow msrs msrEfer ||| eferSvme.setWidth 32) (msrHigh msrs msrEfer)
  let hsa ← onMemory allocHostSaveArea
  Exec.modify (InitState.setHostSaveArea hsa)
  wrmsr msrK8VmHsavePa (hsa.setWidth 32) ((hsa >>> 32).setWidth 32)

/-- The part of `init_amd` before `enable_svm`. -/
def amdFlags (cpuid : Cpuid) (c : CpuinfoX86) : CpuinfoX86 :=
  let c := c.clearBit (0 * 32 + 31)
  let level := (cpuid 1#32).eax
  let c := if (level ≥ 0x0f48#32 ∧ level < 0x0f50#32) ∨ level ≥ 0x0f58#32 then
    c.setBit x86FeatureRepGood else c
  (c.setBit x86FeatureFxsaveLeak).displayCacheinfo cpuid

/-- `init_amd`. -/
def initAmd (cpuid : Cpuid) : InitM Unit := do
  modifyCpuinfo (amdFlags cpuid)
  enableSvm cpuid
  let vmcb ← onMemory allocVmcb
  Exec.modify (InitState.setVmcb vmcb)
  let nCr3 ← Exec.probe (Probe.read InitState.nCr3)
  onMemory (storeVmcb vmcb [⟨.nCr3, nCr3⟩])
  onMemory (setControlParams vmcb)
  onMemory (setVmToMbrStartState vmcb)
  Exec.modify InitState.setHandlers

/-- `vm_init`; `cpu` answers the VMX instructions. -/
def vmInit (cpuid : Cpuid) (cpu : VmxCpu) : InitM Unit := do
  modifyCpuinfo (CpuinfoX86.earlyIdentifyCpu cpuid)
  let c ← Exec.probe (Probe.read InitState.cpuinfo)
  if c.x86Vendor = x86VendorAmd then initAmd cpuid
  else if c.x86Vendor = x86VendorIntel then
    Exec.within InitState.setup InitState.setSetup InitEvent.vmx id
      (initIntel { cpu with cpuidEcx := (cpuid 1#32).ecx })
  else initFatal "Unknown CPU vendor\n"

end Mavmm
