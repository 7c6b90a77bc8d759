import Mavmm.GuestPaging
import Mavmm.Vmx

/-!
# Starting VMX (vmx.c, vmcs.c)

`init_intel` allocates the VMXON region and the VMCS, turns VMX operation on and
fills the VMCS.  `vmx_add_guest_msr` and `vmx_add_host_load_msr` add an entry to
an area that they allocate the first time.

An action logs what the processor is given: the operands of the VMX
instructions, the VMCS fields that are written, and each store to an MSR area.
The processor's answers are a parameter.
-/

namespace Mavmm

/-! ## State -/

/-- An area of `struct vmx_msr_entry` and the number of its entries. -/
structure MsrArea where
  area : BitVec 64
  count : BitVec 32
deriving DecidableEq

/-- The two areas: `msr_area` and `host_msr_area`. -/
inductive MsrList where
  | guest
  | hostLoad
deriving DecidableEq

/-- What the functions here share: the fields of `struct vm_info` for Intel processors, and
`vmx_on_region`. -/
structure VmxSetup where
  vmx : VmxState
  vmxOnRegion : BitVec 64
  vmcs : BitVec 64
  msrs : MsrArea
  hostMsrs : MsrArea

/-- The fields of the VMCS that have the MSR areas, and those that
`vmx_set_vm_to_mbr_start_state` writes. -/
inductive StartField where
  | vmExitMsrStoreAddr
  | vmExitMsrLoadAddr
  | vmEntryMsrLoadAddr
  | vmExitMsrLoadCount
  | vmExitMsrStoreCount
  | vmEntryMsrLoadCount
  | vmEntryIntrInfo
  | cr0GuestHostMask
  | cr4GuestHostMask
  | pageFaultErrorCodeMask
  | pageFaultErrorCodeMatch
  | cr3TargetCount
  | guestActivityState
  | guestEsBase
  | guestSsBase
  | guestDsBase
  | guestFsBase
  | guestGsBase
  | guestCsBase
  | guestEsLimit
  | guestSsLimit
  | guestDsLimit
  | guestFsLimit
  | guestGsLimit
  | guestCsLimit
  | guestEsArBytes
  | guestSsArBytes
  | guestDsArBytes
  | guestFsArBytes
  | guestGsArBytes
  | guestCsArBytes
  | guestEsSelector
  | guestSsSelector
  | guestDsSelector
  | guestFsSelector
  | guestGsSelector
  | guestCsSelector
  | guestIdtrBase
  | guestIdtrLimit
  | guestGdtrBase
  | guestGdtrLimit
  | guestLdtrArBytes
  | guestLdtrSelector
  | guestLdtrBase
  | guestLdtrLimit
  | guestTrArBytes
  | guestTrBase
  | guestTrLimit
  | guestInterruptibilityInfo
  | guestDr7
  | vmcsLinkPointer
  | exceptionBitmap
  | guestCr0
  | guestCr3
  | guestCr4
  | hostPat
  | guestPat
  | guestRsp
  | guestRflags
  | guestRip
deriving DecidableEq

/-- What the processor sees of the monitor's work. -/
inductive VmxEvent where
  | vmwrite (w : Vmwrite)
  | vmwriteStart (field : StartField) (value : BitVec 64)
  | vmxon (addr : BitVec 64)
  | vmpclear (addr : BitVec 64)
  | vmptrld (addr : BitVec 64)
  | store (list : MsrList) (addr : BitVec 64) (size : Nat)
deriving DecidableEq

/-- Besides the faults of the functions called here: the `ud2` after a VMX instruction that
fails. -/
inductive VmxFault where
  | monitor (f : Fault)
  | ud2
deriving DecidableEq

abbrev SetupM := Exec VmxFault VmxEvent VmxSetup

/-- The processor: what `cpuid_ecx (1)` gives, what `__vmxon` returns, and whether VMCLEAR and
VMPTRLD succeed. -/
structure VmxCpu where
  cpuidEcx : BitVec 32
  vmxon : Mem → BitVec 64 → BitVec 32
  vmclear : Mem → BitVec 64 → Bool
  vmptrld : Mem → BitVec 64 → Bool

namespace VmxSetup

def setVmx (vmx : VmxState) (s : VmxSetup) : VmxSetup := { s with vmx }
def setVmxOnRegion (vmxOnRegion : BitVec 64) (s : VmxSetup) : VmxSetup := { s with vmxOnRegion }
def setVmcs (vmcs : BitVec 64) (s : VmxSetup) : VmxSetup := { s with vmcs }

def mem (s : VmxSetup) : Mem := s.vmx.host.mem

def setMem (mem : Mem) (s : VmxSetup) : VmxSetup :=
  { s with vmx := s.vmx.setHost { s.vmx.host with mem } }

def msrArea (s : VmxSetup) : MsrList → MsrArea
  | .guest => s.msrs
  | .hostLoad => s.hostMsrs

def setMsrArea (list : MsrList) (a : MsrArea) (s : VmxSetup) : VmxSetup :=
  match list with
  | .guest => { s with msrs := a }
  | .hostLoad => { s with hostMsrs := a }

/-- The state in which `init_intel` is called: `vm_create` has cleared `struct vm_info`. -/
def created (vmx : VmxState) : VmxSetup where
  vmx
  vmxOnRegion := 0#64
  vmcs := 0#64
  msrs := ⟨0#64, 0#32⟩
  hostMsrs := ⟨0#64, 0#32⟩

end VmxSetup

def onVmx {α : Type} (x : VmxM α) : SetupM α :=
  Exec.within VmxSetup.vmx VmxSetup.setVmx VmxEvent.vmwrite VmxFault.monitor x

def giveCpu (es : List VmxEvent) : SetupM Unit := Exec.probe (Probe.log es)

def setupFatal {α : Type} (msg : String) : SetupM α :=
  Exec.probe (Probe.ofExcept fun _ => .error (.monitor (.fatalFailure msg)))

/-! ## The regions -/

/-- `alloc_vmcs`. -/
def allocVmcs : VmxM (BitVec 64) := do
  let revision ← Exec.probe (Probe.read fun s => s.vars.vmcsRevisionId)
  onHost fun host => do
    let (pfn, nalloc) ← allocHostPages 1#64 1#64 host.nalloc
    let vmcs := pfn <<< pageShift
    -- page 0 is cleared too, before the test for NULL
    let mem := host.mem.fill vmcs pageSize 0#8
    return (vmcs, { mem := if vmcs ≠ 0#64 then mem.store32 vmcs revision else mem, nalloc })

/-- `create_vmcs`. -/
def createVmcs : VmxM (BitVec 64) := do
  let v ← Exec.probe (Probe.read VmxState.vars)
  if (v.basicMsrHigh &&& 0x1fff#32).toNat > pageSize then return 0#64
  if has v.basicMsrHigh (1#32 <<< 16) then return 0#64
  if (v.basicMsrHigh >>> 18) &&& 15#32 ≠ 6#32 then return 0#64
  allocVmcs

/-- `__vmxon`. -/
def vmxon (cpu : VmxCpu) (addr : BitVec 64) : SetupM (BitVec 32) := do
  giveCpu [.vmxon addr]
  Exec.probe (Probe.read fun s => cpu.vmxon s.mem addr)

/-- `__vmpclear` and `__vmptrld`. -/
def vmcsInstr (event : BitVec 64 → VmxEvent) (succeeds : Mem → BitVec 64 → Bool)
    (addr : BitVec 64) : SetupM Unit := do
  giveCpu [event addr]
  Exec.probe (Probe.ofExcept fun s => if succeeds s.mem addr then .ok () else .error .ud2)

def vmpclear (cpu : VmxCpu) : BitVec 64 → SetupM Unit := vmcsInstr .vmpclear cpu.vmclear
def vmptrld (cpu : VmxCpu) : BitVec 64 → SetupM Unit := vmcsInstr .vmptrld cpu.vmptrld

/-! ## The start state -/

def x86Cr0Et : BitVec 64 := 0x10#64
def msrIa32CrPat : BitVec 32 := 0x277#32
def msrIa32CrPatReset : BitVec 64 := 0x0007040600070406#64

def mbrStartState (hostPat : BitVec 64) : List (StartField × BitVec 64) :=
  [(.vmExitMsrLoadCount, 0#64), (.vmExitMsrStoreCount, 0#64), (.vmEntryMsrLoadCount, 0#64),
   (.vmEntryIntrInfo, 0#64), (.cr0GuestHostMask, BitVec.allOnes 64),
   (.cr4GuestHostMask, BitVec.allOnes 64), (.pageFaultErrorCodeMask, 0#64),
   (.pageFaultErrorCodeMatch, 0#64), (.cr3TargetCount, 0#64), (.guestActivityState, 0#64),
   (.guestEsBase, 0#64), (.guestSsBase, 0#64), (.guestDsBase, 0o400#64),
   (.guestFsBase, 0xE7170#64), (.guestGsBase, 0xF0000#64), (.guestCsBase, 0#64),
   (.guestEsLimit, 0xffffffff#64), (.guestSsLimit, 0xffffffff#64),
   (.guestDsLimit, 0xffffffff#64), (.guestFsLimit, 0xffffffff#64),
   (.guestGsLimit, 0xffffffff#64), (.guestCsLimit, 0xffffffff#64),
   (.guestEsArBytes, 0x93#64), (.guestSsArBytes, 0x193#64), (.guestDsArBytes, 0x93#64),
   (.guestFsArBytes, 0x93#64), (.guestGsArBytes, 0x93#64), (.guestCsArBytes, 0x19b#64),
   (.guestEsSelector, 0#64), (.guestSsSelector, 0#64), (.guestDsSelector, 0x0040#64),
   (.guestFsSelector, 0xE717#64), (.guestGsSelector, 0xF000#64), (.guestCsSelector, 0#64),
   (.guestIdtrBase, 0#64), (.guestIdtrLimit, 0#64), (.guestGdtrBase, 0#64),
   (.guestGdtrLimit, 0#64), (.guestLdtrArBytes, 0x0082#64), (.guestLdtrSelector, 0#64),
   (.guestLdtrBase, 0#64), (.guestLdtrLimit, 0#64), (.guestTrArBytes, 0x008b#64),
   (.guestTrBase, 0#64), (.guestTrLimit, 0xff#64), (.guestInterruptibilityInfo, 0#64),
   (.guestDr7, 0#64), (.vmcsLinkPointer, BitVec.allOnes 64), (.exceptionBitmap, 0#64),
   (.guestCr0, x86Cr0Pe ||| x86Cr0Et), (.guestCr3, 0#64), (.guestCr4, 0#64),
   (.hostPat, hostPat), (.guestPat, msrIa32CrPatReset), (.guestRsp, 0x3E2#64),
   (.guestRflags, 0x2206#64), (.guestRip, 0x7C00#64)]

/-- `vmx_set_vm_to_mbr_start_state`. -/
def vmxSetVmToMbrStartState : SetupM Unit := do
  let hostPat ← Exec.probe (Probe.read fun s => s.vmx.msrs msrIa32CrPat)
  giveCpu ((mbrStartState hostPat).map fun w => .vmwriteStart w.1 w.2)

/-! ## `init_intel` -/

/-- `init_intel` as far as the VMXON region. -/
def createVmxonRegion (ecx : BitVec 32) : SetupM Unit := do
  onVmx (enableVmx ecx)
  let region ← onVmx allocVmcs
  Exec.modify (VmxSetup.setVmxOnRegion region)
  Exec.when (region = 0#64) (setupFatal "Failed to create VMXON region.\n")

def initIntel (cpu : VmxCpu) : SetupM Unit := do
  createVmxonRegion cpu.cpuidEcx
  -- the operand is not the region but the VMCS, which is not there yet
  let vmcs ← Exec.probe (Probe.read VmxSetup.vmcs)
  let rc ← vmxon cpu vmcs
  Exec.when (rc ≠ 0#32) (setupFatal "VMXON failure\n")
  let vmcs ← onVmx createVmcs
  Exec.when (vmcs = 0#64) (setupFatal "Failed to create VMCS.\n")
  Exec.modify (VmxSetup.setVmcs vmcs)
  vmpclear cpu vmcs
  vmptrld cpu vmcs
  onVmx vmxSetControlParams
  vmxSetVmToMbrStartState

/-! ## The MSR areas -/

/-- `sizeof (struct vmx_msr_entry)`. -/
def msrEntrySize : Nat := 16

/-- The address of `msr_area [i]`. -/
def msrEntryAt (area : BitVec 64) (i : Nat) : BitVec 64 := area + BitVec.ofNat 64 (msrEntrySize * i)

namespace MsrList

/-- The fields that are given the address of the area. -/
def addrFields : MsrList → List StartField
  | .guest => [.vmExitMsrStoreAddr, .vmEntryMsrLoadAddr]
  | .hostLoad => [.vmExitMsrLoadAddr]

/-- The fields that are given the number of entries. -/
def countFields : MsrList → List StartField
  | .guest => [.vmExitMsrStoreCount, .vmEntryMsrLoadCount]
  | .hostLoad => [.vmExitMsrLoadCount]

/-- The data of a new entry. -/
def data (msrs : Msrs) (msr : BitVec 32) : MsrList → BitVec 64
  | .guest => 0#64
  | .hostLoad => msrs msr

end MsrList

/-- The area, which is allocated the first time; 0 when there is no page. -/
def msrAreaFor (list : MsrList) : SetupM (BitVec 64) := do
  let a ← Exec.probe (Probe.read fun s => s.msrArea list)
  if a.area ≠ 0#64 then return a.area
  let area ← onVmx (onHost fun host => do
    let (pfn, nalloc) ← allocHostPages 1#64 1#64 host.nalloc
    -- the number of the page is taken for its address
    return (pfn, { host with nalloc }))
  if area = 0#64 then return 0#64
  Exec.modify (VmxSetup.setMsrArea list { a with area })
  giveCpu (list.addrFields.map fun f => .vmwriteStart f area)
  return area

/-- The search for an entry with the index `msr` among the first `count`. -/
def findMsr (mem : Mem) (area : BitVec 64) (msr : BitVec 32) (count : Nat) : Option Nat :=
  (List.range count).find? fun i => mem.load32 (msrEntryAt area i) = msr

/-- `msr_area [msr_count]` is filled, and the count goes up. -/
def appendMsr (list : MsrList) (area : BitVec 64) (msr : BitVec 32) : SetupM Unit := do
  let s ← Exec.probe (Probe.read id)
  let count := (s.msrArea list).count
  let entry := msrEntryAt area count.toNat
  let mem := s.mem.store32 entry msr
  let mem := mem.store32 (entry + 4#64) 0#32
  let mem := mem.store64 (entry + 8#64) (list.data s.vmx.msrs msr)
  giveCpu [.store list entry 4, .store list (entry + 4#64) 4, .store list (entry + 8#64) 8]
  Exec.modify (VmxSetup.setMem mem)
  Exec.modify (VmxSetup.setMsrArea list { area, count := count + 1#32 })
  giveCpu (list.countFields.map fun f => .vmwriteStart f ((count + 1#32).setWidth 64))

/-- The common shape of `vmx_add_guest_msr` and `vmx_add_host_load_msr`. -/
def vmxAddMsr (list : MsrList) (msr : BitVec 32) : SetupM Int := do
  let area ← msrAreaFor list
  if area = 0#64 then return -2
  let s ← Exec.probe (Probe.read id)
  let count := (s.msrArea list).count.toNat
  if (findMsr s.mem area msr count).isSome then return 0
  if count = pageSize / msrEntrySize then return -1
  appendMsr list area msr
  return 0

def vmxAddGuestMsr : BitVec 32 → SetupM Int := vmxAddMsr .guest
def vmxAddHostLoadMsr : BitVec 32 → SetupM Int := vmxAddMsr .hostLoad

/-- Any number of calls of the two functions. -/
def addMsrs : List (MsrList × BitVec 32) → SetupM Unit
  | [] => pure ()
  | (list, msr) :: calls => do
    let _ ← vmxAddMsr list msr
    addMsrs calls

/-- `init_intel`, and then calls of `vmx_add_guest_msr` and `vmx_add_host_load_msr`. -/
def setUpVmx (cpu : VmxCpu) (calls : List (MsrList × BitVec 32)) : SetupM Unit := do
  initIntel cpu
  addMsrs calls

end Mavmm
