import Mavmm.E820
import Mavmm.Lib.Exec
import Mavmm.Lib.FlatTable
import Mavmm.Segment

/-!
# The monitored machine (vm.h, vmcb.h, vm.c)

The control block with the fields the handlers use, the guest's registers and
memory, and what the monitor keeps about its guest: the features that were
requested and skipped, and three tables that have one page each.

A handler is an action that logs its accesses, its answers and its output.  A
store past the page of a table is a fault.  Pointers the guest supplies are
followed in the whole address space.
-/

namespace Mavmm

/-! ## State -/

/-- `struct vmcb`. -/
structure Vmcb where
  crIntercepts : BitVec 32
  exceptionIntercepts : BitVec 32
  general1Intercepts : BitVec 32
  general2Intercepts : BitVec 32
  exitcode : BitVec 64
  exitinfo1 : BitVec 64
  exitinfo2 : BitVec 64
  eventinj : BitVec 64
  csSel : BitVec 16
  ssSel : BitVec 16
  dsSel : BitVec 16
  gdtrBase : BitVec 64
  trSel : BitVec 16
  cpl : BitVec 8
  efer : BitVec 64
  cr4 : BitVec 64
  cr3 : BitVec 64
  cr0 : BitVec 64
  rflags : BitVec 64
  rip : BitVec 64
  rsp : BitVec 64
  rax : BitVec 64
  sysenterCs : BitVec 64
  sysenterEsp : BitVec 64
  sysenterEip : BitVec 64
  cr2 : BitVec 64

/-- The guest registers `g_rbx` to `g_rbp`. -/
structure GuestRegs where
  rbx : BitVec 64
  rcx : BitVec 64
  rdx : BitVec 64
  rsi : BitVec 64
  rdi : BitVec 64
  rbp : BitVec 64

/-- `struct fid2name_map`, with the characters of the name up to its terminator. -/
structure Fid2nameMap where
  fid : BitVec 32
  fname : List Byte
deriving DecidableEq

/-- `struct syscall_info`, with a constructor for each of the ways the handlers fill it in.
A field that is not set there is never read. -/
inductive SyscallInfo where
  | read (arg : BitVec 64)
  | opened (arg : BitVec 64)
  | recvfrom (arg : BitVec 64) (datasize : BitVec 32)
  | other
deriving DecidableEq

/-- `struct tid2syscall_map`. -/
structure Tid2syscallMap where
  tid : BitVec 32
  info : SyscallInfo
deriving DecidableEq

/-- `struct vm_info`; the counters are the lengths of the tables. -/
structure VmInfo where
  orgSysenterCs : BitVec 64
  itcFlag : BitVec 32
  itcSkipFlag : BitVec 32
  fmap : List Fid2nameMap
  syscallmap : List Tid2syscallMap
  ptracked : List (List Byte)
  btrackcurrent : Bool

structure Machine where
  vm : VmInfo
  vmcb : Vmcb
  regs : GuestRegs
  mem : Mem

def Machine.space (m : Machine) : AddressSpace where
  cr0 := m.vmcb.cr0
  cr3 := m.vmcb.cr3
  cr4 := m.vmcb.cr4
  gdtrBase := m.vmcb.gdtrBase
  mem := m.mem

/-! ## What a handler logs -/

/-- The pages that `vm_create` allocates for the tables. -/
inductive TablePage where
  | fmap
  | syscallmap
  | ptracked
deriving DecidableEq

/-- An argument of `outf`: an integer, a string of the monitor, or a string of the guest at an
offset from a translated address. -/
inductive OutArg where
  | word (w : BitVec 64)
  | int (w : BitVec 32)
  | text (s : String)
  | name (s : List Byte)
  | str (p : Addr) (off : Nat)

/-- How far an access through a pointer goes: `len` bytes at an offset, or the string there up
to its terminator. -/
inductive Extent where
  | bytes (off len : Nat)
  | string (off : Nat)
deriving DecidableEq

inductive Event where
  /-- An access through an address that `glogic_2_hphysic` gave. -/
  | deref (p : Addr) (x : Extent)
  /-- A descriptor is read for a translation. -/
  | descriptor (p : Addr)
  /-- A word of the guest's page directory is rewritten. -/
  | dirWord (a : Addr)
  /-- A store of `len` bytes at an offset in the page of a table. -/
  | slot (page : TablePage) (off len : Nat)
  /-- An answer of `vm_get_fname_from_id`. -/
  | fname (id : BitVec 32) (name : Option (List Byte))
  | out (fmt : String) (args : List OutArg)

abbrev Look := Probe Fault Event Machine
abbrev Handler := Exec Fault Event Machine

def OutArg.deref : OutArg → Option Event
  | .str p off => some (.deref p (.string off))
  | _ => none

def outf (fmt : String) (args : List OutArg) : Look Unit :=
  Probe.log (args.filterMap OutArg.deref ++ [.out fmt args])

/-- A call of `outf` under a condition. -/
def outfWhen (c : Prop) [Decidable c] (fmt : String) (args : List OutArg) : Look Unit :=
  if c then outf fmt args else pure ()

/-- A load of a word of `n` bits at an offset from a translated address. -/
def loadAt {n : Nat} (load : Mem → Addr → BitVec n) (p : Addr) (off : Nat) : Look (BitVec n) := do
  Probe.log [.deref p (.bytes off (n / 8))]
  Probe.read fun m => load m.mem (p + BitVec.ofNat 64 off)

/-- `glogic_2_hphysic` on the current guest state. -/
def translate (segSelect : BitVec 16) (offset : BitVec 64) : Look Addr := do
  let as ← Probe.read Machine.space
  Probe.log ((gdtentryRead as segSelect).toList.map Event.descriptor)
  Probe.ofExcept fun m => glogic2Hphysic m.space segSelect offset

def fault {α : Type} (f : Fault) : Look α := Probe.ofExcept fun _ => .error f

def modifyVmcb (f : Vmcb → Vmcb) : Handler Unit := Exec.modify fun m => { m with vmcb := f m.vmcb }
def modifyVm (f : VmInfo → VmInfo) : Handler Unit := Exec.modify fun m => { m with vm := f m.vm }

/-! ## Flags -/

/-! What can be requested (user.h). -/

def userItcSwint : BitVec 32 := 1#32 <<< 0
def userItcTaskswitch : BitVec 32 := 1#32 <<< 1
def userItcSyscall : BitVec 32 := 1#32 <<< 2
def userItcIret : BitVec 32 := 1#32 <<< 3
def userSingleStepping : BitVec 32 := 1#32 <<< 4
def userUnpack : BitVec 32 := 1#32 <<< 5

/-! What the processor intercepts (intercept.h, cpu.h). -/

def intrcptWriteCr3 : BitVec 32 := 1#32 <<< 19
def intrcptDb : BitVec 32 := 1#32 <<< 1
def intrcptPf : BitVec 32 := 1#32 <<< 14
def intrcptIret : BitVec 32 := 1#32 <<< 20
def intrcptPopf : BitVec 32 := 1#32 <<< 17
def intrcptIntn : BitVec 32 := 1#32 <<< 21
def intrcptVmrun : BitVec 32 := 1#32 <<< 0
def intrcptVmmcall : BitVec 32 := 1#32 <<< 1
def x86RflagsTf : BitVec 64 := 1#64 <<< 8

/-- A test `flags & mask`. -/
def has {n : Nat} (flags mask : BitVec n) : Bool := flags &&& mask ≠ 0#n

/-- `word |= mask` under a condition. -/
def setWhen {n : Nat} (c : Bool) (mask word : BitVec n) : BitVec n :=
  if c then word ||| mask else word

/-- `word &= ~mask` under a condition. -/
def clearWhen {n : Nat} (c : Bool) (mask word : BitVec n) : BitVec n :=
  if c then word &&& ~~~mask else word

/-! ## Protection of the guest's pages -/

def directoryWord (cr3 : BitVec 64) (index : Nat) : Addr := cr3 + BitVec.ofNat 64 (index * 4)

/-- The loop over the 1024 words of a page directory. -/
def updateDirectory (f : BitVec 32 → BitVec 32) (cr3 : BitVec 64) (mem : Mem) : Mem :=
  (List.range 1024).foldl (fun mem index =>
    mem.store32 (directoryWord cr3 index) (f (mem.load32 (directoryWord cr3 index)))) mem

def updateGuestDirectory (f : BitVec 32 → BitVec 32) : Handler Unit := do
  Exec.probe do
    let cr3 ← Probe.read fun m => m.vmcb.cr3
    Probe.log ((List.range 1024).map fun index => .dirWord (directoryWord cr3 index))
  Exec.modify fun m => { m with mem := updateDirectory f m.vmcb.cr3 m.mem }

/-- `vm_protect_all_nonPAE_guestpage`. -/
def vmProtectAllNonpaeGuestpage : Handler Unit := do
  outf "protect all GUEST pages\n" []
  updateGuestDirectory fun e => e &&& (0xffffffff#32 - BitVec.ofNat 32 pttefRw)

/-- `vm_unprotect_all_nonPAE_guestpage`. -/
def vmUnprotectAllNonpaeGuestpage : Handler Unit := do
  outf "unprotect all GUEST pages\n" []
  updateGuestDirectory fun e => e ||| BitVec.ofNat 32 pttefRw

/-! ## Intercepts -/

/-- What `vm_disable_intercept` does to the control block. -/
def Vmcb.disableIntercept (flags : BitVec 32) (c : Vmcb) : Vmcb := { c with
  exceptionIntercepts :=
    clearWhen (has flags userSingleStepping) intrcptDb
      (clearWhen (has flags userUnpack) intrcptPf c.exceptionIntercepts)
  crIntercepts := clearWhen (has flags userItcTaskswitch) intrcptWriteCr3 c.crIntercepts
  general1Intercepts :=
    clearWhen (has flags userItcSyscall) intrcptIntn
      (clearWhen (has flags userItcIret) intrcptIret
        (clearWhen (has flags userItcSwint) intrcptIntn c.general1Intercepts))
  rflags := clearWhen (has flags userSingleStepping) x86RflagsTf c.rflags }

/-- What `vm_enable_intercept` does to the control block. -/
def Vmcb.enableIntercept (flags : BitVec 32) (c : Vmcb) : Vmcb := { c with
  exceptionIntercepts :=
    setWhen (has flags userSingleStepping) intrcptDb
      (setWhen (has flags userUnpack) intrcptPf c.exceptionIntercepts)
  crIntercepts := setWhen (has flags userItcTaskswitch) intrcptWriteCr3 c.crIntercepts
  general1Intercepts :=
    setWhen (has flags userItcSyscall) intrcptIntn
      (setWhen (has flags userItcIret) intrcptIret
        (setWhen (has flags userItcSwint) intrcptIntn c.general1Intercepts))
  rflags := setWhen (has flags userSingleStepping) x86RflagsTf c.rflags }

/-- `vm_disable_intercept`. -/
def vmDisableIntercept (flags : BitVec 32) : Handler Unit := do
  Exec.when (has flags userUnpack) vmUnprotectAllNonpaeGuestpage
  modifyVmcb (Vmcb.disableIntercept flags)

/-- `vm_enable_intercept`. -/
def vmEnableIntercept (flags : BitVec 32) : Handler Unit := do
  Exec.when (has flags userUnpack) vmProtectAllNonpaeGuestpage
  modifyVmcb (Vmcb.enableIntercept flags)

/-! ## Tables -/

/-- A store of `len` bytes at an offset in a table's page. -/
def storeSlot (page : TablePage) (off len : Nat) : Look Unit := do
  Probe.log [.slot page off len]
  if pageSize < off + len then fault .outOfBounds

/-- The characters before the terminator, of the first `n` at most. -/
def cstr (name : Nat → Byte) (n : Nat) : List Byte :=
  ((List.range n).map name).takeWhile fun c => c ≠ 0#8

/-! The sizes of the entries (`struct fid2name_map`, `struct tid2syscall_map`). -/

def vmMaxFilename : Nat := 20
def vmMaxPnameLen : Nat := 20
def sizeofFid2nameMap : Nat := 4 + vmMaxFilename
def sizeofSyscallInfo : Nat := 24
def sizeofTid2syscallMap : Nat := 8 + sizeofSyscallInfo

/-! ### File names -/

/-- `vm_add_fileid2name_map`. -/
def vmAddFileid2nameMap (id : BitVec 32) (name : Nat → Byte) : Handler Unit := do
  let next ← Exec.probe (Probe.read fun m => m.vm.fmap.length * sizeofFid2nameMap)
  storeSlot .fmap next 4
  storeSlot .fmap (next + 4) vmMaxFilename
  -- the last character is overwritten by the terminator
  storeSlot .fmap (next + 4 + (vmMaxFilename - 1)) 1
  modifyVm fun vm =>
    { vm with fmap := vm.fmap ++ [{ fid := id, fname := cstr name (vmMaxFilename - 1) }] }

/-- `vm_remove_fileid2name_map`. -/
def vmRemoveFileid2nameMap (id : BitVec 32) : Handler Unit :=
  modifyVm fun vm => { vm with fmap := FlatTable.remove Fid2nameMap.fid id vm.fmap }

def VmInfo.fnameFromId (vm : VmInfo) (id : BitVec 32) : Option (List Byte) :=
  (FlatTable.find Fid2nameMap.fid id vm.fmap).map Fid2nameMap.fname

/-- `vm_get_fname_from_id`. -/
def vmGetFnameFromId (id : BitVec 32) : Look (Option (List Byte)) := do
  let fname ← Probe.read fun m => m.vm.fnameFromId id
  Probe.log [.fname id fname]
  return fname

/-! ### Waiting threads -/

/-- `vm_add_waiting_thread`. -/
def vmAddWaitingThread (tid : BitVec 32) (info : SyscallInfo) : Handler Unit := do
  let newentry ← Exec.probe (Probe.read fun m => m.vm.syscallmap.length * sizeofTid2syscallMap)
  storeSlot .syscallmap newentry 4
  storeSlot .syscallmap (newentry + 8) sizeofSyscallInfo
  modifyVm fun vm => { vm with syscallmap := vm.syscallmap ++ [{ tid, info }] }

/-- `vm_remove_waiting_thread`. -/
def vmRemoveWaitingThread (tid : BitVec 32) : Handler Unit :=
  modifyVm fun vm => { vm with syscallmap := FlatTable.remove Tid2syscallMap.tid tid vm.syscallmap }

def VmInfo.waitingSyscall (vm : VmInfo) (tid : BitVec 32) : Option SyscallInfo :=
  (FlatTable.find Tid2syscallMap.tid tid vm.syscallmap).map Tid2syscallMap.info

/-- `vm_get_waiting_syscall`. -/
def vmGetWaitingSyscall (tid : BitVec 32) : Look (Option SyscallInfo) :=
  Probe.read fun m => m.vm.waitingSyscall tid

/-! ### Tracked processes -/

/-- The length of the string at `p`, or none if it has no end. -/
def strlen (mem : Mem) (p : Addr) : (fuel : Nat) → Option Nat
  | 0 => none
  | fuel + 1 => if mem p = 0#8 then some 0 else (strlen mem (p + 1#64) fuel).map (· + 1)

/-- `strcmp (name, p) == 0`. -/
def strEqual (mem : Mem) (name : List Byte) (p : Addr) : Bool :=
  (name ++ [0#8]).zipIdx.all fun c => mem (p + BitVec.ofNat 64 c.2) = c.1

/-- How many characters at `p` are read by `strcmp (name, p)`. -/
def strcmpReads (mem : Mem) : (name : List Byte) → (p : Addr) → Nat
  | [], _ => 1
  | c :: name, p => if mem p = c then strcmpReads mem name (p + 1#64) + 1 else 1

/-- The names that are compared with the string at `p`, up to the first that is equal. -/
def comparedNames (mem : Mem) (p : Addr) : List (List Byte) → List (List Byte)
  | [] => []
  | name :: names => name :: if strEqual mem name p then [] else comparedNames mem p names

/-- `vm_is_process_tracked`; what follows its first `return` is never reached. -/
def vmIsProcessTracked (_vm : VmInfo) (_pname : Addr) : Bool := true

/-- `vm_add_tracked_process`. -/
def vmAddTrackedProcess (pname : Addr) : Handler Unit := do
  let tracked ← Exec.probe (Probe.read fun m => vmIsProcessTracked m.vm pname)
  Exec.when (¬ tracked) do
    let nextSlot ← Exec.probe (Probe.read fun m => m.vm.ptracked.length * vmMaxPnameLen)
    Exec.probe (Probe.log [.deref pname (.string 0)])
    match ← Exec.probe (Probe.read fun m => strlen m.mem pname (2 ^ 64)) with
    | none => Exec.probe (fault .diverges)
    | some len =>
      storeSlot .ptracked nextSlot (len + 1)
      Exec.modify fun m =>
        let name := (List.range len).map fun k => m.mem (pname + BitVec.ofNat 64 k)
        { m with vm := { m.vm with ptracked := m.vm.ptracked ++ [name] } }

/-- `vm_remove_tracked_process`; the loop ends with the first name that is equal. -/
def vmRemoveTrackedProcess (pname : Addr) : Handler Unit := do
  Exec.probe do
    let m ← Probe.read id
    Probe.log ((comparedNames m.mem pname m.vm.ptracked).map fun name =>
      .deref pname (.bytes 0 (strcmpReads m.mem name pname)))
  Exec.modify fun m =>
    { m with vm := { m.vm with
        ptracked := m.vm.ptracked.eraseP fun name => strEqual m.mem name pname } }

/-! ## Start -/

/-- The characters of a string of the monitor. -/
def literal (s : String) (k : Nat) : Byte :=
  match s.toList[k]? with
  | some c => BitVec.ofNat 8 c.toNat
  | none => 0#8

/-- `initialize_fid2name_map`. -/
def initializeFid2nameMap : Handler Unit := do
  modifyVm fun vm => { vm with fmap := [] }
  vmAddFileid2nameMap 0#32 (literal "stdin")
  vmAddFileid2nameMap 1#32 (literal "stdout")
  vmAddFileid2nameMap 2#32 (literal "stderr")

/-- `initialize_syscallmap`. -/
def initializeSyscallmap : Handler Unit := modifyVm fun vm => { vm with syscallmap := [] }

/-- `initialize_ptracked_list`. -/
def initializePtrackedList : Handler Unit :=
  modifyVm fun vm => { vm with btrackcurrent := false, ptracked := [] }

/-- `vm_create` without the nested page table; each of the three tables is in a page of its
own. -/
def vmCreate : Handler Unit := do
  outf "\n++++++ Initializing guest VM info....\n" []
  modifyVm fun _ =>
    { orgSysenterCs := 0#64, itcFlag := 0#32, itcSkipFlag := 0#32, fmap := [], syscallmap := [],
      ptracked := [], btrackcurrent := false }
  initializeFid2nameMap
  initializeSyscallmap
  initializePtrackedList

/-- The control block as `alloc_vmcb`, `set_control_params` and `set_vm_to_mbr_start_state`
leave it in a page of its own. -/
def Vmcb.mbrStart : Vmcb where
  crIntercepts := 0#32
  exceptionIntercepts := 0#32
  general1Intercepts := 0#32
  general2Intercepts := intrcptVmrun ||| intrcptVmmcall
  exitcode := 0#64
  exitinfo1 := 0#64
  exitinfo2 := 0#64
  eventinj := 0#64
  csSel := 0#16
  ssSel := 0#16
  dsSel := 0x0040#16
  gdtrBase := 0x06e127#64
  trSel := 0#16
  cpl := 0#8
  -- EFER_SVME
  efer := 0x1000#64
  cr4 := 0#64
  cr3 := 0#64
  cr0 := 0x10#64
  rflags := 0x2206#64
  rip := 0x7c00#64
  rsp := 0x3e2#64
  rax := 0#64
  sysenterCs := 0#64
  sysenterEsp := 0#64
  sysenterEip := 0#64
  cr2 := 0#64

/-- The machine when the guest is started: `vm_create`, then `init_amd`.  The three tables and the
control block are taken to be in separate pages; `alloc_host_pages` gives all of them page 32
(`startVmm_unprotected`). -/
def Booted (m : Machine) : Prop :=
  ∃ blank m' : Machine, vmCreate.Returns blank () m' ∧ m = { m' with vmcb := .mbrStart }

end Mavmm
