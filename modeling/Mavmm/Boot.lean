import Mavmm.MapParsing
import Mavmm.NestedTable
import Mavmm.SvmStart

/-!
# From the boot loader to the guest (setup.c, vm.c)

`start_vmm` reads the map of the boot loader, sets up the allocator, creates the
virtual machine with its tables and initializes the processor.  Which maps it
comes through with is known exactly (`startVmm_boots_iff`), and in what state it
then enters `vm_boot` (`startVmm_unprotected`).

Output is left out, and so is the setup of the serial port.
-/

namespace Mavmm

/-! ## State -/

/-- What `start_vmm` works on.  The fields of `struct vm_info` that are addresses of tables stand
beside those that `vm_init` uses. -/
structure BootState where
  init : InitState
  fmap : Addr
  syscallmap : Addr
  ptracked : Addr

inductive BootEvent where
  | map (e : MapEvent)
  | init (e : InitEvent)
deriving DecidableEq

abbrev BootM := Exec VmxFault BootEvent BootState

namespace BootState

def mem (s : BootState) : Mem := s.init.mem
def nalloc (s : BootState) : NaiveAllocator := s.init.nalloc
def nCr3 (s : BootState) : BitVec 64 := s.init.nCr3

def setInit (init : InitState) (s : BootState) : BootState := { s with init }
def setHost (host : Host) (s : BootState) : BootState := s.setInit (s.init.setHost host)
def setNalloc (nalloc : NaiveAllocator) (s : BootState) : BootState := s.setHost ⟨s.mem, nalloc⟩
def setFmap (fmap : Addr) (s : BootState) : BootState := { s with fmap }
def setSyscallmap (syscallmap : Addr) (s : BootState) : BootState := { s with syscallmap }
def setPtracked (ptracked : Addr) (s : BootState) : BootState := { s with ptracked }

def setNCr3 (nCr3 : BitVec 64) (s : BootState) : BootState :=
  s.setInit (s.init.setSetup (s.init.setup.setVmx { s.init.setup.vmx with nCr3 }))

/-- The `memset` of `vm_create`; `host_save_area` and `vmx_on_region` are no fields of
`struct vm_info`. -/
def clearVm (s : BootState) : BootState where
  init := { s.init with
    setup :=
      { VmxSetup.created
          { s.init.setup.vmx with
            nCr3 := 0#64, ioInterceptTable := 0#64, msrInterceptTable := 0#64 } with
        vmxOnRegion := s.init.setup.vmxOnRegion }
    vmcb := 0#64
    vmRun := none
    vmExit := none }
  fmap := 0#64
  syscallmap := 0#64
  ptracked := 0#64

end BootState

def onMap {α : Type} (x : Setup α) : BootM α :=
  Exec.within BootState.mem (fun _ s => s) BootEvent.map VmxFault.monitor (Exec.probe x)

def onInit {α : Type} (x : InitM α) : BootM α :=
  Exec.within BootState.init BootState.setInit BootEvent.init id x

/-! ## The functions of setup.c -/

structure CmdlineOption where
  vmmPmemSize : BitVec 64

/-- `parse_cmdline`: the command line is printed, and otherwise ignored. -/
def parseCmdline (_mbi : MultibootInfo) : CmdlineOption := ⟨defaultVmmPmemSize⟩

/-- All of `setup_memory`. -/
def setupMemoryFrom (mbi : MultibootInfo) (opt : CmdlineOption) :
    Setup (PmemLayout × NaiveAllocator) := do
  let e820 ← setupMemoryRegion mbi
  Probe.ofExcept fun _ => setupMemory e820 opt.vmmPmemSize

/-! ## `vm_create` -/

/-- The page of a table. -/
def allocTable : HostM Addr := fun host => do
  let (pfn, nalloc) ← allocHostPages 1#64 1#64 host.nalloc
  return (pfn <<< pageShift, { host with nalloc })

/-- `memcpy` from a string of the monitor. -/
def copyChars (m : Mem) (a : Addr) (n : Nat) (s : Nat → Byte) : Mem := fun x =>
  if (x - a).toNat < n then s (x - a).toNat else m x

/-- What `vm_add_fileid2name_map` stores. -/
def storeFid2name (fmap : Addr) (nOpenFile : Nat) (id : BitVec 32) (name : Nat → Byte) :
    HostM Unit := fun host =>
  let next := fmap + BitVec.ofNat 64 (nOpenFile * sizeofFid2nameMap)
  let fname := next + 4#64
  let mem := copyChars (host.mem.store32 next id) fname vmMaxFilename name
  .ok ((), { host with mem := mem.fill (fname + BitVec.ofNat 64 (vmMaxFilename - 1)) 1 0#8 })

/-- `initialize_fid2name_map`. -/
def initializeFid2nameTable : BootM Unit := do
  let fmap ← onInit (onMemory allocTable)
  Exec.modify (BootState.setFmap fmap)
  onInit (onMemory (storeFid2name fmap 0 0#32 (literal "stdin")))
  onInit (onMemory (storeFid2name fmap 1 1#32 (literal "stdout")))
  onInit (onMemory (storeFid2name fmap 2 2#32 (literal "stderr")))

/-- `initialize_syscallmap`. -/
def initializeSyscallTable : BootM Unit := do
  let syscallmap ← onInit (onMemory allocTable)
  Exec.modify (BootState.setSyscallmap syscallmap)

/-- `initialize_ptracked_list`. -/
def initializePtrackedTable : BootM Unit := do
  let ptracked ← onInit (onMemory allocTable)
  Exec.modify (BootState.setPtracked ptracked)

/-- `vm_create`, with the tables in memory. -/
def createVm (vmmPmemStart vmmPmemSize : BitVec 64) : BootM Unit := do
  Exec.modify BootState.clearVm
  initializeFid2nameTable
  initializeSyscallTable
  initializePtrackedTable
  let nCr3 ← onInit (onMemory (create2mbNestedPagetable vmmPmemStart vmmPmemSize))
  Exec.modify (BootState.setNCr3 nCr3)

/-- `start_vmm` up to the call of `vm_boot`. -/
def startVmm (mbi : MultibootInfo) (cpuid : Cpuid) (cpu : VmxCpu) : BootM Unit := do
  let opt := parseCmdline mbi
  let (pml, nalloc) ← onMap (setupMemoryFrom mbi opt)
  Exec.modify (BootState.setNalloc nalloc)
  createVm pml.vmmPmemStart opt.vmmPmemSize
  onInit (vmInit cpuid cpu)

/-! ## What completes while the allocator serves -/

/-- From every allocator that meets `I` the action completes, with a value that meets `Q`, and it
leaves such an allocator. -/
def Completes {α : Type} (I : NaiveAllocator → Prop) (x : HostM α) (Q : α → Prop) : Prop :=
  ∀ host, I host.nalloc → ∃ a host', x host = .ok (a, host') ∧ Q a ∧ I host'.nalloc

section
variable {α β : Type} {I : NaiveAllocator → Prop} {Q : α → Prop} {R : β → Prop}

theorem completes_pure {a : α} (h : Q a) : Completes I (pure a) Q :=
  fun host hI => ⟨a, host, rfl, h, hI⟩

theorem Completes.bind {x : HostM α} {f : α → HostM β} (hx : Completes I x Q)
    (hf : ∀ a, Q a → Completes I (f a) R) : Completes I (x >>= f) R := by
  intro host hI
  obtain ⟨a, host₁, hrun, hQ, hI₁⟩ := hx host hI
  obtain ⟨b, host₂, hrun₂, hR, hI₂⟩ := hf a hQ host₁ hI₁
  exact ⟨b, host₂, hostM_bind_ok.mpr ⟨a, host₁, hrun, hrun₂⟩, hR, hI₂⟩

theorem completes_lift {x : Except Fault α} {a : α} (h : x = .ok a) :
    Completes I (liftM x) fun b => b = a := by
  subst h
  exact fun host hI => ⟨a, host, rfl, rfl, hI⟩

/-- A change of the memory. -/
theorem completes_modify {g : Host → Host} (hg : ∀ host, (g host).nalloc = host.nalloc) :
    Completes I (modify g) fun _ => True :=
  fun host hI => ⟨⟨⟩, g host, rfl, trivial, (hg host).symm ▸ hI⟩

theorem completes_get : Completes I (get : HostM Host) (fun _ => True) :=
  fun host hI => ⟨host, host, rfl, trivial, hI⟩

theorem completes_forM {f : α → HostM PUnit} (l : List α)
    (hf : ∀ a ∈ l, Completes I (f a) fun _ => True) : Completes I (l.forM f) fun _ => True := by
  induction l with
  | nil => exact completes_pure trivial
  | cons a l ih =>
    rw [List.forM_eq_forM, List.forM_cons]
    exact (hf a List.mem_cons_self).bind fun _ _ =>
      ih fun a' ha' => hf a' (List.mem_cons_of_mem a ha')

end

/-! ### Tables in page 32 -/

/-- An allocator that serves every request for one page with page 32. -/
def ServesPage32 (e820 : E820Map) (pml : PmemLayout) (nalloc : NaiveAllocator) : Prop :=
  33 < nalloc.maxPage.toNat ∧ ∃ granted, Manages e820 pml granted nalloc

section
variable {e820 : E820Map} {pml : PmemLayout}

theorem ServesPage32.allocHostPages {nalloc : NaiveAllocator} (h : ServesPage32 e820 pml nalloc) :
    ∃ nalloc', allocHostPages 1#64 1#64 nalloc = .ok (32#64, nalloc') ∧
      ServesPage32 e820 pml nalloc' := by
  obtain ⟨hmax, granted, hm⟩ := h
  obtain ⟨nalloc', hok, hm'⟩ := hm.allocHostPages_one hmax
  refine ⟨nalloc', hok, ?_, _, hm'⟩
  rwa [hm'.maxPage_eq, ← hm.maxPage_eq]

theorem completes_allocTable :
    Completes (ServesPage32 e820 pml) allocTable fun a => a = 0x20000#64 := by
  intro host hI
  obtain ⟨nalloc', hok, hI'⟩ := hI.allocHostPages
  refine ⟨0x20000#64, { host with nalloc := nalloc' }, ?_, rfl, hI'⟩
  unfold allocTable
  rw [hok]
  rfl

theorem completes_pgTableAlloc :
    Completes (ServesPage32 e820 pml) pgTableAlloc fun a => a = 0x20000#64 := by
  intro host hI
  obtain ⟨nalloc', hok, hI'⟩ := hI.allocHostPages
  refine ⟨0x20000#64, ⟨host.mem.fill 0x20000#64 pageSize 0#8, nalloc'⟩, ?_, rfl, hI'⟩
  unfold pgTableAlloc
  rw [hok]
  rfl

theorem completes_storeFid2name {I : NaiveAllocator → Prop} {fmap : Addr} {nOpenFile : Nat}
    {id : BitVec 32} {name : Nat → Byte} :
    Completes I (storeFid2name fmap nOpenFile id name) fun _ => True :=
  fun _ hI => ⟨(), _, rfl, trivial, hI⟩

theorem completes_nextTable (entry : Addr) :
    Completes (ServesPage32 e820 pml) (nextTable entry) fun _ => True := by
  unfold nextTable
  refine completes_get.bind fun _ _ => ?_
  split
  · refine completes_pgTableAlloc.bind fun _ _ => ?_
    refine Completes.bind (completes_modify ?_) fun _ _ => ?_
    · exact fun _ => rfl
    exact completes_get.bind fun _ _ => completes_pure trivial
  · exact completes_get.bind fun _ _ => completes_pure trivial

/-- `__mmap_2mb` from a level that has an entry for the address. -/
theorem completes_mmap2mb (vaddr paddr : BitVec 64) (isUser : Bool) (n : Nat) (hn : n ≤ 2) :
    ∀ pgTableBase, Completes (ServesPage32 e820 pml)
      (mmap2mb vaddr paddr isUser (n + 2) pgTableBase) fun _ => True := by
  have hentry : ∀ {level : Nat} (pgTableBase : BitVec 64), 2 ≤ level → level ≤ 4 →
      ∃ entry, getEntry pgTableBase vaddr level = .ok entry := by
    intro level pgTableBase hlo hhi
    obtain rfl | rfl | rfl : level = 2 ∨ level = 3 ∨ level = 4 := by omega
    all_goals exact ⟨_, rfl⟩
  induction n with
  | zero =>
    intro pgTableBase
    obtain ⟨entry, hget⟩ := hentry pgTableBase (Nat.le_refl 2) (by omega)
    refine (completes_lift hget).bind fun _ _ => ?_
    have hlevel : 1 + 1 = pgtLevelPd := rfl
    rw [if_pos hlevel]
    exact completes_modify fun _ => rfl
  | succ n ih =>
    intro pgTableBase
    obtain ⟨entry, hget⟩ := @hentry (n + 1 + 2) pgTableBase (by omega) (by omega)
    refine (completes_lift hget).bind fun _ _ => ?_
    have hlevel : n + 1 + 1 + 1 ≠ pgtLevelPd := by
      unfold pgtLevelPd
      omega
    rw [if_neg hlevel]
    exact (completes_nextTable _).bind fun next _ => ih (by omega) next

theorem completes_create2mbNestedPagetable (vmmPmemStart vmmPmemSize : BitVec 64) :
    Completes (ServesPage32 e820 pml) (create2mbNestedPagetable vmmPmemStart vmmPmemSize)
      fun a => a = 0x20000#64 := by
  rw [create2mbNestedPagetable_eq]
  unfold buildMap mmapAll pml4TableAlloc
  refine completes_pgTableAlloc.bind fun root hroot => ?_
  refine Completes.bind (Q := fun _ => True) ?_ fun _ _ => completes_pure hroot
  exact completes_forM _ fun c _ => completes_mmap2mb _ _ _ 2 (Nat.le_refl 2) root

end

/-! ## Runs of the parts -/

section
variable {α : Type} {s s' : BootState}

theorem returns_onInit {x : InitM α} {a : α} :
    (onInit x).Returns s a s' ↔ ∃ t, x.Returns s.init a t ∧ s.setInit t = s' :=
  Exec.returns_within

theorem returns_onInit_onMemory {x : HostM α} {a : α} :
    (onInit (onMemory x)).Returns s a s' ↔
      ∃ host, x s.init.host = .ok (a, host) ∧ s.setHost host = s' := by
  rw [returns_onInit]
  simp only [returns_onMemory]
  constructor
  · rintro ⟨_, ⟨host, hx, rfl⟩, rfl⟩
    exact ⟨host, hx, rfl⟩
  · rintro ⟨host, hx, rfl⟩
    exact ⟨_, ⟨host, hx, rfl⟩, rfl⟩

theorem returns_onMap {x : Setup α} {a : α} :
    (onMap x).Returns s a s' ↔ x.Returns s.mem a ∧ s = s' := by
  unfold onMap
  rw [Exec.returns_within]
  simp only [Exec.returns_probe]
  constructor
  · rintro ⟨_, ⟨hx, rfl⟩, rfl⟩
    exact ⟨hx, rfl⟩
  · rintro ⟨hx, rfl⟩
    exact ⟨_, ⟨hx, rfl⟩, rfl⟩

/-- An action that completes hands over to what follows it. -/
theorem Completes.returns_bind {I : NaiveAllocator → Prop} {Q : α → Prop} {x : HostM α}
    (hx : Completes I x Q) (hI : I s.nalloc) :
    ∃ a host, Q a ∧ I host.nalloc ∧ ∀ {β : Type} {f : α → BootM β} {b : β} {s' : BootState},
      (f a).Returns (s.setHost host) b s' → (onInit (onMemory x) >>= f).Returns s b s' := by
  obtain ⟨a, host, hrun, hQ, hI'⟩ := hx s.init.host hI
  refine ⟨a, host, hQ, hI', fun h => Exec.returns_bind.mpr ⟨a, _, ?_, h⟩⟩
  exact returns_onInit_onMemory.mpr ⟨host, hrun, rfl⟩

/-! ### `vm_create` -/

/-- The state after `vm_create`: every table is in page 32. -/
def BootState.created (host : Host) (s : BootState) : BootState :=
  ((((s.clearVm.setFmap 0x20000#64).setSyscallmap 0x20000#64).setPtracked 0x20000#64).setHost
    host).setNCr3 0x20000#64

variable {e820 : E820Map} {pml : PmemLayout}

theorem returns_initializeFid2nameTable (hI : ServesPage32 e820 pml s.nalloc) :
    ∃ host, ServesPage32 e820 pml host.nalloc ∧
      initializeFid2nameTable.Returns s () ((s.setFmap 0x20000#64).setHost host) := by
  obtain ⟨_, host₁, rfl, hI₁, halloc⟩ :=
    (@completes_allocTable e820 pml).returns_bind hI
  have hstore : ∀ {t : BootState} (n : Nat) (id : BitVec 32) (name : Nat → Byte),
      ServesPage32 e820 pml t.nalloc → ∃ host, ServesPage32 e820 pml host.nalloc ∧
        (onInit (onMemory (storeFid2name 0x20000#64 n id name))).Returns t () (t.setHost host) := by
    intro t n id name hI
    obtain ⟨_, host, hrun, -, hI'⟩ := completes_storeFid2name t.init.host hI
    exact ⟨host, hI', returns_onInit_onMemory.mpr ⟨host, hrun, rfl⟩⟩
  obtain ⟨host₂, hI₂, hstdin⟩ :=
    @hstore ((s.setHost host₁).setFmap 0x20000#64) 0 0#32 (literal "stdin") hI₁
  obtain ⟨host₃, hI₃, hstdout⟩ := @hstore
    (((s.setHost host₁).setFmap 0x20000#64).setHost host₂) 1 1#32 (literal "stdout") hI₂
  obtain ⟨host₄, hI₄, hstderr⟩ := @hstore
    (((s.setHost host₁).setFmap 0x20000#64).setHost host₃) 2 2#32 (literal "stderr") hI₃
  refine ⟨host₄, hI₄, halloc (Exec.returns_modify_bind.mpr ?_)⟩
  exact Exec.returns_bind.mpr ⟨(), _, hstdin, Exec.returns_bind.mpr ⟨(), _, hstdout, hstderr⟩⟩

theorem returns_initializeSyscallTable (hI : ServesPage32 e820 pml s.nalloc) :
    ∃ host, ServesPage32 e820 pml host.nalloc ∧
      initializeSyscallTable.Returns s () ((s.setSyscallmap 0x20000#64).setHost host) := by
  obtain ⟨_, host, rfl, hI', halloc⟩ :=
    (@completes_allocTable e820 pml).returns_bind hI
  exact ⟨host, hI', halloc (Exec.returns_modify.mpr rfl)⟩

theorem returns_initializePtrackedTable (hI : ServesPage32 e820 pml s.nalloc) :
    ∃ host, ServesPage32 e820 pml host.nalloc ∧
      initializePtrackedTable.Returns s () ((s.setPtracked 0x20000#64).setHost host) := by
  obtain ⟨_, host, rfl, hI', halloc⟩ :=
    (@completes_allocTable e820 pml).returns_bind hI
  exact ⟨host, hI', halloc (Exec.returns_modify.mpr rfl)⟩

theorem returns_createVm (vmmPmemStart vmmPmemSize : BitVec 64)
    (hI : ServesPage32 e820 pml s.nalloc) :
    ∃ host, ServesPage32 e820 pml host.nalloc ∧
      (createVm vmmPmemStart vmmPmemSize).Returns s () (s.created host) := by
  obtain ⟨host₁, hI₁, hfmap⟩ := @returns_initializeFid2nameTable s.clearVm _ _ hI
  obtain ⟨host₂, hI₂, hsyscallmap⟩ := @returns_initializeSyscallTable
    ((s.clearVm.setFmap 0x20000#64).setHost host₁) _ _ hI₁
  obtain ⟨host₃, hI₃, hptracked⟩ := @returns_initializePtrackedTable
    (((s.clearVm.setFmap 0x20000#64).setSyscallmap 0x20000#64).setHost host₂) _ _ hI₂
  obtain ⟨_, host₄, rfl, hI₄, hnested⟩ :=
    (@completes_create2mbNestedPagetable e820 pml vmmPmemStart vmmPmemSize).returns_bind
      (s := (((s.clearVm.setFmap 0x20000#64).setSyscallmap 0x20000#64).setPtracked
        0x20000#64).setHost host₃) hI₃
  refine ⟨host₄, hI₄, Exec.returns_modify_bind.mpr ?_⟩
  refine Exec.returns_bind.mpr ⟨(), _, hfmap, Exec.returns_bind.mpr ⟨(), _, hsyscallmap, ?_⟩⟩
  refine Exec.returns_bind.mpr ⟨(), _, hptracked, hnested ?_⟩
  exact Exec.returns_modify.mpr rfl

/-! ### `setup_memory` -/

/-- What the map of the boot loader gives. -/
theorem returns_setupMemoryFrom {mbi : MultibootInfo} {opt : CmdlineOption} {m : Mem}
    {r : PmemLayout × NaiveAllocator} : (setupMemoryFrom mbi opt).Returns m r ↔
      ∃ e820, (setupMemoryRegion mbi).Returns m e820 ∧ setupMemory e820 opt.vmmPmemSize = .ok r := by
  unfold setupMemoryFrom
  simp only [Probe.returns_bind, Probe.returns_ofExcept]

/-- The default region has room for the bitmap of so many pages, and for a heap. -/
def maxPageLimit : Nat := 125796296

theorem setupMemory_cases (e820 : E820Map) :
    (maxPageLimit ≤ (getMaxPfn e820).toNat ∧
      setupMemory e820 defaultVmmPmemSize = fatalFailure "No space left for VMM heap.\n") ∨
    ((getMaxPfn e820).toNat < maxPageLimit ∧ ∃ pml nalloc,
      setupMemory e820 defaultVmmPmemSize = .ok (pml, nalloc) ∧ Manages e820 pml [] nalloc) := by
  have hend : (bootLayout e820 defaultVmmPmemSize).vmmPmemEnd.toNat = 0x8ffffff := rfl
  have hbytes := toNat_mapsizeRounded (getMaxPfn_lt e820)
  have hlt := getMaxPfn_lt e820
  have hstart : (hostAbStart + mapsizeRounded (getMaxPfn e820)).toNat =
      0x8100000 + ((getMaxPfn e820).toNat / 8 + 8 + 4095) / 4096 * 4096 := by
    rw [BitVec.toNat_add, hbytes, toNat_hostAbStart]
    omega
  have hroom : (bootLayout e820 defaultVmmPmemSize).vmmPmemEnd ≤
      hostAbStart + mapsizeRounded (getMaxPfn e820) ↔
        maxPageLimit ≤ (getMaxPfn e820).toNat := by
    rw [BitVec.le_def, hend, hstart]
    unfold maxPageLimit
    omega
  rcases @naiveMemmapInit_spec e820 (bootLayout e820 defaultVmmPmemSize) rfl (by rw [hend]; simp)
    with ⟨hfail, hle⟩ | ⟨pml, nalloc, hok, hm, -⟩
  · exact .inl ⟨hroom.mp hle, hfail⟩
  · refine .inr ⟨?_, pml, nalloc, hok, hm⟩
    by_contra hmany
    have hle : hostAbStart + mapsizeRounded (bootLayout e820 defaultVmmPmemSize).maxPage ≥
        (bootLayout e820 defaultVmmPmemSize).vmmPmemEnd := hroom.mpr (Nat.le_of_not_lt hmany)
    unfold naiveMemmapInit at hok
    dsimp only at hok
    rw [if_pos hle] at hok
    cases hok

theorem allocTable_ok {host host' : Host} {a : Addr} (h : allocTable host = .ok (a, host')) :
    ∃ pfn nalloc, allocHostPages 1#64 1#64 host.nalloc = .ok (pfn, nalloc) := by
  unfold allocTable at h
  obtain ⟨⟨pfn, nalloc⟩, hok, -⟩ := bind_ok_iff.mp h
  exact ⟨pfn, nalloc, hok⟩

/-- Whenever `vm_create` comes through, every table is in page 32. -/
theorem createVm_created {granted : List Grant} {vmmPmemStart vmmPmemSize : BitVec 64}
    (hm : Manages e820 pml granted s.nalloc)
    (h : (createVm vmmPmemStart vmmPmemSize).Returns s () s') :
    ∃ host, ServesPage32 e820 pml host.nalloc ∧ s' = s.created host := by
  have hfirst := Exec.returns_modify_bind.mp h
  obtain ⟨_, _, htable, -⟩ := Exec.returns_bind.mp hfirst
  obtain ⟨a, _, halloc, -⟩ := Exec.returns_bind.mp htable
  obtain ⟨host, hok, -⟩ := returns_onInit_onMemory.mp halloc
  obtain ⟨pfn, nalloc, hpfn⟩ := allocTable_ok hok
  have hlt : 33 < s.nalloc.maxPage.toNat := hm.lt_maxPage (by decide) hpfn
  obtain ⟨host', hI, hret⟩ := returns_createVm vmmPmemStart vmmPmemSize ⟨hlt, _, hm⟩
  exact ⟨host', hI, (Exec.Returns.unique h hret).2⟩

variable {mbi : MultibootInfo} {cpuid : Cpuid} {cpu : VmxCpu}

/-- What a run of `start_vmm` goes through. -/
structure Boots (mbi : MultibootInfo) (s : BootState) (e820 : E820Map) (pml : PmemLayout)
    (nalloc : NaiveAllocator) (host : Host) : Prop where
  map : (setupMemoryRegion mbi).Returns s.mem e820
  limit : (getMaxPfn e820).toNat < maxPageLimit
  layout : setupMemory e820 defaultVmmPmemSize = .ok (pml, nalloc)
  manages : Manages e820 pml [] nalloc
  serves : ServesPage32 e820 pml host.nalloc
  create : (createVm pml.vmmPmemStart defaultVmmPmemSize).Returns (s.setNalloc nalloc) ()
    ((s.setNalloc nalloc).created host)

theorem returns_startVmm : (startVmm mbi cpuid cpu).Returns s () s' ↔
    ∃ e820 pml nalloc host, Boots mbi s e820 pml nalloc host ∧
      ∃ init, (vmInit cpuid cpu).Returns ((s.setNalloc nalloc).created host).init () init ∧
        ((s.setNalloc nalloc).created host).setInit init = s' := by
  constructor
  · intro h
    obtain ⟨⟨pml, nalloc⟩, _, hsetup, h⟩ := Exec.returns_bind.mp h
    obtain ⟨hmap, rfl⟩ := returns_onMap.mp hsetup
    obtain ⟨e820, hregion, hlayout⟩ := returns_setupMemoryFrom.mp hmap
    have h := Exec.returns_modify_bind.mp h
    obtain ⟨_, t, hcreate, hinit⟩ := Exec.returns_bind.mp h
    rcases setupMemory_cases e820 with ⟨-, hfail⟩ | ⟨hlimit, pml', nalloc', hok, hm⟩
    · cases hfail.symm.trans hlayout
    · cases hok.symm.trans hlayout
      obtain ⟨host, hserves, rfl⟩ := createVm_created hm hcreate
      exact ⟨e820, pml, nalloc, host, ⟨hregion, hlimit, hlayout, hm, hserves, hcreate⟩,
        returns_onInit.mp hinit⟩
  · rintro ⟨e820, pml, nalloc, host, hboots, hinit⟩
    have hmap : (setupMemoryFrom mbi (parseCmdline mbi)).Returns s.mem (pml, nalloc) :=
      returns_setupMemoryFrom.mpr ⟨e820, hboots.map, hboots.layout⟩
    refine Exec.returns_bind.mpr ⟨(pml, nalloc), s, returns_onMap.mpr ⟨hmap, rfl⟩, ?_⟩
    refine Exec.returns_modify_bind.mpr (Exec.returns_bind.mpr ⟨(), _, hboots.create, ?_⟩)
    exact returns_onInit.mpr hinit

end

/-! ## What `vm_boot` is entered with -/

/-- The fields that protect the monitor: nested paging, an address space of its own, and the
intercept of VMRUN. -/
def protection : List VmcbField := [.nCr3, .npEnable, .guestAsid, .general2Intercepts]

/-- Every table and area shares page 32, in the guest's memory, and the control block there has
lost what protects the monitor. -/
structure BootState.Unprotected (s : BootState) : Prop where
  tables : ∀ a ∈ [s.fmap, s.syscallmap, s.ptracked, s.nCr3], a = 0x20000#64
  areas : ∀ a ∈ [s.init.vmcb, s.init.hostSaveArea], a = 0x20000#64
  lost : ∀ f ∈ protection, vmcbRecord.get s.mem s.init.vmcb f = 0#(8 * vmcbRecord.width f)
  rejected : ¬ vmcbCheckConsistency.Returns s.init.control ()

section
variable {e820 : E820Map} {pml : PmemLayout} {nalloc : NaiveAllocator} {host : Host}
  {mbi : MultibootInfo} {cpuid : Cpuid} {cpu : VmxCpu} {s : BootState}

theorem SvmPages.page32_lost {nCr3 : BitVec 64} {m : Mem} : ∀ f ∈ protection,
    vmcbRecord.get (SvmPages.page32.startedMem nCr3 m) (SvmPages.page32.vmcb <<< pageShift) f =
      0#(8 * vmcbRecord.width f) := by
  unfold protection
  simp only [List.forall_mem_cons, List.not_mem_nil, false_implies, implies_true, and_true]
  refine ⟨?_, ?_, ?_, ?_⟩
  all_goals exact lost_startedMem page32_fits page32_meets rfl rfl rfl

theorem unprotected_started {init t : InitState} (ht : t.nCr3 = 0x20000#64)
    (hinit : t.started cpuid .page32 nalloc = init) :
    ((s.created host).setInit init).Unprotected := by
  have hvmcb : init.vmcb = 0x20000#64 := by
    rw [← hinit]
    exact vmcb_started
  refine ⟨?_, ?_, fun f hf => ?_, ?_⟩
  · simp only [List.forall_mem_cons, List.not_mem_nil, false_implies, implies_true, and_true]
    refine ⟨rfl, rfl, rfl, ?_⟩
    rw [← hinit]
    exact ht
  · simp only [List.forall_mem_cons, List.not_mem_nil, false_implies, implies_true, and_true]
    refine ⟨hvmcb, ?_⟩
    rw [← hinit]
    rfl
  · change vmcbRecord.get init.mem init.vmcb f = _
    rw [← hinit, mem_started, vmcb_started]
    exact SvmPages.page32_lost f hf
  · change ¬ vmcbCheckConsistency.Returns init.control ()
    rw [← hinit]
    exact (consistent_started_iff SvmPages.page32_fits).not.mpr SvmPages.page32_meets

/-- `init_amd` after `vm_create`: it is served with page 32, if it is served. -/
theorem Boots.returns_vmInit (hb : Boots mbi s e820 pml nalloc host) (hamd : IsAmd cpuid)
    {init : InitState} :
    (vmInit cpuid cpu).Returns ((s.setNalloc nalloc).created host).init () init ↔
      ReportsSvm cpuid ∧ 35 < (getMaxPfn e820).toNat ∧ ∃ nalloc',
        allocAll svmRequests host.nalloc = .ok (SvmPages.page32.grants, nalloc') ∧
        (((s.setNalloc nalloc).created host).init.setCpuinfo
          (CpuinfoX86.earlyIdentifyCpu cpuid)).started cpuid .page32 nalloc' = init := by
  obtain ⟨-, granted, hm⟩ := hb.serves
  rw [returns_vmInit_of_amd hamd]
  refine and_congr_right fun _ => ?_
  constructor
  · rintro ⟨p, nalloc', halloc, hinit⟩
    have halloc : allocAll svmRequests host.nalloc = .ok (p.grants, nalloc') := halloc
    have hmax := hm.lt_of_svmRequests halloc
    obtain ⟨n, hpage⟩ := hm.allocAll_svmRequests hmax
    have hsame := Except.ok.inj (halloc.symm.trans hpage)
    obtain rfl : p = .page32 := SvmPages.grants_injective (congrArg Prod.fst hsame)
    exact ⟨hm.maxPage_eq ▸ hmax, nalloc', halloc, hinit⟩
  · rintro ⟨-, nalloc', halloc, hinit⟩
    exact ⟨.page32, nalloc', halloc, hinit⟩

/-- With the map, the size of the memory and the processor that `start_vmm` needs it comes
through. -/
theorem exists_returns_startVmm_iff (hamd : IsAmd cpuid) :
    (∃ s', (startVmm mbi cpuid cpu).Returns s () s') ↔
      ReportsSvm cpuid ∧ ∃ e820, (setupMemoryRegion mbi).Returns s.mem e820 ∧
        35 < (getMaxPfn e820).toNat ∧ (getMaxPfn e820).toNat < maxPageLimit := by
  constructor
  · rintro ⟨s', h⟩
    obtain ⟨e820, pml, nalloc, host, hb, init, hinit, -⟩ := returns_startVmm.mp h
    obtain ⟨hsvm, hmax, -⟩ := (hb.returns_vmInit hamd).mp hinit
    exact ⟨hsvm, e820, hb.map, hmax, hb.limit⟩
  · rintro ⟨hsvm, e820, hmap, hmax, hlimit⟩
    rcases setupMemory_cases e820 with ⟨hmany, -⟩ | ⟨-, pml, nalloc, hlayout, hm⟩
    · exact absurd hlimit (Nat.not_lt.mpr hmany)
    have hpages : 33 < nalloc.maxPage.toNat := by
      rw [hm.maxPage_eq]
      omega
    obtain ⟨host, hserves, hcreate⟩ := @returns_createVm (s.setNalloc nalloc) e820 pml
      pml.vmmPmemStart defaultVmmPmemSize ⟨hpages, _, hm⟩
    have hb : Boots mbi s e820 pml nalloc host := ⟨hmap, hlimit, hlayout, hm, hserves, hcreate⟩
    obtain ⟨-, granted, hm'⟩ := hserves
    obtain ⟨nalloc', halloc⟩ := hm'.allocAll_svmRequests (hm'.maxPage_eq ▸ hmax)
    have hinit := (@Boots.returns_vmInit _ _ _ _ _ _ cpu _ hb hamd _).mpr
      ⟨hsvm, hmax, nalloc', halloc, rfl⟩
    exact ⟨_, returns_startVmm.mpr ⟨e820, pml, nalloc, host, hb, _, hinit, rfl⟩⟩

/-- The map that `setup_memory_region` makes of the records, if it makes one. -/
theorem exists_setupMemoryRegion_iff {m : Mem} {rs : List MapRecord} (h : MapAt mbi rs m)
    {P : List E820Entry → Prop} :
    (∃ e820, (setupMemoryRegion mbi).Returns m e820 ∧ P e820.map) ↔
      mbi.flags &&& mbiMemmap ≠ 0#32 ∧ rs.length ≤ e820MaxEntries ∧
        P (rs.map MapRecord.entry) := by
  unfold setupMemoryRegion
  by_cases hflags : mbi.flags &&& mbiMemmap = 0#32
  · rw [if_pos hflags]
    refine iff_of_false ?_ fun hall => hall.1 hflags
    rintro ⟨e820, hret, -⟩
    cases hret
  · rw [if_neg hflags]
    have hfuel : rs.length < mbi.mmapLength.toNat + 1 := by
      rw [h.length]
      exact Nat.lt_succ_of_le (length_le_length_encode rs)
    obtain ⟨-, hfits, hfull⟩ := @setupLoop_records m mbi rs _ 0 ⟨[], Nat.zero_le _⟩
      (recordsFrom_of_holds rs h.holds) ((Nat.zero_add _).trans h.length.symm) hfuel
    simp only [List.length_nil, Nat.zero_add, List.nil_append] at hfits hfull
    by_cases hlen : rs.length ≤ e820MaxEntries
    · obtain ⟨e820, hret, hentries⟩ := hfits hlen
      constructor
      · rintro ⟨e820', hret', hP⟩
        obtain rfl := Probe.Returns.unique hret hret'
        exact ⟨hflags, hlen, hentries ▸ hP⟩
      · rintro ⟨-, -, hP⟩
        exact ⟨e820, hret, hentries ▸ hP⟩
    · refine iff_of_false ?_ fun hall => hlen hall.2.1
      rintro ⟨e820, hret, -⟩
      have hfail := hfull (Nat.lt_of_not_le hlen)
      cases hfail.symm.trans hret

/-- 256 MB of memory. -/
def plainMap : List MapRecord :=
  [⟨20#32, ⟨0#64, 0x10000000#64, e820Ram⟩, [], MapRecord.size_plain⟩]

/-- The boot loader has stored its map, and nothing is set up. -/
def BootState.loaded (rs : List MapRecord) : BootState where
  init := (InitState.blank ⟨#[], 0#64⟩).setHost
    ⟨.ofBytes (MultibootInfo.mmap (.of rs) 0) (encode rs), ⟨#[], 0#64⟩⟩
  fmap := 0#64
  syscallmap := 0#64
  ptracked := 0#64

theorem mapAt_plainMap : MapAt (.of plainMap) plainMap (BootState.loaded plainMap).mem :=
  mapAt_of (by decide)

/-- No processor is ever left ready: without AMD's name the handlers that `vm_boot` calls are null,
and with it the guest would run without nested paging, on a control block in its own memory. -/
theorem startVmm_unprotected (mbi : MultibootInfo) (cpuid : Cpuid) (cpu : VmxCpu)
    (s s' : BootState) (h : (startVmm mbi cpuid cpu).Returns s () s') :
    (IsAmd cpuid → s'.Unprotected) ∧
      (¬ IsAmd cpuid → s'.init.vmRun = none ∧ s'.init.vmExit = none) := by
  obtain ⟨e820, pml, nalloc, host, hb, init, hinit, rfl⟩ := returns_startVmm.mp h
  constructor
  · intro hamd
    obtain ⟨-, -, nalloc', -, hstarted⟩ := (hb.returns_vmInit hamd).mp hinit
    exact unprotected_started rfl hstarted
  · intro hamd
    exact vmInit_keeps_handlers hamd hinit

theorem startVmm_unprotected_plain : ∃ s',
    (startVmm (.of plainMap) .amd .willing).Returns (.loaded plainMap) () s' ∧ s'.Unprotected := by
  have hboots : ∃ s', (startVmm (.of plainMap) .amd .willing).Returns (.loaded plainMap) () s' :=
    (exists_returns_startVmm_iff isAmd_amd).mpr ⟨reportsSvm_amd,
      (@exists_setupMemoryRegion_iff _ _ _ mapAt_plainMap fun entries =>
        35 < (entries.foldl maxPfnStep 0#64).toNat ∧
          (entries.foldl maxPfnStep 0#64).toNat < maxPageLimit).mpr
        ⟨by decide, by decide, by decide, by decide⟩⟩
  obtain ⟨s', h⟩ := hboots
  exact ⟨s', h, (startVmm_unprotected (.of plainMap) .amd .willing _ s' h).1 isAmd_amd⟩

end

end Mavmm
