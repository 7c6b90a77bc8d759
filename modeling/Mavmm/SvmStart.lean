import Mavmm.AllocSafety
import Mavmm.Svm
import Mavmm.VmxRegions

/-!
# What a started machine has (svm.c)

`vm_init` sets the handlers that `vm_boot` calls exactly on an AMD processor
that reports SVM and nested paging, when the allocator serves its four requests
(`vmInit_handlers_iff`).  The control block it leaves in memory is the intended
one exactly if the page it is in is none of the pages of the two permission
maps, which are cleared after most of it was filled (`vmInit_vmcb_iff`).
-/

namespace Mavmm

/-! ## Runs of the parts -/

section
variable {α : Type} {s s' : InitState} {cpuid : Cpuid}

theorem returns_onMemory {x : HostM α} {a : α} :
    (onMemory x).Returns s a s' ↔ ∃ host, x s.host = .ok (a, host) ∧ s.setHost host = s' := by
  unfold onMemory onVmx
  rw [Exec.returns_within]
  simp only [Exec.returns_within, returns_onHost]
  constructor
  · rintro ⟨_, ⟨_, ⟨host, hx, rfl⟩, rfl⟩, rfl⟩
    exact ⟨host, hx, rfl⟩
  · rintro ⟨host, hx, rfl⟩
    exact ⟨_, ⟨_, ⟨host, hx, rfl⟩, rfl⟩, rfl⟩

theorem returns_onMemory_bind {β : Type} {x : HostM β} {f : β → InitM α} {a : α} :
    (onMemory x >>= f).Returns s a s' ↔
      ∃ v host, x s.host = .ok (v, host) ∧ (f v).Returns (s.setHost host) a s' := by
  rw [Exec.returns_bind]
  simp only [returns_onMemory]
  constructor
  · rintro ⟨v, t, ⟨host, hx, rfl⟩, hf⟩
    exact ⟨v, host, hx, hf⟩
  · rintro ⟨v, host, hx, hf⟩
    exact ⟨v, _, ⟨host, hx, rfl⟩, hf⟩

theorem returns_wrmsr {msr low high : BitVec 32} :
    (wrmsr msr low high).Returns s () s' ↔ s.setMsr msr (high ++ low) = s' := by
  unfold wrmsr
  rw [Exec.returns_bind]
  constructor
  · rintro ⟨⟨⟩, t, ht, h⟩
    cases ht
    exact Exec.returns_modify.mp h
  · rintro rfl
    exact ⟨(), s, rfl, rfl⟩

theorem returns_wrmsr_bind {msr low high : BitVec 32} {f : Unit → InitM α} {a : α} :
    (wrmsr msr low high >>= f).Returns s a s' ↔
      (f ()).Returns (s.setMsr msr (high ++ low)) a s' := by
  rw [Exec.returns_bind]
  constructor
  · rintro ⟨⟨⟩, t, ht, hf⟩
    rwa [returns_wrmsr.mp ht]
  · exact fun hf => ⟨(), _, returns_wrmsr.mpr rfl, hf⟩

theorem not_returns_initFatal {msg : String} (s s' : InitState) :
    ¬ (initFatal msg : InitM Unit).Returns s () s' := by
  intro h
  cases h

/-! ### `enable_svm` -/

/-- The features that `enable_svm` tests. -/
structure HasSvm (cpuid : Cpuid) (c : CpuinfoX86) : Prop where
  svm : c.testBit x86FeatureSvm = true
  npt : (cpuid 0x8000000a#32).edx &&& svmFeatureNpt ≠ 0#32

/-- The memory after `alloc_host_save_area`. -/
def hsaMem (hsa : Addr) (m : Mem) : Mem := if hsa ≠ 0#64 then m.fill hsa pageSize 0#8 else m

theorem allocHostSaveArea_ok {host host' : Host} {hsa : Addr} :
    allocHostSaveArea host = .ok (hsa, host') ↔ ∃ pfn nalloc,
      allocHostPages 1#64 1#64 host.nalloc = .ok (pfn, nalloc) ∧ hsa = pfn <<< pageShift ∧
        host' = ⟨hsaMem hsa host.mem, nalloc⟩ := by
  unfold allocHostSaveArea
  rw [bind_ok_iff]
  constructor
  · rintro ⟨⟨pfn, nalloc⟩, h, hr⟩
    cases hr
    exact ⟨pfn, nalloc, h, rfl, rfl⟩
  · rintro ⟨pfn, nalloc, h, rfl, rfl⟩
    exact ⟨(pfn, nalloc), h, rfl⟩

theorem allocVmcb_ok {host host' : Host} {vmcb : Addr} :
    allocVmcb host = .ok (vmcb, host') ↔ ∃ pfn nalloc,
      allocHostPages 1#64 1#64 host.nalloc = .ok (pfn, nalloc) ∧ vmcb = pfn <<< pageShift ∧
        host' = ⟨host.mem.fill vmcb vmcbRecord.size 0#8, nalloc⟩ := by
  unfold allocVmcb
  rw [bind_ok_iff]
  constructor
  · rintro ⟨⟨pfn, nalloc⟩, h, hr⟩
    cases hr
    exact ⟨pfn, nalloc, h, rfl, rfl⟩
  · rintro ⟨pfn, nalloc, h, rfl, rfl⟩
    exact ⟨(pfn, nalloc), h, rfl⟩

theorem createInterceptTable_ok {host host' : Host} {size paddr : BitVec 64} :
    createInterceptTable size host = .ok (paddr, host') ↔ ∃ pfn nalloc,
      allocHostPages (size >>> pageShift) 1#64 host.nalloc = .ok (pfn, nalloc) ∧
        paddr = pfn <<< pageShift ∧
        host' = ⟨host.mem.fill paddr size.toNat 0#8, nalloc⟩ := by
  unfold createInterceptTable
  rw [bind_ok_iff]
  constructor
  · rintro ⟨⟨pfn, nalloc⟩, h, hr⟩
    cases hr
    exact ⟨pfn, nalloc, h, rfl, rfl⟩
  · rintro ⟨pfn, nalloc, h, rfl, rfl⟩
    exact ⟨(pfn, nalloc), h, rfl⟩

/-- `EFER` with `SVME`, as two words are written to it. -/
def eferWithSvme (msrs : Msrs) : BitVec 64 :=
  msrHigh msrs msrEfer ++ (msrLow msrs msrEfer ||| eferSvme.setWidth 32)

/-- The state after `enable_svm` with its page for the host save area. -/
def InitState.enabled (cpuid : Cpuid) (hsa : Addr) (host : Host) (s : InitState) : InitState :=
  let s := s.setCpuinfo (CpuinfoX86.fillFifth cpuid)
  let s := ((s.setMsr msrEfer (eferWithSvme s.msrs)).setHost host).setHostSaveArea hsa
  s.setMsr msrK8VmHsavePa ((hsa >>> 32).setWidth 32 ++ hsa.setWidth 32)

theorem returns_enableSvm : (enableSvm cpuid).Returns s () s' ↔
    HasSvm cpuid s.cpuinfo ∧ ∃ hsa host, allocHostSaveArea s.host = .ok (hsa, host) ∧
      s.enabled cpuid hsa host = s' := by
  have hword : (s.setCpuinfo (CpuinfoX86.fillFifth cpuid)).cpuinfo.testBit x86FeatureSvm =
      s.cpuinfo.testBit x86FeatureSvm := rfl
  unfold enableSvm modifyCpuinfo
  rw [Exec.returns_modify_bind, Exec.returns_read_bind,
    returns_unless_bind not_returns_initFatal, hword, Decidable.not_not,
    returns_unless_bind not_returns_initFatal, Exec.returns_read_bind, returns_wrmsr_bind,
    returns_onMemory_bind]
  constructor
  · rintro ⟨hsvm, hnpt, hsa, host, halloc, h⟩
    rw [Exec.returns_modify_bind] at h
    exact ⟨⟨hsvm, hnpt⟩, hsa, host, halloc, returns_wrmsr.mp h⟩
  · rintro ⟨⟨hsvm, hnpt⟩, hsa, host, halloc, rfl⟩
    refine ⟨hsvm, hnpt, hsa, host, halloc, ?_⟩
    rw [Exec.returns_modify_bind]
    exact returns_wrmsr.mpr rfl

/-! ### `init_amd` -/

/-- The memory after `set_control_params`. -/
def paramsMem (vmcb iopm msrpm : Addr) (m : Mem) : Mem :=
  let m := (vmcbRecord.setAll vmcb controlParams m).fill iopm 0x3000 0#8
  let m := (vmcbRecord.setAll vmcb [⟨.iopmBasePa, iopm⟩] m).fill msrpm 0x2000 0#8
  vmcbRecord.setAll vmcb [⟨.msrpmBasePa, msrpm⟩] m

/-- The memory after the rest of `init_amd`. -/
def vmcbMem (nCr3 : BitVec 64) (vmcb iopm msrpm : Addr) (m : Mem) : Mem :=
  let m := vmcbRecord.setAll vmcb [⟨.nCr3, nCr3⟩] (m.fill vmcb vmcbRecord.size 0#8)
  vmcbRecord.setAll vmcb mbrStartFields (paramsMem vmcb iopm msrpm m)

/-- The first pages of what `init_amd` allocates. -/
structure SvmPages where
  hsa : BitVec 64
  vmcb : BitVec 64
  iopm : BitVec 64
  msrpm : BitVec 64

/-- The requests of `init_amd`: the host save area, the control block, the I/O permission map and
the MSR permission map. -/
def svmRequests : List Request :=
  [⟨1#64, 1#64⟩, ⟨1#64, 1#64⟩, ⟨3#64, 1#64⟩, ⟨2#64, 1#64⟩]

namespace SvmPages

variable (p : SvmPages)

def hsaGrant : Grant := ⟨p.hsa, 1#64, 1#64⟩
def vmcbGrant : Grant := ⟨p.vmcb, 1#64, 1#64⟩
def iopmGrant : Grant := ⟨p.iopm, 3#64, 1#64⟩
def msrpmGrant : Grant := ⟨p.msrpm, 2#64, 1#64⟩
def grants : List Grant := [p.hsaGrant, p.vmcbGrant, p.iopmGrant, p.msrpmGrant]

def startedMem (nCr3 : BitVec 64) (m : Mem) : Mem :=
  vmcbMem nCr3 (p.vmcb <<< pageShift) (p.iopm <<< pageShift) (p.msrpm <<< pageShift)
    (hsaMem (p.hsa <<< pageShift) m)

end SvmPages

/-- The state after `init_amd`. -/
def InitState.started (cpuid : Cpuid) (p : SvmPages) (nalloc : NaiveAllocator) (s : InitState) :
    InitState :=
  (((s.setCpuinfo (amdFlags cpuid)).enabled cpuid (p.hsa <<< pageShift)
    ⟨p.startedMem s.nCr3 s.mem, nalloc⟩).setVmcb (p.vmcb <<< pageShift)).setHandlers

theorem hostM_bind_ok {β : Type} {x : HostM α} {f : α → HostM β} {host host' : Host} {b : β} :
    (x >>= f) host = .ok (b, host') ↔ ∃ a t, x host = .ok (a, t) ∧ f a t = .ok (b, host') := by
  change (x host >>= fun r => f r.1 r.2) = .ok (b, host') ↔ _
  rw [bind_ok_iff, Prod.exists]

theorem storeVmcb_ok {vmcb : Addr} {ws : List vmcbRecord.Write} {host host' : Host} :
    storeVmcb vmcb ws host = .ok ((), host') ↔
      host' = { host with mem := vmcbRecord.setAll vmcb ws host.mem } := by
  constructor
  · intro h
    cases h
    rfl
  · rintro rfl
    rfl

theorem setControlParams_ok {vmcb : Addr} {host host' : Host} :
    setControlParams vmcb host = .ok ((), host') ↔ ∃ iopm msrpm nalloc nalloc',
      allocHostPages 3#64 1#64 host.nalloc = .ok (iopm, nalloc) ∧
      allocHostPages 2#64 1#64 nalloc = .ok (msrpm, nalloc') ∧
      host' = ⟨paramsMem vmcb (iopm <<< pageShift) (msrpm <<< pageShift) host.mem, nalloc'⟩ := by
  unfold setControlParams
  constructor
  · intro h
    obtain ⟨_, _, hstore, h⟩ := hostM_bind_ok.mp h
    cases storeVmcb_ok.mp hstore
    obtain ⟨_, _, htable, h⟩ := hostM_bind_ok.mp h
    obtain ⟨iopm, nalloc, hiopm, rfl, rfl⟩ := createInterceptTable_ok.mp htable
    obtain ⟨_, _, hstore, h⟩ := hostM_bind_ok.mp h
    cases storeVmcb_ok.mp hstore
    obtain ⟨_, _, htable', h⟩ := hostM_bind_ok.mp h
    obtain ⟨msrpm, nalloc', hmsrpm, rfl, rfl⟩ := createInterceptTable_ok.mp htable'
    cases storeVmcb_ok.mp h
    exact ⟨iopm, msrpm, nalloc, nalloc', hiopm, hmsrpm, rfl⟩
  · rintro ⟨iopm, msrpm, nalloc, nalloc', hiopm, hmsrpm, rfl⟩
    exact hostM_bind_ok.mpr ⟨_, _, storeVmcb_ok.mpr rfl, hostM_bind_ok.mpr ⟨_, _,
      createInterceptTable_ok.mpr ⟨iopm, nalloc, hiopm, rfl, rfl⟩, hostM_bind_ok.mpr ⟨_, _,
      storeVmcb_ok.mpr rfl, hostM_bind_ok.mpr ⟨_, _,
      createInterceptTable_ok.mpr ⟨msrpm, nalloc', hmsrpm, rfl, rfl⟩,
      storeVmcb_ok.mpr rfl⟩⟩⟩⟩

theorem allocAll_cons_ok {r : Request} {rs : List Request} {nalloc nalloc' : NaiveAllocator}
    {g : Grant} {gs : List Grant} :
    allocAll (r :: rs) nalloc = .ok (g :: gs, nalloc') ↔ ∃ n,
      allocHostPages r.nrPfns r.pfnAlign nalloc = .ok (g.pfn, n) ∧
      g = ⟨g.pfn, r.nrPfns, r.pfnAlign⟩ ∧ allocAll rs n = .ok (gs, nalloc') := by
  rw [allocAll, bind_ok_iff]
  constructor
  · rintro ⟨⟨pfn, n⟩, hone, h⟩
    obtain ⟨⟨rest, n'⟩, hrest, h⟩ := bind_ok_iff.mp h
    cases h
    exact ⟨n, hone, rfl, hrest⟩
  · rintro ⟨n, hone, hg, hrest⟩
    refine ⟨(g.pfn, n), hone, bind_ok_iff.mpr ⟨(gs, nalloc'), hrest, ?_⟩⟩
    exact congrArg (fun g => Except.ok (g :: gs, nalloc')) hg.symm

theorem allocAll_svmRequests {p : SvmPages} {nalloc nalloc' : NaiveAllocator} :
    allocAll svmRequests nalloc = .ok (p.grants, nalloc') ↔ ∃ n₁ n₂ n₃,
      allocHostPages 1#64 1#64 nalloc = .ok (p.hsa, n₁) ∧
      allocHostPages 1#64 1#64 n₁ = .ok (p.vmcb, n₂) ∧
      allocHostPages 3#64 1#64 n₂ = .ok (p.iopm, n₃) ∧
      allocHostPages 2#64 1#64 n₃ = .ok (p.msrpm, nalloc') := by
  unfold svmRequests SvmPages.grants
  simp only [allocAll_cons_ok]
  constructor
  · rintro ⟨n₁, hhsa, -, n₂, hvmcb, -, n₃, hiopm, -, n₄, hmsrpm, -, h⟩
    cases h
    exact ⟨n₁, n₂, n₃, hhsa, hvmcb, hiopm, hmsrpm⟩
  · rintro ⟨n₁, n₂, n₃, hhsa, hvmcb, hiopm, hmsrpm⟩
    exact ⟨n₁, hhsa, rfl, n₂, hvmcb, rfl, n₃, hiopm, rfl, nalloc', hmsrpm, rfl, rfl⟩

@[simp] theorem setHost_setHost (host host' : Host) :
    (s.setHost host).setHost host' = s.setHost host' := rfl

@[simp] theorem host_setHost (host : Host) : (s.setHost host).host = host := rfl

theorem setVmcb_setHost (host : Host) (vmcb : Addr) :
    (s.setHost host).setVmcb vmcb = (s.setVmcb vmcb).setHost host := rfl

theorem setHost_setVmcb_enabled {hsa vmcb : Addr} {host host' : Host} :
    ((s.enabled cpuid hsa host).setVmcb vmcb).setHost host' =
      (s.enabled cpuid hsa host').setVmcb vmcb := rfl

section
variable {host : Host} {hsa vmcb : Addr} {f : CpuinfoX86 → CpuinfoX86}

@[simp] theorem host_enabled : (s.enabled cpuid hsa host).host = host := rfl
@[simp] theorem host_setCpuinfo : (s.setCpuinfo f).host = s.host := rfl
@[simp] theorem nCr3_setHost : (s.setHost host).nCr3 = s.nCr3 := rfl
@[simp] theorem nCr3_setVmcb : (s.setVmcb vmcb).nCr3 = s.nCr3 := rfl
@[simp] theorem nCr3_enabled : (s.enabled cpuid hsa host).nCr3 = s.nCr3 := rfl
@[simp] theorem nCr3_setCpuinfo : (s.setCpuinfo f).nCr3 = s.nCr3 := rfl

end

theorem returns_storeVmcb_bind {vmcb : Addr} {ws : List vmcbRecord.Write} {host : Host}
    {f : Unit → InitM α} {a : α} :
    (onMemory (storeVmcb vmcb ws) >>= f).Returns (s.setHost host) a s' ↔
      (f ()).Returns (s.setHost ⟨vmcbRecord.setAll vmcb ws host.mem, host.nalloc⟩) a s' := by
  rw [returns_onMemory_bind]
  constructor
  · rintro ⟨_, _, hstore, hf⟩
    cases storeVmcb_ok.mp hstore
    exact hf
  · exact fun hf => ⟨(), _, storeVmcb_ok.mpr rfl, hf⟩

/-- What `init_amd` does once it has the control block. -/
theorem returns_fillVmcb {vmcb : Addr} {nCr3 : BitVec 64} {m : Mem} {n : NaiveAllocator}
    {f : InitState → InitState} :
    (do
      onMemory (storeVmcb vmcb [⟨.nCr3, nCr3⟩])
      onMemory (setControlParams vmcb)
      onMemory (setVmToMbrStartState vmcb)
      Exec.modify f : InitM Unit).Returns
        (s.setHost ⟨m.fill vmcb vmcbRecord.size 0#8, n⟩) () s' ↔
    ∃ iopm msrpm n₁ n₂, allocHostPages 3#64 1#64 n = .ok (iopm, n₁) ∧
      allocHostPages 2#64 1#64 n₁ = .ok (msrpm, n₂) ∧
      f (s.setHost ⟨vmcbMem nCr3 vmcb (iopm <<< pageShift) (msrpm <<< pageShift) m, n₂⟩) = s' := by
  unfold setVmToMbrStartState vmcbMem
  rw [returns_storeVmcb_bind, returns_onMemory_bind]
  dsimp only
  constructor
  · rintro ⟨_, host', hparams, h⟩
    rw [setHost_setHost, returns_storeVmcb_bind, Exec.returns_modify] at h
    obtain ⟨iopm, msrpm, n₁, n₂, hiopm, hmsrpm, rfl⟩ := setControlParams_ok.mp hparams
    dsimp only at h
    exact ⟨iopm, msrpm, n₁, n₂, hiopm, hmsrpm, h⟩
  · rintro ⟨iopm, msrpm, n₁, n₂, hiopm, hmsrpm, h⟩
    refine ⟨(), _, setControlParams_ok.mpr ⟨iopm, msrpm, n₁, n₂, hiopm, hmsrpm, rfl⟩, ?_⟩
    rw [setHost_setHost, returns_storeVmcb_bind, Exec.returns_modify]
    exact h

theorem returns_initAmd : (initAmd cpuid).Returns s () s' ↔
    HasSvm cpuid (amdFlags cpuid s.cpuinfo) ∧ ∃ (p : SvmPages) (nalloc : NaiveAllocator),
      allocAll svmRequests s.nalloc = .ok (p.grants, nalloc) ∧ s.started cpuid p nalloc = s' := by
  unfold initAmd modifyCpuinfo
  rw [Exec.returns_modify_bind, Exec.returns_bind]
  constructor
  · rintro ⟨⟨⟩, t, henable, h⟩
    obtain ⟨hfeatures, _, _, harea, rfl⟩ := returns_enableSvm.mp henable
    obtain ⟨hsa, n₁, hhsa, rfl, rfl⟩ := allocHostSaveArea_ok.mp harea
    obtain ⟨_, _, hblock, h⟩ := returns_onMemory_bind.mp h
    obtain ⟨vmcb, n₂, hvmcb, rfl, rfl⟩ := allocVmcb_ok.mp hblock
    rw [Exec.returns_modify_bind, Exec.returns_read_bind, setVmcb_setHost] at h
    simp only [nCr3_setHost, nCr3_setVmcb, nCr3_enabled, nCr3_setCpuinfo, host_enabled,
      host_setCpuinfo] at h
    obtain ⟨iopm, msrpm, n₃, n₄, hiopm, hmsrpm, h⟩ := returns_fillVmcb.mp h
    rw [setHost_setVmcb_enabled] at h
    refine ⟨hfeatures, ⟨hsa, vmcb, iopm, msrpm⟩, n₄, ?_, h⟩
    exact allocAll_svmRequests.mpr ⟨n₁, n₂, n₃, hhsa, hvmcb, hiopm, hmsrpm⟩
  · rintro ⟨hfeatures, p, n₄, halloc, h⟩
    obtain ⟨n₁, n₂, n₃, hhsa, hvmcb, hiopm, hmsrpm⟩ := allocAll_svmRequests.mp halloc
    refine ⟨(), _, returns_enableSvm.mpr ⟨hfeatures, _, _,
      allocHostSaveArea_ok.mpr ⟨p.hsa, n₁, hhsa, rfl, rfl⟩, rfl⟩, ?_⟩
    refine returns_onMemory_bind.mpr ⟨_, _, allocVmcb_ok.mpr ⟨p.vmcb, n₂, hvmcb, rfl, rfl⟩, ?_⟩
    rw [Exec.returns_modify_bind, Exec.returns_read_bind, setVmcb_setHost]
    simp only [nCr3_setHost, nCr3_setVmcb, nCr3_enabled, nCr3_setCpuinfo, host_enabled,
      host_setCpuinfo]
    refine returns_fillVmcb.mpr ⟨p.iopm, p.msrpm, n₃, n₄, hiopm, hmsrpm, ?_⟩
    rw [setHost_setVmcb_enabled]
    exact h

end

/-! ## The control block in memory -/

/-- What the fields are to be. -/
def startField (nCr3 iopm msrpm : BitVec 64) : (f : VmcbField) → BitVec (8 * f.width)
  | .general2Intercepts => intrcptVmrun ||| intrcptVmmcall
  | .iopmBasePa => iopm
  | .msrpmBasePa => msrpm
  | .guestAsid => 1#32
  | .npEnable => 1#64
  | .nCr3 => nCr3
  | .seg .cs .attrs => 0x019b#16
  | .seg .cs .limit => 0xffff#32
  | .seg .ss .attrs => 0x193#16
  | .seg .ss .limit => 0xffff#32
  | .seg .ds .sel => 0x0040#16
  | .seg .ds .attrs => 0x93#16
  | .seg .ds .limit => 0xffff#32
  | .seg .ds .base => 0o400#64
  | .seg .es .attrs => 0x93#16
  | .seg .es .limit => 0xffff#32
  | .seg .fs .sel => 0xe717#16
  | .seg .fs .attrs => 0x93#16
  | .seg .fs .limit => 0xffff#32
  | .seg .fs .base => 0xe7170#64
  | .seg .gs .sel => 0xf000#16
  | .seg .gs .attrs => 0x93#16
  | .seg .gs .limit => 0xffff#32
  | .seg .gs .base => 0xf0000#64
  | .seg .gdtr .limit => 0x20#32
  | .seg .gdtr .base => 0x06e127#64
  | .seg .idtr .limit => 0x3ff#32
  | .efer => eferSvme
  | .cr0 => 0x10#64
  | .rflags => 0x2206#64
  | .rip => 0x7c00#64
  | .rsp => 0x3e2#64
  | .gPat => 0x7040600070406#64
  | f => 0#(8 * f.width)

section
variable {nCr3 vmcb iopm msrpm : BitVec 64} {m : Mem}

/-- The writes to a field, the last one first. -/
def writtenField (nCr3 iopm msrpm : BitVec 64) (f : VmcbField) : BitVec (8 * vmcbRecord.width f) :=
  (vmcbRecord.written f mbrStartFields).getD <|
    (vmcbRecord.written f [⟨.msrpmBasePa, msrpm⟩]).getD <|
    (vmcbRecord.written f [⟨.iopmBasePa, iopm⟩]).getD <|
    (vmcbRecord.written f controlParams).getD <|
    (vmcbRecord.written f [⟨.nCr3, nCr3⟩]).getD (0#(8 * vmcbRecord.width f))

theorem writtenField_eq (f : VmcbField) :
    writtenField nCr3 iopm msrpm f = startField nCr3 iopm msrpm f := by
  cases f with
  | seg s part => cases s <;> cases part <;> rfl
  | res10a | res10 | res13 | res14 | res16 => exact Eq.refl (0#(8 * vmcbRecord.width _))
  | _ => rfl

end

/-! ### Pages -/

/-- The frames of the range are frames of the address space. -/
def Grant.Fits (g : Grant) : Prop := g.pfn.toNat + g.nrPfns.toNat < 2 ^ 52

section
variable {g : Grant} {p : SvmPages} {m : Mem} {x : Addr}

theorem toNat_pfn_shiftLeft {pfn : BitVec 64} (h : pfn.toNat < 2 ^ 52) :
    (pfn <<< pageShift).toNat = pfn.toNat * 4096 := by
  rw [BitVec.toNat_shiftLeft, Nat.shiftLeft_eq]
  unfold pageShift
  omega

/-- The bytes of a range are those of its frames. -/
theorem Grant.Fits.toNat_sub_lt_iff (hg : g.Fits) :
    (x - g.pfn <<< pageShift).toNat < g.nrPfns.toNat * 4096 ↔ g.Has (x.toNat / 4096) := by
  unfold Grant.Fits at hg
  have hbase := @toNat_pfn_shiftLeft g.pfn (by omega)
  have hx := x.isLt
  unfold Grant.Has
  rw [BitVec.toNat_sub, hbase]
  omega

theorem fill_grant (hg : g.Fits) {n : Nat} (hn : n = g.nrPfns.toNat * 4096)
    (hx : ¬ g.Has (x.toNat / 4096)) : m.fill (g.pfn <<< pageShift) n 0#8 x = m x := by
  refine if_neg fun h => hx ?_
  rw [hn] at h
  exact hg.toNat_sub_lt_iff.mp h

variable (hvmcb : p.vmcbGrant.Fits)
include hvmcb

/-- Every byte of the control block is in its page. -/
theorem SvmPages.vmcb_page {k : Nat} (hk : k < vmcbRecord.size) :
    (p.vmcb <<< pageShift + BitVec.ofNat 64 k).toNat / 4096 = p.vmcb.toNat := by
  have hfits : p.vmcb.toNat + 1 < 2 ^ 52 := hvmcb
  have hbase := @toNat_pfn_shiftLeft p.vmcb (by omega)
  rw [size_vmcbRecord] at hk
  rw [BitVec.toNat_add, hbase, BitVec.toNat_ofNat]
  omega

theorem SvmPages.disjoint_iff : p.vmcbGrant.Disjoint g ↔ ¬ g.Has p.vmcb.toNat := by
  have hfits : p.vmcb.toNat + 1 < 2 ^ 52 := hvmcb
  constructor
  · exact fun h hg => h p.vmcb.toNat ⟨⟨Nat.le_refl _, Nat.lt_succ_self _⟩, hg⟩
  · rintro h q ⟨⟨hlo, hhi⟩, hg⟩
    have hq : q = p.vmcb.toNat := Nat.le_antisymm (Nat.le_of_lt_succ hhi) hlo
    exact h (hq ▸ hg)

/-- What is cleared of the control block with the pages of another range: all of it, or
nothing. -/
theorem SvmPages.get_fill_has (hg : g.Fits) {n : Nat} (hn : n = g.nrPfns.toNat * 4096)
    (h : g.Has p.vmcb.toNat) (f : VmcbField) :
    vmcbRecord.get (m.fill (g.pfn <<< pageShift) n 0#8) (p.vmcb <<< pageShift) f =
      0#(8 * vmcbRecord.width f) := by
  refine Record.get_fill_cover f fun k hk => ?_
  rw [hn, hg.toNat_sub_lt_iff, SvmPages.vmcb_page hvmcb hk]
  exact h

theorem SvmPages.get_fill_not_has (hg : g.Fits) {n : Nat} (hn : n = g.nrPfns.toNat * 4096)
    (h : ¬ g.Has p.vmcb.toNat) (f : VmcbField) :
    vmcbRecord.get (m.fill (g.pfn <<< pageShift) n 0#8) (p.vmcb <<< pageShift) f =
      vmcbRecord.get m (p.vmcb <<< pageShift) f := by
  refine Record.get_fill_apart f 0#8 fun k hk => ?_
  rw [hn, ← Nat.not_lt, hg.toNat_sub_lt_iff, SvmPages.vmcb_page hvmcb hk]
  exact h

end

/-! ### The control block after `init_amd` -/

namespace SvmPages

variable {p : SvmPages} {nCr3 : BitVec 64} {m : Mem}

/-- Neither permission map has the page of the control block. -/
def VmcbApart (p : SvmPages) : Prop :=
  p.vmcbGrant.Disjoint p.iopmGrant ∧ p.vmcbGrant.Disjoint p.msrpmGrant

theorem hsa_bytes : pageSize = p.hsaGrant.nrPfns.toNat * 4096 := by
  simp [hsaGrant, pageSize, pageShift]

theorem vmcb_bytes : vmcbRecord.size = p.vmcbGrant.nrPfns.toNat * 4096 := by
  rw [size_vmcbRecord]
  simp [vmcbGrant]

theorem iopm_bytes : 0x3000 = p.iopmGrant.nrPfns.toNat * 4096 := by
  simp [iopmGrant]

theorem msrpm_bytes : 0x2000 = p.msrpmGrant.nrPfns.toNat * 4096 := by
  simp [msrpmGrant]

section
variable (hfits : ∀ g ∈ p.grants, g.Fits)
include hfits

theorem hsaFits : p.hsaGrant.Fits := hfits _ List.mem_cons_self
theorem vmcbFits : p.vmcbGrant.Fits := hfits _ (List.mem_cons_of_mem _ List.mem_cons_self)
theorem iopmFits : p.iopmGrant.Fits :=
  hfits _ (List.mem_cons_of_mem _ (List.mem_cons_of_mem _ List.mem_cons_self))
theorem msrpmFits : p.msrpmGrant.Fits := hfits _ (List.mem_of_getLast? rfl)

theorem get_startedMem (h : p.VmcbApart) (f : VmcbField) :
    vmcbRecord.get (p.startedMem nCr3 m) (p.vmcb <<< pageShift) f =
      startField nCr3 (p.iopm <<< pageShift) (p.msrpm <<< pageShift) f := by
  have hiopm : ∀ m : Mem, vmcbRecord.get (m.fill (p.iopm <<< pageShift) 0x3000 0#8)
      (p.vmcb <<< pageShift) f = vmcbRecord.get m (p.vmcb <<< pageShift) f := fun _ =>
    get_fill_not_has (g := p.iopmGrant) (vmcbFits hfits) (iopmFits hfits) iopm_bytes
      ((disjoint_iff (vmcbFits hfits)).mp h.1) f
  have hmsrpm : ∀ m : Mem, vmcbRecord.get (m.fill (p.msrpm <<< pageShift) 0x2000 0#8)
      (p.vmcb <<< pageShift) f = vmcbRecord.get m (p.vmcb <<< pageShift) f := fun _ =>
    get_fill_not_has (g := p.msrpmGrant) (vmcbFits hfits) (msrpmFits hfits) msrpm_bytes
      ((disjoint_iff (vmcbFits hfits)).mp h.2) f
  unfold startedMem vmcbMem paramsMem
  dsimp only
  rw [Record.get_setAll, Record.get_setAll, hmsrpm, Record.get_setAll, hiopm, Record.get_setAll,
    Record.get_setAll, Record.get_fill_size]
  exact writtenField_eq f

/-- A permission map that has the page takes with it what was stored before. -/
theorem lost_startedMem (h : ¬ p.VmcbApart) {f : VmcbField}
    (hstart : vmcbRecord.written f mbrStartFields = none)
    (hiopm : vmcbRecord.written f [⟨.iopmBasePa, p.iopm <<< pageShift⟩] = none)
    (hmsrpm : vmcbRecord.written f [⟨.msrpmBasePa, p.msrpm <<< pageShift⟩] = none) :
    vmcbRecord.get (p.startedMem nCr3 m) (p.vmcb <<< pageShift) f =
      0#(8 * vmcbRecord.width f) := by
  unfold startedMem vmcbMem paramsMem
  dsimp only
  rw [Record.get_setAll, hstart, Record.get_setAll, hmsrpm, Option.getD_none, Option.getD_none]
  by_cases hin : p.msrpmGrant.Has p.vmcb.toNat
  · exact get_fill_has (g := p.msrpmGrant) (vmcbFits hfits) (msrpmFits hfits) msrpm_bytes hin _
  · have hiopmIn : p.iopmGrant.Has p.vmcb.toNat := by
      by_contra hout
      exact h ⟨(disjoint_iff (vmcbFits hfits)).mpr hout, (disjoint_iff (vmcbFits hfits)).mpr hin⟩
    refine (get_fill_not_has (g := p.msrpmGrant) (vmcbFits hfits) (msrpmFits hfits) msrpm_bytes
      hin _).trans ?_
    rw [Record.get_setAll, hiopm, Option.getD_none]
    exact get_fill_has (g := p.iopmGrant) (vmcbFits hfits) (iopmFits hfits) iopm_bytes hiopmIn _

/-- The intercept of VMRUN is lost. -/
theorem general2_startedMem (h : ¬ p.VmcbApart) :
    vmcbRecord.get (p.startedMem nCr3 m) (p.vmcb <<< pageShift) .general2Intercepts = 0#32 :=
  lost_startedMem hfits h rfl rfl rfl

/-- Only the pages that were allocated change. -/
theorem startedMem_outside {x : Addr} (h : ∀ g ∈ p.grants, ¬ g.Has (x.toNat / 4096)) :
    p.startedMem nCr3 m x = m x := by
  have hhsa : ¬ p.hsaGrant.Has (x.toNat / 4096) := h _ List.mem_cons_self
  have hvmcb : ¬ p.vmcbGrant.Has (x.toNat / 4096) :=
    h _ (List.mem_cons_of_mem _ List.mem_cons_self)
  have hiopm : ¬ p.iopmGrant.Has (x.toNat / 4096) :=
    h _ (List.mem_cons_of_mem _ (List.mem_cons_of_mem _ List.mem_cons_self))
  have hmsrpm : ¬ p.msrpmGrant.Has (x.toNat / 4096) := h _ (List.mem_of_getLast? rfl)
  have hset : ∀ (ws : List vmcbRecord.Write) (m : Mem),
      vmcbRecord.setAll (p.vmcb <<< pageShift) ws m x = m x := by
    refine fun ws m => Record.setAll_outside ws ?_ m
    rw [vmcb_bytes, ← Nat.not_lt]
    exact fun hlt => hvmcb ((vmcbFits hfits).toNat_sub_lt_iff.mp hlt)
  have hmsrpmFill : ∀ m : Mem, m.fill (p.msrpm <<< pageShift) 0x2000 0#8 x = m x := fun _ =>
    fill_grant (g := p.msrpmGrant) (msrpmFits hfits) msrpm_bytes hmsrpm
  have hiopmFill : ∀ m : Mem, m.fill (p.iopm <<< pageShift) 0x3000 0#8 x = m x := fun _ =>
    fill_grant (g := p.iopmGrant) (iopmFits hfits) iopm_bytes hiopm
  have hvmcbFill : ∀ m : Mem, m.fill (p.vmcb <<< pageShift) vmcbRecord.size 0#8 x = m x :=
    fun _ => fill_grant (g := p.vmcbGrant) (vmcbFits hfits) vmcb_bytes hvmcb
  unfold startedMem vmcbMem paramsMem hsaMem
  dsimp only
  rw [hset, hset, hmsrpmFill, hset, hiopmFill, hset, hset, hvmcbFill]
  split
  · exact fill_grant (g := p.hsaGrant) (hsaFits hfits) hsa_bytes hhsa
  · rfl

end

end SvmPages

/-! ## `vm_init` -/

/-- What the processor says of SVM and of nested paging. -/
structure ReportsSvm (cpuid : Cpuid) : Prop where
  extended : CpuinfoX86.hasExtended (cpuid 0x80000000#32).eax 0x80000001#32 = true
  svm : has (cpuid 0x80000001#32).ecx (1#32 <<< 2) = true
  npt : (cpuid 0x8000000a#32).edx &&& svmFeatureNpt ≠ 0#32

section
variable {cpuid : Cpuid} {cpu : VmxCpu} {s s' : InitState}

/-- The flags that `init_amd` sets are not in the word with the feature bit of SVM. -/
theorem x86Capability_six_amdFlags (c : CpuinfoX86) :
    (amdFlags cpuid c).x86Capability 6 = c.x86Capability 6 := by
  unfold amdFlags
  dsimp only
  rw [CpuinfoX86.x86Capability_displayCacheinfo]
  split
  · simp [CpuinfoX86.setBit, CpuinfoX86.clearBit, x86FeatureFxsaveLeak, x86FeatureRepGood]
  · simp [CpuinfoX86.setBit, CpuinfoX86.clearBit, x86FeatureFxsaveLeak]

theorem hasSvm_iff (c : CpuinfoX86) :
    HasSvm cpuid (amdFlags cpuid (c.earlyIdentifyCpu cpuid)) ↔ ReportsSvm cpuid := by
  have hword : (amdFlags cpuid (c.earlyIdentifyCpu cpuid)).testBit x86FeatureSvm =
      has (if CpuinfoX86.hasExtended (cpuid 0x80000000#32).eax 0x80000001#32 then
        (cpuid 0x80000001#32).ecx else 0#32) (1#32 <<< 2) := by
    rw [← CpuinfoX86.x86Capability_six_earlyIdentifyCpu cpuid c, ← x86Capability_six_amdFlags]
    rfl
  constructor
  · rintro ⟨hsvm, hnpt⟩
    rw [hword] at hsvm
    by_cases hext : CpuinfoX86.hasExtended (cpuid 0x80000000#32).eax 0x80000001#32
    · rw [if_pos hext] at hsvm
      exact ⟨hext, hsvm, hnpt⟩
    · rw [if_neg hext] at hsvm
      exact absurd hsvm (by decide)
  · rintro ⟨hext, hsvm, hnpt⟩
    exact ⟨by rw [hword, if_pos hext, hsvm], hnpt⟩

/-- The processor of the vendor `init_amd` is for. -/
abbrev IsAmd (cpuid : Cpuid) : Prop := (cpuid 0#32).Names (literal "AuthenticAMD")

/-- An AMD processor with SVM and nested paging. -/
def Cpuid.amd : Cpuid := fun op =>
  if op = 0#32 then ⟨1#32, 0x68747541#32, 0x444d4163#32, 0x69746e65#32⟩
  else if op = 0x80000000#32 then ⟨0x8000000a#32, 0#32, 0#32, 0#32⟩
  else if op = 0x80000001#32 then ⟨0#32, 0#32, 4#32, 0#32⟩
  else if op = 0x8000000a#32 then ⟨0#32, 0#32, 0#32, 1#32⟩
  else ⟨0#32, 0#32, 0#32, 0#32⟩

def InitState.blank (nalloc : NaiveAllocator) : InitState where
  cpuinfo :=
    { x86 := 0#8, x86Vendor := 0#8, x86Model := 0#8, x86Mask := 0#8, cpuidMaxStdfunc := 0#32,
      cpuidMaxExfunc := 0#32, x86Capability := fun _ => 0#32, x86VendorId := fun _ => 0#8,
      x86ModelId := fun _ => 0#8, x86CacheSize := 0#32, x86CacheAlignment := 0#32,
      x86ClflushSize := 0#16, x86Tlbsize := 0#32, x86VirtBits := 0#8, x86PhysBits := 0#8,
      x86Power := 0#32, x86MaxCores := 0#16 }
  setup := .created { VmxState.sample with host := ⟨fun _ => 0#8, nalloc⟩ }
  vmcb := 0#64
  vmRun := none
  vmExit := none
  hostSaveArea := 0#64

theorem isAmd_amd : IsAmd .amd := by decide +kernel

theorem reportsSvm_amd : ReportsSvm .amd := ⟨by decide, by decide, by decide⟩

theorem returns_vmInit_of_amd (hamd : IsAmd cpuid) :
    (vmInit cpuid cpu).Returns s () s' ↔
      ReportsSvm cpuid ∧ ∃ (p : SvmPages) (nalloc : NaiveAllocator),
      allocAll svmRequests s.nalloc = .ok (p.grants, nalloc) ∧
        (s.setCpuinfo (CpuinfoX86.earlyIdentifyCpu cpuid)).started cpuid p nalloc = s' := by
  unfold vmInit modifyCpuinfo
  rw [Exec.returns_modify_bind, Exec.returns_read_bind, if_pos, returns_initAmd]
  · exact and_congr_left fun _ => hasSvm_iff s.cpuinfo
  · refine (CpuinfoX86.x86Vendor_earlyIdentifyCpu cpuid s.cpuinfo).trans ?_
    exact if_pos hamd

/-- Without `init_amd` nothing sets the handlers. -/
theorem vmInit_keeps_handlers (hamd : ¬ IsAmd cpuid) (h : (vmInit cpuid cpu).Returns s () s') :
    s'.vmRun = s.vmRun ∧ s'.vmExit = s.vmExit := by
  unfold vmInit modifyCpuinfo at h
  rw [Exec.returns_modify_bind, Exec.returns_read_bind, if_neg] at h
  · split at h
    · obtain ⟨t, -, rfl⟩ := Exec.returns_within.mp h
      exact ⟨rfl, rfl⟩
    · exact absurd h (not_returns_initFatal _ _)
  · intro hvendor
    have hother := (CpuinfoX86.x86Vendor_earlyIdentifyCpu cpuid s.cpuinfo).symm.trans hvendor
    unfold CpuinfoX86.vendorOf at hother
    rw [if_neg hamd] at hother
    split at hother
    · exact absurd hother (by decide)
    · exact absurd hother (by decide)

/-- The handlers that `vm_boot` calls are set exactly on an AMD processor that reports SVM and
nested paging, when the allocator serves the requests; `init_intel` leaves them null. -/
theorem vmInit_handlers_iff (cpuid : Cpuid) (cpu : VmxCpu) (s : InitState)
    (hnull : s.vmRun = none ∧ s.vmExit = none) :
    ((∃ s', (vmInit cpuid cpu).Returns s () s' ∧ s'.vmRun = some .svmRun ∧
        s'.vmExit = some .handleVmexit) ↔
      IsAmd cpuid ∧ ReportsSvm cpuid ∧ ∃ (p : SvmPages) (nalloc : NaiveAllocator),
        allocAll svmRequests s.nalloc = .ok (p.grants, nalloc)) ∧
    ∀ s', (vmInit cpuid cpu).Returns s () s' →
      (IsAmd cpuid ∧ s'.vmRun = some .svmRun ∧ s'.vmExit = some .handleVmexit) ∨
        (¬ IsAmd cpuid ∧ s'.vmRun = none ∧ s'.vmExit = none) := by
  have hkeep : ∀ {s'}, ¬ IsAmd cpuid → (vmInit cpuid cpu).Returns s () s' →
      s'.vmRun = none ∧ s'.vmExit = none := by
    intro s' hamd h
    obtain ⟨hrun, hexit⟩ := vmInit_keeps_handlers hamd h
    rw [hrun, hexit]
    exact hnull
  refine ⟨⟨?_, ?_⟩, ?_⟩
  · rintro ⟨s', h, hrun, -⟩
    by_cases hamd : IsAmd cpuid
    · obtain ⟨hsvm, p, nalloc, halloc, -⟩ := (returns_vmInit_of_amd hamd).mp h
      exact ⟨hamd, hsvm, p, nalloc, halloc⟩
    · rw [(hkeep hamd h).1] at hrun
      cases hrun
  · rintro ⟨hamd, hsvm, p, nalloc, halloc⟩
    exact ⟨_, (returns_vmInit_of_amd hamd).mpr ⟨hsvm, p, nalloc, halloc, rfl⟩, rfl, rfl⟩
  · intro s' h
    by_cases hamd : IsAmd cpuid
    · obtain ⟨-, p, nalloc, -, rfl⟩ := (returns_vmInit_of_amd hamd).mp h
      exact Or.inl ⟨hamd, rfl, rfl⟩
    · exact Or.inr ⟨hamd, hkeep hamd h⟩

/-- Where frame 0 is taken and the others are clear, all requests are served. -/
theorem allocAll_low : allocAll svmRequests ⟨#[1#64], 64#64⟩ =
    .ok ((SvmPages.mk 1#64 2#64 3#64 6#64).grants, ⟨#[0xff#64], 64#64⟩) := by decide +kernel

theorem vmInit_handlers_iff_amd :
    ∃ s', (vmInit .amd .willing).Returns (.blank ⟨#[1#64], 64#64⟩) () s' ∧
      s'.vmRun = some .svmRun ∧ s'.vmExit = some .handleVmexit :=
  (vmInit_handlers_iff .amd .willing (.blank ⟨#[1#64], 64#64⟩) ⟨rfl, rfl⟩).1.mpr
    ⟨isAmd_amd, reportsSvm_amd, _, _, allocAll_low⟩

end

/-! ## The pages it gets -/

section
variable {e820 : E820Map} {pml : PmemLayout} {granted : List Grant} {nalloc : NaiveAllocator}

/-- A request that is served. -/
theorem Manages.served_of_ok (hm : Manages e820 pml granted nalloc) {nrPfns pfn : BitVec 64}
    {nalloc' : NaiveAllocator} (h : allocHostPages nrPfns 1#64 nalloc = .ok (pfn, nalloc')) :
    Served nalloc nrPfns 1#64 pfn nalloc' := by
  have hmax := hm.maxPage_lt
  have hlt : nrPfns.toNat < nalloc.maxPage.toNat := by
    have hbelow := (allocHostPages_below h).1
    omega
  have hone : (1#64).toNat = 1 := rfl
  rcases @allocPages_spec nalloc nrPfns 1#64 hmax hm.room (Nat.le_of_lt hlt) (by omega)
    (.inr (by omega)) with ⟨hfail, -⟩ | ⟨pfn', n', hok, hserved⟩
  · have hfail := hfail.symm.trans h
    cases hfail
  · cases hok.symm.trans h
    exact hserved

/-- Ranges that are served in turn are frames of the address space. -/
theorem allocAll_fits {requests : List Request} (hone : ∀ r ∈ requests, r.pfnAlign = 1#64) :
    ∀ {nalloc nalloc' : NaiveAllocator} {grants : List Grant}, nalloc.maxPage.toNat ≤ 2 ^ 52 →
      allocAll requests nalloc = .ok (grants, nalloc') → ∀ g ∈ grants, g.Fits := by
  induction requests with
  | nil =>
    intro _ _ _ _ h
    cases h
    simp
  | cons r rs ih =>
    intro nalloc nalloc' grants hmax h
    rw [allocAll] at h
    obtain ⟨⟨pfn, n⟩, hpfn, h⟩ := bind_ok_iff.mp h
    obtain ⟨⟨rest, n'⟩, hrest, h⟩ := bind_ok_iff.mp h
    cases h
    rw [hone r List.mem_cons_self] at hpfn
    obtain ⟨hbelow, hkeep⟩ := allocHostPages_below hpfn
    refine List.forall_mem_cons.mpr ⟨Nat.lt_of_lt_of_le hbelow hmax, ?_⟩
    exact ih (fun r' hr' => hone r' (List.mem_cons_of_mem _ hr')) (hkeep ▸ hmax) hrest

/-- The pages below page 32 lie under the heap. -/
theorem Manages.taken_low (hm : Manages e820 pml granted nalloc) {p : Nat} (hp : p < 32) :
    Taken nalloc p := by
  refine (hm.taken p ?_).mpr (.inl fun e _ hf => ?_)
  · have hroom := hm.room
    omega
  · have hs := hm.heapStart
    have hlow := hf.heapStart_le
    rw [toNat_hostAbStart] at hs
    omega

/-- A request for up to 32 pages gets those from page 32 on, whatever went out before: the pages
below lie under the heap, and the bits of these are in the high half of their word. -/
theorem Manages.allocHostPages_small (hm : Manages e820 pml granted nalloc) {nrPfns : BitVec 64}
    (hpos : 0 < nrPfns.toNat) (hle : nrPfns.toNat ≤ 32)
    (hmax : 32 + nrPfns.toNat < nalloc.maxPage.toNat) :
    ∃ nalloc', allocHostPages nrPfns 1#64 nalloc = .ok (32#64, nalloc') ∧
      Manages e820 pml (⟨32#64, nrPfns, 1#64⟩ :: granted) nalloc' := by
  have hone : (1#64).toNat = 1 := rfl
  have hlooks : LooksFree nalloc 32 nrPfns.toNat := fun q hlo hhi hlow => by omega
  have hnot : ∀ j, j < 32 → ¬ LooksFree nalloc j nrPfns.toNat := fun j hj h =>
    h j (Nat.le_refl j) (by omega) (by omega) (hm.taken_low hj)
  rcases @allocPages_spec nalloc nrPfns 1#64 hm.maxPage_lt hm.room (by omega) (by omega)
    (.inr (by omega)) with ⟨-, hno⟩ | ⟨pfn, nalloc', hok, hserved⟩
  · exact absurd hlooks (hno 32 ⟨32, (Nat.one_mul 32).symm⟩ hmax)
  · have hpfn : pfn = 32#64 := by
      apply BitVec.eq_of_toNat_eq
      rcases Nat.lt_trichotomy pfn.toNat 32 with hlt | heq | hgt
      · exact absurd hserved.looksFree (hnot _ hlt)
      · exact heq
      · exact absurd hlooks (hserved.first 32 ⟨32, (Nat.one_mul 32).symm⟩ hgt)
    subst hpfn
    exact ⟨nalloc', hok, @Manages.served _ _ _ _ ⟨nrPfns, 1#64⟩ _ _ hm hserved⟩

/-- A request that is served has its pages from page 32 on. -/
theorem Manages.lt_maxPage (hm : Manages e820 pml granted nalloc) {nrPfns pfn : BitVec 64}
    {nalloc' : NaiveAllocator} (hpos : 0 < nrPfns.toNat)
    (h : allocHostPages nrPfns 1#64 nalloc = .ok (pfn, nalloc')) :
    32 + nrPfns.toNat < nalloc.maxPage.toNat := by
  have hserved := hm.served_of_ok h
  have hbelow := hserved.below
  by_contra hmax
  have hlow : pfn.toNat < 32 := by omega
  exact hserved.looksFree pfn.toNat (Nat.le_refl _) (by omega) (by omega) (hm.taken_low hlow)

end

/-! ## What `vm_init` leaves behind -/

/-- The control block as `vmcb_check_consistency` and the handlers see it. -/
def InitState.control (s : InitState) : VmcbChecked :=
  VmcbChecked.ofFields (vmcbRecord.get s.mem s.vmcb)

/-- Every field of the control block is as it is meant to be. -/
def InitState.Ready (nCr3 : BitVec 64) (p : SvmPages) (s : InitState) : Prop :=
  ∀ f, vmcbRecord.get s.mem s.vmcb f =
    startField nCr3 (p.iopm <<< pageShift) (p.msrpm <<< pageShift) f

section
variable {e820 : E820Map} {pml : PmemLayout} {granted : List Grant} {cpuid : Cpuid}
  {s : InitState} {p : SvmPages} {nalloc nalloc' : NaiveAllocator}

theorem mem_started : (s.started cpuid p nalloc).mem = p.startedMem s.nCr3 s.mem := rfl

theorem nalloc_started : (s.started cpuid p nalloc).nalloc = nalloc := rfl

theorem vmcb_started : (s.started cpuid p nalloc).vmcb = p.vmcb <<< pageShift := rfl

theorem control_started (hfits : ∀ g ∈ p.grants, g.Fits) (h : p.VmcbApart) :
    (s.started cpuid p nalloc).control =
      { Vmcb.mbrStart with csAttrs := 0x019b#16, dr7 := 0#64, dr6 := 0#64 } := by
  have hread : vmcbRecord.get (p.startedMem s.nCr3 s.mem) (p.vmcb <<< pageShift) =
      startField s.nCr3 (p.iopm <<< pageShift) (p.msrpm <<< pageShift) :=
    funext fun f => SvmPages.get_startedMem hfits h f
  unfold InitState.control
  rw [mem_started, vmcb_started, hread]
  rfl

theorem general2Intercepts_started (hfits : ∀ g ∈ p.grants, g.Fits) (h : ¬ p.VmcbApart) :
    (s.started cpuid p nalloc).control.general2Intercepts = 0#32 := by
  unfold InitState.control
  rw [mem_started, vmcb_started]
  exact SvmPages.general2_startedMem hfits h

theorem consistent_started_iff (hfits : ∀ g ∈ p.grants, g.Fits) :
    vmcbCheckConsistency.Returns (s.started cpuid p nalloc).control () ↔ p.VmcbApart := by
  by_cases h : p.VmcbApart
  · rw [control_started hfits h]
    exact iff_of_true (by decide +kernel) h
  · refine iff_of_false (fun hret => ?_) h
    have hzero : (s.started cpuid p nalloc).control.checkVmrunIntercept = 0#32 :=
      (returns_runChecks consistencyChecks).mp hret
        ⟨VmcbChecked.checkVmrunIntercept, "The VMRUN intercept bit is clear.\n"⟩ (by
          simp [consistencyChecks])
    unfold VmcbChecked.checkVmrunIntercept at hzero
    rw [general2Intercepts_started hfits h] at hzero
    exact absurd hzero (by decide)

theorem ready_started_iff (hfits : ∀ g ∈ p.grants, g.Fits) :
    (s.started cpuid p nalloc).Ready s.nCr3 p ↔ p.VmcbApart := by
  unfold InitState.Ready
  rw [mem_started, vmcb_started]
  constructor
  · intro hready
    by_contra h
    have hzero := @SvmPages.general2_startedMem p s.nCr3 s.mem hfits h
    have hset : intrcptVmrun ||| intrcptVmmcall = 0#32 :=
      (hready .general2Intercepts).symm.trans hzero
    exact absurd hset (by decide)
  · exact fun h f => SvmPages.get_startedMem hfits h f

theorem started_outside (hfits : ∀ g ∈ p.grants, g.Fits) {x : Addr}
    (h : ∀ g ∈ p.grants, ¬ g.Has (x.toNat / 4096)) :
    (s.started cpuid p nalloc).mem x = s.mem x := by
  rw [mem_started]
  exact SvmPages.startedMem_outside hfits h

theorem svmRequests_aligned : ∀ r ∈ svmRequests, r.pfnAlign = 1#64 := by decide

/-- All that `init_amd` gets is page 32. -/
def SvmPages.page32 : SvmPages := ⟨32#64, 32#64, 32#64, 32#64⟩

theorem SvmPages.page32_fits : ∀ g ∈ SvmPages.page32.grants, g.Fits := by
  unfold Grant.Fits
  decide

theorem SvmPages.page32_meets : ¬ SvmPages.page32.VmcbApart :=
  fun h => h.1 32 ⟨⟨by decide, by decide⟩, ⟨by decide, by decide⟩⟩

/-- The requests of `init_amd` are all served with page 32. -/
theorem Manages.allocAll_svmRequests (hm : Manages e820 pml granted nalloc)
    (hmax : 35 < nalloc.maxPage.toNat) :
    ∃ nalloc', allocAll svmRequests nalloc = .ok (SvmPages.page32.grants, nalloc') := by
  have hkeep : ∀ {granted' : List Grant} {n : NaiveAllocator}, Manages e820 pml granted' n →
      35 < n.maxPage.toNat := by
    intro _ n hm'
    rwa [hm'.maxPage_eq, ← hm.maxPage_eq]
  have hserve : ∀ {granted' : List Grant} {n : NaiveAllocator} (nr : BitVec 64),
      Manages e820 pml granted' n → 0 < nr.toNat → nr.toNat ≤ 3 →
        ∃ n', allocHostPages nr 1#64 n = .ok (32#64, n') ∧
          Manages e820 pml (⟨32#64, nr, 1#64⟩ :: granted') n' := by
    intro _ n nr hm' hpos hle
    have hroom := hkeep hm'
    exact hm'.allocHostPages_small hpos (by omega) (by omega)
  obtain ⟨n₁, hhsa, hm₁⟩ := hserve 1#64 hm (by decide) (by decide)
  obtain ⟨n₂, hvmcb, hm₂⟩ := hserve 1#64 hm₁ (by decide) (by decide)
  obtain ⟨n₃, hiopm, hm₃⟩ := hserve 3#64 hm₂ (by decide) (by decide)
  obtain ⟨n₄, hmsrpm, -⟩ := hserve 2#64 hm₃ (by decide) (by decide)
  exact ⟨n₄, Mavmm.allocAll_svmRequests.mpr ⟨n₁, n₂, n₃, hhsa, hvmcb, hiopm, hmsrpm⟩⟩

/-- With fewer pages the I/O permission map is not served. -/
theorem Manages.lt_of_svmRequests (hm : Manages e820 pml granted nalloc)
    (h : allocAll svmRequests nalloc = .ok (p.grants, nalloc')) : 35 < nalloc.maxPage.toNat := by
  obtain ⟨n₁, n₂, n₃, hhsa, hvmcb, hiopm, -⟩ := Mavmm.allocAll_svmRequests.mp h
  have hm₁ := @Manages.served _ _ _ _ ⟨1#64, 1#64⟩ _ _ hm (hm.served_of_ok hhsa)
  have hm₂ := @Manages.served _ _ _ _ ⟨1#64, 1#64⟩ _ _ hm₁ (hm₁.served_of_ok hvmcb)
  have hlt := hm₂.lt_maxPage (by decide) hiopm
  rwa [hm₂.maxPage_eq, ← hm.maxPage_eq] at hlt

end

theorem SvmPages.grants_injective {p q : SvmPages} (h : p.grants = q.grants) : p = q := by
  obtain ⟨hhsa, h⟩ := List.cons.inj h
  obtain ⟨hvmcb, h⟩ := List.cons.inj h
  obtain ⟨hiopm, h⟩ := List.cons.inj h
  obtain ⟨hmsrpm, -⟩ := List.cons.inj h
  cases p
  cases q
  rw [SvmPages.mk.injEq]
  exact ⟨congrArg Grant.pfn hhsa, congrArg Grant.pfn hvmcb, congrArg Grant.pfn hiopm,
    congrArg Grant.pfn hmsrpm⟩

/-- The control block that `vm_init` leaves in memory is the intended one, and passes the
consistency check, exactly if neither permission map got its page; no byte outside the pages that
were allocated has changed. -/
theorem vmInit_vmcb_iff (cpuid : Cpuid) (cpu : VmxCpu) (s s' : InitState)
    (hmax : s.nalloc.maxPage.toNat ≤ 2 ^ 52) (hamd : IsAmd cpuid)
    (h : (vmInit cpuid cpu).Returns s () s') :
    ∃ p : SvmPages, allocAll svmRequests s.nalloc = .ok (p.grants, s'.nalloc) ∧
      s'.vmcb = p.vmcb <<< pageShift ∧ (s'.Ready s.nCr3 p ↔ p.VmcbApart) ∧
      (vmcbCheckConsistency.Returns s'.control () ↔ p.VmcbApart) ∧
      ∀ x, (∀ g ∈ p.grants, ¬ g.Has (x.toNat / 4096)) → s'.mem x = s.mem x := by
  obtain ⟨-, p, nalloc, halloc, rfl⟩ := (returns_vmInit_of_amd hamd).mp h
  have hfits := allocAll_fits svmRequests_aligned hmax halloc
  have hready := @ready_started_iff cpuid
    (s.setCpuinfo (CpuinfoX86.earlyIdentifyCpu cpuid)) p nalloc hfits
  rw [nCr3_setCpuinfo] at hready
  rw [nalloc_started]
  refine ⟨p, halloc, vmcb_started, hready, consistent_started_iff hfits, fun x hx => ?_⟩
  exact started_outside hfits hx

/-- Where low pages are clear, those it gets are apart, and the control block is as it should
be. -/
theorem vmInit_vmcb_iff_low :
    ∃ s', (vmInit .amd .willing).Returns (.blank ⟨#[1#64], 64#64⟩) () s' ∧
      allocAll svmRequests ⟨#[1#64], 64#64⟩ =
        .ok ((SvmPages.mk 1#64 2#64 3#64 6#64).grants, s'.nalloc) ∧
      s'.Ready 0#64 (.mk 1#64 2#64 3#64 6#64) ∧ vmcbCheckConsistency.Returns s'.control () := by
  have h : (vmInit .amd .willing).Returns (.blank ⟨#[1#64], 64#64⟩) () _ :=
    (returns_vmInit_of_amd isAmd_amd).mpr ⟨reportsSvm_amd, _, _, allocAll_low, rfl⟩
  obtain ⟨p, hp, -, hready, hconsistent, -⟩ :=
    vmInit_vmcb_iff .amd .willing (.blank ⟨#[1#64], 64#64⟩) _ (by decide) isAmd_amd h
  have hsame := Except.ok.inj (allocAll_low.symm.trans hp)
  obtain rfl : SvmPages.mk 1#64 2#64 3#64 6#64 = p :=
    SvmPages.grants_injective (congrArg Prod.fst hsame)
  have hapart : (SvmPages.mk 1#64 2#64 3#64 6#64).VmcbApart := by
    have hfits := allocAll_fits svmRequests_aligned (by decide) allocAll_low
    constructor
    · exact (SvmPages.disjoint_iff (SvmPages.vmcbFits hfits)).mpr fun h => absurd h.1 (by decide)
    · exact (SvmPages.disjoint_iff (SvmPages.vmcbFits hfits)).mpr fun h => absurd h.1 (by decide)
  exact ⟨_, h, allocAll_low, hready.mpr hapart, hconsistent.mpr hapart⟩

/-- On every machine that has been set up, an AMD processor with SVM and nested paging comes
through `vm_init`, and all it allocates is page 32: the permission maps clear the control block,
and what is left does not intercept VMRUN. -/
theorem vmInit_control_cleared {e820 : E820Map} {pml : PmemLayout} {granted : List Grant}
    (cpuid : Cpuid) (cpu : VmxCpu) (s : InitState) (hm : Manages e820 pml granted s.nalloc)
    (hmax : 35 < s.nalloc.maxPage.toNat) (hamd : IsAmd cpuid) (hsvm : ReportsSvm cpuid) :
    ∃ s', (vmInit cpuid cpu).Returns s () s' ∧ s'.vmcb = 0x20000#64 ∧
      s'.hostSaveArea = 0x20000#64 ∧
      allocAll svmRequests s.nalloc = .ok (SvmPages.page32.grants, s'.nalloc) ∧
      s'.control.general2Intercepts = 0#32 ∧ ¬ vmcbCheckConsistency.Returns s'.control () := by
  obtain ⟨nalloc, halloc⟩ := hm.allocAll_svmRequests hmax
  refine ⟨_, (returns_vmInit_of_amd hamd).mpr ⟨hsvm, _, nalloc, halloc, rfl⟩, vmcb_started, rfl,
    halloc, general2Intercepts_started SvmPages.page32_fits SvmPages.page32_meets, ?_⟩
  rw [consistent_started_iff SvmPages.page32_fits]
  exact SvmPages.page32_meets

theorem vmInit_control_cleared_ramMap :
    ∃ pml nalloc s', setupMemory ramMap defaultVmmPmemSize = .ok (pml, nalloc) ∧
      (vmInit .amd .willing).Returns (.blank nalloc) () s' ∧ s'.vmcb = 0x20000#64 ∧
      s'.hostSaveArea = 0x20000#64 ∧
      allocAll svmRequests nalloc = .ok (SvmPages.page32.grants, s'.nalloc) ∧
      s'.control.general2Intercepts = 0#32 ∧ ¬ vmcbCheckConsistency.Returns s'.control () := by
  obtain ⟨pml, nalloc, hsetup, hm, -⟩ := setupMemory_ramMap
  have hmax : 35 < nalloc.maxPage.toNat := by
    rw [hm.maxPage_eq]
    decide
  obtain ⟨s', h⟩ :=
    vmInit_control_cleared .amd .willing (.blank nalloc) hm hmax isAmd_amd reportsSvm_amd
  exact ⟨pml, nalloc, s', hsetup, h⟩

end Mavmm
