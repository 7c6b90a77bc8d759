import Mavmm.AllocSafety
import Mavmm.VmxControls
import Mavmm.VmxSetup

/-!
# The addresses that the processor is given

Every structure that the processor reads or writes by itself should be a page of
its own, and the processor should be given the byte address of that page.  It is
not: VMXON is given the pointer to a VMCS that does not exist yet, so the law
fails in every run that gets as far as VMXON, and in no other
(`vmx_regions_sound_iff`).  The root of the nested page table is shifted once
more than it should be (`eptRoot_eq_iff`), and an MSR area is given by the number
of its page.
-/

namespace Mavmm

/-! ## The law -/

/-- The structures whose physical address the processor is given. -/
inductive VmxRegion where
  | vmxon
  | vmcs
  | ioBitmapA
  | ioBitmapB
  | msrBitmap
  | msrArea (list : MsrList)
  | eptRoot
deriving DecidableEq

/-- The address of the page table in an EPT pointer: bits 12 to 51. -/
def eptRoot (eptp : BitVec 64) : BitVec 64 := eptp &&& 0x000ffffffffff000#64

namespace VmxEvent

/-- The structure whose address the event gives, and the address. -/
def gives : VmxEvent → Option (VmxRegion × BitVec 64)
  | .vmxon addr => some (.vmxon, addr)
  | .vmpclear addr => some (.vmcs, addr)
  | .vmptrld addr => some (.vmcs, addr)
  | .vmwrite ⟨.ioBitmapA, addr⟩ => some (.ioBitmapA, addr)
  | .vmwrite ⟨.ioBitmapB, addr⟩ => some (.ioBitmapB, addr)
  | .vmwrite ⟨.msrBitmap, addr⟩ => some (.msrBitmap, addr)
  | .vmwrite ⟨.eptPointer, eptp⟩ => some (.eptRoot, eptRoot eptp)
  | .vmwriteStart .vmExitMsrStoreAddr addr => some (.msrArea .guest, addr)
  | .vmwriteStart .vmEntryMsrLoadAddr addr => some (.msrArea .guest, addr)
  | .vmwriteStart .vmExitMsrLoadAddr addr => some (.msrArea .hostLoad, addr)
  | _ => none

end VmxEvent

/-- The processor is given `addr` as the address of the region. -/
def Gives (log : List VmxEvent) (region : VmxRegion) (addr : BitVec 64) : Prop :=
  ∃ e ∈ log, e.gives = some (region, addr)

/-- The address is that of the first byte of a frame that was granted. -/
def PageOf (grants : List Grant) (addr : BitVec 64) : Prop :=
  ∃ g ∈ grants, ∃ p, g.Has p ∧ addr.toNat = p * 4096

/-- The law, for what a run from `s` gives the processor; `earlier` was granted before the run. -/
structure RegionsSound (earlier : List Grant) (s : VmxState) (log : List VmxEvent) : Prop where
  page : ∃ requests grants nalloc, allocAll requests s.host.nalloc = .ok (grants, nalloc) ∧
    ∀ region addr, Gives log region addr →
      PageOf (if region = .eptRoot then earlier else grants) addr
  distinct : ∀ region region' addr addr', Gives log region addr → Gives log region' addr' →
    region ≠ region' → addr ≠ addr'
  root : ∀ addr, Gives log .eptRoot addr → addr = s.nCr3
  stores : ∀ list addr size, .store list addr size ∈ log → ∃ area, Gives log (.msrArea list) area ∧
    area.toNat ≤ addr.toNat ∧ addr.toNat + size ≤ area.toNat + 4096

/-- The processor passes the tests of `enable_vmx`, and `alloc_host_pages` has a page for the
VMXON region. -/
structure ReachesVmxon (ecx : BitVec 32) (s : VmxState) : Prop where
  vmx : has ecx (1#32 <<< x86FeatureVmx)
  ept : has (s.vars.detect s.msrs).secondaryExec.control secondaryExecEnableEpt
  cr0 : ¬ (~~~s.cr0 &&& s.msrs msrIa32VmxCr0Fixed0 ≠ 0#64 ∨
    s.cr0 &&& ~~~s.msrs msrIa32VmxCr0Fixed1 ≠ 0#64)
  bios : ¬ (has (msrLow s.msrs ia32FeatureControlMsr) ia32FeatureControlMsrLock ∧
    ¬ has (msrLow s.msrs ia32FeatureControlMsr) ia32FeatureControlMsrEnableVmxonOutsideSmx)
  page : ∃ pfn nalloc, allocHostPages 1#64 1#64 s.host.nalloc = .ok (pfn, nalloc) ∧ pfn ≠ 0#64

/-! ## The root of the nested page table -/

/-- The root that the processor reads: the address of the table, shifted once more. -/
theorem eptRoot_eptControlFor (nCr3 x : BitVec 64) :
    eptRoot (eptControlFor nCr3 x) = (nCr3 <<< 12) &&& 0x000ffffffffff000#64 := by
  unfold eptRoot eptControlFor
  dsimp only
  apply BitVec.eq_of_getLsbD_eq
  intro i hi
  rw [BitVec.getLsbD_and, BitVec.getLsbD_and, Bits.getLsbD_setField _ _ _ _ hi,
    BitVec.getLsbD_shiftLeft]
  by_cases hlo : i < 12
  · have hmask : ∀ i < 12, (0x000ffffffffff000#64).getLsbD i = false := by decide
    rw [hmask i hlo, Bool.and_false, Bool.and_false]
  · rw [if_pos (by omega), BitVec.getLsbD_setWidth]
    simp [hi, hlo, show i - 12 < 52 by omega]

/-- The root is that of the nested page table only if the table is at address 0. -/
theorem eptRoot_eq_iff {nCr3 x : BitVec 64} :
    eptRoot (eptControlFor nCr3 x) = nCr3 ↔ nCr3 = 0#64 := by
  rw [eptRoot_eptControlFor]
  constructor
  · intro h
    have hstep : ∀ i, nCr3.getLsbD i = true → ¬ i < 12 ∧ nCr3.getLsbD (i - 12) = true := by
      intro i hi
      rw [← h, BitVec.getLsbD_and, BitVec.getLsbD_shiftLeft] at hi
      simp only [Bool.and_eq_true, Bool.not_eq_true', decide_eq_true_eq, decide_eq_false_iff_not]
        at hi
      exact ⟨hi.1.1.2, hi.1.2⟩
    apply BitVec.eq_of_getLsbD_eq
    intro i _
    rw [BitVec.getLsbD_zero]
    -- every bit comes from the one twelve below it
    induction i using Nat.strongRecOn with
    | _ i ih =>
      refine Bool.eq_false_iff.mpr fun hbit => ?_
      obtain ⟨hle, hbelow⟩ := hstep i hbit
      rw [ih (i - 12) (by omega) (by omega)] at hbelow
      cases hbelow
  · rintro rfl
    decide

/-! ## As far as VMXON -/

section
variable {ecx : BitVec 32} {P : VmxEvent → Prop} {s s' : VmxSetup}

theorem emits_enableVmx {P : Vmwrite → Prop} {s : VmxState} : (enableVmx ecx).Emits P s := by
  simp only [enableVmx, vmxDetectCapability, modifyVars, Exec.emits_bind, Exec.emits_when,
    Exec.emits_probe, Exec.emits_modify, Probe.emits_ofExcept, Probe.emits_read, implies_true,
    and_self]

theorem emits_onHost {α : Type} {x : HostM α} {P : Vmwrite → Prop} {s : VmxState} :
    (onHost x).Emits P s := ⟨nofun⟩

theorem emits_allocVmcs {P : Vmwrite → Prop} {s : VmxState} : allocVmcs.Emits P s := by
  simp only [allocVmcs, Exec.emits_bind, Exec.emits_probe, Probe.emits_read, emits_onHost,
    implies_true, and_self]

theorem emits_setupFatal {α : Type} {msg : String} : (setupFatal msg : SetupM α).Emits P s :=
  Exec.emits_probe.mpr Probe.emits_ofExcept

/-- Nothing is given to the processor before VMXON. -/
theorem emits_createVmxonRegion : (createVmxonRegion ecx).Emits P s := by
  simp only [createVmxonRegion, onVmx, Exec.emits_bind, Exec.emits_within, emits_enableVmx,
    emits_allocVmcs, Exec.emits_modify, Exec.emits_when, emits_setupFatal, implies_true, and_self]

theorem returns_onHost {α : Type} {x : HostM α} {s s' : VmxState} {a : α} :
    (onHost x).Returns s a s' ↔ ∃ host, x s.host = .ok (a, host) ∧ s.setHost host = s' := by
  unfold onHost Exec.Returns
  dsimp only
  cases x s.host with
  | error f =>
    constructor
    · intro h
      cases h
    · rintro ⟨host, h, -⟩
      cases h
  | ok r =>
    constructor
    · intro h
      cases h
      exact ⟨r.2, rfl, rfl⟩
    · rintro ⟨host, h, rfl⟩
      cases h
      rfl

section
variable {ε ω σ : Type} {c : Prop} [Decidable c] {x : Exec ε ω σ Unit}
  (hx : ∀ s s', ¬ x.Returns s () s')
include hx

/-- An action that never returns, under a condition. -/
theorem returns_unless {s s' : σ} : (Exec.when c x).Returns s () s' ↔ ¬ c ∧ s = s' := by
  rw [Exec.returns_when]
  split
  · next hc => exact ⟨fun h => absurd h (hx _ _), fun h => absurd hc h.1⟩
  · next hc => exact (and_iff_right hc).symm

theorem returns_unless_bind {β : Type} {f : Unit → Exec ε ω σ β} {b : β} {s s' : σ} :
    (Exec.when c x >>= f).Returns s b s' ↔ ¬ c ∧ (f ()).Returns s b s' := by
  rw [Exec.returns_bind]
  constructor
  · rintro ⟨⟨⟩, t, ht, hf⟩
    obtain ⟨hc, rfl⟩ := (returns_unless hx).mp ht
    exact ⟨hc, hf⟩
  · rintro ⟨hc, hf⟩
    exact ⟨(), s, (returns_unless hx).mpr ⟨hc, rfl⟩, hf⟩

end

theorem not_returns_fatal {msg : String} (s s' : VmxState) :
    ¬ (Exec.probe (Probe.ofExcept fun _ => fatalFailure msg) : VmxM Unit).Returns s () s' :=
  fun h => nomatch (Exec.returns_probe.mp h).1

theorem not_returns_setupFatal {msg : String} (s s' : VmxSetup) :
    ¬ (setupFatal msg : SetupM Unit).Returns s () s' := fun h => nomatch (Exec.returns_probe.mp h).1

theorem returns_vmxDetectCapability_bind {β : Type} {g : Unit → VmxM β} {b : β}
    {s s' : VmxState} : (vmxDetectCapability >>= g).Returns s b s' ↔
      (g ()).Returns (s.setVars (VmxVars.detect s.msrs)) b s' := Iff.rfl

/-- `enable_vmx` returns on a processor that passes its tests, and leaves the allocator alone. -/
theorem returns_enableVmx {s s' : VmxState} : (enableVmx ecx).Returns s () s' ↔
    has ecx (1#32 <<< x86FeatureVmx) ∧
    has (s.vars.detect s.msrs).secondaryExec.control secondaryExecEnableEpt ∧
    ¬ (~~~s.cr0 &&& s.msrs msrIa32VmxCr0Fixed0 ≠ 0#64 ∨
      s.cr0 &&& ~~~s.msrs msrIa32VmxCr0Fixed1 ≠ 0#64) ∧
    ¬ (has (msrLow s.msrs ia32FeatureControlMsr) ia32FeatureControlMsrLock ∧
      ¬ has (msrLow s.msrs ia32FeatureControlMsr) ia32FeatureControlMsrEnableVmxonOutsideSmx) ∧
    { s.setVars (VmxVars.detect s.msrs) with cr4 := s.cr4 ||| x86Cr4Vmxe } = s' := by
  unfold enableVmx
  rw [returns_unless_bind not_returns_fatal, returns_vmxDetectCapability_bind,
    Exec.returns_read_bind]
  dsimp only
  rw [returns_unless_bind not_returns_fatal, Exec.returns_modify_bind,
    returns_unless_bind not_returns_fatal, returns_unless not_returns_fatal, Decidable.not_not,
    Decidable.not_not]
  exact Iff.rfl

theorem shiftLeft_eq_zero_iff {nalloc nalloc' : NaiveAllocator} {pfn : BitVec 64}
    (h : allocHostPages 1#64 1#64 nalloc = .ok (pfn, nalloc')) :
    pfn <<< pageShift = 0#64 ↔ pfn = 0#64 := by
  have hle := (allocHostPages_one_page h).le
  rw [← BitVec.toNat_inj, ← BitVec.toNat_inj, BitVec.toNat_shiftLeft, Nat.shiftLeft_eq,
    BitVec.toNat_zero]
  unfold pageShift
  omega

theorem exists_returns_allocVmcs {s : VmxState} {vmcs : BitVec 64} :
    (∃ s', allocVmcs.Returns s vmcs s') ↔ ∃ pfn nalloc,
      allocHostPages 1#64 1#64 s.host.nalloc = .ok (pfn, nalloc) ∧ pfn <<< pageShift = vmcs := by
  unfold allocVmcs
  simp only [Exec.returns_read_bind, returns_onHost, bind_ok_iff]
  constructor
  · rintro ⟨s', host, ⟨⟨pfn, nalloc⟩, hpfn, h⟩, rfl⟩
    cases h
    exact ⟨pfn, nalloc, hpfn, rfl⟩
  · rintro ⟨pfn, nalloc, hpfn, rfl⟩
    exact ⟨_, _, ⟨⟨pfn, nalloc⟩, hpfn, rfl⟩, rfl⟩

theorem exists_returns_createVmxonRegion :
    (∃ t, (createVmxonRegion ecx).Returns s () t) ↔ ReachesVmxon ecx s.vmx := by
  unfold createVmxonRegion onVmx
  simp only [Exec.returns_bind, Exec.returns_within, Exec.returns_modify,
    returns_unless not_returns_setupFatal]
  constructor
  · rintro ⟨_, ⟨⟩, _, ⟨t, ht, rfl⟩, region, _, ⟨t', ht', rfl⟩, -, _, rfl, hregion, rfl⟩
    obtain ⟨hvmx, hept, hcr0, hbios, rfl⟩ := returns_enableVmx.mp ht
    obtain ⟨pfn, nalloc, hpfn, rfl⟩ := exists_returns_allocVmcs.mp ⟨_, ht'⟩
    refine ⟨hvmx, hept, hcr0, hbios, pfn, nalloc, hpfn, fun h => ?_⟩
    exact hregion ((shiftLeft_eq_zero_iff hpfn).mpr h)
  · rintro ⟨hvmx, hept, hcr0, hbios, pfn, nalloc, hpfn, hne⟩
    obtain ⟨t, henable, hhost⟩ :
        ∃ t, (enableVmx ecx).Returns s.vmx () t ∧ t.host = s.vmx.host :=
      ⟨_, returns_enableVmx.mpr ⟨hvmx, hept, hcr0, hbios, rfl⟩, rfl⟩
    obtain ⟨t', halloc⟩ := (exists_returns_allocVmcs (s := t)).mpr
      ⟨pfn, nalloc, hhost.symm ▸ hpfn, rfl⟩
    exact ⟨_, (), _, ⟨t, henable, rfl⟩, _, _, ⟨t', halloc, rfl⟩, (), _, rfl,
      fun h => hne ((shiftLeft_eq_zero_iff hpfn).mp h), rfl⟩

theorem vmcs_createVmxonRegion (h : (createVmxonRegion ecx).Returns s () s') :
    s'.vmcs = s.vmcs := by
  unfold createVmxonRegion onVmx at h
  simp only [Exec.returns_bind, Exec.returns_within, Exec.returns_modify,
    returns_unless not_returns_setupFatal] at h
  obtain ⟨⟨⟩, _, ⟨t, -, rfl⟩, region, _, ⟨t', -, rfl⟩, -, _, rfl, -, rfl⟩ := h
  rfl

/-- A page of a run that has one for the VMXON region is never page 0. -/
theorem ReachesVmxon.not_has_zero {s : VmxState} (h : ReachesVmxon ecx s)
    {requests : List Request} {grants : List Grant} {nalloc : NaiveAllocator}
    (hrun : allocAll requests s.host.nalloc = .ok (grants, nalloc)) :
    ∀ g ∈ grants, ¬ g.Has 0 := by
  obtain ⟨pfn, nalloc₁, hpfn, hne⟩ := h.page
  have hpos : 0 < pfn.toNat := Nat.pos_of_ne_zero fun h => hne (BitVec.eq_of_toNat_eq h)
  exact allocAll_not_has_zero requests ((allocHostPages_one_page hpfn).below 0 hpos) hrun

end

section
variable {cpu : VmxCpu} {calls : List (MsrList × BitVec 32)} {P : VmxEvent → Prop} {vmx : VmxState}

/-- VMXON is given the pointer to the VMCS, which is NULL. -/
theorem emits_vmxon (h : (setUpVmx cpu calls).Emits P (.created vmx))
    (hreach : ReachesVmxon cpu.cpuidEcx vmx) : P (.vmxon 0#64) := by
  obtain ⟨t, ht⟩ := (exists_returns_createVmxonRegion (s := .created vmx)).mpr hreach
  have hvmcs : t.vmcs = 0#64 := vmcs_createVmxonRegion ht
  unfold setUpVmx initIntel at h
  have hrest := (Exec.emits_bind.mp (Exec.emits_bind.mp h).1).2 () t ht
  have hon := (Exec.emits_bind.mp ((Exec.emits_bind.mp hrest).2 _ t
    (Exec.returns_probe.mpr ⟨rfl, rfl⟩))).1
  rw [hvmcs] at hon
  exact (Exec.emits_bind.mp hon).1.all _ List.mem_cons_self

theorem emits_unreached (hreach : ¬ ReachesVmxon cpu.cpuidEcx vmx) :
    (setUpVmx cpu calls).Emits P (.created vmx) := by
  have hstop : ∀ t, ¬ (createVmxonRegion cpu.cpuidEcx).Returns (.created vmx) () t :=
    fun t ht => hreach (exists_returns_createVmxonRegion.mp ⟨t, ht⟩)
  unfold setUpVmx initIntel
  refine Exec.emits_bind.mpr ⟨Exec.emits_bind.mpr ⟨emits_createVmxonRegion, ?_⟩, ?_⟩
  · exact fun _ t ht => absurd ht (hstop t)
  · intro _ _ ht
    obtain ⟨_, t, ht, -⟩ := Exec.returns_bind.mp ht
    exact absurd ht (hstop t)

/-- The law holds of a run exactly when the run stops before VMXON. -/
theorem vmx_regions_sound_iff (cpu : VmxCpu) (calls : List (MsrList × BitVec 32))
    (earlier : List Grant) (vmx : VmxState) :
    RegionsSound earlier vmx (setUpVmx cpu calls (.created vmx)).1 ↔
      ¬ ReachesVmxon cpu.cpuidEcx vmx := by
  constructor
  · intro hsound hreach
    obtain ⟨requests, grants, nalloc, hrun, hpage⟩ := hsound.page
    have hnever : (setUpVmx cpu calls).Emits (fun e => e ≠ .vmxon 0#64) (.created vmx) := by
      refine ⟨fun e he heq => ?_⟩
      subst heq
      obtain ⟨g, hg, p, hp, hzero⟩ := hpage .vmxon 0#64 ⟨_, he, rfl⟩
      have hp0 : p = 0 := by
        rw [BitVec.toNat_zero] at hzero
        omega
      exact hreach.not_has_zero hrun g hg (hp0 ▸ hp)
    exact emits_vmxon hnever hreach rfl
  · intro hreach
    have hnone : ∀ e ∈ (setUpVmx cpu calls (.created vmx)).1, False :=
      (emits_unreached (P := fun _ => False) hreach).all
    have hgives : ∀ region addr, ¬ Gives (setUpVmx cpu calls (.created vmx)).1 region addr :=
      fun _ _ ⟨e, he, _⟩ => hnone e he
    exact
      { page := ⟨[], [], _, rfl, fun region addr h => absurd h (hgives region addr)⟩
        distinct := fun region _ addr _ h => absurd h (hgives region addr)
        root := fun addr h => absurd h (hgives .eptRoot addr)
        stores := fun _ _ _ h => (hnone _ h).elim }

end

/-- A processor that accepts every address. -/
def VmxCpu.willing : VmxCpu where
  cpuidEcx := 0x20#32
  vmxon _ _ := 0#32
  vmclear _ _ := true
  vmptrld _ _ := true

/-- The nested page table is page 1; page 0 and that page are taken. -/
def VmxState.paged : VmxState := { VmxState.sample with
  msrs := fun msr =>
    if msr = msrIa32VmxBasic then 0x0018000000000000#64 else VmxState.sample.msrs msr
  host := ⟨fun _ => 0#8, ⟨#[3#64], 64#64⟩⟩
  nCr3 := 0x1000#64 }

/-- VMXON is given address 0, the root of the nested page table is given as 0x1000000, and the
area of the guest's registers, page 7, is given and filled at address 7. -/
theorem vmx_regions_unsound :
    VmxEvent.vmxon 0#64 ∈ (setUpVmx .willing [(.guest, 0x174#32)] (.created .paged)).1 ∧
    VmxEvent.vmwrite ⟨.eptPointer, 0x100001e#64⟩ ∈
      (setUpVmx .willing [(.guest, 0x174#32)] (.created .paged)).1 ∧
    VmxEvent.vmwriteStart .vmExitMsrStoreAddr 7#64 ∈
      (setUpVmx .willing [(.guest, 0x174#32)] (.created .paged)).1 ∧
    VmxEvent.store .guest 7#64 4 ∈
      (setUpVmx .willing [(.guest, 0x174#32)] (.created .paged)).1 ∧
    ¬ RegionsSound [⟨1#64, 1#64, 1#64⟩] .paged
      (setUpVmx .willing [(.guest, 0x174#32)] (.created .paged)).1 := by
  have harea : VmxEvent.vmwriteStart .vmExitMsrStoreAddr 7#64 ∈
      (setUpVmx .willing [(.guest, 0x174#32)] (.created .paged)).1 := by decide +kernel
  refine ⟨by decide +kernel, by decide +kernel, harea, by decide +kernel, fun hsound => ?_⟩
  obtain ⟨_, _, _, -, hpage⟩ := hsound.page
  -- the number of a page is no multiple of 4096
  obtain ⟨g, -, p, -, hp⟩ := hpage (.msrArea .guest) 7#64 ⟨_, harea, rfl⟩
  have hseven : (7#64).toNat = 7 := rfl
  omega

end Mavmm
