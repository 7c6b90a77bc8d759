import Mavmm.VmxRegions

/-!
# What the monitor takes the processor for (vmcs.c, vmx.c)

`enable_vmx` asks for the nested page table with `cpu_has_vmx_ept`, which tests
a bit of the control word that `vmx_detect_capability` has put together.  The
word is made from the low halves of the capability registers, the bits that
must be set; which controls a processor allows is in their high halves.
-/

namespace Mavmm

/-! ## What the registers say -/

/-- The global variables before anything has run. -/
def VmxVars.initial : VmxVars where
  basicMsrLow := 0#32
  basicMsrHigh := 0#32
  pinBasedExec := ⟨0#32, 0#32, 0#32⟩
  cpuBasedExec := ⟨0#32, 0#32, 0#32⟩
  secondaryExec := ⟨0#32, 0#32, 0#32⟩
  vmexit := ⟨0#32, 0#32, 0#32⟩
  vmentry := ⟨0#32, 0#32, 0#32⟩
  eptVpidCap := 0#64
  cpuHasInsOutsInstrInfo := false
  vmcsRevisionId := 0#32
  eptControl := 0#64

/-- `cpu_has_vmx_ept`. -/
def cpuHasVmxEpt (v : VmxVars) : Bool := has v.secondaryExec.control secondaryExecEnableEpt

/-- `cpu_has_vmx_vpid`. -/
def cpuHasVmxVpid (v : VmxVars) : Bool := has v.secondaryExec.control secondaryExecEnableVpid

/-- The register for the primary controls: bit 55 of `MSR_IA32_VMX_BASIC` tells which. -/
def procbasedCtls (msrs : Msrs) : BitVec 32 :=
  if has (msrHigh msrs msrIa32VmxBasic) (1#32 <<< 23) then msrIa32VmxTrueProcbasedCtls
  else msrIa32VmxProcbasedCtls

/-- The secondary controls in one half of the registers.  There are none unless the primary
controls have the bit that turns them on. -/
def secondaryOf (half : Msrs → BitVec 32 → BitVec 32) (msrs : Msrs) : BitVec 32 :=
  if has (half msrs (procbasedCtls msrs)) cpuBasedActivateSecondaryControls then
    half msrs msrIa32VmxProcbasedCtls2
  else 0#32

/-- The secondary controls that the processor allows to be set. -/
def allowedSecondary : Msrs → BitVec 32 := secondaryOf msrHigh

/-- The secondary controls that the processor demands to be set. -/
def demandedSecondary : Msrs → BitVec 32 := secondaryOf msrLow

/-- `enable_vmx` stops the machine because there is no nested page table. -/
def RefusesEpt (ecx : BitVec 32) (s : VmxState) : Prop :=
  (enableVmx ecx s).2 = fatalFailure "No EPT support!\n"

/-- What is detected is what the processor allows. -/
structure DetectsSupport (ecx : BitVec 32) (s : VmxState) : Prop where
  ept : ¬ RefusesEpt ecx s ↔ has (allowedSecondary s.msrs) secondaryExecEnableEpt
  vpid : ∀ s', vmxDetectCapability.Returns s () s' →
    (cpuHasVmxVpid s'.vars ↔ has (allowedSecondary s.msrs) secondaryExecEnableVpid)

/-! ## The first run -/

section
variable {ecx : BitVec 32} {s s' : VmxState}

theorem returns_vmxDetectCapability :
    vmxDetectCapability.Returns s () s' ↔ s.setVars (VmxVars.detect s.msrs) = s' := by
  constructor
  · intro h
    exact congrArg Prod.snd (Except.ok.inj h)
  · rintro rfl
    rfl

theorem default1_readCtls {msrs : Msrs} {v : VmxVars}
    (hv : v.basicMsrHigh = msrHigh msrs msrIa32VmxBasic) :
    (v.readCtls msrs).cpuBasedExec.default1 = msrLow msrs (procbasedCtls msrs) := by
  unfold VmxVars.readCtls procbasedCtls
  rw [hv]
  cases has (msrHigh msrs msrIa32VmxBasic) (1#32 <<< 23) with
  | true => rfl
  | false => rfl

theorem secondaryExec_readCtls {msrs : Msrs} {v : VmxVars} :
    (v.readCtls msrs).secondaryExec = v.secondaryExec := by
  unfold VmxVars.readCtls
  split
  · rfl
  · rfl

theorem pinBasedExec_control_readCtls {msrs : Msrs} {v : VmxVars} :
    (v.readCtls msrs).pinBasedExec.control = v.pinBasedExec.control := by
  unfold VmxVars.readCtls
  split
  · rfl
  · rfl

theorem pinBasedExec_readSecondary {msrs : Msrs} {v : VmxVars} :
    (v.readSecondary msrs).pinBasedExec = v.pinBasedExec := by
  unfold VmxVars.readSecondary
  dsimp only
  split
  · split
    · rfl
    · rfl
  · rfl

theorem default1_readSecondary {msrs : Msrs} {v : VmxVars} :
    (v.readSecondary msrs).secondaryExec.default1 =
      if has v.cpuBasedExec.default1 cpuBasedActivateSecondaryControls then
        msrLow msrs msrIa32VmxProcbasedCtls2
      else v.secondaryExec.default1 := by
  unfold VmxVars.readSecondary
  dsimp only
  split
  · split
    · rfl
    · rfl
  · rfl

/-- After the first run the word for the secondary controls has what must be set, no more. -/
theorem control_detect_initial (msrs : Msrs) :
    (VmxVars.initial.detect msrs).secondaryExec.control = demandedSecondary msrs := by
  have hfirst : (((VmxVars.initial.readBasic msrs).readCtls msrs).readSecondary
      msrs).pinBasedExec.control = 0#32 := by
    rw [pinBasedExec_readSecondary, pinBasedExec_control_readCtls]
    rfl
  unfold VmxVars.detect VmxVars.firstTime
  rw [if_pos hfirst]
  change (((VmxVars.initial.readBasic msrs).readCtls msrs).readSecondary
    msrs).secondaryExec.default1 = demandedSecondary msrs
  rw [default1_readSecondary, default1_readCtls rfl, secondaryExec_readCtls]
  rfl

/-! ## What `enable_vmx` makes of it -/

theorem fails_unless {c : Prop} [Decidable c] {msg : String} {e : Fault} :
    ((Exec.when c (Exec.probe (Probe.ofExcept fun _ => fatalFailure msg)) : VmxM Unit) s).2 =
      .error e ↔ c ∧ Fault.fatalFailure msg = e := by
  unfold Exec.when
  split
  · next hc =>
    rw [and_iff_right hc]
    exact ⟨Except.error.inj, congrArg Except.error⟩
  · next hc => exact iff_of_false nofun fun h => hc h.1

/-- A test that stops the machine, before something else. -/
theorem fails_unless_bind {β : Type} {c : Prop} [Decidable c] {msg : String} {f : Unit → VmxM β}
    {e : Fault} :
    ((Exec.when c (Exec.probe (Probe.ofExcept fun _ => fatalFailure msg)) >>= f) s).2 = .error e ↔
      c ∧ Fault.fatalFailure msg = e ∨ ¬ c ∧ (f () s).2 = .error e := by
  unfold Exec.when
  split
  · next hc =>
    have hfails : (Exec.probe (Probe.ofExcept fun _ => fatalFailure msg) : VmxM Unit) s =
        ([], .error (.fatalFailure msg)) := rfl
    rw [Exec.run_bind_fails hfails]
    simp [hc]
  · next hc =>
    rw [Exec.run_pure_bind]
    simp [hc]

/-- The requirement of the nested page table is put to the word that was detected. -/
theorem refusesEpt_iff (hvmx : has ecx (1#32 <<< x86FeatureVmx)) :
    RefusesEpt ecx s ↔ cpuHasVmxEpt (s.vars.detect s.msrs) = false := by
  have hfeature : ¬ ¬ has ecx (1#32 <<< x86FeatureVmx) := not_not_intro hvmx
  unfold RefusesEpt enableVmx
  rw [show (fatalFailure "No EPT support!\n" : Except Fault (Unit × VmxState)) =
    .error (.fatalFailure "No EPT support!\n") from rfl, fails_unless_bind]
  constructor
  · rintro (⟨hc, -⟩ | ⟨-, h⟩)
    · exact absurd hc hfeature
    · rw [vmxDetectCapability_bind, read_bind, fails_unless_bind] at h
      rcases h with ⟨hept, -⟩ | ⟨-, h⟩
      · exact Bool.not_eq_true _ ▸ hept
      -- the messages of the tests that follow are other ones
      · rw [modify_bind, fails_unless_bind] at h
        rcases h with ⟨-, hmsg⟩ | ⟨-, h⟩
        · exact absurd hmsg (by simp)
        · exact absurd (fails_unless.mp h).2 (by simp)
  · intro hept
    refine .inr ⟨hfeature, ?_⟩
    rw [vmxDetectCapability_bind, read_bind, fails_unless_bind]
    exact .inl ⟨Bool.not_eq_true _ ▸ hept, rfl⟩

theorem vpid_detected (h : vmxDetectCapability.Returns s () s') :
    cpuHasVmxVpid s'.vars = cpuHasVmxVpid (s.vars.detect s.msrs) := by
  rw [← returns_vmxDetectCapability.mp h]
  rfl

/-- On the first run the detection is right for a processor that demands the nested page table
exactly if it allows it, and so for the VPID. -/
theorem vmx_detection_exact_iff (hfirst : s.vars = .initial)
    (hvmx : has ecx (1#32 <<< x86FeatureVmx)) :
    DetectsSupport ecx s ↔
      (has (demandedSecondary s.msrs) secondaryExecEnableEpt ↔
        has (allowedSecondary s.msrs) secondaryExecEnableEpt) ∧
      (has (demandedSecondary s.msrs) secondaryExecEnableVpid ↔
        has (allowedSecondary s.msrs) secondaryExecEnableVpid) := by
  have hept : ¬ RefusesEpt ecx s ↔ has (demandedSecondary s.msrs) secondaryExecEnableEpt := by
    rw [refusesEpt_iff hvmx, hfirst, Bool.not_eq_false]
    unfold cpuHasVmxEpt
    rw [control_detect_initial]
  have hvpid : ∀ s', vmxDetectCapability.Returns s () s' →
      cpuHasVmxVpid s'.vars = has (demandedSecondary s.msrs) secondaryExecEnableVpid := by
    intro s' h
    rw [vpid_detected h, hfirst]
    unfold cpuHasVmxVpid
    rw [control_detect_initial]
  constructor
  · intro h
    refine ⟨hept.symm.trans h.ept, ?_⟩
    rw [← hvpid _ (returns_vmxDetectCapability.mpr rfl)]
    exact h.vpid _ (returns_vmxDetectCapability.mpr rfl)
  · intro h
    refine ⟨hept.trans h.1, fun s' hs' => ?_⟩
    rw [hvpid s' hs']
    exact h.2

end

/-- `VmxState.sample` allows the VPID, and does not demand it. -/
theorem vmx_detection_sample : ¬ DetectsSupport 0x20#32 .sample := fun h =>
  absurd (((vmx_detection_exact_iff rfl (by decide)).mp h).2.mpr (by decide)) (by decide)

/-- A processor that allows every control and demands none. -/
def VmxState.permissive : VmxState := { VmxState.sample with
  msrs := fun msr =>
    if msr = msrIa32VmxBasic then 0#64
    else if msr = msrIa32VmxCr0Fixed0 then 0#64
    else if msr = ia32FeatureControlMsr then 0#64
    else 0xffffffff00000000#64 }

/-- The nested page table is allowed there, and `enable_vmx` stops the machine. -/
theorem vmx_detection_misses_ept : ¬ ∀ s : VmxState, s.vars = .initial →
    ∀ ecx, has ecx (1#32 <<< x86FeatureVmx) → DetectsSupport ecx s := by
  intro h
  have hallowed : has (allowedSecondary VmxState.permissive.msrs) secondaryExecEnableEpt := by
    decide
  have hnot := (h .permissive rfl 0x20#32 (by decide)).ept.mpr hallowed
  exact hnot ((refusesEpt_iff (by decide)).mpr (by decide))

end Mavmm
