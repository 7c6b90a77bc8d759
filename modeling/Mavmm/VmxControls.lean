import Mavmm.Vmx

/-!
# The control words that reach the VMCS

Every control word that the monitor computes has a field of the VMCS, and the
processor refuses a word with a bit that its capability register does not allow.
Four of the five words are written; the secondary controls, which have the bit
for the nested page table, are computed and never written
(`vmx_controls_inconsistent`).
-/

namespace Mavmm

inductive VmxControl where
  | pinBasedExec
  | cpuBasedExec
  | secondaryExec
  | vmexit
  | vmentry
deriving DecidableEq

namespace VmxControl

def field : VmxControl → VmcsField
  | .pinBasedExec => .pinBasedVmExecControl
  | .cpuBasedExec => .cpuBasedVmExecControl
  | .secondaryExec => .secondaryVmExecControl
  | .vmexit => .vmExitControls
  | .vmentry => .vmEntryControls

def ctl (v : VmxVars) : VmxControl → VmxCtl
  | .pinBasedExec => v.pinBasedExec
  | .cpuBasedExec => v.cpuBasedExec
  | .secondaryExec => v.secondaryExec
  | .vmexit => v.vmexit
  | .vmentry => v.vmentry

/-- What `vmx_set_control_params` adds to the word. -/
def needed : VmxControl → BitVec 32
  | .pinBasedExec => 0#32
  | .cpuBasedExec =>
    cpuBasedActivateSecondaryControls ||| cpuBasedActivateIoBitmap ||| cpuBasedActivateMsrBitmap
  | .secondaryExec => secondaryExecEnableEpt ||| secondaryExecEnableVpid
  | .vmexit =>
    vmExitIa32eMode ||| vmExitAckIntrOnExit ||| (vmExitSaveGuestPat ||| vmExitLoadHostPat)
  | .vmentry => vmEntryLoadGuestPat

end VmxControl

/-- `vmx_detect_capability`, then `vmx_set_control_params`. -/
def vmxInitControls : VmxM Unit := do
  vmxDetectCapability
  vmxSetControlParams

/-- The capability pair allows the value. -/
def VmxCtl.Allows (c : VmxCtl) (v : BitVec 64) : Prop :=
  v &&& c.default1.setWidth 64 = c.default1.setWidth 64 ∧ v &&& ~~~c.default0.setWidth 64 = 0#64

/-- The control words and what was written of them agree, and the processor accepts them. -/
structure ControlsConsistent (writes : List Vmwrite) (v : VmxVars) : Prop where
  written : ∀ c : VmxControl, ⟨c.field, (c.ctl v).control.setWidth 64⟩ ∈ writes
  ept : ∀ w ∈ writes, w.field = .secondaryVmExecControl →
    has w.value (secondaryExecEnableEpt.setWidth 64) = true
  allowed : ∀ c : VmxControl, ∀ w ∈ writes, w.field = c.field → (c.ctl v).Allows w.value

section
variable {s s' : VmxState} {u : Unit}

/-- What is written when both intercept tables are allocated. -/
def controlWrites (v : VmxVars) (io msr : BitVec 64) : List Vmwrite :=
  [⟨.pinBasedVmExecControl, v.pinBasedExec.control.setWidth 64⟩,
    ⟨.ioBitmapA, io⟩, ⟨.ioBitmapB, io + 4096#64⟩, ⟨.msrBitmap, msr⟩,
    ⟨.cpuBasedVmExecControl, v.cpuBasedExec.control.setWidth 64⟩,
    ⟨.eptPointer, v.eptControl⟩, ⟨.virtualProcessorId, 1#64⟩,
    ⟨.vmExitControls, v.vmexit.control.setWidth 64⟩,
    ⟨.vmEntryControls, v.vmentry.control.setWidth 64⟩]

/-- The variables after `vmx_set_control_params`. -/
def VmxVars.setParams (nCr3 : BitVec 64) (v : VmxVars) : VmxVars := { v with
  cpuBasedExec := ((v.cpuBasedExec.add cpuBasedActivateSecondaryControls).add
    cpuBasedActivateIoBitmap).add cpuBasedActivateMsrBitmap
  secondaryExec := (v.secondaryExec.add secondaryExecEnableEpt).add secondaryExecEnableVpid
  vmexit := (v.vmexit.add (vmExitIa32eMode ||| vmExitAckIntrOnExit)).add
    (vmExitSaveGuestPat ||| vmExitLoadHostPat)
  vmentry := v.vmentry.add vmEntryLoadGuestPat
  eptControl := eptControlFor nCr3 v.eptControl }

/-! ## The actions, one after the other -/

theorem host_setVars {f : VmxVars → VmxVars} : (s.setVars f).host = s.host := rfl

theorem vars_setVars {f : VmxVars → VmxVars} : (s.setVars f).vars = f s.vars := rfl

theorem nCr3_setVars {f : VmxVars → VmxVars} : (s.setVars f).nCr3 = s.nCr3 := rfl

theorem setVars_setVars {f g : VmxVars → VmxVars} :
    (s.setVars g).setVars f = s.setVars fun v => f (g v) := rfl

theorem setHost_setVars {f : VmxVars → VmxVars} {host : Host} :
    (s.setVars f).setHost host = (s.setHost host).setVars f := rfl

theorem setIoInterceptTable_setVars {f : VmxVars → VmxVars} {io : BitVec 64} :
    (s.setVars f).setIoInterceptTable io = (s.setIoInterceptTable io).setVars f := rfl

theorem setMsrInterceptTable_setVars {f : VmxVars → VmxVars} {msr : BitVec 64} :
    (s.setVars f).setMsrInterceptTable msr = (s.setMsrInterceptTable msr).setVars f := rfl

/-- The machine with its two intercept tables. -/
def VmxState.withTables (io msr : BitVec 64) (host₁ host₂ : Host) (s : VmxState) : VmxState :=
  (((s.setHost host₁).setIoInterceptTable io).setHost host₂).setMsrInterceptTable msr

section
variable {α β : Type} {g : α → VmxM β}

theorem modifyVars_bind {f : VmxVars → VmxVars} {g : Unit → VmxM β} :
    (modifyVars f >>= g) s = g () (s.setVars f) := rfl

theorem vmwrite_bind {field : VmcsField} {value : BitVec 64} {g : Unit → VmxM β} :
    (vmwrite field value >>= g) s = (⟨field, value⟩ :: (g () s).1, (g () s).2) := rfl

theorem vmwriteCtl_bind {field : VmcsField} {ctl : VmxVars → VmxCtl} {g : Unit → VmxM β} :
    (vmwriteCtl field ctl >>= g) s =
      (⟨field, (ctl s.vars).control.setWidth 64⟩ :: (g () s).1, (g () s).2) := rfl

theorem modify_bind {f : VmxState → VmxState} {g : Unit → VmxM β} :
    ((Exec.modify f : VmxM Unit) >>= g) s = g () (f s) := rfl

theorem read_bind {f : VmxState → α} :
    ((Exec.probe (Probe.read f) : VmxM α) >>= g) s = g (f s) s := rfl

theorem onHost_bind {x : HostM α} :
    (onHost x >>= g) s = match x s.host with
      | .ok r => g r.1 (s.setHost r.2)
      | .error f => ([], .error f) := by
  change Exec.bind (onHost x) g s = _
  unfold Exec.bind onHost
  cases x s.host with
  | ok r => rfl
  | error f => rfl

end

/-- What `vmcs_init_host_env` writes. -/
def hostWrites (s : VmxState) : List Vmwrite :=
  [⟨.hostSsSelector, vmmDs64⟩, ⟨.hostDsSelector, vmmDs64⟩, ⟨.hostEsSelector, vmmDs64⟩,
    ⟨.hostFsSelector, vmmDs64⟩, ⟨.hostGsSelector, vmmDs64⟩, ⟨.hostFsBase, 0#64⟩,
    ⟨.hostGsBase, 0#64⟩, ⟨.hostCr0, s.cr0 ||| x86Cr0Ts⟩, ⟨.hostCr4, s.cr4 ||| x86Cr4Osxsave⟩,
    ⟨.hostCsSelector, vmmCs64⟩, ⟨.hostRip, s.vmexitHandler⟩, ⟨.hostSysenterCs, 0#64⟩,
    ⟨.hostSysenterEip, 0#64⟩, ⟨.hostSysenterEsp, 0#64⟩, ⟨.hostGdtrBase, s.gdtBase⟩,
    ⟨.hostIdtrBase, s.idtBase⟩, ⟨.hostTrSelector, vmmDs64⟩, ⟨.hostTrBase, 0#64⟩]

theorem vmcsInitHostEnv_eq : vmcsInitHostEnv s = (hostWrites s, .ok ((), s)) := by
  simp only [vmcsInitHostEnv, read_bind, vmwrite_bind]
  rfl

theorem vmxSetControlParams_eq {io msr : BitVec 64} {host₁ host₂ : Host}
    (hio : createInterceptTable (8#64 <<< 10) s.host = .ok (io, host₁))
    (hmsr : createInterceptTable (4#64 <<< 10) host₁ = .ok (msr, host₂)) :
    let s' := (s.withTables io msr host₁ host₂).setVars (VmxVars.setParams s.nCr3)
    vmxSetControlParams s =
      (controlWrites s'.vars io msr ++ hostWrites s', .ok ((), s')) := by
  intro s'
  have hhost : ∀ t : VmxState, (t.setIoInterceptTable io).host = t.host := fun _ => rfl
  have hset : ∀ (t : VmxState) (host : Host), (t.setHost host).host = host := fun _ _ => rfl
  unfold vmxSetControlParams
  -- rewriting by definition would leave the kernel the whole run to unfold at once
  simp -implicitDefEqProofs only [vmwriteCtl_bind, modifyVars_bind, vmwrite_bind, modify_bind,
    onHost_bind, read_bind, setVars_setVars, setHost_setVars, setIoInterceptTable_setVars,
    setMsrInterceptTable_setVars, host_setVars, hhost, hset, hio, hmsr, vars_setVars,
    nCr3_setVars, vmcsInitHostEnv_eq]
  rfl

/-- What `vmx_detect_capability` does to the variables. -/
def VmxVars.detect (msrs : Msrs) (v : VmxVars) : VmxVars :=
  (((v.readBasic msrs).readCtls msrs).readSecondary msrs).firstTime

theorem vmxDetectCapability_bind {β : Type} {g : Unit → VmxM β} :
    (vmxDetectCapability >>= g) s = g () (s.setVars (VmxVars.detect s.msrs)) := rfl

/-- A run that completes has allocated both tables, and what it writes is known. -/
theorem vmxInitControls_returns (h : vmxInitControls.Returns s u s') : ∃ io msr,
    s'.vars = (s.vars.detect s.msrs).setParams s.nCr3 ∧
      (vmxInitControls s).1 = controlWrites s'.vars io msr ++ hostWrites s' := by
  unfold Exec.Returns at h
  unfold vmxInitControls at h ⊢
  rw [vmxDetectCapability_bind] at h ⊢
  generalize ht : s.setVars (VmxVars.detect s.msrs) = t at h ⊢
  have hvars : t.vars = s.vars.detect s.msrs := by rw [← ht]; rfl
  have hnCr3 : t.nCr3 = s.nCr3 := by rw [← ht]; rfl
  have hfail : ∀ f, (vmxSetControlParams t).2 ≠ .error f := fun f hf => by
    rw [hf] at h
    cases h
  cases hio : createInterceptTable (8#64 <<< 10) t.host with
  | error f =>
    refine absurd ?_ (hfail f)
    unfold vmxSetControlParams
    simp only [vmwriteCtl_bind, modifyVars_bind, onHost_bind, host_setVars, hio]
  | ok io =>
    cases hmsr : createInterceptTable (4#64 <<< 10) io.2 with
    | error f =>
      have hhost : ∀ u : VmxState, (u.setIoInterceptTable io.1).host = u.host := fun _ => rfl
      have hset : ∀ (u : VmxState) (host : Host), (u.setHost host).host = host := fun _ _ => rfl
      refine absurd ?_ (hfail f)
      unfold vmxSetControlParams
      simp only [vmwriteCtl_bind, modifyVars_bind, vmwrite_bind, modify_bind, onHost_bind,
        host_setVars, hio, hhost, hset, hmsr]
    | ok msr =>
      have heq := vmxSetControlParams_eq hio hmsr
      dsimp only at heq
      rw [heq] at h ⊢
      cases h
      refine ⟨io.1, msr.1, ?_, rfl⟩
      rw [← hvars, ← hnCr3]
      rfl

/-! ## The words that are written -/

/-- Each of the other words is written, and nothing else is written to its field. -/
theorem mem_controlWrites {c : VmxControl} {v : VmxVars} {io msr : BitVec 64} {w : Vmwrite}
    (hc : c ≠ .secondaryExec) (hw : w.field = c.field) :
    w ∈ controlWrites v io msr ++ hostWrites s ↔ w.value = (c.ctl v).control.setWidth 64 := by
  obtain ⟨field, value⟩ := w
  subst hw
  cases c with
  | secondaryExec => exact absurd rfl hc
  | _ => simp [controlWrites, hostWrites, VmxControl.field, VmxControl.ctl]

/-- The first time through, a word is the bits that must be set and the bits that are needed. -/
theorem control_setParams {c : VmxControl} {v : VmxVars} {nCr3 : BitVec 64} {msrs : Msrs}
    (hfirst : v.pinBasedExec.control = 0#32) :
    (c.ctl ((v.detect msrs).setParams nCr3)).control =
      (c.ctl ((v.detect msrs).setParams nCr3)).default1 ||| c.needed := by
  have hread : ((((v.readBasic msrs).readCtls msrs).readSecondary msrs).pinBasedExec).control =
      0#32 := by
    rw [← hfirst]
    unfold VmxVars.readSecondary VmxVars.readCtls
    dsimp only
    split <;> split <;> (try split) <;> rfl
  unfold VmxVars.detect VmxVars.firstTime
  rw [if_pos hread]
  cases c with
  | pinBasedExec => exact BitVec.or_zero.symm
  | cpuBasedExec => exact (congrArg (· ||| _) (BitVec.or_assoc _ _ _)).trans (BitVec.or_assoc _ _ _)
  | secondaryExec => exact BitVec.or_assoc _ _ _
  | vmexit => exact BitVec.or_assoc _ _ _
  | vmentry => rfl

/-- A word with the bits that must be set is allowed when its other bits may be set. -/
theorem allows_setWidth {c : VmxCtl} {x : BitVec 32} :
    c.Allows ((c.default1 ||| x).setWidth 64) ↔ (c.default1 ||| x) &&& ~~~c.default0 = 0#32 := by
  have hset : (c.default1 ||| x).setWidth 64 &&& c.default1.setWidth 64 =
      c.default1.setWidth 64 := by
    rw [← BitVec.setWidth_and]
    congr 1
    apply BitVec.eq_of_getLsbD_eq
    intro i hi
    rw [BitVec.getLsbD_and, BitVec.getLsbD_or]
    cases c.default1.getLsbD i <;> simp
  have hclear : (c.default1 ||| x).setWidth 64 &&& ~~~c.default0.setWidth 64 =
      ((c.default1 ||| x) &&& ~~~c.default0).setWidth 64 := by
    apply BitVec.eq_of_getLsbD_eq
    intro i hi
    simp only [BitVec.getLsbD_and, BitVec.getLsbD_not, BitVec.getLsbD_setWidth, decide_eq_true hi,
      Bool.true_and]
    by_cases hlow : i < 32
    · simp [hlow]
    · simp [BitVec.getLsbD_of_ge _ _ (Nat.le_of_not_lt hlow)]
  unfold VmxCtl.Allows
  rw [hclear, and_iff_right hset]
  constructor
  · intro h
    have hback := congrArg (BitVec.setWidth 32) h
    rwa [BitVec.setWidth_setWidth_of_le _ (by decide), BitVec.setWidth_eq] at hback
  · intro h
    rw [h]
    rfl

/-- The first time through, the processor accepts what is written of a word exactly when every
bit that must be set and every bit that the monitor needs may be set. -/
theorem vmx_written_allowed_iff (hfirst : s.vars.pinBasedExec.control = 0#32)
    (h : vmxInitControls.Returns s u s') {c : VmxControl} (hc : c ≠ .secondaryExec) :
    (∀ w ∈ (vmxInitControls s).1, w.field = c.field → (c.ctl s'.vars).Allows w.value) ↔
      ((c.ctl s'.vars).default1 ||| c.needed) &&& ~~~(c.ctl s'.vars).default0 = 0#32 := by
  obtain ⟨io, msr, hvars, hwrites⟩ := vmxInitControls_returns h
  have hcontrol : (c.ctl s'.vars).control = (c.ctl s'.vars).default1 ||| c.needed := by
    rw [hvars]
    exact control_setParams hfirst
  rw [← allows_setWidth, ← hcontrol, hwrites]
  constructor
  · intro hall
    exact hall ⟨c.field, _⟩ ((mem_controlWrites hc rfl).mpr rfl) rfl
  · intro hallowed w hw hfield
    rw [(mem_controlWrites hc hfield).mp hw]
    exact hallowed

end

/-- Whatever the capability registers say, a run that completes never writes the secondary
controls, so not every control word reaches the VMCS. -/
theorem vmx_controls_inconsistent {s s' : VmxState} (h : vmxInitControls.Returns s () s') :
    ¬ ControlsConsistent (vmxInitControls s).1 s'.vars := by
  intro hconsistent
  obtain ⟨io, msr, -, hwrites⟩ := vmxInitControls_returns h
  have hmem := hconsistent.written .secondaryExec
  rw [hwrites] at hmem
  simp [controlWrites, hostWrites, VmxControl.field] at hmem

/-- A processor that has the secondary controls on, with the nested page table among the bits that
must be set, and allows every bit; and a machine with 64 clear frames. -/
def VmxState.sample : VmxState where
  msrs msr :=
    if msr = msrIa32VmxProcbasedCtls then 0xffffffff80000000#64
    else if msr = msrIa32VmxProcbasedCtls2 then 0xffffffff00000002#64
    else if msr = msrIa32VmxBasic then 0#64
    else if msr = msrIa32VmxCr0Fixed0 then 0#64
    else if msr = ia32FeatureControlMsr then 0#64
    else if msr = msrIa32VmxCr0Fixed1 then 0xffffffffffffffff#64
    else 0xffffffff00000000#64
  vars :=
    { basicMsrLow := 0#32, basicMsrHigh := 0#32, pinBasedExec := ⟨0#32, 0#32, 0#32⟩
      cpuBasedExec := ⟨0#32, 0#32, 0#32⟩, secondaryExec := ⟨0#32, 0#32, 0#32⟩
      vmexit := ⟨0#32, 0#32, 0#32⟩, vmentry := ⟨0#32, 0#32, 0#32⟩, eptVpidCap := 0#64
      cpuHasInsOutsInstrInfo := false, vmcsRevisionId := 0#32, eptControl := 0#64 }
  cr0 := 0#64
  cr4 := 0#64
  gdtBase := 0#64
  idtBase := 0#64
  vmexitHandler := 0#64
  host := ⟨fun _ => 0#8, ⟨#[0#64], 64#64⟩⟩
  nCr3 := 0#64
  ioInterceptTable := 0#64
  msrInterceptTable := 0#64

theorem vmx_controls_inconsistent_sample : ∃ s', vmxInitControls.Returns .sample () s' ∧
    ¬ ControlsConsistent (vmxInitControls .sample).1 s'.vars := by
  obtain ⟨⟨⟨⟩, s'⟩, h, -⟩ := completesWith_ok
    (show completesWith (fun _ => true) (vmxInitControls .sample).2 = true by decide +kernel)
  exact ⟨s', h, vmx_controls_inconsistent h⟩

/-- `enable_vmx` accepts the processor, and then the secondary controls are not written. -/
theorem vmx_secondary_not_written : completesWith (fun _ => true)
    (enableVmx 0x20#32 .sample).2 = true ∧
    ∃ s', vmxInitControls.Returns .sample () s' ∧
      has s'.vars.secondaryExec.control secondaryExecEnableEpt = true ∧
      (∀ w ∈ (vmxInitControls .sample).1, w.field ≠ .secondaryVmExecControl) ∧
      ¬ ControlsConsistent (vmxInitControls .sample).1 s'.vars := by
  obtain ⟨⟨⟨⟩, s'⟩, h, hept⟩ := completesWith_ok
    (show completesWith (fun r => has r.2.vars.secondaryExec.control secondaryExecEnableEpt)
      (vmxInitControls .sample).2 = true by decide +kernel)
  have hno : ∀ w ∈ (vmxInitControls .sample).1, w.field ≠ .secondaryVmExecControl := by
    decide +kernel
  refine ⟨by decide +kernel, s', h, hept, hno, fun hconsistent => ?_⟩
  exact hno _ (hconsistent.written .secondaryExec) rfl

end Mavmm
