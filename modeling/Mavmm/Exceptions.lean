import Mavmm.SkipResume

/-!
# Exceptions that the guest gets itself

An exception that the monitor has not caused should reach the guest as if
nobody had looked: the same vector, and an error code exactly if the processor
pushes one.  The handler always has one pushed, takes every general protection
exception for `sysenter`, and drops debug exceptions (`exception_forwarded_iff`).
-/

namespace Mavmm

/-- `eventinj_t` without the reserved bits. -/
structure EventFields where
  vector : BitVec 8
  type : BitVec 3
  ev : BitVec 1
  v : BitVec 1
  errorcode : BitVec 32
deriving DecidableEq

def eventFields (x : BitVec 64) : EventFields where
  vector := x.extractLsb' 0 8
  type := x.extractLsb' 8 3
  ev := x.extractLsb' 11 1
  v := x.extractLsb' 31 1
  errorcode := x.extractLsb' 32 32

/-- The exceptions that push an error code: #DF, #TS, #NP, #SS, #GP, #PF and #AC. -/
def pushesErrorCode (vector : BitVec 8) : Bool :=
  vector ∈ [8#8, 10#8, 11#8, 12#8, 13#8, 14#8, 17#8]

/-- The machine stopped at an exception, one of those that have an exit code in vmcb.h. -/
structure ExceptionExit (m : Machine) (vector : BitVec 8) : Prop where
  exitcode : m.vmcb.exitcode = vmexitExceptionDe + vector.setWidth 64
  known : m.vmcb.exitcode ≤ vmexitExceptionXf

/-- The monitor has caused the exception by stepping or by protecting pages. -/
def MonitorCaused (m : Machine) : Prop :=
  m.vmcb.exitcode = vmexitExceptionDb ∧ (m.vm.itcSkipFlag ≠ 0#32 ∨ KeepsStepping m.vm) ∨
    m.vmcb.exitcode = vmexitExceptionPf ∧ UnpackFault m

/-- The guest is where it was and gets the exception. -/
structure Forwarded (m m' : Machine) (vector : BitVec 8) : Prop where
  rip : m'.vmcb.rip = m.vmcb.rip
  rsp : m'.vmcb.rsp = m.vmcb.rsp
  csSel : m'.vmcb.csSel = m.vmcb.csSel
  ssSel : m'.vmcb.ssSel = m.vmcb.ssSel
  dsSel : m'.vmcb.dsSel = m.vmcb.dsSel
  trSel : m'.vmcb.trSel = m.vmcb.trSel
  event : eventFields m'.vmcb.eventinj =
    { vector
      type := eventTypeException
      ev := BitVec.ofBool (pushesErrorCode vector)
      v := 1#1
      errorcode := m.vmcb.exitinfo1.setWidth 32 }

/-- The machine with another event in its control block. -/
def Machine.withEvent (m : Machine) (x : BitVec 64) : Machine :=
  { m with vmcb := { m.vmcb with eventinj := x } }

/-- What `injectException` writes to `eventinj`. -/
def Vmcb.exceptionEvent (c : Vmcb) : BitVec 64 :=
  Bits.setField (injectEvent ((c.exitcode - vmexitExceptionDe).setWidth 8) eventTypeException 1#1
    c.eventinj) 32 (c.exitinfo1.setWidth 32)

section
variable {m m' : Machine} {u : Unit} {vector : BitVec 8}

/-- The fields are where the handler writes them. -/
theorem eventFields_inject (type : BitVec 3) (ev : BitVec 1) (errorcode : BitVec 32)
    (x : BitVec 64) :
    eventFields (Bits.setField (injectEvent vector type ev x) 32 errorcode) =
      { vector, type, ev, v := 1#1, errorcode } := by
  simp (disch := omega) only [eventFields, injectEvent, Bits.extract_setField,
    Bits.extract_setField_of_disjoint]

theorem returns_printVmcbState : printVmcbState.Returns m u := rfl

theorem returns_printPageErrorcode {errcode : BitVec 64} :
    (printPageErrorcode errcode).Returns m u := by
  simp only [printPageErrorcode, Probe.returns_bind, returns_outf, returns_outfWhen, and_self,
    exists_const]

theorem returns_injectException : injectException.Returns m u m' ↔
    { m with vmcb := { m.vmcb with eventinj := m.vmcb.exceptionEvent } } = m' := by
  rw [injectException, modifyVmcb, Exec.returns_modify_bind, Exec.returns_read_bind,
    Exec.liftM_eq_probe, Exec.returns_probe]
  exact and_iff_right returns_outf

/-! ## The three ways of the handler -/

theorem returns_handleVmException_gp (hexit : m.vmcb.exitcode = vmexitExceptionGp) :
    handleVmException.Returns m u m' ↔
      { m with vmcb := { m.vmcb with
          csSel := m.vm.orgSysenterCs.setWidth 16
          ssSel := (m.vm.orgSysenterCs + 8#64).setWidth 16
          rsp := m.vmcb.sysenterEsp
          rip := m.vmcb.sysenterEip } } = m' := by
  have hts : m.vmcb.exitcode ≠ vmexitExceptionTs := by
    rw [hexit]
    decide
  rw [handleVmException, Exec.returns_read_bind]
  simp only [id]
  rw [if_neg hts, if_pos hexit]
  rw [Exec.liftM_eq_probe, Exec.returns_probe_bind (a := ()) returns_printVmcbState,
    returns_modifyVmcb]

/-- A debug exception while nothing is skipped is dropped. -/
theorem returns_handleVmException_dropped (hexit : m.vmcb.exitcode = vmexitExceptionDb)
    (hskip : m.vm.itcSkipFlag = 0#32) : handleVmException.Returns m u m' ↔ m = m' := by
  rw [handleVmException, Exec.returns_read_bind]
  simp only [id]
  rw [hexit, if_neg (by decide), if_neg (by decide), if_pos rfl, handleDb, Exec.returns_read_bind,
    Exec.returns_when, if_neg (not_not_intro hskip)]

/-- Every other exception is injected; a page fault sets `cr2`. -/
theorem returns_handleVmException_injected (hgp : m.vmcb.exitcode ≠ vmexitExceptionGp)
    (hdb : m.vmcb.exitcode ≠ vmexitExceptionDb)
    (hpf : ¬ (m.vmcb.exitcode = vmexitExceptionPf ∧ UnpackFault m)) :
    handleVmException.Returns m u m' ↔
      { m with vmcb := { m.vmcb with
          cr2 := if m.vmcb.exitcode = vmexitExceptionPf then m.vmcb.exitinfo2 else m.vmcb.cr2
          eventinj := m.vmcb.exceptionEvent } } = m' := by
  rw [handleVmException, Exec.returns_read_bind]
  simp only [id]
  rw [if_neg hgp, if_neg hdb]
  by_cases hts : m.vmcb.exitcode = vmexitExceptionTs
  · have hexit : m.vmcb.exitcode ≠ vmexitExceptionPf := by
      rw [hts]
      decide
    rw [if_pos hts, if_neg hexit]
    rw [Exec.liftM_eq_probe, Exec.liftM_eq_probe,
      Exec.returns_probe_bind (a := ()) returns_printVmcbState,
      Exec.returns_probe_bind (a := ()) returns_outf, returns_injectException]
  · rw [if_neg hts]
    by_cases hexit : m.vmcb.exitcode = vmexitExceptionPf
    · have hfault : ¬ (has m.vmcb.exitinfo1 1#64 ∧ has m.vmcb.exitinfo1 2#64 ∧
        has m.vm.itcFlag userUnpack) := fun h => hpf ⟨hexit, h⟩
      rw [if_pos hexit, if_neg hfault, if_pos hexit]
      rw [Exec.liftM_eq_probe, Exec.returns_probe_bind (a := ()) returns_printPageErrorcode,
        modifyVmcb, Exec.returns_modify_bind, returns_injectException]
      rfl
    · rw [if_neg hexit, if_neg hexit, returns_injectException]

/-! ## What the guest gets -/

/-- Each vector has its exit code. -/
theorem exitcode_eq_iff (hexit : ExceptionExit m vector) (v : BitVec 8) :
    m.vmcb.exitcode = vmexitExceptionDe + v.setWidth 64 ↔ vector = v := by
  rw [hexit.exitcode]
  unfold vmexitExceptionDe
  constructor
  · intro h
    bv_omega
  · rintro rfl
    rfl

theorem vector_of_exitcode (hexit : ExceptionExit m vector) :
    (m.vmcb.exitcode - vmexitExceptionDe).setWidth 8 = vector := by
  rw [hexit.exitcode]
  unfold vmexitExceptionDe
  bv_omega

/-- What is not queued is missing where no event was before. -/
theorem not_forwarded (hevent : m'.vmcb.eventinj = 0#64) : ¬ Forwarded m m' vector := by
  intro h
  have hv : (eventFields m'.vmcb.eventinj).v = 1#1 := congrArg EventFields.v h.event
  rw [hevent] at hv
  exact absurd hv (by decide)

/-- An injected exception is forwarded exactly when it pushes an error code. -/
theorem forwarded_iff_of_injected (hexit : ExceptionExit m vector)
    (hgp : m.vmcb.exitcode ≠ vmexitExceptionGp) (hdb : m.vmcb.exitcode ≠ vmexitExceptionDb)
    (hpf : ¬ (m.vmcb.exitcode = vmexitExceptionPf ∧ UnpackFault m)) (x : BitVec 64) :
    (∃ m', handleVmException.Returns (m.withEvent x) () m' ∧ Forwarded m m' vector) ↔
      pushesErrorCode vector = true := by
  have hinjected := fun m' : Machine =>
    @returns_handleVmException_injected (m.withEvent x) m' () hgp hdb hpf
  have hvector : ((m.withEvent x).vmcb.exitcode - vmexitExceptionDe).setWidth 8 = vector :=
    (vector_of_exitcode hexit :)
  constructor
  · rintro ⟨m', hm', hforwarded⟩
    have hm' := (hinjected m').mp hm'
    subst hm'
    have hevent := hforwarded.event
    rw [Vmcb.exceptionEvent, eventFields_inject] at hevent
    have hev : 1#1 = BitVec.ofBool (pushesErrorCode vector) := congrArg EventFields.ev hevent
    cases hpush : pushesErrorCode vector with
    | true => rfl
    | false =>
      rw [hpush] at hev
      exact absurd hev (by simp)
  · intro hpush
    refine ⟨_, (hinjected _).mpr rfl, rfl, rfl, rfl, rfl, rfl, rfl, ?_⟩
    rw [Vmcb.exceptionEvent, eventFields_inject, hvector, hpush]
    rfl

end

/-- Whatever event was in the control block, an exception that the monitor has not caused reaches
the guest unchanged exactly when it pushes an error code and is no general protection exception. -/
theorem exception_forwarded_iff {m : Machine} {vector : BitVec 8} (hexit : ExceptionExit m vector)
    (hcause : ¬ MonitorCaused m) :
    (∀ x, ∃ m', handleVmException.Returns (m.withEvent x) () m' ∧ Forwarded m m' vector) ↔
      pushesErrorCode vector = true ∧ vector ≠ 13#8 := by
  have hcode := exitcode_eq_iff hexit
  by_cases hgp : m.vmcb.exitcode = vmexitExceptionGp
  · refine iff_of_false (fun h => ?_) fun h => h.2 ((hcode 13#8).mp hgp)
    obtain ⟨m', hm', hforwarded⟩ := h 0#64
    have hm' := (@returns_handleVmException_gp (m.withEvent 0#64) _ _ hgp).mp hm'
    subst hm'
    exact not_forwarded rfl hforwarded
  have hthirteen : vector ≠ 13#8 := fun h => hgp ((hcode 13#8).mpr h)
  by_cases hdb : m.vmcb.exitcode = vmexitExceptionDb
  · have hone : vector = 1#8 := (hcode 1#8).mp hdb
    have hskip : m.vm.itcSkipFlag = 0#32 :=
      Decidable.of_not_not fun h => hcause (Or.inl ⟨hdb, Or.inl h⟩)
    refine iff_of_false (fun h => ?_) fun h => ?_
    · obtain ⟨m', hm', hforwarded⟩ := h 0#64
      have hm' := (@returns_handleVmException_dropped (m.withEvent 0#64) _ _ hdb hskip).mp hm'
      subst hm'
      exact not_forwarded rfl hforwarded
    · rw [hone] at h
      exact absurd h.1 (by decide)
  · have hinjected := forwarded_iff_of_injected hexit hgp hdb fun h => hcause (Or.inr h)
    exact ⟨fun h => ⟨(hinjected 0#64).mp (h 0#64), hthirteen⟩, fun h x => (hinjected x).mpr h.1⟩

/-- A page fault of the guest, with nothing requested. -/
theorem exception_forwarded_iff_pf :
    let m := { Machine.boot with vmcb := { Vmcb.mbrStart with exitcode := vmexitExceptionPf } }
    ∀ x, ∃ m', handleVmException.Returns (m.withEvent x) () m' ∧ Forwarded m m' 14#8 := by
  intro m
  have hexit : ExceptionExit m 14#8 := ⟨by decide, by decide⟩
  have hcause : ¬ MonitorCaused m := by
    rintro (⟨hdb, -⟩ | ⟨-, hfault⟩)
    · exact absurd hdb (by decide)
    · exact absurd hfault.1 (by decide)
  exact (exception_forwarded_iff hexit hcause).mpr (by decide)

/-- The guest divides by zero: the processor is told to push an error code. -/
theorem exception_not_forwarded :
    let m := { Machine.boot with vmcb := { Vmcb.mbrStart with exitcode := vmexitExceptionDe } }
    ExceptionExit m 0#8 ∧ ¬ MonitorCaused m ∧
      ∃ m', handleVmException.Returns m () m' ∧ (eventFields m'.vmcb.eventinj).ev = 1#1 ∧
        ¬ Forwarded m m' 0#8 := by
  intro m
  have hpf : ¬ (m.vmcb.exitcode = vmexitExceptionPf ∧ UnpackFault m) :=
    fun h => absurd h.1 (by decide)
  have hcause : ¬ MonitorCaused m := by
    rintro (⟨hdb, -⟩ | hfault)
    · exact absurd hdb (by decide)
    · exact hpf hfault
  refine ⟨⟨by decide, by decide⟩, hcause, _,
    (@returns_handleVmException_injected m _ _ (by decide) (by decide) hpf).mpr rfl, by decide,
    fun h => ?_⟩
  exact absurd (congrArg EventFields.ev h.event) (by decide)

end Mavmm
