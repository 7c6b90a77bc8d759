import Mavmm.Vm

/-!
# The consistency check of the control block (vmcb.c)

`vmcb_check_consistency` runs through a table of checks of the state that VMRUN
refuses, and stops at the first one that reports a violation.

A check returns `int`, and two of them pass the upper part of a register on as
it is: what stands above its 32nd bit is lost in the conversion.
-/

namespace Mavmm

/-! ## The checks -/

/-- `struct vmcb`, with the fields that only the check reads. -/
structure VmcbChecked extends Vmcb where
  csAttrs : BitVec 16
  dr7 : BitVec 64
  dr6 : BitVec 64

def eferLme : BitVec 64 := 1#64 <<< 8
def eferSvme : BitVec 64 := 1#64 <<< 12
def x86Cr0Nw : BitVec 64 := 0x20000000#64
def x86Cr0Cd : BitVec 64 := 0x40000000#64

/-- `BIT_MASK`. -/
def bitMask (n : Nat) : BitVec 64 := ~~~(~~~0#64 <<< n)

/-- `SUB_BIT`. -/
def subBit (x : BitVec 64) (start len : Nat) : BitVec 64 := (x >>> start) &&& bitMask len

/-- A 64-bit value that is returned as an `int`. -/
def asInt (x : BitVec 64) : BitVec 32 := x.setWidth 32

/-- A truth value that is returned as an `int`. -/
def truth (p : Bool) : BitVec 32 := if p then 1#32 else 0#32

namespace VmcbChecked

variable (vmcb : VmcbChecked)

/-- `cs.attrs.fields.l`. -/
def csL : Bool := vmcb.csAttrs.getLsbD 9

/-- `cs.attrs.fields.db`. -/
def csDb : Bool := vmcb.csAttrs.getLsbD 10

def checkEferSvme : BitVec 32 := truth (vmcb.efer &&& eferSvme = 0#64)

def checkCr0cdCr0nw : BitVec 32 :=
  truth (vmcb.cr0 &&& x86Cr0Cd = 0#64 ∧ vmcb.cr0 &&& x86Cr0Nw ≠ 0#64)

def checkCr0_32_63 : BitVec 32 := asInt (subBit vmcb.cr0 32 32)

def checkCr4_11_63 : BitVec 32 := asInt (subBit vmcb.cr4 11 53)

def checkDr6_32_63 : BitVec 32 := asInt (subBit vmcb.dr6 32 32)

def checkDr7_32_63 : BitVec 32 := asInt (subBit vmcb.dr7 32 32)

def checkEfer_15_63 : BitVec 32 := asInt (subBit vmcb.efer 15 49)

def checkEferlmeCr0pgCr4pae : BitVec 32 :=
  truth (vmcb.efer &&& eferLme ≠ 0#64 ∧ vmcb.cr0 &&& x86Cr0Pg ≠ 0#64 ∧
    vmcb.cr4 &&& x86Cr4Pae = 0#64)

def checkEferlmeCr0pgCr0pe : BitVec 32 :=
  truth (vmcb.efer &&& eferLme ≠ 0#64 ∧ vmcb.cr0 &&& x86Cr0Pg ≠ 0#64 ∧
    vmcb.cr0 &&& x86Cr0Pe = 0#64)

def checkEferlmeCr0pgCr4paeCslCsd : BitVec 32 :=
  truth (vmcb.efer &&& eferLme ≠ 0#64 ∧ vmcb.cr0 &&& x86Cr0Pg ≠ 0#64 ∧
    vmcb.cr4 &&& x86Cr4Pae ≠ 0#64 ∧ vmcb.csL ∧ vmcb.csDb)

def checkVmrunIntercept : BitVec 32 :=
  truth (vmcb.general2Intercepts &&& intrcptVmrun = 0#32)

/-- The comparison with the largest physical address is not filled in. -/
def checkMsrIoioInterceptTables (_ : VmcbChecked) : BitVec 32 := 0#32

end VmcbChecked

/-- `struct consistencty_check`. -/
structure ConsistencyCheck where
  func : VmcbChecked → BitVec 32
  errorMsg : String

/-- `tbl` in `vmcb_check_consistency`. -/
def consistencyChecks : List ConsistencyCheck :=
  [⟨VmcbChecked.checkEferSvme, "EFER.SVME is not set.\n"⟩,
   ⟨VmcbChecked.checkCr0cdCr0nw, "CR0.CD is not set, and CR0.NW is set.\n"⟩,
   ⟨VmcbChecked.checkCr0_32_63, "CR0[32:63] are not zero.\n"⟩,
   ⟨VmcbChecked.checkCr4_11_63, "CR4[11:63] are not zero.\n"⟩,
   ⟨VmcbChecked.checkDr6_32_63, "DR6[32:63] are not zero.\n"⟩,
   ⟨VmcbChecked.checkDr7_32_63, "DR7[32:63] are not zero.\n"⟩,
   ⟨VmcbChecked.checkEfer_15_63, "EFER[15:63] are not zero.\n"⟩,
   ⟨VmcbChecked.checkEferlmeCr0pgCr4pae,
    "EFER.LME is set, CR0.PG is set, and CR4.PAE is not set.\n"⟩,
   ⟨VmcbChecked.checkEferlmeCr0pgCr0pe,
    "EFER.LME is set, CR0.PG is set, and CR4.PE is not set.\n"⟩,
   ⟨VmcbChecked.checkEferlmeCr0pgCr4paeCslCsd,
    "EFER.LME, CR0.PG, CR4.PAE, CS.L, and CS.D are set.\n"⟩,
   ⟨VmcbChecked.checkVmrunIntercept, "The VMRUN intercept bit is clear.\n"⟩,
   ⟨VmcbChecked.checkMsrIoioInterceptTables,
    "Wrong The MSR or IOIO intercept tables address.\n"⟩]

/-- The loop of `vmcb_check_consistency`. -/
def runChecks : List ConsistencyCheck → Probe Fault Event VmcbChecked Unit
  | [] => pure ()
  | tbl :: rest => do
    let r ← Probe.read tbl.func
    if r ≠ 0#32 then do
      Probe.log [.out tbl.errorMsg []]
      Probe.ofExcept fun _ => fatalFailure "Consistency check failed.\n"
    else runChecks rest

/-- `vmcb_check_consistency`. -/
def vmcbCheckConsistency : Probe Fault Event VmcbChecked Unit := runChecks consistencyChecks

/-! ## What a run of the checks does -/

variable {vmcb : VmcbChecked}

/-- The first check that reports a violation prints its message and stops the machine. -/
theorem runChecks_eq (tbl : List ConsistencyCheck) :
    runChecks tbl vmcb = match tbl.find? (fun t => decide (t.func vmcb ≠ 0#32)) with
      | some t => ([.out t.errorMsg []], fatalFailure "Consistency check failed.\n")
      | none => ([], .ok ()) := by
  induction tbl with
  | nil => rfl
  | cons t rest ih =>
    unfold runChecks
    rw [Probe.run_bind (Probe.returns_read.mpr rfl), List.find?_cons]
    by_cases ht : t.func vmcb = 0#32
    · simp only [ht, ne_eq, not_true_eq_false, if_false, decide_false]
      exact ih
    · simp only [ht, ne_eq, not_false_eq_true, if_true, decide_true]
      rfl

theorem returns_runChecks (tbl : List ConsistencyCheck) :
    (runChecks tbl).Returns vmcb () ↔ ∀ t ∈ tbl, t.func vmcb = 0#32 := by
  unfold Probe.Returns
  rw [runChecks_eq]
  cases h : tbl.find? (fun t => decide (t.func vmcb ≠ 0#32)) with
  | none =>
    refine iff_of_true rfl (fun t ht => ?_)
    have hzero := List.find?_eq_none.mp h t ht
    simpa using hzero
  | some t =>
    refine iff_of_false nofun (fun hall => ?_)
    have hne := List.find?_some h
    exact absurd (hall t (List.mem_of_find?_eq_some h)) (by simpa using hne)

/-! ## What each check sees -/

@[simp] theorem truth_eq_zero {p : Bool} : truth p = 0#32 ↔ p = false := by
  cases p with
  | true => simp [truth]
  | false => simp [truth]

theorem getLsbD_bitMask {n : Nat} {i : Nat} (hi : i < 64) :
    (bitMask n).getLsbD i = decide (i < n) := by
  unfold bitMask
  rw [BitVec.getLsbD_not, BitVec.getLsbD_shiftLeft, BitVec.getLsbD_not, BitVec.getLsbD_zero]
  by_cases h : i < n
  · simp [hi, h]
  · simp [hi, h, Nat.lt_of_le_of_lt (Nat.sub_le i n) hi]

theorem getLsbD_and_bitMask (x : BitVec 64) (n i : Nat) :
    (x &&& bitMask n).getLsbD i = (x.getLsbD i && decide (i < n)) := by
  rw [BitVec.getLsbD_and]
  by_cases hi : i < 64
  · rw [getLsbD_bitMask hi]
  · simp [BitVec.getLsbD_of_ge x i (by omega)]

/-- As an `int`, a part of a register is zero when its lowest 32 bits are. -/
theorem asInt_subBit_eq_zero {x : BitVec 64} {start len : Nat} :
    asInt (subBit x start len) = 0#32 ↔
      ∀ i, start ≤ i → i < start + min len 32 → x.getLsbD i = false := by
  have hbit : ∀ j, (asInt (subBit x start len)).getLsbD j =
      (decide (j < 32) && (decide (j < len) && x.getLsbD (start + j))) := by
    intro j
    unfold asInt subBit
    rw [BitVec.getLsbD_setWidth, BitVec.getLsbD_and, BitVec.getLsbD_ushiftRight]
    by_cases hj : j < 32
    · rw [getLsbD_bitMask (by omega)]
      simp [hj, Bool.and_comm]
    · simp [hj]
  constructor
  · intro h i hlo hhi
    have hzero := hbit (i - start)
    rw [h, BitVec.getLsbD_zero, Nat.add_sub_cancel' hlo] at hzero
    have hlen : i - start < 32 ∧ i - start < len := by omega
    simpa [hlen.1, hlen.2] using hzero.symm
  · intro h
    apply BitVec.eq_of_getLsbD_eq
    intro j hj
    rw [hbit, BitVec.getLsbD_zero]
    by_cases hlen : j < len
    · simp [h (start + j) (by omega) (by omega)]
    · simp [hlen]

/-- A part of a register that fits an `int` is seen as a whole. -/
theorem asInt_subBit_high_eq_zero {x : BitVec 64} :
    asInt (subBit x 32 32) = 0#32 ↔ ∀ i, 32 ≤ i → x.getLsbD i = false := by
  rw [asInt_subBit_eq_zero]
  constructor
  · intro h i hi
    by_cases hlt : i < 64
    · exact h i hi hlt
    · exact BitVec.getLsbD_of_ge x i (by omega)
  · exact fun h i hi _ => h i hi

/-! ## The states that VMRUN accepts -/

/-- What the table is to check of the control block, register by register. -/
structure VmcbChecked.Consistent (vmcb : VmcbChecked) : Prop where
  svme : vmcb.efer.getLsbD 12 = true
  cacheOff : ¬ (vmcb.cr0.getLsbD 30 = false ∧ vmcb.cr0.getLsbD 29 = true)
  cr0High : ∀ i, 32 ≤ i → vmcb.cr0.getLsbD i = false
  cr4High : ∀ i, 11 ≤ i → vmcb.cr4.getLsbD i = false
  dr6High : ∀ i, 32 ≤ i → vmcb.dr6.getLsbD i = false
  dr7High : ∀ i, 32 ≤ i → vmcb.dr7.getLsbD i = false
  eferHigh : ∀ i, 15 ≤ i → vmcb.efer.getLsbD i = false
  longNeedsPae : ¬ (vmcb.efer.getLsbD 8 = true ∧ vmcb.cr0.getLsbD 31 = true ∧
    vmcb.cr4.getLsbD 5 = false)
  longNeedsPe : ¬ (vmcb.efer.getLsbD 8 = true ∧ vmcb.cr0.getLsbD 31 = true ∧
    vmcb.cr0.getLsbD 0 = false)
  longCode : ¬ (vmcb.efer.getLsbD 8 = true ∧ vmcb.cr0.getLsbD 31 = true ∧
    vmcb.cr4.getLsbD 5 = true ∧ vmcb.csAttrs.getLsbD 9 = true ∧ vmcb.csAttrs.getLsbD 10 = true)
  vmrun : vmcb.general2Intercepts.getLsbD 0 = true

/-- The control block without the bits that an `int` has no room for: CR4 from bit 43 on and
EFER from bit 47 on. -/
def VmcbChecked.seen (vmcb : VmcbChecked) : VmcbChecked :=
  { vmcb with
    cr4 := vmcb.cr4 &&& bitMask 43
    efer := vmcb.efer &&& bitMask 47 }

/-! ### The masks of the checks -/

theorem truth_decide_eq_zero {p : Prop} [Decidable p] : truth (decide p) = 0#32 ↔ ¬ p := by
  rw [truth_eq_zero, decide_eq_false_iff_not]

theorem and_eferLme {x : BitVec 64} : x &&& eferLme = 0#64 ↔ x.getLsbD 8 = false :=
  Bits.and_twoPow_eq_zero (s := 8) (by simp)

theorem and_eferSvme {x : BitVec 64} : x &&& eferSvme = 0#64 ↔ x.getLsbD 12 = false :=
  Bits.and_twoPow_eq_zero (s := 12) (by simp)

theorem and_x86Cr0Nw {x : BitVec 64} : x &&& x86Cr0Nw = 0#64 ↔ x.getLsbD 29 = false :=
  Bits.and_twoPow_eq_zero (s := 29) (by simp)

theorem and_x86Cr0Cd {x : BitVec 64} : x &&& x86Cr0Cd = 0#64 ↔ x.getLsbD 30 = false :=
  Bits.and_twoPow_eq_zero (s := 30) (by simp)

theorem and_x86Cr0Pg {x : BitVec 64} : x &&& x86Cr0Pg = 0#64 ↔ x.getLsbD 31 = false :=
  Bits.and_twoPow_eq_zero (s := 31) (by simp)

theorem and_x86Cr0Pe {x : BitVec 64} : x &&& x86Cr0Pe = 0#64 ↔ x.getLsbD 0 = false :=
  Bits.and_twoPow_eq_zero (s := 0) (by simp)

theorem and_x86Cr4Pae {x : BitVec 64} : x &&& x86Cr4Pae = 0#64 ↔ x.getLsbD 5 = false :=
  Bits.and_twoPow_eq_zero (s := 5) (by simp)

theorem and_intrcptVmrun {x : BitVec 32} : x &&& intrcptVmrun = 0#32 ↔ x.getLsbD 0 = false :=
  Bits.and_twoPow_eq_zero (s := 0) (by simp)

/-! ### What each check accepts -/

theorem seen_cr4 (i : Nat) :
    vmcb.seen.cr4.getLsbD i = (vmcb.cr4.getLsbD i && decide (i < 43)) :=
  getLsbD_and_bitMask vmcb.cr4 43 i

theorem seen_efer (i : Nat) :
    vmcb.seen.efer.getLsbD i = (vmcb.efer.getLsbD i && decide (i < 47)) :=
  getLsbD_and_bitMask vmcb.efer 47 i

theorem checkEferSvme_eq_zero :
    vmcb.checkEferSvme = 0#32 ↔ vmcb.seen.efer.getLsbD 12 = true := by
  unfold VmcbChecked.checkEferSvme
  rw [truth_decide_eq_zero, and_eferSvme, seen_efer]
  simp

theorem checkCr0cdCr0nw_eq_zero :
    vmcb.checkCr0cdCr0nw = 0#32 ↔
      ¬ (vmcb.cr0.getLsbD 30 = false ∧ vmcb.cr0.getLsbD 29 = true) := by
  unfold VmcbChecked.checkCr0cdCr0nw
  rw [truth_decide_eq_zero, and_x86Cr0Cd, ne_eq, and_x86Cr0Nw, Bool.not_eq_false]

theorem checkCr4_11_63_eq_zero :
    vmcb.checkCr4_11_63 = 0#32 ↔ ∀ i, 11 ≤ i → vmcb.seen.cr4.getLsbD i = false := by
  unfold VmcbChecked.checkCr4_11_63
  rw [asInt_subBit_eq_zero]
  refine forall_congr' fun i => forall_congr' fun _ => ?_
  rw [seen_cr4]
  by_cases hi : i < 43
  · simp [hi]
  · simp [hi]

theorem checkEfer_15_63_eq_zero :
    vmcb.checkEfer_15_63 = 0#32 ↔ ∀ i, 15 ≤ i → vmcb.seen.efer.getLsbD i = false := by
  unfold VmcbChecked.checkEfer_15_63
  rw [asInt_subBit_eq_zero]
  refine forall_congr' fun i => forall_congr' fun _ => ?_
  rw [seen_efer]
  by_cases hi : i < 47
  · simp [hi]
  · simp [hi]

theorem checkEferlmeCr0pgCr4pae_eq_zero :
    vmcb.checkEferlmeCr0pgCr4pae = 0#32 ↔
      ¬ (vmcb.seen.efer.getLsbD 8 = true ∧ vmcb.cr0.getLsbD 31 = true ∧
        vmcb.seen.cr4.getLsbD 5 = false) := by
  unfold VmcbChecked.checkEferlmeCr0pgCr4pae
  rw [truth_decide_eq_zero, ne_eq, ne_eq, and_eferLme, and_x86Cr0Pg, and_x86Cr4Pae, seen_efer,
    seen_cr4]
  simp

theorem checkEferlmeCr0pgCr0pe_eq_zero :
    vmcb.checkEferlmeCr0pgCr0pe = 0#32 ↔
      ¬ (vmcb.seen.efer.getLsbD 8 = true ∧ vmcb.cr0.getLsbD 31 = true ∧
        vmcb.cr0.getLsbD 0 = false) := by
  unfold VmcbChecked.checkEferlmeCr0pgCr0pe
  rw [truth_decide_eq_zero, ne_eq, ne_eq, and_eferLme, and_x86Cr0Pg, and_x86Cr0Pe, seen_efer]
  simp

theorem checkEferlmeCr0pgCr4paeCslCsd_eq_zero :
    vmcb.checkEferlmeCr0pgCr4paeCslCsd = 0#32 ↔
      ¬ (vmcb.seen.efer.getLsbD 8 = true ∧ vmcb.cr0.getLsbD 31 = true ∧
        vmcb.seen.cr4.getLsbD 5 = true ∧ vmcb.csAttrs.getLsbD 9 = true ∧
        vmcb.csAttrs.getLsbD 10 = true) := by
  unfold VmcbChecked.checkEferlmeCr0pgCr4paeCslCsd VmcbChecked.csL VmcbChecked.csDb
  rw [truth_decide_eq_zero, ne_eq, ne_eq, ne_eq, and_eferLme, and_x86Cr0Pg, and_x86Cr4Pae,
    seen_efer, seen_cr4]
  simp

theorem checkVmrunIntercept_eq_zero :
    vmcb.checkVmrunIntercept = 0#32 ↔ vmcb.general2Intercepts.getLsbD 0 = true := by
  unfold VmcbChecked.checkVmrunIntercept
  rw [truth_decide_eq_zero, and_intrcptVmrun, Bool.not_eq_false]

/-! ### What the table accepts -/

/-- The check accepts what VMRUN accepts, as far as it sees the control block. -/
theorem returns_vmcbCheckConsistency :
    vmcbCheckConsistency.Returns vmcb () ↔ vmcb.seen.Consistent := by
  unfold vmcbCheckConsistency consistencyChecks
  rw [returns_runChecks]
  simp only [List.forall_mem_cons]
  constructor
  · rintro ⟨svme, cache, cr0, cr4, dr6, dr7, efer, pae, pe, code, vmrun, -⟩
    exact {
      svme := checkEferSvme_eq_zero.mp svme
      cacheOff := checkCr0cdCr0nw_eq_zero.mp cache
      cr0High := asInt_subBit_high_eq_zero.mp cr0
      cr4High := checkCr4_11_63_eq_zero.mp cr4
      dr6High := asInt_subBit_high_eq_zero.mp dr6
      dr7High := asInt_subBit_high_eq_zero.mp dr7
      eferHigh := checkEfer_15_63_eq_zero.mp efer
      longNeedsPae := checkEferlmeCr0pgCr4pae_eq_zero.mp pae
      longNeedsPe := checkEferlmeCr0pgCr0pe_eq_zero.mp pe
      longCode := checkEferlmeCr0pgCr4paeCslCsd_eq_zero.mp code
      vmrun := checkVmrunIntercept_eq_zero.mp vmrun }
  · intro h
    exact ⟨checkEferSvme_eq_zero.mpr h.svme, checkCr0cdCr0nw_eq_zero.mpr h.cacheOff,
      asInt_subBit_high_eq_zero.mpr h.cr0High, checkCr4_11_63_eq_zero.mpr h.cr4High,
      asInt_subBit_high_eq_zero.mpr h.dr6High, asInt_subBit_high_eq_zero.mpr h.dr7High,
      checkEfer_15_63_eq_zero.mpr h.eferHigh, checkEferlmeCr0pgCr4pae_eq_zero.mpr h.longNeedsPae,
      checkEferlmeCr0pgCr0pe_eq_zero.mpr h.longNeedsPe,
      checkEferlmeCr0pgCr4paeCslCsd_eq_zero.mpr h.longCode,
      checkVmrunIntercept_eq_zero.mpr h.vmrun, rfl, nofun⟩

/-- No bit is set that the conversion to `int` loses. -/
structure VmcbChecked.FitsInt (vmcb : VmcbChecked) : Prop where
  cr4 : ∀ i, 43 ≤ i → vmcb.cr4.getLsbD i = false
  efer : ∀ i, 47 ≤ i → vmcb.efer.getLsbD i = false

theorem VmcbChecked.FitsInt.seen_eq (h : vmcb.FitsInt) : vmcb.seen = vmcb := by
  have hcr4 : vmcb.cr4 &&& bitMask 43 = vmcb.cr4 := by
    apply BitVec.eq_of_getLsbD_eq
    intro i _
    rw [getLsbD_and_bitMask]
    by_cases hi : i < 43
    · simp [hi]
    · simp [hi, h.cr4 i (by omega)]
  have hefer : vmcb.efer &&& bitMask 47 = vmcb.efer := by
    apply BitVec.eq_of_getLsbD_eq
    intro i _
    rw [getLsbD_and_bitMask]
    by_cases hi : i < 47
    · simp [hi]
    · simp [hi, h.efer i (by omega)]
  unfold VmcbChecked.seen
  rw [hcr4, hefer]

theorem VmcbChecked.Consistent.fitsInt (h : vmcb.Consistent) : vmcb.FitsInt where
  cr4 := fun i hi => h.cr4High i (by omega)
  efer := fun i hi => h.eferHigh i (by omega)

/-- The check is exact for a control block if none of the lost bits is set, or if something else
is wrong with it. -/
theorem vmcbCheckConsistency_exact_iff (vmcb : VmcbChecked) :
    (vmcbCheckConsistency.Returns vmcb () ↔ vmcb.Consistent) ↔
      vmcb.FitsInt ∨ ¬ vmcb.seen.Consistent := by
  rw [returns_vmcbCheckConsistency]
  constructor
  · intro h
    by_cases hseen : vmcb.seen.Consistent
    · exact .inl (h.mp hseen).fitsInt
    · exact .inr hseen
  · rintro (hfits | hseen)
    · rw [hfits.seen_eq]
    · refine iff_of_false hseen (fun hc => hseen ?_)
      rwa [hc.fitsInt.seen_eq]

/-- A guest as the boot sector starts it, with bit 43 of CR4 set. -/
def vmcbHighCr4 : VmcbChecked where
  toVmcb := { Vmcb.mbrStart with cr4 := 1#64 <<< 43 }
  csAttrs := 0x019b#16
  dr7 := 0x400#64
  dr6 := 0xffff0ff0#64

theorem vmcbCheckConsistency_misses_cr4 :
    ¬ ∀ vmcb : VmcbChecked, vmcbCheckConsistency.Returns vmcb () ↔ vmcb.Consistent := by
  intro h
  have haccepts : vmcbCheckConsistency.Returns vmcbHighCr4 () :=
    (returns_runChecks consistencyChecks).mpr (by decide)
  have hbit := ((h vmcbHighCr4).mp haccepts).cr4High 43 (by simp)
  exact absurd hbit (by decide)

end Mavmm
