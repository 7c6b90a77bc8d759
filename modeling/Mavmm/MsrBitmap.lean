import Mavmm.Lib.BitString
import Mavmm.VmxControls

/-!
# The MSR bitmap (vmcs.c, bitops.h)

A page with four quarters of 8192 bits: reads and writes of the low and of the
high registers.  The processor leaves the guest when the bit of an access is
set, and `vmx_disable_intercept_for_msr` clears both bits of a register.
-/

namespace Mavmm

def bytesPerLong : Nat := 8

/-- `clear_bit`. -/
def clearBit (nr : BitVec 32) (addr : BitVec 64) (m : Mem) : Mem := m.btr addr nr

/-- `p + i` for `unsigned long *p`. -/
def longAt (p : BitVec 64) (i : Nat) : BitVec 64 := p + BitVec.ofNat 64 (bytesPerLong * i)

/-- `vmx_disable_intercept_for_msr` with the bitmap at `msrBitmap`. -/
def disableInterceptForMsr (msrBitmap : BitVec 64) (msr : BitVec 32) (m : Mem) : Mem :=
  if msrBitmap = 0#64 then m
  else if msr ≤ 0x1fff#32 then
    let m := clearBit msr (longAt msrBitmap (0x000 / bytesPerLong)) m
    clearBit msr (longAt msrBitmap (0x800 / bytesPerLong)) m
  else if 0xc0000000#32 ≤ msr ∧ msr ≤ 0xc0001fff#32 then
    let msr := msr &&& 0x1fff#32
    let m := clearBit msr (longAt msrBitmap (0x400 / bytesPerLong)) m
    clearBit msr (longAt msrBitmap (0xc00 / bytesPerLong)) m
  else m

def vmxDisableInterceptForMsr (msr : BitVec 32) : VmxM Unit :=
  Exec.modify fun s => s.setHost
    { s.host with mem := disableInterceptForMsr s.msrInterceptTable msr s.host.mem }

/-! ## What the processor reads -/

inductive MsrAccess where
  | read
  | write
deriving DecidableEq

/-- The bytes of the bitmap for the registers from 0 on. -/
def MsrAccess.lowQuarter : MsrAccess → Nat
  | .read => 0x000
  | .write => 0x800

/-- The bytes of the bitmap for the registers from 0xc0000000 on. -/
def MsrAccess.highQuarter : MsrAccess → Nat
  | .read => 0x400
  | .write => 0xc00

/-- The bit of the bitmap for an access to a register; there is none for most registers. -/
def consultedBit (access : MsrAccess) (msr : BitVec 32) : Option Nat :=
  if msr.toNat < 0x2000 then some (8 * access.lowQuarter + msr.toNat)
  else if 0xc0000000 ≤ msr.toNat ∧ msr.toNat < 0xc0002000 then
    some (8 * access.highQuarter + (msr.toNat - 0xc0000000))
  else none

/-- The bits of a register are cleared, and nothing else is changed. -/
structure InterceptDisabled (msr : BitVec 32) (s s' : VmxState) : Prop where
  bits : ∀ n < 32768, Mem.bitAt s'.host.mem s.msrInterceptTable n =
    (Mem.bitAt s.host.mem s.msrInterceptTable n && decide (consultedBit .read msr ≠ some n) &&
      decide (consultedBit .write msr ≠ some n))
  outside : ∀ x, 4096 ≤ (x - s.msrInterceptTable).toNat → s'.host.mem x = s.host.mem x
  rest : s' = s.setHost { s.host with mem := s'.host.mem }

/-! ## One quarter -/

section
variable {m : Mem} {base : BitVec 64} {nr : BitVec 32} {q n : Nat}

/-- A bit of a quarter is cleared, seen from the start of the bitmap. -/
theorem bitAt_clearBit (hnr : nr.toNat < 0x2000) (hq : q ≤ 0xc00) (hn : n < 32768) :
    Mem.bitAt (clearBit nr (base + BitVec.ofNat 64 q) m) base n =
      (Mem.bitAt m base n && decide (n ≠ 8 * q + nr.toNat)) := by
  unfold clearBit
  by_cases hbefore : n < 8 * q
  · have hapart := Mem.apart_of_offsets base (x := q + 4 * (nr.toNat / 32)) (y := n / 8) (n := 4)
      (k := 1) (by omega) (by omega) (by omega) 0 (by simp)
    rw [BitVec.add_zero, BitVec.ofNat_add, ← BitVec.add_assoc] at hapart
    have hne : n ≠ 8 * q + nr.toNat := by omega
    rw [decide_eq_true hne, Bool.and_true]
    unfold Mem.bitAt
    rw [Mem.btr_outside (by omega) hapart]
  · have hsplit : n = 8 * q + (n - 8 * q) := by omega
    rw [hsplit, ← Mem.bitAt_offset, ← Mem.bitAt_offset, Mem.bitAt_btr (by omega) (by omega)]
    congr 1
    exact decide_eq_decide.mpr (by omega)

theorem clearBit_outside (hnr : nr.toNat < 0x2000) (hq : q ≤ 0xc00) {x : BitVec 64}
    (hx : 4096 ≤ (x - base).toNat) : clearBit nr (base + BitVec.ofNat 64 q) m x = m x := by
  refine Mem.btr_outside (by omega) ?_
  rw [BitVec.add_assoc, ← BitVec.ofNat_add]
  -- the word is within the 4096 bytes
  have hword : x - (base + BitVec.ofNat 64 (q + 4 * (nr.toNat / 32))) =
      x - base - BitVec.ofNat 64 (q + 4 * (nr.toNat / 32)) := by
    bv_omega
  rw [hword]
  generalize x - base = d at hx
  rw [BitVec.toNat_sub_of_le]
  · rw [BitVec.toNat_ofNat]
    omega
  · rw [BitVec.le_def, BitVec.toNat_ofNat]
    omega

end

/-! ## The update -/

section
variable {m : Mem} {base : BitVec 64} {msr : BitVec 32}

/-- Both quarters of a range. -/
theorem bitAt_clearBit_twice {nr : BitVec 32} {q r n : Nat} (hnr : nr.toNat < 0x2000)
    (hq : q ≤ 0xc00) (hr : r ≤ 0xc00) (hn : n < 32768) :
    Mem.bitAt (clearBit nr (base + BitVec.ofNat 64 r) (clearBit nr (base + BitVec.ofNat 64 q) m))
        base n =
      (Mem.bitAt m base n && decide (some (8 * q + nr.toNat) ≠ some n) &&
        decide (some (8 * r + nr.toNat) ≠ some n)) := by
  rw [bitAt_clearBit hnr hr hn, bitAt_clearBit hnr hq hn]
  congr 1
  · congr 1
    exact decide_eq_decide.mpr (by simp [eq_comm])
  · exact decide_eq_decide.mpr (by simp [eq_comm])

theorem toNat_and_1fff (msr : BitVec 32) : (msr &&& 0x1fff#32).toNat = msr.toNat % 0x2000 :=
  Bits.toNat_and_lowMask msr 13 (by simp)

/-- The three ranges of the numbers, as the code and as the processor tells them apart. -/
theorem disableInterceptForMsr_bits (hbase : base ≠ 0#64) {n : Nat} (hn : n < 32768) :
    Mem.bitAt (disableInterceptForMsr base msr m) base n =
      (Mem.bitAt m base n && decide (consultedBit .read msr ≠ some n) &&
        decide (consultedBit .write msr ≠ some n)) := by
  unfold disableInterceptForMsr consultedBit
  rw [if_neg hbase]
  by_cases hlow : msr.toNat < 0x2000
  · have hcode : msr ≤ 0x1fff#32 := by bv_omega
    rw [if_pos hcode, if_pos hlow, if_pos hlow]
    exact bitAt_clearBit_twice (q := 0x000) (r := 0x800) hlow (by simp) (by simp) hn
  · have hcode : ¬ msr ≤ 0x1fff#32 := by bv_omega
    rw [if_neg hcode, if_neg hlow, if_neg hlow]
    by_cases hhigh : 0xc0000000 ≤ msr.toNat ∧ msr.toNat < 0xc0002000
    · have hcode' : 0xc0000000#32 ≤ msr ∧ msr ≤ 0xc0001fff#32 := by bv_omega
      have hfold : (msr &&& 0x1fff#32).toNat = msr.toNat - 0xc0000000 := by
        rw [toNat_and_1fff]
        omega
      rw [if_pos hcode', if_pos hhigh, if_pos hhigh, ← hfold]
      exact bitAt_clearBit_twice (q := 0x400) (r := 0xc00) (by omega) (by simp) (by simp) hn
    · have hcode' : ¬ (0xc0000000#32 ≤ msr ∧ msr ≤ 0xc0001fff#32) := by bv_omega
      rw [if_neg hcode', if_neg hhigh, if_neg hhigh]
      simp

theorem disableInterceptForMsr_outside {x : BitVec 64} (hx : 4096 ≤ (x - base).toNat) :
    disableInterceptForMsr base msr m x = m x := by
  unfold disableInterceptForMsr
  split
  · rfl
  · split
    · next hlow =>
      have hnr : msr.toNat < 0x2000 := by bv_omega
      exact (clearBit_outside (q := 0x800) hnr (by simp) hx).trans
        (clearBit_outside (q := 0x000) hnr (by simp) hx)
    · split
      · have hnr : (msr &&& 0x1fff#32).toNat < 0x2000 := by
          rw [toNat_and_1fff]
          omega
        exact (clearBit_outside (q := 0xc00) hnr (by simp) hx).trans
          (clearBit_outside (q := 0x400) hnr (by simp) hx)
      · rfl

theorem disableInterceptForMsr_uncontrolled (h : ∀ access, consultedBit access msr = none) :
    disableInterceptForMsr base msr m = m := by
  have hread := h .read
  unfold consultedBit at hread
  unfold disableInterceptForMsr
  split at hread
  · exact nomatch hread
  · next hlow =>
    split at hread
    · exact nomatch hread
    · next hhigh =>
      rw [if_neg (by bv_omega : ¬ msr ≤ 0x1fff#32),
        if_neg (by bv_omega : ¬ (0xc0000000#32 ≤ msr ∧ msr ≤ 0xc0001fff#32)), ite_self]

/-- A bit that is consulted has the register's number in its quarter. -/
theorem consultedBit_eq_some {access : MsrAccess} {n : Nat} (h : consultedBit access msr = some n) :
    msr.toNat < 0x2000 ∧ n = 8 * access.lowQuarter + msr.toNat ∨
      0xc0000000 ≤ msr.toNat ∧ msr.toNat < 0xc0002000 ∧
        n + 0xc0000000 = 8 * access.highQuarter + msr.toNat := by
  unfold consultedBit at h
  split at h
  · next hlow => exact .inl ⟨hlow, (Option.some.inj h).symm⟩
  · split at h
    · next hhigh =>
      have hn := Option.some.inj h
      exact .inr ⟨hhigh.1, hhigh.2, by omega⟩
    · exact nomatch h

/-- Accesses that have the same bit are accesses of one kind to one register. -/
theorem consultedBit_inj {access access' : MsrAccess} {msr' : BitVec 32} {n : Nat}
    (h : consultedBit access msr = some n) (h' : consultedBit access' msr' = some n) :
    access = access' ∧ msr = msr' := by
  have hcases := consultedBit_eq_some h
  have hcases' := consultedBit_eq_some h'
  have hmsr : msr.toNat = msr'.toNat → msr = msr' := BitVec.eq_of_toNat_eq
  cases access <;> cases access' <;>
    simp only [MsrAccess.lowQuarter, MsrAccess.highQuarter] at hcases hcases'
  · exact ⟨rfl, hmsr (by omega)⟩
  · omega
  · omega
  · exact ⟨rfl, hmsr (by omega)⟩

end

/-- The call clears the two bits of a register and no others, it changes nothing for a register
without bits, and no two registers have a bit in common. -/
theorem msrBitmap_update {s : VmxState} (hbitmap : s.msrInterceptTable ≠ 0#64) (msr : BitVec 32) :
    ∃ s', (vmxDisableInterceptForMsr msr).Returns s () s' ∧ InterceptDisabled msr s s' ∧
      ((∀ access, consultedBit access msr = none) → s' = s) ∧
      ∀ msr' ≠ msr, ∀ access access' n,
        consultedBit access msr = some n → consultedBit access' msr' ≠ some n := by
  refine ⟨_, rfl, ⟨?_, ?_, rfl⟩, ?_, ?_⟩
  · exact fun n hn => disableInterceptForMsr_bits hbitmap hn
  · exact fun x hx => disableInterceptForMsr_outside hx
  · intro hnone
    change s.setHost { s.host with
      mem := disableInterceptForMsr s.msrInterceptTable msr s.host.mem } = s
    rw [disableInterceptForMsr_uncontrolled hnone]
    rfl
  · intro msr' hne access access' n h h'
    exact hne (consultedBit_inj h h').2.symm

/-- Reads of EFER do not leave the guest any more. -/
theorem msrBitmap_update_efer : ∃ s',
    (vmxDisableInterceptForMsr 0xc0000080#32).Returns
      { VmxState.sample with msrInterceptTable := 0x8000#64 } () s' ∧
    Mem.bitAt s'.host.mem 0x8000#64 (8 * 0x400 + 0x80) = false := by
  obtain ⟨s', h, hdisabled, -⟩ := msrBitmap_update
    (s := { VmxState.sample with msrInterceptTable := 0x8000#64 }) (by decide) 0xc0000080#32
  refine ⟨s', h, ?_⟩
  have hbit : consultedBit .read 0xc0000080#32 = some (8 * 0x400 + 0x80) := by decide
  have hcleared := hdisabled.bits (8 * 0x400 + 0x80) (by simp)
  rwa [hbit, decide_eq_false (not_not_intro rfl), Bool.and_false, Bool.false_and] at hcleared

end Mavmm
