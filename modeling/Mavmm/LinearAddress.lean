import Mavmm.GuestReach

/-!
# The linear address of a logical address

A linear address of a 32-bit guest is the base of the segment plus the offset,
modulo `2 ^ 32`.  `glogic_2_glinear` keeps the carry: it is right in real mode,
and in protected mode exactly where the sum stays below `2 ^ 32`
(`glogic2Glinear_right_iff`).
-/

namespace Mavmm

/-- The base that a descriptor holds in its bits 16 to 31, 32 to 39 and 56 to 63. -/
def descriptorBase (descriptor : BitVec 64) : Nat :=
  descriptor.toNat / 2 ^ 16 % 2 ^ 16 + descriptor.toNat / 2 ^ 32 % 2 ^ 8 * 2 ^ 16 +
    descriptor.toNat / 2 ^ 56 % 2 ^ 8 * 2 ^ 24

theorem toNat_segBaseaddr (descriptor : BitVec 64) :
    (segBaseaddr descriptor).toNat = descriptorBase descriptor := by
  have h16 : ∀ x : BitVec 32, (x <<< 16).toNat = x.toNat * 2 ^ 16 % 2 ^ 32 := fun x => by
    rw [BitVec.toNat_shiftLeft, Nat.shiftLeft_eq]
  have h24 : ∀ x : BitVec 32, (x <<< 24).toNat = x.toNat * 2 ^ 24 % 2 ^ 32 := fun x => by
    rw [BitVec.toNat_shiftLeft, Nat.shiftLeft_eq]
  unfold segBaseaddr descriptorBase
  simp only [BitVec.toNat_add, h16, h24, BitVec.toNat_setWidth, BitVec.extractLsb'_toNat,
    Nat.shiftRight_eq_div_pow]
  omega

namespace AddressSpace

/-- A selector of the global table that is not null. -/
structure GdtSelector (sel : BitVec 16) : Prop where
  index : sel.toNat / 8 ≠ 0
  global : sel.getLsbD 2 = false

/-- What the linear address should be. -/
structure LinearRight (as : AddressSpace) (sel : BitVec 16) (off : BitVec 64)
    (result : Except Fault (BitVec 64)) : Prop where
  real : as.cr0 &&& x86Cr0Pe = 0#64 →
    ∃ a, result = .ok a ∧ a.toNat = sel.toNat * 16 + off.toNat % 2 ^ 16
  segment : as.cr0 &&& x86Cr0Pe ≠ 0#64 → GdtSelector sel → ∀ p, gdtentryRead as sel = some p →
    (as.cr0 &&& x86Cr0Pg ≠ 0#64 → p ≠ -1#64) →
    ∃ a, result = .ok a ∧ a.toNat = (descriptorBase (as.mem.load64 p) + off.toNat) % 2 ^ 32
  below : ∀ a, result = .ok a → a.toNat < 2 ^ 32

/-- The base that is added to the offset: 0 with the null selector. -/
def segmentBase (as : AddressSpace) (sel : BitVec 16) : Nat :=
  match gdtentryRead as sel with
  | some p => descriptorBase (as.mem.load64 p)
  | none => 0

variable {as : AddressSpace} {sel : BitVec 16} {off : BitVec 64}

theorem exists_gdtentryRead (hpe : as.cr0 &&& x86Cr0Pe ≠ 0#64) (hsel : sel ≠ 0#16)
    (hpae : as.cr4 &&& x86Cr4Pae = 0#64) : ∃ p, gdtentryRead as sel = some p := by
  unfold gdtentryRead
  rw [if_neg (by simp [hpe, hsel, hpae])]
  dsimp only
  split
  · exact ⟨_, rfl⟩
  · split
    · rw [linear2physicalLegacy4kb_eq]
      exact ⟨_, rfl⟩
    · rw [linear2physicalLegacy4mb_unmasked]
      exact ⟨_, rfl⟩

/-- In protected mode the result is the 64-bit sum of the base and the offset. -/
theorem glogic2Glinear_protected (hpe : as.cr0 &&& x86Cr0Pe ≠ 0#64)
    (hpae : as.cr4 &&& x86Cr4Pae = 0#64) : ∃ a, glogic2Glinear as sel off = .ok a ∧
      a.toNat = (as.segmentBase sel + off.toNat) % 2 ^ 64 := by
  unfold segmentBase
  by_cases hsel : sel = 0#16
  · have hnone : gdtentryRead as sel = none := if_pos (.inr (.inl hsel))
    refine ⟨off, ?_, ?_⟩
    · unfold glogic2Glinear
      rw [if_neg hpe, if_pos hsel]
    · rw [hnone, Nat.zero_add, Nat.mod_eq_of_lt off.isLt]
  · obtain ⟨p, hp⟩ := exists_gdtentryRead hpe hsel hpae
    refine ⟨_, glogic2Glinear_of_read hp, ?_⟩
    have hbase : ((segBaseaddr (as.mem.load64 p)).setWidth 64).toNat =
        descriptorBase (as.mem.load64 p) := by
      rw [BitVec.toNat_setWidth_of_le (by simp), toNat_segBaseaddr]
    rw [hp, BitVec.toNat_add, hbase]

/-- The linear address is right exactly in real mode, and where the sum does not reach
`2 ^ 32`. -/
theorem glogic2Glinear_right_iff (hpae : as.cr4 &&& x86Cr4Pae = 0#64) :
    LinearRight as sel off (glogic2Glinear as sel off) ↔
      (as.cr0 &&& x86Cr0Pe ≠ 0#64 → (as.segmentBase sel + off.toNat) % 2 ^ 64 < 2 ^ 32) := by
  by_cases hpe : as.cr0 &&& x86Cr0Pe = 0#64
  · refine ⟨fun _ h => absurd hpe h, fun _ => ?_⟩
    have hoff := Bits.toNat_and_lowMask off 16 (by simp)
    have hsel := sel.isLt
    have hval : (sel.setWidth 64 * 0x10#64 + (off &&& 0xffff#64)).toNat =
        sel.toNat * 16 + off.toNat % 2 ^ 16 := by
      rw [BitVec.toNat_add, BitVec.toNat_mul, BitVec.toNat_setWidth,
        show (0xffff#64) = BitVec.ofNat 64 (2 ^ 16 - 1) from rfl, hoff, BitVec.toNat_ofNat]
      omega
    have hok : glogic2Glinear as sel off = .ok (sel.setWidth 64 * 0x10#64 + (off &&& 0xffff#64)) :=
      if_pos hpe
    refine ⟨fun _ => ⟨_, hok, hval⟩, fun h => absurd hpe h, fun a ha => ?_⟩
    rw [hok] at ha
    cases ha
    omega
  · obtain ⟨a, (hok : glogic2Glinear as sel off = .ok a), ha⟩ := glogic2Glinear_protected hpe hpae
    constructor
    · intro h _
      rw [← ha]
      exact h.below a hok
    · intro h
      have hlt := h hpe
      refine ⟨fun h => absurd h hpe, fun _ _ p hp _ => ⟨a, hok, ?_⟩, fun b hb => ?_⟩
      · -- a sum below `2 ^ 32` is its own remainder
        unfold segmentBase at ha hlt
        rw [hp] at ha hlt
        dsimp only at ha hlt
        omega
      · rw [hok] at hb
        cases hb
        omega

/-- A flat table at 4 KB whose entry 6 is a segment based at 0xb7e8d6c0. -/
def tlsSegment : AddressSpace where
  cr0 := 1#64
  cr3 := 0#64
  cr4 := 0#64
  gdtrBase := 0x1000#64
  mem := Mem.store64 (fun _ => 0#8) 0x1030#64 0xb7dff3e8d6c0ffff#64

theorem glogic2Glinear_right_tls :
    LinearRight tlsSegment 0x33#16 0x10#64 (glogic2Glinear tlsSegment 0x33#16 0x10#64) :=
  (glogic2Glinear_right_iff (by decide)).mpr fun _ => by decide +kernel

/-- A negative offset into the segment gives an address past 4 GB. -/
theorem glogic2Glinear_carries :
    glogic2Glinear tlsSegment 0x33#16 0xfffffff0#64 = .ok 0x1b7e8d6b0#64 ∧
      ¬ LinearRight tlsSegment 0x33#16 0xfffffff0#64
        (glogic2Glinear tlsSegment 0x33#16 0xfffffff0#64) := by
  have hok : glogic2Glinear tlsSegment 0x33#16 0xfffffff0#64 = .ok 0x1b7e8d6b0#64 := rfl
  refine ⟨hok, fun h => ?_⟩
  exact absurd (h.below _ hok) (by simp)

end AddressSpace

end Mavmm
