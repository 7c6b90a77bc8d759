import Mavmm.GuestPaging
import Mavmm.Lib.Paging

/-!
# `linear_2_physical` against the architecture

The two walkers agree with the 32-bit walk of the processor on every entry
they read in the same place, for frames below 2 GB (`linear2Physical_eq_walk`).
They differ where a base is sign-extended, where the flag bits of `cr3` shift
the directory, and where the present bit of a directory entry is skipped.
-/

namespace Mavmm

open Paging

/-- The value `linear_2_physical` reports for the outcome of a walk. -/
def reported : Option (BitVec 64) → BitVec 64
  | none => -1#64
  | some a => a

/-! ## Entries -/

theorem entry4kbIsPresent_eq (e : BitVec 32) : entry4kbIsPresent e = present e :=
  Bits.testFlag (by simp)

theorem entry4mbIsPresent_eq (e : BitVec 32) : entry4mbIsPresent e = present e :=
  Bits.testFlag (by simp)

theorem pageSizeFlag_eq (e : BitVec 32) :
    decide (Pd4mEntry.flags e &&& BitVec.ofNat 13 pttefPageSize ≠ 0#13) = large e :=
  Bits.testFlag (by simp)

/-- The bits of a shifted field that ends at the top of its word: the top one fills the
upper half of the address. -/
theorem getLsbD_shiftInt (e : BitVec 32) {lo : Nat} (hlo : lo < 32) {i : Nat} (hi : i < 64) :
    (shiftInt (e.extractLsb' lo (32 - lo)) lo).getLsbD i =
      if i < lo then false else if i < 32 then e.getLsbD i else e.getLsbD 31 := by
  have hbit : ∀ j, j < 32 → (((e.extractLsb' lo (32 - lo)).setWidth 32) <<< lo).getLsbD j =
      if j < lo then false else e.getLsbD j := by
    intro j hj
    rw [BitVec.getLsbD_shiftLeft, BitVec.getLsbD_setWidth, BitVec.getLsbD_extractLsb']
    by_cases h : j < lo
    · simp [h]
    · have h₁ : j - lo < 32 - lo := by omega
      have h₂ : j - lo < 32 := by omega
      have h₃ : lo + (j - lo) = j := by omega
      simp [h, hj, h₁, h₂, h₃]
  unfold shiftInt
  rw [BitVec.getLsbD_signExtend, BitVec.msb_eq_getLsbD_last, hbit 31 (by simp),
    if_neg (by omega : ¬ 31 < lo), decide_eq_true hi, Bool.true_and]
  by_cases h : i < 32
  · rw [if_pos h, hbit i h, if_pos h]
  · rw [if_neg h, if_neg h, if_neg (by omega : ¬ i < lo)]

/-- Below 2 GB the sign extension does nothing. -/
theorem shiftInt_low {e : BitVec 32} {lo : Nat} (hlo : lo < 32) (htop : e.getLsbD 31 = false) :
    (shiftInt (e.extractLsb' lo (32 - lo)) lo).toNat = e.toNat / 2 ^ lo * 2 ^ lo := by
  have hlt : e.toNat / 2 ^ lo * 2 ^ lo < 2 ^ 64 :=
    Nat.lt_of_le_of_lt (Nat.div_mul_le_self _ _) (Nat.lt_trans e.isLt (by simp))
  have h : shiftInt (e.extractLsb' lo (32 - lo)) lo =
      BitVec.ofNat 64 (e.toNat / 2 ^ lo * 2 ^ lo) := by
    apply BitVec.eq_of_getLsbD_eq
    intro i hi
    rw [getLsbD_shiftInt e hlo hi, BitVec.getLsbD_ofNat, Nat.testBit_mul_two_pow,
      Nat.testBit_div_two_pow, decide_eq_true hi, Bool.true_and, BitVec.testBit_toNat, htop]
    by_cases h : i < lo
    · simp [h, Nat.not_le.mpr h]
    · have hsum : i - lo + lo = i := by omega
      rw [if_neg h, decide_eq_true (Nat.le_of_not_lt h), Bool.true_and, hsum]
      split
      · rfl
      · next h32 => exact (BitVec.getLsbD_of_ge e i (Nat.le_of_not_lt h32)).symm
  rw [h, BitVec.toNat_ofNat, Nat.mod_eq_of_lt hlt]

/-- From 2 GB on the upper half of the address is filled with ones. -/
theorem shiftInt_high {e : BitVec 32} {lo : Nat} (hlo : lo < 32) (htop : e.getLsbD 31 = true) :
    2 ^ 64 - 2 ^ 31 ≤ (shiftInt (e.extractLsb' lo (32 - lo)) lo).toNat := by
  have hmsb : (((e.extractLsb' lo (32 - lo)).setWidth 32) <<< lo).msb = true := by
    have h := getLsbD_shiftInt e hlo (show 31 < 64 by decide)
    unfold shiftInt at h
    rw [BitVec.getLsbD_signExtend, if_pos (by simp), if_neg (by omega), if_pos (by simp),
      htop] at h
    rw [BitVec.msb_eq_getLsbD_last]
    simpa using h
  have hge := BitVec.toNat_ge_of_msb_true hmsb
  unfold shiftInt
  rw [BitVec.toNat_signExtend, hmsb, if_pos rfl, BitVec.toNat_setWidth]
  omega

theorem shiftInt_aligned (e : BitVec 32) {lo : Nat} (hlo : lo < 32) :
    (shiftInt (e.extractLsb' lo (32 - lo)) lo).toNat % 2 ^ lo = 0 := by
  apply Nat.eq_of_testBit_eq
  intro i
  rw [Nat.testBit_mod_two_pow, Nat.zero_testBit]
  by_cases h : i < lo
  · rw [BitVec.testBit_toNat, getLsbD_shiftInt e hlo (by omega), if_pos h, Bool.and_false]
  · rw [decide_eq_false h, Bool.false_and]

/-! ## The walkers -/

/-- A page of the walkers: the shifted base of `e` and the offset below bit `lo`. -/
theorem shiftInt_page {e : BitVec 32} {lo off : Nat} {o : BitVec 64} (hlo : lo < 32)
    (ho : o.toNat = off) (hoff : off < 2 ^ lo) :
    (shiftInt (e.extractLsb' lo (32 - lo)) lo + o).toNat =
      (shiftInt (e.extractLsb' lo (32 - lo)) lo).toNat + off := by
  have haligned := shiftInt_aligned e hlo
  have hlt := (shiftInt (e.extractLsb' lo (32 - lo)) lo).isLt
  have hdvd : (2 : Nat) ^ lo ∣ 2 ^ 64 := Nat.pow_dvd_pow 2 (by omega)
  obtain ⟨b, hb⟩ := Nat.dvd_of_mod_eq_zero haligned
  obtain ⟨c, hc⟩ := hdvd
  rw [BitVec.toNat_add, ho, Nat.mod_eq_of_lt]
  have hbc : b < c := by
    rw [hb, hc] at hlt
    exact Nat.lt_of_mul_lt_mul_left hlt
  rw [hb, hc]
  have hstep : 2 ^ lo * b + 2 ^ lo ≤ 2 ^ lo * c := by
    rw [← Nat.mul_succ]
    exact Nat.mul_le_mul_left _ hbc
  omega

section
variable (m : Mem) {a : BitVec 64}

/-- What the code makes of a page table entry. -/
def tableResult (pte : BitVec 32) (a : BitVec 64) : BitVec 64 :=
  if present pte then shiftInt (PgtEntry4kb.pteBase pte) 12 + (a &&& 0xfff#64) else -1#64

/-- The walk of one page table. -/
theorem linear2physicalTable4kb_pt (t : BitVec 64) :
    linear2physicalTable4kb m a 1 t = .ok (tableResult (legacyEntry m t a 12) a) := by
  have hindex : getIndex4kb a 1 = .ok (a >>> 12 &&& 0x3ff#64) := rfl
  unfold linear2physicalTable4kb
  rw [hindex]
  simp only [bind, Except.bind, entry4kbIsPresent_eq]
  unfold tableResult legacyEntry
  cases present (m.load32 (t + (a >>> 12 &&& 0x3ff#64) * 4#64)) with
  | true => rfl
  | false => rfl

/-- The walk with 4 KB pages. -/
theorem linear2physicalLegacy4kb_eq (cr3 : BitVec 64) :
    linear2physicalLegacy4kb m cr3 a =
      .ok (if present (legacyEntry m cr3 a 22) then
        tableResult (legacyEntry m
          (shiftInt (PgtEntry4kb.pteBase (legacyEntry m cr3 a 22)) 12) a 12) a
      else -1#64) := by
  have hindex : getIndex4kb a 2 = .ok (a >>> 22 &&& 0x3ff#64) := rfl
  unfold linear2physicalLegacy4kb linear2physicalTable4kb pgtLevelPd
  simp only [hindex, bind, Except.bind, entry4kbIsPresent_eq]
  change (if ¬ present (legacyEntry m cr3 a 22) then Except.ok (-1#64)
    else linear2physicalTable4kb m a 1
      (shiftInt (PgtEntry4kb.pteBase (legacyEntry m cr3 a 22)) 12)) = _
  rw [linear2physicalTable4kb_pt]
  cases present (legacyEntry m cr3 a 22) with
  | true => rfl
  | false => rfl

/-- The walk with 4 MB pages. -/
theorem linear2physicalLegacy4mb_eq (ha : a.toNat < 2 ^ 32) (cr3 : BitVec 64) :
    linear2physicalLegacy4mb m cr3 a =
      .ok (if large (legacyEntry m cr3 a 22) then
        if present (legacyEntry m cr3 a 22) then
          shiftInt (Pd4mEntry.baselow (legacyEntry m cr3 a 22)) 22 + (a &&& 0x3fffff#64)
        else -1#64
      else
        tableResult (legacyEntry m
          (shiftInt (PgtEntry4kb.pteBase (legacyEntry m cr3 a 22)) 12) a 12) a) := by
  have hindex : a >>> 22 = a >>> 22 &&& 0x3ff#64 := by
    have h := Bits.toNat_and_lowMask (a >>> 22) 10 (by simp)
    apply BitVec.eq_of_toNat_eq
    refine Eq.trans ?_ h.symm
    rw [BitVec.toNat_ushiftRight, Nat.shiftRight_eq_div_pow]
    omega
  have hsize := pageSizeFlag_eq (legacyEntry m cr3 a 22)
  unfold linear2physicalLegacy4mb
  rw [hindex]
  change (if Pd4mEntry.flags (legacyEntry m cr3 a 22) &&& BitVec.ofNat 13 pttefPageSize ≠ 0#13 then
      if ¬ entry4mbIsPresent (legacyEntry m cr3 a 22) then Except.ok (-1#64)
      else .ok (shiftInt (Pd4mEntry.baselow (legacyEntry m cr3 a 22)) 22 + (a &&& 0x3fffff#64))
    else linear2physicalTable4kb m a 1
      (shiftInt (PgtEntry4kb.pteBase (legacyEntry m cr3 a 22)) 12)) = _
  rw [linear2physicalTable4kb_pt, entry4mbIsPresent_eq]
  cases hlarge : large (legacyEntry m cr3 a 22) with
  | true =>
    rw [hlarge] at hsize
    rw [if_pos (of_decide_eq_true hsize), if_pos rfl]
    cases present (legacyEntry m cr3 a 22) with
    | true => rfl
    | false => rfl
  | false =>
    rw [hlarge] at hsize
    rw [if_neg (of_decide_eq_false hsize), if_neg Bool.false_ne_true]

end

/-! ## Agreement -/

theorem toNat_legacyBase (e : BitVec 32) : (legacyBase e).toNat = e.toNat / 2 ^ 12 * 2 ^ 12 := by
  have h : (e &&& 0xfffff000#32).toNat = e.toNat / 2 ^ 12 * 2 ^ 12 :=
    Bits.toNat_and_not_lowMask e 12 (by simp)
  have hlt := e.isLt
  unfold legacyBase
  rw [BitVec.toNat_setWidth, h]
  omega

/-- The base of a page or table is read right exactly below 2 GB. -/
theorem shiftInt_eq_legacyBase {e : BitVec 32} :
    shiftInt (PgtEntry4kb.pteBase e) 12 = legacyBase e ↔ e.getLsbD 31 = false := by
  have hbase := toNat_legacyBase e
  have hlt := e.isLt
  constructor
  · intro heq
    apply Bool.eq_false_iff.mpr
    intro htop
    have hhigh := @shiftInt_high e 12 (by simp) htop
    have hnat : (shiftInt (e.extractLsb' 12 (32 - 12)) 12).toNat = (legacyBase e).toNat :=
      congrArg BitVec.toNat heq
    omega
  · intro htop
    apply BitVec.eq_of_toNat_eq
    exact (@shiftInt_low e 12 (by simp) htop).trans hbase.symm

/-- The base of a 4 MB page is read right exactly below 2 GB. -/
theorem shiftInt_eq_legacyLargeBase {e : BitVec 32} :
    shiftInt (Pd4mEntry.baselow e) 22 = legacyLargeBase e ↔
      e.getLsbD 31 = false ∧ Pd4mEntry.basehigh e = 0#8 := by
  have hlt := e.isLt
  have hbase : (legacyLargeBase e).toNat =
      e.toNat / 2 ^ 13 % 2 ^ 8 * 2 ^ 32 + e.toNat / 2 ^ 22 * 2 ^ 22 := by
    unfold legacyLargeBase
    rw [BitVec.toNat_ofNat]
    omega
  have hhigh : Pd4mEntry.basehigh e = 0#8 ↔ e.toNat / 2 ^ 13 % 2 ^ 8 = 0 := by
    unfold Pd4mEntry.basehigh
    rw [← BitVec.toNat_inj, BitVec.extractLsb'_toNat, Nat.shiftRight_eq_div_pow,
      BitVec.toNat_ofNat]
  rw [hhigh]
  cases htop : e.getLsbD 31 with
  | true =>
    have hge := @shiftInt_high e 22 (by simp) htop
    refine ⟨fun heq => ?_, fun h => Bool.noConfusion h.1⟩
    have hnat : (shiftInt (e.extractLsb' 22 (32 - 22)) 22).toNat = (legacyLargeBase e).toNat :=
      congrArg BitVec.toNat heq
    omega
  | false =>
    have hlow := @shiftInt_low e 22 (by simp) htop
    constructor
    · intro heq
      have hnat : (shiftInt (e.extractLsb' 22 (32 - 22)) 22).toNat = (legacyLargeBase e).toNat :=
        congrArg BitVec.toNat heq
      exact ⟨rfl, by omega⟩
    · rintro ⟨-, hzero⟩
      apply BitVec.eq_of_toNat_eq
      refine hlow.trans ?_
      rw [hbase, hzero, Nat.zero_mul, Nat.zero_add]

/-- A 4 KB page is reported right exactly below 2 GB. -/
theorem tableResult_eq_iff (pte : BitVec 32) (a : BitVec 64) :
    tableResult pte a =
        reported (if ¬ present pte then none else some (legacyBase pte + (a &&& 0xfff#64))) ↔
      (present pte = true → pte.getLsbD 31 = false) := by
  unfold tableResult
  cases present pte with
  | false => exact ⟨fun _ h => Bool.noConfusion h, fun _ => rfl⟩
  | true =>
    rw [if_pos rfl, if_neg (not_not_intro rfl), reported, BitVec.add_left_inj,
      shiftInt_eq_legacyBase]
    exact ⟨fun h _ => h, fun h => h rfl⟩

/-- An entry is reported as not present when it is not, or when it makes up the address that
stands for that. -/
theorem tableResult_eq_neg_one_iff (pte : BitVec 32) (a : BitVec 64) :
    tableResult pte a = -1#64 ↔
      (present pte = true → PgtEntry4kb.pteBase pte = BitVec.allOnes 20 ∧
        a &&& 0xfff#64 = 0xfff#64) := by
  unfold tableResult
  cases present pte with
  | false => exact ⟨fun _ h => Bool.noConfusion h, fun _ => rfl⟩
  | true =>
    have hoff : (a &&& 0xfff#64).toNat = a.toNat % 2 ^ 12 :=
      Bits.toNat_and_lowMask a 12 (by simp)
    have hpage := @shiftInt_page pte 12 (a.toNat % 2 ^ 12) (a &&& 0xfff#64) (by simp) hoff
      (Nat.mod_lt _ (by simp))
    have haligned := @shiftInt_aligned pte 12 (by simp)
    have hlt := (shiftInt (pte.extractLsb' 12 (32 - 12)) 12).isLt
    have hall : shiftInt (BitVec.allOnes 20) 12 = -4096#64 := by decide
    rw [if_pos rfl]
    constructor
    · intro heq _
      have hnat : (shiftInt (pte.extractLsb' 12 (32 - 12)) 12 + (a &&& 0xfff#64)).toNat =
          2 ^ 64 - 1 := congrArg BitVec.toNat heq
      rw [hpage] at hnat
      have hmod : (a &&& 0xfff#64) = 0xfff#64 := by
        apply BitVec.eq_of_toNat_eq
        rw [hoff, BitVec.toNat_ofNat]
        omega
      refine ⟨?_, hmod⟩
      have hbase : shiftInt (pte.extractLsb' 12 (32 - 12)) 12 = -4096#64 := by
        apply BitVec.eq_of_toNat_eq
        change _ = 2 ^ 64 - 4096
        omega
      apply BitVec.eq_of_getLsbD_eq
      intro i hi
      have hbit := getLsbD_shiftInt pte (show 12 < 32 by decide) (show 12 + i < 64 by omega)
      rw [hbase, if_neg (by omega), if_pos (by omega)] at hbit
      unfold PgtEntry4kb.pteBase
      rw [BitVec.getLsbD_extractLsb', ← hbit, BitVec.getLsbD_allOnes]
      have hones : ∀ j, j < 20 → (-4096#64).getLsbD (12 + j) = true := by decide
      rw [hones i hi, decide_eq_true hi]
      rfl
    · intro h
      obtain ⟨hbase, hmod⟩ := h rfl
      rw [hbase, hmod, hall]
      rfl

/-- Every entry on the walk holds a base below 2 GB, and no absent directory entry hides a
present page table entry from a walk with 4 MB pages. -/
def WithinReach (m : Mem) (cr3 : BitVec 64) (pse : Bool) (a : BitVec 64) : Prop :=
  let pde := legacyEntry m cr3 a 22
  if pse && large pde then
    present pde = true → pde.getLsbD 31 = false ∧ Pd4mEntry.basehigh pde = 0#8
  else if present pde then
    let pte := legacyEntry m (legacyBase pde) a 12
    present pte = true → pte.getLsbD 31 = false
  else
    let pte := legacyEntry m (shiftInt (PgtEntry4kb.pteBase pde) 12) a 12
    pse = true → present pte = true →
      PgtEntry4kb.pteBase pte = BitVec.allOnes 20 ∧ a &&& 0xfff#64 = 0xfff#64

/-- What the two walkers compute, by the directory entry they read. -/
theorem linear2Physical_eq {m : Mem} {cr0 cr3 cr4 a : BitVec 64} (hpe : cr0 &&& x86Cr0Pe ≠ 0#64)
    (hpg : cr0 &&& x86Cr0Pg ≠ 0#64) (hpae : cr4 &&& x86Cr4Pae = 0#64) (ha : a.toNat < 2 ^ 32)
    {pse : Bool} (hpse : decide (cr4 &&& x86Cr4Pse ≠ 0#64) = pse) :
    linear2Physical m cr0 cr3 cr4 a = .ok (
      let pde := legacyEntry m cr3 a 22
      if pse && large pde then
        if present pde then shiftInt (Pd4mEntry.baselow pde) 22 + (a &&& 0x3fffff#64) else -1#64
      else if pse || present pde then
        tableResult (legacyEntry m (shiftInt (PgtEntry4kb.pteBase pde) 12) a 12) a
      else -1#64) := by
  unfold linear2Physical
  rw [if_neg hpe, if_neg (not_not_intro hpae), if_neg hpg]
  cases pse with
  | false =>
    rw [if_pos (Decidable.not_not.mp (of_decide_eq_false hpse)), linear2physicalLegacy4kb_eq]
    simp only [Bool.false_and, Bool.false_or, Bool.false_eq_true, if_false]
  | true =>
    rw [if_neg (of_decide_eq_true hpse), linear2physicalLegacy4mb_eq m ha]
    simp only [Bool.true_and, Bool.true_or, if_true]

/-- Where the code reads the directory entry of the architecture, from a table below 2 GB, it
gives what the processor gives exactly on the walks within its reach. -/
theorem linear2Physical_eq_walk {m : Mem} {cr0 cr3 cr4 a : BitVec 64}
    (hpe : cr0 &&& x86Cr0Pe ≠ 0#64) (hpg : cr0 &&& x86Cr0Pg ≠ 0#64)
    (hpae : cr4 &&& x86Cr4Pae = 0#64) (ha : a.toNat < 2 ^ 32)
    (hdir : legacyEntry m cr3 a 22 = legacyEntry m (legacyBase (cr3.setWidth 32)) a 22)
    (htable : present (legacyEntry m cr3 a 22) = true →
      ¬ (cr4 &&& x86Cr4Pse ≠ 0#64 ∧ large (legacyEntry m cr3 a 22) = true) →
      (legacyEntry m cr3 a 22).getLsbD 31 = false) :
    linear2Physical m cr0 cr3 cr4 a =
        .ok (reported (legacyWalk m cr3 (decide (cr4 &&& x86Cr4Pse ≠ 0#64)) a)) ↔
      WithinReach m cr3 (decide (cr4 &&& x86Cr4Pse ≠ 0#64)) a := by
  obtain ⟨pse, hpse⟩ : ∃ pse, decide (cr4 &&& x86Cr4Pse ≠ 0#64) = pse := ⟨_, rfl⟩
  have htable : present (legacyEntry m cr3 a 22) = true →
      (pse && large (legacyEntry m cr3 a 22)) = false →
      (legacyEntry m cr3 a 22).getLsbD 31 = false := by
    intro hp hlarge
    refine htable hp (fun hc => ?_)
    rw [← hpse, decide_eq_true hc.1, hc.2] at hlarge
    cases hlarge
  rw [linear2Physical_eq hpe hpg hpae ha hpse, hpse, Except.ok.injEq]
  unfold legacyWalk WithinReach
  rw [← hdir]
  dsimp only
  cases hlarge : pse && large (legacyEntry m cr3 a 22) with
  | true =>
    cases hpresent : present (legacyEntry m cr3 a 22) with
    | true =>
      simp only [if_true, not_true_eq_false, if_false, reported, forall_const]
      rw [BitVec.add_left_inj]
      exact shiftInt_eq_legacyLargeBase
    | false =>
      exact ⟨fun _ h => Bool.noConfusion h, fun _ => rfl⟩
  | false =>
    cases hpresent : present (legacyEntry m cr3 a 22) with
    | true =>
      rw [shiftInt_eq_legacyBase.mpr (htable hpresent hlarge)]
      simp only [Bool.or_true, not_true_eq_false, if_true, if_false, Bool.false_eq_true]
      exact tableResult_eq_iff _ a
    | false =>
      cases pse with
      | true => exact (tableResult_eq_neg_one_iff _ _).trans ⟨fun h _ => h, fun h => h rfl⟩
      | false => exact ⟨fun _ h => Bool.noConfusion h, fun _ => rfl⟩

/-! ## The two walkers -/

/-- On a directory entry without the page size bit the walkers agree unless it is absent and
there is a present entry where it points, which the second walker follows all the same. -/
theorem legacy4mb_eq_legacy4kb_iff {m : Mem} {tableBase a : BitVec 64} (ha : a.toNat < 2 ^ 32)
    (hps : large (legacyEntry m tableBase a 22) = false) :
    linear2physicalLegacy4mb m tableBase a = linear2physicalLegacy4kb m tableBase a ↔
      (present (legacyEntry m tableBase a 22) = false →
        let pte := legacyEntry m
          (shiftInt (PgtEntry4kb.pteBase (legacyEntry m tableBase a 22)) 12) a 12
        present pte = true →
          PgtEntry4kb.pteBase pte = BitVec.allOnes 20 ∧ a &&& 0xfff#64 = 0xfff#64) := by
  rw [linear2physicalLegacy4mb_eq m ha, linear2physicalLegacy4kb_eq, hps, Except.ok.injEq]
  cases present (legacyEntry m tableBase a 22) with
  | true => exact ⟨fun _ h => Bool.noConfusion h, fun _ => rfl⟩
  | false =>
    rw [if_neg Bool.false_ne_true, if_neg Bool.false_ne_true]
    exact (tableResult_eq_neg_one_iff _ _).trans ⟨fun h _ => h, fun h => h rfl⟩

/-- A directory at 4 KB whose first entry points to a page table at 8 KB with the page `pte`. -/
def onePage (pte : BitVec 32) : Mem :=
  Mem.store32 (Mem.store32 (fun _ => 0#8) 0x1000#64 0x2003#32) 0x2000#64 pte

theorem linear2Physical_eq_walk_low :
    linear2Physical (onePage 0x3003#32) 0x80000001#64 0x1000#64 0#64 0x7b#64 =
        .ok (reported (legacyWalk (onePage 0x3003#32) 0x1000#64 false 0x7b#64)) := by
  refine (linear2Physical_eq_walk (by decide) (by decide) (by decide) (by decide)
    (by decide +kernel) (by decide +kernel)).mpr ?_
  unfold WithinReach
  decide +kernel

theorem legacy4mb_eq_legacy4kb_low :
    linear2physicalLegacy4mb (onePage 0x3003#32) 0x1000#64 0x7b#64 =
        linear2physicalLegacy4kb (onePage 0x3003#32) 0x1000#64 0x7b#64 :=
  (legacy4mb_eq_legacy4kb_iff (by simp) (by decide +kernel)).mpr fun habsent =>
    absurd habsent (by decide +kernel)

/-- An absent directory entry with neither flag set, which has the address of a page table left
in it. -/
def absentDirectory : Mem :=
  Mem.store32 (Mem.store32 (fun _ => 0#8) 0x1000#64 0x2000#32) 0x2000#64 0x3003#32

theorem legacy4mb_ne_legacy4kb :
    large (legacyEntry absentDirectory 0x1000#64 0x7b#64 22) = false ∧
      linear2physicalLegacy4mb absentDirectory 0x1000#64 0x7b#64 = .ok 0x307b#64 ∧
      linear2physicalLegacy4kb absentDirectory 0x1000#64 0x7b#64 = .ok (-1#64) := by
  refine ⟨by decide +kernel, ?_, ?_⟩
  · rfl
  · rfl

/-- A page at 2 GB is reported with a sign-extended address, and a `cr3` with the bit for
write-through caching set selects another directory entry. -/
theorem linear2Physical_ne_walk :
    (legacyWalk (onePage 0x80000003#32) 0x1000#64 false 0#64 = some 0x80000000#64 ∧
      linear2Physical (onePage 0x80000003#32) 0x80000001#64 0x1000#64 0#64 0#64 =
        .ok 0xffffffff80000000#64) ∧
    legacyWalk (onePage 0x3003#32) 0x1008#64 false 0#64 = some 0x3000#64 ∧
      linear2Physical (onePage 0x3003#32) 0x80000001#64 0x1008#64 0#64 0#64 = .ok (-1#64) := by
  refine ⟨⟨?_, ?_⟩, ?_, ?_⟩
  · decide +kernel
  · rfl
  · decide +kernel
  · rfl

end Mavmm
