import Mavmm.GuestWalk
import Mavmm.Segment

/-!
# The addresses a guest can make the monitor use

What some selector and offset translate to, read off the control registers and
the guest's own page tables (`translated_iff_reached`).  In real mode it is the
first megabyte and a little more; without paging it is every address; with
paging it is the pages that the tables hold, and -1 when an entry is absent.
-/

namespace Mavmm

open Paging

/-! ## The guest's page tables -/

namespace AddressSpace
variable (as : AddressSpace)

def pse : Bool := as.cr4 &&& x86Cr4Pse ≠ 0#64

/-- The number of directory entries: with 4 MB pages the index is not masked. -/
def directorySize : Nat := if as.pse then 2 ^ 42 else 2 ^ 10

def pde (i : Nat) : BitVec 32 := as.mem.load32 (as.cr3 + BitVec.ofNat 64 (i * 4))

/-- Entry `j` of the page table that directory entry `i` points to. -/
def pte (i j : Nat) : BitVec 32 :=
  as.mem.load32 (shiftInt (PgtEntry4kb.pteBase (as.pde i)) 12 + BitVec.ofNat 64 (j * 4))

def largePage (i : Nat) : Bool := as.pse && large (as.pde i)

/-- The walk goes on to the page table; with 4 MB pages even when the entry is absent. -/
def usesTable (i : Nat) : Bool := !as.largePage i && (as.pse || present (as.pde i))

/-- The addresses that the page tables hold. -/
inductive Mapped : Addr → Prop
  | large {i o : Nat} (hi : i < as.directorySize) (hlarge : as.largePage i = true)
      (hpresent : present (as.pde i) = true) (ho : o < 2 ^ 22) :
      Mapped (shiftInt (Pd4mEntry.baselow (as.pde i)) 22 + BitVec.ofNat 64 o)
  | page {i j o : Nat} (hi : i < as.directorySize) (htable : as.usesTable i = true)
      (hj : j < 2 ^ 10) (hpresent : present (as.pte i j) = true) (ho : o < 2 ^ 12) :
      Mapped (shiftInt (PgtEntry4kb.pteBase (as.pte i j)) 12 + BitVec.ofNat 64 o)
  | noTable {i : Nat} (hi : i < as.directorySize) (htable : as.usesTable i = false)
      (habsent : present (as.pde i) = false) : Mapped (-1#64)
  | noPage {i j : Nat} (hi : i < as.directorySize) (htable : as.usesTable i = true)
      (hj : j < 2 ^ 10) (habsent : present (as.pte i j) = false) : Mapped (-1#64)

/-- The addresses that the guest's control registers and page tables lead to. -/
inductive Reached : Addr → Prop
  | real {p : Addr} (hpe : as.cr0 &&& x86Cr0Pe = 0#64) (hp : p.toNat < 0x10fff0) : Reached p
  | flat {p : Addr} (hpe : as.cr0 &&& x86Cr0Pe ≠ 0#64) (hpae : as.cr4 &&& x86Cr4Pae = 0#64)
      (hpg : as.cr0 &&& x86Cr0Pg = 0#64) : Reached p
  | paged {p : Addr} (hpe : as.cr0 &&& x86Cr0Pe ≠ 0#64) (hpae : as.cr4 &&& x86Cr4Pae = 0#64)
      (hpg : as.cr0 &&& x86Cr0Pg ≠ 0#64) (h : as.Mapped p) : Reached p

/-! ## The walk of a linear address -/

/-- The directory index of a linear address. -/
def pdIndex (a : BitVec 64) : Nat :=
  if as.pse then a.toNat / 2 ^ 22 else a.toNat / 2 ^ 22 % 2 ^ 10

def ptIndex (a : BitVec 64) : Nat := a.toNat / 2 ^ 12 % 2 ^ 10

/-- What the walk of a linear address gives, from the entries it reads. -/
def walked (a : BitVec 64) : Addr :=
  let i := as.pdIndex a
  if as.largePage i then
    if present (as.pde i) then
      shiftInt (Pd4mEntry.baselow (as.pde i)) 22 + (a &&& 0x3fffff#64)
    else -1#64
  else if as.usesTable i then tableResult (as.pte i (ptIndex a)) a
  else -1#64

end AddressSpace

theorem mul_four (x : BitVec 64) : x * 4#64 = BitVec.ofNat 64 (x.toNat * 4) := by
  apply BitVec.eq_of_toNat_eq
  rw [BitVec.toNat_mul, BitVec.toNat_ofNat]
  rfl

theorem toNat_index (a : BitVec 64) (s : Nat) :
    (a >>> s &&& 0x3ff#64).toNat = a.toNat / 2 ^ s % 2 ^ 10 := by
  have h := Bits.toNat_and_lowMask (a >>> s) 10 (by simp)
  rw [BitVec.toNat_ushiftRight, Nat.shiftRight_eq_div_pow] at h
  exact h

section
variable {as : AddressSpace}

/-- The walk with 4 MB pages, of any address. -/
theorem linear2physicalLegacy4mb_unmasked (a : BitVec 64) :
    linear2physicalLegacy4mb as.mem as.cr3 a =
      .ok (if large (as.pde (a.toNat / 2 ^ 22)) then
        if present (as.pde (a.toNat / 2 ^ 22)) then
          shiftInt (Pd4mEntry.baselow (as.pde (a.toNat / 2 ^ 22))) 22 + (a &&& 0x3fffff#64)
        else -1#64
      else tableResult (as.pte (a.toNat / 2 ^ 22) (AddressSpace.ptIndex a)) a) := by
  have hindex : a >>> 22 * 4#64 = BitVec.ofNat 64 (a.toNat / 2 ^ 22 * 4) := by
    rw [mul_four, BitVec.toNat_ushiftRight, Nat.shiftRight_eq_div_pow]
  have hsize := pageSizeFlag_eq (as.pde (a.toNat / 2 ^ 22))
  have htable : linear2physicalTable4kb as.mem a pgtLevelPt
      (shiftInt (PgtEntry4kb.pteBase (as.pde (a.toNat / 2 ^ 22))) 12) =
      .ok (tableResult (as.pte (a.toNat / 2 ^ 22) (AddressSpace.ptIndex a)) a) := by
    refine (linear2physicalTable4kb_pt as.mem _).trans ?_
    unfold legacyEntry
    rw [mul_four, toNat_index]
    rfl
  unfold linear2physicalLegacy4mb
  rw [hindex]
  change (if Pd4mEntry.flags (as.pde (a.toNat / 2 ^ 22)) &&& BitVec.ofNat 13 pttefPageSize ≠ 0#13 then
      if ¬ entry4mbIsPresent (as.pde (a.toNat / 2 ^ 22)) then Except.ok (-1#64)
      else .ok (shiftInt (Pd4mEntry.baselow (as.pde (a.toNat / 2 ^ 22))) 22 + (a &&& 0x3fffff#64))
    else linear2physicalTable4kb as.mem a pgtLevelPt
      (shiftInt (PgtEntry4kb.pteBase (as.pde (a.toNat / 2 ^ 22))) 12)) = _
  rw [htable, entry4mbIsPresent_eq]
  cases hlarge : large (as.pde (a.toNat / 2 ^ 22)) with
  | true =>
    rw [hlarge] at hsize
    rw [if_pos (of_decide_eq_true hsize), if_pos rfl]
    cases present (as.pde (a.toNat / 2 ^ 22)) with
    | true => rfl
    | false => rfl
  | false =>
    rw [hlarge] at hsize
    rw [if_neg (of_decide_eq_false hsize), if_neg Bool.false_ne_true]

theorem linear2Physical_eq_walked (hpe : as.cr0 &&& x86Cr0Pe ≠ 0#64)
    (hpae : as.cr4 &&& x86Cr4Pae = 0#64) (hpg : as.cr0 &&& x86Cr0Pg ≠ 0#64) (a : BitVec 64) :
    linear2Physical as.mem as.cr0 as.cr3 as.cr4 a = .ok (as.walked a) := by
  unfold linear2Physical AddressSpace.walked AddressSpace.usesTable AddressSpace.largePage
    AddressSpace.pdIndex
  rw [if_neg hpe, if_neg (not_not_intro hpae), if_neg hpg]
  obtain ⟨pse, hpse⟩ : ∃ pse, as.pse = pse := ⟨_, rfl⟩
  rw [hpse]
  cases pse with
  | false =>
    rw [if_pos (Decidable.not_not.mp (of_decide_eq_false hpse)), linear2physicalLegacy4kb_eq]
    unfold legacyEntry
    rw [mul_four, toNat_index, mul_four, toNat_index]
    simp only [Bool.false_and, Bool.not_false, Bool.true_and, Bool.false_or, Bool.false_eq_true,
      if_false]
    rfl
  | true =>
    rw [if_neg (of_decide_eq_true hpse), linear2physicalLegacy4mb_unmasked]
    simp only [if_true, Bool.true_and, Bool.true_or, Bool.and_true]
    cases large (as.pde (a.toNat / 2 ^ 22)) with
    | true => rfl
    | false => rfl

/-! ## What is mapped -/

theorem pdIndex_lt (a : BitVec 64) : as.pdIndex a < as.directorySize := by
  unfold AddressSpace.pdIndex AddressSpace.directorySize
  split
  · have := a.isLt
    omega
  · exact Nat.mod_lt _ (by simp)

theorem low_eq_ofNat (a : BitVec 64) (k : Nat) (hk : k < 64) :
    a &&& BitVec.ofNat 64 (2 ^ k - 1) = BitVec.ofNat 64 (a.toNat % 2 ^ k) := by
  apply BitVec.eq_of_toNat_eq
  rw [Bits.toNat_and_lowMask a k hk, BitVec.toNat_ofNat]
  exact (Nat.mod_eq_of_lt (Nat.lt_of_le_of_lt (Nat.mod_le _ _) a.isLt)).symm

theorem walked_mapped (a : BitVec 64) : as.Mapped (as.walked a) := by
  have hi : as.pdIndex a < as.directorySize := pdIndex_lt a
  have hj : AddressSpace.ptIndex a < 2 ^ 10 := Nat.mod_lt _ (by simp)
  unfold AddressSpace.walked
  dsimp only
  split
  · next hlarge =>
    split
    · next hpresent =>
      have hoff : a &&& 0x3fffff#64 = BitVec.ofNat 64 (a.toNat % 2 ^ 22) :=
        low_eq_ofNat a 22 (by simp)
      rw [hoff]
      exact .large hi hlarge hpresent (Nat.mod_lt _ (by simp))
    · next habsent =>
      refine .noTable hi ?_ (Bool.eq_false_iff.mpr habsent)
      rw [AddressSpace.usesTable, hlarge]
      rfl
  · next hlarge =>
    split
    · next htable =>
      unfold tableResult
      split
      · next hpresent =>
        have hoff : a &&& 0xfff#64 = BitVec.ofNat 64 (a.toNat % 2 ^ 12) :=
          low_eq_ofNat a 12 (by simp)
        rw [hoff]
        exact .page hi htable hj hpresent (Nat.mod_lt _ (by simp))
      · next habsent =>
        exact .noPage hi htable hj (Bool.eq_false_iff.mpr habsent)
    · next htable =>
      have htable := Bool.eq_false_iff.mpr htable
      refine .noTable hi htable ?_
      rw [AddressSpace.usesTable, Bool.eq_false_iff.mpr hlarge] at htable
      exact (Bool.or_eq_false_iff.mp htable).2

/-- The linear address with the given indices and offset. -/
def linearAt (i j o : Nat) : BitVec 64 := BitVec.ofNat 64 (i * 2 ^ 22 + j * 2 ^ 12 + o)

theorem toNat_linearAt {i j o : Nat} (hi : i < as.directorySize) (hj : j < 2 ^ 10)
    (ho : o < 2 ^ 12) : (linearAt i j o).toNat = i * 2 ^ 22 + j * 2 ^ 12 + o := by
  have hi : i < 2 ^ 42 := by
    unfold AddressSpace.directorySize at hi
    split at hi <;> omega
  rw [linearAt, BitVec.toNat_ofNat]
  omega

theorem pdIndex_linearAt {i j o : Nat} (hi : i < as.directorySize) (hj : j < 2 ^ 10)
    (ho : o < 2 ^ 12) : as.pdIndex (linearAt i j o) = i := by
  unfold AddressSpace.pdIndex
  rw [toNat_linearAt hi hj ho]
  unfold AddressSpace.directorySize at hi
  split
  · omega
  · next hpse =>
    rw [if_neg hpse] at hi
    omega

theorem mapped_walked {p : Addr} (h : as.Mapped p) : ∃ a, as.walked a = p := by
  have hzero : (0 : Nat) < 2 ^ 10 := by decide
  cases h with
  | @large i o hi hlarge hpresent ho =>
    have hj : o / 2 ^ 12 < 2 ^ 10 := by omega
    have ho' : o % 2 ^ 12 < 2 ^ 12 := Nat.mod_lt _ (by simp)
    refine ⟨linearAt i (o / 2 ^ 12) (o % 2 ^ 12), ?_⟩
    have hlow : (linearAt i (o / 2 ^ 12) (o % 2 ^ 12)).toNat % 2 ^ 22 = o := by
      rw [toNat_linearAt hi hj ho']
      omega
    unfold AddressSpace.walked
    rw [pdIndex_linearAt hi hj ho', if_pos hlarge, if_pos hpresent]
    exact congrArg _ ((low_eq_ofNat _ 22 (by simp)).trans (by rw [hlow]))
  | @page i j o hi htable hj hpresent ho =>
    refine ⟨linearAt i j o, ?_⟩
    have hlow : (linearAt i j o).toNat % 2 ^ 12 = o := by
      rw [toNat_linearAt hi hj ho]
      omega
    have hpt : AddressSpace.ptIndex (linearAt i j o) = j := by
      rw [AddressSpace.ptIndex, toNat_linearAt hi hj ho]
      omega
    have hlarge : ¬ as.largePage i = true := by
      intro h
      rw [AddressSpace.usesTable, h] at htable
      cases htable
    unfold AddressSpace.walked
    rw [pdIndex_linearAt hi hj ho, if_neg hlarge, if_pos htable, hpt, tableResult, if_pos hpresent]
    exact congrArg _ ((low_eq_ofNat _ 12 (by simp)).trans (by rw [hlow]))
  | @noTable i hi htable habsent =>
    refine ⟨linearAt i 0 0, ?_⟩
    unfold AddressSpace.walked
    rw [pdIndex_linearAt hi hzero (by simp)]
    simp [habsent, htable]
  | @noPage i j hi htable hj habsent =>
    refine ⟨linearAt i j 0, ?_⟩
    have hpt : AddressSpace.ptIndex (linearAt i j 0) = j := by
      rw [AddressSpace.ptIndex, toNat_linearAt hi hj (by simp)]
      omega
    have hlarge : ¬ as.largePage i = true := by
      intro h
      rw [AddressSpace.usesTable, h] at htable
      cases htable
    unfold AddressSpace.walked
    rw [pdIndex_linearAt hi hj (by simp), if_neg hlarge, if_pos htable, hpt, tableResult,
      if_neg (by rw [habsent]; exact Bool.false_ne_true)]

/-! ## What is reached -/

theorem translated_reached {p : Addr} (h : Translated as p) : as.Reached p := by
  obtain ⟨sel, off, h⟩ := h
  unfold glogic2Hphysic at h
  by_cases hpe : as.cr0 &&& x86Cr0Pe = 0#64
  · have hlinear : sel.setWidth 64 * 0x10#64 + (off &&& 0xffff#64) = p := by
      rw [glogic2Glinear, if_pos hpe] at h
      simp only [bind, Except.bind, linear2Physical, if_pos hpe] at h
      exact Except.ok.inj h
    refine .real hpe ?_
    have hoff := Bits.toNat_and_lowMask off 16 (by simp)
    have hsel := sel.isLt
    rw [← hlinear, BitVec.toNat_add, BitVec.toNat_mul, BitVec.toNat_setWidth]
    rw [show off &&& 0xffff#64 = off &&& BitVec.ofNat 64 (2 ^ 16 - 1) from rfl, hoff]
    change (sel.toNat % 2 ^ 64 * 16 % 2 ^ 64 + off.toNat % 2 ^ 16) % 2 ^ 64 < 0x10fff0
    omega
  · cases hlinear : glogic2Glinear as sel off with
    | error e =>
      rw [hlinear] at h
      cases h
    | ok a =>
      rw [hlinear] at h
      have h : linear2Physical as.mem as.cr0 as.cr3 as.cr4 a = .ok p := h
      by_cases hpae : as.cr4 &&& x86Cr4Pae = 0#64
      · by_cases hpg : as.cr0 &&& x86Cr0Pg = 0#64
        · exact .flat hpe hpae hpg
        · rw [linear2Physical_eq_walked hpe hpae hpg] at h
          rw [← Except.ok.inj h]
          exact .paged hpe hpae hpg (walked_mapped a)
      · rw [linear2Physical, if_neg hpe, if_pos hpae] at h
        cases h

/-- In protected mode the null selector lets the guest choose the linear address. -/
theorem glogic2Hphysic_null (hpe : as.cr0 &&& x86Cr0Pe ≠ 0#64) (off : BitVec 64) :
    glogic2Hphysic as 0#16 off = linear2Physical as.mem as.cr0 as.cr3 as.cr4 off := by
  unfold glogic2Hphysic glogic2Glinear
  rw [if_neg hpe, if_pos rfl]
  rfl

theorem reached_translated {p : Addr} (h : as.Reached p) : Translated as p := by
  cases h with
  | real hpe hp =>
    -- the highest segment that starts at `p` or below
    refine ⟨BitVec.ofNat 16 (min (p.toNat / 16) 0xffff),
      BitVec.ofNat 64 (p.toNat - min (p.toNat / 16) 0xffff * 16), ?_⟩
    unfold glogic2Hphysic glogic2Glinear
    rw [if_pos hpe]
    simp only [bind, Except.bind, linear2Physical, if_pos hpe]
    refine congrArg Except.ok (BitVec.eq_of_toNat_eq ?_)
    have hoff := Bits.toNat_and_lowMask
      (BitVec.ofNat 64 (p.toNat - min (p.toNat / 16) 0xffff * 16)) 16 (by simp)
    rw [BitVec.toNat_ofNat] at hoff
    rw [BitVec.toNat_add, BitVec.toNat_mul, BitVec.toNat_setWidth, BitVec.toNat_ofNat]
    rw [show (0xffff#64) = BitVec.ofNat 64 (2 ^ 16 - 1) from rfl, hoff]
    change (min (p.toNat / 16) 0xffff % 2 ^ 16 % 2 ^ 64 * 16 % 2 ^ 64 +
      (p.toNat - min (p.toNat / 16) 0xffff * 16) % 2 ^ 64 % 2 ^ 16) % 2 ^ 64 = p.toNat
    omega
  | flat hpe hpae hpg =>
    refine ⟨0#16, p, ?_⟩
    rw [glogic2Hphysic_null hpe, linear2Physical, if_neg hpe, if_neg (not_not_intro hpae),
      if_pos hpg]
  | paged hpe hpae hpg hmapped =>
    obtain ⟨a, rfl⟩ := mapped_walked hmapped
    exact ⟨0#16, a, (glogic2Hphysic_null hpe a).trans (linear2Physical_eq_walked hpe hpae hpg a)⟩

/-- The results of `glogic_2_hphysic` are the addresses that the registers and tables lead to. -/
theorem translated_iff_reached {p : Addr} : Translated as p ↔ as.Reached p :=
  ⟨translated_reached, reached_translated⟩

/-! ## Descriptors -/

/-- The address is added to the base in the descriptor that is read. -/
theorem glogic2Glinear_of_read {sel : BitVec 16} {off : BitVec 64} {p : Addr}
    (h : gdtentryRead as sel = some p) :
    glogic2Glinear as sel off = .ok ((segBaseaddr (as.mem.load64 p)).setWidth 64 + off) := by
  unfold gdtentryRead at h
  unfold glogic2Glinear
  split at h
  · cases h
  · next hread =>
    obtain ⟨hpe, hsel, hpae⟩ : ¬ as.cr0 &&& x86Cr0Pe = 0#64 ∧ ¬ sel = 0#16 ∧
        ¬ as.cr4 &&& x86Cr4Pae ≠ 0#64 := by
      simpa only [not_or] using hread
    rw [if_neg hpe, if_neg hsel, if_neg hpae]
    dsimp only at h ⊢
    split at h
    · next hpg =>
      cases h
      rw [if_pos hpg]
      rfl
    · next hpg =>
      rw [if_neg hpg]
      split at h
      · next hpse =>
        rw [if_pos hpse]
        rw [linear2physicalLegacy4kb_eq] at h ⊢
        cases h
        rfl
      · next hpse =>
        rw [if_neg hpse]
        rw [linear2physicalLegacy4mb_unmasked] at h ⊢
        cases h
        rfl

/-! ## Addresses without a translation -/

/-- The walkers give an answer to every address. -/
theorem linear2Physical_total (hpae : as.cr4 &&& x86Cr4Pae = 0#64) (a : BitVec 64) :
    ∃ p, linear2Physical as.mem as.cr0 as.cr3 as.cr4 a = .ok p := by
  by_cases hpe : as.cr0 &&& x86Cr0Pe = 0#64
  · exact ⟨a, by rw [linear2Physical, if_pos hpe]⟩
  · by_cases hpg : as.cr0 &&& x86Cr0Pg = 0#64
    · exact ⟨a, by rw [linear2Physical, if_neg hpe, if_neg (not_not_intro hpae), if_pos hpg]⟩
    · exact ⟨_, linear2Physical_eq_walked hpe hpae hpg a⟩

/-- With physical address extension no address translates; otherwise all do, if only to -1. -/
theorem glogic2Hphysic_total :
    (∃ f, ∀ sel off, glogic2Hphysic as sel off = .error f) ∨
      ∀ sel off, ∃ p, glogic2Hphysic as sel off = .ok p := by
  by_cases hpe : as.cr0 &&& x86Cr0Pe = 0#64
  · refine Or.inr fun sel off => ⟨sel.setWidth 64 * 0x10#64 + (off &&& 0xffff#64), ?_⟩
    rw [glogic2Hphysic, glogic2Glinear, if_pos hpe]
    exact if_pos hpe
  · by_cases hpae : as.cr4 &&& x86Cr4Pae = 0#64
    · refine Or.inr fun sel off => ?_
      have hlinear : ∃ linear, glogic2Glinear as sel off = .ok linear := by
        rw [glogic2Glinear, if_neg hpe, if_neg (not_not_intro hpae)]
        split
        · exact ⟨_, rfl⟩
        · split
          · exact ⟨_, rfl⟩
          · split
            · simp only [linear2physicalLegacy4kb_eq]
              exact ⟨_, rfl⟩
            · simp only [linear2physicalLegacy4mb_unmasked]
              exact ⟨_, rfl⟩
      obtain ⟨linear, hlinear⟩ := hlinear
      obtain ⟨p, hp⟩ := linear2Physical_total hpae linear
      exact ⟨p, by rw [glogic2Hphysic, hlinear]; exact hp⟩
    · refine Or.inl ⟨.fatalFailure "Converting address in 2mb PAE paging mode not supported yet!",
        fun sel off => ?_⟩
      have hphysical : ∀ a, linear2Physical as.mem as.cr0 as.cr3 as.cr4 a =
          fatalFailure "Converting address in 2mb PAE paging mode not supported yet!" := by
        intro a
        rw [linear2Physical, if_neg hpe, if_pos hpae]
      rw [glogic2Hphysic, glogic2Glinear, if_neg hpe, if_pos hpae]
      split
      · exact hphysical off
      · rfl

end

end Mavmm
