import Mavmm.NestedTable

/-!
# The pages that the nested page table covers

The guest has 4 GB; what is not the monitor's should be mapped.  The loop of
`create_2mb_nested_pagetable` counts 4 MB pages and maps 2 MB pages, so it ends
at 2 GB, and it also leaves out the page below the monitor's region
(`nested_covers_iff`).
-/

namespace Mavmm

/-- The 2 MB pages of the first 4 GB. -/
def guestPages : Nat := 2 ^ 32 / 2 ^ 21

/-- Page `i` has an address in the region of the monitor. -/
def MeetsRegion (vmmPmemStart vmmPmemSize : BitVec 64) (i : Nat) : Prop :=
  ∃ x, x / 2 ^ 21 = i ∧ vmmPmemStart.toNat ≤ x ∧ x < vmmPmemStart.toNat + vmmPmemSize.toNat

/-- Every page that does not meet the region translates to itself. -/
def Covers (m : Mem) (nCr3 vmmPmemStart vmmPmemSize : BitVec 64) : Prop :=
  ∀ i < guestPages, ¬ MeetsRegion vmmPmemStart vmmPmemSize i →
    ∀ a : BitVec 64, a.toNat / 2 ^ 21 = i → nestedWalk m nCr3 a = some ⟨a, true, true⟩

/-- The region meets every page, or its end wraps and it starts below the first page that the
loop does not reach. -/
def NothingLost (vmmPmemStart vmmPmemSize : BitVec 64) : Prop :=
  (∀ i < guestPages, MeetsRegion vmmPmemStart vmmPmemSize i) ∨
    2 ^ 64 < vmmPmemStart.toNat + vmmPmemSize.toNat ∧ vmmPmemStart.toNat < 1025 * 2 ^ 21

section
variable {vmmPmemStart vmmPmemSize : BitVec 64} {i : Nat}

theorem meetsRegion_iff : MeetsRegion vmmPmemStart vmmPmemSize i ↔
    0 < vmmPmemSize.toNat ∧ vmmPmemStart.toNat < (i + 1) * 2 ^ 21 ∧
      i * 2 ^ 21 < vmmPmemStart.toNat + vmmPmemSize.toNat := by
  constructor
  · rintro ⟨x, hx, hlo, hhi⟩
    omega
  · rintro ⟨hsize, hlo, hhi⟩
    by_cases hle : vmmPmemStart.toNat ≤ i * 2 ^ 21
    · exact ⟨i * 2 ^ 21, by omega, hle, hhi⟩
    · exact ⟨vmmPmemStart.toNat, by omega, Nat.le_refl _, by omega⟩

/-- What the loop skips, in numbers. -/
theorem hidden_iff (hi : i < 1024) {pagestart pageup pageend : Nat}
    (hstart : pagestart = vmmPmemStart.toNat / 2 ^ 21 * 2 ^ 21)
    (hup : pageup = (vmmPmemStart.toNat + vmmPmemSize.toNat + 0x1fffff) % 2 ^ 64 / 2 ^ 21 * 2 ^ 21)
    (hend : pageend = (2 ^ 64 - 1 + pageup) % 2 ^ 64) :
    Hidden vmmPmemStart vmmPmemSize i ↔
      pagestart ≤ i * 2 ^ 21 ∧ i * 2 ^ 21 ≤ pageend ∨
        pagestart ≤ (i + 1) * 2 ^ 21 ∧ (i + 2) * 2 ^ 21 ≤ pageend := by
  have hpage := toNat_guestPage hi
  have h2mb : (guestPage i + pageSize2mb).toNat = (i + 1) * 2 ^ 21 := by
    rw [BitVec.toNat_add, hpage, show pageSize2mb.toNat = 2 ^ 21 by decide]
    omega
  have h4mb : (guestPage i + pageSize4mb).toNat = (i + 2) * 2 ^ 21 := by
    rw [BitVec.toNat_add, hpage, show pageSize4mb.toNat = 2 ^ 22 by decide]
    omega
  have hpageend : (pageUp2mb (vmmPmemStart + vmmPmemSize) - 1#64).toNat = pageend := by
    rw [BitVec.toNat_sub, toNat_pageUp2mb_add, ← hup, hend]
    rfl
  unfold Hidden skipped
  rw [decide_eq_true_iff]
  simp only [ge_iff_le, BitVec.le_def, toNat_pageDown2mb, ← hstart, hpageend, hpage, h2mb, h4mb]

/-- The region meets every page exactly when it meets the first and the last one. -/
theorem meets_all_iff : (∀ i < guestPages, MeetsRegion vmmPmemStart vmmPmemSize i) ↔
    vmmPmemStart.toNat < 2 ^ 21 ∧ 2047 * 2 ^ 21 < vmmPmemStart.toNat + vmmPmemSize.toNat := by
  simp only [meetsRegion_iff, guestPages]
  constructor
  · intro h
    have hfirst := h 0 (by simp)
    have hlast := h 2047 (by simp)
    omega
  · intro h i hi
    omega

/-- Without the pages that the loop does not reach, what is left out is what is hidden. -/
theorem covers_iff_hidden {m : Mem} {nCr3 : BitVec 64}
    (hwalk : ∀ a : BitVec 64, nestedWalk m nCr3 a =
      if a.toNat / 2 ^ 21 < 1024 ∧ ¬ Hidden vmmPmemStart vmmPmemSize (a.toNat / 2 ^ 21) then
        some ⟨a, true, true⟩
      else none) :
    Covers m nCr3 vmmPmemStart vmmPmemSize ↔ ∀ i < guestPages,
      ¬ MeetsRegion vmmPmemStart vmmPmemSize i → i < 1024 ∧ ¬ Hidden vmmPmemStart vmmPmemSize i := by
  constructor
  · intro h i hi hout
    have hnat : (BitVec.ofNat 64 (i * 2 ^ 21)).toNat / 2 ^ 21 = i := by
      unfold guestPages at hi
      rw [BitVec.toNat_ofNat]
      omega
    have hmapped := h i hi hout _ hnat
    rw [hwalk, hnat] at hmapped
    split at hmapped
    · next hin => exact hin
    · cases hmapped
  · intro h i hi hout a ha
    rw [hwalk, ha, if_pos (h i hi hout)]

/-- The page below the region is hidden unless there is none, or the end of the region wraps. -/
theorem nothingLost_iff : NothingLost vmmPmemStart vmmPmemSize ↔ ∀ i < guestPages,
    ¬ MeetsRegion vmmPmemStart vmmPmemSize i → i < 1024 ∧ ¬ Hidden vmmPmemStart vmmPmemSize i := by
  have hS := vmmPmemStart.isLt
  have hsize := vmmPmemSize.isLt
  unfold NothingLost
  rw [meets_all_iff]
  constructor
  · rintro (hall | ⟨hwrap, hlow⟩) i hi hout
    · exact absurd (meets_all_iff.mpr hall i hi) hout
    · rw [meetsRegion_iff] at hout
      unfold guestPages at hi
      refine ⟨by omega, fun hhidden => ?_⟩
      rw [hidden_iff (by omega) rfl rfl rfl] at hhidden
      omega
  · intro h
    -- the last page is out of the loop's reach, so the region must meet it
    have hlast : MeetsRegion vmmPmemStart vmmPmemSize 2047 := by
      apply Classical.byContradiction
      intro hout
      have := (h 2047 (by decide) hout).1
      omega
    have hfirst : MeetsRegion vmmPmemStart vmmPmemSize 1024 := by
      apply Classical.byContradiction
      intro hout
      have := (h 1024 (by decide) hout).1
      omega
    rw [meetsRegion_iff] at hlast hfirst
    by_cases hlow : vmmPmemStart.toNat < 2 ^ 21
    · exact Or.inl ⟨hlow, hlast.2.2⟩
    · refine Or.inr ⟨?_, hfirst.2.1⟩
      apply Classical.byContradiction
      intro hwrap
      -- the page below the region
      have hbelow : ¬ MeetsRegion vmmPmemStart vmmPmemSize (vmmPmemStart.toNat / 2 ^ 21 - 1) := by
        rw [meetsRegion_iff]
        omega
      have hpage : vmmPmemStart.toNat / 2 ^ 21 - 1 < 1024 := by omega
      refine (h _ (by unfold guestPages; omega) hbelow).2 ?_
      rw [hidden_iff hpage rfl rfl rfl]
      omega

end

/-- With fresh frames for its tables, the nested page table covers all of the first 4 GB that is
not the monitor's exactly when the region meets every page of it, or its end wraps. -/
theorem nested_covers_iff {host host' : Host} {vmmPmemStart vmmPmemSize nCr3 : BitVec 64}
    (hrun : create2mbNestedPagetable vmmPmemStart vmmPmemSize host = .ok (nCr3, host'))
    (hfresh : 1 + tablesNeeded [] (identityCalls vmmPmemStart vmmPmemSize) ≤
      freshFrames host.nalloc) :
    Covers host'.mem nCr3 vmmPmemStart vmmPmemSize ↔ NothingLost vmmPmemStart vmmPmemSize := by
  obtain ⟨f, supply, node, -, -, hwalk⟩ := create2mbNestedPagetable_walk hrun hfresh
  rw [covers_iff_hidden hwalk, nothingLost_iff]

/-- A region over the first 4 GB. -/
theorem nested_covers_iff_all :
    ∃ nCr3 host', create2mbNestedPagetable 0#64 0x100000000#64 (smallHost 0#64) =
      .ok (nCr3, host') ∧ Covers host'.mem nCr3 0#64 0x100000000#64 := by
  obtain ⟨⟨nCr3, host'⟩, hrun, -⟩ := completesWith_ok
    (show completesWith (fun _ => true)
      (create2mbNestedPagetable 0#64 0x100000000#64 (smallHost 0#64)) = true by decide +kernel)
  have hlost : NothingLost 0#64 0x100000000#64 := by
    refine Or.inl fun i hi => ⟨i * 2 ^ 21, Nat.mul_div_cancel i (by decide), Nat.zero_le _, ?_⟩
    rw [BitVec.toNat_ofNat, BitVec.toNat_ofNat]
    unfold guestPages at hi
    omega
  exact ⟨nCr3, host', hrun, (nested_covers_iff hrun (by decide +kernel)).mpr hlost⟩

/-- A region over all but the last page of the first 2 GB: that page is mapped, and the page at
2 GB, which is not the monitor's, is not. -/
theorem nested_not_covers :
    ∃ nCr3 host', create2mbNestedPagetable 0#64 0x7fe00000#64 (smallHost 0#64) =
      .ok (nCr3, host') ∧ ¬ MeetsRegion 0#64 0x7fe00000#64 1024 ∧
        nestedWalk host'.mem nCr3 0x80000000#64 = none ∧
        ¬ Covers host'.mem nCr3 0#64 0x7fe00000#64 := by
  obtain ⟨⟨nCr3, host'⟩, hrun, hwalk⟩ := completesWith_ok
    (show completesWith (fun r => nestedWalk r.2.mem r.1 0x80000000#64 = none)
      (create2mbNestedPagetable 0#64 0x7fe00000#64 (smallHost 0#64)) = true by decide +kernel)
  have hwalk : nestedWalk host'.mem nCr3 0x80000000#64 = none := of_decide_eq_true hwalk
  have hout : ¬ MeetsRegion 0#64 0x7fe00000#64 1024 := by
    rw [meetsRegion_iff]
    decide
  refine ⟨nCr3, host', hrun, hout, hwalk, fun hcovers => ?_⟩
  have hmapped := hcovers 1024 (by decide) hout 0x80000000#64 (by decide)
  rw [hwalk] at hmapped
  cases hmapped

end Mavmm
