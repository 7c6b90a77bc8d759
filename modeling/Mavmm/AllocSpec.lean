import Mavmm.Alloc

/-!
# The functions of the page allocator

`Taken nalloc p` reads the bitmap as the set of taken frames.  `map_alloc` and
`map_free` act on exactly the frames of their range (`mapRange_spec`), an entry
of the memory map frees exactly the whole frames it has in the heap, and the
search looks only at the frames whose bit lies in the low half of its word
(`allocatedInMap_spec`).
-/

namespace Mavmm

open Bitmap

/-- Frame `p` is marked as taken. -/
def Taken (nalloc : NaiveAllocator) (p : Nat) : Prop := member nalloc.allocBitmap p = true

instance (nalloc : NaiveAllocator) (p : Nat) : Decidable (Taken nalloc p) :=
  inferInstanceAs (Decidable (_ = true))

theorem getAllocBitmapIdx_eq (pfn : BitVec 64) : getAllocBitmapIdx pfn = pfn.toNat / 64 := by
  unfold getAllocBitmapIdx allocBitmapShift
  rw [BitVec.toNat_ushiftRight, Nat.shiftRight_eq_div_pow]

theorem getAllocBitmapOffset_eq (pfn : BitVec 64) : getAllocBitmapOffset pfn = pfn.toNat % 64 :=
  Bits.toNat_and_lowMask pfn 6 (by simp)

/-! ## Marking ranges -/

/-- The four word updates of `map_alloc` or `map_free` give the selected bits the value `b`. -/
structure Marks (b : Bool) (within : Nat → Nat → BitVec 64 → BitVec 64)
    (head tail : Nat → BitVec 64 → BitVec 64) (middle : BitVec 64) : Prop where
  within : ∀ {s e i : Nat} (w : BitVec 64), s < 64 → e < 64 → i < 64 →
    (within s e w).getLsbD i = if s ≤ i ∧ i < e then b else w.getLsbD i
  head : ∀ {s i : Nat} (w : BitVec 64), s < 64 → i < 64 →
    (head s w).getLsbD i = if s ≤ i then b else w.getLsbD i
  tail : ∀ {e i : Nat} (w : BitVec 64), e < 64 → i < 64 →
    (tail e w).getLsbD i = if i < e then b else w.getLsbD i
  middle : ∀ {i : Nat}, i < 64 → middle.getLsbD i = b

theorem mapAlloc_marks :
    Marks true
      (fun startOff endOff word =>
        word ||| (((1#64 <<< endOff) - 1#64) &&& -(1#64 <<< startOff)))
      (fun startOff word => word ||| -(1#64 <<< startOff))
      (fun endOff word => word ||| ((1#64 <<< endOff) - 1#64))
      (BitVec.allOnes 64) where
  within w hs he hi := by
    rw [BitVec.getLsbD_or, BitVec.getLsbD_and, Bits.getLsbD_lowMask he,
      Bits.getLsbD_highMask hs hi]
    split
    · next h => simp [h]
    · next h =>
      rw [← Bool.decide_and, decide_eq_false (fun hc => h hc.symm), Bool.or_false]
  head w hs hi := by
    rw [BitVec.getLsbD_or, Bits.getLsbD_highMask hs hi]
    split <;> simp [*]
  tail w he hi := by
    rw [BitVec.getLsbD_or, Bits.getLsbD_lowMask he]
    split <;> simp [*]
  middle hi := by rw [BitVec.getLsbD_allOnes, decide_eq_true hi]

theorem mapFree_marks :
    Marks false
      (fun startOff endOff word =>
        word &&& (-(1#64 <<< endOff) ||| ((1#64 <<< startOff) - 1#64)))
      (fun startOff word => word &&& ((1#64 <<< startOff) - 1#64))
      (fun endOff word => word &&& -(1#64 <<< endOff))
      0#64 where
  within w hs he hi := by
    rw [BitVec.getLsbD_and, BitVec.getLsbD_or, Bits.getLsbD_highMask he hi,
      Bits.getLsbD_lowMask hs, ← Bool.decide_or]
    split
    · next h => rw [decide_eq_false (by omega), Bool.and_false]
    · next h => rw [decide_eq_true (by omega), Bool.and_true]
  head w hs hi := by
    rw [BitVec.getLsbD_and, Bits.getLsbD_lowMask hs]
    split
    · next h => rw [decide_eq_false (Nat.not_lt.mpr h), Bool.and_false]
    · next h => rw [decide_eq_true (Nat.lt_of_not_le h), Bool.and_true]
  tail w he hi := by
    rw [BitVec.getLsbD_and, Bits.getLsbD_highMask he hi]
    split
    · next h => rw [decide_eq_false (Nat.not_le.mpr h), Bool.and_false]
    · next h => rw [decide_eq_true (Nat.le_of_not_lt h), Bool.and_true]
  middle _ := BitVec.getLsbD_zero

section
variable {tbl : Array (BitVec 64)} {i : Nat} {b : Bool}

theorem modifyWord_spec {f : BitVec 64 → BitVec 64} {sel : Nat → Prop} [DecidablePred sel]
    (h : i < tbl.size)
    (hf : ∀ w j, j < 64 → (f w).getLsbD j = if sel j then b else w.getLsbD j) :
    ∃ tbl', modifyWord tbl i f = .ok tbl' ∧ tbl'.size = tbl.size ∧
      ∀ p, member tbl' p = if p / 64 = i ∧ sel (p % 64) then b else member tbl p := by
  refine ⟨_, dif_pos h, Array.size_set h, fun p => ?_⟩
  rw [member_set h]
  by_cases hp : p / 64 = i
  · subst hp
    rw [if_pos rfl, hf _ _ (Nat.mod_lt _ (by simp)), member_eq_getElem h]
    simp only [true_and]
  · rw [if_neg hp, if_neg (fun hc => hp hc.1)]

theorem assignWords_spec {v : BitVec 64} {n : Nat} (h : i + n ≤ tbl.size)
    (hv : ∀ j, j < 64 → v.getLsbD j = b) :
    ∃ tbl', assignWords tbl v n i = .ok tbl' ∧ tbl'.size = tbl.size ∧
      ∀ p, member tbl' p = if i ≤ p / 64 ∧ p / 64 < i + n then b else member tbl p := by
  refine ⟨_, if_pos (Or.inr h), size_setWords v n tbl i, fun p => ?_⟩
  rw [member_setWords v p n tbl i h, hv _ (Nat.mod_lt _ (by simp))]

end

/-- `mapRange` marks the frames of its range and no other. -/
theorem mapRange_spec {b : Bool} {within : Nat → Nat → BitVec 64 → BitVec 64}
    {head tail : Nat → BitVec 64 → BitVec 64} {middle : BitVec 64}
    (hm : Marks b within head tail middle) {nalloc : NaiveAllocator} {first nr : BitVec 64}
    (hover : first.toNat + nr.toNat < 2 ^ 64)
    (hend : (first.toNat + nr.toNat) / 64 < nalloc.allocBitmap.size) :
    ∃ nalloc', mapRange within head tail middle nalloc first nr = .ok nalloc' ∧
      nalloc'.allocBitmap.size = nalloc.allocBitmap.size ∧
      nalloc'.maxPage = nalloc.maxPage ∧
      ∀ p, member nalloc'.allocBitmap p =
        if first.toNat ≤ p ∧ p < first.toNat + nr.toNat then b
        else member nalloc.allocBitmap p := by
  have hsum : (first + nr).toNat = first.toNat + nr.toNat := by
    rw [BitVec.toNat_add, Nat.mod_eq_of_lt hover]
  have hs : first.toNat % 64 < 64 := Nat.mod_lt _ (by simp)
  have he : (first.toNat + nr.toNat) % 64 < 64 := Nat.mod_lt _ (by simp)
  have hstart : first.toNat / 64 < nalloc.allocBitmap.size := by omega
  unfold mapRange
  simp only [getAllocBitmapIdx_eq, getAllocBitmapOffset_eq, hsum]
  by_cases hone : first.toNat / 64 = (first.toNat + nr.toNat) / 64
  · obtain ⟨tbl, htbl, hsize, hmem⟩ :=
      modifyWord_spec hstart (fun w j hj => hm.within w hs he hj)
    rw [if_pos hone, htbl]
    refine ⟨_, rfl, hsize, rfl, fun p => ?_⟩
    have hiff : (p / 64 = first.toNat / 64 ∧ first.toNat % 64 ≤ p % 64 ∧
        p % 64 < (first.toNat + nr.toNat) % 64) ↔
          (first.toNat ≤ p ∧ p < first.toNat + nr.toNat) := by omega
    simp only [hmem, hiff]
  · -- the head word, the words between, and the word the range ends in
    have hmid : first.toNat / 64 + 1 +
        ((first.toNat + nr.toNat) / 64 - (first.toNat / 64 + 1)) =
          (first.toNat + nr.toNat) / 64 := by omega
    have hmax : max ((first.toNat + nr.toNat) / 64) (first.toNat / 64 + 1) =
        (first.toNat + nr.toNat) / 64 := by omega
    obtain ⟨tbl₁, h₁, hsize₁, hmem₁⟩ := modifyWord_spec hstart (fun w j hj => hm.head w hs hj)
    obtain ⟨tbl₂, h₂, hsize₂, hmem₂⟩ := @assignWords_spec tbl₁ (first.toNat / 64 + 1) b middle
      ((first.toNat + nr.toNat) / 64 - (first.toNat / 64 + 1)) (by omega)
      (fun j hj => hm.middle hj)
    obtain ⟨tbl₃, h₃, hsize₃, hmem₃⟩ := modifyWord_spec
      (hsize₂.trans hsize₁ ▸ hend : (first.toNat + nr.toNat) / 64 < tbl₂.size)
      (fun w j hj => hm.tail w he hj)
    rw [if_neg hone, h₁]
    simp only [bind, Except.bind, h₂, hmax, h₃]
    refine ⟨_, rfl, (hsize₃.trans hsize₂).trans hsize₁, rfl, fun p => ?_⟩
    simp only [hmem₃, hmem₂, hmem₁, hmid]
    split
    · rw [if_pos (by omega)]
    · split
      · rw [if_pos (by omega)]
      · split
        · rw [if_pos (by omega)]
        · rw [if_neg (by omega)]

/-- `result` is a success that keeps the extent of the bitmap and leaves exactly the
frames of `P` taken. -/
def Leaves (nalloc : NaiveAllocator) (result : Except Fault NaiveAllocator) (P : Nat → Prop) :
    Prop :=
  ∃ nalloc', result = .ok nalloc' ∧ nalloc'.allocBitmap.size = nalloc.allocBitmap.size ∧
    nalloc'.maxPage = nalloc.maxPage ∧ ∀ p, Taken nalloc' p ↔ P p

namespace Leaves

variable {nalloc : NaiveAllocator} {result : Except Fault NaiveAllocator} {P Q : Nat → Prop}

theorem unchanged (h : ∀ p, Taken nalloc p ↔ P p) : Leaves nalloc (.ok nalloc) P :=
  ⟨nalloc, rfl, rfl, rfl, h⟩

theorem congr (h : Leaves nalloc result P) (hPQ : ∀ p, P p ↔ Q p) : Leaves nalloc result Q := by
  obtain ⟨nalloc', hok, hsize, hmax, hmem⟩ := h
  exact ⟨nalloc', hok, hsize, hmax, fun p => (hmem p).trans (hPQ p)⟩

end Leaves

section
variable {nalloc : NaiveAllocator} {first nr : BitVec 64}
  (hover : first.toNat + nr.toNat < 2 ^ 64)
  (hend : (first.toNat + nr.toNat) / 64 < nalloc.allocBitmap.size)
include hover hend

theorem mapAlloc_spec :
    Leaves nalloc (mapAlloc nalloc first nr)
      (fun p => (first.toNat ≤ p ∧ p < first.toNat + nr.toNat) ∨ Taken nalloc p) := by
  obtain ⟨nalloc', hok, hsize, hmax, hmem⟩ := mapRange_spec mapAlloc_marks hover hend
  refine ⟨nalloc', hok, hsize, hmax, fun p => ?_⟩
  unfold Taken
  rw [hmem p]
  split <;> simp [*]

theorem mapFree_spec :
    Leaves nalloc (mapFree nalloc first nr)
      (fun p => ¬ (first.toNat ≤ p ∧ p < first.toNat + nr.toNat) ∧ Taken nalloc p) := by
  obtain ⟨nalloc', hok, hsize, hmax, hmem⟩ := mapRange_spec mapFree_marks hover hend
  refine ⟨nalloc', hok, hsize, hmax, fun p => ?_⟩
  unfold Taken
  rw [hmem p]
  split <;> simp [*]

end

/-! ## The initial map -/

/-- Frame `p` lies wholly inside the heap and inside the RAM entry `e`. -/
structure HeapFrame (pml : PmemLayout) (e : E820Entry) (p : Nat) : Prop where
  ram : e.type = e820Ram
  heapStart_le : pml.vmmHeapStart.toNat ≤ p * 4096
  le_pmemEnd : (p + 1) * 4096 ≤ pml.vmmPmemEnd.toNat
  addr_le : e.addr.toNat ≤ p * 4096
  le_end : (p + 1) * 4096 ≤ (e.addr + e.size).toNat

/-- The span `[lo, hi)` gives up the frames that lie wholly inside it. -/
theorem freeAllocBitmapRegion_spec {nalloc : NaiveAllocator} {lo hi : BitVec 64}
    (hlo : lo.toNat + 4096 ≤ 2 ^ 64)
    (hhi : (pageUp lo).toNat < (pageDown hi).toNat →
      hi.toNat / 4096 / 64 < nalloc.allocBitmap.size) :
    Leaves nalloc (freeAllocBitmapRegion nalloc lo hi)
      (fun p => ¬ (lo.toNat ≤ p * 4096 ∧ (p + 1) * 4096 ≤ hi.toNat) ∧ Taken nalloc p) := by
  have hup := toNat_pageUp lo
  have hdown := toNat_pageDown hi
  rw [Nat.mod_eq_of_lt (by omega)] at hup
  unfold freeAllocBitmapRegion
  by_cases hle : pageDown hi ≤ pageUp lo
  · rw [if_pos hle]
    rw [BitVec.le_def] at hle
    refine .unchanged (fun p => ?_)
    have hout : ¬ (lo.toNat ≤ p * 4096 ∧ (p + 1) * 4096 ≤ hi.toNat) := by omega
    simp only [hout, not_false_eq_true, true_and]
  · rw [if_neg hle]
    rw [BitVec.le_def] at hle
    have hfirst : (pageUp lo >>> pageShift).toNat = (lo.toNat + 4095) / 4096 := by
      rw [BitVec.toNat_ushiftRight, Nat.shiftRight_eq_div_pow, hup]
      unfold pageShift
      omega
    have hnr : ((pageDown hi - pageUp lo) >>> pageShift).toNat =
        hi.toNat / 4096 - (lo.toNat + 4095) / 4096 := by
      rw [BitVec.toNat_ushiftRight, Nat.shiftRight_eq_div_pow,
        BitVec.toNat_sub_of_le (by rw [BitVec.le_def]; omega), hup, hdown]
      unfold pageShift
      omega
    have hb := hhi (by omega)
    have hhi64 := hi.isLt
    refine (mapFree_spec (by rw [hfirst, hnr]; omega)
      (by rw [hfirst, hnr, Nat.add_sub_cancel' (by omega)]; exact hb)).congr (fun p => ?_)
    have hiff : ((lo.toNat + 4095) / 4096 ≤ p ∧
        p < (lo.toNat + 4095) / 4096 + (hi.toNat / 4096 - (lo.toNat + 4095) / 4096)) ↔
          (lo.toNat ≤ p * 4096 ∧ (p + 1) * 4096 ≤ hi.toNat) := by omega
    rw [hfirst, hnr, hiff]

section
variable {pml : PmemLayout} (hheap : pml.vmmHeapStart.toNat ≤ pml.vmmPmemEnd.toNat)
  (htop : pml.vmmPmemEnd.toNat + 4096 ≤ 2 ^ 64)
include hheap htop

/-- One entry frees the heap frames it covers. -/
theorem initHostAllocEntry_spec {nalloc : NaiveAllocator} {e : E820Entry}
    (hbits : e.type = e820Ram → pfnUp e.addr < pfnDown (e.addr + e.size) →
      (pfnDown (e.addr + e.size)).toNat / 64 < nalloc.allocBitmap.size) :
    Leaves nalloc (initHostAllocEntry pml nalloc e)
      (fun p => ¬ HeapFrame pml e p ∧ Taken nalloc p) := by
  have skipped (h : ∀ p, ¬ HeapFrame pml e p) :
      Leaves nalloc (.ok nalloc) (fun p => ¬ HeapFrame pml e p ∧ Taken nalloc p) :=
    .unchanged (fun p => by simp only [h p, not_false_eq_true, true_and])
  unfold initHostAllocEntry
  by_cases hram : e.type = e820Ram
  · rw [if_neg (not_not_intro hram)]
    dsimp only
    by_cases hlow : e.addr + e.size < pml.vmmHeapStart
    · rw [if_pos hlow]
      rw [BitVec.lt_def] at hlow
      refine skipped (fun p h => ?_)
      have := h.heapStart_le
      have := h.le_end
      omega
    rw [if_neg hlow]
    by_cases hhigh : e.addr > pml.vmmPmemEnd
    · rw [if_pos hhigh]
      rw [gt_iff_lt, BitVec.lt_def] at hhigh
      refine skipped (fun p h => ?_)
      have := h.addr_le
      have := h.le_pmemEnd
      omega
    rw [if_neg hhigh]
    rw [gt_iff_lt, BitVec.lt_def] at hhigh
    have hstart : (if e.addr < pml.vmmHeapStart then pml.vmmHeapStart else e.addr).toNat =
        max e.addr.toNat pml.vmmHeapStart.toNat := by
      simp only [BitVec.lt_def]
      split <;> omega
    have hstop : (if e.addr + e.size > pml.vmmPmemEnd then pml.vmmPmemEnd
        else e.addr + e.size).toNat = min (e.addr + e.size).toNat pml.vmmPmemEnd.toNat := by
      simp only [gt_iff_lt, BitVec.lt_def]
      split <;> omega
    refine (freeAllocBitmapRegion_spec (by rw [hstart]; omega) ?_).congr (fun p => ?_)
    · rw [toNat_pageUp, toNat_pageDown, hstart, hstop, Nat.mod_eq_of_lt (by omega)]
      intro hlt
      have hb := hbits hram (by
        rw [BitVec.lt_def, toNat_pfnUp, toNat_pfnDown, Nat.mod_eq_of_lt (by omega)]
        omega)
      rw [toNat_pfnDown] at hb
      omega
    · have hiff : (max e.addr.toNat pml.vmmHeapStart.toNat ≤ p * 4096 ∧
          (p + 1) * 4096 ≤ min (e.addr + e.size).toNat pml.vmmPmemEnd.toNat) ↔
            HeapFrame pml e p := by
        constructor
        · intro h
          exact ⟨hram, by omega, by omega, by omega, by omega⟩
        · rintro ⟨-, h₁, h₂, h₃, h₄⟩
          omega
      rw [hstart, hstop, hiff]
  · rw [if_pos hram]
    exact skipped (fun p h => hram h.ram)

/-- The entries free the heap frames they cover, in any order and with any overlap. -/
theorem foldlM_initHostAllocEntry_spec (entries : List E820Entry) :
    ∀ nalloc : NaiveAllocator,
      (∀ e ∈ entries, e.type = e820Ram → pfnUp e.addr < pfnDown (e.addr + e.size) →
        (pfnDown (e.addr + e.size)).toNat / 64 < nalloc.allocBitmap.size) →
      Leaves nalloc (entries.foldlM (initHostAllocEntry pml) nalloc)
        (fun p => (∀ e ∈ entries, ¬ HeapFrame pml e p) ∧ Taken nalloc p) := by
  induction entries with
  | nil => exact fun nalloc _ => .unchanged (fun p => by simp)
  | cons e entries ih =>
    intro nalloc hbits
    obtain ⟨nalloc₁, hok₁, hsize₁, hmax₁, hmem₁⟩ :=
      initHostAllocEntry_spec hheap htop (hbits e List.mem_cons_self)
    obtain ⟨nalloc₂, hok₂, hsize₂, hmax₂, hmem₂⟩ := ih nalloc₁ (by
      intro e' he'
      rw [hsize₁]
      exact hbits e' (List.mem_cons_of_mem e he'))
    refine ⟨nalloc₂, ?_, hsize₂.trans hsize₁, hmax₂.trans hmax₁, fun p => ?_⟩
    · simp only [List.foldlM_cons, hok₁, bind, Except.bind, hok₂]
    · simp only [hmem₂ p, hmem₁ p, List.mem_cons, forall_eq_or_imp]
      exact ⟨fun h => ⟨⟨h.2.1, h.1⟩, h.2.2⟩, fun h => ⟨h.1.2, h.1.1, h.2⟩⟩

end

/-! ## One call -/

/-- No frame of `[pfn, pfn + n)` whose bit lies in the low half of its word is taken: all
that `is_free_contiguous_region` can tell. -/
def LooksFree (nalloc : NaiveAllocator) (pfn n : Nat) : Prop :=
  ∀ q, pfn ≤ q → q < pfn + n → q % 64 < 32 → ¬ Taken nalloc q

/-- What `allocated_in_map` reports: the `int` result keeps the low half of the word. -/
theorem allocatedInMap_spec {nalloc : NaiveAllocator} {pfn : BitVec 64}
    (h : pfn.toNat / 64 < nalloc.allocBitmap.size) :
    ∃ r, allocatedInMap nalloc pfn = .ok r ∧
      (r ≠ 0#32 ↔ pfn.toNat % 64 < 32 ∧ Taken nalloc pfn.toNat) := by
  have hoff : pfn.toNat % 64 < 64 := Nat.mod_lt _ (by simp)
  unfold allocatedInMap readWord
  rw [getAllocBitmapIdx_eq, getAllocBitmapOffset_eq, dif_pos h]
  refine ⟨_, rfl, ?_⟩
  unfold Taken
  rw [member_eq_getElem h]
  constructor
  · intro hne
    apply Decidable.byContradiction
    intro hc
    apply hne
    apply BitVec.eq_of_getLsbD_eq
    intro i hi
    rw [BitVec.getLsbD_setWidth, BitVec.getLsbD_and, Bits.getLsbD_one_shiftLeft hoff,
      BitVec.getLsbD_zero]
    by_cases hio : i = pfn.toNat % 64
    · subst hio
      simp only [hi, true_and] at hc
      simp [hc]
    · simp [hio]
  · rintro ⟨hlow, hbit⟩ hzero
    have hget := congrArg (fun x => BitVec.getLsbD x (pfn.toNat % 64)) hzero
    rw [BitVec.getLsbD_setWidth, BitVec.getLsbD_and, Bits.getLsbD_one_shiftLeft hoff,
      BitVec.getLsbD_zero, hbit] at hget
    simp [hlow] at hget

theorem isFreeContiguousRegion_spec {nalloc : NaiveAllocator} (n : Nat) :
    ∀ pfn : BitVec 64, pfn.toNat + n < 2 ^ 64 →
      (pfn.toNat + n) / 64 < nalloc.allocBitmap.size →
      ∃ b, isFreeContiguousRegion nalloc n pfn = .ok b ∧
        (b = true ↔ LooksFree nalloc pfn.toNat n) := by
  induction n with
  | zero =>
    intro pfn _ _
    refine ⟨true, rfl, fun _ q hq hlt => ?_, fun _ => rfl⟩
    omega
  | succ n ih =>
    intro pfn hover hroom
    obtain ⟨r, hr, hne⟩ := @allocatedInMap_spec nalloc pfn (by omega)
    have hnext : (pfn + 1#64).toNat = pfn.toNat + 1 := by
      rw [BitVec.toNat_add, BitVec.toNat_ofNat]
      omega
    obtain ⟨b, hb, hiff⟩ := ih (pfn + 1#64) (by omega) (by omega)
    unfold isFreeContiguousRegion
    rw [hr]
    simp only [bind, Except.bind]
    by_cases hz : r ≠ 0#32
    · rw [if_pos hz]
      refine ⟨false, rfl, ?_⟩
      obtain ⟨hlow, htaken⟩ := hne.mp hz
      simp only [Bool.false_eq_true, false_iff]
      exact fun h => h _ (Nat.le_refl _) (by omega) hlow htaken
    · rw [if_neg hz]
      refine ⟨b, hb, hiff.trans ?_⟩
      rw [hnext]
      constructor
      · intro h q hq hlt hlow htaken
        rcases Nat.eq_or_lt_of_le hq with rfl | hq
        · exact hz (hne.mpr ⟨hlow, htaken⟩)
        · exact h q hq (by omega) hlow htaken
      · exact fun h q hq hlt => h q (by omega) (by omega)

/-- `alloc_pages` serves a request with the first multiple of the alignment whose frames
all look free, and takes those frames. -/
structure Served (nalloc : NaiveAllocator) (nrPfns pfnAlign pfn : BitVec 64)
    (nalloc' : NaiveAllocator) : Prop where
  aligned : pfnAlign.toNat ∣ pfn.toNat
  below : pfn.toNat + nrPfns.toNat < nalloc.maxPage.toNat
  looksFree : LooksFree nalloc pfn.toNat nrPfns.toNat
  first : ∀ j, pfnAlign.toNat ∣ j → j < pfn.toNat → ¬ LooksFree nalloc j nrPfns.toNat
  size_eq : nalloc'.allocBitmap.size = nalloc.allocBitmap.size
  maxPage_eq : nalloc'.maxPage = nalloc.maxPage
  taken : ∀ p, Taken nalloc' p ↔
    (pfn.toNat ≤ p ∧ p < pfn.toNat + nrPfns.toNat) ∨ Taken nalloc p

/-- A request that is not below `max_page` is given up at once. -/
theorem allocPages_large {nalloc : NaiveAllocator} {nrPfns pfnAlign : BitVec 64}
    (hnr : nalloc.maxPage.toNat ≤ nrPfns.toNat) :
    allocPages nrPfns pfnAlign nalloc = fatalFailure "alloc_pages failed\n" := by
  unfold allocPages
  rw [show (2 : Nat) ^ 64 = (2 ^ 64 - 1) + 1 from rfl, allocPagesLoop, BitVec.zero_add,
    if_neg (by rw [BitVec.lt_def]; omega)]

section
variable {nalloc : NaiveAllocator} {nrPfns pfnAlign : BitVec 64}
  (hmax : nalloc.maxPage.toNat < 2 ^ 52)
  (hroom : nalloc.maxPage.toNat / 64 < nalloc.allocBitmap.size)
include hmax hroom

/-- The search from a multiple `i` of the alignment, all multiples below it looked at.
It gives up only when no multiple is left to look at. -/
theorem allocPagesLoop_spec (hnr : nrPfns.toNat ≤ nalloc.maxPage.toNat)
    (hpos : 0 < pfnAlign.toNat) (hwrap : nrPfns.toNat + pfnAlign.toNat < 2 ^ 64)
    (fuel : Nat) :
    ∀ i : BitVec 64, pfnAlign.toNat ∣ i.toNat → i.toNat + nrPfns.toNat < 2 ^ 64 →
      0 < fuel → nalloc.maxPage.toNat < i.toNat + fuel →
      (∀ j, pfnAlign.toNat ∣ j → j < i.toNat → ¬ LooksFree nalloc j nrPfns.toNat) →
      (allocPagesLoop nalloc nrPfns pfnAlign fuel i = fatalFailure "alloc_pages failed\n" ∧
        ∀ j, pfnAlign.toNat ∣ j → j + nrPfns.toNat < nalloc.maxPage.toNat →
          ¬ LooksFree nalloc j nrPfns.toNat) ∨
        ∃ pfn nalloc', allocPagesLoop nalloc nrPfns pfnAlign fuel i = .ok (pfn, nalloc') ∧
          Served nalloc nrPfns pfnAlign pfn nalloc' := by
  induction fuel with
  | zero => exact fun _ _ _ hfuel => absurd hfuel (Nat.lt_irrefl 0)
  | succ fuel ih =>
    intro i hdvd hover _ hfuel hfirst
    have hsum : (i + nrPfns).toNat = i.toNat + nrPfns.toNat := by
      rw [BitVec.toNat_add, Nat.mod_eq_of_lt hover]
    unfold allocPagesLoop
    by_cases hlt : i + nrPfns < nalloc.maxPage
    · rw [if_pos hlt]
      rw [BitVec.lt_def, hsum] at hlt
      obtain ⟨b, hb, hiff⟩ := @isFreeContiguousRegion_spec nalloc nrPfns.toNat i hover (by omega)
      rw [hb]
      simp only [bind, Except.bind]
      cases b with
      | true =>
        obtain ⟨nalloc', hok, hsize, hmaxPage, htaken⟩ := @mapAlloc_spec nalloc i nrPfns hover
          (by omega)
        rw [if_pos rfl, hok]
        exact .inr ⟨i, nalloc', rfl, hdvd, hlt, hiff.mp rfl, hfirst, hsize, hmaxPage, htaken⟩
      | false =>
        have hnot : ¬ LooksFree nalloc i.toNat nrPfns.toNat := fun h => by
          cases hiff.mpr h
        -- past the first position the alignment is itself a small frame number
        have hsmall : i.toNat = 0 ∨ pfnAlign.toNat ≤ i.toNat := by
          rcases Nat.eq_zero_or_pos i.toNat with h | h
          · exact .inl h
          · exact .inr (Nat.le_of_dvd h hdvd)
        have hnext : (i + pfnAlign).toNat = i.toNat + pfnAlign.toNat := by
          rw [BitVec.toNat_add]
          omega
        rw [if_neg Bool.false_ne_true]
        refine ih _ ?_ (by omega) (by omega) (by omega) (fun j hj hjlt => ?_)
        · rw [hnext]
          exact Nat.dvd_add hdvd (Nat.dvd_refl _)
        · rcases Nat.lt_trichotomy j i.toNat with h | h | h
          · exact hfirst j hj h
          · exact h ▸ hnot
          · -- no multiple lies strictly between two neighbouring ones
            obtain ⟨d, hd⟩ := Nat.dvd_sub hj hdvd
            rw [hnext] at hjlt
            have hd0 : 0 < d := by
              rcases Nat.eq_zero_or_pos d with h0 | h0
              · subst h0
                omega
              · exact h0
            have := Nat.le_mul_of_pos_right pfnAlign.toNat hd0
            omega
    · rw [if_neg hlt]
      rw [BitVec.lt_def, hsum] at hlt
      exact .inl ⟨rfl, fun j hj hjlt => hfirst j hj (by omega)⟩

theorem allocPages_spec (hnr : nrPfns.toNat ≤ nalloc.maxPage.toNat) (hpos : 0 < pfnAlign.toNat)
    (hwrap : nrPfns = nalloc.maxPage ∨ nrPfns.toNat + pfnAlign.toNat < 2 ^ 64) :
    (allocPages nrPfns pfnAlign nalloc = fatalFailure "alloc_pages failed\n" ∧
      ∀ j, pfnAlign.toNat ∣ j → j + nrPfns.toNat < nalloc.maxPage.toNat →
        ¬ LooksFree nalloc j nrPfns.toNat) ∨
      ∃ pfn nalloc', allocPages nrPfns pfnAlign nalloc = .ok (pfn, nalloc') ∧
        Served nalloc nrPfns pfnAlign pfn nalloc' := by
  unfold allocPages
  rcases hwrap with rfl | hwrap
  · -- no position fits: the search stops before it looks at the map
    rw [show (2 : Nat) ^ 64 = (2 ^ 64 - 1) + 1 from rfl, allocPagesLoop, BitVec.zero_add,
      if_neg (BitVec.lt_irrefl _)]
    exact .inl ⟨rfl, fun j _ hj => by omega⟩
  · refine allocPagesLoop_spec hmax hroom hnr hpos hwrap (2 ^ 64) 0#64 ⟨0, rfl⟩ ?_ (by simp) ?_ ?_
    · rw [BitVec.toNat_ofNat]
      omega
    · exact Nat.lt_of_lt_of_le nalloc.maxPage.isLt (Nat.le_add_left _ _)
    · exact fun j _ hj => absurd hj (Nat.not_lt_zero j)

omit hmax in
/-- Frame 0 on is taken when it looks free, whatever the alignment. -/
theorem allocPages_zero (hlt : nrPfns.toNat < nalloc.maxPage.toNat)
    (hlooks : LooksFree nalloc 0 nrPfns.toNat) :
    ∃ nalloc', allocPages nrPfns pfnAlign nalloc = .ok (0#64, nalloc') ∧
      Served nalloc nrPfns pfnAlign 0#64 nalloc' := by
  have hzero : (0#64).toNat = 0 := rfl
  obtain ⟨b, hb, hiff⟩ := @isFreeContiguousRegion_spec nalloc nrPfns.toNat 0#64 (by omega)
    (by omega)
  obtain ⟨nalloc', hok, hsize, hmaxPage, htaken⟩ := @mapAlloc_spec nalloc 0#64 nrPfns (by omega)
    (by omega)
  refine ⟨nalloc', ?_, ⟨0, rfl⟩, by omega, hlooks, fun j _ hj => by omega, hsize, hmaxPage, htaken⟩
  unfold allocPages
  rw [show (2 : Nat) ^ 64 = (2 ^ 64 - 1) + 1 from rfl, allocPagesLoop, BitVec.zero_add,
    if_pos (by rw [BitVec.lt_def]; exact hlt), hb, hiff.mpr hlooks]
  simp only [bind, Except.bind, if_true, hok, pure, Except.pure]

/-- When the alignment overflows the position counter, the second probe is far outside
the bitmap. -/
theorem allocPages_outOfBounds (hsize : nalloc.allocBitmap.size < 2 ^ 50)
    (hlt : nrPfns.toNat < nalloc.maxPage.toNat) (hlooks : ¬ LooksFree nalloc 0 nrPfns.toNat)
    (hwrap : 2 ^ 64 ≤ nrPfns.toNat + pfnAlign.toNat) :
    allocPages nrPfns pfnAlign nalloc = .error .outOfBounds := by
  have hn := pfnAlign.isLt
  have hfirst : isFreeContiguousRegion nalloc nrPfns.toNat 0#64 = .ok false := by
    obtain ⟨b, hb, hiff⟩ := @isFreeContiguousRegion_spec nalloc nrPfns.toNat 0#64
      (by rw [BitVec.toNat_ofNat]; omega) (by rw [BitVec.toNat_ofNat]; omega)
    cases b with
    | false => exact hb
    | true => exact absurd (hiff.mp rfl) hlooks
  have hsecond : isFreeContiguousRegion nalloc nrPfns.toNat pfnAlign = .error .outOfBounds := by
    obtain ⟨k, hk⟩ : ∃ k, nrPfns.toNat = k + 1 := ⟨nrPfns.toNat - 1, by omega⟩
    rw [hk]
    unfold isFreeContiguousRegion allocatedInMap readWord
    rw [getAllocBitmapIdx_eq, dif_neg (by omega)]
    rfl
  unfold allocPages
  rw [show (2 : Nat) ^ 64 = (2 ^ 64 - 2) + 1 + 1 from rfl, allocPagesLoop, BitVec.zero_add,
    if_pos (by rw [BitVec.lt_def]; exact hlt), hfirst]
  simp only [bind, Except.bind, Bool.false_eq_true, if_false]
  rw [allocPagesLoop, BitVec.zero_add,
    if_pos (by rw [BitVec.lt_def, BitVec.toNat_add]; omega), hsecond]
  rfl

end

/-! ## A call that returns, whatever the extent of the bitmap -/

section
variable {nalloc nalloc' : NaiveAllocator} {pfn : BitVec 64} {p : Nat}

theorem modifyWord_mono {tbl tbl' : Array (BitVec 64)} {i : Nat} {f : BitVec 64 → BitVec 64}
    (hf : ∀ (w : BitVec 64) j, w.getLsbD j = true → (f w).getLsbD j = true)
    (h : modifyWord tbl i f = .ok tbl') (hp : member tbl p = true) : member tbl' p = true := by
  unfold modifyWord at h
  split at h
  · next hi =>
    cases h
    rw [member_set hi]
    split
    · next heq =>
      subst heq
      rw [member_eq_getElem hi] at hp
      exact hf _ _ hp
    · exact hp
  · cases h

theorem assignWords_mono {tbl tbl' : Array (BitVec 64)} {n i : Nat}
    (h : assignWords tbl (BitVec.allOnes 64) n i = .ok tbl') (hp : member tbl p = true) :
    member tbl' p = true := by
  unfold assignWords at h
  split at h
  · next hn =>
    cases h
    rcases hn with rfl | hn
    · exact hp
    · rw [member_setWords _ _ _ _ _ hn]
      split
      · rw [BitVec.getLsbD_allOnes]
        exact decide_eq_true (Nat.mod_lt _ (by simp))
      · exact hp
  · cases h

theorem getLsbD_or_of_left (m w : BitVec 64) (j : Nat) (h : w.getLsbD j = true) :
    (w ||| m).getLsbD j = true := by rw [BitVec.getLsbD_or, h, Bool.true_or]

/-- What is taken stays taken when a range is marked. -/
theorem mapAlloc_mono {first nr : BitVec 64} (h : mapAlloc nalloc first nr = .ok nalloc')
    (hp : Taken nalloc p) : Taken nalloc' p := by
  unfold mapAlloc mapRange at h
  dsimp only at h
  split at h
  · obtain ⟨tbl, htbl, h⟩ := bind_ok_iff.mp h
    cases h
    exact modifyWord_mono (fun w j => getLsbD_or_of_left _ w j) htbl hp
  · obtain ⟨tbl₁, h₁, h⟩ := bind_ok_iff.mp h
    obtain ⟨tbl₂, h₂, h⟩ := bind_ok_iff.mp h
    obtain ⟨tbl₃, h₃, h⟩ := bind_ok_iff.mp h
    cases h
    have hp₁ := modifyWord_mono (fun w j => getLsbD_or_of_left _ w j) h₁ hp
    have hp₂ := assignWords_mono h₂ hp₁
    exact modifyWord_mono (fun w j => getLsbD_or_of_left _ w j) h₃ hp₂

/-- The range that a call grants was probed, and then marked. -/
theorem allocPagesLoop_ok {nrPfns pfnAlign : BitVec 64} (fuel : Nat) :
    ∀ i : BitVec 64, allocPagesLoop nalloc nrPfns pfnAlign fuel i = .ok (pfn, nalloc') →
      isFreeContiguousRegion nalloc nrPfns.toNat pfn = .ok true ∧
        mapAlloc nalloc pfn nrPfns = .ok nalloc' := by
  induction fuel with
  | zero => exact fun _ h => nomatch h
  | succ fuel ih =>
    intro i h
    unfold allocPagesLoop at h
    split at h
    · obtain ⟨b, hb, h⟩ := bind_ok_iff.mp h
      cases b with
      | true =>
        obtain ⟨nalloc₁, hmap, h⟩ := bind_ok_iff.mp h
        cases h
        exact ⟨hb, hmap⟩
      | false => exact ih _ h
    · cases h

theorem maxPage_mapAlloc {first nr : BitVec 64} (h : mapAlloc nalloc first nr = .ok nalloc') :
    nalloc'.maxPage = nalloc.maxPage := by
  unfold mapAlloc mapRange at h
  dsimp only at h
  split at h
  · obtain ⟨tbl, -, h⟩ := bind_ok_iff.mp h
    cases h
    rfl
  · obtain ⟨tbl₁, -, h⟩ := bind_ok_iff.mp h
    obtain ⟨tbl₂, -, h⟩ := bind_ok_iff.mp h
    obtain ⟨tbl₃, -, h⟩ := bind_ok_iff.mp h
    cases h
    rfl

/-- A search page by page grants what ends below `max_page`. -/
theorem allocPagesLoop_below {nrPfns : BitVec 64} (fuel : Nat) :
    ∀ i : BitVec 64, i.toNat + nrPfns.toNat < 2 ^ 64 →
      allocPagesLoop nalloc nrPfns 1#64 fuel i = .ok (pfn, nalloc') →
        pfn.toNat + nrPfns.toNat < nalloc.maxPage.toNat := by
  induction fuel with
  | zero =>
    intro i _ h
    cases h
  | succ fuel ih =>
    intro i hover h
    have hsum : (i + nrPfns).toNat = i.toNat + nrPfns.toNat := by
      rw [BitVec.toNat_add, Nat.mod_eq_of_lt hover]
    unfold allocPagesLoop at h
    split at h
    · next hlt =>
      rw [BitVec.lt_def, hsum] at hlt
      obtain ⟨b, -, h⟩ := bind_ok_iff.mp h
      cases b with
      | true =>
        obtain ⟨nalloc₁, -, h⟩ := bind_ok_iff.mp h
        cases h
        exact hlt
      | false =>
        have hmax := nalloc.maxPage.isLt
        refine ih (i + 1#64) ?_ h
        rw [BitVec.toNat_add, BitVec.toNat_ofNat]
        omega
    · cases h

theorem allocHostPages_below {nrPfns : BitVec 64}
    (h : allocHostPages nrPfns 1#64 nalloc = .ok (pfn, nalloc')) :
    pfn.toNat + nrPfns.toNat < nalloc.maxPage.toNat ∧ nalloc'.maxPage = nalloc.maxPage := by
  refine ⟨allocPagesLoop_below (2 ^ 64) 0#64 ?_ h, ?_⟩
  · rw [BitVec.toNat_ofNat, Nat.zero_mod, Nat.zero_add]
    exact nrPfns.isLt
  · exact maxPage_mapAlloc (allocPagesLoop_ok (2 ^ 64) 0#64 h).2

theorem isFreeContiguousRegion_first {n : Nat} (hn : 0 < n)
    (h : isFreeContiguousRegion nalloc n pfn = .ok true) (hlow : pfn.toNat % 64 < 32) :
    ¬ Taken nalloc pfn.toNat := by
  intro htaken
  obtain ⟨n, rfl⟩ := Nat.exists_eq_succ_of_ne_zero (Nat.pos_iff_ne_zero.mp hn)
  unfold isFreeContiguousRegion at h
  obtain ⟨r, hr, h⟩ := bind_ok_iff.mp h
  have hsize : pfn.toNat / 64 < nalloc.allocBitmap.size := by
    apply Classical.byContradiction
    intro hout
    unfold allocatedInMap readWord at hr
    rw [getAllocBitmapIdx_eq, dif_neg hout] at hr
    cases hr
  obtain ⟨r', hr', hne⟩ := allocatedInMap_spec hsize
  rw [hr'] at hr
  cases hr
  rw [if_pos (hne.mpr ⟨hlow, htaken⟩)] at h
  cases h

end

/-- The outcome of a one-page request: the first clear frame below 32, or frame 32. -/
structure OnePage (nalloc : NaiveAllocator) (pfn : BitVec 64) (nalloc' : NaiveAllocator) : Prop where
  le : pfn.toNat ≤ 32
  below : ∀ j, j < pfn.toNat → Taken nalloc j
  clear : pfn.toNat < 32 → ¬ Taken nalloc pfn.toNat
  taken : ∀ p, Taken nalloc' p ↔ p = pfn.toNat ∨ Taken nalloc p

theorem allocPagesLoop_one {nalloc nalloc' : NaiveAllocator} {pfn : BitVec 64} (fuel : Nat) :
    ∀ i : BitVec 64, i.toNat ≤ 32 → (∀ j, j < i.toNat → Taken nalloc j) →
      allocPagesLoop nalloc 1#64 1#64 fuel i = .ok (pfn, nalloc') →
      OnePage nalloc pfn nalloc' := by
  induction fuel with
  | zero => exact fun _ _ _ h => nomatch h
  | succ fuel ih =>
    intro i hi hbelow h
    have hone : (1#64).toNat = 1 := rfl
    unfold allocPagesLoop at h
    split at h
    · rcases Nat.eq_zero_or_pos nalloc.allocBitmap.size with hsize | hsize
      · -- no bitmap at all: the first probe faults
        have hfault : isFreeContiguousRegion nalloc 1 i = .error .outOfBounds := by
          unfold isFreeContiguousRegion allocatedInMap readWord
          rw [dif_neg (by omega)]
          rfl
        rw [hone, hfault] at h
        cases h
      · obtain ⟨b, hb, hiff⟩ := @isFreeContiguousRegion_spec nalloc 1 i (by omega) (by omega)
        rw [hone, hb] at h
        simp only [bind, Except.bind] at h
        cases b with
        | true =>
          obtain ⟨nalloc₁, hok, -, -, htaken⟩ := @mapAlloc_spec nalloc i 1#64 (by omega) (by omega)
          rw [if_pos rfl, hok] at h
          cases h
          refine ⟨hi, hbelow, fun hlt => ?_, fun p => ?_⟩
          · exact hiff.mp rfl _ (Nat.le_refl _) (Nat.lt_succ_self _) (by omega)
          · have hp : (pfn.toNat ≤ p ∧ p < pfn.toNat + (1#64).toNat) ↔ p = pfn.toNat := by omega
            simp only [htaken p, hp]
        | false =>
          have hseen : i.toNat % 64 < 32 ∧ Taken nalloc i.toNat := by
            apply Classical.byContradiction
            intro hno
            refine Bool.false_ne_true (hiff.mpr (fun q hlo hhi hlow ht => hno ?_))
            obtain rfl : q = i.toNat := by omega
            exact ⟨hlow, ht⟩
          have hnext : (i + 1#64).toNat = i.toNat + 1 := by
            rw [BitVec.toNat_add]
            omega
          rw [if_neg Bool.false_ne_true] at h
          refine ih _ (by omega) (fun j hj => ?_) h
          rcases Nat.lt_or_eq_of_le (Nat.le_of_lt_succ (hnext ▸ hj)) with hlt | rfl
          · exact hbelow j hlt
          · exact hseen.2
    · cases h

theorem allocHostPages_one_page {nalloc nalloc' : NaiveAllocator} {pfn : BitVec 64}
    (h : allocHostPages 1#64 1#64 nalloc = .ok (pfn, nalloc')) : OnePage nalloc pfn nalloc' :=
  allocPagesLoop_one (2 ^ 64) 0#64 (Nat.zero_le 32) (fun j hj => absurd hj (Nat.not_lt_zero j)) h

end Mavmm
