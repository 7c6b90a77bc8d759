import Mathlib.Data.List.OfFn
import Mathlib.Data.Nat.Find
import Mathlib.Order.Bounds.Basic
import Mavmm.AllocSafety

/-!
# The first fit of the page allocator

A request should get the first run of free frames at a multiple of its alignment,
up to and with the run that ends at `max_page`.  The search does not look at that
last run, and a frame whose bit is in the high half of its word looks free to it
(`allocPages_firstFit_iff`).
-/

namespace Mavmm

/-- The bitmap as `naive_memmap_init` reserves it, with any contents. -/
structure NaiveAllocator.Reserved (nalloc : NaiveAllocator) : Prop where
  maxPage_lt : nalloc.maxPage.toNat < 2 ^ 52
  size_eq : nalloc.allocBitmap.size * 8 = (mapsizeRounded nalloc.maxPage).toNat

/-- The positions a request may be served with. -/
structure Candidate (nalloc : NaiveAllocator) (nrPfns pfnAlign : BitVec 64) (i : Nat) : Prop where
  aligned : pfnAlign.toNat ∣ i
  inside : i + nrPfns.toNat ≤ nalloc.maxPage.toNat
  free : ∀ q, i ≤ q → q < i + nrPfns.toNat → ¬ Taken nalloc q

/-- The first candidate is returned and exactly its frames are marked; without a candidate the
request fails. -/
structure FirstFit (nalloc : NaiveAllocator) (nrPfns pfnAlign : BitVec 64)
    (result : Except Fault (BitVec 64 × NaiveAllocator)) : Prop where
  found : ∀ i, IsLeast { i | Candidate nalloc nrPfns pfnAlign i } i →
    ∃ pfn nalloc', result = .ok (pfn, nalloc') ∧ pfn.toNat = i ∧ nalloc'.maxPage = nalloc.maxPage ∧
      ∀ p, Taken nalloc' p ↔ (i ≤ p ∧ p < i + nrPfns.toNat) ∨ Taken nalloc p
  none : (∀ i, ¬ Candidate nalloc nrPfns pfnAlign i) → result = fatalFailure "alloc_pages failed\n"

/-- The search is not misled, and passes over no run that ends at `max_page`. -/
structure SearchRight (nalloc : NaiveAllocator) (nrPfns pfnAlign : BitVec 64) : Prop where
  noWrap : nalloc.maxPage.toNat ≤ nrPfns.toNat ∨ nrPfns.toNat + pfnAlign.toNat < 2 ^ 64 ∨
    LooksFree nalloc 0 nrPfns.toNat
  clear : ∀ j, pfnAlign.toNat ∣ j → j + nrPfns.toNat < nalloc.maxPage.toNat →
    LooksFree nalloc j nrPfns.toNat →
    (∀ i, pfnAlign.toNat ∣ i → i < j → ¬ LooksFree nalloc i nrPfns.toNat) →
    ∀ q, j ≤ q → q < j + nrPfns.toNat → ¬ Taken nalloc q
  lastRun : (∀ j, pfnAlign.toNat ∣ j → j + nrPfns.toNat < nalloc.maxPage.toNat →
      ¬ LooksFree nalloc j nrPfns.toNat) →
    ∀ i, i + nrPfns.toNat = nalloc.maxPage.toNat → ¬ Candidate nalloc nrPfns pfnAlign i

section
variable {nalloc nalloc' : NaiveAllocator} {nrPfns pfnAlign pfn : BitVec 64}

theorem NaiveAllocator.Reserved.size_le (h : nalloc.Reserved) :
    nalloc.maxPage.toNat / 64 < nalloc.allocBitmap.size ∧ nalloc.allocBitmap.size < 2 ^ 50 := by
  have hlt := h.maxPage_lt
  have hsize := h.size_eq
  rw [toNat_mapsizeRounded hlt] at hsize
  omega

/-- A candidate looks free to the search. -/
theorem Candidate.looksFree {i : Nat} (h : Candidate nalloc nrPfns pfnAlign i) :
    LooksFree nalloc i nrPfns.toNat := fun q hlo hhi _ => h.free q hlo hhi

theorem exists_least_candidate {i : Nat} (h : Candidate nalloc nrPfns pfnAlign i) :
    ∃ i, IsLeast { i | Candidate nalloc nrPfns pfnAlign i } i := by
  classical
  have hex : ∃ i, Candidate nalloc nrPfns pfnAlign i := ⟨i, h⟩
  exact ⟨Nat.find hex, Nat.find_spec hex, fun j hj => Nat.find_min' hex hj⟩

/-- With a candidate a first fit returns one. -/
theorem FirstFit.serves {result : Except Fault (BitVec 64 × NaiveAllocator)} {i : Nat}
    (h : FirstFit nalloc nrPfns pfnAlign result) (hi : Candidate nalloc nrPfns pfnAlign i) :
    ∃ pfn nalloc', result = .ok (pfn, nalloc') ∧ Candidate nalloc nrPfns pfnAlign pfn.toNat := by
  obtain ⟨j, hj⟩ := exists_least_candidate hi
  obtain ⟨pfn, nalloc', hok, rfl, -⟩ := h.found j hj
  exact ⟨pfn, nalloc', hok, hj.1⟩

/-- A request that is given up is owed nothing exactly when no candidate ends at `max_page`. -/
theorem firstFit_fatal
    (hnone : ∀ j, pfnAlign.toNat ∣ j → j + nrPfns.toNat < nalloc.maxPage.toNat →
      ¬ LooksFree nalloc j nrPfns.toNat) :
    FirstFit nalloc nrPfns pfnAlign (fatalFailure "alloc_pages failed\n") ↔
      ∀ i, i + nrPfns.toNat = nalloc.maxPage.toNat → ¬ Candidate nalloc nrPfns pfnAlign i := by
  constructor
  · intro h i _ hi
    obtain ⟨_, _, hok, -⟩ := h.serves hi
    cases hok
  · intro h
    have hno : ∀ i, ¬ Candidate nalloc nrPfns pfnAlign i := by
      intro i hi
      rcases Nat.lt_or_eq_of_le hi.inside with hlt | heq
      · exact hnone i hi.aligned hlt hi.looksFree
      · exact h i heq hi
    exact ⟨fun i hi => absurd hi.1 (hno i), fun _ => rfl⟩

/-- A request that is served is served right exactly when its frames are free. -/
theorem firstFit_served (h : Served nalloc nrPfns pfnAlign pfn nalloc') :
    FirstFit nalloc nrPfns pfnAlign (.ok (pfn, nalloc')) ↔
      ∀ q, pfn.toNat ≤ q → q < pfn.toNat + nrPfns.toNat → ¬ Taken nalloc q := by
  constructor
  · intro hfit
    by_cases hex : ∃ i, Candidate nalloc nrPfns pfnAlign i
    · obtain ⟨i, hi⟩ := hex
      obtain ⟨_, _, hok, hcand⟩ := hfit.serves hi
      cases hok
      exact hcand.free
    · exact nomatch hfit.none fun i hi => hex ⟨i, hi⟩
  · intro hfree
    have hcand : Candidate nalloc nrPfns pfnAlign pfn.toNat :=
      ⟨h.aligned, Nat.le_of_lt h.below, hfree⟩
    refine ⟨fun i hi => ?_, fun hno => absurd hcand (hno _)⟩
    have heq : pfn.toNat = i := by
      refine Nat.le_antisymm (Nat.le_of_not_lt fun hlt => ?_) (hi.2 hcand)
      exact h.first i hi.1.aligned hlt hi.1.looksFree
    exact ⟨pfn, nalloc', rfl, heq, h.maxPage_eq, heq ▸ h.taken⟩

theorem searchRight_served (h : Served nalloc nrPfns pfnAlign pfn nalloc')
    (hwrap : nrPfns.toNat + pfnAlign.toNat < 2 ^ 64 ∨ LooksFree nalloc 0 nrPfns.toNat) :
    SearchRight nalloc nrPfns pfnAlign ↔
      ∀ q, pfn.toNat ≤ q → q < pfn.toNat + nrPfns.toNat → ¬ Taken nalloc q := by
  constructor
  · exact fun hright => hright.clear _ h.aligned h.below h.looksFree h.first
  · intro hfree
    refine ⟨.inr hwrap, fun j hdvd hlt hlooks hfirst => ?_, fun hnone => ?_⟩
    · have heq : pfn.toNat = j := by
        refine Nat.le_antisymm (Nat.le_of_not_lt fun hj => ?_) (Nat.le_of_not_lt fun hj => ?_)
        · exact h.first j hdvd hj hlooks
        · exact hfirst _ h.aligned hj h.looksFree
      exact heq ▸ hfree
    · exact absurd h.looksFree (hnone _ h.aligned h.below)

theorem searchRight_fatal (hwrap : nalloc.maxPage.toNat ≤ nrPfns.toNat ∨
      nrPfns.toNat + pfnAlign.toNat < 2 ^ 64)
    (hnone : ∀ j, pfnAlign.toNat ∣ j → j + nrPfns.toNat < nalloc.maxPage.toNat →
      ¬ LooksFree nalloc j nrPfns.toNat) :
    SearchRight nalloc nrPfns pfnAlign ↔
      ∀ i, i + nrPfns.toNat = nalloc.maxPage.toNat → ¬ Candidate nalloc nrPfns pfnAlign i := by
  constructor
  · exact fun h => h.lastRun hnone
  · intro h
    exact ⟨hwrap.imp_right .inl, fun j hdvd hlt hlooks => absurd hlooks (hnone j hdvd hlt),
      fun _ => h⟩

end

/-- A request is served with the first fit exactly when the search is right about the frames it
meets. -/
theorem allocPages_firstFit_iff {nalloc : NaiveAllocator} {nrPfns pfnAlign : BitVec 64}
    (hreserved : nalloc.Reserved) (halign : 1 ≤ pfnAlign.toNat) :
    FirstFit nalloc nrPfns pfnAlign (allocPages nrPfns pfnAlign nalloc) ↔
      SearchRight nalloc nrPfns pfnAlign := by
  have hmax := hreserved.maxPage_lt
  obtain ⟨hroom, hsize⟩ := hreserved.size_le
  rcases Nat.lt_or_ge nrPfns.toNat nalloc.maxPage.toNat with hlt | hlarge
  · rcases Nat.lt_or_ge (nrPfns.toNat + pfnAlign.toNat) (2 ^ 64) with hwrap | hwrap
    · rcases allocPages_spec hmax hroom (Nat.le_of_lt hlt) halign (.inr hwrap) with
        ⟨hfatal, hnone⟩ | ⟨pfn, nalloc', hok, hserved⟩
      · rw [hfatal, firstFit_fatal hnone, searchRight_fatal (.inr hwrap) hnone]
      · rw [hok, firstFit_served hserved, searchRight_served hserved (.inl hwrap)]
    · by_cases hlooks : LooksFree nalloc 0 nrPfns.toNat
      · obtain ⟨nalloc', hok, hserved⟩ := allocPages_zero hroom hlt hlooks
        rw [hok, firstFit_served hserved, searchRight_served hserved (.inr hlooks)]
      · -- the second probe faults
        rw [allocPages_outOfBounds hmax hroom hsize hlt hlooks hwrap]
        constructor
        · intro hfit
          by_cases hex : ∃ i, Candidate nalloc nrPfns pfnAlign i
          · obtain ⟨i, hi⟩ := hex
            obtain ⟨_, _, hok, -⟩ := hfit.serves hi
            cases hok
          · exact nomatch hfit.none fun i hi => hex ⟨i, hi⟩
        · intro hright
          rcases hright.noWrap with h | h | h
          · omega
          · omega
          · exact absurd h hlooks
  · have hnone : ∀ j, pfnAlign.toNat ∣ j → j + nrPfns.toNat < nalloc.maxPage.toNat →
        ¬ LooksFree nalloc j nrPfns.toNat := fun j _ hj => by omega
    rw [allocPages_large hlarge, firstFit_fatal hnone,
      searchRight_fatal (.inl hlarge) hnone]

/-- An allocator with `maxPage` frames, of which those of `taken` and all from 64 on are taken. -/
def NaiveAllocator.small (taken maxPage : BitVec 64) : NaiveAllocator :=
  ⟨Array.ofFn (n := 512) fun i => if i = 0 then taken else BitVec.allOnes 64, maxPage⟩

theorem NaiveAllocator.small_eq (taken maxPage : BitVec 64) :
    small taken maxPage = ⟨⟨taken :: List.replicate 511 (BitVec.allOnes 64)⟩, maxPage⟩ := by
  have hwords : ∀ n, Array.ofFn (n := n + 1) (fun i => if i = 0 then taken else BitVec.allOnes 64) =
      ⟨taken :: List.replicate n (BitVec.allOnes 64)⟩ := by
    intro n
    apply Array.ext'
    rw [Array.toList_ofFn, List.ofFn_succ, if_pos rfl]
    simp only [Fin.succ_ne_zero, if_false, List.ofFn_const]
  unfold small
  rw [hwords 511]

/-- 64 clear frames. -/
theorem not_taken_small : ∀ q < 64, ¬ Taken (.small 0#64 64#64) q := by decide +kernel

theorem allocPages_firstFit_clear :
    FirstFit (.small 0#64 64#64) 4#64 2#64 (allocPages 4#64 2#64 (.small 0#64 64#64)) := by
  refine (allocPages_firstFit_iff ⟨by decide, by simp [NaiveAllocator.small]; decide⟩
    (by simp)).mpr ⟨Or.inr (Or.inl (by decide)), ?_, fun hnone => absurd ?_
      (hnone 0 (Nat.dvd_zero _) (by decide))⟩
  · intro j _ hlt _ _ q _ hq
    exact not_taken_small q (Nat.lt_trans hq hlt)
  · intro q _ hq _
    exact not_taken_small q (Nat.lt_trans hq (by decide))

/-- The only free frame is the last of 32: the request is given up.  The only free frame is the
last of 64: the request gets frame 32, which is taken. -/
theorem allocPages_not_firstFit :
    (allocPages 1#64 1#64 (.small 0xffffffff7fffffff#64 32#64) =
        fatalFailure "alloc_pages failed\n" ∧
      ¬ FirstFit (.small 0xffffffff7fffffff#64 32#64) 1#64 1#64
        (allocPages 1#64 1#64 (.small 0xffffffff7fffffff#64 32#64))) ∧
    (completesWith (fun r => r.1 = 32#64)
        (allocPages 1#64 1#64 (.small 0x7fffffffffffffff#64 64#64)) = true ∧
      Taken (.small 0x7fffffffffffffff#64 64#64) 32 ∧
      ¬ FirstFit (.small 0x7fffffffffffffff#64 64#64) 1#64 1#64
        (allocPages 1#64 1#64 (.small 0x7fffffffffffffff#64 64#64))) := by
  have hone : (1#64).toNat = 1 := rfl
  have hfatal : allocPages 1#64 1#64 (.small 0xffffffff7fffffff#64 32#64) =
      fatalFailure "alloc_pages failed\n" := by
    rw [NaiveAllocator.small_eq]
    decide +kernel
  have hgot : completesWith (fun r => r.1 = 32#64)
      (allocPages 1#64 1#64 (.small 0x7fffffffffffffff#64 64#64)) = true := by
    rw [NaiveAllocator.small_eq]
    decide +kernel
  have htaken : Taken (.small 0x7fffffffffffffff#64 64#64) 32 := by
    rw [NaiveAllocator.small_eq]
    decide +kernel
  refine ⟨⟨hfatal, fun hfit => ?_⟩, hgot, htaken, fun hfit => ?_⟩
  · have hlast : Candidate (.small 0xffffffff7fffffff#64 32#64) 1#64 1#64 31 := by
      refine ⟨⟨31, rfl⟩, by decide, fun q hlo hhi => ?_⟩
      obtain rfl : q = 31 := by omega
      rw [NaiveAllocator.small_eq]
      decide +kernel
    obtain ⟨_, _, hok, -⟩ := hfit.serves hlast
    rw [hfatal] at hok
    cases hok
  · have hlast : Candidate (.small 0x7fffffffffffffff#64 64#64) 1#64 1#64 63 := by
      refine ⟨⟨63, rfl⟩, by decide, fun q hlo hhi => ?_⟩
      obtain rfl : q = 63 := by omega
      rw [NaiveAllocator.small_eq]
      decide +kernel
    obtain ⟨pfn, nalloc', hok, hcand⟩ := hfit.serves hlast
    rw [hok] at hgot
    obtain rfl : pfn = 32#64 := of_decide_eq_true hgot
    exact hcand.free 32 (Nat.le_refl 32) (by simp) htaken

end Mavmm
