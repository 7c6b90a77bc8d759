import Mavmm.AllocSpec

/-!
# Ranges of frames in the bitmap

The word updates of `map_alloc` and `map_free` against updates frame by frame:
each changes the bits of its range and no others, and freeing a range undoes
allocating it when it was free before.
-/

namespace Mavmm

open Bitmap

/-- Frame `p` is one of the `nr` frames from `first` on. -/
def InRange (first nr : BitVec 64) (p : Nat) : Prop :=
  first.toNat ≤ p ∧ p < first.toNat + nr.toNat

/-- The frame behind the range is a frame number, and the bitmap has its word. -/
def HasEndWord (nalloc : NaiveAllocator) (first nr : BitVec 64) : Prop :=
  ∃ stop : BitVec 64, stop.toNat = first.toNat + nr.toNat ∧
    getAllocBitmapIdx stop < nalloc.allocBitmap.size

section
variable {nalloc : NaiveAllocator} {first nr : BitVec 64}

theorem HasEndWord.bounds (h : HasEndWord nalloc first nr) :
    first.toNat + nr.toNat < 2 ^ 64 ∧
      (first.toNat + nr.toNat) / 64 < nalloc.allocBitmap.size := by
  obtain ⟨stop, hstop, hidx⟩ := h
  rw [getAllocBitmapIdx_eq, hstop] at hidx
  exact ⟨hstop ▸ stop.isLt, hidx⟩

/-- Two allocators of one extent that agree on every frame are equal. -/
theorem NaiveAllocator.ext_taken {nalloc' : NaiveAllocator}
    (hsize : nalloc.allocBitmap.size = nalloc'.allocBitmap.size)
    (hmax : nalloc.maxPage = nalloc'.maxPage) (h : ∀ p, Taken nalloc p ↔ Taken nalloc' p) :
    nalloc = nalloc' := by
  obtain ⟨tbl, maxPage⟩ := nalloc
  obtain ⟨tbl', maxPage'⟩ := nalloc'
  obtain rfl : maxPage = maxPage' := hmax
  obtain rfl : tbl = tbl' := ext_member hsize fun p => Bool.eq_iff_iff.mpr (h p)
  rfl

/-- Freeing what was just allocated restores the bitmap. -/
theorem mapFree_mapAlloc (h : HasEndWord nalloc first nr)
    (hfree : ∀ p, InRange first nr p → ¬ Taken nalloc p) :
    ∃ mid, mapAlloc nalloc first nr = .ok mid ∧ mapFree mid first nr = .ok nalloc := by
  obtain ⟨hover, hend⟩ := h.bounds
  obtain ⟨mid, halloc, hsize, hmax, hmid⟩ := mapAlloc_spec hover hend
  obtain ⟨last, hlast, hsize', hmax', htaken⟩ := mapFree_spec hover (hsize ▸ hend)
  have hback : last = nalloc := by
    refine NaiveAllocator.ext_taken (hsize'.trans hsize) (hmax'.trans hmax) fun p => ?_
    constructor
    · intro hp
      obtain ⟨hout, hp⟩ := (htaken p).mp hp
      exact ((hmid p).mp hp).resolve_left hout
    · exact fun hp => (htaken p).mpr ⟨fun hin => hfree p hin hp, (hmid p).mpr (Or.inr hp)⟩
  exact ⟨mid, halloc, hback ▸ hlast⟩

/-- `map_alloc` takes exactly the frames of its range, `map_free` gives exactly these up, and on
a free range the second undoes the first. -/
theorem map_ranges_exact (h : HasEndWord nalloc first nr) :
    Leaves nalloc (mapAlloc nalloc first nr) (fun p => InRange first nr p ∨ Taken nalloc p) ∧
    Leaves nalloc (mapFree nalloc first nr) (fun p => ¬ InRange first nr p ∧ Taken nalloc p) ∧
    ((∀ p, InRange first nr p → ¬ Taken nalloc p) →
      ∃ mid, mapAlloc nalloc first nr = .ok mid ∧ mapFree mid first nr = .ok nalloc) := by
  obtain ⟨hover, hend⟩ := h.bounds
  exact ⟨mapAlloc_spec hover hend, mapFree_spec hover hend, mapFree_mapAlloc h⟩

/-- Four frames across the boundary of the first two words. -/
theorem map_ranges_exact_crossing :
    ∃ mid, mapAlloc ⟨#[0#64, 0#64], 128#64⟩ 62#64 4#64 = .ok mid ∧
      Taken mid 63 ∧ Taken mid 65 ∧ ¬ Taken mid 66 ∧
      mapFree mid 62#64 4#64 = .ok ⟨#[0#64, 0#64], 128#64⟩ := by
  have hword : HasEndWord ⟨#[0#64, 0#64], 128#64⟩ 62#64 4#64 := ⟨66#64, rfl, by decide⟩
  obtain ⟨-, -, hrestore⟩ := map_ranges_exact hword
  have hfree : ∀ p, InRange 62#64 4#64 p → ¬ Taken ⟨#[0#64, 0#64], 128#64⟩ p := by
    rintro p ⟨hlo, hhi⟩
    obtain rfl | rfl | rfl | rfl : p = 62 ∨ p = 63 ∨ p = 64 ∨ p = 65 := by
      simp only [BitVec.toNat_ofNat] at hlo hhi
      omega
    all_goals decide
  obtain ⟨mid, halloc, hback⟩ := hrestore hfree
  refine ⟨mid, halloc, ?_, ?_, ?_, hback⟩ <;> cases halloc <;> decide

end

end Mavmm
