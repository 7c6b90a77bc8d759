import Mavmm.Failure
import Mavmm.Lib.Word

/-!
# The memory map

The e820 map handed over by the boot loader, the page rounding macros of
page.h, and `get_max_pfn`.  Types are 32-bit words: the boot loader may report
any of them, and only `E820_RAM` is usable memory.
-/

namespace Mavmm

/-! ## Page rounding (page.h) -/

def pageShift : Nat := 12
def pageSize : Nat := 1 <<< pageShift

/-- `PAGE_UP`: up to the next 4 KB boundary, modulo `2 ^ 64`. -/
def pageUp (p : BitVec 64) : BitVec 64 := (p + 0xfff#64) &&& ~~~0xfff#64

/-- `PAGE_DOWN`. -/
def pageDown (p : BitVec 64) : BitVec 64 := p &&& ~~~0xfff#64

def pfnUp (x : BitVec 64) : BitVec 64 := (x + 0x1000#64 - 1#64) >>> pageShift
def pfnDown (x : BitVec 64) : BitVec 64 := x >>> pageShift

theorem toNat_pageDown (p : BitVec 64) : (pageDown p).toNat = p.toNat / 4096 * 4096 :=
  Bits.toNat_and_not_lowMask p 12 (by simp)

theorem toNat_pageUp (p : BitVec 64) :
    (pageUp p).toNat = (p.toNat + 4095) % 2 ^ 64 / 4096 * 4096 := by
  have h := Bits.toNat_and_not_lowMask (p + 0xfff#64) 12 (by simp)
  rwa [BitVec.toNat_add] at h

theorem toNat_pfnUp (x : BitVec 64) : (pfnUp x).toNat = (x.toNat + 4095) % 2 ^ 64 / 4096 := by
  unfold pfnUp pageShift
  bv_omega

theorem toNat_pfnDown (x : BitVec 64) : (pfnDown x).toNat = x.toNat / 4096 := by
  unfold pfnDown pageShift
  bv_omega

/-! ## The map (e820.h, e820.c) -/

abbrev E820Type := BitVec 32

def e820Ram : E820Type := 1
def e820Reserved : E820Type := 2
def e820Acpi : E820Type := 3
def e820Nvs : E820Type := 4

def e820MaxEntries : Nat := 128

structure E820Entry where
  addr : BitVec 64
  size : BitVec 64
  type : E820Type
deriving DecidableEq

/-- `struct e820_map`: at most `E820_MAX_ENTRIES` entries, `nr_map` of them in use. -/
structure E820Map where
  map : List E820Entry
  nrMap_le : map.length ≤ e820MaxEntries

/-- One turn of the loop of `get_max_pfn`. -/
def maxPfnStep (n : BitVec 64) (p : E820Entry) : BitVec 64 :=
  if p.type ≠ e820Ram then n
  else
    let start := pfnUp p.addr
    let stop := pfnDown (p.addr + p.size)
    if start < stop ∧ stop > n then stop else n

/-- `get_max_pfn`: one more than the last frame usable as RAM. -/
def getMaxPfn (e820 : E820Map) : BitVec 64 := e820.map.foldl maxPfnStep 0

/-- One turn of the loop of `get_nr_pages`. -/
def nrPagesStep (n : BitVec 64) (p : E820Entry) : BitVec 64 :=
  if p.type ≠ e820Ram then n else n + pfnDown p.size

def getNrPages (e820 : E820Map) : BitVec 64 := e820.map.foldl nrPagesStep 0

theorem le_maxPfnStep (n : BitVec 64) (p : E820Entry) : n ≤ maxPfnStep n p := by
  unfold maxPfnStep
  split
  · exact BitVec.le_refl n
  · dsimp only
    split
    · next h => exact BitVec.le_of_lt h.2
    · exact BitVec.le_refl n

theorem le_foldl_maxPfnStep (l : List E820Entry) :
    ∀ n : BitVec 64, n ≤ l.foldl maxPfnStep n := by
  induction l with
  | nil => exact fun n => BitVec.le_refl n
  | cons p l ih => exact fun n => BitVec.le_trans (le_maxPfnStep n p) (ih _)

theorem end_le_foldl_maxPfnStep {p : E820Entry} (hram : p.type = e820Ram)
    (h : pfnUp p.addr < pfnDown (p.addr + p.size)) :
    ∀ (l : List E820Entry), p ∈ l → ∀ n, pfnDown (p.addr + p.size) ≤ l.foldl maxPfnStep n := by
  intro l
  induction l with
  | nil => intro hp; cases hp
  | cons q l ih =>
    intro hp n
    rcases List.mem_cons.mp hp with rfl | hp
    · refine BitVec.le_trans ?_ (le_foldl_maxPfnStep l _)
      unfold maxPfnStep
      simp only [hram, ne_eq, not_true_eq_false, if_false]
      split
      · exact BitVec.le_refl _
      · next hn => simpa [h, BitVec.not_lt] using hn
    · exact ih hp _

/-- A RAM entry that holds a whole frame ends at or below `get_max_pfn`. -/
theorem end_le_getMaxPfn {e820 : E820Map} {p : E820Entry} (hp : p ∈ e820.map)
    (hram : p.type = e820Ram) (h : pfnUp p.addr < pfnDown (p.addr + p.size)) :
    pfnDown (p.addr + p.size) ≤ getMaxPfn e820 :=
  end_le_foldl_maxPfnStep hram h e820.map hp 0

theorem foldl_maxPfnStep_lt (l : List E820Entry) :
    ∀ n : BitVec 64, n.toNat < 2 ^ 52 → (l.foldl maxPfnStep n).toNat < 2 ^ 52 := by
  induction l with
  | nil => exact fun n h => h
  | cons p l ih =>
    intro n h
    apply ih
    unfold maxPfnStep
    split
    · exact h
    · dsimp only
      split
      · have := (p.addr + p.size).isLt
        rw [toNat_pfnDown]
        omega
      · exact h

theorem getMaxPfn_lt (e820 : E820Map) : (getMaxPfn e820).toNat < 2 ^ 52 :=
  foldl_maxPfnStep_lt e820.map 0 (by simp)

/-- `struct pmem_layout`, without its copy of the map. -/
structure PmemLayout where
  maxPage : BitVec 64
  totalPages : BitVec 64
  vmmPmemStart : BitVec 64
  vmmHeapStart : BitVec 64
  vmmPmemEnd : BitVec 64
deriving DecidableEq

end Mavmm
