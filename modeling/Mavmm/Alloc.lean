import Mavmm.E820
import Mavmm.Lib.Bitmap

/-!
# The naive page allocator (alloc.c)

One bit for each 4 KB frame, set when the frame is taken.  The bitmap is the
array of the 64-bit words that `naive_memmap_init` reserves for it, so an
access to any other word is the fault `outOfBounds`.
-/

namespace Mavmm

open Bitmap

/-- `struct naive_allocator`. -/
structure NaiveAllocator where
  allocBitmap : Array (BitVec 64)
  maxPage : BitVec 64
deriving DecidableEq

def allocBitmapShift : Nat := 6

def getAllocBitmapIdx (pfn : BitVec 64) : Nat := (pfn >>> allocBitmapShift).toNat
def getAllocBitmapOffset (pfn : BitVec 64) : Nat := (pfn &&& 63#64).toNat

/-! ## Words of the bitmap -/

def readWord (tbl : Array (BitVec 64)) (i : Nat) : Except Fault (BitVec 64) :=
  if h : i < tbl.size then .ok tbl[i] else .error .outOfBounds

/-- `tbl [i] = f (tbl [i])`. -/
def modifyWord (tbl : Array (BitVec 64)) (i : Nat) (f : BitVec 64 → BitVec 64) :
    Except Fault (Array (BitVec 64)) :=
  if h : i < tbl.size then .ok (tbl.set i (f tbl[i]) h) else .error .outOfBounds

/-- The loops over the middle words: `tbl [i] = v` for `n` words from `i` on. -/
def assignWords (tbl : Array (BitVec 64)) (v : BitVec 64) (n i : Nat) :
    Except Fault (Array (BitVec 64)) :=
  if n = 0 ∨ i + n ≤ tbl.size then .ok (setWords tbl v n i) else .error .outOfBounds

/-- The result is an `int`: only the low half of the masked word reaches the caller. -/
def allocatedInMap (nalloc : NaiveAllocator) (pfn : BitVec 64) : Except Fault (BitVec 32) := do
  let word ← readWord nalloc.allocBitmap (getAllocBitmapIdx pfn)
  return (word &&& (1#64 <<< getAllocBitmapOffset pfn)).setWidth 32

/-! ## Marking a range of frames -/

/-- The common shape of `map_alloc` and `map_free`: `within` updates a range
inside one word, `head` and `tail` the edge words of a longer one, and the words
between are overwritten with `middle`. -/
def mapRange (within : (startOff endOff : Nat) → BitVec 64 → BitVec 64)
    (head tail : Nat → BitVec 64 → BitVec 64) (middle : BitVec 64)
    (nalloc : NaiveAllocator) (firstPage nrPages : BitVec 64) : Except Fault NaiveAllocator := do
  let currIdx := getAllocBitmapIdx firstPage
  let startOff := getAllocBitmapOffset firstPage
  let endIdx := getAllocBitmapIdx (firstPage + nrPages)
  let endOff := getAllocBitmapOffset (firstPage + nrPages)
  if currIdx = endIdx then
    let tbl ← modifyWord nalloc.allocBitmap currIdx (within startOff endOff)
    return { nalloc with allocBitmap := tbl }
  else
    let tbl ← modifyWord nalloc.allocBitmap currIdx (head startOff)
    let tbl ← assignWords tbl middle (endIdx - (currIdx + 1)) (currIdx + 1)
    -- the loop leaves `curr_idx` at the end word, or one past the start word
    let tbl ← modifyWord tbl (max endIdx (currIdx + 1)) (tail endOff)
    return { nalloc with allocBitmap := tbl }

def mapAlloc : NaiveAllocator → BitVec 64 → BitVec 64 → Except Fault NaiveAllocator :=
  mapRange
    (fun startOff endOff word =>
      word ||| (((1#64 <<< endOff) - 1#64) &&& -(1#64 <<< startOff)))
    (fun startOff word => word ||| -(1#64 <<< startOff))
    (fun endOff word => word ||| ((1#64 <<< endOff) - 1#64))
    (BitVec.allOnes 64)

def mapFree : NaiveAllocator → BitVec 64 → BitVec 64 → Except Fault NaiveAllocator :=
  mapRange
    (fun startOff endOff word =>
      word &&& (-(1#64 <<< endOff) ||| ((1#64 <<< startOff) - 1#64)))
    (fun startOff word => word &&& ((1#64 <<< startOff) - 1#64))
    (fun endOff word => word &&& -(1#64 <<< endOff))
    0#64

/-! ## Initialisation -/

def freeAllocBitmapRegion (nalloc : NaiveAllocator) (lo hi : BitVec 64) :
    Except Fault NaiveAllocator :=
  let start := pageUp lo
  let stop := pageDown hi
  if stop ≤ start then .ok nalloc
  else mapFree nalloc (start >>> pageShift) ((stop - start) >>> pageShift)

/-- One turn of the loop of `init_host_alloc_bitmap`. -/
def initHostAllocEntry (pml : PmemLayout) (nalloc : NaiveAllocator) (p : E820Entry) :
    Except Fault NaiveAllocator :=
  if p.type ≠ e820Ram then .ok nalloc
  else
    let start := p.addr
    let stop := start + p.size
    if stop < pml.vmmHeapStart then .ok nalloc
    else if start > pml.vmmPmemEnd then .ok nalloc
    else
      let start := if start < pml.vmmHeapStart then pml.vmmHeapStart else start
      let stop := if stop > pml.vmmPmemEnd then pml.vmmPmemEnd else stop
      freeAllocBitmapRegion nalloc start stop

def initHostAllocBitmap (e820 : E820Map) (pml : PmemLayout) (nalloc : NaiveAllocator) :
    Except Fault NaiveAllocator :=
  e820.map.foldlM (initHostAllocEntry pml) nalloc

/-- Where the bitmap starts, right after the image of the monitor. -/
def hostAbStart : BitVec 64 := pageUp 0x8100000#64

/-- `mapsize_rounded`: the bytes reserved for the bitmap. -/
def mapsizeRounded (maxPage : BitVec 64) : BitVec 64 := pageUp (maxPage / 8#64 + 8#64)

def naiveMemmapInit (e820 : E820Map) (pml : PmemLayout) :
    Except Fault (PmemLayout × NaiveAllocator) := do
  let pml := { pml with vmmHeapStart := hostAbStart + mapsizeRounded pml.maxPage }
  if pml.vmmHeapStart ≥ pml.vmmPmemEnd then
    fatalFailure "No space left for VMM heap.\n"
  let nalloc : NaiveAllocator :=
    { allocBitmap :=
        Array.replicate ((mapsizeRounded pml.maxPage).toNat / 8) (BitVec.allOnes 64)
      maxPage := pml.maxPage }
  let nalloc ← initHostAllocBitmap e820 pml nalloc
  return (pml, nalloc)

def defaultVmmPmemSize : BitVec 64 := 1#64 <<< 24
def defaultVmmPmemStart : BitVec 64 := 1#64 <<< 27

/-- The layout `setup_memory` (setup.c) fills in from the map of the boot loader. -/
def bootLayout (e820 : E820Map) (vmmPmemSize : BitVec 64) : PmemLayout where
  totalPages := getNrPages e820
  maxPage := getMaxPfn e820
  vmmPmemStart := defaultVmmPmemStart
  vmmPmemEnd := defaultVmmPmemStart + vmmPmemSize - 1#64
  -- written by `naive_memmap_init` before it is read
  vmmHeapStart := 0#64

def setupMemory (e820 : E820Map) (vmmPmemSize : BitVec 64) :
    Except Fault (PmemLayout × NaiveAllocator) :=
  naiveMemmapInit e820 (bootLayout e820 vmmPmemSize)

/-! ## Allocation -/

/-- The loop of `is_free_contiguous_region` over the `n` frames from `pfn` on. -/
def isFreeContiguousRegion (nalloc : NaiveAllocator) : (n : Nat) → BitVec 64 → Except Fault Bool
  | 0, _ => .ok true
  | n + 1, pfn => do
    if (← allocatedInMap nalloc pfn) ≠ 0#32 then return false
    isFreeContiguousRegion nalloc n (pfn + 1#64)

/-- The loop of `alloc_pages`, with at most `fuel` turns. -/
def allocPagesLoop (nalloc : NaiveAllocator) (nrPfns pfnAlign : BitVec 64) :
    (fuel : Nat) → BitVec 64 → Except Fault (BitVec 64 × NaiveAllocator)
  | 0, _ => .error .diverges
  | fuel + 1, i => do
    if i + nrPfns < nalloc.maxPage then
      if ← isFreeContiguousRegion nalloc nrPfns.toNat i then
        let nalloc ← mapAlloc nalloc i nrPfns
        return (i, nalloc)
      allocPagesLoop nalloc nrPfns pfnAlign fuel (i + pfnAlign)
    else
      fatalFailure "alloc_pages failed\n"

/-- `alloc_pages`.  The position is a 64-bit word: a search of more than `2 ^ 64`
turns repeats itself and never ends. -/
def allocPages (nrPfns pfnAlign : BitVec 64) (nalloc : NaiveAllocator) :
    Except Fault (BitVec 64 × NaiveAllocator) :=
  allocPagesLoop nalloc nrPfns pfnAlign (2 ^ 64) 0#64

/-- `alloc_host_pages`, acting on the host allocator. -/
def allocHostPages (nrPfns pfnAlign : BitVec 64) :
    StateT NaiveAllocator (Except Fault) (BitVec 64) :=
  fun nalloc => allocPages nrPfns pfnAlign nalloc

end Mavmm
