import Mavmm.E820
import Mavmm.Lib.Exec
import Mavmm.Lib.Memory

/-!
# The memory map of the boot loader (multiboot.h, e820.c)

`setup_memory_region` copies the map into the e820 map, and `hide_memory` takes
a region out of it, in place.  An entry is six words, the first of which is the
size of the rest: the next entry begins after it.  Both walk from entry to
entry, one with a 64-bit cursor, the other with a 32-bit one.

Output is left out.  `hide_memory` prints and stores `newstart` and `newend`
also where it has not set them, so the values these locals have are arguments,
one pair a turn.
-/

namespace Mavmm

/-- `struct multiboot_info`, the fields that are read. -/
structure MultibootInfo where
  flags : BitVec 32
  mmapLength : BitVec 32
  mmapAddr : BitVec 32

def mbiMemmap : BitVec 32 := 1#32 <<< 6

/-- `(struct memory_map *) (mmap_addr + offset)`. -/
def MultibootInfo.entry (mbi : MultibootInfo) (offset : BitVec 64) : Addr :=
  mbi.mmapAddr.setWidth 64 + offset

/-! ## Entries -/

/-- The words of `struct memory_map`. -/
inductive MmapField where
  | size
  | baseAddrLow
  | baseAddrHigh
  | lengthLow
  | lengthHigh
  | type
deriving DecidableEq

def MmapField.offset : MmapField → Nat
  | .size => 0
  | .baseAddrLow => 4
  | .baseAddrHigh => 8
  | .lengthLow => 12
  | .lengthHigh => 16
  | .type => 20

def sizeofMemoryMap : Nat := 24

def MmapField.addr (f : MmapField) (mmap : Addr) : Addr := mmap + BitVec.ofNat 64 f.offset

def loadField (m : Mem) (mmap : Addr) (f : MmapField) : BitVec 32 := m.load32 (f.addr mmap)

def storeField (m : Mem) (mmap : Addr) (f : MmapField) (v : BitVec 32) : Mem :=
  m.store32 (f.addr mmap) v

/-- A number split in two words. -/
def joinWords (high low : BitVec 32) : BitVec 64 := high.setWidth 64 <<< 32 ||| low.setWidth 64

def highWord (x : BitVec 64) : BitVec 32 := (x >>> 32).setWidth 32
def lowWord (x : BitVec 64) : BitVec 32 := x.setWidth 32

inductive MapEvent where
  /-- An entry is looked at. -/
  | visit (mmap : Addr)
  /-- A word of the map is read. -/
  | read (mmap : Addr) (f : MmapField)
  /-- An entry of the e820 map is written. -/
  | store (index : Nat)
deriving DecidableEq

/-! ## `setup_memory_region` -/

abbrev Setup := Probe Fault MapEvent Mem

def readField (mmap : Addr) (f : MmapField) : Setup (BitVec 32) := do
  Probe.log [.read mmap f]
  Probe.read fun m => loadField m mmap f

/-- `start`, `size` and the type of an entry. -/
def readEntry (mmap : Addr) : Setup E820Entry := do
  let baseAddrHigh ← readField mmap .baseAddrHigh
  let baseAddrLow ← readField mmap .baseAddrLow
  let lengthHigh ← readField mmap .lengthHigh
  let lengthLow ← readField mmap .lengthLow
  let type ← readField mmap .type
  return ⟨joinWords baseAddrHigh baseAddrLow, joinWords lengthHigh lengthLow, type⟩

/-- `add_memory_region`. -/
def addMemoryRegion (e820 : E820Map) (start size : BitVec 64) (type : E820Type) : Setup E820Map :=
  if h : e820.map.length ≥ e820MaxEntries then
    Probe.ofExcept fun _ => fatalFailure "Too many entries in the memory map.\n"
  else do
    Probe.log [.store e820.map.length]
    pure ⟨e820.map ++ [⟨start, size, type⟩], by
      rw [List.length_append, List.length_singleton]
      exact Nat.lt_of_not_le h⟩

/-- The loop over the entries; the cursor is 64 bits wide. -/
def setupLoop (mbi : MultibootInfo) : (fuel : Nat) → (p : BitVec 64) → E820Map → Setup E820Map
  | 0, _, _ => Probe.ofExcept fun _ => .error .diverges
  | fuel + 1, p, e820 =>
    if p < mbi.mmapLength.setWidth 64 then do
      let mmap := mbi.entry p
      Probe.log [.visit mmap]
      let entry ← readEntry mmap
      let e820 ← addMemoryRegion e820 entry.addr entry.size entry.type
      let size ← readField mmap .size
      setupLoop mbi fuel (p + (size.setWidth 64 + 4#64)) e820
    else pure e820

/-- `setup_memory_region`.  The cursor grows on every turn, so it makes no more turns than the
map has bytes. -/
def setupMemoryRegion (mbi : MultibootInfo) : Setup E820Map :=
  if mbi.flags &&& mbiMemmap = 0#32 then
    Probe.ofExcept fun _ => fatalFailure "Bootloader provided no memory information.\n"
  else setupLoop mbi (mbi.mmapLength.toNat + 1) 0#64 ⟨[], Nat.zero_le _⟩

/-! ## `hide_memory` -/

/-- The map, and the second part of a split entry that waits for a reserved entry. -/
structure HideState where
  mem : Mem
  replaceStart : BitVec 64
  replaceSize : BitVec 64

/-- What the locals that are not initialised contain: `replace_start`, and at the start of each
turn `newstart` and `newend`. -/
structure Indeterminate where
  replaceStart : BitVec 64
  newstart : Nat → BitVec 64
  newend : Nat → BitVec 64

def storeBase (m : Mem) (mmap : Addr) (start : BitVec 64) : Mem :=
  storeField (storeField m mmap .baseAddrLow (lowWord start)) mmap .baseAddrHigh (highWord start)

def storeLength (m : Mem) (mmap : Addr) (size : BitVec 64) : Mem :=
  storeField (storeField m mmap .lengthLow (lowWord size)) mmap .lengthHigh (highWord size)

def entryStart (m : Mem) (mmap : Addr) : BitVec 64 :=
  joinWords (loadField m mmap .baseAddrHigh) (loadField m mmap .baseAddrLow)

def entrySize (m : Mem) (mmap : Addr) : BitVec 64 :=
  joinWords (loadField m mmap .lengthHigh) (loadField m mmap .lengthLow)

/-- What an entry of the map says. -/
def entryAt (m : Mem) (mmap : Addr) : E820Entry where
  addr := entryStart m mmap
  size := entrySize m mmap
  type := loadField m mmap .type

/-- The waiting part replaces a reserved entry. -/
def replaceEntry (mmap : Addr) (s : HideState) : HideState where
  mem := storeLength (storeBase (storeField s.mem mmap .type e820Ram) mmap s.replaceStart) mmap
    s.replaceSize
  replaceStart := s.replaceStart
  replaceSize := 0#64

/-- An entry of usable memory; `newstart` and `newend` are what these locals contain. -/
def hideRam (hidestart hideend newstart newend : BitVec 64) (mmap : Addr) (s : HideState) :
    HideState :=
  let start := entryStart s.mem mmap
  let stop := start + entrySize s.mem mmap
  if start < hidestart ∧ stop > hideend then
    -- the first part stays here, the second part waits
    { mem := storeLength s.mem mmap (hidestart - start)
      replaceStart := hideend + 1#64
      replaceSize := stop - (hideend + 1#64) }
  else
    let startsIn := start ≥ hidestart ∧ start ≤ hideend
    let endsIn := stop ≥ hidestart ∧ stop ≤ hideend
    let newstart := if startsIn then hideend + 1#64 else newstart
    let newend := if endsIn then hidestart - 1#64 else newend
    if ¬ startsIn ∧ ¬ endsIn then s
    else if stop > start then
      { s with mem := storeLength (storeBase s.mem mmap newstart) mmap (newend - newstart) }
    else { s with mem := storeField s.mem mmap .type e820Reserved }

/-- One turn of the loop. -/
def hideEntry (hidestart hideend newstart newend : BitVec 64) (mmap : Addr) (s : HideState) :
    HideState :=
  let type := loadField s.mem mmap .type
  if type ≠ e820Ram then
    if s.replaceSize ≠ 0#64 ∧ type = e820Reserved then replaceEntry mmap s else s
  else hideRam hidestart hideend newstart newend mmap s

abbrev Hide := Exec Fault MapEvent HideState

/-- The loop over the entries from the turn on; the cursor is 32 bits wide. -/
def hideLoop (mbi : MultibootInfo) (hidestart hideend : BitVec 64) (locals : Indeterminate) :
    (fuel turn : Nat) → (offset : BitVec 32) → Hide Unit
  | 0, _, _ => Exec.probe (Probe.ofExcept fun _ => .error .diverges)
  | fuel + 1, turn, offset =>
    Exec.when (offset < mbi.mmapLength) do
      let mmap := mbi.entry (offset.setWidth 64)
      Exec.probe (Probe.log [.visit mmap])
      let size ← Exec.probe (Probe.read fun s => loadField s.mem mmap .size)
      Exec.modify (hideEntry hidestart hideend (locals.newstart turn) (locals.newend turn) mmap)
      hideLoop mbi hidestart hideend locals fuel (turn + 1) (offset + (size + 4#32))

/-- The first state of `hide_memory`. -/
def hideStart (locals : Indeterminate) (m : Mem) : HideState where
  mem := m
  replaceStart := locals.replaceStart
  replaceSize := 0#64

/-- `hide_memory`, `fuel` turns at most. -/
def hideMemory (mbi : MultibootInfo) (hidestart length : BitVec 64) (locals : Indeterminate)
    (fuel : Nat) : Hide Unit :=
  hideLoop mbi hidestart (hidestart + length - 1#64) locals fuel 0 0#32

end Mavmm
