import Mavmm.Alloc
import Mavmm.Lib.Memory

/-!
# Page tables of the monitor (page.c)

Allocation of tables and `mmap_pml4`, which maps 2 MB pages in a four-level
table.  Entries are 64-bit words; the fields of `union pgt_entry_2mb` are read
with `BitVec.extractLsb'` and written with `Bits.setField`.
-/

namespace Mavmm

/-- The memory of the machine and the host allocator. -/
structure Host where
  mem : Mem
  nalloc : NaiveAllocator

abbrev HostM := StateT Host (Except Fault)

/-! ## Shifts, levels and flags (page.h) -/

def pageShift2mb : Nat := 21
def pageSize2mb : BitVec 64 := 1#64 <<< pageShift2mb
def pageShift4mb : Nat := 22
def pageSize4mb : BitVec 64 := 1#64 <<< pageShift4mb

def pageUp2mb (p : BitVec 64) : BitVec 64 := (p + 0x1fffff#64) &&& ~~~0x1fffff#64
def pageDown2mb (p : BitVec 64) : BitVec 64 := p &&& ~~~0x1fffff#64

/-! `enum pg_table_level`, as the numbers the code counts down. -/

def pgtLevelPml4 : Nat := 4
def pgtLevelPdp : Nat := 3
def pgtLevelPd : Nat := 2
def pgtLevelPt : Nat := 1

def pttefPresent : Nat := 1 <<< 0
def pttefRw : Nat := 1 <<< 1
def pttefUs : Nat := 1 <<< 2
def pttefPageSize : Nat := 1 <<< 7

/-! ## Entries (`union pgt_entry_2mb`) -/

namespace PgtEntry2mb

def nonTermFlags (x : BitVec 64) : BitVec 12 := x.extractLsb' 0 12
def nonTermBase (x : BitVec 64) : BitVec 40 := x.extractLsb' 12 40
def termFlags (x : BitVec 64) : BitVec 21 := x.extractLsb' 0 21
def termBase (x : BitVec 64) : BitVec 31 := x.extractLsb' 21 31

def setNonTermFlags (x : BitVec 64) (v : BitVec 12) : BitVec 64 := Bits.setField x 0 v
def setNonTermBase (x : BitVec 64) (v : BitVec 40) : BitVec 64 := Bits.setField x 12 v
def setTermFlags (x : BitVec 64) (v : BitVec 21) : BitVec 64 := Bits.setField x 0 v
def setTermBase (x : BitVec 64) (v : BitVec 31) : BitVec 64 := Bits.setField x 21 v

end PgtEntry2mb

open PgtEntry2mb

def entry2mbIsPresent (x : BitVec 64) : Bool :=
  termFlags x &&& BitVec.ofNat 21 pttefPresent ≠ 0#21

/-! ## Tables -/

def pgTableAlloc : HostM (BitVec 64) := fun host => do
  let (pfn, nalloc) ← allocHostPages 1#64 1#64 host.nalloc
  let paddr := pfn <<< pageShift
  return (paddr, { mem := host.mem.fill paddr pageSize 0#8, nalloc })

def pml4TableAlloc : HostM (BitVec 64) := pgTableAlloc

def getIndexPae2mb (vaddr : BitVec 64) (level : Nat) : Except Fault (BitVec 64) := do
  let shift ←
    if level = pgtLevelPml4 then pure 39
    else if level = pgtLevelPdp then pure 30
    else if level = pgtLevelPd then pure 21
    else fatalFailure "get_index_pae2mb get_index_pae2mb wrong level\n"
  return (vaddr >>> shift) &&& 0x1ff#64

/-- The address of the entry that serves `vaddr` in a table. -/
def getEntry (pgTableBase vaddr : BitVec 64) (level : Nat) : Except Fault Addr := do
  return pgTableBase + (← getIndexPae2mb vaddr level) * 8#64

/-- A terminal entry, written field by field over `x`. -/
def writeTerm (x paddr : BitVec 64) (isUser : Bool) : BitVec 64 :=
  let x := setTermBase x ((paddr >>> pageShift2mb).setWidth 31)
  let x := setTermFlags x (BitVec.ofNat 21 (pttefPresent ||| pttefRw ||| pttefPageSize))
  if isUser then setTermFlags x (termFlags x ||| BitVec.ofNat 21 pttefUs) else x

/-- An entry that points to the table at `paddr`, written over `x`. -/
def writeNonTerm (x paddr : BitVec 64) : BitVec 64 :=
  let x := setNonTermBase x ((paddr >>> pageShift).setWidth 40)
  setNonTermFlags x (BitVec.ofNat 12 (pttefPresent ||| pttefRw ||| pttefUs))

/-- The table below an upper entry; an absent one is allocated and linked first. -/
def nextTable (entry : Addr) : HostM (BitVec 64) := do
  if ¬ entry2mbIsPresent ((← get).mem.load64 entry) then
    let paddr ← pgTableAlloc
    modify fun host =>
      { host with mem := host.mem.store64 entry (writeNonTerm (host.mem.load64 entry) paddr) }
  let x := (← get).mem.load64 entry
  -- the shift is done in the 40 bits of the field
  return (nonTermBase x <<< pageShift).setWidth 64

/-- `__mmap_2mb`. -/
def mmap2mb (vaddr paddr : BitVec 64) (isUser : Bool) :
    (level : Nat) → (pgTableBase : BitVec 64) → HostM Unit
  | 0, pgTableBase => do
    let _ ← getEntry pgTableBase vaddr 0
  | level + 1, pgTableBase => do
    let entry ← getEntry pgTableBase vaddr (level + 1)
    if level + 1 = pgtLevelPd then
      modify fun host =>
        { host with mem := host.mem.store64 entry (writeTerm (host.mem.load64 entry) paddr isUser) }
    else
      let next ← nextTable entry
      mmap2mb vaddr paddr isUser level next

def mmapPml4 (pml4TableBase vaddr paddr : BitVec 64) (isUser : Bool) : HostM Unit :=
  mmap2mb vaddr paddr isUser pgtLevelPml4 pml4TableBase

end Mavmm
