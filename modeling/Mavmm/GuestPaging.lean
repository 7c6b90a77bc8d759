import Mavmm.Lib.Memory
import Mavmm.Lib.Word
import Mavmm.Page

/-!
# Translation of guest addresses (page.c)

`linear_2_physical` and the two walkers it calls, for 4 KB and for 4 MB pages.
A frame number is shifted as an `int`, so that a base from 2 GB on is
sign-extended when it becomes a 64-bit address.
-/

namespace Mavmm

def x86Cr0Pe : BitVec 64 := 0x1#64
def x86Cr0Pg : BitVec 64 := 0x80000000#64
def x86Cr4Pse : BitVec 64 := 0x10#64
def x86Cr4Pae : BitVec 64 := 0x20#64

/-! ## Entries (`union pgt_entry_4kb`, `struct pd4M_entry`) -/

namespace PgtEntry4kb

def pteFlags (e : BitVec 32) : BitVec 12 := e.extractLsb' 0 12
def pteBase (e : BitVec 32) : BitVec 20 := e.extractLsb' 12 20

end PgtEntry4kb

namespace Pd4mEntry

def flags (e : BitVec 32) : BitVec 13 := e.extractLsb' 0 13
def basehigh (e : BitVec 32) : BitVec 8 := e.extractLsb' 13 8
def baselow (e : BitVec 32) : BitVec 10 := e.extractLsb' 22 10

end Pd4mEntry

def entry4kbIsPresent (e : BitVec 32) : Bool :=
  PgtEntry4kb.pteFlags e &&& BitVec.ofNat 12 pttefPresent ≠ 0#12

def entry4mbIsPresent (e : BitVec 32) : Bool :=
  Pd4mEntry.flags e &&& BitVec.ofNat 13 pttefPresent ≠ 0#13

/-- A field of an entry shifted as an `int` and converted to `unsigned long`. -/
def shiftInt {n : Nat} (x : BitVec n) (s : Nat) : BitVec 64 := (x.setWidth 32 <<< s).signExtend 64

/-! ## Walkers -/

def getIndex4kb (vaddr : BitVec 64) (level : Nat) : Except Fault (BitVec 64) := do
  let shift ←
    if level = pgtLevelPd then pure 22
    else if level = pgtLevelPt then pure 12
    else fatalFailure "get_index_4kb wrong level\n"
  return (vaddr >>> shift) &&& 0x3ff#64

/-- `___linear2physical_legacy4kb`, where `next` walks the table the entry points to. -/
def linear2physicalEntry4kb (next : BitVec 64 → Except Fault (BitVec 64)) (e : BitVec 32)
    (linearaddr : BitVec 64) (level : Nat) : Except Fault (BitVec 64) :=
  let base := shiftInt (PgtEntry4kb.pteBase e) 12
  if level = pgtLevelPt then .ok (base + (linearaddr &&& 0xfff#64)) else next base

/-- `__linear2physical_legacy4kb`. -/
def linear2physicalTable4kb (m : Mem) (linearaddr : BitVec 64) :
    (level : Nat) → (tableBase : BitVec 64) → Except Fault (BitVec 64)
  | 0, _ => fatalFailure "get_index_4kb wrong level\n"
  | level + 1, tableBase => do
    let e := m.load32 (tableBase + (← getIndex4kb linearaddr (level + 1)) * 4#64)
    if ¬ entry4kbIsPresent e then return -1#64
    linear2physicalEntry4kb (linear2physicalTable4kb m linearaddr level) e linearaddr (level + 1)

def linear2physicalLegacy4kb (m : Mem) (tableBase linearaddr : BitVec 64) :
    Except Fault (BitVec 64) :=
  linear2physicalTable4kb m linearaddr pgtLevelPd tableBase

def linear2physicalLegacy4mb (m : Mem) (tableBase linearaddr : BitVec 64) :
    Except Fault (BitVec 64) :=
  let e := m.load32 (tableBase + (linearaddr >>> 22) * 4#64)
  if Pd4mEntry.flags e &&& BitVec.ofNat 13 pttefPageSize ≠ 0#13 then
    if ¬ entry4mbIsPresent e then .ok (-1#64)
    else .ok (shiftInt (Pd4mEntry.baselow e) 22 + (linearaddr &&& 0x3fffff#64))
  else
    -- the present bit of this entry is not looked at
    linear2physicalEntry4kb (linear2physicalTable4kb m linearaddr pgtLevelPt) e linearaddr
      pgtLevelPd

def linear2Physical (m : Mem) (cr0 cr3 cr4 guestLinear : BitVec 64) : Except Fault (BitVec 64) :=
  if cr0 &&& x86Cr0Pe = 0#64 then .ok guestLinear
  else if cr4 &&& x86Cr4Pae ≠ 0#64 then
    fatalFailure "Converting address in 2mb PAE paging mode not supported yet!"
  else if cr0 &&& x86Cr0Pg = 0#64 then .ok guestLinear
  else if cr4 &&& x86Cr4Pse = 0#64 then linear2physicalLegacy4kb m cr3 guestLinear
  else linear2physicalLegacy4mb m cr3 guestLinear

end Mavmm
