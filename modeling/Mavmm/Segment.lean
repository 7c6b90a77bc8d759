import Mavmm.GuestPaging

/-!
# Logical addresses of the guest (segment.c, intercept.c)

A selector and an offset give a linear address: in real mode by shifting the
selector, in protected mode through the descriptor that the guest's descriptor
table holds for it.  The table is itself found through the guest's page
tables.  `glogic_2_hphysic` goes on to the physical address, which the monitor
uses as its own address.
-/

namespace Mavmm

/-- What a translation reads: the control registers, the base of the descriptor table, and
the memory. -/
structure AddressSpace where
  cr0 : BitVec 64
  cr3 : BitVec 64
  cr4 : BitVec 64
  gdtrBase : BitVec 64
  mem : Mem

/-- The base address in a segment descriptor, from its three parts. -/
def segBaseaddr (segDescriptor : BitVec 64) : BitVec 32 :=
  let base1 := segDescriptor.extractLsb' 16 16
  let base2 := segDescriptor.extractLsb' 32 8
  let base3 := segDescriptor.extractLsb' 56 8
  base1.setWidth 32 + base2.setWidth 32 <<< 16 + base3.setWidth 32 <<< 24

/-- `glogic_2_glinear`. -/
def glogic2Glinear (as : AddressSpace) (segSelect : BitVec 16) (offset : BitVec 64) :
    Except Fault (BitVec 64) :=
  if as.cr0 &&& x86Cr0Pe = 0#64 then
    let realmodeOffset := offset &&& 0xffff#64
    .ok (segSelect.setWidth 64 * 0x10#64 + realmodeOffset)
  else if segSelect = 0#16 then .ok offset
  else if as.cr4 &&& x86Cr4Pae ≠ 0#64 then
    fatalFailure "Converting address in 2mb PAE paging mode not supported yet!"
  else do
    let gdtentryLinearaddr := as.gdtrBase + 8#64 * (segSelect >>> 3).setWidth 64
    let gdtentryPhysaddr ←
      if as.cr0 &&& x86Cr0Pg = 0#64 then pure gdtentryLinearaddr
      else if as.cr4 &&& x86Cr4Pse = 0#64 then
        linear2physicalLegacy4kb as.mem as.cr3 gdtentryLinearaddr
      else linear2physicalLegacy4mb as.mem as.cr3 gdtentryLinearaddr
    let segDescriptor := as.mem.load64 gdtentryPhysaddr
    return (segBaseaddr segDescriptor).setWidth 64 + offset

/-- The address of the descriptor that `glogic_2_glinear` reads, if it reads one. -/
def gdtentryRead (as : AddressSpace) (segSelect : BitVec 16) : Option Addr :=
  if as.cr0 &&& x86Cr0Pe = 0#64 ∨ segSelect = 0#16 ∨ as.cr4 &&& x86Cr4Pae ≠ 0#64 then none
  else
    let gdtentryLinearaddr := as.gdtrBase + 8#64 * (segSelect >>> 3).setWidth 64
    let gdtentryPhysaddr :=
      if as.cr0 &&& x86Cr0Pg = 0#64 then .ok gdtentryLinearaddr
      else if as.cr4 &&& x86Cr4Pse = 0#64 then
        linear2physicalLegacy4kb as.mem as.cr3 gdtentryLinearaddr
      else linear2physicalLegacy4mb as.mem as.cr3 gdtentryLinearaddr
    gdtentryPhysaddr.toOption

/-- `glogic_2_hphysic`. -/
def glogic2Hphysic (as : AddressSpace) (segSelect : BitVec 16) (offset : BitVec 64) :
    Except Fault Addr := do
  let glinear ← glogic2Glinear as segSelect offset
  linear2Physical as.mem as.cr0 as.cr3 as.cr4 glinear

/-- An address that some selector and offset translate to. -/
def Translated (as : AddressSpace) (p : Addr) : Prop :=
  ∃ sel off, glogic2Hphysic as sel off = .ok p

end Mavmm
