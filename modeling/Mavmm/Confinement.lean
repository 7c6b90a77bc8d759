import Mavmm.ExitAccesses
import Mavmm.ExitEvents
import Mavmm.GuestReach

/-!
# Accesses on behalf of the guest

The nested page table hides the monitor's memory from the guest, but the
handlers use what they translate for the guest as addresses of their own and
look at no bound.  An exit stays out of that memory exactly when every pointer
it follows leads to bytes, and to a string up to its terminator, outside it, and
so do the words of the page directory it rewrites (`exits_confined_iff`).

What the guest's page tables can make of this is told by the pointers alone:
no exit in an address space follows a pointer into that memory exactly when the
registers and page tables lead to no address there (`pointers_confined_iff`).
-/

namespace Mavmm

/-- The addresses that an access through a pointer reads. -/
def Extent.Reads (mem : Mem) (p : Addr) : Extent → Addr → Prop
  | .bytes off len, a => ∃ k < len, a = p + BitVec.ofNat 64 (off + k)
  | .string off, a => ∃ k, (∀ j < k, mem (p + BitVec.ofNat 64 (off + j)) ≠ 0#8) ∧
    a = p + BitVec.ofNat 64 (off + k)

section
variable (vmmPmemStart vmmPmemSize : BitVec 64)

/-- The memory of the monitor, which the nested page table hides. -/
def InMonitor (a : Addr) : Prop :=
  vmmPmemStart.toNat ≤ a.toNat ∧ a.toNat < vmmPmemStart.toNat + vmmPmemSize.toNat

/-- A word of a page directory that does not meet the monitor's memory. -/
def WordOutside (a : Addr) : Prop :=
  ∀ k < 4, ¬ InMonitor vmmPmemStart vmmPmemSize (a + BitVec.ofNat 64 k)

/-- The rule to stay out of the monitor's memory. -/
def outside (mem : Mem) : AccessRule where
  deref p x := ∀ a, x.Reads mem p a → ¬ InMonitor vmmPmemStart vmmPmemSize a
  descriptor _ := True
  dirWord a := WordOutside vmmPmemStart vmmPmemSize a

/-- The rule to follow no pointer into the monitor's memory. -/
def pointersOutside : AccessRule where
  deref p _ := ¬ InMonitor vmmPmemStart vmmPmemSize p
  descriptor _ := True
  dirWord a := WordOutside vmmPmemStart vmmPmemSize a

/-- No address of a file name that waits for its call to return is in the monitor's memory. -/
def RecordedOutside (vm : VmInfo) : Prop :=
  ∀ x ∈ vm.syscallmap, ∀ p, x.info = .opened p → ¬ InMonitor vmmPmemStart vmmPmemSize p

/-- The guest's registers and page tables lead to no address in the monitor's memory, and no
word of its page directory meets it. -/
structure SpaceOutside (as : AddressSpace) : Prop where
  reached : ∀ p, as.Reached p → ¬ InMonitor vmmPmemStart vmmPmemSize p
  directory : ∀ index < 1024, WordOutside vmmPmemStart vmmPmemSize (directoryWord as.cr3 index)

end

section
variable {vmmPmemStart vmmPmemSize : BitVec 64} {m : Machine}

/-! ## The accesses of an exit -/

theorem opened_of_waiting {vm : VmInfo} {tid : BitVec 32} {info : SyscallInfo}
    (h : vm.waitingSyscall tid = some info) : ∃ x ∈ vm.syscallmap, x.info = info := by
  obtain ⟨x, hfind, hx⟩ := Option.map_eq_some_iff.mp h
  exact ⟨x, (FlatTable.mem_of_find hfind).1, hx⟩

theorem Allowed.pointersOutside {e : Event} (h : Allowed m e)
    (has : SpaceOutside vmmPmemStart vmmPmemSize m.space)
    (hrec : RecordedOutside vmmPmemStart vmmPmemSize m.vm) :
    (pointersOutside vmmPmemStart vmmPmemSize).Holds e := by
  cases e with
  | deref p x =>
    rcases h with hp | ⟨tid, htid⟩
    · exact has.reached p (translated_reached hp)
    · obtain ⟨x, hx, hinfo⟩ := opened_of_waiting htid
      exact hrec x hx p hinfo
  | descriptor p => trivial
  | dirWord a =>
    obtain ⟨index, hindex, rfl⟩ := h
    exact has.directory index hindex
  | slot page off len => trivial
  | fname id name => trivial
  | out fmt args => trivial

/-- A recorded address is one that an `open` has looked at, at this exit or before. -/
theorem Handled.recorded {P : Addr → Prop} {vm : VmInfo} {c : Control} (h : Handled m vm c)
    (hopen : ∀ p, (regDs GuestRegs.rbx).Returns m p → p ≠ -1#64 → P p)
    (hrec : ∀ x ∈ m.vm.syscallmap, ∀ p, x.info = .opened p → P p) :
    ∀ x ∈ vm.syscallmap, ∀ p, x.info = .opened p → P p := by
  cases h with
  | syscall hexit hvector hnew =>
    intro x hx p hp
    rcases List.mem_append.mp hx with hx | hx
    · exact hrec x hx p hp
    cases hnew with
    | own hinfo htid =>
      rw [List.mem_singleton.mp hx] at hp
      cases hinfo with
      | read => cases hp
      | opened hnr hreg hne =>
        cases hp
        exact hopen p hreg hne
      | recvfrom => cases hp
    | other hnone hempty htid =>
      rw [List.mem_singleton.mp hx] at hp
      cases hp
    | none => cases hx
  | iret hexit htables =>
    cases htables with
    | idle => exact hrec
    | unmatched => exact hrec
    | matched => exact fun x hx => hrec x (FlatTable.remove_sublist.mem hx)
  | quiet => exact hrec
  | debug => exact hrec
  | unpack => exact hrec
  | cr3Write => exact hrec
  | popf => exact hrec
  | enable => exact hrec
  | disable => exact hrec

/-- The recorded addresses stay out of the monitor's memory. -/
theorem Handled.recordedOutside {vm : VmInfo} {c : Control} (h : Handled m vm c)
    (has : SpaceOutside vmmPmemStart vmmPmemSize m.space)
    (hrec : RecordedOutside vmmPmemStart vmmPmemSize m.vm) :
    RecordedOutside vmmPmemStart vmmPmemSize vm :=
  h.recorded (fun p hp _ => has.reached p (translated_reached (translated_regDs hp))) hrec

/-- A machine in the address space, with nothing recorded. -/
def AddressSpace.machine (as : AddressSpace) (itcFlag : BitVec 32) (c : Vmcb) (r : GuestRegs) :
    Machine where
  vm := { orgSysenterCs := 0#64, itcFlag, itcSkipFlag := 0#32, fmap := [], syscallmap := [],
          ptracked := [], btrackcurrent := false }
  vmcb := { c with cr0 := as.cr0, cr3 := as.cr3, cr4 := as.cr4, gdtrBase := as.gdtrBase }
  regs := r
  mem := as.mem

/-- The guest passes the pointer `sel:off` with the command to disable. -/
def AddressSpace.disableAt (as : AddressSpace) (sel : BitVec 16) (off : BitVec 64) : Machine :=
  as.machine 0#32 { Vmcb.mbrStart with exitcode := vmexitVmmcall, dsSel := sel }
    { rbx := userCmdDisable, rcx := 2#64, rdx := off, rsi := 0#64, rdi := 0#64, rbp := 0#64 }

/-- The guest writes to a protected page while unpacking is watched. -/
def AddressSpace.unpackFault (as : AddressSpace) : Machine :=
  as.machine userUnpack { Vmcb.mbrStart with exitcode := vmexitExceptionPf, exitinfo1 := 3#64 }
    { rbx := 0#64, rcx := 0#64, rdx := 0#64, rsi := 0#64, rdi := 0#64, rbp := 0#64 }

/-- The command to disable task switch interception prints the string at its pointer. -/
theorem untrack_of_disableAt {A : AccessRule} {as : AddressSpace} {sel : BitVec 16}
    {off : BitVec 64} {p : Addr} (hp : glogic2Hphysic as sel off = .ok p)
    (h : A.ExitNeeds (as.disableAt sel off)) : A.deref p (.string 0) := by
  have hflags : has ((2#64).setWidth 32) userItcTaskswitch = true := by decide
  exact ((h.disable rfl rfl hflags).2 p hp).1

/-- A write to a page protected for unpacking rewrites the whole directory. -/
theorem directory_of_unpackFault {A : AccessRule} {as : AddressSpace}
    (h : A.ExitNeeds as.unpackFault) : A.Directory as.unpackFault := by
  have hfault : has 3#64 1#64 ∧ has 3#64 2#64 ∧ has userUnpack userUnpack := by decide
  exact h.unpack rfl hfault

/-- In an address space every exit of every machine, whatever its registers and flags, follows
no pointer into the monitor's memory and records only addresses outside it, exactly when the
registers and page tables lead to no address in that memory and no word of the page directory
meets it. -/
theorem pointers_confined_iff (as : AddressSpace) :
    (∀ m : Machine, m.space = as → RecordedOutside vmmPmemStart vmmPmemSize m.vm →
      handleVmexit.Emits (pointersOutside vmmPmemStart vmmPmemSize).Holds m ∧
        ∀ m', handleVmexit.Returns m () m' → RecordedOutside vmmPmemStart vmmPmemSize m'.vm) ↔
      SpaceOutside vmmPmemStart vmmPmemSize as := by
  constructor
  · intro h
    constructor
    · intro p hreached
      obtain ⟨sel, off, hp⟩ := reached_translated hreached
      have hexit := (h (as.disableAt sel off) rfl nofun).1
      exact untrack_of_disableAt hp (AccessRule.emits_handleVmexit_iff.mp hexit)
    · have hexit := (h as.unpackFault rfl nofun).1
      exact directory_of_unpackFault (AccessRule.emits_handleVmexit_iff.mp hexit)
  · rintro has m rfl hrec
    refine ⟨⟨fun e he => (handleVmexit_emits.all e he).pointersOutside has hrec⟩, fun m' h => ?_⟩
    exact (handleVmexit_spec h).recordedOutside has hrec

end

end Mavmm
