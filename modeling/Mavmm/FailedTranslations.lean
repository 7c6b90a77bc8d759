import Mavmm.Accesses

/-!
# Pointers that lead nowhere

A page that is not present translates to -1, and so does the page of a
descriptor.  Some handlers compare with -1 before they follow the pointer; the
lookup of the current thread, the arguments of `socketcall` and the strings
that are compared with 0 are followed without a look.

What a handler that only looks needs in order to stay away from -1 is what it
needs for any rule, where the rule is to stay away from -1: what is compared
first drops out.
-/

namespace Mavmm

/-- The descriptor of a selector is found, if one is read. -/
def DescriptorFound (m : Machine) (sel : BitVec 16) : Prop :=
  ∀ p, gdtentryRead m.space sel = some p → p ≠ -1#64

/-- The pointer leads somewhere, and what is there has the property. -/
def Follows (m : Machine) (sel : BitVec 16) (off : BitVec 64) (P : Addr → Prop) : Prop :=
  DescriptorFound m sel ∧ ∀ p, glogic2Hphysic m.space sel off = .ok p → p ≠ -1#64 ∧ P p

/-- The pointer leads somewhere. -/
def Leads (m : Machine) (sel : BitVec 16) (off : BitVec 64) : Prop :=
  Follows m sel off fun _ => True

section
variable {m : Machine}

/-- The way to the `task_struct` of a thread in the kernel. -/
def KernelThread (m : Machine) : Prop :=
  Follows m m.vmcb.ssSel (m.vmcb.rsp &&& 0xffffe000#64) fun info =>
    Leads m m.vmcb.dsSel (m.mem.load64 info)

/-- The way to the `task_struct` of a thread in user mode: the kernel's stack is found in the
task state segment. -/
def UserThread (m : Machine) : Prop :=
  Follows m m.vmcb.trSel 0x04#64 fun esp =>
    Follows m m.vmcb.trSel 0x08#64 fun ss =>
      Follows m (m.mem.load16 ss) (m.mem.load64 esp &&& 0xffffe000#64) fun info =>
        Leads m m.vmcb.dsSel (m.mem.load64 info)

/-- The `n` words of the argument block from the `i`-th on, each read where its address leads. -/
def SocketWords (m : Machine) : (n i : Nat) → (List (BitVec 64) → Prop) → Prop
  | 0, _, P => P []
  | n + 1, i, P => Follows m m.vmcb.dsSel (m.regs.rcx + BitVec.ofNat 64 (i * 4)) fun p =>
    SocketWords m n (i + 1) fun rest => P (m.mem.load64 p :: rest)

end

end Mavmm
