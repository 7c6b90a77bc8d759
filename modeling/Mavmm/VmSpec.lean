import Mavmm.SyscallSpec

/-!
# What the operations of the machine do

Switching intercepts changes the control block and the guest's memory, never
what the monitor keeps.  Adding to a table succeeds exactly when the new entry
ends inside the table's page.
-/

namespace Mavmm

section
variable {m m' : Machine} {u : Unit} {flags : BitVec 32}

/-! ## Output -/

@[simp] theorem returns_outf {fmt : String} {args : List OutArg} : (outf fmt args).Returns m u :=
  rfl

@[simp] theorem returns_outfWhen {c : Prop} [Decidable c] {fmt : String} {args : List OutArg} :
    (outfWhen c fmt args).Returns m u := by
  unfold outfWhen
  split <;> rfl

@[simp] theorem returns_modifyVmcb {f : Vmcb → Vmcb} :
    (modifyVmcb f).Returns m u m' ↔ { m with vmcb := f m.vmcb } = m' := Exec.returns_modify

@[simp] theorem returns_modifyVm {f : VmInfo → VmInfo} :
    (modifyVm f).Returns m u m' ↔ { m with vm := f m.vm } = m' := Exec.returns_modify

/-! ## Intercepts -/

/-- `vm_unprotect_all_nonPAE_guestpage` on memory. -/
def unprotected (cr3 : BitVec 64) (mem : Mem) : Mem :=
  updateDirectory (fun e => e ||| BitVec.ofNat 32 pttefRw) cr3 mem

/-- `vm_protect_all_nonPAE_guestpage` on memory. -/
def protectedMem (cr3 : BitVec 64) (mem : Mem) : Mem :=
  updateDirectory (fun e => e &&& (0xffffffff#32 - BitVec.ofNat 32 pttefRw)) cr3 mem

theorem returns_updateGuestDirectory {f : BitVec 32 → BitVec 32} :
    (updateGuestDirectory f).Returns m u m' ↔
      { m with mem := updateDirectory f m.vmcb.cr3 m.mem } = m' := by
  refine (Exec.returns_probe_bind (a := ()) ?_).trans Exec.returns_modify
  rfl

theorem returns_unprotect : vmUnprotectAllNonpaeGuestpage.Returns m u m' ↔
    { m with mem := unprotected m.vmcb.cr3 m.mem } = m' := by
  rw [vmUnprotectAllNonpaeGuestpage, Exec.liftM_eq_probe,
    Exec.returns_probe_bind (a := ()) returns_outf, returns_updateGuestDirectory]
  rfl

theorem returns_protect : vmProtectAllNonpaeGuestpage.Returns m u m' ↔
    { m with mem := protectedMem m.vmcb.cr3 m.mem } = m' := by
  rw [vmProtectAllNonpaeGuestpage, Exec.liftM_eq_probe,
    Exec.returns_probe_bind (a := ()) returns_outf, returns_updateGuestDirectory]
  rfl

theorem returns_vmDisableIntercept : (vmDisableIntercept flags).Returns m u m' ↔
    { m with
      vmcb := m.vmcb.disableIntercept flags
      mem := if has flags userUnpack then unprotected m.vmcb.cr3 m.mem else m.mem } = m' := by
  simp only [vmDisableIntercept, Exec.returns_bind, Exec.returns_when, returns_unprotect,
    returns_modifyVmcb]
  split
  · constructor
    · rintro ⟨_, t, ht, h⟩
      rw [← h, ← ht]
    · exact fun h => ⟨(), _, rfl, by rw [← h]⟩
  · constructor
    · rintro ⟨_, t, ht, h⟩
      rw [← h, ← ht]
    · exact fun h => ⟨(), _, rfl, by rw [← h]⟩

theorem returns_vmEnableIntercept : (vmEnableIntercept flags).Returns m u m' ↔
    { m with
      vmcb := m.vmcb.enableIntercept flags
      mem := if has flags userUnpack then protectedMem m.vmcb.cr3 m.mem else m.mem } = m' := by
  simp only [vmEnableIntercept, Exec.returns_bind, Exec.returns_when, returns_protect,
    returns_modifyVmcb]
  split
  · constructor
    · rintro ⟨_, t, ht, h⟩
      rw [← h, ← ht]
    · exact fun h => ⟨(), _, rfl, by rw [← h]⟩
  · constructor
    · rintro ⟨_, t, ht, h⟩
      rw [← h, ← ht]
    · exact fun h => ⟨(), _, rfl, by rw [← h]⟩

theorem vmDisableIntercept_spec (h : (vmDisableIntercept flags).Returns m u m') :
    m'.vm = m.vm ∧ m'.vmcb = m.vmcb.disableIntercept flags ∧ m'.regs = m.regs := by
  have hm' := returns_vmDisableIntercept.mp h
  subst hm'
  exact ⟨rfl, rfl, rfl⟩

theorem vmEnableIntercept_spec (h : (vmEnableIntercept flags).Returns m u m') :
    m'.vm = m.vm ∧ m'.vmcb = m.vmcb.enableIntercept flags ∧ m'.regs = m.regs := by
  have hm' := returns_vmEnableIntercept.mp h
  subst hm'
  exact ⟨rfl, rfl, rfl⟩

/-! ## Tables -/

theorem returns_storeSlot {page : TablePage} {off len : Nat} :
    (storeSlot page off len).Returns m u ↔ off + len ≤ pageSize := by
  unfold storeSlot
  rw [Probe.returns_bind]
  constructor
  · rintro ⟨-, -, h⟩
    split at h
    · cases h
    · next hle => exact Nat.le_of_not_lt hle
  · intro h
    exact ⟨(), rfl, by rw [if_neg (Nat.not_lt.mpr h)]; rfl⟩

/-- The machine with a new entry in the table of file names. -/
def Machine.addFname (m : Machine) (id : BitVec 32) (name : Nat → Byte) : Machine :=
  { m with vm := { m.vm with
      fmap := m.vm.fmap ++ [{ fid := id, fname := cstr name (vmMaxFilename - 1) }] } }

/-- The machine with a new waiting thread. -/
def Machine.addWaiting (m : Machine) (tid : BitVec 32) (info : SyscallInfo) : Machine :=
  { m with vm := { m.vm with syscallmap := m.vm.syscallmap ++ [{ tid, info }] } }

/-- One more entry fits in the page of the table of file names. -/
def FnameFits (vm : VmInfo) : Prop := (vm.fmap.length + 1) * sizeofFid2nameMap ≤ pageSize

/-- One more entry fits in the page of the waiting threads. -/
def WaitingFits (vm : VmInfo) : Prop :=
  (vm.syscallmap.length + 1) * sizeofTid2syscallMap ≤ pageSize

theorem returns_vmAddFileid2nameMap {id : BitVec 32} {name : Nat → Byte} :
    (vmAddFileid2nameMap id name).Returns m u m' ↔ FnameFits m.vm ∧ m.addFname id name = m' := by
  simp only [vmAddFileid2nameMap, Exec.returns_bind, Exec.returns_probe, Probe.returns_read,
    Exec.liftM_eq_probe, returns_storeSlot, returns_modifyVm]
  unfold FnameFits sizeofFid2nameMap vmMaxFilename
  constructor
  · rintro ⟨next, t, ⟨rfl, rfl⟩, -, t, ⟨h1, rfl⟩, -, t, ⟨h2, rfl⟩, -, t, ⟨h3, rfl⟩, rfl⟩
    exact ⟨by omega, rfl⟩
  · rintro ⟨h, rfl⟩
    exact ⟨_, m, ⟨rfl, rfl⟩, (), m, ⟨by omega, rfl⟩, (), m, ⟨by omega, rfl⟩, (), m,
      ⟨by omega, rfl⟩, rfl⟩

theorem returns_vmAddWaitingThread {tid : BitVec 32} {info : SyscallInfo} :
    (vmAddWaitingThread tid info).Returns m u m' ↔
      WaitingFits m.vm ∧ m.addWaiting tid info = m' := by
  simp only [vmAddWaitingThread, Exec.returns_bind, Exec.returns_probe, Probe.returns_read,
    Exec.liftM_eq_probe, returns_storeSlot, returns_modifyVm]
  unfold WaitingFits sizeofTid2syscallMap sizeofSyscallInfo
  constructor
  · rintro ⟨next, t, ⟨rfl, rfl⟩, -, t, ⟨h1, rfl⟩, -, t, ⟨h2, rfl⟩, rfl⟩
    exact ⟨by omega, rfl⟩
  · rintro ⟨h, rfl⟩
    exact ⟨_, m, ⟨rfl, rfl⟩, (), m, ⟨by omega, rfl⟩, (), m, ⟨by omega, rfl⟩, rfl⟩

/-- Every process counts as tracked, so none is ever added. -/
theorem returns_vmAddTrackedProcess {pname : Addr} :
    (vmAddTrackedProcess pname).Returns m u m' ↔ m = m' := by
  simp [vmAddTrackedProcess, vmIsProcessTracked]

/-- The machine when the guest is started has the three standard names and nothing else. -/
theorem Booted.vm_eq (h : Booted m) :
    m.vm = { orgSysenterCs := 0#64, itcFlag := 0#32, itcSkipFlag := 0#32
             fmap := [⟨0#32, cstr (literal "stdin") 19⟩, ⟨1#32, cstr (literal "stdout") 19⟩,
               ⟨2#32, cstr (literal "stderr") 19⟩]
             syscallmap := [], ptracked := [], btrackcurrent := false } := by
  obtain ⟨blank, m', h, rfl⟩ := h
  simp only [vmCreate, initializeFid2nameMap, initializeSyscallmap, initializePtrackedList,
    Exec.returns_bind, Exec.liftM_eq_probe, Exec.returns_probe, returns_modifyVm,
    returns_vmAddFileid2nameMap] at h
  obtain ⟨-, _, ⟨-, rfl⟩, -, _, rfl, -, _, ⟨-, _, rfl, -, _, ⟨-, rfl⟩, -, _, ⟨-, rfl⟩, -, rfl⟩, -,
    _, rfl, rfl⟩ := h
  rfl

end

end Mavmm
