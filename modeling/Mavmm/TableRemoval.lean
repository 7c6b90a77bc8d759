import Mavmm.Vm

/-!
# Removing from the tables of the guest (vm.c)

`vm_remove_fileid2name_map` and `vm_remove_waiting_thread` are one loop over two
tables.  The handlers work on the lists of the entries; here the tables are the
arrays with their counters `nOpenFile` and `nWaitingThreads`, and the loops move
the entries in place.
-/

namespace Mavmm

/-- The tables of `struct vm_info` with their counters. -/
structure VmTables where
  fmap : SlotTable Fid2nameMap
  syscallmap : SlotTable Tid2syscallMap

namespace VmTables

variable {vm : VmTables} {m m' : Machine} {id tid : BitVec 32}

/-- `vm_remove_fileid2name_map`. -/
def removeFileid2nameMap (vm : VmTables) (id : BitVec 32) : VmTables :=
  { vm with fmap := vm.fmap.remove Fid2nameMap.fid id }

/-- `vm_remove_waiting_thread`. -/
def removeWaitingThread (vm : VmTables) (tid : BitVec 32) : VmTables :=
  { vm with syscallmap := vm.syscallmap.remove Tid2syscallMap.tid tid }

/-- The lists that the handlers work on are the entries of the tables. -/
structure Represents (vm : VmTables) (info : VmInfo) : Prop where
  fmap : info.fmap = vm.fmap.entries
  syscallmap : info.syscallmap = vm.syscallmap.entries

theorem Represents.removeFileid2nameMap (h : vm.Represents m.vm)
    (hrun : (vmRemoveFileid2nameMap id).Returns m () m') :
    (vm.removeFileid2nameMap id).Represents m'.vm := by
  obtain rfl := Exec.returns_modify.mp hrun
  exact ⟨(congrArg _ h.fmap).trans SlotTable.entries_remove.symm, h.syscallmap⟩

theorem Represents.removeWaitingThread (h : vm.Represents m.vm)
    (hrun : (vmRemoveWaitingThread tid).Returns m () m') :
    (vm.removeWaitingThread tid).Represents m'.vm := by
  obtain rfl := Exec.returns_modify.mp hrun
  exact ⟨h.fmap, (congrArg _ h.syscallmap).trans SlotTable.entries_remove.symm⟩

/-- No two entries in a row have the key. -/
def NoneInARow {α : Type} (key : α → BitVec 32) (k : BitVec 32) (t : SlotTable α) : Prop :=
  ∀ i, i + 1 < t.count → ¬ (key (t.slots i) = k ∧ key (t.slots (i + 1)) = k)

end VmTables

/-- Each removal is a filter exactly when no two entries in a row have the key. -/
theorem tableRemoval_exact_iff (vm : VmTables) (id tid : BitVec 32) :
    (vm.fmap.Filtered Fid2nameMap.fid id (vm.removeFileid2nameMap id).fmap ↔
      VmTables.NoneInARow Fid2nameMap.fid id vm.fmap) ∧
    (vm.syscallmap.Filtered Tid2syscallMap.tid tid (vm.removeWaitingThread tid).syscallmap ↔
      VmTables.NoneInARow Tid2syscallMap.tid tid vm.syscallmap) :=
  ⟨SlotTable.filtered_remove_iff, SlotTable.filtered_remove_iff⟩

/-- Descriptor 3 was stored twice in a row, thread 7 waits twice in a row. -/
def VmTables.twice : VmTables where
  fmap := ⟨fun _ => ⟨3#32, []⟩, 2⟩
  syscallmap := ⟨fun _ => ⟨7#32, .other⟩, 2⟩

theorem tableRemoval_leaves_one :
    ¬ ∀ (vm : VmTables) (id tid : BitVec 32),
      vm.fmap.Filtered Fid2nameMap.fid id (vm.removeFileid2nameMap id).fmap ∧
      vm.syscallmap.Filtered Tid2syscallMap.tid tid (vm.removeWaitingThread tid).syscallmap := by
  intro h
  have hfiltered := (h .twice 3#32 7#32).1
  exact SlotTable.filtered_remove_iff.mp hfiltered 0 (by decide) ⟨rfl, rfl⟩

end Mavmm
