import Mavmm.ExitEvents

/-!
# The one-page tables

Each table has one page and a counter that nothing compares with its size.  As
long as an exit that adds an entry finds room for it (`RoomFor`), the tables
stay inside their pages and every store ends inside the page it goes to
(`tables_in_page`).
-/

namespace Mavmm

/-- A store into a table ends inside the table's page. -/
def InPage : Event → Prop
  | .slot _ off len => off + len ≤ pageSize
  | _ => True

/-- The entries that the counters count lie inside the pages. -/
structure InBounds (vm : VmInfo) : Prop where
  fmap : vm.fmap.length * sizeofFid2nameMap ≤ pageSize
  syscallmap : vm.syscallmap.length * sizeofTid2syscallMap ≤ pageSize
  ptracked : vm.ptracked.length * vmMaxPnameLen ≤ pageSize

section
variable {m m' : Machine} {e : GuestExit}

theorem NewWaiting.inBounds {new : List Tid2syscallMap} (h : NewWaiting m new)
    (hin : m.vm.syscallmap.length * sizeofTid2syscallMap ≤ pageSize)
    (hroom : ∀ info, OwnInfo m info → WaitingFits m.vm) :
    (m.vm.syscallmap ++ new).length * sizeofTid2syscallMap ≤ pageSize := by
  cases h with
  | own hinfo htid =>
    rw [List.length_append, List.length_singleton]
    exact hroom _ hinfo
  | other hnone hempty htid =>
    rw [hempty, List.nil_append, List.length_singleton]
    decide
  | none hnone hne =>
    rw [List.append_nil]
    exact hin

theorem newNames_inBounds {info : SyscallInfo}
    (hin : m.vm.fmap.length * sizeofFid2nameMap ≤ pageSize)
    (hroom : ∀ arg, info = .opened arg → FnameFits m.vm) :
    (m.vm.fmap ++ m.newNames info).length * sizeofFid2nameMap ≤ pageSize := by
  cases info with
  | opened arg =>
    rw [List.length_append]
    exact hroom arg rfl
  | read arg =>
    rw [show m.newNames (.read arg) = [] from rfl, List.append_nil]
    exact hin
  | recvfrom arg datasize =>
    rw [show m.newNames (.recvfrom arg datasize) = [] from rfl, List.append_nil]
    exact hin
  | other =>
    rw [show m.newNames .other = [] from rfl, List.append_nil]
    exact hin

/-- An exit that finds room keeps the tables inside their pages. -/
theorem Handled.inBounds {vm : VmInfo} {c : Control} (h : Handled m vm c) (hin : InBounds m.vm)
    (hroom : RoomFor m) : InBounds vm := by
  cases h with
  | quiet => exact ⟨hin.fmap, hin.syscallmap, hin.ptracked⟩
  | syscall hexit hvector hnew =>
    exact ⟨hin.fmap, hnew.inBounds hin.syscallmap (hroom.waiting hexit hvector), hin.ptracked⟩
  | iret hexit htables =>
    cases htables with
    | idle => exact ⟨hin.fmap, hin.syscallmap, hin.ptracked⟩
    | unmatched => exact ⟨hin.fmap, hin.syscallmap, hin.ptracked⟩
    | matched hne htid hsome =>
      refine ⟨newNames_inBounds hin.fmap fun arg hinfo => ?_, ?_, hin.ptracked⟩
      · subst hinfo
        exact hroom.fname hexit _ arg htid hsome
      · exact Nat.le_trans (Nat.mul_le_mul_right _ FlatTable.remove_sublist.length_le)
          hin.syscallmap
  | debug => exact ⟨hin.fmap, hin.syscallmap, hin.ptracked⟩
  | unpack => exact ⟨hin.fmap, hin.syscallmap, hin.ptracked⟩
  | cr3Write => exact ⟨hin.fmap, hin.syscallmap, hin.ptracked⟩
  | popf => exact ⟨hin.fmap, hin.syscallmap, hin.ptracked⟩
  | enable => exact ⟨hin.fmap, hin.syscallmap, hin.ptracked⟩
  | disable hexit hcmd hflags hptracked =>
    exact ⟨hin.fmap, hin.syscallmap, Nat.le_trans (Nat.mul_le_mul_right _ hptracked) hin.ptracked⟩

/-! ## Runs -/

/-- An exit that finds room, and its handling. -/
def RoomyStep (m : Machine) (e : GuestExit) (m' : Machine) : Prop :=
  RoomFor (m.deliver e) ∧ ExitStep m e m'

theorem inBounds_booted (h : Booted m) : InBounds m.vm := by
  rw [h.vm_eq]
  exact ⟨by decide, by decide, by decide⟩

theorem inBounds_run {m₀ : Machine} {es : List GuestExit} (hboot : Booted m₀)
    (hrun : Run RoomyStep m₀ es m) : InBounds m.vm :=
  hrun.invariant (inBounds_booted hboot) fun hin hstep =>
    (handleVmexit_spec hstep.2.returns).inBounds hin hstep.1

/-- `vm_create` stores the three standard names inside the page. -/
theorem emits_vmCreate (blank : Machine) : vmCreate.Emits InPage blank := by
  have hlog : (vmCreate blank).1.all (fun
      | .slot _ off len => off + len ≤ pageSize
      | _ => true) = true := rfl
  refine ⟨fun ev hev => ?_⟩
  have hev := List.all_eq_true.mp hlog ev hev
  cases ev with
  | slot page off len => exact (of_decide_eq_true hev : off + len ≤ pageSize)
  | deref p => trivial
  | descriptor p => trivial
  | dirWord a => trivial
  | fname id name => trivial
  | out fmt args => trivial

/-- In every run whose exits find room, the tables stay inside their pages, and so does every
store of the next exit that finds room. -/
theorem tables_in_page {m₀ : Machine} {es : List GuestExit} (hboot : Booted m₀)
    (hrun : Run RoomyStep m₀ es m) :
    (∀ blank, vmCreate.Emits InPage blank) ∧ InBounds m.vm ∧
      ∀ e, RoomFor (m.deliver e) → handleVmexit.Emits InPage (m.deliver e) := by
  refine ⟨emits_vmCreate, inBounds_run hboot hrun, fun e hroom => ⟨fun ev hev => ?_⟩⟩
  have hallowed := handleVmexit_emits.all ev hev
  cases ev with
  | slot page off len => exact hallowed hroom
  | deref p => trivial
  | descriptor p => trivial
  | dirWord a => trivial
  | fname id name => trivial
  | out fmt args => trivial

end

/-! ## Many threads -/

/-- A thread, told apart by the low byte of its id, reads. -/
def readBy (tid : Byte) : GuestExit where
  vmcb := { Vmcb.mbrStart with exitcode := vmexitSwint, rax := 3#64 }
  regs := Machine.boot.regs
  mem := fun a => (List.lookup a [(0x7c01#64, 0x80#8), (0x4a8#64, tid)]).getD 0#8

/-- The exits of `n` threads that read and wait. -/
def readers (n : Nat) : List GuestExit := (List.range n).map fun tid => readBy (BitVec.ofNat 8 tid)

theorem tables_in_page_read :
    (∀ blank, vmCreate.Emits InPage blank) ∧ InBounds (Machine.boot.next (readBy 1#8)).vm ∧
      ∀ e, RoomFor ((Machine.boot.next (readBy 1#8)).deliver e) →
        handleVmexit.Emits InPage ((Machine.boot.next (readBy 1#8)).deliver e) := by
  have hfits : WaitingFits Machine.boot.vm := Nat.le_of_ble_eq_true rfl
  have hroom : RoomFor (Machine.boot.deliver (readBy 1#8)) :=
    ⟨fun _ _ _ _ => hfits, fun h => absurd h (by decide)⟩
  exact tables_in_page booted_boot (.snoc .nil ⟨hroom, exitStep_next (by decide +kernel)⟩)

/-- The record of the 129th thread that waits is stored past the page. -/
theorem tables_not_in_page : ∃ m, Run ExitStep Machine.boot (readers 128) m ∧
    ¬ handleVmexit.Emits InPage (m.deliver (readBy 128#8)) := by
  obtain ⟨m, hm, h⟩ := completesWith_ok (show completesWith
    (fun m => (handleVmexit (m.deliver (readBy 128#8))).1.any fun
      | .slot _ off len => pageSize < off + len
      | _ => false) ((readers 128).foldlM Machine.exit Machine.boot) = true by decide +kernel)
  refine ⟨m, run_of_foldlM hm, fun hemits => ?_⟩
  obtain ⟨ev, hev, hover⟩ := List.any_eq_true.mp h
  have hin := hemits.all ev hev
  cases ev with
  | slot page off len => exact absurd (of_decide_eq_true hover) (Nat.not_lt.mpr hin)
  | deref p => cases hover
  | descriptor p => cases hover
  | dirWord a => cases hover
  | fname id name => cases hover
  | out fmt args => cases hover

end Mavmm
