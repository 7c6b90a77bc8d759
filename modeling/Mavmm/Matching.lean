import Mavmm.InterceptSpec

/-!
# System calls and their returns

A thread enters with `int 0x80` and returns with `iret`, in turn.  The table of
waiting threads holds the record of each outstanding call that made one
(`Waits`).  A call makes one when its own handler does, or when no other thread
is waiting; so the return of any other call is not seen while a thread is
blocked (`return_matched_iff`).
-/

namespace Mavmm

/-! ## Entries -/

section
variable {m : Machine} {info info' : SyscallInfo}

theorem OwnInfo.unique (h : OwnInfo m info) (h' : OwnInfo m info') : info = info' := by
  cases h with
  | read hnr =>
    cases h' with
    | read => rfl
    | opened hnr' => exact absurd (hnr.symm.trans hnr') (by decide)
    | recvfrom hnr' => exact absurd (hnr.symm.trans hnr') (by decide)
  | opened hnr hp hne =>
    cases h' with
    | read hnr' => exact absurd (hnr.symm.trans hnr') (by decide)
    | opened _ hp' => rw [hp.unique hp']
    | recvfrom hnr' => exact absurd (hnr.symm.trans hnr') (by decide)
  | recvfrom hnr hcall hbuffer hsize =>
    cases h' with
    | read hnr' => exact absurd (hnr.symm.trans hnr') (by decide)
    | opened hnr' => exact absurd (hnr.symm.trans hnr') (by decide)
    | recvfrom _ _ hbuffer' hsize' => rw [hbuffer.unique hbuffer', hsize.unique hsize']

/-- The record that a call leaves: its own, or the one of a call that finds no thread waiting. -/
inductive Recorded (m : Machine) : SyscallInfo → Prop
  | own {info : SyscallInfo} (h : OwnInfo m info) : Recorded m info
  | other (h : ∀ info, ¬ OwnInfo m info) (hempty : m.vm.syscallmap = []) : Recorded m .other

theorem Recorded.unique (h : Recorded m info) (h' : Recorded m info') : info = info' := by
  cases h with
  | own h =>
    cases h' with
    | own h' => exact h.unique h'
    | other hnone => exact absurd h (hnone _)
  | other hnone =>
    cases h' with
    | own h' => exact absurd h' (hnone _)
    | other => rfl

/-- The records that a call of thread `t` leaves, as a table. -/
theorem NewWaiting.recorded {new : List Tid2syscallMap} {t : BitVec 32} (h : NewWaiting m new)
    (htid : (getCurThreadid 3).Returns m t) :
    (∃ info, Recorded m info ∧ new = [⟨t, info⟩]) ∨ ((∀ info, ¬ Recorded m info) ∧ new = []) := by
  cases h with
  | own hinfo htid' =>
    rw [htid'.unique htid]
    exact Or.inl ⟨_, .own hinfo, rfl⟩
  | other hnone hempty htid' =>
    rw [htid'.unique htid]
    exact Or.inl ⟨_, .other hnone hempty, rfl⟩
  | none hnone hne =>
    refine Or.inr ⟨fun info hinfo => ?_, rfl⟩
    cases hinfo with
    | own h => exact hnone _ h
    | other _ hempty => exact hne hempty

end

/-! ## Threads -/

/-- The machine at the entry of each outstanding call, by thread. -/
abbrev Calls := BitVec 32 → Option Machine

def Calls.none : Calls := fun _ => .none

def Calls.set (calls : Calls) (t : BitVec 32) (c : Option Machine) : Calls :=
  fun t' => if t' = t then c else calls t'

/-- The exit is a system call of thread `t`. -/
structure EntersCall (m : Machine) (t : BitVec 32) : Prop where
  exit : m.vmcb.exitcode = vmexitSwint
  vector : intVector.Returns m 0x80#8
  thread : (getCurThreadid 3).Returns m t

/-- The exit is the return of thread `t` from a system call. -/
structure LeavesCall (m : Machine) (t : BitVec 32) : Prop where
  exit : m.vmcb.exitcode = vmexitIret
  thread : (getCurThreadid 0).Returns m t

instance (m : Machine) (t : BitVec 32) : Decidable (EntersCall m t) :=
  decidable_of_iff (m.vmcb.exitcode = vmexitSwint ∧ intVector.Returns m 0x80#8 ∧
      (getCurThreadid 3).Returns m t)
    ⟨fun h => ⟨h.1, h.2.1, h.2.2⟩, fun h => ⟨h.exit, h.vector, h.thread⟩⟩

instance (m : Machine) (t : BitVec 32) : Decidable (LeavesCall m t) :=
  decidable_of_iff (m.vmcb.exitcode = vmexitIret ∧ (getCurThreadid 0).Returns m t)
    ⟨fun h => ⟨h.1, h.2⟩, fun h => ⟨h.exit, h.thread⟩⟩

/-- A step in which each thread enters and returns in turn. -/
inductive CallStep : Machine × Calls → GuestExit → Machine × Calls → Prop
  | enter {m m' : Machine} {e : GuestExit} {calls : Calls} {t : BitVec 32}
      (hstep : ExitStep m e m') (h : EntersCall (m.deliver e) t) (hfree : calls t = none) :
      CallStep (m, calls) e (m', calls.set t (some (m.deliver e)))
  | leave {m m' entry : Machine} {e : GuestExit} {calls : Calls} {t : BitVec 32}
      (hstep : ExitStep m e m') (h : LeavesCall (m.deliver e) t) (hcall : calls t = some entry) :
      CallStep (m, calls) e (m', calls.set t none)
  | other {m m' : Machine} {e : GuestExit} {calls : Calls} (hstep : ExitStep m e m')
      (henter : e.vmcb.exitcode = vmexitSwint → ¬ intVector.Returns (m.deliver e) 0x80#8)
      (hleave : e.vmcb.exitcode ≠ vmexitIret) : CallStep (m, calls) e (m', calls)

/-- The table holds the records of the outstanding calls, each once. -/
structure Waits (table : List Tid2syscallMap) (calls : Calls) : Prop where
  distinct : table.Pairwise fun x y => x.tid ≠ y.tid
  mem_iff : ∀ t info, (⟨t, info⟩ : Tid2syscallMap) ∈ table ↔
    ∃ entry, calls t = some entry ∧ Recorded entry info

section
variable {table : List Tid2syscallMap} {calls : Calls} {t : BitVec 32}

theorem waits_nil : Waits [] Calls.none := by
  refine ⟨.nil, fun t info => ⟨nofun, ?_⟩⟩
  intro h
  obtain ⟨entry, hcall, -⟩ := h
  cases hcall

/-- A call adds its record, if it makes one. -/
theorem Waits.enter (h : Waits table calls) (hfree : calls t = none) {entry : Machine}
    {new : List Tid2syscallMap}
    (hnew : (∃ info, Recorded entry info ∧ new = [⟨t, info⟩]) ∨
      ((∀ info, ¬ Recorded entry info) ∧ new = [])) :
    Waits (table ++ new) (calls.set t (some entry)) := by
  have habsent : ∀ x ∈ table, x.tid ≠ t := by
    intro x hx hxt
    obtain ⟨entry', hcall, -⟩ := (h.mem_iff x.tid x.info).mp hx
    rw [hxt, hfree] at hcall
    cases hcall
  have hmem_new : ∀ t' info, (⟨t', info⟩ : Tid2syscallMap) ∈ new ↔
      t' = t ∧ Recorded entry info := by
    intro t' info
    rcases hnew with ⟨info', hrec, rfl⟩ | ⟨hnone, rfl⟩
    · rw [List.mem_singleton, Tid2syscallMap.mk.injEq]
      constructor
      · intro heq
        exact ⟨heq.1, heq.2 ▸ hrec⟩
      · intro hin
        exact ⟨hin.1, hin.2.unique hrec⟩
    · exact ⟨nofun, fun hin => absurd hin.2 (hnone info)⟩
  constructor
  · refine List.pairwise_append.mpr ⟨h.distinct, ?_, fun x hx y hy => ?_⟩
    · rcases hnew with ⟨info, -, rfl⟩ | ⟨-, rfl⟩
      · exact List.pairwise_singleton _ _
      · exact .nil
    · rw [((hmem_new y.tid y.info).mp hy).1]
      exact habsent x hx
  · intro t' info
    rw [List.mem_append, h.mem_iff, hmem_new]
    unfold Calls.set
    by_cases ht : t' = t
    · rw [if_pos ht, ht, hfree]
      simp
    · rw [if_neg ht]
      simp [ht]

/-- A return takes out the record of the call it ends. -/
theorem Waits.leave (h : Waits table calls) :
    Waits (FlatTable.remove Tid2syscallMap.tid t table) (calls.set t none) := by
  refine ⟨h.distinct.sublist FlatTable.remove_sublist, fun t' info => ?_⟩
  rw [FlatTable.remove_eq_filter h.distinct, List.mem_filter, h.mem_iff]
  unfold Calls.set
  by_cases ht : t' = t
  · simp [ht]
  · simp [ht]

theorem Waits.find_iff {info : SyscallInfo} (h : Waits table calls) :
    (FlatTable.find Tid2syscallMap.tid t table).map Tid2syscallMap.info = some info ↔
      ∃ entry, calls t = some entry ∧ Recorded entry info := by
  rw [← h.mem_iff]
  constructor
  · intro hfind
    obtain ⟨x, hx, rfl⟩ := Option.map_eq_some_iff.mp hfind
    obtain ⟨hmem, rfl⟩ := FlatTable.mem_of_find hx
    exact hmem
  · intro hmem
    rw [FlatTable.find_eq_some hmem h.distinct]
    rfl

end

/-! ## Steps and runs -/

/-- Whether it finds a record or not, a return leaves the table without the thread's record. -/
theorem IretTables.syscallmap_eq {m : Machine} {t : BitVec 32} {fmap : List Fid2nameMap}
    {syscallmap : List Tid2syscallMap} (h : IretTables m fmap syscallmap) (hleave : LeavesCall m t) :
    syscallmap = FlatTable.remove Tid2syscallMap.tid t m.vm.syscallmap := by
  cases h with
  | idle hempty =>
    rw [hempty]
    rfl
  | unmatched hne htid hnone =>
    rw [htid.unique hleave.thread] at hnone
    exact (FlatTable.remove_of_absent
      (FlatTable.find_eq_none.mp (Option.map_eq_none_iff.mp hnone))).symm
  | matched hne htid hsome => rw [htid.unique hleave.thread]

section
variable {m m' : Machine} {calls : Calls} {e : GuestExit} {t : BitVec 32}

theorem syscallmap_of_leave (hstep : ExitStep m e m') (hleave : LeavesCall (m.deliver e) t) :
    m'.vm.syscallmap = FlatTable.remove Tid2syscallMap.tid t m.vm.syscallmap := by
  obtain ⟨fmap, syscallmap, htables, hvm, -⟩ :=
    handleVmIret_spec ((handleVmexit_dispatch hstep.returns).iret hleave.exit)
  rw [hvm]
  exact htables.syscallmap_eq hleave

/-- An exit that is neither a call nor a return leaves the table alone. -/
theorem Handled.syscallmap_eq {vm : VmInfo} {c : Control} (h : Handled m vm c)
    (henter : m.vmcb.exitcode = vmexitSwint → ¬ intVector.Returns m 0x80#8)
    (hleave : m.vmcb.exitcode ≠ vmexitIret) : vm.syscallmap = m.vm.syscallmap := by
  cases h with
  | quiet => rfl
  | syscall hexit hvector => exact absurd hvector (henter hexit)
  | iret hexit => exact absurd hexit hleave
  | debug => rfl
  | unpack => rfl
  | cr3Write => rfl
  | popf => rfl
  | enable => rfl
  | disable => rfl

theorem waits_step {s s' : Machine × Calls} (h : Waits s.1.vm.syscallmap s.2)
    (hstep : CallStep s e s') : Waits s'.1.vm.syscallmap s'.2 := by
  cases hstep with
  | enter hstep henter hfree =>
    obtain ⟨vector, hvector, ⟨-, new, hnew, hvm, -⟩ | ⟨hne, -, -⟩⟩ :=
      handleVmSwint_spec ((handleVmexit_dispatch hstep.returns).swint henter.exit)
    · rw [hvm]
      exact h.enter hfree (hnew.recorded henter.thread)
    · exact absurd (hvector.unique henter.vector) hne
  | leave hstep hleave hcall =>
    rw [syscallmap_of_leave hstep hleave]
    exact h.leave
  | other hstep henter hleave =>
    rw [(handleVmexit_spec hstep.returns).syscallmap_eq henter hleave]
    exact h

/-- After a run in which the threads take turns, the table holds the outstanding records. -/
theorem waits_run {m₀ : Machine} {es : List GuestExit} (hboot : Booted m₀)
    (hrun : Run CallStep (m₀, Calls.none) es (m, calls)) : Waits m.vm.syscallmap calls := by
  refine @Run.invariant _ _ _ _ _ _ (fun s => Waits s.1.vm.syscallmap s.2) hrun ?_
    (fun h hstep => waits_step h hstep)
  change Waits m₀.vm.syscallmap _
  rw [hboot.vm_eq]
  exact waits_nil

/-- A return that finds a record handles it. -/
theorem syscallIret_of_waiting {info : SyscallInfo} (hstep : ExitStep m e m')
    (hleave : LeavesCall (m.deliver e) t) (hwaiting : m.vm.waitingSyscall t = some info) :
    ∃ r, (syscallIret info).Returns (m.deliver e) () r := by
  have h := (handleVmexit_dispatch hstep.returns).iret hleave.exit
  obtain ⟨v, r, h, -⟩ := Exec.returns_bind.mp h
  have hne : (m.deliver e).vm.syscallmap ≠ [] := by
    intro hempty
    unfold VmInfo.waitingSyscall at hwaiting
    rw [show m.vm.syscallmap = [] from hempty] at hwaiting
    cases hwaiting
  simp only [handleReturn, Exec.returns_bind, Exec.returns_probe, Probe.returns_read,
    Exec.returns_when, Exec.liftM_eq_probe, vmGetWaitingSyscall] at h
  obtain ⟨_, _, ⟨rfl, rfl⟩, h⟩ := h
  rw [if_pos hne] at h
  obtain ⟨tid, _, ⟨htid, rfl⟩, found, _, ⟨hfound, rfl⟩, h⟩ := h
  rw [htid.unique hleave.thread] at hfound
  have hfound : some info = found := hwaiting.symm.trans hfound
  subst hfound
  obtain ⟨w, r', h, -⟩ := Exec.returns_bind.mp h
  exact ⟨r', h⟩

end

/-- In a run in which each thread enters and returns in turn, a return is matched with the record
that its own call made, with the number and the arguments, exactly when the handler of that call
makes one; it is seen at all exactly when the handler does or no thread was waiting at the entry;
and it removes the record of its thread and no other. -/
theorem return_matched_iff {m₀ m m' entry : Machine} {es : List GuestExit} {calls : Calls}
    {e : GuestExit} {t : BitVec 32} (hboot : Booted m₀)
    (hrun : Run CallStep (m₀, Calls.none) es (m, calls)) (hstep : ExitStep m e m')
    (hleave : LeavesCall (m.deliver e) t) (hcall : calls t = some entry) :
    ((∃ info, OwnInfo entry info ∧ m.vm.waitingSyscall t = some info ∧
        ∃ r, (syscallIret info).Returns (m.deliver e) () r) ↔ ∃ info, OwnInfo entry info) ∧
      ((∃ info, m.vm.waitingSyscall t = some info ∧
          ∃ r, (syscallIret info).Returns (m.deliver e) () r) ↔
        (∃ info, OwnInfo entry info) ∨ entry.vm.syscallmap = []) ∧
      m'.vm.syscallmap = m.vm.syscallmap.filter fun x => x.tid ≠ t := by
  have hwaits : Waits m.vm.syscallmap calls := waits_run hboot hrun
  have hfind : ∀ info, Recorded entry info → m.vm.waitingSyscall t = some info :=
    fun info hrec => hwaits.find_iff.mpr ⟨entry, hcall, hrec⟩
  refine ⟨⟨?_, ?_⟩, ⟨?_, ?_⟩, ?_⟩
  · intro h
    obtain ⟨info, hinfo, -⟩ := h
    exact ⟨info, hinfo⟩
  · intro h
    obtain ⟨info, hinfo⟩ := h
    have hwaiting := hfind info (.own hinfo)
    exact ⟨info, hinfo, hwaiting, syscallIret_of_waiting hstep hleave hwaiting⟩
  · intro h
    obtain ⟨info, hwaiting, -⟩ := h
    obtain ⟨entry', hcall', hrec⟩ := hwaits.find_iff.mp hwaiting
    rw [hcall] at hcall'
    cases hcall'
    cases hrec with
    | own hinfo => exact Or.inl ⟨_, hinfo⟩
    | other _ hempty => exact Or.inr hempty
  · intro h
    have hrec : ∃ info, Recorded entry info := by
      by_cases hown : ∃ info, OwnInfo entry info
      · obtain ⟨info, hinfo⟩ := hown
        exact ⟨info, .own hinfo⟩
      · exact ⟨.other, .other (fun info hinfo => hown ⟨info, hinfo⟩) (h.resolve_left hown)⟩
    obtain ⟨info, hrec⟩ := hrec
    exact ⟨info, hfind info hrec, syscallIret_of_waiting hstep hleave (hfind info hrec)⟩
  · rw [syscallmap_of_leave hstep hleave, FlatTable.remove_eq_filter hwaits.distinct]

/-! ## Two threads -/

/-- Thread 1 reads and returns. -/
theorem return_matched_iff_read :
    let enter := threadExit vmexitSwint 0x40#16 3#64 0#64
    let leave := threadExit vmexitIret 0x40#16 0#64 0#64
    let m := Machine.boot.next enter
    (∃ info, OwnInfo (Machine.boot.deliver enter) info ∧ m.vm.waitingSyscall 1#32 = some info ∧
        ∃ r, (syscallIret info).Returns (m.deliver leave) () r) ∧
      (m.next leave).vm.syscallmap = m.vm.syscallmap.filter fun x => x.tid ≠ 1#32 := by
  intro enter leave m
  have hstep : ExitStep Machine.boot enter m := exitStep_next (by decide +kernel)
  have hstep' : ExitStep m leave (m.next leave) := exitStep_next (by decide +kernel)
  have henter : EntersCall (Machine.boot.deliver enter) 1#32 := by decide +kernel
  have hleave : LeavesCall (m.deliver leave) 1#32 := by decide +kernel
  have hrun := Run.snoc .nil (@CallStep.enter _ _ _ Calls.none _ hstep henter rfl)
  obtain ⟨hown, -, hremoved⟩ := return_matched_iff booted_boot hrun hstep' hleave (if_pos rfl)
  exact ⟨hown.mpr ⟨_, .read rfl⟩, hremoved⟩

/-- While thread 1 waits for its read, the return of thread 2 from another call is not seen. -/
theorem return_not_matched :
    let enter := threadExit vmexitSwint 0x40#16 3#64 0#64
    let enter' := threadExit vmexitSwint 0x50#16 20#64 0#64
    let leave := threadExit vmexitIret 0x50#16 0#64 0#64
    let m := (Machine.boot.next enter).next enter'
    (∃ calls entry, Run CallStep (Machine.boot, Calls.none) [enter, enter'] (m, calls) ∧
      calls 2#32 = some entry) ∧
    ExitStep m leave (m.next leave) ∧ LeavesCall (m.deliver leave) 2#32 ∧
    m.vm.waitingSyscall 2#32 = none := by
  intro enter enter' leave m
  have hstep : ExitStep Machine.boot enter (Machine.boot.next enter) :=
    exitStep_next (by decide +kernel)
  have hstep' : ExitStep (Machine.boot.next enter) enter' m := exitStep_next (by decide +kernel)
  have henter : EntersCall (Machine.boot.deliver enter) 1#32 := by decide +kernel
  have henter' : EntersCall ((Machine.boot.next enter).deliver enter') 2#32 := by decide +kernel
  have hrun := Run.snoc .nil (@CallStep.enter _ _ _ Calls.none _ hstep henter rfl)
  have hrun := Run.snoc hrun (CallStep.enter hstep' henter' rfl)
  exact ⟨⟨_, _, hrun, if_pos rfl⟩, exitStep_next (by decide +kernel), by decide +kernel,
    by decide +kernel⟩

end Mavmm
