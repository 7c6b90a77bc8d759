import Mavmm.ExitEvents
import Mavmm.Matching

/-!
# Names of descriptors

What a descriptor of a process stands for is told by the opens and closes of
the process (`nameOf`).  The monitor keeps one table for all processes, adds
what each recorded open returned, takes nothing out, and answers with the first
entry for a number.  Its answer is right when that entry is the open that the
process means (`fname_attributed`).
-/

namespace Mavmm

/-! ## Opens and closes -/

/-- The string that the guest passes to a call in `g_rbx`, as far as its pages are present. -/
structure PassesName (entry : Machine) (name : List Byte) : Prop where
  ne_zero : ∀ c ∈ name, c ≠ 0#8
  bytes : ∀ k ≤ name.length, ∀ p,
    glogic2Hphysic entry.space entry.vmcb.dsSel (entry.regs.rbx + BitVec.ofNat 64 k) = .ok p →
      p ≠ -1#64 → entry.mem p = (name ++ [0#8]).getD k 0#8

/-- An open that has returned: the machines at its entry and its return, and the name. -/
structure Opening (Pid : Type) where
  pid : Pid
  entry : Machine
  name : List Byte
  ret : Machine
  passes : PassesName entry name

inductive FileEvent (Pid : Type) where
  | opened (o : Opening Pid)
  | closed (pid : Pid) (fd : BitVec 32)

section
variable {Pid : Type}

namespace Opening

/-- The result of the call, as an `int`. -/
def fd (o : Opening Pid) : BitVec 32 := o.ret.vmcb.rax.setWidth 32

def Succeeded (o : Opening Pid) : Prop := 0 ≤ o.fd.toInt

instance (o : Opening Pid) : Decidable o.Succeeded := inferInstanceAs (Decidable (_ ≤ _))

/-- The address of the name when the call was entered. -/
def Filename (o : Opening Pid) (p : Addr) : Prop :=
  (regDs GuestRegs.rbx).Returns o.entry p ∧ p ≠ -1#64

/-- The name is short enough, and where the monitor looks for it when the call returns. -/
def Kept (o : Opening Pid) : Prop :=
  o.name.length < vmMaxFilename ∧ ∃ p, o.Filename p ∧
    ∀ k ≤ o.name.length, o.ret.mem (p + BitVec.ofNat 64 k) = (o.name ++ [0#8]).getD k 0#8

/-- What the monitor adds to its table. -/
def stored (o : Opening Pid) : List Fid2nameMap :=
  match (regDs GuestRegs.rbx o.entry).2 with
  | .ok p => if p ≠ -1#64 then o.ret.newNames (.opened p) else []
  | .error _ => []

end Opening

def FileEvent.stored : FileEvent Pid → List Fid2nameMap
  | .opened o => o.stored
  | .closed .. => []

/-- The name passed to the most recent successful open of the process that returned the
descriptor, unless it was closed since.  The latest event comes first. -/
def nameOf [DecidableEq Pid] (pid : Pid) (fd : BitVec 32) : List (FileEvent Pid) → Option (List Byte)
  | [] => none
  | .opened o :: log =>
    if o.pid = pid ∧ o.fd = fd ∧ o.Succeeded then some o.name else nameOf pid fd log
  | .closed pid' fd' :: log => if pid' = pid ∧ fd' = fd then none else nameOf pid fd log

def stdNames : List Fid2nameMap :=
  [⟨0#32, cstr (literal "stdin") 19⟩, ⟨1#32, cstr (literal "stdout") 19⟩,
    ⟨2#32, cstr (literal "stderr") 19⟩]

/-- The name of a standard stream. -/
def stdName (fd : BitVec 32) : Option (List Byte) :=
  (FlatTable.find Fid2nameMap.fid fd stdNames).map Fid2nameMap.fname

/-! ## Runs -/

def sysNrClose : Nat := 6

/-- A step of threads that take turns, with the opens and closes of their processes. -/
inductive FileStep (proc : BitVec 32 → Pid) :
    (Machine × Calls) × List (FileEvent Pid) → GuestExit →
      (Machine × Calls) × List (FileEvent Pid) → Prop
  | close {s s' : Machine × Calls} {e : GuestExit} {log : List (FileEvent Pid)} {t : BitVec 32}
      (hcall : CallStep s e s') (h : EntersCall (s.1.deliver e) t)
      (hnr : (s.1.deliver e).callNo = sysNrClose) :
      FileStep proc (s, log) e (s', .closed (proc t) (e.regs.rbx.setWidth 32) :: log)
  | enter {s s' : Machine × Calls} {e : GuestExit} {log : List (FileEvent Pid)} {t : BitVec 32}
      (hcall : CallStep s e s') (h : EntersCall (s.1.deliver e) t)
      (hnr : (s.1.deliver e).callNo ≠ sysNrClose) : FileStep proc (s, log) e (s', log)
  | opened {s s' : Machine × Calls} {e : GuestExit} {log : List (FileEvent Pid)} {t : BitVec 32}
      {o : Opening Pid} (hcall : CallStep s e s') (h : LeavesCall (s.1.deliver e) t)
      (hentry : s.2 t = some o.entry) (hnr : o.entry.callNo = sysNrOpen) (hpid : o.pid = proc t)
      (hret : o.ret = s.1.deliver e) : FileStep proc (s, log) e (s', .opened o :: log)
  | leave {s s' : Machine × Calls} {e : GuestExit} {log : List (FileEvent Pid)} {t : BitVec 32}
      {entry : Machine} (hcall : CallStep s e s') (h : LeavesCall (s.1.deliver e) t)
      (hentry : s.2 t = some entry) (hnr : entry.callNo ≠ sysNrOpen) :
      FileStep proc (s, log) e (s', log)
  | other {s s' : Machine × Calls} {e : GuestExit} {log : List (FileEvent Pid)}
      (hcall : CallStep s e s')
      (henter : e.vmcb.exitcode = vmexitSwint → ¬ intVector.Returns (s.1.deliver e) 0x80#8)
      (hleave : e.vmcb.exitcode ≠ vmexitIret) : FileStep proc (s, log) e (s', log)

variable {proc : BitVec 32 → Pid} {s s' : (Machine × Calls) × List (FileEvent Pid)} {e : GuestExit}

theorem FileStep.callStep (h : FileStep proc s e s') : CallStep s.1 e s'.1 := by
  cases h with
  | close hcall => exact hcall
  | enter hcall => exact hcall
  | opened hcall => exact hcall
  | leave hcall => exact hcall
  | other hcall => exact hcall

/-- The standard names, then what every open stored, the oldest first. -/
def storedNames (log : List (FileEvent Pid)) : List Fid2nameMap :=
  stdNames ++ log.reverse.flatMap FileEvent.stored

theorem storedNames_cons (ev : FileEvent Pid) (log : List (FileEvent Pid)) :
    storedNames (ev :: log) = storedNames log ++ ev.stored := by
  unfold storedNames
  rw [List.reverse_cons, List.flatMap_append, List.append_assoc]
  simp

/-! ## One return -/

/-- An open that made no record stores nothing. -/
theorem Opening.stored_of_not_own {o : Opening Pid} (hnr : o.entry.callNo = sysNrOpen)
    (h : ∀ info, ¬ OwnInfo o.entry info) : o.stored = [] := by
  unfold Opening.stored
  split
  · next p hp =>
    refine if_neg fun hne => ?_
    exact h _ (.opened hnr hp hne)
  · rfl

/-- The names that a return adds are those of the open it ends. -/
theorem newNames_of_recorded {entry ret : Machine} {info : SyscallInfo} (h : Recorded entry info) :
    (entry.callNo ≠ sysNrOpen → ret.newNames info = []) ∧
      ∀ o : Opening Pid, o.entry = entry → o.ret = ret → o.entry.callNo = sysNrOpen →
        ret.newNames info = o.stored := by
  cases h with
  | own hinfo =>
    cases hinfo with
    | read hread =>
      refine ⟨fun _ => rfl, fun o hentry _ hnr => ?_⟩
      rw [hentry] at hnr
      exact absurd (hread.symm.trans hnr) (by decide)
    | opened hopen hp hne =>
      refine ⟨fun hnr => absurd hopen hnr, fun o hentry hret _ => ?_⟩
      subst hentry hret
      have hp : (regDs GuestRegs.rbx o.entry).2 = .ok _ := hp
      rw [Opening.stored, hp]
      exact (if_pos hne).symm
    | recvfrom hsocket =>
      refine ⟨fun _ => rfl, fun o hentry _ hnr => ?_⟩
      rw [hentry] at hnr
      exact absurd (hsocket.symm.trans hnr) (by decide)
  | other hnone =>
    refine ⟨fun _ => rfl, fun o hentry _ hnr => ?_⟩
    subst hentry
    exact (Opening.stored_of_not_own hnr hnone).symm

/-- What the table gains when a thread returns. -/
theorem fmap_of_leave {m m' entry : Machine} {calls : Calls} {t : BitVec 32}
    (hwaits : Waits m.vm.syscallmap calls) (hstep : ExitStep m e m')
    (hleave : LeavesCall (m.deliver e) t) (hentry : calls t = some entry) :
    (entry.callNo ≠ sysNrOpen → m'.vm.fmap = m.vm.fmap) ∧
      ∀ o : Opening Pid, o.entry = entry → o.ret = m.deliver e → o.entry.callNo = sysNrOpen →
        m'.vm.fmap = m.vm.fmap ++ o.stored := by
  obtain ⟨fmap, syscallmap, htables, hvm, -⟩ :=
    handleVmIret_spec ((handleVmexit_dispatch hstep.returns).iret hleave.exit)
  have hfmap : m'.vm.fmap = fmap := by rw [hvm]
  have hnone : m.vm.waitingSyscall t = none → ∀ info, ¬ OwnInfo entry info := by
    intro hnone info hinfo
    have hsome : m.vm.waitingSyscall t = some info :=
      hwaits.find_iff.mpr ⟨entry, hentry, .own hinfo⟩
    rw [hnone] at hsome
    cases hsome
  have hkeep : m.vm.waitingSyscall t = none → fmap = m.vm.fmap →
      (entry.callNo ≠ sysNrOpen → m'.vm.fmap = m.vm.fmap) ∧
      ∀ o : Opening Pid, o.entry = entry → o.ret = m.deliver e → o.entry.callNo = sysNrOpen →
        m'.vm.fmap = m.vm.fmap ++ o.stored := by
    intro h heq
    refine ⟨fun _ => hfmap.trans heq, fun o hoentry _ hnr => ?_⟩
    rw [Opening.stored_of_not_own hnr (hoentry ▸ hnone h), List.append_nil, hfmap, heq]
  cases htables with
  | idle hempty =>
    refine hkeep ?_ rfl
    unfold VmInfo.waitingSyscall
    rw [show m.vm.syscallmap = [] from hempty]
    rfl
  | unmatched hne htid h =>
    rw [htid.unique hleave.thread] at h
    exact hkeep h rfl
  | matched hne htid h =>
    rw [htid.unique hleave.thread] at h
    obtain ⟨entry', hentry', hrec⟩ := hwaits.find_iff.mp h
    rw [hentry] at hentry'
    cases hentry'
    obtain ⟨hother, hopen⟩ := @newNames_of_recorded Pid _ (m.deliver e) _ hrec
    refine ⟨fun hnr => ?_, fun o hoentry hret hnr => ?_⟩
    · rw [hfmap, hother hnr, List.append_nil]
      rfl
    · rw [hfmap, hopen o hoentry hret hnr]
      rfl

theorem Handled.fmap_eq {m : Machine} {vm : VmInfo} {c : Control} (h : Handled m vm c)
    (hleave : m.vmcb.exitcode ≠ vmexitIret) : vm.fmap = m.vm.fmap := by
  cases h with
  | iret hexit => exact absurd hexit hleave
  | quiet => rfl
  | syscall => rfl
  | debug => rfl
  | unpack => rfl
  | cr3Write => rfl
  | popf => rfl
  | enable => rfl
  | disable => rfl

/-! ## Steps and runs -/

/-- The two tables, against the outstanding calls and the opens of the run. -/
structure Tables (s : (Machine × Calls) × List (FileEvent Pid)) : Prop where
  waits : Waits s.1.1.vm.syscallmap s.1.2
  names : s.1.1.vm.fmap = storedNames s.2

theorem fmap_of_enter {s s' : Machine × Calls} {t : BitVec 32} (hcall : CallStep s e s')
    (h : EntersCall (s.1.deliver e) t) : s'.1.vm.fmap = s.1.vm.fmap := by
  have hleave : (s.1.deliver e).vmcb.exitcode ≠ vmexitIret := by
    rw [h.exit]
    decide
  cases hcall with
  | enter hstep => exact (handleVmexit_spec hstep.returns).fmap_eq hleave
  | leave _ hleave' => exact absurd hleave'.exit hleave
  | other hstep => exact (handleVmexit_spec hstep.returns).fmap_eq hleave

theorem CallStep.of_leave {s s' : Machine × Calls} {t : BitVec 32} (hcall : CallStep s e s')
    (h : LeavesCall (s.1.deliver e) t) : ExitStep s.1 e s'.1 := by
  cases hcall with
  | enter hstep => exact hstep
  | leave hstep => exact hstep
  | other hstep => exact hstep

theorem tables_step (h : Tables s) (hstep : FileStep proc s e s') : Tables s' := by
  refine ⟨waits_step h.waits hstep.callStep, ?_⟩
  have hnames := h.names
  cases hstep with
  | close hcall henter hnr =>
    rw [storedNames_cons, ← hnames]
    exact (fmap_of_enter hcall henter).trans (List.append_nil _).symm
  | enter hcall henter hnr => exact (fmap_of_enter hcall henter).trans hnames
  | @opened s s' e log t o hcall hleave hentry hnr hpid hret =>
    rw [storedNames_cons, ← hnames]
    exact (fmap_of_leave h.waits (hcall.of_leave hleave) hleave hentry).2 o rfl hret hnr
  | @leave s s' e log t entry hcall hleave hentry hnr =>
    exact ((@fmap_of_leave Pid _ _ _ _ _ _ h.waits (hcall.of_leave hleave) hleave hentry).1
      hnr).trans hnames
  | other hcall henter hleave =>
    cases hcall with
    | enter hstep => exact ((handleVmexit_spec hstep.returns).fmap_eq hleave).trans hnames
    | leave hstep => exact ((handleVmexit_spec hstep.returns).fmap_eq hleave).trans hnames
    | other hstep => exact ((handleVmexit_spec hstep.returns).fmap_eq hleave).trans hnames

theorem tables_run {m₀ : Machine} {es : List GuestExit} (hboot : Booted m₀)
    (hrun : Run (FileStep proc) ((m₀, Calls.none), []) es s) : Tables s := by
  refine hrun.invariant ?_ fun h hstep => tables_step h hstep
  constructor
  · change Waits m₀.vm.syscallmap _
    rw [hboot.vm_eq]
    exact waits_nil
  · change m₀.vm.fmap = _
    rw [hboot.vm_eq]
    rfl

/-! ## Answers -/

theorem cstr_eq {f : Nat → Byte} {name : List Byte} {n : Nat} (hlen : name.length ≤ n)
    (hne : ∀ c ∈ name, c ≠ 0#8) (h : ∀ k ≤ name.length, f k = (name ++ [0#8]).getD k 0#8) :
    cstr f n = name := by
  induction name generalizing f n with
  | nil =>
    unfold cstr
    cases n with
    | zero => rfl
    | succ n =>
      have hzero : f 0 = 0#8 := h 0 (Nat.le_refl _)
      rw [List.range_succ_eq_map, List.map_cons, List.takeWhile_cons_of_neg (by simp [hzero])]
  | cons c name ih =>
    obtain ⟨n, rfl⟩ : ∃ n', n = n' + 1 := ⟨n - 1, by rw [List.length_cons] at hlen; omega⟩
    have hc : f 0 = c := h 0 (Nat.zero_le _)
    have hrest : cstr (fun k => f (k + 1)) n = name := by
      refine ih (Nat.le_of_succ_le_succ hlen) (fun c hc => hne c (List.mem_cons_of_mem _ hc)) ?_
      intro k hk
      exact h (k + 1) (Nat.succ_le_succ hk)
    unfold cstr at hrest ⊢
    rw [List.range_succ_eq_map, List.map_cons, List.map_map, hc,
      List.takeWhile_cons_of_pos (by simpa using hne c List.mem_cons_self)]
    exact congrArg (c :: ·) hrest

/-- A kept open stores its name. -/
theorem Opening.Kept.stored_eq {o : Opening Pid} (h : o.Kept) : o.stored = [⟨o.fd, o.name⟩] := by
  obtain ⟨hlen, p, ⟨hp, hne⟩, hbytes⟩ := h
  have hp : (regDs GuestRegs.rbx o.entry).2 = .ok p := hp
  unfold Opening.stored
  rw [hp]
  have hname : cstr (fun k => o.ret.mem (p + BitVec.ofNat 64 k)) (vmMaxFilename - 1) = o.name :=
    cstr_eq (Nat.le_of_lt_succ hlen) o.passes.ne_zero hbytes
  dsimp only [Machine.newNames]
  rw [if_pos hne, hname]
  rfl

theorem Opening.fid_of_stored {o : Opening Pid} {x : Fid2nameMap} (h : x ∈ o.stored) :
    x.fid = o.fd ∧ ∃ p, o.Filename p := by
  unfold Opening.stored at h
  split at h
  · next p hp =>
    split at h
    · next hne =>
      rw [List.mem_singleton.mp h]
      exact ⟨rfl, p, hp, hne⟩
    · cases h
  · cases h

/-- The monitor's answer about the descriptor can be traced to the open the process means: it is a
standard stream that the process has not opened anew; or the first open that was recorded with the
number is the latest one by the process, succeeded, was not closed since and kept its name; or
no open was recorded with it and the process has none. -/
inductive Traceable [DecidableEq Pid] (log : List (FileEvent Pid)) (pid : Pid) (id : BitVec 32) : Prop
  | std (hstd : stdName id ≠ none) (hnone : nameOf pid id log = none)
  | first {after before : List (FileEvent Pid)} {o : Opening Pid} (hstd : stdName id = none)
      (hlog : log = after ++ .opened o :: before) (hpid : o.pid = pid) (hid : o.fd = id)
      (hok : o.Succeeded) (hkept : o.Kept)
      (hbefore : ∀ o', .opened o' ∈ before → o'.fd = id → ∀ p, ¬ o'.Filename p)
      (hopened : ∀ o', .opened o' ∈ after → o'.fd = id → o'.Succeeded → o'.pid ≠ pid)
      (hclosed : .closed pid id ∉ after)
  | none (hstd : stdName id = none) (hnone : nameOf pid id log = none)
      (hlog : ∀ o', .opened o' ∈ log → o'.fd = id → ∀ p, ¬ o'.Filename p)

theorem nameOf_append [DecidableEq Pid] {pid : Pid} {id : BitVec 32} (log : List (FileEvent Pid)) :
    ∀ {after : List (FileEvent Pid)},
      (∀ o', .opened o' ∈ after → o'.fd = id → o'.Succeeded → o'.pid ≠ pid) →
      .closed pid id ∉ after → nameOf pid id (after ++ log) = nameOf pid id log := by
  intro after
  induction after with
  | nil => exact fun _ _ => rfl
  | cons ev after ih =>
    intro hopened hclosed
    have hrest := ih (fun o' ho' => hopened o' (List.mem_cons_of_mem _ ho'))
      fun hmem => hclosed (List.mem_cons_of_mem _ hmem)
    cases ev with
    | opened o =>
      have hno : ¬ (o.pid = pid ∧ o.fd = id ∧ o.Succeeded) :=
        fun h => hopened o List.mem_cons_self h.2.1 h.2.2 h.1
      exact (if_neg hno).trans hrest
    | closed pid' fd' =>
      have hno : ¬ (pid' = pid ∧ fd' = id) := by
        intro h
        obtain ⟨rfl, rfl⟩ := h
        exact hclosed List.mem_cons_self
      exact (if_neg hno).trans hrest

/-- Entries that no recorded open of the log has the number of. -/
theorem find_stored_eq_none {log : List (FileEvent Pid)} {id : BitVec 32}
    (h : ∀ o', .opened o' ∈ log → o'.fd = id → ∀ p, ¬ o'.Filename p) :
    FlatTable.find Fid2nameMap.fid id (log.reverse.flatMap FileEvent.stored) = none := by
  refine FlatTable.find_eq_none.mpr fun x hx hid => ?_
  obtain ⟨ev, hev, hx⟩ := List.mem_flatMap.mp hx
  cases ev with
  | closed pid fd => cases hx
  | opened o =>
    obtain ⟨hfid, p, hp⟩ := Opening.fid_of_stored hx
    exact h o (List.mem_reverse.mp hev) (hfid.symm.trans hid) p hp

/-- The answer from the table of all opens is the name of the open the process means. -/
theorem Traceable.find_eq [DecidableEq Pid] {log : List (FileEvent Pid)} {pid : Pid} {id : BitVec 32}
    (h : Traceable log pid id) :
    (FlatTable.find Fid2nameMap.fid id (storedNames log)).map Fid2nameMap.fname =
      (nameOf pid id log).or (stdName id) := by
  unfold storedNames
  rw [FlatTable.find_append]
  cases h with
  | std hstd hnone =>
    rw [hnone, Option.none_or]
    unfold stdName at hstd ⊢
    cases hfind : FlatTable.find Fid2nameMap.fid id stdNames with
    | none =>
      rw [hfind] at hstd
      exact absurd rfl hstd
    | some x => rfl
  | @first after before o hstd hlog hpid hid hok hkept hbefore hopened hclosed =>
    subst hlog
    have hname : nameOf pid id (.opened o :: before) = some o.name := if_pos ⟨hpid, hid, hok⟩
    rw [nameOf_append _ hopened hclosed, hname, Option.map_eq_none_iff.mp hstd, Option.none_or,
      List.reverse_append, List.reverse_cons, List.append_assoc, List.flatMap_append,
      FlatTable.find_append, find_stored_eq_none hbefore, Option.none_or, List.singleton_append,
      List.flatMap_cons, show (FileEvent.opened o).stored = o.stored from rfl, hkept.stored_eq,
      List.singleton_append, @FlatTable.find_cons_of_eq _ _ _ Fid2nameMap.fid id _ ⟨o.fd, o.name⟩ hid]
    rfl
  | none hstd hnone hlog =>
    rw [hnone, hstd, Option.map_eq_none_iff.mp hstd, find_stored_eq_none hlog]
    rfl

/-- The answer is what the process means by the descriptor, or the name of a standard stream. -/
def Attributed [DecidableEq Pid] (log : List (FileEvent Pid)) (pid : Pid) : Event → Prop
  | .fname id name => Traceable log pid id → name = (nameOf pid id log).or (stdName id)
  | _ => True

/-- After a run of any threads of any processes, every answer that the handling of a call is given
and that can be traced is right. -/
theorem fname_attributed [DecidableEq Pid] {m₀ m : Machine} {calls : Calls}
    {log : List (FileEvent Pid)} {es : List GuestExit} {t : BitVec 32} (hboot : Booted m₀)
    (hrun : Run (FileStep proc) ((m₀, Calls.none), []) es ((m, calls), log))
    (_h : EntersCall (m.deliver e) t) :
    handleVmexit.Emits (Attributed log (proc t)) (m.deliver e) := by
  refine ⟨fun ev hev => ?_⟩
  have hallowed := handleVmexit_emits.all ev hev
  cases ev with
  | fname id name =>
    intro htrace
    have hname : name = m.vm.fnameFromId id := hallowed
    have htable : m.vm.fmap = storedNames log := (tables_run hboot hrun).names
    rw [hname, VmInfo.fnameFromId, htable]
    exact htrace.find_eq
  | deref p => trivial
  | descriptor p => trivial
  | dirWord a => trivial
  | slot page off len => trivial
  | out fmt args => trivial

end

/-! ## One process -/

/-- The process opens the file "a" and gets descriptor 3. -/
def openA : GuestExit := threadExit vmexitSwint 0x40#16 5#64 0x600#64
def openedA : GuestExit := threadExit vmexitIret 0x40#16 3#64 0#64

/-- It reads from descriptor 3. -/
def readA : GuestExit := threadExit vmexitSwint 0x40#16 3#64 3#64

theorem passesName_a : PassesName (Machine.boot.deliver openA) [0x61#8] where
  ne_zero := by decide
  bytes := by
    intro k hk p hp _
    have hk : k = 0 ∨ k = 1 := by
      rw [List.length_singleton] at hk
      omega
    rcases hk with rfl | rfl
    · cases hp
      decide +kernel
    · cases hp
      decide +kernel

def openingA : Opening (BitVec 32) where
  pid := 1#32
  entry := Machine.boot.deliver openA
  name := [0x61#8]
  ret := (Machine.boot.next openA).deliver openedA
  passes := passesName_a

section
variable {proc : BitVec 32 → BitVec 32} {m₀ m m₁ m₂ : Machine} {calls : Calls}
  {log : List (FileEvent (BitVec 32))} {es : List GuestExit} {e₁ e₂ : GuestExit} {t : BitVec 32}

/-- A thread opens a file. -/
theorem run_open {o : Opening (BitVec 32)}
    (hrun : Run (FileStep proc) ((m₀, Calls.none), []) es ((m, calls), log)) (hfree : calls t = none)
    (hstep : ExitStep m e₁ m₁) (hstep' : ExitStep m₁ e₂ m₂) (henter : EntersCall (m.deliver e₁) t)
    (hleave : LeavesCall (m₁.deliver e₂) t) (hentry : o.entry = m.deliver e₁)
    (hret : o.ret = m₁.deliver e₂) (hpid : o.pid = proc t) (hnr : o.entry.callNo = sysNrOpen) :
    ∃ calls', Run (FileStep proc) ((m₀, Calls.none), []) (es ++ [e₁] ++ [e₂])
      ((m₂, calls'), .opened o :: log) ∧ calls' t = none := by
  have hcall : calls.set t (some (m.deliver e₁)) t = some o.entry :=
    (if_pos rfl).trans (congrArg some hentry.symm)
  have hne : (m.deliver e₁).callNo ≠ sysNrClose := by
    rw [← hentry, hnr]
    decide
  have hrun := hrun.snoc (.enter (.enter hstep henter hfree) henter hne)
  have hrun := hrun.snoc (.opened (.leave hstep' hleave hcall) hleave hcall hnr hpid hret)
  exact ⟨_, hrun, if_pos rfl⟩

/-- A thread closes a descriptor. -/
theorem run_close (hrun : Run (FileStep proc) ((m₀, Calls.none), []) es ((m, calls), log))
    (hfree : calls t = none) (hstep : ExitStep m e₁ m₁) (hstep' : ExitStep m₁ e₂ m₂)
    (henter : EntersCall (m.deliver e₁) t) (hleave : LeavesCall (m₁.deliver e₂) t)
    (hnr : (m.deliver e₁).callNo = sysNrClose) :
    ∃ calls', Run (FileStep proc) ((m₀, Calls.none), []) (es ++ [e₁] ++ [e₂])
      ((m₂, calls'), .closed (proc t) (e₁.regs.rbx.setWidth 32) :: log) := by
  have hcall : calls.set t (some (m.deliver e₁)) t = some (m.deliver e₁) := if_pos rfl
  have hne : (m.deliver e₁).callNo ≠ sysNrOpen := by
    rw [hnr]
    decide
  have hrun := hrun.snoc (.close (.enter hstep henter hfree) henter hnr)
  have hrun := hrun.snoc (.leave (.leave hstep' hleave hcall) hleave hcall hne)
  exact ⟨_, hrun⟩

end

/-- The machine after the open. -/
def openedMachine : Machine := (Machine.boot.next openA).next openedA

theorem run_openA : ∃ calls, Run (FileStep fun t => t) ((Machine.boot, Calls.none), [])
    [openA, openedA] ((openedMachine, calls), [.opened openingA]) ∧ calls 1#32 = none := by
  have hstep : ExitStep Machine.boot openA (Machine.boot.next openA) :=
    exitStep_next (by decide +kernel)
  have hstep' : ExitStep (Machine.boot.next openA) openedA openedMachine :=
    exitStep_next (by decide +kernel)
  have henter : EntersCall (Machine.boot.deliver openA) 1#32 := by decide +kernel
  have hleave : LeavesCall ((Machine.boot.next openA).deliver openedA) 1#32 := by decide +kernel
  exact run_open .nil rfl hstep hstep' henter hleave rfl rfl rfl rfl

theorem fname_attributed_read :
    Traceable [.opened openingA] 1#32 3#32 ∧ nameOf 1#32 3#32 [.opened openingA] = some [0x61#8] ∧
      handleVmexit.Emits (Attributed [.opened openingA] 1#32) (openedMachine.deliver readA) := by
  have hkept : openingA.Kept := by
    refine ⟨by decide, 0xa00#64, ⟨rfl, by decide⟩, fun k hk => ?_⟩
    have hk : k = 0 ∨ k = 1 := by
      rw [show openingA.name.length = 1 from rfl] at hk
      omega
    rcases hk with rfl | rfl <;> decide +kernel
  have htrace : Traceable [.opened openingA] 1#32 3#32 :=
    @Traceable.first _ _ _ 1#32 3#32 [] [] openingA (by decide +kernel) rfl rfl rfl (by decide)
      hkept (fun _ h => absurd h List.not_mem_nil) (fun _ h => absurd h List.not_mem_nil)
      List.not_mem_nil
  have hname : nameOf 1#32 3#32 [.opened openingA] = some [0x61#8] := if_pos ⟨rfl, rfl, by decide⟩
  have henter : EntersCall (openedMachine.deliver readA) 1#32 := by decide +kernel
  obtain ⟨calls, hrun, -⟩ := run_openA
  exact ⟨htrace, hname, fname_attributed booted_boot hrun henter⟩

/-- It closes the descriptor. -/
def closeA : GuestExit := threadExit vmexitSwint 0x40#16 6#64 3#64
def closedA : GuestExit := threadExit vmexitIret 0x40#16 0#64 0#64

def closedMachine : Machine := (openedMachine.next closeA).next closedA

/-- After the close, a read from descriptor 3 is still said to be from "a". -/
theorem fname_not_attributed : ∃ calls log,
    Run (FileStep fun t => t) ((Machine.boot, Calls.none), []) [openA, openedA, closeA, closedA]
      ((closedMachine, calls), log) ∧
    EntersCall (closedMachine.deliver readA) 1#32 ∧
    ¬ handleVmexit.Emits (fun
      | .fname id name => name = (nameOf 1#32 id log).or (stdName id)
      | _ => True) (closedMachine.deliver readA) := by
  obtain ⟨calls, hrun, hfree⟩ := run_openA
  have hstep : ExitStep openedMachine closeA (openedMachine.next closeA) :=
    exitStep_next (by decide +kernel)
  have hstep' : ExitStep (openedMachine.next closeA) closedA closedMachine :=
    exitStep_next (by decide +kernel)
  have henter : EntersCall (openedMachine.deliver closeA) 1#32 := by decide +kernel
  have hleave : LeavesCall ((openedMachine.next closeA).deliver closedA) 1#32 := by decide +kernel
  obtain ⟨calls', hrun⟩ := run_close hrun hfree hstep hstep' henter hleave rfl
  have hread : EntersCall (closedMachine.deliver readA) 1#32 := by decide +kernel
  refine ⟨calls', _, hrun, hread, fun hemits => ?_⟩
  have hsome : (handleVmexit (closedMachine.deliver readA)).1.any (fun
      | .fname id name => id = 3#32 ∧ name = some [0x61#8]
      | _ => false) = true := by decide +kernel
  obtain ⟨ev, hev, hmatch⟩ := List.any_eq_true.mp hsome
  have hclaim := hemits.all ev hev
  cases ev with
  | fname id name =>
    obtain ⟨rfl, rfl⟩ := of_decide_eq_true hmatch
    have hnone : nameOf 1#32 3#32 [.closed 1#32 3#32, .opened openingA] = none := if_pos ⟨rfl, rfl⟩
    have hclaim : some [0x61#8] =
      (nameOf 1#32 3#32 [.closed 1#32 3#32, .opened openingA]).or (stdName 3#32) := hclaim
    rw [hnone] at hclaim
    cases hclaim
  | deref p => cases hmatch
  | descriptor p => cases hmatch
  | dirWord a => cases hmatch
  | slot page off len => cases hmatch
  | out fmt args => cases hmatch

end Mavmm
