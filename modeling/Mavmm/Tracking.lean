import Mavmm.Features

/-!
# Tracked processes

The user names the processes to be monitored.  What should be is kept beside
the machine: the list of the names that were enabled and not disabled since.
`vm_is_process_tracked` answers yes for every process, so no name is ever
added, every process counts as tracked, and every disable switches the
interception of task switches off; the machine and the list agree as long as
nothing is enabled and no process is switched to (`tracking_right_iff`).
-/

namespace Mavmm

/-- The name of a process. -/
abbrev Name := List Byte

/-- The string at `p` is `name`, and fits in a slot of the list. -/
structure NamedAt (mem : Mem) (name : Name) (p : Addr) : Prop where
  short : name.length < vmMaxPnameLen
  nonzero : ∀ c ∈ name, c ≠ 0#8
  equal : strEqual mem name p = true

/-- What an exit means for the processes that should be monitored. -/
inductive TrackEvent where
  | enable (name : Name)
  | disable (name : Name)
  | switch (name : Name)
  | other

/-- The names that should be monitored after the event. -/
def TrackEvent.apply (names : List Name) : TrackEvent → List Name
  | .enable name => names.insert name
  | .disable name => names.erase name
  | .switch _ => names
  | .other => names

/-- A command about the interception of task switches. -/
def TrackCommand (m : Machine) (cmd : BitVec 64) : Prop :=
  m.vmcb.exitcode = vmexitVmmcall ∧ m.regs.rbx = cmd ∧
    has (m.regs.rcx.setWidth 32) userItcTaskswitch = true

/-- The machine stopped at an exit that means the event. -/
inductive Means (m : Machine) : TrackEvent → Prop
  | enable {name : Name} {p : Addr} (hcmd : TrackCommand m userCmdEnable)
      (hp : (regDs GuestRegs.rdx).Returns m p) (hname : NamedAt m.mem name p) :
      Means m (.enable name)
  | disable {name : Name} {p : Addr} (hcmd : TrackCommand m userCmdDisable)
      (hp : (regDs GuestRegs.rdx).Returns m p) (hname : NamedAt m.mem name p) :
      Means m (.disable name)
  | switch {name : Name} {p : Addr} (hexit : m.vmcb.exitcode = vmexitPopf)
      (hp : (getCurProcessName 0).Returns m p) (hname : NamedAt m.mem name p) :
      Means m (.switch name)
  | other (henable : ¬ TrackCommand m userCmdEnable) (hdisable : ¬ TrackCommand m userCmdDisable)
      (hpopf : m.vmcb.exitcode ≠ vmexitPopf) : Means m .other

/-- The machine, and the names that should be monitored. -/
structure Tracked where
  machine : Machine
  names : List Name

/-- An exit, its meaning, and its handling. -/
structure TrackStep (s : Tracked) (i : GuestExit × TrackEvent) (s' : Tracked) : Prop where
  exit : ExitStep s.machine i.1 s'.machine
  means : Means (s.machine.deliver i.1) i.2
  names : s'.names = i.2.apply s.names

/-- The process that runs is monitored: it is marked, and every requested feature is on. -/
def Monitored (m : Machine) : Prop :=
  m.vm.btrackcurrent = true ∧
    ∀ f, asked m.vm.itcFlag f = true → m.vmcb.control.on f = true

/-- What the monitor keeps after the step is what should be. -/
structure TrackRight (s : Tracked) (i : GuestExit × TrackEvent) (s' : Tracked) : Prop where
  count : s'.machine.vm.ptracked.length = s'.names.length
  switch : ∀ name, i.2 = .switch name → (Monitored s'.machine ↔ name ∈ s'.names)
  cr3 : ∀ name, i.2 = .disable name → has s.machine.vmcb.crIntercepts intrcptWriteCr3 = true →
    has s'.machine.vmcb.crIntercepts intrcptWriteCr3 = false → s'.names = []

/-- The step enables nothing and switches to no process. -/
def Untracked (i : GuestExit × TrackEvent) : Prop :=
  (∃ name, i.2 = .disable name) ∨ i.2 = .other

section
variable {m m' : Machine} {e : GuestExit} {s s' : Tracked} {i : GuestExit × TrackEvent}

/-- The monitor's own list is never longer than it was. -/
theorem Handled.ptracked_length {vm : VmInfo} {c : Control} (h : Handled m vm c) :
    vm.ptracked.length ≤ m.vm.ptracked.length := by
  cases h with
  | disable hexit hcmd hflags hptracked => exact hptracked
  | _ => exact Nat.le_refl _

theorem ptracked_step (hempty : m.vm.ptracked = []) (hstep : ExitStep m e m') :
    m'.vm.ptracked = [] := by
  have hle := (handleVmexit_spec hstep.returns).ptracked_length
  change m'.vm.ptracked.length ≤ m.vm.ptracked.length at hle
  rw [hempty] at hle
  exact List.length_eq_zero_iff.mp (Nat.le_zero.mp hle)

/-- After a context switch the process that runs is monitored, whatever its name is. -/
theorem monitored_popf (hexit : e.vmcb.exitcode = vmexitPopf) (hstep : ExitStep m e m') :
    Monitored m' := by
  obtain ⟨hvm, hvmcb⟩ := handlePopf_spec ((handleVmexit_dispatch hstep.returns).popf hexit)
  unfold Monitored
  rw [hvm, hvmcb]
  refine ⟨rfl, fun f hf => ?_⟩
  rw [on_enableIntercept, asked_without_taskswitch, Bool.or_eq_true]
  exact Or.inr hf

/-- While no name should be monitored, a step is right exactly when it stays so. -/
theorem trackRight_iff (hnames : s.names = []) (hempty : s.machine.vm.ptracked = [])
    (hstep : TrackStep s i s') : TrackRight s i s' ↔ Untracked i := by
  have hlist := ptracked_step hempty hstep.exit
  have happly := hstep.names
  rw [hnames] at happly
  constructor
  · intro h
    cases hi : i.2 with
    | enable name =>
      have hcount := h.count
      rw [hlist, happly, hi] at hcount
      cases hcount
    | disable name => exact Or.inl ⟨name, hi⟩
    | switch name =>
      have hmeans := hstep.means
      rw [hi] at hmeans
      cases hmeans with
      | switch hexit hp hname =>
        have hmem := (h.switch name hi).mp (monitored_popf hexit hstep.exit)
        rw [happly, hi] at hmem
        cases hmem
    | other => exact Or.inr hi
  · intro h
    have hnone : s'.names = [] := by
      rw [happly]
      obtain ⟨name, hi⟩ | hi := h
      · rw [hi]
        rfl
      · rw [hi]
        rfl
    refine ⟨by rw [hlist, hnone], fun name hi => ?_, fun name hi hon hoff => hnone⟩
    obtain ⟨name', hi'⟩ | hi' := h
    · rw [hi'] at hi
      cases hi
    · rw [hi'] at hi
      cases hi

end

/-- In a run from the booted machine every step leaves what the user asked for exactly when no
process is enabled and none is switched to. -/
theorem tracking_right_iff {m₀ : Machine} {s : Tracked} {is : List (GuestExit × TrackEvent)}
    (hboot : Booted m₀) :
    Run (fun s i s' => TrackStep s i s' ∧ TrackRight s i s') ⟨m₀, []⟩ is s ↔
      Run (fun s i s' => TrackStep s i s' ∧ Untracked i) ⟨m₀, []⟩ is s := by
  have hstart : m₀.vm.ptracked = [] := by rw [hboot.vm_eq]
  have hnames : ∀ {s i s'}, s.names = [] → TrackStep s i s' → Untracked i → s'.names = [] := by
    intro s i s' hs hstep huntracked
    rw [hstep.names, hs]
    obtain ⟨name, hi⟩ | hi := huntracked
    · rw [hi]
      rfl
    · rw [hi]
      rfl
  constructor
  · intro h
    have hboth : Run (fun s i s' => TrackStep s i s' ∧ Untracked i) ⟨m₀, []⟩ is s ∧
        s.names = [] ∧ s.machine.vm.ptracked = [] := by
      induction h with
      | nil => exact ⟨.nil, rfl, hstart⟩
      | snoc _ hstep ih =>
        obtain ⟨hrun, hs, hempty⟩ := ih
        have huntracked := (trackRight_iff hs hempty hstep.1).mp hstep.2
        exact ⟨hrun.snoc ⟨hstep.1, huntracked⟩, hnames hs hstep.1 huntracked,
          ptracked_step hempty hstep.1.exit⟩
    exact hboth.1
  · intro h
    have hboth : Run (fun s i s' => TrackStep s i s' ∧ TrackRight s i s') ⟨m₀, []⟩ is s ∧
        s.names = [] ∧ s.machine.vm.ptracked = [] := by
      induction h with
      | nil => exact ⟨.nil, rfl, hstart⟩
      | snoc _ hstep ih =>
        obtain ⟨hrun, hs, hempty⟩ := ih
        have hright := (trackRight_iff hs hempty hstep.1).mpr hstep.2
        exact ⟨hrun.snoc ⟨hstep.1, hright⟩, hnames hs hstep.1 hstep.2,
          ptracked_step hempty hstep.1.exit⟩
    exact hboth.1

/-- A command that names a process, with the name where the data segment starts. -/
def nameCommand (cmd : BitVec 64) (name : Byte) : GuestExit where
  vmcb := { Vmcb.mbrStart with exitcode := vmexitVmmcall }
  regs := { Machine.boot.regs with rbx := cmd, rcx := 2#64 }
  mem := fun a => if a = 0x400#64 then name else 0#8

/-- The end of a switch to a process, with the name in its `task_struct`. -/
def nameSwitch (name : Byte) : GuestExit where
  vmcb := { Vmcb.mbrStart with exitcode := vmexitPopf }
  regs := Machine.boot.regs
  mem := fun a => if a = 0x58c#64 then name else 0#8

theorem namedAt_single {mem : Mem} {c : Byte} {p : Addr} (hc : c ≠ 0#8)
    (hequal : strEqual mem [c] p = true) : NamedAt mem [c] p :=
  ⟨show 1 < vmMaxPnameLen by decide, List.forall_mem_singleton.mpr hc, hequal⟩

/-- The user disables a process that was never enabled. -/
theorem tracking_right_iff_disable :
    let e := nameCommand userCmdDisable 0x61#8
    Run (fun s i s' => TrackStep s i s' ∧ TrackRight s i s') ⟨Machine.boot, []⟩
      [(e, .disable [0x61#8])] ⟨Machine.boot.next e, []⟩ := by
  intro e
  have hexit : ExitStep Machine.boot e (Machine.boot.next e) := exitStep_next (by decide +kernel)
  have hname : NamedAt (Machine.boot.deliver e).mem [0x61#8] 0x400#64 :=
    namedAt_single (by decide) (by decide)
  have hmeans : Means (Machine.boot.deliver e) (.disable [0x61#8]) :=
    .disable ⟨rfl, rfl, by decide⟩ (by decide) hname
  have hrun : Run (fun s i s' => TrackStep s i s' ∧ Untracked i) ⟨Machine.boot, []⟩
      [(e, .disable [0x61#8])] ⟨Machine.boot.next e, []⟩ :=
    .snoc .nil ⟨⟨hexit, hmeans, rfl⟩, Or.inl ⟨_, rfl⟩⟩
  exact (tracking_right_iff booted_boot).mpr hrun

/-- The user enables one process and the guest switches to another: that one is monitored. -/
theorem tracking_not_right :
    let enable := nameCommand userCmdEnable 0x61#8
    let switch := nameSwitch 0x62#8
    let m := Machine.boot.next enable
    Run TrackStep ⟨Machine.boot, []⟩ [(enable, .enable [0x61#8]), (switch, .switch [0x62#8])]
        ⟨m.next switch, [[0x61#8]]⟩ ∧
      Monitored (m.next switch) ∧
      ¬ TrackRight ⟨m, [[0x61#8]]⟩ (switch, .switch [0x62#8]) ⟨m.next switch, [[0x61#8]]⟩ := by
  intro enable switch m
  have henable : ExitStep Machine.boot enable m := exitStep_next (by decide +kernel)
  have hswitch : ExitStep m switch (m.next switch) := exitStep_next (by decide +kernel)
  have hname : NamedAt (Machine.boot.deliver enable).mem [0x61#8] 0x400#64 :=
    namedAt_single (by decide) (by decide)
  have hmeans : Means (Machine.boot.deliver enable) (.enable [0x61#8]) :=
    .enable ⟨rfl, rfl, by decide⟩ (by decide) hname
  have hp : (getCurProcessName 0).Returns (m.deliver switch) 0x58c#64 := by decide +kernel
  have hname' : NamedAt switch.mem [0x62#8] 0x58c#64 := namedAt_single (by decide) (by decide)
  have hmeans' : Means (m.deliver switch) (.switch [0x62#8]) :=
    .switch rfl hp hname'
  have hrun : Run TrackStep ⟨Machine.boot, []⟩ [(enable, .enable [0x61#8])] ⟨m, [[0x61#8]]⟩ :=
    .snoc .nil ⟨henable, hmeans, rfl⟩
  have hmonitored : Monitored (m.next switch) := monitored_popf rfl hswitch
  refine ⟨hrun.snoc ⟨hswitch, hmeans', rfl⟩, hmonitored,
    fun hright => ?_⟩
  have hmem := (hright.switch _ rfl).mp hmonitored
  exact absurd hmem (by decide)

end Mavmm
