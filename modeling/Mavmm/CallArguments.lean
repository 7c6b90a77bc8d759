import Mavmm.InterceptSpec

/-!
# The table of the system calls and the arguments that are printed

The number of a call comes from `eax`, and nothing compares it with the size of
the table.  No row counts more than six arguments, so a call without a handler
of its own has every argument in a register.  Decoding is right exactly for the
numbers of the table (`decodesCall_iff`).
-/

namespace Mavmm

/-- The calls with a handler of their own (intercept.h). -/
def handledCalls : List Nat := [3, 4, 5, 6, 7, 9, 10, 11, 16, 19, 33, 54, 86, 90, 91, 102, 108]

/-- The registers of the arguments, in the order of the arguments. -/
def GuestRegs.arguments (r : GuestRegs) : List (BitVec 64) :=
  [r.rbx, r.rcx, r.rdx, r.rsi, r.rdi, r.rbp]

/-- The value that `outf ("%x", arg)` prints. -/
def Event.argValue : Event → Option (BitVec 32)
  | .out fmt [.int w] => if fmt = "%x" then some w else none
  | _ => none

/-- The arguments that the handling of `int 0x80` prints. -/
def printedArguments (m : Machine) : List (BitVec 32) :=
  (handleSyscall m).1.filterMap Event.argValue

/-- Nothing past the table is read, and a call without a handler of its own has its arguments
printed, each from the low half of its register. -/
structure DecodesCall (m : Machine) : Prop where
  inTable : handleSyscall m ≠ ([], .error .outOfBounds)
  count : m.callNo ∉ handledCalls → ∀ entry, syscalls[m.callNo]? = some entry →
    (printedArguments m).length = entry.sysNargs
  values : m.callNo ∉ handledCalls → ∀ entry, syscalls[m.callNo]? = some entry →
    ∀ i < entry.sysNargs,
      (printedArguments m)[i]? = m.regs.arguments[i]?.map (BitVec.setWidth 32)

section
variable {m : Machine} {α : Type}

/-! ## The rows -/

theorem sysNargs_le_six : ∀ entry ∈ syscalls.toList, entry.sysNargs ≤ 6 := by decide +kernel

theorem sysNargs_le_of_row {n : Nat} {entry : SyscallEntry} (h : syscalls[n]? = some entry) :
    entry.sysNargs ≤ m.regs.arguments.length :=
  sysNargs_le_six entry (Array.mem_toList_iff.mpr (Array.mem_of_getElem? h))

/-! ## What is printed -/

/-- Prints no argument. -/
def NoArgument (e : Event) : Prop := e.argValue = none

theorem filterMap_argValue_eq_nil {log : List Event} (h : ∀ e ∈ log, NoArgument e) :
    log.filterMap Event.argValue = [] := List.filterMap_eq_nil_iff.mpr h

theorem noArgument_translate {sel : BitVec 16} {off : BitVec 64} :
    (translate sel off).Emits NoArgument m := by
  simp [translate, NoArgument, Event.argValue]

theorem noArgument_loadAt {n : Nat} {load : Mem → Addr → BitVec n} {p : Addr} {off : Nat} :
    (loadAt load p off).Emits NoArgument m := by
  simp [loadAt, NoArgument, Event.argValue]

theorem noArgument_ite {c : Prop} [Decidable c] {x y : Look α} (hx : x.Emits NoArgument m)
    (hy : y.Emits NoArgument m) : (if c then x else y).Emits NoArgument m := by
  split
  · exact hx
  · exact hy

/-- Looking the thread of user mode up prints nothing. -/
theorem noArgument_getCurThreadid_user : (getCurThreadid 3).Emits NoArgument m := by
  refine Probe.emits_bind.mpr ⟨?_, fun p _ => ?_⟩
  · refine Probe.emits_bind.mpr ⟨Probe.emits_read, fun c _ => ?_⟩
    refine Probe.emits_bind.mpr ⟨noArgument_translate, fun espHp _ => ?_⟩
    refine noArgument_ite Probe.emits_pure
      (Probe.emits_bind.mpr ⟨noArgument_loadAt, fun esp _ => ?_⟩)
    refine Probe.emits_bind.mpr ⟨noArgument_translate, fun ssHp _ => ?_⟩
    refine noArgument_ite Probe.emits_pure
      (Probe.emits_bind.mpr ⟨noArgument_loadAt, fun ss _ => ?_⟩)
    refine Probe.emits_bind.mpr ⟨noArgument_translate, fun threadInfoHp _ => ?_⟩
    exact noArgument_ite Probe.emits_pure
      (Probe.emits_bind.mpr ⟨noArgument_loadAt, fun _ _ => noArgument_translate⟩)
  · exact Probe.emits_bind.mpr ⟨noArgument_loadAt, fun _ _ => Probe.emits_pure⟩

theorem noArgument_vmAddWaitingThread {tid : BitVec 32} {info : SyscallInfo} :
    (vmAddWaitingThread tid info).Emits NoArgument m := by
  have hslot : ∀ page off len, (storeSlot page off len).Emits NoArgument m := by
    intro page off len
    refine Probe.emits_bind.mpr ⟨by simp [NoArgument, Event.argValue], fun _ _ => ?_⟩
    split
    · exact Probe.emits_ofExcept
    · exact Probe.emits_pure
  simp [vmAddWaitingThread, modifyVm, hslot]

/-- The loop over the arguments prints each of them once, and returns. -/
theorem outArgs_prints (args : List (BitVec 64)) :
    (outArgs args m).1.filterMap Event.argValue = args.map (BitVec.setWidth 32) ∧
      (outArgs args).Returns m () := by
  induction args with
  | nil => exact ⟨rfl, rfl⟩
  | cons arg rest ih =>
    obtain ⟨hlog, hreturns⟩ := ih
    have harg : (outf "%x" [intArg arg]).Returns m () := rfl
    have hcomma : (outfWhen (rest ≠ []) ", " []).Returns m () := by
      unfold outfWhen
      split <;> rfl
    have hquiet : (outfWhen (rest ≠ []) ", " [] m).1.filterMap Event.argValue = [] := by
      unfold outfWhen
      split <;> rfl
    constructor
    · unfold outArgs
      rw [Probe.log_bind harg, Probe.log_bind hcomma, List.filterMap_append, List.filterMap_append,
        hquiet, hlog]
      rfl
    · unfold outArgs
      exact Probe.returns_bind.mpr ⟨(), harg, Probe.returns_bind.mpr ⟨(), hcomma, hreturns⟩⟩

/-- A call without a handler of its own goes to the loop over the arguments. -/
theorem sysDispatch_default {n : Nat} (h : n ∉ handledCalls) (sysNargs : Nat) :
    sysDispatch n sysNargs m = Exec.probe (outArgs (m.regs.arguments.take sysNargs)) m := by
  simp only [handledCalls, List.mem_cons, List.not_mem_nil, not_or] at h
  obtain ⟨h3, h4, h5, h6, h7, h9, h10, h11, h16, h19, h33, h54, h86, h90, h91, h102, h108, -⟩ := h
  have hlook : sysLook n sysNargs = (do
      let r ← Probe.read fun m => m.regs
      outArgs ([r.rbx, r.rcx, r.rdx, r.rsi, r.rdi, r.rbp].take sysNargs)) := by
    unfold sysLook
    split <;> first | contradiction | rfl
  unfold sysDispatch
  rw [if_neg (show n ≠ sysNrRead from h3), if_neg (show n ≠ sysNrOpen from h5),
    if_neg (show n ≠ sysNrSocketcall from h102), hlook]
  rfl

/-- A number of the table has its name printed and its handler called, and what follows the
handler prints no argument. -/
theorem handleSyscall_row {entry : SyscallEntry} (h : syscalls[m.callNo]? = some entry) :
    ∃ rest : Unit → Handler Unit, (∀ u t, (rest u).Emits NoArgument t) ∧
      handleSyscall m = ((Exec.probe (outf ">> %s( " [.text entry.sysName])) >>= fun _ =>
        sysDispatch m.callNo entry.sysNargs >>= rest) m := by
  refine ⟨fun _ => do
    let waiting ← Exec.probe (Probe.read fun m => m.vm.syscallmap)
    Exec.when (waiting = []) do
      let tid ← getCurThreadid 3
      vmAddWaitingThread tid .other
    modifyVmcb fun c =>
      { c with
        rflags := c.rflags ||| x86RflagsTf
        general1Intercepts := c.general1Intercepts ||| intrcptIret }
    outf " )\n" [], fun u t => ?_, ?_⟩
  · have hend : ∀ s, (outf " )\n" []).Emits NoArgument s := by
      intro s
      simp [outf, NoArgument, Event.argValue]
    simp [modifyVmcb, hend, noArgument_getCurThreadid_user, noArgument_vmAddWaitingThread]
  · unfold Machine.callNo at h ⊢
    unfold handleSyscall
    rw [Exec.run_read_bind]
    rw [h]
    rfl

/-- The handling of a call that the table knows begins with its name. -/
theorem handleSyscall_named {entry : SyscallEntry} (h : syscalls[m.callNo]? = some entry) :
    (handleSyscall m).1.head? = some (.out ">> %s( " [.text entry.sysName]) := by
  obtain ⟨rest, -, hrun⟩ := handleSyscall_row h
  rw [hrun]
  rfl

theorem printedArguments_default {entry : SyscallEntry} (hrow : syscalls[m.callNo]? = some entry)
    (h : m.callNo ∉ handledCalls) :
    printedArguments m = (m.regs.arguments.take entry.sysNargs).map (BitVec.setWidth 32) := by
  obtain ⟨rest, hquiet, hrun⟩ := handleSyscall_row hrow
  obtain ⟨hlog, hreturns⟩ := outArgs_prints (m := m) (m.regs.arguments.take entry.sysNargs)
  have hname : Exec.probe (outf ">> %s( " [.text entry.sysName]) m =
      ([.out ">> %s( " [.text entry.sysName]], .ok ((), m)) := rfl
  have hargs : sysDispatch m.callNo entry.sysNargs m =
      ((outArgs (m.regs.arguments.take entry.sysNargs) m).1, .ok ((), m)) := by
    rw [sysDispatch_default h]
    unfold Exec.probe
    rw [show (outArgs (m.regs.arguments.take entry.sysNargs) m).2 = .ok () from hreturns]
    rfl
  unfold printedArguments
  rw [hrun, Exec.run_bind_log hname, Exec.run_bind_log hargs, List.filterMap_append,
    List.filterMap_append, hlog, filterMap_argValue_eq_nil (hquiet () m).all, List.append_nil]
  rfl

/-- A number past the table stops the handler at the lookup. -/
theorem handleSyscall_past (h : syscalls[m.callNo]? = none) :
    handleSyscall m = ([], .error .outOfBounds) := by
  unfold Machine.callNo at h
  unfold handleSyscall
  rw [Exec.run_read_bind]
  rw [h]
  rfl

/-! ## Decoding -/

/-- The decoding is right exactly for the numbers of the table. -/
theorem decodesCall_iff : DecodesCall m ↔ m.callNo < syscalls.size := by
  constructor
  · intro h
    refine Nat.lt_of_not_le fun hpast => ?_
    exact h.inTable (handleSyscall_past (Array.getElem?_eq_none hpast))
  · intro hlt
    have hrow : syscalls[m.callNo]? = some syscalls[m.callNo] := Array.getElem?_eq_getElem hlt
    have hargs : ∀ entry, syscalls[m.callNo]? = some entry → m.callNo ∉ handledCalls →
        printedArguments m = (m.regs.arguments.take entry.sysNargs).map (BitVec.setWidth 32) :=
      fun entry hentry hdefault => printedArguments_default hentry hdefault
    refine ⟨fun hfault => ?_, fun hdefault entry hentry => ?_, fun hdefault entry hentry i hi => ?_⟩
    · have hnamed := handleSyscall_named hrow
      rw [hfault] at hnamed
      cases hnamed
    · rw [hargs entry hentry hdefault, List.length_map, List.length_take,
        Nat.min_eq_left (sysNargs_le_of_row hentry)]
    · rw [hargs entry hentry hdefault, List.getElem?_map, List.getElem?_take_of_lt hi]

/-- The first number past the table. -/
theorem not_decodesCall_past : ¬ DecodesCall
    { Machine.boot with vmcb := { Machine.boot.vmcb with rax := 333#64 } } := by
  intro h
  exact h.inTable (handleSyscall_past (by decide +kernel))

end

end Mavmm
