import Mathlib.Tactic.IntervalCases
import Mavmm.SyscallSpec

/-!
# The accesses of the lookups and the system calls

What may be accessed is left open here: a rule says which accesses through a
pointer, to a descriptor and to a word of the page directory are permitted.
What a handler needs so that it makes no other access is read off it by the
rules for postconditions: one pointer after the other, each with as much as is
read there, and the next one where it leads.
-/

namespace Mavmm

/-- The four bytes of the peer's address. -/
def peerBytes (m : Machine) (p : Addr) : List Byte :=
  (List.range 4).map fun i => m.mem (p + BitVec.ofNat 64 (8 + i))

/-- Which accesses are permitted. -/
structure AccessRule where
  deref : Addr → Extent → Prop
  descriptor : Addr → Prop
  dirWord : Addr → Prop

namespace AccessRule

/-- The rule says nothing about the tables of the monitor and its output. -/
def Holds (A : AccessRule) : Event → Prop
  | .deref p x => A.deref p x
  | .descriptor p => A.descriptor p
  | .dirWord a => A.dirWord a
  | _ => True

/-- The lookups make only permitted accesses, and what they give has the property. -/
abbrev Permits (A : AccessRule) {α : Type} (x : Look α) (m : Machine) (Q : α → Prop) : Prop :=
  x.Ensures A.Holds m Q

/-! ## What is needed -/

section
variable (A : AccessRule) (m : Machine)

/-- The descriptor of a selector, if one is read. -/
def Descriptor (sel : BitVec 16) : Prop :=
  ∀ p, gdtentryRead m.space sel = some p → A.descriptor p

/-- A pointer is translated, and where it leads the property holds. -/
def At (sel : BitVec 16) (off : BitVec 64) (P : Addr → Prop) : Prop :=
  A.Descriptor m sel ∧ ∀ p, glogic2Hphysic m.space sel off = .ok p → P p

/-- The way to the `task_struct` of a thread in the kernel. -/
def KernelTask (P : Addr → Prop) : Prop :=
  A.At m m.vmcb.ssSel (m.vmcb.rsp &&& 0xffffe000#64) fun info =>
    A.deref info (.bytes 0 8) ∧ A.At m m.vmcb.dsSel (m.mem.load64 info) P

/-- The way to the `task_struct` of a thread in user mode: the kernel's stack is found in the
task state segment.  It ends with -1 where an address does not translate. -/
def UserTask (P : Addr → Prop) : Prop :=
  A.At m m.vmcb.trSel 0x04#64 fun esp => if esp = -1#64 then P (-1#64) else
    A.deref esp (.bytes 0 8) ∧
      A.At m m.vmcb.trSel 0x08#64 fun ss => if ss = -1#64 then P (-1#64) else
        A.deref ss (.bytes 0 2) ∧
          A.At m (m.mem.load16 ss) (m.mem.load64 esp &&& 0xffffe000#64) fun info =>
            if info = -1#64 then P (-1#64) else
              A.deref info (.bytes 0 8) ∧ A.At m m.vmcb.dsSel (m.mem.load64 info) P

/-- The id is read before the address is looked at. -/
def ThreadOf (P : BitVec 32 → Prop) (task : Addr) : Prop :=
  A.deref task (.bytes 0xa8 4) ∧
    P (if task ≠ -1#64 then m.mem.load32 (task + 0xa8#64) else 0#32)

def KernelThread (P : BitVec 32 → Prop) : Prop := A.KernelTask m (A.ThreadOf m P)

def UserThread : Prop := A.UserTask m (A.ThreadOf m fun _ => True)

/-- A string argument is printed unless its address is `bad`. -/
def StringArg (bad : Addr) (r : GuestRegs → BitVec 64) (P : Prop) : Prop :=
  A.At m m.vmcb.dsSel (r m.regs) fun p => (p ≠ bad → A.deref p (.string 0)) ∧ P

/-- The `n` words of the argument block from the `i`-th on. -/
def SocketWords : (n i : Nat) → (List (BitVec 64) → Prop) → Prop
  | 0, _, P => P []
  | n + 1, i, P => A.At m m.vmcb.dsSel (m.regs.rcx + BitVec.ofNat 64 (i * 4)) fun p =>
    A.deref p (.bytes 0 8) ∧ SocketWords n (i + 1) fun rest => P (m.mem.load64 p :: rest)

end

/-- The address of the peer. -/
def PeerIp (A : AccessRule) (p : Addr) : Prop := ∀ i < 4, A.deref p (.bytes (8 + i) 1)

/-- The address of the peer and its port. -/
def PeerPort (A : AccessRule) (p : Addr) : Prop := A.PeerIp p ∧ A.deref p (.bytes 2 2)

/-- The first `n` bytes, one after the other. -/
def Bytes (A : AccessRule) (p : Addr) (n : Nat) : Prop := ∀ i < n, A.deref p (.bytes i 1)

section
variable (A : AccessRule) (m : Machine)

/-- What `sys_sendto` needs: the pointer to the peer is followed only where the buffer is
found. -/
def SendtoNeeds : Prop :=
  A.SocketWords m 6 0 fun arg =>
    A.At m m.vmcb.dsSel (arg.getD 4 0#64) fun peer =>
      A.At m 0#16 (arg.getD 1 0#64) fun buffer => buffer ≠ -1#64 →
        A.PeerPort peer ∧ A.Bytes buffer (bufsize (arg.getD 2 0#64)).toInt.toNat

/-- What the calls of `socketcall` that only look need. -/
def SocketNeeds (call : BitVec 32) : Prop :=
  if call = callSocket ∨ call = callListen then A.SocketWords m 6 0 fun _ => True
  else if call = callBind ∨ call = callConnect ∨ call = callAccept then
    A.SocketWords m 6 0 fun arg => A.At m m.vmcb.dsSel (arg.getD 1 0#64) A.PeerIp
  else if call = callSendto then A.SendtoNeeds m
  else True

/-- The words of a vector from the `i`-th on and its strings, up to the null pointer. -/
def Vector (p : Addr) (P : Prop) : (fuel i : Nat) → Prop
  | 0, _ => True
  | fuel + 1, i =>
    let s := m.mem.load64 (p + BitVec.ofNat 64 (8 * i))
    A.deref p (.bytes (8 * i) 8) ∧ if s = 0#64 then P else
      A.At m m.vmcb.dsSel s fun str => (str ≠ -1#64 → A.deref str (.string 0)) ∧
        A.deref p (.bytes (8 * (i + 1)) 8) ∧ Vector p P fuel (i + 1)

/-- A vector that is printed where its address translates. -/
def VectorAt (P : Prop) (p : Addr) : Prop :=
  if p ≠ -1#64 then A.Vector m p P (2 ^ 31) 0 else P

def ExecveNeeds : Prop :=
  A.StringArg m (-1#64) GuestRegs.rbx <|
    A.At m m.vmcb.dsSel m.regs.rcx <| A.VectorAt m <|
      A.At m m.vmcb.dsSel m.regs.rdx <| A.VectorAt m True

/-- What the calls that only look need. -/
def LookNeeds (sysCallNo : Nat) : Prop :=
  match sysCallNo with
  | 4 => A.StringArg m (-1#64) GuestRegs.rcx True
  | 7 => A.At m m.vmcb.dsSel m.regs.rcx fun p => p ≠ 0#64 → A.deref p (.bytes 0 4)
  | 9 => A.StringArg m 0#64 GuestRegs.rbx (A.StringArg m 0#64 GuestRegs.rcx True)
  | 10 | 16 | 33 => A.StringArg m 0#64 GuestRegs.rbx True
  | 11 => A.ExecveNeeds m
  | 86 => A.StringArg m (-1#64) GuestRegs.rbx True
  | _ => True

/-- What the return of `read` needs: the first ten bytes at most. -/
def ReadReturn (arg : BitVec 64) : Prop :=
  m.vmcb.rax ≠ 0#64 → A.At m m.vmcb.dsSel arg fun p => p ≠ -1#64 →
    A.Bytes p (min 10 m.vmcb.rax.toNat)

/-- What the return of `recvfrom` needs. -/
def RecvfromReturn (arg : BitVec 64) (datasize : BitVec 32) : Prop :=
  A.At m 0#16 arg fun p => p ≠ -1#64 → A.Bytes p datasize.toInt.toNat

end

/-! ## Steps -/

section
variable {A : AccessRule} {m : Machine} {α β : Type}

theorem at_congr {sel : BitVec 16} {off : BitVec 64} {P Q : Addr → Prop}
    (h : ∀ p, P p ↔ Q p) : A.At m sel off P ↔ A.At m sel off Q := by
  unfold At
  exact and_congr_right fun _ => forall₂_congr fun p _ => h p

theorem permits_bind {x : Look α} {f : α → Look β} {R : β → Prop} :
    A.Permits (x >>= f) m R ↔ A.Permits x m fun a => A.Permits (f a) m R := Probe.ensures_bind

theorem permits_read {g : Machine → α} {Q : α → Prop} :
    A.Permits (Probe.read g) m Q ↔ Q (g m) := Probe.ensures_read

theorem permits_pure {a : α} {Q : α → Prop} : A.Permits (pure a : Look α) m Q ↔ Q a :=
  Probe.ensures_pure

theorem permits_ite {c : Prop} [Decidable c] {x y : Look α} {Q : α → Prop} :
    A.Permits (if c then x else y) m Q ↔ if c then A.Permits x m Q else A.Permits y m Q := by
  split <;> rfl

theorem permits_translate {sel : BitVec 16} {off : BitVec 64} {Q : Addr → Prop} :
    A.Permits (translate sel off) m Q ↔ A.At m sel off Q := by
  simp [translate, At, Descriptor, Holds]

theorem permits_loadAt {n : Nat} {load : Mem → Addr → BitVec n} {p : Addr} {off : Nat}
    {Q : BitVec n → Prop} :
    A.Permits (loadAt load p off) m Q ↔
      A.deref p (.bytes off (n / 8)) ∧ Q (load m.mem (p + BitVec.ofNat 64 off)) := by
  simp [loadAt, Holds]

theorem permits_outf {fmt : String} {args : List OutArg} {Q : Unit → Prop} :
    A.Permits (outf fmt args) m Q ↔
      (∀ p off, OutArg.str p off ∈ args → A.deref p (.string off)) ∧ Q () := by
  refine Probe.ensures_log.trans (and_congr_left fun _ => ?_)
  constructor
  · intro h p off hmem
    have hevent : Event.deref p (.string off) ∈ args.filterMap OutArg.deref :=
      List.mem_filterMap.mpr ⟨_, hmem, rfl⟩
    exact h _ (List.mem_append_left _ hevent)
  · intro h e he
    rcases List.mem_append.mp he with he | he
    · obtain ⟨arg, harg, he⟩ := List.mem_filterMap.mp he
      cases arg with
      | str p off =>
        cases he
        exact h p off harg
      | word w => cases he
      | int w => cases he
      | text s => cases he
      | name s => cases he
    · rw [List.mem_singleton.mp he]
      trivial

theorem permits_str {fmt : String} {p : Addr} {off : Nat} {Q : Unit → Prop} :
    A.Permits (outf fmt [.str p off]) m Q ↔ A.deref p (.string off) ∧ Q () := by
  rw [permits_outf]
  simp

theorem permits_strWhen {c : Prop} [Decidable c] {fmt : String} {p : Addr} {off : Nat}
    {Q : Unit → Prop} :
    A.Permits (outfWhen c fmt [.str p off]) m Q ↔ (c → A.deref p (.string off)) ∧ Q () := by
  unfold outfWhen
  rw [permits_ite, permits_str, permits_pure]
  by_cases h : c
  · simp [h]
  · simp [h]

/-- Output without strings of the guest. -/
theorem permits_plain {fmt : String} {args : List OutArg} {Q : Unit → Prop}
    (h : args.filterMap OutArg.deref = []) : A.Permits (outf fmt args) m Q ↔ Q () := by
  refine permits_outf.trans (and_iff_right fun p off hmem => ?_)
  have hevent : Event.deref p (.string off) ∈ args.filterMap OutArg.deref :=
    List.mem_filterMap.mpr ⟨_, hmem, rfl⟩
  rw [h] at hevent
  cases hevent

theorem permits_text {text : String} {Q : Unit → Prop} :
    A.Permits (outf text []) m Q ↔ Q () := permits_plain rfl

theorem permits_plainWhen {c : Prop} [Decidable c] {fmt : String} {args : List OutArg}
    {Q : Unit → Prop} (h : args.filterMap OutArg.deref = []) :
    A.Permits (outfWhen c fmt args) m Q ↔ Q () := by
  unfold outfWhen
  rw [permits_ite, permits_plain h, permits_pure, ite_self]

theorem permits_reg {r : GuestRegs → BitVec 64} {Q : BitVec 64 → Prop} :
    A.Permits (reg r) m Q ↔ Q (r m.regs) := Probe.ensures_read

theorem permits_translateDs {off : BitVec 64} {Q : Addr → Prop} :
    A.Permits (translateDs off) m Q ↔ A.At m m.vmcb.dsSel off Q := by
  unfold translateDs
  rw [permits_bind, permits_read, permits_translate]

theorem permits_regDs {r : GuestRegs → BitVec 64} {Q : Addr → Prop} :
    A.Permits (regDs r) m Q ↔ A.At m m.vmcb.dsSel (r m.regs) Q := by
  unfold regDs
  rw [permits_bind, permits_reg, permits_translateDs]

/-! ## The current thread -/

theorem permits_getCurProcessTaskstruct {Q : Addr → Prop} :
    A.Permits getCurProcessTaskstruct m Q ↔ A.KernelTask m Q := by
  unfold getCurProcessTaskstruct KernelTask
  simp only [permits_bind, permits_read, permits_translate, permits_loadAt, BitVec.add_zero,
    permits_pure]
  refine at_congr fun info => and_congr_right fun _ => at_congr fun p => ?_
  exact permits_plainWhen rfl

theorem permits_getCurProcessUsermodeTaskstruct {Q : Addr → Prop} :
    A.Permits getCurProcessUsermodeTaskstruct m Q ↔ A.UserTask m Q := by
  unfold getCurProcessUsermodeTaskstruct UserTask
  simp only [permits_bind, permits_read, permits_translate, permits_loadAt, BitVec.add_zero,
    permits_pure, permits_ite]

/-- What the lookup of the id needs behind that of the `task_struct`. -/
theorem permits_threadOf {task : Addr} {Q : BitVec 32 → Prop} :
    A.Permits (do
      let tid ← loadAt Mem.load32 task 0xa8
      return if task ≠ -1#64 then tid else 0#32) m Q ↔ A.ThreadOf m Q task := by
  rw [permits_bind, permits_loadAt, permits_pure]
  rfl

theorem permits_getCurThreadid_kernel {Q : BitVec 32 → Prop} :
    A.Permits (getCurThreadid 0) m Q ↔ A.KernelThread m Q := by
  unfold getCurThreadid getTaskStruct KernelThread
  rw [if_pos rfl, permits_bind, permits_getCurProcessTaskstruct]
  simp only [permits_threadOf]

theorem permits_getCurThreadid_user {mode : Nat} (h : mode ≠ 0) :
    A.Permits (getCurThreadid mode) m (fun _ => True) ↔ A.UserThread m := by
  unfold getCurThreadid getTaskStruct UserThread
  rw [if_neg h, permits_bind, permits_getCurProcessUsermodeTaskstruct]
  simp only [permits_threadOf]

/-! ## Files -/

theorem permits_outString {bad : Addr} {fmt : String} {r : GuestRegs → BitVec 64}
    {Q : Unit → Prop} : A.Permits (outString bad fmt r) m Q ↔ A.StringArg m bad r (Q ()) := by
  unfold outString StringArg
  rw [permits_bind, permits_regDs]
  exact at_congr fun p => permits_strWhen

theorem permits_outFname {fdFmt nameFmt : String} {r : GuestRegs → BitVec 64}
    {Q : Unit → Prop} : A.Permits (outFname fdFmt nameFmt r) m Q ↔ Q () := by
  have hname : ∀ {id : BitVec 32} {R : Option (List Byte) → Prop},
      A.Permits (vmGetFnameFromId id) m R ↔ R (m.vm.fnameFromId id) := by
    simp [vmGetFnameFromId, Holds]
  unfold outFname
  rw [permits_bind, permits_reg, permits_bind, hname]
  cases m.vm.fnameFromId ((r m.regs).setWidth 32) with
  | none => exact permits_plain rfl
  | some fname => exact permits_plain rfl

/-- A register, printed as a number. -/
theorem permits_outReg {fmt : String} {arg : BitVec 64 → OutArg} {r : GuestRegs → BitVec 64}
    {Q : Unit → Prop} (h : ∀ w, (arg w).deref = none) :
    A.Permits (outReg fmt arg r) m Q ↔ Q () := by
  unfold outReg
  rw [permits_bind, permits_reg]
  exact permits_plain (List.filterMap_cons_none (h _))

theorem permits_outWaiting {arg1 : BitVec 32} {Q : Unit → Prop} :
    A.Permits (outWaiting arg1) m Q ↔ Q () := by
  unfold outWaiting
  split
  · exact permits_plain rfl
  · split
    · exact permits_plain rfl
    · split
      · exact permits_plain rfl
      · exact permits_plain rfl

theorem permits_outMode {arg2 : BitVec 32} {Q : Unit → Prop} :
    A.Permits (outMode arg2) m Q ↔ Q () := by
  unfold outMode
  split
  · exact permits_plain rfl
  · split
    · exact permits_plain rfl
    · split
      · exact permits_plain rfl
      · exact permits_plainWhen rfl

theorem permits_outStatus {arg2 : Addr} {Q : Unit → Prop} :
    A.Permits (outStatus arg2) m Q ↔ (arg2 ≠ 0#64 → A.deref arg2 (.bytes 0 4)) ∧ Q () := by
  unfold outStatus
  rw [permits_ite, permits_plain rfl, permits_bind, permits_loadAt, permits_plain rfl]
  by_cases h : arg2 ≠ 0#64
  · simp [h]
  · simp [h]

theorem permits_sysWaitpid :
    A.Permits sysWaitpid m (fun _ => True) ↔
      A.At m m.vmcb.dsSel m.regs.rcx fun p => p ≠ 0#64 → A.deref p (.bytes 0 4) := by
  unfold sysWaitpid
  rw [permits_bind, permits_reg, permits_bind, permits_outWaiting, permits_bind, permits_regDs]
  refine at_congr fun p => ?_
  rw [permits_bind, permits_outStatus, permits_outReg fun _ => rfl]
  exact and_iff_left trivial

/-! ## Network -/

theorem permits_socketArg {off : BitVec 64} {Q : BitVec 64 → Prop} :
    A.Permits (socketArg off) m Q ↔
      A.At m m.vmcb.dsSel (m.regs.rcx + off) fun p =>
        A.deref p (.bytes 0 8) ∧ Q (m.mem.load64 p) := by
  unfold socketArg
  simp only [permits_bind, permits_reg, permits_translateDs, permits_loadAt, BitVec.add_zero]

theorem permits_socketArgs (n : Nat) :
    ∀ {i : Nat} {Q : List (BitVec 64) → Prop},
      A.Permits (socketArgs n i) m Q ↔ A.SocketWords m n i Q := by
  induction n with
  | zero => exact permits_pure
  | succ n ih =>
    intro i Q
    unfold socketArgs SocketWords
    rw [permits_bind, permits_socketArg]
    refine at_congr fun p => and_congr_right fun _ => ?_
    simp only [permits_bind, ih, permits_pure]

theorem socketWords_congr (n : Nat) :
    ∀ {i : Nat} {P Q : List (BitVec 64) → Prop}, (∀ args, P args ↔ Q args) →
      (A.SocketWords m n i P ↔ A.SocketWords m n i Q) := by
  induction n with
  | zero => exact fun h => h []
  | succ n ih => exact fun h => at_congr fun p => and_congr_right fun _ => ih fun rest => h _

theorem permits_peerIp {p : Addr} {Q : List Byte → Prop} :
    A.Permits (peerIp p 4 0) m Q ↔ A.PeerIp p ∧ Q (peerBytes m p) := by
  have hall : A.PeerIp p ↔ A.deref p (.bytes 8 1) ∧ A.deref p (.bytes 9 1) ∧
      A.deref p (.bytes 10 1) ∧ A.deref p (.bytes 11 1) := by
    unfold PeerIp
    constructor
    · exact fun h => ⟨h 0 (by simp), h 1 (by simp), h 2 (by simp), h 3 (by simp)⟩
    · rintro ⟨h0, h1, h2, h3⟩ i hi
      interval_cases i
      exacts [h0, h1, h2, h3]
  rw [hall]
  simp only [peerIp, permits_bind, permits_loadAt, permits_pure, and_assoc]
  rfl

theorem permits_outPeerPort {fmt : String} {size : BitVec 32} {p : Addr} {Q : Unit → Prop} :
    A.Permits (outPeerPort fmt size p) m Q ↔ A.PeerPort p ∧ Q () := by
  have hplain : (OutArg.int size :: (peerBytes m p).map fieldArg ++
      [fieldArg (m.mem.load16 (p + BitVec.ofNat 64 2))]).filterMap OutArg.deref = [] := rfl
  unfold outPeerPort peerPort PeerPort
  rw [permits_bind, permits_peerIp, permits_bind, permits_loadAt, permits_plain hplain, and_assoc]

/-- The bytes from the `i`-th on. -/
theorem permits_outBytes_from {p : Addr} {Q : Unit → Prop} (n : Nat) :
    ∀ {i : Nat}, A.Permits (outBytes p n i) m Q ↔
      (∀ k < n, A.deref p (.bytes (i + k) 1)) ∧ Q () := by
  induction n with
  | zero =>
    intro i
    exact permits_pure.trans (and_iff_right nofun).symm
  | succ n ih =>
    intro i
    unfold outBytes
    rw [permits_bind, permits_loadAt, permits_bind, permits_plain rfl, ih, ← and_assoc]
    refine and_congr_left fun _ => ⟨fun h k hk => ?_, fun h => ⟨h 0 (Nat.succ_pos n), ?_⟩⟩
    · cases k with
      | zero => exact h.1
      | succ k =>
        rw [← Nat.add_assoc, Nat.add_right_comm]
        exact h.2 k (Nat.lt_of_succ_lt_succ hk)
    · intro k hk
      rw [Nat.add_right_comm]
      exact h (k + 1) (Nat.succ_lt_succ hk)

theorem permits_outBytes {p : Addr} {n : Nat} {Q : Unit → Prop} :
    A.Permits (outBytes p n 0) m Q ↔ A.Bytes p n ∧ Q () := by
  unfold Bytes
  simp only [permits_outBytes_from, Nat.zero_add]

theorem permits_sysSendto : A.Permits sysSendto m (fun _ => True) ↔ A.SendtoNeeds m := by
  unfold sysSendto SendtoNeeds
  rw [permits_bind, permits_socketArgs]
  refine socketWords_congr 6 fun arg => ?_
  dsimp only
  rw [permits_bind, permits_translateDs]
  refine at_congr fun peer => ?_
  rw [permits_bind, permits_translate]
  refine at_congr fun buffer => ?_
  rw [permits_ite, permits_pure, permits_bind, permits_outPeerPort, permits_bind,
    permits_outBytes, permits_text, and_true, if_true_right]

theorem permits_outPeer {fmt : String} {more : List (BitVec 64) → List (BitVec 64)} :
    A.Permits (outPeer fmt more) m (fun _ => True) ↔
      A.SocketWords m 6 0 fun arg => A.At m m.vmcb.dsSel (arg.getD 1 0#64) A.PeerIp := by
  unfold outPeer
  rw [permits_bind, permits_socketArgs]
  refine socketWords_congr 6 fun arg => ?_
  rw [permits_bind, permits_translateDs]
  refine at_congr fun p => ?_
  rw [permits_bind, permits_peerIp]
  refine and_iff_left ((permits_plain ?_).mpr trivial)
  rw [List.cons_append, List.filterMap_cons_none (show OutArg.deref (.word _) = none from rfl),
    List.filterMap_append, deref_fieldArg, deref_word]
  rfl

/-- The `switch` of `sys_socketcall`, without the call that records the thread. -/
theorem permits_socketcall (call : BitVec 32) :
    A.Permits (
      if call = callSocket then sysSocket
      else if call = callBind then sysBind
      else if call = callConnect then sysConnect
      else if call = callListen then sysListen
      else if call = callAccept then sysAccept
      else if call = callSendto then sysSendto
      else pure ()) m (fun _ => True) ↔ A.SocketNeeds m call := by
  have hwords : ∀ {f : List (BitVec 64) → Look Unit},
      (∀ arg, A.Permits (f arg) m (fun _ => True)) →
        (A.Permits (socketArgs 6 0 >>= f) m (fun _ => True) ↔
          A.SocketWords m 6 0 fun _ => True) := by
    intro f hf
    rw [permits_bind, permits_socketArgs]
    exact socketWords_congr 6 fun arg => iff_true_intro (hf arg)
  unfold SocketNeeds
  by_cases hsocket : call = callSocket
  · rw [if_pos hsocket, if_pos (Or.inl hsocket)]
    exact hwords fun arg => (permits_plain rfl).mpr trivial
  rw [if_neg hsocket]
  by_cases hbind : call = callBind
  · subst hbind
    exact permits_outPeer
  rw [if_neg hbind]
  by_cases hconnect : call = callConnect
  · subst hconnect
    exact permits_outPeer
  rw [if_neg hconnect]
  by_cases hlisten : call = callListen
  · rw [if_pos hlisten, if_pos (Or.inr hlisten)]
    exact hwords fun arg => (permits_plain rfl).mpr trivial
  rw [if_neg hlisten, if_neg (not_or.mpr ⟨hsocket, hlisten⟩)]
  by_cases haccept : call = callAccept
  · subst haccept
    exact permits_outPeer
  rw [if_neg haccept, if_neg (not_or.mpr ⟨hbind, not_or.mpr ⟨hconnect, haccept⟩⟩)]
  by_cases hsendto : call = callSendto
  · rw [if_pos hsendto, if_pos hsendto]
    exact permits_sysSendto
  · rw [if_neg hsendto, if_neg hsendto]
    exact permits_pure

/-! ## Programs, and the calls without a handler -/

theorem permits_outVector {p : Addr} {Q : Unit → Prop} (fuel : Nat) :
    ∀ {i : Nat}, A.Permits (outVector p fuel i) m Q ↔ A.Vector m p (Q ()) fuel i := by
  induction fuel with
  | zero => exact fun {i} => iff_of_true (Probe.ensures_ofExcept.mpr nofun) trivial
  | succ fuel ih =>
    intro i
    unfold outVector Vector
    rw [permits_bind, permits_loadAt, permits_ite, permits_pure]
    refine and_congr_right fun _ => ?_
    rw [ite_not]
    refine iff_of_eq (if_congr Iff.rfl rfl (propext ?_))
    rw [permits_bind, permits_translateDs]
    refine at_congr fun str => ?_
    rw [permits_bind, permits_strWhen, permits_bind, permits_loadAt, permits_bind,
      permits_plainWhen rfl, ih]

theorem permits_outVectorAt {p : Addr} {Q : Unit → Prop} :
    A.Permits (outVectorAt p) m Q ↔ A.VectorAt m (Q ()) p := by
  unfold outVectorAt VectorAt
  rw [permits_ite, permits_outVector, permits_pure]

theorem permits_sysExecve : A.Permits sysExecve m (fun _ => True) ↔ A.ExecveNeeds m := by
  unfold sysExecve ExecveNeeds
  rw [permits_bind, permits_outString]
  refine at_congr fun p => and_congr_right fun _ => ?_
  rw [permits_bind, permits_regDs]
  refine at_congr fun arg2 => ?_
  rw [permits_bind, permits_plainWhen rfl, permits_bind, permits_outVectorAt, permits_bind,
    permits_text, permits_bind, permits_regDs]
  simp only [permits_bind, permits_outVectorAt, permits_text]

theorem permits_outArgs (args : List (BitVec 64)) : A.Permits (outArgs args) m fun _ => True := by
  induction args with
  | nil => exact permits_pure.mpr trivial
  | cons arg rest ih =>
    unfold outArgs
    rw [permits_bind, permits_plain rfl, permits_bind, permits_plainWhen rfl]
    exact ih

theorem permits_sysLook (sysCallNo sysNargs : Nat) :
    A.Permits (sysLook sysCallNo sysNargs) m (fun _ => True) ↔ A.LookNeeds m sysCallNo := by
  unfold sysLook LookNeeds
  split
  · unfold sysWrite
    rw [permits_bind, permits_outFname, permits_bind, permits_outReg fun _ => rfl,
      permits_outString]
    rfl
  · exact permits_outFname
  · exact permits_sysWaitpid
  · unfold sysLink
    rw [permits_bind, permits_outString, permits_outString]
    rfl
  · exact permits_outString
  · exact permits_sysExecve
  · unfold sysLchown
    rw [permits_bind, permits_outString, permits_bind, permits_outReg fun _ => rfl,
      permits_outReg fun _ => rfl]
    rfl
  · unfold sysLseek
    rw [permits_bind, permits_outFname, permits_bind, permits_outReg fun _ => rfl,
      permits_outReg fun _ => rfl]
    rfl
  · unfold sysAccess
    rw [permits_bind, permits_outString, permits_bind, permits_reg, permits_outMode]
    rfl
  · unfold sysIoctl
    rw [permits_bind, permits_outFname, permits_bind, permits_outReg fun _ => rfl,
      permits_outReg fun _ => rfl]
    rfl
  · exact permits_outString
  · unfold sysMmap
    rw [permits_bind, permits_outReg fun _ => rfl, permits_bind, permits_outReg fun _ => rfl,
      permits_bind, permits_outReg fun _ => rfl, permits_bind, permits_outReg fun _ => rfl,
      permits_bind, permits_outFname, permits_outReg fun _ => rfl]
    rfl
  · unfold sysMunmap
    rw [permits_bind, permits_outReg fun _ => rfl, permits_outReg fun _ => rfl]
    rfl
  · unfold sysFstat
    rw [permits_bind, permits_outFname, permits_outReg fun _ => rfl]
    rfl
  · rw [permits_bind, permits_read]
    refine iff_of_true (permits_outArgs _) ?_
    split <;> trivial

/-! ## Returns -/

theorem permits_sysReadIret {arg : BitVec 64} :
    A.Permits (sysReadIret arg) m (fun _ => True) ↔ A.ReadReturn m arg := by
  unfold sysReadIret ReadReturn
  rw [permits_bind, permits_read, permits_bind, permits_plain rfl, permits_ite, permits_pure,
    if_true_right]
  refine imp_congr_right fun _ => ?_
  rw [permits_bind, permits_translateDs]
  refine at_congr fun p => ?_
  rw [permits_ite, permits_pure, permits_bind, permits_text, permits_bind, permits_outBytes,
    permits_text, and_true, if_true_right]

theorem permits_sysRecvfromIret {arg : BitVec 64} {datasize : BitVec 32} :
    A.Permits (sysRecvfromIret arg datasize) m (fun _ => True) ↔
      A.RecvfromReturn m arg datasize := by
  unfold sysRecvfromIret RecvfromReturn
  rw [permits_bind, permits_translate]
  refine at_congr fun p => ?_
  rw [permits_ite, permits_pure, permits_bind, permits_outBytes, permits_text, and_true,
    if_true_right]

end

end AccessRule

end Mavmm
