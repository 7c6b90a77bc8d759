import Mavmm.FailedTranslations
import Mavmm.LoggedData
import Mavmm.VmSpec

/-!
# What a 32-bit guest passes on (intercept.c)

The guest's words and pointers have four bytes, those of the monitor eight.
`socketcall` gives its arguments as words behind one another, a `sockaddr_in`
of the guest has the address of the peer in its bytes 4 to 7, and
`thread_info` starts with a pointer of four bytes.

`Ilp32` has the handlers as they would be if they went by that; they make the
same accesses.  The handlers of the monitor run as these exactly when the four
bytes behind each word are zero, or make no difference, and the bytes 8 to 11
of the `sockaddr_in` repeat its bytes 4 to 7 (`runs_ilp32_iff`).
-/

namespace Mavmm

/-! ## Words of the guest -/

/-- The linear address of an offset in a segment. -/
def Machine.linearIn (m : Machine) (sel : BitVec 16) (offset : BitVec 32) : Option (BitVec 32) :=
  match glogic2Glinear m.space sel (offset.setWidth 64) with
  | .ok linear => some (linear.setWidth 32)
  | .error _ => none

/-- The word of the guest at an offset in a segment. -/
def Machine.wordIn (m : Machine) (sel : BitVec 16) (offset : BitVec 32) : Option (BitVec 32) := do
  m.guestLoad 4 (← m.linearIn sel offset)

/-- Where argument `i` is in the block that `g_rcx` points to. -/
def Machine.argOffset (m : Machine) (i : Nat) : BitVec 64 := m.regs.rcx + BitVec.ofNat 64 (i * 4)

/-- The argument `i` that the guest passes. -/
def Machine.argWord (m : Machine) (i : Nat) : Option (BitVec 32) :=
  m.wordIn m.vmcb.dsSel ((m.argOffset i).setWidth 32)

namespace Ilp32

/-! ## The handlers for words of four bytes -/

/-- A word of the guest as a value of the monitor. -/
def widened (w : Machine → Option (BitVec 32)) : Look (BitVec 64) := Probe.ofExcept fun m =>
  match w m with
  | some w => .ok (w.setWidth 64)
  | none => .error .undefinedBehaviour

def argument (i : Nat) : Look (BitVec 64) := widened fun m => m.argWord i

/-- The bytes 4 to 7 of the `sockaddr_in` at a pointer. -/
def sinAddr (m : Machine) (pointer : BitVec 32) : Option (List Byte) :=
  (List.range 4).mapM fun k => m.bufferByte pointer (4 + k)

/-- The address of the peer. -/
def peerIp (peerInfoGl : BitVec 64) (peerInfoHp : Addr) : Look (List Byte) := do
  let _ ← Mavmm.peerIp peerInfoHp 4 0
  Probe.ofExcept fun m =>
    match sinAddr m (peerInfoGl.setWidth 32) with
    | some ip => .ok ip
    | none => .error .undefinedBehaviour

def outPeerPort (fmt : String) (size : BitVec 32) (peerInfoGl : BitVec 64) (peerInfoHp : Addr) :
    Look Unit := do
  let ip ← peerIp peerInfoGl peerInfoHp
  let port ← peerPort peerInfoHp
  outf fmt (.int size :: ip.map fieldArg ++ [fieldArg port])

def sysSocket : Look Unit := do
  let _ ← socketArgs 6 0
  let family ← argument 0
  let type ← argument 1
  let protocol ← argument 2
  outf "sys_socket  family %x, type %x protocol %x" [.word family, .word type, .word protocol]

def sysListen : Look Unit := do
  let _ ← socketArgs 6 0
  let fd ← argument 0
  let backlog ← argument 1
  outf "listen  fd %x, backlog %x" [.word fd, .word backlog]

/-- The calls that print the length of the address as well. -/
def outPeerLen (fmt : String) : Look Unit := do
  let _ ← socketArgs 6 0
  let fd ← argument 0
  let peerInfoGl ← argument 1
  let addrlen ← argument 2
  let peerInfoHp ← translateDs peerInfoGl
  let ip ← peerIp peerInfoGl peerInfoHp
  outf fmt (.word fd :: ip.map fieldArg ++ [.word addrlen])

def sysBind : Look Unit := outPeerLen "sys_bind fd %x peer's ip %x.%x.%x.%x addrlen %x"

def sysConnect : Look Unit := outPeerLen "sys_connect fd %x peer's ip %x.%x.%x.%x addrlen %x"

def sysAccept : Look Unit := do
  let _ ← socketArgs 6 0
  let fd ← argument 0
  let peerInfoGl ← argument 1
  let peerInfoHp ← translateDs peerInfoGl
  let ip ← peerIp peerInfoGl peerInfoHp
  outf "sys_accept fd %x peer's ip %x.%x.%x.%x " (.word fd :: ip.map fieldArg ++ [])

def sysSendto : Look Unit := do
  let _ ← socketArgs 6 0
  let bufferGl ← argument 1
  let size := bufsize (← argument 2)
  let peerInfoGl ← argument 4
  let peerInfoHp ← translateDs peerInfoGl
  let bufferHp ← translate 0#16 bufferGl
  if bufferHp ≠ -1#64 then
    outPeerPort "sending %x bytes to  %x.%x.%x.%x:%x " size peerInfoGl peerInfoHp
    outBytes bufferHp size.toInt.toNat 0
    outf "\n" []

def sysRecvfrom : Handler Unit := do
  let _ ← socketArg 4#64
  let _ ← socketArg 16#64
  let _ ← socketArg 8#64
  let bufferGl ← argument 1
  let peerInfoGl ← argument 4
  let size := bufsize (← argument 2)
  let peerInfoHp ← translateDs peerInfoGl
  outPeerPort "receving %x bytes from  %x.%x.%x.%x : %x  " size peerInfoGl peerInfoHp
  let tid ← getCurThreadid 102
  vmAddWaitingThread tid (.recvfrom bufferGl size)

/-- The pointer in the first four bytes of `thread_info`. -/
def taskStructGl (sel : BitVec 16) (threadInfoGl : BitVec 64) (threadInfoHp : Addr) :
    Look (BitVec 64) := do
  let _ ← loadAt Mem.load64 threadInfoHp 0
  widened fun m => m.wordIn sel (threadInfoGl.setWidth 32)

def getCurProcessTaskstruct : Look Addr := do
  let c ← Probe.read fun m => m.vmcb
  let threadInfoGl := c.rsp &&& 0xffffe000#64
  let threadInfoHp ← translate c.ssSel threadInfoGl
  let taskStructGl ← taskStructGl c.ssSel threadInfoGl threadInfoHp
  let taskStructHp ← translate c.dsSel taskStructGl
  outfWhen (taskStructHp = 0#64) " task_struct_gl = %x, ds = %x, ss = %x"
    [.word taskStructGl, .int (c.dsSel.setWidth 32), .int (c.ssSel.setWidth 32)]
  return taskStructHp

def getCurProcessUsermodeTaskstruct : Look Addr := do
  let c ← Probe.read fun m => m.vmcb
  let espHp ← translate c.trSel 0x04#64
  if espHp = -1#64 then pure (-1#64) else
    let esp ← loadAt Mem.load64 espHp 0
    let ssHp ← translate c.trSel 0x08#64
    if ssHp = -1#64 then pure (-1#64) else
      let ss ← loadAt Mem.load16 ssHp 0
      let threadInfoGl := esp &&& 0xffffe000#64
      let threadInfoHp ← translate ss threadInfoGl
      if threadInfoHp = -1#64 then pure (-1#64) else
        let taskStructGl ← taskStructGl ss threadInfoGl threadInfoHp
        translate c.dsSel taskStructGl

end Ilp32

/-! ## What the handlers need -/

/-- Where the code finds argument `i`. -/
def Machine.argAddr (m : Machine) (i : Nat) : Except Fault Addr :=
  glogic2Hphysic m.space m.vmcb.dsSel (m.argOffset i)

/-- The guest passes argument `i`, and it has the property together with the eight bytes that the
code loads. -/
def Argument (m : Machine) (i : Nat) (P : BitVec 64 → BitVec 32 → Prop) : Prop :=
  ∀ p, m.argAddr i = .ok p → ∃ w, m.argWord i = some w ∧ P (m.mem.load64 p) w

/-- The word at an offset in a segment lies at `p` and zeros follow it. -/
def WordAlone (m : Machine) (sel : BitVec 16) (offset : BitVec 32) (p : Addr) : Prop :=
  (∃ linear, m.linearIn sel offset = some linear ∧ InFrames m linear p 4) ∧
    m.mem.load32 (p + 4#64) = 0#32

/-- The four bytes of argument `i` are found where it starts, and zeros follow them. -/
def ArgumentAlone (m : Machine) (i : Nat) : Prop :=
  ∀ p, m.argAddr i = .ok p → WordAlone m m.vmcb.dsSel ((m.argOffset i).setWidth 32) p

/-- A pointer leads to the same place with the bytes that follow it and without. -/
def SamePlace (m : Machine) (sel : BitVec 16) (a : BitVec 64) (w : BitVec 32) : Prop :=
  glogic2Hphysic m.space sel a = glogic2Hphysic m.space sel (w.setWidth 64)

/-- The bytes from 8 on where the pointer leads are the bytes from 4 on of the guest's
`sockaddr_in`. -/
def RepeatsIp (m : Machine) (a : BitVec 64) (w : BitVec 32) : Prop :=
  ∀ q, glogic2Hphysic m.space m.vmcb.dsSel a = .ok q →
    ∀ k < 4, m.bufferByte w (4 + k) = some (m.mem (q + BitVec.ofNat 64 (8 + k)))

/-- The pointer to the `sockaddr_in`. -/
def PeerFound (m : Machine) (i : Nat) : Prop :=
  Argument m i fun a w => SamePlace m m.vmcb.dsSel a w ∧ RepeatsIp m a w

/-- The lower half of a size is all that is looked at. -/
def SameSize (a : BitVec 64) (w : BitVec 32) : Prop := a.setWidth 16 = w.setWidth 16

/-- What `sys_sendto` needs: nothing but the pointer to the buffer where that leads nowhere. -/
def SendtoDecoded (m : Machine) : Prop :=
  Argument m 1 fun a₁ w₁ => Argument m 2 fun a₂ w₂ => Argument m 4 fun a₄ w₄ =>
    ∀ b b', glogic2Hphysic m.space 0#16 a₁ = .ok b →
      glogic2Hphysic m.space 0#16 (w₁.setWidth 64) = .ok b' →
        (b = -1#64 ↔ b' = -1#64) ∧
          (b ≠ -1#64 → SamePlace m m.vmcb.dsSel a₄ w₄ ∧ RepeatsIp m a₄ w₄ ∧ SameSize a₂ w₂ ∧
            (a₂.setWidth 16 ≠ 0#16 → b = b'))

/-- What `sys_recvfrom` needs; the pointer to the buffer is recorded where there is room. -/
def RecvfromDecoded (m : Machine) : Prop :=
  (Argument m 1 fun a w => WaitingFits m.vm → a = w.setWidth 64) ∧ Argument m 2 SameSize ∧
    PeerFound m 4

/-- What the lookup in kernel mode needs; the pointer is printed where it leads to 0. -/
def KernelThreadDecoded (m : Machine) : Prop :=
  ∀ p, glogic2Hphysic m.space m.vmcb.ssSel (m.vmcb.rsp &&& 0xffffe000#64) = .ok p →
    ∃ w, m.wordIn m.vmcb.ssSel ((m.vmcb.rsp &&& 0xffffe000#64).setWidth 32) = some w ∧
      SamePlace m m.vmcb.dsSel (m.mem.load64 p) w ∧
        (glogic2Hphysic m.space m.vmcb.dsSel (m.mem.load64 p) = .ok 0#64 →
          m.mem.load64 p = w.setWidth 64)

/-- What the lookup in user mode needs, where it gets as far as `thread_info`. -/
def UserThreadDecoded (m : Machine) : Prop :=
  ∀ espHp, glogic2Hphysic m.space m.vmcb.trSel 0x04#64 = .ok espHp → espHp ≠ -1#64 →
    ∀ ssHp, glogic2Hphysic m.space m.vmcb.trSel 0x08#64 = .ok ssHp → ssHp ≠ -1#64 →
      ∀ p, glogic2Hphysic m.space (m.mem.load16 ssHp) (m.mem.load64 espHp &&& 0xffffe000#64) =
          .ok p → p ≠ -1#64 →
        ∃ w, m.wordIn (m.mem.load16 ssHp)
            ((m.mem.load64 espHp &&& 0xffffe000#64).setWidth 32) = some w ∧
          SamePlace m m.vmcb.dsSel (m.mem.load64 p) w

section
variable {m : Machine} {α β : Type}

/-! ## Words that stand alone -/

theorem guestLoad_eq_some_iff {p : Addr} :
    ∀ {n : Nat} {linear : BitVec 32}, m.guestLoad n linear = some (m.mem.load n p) ↔
      ∀ i < n, m.guestByte (linear + BitVec.ofNat 32 i) =
        some (m.mem (p + BitVec.ofNat 64 i)) := by
  intro n
  induction n generalizing p with
  | zero => exact fun {_} => iff_of_true rfl nofun
  | succ n ih =>
    intro linear
    have hcons : m.guestLoad (n + 1) linear = some (m.mem.load (n + 1) p) ↔
        m.guestByte linear = some (m.mem p) ∧
          m.guestLoad n (linear + 1#32) = some (m.mem.load n (p + 1#64)) := by
      rw [Machine.guestLoad, Mem.load]
      simp only [Option.bind_eq_bind, Option.bind_eq_some_iff]
      constructor
      · rintro ⟨b, hb, rest, hrest, heq⟩
        have heq : rest ++ b = m.mem.load n (p + 1#64) ++ m.mem p := Option.some.inj heq
        have hlow := congrArg (BitVec.extractLsb' 0 8) heq
        have hhigh := congrArg (BitVec.extractLsb' 8 (8 * n)) heq
        rw [BitVec.extractLsb'_append_eq_right, BitVec.extractLsb'_append_eq_right] at hlow
        rw [BitVec.extractLsb'_append_eq_left, BitVec.extractLsb'_append_eq_left] at hhigh
        exact ⟨hb.trans (congrArg some hlow), hrest.trans (congrArg some hhigh)⟩
      · exact fun h => ⟨_, h.1, _, h.2, rfl⟩
    rw [hcons, ih]
    constructor
    · rintro ⟨h0, hrest⟩ i hi
      cases i with
      | zero => simpa using h0
      | succ i =>
        have h := hrest i (by omega)
        rwa [BitVec.add_assoc, BitVec.add_assoc, ← BitVec.ofNat_add 1 i, ← BitVec.ofNat_add 1 i,
          Nat.add_comm 1 i] at h
    · intro h
      refine ⟨by simpa using h 0 (Nat.succ_pos n), fun i hi => ?_⟩
      rw [BitVec.add_assoc, BitVec.add_assoc, ← BitVec.ofNat_add 1 i, ← BitVec.ofNat_add 1 i,
        Nat.add_comm 1 i]
      exact h (i + 1) (by omega)

/-- The eight bytes at `p` are the guest's word exactly when the word stands alone there. -/
theorem wordAlone_iff {sel : BitVec 16} {offset : BitVec 32} {p : Addr} :
    WordAlone m sel offset p ↔
      ∃ w, m.wordIn sel offset = some w ∧ m.mem.load64 p = w.setWidth 64 := by
  have hword : ∀ {linear w}, m.linearIn sel offset = some linear →
      (m.wordIn sel offset = some w ↔ m.guestLoad 4 linear = some w) := by
    intro linear w hlinear
    unfold Machine.wordIn
    rw [hlinear]
    rfl
  unfold WordAlone
  simp only [inFrames_iff, ← guestLoad_eq_some_iff, Mem.load64_eq_setWidth_iff]
  constructor
  · rintro ⟨⟨linear, hlinear, hload⟩, hzero⟩
    exact ⟨m.mem.load32 p, (hword hlinear).mpr hload, rfl, hzero⟩
  · rintro ⟨w, hw, rfl, hzero⟩
    cases hlinear : m.linearIn sel offset with
    | none =>
      unfold Machine.wordIn at hw
      rw [hlinear] at hw
      cases hw
    | some linear => exact ⟨⟨linear, rfl, (hword hlinear).mp hw⟩, hzero⟩

theorem argument_iff {i : Nat} {p : Addr} {P : BitVec 64 → BitVec 32 → Prop}
    (h : m.argAddr i = .ok p) :
    Argument m i P ↔ ∃ w, m.argWord i = some w ∧ P (m.mem.load64 p) w := by
  constructor
  · exact fun hall => hall p h
  · intro hp q hq
    cases h.symm.trans hq
    exact hp

theorem argumentAlone_iff {i : Nat} {p : Addr} (h : m.argAddr i = .ok p) :
    ArgumentAlone m i ↔ ∃ w, m.argWord i = some w ∧ m.mem.load64 p = w.setWidth 64 := by
  unfold ArgumentAlone
  simp only [wordAlone_iff]
  exact @argument_iff m i p (fun a w => a = w.setWidth 64) h

/-! ## Steps -/

theorem socketArg_returns_iff {off a : BitVec 64} :
    (socketArg off).Returns m a ↔
      ∃ p, glogic2Hphysic m.space m.vmcb.dsSel (m.regs.rcx + off) = .ok p ∧
        m.mem.load64 p = a := by
  unfold socketArg translateDs translate reg loadAt
  simp

theorem socketArgs_returns_getD (n : Nat) :
    ∀ {i : Nat} {arg : List (BitVec 64)}, (socketArgs n i).Returns m arg →
      ∀ k < n, (socketArg (BitVec.ofNat 64 ((i + k) * 4))).Returns m (arg.getD k 0#64) := by
  induction n with
  | zero => exact fun _ k hk => absurd hk (Nat.not_lt_zero k)
  | succ n ih =>
    intro i arg h k hk
    obtain ⟨a, ha, h⟩ := Probe.returns_bind.mp h
    obtain ⟨rest, hrest, h⟩ := Probe.returns_bind.mp h
    cases h
    cases k with
    | zero => exact ha
    | succ k =>
      have hnext := ih hrest k (by omega)
      rwa [show i + 1 + k = i + (k + 1) by omega] at hnext

/-- Everything can be translated, argument `i` to `p i`. -/
structure Reaches (m : Machine) (p : Nat → Addr) : Prop where
  all : ∀ sel off, ∃ q, glogic2Hphysic m.space sel off = .ok q
  arg : ∀ i, m.argAddr i = .ok (p i)

/-- Where one address can be translated, every address can. -/
theorem translates_all {sel : BitVec 16} {off : BitVec 64} {p : Addr}
    (h : glogic2Hphysic m.space sel off = .ok p) :
    ∀ sel off, ∃ q, glogic2Hphysic m.space sel off = .ok q := by
  rcases @glogic2Hphysic_total m.space with ⟨f, hnone⟩ | hall
  · exact nomatch (hnone sel off).symm.trans h
  · exact hall

/-- Either nothing can be translated, or everything. -/
theorem reaches_or_fails (m : Machine) :
    (∀ sel off q, glogic2Hphysic m.space sel off ≠ .ok q) ∨ ∃ p, Reaches m p := by
  by_cases hsome : ∃ sel off q, glogic2Hphysic m.space sel off = .ok q
  · obtain ⟨_, _, _, h⟩ := hsome
    have hall := translates_all h
    obtain ⟨p, hp⟩ := Classical.axiomOfChoice fun i => hall m.vmcb.dsSel (m.argOffset i)
    exact Or.inr ⟨p, hall, hp⟩
  · exact Or.inl fun sel off q h => hsome ⟨sel, off, q, h⟩

/-- Two handlers of the same block are compared after it has been loaded. -/
theorem socketArgs_congr_iff {f g : List (BitVec 64) → Look β} {C : Prop}
    (hfails : (∀ i q, m.argAddr i ≠ .ok q) → C)
    (h : ∀ p, Reaches m p → ∀ arg, (∀ i < 6, arg.getD i 0#64 = m.mem.load64 (p i)) →
      (f arg m = g arg m ↔ C)) :
    (socketArgs 6 0 >>= f) m = (socketArgs 6 0 >>= g) m ↔ C := by
  rw [Probe.bind_congr_iff]
  rcases reaches_or_fails m with hnone | ⟨p, hp⟩
  · refine iff_of_true (fun arg harg => ?_) (hfails fun i q hq => hnone _ _ q hq)
    obtain ⟨q, hq, -⟩ := socketArg_returns_iff.mp (socketArgs_returns_getD 6 harg 0 (by simp))
    exact absurd hq (hnone _ _ q)
  · have harg : ∀ {arg}, (socketArgs 6 0).Returns m arg →
        ∀ i < 6, arg.getD i 0#64 = m.mem.load64 (p i) := by
      intro arg hreturns i hi
      obtain ⟨q, hq, ha⟩ := socketArg_returns_iff.mp (socketArgs_returns_getD 6 hreturns i hi)
      rw [Nat.zero_add] at hq
      rw [← ha, Except.ok.inj (hq.symm.trans (hp.arg i))]
    have hload : ∀ off, ∃ a, (socketArg off).Returns m a := by
      intro off
      obtain ⟨q, hq⟩ := hp.all m.vmcb.dsSel (m.regs.rcx + off)
      exact ⟨m.mem.load64 q, socketArg_returns_iff.mpr ⟨q, hq, rfl⟩⟩
    obtain ⟨arg, hreturns, -⟩ := socketArgs_returns hload 6 0
    constructor
    · exact fun hall => (h p hp arg (harg hreturns)).mp (hall arg hreturns)
    · exact fun hC arg hreturns => (h p hp arg (harg hreturns)).mpr hC

/-- A run that does not stop at once, compared with one that starts with a word of the guest. -/
theorem eq_widened_bind {x : Look β} {w : Machine → Option (BitVec 32)}
    {f : BitVec 64 → Look β} (hx : x m ≠ ([], .error .undefinedBehaviour)) :
    x m = (Ilp32.widened w >>= f) m ↔ ∃ v, w m = some v ∧ x m = f (v.setWidth 64) m := by
  cases hw : w m with
  | none =>
    have hfails : Ilp32.widened w m = ([], .error .undefinedBehaviour) := by
      simp only [Ilp32.widened, Probe.ofExcept, hw]
    rw [Probe.run_bind_fails hfails]
    exact iff_of_false hx fun ⟨v, hv, _⟩ => nomatch hv
  | some v =>
    have hreturns : (Ilp32.widened w) m = ([], .ok (v.setWidth 64)) := by
      simp only [Ilp32.widened, Probe.ofExcept, hw]
    rw [Probe.run_bind (congrArg Prod.snd hreturns), hreturns]
    simp

theorem run_translate {sel : BitVec 16} {off : BitVec 64} {p : Addr}
    (h : glogic2Hphysic m.space sel off = .ok p) :
    translate sel off m = ((gdtentryRead m.space sel).toList.map Event.descriptor, .ok p) := by
  change ((gdtentryRead m.space sel).toList.map Event.descriptor ++ [],
    glogic2Hphysic m.space sel off) = _
  rw [h, List.append_nil]

theorem run_translateDs {off : BitVec 64} {p : Addr}
    (h : glogic2Hphysic m.space m.vmcb.dsSel off = .ok p) :
    translateDs off m =
      ((gdtentryRead m.space m.vmcb.dsSel).toList.map Event.descriptor, .ok p) := run_translate h

/-- The accesses to the address of the peer. -/
def peerReads (q : Addr) : List Event := (List.range 4).map fun i => .deref q (.bytes (8 + i) 1)

theorem length_peerReads (q : Addr) : (peerReads q).length = 4 := rfl

theorem peerReads_inj {q q' : Addr} : peerReads q = peerReads q' ↔ q = q' := by
  constructor
  · exact fun h => (Event.deref.inj (List.cons.inj h).1).1
  · rintro rfl
    rfl

theorem run_peerIp (p : Addr) : peerIp p 4 0 m = (peerReads p, .ok (peerBytes m p)) := rfl

/-- After translations of the same segment. -/
theorem translate_congr_iff {sel : BitVec 16} {a a' : BitVec 64} {q q' : Addr}
    {f g : Addr → Look β} (hq : glogic2Hphysic m.space sel a = .ok q)
    (hq' : glogic2Hphysic m.space sel a' = .ok q') :
    (translate sel a >>= f) m = (translate sel a' >>= g) m ↔ f q m = g q' m := by
  rw [Probe.bind_eq_bind_iff (run_translate hq) (run_translate hq') rfl]
  exact and_iff_right rfl

theorem translateDs_congr_iff {a a' : BitVec 64} {q q' : Addr} {f g : Addr → Look β}
    (hq : glogic2Hphysic m.space m.vmcb.dsSel a = .ok q)
    (hq' : glogic2Hphysic m.space m.vmcb.dsSel a' = .ok q') :
    (translateDs a >>= f) m = (translateDs a' >>= g) m ↔ f q m = g q' m := by
  rw [Probe.bind_eq_bind_iff (run_translateDs hq) (run_translateDs hq') rfl]
  exact and_iff_right rfl

/-- Output with the same text tells its arguments apart. -/
theorem outf_eq_iff {fmt : String} {args args' : List OutArg} :
    outf fmt args m = outf fmt args' m ↔ args = args' := by
  constructor
  · intro h
    have hlog : args.filterMap OutArg.deref ++ [Event.out fmt args] =
        args'.filterMap OutArg.deref ++ [Event.out fmt args'] := congrArg Prod.fst h
    have hlast := List.singleton_inj.mp (List.append_inj_right' hlog rfl)
    exact (Event.out.inj hlast).2
  · rintro rfl
    rfl

theorem outf_ne {fmt : String} {args : List OutArg} {e : Fault} :
    outf fmt args m ≠ ([], .error e) := fun h => nomatch congrArg Prod.snd h

/-! ## The address of the peer -/

theorem length_peerBytes (q : Addr) : (peerBytes m q).length = 4 := rfl

theorem sinAddr_length {w : BitVec 32} {ip : List Byte} (h : Ilp32.sinAddr m w = some ip) :
    ip.length = 4 := by
  have hlen := congrArg List.length ((mapM_eq_some_iff _).mp h)
  rw [List.length_map, List.length_map, List.length_range] at hlen
  exact hlen.symm

theorem repeatsIp_iff {a : BitVec 64} {w : BitVec 32} {q : Addr}
    (hq : glogic2Hphysic m.space m.vmcb.dsSel a = .ok q) :
    RepeatsIp m a w ↔ Ilp32.sinAddr m w = some (peerBytes m q) := by
  unfold Ilp32.sinAddr peerBytes
  rw [mapM_eq_some_iff, List.map_map, List.map_inj_left]
  constructor
  · exact fun h k hk => h q hq k (List.mem_range.mp hk)
  · intro h q' hq' k hk
    cases hq.symm.trans hq'
    exact h k (List.mem_range.mpr hk)

theorem samePlace_iff {sel : BitVec 16} {a : BitVec 64} {w : BitVec 32} {q q' : Addr}
    (hq : glogic2Hphysic m.space sel a = .ok q)
    (hq' : glogic2Hphysic m.space sel (w.setWidth 64) = .ok q') :
    SamePlace m sel a w ↔ q = q' := by
  unfold SamePlace
  rw [hq, hq', Except.ok.injEq]

theorem fieldArg_injective : Function.Injective (fieldArg : Byte → OutArg) := by
  intro b c h
  have hint := congrArg (BitVec.setWidth 8) (OutArg.int.inj h)
  simpa using hint

theorem narrowed (w : BitVec 32) : (w.setWidth 64).setWidth 32 = w := by simp

theorem run_ilp32_peerIp {w : BitVec 32} {q : Addr} {ip : List Byte}
    (h : Ilp32.sinAddr m w = some ip) :
    Ilp32.peerIp (w.setWidth 64) q m = (peerReads q, .ok ip) := by
  unfold Ilp32.peerIp
  rw [Probe.run_bind (congrArg Prod.snd (run_peerIp q)), run_peerIp]
  simp only [Probe.ofExcept, narrowed, h, List.append_nil]

theorem run_ilp32_peerIp_none {w : BitVec 32} {q : Addr} (h : Ilp32.sinAddr m w = none) :
    Ilp32.peerIp (w.setWidth 64) q m = (peerReads q, .error .undefinedBehaviour) := by
  unfold Ilp32.peerIp
  rw [Probe.run_bind (congrArg Prod.snd (run_peerIp q)), run_peerIp]
  simp only [Probe.ofExcept, narrowed, h, List.append_nil]

/-- The four accesses are to the same place, and the bytes there are those of the guest's
structure. -/
theorem peerIp_congr_iff {w : BitVec 32} {q q' : Addr} {f g : List Byte → Look β}
    (hf : f (peerBytes m q) m ≠ ([], .error .undefinedBehaviour)) :
    (peerIp q 4 0 >>= f) m = (Ilp32.peerIp (w.setWidth 64) q' >>= g) m ↔
      q = q' ∧ ∃ ip, Ilp32.sinAddr m w = some ip ∧ f (peerBytes m q) m = g ip m := by
  cases hip : Ilp32.sinAddr m w with
  | none =>
    rw [Probe.run_bind (congrArg Prod.snd (run_peerIp q)),
      Probe.run_bind_fails (run_ilp32_peerIp_none hip), run_peerIp]
    refine iff_of_false (fun h => hf ?_) fun ⟨_, _, h, _⟩ => nomatch h
    obtain ⟨hlog, hresult⟩ := Prod.mk.inj h
    have hempty : (f (peerBytes m q) m).1 = [] :=
      List.append_inj_right (hlog.trans (List.append_nil _).symm) rfl
    exact Prod.ext hempty hresult
  | some ip =>
    rw [Probe.bind_eq_bind_iff (run_peerIp q) (run_ilp32_peerIp (q := q') hip) rfl, peerReads_inj]
    simp

/-! ## The handlers -/

theorem sysSocket_ilp32_iff :
    sysSocket m = Ilp32.sysSocket m ↔
      ArgumentAlone m 0 ∧ ArgumentAlone m 1 ∧ ArgumentAlone m 2 := by
  unfold sysSocket Ilp32.sysSocket Ilp32.argument
  refine socketArgs_congr_iff (fun hnone => ?_) fun p hp arg harg => ?_
  · exact ⟨fun q h => absurd h (hnone 0 q), fun q h => absurd h (hnone 1 q),
      fun q h => absurd h (hnone 2 q)⟩
  · simp only [eq_widened_bind outf_ne, argumentAlone_iff (hp.arg _), harg 0 (by simp),
      harg 1 (by simp), harg 2 (by simp), outf_eq_iff, List.cons.injEq, OutArg.word.injEq,
      and_true]
    constructor
    · rintro ⟨w₀, h₀, w₁, h₁, w₂, h₂, e₀, e₁, e₂⟩
      exact ⟨⟨w₀, h₀, e₀⟩, ⟨w₁, h₁, e₁⟩, w₂, h₂, e₂⟩
    · rintro ⟨⟨w₀, h₀, e₀⟩, ⟨w₁, h₁, e₁⟩, w₂, h₂, e₂⟩
      exact ⟨w₀, h₀, w₁, h₁, w₂, h₂, e₀, e₁, e₂⟩

theorem sysListen_ilp32_iff :
    sysListen m = Ilp32.sysListen m ↔ ArgumentAlone m 0 ∧ ArgumentAlone m 1 := by
  unfold sysListen Ilp32.sysListen Ilp32.argument
  refine socketArgs_congr_iff (fun hnone => ?_) fun p hp arg harg => ?_
  · exact ⟨fun q h => absurd h (hnone 0 q), fun q h => absurd h (hnone 1 q)⟩
  · simp only [eq_widened_bind outf_ne, argumentAlone_iff (hp.arg _), harg 0 (by simp),
      harg 1 (by simp), outf_eq_iff, List.cons.injEq, OutArg.word.injEq, and_true]
    constructor
    · rintro ⟨w₀, h₀, w₁, h₁, e₀, e₁⟩
      exact ⟨⟨w₀, h₀, e₀⟩, w₁, h₁, e₁⟩
    · rintro ⟨⟨w₀, h₀, e₀⟩, w₁, h₁, e₁⟩
      exact ⟨w₀, h₀, w₁, h₁, e₀, e₁⟩

/-- The output of the calls that name a peer. -/
theorem outPeer_congr_iff {fmt : String} {a₀ a₁ b₀ : BitVec 64} {w : BitVec 32}
    {more more' : List OutArg} {q q' : Addr}
    (hq : glogic2Hphysic m.space m.vmcb.dsSel a₁ = .ok q)
    (hq' : glogic2Hphysic m.space m.vmcb.dsSel (w.setWidth 64) = .ok q') :
    (do
        let peerInfoHp ← translateDs a₁
        let ip ← peerIp peerInfoHp 4 0
        outf fmt (OutArg.word a₀ :: ip.map fieldArg ++ more)) m =
      (do
        let peerInfoHp ← translateDs (w.setWidth 64)
        let ip ← Ilp32.peerIp (w.setWidth 64) peerInfoHp
        outf fmt (OutArg.word b₀ :: ip.map fieldArg ++ more')) m ↔
      (SamePlace m m.vmcb.dsSel a₁ w ∧ RepeatsIp m a₁ w) ∧ a₀ = b₀ ∧ more = more' := by
  rw [translateDs_congr_iff hq hq', peerIp_congr_iff outf_ne, samePlace_iff hq hq',
    repeatsIp_iff hq, and_assoc]
  refine and_congr_right fun _ => ?_
  simp only [outf_eq_iff, List.cons_append, List.cons.injEq, OutArg.word.injEq]
  constructor
  · rintro ⟨ip, hip, ha, hlist⟩
    have hlen : ((peerBytes m q).map fieldArg).length = (ip.map fieldArg).length := by
      rw [List.length_map, List.length_map, length_peerBytes, sinAddr_length hip]
    obtain ⟨hbytes, hmore⟩ := List.append_inj hlist hlen
    rw [(List.map_inj_right fun _ _ h => fieldArg_injective h).mp hbytes]
    exact ⟨hip, ha, hmore⟩
  · rintro ⟨hip, ha, hmore⟩
    exact ⟨peerBytes m q, hip, ha, by rw [hmore]⟩

theorem outPeer_ne {fmt : String} {a₁ : BitVec 64} {args : List Byte → List OutArg} {q : Addr}
    {e : Fault} (hq : glogic2Hphysic m.space m.vmcb.dsSel a₁ = .ok q) :
    (do
      let peerInfoHp ← translateDs a₁
      let ip ← peerIp peerInfoHp 4 0
      outf fmt (args ip)) m ≠ ([], .error e) := by
  intro h
  have hresult := congrArg Prod.snd h
  rw [Probe.result_bind (congrArg Prod.snd (run_translateDs hq)),
    Probe.result_bind (congrArg Prod.snd (run_peerIp q))] at hresult
  cases hresult

theorem outPeerLen_ilp32_iff {fmt : String} :
    outPeer fmt (fun arg => [arg.getD 2 0#64]) m = Ilp32.outPeerLen fmt m ↔
      ArgumentAlone m 0 ∧ PeerFound m 1 ∧ ArgumentAlone m 2 := by
  unfold outPeer Ilp32.outPeerLen Ilp32.argument PeerFound
  refine socketArgs_congr_iff (fun hnone => ?_) fun p hp arg harg => ?_
  · exact ⟨fun q h => absurd h (hnone 0 q), fun q h => absurd h (hnone 1 q),
      fun q h => absurd h (hnone 2 q)⟩
  · obtain ⟨q, hq⟩ := hp.all m.vmcb.dsSel (m.mem.load64 (p 1))
    dsimp only
    rw [harg 0 (by simp), harg 1 (by simp), harg 2 (by simp)]
    simp only [eq_widened_bind (outPeer_ne hq), argumentAlone_iff (hp.arg _),
      argument_iff (hp.arg _)]
    constructor
    · rintro ⟨w₀, h₀, w₁, h₁, w₂, h₂, h⟩
      obtain ⟨q', hq'⟩ := hp.all m.vmcb.dsSel (w₁.setWidth 64)
      obtain ⟨hpeer, e₀, e₂⟩ := (outPeer_congr_iff hq hq').mp h
      have e₂ := OutArg.word.inj (List.cons.inj e₂).1
      exact ⟨⟨w₀, h₀, e₀⟩, ⟨w₁, h₁, hpeer⟩, w₂, h₂, e₂⟩
    · rintro ⟨⟨w₀, h₀, e₀⟩, ⟨w₁, h₁, hpeer⟩, w₂, h₂, e₂⟩
      obtain ⟨q', hq'⟩ := hp.all m.vmcb.dsSel (w₁.setWidth 64)
      exact ⟨w₀, h₀, w₁, h₁, w₂, h₂, (outPeer_congr_iff hq hq').mpr ⟨hpeer, e₀, by rw [e₂]; rfl⟩⟩

theorem sysAccept_ilp32_iff :
    sysAccept m = Ilp32.sysAccept m ↔ ArgumentAlone m 0 ∧ PeerFound m 1 := by
  unfold sysAccept outPeer Ilp32.sysAccept Ilp32.argument PeerFound
  refine socketArgs_congr_iff (fun hnone => ?_) fun p hp arg harg => ?_
  · exact ⟨fun q h => absurd h (hnone 0 q), fun q h => absurd h (hnone 1 q)⟩
  · obtain ⟨q, hq⟩ := hp.all m.vmcb.dsSel (m.mem.load64 (p 1))
    rw [harg 0 (by simp), harg 1 (by simp)]
    simp only [eq_widened_bind (outPeer_ne hq), argumentAlone_iff (hp.arg _),
      argument_iff (hp.arg _)]
    constructor
    · rintro ⟨w₀, h₀, w₁, h₁, h⟩
      obtain ⟨q', hq'⟩ := hp.all m.vmcb.dsSel (w₁.setWidth 64)
      obtain ⟨hpeer, e₀, -⟩ := (outPeer_congr_iff hq hq').mp h
      exact ⟨⟨w₀, h₀, e₀⟩, w₁, h₁, hpeer⟩
    · rintro ⟨⟨w₀, h₀, e₀⟩, w₁, h₁, hpeer⟩
      obtain ⟨q', hq'⟩ := hp.all m.vmcb.dsSel (w₁.setWidth 64)
      exact ⟨w₀, h₀, w₁, h₁, (outPeer_congr_iff hq hq').mpr ⟨hpeer, e₀, rfl⟩⟩

/-! ## Sizes and buffers -/

theorem bufsize_eq (a : BitVec 64) : bufsize a = (a.setWidth 16).setWidth 32 := by
  apply BitVec.eq_of_toNat_eq
  have hlow : (a &&& 0xffff#64).toNat = a.toNat % 2 ^ 16 :=
    Bits.toNat_and_lowMask a 16 (by simp)
  rw [bufsize, BitVec.toNat_setWidth, hlow, BitVec.toNat_setWidth, BitVec.toNat_setWidth]

theorem bufsize_eq_iff {a : BitVec 64} {w : BitVec 32} :
    bufsize a = bufsize (w.setWidth 64) ↔ SameSize a w := by
  have hwide : ∀ x y : BitVec 16, x.setWidth 32 = y.setWidth 32 ↔ x = y := by
    intro x y
    constructor
    · intro h
      simpa using congrArg (BitVec.setWidth 16) h
    · rintro rfl
      rfl
  rw [bufsize_eq, bufsize_eq, hwide, SameSize]
  simp

theorem bufsize_zero_iff {a : BitVec 64} : (bufsize a).toInt.toNat = 0 ↔ a.setWidth 16 = 0#16 := by
  rw [toNat_bufsize]
  constructor
  · intro h
    apply BitVec.eq_of_toNat_eq
    rw [BitVec.toNat_setWidth, h]
    rfl
  · intro h
    have hnat := congrArg BitVec.toNat h
    rwa [BitVec.toNat_setWidth] at hnat

/-- Bytes printed from two places tell these apart, if there are any. -/
theorem outBytes_congr_iff {b b' : Addr} {n i : Nat} {f : Unit → Look β} :
    (outBytes b n i >>= f) m = (outBytes b' n i >>= f) m ↔ (n ≠ 0 → b = b') := by
  constructor
  · intro h hn
    obtain ⟨k, rfl⟩ := Nat.exists_eq_succ_of_ne_zero hn
    have hfirst : ∀ c : Addr,
        ((outBytes c (k + 1) i >>= f) m).1.head? = some (.deref c (.bytes i 1)) := by
      intro c
      rw [Probe.log_bind (outBytes_returns c (k + 1) i)]
      rfl
    have hhead := congrArg (fun r => r.1.head?) h
    rw [hfirst, hfirst] at hhead
    exact (Event.deref.inj (Option.some.inj hhead)).1
  · intro h
    cases n with
    | zero => rfl
    | succ n => rw [h (Nat.succ_ne_zero n)]

/-- What the line with the peer logs. -/
def peerLine (m : Machine) (fmt : String) (size : BitVec 32) (q : Addr) (ip : List Byte) :
    List Event :=
  peerReads q ++ [.deref q (.bytes 2 2), .out fmt (.int size :: ip.map fieldArg ++
    [fieldArg (m.mem.load16 (q + BitVec.ofNat 64 2))])]

theorem run_outPeerPort {fmt : String} {size : BitVec 32} (q : Addr) :
    outPeerPort fmt size q m = (peerLine m fmt size q (peerBytes m q), .ok ()) := rfl

theorem run_ilp32_outPeerPort {fmt : String} {size : BitVec 32} {w : BitVec 32} (q : Addr)
    {ip : List Byte} (h : Ilp32.sinAddr m w = some ip) :
    Ilp32.outPeerPort fmt size (w.setWidth 64) q m = (peerLine m fmt size q ip, .ok ()) := by
  have hrun := run_ilp32_peerIp (q := q) h
  have hport : (peerPort q).Returns m (m.mem.load16 (q + BitVec.ofNat 64 2)) := rfl
  have hargs : (OutArg.int size :: ip.map fieldArg ++
      [fieldArg (m.mem.load16 (q + BitVec.ofNat 64 2))]).filterMap OutArg.deref = [] := by
    rw [List.cons_append, List.filterMap_cons_none (show OutArg.deref (.int size) = none from rfl),
      List.filterMap_append, deref_fieldArg]
    rfl
  unfold Ilp32.outPeerPort peerLine
  rw [Probe.run_bind (congrArg Prod.snd hrun), hrun, Probe.run_bind hport]
  change (_ ++ ([Event.deref q (.bytes 2 2)] ++ (_ ++ _)), _) = _
  rw [hargs]
  rfl

theorem run_ilp32_outPeerPort_none {fmt : String} {size : BitVec 32} {w : BitVec 32} (q : Addr)
    (h : Ilp32.sinAddr m w = none) :
    Ilp32.outPeerPort fmt size (w.setWidth 64) q m = (peerReads q, .error .undefinedBehaviour) :=
  Probe.run_bind_fails (run_ilp32_peerIp_none h)

theorem peerLine_eq_iff {fmt : String} {size size' : BitVec 32} {q q' : Addr} {ip : List Byte}
    (hip : ip.length = 4) :
    peerLine m fmt size q (peerBytes m q) = peerLine m fmt size' q' ip ↔
      q = q' ∧ ip = peerBytes m q ∧ size = size' := by
  constructor
  · intro h
    obtain ⟨hreads, hline⟩ := List.append_inj h rfl
    obtain ⟨-, hargs⟩ := Event.out.inj (List.singleton_inj.mp (List.cons.inj hline).2)
    rw [List.cons_append, List.cons_append] at hargs
    obtain ⟨hsize, hargs⟩ := List.cons.inj hargs
    have hlen : ((peerBytes m q).map fieldArg).length = (ip.map fieldArg).length := by
      rw [List.length_map, List.length_map, length_peerBytes, hip]
    refine ⟨peerReads_inj.mp hreads, ?_, OutArg.int.inj hsize⟩
    exact ((List.map_inj_right fun _ _ h => fieldArg_injective h).mp
      (List.append_inj hargs hlen).1).symm
  · rintro ⟨rfl, rfl, rfl⟩
    rfl

/-- A handler that goes on behind the line with the peer. -/
theorem outPeerPort_congr_iff {fmt : String} {size size' : BitVec 32} {w : BitVec 32}
    {q q' : Addr} {f g : Unit → Look β} :
    (outPeerPort fmt size q >>= f) m =
        (Ilp32.outPeerPort fmt size' (w.setWidth 64) q' >>= g) m ↔
      (q = q' ∧ Ilp32.sinAddr m w = some (peerBytes m q) ∧ size = size') ∧
        f () m = g () m := by
  cases hip : Ilp32.sinAddr m w with
  | none =>
    rw [Probe.run_bind (congrArg Prod.snd (run_outPeerPort q)),
      Probe.run_bind_fails (run_ilp32_outPeerPort_none q' hip), run_outPeerPort]
    refine iff_of_false (fun h => ?_) fun h => nomatch h.1.2.1
    have hlen := congrArg List.length (Prod.mk.inj h).1
    simp [peerLine, length_peerReads] at hlen
  | some ip =>
    have hlen := sinAddr_length hip
    rw [Probe.bind_eq_bind_iff (run_outPeerPort q) (run_ilp32_outPeerPort q' hip)
      (by simp [peerLine, length_peerReads]), peerLine_eq_iff hlen, Option.some.injEq]

/-- The line with the peer logs something even where the guest's structure cannot be read. -/
theorem ilp32_outPeerPort_logs {fmt : String} {size : BitVec 32} {w : BitVec 32} {q : Addr}
    {g : Unit → Look β} : ((Ilp32.outPeerPort fmt size (w.setWidth 64) q >>= g) m).1 ≠ [] := by
  cases hip : Ilp32.sinAddr m w with
  | none =>
    rw [Probe.run_bind_fails (run_ilp32_outPeerPort_none q hip)]
    exact List.cons_ne_nil _ _
  | some ip =>
    rw [Probe.run_bind (congrArg Prod.snd (run_ilp32_outPeerPort q hip)),
      run_ilp32_outPeerPort q hip]
    exact List.cons_ne_nil _ _

/-- `sys_sendto` behind its arguments. -/
theorem sendtoRest_congr_iff {a₁ a₂ a₄ : BitVec 64} {w₁ w₂ w₄ : BitVec 32} {b b' q q' : Addr}
    (hb : glogic2Hphysic m.space 0#16 a₁ = .ok b)
    (hb' : glogic2Hphysic m.space 0#16 (w₁.setWidth 64) = .ok b')
    (hq : glogic2Hphysic m.space m.vmcb.dsSel a₄ = .ok q)
    (hq' : glogic2Hphysic m.space m.vmcb.dsSel (w₄.setWidth 64) = .ok q') {fmt : String} :
    (do
        let peerInfoHp ← translateDs a₄
        let bufferHp ← translate 0#16 a₁
        if bufferHp ≠ -1#64 then
          outPeerPort fmt (bufsize a₂) peerInfoHp
          outBytes bufferHp (bufsize a₂).toInt.toNat 0
          outf "\n" []
        else pure ()) m =
      (do
        let peerInfoHp ← translateDs (w₄.setWidth 64)
        let bufferHp ← translate 0#16 (w₁.setWidth 64)
        if bufferHp ≠ -1#64 then
          Ilp32.outPeerPort fmt (bufsize (w₂.setWidth 64)) (w₄.setWidth 64) peerInfoHp
          outBytes bufferHp (bufsize (w₂.setWidth 64)).toInt.toNat 0
          outf "\n" []
        else pure ()) m ↔
      (b = -1#64 ↔ b' = -1#64) ∧
        (b ≠ -1#64 → SamePlace m m.vmcb.dsSel a₄ w₄ ∧ RepeatsIp m a₄ w₄ ∧ SameSize a₂ w₂ ∧
          (a₂.setWidth 16 ≠ 0#16 → b = b')) := by
  rw [translateDs_congr_iff hq hq', translate_congr_iff hb hb']
  by_cases hnone : b = -1#64
  · rw [if_neg (not_not_intro hnone), iff_true_intro hnone, true_iff]
    by_cases hnone' : b' = -1#64
    · rw [if_neg (not_not_intro hnone')]
      exact iff_of_true rfl ⟨hnone', fun h => absurd hnone h⟩
    · rw [if_pos hnone']
      exact iff_of_false (fun h => ilp32_outPeerPort_logs (congrArg Prod.fst h).symm)
        fun h => hnone' h.1
  · rw [if_pos hnone, iff_false_intro hnone, false_iff]
    by_cases hnone' : b' = -1#64
    · rw [if_neg (not_not_intro hnone'), Probe.run_bind (congrArg Prod.snd (run_outPeerPort q))]
      exact iff_of_false (fun h => List.cons_ne_nil _ _ (congrArg Prod.fst h))
        fun h => h.1 hnone'
    · rw [if_pos hnone', outPeerPort_congr_iff, samePlace_iff hq hq', repeatsIp_iff hq,
        bufsize_eq_iff, and_iff_right hnone']
      constructor
      · rintro ⟨⟨hplace, hip, hsize⟩, hbytes⟩ -
        rw [← bufsize_eq_iff.mpr hsize] at hbytes
        have hplaces := outBytes_congr_iff.mp hbytes
        rw [ne_eq, bufsize_zero_iff] at hplaces
        exact ⟨hplace, hip, hsize, hplaces⟩
      · intro h
        obtain ⟨hplace, hip, hsize, hplaces⟩ := h hnone
        refine ⟨⟨hplace, hip, hsize⟩, ?_⟩
        rw [← bufsize_eq_iff.mpr hsize]
        refine outBytes_congr_iff.mpr ?_
        rwa [ne_eq, bufsize_zero_iff]

theorem sendtoRest_ne {fmt : String} {a₁ a₄ : BitVec 64} {size : BitVec 32} {b q : Addr}
    {e : Fault} (hb : glogic2Hphysic m.space 0#16 a₁ = .ok b)
    (hq : glogic2Hphysic m.space m.vmcb.dsSel a₄ = .ok q) :
    (do
      let peerInfoHp ← translateDs a₄
      let bufferHp ← translate 0#16 a₁
      if bufferHp ≠ -1#64 then
        outPeerPort fmt size peerInfoHp
        outBytes bufferHp size.toInt.toNat 0
        outf "\n" []
      else pure ()) m ≠ ([], .error e) := by
  intro h
  have hresult := congrArg Prod.snd h
  rw [Probe.result_bind (congrArg Prod.snd (run_translateDs hq)),
    Probe.result_bind (congrArg Prod.snd (run_translate hb))] at hresult
  split at hresult
  · rw [Probe.result_bind outPeerPort_returns, Probe.result_bind (outBytes_returns _ _ _)]
      at hresult
    cases hresult
  · cases hresult

theorem sysSendto_ilp32_iff : sysSendto m = Ilp32.sysSendto m ↔ SendtoDecoded m := by
  unfold sysSendto Ilp32.sysSendto Ilp32.argument SendtoDecoded
  refine socketArgs_congr_iff (fun hnone => ?_) fun p hp arg harg => ?_
  · exact fun q h => absurd h (hnone 1 q)
  · dsimp only
    rw [harg 1 (by simp), harg 2 (by simp), harg 4 (by simp)]
    obtain ⟨b, hb⟩ := hp.all 0#16 (m.mem.load64 (p 1))
    obtain ⟨q, hq⟩ := hp.all m.vmcb.dsSel (m.mem.load64 (p 4))
    simp only [eq_widened_bind (sendtoRest_ne hb hq), argument_iff (hp.arg _)]
    refine exists_congr fun w₁ => and_congr_right fun _ => exists_congr fun w₂ =>
      and_congr_right fun _ => exists_congr fun w₄ => and_congr_right fun _ => ?_
    obtain ⟨b', hb'⟩ := hp.all 0#16 (w₁.setWidth 64)
    obtain ⟨q', hq'⟩ := hp.all m.vmcb.dsSel (w₄.setWidth 64)
    refine (sendtoRest_congr_iff hb hb' hq hq').trans ⟨fun h c c' hc hc' => ?_, fun h => ?_⟩
    · cases hb.symm.trans hc
      cases hb'.symm.trans hc'
      exact h
    · exact h b b' hb hb'

/-! ## `sys_recvfrom` -/

theorem run_probe {x : Look α} {es : List Event} {a : α} (h : x m = (es, .ok a)) :
    (Exec.probe x : Handler α) m = (es, .ok (a, m)) := by
  unfold Exec.probe
  rw [h]
  rfl

theorem run_probe_error {x : Look α} {es : List Event} {e : Fault} (h : x m = (es, .error e)) :
    (Exec.probe x : Handler α) m = (es, .error e) := by
  unfold Exec.probe
  rw [h]
  rfl

/-- The same first look, and what follows it. -/
theorem probe_congr_iff {x : Look α} {f g : α → Handler β} {a : α} (h : x.Returns m a) :
    (Exec.probe x >>= f) m = (Exec.probe x >>= g) m ↔ f a m = g a m := by
  rw [Exec.bind_congr_iff]
  constructor
  · exact fun hall => hall a m (Exec.returns_probe.mpr ⟨h, rfl⟩)
  · intro hrest b t hreturns
    obtain ⟨hb, rfl⟩ := Exec.returns_probe.mp hreturns
    rw [← h.unique hb]
    exact hrest

theorem eq_probe_widened_bind {x : Handler β} {w : Machine → Option (BitVec 32)}
    {f : BitVec 64 → Handler β} (hx : (x m).1 ≠ []) :
    x m = (Exec.probe (Ilp32.widened w) >>= f) m ↔
      ∃ v, w m = some v ∧ x m = f (v.setWidth 64) m := by
  cases hw : w m with
  | none =>
    have hfails : Ilp32.widened w m = ([], .error .undefinedBehaviour) := by
      simp only [Ilp32.widened, Probe.ofExcept, hw]
    rw [Exec.run_bind_fails (run_probe_error hfails)]
    exact iff_of_false (fun h => hx (congrArg Prod.fst h)) fun ⟨v, hv, _⟩ => nomatch hv
  | some v =>
    have hreturns : (Ilp32.widened w) m = ([], .ok (v.setWidth 64)) := by
      simp only [Ilp32.widened, Probe.ofExcept, hw]
    rw [Exec.run_bind (run_probe hreturns)]
    simp

/-- The entry tells the information apart where it has room. -/
theorem vmAddWaitingThread_eq_iff {tid : BitVec 32} {info info' : SyscallInfo} :
    vmAddWaitingThread tid info m = vmAddWaitingThread tid info' m ↔
      (WaitingFits m.vm → info = info') := by
  constructor
  · intro h hfits
    have hadd : (vmAddWaitingThread tid info').Returns m () (m.addWaiting tid info) := by
      change (vmAddWaitingThread tid info' m).2 = _
      rw [← h]
      exact returns_vmAddWaitingThread.mpr ⟨hfits, rfl⟩
    have hvm := congrArg Machine.vm (returns_vmAddWaitingThread.mp hadd).2
    have hentry := List.append_cancel_left (congrArg VmInfo.syscallmap hvm)
    exact (Tid2syscallMap.mk.inj (List.singleton_inj.mp hentry)).2.symm
  · intro h
    unfold vmAddWaitingThread
    simp only [Exec.liftM_eq_probe, Exec.bind_congr_iff, Exec.returns_probe, Probe.returns_read,
      returns_storeSlot]
    rintro next t ⟨rfl, rfl⟩ - t ⟨-, rfl⟩ - t ⟨hfits, rfl⟩
    rw [h]
    unfold WaitingFits sizeofTid2syscallMap sizeofSyscallInfo at *
    omega

theorem outPeerPort_probe_congr_iff {fmt : String} {size size' : BitVec 32} {w : BitVec 32}
    {q q' : Addr} {f g : Unit → Handler β} :
    (Exec.probe (outPeerPort fmt size q) >>= f) m =
        (Exec.probe (Ilp32.outPeerPort fmt size' (w.setWidth 64) q') >>= g) m ↔
      (q = q' ∧ Ilp32.sinAddr m w = some (peerBytes m q) ∧ size = size') ∧
        f () m = g () m := by
  cases hip : Ilp32.sinAddr m w with
  | none =>
    rw [Exec.run_bind_log (run_probe (run_outPeerPort q)),
      Exec.run_bind_fails (run_probe_error (run_ilp32_outPeerPort_none q' hip))]
    refine iff_of_false (fun h => ?_) fun h => nomatch h.1.2.1
    have hlen := congrArg List.length (Prod.mk.inj h).1
    simp [peerLine, length_peerReads] at hlen
  | some ip =>
    have hlen := sinAddr_length hip
    rw [Exec.bind_eq_bind_iff (run_probe (run_outPeerPort q))
      (run_probe (run_ilp32_outPeerPort q' hip)) (by simp [peerLine, length_peerReads]), peerLine_eq_iff hlen,
      Option.some.injEq]

/-- Where everything can be translated a thread is found. -/
theorem getCurThreadid_returns (hall : ∀ sel off, ∃ q, glogic2Hphysic m.space sel off = .ok q)
    {mode : Nat} (h : mode ≠ 0) : ∃ tid, (getCurThreadid mode).Returns m tid := by
  have hload : ∀ {n : Nat} {load : Mem → Addr → BitVec n} {p : Addr} {off : Nat},
      ∃ a, (loadAt load p off).Returns m a := fun {_ _ _ _} => ⟨_, rfl⟩
  have hlookup : ∃ r, getCurProcessUsermodeTaskstruct.Returns m r := by
    unfold getCurProcessUsermodeTaskstruct
    refine Probe.exists_returns_bind ⟨_, rfl⟩ fun c => ?_
    refine Probe.exists_returns_bind (hall _ _) fun espHp => ?_
    split
    · exact ⟨_, rfl⟩
    · refine Probe.exists_returns_bind hload fun esp => ?_
      refine Probe.exists_returns_bind (hall _ _) fun ssHp => ?_
      split
      · exact ⟨_, rfl⟩
      · refine Probe.exists_returns_bind hload fun ss => ?_
        refine Probe.exists_returns_bind (hall _ _) fun threadInfoHp => ?_
        split
        · exact ⟨_, rfl⟩
        · exact Probe.exists_returns_bind hload fun taskStructGl => hall _ _
  unfold getCurThreadid getTaskStruct
  rw [if_neg h]
  exact Probe.exists_returns_bind hlookup fun _ => Probe.exists_returns_bind hload fun _ => ⟨_, rfl⟩

/-- `sys_recvfrom` behind its arguments. -/
theorem recvfromRest_congr_iff {fmt : String} {a₁ a₂ a₄ : BitVec 64} {w₁ w₂ w₄ : BitVec 32}
    {q q' : Addr} {tid : BitVec 32} (hq : glogic2Hphysic m.space m.vmcb.dsSel a₄ = .ok q)
    (hq' : glogic2Hphysic m.space m.vmcb.dsSel (w₄.setWidth 64) = .ok q')
    (htid : (getCurThreadid 102).Returns m tid) :
    ((Exec.probe (translateDs a₄) : Handler Addr) >>= fun peerInfoHp => do
        Exec.probe (outPeerPort fmt (bufsize a₂) peerInfoHp)
        let tid ← Exec.probe (getCurThreadid 102)
        vmAddWaitingThread tid (.recvfrom a₁ (bufsize a₂))) m =
      ((Exec.probe (translateDs (w₄.setWidth 64)) : Handler Addr) >>= fun peerInfoHp => do
        Exec.probe (Ilp32.outPeerPort fmt (bufsize (w₂.setWidth 64)) (w₄.setWidth 64) peerInfoHp)
        let tid ← Exec.probe (getCurThreadid 102)
        vmAddWaitingThread tid
          (.recvfrom (w₁.setWidth 64) (bufsize (w₂.setWidth 64)))) m ↔
      (WaitingFits m.vm → a₁ = w₁.setWidth 64) ∧ SameSize a₂ w₂ ∧
        SamePlace m m.vmcb.dsSel a₄ w₄ ∧ RepeatsIp m a₄ w₄ := by
  rw [Exec.bind_eq_bind_iff (run_probe (run_translateDs hq)) (run_probe (run_translateDs hq')) rfl,
    and_iff_right rfl, outPeerPort_probe_congr_iff, probe_congr_iff htid,
    vmAddWaitingThread_eq_iff, samePlace_iff hq hq', repeatsIp_iff hq, bufsize_eq_iff,
    SyscallInfo.recvfrom.injEq, bufsize_eq_iff]
  constructor
  · rintro ⟨⟨hplace, hip, hsize⟩, hbuffer⟩
    exact ⟨fun hfits => (hbuffer hfits).1, hsize, hplace, hip⟩
  · rintro ⟨hbuffer, hsize, hplace, hip⟩
    exact ⟨⟨hplace, hip, hsize⟩, fun hfits => ⟨hbuffer hfits, hsize⟩⟩

theorem sysRecvfrom_ilp32_iff : sysRecvfrom m = Ilp32.sysRecvfrom m ↔ RecvfromDecoded m := by
  unfold RecvfromDecoded PeerFound
  rcases reaches_or_fails m with hnone | ⟨p, hp⟩
  · refine iff_of_true ?_ ⟨fun q h => absurd h (hnone _ _ q), fun q h => absurd h (hnone _ _ q),
      fun q h => absurd h (hnone _ _ q)⟩
    unfold sysRecvfrom Ilp32.sysRecvfrom
    refine Exec.bind_congr_iff.mpr fun a t h => ?_
    obtain ⟨q, hq, -⟩ := socketArg_returns_iff.mp (Exec.returns_probe.mp h).1
    exact absurd hq (hnone _ _ q)
  · have harg : ∀ i, (socketArg (BitVec.ofNat 64 (i * 4))).Returns m (m.mem.load64 (p i)) :=
      fun i => socketArg_returns_iff.mpr ⟨p i, hp.arg i, rfl⟩
    obtain ⟨q, hq⟩ := hp.all m.vmcb.dsSel (m.mem.load64 (p 4))
    obtain ⟨tid, htid⟩ := getCurThreadid_returns hp.all (show 102 ≠ 0 by decide)
    have hlogs : ∀ {fmt : String} {size : BitVec 32} {f : Unit → Handler Unit},
        (((Exec.probe (translateDs (m.mem.load64 (p 4))) : Handler Addr) >>= fun peerInfoHp =>
          Exec.probe (outPeerPort fmt size peerInfoHp) >>= f) m).1 ≠ [] := by
      intro fmt size f
      rw [Exec.run_bind_log (run_probe (run_translateDs hq)),
        Exec.run_bind_log (run_probe (run_outPeerPort q))]
      exact List.append_ne_nil_of_right_ne_nil _ (List.cons_ne_nil _ _)
    unfold sysRecvfrom Ilp32.sysRecvfrom Ilp32.argument
    simp only [Exec.liftM_eq_probe]
    rw [probe_congr_iff (harg 1), probe_congr_iff (harg 4), probe_congr_iff (harg 2)]
    simp only [eq_probe_widened_bind hlogs, argument_iff (hp.arg _)]
    constructor
    · rintro ⟨w₁, h₁, w₄, h₄, w₂, h₂, h⟩
      obtain ⟨q', hq'⟩ := hp.all m.vmcb.dsSel (w₄.setWidth 64)
      obtain ⟨hbuffer, hsize, hpeer⟩ := (recvfromRest_congr_iff hq hq' htid).mp h
      exact ⟨⟨w₁, h₁, hbuffer⟩, ⟨w₂, h₂, hsize⟩, w₄, h₄, hpeer⟩
    · rintro ⟨⟨w₁, h₁, hbuffer⟩, ⟨w₂, h₂, hsize⟩, w₄, h₄, hpeer⟩
      obtain ⟨q', hq'⟩ := hp.all m.vmcb.dsSel (w₄.setWidth 64)
      exact ⟨w₁, h₁, w₄, h₄, w₂, h₂,
        (recvfromRest_congr_iff hq hq' htid).mpr ⟨hbuffer, hsize, hpeer⟩⟩

/-! ## The current thread -/

/-- The pointer of `thread_info`, and what follows it. -/
theorem taskStructGl_congr_iff {sel : BitVec 16} {threadInfoGl : BitVec 64} {p : Addr}
    {f : BitVec 64 → Look β} (hne : f (m.mem.load64 p) m ≠ ([], .error .undefinedBehaviour)) :
    (loadAt Mem.load64 p 0 >>= f) m = (Ilp32.taskStructGl sel threadInfoGl p >>= f) m ↔
      ∃ w, m.wordIn sel (threadInfoGl.setWidth 32) = some w ∧
        f (m.mem.load64 p) m = f (w.setWidth 64) m := by
  have hload : loadAt Mem.load64 p 0 m = ([.deref p (.bytes 0 8)], .ok (m.mem.load64 p)) := by
    change ([Event.deref p (.bytes 0 8)], Except.ok (m.mem.load64 (p + 0#64))) = _
    rw [BitVec.add_zero]
  cases hw : m.wordIn sel (threadInfoGl.setWidth 32) with
  | none =>
    have hfails : Ilp32.taskStructGl sel threadInfoGl p m =
        ([.deref p (.bytes 0 8)], .error .undefinedBehaviour) := by
      unfold Ilp32.taskStructGl Ilp32.widened
      rw [Probe.run_bind (congrArg Prod.snd hload), hload]
      simp only [Probe.ofExcept, hw, List.append_nil]
    rw [Probe.run_bind (congrArg Prod.snd hload), Probe.run_bind_fails hfails, hload]
    refine iff_of_false (fun h => hne ?_) fun ⟨_, h, _⟩ => nomatch h
    obtain ⟨hlog, hresult⟩ := Prod.mk.inj h
    exact Prod.ext (List.cons.inj hlog).2 hresult
  | some w =>
    have hreturns : Ilp32.taskStructGl sel threadInfoGl p m =
        ([.deref p (.bytes 0 8)], .ok (w.setWidth 64)) := by
      unfold Ilp32.taskStructGl Ilp32.widened
      rw [Probe.run_bind (congrArg Prod.snd hload), hload]
      simp only [Probe.ofExcept, hw, List.append_nil]
    rw [Probe.bind_eq_bind_iff hload hreturns rfl]
    simp

theorem translate_returns_iff {sel : BitVec 16} {off : BitVec 64} {p : Addr} :
    (translate sel off).Returns m p ↔ glogic2Hphysic m.space sel off = .ok p := by
  simp [translate]

theorem loadAt_returns_iff {n : Nat} {load : Mem → Addr → BitVec n} {p : Addr} {a : BitVec n} :
    (loadAt load p 0).Returns m a ↔ load m.mem p = a := by
  simp [loadAt]

theorem outfWhen_returns {c : Prop} [Decidable c] {fmt : String} {args : List OutArg} :
    (outfWhen c fmt args).Returns m () := by
  unfold outfWhen
  split
  · rfl
  · rfl

/-- What follows the pointer in kernel mode. -/
theorem kernelRest_congr_iff {fmt : String} {a : BitVec 64} {w : BitVec 32} {more : List OutArg}
    {q q' : Addr} (hq : glogic2Hphysic m.space m.vmcb.dsSel a = .ok q)
    (hq' : glogic2Hphysic m.space m.vmcb.dsSel (w.setWidth 64) = .ok q') :
    (do
        let taskStructHp ← translate m.vmcb.dsSel a
        outfWhen (taskStructHp = 0#64) fmt (.word a :: more)
        pure taskStructHp) m =
      (do
        let taskStructHp ← translate m.vmcb.dsSel (w.setWidth 64)
        outfWhen (taskStructHp = 0#64) fmt (.word (w.setWidth 64) :: more)
        pure taskStructHp) m ↔
      SamePlace m m.vmcb.dsSel a w ∧
        (glogic2Hphysic m.space m.vmcb.dsSel a = .ok 0#64 → a = w.setWidth 64) := by
  rw [translate_congr_iff hq hq', samePlace_iff hq hq', hq, Except.ok.injEq,
    Probe.run_bind outfWhen_returns, Probe.run_bind outfWhen_returns]
  constructor
  · intro h
    obtain ⟨hlog, hresult⟩ := Prod.mk.inj h
    have hplace : q = q' := Except.ok.inj hresult
    subst hplace
    refine ⟨rfl, fun h0 => ?_⟩
    have hlog := List.append_inj_left' hlog rfl
    unfold outfWhen at hlog
    rw [if_pos h0, if_pos h0] at hlog
    have hargs := (outf_eq_iff (m := m)).mp (Prod.ext hlog rfl)
    exact OutArg.word.inj (List.cons.inj hargs).1
  · rintro ⟨rfl, hword⟩
    by_cases h0 : q = 0#64
    · rw [← hword h0]
    · unfold outfWhen
      rw [if_neg h0, if_neg h0]

theorem getCurProcessTaskstruct_ilp32_iff :
    getCurProcessTaskstruct m = Ilp32.getCurProcessTaskstruct m ↔ KernelThreadDecoded m := by
  unfold getCurProcessTaskstruct Ilp32.getCurProcessTaskstruct KernelThreadDecoded
  simp only [Probe.bind_congr_iff, Probe.returns_read, translate_returns_iff, forall_eq']
  refine forall₂_congr fun p hp => ?_
  obtain ⟨q, hq⟩ := translates_all hp m.vmcb.dsSel (m.mem.load64 p)
  rw [taskStructGl_congr_iff]
  · refine exists_congr fun w => and_congr_right fun _ => ?_
    obtain ⟨q', hq'⟩ := translates_all hp m.vmcb.dsSel (w.setWidth 64)
    exact kernelRest_congr_iff hq hq'
  · intro h
    have hresult := congrArg Prod.snd h
    rw [Probe.result_bind (translate_returns_iff.mpr hq), Probe.result_bind outfWhen_returns]
      at hresult
    cases hresult

/-- Two lookups that give up in the same case. -/
theorem unless_congr_iff {c : Prop} [Decidable c] {x y z : Look β} :
    (if c then x else y) m = (if c then x else z) m ↔ (¬ c → y m = z m) := by
  split
  · next h => exact iff_of_true rfl fun hn => absurd h hn
  · next h => exact ⟨fun hyz _ => hyz, fun hyz => hyz h⟩

theorem getCurProcessUsermodeTaskstruct_ilp32_iff :
    getCurProcessUsermodeTaskstruct m = Ilp32.getCurProcessUsermodeTaskstruct m ↔
      UserThreadDecoded m := by
  unfold getCurProcessUsermodeTaskstruct Ilp32.getCurProcessUsermodeTaskstruct UserThreadDecoded
  simp only [Probe.bind_congr_iff, Probe.returns_read, translate_returns_iff, forall_eq']
  refine forall₂_congr fun espHp hesp => unless_congr_iff.trans (imp_congr_right fun _ => ?_)
  simp only [Probe.bind_congr_iff, translate_returns_iff, loadAt_returns_iff, forall_eq']
  refine forall₂_congr fun ssHp hss => unless_congr_iff.trans (imp_congr_right fun _ => ?_)
  simp only [Probe.bind_congr_iff, translate_returns_iff, loadAt_returns_iff, forall_eq']
  refine forall₂_congr fun p hp => unless_congr_iff.trans (imp_congr_right fun _ => ?_)
  obtain ⟨q, hq⟩ := translates_all hp m.vmcb.dsSel (m.mem.load64 p)
  rw [taskStructGl_congr_iff]
  · refine exists_congr fun w => and_congr_right fun _ => ?_
    obtain ⟨q', hq'⟩ := translates_all hp m.vmcb.dsSel (w.setWidth 64)
    rw [run_translate hq, run_translate hq', samePlace_iff hq hq']
    simp
  · rw [run_translate hq]
    intro h
    cases congrArg Prod.snd h

end

/-- The handlers of `socketcall` and the two lookups run as they would on words of four bytes
exactly when

* an argument that is printed or recorded lies whole where it starts, with zeros behind it;
* a pointer leads to the same place with the four bytes that follow it and without;
* the bytes 8 to 11 where the pointer to the `sockaddr_in` leads are its bytes 4 to 7;
* the lower half of a size is found where the size starts. -/
theorem runs_ilp32_iff (m : Machine) :
    (sysSocket m = Ilp32.sysSocket m ↔
      ArgumentAlone m 0 ∧ ArgumentAlone m 1 ∧ ArgumentAlone m 2) ∧
    (sysBind m = Ilp32.sysBind m ↔ ArgumentAlone m 0 ∧ PeerFound m 1 ∧ ArgumentAlone m 2) ∧
    (sysConnect m = Ilp32.sysConnect m ↔
      ArgumentAlone m 0 ∧ PeerFound m 1 ∧ ArgumentAlone m 2) ∧
    (sysListen m = Ilp32.sysListen m ↔ ArgumentAlone m 0 ∧ ArgumentAlone m 1) ∧
    (sysAccept m = Ilp32.sysAccept m ↔ ArgumentAlone m 0 ∧ PeerFound m 1) ∧
    (sysSendto m = Ilp32.sysSendto m ↔ SendtoDecoded m) ∧
    (sysRecvfrom m = Ilp32.sysRecvfrom m ↔ RecvfromDecoded m) ∧
    (getCurProcessTaskstruct m = Ilp32.getCurProcessTaskstruct m ↔ KernelThreadDecoded m) ∧
    (getCurProcessUsermodeTaskstruct m = Ilp32.getCurProcessUsermodeTaskstruct m ↔
      UserThreadDecoded m) :=
  ⟨sysSocket_ilp32_iff, outPeerLen_ilp32_iff, outPeerLen_ilp32_iff, sysListen_ilp32_iff,
    sysAccept_ilp32_iff, sysSendto_ilp32_iff, sysRecvfrom_ilp32_iff,
    getCurProcessTaskstruct_ilp32_iff, getCurProcessUsermodeTaskstruct_ilp32_iff⟩

/-- A machine without paging whose data segment starts at 0; the block of arguments is at
0x100 and a `sockaddr_in` at 0x200. -/
def flatCall (arguments sockaddr : List Byte) : Machine := { Machine.boot with
  vmcb := { Vmcb.mbrStart with cr0 := 1#64, dsSel := 0x7b#16 }
  regs := { Machine.boot.regs with rcx := 0x100#64 }
  mem := fun a => if a.toNat < 0x200 then Mem.ofBytes 0x100#64 arguments a
    else Mem.ofBytes 0x200#64 sockaddr a }

/-- `socket (2, 1, 0)`. -/
def socketCall : Machine :=
  flatCall ([2#32, 1#32, 0#32].flatMap (Mem.wordBytes 4)) []

/-- `connect (3, 0x200, 16)`, to port 80 of 10.0.0.1. -/
def connectCall : Machine :=
  flatCall ([3#32, 0x200#32, 16#32].flatMap (Mem.wordBytes 4))
    [2#8, 0#8, 0#8, 80#8, 10#8, 0#8, 0#8, 1#8]

/-- The numbers that are printed. -/
def numbersShown (log : List Event) : List Nat := log.flatMap fun
  | .out _ args => args.filterMap fun
    | .word w => some w.toNat
    | .int w => some w.toNat
    | _ => none
  | _ => []

/-- The family is printed with the type in front of it, and the peer as 0.0.0.0. -/
theorem not_runs_ilp32 :
    sysSocket socketCall ≠ Ilp32.sysSocket socketCall ∧
      sysConnect connectCall ≠ Ilp32.sysConnect connectCall := by
  constructor
  · intro h
    have hcode : numbersShown (sysSocket socketCall).1 = [0x100000002, 1, 0] := by decide +kernel
    have hguest : numbersShown (Ilp32.sysSocket socketCall).1 = [2, 1, 0] := by decide +kernel
    rw [h, hguest] at hcode
    exact absurd hcode (by simp)
  · intro h
    have hcode : numbersShown (sysConnect connectCall).1 = [0x20000000003, 0, 0, 0, 0, 16] := by
      decide +kernel
    have hguest : numbersShown (Ilp32.sysConnect connectCall).1 = [3, 10, 0, 0, 1, 16] := by
      decide +kernel
    rw [h, hguest] at hcode
    exact absurd hcode (by simp)

end Mavmm
