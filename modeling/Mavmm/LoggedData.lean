import Mavmm.GuestBuffer
import Mavmm.GuestReach
import Mavmm.Intercept
import Mavmm.PrintfSpec
import Mavmm.SyscallSpec

/-!
# The data in the log

`sys_write` prints the guest's buffer as a string, the handlers of the other
transfers print it byte by byte.  All of them translate the address of its
first byte and go on from there.

What they show is the buffer exactly when they count its bytes right and the
frames of its further pages show what lies behind the first byte
(`logs_buffer_iff`).
-/

namespace Mavmm

/-! ## Strings -/

theorem strlen_some {mem : Mem} :
    ∀ {fuel : Nat} {p : Addr} {len : Nat}, strlen mem p fuel = some len →
      ∀ i < len, mem (p + BitVec.ofNat 64 i) ≠ 0#8 := by
  intro fuel
  induction fuel with
  | zero => exact fun h => nomatch h
  | succ fuel ih =>
    intro p len h i hi
    unfold strlen at h
    split at h
    · cases h
      exact absurd hi (Nat.not_lt_zero i)
    · next hne =>
      obtain ⟨rest, hrest, rfl⟩ := Option.map_eq_some_iff.mp h
      cases i with
      | zero => simpa using hne
      | succ i =>
        have hnext := ih hrest i (by omega)
        rwa [BitVec.add_assoc, ← BitVec.ofNat_add 1 i, Nat.add_comm 1 i] at hnext

/-- The string at an address, if it ends. -/
def cstringAt (mem : Mem) (p : Addr) : Option CString :=
  match h : strlen mem p (2 ^ 64) with
  | none => none
  | some len => some {
      chars := (List.range len).map fun i => mem (p + BitVec.ofNat 64 i)
      nonzero := fun c hc => by
        obtain ⟨i, hi, rfl⟩ := List.mem_map.mp hc
        exact strlen_some h i (List.mem_range.mp hi) }

/-! ## What is shown -/

def contentFormat : CString where
  chars := "content written [%s]".toList.map fun c => BitVec.ofNat 8 c.toNat
  nonzero := by decide

/-- The length of the text before the string. -/
def contentStart : Nat := 17

/-- The characters of the string among those that `outf` sends for it. -/
def contentSent (mem : Mem) (p : Addr) : Option (List Byte) := do
  let s ← cstringAt mem p
  match Serial.outf (fun _ => 0#8) contentFormat [.str s] with
  | .ok (_, sent) => some ((sent.drop contentStart).take s.chars.length)
  | .error _ => none

/-- The data in an output: a byte printed as a number, or the characters of what was written. -/
def Event.data (m : Machine) : Event → Option (List Byte)
  | .out fmt [.int b] => some (if fmt = "%x " then [b.setWidth 8] else [])
  | .out fmt [.str p off] =>
    if fmt = "content written [%s]" then contentSent m.mem (p + BitVec.ofNat 64 off) else some []
  | _ => some []

def dataOf (m : Machine) : List Event → Option (List Byte)
  | [] => some []
  | e :: log => do
    let bs ← e.data m
    return bs ++ (← dataOf m log)

/-- The data a handler shows. -/
def Look.data {α : Type} (x : Look α) (m : Machine) : Option (List Byte) := dataOf m (x m).1

/-- What the handler shows are the `k` bytes of the guest at a pointer. -/
def LogsBuffer (m : Machine) (x : Look Unit) (pointer : BitVec 32) (k : Nat) : Prop :=
  ∃ bs, Look.data x m = some bs ∧ m.buffer pointer k = some bs

/-! ## When it is the buffer -/

/-- What a translation finds. -/
def found (m : Machine) (x : Look Addr) : Option Addr :=
  match (x m).2 with
  | .ok p => if p = -1#64 then none else some p
  | .error _ => none

/-- The buffer has `k` bytes; it is where the translation leads and `k` bytes are counted there,
or nothing is found and nothing is there to show. -/
def Copied (m : Machine) (x : Look Addr) (count : Addr → Nat → Prop) (pointer : BitVec 32)
    (k : Nat) : Prop :=
  match found m x with
  | none => k = 0
  | some p => count p k ∧ BufferAt m pointer p k

/-- The string at `p` shows `k` characters: one output has room for 1007. -/
def Characters (mem : Mem) (p : Addr) (k : Nat) : Prop :=
  ∃ len, strlen mem p (2 ^ 64) = some len ∧ contentStart + len + 1 ≤ intMax ∧
    k = min len (bufSize - contentStart)

section
variable {m : Machine} {α : Type}

/-- The text before the string. -/
def contentText : List Byte := contentFormat.chars.take contentStart

theorem length_contentText : contentText.length = contentStart := by decide

theorem pieces_literals (text : List Byte) (h : ∀ c ∈ text, c ≠ 37#8) (rest : List Byte)
    (args : List FmtArg) :
    pieces (text ++ rest) args =
      (pieces rest args).map (text.map (fun c => .chars [c]) ++ ·) := by
  induction text with
  | nil => simp
  | cons c text ih =>
    rw [List.cons_append, pieces.eq_def]
    simp only [if_pos (h c List.mem_cons_self), ih (fun d hd => h d (List.mem_cons_of_mem _ hd)),
      Option.map_map, List.map_cons]
    rfl

theorem pieces_content (s : CString) :
    pieces contentFormat.chars [.str s] =
      some (contentText.map (fun c => .chars [c]) ++ [.chars s.chars, .chars [93#8]]) := by
  have hchars : contentFormat.chars = contentText ++ [37#8, 115#8, 93#8] := by decide
  rw [hchars, pieces_literals contentText (by decide)]
  rfl

theorem render_content (s : List Byte) :
    render (contentText.map (fun c => .chars [c]) ++ [.chars s, .chars [93#8]]) =
      contentText ++ s ++ [93#8] := by
  simp [render, Piece.text, List.flatMap_append, List.flatMap_map]

theorem numbersFit_chars {size : Nat} (ps : List Piece) (h : ∀ p ∈ ps, ∃ bs, p = .chars bs) :
    ∀ j, NumbersFit size j ps := by
  induction ps with
  | nil => exact fun _ => trivial
  | cons p ps ih =>
    intro j
    obtain ⟨bs, rfl⟩ := h p List.mem_cons_self
    exact ih (fun q hq => h q (List.mem_cons_of_mem _ hq)) _

/-- `outf` on the content sends the text, the string and a bracket, cut off at its buffer. -/
theorem outf_content_iff {old : Nat → Byte} {s : CString} {sent : List Byte} :
    (∃ out, Serial.outf old contentFormat [.str s] = .ok (out, sent)) ↔
      contentStart + s.chars.length + 1 ≤ intMax ∧
        sent = (contentText ++ s.chars ++ [93#8]).take bufSize := by
  have hsent := @outf_sent_iff contentFormat [.str s] _ old (pieces_content s)
    (numbersFit_chars _ ?_ 0) ?_ sent
  · rw [render_content] at hsent
    rw [hsent]
    rw [List.length_append, List.length_append, length_contentText]
    constructor
    · exact fun h => h.2
    · exact fun h => ⟨by decide, h⟩
  · intro p hp
    simp only [List.mem_append, List.mem_map, List.mem_cons, List.not_mem_nil, or_false] at hp
    rcases hp with ⟨c, -, rfl⟩ | rfl | rfl
    · exact ⟨_, rfl⟩
    · exact ⟨_, rfl⟩
    · exact ⟨_, rfl⟩
  · intro c hc
    rw [render_content] at hc
    simp only [List.mem_append, List.mem_singleton] at hc
    rcases hc with (hc | hc) | rfl
    · exact contentFormat.nonzero c (List.mem_of_mem_take hc)
    · exact s.nonzero c hc
    · decide

theorem cstringAt_eq_some {p : Addr} {s : CString} :
    cstringAt m.mem p = some s ↔
      ∃ len, strlen m.mem p (2 ^ 64) = some len ∧
        s.chars = (List.range len).map fun i => m.mem (p + BitVec.ofNat 64 i) := by
  unfold cstringAt
  split
  · next h =>
    constructor
    · exact nofun
    · rintro ⟨len, hlen, -⟩
      cases h.symm.trans hlen
  · next len h =>
    simp only [h]
    constructor
    · intro hs
      cases hs
      exact ⟨len, rfl, rfl⟩
    · rintro ⟨_, hlen, hs⟩
      cases hlen
      cases s
      cases hs
      rfl

/-- The characters of the string are shown as far as there is room for them. -/
theorem contentSent_eq_some_iff {p : Addr} {bs : List Byte} :
    contentSent m.mem p = some bs ↔
      ∃ k, Characters m.mem p k ∧
        bs = (List.range k).map fun i => m.mem (p + BitVec.ofNat 64 i) := by
  have hcut : ∀ s : List Byte,
      (((contentText ++ s ++ [93#8]).take bufSize).drop contentStart).take s.length =
        s.take (bufSize - contentStart) := by
    intro s
    rw [List.drop_take, List.append_assoc, ← length_contentText, List.drop_left, List.take_take,
      List.take_append_of_le_length (Nat.min_le_left _ _), List.take_eq_take_iff]
    omega
  unfold contentSent Characters
  simp only [Option.bind_eq_bind, Option.bind_eq_some_iff, cstringAt_eq_some]
  constructor
  · rintro ⟨s, ⟨len, hlen, hs⟩, hbs⟩
    split at hbs
    · next out sent hout =>
      obtain ⟨hfit, hsent⟩ := outf_content_iff.mp ⟨out, hout⟩
      cases hbs
      refine ⟨min len (bufSize - contentStart), ⟨len, hlen, ?_, rfl⟩, ?_⟩
      · rwa [hs, List.length_map, List.length_range] at hfit
      · rw [hsent, hcut, hs, ← List.map_take, List.take_range, Nat.min_comm]
    · cases hbs
  · rintro ⟨_, ⟨len, hlen, hfit, rfl⟩, rfl⟩
    obtain ⟨s, hs⟩ : ∃ s : CString,
        s.chars = (List.range len).map fun i => m.mem (p + BitVec.ofNat 64 i) := by
      refine ⟨⟨_, fun c hc => ?_⟩, rfl⟩
      obtain ⟨i, hi, rfl⟩ := List.mem_map.mp hc
      exact strlen_some hlen i (List.mem_range.mp hi)
    obtain ⟨out, hout⟩ := (@outf_content_iff (fun _ => 0#8) s _).mpr
      ⟨by rwa [hs, List.length_map, List.length_range], rfl⟩
    refine ⟨s, ⟨len, hlen, hs⟩, ?_⟩
    rw [hout]
    dsimp only
    rw [hcut, hs, ← List.map_take, List.take_range, Nat.min_comm]

/-! ## The output of a handler -/

theorem dataOf_append (l₁ l₂ : List Event) {bs : List Byte} (h : dataOf m l₁ = some bs) :
    dataOf m (l₁ ++ l₂) = (dataOf m l₂).map (bs ++ ·) := by
  induction l₁ generalizing bs with
  | nil =>
    cases h
    simp
  | cons e l ih =>
    unfold dataOf at h
    simp only [Option.bind_eq_bind, Option.bind_eq_some_iff] at h
    obtain ⟨b, hb, rest, hrest, h⟩ := h
    cases h
    rw [List.cons_append, dataOf, ih hrest, hb]
    cases dataOf m l₂ with
    | none => rfl
    | some bs₂ => simp

/-- Output without data. -/
abbrev Quiet (m : Machine) (x : Look α) : Prop := x.Emits (fun e => e.data m = some []) m

theorem dataOf_quiet {l : List Event} (h : ∀ e ∈ l, e.data m = some []) :
    dataOf m l = some [] := by
  induction l with
  | nil => rfl
  | cons e l ih =>
    rw [dataOf, h e List.mem_cons_self, ih fun d hd => h d (List.mem_cons_of_mem _ hd)]
    rfl

theorem Quiet.data {x : Look α} (h : Quiet m x) : Look.data x m = some [] := dataOf_quiet h.all

theorem data_bind {x : Look α} {f : α → Look Unit} {a : α} {bs : List Byte}
    (hx : Look.data x m = some bs) (ha : x.Returns m a) :
    Look.data (x >>= f) m = (Look.data (f a) m).map (bs ++ ·) := by
  unfold Look.data
  rw [Probe.log_bind ha, dataOf_append _ _ hx]

theorem data_then {x : Look α} {f : α → Look Unit} {a : α} (hx : Quiet m x)
    (ha : x.Returns m a) : Look.data (x >>= f) m = Look.data (f a) m := by
  rw [data_bind hx.data ha]
  simp

theorem data_fails {x : Look α} {f : α → Look Unit} (hx : Quiet m x)
    (h : ∀ a, ¬ x.Returns m a) : Look.data (x >>= f) m = some [] := by
  unfold Look.data
  rw [Probe.log_bind_fails h]
  exact hx.data

/-- What is shown only where a translation finds something. -/
theorem data_found {x : Look Addr} {f : Addr → Look Unit} (hx : Quiet m x) :
    Look.data (x >>= fun p => if p ≠ -1#64 then f p else pure ()) m =
      match found m x with
      | none => some []
      | some p => Look.data (f p) m := by
  unfold found
  cases h : (x m).2 with
  | error e => exact data_fails hx fun a ha => nomatch h.symm.trans ha
  | ok p =>
    rw [data_then hx h]
    by_cases hp : p = -1#64
    · simp only [if_pos hp, if_neg (not_not_intro hp)]
      rfl
    · simp only [if_neg hp, if_pos hp]

theorem quiet_outf {fmt : String} {args : List OutArg} (hargs : args.filterMap OutArg.deref = [])
    (h : (Event.out fmt args).data m = some []) : Quiet m (outf fmt args) := by
  refine Probe.emits_log.mpr fun e he => ?_
  rw [hargs, List.nil_append, List.mem_singleton] at he
  rw [he]
  exact h

theorem quiet_loadAt {n : Nat} {load : Mem → Addr → BitVec n} {p : Addr} {off : Nat} :
    Quiet m (loadAt load p off) := by
  refine Probe.emits_bind.mpr ⟨Probe.emits_log.mpr fun e he => ?_, fun _ _ => Probe.emits_read⟩
  rw [List.mem_singleton.mp he]
  rfl

theorem quiet_translate {sel : BitVec 16} {off : BitVec 64} : Quiet m (translate sel off) := by
  refine Probe.emits_bind.mpr ⟨Probe.emits_read, fun as _ => Probe.emits_bind.mpr
    ⟨Probe.emits_log.mpr fun e he => ?_, fun _ _ => Probe.emits_ofExcept⟩⟩
  obtain ⟨p, -, rfl⟩ := List.mem_map.mp he
  rfl

theorem quiet_translateDs {off : BitVec 64} : Quiet m (translateDs off) :=
  Probe.emits_bind.mpr ⟨Probe.emits_read, fun _ _ => quiet_translate⟩

theorem quiet_regDs {r : GuestRegs → BitVec 64} : Quiet m (regDs r) :=
  Probe.emits_bind.mpr ⟨Probe.emits_read, fun _ _ => quiet_translateDs⟩

theorem data_outBytes (p : Addr) (n : Nat) :
    ∀ i, Look.data (outBytes p n i) m =
      some ((List.range n).map fun j => m.mem (p + BitVec.ofNat 64 (i + j))) := by
  induction n with
  | zero => exact fun _ => rfl
  | succ n ih =>
    intro i
    have hload : (loadAt Mem.load8 p i).Returns m (m.mem (p + BitVec.ofNat 64 i)) := rfl
    have hbyte : Look.data (outf "%x " [.int ((m.mem (p + BitVec.ofNat 64 i)).setWidth 32)]) m =
        some [m.mem (p + BitVec.ofNat 64 i)] := by
      change dataOf m [.out "%x " [.int ((m.mem (p + BitVec.ofNat 64 i)).setWidth 32)]] = _
      simp [dataOf, Event.data]
    unfold outBytes
    rw [data_then quiet_loadAt hload, data_bind hbyte rfl, ih (i + 1), List.range_succ_eq_map]
    simp [Function.comp_def, Nat.add_assoc, Nat.add_comm 1]

theorem quiet_outFname {fdFmt nameFmt : String} {r : GuestRegs → BitVec 64} :
    Quiet m (outFname fdFmt nameFmt r) := by
  have hname : ∀ id, Quiet m (vmGetFnameFromId id) := by
    intro id
    simp [vmGetFnameFromId, Event.data]
  refine Probe.emits_bind.mpr ⟨Probe.emits_read, fun fd _ => Probe.emits_bind.mpr
    ⟨hname _, fun fname _ => ?_⟩⟩
  cases fname with
  | none => exact quiet_outf rfl rfl
  | some fname => exact quiet_outf rfl rfl

theorem outFname_returns {fdFmt nameFmt : String} {r : GuestRegs → BitVec 64} :
    (outFname fdFmt nameFmt r).Returns m () := by
  refine Probe.returns_bind.mpr ⟨m.regs |> r, rfl, Probe.returns_bind.mpr
    ⟨m.vm.fnameFromId ((r m.regs).setWidth 32), rfl, ?_⟩⟩
  cases m.vm.fnameFromId ((r m.regs).setWidth 32) with
  | none => rfl
  | some fname => rfl

theorem data_sysWrite :
    Look.data sysWrite m =
      match found m (regDs GuestRegs.rcx) with
      | none => some []
      | some p => contentSent m.mem p := by
  have hcontent : ∀ p : Addr, Look.data (outf "content written [%s]" [.str p 0]) m =
      contentSent m.mem p := by
    intro p
    change dataOf m [.deref p (.string 0), .out "content written [%s]" [.str p 0]] = _
    simp only [dataOf, Event.data, if_true, BitVec.add_zero]
    cases contentSent m.mem p with
    | none => rfl
    | some bs => simp
  have hsize : Quiet m (outReg "size: %x, " OutArg.word GuestRegs.rdx) :=
    Probe.emits_bind.mpr ⟨Probe.emits_read, fun _ _ => quiet_outf rfl rfl⟩
  unfold sysWrite
  rw [data_then quiet_outFname outFname_returns, data_then hsize rfl]
  refine (data_found quiet_regDs).trans ?_
  simp only [hcontent]

theorem outBytes_returns (p : Addr) (n : Nat) : ∀ i, (outBytes p n i).Returns m () := by
  induction n with
  | zero => exact fun _ => rfl
  | succ n ih =>
    intro i
    exact Probe.returns_bind.mpr ⟨m.mem (p + BitVec.ofNat 64 i), rfl,
      Probe.returns_bind.mpr ⟨(), rfl, ih (i + 1)⟩⟩

/-- Bytes and the end of the line. -/
theorem data_outLine (p : Addr) (n : Nat) :
    Look.data (do
      outBytes p n 0
      outf "\n" []) m =
      some ((List.range n).map fun i => m.mem (p + BitVec.ofNat 64 i)) := by
  have hline : Quiet m (outf "\n" []) := quiet_outf rfl rfl
  rw [data_bind (data_outBytes p n 0) (outBytes_returns p n 0), hline.data]
  simp

theorem data_sysReadIret (arg : BitVec 64) :
    Look.data (sysReadIret arg) m =
      match found m (translateDs arg) with
      | none => some []
      | some p => some ((List.range (min 10 m.vmcb.rax.toNat)).map fun i =>
          m.mem (p + BitVec.ofNat 64 i)) := by
  have hrax : (Probe.read fun m : Machine => m.vmcb.rax : Look (BitVec 64)).Returns m m.vmcb.rax :=
    rfl
  have hout : Quiet m (outf "sys_read return value: %x\n" [.word m.vmcb.rax]) := quiet_outf rfl rfl
  have hfirst : Quiet m (outf "first 10 bytes: " []) := quiet_outf rfl rfl
  unfold sysReadIret
  rw [data_then Probe.emits_read hrax, data_then hout rfl]
  by_cases h : m.vmcb.rax = 0#64
  · rw [if_neg (not_not_intro h), h]
    cases found m (translateDs arg) with
    | none => rfl
    | some p => rfl
  · rw [if_pos h]
    refine (data_found quiet_translateDs).trans ?_
    simp only [data_then hfirst rfl, data_outLine]

theorem data_sysRecvfromIret (arg : BitVec 64) (datasize : BitVec 32) :
    Look.data (sysRecvfromIret arg datasize) m =
      match found m (translate 0#16 arg) with
      | none => some []
      | some p => some ((List.range datasize.toInt.toNat).map fun i =>
          m.mem (p + BitVec.ofNat 64 i)) := by
  unfold sysRecvfromIret
  refine (data_found quiet_translate).trans ?_
  simp only [data_outLine]

theorem quiet_socketArg {off : BitVec 64} : Quiet m (socketArg off) :=
  Probe.emits_bind.mpr ⟨Probe.emits_read, fun _ _ =>
    Probe.emits_bind.mpr ⟨quiet_translateDs, fun _ _ => quiet_loadAt⟩⟩

theorem quiet_socketArgs (n : Nat) : ∀ i, Quiet m (socketArgs n i) := by
  induction n with
  | zero => exact fun _ => Probe.emits_pure
  | succ n ih =>
    exact fun i => Probe.emits_bind.mpr ⟨quiet_socketArg, fun _ _ =>
      Probe.emits_bind.mpr ⟨ih (i + 1), fun _ _ => Probe.emits_pure⟩⟩

theorem quiet_peerIp {p : Addr} (n : Nat) : ∀ i, Quiet m (peerIp p n i) := by
  induction n with
  | zero => exact fun _ => Probe.emits_pure
  | succ n ih =>
    exact fun i => Probe.emits_bind.mpr ⟨quiet_loadAt, fun _ _ =>
      Probe.emits_bind.mpr ⟨ih (i + 1), fun _ _ => Probe.emits_pure⟩⟩

theorem peerIp_returns {p : Addr} (n : Nat) : ∀ i, ∃ ip, (peerIp p n i).Returns m ip := by
  induction n with
  | zero => exact fun _ => ⟨[], rfl⟩
  | succ n ih =>
    intro i
    obtain ⟨ip, hip⟩ := ih (i + 1)
    exact ⟨m.mem (p + BitVec.ofNat 64 (8 + i)) :: ip, Probe.returns_bind.mpr
      ⟨_, rfl, Probe.returns_bind.mpr ⟨ip, hip, rfl⟩⟩⟩

theorem quiet_outPeerPort {fmt : String} {size : BitVec 32} {p : Addr} :
    Quiet m (outPeerPort fmt size p) := by
  refine Probe.emits_bind.mpr ⟨quiet_peerIp 4 0, fun ip _ =>
    Probe.emits_bind.mpr ⟨quiet_loadAt, fun port _ => quiet_outf ?_ ?_⟩⟩
  · rw [List.cons_append, List.filterMap_cons_none (show OutArg.deref (.int size) = none from rfl),
      List.filterMap_append, deref_fieldArg]
    rfl
  · cases ip with
    | nil => rfl
    | cons b ip => rfl

theorem outPeerPort_returns {fmt : String} {size : BitVec 32} {p : Addr} :
    (outPeerPort fmt size p).Returns m () := by
  obtain ⟨ip, hip⟩ := @peerIp_returns m p 4 0
  exact Probe.returns_bind.mpr ⟨ip, hip, Probe.returns_bind.mpr ⟨_, rfl, rfl⟩⟩

/-- The words of the block when they can be read. -/
theorem socketArgs_returns (h : ∀ off, ∃ a, (socketArg off).Returns m a) (n : Nat) :
    ∀ i, ∃ args, (socketArgs n i).Returns m args ∧
      ∀ k < n, (socketArg (BitVec.ofNat 64 ((i + k) * 4))).Returns m (args.getD k 0#64) := by
  induction n with
  | zero => exact fun _ => ⟨[], rfl, fun k hk => absurd hk (Nat.not_lt_zero k)⟩
  | succ n ih =>
    intro i
    obtain ⟨a, ha⟩ := h (BitVec.ofNat 64 (i * 4))
    obtain ⟨args, hargs, hall⟩ := ih (i + 1)
    refine ⟨a :: args, Probe.returns_bind.mpr
      ⟨a, ha, Probe.returns_bind.mpr ⟨args, hargs, rfl⟩⟩, fun k hk => ?_⟩
    cases k with
    | zero => exact ha
    | succ k =>
      have hnext := hall k (by omega)
      rw [show i + 1 + k = i + (k + 1) by omega] at hnext
      exact hnext

/-- The buffer that `sys_sendto` prints from. -/
def sendtoBuffer : Look Addr := do translate 0#16 (← socketArg 4#64)

theorem found_bind {x : Look α} {f : α → Look Addr} {a : α} (h : x.Returns m a) :
    found m (x >>= f) = found m (f a) := by
  unfold found
  rw [Probe.result_bind h]

theorem found_fails {x : Look Addr} (h : ∀ p, ¬ x.Returns m p) : found m x = none := by
  unfold found
  cases hx : (x m).2 with
  | error e => rfl
  | ok p => exact absurd hx (h p)

theorem toNat_bufsize (w : BitVec 64) : (bufsize w).toInt.toNat = w.toNat % 2 ^ 16 := by
  have hlow : (w &&& 0xffff#64).toNat = w.toNat % 2 ^ 16 :=
    Bits.toNat_and_lowMask w 16 (by simp)
  have hsize : (bufsize w).toNat = w.toNat % 2 ^ 16 := by
    unfold bufsize
    rw [BitVec.toNat_setWidth, hlow]
    omega
  rw [BitVec.toInt_eq_toNat_cond, hsize, if_pos (by omega)]
  rfl

theorem data_sysSendto :
    (Look.data sysSendto m = some [] ∧ found m sendtoBuffer = none) ∨
    ∃ p w, found m sendtoBuffer = some p ∧ (socketArg 8#64).Returns m w ∧
      Look.data sysSendto m = some ((List.range (w.toNat % 2 ^ 16)).map fun i =>
        m.mem (p + BitVec.ofNat 64 i)) := by
  rcases @glogic2Hphysic_total m.space with ⟨f, hnone⟩ | hall
  · have hfails : ∀ off a, ¬ (socketArg off).Returns m a := by
      intro off a h
      obtain ⟨rcx, -, h⟩ := Probe.returns_bind.mp h
      obtain ⟨p, h, -⟩ := Probe.returns_bind.mp h
      obtain ⟨sel, -, h⟩ := Probe.returns_bind.mp h
      exact nomatch (hnone sel _).symm.trans h
    refine Or.inl ⟨data_fails (quiet_socketArgs 6 0) fun args h => ?_, found_fails fun p h => ?_⟩
    · obtain ⟨a, h, -⟩ := Probe.returns_bind.mp h
      exact hfails _ a h
    · obtain ⟨a, h, -⟩ := Probe.returns_bind.mp h
      exact hfails _ a h
  · have hds : ∀ off, ∃ p, (translateDs off).Returns m p := by
      intro off
      obtain ⟨p, hp⟩ := hall m.vmcb.dsSel off
      exact ⟨p, Probe.returns_bind.mpr ⟨m.vmcb.dsSel, rfl, hp⟩⟩
    have harg : ∀ off, ∃ a, (socketArg off).Returns m a := by
      intro off
      obtain ⟨p, hp⟩ := hds (m.regs.rcx + off)
      exact ⟨m.mem.load64 (p + 0#64), Probe.returns_bind.mpr
        ⟨m.regs.rcx, rfl, Probe.returns_bind.mpr ⟨p, hp, rfl⟩⟩⟩
    obtain ⟨args, hargs, hwords⟩ := socketArgs_returns harg 6 0
    obtain ⟨peer, hpeer⟩ := hds (args.getD 4 0#64)
    have hbuffer : found m sendtoBuffer = found m (translate 0#16 (args.getD 1 0#64)) :=
      found_bind (hwords 1 (by omega))
    have hdata : Look.data sysSendto m =
        match found m sendtoBuffer with
        | none => some []
        | some p => some ((List.range ((args.getD 2 0#64).toNat % 2 ^ 16)).map fun i =>
            m.mem (p + BitVec.ofNat 64 i)) := by
      unfold sysSendto
      rw [data_then (quiet_socketArgs 6 0) hargs]
      dsimp only
      rw [data_then quiet_translateDs hpeer, hbuffer]
      refine (data_found quiet_translate).trans ?_
      simp only [data_then quiet_outPeerPort outPeerPort_returns, data_outLine, toNat_bufsize]
    cases hfound : found m sendtoBuffer with
    | none =>
      rw [hfound] at hdata
      exact Or.inl ⟨hdata, rfl⟩
    | some p =>
      rw [hfound] at hdata
      exact Or.inr ⟨p, _, rfl, hwords 2 (by omega), hdata⟩

/-! ## The transfers -/

/-- The result of a read, an `int` that is negative when it failed. -/
def Machine.bytesRead (m : Machine) : Nat := (m.vmcb.rax.setWidth 32).toInt.toNat

/-- The pointer and the size of a `sendto`, the second and third word of its block. -/
def SendtoBlock (m : Machine) (pointer size : BitVec 32) : Prop :=
  m.guestWord (m.regs.rcx.setWidth 32 + 4#32) = some pointer ∧
    m.guestWord (m.regs.rcx.setWidth 32 + 8#32) = some size

/-- The size that `sys_sendto` counts. -/
def SendtoSize (m : Machine) (_p : Addr) (k : Nat) : Prop :=
  ∃ w, (socketArg 8#64).Returns m w ∧ k = w.toNat % 2 ^ 16

theorem logsBuffer_iff {x : Look Unit} {y : Look Addr} {count : Addr → Nat → Prop}
    {pointer : BitVec 32} {k : Nat} (hnone : found m y = none → Look.data x m = some [])
    (hsome : ∀ p bs, found m y = some p →
      (Look.data x m = some bs ↔
        ∃ k, count p k ∧ bs = (List.range k).map fun i => m.mem (p + BitVec.ofNat 64 i))) :
    LogsBuffer m x pointer k ↔ Copied m y count pointer k := by
  unfold LogsBuffer Copied
  cases hfound : found m y with
  | none =>
    rw [hnone hfound]
    constructor
    · rintro ⟨bs, hbs, hbuffer⟩
      cases hbs
      exact (buffer_eq_some_iff (n := 0) (p := 0#64)).mp hbuffer |>.1
    · rintro rfl
      exact ⟨[], rfl, rfl⟩
  | some p =>
    simp only [hsome p _ hfound]
    constructor
    · rintro ⟨bs, ⟨n, hn, rfl⟩, hbuffer⟩
      obtain ⟨rfl, hat⟩ := buffer_eq_some_iff.mp hbuffer
      exact ⟨hn, hat⟩
    · rintro ⟨hk, hat⟩
      exact ⟨_, ⟨k, hk, rfl⟩, buffer_eq_some_iff.mpr ⟨rfl, hat⟩⟩

theorem logsBuffer_count_iff {x : Look Unit} {y : Look Addr} {n : Nat} {pointer : BitVec 32}
    {k : Nat} (h : Look.data x m =
      match found m y with
      | none => some []
      | some p => some ((List.range n).map fun i => m.mem (p + BitVec.ofNat 64 i))) :
    LogsBuffer m x pointer k ↔ Copied m y (fun _ k => k = n) pointer k := by
  refine logsBuffer_iff (fun hnone => by rw [h, hnone]) fun p bs hsome => ?_
  rw [h, hsome]
  constructor
  · intro hbs
    cases hbs
    exact ⟨n, rfl, rfl⟩
  · rintro ⟨_, rfl, rfl⟩
    rfl

theorem sysSendto_iff {pointer size : BitVec 32} :
    LogsBuffer m sysSendto pointer size.toNat ↔
      Copied m sendtoBuffer (SendtoSize m) pointer size.toNat := by
  rcases @data_sysSendto m with ⟨hdata, hnone⟩ | ⟨p, w, hfound, hw, hdata⟩
  · exact logsBuffer_iff (fun _ => hdata) fun p bs hsome => nomatch hnone.symm.trans hsome
  · refine logsBuffer_iff (fun hnone => nomatch hnone.symm.trans hfound) fun q bs hsome => ?_
    cases hfound.symm.trans hsome
    rw [hdata]
    constructor
    · intro hbs
      cases hbs
      exact ⟨_, ⟨w, hw, rfl⟩, rfl⟩
    · rintro ⟨_, ⟨w', hw', rfl⟩, rfl⟩
      cases hw.unique hw'
      rfl

theorem sysWrite_iff {pointer : BitVec 32} {k : Nat} :
    LogsBuffer m sysWrite pointer k ↔
      Copied m (regDs GuestRegs.rcx) (Characters m.mem) pointer k := by
  refine logsBuffer_iff (fun hnone => by rw [data_sysWrite, hnone]) fun p bs hsome => ?_
  rw [data_sysWrite, hsome]
  exact contentSent_eq_some_iff

end

/-- The four transfers show exactly the bytes of the guest's buffer when the translation of its
first byte leads to them all, and

* `sys_write`: the string there ends right behind them (or they fill the room of one output);
* `sys_sendto`: the size, read in one piece, is below 2^16;
* `sys_read_iret`: the result, compared without its sign, gives the same number of bytes;
* `sys_recvfrom_iret`: as many are transferred as the recorded size says;

or where nothing is found, when there is nothing to show. -/
theorem logs_buffer_iff (m : Machine) :
    (LogsBuffer m sysWrite (m.regs.rcx.setWidth 32) (m.regs.rdx.setWidth 32).toNat ↔
      Copied m (regDs GuestRegs.rcx) (Characters m.mem) (m.regs.rcx.setWidth 32)
        (m.regs.rdx.setWidth 32).toNat) ∧
    ((∃ pointer size, SendtoBlock m pointer size ∧ LogsBuffer m sysSendto pointer size.toNat) ↔
      ∃ pointer size, SendtoBlock m pointer size ∧
        Copied m sendtoBuffer (SendtoSize m) pointer size.toNat) ∧
    (∀ arg, LogsBuffer m (sysReadIret arg) (arg.setWidth 32) (min 10 m.bytesRead) ↔
      Copied m (translateDs arg) (fun _ k => k = min 10 m.vmcb.rax.toNat) (arg.setWidth 32)
        (min 10 m.bytesRead)) ∧
    ∀ arg datasize k, LogsBuffer m (sysRecvfromIret arg datasize) (arg.setWidth 32) k ↔
      Copied m (translate 0#16 arg) (fun _ k => k = datasize.toInt.toNat) (arg.setWidth 32) k := by
  refine ⟨sysWrite_iff, ?_, fun arg => logsBuffer_count_iff (data_sysReadIret arg),
    fun arg datasize k => logsBuffer_count_iff (data_sysRecvfromIret arg datasize)⟩
  exact exists₂_congr fun pointer size => and_congr_right fun _ => sysSendto_iff

/-- A read that fails with -1 shows ten bytes of its buffer, and a write of two characters shows
the third one behind them. -/
theorem logs_not_buffer :
    (∃ m : Machine, m.bytesRead = 0 ∧
      ¬ LogsBuffer m (sysReadIret 0#64) 0#32 (min 10 m.bytesRead)) ∧
    ∃ m : Machine, (m.regs.rdx.setWidth 32).toNat = 2 ∧
      ¬ LogsBuffer m sysWrite (m.regs.rcx.setWidth 32) 2 := by
  constructor
  · refine ⟨{ Machine.boot with vmcb := { Vmcb.mbrStart with rax := 0xffffffff#64 } },
      by decide +kernel, ?_⟩
    rintro ⟨bs, hdata, hbuffer⟩
    have hten : bs = List.replicate 10 0#8 := by
      refine Option.some.inj (hdata.symm.trans ?_)
      decide +kernel
    have hnone : bs = [] := by
      refine Option.some.inj (hbuffer.symm.trans ?_)
      decide +kernel
    cases hten.symm.trans hnone
  · refine ⟨{ Machine.boot with
        regs := { Machine.boot.regs with rdx := 2#64 }
        mem := fun a => literal "abc" (a - 0x400#64).toNat }, by decide +kernel, ?_⟩
    rintro ⟨bs, hdata, hbuffer⟩
    have hthree : bs = [97#8, 98#8, 99#8] := by
      refine Option.some.inj (hdata.symm.trans ?_)
      decide +kernel
    have htwo : bs = [97#8, 98#8] := by
      refine Option.some.inj (hbuffer.symm.trans ?_)
      decide +kernel
    cases hthree.symm.trans htwo

end Mavmm
