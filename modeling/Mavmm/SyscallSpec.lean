import Mavmm.Syscall

/-!
# What the system call handlers look at

A handler that only looks follows no pointer but the addresses that
`glogic_2_hphysic` gives in the current address space, stores into no table,
rewrites no page directory, and is told the names of the files by the table as
it stands (`Honest`).
-/

namespace Mavmm

/-- What a handler that only looks may log. -/
def Honest (m : Machine) : Event → Prop
  | .deref p _ => Translated m.space p
  | .descriptor p => ∃ sel, gdtentryRead m.space sel = some p
  | .dirWord _ => False
  | .slot .. => False
  | .fname id name => name = m.vm.fnameFromId id
  | .out .. => True

/-- The handler only looks. -/
abbrev Looks {α : Type} (x : Look α) (m : Machine) : Prop := x.Emits (Honest m) m

section
variable {m : Machine} {α β : Type}

theorem Looks.bind {x : Look α} {f : α → Look β} (hx : Looks x m)
    (hf : ∀ a, x.Returns m a → Looks (f a) m) : Looks (x >>= f) m :=
  Probe.emits_bind.mpr ⟨hx, hf⟩

theorem Looks.ite {c : Prop} [Decidable c] {x y : Look α} (hx : Looks x m) (hy : Looks y m) :
    Looks (if c then x else y) m := by
  split
  · exact hx
  · exact hy

theorem looks_pure {a : α} : Looks (pure a) m := Probe.emits_pure

theorem looks_read {f : Machine → α} : Looks (Probe.read f) m := Probe.emits_read

theorem looks_reg {r : GuestRegs → BitVec 64} : Looks (reg r) m := Probe.emits_read

theorem looks_fault {f : Fault} : Looks (fault f : Look α) m := Probe.emits_ofExcept

theorem looks_translate {sel : BitVec 16} {off : BitVec 64} : Looks (translate sel off) m := by
  refine looks_read.bind fun as has => Looks.bind (Probe.emits_log.mpr fun e he => ?_)
    fun _ _ => Probe.emits_ofExcept
  obtain ⟨p, hp, rfl⟩ := List.mem_map.mp he
  refine ⟨sel, ?_⟩
  rw [Probe.returns_read.mp has]
  exact Option.mem_toList.mp hp

theorem translated {sel : BitVec 16} {off : BitVec 64} {p : Addr}
    (h : (translate sel off).Returns m p) : Translated m.space p := ⟨sel, off, h⟩

theorem looks_translateDs {off : BitVec 64} : Looks (translateDs off) m :=
  looks_read.bind fun _ _ => looks_translate

theorem translated_ds {off : BitVec 64} {p : Addr} (h : (translateDs off).Returns m p) :
    Translated m.space p := by
  obtain ⟨sel, -, h⟩ := Probe.returns_bind.mp h
  exact translated h

theorem looks_regDs {r : GuestRegs → BitVec 64} : Looks (regDs r) m :=
  looks_reg.bind fun _ _ => looks_translateDs

theorem translated_regDs {r : GuestRegs → BitVec 64} {p : Addr} (h : (regDs r).Returns m p) :
    Translated m.space p := by
  obtain ⟨off, -, h⟩ := Probe.returns_bind.mp h
  exact translated_ds h

theorem looks_loadAt {n : Nat} {load : Mem → Addr → BitVec n} {p : Addr} {off : Nat}
    (h : Translated m.space p) : Looks (loadAt load p off) m := by
  refine Looks.bind (Probe.emits_log.mpr fun e he => ?_) fun _ _ => looks_read
  rw [List.mem_singleton.mp he]
  exact h

/-! ## Output -/

theorem looks_outf_of {fmt : String} {args : List OutArg}
    (h : ∀ e ∈ args.filterMap OutArg.deref, Honest m e) : Looks (outf fmt args) m := by
  refine Probe.emits_log.mpr fun e he => ?_
  rcases List.mem_append.mp he with he | he
  · exact h e he
  · rw [List.mem_singleton.mp he]
    trivial

/-- Output without strings of the guest. -/
theorem looks_outf {fmt : String} {args : List OutArg}
    (h : args.filterMap OutArg.deref = []) : Looks (outf fmt args) m :=
  looks_outf_of fun e he => by rw [h] at he; cases he

/-- Output with one string of the guest. -/
theorem looks_outf_str {fmt : String} {args : List OutArg} {p : Addr} {off : Nat}
    (hp : Translated m.space p) (h : args.filterMap OutArg.deref = []) :
    Looks (outf fmt (.str p off :: args)) m := by
  refine looks_outf_of fun e he => ?_
  have hstr : OutArg.deref (.str p off) = some (.deref p (.string off)) := rfl
  rw [List.filterMap_cons_some hstr, h] at he
  rw [List.mem_singleton.mp he]
  exact hp

theorem looks_outfWhen {c : Prop} [Decidable c] {fmt : String} {args : List OutArg}
    (h : args.filterMap OutArg.deref = []) : Looks (outfWhen c fmt args) m :=
  (looks_outf h).ite looks_pure

theorem looks_outfWhen_str {c : Prop} [Decidable c] {fmt : String} {p : Addr} {off : Nat}
    (hp : Translated m.space p) : Looks (outfWhen c fmt [.str p off]) m :=
  (looks_outf_str hp rfl).ite looks_pure

theorem deref_fieldArg {n : Nat} (xs : List (BitVec n)) :
    (xs.map fieldArg).filterMap OutArg.deref = [] := by
  induction xs with
  | nil => rfl
  | cons x xs ih => exact ih

theorem deref_word (xs : List (BitVec 64)) :
    (xs.map OutArg.word).filterMap OutArg.deref = [] := by
  induction xs with
  | nil => rfl
  | cons x xs ih => exact ih

theorem looks_vmGetFnameFromId {id : BitVec 32} : Looks (vmGetFnameFromId id) m := by
  refine looks_read.bind fun name hname => Looks.bind (Probe.emits_log.mpr fun e he => ?_)
    fun _ _ => looks_pure
  rw [List.mem_singleton.mp he]
  exact (Probe.returns_read.mp hname).symm

theorem looks_outFname {fdFmt nameFmt : String} {r : GuestRegs → BitVec 64} :
    Looks (outFname fdFmt nameFmt r) m := by
  refine looks_reg.bind fun fd _ => looks_vmGetFnameFromId.bind fun name _ => ?_
  cases name with
  | none => exact looks_outf rfl
  | some fname => exact looks_outf rfl

theorem looks_outString {bad : Addr} {fmt : String} {r : GuestRegs → BitVec 64} :
    Looks (outString bad fmt r) m :=
  looks_regDs.bind fun _ hp => looks_outfWhen_str (translated_regDs hp)

theorem looks_outBytes {p : Addr} (hp : Translated m.space p) (n : Nat) :
    ∀ i, Looks (outBytes p n i) m := by
  induction n with
  | zero => exact fun i => looks_pure
  | succ n ih =>
    exact fun i => (looks_loadAt hp).bind fun _ _ => (looks_outf rfl).bind fun _ _ => ih (i + 1)

/-! ## The current process -/

theorem looks_getCurProcessTaskstruct : Looks getCurProcessTaskstruct m :=
  looks_read.bind fun _ _ => looks_translate.bind fun _ hp =>
    (looks_loadAt (translated hp)).bind fun _ _ => looks_translate.bind fun _ _ =>
      (looks_outfWhen rfl).bind fun _ _ => looks_pure

theorem looks_getCurProcessUsermodeTaskstruct : Looks getCurProcessUsermodeTaskstruct m :=
  looks_read.bind fun _ _ => looks_translate.bind fun _ hesp => looks_pure.ite <|
    (looks_loadAt (translated hesp)).bind fun _ _ => looks_translate.bind fun _ hss =>
      looks_pure.ite <| (looks_loadAt (translated hss)).bind fun _ _ =>
        looks_translate.bind fun _ hinfo => looks_pure.ite <|
          (looks_loadAt (translated hinfo)).bind fun _ _ => looks_translate

theorem looks_getTaskStruct {mode : Nat} : Looks (getTaskStruct mode) m :=
  looks_getCurProcessTaskstruct.ite looks_getCurProcessUsermodeTaskstruct

/-- The address of the task is a translation, also when it is -1. -/
theorem translated_getTaskStruct {mode : Nat} {p : Addr} (h : (getTaskStruct mode).Returns m p) :
    Translated m.space p := by
  unfold getTaskStruct at h
  split at h
  · obtain ⟨c, -, h⟩ := Probe.returns_bind.mp h
    obtain ⟨info, -, h⟩ := Probe.returns_bind.mp h
    obtain ⟨gl, -, h⟩ := Probe.returns_bind.mp h
    obtain ⟨hp, htask, h⟩ := Probe.returns_bind.mp h
    obtain ⟨u, -, h⟩ := Probe.returns_bind.mp h
    rw [← Probe.returns_pure.mp h]
    exact translated htask
  · obtain ⟨c, -, h⟩ := Probe.returns_bind.mp h
    obtain ⟨espHp, hesp, h⟩ := Probe.returns_bind.mp h
    split at h
    · next hbad =>
      rw [← Probe.returns_pure.mp h, ← hbad]
      exact translated hesp
    · obtain ⟨esp, -, h⟩ := Probe.returns_bind.mp h
      obtain ⟨ssHp, hss, h⟩ := Probe.returns_bind.mp h
      split at h
      · next hbad =>
        rw [← Probe.returns_pure.mp h, ← hbad]
        exact translated hss
      · obtain ⟨ss, -, h⟩ := Probe.returns_bind.mp h
        obtain ⟨infoHp, hinfo, h⟩ := Probe.returns_bind.mp h
        split at h
        · next hbad =>
          rw [← Probe.returns_pure.mp h, ← hbad]
          exact translated hinfo
        · obtain ⟨gl, -, h⟩ := Probe.returns_bind.mp h
          exact translated h

theorem looks_getCurProcessName {mode : Nat} : Looks (getCurProcessName mode) m :=
  looks_getTaskStruct.bind fun _ hp =>
    (looks_outfWhen_str (translated_getTaskStruct hp)).bind fun _ _ => looks_pure

theorem looks_getCurThreadid {mode : Nat} : Looks (getCurThreadid mode) m :=
  looks_getTaskStruct.bind fun _ hp =>
    (looks_loadAt (translated_getTaskStruct hp)).bind fun _ _ => looks_pure

/-! ## Files -/

theorem looks_outReg {fmt : String} {arg : BitVec 64 → OutArg} {r : GuestRegs → BitVec 64}
    (h : ∀ w, (arg w).deref = none) : Looks (outReg fmt arg r) m :=
  looks_reg.bind fun w _ => looks_outf (List.filterMap_cons_none (h w))

theorem looks_outInt {fmt : String} {r : GuestRegs → BitVec 64} : Looks (outReg fmt intArg r) m :=
  looks_outReg fun _ => rfl

theorem looks_outWord {fmt : String} {r : GuestRegs → BitVec 64} : Looks (outReg fmt .word r) m :=
  looks_outReg fun _ => rfl

theorem looks_outWaiting {arg1 : BitVec 32} : Looks (outWaiting arg1) m :=
  (looks_outf rfl).ite ((looks_outf rfl).ite ((looks_outf rfl).ite (looks_outf rfl)))

theorem looks_outStatus {p : Addr} (hp : Translated m.space p) : Looks (outStatus p) m :=
  ((looks_loadAt hp).bind fun _ _ => looks_outf rfl).ite (looks_outf rfl)

theorem looks_sysWaitpid : Looks sysWaitpid m :=
  looks_reg.bind fun _ _ => looks_outWaiting.bind fun _ _ => looks_regDs.bind fun _ hp =>
    (looks_outStatus (translated_regDs hp)).bind fun _ _ => looks_outInt

theorem looks_sysLink : Looks sysLink m := looks_outString.bind fun _ _ => looks_outString

theorem looks_sysMmap : Looks sysMmap m :=
  looks_outWord.bind fun _ _ => looks_outInt.bind fun _ _ => looks_outInt.bind fun _ _ =>
    looks_outInt.bind fun _ _ => looks_outFname.bind fun _ _ => looks_outInt

theorem looks_sysMunmap : Looks sysMunmap m := looks_outWord.bind fun _ _ => looks_outInt

theorem looks_outMode {arg2 : BitVec 32} : Looks (outMode arg2) m :=
  (looks_outf rfl).ite ((looks_outf rfl).ite ((looks_outf rfl).ite (looks_outfWhen rfl)))

theorem looks_sysAccess : Looks sysAccess m :=
  looks_outString.bind fun _ _ => looks_reg.bind fun _ _ => looks_outMode

theorem looks_sysLchown : Looks sysLchown m :=
  looks_outString.bind fun _ _ => looks_outInt.bind fun _ _ => looks_outInt

theorem looks_sysLseek : Looks sysLseek m :=
  looks_outFname.bind fun _ _ => looks_outInt.bind fun _ _ => looks_outInt

theorem looks_sysReadIret {arg : BitVec 64} : Looks (sysReadIret arg) m :=
  looks_read.bind fun _ _ => (looks_outf rfl).bind fun _ _ =>
    (looks_translateDs.bind fun _ hp => ((looks_outf rfl).bind fun _ _ =>
      (looks_outBytes (translated_ds hp) _ _).bind fun _ _ => looks_outf rfl).ite looks_pure).ite
        looks_pure

theorem looks_sysWrite : Looks sysWrite m :=
  looks_outFname.bind fun _ _ => looks_outWord.bind fun _ _ => looks_outString

theorem looks_sysIoctl : Looks sysIoctl m :=
  looks_outFname.bind fun _ _ => looks_outInt.bind fun _ _ => looks_outWord

theorem looks_sysFstat : Looks sysFstat m := looks_outFname.bind fun _ _ => looks_outWord

/-! ## Network -/

theorem looks_socketArg {off : BitVec 64} : Looks (socketArg off) m :=
  looks_reg.bind fun _ _ => looks_translateDs.bind fun _ hp => looks_loadAt (translated_ds hp)

theorem looks_socketArgs (n : Nat) : ∀ i, Looks (socketArgs n i) m := by
  induction n with
  | zero => exact fun i => looks_pure
  | succ n ih =>
    exact fun i => looks_socketArg.bind fun _ _ => (ih (i + 1)).bind fun _ _ => looks_pure

theorem looks_peerIp {p : Addr} (hp : Translated m.space p) (n : Nat) :
    ∀ i, Looks (peerIp p n i) m := by
  induction n with
  | zero => exact fun i => looks_pure
  | succ n ih =>
    exact fun i => (looks_loadAt hp).bind fun _ _ => (ih (i + 1)).bind fun _ _ => looks_pure

theorem looks_sysRecvfromIret {arg : BitVec 64} {datasize : BitVec 32} :
    Looks (sysRecvfromIret arg datasize) m :=
  looks_translate.bind fun _ hp => ((looks_outBytes (translated hp) _ _).bind fun _ _ =>
    looks_outf rfl).ite looks_pure

theorem looks_outPeerPort {fmt : String} {size : BitVec 32} {p : Addr}
    (hp : Translated m.space p) : Looks (outPeerPort fmt size p) m := by
  refine (looks_peerIp hp 4 0).bind fun ip _ => (looks_loadAt hp).bind fun port _ => looks_outf ?_
  rw [List.cons_append, List.filterMap_cons_none (show OutArg.deref (.int size) = none from rfl),
    List.filterMap_append, deref_fieldArg]
  rfl

theorem looks_sysSendto : Looks sysSendto m :=
  (looks_socketArgs 6 0).bind fun _ _ => looks_translateDs.bind fun _ hpeer =>
    looks_translate.bind fun _ hbuffer =>
      ((looks_outPeerPort (translated_ds hpeer)).bind fun _ _ =>
        (looks_outBytes (translated hbuffer) _ _).bind fun _ _ => looks_outf rfl).ite looks_pure

theorem looks_sysSocket : Looks sysSocket m :=
  (looks_socketArgs 6 0).bind fun _ _ => looks_outf rfl

theorem looks_outPeer {fmt : String} {more : List (BitVec 64) → List (BitVec 64)} :
    Looks (outPeer fmt more) m := by
  refine (looks_socketArgs 6 0).bind fun arg _ => looks_translateDs.bind fun _ hpeer =>
    (looks_peerIp (translated_ds hpeer) 4 0).bind fun ip _ => looks_outf ?_
  rw [List.cons_append, List.filterMap_cons_none (show OutArg.deref (.word _) = none from rfl),
    List.filterMap_append, deref_fieldArg, deref_word]
  rfl

theorem looks_sysListen : Looks sysListen m :=
  (looks_socketArgs 6 0).bind fun _ _ => looks_outf rfl

/-! ## Programs, and the calls without a handler -/

theorem looks_outVector {p : Addr} (hp : Translated m.space p) (fuel : Nat) :
    ∀ i, Looks (outVector p fuel i) m := by
  induction fuel with
  | zero => exact fun i => looks_fault
  | succ fuel ih =>
    exact fun i => (looks_loadAt hp).bind fun _ _ =>
      (looks_translateDs.bind fun _ hs => (looks_outfWhen_str (translated_ds hs)).bind fun _ _ =>
        (looks_loadAt hp).bind fun _ _ => (looks_outfWhen rfl).bind fun _ _ => ih (i + 1)).ite
          looks_pure

theorem looks_outVectorAt {p : Addr} (hp : Translated m.space p) : Looks (outVectorAt p) m :=
  (looks_outVector hp _ _).ite looks_pure

theorem looks_sysExecve : Looks sysExecve m :=
  looks_outString.bind fun _ _ => looks_regDs.bind fun _ hargs =>
    (looks_outfWhen rfl).bind fun _ _ => (looks_outVectorAt (translated_regDs hargs)).bind
      fun _ _ => (looks_outf rfl).bind fun _ _ => looks_regDs.bind fun _ henv =>
        (looks_outVectorAt (translated_regDs henv)).bind fun _ _ => looks_outf rfl

theorem looks_outArgs (args : List (BitVec 64)) : Looks (outArgs args) m := by
  induction args with
  | nil => exact looks_pure
  | cons arg rest ih =>
    exact (looks_outf rfl).bind fun _ _ => (looks_outfWhen rfl).bind fun _ _ => ih

/-- Every system call without a record only looks. -/
theorem looks_sysLook {sysCallNo sysNargs : Nat} : Looks (sysLook sysCallNo sysNargs) m := by
  unfold sysLook
  split
  · exact looks_sysWrite
  · exact looks_outFname
  · exact looks_sysWaitpid
  · exact looks_sysLink
  · exact looks_outString
  · exact looks_sysExecve
  · exact looks_sysLchown
  · exact looks_sysLseek
  · exact looks_sysAccess
  · exact looks_sysIoctl
  · exact looks_outString
  · exact looks_sysMmap
  · exact looks_sysMunmap
  · exact looks_sysFstat
  · exact looks_read.bind fun _ _ => looks_outArgs _

end

end Mavmm
