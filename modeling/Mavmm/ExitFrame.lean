import Mavmm.Exceptions
import Mavmm.Progress
import Mavmm.VmcbCheck

/-!
# What an exit leaves alone

The monitor intercepts nothing but eight events, whatever the user asked for
(`Watches`), so the handlers for other exits, among them the one that emulates
`sysenter` by overwriting the guest's segments and stack, are out of reach.  At
the exits that do occur the guest's registers, control registers and segments
stay as they were; the monitor moves `rip` past an instruction, queues an event,
and changes otherwise only the trap flag and the write access in the words of
the guest's page directory (`exits_transparent`).
-/

namespace Mavmm

/-! ## Words that agree outside a mask -/

section
variable {n : Nat} {mask bits x y z : BitVec n} {c : Bool}

/-- The words differ in the bits of the mask at most. -/
def AgreeOutside (mask x y : BitVec n) : Prop :=
  ∀ i, mask.getLsbD i = false → x.getLsbD i = y.getLsbD i

theorem AgreeOutside.refl : AgreeOutside mask x x := fun _ _ => rfl

theorem AgreeOutside.trans (hxy : AgreeOutside mask x y) (hyz : AgreeOutside mask y z) :
    AgreeOutside mask x z := fun i hi => (hxy i hi).trans (hyz i hi)

/-- A bit that is not in the mask is in no word of bits of the mask. -/
theorem getLsbD_of_and_eq (h : bits &&& mask = bits) {i : Nat} (hi : mask.getLsbD i = false) :
    bits.getLsbD i = false := by
  rw [← h, BitVec.getLsbD_and, hi, Bool.and_false]

theorem agreeOutside_or (h : bits &&& mask = bits) : AgreeOutside mask (x ||| bits) x := by
  intro i hi
  rw [BitVec.getLsbD_or, getLsbD_of_and_eq h hi, Bool.or_false]

theorem agreeOutside_and_not (h : bits &&& mask = bits) :
    AgreeOutside mask (x &&& ~~~bits) x := by
  intro i hi
  by_cases hn : i < n
  · rw [BitVec.getLsbD_and, BitVec.getLsbD_not, getLsbD_of_and_eq h hi, decide_eq_true hn,
      Bool.not_false, Bool.and_true, Bool.and_true]
  · rw [BitVec.getLsbD_of_ge _ i (Nat.le_of_not_lt hn),
      BitVec.getLsbD_of_ge x i (Nat.le_of_not_lt hn)]

theorem agreeOutside_setWhen (h : bits &&& mask = bits) :
    AgreeOutside mask (setWhen c bits x) x := by
  unfold setWhen
  split
  · exact agreeOutside_or h
  · exact .refl

theorem agreeOutside_clearWhen (h : bits &&& mask = bits) :
    AgreeOutside mask (clearWhen c bits x) x := by
  unfold clearWhen
  split
  · exact agreeOutside_and_not h
  · exact .refl

end

/-! ## Memory -/

/-- The two memories differ in write access at most, in the words of the page directory. -/
def SameButAccess (cr3 : BitVec 64) (mem mem' : Mem) : Prop :=
  ∀ a, mem' a = mem a ∨
    ∃ index < 1024, a = directoryWord cr3 index ∧ AgreeOutside (1#8 <<< 1) (mem' a) (mem a)

section
variable {cr3 : BitVec 64} {mem mem' mem'' : Mem} {f : BitVec 32 → BitVec 32}

theorem SameButAccess.refl : SameButAccess cr3 mem mem := fun _ => Or.inl rfl

theorem SameButAccess.trans (h : SameButAccess cr3 mem mem') (h' : SameButAccess cr3 mem' mem'') :
    SameButAccess cr3 mem mem'' := by
  intro a
  rcases h a with heq | ⟨index, hindex, ha, hbits⟩
  · rw [← heq]
    exact h' a
  · right
    refine ⟨index, hindex, ha, ?_⟩
    rcases h' a with heq | ⟨-, -, -, hbits'⟩
    · rw [heq]
      exact hbits
    · exact hbits'.trans hbits

/-- A rewritten word keeps its bytes but for one bit of the first. -/
theorem sameButAccess_store32 (hf : ∀ w, AgreeOutside (1#32 <<< 1) (f w) w) {index : Nat}
    (hindex : index < 1024) :
    SameButAccess cr3 mem (mem.store32 (directoryWord cr3 index)
      (f (mem.load32 (directoryWord cr3 index)))) := by
  intro a
  have hbyte : ∀ k < 4, ∀ i < 8, (mem.load32 (directoryWord cr3 index)).getLsbD (8 * k + i) =
      (mem (directoryWord cr3 index + BitVec.ofNat 64 k)).getLsbD i := by
    intro k hk i hi
    rw [Mem.load32, Mem.getLsbD_load mem (by omega), show (8 * k + i) / 8 = k by omega,
      show (8 * k + i) % 8 = i by omega]
  have hadd : directoryWord cr3 index +
      BitVec.ofNat 64 (a - directoryWord cr3 index).toNat = a := by
    rw [BitVec.ofNat_toNat, BitVec.setWidth_eq, BitVec.add_comm, BitVec.sub_add_cancel]
  by_cases hlt : (a - directoryWord cr3 index).toNat < 4
  · -- the byte at `a` comes from the rewritten word
    have hget : ∀ i < 8, (mem.store32 (directoryWord cr3 index)
        (f (mem.load32 (directoryWord cr3 index))) a).getLsbD i =
        (f (mem.load32 (directoryWord cr3 index))).getLsbD
          (8 * (a - directoryWord cr3 index).toNat + i) := by
      intro i hi
      rw [Mem.store32, Mem.store, if_pos hlt, BitVec.getLsbD_extractLsb', decide_eq_true hi,
        Bool.true_and]
    have hkeep : ∀ i < 8, ¬ ((a - directoryWord cr3 index).toNat = 0 ∧ i = 1) →
        (mem.store32 (directoryWord cr3 index)
          (f (mem.load32 (directoryWord cr3 index))) a).getLsbD i = (mem a).getLsbD i := by
      intro i hi hne
      rw [hget i hi, hf _ _ (by
        rw [Bits.getLsbD_one_shiftLeft (by simp)]
        exact decide_eq_false (by omega)), hbyte _ hlt i hi, hadd]
    by_cases hzero : (a - directoryWord cr3 index).toNat = 0
    · right
      refine ⟨index, hindex, ?_, fun i hi => ?_⟩
      · rw [hzero] at hadd
        rw [← hadd]
        simp
      · by_cases h8 : i < 8
        · refine hkeep i h8 fun h => ?_
          rw [h.2] at hi
          cases hi
        · rw [BitVec.getLsbD_of_ge _ i (Nat.le_of_not_lt h8),
            BitVec.getLsbD_of_ge _ i (Nat.le_of_not_lt h8)]
    · left
      exact BitVec.eq_of_getLsbD_eq fun i hi => hkeep i hi fun h => hzero h.1
  · left
    rw [Mem.store32, Mem.store, if_neg hlt]

theorem sameButAccess_updateDirectory (hf : ∀ w, AgreeOutside (1#32 <<< 1) (f w) w) :
    SameButAccess cr3 mem (updateDirectory f cr3 mem) := by
  have hwords : ∀ words : List Nat, (∀ index ∈ words, index < 1024) → ∀ mem,
      SameButAccess cr3 mem (words.foldl (fun mem index => mem.store32 (directoryWord cr3 index)
        (f (mem.load32 (directoryWord cr3 index)))) mem) := by
    intro words
    induction words with
    | nil => exact fun _ mem => .refl
    | cons index words ih =>
      intro hall mem
      rw [List.foldl_cons]
      exact (sameButAccess_store32 hf (hall index List.mem_cons_self)).trans
        (ih (fun i hi => hall i (List.mem_cons_of_mem index hi)) _)
  exact hwords _ (fun index hindex => List.mem_range.mp hindex) mem

theorem sameButAccess_unprotected : SameButAccess cr3 mem (unprotected cr3 mem) :=
  sameButAccess_updateDirectory fun _ => agreeOutside_or (by decide)

theorem sameButAccess_protectedMem : SameButAccess cr3 mem (protectedMem cr3 mem) := by
  refine sameButAccess_updateDirectory fun _ => ?_
  rw [show 0xffffffff#32 - BitVec.ofNat 32 pttefRw = ~~~(1#32 <<< 1) by decide]
  exact agreeOutside_and_not (by decide)

end

/-! ## The control block -/

/-- The state of the guest in the control block, but for its flags. -/
structure GuestState where
  csSel : BitVec 16
  ssSel : BitVec 16
  dsSel : BitVec 16
  gdtrBase : BitVec 64
  trSel : BitVec 16
  cpl : BitVec 8
  efer : BitVec 64
  cr4 : BitVec 64
  cr3 : BitVec 64
  cr0 : BitVec 64
  rip : BitVec 64
  rsp : BitVec 64
  rax : BitVec 64
  sysenterCs : BitVec 64
  sysenterEsp : BitVec 64
  sysenterEip : BitVec 64
  cr2 : BitVec 64
  eventinj : BitVec 64

def Vmcb.guest (c : Vmcb) : GuestState where
  csSel := c.csSel
  ssSel := c.ssSel
  dsSel := c.dsSel
  gdtrBase := c.gdtrBase
  trSel := c.trSel
  cpl := c.cpl
  efer := c.efer
  cr4 := c.cr4
  cr3 := c.cr3
  cr0 := c.cr0
  rip := c.rip
  rsp := c.rsp
  rax := c.rax
  sysenterCs := c.sysenterCs
  sysenterEsp := c.sysenterEsp
  sysenterEip := c.sysenterEip
  cr2 := c.cr2
  eventinj := c.eventinj

/-- The bits of the intercept words that the monitor ever switches. -/
def exceptionsWatched : BitVec 32 := intrcptDb ||| intrcptPf
def general1Watched : BitVec 32 := intrcptIntn ||| intrcptIret ||| intrcptPopf

/-- The guest's state is as it was, and the rest but for the bits the monitor switches. -/
structure Vmcb.Kept (c c' : Vmcb) : Prop where
  guest : c'.guest = c.guest
  rflags : AgreeOutside x86RflagsTf c'.rflags c.rflags
  cr : AgreeOutside intrcptWriteCr3 c'.crIntercepts c.crIntercepts
  exceptions : AgreeOutside exceptionsWatched c'.exceptionIntercepts c.exceptionIntercepts
  general1 : AgreeOutside general1Watched c'.general1Intercepts c.general1Intercepts
  general2 : c'.general2Intercepts = c.general2Intercepts

/-- The registers and the memory as well. -/
structure Machine.Kept (m m' : Machine) : Prop where
  regs : m'.regs = m.regs
  memory : SameButAccess m.vmcb.cr3 m.mem m'.mem
  block : m.vmcb.Kept m'.vmcb

section
variable {c c' c'' : Vmcb} {m m' m'' : Machine} {flags : BitVec 32}

theorem Vmcb.Kept.refl : c.Kept c := ⟨rfl, .refl, .refl, .refl, .refl, rfl⟩

theorem Vmcb.Kept.trans (h : c.Kept c') (h' : c'.Kept c'') : c.Kept c'' where
  guest := h'.guest.trans h.guest
  rflags := h'.rflags.trans h.rflags
  cr := h'.cr.trans h.cr
  exceptions := h'.exceptions.trans h.exceptions
  general1 := h'.general1.trans h.general1
  general2 := h'.general2.trans h.general2

theorem Vmcb.kept_enableIntercept : c.Kept (c.enableIntercept flags) where
  guest := rfl
  rflags := agreeOutside_setWhen (by decide)
  cr := agreeOutside_setWhen (by decide)
  exceptions := (agreeOutside_setWhen (by decide)).trans (agreeOutside_setWhen (by decide))
  general1 := (agreeOutside_setWhen (by decide)).trans
    ((agreeOutside_setWhen (by decide)).trans (agreeOutside_setWhen (by decide)))
  general2 := rfl

theorem Vmcb.kept_disableIntercept : c.Kept (c.disableIntercept flags) where
  guest := rfl
  rflags := agreeOutside_clearWhen (by decide)
  cr := agreeOutside_clearWhen (by decide)
  exceptions := (agreeOutside_clearWhen (by decide)).trans (agreeOutside_clearWhen (by decide))
  general1 := (agreeOutside_clearWhen (by decide)).trans
    ((agreeOutside_clearWhen (by decide)).trans (agreeOutside_clearWhen (by decide)))
  general2 := rfl

theorem Machine.Kept.refl : m.Kept m := ⟨rfl, .refl, .refl⟩

theorem Machine.Kept.trans (h : m.Kept m') (h' : m'.Kept m'') : m.Kept m'' where
  regs := h'.regs.trans h.regs
  memory := by
    have hcr3 : m'.vmcb.cr3 = m.vmcb.cr3 := congrArg GuestState.cr3 h.block.guest
    exact h.memory.trans (hcr3 ▸ h'.memory)
  block := h.block.trans h'.block

end

/-! ## The handlers -/

section
variable {m₀ : Machine}

open Exec

instance {α : Type} {x : Look α} : Keeps m₀.Kept (liftM x : Handler α) :=
  inferInstanceAs (Keeps m₀.Kept (probe x))

instance {f : VmInfo → VmInfo} : Keeps m₀.Kept (modifyVm f) :=
  keeps_modify fun _ h => h.trans ⟨rfl, .refl, .refl⟩

theorem keeps_modifyVmcb {f : Vmcb → Vmcb} (h : ∀ c : Vmcb, c.Kept (f c)) :
    Keeps m₀.Kept (modifyVmcb f) :=
  keeps_modify fun m hm => hm.trans ⟨rfl, .refl, h m.vmcb⟩

instance {flags : BitVec 32} : Keeps m₀.Kept (vmDisableIntercept flags) where
  keeps h hx := by
    have hm' := returns_vmDisableIntercept.mp hx
    subst hm'
    refine h.trans ⟨rfl, ?_, Vmcb.kept_disableIntercept⟩
    dsimp only
    split
    · exact sameButAccess_unprotected
    · exact .refl

instance {flags : BitVec 32} : Keeps m₀.Kept (vmEnableIntercept flags) where
  keeps h hx := by
    have hm' := returns_vmEnableIntercept.mp hx
    subst hm'
    refine h.trans ⟨rfl, ?_, Vmcb.kept_enableIntercept⟩
    dsimp only
    split
    · exact sameButAccess_protectedMem
    · exact .refl

instance {flag : BitVec 32} : Keeps m₀.Kept (skipIntercptCurInstr flag) := by
  unfold skipIntercptCurInstr
  infer_instance

instance {tid : BitVec 32} {info : SyscallInfo} :
    Keeps m₀.Kept (vmAddWaitingThread tid info) := by
  unfold vmAddWaitingThread
  infer_instance

instance {sysCallNo sysNargs : Nat} : Keeps m₀.Kept (sysDispatch sysCallNo sysNargs) := by
  unfold sysDispatch sysRead sysOpen sysSocketcall sysRecvfrom
  infer_instance

instance : Keeps m₀.Kept handleSyscall := by
  unfold handleSyscall
  refine keeps_bind inferInstance fun rax => ?_
  dsimp only
  split
  · infer_instance
  · have := @keeps_modifyVmcb m₀
      (fun c => { c with
        rflags := c.rflags ||| x86RflagsTf
        general1Intercepts := c.general1Intercepts ||| intrcptIret })
      fun c => ⟨rfl, agreeOutside_or (by decide), .refl, .refl, agreeOutside_or (by decide), rfl⟩
    infer_instance

instance : Keeps m₀.Kept handleReturn where
  keeps h hx := by
    obtain ⟨fmap, syscallmap, -, rfl⟩ := handleReturn_spec hx
    exact h.trans ⟨rfl, .refl, .refl⟩

instance : Keeps m₀.Kept handleVmIret := by
  unfold handleVmIret
  infer_instance

instance : Keeps m₀.Kept handleDb := by
  unfold handleDb
  infer_instance

instance : Keeps m₀.Kept handleCr3Write := by
  unfold handleCr3Write
  have := @keeps_modifyVmcb m₀
    (fun c => { c with general1Intercepts := c.general1Intercepts ||| intrcptPopf })
    fun c => ⟨rfl, .refl, .refl, .refl, agreeOutside_or (by decide), rfl⟩
  infer_instance

instance : Keeps m₀.Kept handlePopf := by
  unfold handlePopf
  have := @keeps_modifyVmcb m₀
    (fun c => { c with general1Intercepts := c.general1Intercepts &&& ~~~intrcptPopf })
    fun c => ⟨rfl, .refl, .refl, .refl, agreeOutside_and_not (by decide), rfl⟩
  infer_instance

instance {pname : Addr} : Keeps m₀.Kept (vmAddTrackedProcess pname) where
  keeps h hx := returns_vmAddTrackedProcess.mp hx ▸ h

instance {pname : Addr} : Keeps m₀.Kept (vmRemoveTrackedProcess pname) := by
  unfold vmRemoveTrackedProcess
  have : Keeps m₀.Kept (Exec.modify fun m : Machine =>
      { m with vm := { m.vm with
          ptracked := m.vm.ptracked.eraseP fun name => strEqual m.mem name pname } } :
      Handler Unit) :=
    keeps_modify fun _ h => h.trans ⟨rfl, .refl, .refl⟩
  infer_instance

instance {flags : BitVec 32} : Keeps m₀.Kept (userEnableIntercept flags) := by
  unfold userEnableIntercept
  have := @keeps_modifyVmcb m₀
    (fun c => { c with crIntercepts := c.crIntercepts ||| intrcptWriteCr3 })
    fun c => ⟨rfl, .refl, agreeOutside_or (by decide), .refl, .refl, rfl⟩
  infer_instance

instance {flags : BitVec 32} : Keeps m₀.Kept (userDisableIntercept flags) := by
  unfold userDisableIntercept
  have := @keeps_modifyVmcb m₀
    (fun c => { c with crIntercepts := c.crIntercepts &&& ~~~intrcptWriteCr3 })
    fun c => ⟨rfl, .refl, agreeOutside_and_not (by decide), .refl, .refl, rfl⟩
  infer_instance

end

/-! ## The exits that occur -/

def vmexitNested : Nat := 1024

/-- Whether the processor stops the guest with this code.  The word for the debug registers is
never written, and nested paging is on. -/
def Vmcb.intercepts (c : Vmcb) (code : Nat) : Bool :=
  if code < 32 then c.crIntercepts.getLsbD code
  else if code < 64 then false
  else if code < 96 then c.exceptionIntercepts.getLsbD (code - 64)
  else if code < 128 then c.general1Intercepts.getLsbD (code - 96)
  else if code < 160 then c.general2Intercepts.getLsbD (code - 128)
  else code = vmexitNested

/-- The events that the monitor watches for. -/
def watchedExits : List (BitVec 64) :=
  [vmexitCr3Write, vmexitExceptionDb, vmexitExceptionPf, vmexitPopf, vmexitIret, vmexitSwint,
    vmexitVmrun, vmexitVmmcall, vmexitNpf]

/-- Nothing else is intercepted. -/
structure Watches (c : Vmcb) : Prop where
  cr : AgreeOutside intrcptWriteCr3 c.crIntercepts 0#32
  exceptions : AgreeOutside exceptionsWatched c.exceptionIntercepts 0#32
  general1 : AgreeOutside general1Watched c.general1Intercepts 0#32
  general2 : c.general2Intercepts = intrcptVmrun ||| intrcptVmmcall

section
variable {c c' : Vmcb} {m m' : Machine} {u : Unit}

theorem Watches.kept (h : Watches c) (hkept : c.Kept c') : Watches c' where
  cr := hkept.cr.trans h.cr
  exceptions := hkept.exceptions.trans h.exceptions
  general1 := hkept.general1.trans h.general1
  general2 := hkept.general2.trans h.general2

theorem AgreeOutside.mem_mask {n : Nat} {mask x : BitVec n} (h : AgreeOutside mask x 0#n) {i : Nat}
    (hi : x.getLsbD i = true) : mask.getLsbD i = true := by
  cases hmask : mask.getLsbD i with
  | true => rfl
  | false => rw [h i hmask, BitVec.getLsbD_zero] at hi; cases hi

theorem Watches.mem_watchedExits (h : Watches c) {code : BitVec 64}
    (hon : c.intercepts code.toNat = true) : code ∈ watchedExits := by
  have hcode : ∀ n : Nat, code.toNat = n → code = BitVec.ofNat 64 n := by
    rintro n rfl
    rw [BitVec.ofNat_toNat, BitVec.setWidth_eq]
  have hbit : ∀ {k i : Nat}, k < 32 → (1#32 <<< k).getLsbD i = true → i = k := by
    intro k i hk hi
    rw [Bits.getLsbD_one_shiftLeft hk] at hi
    exact of_decide_eq_true hi
  have hone : ∀ n, code.toNat = n → BitVec.ofNat 64 n ∈ watchedExits → code ∈ watchedExits :=
    fun n hn hmem => hcode n hn ▸ hmem
  unfold Vmcb.intercepts at hon
  split at hon
  · exact hone 19 (hbit (by simp) (h.cr.mem_mask hon)) (by decide)
  split at hon
  · cases hon
  split at hon
  · have hmask := h.exceptions.mem_mask hon
    rw [exceptionsWatched, BitVec.getLsbD_or, Bool.or_eq_true] at hmask
    rcases hmask with hdb | hpf
    · have := hbit (by simp) hdb
      exact hone 65 (by omega) (by decide)
    · have := hbit (by simp) hpf
      exact hone 78 (by omega) (by decide)
  split at hon
  · have hmask := h.general1.mem_mask hon
    rw [general1Watched, BitVec.getLsbD_or, BitVec.getLsbD_or, Bool.or_eq_true,
      Bool.or_eq_true] at hmask
    rcases hmask with (hintn | hiret) | hpopf
    · have := hbit (by simp) hintn
      exact hone 117 (by omega) (by decide)
    · have := hbit (by simp) hiret
      exact hone 116 (by omega) (by decide)
    · have := hbit (by simp) hpopf
      exact hone 113 (by omega) (by decide)
  split at hon
  · rw [h.general2, BitVec.getLsbD_or, Bool.or_eq_true] at hon
    rcases hon with hvmrun | hvmmcall
    · have := hbit (by simp) hvmrun
      exact hone 128 (by omega) (by decide)
    · have := hbit (by simp) hvmmcall
      exact hone 129 (by omega) (by decide)
  · exact hone 1024 (of_decide_eq_true hon) (by decide)

instance {m : Machine} : Decidable (UnpackFault m) := inferInstanceAs (Decidable (_ ∧ _ ∧ _))

/-- The machine as the guest is to find it: past the instruction that the monitor carried out,
with the event that it is owed. -/
def Machine.resumed (m : Machine) (vector : BitVec 8) : Machine :=
  { m with vmcb :=
      let c := m.vmcb
      if c.exitcode = vmexitSwint then
        { c with eventinj := injectEvent vector eventTypeSwint 0#1 c.eventinj, rip := c.rip + 2#64 }
      else if c.exitcode = vmexitVmmcall then { c with rip := c.rip + 3#64 }
      else if c.exitcode = vmexitExceptionPf ∧ ¬ UnpackFault m then
        { c with cr2 := c.exitinfo2, eventinj := c.exceptionEvent }
      else c }

theorem handleVmexit_exception (hexit : m.vmcb.exitcode = vmexitExceptionDb ∨
    m.vmcb.exitcode = vmexitExceptionPf) (h : handleVmexit.Returns m u m') :
    handleVmException.Returns m u m' := by
  simp only [handleVmexit, Exec.returns_bind, Exec.liftM_eq_probe, Exec.returns_probe,
    Probe.returns_read] at h
  obtain ⟨_, _, ⟨rfl, rfl⟩, -, _, ⟨-, rfl⟩, -, _, ⟨-, rfl⟩, h⟩ := h
  rcases hexit with hexit | hexit
  · rw [hexit, if_neg (by decide), if_pos (by decide)] at h
    exact h
  · rw [hexit, if_neg (by decide), if_pos (by decide)] at h
    exact h

theorem handleVmexit_npf (hexit : m.vmcb.exitcode = vmexitNpf) :
    ¬ handleVmexit.Returns m u m' := by
  intro h
  simp only [handleVmexit, Exec.returns_bind, Exec.liftM_eq_probe, Exec.returns_probe,
    Probe.returns_read] at h
  obtain ⟨_, _, ⟨rfl, rfl⟩, -, _, ⟨-, rfl⟩, -, _, ⟨-, rfl⟩, h⟩ := h
  rw [hexit, if_neg (by decide), if_neg (by decide), if_neg (by decide), if_pos rfl] at h
  simp only [handleVmNpf, Exec.returns_bind, Exec.liftM_eq_probe, Exec.returns_probe] at h
  obtain ⟨errcode, t, -, v, t', -, hfault, -⟩ := h
  cases hfault

/-! ### What each of them leaves -/

theorem resumed_other {vector : BitVec 8} (hswint : m.vmcb.exitcode ≠ vmexitSwint)
    (hvmmcall : m.vmcb.exitcode ≠ vmexitVmmcall)
    (hpf : ¬ (m.vmcb.exitcode = vmexitExceptionPf ∧ ¬ UnpackFault m)) : m.resumed vector = m := by
  unfold Machine.resumed
  dsimp only
  rw [if_neg hswint, if_neg hvmmcall, if_neg hpf]

theorem kept_of_keeps {x : Handler Unit} [hx : Exec.Keeps m.Kept x] (h : x.Returns m u m') :
    m.Kept m' := hx.keeps .refl h

theorem handleVmSwint_kept (hexit : m.vmcb.exitcode = vmexitSwint)
    (h : handleVmSwint.Returns m u m') :
    ∃ vector, intVector.Returns m vector ∧ (m.resumed vector).Kept m' := by
  simp only [handleVmSwint, Exec.returns_bind, Exec.returns_probe, returns_modifyVmcb] at h
  obtain ⟨vector, _, ⟨hvector, rfl⟩, v, t, h, rfl⟩ := h
  refine ⟨vector, hvector, ?_⟩
  have hkept : m.Kept t := kept_of_keeps h
  unfold Machine.resumed
  dsimp only
  rw [if_pos hexit]
  exact ⟨hkept.regs, hkept.memory,
    { hkept.block with
      guest := congrArg (fun g : GuestState =>
        { g with
          eventinj := injectEvent vector eventTypeSwint 0#1 g.eventinj
          rip := g.rip + 2#64 }) hkept.block.guest }⟩

theorem handleVmVmmcall_kept {vector : BitVec 8} (hexit : m.vmcb.exitcode = vmexitVmmcall)
    (h : handleVmVmmcall.Returns m u m') : (m.resumed vector).Kept m' := by
  have hswint : m.vmcb.exitcode ≠ vmexitSwint := by
    rw [hexit]
    decide
  unfold Machine.resumed
  dsimp only
  rw [if_neg hswint, if_pos hexit]
  unfold handleVmVmmcall modifyVmcb at h
  rw [Exec.returns_modify_bind] at h
  exact kept_of_keeps h

theorem handleVmException_kept {vector : BitVec 8} (hexit : m.vmcb.exitcode = vmexitExceptionPf)
    (h : handleVmException.Returns m u m') : (m.resumed vector).Kept m' := by
  by_cases hfault : UnpackFault m
  · rw [resumed_other (by rw [hexit]; decide) (by rw [hexit]; decide) fun h => h.2 hfault]
    have hbits : has m.vmcb.exitinfo1 1#64 ∧ has m.vmcb.exitinfo1 2#64 ∧
        has m.vm.itcFlag userUnpack := hfault
    rw [handleVmException, Exec.returns_read_bind] at h
    simp only [id] at h
    rw [hexit, if_neg (by decide), if_neg (by decide), if_neg (by decide), if_pos rfl,
      if_pos hbits] at h
    exact kept_of_keeps h
  · rw [returns_handleVmException_injected (by rw [hexit]; decide) (by rw [hexit]; decide)
      (fun h => hfault h.2)] at h
    subst h
    unfold Machine.resumed
    dsimp only
    rw [if_neg (by rw [hexit]; decide), if_neg (by rw [hexit]; decide), if_pos ⟨hexit, hfault⟩,
      if_pos hexit]
    exact .refl

/-- A watched exit leaves the guest as it is to find it. -/
theorem handleVmexit_kept (hwatched : m.vmcb.exitcode ∈ watchedExits)
    (h : handleVmexit.Returns m u m') :
    ∃ vector, (m.vmcb.exitcode = vmexitSwint → intVector.Returns m vector) ∧
      (m.resumed vector).Kept m' := by
  have hdispatch := handleVmexit_dispatch h
  have hself : ∀ code, m.vmcb.exitcode = code → code ≠ vmexitSwint → code ≠ vmexitVmmcall →
      code ≠ vmexitExceptionPf → m.Kept m' →
      ∃ vector, (m.vmcb.exitcode = vmexitSwint → intVector.Returns m vector) ∧
        (m.resumed vector).Kept m' := by
    rintro code rfl hswint hvmmcall hpf hkept
    refine ⟨0#8, fun h => absurd h hswint, ?_⟩
    rw [resumed_other hswint hvmmcall fun h => hpf h.1]
    exact hkept
  simp only [watchedExits, List.mem_cons, List.not_mem_nil, or_false] at hwatched
  rcases hwatched with hexit | hexit | hexit | hexit | hexit | hexit | hexit | hexit | hexit
  · exact hself _ hexit (by decide) (by decide) (by decide)
      (kept_of_keeps (hdispatch.cr3Write hexit))
  · have hdb := handleVmexit_exception (Or.inl hexit) h
    rw [handleVmException, Exec.returns_read_bind] at hdb
    simp only [id] at hdb
    rw [hexit, if_neg (by decide), if_neg (by decide), if_pos rfl] at hdb
    exact hself _ hexit (by decide) (by decide) (by decide) (kept_of_keeps hdb)
  · have hpf := handleVmexit_exception (Or.inr hexit) h
    refine ⟨0#8, fun h => ?_, handleVmException_kept hexit hpf⟩
    rw [hexit] at h
    cases h
  · exact hself _ hexit (by decide) (by decide) (by decide) (kept_of_keeps (hdispatch.popf hexit))
  · exact hself _ hexit (by decide) (by decide) (by decide) (kept_of_keeps (hdispatch.iret hexit))
  · obtain ⟨vector, hvector, hkept⟩ := handleVmSwint_kept hexit (hdispatch.swint hexit)
    exact ⟨vector, fun _ => hvector, hkept⟩
  · exact hself _ hexit (by decide) (by decide) (by decide) (hdispatch.vmrun hexit ▸ .refl)
  · refine ⟨0#8, fun h => ?_, handleVmVmmcall_kept hexit (hdispatch.vmmcall hexit)⟩
    rw [hexit] at h
    cases h
  · exact absurd h (handleVmexit_npf hexit)

/-! ## Runs -/

/-- An exit that the processor raises, and its handling. -/
def RaisedStep (m : Machine) (e : GuestExit) (m' : Machine) : Prop :=
  m.vmcb.intercepts e.vmcb.exitcode.toNat = true ∧ ExitStep m e m'

theorem watches_mbrStart : Watches Vmcb.mbrStart := ⟨.refl, .refl, .refl, rfl⟩

theorem watches_deliver {e : GuestExit} (h : Watches m.vmcb) : Watches (m.deliver e).vmcb :=
  ⟨h.cr, h.exceptions, h.general1, h.general2⟩

/-- Putting the guest past an instruction leaves the intercepts. -/
theorem watches_resumed {vector : BitVec 8} (h : Watches m.vmcb) :
    Watches (m.resumed vector).vmcb := by
  unfold Machine.resumed
  dsimp only
  split
  · exact ⟨h.cr, h.exceptions, h.general1, h.general2⟩
  split
  · exact ⟨h.cr, h.exceptions, h.general1, h.general2⟩
  split
  · exact ⟨h.cr, h.exceptions, h.general1, h.general2⟩
  · exact h

theorem watches_step {e : GuestExit} (h : Watches m.vmcb) (hstep : RaisedStep m e m') :
    Watches m'.vmcb := by
  obtain ⟨vector, -, hkept⟩ := handleVmexit_kept (h.mem_watchedExits hstep.1) hstep.2.returns
  exact (watches_resumed (watches_deliver h)).kept hkept.block

theorem watches_run {m₀ : Machine} {es : List GuestExit} (hboot : Booted m₀)
    (hrun : Run RaisedStep m₀ es m) : Watches m.vmcb := by
  refine hrun.invariant ?_ watches_step
  obtain ⟨blank, t, -, rfl⟩ := hboot
  exact watches_mbrStart

/-- The control block with the registers that only the check reads. -/
def Vmcb.checked (c : Vmcb) (csAttrs : BitVec 16) (dr7 dr6 : BitVec 64) : VmcbChecked :=
  { c with csAttrs, dr7, dr6 }

/-- The checks read the state of the guest and the intercept of `vmrun`. -/
theorem consistency_congr (hguest : c'.efer = c.efer ∧ c'.cr0 = c.cr0 ∧ c'.cr4 = c.cr4)
    (hvmrun : c'.general2Intercepts &&& intrcptVmrun = c.general2Intercepts &&& intrcptVmrun)
    {csAttrs : BitVec 16} {dr7 dr6 : BitVec 64} :
    vmcbCheckConsistency.Returns (c'.checked csAttrs dr7 dr6) () ↔
      vmcbCheckConsistency.Returns (c.checked csAttrs dr7 dr6) () := by
  obtain ⟨hefer, hcr0, hcr4⟩ := hguest
  have hword : (c'.checked csAttrs dr7 dr6).checkVmrunIntercept =
      (c.checked csAttrs dr7 dr6).checkVmrunIntercept :=
    congrArg (fun w => truth (decide (w = 0#32))) hvmrun
  unfold vmcbCheckConsistency
  rw [returns_runChecks, returns_runChecks]
  simp only [consistencyChecks, List.forall_mem_cons, hword, List.not_mem_nil, false_implies,
    implies_true]
  cases c
  cases c'
  dsimp only at hefer hcr0 hcr4
  subst hefer hcr0 hcr4
  exact Iff.rfl

theorem resumed_checked (m : Machine) (vector : BitVec 8) :
    (m.resumed vector).vmcb.efer = m.vmcb.efer ∧ (m.resumed vector).vmcb.cr0 = m.vmcb.cr0 ∧
      (m.resumed vector).vmcb.cr4 = m.vmcb.cr4 := by
  unfold Machine.resumed
  dsimp only
  split
  · exact ⟨rfl, rfl, rfl⟩
  split
  · exact ⟨rfl, rfl, rfl⟩
  split
  · exact ⟨rfl, rfl, rfl⟩
  · exact ⟨rfl, rfl, rfl⟩

/-- VMRUN is refused after an exit of a run only for a state that the guest had itself: the check
of the block that is handed back is the check of the state that was saved, with the intercept of
`vmrun` in place. -/
theorem exit_consistent_iff {m₀ : Machine} {es : List GuestExit} {e : GuestExit}
    {csAttrs : BitVec 16} {dr7 dr6 : BitVec 64} (hboot : Booted m₀) (hrun : Run RaisedStep m₀ es m)
    (hstep : RaisedStep m e m') :
    vmcbCheckConsistency.Returns (m'.vmcb.checked csAttrs dr7 dr6) () ↔
      vmcbCheckConsistency.Returns
        ({ e.vmcb with general2Intercepts := intrcptVmrun }.checked csAttrs dr7 dr6) () := by
  have hwatches := watches_run hboot hrun
  obtain ⟨vector, -, hkept⟩ :=
    handleVmexit_kept (m := m.deliver e) (hwatches.mem_watchedExits hstep.1) hstep.2.returns
  obtain ⟨hefer, hcr0, hcr4⟩ := resumed_checked (m.deliver e) vector
  have hguest := hkept.block.guest
  refine consistency_congr ⟨?_, ?_, ?_⟩ ?_
  · exact (congrArg GuestState.efer hguest).trans hefer
  · exact (congrArg GuestState.cr0 hguest).trans hcr0
  · exact (congrArg GuestState.cr4 hguest).trans hcr4
  · have hvmrun : (intrcptVmrun ||| intrcptVmmcall) &&& intrcptVmrun =
        intrcptVmrun &&& intrcptVmrun := by decide
    rw [(watches_step hwatches hstep).general2]
    exact hvmrun

theorem exit_consistent_iff_vmmcall :
    let e := userCommand userCmdEnable 1#64
    vmcbCheckConsistency.Returns ((Machine.boot.next e).vmcb.checked 0#16 0x400#64 0xffff0ff0#64)
      () := by
  intro e
  have hstep : RaisedStep Machine.boot e (Machine.boot.next e) :=
    ⟨by decide, exitStep_next (by decide +kernel)⟩
  exact (exit_consistent_iff booted_boot .nil hstep).mpr (by decide +kernel)

end

end Mavmm
