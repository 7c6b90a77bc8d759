import Mavmm.Independence

/-!
# Skipping an intercept and resuming it

An intercept that is skipped for one instruction comes back at the debug
exception after it.  On the way the monitor uses the guest's trap flag and its
own intercept of debug exceptions, and for unpacking it rewrites the guest's
page directory; what these were before is not kept, so they come back only if
they had the values that the debug exception leaves (`skip_resumed_iff`).
-/

namespace Mavmm

/-! ## The page directory -/

section
variable {f : BitVec 32 → BitVec 32} {cr3 : BitVec 64} {mem : Mem}

theorem directoryWord_apart {i j : Nat} (hi : i < 1024) (hj : j < 1024) (hne : i ≠ j) :
    Mem.Apart (directoryWord cr3 j) 4 (directoryWord cr3 i) 4 := by
  intro k hk
  have hdist : directoryWord cr3 i + BitVec.ofNat 64 k - directoryWord cr3 j =
      BitVec.ofNat 64 (i * 4 + k) - BitVec.ofNat 64 (j * 4) := by
    unfold directoryWord
    rw [BitVec.ofNat_add]
    bv_omega
  rw [hdist, BitVec.toNat_sub, BitVec.toNat_ofNat, BitVec.toNat_ofNat]
  omega

/-- The loop rewrites the words below `n`, each once. -/
theorem load_foldl_directory {i n : Nat} (hi : i < 1024) (hn : n ≤ 1024) :
    ((List.range n).foldl (fun mem index =>
        mem.store32 (directoryWord cr3 index) (f (mem.load32 (directoryWord cr3 index)))) mem).load32
      (directoryWord cr3 i) =
      if i < n then f (mem.load32 (directoryWord cr3 i)) else mem.load32 (directoryWord cr3 i) := by
  induction n with
  | zero => rfl
  | succ n ih =>
    have ih := ih (by omega)
    rw [List.range_succ, List.foldl_append, List.foldl_cons, List.foldl_nil]
    by_cases heq : i = n
    · subst heq
      rw [if_neg (Nat.lt_irrefl i)] at ih
      rw [Mem.load32_store32, ih, if_pos (Nat.lt_succ_self i)]
    · have hlt : i < n + 1 ↔ i < n := by omega
      rw [Mem.load32_store32_apart _ (directoryWord_apart hi (by omega) heq), ih]
      simp only [hlt]

theorem load_updateDirectory {i : Nat} (hi : i < 1024) :
    (updateDirectory f cr3 mem).load32 (directoryWord cr3 i) =
      f (mem.load32 (directoryWord cr3 i)) := by
  unfold updateDirectory
  rw [load_foldl_directory hi (Nat.le_refl _), if_pos hi]

end

/-- Write access is off in every word of the page directory. -/
def WriteProtected (cr3 : BitVec 64) (mem : Mem) : Prop :=
  ∀ index < 1024, has (mem.load32 (directoryWord cr3 index)) (1#32 <<< 1) = false

/-! ## Words that a bit leaves and comes back to -/

section
variable {n k : Nat} {x y : BitVec n} {b : Bool}

theorem clear_eq_iff (hk : k < n) : x &&& ~~~(1#n <<< k) = x ↔ has x (1#n <<< k) = false := by
  constructor
  · intro h
    rw [← h, has_and_not hk, has_bit_bit hk hk, decide_eq_true rfl, Bool.not_true, Bool.and_false]
  · intro h
    rw [has_bit hk] at h
    apply BitVec.eq_of_getLsbD_eq
    intro i hi
    rw [BitVec.getLsbD_and, BitVec.getLsbD_not, Bits.getLsbD_one_shiftLeft hk, decide_eq_true hi,
      Bool.true_and]
    by_cases hik : i = k
    · rw [hik, h, Bool.false_and]
    · rw [decide_eq_false hik, Bool.not_false, Bool.and_true]

theorem or_clear : (x ||| y) &&& ~~~y = x &&& ~~~y := by
  apply BitVec.eq_of_getLsbD_eq
  intro i hi
  simp only [BitVec.getLsbD_and, BitVec.getLsbD_or, BitVec.getLsbD_not, decide_eq_true hi,
    Bool.true_and]
  cases x.getLsbD i <;> cases y.getLsbD i <;> rfl

theorem clear_or (hk : k < n) (h : has x (1#n <<< k) = true) :
    x &&& ~~~(1#n <<< k) ||| 1#n <<< k = x := by
  rw [has_bit hk] at h
  apply BitVec.eq_of_getLsbD_eq
  intro i hi
  rw [BitVec.getLsbD_or, BitVec.getLsbD_and, BitVec.getLsbD_not, Bits.getLsbD_one_shiftLeft hk,
    decide_eq_true hi, Bool.true_and]
  by_cases hik : i = k
  · rw [hik, decide_eq_true rfl, h, Bool.or_true]
  · rw [decide_eq_false hik, Bool.not_false, Bool.and_true, Bool.or_false]

theorem setWhen_clearWhen (hk : k < n) (h : b = true → has x (1#n <<< k) = true) :
    setWhen b (1#n <<< k) (clearWhen b (1#n <<< k) x) = x := by
  cases b with
  | false => rfl
  | true => exact clear_or hk (h rfl)

end

/-! ## What skipping and resuming leave -/

/-- The current process is tracked and single stepping was requested. -/
def KeepsStepping (vm : VmInfo) : Prop := vm.btrackcurrent ∧ has vm.itcFlag userSingleStepping

instance (vm : VmInfo) : Decidable (KeepsStepping vm) := inferInstanceAs (Decidable (_ ∧ _))

/-- The words that control the guest, and its page directory, are as they were; only single
stepping may have been left on. -/
structure Resumed (m m' : Machine) : Prop where
  crIntercepts : m'.vmcb.crIntercepts = m.vmcb.crIntercepts
  general1Intercepts : m'.vmcb.general1Intercepts = m.vmcb.general1Intercepts
  general2Intercepts : m'.vmcb.general2Intercepts = m.vmcb.general2Intercepts
  exceptionIntercepts : m'.vmcb.exceptionIntercepts = m.vmcb.exceptionIntercepts ∨
    KeepsStepping m.vm ∧ m'.vmcb.exceptionIntercepts = m.vmcb.exceptionIntercepts ||| intrcptDb
  rflags : m'.vmcb.rflags = m.vmcb.rflags ∨
    KeepsStepping m.vm ∧ m'.vmcb.rflags = m.vmcb.rflags ||| x86RflagsTf
  directory : ∀ index < 1024, m'.mem.load32 (directoryWord m.vmcb.cr3 index) =
    m.mem.load32 (directoryWord m.vmcb.cr3 index)
  itcSkipFlag : m'.vm.itcSkipFlag = 0#32

/-- The control block between the skip and the debug exception. -/
def Vmcb.skipped (flag : BitVec 32) (c : Vmcb) : Vmcb :=
  (c.disableIntercept flag).enableIntercept userSingleStepping

/-- The debug exception after the instruction at which something was skipped: the guest has
not changed its flags, nor the page directory that the monitor rewrites. -/
structure DebugExit (m : Machine) (e : GuestExit) : Prop where
  exitcode : e.vmcb.exitcode = vmexitExceptionDb
  rflags : e.vmcb.rflags = m.vmcb.rflags
  cr3 : has m.vm.itcSkipFlag userUnpack = true → e.vmcb.cr3 = m.vmcb.cr3
  directory : ∀ index < 1024, e.mem.load32 (directoryWord m.vmcb.cr3 index) =
    m.mem.load32 (directoryWord m.vmcb.cr3 index)

/-- What skipping uses has the value that the debug exception leaves. -/
def Resumable (f : UserFeature) (m : Machine) : Prop :=
  (KeepsStepping m.vm ∨ m.vmcb.control.on .db = false ∧ m.vmcb.control.on .tf = false) ∧
    (f = .unpack → WriteProtected m.vmcb.cr3 m.mem)

section
variable {m m' : Machine} {u : Unit} {flag : BitVec 32} {f : UserFeature} {c c' : Vmcb}
  {vm : VmInfo}

theorem returns_skipIntercptCurInstr : (skipIntercptCurInstr flag).Returns m u m' ↔
    { m with
      vm := { m.vm with itcSkipFlag := m.vm.itcSkipFlag ||| flag }
      vmcb := m.vmcb.skipped flag
      mem := if has flag userUnpack then unprotected m.vmcb.cr3 m.mem else m.mem } = m' := by
  have hunpack : has userSingleStepping userUnpack = false := by decide
  simp only [skipIntercptCurInstr, Exec.returns_bind, returns_vmDisableIntercept,
    returns_modifyVm, returns_vmEnableIntercept, hunpack, Bool.false_eq_true, if_false]
  constructor
  · rintro ⟨-, t, ht, -, t', ht', h⟩
    rw [← h, ← ht', ← ht]
    rfl
  · exact fun h => ⟨(), _, rfl, (), _, rfl, h⟩

/-- A debug exception while something is skipped. -/
theorem returns_handleVmException_db (hexit : m.vmcb.exitcode = vmexitExceptionDb)
    (hskip : m.vm.itcSkipFlag ≠ 0#32) : handleVmException.Returns m u m' ↔
      { m with
        vm := { m.vm with itcSkipFlag := 0#32 }
        vmcb := m.vmcb.resumeSkipped m.vm
        mem := if has m.vm.itcSkipFlag userUnpack then protectedMem m.vmcb.cr3 m.mem
          else m.mem } = m' := by
  have hunpack : has userSingleStepping userUnpack = false := by decide
  have hdb : handleVmException.Returns m u m' ↔ handleDb.Returns m u m' := by
    rw [handleVmException, Exec.returns_read_bind]
    simp only [id]
    rw [hexit, if_neg (by decide), if_neg (by decide), if_pos rfl]
  rw [hdb, handleDb, Exec.returns_read_bind, Exec.returns_when, if_pos hskip]
  simp only [Exec.returns_bind, returns_vmEnableIntercept, Exec.returns_when,
    returns_vmDisableIntercept, returns_modifyVm, hunpack, Bool.false_eq_true, if_false]
  constructor
  · rintro ⟨-, t, ht, -, t', ht', h⟩
    split at h
    · next hstop => rw [← h, ← ht', ← ht, Vmcb.resumeSkipped, if_pos hstop]
    · next hstay => rw [← h, ← ht', ← ht, Vmcb.resumeSkipped, if_neg hstay]
  · intro h
    refine ⟨(), _, rfl, (), _, rfl, ?_⟩
    split
    · next hstop => rw [← h, Vmcb.resumeSkipped, if_pos hstop]
    · next hstay => rw [← h, Vmcb.resumeSkipped, if_neg hstay]

/-! ## The words -/

theorem resume_crIntercepts (hon : f.on c = true) (hskip : vm.itcSkipFlag = f.flag)
    (hc : c'.crIntercepts = (c.skipped f.flag).crIntercepts) :
    (c'.resumeSkipped vm).crIntercepts = c.crIntercepts := by
  have hstep : has userSingleStepping userItcTaskswitch = false := by decide
  have hresume : (c'.resumeSkipped vm).crIntercepts =
      setWhen (has f.flag userItcTaskswitch) intrcptWriteCr3 c'.crIntercepts := by
    unfold Vmcb.resumeSkipped
    rw [hskip]
    dsimp only
    split
    · simp only [Vmcb.disableIntercept, hstep]
      rfl
    · rfl
  have hskipped : (c.skipped f.flag).crIntercepts =
      clearWhen (has f.flag userItcTaskswitch) intrcptWriteCr3 c.crIntercepts := by
    simp only [Vmcb.skipped, Vmcb.enableIntercept, hstep]
    rfl
  rw [hresume, hc, hskipped]
  refine setWhen_clearWhen (by simp) fun hflag => ?_
  cases f with
  | taskswitch => exact hon
  | _ => exact absurd hflag (by decide)

theorem resume_general1Intercepts (hon : f.on c = true) (hskip : vm.itcSkipFlag = f.flag)
    (hc : c'.general1Intercepts = (c.skipped f.flag).general1Intercepts) :
    (c'.resumeSkipped vm).general1Intercepts = c.general1Intercepts := by
  have hresume : (c'.resumeSkipped vm).general1Intercepts =
      (c'.enableIntercept f.flag).general1Intercepts := by
    unfold Vmcb.resumeSkipped
    rw [hskip]
    dsimp only
    split
    · rfl
    · rfl
  rw [hresume, Vmcb.enableIntercept, hc]
  cases f with
  | swint => exact @setWhen_clearWhen 32 21 c.general1Intercepts true (by simp) fun _ => hon
  | syscall => exact @setWhen_clearWhen 32 21 c.general1Intercepts true (by simp) fun _ => hon
  | iret => exact @setWhen_clearWhen 32 20 c.general1Intercepts true (by simp) fun _ => hon
  | _ => rfl

theorem resume_general2Intercepts :
    (c.resumeSkipped vm).general2Intercepts = c.general2Intercepts := by
  unfold Vmcb.resumeSkipped
  dsimp only
  split
  · rfl
  · rfl

/-- Before stepping is stopped, debug exceptions are intercepted. -/
theorem enable_exceptionIntercepts (hon : f.on c = true)
    (hc : c'.exceptionIntercepts = (c.skipped f.flag).exceptionIntercepts) :
    (c'.enableIntercept f.flag).exceptionIntercepts = c.exceptionIntercepts ||| intrcptDb := by
  rw [Vmcb.enableIntercept, hc]
  cases f with
  | singleStepping =>
    change (c.exceptionIntercepts &&& ~~~intrcptDb ||| intrcptDb) ||| intrcptDb = _
    have hback : c.exceptionIntercepts &&& ~~~intrcptDb ||| intrcptDb = c.exceptionIntercepts :=
      clear_or (by simp) hon
    rw [hback]
  | unpack =>
    change (c.exceptionIntercepts &&& ~~~intrcptPf ||| intrcptDb) ||| intrcptPf = _
    have hback : c.exceptionIntercepts &&& ~~~intrcptPf ||| intrcptPf = c.exceptionIntercepts :=
      clear_or (by simp) hon
    rw [BitVec.or_assoc, BitVec.or_comm intrcptDb, ← BitVec.or_assoc, hback]
  | _ => rfl

theorem enable_rflags (hc : c'.rflags = (c.skipped f.flag).rflags) :
    (c'.enableIntercept f.flag).rflags = c.rflags ||| x86RflagsTf := by
  rw [Vmcb.enableIntercept, hc]
  cases f with
  | singleStepping =>
    change (c.rflags &&& ~~~x86RflagsTf ||| x86RflagsTf) ||| x86RflagsTf = _
    apply BitVec.eq_of_getLsbD_eq
    intro i hi
    simp only [BitVec.getLsbD_or, BitVec.getLsbD_and, BitVec.getLsbD_not, decide_eq_true hi,
      Bool.true_and]
    cases c.rflags.getLsbD i <;> cases x86RflagsTf.getLsbD i <;> rfl
  | _ => rfl

/-- Stepping stays on, or the word loses the bit that stepping uses. -/
theorem stepping_iff {n k : Nat} {x y : BitVec n} {keep : Prop} [Decidable keep] (hk : k < n)
    (hy : y = if keep then x ||| 1#n <<< k else x &&& ~~~(1#n <<< k)) :
    (y = x ∨ keep ∧ y = x ||| 1#n <<< k) ↔ keep ∨ has x (1#n <<< k) = false := by
  subst hy
  split
  · next hkeep => exact iff_of_true (Or.inr ⟨hkeep, rfl⟩) (Or.inl hkeep)
  · next hstop =>
    rw [clear_eq_iff hk, or_iff_left fun h => hstop h.1, or_iff_right hstop]

theorem resume_exceptionIntercepts (hon : f.on c = true) (hskip : vm.itcSkipFlag = f.flag)
    (hc : c'.exceptionIntercepts = (c.skipped f.flag).exceptionIntercepts) :
    (c'.resumeSkipped vm).exceptionIntercepts =
      if KeepsStepping vm then c.exceptionIntercepts ||| intrcptDb
      else c.exceptionIntercepts &&& ~~~intrcptDb := by
  have henable := enable_exceptionIntercepts hon hc
  unfold Vmcb.resumeSkipped
  rw [hskip]
  dsimp only
  by_cases hkeep : KeepsStepping vm
  · rw [if_pos hkeep, if_neg (not_or.mpr ⟨not_not_intro hkeep.1, not_not_intro hkeep.2⟩), henable]
  · rw [if_neg hkeep, if_pos (Decidable.not_and_iff_not_or_not.mp hkeep)]
    change (c'.enableIntercept f.flag).exceptionIntercepts &&& ~~~intrcptDb = _
    rw [henable, or_clear]

theorem resume_rflags (hskip : vm.itcSkipFlag = f.flag)
    (hc : c'.rflags = (c.skipped f.flag).rflags) :
    (c'.resumeSkipped vm).rflags =
      if KeepsStepping vm then c.rflags ||| x86RflagsTf else c.rflags &&& ~~~x86RflagsTf := by
  have henable := enable_rflags hc
  unfold Vmcb.resumeSkipped
  rw [hskip]
  dsimp only
  by_cases hkeep : KeepsStepping vm
  · rw [if_pos hkeep, if_neg (not_or.mpr ⟨not_not_intro hkeep.1, not_not_intro hkeep.2⟩), henable]
  · rw [if_neg hkeep, if_pos (Decidable.not_and_iff_not_or_not.mp hkeep)]
    change (c'.enableIntercept f.flag).rflags &&& ~~~x86RflagsTf = _
    rw [henable, or_clear]

/-- Unpacking leaves the page directory write protected. -/
theorem resume_directory {cr3 cr3' : BitVec 64} {mem mem' : Mem}
    (hcr3 : has f.flag userUnpack = true → cr3' = cr3)
    (hmem : ∀ index < 1024, mem'.load32 (directoryWord cr3 index) =
      (if has f.flag userUnpack then unprotected cr3 mem else mem).load32
        (directoryWord cr3 index)) :
    (∀ index < 1024, (if has f.flag userUnpack then protectedMem cr3' mem' else mem').load32
        (directoryWord cr3 index) = mem.load32 (directoryWord cr3 index)) ↔
      (f = .unpack → WriteProtected cr3 mem) := by
  by_cases hf : f = .unpack
  · subst hf
    have hasked : has UserFeature.unpack.flag userUnpack = true := by decide
    have hmask : 0xffffffff#32 - BitVec.ofNat 32 pttefRw = ~~~(1#32 <<< 1) := by decide
    have hrw : BitVec.ofNat 32 pttefRw = 1#32 <<< 1 := by decide
    simp only [if_pos hasked, hcr3 hasked] at hmem ⊢
    have hword : ∀ index < 1024, (protectedMem cr3 mem').load32 (directoryWord cr3 index) =
        mem.load32 (directoryWord cr3 index) &&& ~~~(1#32 <<< 1) := by
      intro index hindex
      rw [protectedMem, load_updateDirectory hindex, hmem index hindex, unprotected,
        load_updateDirectory hindex, hmask, hrw, or_clear]
    constructor
    · intro h _ index hindex
      exact (clear_eq_iff (by simp)).mp ((hword index hindex).symm.trans (h index hindex))
    · intro h index hindex
      exact (hword index hindex).trans ((clear_eq_iff (by simp)).mpr (h trivial index hindex))
  · have hasked : has f.flag userUnpack = false := by
      cases f with
      | unpack => exact absurd rfl hf
      | _ => decide
    simp only [hasked, Bool.false_eq_true, if_false] at hmem ⊢
    exact iff_of_true hmem fun h => absurd h hf

end

/-- Skipping an intercept that is on, and the debug exception after it, both complete, and they
leave the guest as it was exactly when stepping stays on, or neither the guest nor the monitor was
stepping; for unpacking, the page directory must have been write protected as well. -/
theorem skip_resumed_iff {m : Machine} {f : UserFeature} (hskip : m.vm.itcSkipFlag = 0#32)
    (hon : f.on m.vmcb = true) :
    ∃ m₁, (skipIntercptCurInstr f.flag).Returns m () m₁ ∧ ∀ e, DebugExit m₁ e →
      ∃ m₂, handleVmException.Returns (m₁.deliver e) () m₂ ∧ (Resumed m m₂ ↔ Resumable f m) := by
  have hflag : m.vm.itcSkipFlag ||| f.flag = f.flag := by rw [hskip, BitVec.zero_or]
  have hne : m.vm.itcSkipFlag ||| f.flag ≠ 0#32 := by
    rw [hflag]
    cases f <;> decide
  refine ⟨_, returns_skipIntercptCurInstr.mpr rfl, fun e he => ?_⟩
  refine ⟨_, (returns_handleVmException_db he.exitcode hne).mpr rfl, ?_⟩
  generalize hm₁ : ({ m with
    vm := { m.vm with itcSkipFlag := m.vm.itcSkipFlag ||| f.flag }
    vmcb := m.vmcb.skipped f.flag
    mem := if has f.flag userUnpack then unprotected m.vmcb.cr3 m.mem else m.mem } : Machine) = m₁
    at he ⊢
  have hvm : m₁.vm = { m.vm with itcSkipFlag := f.flag } := by rw [← hm₁, hflag]
  have hvmcb : m₁.vmcb = m.vmcb.skipped f.flag := by rw [← hm₁]
  have hmem : m₁.mem = if has f.flag userUnpack then unprotected m.vmcb.cr3 m.mem else m.mem := by
    rw [← hm₁]
  have hflag₁ : m₁.vm.itcSkipFlag = f.flag := by rw [hvm]
  have hkeep : KeepsStepping m₁.vm ↔ KeepsStepping m.vm := by rw [hvm]; rfl
  have hcr3 : m₁.vmcb.cr3 = m.vmcb.cr3 := by rw [hvmcb]; rfl
  have hdb : has m.vmcb.exceptionIntercepts intrcptDb = m.vmcb.control.on .db := rfl
  have hexception := @stepping_iff 32 1 m.vmcb.exceptionIntercepts _ (KeepsStepping m₁.vm) _
    (by simp) (@resume_exceptionIntercepts f m.vmcb (m₁.deliver e).vmcb m₁.vm hon hflag₁
      (by rw [← hvmcb]; rfl))
  have hrflags := @stepping_iff 64 8 m.vmcb.rflags _ (KeepsStepping m₁.vm) _
    (by simp) (@resume_rflags f m.vmcb (m₁.deliver e).vmcb m₁.vm hflag₁
      (by rw [← hvmcb]; exact he.rflags))
  rw [hkeep] at hexception hrflags
  have hdirectory := @resume_directory f m.vmcb.cr3 e.vmcb.cr3 m.mem e.mem
    (fun h => (he.cr3 (hflag₁ ▸ h)).trans hcr3)
    (fun index hindex => by rw [← hmem, ← hcr3]; exact he.directory index hindex)
  rw [← hflag₁] at hdirectory
  constructor
  · intro h
    have hdb := hexception.mp h.exceptionIntercepts
    have htf := hrflags.mp h.rflags
    exact ⟨or_and_left.mpr ⟨hdb, htf⟩, hdirectory.mp h.directory⟩
  · intro h
    have hboth := or_and_left.mp h.1
    exact
      { crIntercepts := @resume_crIntercepts f m.vmcb (m₁.deliver e).vmcb m₁.vm hon hflag₁
          (by rw [← hvmcb]; rfl)
        general1Intercepts := @resume_general1Intercepts f m.vmcb (m₁.deliver e).vmcb m₁.vm hon
          hflag₁ (by rw [← hvmcb]; rfl)
        general2Intercepts := by
          rw [resume_general2Intercepts]
          change m₁.vmcb.general2Intercepts = _
          rw [hvmcb]
          rfl
        exceptionIntercepts := hexception.mpr hboth.1
        rflags := hrflags.mpr hboth.2
        directory := hdirectory.mpr h.2
        itcSkipFlag := rfl }

/-- The guest returns from an interrupt while its return is intercepted. -/
theorem skip_resumed_iff_iret :
    let m := { Machine.boot with vmcb := Vmcb.mbrStart.enableIntercept userItcIret }
    ∃ m₁, (skipIntercptCurInstr userItcIret).Returns m () m₁ ∧ ∀ e, DebugExit m₁ e →
      ∃ m₂, handleVmException.Returns (m₁.deliver e) () m₂ ∧ Resumed m m₂ := by
  intro m
  have hon : UserFeature.iret.on m.vmcb = true := by decide
  have hoff : m.vmcb.control.on .db = false ∧ m.vmcb.control.on .tf = false := by decide
  obtain ⟨m₁, hskip, h⟩ := skip_resumed_iff (m := m) (f := .iret) rfl hon
  refine ⟨m₁, hskip, fun e he => ?_⟩
  obtain ⟨m₂, hdebug, hiff⟩ := h e he
  exact ⟨m₂, hdebug, hiff.mpr ⟨Or.inr hoff, nofun⟩⟩

/-- A guest that steps itself loses its trap flag. -/
theorem skip_not_resumed : ∃ m m₁ m₂ e, m.vm.itcSkipFlag = 0#32 ∧
    UserFeature.iret.on m.vmcb = true ∧ (skipIntercptCurInstr userItcIret).Returns m () m₁ ∧
    DebugExit m₁ e ∧ handleVmException.Returns (m₁.deliver e) () m₂ ∧
    has m.vmcb.rflags x86RflagsTf = true ∧ has m₂.vmcb.rflags x86RflagsTf = false ∧
    ¬ Resumed m m₂ := by
  let m : Machine := { Machine.boot with
    vmcb := { Vmcb.mbrStart.enableIntercept userItcIret with rflags := 0x2306#64 } }
  let m₁ : Machine := { m with
    vm := { m.vm with itcSkipFlag := m.vm.itcSkipFlag ||| userItcIret }
    vmcb := m.vmcb.skipped userItcIret }
  let e : GuestExit :=
    { vmcb := { m₁.vmcb with exitcode := vmexitExceptionDb }, regs := m₁.regs, mem := m₁.mem }
  have hne : (m₁.deliver e).vm.itcSkipFlag ≠ 0#32 := by decide
  have hdebug := (@returns_handleVmException_db (m₁.deliver e) _ () rfl hne).mpr rfl
  refine ⟨m, m₁, _, e, rfl, by decide, returns_skipIntercptCurInstr.mpr rfl,
    ⟨rfl, rfl, fun _ => rfl, fun _ _ => rfl⟩, hdebug, by decide, by decide, fun h => ?_⟩
  have hoff : ¬ KeepsStepping m.vm := by decide
  rcases h.rflags with hsame | ⟨hkeep, -⟩
  · exact absurd hsame (by decide)
  · exact hoff hkeep

end Mavmm
