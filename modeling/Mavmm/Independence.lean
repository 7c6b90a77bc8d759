import Mavmm.Features

/-!
# Calls that switch features on and off

After any sequence of `vm_enable_intercept` and `vm_disable_intercept` a bit is
what the last call that touches it made of it.  Software interrupts and system
calls have one bit between them, so one of the two is lost when the other is
switched off later; the other features are independent (`feature_on_iff`).
-/

namespace Mavmm

/-- The features of user.h. -/
inductive UserFeature where
  | swint
  | taskswitch
  | syscall
  | iret
  | singleStepping
  | unpack
deriving DecidableEq

namespace UserFeature

def flag : UserFeature → BitVec 32
  | .swint => userItcSwint
  | .taskswitch => userItcTaskswitch
  | .syscall => userItcSyscall
  | .iret => userItcIret
  | .singleStepping => userSingleStepping
  | .unpack => userUnpack

/-- The intercept bit that implements the feature. -/
def on (c : Vmcb) : UserFeature → Bool
  | .swint => c.control.on .intn
  | .taskswitch => has c.crIntercepts intrcptWriteCr3
  | .syscall => c.control.on .intn
  | .iret => c.control.on .iret
  | .singleStepping => c.control.on .db
  | .unpack => c.control.on .pf

/-- Whether a mask contains the feature or another one with the same bit. -/
def touched (flags : BitVec 32) : UserFeature → Bool
  | .swint => asked flags .intn
  | .taskswitch => has flags userItcTaskswitch
  | .syscall => asked flags .intn
  | .iret => asked flags .iret
  | .singleStepping => asked flags .db
  | .unpack => asked flags .pf

end UserFeature

inductive ItcCall where
  | enable (flags : BitVec 32)
  | disable (flags : BitVec 32)

namespace ItcCall

def flags : ItcCall → BitVec 32
  | .enable flags => flags
  | .disable flags => flags

def isEnable : ItcCall → Bool
  | .enable _ => true
  | .disable _ => false

def run : ItcCall → Handler Unit
  | .enable flags => vmEnableIntercept flags
  | .disable flags => vmDisableIntercept flags

end ItcCall

def ItcStep (m : Machine) (c : ItcCall) (m' : Machine) : Prop := c.run.Returns m () m'

/-- The last call whose mask has the property. -/
def lastItcCall (p : BitVec 32 → Bool) (calls : List ItcCall) : Option ItcCall :=
  (calls.filter fun c => p c.flags).getLast?

section
variable {m m' : Machine} {c : ItcCall} {f : UserFeature} {flags : BitVec 32}

theorem lastItcCall_append (p : BitVec 32 → Bool) (calls : List ItcCall) (c : ItcCall) :
    lastItcCall p (calls ++ [c]) = if p c.flags then some c else lastItcCall p calls := by
  unfold lastItcCall
  simp only [List.filter_append, List.filter_cons, List.filter_nil]
  split
  · exact List.getLast?_concat
  · rw [List.append_nil]

theorem feature_on_enable {v : Vmcb} : f.on (v.enableIntercept flags) = (f.on v || f.touched flags) := by
  cases f with
  | taskswitch =>
    simp only [UserFeature.on, UserFeature.touched, Vmcb.enableIntercept, intrcptWriteCr3,
      has_setWhen, Nat.reduceLT, decide_true, Bool.and_true]
  | swint => exact @on_enableIntercept flags v .intn
  | syscall => exact @on_enableIntercept flags v .intn
  | iret => exact @on_enableIntercept flags v .iret
  | singleStepping => exact @on_enableIntercept flags v .db
  | unpack => exact @on_enableIntercept flags v .pf

theorem feature_on_disable {v : Vmcb} :
    f.on (v.disableIntercept flags) = (f.on v && !f.touched flags) := by
  cases f with
  | taskswitch =>
    simp only [UserFeature.on, UserFeature.touched, Vmcb.disableIntercept, intrcptWriteCr3,
      has_clearWhen, Nat.reduceLT, decide_true, Bool.and_true]
  | swint => exact @on_disableIntercept flags v .intn
  | syscall => exact @on_disableIntercept flags v .intn
  | iret => exact @on_disableIntercept flags v .iret
  | singleStepping => exact @on_disableIntercept flags v .db
  | unpack => exact @on_disableIntercept flags v .pf

/-- A call decides the bits it touches, and leaves the others alone. -/
theorem feature_step (hstep : ItcStep m c m') :
    f.on m'.vmcb = if f.touched c.flags then c.isEnable else f.on m.vmcb := by
  cases c with
  | enable flags =>
    obtain ⟨-, hvmcb, -⟩ := vmEnableIntercept_spec hstep
    rw [hvmcb, feature_on_enable]
    change (f.on m.vmcb || f.touched flags) = if f.touched flags then true else f.on m.vmcb
    cases f.touched flags <;> simp
  | disable flags =>
    obtain ⟨-, hvmcb, -⟩ := vmDisableIntercept_spec hstep
    rw [hvmcb, feature_on_disable]
    change (f.on m.vmcb && !f.touched flags) = if f.touched flags then false else f.on m.vmcb
    cases f.touched flags <;> simp

/-- After a run a bit is what the last call that touches it made of it. -/
theorem feature_run {m₀ : Machine} {calls : List ItcCall} (hclear : f.on m₀.vmcb = false)
    (hrun : Run ItcStep m₀ calls m) :
    f.on m.vmcb = match lastItcCall f.touched calls with
      | some c => c.isEnable
      | none => false := by
  induction hrun with
  | nil => exact hclear
  | snoc _ hstep ih =>
    rw [feature_step hstep, lastItcCall_append]
    split
    · rfl
    · exact ih

end

/-- The intercept words are cleared. -/
def Vmcb.cleared (c : Vmcb) : Prop :=
  c.crIntercepts = 0#32 ∧ c.exceptionIntercepts = 0#32 ∧ c.general1Intercepts = 0#32

theorem Vmcb.cleared.feature_off {c : Vmcb} (h : c.cleared) (f : UserFeature) : f.on c = false := by
  obtain ⟨hcr, hexception, hgeneral⟩ := h
  have hzero : ∀ k < 32, has 0#32 (1#32 <<< k) = false := by
    intro k hk
    rw [has_bit hk, BitVec.getLsbD_zero]
  cases f <;> simp only [UserFeature.on, Control.on, Vmcb.control, hcr, hexception, hgeneral] <;>
    exact hzero _ (by simp)

/-- After any calls from cleared words of which the last with a feature in its mask enabled it,
the feature is on exactly when the last call with a feature of the same bit is an enable too. -/
theorem feature_on_iff {m₀ m : Machine} {calls : List ItcCall} {f : UserFeature}
    {flags : BitVec 32} (hclear : m₀.vmcb.cleared) (hrun : Run ItcStep m₀ calls m)
    (_hlast : lastItcCall (fun flags => has flags f.flag) calls = some (.enable flags)) :
    f.on m.vmcb = true ↔ ∃ flags, lastItcCall f.touched calls = some (.enable flags) := by
  rw [feature_run (hclear.feature_off f) hrun]
  cases lastItcCall f.touched calls with
  | none => exact ⟨nofun, fun h => nomatch h⟩
  | some c =>
    cases c with
    | enable flags => exact iff_of_true rfl ⟨flags, rfl⟩
    | disable flags =>
      refine iff_of_false Bool.false_ne_true fun h => ?_
      obtain ⟨flags', h⟩ := h
      cases h

theorem feature_on_iff_iret : ∃ m,
    Run ItcStep Machine.boot [.enable userItcIret, .disable userItcSwint] m ∧
      UserFeature.iret.on m.vmcb = true := by
  have hclear : Machine.boot.vmcb.cleared := ⟨rfl, rfl, rfl⟩
  have hrun := Run.snoc (Run.snoc .nil
    (show ItcStep Machine.boot (.enable userItcIret) _ from rfl))
    (show ItcStep _ (.disable userItcSwint) _ from rfl)
  exact ⟨_, hrun, (@feature_on_iff _ _ _ .iret userItcIret hclear hrun rfl).mpr ⟨userItcIret, rfl⟩⟩

/-- Software interrupts are no longer intercepted once system calls are switched off. -/
theorem feature_lost : ∃ m,
    Run ItcStep Machine.boot [.enable userItcSwint, .disable userItcSyscall] m ∧
      lastItcCall (fun flags => has flags UserFeature.swint.flag)
        [.enable userItcSwint, .disable userItcSyscall] = some (.enable userItcSwint) ∧
      UserFeature.swint.on m.vmcb = false := by
  have hrun := Run.snoc (Run.snoc .nil
    (show ItcStep Machine.boot (.enable userItcSwint) _ from rfl))
    (show ItcStep _ (.disable userItcSyscall) _ from rfl)
  exact ⟨_, hrun, rfl, by decide +kernel⟩

end Mavmm
