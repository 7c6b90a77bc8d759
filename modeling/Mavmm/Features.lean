import Mavmm.InterceptSpec

/-!
# Features that are on and features that are asked for

A word of flags asks for features; the intercept words and the guest's flags
have them on or off.  Switching intercepts on adds what its flags ask for to
what is on, and switching them off takes it away (`on_enableIntercept`,
`on_disableIntercept`).
-/

namespace Mavmm

/-! ## Single bits -/

section
variable {n j k : Nat} {x y : BitVec n}

theorem has_bit (hk : k < n) (x : BitVec n) : has x (1#n <<< k) = x.getLsbD k := by
  have hbit : ∀ i, (x &&& 1#n <<< k).getLsbD i = (x.getLsbD i && decide (i = k)) := by
    intro i
    rw [BitVec.getLsbD_and, Bits.getLsbD_one_shiftLeft hk]
  cases hx : x.getLsbD k with
  | true =>
    refine decide_eq_true fun hzero => ?_
    have h := hbit k
    rw [hzero, BitVec.getLsbD_zero, hx, decide_eq_true rfl] at h
    cases h
  | false =>
    refine decide_eq_false (not_not_intro (BitVec.eq_of_getLsbD_eq fun i _ => ?_))
    rw [hbit, BitVec.getLsbD_zero]
    by_cases hik : i = k
    · rw [hik, hx, Bool.false_and]
    · rw [decide_eq_false hik, Bool.and_false]

theorem has_or (hk : k < n) : has (x ||| y) (1#n <<< k) =
    (has x (1#n <<< k) || has y (1#n <<< k)) := by
  rw [has_bit hk, has_bit hk, has_bit hk, BitVec.getLsbD_or]

theorem has_and_not (hk : k < n) : has (x &&& ~~~y) (1#n <<< k) =
    (has x (1#n <<< k) && !has y (1#n <<< k)) := by
  rw [has_bit hk, has_bit hk, has_bit hk, BitVec.getLsbD_and, BitVec.getLsbD_not,
    decide_eq_true hk, Bool.true_and]

theorem has_bit_bit (hj : j < n) (hk : k < n) :
    has (1#n <<< j) (1#n <<< k) = decide (k = j) := by
  rw [has_bit hk, Bits.getLsbD_one_shiftLeft hj]

theorem has_setWhen {c : Bool} (hj : j < n) (hk : k < n) :
    has (setWhen c (1#n <<< j) x) (1#n <<< k) = (has x (1#n <<< k) || (c && decide (k = j))) := by
  unfold setWhen
  split
  · next hc => rw [has_or hk, has_bit_bit hj hk, hc, Bool.true_and]
  · next hc => rw [Bool.eq_false_iff.mpr hc, Bool.false_and, Bool.or_false]

theorem has_clearWhen {c : Bool} (hj : j < n) (hk : k < n) :
    has (clearWhen c (1#n <<< j) x) (1#n <<< k) =
      (has x (1#n <<< k) && !(c && decide (k = j))) := by
  unfold clearWhen
  split
  · next hc => rw [has_and_not hk, has_bit_bit hj hk, hc, Bool.true_and]
  · next hc => rw [Bool.eq_false_iff.mpr hc, Bool.false_and, Bool.not_false, Bool.and_true]

end

/-! ## Features -/

/-- What a command can switch on: a bit of an intercept word, or the trap flag. -/
inductive Feature where
  | intn
  | iret
  | db
  | tf
  | pf

/-- Whether the flags of a command ask for the feature. -/
def asked (flags : BitVec 32) : Feature → Bool
  -- software interrupts and system calls share one intercept
  | .intn => has flags userItcSwint || has flags userItcSyscall
  | .iret => has flags userItcIret
  | .db => has flags userSingleStepping
  | .tf => has flags userSingleStepping
  | .pf => has flags userUnpack

/-- Whether the feature is on. -/
def Control.on (c : Control) : Feature → Bool
  | .intn => has c.general1Intercepts intrcptIntn
  | .iret => has c.general1Intercepts intrcptIret
  | .db => has c.exceptionIntercepts intrcptDb
  | .tf => has c.rflags x86RflagsTf
  | .pf => has c.exceptionIntercepts intrcptPf

section
variable {flags flags' : BitVec 32} {c : Vmcb} {f : Feature}

theorem asked_or : asked (flags ||| flags') f = (asked flags f || asked flags' f) := by
  cases f with
  | intn =>
    simp only [asked, userItcSwint, userItcSyscall, has_or, Nat.reduceLT]
    ac_rfl
  | iret => exact has_or (by simp)
  | db => exact has_or (by simp)
  | tf => exact has_or (by simp)
  | pf => exact has_or (by simp)

theorem asked_zero : asked 0#32 f = false := by
  cases f <;> decide

/-- Task switches are no feature. -/
theorem asked_taskswitch : asked userItcTaskswitch f = false := by
  cases f <;> decide

theorem asked_without_taskswitch : asked (flags &&& ~~~userItcTaskswitch) f = asked flags f := by
  have hout : ∀ k < 32, k ≠ 1 →
      has (flags &&& ~~~userItcTaskswitch) (1#32 <<< k) = has flags (1#32 <<< k) := by
    intro k hk hne
    unfold userItcTaskswitch
    rw [has_and_not hk, has_bit_bit (by simp) hk, decide_eq_false hne, Bool.not_false,
      Bool.and_true]
  cases f with
  | intn =>
    unfold asked userItcSwint userItcSyscall
    rw [hout 0 (by simp) (by simp), hout 2 (by simp) (by simp)]
  | iret => exact hout 3 (by simp) (by simp)
  | db => exact hout 4 (by simp) (by simp)
  | tf => exact hout 4 (by simp) (by simp)
  | pf => exact hout 5 (by simp) (by simp)

theorem on_enableIntercept :
    (c.enableIntercept flags).control.on f = (c.control.on f || asked flags f) := by
  cases f <;>
    simp only [Control.on, Vmcb.control, Vmcb.enableIntercept, intrcptIntn, intrcptIret, intrcptDb,
      intrcptPf, x86RflagsTf, asked, has_setWhen, Nat.reduceLT, Nat.reduceEqDiff, decide_true,
      decide_false, Bool.and_true, Bool.and_false, Bool.or_false, Bool.or_assoc]

theorem on_disableIntercept :
    (c.disableIntercept flags).control.on f = (c.control.on f && !asked flags f) := by
  cases f <;>
    simp only [Control.on, Vmcb.control, Vmcb.disableIntercept, intrcptIntn, intrcptIret,
      intrcptDb, intrcptPf, x86RflagsTf, asked, has_clearWhen, Nat.reduceLT, Nat.reduceEqDiff,
      decide_true, decide_false, Bool.and_true, Bool.and_false, Bool.not_false, Bool.not_or,
      Bool.and_assoc]

/-- The intercept of `popf` is no feature. -/
theorem on_setPopf :
    ({ c with general1Intercepts := c.general1Intercepts ||| intrcptPopf } : Vmcb).control.on f =
      c.control.on f := by
  cases f <;>
    simp only [Vmcb.control, Control.on, intrcptIntn, intrcptIret, intrcptPopf, has_or, has_bit_bit,
      Nat.reduceLT, Nat.reduceEqDiff, decide_false, Bool.or_false]

theorem on_clearPopf :
    ({ c with general1Intercepts := c.general1Intercepts &&& ~~~intrcptPopf } : Vmcb).control.on f =
      c.control.on f := by
  cases f <;>
    simp only [Vmcb.control, Control.on, intrcptIntn, intrcptIret, intrcptPopf, has_and_not,
      has_bit_bit, Nat.reduceLT, Nat.reduceEqDiff, decide_false, Bool.not_false, Bool.and_true]

/-- `int 0x80` switches on the trap flag and the intercept of `iret`. -/
theorem on_traceReturn :
    c.traceReturn.control.on f = (c.control.on f || match f with
      | .tf => true
      | .iret => true
      | _ => false) := by
  cases f <;>
    simp only [Vmcb.traceReturn, Vmcb.control, Control.on, intrcptIntn, intrcptIret, x86RflagsTf,
      has_or, has_bit_bit, Nat.reduceLT, Nat.reduceEqDiff, decide_true, decide_false, Bool.or_true,
      Bool.or_false]

end

end Mavmm
