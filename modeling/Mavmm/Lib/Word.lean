import Mathlib.Algebra.Group.Int.Defs
import Mathlib.Algebra.Group.Nat.Defs

/-!
# Machine words

Bit-level facts about fixed-width words: the masks `(1 << s) - 1` and
`-(1 << s)` that select the bits below and from `s`, and packed bit fields.
A field is read with `BitVec.extractLsb'` and written with `setField`, which
leaves every bit outside the field alone.
-/

namespace Bits

/-! ## Masks -/

theorem toNat_one_shiftLeft {w s : Nat} (hs : s < w) : (1#w <<< s).toNat = 2 ^ s := by
  have hw : 2 ^ s < 2 ^ w := Nat.pow_lt_pow_right (by simp) hs
  have h1 : 1 < 2 ^ w := by
    have : 2 ^ 1 ≤ 2 ^ w := Nat.pow_le_pow_right (by simp) (by omega)
    omega
  rw [BitVec.toNat_shiftLeft, BitVec.toNat_ofNat, Nat.mod_eq_of_lt h1, Nat.shiftLeft_eq,
    Nat.one_mul, Nat.mod_eq_of_lt hw]

/-- `(1 << s) - 1` selects the bits below `s`. -/
theorem getLsbD_lowMask {w s : Nat} (hs : s < w) (i : Nat) :
    ((1#w <<< s) - 1#w).getLsbD i = decide (i < s) := by
  have h1 : (1#w).toNat = 1 := by
    rw [BitVec.toNat_ofNat]
    exact Nat.mod_eq_of_lt (Nat.one_lt_two_pow (by omega))
  have hle : 1#w ≤ 1#w <<< s := by
    rw [BitVec.le_def, h1, toNat_one_shiftLeft hs]
    exact Nat.two_pow_pos s
  rw [← BitVec.testBit_toNat, BitVec.toNat_sub_of_le hle, toNat_one_shiftLeft hs, h1,
    Nat.testBit_two_pow_sub_one]

/-- `-(1 << s)` selects the bits from `s` on. -/
theorem getLsbD_highMask {w s : Nat} (hs : s < w) {i : Nat} (hi : i < w) :
    (-(1#w <<< s)).getLsbD i = decide (s ≤ i) := by
  have h : -(1#w <<< s) = ~~~((1#w <<< s) - 1#w) := by
    rw [BitVec.not_eq_neg_add, BitVec.neg_sub, BitVec.add_sub_cancel]
  rw [h, BitVec.getLsbD_not, getLsbD_lowMask hs]
  by_cases hc : i < s
  · simp [hc, hi]
  · simp [hc, hi, Nat.le_of_not_lt hc]

/-- The bit selected by `1 << s` is bit `s`. -/
theorem getLsbD_one_shiftLeft {w s : Nat} (hs : s < w) (i : Nat) :
    (1#w <<< s).getLsbD i = decide (i = s) := by
  rw [← BitVec.testBit_toNat, toNat_one_shiftLeft hs, Nat.testBit_two_pow]
  exact decide_eq_decide.mpr eq_comm

/-- A mask of a single bit tests that bit. -/
theorem and_twoPow_eq_zero {w s : Nat} (hs : s < w) {x : BitVec w} :
    x &&& BitVec.twoPow w s = 0#w ↔ x.getLsbD s = false := by
  rw [BitVec.and_twoPow]
  cases x.getLsbD s with
  | false => simp
  | true =>
    refine iff_of_false (fun h => ?_) nofun
    have hbit := congrArg (fun y => y.getLsbD s) h
    simp [hs] at hbit

/-- Masking with `2 ^ k - 1` is reduction modulo `2 ^ k`. -/
theorem toNat_and_lowMask {w : Nat} (x : BitVec w) (k : Nat) (hk : k < w) :
    (x &&& BitVec.ofNat w (2 ^ k - 1)).toNat = x.toNat % 2 ^ k := by
  have hlt : 2 ^ k - 1 < 2 ^ w :=
    Nat.lt_of_le_of_lt (Nat.sub_le _ _) (Nat.pow_lt_pow_right (by simp) hk)
  rw [BitVec.toNat_and, BitVec.toNat_ofNat, Nat.mod_eq_of_lt hlt, Nat.and_two_pow_sub_one_eq_mod]

/-- Masking with `~(2 ^ k - 1)` rounds down to a multiple of `2 ^ k`. -/
theorem toNat_and_not_lowMask {w : Nat} (x : BitVec w) (k : Nat) (hk : k < w) :
    (x &&& ~~~BitVec.ofNat w (2 ^ k - 1)).toNat = x.toNat / 2 ^ k * 2 ^ k := by
  have hx : x &&& ~~~BitVec.ofNat w (2 ^ k - 1) = x >>> k <<< k := by
    apply BitVec.eq_of_getLsbD_eq
    intro i hi
    have hlt : 2 ^ k - 1 < 2 ^ w :=
      Nat.lt_of_le_of_lt (Nat.sub_le _ _) (Nat.pow_lt_pow_right (by simp) hk)
    have hm : (BitVec.ofNat w (2 ^ k - 1)).getLsbD i = decide (i < k) := by
      rw [← BitVec.testBit_toNat, BitVec.toNat_ofNat, Nat.mod_eq_of_lt hlt,
        Nat.testBit_two_pow_sub_one]
    rw [BitVec.getLsbD_and, BitVec.getLsbD_not, hm, BitVec.getLsbD_shiftLeft,
      BitVec.getLsbD_ushiftRight]
    by_cases hc : i < k
    · simp [hc]
    · simp [hc, hi, Nat.add_sub_cancel' (Nat.le_of_not_lt hc)]
  have hle : x.toNat / 2 ^ k * 2 ^ k < 2 ^ w :=
    Nat.lt_of_le_of_lt (Nat.div_mul_le_self _ _) x.isLt
  rw [hx, BitVec.toNat_shiftLeft, BitVec.toNat_ushiftRight, Nat.shiftRight_eq_div_pow,
    Nat.shiftLeft_eq, Nat.mod_eq_of_lt hle]

/-- A number below `2 ^ k` has no bit from `k` on. -/
theorem testBit_of_lt {n k i : Nat} (hn : n < 2 ^ k) (hi : k ≤ i) : n.testBit i = false :=
  Nat.testBit_lt_two_pow (Nat.lt_of_lt_of_le hn (Nat.pow_le_pow_right Nat.two_pos hi))

/-! ## Bit fields -/

/-- Write `v` into the `len` bits of `w` that start at bit `lo`. -/
def setField {n : Nat} (w : BitVec n) (lo : Nat) {len : Nat} (v : BitVec len) : BitVec n :=
  (w &&& ~~~((BitVec.allOnes len).setWidth n <<< lo)) ||| (v.setWidth n <<< lo)

theorem getLsbD_setField {n : Nat} (w : BitVec n) (lo : Nat) {len : Nat} (v : BitVec len)
    (i : Nat) (hi : i < n) :
    (setField w lo v).getLsbD i =
      if lo ≤ i ∧ i < lo + len then v.getLsbD (i - lo) else w.getLsbD i := by
  unfold setField
  rw [BitVec.getLsbD_or, BitVec.getLsbD_and, BitVec.getLsbD_not, BitVec.getLsbD_shiftLeft,
    BitVec.getLsbD_shiftLeft, BitVec.getLsbD_setWidth, BitVec.getLsbD_setWidth,
    BitVec.getLsbD_allOnes]
  by_cases hlo : i < lo
  · simp [hlo, hi, Nat.not_le.mpr hlo]
  · have hle : lo ≤ i := Nat.le_of_not_lt hlo
    by_cases hlen : i - lo < len
    · have : i < lo + len := by omega
      have : i - lo < n := by omega
      simp [*]
    · have hend : ¬ i < lo + len := by omega
      simp [hlo, hle, hlen, hend, hi, BitVec.getLsbD_of_ge v _ (Nat.le_of_not_lt hlen)]

/-- Reading back a written field. -/
@[simp] theorem extract_setField {n : Nat} (w : BitVec n) (lo : Nat) {len : Nat} (v : BitVec len)
    (h : lo + len ≤ n) : (setField w lo v).extractLsb' lo len = v := by
  apply BitVec.eq_of_getLsbD_eq
  intro i hi
  have hin : lo ≤ lo + i ∧ lo + i < lo + len := by omega
  rw [BitVec.getLsbD_extractLsb', getLsbD_setField w lo v (lo + i) (by omega)]
  simp [hi, hin]

/-- A field that does not meet the written one keeps its value. -/
theorem extract_setField_of_disjoint {n : Nat} (w : BitVec n) (lo : Nat) {len : Nat}
    (v : BitVec len) (lo' len' : Nat) (hn : lo' + len' ≤ n)
    (h : lo' + len' ≤ lo ∨ lo + len ≤ lo') :
    (setField w lo v).extractLsb' lo' len' = w.extractLsb' lo' len' := by
  apply BitVec.eq_of_getLsbD_eq
  intro i hi
  have hout : ¬ (lo ≤ lo' + i ∧ lo' + i < lo + len) := by omega
  rw [BitVec.getLsbD_extractLsb', BitVec.getLsbD_extractLsb',
    getLsbD_setField w lo v (lo' + i) (by omega), if_neg hout]

/-- A flag of the lowest field, tested with its mask, is a bit of the word. -/
theorem testFlag {w n k : Nat} {e : BitVec w} (hk : k < n) :
    decide (e.extractLsb' 0 n &&& BitVec.ofNat n (1 <<< k) ≠ 0#n) = e.getLsbD k := by
  have hbit : ∀ i, (BitVec.ofNat n (1 <<< k)).getLsbD i = decide (i = k) := by
    intro i
    rw [BitVec.getLsbD_ofNat, Nat.one_shiftLeft, Nat.testBit_two_pow]
    by_cases h : k = i
    · simp [← h, hk]
    · have h' : ¬ i = k := fun hc => h hc.symm
      simp [h, h']
  cases hval : e.getLsbD k with
  | true =>
    refine decide_eq_true (fun hzero => ?_)
    have hget := congrArg (fun x => BitVec.getLsbD x k) hzero
    rw [BitVec.getLsbD_and, hbit, BitVec.getLsbD_extractLsb', BitVec.getLsbD_zero] at hget
    simp [hk, hval] at hget
  | false =>
    refine decide_eq_false (fun hne => hne ?_)
    apply BitVec.eq_of_getLsbD_eq
    intro i hi
    rw [BitVec.getLsbD_and, hbit, BitVec.getLsbD_extractLsb', BitVec.getLsbD_zero]
    by_cases h : i = k
    · simp [h, hval]
    · simp [h]

end Bits
