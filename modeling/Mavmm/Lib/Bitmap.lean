import Mavmm.Lib.Word

/-!
# Bit sets in arrays of words

An array of `w`-bit words read as a set of bits, bit `p` being bit `p % w` of
word `p / w`.  Writing one word changes the bits of that word only
(`member_set`), and writing a block of words changes the bits of that block
only (`member_setWords`).
-/

namespace Bitmap

variable {w : Nat}

/-- Bit `p`; bits past the last word read as clear. -/
def member (tbl : Array (BitVec w)) (p : Nat) : Bool :=
  (tbl.getD (p / w) 0#w).getLsbD (p % w)

theorem member_eq_getElem {tbl : Array (BitVec w)} {p : Nat} (h : p / w < tbl.size) :
    member tbl p = tbl[p / w].getLsbD (p % w) := by
  simp [member, Array.getD, h]

theorem member_set {tbl : Array (BitVec w)} {i : Nat} (hi : i < tbl.size) (v : BitVec w)
    (p : Nat) :
    member (tbl.set i v hi) p = if p / w = i then v.getLsbD (p % w) else member tbl p := by
  unfold member
  by_cases h : p / w = i
  · subst h
    simp [Array.getD, hi]
  · have hne : i ≠ p / w := fun e => h e.symm
    by_cases hp : p / w < tbl.size
    · simp [Array.getD, hp, hne, h]
    · simp [Array.getD, hp, h]

/-- Write `v` into the `n` words from `i` on, as far as the array goes. -/
def setWords (tbl : Array (BitVec w)) (v : BitVec w) : (n i : Nat) → Array (BitVec w)
  | 0, _ => tbl
  | n + 1, i => setWords (tbl.setIfInBounds i v) v n (i + 1)

@[simp] theorem size_setWords (v : BitVec w) (n : Nat) :
    ∀ (tbl : Array (BitVec w)) (i : Nat), (setWords tbl v n i).size = tbl.size := by
  induction n with
  | zero => exact fun _ _ => rfl
  | succ n ih =>
    intro tbl i
    rw [setWords, ih, Array.size_setIfInBounds]

theorem member_setWords (v : BitVec w) (p n : Nat) :
    ∀ (tbl : Array (BitVec w)) (i : Nat), i + n ≤ tbl.size →
      member (setWords tbl v n i) p =
        if i ≤ p / w ∧ p / w < i + n then v.getLsbD (p % w) else member tbl p := by
  induction n with
  | zero =>
    intro tbl i _
    have hno : ¬ (i ≤ p / w ∧ p / w < i + 0) := by omega
    rw [setWords, if_neg hno]
  | succ n ih =>
    intro tbl i hi
    have hlt : i < tbl.size := by omega
    have hset : tbl.setIfInBounds i v = tbl.set i v hlt := by
      simp [Array.setIfInBounds, hlt]
    rw [setWords, hset, ih _ _ (by rw [Array.size_set]; omega), member_set hlt]
    by_cases hp : p / w = i
    · have hin : i ≤ p / w ∧ p / w < i + (n + 1) := by omega
      have hout : ¬ (i + 1 ≤ p / w ∧ p / w < i + 1 + n) := by omega
      rw [if_neg hout, if_pos hp, if_pos hin]
    · have hiff : (i + 1 ≤ p / w ∧ p / w < i + 1 + n) ↔ (i ≤ p / w ∧ p / w < i + (n + 1)) := by
        omega
      rw [if_neg hp]
      simp only [hiff]

theorem member_replicate_allOnes {n p : Nat} (hw : 0 < w) (h : p / w < n) :
    member (Array.replicate n (BitVec.allOnes w)) p = true := by
  rw [member_eq_getElem (by simpa using h), Array.getElem_replicate, BitVec.getLsbD_allOnes]
  simpa using Nat.mod_lt p hw

/-- Two arrays of one size with the same bits are equal. -/
theorem ext_member {tbl tbl' : Array (BitVec w)} (hsize : tbl.size = tbl'.size)
    (h : ∀ p, member tbl p = member tbl' p) : tbl = tbl' := by
  apply Array.ext hsize
  intro i hi hi'
  apply BitVec.eq_of_getLsbD_eq
  intro j hj
  have hword : (i * w + j) / w = i := by
    rw [Nat.mul_comm, Nat.mul_add_div (by omega), Nat.div_eq_of_lt hj, Nat.add_zero]
  have hbit : (i * w + j) % w = j := by
    rw [Nat.mul_comm, Nat.mul_add_mod, Nat.mod_eq_of_lt hj]
  have hp := h (i * w + j)
  rw [member_eq_getElem (by rw [hword]; exact hi), member_eq_getElem (by rw [hword]; exact hi')] at hp
  simp only [hword, hbit] at hp
  exact hp

end Bitmap
