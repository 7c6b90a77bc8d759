import Mavmm.Lib.Memory
import Mavmm.Lib.Word

/-!
# Bit strings in memory

An address as the start of a string of bits: bit `n` is bit `n % 8` of the byte
`n / 8` further on.  `btr` is the instruction that clears a bit; it reads and
writes the 32-bit word around the bit, which need not be the one at the address.
-/

namespace Mem

/-- Bit `n` from the address `a` on. -/
def bitAt (m : Mem) (a : Addr) (n : Nat) : Bool :=
  (m (a + BitVec.ofNat 64 (n / 8))).getLsbD (n % 8)

/-- `btrl` on the operand at `a`, with the number of the bit in a register: the number is signed,
and what it has above its five lowest bits selects the word. -/
def btr (m : Mem) (a : Addr) (nr : BitVec 32) : Mem :=
  let word := a + (nr.sshiftRight 5).signExtend 64 <<< 2
  m.store32 word (m.load32 word &&& ~~~(1#32 <<< (nr &&& 0x1f#32).toNat))

variable {m : Mem} {a : Addr} {nr : BitVec 32} {n : Nat}

/-- A string that starts some bytes further on. -/
theorem bitAt_offset (m : Mem) (a : Addr) (q n : Nat) :
    bitAt m (a + BitVec.ofNat 64 q) n = bitAt m a (8 * q + n) := by
  unfold bitAt
  rw [Nat.mul_add_div (by simp), Nat.mul_add_mod, BitVec.ofNat_add, BitVec.add_assoc]

/-- For a number that is not negative, the word that has the bit. -/
theorem btr_word (hnr : nr.toNat < 2 ^ 31) :
    a + (nr.sshiftRight 5).signExtend 64 <<< 2 = a + BitVec.ofNat 64 (4 * (nr.toNat / 32)) := by
  have hmsb : nr.msb = false := by
    rw [BitVec.msb_eq_decide]
    exact decide_eq_false (by omega)
  have hshift : (nr >>> 5).msb = false := by
    rw [BitVec.msb_eq_decide, BitVec.toNat_ushiftRight, Nat.shiftRight_eq_div_pow]
    exact decide_eq_false (by omega)
  rw [BitVec.sshiftRight_eq_of_msb_false hmsb, BitVec.signExtend_eq_setWidth_of_msb_false hshift]
  congr 1
  apply BitVec.eq_of_toNat_eq
  rw [BitVec.toNat_shiftLeft, BitVec.toNat_setWidth, BitVec.toNat_ushiftRight, BitVec.toNat_ofNat,
    Nat.shiftRight_eq_div_pow, Nat.shiftLeft_eq]
  omega

theorem toNat_and_31 (nr : BitVec 32) : (nr &&& 0x1f#32).toNat = nr.toNat % 32 :=
  Bits.toNat_and_lowMask nr 5 (by simp)

/-- The instruction leaves the bytes around the word alone. -/
theorem btr_outside (hnr : nr.toNat < 2 ^ 31) {x : Addr}
    (hx : 4 ≤ (x - (a + BitVec.ofNat 64 (4 * (nr.toNat / 32)))).toNat) : m.btr a nr x = m x := by
  unfold btr
  rw [btr_word hnr]
  exact if_neg (Nat.not_lt.mpr hx)

/-- In the word, the instruction clears one bit. -/
theorem btr_inside (hnr : nr.toNat < 2 ^ 31) {d : Nat} (hd : d < 4) {i : Nat} (hi : i < 8) :
    (m.btr a nr (a + BitVec.ofNat 64 (4 * (nr.toNat / 32) + d))).getLsbD i =
      ((m (a + BitVec.ofNat 64 (4 * (nr.toNat / 32) + d))).getLsbD i &&
        decide (8 * d + i ≠ nr.toNat % 32)) := by
  unfold btr
  rw [btr_word hnr, BitVec.ofNat_add, ← BitVec.add_assoc]
  generalize a + BitVec.ofNat 64 (4 * (nr.toNat / 32)) = word
  have hsub : (word + BitVec.ofNat 64 d - word).toNat = d := toNat_add_ofNat_sub word (by omega)
  have hbyte : (8 * d + i) / 8 = d := by omega
  have hbit : (8 * d + i) % 8 = i := by omega
  unfold store32 store
  rw [hsub, if_pos hd, BitVec.getLsbD_extractLsb', decide_eq_true hi, Bool.true_and,
    BitVec.getLsbD_and, BitVec.getLsbD_not, toNat_and_31,
    Bits.getLsbD_one_shiftLeft (Nat.mod_lt _ (by simp))]
  have hload : (m.load32 word).getLsbD (8 * d + i) =
      (m (word + BitVec.ofNat 64 d)).getLsbD i := by
    have h := getLsbD_load m (n := 4) (a := word) (i := 8 * d + i) (by omega)
    rwa [hbyte, hbit] at h
  rw [hload, decide_eq_true (by omega : 8 * d + i < 32), Bool.true_and, ← decide_not]

/-- Of the bits from the address on, the instruction clears one. -/
theorem bitAt_btr (hnr : nr.toNat < 2 ^ 31) (hn : n < 2 ^ 32) :
    bitAt (m.btr a nr) a n = (bitAt m a n && decide (n ≠ nr.toNat)) := by
  unfold bitAt
  by_cases hword : n / 32 = nr.toNat / 32
  · have hbyte : n / 8 = 4 * (nr.toNat / 32) + n % 32 / 8 := by omega
    rw [hbyte, btr_inside hnr (by omega) (Nat.mod_lt _ (by simp))]
    congr 1
    exact decide_eq_decide.mpr (by omega)
  · have hne : n ≠ nr.toNat := fun h => hword (by rw [h])
    have hapart := apart_of_offsets a (x := 4 * (nr.toNat / 32)) (y := n / 8) (n := 4) (k := 1)
      (by omega) (by omega) (by omega) 0 (by simp)
    rw [BitVec.add_zero] at hapart
    rw [btr_outside hnr hapart, decide_eq_true hne, Bool.and_true]

end Mem
