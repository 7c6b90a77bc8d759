import Mavmm.Lib.Memory

/-!
# Strings of bytes

Bytes numbered from 0, as a buffer or a block of a device has them, with
little-endian words of any size at any offset.
-/

namespace Bytes

/-- The `n` bytes from `off` on, the first one least significant. -/
def word (b : Nat → Byte) : (n off : Nat) → BitVec (8 * n)
  | 0, _ => 0#0
  | n + 1, off => word b n (off + 1) ++ b off

/-- Overwrite the byte at `off`. -/
def put (b : Nat → Byte) (off : Nat) (v : Byte) : Nat → Byte := fun k => if k = off then v else b k

/-- Overwrite the `n` bytes from `off` on with those of `v`. -/
def putWord (b : Nat → Byte) (n off : Nat) (v : BitVec (8 * n)) : Nat → Byte := fun k =>
  if off ≤ k ∧ k < off + n then v.extractLsb' (8 * (k - off)) 8 else b k

section
variable {b b' : Nat → Byte} {n off off' : Nat}

@[simp] theorem put_self {v : Byte} : put b off v off = v := if_pos rfl

theorem put_ne {v : Byte} {k : Nat} (h : k ≠ off) : put b off v k = b k := if_neg h

theorem getLsbD_word : ∀ {off i : Nat}, i < 8 * n →
    (word b n off).getLsbD i = (b (off + i / 8)).getLsbD (i % 8) := by
  induction n with
  | zero => intro off i hi; omega
  | succ n ih =>
    intro off i hi
    rw [word, BitVec.getLsbD_append]
    by_cases hlow : i < 8
    · have hdiv : i / 8 = 0 := by omega
      have hmod : i % 8 = i := by omega
      simp [hlow, hdiv, hmod]
    · have hdiv : off + 1 + (i - 8) / 8 = off + i / 8 := by omega
      have hmod : (i - 8) % 8 = i % 8 := by omega
      rw [ih (by omega), hdiv, hmod]
      simp [hlow]

theorem word_one : word b 1 off = b off := by
  apply BitVec.eq_of_getLsbD_eq
  intro i hi
  have hi : i < 8 := hi
  have hword := @getLsbD_word b 1 off i hi
  rw [Nat.div_eq_of_lt hi, Nat.mod_eq_of_lt hi] at hword
  exact hword

/-- A word determines its bytes. -/
theorem word_inj (h : word b n off = word b' n off') : ∀ k < n, b (off + k) = b' (off' + k) := by
  intro k hk
  apply BitVec.eq_of_getLsbD_eq
  intro i hi
  have hbit := congrArg (fun w => w.getLsbD (8 * k + i)) h
  have hdiv : (8 * k + i) / 8 = k := by omega
  have hmod : (8 * k + i) % 8 = i := by omega
  simpa only [getLsbD_word (show 8 * k + i < 8 * n by omega), hdiv, hmod] using hbit

/-- Equal bytes make equal words. -/
theorem word_congr (h : ∀ k < n, b (off + k) = b' (off' + k)) : word b n off = word b' n off' := by
  apply BitVec.eq_of_getLsbD_eq
  intro i hi
  rw [getLsbD_word hi, getLsbD_word hi, h (i / 8) (by omega)]

theorem putWord_outside {v : BitVec (8 * n)} {k : Nat} (h : ¬ (off ≤ k ∧ k < off + n)) :
    putWord b n off v k = b k := if_neg h

/-- Words at two offsets agree in every string of bytes only if the offsets are the same. -/
theorem forall_word_eq_iff (hn : 0 < n) : (∀ b, word b n off = word b n off') ↔ off = off' := by
  constructor
  · intro h
    by_cases hne : off' = off
    · exact hne.symm
    · have hfirst := word_inj (h (put (fun _ => 0#8) off 1#8)) 0 hn
      rw [Nat.add_zero, Nat.add_zero, put_self, put_ne hne] at hfirst
      exact absurd hfirst (by simp)
  · rintro rfl b
    rfl

theorem word_putWord {v : BitVec (8 * n)} : word (putWord b n off v) n off = v := by
  apply BitVec.eq_of_getLsbD_eq
  intro i hi
  have hin : off ≤ off + i / 8 ∧ off + i / 8 < off + n := by omega
  have hsum : 8 * (off + i / 8 - off) + i % 8 = i := by omega
  have hmod : i % 8 < 8 := Nat.mod_lt _ (by simp)
  rw [getLsbD_word hi, putWord, if_pos hin, BitVec.getLsbD_extractLsb', hsum, decide_eq_true hmod,
    Bool.true_and]

/-- Writing the word that is there changes nothing. -/
theorem putWord_word : putWord b n off (word b n off) = b := by
  funext k
  unfold putWord
  split
  · next h =>
    apply BitVec.eq_of_getLsbD_eq
    intro i hi
    have hdiv : off + (8 * (k - off) + i) / 8 = k := by omega
    have hmod : (8 * (k - off) + i) % 8 = i := by omega
    rw [BitVec.getLsbD_extractLsb', decide_eq_true hi, Bool.true_and, getLsbD_word (by omega),
      hdiv, hmod]
  · rfl

end

/-! ## Strings in buffers -/

/-- The string in a buffer of `n` bytes that holds `text` and, if there is room, its end. -/
theorem takeWhile_buffer {text : List Byte} (htext : ∀ c ∈ text, c ≠ 0#8) {n : Nat}
    {f : Nat → Byte} (hin : ∀ k < n, k < text.length → some (f k) = text[k]?)
    (hend : text.length < n → f text.length = 0#8) :
    ((List.range n).map f).takeWhile (fun c => c ≠ 0#8) = text.take n := by
  have hfront : ∀ t, t ≤ n → t ≤ text.length → (List.range t).map f = text.take t := by
    intro t hn ht
    apply List.ext_getElem?
    intro k
    rw [List.getElem?_map, List.getElem?_take]
    by_cases hk : k < t
    · rw [List.getElem?_range hk, if_pos hk, ← hin k (by omega) (by omega)]
      rfl
    · rw [if_neg hk, List.getElem?_eq_none (by rw [List.length_range]; omega)]
      rfl
  have hall : ∀ t, ∀ c ∈ text.take t, decide (c ≠ 0#8) = true := fun t c hc =>
    decide_eq_true (htext c (List.mem_of_mem_take hc))
  by_cases hlt : text.length < n
  · obtain ⟨r, rfl⟩ : ∃ r, n = text.length + (r + 1) := ⟨n - text.length - 1, by omega⟩
    rw [List.range_add, List.map_append, hfront text.length (by omega) (Nat.le_refl _), List.range_succ_eq_map,
      List.map_cons, List.map_cons, List.takeWhile_append_of_pos (hall _),
      List.takeWhile_cons_of_neg (by simp [hend hlt]), List.append_nil,
      List.take_of_length_le (Nat.le_refl _), List.take_of_length_le (by omega)]
  · have hwhole := @List.takeWhile_append_of_pos _ (fun c => decide (c ≠ 0#8)) (text.take n) []
      (hall n)
    rw [List.append_nil, List.takeWhile_nil, List.append_nil] at hwhole
    rw [hfront n (Nat.le_refl n) (by omega), hwhole]

end Bytes
