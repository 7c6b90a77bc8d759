import Mavmm.Lib.Memory

/-!
# Copying blocks of memory

`moved` is a copy whose source is read before anything is written.  A loop that
copies unit by unit, from the low end or from the high end, writes to its own
source where the two blocks overlap; it is still that copy when the part it has
yet to read is not among what it has written.
-/

namespace Mem

/-- The memory after the `n` bytes at `src` were put at `dst`, all at once. -/
def moved (m : Mem) (dst src : Addr) (n : Nat) : Mem := fun x =>
  if (x - dst).toNat < n then m (src + (x - dst)) else m x

/-- A loop from the low end: `n` units of `k` bytes. -/
def copyUp (k : Nat) : (n : Nat) → (dst src : Addr) → Mem → Mem
  | 0, _, _, m => m
  | n + 1, dst, src, m =>
    copyUp k n (dst + BitVec.ofNat 64 k) (src + BitVec.ofNat 64 k) (m.store k dst (m.load k src))

/-- A loop from the high end: the `n` bytes below `dst` and `src`. -/
def copyDown : (n : Nat) → (dst src : Addr) → Mem → Mem
  | 0, _, _, m => m
  | n + 1, dst, src, m =>
    copyDown n (dst - 1#64) (src - 1#64) (m.store 1 (dst - 1#64) (m.load 1 (src - 1#64)))

section
variable {m : Mem} {dst src x : Addr} {a b k n : Nat}

@[simp] theorem moved_zero : m.moved dst src 0 = m := by
  funext x
  rw [moved, if_neg (Nat.not_lt_zero _)]

theorem moved_inside (h : (x - dst).toNat < n) : m.moved dst src n x = m (src + (x - dst)) :=
  if_pos h

theorem moved_outside (h : n ≤ (x - dst).toNat) : m.moved dst src n x = m x :=
  if_neg (Nat.not_lt.mpr h)

@[simp] theorem moved_self : m.moved dst dst n = m := by
  funext x
  unfold moved
  rw [BitVec.add_comm, BitVec.sub_add_cancel, ite_self]

/-- One unit is read before it is written. -/
theorem store_load_eq_moved : m.store k dst (m.load k src) = m.moved dst src k := by
  funext x
  unfold store moved
  by_cases hx : (x - dst).toNat < k
  · rw [if_pos hx, if_pos hx]
    apply BitVec.eq_of_getLsbD_eq
    intro i hi
    rw [BitVec.getLsbD_extractLsb', decide_eq_true hi, Bool.true_and, getLsbD_load m (by omega),
      show (8 * (x - dst).toNat + i) / 8 = (x - dst).toNat by omega,
      show (8 * (x - dst).toNat + i) % 8 = i by omega, BitVec.ofNat_toNat, BitVec.setWidth_eq]
  · rw [if_neg hx, if_neg hx]

/-! ## Adjacent blocks -/

/-- The distance from the end of the first of two adjacent blocks. -/
theorem sub_add_ofNat_toNat (h : a ≤ (x - dst).toNat) :
    (x - (dst + BitVec.ofNat 64 a)).toNat = (x - dst).toNat - a := by
  have hlt := (x - dst).isLt
  have ha : (BitVec.ofNat 64 a).toNat = a := by
    rw [BitVec.toNat_ofNat, Nat.mod_eq_of_lt (by omega)]
  rw [← BitVec.sub_sub, BitVec.toNat_sub_of_le, ha]
  rw [BitVec.le_def, ha]
  exact h

theorem add_sub_add (x dst src d : Addr) : src + d + (x - (dst + d)) = src + (x - dst) := by
  rw [← BitVec.sub_sub, BitVec.add_assoc, BitVec.add_comm d, BitVec.sub_add_cancel]

/-- A byte that precedes the second of two adjacent blocks. -/
theorem le_sub_add_toNat (hlt : (x - dst).toNat < a) (hle : a + b ≤ 2 ^ 64) :
    b ≤ (x - (dst + BitVec.ofNat 64 a)).toNat := by
  have ha : (BitVec.ofNat 64 a).toNat = a % 2 ^ 64 := BitVec.toNat_ofNat a 64
  have hmod : a = 2 ^ 64 ∨ a < 2 ^ 64 := by omega
  rw [← BitVec.sub_sub, BitVec.toNat_sub, ha]
  rcases hmod with hmod | hmod
  · omega
  · rw [Nat.mod_eq_of_lt hmod, Nat.mod_eq_of_lt (by omega)]
    omega

/-- The low block first: what is read of the rest was not written. -/
theorem moved_then_high (hle : a + b ≤ 2 ^ 64)
    (h : ∀ i < b, a ≤ (src + BitVec.ofNat 64 (a + i) - dst).toNat) :
    (m.moved dst src a).moved (dst + BitVec.ofNat 64 a) (src + BitVec.ofNat 64 a) b =
      m.moved dst src (a + b) := by
  funext x
  by_cases hlow : (x - dst).toNat < a
  · rw [moved_outside (le_sub_add_toNat hlow hle), moved_inside hlow, moved_inside (by omega)]
  have hdist := @sub_add_ofNat_toNat dst x a (Nat.le_of_not_lt hlow)
  by_cases hhigh : (x - dst).toNat < a + b
  · rw [moved_inside (by omega), add_sub_add, moved_inside hhigh]
    refine moved_outside ?_
    have hread := h ((x - dst).toNat - a) (by omega)
    rwa [Nat.add_sub_cancel' (Nat.le_of_not_lt hlow), BitVec.ofNat_toNat,
      BitVec.setWidth_eq] at hread
  · rw [moved_outside (by omega), moved_outside (by omega), moved_outside (by omega)]

/-- The high block first. -/
theorem moved_then_low
    (h : ∀ i < a, b ≤ (src + BitVec.ofNat 64 i - (dst + BitVec.ofNat 64 a)).toNat) :
    (m.moved (dst + BitVec.ofNat 64 a) (src + BitVec.ofNat 64 a) b).moved dst src a =
      m.moved dst src (a + b) := by
  funext x
  by_cases hlow : (x - dst).toNat < a
  · rw [moved_inside hlow, @moved_inside m dst src x (a + b) (by omega)]
    refine moved_outside ?_
    have hread := h (x - dst).toNat hlow
    rwa [BitVec.ofNat_toNat, BitVec.setWidth_eq] at hread
  have hdist := @sub_add_ofNat_toNat dst x a (Nat.le_of_not_lt hlow)
  rw [moved_outside (Nat.le_of_not_lt hlow)]
  by_cases hhigh : (x - dst).toNat < a + b
  · rw [moved_inside (by omega), add_sub_add, moved_inside hhigh]
  · rw [moved_outside (by omega), moved_outside (by omega)]

/-! ## Loops -/

/-- The destination does not start inside the source, but for its first byte. -/
def UpSafe (dst src : Addr) (n : Nat) : Prop := dst = src ∨ n ≤ (dst - src).toNat

/-- The source does not start inside the destination, but for its first byte. -/
def DownSafe (dst src : Addr) (n : Nat) : Prop := dst = src ∨ n ≤ (src - dst).toNat

theorem UpSafe.mono (h : UpSafe dst src n) (hle : k ≤ n) : UpSafe dst src k :=
  h.imp_right fun h => Nat.le_trans hle h

theorem UpSafe.shift (h : UpSafe dst src n) (d : Addr) : UpSafe (dst + d) (src + d) n := by
  rcases h with rfl | h
  · exact Or.inl rfl
  · right
    rwa [BitVec.add_comm src d, ← BitVec.sub_sub, BitVec.add_sub_cancel]

/-- What a loop from the low end has yet to read was not written. -/
theorem UpSafe.unread (h : UpSafe dst src n) (hne : dst ≠ src) (hlt : a + k < n)
    (hle : n ≤ 2 ^ 64) : a ≤ (src + BitVec.ofNat 64 (a + k) - dst).toNat := by
  have hdist := h.resolve_left hne
  have hd := (dst - src).isLt
  have heq : src + BitVec.ofNat 64 (a + k) - dst = BitVec.ofNat 64 (a + k) - (dst - src) := by
    have hdst : dst = src + (dst - src) := by rw [BitVec.add_comm, BitVec.sub_add_cancel]
    conv => lhs; rw [hdst]
    rw [← BitVec.sub_sub, BitVec.add_comm src, BitVec.add_sub_cancel]
  rw [heq, BitVec.toNat_sub, BitVec.toNat_ofNat, Nat.mod_eq_of_lt (by omega : a + k < 2 ^ 64)]
  omega

/-- What a loop from the high end has yet to read is not the byte that it wrote. -/
theorem DownSafe.unread (h : DownSafe dst src (n + 1)) (hne : dst ≠ src) (hlt : k < n)
    (hle : n + 1 ≤ 2 ^ 64) :
    1 ≤ (src + BitVec.ofNat 64 k - (dst + BitVec.ofNat 64 n)).toNat := by
  have hdist := h.resolve_left hne
  have hd := (src - dst).isLt
  have heq : src + BitVec.ofNat 64 k - (dst + BitVec.ofNat 64 n) =
      src - dst + BitVec.ofNat 64 k - BitVec.ofNat 64 n := by
    rw [← BitVec.sub_sub, BitVec.sub_eq_add_neg _ dst, BitVec.sub_eq_add_neg src dst,
      BitVec.add_assoc, BitVec.add_comm (BitVec.ofNat 64 k), ← BitVec.add_assoc]
  rw [heq, BitVec.toNat_sub, BitVec.toNat_add, BitVec.toNat_ofNat, BitVec.toNat_ofNat,
    Nat.mod_eq_of_lt (by omega : k < 2 ^ 64), Nat.mod_eq_of_lt (by omega : n < 2 ^ 64)]
  omega

/-- The low block of a safe copy, then the rest. -/
theorem UpSafe.moved_moved (h : UpSafe dst src (a + b)) (hle : a + b ≤ 2 ^ 64) :
    (m.moved dst src a).moved (dst + BitVec.ofNat 64 a) (src + BitVec.ofNat 64 a) b =
      m.moved dst src (a + b) := by
  by_cases heq : dst = src
  · subst heq
    rw [moved_self, moved_self, moved_self]
  · exact moved_then_high hle fun i hi => h.unread heq (by omega) hle

theorem copyUp_eq_moved {n : Nat} : ∀ {dst src : Addr} {m : Mem}, k * n ≤ 2 ^ 64 →
    UpSafe dst src (k * n) → copyUp k n dst src m = m.moved dst src (k * n) := by
  induction n with
  | zero =>
    intro dst src m _ _
    rw [Nat.mul_zero, moved_zero]
    rfl
  | succ n ih =>
    intro dst src m hle h
    have hsize : k * (n + 1) = k + k * n := by rw [Nat.mul_succ, Nat.add_comm]
    rw [hsize] at h hle ⊢
    rw [copyUp, store_load_eq_moved, ih (by omega) ((h.shift _).mono (by omega)),
      h.moved_moved hle]

theorem copyDown_eq_moved {n : Nat} : ∀ {m : Mem}, n ≤ 2 ^ 64 → DownSafe dst src n →
    copyDown n (dst + BitVec.ofNat 64 n) (src + BitVec.ofNat 64 n) m = m.moved dst src n := by
  induction n with
  | zero =>
    intro m _ _
    rw [moved_zero]
    rfl
  | succ n ih =>
    intro m hle h
    have hprev : ∀ p : Addr, p + BitVec.ofNat 64 (n + 1) - 1#64 = p + BitVec.ofNat 64 n := by
      intro p
      rw [BitVec.ofNat_add, ← BitVec.add_assoc]
      exact BitVec.add_sub_cancel _ _
    rw [copyDown, hprev, hprev, store_load_eq_moved,
      ih (by omega) (h.imp_right fun h => Nat.le_of_succ_le h)]
    by_cases heq : dst = src
    · subst heq
      rw [moved_self, moved_self, moved_self]
    · exact moved_then_low fun i hi => h.unread heq hi hle

end

end Mem
