import Mathlib.Algebra.Group.Int.Defs
import Mathlib.Algebra.Group.Nat.Defs

/-!
# Flat byte memory

A byte-addressed memory with 64-bit addresses that wrap, little-endian loads
and stores of any number of bytes, and block fills.  Two ranges are told apart
by the wrapped distance of their start addresses, so no lemma needs an
assumption about the end of the address space.
-/

abbrev Addr := BitVec 64
abbrev Byte := BitVec 8

/-- The contents of every address. -/
abbrev Mem := Addr → Byte

namespace Mem

/-- The `n` bytes at `a`, the byte at `a` least significant. -/
def load (m : Mem) : (n : Nat) → Addr → BitVec (8 * n)
  | 0, _ => 0#0
  | n + 1, a => load m n (a + 1#64) ++ m a

/-- Overwrite the `n` bytes at `a` with those of `v`. -/
def store (m : Mem) (n : Nat) (a : Addr) (v : BitVec (8 * n)) : Mem := fun x =>
  if (x - a).toNat < n then v.extractLsb' (8 * (x - a).toNat) 8 else m x

/-- Overwrite the `len` bytes at `a` with `b`. -/
def fill (m : Mem) (a : Addr) (len : Nat) (b : Byte) : Mem := fun x =>
  if (x - a).toNat < len then b else m x

def load8 (m : Mem) (a : Addr) : BitVec 8 := m a
def load16 (m : Mem) (a : Addr) : BitVec 16 := m.load 2 a
def load32 (m : Mem) (a : Addr) : BitVec 32 := m.load 4 a
def load64 (m : Mem) (a : Addr) : BitVec 64 := m.load 8 a
def store32 (m : Mem) (a : Addr) (v : BitVec 32) : Mem := m.store 4 a v
def store64 (m : Mem) (a : Addr) (v : BitVec 64) : Mem := m.store 8 a v

/-! ## Loads read the bytes they cover -/

theorem load_congr {m m' : Mem} {n : Nat} :
    ∀ {a : Addr}, (∀ k, k < n → m (a + BitVec.ofNat 64 k) = m' (a + BitVec.ofNat 64 k)) →
      m.load n a = m'.load n a := by
  induction n with
  | zero => intro a _; rfl
  | succ n ih =>
    intro a h
    have h0 : m a = m' a := by simpa using h 0 (Nat.succ_pos n)
    have hrest : m.load n (a + 1#64) = m'.load n (a + 1#64) := by
      apply ih
      intro k hk
      have := h (k + 1) (by omega)
      rwa [Nat.add_comm k 1, BitVec.ofNat_add, ← BitVec.add_assoc] at this
    rw [load, load, h0, hrest]

theorem getLsbD_load (m : Mem) {n : Nat} :
    ∀ {a : Addr} {i : Nat}, i < 8 * n →
      (m.load n a).getLsbD i = (m (a + BitVec.ofNat 64 (i / 8))).getLsbD (i % 8) := by
  induction n with
  | zero => intro a i hi; omega
  | succ n ih =>
    intro a i hi
    rw [load, BitVec.getLsbD_append]
    by_cases hlow : i < 8
    · have hd : i / 8 = 0 := by omega
      have hm : i % 8 = i := by omega
      simp [hlow, hd, hm]
    · have hd : i / 8 = 1 + (i - 8) / 8 := by omega
      have hm : i % 8 = (i - 8) % 8 := by omega
      rw [ih (by omega), hd, hm, BitVec.ofNat_add, ← BitVec.add_assoc]
      simp [hlow]

/-- A word of eight bytes is one of four exactly when zeros follow it. -/
theorem load64_eq_setWidth_iff {m : Mem} {a : Addr} {w : BitVec 32} :
    m.load64 a = w.setWidth 64 ↔ m.load32 a = w ∧ m.load32 (a + 4#64) = 0#32 := by
  have hlow : ∀ i < 32, (m.load64 a).getLsbD i = (m.load32 a).getLsbD i := by
    intro i hi
    rw [load64, load32, getLsbD_load m (by omega), getLsbD_load m (by omega)]
  have hhigh : ∀ i < 32, (m.load64 a).getLsbD (32 + i) = (m.load32 (a + 4#64)).getLsbD i := by
    intro i hi
    rw [load64, load32, getLsbD_load m (by omega), getLsbD_load m (by omega),
      show (32 + i) / 8 = 4 + i / 8 by omega, show (32 + i) % 8 = i % 8 by omega,
      BitVec.ofNat_add, ← BitVec.add_assoc]
  have hwide : ∀ i, (w.setWidth 64).getLsbD i = w.getLsbD i := by
    intro i
    rw [BitVec.getLsbD_setWidth]
    by_cases hi : i < 64
    · rw [decide_eq_true hi, Bool.true_and]
    · rw [decide_eq_false hi, Bool.false_and, BitVec.getLsbD_of_ge w i (by omega)]
  constructor
  · intro h
    constructor
    · apply BitVec.eq_of_getLsbD_eq
      intro i hi
      rw [← hlow i hi, h, hwide]
    · apply BitVec.eq_of_getLsbD_eq
      intro i hi
      rw [← hhigh i hi, h, hwide, BitVec.getLsbD_of_ge w (32 + i) (by omega), BitVec.getLsbD_zero]
  · rintro ⟨rfl, h0⟩
    apply BitVec.eq_of_getLsbD_eq
    intro i hi
    rw [hwide]
    by_cases hi32 : i < 32
    · exact hlow i hi32
    · obtain ⟨j, rfl⟩ := Nat.exists_eq_add_of_le (Nat.le_of_not_lt hi32)
      rw [hhigh j (by omega), h0, BitVec.getLsbD_zero,
        BitVec.getLsbD_of_ge (m.load32 a) (32 + j) (by omega)]

/-- The wrapped distance from `a` to `a + k`. -/
theorem toNat_add_ofNat_sub (a : Addr) {k : Nat} (hk : k < 2 ^ 64) :
    (a + BitVec.ofNat 64 k - a).toNat = k := by
  rw [BitVec.add_comm, BitVec.add_sub_cancel, BitVec.toNat_ofNat, Nat.mod_eq_of_lt hk]

theorem load_store_same (m : Mem) {n : Nat} (a : Addr) (v : BitVec (8 * n)) (hn : n ≤ 2 ^ 64) :
    (m.store n a v).load n a = v := by
  apply BitVec.eq_of_getLsbD_eq
  intro i hi
  have hk : i / 8 < n := by omega
  rw [getLsbD_load _ hi, store, toNat_add_ofNat_sub a (by omega), if_pos hk,
    BitVec.getLsbD_extractLsb']
  have hmod : i % 8 < 8 := Nat.mod_lt _ (by simp)
  have hsum : 8 * (i / 8) + i % 8 = i := Nat.div_add_mod i 8
  simp [hmod, hsum]

/-! ## Frames -/

/-- The `n` bytes at `a` and the `k` bytes at `b` do not meet. -/
def Apart (a : Addr) (n : Nat) (b : Addr) (k : Nat) : Prop :=
  ∀ i, i < k → n ≤ (b + BitVec.ofNat 64 i - a).toNat

theorem load_store_apart {m : Mem} {n k : Nat} {a b : Addr} (v : BitVec (8 * n))
    (h : Apart a n b k) : (m.store n a v).load k b = m.load k b := by
  apply load_congr
  intro i hi
  rw [store, if_neg (Nat.not_lt.mpr (h i hi))]

theorem load_fill_apart {m : Mem} {n k : Nat} {a b : Addr} (c : Byte)
    (h : Apart a n b k) : (m.fill a n c).load k b = m.load k b := by
  apply load_congr
  intro i hi
  rw [fill, if_neg (Nat.not_lt.mpr (h i hi))]

theorem load_fill_zero_inside {m : Mem} {n k : Nat} {a b : Addr}
    (h : ∀ i, i < k → (b + BitVec.ofNat 64 i - a).toNat < n) :
    (m.fill a n 0#8).load k b = 0#(8 * k) := by
  apply BitVec.eq_of_getLsbD_eq
  intro i hi
  rw [getLsbD_load _ hi, fill, if_pos (h (i / 8) (by omega)), BitVec.getLsbD_zero,
    BitVec.getLsbD_zero]

/-- Ranges that end below one another, without wrapping, are apart. -/
theorem apart_of_toNat {a b : Addr} {n k : Nat} (ha : a.toNat + n ≤ 2 ^ 64)
    (hb : b.toNat + k ≤ 2 ^ 64) (h : a.toNat + n ≤ b.toNat ∨ b.toNat + k ≤ a.toNat) :
    Apart a n b k := by
  intro i hi
  have hai := a.isLt
  have hbi := b.isLt
  rw [BitVec.toNat_sub, BitVec.toNat_add, BitVec.toNat_ofNat]
  rw [Nat.mod_eq_of_lt (by omega : i < 2 ^ 64), Nat.mod_eq_of_lt (by omega : b.toNat + i < 2 ^ 64)]
  rcases h with h | h
  · rw [show 2 ^ 64 - a.toNat + (b.toNat + i) = (b.toNat + i - a.toNat) + 2 ^ 64 by omega,
      Nat.add_mod_right, Nat.mod_eq_of_lt (by omega)]
    omega
  · rw [Nat.mod_eq_of_lt (by omega)]
    omega

/-- Ranges at offsets from one address are apart as the offsets are, even if they wrap. -/
theorem apart_of_offsets (a : Addr) {x y n k : Nat} (hx : x + n ≤ 2 ^ 64) (hy : y + k ≤ 2 ^ 64)
    (h : x + n ≤ y ∨ y + k ≤ x) :
    Apart (a + BitVec.ofNat 64 x) n (a + BitVec.ofNat 64 y) k := by
  intro i hi
  rcases Nat.eq_zero_or_pos n with rfl | hn
  · exact Nat.zero_le _
  have hdiff : a + BitVec.ofNat 64 y + BitVec.ofNat 64 i - (a + BitVec.ofNat 64 x) =
      BitVec.ofNat 64 (y + i) - BitVec.ofNat 64 x := by
    rw [BitVec.ofNat_add]
    bv_omega
  rw [hdiff, BitVec.toNat_sub, BitVec.toNat_ofNat, BitVec.toNat_ofNat,
    Nat.mod_eq_of_lt (by omega : y + i < 2 ^ 64)]
  rcases h with h | h
  · rw [Nat.mod_eq_of_lt (by omega : x < 2 ^ 64),
      show 2 ^ 64 - x + (y + i) = (y + i - x) + 2 ^ 64 by omega, Nat.add_mod_right,
      Nat.mod_eq_of_lt (by omega)]
    omega
  · rw [Nat.mod_eq_of_lt (by omega : x < 2 ^ 64), Nat.mod_eq_of_lt (by omega)]
    omega

/-! ## Words -/

@[simp] theorem load64_store64 (m : Mem) (a : Addr) (v : BitVec 64) :
    (m.store64 a v).load64 a = v :=
  @load_store_same m 8 a v (by simp)

@[simp] theorem load32_store32 (m : Mem) (a : Addr) (v : BitVec 32) :
    (m.store32 a v).load32 a = v :=
  @load_store_same m 4 a v (by simp)

theorem load32_store32_apart {m : Mem} {a b : Addr} (v : BitVec 32) (h : Apart a 4 b 4) :
    (m.store32 a v).load32 b = m.load32 b :=
  @load_store_apart m 4 4 a b v h

theorem load64_store64_apart {m : Mem} {a b : Addr} (v : BitVec 64) (h : Apart a 8 b 8) :
    (m.store64 a v).load64 b = m.load64 b :=
  @load_store_apart m 8 8 a b v h

theorem load64_fill_apart {m : Mem} {a b : Addr} {n : Nat} (c : Byte) (h : Apart a n b 8) :
    (m.fill a n c).load64 b = m.load64 b :=
  @load_fill_apart m n 8 a b c h

/-! ## Strings of bytes -/

/-- The bytes from `a` on are those of the string. -/
def Holds (m : Mem) (a : Addr) (bs : List Byte) : Prop :=
  ∀ k (h : k < bs.length), m (a + BitVec.ofNat 64 k) = bs[k]

/-- The `n` bytes of a word, the first one least significant. -/
def wordBytes (n : Nat) (v : BitVec (8 * n)) : List Byte :=
  (List.range n).map fun k => v.extractLsb' (8 * k) 8

@[simp] theorem length_wordBytes {n : Nat} {v : BitVec (8 * n)} : (wordBytes n v).length = n := by
  rw [wordBytes, List.length_map, List.length_range]

theorem holds_append {m : Mem} {bs cs : List Byte} {a : Addr} :
    Holds m a (bs ++ cs) ↔ Holds m a bs ∧ Holds m (a + BitVec.ofNat 64 bs.length) cs := by
  constructor
  · intro h
    constructor
    · intro k hk
      rw [h k (by rw [List.length_append]; omega), List.getElem_append_left hk]
    · intro k hk
      rw [BitVec.add_assoc, ← BitVec.ofNat_add,
        h (bs.length + k) (by rw [List.length_append]; omega),
        List.getElem_append_right (Nat.le_add_right _ _)]
      congr 1
      exact Nat.add_sub_cancel_left _ _
  · rintro ⟨hbs, hcs⟩ k hk
    by_cases hlt : k < bs.length
    · rw [hbs k hlt, List.getElem_append_left hlt]
    · have hle := Nat.le_of_not_lt hlt
      have hk' : k - bs.length < cs.length := by
        rw [List.length_append] at hk
        omega
      have h := hcs (k - bs.length) hk'
      rw [BitVec.add_assoc, ← BitVec.ofNat_add, Nat.add_sub_cancel' hle] at h
      rw [h, List.getElem_append_right hle]

/-- A word is there where its bytes are. -/
theorem load_of_holds {m : Mem} {n : Nat} {v : BitVec (8 * n)} {a : Addr}
    (h : Holds m a (wordBytes n v)) : m.load n a = v := by
  apply BitVec.eq_of_getLsbD_eq
  intro i hi
  have hk : i / 8 < n := by omega
  have hsum : 8 * (i / 8) + i % 8 = i := Nat.div_add_mod i 8
  have hmod : i % 8 < 8 := Nat.mod_lt _ (by simp)
  rw [getLsbD_load m hi, h (i / 8) (by rwa [length_wordBytes])]
  simp only [wordBytes, List.getElem_map, List.getElem_range, BitVec.getLsbD_extractLsb',
    decide_eq_true hmod, Bool.true_and, hsum]

/-- Words back to back, each of them at its own place. -/
theorem load_of_holds_words {m : Mem} {n : Nat} {ws : List (BitVec (8 * n))} :
    ∀ {a : Addr}, Holds m a (ws.flatMap (wordBytes n)) → ∀ i (h : i < ws.length),
      m.load n (a + BitVec.ofNat 64 (n * i)) = ws[i] := by
  induction ws with
  | nil => exact fun _ i h => absurd h (Nat.not_lt_zero i)
  | cons w ws ih =>
    intro a h i hi
    obtain ⟨hw, hws⟩ := holds_append.mp h
    cases i with
    | zero => simpa using load_of_holds hw
    | succ i =>
      rw [length_wordBytes] at hws
      have hrest := ih hws i (Nat.lt_of_succ_lt_succ hi)
      rw [BitVec.add_assoc, ← BitVec.ofNat_add, Nat.add_comm] at hrest
      exact hrest

/-- A memory with the string at `a`. -/
def ofBytes (a : Addr) (bs : List Byte) : Mem := fun x => bs.getD (x - a).toNat 0#8

theorem holds_ofBytes (a : Addr) {bs : List Byte} (h : bs.length ≤ 2 ^ 64) :
    Holds (ofBytes a bs) a bs := by
  intro k hk
  unfold ofBytes
  rw [toNat_add_ofNat_sub a (by omega), List.getD_eq_getElem?_getD, List.getElem?_eq_getElem hk,
    Option.getD_some]

end Mem
