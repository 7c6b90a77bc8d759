import Mavmm.Lib.Memory
import Mavmm.Lib.Word

/-!
# Page walks of the AMD64 architecture

What the processor computes from tables in memory: the four-level walk of long
mode, with 1 GB, 2 MB and 4 KB pages, and the two-level walk of 32-bit paging
without physical address extension, with 4 MB and 4 KB pages.
-/

namespace Paging

/-- A physical address and the rights along the walk to it. -/
structure Translation where
  addr : BitVec 64
  writable : Bool
  user : Bool
deriving DecidableEq

def present {n : Nat} (e : BitVec n) : Bool := e.getLsbD 0
def writable {n : Nat} (e : BitVec n) : Bool := e.getLsbD 1
def user {n : Nat} (e : BitVec n) : Bool := e.getLsbD 2
def large {n : Nat} (e : BitVec n) : Bool := e.getLsbD 7

/-! ## Four-level walk -/

/-- Bits 51:12 of an entry. -/
def tableBase (e : BitVec 64) : Addr := e &&& 0xffffffffff000#64

theorem getLsbD_tableBase (e : BitVec 64) {i : Nat} (hi : i < 64) :
    (tableBase e).getLsbD i = (e.getLsbD i && decide (12 ≤ i ∧ i < 52)) := by
  have hmask : ∀ j, j < 64 → (0xffffffffff000#64).getLsbD j = decide (12 ≤ j ∧ j < 52) := by
    decide
  unfold tableBase
  rw [BitVec.getLsbD_and, hmask i hi]

/-- The entry of a table that serves `a`, selected by the 9 bits from `shift` on. -/
def longModeEntry (m : Mem) (table a : BitVec 64) (shift : Nat) : BitVec 64 :=
  m.load64 (table + (a >>> shift &&& 0x1ff#64) * 8#64)

/-- A page of `2 ^ k` bytes, based at the bits of `e` from `k` to 51. -/
def pageAddr (e a : BitVec 64) (k : Nat) : BitVec 64 :=
  BitVec.ofNat 64 (e.toNat % 2 ^ 52 / 2 ^ k * 2 ^ k + a.toNat % 2 ^ k)

def longModeWalk (m : Mem) (root a : BitVec 64) : Option Translation :=
  let pml4e := longModeEntry m (tableBase root) a 39
  -- the page size bit of a level 4 entry is reserved
  if ¬ present pml4e ∨ large pml4e then none
  else
    let pdpe := longModeEntry m (tableBase pml4e) a 30
    if ¬ present pdpe then none
    else if large pdpe then
      some ⟨pageAddr pdpe a 30, writable pml4e && writable pdpe, user pml4e && user pdpe⟩
    else
      let pde := longModeEntry m (tableBase pdpe) a 21
      if ¬ present pde then none
      else if large pde then
        some ⟨pageAddr pde a 21, writable pml4e && writable pdpe && writable pde,
          user pml4e && user pdpe && user pde⟩
      else
        let pte := longModeEntry m (tableBase pde) a 12
        if ¬ present pte then none
        else
          some ⟨pageAddr pte a 12, writable pml4e && writable pdpe && writable pde && writable pte,
            user pml4e && user pdpe && user pde && user pte⟩

/-! ## Two-level walk -/

/-- Bits 31:12 of a register or an entry. -/
def legacyBase (e : BitVec 32) : Addr := (e &&& 0xfffff000#32).setWidth 64

/-- The entry of a table that serves `a`, selected by the 10 bits from `shift` on. -/
def legacyEntry (m : Mem) (table a : BitVec 64) (shift : Nat) : BitVec 32 :=
  m.load32 (table + (a >>> shift &&& 0x3ff#64) * 4#64)

/-- The base of a 4 MB page: bits 31:22, and bits 20:13 for the address bits 39:32. -/
def legacyLargeBase (e : BitVec 32) : Addr :=
  BitVec.ofNat 64 (e.toNat / 2 ^ 13 % 2 ^ 8 * 2 ^ 32 + e.toNat / 2 ^ 22 * 2 ^ 22)

/-- The physical address of `a`, when every entry on the way is present. -/
def legacyWalk (m : Mem) (cr3 : BitVec 64) (pse : Bool) (a : BitVec 64) : Option (BitVec 64) :=
  let pde := legacyEntry m (legacyBase (cr3.setWidth 32)) a 22
  if ¬ present pde then none
  else if pse && large pde then some (legacyLargeBase pde + (a &&& 0x3fffff#64))
  else
    let pte := legacyEntry m (legacyBase pde) a 12
    if ¬ present pte then none
    else some (legacyBase pte + (a &&& 0xfff#64))

/-! ## Pages -/

section
variable {a : BitVec 64} {i : Nat}

/-- Inside one page the bits that select entries stay the same. -/
theorem shiftRight_add (h : a.toNat % 4096 + i < 4096) {s : Nat} (hs : 12 ≤ s) :
    (a + BitVec.ofNat 64 i) >>> s = a >>> s := by
  have hlt := a.isLt
  have hsum : (a + BitVec.ofNat 64 i).toNat = a.toNat + i := by
    rw [BitVec.toNat_add, BitVec.toNat_ofNat]
    omega
  have hpage : (a.toNat + i) / 2 ^ 12 = a.toNat / 2 ^ 12 := by omega
  obtain ⟨t, rfl⟩ := Nat.exists_eq_add_of_le hs
  apply BitVec.eq_of_toNat_eq
  rw [BitVec.toNat_ushiftRight, BitVec.toNat_ushiftRight, Nat.shiftRight_eq_div_pow,
    Nat.shiftRight_eq_div_pow, hsum, Nat.pow_add, ← Nat.div_div_eq_div_mul,
    ← Nat.div_div_eq_div_mul, hpage]

theorem offset_add (h : a.toNat % 4096 + i < 4096) {k : Nat} (hk : 12 ≤ k) (hk' : k < 64) :
    (a + BitVec.ofNat 64 i) &&& BitVec.ofNat 64 (2 ^ k - 1) =
      (a &&& BitVec.ofNat 64 (2 ^ k - 1)) + BitVec.ofNat 64 i := by
  have hlt := a.isLt
  have hsum : (a + BitVec.ofNat 64 i).toNat = a.toNat + i := by
    rw [BitVec.toNat_add, BitVec.toNat_ofNat]
    omega
  have hdvd : 4096 ∣ 2 ^ k := Nat.pow_dvd_pow 2 hk
  have hpow : 2 ^ k < 2 ^ 64 := Nat.pow_lt_pow_right (by simp) hk'
  have hmod : a.toNat % 2 ^ k + i < 2 ^ k := by
    have hlt := Nat.mod_lt a.toNat (Nat.two_pow_pos k)
    have hin : a.toNat % 2 ^ k % 4096 = a.toNat % 4096 := Nat.mod_mod_of_dvd _ hdvd
    obtain ⟨c, hc⟩ := hdvd
    rw [hc] at hlt ⊢
    rw [hc] at hin
    have hdiv := Nat.div_add_mod (a.toNat % (4096 * c)) 4096
    have hq : a.toNat % (4096 * c) / 4096 < c := Nat.div_lt_of_lt_mul hlt
    omega
  apply BitVec.eq_of_toNat_eq
  rw [Bits.toNat_and_lowMask _ k hk', hsum, BitVec.toNat_add, Bits.toNat_and_lowMask _ k hk',
    BitVec.toNat_ofNat, Nat.mod_eq_of_lt (by omega : i < 2 ^ 64),
    Nat.mod_eq_of_lt (by omega : a.toNat % 2 ^ k + i < 2 ^ 64), Nat.add_mod,
    Nat.mod_eq_of_lt (by omega : i < 2 ^ k), Nat.mod_eq_of_lt hmod]

/-- Addresses of one page go to one frame. -/
theorem legacyWalk_add (m : Mem) (cr3 : BitVec 64) (pse : Bool) (h : a.toNat % 4096 + i < 4096) :
    legacyWalk m cr3 pse (a + BitVec.ofNat 64 i) =
      (legacyWalk m cr3 pse a).map fun p => p + BitVec.ofNat 64 i := by
  have hentry : ∀ table s, 12 ≤ s →
      legacyEntry m table (a + BitVec.ofNat 64 i) s = legacyEntry m table a s := by
    intro table s hs
    rw [legacyEntry, legacyEntry, shiftRight_add h hs]
  have hsmall : (a + BitVec.ofNat 64 i) &&& 0xfff#64 = (a &&& 0xfff#64) + BitVec.ofNat 64 i :=
    @offset_add a i h 12 (by omega) (by omega)
  have hlarge : (a + BitVec.ofNat 64 i) &&& 0x3fffff#64 =
      (a &&& 0x3fffff#64) + BitVec.ofNat 64 i := @offset_add a i h 22 (by omega) (by omega)
  unfold legacyWalk
  simp only [hentry _ 22 (by omega), hentry _ 12 (by omega), hsmall, hlarge]
  split
  · rfl
  · split
    · simp [BitVec.add_assoc]
    · split
      · rfl
      · simp [BitVec.add_assoc]

end

end Paging
