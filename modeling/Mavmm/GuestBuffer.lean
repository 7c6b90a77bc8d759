import Mavmm.GuestWalk
import Mavmm.Vm

/-!
# The guest's view of its memory

What a program of the guest finds at an address: the segment of its data gives
the linear address, of 32 bits, and the processor's walk gives the place of
every single byte.  A buffer has contents when every page it touches is
present.

The bytes behind the translation of the first one are those of the buffer when
every further page of it shows the same bytes as the frames that follow
(`buffer_eq_some_iff`).
-/

namespace Mavmm

open Paging

/-! ## Bytes -/

/-- Where the processor finds a linear address, if its page is present.  Physical address
extension, which the monitor does not support, is left out. -/
def Machine.physical (m : Machine) (linear : BitVec 32) : Option Addr :=
  if m.vmcb.cr0 &&& x86Cr0Pe = 0#64 ∨ m.vmcb.cr0 &&& x86Cr0Pg = 0#64 then
    some (linear.setWidth 64)
  else if m.vmcb.cr4 &&& x86Cr4Pae ≠ 0#64 then none
  else
    legacyWalk m.mem m.vmcb.cr3 (decide (m.vmcb.cr4 &&& x86Cr4Pse ≠ 0#64)) (linear.setWidth 64)

def Machine.guestByte (m : Machine) (linear : BitVec 32) : Option Byte :=
  (m.physical linear).map m.mem

/-- The `n` bytes from a linear address on as a number. -/
def Machine.guestLoad (m : Machine) : (n : Nat) → BitVec 32 → Option (BitVec (8 * n))
  | 0, _ => some 0#0
  | n + 1, linear => do
    let b ← m.guestByte linear
    let rest ← m.guestLoad n (linear + 1#32)
    return rest ++ b

/-! ## The data segment -/

/-- The linear address of an offset in the data segment. -/
def Machine.linearDs (m : Machine) (offset : BitVec 32) : Option (BitVec 32) :=
  match glogic2Glinear m.space m.vmcb.dsSel (offset.setWidth 64) with
  | .ok linear => some (linear.setWidth 32)
  | .error _ => none

def Machine.bufferByte (m : Machine) (pointer : BitVec 32) (i : Nat) : Option Byte := do
  m.guestByte ((← m.linearDs pointer) + BitVec.ofNat 32 i)

/-- The `size` bytes of the guest at a pointer. -/
def Machine.buffer (m : Machine) (pointer : BitVec 32) (size : Nat) : Option (List Byte) :=
  (List.range size).mapM (m.bufferByte pointer)

/-- The word of the guest at a pointer. -/
def Machine.guestWord (m : Machine) (pointer : BitVec 32) : Option (BitVec 32) := do
  m.guestLoad 4 (← m.linearDs pointer)

/-! ## Pages -/

section
variable {m : Machine} {linear : BitVec 32} {p : Addr} {k : Nat}

theorem physical_add {i : Nat} (h : linear.toNat % 4096 + i < 4096) :
    m.physical (linear + BitVec.ofNat 32 i) =
      (m.physical linear).map fun p => p + BitVec.ofNat 64 i := by
  have hlt := linear.isLt
  have hwide : (linear + BitVec.ofNat 32 i).setWidth 64 =
      linear.setWidth 64 + BitVec.ofNat 64 i := by
    apply BitVec.eq_of_toNat_eq
    rw [BitVec.toNat_setWidth, BitVec.toNat_add, BitVec.toNat_add, BitVec.toNat_ofNat,
      BitVec.toNat_ofNat, BitVec.toNat_setWidth]
    omega
  have hpage : (linear.setWidth 64).toNat % 4096 + i < 4096 := by
    rw [BitVec.toNat_setWidth]
    omega
  unfold Machine.physical
  rw [hwide, legacyWalk_add _ _ _ hpage]
  split
  · rfl
  · split
    · rfl
    · rfl

/-- Every page the buffer touches is present, and its frame shows what lies behind `p` at the
same distance.  Frames that follow one another do. -/
def InFrames (m : Machine) (linear : BitVec 32) (p : Addr) (k : Nat) : Prop :=
  ∀ i < k, (i = 0 ∨ (linear.toNat + i) % 4096 = 0) →
    ∃ q, m.physical (linear + BitVec.ofNat 32 i) = some q ∧
      ∀ j, i + j < k → (linear.toNat + i) % 4096 + j < 4096 →
        m.mem (q + BitVec.ofNat 64 j) = m.mem (p + BitVec.ofNat 64 (i + j))

theorem inFrames_iff :
    InFrames m linear p k ↔
      ∀ i < k, m.guestByte (linear + BitVec.ofNat 32 i) =
        some (m.mem (p + BitVec.ofNat 64 i)) := by
  have hpage : ∀ i, (linear + BitVec.ofNat 32 i).toNat % 4096 = (linear.toNat + i) % 4096 := by
    intro i
    rw [BitVec.toNat_add, BitVec.toNat_ofNat]
    omega
  have hstep : ∀ i j, linear + BitVec.ofNat 32 (i + j) =
      linear + BitVec.ofNat 32 i + BitVec.ofNat 32 j := by
    intro i j
    rw [BitVec.ofNat_add, BitVec.add_assoc]
  constructor
  · intro h i hi
    -- the first byte of the buffer on the page of byte `i`
    obtain ⟨start, j, rfl, hstart, hj⟩ : ∃ start j, i = start + j ∧
        (start = 0 ∨ (linear.toNat + start) % 4096 = 0) ∧
        (linear.toNat + start) % 4096 + j < 4096 := by
      by_cases hfirst : i ≤ (linear.toNat + i) % 4096
      · exact ⟨0, i, by omega, Or.inl rfl, by omega⟩
      · exact ⟨i - (linear.toNat + i) % 4096, (linear.toNat + i) % 4096, by omega,
          Or.inr (by omega), by omega⟩
    obtain ⟨q, hq, hbytes⟩ := h start (by omega) hstart
    unfold Machine.guestByte
    rw [hstep, physical_add (by rw [hpage]; exact hj), hq, ← hbytes j hi hj]
    rfl
  · intro h i hi _
    obtain ⟨q, hq, -⟩ := Option.map_eq_some_iff.mp (h i hi)
    refine ⟨q, hq, fun j hj hin => ?_⟩
    have hbyte := h (i + j) hj
    unfold Machine.guestByte at hbyte
    rw [hstep, physical_add (by rw [hpage]; exact hin), hq] at hbyte
    exact Option.some.inj hbyte

/-! ## Contents -/

theorem mapM_eq_some_iff {α β : Type} {f : α → Option β} (l : List α) :
    ∀ {xs : List β}, l.mapM f = some xs ↔ l.map f = xs.map some := by
  induction l with
  | nil =>
    intro xs
    cases xs <;> simp
  | cons a l ih =>
    intro xs
    rw [List.mapM_cons, List.map_cons]
    cases xs with
    | nil => simp [Option.bind_eq_some_iff]
    | cons x xs => simp [ih, Option.bind_eq_some_iff]

/-- The `k` bytes at `p` are those of the buffer at a pointer of the guest. -/
def BufferAt (m : Machine) (pointer : BitVec 32) (p : Addr) (k : Nat) : Prop :=
  k = 0 ∨ ∃ linear, m.linearDs pointer = some linear ∧ InFrames m linear p k

theorem bufferAt_iff {pointer : BitVec 32} :
    BufferAt m pointer p k ↔
      ∀ i < k, m.bufferByte pointer i = some (m.mem (p + BitVec.ofNat 64 i)) := by
  unfold BufferAt
  cases hlinear : m.linearDs pointer with
  | none =>
    constructor
    · rintro (rfl | ⟨_, h, -⟩)
      · exact fun i hi => absurd hi (Nat.not_lt_zero i)
      · cases h
    · intro h
      refine Or.inl (Nat.eq_zero_of_not_pos fun hk => ?_)
      have hbyte := h 0 hk
      unfold Machine.bufferByte at hbyte
      rw [hlinear] at hbyte
      cases hbyte
  | some linear =>
    have hbyte : ∀ i, m.bufferByte pointer i = m.guestByte (linear + BitVec.ofNat 32 i) := by
      intro i
      unfold Machine.bufferByte
      rw [hlinear]
      rfl
    simp only [hbyte, ← inFrames_iff]
    constructor
    · rintro (rfl | ⟨_, h, hframes⟩)
      · exact fun i hi => absurd hi (Nat.not_lt_zero i)
      · cases h
        exact hframes
    · exact fun h => Or.inr ⟨linear, rfl, h⟩

theorem buffer_eq_some_iff {pointer : BitVec 32} {n : Nat} :
    m.buffer pointer k = some ((List.range n).map fun i => m.mem (p + BitVec.ofNat 64 i)) ↔
      k = n ∧ BufferAt m pointer p k := by
  unfold Machine.buffer
  rw [mapM_eq_some_iff, List.map_map, bufferAt_iff]
  constructor
  · intro heq
    have hn : k = n := by simpa using congrArg List.length heq
    subst hn
    exact ⟨rfl, fun i hi => List.map_inj_left.mp heq i (List.mem_range.mpr hi)⟩
  · rintro ⟨rfl, hall⟩
    exact List.map_inj_left.mpr fun i hi => hall i (List.mem_range.mp hi)

end

end Mavmm
