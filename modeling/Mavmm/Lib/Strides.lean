import Mathlib.Data.List.Basic

/-!
# Walks over records that give their own length

The records stand one after the other, and each says where the next one begins.
A walk takes them in order while it is below a length (`Strides.offsets`); it
ends as every record begins after the one before it.
-/

/-- Where the record after the one at an offset begins. -/
structure Strides where
  next : Nat → Nat
  lt_next : ∀ o, o < next o

namespace Strides

/-- The offsets of the records from `o` on that begin below `len`. -/
def offsets (w : Strides) (len o : Nat) : List Nat :=
  if o < len then o :: w.offsets len (w.next o) else []
termination_by len - o
decreasing_by
  have := w.lt_next o
  omega

section
variable {w : Strides} {len o : Nat}

theorem offsets_of_lt (h : o < len) : w.offsets len o = o :: w.offsets len (w.next o) := by
  rw [offsets, if_pos h]

theorem offsets_of_le (h : len ≤ o) : w.offsets len o = [] := by
  rw [offsets, if_neg (Nat.not_lt.mpr h)]

theorem mem_offsets (w : Strides) (len o : Nat) : ∀ a ∈ w.offsets len o, o ≤ a ∧ a < len := by
  induction o using offsets.induct w len with
  | case1 o hlt ih =>
    intro a ha
    rw [offsets_of_lt hlt] at ha
    rcases List.mem_cons.mp ha with rfl | ha
    · exact ⟨Nat.le_refl _, hlt⟩
    · have hnext := w.lt_next o
      have := ih a ha
      omega
  | case2 o hge =>
    intro a ha
    rw [offsets_of_le (Nat.le_of_not_lt hge)] at ha
    cases ha

/-- A walk takes no more records than there are offsets. -/
theorem length_offsets_le (w : Strides) (len o : Nat) : (w.offsets len o).length ≤ len - o := by
  induction o using offsets.induct w len with
  | case1 o hlt ih =>
    have hnext := w.lt_next o
    rw [offsets_of_lt hlt, List.length_cons]
    omega
  | case2 o hge =>
    rw [offsets_of_le (Nat.le_of_not_lt hge)]
    exact Nat.zero_le _

end

end Strides
