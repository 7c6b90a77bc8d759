import Mathlib.Data.List.Induction
import Mathlib.Data.Nat.ModEq

/-!
# Writing around a ring of slots

A list that is written into a ring of slots, from a position on and once around
after the last slot, overwrites itself where it is longer than the ring.  It is
read back as it was exactly when the values that fall into one slot are the
same (`read_write_iff`).
-/

namespace Ring

variable {β : Type}

/-- The slots after the values were written at the positions from `p` on. -/
def write (size : Nat) (slots : Nat → β) (p : Nat) : List β → Nat → β
  | [] => slots
  | v :: vs => write size (fun k => if k = p % size then v else slots k) (p + 1) vs

/-- The values at the `n` positions from `p` on. -/
def read (size : Nat) (slots : Nat → β) : (p n : Nat) → List β
  | _, 0 => []
  | p, n + 1 => slots (p % size) :: read size slots (p + 1) n

/-- Values that fall into one slot are the same. -/
def Agree (size : Nat) (vs : List β) : Prop :=
  ∀ i j, (hi : i < vs.length) → (hj : j < vs.length) → i % size = j % size → vs[i] = vs[j]

variable {size : Nat} {slots slots' : Nat → β} {p n : Nat} {vs : List β}

@[simp] theorem length_read : (read size slots p n).length = n := by
  induction n generalizing p with
  | zero => rfl
  | succ n ih => rw [read, List.length_cons, ih]

theorem getElem_read {i : Nat} (hi : i < (read size slots p n).length) :
    (read size slots p n)[i] = slots ((p + i) % size) := by
  induction n generalizing p i with
  | zero => exact absurd hi (Nat.not_lt_zero i)
  | succ n ih =>
    cases i with
    | zero => rfl
    | succ i =>
      have hpos : p + 1 + i = p + (i + 1) := by omega
      simp only [read, List.getElem_cons_succ, ih, hpos]

/-- What is read are the slots of the ring. -/
theorem read_congr (hsize : 0 < size) (h : ∀ k < size, slots k = slots' k) :
    read size slots p n = read size slots' p n := by
  induction n generalizing p with
  | zero => rfl
  | succ n ih => rw [read, read, h _ (Nat.mod_lt p hsize), ih]

theorem write_congr {k : Nat} (h : slots k = slots' k) :
    write size slots p vs k = write size slots' p vs k := by
  induction vs generalizing slots slots' p with
  | nil => exact h
  | cons v vs ih =>
    refine ih ?_
    split
    · rfl
    · exact h

/-- The last value is written over everything else. -/
theorem write_append_singleton (v : β) : write size slots p (vs ++ [v]) =
    fun k => if k = (p + vs.length) % size then v else write size slots p vs k := by
  induction vs generalizing slots p with
  | nil => rfl
  | cons w vs ih =>
    have hpos : p + (w :: vs).length = p + 1 + vs.length := by
      rw [List.length_cons]
      omega
    rw [List.cons_append, write, ih, hpos]
    rfl

/-- Values that do not go around the end of the ring. -/
theorem write_eq {k : Nat} (h : p + vs.length ≤ size) :
    write size slots p vs k = if p ≤ k then vs.getD (k - p) (slots k) else slots k := by
  induction vs generalizing slots p with
  | nil =>
    split
    · rfl
    · rfl
  | cons v vs ih =>
    rw [List.length_cons] at h
    have hmod : p % size = p := Nat.mod_eq_of_lt (by omega)
    rw [write, ih (by omega), hmod]
    rcases Nat.lt_trichotomy p k with hlt | rfl | hlt
    · have hdist : k - p = k - (p + 1) + 1 := by omega
      rw [if_pos (show p + 1 ≤ k from hlt), if_pos (Nat.le_of_lt hlt), if_neg (by omega), hdist,
        List.getD_cons_succ]
    · rw [if_neg (by omega), if_pos rfl, if_pos (Nat.le_refl p), Nat.sub_self, List.getD_cons_zero]
    · rw [if_neg (by omega), if_neg (by omega), if_neg (by omega)]

/-- Positions of one slot are at a distance around the ring. -/
theorem mod_eq_iff {i j : Nat} : (p + i) % size = (p + j) % size ↔ i % size = j % size := by
  constructor
  · intro h
    exact Nat.ModEq.add_left_cancel' p h
  · intro h
    exact Nat.ModEq.add_left p h

theorem Agree.of_append {ws : List β} (h : Agree size (vs ++ ws)) : Agree size vs := by
  intro i j hi hj hij
  have hlt : ∀ {k}, k < vs.length → k < (vs ++ ws).length := by
    intro k hk
    rw [List.length_append]
    omega
  have heq := h i j (hlt hi) (hlt hj) hij
  rwa [List.getElem_append_left hi, List.getElem_append_left hj] at heq

/-- A value that is one too many falls into the slot of the first one. -/
theorem Agree.wraps {v w : β} (hsize : 0 < size) (h : Agree size (List.replicate size v ++ [w])) :
    v = w := by
  have hlen : (List.replicate size v ++ [w]).length = size + 1 := by simp
  have heq := h 0 size (by omega) (by omega) (by rw [Nat.zero_mod, Nat.mod_self])
  simpa [List.getElem_append, hsize] using heq

/-- Values that agree are still there. -/
theorem Agree.write (h : Agree size vs) {i : Nat} (hi : i < vs.length) :
    write size slots p vs ((p + i) % size) = vs[i] := by
  induction vs using List.reverseRecOn with
  | nil => exact absurd hi (Nat.not_lt_zero i)
  | append_singleton vs v ih =>
    rw [write_append_singleton]
    dsimp only
    split
    · next hslot =>
      have hlast : vs.length < (vs ++ [v]).length := by simp
      have heq := h i vs.length hi hlast (mod_eq_iff.mp hslot)
      simpa using heq.symm
    · next hslot =>
      have hlt : i < vs.length := by
        rw [List.length_append, List.length_singleton] at hi
        have hne : i ≠ vs.length := fun heq => hslot (by rw [heq])
        omega
      rw [List.getElem_append_left hlt]
      exact ih h.of_append hlt

/-- Values are read back as they were written exactly when those of one slot are the same. -/
theorem read_write_iff : read size (write size slots p vs) p vs.length = vs ↔ Agree size vs := by
  constructor
  · intro h i j hi hj hij
    have hread : ∀ {k} (hk : k < vs.length),
        vs[k] = Ring.write size slots p vs ((p + k) % size) := by
      intro k hk
      have hlt : k < (read size (Ring.write size slots p vs) p vs.length).length := by
        rwa [length_read]
      rw [← getElem_read hlt]
      exact (List.getElem_of_eq h hlt).symm
    rw [hread hi, hread hj, mod_eq_iff.mpr hij]
  · intro h
    apply List.ext_getElem length_read
    intro i hi hi'
    rw [getElem_read, h.write hi']

end Ring
