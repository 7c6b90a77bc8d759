/-!
# Layout of C structures

Where an ABI puts the members of a structure that is not packed: each one at
the next offset that its alignment divides, and the structure as a whole is as
long as a multiple of the largest alignment in it.  The members of a union all
start at offset 0.
-/

namespace CLayout

/-- A complete object type: its size is a multiple of its alignment. -/
structure CType where
  size : Nat
  align : Nat
  align_pos : 0 < align
  align_dvd : align ∣ size

/-- The next multiple of `a` from `n` on. -/
def alignUp (n a : Nat) : Nat := (n + a - 1) / a * a

theorem alignUp_dvd (n a : Nat) : a ∣ alignUp n a := ⟨_, Nat.mul_comm _ _⟩

namespace CType

/-- An arithmetic type that is aligned to its size. -/
def scalar (size : Nat) (h : 0 < size) : CType := ⟨size, size, h, Nat.dvd_refl size⟩

def char : CType := scalar 1 (by decide)
def short : CType := scalar 2 (by decide)
def int : CType := scalar 4 (by decide)

def array (t : CType) (n : Nat) : CType :=
  ⟨t.size * n, t.align, t.align_pos, Nat.dvd_mul_right_of_dvd t.align_dvd n⟩

end CType

/-! ## Members -/

section
variable {ι : Type}

/-- The members of a structure in the order of their declaration. -/
abbrev Members (ι : Type) := List (ι × CType)

/-- The members from `off` on, with the offset of each. -/
def place : Members ι → (off : Nat) → List (ι × CType × Nat)
  | [], _ => []
  | (f, t) :: ms, off => (f, t, alignUp off t.align) :: place ms (alignUp off t.align + t.size)

/-- Where the last member ends. -/
def extent : Members ι → (off : Nat) → Nat
  | [], off => off
  | (_, t) :: ms, off => extent ms (alignUp off t.align + t.size)

/-- The largest alignment of a member. -/
def maxAlign : Members ι → Nat
  | [] => 1
  | (_, t) :: ms => max t.align (maxAlign ms)

theorem maxAlign_pos : ∀ ms : Members ι, 0 < maxAlign ms
  | [] => Nat.one_pos
  | (_, t) :: _ => Nat.lt_of_lt_of_le t.align_pos (Nat.le_max_left _ _)

/-- The structure with these members. -/
def struct (ms : Members ι) : CType :=
  ⟨alignUp (extent ms 0) (maxAlign ms), maxAlign ms, maxAlign_pos ms, alignUp_dvd _ _⟩

/-- The union of these members. -/
def union (ms : Members ι) : CType :=
  ⟨alignUp ((ms.map fun m => m.2.size).foldl max 0) (maxAlign ms), maxAlign ms, maxAlign_pos ms,
    alignUp_dvd _ _⟩

/-- The type of a member and its offset. -/
def member [DecidableEq ι] (ms : Members ι) (f : ι) : Option (CType × Nat) :=
  ((place ms 0).find? fun m => m.1 = f).map Prod.snd

def offsetOf [DecidableEq ι] (ms : Members ι) (f : ι) : Nat :=
  ((member ms f).map Prod.snd).getD 0

def sizeOf [DecidableEq ι] (ms : Members ι) (f : ι) : Nat :=
  ((member ms f).map fun m => m.1.size).getD 0

end

end CLayout
