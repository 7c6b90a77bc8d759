import Mathlib.Algebra.GroupWithZero.Nat
import Mavmm.Lib.Memory

/-!
# Packed records in memory

A packed record has its fields back to back, in the order of their declaration.
Different fields of a record never meet, so writing one leaves the others alone
(`get_set_of_ne`), and after any writes a field has the last value that was
written to it (`get_setAll`).
-/

/-- The fields of a packed record in order, and the number of bytes of each. -/
structure Record (ι : Type) where
  width : ι → Nat
  fields : List ι
  complete : ∀ f, f ∈ fields
  size_le : (fields.map width).sum ≤ 2 ^ 64

namespace Record

variable {ι : Type}

def size (r : Record ι) : Nat := (r.fields.map r.width).sum

/-! ## Offsets -/

section
variable [DecidableEq ι] (width : ι → Nat)

/-- The bytes before the first `f` of the list. -/
def before (fields : List ι) (f : ι) : Nat :=
  ((fields.takeWhile fun g => g ≠ f).map width).sum

theorem before_cons_self (f : ι) (fields : List ι) : before width (f :: fields) f = 0 := by
  simp [before]

theorem before_cons_of_ne {f g : ι} (h : g ≠ f) (fields : List ι) :
    before width (g :: fields) f = width g + before width fields f := by
  simp [before, h]

theorem before_add_width_le {f : ι} {fields : List ι} (hf : f ∈ fields) :
    before width fields f + width f ≤ (fields.map width).sum := by
  induction fields with
  | nil => cases hf
  | cons g fields ih =>
    rw [List.map_cons, List.sum_cons]
    by_cases hg : g = f
    · rw [hg, before_cons_self]
      omega
    · have hrest := ih ((List.mem_cons.mp hf).resolve_left fun h => hg h.symm)
      rw [before_cons_of_ne width hg]
      omega

/-- Of two fields, one ends where the other has not begun yet. -/
theorem before_apart {f g : ι} (h : f ≠ g) {fields : List ι} (hf : f ∈ fields)
    (hg : g ∈ fields) :
    before width fields f + width f ≤ before width fields g ∨
      before width fields g + width g ≤ before width fields f := by
  induction fields with
  | nil => cases hf
  | cons e fields ih =>
    by_cases hef : e = f
    · subst hef
      rw [before_cons_self, before_cons_of_ne width h]
      omega
    · by_cases heg : e = g
      · subst heg
        rw [before_cons_self, before_cons_of_ne width hef]
        omega
      · have hrest := ih ((List.mem_cons.mp hf).resolve_left fun h => hef h.symm)
          ((List.mem_cons.mp hg).resolve_left fun h => heg h.symm)
        rw [before_cons_of_ne width hef, before_cons_of_ne width heg]
        omega

end

variable [DecidableEq ι] (r : Record ι)

def offset (f : ι) : Nat := before r.width r.fields f

theorem offset_add_width_le (f : ι) : r.offset f + r.width f ≤ r.size :=
  before_add_width_le r.width (r.complete f)

/-! ## Reading and writing -/

/-- Where the field of the record at `base` is. -/
def place (base : Addr) (f : ι) : Addr := base + BitVec.ofNat 64 (r.offset f)

def get (m : Mem) (base : Addr) (f : ι) : BitVec (8 * r.width f) :=
  m.load (r.width f) (r.place base f)

/-- A value for one field. -/
structure Write where
  field : ι
  value : BitVec (8 * r.width field)

def set (base : Addr) (w : r.Write) (m : Mem) : Mem :=
  m.store (r.width w.field) (r.place base w.field) w.value

/-- The writes in order. -/
def setAll (base : Addr) (ws : List r.Write) (m : Mem) : Mem :=
  ws.foldl (fun m w => r.set base w m) m

/-- The last value that is written to the field. -/
def written (f : ι) : List r.Write → Option (BitVec (8 * r.width f))
  | [] => none
  | w :: ws => (written f ws).or (if h : w.field = f then some (h ▸ w.value) else none)

variable {r}

theorem get_set_same (m : Mem) (base : Addr) (w : r.Write) :
    r.get (r.set base w m) base w.field = w.value := by
  have hle := r.offset_add_width_le w.field
  have hsize : r.size ≤ 2 ^ 64 := r.size_le
  exact Mem.load_store_same m _ w.value (by omega)

theorem get_set_of_ne {w : r.Write} {f : ι} (h : w.field ≠ f) (m : Mem) (base : Addr) :
    r.get (r.set base w m) base f = r.get m base f := by
  have hw := r.offset_add_width_le w.field
  have hf := r.offset_add_width_le f
  have hsize : r.size ≤ 2 ^ 64 := r.size_le
  exact Mem.load_store_apart w.value (Mem.apart_of_offsets base (by omega) (by omega)
    (before_apart r.width h (r.complete _) (r.complete _)))

theorem get_setAll (ws : List r.Write) (m : Mem) (base : Addr) (f : ι) :
    r.get (r.setAll base ws m) base f = (r.written f ws).getD (r.get m base f) := by
  induction ws generalizing m with
  | nil => rfl
  | cons w ws ih =>
    have hstep : r.get (r.set base w m) base f =
        (if h : w.field = f then some (h ▸ w.value) else none).getD (r.get m base f) := by
      split
      · next h =>
        subst h
        exact get_set_same m base w
      · next h => exact get_set_of_ne h m base
    have hrest := ih (r.set base w m)
    rw [hstep] at hrest
    rw [written]
    cases hw : r.written f ws with
    | none => rwa [hw] at hrest
    | some v => rwa [hw] at hrest

/-- Where two memories agree, so do the fields. -/
theorem get_congr {m m' : Mem} {base : Addr}
    (h : ∀ k, k < r.size → m (base + BitVec.ofNat 64 k) = m' (base + BitVec.ofNat 64 k))
    (f : ι) : r.get m base f = r.get m' base f := by
  have hle := r.offset_add_width_le f
  refine Mem.load_congr fun k hk => ?_
  rw [place, BitVec.add_assoc, ← BitVec.ofNat_add]
  exact h _ (by omega)

section
variable {m : Mem} {base a : Addr} {n : Nat} (f : ι)

theorem get_fill_apart (c : Byte)
    (h : ∀ k, k < r.size → n ≤ (base + BitVec.ofNat 64 k - a).toNat) :
    r.get (m.fill a n c) base f = r.get m base f :=
  get_congr (fun k hk => if_neg (Nat.not_lt.mpr (h k hk))) f

/-- A record that is cleared with what is around it. -/
theorem get_fill_cover (h : ∀ k, k < r.size → (base + BitVec.ofNat 64 k - a).toNat < n) :
    r.get (m.fill a n 0#8) base f = 0#(8 * r.width f) := by
  have hle := r.offset_add_width_le f
  refine Mem.load_fill_zero_inside fun i hi => ?_
  rw [place, BitVec.add_assoc, ← BitVec.ofNat_add]
  exact h _ (by omega)

theorem get_fill_size : r.get (m.fill base r.size 0#8) base f = 0#(8 * r.width f) := by
  have hsize : r.size ≤ 2 ^ 64 := r.size_le
  refine get_fill_cover f fun k hk => ?_
  rwa [Mem.toNat_add_ofNat_sub base (by omega)]

end

/-- Writing to a record changes nothing beyond it. -/
theorem setAll_outside (ws : List r.Write) {base x : Addr} (h : r.size ≤ (x - base).toNat)
    (m : Mem) : r.setAll base ws m x = m x := by
  induction ws generalizing m with
  | nil => rfl
  | cons w ws ih =>
    have hw := r.offset_add_width_le w.field
    have hx := (x - base).isLt
    refine (ih (r.set base w m)).trans (if_neg (Nat.not_lt.mpr ?_))
    rw [place, ← BitVec.sub_sub, BitVec.toNat_sub_of_le, BitVec.toNat_ofNat,
      Nat.mod_eq_of_lt (by omega)]
    · omega
    · rw [BitVec.le_def, BitVec.toNat_ofNat, Nat.mod_eq_of_lt (by omega)]
      omega

end Record
