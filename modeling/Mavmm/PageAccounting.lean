import Mathlib.Data.Set.Card
import Mathlib.Order.Bounds.Basic
import Mathlib.Order.Interval.Finset.Nat
import Mavmm.E820

/-!
# The frames of the memory map

A frame is usable when it lies wholly inside a RAM entry.  `get_max_pfn` rounds
both ends of an entry inwards, and so finds the last usable frame unless an end
wraps (`isLeast_getMaxPfn_iff`).  `get_nr_pages` rounds the size alone, and counts
one frame too many for an entry that starts too far past a frame boundary
(`getNrPages_eq_iff`).
-/

namespace Mavmm

namespace E820Entry

/-- Frame `f` lies wholly inside the entry. -/
def HasFrame (p : E820Entry) (f : Nat) : Prop :=
  p.addr.toNat ≤ f * 4096 ∧ (f + 1) * 4096 ≤ p.addr.toNat + p.size.toNat

/-- The addresses of the entry. -/
def Covers (p : E820Entry) (x : Nat) : Prop :=
  p.addr.toNat ≤ x ∧ x < p.addr.toNat + p.size.toNat

/-- The number of frames of the entry. -/
def frames (p : E820Entry) : Nat :=
  (p.addr.toNat + p.size.toNat) / 4096 - (p.addr.toNat + 4095) / 4096

/-- As many bytes are left over a whole number of frames as lie before the first frame. -/
def SizeRight (p : E820Entry) : Prop :=
  4096 ≤ p.size.toNat → (4096 - p.addr.toNat % 4096) % 4096 ≤ p.size.toNat % 4096

end E820Entry

/-- Frame `f` lies wholly inside a RAM entry. -/
def WholeFrame (l : List E820Entry) (f : Nat) : Prop :=
  ∃ p ∈ l, p.type = e820Ram ∧ p.HasFrame f

/-- The RAM entries do not wrap, and no address is in two of them. -/
structure RamDisjoint (l : List E820Entry) : Prop where
  noWrap : ∀ p ∈ l, p.type = e820Ram → p.addr.toNat + p.size.toNat ≤ 2 ^ 64
  disjoint : l.Pairwise fun p q => p.type = e820Ram → q.type = e820Ram →
    ∀ x, ¬ (p.Covers x ∧ q.Covers x)

/-- The two functions agree with the frames of the map. -/
structure Accounted (e820 : E820Map) : Prop where
  count : (getNrPages e820).toNat = { f | WholeFrame e820.map f }.ncard
  le : getNrPages e820 ≤ getMaxPfn e820
  least : IsLeast { n | ∀ f, WholeFrame e820.map f → f < n } (getMaxPfn e820).toNat

/-- No RAM entry is counted wrong, and the ends of none wrap. -/
structure AccountsRight (e820 : E820Map) : Prop where
  size : ∀ p ∈ e820.map, p.type = e820Ram → p.SizeRight
  stop : ∀ p ∈ e820.map, p.type = e820Ram → p.addr.toNat + p.size.toNat = 2 ^ 64 →
    p.size.toNat < 4096
  start : ∀ p ∈ e820.map, p.type = e820Ram → 2 ^ 64 - 4096 < p.addr.toNat →
    p.addr.toNat + p.size.toNat < 2 ^ 64 → WholeFrame e820.map (2 ^ 52 - 2)

/-! ## Counting -/

section
variable {p : E820Entry}

theorem E820Entry.setOf_hasFrame (p : E820Entry) : { f | p.HasFrame f } =
    Set.Ico ((p.addr.toNat + 4095) / 4096) ((p.addr.toNat + p.size.toNat) / 4096) := by
  ext f
  simp only [Set.mem_ofPred_eq, Set.mem_Ico, E820Entry.HasFrame]
  omega

theorem E820Entry.ncard_hasFrame (p : E820Entry) : { f | p.HasFrame f }.ncard = p.frames := by
  rw [p.setOf_hasFrame, ← Finset.coe_Ico, Set.ncard_coe_finset, Nat.card_Ico]
  rfl

theorem E820Entry.finite_hasFrame (p : E820Entry) : { f | p.HasFrame f }.Finite := by
  rw [p.setOf_hasFrame, ← Finset.coe_Ico]
  exact Finset.finite_toSet _

theorem E820Entry.frames_le (p : E820Entry) : p.frames ≤ p.size.toNat / 4096 := by
  unfold E820Entry.frames
  omega

theorem E820Entry.frames_eq_iff (p : E820Entry) :
    p.frames = p.size.toNat / 4096 ↔ p.SizeRight := by
  unfold E820Entry.frames E820Entry.SizeRight
  omega

end

/-- The sum of a number over the RAM entries. -/
def ramSum (f : E820Entry → Nat) (l : List E820Entry) : Nat :=
  (l.map fun p => if p.type = e820Ram then f p else 0).sum

theorem ramSum_cons (f : E820Entry → Nat) (p : E820Entry) (l : List E820Entry) :
    ramSum f (p :: l) = (if p.type = e820Ram then f p else 0) + ramSum f l := rfl

/-- Two sums of which one is nowhere below the other. -/
theorem ramSum_eq_iff {f g : E820Entry → Nat} (hle : ∀ p, f p ≤ g p) (l : List E820Entry) :
    ramSum f l ≤ ramSum g l ∧
      (ramSum f l = ramSum g l ↔ ∀ p ∈ l, p.type = e820Ram → f p = g p) := by
  induction l with
  | nil => exact ⟨Nat.le_refl 0, fun _ p hp => (List.not_mem_nil hp).elim, fun _ => rfl⟩
  | cons p l ih =>
    obtain ⟨ihle, iheq⟩ := ih
    have hp := hle p
    rw [List.forall_mem_cons, ← iheq, ramSum_cons, ramSum_cons]
    split
    · next hram =>
      simp only [hram, forall_const]
      omega
    · next hram =>
      simp only [hram, false_implies, true_and]
      omega

theorem wholeFrame_cons {p : E820Entry} {l : List E820Entry} : { f | WholeFrame (p :: l) f } =
    (if p.type = e820Ram then { f | p.HasFrame f } else ∅) ∪ { f | WholeFrame l f } := by
  ext f
  simp only [WholeFrame, List.mem_cons, Set.mem_ofPred_eq, Set.mem_union, exists_eq_or_imp]
  split
  · next hram => simp [hram]
  · next hram => simp [hram]

theorem finite_wholeFrame (l : List E820Entry) : { f | WholeFrame l f }.Finite := by
  induction l with
  | nil => simp [WholeFrame]
  | cons p l ih =>
    rw [wholeFrame_cons]
    refine Set.Finite.union ?_ ih
    split
    · exact p.finite_hasFrame
    · exact Set.finite_empty

/-- The frames of disjoint entries are different ones. -/
theorem ncard_wholeFrame {l : List E820Entry} (hl : RamDisjoint l) :
    { f | WholeFrame l f }.ncard = ramSum E820Entry.frames l := by
  obtain ⟨-, hdisj⟩ := hl
  induction l with
  | nil => simp [WholeFrame, ramSum]
  | cons p l ih =>
    rw [List.pairwise_cons] at hdisj
    rw [wholeFrame_cons, ramSum_cons, ← ih hdisj.2]
    split
    · next hram =>
      rw [Set.ncard_union_eq ?_ p.finite_hasFrame (finite_wholeFrame l), p.ncard_hasFrame]
      refine Set.disjoint_left.mpr ?_
      rintro f ⟨hlo, hhi⟩ ⟨q, hq, hqram, hqlo, hqhi⟩
      refine hdisj.1 q hq hram hqram (f * 4096) ⟨⟨hlo, by omega⟩, hqlo, by omega⟩
    · rw [Set.empty_union, Nat.zero_add]

theorem toNat_foldl_nrPagesStep (l : List E820Entry) :
    ∀ n : BitVec 64, n.toNat + l.length * 2 ^ 52 < 2 ^ 64 →
      (l.foldl nrPagesStep n).toNat = n.toNat + ramSum (fun p => p.size.toNat / 4096) l := by
  induction l with
  | nil => exact fun n _ => rfl
  | cons p l ih =>
    intro n hn
    have hsize := toNat_pfnDown p.size
    have hlt := p.size.isLt
    rw [List.length_cons, Nat.add_mul] at hn
    have hadd : (n + pfnDown p.size).toNat = n.toNat + p.size.toNat / 4096 := by
      rw [BitVec.toNat_add, hsize]
      omega
    have hroom : n.toNat + p.size.toNat / 4096 + l.length * 2 ^ 52 < 2 ^ 64 := by omega
    have hkeep : n.toNat + l.length * 2 ^ 52 < 2 ^ 64 :=
      Nat.lt_of_le_of_lt (Nat.add_le_add_right (Nat.le_add_right _ _) _) hroom
    rw [← hadd] at hroom
    rw [List.foldl_cons, ramSum_cons]
    by_cases hram : p.type = e820Ram
    · have hstep : nrPagesStep n p = n + pfnDown p.size := if_neg (not_not_intro hram)
      rw [hstep, if_pos hram, ih _ hroom, hadd, Nat.add_assoc]
    · have hstep : nrPagesStep n p = n := if_pos hram
      rw [hstep, if_neg hram, ih n hkeep, Nat.zero_add]

theorem toNat_getNrPages (e820 : E820Map) :
    (getNrPages e820).toNat = ramSum (fun p => p.size.toNat / 4096) e820.map := by
  have hlen := e820.nrMap_le
  unfold e820MaxEntries at hlen
  have hzero : (0 : BitVec 64).toNat = 0 := rfl
  unfold getNrPages
  rw [toNat_foldl_nrPagesStep _ _ (by omega), hzero, Nat.zero_add]

/-- `get_nr_pages` counts the frames exactly when it counts each entry right. -/
theorem getNrPages_eq_iff {e820 : E820Map} (hl : RamDisjoint e820.map) :
    (getNrPages e820).toNat = { f | WholeFrame e820.map f }.ncard ↔
      ∀ p ∈ e820.map, p.type = e820Ram → p.SizeRight := by
  rw [toNat_getNrPages, ncard_wholeFrame hl, eq_comm,
    (ramSum_eq_iff E820Entry.frames_le e820.map).2]
  simp only [E820Entry.frames_eq_iff]

/-! ## The last frame -/

/-- `get_max_pfn` is 0, or the end of an entry that looks as if it had a frame. -/
theorem foldl_maxPfnStep_attained (l : List E820Entry) :
    ∀ n : BitVec 64, l.foldl maxPfnStep n = n ∨ ∃ p ∈ l, p.type = e820Ram ∧
      pfnUp p.addr < pfnDown (p.addr + p.size) ∧
        l.foldl maxPfnStep n = pfnDown (p.addr + p.size) := by
  induction l with
  | nil => exact fun n => .inl rfl
  | cons p l ih =>
    intro n
    rw [List.foldl_cons]
    rcases ih (maxPfnStep n p) with h | ⟨q, hq, hram, hlt, h⟩
    · rw [h]
      unfold maxPfnStep
      split
      · exact .inl rfl
      · next hram =>
        dsimp only
        split
        · next hlt => exact .inr ⟨p, List.mem_cons_self, Decidable.not_not.mp hram, hlt.1, rfl⟩
        · exact .inl rfl
    · exact .inr ⟨q, List.mem_cons_of_mem p hq, hram, hlt, h⟩

/-- The number that `get_max_pfn` takes for the end of an entry. -/
theorem toNat_pfnDown_end {p : E820Entry} :
    (pfnDown (p.addr + p.size)).toNat = (p.addr.toNat + p.size.toNat) % 2 ^ 64 / 4096 := by
  rw [toNat_pfnDown, BitVec.toNat_add]

/-- An entry that looks as if it had a frame ends below `get_max_pfn`. -/
theorem end_le_toNat_getMaxPfn {e820 : E820Map} {p : E820Entry} (hp : p ∈ e820.map)
    (hram : p.type = e820Ram) (h : (p.addr.toNat + 4095) % 2 ^ 64 / 4096 <
      (p.addr.toNat + p.size.toNat) % 2 ^ 64 / 4096) :
    (p.addr.toNat + p.size.toNat) % 2 ^ 64 / 4096 ≤ (getMaxPfn e820).toNat := by
  rw [← toNat_pfnUp, ← toNat_pfnDown_end] at h
  rw [← toNat_pfnDown_end]
  exact BitVec.le_def.mp (end_le_getMaxPfn hp hram (BitVec.lt_def.mpr h))

/-- `get_max_pfn` is right exactly when no end of a RAM entry wraps, or the frame that it takes
for the last one is there. -/
theorem isLeast_getMaxPfn_iff {e820 : E820Map} (hl : RamDisjoint e820.map) :
    IsLeast { n | ∀ f, WholeFrame e820.map f → f < n } (getMaxPfn e820).toNat ↔
      (∀ p ∈ e820.map, p.type = e820Ram → p.addr.toNat + p.size.toNat = 2 ^ 64 →
        p.size.toNat < 4096) ∧
      ∀ p ∈ e820.map, p.type = e820Ram → 2 ^ 64 - 4096 < p.addr.toNat →
        p.addr.toNat + p.size.toNat < 2 ^ 64 → WholeFrame e820.map (2 ^ 52 - 2) := by
  have hmax := getMaxPfn_lt e820
  constructor
  · rintro ⟨hbound, hleast⟩
    constructor
    · intro p hp hram hend
      apply Nat.lt_of_not_le
      intro hsize
      have := hbound (2 ^ 52 - 1) ⟨p, hp, hram, by omega, by omega⟩
      omega
    · intro p hp hram haddr hend
      have hle := end_le_toNat_getMaxPfn hp hram (by omega)
      apply Classical.byContradiction
      intro hno
      -- then a smaller bound would do
      have hless := @hleast (2 ^ 52 - 2) fun f hf => by
        have := hbound f hf
        have hne : f ≠ 2 ^ 52 - 2 := fun heq => hno (heq ▸ hf)
        omega
      omega
  · rintro ⟨hstop, hstart⟩
    constructor
    · rintro f ⟨p, hp, hram, hlo, hhi⟩
      have hwrap := hl.noWrap p hp hram
      have hend := hstop p hp hram
      have hle := end_le_toNat_getMaxPfn hp hram (by omega)
      omega
    · intro n hn
      rcases foldl_maxPfnStep_attained e820.map 0 with h | ⟨p, hp, hram, hlt, h⟩
      · have hzero : (getMaxPfn e820).toNat = 0 := congrArg BitVec.toNat h
        omega
      · have hval : (getMaxPfn e820).toNat = (pfnDown (p.addr + p.size)).toNat :=
          congrArg BitVec.toNat h
        have hwrap := hl.noWrap p hp hram
        rw [BitVec.lt_def, toNat_pfnUp, toNat_pfnDown_end] at hlt
        rw [toNat_pfnDown_end] at hval
        rcases Nat.lt_or_ge (2 ^ 64 - 4096) p.addr.toNat with haddr | haddr
        · have := hn _ (hstart p hp hram haddr (by omega))
          omega
        · have := hn ((p.addr.toNat + p.size.toNat) % 2 ^ 64 / 4096 - 1)
            ⟨p, hp, hram, by omega, by omega⟩
          omega

theorem ncard_le_of_isLeast {P : Nat → Prop} {n : Nat} (h : IsLeast { n | ∀ f, P f → f < n } n) :
    { f | P f }.ncard ≤ n := by
  have hsub : { f | P f } ⊆ (Finset.range n : Set Nat) := fun f hf =>
    Finset.mem_coe.mpr (Finset.mem_range.mpr (h.1 f hf))
  have hle := Set.ncard_le_ncard hsub (Finset.finite_toSet _)
  rwa [Set.ncard_coe_finset, Finset.card_range] at hle

/-- The page counts are right exactly when every entry is counted right and no end wraps. -/
theorem pages_accounted_iff {e820 : E820Map} (hl : RamDisjoint e820.map) :
    Accounted e820 ↔ AccountsRight e820 := by
  constructor
  · intro h
    obtain ⟨hstop, hstart⟩ := (isLeast_getMaxPfn_iff hl).mp h.least
    exact ⟨(getNrPages_eq_iff hl).mp h.count, hstop, hstart⟩
  · intro h
    have hcount := (getNrPages_eq_iff hl).mpr h.size
    have hleast := (isLeast_getMaxPfn_iff hl).mpr ⟨h.stop, h.start⟩
    refine ⟨hcount, ?_, hleast⟩
    rw [BitVec.le_def, hcount]
    exact ncard_le_of_isLeast hleast

/-- One RAM entry. -/
def oneEntry (addr size : BitVec 64) : E820Map := ⟨[⟨addr, size, e820Ram⟩], (by decide : 1 ≤ 128)⟩

/-- RAM on both sides of a reserved entry, the lower part of it with an end inside a frame. -/
def splitMap : E820Map where
  map := [⟨0#64, 0x9fc00#64, e820Ram⟩, ⟨0x9fc00#64, 0x400#64, e820Reserved⟩,
    ⟨0x100000#64, 0x300000#64, e820Ram⟩]
  nrMap_le := by decide

/-- Its pages are counted right. -/
theorem pages_accounted_split : Accounted splitMap := by
  have hram : ∀ p ∈ splitMap.map, p.type = e820Ram → p.SizeRight ∧
      p.addr.toNat + p.size.toNat ≤ 2 ^ 63 := by
    unfold splitMap E820Entry.SizeRight
    decide
  have hdisjoint : RamDisjoint splitMap.map := by
    refine ⟨fun p hp hr => Nat.le_trans (hram p hp hr).2 (by decide), ?_⟩
    unfold splitMap E820Entry.Covers e820Reserved e820Ram
    simp
    omega
  refine (pages_accounted_iff hdisjoint).mpr ⟨fun p hp hr => (hram p hp hr).1, ?_, ?_⟩
  · intro p hp hr hend
    have hle := (hram p hp hr).2
    omega
  · intro p hp hr haddr
    have hle := (hram p hp hr).2
    omega

/-- A page that starts in the middle of a frame is counted although no frame lies in it. -/
theorem pages_not_accounted : getNrPages (oneEntry 0x800#64 0x1000#64) = 1#64 ∧
    getMaxPfn (oneEntry 0x800#64 0x1000#64) = 0#64 ∧ RamDisjoint (oneEntry 0x800#64 0x1000#64).map ∧
    ¬ Accounted (oneEntry 0x800#64 0x1000#64) := by
  have hnr : getNrPages (oneEntry 0x800#64 0x1000#64) = 1#64 := by decide
  have hmax : getMaxPfn (oneEntry 0x800#64 0x1000#64) = 0#64 := by decide
  refine ⟨hnr, hmax, ⟨fun _ hp _ => ?_, List.pairwise_singleton _ _⟩, fun h => ?_⟩
  · rw [List.mem_singleton.mp hp]
    decide
  · have hle := h.le
    rw [hnr, hmax] at hle
    exact absurd hle (by simp)

end Mavmm
