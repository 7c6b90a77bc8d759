import Mathlib.Data.Set.Basic
import Mavmm.MemoryHiding

/-!
# What is left of the usable memory

The addresses of the RAM entries after a region is hidden.  An entry that is
clear of the region keeps its addresses, and one around it is split.  An entry
that the region touches at one end only is given one bound of its own, and an
entry inside it the bounds of what is outside: on a map without overlaps, memory
is hidden exactly where no entry lies so (`hidesExactly_iff`).  What the lists
say is about the map in memory, as a run on the map is a run over the list.
-/

namespace Mavmm

/-- A region to hide. -/
structure HiddenRegion where
  start : BitVec 64
  length : BitVec 64
  start_pos : 1 ≤ start.toNat
  length_pos : 1 ≤ length.toNat
  noWrap : start.toNat + length.toNat ≤ 2 ^ 64

namespace HiddenRegion

/-- `hideend`. -/
def last (g : HiddenRegion) : BitVec 64 := g.start + g.length - 1#64

/-- The end of the region. -/
def stop (g : HiddenRegion) : Nat := g.start.toNat + g.length.toNat

/-- The addresses of the region. -/
def addresses (g : HiddenRegion) : Set Nat := { x | g.start.toNat ≤ x ∧ x < g.stop }

theorem toNat_last (g : HiddenRegion) : g.last.toNat = g.stop - 1 := by
  have h1 := g.start_pos
  have h2 := g.length_pos
  have h3 := g.noWrap
  unfold last stop
  bv_omega

/-- What an entry inside the region is overwritten with. -/
def replacement (g : HiddenRegion) : E820Entry :=
  ⟨g.last + 1#64, g.start - 1#64 - (g.last + 1#64), e820Ram⟩

end HiddenRegion

/-- The end of an entry. -/
def E820Entry.stop (p : E820Entry) : Nat := p.addr.toNat + p.size.toNat

/-- The addresses of the RAM entries. -/
def ramSet (ps : List E820Entry) : Set Nat := { x | ∃ p ∈ ps, p.type = e820Ram ∧ p.Covers x }

/-- The addresses of a part that waits. -/
def SplitPart.addresses (r : SplitPart) : Set Nat :=
  { x | r.start.toNat ≤ x ∧ x < r.start.toNat + r.size.toNat }

/-! ## Where an entry lies -/

namespace HiddenRegion

/-- The entry ends before the region, or begins after it. -/
def Clear (g : HiddenRegion) (p : E820Entry) : Prop :=
  p.stop < g.start.toNat ∨ g.stop ≤ p.addr.toNat

/-- The region is in the entry, whose end does not wrap. -/
def Around (g : HiddenRegion) (p : E820Entry) : Prop :=
  p.addr.toNat < g.start.toNat ∧ g.stop ≤ p.stop ∧ p.stop < 2 ^ 64

/-- The entry is in the region, and ends before it. -/
def Inside (g : HiddenRegion) (p : E820Entry) : Prop :=
  g.start.toNat ≤ p.addr.toNat ∧ 0 < p.size.toNat ∧ p.stop < g.stop

/-- The entry begins in the region and ends with the address space. -/
def Top (g : HiddenRegion) (p : E820Entry) : Prop :=
  g.start.toNat ≤ p.addr.toNat ∧ p.addr.toNat < g.stop ∧ p.stop = 2 ^ 64

instance (g : HiddenRegion) (p : E820Entry) : Decidable (g.Clear p) :=
  inferInstanceAs (Decidable (_ ∨ _))

instance (g : HiddenRegion) (p : E820Entry) : Decidable (g.Around p) :=
  inferInstanceAs (Decidable (_ ∧ _))

instance (g : HiddenRegion) (p : E820Entry) : Decidable (g.Inside p) :=
  inferInstanceAs (Decidable (_ ∧ _))

instance (g : HiddenRegion) (p : E820Entry) : Decidable (g.Top p) :=
  inferInstanceAs (Decidable (_ ∧ _))

end HiddenRegion

/-- No entry wraps, and no address is in two of them. -/
structure TidyMap (ps : List E820Entry) : Prop where
  noWrap : ∀ p ∈ ps, p.stop ≤ 2 ^ 64
  disjoint : ps.Pairwise fun p q => ∀ x, ¬ (p.Covers x ∧ q.Covers x)

namespace HiddenRegion

/-- The entry holds memory on both sides of the region. -/
def StrictlyIn (g : HiddenRegion) (p : E820Entry) : Prop :=
  p.type = e820Ram ∧ p.addr.toNat < g.start.toNat ∧ g.stop < p.stop

/-- No entry has to be split, or a reserved entry follows the one that has. -/
def HasRoom (g : HiddenRegion) (ps : List E820Entry) : Prop :=
  (∀ p ∈ ps, ¬ g.StrictlyIn p) ∨ ∃ before p after, ps = before ++ p :: after ∧ g.StrictlyIn p ∧
    ∃ q ∈ after, q.type = e820Reserved

/-- The entries after a run hold no usable memory but that outside the region, and all of it where
there is room. -/
structure HidesEntries (g : HiddenRegion) (ps : List E820Entry) : Prop where
  contained : ∀ locals : Indeterminate,
    ramSet (hideE820s g.start g.last locals 0 ps ⟨locals.replaceStart, 0#64⟩) ⊆
      ramSet ps \ g.addresses
  exact : g.HasRoom ps → ∀ locals : Indeterminate,
    ramSet (hideE820s g.start g.last locals 0 ps ⟨locals.replaceStart, 0#64⟩) =
      ramSet ps \ g.addresses

/-- Where the entries may lie.  What an entry inside the region is overwritten with may be usable
memory already, and may be what is lost of an entry that ends with the address space. -/
structure HidesRight (g : HiddenRegion) (ps : List E820Entry) : Prop where
  each : ∀ p ∈ ps, p.type = e820Ram → 0 < p.size.toNat →
    g.Clear p ∨ g.Around p ∨ g.Inside p ∨ g.Top p
  inside : ∀ p ∈ ps, p.type = e820Ram → g.Inside p → ∀ x, g.replacement.Covers x → x ∈ ramSet ps
  top : ∀ p ∈ ps, p.type = e820Ram → g.Top p → g.stop < 2 ^ 64 →
    ∃ q ∈ ps, q.type = e820Ram ∧ g.Inside q

end HiddenRegion

/-! ## One entry -/

section
variable {g : HiddenRegion} {p : E820Entry} {r : SplitPart} {newstart newend : BitVec 64}

theorem hideE820_ram (hram : p.type = e820Ram) : hideE820 g.start g.last newstart newend p r =
    if p.addr.toNat < g.start.toNat ∧ g.stop ≤ p.stop % 2 ^ 64 then
      ({ p with size := g.start - p.addr }, ⟨g.last + 1#64, p.addr + p.size - (g.last + 1#64)⟩)
    else if ¬ (g.start.toNat ≤ p.addr.toNat ∧ p.addr.toNat < g.stop) ∧
        ¬ (g.start.toNat ≤ p.stop % 2 ^ 64 ∧ p.stop % 2 ^ 64 < g.stop) then (p, r)
    else if p.addr.toNat < p.stop % 2 ^ 64 then
      ({ p with
        addr := if g.start.toNat ≤ p.addr.toNat ∧ p.addr.toNat < g.stop then g.last + 1#64
          else newstart
        size := (if g.start.toNat ≤ p.stop % 2 ^ 64 ∧ p.stop % 2 ^ 64 < g.stop then
            g.start - 1#64 else newend) -
          (if g.start.toNat ≤ p.addr.toNat ∧ p.addr.toNat < g.stop then g.last + 1#64
            else newstart) }, r)
    else ({ p with type := e820Reserved }, r) := by
  have h1 := g.start_pos
  have h2 := g.length_pos
  have hlast := g.toNat_last
  have hstop : g.stop = g.start.toNat + g.length.toNat := rfl
  have hend : (p.addr + p.size).toNat = p.stop % 2 ^ 64 := BitVec.toNat_add _ _
  have hle : ∀ x : BitVec 64, x ≤ g.last ↔ x.toNat < g.stop := by
    intro x
    rw [BitVec.le_def]
    omega
  have hlt : p.addr + p.size > g.last ↔ g.stop ≤ p.stop % 2 ^ 64 := by
    rw [gt_iff_lt, BitVec.lt_def, hend]
    omega
  unfold hideE820
  dsimp only
  rw [if_neg (not_not_intro hram)]
  simp only [ge_iff_le, BitVec.lt_def, BitVec.le_def, hle, hlt, hend, gt_iff_lt]

theorem hideE820_clear (hram : p.type = e820Ram) (hwrap : p.stop ≤ 2 ^ 64) (h : g.Clear p) :
    hideE820 g.start g.last newstart newend p r = (p, r) := by
  have hstop : p.stop = p.addr.toNat + p.size.toNat := rfl
  have hgstop : g.stop = g.start.toNat + g.length.toNat := rfl
  have hpos := g.start_pos
  have hnoWrap := g.noWrap
  unfold HiddenRegion.Clear at h
  rw [hideE820_ram hram, if_neg (by omega), if_pos (by omega)]

theorem hideE820_around (hram : p.type = e820Ram) (h : g.Around p) :
    hideE820 g.start g.last newstart newend p r =
      ({ p with size := g.start - p.addr },
        ⟨g.last + 1#64, p.addr + p.size - (g.last + 1#64)⟩) := by
  obtain ⟨hstart, hstop, hwrap⟩ := h
  rw [hideE820_ram hram, if_pos ⟨hstart, by rwa [Nat.mod_eq_of_lt hwrap]⟩]

theorem hideE820_inside (hram : p.type = e820Ram) (h : g.Inside p) :
    hideE820 g.start g.last newstart newend p r = (g.replacement, r) := by
  obtain ⟨hstart, hpos, hstop⟩ := h
  have hdef : p.stop = p.addr.toNat + p.size.toNat := rfl
  have hnoWrap := g.noWrap
  have hgstop : g.stop = g.start.toNat + g.length.toNat := rfl
  have hmod : p.stop % 2 ^ 64 = p.stop := Nat.mod_eq_of_lt (by omega)
  rw [hideE820_ram hram, hmod, if_neg (by omega), if_neg (by omega), if_pos (by omega),
    if_pos (by omega), if_pos (by omega), hram]
  rfl

/-- An entry that begins in the region, and is empty or ends with the address space. -/
theorem hideE820_reserved (hram : p.type = e820Ram) (hstart : g.start.toNat ≤ p.addr.toNat)
    (hlt : p.addr.toNat < g.stop) (h : p.size.toNat = 0 ∨ p.stop = 2 ^ 64) :
    hideE820 g.start g.last newstart newend p r = ({ p with type := e820Reserved }, r) := by
  have hdef : p.stop = p.addr.toNat + p.size.toNat := rfl
  have haddr := p.addr.isLt
  rw [hideE820_ram hram, if_neg (by omega), if_neg (by omega), if_neg (by omega)]

/-! The other entries are given bounds that are not theirs, or keep the region. -/

theorem hideE820_touching (hram : p.type = e820Ram) (haddr : p.addr.toNat < g.start.toNat)
    (hstart : g.start.toNat ≤ p.stop) (hstop : p.stop < g.stop) :
    hideE820 g.start g.last newstart newend p r =
      ({ p with addr := newstart, size := g.start - 1#64 - newstart }, r) := by
  have hnoWrap := g.noWrap
  have hgstop : g.stop = g.start.toNat + g.length.toNat := rfl
  have hmod : p.stop % 2 ^ 64 = p.stop := Nat.mod_eq_of_lt (by omega)
  rw [hideE820_ram hram, hmod, if_neg (by omega), if_neg (by omega), if_pos (by omega),
    if_neg (by omega), if_pos (by omega)]

theorem hideE820_over (hram : p.type = e820Ram) (haddr : p.addr.toNat < g.start.toNat)
    (hstop : p.stop = 2 ^ 64) : hideE820 g.start g.last newstart newend p r = (p, r) := by
  have hpos := g.start_pos
  have hlen := g.length_pos
  have hgstop : g.stop = g.start.toNat + g.length.toNat := rfl
  rw [hideE820_ram hram, hstop, Nat.mod_self, if_neg (by omega), if_pos (by omega)]

theorem hideE820_starting (hram : p.type = e820Ram) (hstart : g.start.toNat ≤ p.addr.toNat)
    (haddr : p.addr.toNat < g.stop) (hstop : g.stop ≤ p.stop) (hwrap : p.stop < 2 ^ 64) :
    hideE820 g.start g.last newstart newend p r =
      ({ p with addr := g.last + 1#64, size := newend - (g.last + 1#64) }, r) := by
  have hmod : p.stop % 2 ^ 64 = p.stop := Nat.mod_eq_of_lt hwrap
  rw [hideE820_ram hram, hmod, if_neg (by omega), if_neg (by omega), if_pos (by omega),
    if_pos (by omega), if_neg (by omega)]

end

/-! ## Runs over the entries -/

section
variable {hidestart hideend : BitVec 64} {locals : Indeterminate} {I : SplitPart → Prop}

/-- What is left is what the turns leave of the entries, with a part waiting that keeps what every
turn keeps. -/
theorem mem_hideE820s {ps : List E820Entry}
    (hstep : ∀ p ∈ ps, ∀ newstart newend r, I r →
      I (hideE820 hidestart hideend newstart newend p r).2) :
    ∀ {turn : Nat} {r : SplitPart}, I r → ∀ q ∈ hideE820s hidestart hideend locals turn ps r,
      ∃ p ∈ ps, ∃ newstart newend r', I r' ∧
        q = (hideE820 hidestart hideend newstart newend p r').1 := by
  induction ps with
  | nil => exact fun _ q hq => absurd hq List.not_mem_nil
  | cons p ps ih =>
    intro turn r hr q hq
    obtain ⟨hp, hps⟩ := List.forall_mem_cons.mp hstep
    rcases List.mem_cons.mp hq with rfl | hq
    · exact ⟨p, List.mem_cons_self, _, _, r, hr, rfl⟩
    · obtain ⟨p', hp', h⟩ := ih hps (hp _ _ r hr) q hq
      exact ⟨p', List.mem_cons_of_mem _ hp', h⟩

theorem hideE820s_append (hidestart hideend : BitVec 64) (locals : Indeterminate)
    (ps : List E820Entry) : ∀ (turn : Nat) (r : SplitPart),
    ∃ out turn' r', ∀ qs, hideE820s hidestart hideend locals turn (ps ++ qs) r =
      out ++ hideE820s hidestart hideend locals turn' qs r' := by
  induction ps with
  | nil => exact fun turn r => ⟨[], turn, r, fun _ => rfl⟩
  | cons p ps ih =>
    intro turn r
    obtain ⟨out, turn', r', h⟩ := ih (turn + 1)
      (hideE820 hidestart hideend (locals.newstart turn) (locals.newend turn) p r).2
    exact ⟨_ :: out, turn', r', fun qs => congrArg (List.cons _) (h qs)⟩

/-- Every entry has its turn. -/
theorem exists_mem_hideE820s (hidestart hideend : BitVec 64) (locals : Indeterminate)
    {ps : List E820Entry} {p : E820Entry} (hp : p ∈ ps) (turn : Nat) (r : SplitPart) :
    ∃ turn' r', (hideE820 hidestart hideend (locals.newstart turn') (locals.newend turn') p r').1 ∈
      hideE820s hidestart hideend locals turn ps r := by
  obtain ⟨before, after, rfl⟩ := List.append_of_mem hp
  obtain ⟨out, turn', r', h⟩ := hideE820s_append hidestart hideend locals before turn r
  refine ⟨turn', r', ?_⟩
  rw [h]
  exact List.mem_append_right _ List.mem_cons_self

end

/-! ## What is left -/

section
variable {g : HiddenRegion} {p : E820Entry} {r : SplitPart} {newstart newend : BitVec 64}
  {ps : List E820Entry} {locals : Indeterminate}

theorem HiddenRegion.toNat_last_add_one : (g.last + 1#64).toNat = g.stop % 2 ^ 64 := by
  have hlast := g.toNat_last
  have hlen := g.length_pos
  have hgstop : g.stop = g.start.toNat + g.length.toNat := rfl
  rw [BitVec.toNat_add, hlast, BitVec.toNat_ofNat]
  omega

/-- The bounds of an entry inside the region become those of nearly everything else. -/
theorem HiddenRegion.replacement_covers {x : Nat} : g.replacement.Covers x ↔
    g.stop % 2 ^ 64 ≤ x ∧ x < g.stop % 2 ^ 64 + (2 ^ 64 - 1 - g.length.toNat) := by
  have hone := g.toNat_last_add_one
  have hpos := g.start_pos
  have hlen := g.length_pos
  have hnoWrap := g.noWrap
  have hgstop : g.stop = g.start.toNat + g.length.toNat := rfl
  have hsize : (g.start - 1#64 - (g.last + 1#64)).toNat = 2 ^ 64 - 1 - g.length.toNat := by
    rw [BitVec.toNat_sub, BitVec.toNat_sub, hone, BitVec.toNat_ofNat]
    omega
  unfold E820Entry.Covers replacement
  dsimp only
  rw [hone, hsize]

/-- An entry around the region keeps what is below it, and the part above it waits. -/
theorem HiddenRegion.Around.covers (h : g.Around p) {x : Nat} :
    (({ p with size := g.start - p.addr } : E820Entry).Covers x ↔
        p.Covers x ∧ x < g.start.toNat) ∧
      (x ∈ SplitPart.addresses ⟨g.last + 1#64, p.addr + p.size - (g.last + 1#64)⟩ ↔
        p.Covers x ∧ g.stop ≤ x) := by
  obtain ⟨hstart, hstop, hwrap⟩ := h
  have hone := g.toNat_last_add_one
  have hgstop : g.stop = g.start.toNat + g.length.toNat := rfl
  have hdef : p.stop = p.addr.toNat + p.size.toNat := rfl
  have hfirst : (g.start - p.addr).toNat = g.start.toNat - p.addr.toNat :=
    BitVec.toNat_sub_of_le (by rw [BitVec.le_def]; omega)
  have hsecond : (p.addr + p.size - (g.last + 1#64)).toNat = p.stop - g.stop := by
    rw [BitVec.toNat_sub, hone, BitVec.toNat_add]
    omega
  constructor
  · unfold E820Entry.Covers
    dsimp only
    rw [hfirst]
    omega
  · change (g.last + 1#64).toNat ≤ x ∧ x < (g.last + 1#64).toNat +
      (p.addr + p.size - (g.last + 1#64)).toNat ↔ _
    unfold E820Entry.Covers
    rw [hone, hsecond, Nat.mod_eq_of_lt (by omega)]
    omega

theorem HiddenRegion.not_mem_addresses_of_replacement {x : Nat} (h : g.replacement.Covers x) :
    x ∉ g.addresses := by
  rw [g.replacement_covers] at h
  have hnoWrap := g.noWrap
  have hpos := g.start_pos
  have hgstop : g.stop = g.start.toNat + g.length.toNat := rfl
  rintro ⟨hstart, hstop⟩
  omega

theorem hideE820_other (h : p.type ≠ e820Ram) : hideE820 g.start g.last newstart newend p r =
    if r.size ≠ 0#64 ∧ p.type = e820Reserved then (⟨r.start, r.size, e820Ram⟩, ⟨r.start, 0#64⟩)
    else (p, r) := if_pos h

/-- Only an entry around the region makes a part wait. -/
theorem hideE820_same_part (hram : p.type = e820Ram) (hwrap : p.stop ≤ 2 ^ 64)
    (h : ¬ g.Around p) : (hideE820 g.start g.last newstart newend p r).2 = r := by
  have hsplit : ¬ (p.addr.toNat < g.start.toNat ∧ g.stop ≤ p.stop % 2 ^ 64) := by
    rintro ⟨hstart, hstop⟩
    have hpos := g.start_pos
    have hgstop : g.stop = g.start.toNat + g.length.toNat := rfl
    exact h ⟨hstart, by omega, by omega⟩
  rw [hideE820_ram hram, if_neg hsplit]
  split
  · rfl
  · split <;> rfl

theorem SplitPart.addresses_empty {start : BitVec 64} :
    SplitPart.addresses ⟨start, 0#64⟩ = ∅ := by
  refine Set.eq_empty_of_forall_notMem fun x hx => ?_
  obtain ⟨hle, hlt⟩ : start.toNat ≤ x ∧ x < start.toNat + 0 := hx
  omega

/-- A turn keeps the waiting part outside the region, in usable memory. -/
theorem hideE820_waits (hp : p ∈ ps) (hwrap : p.stop ≤ 2 ^ 64)
    (hr : r.addresses ⊆ ramSet ps \ g.addresses) :
    (hideE820 g.start g.last newstart newend p r).2.addresses ⊆ ramSet ps \ g.addresses := by
  by_cases hram : p.type = e820Ram
  · by_cases haround : g.Around p
    · rw [hideE820_around hram haround]
      intro x hx
      obtain ⟨hcovers, hle⟩ := haround.covers.2.mp hx
      exact ⟨⟨p, hp, hram, hcovers⟩, fun hin => Nat.not_le.mpr hin.2 hle⟩
    · rw [hideE820_same_part hram hwrap haround]
      exact hr
  · rw [hideE820_other hram]
    split
    · rw [SplitPart.addresses_empty]
      exact Set.empty_subset _
    · exact hr

/-- What a turn leaves of an entry is usable memory outside the region. -/
theorem hideE820_contained (h : g.HidesRight ps) (hp : p ∈ ps) (hwrap : p.stop ≤ 2 ^ 64)
    (hr : r.addresses ⊆ ramSet ps \ g.addresses) {x : Nat}
    (hleft : (hideE820 g.start g.last newstart newend p r).1.type = e820Ram)
    (hx : (hideE820 g.start g.last newstart newend p r).1.Covers x) :
    x ∈ ramSet ps \ g.addresses := by
  have hdef : p.stop = p.addr.toNat + p.size.toNat := rfl
  by_cases hram : p.type = e820Ram
  · by_cases hclear : g.Clear p
    · rw [hideE820_clear hram hwrap hclear] at hx
      have hx : p.addr.toNat ≤ x ∧ x < p.addr.toNat + p.size.toNat := hx
      refine ⟨⟨p, hp, hram, hx⟩, ?_⟩
      rintro ⟨hstart, hstop⟩
      unfold HiddenRegion.Clear at hclear
      omega
    by_cases hempty : p.size.toNat = 0
    · unfold HiddenRegion.Clear at hclear
      rw [hideE820_reserved hram (by omega) (by omega) (.inl hempty)] at hleft
      cases hleft
    rcases h.each p hp hram (Nat.pos_of_ne_zero hempty) with hc | haround | hinside | htop
    · exact absurd hc hclear
    · rw [hideE820_around hram haround] at hx
      obtain ⟨hcovers, hlt⟩ := haround.covers.1.mp hx
      exact ⟨⟨p, hp, hram, hcovers⟩, fun hin => Nat.not_le.mpr hlt hin.1⟩
    · rw [hideE820_inside hram hinside] at hx
      exact ⟨h.inside p hp hram hinside x hx, HiddenRegion.not_mem_addresses_of_replacement hx⟩
    · rw [hideE820_reserved hram htop.1 htop.2.1 (.inr htop.2.2)] at hleft
      cases hleft
  · rw [hideE820_other hram] at hleft hx
    split at hx
    · exact hr hx
    · next hne =>
      rw [if_neg hne] at hleft
      exact absurd hleft hram

theorem hidesRight_contained (htidy : TidyMap ps) (h : g.HidesRight ps) (turn : Nat)
    (hr : r.addresses ⊆ ramSet ps \ g.addresses) :
    ramSet (hideE820s g.start g.last locals turn ps r) ⊆ ramSet ps \ g.addresses := by
  rintro x ⟨q, hq, hram, hx⟩
  obtain ⟨p, hp, newstart, newend, r', hr', rfl⟩ :=
    mem_hideE820s (I := fun r => r.addresses ⊆ ramSet ps \ g.addresses)
      (fun p hp _ _ _ hr => hideE820_waits hp (htidy.noWrap p hp) hr) hr q hq
  exact hideE820_contained h hp (htidy.noWrap p hp) hr' hram hx

/-- A waiting part becomes usable memory at the next reserved entry. -/
theorem waits_for_reserved {x : Nat} (hx : x ∈ r.addresses) : ∀ (turn : Nat),
    (∀ p ∈ ps, p.stop ≤ 2 ^ 64 ∧ (p.type = e820Ram → ¬ g.Around p)) →
      (∃ q ∈ ps, q.type = e820Reserved) →
      x ∈ ramSet (hideE820s g.start g.last locals turn ps r) := by
  have hsize : r.size ≠ 0#64 := by
    intro hzero
    obtain ⟨hle, hlt⟩ : r.start.toNat ≤ x ∧ x < r.start.toNat + r.size.toNat := hx
    rw [hzero] at hlt
    exact absurd hlt (Nat.not_lt.mpr hle)
  induction ps with
  | nil =>
    rintro _ _ ⟨q, hq, -⟩
    cases hq
  | cons p ps ih =>
    rintro turn hps ⟨q, hq, hreserved⟩
    obtain ⟨⟨hwrap, haround⟩, hps⟩ := List.forall_mem_cons.mp hps
    by_cases hp : p.type = e820Reserved
    · have hother : p.type ≠ e820Ram := by
        rw [hp]
        decide
      refine ⟨_, List.mem_cons_self, ?_, ?_⟩
      · rw [hideE820_other hother, if_pos ⟨hsize, hp⟩]
      · rw [hideE820_other hother, if_pos ⟨hsize, hp⟩]
        exact hx
    · have hq : q ∈ ps := by
        rcases List.mem_cons.mp hq with rfl | hq
        · exact absurd hreserved hp
        · exact hq
      have hsame :
          (hideE820 g.start g.last (locals.newstart turn) (locals.newend turn) p r).2 = r := by
        by_cases hram : p.type = e820Ram
        · exact hideE820_same_part hram hwrap (haround hram)
        · rw [hideE820_other hram, if_neg (fun h => hp h.2)]
      obtain ⟨q', hq', hram, hcovers⟩ := ih (turn + 1) hps ⟨q, hq, hreserved⟩
      refine ⟨q', List.mem_cons_of_mem _ ?_, hram, hcovers⟩
      rwa [hsame]

theorem TidyMap.eq_of_covers (h : TidyMap ps) {q : E820Entry} (hp : p ∈ ps) (hq : q ∈ ps)
    {x : Nat} (hpx : p.Covers x) (hqx : q.Covers x) : p = q := by
  refine Decidable.byContradiction fun hne => ?_
  have hsymm : Std.Symm fun p q : E820Entry => ∀ x, ¬ (p.Covers x ∧ q.Covers x) :=
    ⟨fun _ _ h x hx => h x hx.symm⟩
  exact h.disjoint.forall hp hq hne x ⟨hpx, hqx⟩

/-- An entry around the region holds its first address. -/
theorem HiddenRegion.Around.covers_start (h : g.Around p) : p.Covers g.start.toNat := by
  obtain ⟨hstart, hstop, -⟩ := h
  have hlen := g.length_pos
  have hgstop : g.stop = g.start.toNat + g.length.toNat := rfl
  have hdef : p.stop = p.addr.toNat + p.size.toNat := rfl
  unfold E820Entry.Covers
  omega

/-- The part of an entry above the region is usable memory after the run. -/
theorem left_above (htidy : TidyMap ps) (hroom : g.HasRoom ps) (hp : p ∈ ps)
    (hram : p.type = e820Ram) (haround : g.Around p) {x : Nat} (hx : p.Covers x)
    (habove : g.stop ≤ x) (turn : Nat) :
    x ∈ ramSet (hideE820s g.start g.last locals turn ps r) := by
  have hdef : p.stop = p.addr.toNat + p.size.toNat := rfl
  have hstrict : g.StrictlyIn p := ⟨hram, haround.1, by have := hx.2; omega⟩
  rcases hroom with hnone | ⟨before, p', after, rfl, hstrict', hreserved⟩
  · exact absurd hstrict (hnone p hp)
  have hp' : p' ∈ before ++ p' :: after := List.mem_append_right _ List.mem_cons_self
  have hcovers' : p'.Covers g.start.toNat := by
    have hlen := g.length_pos
    have hgstop : g.stop = g.start.toNat + g.length.toNat := rfl
    have hdef' : p'.stop = p'.addr.toNat + p'.size.toNat := rfl
    have hstart := hstrict'.2.1
    have hstop := hstrict'.2.2
    unfold E820Entry.Covers
    omega
  obtain rfl := htidy.eq_of_covers hp hp' haround.covers_start hcovers'
  obtain ⟨out, turn', r', happend⟩ := hideE820s_append g.start g.last locals before turn r
  have hlater := (List.pairwise_cons.mp (List.pairwise_append.mp htidy.disjoint).2.1).1
  have hafter : x ∈ ramSet (hideE820s g.start g.last locals (turn' + 1) after
      (hideE820 g.start g.last (locals.newstart turn') (locals.newend turn') p r').2) := by
    refine waits_for_reserved ?_ (turn' + 1) (fun q hq => ⟨?_, fun _ hround => ?_⟩) hreserved
    · rw [hideE820_around hram haround]
      exact haround.covers.2.mpr ⟨hx, habove⟩
    · exact htidy.noWrap q (List.mem_append_right _ (List.mem_cons_of_mem _ hq))
    · exact hlater q hq g.start.toNat ⟨haround.covers_start, hround.covers_start⟩
  obtain ⟨q, hq, hqram, hqx⟩ := hafter
  refine ⟨q, ?_, hqram, hqx⟩
  rw [happend]
  exact List.mem_append_right _ (List.mem_cons_of_mem _ hq)

/-- No usable memory outside the region is lost. -/
theorem hidesRight_left (htidy : TidyMap ps) (h : g.HidesRight ps) (hroom : g.HasRoom ps)
    (turn : Nat) :
    ramSet ps \ g.addresses ⊆ ramSet (hideE820s g.start g.last locals turn ps r) := by
  rintro x ⟨⟨p, hp, hram, hx⟩, hout⟩
  have hdef : p.stop = p.addr.toNat + p.size.toNat := rfl
  have hbounds : p.addr.toNat ≤ x ∧ x < p.stop := hx
  have hout : ¬ (g.start.toNat ≤ x ∧ x < g.stop) := hout
  obtain ⟨turn', r', hmem⟩ := exists_mem_hideE820s g.start g.last locals hp turn r
  rcases h.each p hp hram (by omega) with hclear | haround | hinside | htop
  · rw [hideE820_clear hram (htidy.noWrap p hp) hclear] at hmem
    exact ⟨p, hmem, hram, hx⟩
  · by_cases hlt : x < g.start.toNat
    · rw [hideE820_around hram haround] at hmem
      exact ⟨_, hmem, hram, haround.covers.1.mpr ⟨hx, hlt⟩⟩
    · exact left_above htidy hroom hp hram haround hx (by omega) turn
  · obtain ⟨hstart, -, hstop⟩ := hinside
    omega
  · -- another entry is given the bounds of all that is above the region
    have hlt : g.stop < 2 ^ 64 := by
      obtain ⟨hstart, -, hend⟩ := htop
      omega
    obtain ⟨q, hq, hqram, hinside⟩ := h.top p hp hram htop hlt
    obtain ⟨turn', r', hmem⟩ := exists_mem_hideE820s g.start g.last locals hq turn r
    rw [hideE820_inside hqram hinside] at hmem
    refine ⟨_, hmem, rfl, ?_⟩
    obtain ⟨hstart, -, hend⟩ := htop
    have hgstop : g.stop = g.start.toNat + g.length.toNat := rfl
    have hpos := g.start_pos
    rw [g.replacement_covers, Nat.mod_eq_of_lt hlt]
    omega

/-! ## Entries that cannot be hidden from -/

/-- Locals with which a bound that is not set comes from inside the region. -/
def HiddenRegion.badLocals (g : HiddenRegion) : Indeterminate :=
  ⟨0#64, fun _ => g.start, fun _ => g.last⟩

/-- Where an entry lies that is touched at one end only, or that holds the region and ends with the
address space. -/
theorem HiddenRegion.HidesEntries.each (htidy : TidyMap ps) (h : g.HidesEntries ps) (hp : p ∈ ps)
    (hram : p.type = e820Ram) (hpos : 0 < p.size.toNat) :
    g.Clear p ∨ g.Around p ∨ g.Inside p ∨ g.Top p := by
  have hdef : p.stop = p.addr.toNat + p.size.toNat := rfl
  have hgstop : g.stop = g.start.toNat + g.length.toNat := rfl
  have hgpos := g.start_pos
  have hglen := g.length_pos
  have hgwrap := g.noWrap
  have hwrap := htidy.noWrap p hp
  have hstart : g.start.toNat ∈ g.addresses := ⟨Nat.le_refl _, by omega⟩
  obtain ⟨turn, r, hmem⟩ := exists_mem_hideE820s g.start g.last g.badLocals hp 0 ⟨0#64, 0#64⟩
  have hcontained := h.contained g.badLocals
  by_cases hclear : g.Clear p
  · exact .inl hclear
  unfold HiddenRegion.Clear at hclear
  by_cases haddr : p.addr.toNat < g.start.toNat
  · by_cases hstop : p.stop < g.stop
    · rw [hideE820_touching hram haddr (by omega) hstop] at hmem
      refine absurd hstart (hcontained ⟨_, hmem, hram, ?_⟩).2
      have hsize : (g.start - 1#64 - g.start).toNat = 2 ^ 64 - 1 := by
        bv_omega
      change g.start.toNat ≤ g.start.toNat ∧
        g.start.toNat < g.start.toNat + (g.start - 1#64 - g.start).toNat
      omega
    · by_cases htop : p.stop = 2 ^ 64
      · rw [hideE820_over hram haddr htop] at hmem
        refine absurd hstart (hcontained ⟨p, hmem, hram, ?_⟩).2
        unfold E820Entry.Covers
        omega
      · exact .inr (.inl ⟨haddr, by omega, by omega⟩)
  · by_cases hstop : p.stop < g.stop
    · exact .inr (.inr (.inl ⟨by omega, hpos, hstop⟩))
    · by_cases htop : p.stop = 2 ^ 64
      · exact .inr (.inr (.inr ⟨by omega, by omega, htop⟩))
      · rw [hideE820_starting hram (by omega) (by omega) (by omega) (by omega)] at hmem
        have hone := g.toNat_last_add_one
        have hsize : (g.last - (g.last + 1#64)).toNat = 2 ^ 64 - 1 := by
          bv_omega
        obtain ⟨⟨q, hq, -, hover⟩, -⟩ := hcontained (show 2 ^ 64 ∈ _ from ⟨_, hmem, hram, by
          change (g.last + 1#64).toNat ≤ 2 ^ 64 ∧
            2 ^ 64 < (g.last + 1#64).toNat + (g.last - (g.last + 1#64)).toNat
          omega⟩)
        have hqwrap := htidy.noWrap q hq
        exact absurd hover.2 (Nat.not_lt.mpr hqwrap)

/-- Nothing waits where no entry is around the region. -/
theorem hideE820_nothing_waits (hwrap : p.stop ≤ 2 ^ 64) (hno : p.type = e820Ram → ¬ g.Around p)
    (hr : r.size = 0#64) : (hideE820 g.start g.last newstart newend p r).2.size = 0#64 := by
  by_cases hram : p.type = e820Ram
  · rw [hideE820_same_part hram hwrap (hno hram)]
    exact hr
  · rw [hideE820_other hram, if_neg (fun h => h.1 hr)]
    exact hr

/-- An entry that begins in the region and ends with the address space is lost, unless another one
is given its bounds. -/
theorem HiddenRegion.HidesEntries.top (htidy : TidyMap ps) (h : g.HidesEntries ps) (hp : p ∈ ps)
    (hram : p.type = e820Ram) (htop : g.Top p) (hstop : g.stop < 2 ^ 64) :
    ∃ q ∈ ps, q.type = e820Ram ∧ g.Inside q := by
  by_contra hnone
  have hdef : p.stop = p.addr.toNat + p.size.toNat := rfl
  obtain ⟨hstart, haddr, hend⟩ := htop
  have hlast : p.Covers g.stop := by
    unfold E820Entry.Covers
    omega
  have hfirst : p.Covers p.addr.toNat := by
    unfold E820Entry.Covers
    omega
  -- whatever reaches from below the region to its end would meet `p`
  have hbelow : ∀ q ∈ ps, q.addr.toNat < g.start.toNat → g.stop ≤ q.stop → False := by
    intro q hq hqstart hqstop
    have hqdef : q.stop = q.addr.toNat + q.size.toNat := rfl
    have hqx : q.Covers p.addr.toNat := by
      unfold E820Entry.Covers
      omega
    obtain rfl := htidy.eq_of_covers hp hq hfirst hqx
    omega
  have hroom : g.HasRoom ps :=
    .inl fun q hq hstrict => hbelow q hq hstrict.2.1 (Nat.le_of_lt hstrict.2.2)
  have hleft : g.stop ∈ ramSet (hideE820s g.start g.last .zero 0 ps
      ⟨Indeterminate.zero.replaceStart, 0#64⟩) := by
    rw [h.exact hroom .zero]
    exact ⟨⟨p, hp, hram, hlast⟩, fun hin => Nat.lt_irrefl _ hin.2⟩
  obtain ⟨q', hq', hqram, hqx⟩ := hleft
  obtain ⟨q, hq, newstart, newend, r, hr, rfl⟩ := mem_hideE820s (I := fun r => r.size = 0#64)
    (fun q hq _ _ _ hr => hideE820_nothing_waits (htidy.noWrap q hq)
      (fun _ haround => hbelow q hq haround.1 haround.2.1) hr) rfl q' hq'
  by_cases hother : q.type = e820Ram
  · have hqdef : q.stop = q.addr.toNat + q.size.toNat := rfl
    by_cases hclear : g.Clear q
    · rw [hideE820_clear hother (htidy.noWrap q hq) hclear] at hqx
      obtain rfl := htidy.eq_of_covers hp hq hlast hqx
      unfold HiddenRegion.Clear at hclear
      omega
    by_cases hempty : q.size.toNat = 0
    · unfold HiddenRegion.Clear at hclear
      rw [hideE820_reserved hother (by omega) (by omega) (.inl hempty)] at hqram
      cases hqram
    rcases h.each htidy hq hother (Nat.pos_of_ne_zero hempty) with hc | haround | hinside | htop
    · exact hclear hc
    · exact hbelow q hq haround.1 haround.2.1
    · exact hnone ⟨q, hq, hother, hinside⟩
    · rw [hideE820_reserved hother htop.1 htop.2.1 (.inr htop.2.2)] at hqram
      cases hqram
  · rw [hideE820_other hother, if_neg (fun h => h.1 hr)] at hqram
    exact hother hqram

/-- On a tidy map the entries are hidden from exactly where they lie right. -/
theorem hidesEntries_iff (htidy : TidyMap ps) : g.HidesEntries ps ↔ g.HidesRight ps := by
  constructor
  · intro h
    refine ⟨fun p hp => h.each htidy hp, fun p hp hram hinside x hx => ?_,
      fun p hp => h.top htidy hp⟩
    obtain ⟨turn, r, hmem⟩ := exists_mem_hideE820s g.start g.last .zero hp 0 ⟨0#64, 0#64⟩
    rw [hideE820_inside hram hinside] at hmem
    exact (h.contained .zero ⟨_, hmem, rfl, hx⟩).1
  · intro h
    have hnothing : ∀ start, SplitPart.addresses ⟨start, 0#64⟩ ⊆ ramSet ps \ g.addresses := by
      intro start
      rw [SplitPart.addresses_empty]
      exact Set.empty_subset _
    have hcontained : ∀ locals : Indeterminate,
        ramSet (hideE820s g.start g.last locals 0 ps ⟨locals.replaceStart, 0#64⟩) ⊆
          ramSet ps \ g.addresses :=
      fun locals => hidesRight_contained htidy h 0 (hnothing locals.replaceStart)
    exact ⟨hcontained, fun hroom locals =>
      Set.Subset.antisymm (hcontained locals) (hidesRight_left htidy h hroom 0)⟩

end

/-! ## The memory map -/

/-- `hide_memory` ends, whatever its locals contain.  It leaves no usable memory but that outside
the region, and all of it where there is room. -/
structure HidesExactly (mbi : MultibootInfo) (g : HiddenRegion) (m : Mem) : Prop where
  ends : ∀ locals, ∃ fuel s,
    (hideMemory mbi g.start g.length locals fuel).Returns (hideStart locals m) () s
  contained : ∀ locals fuel s,
    (hideMemory mbi g.start g.length locals fuel).Returns (hideStart locals m) () s →
      ramSet (mbi.entries s.mem) ⊆ ramSet (mbi.entries m) \ g.addresses
  exact : g.HasRoom (mbi.entries m) → ∀ locals fuel s,
    (hideMemory mbi g.start g.length locals fuel).Returns (hideStart locals m) () s →
      ramSet (mbi.entries s.mem) = ramSet (mbi.entries m) \ g.addresses

section
variable {mbi : MultibootInfo} {g : HiddenRegion} {m : Mem} {rs : List MapRecord}

theorem hidesExactly_iff_entries (h : MapAt mbi rs m) :
    HidesExactly mbi g m ↔ g.HidesEntries (mbi.entries m) := by
  have hrun : ∀ locals, ∃ fuel s,
      (hideMemory mbi g.start g.length locals fuel).Returns (hideStart locals m) () s ∧
        mbi.entries s.mem = hideE820s g.start g.last locals 0 (mbi.entries m)
          ⟨locals.replaceStart, 0#64⟩ := fun locals => hideMemory_entries h
  constructor
  · intro hides
    constructor
    · intro locals
      obtain ⟨fuel, s, hreturns, hentries⟩ := hrun locals
      rw [← hentries]
      exact hides.contained locals fuel s hreturns
    · intro hroom locals
      obtain ⟨fuel, s, hreturns, hentries⟩ := hrun locals
      rw [← hentries]
      exact hides.exact hroom locals fuel s hreturns
  · intro hides
    have hall : ∀ locals fuel s,
        (hideMemory mbi g.start g.length locals fuel).Returns (hideStart locals m) () s →
          mbi.entries s.mem = hideE820s g.start g.last locals 0 (mbi.entries m)
            ⟨locals.replaceStart, 0#64⟩ := by
      intro locals fuel s hreturns
      obtain ⟨fuel', s', hreturns', hentries⟩ := hrun locals
      rw [hideMemory_unique hreturns hreturns']
      exact hentries
    refine ⟨fun locals => ?_, fun locals fuel s hs => ?_, fun hroom locals fuel s hs => ?_⟩
    · obtain ⟨fuel, s, hreturns, -⟩ := hrun locals
      exact ⟨fuel, s, hreturns⟩
    · rw [hall locals fuel s hs]
      exact hides.contained locals
    · rw [hall locals fuel s hs]
      exact hides.exact hroom locals

/-- On a tidy map of the boot loader, memory is hidden exactly where the entries lie right. -/
theorem hidesExactly_iff (h : MapAt mbi rs m) (htidy : TidyMap (mbi.entries m)) :
    HidesExactly mbi g m ↔ g.HidesRight (mbi.entries m) :=
  (hidesExactly_iff_entries h).trans (hidesEntries_iff htidy)

end

/-- A page in the middle of the memory below 640 KB. -/
def pageToHide : HiddenRegion where
  start := 0x10000#64
  length := 0x1000#64
  start_pos := by decide
  length_pos := by decide
  noWrap := by decide

theorem hidesExactly_iff_two : HidesExactly (.of twoRecords) pageToHide
    (.ofBytes 0x9000#64 (encode twoRecords)) := by
  have hmap : MapAt (.of twoRecords) twoRecords (.ofBytes 0x9000#64 (encode twoRecords)) :=
    mapAt_of (by decide)
  have hentries := hmap.entries_eq
  have htidy : TidyMap (MultibootInfo.entries (.of twoRecords)
      (.ofBytes 0x9000#64 (encode twoRecords))) := by
    rw [hentries]
    refine ⟨by decide, List.pairwise_pair.mpr fun x ⟨hfirst, hsecond⟩ => ?_⟩
    exact absurd (Nat.lt_of_le_of_lt hsecond.1 hfirst.2) (by simp)
  refine (hidesExactly_iff hmap htidy).mpr ?_
  rw [hentries]
  have hinside : ∀ p ∈ twoRecords.map MapRecord.entry, ¬ pageToHide.Inside p := by decide
  have htop : ∀ p ∈ twoRecords.map MapRecord.entry, ¬ pageToHide.Top p := by decide
  exact ⟨by decide, fun p hp _ h => absurd h (hinside p hp), fun p hp _ h => absurd h (htop p hp)⟩

/-- Usable memory from 1 MB on. -/
def memoryAbove : List MapRecord :=
  [⟨20#32, ⟨0x100000#64, 0x7f00000#64, e820Ram⟩, [], MapRecord.size_plain⟩]

/-- The first megabyte of it. -/
def firstMegabyte : HiddenRegion where
  start := 0x100000#64
  length := 0x100000#64
  start_pos := by decide
  length_pos := by decide
  noWrap := by decide

/-- What is stored over the entry is what `newend` happens to contain. -/
theorem not_hidesExactly :
    MapAt (.of memoryAbove) memoryAbove (.ofBytes 0x9000#64 (encode memoryAbove)) ∧
      TidyMap (memoryAbove.map MapRecord.entry) ∧
      ¬ HidesExactly (.of memoryAbove) firstMegabyte
        (.ofBytes 0x9000#64 (encode memoryAbove)) := by
  have hmap : MapAt (.of memoryAbove) memoryAbove (.ofBytes 0x9000#64 (encode memoryAbove)) :=
    mapAt_of (by decide)
  have htidy : TidyMap (memoryAbove.map MapRecord.entry) :=
    ⟨by decide, List.pairwise_singleton _ _⟩
  refine ⟨hmap, htidy, fun h => ?_⟩
  have hentries := (hidesExactly_iff_entries hmap).mp h
  rw [hmap.entries_eq] at hentries
  have heach := hentries.each htidy List.mem_cons_self rfl (by simp)
  revert heach
  decide

end Mavmm
