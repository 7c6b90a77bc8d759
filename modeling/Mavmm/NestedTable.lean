import Mavmm.PageTable

/-!
# The nested page table (vm.c)

`create_2mb_nested_pagetable` identity-maps the first 2 GB of guest-physical
memory but for the 2 MB pages that meet the region of the monitor.  When the
tables get fresh frames, exactly the pages that were not skipped translate,
each to itself.
-/

namespace Mavmm

/-- Whether the loop of `create_2mb_nested_pagetable` skips the page at `guestPaddr`. -/
def skipped (vmmPagestart vmmPageend guestPaddr : BitVec 64) : Bool :=
  (guestPaddr ≥ vmmPagestart ∧ guestPaddr ≤ vmmPageend) ∨
    (guestPaddr + pageSize2mb ≥ vmmPagestart ∧ guestPaddr + pageSize4mb ≤ vmmPageend)

/-- `create_2mb_nested_pagetable`. -/
def create2mbNestedPagetable (vmmPmemStart vmmPmemSize : BitVec 64) : HostM (BitVec 64) := do
  let cr3 ← pml4TableAlloc
  let vmmPagestart := pageDown2mb vmmPmemStart
  let vmmPageend := pageUp2mb (vmmPmemStart + vmmPmemSize) - 1#64
  (List.range (1 <<< 10)).forM fun i => do
    let guestPaddr := BitVec.ofNat 64 i <<< pageShift2mb
    if ¬ skipped vmmPagestart vmmPageend guestPaddr then
      mmapPml4 cr3 guestPaddr guestPaddr true
  return cr3

/-! ## The calls of the loop -/

/-- The first address of 2 MB page `i`. -/
def guestPage (i : Nat) : BitVec 64 := BitVec.ofNat 64 i <<< pageShift2mb

/-- Page `i` is left out of the table. -/
def Hidden (vmmPmemStart vmmPmemSize : BitVec 64) (i : Nat) : Prop :=
  skipped (pageDown2mb vmmPmemStart) (pageUp2mb (vmmPmemStart + vmmPmemSize) - 1#64)
    (guestPage i) = true

instance (vmmPmemStart vmmPmemSize : BitVec 64) (i : Nat) :
    Decidable (Hidden vmmPmemStart vmmPmemSize i) :=
  inferInstanceAs (Decidable (_ = true))

/-- The identity mappings that the loop asks for. -/
def identityCalls (vmmPmemStart vmmPmemSize : BitVec 64) : List MmapCall :=
  ((List.range (1 <<< 10)).filter fun i => ¬ Hidden vmmPmemStart vmmPmemSize i).map fun i =>
    ⟨guestPage i, guestPage i, true⟩

theorem toNat_guestPage {i : Nat} (hi : i < 1024) : (guestPage i).toNat = i * 2 ^ 21 := by
  unfold guestPage pageShift2mb
  rw [BitVec.toNat_shiftLeft, BitVec.toNat_ofNat, Nat.shiftLeft_eq]
  omega

theorem forM_filter {m : Type → Type} [Monad m] [LawfulMonad m] {α : Type} (p : α → Bool)
    (g : α → m PUnit) (l : List α) :
    forM (l.filter p) g = forM l fun a => if p a then g a else pure ⟨⟩ := by
  induction l with
  | nil => rfl
  | cons a l ih =>
    rw [List.forM_cons, ← ih]
    cases hp : p a with
    | true =>
      rw [List.filter_cons_of_pos hp, List.forM_cons]
      rfl
    | false =>
      rw [List.filter_cons_of_neg (by simp [hp])]
      simp

theorem create2mbNestedPagetable_eq (vmmPmemStart vmmPmemSize : BitVec 64) :
    create2mbNestedPagetable vmmPmemStart vmmPmemSize =
      buildMap (identityCalls vmmPmemStart vmmPmemSize) := by
  unfold create2mbNestedPagetable buildMap mmapAll identityCalls
  simp only [List.forM_eq_forM, List.forM_map, forM_filter]
  simp [Hidden, guestPage]

theorem mem_identityCalls {vmmPmemStart vmmPmemSize : BitVec 64} {c : MmapCall} :
    c ∈ identityCalls vmmPmemStart vmmPmemSize ↔
      ∃ i, i < 1024 ∧ ¬ Hidden vmmPmemStart vmmPmemSize i ∧ c = ⟨guestPage i, guestPage i, true⟩ := by
  unfold identityCalls
  simp only [List.mem_map, List.mem_filter, List.mem_range, decide_eq_true_eq, and_assoc,
    Nat.reduceShiftLeft]
  constructor
  · rintro ⟨i, hi, hhidden, rfl⟩
    exact ⟨i, hi, hhidden, rfl⟩
  · rintro ⟨i, hi, hhidden, rfl⟩
    exact ⟨i, hi, hhidden, rfl⟩

/-- The pages that were not skipped translate to themselves, and nothing else does. -/
theorem mappedTo_identityCalls (vmmPmemStart vmmPmemSize a : BitVec 64) :
    mappedTo (identityCalls vmmPmemStart vmmPmemSize) a =
      if a.toNat / 2 ^ 21 < 1024 ∧ ¬ Hidden vmmPmemStart vmmPmemSize (a.toNat / 2 ^ 21) then
        some ⟨a, true, true⟩
      else none := by
  have hpage : ∀ i, i < 1024 → (guestPage i).toNat / 2 ^ 21 = i := fun i hi => by
    rw [toNat_guestPage hi]
    omega
  unfold mappedTo
  cases hlast : lastCall (identityCalls vmmPmemStart vmmPmemSize).reverse (a.toNat / 2 ^ 21) with
  | some c =>
    have hmem := List.mem_reverse.mp (List.mem_of_find?_eq_some hlast)
    have hkey : c.vaddr.toNat / 2 ^ 21 = a.toNat / 2 ^ 21 :=
      of_decide_eq_true (@List.find?_some _ (fun c : MmapCall =>
        decide (c.vaddr.toNat / 2 ^ 21 = a.toNat / 2 ^ 21)) _ _ hlast)
    obtain ⟨i, hi, hhidden, rfl⟩ := mem_identityCalls.mp hmem
    rw [hpage i hi] at hkey
    rw [← hkey, if_pos ⟨hi, hhidden⟩, Option.map_some, hpage i hi, hkey]
    have haddr : a.toNat / 2 ^ 21 * 2 ^ 21 + a.toNat % 2 ^ 21 = a.toNat := Nat.div_add_mod' _ _
    rw [haddr, BitVec.ofNat_toNat, BitVec.setWidth_eq]
  | none =>
    rw [if_neg ?_]
    · rfl
    rintro ⟨hi, hhidden⟩
    have hno := List.find?_eq_none.mp hlast ⟨guestPage _, guestPage _, true⟩
      (List.mem_reverse.mpr (mem_identityCalls.mpr ⟨_, hi, hhidden, rfl⟩))
    exact hno (decide_eq_true (hpage _ hi))

theorem toNat_pageDown2mb (p : BitVec 64) : (pageDown2mb p).toNat = p.toNat / 2 ^ 21 * 2 ^ 21 :=
  Bits.toNat_and_not_lowMask p 21 (by simp)

theorem toNat_pageUp2mb_add (p q : BitVec 64) :
    (pageUp2mb (p + q)).toNat = (p.toNat + q.toNat + 0x1fffff) % 2 ^ 64 / 2 ^ 21 * 2 ^ 21 := by
  have h := Bits.toNat_and_not_lowMask (p + q + 0x1fffff#64) 21 (by simp)
  rwa [BitVec.toNat_add, BitVec.toNat_add, BitVec.toNat_ofNat, Nat.mod_add_mod] at h

/-- A 2 MB page that meets the region of the monitor is skipped. -/
theorem hidden_of_meets {vmmPmemStart vmmPmemSize : BitVec 64} {i x : Nat} (hi : i < 1024)
    (hwrap : vmmPmemStart.toNat + vmmPmemSize.toNat < 2 ^ 64) (hx : x / 2 ^ 21 = i)
    (hlo : vmmPmemStart.toNat ≤ x) (hhi : x < vmmPmemStart.toNat + vmmPmemSize.toNat) :
    Hidden vmmPmemStart vmmPmemSize i := by
  have hdown := toNat_pageDown2mb vmmPmemStart
  have hup := toNat_pageUp2mb_add vmmPmemStart vmmPmemSize
  have hpage := toNat_guestPage hi
  unfold Hidden skipped
  refine decide_eq_true (.inl ⟨?_, ?_⟩)
  · rw [ge_iff_le, BitVec.le_def, hdown, hpage]
    omega
  · rw [BitVec.le_def, BitVec.toNat_sub, hup, hpage, BitVec.toNat_ofNat]
    omega

/-! ## Isolation -/

/-- Guest-physical addresses of more than 48 bits take a nested page fault. -/
def nestedWalk (m : Mem) (nCr3 a : BitVec 64) : Option Paging.Translation :=
  if a.toNat < 2 ^ 48 then Paging.longModeWalk m nCr3 a else none

/-- `t` is the address of a table of the nested page table, at level `l`. -/
inductive TableAt (m : Mem) (nCr3 : BitVec 64) : (l : Nat) → (t : Addr) → Prop
  | root : TableAt m nCr3 4 nCr3
  | link {l : Nat} {t : Addr} {j : Nat} : TableAt m nCr3 (l + 2) t → j < 512 →
      Paging.present (m.load64 (t + BitVec.ofNat 64 (8 * j))) = true →
      Paging.large (m.load64 (t + BitVec.ofNat 64 (8 * j))) = false →
      TableAt m nCr3 (l + 1) (Paging.tableBase (m.load64 (t + BitVec.ofNat 64 (8 * j))))

/-- Every translation is the identity and misses the region of the monitor. -/
def IdentityOutside (m : Mem) (nCr3 vmmPmemStart vmmPmemSize : BitVec 64) : Prop :=
  ∀ a t, nestedWalk m nCr3 a = some t → t.addr = a ∧
    ¬ (vmmPmemStart.toNat ≤ t.addr.toNat ∧ t.addr.toNat < vmmPmemStart.toNat + vmmPmemSize.toNat)

/-- No table of the nested page table is reached through it. -/
def TablesUnreachable (m : Mem) (nCr3 : BitVec 64) : Prop :=
  ∀ l table, TableAt m nCr3 l table → ∀ a t, nestedWalk m nCr3 a = some t →
    ¬ (table.toNat ≤ t.addr.toNat ∧ t.addr.toNat < table.toNat + 4096)

section
variable {host : Host} {supply : List Nat} {f : Nat} {done : List MmapCall}
  {node : Nat → Nat → Option Nat}

/-- The tables of a page map are the frames of its nodes. -/
theorem Maps.tableAt (hm : Maps host supply f done node) {l : Nat} {t : Addr}
    (h : TableAt host.mem (frameAddr f) l t) :
    ∃ l' k g, l = l' + 2 ∧ node l' k = some g ∧ t = frameAddr g := by
  induction h with
  | root => exact ⟨2, 0, f, rfl, hm.rootNode, rfl⟩
  | @link l t j _ hj hpresent hlarge ih =>
    obtain ⟨l', k, g, hl, hnode, rfl⟩ := ih
    obtain rfl : l = l' := by omega
    cases l with
    | zero =>
      -- a terminal entry that is present has the page size bit
      have hleaf : host.mem.load64 (frameAddr g + BitVec.ofNat 64 (8 * j)) =
          leafOf (lastCall done (k * 512 + j)) := hm.tree.rep.leaves hnode hj
      rw [hleaf] at hpresent hlarge
      cases hlast : lastCall done (k * 512 + j) with
      | none =>
        rw [hlast] at hpresent
        cases hpresent
      | some c =>
        rw [hlast] at hlarge
        have hbit := getLsbD_writeTerm 0#64 c.paddr c.isUser (show 7 < 64 by decide)
        exact Bool.noConfusion (hlarge.symm.trans hbit)
    | succ l =>
      have hentry : host.mem.load64 (frameAddr g + BitVec.ofNat 64 (8 * j)) =
          tableFormat.entry (node l (k * 512 + j)) := hm.tree.rep.upper hnode hj
      rw [hentry] at hpresent ⊢
      cases hchild : node l (k * 512 + j) with
      | none =>
        rw [hchild] at hpresent
        cases hpresent
      | some g' =>
        refine ⟨l, k * 512 + j, g', rfl, hchild, ?_⟩
        exact tableBase_linkWord (hm.tree.node_lt hchild)

end

/-- With fresh frames for its tables, the nested page table translates the pages that were not
skipped to themselves, and nothing else. -/
theorem create2mbNestedPagetable_walk {host host' : Host}
    {vmmPmemStart vmmPmemSize nCr3 : BitVec 64}
    (hrun : create2mbNestedPagetable vmmPmemStart vmmPmemSize host = .ok (nCr3, host'))
    (hfresh : 1 + tablesNeeded [] (identityCalls vmmPmemStart vmmPmemSize) ≤
      freshFrames host.nalloc) :
    ∃ f supply node, nCr3 = frameAddr f ∧
      Maps host' supply f (identityCalls vmmPmemStart vmmPmemSize).reverse node ∧
      ∀ a : BitVec 64, nestedWalk host'.mem nCr3 a =
        if a.toNat / 2 ^ 21 < 1024 ∧ ¬ Hidden vmmPmemStart vmmPmemSize (a.toNat / 2 ^ 21) then
          some ⟨a, true, true⟩
        else none := by
  rw [create2mbNestedPagetable_eq] at hrun
  have hcalls : ∀ c ∈ identityCalls vmmPmemStart vmmPmemSize,
      c.vaddr.toNat < 2 ^ 48 ∧ c.paddr.toNat < 2 ^ 52 := by
    intro c hc
    obtain ⟨i, hi, -, rfl⟩ := mem_identityCalls.mp hc
    dsimp only
    rw [toNat_guestPage hi]
    exact ⟨by omega, by omega⟩
  obtain ⟨f, supply, node, rfl, hm⟩ := buildMap_maps hrun (fun c hc => (hcalls c hc).1) hfresh
  refine ⟨f, supply, node, rfl, hm, fun a => ?_⟩
  rw [← mappedTo_identityCalls]
  unfold nestedWalk
  split
  · next ha => exact hm.walk (fun c hc => (hcalls c hc).2) ha
  · rw [mappedTo_identityCalls, if_neg (by omega)]

/-- With fresh frames for its tables, the nested page table translates addresses to themselves
and outside the region only, and its own tables, which lie in the first 2 MB, are out of reach
exactly when that page is one of those it hides. -/
theorem create2mbNestedPagetable_isolates {host host' : Host}
    {vmmPmemStart vmmPmemSize nCr3 : BitVec 64}
    (hwrap : vmmPmemStart.toNat + vmmPmemSize.toNat < 2 ^ 64)
    (hrun : create2mbNestedPagetable vmmPmemStart vmmPmemSize host = .ok (nCr3, host'))
    (hfresh : 1 + tablesNeeded [] (identityCalls vmmPmemStart vmmPmemSize) ≤
      freshFrames host.nalloc) :
    IdentityOutside host'.mem nCr3 vmmPmemStart vmmPmemSize ∧
      (TablesUnreachable host'.mem nCr3 ↔ Hidden vmmPmemStart vmmPmemSize 0) := by
  obtain ⟨f, supply, node, rfl, hm, hwalk⟩ := create2mbNestedPagetable_walk hrun hfresh
  have hsome : ∀ a t, nestedWalk host'.mem (frameAddr f) a = some t →
      t.addr = a ∧ a.toNat / 2 ^ 21 < 1024 ∧
        ¬ Hidden vmmPmemStart vmmPmemSize (a.toNat / 2 ^ 21) := by
    intro a t ht
    rw [hwalk a] at ht
    split at ht
    · next h =>
      cases ht
      exact ⟨rfl, h⟩
    · cases ht
  refine ⟨fun a t ht => ?_, fun hout => ?_, fun hhidden l table htable a t ht hin => ?_⟩
  · obtain ⟨haddr, hlt, hno⟩ := hsome a t ht
    refine ⟨haddr, fun hin => hno ?_⟩
    rw [haddr] at hin
    exact hidden_of_meets hlt hwrap rfl hin.1 hin.2
  · -- the root table lies in page 0: if that page is mapped, the guest reaches the root
    apply Classical.byContradiction
    intro hvisible
    have hf : f < 33 := hm.tree.low hm.rootNode
    have haddr := toNat_frameAddr (show f < 2 ^ 52 by omega)
    have hzero : (frameAddr f).toNat / 2 ^ 21 = 0 := by omega
    have hmapped := hwalk (frameAddr f)
    rw [if_pos (by rw [hzero]; exact ⟨by decide, hvisible⟩)] at hmapped
    exact hout 4 _ .root _ _ hmapped ⟨Nat.le_refl _, Nat.lt_add_of_pos_right (by simp)⟩
  · obtain ⟨haddr, hlt, hno⟩ := hsome a t ht
    obtain ⟨l', k, g, -, hnode, rfl⟩ := hm.tableAt htable
    have hg : g < 33 := hm.tree.low hnode
    rw [haddr, toNat_frameAddr (show g < 2 ^ 52 by omega)] at hin
    have hzero : a.toNat / 2 ^ 21 = 0 := by omega
    rw [hzero] at hno
    exact hno hhidden

/-- A region over all but the last page of the first 2 GB, on a machine with 64 clear frames. -/
theorem create2mbNestedPagetable_isolates_low :
    ∃ nCr3 host', create2mbNestedPagetable 0#64 0x7fe00000#64 (smallHost 0#64) =
      .ok (nCr3, host') ∧ IdentityOutside host'.mem nCr3 0#64 0x7fe00000#64 ∧
        (TablesUnreachable host'.mem nCr3 ↔ Hidden 0#64 0x7fe00000#64 0) := by
  obtain ⟨⟨nCr3, host'⟩, hrun, -⟩ := completesWith_ok
    (show completesWith (fun _ => true)
      (create2mbNestedPagetable 0#64 0x7fe00000#64 (smallHost 0#64)) = true by decide +kernel)
  exact ⟨nCr3, host', hrun, create2mbNestedPagetable_isolates (by simp) hrun (by decide +kernel)⟩

/-- With every frame taken the tables share frame 32: page 0 translates to the table itself. -/
theorem create2mbNestedPagetable_not_identity :
    ∃ nCr3 host', create2mbNestedPagetable 0x800000#64 0x7f800000#64
      (smallHost (BitVec.allOnes 64)) = .ok (nCr3, host') ∧
        nestedWalk host'.mem nCr3 0#64 = some ⟨0x20000#64, true, true⟩ ∧
        ¬ IdentityOutside host'.mem nCr3 0x800000#64 0x7f800000#64 := by
  obtain ⟨⟨nCr3, host'⟩, hrun, hwalk⟩ := completesWith_ok
    (show completesWith
      (fun r => nestedWalk r.2.mem r.1 0#64 = some ⟨0x20000#64, true, true⟩)
      (create2mbNestedPagetable 0x800000#64 0x7f800000#64 (smallHost (BitVec.allOnes 64))) = true
      by decide +kernel)
  have hwalk : nestedWalk host'.mem nCr3 0#64 = some ⟨0x20000#64, true, true⟩ :=
    of_decide_eq_true hwalk
  refine ⟨nCr3, host', hrun, hwalk, fun hid => ?_⟩
  exact absurd (hid _ _ hwalk).1 (by simp)

end Mavmm
