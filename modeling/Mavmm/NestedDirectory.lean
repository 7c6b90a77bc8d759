import Mavmm.GuestPaging
import Mavmm.Page
import Mavmm.Lib.Exec

/-!
# The nested page directory (vm.c, page.c)

`create_4mb_nested_pagetable` is to map the first 4 GB of guest-physical memory
to itself in one directory of 4 MB pages, but for the pages that meet the region
of the monitor.

The page number of the loop is an `int`, and so is the index of the entry: the
address of a page from 2 GB on is negative, and so is its index.  These entries
are written in front of the directory.
-/

namespace Mavmm

/-! ## `mmap_4mb` -/

/-- What the functions here do to memory, and what they print. -/
inductive TableEvent where
  | write (addr : BitVec 64) (len : Nat)
  | out (fmt : String) (args : List (BitVec 64))
deriving DecidableEq

abbrev TableM := Exec Fault TableEvent Host

/-- `struct pd4M_entry`, filled over `x`; what does not fit a field is cut off. -/
def fillPd4MEntry (x : BitVec 32) (base : BitVec 64) (flags : BitVec 32) : BitVec 32 :=
  let x := Bits.setField x 22 (base.setWidth 10)
  let x := Bits.setField x 13 0#8
  let x := Bits.setField x 21 0#1
  if flags = -1#32 then
    Bits.setField x 0 (BitVec.ofNat 13 (pttefPresent ||| pttefRw ||| pttefPageSize ||| pttefUs))
  else Bits.setField x 0 (flags.setWidth 13)

/-- The address of the entry that `mmap_4mb` fills: its index is an `int`. -/
def pd4MEntryAt (pgTableBaseVaddr vaddr : BitVec 64) : BitVec 64 :=
  let index : BitVec 32 := (vaddr >>> pageShift4mb).setWidth 32
  pgTableBaseVaddr + index.signExtend 64 * 4#64

def mmap4mb (pgTableBaseVaddr vaddr paddr : BitVec 64) (flags : BitVec 32) : TableM Unit := do
  let entry := pd4MEntryAt pgTableBaseVaddr vaddr
  Exec.probe (Probe.log [.write entry 4])
  Exec.modify fun host => { host with
    mem := host.mem.store32 entry
      (fillPd4MEntry (host.mem.load32 entry) (paddr >>> pageShift4mb) flags) }

/-! ## `create_4mb_nested_pagetable` -/

def pageUp4mb (p : BitVec 64) : BitVec 64 := (p + 0x3fffff#64) &&& ~~~0x3fffff#64
def pageDown4mb (p : BitVec 64) : BitVec 64 := p &&& ~~~0x3fffff#64

def onPages {α : Type} (x : HostM α) : TableM α := fun host => ([], x host)

/-- `pg_table_alloc`, which clears the page. -/
def directoryAlloc : TableM (BitVec 64) := do
  let cr3 ← onPages pgTableAlloc
  Exec.probe (Probe.log [.write cr3 pageSize])
  return cr3

/-- Whether the loop skips the page at `guestPaddr`. -/
def skipped4mb (vmmPagestart vmmPageend guestPaddr : BitVec 64) : Bool :=
  (guestPaddr ≥ vmmPagestart ∧ guestPaddr ≤ vmmPageend) ∨
    (guestPaddr + pageSize4mb ≥ vmmPagestart ∧ guestPaddr + pageSize4mb ≤ vmmPageend)

/-- The loop of `create_4mb_nested_pagetable`. -/
def mapPages4mb (cr3 vmmPagestart vmmPageend : BitVec 64) : List Nat → TableM Unit
  | [] => pure ()
  | i :: is => do
    -- the shift is done in an `int`
    let guestPaddr := shiftInt (BitVec.ofNat 32 i) pageShift4mb
    Exec.when (¬ skipped4mb vmmPagestart vmmPageend guestPaddr)
      (mmap4mb cr3 guestPaddr guestPaddr (-1#32))
    mapPages4mb cr3 vmmPagestart vmmPageend is

/-- `create_4mb_nested_pagetable`. -/
def create4mbNestedPagetable (vmmPmemStart vmmPmemSize : BitVec 64) : TableM (BitVec 64) := do
  let cr3 ← directoryAlloc
  let vmmPagestart := pageDown4mb vmmPmemStart
  let vmmPageend := pageUp4mb (vmmPmemStart + vmmPmemSize) - 1#64
  Exec.probe (Probe.log [.out "VMM start = %x; VMM end = %x.\n" [vmmPagestart, vmmPageend]])
  mapPages4mb cr3 vmmPagestart vmmPageend (List.range (1 <<< 10))
  Exec.probe (Probe.log [.out "Nested page table created.\n" []])
  return cr3

/-! ## What the table is to be -/

/-- An identity 4 MB mapping of page `i` with the default flags. -/
def identityEntry (i : Nat) : BitVec 32 := BitVec.ofNat 32 i <<< 22 ||| 0x87#32

/-- Page `i` has an address of the monitor's region. -/
def MeetsVmm (vmmPmemStart vmmPmemSize : BitVec 64) (i : Nat) : Prop :=
  ∃ x, x / 2 ^ 22 = i ∧ vmmPmemStart.toNat ≤ x ∧ x < vmmPmemStart.toNat + vmmPmemSize.toNat

/-- The table at `cr3` is the only thing written, and maps what does not meet the region. -/
structure IdentityDirectory (vmmPmemStart vmmPmemSize cr3 : BitVec 64) (log : List TableEvent)
    (mem : Mem) : Prop where
  inside : ∀ addr len, .write addr len ∈ log → ∀ k < len,
    (addr + BitVec.ofNat 64 k - cr3).toNat < 4096
  mapped : ∀ i < 1024, ¬ MeetsVmm vmmPmemStart vmmPmemSize i →
    mem.load32 (cr3 + BitVec.ofNat 64 (4 * i)) = identityEntry i
  hidden : ∀ i < 1024, MeetsVmm vmmPmemStart vmmPmemSize i →
    (mem.load32 (cr3 + BitVec.ofNat 64 (4 * i))).getLsbD 0 = false

/-! ## Addresses as the code computes them -/

/-- The address of page `i` as the loop has it. -/
def guestPage4mb (i : Nat) : BitVec 64 := shiftInt (BitVec.ofNat 32 i) pageShift4mb

section
variable {i : Nat}

theorem toNat_guestPage4mb (hi : i < 1024) : (guestPage4mb i).toNat =
    i * 2 ^ 22 + if i < 512 then 0 else 2 ^ 64 - 2 ^ 32 := by
  have hshift : ((BitVec.ofNat 32 i).setWidth 32 <<< 22).toNat = i * 2 ^ 22 := by
    rw [BitVec.setWidth_eq, BitVec.toNat_shiftLeft, BitVec.toNat_ofNat, Nat.shiftLeft_eq]
    omega
  have hmsb : ((BitVec.ofNat 32 i).setWidth 32 <<< 22).msb = decide (512 ≤ i) := by
    rw [BitVec.msb_eq_decide, hshift]
    exact decide_eq_decide.mpr (by omega)
  unfold guestPage4mb shiftInt pageShift4mb
  rw [BitVec.toNat_signExtend, BitVec.toNat_setWidth, hshift, hmsb]
  by_cases hlow : i < 512
  · rw [if_pos hlow, if_neg (by simpa using hlow)]
    omega
  · rw [if_neg hlow, if_pos (by simpa using hlow)]
    omega

/-- The index of the entry, an `int` that is widened again. -/
theorem toNat_index4mb (hi : i < 1024) :
    (((guestPage4mb i >>> pageShift4mb).setWidth 32).signExtend 64).toNat =
      i + if i < 512 then 0 else 2 ^ 64 - 1024 := by
  have hindex : ((guestPage4mb i >>> pageShift4mb).setWidth 32).toNat =
      i + if i < 512 then 0 else 2 ^ 32 - 1024 := by
    unfold pageShift4mb
    rw [BitVec.toNat_setWidth, BitVec.toNat_ushiftRight, toNat_guestPage4mb hi,
      Nat.shiftRight_eq_div_pow]
    split
    · omega
    · omega
  have hmsb : ((guestPage4mb i >>> pageShift4mb).setWidth 32).msb = decide (512 ≤ i) := by
    rw [BitVec.msb_eq_decide, hindex]
    refine decide_eq_decide.mpr ?_
    split
    · omega
    · omega
  rw [BitVec.toNat_signExtend, BitVec.toNat_setWidth, hindex, hmsb]
  by_cases hlow : i < 512
  · rw [if_pos hlow, if_pos hlow, if_neg (by simpa using hlow)]
    omega
  · rw [if_neg hlow, if_neg hlow, if_pos (by simpa using hlow)]
    omega

/-- The entry of a page below 2 GB is in the directory, the others are in front of it. -/
theorem pd4MEntryAt_guestPage4mb (cr3 : BitVec 64) (hi : i < 1024) :
    pd4MEntryAt cr3 (guestPage4mb i) =
      cr3 + BitVec.ofNat 64 (4 * i + if i < 512 then 0 else 2 ^ 64 - 4096) := by
  unfold pd4MEntryAt
  dsimp only
  congr 1
  apply BitVec.eq_of_toNat_eq
  rw [BitVec.toNat_mul, toNat_index4mb hi, BitVec.toNat_ofNat, BitVec.toNat_ofNat]
  split
  · omega
  · omega

theorem fillPd4MEntry_identity (x : BitVec 32) (hi : i < 512) :
    fillPd4MEntry x (guestPage4mb i >>> pageShift4mb) (-1#32) = identityEntry i := by
  have hbase : (guestPage4mb i >>> pageShift4mb).setWidth 10 = BitVec.ofNat 10 i := by
    apply BitVec.eq_of_toNat_eq
    unfold pageShift4mb
    rw [BitVec.toNat_setWidth, BitVec.toNat_ushiftRight, toNat_guestPage4mb (by omega), if_pos hi,
      Nat.shiftRight_eq_div_pow, BitVec.toNat_ofNat]
    omega
  unfold fillPd4MEntry identityEntry
  rw [hbase, if_pos rfl]
  apply BitVec.eq_of_getLsbD_eq
  intro j hj
  rw [Bits.getLsbD_setField _ _ _ _ hj, Bits.getLsbD_setField _ _ _ _ hj,
    Bits.getLsbD_setField _ _ _ _ hj, Bits.getLsbD_setField _ _ _ _ hj, BitVec.getLsbD_or,
    BitVec.getLsbD_shiftLeft]
  have hflags : BitVec.ofNat 13 (pttefPresent ||| pttefRw ||| pttefPageSize ||| pttefUs) =
    BitVec.ofNat 13 0x87 := by decide
  rw [hflags]
  simp only [BitVec.getLsbD_ofNat, Nat.zero_testBit, Bool.and_false]
  by_cases hlow : j < 13
  · have hfield : j < 22 := by omega
    rw [if_pos (by omega), decide_eq_true hfield, decide_eq_true hj, Nat.sub_zero,
      decide_eq_true hlow]
    simp
  · have hclear : Nat.testBit 0x87 j = false :=
      Bits.testBit_of_lt (k := 8) (by simp) (by omega)
    rw [if_neg (by omega), hclear, Bool.and_false, Bool.or_false]
    by_cases hhigh : j < 22
    · rw [decide_eq_true hhigh]
      simp
      omega
    · have hsub : j - 22 < 10 ∧ j - 22 < 32 := by omega
      rw [if_neg (by omega), if_neg (by omega), if_pos (by omega), decide_eq_false hhigh,
        decide_eq_true hj, decide_eq_true hsub.1, decide_eq_true hsub.2]
      rfl

end

/-! ## What a run does -/

/-- The entry of page `i` is filled. -/
def storePage4mb (cr3 : BitVec 64) (mem : Mem) (i : Nat) : Mem :=
  let entry := pd4MEntryAt cr3 (guestPage4mb i)
  mem.store32 entry (fillPd4MEntry (mem.load32 entry) (guestPage4mb i >>> pageShift4mb) (-1#32))

/-- The pages that the loop does not skip. -/
def mappedPages (vmmPagestart vmmPageend : BitVec 64) (is : List Nat) : List Nat :=
  is.filter fun i => ¬ skipped4mb vmmPagestart vmmPageend (guestPage4mb i)

section
variable {cr3 vmmPagestart vmmPageend : BitVec 64} {host host' : Host} {log : List TableEvent}

theorem mapPages4mb_eq (is : List Nat) : ∀ host : Host,
    mapPages4mb cr3 vmmPagestart vmmPageend is host =
      ((mappedPages vmmPagestart vmmPageend is).map fun i =>
          .write (pd4MEntryAt cr3 (guestPage4mb i)) 4,
        .ok ((), { host with mem :=
          (mappedPages vmmPagestart vmmPageend is).foldl (storePage4mb cr3) host.mem })) := by
  induction is with
  | nil => exact fun _ => rfl
  | cons i is ih =>
    intro host
    have hstep : mapPages4mb cr3 vmmPagestart vmmPageend (i :: is) =
        Exec.when (¬ skipped4mb vmmPagestart vmmPageend (guestPage4mb i))
          (mmap4mb cr3 (guestPage4mb i) (guestPage4mb i) (-1#32)) >>= fun _ =>
        mapPages4mb cr3 vmmPagestart vmmPageend is := rfl
    rw [hstep]
    unfold Exec.when mappedPages
    by_cases hskip : skipped4mb vmmPagestart vmmPageend (guestPage4mb i) = true
    · rw [if_neg (not_not_intro hskip), Exec.run_pure_bind, ih,
        List.filter_cons_of_neg (by simp [hskip])]
      rfl
    · rw [if_pos hskip, List.filter_cons_of_pos (by simp [hskip])]
      have hrun : mmap4mb cr3 (guestPage4mb i) (guestPage4mb i) (-1#32) host =
          ([.write (pd4MEntryAt cr3 (guestPage4mb i)) 4],
            .ok ((), { host with mem := storePage4mb cr3 host.mem i })) := rfl
      rw [Exec.run_bind_log hrun, ih]
      rfl

/-- What a run writes and prints. -/
def directoryLog (cr3 vmmPagestart vmmPageend : BitVec 64) : List TableEvent :=
  [.write cr3 pageSize, .out "VMM start = %x; VMM end = %x.\n" [vmmPagestart, vmmPageend]] ++
    (mappedPages vmmPagestart vmmPageend (List.range 1024)).map
      (fun i => .write (pd4MEntryAt cr3 (guestPage4mb i)) 4) ++
    [.out "Nested page table created.\n" []]

/-- The memory after a run. -/
def directoryMem (cr3 vmmPagestart vmmPageend : BitVec 64) (mem : Mem) : Mem :=
  (mappedPages vmmPagestart vmmPageend (List.range 1024)).foldl (storePage4mb cr3)
    (mem.fill cr3 pageSize 0#8)

theorem create4mbNestedPagetable_eq {vmmPmemStart vmmPmemSize pfn : BitVec 64}
    {nalloc : NaiveAllocator} (halloc : allocHostPages 1#64 1#64 host.nalloc = .ok (pfn, nalloc)) :
    create4mbNestedPagetable vmmPmemStart vmmPmemSize host =
      (directoryLog (pfn <<< pageShift) (pageDown4mb vmmPmemStart)
          (pageUp4mb (vmmPmemStart + vmmPmemSize) - 1#64),
        .ok (pfn <<< pageShift,
          ⟨directoryMem (pfn <<< pageShift) (pageDown4mb vmmPmemStart)
            (pageUp4mb (vmmPmemStart + vmmPmemSize) - 1#64) host.mem, nalloc⟩)) := by
  have hdir : directoryAlloc host = ([.write (pfn <<< pageShift) pageSize],
      .ok (pfn <<< pageShift, ⟨host.mem.fill (pfn <<< pageShift) pageSize 0#8, nalloc⟩)) := by
    have hpage : onPages pgTableAlloc host = ([],
        .ok (pfn <<< pageShift, ⟨host.mem.fill (pfn <<< pageShift) pageSize 0#8, nalloc⟩)) := by
      unfold onPages pgTableAlloc
      rw [halloc]
      rfl
    unfold directoryAlloc
    rw [Exec.run_bind hpage]
    rfl
  unfold create4mbNestedPagetable
  rw [Exec.run_bind_log hdir, Exec.run_bind_log rfl, Exec.run_bind_log (mapPages4mb_eq _ _)]
  unfold directoryLog directoryMem
  rw [show List.range (1 <<< 10) = List.range 1024 by simp]
  generalize mappedPages (pageDown4mb vmmPmemStart)
    (pageUp4mb (vmmPmemStart + vmmPmemSize) - 1#64) (List.range 1024) = pages
  rfl

end

/-! ## The directory after a run -/

section
variable {cr3 : BitVec 64} {mem : Mem} {i j : Nat}

theorem load_storePage4mb (hi : i < 512) (hj : j < 1024) :
    (storePage4mb cr3 mem i).load32 (cr3 + BitVec.ofNat 64 (4 * j)) =
      if j = i then identityEntry i else mem.load32 (cr3 + BitVec.ofNat 64 (4 * j)) := by
  unfold storePage4mb
  dsimp only
  rw [pd4MEntryAt_guestPage4mb cr3 (by omega), if_pos hi, Nat.add_zero, fillPd4MEntry_identity _ hi]
  split
  · next h => rw [h, Mem.load32_store32]
  · exact Mem.load32_store32_apart _
      (Mem.apart_of_offsets cr3 (by omega) (by omega) (by omega))

theorem load_foldl_storePage4mb (is : List Nat) (his : ∀ i ∈ is, i < 512) (hj : j < 1024) :
    ∀ mem : Mem, (is.foldl (storePage4mb cr3) mem).load32 (cr3 + BitVec.ofNat 64 (4 * j)) =
      if j ∈ is then identityEntry j else mem.load32 (cr3 + BitVec.ofNat 64 (4 * j)) := by
  induction is with
  | nil => exact fun _ => rfl
  | cons i is ih =>
    intro mem
    rw [List.foldl_cons, ih (fun i hi => his i (List.mem_cons_of_mem _ hi)),
      load_storePage4mb (his i List.mem_cons_self) hj]
    by_cases hmem : j ∈ is
    · simp [hmem]
    · by_cases hij : j = i
      · simp [hij]
      · simp [hmem, hij]

/-- The first bit of an entry, the one for present. -/
theorem identityEntry_present : (identityEntry i).getLsbD 0 = true := by
  unfold identityEntry
  rw [BitVec.getLsbD_or, BitVec.getLsbD_shiftLeft]
  simp

end

/-! ## The pages that are skipped -/

section
variable {vmmPmemStart vmmPmemSize : BitVec 64} {i : Nat}

/-- Page `i` is left out by the loop. -/
def Skips4mb (vmmPmemStart vmmPmemSize : BitVec 64) (i : Nat) : Prop :=
  skipped4mb (pageDown4mb vmmPmemStart) (pageUp4mb (vmmPmemStart + vmmPmemSize) - 1#64)
    (guestPage4mb i) = true

instance : Decidable (Skips4mb vmmPmemStart vmmPmemSize i) := inferInstanceAs (Decidable (_ = true))

theorem toNat_pageDown4mb (p : BitVec 64) : (pageDown4mb p).toNat = p.toNat / 2 ^ 22 * 2 ^ 22 :=
  Bits.toNat_and_not_lowMask p 22 (by simp)

theorem toNat_pageUp4mb_add (p q : BitVec 64) :
    (pageUp4mb (p + q)).toNat = (p.toNat + q.toNat + 0x3fffff) % 2 ^ 64 / 2 ^ 22 * 2 ^ 22 := by
  have h := Bits.toNat_and_not_lowMask (p + q + 0x3fffff#64) 22 (by simp)
  rwa [BitVec.toNat_add, BitVec.toNat_add, BitVec.toNat_ofNat, Nat.mod_add_mod] at h

/-- The last address before the page behind the region. -/
theorem toNat_pageend (p q : BitVec 64) : (pageUp4mb (p + q) - 1#64).toNat =
    ((p.toNat + q.toNat + 0x3fffff) % 2 ^ 64 / 2 ^ 22 * 2 ^ 22 + (2 ^ 64 - 1)) % 2 ^ 64 := by
  rw [BitVec.toNat_sub, toNat_pageUp4mb_add, BitVec.toNat_ofNat]
  omega

theorem skips4mb_iff : Skips4mb vmmPmemStart vmmPmemSize i ↔
    (vmmPmemStart.toNat / 2 ^ 22 * 2 ^ 22 ≤ (guestPage4mb i).toNat ∧
      (guestPage4mb i).toNat ≤ (pageUp4mb (vmmPmemStart + vmmPmemSize) - 1#64).toNat) ∨
    (vmmPmemStart.toNat / 2 ^ 22 * 2 ^ 22 ≤ ((guestPage4mb i).toNat + 2 ^ 22) % 2 ^ 64 ∧
      ((guestPage4mb i).toNat + 2 ^ 22) % 2 ^ 64 ≤
        (pageUp4mb (vmmPmemStart + vmmPmemSize) - 1#64).toNat) := by
  have hsize : (guestPage4mb i + pageSize4mb).toNat =
      ((guestPage4mb i).toNat + 2 ^ 22) % 2 ^ 64 := by
    rw [BitVec.toNat_add]
    rfl
  unfold Skips4mb skipped4mb
  rw [decide_eq_true_iff, ge_iff_le, ge_iff_le, BitVec.le_def, BitVec.le_def, BitVec.le_def,
    BitVec.le_def, hsize, toNat_pageDown4mb]

theorem meetsVmm_iff : MeetsVmm vmmPmemStart vmmPmemSize i ↔
    vmmPmemStart.toNat < (i + 1) * 2 ^ 22 ∧
      i * 2 ^ 22 < vmmPmemStart.toNat + vmmPmemSize.toNat ∧ 0 < vmmPmemSize.toNat := by
  constructor
  · rintro ⟨x, hx, hlo, hhi⟩
    omega
  · intro h
    exact ⟨max vmmPmemStart.toNat (i * 2 ^ 22), by omega, by omega, by omega⟩

/-- The region is all of the address space but for less than 4 MB at its start and less than 8 MB
at its end. -/
def CoversAll (vmmPmemStart vmmPmemSize : BitVec 64) : Prop :=
  vmmPmemStart.toNat < 2 ^ 22 ∧ 2 ^ 64 - 2 ^ 23 < vmmPmemStart.toNat + vmmPmemSize.toNat ∧
    vmmPmemStart.toNat + vmmPmemSize.toNat ≤ 2 ^ 64

instance : Decidable (CoversAll vmmPmemStart vmmPmemSize) := inferInstanceAs (Decidable (_ ∧ _))

theorem skips_meets_iff :
    ((∀ i, 512 ≤ i → i < 1024 →
        Skips4mb vmmPmemStart vmmPmemSize i ∧ MeetsVmm vmmPmemStart vmmPmemSize i) ∧
      ∀ i < 512, Skips4mb vmmPmemStart vmmPmemSize i ↔ MeetsVmm vmmPmemStart vmmPmemSize i) ↔
    CoversAll vmmPmemStart vmmPmemSize := by
  have hstart := vmmPmemStart.isLt
  have hsize := vmmPmemSize.isLt
  have hend := toNat_pageend vmmPmemStart vmmPmemSize
  have hlow : ∀ i < 512, (guestPage4mb i).toNat = i * 2 ^ 22 := by
    intro i hi
    rw [toNat_guestPage4mb (by omega), if_pos hi, Nat.add_zero]
  have hhigh : ∀ i, 512 ≤ i → i < 1024 →
      (guestPage4mb i).toNat = i * 2 ^ 22 + (2 ^ 64 - 2 ^ 32) := by
    intro i hi hi'
    rw [toNat_guestPage4mb hi', if_neg (by omega)]
  simp only [skips4mb_iff, meetsVmm_iff]
  unfold CoversAll
  generalize (pageUp4mb (vmmPmemStart + vmmPmemSize) - 1#64).toNat = pageend at hend ⊢
  generalize vmmPmemStart.toNat = start at *
  generalize vmmPmemSize.toNat = size at *
  constructor
  · rintro ⟨hupper, hlower⟩
    have h512 := hupper 512 (by omega) (by omega)
    have h1022 := hupper 1022 (by omega) (by omega)
    have h1023 := hupper 1023 (by omega) (by omega)
    rw [hhigh 512 (by omega) (by omega)] at h512
    rw [hhigh 1022 (by omega) (by omega)] at h1022
    rw [hhigh 1023 (by omega) (by omega)] at h1023
    -- the page before the region is skipped, and does not meet it
    have hfirst : start / 2 ^ 22 = 0 := by
      refine Decidable.byContradiction fun hne => ?_
      have hbefore := hlower (start / 2 ^ 22 - 1) (by omega)
      rw [hlow _ (by omega)] at hbefore
      have hskip := hbefore.mp (.inr (by omega))
      omega
    omega
  · rintro ⟨hfirst, hlo, hhi⟩
    refine ⟨fun i hi hi' => ?_, fun i hi => ?_⟩
    · rw [hhigh i hi hi']
      omega
    · rw [hlow i hi]
      omega

/-! ## When the table is right -/

/-- The pages that are mapped in a run. -/
def mappedFor (vmmPmemStart vmmPmemSize : BitVec 64) : List Nat :=
  mappedPages (pageDown4mb vmmPmemStart) (pageUp4mb (vmmPmemStart + vmmPmemSize) - 1#64)
    (List.range 1024)

theorem mem_mappedFor : i ∈ mappedFor vmmPmemStart vmmPmemSize ↔
    i < 1024 ∧ ¬ Skips4mb vmmPmemStart vmmPmemSize i := by
  unfold mappedFor mappedPages Skips4mb
  rw [List.mem_filter, List.mem_range, decide_eq_true_iff]

variable {cr3 : BitVec 64} {mem : Mem}

/-- The log has the writes of the pages that are mapped, besides the one that clears the table. -/
theorem write_mem_directoryLog {addr : BitVec 64} {len : Nat} :
    .write addr len ∈ directoryLog cr3 (pageDown4mb vmmPmemStart)
        (pageUp4mb (vmmPmemStart + vmmPmemSize) - 1#64) ↔
      addr = cr3 ∧ len = pageSize ∨
        ∃ i ∈ mappedFor vmmPmemStart vmmPmemSize,
          pd4MEntryAt cr3 (guestPage4mb i) = addr ∧ 4 = len := by
  unfold directoryLog mappedFor
  simp

theorem inside_iff : (∀ addr len, .write addr len ∈ directoryLog cr3 (pageDown4mb vmmPmemStart)
      (pageUp4mb (vmmPmemStart + vmmPmemSize) - 1#64) → ∀ k < len,
        (addr + BitVec.ofNat 64 k - cr3).toNat < 4096) ↔
    ∀ i ∈ mappedFor vmmPmemStart vmmPmemSize, i < 512 := by
  have hoffset : ∀ x k, (cr3 + BitVec.ofNat 64 x + BitVec.ofNat 64 k - cr3).toNat =
      (x + k) % 2 ^ 64 := by
    intro x k
    rw [BitVec.add_assoc, ← BitVec.ofNat_add, BitVec.add_comm, BitVec.add_sub_cancel,
      BitVec.toNat_ofNat]
  constructor
  · intro h i hi
    have hlt := (mem_mappedFor.mp hi).1
    have hfirst := h _ 4 (write_mem_directoryLog.mpr (.inr ⟨i, hi, rfl, rfl⟩)) 0 (by simp)
    rw [pd4MEntryAt_guestPage4mb cr3 hlt, hoffset] at hfirst
    refine Decidable.byContradiction fun hhigh => ?_
    rw [if_neg hhigh] at hfirst
    omega
  · intro h addr len hmem k hk
    rcases write_mem_directoryLog.mp hmem with ⟨rfl, rfl⟩ | ⟨i, hi, rfl, rfl⟩
    · rw [Mem.toNat_add_ofNat_sub _ (Nat.lt_trans hk (by decide))]
      exact hk
    · have hlow := h i hi
      rw [pd4MEntryAt_guestPage4mb cr3 (by omega), hoffset, if_pos hlow]
      omega

/-- With all writes inside the table, an entry is filled for the pages that are mapped. -/
theorem load_directoryMem (h : ∀ i ∈ mappedFor vmmPmemStart vmmPmemSize, i < 512) (hi : i < 1024) :
    (directoryMem cr3 (pageDown4mb vmmPmemStart) (pageUp4mb (vmmPmemStart + vmmPmemSize) - 1#64)
        mem).load32 (cr3 + BitVec.ofNat 64 (4 * i)) =
      if Skips4mb vmmPmemStart vmmPmemSize i then 0#32 else identityEntry i := by
  have hclear : (mem.fill cr3 pageSize 0#8).load32 (cr3 + BitVec.ofNat 64 (4 * i)) = 0#32 := by
    refine Mem.load_fill_zero_inside fun k hk => ?_
    rw [BitVec.add_assoc, ← BitVec.ofNat_add, Mem.toNat_add_ofNat_sub _ (by omega)]
    change 4 * i + k < 4096
    omega
  unfold directoryMem
  change ((mappedFor vmmPmemStart vmmPmemSize).foldl (storePage4mb cr3) _).load32 _ = _
  rw [load_foldl_storePage4mb _ h hi, hclear]
  by_cases hskip : Skips4mb vmmPmemStart vmmPmemSize i
  · rw [if_pos hskip, if_neg fun hmem => (mem_mappedFor.mp hmem).2 hskip]
  · rw [if_neg hskip, if_pos (mem_mappedFor.mpr ⟨hi, hskip⟩)]

/-- The table is right when the pages from 2 GB on are skipped and meet the region, and of those
below exactly the pages are skipped that meet it. -/
theorem identityDirectory_iff_skips : IdentityDirectory vmmPmemStart vmmPmemSize cr3
      (directoryLog cr3 (pageDown4mb vmmPmemStart) (pageUp4mb (vmmPmemStart + vmmPmemSize) - 1#64))
      (directoryMem cr3 (pageDown4mb vmmPmemStart)
        (pageUp4mb (vmmPmemStart + vmmPmemSize) - 1#64) mem) ↔
    (∀ i, 512 ≤ i → i < 1024 →
        Skips4mb vmmPmemStart vmmPmemSize i ∧ MeetsVmm vmmPmemStart vmmPmemSize i) ∧
      ∀ i < 512, Skips4mb vmmPmemStart vmmPmemSize i ↔ MeetsVmm vmmPmemStart vmmPmemSize i := by
  have hzero : ∀ i, 0#32 ≠ identityEntry i := by
    intro i h
    have hbit := @identityEntry_present i
    rw [← h] at hbit
    exact nomatch hbit
  constructor
  · rintro ⟨hinside, hmapped, hhidden⟩
    have hlow := inside_iff.mp hinside
    have hskip : ∀ i, 512 ≤ i → i < 1024 → Skips4mb vmmPmemStart vmmPmemSize i := by
      intro i hi hi'
      refine Decidable.byContradiction fun hno => ?_
      exact absurd (hlow i (mem_mappedFor.mpr ⟨hi', hno⟩)) (by omega)
    have hmeets : ∀ i < 1024, Skips4mb vmmPmemStart vmmPmemSize i →
        MeetsVmm vmmPmemStart vmmPmemSize i := by
      intro i hi hs
      refine Classical.byContradiction fun hno => ?_
      have hentry := hmapped i hi hno
      rw [load_directoryMem hlow hi, if_pos hs] at hentry
      exact hzero i hentry
    refine ⟨fun i hi hi' => ⟨hskip i hi hi', hmeets i hi' (hskip i hi hi')⟩, fun i hi => ?_⟩
    refine ⟨hmeets i (by omega), fun hm => Decidable.byContradiction fun hno => ?_⟩
    have hclear := hhidden i (by omega) hm
    rw [load_directoryMem hlow (by omega), if_neg hno, identityEntry_present] at hclear
    exact nomatch hclear
  · rintro ⟨hhigh, hlow⟩
    have hinside : ∀ i ∈ mappedFor vmmPmemStart vmmPmemSize, i < 512 := by
      intro i hi
      obtain ⟨hlt, hno⟩ := mem_mappedFor.mp hi
      exact Decidable.byContradiction fun hge => hno (hhigh i (by omega) hlt).1
    have hiff : ∀ i < 1024,
        Skips4mb vmmPmemStart vmmPmemSize i ↔ MeetsVmm vmmPmemStart vmmPmemSize i := by
      intro i hi
      by_cases hsmall : i < 512
      · exact hlow i hsmall
      · exact iff_of_true (hhigh i (by omega) hi).1 (hhigh i (by omega) hi).2
    refine ⟨inside_iff.mpr hinside, fun i hi hno => ?_, fun i hi hm => ?_⟩
    · rw [load_directoryMem hinside hi, if_neg fun hs => hno ((hiff i hi).mp hs)]
    · rw [load_directoryMem hinside hi, if_pos ((hiff i hi).mpr hm)]
      rfl

/-- A run has allocated the page of the table. -/
theorem runs_create4mbNestedPagetable {host host' : Host} {log : List TableEvent}
    (hrun : (create4mbNestedPagetable vmmPmemStart vmmPmemSize).Runs host log cr3 host') :
    log = directoryLog cr3 (pageDown4mb vmmPmemStart)
        (pageUp4mb (vmmPmemStart + vmmPmemSize) - 1#64) ∧
      host'.mem = directoryMem cr3 (pageDown4mb vmmPmemStart)
        (pageUp4mb (vmmPmemStart + vmmPmemSize) - 1#64) host.mem := by
  unfold Exec.Runs at hrun
  cases halloc : allocHostPages 1#64 1#64 host.nalloc with
  | error e =>
    have hpage : onPages pgTableAlloc host = ([], .error e) := by
      unfold onPages pgTableAlloc
      rw [halloc]
      rfl
    unfold create4mbNestedPagetable directoryAlloc at hrun
    rw [Exec.run_bind_fails (Exec.run_bind_fails hpage)] at hrun
    exact nomatch hrun
  | ok r =>
    rw [create4mbNestedPagetable_eq halloc] at hrun
    obtain ⟨hlog, hresult⟩ := Prod.mk.inj hrun
    obtain ⟨hcr3, hhost⟩ := Prod.mk.inj (Except.ok.inj hresult)
    rw [← hcr3]
    refine ⟨hlog.symm, ?_⟩
    have hmem := congrArg Host.mem hhost
    dsimp only at hmem
    exact hmem.symm

/-- The table is right exactly for a region that meets every page. -/
theorem create4mbNestedPagetable_exact_iff {host host' : Host} {log : List TableEvent}
    (hrun : (create4mbNestedPagetable vmmPmemStart vmmPmemSize).Runs host log cr3 host') :
    IdentityDirectory vmmPmemStart vmmPmemSize cr3 log host'.mem ↔
      CoversAll vmmPmemStart vmmPmemSize := by
  obtain ⟨rfl, hmem⟩ := runs_create4mbNestedPagetable hrun
  rw [hmem, identityDirectory_iff_skips, skips_meets_iff]

end

/-- A machine with 64 free frames. -/
def Host.free : Host := ⟨fun _ => 0#8, ⟨#[0#64], 64#64⟩⟩

theorem exists_runs_free (vmmPmemStart vmmPmemSize : BitVec 64) : ∃ log cr3 host',
    (create4mbNestedPagetable vmmPmemStart vmmPmemSize).Runs .free log cr3 host' := by
  obtain ⟨⟨pfn, nalloc⟩, halloc, -⟩ := completesWith_ok
    (show completesWith (fun _ => true) (allocHostPages 1#64 1#64 Host.free.nalloc) = true by
      decide +kernel)
  exact ⟨_, _, _, create4mbNestedPagetable_eq halloc⟩

/-- Nothing is mapped, and nothing should be. -/
theorem create4mbNestedPagetable_exact_all : ∃ log cr3 host',
    (create4mbNestedPagetable 0#64 (BitVec.allOnes 64)).Runs .free log cr3 host' ∧
    IdentityDirectory 0#64 (BitVec.allOnes 64) cr3 log host'.mem := by
  obtain ⟨log, cr3, host', hrun⟩ := exists_runs_free 0#64 (BitVec.allOnes 64)
  exact ⟨log, cr3, host', hrun, (create4mbNestedPagetable_exact_iff hrun).mpr (by decide)⟩

/-- With the monitor in the second 16 MB the directory is wrong. -/
theorem create4mbNestedPagetable_wrong :
    ¬ ∀ (vmmPmemStart vmmPmemSize : BitVec 64) (host host' : Host) (log : List TableEvent)
      (cr3 : BitVec 64),
      (create4mbNestedPagetable vmmPmemStart vmmPmemSize).Runs host log cr3 host' →
        IdentityDirectory vmmPmemStart vmmPmemSize cr3 log host'.mem := by
  intro h
  obtain ⟨log, cr3, host', hrun⟩ := exists_runs_free 0x1000000#64 0x1000000#64
  have hdirectory := h _ _ _ _ _ _ hrun
  obtain ⟨rfl, hmem⟩ := runs_create4mbNestedPagetable hrun
  rw [hmem, identityDirectory_iff_skips, skips_meets_iff] at hdirectory
  exact absurd hdirectory.1 (by decide)

end Mavmm
