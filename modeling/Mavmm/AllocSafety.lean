import Mavmm.AllocSpec

/-!
# What the page allocator hands out

The initial map leaves exactly the whole RAM frames of the heap clear
(`naiveMemmapInit_spec`).  A run of calls that are not misled by the probe
hands out such frames only, each at most once (`allocHostPages_run_safe`); a
one-page request is always misled (`Manages.allocHostPages_one`).
-/

namespace Mavmm

open Bitmap

/-- A range of frames handed out, with the alignment it was asked for. -/
structure Grant where
  pfn : BitVec 64
  nrPfns : BitVec 64
  pfnAlign : BitVec 64
deriving DecidableEq

/-- The frames of a grant. -/
def Grant.Has (g : Grant) (p : Nat) : Prop :=
  g.pfn.toNat ≤ p ∧ p < g.pfn.toNat + g.nrPfns.toNat

theorem toNat_mapsizeRounded {maxPage : BitVec 64} (h : maxPage.toNat < 2 ^ 52) :
    (mapsizeRounded maxPage).toNat = (maxPage.toNat / 8 + 8 + 4095) / 4096 * 4096 := by
  unfold mapsizeRounded
  rw [toNat_pageUp, BitVec.toNat_add, BitVec.toNat_udiv]
  simp only [BitVec.toNat_ofNat, Nat.reducePow, Nat.reduceMod]
  omega

theorem toNat_hostAbStart : hostAbStart.toNat = 0x8100000 := by decide

/-- The allocator after the ranges of `granted` went out: the bitmap fills the space below
the heap, and a frame is taken unless it is a heap frame that was never granted. -/
structure Manages (e820 : E820Map) (pml : PmemLayout) (granted : List Grant)
    (nalloc : NaiveAllocator) : Prop where
  maxPage_eq : nalloc.maxPage = getMaxPfn e820
  size_eq : nalloc.allocBitmap.size * 8 = (mapsizeRounded nalloc.maxPage).toNat
  heapStart : pml.vmmHeapStart.toNat =
    hostAbStart.toNat + (mapsizeRounded nalloc.maxPage).toNat
  taken : ∀ p, p / 64 < nalloc.allocBitmap.size →
    (Taken nalloc p ↔ (∀ e ∈ e820.map, ¬ HeapFrame pml e p) ∨ ∃ g ∈ granted, g.Has p)

namespace Manages

variable {e820 : E820Map} {pml : PmemLayout} {granted : List Grant} {nalloc : NaiveAllocator}
  (hm : Manages e820 pml granted nalloc)
include hm

theorem maxPage_lt : nalloc.maxPage.toNat < 2 ^ 52 := hm.maxPage_eq ▸ getMaxPfn_lt e820

/-- The bitmap has a bit for every frame up to `max_page`. -/
theorem room : nalloc.maxPage.toNat / 64 < nalloc.allocBitmap.size := by
  have hsize := hm.size_eq
  rw [toNat_mapsizeRounded hm.maxPage_lt] at hsize
  omega

end Manages

section
variable {e820 : E820Map} {pml : PmemLayout} (hmax : pml.maxPage = getMaxPfn e820)
  (htop : pml.vmmPmemEnd.toNat + 4096 ≤ 2 ^ 64)
include hmax htop

/-- `naive_memmap_init` gives up only for want of heap space. -/
theorem naiveMemmapInit_spec :
    (naiveMemmapInit e820 pml = fatalFailure "No space left for VMM heap.\n" ∧
      pml.vmmPmemEnd ≤ hostAbStart + mapsizeRounded pml.maxPage) ∨
      ∃ pml' nalloc, naiveMemmapInit e820 pml = .ok (pml', nalloc) ∧
        Manages e820 pml' [] nalloc ∧ pml'.vmmPmemEnd = pml.vmmPmemEnd := by
  have hlt : pml.maxPage.toNat < 2 ^ 52 := hmax ▸ getMaxPfn_lt e820
  have hsize := toNat_mapsizeRounded hlt
  have hstart : (hostAbStart + mapsizeRounded pml.maxPage).toNat =
      hostAbStart.toNat + (mapsizeRounded pml.maxPage).toNat := by
    rw [BitVec.toNat_add, hsize, toNat_hostAbStart]
    omega
  unfold naiveMemmapInit
  dsimp only
  split
  · next hfull => exact .inl ⟨rfl, hfull⟩
  next hroom =>
  rw [ge_iff_le, BitVec.le_def, Nat.not_le] at hroom
  obtain ⟨nalloc, hok, hsize', hmax', hmem⟩ := @foldlM_initHostAllocEntry_spec
    { pml with vmmHeapStart := hostAbStart + mapsizeRounded pml.maxPage }
    (Nat.le_of_lt hroom) htop e820.map
    { allocBitmap := Array.replicate ((mapsizeRounded pml.maxPage).toNat / 8) (BitVec.allOnes 64)
      maxPage := pml.maxPage }
    (by
      intro e he hram hne
      have hle := end_le_getMaxPfn he hram hne
      rw [BitVec.le_def, ← hmax] at hle
      rw [Array.size_replicate, hsize]
      omega)
  rw [Array.size_replicate] at hsize'
  refine .inr ⟨{ pml with vmmHeapStart := hostAbStart + mapsizeRounded pml.maxPage }, nalloc, ?_,
    ⟨hmax'.trans hmax, ?_, ?_, fun p hp => ?_⟩, rfl⟩
  · unfold initHostAllocBitmap
    rw [hok]
    rfl
  · rw [hmax', hsize']
    change _ = (mapsizeRounded pml.maxPage).toNat
    omega
  · rw [hmax']
    exact hstart
  · have hall : Taken
        { allocBitmap := Array.replicate ((mapsizeRounded pml.maxPage).toNat / 8)
            (BitVec.allOnes 64)
          maxPage := pml.maxPage } p :=
      member_replicate_allOnes (by simp) (by omega)
    refine (hmem p).trans ?_
    simp only [hall, and_true, List.not_mem_nil, false_and, exists_false, or_false]

end

/-! ## Runs -/

/-- A call of `alloc_host_pages`. -/
structure Request where
  nrPfns : BitVec 64
  pfnAlign : BitVec 64
deriving DecidableEq

/-- Serve the requests in order; a fault ends the run. -/
def allocAll : List Request → NaiveAllocator → Except Fault (List Grant × NaiveAllocator)
  | [], nalloc => .ok ([], nalloc)
  | r :: rs, nalloc => do
    let (pfn, nalloc) ← allocHostPages r.nrPfns r.pfnAlign nalloc
    let (grants, nalloc) ← allocAll rs nalloc
    return (⟨pfn, r.nrPfns, r.pfnAlign⟩ :: grants, nalloc)

/-- A frame that is taken at first is never granted, when it is the one that every search starts
with. -/
theorem allocAll_not_has_zero (requests : List Request) :
    ∀ {nalloc nalloc' : NaiveAllocator} {grants : List Grant}, Taken nalloc 0 →
      allocAll requests nalloc = .ok (grants, nalloc') → ∀ g ∈ grants, ¬ g.Has 0 := by
  induction requests with
  | nil =>
    intro nalloc nalloc' grants _ h
    cases h
    exact fun g hg => nomatch hg
  | cons r rs ih =>
    intro nalloc nalloc' grants htaken h
    unfold allocAll at h
    obtain ⟨⟨pfn, nalloc₁⟩, hone, h⟩ := bind_ok_iff.mp h
    obtain ⟨⟨rest, nalloc₂⟩, hrest, h⟩ := bind_ok_iff.mp h
    cases h
    obtain ⟨hfree, hmap⟩ := allocPagesLoop_ok (2 ^ 64) 0#64 hone
    refine List.forall_mem_cons.mpr ⟨?_, ih (mapAlloc_mono hmap htaken) hrest⟩
    rintro ⟨hlo, hhi⟩
    have hzero : pfn.toNat = 0 := Nat.le_zero.mp hlo
    refine isFreeContiguousRegion_first ?_ hfree (by omega) (hzero.symm ▸ htaken)
    dsimp only at hhi
    omega

/-- Every call of the run meets `C`, read in the state it is made in. -/
def EachCall (C : NaiveAllocator → Request → Prop) : List Request → NaiveAllocator → Prop
  | [], _ => True
  | r :: rs, nalloc => C nalloc r ∧
      ∀ pfn nalloc', allocHostPages r.nrPfns r.pfnAlign nalloc = .ok (pfn, nalloc') →
        EachCall C rs nalloc'

/-- The arguments a caller may pass. -/
structure Request.Valid (maxPage : BitVec 64) (r : Request) : Prop where
  pos : 1 ≤ r.nrPfns.toNat
  le : r.nrPfns.toNat ≤ maxPage.toNat
  align_pos : 1 ≤ r.pfnAlign.toNat

/-- The search is not misled on request `r`: its position does not overflow, and if the first
candidate whose low-half frames are clear exists, then all frames of it are clear. -/
structure NotMisled (nalloc : NaiveAllocator) (r : Request) : Prop where
  noWrap : r.nrPfns = nalloc.maxPage ∨ r.nrPfns.toNat + r.pfnAlign.toNat < 2 ^ 64
  clear : ∀ j, r.pfnAlign.toNat ∣ j → j + r.nrPfns.toNat < nalloc.maxPage.toNat →
    LooksFree nalloc j r.nrPfns.toNat →
    (∀ i, r.pfnAlign.toNat ∣ i → i < j → ¬ LooksFree nalloc i r.nrPfns.toNat) →
    ∀ q, j ≤ q → q < j + r.nrPfns.toNat → ¬ Taken nalloc q

/-- Every frame of the grant lies wholly inside `[vmm_heap_start, vmm_pmem_end]`, past the
bitmap, and wholly inside a RAM entry. -/
structure Grant.Safe (e820 : E820Map) (pml : PmemLayout) (g : Grant) : Prop where
  aligned : g.pfnAlign.toNat ∣ g.pfn.toNat
  inHeap : ∀ p, g.Has p →
    pml.vmmHeapStart.toNat ≤ p * 4096 ∧ p * 4096 + 4095 ≤ pml.vmmPmemEnd.toNat
  offBitmap : ∀ p, g.Has p →
    hostAbStart.toNat + (mapsizeRounded (getMaxPfn e820)).toNat ≤ p * 4096
  inRam : ∀ p, g.Has p → ∃ e ∈ e820.map, e.type = e820Ram ∧
    e.addr.toNat ≤ p * 4096 ∧ p * 4096 + 4096 ≤ e.addr.toNat + e.size.toNat

def Grant.Disjoint (g g' : Grant) : Prop := ∀ p, ¬ (g.Has p ∧ g'.Has p)

section
variable {e820 : E820Map} {pml : PmemLayout} {granted : List Grant} {nalloc : NaiveAllocator}

theorem Manages.served {r : Request} {pfn : BitVec 64} {nalloc' : NaiveAllocator}
    (hm : Manages e820 pml granted nalloc)
    (h : Served nalloc r.nrPfns r.pfnAlign pfn nalloc') :
    Manages e820 pml (⟨pfn, r.nrPfns, r.pfnAlign⟩ :: granted) nalloc' where
  maxPage_eq := h.maxPage_eq.trans hm.maxPage_eq
  size_eq := by rw [h.size_eq, h.maxPage_eq, hm.size_eq]
  heapStart := by rw [h.maxPage_eq, hm.heapStart]
  taken p hp := by
    rw [h.taken p, hm.taken p (h.size_eq ▸ hp)]
    simp only [List.mem_cons, exists_eq_or_imp, Grant.Has]
    exact or_left_comm

/-- A call that is not misled grants free heap frames only. -/
theorem Manages.grant_safe {r : Request} {pfn : BitVec 64} {nalloc' : NaiveAllocator}
    (hm : Manages e820 pml granted nalloc) (hr : NotMisled nalloc r)
    (h : Served nalloc r.nrPfns r.pfnAlign pfn nalloc') :
    Grant.Safe e820 pml ⟨pfn, r.nrPfns, r.pfnAlign⟩ ∧
      ∀ g ∈ granted, Grant.Disjoint ⟨pfn, r.nrPfns, r.pfnAlign⟩ g := by
  have hfree : ∀ p, Grant.Has ⟨pfn, r.nrPfns, r.pfnAlign⟩ p →
      (∃ e ∈ e820.map, HeapFrame pml e p) ∧ ∀ g ∈ granted, ¬ g.Has p := by
    rintro p ⟨hlo, hhi⟩
    have hbound := h.below
    have hroom := hm.room
    have hclear := hr.clear _ h.aligned h.below h.looksFree h.first p hlo hhi
    rw [hm.taken p (by dsimp only at hhi; omega)] at hclear
    constructor
    · apply Classical.byContradiction
      intro hno
      exact hclear (.inl (fun e he hf => hno ⟨e, he, hf⟩))
    · exact fun g hg hp => hclear (.inr ⟨g, hg, hp⟩)
  refine ⟨⟨h.aligned, fun p hp => ?_, fun p hp => ?_, fun p hp => ?_⟩, fun g hg p hp => ?_⟩
  · obtain ⟨⟨e, -, hf⟩, -⟩ := hfree p hp
    have := hf.heapStart_le
    have := hf.le_pmemEnd
    omega
  · obtain ⟨⟨e, -, hf⟩, -⟩ := hfree p hp
    rw [← hm.maxPage_eq, ← hm.heapStart]
    exact hf.heapStart_le
  · obtain ⟨⟨e, he, hf⟩, -⟩ := hfree p hp
    have := hf.le_end
    rw [BitVec.toNat_add] at this
    have := Nat.mod_le (e.addr.toNat + e.size.toNat) (2 ^ 64)
    exact ⟨e, he, hf.ram, hf.addr_le, by omega⟩
  · exact (hfree p hp.1).2 g hg hp.2

/-- A one-page request gets page 32, whatever went out before: the pages below it lie under
the heap, and the bit of page 32 is in the high half of its word. -/
theorem Manages.allocHostPages_one (hm : Manages e820 pml granted nalloc)
    (hmax : 33 < nalloc.maxPage.toNat) :
    ∃ nalloc', allocHostPages 1#64 1#64 nalloc = .ok (32#64, nalloc') ∧
      Manages e820 pml (⟨32#64, 1#64, 1#64⟩ :: granted) nalloc' := by
  have hroom := hm.room
  have htaken : ∀ p, p < 32 → Taken nalloc p := fun p hp =>
    (hm.taken p (by omega)).mpr (.inl (fun e _ hf => by
      have hs := hm.heapStart
      have hle := hf.heapStart_le
      rw [toNat_hostAbStart] at hs
      omega))
  have hlooks : LooksFree nalloc 32 1 := fun q hlo hhi hlow => by omega
  have hnot : ∀ j, j < 32 → ¬ LooksFree nalloc j 1 := fun j hj h =>
    h j (Nat.le_refl j) (Nat.lt_succ_self j) (by omega) (htaken j hj)
  rcases @allocPages_spec nalloc 1#64 1#64 hm.maxPage_lt hroom
    (by rw [BitVec.toNat_ofNat]; omega) (by simp) (.inr (by simp)) with ⟨-, hno⟩ | h
  · exact absurd hlooks (hno 32 ⟨32, rfl⟩ hmax)
  · obtain ⟨pfn, nalloc', hok, hserved⟩ := h
    have hpfn : pfn = 32#64 := by
      apply BitVec.eq_of_toNat_eq
      rcases Nat.lt_trichotomy pfn.toNat 32 with hlt | heq | hgt
      · exact absurd hserved.looksFree (hnot _ hlt)
      · exact heq
      · exact absurd hlooks (hserved.first 32 ⟨32, rfl⟩ hgt)
    subst hpfn
    exact ⟨nalloc', hok, @Manages.served _ _ _ _ ⟨1#64, 1#64⟩ _ _ hm hserved⟩

/-- A run whose calls are not misled grants free heap frames, each at most once. -/
theorem Manages.allocAll_safe (requests : List Request) :
    ∀ {granted : List Grant} {nalloc : NaiveAllocator}, Manages e820 pml granted nalloc →
      (∀ r ∈ requests, r.Valid nalloc.maxPage) → EachCall NotMisled requests nalloc →
      (∃ msg, allocAll requests nalloc = .error (.fatalFailure msg)) ∨
        ∃ grants nalloc', allocAll requests nalloc = .ok (grants, nalloc') ∧
          (∀ g ∈ grants, g.Safe e820 pml) ∧ grants.Pairwise Grant.Disjoint ∧
          ∀ g ∈ grants, ∀ g' ∈ granted, g.Disjoint g' := by
  induction requests with
  | nil =>
    intro granted nalloc _ _ _
    exact .inr ⟨[], nalloc, rfl, by simp, .nil, by simp⟩
  | cons r rs ih =>
    intro granted nalloc hm hvalid heach
    obtain ⟨hr, hrest⟩ := heach
    obtain ⟨-, hle, hpos⟩ := hvalid r List.mem_cons_self
    unfold allocAll
    rcases allocPages_spec hm.maxPage_lt hm.room hle hpos hr.noWrap with
      ⟨hfatal, -⟩ | ⟨pfn, nalloc₁, hok, hserved⟩
    · left
      refine ⟨"alloc_pages failed\n", ?_⟩
      unfold allocHostPages
      rw [hfatal]
      rfl
    · obtain ⟨hsafe, hdisj⟩ := hm.grant_safe hr hserved
      have hvalid' : ∀ r' ∈ rs, r'.Valid nalloc₁.maxPage := fun r' hr' =>
        hserved.maxPage_eq ▸ hvalid r' (List.mem_cons_of_mem r hr')
      rcases ih (hm.served hserved) hvalid' (hrest pfn nalloc₁ hok) with
        ⟨msg, hfatal⟩ | ⟨grants, nalloc₂, hok₂, hsafe₂, hpair, hdisj₂⟩
      · left
        refine ⟨msg, ?_⟩
        unfold allocHostPages
        simp only [hok, bind, Except.bind, hfatal]
      · right
        refine ⟨⟨pfn, r.nrPfns, r.pfnAlign⟩ :: grants, nalloc₂, ?_, ?_, ?_, ?_⟩
        · unfold allocHostPages
          simp only [hok, bind, Except.bind, hok₂, pure, Except.pure]
        · exact List.forall_mem_cons.mpr ⟨hsafe, hsafe₂⟩
        · refine List.pairwise_cons.mpr ⟨fun g hg p hp => ?_, hpair⟩
          exact hdisj₂ g hg _ List.mem_cons_self p hp.symm
        · refine List.forall_mem_cons.mpr ⟨hdisj, fun g hg g' hg' => ?_⟩
          exact hdisj₂ g hg g' (List.mem_cons_of_mem _ hg')

end

/-- The run completes with ranges that are safe and pairwise disjoint. -/
def SafeRun (e820 : E820Map) (pml : PmemLayout) (requests : List Request)
    (nalloc : NaiveAllocator) : Prop :=
  ∃ grants nalloc', allocAll requests nalloc = .ok (grants, nalloc') ∧
    (∀ g ∈ grants, g.Safe e820 pml) ∧ grants.Pairwise Grant.Disjoint

/-- Neither the initialisation nor a run of calls that are not misled touches a word outside
the bitmap; a run that does not give up hands out free heap frames, each at most once. -/
theorem allocHostPages_run_safe (e820 : E820Map) (pml : PmemLayout)
    (hmax : pml.maxPage = getMaxPfn e820) (htop : pml.vmmPmemEnd.toNat + 4096 ≤ 2 ^ 64) :
    naiveMemmapInit e820 pml ≠ .error .outOfBounds ∧
      ∀ pml' nalloc, naiveMemmapInit e820 pml = .ok (pml', nalloc) →
        ∀ requests : List Request, (∀ r ∈ requests, r.Valid pml.maxPage) →
          EachCall NotMisled requests nalloc →
          (∃ msg, allocAll requests nalloc = .error (.fatalFailure msg)) ∨
            SafeRun e820 pml' requests nalloc := by
  rcases naiveMemmapInit_spec hmax htop with ⟨hfatal, -⟩ | ⟨pml₁, nalloc₁, hok, hm, -⟩
  · rw [hfatal]
    exact ⟨nofun, nofun⟩
  · rw [hok]
    refine ⟨nofun, fun pml' nalloc h requests hvalid heach => ?_⟩
    cases h
    rw [hmax, ← hm.maxPage_eq] at hvalid
    rcases hm.allocAll_safe requests hvalid heach with
      hfatal | ⟨grants, nalloc', hrun, hsafe, hpair, -⟩
    · exact .inl hfatal
    · exact .inr ⟨grants, nalloc', hrun, hsafe, hpair⟩

/-! ## A machine with 256 MB -/

def ramMap : E820Map := ⟨[⟨0#64, 0x10000000#64, e820Ram⟩], by decide⟩

theorem setupMemory_ramMap :
    ∃ pml nalloc, setupMemory ramMap defaultVmmPmemSize = .ok (pml, nalloc) ∧
      Manages ramMap pml [] nalloc ∧ pml.vmmPmemEnd = 0x8ffffff#64 := by
  rcases @naiveMemmapInit_spec ramMap (bootLayout ramMap defaultVmmPmemSize) rfl
      (by decide) with ⟨-, hfull⟩ | h
  · exact absurd hfull (by decide)
  · exact h

/-- Two one-page requests on this machine get the same page, which is not in the heap. -/
theorem allocHostPages_run_unsafe :
    ∃ pml nalloc, setupMemory ramMap defaultVmmPmemSize = .ok (pml, nalloc) ∧
      (∀ r ∈ [⟨1#64, 1#64⟩, ⟨1#64, 1#64⟩], Request.Valid (getMaxPfn ramMap) r) ∧
      (∀ msg, allocAll [⟨1#64, 1#64⟩, ⟨1#64, 1#64⟩] nalloc ≠ .error (.fatalFailure msg)) ∧
      ¬ SafeRun ramMap pml [⟨1#64, 1#64⟩, ⟨1#64, 1#64⟩] nalloc := by
  obtain ⟨pml, nalloc, hinit, hm, -⟩ := setupMemory_ramMap
  have hmax : (getMaxPfn ramMap).toNat = 0x10000 := by decide
  have hroom : 33 < nalloc.maxPage.toNat := by
    rw [hm.maxPage_eq, hmax]
    decide
  obtain ⟨nalloc₁, h₁, hm₁⟩ := hm.allocHostPages_one hroom
  obtain ⟨nalloc₂, h₂, -⟩ := hm₁.allocHostPages_one (by rw [hm₁.maxPage_eq, hmax]; decide)
  have hrun : allocAll [⟨1#64, 1#64⟩, ⟨1#64, 1#64⟩] nalloc =
      .ok ([⟨32#64, 1#64, 1#64⟩, ⟨32#64, 1#64, 1#64⟩], nalloc₂) := by
    simp only [allocAll, h₁, h₂, bind, Except.bind, pure, Except.pure]
  refine ⟨pml, nalloc, hinit, ?_, ?_, ?_⟩
  · have hvalid : Request.Valid (getMaxPfn ramMap) ⟨1#64, 1#64⟩ :=
      ⟨by decide, by rw [hmax]; decide, by decide⟩
    exact List.forall_mem_cons.mpr ⟨hvalid, List.forall_mem_singleton.mpr hvalid⟩
  · rw [hrun]
    exact nofun
  · rintro ⟨grants, nalloc', hok, hsafe, -⟩
    rw [hrun] at hok
    cases hok
    have hlow := (hsafe _ List.mem_cons_self).offBitmap 32 ⟨Nat.le_refl _, by decide⟩
    rw [toNat_hostAbStart] at hlow
    omega

/-- A request for 32 frames at an alignment above half of the memory is not misled, and gets frames
of the heap, if none behind the alignment were granted. -/
theorem Manages.serves_32 {pml : PmemLayout} {granted : List Grant} {nalloc : NaiveAllocator}
    {align : BitVec 64} (hm : Manages ramMap pml granted nalloc)
    (hend : pml.vmmPmemEnd = 0x8ffffff#64) (hlo : 33088 ≤ align.toNat)
    (hhi : align.toNat + 32 < 36864) (hgranted : ∀ g ∈ granted, ∀ q, g.Has q → q < align.toNat) :
    NotMisled nalloc ⟨32#64, align⟩ ∧ ∃ nalloc',
      allocHostPages 32#64 align nalloc = .ok (align, nalloc') ∧
        Manages ramMap pml (⟨align, 32#64, align⟩ :: granted) nalloc' := by
  have hmax : nalloc.maxPage.toNat = 0x10000 := by
    rw [hm.maxPage_eq]
    decide
  have hroom := hm.room
  have hstart := hm.heapStart
  rw [toNat_hostAbStart, toNat_mapsizeRounded hm.maxPage_lt, hmax] at hstart
  have hthirtyTwo : (32#64).toNat = 32 := rfl
  have hclear : ∀ q, align.toNat ≤ q → q < align.toNat + 32 → ¬ Taken nalloc q := by
    intro q hlow hhigh htaken
    rcases (hm.taken q (by omega)).mp htaken with hno | ⟨g, hg, hhas⟩
    · refine hno ⟨0#64, 0x10000000#64, e820Ram⟩ List.mem_cons_self ⟨rfl, by omega, ?_, ?_, ?_⟩
      · rw [hend, BitVec.toNat_ofNat]
        omega
      · exact Nat.zero_le _
      · rw [BitVec.toNat_add, BitVec.toNat_ofNat, BitVec.toNat_ofNat]
        omega
    · exact absurd (hgranted g hg q hhas) (by omega)
  have hzero : ¬ LooksFree nalloc 0 32 := fun h =>
    h 0 (Nat.le_refl 0) (by simp) (by simp) ((hm.taken 0 (by omega)).mpr
      (.inl (fun e _ hf => by have := hf.heapStart_le; omega)))
  -- the only place to look at besides frame 0
  have hplace : ∀ j, align.toNat ∣ j → j + 32 < 0x10000 → LooksFree nalloc j 32 →
      j = align.toNat := by
    rintro j ⟨k, rfl⟩ hlt hlooks
    rcases k with _ | _ | k
    · exact absurd hlooks hzero
    · exact Nat.mul_one _
    · have hmul : align.toNat * 2 ≤ align.toNat * (k + 1 + 1) :=
        Nat.mul_le_mul_left _ (Nat.le_add_left 2 k)
      omega
  constructor
  · refine ⟨.inr (by dsimp only; omega), fun j hdvd hlt hlooks _ => ?_⟩
    rw [hplace j hdvd (hmax ▸ hlt) hlooks]
    exact hclear
  · rcases @allocPages_spec nalloc 32#64 align hm.maxPage_lt hroom (by omega) (by omega)
      (.inr (by omega)) with ⟨-, hno⟩ | ⟨pfn, nalloc', hok, hserved⟩
    · exact absurd (fun q hlow hhigh _ => hclear q hlow hhigh)
        (hno align.toNat (Nat.dvd_refl _) (by omega))
    · have hpfn : pfn = align := BitVec.eq_of_toNat_eq
        (hplace pfn.toNat hserved.aligned (hmax ▸ hserved.below) hserved.looksFree)
      rw [hpfn] at hok hserved
      exact ⟨nalloc', hok, @Manages.served _ _ _ _ ⟨32#64, align⟩ _ _ hm hserved⟩

/-- Two requests for 32 frames from a 64-frame boundary on are served from the heap. -/
theorem allocHostPages_run_safe_32 :
    ∃ pml nalloc, setupMemory ramMap defaultVmmPmemSize = .ok (pml, nalloc) ∧
      SafeRun ramMap pml [⟨32#64, 33088#64⟩, ⟨32#64, 33152#64⟩] nalloc := by
  obtain ⟨pml, nalloc, hinit, hm, hend⟩ := setupMemory_ramMap
  have hmax : (getMaxPfn ramMap).toNat = 0x10000 := by decide
  obtain ⟨hnot, nalloc₁, h₁, hm₁⟩ :=
    @Manages.serves_32 _ _ _ 33088#64 hm hend (by decide) (by decide) (List.forall_mem_nil _)
  have hgranted : ∀ g ∈ [(⟨33088#64, 32#64, 33088#64⟩ : Grant)], ∀ q, g.Has q →
      q < (33152#64).toNat := by
    refine List.forall_mem_singleton.mpr fun q hq => Nat.lt_of_lt_of_le hq.2 (by decide)
  obtain ⟨hnot', nalloc₂, h₂, -⟩ :=
    @Manages.serves_32 _ _ _ 33152#64 hm₁ hend (by decide) (by decide) hgranted
  have heach : EachCall NotMisled [⟨32#64, 33088#64⟩, ⟨32#64, 33152#64⟩] nalloc := by
    refine ⟨hnot, fun pfn nalloc' h => ?_⟩
    cases h₁.symm.trans h
    exact ⟨hnot', fun _ _ _ => trivial⟩
  have hvalid : ∀ r ∈ [(⟨32#64, 33088#64⟩ : Request), ⟨32#64, 33152#64⟩],
      r.Valid (getMaxPfn ramMap) := by
    refine List.forall_mem_cons.mpr ⟨⟨by decide, by rw [hmax]; decide, by decide⟩, ?_⟩
    exact List.forall_mem_singleton.mpr ⟨by decide, by rw [hmax]; decide, by decide⟩
  rcases (allocHostPages_run_safe ramMap (bootLayout ramMap defaultVmmPmemSize) rfl (by decide)).2
    pml nalloc hinit _ hvalid heach with ⟨msg, hfatal⟩ | hsafe
  · simp only [allocAll, h₁, h₂, bind, Except.bind, pure, Except.pure] at hfatal
    cases hfatal
  · exact ⟨pml, nalloc, hinit, hsafe⟩

end Mavmm
