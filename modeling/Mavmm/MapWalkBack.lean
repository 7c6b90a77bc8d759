import Mavmm.GuestPaging
import Mavmm.NestedTable

/-!
# The monitor's own walk of its page map (page.c)

`linear2physical_legacy2mb` reads the tables that `mmap_pml4` fills.  A page
found there is shifted as an `int`, so that the address of a page from 2 GB on
does not come back; a root at address 0 counts as no table at all, and where
the allocator has run out of frames the tables of a mapping lie on one another.
Apart from that the walk gives what was mapped (`walksBack_iff`).
-/

namespace Mavmm

open PgtEntry2mb

/-! ## The walk -/

/-- `__linear2physical_legacy2mb`. -/
def linear2physicalLegacy2mbFrom (mem : Mem) (vaddr : BitVec 64) :
    (level : Nat) → (pgTableBase : BitVec 64) → Except Fault (BitVec 64)
  -- `get_entry` knows no level below the page directory
  | 0, pgTableBase => getEntry pgTableBase vaddr 0
  | level + 1, pgTableBase => do
    let e := mem.load64 (← getEntry pgTableBase vaddr (level + 1))
    if ¬ entry2mbIsPresent e then fatalFailure "Page table entry is not present.\n"
    else if level + 1 = pgtLevelPd then
      if termFlags e &&& BitVec.ofNat 21 pttefPageSize = 0#21 then
        fatalFailure "Not 2 Mbyte page size.\n"
      else return shiftInt (termBase e) pageShift2mb + (vaddr &&& 0x1fffff#64)
    else
      linear2physicalLegacy2mbFrom mem vaddr level ((nonTermBase e <<< pageShift).setWidth 64)

/-- `linear2physical_legacy2mb`; without a table the address is the physical one. -/
def linear2physicalLegacy2mb (mem : Mem) (pml4TableBase vaddr : BitVec 64) :
    Except Fault (BitVec 64) :=
  if pml4TableBase = 0#64 then .ok vaddr
  else linear2physicalLegacy2mbFrom mem vaddr pgtLevelPml4 pml4TableBase

/-! ## When a mapping comes back -/

/-- The frame of the table that an entry points to. -/
def nextFrame (e : BitVec 64) : Nat := (nonTermBase e).toNat % 2 ^ 28

/-- The word is taken for the entry of the 2 MB page at `p`. -/
structure MapsPage (e p : BitVec 64) : Prop where
  present : Paging.present e = true
  large : Paging.large e = true
  base : shiftInt (termBase e) pageShift2mb = p

/-- What lets the walk find the page at `p` where the first mapping of a root puts it: at the
address itself without a table, and otherwise below 2 GB and with a frame for each table.

With one clear frame the tables of the lower levels share frame 32, with none all three do.  An
entry that two of them use is that of the page in the end, and what lies in the page is taken for
the next table. -/
def WalksBack (host : Host) (v p : BitVec 64) : Prop :=
  if ¬ Taken host.nalloc 0 then pageDown2mb v = p
  else p.toNat < 2 ^ 31 ∧
    match (lowFrames host.nalloc).length with
    | 0 =>
      if v.toNat / 2 ^ 21 % 512 = v.toNat / 2 ^ 39 % 512 then
        let e := tableEntries host.mem (p.toNat / 4096) (v.toNat / 2 ^ 30 % 512)
        Paging.present e = true ∧ (nextFrame e = 32 ∨
          MapsPage (tableEntries host.mem (nextFrame e) (v.toNat / 2 ^ 21 % 512)) p)
      else v.toNat / 2 ^ 30 % 512 = v.toNat / 2 ^ 39 % 512
    | 1 =>
      v.toNat / 2 ^ 21 % 512 = v.toNat / 2 ^ 30 % 512 →
        MapsPage (tableEntries host.mem (p.toNat / 4096) (v.toNat / 2 ^ 21 % 512)) p
    | _ => True

/-! ## Entries -/

/-- The page comes back when it starts below 2 GB. -/
theorem shiftInt_eq_iff {x : BitVec 31} {p : BitVec 64} (hp : p.toNat < 2 ^ 52) :
    shiftInt x pageShift2mb = p ↔ p.toNat < 2 ^ 31 ∧ x.toNat * 2 ^ 21 % 2 ^ 32 = p.toNat := by
  have hnat : (x.setWidth 32 <<< pageShift2mb).toNat = x.toNat * 2 ^ 21 % 2 ^ 32 := by
    rw [BitVec.toNat_shiftLeft, BitVec.toNat_setWidth, Nat.shiftLeft_eq]
    unfold pageShift2mb
    have hlt := x.isLt
    omega
  unfold shiftInt
  rw [← BitVec.toNat_inj, BitVec.toNat_signExtend, BitVec.msb_eq_decide, BitVec.toNat_setWidth,
    hnat]
  by_cases hsign : 2 ^ 31 ≤ x.toNat * 2 ^ 21 % 2 ^ 32
  · rw [if_pos (decide_eq_true hsign)]
    omega
  · rw [if_neg (by simpa using hsign)]
    omega

theorem toNat_termBase_writeTerm {x p : BitVec 64} {isUser : Bool} :
    (termBase (writeTerm x p isUser)).toNat = p.toNat / 2 ^ 21 % 2 ^ 31 := by
  apply Nat.eq_of_testBit_eq
  intro i
  unfold termBase
  rw [BitVec.testBit_toNat, BitVec.getLsbD_extractLsb', Nat.testBit_mod_two_pow,
    Nat.testBit_div_two_pow]
  by_cases hi : i < 31
  · rw [getLsbD_writeTerm _ _ _ (by omega), if_neg (by omega), if_pos (by omega),
      BitVec.testBit_toNat, Nat.add_comm 21 i]
  · rw [decide_eq_false hi, Bool.false_and, Bool.false_and]

theorem present_writeTerm (x p : BitVec 64) (isUser : Bool) :
    Paging.present (writeTerm x p isUser) = true :=
  getLsbD_writeTerm x p isUser (by simp)

theorem large_writeTerm (x p : BitVec 64) (isUser : Bool) :
    Paging.large (writeTerm x p isUser) = true :=
  getLsbD_writeTerm x p isUser (by simp)

/-- The entry that `mmap_pml4` writes. -/
theorem mapsPage_writeTerm {x p : BitVec 64} {isUser : Bool} (hp : p.toNat < 2 ^ 52)
    (haligned : p.toNat % 2 ^ 21 = 0) : MapsPage (writeTerm x p isUser) p ↔ p.toNat < 2 ^ 31 := by
  constructor
  · exact fun h => ((shiftInt_eq_iff hp).mp h.base).1
  · intro hlt
    refine ⟨present_writeTerm x p isUser, large_writeTerm x p isUser,
      (shiftInt_eq_iff hp).mpr ⟨hlt, ?_⟩⟩
    rw [toNat_termBase_writeTerm]
    omega

theorem nextBase_eq (e : BitVec 64) :
    (nonTermBase e <<< pageShift).setWidth 64 = frameAddr (nextFrame e) := by
  have hlt := (nonTermBase e).isLt
  apply BitVec.eq_of_toNat_eq
  rw [BitVec.toNat_setWidth, BitVec.toNat_shiftLeft, Nat.shiftLeft_eq,
    toNat_frameAddr (by unfold nextFrame; omega)]
  unfold nextFrame pageShift
  omega

theorem frameAddr_injective {f g : Nat} (hf : f < 2 ^ 52) (hg : g < 2 ^ 52)
    (h : frameAddr f = frameAddr g) : f = g := by
  have hnat := congrArg BitVec.toNat h
  rw [toNat_frameAddr hf, toNat_frameAddr hg] at hnat
  omega

theorem nextFrame_linkWord {f : Nat} (hf : f < 2 ^ 28) : nextFrame (linkWord f) = f := by
  refine frameAddr_injective (by unfold nextFrame; omega) (by omega) ?_
  rw [← nextBase_eq, nonTermBase_linkWord hf]

/-- The entry of a page, taken for one that points to a table. -/
theorem nextFrame_writeTerm {x p : BitVec 64} {isUser : Bool} (hp : p.toNat < 2 ^ 52)
    (haligned : p.toNat % 2 ^ 21 = 0) :
    nextFrame (writeTerm x p isUser) = p.toNat / 4096 % 2 ^ 28 := by
  have hbase : (nonTermBase (writeTerm x p isUser)).toNat = p.toNat / 2 ^ 12 := by
    apply Nat.eq_of_testBit_eq
    intro i
    unfold nonTermBase
    rw [BitVec.testBit_toNat, BitVec.getLsbD_extractLsb', Nat.testBit_div_two_pow]
    by_cases hi : i < 40
    · rw [getLsbD_writeTerm _ _ _ (by omega), decide_eq_true hi, Bool.true_and,
        BitVec.testBit_toNat, Nat.add_comm 12 i]
      by_cases hlow : i + 12 < 21
      · have hzero : p.getLsbD (i + 12) = false := by
          have hbit := Nat.testBit_mod_two_pow p.toNat 21 (i + 12)
          rw [haligned, Nat.zero_testBit, decide_eq_true hlow, Bool.true_and] at hbit
          exact hbit.symm
        rw [if_pos hlow, hzero, decide_eq_false (by omega), decide_eq_false (by omega)]
        simp
      · rw [if_neg hlow, if_pos (by omega)]
    · rw [decide_eq_false hi, Bool.false_and, Bits.testBit_of_lt hp (by omega)]
  unfold nextFrame
  rw [hbase, show (4096 : Nat) = 2 ^ 12 from rfl]

/-! ## Levels -/

section
variable {mem : Mem} {a r : BitVec 64}

/-- The walk goes through the entry of an upper level. -/
theorem walkFrom_upper_iff {level shift f : Nat}
    (h : (level = 3 ∧ shift = 39) ∨ (level = 2 ∧ shift = 30)) :
    linear2physicalLegacy2mbFrom mem a (level + 1) (frameAddr f) = .ok r ↔
      Paging.present (tableEntries mem f (a.toNat / 2 ^ shift % 512)) = true ∧
        linear2physicalLegacy2mbFrom mem a level
          (frameAddr (nextFrame (tableEntries mem f (a.toNat / 2 ^ shift % 512)))) = .ok r := by
  have hentry : getEntry (frameAddr f) a (level + 1) =
      .ok (entryAddr f (a.toNat / 2 ^ shift % 512)) := by
    refine getEntry_eq ?_
    rcases h with ⟨rfl, rfl⟩ | ⟨rfl, rfl⟩
    · exact Or.inl ⟨rfl, rfl⟩
    · exact Or.inr (Or.inl ⟨rfl, rfl⟩)
  have hpd : level + 1 ≠ pgtLevelPd := by
    unfold pgtLevelPd
    omega
  rw [linear2physicalLegacy2mbFrom, hentry]
  simp only [bind, Except.bind, entry2mbIsPresent_eq, if_neg hpd, nextBase_eq]
  change (if ¬ Paging.present (tableEntries mem f (a.toNat / 2 ^ shift % 512)) = true then _
    else _) = _ ↔ _
  split
  · next habsent => exact iff_of_false nofun fun hr => habsent hr.1
  · next hpresent => exact (and_iff_right (Decidable.not_not.mp hpresent)).symm

theorem walkFrom_pd_iff {f : Nat} {p o : BitVec 64} (ho : a &&& 0x1fffff#64 = o) :
    linear2physicalLegacy2mbFrom mem a 2 (frameAddr f) = .ok (p + o) ↔
      MapsPage (tableEntries mem f (a.toNat / 2 ^ 21 % 512)) p := by
  have hentry : getEntry (frameAddr f) a 2 = .ok (entryAddr f (a.toNat / 2 ^ 21 % 512)) :=
    getEntry_eq (Or.inr (Or.inr ⟨rfl, rfl⟩))
  have hlarge : ∀ e : BitVec 64, termFlags e &&& BitVec.ofNat 21 pttefPageSize = 0#21 ↔
      ¬ Paging.large e = true := by
    intro e
    have hflag : decide (termFlags e &&& BitVec.ofNat 21 pttefPageSize ≠ 0#21) =
        Paging.large e := Bits.testFlag (by simp)
    rw [← hflag]
    simp
  rw [linear2physicalLegacy2mbFrom, hentry]
  simp only [bind, Except.bind, entry2mbIsPresent_eq, hlarge, ho]
  change (if ¬ Paging.present (tableEntries mem f (a.toNat / 2 ^ 21 % 512)) = true then _
    else if _ then if ¬ Paging.large (tableEntries mem f (a.toNat / 2 ^ 21 % 512)) = true then _
      else Except.ok (shiftInt (termBase (tableEntries mem f (a.toNat / 2 ^ 21 % 512)))
        pageShift2mb + o) else _) = _ ↔ _
  split
  · next habsent => exact iff_of_false nofun fun h => habsent h.present
  · next hpresent =>
    rw [if_pos (show 1 + 1 = pgtLevelPd from rfl)]
    split
    · next hsmall => exact iff_of_false nofun fun h => hsmall h.large
    · next hpage =>
      rw [Except.ok.injEq, BitVec.add_left_inj]
      exact ⟨fun h => ⟨Decidable.not_not.mp hpresent, Decidable.not_not.mp hpage, h⟩,
        fun h => h.base⟩

/-- The words on the way of a walk from the root. -/
theorem walkFrom_iff {f : Nat} {p o : BitVec 64} (ho : a &&& 0x1fffff#64 = o) :
    linear2physicalLegacy2mbFrom mem a pgtLevelPml4 (frameAddr f) = .ok (p + o) ↔
      Paging.present (tableEntries mem f (a.toNat / 2 ^ 39 % 512)) = true ∧
      Paging.present (tableEntries mem (nextFrame (tableEntries mem f (a.toNat / 2 ^ 39 % 512)))
        (a.toNat / 2 ^ 30 % 512)) = true ∧
      MapsPage (tableEntries mem (nextFrame (tableEntries mem
        (nextFrame (tableEntries mem f (a.toNat / 2 ^ 39 % 512))) (a.toNat / 2 ^ 30 % 512)))
        (a.toNat / 2 ^ 21 % 512)) p := by
  unfold pgtLevelPml4
  rw [walkFrom_upper_iff (Or.inl ⟨rfl, rfl⟩), walkFrom_upper_iff (Or.inr ⟨rfl, rfl⟩),
    walkFrom_pd_iff ho]

/-! ## Tables of their own -/

/-- With a table in a frame of its own on every level the walk reaches the page. -/
theorem Maps.walkBack {host : Host} {supply : List Nat} {root : Nat} {done : List MmapCall}
    {node : Nat → Nat → Option Nat} (hm : Maps host supply root done node) {c : MmapCall}
    (hc : lastCall done (a.toNat / 2 ^ 21) = some c) (ha : a.toNat < 2 ^ 48) {o : BitVec 64}
    (ho : a &&& 0x1fffff#64 = o) (hp : c.paddr.toNat < 2 ^ 52)
    (haligned : c.paddr.toNat % 2 ^ 21 = 0) :
    linear2physicalLegacy2mbFrom host.mem a pgtLevelPml4 (frameAddr root) = .ok (c.paddr + o) ↔
      c.paddr.toNat < 2 ^ 31 := by
  have hmem : c ∈ done := List.mem_of_find?_eq_some hc
  have hpage : c.vaddr.toNat / 2 ^ 21 = a.toNat / 2 ^ 21 := by
    simpa using List.find?_some hc
  have hk₁ : 0 * 512 + a.toNat / 2 ^ 39 % 512 = a.toNat / 2 ^ 39 := by omega
  have hk₀ : a.toNat / 2 ^ 39 * 512 + a.toNat / 2 ^ 30 % 512 = a.toNat / 2 ^ 30 :=
    key_index a.toNat 30
  have hkl : a.toNat / 2 ^ 30 * 512 + a.toNat / 2 ^ 21 % 512 = a.toNat / 2 ^ 21 :=
    key_index a.toNat 21
  have hmod : ∀ x, x % 512 < tableFormat.fanout := fun x => Nat.mod_lt x (by simp)
  obtain ⟨f₁, hf₁⟩ := Option.ne_none_iff_exists'.mp
    (fun hnone => (hm.level1 (a.toNat / 2 ^ 39)).mp hnone c hmem (by omega))
  obtain ⟨f₀, hf₀⟩ := Option.ne_none_iff_exists'.mp
    (fun hnone => (hm.level0 (a.toNat / 2 ^ 30)).mp hnone c hmem (by omega))
  have hlow : ∀ {l k f}, node l k = some f → f < 2 ^ 28 := fun hn =>
    Nat.lt_trans (hm.tree.low hn) (by simp)
  have hpml4e : tableEntries host.mem root (a.toNat / 2 ^ 39 % 512) = linkWord f₁ := by
    have h := hm.tree.rep.upper hm.rootNode (hmod (a.toNat / 2 ^ 39))
    rwa [show 0 * tableFormat.fanout = 0 * 512 from rfl, hk₁, hf₁] at h
  have hpdpe : tableEntries host.mem f₁ (a.toNat / 2 ^ 30 % 512) = linkWord f₀ := by
    have h := hm.tree.rep.upper hf₁ (hmod (a.toNat / 2 ^ 30))
    rwa [show a.toNat / 2 ^ 39 * tableFormat.fanout = a.toNat / 2 ^ 39 * 512 from rfl, hk₀, hf₀]
      at h
  have hpde : tableEntries host.mem f₀ (a.toNat / 2 ^ 21 % 512) =
      writeTerm 0#64 c.paddr c.isUser := by
    have h := hm.tree.rep.leaves hf₀ (hmod (a.toNat / 2 ^ 21))
    rwa [show a.toNat / 2 ^ 30 * tableFormat.fanout = a.toNat / 2 ^ 30 * 512 from rfl, hkl, hc]
      at h
  rw [walkFrom_iff ho, hpml4e, nextFrame_linkWord (hlow hf₁), hpdpe,
    nextFrame_linkWord (hlow hf₀), hpde, mapsPage_writeTerm hp haligned,
    and_iff_right (present_linkWord f₁), and_iff_right (present_linkWord f₀)]

/-! ## Tables on one another -/

variable {host host' : Host}

/-- A table that frame 32 is handed out for: whatever was there is cleared first. -/
theorem nextTable_shared {g j : Nat} {rest : List Nat} {next : BitVec 64}
    (hs : Supplies host.nalloc (32 :: rest)) (hg : g < 2 ^ 40) (hj : j < 512)
    (hempty : tableEntries host.mem g j = 0#64)
    (h : nextTable (entryAddr g j) host = .ok (next, host')) :
    next = frameAddr 32 ∧ Supplies host'.nalloc rest ∧
      ∀ g' j', g' < 2 ^ 40 → j' < 512 → tableEntries host'.mem g' j' =
        if g' = g ∧ j' = j then linkWord 32
        else if g' = 32 then 0#64 else tableEntries host.mem g' j' := by
  have hload : host.mem.load64 (entryAddr g j) = 0#64 := hempty
  obtain ⟨paddr, host₁, halloc, rfl, rfl⟩ := nextTable_absent (by rw [hload]; rfl) h
  obtain ⟨rfl, hmem, hrest⟩ := pgTableAlloc_spec hs halloc
  have hcleared : ∀ g' j', g' < 2 ^ 40 → j' < 512 → tableEntries host₁.mem g' j' =
      if g' = 32 then 0#64 else tableEntries host.mem g' j' := by
    intro g' j' hg' hj'
    rw [hmem]
    split
    · next h32 =>
      rw [h32]
      exact tableEntries_fill_self (by simp) hj'
    · next h32 => exact tableEntries_fill_other hg' (by simp) hj' h32
  have hzero : host₁.mem.load64 (entryAddr g j) = 0#64 := by
    have h := hcleared g j hg hj
    rwa [hempty, ite_self] at h
  rw [hzero]
  refine ⟨nonTermBase_linkWord (by simp), hrest, fun g' j' hg' hj' => ?_⟩
  split
  · next heq =>
    obtain ⟨rfl, rfl⟩ := heq
    exact Mem.load64_store64 _ _ _
  · next hne =>
    rw [← hcleared g' j' hg' hj']
    exact tableEntries_store64 _ hg hg' hj hj' hne

/-- The table below the one in frame 32 is frame 32 again: its link is all that the frame holds,
also where that is the link of the table above. -/
theorem nextTable_again {f k j : Nat} {next : BitVec 64} {old : Nat → Nat → BitVec 64}
    (hs : Supplies host.nalloc [32]) (hj : j < 512)
    (hentries : ∀ g i, g < 2 ^ 40 → i < 512 → tableEntries host.mem g i =
      if g = f ∧ i = k then linkWord 32 else if g = 32 then 0#64 else old g i)
    (h : nextTable (entryAddr 32 j) host = .ok (next, host')) :
    next = frameAddr 32 ∧ ∀ g i, g < 2 ^ 40 → i < 512 → tableEntries host'.mem g i =
      if g = 32 then (if i = j then linkWord 32 else 0#64) else tableEntries host.mem g i := by
  have hentry := hentries 32 j (by simp) hj
  by_cases hsame : 32 = f ∧ j = k
  · rw [if_pos hsame] at hentry
    have hload : host.mem.load64 (entryAddr 32 j) = linkWord 32 := hentry
    rw [nextTable_present (by rw [hload]; exact present_linkWord 32), hload] at h
    cases h
    refine ⟨nonTermBase_linkWord (by simp), fun g i hg hi => ?_⟩
    by_cases h32 : g = 32
    · have hlink : g = f ∧ i = k ↔ i = j := by
        rw [h32, hsame.2]
        exact and_iff_right hsame.1
      rw [hentries g i hg hi, if_pos h32, if_pos h32]
      simp only [hlink]
    · rw [if_neg h32]
  · rw [if_neg hsame, if_pos rfl] at hentry
    obtain ⟨rfl, -, hentries'⟩ := nextTable_shared hs (by simp) hj hentry h
    refine ⟨rfl, fun g i hg hi => ?_⟩
    rw [hentries' g i hg hi]
    by_cases h32 : g = 32
    · simp [h32]
    · simp [h32]

/-- The first mapping of a root when only frame 32 is left. -/
theorem mmapPml4_shared {f : Nat} {v p : BitVec 64} {isUser : Bool} (hf : f < 2 ^ 40)
    (hclear : ∀ j < 512, tableEntries host.mem f j = 0#64) (hs : Supplies host.nalloc [32, 32])
    (h : mmapPml4 (frameAddr f) v p isUser host = .ok ((), host')) :
    (∀ j < 512, tableEntries host'.mem 32 j =
      if j = v.toNat / 2 ^ 21 % 512 then
        writeTerm (if j = v.toNat / 2 ^ 30 % 512 then linkWord 32 else 0#64) p isUser
      else if j = v.toNat / 2 ^ 30 % 512 then linkWord 32 else 0#64) ∧
    ∀ g j, g < 2 ^ 40 → j < 512 → g ≠ 32 → tableEntries host'.mem g j =
      if g = f ∧ j = v.toNat / 2 ^ 39 % 512 then linkWord 32 else tableEntries host.mem g j := by
  have hmod : ∀ x, x % 512 < 512 := fun x => Nat.mod_lt x (by simp)
  unfold mmapPml4 pgtLevelPml4 at h
  obtain ⟨next₁, host₁, h₁, h⟩ := mmap2mb_upper (by simp) (getEntry_eq (.inl ⟨rfl, rfl⟩)) h
  obtain ⟨rfl, hs₁, he₁⟩ := nextTable_shared hs hf (hmod _) (hclear _ (hmod _)) h₁
  obtain ⟨next₀, host₀, h₀, h⟩ := mmap2mb_upper (by simp) (getEntry_eq (.inr (.inl ⟨rfl, rfl⟩))) h
  obtain ⟨rfl, he₀⟩ := nextTable_again hs₁ (hmod _) he₁ h₀
  -- the page is written over what frame 32 holds
  have hhost := mmap2mb_pd (getEntry_eq (.inr (.inr ⟨rfl, rfl⟩))) h
  have hold : host₀.mem.load64 (entryAddr 32 (v.toNat / 2 ^ 21 % 512)) =
      if v.toNat / 2 ^ 21 % 512 = v.toNat / 2 ^ 30 % 512 then linkWord 32 else 0#64 :=
    (he₀ 32 _ (by simp) (hmod _)).trans (if_pos rfl)
  rw [hhost, hold]
  refine ⟨fun j hj => ?_, fun g j hg hj hne => ?_⟩
  · by_cases hpage : j = v.toNat / 2 ^ 21 % 512
    · rw [if_pos hpage, hpage]
      exact Mem.load64_store64 _ _ _
    · rw [if_neg hpage]
      refine (tableEntries_store64 _ (by simp) (by simp) (hmod _) hj
        fun heq => hpage heq.2).trans ?_
      rw [he₀ 32 j (by simp) hj, if_pos rfl]
  · refine (tableEntries_store64 _ (by simp) hg (hmod _) hj fun heq => hne heq.1).trans ?_
    rw [he₀ g j hg hj, if_neg hne, he₁ g j hg hj, if_neg hne]

/-! ## The first mapping -/

/-- The frame of the root is the first one that the allocator hands out. -/
theorem pml4TableAlloc_first {root : BitVec 64} {g : Nat} {rest : List Nat} (n : Nat)
    (h : pml4TableAlloc host = .ok (root, host'))
    (hfirst : lowFrames host.nalloc ++ List.replicate n 32 = g :: rest) :
    root = frameAddr g ∧ Supplies host'.nalloc rest ∧
      host'.mem = host.mem.fill (frameAddr g) pageSize 0#8 := by
  have hs := supplies_lowFrames (lowFrames host.nalloc) n host.nalloc rfl
  rw [hfirst] at hs
  obtain ⟨hroot, hmem, hrest⟩ := pgTableAlloc_spec hs h
  exact ⟨hroot, hrest, hmem⟩

theorem mem_lowFrames {nalloc : NaiveAllocator} {f : Nat} :
    f ∈ lowFrames nalloc ↔ f < 32 ∧ ¬ Taken nalloc f := by
  rw [lowFrames, List.mem_filter, List.mem_range, decide_eq_true_eq]

/-- A clear frame 0 comes first. -/
theorem lowFrames_zero {nalloc : NaiveAllocator} (h : ¬ Taken nalloc 0) :
    ∃ rest, lowFrames nalloc = 0 :: rest := by
  have hmem : 0 ∈ lowFrames nalloc := mem_lowFrames.mpr ⟨by decide, h⟩
  have hsorted : (lowFrames nalloc).Pairwise (· < ·) := List.pairwise_lt_range.filter _
  cases hl : lowFrames nalloc with
  | nil =>
    rw [hl] at hmem
    cases hmem
  | cons g rest =>
    rw [hl] at hmem hsorted
    rcases List.mem_cons.mp hmem with rfl | hin
    · exact ⟨rest, rfl⟩
    · exact absurd ((List.pairwise_cons.mp hsorted).1 0 hin) (Nat.not_lt_zero g)

/-- The root is at address 0 exactly when frame 0 was clear. -/
theorem root_eq_zero_iff {root : BitVec 64} (h : pml4TableAlloc host = .ok (root, host')) :
    root = 0#64 ↔ ¬ Taken host.nalloc 0 := by
  constructor
  · intro hroot htaken
    cases hl : lowFrames host.nalloc with
    | nil =>
      obtain ⟨h32, -⟩ := pml4TableAlloc_first 1 h (by rw [hl]; rfl)
      exact absurd (hroot.symm.trans h32) (by decide)
    | cons g rest =>
      obtain ⟨hg, -⟩ := pml4TableAlloc_first 0 h (by rw [hl]; rfl)
      have hlow := mem_lowFrames.mp (hl ▸ List.mem_cons_self : g ∈ lowFrames host.nalloc)
      have h0 : g = 0 := frameAddr_injective (by omega) (by simp) (hg.symm.trans hroot)
      exact hlow.2 (h0 ▸ htaken)
  · intro hclear
    obtain ⟨rest, hl⟩ := lowFrames_zero hclear
    obtain ⟨hroot, -⟩ := pml4TableAlloc_first 0 h (by rw [hl]; rfl)
    exact hroot.trans (by decide)

/-- An address of the page that `v` is in. -/
structure InPageOf (v o a : BitVec 64) : Prop where
  toNat : a.toNat = v.toNat / 2 ^ 21 * 2 ^ 21 + o.toNat
  low : o.toNat < 2 ^ 21

theorem inPageOf_add {v o : BitVec 64} (ho : o.toNat < 2 ^ 21) :
    InPageOf v o (pageDown2mb v + o) := by
  refine ⟨?_, ho⟩
  have hv := v.isLt
  rw [BitVec.toNat_add, toNat_pageDown2mb]
  omega

namespace InPageOf

variable {v o : BitVec 64} (h : InPageOf v o a)
include h

theorem offset : a &&& 0x1fffff#64 = o := by
  apply BitVec.eq_of_toNat_eq
  have hand : (a &&& 0x1fffff#64).toNat = a.toNat % 2 ^ 21 :=
    Bits.toNat_and_lowMask a 21 (by simp)
  have hlow := h.low
  rw [hand, h.toNat]
  omega

theorem page : a.toNat / 2 ^ 21 = v.toNat / 2 ^ 21 := by
  have hlow := h.low
  rw [h.toNat]
  omega

theorem index {k : Nat} (hk : 21 ≤ k) : a.toNat / 2 ^ k = v.toNat / 2 ^ k := by
  obtain ⟨i, rfl⟩ := Nat.exists_eq_add_of_le hk
  rw [Nat.pow_add, ← Nat.div_div_eq_div_mul, ← Nat.div_div_eq_div_mul, h.page]

end InPageOf

/-- One clear frame: the lower levels share frame 32. -/
theorem walkBack_one {f : Nat} {v p o : BitVec 64} {isUser : Bool} (ha : InPageOf v o a)
    (hp : p.toNat < 2 ^ 52) (haligned : p.toNat % 2 ^ 21 = 0) (hf : f < 32) (hf0 : f ≠ 0)
    (hclear : ∀ j < 512, tableEntries host.mem f j = 0#64) (hs : Supplies host.nalloc [32, 32])
    (h : mmapPml4 (frameAddr f) v p isUser host = .ok ((), host')) :
    linear2physicalLegacy2mbFrom host'.mem a pgtLevelPml4 (frameAddr f) = .ok (p + o) ↔
      p.toNat < 2 ^ 31 ∧ (v.toNat / 2 ^ 21 % 512 = v.toNat / 2 ^ 30 % 512 →
        MapsPage (tableEntries host.mem (p.toNat / 4096) (v.toNat / 2 ^ 21 % 512)) p) := by
  have hmod : ∀ x, x % 512 < 512 := fun x => Nat.mod_lt x (by simp)
  obtain ⟨hshared, hother⟩ := mmapPml4_shared (by omega) hclear hs h
  have hlink : tableEntries host'.mem f (v.toNat / 2 ^ 39 % 512) = linkWord 32 :=
    (hother f _ (by omega) (hmod _) (by omega)).trans (if_pos ⟨rfl, rfl⟩)
  rw [walkFrom_iff ha.offset, ha.index (by simp), ha.index (by simp), ha.index (by simp),
    hlink, nextFrame_linkWord (by simp), and_iff_right (present_linkWord 32)]
  by_cases hsame : v.toNat / 2 ^ 21 % 512 = v.toNat / 2 ^ 30 % 512
  · -- the entry of the page is followed as a link
    rw [← hsame, hshared _ (hmod _), if_pos rfl, and_iff_right (present_writeTerm _ _ _),
      nextFrame_writeTerm hp haligned, forall_prop_of_true rfl]
    have hkept : p.toNat < 2 ^ 31 →
        tableEntries host'.mem (p.toNat / 4096 % 2 ^ 28) (v.toNat / 2 ^ 21 % 512) =
          tableEntries host.mem (p.toNat / 4096) (v.toNat / 2 ^ 21 % 512) := by
      intro hlt
      have hframe : p.toNat / 4096 % 2 ^ 28 = p.toNat / 4096 := by omega
      rw [hframe, hother _ _ (by omega) (hmod _) (by omega), if_neg (by omega)]
    constructor
    · intro hpage
      have hlt := ((shiftInt_eq_iff hp).mp hpage.base).1
      exact ⟨hlt, hkept hlt ▸ hpage⟩
    · rintro ⟨hlt, hpage⟩
      rw [hkept hlt]
      exact hpage
  · have hdown : tableEntries host'.mem 32 (v.toNat / 2 ^ 30 % 512) = linkWord 32 := by
      rw [hshared _ (hmod _), if_neg fun heq => hsame heq.symm, if_pos rfl]
    rw [hdown, and_iff_right (present_linkWord 32), nextFrame_linkWord (by simp),
      hshared _ (hmod _), if_pos rfl, mapsPage_writeTerm hp haligned]
    exact (and_iff_left fun heq => absurd heq hsame).symm

/-- No clear frame: all three levels share frame 32. -/
theorem walkBack_none {v p o : BitVec 64} {isUser : Bool} (ha : InPageOf v o a)
    (hp : p.toNat < 2 ^ 52) (haligned : p.toNat % 2 ^ 21 = 0)
    (hclear : ∀ j < 512, tableEntries host.mem 32 j = 0#64)
    (hs : Supplies host.nalloc [32, 32])
    (h : mmapPml4 (frameAddr 32) v p isUser host = .ok ((), host')) :
    linear2physicalLegacy2mbFrom host'.mem a pgtLevelPml4 (frameAddr 32) = .ok (p + o) ↔
      p.toNat < 2 ^ 31 ∧
        if v.toNat / 2 ^ 21 % 512 = v.toNat / 2 ^ 39 % 512 then
          let e := tableEntries host.mem (p.toNat / 4096) (v.toNat / 2 ^ 30 % 512)
          Paging.present e = true ∧ (nextFrame e = 32 ∨
            MapsPage (tableEntries host.mem (nextFrame e) (v.toNat / 2 ^ 21 % 512)) p)
        else v.toNat / 2 ^ 30 % 512 = v.toNat / 2 ^ 39 % 512 := by
  have hmod : ∀ x, x % 512 < 512 := fun x => Nat.mod_lt x (by simp)
  obtain ⟨hshared, hother⟩ := mmapPml4_shared (by simp) hclear hs h
  have hkept : ∀ g j, g < 2 ^ 40 → j < 512 → g ≠ 32 →
      tableEntries host'.mem g j = tableEntries host.mem g j := fun g j hg hj hne =>
    (hother g j hg hj hne).trans (if_neg fun heq => hne heq.1)
  have hpage : ∃ x, tableEntries host'.mem 32 (v.toNat / 2 ^ 21 % 512) = writeTerm x p isUser :=
    ⟨_, (hshared _ (hmod _)).trans (if_pos rfl)⟩
  obtain ⟨x, hpage⟩ := hpage
  rw [walkFrom_iff ha.offset, ha.index (by simp), ha.index (by simp), ha.index (by simp)]
  by_cases htop : v.toNat / 2 ^ 21 % 512 = v.toNat / 2 ^ 39 % 512
  · -- the entry of the page is followed as a link from the root
    rw [if_pos htop, ← htop, hpage, and_iff_right (present_writeTerm _ _ _),
      nextFrame_writeTerm hp haligned]
    dsimp only
    by_cases hlt : p.toNat < 2 ^ 31
    · rw [and_iff_right hlt, show p.toNat / 4096 % 2 ^ 28 = p.toNat / 4096 by omega,
        hkept _ _ (by omega) (hmod _) (by omega)]
      refine and_congr_right fun _ => ?_
      by_cases h32 : nextFrame (tableEntries host.mem (p.toNat / 4096)
          (v.toNat / 2 ^ 30 % 512)) = 32
      · rw [h32, hpage, mapsPage_writeTerm hp haligned]
        exact iff_of_true hlt (Or.inl rfl)
      · rw [hkept _ _ (by unfold nextFrame; omega) (hmod _) h32]
        exact (or_iff_right h32).symm
    · exact iff_of_false (fun h => hlt ((shiftInt_eq_iff hp).mp h.2.base).1) fun h => hlt h.1
  · rw [if_neg htop, hshared _ (hmod (v.toNat / 2 ^ 39)), if_neg fun heq => htop heq.symm]
    by_cases hmid : v.toNat / 2 ^ 39 % 512 = v.toNat / 2 ^ 30 % 512
    · have hdown : tableEntries host'.mem 32 (v.toNat / 2 ^ 30 % 512) = linkWord 32 := by
        rw [hshared _ (hmod _), ← hmid, if_neg fun heq => htop heq.symm, if_pos rfl]
      rw [if_pos hmid, and_iff_right (present_linkWord 32), nextFrame_linkWord (by simp), hdown,
        and_iff_right (present_linkWord 32), nextFrame_linkWord (by simp), hpage,
        mapsPage_writeTerm hp haligned]
      exact (and_iff_left hmid.symm).symm
    · rw [if_neg hmid]
      exact iff_of_false (fun h => Bool.false_ne_true h.1) fun h => hmid h.2.symm

/-- The walk from a root at address 0, and from another one. -/
theorem linear2physicalLegacy2mb_iff {root v p o : BitVec 64}
    (hroot : pml4TableAlloc host = .ok (root, host')) :
    linear2physicalLegacy2mb mem root (pageDown2mb v + o) = .ok (p + o) ↔
      if ¬ Taken host.nalloc 0 then pageDown2mb v = p
      else linear2physicalLegacy2mbFrom mem (pageDown2mb v + o) pgtLevelPml4 root =
        .ok (p + o) := by
  unfold linear2physicalLegacy2mb
  by_cases h0 : Taken host.nalloc 0
  · rw [if_neg (fun hzero => (root_eq_zero_iff hroot).mp hzero h0), if_neg (not_not_intro h0)]
  · rw [if_pos ((root_eq_zero_iff hroot).mpr h0), if_pos h0, Except.ok.injEq, BitVec.add_left_inj]

/-- The last call of a run comes back, as long as the tables of the run fit the fresh frames. -/
theorem walkBack_run {host₂ : Host} {root o : BitVec 64} (calls : List MmapCall) (c : MmapCall)
    (hroot : pml4TableAlloc host = .ok (root, host'))
    (hrun : mmapAll root (calls ++ [c]) host' = .ok ((), host₂))
    (hcalls : ∀ d ∈ calls ++ [c], d.vaddr.toNat < 2 ^ 48)
    (hfresh : 1 + tablesNeeded [] (calls ++ [c]) ≤ freshFrames host.nalloc)
    (ha : InPageOf c.vaddr o a) (hp : c.paddr.toNat < 2 ^ 52)
    (haligned : c.paddr.toNat % 2 ^ 21 = 0) :
    linear2physicalLegacy2mbFrom host₂.mem a pgtLevelPml4 root = .ok (c.paddr + o) ↔
      c.paddr.toNat < 2 ^ 31 := by
  obtain ⟨f, supply, node, rfl, hlen, hm⟩ := pml4TableAlloc_spec hroot
  obtain ⟨supply', node', hm'⟩ := Maps.run (calls ++ [c]) hm hcalls (by omega) hrun
  rw [List.append_nil, List.reverse_append, List.reverse_singleton, List.singleton_append] at hm'
  have hlast : lastCall (c :: calls.reverse) (a.toNat / 2 ^ 21) = some c :=
    List.find?_cons_of_pos (decide_eq_true ha.page.symm)
  have hv := hcalls c (List.mem_append_right _ List.mem_cons_self)
  have ha48 : a.toNat < 2 ^ 48 := by
    have hpage := ha.page
    omega
  exact hm'.walkBack hlast ha48 ha.offset hp haligned

theorem mmapAll_one {root : BitVec 64} {c : MmapCall}
    (h : mmapPml4 root c.vaddr c.paddr c.isUser host = .ok ((), host')) :
    mmapAll root [c] host = .ok ((), host') := by
  unfold mmapAll
  simp only [List.forM_eq_forM, List.forM_cons, List.forM_nil, bind, StateT.bind, Except.bind, h]
  rfl

/-- The first mapping of a root. -/
theorem walkBack_first {host₂ : Host} {root v p o : BitVec 64} {isUser : Bool}
    (hroot : pml4TableAlloc host = .ok (root, host')) (htaken : Taken host.nalloc 0)
    (hv : v.toNat < 2 ^ 48) (hp : p.toNat < 2 ^ 52) (haligned : p.toNat % 2 ^ 21 = 0)
    (h : mmapPml4 root v p isUser host' = .ok ((), host₂)) (ha : InPageOf v o a) :
    linear2physicalLegacy2mbFrom host₂.mem a pgtLevelPml4 root = .ok (p + o) ↔
      WalksBack host v p := by
  have hmod : ∀ x, x % 512 < 512 := fun x => Nat.mod_lt x (by simp)
  unfold WalksBack
  rw [if_neg (not_not_intro htaken)]
  cases hl : lowFrames host.nalloc with
  | nil =>
    obtain ⟨rfl, hs, hmem⟩ := pml4TableAlloc_first 3 hroot (by rw [hl]; rfl)
    have hkept : ∀ g j, g < 2 ^ 40 → j < 512 → g ≠ 32 →
        tableEntries host'.mem g j = tableEntries host.mem g j := fun g j hg hj hne => by
      rw [hmem, tableEntries_fill_other hg (by simp) hj hne]
    rw [walkBack_none ha hp haligned
      (fun j hj => by rw [hmem, tableEntries_fill_self (by simp) hj]) hs h, List.length_nil]
    refine and_congr_right fun hlt => ?_
    rw [hkept _ _ (by omega) (hmod _) (by omega)]
    dsimp only
    split
    · refine and_congr_right fun _ => ?_
      by_cases h32 : nextFrame (tableEntries host.mem (p.toNat / 4096)
          (v.toNat / 2 ^ 30 % 512)) = 32
      · exact iff_of_true (Or.inl h32) (Or.inl h32)
      · rw [hkept _ _ (by unfold nextFrame; omega) (hmod _) h32]
    · exact Iff.rfl
  | cons f rest =>
    have hlow := mem_lowFrames.mp (hl ▸ List.mem_cons_self : f ∈ lowFrames host.nalloc)
    have hf0 : f ≠ 0 := fun h0 => hlow.2 (h0 ▸ htaken)
    cases rest with
    | nil =>
      obtain ⟨rfl, hs, hmem⟩ := pml4TableAlloc_first 2 hroot (by rw [hl]; rfl)
      rw [walkBack_one ha hp haligned hlow.1 hf0
          (fun j hj => by rw [hmem, tableEntries_fill_self (by omega) hj]) hs h,
        List.length_singleton]
      refine and_congr_right fun hlt => imp_congr_right fun _ => ?_
      rw [hmem, tableEntries_fill_other (by omega) (by omega) (hmod _) (by omega)]
    | cons g rest =>
      have hfresh : 1 + tablesNeeded [] [⟨v, p, isUser⟩] ≤ freshFrames host.nalloc := by
        unfold freshFrames
        rw [hl, List.length_cons, List.length_cons]
        change 1 + (1 + 1 + 0) ≤ _
        omega
      have hone : ∀ d ∈ [(⟨v, p, isUser⟩ : MmapCall)], d.vaddr.toNat < 2 ^ 48 :=
        List.forall_mem_singleton.mpr hv
      exact (walkBack_run [] ⟨v, p, isUser⟩ hroot (mmapAll_one h) hone hfresh ha hp
        haligned).trans (and_iff_left trivial).symm

end

/-- The walk gives back what the first mapping of a root put in, exactly where `WalksBack` says,
and after any other calls on the root, as long as their tables fit the fresh frames, exactly below
2 GB (with a root at address 0: where the address was mapped to itself). -/
theorem walksBack_iff {host host₁ : Host} {root : BitVec 64}
    (hroot : pml4TableAlloc host = .ok (root, host₁)) :
    (∀ v p isUser host₂, v.toNat < 2 ^ 48 → p.toNat < 2 ^ 52 → p.toNat % 2 ^ 21 = 0 →
      mmapPml4 root v p isUser host₁ = .ok ((), host₂) → ∀ o : BitVec 64, o.toNat < 2 ^ 21 →
        (linear2physicalLegacy2mb host₂.mem root (pageDown2mb v + o) = .ok (p + o) ↔
          WalksBack host v p)) ∧
    ∀ calls c host₂, (∀ d ∈ calls ++ [c], d.vaddr.toNat < 2 ^ 48) → c.paddr.toNat < 2 ^ 52 →
      c.paddr.toNat % 2 ^ 21 = 0 → mmapAll root (calls ++ [c]) host₁ = .ok ((), host₂) →
      1 + tablesNeeded [] (calls ++ [c]) ≤ freshFrames host.nalloc →
      ∀ o : BitVec 64, o.toNat < 2 ^ 21 →
        (linear2physicalLegacy2mb host₂.mem root (pageDown2mb c.vaddr + o) = .ok (c.paddr + o) ↔
          if ¬ Taken host.nalloc 0 then pageDown2mb c.vaddr = c.paddr
          else c.paddr.toNat < 2 ^ 31) := by
  constructor
  · intro v p isUser host₂ hv hp haligned h o ho
    rw [linear2physicalLegacy2mb_iff hroot]
    by_cases h0 : Taken host.nalloc 0
    · rw [if_neg (not_not_intro h0)]
      exact walkBack_first hroot h0 hv hp haligned h (inPageOf_add ho)
    · unfold WalksBack
      rw [if_pos h0, if_pos h0]
  · intro calls c host₂ hcalls hp haligned hrun hfresh o ho
    rw [linear2physicalLegacy2mb_iff hroot]
    by_cases h0 : Taken host.nalloc 0
    · rw [if_neg (not_not_intro h0), if_neg (not_not_intro h0)]
      exact walkBack_run calls c hroot hrun hcalls hfresh (inPageOf_add ho) hp haligned
    · rw [if_pos h0, if_pos h0]

/-- Frame 0 is taken, the other frames are clear: a page at 1 GB comes back. -/
theorem walksBack_iff_one : ∃ root host₁ host₂,
    pml4TableAlloc (smallHost 1#64) = .ok (root, host₁) ∧
    mmapPml4 root 0x12345678#64 0x40000000#64 true host₁ = .ok ((), host₂) ∧
    ∀ o : BitVec 64, o.toNat < 2 ^ 21 →
      linear2physicalLegacy2mb host₂.mem root (pageDown2mb 0x12345678#64 + o) =
        .ok (0x40000000#64 + o) := by
  obtain ⟨⟨root, host₁⟩, hroot, hmap⟩ := completesWith_ok
    (show completesWith (fun r => completesWith (fun _ => true)
      (mmapPml4 r.1 0x12345678#64 0x40000000#64 true r.2)) (pml4TableAlloc (smallHost 1#64)) = true
      by decide +kernel)
  obtain ⟨⟨_, host₂⟩, hmap, -⟩ := completesWith_ok hmap
  have hback : WalksBack (smallHost 1#64) 0x12345678#64 0x40000000#64 := by
    have hlow : (lowFrames (smallHost 1#64).nalloc).length = 31 := by decide
    unfold WalksBack
    rw [if_neg (not_not_intro (by decide)), hlow]
    exact ⟨by decide, trivial⟩
  exact ⟨root, host₁, host₂, hroot, hmap, fun o ho =>
    ((walksBack_iff hroot).1 _ _ true host₂ (by simp) (by simp) (by simp) hmap o ho).mpr hback⟩

/-- A page at 2 GB comes back with its sign extended. -/
theorem not_walksBack : ∃ root host₁ host₂,
    pml4TableAlloc (smallHost 1#64) = .ok (root, host₁) ∧
    mmapPml4 root 0#64 0x80000000#64 true host₁ = .ok ((), host₂) ∧
    linear2physicalLegacy2mb host₂.mem root (pageDown2mb 0#64 + 0#64) =
      .ok 0xffffffff80000000#64 ∧
    linear2physicalLegacy2mb host₂.mem root (pageDown2mb 0#64 + 0#64) ≠
      .ok (0x80000000#64 + 0#64) := by
  obtain ⟨⟨root, host₁⟩, hroot, hmap⟩ := completesWith_ok
    (show completesWith (fun r => completesWith (fun r' => completesWith
        (fun a => a = 0xffffffff80000000#64)
        (linear2physicalLegacy2mb r'.2.mem r.1 (pageDown2mb 0#64 + 0#64)))
      (mmapPml4 r.1 0#64 0x80000000#64 true r.2)) (pml4TableAlloc (smallHost 1#64)) = true
      by decide +kernel)
  obtain ⟨⟨_, host₂⟩, hmap, hwalk⟩ := completesWith_ok hmap
  obtain ⟨a, hwalk, ha⟩ := completesWith_ok hwalk
  have hback := hwalk.trans (congrArg Except.ok (of_decide_eq_true ha))
  refine ⟨root, host₁, host₂, hroot, hmap, hback, fun hpage => ?_⟩
  exact absurd (Except.ok.inj (hback.symm.trans hpage)) (by simp)

end Mavmm
