import Mavmm.AllocSpec
import Mavmm.Page
import Mavmm.Lib.Paging
import Mavmm.Lib.TableTree

/-!
# What `mmap_pml4` builds

The tables of a page map form a lazily grown tree (`TableTree.Rep`) in the
frames that the allocator hands out.  As long as these frames are fresh,
linking a table and writing a terminal entry are the two steps of the tree, and
the walk of the processor reads the most recent mapping of every 2 MB page.
-/

namespace Mavmm

open TableTree PgtEntry2mb

/-! ## Entries as words -/

/-- The address of frame `f`. -/
def frameAddr (f : Nat) : Addr := BitVec.ofNat 64 f <<< pageShift

theorem toNat_frameAddr {f : Nat} (hf : f < 2 ^ 52) : (frameAddr f).toNat = f * 4096 := by
  unfold frameAddr pageShift
  rw [BitVec.toNat_shiftLeft, BitVec.toNat_ofNat, Nat.shiftLeft_eq]
  omega

theorem getLsbD_frameAddr {f i : Nat} (hi : i < 64) :
    (frameAddr f).getLsbD i = (decide (12 ≤ i) && f.testBit (i - 12)) := by
  unfold frameAddr pageShift
  rw [BitVec.getLsbD_shiftLeft, BitVec.getLsbD_ofNat]
  by_cases h : i < 12
  · simp [h, Nat.not_le.mpr h]
  · have hlt : i - 12 < 64 := by omega
    simp [h, hi, hlt, Nat.le_of_not_lt h]

/-- The entry that points to the table in frame `f`. -/
def linkWord (f : Nat) : BitVec 64 := writeNonTerm 0#64 (frameAddr f)

theorem getLsbD_writeNonTerm (x paddr : BitVec 64) {i : Nat} (hi : i < 64) :
    (writeNonTerm x paddr).getLsbD i =
      if i < 12 then decide (i < 3)
      else if i < 52 then paddr.getLsbD i else x.getLsbD i := by
  have hflags : ∀ j, j < 12 →
      (BitVec.ofNat 12 (pttefPresent ||| pttefRw ||| pttefUs)).getLsbD j = decide (j < 3) := by
    decide
  unfold writeNonTerm setNonTermFlags setNonTermBase
  rw [Bits.getLsbD_setField _ _ _ _ hi, Bits.getLsbD_setField _ _ _ _ hi]
  by_cases hlow : i < 12
  · rw [if_pos ⟨Nat.zero_le i, by omega⟩, Nat.sub_zero, hflags i hlow, if_pos hlow]
  · have hle : 12 ≤ i := Nat.le_of_not_lt hlow
    by_cases hhigh : i < 52
    · have hlt : i - 12 < 40 := by omega
      have hsum : 12 + (i - 12) = i := by omega
      simp [hlow, hle, hhigh, pageShift, hlt, hsum]
    · simp [hlow, hhigh]

theorem getLsbD_writeTerm (x paddr : BitVec 64) (isUser : Bool) {i : Nat} (hi : i < 64) :
    (writeTerm x paddr isUser).getLsbD i =
      if i < 21 then decide (i < 2 ∨ i = 7) || (isUser && decide (i = 2))
      else if i < 52 then paddr.getLsbD i else x.getLsbD i := by
  have hflags : ∀ j, j < 21 →
      (BitVec.ofNat 21 (pttefPresent ||| pttefRw ||| pttefPageSize)).getLsbD j =
        decide (j < 2 ∨ j = 7) := by
    decide
  have hus : ∀ j, j < 21 → (BitVec.ofNat 21 pttefUs).getLsbD j = decide (j = 2) := by
    decide
  have hbase : ∀ y : BitVec 21, (setTermFlags (setTermBase x ((paddr >>> pageShift2mb).setWidth 31))
      y).getLsbD i = if i < 21 then y.getLsbD i
        else if i < 52 then paddr.getLsbD i else x.getLsbD i := by
    intro y
    unfold setTermFlags setTermBase
    rw [Bits.getLsbD_setField _ _ _ _ hi, Bits.getLsbD_setField _ _ _ _ hi]
    by_cases hlow : i < 21
    · simp [hlow]
    · have hle : 21 ≤ i := Nat.le_of_not_lt hlow
      by_cases hhigh : i < 52
      · have hlt : i - 21 < 31 := by omega
        have hsum : 21 + (i - 21) = i := by omega
        simp [hlow, hle, hhigh, pageShift2mb, hlt, hsum]
      · simp [hlow, hhigh]
  unfold writeTerm
  cases isUser with
  | false =>
    rw [if_neg Bool.false_ne_true, hbase]
    by_cases hlow : i < 21
    · rw [if_pos hlow, if_pos hlow, hflags i hlow, Bool.false_and, Bool.or_false]
    · simp only [hlow, if_false]
  | true =>
    rw [if_pos rfl]
    unfold setTermFlags
    rw [Bits.getLsbD_setField _ _ _ _ hi]
    by_cases hlow : i < 21
    · have hread := @Bits.extract_setField 64
        (setTermBase x ((paddr >>> pageShift2mb).setWidth 31)) 0 21
        (BitVec.ofNat 21 (pttefPresent ||| pttefRw ||| pttefPageSize)) (by simp)
      unfold termFlags
      rw [hread, if_pos ⟨Nat.zero_le i, by omega⟩, Nat.sub_zero, BitVec.getLsbD_or,
        hflags i hlow, hus i hlow, if_pos hlow, Bool.true_and]
    · rw [if_neg (by omega)]
      exact (hbase _).trans (by simp [hlow])

theorem entry2mbIsPresent_eq (x : BitVec 64) : entry2mbIsPresent x = Paging.present x :=
  Bits.testFlag (by simp)

theorem tableBase_linkWord {f : Nat} (hf : f < 2 ^ 40) :
    Paging.tableBase (linkWord f) = frameAddr f := by
  apply BitVec.eq_of_getLsbD_eq
  intro i hi
  unfold linkWord
  rw [Paging.getLsbD_tableBase _ hi, getLsbD_writeNonTerm _ _ hi, getLsbD_frameAddr hi]
  by_cases hlow : i < 12
  · simp [hlow, Nat.not_le.mpr hlow]
  · by_cases hhigh : i < 52
    · simp [hlow, hhigh, Nat.le_of_not_lt hlow]
    · have hzero : f.testBit (i - 12) = false :=
        Bits.testBit_of_lt hf (by omega)
      simp [hhigh, hzero]

/-- The code follows a link to the table it points to, for frames below 1 TB. -/
theorem nonTermBase_linkWord {f : Nat} (hf : f < 2 ^ 28) :
    (nonTermBase (linkWord f) <<< pageShift).setWidth 64 = frameAddr f := by
  apply BitVec.eq_of_getLsbD_eq
  intro i hi
  unfold nonTermBase linkWord
  rw [BitVec.getLsbD_setWidth, BitVec.getLsbD_shiftLeft, BitVec.getLsbD_extractLsb',
    getLsbD_frameAddr hi]
  unfold pageShift
  by_cases hlow : i < 12
  · simp [hlow, Nat.not_le.mpr hlow]
  · have hsum : 12 + (i - 12) = i := by omega
    by_cases hhigh : i < 40
    · have hlt : i - 12 < 40 := by omega
      have h52 : i < 52 := by omega
      rw [hsum, getLsbD_writeNonTerm _ _ hi, getLsbD_frameAddr hi]
      simp [hlow, hhigh, hi, hlt, h52]
    · have hzero : f.testBit (i - 12) = false :=
        Bits.testBit_of_lt hf (by omega)
      simp [hhigh, hzero]

theorem writeTerm_writeTerm (x p p' : BitVec 64) (u u' : Bool) :
    writeTerm (writeTerm x p u) p' u' = writeTerm x p' u' := by
  apply BitVec.eq_of_getLsbD_eq
  intro i hi
  simp only [getLsbD_writeTerm _ _ _ hi]
  split
  · rfl
  · split <;> rfl

/-- The page of a terminal entry starts at the address rounded down to 2 MB. -/
theorem pageAddr_writeTerm {p : BitVec 64} (hp : p.toNat < 2 ^ 52) (isUser : Bool)
    (a : BitVec 64) :
    Paging.pageAddr (writeTerm 0#64 p isUser) a 21 =
      BitVec.ofNat 64 (p.toNat / 2 ^ 21 * 2 ^ 21 + a.toNat % 2 ^ 21) := by
  have hbase : (writeTerm 0#64 p isUser).toNat % 2 ^ 52 / 2 ^ 21 = p.toNat / 2 ^ 21 := by
    apply Nat.eq_of_testBit_eq
    intro i
    rw [Nat.testBit_div_two_pow, Nat.testBit_div_two_pow, Nat.testBit_mod_two_pow]
    by_cases hi : i + 21 < 52
    · have hnot : ¬ i + 21 < 21 := by omega
      rw [BitVec.testBit_toNat, getLsbD_writeTerm _ _ _ (by omega), if_neg hnot, if_pos hi,
        BitVec.testBit_toNat, decide_eq_true hi, Bool.true_and]
    · have hzero : p.toNat.testBit (i + 21) = false :=
        Bits.testBit_of_lt hp (by omega)
      rw [decide_eq_false hi, Bool.false_and, hzero]
  unfold Paging.pageAddr
  rw [hbase]

/-! ## Tables in memory -/

/-- The address of entry `j` of the table in frame `f`. -/
def entryAddr (f j : Nat) : Addr := frameAddr f + BitVec.ofNat 64 (8 * j)

/-- The entries of the tables in memory. -/
def tableEntries (m : Mem) : Entries Nat (BitVec 64) := fun f j => m.load64 (entryAddr f j)

def tableFormat : Format Nat (BitVec 64) where
  fanout := 512
  empty := 0#64
  link := linkWord

theorem toNat_entryAddr {f j : Nat} (hf : f < 2 ^ 40) (hj : j < 512) :
    (entryAddr f j).toNat = f * 4096 + 8 * j := by
  unfold entryAddr
  rw [BitVec.toNat_add, toNat_frameAddr (by omega), BitVec.toNat_ofNat]
  omega

theorem tableEntries_store64 {m : Mem} {f j f' j' : Nat} (w : BitVec 64) (hf : f < 2 ^ 40)
    (hf' : f' < 2 ^ 40) (hj : j < 512) (hj' : j' < 512) (hne : ¬ (f' = f ∧ j' = j)) :
    tableEntries (m.store64 (entryAddr f j) w) f' j' = tableEntries m f' j' := by
  have ha := toNat_entryAddr hf hj
  have ha' := toNat_entryAddr hf' hj'
  exact Mem.load64_store64_apart w (Mem.apart_of_toNat (by omega) (by omega) (by omega))

theorem tableEntries_fill_self {m : Mem} {g j : Nat} (hg : g < 2 ^ 40) (hj : j < 512) :
    tableEntries (m.fill (frameAddr g) pageSize 0#8) g j = 0#64 := by
  have hbase := toNat_frameAddr (show g < 2 ^ 52 by omega)
  refine @Mem.load_fill_zero_inside m pageSize 8 (frameAddr g) (entryAddr g j) (fun i hi => ?_)
  have hsub : (entryAddr g j + BitVec.ofNat 64 i - frameAddr g).toNat = 8 * j + i := by
    have ha := toNat_entryAddr hg hj
    rw [BitVec.toNat_sub, BitVec.toNat_add, ha, hbase, BitVec.toNat_ofNat]
    omega
  have hsize : pageSize = 4096 := rfl
  omega

theorem tableEntries_fill_other {m : Mem} {f g j : Nat} (hf : f < 2 ^ 40) (hg : g < 2 ^ 40)
    (hj : j < 512) (hne : f ≠ g) :
    tableEntries (m.fill (frameAddr g) pageSize 0#8) f j = tableEntries m f j := by
  have hbase := toNat_frameAddr (show g < 2 ^ 52 by omega)
  have ha := toNat_entryAddr hf hj
  have hsize : pageSize = 4096 := rfl
  exact Mem.load64_fill_apart 0#8 (Mem.apart_of_toNat (by omega) (by omega) (by omega))

/-! ## The frames the allocator hands out -/

/-- The next one-page requests are served with the frames of the list, in order. -/
def Supplies : NaiveAllocator → List Nat → Prop
  | _, [] => True
  | nalloc, f :: fs => ∀ pfn nalloc', allocHostPages 1#64 1#64 nalloc = .ok (pfn, nalloc') →
      pfn.toNat = f ∧ Supplies nalloc' fs

/-- The tables `node` with the entries `leaf` are in memory, and the allocator has the frames
of `supply` left for further ones. -/
structure Tree (host : Host) (supply : List Nat) (node : Nat → Nat → Option Nat)
    (leaf : Nat → BitVec 64) : Prop where
  rep : Rep tableFormat 2 (tableEntries host.mem) node leaf
  low : ∀ {l k f}, node l k = some f → f < 33
  supplies : Supplies host.nalloc supply
  fresh : ∀ g ∈ supply, g < 33 ∧ ∀ l k, node l k ≠ some g
  nodup : supply.Nodup

section
variable {host host' : Host} {supply : List Nat} {node : Nat → Nat → Option Nat}
  {leaf : Nat → BitVec 64}

theorem Tree.node_lt (ht : Tree host supply node leaf) {l k f : Nat} (hnode : node l k = some f) :
    f < 2 ^ 40 :=
  Nat.lt_trans (ht.low hnode) (by simp)

theorem pgTableAlloc_spec {paddr : BitVec 64} {g : Nat} {rest : List Nat}
    (hs : Supplies host.nalloc (g :: rest)) (h : pgTableAlloc host = .ok (paddr, host')) :
    paddr = frameAddr g ∧ host'.mem = host.mem.fill (frameAddr g) pageSize 0#8 ∧
      Supplies host'.nalloc rest := by
  unfold pgTableAlloc at h
  cases halloc : allocHostPages 1#64 1#64 host.nalloc with
  | error e =>
    rw [halloc] at h
    cases h
  | ok r =>
    obtain ⟨pfn, nalloc'⟩ := r
    rw [halloc] at h
    cases h
    obtain ⟨hpfn, hrest⟩ := hs pfn nalloc' halloc
    have haddr : pfn <<< pageShift = frameAddr g := by
      unfold frameAddr
      rw [← hpfn, BitVec.ofNat_toNat, BitVec.setWidth_eq]
    exact ⟨haddr, haddr ▸ rfl, hrest⟩

theorem nextTable_present {entry : Addr} (h : Paging.present (host.mem.load64 entry) = true) :
    nextTable entry host =
      .ok ((nonTermBase (host.mem.load64 entry) <<< pageShift).setWidth 64, host) := by
  unfold nextTable
  simp only [bind, StateT.bind, Except.bind, get, getThe, MonadStateOf.get, StateT.get, pure,
    Except.pure, entry2mbIsPresent_eq, h, not_true_eq_false, if_false]
  rfl

theorem nextTable_absent {entry : Addr} {next : BitVec 64}
    (habsent : Paging.present (host.mem.load64 entry) = false)
    (h : nextTable entry host = .ok (next, host')) :
    ∃ paddr host₁, pgTableAlloc host = .ok (paddr, host₁) ∧
      next = (nonTermBase (writeNonTerm (host₁.mem.load64 entry) paddr) <<< pageShift).setWidth 64 ∧
      host' = ⟨host₁.mem.store64 entry (writeNonTerm (host₁.mem.load64 entry) paddr),
        host₁.nalloc⟩ := by
  have hmodify : ∀ (f : Host → Host) (s : Host), (modify f : HostM Unit) s = .ok ((), f s) :=
    fun _ _ => rfl
  have hpure : ∀ (v : BitVec 64) (s : Host), (StateT.pure v : HostM _) s = .ok (v, s) :=
    fun _ _ => rfl
  unfold nextTable at h
  simp only [bind, StateT.bind, Except.bind, get, getThe, MonadStateOf.get, StateT.get, pure,
    Except.pure, hpure, entry2mbIsPresent_eq, habsent, Bool.false_eq_true,
    not_false_eq_true, if_true, hmodify] at h
  cases halloc : pgTableAlloc host with
  | error e =>
    rw [halloc] at h
    cases h
  | ok r =>
    rw [halloc] at h
    simp only [Mem.load64_store64] at h
    cases h
    exact ⟨r.1, r.2, rfl, rfl, rfl⟩

theorem present_linkWord (f : Nat) : Paging.present (linkWord f) = true := by
  unfold Paging.present linkWord
  rw [getLsbD_writeNonTerm _ _ (by simp)]
  rfl

/-- Following an entry either finds the table or links a fresh one. -/
theorem nextTable_spec (ht : Tree host supply node leaf) {l k j f : Nat} {next : BitVec 64}
    (hl : l < 2) (hnode : node (l + 1) k = some f) (hj : j < 512)
    (hsupply : node l (k * 512 + j) = none → supply ≠ [])
    (h : nextTable (entryAddr f j) host = .ok (next, host')) :
    (∃ g, node l (k * 512 + j) = some g ∧ next = frameAddr g ∧ host' = host) ∨
      ∃ g rest, node l (k * 512 + j) = none ∧ supply = g :: rest ∧ next = frameAddr g ∧
        Tree host' rest (setNode node l (k * 512 + j) g) leaf := by
  have hf : f < 2 ^ 40 := ht.node_lt hnode
  have hentry : host.mem.load64 (entryAddr f j) = tableFormat.entry (node l (k * 512 + j)) :=
    ht.rep.upper hnode hj
  cases hchild : node l (k * 512 + j) with
  | some g =>
    rw [hchild] at hentry
    rw [nextTable_present (hentry ▸ present_linkWord g), hentry] at h
    cases h
    exact .inl ⟨g, rfl, nonTermBase_linkWord (Nat.lt_trans (ht.low hchild) (by simp)), rfl⟩
  | none =>
    rw [hchild] at hentry
    obtain ⟨g, rest, rfl⟩ := List.exists_cons_of_ne_nil (hsupply hchild)
    obtain ⟨paddr, host₁, halloc, rfl, rfl⟩ := nextTable_absent (hentry ▸ rfl) h
    obtain ⟨rfl, hmem, hrest⟩ := pgTableAlloc_spec ht.supplies halloc
    obtain ⟨hg, hfresh⟩ := ht.fresh g List.mem_cons_self
    obtain ⟨hnot, hnodup⟩ := List.nodup_cons.mp ht.nodup
    have hg40 : g < 2 ^ 40 := Nat.lt_trans hg (by simp)
    have hfg : f ≠ g := fun heq => hfresh _ _ (heq ▸ hnode)
    -- the entry is still empty after the new page was cleared
    have hzero : host₁.mem.load64 (entryAddr f j) = 0#64 := by
      rw [hmem]
      exact (tableEntries_fill_other hf hg40 hj hfg).trans hentry
    rw [hzero]
    have hlow : ∀ {l' k' f'}, setNode node l (k * 512 + j) g l' k' = some f' → f' < 33 := by
      intro l' k' f' hn
      unfold setNode at hn
      split at hn
      · cases hn
        exact hg
      · exact ht.low hn
    refine .inr ⟨g, rest, rfl, rfl, nonTermBase_linkWord (Nat.lt_trans hg (by simp)), ?_, hlow,
      hrest, ?_, hnodup⟩
    · refine ht.rep.grow hl hnode hj hchild hfresh (fun i hi => ?_) ?_ ?_
      · have hstore := @tableEntries_store64 host₁.mem f j g i (linkWord g) hf hg40 hj hi
          (fun hc => hfg hc.1.symm)
        refine hstore.trans ?_
        rw [hmem]
        exact tableEntries_fill_self hg40 hi
      · exact Mem.load64_store64 _ _ _
      · intro l' k' f' j' hn hj' hslot
        have hf' : f' < 2 ^ 40 := ht.node_lt hn
        refine (tableEntries_store64 (linkWord g) hf hf' hj hj' hslot).trans ?_
        rw [hmem]
        exact tableEntries_fill_other hf' hg40 hj' (fun heq => hfresh _ _ (heq ▸ hn))
    · intro g' hg'
      refine ⟨(ht.fresh g' (List.mem_cons_of_mem g hg')).1, fun l' k' hn => ?_⟩
      unfold setNode at hn
      split at hn
      · cases hn
        exact hnot hg'
      · exact (ht.fresh g' (List.mem_cons_of_mem g hg')).2 l' k' hn

/-- Writing a terminal entry. -/
theorem Tree.writeLeaf (ht : Tree host supply node leaf) {k j f : Nat} (hnode : node 0 k = some f)
    (hj : j < 512) (w : BitVec 64) :
    Tree ⟨host.mem.store64 (entryAddr f j) w, host.nalloc⟩ supply node
      (setLeaf leaf (k * 512 + j) w) where
  rep := ht.rep.setLeaf hnode hj (Mem.load64_store64 _ _ _) (fun hn hj' hslot =>
    tableEntries_store64 w (ht.node_lt hnode) (ht.node_lt hn) hj hj' hslot)
  low := ht.low
  supplies := ht.supplies
  fresh := ht.fresh
  nodup := ht.nodup

/-! ## One mapping -/

/-- The nine bits of an address from `shift` on select an entry of a table. -/
theorem index_entryAddr (f shift : Nat) (a : BitVec 64) :
    frameAddr f + (a >>> shift &&& 0x1ff#64) * 8#64 =
      entryAddr f (a.toNat / 2 ^ shift % 512) := by
  have hand : (a >>> shift &&& 0x1ff#64).toNat = a.toNat / 2 ^ shift % 512 := by
    have h := Bits.toNat_and_lowMask (a >>> shift) 9 (by simp)
    rwa [BitVec.toNat_ushiftRight, Nat.shiftRight_eq_div_pow] at h
  unfold entryAddr
  congr 1
  apply BitVec.eq_of_toNat_eq
  rw [BitVec.toNat_mul, hand, BitVec.toNat_ofNat, BitVec.toNat_ofNat]
  omega

theorem getEntry_eq {f shift level : Nat} {vaddr : BitVec 64}
    (h : (level = 4 ∧ shift = 39) ∨ (level = 3 ∧ shift = 30) ∨ (level = 2 ∧ shift = 21)) :
    getEntry (frameAddr f) vaddr level =
      .ok (entryAddr f (vaddr.toNat / 2 ^ shift % 512)) := by
  have hok : getIndexPae2mb vaddr level = .ok (vaddr >>> shift &&& 0x1ff#64) := by
    obtain ⟨rfl, rfl⟩ | ⟨rfl, rfl⟩ | ⟨rfl, rfl⟩ := h <;> rfl
  rw [← index_entryAddr]
  unfold getEntry
  rw [hok]
  rfl

theorem mmap2mb_upper {vaddr paddr base : BitVec 64} {isUser : Bool} {level : Nat} {entry : Addr}
    (hlevel : level + 1 ≠ 2) (hentry : getEntry base vaddr (level + 1) = .ok entry)
    (h : mmap2mb vaddr paddr isUser (level + 1) base host = .ok ((), host')) :
    ∃ next host₁, nextTable entry host = .ok (next, host₁) ∧
      mmap2mb vaddr paddr isUser level next host₁ = .ok ((), host') := by
  have hne : ¬ level + 1 = pgtLevelPd := hlevel
  unfold mmap2mb at h
  simp only [bind, StateT.bind, Except.bind, hentry, liftM, monadLift, MonadLift.monadLift,
    StateT.lift, pure, Except.pure, hne, if_false] at h
  cases hnext : nextTable entry host with
  | error e =>
    rw [hnext] at h
    cases h
  | ok r =>
    rw [hnext] at h
    exact ⟨r.1, r.2, rfl, h⟩

theorem mmap2mb_pd {vaddr paddr base : BitVec 64} {isUser : Bool} {entry : Addr}
    (hentry : getEntry base vaddr 2 = .ok entry)
    (h : mmap2mb vaddr paddr isUser 2 base host = .ok ((), host')) :
    host' = ⟨host.mem.store64 entry (writeTerm (host.mem.load64 entry) paddr isUser),
      host.nalloc⟩ := by
  unfold mmap2mb at h
  simp only [bind, StateT.bind, Except.bind, hentry, liftM, monadLift, MonadLift.monadLift,
    StateT.lift, pure, Except.pure] at h
  cases h
  rfl

/-- The tables that have to be allocated at level `l` and key `k`. -/
def missing (node : Nat → Nat → Option Nat) (l k : Nat) : Nat :=
  if node l k = none then 1 else 0

/-- One level down: the table exists afterwards, and no other table was added. -/
theorem Tree.descend (ht : Tree host supply node leaf) {l k j f : Nat} {next : BitVec 64}
    (hl : l < 2) (hnode : node (l + 1) k = some f) (hj : j < 512)
    (hsupply : missing node l (k * 512 + j) ≤ supply.length)
    (h : nextTable (entryAddr f j) host = .ok (next, host')) :
    ∃ node' g, next = frameAddr g ∧ node' l (k * 512 + j) = some g ∧
      Tree host' (supply.drop (missing node l (k * 512 + j))) node' leaf ∧
      (∀ l' k', node' l' k' = none ↔ node l' k' = none ∧ ¬ (l' = l ∧ k' = k * 512 + j)) ∧
      ∀ {l' k' f'}, node l' k' = some f' → node' l' k' = some f' := by
  have hne : node l (k * 512 + j) = none → supply ≠ [] := by
    rintro hnone rfl
    rw [missing, if_pos hnone] at hsupply
    cases hsupply
  rcases nextTable_spec ht hl hnode hj hne h with ⟨g, hg, rfl, rfl⟩ | ⟨g, rest, hnone, rfl, rfl, ht'⟩
  · have hmissing : missing node l (k * 512 + j) = 0 := if_neg (by rw [hg]; exact nofun)
    rw [hmissing]
    refine ⟨node, g, rfl, hg, ht, fun l' k' => ⟨fun hn => ⟨hn, ?_⟩, fun hn => hn.1⟩, id⟩
    rintro ⟨rfl, rfl⟩
    rw [hg] at hn
    cases hn
  · have hmissing : missing node l (k * 512 + j) = 1 := if_pos hnone
    rw [hmissing]
    refine ⟨setNode node l (k * 512 + j) g, g, rfl, setNode_self _ _ _ _, ht', fun l' k' => ?_,
      fun hn => setNode_of_some hn hnone⟩
    unfold setNode
    split
    · next heq => simp [heq]
    · next heq => simp [heq]

/-- Nine more bits of the address select the entry of a table. -/
theorem key_index (v s : Nat) : v / 2 ^ (s + 9) * 512 + v / 2 ^ s % 512 = v / 2 ^ s := by
  rw [Nat.pow_add, ← Nat.div_div_eq_div_mul]
  exact Nat.div_add_mod' (v / 2 ^ s) 512

/-- `mmap_pml4` adds the tables on the way that are missing and overwrites one leaf. -/
theorem mmapPml4_spec (ht : Tree host supply node leaf) {root : Nat} (hroot : node 2 0 = some root)
    {vaddr paddr : BitVec 64} {isUser : Bool} (hv : vaddr.toNat < 2 ^ 48)
    (hsupply : missing node 1 (vaddr.toNat / 2 ^ 39) + missing node 0 (vaddr.toNat / 2 ^ 30) ≤
      supply.length)
    (h : mmapPml4 (frameAddr root) vaddr paddr isUser host = .ok ((), host')) :
    ∃ node', node' 2 0 = some root ∧
      Tree host' (supply.drop (missing node 1 (vaddr.toNat / 2 ^ 39) +
        missing node 0 (vaddr.toNat / 2 ^ 30))) node'
        (setLeaf leaf (vaddr.toNat / 2 ^ 21)
          (writeTerm (leaf (vaddr.toNat / 2 ^ 21)) paddr isUser)) ∧
      (∀ k, node' 1 k = none ↔ node 1 k = none ∧ k ≠ vaddr.toNat / 2 ^ 39) ∧
      ∀ k, node' 0 k = none ↔ node 0 k = none ∧ k ≠ vaddr.toNat / 2 ^ 30 := by
  have hk₁ : 0 * 512 + vaddr.toNat / 2 ^ 39 % 512 = vaddr.toNat / 2 ^ 39 := by omega
  have hk₀ : vaddr.toNat / 2 ^ 39 * 512 + vaddr.toNat / 2 ^ 30 % 512 = vaddr.toNat / 2 ^ 30 :=
    key_index vaddr.toNat 30
  have hkl : vaddr.toNat / 2 ^ 30 * 512 + vaddr.toNat / 2 ^ 21 % 512 = vaddr.toNat / 2 ^ 21 :=
    key_index vaddr.toNat 21
  unfold mmapPml4 pgtLevelPml4 at h
  -- the level 4 entry
  obtain ⟨next₁, host₁, h₁, h⟩ := mmap2mb_upper (by simp) (getEntry_eq (.inl ⟨rfl, rfl⟩)) h
  obtain ⟨node₁, f₁, rfl, hf₁, ht₁, hnone₁, hkeep₁⟩ := ht.descend (by simp) hroot
    (Nat.mod_lt _ (by simp)) (by rw [hk₁]; omega) h₁
  rw [hk₁] at hf₁ ht₁ hnone₁
  have hsame : missing node₁ 0 (vaddr.toNat / 2 ^ 30) = missing node 0 (vaddr.toNat / 2 ^ 30) := by
    unfold missing
    simp only [hnone₁, Nat.zero_ne_one, false_and, not_false_eq_true, and_true]
  -- the level 3 entry
  obtain ⟨next₀, host₀, h₀, h⟩ := mmap2mb_upper (by simp) (getEntry_eq (.inr (.inl ⟨rfl, rfl⟩))) h
  obtain ⟨node₀, f₀, rfl, hf₀, ht₀, hnone₀, hkeep₀⟩ := ht₁.descend (by simp) hf₁
    (Nat.mod_lt _ (by simp)) (by rw [hk₀, hsame, List.length_drop]; omega) h₀
  rw [hk₀, hsame, List.drop_drop] at ht₀
  rw [hk₀] at hf₀ hnone₀
  -- the level 2 entry
  have hhost := mmap2mb_pd (getEntry_eq (.inr (.inr ⟨rfl, rfl⟩))) h
  have hold : host₀.mem.load64 (entryAddr f₀ (vaddr.toNat / 2 ^ 21 % 512)) =
      leaf (vaddr.toNat / 2 ^ 21) := by
    have hleaf : host₀.mem.load64 (entryAddr f₀ (vaddr.toNat / 2 ^ 21 % 512)) =
        leaf (vaddr.toNat / 2 ^ 30 * 512 + vaddr.toNat / 2 ^ 21 % 512) :=
      ht₀.rep.leaves hf₀ (Nat.mod_lt _ (by simp))
    rwa [hkl] at hleaf
  have ht' := ht₀.writeLeaf hf₀ (Nat.mod_lt (vaddr.toNat / 2 ^ 21) (by simp))
    (writeTerm (host₀.mem.load64 (entryAddr f₀ (vaddr.toNat / 2 ^ 21 % 512))) paddr isUser)
  rw [hkl, ← hhost, hold] at ht'
  refine ⟨node₀, hkeep₀ (hkeep₁ hroot), ht', fun k => ?_, fun k => ?_⟩
  · simp [hnone₀, hnone₁]
  · simp [hnone₀, hnone₁]

/-! ## The walk of the processor -/

theorem tableBase_frameAddr {f : Nat} (hf : f < 2 ^ 40) :
    Paging.tableBase (frameAddr f) = frameAddr f := by
  apply BitVec.eq_of_getLsbD_eq
  intro i hi
  rw [Paging.getLsbD_tableBase _ hi, getLsbD_frameAddr hi]
  by_cases hlow : 12 ≤ i
  · by_cases hhigh : i < 52
    · simp [hlow, hhigh]
    · have hzero : f.testBit (i - 12) = false :=
        Bits.testBit_of_lt hf (by omega)
      simp [hzero]
  · simp [hlow]

theorem longModeEntry_eq (m : Mem) (f shift : Nat) (a : BitVec 64) :
    Paging.longModeEntry m (frameAddr f) a shift =
      tableEntries m f (a.toNat / 2 ^ shift % 512) := by
  unfold Paging.longModeEntry tableEntries
  rw [index_entryAddr]

/-- What a 2 MB page with the terminal entry `w` gives. -/
def leafTranslation (w a : BitVec 64) : Option Paging.Translation :=
  if Paging.present w then
    some ⟨Paging.pageAddr w a 21, Paging.writable w, Paging.user w⟩
  else none

/-- The walk reads the leaf of the 2 MB page, under links that restrict nothing. -/
theorem Tree.walk (ht : Tree host supply node leaf) {root : Nat} (hroot : node 2 0 = some root)
    {a : BitVec 64} (ha : a.toNat < 2 ^ 48)
    (hlarge : Paging.present (leaf (a.toNat / 2 ^ 21)) = true →
      Paging.large (leaf (a.toNat / 2 ^ 21)) = true) :
    Paging.longModeWalk host.mem (frameAddr root) a =
      leafTranslation (leaf (a.toNat / 2 ^ 21)) a := by
  have hk₁ : 0 * 512 + a.toNat / 2 ^ 39 % 512 = a.toNat / 2 ^ 39 := by omega
  have hk₀ : a.toNat / 2 ^ 39 * 512 + a.toNat / 2 ^ 30 % 512 = a.toNat / 2 ^ 30 :=
    key_index a.toNat 30
  have hkl : a.toNat / 2 ^ 30 * 512 + a.toNat / 2 ^ 21 % 512 = a.toNat / 2 ^ 21 :=
    key_index a.toNat 21
  have hmod : ∀ x, x % 512 < tableFormat.fanout := fun x => Nat.mod_lt x (by simp)
  -- a missing table on the way leaves the key bare
  have hbare : node 0 (a.toNat / 2 ^ 30) = none →
      leafTranslation (leaf (a.toNat / 2 ^ 21)) a = none := by
    intro hnone
    have hdiv : a.toNat / 2 ^ 21 / tableFormat.fanout = a.toNat / 2 ^ 30 := by
      rw [Nat.div_div_eq_div_mul]
      rfl
    rw [ht.rep.bare (by rw [hdiv]; exact hnone)]
    rfl
  have hlink : ∀ f, Paging.large (linkWord f) = false ∧ Paging.writable (linkWord f) = true ∧
      Paging.user (linkWord f) = true := by
    intro f
    unfold Paging.large Paging.writable Paging.user linkWord
    refine ⟨?_, ?_, ?_⟩ <;> rw [getLsbD_writeNonTerm _ _ (by simp)] <;> rfl
  unfold Paging.longModeWalk
  have hpml4e := ht.rep.upper hroot (hmod (a.toNat / 2 ^ 39))
  rw [show 0 * tableFormat.fanout = 0 * 512 from rfl, hk₁] at hpml4e
  simp only [tableBase_frameAddr (ht.node_lt hroot), longModeEntry_eq, hpml4e]
  cases hf₁ : node 1 (a.toNat / 2 ^ 39) with
  | none =>
    have hnone : node 0 (a.toNat / 2 ^ 30) = none := by
      refine ht.rep.closed (by simp) ?_
      rw [← hf₁, ← hk₀]
      congr 1
      exact key_div (hmod _)
    rw [hbare hnone, if_pos]
    exact .inl Bool.false_ne_true
  | some f₁ =>
    have hpdpe := ht.rep.upper hf₁ (hmod (a.toNat / 2 ^ 30))
    rw [show a.toNat / 2 ^ 39 * tableFormat.fanout = a.toNat / 2 ^ 39 * 512 from rfl, hk₀] at hpdpe
    have hlow₁ : f₁ < 2 ^ 40 := ht.node_lt hf₁
    simp only [Format.entry, tableFormat, present_linkWord, hlink, tableBase_linkWord hlow₁,
      longModeEntry_eq, not_true_eq_false, Bool.false_eq_true, or_self, if_false, hpdpe]
    cases hf₀ : node 0 (a.toNat / 2 ^ 30) with
    | none =>
      rw [hbare hf₀, if_pos]
      exact Bool.false_ne_true
    | some f₀ =>
      have hpde := ht.rep.leaves hf₀ (hmod (a.toNat / 2 ^ 21))
      rw [show a.toNat / 2 ^ 30 * tableFormat.fanout = a.toNat / 2 ^ 30 * 512 from rfl, hkl]
        at hpde
      have hlow₀ : f₀ < 2 ^ 40 := ht.node_lt hf₀
      simp only [present_linkWord, hlink, tableBase_linkWord hlow₀, longModeEntry_eq, hpde,
        not_true_eq_false, Bool.false_eq_true, if_false, Bool.true_and]
      unfold leafTranslation
      by_cases hpresent : Paging.present (leaf (a.toNat / 2 ^ 21)) = true
      · rw [if_neg (not_not_intro hpresent), if_pos (hlarge hpresent), if_pos hpresent]
      · rw [if_pos hpresent, if_neg hpresent]

end

/-! ## Runs -/

/-- The clear frames among the first 32. -/
def lowFrames (nalloc : NaiveAllocator) : List Nat :=
  (List.range 32).filter fun p => ¬ Taken nalloc p

/-- How many one-page requests are served with different frames: one for each clear frame
below 32, and one more with frame 32, which always looks free. -/
def freshFrames (nalloc : NaiveAllocator) : Nat := (lowFrames nalloc).length + 1

theorem lowFrames_step {nalloc nalloc' : NaiveAllocator} {pfn : BitVec 64}
    (h : allocHostPages 1#64 1#64 nalloc = .ok (pfn, nalloc')) :
    lowFrames nalloc' = (lowFrames nalloc).filter fun p => p ≠ pfn.toNat := by
  have hone := allocHostPages_one_page h
  unfold lowFrames
  rw [List.filter_filter]
  apply List.filter_congr
  intro p _
  rw [← Bool.decide_and]
  apply decide_eq_decide.mpr
  rw [hone.taken p, not_or]

/-- The clear frames are handed out in order, and frame 32 ever after. -/
theorem supplies_lowFrames (fs : List Nat) (n : Nat) :
    ∀ nalloc : NaiveAllocator, lowFrames nalloc = fs →
      Supplies nalloc (fs ++ List.replicate n 32) := by
  induction fs with
  | nil =>
    induction n with
    | zero => exact fun _ _ => trivial
    | succ n ih =>
      intro nalloc hfs pfn nalloc' h
      have hone := allocHostPages_one_page h
      refine ⟨?_, ih nalloc' (by rw [lowFrames_step h, hfs, List.filter_nil])⟩
      rcases Nat.lt_or_eq_of_le hone.le with hlt | heq
      · have hmem : pfn.toNat ∈ lowFrames nalloc :=
          List.mem_filter.mpr ⟨List.mem_range.mpr hlt, decide_eq_true (hone.clear hlt)⟩
        rw [hfs] at hmem
        cases hmem
      · exact heq
  | cons f fs ih =>
    intro nalloc hfs pfn nalloc' h
    have hone := allocHostPages_one_page h
    have hmem : ∀ p, p ∈ f :: fs ↔ p < 32 ∧ ¬ Taken nalloc p := fun p => by
      rw [← hfs, lowFrames, List.mem_filter, List.mem_range, decide_eq_true_eq]
    have hsorted : (f :: fs).Pairwise (· < ·) := hfs ▸ List.pairwise_lt_range.filter _
    obtain ⟨hmin, -⟩ := List.pairwise_cons.mp hsorted
    have hf := (hmem f).mp List.mem_cons_self
    have hpfn : pfn.toNat = f := by
      rcases Nat.lt_trichotomy pfn.toNat f with hlt | heq | hgt
      · have hin := (hmem pfn.toNat).mpr ⟨by omega, hone.clear (by omega)⟩
        rcases List.mem_cons.mp hin with heq | hin
        · exact heq
        · exact absurd (hmin _ hin) (Nat.lt_asymm hlt)
      · exact heq
      · exact absurd (hone.below f hgt) hf.2
    refine ⟨hpfn, ih nalloc' ?_⟩
    rw [lowFrames_step h, hpfn, hfs, List.filter_cons_of_neg (by simp)]
    exact List.filter_eq_self.mpr (fun p hp => decide_eq_true (Nat.ne_of_gt (hmin p hp)))

/-- A call of `mmap_pml4`. -/
structure MmapCall where
  vaddr : BitVec 64
  paddr : BitVec 64
  isUser : Bool
deriving DecidableEq

/-- The calls of a run, in order, on one root. -/
def mmapAll (root : BitVec 64) (calls : List MmapCall) : HostM Unit :=
  calls.forM fun c => mmapPml4 root c.vaddr c.paddr c.isUser

/-- A run from a fresh root. -/
def buildMap (calls : List MmapCall) : HostM (BitVec 64) := do
  let root ← pml4TableAlloc
  mmapAll root calls
  return root

/-- The tables a call has to allocate after the calls of `done`. -/
def tablesFor (done : List MmapCall) (c : MmapCall) : Nat :=
  (if ∀ d ∈ done, d.vaddr.toNat / 2 ^ 39 ≠ c.vaddr.toNat / 2 ^ 39 then 1 else 0) +
    (if ∀ d ∈ done, d.vaddr.toNat / 2 ^ 30 ≠ c.vaddr.toNat / 2 ^ 30 then 1 else 0)

/-- The tables that the calls of a run need below the root: one for each 512 GB region and
one for each 1 GB region that they touch. -/
def tablesNeeded : (done calls : List MmapCall) → Nat
  | _, [] => 0
  | done, c :: calls => tablesFor done c + tablesNeeded (c :: done) calls

/-- The most recent call, in a list with the latest first, for the 2 MB page `x`. -/
def lastCall (done : List MmapCall) (x : Nat) : Option MmapCall :=
  done.find? fun c => c.vaddr.toNat / 2 ^ 21 = x

/-- The leaf a run of calls leaves for a 2 MB page. -/
def leafOf : Option MmapCall → BitVec 64
  | none => 0#64
  | some c => writeTerm 0#64 c.paddr c.isUser

/-- The page map after the calls of `done`, the latest first. -/
structure Maps (host : Host) (supply : List Nat) (root : Nat) (done : List MmapCall)
    (node : Nat → Nat → Option Nat) : Prop where
  tree : Tree host supply node (fun x => leafOf (lastCall done x))
  rootNode : node 2 0 = some root
  level1 : ∀ k, node 1 k = none ↔ ∀ d ∈ done, d.vaddr.toNat / 2 ^ 39 ≠ k
  level0 : ∀ k, node 0 k = none ↔ ∀ d ∈ done, d.vaddr.toNat / 2 ^ 30 ≠ k

section
variable {host host' : Host} {supply : List Nat} {root : Nat} {done : List MmapCall}
  {node : Nat → Nat → Option Nat}

theorem Maps.step (hm : Maps host supply root done node) {c : MmapCall}
    (hv : c.vaddr.toNat < 2 ^ 48) (hsupply : tablesFor done c ≤ supply.length)
    (h : mmapPml4 (frameAddr root) c.vaddr c.paddr c.isUser host = .ok ((), host')) :
    ∃ node', Maps host' (supply.drop (tablesFor done c)) root (c :: done) node' := by
  have hmissing : missing node 1 (c.vaddr.toNat / 2 ^ 39) +
      missing node 0 (c.vaddr.toNat / 2 ^ 30) = tablesFor done c := by
    unfold missing tablesFor
    simp only [hm.level1, hm.level0]
  obtain ⟨node', hroot, htree, h₁, h₀⟩ :=
    mmapPml4_spec hm.tree hm.rootNode hv (hmissing ▸ hsupply) h
  rw [hmissing] at htree
  have hleaf : setLeaf (fun x => leafOf (lastCall done x)) (c.vaddr.toNat / 2 ^ 21)
      (writeTerm (leafOf (lastCall done (c.vaddr.toNat / 2 ^ 21))) c.paddr c.isUser) =
        fun x => leafOf (lastCall (c :: done) x) := by
    funext x
    unfold setLeaf
    by_cases hx : x = c.vaddr.toNat / 2 ^ 21
    · have hlast : lastCall (c :: done) x = some c :=
        List.find?_cons_of_pos (decide_eq_true hx.symm)
      rw [if_pos hx, hlast]
      cases lastCall done (c.vaddr.toNat / 2 ^ 21) with
      | none => rfl
      | some d => exact writeTerm_writeTerm _ _ _ _ _
    · have hlast : lastCall (c :: done) x = lastCall done x :=
        List.find?_cons_of_neg (by simpa using fun heq => hx heq.symm)
      rw [if_neg hx, hlast]
  rw [hleaf] at htree
  refine ⟨node', htree, hroot, fun k => ?_, fun k => ?_⟩
  · rw [h₁ k, hm.level1 k]
    simp only [List.mem_cons, forall_eq_or_imp]
    exact ⟨fun h => ⟨fun heq => h.2 heq.symm, h.1⟩, fun h => ⟨h.2, fun heq => h.1 heq.symm⟩⟩
  · rw [h₀ k, hm.level0 k]
    simp only [List.mem_cons, forall_eq_or_imp]
    exact ⟨fun h => ⟨fun heq => h.2 heq.symm, h.1⟩, fun h => ⟨h.2, fun heq => h.1 heq.symm⟩⟩

end

/-- A run of calls on a page map, as long as fresh frames last. -/
theorem Maps.run (calls : List MmapCall) :
    ∀ {host host' : Host} {supply : List Nat} {root : Nat} {done : List MmapCall}
      {node : Nat → Nat → Option Nat}, Maps host supply root done node →
      (∀ c ∈ calls, c.vaddr.toNat < 2 ^ 48) → tablesNeeded done calls ≤ supply.length →
      mmapAll (frameAddr root) calls host = .ok ((), host') →
      ∃ supply' node', Maps host' supply' root (calls.reverse ++ done) node' := by
  induction calls with
  | nil =>
    intro host host' supply root done node hm _ _ h
    cases h
    exact ⟨supply, node, hm⟩
  | cons c calls ih =>
    intro host host' supply root done node hm hv hsupply h
    have hsplit : tablesFor done c + tablesNeeded (c :: done) calls ≤ supply.length := hsupply
    unfold mmapAll at h
    simp only [List.forM_eq_forM, List.forM_cons, bind, StateT.bind, Except.bind] at h
    cases hstep : mmapPml4 (frameAddr root) c.vaddr c.paddr c.isUser host with
    | error e =>
      rw [hstep] at h
      cases h
    | ok r =>
      rw [hstep] at h
      obtain ⟨node₁, hm₁⟩ := hm.step (hv c List.mem_cons_self) (by omega) hstep
      have hrest := ih hm₁ (fun d hd => hv d (List.mem_cons_of_mem c hd))
        (by rw [List.length_drop]; omega) h
      rw [List.reverse_cons, List.append_assoc]
      exact hrest

/-- The empty page map, and the frames that are left for it to grow. -/
theorem pml4TableAlloc_spec {host host' : Host} {paddr : BitVec 64}
    (h : pml4TableAlloc host = .ok (paddr, host')) :
    ∃ root supply node, paddr = frameAddr root ∧ supply.length + 1 = freshFrames host.nalloc ∧
      Maps host' supply root [] node := by
  have hsupplies := supplies_lowFrames (lowFrames host.nalloc) 1 host.nalloc rfl
  rw [List.replicate_one] at hsupplies
  have hlow : ∀ p ∈ lowFrames host.nalloc, p < 32 := fun p hp =>
    List.mem_range.mp (List.mem_filter.mp hp).1
  have hnodup : (lowFrames host.nalloc ++ [32]).Nodup := by
    refine List.nodup_append.mpr ⟨List.nodup_range.filter _, by simp, fun p hp q hq => ?_⟩
    have := hlow p hp
    rw [List.mem_singleton.mp hq]
    exact Nat.ne_of_lt this
  have hlt : ∀ p ∈ lowFrames host.nalloc ++ [32], p < 33 := by
    intro p hp
    rcases List.mem_append.mp hp with hp | hp
    · exact Nat.lt_succ_of_lt (hlow p hp)
    · rw [List.mem_singleton.mp hp]
      decide
  obtain ⟨root, rest, hsplit⟩ := List.exists_cons_of_ne_nil
    (List.append_ne_nil_of_right_ne_nil (lowFrames host.nalloc) (List.cons_ne_nil 32 []))
  rw [hsplit] at hsupplies hnodup hlt
  obtain ⟨hpaddr, hmem, hrest⟩ := pgTableAlloc_spec hsupplies h
  obtain ⟨hnot, hnodup⟩ := List.nodup_cons.mp hnodup
  have hroot : root < 33 := hlt root List.mem_cons_self
  have hsome : ∀ {l k f}, setNode (fun _ _ => none) 2 0 root l k = some f → f = root := by
    intro l k f hn
    unfold setNode at hn
    split at hn
    · cases hn
      rfl
    · cases hn
  have hbelow : ∀ {l}, l ≠ 2 → ∀ k, setNode (fun _ _ => none) 2 0 root l k = none := fun hl k =>
    if_neg (fun hc => hl hc.1)
  refine ⟨root, rest, setNode (fun _ _ => none) 2 0 root, hpaddr, ?_,
    ⟨?_, ?_, hrest, ?_, hnodup⟩, setNode_self _ _ _ _, fun k => ?_, fun k => ?_⟩
  · have hlen := congrArg List.length hsplit
    rw [List.length_append, List.length_cons] at hlen
    exact hlen.symm
  · refine Rep.root (fun j hj => ?_)
    rw [hmem]
    exact tableEntries_fill_self (Nat.lt_trans hroot (by simp)) hj
  · intro l k f hn
    exact hsome hn ▸ hroot
  · intro g hg
    refine ⟨hlt g (List.mem_cons_of_mem root hg), fun l k hn => ?_⟩
    exact hnot (hsome hn ▸ hg)
  · simp [hbelow (show 1 ≠ 2 by decide) k]
  · simp [hbelow (show 0 ≠ 2 by decide) k]

/-- What the walk of an address below `2 ^ 48` must give after the calls of a run. -/
def mappedTo (calls : List MmapCall) (a : BitVec 64) : Option Paging.Translation :=
  (lastCall calls.reverse (a.toNat / 2 ^ 21)).map fun c =>
    { addr := BitVec.ofNat 64 (c.paddr.toNat / 2 ^ 21 * 2 ^ 21 + a.toNat % 2 ^ 21)
      writable := true
      user := c.isUser }

theorem leafTranslation_leafOf {o : Option MmapCall} (a : BitVec 64)
    (hp : ∀ c, o = some c → c.paddr.toNat < 2 ^ 52) :
    leafTranslation (leafOf o) a = o.map fun c =>
      { addr := BitVec.ofNat 64 (c.paddr.toNat / 2 ^ 21 * 2 ^ 21 + a.toNat % 2 ^ 21)
        writable := true
        user := c.isUser } := by
  cases o with
  | none => rfl
  | some c =>
    have hbit : ∀ i, i < 8 → (leafOf (some c)).getLsbD i =
        (decide (i < 2 ∨ i = 7) || (c.isUser && decide (i = 2))) := fun i hi =>
      (getLsbD_writeTerm _ _ _ (by omega)).trans (if_pos (by omega))
    unfold leafTranslation Paging.present Paging.writable Paging.user
    rw [hbit 0 (by simp), hbit 1 (by simp), hbit 2 (by simp)]
    simp [leafOf, pageAddr_writeTerm (hp c rfl)]

theorem buildMap_ok {calls : List MmapCall} {host host' : Host} {root : BitVec 64}
    (h : buildMap calls host = .ok (root, host')) :
    ∃ host₁, pml4TableAlloc host = .ok (root, host₁) ∧
      mmapAll root calls host₁ = .ok ((), host') := by
  unfold buildMap at h
  simp only [bind, StateT.bind, Except.bind] at h
  cases halloc : pml4TableAlloc host with
  | error e =>
    rw [halloc] at h
    cases h
  | ok r =>
    rw [halloc] at h
    simp only at h
    cases hrun : mmapAll r.1 calls r.2 with
    | error e =>
      rw [hrun] at h
      cases h
    | ok r' =>
      rw [hrun] at h
      cases h
      exact ⟨r.2, rfl, hrun⟩

/-- The page map of a run of calls, as long as the tables fit the fresh frames. -/
theorem buildMap_maps {host host' : Host} {root : BitVec 64} {calls : List MmapCall}
    (hrun : buildMap calls host = .ok (root, host'))
    (hcalls : ∀ c ∈ calls, c.vaddr.toNat < 2 ^ 48)
    (hfresh : 1 + tablesNeeded [] calls ≤ freshFrames host.nalloc) :
    ∃ f supply node, root = frameAddr f ∧ Maps host' supply f calls.reverse node := by
  obtain ⟨host₁, hroot, hmaps⟩ := buildMap_ok hrun
  obtain ⟨f, supply, node, rfl, hlen, hm⟩ := pml4TableAlloc_spec hroot
  obtain ⟨supply', node', hm'⟩ := Maps.run calls hm hcalls (by omega) hmaps
  rw [List.append_nil] at hm'
  exact ⟨f, supply', node', rfl, hm'⟩

theorem Maps.walk {host : Host} {supply : List Nat} {f : Nat} {calls : List MmapCall}
    {node : Nat → Nat → Option Nat} (hm : Maps host supply f calls.reverse node)
    (hpaddr : ∀ c ∈ calls, c.paddr.toNat < 2 ^ 52) {a : BitVec 64} (ha : a.toNat < 2 ^ 48) :
    Paging.longModeWalk host.mem (frameAddr f) a = mappedTo calls a := by
  have hlast : ∀ c, lastCall calls.reverse (a.toNat / 2 ^ 21) = some c →
      c.paddr.toNat < 2 ^ 52 := fun c hc =>
    hpaddr c (List.mem_reverse.mp (List.mem_of_find?_eq_some hc))
  rw [hm.tree.walk hm.rootNode ha ?_, leafTranslation_leafOf a hlast]
  · rfl
  · intro hpresent
    cases hcall : lastCall calls.reverse (a.toNat / 2 ^ 21) with
    | none =>
      rw [hcall] at hpresent
      cases hpresent
    | some c => exact getLsbD_writeTerm _ _ _ (by simp)

/-- Every address is translated by the most recent call for its 2 MB page, and by nothing when
there was none, as long as the tables of the run fit the fresh frames. -/
theorem mmapPml4_run_walk {host host' : Host} {root : BitVec 64} {calls : List MmapCall}
    (hrun : buildMap calls host = .ok (root, host'))
    (hcalls : ∀ c ∈ calls, c.vaddr.toNat < 2 ^ 48 ∧ c.paddr.toNat < 2 ^ 52)
    (hfresh : 1 + tablesNeeded [] calls ≤ freshFrames host.nalloc) (a : BitVec 64)
    (ha : a.toNat < 2 ^ 48) :
    Paging.longModeWalk host'.mem root a = mappedTo calls a := by
  obtain ⟨f, supply, node, rfl, hm⟩ :=
    buildMap_maps hrun (fun c hc => (hcalls c hc).1) hfresh
  exact hm.walk (fun c hc => (hcalls c hc).2) ha

/-- Zeroed memory, and 64 frames of which `taken` are taken. -/
def smallHost (taken : BitVec 64) : Host := ⟨fun _ => 0#8, ⟨#[taken], 64#64⟩⟩

/-- A page is mapped, another one of the same table, one of other tables, and then the first one to
another frame. -/
def remapCalls : List MmapCall :=
  [⟨0x200000#64, 0x40000000#64, true⟩, ⟨0x400000#64, 0x80000000#64, false⟩,
    ⟨0x8000000000#64, 0#64, true⟩, ⟨0x200000#64, 0x600000#64, true⟩]

/-- A machine with 64 clear frames has the tables for it. -/
theorem mmapPml4_run_walk_remap :
    ∃ root host', buildMap remapCalls (smallHost 0#64) = .ok (root, host') ∧
      ∀ a : BitVec 64, a.toNat < 2 ^ 48 →
        Paging.longModeWalk host'.mem root a = mappedTo remapCalls a := by
  obtain ⟨⟨root, host'⟩, hrun, -⟩ := completesWith_ok
    (show completesWith (fun _ => true) (buildMap remapCalls (smallHost 0#64)) = true by
      decide +kernel)
  exact ⟨root, host', hrun, mmapPml4_run_walk hrun (by decide) (by decide +kernel)⟩

/-- With every frame taken the tables all land in frame 32 and overwrite each other: the
mapped address does not translate. -/
theorem mmapPml4_run_walk_taken :
    ∃ root host', buildMap [⟨0#64, 0#64, true⟩] (smallHost (BitVec.allOnes 64)) =
      .ok (root, host') ∧ Paging.longModeWalk host'.mem root 0#64 = none ∧
        mappedTo [⟨0#64, 0#64, true⟩] 0#64 = some ⟨0#64, true, true⟩ := by
  obtain ⟨⟨root, host'⟩, hrun, hwalk⟩ := completesWith_ok
    (show completesWith (fun r => Paging.longModeWalk r.2.mem r.1 0#64 = none)
      (buildMap [⟨0#64, 0#64, true⟩] (smallHost (BitVec.allOnes 64))) = true by decide +kernel)
  exact ⟨root, host', hrun, of_decide_eq_true hwalk, by decide +kernel⟩

end Mavmm
