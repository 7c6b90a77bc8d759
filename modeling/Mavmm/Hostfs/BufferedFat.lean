import Mavmm.Hostfs.FreeClusters
import Mavmm.Hostfs.Volume

/-!
# Allocations in the buffer

Where nothing is to be written back, every operation on sectors is known by what
the buffer holds after it.  A handle that leaves its cluster has the driver set
two entries of the FAT there: they are lost with the next sector, or seen by
whoever looks at this one.
-/

namespace Mavmm.Hostfs

/-- The buffer holds these bytes for a sector, and nothing is to be written back. -/
structure Holding (i : TfInfo) (disk : Disk) (files : Handle → TfFile) (u : BitVec 32) (b : Sector)
    (s : Fs) : Prop where
  errorFree : s.ErrorFree
  geometry : s.info.geometry = i.geometry
  cache : s.cache = ⟨u, b, false, disk⟩
  handles : s.handles = files

/-- An action that returns whatever it has in its buffer, and the buffer after it. -/
abbrev Gets {α : Type} (i : TfInfo) (disk : Disk) (files : Handle → TfFile) (u : BitVec 32)
    (b : Sector) (x : FsM α) (a : α) (files' : Handle → TfFile) (u' : BitVec 32) (b' : Sector) :
    Prop :=
  x.Leads (fun _ => True) (Holding i disk files u b) a (Holding i disk files' u' b')

/-- What is in the buffer after a fetch. -/
def afterFetch (disk : Disk) (u : BitVec 32) (b : Sector) (t : BitVec 32) : Sector :=
  if t = u then b else disk t

section
variable {α β : Type} {i : TfInfo} {disk : Disk} {files : Handle → TfFile} {u t c v : BitVec 32}
  {b : Sector} {fp : Handle} {J : Fs → Prop} {r : β} {s s' : Fs}

/-! ## Operations -/

theorem gets_pure {a : α} : Gets i disk files u b (pure a) a files u b :=
  Exec.leads_pure fun _ h => h

theorem gets_info_bind {f : TfInfo → FsM β}
    (hf : ∀ j, j.geometry = i.geometry → (f j).Leads (fun _ => True) (Holding i disk files u b) r J) :
    (info >>= f).Leads (fun _ => True) (Holding i disk files u b) r J :=
  fun s h => hf s.info h.geometry s h

theorem Holding.buffer (h : Holding i disk files u b s) : s.info.buffer = b :=
  congrArg WriteBack.block h.cache

theorem gets_file_bind {f : TfFile → FsM β}
    (hf : (f (files fp)).Leads (fun _ => True) (Holding i disk files u b) r J) :
    (file fp >>= f).Leads (fun _ => True) (Holding i disk files u b) r J := by
  intro s h
  have hf := hf s h
  rw [← h.handles] at hf
  exact hf

theorem gets_modifyFile (g : TfFile → TfFile) :
    Gets i disk files u b (modifyFile fp g) () (WriteBack.set files fp (g (files fp))) u b := by
  refine fun s h => ⟨[], _, rfl, ⟨h.errorFree, h.geometry, h.cache, ?_⟩, fun _ _ => trivial⟩
  rw [← h.handles]
  rfl

theorem gets_int {x : Int} (hx : -2 ^ 31 ≤ x ∧ x < 2 ^ 31) :
    Gets i disk files u b (int x) (BitVec.ofInt 32 x) files u b := by
  unfold int
  rw [if_pos hx]
  exact gets_pure

theorem gets_long {x : Int} (hx : -2 ^ 63 ≤ x ∧ x < 2 ^ 63) :
    Gets i disk files u b (long x) x files u b := by
  unfold long
  rw [if_pos hx]
  exact gets_pure

theorem Holding.fetched (h : Holding i disk files u b s) (t : BitVec 32) :
    Holding i disk files t (afterFetch disk u b t) (s.fetched t) := by
  refine ⟨h.errorFree.fetched t, ?_, ?_, ?_⟩
  · rw [Fs.fetched_info TfInfo.geometry (fun _ _ _ _ => rfl), h.geometry]
  · rw [Fs.cache_fetched, h.cache]
    unfold WriteBack.fetch afterFetch
    dsimp only
    split
    · next heq => rw [heq]
    · rfl
  · rw [Fs.fetched_handles, h.handles]

theorem gets_tfFetch (t : BitVec 32) :
    Gets i disk files u b (tfFetch t) 0#32 files t (afterFetch disk u b t) :=
  fun _ h => ⟨[], _, run_tfFetch h.errorFree t, h.fetched t, fun _ _ => trivial⟩

theorem gets_tfGetFatEntry (hc : FatOffset c) : Gets i disk files u b (tfGetFatEntry c) 0#32 files
    (i.fatSector c) (afterFetch disk u b (i.fatSector c)) := by
  refine fun s h => ⟨[], _, run_tfGetFatEntry h.errorFree hc, ?_, fun _ _ => trivial⟩
  rw [TfInfo.geometry_eq h.geometry (fun i => i.fatSector c) fun _ => rfl]
  exact h.fetched _

theorem Holding.wordSet (h : Holding i disk files u b s) (off : Nat) (v : BitVec 32) :
    Holding i disk files u (Bytes.putWord b 4 off v) (s.wordSet off v) := by
  refine ⟨h.errorFree, h.geometry, ?_, h.handles⟩
  have hclean : s.dirty = false := congrArg WriteBack.dirty h.cache
  have hsector : s.info.currentSector = u := congrArg WriteBack.key h.cache
  have hdisk : s.disk = disk := congrArg WriteBack.back h.cache
  rw [Fs.cache_eq (s := s.wordSet off v) hclean, ← h.buffer, ← hsector, ← hdisk]
  rfl

theorem gets_tfSetFatEntry (hc : FatOffset c) (hindex : 0 ≤ (c.toInt * 4).tmod 512) (v : BitVec 32) :
    Gets i disk files u b (tfSetFatEntry c v) 0#32 files (i.fatSector c)
      (Bytes.putWord (afterFetch disk u b (i.fatSector c)) 4 (fatIndex c) v) := by
  refine fun s h =>
    ⟨_, _, run_tfSetFatEntry h.errorFree hc hindex v, Holding.wordSet ?_ _ v, fun _ _ => trivial⟩
  rw [TfInfo.geometry_eq h.geometry (fun i => i.fatSector c) fun _ => rfl]
  exact h.fetched _

end

/-! ## Behind the end of the cluster -/

/-- The entry that the driver takes for a free one can be set. -/
def TfInfo.Allocates (i : TfInfo) : Prop :=
  FatOffset i.firstDataSector ∧ 0 ≤ (i.firstDataSector.toInt * 4).tmod 512

instance (i : TfInfo) : Decidable i.Allocates := inferInstanceAs (Decidable (_ ∧ _))

/-- The sector with this entry. -/
def TfInfo.freeSector (i : TfInfo) : BitVec 32 := i.fatSector i.firstDataSector

/-- A sector after the entries of cluster 2 and of the new one were set, as far as they are in it. -/
def TfInfo.linked (i : TfInfo) (b : Sector) : Sector :=
  Bytes.putWord
    (if i.freeSector = i.fatSector 2#32 then Bytes.putWord b 4 (fatIndex 2#32) i.firstDataSector else b)
    4 (fatIndex i.firstDataSector) lastCluster

/-- What the buffer holds for this sector after an allocation. -/
def TfInfo.allocated (i : TfInfo) (disk : Disk) : Sector := i.linked (disk i.freeSector)

section
variable {i : TfInfo} {disk : Disk} {files : Handle → TfFile} {u v : BitVec 32} {b : Sector}
  {fp : Handle} {s s' : Fs}

theorem putWord_again {b : Sector} {n off off' : Nat} {v v' : BitVec (8 * n)} :
    Bytes.putWord (Bytes.putWord (Bytes.putWord (Bytes.putWord b n off v) n off' v') n off v) n off'
      v' = Bytes.putWord (Bytes.putWord b n off v) n off' v' := by
  funext k
  unfold Bytes.putWord
  by_cases hk' : off' ≤ k ∧ k < off' + n
  · rw [if_pos hk', if_pos hk']
  · by_cases hk : off ≤ k ∧ k < off + n
    · simp only [if_neg hk', if_pos hk]
    · simp only [if_neg hk', if_neg hk]

/-- An allocation that is made again changes nothing. -/
theorem TfInfo.linked_linked : i.linked (i.linked b) = i.linked b := by
  unfold linked
  by_cases hsame : i.freeSector = i.fatSector 2#32
  · rw [if_pos hsame, if_pos hsame]
    exact putWord_again
  · rw [if_neg hsame, if_neg hsame]
    funext k
    unfold Bytes.putWord
    split
    · rfl
    · rfl

/-- Where there are no data sectors the entry is not even read. -/
theorem gets_tfFindFreeCluster (hall : i.Allocates) : ∃ v, (v = u ∨ v = i.freeSector) ∧
    Gets i disk files u b tfFindFreeCluster i.firstDataSector files v (afterFetch disk u b v) := by
  unfold tfFindFreeCluster
  cases hn : i.totalSectors.toNat - i.firstDataSector.toNat with
  | zero =>
    refine ⟨u, Or.inl rfl, gets_info_bind fun j hj => ?_⟩
    rw [TfInfo.geometry_eq hj TfInfo.firstDataSector fun _ => rfl,
      TfInfo.geometry_eq hj TfInfo.totalSectors fun _ => rfl, hn]
    unfold afterFetch
    rw [if_pos rfl]
    exact gets_pure
  | succ n =>
    refine ⟨i.freeSector, Or.inr rfl, gets_info_bind fun j hj => ?_⟩
    rw [TfInfo.geometry_eq hj TfInfo.firstDataSector fun _ => rfl,
      TfInfo.geometry_eq hj TfInfo.totalSectors fun _ => rfl, hn]
    exact (gets_tfGetFatEntry hall.1).bind gets_pure

/-- The buffer is as if the sector had just been read, or was read and has been changed. -/
def TfInfo.Fresh (i : TfInfo) (disk : Disk) (u : BitVec 32) (b : Sector) : Prop :=
  u = i.freeSector → i.linked b = i.allocated disk

theorem fatOffset_two : FatOffset 2#32 := by decide

/-- One round of the loop that follows the chain. -/
theorem gets_allocation (hall : i.Allocates) (hfresh : i.Fresh disk u b)
    (hv : v = i.fatSector 2#32 ∨ v = i.freeSector) :
    Gets i disk files (i.fatSector 2#32)
      (Bytes.putWord (afterFetch disk v (afterFetch disk (i.fatSector 2#32)
        (afterFetch disk u b (i.fatSector 2#32)) v) (i.fatSector 2#32)) 4 (fatIndex 2#32)
        i.firstDataSector)
      (tfSetFatEntry i.firstDataSector lastCluster) 0#32 files i.freeSector (i.allocated disk) := by
  have hset := @gets_tfSetFatEntry i disk files (i.fatSector 2#32) _
    (Bytes.putWord (afterFetch disk v (afterFetch disk (i.fatSector 2#32)
      (afterFetch disk u b (i.fatSector 2#32)) v) (i.fatSector 2#32)) 4 (fatIndex 2#32)
      i.firstDataSector) hall.1 hall.2 lastCluster
  have hbuffer : Bytes.putWord (afterFetch disk (i.fatSector 2#32)
      (Bytes.putWord (afterFetch disk v (afterFetch disk (i.fatSector 2#32)
        (afterFetch disk u b (i.fatSector 2#32)) v) (i.fatSector 2#32)) 4 (fatIndex 2#32)
        i.firstDataSector) (i.fatSector i.firstDataSector)) 4 (fatIndex i.firstDataSector)
      lastCluster = i.allocated disk := by
    change Bytes.putWord (afterFetch disk _ _ i.freeSector) 4 _ _ = _
    by_cases hsame : i.freeSector = i.fatSector 2#32
    · have hlinked : ∀ b, i.linked b = Bytes.putWord (Bytes.putWord b 4 (fatIndex 2#32)
          i.firstDataSector) 4 (fatIndex i.firstDataSector) lastCluster := by
        intro b
        unfold TfInfo.linked
        rw [if_pos hsame]
      have hsector : v = i.freeSector := hv.elim (fun heq => heq.trans hsame.symm) id
      rw [hsector, ← hsame]
      unfold afterFetch
      rw [if_pos rfl, if_pos rfl, if_pos rfl, ← hlinked]
      split
      · next heq => exact hfresh heq.symm
      · rfl
    · unfold afterFetch TfInfo.allocated TfInfo.linked
      rw [if_neg hsame, if_neg hsame]
  rw [hbuffer] at hset
  exact hset

/-- The loop that follows the chain stays where it is, and allocates in every round. -/
theorem gets_seekCluster (hall : i.Allocates) (hcurrent : (files fp).currentCluster = 2#32) (n : Nat) :
    ∀ {u : BitVec 32} {b : Sector}, i.Fresh disk u b →
      Gets i disk files u b (seekCluster fp tfMarkEoc32 (n + 1)) 0#32 files i.freeSector
        (i.allocated disk) := by
  have hturn : ∀ {n : Nat} {u : BitVec 32} {b : Sector}, i.Fresh disk u b →
      Gets i disk files i.freeSector (i.allocated disk) (seekCluster fp tfMarkEoc32 n) 0#32 files
        i.freeSector (i.allocated disk) →
      Gets i disk files u b (seekCluster fp tfMarkEoc32 (n + 1)) 0#32 files i.freeSector
        (i.allocated disk) := by
    intro n u b hfresh hrest
    have hmark : ¬ (tfMarkEoc32.toInt ≤ (2#32 : BitVec 32).toInt ∧ 0 < n) := fun h =>
      absurd h.1 (by decide)
    obtain ⟨v, hv, hfind⟩ := @gets_tfFindFreeCluster i disk files (i.fatSector 2#32)
      (afterFetch disk u b (i.fatSector 2#32)) hall
    unfold seekCluster
    apply gets_file_bind
    rw [hcurrent]
    refine (gets_tfGetFatEntry fatOffset_two).bind ?_
    rw [if_neg (not_not_intro rfl)]
    refine hfind.bind (gets_file_bind ?_)
    rw [hcurrent]
    refine (gets_tfSetFatEntry fatOffset_two (by decide) _).bind ?_
    refine (gets_allocation hall hfresh hv).bind (gets_file_bind ?_)
    rw [hcurrent, if_neg hmark]
    exact hrest
  induction n with
  | zero => exact fun hfresh => hturn hfresh gets_pure
  | succ n ih =>
    intro u b hfresh
    exact hturn hfresh (ih fun _ => TfInfo.linked_linked)

/-- A move to another cluster behind the first one. -/
theorem gets_moveToCluster (hall : i.Allocates) (hstart : (files fp).startCluster = 2#32) {idx : BitVec 32}
    (hidx : idx ≠ (files fp).currentClusterIdx) (hpos : 0 < idx.toInt) (hfresh : i.Fresh disk u b) :
    Gets i disk files u b (moveToCluster fp idx tfMarkEoc32) 0#32
      (WriteBack.set files fp ((files fp).inCluster idx)) i.freeSector (i.allocated disk) := by
  obtain ⟨n, hn⟩ := Nat.exists_eq_succ_of_ne_zero (show idx.toInt.toNat ≠ 0 by omega)
  unfold moveToCluster TfFile.inCluster
  apply gets_file_bind
  rw [if_neg hidx, if_neg hidx, hn]
  refine (gets_modifyFile _).bind (gets_seekCluster hall ?_ n hfresh)
  rw [WriteBack.set_self]
  exact hstart

theorem Fs.ErrorFree.fatEntrySet {c v rc : BitVec 32} (h : s.ErrorFree)
    (hset : (tfSetFatEntry c v).Returns s rc s') : s'.ErrorFree := by
  obtain ⟨-, -, rfl⟩ := (returns_tfSetFatEntry h).mp hset
  exact h.fetched _

/-- It does not return where nothing can be allocated. -/
theorem allocates_of_moveToCluster {idx mark rc : BitVec 32} (hstart : (files fp).startCluster = 2#32)
    (hidx : idx ≠ (files fp).currentClusterIdx) (hpos : 0 < idx.toInt)
    (hs : Holding i disk files u b s)
    (h : (moveToCluster fp idx mark).Returns s rc s') : i.Allocates := by
  obtain ⟨n, hn⟩ := Nat.exists_eq_succ_of_ne_zero (show idx.toInt.toNat ≠ 0 by omega)
  unfold moveToCluster at h
  have h := Exec.returns_read_bind.mp h
  rw [hs.handles, if_neg hidx, hn] at h
  obtain ⟨t, ht, h⟩ := (gets_modifyFile _).returns_bind hs h
  unfold seekCluster at h
  have h := Exec.returns_read_bind.mp h
  rw [ht.handles, WriteBack.set_self] at h
  dsimp only at h
  rw [hstart] at h
  obtain ⟨t₁, ht₁, h⟩ := (gets_tfGetFatEntry fatOffset_two).returns_bind ht h
  rw [if_neg (not_not_intro rfl)] at h
  obtain ⟨free, t₂, hfind, h⟩ := Exec.returns_bind.mp h
  obtain ⟨-, hfree, hsearched⟩ := (returns_tfFindFreeCluster ht₁.errorFree).mp hfind
  have ht₂ := ht₁.errorFree.searched
  rw [hsearched] at ht₂
  rw [TfInfo.geometry_eq ht₁.geometry TfInfo.firstDataSector fun _ => rfl] at hfree
  have h := Exec.returns_read_bind.mp h
  obtain ⟨rc₁, t₃, hset, h⟩ := Exec.returns_bind.mp h
  obtain ⟨rc₂, t₄, hlast, -⟩ := Exec.returns_bind.mp h
  rw [← hfree] at hlast
  exact tfSetFatEntry_range (ht₂.fatEntrySet hset) hlast

end

end Mavmm.Hostfs
