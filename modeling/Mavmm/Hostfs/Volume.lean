import Mavmm.Hostfs.FileSpec
import Mavmm.Hostfs.Frame
import Mavmm.Hostfs.SectorCache

/-!
# Volumes

What a FAT32 volume holds: clusters of sectors behind the FAT, and files as
chains of clusters.  The driver stands for a volume (`Shows`) as long as only
sectors with data are marked as dirty.  What it sets in the FAT never gets to
the disk, so that a seek leaves the volume alone wherever it goes.
-/

namespace Mavmm.Hostfs

/-! ## Geometry -/

/-- The number of clusters of a volume. -/
def TfInfo.clusters (i : TfInfo) : Nat :=
  (i.totalSectors.toNat - i.firstDataSector.toNat) / i.sectorsPerCluster.toNat

/-- A cluster of the volume. -/
def TfInfo.IsCluster (i : TfInfo) (c : BitVec 32) : Prop :=
  2 ≤ c.toNat ∧ c.toNat < i.clusters + 2

instance (i : TfInfo) (c : BitVec 32) : Decidable (i.IsCluster c) :=
  inferInstanceAs (Decidable (_ ∧ _))

/-- A sector behind the FAT. -/
def TfInfo.IsData (i : TfInfo) (t : BitVec 32) : Prop :=
  i.firstDataSector.toNat ≤ t.toNat

instance (i : TfInfo) (t : BitVec 32) : Decidable (i.IsData t) :=
  inferInstanceAs (Decidable (_ ≤ _))

/-- The number of FAT entries between the reserved sectors and the data. -/
def TfInfo.fatEntries (i : TfInfo) : Nat :=
  128 * (i.firstDataSector.toNat - i.reservedSectors.toNat)

/-- A well-formed volume. -/
structure TfInfo.Fat32 (i : TfInfo) : Prop where
  type : i.type ≠ 0#8
  sectorsPerCluster : 0 < i.sectorsPerCluster.toNat
  /-- `tf_init` counts the sectors behind the FAT with an `int`. -/
  dataSectors : i.totalSectors.toNat - i.firstDataSector.toNat < 2 ^ 31
  clusters : i.clusters < 0x0ffffff6
  fat : i.clusters + 2 ≤ i.fatEntries
  /-- The FAT reaches as far as the entry that the driver takes for a free one. -/
  free : ClusterNumber i.firstDataSector ∧ i.firstDataSector.toNat < i.fatEntries

/-- The sector of a cluster with the byte `k`. -/
def TfInfo.sectorAt (i : TfInfo) (c : BitVec 32) (k : Nat) : BitVec 32 :=
  BitVec.ofNat 32
    (i.firstDataSector.toNat + (c.toNat - 2) * i.sectorsPerCluster.toNat + k / 512)

/-- The driver comes to the byte `k` of a cluster: its place in the cluster is a `short`, and the
number of its sector is summed up as an `int`. -/
def TfInfo.Reaches (i : TfInfo) (c : BitVec 32) (k : Nat) : Prop :=
  k < 2 ^ 15 ∧ ((i.sectorAt c 0).toNat < 2 ^ 31 → (i.sectorAt c k).toNat < 2 ^ 31)

instance (i : TfInfo) (c : BitVec 32) (k : Nat) : Decidable (i.Reaches c k) :=
  inferInstanceAs (Decidable (_ ∧ _))

/-- The driver comes to the bytes at `n` positions from `t` on, of a file that it takes for its
first cluster. -/
def TfInfo.Reach (i : TfInfo) (c : BitVec 32) (t n : Nat) : Prop :=
  ∀ k < n, i.Reaches c ((t + k) % 2 ^ 32 % i.clusterSize)

/-- The byte `k` of a cluster. -/
def TfInfo.byteAt (i : TfInfo) (vol : Disk) (c : BitVec 32) (k : Nat) : Byte :=
  vol (i.sectorAt c k) (k % 512)

/-- A volume with one byte replaced. -/
def TfInfo.putByte (i : TfInfo) (vol : Disk) (c : BitVec 32) (k : Nat) (v : Byte) : Disk :=
  WriteBack.set vol (i.sectorAt c k) (Bytes.put (vol (i.sectorAt c k)) (k % 512) v)

/-- What follows a cluster in the FAT. -/
def TfInfo.next (i : TfInfo) (vol : Disk) (c : BitVec 32) : BitVec 32 :=
  Bytes.word (vol (i.fatSector c)) 4 (fatIndex c) &&& 0x0fffffff#32

/-- The clusters of a file, from its first one on. -/
inductive TfInfo.Chain (i : TfInfo) (vol : Disk) : BitVec 32 → List (BitVec 32) → Prop
  | last {c : BitVec 32} : i.IsCluster c → tfMarkEoc32.toNat ≤ (i.next vol c).toNat →
      Chain i vol c [c]
  | cons {c : BitVec 32} {cs : List (BitVec 32)} : i.IsCluster c →
      Chain i vol (i.next vol c) cs → Chain i vol c (c :: cs)

section
variable {i : TfInfo} {c c' : BitVec 32} {k k' : Nat} {vol vol' : Disk}

theorem TfInfo.Fat32.clusterSize_pos (hi : i.Fat32) : 0 < i.clusterSize := by
  have hspc := hi.sectorsPerCluster
  unfold TfInfo.clusterSize
  omega

theorem TfInfo.clusterSize_ge (hspc : 0 < i.sectorsPerCluster.toNat) : 512 ≤ i.clusterSize := by
  unfold TfInfo.clusterSize
  omega

theorem TfInfo.Fat32.clusterSize_ge (hi : i.Fat32) : 512 ≤ i.clusterSize :=
  TfInfo.clusterSize_ge hi.sectorsPerCluster

theorem TfInfo.clusterSize_lt (i : TfInfo) : i.clusterSize < 2 ^ 17 := by
  have hspc := i.sectorsPerCluster.isLt
  unfold TfInfo.clusterSize
  omega

/-- A sector of a cluster is the one at its place, and lies on the volume. -/
theorem TfInfo.Fat32.toNat_sectorAt (hi : i.Fat32) (hc : i.IsCluster c) (hk : k < i.clusterSize) :
    (i.sectorAt c k).toNat =
        i.firstDataSector.toNat + (c.toNat - 2) * i.sectorsPerCluster.toNat + k / 512 ∧
      (i.sectorAt c k).toNat < i.totalSectors.toNat := by
  have hspc := hi.sectorsPerCluster
  have htotal := i.totalSectors.isLt
  unfold TfInfo.clusterSize at hk
  have hblock : k / 512 < i.sectorsPerCluster.toNat := by omega
  have hle : (c.toNat - 2 + 1) * i.sectorsPerCluster.toNat ≤
      i.totalSectors.toNat - i.firstDataSector.toNat := by
    apply Nat.le_trans (Nat.mul_le_mul_right _ _) (Nat.div_mul_le_self _ i.sectorsPerCluster.toNat)
    unfold TfInfo.IsCluster TfInfo.clusters at hc
    omega
  rw [Nat.add_mul, Nat.one_mul] at hle
  unfold TfInfo.sectorAt
  rw [BitVec.toNat_ofNat]
  generalize (c.toNat - 2) * i.sectorsPerCluster.toNat = n at *
  omega

/-- The driver comes to every byte of the first sector of a cluster. -/
theorem TfInfo.reaches_of_lt (hk : k < 512) : i.Reaches c k := by
  refine ⟨by omega, ?_⟩
  unfold TfInfo.sectorAt
  rw [Nat.div_eq_of_lt hk, Nat.zero_div]
  exact id

/-- On a volume of at most 1 TiB with clusters of at most 32 KiB the driver comes to every byte. -/
theorem TfInfo.Fat32.reach (hi : i.Fat32) (hc : i.IsCluster c) (hcluster : i.clusterSize ≤ 2 ^ 15)
    (htotal : i.totalSectors.toNat ≤ 2 ^ 31) {t n : Nat} : i.Reach c t n := by
  intro k _
  have hk := Nat.mod_lt ((t + k) % 2 ^ 32) hi.clusterSize_pos
  have hsector := (hi.toNat_sectorAt hc hk).2
  exact ⟨by omega, fun _ => by omega⟩

/-- Some of the positions. -/
theorem TfInfo.Reach.sub {t n u m : Nat} (h : i.Reach c t n) (ht : t ≤ u) (hm : u + m ≤ t + n) :
    i.Reach c u m := by
  intro j hj
  have hplace : t + (u - t + j) = u + j := by omega
  rw [← hplace]
  exact h _ (by omega)

/-- The first byte, and those behind it. -/
theorem TfInfo.reach_succ {t n : Nat} : i.Reach c t (n + 1) ↔
    i.Reaches c (t % 2 ^ 32 % i.clusterSize) ∧ i.Reach c (t + 1) n := by
  constructor
  · intro h
    refine ⟨h 0 (Nat.succ_pos n), fun k hk => ?_⟩
    rw [Nat.add_assoc, Nat.add_comm 1 k]
    exact h (k + 1) (Nat.succ_lt_succ hk)
  · rintro ⟨hfirst, hrest⟩ k hk
    cases k with
    | zero => exact hfirst
    | succ k =>
      rw [Nat.add_comm k 1, ← Nat.add_assoc]
      exact hrest k (Nat.lt_of_succ_lt_succ hk)

/-- Positions in front of the end of the first sector. -/
theorem TfInfo.Fat32.reach_of_le (hi : i.Fat32) {t n : Nat} (h : t + n ≤ 512) :
    i.Reach c t n := by
  have hsize := hi.clusterSize_ge
  intro k hk
  rw [Nat.mod_eq_of_lt (show t + k < 2 ^ 32 by omega), Nat.mod_eq_of_lt (by omega)]
  exact reaches_of_lt (by omega)

theorem TfInfo.Fat32.isData_sectorAt (hi : i.Fat32) (hc : i.IsCluster c)
    (hk : k < i.clusterSize) : i.IsData (i.sectorAt c k) := by
  unfold TfInfo.IsData
  rw [(hi.toNat_sectorAt hc hk).1]
  omega

/-- No two clusters share a sector. -/
theorem TfInfo.Fat32.sectorAt_inj (hi : i.Fat32) (hc : i.IsCluster c) (hc' : i.IsCluster c')
    (hk : k < i.clusterSize) (hk' : k' < i.clusterSize)
    (h : i.sectorAt c k = i.sectorAt c' k') : c = c' ∧ k / 512 = k' / 512 := by
  have hspc := hi.sectorsPerCluster
  have heq := congrArg BitVec.toNat h
  rw [(hi.toNat_sectorAt hc hk).1, (hi.toNat_sectorAt hc' hk').1, Nat.add_assoc, Nat.add_assoc,
    Nat.add_left_cancel_iff] at heq
  unfold TfInfo.clusterSize at hk hk'
  have hblock : k / 512 < i.sectorsPerCluster.toNat := by omega
  have hblock' : k' / 512 < i.sectorsPerCluster.toNat := by omega
  have hdiv : ∀ {n b : Nat}, b < i.sectorsPerCluster.toNat →
      (n * i.sectorsPerCluster.toNat + b) / i.sectorsPerCluster.toNat = n := by
    intro n b hb
    rw [Nat.add_comm, Nat.add_mul_div_right _ _ hspc, Nat.div_eq_of_lt hb, Nat.zero_add]
  have hnumber := congrArg (· / i.sectorsPerCluster.toNat) heq
  rw [hdiv hblock, hdiv hblock'] at hnumber
  rw [hnumber, Nat.add_left_cancel_iff] at heq
  have h2 := hc.1
  have h2' := hc'.1
  exact ⟨BitVec.eq_of_toNat_eq (by omega), heq⟩

/-- A byte of the cluster is set. -/
theorem TfInfo.Fat32.byteAt_putByte (hi : i.Fat32) (hc : i.IsCluster c) (hk : k < i.clusterSize)
    (hk' : k' < i.clusterSize) (v : Byte) :
    i.byteAt (i.putByte vol c k v) c k' = if k' = k then v else i.byteAt vol c k' := by
  unfold TfInfo.byteAt TfInfo.putByte
  by_cases hsector : i.sectorAt c k' = i.sectorAt c k
  · have hblock := (hi.sectorAt_inj hc hc hk' hk hsector).2
    rw [hsector, WriteBack.set_self]
    by_cases heq : k' = k
    · rw [if_pos heq, heq, Bytes.put_self]
    · rw [if_neg heq, Bytes.put_ne (by omega)]
  · rw [WriteBack.set_ne hsector, if_neg (fun heq => hsector (by rw [heq]))]

/-- The sectors of a cluster. -/
def TfInfo.Covers (i : TfInfo) (c t : BitVec 32) : Prop :=
  ∃ k < i.clusterSize, t = i.sectorAt c k

/-- A FAT entry is in front of the data. -/
theorem TfInfo.fatSector_lt (hc : ClusterNumber c) (hlt : c.toNat < i.fatEntries) :
    ¬ i.IsData (i.fatSector c) := by
  have hreserved := i.reservedSectors.isLt
  have hfirst := i.firstDataSector.isLt
  unfold ClusterNumber at hc
  unfold TfInfo.fatEntries at hlt
  unfold TfInfo.IsData TfInfo.fatSector
  have hsector : (i.reservedSectors.toNat : Int) + (c.toInt * 4).tdiv 512 =
      ((i.reservedSectors.toNat + c.toNat * 4 / 512 : Nat) : Int) := by
    rw [BitVec.toInt_eq_toNat_of_lt (by omega), Int.tdiv_eq_ediv_of_nonneg (by omega)]
    omega
  rw [hsector, BitVec.ofInt_natCast, BitVec.toNat_ofNat]
  omega

theorem TfInfo.Fat32.clusterNumber (hi : i.Fat32) (hc : i.IsCluster c) : ClusterNumber c := by
  have hclusters := hi.clusters
  unfold TfInfo.IsCluster at hc
  unfold ClusterNumber
  omega

theorem TfInfo.Fat32.fatSector_lt (hi : i.Fat32) (hc : i.IsCluster c) :
    ¬ i.IsData (i.fatSector c) :=
  TfInfo.fatSector_lt (hi.clusterNumber hc) (Nat.lt_of_lt_of_le hc.2 hi.fat)

/-- A change of the sectors of one cluster leaves the bytes of the others alone. -/
theorem TfInfo.byteAt_frame (hi : i.Fat32) (hc : i.IsCluster c) (hc' : i.IsCluster c')
    (hvol : ∀ t, ¬ i.Covers c t → vol' t = vol t) (hne : c ≠ c') (hk : k < i.clusterSize) :
    i.byteAt vol' c' k = i.byteAt vol c' k := by
  unfold TfInfo.byteAt
  rw [hvol]
  rintro ⟨k', hk', heq⟩
  exact hne (hi.sectorAt_inj hc' hc hk hk' heq).1.symm

/-- A change of the sectors of one cluster leaves the other files alone. -/
theorem TfInfo.Chain.frame (hi : i.Fat32) (hc : i.IsCluster c)
    (hvol : ∀ t, ¬ i.Covers c t → vol' t = vol t) {start : BitVec 32} {cs : List (BitVec 32)}
    (h : i.Chain vol start cs) (hother : c ∉ cs) :
    i.Chain vol' start cs ∧ ∀ d ∈ cs, ∀ k < i.clusterSize, i.byteAt vol' d k = i.byteAt vol d k := by
  have hnext : ∀ {d}, i.IsCluster d → i.next vol' d = i.next vol d := by
    intro d hd
    unfold TfInfo.next
    rw [hvol]
    rintro ⟨k, hk, heq⟩
    have hdata := hi.isData_sectorAt hc hk
    rw [← heq] at hdata
    exact hi.fatSector_lt hd hdata
  induction h with
  | last hd heoc =>
    rw [List.mem_singleton] at hother
    refine ⟨.last hd (by rwa [hnext hd]), ?_⟩
    intro d hmem
    cases List.mem_singleton.mp hmem
    exact fun k hk => TfInfo.byteAt_frame hi hc hd hvol hother hk
  | cons hd _ ih =>
    rw [List.mem_cons, not_or] at hother
    obtain ⟨hchain, hrest⟩ := ih hother.2
    refine ⟨.cons hd (by rwa [hnext hd]), ?_⟩
    intro d hmem
    rcases List.mem_cons.mp hmem with rfl | hmem
    · exact fun k hk => TfInfo.byteAt_frame hi hc hd hvol hother.1 hk
    · exact hrest d hmem

end

/-! ## What the driver stands for -/

/-- The volume once a buffer that is marked as dirty is written back. -/
def Fs.volume (s : Fs) : Disk :=
  if s.dirty then WriteBack.set s.disk s.info.currentSector s.info.buffer else s.disk

/-- The driver stands for a volume and handles. -/
structure Shows (i : TfInfo) (vol : Disk) (files : Handle → TfFile) (s : Fs) : Prop where
  errorFree : s.ErrorFree
  geometry : s.info.geometry = i.geometry
  /-- Only data is written back. -/
  dirty : s.dirty = true → i.IsData s.info.currentSector
  clean : s.dirty = false → i.IsData s.info.currentSector →
    s.disk s.info.currentSector = s.info.buffer
  volume : s.volume = vol
  handles : s.handles = files

section
variable {i : TfInfo} {vol : Disk} {files : Handle → TfFile} {s : Fs} {t c : BitVec 32}

/-- A sector with data that is in the buffer is the one of the volume. -/
theorem Shows.buffer (h : Shows i vol files s) (hdata : i.IsData s.info.currentSector) :
    s.info.buffer = vol s.info.currentSector := by
  rw [← h.volume]
  unfold Fs.volume
  cases hdirty : s.dirty with
  | true => exact WriteBack.set_self.symm
  | false => exact (h.clean hdirty hdata).symm

theorem Shows.fetched (h : Shows i vol files s) (t : BitVec 32) :
    Shows i vol files (s.fetched t) := by
  by_cases ht : t = s.info.currentSector
  · unfold Fs.fetched
    rwa [if_pos ht]
  · have hback : (s.fetched t).disk = vol := by
      rw [← h.volume]
      unfold Fs.fetched Fs.volume
      rw [if_neg ht]
      cases s.dirty <;> rfl
    have hclean : (s.fetched t).dirty = false := by
      unfold Fs.fetched
      rw [if_neg ht]
      cases hdirty : s.dirty with
      | true => exact flagged_clear_self _ _
      | false => exact hdirty
    have hbuffer : (s.fetched t).info.buffer = (s.fetched t).disk t := by
      unfold Fs.fetched
      rw [if_neg ht]
      rfl
    refine ⟨h.errorFree.fetched t, ?_, ?_, ?_, ?_, ?_⟩
    · rw [Fs.fetched_info TfInfo.geometry (fun _ _ _ _ => rfl), h.geometry]
    · intro hdirty
      exact absurd (hclean.symm.trans hdirty) Bool.false_ne_true
    · intro _ _
      rw [Fs.fetched_currentSector, hbuffer]
    · unfold Fs.volume
      rw [hclean, hback]
      rfl
    · rw [Fs.fetched_handles, h.handles]

/-- A word that is set in front of the data is not part of the volume. -/
theorem Shows.wordSet (h : Shows i vol files s) (hdata : ¬ i.IsData s.info.currentSector)
    (off : Nat) (v : BitVec 32) : Shows i vol files (s.wordSet off v) := by
  have hclean : s.dirty = false := Bool.eq_false_iff.mpr fun hdirty => hdata (h.dirty hdirty)
  have hclean' : (s.wordSet off v).dirty = false := hclean
  refine ⟨h.errorFree, h.geometry, h.dirty, fun _ hdata' => absurd hdata' hdata, ?_, h.handles⟩
  have hvolume := h.volume
  unfold Fs.volume at hvolume ⊢
  rw [hclean] at hvolume
  rw [hclean']
  exact hvolume

theorem Shows.byteSet (h : Shows i vol files s) (hdata : i.IsData s.info.currentSector)
    (off : Nat) (v : Byte) : Shows i (WriteBack.set vol s.info.currentSector
      (Bytes.put (vol s.info.currentSector) off v)) files (s.byteSet off v) := by
  have hdirty : (s.byteSet off v).dirty = true := flagged_or_self _ (by decide)
  refine ⟨h.errorFree, h.geometry, fun _ => hdata,
    fun hclean => absurd (hclean.symm.trans hdirty) Bool.false_ne_true, ?_, h.handles⟩
  rw [← h.buffer hdata, ← h.volume]
  unfold Fs.volume
  rw [hdirty, if_pos rfl]
  split
  · exact WriteBack.set_set.symm
  · rfl

theorem Shows.setFile (h : Shows i vol files s) (fp : Handle) (f : TfFile) :
    Shows i vol (WriteBack.set files fp f) (s.setFile fp f) := by
  refine ⟨h.errorFree, h.geometry, h.dirty, h.clean, h.volume, ?_⟩
  rw [← h.handles]
  rfl

end

/-! ## Actions on what the driver stands for -/

/-- No character behind the index is read. -/
def FsEvent.UpTo (last : Nat) : FsEvent → Prop
  | .stored _ _ _ => True
  | .char k => k ≤ last

/-- From any state that stands for the volume and the handles, the action returns, and leaves a
state that stands for the others; no character of a path behind the index is read. -/
abbrev Does {α : Type} (last : Nat) (i : TfInfo) (vol : Disk) (files : Handle → TfFile) (x : FsM α)
    (a : α) (vol' : Disk) (files' : Handle → TfFile) : Prop :=
  x.Leads (FsEvent.UpTo last) (Shows i vol files) a (Shows i vol' files')

section
variable {α β : Type} {i : TfInfo} {vol vol₁ vol₂ : Disk} {files files₁ files₂ : Handle → TfFile}
  {fp : Handle} {a : α} {b : β} {c : BitVec 32} {last : Nat} {J : Fs → Prop}

theorem does_pure : Does last i vol files (pure a) a vol files := Exec.leads_pure fun _ h => h

theorem does_info_bind {f : TfInfo → FsM β}
    (hf : ∀ j, j.geometry = i.geometry →
      (f j).Leads (FsEvent.UpTo last) (Shows i vol files) b J) :
    (info >>= f).Leads (FsEvent.UpTo last) (Shows i vol files) b J :=
  fun s h => hf s.info h.geometry s h

theorem does_file_bind {f : TfFile → FsM β}
    (hf : (f (files fp)).Leads (FsEvent.UpTo last) (Shows i vol files) b J) :
    (file fp >>= f).Leads (FsEvent.UpTo last) (Shows i vol files) b J := by
  intro s h
  have hf := hf s h
  rw [← h.handles] at hf
  exact hf

theorem does_modifyFile (g : TfFile → TfFile) :
    Does last i vol files (modifyFile fp g) () vol (WriteBack.set files fp (g (files fp))) := by
  refine fun s h => ⟨[], _, rfl, ?_, nofun⟩
  have hset := h.setFile fp (g (s.handles fp))
  rw [← h.handles] at hset ⊢
  exact hset

theorem does_int {x : Int} (hx : -2 ^ 31 ≤ x ∧ x < 2 ^ 31) :
    Does last i vol files (int x) (BitVec.ofInt 32 x) vol files := by
  unfold int
  rw [if_pos hx]
  exact does_pure

theorem does_long {x : Int} (hx : -2 ^ 63 ≤ x ∧ x < 2 ^ 63) :
    Does last i vol files (long x) x vol files := by
  unfold long
  rw [if_pos hx]
  exact does_pure

/-! ### The FAT -/

/-- An entry of the FAT. -/
def TfInfo.IsEntry (i : TfInfo) (c : BitVec 32) : Prop :=
  ClusterNumber c ∧ c.toNat < i.fatEntries

theorem TfInfo.Fat32.isEntry (hi : i.Fat32) (hc : i.IsCluster c) : i.IsEntry c :=
  ⟨hi.clusterNumber hc, Nat.lt_of_lt_of_le hc.2 hi.fat⟩

theorem does_tfGetFatEntry (hc : i.IsEntry c) :
    Does last i vol files (tfGetFatEntry c) 0#32 vol files := by
  exact fun s h => ⟨[], _, run_tfGetFatEntry h.errorFree hc.1.fatOffset, h.fetched _, nofun⟩

theorem does_tfSetFatEntry (hc : i.IsEntry c) (v : BitVec 32) :
    Does last i vol files (tfSetFatEntry c v) 0#32 vol files := by
  refine fun s h =>
    ⟨_, _, run_tfSetFatEntry h.errorFree hc.1.fatOffset hc.1.index_nonneg v, ?_, ?_⟩
  · apply (h.fetched _).wordSet
    rw [Fs.fetched_currentSector,
      TfInfo.geometry_eq h.geometry (fun i => i.fatSector c) fun _ => rfl]
    exact TfInfo.fatSector_lt hc.1 hc.2
  · unfold storeWord
    simp [FsEvent.UpTo]

/-! ### The buffer -/

/-- A sector is in the buffer. -/
def ShowsAt (i : TfInfo) (vol : Disk) (files : Handle → TfFile) (t : BitVec 32) (s : Fs) : Prop :=
  Shows i vol files s ∧ s.info.currentSector = t

theorem does_tfFetch (t : BitVec 32) :
    (tfFetch t).Leads (FsEvent.UpTo last) (Shows i vol files) 0#32 (ShowsAt i vol files t) :=
  fun _ h => ⟨[], _, run_tfFetch h.errorFree t, ⟨h.fetched t, Fs.fetched_currentSector t⟩, nofun⟩

/-- The sector is that of the volume. -/
theorem does_buffer_bind {t : BitVec 32} (ht : i.IsData t) {f : TfInfo → FsM β}
    (hf : ∀ j, j.buffer = vol t → (f j).Leads (FsEvent.UpTo last) (Shows i vol files) b J) :
    (info >>= f).Leads (FsEvent.UpTo last) (ShowsAt i vol files t) b J := by
  rintro s ⟨h, rfl⟩
  exact hf s.info (h.buffer ht) s h

/-- A byte of the sector is set. -/
theorem does_setByte_bind {t : BitVec 32} (ht : i.IsData t) {off : Nat} {v : Byte} {x : FsM β}
    (hx : x.Leads (FsEvent.UpTo last)
      (Shows i (WriteBack.set vol t (Bytes.put (vol t) off v)) files) b J) :
    (do
      setByte off v
      modifyInfo fun i => { i with sectorFlags := i.sectorFlags ||| tfFlagDirty }
      x).Leads (FsEvent.UpTo last) (ShowsAt i vol files t) b J := by
  rintro s ⟨h, rfl⟩
  obtain ⟨es, s', hrun, hs', hes⟩ := hx _ (h.byteSet ht off v)
  refine ⟨.stored s.info.currentSector off v :: es, s', ?_, hs', ?_⟩
  · refine (Exec.runs_bind_of (run_setByte off v)).mpr ⟨es, ?_, rfl⟩
    exact (Exec.runs_bind_nil rfl).mpr hrun
  · exact List.forall_mem_cons.mpr ⟨trivial, hes⟩

/-- The first entry that is tried reads as 0. -/
theorem does_tfFindFreeCluster (hi : i.Fat32) :
    Does last i vol files tfFindFreeCluster i.firstDataSector vol files := by
  unfold tfFindFreeCluster
  apply does_info_bind
  intro j hj
  rw [TfInfo.geometry_eq hj TfInfo.firstDataSector fun _ => rfl]
  cases j.totalSectors.toNat - i.firstDataSector.toNat with
  | zero => exact does_pure
  | succ n => exact (does_tfGetFatEntry hi.free).bind does_pure

/-- A walk along the chain stays where it is. -/
theorem does_seekCluster (hi : i.Fat32) (hc : i.IsCluster (files fp).currentCluster) (n : Nat) :
    Does last i vol files (seekCluster fp tfMarkEoc32 n) 0#32 vol files := by
  induction n with
  | zero => exact does_pure
  | succ n ih =>
    have hmark : ¬ (tfMarkEoc32.toInt ≤ (files fp).currentCluster.toInt ∧ 0 < n) := by
      have hclusters := hi.clusters
      have hlt := hc.2
      have hvalue : tfMarkEoc32.toInt = 0x0ffffff8 := by decide
      rw [hvalue, BitVec.toInt_eq_toNat_of_lt (by omega)]
      omega
    unfold seekCluster
    apply does_file_bind
    refine (does_tfGetFatEntry (hi.isEntry hc)).bind ?_
    rw [if_neg (not_not_intro rfl)]
    refine (does_tfFindFreeCluster hi).bind (does_file_bind ?_)
    refine (does_tfSetFatEntry (hi.isEntry hc) _).bind ?_
    refine (does_tfSetFatEntry hi.free _).bind (does_file_bind ?_)
    rw [if_neg hmark]
    exact ih

end

end Mavmm.Hostfs
