import Mavmm.Hostfs.BufferedFat
import Mavmm.Hostfs.FileHandles
import Mavmm.Hostfs.Lookup

/-!
# Reading the root directory

On a volume of which nothing is known a handle of the root directory goes around
cluster 2, and behind its end the driver has changed entries of the FAT in its
buffer.  What the handle sees at a position depends on the disk only, and so
does how far it can read.  It comes to the position 2^32 - 2 and stays there.  The
size of the directory is found exactly where an entry begins with 0
(`TfInfo.EndsAt`).
-/

namespace Mavmm.Hostfs

/-! ## Positions -/

/-- The sector with a position, around cluster 2. -/
def TfInfo.ringSector (i : TfInfo) (p : Nat) : BitVec 32 :=
  i.firstDataSector + BitVec.ofNat 32 (p % i.clusterSize / 512)

/-- What a handle of the root directory sees in this sector: that of the disk, unless the sector is
the one with the entry that was set when the handle came around. -/
def TfInfo.ringView (i : TfInfo) (disk : Disk) (p : Nat) : Sector :=
  if i.clusterSize ≤ p ∧ p % i.clusterSize < 512 ∧ i.freeSector = i.firstDataSector then
    i.allocated disk
  else disk (i.ringSector p)

/-- The byte at a position of the root directory. -/
def TfInfo.ringByte (i : TfInfo) (disk : Disk) (p : Nat) : Byte := i.ringView disk p (p % 512)

/-- What the buffer holds when a handle has come to the position. -/
def TfInfo.InBuffer (i : TfInfo) (disk : Disk) (p : Nat) (u : BitVec 32) (b : Sector) : Prop :=
  if p = 0 then b = disk u
  else if p % i.clusterSize = 0 then u = i.freeSector ∧ b = i.allocated disk
  else u = i.ringSector (p - 1) ∧ b = i.ringView disk (p - 1)

/-- A byte can be read, with the seek to the next one: its place in the cluster has 16 bits with
the sign, its sector is an `int`, and an entry can be set where the handle comes around. -/
structure TfInfo.Readable (i : TfInfo) (p : Nat) : Prop where
  offset : p % i.clusterSize < 2 ^ 15
  sector : i.firstDataSector.toInt + (p % i.clusterSize / 512 : Nat) < 2 ^ 31
  next : (p + 1) % i.clusterSize = 0 → i.Allocates

section
variable {i : TfInfo} {disk : Disk} {files : Handle → TfFile} {u : BitVec 32} {b : Sector}
  {fp : Handle} {s s' : Fs} {p : Nat}

theorem TfInfo.clusterSize_eq : i.clusterSize = 512 * i.sectorsPerCluster.toNat := Nat.mul_comm _ _

theorem TfInfo.clusterSize_bounds (hspc : 0 < i.sectorsPerCluster.toNat) :
    512 ≤ i.clusterSize ∧ i.clusterSize < 2 ^ 17 :=
  ⟨TfInfo.clusterSize_ge hspc, i.clusterSize_lt⟩

theorem mod_clusterSize : p % i.clusterSize % 512 = p % 512 := by
  rw [TfInfo.clusterSize_eq]
  exact Nat.mod_mul_right_mod p 512 _

/-- A step that does not come around. -/
theorem succ_mod_of_ne_zero {n : Nat} (h : (p + 1) % n ≠ 0) : (p + 1) % n = p % n + 1 := by
  have hp := Nat.div_add_mod p n
  have hnext := Nat.div_add_mod (p + 1) n
  rw [Nat.succ_div_of_mod_ne_zero h] at hnext
  omega

/-- The sector that is fetched at a position. -/
theorem TfInfo.InBuffer.fetched (hspc : 0 < i.sectorsPerCluster.toNat)
    (h : i.InBuffer disk p u b) : afterFetch disk u b (i.ringSector p) = i.ringView disk p := by
  have hbounds := TfInfo.clusterSize_bounds hspc
  have hmod := Nat.mod_lt p (by omega : 0 < i.clusterSize)
  unfold TfInfo.InBuffer at h
  by_cases hzero : p = 0
  · rw [if_pos hzero] at h
    have hview : i.ringView disk p = disk (i.ringSector p) :=
      if_neg fun hseen => absurd hseen.1 (by omega)
    rw [hview]
    unfold afterFetch
    split
    · next heq => rw [h, heq]
    · rfl
  · rw [if_neg hzero] at h
    by_cases hbegin : p % i.clusterSize = 0
    · -- the handle has just come around
      rw [if_pos hbegin] at h
      obtain ⟨rfl, rfl⟩ := h
      have hbehind : i.clusterSize ≤ p := by
        apply Nat.le_of_not_lt
        intro hlt
        rw [Nat.mod_eq_of_lt hlt] at hbegin
        exact hzero hbegin
      have hsector : i.ringSector p = i.firstDataSector := by
        unfold TfInfo.ringSector
        rw [hbegin]
        exact BitVec.add_zero _
      unfold afterFetch TfInfo.ringView
      rw [hsector]
      by_cases hsame : i.freeSector = i.firstDataSector
      · rw [if_pos hsame.symm, if_pos ⟨hbehind, by omega, hsame⟩]
      · rw [if_neg fun heq => hsame heq.symm, if_neg fun hseen => hsame hseen.2.2]
    · rw [if_neg hbegin] at h
      obtain ⟨rfl, rfl⟩ := h
      obtain ⟨q, rfl⟩ := Nat.exists_eq_succ_of_ne_zero hzero
      have hnext := succ_mod_of_ne_zero hbegin
      have hbehind : i.clusterSize ≤ q ↔ i.clusterSize ≤ q + 1 := by
        constructor
        · exact fun hle => Nat.le_succ_of_le hle
        · intro hle
          apply Nat.le_of_lt_succ
          apply Nat.lt_of_le_of_ne hle
          intro heq
          rw [heq, Nat.mod_self] at hbegin
          exact hbegin rfl
      rw [Nat.succ_eq_add_one] at *
      rw [Nat.add_sub_cancel]
      by_cases hblock : (q + 1) % i.clusterSize / 512 = q % i.clusterSize / 512
      · have hsector : i.ringSector (q + 1) = i.ringSector q := by
          unfold TfInfo.ringSector
          rw [hblock]
        have hfirst : (q + 1) % i.clusterSize < 512 ↔ q % i.clusterSize < 512 := by omega
        unfold afterFetch
        rw [if_pos hsector]
        unfold TfInfo.ringView
        rw [hsector]
        exact if_congr (and_congr hbehind (and_congr hfirst.symm Iff.rfl)) rfl rfl
      · have hlater : ¬ (q + 1) % i.clusterSize < 512 := by omega
        have hother : i.ringSector (q + 1) ≠ i.ringSector q := by
          intro heq
          have hfirst := i.firstDataSector.isLt
          have heq := congrArg BitVec.toNat heq
          unfold TfInfo.ringSector at heq
          rw [BitVec.toNat_add, BitVec.toNat_add, BitVec.toNat_ofNat, BitVec.toNat_ofNat] at heq
          omega
        unfold afterFetch TfInfo.ringView
        rw [if_neg hother, if_neg fun hseen => hlater hseen.2.1]

theorem TfInfo.fresh_ringView : i.Fresh disk (i.ringSector p) (i.ringView disk p) := by
  intro hsector
  unfold ringView
  split
  · exact TfInfo.linked_linked
  · rw [hsector]
    rfl

end

/-! ## Reading -/

/-- The volume was not refused. -/
structure TfInfo.Accepted (i : TfInfo) : Prop where
  type : i.type ≠ 0#8
  sectorsPerCluster : 0 < i.sectorsPerCluster.toNat

/-- A handle of the root directory at a position. -/
structure TfFile.Scans (f : TfFile) (clusterSize p : Nat) : Prop where
  startCluster : f.startCluster = 2#32
  currentCluster : f.currentCluster = 2#32
  size : f.size = 0xffffffff#32
  pos : f.pos.toNat = p
  currentByte : f.currentByte = BitVec.ofNat 16 (p % clusterSize)
  currentClusterIdx : f.currentClusterIdx.toNat = p / clusterSize

section
variable {i : TfInfo} {disk : Disk} {files : Handle → TfFile} {u : BitVec 32} {b : Sector}
  {fp : Handle} {s s' : Fs} {p : Nat}

theorem continues_int_bind {α : Type} {x : Int} (hx : -2 ^ 31 ≤ x ∧ x < 2 ^ 31)
    {f : BitVec 32 → FsM α} {K : Fs → Prop} {y : FsM α}
    (h : Exec.Continues s (f (BitVec.ofInt 32 x)) K y) : Exec.Continues s (int x >>= f) K y := by
  unfold int
  rw [if_pos hx]
  exact h

theorem returns_int_bind {α : Type} {x : Int} {f : BitVec 32 → FsM α} {a : α} :
    (int x >>= f).Returns s a s' ↔
      (-2 ^ 31 ≤ x ∧ x < 2 ^ 31) ∧ (f (BitVec.ofInt 32 x)).Returns s a s' := by
  by_cases hx : -2 ^ 31 ≤ x ∧ x < 2 ^ 31
  · unfold int
    rw [if_pos hx]
    exact (and_iff_right hx).symm
  · unfold Exec.Returns
    rw [run_int_bind_fails hx]
    exact iff_of_false nofun fun h => hx h.1

theorem gets_tfFirstSector : Gets i disk files u b (tfFirstSector 2#32) i.firstDataSector files u b := by
  have hnumber : (2#32 : BitVec 32).toInt - 2 = 0 := by decide
  have hzero : (BitVec.ofInt 32 0).toInt * (i.sectorsPerCluster.toNat : Int) = 0 := by
    rw [show (BitVec.ofInt 32 0).toInt = 0 by decide, Int.zero_mul]
  unfold tfFirstSector
  apply gets_info_bind
  intro j hj
  rw [TfInfo.geometry_eq hj TfInfo.sectorsPerCluster fun _ => rfl,
    TfInfo.geometry_eq hj TfInfo.firstDataSector fun _ => rfl, hnumber]
  refine (gets_int (by decide)).bind ?_
  rw [hzero]
  refine (gets_int (by decide)).bind ?_
  rw [show BitVec.ofInt 32 0 = 0#32 from rfl, BitVec.zero_add]
  exact gets_pure

/-- The sector with the byte at a handle in cluster 2. -/
def TfInfo.byteSector (i : TfInfo) (f : TfFile) : Int :=
  i.firstDataSector.toInt + f.currentByte.toInt.tdiv 512

theorem gets_fetchCurrent (hcurrent : (files fp).currentCluster = 2#32)
    (hsector : -2 ^ 31 ≤ i.byteSector (files fp) ∧ i.byteSector (files fp) < 2 ^ 31)
    (hindex : 0 ≤ (files fp).currentByte.toInt.tmod 512) :
    Gets i disk files u b (fetchCurrent fp) ((files fp).currentByte.toInt.tmod 512).toNat files
      (BitVec.ofInt 32 (i.byteSector (files fp)))
      (afterFetch disk u b (BitVec.ofInt 32 (i.byteSector (files fp)))) := by
  unfold fetchCurrent
  apply gets_file_bind
  rw [hcurrent]
  refine gets_tfFirstSector.bind ((gets_int hsector).bind ((gets_tfFetch _).bind ?_))
  rw [if_neg (Int.not_lt.mpr hindex)]
  exact gets_pure

theorem fetchCurrent_range {k : Nat} (hcurrent : (files fp).currentCluster = 2#32)
    (hs : Holding i disk files u b s) (h : (fetchCurrent fp).Returns s k s') :
    (-2 ^ 31 ≤ i.byteSector (files fp) ∧ i.byteSector (files fp) < 2 ^ 31) ∧
      0 ≤ (files fp).currentByte.toInt.tmod 512 := by
  unfold fetchCurrent at h
  have h := Exec.returns_read_bind.mp h
  rw [hs.handles, hcurrent] at h
  obtain ⟨t, ht, h⟩ := gets_tfFirstSector.returns_bind hs h
  change (int (i.byteSector (files fp)) >>= _).Returns t k s' at h
  obtain ⟨hsector, h⟩ := returns_int_bind.mp h
  obtain ⟨t, ht, h⟩ := (gets_tfFetch _).returns_bind ht h
  refine ⟨hsector, Int.not_lt.mp fun hindex => ?_⟩
  rw [if_pos hindex] at h
  cases h

theorem TfFile.Scans.currentByte_eq (hf : (files fp).Scans i.clusterSize p)
    (hoffset : p % i.clusterSize < 2 ^ 15) :
    (files fp).currentByte.toInt = (p % i.clusterSize : Nat) := by
  rw [hf.currentByte, BitVec.toInt_eq_toNat_of_lt (by rw [BitVec.toNat_ofNat]; omega),
    BitVec.toNat_ofNat]
  omega

/-- The sector at a position. -/
theorem TfFile.Scans.byteSector_eq (hf : (files fp).Scans i.clusterSize p)
    (hoffset : p % i.clusterSize < 2 ^ 15) : i.byteSector (files fp) =
      i.firstDataSector.toInt + (p % i.clusterSize / 512 : Nat) := by
  unfold TfInfo.byteSector
  rw [hf.currentByte_eq hoffset]
  rfl

theorem gets_fetchAt (hf : (files fp).Scans i.clusterSize p) (hread : i.Readable p)
    (hfetched : afterFetch disk u b (i.ringSector p) = i.ringView disk p) :
    Gets i disk files u b (fetchCurrent fp) (p % 512) files (i.ringSector p) (i.ringView disk p) := by
  have hlow := @BitVec.le_two_mul_toInt 32 i.firstDataSector
  have hbyte := hf.currentByte_eq hread.offset
  have hsum := hf.byteSector_eq hread.offset
  have hsector := hread.sector
  have hindex : (files fp).currentByte.toInt.tmod 512 = (p % 512 : Nat) := by
    rw [hbyte, ← mod_clusterSize (i := i)]
    exact (Int.ofNat_tmod _ 512).symm
  have hring : BitVec.ofInt 32 (i.byteSector (files fp)) = i.ringSector p := by
    unfold TfInfo.ringSector
    rw [hsum, BitVec.ofInt_add, BitVec.ofInt_toInt, BitVec.ofInt_natCast]
  have hfetch := @gets_fetchCurrent i disk files u b fp hf.currentCluster (by omega) (by omega)
  rw [hring, hindex, Int.toNat_natCast, hfetched] at hfetch
  exact hfetch

/-! ### The seek to the next byte -/

theorem TfFile.Scans.sought (hf : (files fp).Scans i.clusterSize p) (hp : p + 2 < 2 ^ 32) :
    ((files fp).sought i.clusterSize ((p + 1 : Nat) : Int)).Scans i.clusterSize (p + 1) := by
  have hgrown : (files fp).grown ((p + 1 : Nat) : Int) = files fp := by
    unfold TfFile.grown
    rw [if_neg]
    rw [hf.size, show (0xffffffff#32 : BitVec 32).toNat = 2 ^ 32 - 1 from rfl]
    omega
  have hidx := @toNat_ofInt_tdiv i.clusterSize (p + 1) (by omega)
  unfold clusterOf at hidx
  rw [Nat.mod_eq_of_lt (by omega : p + 1 < 2 ^ 32)] at hidx
  have hcluster : ((files fp).inCluster (BitVec.ofInt 32 (((p + 1 : Nat) : Int).tdiv
      i.clusterSize))).startCluster = 2#32 ∧ ((files fp).inCluster (BitVec.ofInt 32
        (((p + 1 : Nat) : Int).tdiv i.clusterSize))).currentCluster = 2#32 ∧
      ((files fp).inCluster (BitVec.ofInt 32 (((p + 1 : Nat) : Int).tdiv
        i.clusterSize))).size = 0xffffffff#32 := by
    unfold TfFile.inCluster
    split
    · exact ⟨hf.startCluster, hf.currentCluster, hf.size⟩
    · exact ⟨hf.startCluster, hf.startCluster, hf.size⟩
  refine ⟨?_, ?_, ?_, ?_, ?_, ?_⟩
  · rw [TfFile.sought, hgrown]
    exact hcluster.1
  · rw [TfFile.sought, hgrown]
    exact hcluster.2.1
  · rw [TfFile.sought, hgrown]
    exact hcluster.2.2
  · rw [TfFile.sought_pos, BitVec.ofInt_natCast, BitVec.toNat_ofNat]
    omega
  · change BitVec.ofInt 16 (((p + 1 : Nat) : Int).tmod i.clusterSize) = _
    rw [← Int.ofNat_tmod, BitVec.ofInt_natCast]
  · rw [TfFile.sought_currentClusterIdx, hidx]

/-- The number of the cluster behind a byte. -/
theorem TfFile.Scans.nextCluster (hspc : 0 < i.sectorsPerCluster.toNat)
    (hf : (files fp).Scans i.clusterSize p) (hp : p + 2 < 2 ^ 32) {idx : BitVec 32}
    (hidx : idx = BitVec.ofInt 32 (((p + 1 : Nat) : Int).tdiv i.clusterSize)) :
    if (p + 1) % i.clusterSize = 0 then idx ≠ (files fp).currentClusterIdx ∧ 0 < idx.toInt
    else idx = (files fp).currentClusterIdx := by
  have hbounds := TfInfo.clusterSize_bounds hspc
  have hnumber := @toNat_ofInt_tdiv i.clusterSize (p + 1) (by omega)
  unfold clusterOf at hnumber
  rw [Nat.mod_eq_of_lt (by omega : p + 1 < 2 ^ 32), ← hidx] at hnumber
  have hcurrent := hf.currentClusterIdx
  split
  · next hwrap =>
    rw [Nat.succ_div_of_mod_eq_zero hwrap] at hnumber
    have hle : p / i.clusterSize ≤ p / 512 := Nat.div_le_div_left hbounds.1 (by decide)
    refine ⟨fun heq => ?_, ?_⟩
    · rw [← heq, hnumber] at hcurrent
      exact absurd hcurrent (Nat.succ_ne_self _)
    · rw [BitVec.toInt_eq_toNat_of_lt (by omega), hnumber]
      omega
  · next hinside =>
    rw [Nat.succ_div_of_mod_ne_zero hinside, ← hcurrent] at hnumber
    exact BitVec.eq_of_toNat_eq hnumber

/-- The seek behind a byte that was read. -/
theorem gets_seekNext (hi : i.Accepted) (hf : (files fp).Scans i.clusterSize p) (hp : p + 2 < 2 ^ 32)
    (hnext : (p + 1) % i.clusterSize = 0 → i.Allocates ∧ i.Fresh disk u b) :
    Gets i disk files u b (tfFseek fp 0#32 ((p + 1 : Nat) : Int)) 0#32
      (WriteBack.set files fp ((files fp).sought i.clusterSize ((p + 1 : Nat) : Int)))
      (if (p + 1) % i.clusterSize = 0 then i.freeSector else u)
      (if (p + 1) % i.clusterSize = 0 then i.allocated disk else b) := by
  have hbounds := TfInfo.clusterSize_bounds hi.sectorsPerCluster
  have hsize : (files fp).size.toNat = 2 ^ 32 - 1 := congrArg BitVec.toNat hf.size
  have hcluster := hf.nextCluster hi.sectorsPerCluster hp rfl
  have hgrown : (files fp).grown ((p + 1 : Nat) : Int) = files fp := by
    unfold TfFile.grown
    rw [hsize, if_neg (by omega)]
  have hmove : Gets i disk files u b (moveToCluster fp
      (BitVec.ofInt 32 (((p + 1 : Nat) : Int).tdiv i.clusterSize)) tfMarkEoc32) 0#32
      (WriteBack.set files fp ((files fp).inCluster
        (BitVec.ofInt 32 (((p + 1 : Nat) : Int).tdiv i.clusterSize))))
      (if (p + 1) % i.clusterSize = 0 then i.freeSector else u)
      (if (p + 1) % i.clusterSize = 0 then i.allocated disk else b) := by
    by_cases hwrap : (p + 1) % i.clusterSize = 0
    · rw [if_pos hwrap] at hcluster
      rw [if_pos hwrap, if_pos hwrap]
      obtain ⟨hall, hfresh⟩ := hnext hwrap
      exact gets_moveToCluster hall hf.startCluster hcluster.1 hcluster.2 hfresh
    · rw [if_neg hwrap] at hcluster
      rw [if_neg hwrap, if_neg hwrap]
      unfold moveToCluster TfFile.inCluster
      apply gets_file_bind
      rw [if_pos hcluster, if_pos hcluster, WriteBack.set_eq rfl]
      exact gets_pure
  unfold tfFseek
  rw [zero_add_pos]
  refine (gets_long (by omega)).bind (gets_file_bind ?_)
  rw [hsize, if_neg (by omega)]
  unfold tfUnsafeFseek
  rw [zero_add_pos]
  apply gets_info_bind
  intro j hj
  rw [TfInfo.geometry_eq hj TfInfo.clusterSize fun _ => rfl,
    TfInfo.geometry_eq hj TfInfo.type fun _ => rfl, if_pos hi.type]
  refine (gets_long (by omega)).bind (gets_file_bind ?_)
  have hsame : Gets i disk files u b (Exec.when (((p + 1 : Nat) : Int) = ((2 ^ 32 - 1 : Nat) : Int))
      (modifyFile fp fun f => { f with
        size := f.size + 1#32, flags := f.flags ||| tfFlagSizechanged })) () files u b := by
    unfold Exec.when
    rw [if_neg (by omega)]
    exact gets_pure
  rw [hsize, if_neg (by omega)]
  refine hsame.bind ?_
  rw [if_neg (by omega)]
  refine hmove.bind ?_
  rw [if_neg (not_not_intro rfl)]
  have hset := @gets_modifyFile i disk (WriteBack.set files fp ((files fp).inCluster
    (BitVec.ofInt 32 (((p + 1 : Nat) : Int).tdiv i.clusterSize))))
    (if (p + 1) % i.clusterSize = 0 then i.freeSector else u)
    (if (p + 1) % i.clusterSize = 0 then i.allocated disk else b) fp fun f => { f with
      currentByte := BitVec.ofInt 16 (((p + 1 : Nat) : Int).tmod i.clusterSize)
      pos := BitVec.ofInt 32 ((p + 1 : Nat) : Int) }
  rw [WriteBack.set_self, WriteBack.set_set] at hset
  unfold TfFile.sought
  rw [hgrown]
  exact hset.bind gets_pure

/-! ### Runs of bytes -/

/-- The handle has come to the position, and the other ones are as they were. -/
def Scanning (i : TfInfo) (disk : Disk) (files : Handle → TfFile) (fp : Handle) (p : Nat) (s : Fs) :
    Prop :=
  ∃ f u b, f.Scans i.clusterSize p ∧ f.flags = (files fp).flags ∧
    afterFetch disk u b (i.ringSector p) = i.ringView disk p ∧
    Holding i disk (WriteBack.set files fp f) u b s

theorem TfInfo.inBuffer_succ : i.InBuffer disk (p + 1)
    (if (p + 1) % i.clusterSize = 0 then i.freeSector else i.ringSector p)
    (if (p + 1) % i.clusterSize = 0 then i.allocated disk else i.ringView disk p) := by
  unfold TfInfo.InBuffer
  rw [if_neg (Nat.succ_ne_zero p)]
  split
  · exact ⟨rfl, rfl⟩
  · exact ⟨rfl, rfl⟩

/-- A byte that can be read. -/
theorem Scanning.tfFread_succ (hi : i.Accepted) (hp : p + 2 < 2 ^ 32) (hread : i.Readable p)
    {len : Nat} (hs : Scanning i disk files fp p s) :
    Exec.Continues s (tfFread fp (len + 1)) (Scanning i disk files fp (p + 1)) (do
      let (rest, rc) ← tfFread fp len
      return (i.ringByte disk p :: rest, rc)) := by
  obtain ⟨f, u, b, hf, hflags, hfetched, hs⟩ := hs
  have hf' : ((WriteBack.set files fp f) fp).Scans i.clusterSize p := by
    rw [WriteBack.set_self]
    exact hf
  have hsize : f.size.toNat = 2 ^ 32 - 1 := congrArg BitVec.toNat hf.size
  have hnext : (f.pos + 1#32).toNat = p + 1 := by
    rw [BitVec.toNat_add, hf.pos, BitVec.toNat_ofNat]
    omega
  rw [tfFread]
  refine (gets_fetchAt hf' hread hfetched).continues_bind hs fun t ht => ?_
  have hseek := @gets_seekNext i disk (WriteBack.set files fp f) (i.ringSector p)
    (i.ringView disk p) fp p hi hf' hp fun hwrap => ⟨hread.next hwrap, TfInfo.fresh_ringView⟩
  rw [WriteBack.set_self, WriteBack.set_set] at hseek
  have hbyte : t.info.buffer (p % 512) = i.ringByte disk p := by
    rw [ht.buffer]
    rfl
  have hrest : Exec.Continues t (do
      let rc ← tfFseek fp 0#32 ((p + 1 : Nat) : Int)
      if rc ≠ 0#32 then return ([i.ringByte disk p], -1#32)
      let (rest, rc) ← tfFread fp len
      return (i.ringByte disk p :: rest, rc)) (Scanning i disk files fp (p + 1)) (do
        let (rest, rc) ← tfFread fp len
        return (i.ringByte disk p :: rest, rc)) := by
    refine hseek.continues_bind ht fun t' ht' => ?_
    rw [if_neg (not_not_intro rfl)]
    have hfound := @TfFile.Scans.sought i (WriteBack.set files fp f) fp p hf' hp
    have hflags' := @TfFile.flags_sought f i.clusterSize (p + 1)
    rw [WriteBack.set_self] at hfound
    rw [if_neg (by omega), hflags] at hflags'
    exact Exec.continues_self ⟨_, _, _, hfound, hflags',
      TfInfo.inBuffer_succ.fetched hi.sectorsPerCluster, ht'⟩
  refine Exec.continues_read_bind (Exec.continues_read_bind ?_)
  rw [hbyte, ht.handles, WriteBack.set_self, hnext]
  exact hrest

/-- The last position that a handle of the root directory comes to. -/
def lastPos : Nat := 2 ^ 32 - 2

/-- The seek behind the last position is refused. -/
theorem gets_seekLast (hf : (files fp).size = 0xffffffff#32) :
    Gets i disk files u b (tfFseek fp 0#32 ((2 ^ 32 - 1 : Nat) : Int)) tfErrInvalidSeek files u b := by
  have hsize : (files fp).size.toNat = 2 ^ 32 - 1 := congrArg BitVec.toNat hf
  unfold tfFseek
  rw [zero_add_pos]
  refine (gets_long (by omega)).bind (gets_file_bind ?_)
  rw [hsize, if_pos (by omega)]
  exact gets_pure

/-- At the last position the same byte is read over and over. -/
theorem Scanning.tfFread_last (hread : i.Readable lastPos) {len : Nat}
    (hs : Scanning i disk files fp lastPos s) :
    Exec.Continues s (tfFread fp (len + 1)) (Scanning i disk files fp lastPos)
      (pure ([i.ringByte disk lastPos], -1#32)) := by
  obtain ⟨f, u, b, hf, hflags, hfetched, hs⟩ := hs
  have hf' : ((WriteBack.set files fp f) fp).Scans i.clusterSize lastPos := by
    rw [WriteBack.set_self]
    exact hf
  have hnext : (f.pos + 1#32).toNat = 2 ^ 32 - 1 := by
    rw [BitVec.toNat_add, hf.pos]
    rfl
  rw [tfFread]
  refine (gets_fetchAt hf' hread hfetched).continues_bind hs fun t ht => ?_
  have hbyte : t.info.buffer (lastPos % 512) = i.ringByte disk lastPos := by
    rw [ht.buffer]
    rfl
  refine Exec.continues_read_bind (Exec.continues_read_bind ?_)
  rw [hbyte, ht.handles, WriteBack.set_self, hnext]
  refine (gets_seekLast hf'.size).continues_bind ht fun t' ht' => ?_
  rw [if_pos (by decide)]
  refine Exec.continues_self ⟨f, _, _, hf, hflags, ?_, ht'⟩
  unfold afterFetch
  exact if_pos rfl

/-- The bytes from a position on. -/
def TfInfo.ringBytes (i : TfInfo) (disk : Disk) (p len : Nat) : List Byte :=
  (List.range' p len).map (i.ringByte disk)

theorem Scanning.transfer (hi : i.Accepted) (len : Nat) : ∀ {p : Nat} {s : Fs}, p + len ≤ lastPos →
    (∀ q, p ≤ q → q < p + len → i.Readable q) → Scanning i disk files fp p s →
    Exec.Continues s (tfFread fp len) (Scanning i disk files fp (p + len))
      (pure (i.ringBytes disk p len, 0#32)) := by
  unfold lastPos
  induction len with
  | zero => exact fun _ _ hs => Exec.continues_self hs
  | succ len ih =>
    intro p s hp hread hs
    refine (hs.tfFread_succ hi (by omega) (hread p (Nat.le_refl p) (by omega))).trans fun t ht => ?_
    have hrest := (ih (by omega) (fun q hle hlt => hread q (by omega) (by omega)) ht).bind
      (f := fun r => pure (i.ringByte disk p :: r.1, r.2))
    rw [show p + 1 + len = p + (len + 1) by omega] at hrest
    exact hrest

/-- A transfer that does not end before the last position stops there. -/
theorem Scanning.transfer_last (hi : i.Accepted) (len : Nat) : ∀ {p : Nat} {s : Fs}, p ≤ lastPos →
    lastPos < p + len → (∀ q, p ≤ q → q ≤ lastPos → i.Readable q) →
    Scanning i disk files fp p s →
    Exec.Continues s (tfFread fp len) (Scanning i disk files fp lastPos)
      (pure (i.ringBytes disk p (lastPos + 1 - p), -1#32)) := by
  have hlast : lastPos = 2 ^ 32 - 2 := rfl
  induction len with
  | zero => exact fun hle hlt => absurd hle (by omega)
  | succ len ih =>
    intro p s hp hlen hread hs
    rcases Nat.eq_or_lt_of_le hp with rfl | hlt
    · rw [Nat.add_sub_cancel_left]
      exact hs.tfFread_last (hread lastPos (Nat.le_refl _) (Nat.le_refl _))
    · refine (hs.tfFread_succ hi (by omega) (hread p (Nat.le_refl p) hp)).trans fun t ht => ?_
      have hrest := (ih (by omega) (by omega) (fun q hle => hread q (by omega)) ht).bind
        (f := fun r => pure (i.ringByte disk p :: r.1, r.2))
      rw [show lastPos + 1 - p = lastPos + 1 - (p + 1) + 1 by omega]
      exact hrest

/-- An entry whose bytes can be read, as far as the handle comes. -/
theorem Scanning.readEntry (hi : i.Accepted) (entry : FatFileEntry) (hp : p ≤ lastPos)
    (hread : ∀ q, p ≤ q → q < p + 36 → q ≤ lastPos → i.Readable q)
    (hs : Scanning i disk files fp p s) :
    Exec.Continues s (freadEntry fp entry) (Scanning i disk files fp (min (p + 36) lastPos))
      (pure fun k => (i.ringBytes disk p (min 36 (lastPos + 1 - p))).getD k (entry k)) := by
  unfold freadEntry
  rw [sizeofFatFileEntry_eq]
  by_cases hfits : p + 36 ≤ lastPos
  · rw [Nat.min_eq_left hfits, Nat.min_eq_left (by omega)]
    exact (hs.transfer hi 36 hfits fun q hle hlt => hread q hle hlt (by omega)).bind
  · rw [Nat.min_eq_right (by omega), Nat.min_eq_right (by omega)]
    exact (hs.transfer_last hi 36 hp (by omega) fun q hle hlast =>
      hread q hle (by omega) hlast).bind

/-! ### Bytes that cannot be read -/

theorem Holding.unique {α : Type} {files' : Handle → TfFile} {u' : BitVec 32} {b' : Sector}
    {x : FsM α} {a a' : α} (hx : Gets i disk files u b x a files' u' b')
    (hs : Holding i disk files u b s) (h : x.Returns s a' s') :
    a' = a ∧ Holding i disk files' u' b' s' := by
  obtain ⟨t, hxa, ht⟩ := hx.returns hs
  obtain ⟨rfl, rfl⟩ := h.unique hxa
  exact ⟨rfl, ht⟩

/-- The entry of the next cluster was set. -/
theorem allocates_of_seekNext (hi : i.Accepted) (hf : (files fp).Scans i.clusterSize p)
    (hp : p + 2 < 2 ^ 32) (hwrap : (p + 1) % i.clusterSize = 0) (hs : Holding i disk files u b s)
    {rc : BitVec 32} (h : (tfFseek fp 0#32 ((p + 1 : Nat) : Int)).Returns s rc s') :
    i.Allocates := by
  have hsize : (files fp).size.toNat = 2 ^ 32 - 1 := congrArg BitVec.toNat hf.size
  have hcluster := hf.nextCluster hi.sectorsPerCluster hp rfl
  rw [if_pos hwrap] at hcluster
  have hcases := Seek.returns_exec (q := .fseek) h
  rw [zero_add_pos, hs.handles, hsize] at hcases
  rcases hcases with ⟨hrefused, -⟩ | ⟨-, hmoves⟩
  · exact absurd hrefused (by unfold Seek.Refuses; omega)
  · obtain ⟨mark, rc', t, hmove, -⟩ := hmoves.move
    have hgrown : (s.handles fp).grown ((p + 1 : Nat) : Int) = s.handles fp := by
      unfold TfFile.grown
      rw [hs.handles, hsize, if_neg (by omega)]
    rw [hgrown, Fs.setFile_handles,
      TfInfo.geometry_eq hs.geometry TfInfo.clusterSize fun _ => rfl] at hmove
    exact allocates_of_moveToCluster hf.startCluster hcluster.1 hcluster.2 hs hmove

/-- The place of a byte that is read is not negative, and its sector is an `int`. -/
theorem Scanning.range {len : Nat} (hs : Scanning i disk files fp p s) {r : List Byte × BitVec 32}
    (h : (tfFread fp (len + 1)).Returns s r s') (hoffset : p % i.clusterSize < 2 ^ 15) :
    i.firstDataSector.toInt + (p % i.clusterSize / 512 : Nat) < 2 ^ 31 := by
  obtain ⟨f, u, b, hf, -, -, hs⟩ := hs
  have hf' : ((WriteBack.set files fp f) fp).Scans i.clusterSize p := by
    rw [WriteBack.set_self]
    exact hf
  rw [tfFread] at h
  obtain ⟨k, t, hfetch, -⟩ := Exec.returns_bind.mp h
  obtain ⟨hsector, -⟩ := fetchCurrent_range hf'.currentCluster hs hfetch
  rw [hf'.byteSector_eq hoffset] at hsector
  exact hsector.2

/-- The first byte that is read can be read. -/
theorem Scanning.readable (hi : i.Accepted) {len : Nat} (hp : p < lastPos)
    (heven : (p + (len + 1)) % 2 = 0) (hnear : p % i.clusterSize ≤ 2 ^ 15)
    (hs : Scanning i disk files fp p s) {r : List Byte × BitVec 32}
    (h : (tfFread fp (len + 1)).Returns s r s') : i.Readable p := by
  have hp : p + 2 < 2 ^ 32 := by
    unfold lastPos at hp
    omega
  have hrange := hs.range h
  obtain ⟨f, u, b, hf, -, -, hs⟩ := hs
  have hf' : ((WriteBack.set files fp f) fp).Scans i.clusterSize p := by
    rw [WriteBack.set_self]
    exact hf
  have hnext : (f.pos + 1#32).toNat = p + 1 := by
    rw [BitVec.toNat_add, hf.pos, BitVec.toNat_ofNat]
    omega
  rw [tfFread] at h
  obtain ⟨k, t, hfetch, h⟩ := Exec.returns_bind.mp h
  obtain ⟨hsector, hindex⟩ := fetchCurrent_range hf'.currentCluster hs hfetch
  obtain ⟨-, ht⟩ := hs.unique (gets_fetchCurrent hf'.currentCluster hsector hindex) hfetch
  have h := Exec.returns_read_bind.mp (Exec.returns_read_bind.mp h)
  rw [ht.handles, WriteBack.set_self, hnext] at h
  obtain ⟨rc, t₂, hseek, h⟩ := Exec.returns_bind.mp h
  by_cases hoffset : p % i.clusterSize < 2 ^ 15
  · exact ⟨hoffset, hrange hoffset, fun hwrap => allocates_of_seekNext hi hf' hp hwrap ht hseek⟩
  · -- the next byte is at a negative place in the buffer
    exfalso
    have hlast : p % i.clusterSize = 2 ^ 15 := by omega
    have hmod := @mod_clusterSize i p
    have hbounds := TfInfo.clusterSize_bounds hi.sectorsPerCluster
    have hlt := Nat.mod_lt p (show 0 < i.clusterSize by omega)
    have hinside : (p + 1) % i.clusterSize ≠ 0 := by
      intro hwrap
      have hdiv := Nat.div_add_mod p i.clusterSize
      have hdiv' := Nat.div_add_mod (p + 1) i.clusterSize
      rw [Nat.succ_div_of_mod_eq_zero hwrap, Nat.mul_succ] at hdiv'
      have heq := @TfInfo.clusterSize_eq i
      omega
    have hbyte := succ_mod_of_ne_zero hinside
    obtain ⟨rfl, ht₂⟩ := ht.unique (gets_seekNext hi hf' hp fun hwrap => absurd hwrap hinside) hseek
    rw [if_neg (not_not_intro rfl)] at h
    obtain ⟨rest, t₃, hrest, -⟩ := Exec.returns_bind.mp h
    obtain ⟨len, rfl⟩ := Nat.exists_eq_succ_of_ne_zero (show len ≠ 0 by omega)
    have hfound := @TfFile.Scans.sought i (WriteBack.set files fp f) fp p hf' hp
    rw [Nat.succ_eq_add_one, tfFread] at hrest
    obtain ⟨k', t₄, hfetch', -⟩ := Exec.returns_bind.mp hrest
    have hindex' := (fetchCurrent_range (by rw [WriteBack.set_self]; exact hfound.currentCluster) ht₂
      hfetch').2
    rw [WriteBack.set_self, hfound.currentByte, hbyte, hlast] at hindex'
    exact absurd hindex' (by decide)

/-- The last position is not where a place in a cluster begins to be negative, nor where a cluster
ends. -/
theorem Scanning.readable_last {len : Nat} (hnear : lastPos % i.clusterSize ≤ 2 ^ 15)
    (hs : Scanning i disk files fp lastPos s) {r : List Byte × BitVec 32}
    (h : (tfFread fp (len + 1)).Returns s r s') : i.Readable lastPos := by
  have hmod := @mod_clusterSize i lastPos
  have hlast : lastPos % 512 = 510 := rfl
  have hoffset : lastPos % i.clusterSize < 2 ^ 15 := by omega
  refine ⟨hoffset, hs.range h hoffset, fun hwrap => ?_⟩
  have hmod := @mod_clusterSize i (lastPos + 1)
  rw [hwrap] at hmod
  exact absurd hmod (by decide)

/-- The next position is at most at the first place that has the sign. -/
theorem TfInfo.Readable.near (h : i.Readable p) : (p + 1) % i.clusterSize ≤ 2 ^ 15 := by
  by_cases hwrap : (p + 1) % i.clusterSize = 0
  · omega
  · rw [succ_mod_of_ne_zero hwrap]
    exact h.offset

/-- If the transfer returns, all its bytes can be read. -/
theorem Scanning.all_readable (hi : i.Accepted) (len : Nat) : ∀ {p : Nat} {s : Fs}, p ≤ lastPos →
    (p + len) % 2 = 0 → p % i.clusterSize ≤ 2 ^ 15 → Scanning i disk files fp p s →
    ∀ {r : List Byte × BitVec 32} {t : Fs}, (tfFread fp len).Returns s r t →
      ∀ q, p ≤ q → q < p + len → q ≤ lastPos → i.Readable q := by
  have hlast : lastPos = 2 ^ 32 - 2 := rfl
  induction len with
  | zero => exact fun _ _ _ _ _ _ _ q hle hlt => absurd hlt (by omega)
  | succ len ih =>
    intro p s hp heven hnear hs r t h q hle hlt hend
    rcases Nat.eq_or_lt_of_le hp with rfl | hinside
    · rw [Nat.le_antisymm hend hle]
      exact hs.readable_last hnear h
    · have hread := hs.readable hi hinside heven hnear h
      rcases Nat.eq_or_lt_of_le hle with rfl | hmore
      · exact hread
      · obtain ⟨t₁, ht₁, hiff⟩ :=
          @Scanning.tfFread_succ i disk files fp s p hi (by omega) hread len hs
        obtain ⟨rest, t₂, hrest, -⟩ := Exec.returns_bind.mp ((hiff r t).mp h)
        exact ih (by omega) (by omega) hread.near ht₁ hrest q hmore (by omega) hend

/-! ## The size of the directory -/

/-- Where the entry `k` is read: a handle that has come to the last position stays there. -/
def entryPos (k : Nat) : Nat := min (36 * k) lastPos

/-- The scan of the directory ends with the entry `n`: it begins with 0, and all bytes up to its
end can be read. -/
structure TfInfo.EndsAt (i : TfInfo) (disk : Disk) (n : Nat) : Prop where
  readable : ∀ p < 36 * (n + 1), p ≤ lastPos → i.Readable p
  zero : i.ringByte disk (entryPos n) = 0#8

theorem entryPos_le (k : Nat) : entryPos k ≤ lastPos := Nat.min_le_right _ _

theorem entryPos_succ (k : Nat) : entryPos (k + 1) = min (entryPos k + 36) lastPos := by
  unfold entryPos
  omega

/-- One round of the scan. -/
theorem Scanning.round (hi : i.Accepted) {k : Nat} (fuel : Nat) (entry : FatFileEntry)
    (hread : ∀ q, entryPos k ≤ q → q < entryPos k + 36 → q ≤ lastPos → i.Readable q)
    (hs : Scanning i disk files fp (entryPos k) s) :
    ∃ entry', Exec.Continues s (rootSize (some fp) (fuel + 1) (BitVec.ofNat 32 (36 * k)) entry)
      (Scanning i disk files fp (entryPos (k + 1)))
      (if i.ringByte disk (entryPos k) = 0#8 then pure (BitVec.ofNat 32 (36 * (k + 1)))
        else rootSize (some fp) fuel (BitVec.ofNat 32 (36 * (k + 1))) entry') := by
  have hle := entryPos_le k
  have hread' := hs.readEntry hi entry hle hread
  rw [← entryPos_succ] at hread'
  generalize hentry : (fun j => (i.ringBytes disk (entryPos k)
    (min 36 (lastPos + 1 - entryPos k))).getD j (entry j)) = entry' at hread'
  have hfirst : entry' 0 = i.ringByte disk (entryPos k) := by
    obtain ⟨len, hlen⟩ := Nat.exists_eq_succ_of_ne_zero
      (show min 36 (lastPos + 1 - entryPos k) ≠ 0 by omega)
    rw [← hentry, hlen]
    rfl
  have hsum : BitVec.ofNat 32 (36 * k) + BitVec.ofNat 32 36 = BitVec.ofNat 32 (36 * (k + 1)) := by
    rw [← BitVec.ofNat_add, Nat.mul_succ]
  refine ⟨entry', ?_⟩
  rw [rootSize, sizeofFatFileEntry_eq, hsum, ← hfirst]
  exact hread'.bind

/-- The scan returns with the first entry that begins with 0. -/
theorem Scanning.rootSize_returns (hi : i.Accepted) {n : Nat} (hends : i.EndsAt disk n) (m : Nat) :
    ∀ {k : Nat} {s : Fs} (entry : FatFileEntry), k + m = n →
      Scanning i disk files fp (entryPos k) s →
      ∃ r t p, (rootSize (some fp) (m + 1) (BitVec.ofNat 32 (36 * k)) entry).Returns s r t ∧
        Scanning i disk files fp p t := by
  have hread : ∀ {k m : Nat}, k + m = n → ∀ q, entryPos k ≤ q → q < entryPos k + 36 →
      q ≤ lastPos → i.Readable q := by
    intro k m hk q _ hlt hle
    refine hends.readable q ?_ hle
    unfold entryPos at hlt
    omega
  induction m with
  | zero =>
    intro k s entry hk hs
    obtain ⟨_, t, ht, hiff⟩ := hs.round hi 0 entry (hread hk)
    have hzero : i.ringByte disk (entryPos k) = 0#8 := by
      rw [show k = n by omega]
      exact hends.zero
    rw [if_pos hzero] at hiff
    exact ⟨_, t, _, (hiff _ t).mpr (Exec.returns_pure.mpr ⟨rfl, rfl⟩), ht⟩
  | succ m ih =>
    intro k s entry hk hs
    obtain ⟨_, t, ht, hiff⟩ := hs.round hi (m + 1) entry (hread hk)
    split at hiff
    · exact ⟨_, t, _, (hiff _ t).mpr (Exec.returns_pure.mpr ⟨rfl, rfl⟩), ht⟩
    · obtain ⟨r, t', p, hrest, ht'⟩ := ih _ (by omega) ht
      exact ⟨r, t', p, (hiff r t').mpr hrest, ht'⟩

/-- If the scan returns, it has come to its end. -/
theorem Scanning.endsAt (hi : i.Accepted) (fuel : Nat) : ∀ {k : Nat} {s s' : Fs} {entry : FatFileEntry}
    {r : BitVec 32}, (∀ q < 36 * k, q ≤ lastPos → i.Readable q) →
    Scanning i disk files fp (entryPos k) s →
    (rootSize (some fp) fuel (BitVec.ofNat 32 (36 * k)) entry).Returns s r s' →
    (∃ n, i.EndsAt disk n) ∧ ∃ p, Scanning i disk files fp p s' := by
  have hlast : lastPos = 2 ^ 32 - 2 := rfl
  induction fuel with
  | zero => exact fun _ _ h => nomatch h
  | succ fuel ih =>
    intro k s s' entry r hread hs h
    have hle := entryPos_le k
    have hpos : entryPos k = 36 * k ∨ entryPos k = lastPos ∧ lastPos < 36 * k := by
      unfold entryPos
      omega
    have hnear : entryPos k % i.clusterSize ≤ 2 ^ 15 := by
      by_cases hzero : entryPos k = 0
      · rw [hzero]
        exact Nat.le_trans (Nat.mod_le _ _) (by decide)
      · have hbefore := (hread (entryPos k - 1) (by omega) (by omega)).near
        rwa [Nat.sub_add_cancel (by omega)] at hbefore
    have hentry : ∀ q, entryPos k ≤ q → q < entryPos k + 36 → q ≤ lastPos → i.Readable q := by
      have hfirst := h
      rw [rootSize] at hfirst
      obtain ⟨_, _, hderef, hfirst⟩ := Exec.returns_bind.mp hfirst
      cases hderef
      obtain ⟨entry', t', hread', -⟩ := Exec.returns_bind.mp hfirst
      unfold freadEntry at hread'
      obtain ⟨bytes, t'', hbytes, -⟩ := Exec.returns_bind.mp hread'
      rw [sizeofFatFileEntry_eq] at hbytes
      exact hs.all_readable hi 36 (entryPos_le k) (by omega) hnear hbytes
    obtain ⟨_, t, ht, hiff⟩ := hs.round hi fuel entry hentry
    have hall : ∀ q < 36 * (k + 1), q ≤ lastPos → i.Readable q := fun q hq hle =>
      if hlt : q < 36 * k then hread q hlt hle else hentry q (by omega) (by omega) hle
    have h := (hiff r s').mp h
    split at h
    · next hzero =>
      obtain ⟨-, rfl⟩ := Exec.returns_pure.mp h
      exact ⟨⟨k, hall, hzero⟩, _, ht⟩
    · exact ih hall ht h

end

end Mavmm.Hostfs
