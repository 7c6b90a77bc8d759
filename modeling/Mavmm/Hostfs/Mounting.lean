import Mavmm.Hostfs.Handles
import Mavmm.Hostfs.RootOpening

/-!
# Mounting a volume

The boot sector is taken as it is.  A volume is mounted, or refused, without a
fault exactly where the numbers in it are such that nothing overflows and the
root directory comes to an end (`tfInit_mounts_iff`).
-/

namespace Mavmm.Hostfs

/-! ## The boot sector -/

section
variable (bpb : Sector)

/-- `fat_size`. -/
def bootFatSize : BitVec 32 :=
  let fatSize16 : BitVec 16 := BootField.fatSize16.read bpb
  if fatSize16 ≠ 0#16 then fatSize16.setWidth 32 else BootField.fatSize32.read bpb

/-- `root_dir_sectors`. -/
def bootRootDirSectors : Int :=
  ((BootField.rootEntryCount.read bpb).toNat * 32 +
    ((BootField.bytesPerSector.read bpb).toNat - 1 : Int)).tdiv 512

def bootTotalSectors : BitVec 32 :=
  let totalSectors16 : BitVec 16 := BootField.totalSectors16.read bpb
  if totalSectors16 ≠ 0#16 then totalSectors16.setWidth 32 else BootField.totalSectors32.read bpb

/-- The sectors of all FATs. -/
def bootFats : Int := (BootField.numFats.read bpb).toNat * (bootFatSize bpb).toInt

/-- The sectors in front of the data. -/
def bootFront : Int := (BootField.reservedSectorCount.read bpb).toNat + bootFats bpb +
  bootRootDirSectors bpb

/-- What `tf_init` takes from the boot sector. -/
def bootInfo : TfInfo where
  type := 1#8
  sectorsPerCluster := BootField.sectorsPerCluster.read bpb
  firstDataSector := BitVec.ofInt 32 (bootFront bpb)
  totalSectors := bootTotalSectors bpb
  reservedSectors := BootField.reservedSectorCount.read bpb
  currentSector := 0#32
  sectorFlags := 0#8
  rootDirectorySize := 0xffffffff#32
  buffer := bpb

end

/-- `cluster_count`. -/
def TfInfo.clusterCount (i : TfInfo) : Int :=
  (i.totalSectors - i.firstDataSector).toInt.tdiv i.sectorsPerCluster.toNat

/-- The end of `tf_init`, with the root directory open. -/
def scanOpened (fuel : Nat) (entry : FatFileEntry) (fp : Option Handle) : FsM (BitVec 32) := do
  let temp ← rootSize fp fuel 0#32 entry
  let _ ← tfFclose fuel (← deref fp)
  modifyInfo fun i => { i with rootDirectorySize := temp }
  return 0#32

/-- What `tf_init` does with a volume that is not refused. -/
def scanRoot (fuel : Nat) : FsM (BitVec 32) := do
  let entry ← newLocal
  scanOpened fuel entry (← tfFopen fuel rootPath "r")

section
variable {α β : Type} {i : TfInfo} {disk : Disk} {files : Handle → TfFile} {u : BitVec 32}
  {b bpb : Sector} {fp : Handle} {s s' : Fs} {r : β} {J : Fs → Prop} {fuel p : Nat}

theorem gets_modifyInfo {g : TfInfo → TfInfo} (hgeometry : ∀ i, (g i).geometry = g i.geometry)
    (hcache : ∀ i, (g i).currentSector = i.currentSector ∧ (g i).sectorFlags = i.sectorFlags ∧
      (g i).buffer = i.buffer) :
    (modifyInfo g).Leads (fun _ => True) (Holding i disk files u b) ()
      (Holding (g i) disk files u b) := by
  refine fun s h => ⟨[], _, rfl, ⟨h.errorFree, ?_, ?_, h.handles⟩, fun _ _ => trivial⟩
  · exact (hgeometry s.info).trans ((congrArg g h.geometry).trans (hgeometry i).symm)
  · obtain ⟨hsector, hflags, hbuffer⟩ := hcache s.info
    rw [← h.cache]
    unfold Fs.cache Fs.dirty
    dsimp only
    rw [hsector, hflags, hbuffer]

/-- The boot sector is read, whatever was in the buffer. -/
theorem gets_fetchBootSector (h : s.ErrorFree) : ∃ t, fetchBootSector s = ([], .ok (0#32, t)) ∧
    Holding s.info s.disk s.handles 0#32 (s.disk 0#32) t := by
  let s₁ : Fs := { s with info := { s.info with currentSector := -1#32, sectorFlags := 0#8 } }
  have hs₁ : Holding s.info s.disk s.handles (-1#32) s.info.buffer s₁ := ⟨h, rfl,
    Fs.cache_eq (s := s₁) (by decide : flagged 0#8 tfFlagDirty = false), rfl⟩
  exact ⟨_, run_tfFetch (s := s₁) h 0#32, hs₁.fetched 0#32⟩

theorem continues_run_bind {x : FsM α} {f : α → FsM β} {a : α} {t : Fs} {y : FsM β}
    (hx : x s = ([], .ok (a, t))) (hf : Exec.Continues t (f a) J y) :
    Exec.Continues s (x >>= f) J y := by
  obtain ⟨t', ht', hiff⟩ := hf
  refine ⟨t', ht', fun b s' => ?_⟩
  unfold Exec.Returns
  rw [Exec.run_bind hx]
  exact hiff b s'

/-- The boot sector does not overflow any number, and its clusters are not empty. -/
structure BootFits (bpb : Sector) : Prop where
  fats : -2 ^ 31 ≤ bootFats bpb ∧ bootFats bpb < 2 ^ 31
  front : -2 ^ 31 ≤ bootFront bpb ∧ bootFront bpb < 2 ^ 31
  sectorsPerCluster : 0 < (bootInfo bpb).sectorsPerCluster.toNat

/-- After the boot sector was read the volume is refused, or its root directory is read. -/
theorem continues_tfInit (fuel : Nat) (h : s.ErrorFree) (hfits : BootFits (s.disk 0#32)) :
    Exec.Continues s (tfInit fuel) (fun t => 65525 ≤ (bootInfo (s.disk 0#32)).clusterCount →
        Holding (bootInfo (s.disk 0#32)) s.disk s.handles 0#32 (s.disk 0#32) t)
      (if (bootInfo (s.disk 0#32)).clusterCount < 65525 then pure tfErrBadFsType
        else scanRoot fuel) := by
  obtain ⟨t, hfetch, ht⟩ := gets_fetchBootSector h
  generalize s.disk 0#32 = bpb at *
  have hspc : ¬ (BootField.sectorsPerCluster.read bpb : BitVec 8) = 0#8 := by
    intro hzero
    have hpos : 0 < (BootField.sectorsPerCluster.read bpb : BitVec 8).toNat :=
      hfits.sectorsPerCluster
    rw [hzero] at hpos
    exact absurd hpos (by decide)
  unfold tfInit
  refine continues_run_bind hfetch (Exec.continues_read_bind ?_)
  rw [ht.buffer]
  refine (gets_modifyInfo (g := fun i => { i with totalSectors := bootTotalSectors bpb })
    (fun _ => rfl) fun _ => ⟨rfl, rfl, rfl⟩).continues_bind ht fun t₁ ht₁ => ?_
  refine continues_int_bind (x := bootFats bpb) hfits.fats ?_
  rw [toInt_ofInt hfits.fats]
  refine continues_int_bind (x := bootFront bpb) hfits.front ?_
  refine (gets_modifyInfo (g := fun i => { i with
    sectorsPerCluster := BootField.sectorsPerCluster.read bpb }) (fun _ => rfl)
    fun _ => ⟨rfl, rfl, rfl⟩).continues_bind ht₁ fun t₂ ht₂ => ?_
  dsimp only
  split
  · next hzero => exact absurd hzero hspc
  refine (gets_modifyInfo (g := fun i => { i with
    reservedSectors := BootField.reservedSectorCount.read bpb
    firstDataSector := BitVec.ofInt 32 (bootFront bpb) }) (fun _ => rfl)
    fun _ => ⟨rfl, rfl, rfl⟩).continues_bind ht₂ fun t₃ ht₃ => ?_
  change Exec.Continues t₃ (if (bootInfo bpb).clusterCount < 65525 then _ else _) _ _
  split
  · next hrefused => exact Exec.continues_self fun hcount => absurd hcount (Int.not_le.mpr hrefused)
  · refine (gets_modifyInfo (g := fun i => { i with
      type := 1#8, rootDirectorySize := 0xffffffff#32 }) (fun _ => rfl)
      fun _ => ⟨rfl, rfl, rfl⟩).continues_bind ht₃ fun t₄ ht₄ => Exec.continues_self fun _ => ?_
    exact ⟨ht₄.errorFree, ht₄.geometry.trans rfl, ht₄.cache, ht₄.handles⟩

/-- If mounting comes to an end, nothing overflows. -/
theorem bootFits_of_tfInit (h : s.ErrorFree) {rc : BitVec 32} (hrun : (tfInit fuel).Returns s rc s') :
    BootFits (s.disk 0#32) := by
  obtain ⟨t, hfetch, ht⟩ := gets_fetchBootSector h
  generalize s.disk 0#32 = bpb at *
  unfold tfInit Exec.Returns at hrun
  rw [Exec.run_bind hfetch] at hrun
  have hrun := Exec.returns_read_bind.mp hrun
  rw [ht.buffer] at hrun
  have hrun := Exec.returns_modify_bind.mp hrun
  obtain ⟨hfats, hrun⟩ := returns_int_bind (x := bootFats bpb).mp hrun
  rw [toInt_ofInt hfats] at hrun
  obtain ⟨hfront, hrun⟩ := returns_int_bind (x := bootFront bpb).mp hrun
  refine ⟨hfats, hfront, Nat.pos_of_ne_zero fun hzero => ?_⟩
  have hspc : (BootField.sectorsPerCluster.read bpb : BitVec 8) = 0#8 := BitVec.eq_of_toNat_eq hzero
  have hrun := Exec.returns_modify_bind.mp hrun
  dsimp only at hrun
  split at hrun
  · cases hrun
  · next hpos => exact hpos hspc

/-! ## The root directory -/

/-- The volume has been mounted with these numbers. -/
def Mounted (i : TfInfo) (s : Fs) : Prop :=
  ∃ size, HasGeometry { i with rootDirectorySize := size } s

/-- With the size of the directory the rest is done. -/
theorem Scanning.mounted {m : Nat} (hflags : flagged (files fp).flags tfFlagDirty = false)
    (hs : Scanning i disk files fp p s) (size : BitVec 32) :
    ∃ s', (do
      let _ ← tfFclose (m + 1) fp
      modifyInfo fun i => { i with rootDirectorySize := size }
      return 0#32).Returns s 0#32 s' ∧ Mounted i s' := by
  obtain ⟨f, u, b, -, hf, -, hs⟩ := hs
  have hclean : flagged (WriteBack.set files fp f fp).flags tfFlagDirty = false := by
    rw [WriteBack.set_self, hf]
    exact hflags
  have hdone : (do
      let _ ← tfFclose (m + 1) fp
      modifyInfo fun i => { i with rootDirectorySize := size }
      return 0#32).Leads (fun _ => True) (Holding i disk (WriteBack.set files fp f) u b) 0#32
        (Mounted i) := by
    refine (gets_tfFclose_clean hclean).bind ?_
    refine (gets_modifyInfo (g := fun i => { i with rootDirectorySize := size }) (fun _ => rfl)
      fun _ => ⟨rfl, rfl, rfl⟩).bind ?_
    exact Exec.leads_pure fun t ht => ⟨size, ht.geometry⟩
  exact hdone.returns hs

theorem scanOpened_returns (hi : i.Accepted) (hflags : flagged (files fp).flags tfFlagDirty = false)
    {n : Nat} (hends : i.EndsAt disk n) (entry : FatFileEntry) (hs : Scanning i disk files fp 0 s) :
    ∃ s', (scanOpened (n + 1) entry (some fp)).Returns s 0#32 s' ∧ Mounted i s' := by
  obtain ⟨size, t, p, hsize, ht⟩ := hs.rootSize_returns hi hends n entry (Nat.zero_add n)
  obtain ⟨s', hdone, hmounted⟩ := ht.mounted hflags size (m := n)
  exact ⟨s', Exec.returns_bind.mpr ⟨size, t, hsize, hdone⟩, hmounted⟩

theorem scanOpened_ends (hi : i.Accepted) (hflags : flagged (files fp).flags tfFlagDirty = false)
    {entry : FatFileEntry} {rc : BitVec 32} (hs : Scanning i disk files fp 0 s)
    (h : (scanOpened fuel entry (some fp)).Returns s rc s') :
    (∃ n, i.EndsAt disk n) ∧ rc = 0#32 ∧ Mounted i s' := by
  unfold scanOpened at h
  obtain ⟨size, t, hsize, h⟩ := Exec.returns_bind.mp h
  obtain ⟨hends, p, ht⟩ :=
    Scanning.endsAt hi fuel (k := 0) (fun q hq => absurd hq (by omega)) hs hsize
  cases fuel with
  | zero => cases hsize
  | succ m =>
    obtain ⟨s'', hdone, hmounted⟩ := ht.mounted hflags size (m := m)
    obtain ⟨rfl, rfl⟩ := Exec.Returns.unique h hdone
    exact ⟨hends, rfl, hmounted⟩

theorem continues_scanRoot {m : Nat} {fp' : Handle} (hi : i.Accepted)
    (hfree : firstFree files = some fp)
    (hfree' : ∀ f : TfFile, f.flags = tfFlagOpen ||| tfFlagRoot →
      firstFree (WriteBack.set files fp f) = some fp')
    (hs : Holding i disk files u (disk u) s) :
    ∃ entry, Exec.Continues s (scanRoot (m + 1)) (fun t => ∃ files',
      flagged (files' fp').flags tfFlagDirty = false ∧ Scanning i disk files' fp' 0 t)
      (scanOpened (m + 1) entry (some fp')) := by
  refine ⟨s.locals 0, ?_⟩
  unfold scanRoot
  have hs' : Holding i disk files u (disk u) { s with locals := fun n => s.locals (n + 1) } :=
    ⟨hs.errorFree, hs.geometry, hs.cache, hs.handles⟩
  refine (leads_tfFopen_root ends_rootPath rfl hfree hfree').continues_bind hs' ?_
  rintro t ⟨f, g, hg, hflags, ht⟩
  refine Exec.continues_self ⟨WriteBack.set (WriteBack.set files fp f) fp' g, ?_, g, u, disk u, hg,
    ?_, ?_, ?_⟩
  · rw [WriteBack.set_self, hflags]
    decide
  · rw [WriteBack.set_self]
  · have hbuffer : i.InBuffer disk 0 u (disk u) := by
      unfold TfInfo.InBuffer
      rw [if_pos rfl]
    exact hbuffer.fetched hi.sectorsPerCluster
  · rw [WriteBack.set_set]
    exact ht

/-! ## The clusters -/

/-- The first sector of a cluster. -/
def Fs.Begins (s : Fs) (c first : Nat) : Prop :=
  ∃ sector s', (tfFirstSector (BitVec.ofNat 32 c)).Returns s sector s' ∧ sector.toNat = first

/-- The number of a data cluster. -/
def TfInfo.Numbers (i : TfInfo) (c : Nat) : Prop := 2 ≤ c ∧ c ≤ i.clusterCount + 1

/-- The data sectors are divided into clusters. -/
structure Fs.Divided (s : Fs) : Prop where
  sectorsPerCluster : 0 < s.info.sectorsPerCluster.toNat
  inside : ∀ c, s.info.Numbers c → ∃ first, s.Begins c first ∧
    s.info.firstDataSector.toNat ≤ first ∧
    first + s.info.sectorsPerCluster.toNat ≤ s.info.totalSectors.toNat
  disjoint : ∀ {c c' first first'}, s.info.Numbers c → s.info.Numbers c' → c ≠ c' →
    s.Begins c first → s.Begins c' first' →
    first + s.info.sectorsPerCluster.toNat ≤ first' ∨ first' + s.info.sectorsPerCluster.toNat ≤ first

/-- The first sector of a cluster, where it is an `int`. -/
theorem begins_iff {c first : Nat} : s.Begins c first ↔
    -2 ^ 31 ≤ (BitVec.ofNat 32 c).toInt - 2 ∧
    (-2 ^ 31 ≤ ((BitVec.ofNat 32 c).toInt - 2) * s.info.sectorsPerCluster.toNat ∧
      ((BitVec.ofNat 32 c).toInt - 2) * s.info.sectorsPerCluster.toNat < 2 ^ 31) ∧
    (BitVec.ofInt 32 (((BitVec.ofNat 32 c).toInt - 2) * s.info.sectorsPerCluster.toNat) +
      s.info.firstDataSector).toNat = first := by
  have hhigh := @BitVec.two_mul_toInt_lt 32 (BitVec.ofNat 32 c)
  have hreturns : ∀ sector s', (tfFirstSector (BitVec.ofNat 32 c)).Returns s sector s' ↔
      (-2 ^ 31 ≤ (BitVec.ofNat 32 c).toInt - 2 ∧ (BitVec.ofNat 32 c).toInt - 2 < 2 ^ 31) ∧
      (-2 ^ 31 ≤ (BitVec.ofInt 32 ((BitVec.ofNat 32 c).toInt - 2)).toInt *
          s.info.sectorsPerCluster.toNat ∧
        (BitVec.ofInt 32 ((BitVec.ofNat 32 c).toInt - 2)).toInt *
          s.info.sectorsPerCluster.toNat < 2 ^ 31) ∧
      BitVec.ofInt 32 ((BitVec.ofInt 32 ((BitVec.ofNat 32 c).toInt - 2)).toInt *
        s.info.sectorsPerCluster.toNat) + s.info.firstDataSector = sector ∧ s = s' := by
    intro sector s'
    unfold tfFirstSector info
    rw [Exec.returns_read_bind, returns_int_bind, returns_int_bind, Exec.returns_pure]
  unfold Fs.Begins
  constructor
  · rintro ⟨sector, s', hsector, rfl⟩
    obtain ⟨hnumber, hsectors, rfl, -⟩ := (hreturns sector s').mp hsector
    rw [toInt_ofInt hnumber] at hsectors ⊢
    exact ⟨hnumber.1, hsectors, rfl⟩
  · rintro ⟨hnumber, hsectors, rfl⟩
    have hnumber : -2 ^ 31 ≤ (BitVec.ofNat 32 c).toInt - 2 ∧
        (BitVec.ofNat 32 c).toInt - 2 < 2 ^ 31 := ⟨hnumber, by omega⟩
    refine ⟨_, s, (hreturns _ s).mpr ⟨hnumber, ?_, rfl, rfl⟩, ?_⟩
    · rw [toInt_ofInt hnumber]
      exact hsectors
    · rw [toInt_ofInt hnumber]

/-- The clusters before a number are in the data sectors. -/
theorem TfInfo.Numbers.sectors {c : Nat} (hspc : 0 < i.sectorsPerCluster.toNat)
    (hle : i.firstDataSector.toNat ≤ i.totalSectors.toNat) (hc : i.Numbers c) :
    i.firstDataSector.toNat + (c - 2) * i.sectorsPerCluster.toNat + i.sectorsPerCluster.toNat ≤
      i.totalSectors.toNat ∧ i.totalSectors.toNat - i.firstDataSector.toNat < 2 ^ 31 := by
  obtain ⟨htwo, hlast⟩ := hc
  have hdiff := BitVec.toNat_sub_of_le (BitVec.le_def.mpr hle)
  have hdivided := Int.tdiv_mul_le (i.totalSectors - i.firstDataSector).toInt
    (b := i.sectorsPerCluster.toNat) (by omega)
  have hclusters : (((c - 2) + 1 : Nat) : Int) * i.sectorsPerCluster.toNat ≤
      i.clusterCount * i.sectorsPerCluster.toNat :=
    Int.mul_le_mul_of_nonneg_right (by omega) (by omega)
  rw [← Int.natCast_mul, Nat.succ_mul] at hclusters
  unfold clusterCount at hclusters
  rw [Int.natAbs_natCast] at hdivided
  have hcond := BitVec.toInt_eq_toNat_cond (i.totalSectors - i.firstDataSector)
  generalize (i.totalSectors - i.firstDataSector).toInt = d at *
  generalize (c - 2) * i.sectorsPerCluster.toNat = n at *
  rw [hdiff] at hcond
  split at hcond
  · split at hdivided
    · omega
    · omega
  · split at hdivided
    · omega
    · omega

theorem begins_of_numbers {c first : Nat} (hspc : 0 < s.info.sectorsPerCluster.toNat)
    (hle : s.info.firstDataSector.toNat ≤ s.info.totalSectors.toNat)
    (hint : s.info.clusterCount + 1 < 2 ^ 31) (hc : s.info.Numbers c) :
    s.Begins c first ↔
      s.info.firstDataSector.toNat + (c - 2) * s.info.sectorsPerCluster.toNat = first := by
  obtain ⟨hsectors, hlt⟩ := hc.sectors hspc hle
  obtain ⟨htwo, hlast⟩ := hc
  have hcluster : (BitVec.ofNat 32 c).toInt - 2 = (c - 2 : Nat) := by
    have hvalue : (BitVec.ofNat 32 c).toNat = c := by
      rw [BitVec.toNat_ofNat, Nat.mod_eq_of_lt (by omega)]
    rw [BitVec.toInt_eq_toNat_of_lt (by omega), hvalue]
    omega
  have htotal := s.info.totalSectors.isLt
  rw [begins_iff, hcluster, ← Int.natCast_mul, BitVec.ofInt_natCast, BitVec.toNat_add,
    BitVec.toNat_ofNat]
  omega

/-- The volume is divided into its clusters if its data begin before its end. -/
theorem divided_of_le (hspc : 0 < s.info.sectorsPerCluster.toNat)
    (hle : s.info.firstDataSector.toNat ≤ s.info.totalSectors.toNat)
    (hint : s.info.clusterCount + 1 < 2 ^ 31) : s.Divided := by
  refine ⟨hspc, fun c hc => ⟨_, (begins_of_numbers hspc hle hint hc).mpr rfl, Nat.le_add_right _ _,
    (hc.sectors hspc hle).1⟩, ?_⟩
  intro c c' first first' hc hc' hne hfirst hfirst'
  rw [begins_of_numbers hspc hle hint hc] at hfirst
  rw [begins_of_numbers hspc hle hint hc'] at hfirst'
  have hmul : ∀ {m n : Nat}, m < n → m * s.info.sectorsPerCluster.toNat +
      s.info.sectorsPerCluster.toNat ≤ n * s.info.sectorsPerCluster.toNat := by
    intro m n hlt
    rw [← Nat.succ_mul]
    exact Nat.mul_le_mul_right _ hlt
  rcases Nat.lt_or_gt_of_ne hne with hlt | hlt
  · have hmul := hmul (show c - 2 < c' - 2 by have := hc.1; omega)
    omega
  · have hmul := hmul (show c' - 2 < c - 2 by have := hc'.1; omega)
    omega

/-- Cluster 2 is behind the front, and the number of the last one is an `int`. -/
theorem Fs.Divided.fits (h : s.Divided) (hcount : 1 ≤ s.info.clusterCount) :
    s.info.firstDataSector.toNat ≤ s.info.totalSectors.toNat ∧
      s.info.clusterCount + 1 < 2 ^ 31 := by
  obtain ⟨first, -, hbegin, hend⟩ := h.inside 2 ⟨Nat.le_refl 2, by omega⟩
  have hle : s.info.firstDataSector.toNat ≤ s.info.totalSectors.toNat := by omega
  refine ⟨hle, Int.not_le.mp fun hlarge => ?_⟩
  have hlast : s.info.Numbers (s.info.clusterCount + 1).toNat := ⟨by omega, by omega⟩
  obtain ⟨hsectors, hlt⟩ := hlast.sectors h.sectorsPerCluster hle
  have hmul := Nat.le_mul_of_pos_right ((s.info.clusterCount + 1).toNat - 2) h.sectorsPerCluster
  have hnumber : (s.info.clusterCount + 1).toNat = 2 ^ 31 := by
    have hspc := h.sectorsPerCluster
    omega
  obtain ⟨first', hbegins, -⟩ := h.inside _ hlast
  rw [hnumber] at hbegins
  exact absurd (begins_iff.mp hbegins).1 (by decide)

/-! ## Mounting -/

/-- Mounting comes to an end, and the volume is refused or divided into its clusters. -/
def Fs.Mounts (s : Fs) : Prop :=
  ∃ fuel rc s', (tfInit fuel).Returns s rc s' ∧ (rc ≠ 0#32 ∨ s'.Divided)

/-- The volume is as large as it says, and its root directory comes to an end. -/
structure TfInfo.RootFits (i : TfInfo) (disk : Disk) : Prop where
  front : i.firstDataSector.toNat ≤ i.totalSectors.toNat
  clusters : i.clusterCount + 1 < 2 ^ 31
  ends : ∃ n, i.EndsAt disk n

/-- What the boot sector, the root directory and the handles have to be like. -/
structure Fs.Mountable (s : Fs) : Prop where
  boot : BootFits (s.disk 0#32)
  free : 65525 ≤ (bootInfo (s.disk 0#32)).clusterCount → TwoFree s.handles
  root : 65525 ≤ (bootInfo (s.disk 0#32)).clusterCount → (bootInfo (s.disk 0#32)).RootFits s.disk

theorem BootFits.accepted (h : BootFits bpb) : (bootInfo bpb).Accepted :=
  ⟨(by decide : (1#8 : BitVec 8) ≠ 0#8), h.sectorsPerCluster⟩

theorem Mounted.geometry (h : Mounted i s) : s.info.sectorsPerCluster = i.sectorsPerCluster ∧
    s.info.firstDataSector = i.firstDataSector ∧ s.info.totalSectors = i.totalSectors := by
  obtain ⟨size, h⟩ := h
  exact ⟨TfInfo.geometry_eq h TfInfo.sectorsPerCluster fun _ => rfl,
    TfInfo.geometry_eq h TfInfo.firstDataSector fun _ => rfl,
    TfInfo.geometry_eq h TfInfo.totalSectors fun _ => rfl⟩

theorem Mounted.clusterCount (h : Mounted i s) : s.info.clusterCount = i.clusterCount := by
  unfold TfInfo.clusterCount
  rw [h.geometry.1, h.geometry.2.1, h.geometry.2.2]

/-- Two handles were free if the root directory was opened. -/
theorem twoFree_of_scanRoot {rc : BitVec 32} (hs : Holding i disk files u b s)
    (h : (scanRoot fuel).Returns s rc s') : (∃ m, fuel = m + 1) ∧ TwoFree files := by
  have hs' : Holding i disk files u b { s with locals := fun n => s.locals (n + 1) } :=
    ⟨hs.errorFree, hs.geometry, hs.cache, hs.handles⟩
  unfold scanRoot at h
  obtain ⟨entry, t, hlocal, h⟩ := Exec.returns_bind.mp h
  cases hlocal
  obtain ⟨fp', t, hopen, -⟩ := Exec.returns_bind.mp h
  unfold tfFopen at hopen
  obtain ⟨t₁, ht₁, hopen⟩ := (gets_strlen ends_rootPath (by decide)).returns_bind hs' hopen
  obtain ⟨r, t₂, hfirst, hopen⟩ := Exec.returns_bind.mp hopen
  obtain ⟨⟨m, rfl⟩, fp, hfree⟩ := entered_tfFnopen ht₁ hfirst
  have hopened := @leads_tfFnopen_root i disk files u b fp m 1 rootPath "r" (by decide) (by decide)
    (isRoot_copy ends_rootPath rfl) hfree
  obtain ⟨t₂', hfirst', f, -, hflags, ht₂⟩ := hopened.returns ht₁
  obtain ⟨rfl, rfl⟩ := hfirst.unique hfirst'
  obtain ⟨_, t₃, hwhen, hopen⟩ := Exec.returns_bind.mp hopen
  unfold Exec.when at hwhen
  rw [if_neg fun h => nomatch h.1] at hwhen
  obtain ⟨-, rfl⟩ := Exec.returns_pure.mp hwhen
  obtain ⟨-, fp', hfree'⟩ := entered_tfFnopen ht₂ hopen
  have hne : fp' ≠ fp := by
    rintro rfl
    have hopened := firstFree_free hfree'
    rw [WriteBack.set_self, hflags] at hopened
    exact absurd hopened (by decide)
  have hfree'' := firstFree_free hfree'
  rw [WriteBack.set_ne hne] at hfree''
  exact ⟨⟨m, rfl⟩, fp, fp', hne.symm, firstFree_free hfree, hfree''⟩

/-- What is known where the root directory was read. -/
theorem continues_scanRoot_twoFree {m : Nat} (hi : i.Accepted) (htwo : TwoFree files)
    (hs : Holding i disk files u (disk u) s) :
    ∃ entry fp', Exec.Continues s (scanRoot (m + 1)) (fun t => ∃ files',
      flagged (files' fp').flags tfFlagDirty = false ∧ Scanning i disk files' fp' 0 t)
      (scanOpened (m + 1) entry (some fp')) := by
  obtain ⟨fp, hfree⟩ := htwo.firstFree
  obtain ⟨fp', hfree'⟩ := htwo.next fp { files fp with flags := tfFlagOpen ||| tfFlagRoot }
  obtain ⟨entry, hcontinues⟩ := continues_scanRoot (m := m) hi hfree
    (fun f hf => (firstFree_set hf).trans hfree') hs
  exact ⟨entry, fp', hcontinues⟩

theorem tfInit_mounts_iff (h : s.ErrorFree) : s.Mounts ↔ s.Mountable := by
  constructor
  · rintro ⟨fuel, rc, s', hrun, hmounts⟩
    have hfits := bootFits_of_tfInit h hrun
    obtain ⟨t, ht, hiff⟩ := continues_tfInit fuel h hfits
    have hscan : 65525 ≤ (bootInfo (s.disk 0#32)).clusterCount →
        TwoFree s.handles ∧ (bootInfo (s.disk 0#32)).RootFits s.disk := by
      intro hcount
      have hs := ht hcount
      have hrest := (hiff rc s').mp hrun
      rw [if_neg (Int.not_lt.mpr hcount)] at hrest
      obtain ⟨⟨m, rfl⟩, htwo⟩ := twoFree_of_scanRoot hs hrest
      obtain ⟨entry, fp', t', ⟨files', hflags, ht'⟩, hiff'⟩ :=
        continues_scanRoot_twoFree (m := m) hfits.accepted htwo hs
      obtain ⟨hends, rfl, hmounted⟩ :=
        scanOpened_ends hfits.accepted hflags ht' ((hiff' rc s').mp hrest)
      have hdivided := (hmounts.resolve_left (not_not_intro rfl)).fits (by
        rw [hmounted.clusterCount]
        omega)
      rw [hmounted.clusterCount, hmounted.geometry.2.1, hmounted.geometry.2.2] at hdivided
      exact ⟨htwo, hdivided.1, hdivided.2, hends⟩
    exact ⟨hfits, fun hcount => (hscan hcount).1, fun hcount => (hscan hcount).2⟩
  · intro hmountable
    by_cases hcount : 65525 ≤ (bootInfo (s.disk 0#32)).clusterCount
    · obtain ⟨hfront, hclusters, n, hends⟩ := hmountable.root hcount
      obtain ⟨t, ht, hiff⟩ := continues_tfInit (n + 1) h hmountable.boot
      rw [if_neg (Int.not_lt.mpr hcount)] at hiff
      obtain ⟨entry, fp', t', ⟨files', hflags, ht'⟩, hiff'⟩ :=
        continues_scanRoot_twoFree (m := n) hmountable.boot.accepted (hmountable.free hcount)
          (ht hcount)
      obtain ⟨s', hrun, hmounted⟩ :=
        scanOpened_returns hmountable.boot.accepted hflags hends entry ht'
      refine ⟨n + 1, 0#32, s', (hiff _ _).mpr ((hiff' _ _).mpr hrun), Or.inr ?_⟩
      apply divided_of_le
      · rw [hmounted.geometry.1]
        exact hmountable.boot.sectorsPerCluster
      · rw [hmounted.geometry.2.1, hmounted.geometry.2.2]
        exact hfront
      · rw [hmounted.clusterCount]
        exact hclusters
    · obtain ⟨t, -, hiff⟩ := continues_tfInit 0 h hmountable.boot
      rw [if_pos (Int.not_le.mp hcount)] at hiff
      exact ⟨0, tfErrBadFsType, t, (hiff _ _).mpr (Exec.returns_pure.mpr ⟨rfl, rfl⟩),
        Or.inl (by decide)⟩

end

/-- A boot sector of 70000 sectors, one for each cluster; it is in every sector of the disk, and
begins with a zero. -/
def emptyVolume : Disk := fun _ =>
  Bytes.putWord (Bytes.put (Bytes.put (fun _ => 0#8) BootField.sectorsPerCluster.offset 1#8)
    BootField.reservedSectorCount.offset 32#8) 4 BootField.totalSectors32.offset 70000#32

def Fs.empty : Fs := { Fs.blank with disk := emptyVolume }

theorem tfInit_mounts_iff_empty : 65525 ≤ (bootInfo (Fs.empty.disk 0#32)).clusterCount ∧
    Fs.empty.Mounts := by
  have hfree : TwoFree Fs.empty.handles := ⟨⟨0, by decide⟩, ⟨1, by decide⟩, by decide,
    (by decide : flagged 0#8 tfFlagOpen = false), (by decide : flagged 0#8 tfFlagOpen = false)⟩
  have hends : (bootInfo (Fs.empty.disk 0#32)).EndsAt Fs.empty.disk 0 := by
    have hfront : (bootInfo (Fs.empty.disk 0#32)).firstDataSector = 32#32 := by decide
    have hsize : (bootInfo (Fs.empty.disk 0#32)).clusterSize = 512 := by decide
    refine ⟨fun p hp _ => ⟨?_, ?_, fun hwrap => ?_⟩, ?_⟩
    · rw [hsize]
      omega
    · rw [hsize, hfront, show (32#32 : BitVec 32).toInt = 32 by decide]
      omega
    · rw [hsize] at hwrap
      omega
    · decide
  exact ⟨by decide, (tfInit_mounts_iff fun _ => rfl).mpr ⟨⟨by decide, by decide, by decide⟩,
    fun _ => hfree, fun _ => ⟨by decide, by decide, 0, hends⟩⟩⟩

/-- A boot sector of zeros has no sectors for a cluster: the division by them fails. -/
theorem tfInit_divides_by_zero : Fs.blank.ErrorFree ∧
    (tfInit 1 Fs.blank).2 = .error .divideError ∧ ¬ Fs.blank.Mounts := by
  refine ⟨fun _ => rfl, rfl, ?_⟩
  rintro ⟨fuel, rc, s', hrun, -⟩
  exact absurd (bootFits_of_tfInit (fun _ => rfl) hrun).sectorsPerCluster (by decide)

end Mavmm.Hostfs
