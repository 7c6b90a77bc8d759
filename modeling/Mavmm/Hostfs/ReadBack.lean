import Mavmm.Lib.Ring
import Mavmm.Hostfs.Volume

/-!
# Reading back what was written

A handle never leaves the first cluster of its file: a position behind it is
one in the first cluster again, so that a file is a ring of as many bytes as a
cluster has.  A string is read back as it was written exactly when the bytes
that fall into one place of the ring are the same, and when the size of the
file does not overflow (`tfFwrite_readsBack_iff`), as long as its places in the
cluster are numbers of the type `short`.
-/

namespace Mavmm.Hostfs

section
variable {i : TfInfo} {vol : Disk} {files : Handle → TfFile} {fp : Handle} {c : BitVec 32}
  {last : Nat}

/-! ## Seeks -/

theorem does_moveToCluster (hi : i.Fat32) (hc : i.IsCluster (files fp).startCluster)
    (idx : BitVec 32) : Does last i vol files (moveToCluster fp idx tfMarkEoc32) 0#32 vol
      (WriteBack.set files fp ((files fp).inCluster idx)) := by
  unfold moveToCluster TfFile.inCluster
  apply does_file_bind
  split
  · rw [WriteBack.set_eq rfl]
    exact does_pure
  · refine (does_modifyFile _).bind (does_seekCluster hi ?_ _)
    rw [WriteBack.set_self]
    exact hc

/-- Every seek up to the end of the file succeeds. -/
theorem does_tfUnsafeFseek (hi : i.Fat32) (hc : i.IsCluster (files fp).startCluster)
    {base : BitVec 32} {offset : Int} {p : Nat} (hsum : base.toInt + offset = p)
    (hle : p ≤ (files fp).size.toNat) :
    Does last i vol files (tfUnsafeFseek fp base offset) 0#32 vol
      (WriteBack.set files fp ((files fp).sought i.clusterSize p)) := by
  have hlt := (files fp).size.isLt
  unfold tfUnsafeFseek
  apply does_info_bind
  intro j hj
  rw [TfInfo.geometry_eq hj TfInfo.clusterSize fun _ => rfl,
    TfInfo.geometry_eq hj TfInfo.type fun _ => rfl, if_pos hi.type]
  rw [hsum]
  refine (does_long (by omega)).bind (does_file_bind ?_)
  have hle' : ¬ ((files fp).size.toNat : Int) < p := Int.not_lt.mpr (Int.ofNat_le.mpr hle)
  rw [if_neg hle', if_neg hi.clusterSize_pos.ne']
  have hgrow : Does last i vol files (Exec.when ((p : Int) = (files fp).size.toNat) (modifyFile fp fun f =>
      { f with size := f.size + 1#32, flags := f.flags ||| tfFlagSizechanged })) () vol
      (WriteBack.set files fp ((files fp).grown p)) := by
    unfold Exec.when TfFile.grown
    split
    · exact does_modifyFile _
    · rw [WriteBack.set_eq rfl]
      exact does_pure
  have hstart : ((files fp).grown p).startCluster = (files fp).startCluster := by
    unfold TfFile.grown
    split <;> rfl
  refine hgrow.bind ?_
  refine (does_moveToCluster hi ?_ _).bind ?_
  · rw [WriteBack.set_self, hstart]
    exact hc
  · rw [if_neg (not_not_intro rfl), WriteBack.set_self, WriteBack.set_set]
    refine (does_modifyFile _).bind ?_
    rw [WriteBack.set_self, WriteBack.set_set]
    exact does_pure

theorem does_tfFseek (hi : i.Fat32) (hc : i.IsCluster (files fp).startCluster)
    {base : BitVec 32} {offset : Int} {p : Nat} (hsum : base.toInt + offset = p)
    (hlt : p < (files fp).size.toNat) :
    Does last i vol files (tfFseek fp base offset) 0#32 vol
      (WriteBack.set files fp ((files fp).sought i.clusterSize p)) := by
  have hsize := (files fp).size.isLt
  unfold tfFseek
  rw [hsum]
  refine (does_long (by omega)).bind (does_file_bind ?_)
  have hlt' : ¬ ((files fp).size.toNat : Int) ≤ p := Int.not_le.mpr (Int.ofNat_lt.mpr hlt)
  rw [if_neg hlt']
  exact does_tfUnsafeFseek hi hc hsum (Nat.le_of_lt hlt)

/-! ## Handles at a position -/

/-- The handle is `t` bytes behind the begin of its file, which begins with the cluster `c`; where
the 32 bits of a position have overflowed, so has the size of the file. -/
structure TfFile.Stands (f : TfFile) (clusterSize : Nat) (c : BitVec 32) (t : Nat) : Prop where
  startCluster : f.startCluster = c
  currentCluster : f.currentCluster = c
  pos : f.pos.toNat = t % 2 ^ 32
  currentByte : f.currentByte = BitVec.ofNat 16 (t % 2 ^ 32 % clusterSize)
  size : t < 2 ^ 32 - 1 → t < f.size.toNat
  overflow : 2 ^ 32 - 1 ≤ t → f.size.toNat = t + 1 - 2 ^ 32

theorem TfFile.size_sought {f : TfFile} {clusterSize p : Nat} :
    (f.sought clusterSize p).size = if p = f.size.toNat then f.size + 1#32 else f.size := by
  unfold TfFile.sought TfFile.atByte TfFile.inCluster TfFile.grown
  by_cases heq : p = f.size.toNat
  · rw [if_pos heq, if_pos (Int.ofNat_inj.mpr heq)]
    split <;> rfl
  · rw [if_neg heq, if_neg (fun h => heq (Int.ofNat_inj.mp h))]
    split <;> rfl

theorem TfFile.attributes_sought {f : TfFile} {clusterSize : Nat} {p : Int} :
    (f.sought clusterSize p).attributes = f.attributes := by
  have hgrown : (f.grown p).attributes = f.attributes := by
    unfold TfFile.grown
    split <;> rfl
  unfold TfFile.sought TfFile.atByte TfFile.inCluster
  split
  · exact hgrown
  · exact hgrown

/-- A seek up to the end of the file. -/
theorem TfFile.stands_sought {f : TfFile} {clusterSize t : Nat} (hstart : f.startCluster = c)
    (hcurrent : f.currentCluster = c) (hle : t % 2 ^ 32 ≤ f.size.toNat) (ht : t < 2 ^ 33 - 1)
    (hover : 2 ^ 32 ≤ t → f.size.toNat = t - 2 ^ 32) :
    (f.sought clusterSize (t % 2 ^ 32 : Nat)).Stands clusterSize c t := by
  have hlt := f.size.isLt
  have hsize' : (f.sought clusterSize (t % 2 ^ 32 : Nat)).size.toNat =
      if t % 2 ^ 32 = f.size.toNat then (f.size.toNat + 1) % 2 ^ 32 else f.size.toNat := by
    rw [size_sought]
    split
    · exact BitVec.toNat_add _ _
    · rfl
  have hgrown : ((f.grown (t % 2 ^ 32 : Nat)).startCluster = c) ∧
      ((f.grown (t % 2 ^ 32 : Nat)).currentCluster = c) := by
    unfold TfFile.grown
    split
    · exact ⟨hstart, hcurrent⟩
    · exact ⟨hstart, hcurrent⟩
  refine ⟨?_, ?_, ?_, ?_, ?_, ?_⟩
  · unfold TfFile.sought TfFile.atByte TfFile.inCluster
    split
    · exact hgrown.1
    · exact hgrown.1
  · unfold TfFile.sought TfFile.atByte TfFile.inCluster
    split
    · exact hgrown.2
    · exact hgrown.1
  · rw [sought_pos, BitVec.ofInt_natCast, BitVec.toNat_ofNat]
    omega
  · change BitVec.ofInt 16 (((t % 2 ^ 32 : Nat) : Int).tmod clusterSize) = _
    rw [← Int.ofNat_tmod, BitVec.ofInt_natCast]
  · intro h
    rw [hsize']
    split <;> omega
  · intro h
    rw [hsize']
    split <;> omega

/-- The position after the one of a handle. -/
theorem TfFile.Stands.next {f : TfFile} {clusterSize t : Nat} (h : f.Stands clusterSize c t)
    (ht : t < 2 ^ 33 - 2) : (f.pos + 1#32).toNat = (t + 1) % 2 ^ 32 ∧
      (t + 1) % 2 ^ 32 ≤ f.size.toNat ∧ (2 ^ 32 ≤ t + 1 → f.size.toNat = t + 1 - 2 ^ 32) := by
  have hsize := h.size
  have hoverflow := h.overflow
  refine ⟨?_, ?_, ?_⟩
  · rw [BitVec.toNat_add, h.pos, BitVec.toNat_ofNat]
    omega
  · omega
  · omega

/-! ## Transfers -/

theorem does_tfFirstSector (hi : i.Fat32) (hc : i.IsCluster c) :
    Does last i vol files (tfFirstSector c) (i.sectorAt c 0) vol files := by
  have hclusters := hi.clusters
  have hdata := hi.dataSectors
  have hsector := hi.toNat_sectorAt hc hi.clusterSize_pos
  have htotal := i.totalSectors.isLt
  unfold tfFirstSector
  apply does_info_bind
  intro j hj
  rw [TfInfo.geometry_eq hj TfInfo.sectorsPerCluster fun _ => rfl,
    TfInfo.geometry_eq hj TfInfo.firstDataSector fun _ => rfl]
  have hnumber : c.toInt - 2 = ((c.toNat - 2 : Nat) : Int) := by
    have hle := hc.1
    have hlt := hc.2
    rw [BitVec.toInt_eq_toNat_of_lt (by omega)]
    omega
  have hrange : -2 ^ 31 ≤ c.toInt - 2 ∧ c.toInt - 2 < 2 ^ 31 := by
    have hlt := hc.2
    omega
  refine (does_int hrange).bind ?_
  rw [toInt_ofInt hrange, hnumber, ← Int.natCast_mul]
  refine (does_int (by omega)).bind ?_
  have hfirst : BitVec.ofInt 32 (((c.toNat - 2) * i.sectorsPerCluster.toNat : Nat) : Int) +
      i.firstDataSector = i.sectorAt c 0 := by
    apply BitVec.eq_of_toNat_eq
    rw [hsector.1, BitVec.ofInt_natCast, BitVec.toNat_add, BitVec.toNat_ofNat]
    omega
  rw [hfirst]
  exact does_pure

/-- The sector with the byte at the handle is in the buffer. -/
theorem does_fetchByte (hi : i.Fat32) (hc : i.IsCluster c) {k : Nat} (hk : k < i.clusterSize)
    (hreach : i.Reaches c k) (hcluster : (files fp).currentCluster = c)
    (hbyte : (files fp).currentByte = BitVec.ofNat 16 k) :
    (fetchCurrent fp).Leads (FsEvent.UpTo last) (Shows i vol files) (k % 512)
      (ShowsAt i vol files (i.sectorAt c k)) := by
  obtain ⟨hshort, hint⟩ := hreach
  have hfirst := (hi.toNat_sectorAt hc hi.clusterSize_pos).1
  obtain ⟨hsector, hle⟩ := hi.toNat_sectorAt hc hk
  have hlt := (i.sectorAt c 0).isLt
  have hlt' := (i.sectorAt c k).isLt
  have hbyte : (files fp).currentByte.toInt = k := by
    rw [hbyte, BitVec.toInt_eq_toNat_of_lt (by rw [BitVec.toNat_ofNat]; omega), BitVec.toNat_ofNat,
      Nat.mod_eq_of_lt (by omega)]
  -- both numbers are of the same half of the `int`s
  have hsum : (i.sectorAt c 0).toInt + (k : Int).tdiv 512 = (i.sectorAt c k).toInt := by
    rw [Int.tdiv_eq_ediv_of_nonneg (by omega), BitVec.toInt_eq_toNat_cond,
      BitVec.toInt_eq_toNat_cond]
    split
    · next hlow =>
      have hlow' := hint (by omega)
      rw [if_pos (by omega)]
      omega
    · rw [if_neg (by omega)]
      omega
  have hindex : (k : Int).tmod 512 = ((k % 512 : Nat) : Int) := (Int.ofNat_tmod k 512).symm
  unfold fetchCurrent
  apply does_file_bind
  rw [hcluster, hbyte]
  refine (does_tfFirstSector hi hc).bind ?_
  rw [hsum]
  refine (does_int ⟨BitVec.le_toInt _, BitVec.toInt_lt⟩).bind ?_
  rw [BitVec.ofInt_toInt]
  refine (does_tfFetch _).bind ?_
  rw [hindex, if_neg (by omega), Int.toNat_natCast]
  exact Exec.leads_pure fun _ h => h

theorem does_fetchCurrent (hi : i.Fat32) (hc : i.IsCluster c) {t : Nat}
    (hf : (files fp).Stands i.clusterSize c t)
    (hreach : i.Reaches c (t % 2 ^ 32 % i.clusterSize)) :
    (fetchCurrent fp).Leads (FsEvent.UpTo last) (Shows i vol files)
      (t % 2 ^ 32 % i.clusterSize % 512)
      (ShowsAt i vol files (i.sectorAt c (t % 2 ^ 32 % i.clusterSize))) :=
  does_fetchByte hi hc (Nat.mod_lt _ hi.clusterSize_pos) hreach hf.currentCluster hf.currentByte

/-- One byte is written, and the handle moves on. -/
theorem does_fwriteBytes_cons (hi : i.Fat32) (hc : i.IsCluster c) {t : Nat}
    (hf : (files fp).Stands i.clusterSize c t) (ht : t < 2 ^ 33 - 2)
    (hreach : i.Reaches c (t % 2 ^ 32 % i.clusterSize)) {v : Byte} {src : List Byte} {rc : BitVec 32} {vol' : Disk} {files' : Handle → TfFile}
    (hrest : Does last i (i.putByte vol c (t % 2 ^ 32 % i.clusterSize) v)
      (WriteBack.set files fp ((files fp).sought i.clusterSize ((t + 1) % 2 ^ 32 : Nat)))
      (fwriteBytes fp src) rc vol' files') :
    Does last i vol files (fwriteBytes fp (v :: src)) rc vol' files' := by
  have hk := Nat.mod_lt (t % 2 ^ 32) hi.clusterSize_pos
  obtain ⟨hnext, hle, -⟩ := hf.next ht
  unfold fwriteBytes
  refine (does_fetchCurrent hi hc hf hreach).bind ?_
  apply does_setByte_bind (hi.isData_sectorAt hc hk)
  apply does_file_bind
  rw [hnext]
  refine (does_tfUnsafeFseek hi (hf.startCluster ▸ hc) (zero_add_pos _) hle).bind ?_
  rw [if_neg (not_not_intro rfl)]
  exact hrest

/-- The bytes of a string go around the first cluster of the file. -/
theorem does_fwriteBytes (hi : i.Fat32) (hc : i.IsCluster c) (src : List Byte) :
    ∀ {t : Nat} (vol : Disk) {files : Handle → TfFile},
      (files fp).Stands i.clusterSize c t → t + src.length < 2 ^ 33 - 1 →
      i.Reach c t src.length →
      ∃ vol' f', Does last i vol files (fwriteBytes fp src) 0#32 vol' (WriteBack.set files fp f') ∧
        f'.Stands i.clusterSize c (t + src.length) ∧
        (∀ u, ¬ i.Covers c u → vol' u = vol u) ∧
        (t + src.length ≤ 2 ^ 32 → ∀ k < i.clusterSize, i.byteAt vol' c k =
          Ring.write i.clusterSize (i.byteAt vol c) t src k) ∧
        f'.attributes = (files fp).attributes ∧
        (t + src.length < (files fp).size.toNat → f'.size = (files fp).size) := by
  induction src with
  | nil =>
    intro t vol files hf _ _
    refine ⟨vol, files fp, ?_, hf, fun _ _ => rfl, fun _ _ _ => rfl, rfl, fun _ => rfl⟩
    rw [WriteBack.set_eq rfl]
    exact does_pure
  | cons v src ih =>
    intro t vol files hf ht hreach
    rw [List.length_cons] at ht hreach
    obtain ⟨hreach, hreach'⟩ := TfInfo.reach_succ.mp hreach
    have hk := Nat.mod_lt (t % 2 ^ 32) hi.clusterSize_pos
    obtain ⟨-, hle, hover⟩ := hf.next (by omega)
    have hsought : ((files fp).sought i.clusterSize ((t + 1) % 2 ^ 32 : Nat)).Stands
        i.clusterSize c (t + 1) :=
      TfFile.stands_sought hf.startCluster hf.currentCluster hle (by omega) hover
    obtain ⟨vol', f', hrest, hf', hframe, hbytes, hattr, hsize⟩ :=
      @ih (t + 1) (i.putByte vol c (t % 2 ^ 32 % i.clusterSize) v)
        (WriteBack.set files fp ((files fp).sought i.clusterSize ((t + 1) % 2 ^ 32 : Nat)))
        (by rw [WriteBack.set_self]; exact hsought) (by omega) hreach'
    rw [WriteBack.set_set] at hrest
    have hpos : t + 1 + src.length = t + (src.length + 1) := by omega
    rw [hpos] at hf' hbytes hsize
    rw [WriteBack.set_self, TfFile.attributes_sought] at hattr
    rw [WriteBack.set_self, TfFile.size_sought] at hsize
    refine ⟨vol', f', ?_, hf', ?_, ?_, hattr, ?_⟩
    · exact does_fwriteBytes_cons hi hc hf (by omega) hreach hrest
    · intro u hu
      rw [hframe u hu]
      exact WriteBack.set_ne fun heq => hu ⟨_, hk, heq⟩
    · intro hle k hk'
      have hmod : t % 2 ^ 32 = t := Nat.mod_eq_of_lt (by rw [List.length_cons] at hle; omega)
      rw [hmod] at hk hbytes
      rw [hbytes hle k hk', Ring.write]
      exact Ring.write_congr (hi.byteAt_putByte hc hk hk' v)
    · intro hlt
      rw [List.length_cons] at hlt
      have hlast := (files fp).size.isLt
      rw [if_neg (by omega)] at hsize
      exact hsize hlt

/-- The bytes that are read are those around the first cluster of the file. -/
theorem does_tfFread (hi : i.Fat32) (hc : i.IsCluster c) (n : Nat) :
    ∀ {t : Nat} {files : Handle → TfFile},
      (files fp).Stands i.clusterSize c t → t + n < (files fp).size.toNat → i.Reach c t n →
      ∃ f', Does last i vol files (tfFread fp n) (Ring.read i.clusterSize (i.byteAt vol c) t n, 0#32)
        vol (WriteBack.set files fp f') ∧
        f'.Stands i.clusterSize c (t + n) ∧ f'.size = (files fp).size ∧
        f'.attributes = (files fp).attributes := by
  induction n with
  | zero =>
    intro t files hf _ _
    refine ⟨files fp, ?_, hf, rfl, rfl⟩
    rw [WriteBack.set_eq rfl]
    exact does_pure
  | succ n ih =>
    intro t files hf ht hreach
    obtain ⟨hreach, hreach'⟩ := TfInfo.reach_succ.mp hreach
    have hlt := (files fp).size.isLt
    have hmod : t % 2 ^ 32 = t := Nat.mod_eq_of_lt (by omega)
    have hmod' : (t + 1) % 2 ^ 32 = t + 1 := Nat.mod_eq_of_lt (by omega)
    have hk := Nat.mod_lt t hi.clusterSize_pos
    obtain ⟨hnext, hle, hover⟩ := hf.next (by omega)
    have hsought := @TfFile.stands_sought c (files fp) i.clusterSize (t + 1) hf.startCluster
      hf.currentCluster hle (by omega) hover
    have hseek := @does_tfFseek i vol files fp last hi (hf.startCluster ▸ hc) _ _ _
      (zero_add_pos (t + 1)) (by omega)
    have hsize : ((files fp).sought i.clusterSize ((t + 1 : Nat) : Int)).size = (files fp).size := by
      rw [TfFile.size_sought, if_neg (by omega)]
    rw [hmod'] at hnext hsought
    obtain ⟨f', hrest, hf', hsize', hattr⟩ := @ih (t + 1)
      (WriteBack.set files fp ((files fp).sought i.clusterSize ((t + 1 : Nat) : Int)))
      (by rw [WriteBack.set_self]; exact hsought)
      (by rw [WriteBack.set_self, hsize]; omega) hreach'
    rw [WriteBack.set_set] at hrest
    rw [WriteBack.set_self, hsize] at hsize'
    rw [WriteBack.set_self, TfFile.attributes_sought] at hattr
    have hpos : t + 1 + n = t + (n + 1) := by omega
    rw [hpos] at hf'
    refine ⟨f', ?_, hf', hsize', hattr⟩
    have hfetch := @does_fetchCurrent i vol files fp c last hi hc t hf hreach
    rw [hmod] at hfetch
    unfold tfFread
    refine hfetch.bind (does_buffer_bind (hi.isData_sectorAt hc hk) fun j hj => ?_)
    have hbyte : j.buffer (t % i.clusterSize % 512) = i.byteAt vol c (t % i.clusterSize) := by
      rw [hj]
      rfl
    dsimp only
    rw [hbyte]
    apply does_file_bind
    rw [hnext]
    refine hseek.bind ?_
    rw [if_neg (not_not_intro rfl)]
    exact hrest.bind does_pure

end

/-! ## Reading back -/

/-- A driver that stands for a FAT32 volume, on a device that never fails. -/
structure Fs.Mounted (s : Fs) : Prop where
  errorFree : s.ErrorFree
  fat32 : s.info.Fat32
  dirty : s.dirty = true → s.info.IsData s.info.currentSector
  clean : s.dirty = false → s.info.IsData s.info.currentSector →
    s.disk s.info.currentSector = s.info.buffer

theorem Fs.Mounted.shows {s : Fs} (h : s.Mounted) : Shows s.info s.volume s.handles s :=
  ⟨h.errorFree, rfl, h.dirty, h.clean, rfl, rfl⟩

/-- Every file without the cluster `c` has its clusters and its bytes on both volumes. -/
def TfInfo.OthersUnchanged (i : TfInfo) (c : BitVec 32) (vol vol' : Disk) : Prop :=
  ∀ start cs, i.Chain vol start cs → c ∉ cs →
    i.Chain vol' start cs ∧ ∀ d ∈ cs, ∀ k < i.clusterSize, i.byteAt vol' d k = i.byteAt vol d k

/-- After the string was written from the position on, which took the driver from `s` to `s'`, it
can be read there, and no other file has changed. -/
structure ReadsBack (i : TfInfo) (fp : Handle) (p : Nat) (src : List Byte) (s s' : Fs) : Prop where
  read : ∃ t t', (tfFseek fp 0#32 p).Returns s' 0#32 t ∧
    (tfFread fp src.length).Returns t (src, 0#32) t' ∧
    i.OthersUnchanged (s.handles fp).startCluster s.volume t'.volume
  others : i.OthersUnchanged (s.handles fp).startCluster s.volume s'.volume

section
variable {s s₁ s₂ : Fs} {fp : Handle} {p : Nat} {src : List Byte}

/-- No seek gets behind the end of the file. -/
theorem le_of_tfUnsafeFseek (h : (tfUnsafeFseek fp 0#32 p).Returns s 0#32 s₁) :
    p ≤ (s.handles fp).size.toNat := by
  have hreturns := returns_tfUnsafeFseek h
  rw [zero_add_pos] at hreturns
  split at hreturns
  · exact absurd hreturns.1 (by decide)
  · next hle => exact Int.ofNat_le.mp (Int.not_lt.mp hle)

theorem lt_of_tfFseek (h : (tfFseek fp 0#32 p).Returns s 0#32 s₁) :
    p < (s.handles fp).size.toNat := by
  rcases Seek.returns_exec (q := .fseek) h with ⟨-, hrc, -⟩ | ⟨hallowed, -⟩
  · exact absurd hrc (by decide)
  · rw [zero_add_pos] at hallowed
    exact Int.ofNat_lt.mp (Int.not_le.mp hallowed)

/-- What a string that was written leaves behind. -/
structure Written (i : TfInfo) (vol : Disk) (fp : Handle) (c : BitVec 32) (p : Nat)
    (src : List Byte) (vol' : Disk) (s' : Fs) : Prop where
  shows : Shows i vol' s'.handles s'
  stands : (s'.handles fp).Stands i.clusterSize c (p + src.length)
  frame : ∀ u, ¬ i.Covers c u → vol' u = vol u
  bytes : p + src.length ≤ 2 ^ 32 → ∀ k < i.clusterSize,
    i.byteAt vol' c k = Ring.write i.clusterSize (i.byteAt vol c) p src k

/-- A seek and a write leave the string in the first cluster of the file. -/
theorem written_tfFwrite (hs : s.Mounted) (hfile : s.info.IsCluster (s.handles fp).startCluster)
    (hfirst : (s.handles fp).currentCluster = (s.handles fp).startCluster)
    (hlen : src.length < 2 ^ 31) (hp : p ≤ (s.handles fp).size.toNat)
    (hreach : s.info.Reach (s.handles fp).startCluster p src.length) :
    ∃ s₁ s₂ vol', (tfUnsafeFseek fp 0#32 p).Returns s 0#32 s₁ ∧
      (tfFwrite fp src).Returns s₁ 0#32 s₂ ∧ s₁.volume = s.volume ∧
      (s₁.handles fp).startCluster = (s.handles fp).startCluster ∧
      Written s.info s.volume fp (s.handles fp).startCluster p src vol' s₂ := by
  have hi := hs.fat32
  have hlt := (s.handles fp).size.isLt
  have hmod : p % 2 ^ 32 = p := Nat.mod_eq_of_lt (by omega)
  obtain ⟨s₁, hseek, h₁⟩ :=
    (@does_tfUnsafeFseek s.info s.volume s.handles fp 0 hi hfile _ _ _ (zero_add_pos p) hp).returns
      hs.shows
  have hstands := @TfFile.stands_sought _ (s.handles fp) s.info.clusterSize p rfl hfirst
    (by omega) (by omega) (by omega)
  rw [hmod] at hstands
  generalize hf : (s.handles fp).sought s.info.clusterSize p = f at *
  let f₁ : TfFile := { f with flags := f.flags ||| tfFlagDirty }
  have hstands₁ : f₁.Stands s.info.clusterSize (s.handles fp).startCluster p :=
    ⟨hstands.startCluster, hstands.currentCluster, hstands.pos, hstands.currentByte, hstands.size,
      hstands.overflow⟩
  obtain ⟨vol', f', hbytes, hstands', hframe, hring, -⟩ := @does_fwriteBytes s.info fp _ 0 hi hfile src p
    s.volume (WriteBack.set s.handles fp f₁) (by rw [WriteBack.set_self]; exact hstands₁) (by omega)
    hreach
  have hwrite : Does 0 s.info s.volume (WriteBack.set s.handles fp f) (tfFwrite fp src) 0#32 vol'
      (WriteBack.set s.handles fp f') := by
    unfold tfFwrite
    refine (does_modifyFile _).bind ?_
    rw [WriteBack.set_self, WriteBack.set_set]
    rw [WriteBack.set_set] at hbytes
    exact hbytes
  obtain ⟨s₂, hreturns, h₂⟩ := hwrite.returns h₁
  have hhandle : s₂.handles fp = f' := by rw [h₂.handles, WriteBack.set_self]
  refine ⟨s₁, s₂, vol', hseek, hreturns, h₁.volume, ?_, ?_, ?_, hframe, hring⟩
  · rw [h₁.handles, WriteBack.set_self, hstands.startCluster]
  · rw [h₂.handles]
    exact h₂
  · rw [hhandle]
    exact hstands'

theorem Written.others {i : TfInfo} {vol vol' : Disk} {c : BitVec 32} (hi : i.Fat32)
    (hc : i.IsCluster c) (h : Written i vol fp c p src vol' s₂) :
    i.OthersUnchanged c vol vol' :=
  fun _ _ hchain hother => hchain.frame hi hc h.frame hother

/-- A string that fits is read from the ring that it was written to. -/
theorem Written.reads {i : TfInfo} {vol vol' : Disk} {c : BitVec 32} (hi : i.Fat32)
    (hc : i.IsCluster c) (h : Written i vol fp c p src vol' s₂) (hreach : i.Reach c p src.length)
    (hfits : p + src.length < 2 ^ 32 - 1) :
    ∃ t t', (tfFseek fp 0#32 p).Returns s₂ 0#32 t ∧
      (tfFread fp src.length).Returns t (Ring.read i.clusterSize
        (Ring.write i.clusterSize (i.byteAt vol c) p src) p src.length, 0#32) t' ∧
      t'.volume = vol' := by
  have hsize := h.stands.size hfits
  have hmod : p % 2 ^ 32 = p := Nat.mod_eq_of_lt (by omega)
  obtain ⟨t, hseek, ht⟩ := (@does_tfFseek i vol' s₂.handles fp 0 hi (h.stands.startCluster ▸ hc)
    _ _ _ (zero_add_pos p) (by omega)).returns h.shows
  have hstands := @TfFile.stands_sought _ (s₂.handles fp) i.clusterSize p h.stands.startCluster
    h.stands.currentCluster (by omega) (by omega) (by omega)
  rw [hmod] at hstands
  have hgrown : ((s₂.handles fp).sought i.clusterSize p).size = (s₂.handles fp).size := by
    rw [TfFile.size_sought, if_neg (by omega)]
  obtain ⟨f', hread, -⟩ := @does_tfFread i vol' fp c 0 hi hc src.length p
    (WriteBack.set s₂.handles fp ((s₂.handles fp).sought i.clusterSize p))
    (by rw [WriteBack.set_self]; exact hstands) (by rw [WriteBack.set_self, hgrown]; exact hsize)
    hreach
  rw [Ring.read_congr hi.clusterSize_pos (h.bytes (by omega))] at hread
  obtain ⟨t', hreturns, ht'⟩ := hread.returns ht
  exact ⟨t, t', hseek, hreturns, ht'.volume⟩

/-- The handle gets back to the position only where the size of the file has not overflowed. -/
theorem Written.fits {i : TfInfo} {vol vol' : Disk} {c : BitVec 32} {t : Fs}
    (h : Written i vol fp c p src vol' s₂) (hlen : src.length < 2 ^ 31)
    (hseek : (tfFseek fp 0#32 p).Returns s₂ 0#32 t) : p + src.length < 2 ^ 32 - 1 := by
  have hlt := lt_of_tfFseek hseek
  have hover := h.stands.overflow
  omega

/-- Bytes of one place of the ring that are read back were the same. -/
theorem Written.agree {i : TfInfo} {vol vol' : Disk} {c : BitVec 32} {t t' : Fs} (hi : i.Fat32)
    (hc : i.IsCluster c) (h : Written i vol fp c p src vol' s₂) (hreach : i.Reach c p src.length)
    (hlen : src.length < 2 ^ 31) (hseek : (tfFseek fp 0#32 p).Returns s₂ 0#32 t)
    (hread : (tfFread fp src.length).Returns t (src, 0#32) t') : Ring.Agree i.clusterSize src := by
  obtain ⟨t₁, t₁', hseek₁, hread₁, -⟩ := h.reads hi hc hreach (h.fits hlen hseek)
  obtain ⟨-, rfl⟩ := hseek.unique hseek₁
  exact Ring.read_write_iff.mp (congrArg Prod.fst (hread₁.unique hread).1)

/-- A string that was written where the driver comes to is read back, and all other files are
unchanged, exactly when the bytes at a distance of any number of clusters are the same, and the size
of the file has not overflowed. -/
theorem tfFwrite_readsBack_iff (hs : s.Mounted)
    (hfile : s.info.IsCluster (s.handles fp).startCluster)
    (hfirst : (s.handles fp).currentCluster = (s.handles fp).startCluster)
    (hlen : src.length < 2 ^ 31) (hreach : s.info.Reach (s.handles fp).startCluster p src.length)
    (hseek : (tfUnsafeFseek fp 0#32 p).Returns s 0#32 s₁)
    (hwrite : (tfFwrite fp src).Returns s₁ 0#32 s₂) :
    ReadsBack s.info fp p src s₁ s₂ ↔
      p + src.length < 2 ^ 32 - 1 ∧ Ring.Agree s.info.clusterSize src := by
  obtain ⟨t₁, t₂, vol', hseek', hwrite', hvolume, hstart, hwritten⟩ :=
    written_tfFwrite hs hfile hfirst hlen (le_of_tfUnsafeFseek hseek) hreach
  obtain ⟨-, rfl⟩ := hseek.unique hseek'
  obtain ⟨-, rfl⟩ := hwrite.unique hwrite'
  have hothers := hwritten.others hs.fat32 hfile
  rw [← hvolume, ← hstart] at hothers
  constructor
  · rintro ⟨⟨t, t', hback, hread, -⟩, -⟩
    exact ⟨hwritten.fits hlen hback, hwritten.agree hs.fat32 hfile hreach hlen hback hread⟩
  · rintro ⟨hfits, hagree⟩
    obtain ⟨t, t', hback, hread, ht'⟩ := hwritten.reads hs.fat32 hfile hreach hfits
    rw [Ring.read_write_iff.mpr hagree] at hread
    refine ⟨⟨t, t', hback, hread, ?_⟩, ?_⟩
    · rw [ht']
      exact hothers
    · rw [hwritten.shows.volume]
      exact hothers

end

/-- A volume with clusters of one sector, and a file of 600 bytes in the clusters 2 and 3. -/
def Fs.twoClusters : Fs :=
  { Fs.blank with
    disk := WriteBack.set Fs.blank.disk 32#32
      (Bytes.putWord (Bytes.putWord (fun _ => 0#8) 4 8 3#32) 4 12 lastCluster)
    handles := fun fp =>
      { Fs.blank.handles fp with startCluster := 2#32, currentCluster := 2#32, size := 600#32 } }

theorem mounted_twoClusters : Fs.twoClusters.Mounted :=
  ⟨fun _ => rfl, ⟨by decide, by decide, by decide, by decide, by decide, by decide⟩,
    fun h => absurd h (by decide), fun _ h => absurd h (by decide)⟩

/-- The clusters have one sector each. -/
theorem reach_twoClusters {t n : Nat} : Fs.twoClusters.info.Reach 2#32 t n :=
  mounted_twoClusters.fat32.reach ⟨by decide, by decide⟩ (by decide) (by decide)

theorem isCluster_two : Fs.twoClusters.info.IsCluster 2#32 := ⟨by decide, by decide⟩

/-- The clusters 2 and 3 of the file, on any volume with this FAT. -/
theorem chain_twoClusters {vol : Disk} (hfat : vol 32#32 = Fs.twoClusters.disk 32#32) :
    Fs.twoClusters.info.Chain vol 2#32 [2#32, 3#32] := by
  have hsector : Fs.twoClusters.info.fatSector 2#32 = 32#32 := by decide
  have hsector' : Fs.twoClusters.info.fatSector 3#32 = 32#32 := by decide
  have hnext : Fs.twoClusters.info.next vol 2#32 = 3#32 := by
    unfold TfInfo.next
    rw [hsector, hfat]
    decide
  have hlast : tfMarkEoc32.toNat ≤ (Fs.twoClusters.info.next vol 3#32).toNat := by
    unfold TfInfo.next
    rw [hsector', hfat]
    decide
  exact .cons isCluster_two (by rw [hnext]; exact .last ⟨by decide, by decide⟩ hlast)

/-- Two bytes are written and read behind each other. -/
theorem tfFwrite_readsBack_twoBytes : ∃ s₁ s₂,
    (tfUnsafeFseek firstHandle 0#32 511).Returns Fs.twoClusters 0#32 s₁ ∧
    (tfFwrite firstHandle [7#8, 8#8]).Returns s₁ 0#32 s₂ ∧
    ReadsBack Fs.twoClusters.info firstHandle 511 [7#8, 8#8] s₁ s₂ := by
  obtain ⟨s₁, s₂, vol', hseek, hwrite, -⟩ := @written_tfFwrite Fs.twoClusters firstHandle 511
    [7#8, 8#8] mounted_twoClusters isCluster_two rfl (by decide) (by decide) reach_twoClusters
  refine ⟨s₁, s₂, hseek, hwrite, (tfFwrite_readsBack_iff mounted_twoClusters isCluster_two rfl
    (by simp) reach_twoClusters hseek hwrite).mpr ⟨by decide, ?_⟩⟩
  intro i j hi hj hij
  have hsize : Fs.twoClusters.info.clusterSize = 512 := by decide
  rw [hsize] at hij
  rw [List.length_cons, List.length_singleton] at hi hj
  have heq : i = j := by omega
  subst heq
  rfl

/-- The last of 513 bytes is written over the first one. -/
theorem tfFwrite_overwrites : ∃ s₁ s₂,
    Fs.twoClusters.info.Chain Fs.twoClusters.volume 2#32 [2#32, 3#32] ∧
    (tfUnsafeFseek firstHandle 0#32 0).Returns Fs.twoClusters 0#32 s₁ ∧
    (tfFwrite firstHandle (List.replicate 512 0#8 ++ [1#8])).Returns s₁ 0#32 s₂ ∧
    ¬ ReadsBack Fs.twoClusters.info firstHandle 0 (List.replicate 512 0#8 ++ [1#8]) s₁ s₂ := by
  have hlen : (List.replicate 512 0#8 ++ [1#8]).length < 2 ^ 31 := by
    rw [List.length_append, List.length_replicate]
    decide
  obtain ⟨s₁, s₂, vol', hseek, hwrite, -, -, hwritten⟩ := @written_tfFwrite Fs.twoClusters
    firstHandle 0 (List.replicate 512 0#8 ++ [1#8]) mounted_twoClusters isCluster_two rfl hlen
    (by simp) reach_twoClusters
  refine ⟨s₁, s₂, chain_twoClusters rfl, hseek, hwrite, ?_⟩
  rintro ⟨⟨t, t', hback, hread, -⟩, -⟩
  have hagree := hwritten.agree mounted_twoClusters.fat32 isCluster_two reach_twoClusters hlen hback hread
  exact absurd (Ring.Agree.wraps mounted_twoClusters.fat32.clusterSize_pos hagree) (by simp)

end Mavmm.Hostfs
