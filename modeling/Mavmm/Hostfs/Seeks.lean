import Mavmm.Hostfs.Frame
import Mavmm.Hostfs.ReadBack

/-!
# Where a seek ends, and what a failed one leaves

A seek that changes the cluster starts again with the first cluster of the
file, and because every FAT entry reads as 0 that is where it ends
(`seek_exact_iff`).  It fails either before it has changed anything or
after it has set the number of the cluster in the handle, so that a seek which
fails on its way along the chain is never harmless (`failedSeek_harmless_iff`).
-/

namespace Mavmm.Hostfs

open Exec (Keeps)

section
variable {s s' : Fs} {fp : Handle} {rc base : BitVec 32} {offset : Int}

/-! ## Failed seeks -/

/-- The handle is in the cluster with the number. -/
def AtCluster (fp : Handle) (idx : BitVec 32) (s : Fs) : Prop :=
  (s.handles fp).currentClusterIdx = idx

instance {idx : BitVec 32} : OfHandles (AtCluster fp idx) where
  keeps hhandles _ h := by
    unfold AtCluster
    rw [hhandles]
    exact h

/-- A walk along the chain does not change the number of the cluster. -/
instance {idx mark : BitVec 32} {n : Nat} : Keeps (AtCluster fp idx) (seekCluster fp mark n) := by
  apply keeps_seekCluster
  intro temp
  refine Exec.keeps_modify fun s h => ?_
  unfold AtCluster
  rw [Fs.setFile_self]
  exact h

theorem moveToCluster_fails {idx mark : BitVec 32}
    (h : (moveToCluster fp idx mark).Returns s rc s') (hrc : rc ≠ 0#32) :
    idx ≠ (s.handles fp).currentClusterIdx ∧ AtCluster fp idx s' := by
  unfold moveToCluster Exec.Returns at h
  rw [run_file_bind] at h
  split at h
  · obtain ⟨rfl, -⟩ := Exec.returns_pure.mp h
    exact absurd rfl hrc
  · next hne =>
    rw [run_modifyFile_bind] at h
    refine ⟨hne, Keeps.keeps ?_ h⟩
    unfold AtCluster
    rw [Fs.setFile_self]

/-- The handle and all FAT entries are as they were. -/
structure Harmless (fp : Handle) (s s' : Fs) : Prop where
  pos : (s'.handles fp).pos = (s.handles fp).pos
  currentCluster : (s'.handles fp).currentCluster = (s.handles fp).currentCluster
  currentClusterIdx : (s'.handles fp).currentClusterIdx = (s.handles fp).currentClusterIdx
  currentByte : (s'.handles fp).currentByte = (s.handles fp).currentByte
  size : (s'.handles fp).size = (s.handles fp).size
  flags : (s'.handles fp).flags = (s.handles fp).flags
  fat : ∀ cluster, s'.fatEntry cluster = s.fatEntry cluster

/-- A seek that is not refused and fails leaves the number of another cluster in the handle. -/
theorem Moves.not_harmless {pos : Int} (h : Moves fp pos s rc s') (hrc : rc ≠ 0#32) :
    ¬ Harmless fp s s' := by
  obtain ⟨mark, rc', t, hmove, hrest⟩ := h.move
  split at hrest
  · exact absurd hrest.1 hrc
  · next hrc' =>
    obtain ⟨-, rfl⟩ := hrest
    obtain ⟨hne, hidx⟩ := moveToCluster_fails hmove hrc'
    rw [Fs.setFile_self, TfFile.grown_currentClusterIdx] at hne
    exact fun hharmless => hne (hidx.symm.trans hharmless.currentClusterIdx)

/-- A seek that fails is harmless exactly when its target is behind the positions of the file. -/
theorem failedSeek_harmless_iff {q : Seek}
    (h : (q.exec fp base offset).Returns s tfErrInvalidSeek s') :
    Harmless fp s s' ↔ q.Refuses (s.handles fp).size.toNat (base.toInt + offset) := by
  rcases Seek.returns_exec h with ⟨hrefused, -, rfl⟩ | ⟨hallowed, hmoves⟩
  · exact iff_of_true ⟨rfl, rfl, rfl, rfl, rfl, rfl, fun _ => rfl⟩ hrefused
  · exact iff_of_false (hmoves.not_harmless (by decide)) hallowed

/-- A file of 2000 bytes whose directory entry names an end mark as the first cluster. -/
def Fs.endMarkStart : Fs :=
  { Fs.blank with handles := fun fp =>
      { Fs.blank.handles fp with
        startCluster := tfMarkEoc32, currentCluster := tfMarkEoc32, size := 2000#32 } }

/-- A seek behind its end is refused. -/
theorem failedSeek_harmless_behind : ∃ s',
    (Seek.fseek.exec firstHandle 1500#32 1000).Returns Fs.endMarkStart tfErrInvalidSeek s' ∧
    Harmless firstHandle Fs.endMarkStart s' := by
  have hseek : (Seek.fseek.exec firstHandle 1500#32 1000).Returns Fs.endMarkStart
      tfErrInvalidSeek Fs.endMarkStart := rfl
  exact ⟨_, hseek, (failedSeek_harmless_iff hseek).mpr (by decide : (2000 : Int) ≤ 1500 + 1000)⟩

/-- A seek to the third cluster of the file fails on its way. -/
theorem failedSeek_not_harmless : ∃ s',
    (tfUnsafeFseek firstHandle 0#32 1024).Returns Fs.endMarkStart tfErrInvalidSeek s' ∧
    ¬ Harmless firstHandle Fs.endMarkStart s' := by
  have hseek : ∃ s', (tfUnsafeFseek firstHandle 0#32 1024).Returns Fs.endMarkStart
      tfErrInvalidSeek s' := by decide +kernel
  obtain ⟨s', hseek⟩ := hseek
  have hmoves := returns_tfUnsafeFseek hseek
  rw [if_neg (by decide)] at hmoves
  exact ⟨s', hseek, hmoves.not_harmless (by decide)⟩

/-! ## Where a seek ends -/

/-- A walk along the chain ends where it began: every FAT entry reads as 0. -/
instance {files : Handle → TfFile} {mark : BitVec 32} {n : Nat} :
    Keeps (Unmoved files) (seekCluster fp mark n) := by
  induction n with
  | zero =>
    unfold seekCluster
    infer_instance
  | succ n ih =>
    refine ⟨fun {s rc s'} hs h => ?_⟩
    unfold seekCluster Exec.Returns at h
    rw [run_file_bind] at h
    obtain ⟨temp, t, hget, hrest⟩ := Exec.returns_bind.mp h
    rw [if_neg (not_not_intro (tfGetFatEntry_zero hs.errorFree hget))] at hrest
    exact Keeps.keeps (Keeps.keeps hs hget) hrest

theorem handles_seekCluster {mark : BitVec 32} {n : Nat} (hfree : s.ErrorFree)
    (h : (seekCluster fp mark n).Returns s rc s') : s'.handles = s.handles := by
  have hmoved : Unmoved s.handles s' := Keeps.keeps (I := Unmoved s.handles) ⟨hfree, rfl⟩ h
  exact hmoved.handles

theorem handles_moveToCluster {idx mark : BitVec 32} (hfree : s.ErrorFree)
    (h : (moveToCluster fp idx mark).Returns s rc s') :
    s'.handles fp = (s.handles fp).inCluster idx := by
  unfold moveToCluster Exec.Returns at h
  unfold TfFile.inCluster
  rw [run_file_bind] at h
  split at h
  · next heq =>
    obtain ⟨-, rfl⟩ := Exec.returns_pure.mp h
    rw [if_pos heq]
  · next hne =>
    rw [run_modifyFile_bind] at h
    have hmoved := handles_seekCluster (s := s.setFile fp _) hfree h
    rw [if_neg hne, hmoved, Fs.setFile_self]

theorem TfFile.grown_of_lt {f : TfFile} {pos : Int} (h : pos < f.size.toNat) : f.grown pos = f :=
  if_neg (Int.ne_of_lt h)

/-- A seek that succeeds leaves the handle where it ends. -/
theorem Moves.sought {pos : Int} (hfree : s.ErrorFree) (h : Moves fp pos s 0#32 s') :
    s'.handles fp = (s.handles fp).sought s.info.clusterSize pos ∧
      ((s.handles fp).Near s.info.clusterSize pos → ∃ f, s' = s.setFile fp f) := by
  obtain ⟨mark, rc', t, hmove, hrest⟩ := h.move
  split at hrest
  · obtain ⟨-, rfl⟩ := hrest
    have hfile := handles_moveToCluster (s := s.setFile fp _) hfree hmove
    rw [Fs.setFile_self] at hfile
    refine ⟨?_, fun hnear => ?_⟩
    · rw [Fs.setFile_self, hfile]
      rfl
    · have hnear' : BitVec.ofInt 32 (pos.tdiv s.info.clusterSize) =
          ((s.setFile fp ((s.handles fp).grown pos)).handles fp).currentClusterIdx ∨
          (BitVec.ofInt 32 (pos.tdiv s.info.clusterSize)).toInt ≤ 0 := by
        rw [Fs.setFile_self, TfFile.grown_currentClusterIdx]
        exact hnear
      obtain ⟨-, rfl⟩ := (Exec.returns_of_run (run_moveToCluster hnear')).mp hmove
      rw [Fs.setFile_setFile, Fs.setFile_setFile]
      exact ⟨_, rfl⟩
  · next hrc =>
    exact absurd hrest.1.symm hrc

/-! ### The clusters of a file -/

/-- The first clusters of a file: no two are the same, and each one is what the FAT has for the one
before. -/
structure FirstClusters (s : Fs) (start : BitVec 32) (cs : List (BitVec 32)) : Prop where
  head : cs.head? = some start
  next : cs.IsChain fun c d => s.info.next s.cache.view c = d
  nodup : cs.Nodup

section
variable {i : TfInfo} {vol : Disk} {c d : BitVec 32} {cs ds : List (BitVec 32)}

theorem TfInfo.Chain.isCluster (h : i.Chain vol c cs) : i.IsCluster c := by
  cases h with
  | last hc _ => exact hc
  | cons hc _ => exact hc

theorem TfInfo.Chain.head (h : i.Chain vol c cs) : cs.head? = some c := by
  cases h with
  | last _ _ => rfl
  | cons _ _ => rfl

theorem TfInfo.Chain.linked (h : i.Chain vol c cs) : cs.IsChain fun c d => i.next vol c = d := by
  induction h with
  | last _ _ => exact .singleton _
  | cons _ hrest ih =>
    cases hrest with
    | last _ _ => exact .cons_cons rfl ih
    | cons _ _ => exact .cons_cons rfl ih

/-- The FAT has one chain from a cluster. -/
theorem TfInfo.Chain.unique (hi : i.clusters < 0x0ffffff6) (h : i.Chain vol c cs)
    (h' : i.Chain vol c ds) : cs = ds := by
  have hends : ∀ {c}, tfMarkEoc32.toNat ≤ c.toNat → ¬ i.IsCluster c := by
    intro c heoc hc
    have hmark : tfMarkEoc32.toNat = 0x0ffffff8 := rfl
    have hlt := hc.2
    omega
  induction h generalizing ds with
  | last _ heoc =>
    cases h' with
    | last _ _ => rfl
    | cons _ hrest => exact absurd hrest.isCluster (hends heoc)
  | cons _ hrest ih =>
    cases h' with
    | last _ heoc => exact absurd hrest.isCluster (hends heoc)
    | cons _ hrest' => rw [ih hrest']

theorem TfInfo.Chain.of_mem (h : i.Chain vol c cs) (hd : d ∈ cs) :
    ∃ ds, i.Chain vol d ds ∧ ds.length ≤ cs.length := by
  induction h with
  | last hc heoc =>
    cases List.mem_singleton.mp hd
    exact ⟨_, .last hc heoc, Nat.le_refl _⟩
  | cons hc hrest ih =>
    rcases List.mem_cons.mp hd with rfl | hmem
    · exact ⟨_, .cons hc hrest, Nat.le_refl _⟩
    · obtain ⟨ds, hds, hle⟩ := ih hmem
      exact ⟨ds, hds, Nat.le_succ_of_le hle⟩

/-- A chain that ends does not come back to a cluster. -/
theorem TfInfo.Chain.nodup (hi : i.clusters < 0x0ffffff6) (h : i.Chain vol c cs) : cs.Nodup := by
  induction h with
  | last _ _ => exact List.nodup_cons.mpr ⟨List.not_mem_nil, List.nodup_nil⟩
  | cons hc hrest ih =>
    refine List.nodup_cons.mpr ⟨fun hmem => ?_, ih⟩
    obtain ⟨ds, hds, hle⟩ := hrest.of_mem hmem
    rw [hds.unique hi (.cons hc hrest), List.length_cons] at hle
    omega

end

/-- The clusters of a file on a well-formed volume. -/
theorem TfInfo.Chain.firstClusters {c : BitVec 32} {cs : List (BitVec 32)}
    (hi : s.info.clusters < 0x0ffffff6) (h : s.info.Chain s.cache.view c cs) :
    FirstClusters s c cs := ⟨h.head, h.linked, h.nodup hi⟩

/-! ### Exact seeks -/

/-- After a seek to a position of a file with these clusters, the handle is in the cluster with
the position and at its byte, and no FAT entry has changed. -/
structure SeeksExactly (cs : List (BitVec 32)) (fp : Handle) (pos : Int) (s s' : Fs) : Prop where
  nonneg : 0 ≤ pos
  cluster : cs[pos.toNat / s.info.clusterSize]? = some (s'.handles fp).currentCluster
  byte : (s'.handles fp).currentByte.toInt = pos % s.info.clusterSize
  fat : ∀ cluster, s'.fatEntry cluster = s.fatEntry cluster

/-- The position is in the cluster in which the handle is, or in the first one; its byte in the
cluster is a number of the type `short`. -/
structure TfFile.Reaches (f : TfFile) (clusterSize : Nat) (cs : List (BitVec 32)) (pos : Int) :
    Prop where
  nonneg : 0 ≤ pos
  byte : pos % clusterSize < 2 ^ 15
  cluster : if f.currentClusterIdx.toNat = pos.toNat / clusterSize then
    cs[pos.toNat / clusterSize]? = some f.currentCluster
    else pos.toNat / clusterSize = 0

/-- The byte in a cluster is stored as a `short`. -/
theorem toInt_ofInt_byte {m : Int} (h : 0 ≤ m ∧ m < 2 ^ 17) :
    (BitVec.ofInt 16 m).toInt = m ↔ m < 2 ^ 15 := by
  rw [BitVec.toInt_ofInt]
  constructor
  · intro heq
    have hlt := Int.bmod_lt (x := m) (m := 2 ^ 16) (by decide)
    rw [heq] at hlt
    omega
  · exact fun hlt => Int.bmod_eq_of_le (by omega) (by omega)

theorem TfFile.currentCluster_sought {f : TfFile} {clusterSize : Nat} {pos : Int}
    (h : 0 ≤ pos ∧ pos < f.size.toNat) : (f.sought clusterSize pos).currentCluster =
      if f.currentClusterIdx.toNat = pos.toNat / clusterSize then f.currentCluster
      else f.startCluster := by
  obtain ⟨p, rfl⟩ := Int.eq_ofNat_of_zero_le h.1
  have hlt := f.size.isLt
  have hidx := @toNat_ofInt_tdiv clusterSize p (by omega)
  unfold clusterOf at hidx
  rw [Nat.mod_eq_of_lt (by omega)] at hidx
  unfold TfFile.sought TfFile.inCluster
  rw [TfFile.grown_of_lt h.2, Int.toNat_natCast, ← hidx]
  by_cases heq : BitVec.ofInt 32 ((p : Int).tdiv clusterSize) = f.currentClusterIdx
  · rw [if_pos heq, if_pos (congrArg BitVec.toNat heq.symm)]
    rfl
  · rw [if_neg heq, if_neg fun hnat => heq (BitVec.eq_of_toNat_eq hnat.symm)]
    rfl

theorem TfFile.Reaches.near {f : TfFile} {clusterSize : Nat} {cs : List (BitVec 32)} {pos : Int}
    (h : f.Reaches clusterSize cs pos) (hpos : pos < f.size.toNat) : f.Near clusterSize pos := by
  obtain ⟨p, rfl⟩ := Int.eq_ofNat_of_zero_le h.nonneg
  have hlt := f.size.isLt
  have hcluster := h.cluster
  rw [Int.toNat_natCast] at hcluster
  apply TfFile.near_of (by omega)
  unfold clusterOf
  rw [Nat.mod_eq_of_lt (by omega)]
  split at hcluster
  · next heq => exact Or.inr heq.symm
  · exact Or.inl hcluster

/-- A seek into a file is exact exactly when it does not have to follow the chain of clusters and
the byte in the cluster fits. -/
theorem seek_exact_iff {q : Seek} {cs : List (BitVec 32)} {pos : Int} (hfree : s.ErrorFree)
    (hfile : FirstClusters s (s.handles fp).startCluster cs) (hsum : base.toInt + offset = pos)
    (hpos : pos < (s.handles fp).size.toNat) (hseek : (q.exec fp base offset).Returns s 0#32 s') :
    SeeksExactly cs fp pos s s' ↔ (s.handles fp).Reaches s.info.clusterSize cs pos := by
  subst hsum
  obtain ⟨-, hmoves⟩ := (Seek.returns_exec hseek).resolve_left fun h => absurd h.2.1 (by decide)
  generalize base.toInt + offset = pos at *
  obtain ⟨hsought, hstays⟩ := hmoves.sought hfree
  have hsize := Nat.pos_of_ne_zero hmoves.clusterSize
  have hle := s.info.clusterSize_lt
  have hbyte : 0 ≤ pos → ((s'.handles fp).currentByte.toInt = pos % s.info.clusterSize ↔
      pos % s.info.clusterSize < 2 ^ 15) := by
    intro hnonneg
    have hbelow := Int.emod_lt_of_pos pos (Int.natCast_pos.mpr hsize)
    have hmod := Int.emod_nonneg pos (Int.natCast_ne_zero.mpr hmoves.clusterSize)
    rw [hsought, ← toInt_ofInt_byte ⟨hmod, by omega⟩, ← Int.tmod_eq_emod_of_nonneg hnonneg]
    rfl
  have hcluster : 0 ≤ pos → (s'.handles fp).currentCluster =
      if (s.handles fp).currentClusterIdx.toNat = pos.toNat / s.info.clusterSize
      then (s.handles fp).currentCluster else (s.handles fp).startCluster := by
    intro hnonneg
    rw [hsought, TfFile.currentCluster_sought ⟨hnonneg, hpos⟩]
  have hfirst : cs[0]? = some (s.handles fp).startCluster := by
    rw [← List.head?_eq_getElem?]
    exact hfile.head
  constructor
  · intro h
    refine ⟨h.nonneg, (hbyte h.nonneg).mp h.byte, ?_⟩
    have hkth := h.cluster
    rw [hcluster h.nonneg] at hkth
    split at hkth
    · next heq =>
      rw [if_pos heq]
      exact hkth
    · next hne =>
      rw [if_neg hne]
      -- the first cluster is not in the list again
      have hlt := (List.getElem?_eq_some_iff.mp hfirst).1
      exact ((List.getElem?_inj hlt hfile.nodup).mp (hfirst.trans hkth.symm)).symm
  · intro h
    have hkth := h.cluster
    refine ⟨h.nonneg, ?_, (hbyte h.nonneg).mpr h.byte, ?_⟩
    · rw [hcluster h.nonneg]
      split at hkth
      · next heq =>
        rw [if_pos heq]
        exact hkth
      · next hne =>
        rw [if_neg hne, hkth]
        exact hfirst
    · obtain ⟨f, rfl⟩ := hstays (h.near hpos)
      exact fun _ => rfl

end

theorem firstClusters_twoClusters : FirstClusters Fs.twoClusters 2#32 [2#32, 3#32] :=
  TfInfo.Chain.firstClusters (by decide) (chain_twoClusters rfl)

/-- A seek in the first cluster of the file. -/
theorem seek_exact_first : ∃ s',
    (Seek.unsafeFseek.exec firstHandle 0#32 5).Returns Fs.twoClusters 0#32 s' ∧
    SeeksExactly [2#32, 3#32] firstHandle 5 Fs.twoClusters s' := by
  have hseek : ∃ s', (Seek.unsafeFseek.exec firstHandle 0#32 5).Returns Fs.twoClusters 0#32 s' := by
    decide +kernel
  obtain ⟨s', hseek⟩ := hseek
  have hreaches : (Fs.twoClusters.handles firstHandle).Reaches Fs.twoClusters.info.clusterSize
      [2#32, 3#32] 5 := ⟨by decide, by decide, by decide⟩
  exact ⟨s', hseek, (seek_exact_iff mounted_twoClusters.errorFree firstClusters_twoClusters
    (zero_add_pos 5) (by decide) hseek).mpr hreaches⟩

/-- A seek to the second cluster ends in the first one, and one in front of the file succeeds. -/
theorem seek_not_exact :
    FirstClusters Fs.twoClusters 2#32 [2#32, 3#32] ∧
    (∃ s', (tfUnsafeFseek firstHandle 0#32 512).Returns Fs.twoClusters 0#32 s' ∧
      ¬ SeeksExactly [2#32, 3#32] firstHandle 512 Fs.twoClusters s') ∧
    ∃ s', (tfUnsafeFseek firstHandle 0#32 (-1)).Returns Fs.twoClusters 0#32 s' := by
  have hseek : ∃ s', (tfUnsafeFseek firstHandle 0#32 512).Returns Fs.twoClusters 0#32 s' := by
    decide +kernel
  obtain ⟨s', hseek⟩ := hseek
  refine ⟨firstClusters_twoClusters, ⟨s', hseek, fun hexact => ?_⟩, by decide +kernel⟩
  have hmoves := returns_tfUnsafeFseek hseek
  rw [if_neg (by decide)] at hmoves
  have hcluster := hexact.cluster
  rw [(hmoves.sought mounted_twoClusters.errorFree).1] at hcluster
  exact absurd hcluster (by decide)

end Mavmm.Hostfs
