import Mavmm.Hostfs.Volume

/-!
# The search for a free cluster

`tf_find_free_cluster` starts at the number of the first data sector, as if it
were a cluster, and takes what `tf_get_fat_entry` returns for the entry.  That
is 0, so the search ends where it starts: it finds a free cluster only when
none is there to be found.
-/

namespace Mavmm.Hostfs

/-- A cluster of the volume whose FAT entry is free. -/
def Fs.IsFree (s : Fs) (c : BitVec 32) : Prop :=
  s.info.IsCluster c ∧ s.fatEntry c &&& 0x0fffffff#32 = 0#32

/-- A free cluster is found if there is one, and otherwise the result is no cluster; and a cluster
that was found and marked is not found again. -/
structure Fs.FindsFree (s : Fs) : Prop where
  found : ∃ c s', tfFindFreeCluster.Returns s c s' ∧
    ((∃ d, s.IsFree d) → s.IsFree c) ∧ ((¬ ∃ d, s.IsFree d) → ¬ s.info.IsCluster c)
  again : ∀ {c d v rc : BitVec 32} {s₁ s₂ s₃ : Fs}, s.info.IsCluster c →
    v &&& 0x0fffffff#32 ≠ 0#32 → tfFindFreeCluster.Returns s c s₁ →
    (tfSetFatEntry c v).Returns s₁ rc s₂ → tfFindFreeCluster.Returns s₂ d s₃ → c ≠ d

section
variable {s s' : Fs} {c : BitVec 32}

/-- The search reads no entry at all, or that of the number it starts with. -/
def TfInfo.Searches (i : TfInfo) : Prop :=
  i.totalSectors.toNat ≤ i.firstDataSector.toNat ∨ FatOffset i.firstDataSector

instance (i : TfInfo) : Decidable i.Searches := inferInstanceAs (Decidable (_ ∨ _))

/-- The state after a search. -/
def Fs.searched (s : Fs) : Fs :=
  if s.info.totalSectors.toNat ≤ s.info.firstDataSector.toNat then s
  else s.fetched (s.info.fatSector s.info.firstDataSector)

theorem Fs.ErrorFree.searched (h : s.ErrorFree) : s.searched.ErrorFree := by
  unfold Fs.searched
  split
  · exact h
  · exact h.fetched _

/-- The number of the first data sector is returned, whatever the FAT holds. -/
theorem returns_tfFindFreeCluster (h : s.ErrorFree) : tfFindFreeCluster.Returns s c s' ↔
    s.info.Searches ∧ s.info.firstDataSector = c ∧ s.searched = s' := by
  unfold tfFindFreeCluster TfInfo.Searches Fs.searched
  rw [Exec.Returns, run_info_bind]
  by_cases hle : s.info.totalSectors.toNat ≤ s.info.firstDataSector.toNat
  · rw [Nat.sub_eq_zero_of_le hle, if_pos hle]
    exact Exec.returns_pure.trans (and_iff_right (Or.inl hle)).symm
  · obtain ⟨n, hn⟩ : ∃ n, s.info.totalSectors.toNat - s.info.firstDataSector.toNat = n + 1 :=
      ⟨_, (Nat.succ_pred (by omega)).symm⟩
    rw [hn, findFreeCluster, if_neg hle]
    by_cases hc : FatOffset s.info.firstDataSector
    · rw [Exec.run_bind (run_tfGetFatEntry h hc), if_pos (by decide)]
      exact Exec.returns_pure.trans (and_iff_right (Or.inr hc)).symm
    · constructor
      · intro hrun
        unfold tfGetFatEntry at hrun
        rw [Exec.run_bind_fails (run_int_bind_fails hc)] at hrun
        cases hrun
      · rintro ⟨hsearch, -⟩
        exact absurd hsearch (not_or.mpr ⟨hle, hc⟩)

theorem TfInfo.IsCluster.clusterNumber {i : TfInfo} (hc : i.IsCluster i.firstDataSector)
    (hsearch : i.Searches) : ClusterNumber i.firstDataSector := by
  have hle : i.clusters ≤ i.totalSectors.toNat - i.firstDataSector.toNat := Nat.div_le_self _ _
  have htotal := i.totalSectors.isLt
  have hfirst := i.firstDataSector.isLt
  obtain ⟨hlo, hhi⟩ := hc
  unfold TfInfo.Searches FatOffset at hsearch
  unfold ClusterNumber
  rcases hsearch with hsearch | hsearch
  · omega
  · rw [BitVec.toInt_eq_toNat_cond] at hsearch
    split at hsearch <;> omega

/-- A search and a mark leave the geometry alone. -/
theorem Fs.geometry_marked (s : Fs) (t : BitVec 32) (off : Nat) (v : BitVec 32) :
    ((s.searched.fetched t).wordSet off v).info.geometry = s.info.geometry := by
  have hfetched : ∀ {s : Fs} (t : BitVec 32), (s.fetched t).info.geometry = s.info.geometry :=
    fun t => Fs.fetched_info TfInfo.geometry (fun _ _ _ _ => rfl) t
  have hsearched : s.searched.info.geometry = s.info.geometry := by
    unfold Fs.searched
    split
    · rfl
    · exact hfetched _
  exact (hfetched t).trans hsearched

/-- A first data sector that is the number of a cluster is found twice. -/
theorem finds_first_again (h : s.ErrorFree) (hsearch : s.info.Searches)
    (hc : s.info.IsCluster s.info.firstDataSector) (v : BitVec 32) :
    ∃ s₁ s₂ s₃, tfFindFreeCluster.Returns s s.info.firstDataSector s₁ ∧
      (tfSetFatEntry s.info.firstDataSector v).Returns s₁ 0#32 s₂ ∧
      tfFindFreeCluster.Returns s₂ s.info.firstDataSector s₃ := by
  have hnumber := hc.clusterNumber hsearch
  have hset := (returns_tfSetFatEntry (v := v) h.searched).mpr
    ⟨⟨hnumber.fatOffset, hnumber.index_nonneg⟩, rfl, rfl⟩
  generalize hs₂ : (s.searched.fetched _).wordSet _ v = s₂ at hset
  have hfree : s₂.ErrorFree := by
    rw [← hs₂]
    exact h.searched.fetched _
  have hsame : s₂.info.geometry = s.info.geometry := by
    rw [← hs₂]
    exact s.geometry_marked ..
  refine ⟨_, s₂, _, (returns_tfFindFreeCluster h).mpr ⟨hsearch, rfl, rfl⟩, hset,
    (returns_tfFindFreeCluster hfree).mpr ⟨?_, ?_, rfl⟩⟩
  · rw [TfInfo.geometry_eq hsame (fun i => i.Searches) fun _ => rfl]
    exact hsearch
  · exact TfInfo.geometry_eq hsame TfInfo.firstDataSector fun _ => rfl

/-- The search does what it is for exactly when there is nothing to find: no cluster is free, and
the number of the first data sector, if its entry can be looked up at all, is not a cluster. -/
theorem findsFree_iff (h : s.ErrorFree) :
    s.FindsFree ↔ s.info.Searches ∧ (¬ ∃ c, s.IsFree c) ∧
      ¬ s.info.IsCluster s.info.firstDataSector := by
  constructor
  · rintro ⟨⟨c, s', hfind, hsome, hnone⟩, hagain⟩
    obtain ⟨hsearch, rfl, -⟩ := (returns_tfFindFreeCluster h).mp hfind
    have hcluster : ¬ s.info.IsCluster s.info.firstDataSector := by
      intro hc
      obtain ⟨s₁, s₂, s₃, h₁, h₂, h₃⟩ := finds_first_again h hsearch hc 1#32
      exact hagain hc (by decide) h₁ h₂ h₃ rfl
    exact ⟨hsearch, fun hfree => hcluster (hsome hfree).1, hcluster⟩
  · rintro ⟨hsearch, hfull, hcluster⟩
    refine ⟨⟨_, _, (returns_tfFindFreeCluster h).mpr ⟨hsearch, rfl, rfl⟩,
      fun hfree => absurd hfree hfull, fun _ => hcluster⟩, ?_⟩
    intro c d v rc s₁ s₂ s₃ hc _ hfind _ _
    obtain ⟨-, rfl, -⟩ := (returns_tfFindFreeCluster h).mp hfind
    exact absurd hc hcluster

end

/-- A driver for a volume without a free cluster, with more sectors in front of the data than it
has clusters. -/
def Fs.full : Fs :=
  { Fs.blank with
    info := { Fs.blank.info with
      firstDataSector := 66559#32, totalSectors := 132084#32, reservedSectors := 65535#16
      buffer := fun _ => 255#8 }
    disk := fun _ _ => 255#8 }

theorem not_isFree_full (c : BitVec 32) : ¬ Fs.full.IsFree c := by
  rintro ⟨-, hfree⟩
  have hview : Fs.full.cache.view (Fs.full.info.fatSector c) = fun _ => 255#8 := by
    unfold WriteBack.view WriteBack.set
    funext k
    split <;> rfl
  have hentry : Fs.full.fatEntry c = 0xffffffff#32 := by
    unfold Fs.fatEntry
    rw [hview]
    simp only [Bytes.word]
    decide
  rw [hentry] at hfree
  exact absurd hfree (by decide)

/-- The full volume: the result is not a cluster. -/
theorem findsFree_iff_full : Fs.full.FindsFree :=
  (findsFree_iff fun _ => rfl).mpr
    ⟨by decide, fun ⟨c, hc⟩ => not_isFree_full c hc, by decide⟩

/-- Two allocations in a row get the cluster with the number of the first data sector. -/
theorem not_findsFree_blank : ¬ Fs.blank.FindsFree ∧
    ∃ s₁ s₂ s₃, tfFindFreeCluster.Returns Fs.blank 1056#32 s₁ ∧
      (tfSetFatEntry 1056#32 0x0fffffff#32).Returns s₁ 0#32 s₂ ∧
      tfFindFreeCluster.Returns s₂ 1056#32 s₃ := by
  have htwice := finds_first_again Fs.errorFree_blank (by decide) (by decide) 0x0fffffff#32
  refine ⟨fun hfinds => ?_, htwice⟩
  obtain ⟨s₁, s₂, s₃, h₁, h₂, h₃⟩ := htwice
  exact hfinds.again (by decide) (by decide) h₁ h₂ h₃ rfl

/-- A cluster in use is returned although cluster 2 is free. -/
theorem tfFindFreeCluster_used : ∃ s₁ s₂,
    (tfSetFatEntry 1056#32 0x0fffffff#32).Returns Fs.blank 0#32 s₁ ∧
      tfFindFreeCluster.Returns s₁ 1056#32 s₂ ∧ s₁.IsFree 2#32 ∧ ¬ s₁.IsFree 1056#32 := by
  have hset := (returns_tfSetFatEntry (c := 1056#32) (v := 0x0fffffff#32) Fs.errorFree_blank).mpr
    ⟨⟨by decide, by decide⟩, rfl, rfl⟩
  have hfree : ((Fs.blank.fetched (Fs.blank.info.fatSector 1056#32)).wordSet (fatIndex 1056#32)
      0x0fffffff#32).ErrorFree := Fs.errorFree_blank.fetched (Fs.blank.info.fatSector 1056#32)
  refine ⟨_, _, hset, (returns_tfFindFreeCluster hfree).mpr ⟨by decide, rfl, rfl⟩, ?_, ?_⟩
  · exact ⟨by decide, by decide⟩
  · exact fun hused => absurd hused.2 (by decide)

end Mavmm.Hostfs
