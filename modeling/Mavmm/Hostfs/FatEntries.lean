import Mavmm.Hostfs.SectorSpec

/-!
# FAT entries

`tf_set_fat_entry` puts a value where the FAT has the entry of the cluster, and
`tf_get_fat_entry` fetches the sector with it.  But what it returns is the code
of the fetch: every entry reads as 0 (`fatAccess_iff`).
-/

namespace Mavmm.Hostfs

/-- The FAT entry of a cluster, in the buffer or on the disk. -/
def Fs.fatEntry (s : Fs) (cluster : BitVec 32) : BitVec 32 :=
  Bytes.word (s.cache.view (s.info.fatSector cluster)) 4 (fatIndex cluster)

/-- A number for which the place of its FAT entry can be computed. -/
def ClusterNumber (cluster : BitVec 32) : Prop := cluster.toNat < 2 ^ 29

instance (cluster : BitVec 32) : Decidable (ClusterNumber cluster) :=
  inferInstanceAs (Decidable (_ < _))

theorem ClusterNumber.fatOffset {c : BitVec 32} (h : ClusterNumber c) : FatOffset c := by
  unfold ClusterNumber at h
  unfold FatOffset
  rw [BitVec.toInt_eq_toNat_of_lt (by omega)]
  omega

theorem ClusterNumber.index_nonneg {c : BitVec 32} (h : ClusterNumber c) :
    0 ≤ (c.toInt * 4).tmod 512 := by
  unfold ClusterNumber at h
  rw [BitVec.toInt_eq_toNat_of_lt (by omega)]
  exact Int.tmod_nonneg _ (by omega)

section
variable {s s' : Fs} {c v rc : BitVec 32}

/-- Whatever the entry is, 0 is returned. -/
theorem returns_tfGetFatEntry (h : s.ErrorFree) (hc : FatOffset c) :
    (tfGetFatEntry c).Returns s rc s' ↔ 0#32 = rc ∧ s.fetched (s.info.fatSector c) = s' :=
  Exec.returns_of_run (run_tfGetFatEntry h hc)

theorem tfGetFatEntry_zero (h : s.ErrorFree) (hget : (tfGetFatEntry c).Returns s rc s') :
    rc = 0#32 := by
  by_cases hc : FatOffset c
  · exact ((returns_tfGetFatEntry h hc).mp hget).1.symm
  · unfold tfGetFatEntry Exec.Returns at hget
    rw [run_int_bind_fails hc] at hget
    cases hget

theorem returns_tfSetFatEntry (h : s.ErrorFree) : (tfSetFatEntry c v).Returns s rc s' ↔
    (FatOffset c ∧ 0 ≤ (c.toInt * 4).tmod 512) ∧ 0#32 = rc ∧
      (s.fetched (s.info.fatSector c)).wordSet (fatIndex c) v = s' := by
  constructor
  · intro hset
    have hc := tfSetFatEntry_range h hset
    exact ⟨hc, (Exec.returns_of_run (run_tfSetFatEntry h hc.1 hc.2 v)).mp hset⟩
  · rintro ⟨hc, hrun⟩
    exact (Exec.returns_of_run (run_tfSetFatEntry h hc.1 hc.2 v)).mpr hrun

/-- What was set is in the FAT, whatever the disk holds. -/
theorem fatEntry_set :
    ((s.fetched (s.info.fatSector c)).wordSet (fatIndex c) v).fatEntry c = v := by
  have hsector : (s.fetched (s.info.fatSector c)).info.fatSector c = s.info.fatSector c := by
    unfold TfInfo.fatSector Fs.fetched
    split
    · rfl
    · split <;> rfl
  have hview : ((s.fetched (s.info.fatSector c)).wordSet (fatIndex c) v).cache.view
      (s.info.fatSector c) =
      Bytes.putWord (s.fetched (s.info.fatSector c)).info.buffer 4 (fatIndex c) v :=
    if_pos (Fs.fetched_currentSector _).symm
  change Bytes.word (((s.fetched (s.info.fatSector c)).wordSet (fatIndex c) v).cache.view
    ((s.fetched (s.info.fatSector c)).info.fatSector c)) 4 (fatIndex c) = v
  rw [hsector, hview]
  exact Bytes.word_putWord (n := 4)

end

/-- After an entry was set, that entry reads as the value, and any other one as what it was, exactly
when all of this is 0. -/
theorem fatAccess_iff {s s' : Fs} {c d v : BitVec 32} (h : s.ErrorFree)
    (hset : (tfSetFatEntry c v).Returns s 0#32 s') (hd : ClusterNumber d) :
    ((∃ t, (tfGetFatEntry c).Returns s' v t) ∧
        (d ≠ c → ∃ t, (tfGetFatEntry d).Returns s' (s.fatEntry d) t)) ↔
      v = 0#32 ∧ (d ≠ c → s.fatEntry d = 0#32) := by
  obtain ⟨⟨hc, -⟩, -, rfl⟩ := (returns_tfSetFatEntry h).mp hset
  have hfree : ((s.fetched (s.info.fatSector c)).wordSet (fatIndex c) v).ErrorFree := h.fetched _
  have hget : ∀ {cluster x : BitVec 32}, FatOffset cluster →
      ((∃ t, (tfGetFatEntry cluster).Returns
        ((s.fetched (s.info.fatSector c)).wordSet (fatIndex c) v) x t) ↔ x = 0#32) := by
    intro cluster x hcluster
    constructor
    · rintro ⟨t, ht⟩
      exact ((returns_tfGetFatEntry hfree hcluster).mp ht).1.symm
    · rintro rfl
      exact ⟨_, (returns_tfGetFatEntry hfree hcluster).mpr ⟨rfl, rfl⟩⟩
  rw [hget hc, hget hd.fatOffset]

/-- A driver that has been started on an empty disk, with the FAT from sector 32 on. -/
def Fs.blank : Fs where
  info := { type := 1#8, sectorsPerCluster := 1#8, firstDataSector := 1056#32
            totalSectors := 70000#32, reservedSectors := 32#16, currentSector := 0#32
            sectorFlags := 0#8, rootDirectorySize := 0#32, buffer := fun _ => 0#8 }
  handles := fun _ =>
    { parentStartCluster := 0#32, startCluster := 0#32, currentClusterIdx := 0#32
      currentCluster := 0#32, currentSector := 0#16, currentByte := 0#16, pos := 0#32
      flags := 0#8, attributes := 0#8, mode := 0#8, size := 0#32, filename := fun _ => 0#8 }
  disk := fun _ _ => 0#8
  answers := fun _ => { rc := 0#32, sector := fun _ => 0#8 }
  locals := fun _ _ => 0#8

def firstHandle : Handle := ⟨0, by decide⟩

theorem Fs.errorFree_blank : Fs.blank.ErrorFree := fun _ => rfl

/-- An entry is marked as free, and another one is free. -/
theorem fatAccess_iff_free : ∃ s', (tfSetFatEntry 2#32 0#32).Returns Fs.blank 0#32 s' ∧
    ∃ t, (tfGetFatEntry 3#32).Returns s' 0#32 t := by
  have hset := (returns_tfSetFatEntry (c := 2#32) (v := 0#32) Fs.errorFree_blank).mpr
    ⟨⟨by decide, by decide⟩, rfl, rfl⟩
  obtain ⟨-, hother⟩ := (fatAccess_iff (d := 3#32) Fs.errorFree_blank hset (by decide)).mpr
    ⟨rfl, fun _ => rfl⟩
  exact ⟨_, hset, hother (by simp)⟩

/-- The cluster that follows cluster 2 is set to 3 and read as 0. -/
theorem fatAccess_misread : ∃ s', (tfSetFatEntry 2#32 3#32).Returns Fs.blank 0#32 s' ∧
    (∃ t, (tfGetFatEntry 2#32).Returns s' 0#32 t) ∧
    ¬ ∃ t, (tfGetFatEntry 2#32).Returns s' 3#32 t := by
  have hset := (returns_tfSetFatEntry (c := 2#32) (v := 3#32) Fs.errorFree_blank).mpr
    ⟨⟨by decide, by decide⟩, rfl, rfl⟩
  have hfree := Fs.errorFree_blank.fetched (Fs.blank.info.fatSector 2#32)
  have hget := @returns_tfGetFatEntry
    ((Fs.blank.fetched (Fs.blank.info.fatSector 2#32)).wordSet (fatIndex 2#32) 3#32)
  refine ⟨_, hset, ⟨_, (hget hfree (by decide)).mpr ⟨rfl, rfl⟩⟩, ?_⟩
  rintro ⟨t, ht⟩
  exact absurd ((hget hfree (by decide)).mp ht).1 (by decide)

end Mavmm.Hostfs
