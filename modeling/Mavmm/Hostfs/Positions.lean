import Mavmm.Hostfs.Seeks

/-!
# The byte of a position in its cluster

A seek stores the remainder of the position as a `short`.  A handle whose byte
is the one of its position (`AtPosition`) is in the buffer, and in a sector of
its cluster, when the byte is transferred.  In clusters of more than 32 KiB
the remainder may not fit, and before the start of the file it is negative.
-/

namespace Mavmm.Hostfs

open Exec (Keeps)

/-- The handle is at the byte of the position, and a transfer there uses a byte of the buffer and
a sector of the current cluster. -/
structure AtPosition (fp : Handle) (pos : Int) (s : Fs) : Prop where
  byte : (s.handles fp).currentByte.toInt = pos % s.info.clusterSize
  nonneg : 0 ≤ (s.handles fp).currentByte.toInt
  index : ∀ {k t}, (fetchCurrent fp).Returns s k t → k < 512
  sector : ∀ {k t}, (fetchCurrent fp).Returns s k t → ∃ first sector rc,
    (tfFirstSector (s.handles fp).currentCluster).Returns s first s ∧
      (tfFetch sector).Returns s rc t ∧ first.toInt ≤ sector.toInt ∧
        sector.toInt < first.toInt + s.info.sectorsPerCluster.toNat
  inBounds : (fetchCurrent fp s).2 ≠ .error .outOfBounds

/-- The byte of the position in its cluster, as a `short`, is what it should be. -/
def ByteFits (sectorsPerCluster : Nat) (pos : Int) : Prop :=
  pos % (sectorsPerCluster * 512 : Nat) < 2 ^ 15 ∧
    (0 ≤ pos ∨ pos % (sectorsPerCluster * 512 : Nat) = 0 ∨ sectorsPerCluster = 128)

instance (n : Nat) (pos : Int) : Decidable (ByteFits n pos) :=
  inferInstanceAs (Decidable (_ ∧ _))

section
variable {s s' : Fs} {fp : Handle} {base : BitVec 32} {offset pos : Int}

/-! ## The remainder as a short -/

/-- A remainder that is negative in C is right when the cluster has 2^16 bytes. -/
theorem toInt_tmod {n : Nat} (hpos : 0 < n) (hlt : n < 256) :
    (BitVec.ofInt 16 (pos.tmod (n * 512 : Nat))).toInt = pos % (n * 512 : Nat) ↔
      ByteFits n pos := by
  have hsize : 0 < ((n * 512 : Nat) : Int) := by omega
  have hlo := Int.emod_nonneg pos (Int.ne_of_gt hsize)
  have hhi := Int.emod_lt_of_pos pos hsize
  have hmod : pos.tmod (n * 512 : Nat) =
      if 0 ≤ pos ∨ pos % (n * 512 : Nat) = 0 then pos % (n * 512 : Nat)
      else pos % (n * 512 : Nat) - (n * 512 : Nat) := by
    rw [Int.tmod_eq_emod]
    simp only [Int.dvd_iff_emod_eq_zero, Int.natAbs_natCast]
    split <;> omega
  unfold ByteFits
  rw [BitVec.toInt_ofInt, hmod]
  generalize pos % (n * 512 : Nat) = m at *
  by_cases hsign : 0 ≤ pos ∨ m = 0
  · rw [if_pos hsign, ← BitVec.toInt_ofInt, toInt_ofInt_byte ⟨hlo, by omega⟩, ← or_assoc,
      and_iff_left (Or.inl hsign)]
  · rw [if_neg hsign, ← or_assoc, or_iff_right hsign]
    constructor
    · intro heq
      have hdvd : (2 ^ 16 : Int) ∣ (m - (n * 512 : Nat)).bmod (2 ^ 16) - (m - (n * 512 : Nat)) :=
        Int.dvd_bmod_sub_self
      have hbound := Int.bmod_lt (x := m - (n * 512 : Nat)) (m := 2 ^ 16) (by decide)
      rw [heq] at hdvd hbound
      omega
    · rintro ⟨hm, rfl⟩
      have hshift : m - ((128 * 512 : Nat) : Int) = m + (2 ^ 16 : Nat) * (-1) := by omega
      rw [hshift, Int.add_mul_bmod_self_left]
      exact Int.bmod_eq_of_le (by omega) (by omega)

/-! ## The sector of the byte -/

theorem tfFirstSector_cases (c : BitVec 32) (s : Fs) :
    (∃ first, tfFirstSector c s = ([], .ok (first, s))) ∨
      tfFirstSector c s = ([], .error .undefinedBehaviour) := by
  unfold tfFirstSector
  rw [run_info_bind]
  by_cases hn : -2 ^ 31 ≤ c.toInt - 2 ∧ c.toInt - 2 < 2 ^ 31
  · rw [run_int_bind hn]
    by_cases hsectors : -2 ^ 31 ≤ (BitVec.ofInt 32 (c.toInt - 2)).toInt *
        s.info.sectorsPerCluster.toNat ∧ (BitVec.ofInt 32 (c.toInt - 2)).toInt *
          s.info.sectorsPerCluster.toNat < 2 ^ 31
    · rw [run_int_bind hsectors]
      exact Or.inl ⟨_, rfl⟩
    · exact Or.inr (run_int_bind_fails hsectors)
  · exact Or.inr (run_int_bind_fails hn)

theorem tfFetch_total (t : BitVec 32) (s : Fs) : ∃ rc s', tfFetch t s = ([], .ok (rc, s')) := by
  by_cases ht : t = s.info.currentSector
  · unfold tfFetch
    rw [run_info_bind, if_pos ht]
    exact ⟨_, _, rfl⟩
  · exact ⟨_, _, run_tfFetch_any ht⟩

/-- A handle at a byte of its cluster transfers from that cluster. -/
theorem atPosition_of_byte (hsize : s.info.clusterSize ≠ 0)
    (hbyte : (s.handles fp).currentByte.toInt = pos % s.info.clusterSize) :
    AtPosition fp pos s := by
  have hlo : 0 ≤ (s.handles fp).currentByte.toInt :=
    hbyte ▸ Int.emod_nonneg _ (Int.natCast_ne_zero.mpr hsize)
  have hhi : (s.handles fp).currentByte.toInt < s.info.sectorsPerCluster.toNat * 512 := by
    rw [hbyte]
    exact Int.emod_lt_of_pos _ (by omega)
  have hindex : ¬ (s.handles fp).currentByte.toInt.tmod 512 < 0 :=
    Int.not_lt.mpr (Int.tmod_nonneg _ hlo)
  have hdiv : (s.handles fp).currentByte.toInt.tdiv 512 =
      (s.handles fp).currentByte.toInt / 512 := Int.tdiv_eq_ediv_of_nonneg hlo
  have hmod : (s.handles fp).currentByte.toInt.tmod 512 =
      (s.handles fp).currentByte.toInt % 512 := Int.tmod_eq_emod_of_nonneg hlo
  have hcases : (fetchCurrent fp s).2 = .error .undefinedBehaviour ∨ ∃ first sector rc t,
      fetchCurrent fp s = ([], .ok (((s.handles fp).currentByte.toInt.tmod 512).toNat, t)) ∧
        (tfFirstSector (s.handles fp).currentCluster).Returns s first s ∧
          (tfFetch sector).Returns s rc t ∧ first.toInt ≤ sector.toInt ∧
            sector.toInt < first.toInt + s.info.sectorsPerCluster.toNat := by
    unfold fetchCurrent
    rw [run_file_bind]
    rcases tfFirstSector_cases (s.handles fp).currentCluster s with ⟨first, hfirst⟩ | hfirst
    · rw [Exec.run_bind hfirst]
      by_cases hint : -2 ^ 31 ≤ first.toInt + (s.handles fp).currentByte.toInt.tdiv 512 ∧
          first.toInt + (s.handles fp).currentByte.toInt.tdiv 512 < 2 ^ 31
      · rw [run_int_bind hint]
        obtain ⟨rc, t, hfetch⟩ := tfFetch_total
          (BitVec.ofInt 32 (first.toInt + (s.handles fp).currentByte.toInt.tdiv 512)) s
        rw [Exec.run_bind hfetch]
        dsimp only
        rw [if_neg hindex]
        refine Or.inr ⟨first, _, rc, t, rfl, congrArg Prod.snd hfirst,
          congrArg Prod.snd hfetch, ?_⟩
        rw [toInt_ofInt hint, hdiv]
        omega
      · rw [run_int_bind_fails hint]
        exact Or.inl rfl
    · rw [Exec.run_bind_fails hfirst]
      exact Or.inl rfl
  refine ⟨hbyte, hlo, ?_, ?_, ?_⟩
  · intro k t hk
    rcases hcases with hfails | ⟨-, -, -, t', hrun, -⟩
    · cases hfails.symm.trans hk
    · obtain ⟨rfl, -⟩ := (Exec.returns_of_run hrun).mp hk
      omega
  · intro k t hk
    rcases hcases with hfails | ⟨first, sector, rc, t', hrun, hrest⟩
    · cases hfails.symm.trans hk
    · obtain ⟨-, rfl⟩ := (Exec.returns_of_run hrun).mp hk
      exact ⟨first, sector, rc, hrest⟩
  · rcases hcases with hfails | ⟨-, -, -, t', hrun, -⟩
    · rw [hfails]
      exact nofun
    · rw [hrun]
      exact nofun

/-! ## Seeks -/

instance {i : TfInfo} {g : TfFile → TfFile} : Keeps (HasGeometry i) (modifyFile fp g) :=
  Exec.keeps_modify fun _ h => h

instance {i : TfInfo} {idx mark : BitVec 32} : Keeps (HasGeometry i) (moveToCluster fp idx mark) := by
  have hseek : ∀ n, Keeps (HasGeometry i) (seekCluster fp mark n) :=
    fun n => keeps_seekCluster fun _ => inferInstance
  unfold moveToCluster
  infer_instance

/-- A seek that succeeds ends at the byte of the position exactly when it fits. -/
theorem seek_atPosition_iff (h : (tfUnsafeFseek fp base offset).Returns s 0#32 s') :
    AtPosition fp (base.toInt + offset) s' ↔
      ByteFits s.info.sectorsPerCluster.toNat (base.toInt + offset) := by
  have hmoves := returns_tfUnsafeFseek h
  split at hmoves
  · exact absurd hmoves.1 (by decide)
  · obtain ⟨mark, rc', t, hmove, hrest⟩ := hmoves.move
    split at hrest
    · obtain ⟨-, rfl⟩ := hrest
      have hstart : HasGeometry s.info
          (s.setFile fp ((s.handles fp).grown (base.toInt + offset))) := rfl
      have hgeometry : HasGeometry s.info t := Keeps.keeps hstart hmove
      have hsize : (t.setFile fp ((t.handles fp).atByte s.info.clusterSize
          (base.toInt + offset))).info.clusterSize = s.info.clusterSize :=
        TfInfo.geometry_eq hgeometry TfInfo.clusterSize fun _ => rfl
      have hspc : 0 < s.info.sectorsPerCluster.toNat := by
        have hne := hmoves.clusterSize
        unfold TfInfo.clusterSize at hne
        omega
      rw [← toInt_tmod hspc s.info.sectorsPerCluster.isLt]
      constructor
      · intro hat
        have hbyte := hat.byte
        rw [hsize, Fs.setFile_self] at hbyte
        exact hbyte
      · intro hbyte
        refine atPosition_of_byte (fun hzero => hmoves.clusterSize (hsize.symm.trans hzero)) ?_
        rw [hsize, Fs.setFile_self]
        exact hbyte
    · next hne => exact absurd hrest.1.symm hne

end

/-- A file of the given size, with all handles at its start. -/
def Fs.longFile (sectorsPerCluster : BitVec 8) (size : BitVec 32) : Fs :=
  let f : TfFile := { Fs.blank.handles firstHandle with
    startCluster := 2#32, currentCluster := 2#32, size := size }
  { Fs.blank with
    info := { Fs.blank.info with sectorsPerCluster }
    handles := fun _ => f }

/-- Byte 50 of a cluster of one sector. -/
theorem seek_atPosition_iff_near : ∃ s',
    (tfUnsafeFseek firstHandle 0#32 50).Returns (Fs.longFile 1#8 100#32) 0#32 s' ∧
      AtPosition firstHandle 50 s' := by
  have hseek := @run_tfUnsafeFseek (Fs.longFile 1#8 100#32) firstHandle 0#32 50
    (by decide) (by decide) (by decide) (Or.inl (by decide))
  have hreturns := congrArg Prod.snd hseek
  exact ⟨_, hreturns, (seek_atPosition_iff hreturns).mpr (by decide)⟩

/-- Byte 40000 of a cluster of 64 KiB is stored as -25536, and no byte of the buffer. -/
theorem seek_not_atPosition : ∃ s',
    (tfUnsafeFseek firstHandle 0#32 40000).Returns (Fs.longFile 128#8 50000#32) 0#32 s' ∧
      (s'.handles firstHandle).currentByte.toInt = -25536 ∧ ¬ AtPosition firstHandle 40000 s' ∧
        (fetchCurrent firstHandle s').2 = .error .outOfBounds := by
  have hseek := @run_tfUnsafeFseek (Fs.longFile 128#8 50000#32) firstHandle 0#32 40000
    (by decide) (by decide) (by decide) (Or.inl (by decide))
  refine ⟨_, congrArg Prod.snd hseek, by decide, fun hat => ?_, rfl⟩
  exact absurd hat.nonneg (by decide)

end Mavmm.Hostfs
