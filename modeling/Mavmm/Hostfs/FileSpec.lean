import Mavmm.Hostfs.FatEntries
import Mavmm.Hostfs.File

/-!
# Seeks and transfers over a device that never fails

A seek that stays in its cluster, or goes to the first one, changes the handle
only.  Any other one runs into the FAT, and because every entry reads as 0 it
allocates: again and again for the first cluster of the file, which is where it
ends.
-/

namespace Mavmm.Hostfs

section
variable {s s' : Fs} {fp : Handle} {rc : BitVec 32}

theorem run_long_bind {β : Type} {x : Int} {f : Int → FsM β} (h : -2 ^ 63 ≤ x ∧ x < 2 ^ 63) :
    (long x >>= f) s = f x s := by
  unfold long
  rw [if_pos h]
  rfl

/-! ## Seeking -/

/-- A file that grows by one byte if the position is its end. -/
def TfFile.grown (f : TfFile) (pos : Int) : TfFile :=
  if pos = f.size.toNat then
    { f with size := f.size + 1#32, flags := f.flags ||| tfFlagSizechanged }
  else f

/-- A handle in a cluster of its file that is not the one it was in; the number of the cluster is
the one of the first cluster again. -/
def TfFile.inCluster (f : TfFile) (idx : BitVec 32) : TfFile :=
  if idx = f.currentClusterIdx then f
  else { f with currentClusterIdx := idx, currentCluster := f.startCluster }

/-- A handle at a position of its cluster. -/
def TfFile.atByte (f : TfFile) (clusterSize : Nat) (pos : Int) : TfFile :=
  { f with currentByte := BitVec.ofInt 16 (pos.tmod clusterSize), pos := BitVec.ofInt 32 pos }

/-- The handle after a seek that succeeds. -/
def TfFile.sought (f : TfFile) (clusterSize : Nat) (pos : Int) : TfFile :=
  ((f.grown pos).inCluster (BitVec.ofInt 32 (pos.tdiv clusterSize))).atByte clusterSize pos

/-- A seek to the position does not look at the FAT. -/
def TfFile.Near (f : TfFile) (clusterSize : Nat) (pos : Int) : Prop :=
  let idx := BitVec.ofInt 32 (pos.tdiv clusterSize)
  idx = f.currentClusterIdx ∨ idx.toInt ≤ 0

@[simp] theorem TfFile.grown_currentClusterIdx {f : TfFile} {pos : Int} :
    (f.grown pos).currentClusterIdx = f.currentClusterIdx := by
  unfold TfFile.grown
  split <;> rfl

@[simp] theorem Fs.setFile_self {f : TfFile} : (s.setFile fp f).handles fp = f := if_pos rfl

@[simp] theorem Fs.setFile_setFile {f g : TfFile} :
    (s.setFile fp f).setFile fp g = s.setFile fp g := by
  unfold Fs.setFile
  congr 1
  funext h
  split
  · rfl
  · next hne => exact if_neg hne

@[simp] theorem Fs.setFile_handles : s.setFile fp (s.handles fp) = s := by
  unfold Fs.setFile
  have hsame : (fun h => if h = fp then s.handles fp else s.handles h) = s.handles := by
    funext h
    split
    · next heq => rw [heq]
    · rfl
  rw [hsame]

theorem run_moveToCluster {idx mark : BitVec 32}
    (h : idx = (s.handles fp).currentClusterIdx ∨ idx.toInt ≤ 0) :
    moveToCluster fp idx mark s =
      ([], .ok (0#32, s.setFile fp ((s.handles fp).inCluster idx))) := by
  unfold moveToCluster TfFile.inCluster
  rw [run_file_bind]
  by_cases heq : idx = (s.handles fp).currentClusterIdx
  · rw [if_pos heq, if_pos heq, Fs.setFile_handles]
    rfl
  · have hzero : idx.toInt.toNat = 0 := Int.toNat_of_nonpos (h.resolve_left heq)
    rw [if_neg heq, if_neg heq, run_modifyFile_bind, hzero]
    rfl

/-- The step of a seek that makes a file grow. -/
theorem run_grow {pos : Int} :
    Exec.when (pos = (s.handles fp).size.toNat) (modifyFile fp fun f =>
        { f with size := f.size + 1#32, flags := f.flags ||| tfFlagSizechanged }) s =
      ([], .ok ((), s.setFile fp ((s.handles fp).grown pos))) := by
  unfold Exec.when TfFile.grown
  split
  · rfl
  · rw [Fs.setFile_handles]
    rfl

/-- A seek past the end is refused. -/
theorem run_tfUnsafeFseek_beyond {base : BitVec 32} {offset : Int}
    (hpos : -2 ^ 63 ≤ base.toInt + offset ∧ base.toInt + offset < 2 ^ 63)
    (h : (s.handles fp).size.toNat < base.toInt + offset) :
    tfUnsafeFseek fp base offset s = ([], .ok (tfErrInvalidSeek, s)) := by
  unfold tfUnsafeFseek
  rw [run_info_bind, run_long_bind hpos, run_file_bind]
  dsimp only
  rw [if_pos h]
  rfl

theorem run_tfUnsafeFseek {base : BitVec 32} {offset : Int}
    (hpos : -2 ^ 63 ≤ base.toInt + offset ∧ base.toInt + offset < 2 ^ 63)
    (hle : base.toInt + offset ≤ (s.handles fp).size.toNat) (hsize : s.info.clusterSize ≠ 0)
    (hnear : (s.handles fp).Near s.info.clusterSize (base.toInt + offset)) :
    tfUnsafeFseek fp base offset s = ([], .ok (0#32, s.setFile fp
      ((s.handles fp).sought s.info.clusterSize (base.toInt + offset)))) := by
  unfold tfUnsafeFseek TfFile.sought
  generalize base.toInt + offset = pos at *
  rw [run_info_bind, run_long_bind hpos, run_file_bind]
  dsimp only
  rw [if_neg (Int.not_lt.mpr hle)]
  have hnear' : BitVec.ofInt 32 (pos.tdiv s.info.clusterSize) =
      ((s.setFile fp ((s.handles fp).grown pos)).handles fp).currentClusterIdx ∨
      (BitVec.ofInt 32 (pos.tdiv s.info.clusterSize)).toInt ≤ 0 := by
    rw [Fs.setFile_self, TfFile.grown_currentClusterIdx]
    exact hnear
  rw [Exec.run_bind run_grow, if_neg hsize, Exec.run_bind (run_moveToCluster hnear'),
    Fs.setFile_self, Fs.setFile_setFile, if_neg (not_not_intro rfl), run_modifyFile_bind,
    Fs.setFile_self, Fs.setFile_setFile]
  rfl

theorem run_tfUnsafeFseek_zero {base : BitVec 32} {offset : Int}
    (hpos : -2 ^ 63 ≤ base.toInt + offset ∧ base.toInt + offset < 2 ^ 63)
    (hle : base.toInt + offset ≤ (s.handles fp).size.toNat) (hsize : s.info.clusterSize = 0) :
    tfUnsafeFseek fp base offset s = ([], .error .divideError) := by
  unfold tfUnsafeFseek
  rw [run_info_bind, run_long_bind hpos, run_file_bind]
  dsimp only
  rw [if_neg (Int.not_lt.mpr hle)]
  rw [Exec.run_bind run_grow, if_pos hsize]
  rfl

/-! ### Seeks that return -/

inductive Seek where
  | fseek
  | unsafeFseek

def Seek.exec : Seek → Handle → BitVec 32 → Int → FsM (BitVec 32)
  | fseek => tfFseek
  | unsafeFseek => tfUnsafeFseek

/-- The position is not one of those that the function allows in a file of this size. -/
def Seek.Refuses (size : Nat) (pos : Int) : Seek → Prop
  | fseek => size ≤ pos
  | unsafeFseek => size < pos

section
variable {base : BitVec 32} {offset : Int}

theorem returns_long {x y : Int} (h : (long x).Returns s y s') : x = y ∧ s = s' := by
  unfold long at h
  split at h
  · exact Exec.returns_pure.mp h
  · cases h

/-- A seek that is not refused changes the cluster, and then sets the position. -/
structure Moves (fp : Handle) (pos : Int) (s : Fs) (rc : BitVec 32) (s' : Fs) : Prop where
  clusterSize : s.info.clusterSize ≠ 0
  move : ∃ mark rc' t,
    (moveToCluster fp (BitVec.ofInt 32 (pos.tdiv s.info.clusterSize)) mark).Returns
      (s.setFile fp ((s.handles fp).grown pos)) rc' t ∧
    if rc' = 0#32 then rc = 0#32 ∧ s' = t.setFile fp ((t.handles fp).atByte s.info.clusterSize pos)
    else rc = rc' ∧ s' = t

/-- Either the seek is refused, and nothing has changed, or it moves. -/
theorem returns_tfUnsafeFseek (h : (tfUnsafeFseek fp base offset).Returns s rc s') :
    if (s.handles fp).size.toNat < base.toInt + offset then rc = tfErrInvalidSeek ∧ s' = s
    else Moves fp (base.toInt + offset) s rc s' := by
  unfold tfUnsafeFseek Exec.Returns at h
  rw [run_info_bind] at h
  obtain ⟨pos, t, hlong, h⟩ := Exec.returns_bind.mp h
  obtain ⟨hpos, rfl⟩ := returns_long hlong
  rw [hpos]
  unfold Exec.Returns at h
  rw [run_file_bind] at h
  dsimp only at h
  split at h
  · next hlt =>
    rw [if_pos hlt]
    obtain ⟨rfl, rfl⟩ := Exec.returns_pure.mp h
    exact ⟨rfl, rfl⟩
  · next hle =>
    rw [if_neg hle]
    rw [Exec.run_bind run_grow] at h
    by_cases hsize : s.info.clusterSize = 0
    · rw [if_pos hsize] at h
      cases h
    · rw [if_neg hsize] at h
      obtain ⟨rc', t, hmove, h⟩ := Exec.returns_bind.mp h
      refine ⟨hsize, _, rc', t, hmove, ?_⟩
      by_cases hrc : rc' = 0#32
      · rw [if_neg (not_not_intro hrc)] at h
        rw [if_pos hrc]
        cases h
        exact ⟨rfl, rfl⟩
      · rw [if_pos hrc] at h
        rw [if_neg hrc]
        obtain ⟨rfl, rfl⟩ := Exec.returns_pure.mp h
        exact ⟨rfl, rfl⟩

theorem Seek.returns_exec {q : Seek} (h : (q.exec fp base offset).Returns s rc s') :
    q.Refuses (s.handles fp).size.toNat (base.toInt + offset) ∧ rc = tfErrInvalidSeek ∧ s' = s ∨
      ¬ q.Refuses (s.handles fp).size.toNat (base.toInt + offset) ∧
        Moves fp (base.toInt + offset) s rc s' := by
  have hunsafe : ∀ {s}, (tfUnsafeFseek fp base offset).Returns s rc s' →
      ¬ ((s.handles fp).size.toNat : Int) < base.toInt + offset →
      Moves fp (base.toInt + offset) s rc s' := by
    intro s h hle
    have hmoves := returns_tfUnsafeFseek h
    rwa [if_neg hle] at hmoves
  cases q with
  | unsafeFseek =>
    by_cases hlt : ((s.handles fp).size.toNat : Int) < base.toInt + offset
    · have hrefused := returns_tfUnsafeFseek h
      rw [if_pos hlt] at hrefused
      exact Or.inl ⟨hlt, hrefused⟩
    · exact Or.inr ⟨hlt, hunsafe h hlt⟩
  | fseek =>
    unfold Seek.exec tfFseek at h
    obtain ⟨pos, t, hlong, h⟩ := Exec.returns_bind.mp h
    obtain ⟨hpos, rfl⟩ := returns_long hlong
    unfold Exec.Returns at h
    rw [run_file_bind, ← hpos] at h
    split at h
    · next hle =>
      obtain ⟨rfl, rfl⟩ := Exec.returns_pure.mp h
      exact Or.inl ⟨hle, rfl, rfl⟩
    · next hlt => exact Or.inr ⟨hlt, hunsafe h fun hle => hlt (Int.le_of_lt hle)⟩

end

/-! ### Seeks to a position -/

section
variable {p : Nat}

theorem zero_add_pos (p : Nat) : (0#32).toInt + (p : Int) = p := Int.zero_add _

theorem pos_range (hp : p < 2 ^ 32) :
    -2 ^ 63 ≤ (0#32).toInt + (p : Int) ∧ (0#32).toInt + (p : Int) < 2 ^ 63 := by
  rw [zero_add_pos]
  omega

theorem run_seekTo_beyond (hp : p < 2 ^ 32) (h : (s.handles fp).size.toNat < p) :
    tfUnsafeFseek fp 0#32 p s = ([], .ok (tfErrInvalidSeek, s)) := by
  apply run_tfUnsafeFseek_beyond (pos_range hp)
  rw [zero_add_pos]
  exact Int.ofNat_lt.mpr h

theorem run_seekTo_zero (hp : p < 2 ^ 32) (hle : p ≤ (s.handles fp).size.toNat)
    (hsize : s.info.clusterSize = 0) :
    tfUnsafeFseek fp 0#32 p s = ([], .error .divideError) := by
  apply run_tfUnsafeFseek_zero (pos_range hp) _ hsize
  rw [zero_add_pos]
  exact Int.ofNat_le.mpr hle

theorem run_seekTo (hp : p < 2 ^ 32) (hle : p ≤ (s.handles fp).size.toNat)
    (hsize : s.info.clusterSize ≠ 0) (hnear : (s.handles fp).Near s.info.clusterSize p) :
    tfUnsafeFseek fp 0#32 p s =
      ([], .ok (0#32, s.setFile fp ((s.handles fp).sought s.info.clusterSize p))) := by
  have hrun := @run_tfUnsafeFseek s fp _ _ (pos_range hp)
  rw [zero_add_pos] at hrun
  exact hrun (Int.ofNat_le.mpr hle) hsize hnear

end

/-! ## Positions -/

section
variable {f : TfFile} {clusterSize pos : Nat}

/-- The number of the cluster of a file in which a position lies. -/
def clusterOf (clusterSize pos : Nat) : Nat := pos % 2 ^ 32 / clusterSize

theorem toNat_ofInt_tdiv (h : pos < 2 ^ 32) :
    (BitVec.ofInt 32 ((pos : Int).tdiv clusterSize)).toNat = clusterOf clusterSize pos := by
  have hle := Nat.div_le_self pos clusterSize
  rw [← Int.ofNat_tdiv, BitVec.toNat_ofInt]
  unfold clusterOf
  rw [Nat.mod_eq_of_lt h]
  generalize pos / clusterSize = q at *
  omega

@[simp] theorem TfFile.sought_currentClusterIdx {pos : Int} :
    (f.sought clusterSize pos).currentClusterIdx = BitVec.ofInt 32 (pos.tdiv clusterSize) := by
  unfold TfFile.sought TfFile.inCluster
  split
  · next h => exact h.symm
  · rfl

@[simp] theorem TfFile.sought_pos {pos : Int} :
    (f.sought clusterSize pos).pos = BitVec.ofInt 32 pos := rfl

theorem TfFile.near_of (h : pos < 2 ^ 32) (hcluster : clusterOf clusterSize pos = 0 ∨
    clusterOf clusterSize pos = f.currentClusterIdx.toNat) : f.Near clusterSize pos := by
  rw [← toNat_ofInt_tdiv h] at hcluster
  rcases hcluster with hzero | hsame
  · right
    rw [BitVec.eq_of_toNat_eq (y := 0#32) hzero]
    decide
  · exact Or.inl (BitVec.eq_of_toNat_eq hsame)

end

end

end Mavmm.Hostfs
