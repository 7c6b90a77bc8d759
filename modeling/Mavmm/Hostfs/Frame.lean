import Mavmm.Hostfs.File

/-!
# What the operations on sectors leave alone

Fetching and storing sectors, and reading and setting FAT entries, change the
buffer and the disk, and take answers of the device.  A property of the handles,
of the geometry and of the answers to come (`OfVolume`) is kept by all of them.
-/

namespace Mavmm.Hostfs

open Exec (Keeps)

/-- A property of the handles, and of what the device answers to the calls to come. -/
class OfHandles (I : Fs → Prop) : Prop where
  keeps : ∀ {s s' : Fs}, s'.handles = s.handles → (∀ n, ∃ m, s'.answers n = s.answers m) →
    I s → I s'

/-- The fields that do not depend on the buffer. -/
def TfInfo.geometry (i : TfInfo) : TfInfo :=
  { i with currentSector := 0#32, sectorFlags := 0#8, buffer := fun _ => 0#8 }

theorem TfInfo.geometry_eq {i j : TfInfo} (h : j.geometry = i.geometry) {γ : Type} (g : TfInfo → γ)
    (hg : ∀ i, g i.geometry = g i) : g j = g i := by
  rw [← hg j, h, hg]

/-- A property of the handles, of the geometry, and of what the device answers. -/
class OfVolume (I : Fs → Prop) : Prop where
  keeps : ∀ {s s' : Fs}, s'.handles = s.handles → s'.info.geometry = s.info.geometry →
    (∀ n, ∃ m, s'.answers n = s.answers m) → I s → I s'

instance {I : Fs → Prop} [hI : OfHandles I] : OfVolume I where
  keeps hhandles _ hanswers h := hI.keeps hhandles hanswers h

/-- The geometry is that of `i`. -/
def HasGeometry (i : TfInfo) (s : Fs) : Prop := s.info.geometry = i.geometry

instance {i : TfInfo} : OfVolume (HasGeometry i) where
  keeps _ hgeometry _ h := hgeometry.trans h

/-- The change leaves the geometry alone. -/
class KeepsGeometry (g : TfInfo → TfInfo) : Prop where
  geometry_eq : ∀ i, (g i).geometry = i.geometry

instance {sector : TfInfo → BitVec 32} {flags : TfInfo → BitVec 8} {buffer : TfInfo → Sector} :
    KeepsGeometry fun i => ⟨i.type, i.sectorsPerCluster, i.firstDataSector, i.totalSectors,
      i.reservedSectors, sector i, flags i, i.rootDirectorySize, buffer i⟩ where
  geometry_eq _ := rfl

/-- The device never fails, and these are the handles. -/
structure Unmoved (files : Handle → TfFile) (s : Fs) : Prop where
  errorFree : s.ErrorFree
  handles : s.handles = files

instance {files : Handle → TfFile} : OfHandles (Unmoved files) where
  keeps hhandles hanswers h := by
    refine ⟨fun n => ?_, hhandles.trans h.handles⟩
    obtain ⟨m, hm⟩ := hanswers n
    rw [hm]
    exact h.errorFree m

variable {I : Fs → Prop} {fp : Handle} {cluster value : BitVec 32}

/-! ## Reading -/

instance {α : Type} {f : FsFault} : Keeps I (fault f : FsM α) :=
  inferInstanceAs (Keeps _ (Exec.probe _))

instance : Keeps I info := inferInstanceAs (Keeps _ (Exec.probe _))

instance : Keeps I (file fp) := inferInstanceAs (Keeps _ (Exec.probe _))

instance {x : Int} : Keeps I (int x) := by
  unfold int
  infer_instance

instance {x : Int} : Keeps I (long x) := by
  unfold long
  infer_instance

instance : Keeps I (tfFirstSector cluster) := by
  unfold tfFirstSector
  infer_instance

/-! ## Sectors -/

instance {g : TfInfo → TfInfo} [hI : OfHandles I] : Keeps I (modifyInfo g) :=
  Exec.keeps_modify fun _ => hI.keeps rfl fun n => ⟨n, rfl⟩

section
variable [hI : OfVolume I]

theorem keeps_modify_apart {g : Fs → Fs} (hhandles : ∀ s, (g s).handles = s.handles)
    (hgeometry : ∀ s, (g s).info.geometry = s.info.geometry)
    (hanswers : ∀ s n, ∃ m, (g s).answers n = s.answers m) :
    Keeps I (Exec.modify g : FsM Unit) :=
  Exec.keeps_modify fun s => hI.keeps (hhandles s) (hgeometry s) (hanswers s)

instance {g : TfInfo → TfInfo} [hg : KeepsGeometry g] : Keeps I (modifyInfo g) :=
  keeps_modify_apart (fun _ => rfl) (fun s => hg.geometry_eq s.info) fun _ n => ⟨n, rfl⟩

instance : Keeps I nextAnswer := by
  have hnext := @keeps_modify_apart I _ (fun s => { s with answers := fun n => s.answers (n + 1) })
    (fun _ => rfl) (fun _ => rfl) fun _ n => ⟨n + 1, rfl⟩
  unfold nextAnswer
  infer_instance

instance {sector : BitVec 32} : Keeps I (readSector sector) := by
  have hread := fun answer : Answer => @keeps_modify_apart I _ (fun s => { s with
    info := { s.info with
      buffer := if answer.rc = 0#32 then s.disk sector else answer.sector } })
    (fun _ => rfl) (fun _ => rfl) fun _ n => ⟨n, rfl⟩
  unfold readSector
  infer_instance

instance {sector : BitVec 32} : Keeps I (writeSector sector) := by
  have hwrite := fun answer : Answer => @keeps_modify_apart I _ (fun s => { s with
    disk := WriteBack.set s.disk sector
      (if answer.rc = 0#32 then s.info.buffer else answer.sector) })
    (fun _ => rfl) (fun _ => rfl) fun _ n => ⟨n, rfl⟩
  unfold writeSector
  infer_instance

instance : Keeps I tfStore := by
  unfold tfStore
  infer_instance

instance {sector : BitVec 32} : Keeps I (tfFetch sector) := by
  unfold tfFetch
  infer_instance

instance {off : Nat} {v : Byte} : Keeps I (setByte off v) := by
  unfold setByte
  infer_instance

/-! ## FAT -/

instance : Keeps I (tfGetFatEntry cluster) := by
  unfold tfGetFatEntry
  infer_instance

instance {off : Nat} : Keeps I (setWord off value) := by
  unfold setWord
  infer_instance

instance : Keeps I (tfSetFatEntry cluster value) := by
  unfold tfSetFatEntry
  infer_instance

instance {n : Nat} : Keeps I (findFreeCluster n cluster) := by
  induction n generalizing cluster with
  | zero =>
    unfold findFreeCluster
    infer_instance
  | succ n ih =>
    unfold findFreeCluster
    infer_instance

instance : Keeps I tfFindFreeCluster := by
  unfold tfFindFreeCluster
  infer_instance

set_option synthInstance.maxSize 1024 in
/-- A walk along the chain changes nothing but the cluster of the handle. -/
theorem keeps_seekCluster {mark : BitVec 32} {n : Nat}
    (hnext : ∀ temp : BitVec 32,
      Keeps I (modifyFile fp fun f => { f with currentCluster := temp })) :
    Keeps I (seekCluster fp mark n) := by
  induction n with
  | zero =>
    unfold seekCluster
    infer_instance
  | succ n ih =>
    unfold seekCluster
    dsimp only
    infer_instance

end

end Mavmm.Hostfs
