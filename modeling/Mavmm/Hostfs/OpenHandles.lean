import Mavmm.Hostfs.Directory
import Mavmm.Hostfs.Frame

/-!
# Which handles are open

Nothing but `tf_get_free_handle`, `tf_release_handle` and `tf_fclose` changes
which handles are marked as open: every other action keeps them, and a walk
does so if its own handle is open.
-/

namespace Mavmm.Hostfs

open Exec (Keeps)

set_option synthInstance.maxSize 1024

/-- The handles that are marked as open. -/
def Fs.openHandles (s : Fs) : Handle → Bool := fun h => flagged (s.handles h).flags tfFlagOpen

/-- These handles are open. -/
def Opens (O : Handle → Bool) (s : Fs) : Prop := s.openHandles = O

variable {O : Handle → Bool} {I : Fs → Prop} {fp : Handle} {fuel : Nat}

/-! ## Changes of a handle -/

/-- The change leaves the flag of open handles alone. -/
class KeepsOpen (g : TfFile → TfFile) : Prop where
  flagged_eq : ∀ f, flagged (g f).flags tfFlagOpen = flagged f.flags tfFlagOpen

instance {start cluster idx current pos size : TfFile → BitVec 32}
    {sector byte : TfFile → BitVec 16} {attributes mode : TfFile → BitVec 8}
    {filename : TfFile → Nat → Byte} :
    KeepsOpen fun f => ⟨start f, cluster f, idx f, current f, sector f, byte f, pos f, f.flags,
      attributes f, mode f, size f, filename f⟩ where
  flagged_eq _ := rfl

/-- Another flag is set. -/
theorem KeepsOpen.or {g : TfFile → TfFile} {mask : BitVec 8} (h : mask &&& tfFlagOpen = 0#8)
    (hg : ∀ f, (g f).flags = f.flags ||| mask) : KeepsOpen g where
  flagged_eq f := by
    have hor : (f.flags ||| mask) &&& tfFlagOpen = f.flags &&& tfFlagOpen := by
      apply BitVec.eq_of_getLsbD_eq
      intro i hi
      have hbit := congrArg (fun b => b.getLsbD i) h
      simp only [BitVec.getLsbD_and, BitVec.getLsbD_or, BitVec.getLsbD_zero] at hbit ⊢
      revert hbit
      cases f.flags.getLsbD i <;> cases mask.getLsbD i <;> cases tfFlagOpen.getLsbD i <;> simp
    unfold flagged
    rw [hg, hor]

/-- Another flag is cleared. -/
theorem KeepsOpen.clear {g : TfFile → TfFile} {mask : BitVec 8} (h : ~~~mask &&& tfFlagOpen = tfFlagOpen)
    (hg : ∀ f, (g f).flags = f.flags &&& ~~~mask) : KeepsOpen g where
  flagged_eq f := by
    unfold flagged
    rw [hg, BitVec.and_assoc, h]

theorem openHandles_setFile {s : Fs} {f : TfFile} :
    (s.setFile fp f).openHandles = WriteBack.set s.openHandles fp (flagged f.flags tfFlagOpen) := by
  funext h
  unfold Fs.openHandles Fs.setFile WriteBack.set
  dsimp only
  split
  · rfl
  · rfl

instance {g : TfFile → TfFile} [hg : KeepsOpen g] : Keeps (Opens O) (modifyFile fp g) := by
  refine Exec.keeps_modify fun s h => ?_
  unfold Opens
  rw [openHandles_setFile, hg.flagged_eq, ← h]
  exact WriteBack.set_eq rfl

/-- All flags of a handle that stays open are set. -/
theorem keeps_modifyFile_open {g : TfFile → TfFile} (hopen : O fp = true)
    (hg : ∀ f, flagged (g f).flags tfFlagOpen = true) : Keeps (Opens O) (modifyFile fp g) := by
  refine Exec.keeps_modify fun s h => ?_
  unfold Opens
  rw [openHandles_setFile, hg, h]
  exact WriteBack.set_eq hopen

instance : OfHandles (Opens O) where
  keeps hhandles _ h := by
    unfold Opens Fs.openHandles
    rw [hhandles]
    exact h

/-- The change leaves the name and the attributes of the file alone. -/
class KeepsLabel (g : TfFile → TfFile) : Prop where
  label_eq : ∀ f, (g f).filename = f.filename ∧ (g f).attributes = f.attributes

instance {start cluster idx current pos size : TfFile → BitVec 32}
    {sector byte : TfFile → BitVec 16} {flags mode : TfFile → BitVec 8} :
    KeepsLabel fun f => ⟨start f, cluster f, idx f, current f, sector f, byte f, pos f, flags f,
      f.attributes, mode f, size f, f.filename⟩ where
  label_eq _ := ⟨rfl, rfl⟩

/-- A property that does not depend on the place of a handle in its file, and not on what the file
consists of. -/
class OfFiles (I : Fs → Prop) : Prop extends OfVolume I where
  keepsFile : ∀ (fp : Handle) (g : TfFile → TfFile) [KeepsOpen g] [KeepsLabel g],
    Keeps I (modifyFile fp g)

instance : OfFiles (Opens O) where
  keepsFile _ _ _ _ := inferInstance

instance [hI : OfFiles I] {g : TfFile → TfFile} [KeepsOpen g] [KeepsLabel g] :
    Keeps I (modifyFile fp g) := hI.keepsFile fp g

/-! ## Files -/

section
variable [OfFiles I]

instance {mark : BitVec 32} {n : Nat} : Keeps I (seekCluster fp mark n) :=
  keeps_seekCluster fun _ => inferInstance

instance {idx mark : BitVec 32} : Keeps I (moveToCluster fp idx mark) := by
  unfold moveToCluster
  infer_instance

instance {base : BitVec 32} {offset : Int} : Keeps I (tfUnsafeFseek fp base offset) := by
  have hgrow : KeepsOpen fun f : TfFile =>
      { f with size := f.size + 1#32, flags := f.flags ||| tfFlagSizechanged } :=
    .or (by decide) fun _ => rfl
  unfold tfUnsafeFseek
  infer_instance

instance {base : BitVec 32} {offset : Int} : Keeps I (tfFseek fp base offset) := by
  unfold tfFseek
  infer_instance

instance {n : Int} : Keeps I (fseekEntries fp n) := by
  unfold fseekEntries
  infer_instance

instance : Keeps I (fetchCurrent fp) := by
  unfold fetchCurrent
  infer_instance

instance {size : Nat} : Keeps I (tfFread fp size) := by
  induction size with
  | zero =>
    unfold tfFread
    infer_instance
  | succ size ih =>
    unfold tfFread
    infer_instance

instance {src : List Byte} : Keeps I (fwriteBytes fp src) := by
  induction src with
  | nil =>
    unfold fwriteBytes
    infer_instance
  | cons v src ih =>
    unfold fwriteBytes
    infer_instance

instance {src : List Byte} : Keeps I (tfFwrite fp src) := by
  have hdirty : KeepsOpen fun f : TfFile => { f with flags := f.flags ||| tfFlagDirty } :=
    .or (by decide) fun _ => rfl
  unfold tfFwrite
  infer_instance

end

/-! ## Names -/

section
variable {name : Path} {entry : FatFileEntry}

instance {k : Nat} : Keeps I (name.charAt k) := by
  unfold Path.charAt
  infer_instance

instance {i : Nat} : Keeps I (componentEnd name fuel i) := by
  induction fuel generalizing i with
  | zero =>
    unfold componentEnd
    infer_instance
  | succ fuel ih =>
    unfold componentEnd
    infer_instance

instance {other : Nat → Byte} {n k : Nat} : Keeps I (strncasecmpEqual name other n k) := by
  induction n generalizing k with
  | zero =>
    unfold strncasecmpEqual
    infer_instance
  | succ n ih =>
    unfold strncasecmpEqual
    infer_instance

instance {k : Nat} : Keeps I (strlen name fuel k) := by
  induction fuel generalizing k with
  | zero =>
    unfold strlen
    infer_instance
  | succ fuel ih =>
    unfold strlen
    infer_instance

instance {c : Byte} : Keeps I (strrchr name c) := by
  unfold strrchr
  infer_instance

instance [OfVolume I] : Keeps I newLocal := by
  have hnext := @keeps_modify_apart I _
    (fun s => { s with locals := fun n => s.locals (n + 1) }) (fun _ => rfl) (fun _ => rfl)
    fun _ n => ⟨n, rfl⟩
  unfold newLocal
  infer_instance

instance [OfFiles I] : Keeps I (freadEntry fp entry) := by
  unfold freadEntry
  infer_instance

instance : Keeps I (tfCompareFilenameSegment entry name) := by
  unfold tfCompareFilenameSegment
  infer_instance

instance {n : Nat} [OfFiles I] : Keeps I (compareChain fp n name entry) := by
  induction n generalizing name entry with
  | zero =>
    unfold compareChain
    infer_instance
  | succ n ih =>
    unfold compareChain
    infer_instance

instance [OfFiles I] : Keeps I (tfCompareFilename fp name) := by
  unfold tfCompareFilename
  infer_instance

instance [OfFiles I] : Keeps I (findFileLoop fp name fuel) := by
  induction fuel with
  | zero =>
    unfold findFileLoop
    infer_instance
  | succ fuel ih =>
    unfold findFileLoop
    infer_instance

instance [OfFiles I] : Keeps I (tfFindFile fuel fp name) := by
  unfold tfFindFile
  infer_instance

instance : Keeps I (lastSlash name) := by
  have hslash : ∀ slash : Option Nat, Keeps I (match slash with
      | none => (fault .undefinedBehaviour : FsM Nat)
      | some k => pure k) := by
    intro slash
    cases slash with
    | none => infer_instance
    | some k => infer_instance
  unfold lastSlash
  infer_instance

/-! ## Directories -/

section
variable [OfFiles I] (hopen : ∀ g : TfFile → TfFile,
  (∀ f, flagged (g f).flags tfFlagOpen = true) → Keeps I (modifyFile fp g))
include hopen

theorem keeps_tfWalk : Keeps I (tfWalk fuel name fp) := by
  have hfailed : Keeps I (modifyFile fp fun f => { f with flags := 0xff#8 }) :=
    hopen _ fun _ => (by decide : flagged 0xff#8 tfFlagOpen = true)
  have hfound : ∀ (start current : TfFile → BitVec 32) (attributes : BitVec 8) (size : BitVec 32),
      Keeps I (modifyFile fp fun f => { f with
        parentStartCluster := f.startCluster
        startCluster := start f
        attributes
        currentCluster := current f
        currentClusterIdx := 0#32
        currentSector := 0#16
        currentByte := 0#16
        pos := 0#32
        flags := tfFlagOpen
        size }) := by
    intro start current attributes size
    exact hopen _ fun _ => (by decide : flagged tfFlagOpen tfFlagOpen = true)
  unfold tfWalk
  dsimp only
  infer_instance

theorem keeps_walkPath {steps : Nat} : Keeps I (walkPath fuel fp steps name) := by
  have hwalk := fun name => @keeps_tfWalk I fp fuel name _ hopen
  induction steps generalizing name with
  | zero =>
    unfold walkPath
    infer_instance
  | succ steps ih =>
    unfold walkPath
    refine Exec.keeps_bind (hwalk name) fun rest => ?_
    cases rest with
    | none =>
      dsimp only
      infer_instance
    | some name =>
      have hnext : Keeps I (walkPath fuel fp steps name) := ih
      dsimp only
      infer_instance

end

section
variable [OfFiles I]

instance : Keeps I (readToEnd fp fuel entry) := by
  induction fuel generalizing entry with
  | zero =>
    unfold readToEnd
    infer_instance
  | succ fuel ih =>
    unfold readToEnd
    infer_instance

instance : Keeps I (shiftEntries fp fuel entry) := by
  induction fuel generalizing entry with
  | zero =>
    unfold shiftEntries
    infer_instance
  | succ fuel ih =>
    unfold shiftEntries
    infer_instance

/-! ## New names -/

instance {dest : Nat → Byte} : Keeps I (tfShortenFilename dest name) := by
  have hput : ∀ (dest : Nat → Byte) (put : Nat → Nat → Byte) (extension : Option Nat),
      Keeps I (match extension with
        | none => (pure dest : FsM (Nat → Byte))
        | some k => pure (put k)) := by
    intro dest put extension
    cases extension with
    | none => infer_instance
    | some k => infer_instance
  unfold tfShortenFilename
  infer_instance

instance {entries : Nat} : Keeps I (lfnPieces fuel name entries entry) := by
  induction fuel generalizing name entries entry with
  | zero =>
    unfold lfnPieces
    infer_instance
  | succ fuel ih =>
    unfold lfnPieces
    split
    · infer_instance
    · infer_instance

instance {checksum seq : BitVec 8} {n : Nat} :
    Keeps I (placeLfnEntries fp checksum n name seq entry) := by
  induction n generalizing name seq entry with
  | zero =>
    unfold placeLfnEntries
    infer_instance
  | succ n ih =>
    unfold placeLfnEntries
    infer_instance

instance : Keeps I (tfPlaceLfnChain fuel fp name) := by
  unfold tfPlaceLfnChain
  infer_instance

end

instance : Keeps (Opens O) fetchBootSector := by
  unfold fetchBootSector
  infer_instance

end

end Mavmm.Hostfs
