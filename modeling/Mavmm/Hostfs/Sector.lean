import Mavmm.Lib.Exec
import Mavmm.Lib.Bytes
import Mavmm.Lib.WriteBack

/-!
# Sectors and FAT entries (fat32.c)

The driver keeps one sector of the disk in a buffer, and writes it back before
it fetches another one if the buffer is marked as dirty.  The block device is
not part of it: each call of `read_sector` or `write_sector` takes the next
answer of a device that may fail.
-/

namespace Mavmm.Hostfs

/-! ## State -/

/-- The bytes of a sector; those from 512 on are not used. -/
abbrev Sector := Nat → Byte

/-- The sectors of a disk. -/
abbrev Disk := BitVec 32 → Sector

/-- `TFInfo`. -/
structure TfInfo where
  type : BitVec 8
  sectorsPerCluster : BitVec 8
  firstDataSector : BitVec 32
  totalSectors : BitVec 32
  reservedSectors : BitVec 16
  currentSector : BitVec 32
  sectorFlags : BitVec 8
  rootDirectorySize : BitVec 32
  buffer : Sector

/-- `TFFile`. -/
structure TfFile where
  parentStartCluster : BitVec 32
  startCluster : BitVec 32
  currentClusterIdx : BitVec 32
  currentCluster : BitVec 32
  currentSector : BitVec 16
  currentByte : BitVec 16
  pos : BitVec 32
  flags : BitVec 8
  attributes : BitVec 8
  mode : BitVec 8
  size : BitVec 32
  filename : Nat → Byte

/-- `TF_FILE_HANDLES`. -/
def tfFileHandles : Nat := 4

/-- A pointer into `tf_file_handles`. -/
abbrev Handle := Fin tfFileHandles

/-- What the device does when it is called: it returns `rc`, and where that is not 0 the target of
the transfer holds `sector` after it. -/
structure Answer where
  rc : BitVec 32
  sector : Sector

structure Fs where
  info : TfInfo
  handles : Handle → TfFile
  disk : Disk
  /-- The answers of the device to the calls to come. -/
  answers : Nat → Answer
  /-- What the local variables of the calls to come hold before they are set. -/
  locals : Nat → Nat → Byte

/-- The device never fails. -/
def Fs.ErrorFree (s : Fs) : Prop := ∀ n, (s.answers n).rc = 0#32

inductive FsFault where
  /-- An access through a null pointer to a handle. -/
  | nullHandle
  | outOfBounds
  | undefinedBehaviour
  | divideError
  | diverges
deriving DecidableEq

inductive FsEvent where
  /-- A byte of the buffer is set while the buffer holds the sector. -/
  | stored (sector : BitVec 32) (off : Nat) (v : Byte)
  /-- A character of a path is read. -/
  | char (index : Nat)

abbrev FsM := Exec FsFault FsEvent Fs

def fault {α : Type} (f : FsFault) : FsM α := Exec.probe (Probe.ofExcept fun _ => .error f)

def info : FsM TfInfo := Exec.probe (Probe.read Fs.info)
def file (fp : Handle) : FsM TfFile := Exec.probe (Probe.read fun s => s.handles fp)

def modifyInfo (f : TfInfo → TfInfo) : FsM Unit := Exec.modify fun s => { s with info := f s.info }

def Fs.setFile (s : Fs) (fp : Handle) (f : TfFile) : Fs :=
  { s with handles := fun h => if h = fp then f else s.handles h }

def modifyFile (fp : Handle) (f : TfFile → TfFile) : FsM Unit :=
  Exec.modify fun s => s.setFile fp (f (s.handles fp))

/-- A result of the type `int`; an overflow is undefined. -/
def int (x : Int) : FsM (BitVec 32) :=
  if -2 ^ 31 ≤ x ∧ x < 2 ^ 31 then pure (BitVec.ofInt 32 x) else fault .undefinedBehaviour

/-- A test `flags & mask`. -/
def flagged (flags mask : BitVec 8) : Bool := flags &&& mask ≠ 0#8

def tfFlagDirty : BitVec 8 := 0x01#8
def tfFlagOpen : BitVec 8 := 0x02#8
def tfFlagSizechanged : BitVec 8 := 0x04#8
def tfFlagRoot : BitVec 8 := 0x08#8

/-! ## Device -/

def nextAnswer : FsM Answer := do
  let answer ← Exec.probe (Probe.read fun s => s.answers 0)
  Exec.modify fun s => { s with answers := fun n => s.answers (n + 1) }
  return answer

/-- `read_sector (tf_info.buffer, sector)`. -/
def readSector (sector : BitVec 32) : FsM (BitVec 32) := do
  let answer ← nextAnswer
  Exec.modify fun s => { s with info := { s.info with
    buffer := if answer.rc = 0#32 then s.disk sector else answer.sector } }
  return answer.rc

/-- `write_sector (tf_info.buffer, sector)`. -/
def writeSector (sector : BitVec 32) : FsM (BitVec 32) := do
  let answer ← nextAnswer
  Exec.modify fun s => { s with
    disk := WriteBack.set s.disk sector
      (if answer.rc = 0#32 then s.info.buffer else answer.sector) }
  return answer.rc

/-! ## Buffer -/

/-- `tf_store`. -/
def tfStore : FsM (BitVec 32) := do
  modifyInfo fun i => { i with sectorFlags := i.sectorFlags &&& ~~~tfFlagDirty }
  writeSector (← info).currentSector

/-- `tf_fetch`. -/
def tfFetch (sector : BitVec 32) : FsM (BitVec 32) := do
  let i ← info
  if sector = i.currentSector then return 0#32
  let stored ← if flagged i.sectorFlags tfFlagDirty then tfStore else pure 0#32
  let rc := stored ||| (← readSector sector)
  Exec.when (rc = 0#32) (modifyInfo fun i => { i with currentSector := sector })
  return rc

/-- The first steps of `tf_init`: the buffer holds no sector, and then the boot sector. -/
def fetchBootSector : FsM (BitVec 32) := do
  modifyInfo fun i => { i with currentSector := -1#32, sectorFlags := 0#8 }
  tfFetch 0#32

/-- A byte of the buffer is set. -/
def setByte (off : Nat) (v : Byte) : FsM Unit := do
  let i ← info
  Exec.probe (Probe.log [.stored i.currentSector off v])
  modifyInfo fun i => { i with buffer := Bytes.put i.buffer off v }

/-! ## FAT -/

/-- `tf_get_fat_entry`. -/
def tfGetFatEntry (cluster : BitVec 32) : FsM (BitVec 32) := do
  let offset ← int (cluster.toInt * 4)
  tfFetch (← int ((← info).reservedSectors.toNat + offset.toInt.tdiv 512))

/-- The four bytes of a FAT entry are set. -/
def setWord (off : Nat) (value : BitVec 32) : FsM Unit := do
  setByte off (value.extractLsb' 0 8)
  setByte (off + 1) (value.extractLsb' 8 8)
  setByte (off + 2) (value.extractLsb' 16 8)
  setByte (off + 3) (value.extractLsb' 24 8)

/-- `tf_set_fat_entry`. -/
def tfSetFatEntry (cluster value : BitVec 32) : FsM (BitVec 32) := do
  let offset ← int (cluster.toInt * 4)
  let rc ← tfFetch (← int ((← info).reservedSectors.toNat + offset.toInt.tdiv 512))
  let index := offset.toInt.tmod 512
  if index < 0 then fault .outOfBounds
  setWord index.toNat value
  return rc

/-- `tf_first_sector`. -/
def tfFirstSector (cluster : BitVec 32) : FsM (BitVec 32) := do
  let i ← info
  let n ← int (cluster.toInt - 2)
  let sectors ← int (n.toInt * i.sectorsPerCluster.toNat)
  return sectors + i.firstDataSector

/-- The loop of `tf_find_free_cluster`, with `n` clusters to go. -/
def findFreeCluster : (n : Nat) → (i : BitVec 32) → FsM (BitVec 32)
  | 0, i => return i
  | n + 1, i => do
    let entry ← tfGetFatEntry i
    if entry &&& 0x0fffffff#32 = 0#32 then return i
    findFreeCluster n (i + 1#32)

/-- `tf_find_free_cluster`. -/
def tfFindFreeCluster : FsM (BitVec 32) := do
  let i ← info
  findFreeCluster (i.totalSectors.toNat - i.firstDataSector.toNat) i.firstDataSector

end Mavmm.Hostfs
