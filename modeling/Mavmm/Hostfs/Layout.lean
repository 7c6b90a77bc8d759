import Mavmm.Lib.Bytes
import Mavmm.Lib.CLayout

/-!
# The structures of the file system on the disk (fat32.h)

The driver casts bytes of the disk to C structures that are not packed.  Their
members stand where the compiler puts them, which is not where FAT32 has its
fields: none of the fields that `tf_init` reads from the boot sector is read at
its offset, and a directory entry takes 36 bytes instead of 32.  Only the view
of a short directory entry is right.
-/

namespace Mavmm.Hostfs

open CLayout

/-! ## Structures -/

/-- The members of `BPB1216_struct`. -/
inductive Bpb1216Member where
  | bsDriveNumber | bsReserved1 | bsBootSig | bsVolumeId | bsVolumeLabel | bsFileSystemType
deriving DecidableEq

def bpb1216Struct : Members Bpb1216Member :=
  [(.bsDriveNumber, .char), (.bsReserved1, .char), (.bsBootSig, .char), (.bsVolumeId, .int),
    (.bsVolumeLabel, .array .char 11), (.bsFileSystemType, .array .char 8)]

/-- The members of `BPB32_struct`. -/
inductive Bpb32Member where
  | fatSize | extFlags | fsVersion | rootCluster | fsInfo | bkBootSec | reserved | bsDriveNumber
  | bsReserved1 | bsBootSig | bsVolumeId | bsVolumeLabel | bsFileSystemType
deriving DecidableEq

def bpb32Struct : Members Bpb32Member :=
  [(.fatSize, .int), (.extFlags, .short), (.fsVersion, .short), (.rootCluster, .int),
    (.fsInfo, .short), (.bkBootSec, .short), (.reserved, .array .char 12), (.bsDriveNumber, .char),
    (.bsReserved1, .char), (.bsBootSig, .char), (.bsVolumeId, .int),
    (.bsVolumeLabel, .array .char 11), (.bsFileSystemType, .array .char 8)]

/-- The members of `BPB_struct`. -/
inductive BpbMember where
  | bsJumpBoot | bsOemName | bytesPerSector | sectorsPerCluster | reservedSectorCount | numFats
  | rootEntryCount | totalSectors16 | media | fatSize16 | sectorsPerTrack | numberOfHeads
  | hiddenSectors | totalSectors32 | fsTypeSpecificData
deriving DecidableEq

def bpbStruct : Members BpbMember :=
  [(.bsJumpBoot, .array .char 3), (.bsOemName, .array .char 8), (.bytesPerSector, .short),
    (.sectorsPerCluster, .char), (.reservedSectorCount, .short), (.numFats, .char),
    (.rootEntryCount, .short), (.totalSectors16, .short), (.media, .char), (.fatSize16, .short),
    (.sectorsPerTrack, .short), (.numberOfHeads, .short), (.hiddenSectors, .int),
    (.totalSectors32, .int),
    (.fsTypeSpecificData, union [(true, struct bpb32Struct), (false, struct bpb1216Struct)])]

/-- The members of `FatFile83`. -/
inductive MsdosMember where
  | filename | extension | attributes | reserved | creationTimeMs | creationTime | creationDate
  | lastAccessTime | eaIndex | modifiedTime | modifiedDate | firstCluster | fileSize
deriving DecidableEq

def fatFile83 : Members MsdosMember :=
  [(.filename, .array .char 8), (.extension, .array .char 3), (.attributes, .char),
    (.reserved, .char), (.creationTimeMs, .char), (.creationTime, .short), (.creationDate, .short),
    (.lastAccessTime, .short), (.eaIndex, .short), (.modifiedTime, .short),
    (.modifiedDate, .short), (.firstCluster, .short), (.fileSize, .int)]

/-- The members of `FatFileLFN`. -/
inductive LfnMember where
  | sequenceNumber | name1 | attributes | reserved | checksum | name2 | firstCluster | name3
deriving DecidableEq

def fatFileLfn : Members LfnMember :=
  [(.sequenceNumber, .char), (.name1, .array .short 5), (.attributes, .char), (.reserved, .char),
    (.checksum, .char), (.name2, .array .short 6), (.firstCluster, .short),
    (.name3, .array .short 2)]

/-- `sizeof(FatFileEntry)`. -/
def sizeofFatFileEntry : Nat :=
  (union [(true, struct fatFile83), (false, struct fatFileLfn)]).size

/-! ## What the driver reads -/

/-- The fields that `tf_init` reads from the boot sector. -/
inductive BootField where
  | bytesPerSector | sectorsPerCluster | reservedSectorCount | numFats | rootEntryCount
  | totalSectors16 | fatSize16 | totalSectors32 | fatSize32
deriving DecidableEq

namespace BootField

/-- Where the member of `BPB_struct` for the field stands. -/
def offset : BootField → Nat
  | bytesPerSector => offsetOf bpbStruct .bytesPerSector
  | sectorsPerCluster => offsetOf bpbStruct .sectorsPerCluster
  | reservedSectorCount => offsetOf bpbStruct .reservedSectorCount
  | numFats => offsetOf bpbStruct .numFats
  | rootEntryCount => offsetOf bpbStruct .rootEntryCount
  | totalSectors16 => offsetOf bpbStruct .totalSectors16
  | fatSize16 => offsetOf bpbStruct .fatSize16
  | totalSectors32 => offsetOf bpbStruct .totalSectors32
  | fatSize32 => offsetOf bpbStruct .fsTypeSpecificData + offsetOf bpb32Struct .fatSize

def size : BootField → Nat
  | sectorsPerCluster | numFats => 1
  | totalSectors32 | fatSize32 => 4
  | _ => 2

/-- The value of the member. -/
def read (sector : Nat → Byte) (f : BootField) : BitVec (8 * f.size) :=
  Bytes.word sector f.size f.offset

/-- The offset of the field in a FAT32 boot sector. -/
def fatOffset : BootField → Nat
  | bytesPerSector => 11
  | sectorsPerCluster => 13
  | reservedSectorCount => 14
  | numFats => 16
  | rootEntryCount => 17
  | totalSectors16 => 19
  | fatSize16 => 22
  | totalSectors32 => 32
  | fatSize32 => 36

end BootField

namespace MsdosMember

def offset (f : MsdosMember) : Nat := offsetOf fatFile83 f
def size (f : MsdosMember) : Nat := sizeOf fatFile83 f

def read (entry : Nat → Byte) (f : MsdosMember) : BitVec (8 * f.size) :=
  Bytes.word entry f.size f.offset

/-- The offset of the field in a short directory entry of FAT32. -/
def fatOffset : MsdosMember → Nat
  | filename => 0
  | extension => 8
  | attributes => 11
  | reserved => 12
  | creationTimeMs => 13
  | creationTime => 14
  | creationDate => 16
  | lastAccessTime => 18
  | eaIndex => 20
  | modifiedTime => 22
  | modifiedDate => 24
  | firstCluster => 26
  | fileSize => 28

end MsdosMember

namespace LfnMember

def offset (f : LfnMember) : Nat := offsetOf fatFileLfn f
def size (f : LfnMember) : Nat := sizeOf fatFileLfn f

def read (entry : Nat → Byte) (f : LfnMember) : BitVec (8 * f.size) :=
  Bytes.word entry f.size f.offset

/-- The offset of the field in a long directory entry of FAT32. -/
def fatOffset : LfnMember → Nat
  | sequenceNumber => 0
  | name1 => 1
  | attributes => 11
  | reserved => 12
  | checksum => 13
  | name2 => 14
  | firstCluster => 26
  | name3 => 28

end LfnMember

/-! ## Offsets -/

theorem sizeofFatFileEntry_eq : sizeofFatFileEntry = 36 := by decide

theorem BootField.offset_ne (f : BootField) : f.offset ≠ f.fatOffset := by cases f <;> decide

theorem MsdosMember.offset_eq (f : MsdosMember) : f.offset = f.fatOffset := by cases f <;> decide

/-- The first member of the long view is the only one in its place. -/
theorem LfnMember.offset_eq_iff (f : LfnMember) : f.offset = f.fatOffset ↔ f = .sequenceNumber := by
  cases f <;> decide

theorem BootField.size_pos (f : BootField) : 0 < f.size := by cases f <;> decide

theorem LfnMember.size_pos (f : LfnMember) : 0 < f.size := by cases f <;> decide

/-- What the structures read from a boot sector and a directory entry is what FAT32 has there. -/
structure OnDiskLayout (sector entry : Nat → Byte) : Prop where
  boot : ∀ f : BootField, f.read sector = Bytes.word sector f.size f.fatOffset
  entrySize : sizeofFatFileEntry = 32
  msdos : ∀ f : MsdosMember, f.read entry = Bytes.word entry f.size f.fatOffset
  lfn : ∀ f : LfnMember, f.read entry = Bytes.word entry f.size f.fatOffset

/-- No boot sector and directory entry are read as FAT32 has them: an entry has the wrong size.
Nor does any field of the boot sector, nor a field of the long view after the first, have the
right value in general, while the short view is right in every entry. -/
theorem onDiskLayout_fails (sector entry : Nat → Byte) :
    ¬ OnDiskLayout sector entry ∧
    (∀ f : BootField, ¬ ∀ sector, f.read sector = Bytes.word sector f.size f.fatOffset) ∧
    (∀ f : LfnMember, (∀ entry, f.read entry = Bytes.word entry f.size f.fatOffset) ↔
      f = .sequenceNumber) ∧
    ∀ f : MsdosMember, f.read entry = Bytes.word entry f.size f.fatOffset := by
  refine ⟨?_, ?_, ?_, ?_⟩
  · intro h
    exact absurd (sizeofFatFileEntry_eq.symm.trans h.entrySize) (by simp)
  · intro f h
    exact f.offset_ne ((Bytes.forall_word_eq_iff f.size_pos).mp h)
  · intro f
    exact (Bytes.forall_word_eq_iff f.size_pos).trans f.offset_eq_iff
  · intro f
    rw [MsdosMember.read, f.offset_eq]

/-- The start of a boot sector with 512 bytes a sector and 8 sectors a cluster. -/
def bootSector : Nat → Byte := fun k =>
  [0xeb#8, 0x58#8, 0x90#8, 0x4d#8, 0x53#8, 0x44#8, 0x4f#8, 0x53#8, 0x35#8, 0x2e#8, 0x30#8, 0x00#8,
    0x02#8, 0x08#8, 0x20#8].getD k 0#8

/-- The driver finds 2050 bytes a sector and 32 sectors a cluster in it. -/
theorem bootSector_misread :
    Bytes.word bootSector 2 BootField.bytesPerSector.fatOffset = 512#16 ∧
    BootField.bytesPerSector.read bootSector = 2050#16 ∧
    Bytes.word bootSector 1 BootField.sectorsPerCluster.fatOffset = 8#8 ∧
    BootField.sectorsPerCluster.read bootSector = 32#8 ∧
    ¬ OnDiskLayout bootSector fun _ => 0#8 := by
  refine ⟨rfl, rfl, rfl, rfl, fun h => ?_⟩
  exact absurd (sizeofFatFileEntry_eq.symm.trans h.entrySize) (by simp)

end Mavmm.Hostfs
