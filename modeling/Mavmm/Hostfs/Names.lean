import Mavmm.Hostfs.File
import Mavmm.Hostfs.Layout

/-!
# Names in a directory (fat32.c, string.c)

A directory is read entry by entry.  A short entry is compared with its eight
characters and its extension put together around a dot; the entries of a long
name are compared piece by piece, from the last one in the directory backwards.
-/

namespace Mavmm.Hostfs

/-! ## Strings -/

/-- A pointer into a string. -/
structure Path where
  bytes : Nat → Byte
  off : Nat

namespace Path

def get (p : Path) (k : Nat) : Byte := p.bytes (p.off + k)
def skip (p : Path) (n : Nat) : Path := { p with off := p.off + n }

theorem get_skip {p : Path} {a k : Nat} : (p.skip a).get k = p.get (a + k) := by
  unfold get skip
  rw [Nat.add_assoc]

theorem skip_skip {p : Path} {a b : Nat} : (p.skip a).skip b = p.skip (a + b) := by
  unfold skip
  rw [Nat.add_assoc]

/-- The character `k` places after the pointer. -/
def charAt (p : Path) (k : Nat) : FsM Byte := do
  Exec.probe (Probe.log [.char (p.off + k)])
  return p.get k

end Path

def slash : Byte := 0x2f#8
def dot : Byte := 0x2e#8
def space : Byte := 0x20#8

/-- No string goes on for longer. -/
def maxString : Nat := 2 ^ 31

/-- The first index from `i` on at which a component ends. -/
def componentEnd (p : Path) : (fuel i : Nat) → FsM Nat
  | 0, _ => fault .outOfBounds
  | fuel + 1, i => do
    let c ← p.charAt i
    if c ≠ slash ∧ c ≠ 0#8 then componentEnd p fuel (i + 1) else return i

/-- `strcase_charmap`. -/
def strcaseCharmap (c : Byte) : Byte :=
  if 0x41#8 ≤ c ∧ c ≤ 0x5a#8 then c + 0x20#8 else c

/-- Whether `strncasecmp` of `n` characters from index `k` on gives 0. -/
def strncasecmpEqual (name : Path) (other : Nat → Byte) : (n k : Nat) → FsM Bool
  | 0, _ => return true
  | n + 1, k => do
    let c ← name.charAt k
    if strcaseCharmap c ≠ strcaseCharmap (other k) then return false
    if c = 0#8 then return true
    strncasecmpEqual name other n (k + 1)

/-- The distance to the terminator. -/
def strlen (p : Path) : (fuel k : Nat) → FsM Nat
  | 0, _ => fault .outOfBounds
  | fuel + 1, k => do
    if (← p.charAt k) = 0#8 then return k else strlen p fuel (k + 1)

/-- `strrchr`: the last index at which the character stands. -/
def strrchr (p : Path) (c : Byte) : FsM (Option Nat) := do
  let len ← strlen p maxString 0
  return (List.range len).reverse.find? fun k => p.get k = c

/-! ## Entries -/

/-- The bytes of a `FatFileEntry`. -/
abbrev FatFileEntry := Nat → Byte

namespace FatFileEntry

def msdosAttributes (e : FatFileEntry) : BitVec 8 := Bytes.word e 1 (MsdosMember.offset .attributes)
def msdosEaIndex (e : FatFileEntry) : BitVec 16 := Bytes.word e 2 (MsdosMember.offset .eaIndex)
def msdosFirstCluster (e : FatFileEntry) : BitVec 16 :=
  Bytes.word e 2 (MsdosMember.offset .firstCluster)
def msdosFileSize (e : FatFileEntry) : BitVec 32 := Bytes.word e 4 (MsdosMember.offset .fileSize)
def lfnSequenceNumber (e : FatFileEntry) : BitVec 8 :=
  Bytes.word e 1 (LfnMember.offset .sequenceNumber)

/-- Element `k` of one of the arrays of characters of a long entry. -/
def lfnChar (e : FatFileEntry) (f : LfnMember) (k : Nat) : BitVec 16 :=
  Bytes.word e 2 (f.offset + 2 * k)

def setMsdos (e : FatFileEntry) (f : MsdosMember) (v : BitVec (8 * f.size)) : FatFileEntry :=
  Bytes.putWord e f.size f.offset v

def setLfn (e : FatFileEntry) (f : LfnMember) (v : BitVec (8 * f.size)) : FatFileEntry :=
  Bytes.putWord e f.size f.offset v

def setLfnChar (e : FatFileEntry) (f : LfnMember) (k : Nat) (v : BitVec 16) : FatFileEntry :=
  Bytes.putWord e 2 (f.offset + 2 * k) v

/-- The bytes that are written for the entry. -/
def toBytes (e : FatFileEntry) : List Byte := (List.range sizeofFatFileEntry).map e

/-- The characters of the name in the entry, as `tf_compare_filename_segment` puts them together,
with the terminator. -/
def reformatted (e : FatFileEntry) : List Byte :=
  if e.msdosAttributes ≠ 0x0f#8 then
    ((List.range 8).map e).filter (· ≠ space) ++ [dot] ++
      ((List.range 3).map fun k => e (8 + k)).filter (· ≠ space) ++ [0#8]
  else
    ((List.range 5).map fun k => (e.lfnChar .name1 k).setWidth 8) ++
      ((List.range 6).map fun k => (e.lfnChar .name2 k).setWidth 8) ++
      ((List.range 2).map fun k => (e.lfnChar .name3 k).setWidth 8) ++ [0#8]

/-- The value that the loops of `tf_compare_filename_segment` leave in their index. -/
def lastIndex (e : FatFileEntry) : Nat := if e.msdosAttributes ≠ 0x0f#8 then 11 else 2

end FatFileEntry

/-- A local variable before it is set. -/
def newLocal : FsM (Nat → Byte) := do
  let v ← Exec.probe (Probe.read fun s => s.locals 0)
  Exec.modify fun s => { s with locals := fun n => s.locals (n + 1) }
  return v

/-- `tf_fread` of an entry over what the variable holds. -/
def freadEntry (fp : Handle) (entry : FatFileEntry) : FsM FatFileEntry := do
  let (bytes, _) ← tfFread fp sizeofFatFileEntry
  return fun k => bytes.getD k (entry k)

/-- `tf_fseek` by a number of entries from the current position. -/
def fseekEntries (fp : Handle) (n : Int) : FsM (BitVec 32) := do
  tfFseek fp (BitVec.ofInt 32 (n * sizeofFatFileEntry)) (← file fp).pos.toNat

/-! ## Lookup -/

/-- `tf_compare_filename_segment`. -/
def tfCompareFilenameSegment (entry : FatFileEntry) (name : Path) : FsM Bool := do
  -- the index that the loops over the entry have left is where the scan of the name begins
  let i ← componentEnd name (maxString - entry.lastIndex) entry.lastIndex
  strncasecmpEqual name (fun k => entry.reformatted.getD k 0#8) (min 13 i) 0

/-- The loop of `tf_compare_filename` over a long name, with `n` entries to go. -/
def compareChain (fp : Handle) : (n : Nat) → (compareName : Path) → FatFileEntry → FsM Bool
  | 0, _, _ => return true
  | n + 1, compareName, entry => do
    let _ ← fseekEntries fp (-1)
    let entry ← freadEntry fp entry
    if ¬ (← tfCompareFilenameSegment entry compareName) then
      let _ ← fseekEntries fp n
      return false
    let _ ← fseekEntries fp (-1)
    compareChain fp n (compareName.skip 13) entry

/-- `tf_compare_filename`. -/
def tfCompareFilename (fp : Handle) (name : Path) : FsM Int := do
  let entry ← freadEntry fp (← newLocal)
  if entry 0 = 0#8 then return -1
  if entry.msdosAttributes ≠ 0x0f#8 then
    if ← tfCompareFilenameSegment entry name then
      let _ ← fseekEntries fp (-1)
      return 1
    else return 0
  else
    let lfnEntries := (entry.lfnSequenceNumber &&& ~~~0x40#8).toNat
    let _ ← fseekEntries fp ((lfnEntries : Int) - 1)
    if ← compareChain fp lfnEntries name entry then
      let _ ← fseekEntries fp lfnEntries
      return 1
    else return 0

/-- The loop of `tf_find_file`. -/
def findFileLoop (fp : Handle) (name : Path) : (fuel : Nat) → FsM Int
  | 0 => fault .diverges
  | fuel + 1 => do
    let rc ← tfCompareFilename fp name
    if rc < 0 then return -1
    if rc = 1 then return 0
    findFileLoop fp name fuel

/-- `tf_find_file`. -/
def tfFindFile (fuel : Nat) (fp : Handle) (name : Path) : FsM Int := do
  let _ ← tfFseek fp 0#32 0
  findFileLoop fp name fuel

end Mavmm.Hostfs
