import Mathlib.Data.List.DropRight
import Mavmm.Hostfs.Directory

/-!
# Directories on the disk

A directory is a sequence of records of 32 bytes, with a record of zeros at its
end.  The record of a file has its name in eight and three characters that are
filled up with spaces; in front of it there may be records with a longer name,
13 characters in each, the last ones first.
-/

namespace Mavmm.Hostfs

/-- The size of a record on the disk. -/
def recordSize : Nat := 32

/-- A record with a short name. -/
structure ShortEntry where
  bytes : Nat → Byte
  attributes : bytes 11 ≠ 0x0f#8
  /-- It does not end the directory, and the file is not deleted. -/
  used : bytes 0 ≠ 0#8 ∧ bytes 0 ≠ 0xe5#8
  name : ∀ k < 11, bytes k ≠ 0#8 ∧ bytes k ≠ slash

/-- The characters without the spaces at the end. -/
def unpadded (cs : List Byte) : List Byte := cs.rdropWhile (· = space)

namespace ShortEntry

def stem (e : ShortEntry) : List Byte := unpadded ((List.range 8).map e.bytes)
def extension (e : ShortEntry) : List Byte :=
  unpadded ((List.range 3).map fun k => e.bytes (8 + k))

/-- The short name. -/
def shortName (e : ShortEntry) : List Byte :=
  if e.extension = [] then e.stem else e.stem ++ dot :: e.extension

def toBytes (e : ShortEntry) : List Byte := (List.range recordSize).map e.bytes

/-- Spaces are at the end of the two parts only. -/
def Solid (e : ShortEntry) : Prop := space ∉ e.stem ∧ space ∉ e.extension

instance (e : ShortEntry) : Decidable e.Solid := inferInstanceAs (Decidable (_ ∧ _))

end ShortEntry

/-- A file of a directory. -/
structure DirFile where
  longName : Option (List Byte)
  entry : ShortEntry

/-- Character `k` of a long name, as two bytes: after the name there is one terminator, and then
all bits are set. -/
def longChar (name : List Byte) (k : Nat) : List Byte :=
  if h : k < name.length then [name[k], 0#8]
  else if k = name.length then [0#8, 0#8]
  else [0xff#8, 0xff#8]

/-- The record with the characters of a long name from `13 * n` on. -/
def longRecord (name : List Byte) (checksum : Byte) (last : Bool) (n : Nat) : List Byte :=
  let chars := fun k m => (List.range m).flatMap fun j => longChar name (13 * n + k + j)
  [BitVec.ofNat 8 (n + 1) ||| (if last then 0x40#8 else 0#8)] ++ chars 0 5 ++
    [0x0f#8, 0#8, checksum] ++ chars 5 6 ++ [0#8, 0#8] ++ chars 11 2

namespace DirFile

/-- The records in front of the one with the short name. -/
def longBytes (f : DirFile) : List Byte :=
  match f.longName with
  | none => []
  | some name =>
    let count := (name.length + 12) / 13
    (List.range count).reverse.flatMap fun n =>
      longRecord name (tfLfnChecksum f.entry.bytes) (n + 1 = count) n

def toBytes (f : DirFile) : List Byte := f.longBytes ++ f.entry.toBytes

end DirFile

/-- The bytes of a directory. -/
def directoryBytes (files : List DirFile) : List Byte :=
  files.flatMap DirFile.toBytes ++ List.replicate recordSize 0#8

/-- Where the record with the short name of a file lies that follows other files. -/
def entryOffset (before : List DirFile) (f : DirFile) : Nat :=
  (before.flatMap DirFile.toBytes).length + f.longBytes.length

/-- The names are equal but for the case of letters. -/
def SameName (a b : List Byte) : Prop := a.map strcaseCharmap = b.map strcaseCharmap

instance (a b : List Byte) : Decidable (SameName a b) := inferInstanceAs (Decidable (_ = _))

/-- One of the names of the file is the one that is asked for. -/
def DirFile.Named (f : DirFile) (name : List Byte) : Prop :=
  SameName name f.entry.shortName ∨ ∃ longName ∈ f.longName, SameName name longName

/-- The string at a pointer has `len` characters. -/
def Path.Ends (p : Path) (len : Nat) : Prop := p.get len = 0#8 ∧ ∀ k < len, p.get k ≠ 0#8

instance (p : Path) (len : Nat) : Decidable (p.Ends len) := inferInstanceAs (Decidable (_ ∧ _))

/-- Where the next separator or the end of the string is. -/
def Path.componentLength (p : Path) (len : Nat) : Nat :=
  ((List.range len).find? fun k => p.get k = slash).getD len

/-- The characters in front of it. -/
def Path.component (p : Path) (len : Nat) : List Byte :=
  (List.range (p.componentLength len)).map p.get

theorem Path.componentLength_spec (p : Path) (len : Nat) :
    p.componentLength len ≤ len ∧ (∀ k < p.componentLength len, p.get k ≠ slash) ∧
      (p.componentLength len < len → p.get (p.componentLength len) = slash) := by
  unfold Path.componentLength
  cases hfind : (List.range len).find? fun k => p.get k = slash with
  | none =>
    refine ⟨Nat.le_refl _, ?_, fun hlt => absurd hlt (Nat.lt_irrefl _)⟩
    intro k hk
    simpa using List.find?_eq_none.mp hfind k (List.mem_range.mpr hk)
  | some m =>
    obtain ⟨hslash, hmem, hbefore⟩ := List.find?_range_eq_some.mp hfind
    refine ⟨Nat.le_of_lt (List.mem_range.mp hmem), ?_, fun _ => by simpa using hslash⟩
    intro k hk
    simpa using hbefore k hk

end Mavmm.Hostfs
