import Mavmm.Hostfs.Names

/-!
# Opening, creating and removing files (fat32.c)

A path is walked from the root directory through one handle.  `tf_fopen` opens
a file twice, and returns the second handle.
-/

namespace Mavmm.Hostfs

def tfAttrDirectory : BitVec 8 := 0x10#8
def tfModeRead : BitVec 8 := 0x01#8
def tfModeWrite : BitVec 8 := 0x02#8
def tfModeOverwrite : BitVec 8 := 0x08#8

/-- `TF_MAX_PATH`. -/
def tfMaxPath : Nat := 256

/-- A handle behind a pointer. -/
def deref (fp : Option Handle) : FsM Handle :=
  match fp with
  | none => fault .nullHandle
  | some h => pure h

/-! ## Walking -/

/-- `tf_walk`. -/
def tfWalk (fuel : Nat) (filename : Path) (fp : Handle) : FsM (Option Path) := do
  let separator := (← filename.charAt 0) = slash
  let filename := if separator then filename.skip 1 else filename
  if (← filename.charAt 0) = 0#8 then return none
  if (← tfFindFile fuel fp filename) ≠ 0 then
    modifyFile fp fun f => { f with flags := 0xff#8 }
    return none
  let entry ← freadEntry fp (← newLocal)
  let component ← componentEnd filename maxString 0
  let filename := filename.skip component
  let separator := (← filename.charAt 0) = slash
  let filename := if separator then filename.skip 1 else filename
  let startCluster := entry.msdosEaIndex ++ entry.msdosFirstCluster
  modifyFile fp fun f => { f with
    parentStartCluster := f.startCluster
    startCluster
    attributes := entry.msdosAttributes
    currentCluster := startCluster
    currentClusterIdx := 0#32
    currentSector := 0#16
    currentByte := 0#16
    pos := 0#32
    flags := tfFlagOpen
    size := if flagged entry.msdosAttributes tfAttrDirectory then 0xffffffff#32
      else entry.msdosFileSize }
  if (← filename.charAt 0) = 0#8 then return none
  return some filename

/-- The loop of `tf_fnopen`; the result tells whether the whole path was found. -/
def walkPath (fuel : Nat) (fp : Handle) : (steps : Nat) → (filename : Path) → FsM Bool
  | 0, _ => fault .diverges
  | steps + 1, filename => do
    let rest ← tfWalk fuel filename fp
    if (← file fp).flags = 0xff#8 then return false
    match rest with
    | none => return true
    | some filename => walkPath fuel fp steps filename

/-! ## Handles -/

/-- `tf_get_free_handle`. -/
def tfGetFreeHandle : FsM (Option Handle) := do
  let handles ← Exec.probe (Probe.read Fs.handles)
  match (List.finRange tfFileHandles).find? fun h => ¬ flagged (handles h).flags tfFlagOpen with
  | none => return none
  | some h =>
    modifyFile h fun f => { f with flags := tfFlagOpen }
    return some h

/-- `tf_release_handle`. -/
def tfReleaseHandle (fp : Handle) : FsM Unit :=
  modifyFile fp fun f => { f with flags := f.flags &&& ~~~tfFlagOpen }

/-- `strncpy (dst, src, n)`. -/
def strncpy (dst src : Nat → Byte) (n : Nat) : Nat → Byte := fun k =>
  if k < n then
    if (List.range k).all fun j => src j ≠ 0#8 then src k else 0#8
  else dst k

/-- `strchr (mode, c)`. -/
def strchr (mode : String) (c : Char) : Bool := mode.toList.contains c

/-- What a call comes to after an access that C does not define. -/
class Undefined where
  /-- `tf_fnopen`, after an access behind the end of `myfile` and of `fp->filename`. -/
  overflow : FsM (Option Handle)
  /-- The distance of a null pointer to the path. -/
  nullSlash : FsM Nat

/-- The model fails there. -/
instance Undefined.fails : Undefined := ⟨fault .outOfBounds, fault .undefinedBehaviour⟩

/-- `tf_fnopen`. -/
def tfFnopen [Undefined] (fuel : Nat) (filename : Path) (mode : String) (n : Nat) :
    FsM (Option Handle) := do
  let handle ← tfGetFreeHandle
  let myfile ← newLocal
  if tfMaxPath ≤ n then Undefined.overflow else do
  let myfile := Bytes.put (strncpy myfile filename.get n) n 0#8
  let fp ← deref handle
  modifyFile fp fun f => { f with
    currentCluster := 2#32
    startCluster := 2#32
    parentStartCluster := 0xffffffff#32
    currentClusterIdx := 0#32
    currentSector := 0#16
    currentByte := 0#16
    attributes := 0x10#8
    pos := 0#32
    flags := f.flags ||| tfFlagRoot
    size := 0xffffffff#32
    mode := tfModeRead ||| tfModeWrite ||| tfModeOverwrite }
  if ¬ (← walkPath fuel fp fuel ⟨myfile, 0⟩) then
    tfReleaseHandle fp
    return none
  Exec.when (strchr mode 'r') (modifyFile fp fun f => { f with mode := f.mode ||| tfModeRead })
  Exec.when (strchr mode 'a') do
    let _ ← tfUnsafeFseek fp (← file fp).size 0
    modifyFile fp fun f => { f with mode := f.mode ||| (tfModeWrite ||| tfModeOverwrite) }
  Exec.when (strchr mode '+')
    (modifyFile fp fun f => { f with mode := f.mode ||| (tfModeOverwrite ||| tfModeWrite) })
  Exec.when (strchr mode 'w') (modifyFile fp fun f => { f with mode := f.mode ||| tfModeWrite })
  modifyFile fp fun f => { f with
    filename := Bytes.put (strncpy f.filename myfile n) n 0#8 }
  return some fp

/-- Where `strrchr (filename, '/')` points to; arithmetic on a null pointer is undefined. -/
def lastSlash [Undefined] (filename : Path) : FsM Nat := do
  match ← strrchr filename slash with
  | none => Undefined.nullSlash
  | some k => return k

/-- `tf_parent`. -/
def tfParent [Undefined] (fuel : Nat) (filename : Path) (_mode : String) : FsM (Option Handle) := do
  tfFnopen fuel filename "rw" (← lastSlash filename)

/-! ## Closing -/

/-- `tf_fclose`, where `flush` is `tf_fflush`. -/
def fcloseWith (flush : Handle → FsM (BitVec 32)) (fp : Handle) : FsM (BitVec 32) := do
  let rc ← flush fp
  modifyFile fp fun f => { f with flags := f.flags &&& ~~~tfFlagOpen }
  return rc

/-- The part of `tf_fflush` that brings the size in the parent directory up to date. -/
def updateSize [Undefined] (fuel : Nat) (flush : Handle → FsM (BitVec 32)) (fp : Handle) :
    FsM Unit := do
  let entry ← newLocal
  let parent ← tfParent fuel ⟨(← file fp).filename, 0⟩ "r+"
  let filename : Path := ⟨(← file fp).filename, 0⟩
  let last ← lastSlash filename
  let dir ← deref parent
  let _ ← tfFindFile fuel dir (filename.skip (last + 1))
  let entry ← freadEntry dir entry
  let _ ← fseekEntries dir (-1)
  let entry := entry.setMsdos .fileSize ((← file fp).size - 1#32)
  let _ ← tfFwrite dir entry.toBytes
  let _ ← fcloseWith flush dir

/-- `tf_fflush`; it flushes the parent directory when it closes it. -/
def tfFflush [Undefined] : (fuel : Nat) → (fp : Handle) → FsM (BitVec 32)
  | 0, _ => fault .diverges
  | fuel + 1, fp => do
    let f ← file fp
    if ¬ flagged f.flags tfFlagDirty then return 0#32
    if flagged (← info).sectorFlags tfFlagDirty then
      let _ ← tfStore
    if flagged f.flags tfFlagSizechanged ∧ ¬ flagged f.attributes tfAttrDirectory then
      updateSize fuel (tfFflush fuel) fp
    modifyFile fp fun f => { f with flags := f.flags &&& ~~~tfFlagDirty }
    return 0#32

/-- `tf_fclose`. -/
def tfFclose [Undefined] (fuel : Nat) (fp : Handle) : FsM (BitVec 32) :=
  fcloseWith (tfFflush fuel) fp

/-! ## New names -/

/-- `upper`. -/
def upper (c : Byte) : Byte := if 0x61#8 ≤ c ∧ c ≤ 0x7a#8 then c - 0x20#8 else c

/-- The loop of `tf_shorten_filename` over the characters before the extension, with `n` rounds to
go: what it writes, and where it stops in the two strings. -/
def shortenStem (src : Nat → Byte) : (n : Nat) → (dest : Nat → Byte) → (d s : Nat) →
    (Nat → Byte) × Nat × Nat × Nat
  | 0, dest, d, s => (dest, d, s, 0)
  | n + 1, dest, d, s =>
    if src s = dot ∨ src s = 0#8 then (dest, d, s, n + 1)
    else if dest d = space then shortenStem src n dest d s
    else shortenStem src n (Bytes.put dest d (upper (src s))) (d + 1) (s + 1)

/-- A string of characters from index `d` on. -/
def putAll (dest : Nat → Byte) (d : Nat) : (cs : List Byte) → Nat → Byte
  | [] => dest
  | c :: cs => putAll (Bytes.put dest d c) (d + 1) cs

/-- `tf_shorten_filename`, on the bytes from `dest` on. -/
def tfShortenFilename (dest : Nat → Byte) (src : Path) : FsM (Nat → Byte) := do
  let (dest, d, s, left) := shortenStem src.get 6 dest 0 0
  -- a stem that is too long has a tail, and any other one is filled up
  let tail := if left = 0 then [0x7e#8, 0x31#8] else List.replicate (2 + left) space
  let dest := putAll dest d tail
  let d := d + tail.length
  let extension ← strrchr (src.skip s) dot
  let dest := putAll dest d [space, space, space, 0#8]
  match extension with
  | none => return dest
  | some k =>
    let extension := ((List.range 4).map fun j => src.get (s + k + 1 + j)).takeWhile (· ≠ 0#8)
    return putAll dest d (extension.map upper)

/-- `tf_create_lfn_entry`. -/
def tfCreateLfnEntry (filename : Path) (entry : FatFileEntry) : FatFileEntry × Option Path :=
  let len := ((List.range 13).takeWhile fun k => filename.get k ≠ 0#8).length
  let char := fun k => if k < len then (filename.get k).signExtend 16 else 0#16
  let entry := (List.range 5).foldl (fun e k => e.setLfnChar .name1 k (char k)) entry
  let entry := (List.range 6).foldl (fun e k => e.setLfnChar .name2 k (char (5 + k))) entry
  let entry := (List.range 2).foldl (fun e k => e.setLfnChar .name3 k (char (11 + k))) entry
  let entry := entry.setLfn .attributes 0x0f#8
  let entry := entry.setLfn .reserved 0#8
  let entry := entry.setLfn .firstCluster 0#16
  (entry, if filename.get len ≠ 0#8 then some (filename.skip len) else none)

/-- `tf_lfn_checksum`. -/
def tfLfnChecksum (name : Nat → Byte) : BitVec 8 :=
  (List.range 11).foldl (fun sum k => ((sum &&& 1#8) <<< 7) + (sum >>> 1) + name k) 0#8

/-- The first loop of `tf_place_lfn_chain`: the last piece of the name, the number of pieces, and
what it leaves in the entry. -/
def lfnPieces : (fuel : Nat) → (name : Path) → (entries : Nat) → FatFileEntry →
    FsM (Path × Nat × FatFileEntry)
  | 0, _, _, _ => fault .diverges
  | fuel + 1, name, entries, entry =>
    match tfCreateLfnEntry name entry with
    | (entry, none) => return (name, entries, entry)
    | (entry, some rest) => lfnPieces fuel rest (entries + 1) entry

/-- The second loop of `tf_place_lfn_chain`, with `n` entries to go. -/
def placeLfnEntries (fp : Handle) (checksum : BitVec 8) : (n : Nat) → (piece : Path) →
    (seq : BitVec 8) → FatFileEntry → FsM Unit
  | 0, _, _, _ => return
  | n + 1, piece, seq, entry => do
    let entry := (tfCreateLfnEntry piece entry).1
    let entry := entry.setLfn .sequenceNumber seq
    let entry := entry.setLfn .checksum checksum
    let _ ← tfFwrite fp entry.toBytes
    placeLfnEntries fp checksum n { piece with off := piece.off - 13 }
      ((seq &&& ~~~0x40#8) - 1#8) entry

/-- `tf_place_lfn_chain`. -/
def tfPlaceLfnChain (fuel : Nat) (fp : Handle) (filename : Path) : FsM (BitVec 32) := do
  let entry ← newLocal
  let sfn ← tfShortenFilename (← newLocal) filename
  let (piece, entries, entry) ← lfnPieces fuel filename 1 entry
  placeLfnEntries fp (tfLfnChecksum sfn) entries piece (BitVec.ofNat 8 (entries ||| 0x40)) entry
  return 0#32

/-! ## Creating and removing -/

/-- The loops that read a directory to its end: the last entry that was read. -/
def readToEnd (fp : Handle) : (fuel : Nat) → FatFileEntry → FsM FatFileEntry
  | 0, _ => fault .diverges
  | fuel + 1, entry => do
    let entry ← freadEntry fp entry
    if entry 0 = 0#8 then return entry
    readToEnd fp fuel entry

/-- `tf_create`. -/
def tfCreate [Undefined] (fuel : Nat) (filename : Path) : FsM (BitVec 32) := do
  let parent ← tfParent fuel filename "r"
  let entry ← newLocal
  match parent with
  | none => return 1#32
  | some fp =>
    let _ ← tfFclose fuel fp
    let fp ← deref (← tfParent fuel filename "r+")
    let entry ← readToEnd fp fuel entry
    let _ ← fseekEntries fp (-1)
    let cluster ← tfFindFreeCluster
    let _ ← tfSetFatEntry cluster lastCluster
    let entry := entry.setMsdos .attributes 0#8
    let entry := entry.setMsdos .creationTimeMs 0#8
    let entry := entry.setMsdos .creationTime 0#16
    let entry := entry.setMsdos .creationDate 0#16
    let entry := entry.setMsdos .lastAccessTime 0#16
    let entry := entry.setMsdos .eaIndex (cluster.extractLsb' 16 16)
    let entry := entry.setMsdos .modifiedTime 0#16
    let entry := entry.setMsdos .modifiedDate 0#16
    let entry := entry.setMsdos .firstCluster (cluster.extractLsb' 0 16)
    let entry := entry.setMsdos .fileSize 1#32
    let last ← lastSlash filename
    let temp := filename.skip (last + 1)
    let _ ← tfPlaceLfnChain fuel fp temp
    let entry ← tfShortenFilename entry temp
    let _ ← tfFwrite fp (FatFileEntry.toBytes entry)
    let _ ← tfFwrite fp (FatFileEntry.toBytes fun _ => 0#8)
    let _ ← tfFclose fuel fp
    return 0#32

/-- `tf_fopen`. -/
def tfFopen [Undefined] (fuel : Nat) (filename : Path) (mode : String) : FsM (Option Handle) := do
  let n ← strlen filename maxString 0
  let fp ← tfFnopen fuel filename mode n
  Exec.when (fp = none ∧ (strchr mode '+' ∨ strchr mode 'w' ∨ strchr mode 'a')) do
    let _ ← tfCreate fuel filename
  tfFnopen fuel filename mode n

/-- The loop of `tf_remove`: the entries that follow are moved one place forward. -/
def shiftEntries (fp : Handle) : (fuel : Nat) → FatFileEntry → FsM Unit
  | 0, _ => fault .diverges
  | fuel + 1, entry => do
    if (← fseekEntries fp 1) ≠ 0#32 then return
    let entry ← freadEntry fp entry
    let _ ← fseekEntries fp (-2)
    let _ ← tfFwrite fp entry.toBytes
    if entry 0 = 0#8 then return
    shiftEntries fp fuel entry

/-- `tf_remove`. -/
def tfRemove [Undefined] (fuel : Nat) (filename : Path) : FsM (BitVec 32) := do
  match ← tfFopen fuel filename "r" with
  | none => return -1#32
  | some fp =>
    let _ ← tfFclose fuel fp
    let fp ← deref (← tfParent fuel filename "r+")
    let last ← lastSlash filename
    if (← tfFindFile fuel fp (filename.skip (last + 1))) = 0 then
      shiftEntries fp fuel (← newLocal)
      modifyFile fp fun f => { f with
        size := f.size - BitVec.ofNat 32 sizeofFatFileEntry
        flags := f.flags ||| tfFlagSizechanged }
    let _ ← tfFclose fuel fp
    return 0#32

/-! ## Mounting -/

def tfErrBadFsType : BitVec 32 := 2#32

/-- The path of the root directory. -/
def rootPath : Path := ⟨fun k => if k = 0 then slash else 0#8, 0⟩

/-- The loop of `tf_init`: the size of the root directory. -/
def rootSize (fp : Option Handle) : (fuel : Nat) → (temp : BitVec 32) → FatFileEntry →
    FsM (BitVec 32)
  | 0, _, _ => fault .diverges
  | fuel + 1, temp, entry => do
    -- the sum is an `unsigned long`, and its lower half goes back into the `int`
    let temp := temp + BitVec.ofNat 32 sizeofFatFileEntry
    let entry ← freadEntry (← deref fp) entry
    if entry 0 = 0#8 then return temp
    rootSize fp fuel temp entry

/-- `tf_init`. -/
def tfInit (fuel : Nat) : FsM (BitVec 32) := do
  let _ ← fetchBootSector
  let bpb := (← info).buffer
  let fatSize16 : BitVec 16 := BootField.fatSize16.read bpb
  let fatSize : BitVec 32 :=
    if fatSize16 ≠ 0#16 then fatSize16.setWidth 32 else BootField.fatSize32.read bpb
  let rootDirSectors : Int := ((BootField.rootEntryCount.read bpb).toNat * 32 +
    ((BootField.bytesPerSector.read bpb).toNat - 1 : Int)).tdiv 512
  let totalSectors16 : BitVec 16 := BootField.totalSectors16.read bpb
  let totalSectors : BitVec 32 :=
    if totalSectors16 ≠ 0#16 then totalSectors16.setWidth 32
    else BootField.totalSectors32.read bpb
  modifyInfo fun i => { i with totalSectors }
  let fats ← int ((BootField.numFats.read bpb).toNat * fatSize.toInt)
  let reserved : BitVec 16 := BootField.reservedSectorCount.read bpb
  let first ← int (reserved.toNat + fats.toInt + rootDirSectors)
  let dataSectors := totalSectors - first
  let sectorsPerCluster : BitVec 8 := BootField.sectorsPerCluster.read bpb
  modifyInfo fun i => { i with sectorsPerCluster }
  if sectorsPerCluster = 0#8 then fault .divideError
  let clusterCount := dataSectors.toInt.tdiv sectorsPerCluster.toNat
  modifyInfo fun i => { i with reservedSectors := reserved, firstDataSector := first }
  if clusterCount < 65525 then return tfErrBadFsType
  modifyInfo fun i => { i with type := 1#8, rootDirectorySize := 0xffffffff#32 }
  let entry ← newLocal
  let fp ← tfFopen fuel rootPath "r"
  let temp ← rootSize fp fuel 0#32 entry
  let _ ← tfFclose fuel (← deref fp)
  modifyInfo fun i => { i with rootDirectorySize := temp }
  return 0#32

end Mavmm.Hostfs
