import Mavmm.Hostfs.Sector

/-!
# Reading and writing files (fat32.c)

A handle knows the cluster it is in and the byte it is at in it.  Every byte is
transferred on its own, with a seek to the next position after it.
-/

namespace Mavmm.Hostfs

def tfErrInvalidSeek : BitVec 32 := 1#32
def tfMarkEoc16 : BitVec 32 := 0xfff8#32
def tfMarkEoc32 : BitVec 32 := 0x0ffffff8#32

/-- The constant that marks a new cluster as the last one, as an `unsigned int`. -/
def lastCluster : BitVec 32 := 0xfffffff8#32

/-- The bytes of a cluster. -/
def TfInfo.clusterSize (i : TfInfo) : Nat := i.sectorsPerCluster.toNat * 512

/-- The sum of an `int` and a `long`; an overflow is undefined. -/
def long (x : Int) : FsM Int :=
  if -2 ^ 63 ≤ x ∧ x < 2 ^ 63 then pure x else fault .undefinedBehaviour

/-! ## Seeking -/

/-- The loop of `tf_unsafe_fseek`, with `n` clusters to go. -/
def seekCluster (fp : Handle) (mark : BitVec 32) : (n : Nat) → FsM (BitVec 32)
  | 0 => return 0#32
  | n + 1 => do
    let temp ← tfGetFatEntry (← file fp).currentCluster
    if temp ≠ 0#32 then
      modifyFile fp fun f => { f with currentCluster := temp }
    else
      let temp ← tfFindFreeCluster
      let _ ← tfSetFatEntry (← file fp).currentCluster temp
      let _ ← tfSetFatEntry temp lastCluster
    if mark.toInt ≤ (← file fp).currentCluster.toInt ∧ 0 < n then return tfErrInvalidSeek
    seekCluster fp mark n

/-- The part of `tf_unsafe_fseek` that follows the chain when the handle has to change its
cluster. -/
def moveToCluster (fp : Handle) (clusterIdx mark : BitVec 32) : FsM (BitVec 32) := do
  if clusterIdx = (← file fp).currentClusterIdx then return 0#32
  modifyFile fp fun f => { f with currentClusterIdx := clusterIdx, currentCluster := f.startCluster }
  seekCluster fp mark clusterIdx.toInt.toNat

/-- `tf_unsafe_fseek`. -/
def tfUnsafeFseek (fp : Handle) (base : BitVec 32) (offset : Int) : FsM (BitVec 32) := do
  let i ← info
  let pos ← long (base.toInt + offset)
  let mark := if i.type ≠ 0#8 then tfMarkEoc32 else tfMarkEoc16
  let size := ((← file fp).size.toNat : Int)
  if size < pos then return tfErrInvalidSeek
  -- one past the end is allowed, and makes the file grow
  Exec.when (pos = size)
    (modifyFile fp fun f => { f with size := f.size + 1#32, flags := f.flags ||| tfFlagSizechanged })
  if i.clusterSize = 0 then fault .divideError
  let rc ← moveToCluster fp (BitVec.ofInt 32 (pos.tdiv i.clusterSize)) mark
  if rc ≠ 0#32 then return rc
  modifyFile fp fun f =>
    { f with currentByte := BitVec.ofInt 16 (pos.tmod i.clusterSize), pos := BitVec.ofInt 32 pos }
  return 0#32

/-- `tf_fseek`. -/
def tfFseek (fp : Handle) (base : BitVec 32) (offset : Int) : FsM (BitVec 32) := do
  let pos ← long (base.toInt + offset)
  if (← file fp).size.toNat ≤ pos then return tfErrInvalidSeek
  tfUnsafeFseek fp base offset

/-! ## Transfers -/

/-- The sector that holds the current byte is fetched; the result is the place of the byte in the
buffer. -/
def fetchCurrent (fp : Handle) : FsM Nat := do
  let f ← file fp
  let first ← tfFirstSector f.currentCluster
  let sector ← int (first.toInt + f.currentByte.toInt.tdiv 512)
  let _ ← tfFetch sector
  let index := f.currentByte.toInt.tmod 512
  if index < 0 then fault .outOfBounds
  return index.toNat

/-- The loop of `tf_fread`: the bytes that were read, and what it returns. -/
def tfFread (fp : Handle) : (size : Nat) → FsM (List Byte × BitVec 32)
  | 0 => return ([], 0#32)
  | size + 1 => do
    let index ← fetchCurrent fp
    let v := (← info).buffer index
    let rc ← tfFseek fp 0#32 ((← file fp).pos + 1#32).toNat
    if rc ≠ 0#32 then return ([v], -1#32)
    let (rest, rc) ← tfFread fp size
    return (v :: rest, rc)

/-- The loops of `tf_fwrite` over the bytes of all items. -/
def fwriteBytes (fp : Handle) : (src : List Byte) → FsM (BitVec 32)
  | [] => return 0#32
  | v :: src => do
    let index ← fetchCurrent fp
    setByte index v
    modifyInfo fun i => { i with sectorFlags := i.sectorFlags ||| tfFlagDirty }
    let rc ← tfUnsafeFseek fp 0#32 ((← file fp).pos + 1#32).toNat
    if rc ≠ 0#32 then return -1#32
    fwriteBytes fp src

/-- `tf_fwrite` of the bytes of the items at `src`. -/
def tfFwrite (fp : Handle) (src : List Byte) : FsM (BitVec 32) := do
  modifyFile fp fun f => { f with flags := f.flags ||| tfFlagDirty }
  fwriteBytes fp src

/-! ## Freeing -/

/-- The loop of `tf_free_clusterchain`. -/
def freeClusters : (fuel : Nat) → (cluster fatEntry : BitVec 32) → FsM Unit
  | 0, _, _ => fault .diverges
  | fuel + 1, cluster, fatEntry => do
    if tfMarkEoc32.toInt ≤ fatEntry.toInt then return
    let _ ← tfSetFatEntry cluster 0#32
    let fatEntry ← tfGetFatEntry fatEntry
    freeClusters fuel fatEntry fatEntry

/-- `tf_free_clusterchain`. -/
def tfFreeClusterchain (fuel : Nat) (cluster : BitVec 32) : FsM (BitVec 32) := do
  freeClusters fuel cluster (← tfGetFatEntry cluster)
  return 0#32

end Mavmm.Hostfs
