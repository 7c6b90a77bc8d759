import Mavmm.Hostfs.FileSpec

/-!
# The sector cache against plain storage

Every byte that an operation stores is logged with its sector, and the log
played back over the disk is the storage without a cache.  The cache stands for
it as long as every store marks the buffer as dirty.  `tf_fwrite` does so for
the bytes of the file; `tf_set_fat_entry` does not, so what it stores is lost
with the next sector, unless the buffer happened to be dirty or the entry had
that value already (`fetch_writeThrough`).
-/

namespace Mavmm.Hostfs

/-! ## Storage without a cache -/

/-- A store of a byte. -/
def applyStore (disk : Disk) : FsEvent → Disk
  | .stored t off v => WriteBack.set disk t (Bytes.put (disk t) off v)
  | .char _ => disk

/-- The disk after the stores of a log. -/
def writeThrough (disk : Disk) (log : List FsEvent) : Disk := log.foldl applyStore disk

theorem writeThrough_append (disk : Disk) (log log' : List FsEvent) :
    writeThrough disk (log ++ log') = writeThrough (writeThrough disk log) log' :=
  List.foldl_append

/-! ## Operations -/

inductive CacheOp where
  | fetch (sector : BitVec 32)
  | store
  | setFatEntry (cluster value : BitVec 32)
  | fwrite (fp : Handle) (src : List Byte)

def CacheOp.exec : CacheOp → FsM Unit
  | fetch sector => do let _ ← tfFetch sector
  | store => do let _ ← tfStore
  | setFatEntry cluster value => do let _ ← tfSetFatEntry cluster value
  | fwrite fp src => do let _ ← tfFwrite fp src

/-- One operation, and the log of all stores. -/
def CacheStep (c : Fs × List FsEvent) (op : CacheOp) (c' : Fs × List FsEvent) : Prop :=
  ∃ es, op.exec.Runs c.1 es () c'.1 ∧ c'.2 = c.2 ++ es

/-- None of the next `n` positions of the handle begins a cluster of its file but the first one;
or the handle is beyond the end of its file. -/
def TfFile.StaysPut (f : TfFile) (clusterSize n : Nat) : Prop :=
  f.size.toNat < (f.pos + 1#32).toNat ∨
    ∀ k < n, clusterOf clusterSize (f.pos.toNat + k + 1) = 0 ∨
      clusterOf clusterSize (f.pos.toNat + k + 1) =
        if k = 0 then f.currentClusterIdx.toNat else clusterOf clusterSize (f.pos.toNat + k)

/-- Operations after which no store is lost. A FAT entry is set in a buffer that is dirty, or to
the value that it has; a file is written without a change to a cluster behind the first one. -/
def CacheOp.Safe (s : Fs) : CacheOp → Prop
  | fetch _ | store => True
  | setFatEntry cluster value =>
    s.info.currentSector = s.info.fatSector cluster ∧ s.dirty = true ∨
      s.fatEntry cluster = value
  | fwrite fp src => (s.handles fp).StaysPut s.info.clusterSize src.length

/-! ## The cache stands for the storage -/

/-- The cache stands for the disk with the stores of the log. -/
structure Refines (disk : Disk) (log : List FsEvent) (s : Fs) : Prop where
  errorFree : s.ErrorFree
  coherent : s.cache.Coherent
  view : s.cache.view = writeThrough disk log

section
variable {disk : Disk} {log es : List FsEvent} {s s' : Fs} {rc : BitVec 32}

theorem Refines.fetched (h : Refines disk log s) (t : BitVec 32) :
    Refines disk log (s.fetched t) where
  errorFree := h.errorFree.fetched t
  coherent := by
    rw [Fs.cache_fetched]
    exact h.coherent.fetch t
  view := by
    rw [Fs.cache_fetched, WriteBack.view_fetch h.coherent, h.view]

theorem Refines.flushed (h : Refines disk log s) : Refines disk log s.flushed where
  errorFree := fun n => h.errorFree (n + 1)
  coherent := by
    rw [Fs.cache_flushed]
    exact WriteBack.Coherent.flush
  view := by
    rw [Fs.cache_flushed, WriteBack.view_flush, h.view]

/-- The buffer holds the sector of the storage. -/
theorem Refines.buffer (h : Refines disk log s) :
    s.info.buffer = writeThrough disk log s.info.currentSector := by
  rw [← h.view]
  exact (WriteBack.view_key (c := s.cache)).symm

/-- The four stores of a word. -/
theorem writeThrough_storeWord (t : BitVec 32) (off : Nat) (v : BitVec 32) :
    writeThrough disk (storeWord t off v) =
      WriteBack.set disk t (Bytes.putWord (disk t) 4 off v) := by
  rw [← put_eq_putWord]
  unfold writeThrough storeWord
  simp only [List.foldl_cons, List.foldl_nil, applyStore, WriteBack.set_self, WriteBack.set_set]

/-- A word may be set in a buffer that is dirty, or where it is already. -/
theorem Refines.wordSet (h : Refines disk log s) {off : Nat} {v : BitVec 32}
    (hsafe : s.dirty = true ∨ Bytes.word s.info.buffer 4 off = v) :
    Refines disk (log ++ storeWord s.info.currentSector off v) (s.wordSet off v) where
  errorFree := h.errorFree
  coherent := by
    apply (WriteBack.coherent_change_iff h.coherent).mpr
    rcases hsafe with hdirty | hword
    · exact Or.inl hdirty
    · right
      rw [← hword]
      exact (Bytes.putWord_word (n := 4)).symm
  view := by
    have hkey : s.cache.view s.info.currentSector = s.info.buffer := WriteBack.view_key (c := s.cache)
    rw [writeThrough_append, writeThrough_storeWord, ← h.view, hkey]
    exact WriteBack.view_change (c := s.cache)

/-- A byte that is set and marked. -/
def Fs.byteSet (s : Fs) (off : Nat) (v : Byte) : Fs :=
  { s with info := { s.info with
      buffer := Bytes.put s.info.buffer off v
      sectorFlags := s.info.sectorFlags ||| tfFlagDirty } }

theorem Fs.cache_byteSet (off : Nat) (v : Byte) :
    (s.byteSet off v).cache = s.cache.update (Bytes.put s.info.buffer off v) :=
  Fs.cache_eq (s := s.byteSet off v) (flagged_or_self _ (by decide))

theorem Refines.byteSet (h : Refines disk log s) (off : Nat) (v : Byte) :
    Refines disk (log ++ [.stored s.info.currentSector off v]) (s.byteSet off v) where
  errorFree := h.errorFree
  coherent := by
    rw [Fs.cache_byteSet]
    exact WriteBack.Coherent.update
  view := by
    have hkey : s.cache.view s.info.currentSector = s.info.buffer := WriteBack.view_key (c := s.cache)
    rw [Fs.cache_byteSet, writeThrough_append, ← h.view, WriteBack.view_update]
    unfold writeThrough
    rw [List.foldl_cons, List.foldl_nil, applyStore, hkey]
    rfl

theorem Refines.setFile (h : Refines disk log s) (fp : Handle) (f : TfFile) :
    Refines disk log (s.setFile fp f) := ⟨h.errorFree, h.coherent, h.view⟩

/-! ## Runs of the operations -/

theorem runs_int {x : Int} {r : BitVec 32} : (int x).Runs s es r s' ↔
    (-2 ^ 31 ≤ x ∧ x < 2 ^ 31) ∧ es = [] ∧ BitVec.ofInt 32 x = r ∧ s = s' := by
  unfold int
  split
  · next h => exact Exec.runs_pure.trans (iff_and_self.mpr fun _ => h)
  · next h => exact iff_of_false (fun hr => nomatch hr) fun hr => h hr.1

theorem runs_tfFirstSector {c r : BitVec 32} (hrun : (tfFirstSector c).Runs s es r s') :
    es = [] ∧ s = s' := by
  unfold tfFirstSector Exec.Runs at hrun
  rw [run_info_bind] at hrun
  obtain ⟨_, n, t, _, hn, hrest, rfl⟩ := Exec.runs_bind.mp hrun
  obtain ⟨-, rfl, -, rfl⟩ := runs_int.mp hn
  obtain ⟨_, n, t, _, hn, hrest, rfl⟩ := Exec.runs_bind.mp hrest
  obtain ⟨-, rfl, -, rfl⟩ := runs_int.mp hn
  obtain ⟨rfl, -, rfl⟩ := Exec.runs_pure.mp hrest
  exact ⟨rfl, rfl⟩

/-- Before a byte is transferred, some sector is fetched. -/
theorem runs_fetchCurrent {fp : Handle} {index : Nat} (h : s.ErrorFree)
    (hrun : (fetchCurrent fp).Runs s es index s') : es = [] ∧ ∃ t, s' = s.fetched t := by
  unfold fetchCurrent Exec.Runs at hrun
  rw [run_file_bind] at hrun
  obtain ⟨_, first, t, _, hfirst, hrest, rfl⟩ := Exec.runs_bind.mp hrun
  obtain ⟨rfl, rfl⟩ := runs_tfFirstSector hfirst
  obtain ⟨_, sector, t, _, hsector, hrest, rfl⟩ := Exec.runs_bind.mp hrest
  obtain ⟨-, rfl, -, rfl⟩ := runs_int.mp hsector
  unfold Exec.Runs at hrest
  rw [Exec.run_bind (run_tfFetch h sector)] at hrest
  dsimp only at hrest
  split at hrest
  · cases hrest
  · cases hrest
    exact ⟨rfl, sector, rfl⟩

/-- The next position of a handle that stays put. -/
theorem TfFile.StaysPut.next {f : TfFile} {clusterSize n : Nat}
    (h : f.StaysPut clusterSize (n + 1)) (hle : (f.pos + 1#32).toNat ≤ f.size.toNat) :
    f.Near clusterSize (f.pos + 1#32).toNat ∧
      (f.sought clusterSize (f.pos + 1#32).toNat).StaysPut clusterSize n := by
  have hall := h.resolve_left (Nat.not_lt.mpr hle)
  have hlt := (f.pos + 1#32).isLt
  have hpos : BitVec.ofInt 32 ((f.pos + 1#32).toNat : Int) = f.pos + 1#32 := by
    rw [BitVec.ofInt_natCast, BitVec.ofNat_toNat, BitVec.setWidth_eq]
  have hnext : ∀ k, clusterOf clusterSize ((f.pos + 1#32).toNat + k) =
      clusterOf clusterSize (f.pos.toNat + (k + 1)) := by
    intro k
    have hadd : (f.pos + 1#32).toNat = (f.pos.toNat + 1) % 2 ^ 32 := BitVec.toNat_add _ _
    have hmod : ((f.pos + 1#32).toNat + k) % 2 ^ 32 = (f.pos.toNat + (k + 1)) % 2 ^ 32 := by omega
    unfold clusterOf
    rw [hmod]
  refine ⟨near_of hlt ?_, Or.inr fun k hk => ?_⟩
  · have h0 := hall 0 (Nat.succ_pos n)
    rw [if_pos rfl, Nat.add_zero, ← hnext 0] at h0
    exact h0
  · have hk' := hall (k + 1) (Nat.succ_lt_succ hk)
    rw [if_neg (Nat.succ_ne_zero k), Nat.add_assoc, ← hnext (k + 1), ← hnext k] at hk'
    rw [sought_pos, sought_currentClusterIdx, toNat_ofInt_tdiv hlt, hpos]
    split
    · next hzero =>
      rw [hzero] at hk' ⊢
      exact hk'
    · exact hk'

/-- The bytes of a file that stays in its cluster. -/
theorem Refines.fwriteBytes {fp : Handle} {src : List Byte} (h : Refines disk log s)
    (hput : (s.handles fp).StaysPut s.info.clusterSize src.length)
    (hrun : (fwriteBytes fp src).Runs s es rc s') : Refines disk (log ++ es) s' := by
  induction src generalizing log s es with
  | nil =>
    obtain ⟨rfl, -, rfl⟩ := Exec.runs_pure.mp hrun
    rw [List.append_nil]
    exact h
  | cons v src ih =>
    unfold Hostfs.fwriteBytes at hrun
    obtain ⟨_, index, _, _, hfetch, hrest, rfl⟩ := Exec.runs_bind.mp hrun
    obtain ⟨rfl, t, rfl⟩ := runs_fetchCurrent h.errorFree hfetch
    obtain ⟨es, hseek, rfl⟩ := (Exec.runs_bind_of (run_setByte index v)).mp hrest
    have hbyte := (h.fetched t).byteSet index v
    have hsize : ((s.fetched t).byteSet index v).info.clusterSize = s.info.clusterSize :=
      Fs.fetched_info TfInfo.clusterSize (fun _ _ _ _ => rfl) t
    have hfile : ((s.fetched t).byteSet index v).handles = s.handles := Fs.fetched_handles t
    generalize hs₁ : (s.fetched t).byteSet index v = s₁ at *
    have hseek := (Exec.runs_bind_nil (t := s₁) (by rw [← hs₁]; rfl)).mp hseek
    have hseek := (Exec.runs_bind_nil (a := s₁.handles fp) (t := s₁) rfl).mp hseek
    have hlt := ((s₁.handles fp).pos + 1#32).isLt
    rw [List.nil_append, ← List.append_assoc]
    rcases Nat.lt_or_ge (s₁.handles fp).size.toNat ((s₁.handles fp).pos + 1#32).toNat with hbeyond | hle
    · -- the handle is beyond the end, so that the byte was the last one
      have hseek := (Exec.runs_bind_nil (run_seekTo_beyond hlt hbeyond)).mp hseek
      obtain ⟨rfl, -, rfl⟩ := Exec.runs_pure.mp hseek
      rw [List.append_nil]
      exact hbyte
    · by_cases hzero : s₁.info.clusterSize = 0
      · obtain ⟨_, _, _, _, hfails, -⟩ := Exec.runs_bind.mp hseek
        cases (run_seekTo_zero hlt hle hzero).symm.trans hfails
      · rw [← hfile, ← hsize] at hput
        obtain ⟨hnear, hnext⟩ := hput.next hle
        have hseek := (Exec.runs_bind_nil (run_seekTo hlt hle hzero hnear)).mp hseek
        refine ih (hbyte.setFile fp _) ?_ hseek
        rw [Fs.setFile_self]
        exact hnext

/-- A word of a sector is set. -/
theorem Refines.tfSetFatEntry {c v : BitVec 32} (h : Refines disk log s)
    (hsafe : s.info.currentSector = s.info.fatSector c ∧ s.dirty = true ∨ s.fatEntry c = v)
    (hrun : (tfSetFatEntry c v).Runs s es rc s') : Refines disk (log ++ es) s' := by
  obtain ⟨hc, hindex⟩ := tfSetFatEntry_range h.errorFree hrun.returns
  have hrun := (run_tfSetFatEntry h.errorFree hc hindex v).symm.trans hrun
  cases hrun
  have hfetched := h.fetched (s.info.fatSector c)
  have hword := @Refines.wordSet disk log _ hfetched (fatIndex c) v ?_
  · rw [Fs.fetched_currentSector] at hword
    exact hword
  · rcases hsafe with ⟨hcurrent, hdirty⟩ | hentry
    · left
      unfold Fs.fetched
      rw [if_pos hcurrent.symm]
      exact hdirty
    · right
      have hbuffer : (s.fetched (s.info.fatSector c)).info.buffer =
          s.cache.view (s.info.fatSector c) := by
        have hblock := WriteBack.block_fetch h.coherent (s.info.fatSector c)
        rw [← Fs.cache_fetched] at hblock
        exact hblock
      rw [hbuffer]
      exact hentry

/-- Every operation that is safe keeps what the cache stands for. -/
theorem Refines.step {c c' : Fs × List FsEvent} {op : CacheOp} (h : Refines disk c.2 c.1)
    (hsafe : op.Safe c.1) (hstep : CacheStep c op c') : Refines disk c'.2 c'.1 := by
  obtain ⟨s, log⟩ := c
  obtain ⟨s', log'⟩ := c'
  obtain ⟨es, hrun, rfl⟩ := hstep
  dsimp only at *
  cases op with
  | fetch t =>
    have hrun := (Exec.runs_bind_nil (run_tfFetch h.errorFree t)).mp hrun
    obtain ⟨rfl, -, rfl⟩ := Exec.runs_pure.mp hrun
    rw [List.append_nil]
    exact h.fetched t
  | store =>
    have hrun := (Exec.runs_bind_nil (run_tfStore h.errorFree)).mp hrun
    obtain ⟨rfl, -, rfl⟩ := Exec.runs_pure.mp hrun
    rw [List.append_nil]
    exact h.flushed
  | setFatEntry cluster value =>
    obtain ⟨es₁, rc, t, es₂, hset, hrest, rfl⟩ := Exec.runs_bind.mp hrun
    obtain ⟨rfl, -, rfl⟩ := Exec.runs_pure.mp hrest
    rw [List.append_nil]
    exact h.tfSetFatEntry hsafe hset
  | fwrite fp src =>
    obtain ⟨es₁, rc, t, es₂, hwrite, hrest, rfl⟩ := Exec.runs_bind.mp hrun
    obtain ⟨rfl, -, rfl⟩ := Exec.runs_pure.mp hrest
    rw [List.append_nil]
    have hwrite := (Exec.runs_bind_nil rfl).mp hwrite
    refine (h.setFile fp _).fwriteBytes ?_ hwrite
    rw [Fs.setFile_self]
    exact hsafe

/-- After the first steps of `tf_init` the cache stands for the disk. -/
theorem refines_fetchBootSector (h : s.ErrorFree) (hrun : fetchBootSector.Returns s rc s') :
    Refines s'.disk [] s' := by
  let s₁ : Fs := { s with info := { s.info with currentSector := -1#32, sectorFlags := 0#8 } }
  have hrun : (tfFetch 0#32).Returns s₁ rc s' := hrun
  obtain ⟨-, rfl⟩ := (Exec.returns_of_run (run_tfFetch (s := s₁) h 0#32)).mp hrun
  have hne : ¬ 0#32 = -1#32 := by decide
  have hclean : flagged 0#8 tfFlagDirty = false := by decide
  have hdirty : s₁.dirty = false := hclean
  have hfetched : s₁.fetched 0#32 = s₁.loaded 0#32 := by
    unfold Fs.fetched
    rw [if_neg hne, hdirty, if_neg Bool.false_ne_true]
  rw [hfetched]
  exact ⟨fun n => h (n + 1), fun _ => rfl, WriteBack.set_eq rfl⟩

end

/-- The driver has read the boot sector of a device that never fails. -/
def Started (s : Fs) : Prop := ∃ s₀ rc, s₀.ErrorFree ∧ fetchBootSector.Returns s₀ rc s

/-- After any run of safe operations, every sector that is fetched holds the last value that was
stored into each of its bytes, or what the disk had there. -/
theorem fetch_writeThrough {s₀ s s' : Fs} {log : List FsEvent} {ops : List CacheOp} {t rc : BitVec 32}
    (hstart : Started s₀)
    (hrun : Run (fun c op c' => op.Safe c.1 ∧ CacheStep c op c') (s₀, []) ops (s, log))
    (hfetch : (tfFetch t).Returns s rc s') :
    rc = 0#32 ∧ s'.info.buffer = writeThrough s₀.disk log t := by
  obtain ⟨s₁, rc₁, hfree, hboot⟩ := hstart
  have hinv := hrun.invariant (I := fun c => Refines s₀.disk c.2 c.1)
    (refines_fetchBootSector hfree hboot) fun h hstep => h.step hstep.1 hstep.2
  obtain ⟨rfl, rfl⟩ := (Exec.returns_of_run (run_tfFetch hinv.errorFree t)).mp hfetch
  refine ⟨rfl, ?_⟩
  rw [(hinv.fetched t).buffer, Fs.fetched_currentSector]

/-- The entry of cluster 2 is set on an empty disk. -/
def Fs.blankSet (value : BitVec 32) : Fs := (Fs.blank.fetched 32#32).wordSet 8 value

theorem Fs.errorFree_blankSet (value : BitVec 32) : (Fs.blankSet value).ErrorFree :=
  Fs.errorFree_blank.fetched 32#32

theorem cacheStep_blankSet (value : BitVec 32) :
    CacheStep (Fs.blank, []) (.setFatEntry 2#32 value)
      (Fs.blankSet value, storeWord 32#32 8 value) :=
  ⟨_, (Exec.runs_bind_of (run_tfSetFatEntry Fs.errorFree_blank (by decide) (by decide) value)).mpr
    ⟨[], rfl, rfl⟩, rfl⟩

/-- A file of 100 bytes in cluster 2. -/
def Fs.oneFile : Fs :=
  { Fs.blank with handles := fun _ =>
      { Fs.blank.handles firstHandle with
        startCluster := 2#32, currentCluster := 2#32, size := 100#32 } }

/-- Two bytes are written into the file, and another sector is fetched. -/
def writeThenFetch : FsM Unit := do
  (CacheOp.fwrite firstHandle [0x41#8, 0x42#8]).exec
  (CacheOp.fetch 0#32).exec

/-- They are found in the first sector of the file. -/
theorem fetch_writeThrough_written : ∃ s s' log,
    Run CacheStep (Fs.oneFile, []) [.fwrite firstHandle [0x41#8, 0x42#8], .fetch 0#32] (s, log) ∧
    (tfFetch 1056#32).Returns s 0#32 s' ∧
    s'.info.buffer 0 = 0x41#8 ∧ s'.info.buffer 1 = 0x42#8 := by
  have hcalls : ∃ s', (writeThenFetch >>= fun _ => tfFetch 1056#32).Returns Fs.oneFile 0#32 s' := by
    decide +kernel
  obtain ⟨s', hcalls⟩ := hcalls
  obtain ⟨_, s, hboth, hlast⟩ := Exec.returns_bind.mp hcalls
  obtain ⟨es, _, t, es', hwrite, hfetch, hlog⟩ := Exec.runs_bind.mp hboth.runs
  have hstart : Started Fs.oneFile := ⟨Fs.oneFile, 0#32, fun _ => rfl, rfl⟩
  have hput : CacheOp.Safe Fs.oneFile (.fwrite firstHandle [0x41#8, 0x42#8]) := Or.inr (by decide)
  have hget : CacheOp.Safe t (.fetch 0#32) := trivial
  have hstep : CacheStep (Fs.oneFile, []) (.fwrite firstHandle [0x41#8, 0x42#8]) (t, [] ++ es) :=
    ⟨es, hwrite, rfl⟩
  have hstep' : CacheStep (t, [] ++ es) (.fetch 0#32) (s, [] ++ es ++ es') := ⟨es', hfetch, rfl⟩
  have hbuffer := (fetch_writeThrough hstart (.snoc (.snoc .nil ⟨hput, hstep⟩) ⟨hget, hstep'⟩)
    hlast).2
  rw [List.nil_append, ← hlog] at hbuffer
  refine ⟨s, s', _, .snoc (.snoc .nil hstep) hstep', hlast, ?_, ?_⟩
  · rw [hbuffer]
    decide +kernel
  · rw [hbuffer]
    decide +kernel

/-- An entry that is set is gone when its sector is fetched after another one. -/
theorem fetch_loses_fatEntry : ∃ s s' log,
    Run CacheStep (Fs.blank, []) [.setFatEntry 2#32 3#32, .fetch 0#32] (s, log) ∧
    (tfFetch 32#32).Returns s 0#32 s' ∧
    Bytes.word s'.info.buffer 4 8 = 0#32 ∧
    Bytes.word (writeThrough Fs.blank.disk log 32#32) 4 8 = 3#32 := by
  have hfree := (Fs.errorFree_blankSet 3#32).fetched 0#32
  have hnext : CacheStep (Fs.blankSet 3#32, storeWord 32#32 8 3#32) (.fetch 0#32)
      ((Fs.blankSet 3#32).fetched 0#32, storeWord 32#32 8 3#32) :=
    ⟨[], (Exec.runs_bind_nil (run_tfFetch (Fs.errorFree_blankSet 3#32) 0#32)).mpr rfl,
      (List.append_nil _).symm⟩
  refine ⟨_, _, _, .snoc (.snoc .nil (cacheStep_blankSet 3#32)) hnext,
    (Exec.returns_of_run (run_tfFetch hfree 32#32)).mpr ⟨rfl, rfl⟩, rfl, ?_⟩
  rw [writeThrough_storeWord, WriteBack.set_self]
  exact Bytes.word_putWord (n := 4)

end Mavmm.Hostfs
