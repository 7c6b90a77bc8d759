import Mavmm.Hostfs.NameCompare
import Mavmm.Hostfs.ReadBack

/-!
# Looking up a name

Entries are read with 36 bytes, so that only the first record of a directory is
read as it is.  A lookup is exact for a name that this record has, and for a
name that no record has if there is only this one (`tfFindFile_exact`); it
reads behind the end of every name with fewer than 11 characters.
-/

namespace Mavmm.Hostfs

/-! ## Entries at a position -/

/-- The handle of a directory in the cluster `c`, `t` bytes behind its begin. -/
structure TfFile.InDirectory (f : TfFile) (clusterSize : Nat) (c : BitVec 32) (t : Nat) : Prop where
  stands : f.Stands clusterSize c t
  size : f.size = 0xffffffff#32

/-- The driver stands for the volume, and a handle of a directory is at a position. -/
def ReadsAt (i : TfInfo) (vol : Disk) (files : Handle → TfFile) (fp : Handle) (c : BitVec 32)
    (t : Nat) (s : Fs) : Prop :=
  ∃ f : TfFile, f.InDirectory i.clusterSize c t ∧ f.attributes = (files fp).attributes ∧
    Shows i vol (WriteBack.set files fp f) s

/-- The entry that is read at a position over another one. -/
def TfInfo.entryAt (i : TfInfo) (vol : Disk) (c : BitVec 32) (t : Nat) (entry : FatFileEntry) :
    FatFileEntry := fun k =>
  (Ring.read i.clusterSize (i.byteAt vol c) t sizeofFatFileEntry).getD k (entry k)

section
variable {i : TfInfo} {vol : Disk} {files : Handle → TfFile} {fp : Handle} {c : BitVec 32}
  {last t : Nat} {entry : FatFileEntry}

/-- An entry that does not go around the end of the cluster. -/
theorem TfInfo.entryAt_eq (ht : t + 36 ≤ i.clusterSize) {k : Nat} (hk : k < 36) :
    i.entryAt vol c t entry k = i.byteAt vol c (t + k) := by
  have hlt : k < (Ring.read i.clusterSize (i.byteAt vol c) t sizeofFatFileEntry).length := by
    rwa [Ring.length_read, sizeofFatFileEntry_eq]
  unfold TfInfo.entryAt
  rw [List.getD_eq_getElem _ _ hlt, Ring.getElem_read, Nat.mod_eq_of_lt (by omega)]

/-- What does not use the handle keeps its position. -/
theorem readsAt_of_does {α : Type} {x : FsM α} {a : α}
    (h : ∀ files, Does last i vol files x a vol files) :
    x.Leads (FsEvent.UpTo last) (ReadsAt i vol files fp c t) a (ReadsAt i vol files fp c t) := by
  rintro s ⟨f, hf, hattr, hs⟩
  obtain ⟨es, s', hrun, hs', hes⟩ := h _ s hs
  exact ⟨es, s', hrun, ⟨f, hf, hattr, hs'⟩, hes⟩

/-- What a local variable held does not matter. -/
theorem Shows.newLocal {s : Fs} (hs : Shows i vol files s) :
    Shows i vol files { s with locals := fun n => s.locals (n + 1) } :=
  ⟨hs.errorFree, hs.geometry, hs.dirty, hs.clean, hs.volume, hs.handles⟩

theorem ReadsAt.newLocal {s s' : Fs} {v : Nat → Byte} (hs : ReadsAt i vol files fp c t s)
    (h : Hostfs.newLocal.Returns s v s') : ReadsAt i vol files fp c t s' := by
  obtain ⟨f, hf, hattr, hshows⟩ := hs
  cases h
  exact ⟨f, hf, hattr, hshows.newLocal⟩

theorem readsAt_newLocal_bind {β : Type} {f : (Nat → Byte) → FsM β} {b : β} {J : Fs → Prop}
    (hf : ∀ v, (f v).Leads (FsEvent.UpTo last) (ReadsAt i vol files fp c t) b J) :
    (newLocal >>= f).Leads (FsEvent.UpTo last) (ReadsAt i vol files fp c t) b J := by
  exact fun s hs => hf (s.locals 0) _ (hs.newLocal rfl)

theorem readsAt_freadEntry (hi : i.Fat32) (hc : i.IsCluster c) (ht : t + 36 < 2 ^ 32 - 1)
    (hreach : i.Reach c t 36) :
    (freadEntry fp entry).Leads (FsEvent.UpTo last) (ReadsAt i vol files fp c t)
      (i.entryAt vol c t entry) (ReadsAt i vol files fp c (t + 36)) := by
  rintro s ⟨f, hf, hattr, hs⟩
  have hsize : t + sizeofFatFileEntry < (WriteBack.set files fp f fp).size.toNat := by
    rw [WriteBack.set_self, hf.size, sizeofFatFileEntry_eq]
    exact ht
  obtain ⟨f', hread, hf', hsize', hattr'⟩ := @does_tfFread i vol fp c last hi hc sizeofFatFileEntry t
    (WriteBack.set files fp f) (by rw [WriteBack.set_self]; exact hf.stands) hsize
    (by rwa [sizeofFatFileEntry_eq])
  rw [WriteBack.set_self] at hsize' hattr'
  rw [WriteBack.set_set] at hread
  rw [sizeofFatFileEntry_eq] at hf'
  obtain ⟨es, s', hrun, hs', hes⟩ := (hread.bind does_pure : Does last i vol _ (freadEntry fp entry)
    (i.entryAt vol c t entry) vol _) s hs
  exact ⟨es, s', hrun, ⟨f', ⟨hf', hsize'.trans hf.size⟩, hattr'.trans hattr, hs'⟩, hes⟩

/-- A seek to another position. -/
theorem readsAt_tfFseek (hi : i.Fat32) (hc : i.IsCluster c) {base : BitVec 32} {offset : Int}
    {p : Nat} (hsum : base.toInt + offset = p) (hlt : p < 2 ^ 32 - 1) :
    (tfFseek fp base offset).Leads (FsEvent.UpTo last) (ReadsAt i vol files fp c t) 0#32
      (ReadsAt i vol files fp c p) := by
  rintro s ⟨f, hf, hattr, hs⟩
  have hsize : f.size.toNat = 2 ^ 32 - 1 := by
    rw [hf.size]
    rfl
  have hseek := @does_tfFseek i vol (WriteBack.set files fp f) fp last hi
    (by rw [WriteBack.set_self, hf.stands.startCluster]; exact hc) base offset p hsum
    (by rw [WriteBack.set_self]; omega)
  rw [WriteBack.set_self, WriteBack.set_set] at hseek
  have hmod : p % 2 ^ 32 = p := Nat.mod_eq_of_lt (by omega)
  have hstands := @TfFile.stands_sought c f i.clusterSize p hf.stands.startCluster
    hf.stands.currentCluster (by omega) (by omega) (by omega)
  rw [hmod] at hstands
  have hsame : (f.sought i.clusterSize p).size = f.size := by
    rw [TfFile.size_sought, if_neg (by omega)]
  obtain ⟨es, s', hrun, hs', hes⟩ := hseek s hs
  exact ⟨es, s', hrun, ⟨_, ⟨hstands, hsame.trans hf.size⟩,
    TfFile.attributes_sought.trans hattr, hs'⟩, hes⟩

theorem readsAt_fseekEntries (hi : i.Fat32) (hc : i.IsCluster c) {n : Int} {p : Nat}
    (hn : -2 ^ 31 ≤ n * 36 ∧ n * 36 < 2 ^ 31) (hsum : n * 36 + t = p) (ht : t < 2 ^ 32)
    (hlt : p < 2 ^ 32 - 1) :
    (fseekEntries fp n).Leads (FsEvent.UpTo last) (ReadsAt i vol files fp c t) 0#32
      (ReadsAt i vol files fp c p) := by
  have hentry : (n * (sizeofFatFileEntry : Int)) = n * 36 := by rw [sizeofFatFileEntry_eq]; rfl
  have hbase : (BitVec.ofInt 32 (n * 36)).toInt = n * 36 := toInt_ofInt hn
  have hseek := @readsAt_tfFseek i vol files fp c last t hi hc (BitVec.ofInt 32 (n * 36)) t p
    (by rw [hbase, hsum]) hlt
  rintro s ⟨f, hf, hattr, hs⟩
  have hpos : (s.handles fp).pos.toNat = t := by
    rw [hs.handles, WriteBack.set_self, hf.stands.pos, Nat.mod_eq_of_lt ht]
  obtain ⟨es, s', hrun, hs', hes⟩ := hseek s ⟨f, hf, hattr, hs⟩
  refine ⟨es, s', ?_, hs', hes⟩
  unfold fseekEntries
  rw [hentry]
  unfold Exec.Runs
  rw [run_file_bind, hpos]
  exact hrun

/-- The handle is that of a directory, wherever in it. -/
structure TfFile.Directory (f : TfFile) (c : BitVec 32) : Prop where
  startCluster : f.startCluster = c
  currentCluster : f.currentCluster = c
  size : f.size = 0xffffffff#32

/-- A lookup begins with the first entry. -/
theorem readsAt_begin (hi : i.Fat32) (hc : i.IsCluster c) (hdir : (files fp).Directory c) :
    (tfFseek fp 0#32 0).Leads (FsEvent.UpTo last) (Shows i vol files) 0#32
      (ReadsAt i vol files fp c 0) := by
  have hsize : (files fp).size.toNat = 2 ^ 32 - 1 := by
    rw [hdir.size]
    rfl
  have hstands := @TfFile.stands_sought c (files fp) i.clusterSize 0 hdir.startCluster
    hdir.currentCluster (by omega) (by omega) (by omega)
  have hsame : ((files fp).sought i.clusterSize (0 : Nat)).size = (files fp).size := by
    rw [TfFile.size_sought, if_neg (by omega)]
  have hseek := @does_tfFseek i vol files fp last hi (hdir.startCluster ▸ hc) 0#32 0 0 rfl
    (by omega)
  intro s hs
  obtain ⟨es, s', hrun, hs', hes⟩ := hseek s hs
  exact ⟨es, s', hrun, ⟨_, ⟨hstands, hsame.trans hdir.size⟩, TfFile.attributes_sought, hs'⟩, hes⟩

/-! ## Comparing an entry -/

/-- Whether a record is taken for the one with the name. -/
def Path.matches (name : Path) (entry : FatFileEntry) (stop : Nat) : Bool :=
  name.caseEqual (fun k => entry.reformatted.getD k 0#8) (min 13 stop) 0

/-- The directory ends here. -/
theorem readsAt_tfCompareFilename_end (hi : i.Fat32) (hc : i.IsCluster c)
    (ht : t + 36 ≤ i.clusterSize) (hreach : i.Reach c t 36) (hzero : i.byteAt vol c t = 0#8)
    {name : Path} :
    (tfCompareFilename fp name).Leads (FsEvent.UpTo last) (ReadsAt i vol files fp c t) (-1)
      (ReadsAt i vol files fp c (t + 36)) := by
  have hsize := i.clusterSize_lt
  unfold tfCompareFilename
  apply readsAt_newLocal_bind
  intro v
  refine (readsAt_freadEntry hi hc (by omega) hreach).bind ?_
  have hfirst : i.entryAt vol c t v 0 = 0#8 := by
    rw [TfInfo.entryAt_eq ht (by simp)]
    exact hzero
  rw [if_pos hfirst]
  exact Exec.leads_pure fun _ h => h

/-- A record with a short name is read, and then compared with the name. -/
theorem run_tfCompareFilename_short (hi : i.Fat32) (hc : i.IsCluster c)
    (ht : t + 36 ≤ i.clusterSize) (hreach : i.Reach c t 36) {e : ShortEntry}
    (hbytes : ∀ k < 12, i.byteAt vol c (t + k) = e.bytes k) {name : Path} {s : Fs}
    (hs : ReadsAt i vol files fp c t s) :
    ∃ es s' entry, (∀ k < 12, entry k = e.bytes k) ∧ entry.msdosAttributes ≠ 0x0f#8 ∧
      ReadsAt i vol files fp c (t + 36) s' ∧ (∀ ev ∈ es, ev.UpTo last) ∧
      ∀ x : FsM Int, x = (do
        if ← tfCompareFilenameSegment entry name then
          let _ ← fseekEntries fp (-1)
          return 1
        else return 0) →
      tfCompareFilename fp name s = (es ++ (x s').1, (x s').2) := by
  have hsize := i.clusterSize_lt
  have hread := @readsAt_freadEntry i vol files fp c last t (s.locals 0) hi hc (by omega) hreach
  have hentry : ∀ k < 12, i.entryAt vol c t (s.locals 0) k = e.bytes k := by
    intro k hk
    rw [TfInfo.entryAt_eq ht (by omega), hbytes k hk]
  generalize i.entryAt vol c t (s.locals 0) = entry at *
  have hfirst : entry 0 ≠ 0#8 := by
    rw [hentry 0 (by simp)]
    exact e.used.1
  have hshort : entry.msdosAttributes ≠ 0x0f#8 := by
    rw [msdosAttributes_eq, hentry 11 (by simp)]
    exact e.attributes
  obtain ⟨es, s', hrun, hs', hes⟩ := hread _ (hs.newLocal rfl)
  refine ⟨es, s', entry, hentry, hshort, hs', hes, ?_⟩
  rintro x rfl
  have hlocal : newLocal s =
      ([], .ok (s.locals 0, { s with locals := fun n => s.locals (n + 1) })) := rfl
  unfold tfCompareFilename
  rw [Exec.run_bind hlocal, Exec.run_bind_log hrun, if_neg hfirst, if_pos hshort]

/-- The record is found or skipped. -/
theorem readsAt_tfCompareFilename_short (hi : i.Fat32) (hc : i.IsCluster c)
    (ht : t + 36 ≤ i.clusterSize) (hreach : i.Reach c t 36) {e : ShortEntry}
    (hbytes : ∀ k < 12, i.byteAt vol c (t + k) = e.bytes k) {name : Path} {stop : Nat}
    (hstop : name.StopsAt stop) (hfuel : stop < maxString) (hlast : name.off + stop ≤ last) :
    (tfCompareFilename fp name).Leads (FsEvent.UpTo last) (ReadsAt i vol files fp c t)
      (if name.matches e.bytes stop then 1 else 0)
      (ReadsAt i vol files fp c (if name.matches e.bytes stop then t else t + 36)) := by
  have hsize := i.clusterSize_lt
  intro s hs
  obtain ⟨es, s₁, entry, hentry, hshort, hs₁, hes, hrun⟩ :=
    @run_tfCompareFilename_short i vol files fp c last t hi hc ht hreach e hbytes name s hs
  have hsegment : (tfCompareFilenameSegment entry name).Leads (FsEvent.UpTo last)
      (ReadsAt i vol files fp c (t + 36)) (name.matches e.bytes stop)
      (ReadsAt i vol files fp c (t + 36)) := by
    refine readsAt_of_does fun files => ?_
    unfold Path.matches
    rw [← reformatted_congr hentry]
    exact does_tfCompareFilenameSegment hshort hstop hfuel hlast
  have hrest : (do
      if ← tfCompareFilenameSegment entry name then
        let _ ← fseekEntries fp (-1)
        return (1 : Int)
      else return 0).Leads (FsEvent.UpTo last) (ReadsAt i vol files fp c (t + 36))
      (if name.matches e.bytes stop then 1 else 0)
      (ReadsAt i vol files fp c (if name.matches e.bytes stop then t else t + 36)) := by
    refine hsegment.bind ?_
    cases name.matches e.bytes stop with
    | true =>
      refine (readsAt_fseekEntries (t := t + 36) (n := -1) (p := t) hi hc (by simp) (by omega)
        (by omega) (by omega)).bind ?_
      exact Exec.leads_pure fun _ h => h
    | false => exact Exec.leads_pure fun _ h => h
  obtain ⟨es', s', hrun', hs', hes'⟩ := hrest s₁ hs₁
  refine ⟨es ++ es', s', ?_, hs', List.forall_mem_append.mpr ⟨hes, hes'⟩⟩
  unfold Exec.Runs
  rw [hrun _ rfl, hrun']

/-! ## The first records of a directory -/

/-- The bytes are those at the begin of the cluster. -/
def TfInfo.Holds (i : TfInfo) (vol : Disk) (c : BitVec 32) (bytes : List Byte) : Prop :=
  bytes.length ≤ i.clusterSize ∧ ∀ k < bytes.length, i.byteAt vol c k = bytes.getD k 0#8

theorem ShortEntry.length_toBytes (e : ShortEntry) : e.toBytes.length = 32 := by
  unfold ShortEntry.toBytes recordSize
  rw [List.length_map, List.length_range]

theorem directoryBytes_cons {f : DirFile} {rest : List DirFile} (hshort : f.longName = none) :
    directoryBytes (f :: rest) = f.entry.toBytes ++ directoryBytes rest := by
  unfold directoryBytes DirFile.toBytes DirFile.longBytes
  simp only [hshort, List.flatMap_cons, List.nil_append, List.append_assoc]

theorem getD_directoryBytes_nil {k : Nat} : (directoryBytes []).getD k 0#8 = 0#8 := by
  rw [List.getD_eq_getElem?_getD]
  exact List.getElem?_getD_replicate_default_eq _ _ _

/-- The first record. -/
theorem TfInfo.Holds.first {f : DirFile} {rest : List DirFile} (hshort : f.longName = none)
    (h : i.Holds vol c (directoryBytes (f :: rest))) {k : Nat} (hk : k < 32) :
    i.byteAt vol c k = f.entry.bytes k := by
  have hlength := f.entry.length_toBytes
  rw [directoryBytes_cons hshort] at h
  rw [h.2 k (by rw [List.length_append]; omega), List.getD_append _ _ _ _ (by omega)]
  unfold ShortEntry.toBytes recordSize
  simp [List.getD, hk]

/-- What follows it. -/
theorem TfInfo.Holds.rest {f : DirFile} {rest : List DirFile} (hshort : f.longName = none)
    (h : i.Holds vol c (directoryBytes (f :: rest))) {k : Nat}
    (hk : k < (directoryBytes rest).length) :
    i.byteAt vol c (32 + k) = (directoryBytes rest).getD k 0#8 := by
  have hlength := f.entry.length_toBytes
  rw [directoryBytes_cons hshort] at h
  rw [h.2 (32 + k) (by rw [List.length_append]; omega),
    List.getD_append_right _ _ _ _ (by omega), hlength, Nat.add_sub_cancel_left]

theorem length_directoryBytes_nil : (directoryBytes []).length = 32 := List.length_replicate

/-! ## Lookups -/

variable {name : Path} {len stop : Nat}

/-- Nothing is found in a directory that begins with its end. -/
theorem leads_tfFindFile_end (hi : i.Fat32) (hc : i.IsCluster c) (hdir : (files fp).Directory c)
    (hzero : i.byteAt vol c 0 = 0#8) (fuel : Nat) :
    (tfFindFile (fuel + 1) fp name).Leads (FsEvent.UpTo last) (Shows i vol files) (-1)
      (ReadsAt i vol files fp c 36) := by
  have hsize := hi.clusterSize_ge
  unfold tfFindFile
  refine (readsAt_begin hi hc hdir).bind ?_
  unfold findFileLoop
  refine (readsAt_tfCompareFilename_end hi hc (by omega) (hi.reach_of_le (by decide)) hzero).bind ?_
  exact Exec.leads_pure fun _ h => h

/-- The first record is found. -/
theorem leads_tfFindFile_found (hi : i.Fat32) (hc : i.IsCluster c) (hdir : (files fp).Directory c)
    {f : DirFile} {rest : List DirFile} (hshort : f.longName = none)
    (hfiles : i.Holds vol c (directoryBytes (f :: rest))) (hstop : name.StopsAt stop)
    (hfuel : stop < maxString) (hlast : name.off + stop ≤ last)
    (hmatch : name.matches f.entry.bytes stop = true) (fuel : Nat) :
    (tfFindFile (fuel + 1) fp name).Leads (FsEvent.UpTo last) (Shows i vol files) 0
      (ReadsAt i vol files fp c 0) := by
  have hsize := hi.clusterSize_ge
  have hfirst := @readsAt_tfCompareFilename_short i vol files fp c last 0 hi hc (by omega)
    (hi.reach_of_le (by decide)) f.entry
    (fun k hk => by rw [Nat.zero_add]; exact hfiles.first hshort (by omega)) name stop hstop hfuel
    hlast
  rw [hmatch] at hfirst
  unfold tfFindFile
  refine (readsAt_begin hi hc hdir).bind ?_
  unfold findFileLoop
  exact hfirst.bind (Exec.leads_pure fun _ h => h)

/-- The only record is not found. -/
theorem leads_tfFindFile_missed (hi : i.Fat32) (hc : i.IsCluster c)
    (hdir : (files fp).Directory c) {f : DirFile} (hshort : f.longName = none)
    (hfiles : i.Holds vol c (directoryBytes [f])) (hstop : name.StopsAt stop)
    (hfuel : stop < maxString) (hlast : name.off + stop ≤ last)
    (hmatch : name.matches f.entry.bytes stop = false) (fuel : Nat) :
    (tfFindFile (fuel + 2) fp name).Leads (FsEvent.UpTo last) (Shows i vol files) (-1)
      (ReadsAt i vol files fp c 72) := by
  have hsize := hi.clusterSize_ge
  have hfirst := @readsAt_tfCompareFilename_short i vol files fp c last 0 hi hc (by omega)
    (hi.reach_of_le (by decide)) f.entry
    (fun k hk => by rw [Nat.zero_add]; exact hfiles.first hshort (by omega)) name stop hstop hfuel
    hlast
  have hzero : i.byteAt vol c (0 + 36) = 0#8 := by
    have hrest := hfiles.rest (k := 4) hshort (by rw [length_directoryBytes_nil]; decide)
    rwa [getD_directoryBytes_nil] at hrest
  rw [hmatch] at hfirst
  unfold tfFindFile
  refine (readsAt_begin hi hc hdir).bind ?_
  unfold findFileLoop
  refine hfirst.bind ?_
  unfold findFileLoop
  refine (readsAt_tfCompareFilename_end hi hc (by omega) (hi.reach_of_le (by decide)) hzero).bind ?_
  exact Exec.leads_pure fun _ h => h

end

theorem returns_findFileLoop_more {s s' : Fs} {fuel : Nat} {rc : Int} (n : Nat)
    (h : (findFileLoop fp name fuel).Returns s rc s') :
    (findFileLoop fp name (fuel + n)).Returns s rc s' := by
  induction fuel generalizing s with
  | zero => cases h
  | succ fuel ih =>
    rw [Nat.succ_add]
    unfold findFileLoop at h ⊢
    obtain ⟨r, t, hcompare, hrest⟩ := Exec.returns_bind.mp h
    refine Exec.returns_bind.mpr ⟨r, t, hcompare, ?_⟩
    split
    · next hend => rwa [if_pos hend] at hrest
    · next hend =>
      rw [if_neg hend] at hrest
      split
      · next hfound => rwa [if_pos hfound] at hrest
      · next hfound =>
        rw [if_neg hfound] at hrest
        exact ih hrest

/-- More fuel gives the same result. -/
theorem returns_tfFindFile_more {s s' : Fs} {fuel : Nat} {rc : Int} (n : Nat)
    (h : (tfFindFile fuel fp name).Returns s rc s') :
    (tfFindFile (fuel + n) fp name).Returns s rc s' := by
  unfold tfFindFile at h ⊢
  obtain ⟨rc, t, hseek, hloop⟩ := Exec.returns_bind.mp h
  exact Exec.returns_bind.mpr ⟨rc, t, hseek, returns_findFileLoop_more n hloop⟩

/-- A lookup in a directory with one file returns only if the path has an end behind character
10, and finds the file or does not find it. -/
theorem returns_tfFindFile (hi : i.Fat32) (hc : i.IsCluster c) (hdir : (files fp).Directory c)
    {f : DirFile} (hshort : f.longName = none) (hfiles : i.Holds vol c (directoryBytes [f]))
    {s s' : Fs} {fuel : Nat} {rc : Int} (hs : Shows i vol files s)
    (h : (tfFindFile fuel fp name).Returns s rc s') : ∃ stop < maxString, name.StopsAt stop ∧
      if name.matches f.entry.bytes stop then rc = 0 ∧ ReadsAt i vol files fp c 0 s'
      else rc = -1 ∧ ReadsAt i vol files fp c 72 s' := by
  have hsize := hi.clusterSize_ge
  have hstops : ∃ stop < maxString, name.StopsAt stop := by
    unfold tfFindFile at h
    obtain ⟨s₁, hs₁, h⟩ := (@readsAt_begin i vol files fp c 0 hi hc hdir).returns_bind hs h
    cases fuel with
    | zero => cases h
    | succ fuel =>
      unfold findFileLoop at h
      obtain ⟨r, t, h, -⟩ := Exec.returns_bind.mp h
      obtain ⟨es, s₂, entry, -, hshort', -, -, hrun⟩ := @run_tfCompareFilename_short i vol files fp c
        0 0 hi hc (by omega) (hi.reach_of_le (by decide)) f.entry (fun k hk => by
          rw [Nat.zero_add, hfiles.first hshort (by omega)]) name s₁ hs₁
      unfold Exec.Returns at h
      rw [hrun _ rfl] at h
      obtain ⟨b, t', hsegment, -⟩ := Exec.returns_bind.mp h
      exact returns_tfCompareFilenameSegment hshort' hsegment
  obtain ⟨stop, hlt, hstop⟩ := hstops
  refine ⟨stop, hlt, hstop, ?_⟩
  have h := returns_tfFindFile_more 2 h
  cases hmatch : name.matches f.entry.bytes stop with
  | true =>
    obtain ⟨t, hreturns, ht⟩ := (@leads_tfFindFile_found i vol files fp c (name.off + stop) name
      stop hi hc hdir f [] hshort hfiles hstop hlt (Nat.le_refl _) hmatch (fuel + 1)).returns hs
    obtain ⟨rfl, rfl⟩ := h.unique hreturns
    exact ⟨rfl, ht⟩
  | false =>
    obtain ⟨t, hreturns, ht⟩ := (@leads_tfFindFile_missed i vol files fp c (name.off + stop) name
      stop hi hc hdir f hshort hfiles hstop hlt (Nat.le_refl _) hmatch fuel).returns hs
    obtain ⟨rfl, rfl⟩ := h.unique hreturns
    exact ⟨rfl, ht⟩

/-! ## Exact lookups -/

/-- What a lookup should do that returned `rc`. -/
structure FindsExactly (files : List DirFile) (name : Path) (len : Nat) (fp : Handle)
    (log : List FsEvent) (rc : Int) (s' : Fs) : Prop where
  found : rc = 0 ↔ ∃ f ∈ files, f.Named (name.component len)
  /-- The handle is at the record of the first such file. -/
  position : ∀ before f after, files = before ++ f :: after → f.Named (name.component len) →
    (∀ g ∈ before, ¬ g.Named (name.component len)) →
    (s'.handles fp).pos.toNat = entryOffset before f
  /-- Nothing behind the end of the name is read. -/
  text : ∀ e ∈ log, e.UpTo (name.off + len)

/-- A lookup returns, and does what it should. -/
def LookedUp (files : List DirFile) (name : Path) (len : Nat) (fp : Handle) (fuel : Nat) (s : Fs) :
    Prop :=
  ∃ log rc s', (tfFindFile fuel fp name).Runs s log rc s' ∧
    FindsExactly files name len fp log rc s'

/-- If there is a file, the first one has no long name and no spaces in its short name, the path
goes on for at least 11 characters, and the component either has as many and is the name of this
file, or is neither this name nor its first 11 characters and there is no other file. -/
def Legible (files : List DirFile) (component : List Byte) (len : Nat) : Prop :=
  ∀ f ∈ files.head?, f.longName = none ∧ f.entry.Solid ∧ 11 ≤ len ∧
    (11 ≤ component.length ∧ SameName component f.entry.shortName ∨
      files = [f] ∧ ¬ SameName component f.entry.shortName ∧
        ¬ SameName component (f.entry.shortName.take 11))

section
variable {s s' : Fs} {fp : Handle} {c : BitVec 32} {files rest : List DirFile} {f : DirFile}
  {name : Path} {len stop fuel : Nat} {log : List FsEvent} {rc : Int}

theorem named_iff (hshort : f.longName = none) {component : List Byte} :
    f.Named component ↔ SameName component f.entry.shortName := by
  unfold DirFile.Named
  rw [hshort]
  simp

theorem Path.matches_iff (hname : name.Ends len) (hlen : 11 ≤ len) (hstop : name.StopsAt stop)
    (hsolid : f.entry.Solid) : name.matches f.entry.bytes stop = true ↔
      11 ≤ (name.component len).length ∧ (SameName (name.component len) f.entry.shortName ∨
        SameName (name.component len) (f.entry.shortName.take 11)) :=
  caseEqual_solid_iff hname hlen hstop hsolid

/-- Where no file has the name, only the result and the characters that were read count. -/
theorem FindsExactly.of_none (hnone : ∀ f ∈ files, ¬ f.Named (name.component len)) (hrc : rc ≠ 0)
    (hlog : ∀ e ∈ log, e.UpTo (name.off + len)) : FindsExactly files name len fp log rc s' := by
  refine ⟨iff_of_false hrc fun ⟨f, hmem, hf⟩ => hnone f hmem hf, ?_, hlog⟩
  rintro before f after rfl hf -
  exact absurd hf (hnone f (List.mem_append_right _ List.mem_cons_self))

/-- Where the first file has the name. -/
theorem FindsExactly.of_first (hshort : f.longName = none) (hf : f.Named (name.component len))
    (hpos : (s'.handles fp).pos.toNat = 0) (hlog : ∀ e ∈ log, e.UpTo (name.off + len)) :
    FindsExactly (f :: rest) name len fp log 0 s' := by
  refine ⟨iff_of_true rfl ⟨f, List.mem_cons_self, hf⟩, ?_, hlog⟩
  intro before g after hsplit _ hbefore
  cases before with
  | nil =>
    rw [List.nil_append, List.cons.injEq] at hsplit
    unfold entryOffset DirFile.longBytes
    rw [hpos, ← hsplit.1, hshort]
    rfl
  | cons b before =>
    rw [List.cons_append, List.cons.injEq] at hsplit
    exact absurd hf (hsplit.1 ▸ hbefore b List.mem_cons_self)

/-- A lookup is exact in a directory that is legible for it. -/
theorem Legible.lookedUp (hs : s.Mounted) (hc : s.info.IsCluster c)
    (hdir : (s.handles fp).Directory c)
    (hfiles : s.info.Holds s.volume c (directoryBytes files)) (hname : name.Ends len)
    (hlen : len < maxString) (hfuel : 2 ≤ fuel) (h : Legible files (name.component len) len) :
    LookedUp files name len fp fuel s := by
  have hi := hs.fat32
  obtain ⟨fuel, rfl⟩ := Nat.exists_eq_add_of_le' hfuel
  cases files with
  | nil =>
    have hzero : s.info.byteAt s.volume c 0 = 0#8 := by
      rw [hfiles.2 0 (by rw [length_directoryBytes_nil]; decide), getD_directoryBytes_nil]
    obtain ⟨log, s', hrun, -, hlog⟩ := @leads_tfFindFile_end _ _ _ _ _ (name.off + len) name hi hc
      hdir hzero (fuel + 1) s hs.shows
    exact ⟨log, -1, s', hrun, .of_none nofun (by simp) hlog⟩
  | cons f rest =>
    obtain ⟨hshort, hsolid, hlong, hcase⟩ := h f rfl
    obtain ⟨stop, hle, hstop⟩ := hname.exists_stopsAt hlong
    have hmatches := @Path.matches_iff f name len stop hname hlong hstop hsolid
    rcases hcase with ⟨hm, hsame⟩ | ⟨honly, hne, hne'⟩
    · obtain ⟨log, s', hrun, ⟨g, hg, -, hs'⟩, hlog⟩ := @leads_tfFindFile_found _ _ _ fp c
        (name.off + len) name stop hi hc hdir f rest hshort hfiles hstop (by omega) (by omega)
        (hmatches.mpr ⟨hm, Or.inl hsame⟩) (fuel + 1) s hs.shows
      refine ⟨log, 0, s', hrun, .of_first hshort ((named_iff hshort).mpr hsame) ?_ hlog⟩
      rw [hs'.handles, WriteBack.set_self, hg.stands.pos, Nat.zero_mod]
    · rw [List.cons.injEq] at honly
      obtain rfl := honly.2
      have hmissed : name.matches f.entry.bytes stop = false := by
        rw [Bool.eq_false_iff]
        intro hmatch
        exact (hmatches.mp hmatch).2.elim hne hne'
      obtain ⟨log, s', hrun, -, hlog⟩ := @leads_tfFindFile_missed _ _ _ fp c (name.off + len) name
        stop hi hc hdir f hshort hfiles hstop (by omega) (by omega) hmissed fuel s hs.shows
      refine ⟨log, -1, s', hrun, .of_none ?_ (by simp) hlog⟩
      intro g hmem
      rw [List.mem_singleton.mp hmem, named_iff hshort]
      exact hne

/-- Character 11 of the path is read whatever its length. -/
theorem emits_tfFindFile (hs : s.Mounted) (hc : s.info.IsCluster c)
    (hdir : (s.handles fp).Directory c) (hshort : f.longName = none)
    (hfiles : s.info.Holds s.volume c (directoryBytes (f :: rest))) {P : FsEvent → Prop}
    (h : (tfFindFile (fuel + 1) fp name).Emits P s) : P (.char (name.off + 11)) := by
  have hi := hs.fat32
  have hsize := hi.clusterSize_ge
  unfold tfFindFile at h
  obtain ⟨s₁, hs₁, h⟩ := (@readsAt_begin _ _ _ fp c 0 hi hc hdir).emits_bind hs.shows h
  unfold findFileLoop at h
  have h := (Exec.emits_bind.mp h).1
  obtain ⟨es, s₂, entry, -, hshort', -, -, hrun⟩ := @run_tfCompareFilename_short s.info s.volume
    s.handles fp c 0 0 hi hc (by omega) (hi.reach_of_le (by decide)) f.entry (fun k hk => by
      rw [Nat.zero_add, hfiles.first hshort (by omega)]) name s₁ hs₁
  have h := h.all
  rw [hrun _ rfl] at h
  have h := (Exec.emits_bind.mp ⟨fun e he => h e (List.mem_append_right _ he)⟩).1
  have hindex : entry.lastIndex = 11 := if_pos hshort'
  rw [← hindex]
  exact emits_tfCompareFilenameSegment h

/-- A directory with one file is legible for every lookup that is exact. -/
theorem LookedUp.legible (hs : s.Mounted) (hc : s.info.IsCluster c)
    (hdir : (s.handles fp).Directory c)
    (hfiles : s.info.Holds s.volume c (directoryBytes [f])) (hname : name.Ends len)
    (hlen : len < maxString) (hfuel : 2 ≤ fuel) (hshort : f.longName = none)
    (hsolid : f.entry.Solid) (h : LookedUp [f] name len fp fuel s) :
    Legible [f] (name.component len) len := by
  have hi := hs.fat32
  obtain ⟨fuel, rfl⟩ := Nat.exists_eq_add_of_le' hfuel
  obtain ⟨log, rc, s', hrun, hexact⟩ := h
  have hlong : 11 ≤ len := by
    have hchar := @emits_tfFindFile s fp c [] f name (fuel + 1) hs hc hdir hshort hfiles
      (FsEvent.UpTo (name.off + len)) ⟨by rw [hrun]; exact hexact.text⟩
    unfold FsEvent.UpTo at hchar
    omega
  obtain ⟨stop, hle, hstop⟩ := hname.exists_stopsAt hlong
  have hmatches := @Path.matches_iff f name len stop hname hlong hstop hsolid
  have hnamed : (∃ g ∈ [f], g.Named (name.component len)) ↔
      SameName (name.component len) f.entry.shortName := by
    rw [← named_iff hshort]
    simp
  have hfound := hexact.found.trans hnamed
  rintro g hg
  cases hg
  refine ⟨hshort, hsolid, hlong, ?_⟩
  cases hmatch : name.matches f.entry.bytes stop with
  | true =>
    obtain ⟨t, hreturns, -⟩ := (@leads_tfFindFile_found _ _ _ fp c (name.off + len) name stop hi hc
      hdir f [] hshort hfiles hstop (by omega) (by omega) hmatch (fuel + 1)).returns hs.shows
    exact Or.inl ⟨(hmatches.mp hmatch).1, hfound.mp (hrun.returns.unique hreturns).1⟩
  | false =>
    obtain ⟨t, hreturns, -⟩ := (@leads_tfFindFile_missed _ _ _ fp c (name.off + len) name stop hi hc
      hdir f hshort hfiles hstop (by omega) (by omega) hmatch fuel).returns hs.shows
    have hrc := (hrun.returns.unique hreturns).1
    have hne : ¬ SameName (name.component len) f.entry.shortName := by
      rw [← hfound, hrc]
      decide
    refine Or.inr ⟨rfl, hne, fun hsame => ?_⟩
    have hlength := (sameName_iff.mp hsame).1
    rw [List.length_take] at hlength
    by_cases hm : 11 ≤ (name.component len).length
    · exact absurd (hmatches.mpr ⟨hm, Or.inr hsame⟩) (Bool.eq_false_iff.mp hmatch)
    · rw [List.take_of_length_le (by omega)] at hsame
      exact hne hsame

/-- A lookup is exact in a directory that is legible for it; a directory with nothing but one file
with a short name has to be. -/
theorem tfFindFile_exact (hs : s.Mounted) (hc : s.info.IsCluster c)
    (hdir : (s.handles fp).Directory c)
    (hfiles : s.info.Holds s.volume c (directoryBytes files)) (hname : name.Ends len)
    (hlen : len < maxString) (hfuel : 2 ≤ fuel) :
    (Legible files (name.component len) len → LookedUp files name len fp fuel s) ∧
    ∀ f, files = [f] → f.longName = none → f.entry.Solid →
      (LookedUp files name len fp fuel s ↔ Legible files (name.component len) len) := by
  have hlooked := @Legible.lookedUp s fp c files name len fuel hs hc hdir hfiles hname hlen hfuel
  refine ⟨hlooked, ?_⟩
  rintro f rfl hshort hsolid
  exact ⟨LookedUp.legible hs hc hdir hfiles hname hlen hfuel hshort hsolid, hlooked⟩

end

/-- A volume with clusters of one sector, and handles of a directory in the cluster 2. -/
def Fs.ofDirectory (files : List DirFile) : Fs :=
  { Fs.blank with
    disk := WriteBack.set Fs.blank.disk 1056#32 fun k => (directoryBytes files).getD k 0#8
    handles := fun fp => { Fs.blank.handles fp with
      startCluster := 2#32, currentCluster := 2#32, size := 0xffffffff#32 } }

theorem clean_ofDirectory (files : List DirFile) : (Fs.ofDirectory files).dirty = false := by
  have hclean : Fs.blank.dirty = false := by decide
  exact hclean

theorem mounted_ofDirectory (files : List DirFile) : (Fs.ofDirectory files).Mounted := by
  have hclean := clean_ofDirectory files
  have hfront : ¬ Fs.blank.info.IsData Fs.blank.info.currentSector := by decide
  exact ⟨fun _ => rfl, mounted_twoClusters.fat32,
    fun hdirty => absurd (hclean.symm.trans hdirty) Bool.false_ne_true,
    fun _ hdata => absurd hdata hfront⟩

theorem holds_ofDirectory {files : List DirFile} (hlen : (directoryBytes files).length ≤ 512) :
    (Fs.ofDirectory files).info.Holds (Fs.ofDirectory files).volume 2#32 (directoryBytes files) := by
  have hsize : Fs.blank.info.clusterSize = 512 := by decide
  refine ⟨Nat.le_trans hlen (Nat.le_of_eq hsize.symm), fun k hk => ?_⟩
  have hsector : (Fs.ofDirectory files).info.sectorAt 2#32 k = 1056#32 := by
    have hfirst : Fs.blank.info.sectorAt 2#32 0 = 1056#32 := by decide
    have hblock : k / 512 = 0 / 512 := by omega
    rw [← hfirst]
    unfold TfInfo.sectorAt
    rw [hblock]
    rfl
  have hvolume : (Fs.ofDirectory files).volume = (Fs.ofDirectory files).disk :=
    if_neg (Bool.eq_false_iff.mp (clean_ofDirectory files))
  have hdisk : (Fs.ofDirectory files).disk 1056#32 = fun k => (directoryBytes files).getD k 0#8 := by
    unfold Fs.ofDirectory
    dsimp only
    rw [WriteBack.set_self]
  unfold TfInfo.byteAt
  rw [hsector, Nat.mod_eq_of_lt (by omega), hvolume, hdisk]

/-- The directory `BOOT`. -/
def bootEntry : ShortEntry where
  bytes := fun k => [0x42#8, 0x4f#8, 0x4f#8, 0x54#8, 0x20#8, 0x20#8, 0x20#8, 0x20#8, 0x20#8, 0x20#8,
    0x20#8, 0x10#8].getD k 0#8
  attributes := by decide
  used := by decide
  name := by decide

/-- The file `INITRD00.IMG`. -/
def initrdEntry : ShortEntry where
  bytes := fun k => [0x49#8, 0x4e#8, 0x49#8, 0x54#8, 0x52#8, 0x44#8, 0x30#8, 0x30#8, 0x49#8, 0x4d#8,
    0x47#8, 0x20#8].getD k 0#8
  attributes := by decide
  used := by decide
  name := by decide

/-- `boot/initrd00.img`. -/
def initrdPath : Path where
  bytes := fun k => [0x62#8, 0x6f#8, 0x6f#8, 0x74#8, 0x2f#8, 0x69#8, 0x6e#8, 0x69#8, 0x74#8, 0x72#8,
    0x64#8, 0x30#8, 0x30#8, 0x2e#8, 0x69#8, 0x6d#8, 0x67#8].getD k 0#8
  off := 0

/-- The file is found in a directory of its own. -/
theorem tfFindFile_initrd :
    LookedUp [⟨none, initrdEntry⟩] (initrdPath.skip 5) 12 firstHandle 2
      (Fs.ofDirectory [⟨none, initrdEntry⟩]) := by
  have hlegible : Legible [⟨none, initrdEntry⟩] ((initrdPath.skip 5).component 12) 12 := by
    rintro f hf
    cases hf
    exact ⟨rfl, by decide, by decide, Or.inl (by decide)⟩
  exact (tfFindFile_exact (mounted_ofDirectory _) (by decide) ⟨rfl, rfl, rfl⟩
    (holds_ofDirectory (by decide)) (by decide) (by decide) (by decide)).1 hlegible

/-- The directory is not found on the way to the file: its name is too short. -/
theorem tfFindFile_misses_boot :
    (Fs.ofDirectory [⟨none, bootEntry⟩]).Mounted ∧
    (Fs.ofDirectory [⟨none, bootEntry⟩]).info.Holds (Fs.ofDirectory [⟨none, bootEntry⟩]).volume 2#32
      (directoryBytes [⟨none, bootEntry⟩]) ∧
    initrdPath.Ends 17 ∧
    DirFile.Named ⟨none, bootEntry⟩ (initrdPath.component 17) ∧
    ¬ LookedUp [⟨none, bootEntry⟩] initrdPath 17 firstHandle 2
      (Fs.ofDirectory [⟨none, bootEntry⟩]) := by
  have hholds : (Fs.ofDirectory [⟨none, bootEntry⟩]).info.Holds
      (Fs.ofDirectory [⟨none, bootEntry⟩]).volume 2#32 (directoryBytes [⟨none, bootEntry⟩]) :=
    holds_ofDirectory (by decide)
  refine ⟨mounted_ofDirectory _, hholds, by decide, Or.inl (by decide), fun h => ?_⟩
  obtain ⟨-, -, -, hlong | hother⟩ := h.legible (mounted_ofDirectory _) (by decide) ⟨rfl, rfl, rfl⟩
    hholds (by decide) (by decide) (by decide) rfl (by decide) _ rfl
  · exact absurd hlong.1 (by decide)
  · exact hother.2.1 (by decide)

end Mavmm.Hostfs
