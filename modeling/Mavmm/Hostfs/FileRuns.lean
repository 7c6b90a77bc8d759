import Mavmm.Hostfs.SizeUpdate

/-!
# Working with an open file

A program reads, writes, seeks and flushes through a handle that it has opened
with a path.  Whatever it does, the handle stays one of the file: at a position
within it, and with the size that the next flush records.
-/

namespace Mavmm.Hostfs

/-! ## Files and what is done with them -/

/-- A path with its last separator, and the record of its file in the directory. -/
structure Location where
  path : Path
  len : Nat
  separator : Nat
  directory : BitVec 32
  record : Nat

/-- The path leads to the record. -/
def Location.Located (l : Location) (i : TfInfo) (vol : Disk) : Prop :=
  i.Locates vol l.path l.len l.separator l.directory l.record

/-- So does its directory, where a flush looks for the record. -/
def Location.Resolved (l : Location) (i : TfInfo) (vol : Disk) : Prop :=
  i.Resolves vol l.path l.len l.separator l.directory l.record

/-- The record of the file. -/
def Location.entry (l : Location) (i : TfInfo) (vol : Disk) : FatFileEntry :=
  i.recordAt vol l.directory l.record

inductive HandleOp where
  | read (len : Nat)
  | write (src : List Byte)
  | seek (q : Seek) (base : BitVec 32) (offset : Int)
  | flush (fuel : Nat)

/-- A call that returns takes the driver from one state to the next. -/
def HandleOp.Step (fp : Handle) (s : Fs) (op : HandleOp) (s' : Fs) : Prop :=
  match op with
  | read len => ∃ r, (tfFread fp len).Returns s r s'
  | write src => ∃ rc, (tfFwrite fp src).Returns s rc s'
  | seek q base offset => ∃ rc, (q.exec fp base offset).Returns s rc s'
  | flush fuel => ∃ rc, (tfFflush fuel fp).Returns s rc s'

/-- What a call needs: the driver comes to the bytes that are transferred, sizes of files have 32
bits, and a string is written in front of the end that the handle has; seeks are within the file;
where a flush has to bring the size up to date, the path still leads to the record. -/
def HandleOp.Allowed (i : TfInfo) (l : Location) (fp : Handle) (s : Fs) : HandleOp → Prop
  | read len => i.Reach (s.handles fp).startCluster (s.handles fp).pos.toNat
      (readLength (s.handles fp).size.toNat (s.handles fp).pos.toNat len)
  | write src => (s.handles fp).pos.toNat + src.length < 2 ^ 32 - 1 ∧
      i.Reach (s.handles fp).startCluster (s.handles fp).pos.toNat src.length ∧
      (src = [] ∨ (s.handles fp).pos.toNat < (s.handles fp).size.toNat)
  | seek _ base offset => ∃ p : Nat, base.toInt + offset = p ∧
      p ≤ (s.handles fp).recordedSize ∧ p < 2 ^ 32 - 1
  | flush _ => flagged (s.handles fp).flags tfFlagDirty = true →
      flagged (s.handles fp).flags tfFlagSizechanged = true → l.Resolved i s.volume

/-- The highest position that has been written, after the call. -/
def HandleOp.highest (fp : Handle) (s : Fs) (high : Nat) : HandleOp → Nat
  | write src => if src = [] then high else max high ((s.handles fp).pos.toNat + src.length)
  | _ => high

/-- A call on the handle; the second part is the highest position that has been written. -/
def UseStep (i : TfInfo) (l : Location) (fp : Handle) (x : Fs × Nat) (op : HandleOp)
    (y : Fs × Nat) : Prop :=
  op.Allowed i l fp x.1 ∧ op.Step fp x.1 y.1 ∧ y.2 = op.highest fp x.1 x.2

/-- The handle is open for the file of the path that begins with the cluster `c`. -/
structure OpenFile (i : TfInfo) (l : Location) (c : BitVec 32) (fp : Handle) (s : Fs) : Prop where
  shows : Shows i s.volume s.handles s
  handle : (s.handles fp).At i.clusterSize c (s.handles fp).pos.toNat
  isOpen : flagged (s.handles fp).flags tfFlagOpen = true
  isFile : flagged (s.handles fp).attributes tfAttrDirectory = false
  filename : ∀ k ≤ l.len, (s.handles fp).filename k = l.path.get k

section
variable {i : TfInfo} {vol vol' : Disk} {files : Handle → TfFile} {fp : Handle} {c : BitVec 32}
  {l : Location} {s s' : Fs} {t : Nat}

theorem Shows.self (h : Shows i vol files s) : Shows i s.volume s.handles s := by
  rw [h.volume, h.handles]
  exact h

/-- A step that uses the handle only. -/
theorem OpenFile.next {f : TfFile} (h : OpenFile i l c fp s)
    (hs' : Shows i vol' (WriteBack.set s.handles fp f) s') (hf : f.At i.clusterSize c t)
    (hsame : (s.handles fp).SameFile f) : OpenFile i l c fp s' := by
  have hhandle : s'.handles fp = f := by rw [hs'.handles, WriteBack.set_self]
  refine ⟨hs'.self, ?_, ?_, ?_, ?_⟩
  · rw [hhandle, hf.pos]
    exact hf
  · rw [hhandle, hsame.isOpen]
    exact h.isOpen
  · rw [hhandle, hsame.attributes]
    exact h.isFile
  · rw [hhandle, hsame.filename]
    exact h.filename

/-- What a call of `tf_fread` does. -/
theorem OpenFile.read {len : Nat} {r : List Byte × BitVec 32} (hi : i.Fat32) (hc : i.IsCluster c)
    (h : OpenFile i l c fp s) (hallowed : (HandleOp.read len).Allowed i l fp s) (hread : (tfFread fp len).Returns s r s') :
    OpenFile i l c fp s' ∧ s'.volume = s.volume ∧ FreadEnds i s.volume (s.handles fp) c
      (s.handles fp).pos.toNat len r (s'.handles fp) := by
  obtain ⟨r', f', hdoes, hends⟩ := @does_tfFread_ends i s.volume fp c 0 hi hc len _ _ h.handle
    (h.handle.startCluster ▸ hallowed)
  obtain ⟨rfl, hs'⟩ := does_returns hdoes h.shows hread
  refine ⟨h.next hs' hends.handle hends.sameFile, hs'.volume, ?_⟩
  rw [hs'.handles, WriteBack.set_self]
  exact hends

theorem OpenFile.write {src : List Byte} {rc : BitVec 32} (hi : i.Fat32) (hc : i.IsCluster c)
    (h : OpenFile i l c fp s) (hallowed : (HandleOp.write src).Allowed i l fp s)
    (hwrite : (tfFwrite fp src).Returns s rc s') :
    OpenFile i l c fp s' ∧ FwriteEnds i s.volume (s.handles fp) c (s.handles fp).pos.toNat
      src.length rc s'.volume (s'.handles fp) ∧
      flagged (s'.handles fp).flags tfFlagDirty = true := by
  obtain ⟨rc', vol', f', hdoes, hends, hdirty⟩ := @does_tfFwrite_ends i s.volume s.handles fp c 0 _
    hi hc src h.handle hallowed.1 (h.handle.startCluster ▸ hallowed.2.1)
  obtain ⟨rfl, hs'⟩ := does_returns hdoes h.shows hwrite
  refine ⟨h.next hs' hends.handle hends.sameFile, ?_⟩
  rw [hs'.handles, WriteBack.set_self, hs'.volume]
  exact ⟨hends, hdirty⟩

theorem OpenFile.seek {q : Seek} {base : BitVec 32} {offset : Int} {p : Nat} {rc : BitVec 32}
    (hi : i.Fat32) (hc : i.IsCluster c) (h : OpenFile i l c fp s) (hsum : base.toInt + offset = p)
    (hle : p ≤ (s.handles fp).recordedSize) (hp : p < 2 ^ 32 - 1)
    (hseek : (q.exec fp base offset).Returns s rc s') :
    OpenFile i l c fp s' ∧ s'.volume = s.volume ∧
      (s'.handles fp).recordedSize = (s.handles fp).recordedSize ∧
      (s.handles fp).SameFile (s'.handles fp) := by
  obtain ⟨rc', f', t', hdoes, hf', hsize, hsame⟩ := @does_seek_ends i s.volume s.handles fp c 0 _ hi
    hc q base offset p h.handle hsum hle hp
  obtain ⟨rfl, hs'⟩ := does_returns hdoes h.shows hseek
  refine ⟨h.next hs' hf' hsame, hs'.volume, ?_⟩
  rw [hs'.handles, WriteBack.set_self]
  exact ⟨hsize, hsame⟩

/-- The other flags of a handle that is flushed. -/
theorem TfFile.flagged_cleaned {f : TfFile} {bits : BitVec 8} (h : ~~~tfFlagDirty &&& bits = bits) :
    flagged f.flags bits = flagged f.cleaned.flags bits := by
  unfold flagged TfFile.cleaned
  rw [BitVec.and_assoc, h]

theorem TfFile.At.cleaned {f : TfFile} {clusterSize : Nat} (h : f.At clusterSize c t) :
    f.cleaned.At clusterSize c t := by
  refine ⟨h.startCluster, h.currentCluster, h.pos, h.currentByte, fun hflag => h.marked ?_, h.within⟩
  exact (TfFile.flagged_cleaned (by decide)).trans hflag

theorem OpenFile.flush {fuel : Nat} {rc : BitVec 32} (hi : i.Fat32) (h : OpenFile i l c fp s)
    (hpath : flagged (s.handles fp).flags tfFlagDirty = true →
      flagged (s.handles fp).flags tfFlagSizechanged = true → l.Resolved i s.volume)
    (hflush : (tfFflush fuel fp).Returns s rc s') :
    OpenFile i l c fp s' ∧
      Flushed i s.volume s.handles fp l.directory l.record s'.volume s'.handles := by
  obtain ⟨-, vol', files', hs', hflushed⟩ := returns_tfFflush_file hi hpath h.isOpen h.isFile
    h.filename h.shows hflush
  have hhandle := hflushed.handle
  rw [← hs'.volume, ← hs'.handles] at hflushed
  rw [← hs'.handles] at hhandle
  refine ⟨⟨hs'.self, ?_, ?_, ?_, ?_⟩, hflushed⟩
  · rw [hhandle]
    exact h.handle.cleaned
  · rw [hhandle]
    exact (TfFile.flagged_cleaned (by decide)).symm.trans h.isOpen
  · rw [hhandle]
    exact h.isFile
  · rw [hhandle]
    exact h.filename

/-! ## Opening -/

/-- The file of a record is a regular one. -/
def FatFileEntry.Regular (e : FatFileEntry) : Prop :=
  flagged e.msdosAttributes tfAttrDirectory = false

instance (e : FatFileEntry) : Decidable e.Regular := inferInstanceAs (Decidable (_ = _))

variable {e : FatFileEntry} {mode : String}

theorem TfFile.AtRecord.at_begin {f : TfFile} {clusterSize : Nat} (h : f.AtRecord e) :
    f.At clusterSize e.startCluster 0 := by
  refine ⟨h.startCluster, h.currentCluster, ?_, ?_, ?_, ?_⟩
  · rw [h.pos]
    rfl
  · rw [h.currentByte, Nat.zero_mod]
  · rw [h.flags]
    exact fun hflag => absurd hflag (by decide)
  · rcases Nat.eq_zero_or_pos f.size.toNat with hzero | hpos
    · exact Or.inr ⟨rfl, hzero⟩
    · exact Or.inl hpos

/-- What is known of a handle that was just opened. -/
structure TfFile.Fresh (f : TfFile) (clusterSize : Nat) (e : FatFileEntry) (mode : String) : Prop where
  handle : ∃ t, f.At clusterSize e.startCluster t
  recordedSize : f.recordedSize = e.msdosFileSize.toNat
  isOpen : flagged f.flags tfFlagOpen = true
  attributes : f.attributes = e.msdosAttributes
  unchanged : strchr mode 'a' = false → flagged f.flags tfFlagSizechanged = false
  clean : flagged f.flags tfFlagDirty = false

theorem TfFile.Opened.fresh {f : TfFile} (hfile : e.Regular)
    (happend : strchr mode 'a' = true → e.msdosFileSize.toNat < 2 ^ 31) {path : Path} {len : Nat}
    (h : f.Opened i.clusterSize e mode path len) : f.Fresh i.clusterSize e mode := by
  obtain ⟨g, hg, m, name, rfl⟩ := h.handle
  have hbegin := @TfFile.AtRecord.at_begin e g i.clusterSize hg
  have hsize : g.size = e.msdosFileSize := by
    rw [hg.size, if_neg (Bool.eq_false_iff.mp hfile)]
  have hunchanged : flagged g.flags tfFlagSizechanged = false := by
    rw [hg.flags]
    decide
  have hrecorded : g.recordedSize = e.msdosFileSize.toNat := by
    rw [TfFile.recordedSize, hunchanged, if_neg Bool.false_ne_true, hsize]
  have hopen : flagged g.flags tfFlagOpen = true := by
    rw [hg.flags]
    decide
  have hclean : flagged g.flags tfFlagDirty = false := by
    rw [hg.flags]
    decide
  cases ha : strchr mode 'a' with
  | false =>
    have hsame : g.appended i.clusterSize mode = g := if_neg (Bool.eq_false_iff.mp ha)
    rw [hsame]
    exact ⟨⟨0, hbegin.startCluster, hbegin.currentCluster, hbegin.pos, hbegin.currentByte,
      hbegin.marked, hbegin.within⟩, hrecorded, hopen, hg.attributes, fun _ => hunchanged, hclean⟩
  | true =>
    have hlt := happend ha
    have hsame : g.appended i.clusterSize mode = g.sought i.clusterSize g.size.toNat := if_pos ha
    rw [hsame]
    rw [← hsize] at hlt
    have hsought := hbegin.sought (Nat.le_refl g.size.toNat) (by omega)
    have hkept := @TfFile.sameFile_sought g i.clusterSize g.size.toNat
    have hgrown := @TfFile.recordedSize_sought g i.clusterSize g.size.toNat (Nat.le_refl _) (by omega)
    rw [hrecorded, hsize, Nat.max_self] at hgrown
    refine ⟨⟨g.size.toNat, hsought.startCluster, hsought.currentCluster, hsought.pos,
      hsought.currentByte, hsought.marked, hsought.within⟩, ?_, ?_, ?_, ?_, ?_⟩
    · rw [← hgrown, hsize]
      rfl
    · exact hkept.isOpen.trans hopen
    · exact hkept.attributes.trans hg.attributes
    · exact fun h => absurd (h.symm.trans ha) Bool.false_ne_true
    · have hflags := @TfFile.flags_sought g i.clusterSize g.size.toNat
      rw [if_pos rfl] at hflags
      have hdirty : flagged (g.flags ||| tfFlagSizechanged) tfFlagDirty = false := by
        rw [flagged_or (by decide)]
        exact hclean
      rw [← hflags] at hdirty
      exact hdirty

/-- A path that leads to a regular file is opened. -/
theorem returns_tfFopen_open {fuel : Nat} {r : Option Handle} (hi : i.Fat32)
    (hpath : l.Located i vol) (hfile : (l.entry i vol).Regular)
    (hc : i.IsCluster (l.entry i vol).startCluster)
    (happend : strchr mode 'a' = true → (l.entry i vol).msdosFileSize.toNat < 2 ^ 31)
    (hs : Shows i vol files s) (h : (tfFopen fuel l.path mode).Returns s r s') :
    ∃ fp, r = some fp ∧ s'.volume = vol ∧ SameOpen files s'.handles ∧
      OpenFile i l (l.entry i vol).startCluster fp s' ∧
      (s'.handles fp).Fresh i.clusterSize (l.entry i vol) mode := by
  obtain ⟨fp, files', f, rfl, hsame, hs', hopened⟩ := returns_tfFopen_file hi hpath
    (fun ha => ⟨hc, hfile, happend ha⟩) hs h
  have hfresh := hopened.fresh hfile happend
  have hhandle : s'.handles fp = f := by rw [hs'.handles, WriteBack.set_self]
  obtain ⟨t, hat⟩ := hfresh.handle
  refine ⟨fp, rfl, hs'.volume, by rw [hs'.handles]; exact hsame, ⟨hs'.self, ?_, ?_, ?_, ?_⟩, ?_⟩
  · rw [hhandle, hat.pos]
    exact hat
  · rw [hhandle]
    exact hfresh.isOpen
  · rw [hhandle, hfresh.attributes]
    exact hfile
  · rw [hhandle]
    exact hopened.filename
  · rw [hhandle]
    exact hfresh

/-! ## Runs -/

/-- The handle is one of the file, and has its size: `size` when it was opened, and as far as it has
been written since. -/
structure Used (i : TfInfo) (l : Location) (c : BitVec 32) (fp : Handle) (size : Nat)
    (x : Fs × Nat) : Prop where
  file : OpenFile i l c fp x.1
  recordedSize : (x.1.handles fp).recordedSize = max size x.2

theorem recordedSize_cleaned {f : TfFile} : f.cleaned.recordedSize = f.recordedSize := by
  unfold TfFile.recordedSize
  rw [← TfFile.flagged_cleaned (by decide)]
  rfl

theorem Used.step {size : Nat} {x y : Fs × Nat} {op : HandleOp} (hi : i.Fat32) (hc : i.IsCluster c)
    (h : Used i l c fp size x) (hstep : UseStep i l fp x op y) : Used i l c fp size y := by
  obtain ⟨x, high⟩ := x
  obtain ⟨y, high'⟩ := y
  obtain ⟨hallowed, hstep, rfl⟩ := hstep
  obtain ⟨hfile, hsize⟩ := h
  dsimp only at *
  cases op with
  | read len =>
    obtain ⟨r, hread⟩ := hstep
    obtain ⟨hfile', -, hends⟩ := hfile.read hi hc hallowed hread
    refine ⟨hfile', Eq.trans ?_ hsize⟩
    unfold TfFile.recordedSize
    rw [hends.flags, hends.size]
  | write src =>
    obtain ⟨rc, hwrite⟩ := hstep
    obtain ⟨hfile', hends, -⟩ := hfile.write hi hc hallowed hwrite
    refine ⟨hfile', ?_⟩
    have hle := hfile.handle.le_recordedSize
    have hwritten := hends.recordedSize
    change _ = max size (if src = [] then high else max high _)
    rcases hallowed.2.2 with rfl | hlt
    · rw [List.length_nil, Nat.add_zero, Nat.max_eq_left hle, ite_self] at hwritten
      rw [if_pos rfl]
      exact hwritten.trans hsize
    · rw [if_pos hlt, hsize] at hwritten
      rw [hwritten]
      split
      · next hnil =>
        rw [hnil, List.length_nil]
        omega
      · omega
  | seek q base offset =>
    obtain ⟨p, hsum, hle, hp⟩ := hallowed
    obtain ⟨rc, hseek⟩ := hstep
    obtain ⟨hfile', -, hsize', -⟩ := hfile.seek hi hc hsum hle hp hseek
    exact ⟨hfile', hsize'.trans hsize⟩
  | flush fuel =>
    obtain ⟨rc, hflush⟩ := hstep
    obtain ⟨hfile', hflushed⟩ := hfile.flush hi hallowed hflush
    refine ⟨hfile', Eq.trans ?_ hsize⟩
    rw [hflushed.handle, recordedSize_cleaned]

end

end Mavmm.Hostfs
