import Mavmm.Hostfs.EndOfFile

/-!
# The recorded size of a file

A handle that was written to has the size to record, and a flush writes it to
the directory.  What is recorded after a number of sessions is the size that
was recorded before, or as far as the file has been written: a file that was
just made has one byte, until something is written to it.
-/

namespace Mavmm.Hostfs

/-- A volume that differs in the contents of the file and in the size of its record only. -/
structure TfInfo.SameBut (i : TfInfo) (c d : BitVec 32) (q : Nat) (vol vol' : Disk) : Prop where
  directory : ∀ k < i.clusterSize, ¬ (q + 28 ≤ k ∧ k < q + 32) →
    i.byteAt vol' d k = i.byteAt vol d k
  others : ∀ u, ¬ i.Covers c u → ¬ i.Covers d u → vol' u = vol u

/-- The path leads to the record of a regular file that begins with the cluster `c`, whatever the
file has in it and whatever its size is. -/
structure Location.Ready (l : Location) (i : TfInfo) (vol : Disk) (c : BitVec 32) : Prop where
  leads : ∀ vol', i.SameBut c l.directory l.record vol vol' → l.Resolved i vol'
  regular : (l.entry i vol).Regular
  startCluster : (l.entry i vol).startCluster = c

/-- A file is opened, used and closed. -/
structure Session where
  mode : String
  ops : List HandleOp

/-- Every call returns; the second part is the highest position that has been written. -/
def Session.Step (i : TfInfo) (l : Location) (x : Fs × Nat) (session : Session) (y : Fs × Nat) :
    Prop :=
  ∃ fp s₁ s₂ fuel fuel' rc, (tfFopen fuel l.path session.mode).Returns x.1 (some fp) s₁ ∧
    Run (UseStep i l fp) (s₁, x.2) session.ops (s₂, y.2) ∧ (tfFclose fuel' fp).Returns s₂ rc y.1

section
variable {i : TfInfo} {vol vol' vol'' : Disk} {c d : BitVec 32} {l : Location} {fp : Handle}
  {q size : Nat} {x y : Fs × Nat}

/-! ## Changes of the volume -/

theorem TfInfo.SameBut.refl (i : TfInfo) (c d : BitVec 32) (q : Nat) (vol : Disk) :
    i.SameBut c d q vol vol := ⟨fun _ _ _ => rfl, fun _ _ _ => rfl⟩

theorem TfInfo.SameBut.trans (h : i.SameBut c d q vol vol') (h' : i.SameBut c d q vol' vol'') :
    i.SameBut c d q vol vol'' :=
  ⟨fun k hk hout => (h'.directory k hk hout).trans (h.directory k hk hout),
    fun u hc hd => (h'.others u hc hd).trans (h.others u hc hd)⟩

/-- The contents of the file change. -/
theorem TfInfo.SameBut.of_contents (hi : i.Fat32) (hc : i.IsCluster c) (hd : i.IsCluster d)
    (hne : c ≠ d) (hvol : ∀ u, ¬ i.Covers c u → vol' u = vol u) : i.SameBut c d q vol vol' :=
  ⟨fun _ hk _ => TfInfo.byteAt_frame hi hc hd hvol hne hk, fun u hu _ => hvol u hu⟩

theorem offset_fileSize : MsdosMember.offset .fileSize = 28 := MsdosMember.offset_eq .fileSize

/-- The size in the record changes. -/
theorem TfInfo.SameBut.of_updates {v : BitVec 32} (h : i.Updates vol d q v vol') :
    i.SameBut c d q vol vol' := by
  refine ⟨fun k hk hout => ?_, fun u _ hu => h.frame u hu⟩
  rw [h.directory k hk]
  split
  · next hin =>
    have hother : ¬ (MsdosMember.offset .fileSize ≤ k - q ∧
        k - q < MsdosMember.offset .fileSize + MsdosMember.size .fileSize) := by
      have hfour : MsdosMember.size .fileSize = 4 := rfl
      rw [offset_fileSize, hfour]
      omega
    refine (Bytes.putWord_outside hother).trans ?_
    rw [TfInfo.recordAt, Nat.add_sub_cancel' hin.1]
  · rfl

theorem TfInfo.Updates.fileSize {v : BitVec 32} (hq : q + 36 ≤ i.clusterSize)
    (h : i.Updates vol d q v vol') : (i.recordAt vol' d q).msdosFileSize = v := by
  have hword : (i.recordAt vol' d q).msdosFileSize =
      FatFileEntry.msdosFileSize ((i.recordAt vol d q).setMsdos .fileSize v) := by
    refine Bytes.word_congr fun k hk => ?_
    rw [offset_fileSize]
    unfold TfInfo.recordAt
    rw [h.directory _ (by omega), if_pos (by omega), Nat.add_sub_cancel_left]
    rfl
  exact hword.trans Bytes.word_putWord

/-- What the record has besides the size. -/
theorem TfInfo.SameBut.members (hq : q + 36 ≤ i.clusterSize) (h : i.SameBut c d q vol vol') :
    (i.recordAt vol' d q).startCluster = (i.recordAt vol d q).startCluster ∧
      (i.recordAt vol' d q).msdosAttributes = (i.recordAt vol d q).msdosAttributes := by
  have hword : ∀ {n off : Nat}, off + n ≤ 28 →
      Bytes.word (i.recordAt vol' d q) n off = Bytes.word (i.recordAt vol d q) n off := by
    intro n off hle
    exact Bytes.word_congr fun k hk => h.directory _ (by omega) (by omega)
  refine ⟨?_, hword (by decide)⟩
  unfold FatFileEntry.startCluster FatFileEntry.msdosEaIndex FatFileEntry.msdosFirstCluster
  rw [hword (by decide), hword (by decide)]

theorem Location.Ready.resolved (h : l.Ready i vol c) : l.Resolved i vol :=
  h.leads vol (.refl i c l.directory l.record vol)

theorem Location.Ready.same (h : l.Ready i vol c)
    (hsame : i.SameBut c l.directory l.record vol vol') : l.Ready i vol' c := by
  obtain ⟨hstart, hattr⟩ := hsame.members h.resolved.record.fits
  refine ⟨fun vol'' hsame' => h.leads vol'' (hsame.trans hsame'), ?_, hstart.trans h.startCluster⟩
  unfold FatFileEntry.Regular Location.entry
  rw [hattr]
  exact h.regular

theorem Location.Ready.directory (h : l.Ready i vol c) : i.IsCluster l.directory := by
  obtain ⟨_, hwalks, -⟩ := h.resolved.walks
  exact hwalks.isCluster h.resolved.root

/-! ## Sessions -/

/-- The size is recorded, or the next flush records it. -/
structure Tracked (i : TfInfo) (l : Location) (c : BitVec 32) (fp : Handle) (size : Nat)
    (x : Fs × Nat) : Prop where
  used : Used i l c fp size x
  ready : l.Ready i x.1.volume c
  recorded : ¬ (flagged (x.1.handles fp).flags tfFlagDirty = true ∧
      flagged (x.1.handles fp).flags tfFlagSizechanged = true) →
    (l.entry i x.1.volume).msdosFileSize.toNat = max size x.2

/-- The file is closed, and its size is recorded. -/
structure Recorded (i : TfInfo) (l : Location) (c : BitVec 32) (size : Nat) (x : Fs × Nat) :
    Prop where
  shows : Shows i x.1.volume x.1.handles x.1
  ready : l.Ready i x.1.volume c
  recorded : (l.entry i x.1.volume).msdosFileSize.toNat = max size x.2

/-- A step that leaves the record alone. -/
theorem Tracked.next (h : Tracked i l c fp size x) (hused : Used i l c fp size y)
    (hready : l.Ready i y.1.volume c)
    (hrecord : (l.entry i y.1.volume).msdosFileSize = (l.entry i x.1.volume).msdosFileSize)
    (hsame : (x.1.handles fp).SameFile (y.1.handles fp))
    (hsize : (flagged (y.1.handles fp).flags tfFlagSizechanged = false) ∨
      (y.1.handles fp).recordedSize = (x.1.handles fp).recordedSize) : Tracked i l c fp size y := by
  refine ⟨hused, hready, fun hflags => ?_⟩
  have hflags' : ¬ (flagged (x.1.handles fp).flags tfFlagDirty = true ∧
      flagged (x.1.handles fp).flags tfFlagSizechanged = true) := by
    rintro ⟨hdirty, hchanged⟩
    refine hflags ⟨hsame.dirty hdirty, Bool.eq_true_of_not_eq_false fun hunchanged => ?_⟩
    exact Bool.false_ne_true ((hsame.changed hunchanged).1.symm.trans hchanged)
  have hequal : (y.1.handles fp).recordedSize = (x.1.handles fp).recordedSize := by
    rcases hsize with hunchanged | hequal
    · obtain ⟨hunchanged', hsize⟩ := hsame.changed hunchanged
      unfold TfFile.recordedSize
      rw [hunchanged, hunchanged', hsize]
    · exact hequal
  rw [hrecord, h.recorded hflags', ← h.used.recordedSize, ← hused.recordedSize, hequal]

/-- After a flush the size is recorded. -/
theorem Tracked.flush {fuel : Nat} {rc : BitVec 32} {s' : Fs} (hi : i.Fat32)
    (h : Tracked i l c fp size x) (hflush : (tfFflush fuel fp).Returns x.1 rc s') :
    OpenFile i l c fp s' ∧ (s'.handles fp).recordedSize = max size x.2 ∧
      Recorded i l c size (s', x.2) := by
  obtain ⟨hfile, hflushed⟩ := h.used.file.flush hi (fun _ _ => h.ready.resolved) hflush
  have hsize : (s'.handles fp).recordedSize = max size x.2 := by
    rw [hflushed.handle, recordedSize_cleaned]
    exact h.used.recordedSize
  refine ⟨hfile, hsize, hfile.shows, ?_, ?_⟩
  · have hvolume := hflushed.volume
    split at hvolume
    · exact h.ready.same (.of_updates hvolume)
    · dsimp only
      rw [hvolume]
      exact h.ready
  · have hvolume := hflushed.volume
    have hused := h.used.recordedSize
    have hmarked := h.used.file.handle.marked
    dsimp only
    split at hvolume
    · next hflags =>
      have hpositive := hmarked hflags.2
      have hone : (1#32).toNat ≤ (x.1.handles fp).size.toNat := hpositive
      unfold TfFile.recordedSize at hused
      rw [if_pos hflags.2] at hused
      unfold Location.entry
      rw [hvolume.fileSize h.ready.resolved.record.fits, BitVec.toNat_sub_of_le hone]
      exact hused
    · next hflags =>
      rw [hvolume]
      exact h.recorded hflags

theorem Tracked.step {op : HandleOp} (hi : i.Fat32) (hc : i.IsCluster c) (hne : c ≠ l.directory)
    (h : Tracked i l c fp size x) (hstep : UseStep i l fp x op y) : Tracked i l c fp size y := by
  have hused := h.used.step hi hc hstep
  obtain ⟨x, high⟩ := x
  obtain ⟨y, high'⟩ := y
  obtain ⟨hallowed, hstep, rfl⟩ := hstep
  dsimp only at *
  cases op with
  | read len =>
    obtain ⟨r, hread⟩ := hstep
    obtain ⟨-, hvolume, hends⟩ := h.used.file.read hi hc hallowed hread
    refine h.next hused ?_ ?_ hends.sameFile (Or.inr ?_)
    · dsimp only
      rw [hvolume]
      exact h.ready
    · dsimp only
      rw [hvolume]
    · dsimp only
      unfold TfFile.recordedSize
      rw [hends.flags, hends.size]
  | write src =>
    obtain ⟨rc, hwrite⟩ := hstep
    obtain ⟨-, hends, hdirty⟩ := h.used.file.write hi hc hallowed hwrite
    have hfits := h.ready.resolved.record.fits
    have hbytes : ∀ k < i.clusterSize,
        i.byteAt y.volume l.directory k = i.byteAt x.volume l.directory k := fun k hk =>
      TfInfo.byteAt_frame hi hc h.ready.directory hends.frame hne hk
    have hsame := @TfInfo.SameBut.of_contents i x.volume y.volume c l.directory l.record hi hc
      h.ready.directory hne hends.frame
    have hrecord : (l.entry i y.volume).msdosFileSize = (l.entry i x.volume).msdosFileSize :=
      (FatFileEntry.members_congr fun k hk => hbytes _ (by omega)).2.2
    cases hchanged : flagged (y.handles fp).flags tfFlagSizechanged with
    | false => exact h.next hused (h.ready.same hsame) hrecord hends.sameFile (Or.inl hchanged)
    | true =>
      -- the handle is dirty, and the next flush records the size
      exact ⟨hused, h.ready.same hsame, fun hflags => absurd ⟨hdirty, hchanged⟩ hflags⟩
  | seek q base offset =>
    obtain ⟨p, hsum, hle, hp⟩ := hallowed
    obtain ⟨rc, hseek⟩ := hstep
    obtain ⟨-, hvolume, hsize, hsame⟩ := h.used.file.seek hi hc hsum hle hp hseek
    refine h.next hused ?_ ?_ hsame (Or.inr hsize)
    · dsimp only
      rw [hvolume]
      exact h.ready
    · dsimp only
      rw [hvolume]
  | flush fuel =>
    obtain ⟨rc, hflush⟩ := hstep
    obtain ⟨-, -, hrecorded⟩ := h.flush hi hflush
    exact ⟨hused, hrecorded.ready, fun _ => hrecorded.recorded⟩

theorem HandleOp.le_highest {op : HandleOp} {s : Fs} {high : Nat} :
    high ≤ op.highest fp s high := by
  cases op with
  | write src =>
    change high ≤ if src = [] then high else max high _
    split
    · exact Nat.le_refl _
    · exact Nat.le_max_left _ _
  | read _ => exact Nat.le_refl _
  | seek _ _ _ => exact Nat.le_refl _
  | flush _ => exact Nat.le_refl _

/-- From one close to the next. -/
theorem Recorded.step {session : Session} (hi : i.Fat32) (hc : i.IsCluster c)
    (hne : c ≠ l.directory) (hsize : size < 2 ^ 31)
    (h : x.2 < 2 ^ 31 → Recorded i l c size x) (hstep : session.Step i l x y) :
    y.2 < 2 ^ 31 → Recorded i l c size y := by
  obtain ⟨x, high⟩ := x
  obtain ⟨y, high'⟩ := y
  obtain ⟨fp, s₁, s₂, fuel, fuel', rc, hopen, hrun, hclose⟩ := hstep
  dsimp only at *
  intro hlt
  have hle : high ≤ high' := by
    refine hrun.invariant (I := fun z => high ≤ z.2) (Nat.le_refl _) ?_
    rintro z op z' hz ⟨-, -, hhighest⟩
    rw [hhighest]
    exact Nat.le_trans hz HandleOp.le_highest
  obtain ⟨hshows, hready, hrecorded⟩ := h (Nat.lt_of_le_of_lt hle hlt)
  have hstart := hready.startCluster
  have hsmall : (l.entry i x.volume).msdosFileSize.toNat < 2 ^ 31 := by
    rw [hrecorded]
    exact Nat.max_lt.mpr ⟨hsize, Nat.lt_of_le_of_lt hle hlt⟩
  have hopened := @returns_tfFopen_open i _ _ l x s₁ session.mode fuel (some fp) hi hready.resolved.toLocates
    hready.regular (hstart ▸ hc) (fun _ => hsmall) hshows hopen
  obtain ⟨fp', heq, hvolume, -, hfile, hfresh⟩ := hopened
  cases heq
  rw [hstart] at hfile
  have hbegin : Tracked i l c fp size (s₁, high) := by
    refine ⟨⟨hfile, hfresh.recordedSize.trans hrecorded⟩, ?_, fun _ => ?_⟩
    · dsimp only
      rw [hvolume]
      exact hready
    · dsimp only
      rw [hvolume]
      exact hrecorded
  have htracked := hrun.invariant hbegin fun ht hstep => ht.step hi hc hne hstep
  unfold tfFclose fcloseWith at hclose
  obtain ⟨rc', t, hflush, hclose⟩ := Exec.returns_bind.mp hclose
  obtain ⟨_, t', hclear, hclose⟩ := Exec.returns_bind.mp hclose
  obtain ⟨-, rfl⟩ := Exec.returns_pure.mp hclose
  obtain ⟨-, -, ht, hready', hrecorded'⟩ := htracked.flush hi hflush
  have hs' := (does_returns (does_modifyFile _) ht hclear).2
  refine ⟨hs'.self, ?_, ?_⟩
  · dsimp only
    rw [hs'.volume]
    exact hready'
  · dsimp only
    rw [hs'.volume]
    exact hrecorded'

/-- Sessions on a file that fits in its first cluster.  Its size is recorded; or it was just made, and
has 0 bytes where 1 is recorded.  In the end the greater of the size and the highest position that
has been written is recorded, unless the file was just made and nothing has been written to it. -/
theorem tfFclose_recordedSize_iff {s s' : Fs} {sessions : List Session} {high : Nat}
    (hs : s.Mounted) (hready : l.Ready s.info s.volume c) (hc : s.info.IsCluster c)
    (hne : c ≠ l.directory)
    (hsize : (l.entry s.info s.volume).msdosFileSize.toNat = size ∨
      size = 0 ∧ (l.entry s.info s.volume).msdosFileSize.toNat = 1)
    (hfits : max size high ≤ s.info.clusterSize)
    (hrun : Run (Session.Step s.info l) (s, 0) sessions (s', high)) :
    (l.entry s.info s'.volume).msdosFileSize.toNat = max size high ↔
      (l.entry s.info s.volume).msdosFileSize.toNat = size ∨ 0 < high := by
  have hi := hs.fat32
  have hcluster := s.info.clusterSize_lt
  have hfinal := hrun.invariant (I := fun x => x.2 < 2 ^ 31 →
      Recorded s.info l c (l.entry s.info s.volume).msdosFileSize.toNat x)
    (fun _ => ⟨hs.shows.self, hready, (Nat.max_zero _).symm⟩)
    fun h hstep => Recorded.step hi hc hne (by omega) h hstep
  have hrecorded := (hfinal (by dsimp only; omega)).recorded
  dsimp only at hrecorded
  rw [hrecorded]
  omega

end

/-! ## A file that grows and one that was just made -/

theorem getD_directoryBytes_single {e : ShortEntry} {k : Nat} :
    (directoryBytes [⟨none, e⟩]).getD k 0#8 = if k < 32 then e.bytes k else 0#8 := by
  have hlength := e.length_toBytes
  rw [directoryBytes_cons rfl]
  split
  · next hk =>
    rw [List.getD_append _ _ _ _ (by rwa [hlength])]
    unfold ShortEntry.toBytes recordSize at hlength ⊢
    rw [List.getD_eq_getElem _ _ (by rwa [hlength]), List.getElem_map, List.getElem_range]
  · next hk =>
    rw [List.getD_append_right _ _ _ _ (by rw [hlength]; omega)]
    exact getD_directoryBytes_nil

/-- The record of the file of 5 bytes with another size. -/
def resizedEntry (size : Nat → Byte) : ShortEntry where
  bytes := fun k => if 28 ≤ k ∧ k < 32 then size k else imageEntry.bytes k
  attributes := imageEntry.attributes
  used := imageEntry.used
  name := fun k hk => by
    rw [if_neg (by omega)]
    exact imageEntry.name k hk

theorem resizedEntry_bytes {size : Nat → Byte} {k : Nat} : (resizedEntry size).bytes k =
    if 28 ≤ k ∧ k < 32 then size k else imageEntry.bytes k := rfl

theorem ready_ofImage : imageLocation.Ready (Fs.ofFile imageEntry).info (Fs.ofFile imageEntry).volume 3#32 := by
  have hcluster : (Fs.ofFile imageEntry).info.clusterSize = 512 := by decide
  refine ⟨fun vol hsame => ?_, by decide, by decide⟩
  have hholds : (Fs.ofFile imageEntry).info.Holds vol 2#32
      (directoryBytes [⟨none, resizedEntry ((Fs.ofFile imageEntry).info.byteAt vol 2#32)⟩]) := by
    have hlength : ∀ e : ShortEntry, (directoryBytes [⟨none, e⟩]).length = 64 := fun _ => rfl
    have himage := (@holds_ofFile imageEntry).2
    rw [hlength] at himage
    rw [TfInfo.Holds, hlength, hcluster]
    refine ⟨by decide, fun k hk => ?_⟩
    rw [getD_directoryBytes_single, resizedEntry_bytes]
    by_cases hsize : 28 ≤ k ∧ k < 32
    · rw [if_pos hsize.2, if_pos hsize]
    · rw [if_neg hsize, ← getD_directoryBytes_single, ← himage k hk]
      refine hsame.directory k (by omega) ?_
      rwa [show imageLocation.record = 0 from rfl, Nat.zero_add, Nat.zero_add]
  have hstop : (imageLocation.path.skip 1).StopsAt 12 := by decide
  have hmatch : (imageLocation.path.skip 1).matches
      (resizedEntry ((Fs.ofFile imageEntry).info.byteAt vol 2#32)).bytes 12 = true := by
    have himage : (imageLocation.path.skip 1).matches imageEntry.bytes 12 = true := by decide
    have hname : ∀ k < 12, (resizedEntry ((Fs.ofFile imageEntry).info.byteAt vol 2#32)).bytes k =
        imageEntry.bytes k := by
      intro k hk
      rw [resizedEntry_bytes, if_neg (by omega)]
    unfold Path.matches at himage ⊢
    rw [reformatted_congr hname]
    exact himage
  exact resolves_first mounted_ofFile.fat32 (by decide) rfl hholds inRoot_initrd hstop hmatch

/-- A byte is written behind the five. -/
theorem tfFclose_recordedSize_iff_append : ∃ s',
    Run (Session.Step (Fs.ofFile imageEntry).info imageLocation) (Fs.ofFile imageEntry, 0)
      [⟨"a", [.write [0x41#8]]⟩] (s', 6) ∧
    (imageLocation.entry (Fs.ofFile imageEntry).info s'.volume).msdosFileSize.toNat = 6 := by
  have hcalls : ∃ s', (do
      let fp ← deref (← tfFopen 2 imageLocation.path "a")
      let f ← file fp
      let _ ← tfFwrite fp [0x41#8]
      let _ ← tfFclose 4 fp
      return (fp, f.pos, f.size, f.startCluster)).Returns (Fs.ofFile imageEntry)
        (secondHandle, 5#32, 6#32, 3#32) s' := by decide +kernel
  obtain ⟨s', hcalls⟩ := hcalls
  obtain ⟨r, s₁, hopen, hcalls⟩ := Exec.returns_bind.mp hcalls
  cases r with
  | none => cases hcalls
  | some fp =>
    obtain ⟨_, _, hderef, hcalls⟩ := Exec.returns_bind.mp hcalls
    cases hderef
    have hcalls := Exec.returns_read_bind.mp hcalls
    obtain ⟨rc, s₂, hwrite, hcalls⟩ := Exec.returns_bind.mp hcalls
    obtain ⟨rc', s₃, hclose, hcalls⟩ := Exec.returns_bind.mp hcalls
    obtain ⟨heq, rfl⟩ := Exec.returns_pure.mp hcalls
    rw [Prod.mk.injEq, Prod.mk.injEq, Prod.mk.injEq] at heq
    obtain ⟨rfl, hpos, hsize, hstart⟩ := heq
    have hused : Run (UseStep (Fs.ofFile imageEntry).info imageLocation secondHandle) (s₁, 0)
        [.write [0x41#8]] (s₂, 6) := by
      have hpos' := congrArg BitVec.toNat hpos
      have hsize' := congrArg BitVec.toNat hsize
      change (s₁.handles secondHandle).pos.toNat = 5 at hpos'
      change (s₁.handles secondHandle).size.toNat = 6 at hsize'
      refine .snoc .nil ⟨⟨?_, ?_, Or.inr ?_⟩, ⟨rc, hwrite⟩, ?_⟩
      · dsimp only
        rw [hpos']
        decide
      · change (Fs.ofFile imageEntry).info.Reach (s₁.handles secondHandle).startCluster _ _
        rw [hstart]
        exact mounted_ofFile.fat32.reach (by decide) (by decide) (by decide)
      · dsimp only
        rw [hpos', hsize']
        decide
      · change 6 = max 0 ((s₁.handles secondHandle).pos.toNat + 1)
        rw [hpos']
        rfl
    have hstep : Session.Step (Fs.ofFile imageEntry).info imageLocation (Fs.ofFile imageEntry, 0)
        ⟨"a", [.write [0x41#8]]⟩ (s₃, 6) := ⟨_, _, _, _, _, _, hopen, hused, hclose⟩
    have hrun := Run.snoc .nil hstep
    have hsize : (imageLocation.entry (Fs.ofFile imageEntry).info s₃.volume).msdosFileSize.toNat =
        max 5 6 := (tfFclose_recordedSize_iff mounted_ofFile ready_ofImage (by decide) (by decide)
      (Or.inl (by decide)) (by decide) hrun).mpr (Or.inr (by decide))
    exact ⟨s₃, hrun, hsize⟩

/-- `/INITRD~1.IMG`, where `tf_create` makes its record in an empty directory. -/
def createdLocation : Location where
  path := { bytes := fun k => [0x2f#8, 0x49#8, 0x4e#8, 0x49#8, 0x54#8, 0x52#8, 0x44#8, 0x7e#8, 0x31#8,
    0x2e#8, 0x49#8, 0x4d#8, 0x47#8].getD k 0#8, off := 0 }
  len := 13
  separator := 0
  directory := 2#32
  record := 36

/-- A file that is made, opened and closed has one byte. -/
theorem tfFclose_records_one : ∃ s s',
    (Fs.ofDirectory []).Mounted ∧
    (tfCreate 4 createdLocation.path).Returns (Fs.ofDirectory []) 0#32 s ∧
    Run (Session.Step Fs.blank.info createdLocation) (s, 0) [⟨"w", []⟩] (s', 0) ∧
    (createdLocation.entry Fs.blank.info s'.volume).msdosFileSize.toNat ≠ max 0 0 := by
  have hcalls : ∃ s', (do
      let rc ← tfCreate 4 createdLocation.path
      let fp ← deref (← tfFopen 4 createdLocation.path "w")
      let _ ← tfFclose 4 fp
      let vol ← Exec.probe (Probe.read Fs.volume)
      return (rc, (createdLocation.entry Fs.blank.info vol).msdosFileSize.toNat)).Returns
        (Fs.ofDirectory []) (0#32, 1) s' := by decide +kernel
  obtain ⟨s', hcalls⟩ := hcalls
  obtain ⟨rc, s, hcreate, hcalls⟩ := Exec.returns_bind.mp hcalls
  obtain ⟨r, s₁, hopen, hcalls⟩ := Exec.returns_bind.mp hcalls
  cases r with
  | none => cases hcalls
  | some fp =>
    obtain ⟨_, _, hderef, hcalls⟩ := Exec.returns_bind.mp hcalls
    cases hderef
    obtain ⟨rc', s₂, hclose, hcalls⟩ := Exec.returns_bind.mp hcalls
    have hcalls := Exec.returns_read_bind.mp hcalls
    obtain ⟨heq, rfl⟩ := Exec.returns_pure.mp hcalls
    rw [Prod.mk.injEq] at heq
    obtain ⟨rfl, hone⟩ := heq
    refine ⟨s, s₂, mounted_ofDirectory [], hcreate,
      .snoc .nil ⟨fp, s₁, s₁, 4, 4, rc', hopen, .nil, hclose⟩, ?_⟩
    rw [hone]
    decide

end Mavmm.Hostfs
