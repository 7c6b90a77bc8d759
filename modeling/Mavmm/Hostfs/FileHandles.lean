import Mavmm.Hostfs.ReadBack

/-!
# Handles of files

The size of a handle is one more than that of the file once it has changed.
Reading ends with the byte in front of that size, and fails there; writing goes
on behind the end of a file, unless the file is empty and the handle knows it.
-/

namespace Mavmm.Hostfs

/-! ## Positions and sizes -/

/-- The size that `tf_fflush` leaves for the file: the mark for a change is taken off. -/
def TfFile.recordedSize (f : TfFile) : Nat :=
  if flagged f.flags tfFlagSizechanged then f.size.toNat - 1 else f.size.toNat

/-- The handle is `t` bytes behind the begin of a file that begins with the cluster `c`; only an
empty file that was just opened is at its end. -/
structure TfFile.At (f : TfFile) (clusterSize : Nat) (c : BitVec 32) (t : Nat) : Prop where
  startCluster : f.startCluster = c
  currentCluster : f.currentCluster = c
  pos : f.pos.toNat = t
  currentByte : f.currentByte = BitVec.ofNat 16 (t % clusterSize)
  marked : flagged f.flags tfFlagSizechanged = true → 0 < f.size.toNat
  within : t < f.size.toNat ∨ t = 0 ∧ f.size.toNat = 0

/-- A handle that is used, but not opened or closed. -/
structure TfFile.SameFile (f f' : TfFile) : Prop where
  attributes : f'.attributes = f.attributes
  filename : f'.filename = f.filename
  isOpen : flagged f'.flags tfFlagOpen = flagged f.flags tfFlagOpen
  dirty : flagged f.flags tfFlagDirty = true → flagged f'.flags tfFlagDirty = true
  changed : flagged f'.flags tfFlagSizechanged = false →
    flagged f.flags tfFlagSizechanged = false ∧ f'.size = f.size

theorem TfFile.SameFile.refl (f : TfFile) : f.SameFile f := ⟨rfl, rfl, rfl, id, fun h => ⟨h, rfl⟩⟩

theorem TfFile.SameFile.trans {f g h : TfFile} (hfg : f.SameFile g) (hgh : g.SameFile h) :
    f.SameFile h :=
  ⟨hgh.attributes.trans hfg.attributes, hgh.filename.trans hfg.filename,
    hgh.isOpen.trans hfg.isOpen, fun h => hgh.dirty (hfg.dirty h), fun h => by
      obtain ⟨hg, hsize⟩ := hgh.changed h
      exact ⟨(hfg.changed hg).1, hsize.trans (hfg.changed hg).2⟩⟩

theorem flagged_or {flags mask bits : BitVec 8} (h : mask &&& bits = 0#8) :
    flagged (flags ||| mask) bits = flagged flags bits := by
  have hor : (flags ||| mask) &&& bits = flags &&& bits := by
    apply BitVec.eq_of_getLsbD_eq
    intro k _
    have hbit := congrArg (fun b => b.getLsbD k) h
    simp only [BitVec.getLsbD_and, BitVec.getLsbD_or, BitVec.getLsbD_zero] at hbit ⊢
    cases hk : bits.getLsbD k with
    | false => rw [Bool.and_false, Bool.and_false]
    | true =>
      rw [hk, Bool.and_true] at hbit
      rw [hbit, Bool.or_false]
  unfold flagged
  rw [hor]

namespace TfFile
variable {f : TfFile} {clusterSize t p : Nat} {c : BitVec 32}

theorem flags_sought : (f.sought clusterSize p).flags =
    if p = f.size.toNat then f.flags ||| tfFlagSizechanged else f.flags := by
  unfold sought atByte inCluster grown
  by_cases heq : p = f.size.toNat
  · rw [if_pos heq, if_pos (Int.ofNat_inj.mpr heq)]
    split <;> rfl
  · rw [if_neg heq, if_neg fun h => heq (Int.ofNat_inj.mp h)]
    split <;> rfl

theorem filename_sought : (f.sought clusterSize p).filename = f.filename := by
  have hgrown : (f.grown p).filename = f.filename := by
    unfold grown
    split <;> rfl
  unfold sought atByte inCluster
  split
  · exact hgrown
  · exact hgrown

theorem sameFile_sought : f.SameFile (f.sought clusterSize p) := by
  have hsize := @size_sought f clusterSize p
  refine ⟨attributes_sought, filename_sought, ?_, ?_, ?_⟩
  · rw [flags_sought]
    split
    · exact flagged_or (by decide)
    · rfl
  · rw [flags_sought]
    split
    · rw [flagged_or (by decide)]
      exact id
    · exact id
  · rw [flags_sought]
    split
    · exact fun h => absurd (h.symm.trans (flagged_or_self _ (by decide))) Bool.false_ne_true
    · next hne =>
      rw [if_neg hne] at hsize
      exact fun h => ⟨h, hsize⟩

/-- A seek to the end makes the file grow by no byte. -/
theorem recordedSize_sought (hle : p ≤ f.size.toNat) (hp : p < 2 ^ 32 - 1) :
    (f.sought clusterSize p).recordedSize = max f.recordedSize p := by
  unfold recordedSize
  rw [flags_sought, size_sought]
  by_cases heq : p = f.size.toNat
  · rw [if_pos heq, if_pos heq, if_pos (flagged_or_self _ (by decide)), BitVec.toNat_add,
      BitVec.toNat_ofNat]
    split <;> omega
  · rw [if_neg heq, if_neg heq]
    split <;> omega

theorem At.stands (h : f.At clusterSize c t) (hlt : t < f.size.toNat) :
    f.Stands clusterSize c t := by
  have hsize := f.size.isLt
  have hmod : t % 2 ^ 32 = t := Nat.mod_eq_of_lt (by omega)
  refine ⟨h.startCluster, h.currentCluster, ?_, ?_, fun _ => hlt, ?_⟩
  · rw [hmod]
    exact h.pos
  · rw [hmod]
    exact h.currentByte
  · omega

/-- A seek within the file. -/
theorem At.sought (h : f.At clusterSize c t) (hle : p ≤ f.size.toNat) (hp : p < 2 ^ 32 - 1) :
    (f.sought clusterSize p).At clusterSize c p := by
  have hmod : p % 2 ^ 32 = p := Nat.mod_eq_of_lt (by omega)
  have hstands := @stands_sought c f clusterSize p h.startCluster h.currentCluster (by omega)
    (by omega) (by omega)
  have hlt := hstands.size hp
  have hplace := hstands.pos
  have hbyte := hstands.currentByte
  rw [hmod] at hlt hplace hbyte hstands
  exact ⟨hstands.startCluster, hstands.currentCluster, hplace, hbyte,
    fun _ => Nat.lt_of_le_of_lt (Nat.zero_le p) hlt, Or.inl hlt⟩

/-- The position of the next byte. -/
theorem At.next (h : f.At clusterSize c t) : (f.pos + 1#32).toNat = t + 1 := by
  have hlt := f.size.isLt
  have hwithin := h.within
  rw [BitVec.toNat_add, h.pos, BitVec.toNat_ofNat]
  omega

/-- No position is behind the end of the file. -/
theorem At.le_recordedSize (h : f.At clusterSize c t) : t ≤ f.recordedSize := by
  have hwithin := h.within
  unfold recordedSize
  split <;> omega

theorem At.dirty (h : f.At clusterSize c t) :
    { f with flags := f.flags ||| tfFlagDirty }.At clusterSize c t := by
  refine ⟨h.startCluster, h.currentCluster, h.pos, h.currentByte, fun hflag => h.marked ?_, h.within⟩
  rwa [flagged_or (by decide)] at hflag

end TfFile

section
variable {i : TfInfo} {vol : Disk} {files : Handle → TfFile} {fp : Handle} {c : BitVec 32}
  {last t : Nat}

/-! ## Reading -/

/-- A seek behind the last byte is refused. -/
theorem does_tfFseek_refused {base : BitVec 32} {offset : Int} {p : Nat}
    (hsum : base.toInt + offset = p) (hp : p < 2 ^ 63) (hle : (files fp).size.toNat ≤ p) :
    Does last i vol files (tfFseek fp base offset) tfErrInvalidSeek vol files := by
  unfold tfFseek
  rw [hsum]
  refine (does_long (by omega)).bind (does_file_bind ?_)
  rw [if_pos (Int.ofNat_le.mpr hle)]
  exact does_pure

/-- The bytes that a call reads, from the position on, if the handle has this size. -/
def readLength (size t len : Nat) : Nat := if t + len < size then len else min len (max 1 (size - t))

/-- What a call of `tf_fread` returns and where it leaves the handle. -/
structure FreadEnds (i : TfInfo) (vol : Disk) (f : TfFile) (c : BitVec 32) (t len : Nat)
    (r : List Byte × BitVec 32) (f' : TfFile) : Prop where
  bytes : r.1 = Ring.read i.clusterSize (i.byteAt vol c) t (readLength f.size.toNat t len)
  rc : r.2 = if len = 0 ∨ t + len < f.size.toNat then 0#32 else -1#32
  handle : f'.At i.clusterSize c
    (if len = 0 ∨ t + len < f.size.toNat then t + len else f.size.toNat - 1)
  sameFile : f.SameFile f'
  size : f'.size = f.size
  flags : f'.flags = f.flags

/-- Every call of `tf_fread` on a handle of a file returns. -/
theorem does_tfFread_ends (hi : i.Fat32) (hc : i.IsCluster c) (len : Nat) :
    ∀ {t : Nat} {files : Handle → TfFile}, (files fp).At i.clusterSize c t →
      i.Reach c t (readLength (files fp).size.toNat t len) →
      ∃ r f', Does last i vol files (tfFread fp len) r vol (WriteBack.set files fp f') ∧
        FreadEnds i vol (files fp) c t len r f' := by
  induction len with
  | zero =>
    intro t files hf _
    have hnone : readLength (files fp).size.toNat t 0 = 0 := by
      unfold readLength
      split <;> omega
    refine ⟨([], 0#32), files fp, ?_, ?_, rfl, hf, .refl _, rfl, rfl⟩
    · rw [WriteBack.set_eq rfl]
      exact does_pure
    · rw [hnone]
      rfl
  | succ len ih =>
    intro t files hf hreach
    have hwithin := hf.within
    have hsize := (files fp).size.isLt
    have hk := Nat.mod_lt t hi.clusterSize_pos
    have hmod : t % 2 ^ 32 = t := Nat.mod_eq_of_lt (by omega)
    have hfirst : i.Reach c t 1 :=
      hreach.sub (Nat.le_refl t) (by unfold readLength; split <;> omega)
    have hbyte := (TfInfo.reach_succ.mp hfirst).1
    rw [hmod] at hbyte
    have hfetch := @does_fetchByte i vol files fp c last hi hc _ hk hbyte hf.currentCluster
      hf.currentByte
    have hbegin : ∀ {r files'}, Does last i vol files (do
          let rc ← tfFseek fp 0#32 (t + 1 : Nat)
          if rc ≠ 0#32 then return ([i.byteAt vol c (t % i.clusterSize)], -1#32)
          let rest ← tfFread fp len
          return (i.byteAt vol c (t % i.clusterSize) :: rest.1, rest.2)) r vol files' →
        Does last i vol files (tfFread fp (len + 1)) r vol files' := by
      intro r files' hrest
      unfold tfFread
      refine hfetch.bind (does_buffer_bind (hi.isData_sectorAt hc hk) fun j hj => ?_)
      have hbyte : j.buffer (t % i.clusterSize % 512) = i.byteAt vol c (t % i.clusterSize) := by
        rw [hj]
        rfl
      dsimp only
      rw [hbyte]
      apply does_file_bind
      rw [hf.next]
      exact hrest
    by_cases hend : (files fp).size.toNat ≤ t + 1
    · have hone : readLength (files fp).size.toNat t (len + 1) = 1 := by
        unfold readLength
        rw [if_neg (by omega)]
        omega
      have hfails : ¬ (len + 1 = 0 ∨ t + (len + 1) < (files fp).size.toNat) := by omega
      refine ⟨([i.byteAt vol c (t % i.clusterSize)], -1#32), files fp, hbegin ?_, ?_, ?_, ?_,
        .refl _, rfl, rfl⟩
      · rw [WriteBack.set_eq rfl]
        refine (does_tfFseek_refused (zero_add_pos (t + 1)) (by omega) hend).bind ?_
        rw [if_pos (by decide)]
        exact does_pure
      · rw [hone]
        rfl
      · rw [if_neg hfails]
      · rw [if_neg hfails]
        have hlast : (files fp).size.toNat - 1 = t := by omega
        rw [hlast]
        exact hf
    · have hlt : t + 1 < (files fp).size.toNat := Nat.lt_of_not_le hend
      have hsought := @TfFile.At.sought _ i.clusterSize t (t + 1) c hf (by omega) (by omega)
      have hsame := @TfFile.sameFile_sought (files fp) i.clusterSize (t + 1)
      have hsize' : ((files fp).sought i.clusterSize ((t + 1 : Nat) : Int)).size =
          (files fp).size := by
        rw [TfFile.size_sought, if_neg (by omega)]
      have hflags : ((files fp).sought i.clusterSize ((t + 1 : Nat) : Int)).flags =
          (files fp).flags := by
        rw [TfFile.flags_sought, if_neg (by omega)]
      have hlength : readLength (files fp).size.toNat t (len + 1) =
          readLength (files fp).size.toNat (t + 1) len + 1 := by
        unfold readLength
        split <;> split <;> omega
      rw [hlength, TfInfo.reach_succ] at hreach
      obtain ⟨r, f', hrest, hends⟩ := @ih (t + 1)
        (WriteBack.set files fp ((files fp).sought i.clusterSize ((t + 1 : Nat) : Int)))
        (by rw [WriteBack.set_self]; exact hsought)
        (by rw [WriteBack.set_self, hsize']; exact hreach.2)
      rw [WriteBack.set_set] at hrest
      rw [WriteBack.set_self] at hends
      obtain ⟨hbytes, hrc, hhandle, hsame', hsize'', hflags'⟩ := hends
      rw [hsize'] at hbytes hrc hhandle
      have hcase : (len = 0 ∨ t + 1 + len < (files fp).size.toNat) ↔
          (len + 1 = 0 ∨ t + (len + 1) < (files fp).size.toNat) := by omega
      have hplace : t + 1 + len = t + (len + 1) := by omega
      refine ⟨(i.byteAt vol c (t % i.clusterSize) :: r.1, r.2), f', hbegin ?_, ?_, ?_, ?_,
        hsame.trans hsame', hsize''.trans hsize', hflags'.trans hflags⟩
      · refine (does_tfFseek hi (hf.startCluster ▸ hc) (zero_add_pos (t + 1)) hlt).bind ?_
        rw [if_neg (not_not_intro rfl)]
        exact hrest.bind does_pure
      · rw [hlength, Ring.read, ← hbytes]
      · rw [hrc]
        exact if_congr hcase rfl rfl
      · rw [if_congr hcase hplace rfl] at hhandle
        exact hhandle

/-! ## Writing -/

theorem does_tfUnsafeFseek_refused {base : BitVec 32} {offset : Int} {p : Nat}
    (hsum : base.toInt + offset = p) (hp : p < 2 ^ 63) (hlt : (files fp).size.toNat < p) :
    Does last i vol files (tfUnsafeFseek fp base offset) tfErrInvalidSeek vol files := by
  unfold tfUnsafeFseek
  apply does_info_bind
  intro j _
  rw [hsum]
  refine (does_long (by omega)).bind (does_file_bind ?_)
  rw [if_pos (Int.ofNat_lt.mpr hlt)]
  exact does_pure

/-- What the transfer of a string to a file leaves behind. -/
structure FwriteEnds (i : TfInfo) (vol : Disk) (f : TfFile) (c : BitVec 32) (t len : Nat)
    (rc : BitVec 32) (vol' : Disk) (f' : TfFile) : Prop where
  rc : rc = if len = 0 ∨ t < f.size.toNat then 0#32 else -1#32
  handle : f'.At i.clusterSize c (if t < f.size.toNat then t + len else t)
  recordedSize : f'.recordedSize = if t < f.size.toNat then max f.recordedSize (t + len) else
    f.recordedSize
  sameFile : f.SameFile f'
  frame : ∀ u, ¬ i.Covers c u → vol' u = vol u

theorem does_fwriteBytes_ends (hi : i.Fat32) (hc : i.IsCluster c) (src : List Byte) :
    ∀ {t : Nat} {vol : Disk} {files : Handle → TfFile}, (files fp).At i.clusterSize c t →
      t + src.length < 2 ^ 32 - 1 → i.Reach c t src.length →
      ∃ rc vol' f', Does last i vol files (fwriteBytes fp src) rc vol' (WriteBack.set files fp f') ∧
        FwriteEnds i vol (files fp) c t src.length rc vol' f' := by
  induction src with
  | nil =>
    intro t vol files hf _ _
    have hle := hf.le_recordedSize
    refine ⟨0#32, vol, files fp, ?_, rfl, ?_, ?_, .refl _, fun _ _ => rfl⟩
    · rw [WriteBack.set_eq rfl]
      exact does_pure
    · rw [List.length_nil, Nat.add_zero, ite_self]
      exact hf
    · rw [List.length_nil, Nat.add_zero, Nat.max_eq_left hle, ite_self]
  | cons v src ih =>
    intro t vol files hf ht hreach
    rw [List.length_cons] at ht hreach ⊢
    have hk := Nat.mod_lt t hi.clusterSize_pos
    have hmod : t % 2 ^ 32 = t := Nat.mod_eq_of_lt (by omega)
    obtain ⟨hbyte, hreach⟩ := TfInfo.reach_succ.mp hreach
    rw [hmod] at hbyte
    have hfetch := @does_fetchByte i vol files fp c last hi hc _ hk hbyte hf.currentCluster
      hf.currentByte
    have hframe : ∀ u, ¬ i.Covers c u → i.putByte vol c (t % i.clusterSize) v u = vol u :=
      fun u hu => WriteBack.set_ne fun heq => hu ⟨_, hk, heq⟩
    have hbegin : ∀ {rc vol' files'}, Does last i (i.putByte vol c (t % i.clusterSize) v) files (do
          let rc ← tfUnsafeFseek fp 0#32 (t + 1 : Nat)
          if rc ≠ 0#32 then return -1#32
          fwriteBytes fp src) rc vol' files' →
        Does last i vol files (fwriteBytes fp (v :: src)) rc vol' files' := by
      intro rc vol' files' hrest
      unfold fwriteBytes
      refine hfetch.bind ?_
      apply does_setByte_bind (hi.isData_sectorAt hc hk)
      apply does_file_bind
      rw [hf.next]
      exact hrest
    by_cases hlt : t < (files fp).size.toNat
    · have hsought := @TfFile.At.sought _ i.clusterSize t (t + 1) c hf hlt (by omega)
      have hsize := @TfFile.recordedSize_sought (files fp) i.clusterSize (t + 1) hlt (by omega)
      have hmore : t + 1 < ((files fp).sought i.clusterSize ((t + 1 : Nat) : Int)).size.toNat := by
        rcases hsought.within with hmore | ⟨hzero, -⟩
        · exact hmore
        · exact absurd hzero (Nat.succ_ne_zero t)
      obtain ⟨rc, vol', f', hrest, hends⟩ := @ih (t + 1) (i.putByte vol c (t % i.clusterSize) v)
        (WriteBack.set files fp ((files fp).sought i.clusterSize ((t + 1 : Nat) : Int)))
        (by rw [WriteBack.set_self]; exact hsought) (by omega) hreach
      rw [WriteBack.set_set] at hrest
      rw [WriteBack.set_self] at hends
      obtain ⟨hrc, hhandle, hrecorded, hsame, hframe'⟩ := hends
      have hplace : t + 1 + src.length = t + (src.length + 1) := by omega
      rw [if_pos hmore, hplace] at hhandle
      rw [if_pos hmore, hsize, hplace] at hrecorded
      refine ⟨rc, vol', f', hbegin ?_, ?_, ?_, ?_, TfFile.sameFile_sought.trans hsame, ?_⟩
      · refine (does_tfUnsafeFseek hi (hf.startCluster ▸ hc) (zero_add_pos (t + 1)) hlt).bind ?_
        rw [if_neg (not_not_intro rfl)]
        exact hrest
      · rw [hrc, if_pos (Or.inr hmore), if_pos (Or.inr hlt)]
      · rw [if_pos hlt]
        exact hhandle
      · rw [if_pos hlt, hrecorded]
        omega
      · exact fun u hu => (hframe' u hu).trans (hframe u hu)
    · have hfails : ¬ (src.length + 1 = 0 ∨ t < (files fp).size.toNat) := by omega
      refine ⟨-1#32, _, files fp, hbegin ?_, ?_, ?_, ?_, .refl _, hframe⟩
      · rw [WriteBack.set_eq rfl]
        refine (does_tfUnsafeFseek_refused (zero_add_pos (t + 1)) (by omega) (by omega)).bind ?_
        rw [if_pos (by decide)]
        exact does_pure
      · rw [if_neg hfails]
      · rw [if_neg hlt]
        exact hf
      · rw [if_neg hlt]

/-- Every call of `tf_fwrite` on a handle of a file returns. -/
theorem does_tfFwrite_ends (hi : i.Fat32) (hc : i.IsCluster c) (src : List Byte)
    (hf : (files fp).At i.clusterSize c t) (ht : t + src.length < 2 ^ 32 - 1)
    (hreach : i.Reach c t src.length) :
    ∃ rc vol' f', Does last i vol files (tfFwrite fp src) rc vol' (WriteBack.set files fp f') ∧
      FwriteEnds i vol (files fp) c t src.length rc vol' f' ∧
      flagged f'.flags tfFlagDirty = true := by
  let f₁ : TfFile := { files fp with flags := (files fp).flags ||| tfFlagDirty }
  have hrecorded : f₁.recordedSize = (files fp).recordedSize := by
    unfold TfFile.recordedSize
    rw [flagged_or (by decide)]
  have hdirty : flagged f₁.flags tfFlagDirty = true := flagged_or_self _ (by decide)
  have hsame : (files fp).SameFile f₁ := by
    refine ⟨rfl, rfl, flagged_or (by decide), fun _ => hdirty, fun h => ⟨?_, rfl⟩⟩
    rwa [flagged_or (by decide)] at h
  obtain ⟨rc, vol', f', hbytes, hends⟩ := @does_fwriteBytes_ends i fp c last hi hc src t vol
    (WriteBack.set files fp f₁) (by rw [WriteBack.set_self]; exact hf.dirty) ht
    hreach
  rw [WriteBack.set_set] at hbytes
  rw [WriteBack.set_self] at hends
  obtain ⟨hrc, hhandle, hrecorded', hsame', hframe⟩ := hends
  rw [hrecorded] at hrecorded'
  refine ⟨rc, vol', f', ?_, ⟨hrc, hhandle, hrecorded', hsame.trans hsame', hframe⟩,
    hsame'.dirty hdirty⟩
  unfold tfFwrite
  exact (does_modifyFile _).bind hbytes

/-! ## Seeks -/

/-- Every seek within the file returns, and leaves its size alone. -/
theorem does_seek_ends (hi : i.Fat32) (hc : i.IsCluster c) {q : Seek} {base : BitVec 32}
    {offset : Int} {p : Nat} (hf : (files fp).At i.clusterSize c t)
    (hsum : base.toInt + offset = p) (hle : p ≤ (files fp).recordedSize) (hp : p < 2 ^ 32 - 1) :
    ∃ rc f' t', Does last i vol files (q.exec fp base offset) rc vol (WriteBack.set files fp f') ∧
      f'.At i.clusterSize c t' ∧ f'.recordedSize = (files fp).recordedSize ∧
      (files fp).SameFile f' := by
  have hsize : p ≤ (files fp).size.toNat := by
    unfold TfFile.recordedSize at hle
    split at hle <;> omega
  have hmoves : Does last i vol files (tfUnsafeFseek fp base offset) 0#32 vol
      (WriteBack.set files fp ((files fp).sought i.clusterSize p)) :=
    does_tfUnsafeFseek hi (hf.startCluster ▸ hc) hsum hsize
  have hrecorded := @TfFile.recordedSize_sought (files fp) i.clusterSize p hsize hp
  rw [Nat.max_eq_left hle] at hrecorded
  have hsought := hf.sought hsize hp
  cases q with
  | unsafeFseek => exact ⟨_, _, p, hmoves, hsought, hrecorded, TfFile.sameFile_sought⟩
  | fseek =>
    by_cases hlt : p < (files fp).size.toNat
    · exact ⟨_, _, p, does_tfFseek hi (hf.startCluster ▸ hc) hsum hlt, hsought, hrecorded,
        TfFile.sameFile_sought⟩
    · refine ⟨tfErrInvalidSeek, files fp, t, ?_, hf, rfl, .refl _⟩
      rw [WriteBack.set_eq rfl]
      exact does_tfFseek_refused hsum (by omega) (Nat.le_of_not_lt hlt)

end

end Mavmm.Hostfs
