import Mavmm.Hostfs.LongNames
import Mavmm.Hostfs.RootOpening

/-!
# Names that are read behind their end

A lookup compares the records of a long name with pieces of 13 characters, from
the third character of each on, for as many pieces as the first record tells.
On a volume with a long name of 21 pieces, which is the name that is looked up,
it reads behind the terminator of every name with fewer than 256 characters.
-/

namespace Mavmm.Hostfs

/-! ## Records -/

/-- A record of a long name with 21 pieces, at the places where the lookup takes its characters
from. -/
def chainRecord (chars : Nat → Byte) : FatFileEntry := fun k =>
  if k = 0 then 21#8
  else if k = 11 then 0x0f#8
  else if k < 12 then chars ((k - 2) / 2)
  else if k < 28 then chars (5 + (k - 16) / 2)
  else chars (11 + (k - 30) / 2)

/-- Byte `k` of a directory with such a name, the last piece of which stands first. -/
def Path.chainByte (name : Path) (k : Nat) : Byte :=
  chainRecord (name.skip (13 * (20 - k / 36))).get (k % 36)

section
variable {chars : Nat → Byte} {entry : FatFileEntry}

theorem setWidth_lfnChar {f : LfnMember} {k : Nat} :
    (entry.lfnChar f k).setWidth 8 = entry (f.offset + 2 * k) := by
  apply BitVec.eq_of_getLsbD_eq
  intro j hj
  unfold FatFileEntry.lfnChar
  rw [BitVec.getLsbD_setWidth, Bytes.getLsbD_word (by omega), Nat.mod_eq_of_lt hj,
    Nat.div_eq_of_lt hj, Nat.add_zero, decide_eq_true hj, Bool.true_and]

/-- A record is compared with the characters that it was made from. -/
theorem reformatted_chainRecord (h : ∀ k < 36, entry k = chainRecord chars k) :
    entry.reformatted = (List.range 13).map chars ++ [0#8] := by
  obtain ⟨-, hname1, -, -, -, hname2, -, hname3⟩ := LfnMember.offsets
  have hlong : ¬ entry.msdosAttributes ≠ 0x0f#8 := by
    rw [msdosAttributes_eq, h 11 (by decide)]
    exact not_not_intro rfl
  have hsplit : List.range 13 =
      List.range 5 ++ (List.range 6).map (5 + ·) ++ (List.range 2).map (11 + ·) := rfl
  have hchar : ∀ {f : LfnMember} {first n : Nat}, (∀ k < n, f.offset + 2 * k < 36 ∧
      chainRecord chars (f.offset + 2 * k) = chars (first + k)) →
      (List.range n).map (fun k => (entry.lfnChar f k).setWidth 8) =
        ((List.range n).map (first + ·)).map chars := by
    intro f first n hf
    rw [List.map_map]
    refine List.map_congr_left fun k hk => ?_
    obtain ⟨hlt, hvalue⟩ := hf k (List.mem_range.mp hk)
    rw [setWidth_lfnChar, h _ hlt, hvalue]
    rfl
  unfold FatFileEntry.reformatted
  rw [if_neg hlong, hsplit, List.map_append, List.map_append,
    @hchar .name1 0 5, @hchar .name2 5 6, @hchar .name3 11 2]
  · simp only [Nat.zero_add, List.map_id']
  · intro k hk
    unfold chainRecord
    rw [hname3, if_neg (by omega), if_neg (by omega), if_neg (by omega), if_neg (by omega),
      Nat.add_sub_cancel_left, Nat.mul_div_cancel_left k (by decide)]
    exact ⟨by omega, rfl⟩
  · intro k hk
    unfold chainRecord
    rw [hname2, if_neg (by omega), if_neg (by omega), if_neg (by omega), if_pos (by omega),
      Nat.add_sub_cancel_left, Nat.mul_div_cancel_left k (by decide)]
    exact ⟨by omega, rfl⟩
  · intro k hk
    unfold chainRecord
    rw [hname1, if_neg (by omega), if_neg (by omega), if_pos (by omega),
      Nat.add_sub_cancel_left, Nat.mul_div_cancel_left k (by decide), Nat.zero_add]
    exact ⟨by omega, rfl⟩

end

/-- A directory of one cluster begins with the long name. -/
def TfInfo.HoldsChain (i : TfInfo) (vol : Disk) (c : BitVec 32) (name : Path) : Prop :=
  756 ≤ i.clusterSize ∧ ∀ k < 756, i.byteAt vol c k = name.chainByte k

section
variable {i : TfInfo} {vol : Disk} {files : Handle → TfFile} {fp : Handle} {c : BitVec 32}
  {name : Path} {len : Nat} {s : Fs}

/-- What is read where a record stands. -/
theorem TfInfo.HoldsChain.entryAt (h : i.HoldsChain vol c name) {n : Nat} (hn : n < 21)
    {entry : FatFileEntry} {k : Nat} (hk : k < 36) :
    i.entryAt vol c (36 * n) entry k = chainRecord (name.skip (13 * (20 - n))).get k := by
  have hsize := h.1
  rw [TfInfo.entryAt_eq (by omega) hk, h.2 _ (by omega)]
  unfold Path.chainByte
  rw [Nat.mul_add_div (by decide), Nat.div_eq_of_lt hk, Nat.add_zero, Nat.mul_add_mod,
    Nat.mod_eq_of_lt hk]

/-- The step of the loop is at the record of its piece. -/
theorem emits_compareChain (hi : i.Fat32) (hc : i.IsCluster c) (hreach : i.Reach c 0 756)
    (hchain : i.HoldsChain vol c name) {n : Nat} (hn : n < 21) {piece : Path} {entry : FatFileEntry} {P : FsEvent → Prop}
    (hs : ReadsAt i vol files fp c (36 * (n + 1)) s)
    (h : (compareChain fp (n + 1) piece entry).Emits P s) :
    ∃ entry' s', (∀ k < 36, entry' k = chainRecord (name.skip (13 * (20 - n))).get k) ∧
      ReadsAt i vol files fp c (36 * (n + 1)) s' ∧
      (do
        if ¬ (← tfCompareFilenameSegment entry' piece) then
          let _ ← fseekEntries fp n
          return false
        let _ ← fseekEntries fp (-1)
        compareChain fp n (piece.skip 13) entry').Emits P s' := by
  unfold compareChain at h
  have hseek := @readsAt_fseekEntries i vol files fp c 0 (36 * (n + 1)) hi hc (-1) (36 * n)
    (by decide) (by omega) (by omega) (by omega)
  obtain ⟨s₁, hs₁, h⟩ := hseek.emits_bind hs h
  have hread := @readsAt_freadEntry i vol files fp c 0 (36 * n) entry hi hc (by omega)
    (hreach.sub (Nat.zero_le _) (by omega))
  obtain ⟨s₂, hs₂, h⟩ := hread.emits_bind hs₁ h
  exact ⟨_, s₂, fun k hk => hchain.entryAt hn hk, hs₂, h⟩

/-- A piece that is made from the name is found equal to it. -/
theorem does_segment_chainRecord {piece : Path} {entry : FatFileEntry} {last : Nat}
    (hentry : ∀ k < 36, entry k = chainRecord piece.get k) (hends : piece.Ends len)
    (hlen : 2 ≤ len ∧ len < maxString) (hlast : piece.off + len ≤ last) :
    Does last i vol files (tfCompareFilenameSegment entry piece) true vol files := by
  have hindex : entry.lastIndex = 2 := by
    unfold FatFileEntry.lastIndex
    rw [msdosAttributes_eq, hentry 11 (by decide)]
    rfl
  obtain ⟨stop, hle, hstart, hbefore, hstop⟩ := hends.exists_stop hlen.1
  have hequal : piece.caseEqual (fun k => entry.reformatted.getD k 0#8) (min 13 stop) 0 = true := by
    refine Path.caseEqual_iff.mpr fun j hj _ => ?_
    have hj : j < 13 := by omega
    rw [Nat.zero_add, reformatted_chainRecord hentry, List.getD_append _ _ _ _ (by simpa using hj),
      List.getD_eq_getElem _ _ (by simpa using hj), List.getElem_map, List.getElem_range]
  have hdoes := @does_segment i vol files last piece entry stop (by omega)
    (by rw [hindex]; exact hbefore) hstop (by omega) (by omega)
  rwa [hequal] at hdoes

/-- Every piece is that of the name, so that the last one is compared as well. -/
theorem not_emits_compareChain (hi : i.Fat32) (hc : i.IsCluster c) (hreach : i.Reach c 0 756)
    (hchain : i.HoldsChain vol c name) (hname : name.Ends len) (hlen : len < 256) {n : Nat}
    (hn : n < 21) {entry : FatFileEntry} (hs : ReadsAt i vol files fp c (36 * (n + 1)) s) :
    ¬ (compareChain fp (n + 1) (name.skip (13 * (20 - n))) entry).Emits
      (FsEvent.UpTo (name.off + len)) s := by
  induction n generalizing s entry with
  | zero =>
    intro h
    obtain ⟨entry', s', hentry, -, h⟩ := emits_compareChain hi hc hreach hchain hn hs h
    have hchar := emits_tfCompareFilenameSegment (Exec.emits_bind.mp h).1
    unfold FsEvent.UpTo Path.skip at hchar
    dsimp only at hchar
    omega
  | succ n ih =>
    intro h
    obtain ⟨entry', s', hentry, hs', h⟩ := emits_compareChain hi hc hreach hchain hn hs h
    have hchar := emits_tfCompareFilenameSegment (Exec.emits_bind.mp h).1
    have hindex : entry'.lastIndex = 2 := by
      unfold FatFileEntry.lastIndex
      rw [msdosAttributes_eq, hentry 11 (by decide)]
      rfl
    rw [hindex] at hchar
    have hchar : name.off + 13 * (20 - (n + 1)) + 2 ≤ name.off + len := hchar
    have hends := hname.skip (m := 13 * (20 - (n + 1))) (by omega)
    have hsegment := fun files' => @does_segment_chainRecord i vol files' _ _ entry' (name.off + len)
      hentry hends ⟨by omega, by unfold maxString; omega⟩
      (show name.off + 13 * (20 - (n + 1)) + (len - 13 * (20 - (n + 1))) ≤ name.off + len by omega)
    obtain ⟨s₁, hs₁, h⟩ := (readsAt_of_does hsegment).emits_bind hs' h
    rw [if_neg (not_not_intro rfl)] at h
    have hseek := @readsAt_fseekEntries i vol files fp c 0 (36 * (n + 1 + 1)) hi hc (-1)
      (36 * (n + 1)) (by decide) (by omega) (by omega) (by omega)
    obtain ⟨s₂, hs₂, h⟩ := hseek.emits_bind hs₁ h
    have hnext : (name.skip (13 * (20 - (n + 1)))).skip 13 = name.skip (13 * (20 - n)) := by
      unfold Path.skip
      rw [Nat.add_assoc]
      congr 1
      omega
    rw [hnext] at h
    exact ih (by omega) hs₂ h

/-- The lookup of a name reads behind its terminator. -/
theorem not_emits_tfFindFile (hi : i.Fat32) (hc : i.IsCluster c) (hreach : i.Reach c 0 756)
    (hdir : (files fp).Directory c) (hchain : i.HoldsChain vol c name) (hname : name.Ends len) (hlen : len < 256) {fuel : Nat}
    (hs : Shows i vol files s) :
    ¬ (tfFindFile (fuel + 1) fp name).Emits (FsEvent.UpTo (name.off + len)) s := by
  intro h
  unfold tfFindFile at h
  obtain ⟨s₁, hs₁, h⟩ := (@readsAt_begin _ _ _ fp c 0 hi hc hdir).emits_bind hs h
  unfold findFileLoop at h
  have h := (Exec.emits_bind.mp h).1
  unfold tfCompareFilename at h
  have h := (Exec.emits_bind.mp h).2 _ _ rfl
  have hread := @readsAt_freadEntry i vol files fp c 0 0 (s₁.locals 0) hi hc (by decide)
    (hi.reach_of_le (by decide))
  obtain ⟨s₂, hs₂, h⟩ := hread.emits_bind (hs₁.newLocal rfl) h
  have hentry : ∀ k < 36, i.entryAt vol c 0 (s₁.locals 0) k =
      chainRecord (name.skip 260).get k := fun k hk => hchain.entryAt (n := 0) (by decide) hk
  generalize i.entryAt vol c 0 (s₁.locals 0) = entry at *
  have hfirst : entry 0 = 21#8 := hentry 0 (by decide)
  have hattributes : entry.msdosAttributes = 0x0f#8 := by
    rw [msdosAttributes_eq]
    exact hentry 11 (by decide)
  have hcount : (entry.lfnSequenceNumber &&& ~~~0x40#8).toNat = 21 := by
    unfold FatFileEntry.lfnSequenceNumber
    rw [LfnMember.offsets.1, Bytes.word_one, hfirst]
    decide
  rw [if_neg (by rw [hfirst]; decide), if_neg (not_not_intro hattributes)] at h
  dsimp only at h
  rw [hcount] at h
  have hseek := @readsAt_fseekEntries i vol files fp c 0 (0 + 36) hi hc ((21 : Nat) - 1)
    (36 * (20 + 1)) (by decide) (by decide) (by decide) (by decide)
  obtain ⟨s₃, hs₃, h⟩ := hseek.emits_bind hs₂ h
  exact not_emits_compareChain hi hc hreach hchain hname hlen (n := 20) (by decide) hs₃
    (Exec.emits_bind.mp h).1

/-- So does a walk that has something to look up. -/
theorem not_emits_tfWalk (hi : i.Fat32) (hc : i.IsCluster c) (hreach : i.Reach c 0 756)
    (hdir : (files fp).Directory c) {p : Path} (hchain : i.HoldsChain vol c (if p.get 0 = slash then p.skip 1 else p))
    (hends : p.Ends len) (hlen : len < 256) (hroot : ¬ p.IsRoot) {fuel : Nat}
    (hs : Shows i vol files s) :
    ¬ (tfWalk (fuel + 1) p fp).Emits (FsEvent.UpTo (p.off + len)) s := by
  intro h
  have hname : ∃ len', (if p.get 0 = slash then p.skip 1 else p).Ends len' ∧
      (if p.get 0 = slash then p.skip 1 else p).off + len' = p.off + len ∧ len' ≤ len := by
    by_cases hslash : p.get 0 = slash
    · have hpos : 1 ≤ len := Nat.pos_of_ne_zero fun hzero =>
        absurd (hslash.symm.trans (hzero ▸ hends.1)) (by decide)
      rw [if_pos hslash]
      exact ⟨len - 1, hends.skip hpos, by unfold Path.skip; dsimp only; omega, Nat.sub_le _ _⟩
    · rw [if_neg hslash]
      exact ⟨len, hends, rfl, Nat.le_refl _⟩
  obtain ⟨len', hends', hoff, hle⟩ := hname
  unfold Path.IsRoot at hroot
  unfold tfWalk at h
  have h := (Exec.emits_bind.mp h).2 _ _ rfl
  have h := (Exec.emits_bind.mp h).2 _ _ rfl
  rw [if_neg hroot] at h
  have h := (Exec.emits_bind.mp h).1
  rw [← hoff] at h
  exact not_emits_tfFindFile hi hc hreach hdir hchain hends' (Nat.lt_of_le_of_lt hle hlen) hs h

end

/-! ## A volume -/

/-- The geometry of a volume with clusters of two sectors. -/
def wideInfo : TfInfo := { Fs.blank.info with sectorsPerCluster := 2#8 }

/-- A volume the root directory of which begins with the name. -/
def Fs.ofChain (name : Path) : Fs :=
  { Fs.blank with
    info := wideInfo
    disk := fun t k => name.chainByte (512 * (t.toNat - 1056) + k) }

theorem fat32_wideInfo : wideInfo.Fat32 :=
  ⟨by decide, by decide, by decide, by decide, by decide, by decide⟩

theorem isCluster_wideInfo : wideInfo.IsCluster 2#32 := ⟨by decide, by decide⟩

theorem reach_wideInfo {t n : Nat} : wideInfo.Reach 2#32 t n :=
  fat32_wideInfo.reach isCluster_wideInfo (by decide) (by decide)

section
variable {name : Path} {files : Handle → TfFile} {s : Fs}

theorem holding_ofChain : Holding wideInfo (Fs.ofChain name).disk Fs.blank.handles 0#32
    (fun _ => 0#8) (Fs.ofChain name) :=
  ⟨fun _ => rfl, rfl, Fs.cache_eq (by decide : flagged 0#8 tfFlagDirty = false), rfl⟩

theorem holdsChain_ofChain : wideInfo.HoldsChain (Fs.ofChain name).disk 2#32 name := by
  refine ⟨by decide, fun k hk => ?_⟩
  have hfirst : wideInfo.firstDataSector.toNat = 1056 := by decide
  have hsector : (wideInfo.sectorAt 2#32 k).toNat = 1056 + k / 512 := by
    have hsize : wideInfo.clusterSize = 1024 := by decide
    rw [(fat32_wideInfo.toNat_sectorAt isCluster_wideInfo (by omega)).1, hfirst]
    rfl
  have hindex : 512 * ((wideInfo.sectorAt 2#32 k).toNat - 1056) + k % 512 = k := by omega
  exact congrArg name.chainByte hindex

/-- What is in the buffer is not of the directory. -/
theorem Holding.shows_ofChain
    (h : Holding wideInfo (Fs.ofChain name).disk files 0#32 (fun _ => 0#8) s) :
    Shows wideInfo (Fs.ofChain name).disk files s := by
  have hclean : s.dirty = false := congrArg WriteBack.dirty h.cache
  have hsector : s.info.currentSector = 0#32 := congrArg WriteBack.key h.cache
  refine ⟨h.errorFree, h.geometry, fun hdirty => ?_, fun _ hdata => ?_, ?_, h.handles⟩
  · rw [hclean] at hdirty
    cases hdirty
  · rw [hsector] at hdata
    exact absurd hdata (by decide)
  · exact (if_neg (Bool.eq_false_iff.mp hclean)).trans (congrArg WriteBack.back h.cache)

/-- The name is not walked within its bounds. -/
theorem not_emits_walkPath {p : Path} {fp : Handle} {len last fuel steps : Nat}
    (hdir : (files fp).Directory 2#32) (hname : (if p.get 0 = slash then p.skip 1 else p) = name)
    (hends : p.Ends len) (hlen : len < 256) (hroot : ¬ p.IsRoot) (hlast : p.off + len = last)
    (hs : Holding wideInfo (Fs.ofChain name).disk files 0#32 (fun _ => 0#8) s) :
    ¬ (walkPath (fuel + 1) fp (steps + 1) p).Emits (FsEvent.UpTo last) s := by
  intro h
  rw [← hlast] at h
  unfold walkPath at h
  exact not_emits_tfWalk fat32_wideInfo isCluster_wideInfo reach_wideInfo hdir
    (hname ▸ holdsChain_ofChain) hends hlen hroot hs.shows_ofChain (Exec.emits_bind.mp h).1

end

section
variable {path : Path} {len fuel : Nat}

/-- A path with something to walk is read behind its terminator when it is opened. -/
theorem exists_not_emits_tfFopen (hends : path.Ends len) (hlen : len < 256) (hroot : ¬ path.IsRoot)
    (fuel : Nat) (mode : String) :
    ∃ s, ¬ (tfFopen (fuel + 1) path mode).Emits (FsEvent.UpTo len) s := by
  let copy : Path := ⟨Bytes.put (strncpy (fun _ => 0#8) path.get len) len 0#8, 0⟩
  have hcopy : ∀ k ≤ len, copy.get k = path.get k := fun k hk => get_copy_ends hends hk
  let name := if copy.get 0 = slash then copy.skip 1 else copy
  refine ⟨Fs.ofChain name, fun h => ?_⟩
  obtain ⟨es, hrun⟩ := run_strlen (s := Fs.ofChain name) hends (Nat.zero_le len)
    (show len < 0 + maxString from Nat.lt_trans hlen (by decide))
  unfold tfFopen at h
  have h := (Exec.emits_bind.mp h).2 _ _ (congrArg Prod.snd hrun)
  have h := (Exec.emits_bind.mp h).1
  unfold tfFnopen at h
  have hget : tfGetFreeHandle.Returns (Fs.ofChain name) (some firstHandle)
      ((Fs.ofChain name).setFile firstHandle
        { Fs.blank.handles firstHandle with flags := tfFlagOpen }) := by
    have hfree : firstFree (Fs.ofChain name).handles = some firstHandle := by
      have hblank : firstFree Fs.blank.handles = some firstHandle := by decide
      exact hblank
    unfold firstFree at hfree
    unfold tfGetFreeHandle
    rw [Exec.returns_read_bind, hfree]
    rfl
  have h := (Exec.emits_bind.mp h).2 _ _ hget
  have h := (Exec.emits_bind.mp h).2 _ _ rfl
  dsimp only at h
  rw [if_neg (show ¬ tfMaxPath ≤ len from Nat.not_le.mpr hlen)] at h
  have h := (Exec.emits_bind.mp h).2 _ _ rfl
  have h := (Exec.emits_bind.mp h).2 _ _ rfl
  have h := (Exec.emits_bind.mp h).1
  have hends' : copy.Ends len :=
    ⟨(hcopy len (Nat.le_refl len)).trans hends.1, fun k hk =>
      (hcopy k (Nat.le_of_lt hk)).symm ▸ hends.2 k hk⟩
  have hroot' : ¬ copy.IsRoot := by
    have hfirst := hcopy 0 (Nat.zero_le len)
    unfold Path.IsRoot at hroot ⊢
    rw [hfirst]
    split at hroot
    · next hslash =>
      have hpos : 1 ≤ len := Nat.pos_of_ne_zero fun hzero =>
        absurd (hslash.symm.trans (hzero ▸ hends.1)) (by decide)
      rw [if_pos hslash]
      exact (hcopy 1 hpos).symm ▸ hroot
    · next hother =>
      rw [if_neg hother, hfirst]
      exact hroot
  refine absurd h (not_emits_walkPath (p := copy) ⟨rfl, rfl, rfl⟩ rfl hends' hlen hroot'
    (Nat.zero_add len) ⟨fun _ => rfl, rfl, Fs.cache_eq ?_, rfl⟩)
  exact (by decide : flagged 0#8 tfFlagDirty = false)

end

end Mavmm.Hostfs
