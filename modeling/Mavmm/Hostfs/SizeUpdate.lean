import Mavmm.Hostfs.Paths

/-!
# Bringing the size of a file up to date

A flush of a file that has changed its size looks up its record again, in the
directory of the path that the handle keeps, and writes the record back with
the new size.  A path that leads to the record is enough for that.
-/

namespace Mavmm.Hostfs

/-- In the record at `q` of the directory the size of the file is replaced. -/
structure TfInfo.Updates (i : TfInfo) (vol : Disk) (d : BitVec 32) (q : Nat) (size : BitVec 32)
    (vol' : Disk) : Prop where
  directory : ∀ k < i.clusterSize, i.byteAt vol' d k =
    if q ≤ k ∧ k < q + 36 then (i.recordAt vol d q).setMsdos .fileSize size (k - q)
    else i.byteAt vol d k
  frame : ∀ u, ¬ i.Covers d u → vol' u = vol u

section
variable {i : TfInfo} {vol : Disk} {files : Handle → TfFile} {fp : Handle} {d : BitVec 32}
  {path p : Path} {len n q fuel : Nat} {s s' : Fs}

theorem find?_reverse_range_eq {P : Nat → Bool} (hn : n < len) (hP : P n = true)
    (hlast : ∀ k, n < k → k < len → P k = false) :
    (List.range len).reverse.find? P = some n := by
  obtain ⟨r, rfl⟩ := Nat.exists_eq_add_of_le (Nat.succ_le_of_lt hn)
  have hnone : ((List.range r).map (n + 1 + ·)).reverse.find? P = none := by
    rw [List.find?_eq_none]
    intro k hk
    obtain ⟨j, hj, rfl⟩ := List.mem_map.mp (List.mem_reverse.mp hk)
    have hj := List.mem_range.mp hj
    rw [hlast _ (by omega) (by omega)]
    exact Bool.false_ne_true
  rw [List.range_add, List.reverse_append, List.find?_append, hnone, Option.none_or,
    List.range_succ, List.reverse_append, List.reverse_singleton, List.singleton_append,
    List.find?_cons_of_pos hP]

theorem returns_lastSlash_at (hends : p.Ends len) (hn : n < len) (hslash : p.get n = slash)
    (hlast : ∀ k, n < k → k < len → p.get k ≠ slash) {m : Nat}
    (h : (lastSlash p).Returns s m s') : m = n := by
  unfold lastSlash at h
  obtain ⟨r, t, hr, h⟩ := Exec.returns_bind.mp h
  unfold strrchr at hr
  obtain ⟨l, t', hlen, hr⟩ := Exec.returns_bind.mp hr
  obtain ⟨rfl, -⟩ := Exec.returns_pure.mp hr
  cases (Path.Ends.of_strlen hlen).unique hends
  have hfind := @find?_reverse_range_eq len n (fun k => p.get k = slash) hn (decide_eq_true hslash)
    fun k hlt hk => decide_eq_false (hlast k hlt hk)
  rw [hfind] at h
  exact (Exec.returns_pure.mp h).1.symm

/-! ## Writing the record -/

/-- The bytes of an entry that was read and changed. -/
theorem toBytes_setMsdos {e e' : FatFileEntry} (h : ∀ k < 36, e k = e' k) {f : MsdosMember}
    {v : BitVec (8 * f.size)} :
    FatFileEntry.toBytes (e.setMsdos f v) = FatFileEntry.toBytes (e'.setMsdos f v) := by
  unfold FatFileEntry.toBytes
  refine List.map_congr_left fun k hk => ?_
  rw [List.mem_range, sizeofFatFileEntry_eq] at hk
  unfold FatFileEntry.setMsdos Bytes.putWord
  split
  · rfl
  · exact h k hk

theorem getD_toBytes {e : FatFileEntry} {k : Nat} {v : Byte} :
    (FatFileEntry.toBytes e).getD k v = if k < 36 then e k else v := by
  unfold FatFileEntry.toBytes
  rw [sizeofFatFileEntry_eq]
  split
  · next hk =>
    rw [List.getD_eq_getElem _ _ (by rw [List.length_map, List.length_range]; exact hk),
      List.getElem_map, List.getElem_range]
  · next hk =>
    exact List.getD_eq_default _ _ (by rw [List.length_map, List.length_range]; omega)

/-- The record is written back with the size of the handle, less one. -/
theorem returns_updateSize (hi : i.Fat32) (hpath : i.Resolves vol path len n d q)
    (hopen : flagged (files fp).flags tfFlagOpen = true)
    (hname : ∀ k ≤ len, (files fp).filename k = path.get k) (hs : Shows i vol files s)
    (h : (updateSize fuel (tfFflush fuel) fp).Returns s () s') :
    ∃ vol' files', Shows i vol' files' s' ∧ SameOpen files files' ∧
      i.Updates vol d q ((files fp).size - 1#32) vol' := by
  have hsize := i.clusterSize_lt
  have hfits := hpath.record.fits
  have hreach := hpath.record.reach
  have hleaf := hpath.leaf.1
  obtain ⟨a, hwalks, -⟩ := hpath.walks
  have hd := hwalks.isCluster hpath.root
  have hget : ∀ k ≤ len, (⟨(files fp).filename, 0⟩ : Path).get k = path.get k := by
    intro k hk
    rw [← hname k hk, Path.get]
    dsimp only
    rw [Nat.zero_add]
  have hends : (⟨(files fp).filename, 0⟩ : Path).Ends len := by
    refine ⟨(hget len (Nat.le_refl len)).trans hpath.ends.1, fun k hk => ?_⟩
    rw [hget k (Nat.le_of_lt hk)]
    exact hpath.ends.2 k hk
  have hseparator := (hget n (by omega)).trans hpath.separator
  have hlast : ∀ k, n < k → k < len → (⟨(files fp).filename, 0⟩ : Path).get k ≠ slash := by
    intro k hn hk
    rw [hget k (Nat.le_of_lt hk)]
    exact hpath.leaf.2 k hn hk
  unfold updateSize at h
  obtain ⟨v, t₁, hlocal, h⟩ := Exec.returns_bind.mp h
  have ht₁ : Shows i vol files t₁ := by
    cases hlocal
    exact hs.newLocal
  have h := Exec.returns_read_bind.mp h
  rw [ht₁.handles] at h
  obtain ⟨parent, t₂, hparent, h⟩ := Exec.returns_bind.mp h
  unfold tfParent at hparent
  obtain ⟨m, t₃, hslash, hparent⟩ := Exec.returns_bind.mp hparent
  have ht₃ : Shows i vol files t₃ := Exec.Keeps.keeps ht₁ hslash
  obtain rfl := returns_lastSlash_at hends (by omega) hseparator hlast hslash
  obtain ⟨dir, f, rfl, hfree, ht₂, hdir, hattr⟩ := returns_tfFnopen_parent hi hpath
    (fun k hk => hget k (by omega)) (by decide) ht₃ hparent
  have hother : fp ≠ dir := by
    rintro rfl
    exact absurd (hfree.symm.trans hopen) Bool.false_ne_true
  have h := Exec.returns_read_bind.mp h
  rw [ht₂.handles, WriteBack.set_ne hother] at h
  obtain ⟨m', t₄, hslash', h⟩ := Exec.returns_bind.mp h
  have ht₄ : Shows i vol (WriteBack.set files dir f) t₄ := Exec.Keeps.keeps ht₂ hslash'
  obtain rfl := returns_lastSlash_at hends (by omega) hseparator hlast hslash'
  obtain ⟨_, _, hderef, h⟩ := Exec.returns_bind.mp h
  cases hderef
  obtain ⟨rc, t₅, hfind, h⟩ := Exec.returns_bind.mp h
  obtain ⟨-, ht₅⟩ := hpath.finds _ (fun k hk => by
      rw [Path.get_skip, Path.get_skip, hget _ (by omega)]) (WriteBack.set files dir f) dir t₄ fuel rc
    t₅ (by rw [WriteBack.set_self]; exact hdir) ht₄ hfind
  obtain ⟨t₆, ht₆, h⟩ := (@readsAt_freadEntry i vol _ dir d 0 q v hi hd (by omega)
    hreach).returns_bind ht₅ h
  have hentry := @TfInfo.entryAt_record i vol d q hfits v
  generalize i.entryAt vol d q v = entry at *
  obtain ⟨t₇, ht₇, h⟩ := (@readsAt_fseekEntries i vol _ dir d 0 (q + 36) hi hd (-1) q (by simp)
    (by omega) (by omega) (by omega)).returns_bind ht₆ h
  have h := Exec.returns_read_bind.mp h
  obtain ⟨g, hg, hgattr, hshows₇⟩ := ht₇
  rw [hshows₇.handles, WriteBack.set_ne hother, WriteBack.set_ne hother] at h
  have hbytes := @toBytes_setMsdos entry (i.recordAt vol d q) hentry .fileSize
    ((files fp).size - 1#32)
  dsimp only at h
  rw [hbytes] at h
  have hlength : (FatFileEntry.toBytes ((i.recordAt vol d q).setMsdos .fileSize
      ((files fp).size - 1#32))).length = 36 := by
    unfold FatFileEntry.toBytes
    rw [List.length_map, List.length_range, sizeofFatFileEntry_eq]
  obtain ⟨es, t₈, vol', hwrite, ht₈, hvol', hframe⟩ := @run_tfFwrite i vol _ dir d q t₇ hi hd
    (FatFileEntry.toBytes ((i.recordAt vol d q).setMsdos .fileSize ((files fp).size - 1#32)))
    (by omega) (by rwa [hlength]) ⟨g, hg, hgattr, hshows₇⟩
  obtain ⟨rc', t₉, hwrite', h⟩ := Exec.returns_bind.mp h
  obtain ⟨-, rfl⟩ := hwrite'.unique hwrite.returns
  obtain ⟨g', -, hgattr', hshows₈⟩ := ht₈
  obtain ⟨rc'', t₁₀, hclose, h⟩ := Exec.returns_bind.mp h
  obtain ⟨-, rfl⟩ := Exec.returns_pure.mp h
  obtain ⟨flags, hs'⟩ := @returns_tfFclose_flags i vol' _ dir fuel t₉ t₁₀ rc'' hshows₈ (Or.inr (by
    rw [WriteBack.set_self, hgattr', WriteBack.set_self]
    exact hattr)) hclose
  refine ⟨vol', _, hs', ?_, ?_, hframe⟩
  · intro other hflag
    have hne : other ≠ dir := by
      rintro rfl
      exact absurd (hfree.symm.trans hflag) Bool.false_ne_true
    rw [WriteBack.set_ne hne, WriteBack.set_ne hne, WriteBack.set_ne hne]
  · intro k hk
    rw [hvol' k hk, getD_toBytes]
    by_cases hle : q ≤ k
    · rw [if_pos hle]
      by_cases hlt : k < q + 36
      · rw [if_pos (by omega), if_pos ⟨hle, hlt⟩]
      · rw [if_neg (by omega), if_neg fun h => hlt h.2]
    · rw [if_neg hle, if_neg fun h => hle h.1]

/-! ## Flushing and closing -/

/-- A handle that was flushed. -/
def TfFile.cleaned (f : TfFile) : TfFile := { f with flags := f.flags &&& ~~~tfFlagDirty }

theorem TfFile.cleaned_eq {f : TfFile} (h : flagged f.flags tfFlagDirty = false) :
    f.cleaned = f := by
  have hzero : f.flags &&& tfFlagDirty = 0#8 := by
    unfold flagged at h
    exact Classical.byContradiction fun hne => absurd (decide_eq_true hne) (Bool.eq_false_iff.mp h)
  have hsame : f.flags &&& ~~~tfFlagDirty = f.flags := by
    apply BitVec.eq_of_getLsbD_eq
    intro k hk
    have hbit := congrArg (fun b => b.getLsbD k) hzero
    simp only [BitVec.getLsbD_and, BitVec.getLsbD_not, BitVec.getLsbD_zero] at hbit ⊢
    cases hflag : f.flags.getLsbD k with
    | false => rw [Bool.false_and]
    | true =>
      rw [hflag, Bool.true_and] at hbit
      rw [hbit, decide_eq_true hk]
      rfl
  unfold cleaned
  rw [hsame]

/-- What a flush leaves: the volume has the new size if the handle was dirty and its size had
changed, and otherwise it is the same. -/
structure Flushed (i : TfInfo) (vol : Disk) (files : Handle → TfFile) (fp : Handle) (d : BitVec 32)
    (q : Nat) (vol' : Disk) (files' : Handle → TfFile) : Prop where
  handle : files' fp = (files fp).cleaned
  others : ∀ g, g ≠ fp → flagged (files g).flags tfFlagOpen = true → files' g = files g
  volume : if flagged (files fp).flags tfFlagDirty ∧ flagged (files fp).flags tfFlagSizechanged then
    i.Updates vol d q ((files fp).size - 1#32) vol' else vol' = vol

theorem returns_tfFflush_file {rc : BitVec 32} (hi : i.Fat32)
    (hpath : flagged (files fp).flags tfFlagDirty = true →
      flagged (files fp).flags tfFlagSizechanged = true → i.Resolves vol path len n d q)
    (hopen : flagged (files fp).flags tfFlagOpen = true)
    (hfile : flagged (files fp).attributes tfAttrDirectory = false)
    (hname : ∀ k ≤ len, (files fp).filename k = path.get k) (hs : Shows i vol files s)
    (h : (tfFflush fuel fp).Returns s rc s') :
    rc = 0#32 ∧ ∃ vol' files', Shows i vol' files' s' ∧
      Flushed i vol files fp d q vol' files' := by
  cases hdirty : flagged (files fp).flags tfFlagDirty with
  | false =>
    cases fuel with
    | zero => cases h
    | succ fuel =>
      unfold tfFflush at h
      have h := Exec.returns_read_bind.mp h
      rw [hs.handles, hdirty, if_pos Bool.false_ne_true] at h
      obtain ⟨rfl, rfl⟩ := Exec.returns_pure.mp h
      refine ⟨rfl, vol, files, hs, (TfFile.cleaned_eq hdirty).symm, fun _ _ _ => rfl, ?_⟩
      rw [if_neg fun h => absurd (hdirty.symm.trans h.1) Bool.false_ne_true]
  | true =>
    cases fuel with
    | zero => cases h
    | succ fuel =>
      unfold tfFflush at h
      have h := Exec.returns_read_bind.mp h
      rw [hs.handles, hdirty, if_neg (not_not_intro rfl)] at h
      have hrest : ∃ t, Shows i vol files t ∧ (do
          if flagged (files fp).flags tfFlagSizechanged ∧
              ¬ flagged (files fp).attributes tfAttrDirectory then
            updateSize fuel (tfFflush fuel) fp
          modifyFile fp fun f => { f with flags := f.flags &&& ~~~tfFlagDirty }
          return 0#32).Returns t rc s' := by
        have h := Exec.returns_read_bind.mp h
        dsimp only at h
        split at h
        · next hdirty' =>
          obtain ⟨rc, t, hstore, h⟩ := Exec.returns_bind.mp h
          obtain ⟨-, rfl⟩ := (Exec.returns_of_run (run_tfStore hs.errorFree)).mp hstore
          exact ⟨_, hs.flushed hdirty', h⟩
        · exact ⟨s, hs, h⟩
      obtain ⟨t, ht, h⟩ := hrest
      cases hchanged : flagged (files fp).flags tfFlagSizechanged with
      | false =>
        rw [hchanged, if_neg fun h => absurd h.1 Bool.false_ne_true] at h
        obtain ⟨_, t', hmark, h⟩ := Exec.returns_bind.mp h
        obtain ⟨rfl, rfl⟩ := Exec.returns_pure.mp h
        have ht' := (does_returns (does_modifyFile _) ht hmark).2
        refine ⟨rfl, vol, _, ht', WriteBack.set_self, fun g hg _ => WriteBack.set_ne hg, ?_⟩
        rw [if_neg fun h => absurd (hchanged.symm.trans h.2) Bool.false_ne_true]
      | true =>
        rw [hchanged, hfile, if_pos ⟨rfl, Bool.false_ne_true⟩] at h
        obtain ⟨_, t₁, hupdate, h⟩ := Exec.returns_bind.mp h
        obtain ⟨vol', files', ht₁, hsame, hvol'⟩ := returns_updateSize hi (hpath hdirty hchanged)
          hopen hname ht hupdate
        obtain ⟨_, t', hmark, h⟩ := Exec.returns_bind.mp h
        obtain ⟨rfl, rfl⟩ := Exec.returns_pure.mp h
        have ht' := (does_returns (does_modifyFile _) ht₁ hmark).2
        rw [hsame fp hopen] at ht'
        refine ⟨rfl, vol', _, ht', WriteBack.set_self, fun g hg hflag => ?_, ?_⟩
        · rw [WriteBack.set_ne hg, hsame g hflag]
        · rw [if_pos ⟨hdirty, hchanged⟩]
          exact hvol'

end

end Mavmm.Hostfs
