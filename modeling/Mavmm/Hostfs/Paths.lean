import Mavmm.Hostfs.FileHandles
import Mavmm.Hostfs.Removal

/-!
# Walking along a path

Where every lookup on the way finds the record of its component, a walk leads
to the handle of the last one, and a walk along the path up to its last
separator to the directory with that record.
-/

namespace Mavmm.Hostfs

/-! ## Records and lookups -/

/-- The bytes of a directory from a position on. -/
def TfInfo.recordAt (i : TfInfo) (vol : Disk) (d : BitVec 32) (q : Nat) : FatFileEntry := fun k =>
  i.byteAt vol d (q + k)

/-- The first cluster of the file. -/
def FatFileEntry.startCluster (e : FatFileEntry) : BitVec 32 :=
  e.msdosEaIndex ++ e.msdosFirstCluster

/-- A handle that was walked to a record. -/
structure TfFile.AtRecord (f : TfFile) (e : FatFileEntry) : Prop where
  startCluster : f.startCluster = e.startCluster
  currentCluster : f.currentCluster = e.startCluster
  pos : f.pos = 0#32
  currentByte : f.currentByte = 0#16
  flags : f.flags = tfFlagOpen
  attributes : f.attributes = e.msdosAttributes
  size : f.size = if flagged e.msdosAttributes tfAttrDirectory then 0xffffffff#32
    else e.msdosFileSize

/-- A lookup of the component with `m` characters that returns has found the record at `q`,
whatever is behind the character that ends the component. -/
def TfInfo.Finds (i : TfInfo) (vol : Disk) (d : BitVec 32) (name : Path) (m q : Nat) : Prop :=
  ∀ (p : Path), (∀ k ≤ m, p.get k = name.get k) →
    ∀ (files : Handle → TfFile) (fp : Handle) (s : Fs) (fuel : Nat) (rc : Int) (s' : Fs),
      (files fp).Directory d → Shows i vol files s → (tfFindFile fuel fp p).Returns s rc s' →
        rc = 0 ∧ ReadsAt i vol files fp d q s'

/-- The driver comes to all bytes of a record. -/
structure TfInfo.IsRecord (i : TfInfo) (d : BitVec 32) (q : Nat) : Prop where
  fits : q + 36 ≤ i.clusterSize
  reach : i.Reach d q 36

theorem Path.get_skip_zero {p : Path} {a : Nat} : (p.skip a).get 0 = p.get a := rfl

/-- Where a component begins: behind a separator, if there is one. -/
def Path.begin (p : Path) (a : Nat) : Nat := if p.get a = slash then a + 1 else a

section
variable {i : TfInfo} {vol : Disk} {files : Handle → TfFile} {fp : Handle} {d d' : BitVec 32}
  {name p : Path} {b m q fuel : Nat} {s s' : Fs}

/-- What an entry that was read at a record has in its members. -/
theorem TfInfo.entryAt_record (hq : q + 36 ≤ i.clusterSize) {entry : FatFileEntry} :
    ∀ k < 36, i.entryAt vol d q entry k = i.recordAt vol d q k := fun _ hk =>
  TfInfo.entryAt_eq hq hk

theorem FatFileEntry.members_congr {e e' : FatFileEntry} (h : ∀ k < 36, e k = e' k) :
    e.startCluster = e'.startCluster ∧ e.msdosAttributes = e'.msdosAttributes ∧
      e.msdosFileSize = e'.msdosFileSize := by
  have hword : ∀ {n off : Nat}, off + n ≤ 36 → Bytes.word e n off = Bytes.word e' n off :=
    fun hle => Bytes.word_congr fun j hj => h _ (by omega)
  refine ⟨?_, hword (by decide), hword (by decide)⟩
  unfold FatFileEntry.startCluster FatFileEntry.msdosEaIndex FatFileEntry.msdosFirstCluster
  rw [hword (by decide), hword (by decide)]

/-- A step of a walk to a record that is found. -/
theorem returns_tfWalk_found {rest : Option Path} (hi : i.Fat32) (hd : i.IsCluster d)
    (hdir : (files fp).Directory d) (hs : Shows i vol files s) (hm : 0 < m)
    (hchars : ∀ k < m, p.get (p.begin 0 + k) ≠ slash ∧ p.get (p.begin 0 + k) ≠ 0#8)
    (hend : p.get (p.begin 0 + m) = slash ∨ p.get (p.begin 0 + m) = 0#8)
    (hfinds : i.Finds vol d name m q) (hname : ∀ k ≤ m, p.get (p.begin 0 + k) = name.get k)
    (hq : i.IsRecord d q) (h : (tfWalk fuel p fp).Returns s rest s') :
    ∃ g, Shows i vol (WriteBack.set files fp g) s' ∧ g.AtRecord (i.recordAt vol d q) ∧
      rest = if p.get (p.begin (p.begin 0 + m)) = 0#8 then none
        else some (p.skip (p.begin (p.begin 0 + m))) := by
  have hbegin : (if p.get 0 = slash then p.skip 1 else p) = p.skip (p.begin 0) := by
    unfold Path.begin
    split
    · rfl
    · rfl
  generalize p.begin 0 = b at *
  unfold tfWalk at h
  rw [returns_charAt_bind] at h
  dsimp only at h
  rw [hbegin, returns_charAt_bind, Path.get_skip] at h
  have hfirst := (hchars 0 hm).2
  rw [if_neg hfirst] at h
  obtain ⟨rc, t, hfind, h⟩ := Exec.returns_bind.mp h
  obtain ⟨rfl, ht⟩ := hfinds (p.skip b) (fun k hk => by rw [Path.get_skip, hname k hk]) files fp s
    fuel rc t hdir hs hfind
  rw [if_neg (not_not_intro rfl)] at h
  obtain ⟨v, t₁, hlocal, h⟩ := Exec.returns_bind.mp h
  have hsize := i.clusterSize_lt
  have hfits := hq.fits
  obtain ⟨t₂, ht₂, h⟩ := (@readsAt_freadEntry i vol files fp d 0 q v hi hd (by omega)
    hq.reach).returns_bind (ht.newLocal hlocal) h
  have hmembers := FatFileEntry.members_congr (@TfInfo.entryAt_record i vol d q hfits v)
  generalize i.entryAt vol d q v = entry at *
  obtain ⟨stop, t₃, hscan, h⟩ := Exec.returns_bind.mp h
  have ht₃ : ReadsAt i vol files fp d (q + 36) t₃ := Exec.Keeps.keeps ht₂ hscan
  have hstop : stop = m := by
    obtain ⟨-, -, hbefore, hstop⟩ := returns_componentEnd hscan
    rcases Nat.lt_trichotomy stop m with hlt | heq | hlt
    · rw [Path.get_skip] at hstop
      exact absurd (hchars stop hlt) hstop
    · exact heq
    · have hgo := hbefore m (Nat.zero_le m) hlt
      rw [Path.get_skip] at hgo
      exact absurd hend (fun hor => hor.elim hgo.1 hgo.2)
  subst hstop
  rw [returns_charAt_bind, Path.skip_skip, Path.get_skip_zero] at h
  have hnext : (if p.get (b + stop) = slash then (p.skip (b + stop)).skip 1
      else p.skip (b + stop)) = p.skip (p.begin (b + stop)) := by
    unfold Path.begin
    split
    · exact Path.skip_skip
    · rfl
  rw [hnext] at h
  obtain ⟨_, t₄, hset, h⟩ := Exec.returns_bind.mp h
  rw [returns_charAt_bind, Path.get_skip_zero] at h
  obtain ⟨g, -, -, hshows⟩ := ht₃
  have ht₄ := (does_returns (does_modifyFile _) hshows hset).2
  rw [WriteBack.set_self, WriteBack.set_set] at ht₄
  obtain ⟨hstart, hattributes, hfileSize⟩ := hmembers
  have hrecord : ∀ {g' : TfFile}, g'.startCluster = entry.msdosEaIndex ++ entry.msdosFirstCluster →
      g'.currentCluster = entry.msdosEaIndex ++ entry.msdosFirstCluster → g'.pos = 0#32 →
      g'.currentByte = 0#16 → g'.flags = tfFlagOpen → g'.attributes = entry.msdosAttributes →
      g'.size = (if flagged entry.msdosAttributes tfAttrDirectory then 0xffffffff#32
        else entry.msdosFileSize) → g'.AtRecord (i.recordAt vol d q) := by
    intro g' h₁ h₂ h₃ h₄ h₅ h₆ h₇
    rw [hattributes, hfileSize] at h₇
    exact ⟨h₁.trans hstart, h₂.trans hstart, h₃, h₄, h₅, h₆.trans hattributes, h₇⟩
  split at h
  · next hzero =>
    obtain ⟨rfl, rfl⟩ := Exec.returns_pure.mp h
    exact ⟨_, ht₄, hrecord rfl rfl rfl rfl rfl rfl rfl, (if_pos hzero).symm⟩
  · next hne =>
    obtain ⟨rfl, rfl⟩ := Exec.returns_pure.mp h
    exact ⟨_, ht₄, hrecord rfl rfl rfl rfl rfl rfl rfl, (if_neg hne).symm⟩

end

/-! ## Walks -/

/-- From the directory `d` and the index `a` of the path on, a walk comes to the directory `d'` and
the index `a'`. -/
inductive TfInfo.Walks (i : TfInfo) (vol : Disk) (path : Path) :
    BitVec 32 → Nat → BitVec 32 → Nat → Prop
  | here {d : BitVec 32} {a : Nat} : Walks i vol path d a d a
  | step {d d' : BitVec 32} {a m q a' : Nat} : 0 < m →
      (∀ k < m, path.get (path.begin a + k) ≠ slash ∧ path.get (path.begin a + k) ≠ 0#8) →
      (path.get (path.begin a + m) = slash ∨ path.get (path.begin a + m) = 0#8) →
      i.Finds vol d (path.skip (path.begin a)) m q → i.IsRecord d q →
      flagged (i.recordAt vol d q).msdosAttributes tfAttrDirectory = true →
      i.IsCluster (i.recordAt vol d q).startCluster →
      Walks i vol path (i.recordAt vol d q).startCluster (path.begin (path.begin a + m)) d' a' →
      Walks i vol path d a d' a'

section
variable {i : TfInfo} {vol : Disk} {files : Handle → TfFile} {fp : Handle} {d d' : BitVec 32}
  {path p : Path} {a a' len m n q fuel steps : Nat} {found : Bool} {s s' : Fs}

theorem Path.begin_skip {b : Nat} : a + (p.skip a).begin b = p.begin (a + b) := by
  unfold Path.begin
  rw [Path.get_skip]
  split
  · rfl
  · rfl

theorem Path.le_begin : a ≤ p.begin a ∧ p.begin a ≤ a + 1 := by
  unfold Path.begin
  split <;> omega

theorem slash_ne_zero : slash ≠ 0#8 := by decide

theorem Path.Ends.begin_le (hends : path.Ends len) (ha : a ≤ len) : path.begin a ≤ len := by
  unfold Path.begin
  split
  · next hsep =>
    rcases Nat.lt_or_eq_of_le ha with hlt | rfl
    · exact hlt
    · exact absurd (hsep.symm.trans hends.1) slash_ne_zero
  · exact ha

/-- A component ends within the path, or with it. -/
theorem Path.Ends.component_le (hends : path.Ends len) (ha : a ≤ len)
    (hchars : ∀ k < m, path.get (path.begin a + k) ≠ slash ∧ path.get (path.begin a + k) ≠ 0#8) :
    path.begin a + m ≤ len := by
  have hle := hends.begin_le ha
  apply Nat.le_of_not_lt
  intro hlt
  have hne := (hchars (len - path.begin a) (by omega)).2
  rw [Nat.add_sub_cancel' hle] at hne
  exact hne hends.1

/-- The copy of a path has the same components. -/
theorem Path.begin_congr (hp : ∀ k ≤ len, p.get k = path.get k) (ha : a ≤ len) :
    p.begin a = path.begin a := by
  unfold Path.begin
  rw [hp a ha]

/-- A handle that was walked to the record of a directory. -/
theorem TfFile.AtRecord.directory {f : TfFile} {e : FatFileEntry} (h : f.AtRecord e)
    (hdir : flagged e.msdosAttributes tfAttrDirectory = true) : f.Directory e.startCluster := by
  refine ⟨h.startCluster, h.currentCluster, ?_⟩
  rw [h.size, if_pos hdir]

theorem flags_ne_of_open {flags : BitVec 8} (h : flags = tfFlagOpen) : ¬ flags = 0xff#8 := by
  rw [h]
  decide

theorem TfInfo.Walks.le (h : i.Walks vol path d a d' a') : a ≤ a' := by
  induction h with
  | here => exact Nat.le_refl _
  | @step d d' a m q a' hm hchars hstop hfinds hq hattr hcluster hrest ih =>
    have hbegin := @Path.le_begin path a
    have hnext := @Path.le_begin path (path.begin a + m)
    omega

/-- At the end of the path there is no component. -/
theorem TfInfo.Walks.eq_of_end (h : i.Walks vol path d a d' a') (hends : path.Ends a) : d = d' := by
  cases h with
  | here => rfl
  | @step _ _ _ m q _ hm hchars _ _ _ _ _ _ =>
    have hle := hends.component_le (Nat.le_refl a) hchars
    have hbegin := @Path.le_begin path a
    omega

/-- A step of a walk along a copy of the path: the handle is that of the directory, and the rest of
the path begins behind the component. -/
theorem returns_tfWalk_directory {rest : Option Path} (hi : i.Fat32) (hends : path.Ends len)
    (hp : ∀ k ≤ len, p.get k = path.get k) (ha : a ≤ len) (hd : i.IsCluster d)
    (hdir : (files fp).Directory d) (hs : Shows i vol files s) (hm : 0 < m)
    (hchars : ∀ k < m, path.get (path.begin a + k) ≠ slash ∧ path.get (path.begin a + k) ≠ 0#8)
    (hstop : path.get (path.begin a + m) = slash ∨ path.get (path.begin a + m) = 0#8)
    (hfinds : i.Finds vol d (path.skip (path.begin a)) m q) (hq : i.IsRecord d q)
    (h : (tfWalk fuel (p.skip a) fp).Returns s rest s') :
    ∃ g, Shows i vol (WriteBack.set files fp g) s' ∧ g.AtRecord (i.recordAt vol d q) ∧
      rest = if path.get (path.begin (path.begin a + m)) = 0#8 then none
        else some (p.skip (path.begin (path.begin a + m))) := by
  have hle := hends.component_le ha hchars
  have hbegin := Path.begin_congr hp ha
  have hget : ∀ k ≤ m, (p.skip a).get ((p.skip a).begin 0 + k) = path.get (path.begin a + k) := by
    intro k hk
    rw [Path.get_skip, ← Nat.add_assoc, Path.begin_skip, Nat.add_zero, hbegin, hp _ (by omega)]
  obtain ⟨g, hs', hg, hrest⟩ := returns_tfWalk_found hi hd hdir hs hm
    (fun k hk => by rw [hget k (Nat.le_of_lt hk)]; exact hchars k hk)
    (by rw [hget m (Nat.le_refl m)]; exact hstop) hfinds
    (fun k hk => by rw [hget k hk, Path.get_skip]) hq h
  refine ⟨g, hs', hg, ?_⟩
  have hplace : a + (p.skip a).begin ((p.skip a).begin 0 + m) = path.begin (path.begin a + m) := by
    rw [Path.begin_skip, ← Nat.add_assoc, Path.begin_skip, Nat.add_zero, hbegin,
      Path.begin_congr hp hle]
  rw [hrest, Path.get_skip, Path.skip_skip, hplace, hp _ (hends.begin_le hle)]

/-- The walk is at the last component behind the directories. -/
theorem returns_walkPath_directories (hi : i.Fat32) (hends : path.Ends len)
    (hp : ∀ k ≤ len, p.get k = path.get k) (hwalks : i.Walks vol path d a d' a') :
    ∀ {steps : Nat} {files : Handle → TfFile} {s : Fs}, a' < len → i.IsCluster d →
      (files fp).Directory d → Shows i vol files s →
      (walkPath fuel fp steps (p.skip a)).Returns s found s' →
      ∃ steps' s₁ g, Shows i vol (WriteBack.set files fp g) s₁ ∧ g.Directory d' ∧ i.IsCluster d' ∧
        (walkPath fuel fp steps' (p.skip a')).Returns s₁ found s' := by
  induction hwalks with
  | here =>
    intro steps files s _ hd hdir hs h
    refine ⟨steps, s, files fp, ?_, hdir, hd, h⟩
    rwa [WriteBack.set_eq rfl]
  | @step d d' a m q a' hm hchars hstop hfinds hq hattr hcluster hrest ih =>
    intro steps files s ha' hd hdir hs h
    have hle := hrest.le
    have hbegin := @Path.le_begin path a
    have hnext := @Path.le_begin path (path.begin a + m)
    cases steps with
    | zero => cases h
    | succ steps =>
      unfold walkPath at h
      obtain ⟨rest, t, hstep, h⟩ := Exec.returns_bind.mp h
      obtain ⟨g, ht, hg, rfl⟩ := returns_tfWalk_directory hi hends hp (by omega) hd hdir hs hm hchars
        hstop hfinds hq hstep
      have hopen := flags_ne_of_open hg.flags
      have h := Exec.returns_read_bind.mp h
      rw [ht.handles, WriteBack.set_self, if_neg hopen, if_neg (hends.2 _ (by omega))] at h
      have hdir' := hg.directory hattr
      obtain ⟨steps', s₁, g', hs₁, hg', hd', h⟩ := @ih steps (WriteBack.set files fp g) t ha'
        hcluster (by rw [WriteBack.set_self]; exact hdir') ht h
      rw [WriteBack.set_set] at hs₁
      exact ⟨steps', s₁, g', hs₁, hg', hd', h⟩

/-- A walk along a path of directories. -/
theorem returns_walkPath_whole (hi : i.Fat32) (hends : path.Ends len)
    (hp : ∀ k ≤ len, p.get k = path.get k) (hwalks : i.Walks vol path d a d' a') :
    ∀ {steps : Nat} {files : Handle → TfFile} {s : Fs}, a ≤ len → path.begin a' = len →
      i.IsCluster d → (files fp).Directory d →
      flagged (files fp).attributes tfAttrDirectory = true → (files fp).flags ≠ 0xff#8 →
      Shows i vol files s → (walkPath fuel fp steps (p.skip a)).Returns s found s' →
      found = true ∧ ∃ g, Shows i vol (WriteBack.set files fp g) s' ∧ g.Directory d' ∧
        flagged g.attributes tfAttrDirectory = true := by
  induction hwalks with
  | @here d a =>
    intro steps files s ha hend _ hdir hattr hopen hs h
    cases steps with
    | zero => cases h
    | succ steps =>
      unfold walkPath at h
      obtain ⟨rest, t, hstep, h⟩ := Exec.returns_bind.mp h
      have hbegin : (if p.get a = slash then (p.skip a).skip 1 else p.skip a) = p.skip len := by
        rw [← hend, ← Path.begin_congr hp ha]
        unfold Path.begin
        split
        · exact Path.skip_skip
        · rfl
      unfold tfWalk at hstep
      rw [returns_charAt_bind, Path.get_skip_zero] at hstep
      dsimp only at hstep
      rw [hbegin, returns_charAt_bind, Path.get_skip_zero, hp len (Nat.le_refl len), hends.1,
        if_pos rfl] at hstep
      obtain ⟨rfl, rfl⟩ := Exec.returns_pure.mp hstep
      have h := Exec.returns_read_bind.mp h
      rw [hs.handles, if_neg hopen] at h
      obtain ⟨rfl, rfl⟩ := Exec.returns_pure.mp h
      refine ⟨rfl, files fp, ?_, hdir, hattr⟩
      rwa [WriteBack.set_eq rfl]
  | @step d d' a m q a' hm hchars hstop hfinds hq hattr hcluster hrest ih =>
    intro steps files s ha hend hd hdir _ _ hs h
    have hle := hends.begin_le (hends.component_le ha hchars)
    cases steps with
    | zero => cases h
    | succ steps =>
      unfold walkPath at h
      obtain ⟨rest, t, hstep, h⟩ := Exec.returns_bind.mp h
      obtain ⟨g, ht, hg, rfl⟩ := returns_tfWalk_directory hi hends hp ha hd hdir hs hm hchars hstop
        hfinds hq hstep
      have hopen := flags_ne_of_open hg.flags
      have hdir' := hg.directory hattr
      have hattr' : flagged g.attributes tfAttrDirectory = true := by rw [hg.attributes, hattr]
      have h := Exec.returns_read_bind.mp h
      rw [ht.handles, WriteBack.set_self, if_neg hopen] at h
      by_cases hdone : path.get (path.begin (path.begin a + m)) = 0#8
      · rw [if_pos hdone] at h
        obtain ⟨rfl, rfl⟩ := Exec.returns_pure.mp h
        rcases Nat.lt_or_eq_of_le hle with hlt | heq
        · exact absurd hdone (hends.2 _ hlt)
        · rw [heq] at hrest
          rw [hrest.eq_of_end hends] at hdir'
          exact ⟨rfl, g, ht, hdir', hattr'⟩
      · rw [if_neg hdone] at h
        obtain ⟨hfound, g', hs', hg', hattr''⟩ := @ih steps (WriteBack.set files fp g) t hle hend
          hcluster (by rw [WriteBack.set_self]; exact hdir') (by rw [WriteBack.set_self]; exact hattr')
          (by rw [WriteBack.set_self]; exact hopen) ht h
        rw [WriteBack.set_set] at hs'
        exact ⟨hfound, g', hs', hg', hattr''⟩

theorem TfInfo.Walks.isCluster (h : i.Walks vol path d a d' a') (hd : i.IsCluster d) :
    i.IsCluster d' := by
  induction h with
  | here => exact hd
  | step _ _ _ _ _ _ hcluster _ ih => exact ih hcluster

end

/-- The path up to the index, as the directory of a file is looked up. -/
def Path.cut (p : Path) (n : Nat) : Path where
  bytes := fun k => if k < p.off + n then p.bytes k else 0#8
  off := p.off

theorem Path.get_cut {p : Path} {n k : Nat} : (p.cut n).get k = if k < n then p.get k else 0#8 := by
  have hlt : p.off + k < p.off + n ↔ k < n := Nat.add_lt_add_iff_left
  unfold Path.cut Path.get
  exact if_congr hlt rfl rfl

/-- The path leads to the record at `q` of the directory `d`; its last separator is at `n`. -/
structure TfInfo.Locates (i : TfInfo) (vol : Disk) (path : Path) (len n : Nat) (d : BitVec 32)
    (q : Nat) : Prop where
  ends : path.Ends len
  root : i.IsCluster 2#32
  separator : path.get n = slash
  leaf : n + 1 < len ∧ ∀ k, n < k → k < len → path.get k ≠ slash
  walks : ∃ a, i.Walks vol path 2#32 0 d a ∧ path.begin a = n + 1
  finds : i.Finds vol d (path.skip (n + 1)) (len - (n + 1)) q
  record : i.IsRecord d q

/-- So does the path up to its last separator lead to the directory. -/
structure TfInfo.Resolves (i : TfInfo) (vol : Disk) (path : Path) (len n : Nat) (d : BitVec 32)
    (q : Nat) : Prop extends i.Locates vol path len n d q where
  parent : ∃ a, i.Walks vol (path.cut n) 2#32 0 d a ∧ (path.cut n).begin a = n

/-! ## Opening -/

/-- What `tf_fnopen` does after the walk. -/
def openEnd (fp : Handle) (mode : String) (n : Nat) (myfile : Nat → Byte) : FsM (Option Handle) := do
  Exec.when (strchr mode 'r') (modifyFile fp fun f => { f with mode := f.mode ||| tfModeRead })
  Exec.when (strchr mode 'a') do
    let _ ← tfUnsafeFseek fp (← file fp).size 0
    modifyFile fp fun f => { f with mode := f.mode ||| (tfModeWrite ||| tfModeOverwrite) }
  Exec.when (strchr mode '+')
    (modifyFile fp fun f => { f with mode := f.mode ||| (tfModeOverwrite ||| tfModeWrite) })
  Exec.when (strchr mode 'w') (modifyFile fp fun f => { f with mode := f.mode ||| tfModeWrite })
  modifyFile fp fun f => { f with
    filename := Bytes.put (strncpy f.filename myfile n) n 0#8 }
  return some fp

section
variable {i : TfInfo} {vol : Disk} {files : Handle → TfFile} {fp : Handle} {d : BitVec 32}
  {path : Path} {len n q fuel last : Nat} {mode : String} {myfile : Nat → Byte} {s s' : Fs}

/-- The handle that a mode to append leads to. -/
def TfFile.appended (f : TfFile) (clusterSize : Nat) (mode : String) : TfFile :=
  if strchr mode 'a' then f.sought clusterSize f.size.toNat else f

theorem TfFile.sought_mode {f : TfFile} {clusterSize p : Nat} {r : BitVec 8} :
    ({ f with mode := r } : TfFile).sought clusterSize p =
      { f.sought clusterSize p with mode := r } := by
  unfold sought atByte inCluster grown
  dsimp only
  split
  · split <;> rfl
  · split <;> rfl

theorem TfFile.appended_filename {f : TfFile} {clusterSize : Nat} :
    (f.appended clusterSize mode).filename = f.filename := by
  unfold appended
  split
  · exact filename_sought
  · rfl

theorem does_openEnd (hi : i.Fat32) (happend : strchr mode 'a' = true →
      i.IsCluster (files fp).startCluster ∧ (files fp).size.toNat < 2 ^ 31) :
    ∃ m, Does last i vol files (openEnd fp mode n myfile) (some fp) vol (WriteBack.set files fp
      { (files fp).appended i.clusterSize mode with
        mode := m, filename := Bytes.put (strncpy (files fp).filename myfile n) n 0#8 }) := by
  have hseek : ∀ r : BitVec 8, ∃ r', Does last i vol
      (WriteBack.set files fp { files fp with mode := r })
      (Exec.when (strchr mode 'a') do
        let _ ← tfUnsafeFseek fp (← file fp).size 0
        modifyFile fp fun f => { f with mode := f.mode ||| (tfModeWrite ||| tfModeOverwrite) }) ()
      vol (WriteBack.set files fp
        { (files fp).appended i.clusterSize mode with mode := r' }) := by
    intro r
    unfold Exec.when TfFile.appended
    cases ha : strchr mode 'a' with
    | false =>
      rw [if_neg Bool.false_ne_true, if_neg Bool.false_ne_true]
      exact ⟨r, does_pure⟩
    | true =>
      obtain ⟨hc, hlt⟩ := happend ha
      rw [if_pos rfl, if_pos rfl]
      have hsum : (files fp).size.toInt + 0 = ((files fp).size.toNat : Int) := by
        rw [Int.add_zero, BitVec.toInt_eq_toNat_of_lt (by omega)]
      have hmove := @does_tfUnsafeFseek i vol (WriteBack.set files fp { files fp with mode := r })
        fp last hi (by rw [WriteBack.set_self]; exact hc) (files fp).size 0 _ hsum
        (by rw [WriteBack.set_self])
      rw [WriteBack.set_self, WriteBack.set_set, TfFile.sought_mode] at hmove
      refine ⟨r ||| (tfModeWrite ||| tfModeOverwrite), does_file_bind ?_⟩
      rw [WriteBack.set_self]
      refine hmove.bind ?_
      have hmode := @does_modifyFile i vol (WriteBack.set files fp
        { (files fp).sought i.clusterSize (files fp).size.toNat with mode := r }) fp last
        fun f => { f with mode := f.mode ||| (tfModeWrite ||| tfModeOverwrite) }
      rw [WriteBack.set_self, WriteBack.set_set] at hmode
      exact hmode
  have hname := @TfFile.appended_filename mode (files fp) i.clusterSize
  obtain ⟨r, hseek⟩ := hseek (if strchr mode 'r' = true then (files fp).mode ||| tfModeRead
    else (files fp).mode)
  generalize (files fp).appended i.clusterSize mode = g at *
  let plus := if strchr mode '+' = true then r ||| (tfModeOverwrite ||| tfModeWrite) else r
  refine ⟨if strchr mode 'w' = true then plus ||| tfModeWrite else plus, ?_⟩
  unfold openEnd
  refine does_setMode.bind (hseek.bind (does_setMode.bind (does_setMode.bind ?_)))
  refine (does_modifyFile _).bind ?_
  simp only [WriteBack.set_self, WriteBack.set_set, hname]
  exact does_pure

/-- A handle is taken that was not open. -/
theorem free_of_tfGetFreeHandle (hs : Shows i vol files s)
    (h : tfGetFreeHandle.Returns s (some fp) s') : flagged (files fp).flags tfFlagOpen = false := by
  unfold tfGetFreeHandle at h
  rw [Exec.returns_read_bind] at h
  split at h
  · cases h
  · next fp' hfind =>
    obtain ⟨_, t, -, hreturn⟩ := Exec.returns_bind.mp h
    obtain ⟨heq, -⟩ := Exec.returns_pure.mp hreturn
    cases heq
    have hfree := @List.find?_some _
      (fun h => decide ¬ flagged (s.handles h).flags tfFlagOpen = true) _ _ hfind
    rw [hs.handles] at hfree
    exact Bool.eq_false_iff.mpr (of_decide_eq_true hfree)

/-- A path is walked, and then the handle is set up. -/
theorem returns_tfFnopen_walked {r : Option Handle} (hs : Shows i vol files s)
    (h : (tfFnopen fuel path mode n).Returns s r s') :
    ∃ fp g v s₁ found s₂, flagged (files fp).flags tfFlagOpen = false ∧ g.Root ∧
      Shows i vol (WriteBack.set files fp g) s₁ ∧
      (walkPath fuel fp fuel ⟨Bytes.put (strncpy v path.get n) n 0#8, 0⟩).Returns s₁ found s₂ ∧
      (found = true →
        (openEnd fp mode n (Bytes.put (strncpy v path.get n) n 0#8)).Returns s₂ r s') := by
  unfold tfFnopen at h
  obtain ⟨handle, t, hfree, h⟩ := Exec.returns_bind.mp h
  obtain ⟨v, t₁, hv, h⟩ := Exec.returns_bind.mp h
  dsimp only at h
  split at h
  · cases h
  · cases handle with
    | none => cases h
    | some fp =>
      have ht := returns_tfGetFreeHandle hs hfree
      have ht₁ : Shows i vol (WriteBack.set files fp { files fp with flags := tfFlagOpen }) t₁ := by
        cases hv
        exact ht.newLocal
      obtain ⟨_, t₂, hderef, h⟩ := Exec.returns_bind.mp h
      cases hderef
      obtain ⟨_, s₁, hroot, h⟩ := Exec.returns_bind.mp h
      obtain ⟨found, s₂, hwalk, h⟩ := Exec.returns_bind.mp h
      have hs₁ := (does_returns (does_modifyFile _) ht₁ hroot).2
      rw [WriteBack.set_self, WriteBack.set_set] at hs₁
      refine ⟨fp, _, v, s₁, found, s₂, free_of_tfGetFreeHandle hs hfree, ⟨⟨rfl, rfl, rfl⟩, rfl, rfl⟩,
        hs₁, hwalk, ?_⟩
      rintro rfl
      rw [if_neg (not_not_intro rfl)] at h
      exact h

/-- A handle for the file of a record. -/
structure TfFile.Opened (f : TfFile) (clusterSize : Nat) (e : FatFileEntry) (mode : String)
    (path : Path) (len : Nat) : Prop where
  handle : ∃ g : TfFile, g.AtRecord e ∧ ∃ m name, f = { g.appended clusterSize mode with
    mode := m, filename := name }
  filename : ∀ k ≤ len, f.filename k = path.get k

/-- The copy of a path that is kept in a handle. -/
theorem copied_filename {v w : Nat → Byte} (hends : path.Ends n) {k : Nat} (hk : k ≤ n) :
    Bytes.put (strncpy w (Bytes.put (strncpy v path.get n) n 0#8) n) n 0#8 k = path.get k := by
  have hcopy : ∀ j ≤ n, (Bytes.put (strncpy v path.get n) n 0#8) j = path.get j := by
    intro j hj
    rw [← @get_copy_ends path n v hends j hj, Path.get]
    dsimp only
    rw [Nat.zero_add]
  have hends' : (⟨Bytes.put (strncpy v path.get n) n 0#8, 0⟩ : Path).Ends n := by
    refine ⟨?_, fun j hj => ?_⟩
    · rw [get_copy_ends hends (Nat.le_refl n), hends.1]
    · rw [get_copy_ends hends (Nat.le_of_lt hj)]
      exact hends.2 j hj
  have hget := @get_copy_ends _ n w hends' k hk
  rw [get_copy_ends hends hk] at hget
  rw [← hget]
  unfold Path.get
  simp only [Nat.zero_add]

/-- A path that leads to a record is opened with a handle for it. -/
theorem returns_tfFnopen_file {r : Option Handle} (hi : i.Fat32)
    (hpath : i.Locates vol path len n d q)
    (happend : strchr mode 'a' = true → i.IsCluster (i.recordAt vol d q).startCluster ∧
      flagged (i.recordAt vol d q).msdosAttributes tfAttrDirectory = false ∧
      (i.recordAt vol d q).msdosFileSize.toNat < 2 ^ 31)
    (hs : Shows i vol files s) (h : (tfFnopen fuel path mode len).Returns s r s') :
    ∃ fp f, r = some fp ∧ flagged (files fp).flags tfFlagOpen = false ∧
      Shows i vol (WriteBack.set files fp f) s' ∧
      f.Opened i.clusterSize (i.recordAt vol d q) mode path len := by
  obtain ⟨a, hwalks, hbegin⟩ := hpath.walks
  have hleaf := hpath.leaf.1
  have hlow := @Path.le_begin path a
  have hd := hwalks.isCluster hpath.root
  obtain ⟨fp, g, v, s₁, found, s₂, hfree, hroot, hs₁, hwalk, hopen⟩ :=
    returns_tfFnopen_walked hs h
  have hcopy := fun k hk => @get_copy_ends path len v hpath.ends k hk
  have hname := fun w k hk => @copied_filename path len v w hpath.ends k hk
  generalize hmyfile : Bytes.put (strncpy v path.get len) len 0#8 = myfile at *
  obtain ⟨steps, s₃, g₁, hs₃, hdir, -, hwalk⟩ := returns_walkPath_directories (p := ⟨myfile, 0⟩) hi
    hpath.ends hcopy hwalks (by omega) hpath.root
    (by rw [WriteBack.set_self]; exact hroot.directory) hs₁ hwalk
  rw [WriteBack.set_set] at hs₃
  cases steps with
  | zero => cases hwalk
  | succ steps =>
    unfold walkPath at hwalk
    obtain ⟨rest, t, hstep, hwalk⟩ := Exec.returns_bind.mp hwalk
    have hbegin' : (⟨myfile, 0⟩ : Path).begin a = n + 1 := by
      unfold Path.begin
      rw [hcopy a (by omega)]
      exact hbegin
    have hget : ∀ k, (Path.skip ⟨myfile, 0⟩ a).get ((Path.skip ⟨myfile, 0⟩ a).begin 0 + k) =
        (⟨myfile, 0⟩ : Path).get (n + 1 + k) := by
      intro k
      rw [Path.get_skip, ← Nat.add_assoc, Path.begin_skip, Nat.add_zero, hbegin']
    have hlast : (⟨myfile, 0⟩ : Path).get (n + 1 + (len - (n + 1))) = 0#8 := by
      rw [Nat.add_sub_cancel' (Nat.le_of_lt hleaf), hcopy len (Nat.le_refl len)]
      exact hpath.ends.1
    obtain ⟨g₂, ht, hg₂, rfl⟩ := @returns_tfWalk_found i vol (WriteBack.set files fp g₁) fp d
      (path.skip (n + 1)) _ (len - (n + 1)) q fuel s₃ t rest hi hd
      (by rw [WriteBack.set_self]; exact hdir) hs₃ (by omega)
      (fun k hk => by
        rw [hget, hcopy _ (by omega)]
        exact ⟨hpath.leaf.2 _ (by omega) (by omega), hpath.ends.2 _ (by omega)⟩)
      (Or.inr ((hget _).trans hlast)) hpath.finds
      (fun k hk => by rw [hget, hcopy _ (by omega), Path.get_skip]) hpath.record hstep
    rw [WriteBack.set_set] at ht
    have hend : (Path.skip ⟨myfile, 0⟩ a).get ((Path.skip ⟨myfile, 0⟩ a).begin
        ((Path.skip ⟨myfile, 0⟩ a).begin 0 + (len - (n + 1)))) = 0#8 := by
      rw [Path.get_skip, Path.begin_skip, ← Nat.add_assoc, Path.begin_skip, Nat.add_zero, hbegin',
        Path.begin, hlast, if_neg slash_ne_zero.symm, hlast]
    have hwalk := Exec.returns_read_bind.mp hwalk
    rw [ht.handles, WriteBack.set_self, if_neg (flags_ne_of_open hg₂.flags), if_pos hend] at hwalk
    obtain ⟨rfl, rfl⟩ := Exec.returns_pure.mp hwalk
    obtain ⟨m, hdoes⟩ := @does_openEnd i vol (WriteBack.set files fp g₂) fp len 0 mode myfile hi
      (fun ha => by
        obtain ⟨hc, hfile, hlt⟩ := happend ha
        rw [WriteBack.set_self, hg₂.startCluster, hg₂.size, if_neg (Bool.eq_false_iff.mp hfile)]
        exact ⟨hc, hlt⟩)
    rw [WriteBack.set_self, WriteBack.set_set] at hdoes
    obtain ⟨rfl, hs'⟩ := does_returns hdoes ht (hopen rfl)
    exact ⟨fp, _, rfl, hfree, hs', ⟨g₂, hg₂, m, _, rfl⟩, fun k hk => hname _ k hk⟩

/-- The handles that were open are what they were. -/
def SameOpen (files files' : Handle → TfFile) : Prop :=
  ∀ g, flagged (files g).flags tfFlagOpen = true → files' g = files g

/-- `tf_fopen` opens such a path twice, and returns the second handle. -/
theorem returns_tfFopen_file {r : Option Handle} (hi : i.Fat32)
    (hpath : i.Locates vol path len n d q)
    (happend : strchr mode 'a' = true → i.IsCluster (i.recordAt vol d q).startCluster ∧
      flagged (i.recordAt vol d q).msdosAttributes tfAttrDirectory = false ∧
      (i.recordAt vol d q).msdosFileSize.toNat < 2 ^ 31)
    (hs : Shows i vol files s) (h : (tfFopen fuel path mode).Returns s r s') :
    ∃ fp files' f, r = some fp ∧ SameOpen files (WriteBack.set files' fp f) ∧
      Shows i vol (WriteBack.set files' fp f) s' ∧
      f.Opened i.clusterSize (i.recordAt vol d q) mode path len := by
  have hsame : ∀ {files : Handle → TfFile} {fp f}, flagged (files fp).flags tfFlagOpen = false →
      SameOpen files (WriteBack.set files fp f) := by
    intro files fp f hfree g hg
    refine WriteBack.set_ne ?_
    rintro rfl
    exact absurd (hfree.symm.trans hg) Bool.false_ne_true
  unfold tfFopen at h
  obtain ⟨m, t, hlen, h⟩ := Exec.returns_bind.mp h
  have ht : Shows i vol files t := Exec.Keeps.keeps hs hlen
  cases (Path.Ends.of_strlen hlen).unique hpath.ends
  obtain ⟨r₁, t₁, hfirst, h⟩ := Exec.returns_bind.mp h
  obtain ⟨fp₁, f₁, rfl, hfree₁, ht₁, -⟩ := returns_tfFnopen_file hi hpath happend ht hfirst
  obtain ⟨_, t₂, hwhen, h⟩ := Exec.returns_bind.mp h
  rw [Exec.returns_when, if_neg fun h => absurd h.1 (Option.some_ne_none _)] at hwhen
  subst hwhen
  obtain ⟨fp, f, rfl, hfree, hs', hopened⟩ := returns_tfFnopen_file hi hpath happend ht₁ h
  refine ⟨fp, _, f, rfl, fun g hg => ?_, hs', hopened⟩
  have hg₁ := @hsame files fp₁ f₁ hfree₁ g hg
  rw [hsame hfree g (by rw [hg₁]; exact hg), hg₁]

/-- The directory of a path that leads to a record is opened. -/
theorem returns_tfFnopen_parent {r : Option Handle} {p : Path} (hi : i.Fat32)
    (hpath : i.Resolves vol path len n d q) (hp : ∀ k < n, p.get k = path.get k)
    (ha : strchr mode 'a' = false) (hs : Shows i vol files s)
    (h : (tfFnopen fuel p mode n).Returns s r s') :
    ∃ fp f, r = some fp ∧ flagged (files fp).flags tfFlagOpen = false ∧
      Shows i vol (WriteBack.set files fp f) s' ∧ f.Directory d ∧
      flagged f.attributes tfAttrDirectory = true := by
  obtain ⟨a, hwalks, hbegin⟩ := hpath.parent
  have hleaf := hpath.leaf.1
  obtain ⟨fp, g, v, s₁, found, s₂, hfree, hroot, hs₁, hwalk, hopen⟩ :=
    returns_tfFnopen_walked hs h
  have hends : (path.cut n).Ends n := by
    refine ⟨by rw [Path.get_cut, if_neg (Nat.lt_irrefl n)], fun k hk => ?_⟩
    rw [Path.get_cut, if_pos hk]
    exact hpath.ends.2 k (by omega)
  have hcopy : ∀ k ≤ n, (⟨Bytes.put (strncpy v p.get n) n 0#8, 0⟩ : Path).get k =
      (path.cut n).get k := by
    intro k hk
    rw [get_copy, Path.get_cut]
    rcases Nat.lt_or_eq_of_le hk with hlt | rfl
    · have hall : ((List.range k).all fun j => p.get j ≠ 0#8) = true := by
        rw [List.all_eq_true]
        intro j hj
        have hj := List.mem_range.mp hj
        rw [hp j (by omega)]
        exact decide_eq_true (hpath.ends.2 j (by omega))
      unfold strncpy
      rw [if_neg (Nat.ne_of_lt hlt), if_pos hlt, if_pos hlt, if_pos hall, hp k hlt]
    · rw [if_pos rfl, if_neg (Nat.lt_irrefl k)]
  generalize hmyfile : Bytes.put (strncpy v p.get n) n 0#8 = myfile at *
  have hroot' : ¬ g.flags = 0xff#8 := by
    rw [hroot.flags]
    decide
  obtain ⟨rfl, g', hs₂, hdir, hattr⟩ := returns_walkPath_whole (a := 0) hi hends hcopy hwalks
    (Nat.zero_le n) hbegin hpath.root
    (by rw [WriteBack.set_self]; exact hroot.directory)
    (by rw [WriteBack.set_self, hroot.attributes]; decide)
    (by rw [WriteBack.set_self]; exact hroot') hs₁ hwalk
  rw [WriteBack.set_set] at hs₂
  obtain ⟨m, hdoes⟩ := @does_openEnd i vol (WriteBack.set files fp g') fp n 0 mode myfile hi
    (fun happend => absurd (ha.symm.trans happend) Bool.false_ne_true)
  rw [WriteBack.set_self, WriteBack.set_set] at hdoes
  obtain ⟨rfl, hs'⟩ := does_returns hdoes hs₂ (hopen rfl)
  have hsame : g'.appended i.clusterSize mode = g' := by
    unfold TfFile.appended
    rw [if_neg (Bool.eq_false_iff.mp ha)]
  rw [hsame] at hs'
  exact ⟨fp, _, rfl, hfree, hs', ⟨hdir.startCluster, hdir.currentCluster, hdir.size⟩, hattr⟩

end

/-! ## The only file of the root directory -/

section
variable {i : TfInfo} {vol : Disk} {d : BitVec 32} {path name : Path} {len m stop : Nat} {f : DirFile}

/-- The last component of a path is found, if it is the name of the only file. -/
theorem finds_first (hi : i.Fat32) (hd : i.IsCluster d) (hshort : f.longName = none)
    (hfiles : i.Holds vol d (directoryBytes [f])) (hname : name.Ends m) (hstop : name.StopsAt stop)
    (hmatch : name.matches f.entry.bytes stop = true) : i.Finds vol d name m 0 := by
  intro p hp files fp s fuel rc s' hdir hs h
  obtain ⟨stop', -, hstop', hfound⟩ := returns_tfFindFile hi hd hdir hshort hfiles hs h
  rwa [Path.matches_congr hname hp hstop hstop' hmatch, if_pos rfl] at hfound

theorem resolves_first (hi : i.Fat32) (hroot : i.IsCluster 2#32) (hshort : f.longName = none)
    (hfiles : i.Holds vol 2#32 (directoryBytes [f])) (hpath : path.InRoot len)
    (hstop : (path.skip 1).StopsAt stop)
    (hmatch : (path.skip 1).matches f.entry.bytes stop = true) :
    i.Resolves vol path len 0 2#32 0 := by
  have hsize := hi.clusterSize_ge
  have hempty : (path.cut 0).get 0 = 0#8 := by rw [Path.get_cut, if_neg (Nat.lt_irrefl 0)]
  exact
    { ends := hpath.ends
      root := hroot
      separator := hpath.root
      leaf := ⟨hpath.leaf.1, hpath.leaf.2⟩
      walks := ⟨0, .here, by rw [Path.begin, if_pos hpath.root]⟩
      finds := finds_first hi hroot hshort hfiles hpath.ends_leaf hstop hmatch
      record := ⟨by omega, hi.reach_of_le (by decide)⟩
      parent := ⟨0, .here, by rw [Path.begin, hempty, if_neg slash_ne_zero.symm]⟩ }

end

end Mavmm.Hostfs
