import Mavmm.Hostfs.Paths
import Mavmm.Hostfs.RootScan
import Mavmm.Hostfs.ShortNames

/-!
# Opening the root directory

A path that has nothing to be walked leads to the root directory, through the
first handle that is free, without a look at the volume.
-/

namespace Mavmm.Hostfs

section
variable {α β : Type} {i : TfInfo} {disk : Disk} {files : Handle → TfFile} {u : BitVec 32}
  {b : Sector} {fp : Handle} {s s' : Fs} {r : β} {J : Fs → Prop} {fuel n : Nat} {p : Path}
  {mode : String}

theorem leads_charAt {p : Path} {k : Nat} : Gets i disk files u b (p.charAt k) (p.get k) files u b :=
  fun s h => ⟨_, s, rfl, h, fun _ _ => trivial⟩

theorem gets_newLocal_bind {f : (Nat → Byte) → FsM β}
    (hf : ∀ v, (f v).Leads (fun _ => True) (Holding i disk files u b) r J) :
    (newLocal >>= f).Leads (fun _ => True) (Holding i disk files u b) r J := by
  intro s h
  exact hf (s.locals 0) { s with locals := fun n => s.locals (n + 1) }
    ⟨h.errorFree, h.geometry, h.cache, h.handles⟩

/-- The handle that is taken next. -/
def firstFree (files : Handle → TfFile) : Option Handle :=
  (List.finRange tfFileHandles).find? fun h => ¬ flagged (files h).flags tfFlagOpen

theorem firstFree_isSome {h : Handle} (hfree : flagged (files h).flags tfFlagOpen = false) :
    ∃ fp, firstFree files = some fp := by
  cases hfind : firstFree files with
  | some fp => exact ⟨fp, rfl⟩
  | none =>
    have hnone := List.find?_eq_none.mp hfind h (List.mem_finRange h)
    exact absurd (decide_eq_true (ne_true_of_eq_false hfree)) hnone

theorem firstFree_free (h : firstFree files = some fp) :
    flagged (files fp).flags tfFlagOpen = false :=
  Bool.eq_false_iff.mpr (of_decide_eq_true (@List.find?_some _
    (fun h => decide ¬ flagged (files h).flags tfFlagOpen = true) _ _ h))

theorem leads_tfGetFreeHandle {r : Option Handle} (hr : (match firstFree files with
      | none => (pure none : FsM (Option Handle))
      | some h => do
        modifyFile h fun f => { f with flags := tfFlagOpen }
        return some h).Leads (fun _ => True) (Holding i disk files u b) r J) :
    tfGetFreeHandle.Leads (fun _ => True) (Holding i disk files u b) r J := by
  intro s h
  have hr := hr s h
  rw [← h.handles] at hr
  exact hr

theorem gets_tfGetFreeHandle (hfree : firstFree files = some fp) :
    Gets i disk files u b tfGetFreeHandle (some fp)
      (WriteBack.set files fp { files fp with flags := tfFlagOpen }) u b := by
  apply leads_tfGetFreeHandle
  rw [hfree]
  exact (gets_modifyFile _).bind gets_pure

theorem gets_noFreeHandle (hfree : firstFree files = none) :
    Gets i disk files u b tfGetFreeHandle none files u b := by
  apply leads_tfGetFreeHandle
  rw [hfree]
  exact gets_pure

/-- The handle that `tf_fnopen` returns for the root directory. -/
def RootOpened (i : TfInfo) (disk : Disk) (files : Handle → TfFile) (u : BitVec 32) (b : Sector)
    (fp : Handle) (s : Fs) : Prop :=
  ∃ f : TfFile, f.Scans i.clusterSize 0 ∧ f.flags = tfFlagOpen ||| tfFlagRoot ∧
    Holding i disk (WriteBack.set files fp f) u b s

/-- There is nothing to be walked. -/
def Path.IsRoot (p : Path) : Prop := (if p.get 0 = slash then p.skip 1 else p).get 0 = 0#8

/-- What the copy of the path `/` is. -/
theorem isRoot_copy (hends : p.Ends 1) (hslash : p.get 0 = slash) (v : Nat → Byte) :
    Path.IsRoot ⟨Bytes.put (strncpy v p.get 1) 1 0#8, 0⟩ := by
  unfold Path.IsRoot
  rw [get_copy_ends hends (Nat.zero_le 1), if_pos hslash]
  rfl

theorem gets_walkPath_root {steps : Nat} (hroot : p.IsRoot)
    (hflags : (files fp).flags ≠ 0xff#8) :
    Gets i disk files u b (walkPath fuel fp (steps + 1) p) true files u b := by
  have hwalk : Gets i disk files u b (tfWalk fuel p fp) none files u b := by
    unfold Path.IsRoot at hroot
    unfold tfWalk
    refine leads_charAt.bind (leads_charAt.bind ?_)
    rw [if_pos hroot]
    exact gets_pure
  unfold walkPath
  refine hwalk.bind (gets_file_bind ?_)
  rw [if_neg hflags]
  exact gets_pure

theorem gets_setMode {c : Prop} [Decidable c] {m : BitVec 8} :
    Gets i disk files u b (Exec.when c (modifyFile fp fun f => { f with mode := f.mode ||| m })) ()
      (WriteBack.set files fp { files fp with
        mode := if c then (files fp).mode ||| m else (files fp).mode }) u b := by
  unfold Exec.when
  split
  · exact gets_modifyFile _
  · rw [WriteBack.set_eq rfl]
    exact gets_pure

theorem gets_openEnd {g : TfFile} {myfile : Nat → Byte} (ha : strchr mode 'a' = false) :
    ∃ m, Gets i disk (WriteBack.set files fp g) u b (openEnd fp mode n myfile) (some fp)
      (WriteBack.set files fp { g with
        mode := m, filename := Bytes.put (strncpy g.filename myfile n) n 0#8 }) u b := by
  let read := if strchr mode 'r' = true then g.mode ||| tfModeRead else g.mode
  let plus := if strchr mode '+' = true then read ||| (tfModeOverwrite ||| tfModeWrite) else read
  refine ⟨if strchr mode 'w' = true then plus ||| tfModeWrite else plus, ?_⟩
  have happend : ∀ (files : Handle → TfFile) (x : FsM Unit), Gets i disk files u b
      (Exec.when (strchr mode 'a' = true) x) () files u b := by
    intro files x
    unfold Exec.when
    rw [if_neg (Bool.eq_false_iff.mp ha)]
    exact gets_pure
  unfold openEnd
  refine gets_setMode.bind ((happend _ _).bind (gets_setMode.bind (gets_setMode.bind ?_)))
  refine (gets_modifyFile _).bind ?_
  simp only [WriteBack.set_self, WriteBack.set_set]
  exact gets_pure

theorem leads_tfFnopen_root (hn : n < tfMaxPath) (ha : strchr mode 'a' = false)
    (hroot : ∀ v, Path.IsRoot ⟨Bytes.put (strncpy v p.get n) n 0#8, 0⟩)
    (hfree : firstFree files = some fp) :
    (tfFnopen (fuel + 1) p mode n).Leads (fun _ => True) (Holding i disk files u b) (some fp)
      (RootOpened i disk files u b fp) := by
  unfold tfFnopen
  refine (gets_tfGetFreeHandle hfree).bind (gets_newLocal_bind fun v => ?_)
  dsimp only
  rw [if_neg (Nat.not_le.mpr hn)]
  refine gets_pure.bind ((gets_modifyFile _).bind ((gets_walkPath_root (hroot v) ?_).bind ?_))
  · rw [WriteBack.set_self, WriteBack.set_self]
    exact (by decide : tfFlagOpen ||| tfFlagRoot ≠ 0xff#8)
  rw [if_neg (not_not_intro rfl)]
  simp only [WriteBack.set_self, WriteBack.set_set]
  obtain ⟨m, hend⟩ := gets_openEnd ha
  intro s hs
  obtain ⟨es, s', hrun, hs', hes⟩ := hend s hs
  refine ⟨es, s', hrun, ⟨_, ?_, ?_, hs'⟩, hes⟩
  · exact ⟨rfl, rfl, rfl, rfl, by rw [Nat.zero_mod], (Nat.zero_div _).symm⟩
  · rfl

/-- It does not return without a handle for the directory. -/
theorem entered_tfFnopen {r : Option Handle}
    (hs : Holding i disk files u b s) (h : (tfFnopen fuel p mode n).Returns s r s') :
    (∃ m, fuel = m + 1) ∧ ∃ fp, firstFree files = some fp := by
  unfold tfFnopen at h
  cases hfree : firstFree files with
  | none =>
    obtain ⟨t, -, h⟩ := (gets_noFreeHandle hfree).returns_bind hs h
    obtain ⟨v, t', -, h⟩ := Exec.returns_bind.mp h
    dsimp only at h
    split at h
    · cases h
    · cases h
  | some fp =>
    refine ⟨?_, fp, rfl⟩
    obtain ⟨t, -, h⟩ := (gets_tfGetFreeHandle hfree).returns_bind hs h
    obtain ⟨v, t', -, h⟩ := Exec.returns_bind.mp h
    dsimp only at h
    split at h
    · cases h
    · cases fuel with
      | succ m => exact ⟨m, rfl⟩
      | zero =>
        obtain ⟨_, t₁, hderef, h⟩ := Exec.returns_bind.mp h
        obtain ⟨_, t₂, -, h⟩ := Exec.returns_bind.mp h
        obtain ⟨_, t₃, hwalk, -⟩ := Exec.returns_bind.mp h
        cases hwalk

theorem ends_rootPath : rootPath.Ends 1 := by
  refine ⟨rfl, fun k hk => ?_⟩
  rw [Nat.lt_one_iff.mp hk]
  decide

theorem gets_strlen (hends : p.Ends n) (hn : n < maxString) :
    Gets i disk files u b (strlen p maxString 0) n files u b := by
  intro s h
  obtain ⟨es, hrun⟩ := run_strlen (s := s) hends (Nat.zero_le n) (by omega : n < 0 + maxString)
  exact ⟨es, s, hrun, h, fun _ _ => trivial⟩

/-- Both handles for the root directory are taken. -/
theorem leads_tfFopen_root {fp' : Handle} (hends : p.Ends 1) (hslash : p.get 0 = slash)
    (hfree : firstFree files = some fp)
    (hfree' : ∀ f : TfFile, f.flags = tfFlagOpen ||| tfFlagRoot →
      firstFree (WriteBack.set files fp f) = some fp') :
    (tfFopen (fuel + 1) p "r").Leads (fun _ => True) (Holding i disk files u b) (some fp')
      fun s => ∃ f, RootOpened i disk (WriteBack.set files fp f) u b fp' s := by
  have hopen := fun {files : Handle → TfFile} {fp : Handle} => @leads_tfFnopen_root i disk files u b
    fp fuel 1 p "r" (by decide) (by decide) (isRoot_copy hends hslash)
  unfold tfFopen
  refine (gets_strlen hends (by decide)).bind ((hopen hfree).bind ?_)
  rintro s ⟨f, -, hflags, hs⟩
  unfold Exec.when
  rw [if_neg (show ¬ (some fp = none ∧ _) from fun h => nomatch h.1)]
  obtain ⟨es, s', hrun, hs', hes⟩ := gets_pure.bind (hopen (hfree' f hflags)) s hs
  exact ⟨es, s', hrun, ⟨f, hs'⟩, hes⟩

/-- Two handles are free. -/
def TwoFree (files : Handle → TfFile) : Prop :=
  ∃ h h', h ≠ h' ∧ flagged (files h).flags tfFlagOpen = false ∧
    flagged (files h').flags tfFlagOpen = false

theorem TwoFree.firstFree (h : TwoFree files) : ∃ fp, firstFree files = some fp := by
  obtain ⟨h, -, -, hfree, -⟩ := h
  exact firstFree_isSome hfree

/-- Opened handles look alike to the search. -/
theorem firstFree_set {f g : TfFile} (hf : f.flags = g.flags) :
    firstFree (WriteBack.set files fp f) = firstFree (WriteBack.set files fp g) := by
  have hflags : ∀ h, (WriteBack.set files fp f h).flags = (WriteBack.set files fp g h).flags := by
    intro h
    unfold WriteBack.set
    split
    · exact hf
    · rfl
  unfold Hostfs.firstFree
  simp only [hflags]

/-- The handle is behind the one that was taken first. -/
theorem TwoFree.next (h : TwoFree files) (fp : Handle) (f : TfFile) :
    ∃ fp', Hostfs.firstFree (WriteBack.set files fp f) = some fp' := by
  obtain ⟨h, h', hne, hfree, hfree'⟩ := h
  by_cases heq : h = fp
  · refine firstFree_isSome (h := h') ?_
    rw [WriteBack.set_ne fun heq' => hne (heq.trans heq'.symm)]
    exact hfree'
  · refine firstFree_isSome (h := h) ?_
    rw [WriteBack.set_ne heq]
    exact hfree

theorem gets_tfFclose_clean {m : Nat} (hflags : flagged (files fp).flags tfFlagDirty = false) :
    Gets i disk files u b (tfFclose (m + 1) fp) 0#32 (WriteBack.set files fp
      { files fp with flags := (files fp).flags &&& ~~~tfFlagOpen }) u b := by
  unfold tfFclose fcloseWith tfFflush
  refine Exec.Leads.bind (gets_file_bind ?_) ((gets_modifyFile _).bind gets_pure)
  rw [if_pos (ne_true_of_eq_false hflags)]
  exact gets_pure

end

end Mavmm.Hostfs
