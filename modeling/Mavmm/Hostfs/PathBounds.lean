import Mavmm.Hostfs.NameReads
import Mavmm.Hostfs.SizeUpdate

/-!
# Paths that are too long, and paths without a directory

`tf_fnopen` copies a path of any length into 256 bytes, and `tf_parent` uses
what `strrchr` returns as if there were always a separator.  What happens then
is not the driver's to say: it is a parameter here (`Undefined`), and a path is
handled well if no run depends on it (`Path.Defined`).  Even then a name is read
behind its terminator, on one volume or another (`not_inBounds`).
-/

namespace Mavmm.Hostfs

open Exec (Keeps Ends)

/-! ## What is defined -/

/-- The pointers that `tf_walk` comes to. -/
inductive Walks (p : Path) : Path → Prop
  | start : Walks p p
  | step {q rest : Path} {fuel : Nat} {fp : Handle} {s s' : Fs} :
      Walks p q → (tfWalk fuel q fp).Returns s (some rest) s' → Walks p rest

/-- No run depends on what is undefined, and no walk goes on behind the terminator of the copy of
the path. -/
structure Path.Defined (path : Path) : Prop where
  fopen : ∀ u fuel mode s, @tfFopen u fuel path mode s = @tfFopen .fails fuel path mode s
  create : ∀ u fuel s, @tfCreate u fuel path s = @tfCreate .fails fuel path s
  remove : ∀ u fuel s, @tfRemove u fuel path s = @tfRemove .fails fuel path s
  parent : ∀ u fuel mode s, @tfParent u fuel path mode s = @tfParent .fails fuel path mode s
  walk : ∀ {v : Nat → Byte} {n : Nat} {rest : Path},
    Walks ⟨Bytes.put (strncpy v path.get n) n 0#8, 0⟩ rest → rest.off ≤ n

/-- Moreover no name is read behind the terminator of the path. -/
structure Path.InBounds (path : Path) (len : Nat) : Prop extends path.Defined where
  fopenReads : ∀ fuel mode s, (tfFopen fuel path mode).Emits (FsEvent.UpTo (path.off + len)) s
  createReads : ∀ fuel s, (tfCreate fuel path).Emits (FsEvent.UpTo (path.off + len)) s
  removeReads : ∀ fuel s, (tfRemove fuel path).Emits (FsEvent.UpTo (path.off + len)) s
  parentReads : ∀ fuel mode s, (tfParent fuel path mode).Emits (FsEvent.UpTo (path.off + len)) s

section
variable {p path : Path} {fp dir : Handle} {fuel n len last : Nat} {mode : String}
  {O : Handle → Bool} {name : Nat → Byte} {attributes : BitVec 8} {s s' t : Fs}

/-! ## Separators -/

/-- The last separator in front of an index. -/
def Path.lastSlash? (p : Path) (len : Nat) : Option Nat :=
  (List.range len).reverse.find? fun k => p.get k = slash

/-- The number of separators in front of an index. -/
def Path.slashes (p : Path) (len : Nat) : Nat := (List.range len).countP fun k => p.get k = slash

theorem Path.slashes_succ : p.slashes (n + 1) = p.slashes n + if p.get n = slash then 1 else 0 := by
  unfold slashes
  rw [List.range_succ, List.countP_append, List.countP_singleton]
  simp only [decide_eq_true_eq]

/-- One separator less in front of the last one. -/
theorem Path.slashes_lastSlash (h : p.lastSlash? len = some last) :
    last < len ∧ p.get last = slash ∧ p.slashes len = p.slashes last + 1 := by
  induction len with
  | zero => cases h
  | succ len ih =>
    unfold lastSlash? at h
    rw [List.range_succ, List.reverse_append, List.reverse_singleton, List.singleton_append,
      List.find?_cons] at h
    rw [slashes_succ]
    split at h
    · next hslash =>
      cases h
      have hslash := of_decide_eq_true hslash
      rw [if_pos hslash]
      exact ⟨Nat.lt_succ_self _, hslash, rfl⟩
    · next hother =>
      obtain ⟨hlt, hslash, hcount⟩ := ih h
      rw [if_neg (of_decide_eq_false hother)]
      exact ⟨Nat.lt_succ_of_lt hlt, hslash, hcount⟩

theorem Path.lastSlash?_isSome (h : 0 < p.slashes len) : ∃ last, p.lastSlash? len = some last := by
  obtain ⟨k, hk, hslash⟩ := List.countP_pos_iff.mp h
  cases hlast : p.lastSlash? len with
  | some last => exact ⟨last, rfl⟩
  | none => exact absurd hslash (List.find?_eq_none.mp hlast k (List.mem_reverse.mpr hk))

theorem Path.slashes_congr {q : Path} (h : ∀ k < len, p.get k = q.get k) :
    p.slashes len = q.slashes len := by
  unfold slashes
  refine List.countP_congr fun k hk => ?_
  rw [h k (List.mem_range.mp hk)]

/-- The handles that are free. -/
def freeHandles (O : Handle → Bool) : Nat := (List.finRange tfFileHandles).countP fun h => ¬ O h

theorem freeHandles_set (hfree : O fp = false) :
    freeHandles (WriteBack.set O fp true) + 1 = freeHandles O := by
  have hperm := List.perm_cons_erase (List.mem_finRange fp)
  have hothers : ∀ h ∈ (List.finRange tfFileHandles).erase fp, h ≠ fp := fun h hmem =>
    ((List.nodup_finRange tfFileHandles).mem_erase_iff.mp hmem).1
  unfold freeHandles
  rw [hperm.countP_eq, hperm.countP_eq, List.countP_cons_of_neg (by simp [WriteBack.set_self]),
    List.countP_cons_of_pos (by simp [hfree])]
  congr 1
  refine List.countP_congr fun h hmem => ?_
  rw [WriteBack.set_ne (hothers h hmem)]

/-- A path with which no call depends on what is undefined, where so many handles are free: its
prefixes have separators of their own, down to the root directory or to the last handle. -/
structure Path.Handled (p : Path) (len free : Nat) : Prop where
  lt : len < tfMaxPath
  rooted : p.get 0 = slash ∧ 0 < len ∨ free < p.slashes len

theorem freeHandles_le : freeHandles O ≤ tfFileHandles := by
  have hle := List.countP_le_length (p := fun h => decide ¬ O h = true)
    (l := List.finRange tfFileHandles)
  rwa [List.length_finRange] at hle

theorem Path.Handled.slashes_pos {free : Nat} (h : p.Handled len free) : 0 < p.slashes len := by
  rcases h.rooted with ⟨hroot, hpos⟩ | hmany
  · exact List.countP_pos_iff.mpr ⟨0, List.mem_range.mpr hpos, decide_eq_true hroot⟩
  · omega

/-- What is in front of the last separator. -/
theorem Path.Handled.parent {q : Path} {free : Nat} (h : p.Handled len (free + 1))
    (hlast : p.lastSlash? len = some last) (hq : ∀ k < last, p.get k = q.get k) (hpos : 0 < last) :
    q.Handled last free := by
  obtain ⟨hlt, -, hcount⟩ := slashes_lastSlash hlast
  refine ⟨Nat.lt_trans hlt h.lt, ?_⟩
  rcases h.rooted with ⟨hroot, -⟩ | hmany
  · exact Or.inl ⟨(hq 0 hpos).symm.trans hroot, hpos⟩
  · right
    rw [← slashes_congr hq]
    omega

theorem Path.Handled.congr {q : Path} {free : Nat} (h : p.Handled len free)
    (hq : ∀ k < len, p.get k = q.get k) : q.Handled len free := by
  refine ⟨h.lt, h.rooted.imp (fun hroot => ⟨(hq 0 hroot.2).symm.trans hroot.1, hroot.2⟩) ?_⟩
  intro hmany
  rw [← slashes_congr hq]
  exact hmany

theorem Path.Handled.mono {free free' : Nat} (h : p.Handled len free) (hle : free' ≤ free) :
    p.Handled len free' :=
  ⟨h.lt, h.rooted.imp id fun hmany => Nat.lt_of_le_of_lt hle hmany⟩

theorem run_lastSlash (hends : p.Ends len) (hlen : len < maxString)
    (hlast : p.lastSlash? len = some last) :
    ∃ es, ∀ u, @lastSlash u p s = (es, .ok (last, s)) := by
  obtain ⟨es, hrun⟩ := run_strlen (s := s) hends (Nat.zero_le len)
    (show len < 0 + maxString by omega)
  have hfind : ∃ es, strrchr p slash s = (es, .ok (some last, s)) := by
    unfold strrchr
    rw [Exec.run_bind_log hrun, ← hlast]
    exact ⟨_, rfl⟩
  obtain ⟨es', hfind⟩ := hfind
  refine ⟨es' ++ [], fun u => ?_⟩
  unfold lastSlash
  rw [Exec.run_bind_log hfind]
  rfl

theorem lastSlash_eq (u : Undefined) (hends : p.Ends len) (h : 0 < p.slashes len)
    (hlen : len < maxString) : @lastSlash u p = @lastSlash .fails p := by
  obtain ⟨last, hlast⟩ := Path.lastSlash?_isSome h
  funext s
  obtain ⟨es, hrun⟩ := run_lastSlash (s := s) hends hlen hlast
  rw [hrun u, hrun .fails]

theorem tfMaxPath_lt : tfMaxPath < maxString := by decide

theorem tfFnopen_eq (u : Undefined) (h : n < tfMaxPath) :
    @tfFnopen u fuel p mode n = @tfFnopen .fails fuel p mode n := by
  unfold tfFnopen
  simp only [if_neg (Nat.not_le.mpr h)]

theorem tfParent_eq (u : Undefined) {free : Nat} (hends : p.Ends len) (h : p.Handled len free) :
    @tfParent u fuel p mode = @tfParent .fails fuel p mode := by
  have hlen := Nat.lt_trans h.lt tfMaxPath_lt
  obtain ⟨last, hlast⟩ := Path.lastSlash?_isSome h.slashes_pos
  have hlt := (Path.slashes_lastSlash hlast).1
  funext s
  obtain ⟨es, hrun⟩ := run_lastSlash (s := s) hends hlen hlast
  unfold tfParent
  rw [Exec.run_bind_log (hrun u), Exec.run_bind_log (hrun .fails),
    tfFnopen_eq u (Nat.lt_trans hlt h.lt)]

/-! ## Handles that can be closed -/

/-- The name and the attributes of the file of a handle. -/
def Labelled (fp : Handle) (name : Nat → Byte) (attributes : BitVec 8) (s : Fs) : Prop :=
  (s.handles fp).filename = name ∧ (s.handles fp).attributes = attributes

/-- The handle is open, and it is one of a directory, or of a file whose name is handled. -/
structure Closable (fp : Handle) (name : Nat → Byte) (attributes : BitVec 8) (s : Fs) : Prop where
  opened : s.openHandles fp = true
  label : Labelled fp name attributes s
  file : flagged attributes tfAttrDirectory = true ∨ ∃ len, Path.Ends ⟨name, 0⟩ len ∧
    Path.Handled ⟨name, 0⟩ len (freeHandles s.openHandles)

theorem setFile_label {g : TfFile → TfFile} [hg : KeepsLabel g] {h : Handle} :
    ((s.setFile h (g (s.handles h))).handles fp).filename = (s.handles fp).filename ∧
      ((s.setFile h (g (s.handles h))).handles fp).attributes = (s.handles fp).attributes := by
  unfold Fs.setFile
  dsimp only
  split
  · next heq =>
    rw [heq]
    exact hg.label_eq _
  · exact ⟨rfl, rfl⟩

theorem setFile_openHandles {g : TfFile → TfFile} [hg : KeepsOpen g] {h : Handle} :
    (s.setFile h (g (s.handles h))).openHandles = s.openHandles := by
  rw [openHandles_setFile, hg.flagged_eq]
  exact WriteBack.set_eq rfl

instance : OfHandles (Labelled fp name attributes) where
  keeps hhandles _ h := by
    unfold Labelled
    rw [hhandles]
    exact h

instance : OfFiles (Labelled fp name attributes) where
  keepsFile _ _ _ _ := Exec.keeps_modify fun _ hs =>
    ⟨setFile_label.1.trans hs.1, setFile_label.2.trans hs.2⟩

theorem Closable.of_label (h : Closable fp name attributes s)
    (hopen : s'.openHandles = s.openHandles) (hlabel : Labelled fp name attributes s') :
    Closable fp name attributes s' := by
  obtain ⟨hopened, -, hfile⟩ := h
  rw [← hopen] at hopened hfile
  exact ⟨hopened, hlabel, hfile⟩

instance : OfFiles (Closable fp name attributes) where
  keeps hhandles _ _ h := by
    refine h.of_label ?_ ?_
    · unfold Fs.openHandles
      rw [hhandles]
    · unfold Labelled
      rw [hhandles]
      exact h.label
  keepsFile h g _ _ := Exec.keeps_modify fun _ hs => hs.of_label setFile_openHandles
    ⟨setFile_label.1.trans hs.label.1, setFile_label.2.trans hs.label.2⟩

/-- What is done with another handle. -/
theorem keeps_modifyFile_other {g : TfFile → TfFile} (hne : fp ≠ dir) :
    Keeps (Labelled fp name attributes) (modifyFile dir g) := by
  refine Exec.keeps_modify fun s hs => ?_
  unfold Labelled Fs.setFile
  dsimp only
  rw [if_neg hne]
  exact hs

/-! ### Opening -/

theorem taken_tfGetFreeHandle (h : tfGetFreeHandle.Returns s (some dir) s') :
    s.openHandles dir = false ∧ ∃ f, s' = s.setFile dir f := by
  have htakes := takes_tfGetFreeHandle.ends rfl h
  refine ⟨htakes.1, ?_⟩
  unfold tfGetFreeHandle at h
  have h := Exec.returns_read_bind.mp h
  split at h
  · cases h
  · obtain ⟨_, t, hset, h⟩ := Exec.returns_bind.mp h
    cases h
    exact ⟨_, (Exec.returns_modify.mp hset).symm⟩

/-- What is known of a handle when it has been set up. -/
theorem openEnd_label {myfile : Nat → Byte} {r : Option Handle}
    (hlabel : Labelled dir name attributes s)
    (h : (openEnd dir mode n myfile).Returns s r s') :
    r = some dir ∧ Labelled dir (Bytes.put (strncpy name myfile n) n 0#8) attributes s' := by
  unfold openEnd at h
  obtain ⟨_, t₁, h₁, h⟩ := Exec.returns_bind.mp h
  obtain ⟨_, t₂, h₂, h⟩ := Exec.returns_bind.mp h
  obtain ⟨_, t₃, h₃, h⟩ := Exec.returns_bind.mp h
  obtain ⟨_, t₄, h₄, h⟩ := Exec.returns_bind.mp h
  have ht₁ : Labelled dir name attributes t₁ := Keeps.keeps hlabel h₁
  have ht₂ : Labelled dir name attributes t₂ := Keeps.keeps ht₁ h₂
  have ht₃ : Labelled dir name attributes t₃ := Keeps.keeps ht₂ h₃
  have ht₄ : Labelled dir name attributes t₄ := Keeps.keeps ht₃ h₄
  obtain ⟨_, t₅, h₅, h⟩ := Exec.returns_bind.mp h
  obtain ⟨rfl, rfl⟩ := Exec.returns_pure.mp h
  rw [← Exec.returns_modify.mp h₅]
  refine ⟨rfl, ?_⟩
  unfold Labelled
  rw [Fs.setFile_self]
  exact ⟨by rw [← ht₄.1], ht₄.2⟩

/-- The handle is taken, the path is walked with it, and then it is set up. -/
theorem opened_tfFnopen (h : (tfFnopen fuel path mode n).Returns s (some dir) s') :
    ∃ v f s₁ s₂, s.openHandles dir = false ∧ f.attributes = 0x10#8 ∧
      s₁.handles = (s.setFile dir f).handles ∧
      (walkPath fuel dir fuel ⟨Bytes.put (strncpy v path.get n) n 0#8, 0⟩).Returns s₁ true s₂ ∧
      (openEnd dir mode n (Bytes.put (strncpy v path.get n) n 0#8)).Returns s₂ (some dir) s' := by
  unfold tfFnopen at h
  obtain ⟨handle, t, hget, h⟩ := Exec.returns_bind.mp h
  obtain ⟨v, t₁, hv, h⟩ := Exec.returns_bind.mp h
  dsimp only at h
  split at h
  · cases h
  cases handle with
  | none => cases h
  | some fp =>
    obtain ⟨hfree, f, ht⟩ := taken_tfGetFreeHandle hget
    have ht₁ : t₁.handles = (s.setFile fp f).handles := by
      rw [← ht]
      cases hv
      rfl
    obtain ⟨_, t₂, hderef, h⟩ := Exec.returns_bind.mp h
    cases hderef
    obtain ⟨_, s₁, hroot, h⟩ := Exec.returns_bind.mp h
    obtain ⟨found, s₂, hwalk, h⟩ := Exec.returns_bind.mp h
    cases found with
    | false =>
      rw [if_pos (by decide)] at h
      obtain ⟨_, t₃, -, h⟩ := Exec.returns_bind.mp h
      cases h
    | true =>
      rw [if_neg (not_not_intro rfl)] at h
      have hdir : some dir = some fp := (openEnd_label ⟨rfl, rfl⟩ h).1
      cases hdir
      have hs₁ := Exec.returns_modify.mp hroot
      refine ⟨v, s₁.handles dir, s₁, s₂, hfree, ?_, ?_, hwalk, h⟩
      · rw [← hs₁, Fs.setFile_self]
      · rw [← hs₁, Fs.setFile_self]
        unfold Fs.setFile at ht₁ ⊢
        funext k
        dsimp only
        split
        · rfl
        · next hne =>
          rw [ht₁]
          exact if_neg hne

/-- The other handles stay as they are. -/
theorem labelled_tfFnopen {r : Option Handle} (hopen : s.openHandles fp = true)
    (hlabel : Labelled fp name attributes s) (h : (tfFnopen fuel path mode n).Returns s r s') :
    Labelled fp name attributes s' := by
  unfold tfFnopen at h
  obtain ⟨handle, t, hget, h⟩ := Exec.returns_bind.mp h
  obtain ⟨v, t₁, hv, h⟩ := Exec.returns_bind.mp h
  dsimp only at h
  split at h
  · cases h
  cases handle with
  | none => cases h
  | some dir =>
    obtain ⟨hfree, f, ht⟩ := taken_tfGetFreeHandle hget
    have hne : fp ≠ dir := by
      rintro rfl
      rw [hopen] at hfree
      cases hfree
    have hlabel : Labelled fp name attributes t := by
      rw [ht]
      unfold Labelled Fs.setFile
      dsimp only
      rw [if_neg hne]
      exact hlabel
    have hother := fun g : TfFile → TfFile =>
      @keeps_modifyFile_other fp dir name attributes g hne
    have hend : Keeps (Labelled fp name attributes)
        (openEnd dir mode n (Bytes.put (strncpy v path.get n) n 0#8)) := by
      unfold openEnd
      infer_instance
    have ht₁ : Labelled fp name attributes t₁ := Keeps.keeps hlabel hv
    obtain ⟨_, t₂, hderef, h⟩ := Exec.returns_bind.mp h
    cases hderef
    obtain ⟨_, s₁, hroot, h⟩ := Exec.returns_bind.mp h
    obtain ⟨found, s₂, hwalk, h⟩ := Exec.returns_bind.mp h
    have hs₁ := (hother _).keeps ht₁ hroot
    have hs₂ := (keeps_walkPath fun g _ => hother g).keeps hs₁ hwalk
    cases found with
    | false =>
      obtain ⟨_, t₃, hrelease, h⟩ := Exec.returns_bind.mp h
      obtain ⟨-, rfl⟩ := Exec.returns_pure.mp h
      exact (hother _).keeps hs₂ hrelease
    | true =>
      rw [if_neg (not_not_intro rfl)] at h
      exact hend.keeps hs₂ h

/-- A prefix that is copied. -/
theorem copy_get {src dst : Nat → Byte} (h : ∀ k < n, src k ≠ 0#8) {k : Nat} (hk : k < n) :
    Bytes.put (strncpy dst src n) n 0#8 k = src k := by
  have hall : ((List.range k).all fun j => decide (src j ≠ 0#8)) = true := by
    rw [List.all_eq_true]
    intro j hj
    have hj := List.mem_range.mp hj
    exact decide_eq_true (h j (by omega))
  unfold Bytes.put strncpy
  rw [if_neg (by omega), if_pos hk, if_pos hall]

/-- An empty path is the root directory. -/
theorem walkPath_empty {steps : Nat} {found : Bool} (hend : p.get 0 = 0#8)
    (h : (walkPath fuel dir steps p).Returns s found s') : s' = s := by
  cases steps with
  | zero => cases h
  | succ steps =>
    unfold walkPath at h
    obtain ⟨rest, t, hwalk, h⟩ := Exec.returns_bind.mp h
    unfold tfWalk at hwalk
    have hwalk := returns_charAt_bind.mp hwalk
    have hslash : ¬ (0#8 : Byte) = slash := by decide
    rw [hend] at hwalk
    dsimp only at hwalk
    rw [if_neg hslash] at hwalk
    have hwalk := returns_charAt_bind.mp hwalk
    rw [hend, if_pos rfl] at hwalk
    obtain ⟨rfl, rfl⟩ := Exec.returns_pure.mp hwalk
    have h := Exec.returns_read_bind.mp h
    split at h
    · exact (Exec.returns_pure.mp h).2.symm
    · exact (Exec.returns_pure.mp h).2.symm

theorem freeHandles_tfFnopen (h : (tfFnopen fuel p mode n).Returns s (some dir) s') :
    s'.openHandles dir = true ∧ freeHandles s'.openHandles + 1 = freeHandles s.openHandles := by
  obtain ⟨hfree, hopen⟩ := takes_tfFnopen.ends (rfl : Opens s.openHandles s) h
  have hopen : s'.openHandles = WriteBack.set s.openHandles dir true := hopen
  rw [hopen, WriteBack.set_self]
  exact ⟨rfl, freeHandles_set hfree⟩

/-- What is opened can be closed, if the characters that are looked at are handled. -/
theorem closable_tfFnopen (hchars : ∀ k < n, p.get k ≠ 0#8)
    (hp : 0 < n → ∀ q : Path, (∀ k < n, p.get k = q.get k) →
      q.Handled n (freeHandles s'.openHandles))
    (h : (tfFnopen fuel p mode n).Returns s (some dir) s') :
    ∃ name attributes, Closable dir name attributes s' := by
  obtain ⟨v, f, s₁, s₂, -, hattributes, hs₁, hwalk, hend⟩ := opened_tfFnopen h
  have hlabel := (openEnd_label ⟨rfl, rfl⟩ hend).2
  have hcopy : ∀ k < n, Bytes.put (strncpy v p.get n) n 0#8 k = p.get k := fun k hk =>
    copy_get hchars hk
  have hname : ∀ k < n, p.get k = Path.get ⟨(s'.handles dir).filename, 0⟩ k := by
    intro k hk
    unfold Path.get
    dsimp only
    rw [Nat.zero_add, hlabel.1, copy_get (fun j hj => by rw [hcopy j hj]; exact hchars j hj) hk,
      hcopy k hk]
    rfl
  refine ⟨_, _, (freeHandles_tfFnopen h).1, ⟨rfl, rfl⟩, ?_⟩
  rcases Nat.eq_zero_or_pos n with rfl | hpos
  · left
    have hempty : Path.get ⟨Bytes.put (strncpy v p.get 0) 0 0#8, 0⟩ 0 = 0#8 := rfl
    rw [hlabel.2, walkPath_empty hempty hwalk, hs₁, Fs.setFile_self, hattributes]
    decide
  · right
    refine ⟨n, ⟨?_, fun k hk => ?_⟩, hp hpos _ hname⟩
    · unfold Path.get
      dsimp only
      rw [Nat.zero_add, hlabel.1]
      exact if_pos rfl
    · rw [← hname k hk]
      exact hchars k hk

theorem closable_tfParent (hends : p.Ends len) (hp : p.Handled len (freeHandles s.openHandles))
    (h : (tfParent fuel p mode).Returns s (some dir) s') :
    ∃ name attributes, Closable dir name attributes s' := by
  obtain ⟨last, hlast⟩ := Path.lastSlash?_isSome hp.slashes_pos
  have hlt := (Path.slashes_lastSlash hlast).1
  obtain ⟨es, hrun⟩ := run_lastSlash (s := s) hends (Nat.lt_trans hp.lt tfMaxPath_lt) hlast
  unfold tfParent Exec.Returns at h
  rw [Exec.run_bind_log (hrun .fails)] at h
  refine closable_tfFnopen (fun k hk => hends.2 k (Nat.lt_trans hk hlt)) (fun hpos q hq => ?_) h
  rw [← (freeHandles_tfFnopen h).2] at hp
  exact hp.parent hlast hq hpos

theorem labelled_tfParent (hends : p.Ends len) (hp : p.Handled len (freeHandles s.openHandles))
    (hopen : s.openHandles fp = true) (hlabel : Labelled fp name attributes s)
    {r : Option Handle} (h : (tfParent fuel p mode).Returns s r s') :
    Labelled fp name attributes s' := by
  obtain ⟨last, hlast⟩ := Path.lastSlash?_isSome hp.slashes_pos
  obtain ⟨es, hrun⟩ := run_lastSlash (s := s) hends (Nat.lt_trans hp.lt tfMaxPath_lt) hlast
  unfold tfParent Exec.Returns at h
  rw [Exec.run_bind_log (hrun .fails)] at h
  exact labelled_tfFnopen hopen hlabel h

/-! ## Closing -/

section
variable {flush flush' : Handle → FsM (BitVec 32)}

/-- The two ways to flush agree on handles that can be closed. -/
def FlushesAgree (flush flush' : Handle → FsM (BitVec 32)) : Prop :=
  ∀ fp name attributes, Exec.Agrees (Closable fp name attributes) (flush fp) (flush' fp)

theorem FlushesAgree.fcloseWith (h : FlushesAgree flush flush') :
    Exec.Agrees (Closable fp name attributes) (fcloseWith flush fp) (fcloseWith flush' fp) :=
  fun s hs => Exec.run_bind_congr_left (h fp name attributes s hs)

theorem updateSize_agrees (u : Undefined) (hflush : FlushesAgree flush flush')
    (hfile : flagged attributes tfAttrDirectory = false) :
    Exec.Agrees (Closable fp name attributes) (@updateSize u fuel flush fp)
      (@updateSize .fails fuel flush' fp) := by
  unfold updateSize
  refine .bind fun entry => ?_
  intro s hs
  rw [run_file_bind, run_file_bind, hs.label.1]
  obtain ⟨len, hends, hname⟩ := hs.file.resolve_left (ne_true_of_eq_false hfile)
  rw [tfParent_eq u hends hname]
  refine Exec.run_bind_congr fun parent t hparent => ?_
  have ht : Labelled fp name attributes t :=
    labelled_tfParent hends hname hs.opened hs.label hparent
  rw [run_file_bind, run_file_bind, ht.1,
    lastSlash_eq u hends hname.slashes_pos (Nat.lt_trans hname.lt tfMaxPath_lt)]
  refine Exec.run_bind_congr fun last t₁ hlast => ?_
  cases parent with
  | none => rfl
  | some dir =>
    obtain ⟨name', attributes', hdir⟩ := closable_tfParent hends hname hparent
    have ht₁ : Closable dir name' attributes' t₁ := Keeps.keeps hdir hlast
    refine Exec.run_bind_congr fun dir' t₂ hderef => ?_
    cases hderef
    have hrest : Exec.Agrees (Closable dir name' attributes') (fcloseWith flush dir >>= fun _ => pure ())
        (fcloseWith flush' dir >>= fun _ => pure ()) :=
      fun t ht => Exec.run_bind_congr_left (hflush.fcloseWith t ht)
    exact Exec.Agrees.bind (fun _ => .bind fun _ => .bind fun _ => .bind fun _ => .bind fun _ => hrest)
      t₁ ht₁

theorem tfFflush_agrees (u : Undefined) (fuel : Nat) :
    FlushesAgree (@tfFflush u fuel) (@tfFflush .fails fuel) := by
  induction fuel with
  | zero => exact fun _ _ _ => .refl _
  | succ fuel ih =>
    intro fp name attributes s hs
    have hattributes := hs.label.2
    unfold tfFflush
    rw [run_file_bind, run_file_bind, hattributes]
    generalize (s.handles fp).flags = flags
    have hupdate : ∀ clean : FsM (BitVec 32), Exec.Agrees (Closable fp name attributes)
        (if flagged flags tfFlagSizechanged ∧ ¬ flagged attributes tfAttrDirectory then
          @updateSize u fuel (@tfFflush u fuel) fp >>= fun _ => clean else clean)
        (if flagged flags tfFlagSizechanged ∧ ¬ flagged attributes tfAttrDirectory then
          @updateSize .fails fuel (@tfFflush .fails fuel) fp >>= fun _ => clean else clean) := fun clean =>
      .ite (fun hfile t ht => Exec.run_bind_congr_left
        (updateSize_agrees u ih (eq_false_of_ne_true hfile.2) t ht)) fun _ => .refl _
    refine (?_ : Exec.Agrees (Closable fp name attributes) _ _) s hs
    refine .ite (fun _ => .refl _) fun _ => .bind fun i => ?_
    exact .ite (fun _ => .bind fun _ => hupdate _) fun _ => hupdate _

theorem tfFclose_agrees (u : Undefined) : Exec.Agrees (Closable fp name attributes)
    (@tfFclose u fuel fp) (@tfFclose .fails fuel fp) := (tfFflush_agrees u fuel).fcloseWith

end

/-! ## Calls -/

section
variable (hends : path.Ends len) (hp : path.Handled len tfFileHandles)
include hends hp

/-- The file of a path that is handled, opened or not. -/
theorem closable_parent (h : (tfParent fuel path mode).Returns s (some dir) s') :
    ∃ name attributes, Closable dir name attributes s' :=
  closable_tfParent hends (hp.mono freeHandles_le) h

theorem tfCreate_eq (u : Undefined) : @tfCreate u fuel path = @tfCreate .fails fuel path := by
  unfold tfCreate
  simp only [tfParent_eq u hends hp,
    lastSlash_eq u hends hp.slashes_pos (Nat.lt_trans hp.lt tfMaxPath_lt)]
  funext s
  refine Exec.run_bind_congr fun parent t hparent => Exec.run_bind_congr fun entry t₁ hentry => ?_
  cases parent with
  | none => rfl
  | some fp =>
    obtain ⟨name, attributes, hfp⟩ := closable_parent hends hp hparent
    refine (Exec.run_bind_congr_left (tfFclose_agrees u t₁ (Keeps.keeps hfp hentry))).trans ?_
    refine Exec.run_bind_congr fun _ t₂ _ => Exec.run_bind_congr fun parent' t₃ hparent' => ?_
    refine Exec.run_bind_congr fun dir t₄ hderef => ?_
    cases parent' with
    | none => cases hderef
    | some fp' =>
      cases hderef
      obtain ⟨name', attributes', hdir⟩ := closable_parent hends hp hparent'
      have hclose : Exec.Agrees (Closable dir name' attributes')
          (@tfFclose u fuel dir >>= fun _ => pure 0#32)
          (@tfFclose .fails fuel dir >>= fun _ => pure 0#32) :=
        fun t ht => Exec.run_bind_congr_left (tfFclose_agrees u t ht)
      refine (?_ : Exec.Agrees (Closable dir name' attributes') _ _) t₃ hdir
      exact .bind fun _ => .bind fun _ => .bind fun _ => .bind fun _ => .bind fun _ =>
        .bind fun _ => .bind fun _ => .bind fun _ => .bind fun _ => hclose

theorem tfFopen_eq (u : Undefined) :
    @tfFopen u fuel path mode = @tfFopen .fails fuel path mode := by
  funext s
  obtain ⟨es, hrun⟩ := run_strlen (s := s) hends (Nat.zero_le len)
    (show len < 0 + maxString from Nat.lt_of_lt_of_eq (Nat.lt_trans hp.lt tfMaxPath_lt)
      (Nat.zero_add _).symm)
  unfold tfFopen
  rw [Exec.run_bind_log hrun, Exec.run_bind_log hrun, tfFnopen_eq u hp.lt,
    tfCreate_eq hends hp u]

theorem closable_tfFopen (h : (tfFopen fuel path mode).Returns s (some fp) s') :
    ∃ name attributes, Closable fp name attributes s' := by
  unfold tfFopen at h
  obtain ⟨n, t, hlen, h⟩ := Exec.returns_bind.mp h
  cases (Path.Ends.of_strlen hlen).unique hends
  obtain ⟨r, t₁, -, h⟩ := Exec.returns_bind.mp h
  obtain ⟨_, t₂, -, h⟩ := Exec.returns_bind.mp h
  exact closable_tfFnopen hends.2 (fun _ q hq => (hp.mono freeHandles_le).congr hq) h

theorem tfRemove_eq (u : Undefined) : @tfRemove u fuel path = @tfRemove .fails fuel path := by
  unfold tfRemove
  simp only [tfFopen_eq hends hp u, tfParent_eq u hends hp,
    lastSlash_eq u hends hp.slashes_pos (Nat.lt_trans hp.lt tfMaxPath_lt)]
  funext s
  refine Exec.run_bind_congr fun found t hfound => ?_
  cases found with
  | none => rfl
  | some fp =>
    obtain ⟨name, attributes, hfp⟩ := closable_tfFopen hends hp hfound
    refine (Exec.run_bind_congr_left (tfFclose_agrees u t hfp)).trans ?_
    refine Exec.run_bind_congr fun _ t₁ _ => Exec.run_bind_congr fun parent t₂ hparent => ?_
    refine Exec.run_bind_congr fun dir t₃ hderef => ?_
    cases parent with
    | none => cases hderef
    | some fp' =>
      cases hderef
      obtain ⟨name', attributes', hdir⟩ := closable_parent hends hp hparent
      have hclose : Exec.Agrees (Closable dir name' attributes')
          (@tfFclose u fuel dir >>= fun _ => pure 0#32)
          (@tfFclose .fails fuel dir >>= fun _ => pure 0#32) :=
        fun t ht => Exec.run_bind_congr_left (tfFclose_agrees u t ht)
      have hshorter : KeepsOpen fun f : TfFile => { f with
          size := f.size - BitVec.ofNat 32 sizeofFatFileEntry
          flags := f.flags ||| tfFlagSizechanged } := .or (by decide) fun _ => rfl
      refine (?_ : Exec.Agrees (Closable dir name' attributes') _ _) t₂ hdir
      refine .bind fun last => .bind fun rc => .ite (fun _ => ?_) fun _ => hclose
      exact .bind fun _ => .bind fun _ => .bind fun _ => hclose

end

/-! ## The walk -/

/-- A pointer into the bytes, not behind the terminator. -/
structure Path.Inside (q : Path) (bytes : Nat → Byte) (n : Nat) : Prop where
  bytes_eq : q.bytes = bytes
  off_le : q.off ≤ n

section
variable {q rest : Path} {bytes : Nat → Byte}

theorem Path.Inside.skipSlash (h : q.Inside bytes n) (hend : bytes n = 0#8) :
    (if q.get 0 = slash then q.skip 1 else q).Inside bytes n := by
  split
  · next hslash =>
    refine ⟨h.bytes_eq, Nat.lt_of_le_of_ne h.off_le fun heq => ?_⟩
    unfold Path.get at hslash
    rw [h.bytes_eq, Nat.add_zero, heq, hend] at hslash
    exact absurd hslash (by decide)
  · exact h

theorem Path.Inside.skipComponent {stop : Nat} (h : q.Inside bytes n) (hend : bytes n = 0#8)
    (hstop : ∀ k < stop, q.get k ≠ 0#8) : (q.skip stop).Inside bytes n := by
  refine ⟨h.bytes_eq, Nat.not_lt.mp fun hlt => ?_⟩
  have hlt : n < q.off + stop := hlt
  have hle := h.off_le
  apply hstop (n - q.off) (by omega)
  unfold Path.get
  rw [h.bytes_eq, Nat.add_sub_cancel' hle, hend]

theorem inside_of_tfWalk (h : q.Inside bytes n) (hend : bytes n = 0#8)
    (hwalk : (tfWalk fuel q fp).Returns s (some rest) s') : rest.Inside bytes n := by
  unfold tfWalk at hwalk
  have hwalk := returns_charAt_bind.mp hwalk
  have h₁ := h.skipSlash hend
  dsimp only at hwalk
  generalize (if q.get 0 = slash then q.skip 1 else q) = q₁ at h₁ hwalk
  have hwalk := returns_charAt_bind.mp hwalk
  split at hwalk
  · cases hwalk
  obtain ⟨rc, t, -, hwalk⟩ := Exec.returns_bind.mp hwalk
  split at hwalk
  · obtain ⟨_, t₁, -, hwalk⟩ := Exec.returns_bind.mp hwalk
    cases hwalk
  obtain ⟨v, t₁, -, hwalk⟩ := Exec.returns_bind.mp hwalk
  obtain ⟨entry, t₂, -, hwalk⟩ := Exec.returns_bind.mp hwalk
  obtain ⟨stop, t₃, hstop, hwalk⟩ := Exec.returns_bind.mp hwalk
  obtain ⟨-, -, hbefore, -⟩ := returns_componentEnd hstop
  have h₂ := (h₁.skipComponent hend fun k hk => (hbefore k (Nat.zero_le k) hk).2).skipSlash hend
  have hwalk := returns_charAt_bind.mp hwalk
  generalize (if (q₁.skip stop).get 0 = slash then (q₁.skip stop).skip 1 else q₁.skip stop) = q₂
    at h₂ hwalk
  obtain ⟨_, t₄, -, hwalk⟩ := Exec.returns_bind.mp hwalk
  have hwalk := returns_charAt_bind.mp hwalk
  split at hwalk
  · cases hwalk
  · cases hwalk
    exact h₂

theorem inside_of_walks (h : q.Inside bytes n) (hend : bytes n = 0#8) (hwalks : Walks q rest) :
    rest.Inside bytes n := by
  induction hwalks with
  | start => exact h
  | step _ hwalk ih => exact inside_of_tfWalk ih hend hwalk

end

/-! ## Reads -/

theorem gets_lastSlash {i : TfInfo} {disk : Disk} {files : Handle → TfFile} {v : BitVec 32}
    {b : Sector} (hends : p.Ends len) (hlen : len < maxString) (hlast : p.lastSlash? len = some last) :
    Gets i disk files v b (lastSlash p) last files v b := by
  intro s hs
  obtain ⟨es, hrun⟩ := run_lastSlash (s := s) hends hlen hlast
  exact ⟨es, s, hrun .fails, hs, fun _ _ => trivial⟩

/-- The root directory has no name, which is looked up all the same when it is removed. -/
theorem exists_not_emits_tfRemove (hends : p.Ends 1) (hslash : p.get 0 = slash) (fuel : Nat) :
    ∃ s, ¬ (tfRemove (fuel + 1) p).Emits (FsEvent.UpTo (p.off + 1)) s := by
  have hlast : p.lastSlash? 1 = some 0 := by
    unfold Path.lastSlash?
    exact List.find?_cons_of_pos (decide_eq_true hslash)
  refine ⟨Fs.ofChain (p.skip 1), fun h => ?_⟩
  have hfree : firstFree Fs.blank.handles = some firstHandle := by decide
  have htwo : TwoFree Fs.blank.handles := ⟨⟨0, by decide⟩, ⟨1, by decide⟩, by decide, rfl, rfl⟩
  obtain ⟨fp, hnext⟩ := htwo.next firstHandle
    { Fs.blank.handles firstHandle with flags := tfFlagOpen ||| tfFlagRoot }
  unfold tfRemove at h
  have hopen := @leads_tfFopen_root wideInfo (Fs.ofChain (p.skip 1)).disk _ 0#32 (fun _ => 0#8) _ fuel
    p fp hends hslash hfree fun f hf => (firstFree_set hf).trans hnext
  obtain ⟨s₁, ⟨f, g, -, hflags, hs₁⟩, h⟩ := hopen.emits_bind holding_ofChain h
  have hclean : flagged (WriteBack.set (WriteBack.set Fs.blank.handles firstHandle f) fp g fp).flags
      tfFlagDirty = false := by
    rw [WriteBack.set_self, hflags]
    decide
  obtain ⟨s₂, hs₂, h⟩ := (gets_tfFclose_clean hclean).emits_bind hs₁ h
  rw [WriteBack.set_self, WriteBack.set_set, hflags] at hs₂
  have hlastSlash := fun {files : Handle → TfFile} => @gets_lastSlash p 1 0 wideInfo
    (Fs.ofChain (p.skip 1)).disk files 0#32 (fun _ => 0#8) hends (by decide) hlast
  have hclosed : flagged (WriteBack.set (WriteBack.set Fs.blank.handles firstHandle f) fp
      { g with flags := (tfFlagOpen ||| tfFlagRoot) &&& ~~~tfFlagOpen } fp).flags tfFlagOpen =
        false := by
    rw [WriteBack.set_self]
    exact (by decide : flagged ((tfFlagOpen ||| tfFlagRoot) &&& ~~~tfFlagOpen) tfFlagOpen = false)
  obtain ⟨dir, hfree'⟩ := firstFree_isSome hclosed
  have hparent := hlastSlash.bind (@leads_tfFnopen_root _ _ _ _ _ _ fuel 0 p "rw" (by decide)
    (by decide) (fun _ => rfl) hfree')
  obtain ⟨s₃, ⟨f', hf', -, hs₃⟩, h⟩ := hparent.emits_bind hs₂ h
  have h := (Exec.emits_bind.mp h).2 _ _ rfl
  obtain ⟨s₄, hs₄, h⟩ := hlastSlash.emits_bind hs₃ h
  have hdir : (WriteBack.set (WriteBack.set (WriteBack.set Fs.blank.handles firstHandle f) fp
      { g with flags := (tfFlagOpen ||| tfFlagRoot) &&& ~~~tfFlagOpen }) dir f' dir).Directory
      2#32 := by
    rw [WriteBack.set_self]
    exact ⟨hf'.startCluster, hf'.currentCluster, hf'.size⟩
  exact not_emits_tfFindFile fat32_wideInfo isCluster_wideInfo reach_wideInfo hdir holdsChain_ofChain
    (hends.skip (Nat.le_refl 1)) (by decide) hs₄.shows_ofChain (Exec.emits_bind.mp h).1

/-! ## Bounds -/

/-- A path that is shorter than 256 bytes, and begins with a separator or has more of them than
there are handles, is handled without anything that is undefined. -/
theorem defined_of_handled (hends : path.Ends len) (hp : path.Handled len tfFileHandles) :
    path.Defined where
  fopen u _ _ _ := by rw [tfFopen_eq hends hp u]
  create u _ _ := by rw [tfCreate_eq hends hp u]
  remove u _ _ := by rw [tfRemove_eq hends hp u]
  parent u _ _ _ := by rw [tfParent_eq u hends hp]
  walk hwalks := (inside_of_walks ⟨rfl, Nat.zero_le _⟩ (if_pos rfl) hwalks).off_le

/-- Something that is told apart from the outcome of any other run. -/
abbrev Undefined.faults (e : FsFault) : Undefined := ⟨fault e, fault e⟩

theorem Path.Defined.lt (h : path.Defined) (hends : path.Ends len) (hlen : len < maxString) :
    len < tfMaxPath := by
  apply Nat.not_le.mp
  intro hlong
  obtain ⟨es, hrun⟩ := run_strlen (s := Fs.blank) hends (Nat.zero_le len)
    (show len < 0 + maxString by omega)
  have hfails : ∀ e, tfFopen 0 path "r" Fs.blank = (es ++ [], .error e) := by
    intro e
    rw [← h.fopen (.faults e)]
    unfold tfFopen
    rw [Exec.run_bind_log hrun]
    have hopen : @tfFnopen (.faults e) 0 path "r" len Fs.blank = ([], .error e) := by
      unfold tfFnopen
      simp only [if_pos hlong]
      rfl
    rw [Exec.run_bind_fails hopen]
  exact absurd ((hfails .diverges).symm.trans (hfails .outOfBounds)) (by simp)

theorem Path.Defined.slashes_pos (h : path.Defined) (hends : path.Ends len)
    (hlen : len < maxString) : 0 < path.slashes len := by
  apply Nat.pos_of_ne_zero
  intro hnone
  obtain ⟨es, hrun⟩ := run_strlen (s := Fs.blank) hends (Nat.zero_le len)
    (show len < 0 + maxString by omega)
  have hlast : path.lastSlash? len = none := by
    cases hfind : path.lastSlash? len with
    | none => rfl
    | some last => exact absurd hnone (by rw [(Path.slashes_lastSlash hfind).2.2]; omega)
  unfold Path.lastSlash? at hlast
  have hfails : ∀ e, tfParent 0 path "r" Fs.blank = (es ++ [], .error e) := by
    intro e
    rw [← h.parent (.faults e)]
    have hfind : strrchr path slash Fs.blank = (es, .ok (none, Fs.blank)) := by
      unfold strrchr
      rw [Exec.run_bind_log hrun, hlast]
      exact Prod.ext (List.append_nil es) rfl
    have hslash : @lastSlash (.faults e) path Fs.blank = (es ++ [], .error e) := by
      unfold lastSlash
      rw [Exec.run_bind_log hfind]
      rfl
    exact Exec.run_bind_fails hslash
  exact absurd ((hfails .diverges).symm.trans (hfails .outOfBounds)) (by simp)

/-- Every path is read behind its terminator, where it does not run into something undefined. -/
theorem not_inBounds {text : Nat → Byte} (hends : Path.Ends ⟨text, 0⟩ len) (hlen : len < maxString) :
    ¬ Path.InBounds ⟨text, 0⟩ len := by
  intro h
  have hlt := h.toDefined.lt hends hlen
  have hpos := h.toDefined.slashes_pos hends hlen
  by_cases hroot : Path.IsRoot ⟨text, 0⟩
  · have hfirst : text 0 ≠ 0#8 := by
      refine hends.2 0 (Nat.pos_of_ne_zero ?_)
      rintro rfl
      exact absurd hpos (Nat.lt_irrefl 0)
    unfold Path.IsRoot at hroot
    split at hroot
    · next hslash =>
      have hone : Path.Ends ⟨text, 0⟩ 1 := by
        refine ⟨hroot, fun k hk => ?_⟩
        rw [Nat.lt_one_iff.mp hk]
        exact hfirst
      cases hends.unique hone
      obtain ⟨s, hreads⟩ := exists_not_emits_tfRemove hone hslash 0
      exact hreads (h.removeReads 1 s)
    · exact hfirst hroot
  · obtain ⟨s, hreads⟩ := exists_not_emits_tfFopen hends hlt hroot 0 "r"
    have hbound : (⟨text, 0⟩ : Path).off + len = len := Nat.zero_add len
    exact hreads (hbound ▸ h.fopenReads 1 "r" s)

/-- No path is handled in bounds; the paths that lead to nothing undefined are shorter than 256
bytes and have a separator, and they are all those that begin with one, or have more of them than
there are handles. -/
theorem pathHandling_bounds {text : Nat → Byte} (hends : Path.Ends ⟨text, 0⟩ len)
    (hlen : len < maxString) : ¬ Path.InBounds ⟨text, 0⟩ len ∧
      (Path.Handled ⟨text, 0⟩ len tfFileHandles → Path.Defined ⟨text, 0⟩) ∧
      (Path.Defined ⟨text, 0⟩ → len < tfMaxPath ∧ 0 < Path.slashes ⟨text, 0⟩ len) :=
  ⟨not_inBounds hends hlen, defined_of_handled hends,
    fun h => ⟨h.lt hends hlen, h.slashes_pos hends hlen⟩⟩

end

/-- `/a`. -/
def fileText (k : Nat) : Byte := [slash, 0x61#8].getD k 0#8

theorem ends_fileText : Path.Ends ⟨fileText, 0⟩ 2 := by decide

/-- It is read too far, and nothing else is wrong with it. -/
theorem pathHandling_bounds_file : ¬ Path.InBounds ⟨fileText, 0⟩ 2 ∧ Path.Defined ⟨fileText, 0⟩ := by
  obtain ⟨hreads, hdefined, -⟩ := pathHandling_bounds ends_fileText (by decide)
  exact ⟨hreads, hdefined ⟨by decide, Or.inl ⟨rfl, by decide⟩⟩⟩

/-- The path `a` has no directory. -/
theorem not_inBounds_bare : Path.Ends ⟨fun k => if k = 0 then 0x61#8 else 0#8, 0⟩ 1 ∧
    ¬ Path.InBounds ⟨fun k => if k = 0 then 0x61#8 else 0#8, 0⟩ 1 := by
  have hends : Path.Ends ⟨fun k => if k = 0 then 0x61#8 else 0#8, 0⟩ 1 := by decide
  refine ⟨hends, fun h => ?_⟩
  exact absurd (h.toDefined.slashes_pos hends (by decide)) (by decide)

end Mavmm.Hostfs
