import Mavmm.Hostfs.OpenHandles
import Mavmm.Hostfs.FatEntries

/-!
# Handle accounting

A handle that an operation takes for itself is given back before it returns,
with one exception: `tf_fopen` opens the file twice, and keeps the first handle
if there is such a file.  The open handles are those that were returned and not
closed as long as no file is opened that exists (`handles_accounted`).
-/

namespace Mavmm.Hostfs

open Exec (Keeps Ends)

set_option synthInstance.maxSize 8192

section
variable {s s' : Fs} {fp : Handle} {fuel n : Nat} {filename : Path} {mode : String}
  {r : Option Handle} {O : Handle → Bool} {α β : Type}

/-! ## Taking a handle -/

/-- A handle that was free is open, or no handle has changed. -/
def Takes (O : Handle → Bool) (r : Option Handle) (s : Fs) : Prop :=
  match r with
  | none => Opens O s
  | some h => O h = false ∧ Opens (WriteBack.set O h true) s

theorem takes_tfGetFreeHandle : Ends (Opens O) (Takes O) tfGetFreeHandle where
  ends := by
    intro s r s' hO h
    unfold tfGetFreeHandle at h
    rw [Exec.returns_read_bind] at h
    split at h
    · obtain ⟨rfl, rfl⟩ := Exec.returns_pure.mp h
      exact hO
    · next fp hfind =>
      obtain ⟨_, t, hset, hreturn⟩ := Exec.returns_bind.mp h
      obtain ⟨rfl, rfl⟩ := Exec.returns_pure.mp hreturn
      have hset := Exec.returns_modify.mp hset
      have hfree := List.find?_some hfind
      have hopen : flagged tfFlagOpen tfFlagOpen = true := by decide
      refine ⟨?_, ?_⟩
      · rw [← hO]
        simpa [Fs.openHandles] using hfree
      · unfold Opens
        rw [← hset, openHandles_setFile, hopen, hO]

theorem ends_taken {I : Fs → Prop} {Q : β → Fs → Prop} {x : FsM (Option Handle)}
    {f : Option Handle → FsM β} (hx : Ends I (Takes O) x) (hnone : Ends (Opens O) Q (f none))
    (hsome : ∀ fp, O fp = false → Ends (Opens (WriteBack.set O fp true)) Q (f (some fp))) :
    Ends I Q (x >>= f) where
  ends := by
    intro s b s' hO hrun
    obtain ⟨r, t, hr, hrest⟩ := Exec.returns_bind.mp hrun
    have htakes := hx.ends hO hr
    cases r with
    | none => exact hnone.ends htakes hrest
    | some fp => exact (hsome fp htakes.1).ends htakes.2 hrest

instance {I : Fs → Prop} {Q : β → Fs → Prop} {f : Handle → FsM β} :
    Ends I Q (deref none >>= f) where
  ends _ h := nomatch h

instance {I : Fs → Prop} {Q : β → Fs → Prop} {f : Handle → FsM β} [hf : Ends I Q (f fp)] :
    Ends I Q (deref (some fp) >>= f) := hf

instance {I : Fs → Prop} {Q : Option Handle → Fs → Prop} : Ends I Q Undefined.overflow where
  ends _ h := nomatch h

/-- A handle that was taken is marked as free. -/
theorem opens_cleared (hfree : O fp = false) (h : Opens (WriteBack.set O fp true) s) :
    Opens O (s.setFile fp { s.handles fp with flags := (s.handles fp).flags &&& ~~~tfFlagOpen }) := by
  unfold Opens
  rw [openHandles_setFile, flagged_clear_self, h, WriteBack.set_set]
  exact WriteBack.set_eq hfree

/-- The handle that was taken is returned, or released. -/
theorem takes_tfFnopen : Ends (Opens O) (Takes O) (tfFnopen fuel filename mode n) := by
  unfold tfFnopen
  refine ends_taken takes_tfGetFreeHandle ?_ fun fp hfree => ?_
  · dsimp only
    infer_instance
  · have hroot : KeepsOpen fun f : TfFile => { f with
        currentCluster := 2#32
        startCluster := 2#32
        parentStartCluster := 0xffffffff#32
        currentClusterIdx := 0#32
        currentSector := 0#16
        currentByte := 0#16
        attributes := 0x10#8
        pos := 0#32
        flags := f.flags ||| tfFlagRoot
        size := 0xffffffff#32
        mode := tfModeRead ||| tfModeWrite ||| tfModeOverwrite } := .or (by decide) fun _ => rfl
    have hwalk := fun name => @keeps_walkPath (Opens (WriteBack.set O fp true)) fp fuel name _
      (fun _ hg => keeps_modifyFile_open WriteBack.set_self hg) fuel
    have hreleased : Ends (Opens (WriteBack.set O fp true)) (Takes O)
        (tfReleaseHandle fp >>= fun _ => pure none) := by
      refine ⟨fun h hrun => ?_⟩
      obtain ⟨_, t, hclear, hreturn⟩ := Exec.returns_bind.mp hrun
      obtain ⟨rfl, rfl⟩ := Exec.returns_pure.mp hreturn
      rw [← Exec.returns_modify.mp hclear]
      exact opens_cleared hfree h
    have hreturned : Ends (Opens (WriteBack.set O fp true)) (Takes O) (pure (some fp) : FsM _) := by
      refine ⟨fun h hrun => ?_⟩
      obtain ⟨rfl, rfl⟩ := Exec.returns_pure.mp hrun
      exact ⟨hfree, h⟩
    dsimp only
    infer_instance

theorem takes_tfParent : Ends (Opens O) (Takes O) (tfParent fuel filename mode) := by
  have hopen := fun last => @takes_tfFnopen fuel last filename "rw" O
  unfold tfParent
  infer_instance

/-! ## Giving it back -/

/-- The last step of an operation with a handle of its own. -/
theorem ends_fcloseWith {flush : Handle → FsM (BitVec 32)} {f : BitVec 32 → FsM β}
    (hfree : O fp = false) (hflush : Keeps (Opens (WriteBack.set O fp true)) (flush fp))
    (hf : ∀ rc, Keeps (Opens O) (f rc)) : Ends (Opens (WriteBack.set O fp true))
      (fun _ => Opens O) (fcloseWith flush fp >>= f) where
  ends := by
    intro s b s' h hrun
    obtain ⟨rc, t, hclose, hrest⟩ := Exec.returns_bind.mp hrun
    unfold fcloseWith at hclose
    obtain ⟨rc', t₁, hrc, hclose⟩ := Exec.returns_bind.mp hclose
    obtain ⟨_, t₂, hclear, hreturn⟩ := Exec.returns_bind.mp hclose
    obtain ⟨rfl, rfl⟩ := Exec.returns_pure.mp hreturn
    rw [← Exec.returns_modify.mp hclear] at hrest
    exact (hf _).keeps (opens_cleared hfree (hflush.keeps h hrc)) hrest

/-- The parent directory that is opened is closed again. -/
theorem keeps_updateSize {flush : Handle → FsM (BitVec 32)}
    (hflush : ∀ O fp, Keeps (Opens O) (flush fp)) : Keeps (Opens O) (updateSize fuel flush fp) := by
  unfold updateSize
  apply Ends.keeps
  refine Exec.ends_bind fun entry => Exec.ends_bind fun f => ?_
  refine ends_taken takes_tfParent ?_ fun dir hfree => ?_
  · infer_instance
  · have hclose : Ends (Opens (WriteBack.set O dir true)) (fun _ => Opens O)
        (fcloseWith flush dir >>= fun _ => pure ()) :=
      ends_fcloseWith hfree (hflush _ dir) fun _ => inferInstance
    infer_instance

theorem keeps_tfFflush : ∀ O fp, Keeps (Opens O) (tfFflush fuel fp) := by
  have hclean : KeepsOpen fun f : TfFile => { f with flags := f.flags &&& ~~~tfFlagDirty } :=
    .clear (by decide) fun _ => rfl
  induction fuel with
  | zero =>
    intro O fp
    unfold tfFflush
    infer_instance
  | succ fuel ih =>
    intro O fp
    have hupdate := @keeps_updateSize fp fuel O (tfFflush fuel) ih
    unfold tfFflush
    infer_instance

theorem ends_tfFclose {f : BitVec 32 → FsM β} (hfree : O fp = false)
    (hf : ∀ rc, Keeps (Opens O) (f rc)) :
    Ends (Opens (WriteBack.set O fp true)) (fun _ => Opens O) (tfFclose fuel fp >>= f) :=
  ends_fcloseWith hfree (keeps_tfFflush _ fp) hf

/-- The directory in which a file is created is closed. -/
theorem keeps_tfCreate : Keeps (Opens O) (tfCreate fuel filename) := by
  have hclose : ∀ fp, O fp = false → Ends (Opens (WriteBack.set O fp true)) (fun _ => Opens O)
      (tfFclose fuel fp >>= fun _ => pure 0#32) :=
    fun fp hfree => ends_tfFclose hfree fun _ => inferInstance
  unfold tfCreate
  apply Ends.keeps
  refine ends_taken takes_tfParent ?_ fun fp hfree => ?_
  · dsimp only
    infer_instance
  · refine Exec.ends_bind fun entry => ends_tfFclose hfree fun _ => Ends.keeps ?_
    refine ends_taken takes_tfParent ?_ fun fp hfree => ?_
    · infer_instance
    · have hclose := hclose fp hfree
      dsimp only
      infer_instance

/-- A walk of the path finds a file. -/
def Fs.Finds (s : Fs) (fuel : Nat) (filename : Path) (mode : String) : Prop :=
  ∃ n t fp t', (strlen filename maxString 0).Returns s n t ∧
    (tfFnopen fuel filename mode n).Returns t (some fp) t'

/-- These handles are open, and there is no file with the path. -/
def Missing (O : Handle → Bool) (fuel : Nat) (filename : Path) (mode : String) (s : Fs) : Prop :=
  Opens O s ∧ ¬ s.Finds fuel filename mode

/-- Where there is no file, only the second handle is taken. -/
theorem takes_tfFopen :
    Ends (Missing O fuel filename mode) (Takes O) (tfFopen fuel filename mode) where
  ends := by
    rintro s r s' ⟨hO, hmissing⟩ hrun
    unfold tfFopen at hrun
    obtain ⟨n, t, hlen, hrest⟩ := Exec.returns_bind.mp hrun
    have hO := Keeps.keeps hO hlen
    obtain ⟨fp, t₁, hfirst, hrest⟩ := Exec.returns_bind.mp hrest
    cases fp with
    | some fp => exact absurd ⟨n, t, fp, t₁, hlen, hfirst⟩ hmissing
    | none =>
      have hO : Opens O t₁ := takes_tfFnopen.ends hO hfirst
      have hcreate := @keeps_tfCreate fuel filename O
      have hsecond := @takes_tfFnopen fuel n filename mode O
      exact Ends.ends hO hrest

/-- The directory from which a file is removed is closed. -/
theorem keeps_tfRemove :
    Ends (Missing O fuel filename "r") (fun _ => Opens O) (tfRemove fuel filename) := by
  have hshrink : KeepsOpen fun f : TfFile => { f with
      size := f.size - BitVec.ofNat 32 sizeofFatFileEntry
      flags := f.flags ||| tfFlagSizechanged } := .or (by decide) fun _ => rfl
  unfold tfRemove
  refine ends_taken takes_tfFopen ?_ fun fp hfree => ?_
  · dsimp only
    infer_instance
  · refine ends_tfFclose hfree fun _ => Ends.keeps ?_
    refine ends_taken takes_tfParent ?_ fun fp hfree => ?_
    · infer_instance
    · have hclose : Ends (Opens (WriteBack.set O fp true)) (fun _ => Opens O)
          (tfFclose fuel fp >>= fun _ => pure 0#32) := ends_tfFclose hfree fun _ => inferInstance
      dsimp only
      infer_instance

/-! ## Mounting -/

/-- What the buffer holds after the boot sector was fetched. -/
def Fs.bootSector (s : Fs) : Sector :=
  if (s.answers 0).rc = 0#32 then s.disk 0#32 else (s.answers 0).sector

/-- The number of clusters, as `tf_init` computes it. -/
def bootClusters (bpb : Sector) : Int :=
  let fatSize16 : BitVec 16 := BootField.fatSize16.read bpb
  let fatSize : BitVec 32 :=
    if fatSize16 ≠ 0#16 then fatSize16.setWidth 32 else BootField.fatSize32.read bpb
  let rootDirSectors : Int := ((BootField.rootEntryCount.read bpb).toNat * 32 +
    ((BootField.bytesPerSector.read bpb).toNat - 1 : Int)).tdiv 512
  let totalSectors16 : BitVec 16 := BootField.totalSectors16.read bpb
  let totalSectors : BitVec 32 :=
    if totalSectors16 ≠ 0#16 then totalSectors16.setWidth 32
    else BootField.totalSectors32.read bpb
  let fats := BitVec.ofInt 32 ((BootField.numFats.read bpb).toNat * fatSize.toInt)
  let reserved : BitVec 16 := BootField.reservedSectorCount.read bpb
  let first := BitVec.ofInt 32 (reserved.toNat + fats.toInt + rootDirSectors)
  let sectorsPerCluster : BitVec 8 := BootField.sectorsPerCluster.read bpb
  (totalSectors - first).toInt.tdiv sectorsPerCluster.toNat

theorem returns_fetchBootSector {rc : BitVec 32} (h : fetchBootSector.Returns s rc s') :
    s'.info.buffer = s.bootSector := by
  let s₁ : Fs := { s with info := { s.info with currentSector := -1#32, sectorFlags := 0#8 } }
  have h : (tfFetch 0#32).Returns s₁ rc s' := h
  have hne : ¬ 0#32 = s₁.info.currentSector := (by decide : ¬ 0#32 = -1#32)
  have hclean : ¬ flagged s₁.info.sectorFlags tfFlagDirty = true :=
    (by decide : ¬ flagged 0#8 tfFlagDirty = true)
  unfold tfFetch at h
  have h := Exec.returns_read_bind.mp h
  dsimp only at h
  rw [if_neg hne, if_neg hclean] at h
  obtain ⟨stored, t, hstored, h⟩ := Exec.returns_bind.mp h
  obtain ⟨rfl, rfl⟩ := Exec.returns_pure.mp hstored
  obtain ⟨rc', t, hread, h⟩ := Exec.returns_bind.mp h
  have hbuffer : t.info.buffer = s.bootSector := by
    cases hread
    rfl
  obtain ⟨_, t', hwhen, h⟩ := Exec.returns_bind.mp h
  obtain ⟨-, rfl⟩ := Exec.returns_pure.mp h
  rw [Exec.returns_when] at hwhen
  split at hwhen
  · rw [← Exec.returns_modify.mp hwhen]
    exact hbuffer
  · rw [← hwhen]
    exact hbuffer

instance {I : Fs → Prop} {Q : β → Fs → Prop} {f : FsFault} {g : α → FsM β} :
    Ends I Q (fault f >>= g) where
  ends _ h := nomatch h

theorem ends_int {I : Fs → Prop} {Q : β → Fs → Prop} {x : Int} {f : BitVec 32 → FsM β}
    (hf : Ends I Q (f (BitVec.ofInt 32 x))) : Ends I Q (int x >>= f) where
  ends := by
    intro s b s' hI hrun
    by_cases hx : -2 ^ 31 ≤ x ∧ x < 2 ^ 31
    · unfold Exec.Returns at hrun
      rw [run_int_bind hx] at hrun
      exact hf.ends hI hrun
    · unfold Exec.Returns at hrun
      rw [run_int_bind_fails hx] at hrun
      cases hrun

theorem ends_of_pos {I : Fs → Prop} {Q : β → Fs → Prop} {c : Prop} [Decidable c] {x y : FsM β}
    (hc : c) (hx : Ends I Q x) : Ends I Q (if c then x else y) := by
  rw [if_pos hc]
  exact hx

/-- A volume that is refused is not looked at. -/
theorem keeps_tfInit {bpb : Sector} (hboot : bootClusters bpb < 65525) :
    Ends (fun s => Opens O s ∧ s.bootSector = bpb) (fun _ => Opens O) (tfInit fuel) where
  ends := by
    rintro s rc s' ⟨hO, rfl⟩ hrun
    unfold tfInit at hrun
    obtain ⟨_, t, hfetch, hrest⟩ := Exec.returns_bind.mp hrun
    have hO := Keeps.keeps hO hfetch
    have hrest := Exec.returns_read_bind.mp hrest
    rw [returns_fetchBootSector hfetch] at hrest
    refine (?_ : Ends (Opens O) (fun _ => Opens O) _).ends hO hrest
    refine Exec.ends_bind fun _ => ends_int (ends_int (Exec.ends_bind fun _ => ?_))
    dsimp only
    split
    · infer_instance
    · refine Exec.ends_bind fun _ => ends_of_pos hboot ?_
      infer_instance

theorem opens_tfFclose {rc : BitVec 32} (hO : Opens O s) (h : (tfFclose fuel fp).Returns s rc s') :
    Opens (WriteBack.set O fp false) s' := by
  unfold tfFclose fcloseWith at h
  obtain ⟨rc', t, hflush, h⟩ := Exec.returns_bind.mp h
  obtain ⟨_, t', hclear, h⟩ := Exec.returns_bind.mp h
  obtain ⟨-, rfl⟩ := Exec.returns_pure.mp h
  have hO := (keeps_tfFflush O fp).keeps hO hflush
  unfold Opens
  rw [← Exec.returns_modify.mp hclear, openHandles_setFile, flagged_clear_self, hO]

end

/-! ## Runs -/

/-- The calls of the driver that have to do with handles. -/
inductive FileOp where
  | init (fuel : Nat)
  | fopen (fuel : Nat) (filename : Path) (mode : String)
  | create (fuel : Nat) (filename : Path)
  | remove (fuel : Nat) (filename : Path)
  | fflush (fuel : Nat) (fp : Handle)
  | fclose (fuel : Nat) (fp : Handle)

/-- One call, and the handles that were returned and not closed; only such handles are flushed and
closed. -/
inductive FileStep : Fs × (Handle → Prop) → FileOp → Fs × (Handle → Prop) → Prop
  | init {s s' returned fuel rc} : (tfInit fuel).Returns s rc s' →
      FileStep (s, returned) (.init fuel) (s', returned)
  | fopen {s s' returned fuel filename mode r} : (tfFopen fuel filename mode).Returns s r s' →
      FileStep (s, returned) (.fopen fuel filename mode) (s', fun h => returned h ∨ r = some h)
  | create {s s' returned fuel filename rc} : (tfCreate fuel filename).Returns s rc s' →
      FileStep (s, returned) (.create fuel filename) (s', returned)
  | remove {s s' returned fuel filename rc} : (tfRemove fuel filename).Returns s rc s' →
      FileStep (s, returned) (.remove fuel filename) (s', returned)
  | fflush {s s' returned fuel fp rc} : returned fp → (tfFflush fuel fp).Returns s rc s' →
      FileStep (s, returned) (.fflush fuel fp) (s', returned)
  | fclose {s s' returned fuel fp rc} : returned fp → (tfFclose fuel fp).Returns s rc s' →
      FileStep (s, returned) (.fclose fuel fp) (s', fun h => returned h ∧ h ≠ fp)

/-- No handle is free. -/
def Fs.Full (s : Fs) : Prop := ∀ h, s.openHandles h = true

/-- The open handles are those that were returned and not closed, and where none is free a file is
not opened. -/
structure Accounted (returned : Handle → Prop) (s : Fs) : Prop where
  opened : ∀ h, s.openHandles h = true ↔ returned h
  refused : s.Full → ∀ fuel filename mode, (tfFopen fuel filename mode s).2 ≠ .error .nullHandle ∧
    ∀ r s', (tfFopen fuel filename mode).Returns s r s' → r = none

/-- Calls that lose no handle: the volume is refused when it is mounted, files are opened that do
not exist before, with one more handle free than is needed, and no file is removed. -/
def FileOp.Safe (s : Fs) : FileOp → Prop
  | init _ => bootClusters s.bootSector < 65525
  | fopen fuel filename mode => ¬ s.Finds fuel filename mode ∧
      ∃ h h', h ≠ h' ∧ s.openHandles h = false ∧ s.openHandles h' = false
  | remove fuel filename => ¬ s.Finds fuel filename "r"
  | create _ _ | fflush _ _ | fclose _ _ => True

/-- What the calls keep. -/
structure Balanced (c : Fs × (Handle → Prop)) : Prop where
  opened : ∀ h, c.1.openHandles h = true ↔ c.2 h
  free : ¬ c.1.Full

theorem Balanced.of_opens {s s' : Fs} {returned : Handle → Prop} (h : Balanced (s, returned))
    (hO : Opens s.openHandles s') : Balanced (s', returned) := by
  constructor
  · intro fp
    rw [hO]
    exact h.opened fp
  · unfold Fs.Full
    rw [hO]
    exact h.free

theorem Balanced.step {c c' : Fs × (Handle → Prop)} {op : FileOp} (h : Balanced c)
    (hsafe : op.Safe c.1) (hstep : FileStep c op c') : Balanced c' := by
  cases hstep with
  | init hrun => exact h.of_opens ((keeps_tfInit hsafe).ends ⟨rfl, rfl⟩ hrun)
  | create hrun => exact h.of_opens (keeps_tfCreate.keeps rfl hrun)
  | remove hrun => exact h.of_opens (keeps_tfRemove.ends ⟨rfl, hsafe⟩ hrun)
  | fflush _ hrun => exact h.of_opens ((keeps_tfFflush _ _).keeps rfl hrun)
  | @fopen s s' returned fuel filename mode r hrun =>
    obtain ⟨hmissing, h₁, h₂, hne, hfree₁, hfree₂⟩ := hsafe
    have htakes := takes_tfFopen.ends ⟨rfl, hmissing⟩ hrun
    cases r with
    | none =>
      have hsame : (fun h => returned h ∨ (none : Option Handle) = some h) = returned := by
        funext h
        exact propext (or_iff_left nofun)
      rw [hsame]
      exact h.of_opens htakes
    | some fp =>
      obtain ⟨-, htaken⟩ := htakes
      constructor
      · intro h'
        rw [htaken]
        by_cases heq : h' = fp
        · rw [heq, WriteBack.set_self]
          exact iff_of_true rfl (Or.inr rfl)
        · rw [WriteBack.set_ne heq]
          exact (h.opened h').trans (or_iff_left fun hsome => heq (Option.some.inj hsome).symm).symm
      · intro hfull
        unfold Fs.Full at hfull
        rw [htaken] at hfull
        by_cases heq : h₁ = fp
        · have hopen := hfull h₂
          rw [WriteBack.set_ne fun heq' => hne (heq.trans heq'.symm), hfree₂] at hopen
          cases hopen
        · have hopen := hfull h₁
          rw [WriteBack.set_ne heq, hfree₁] at hopen
          cases hopen
  | @fclose s s' returned fuel fp rc _ hrun =>
    have hclosed := opens_tfFclose rfl hrun
    constructor
    · intro h'
      rw [hclosed]
      by_cases heq : h' = fp
      · rw [heq, WriteBack.set_self]
        exact iff_of_false Bool.false_ne_true fun hne => hne.2 rfl
      · rw [WriteBack.set_ne heq]
        exact (h.opened h').trans (and_iff_left heq).symm
    · intro hfull
      have hopen := hfull fp
      rw [hclosed, WriteBack.set_self] at hopen
      cases hopen

/-- After any run of safe calls the open handles are those that were returned and not closed. -/
theorem handles_accounted {s₀ s : Fs} {ops : List FileOp} {returned : Handle → Prop}
    (hstart : ∀ h, s₀.openHandles h = false)
    (hrun : Run (fun c op c' => op.Safe c.1 ∧ FileStep c op c') (s₀, fun _ => False) ops
      (s, returned)) : Accounted returned s := by
  have hbalanced : Balanced (s, returned) := by
    refine hrun.invariant ⟨fun h => ?_, fun hfull => ?_⟩ fun h hstep => h.step hstep.1 hstep.2
    · exact iff_of_false (ne_true_of_eq_false (hstart h)) not_false
    · exact Bool.false_ne_true ((hstart ⟨0, by decide⟩).symm.trans (hfull _))
  exact ⟨hbalanced.opened, fun hfull => absurd hfull hbalanced.free⟩

/-- The path `/a.log`. -/
def newPath : Path where
  bytes := fun k => [slash, 0x61#8, 0x2e#8, 0x6c#8, 0x6f#8, 0x67#8].getD k 0#8
  off := 0

/-- There is no such file on an empty volume. -/
theorem not_finds_newPath : ¬ Fs.blank.Finds 6 newPath "w" := by
  have hnone : ∃ t, (strlen newPath maxString 0 >>= tfFnopen 6 newPath "w").Returns
      Fs.blank none t := by decide +kernel
  obtain ⟨r, hnone⟩ := hnone
  rintro ⟨n, t, fp, t', hlen, hfound⟩
  cases hnone.symm.trans (Exec.returns_bind.mpr ⟨n, t, hlen, hfound⟩)

/-- It is created when it is opened, and then it is closed. -/
theorem handles_accounted_created : ∃ s s' rc,
    (tfFopen 6 newPath "w").Returns Fs.blank (some firstHandle) s ∧
    Accounted (fun h => h = firstHandle) s ∧ (tfFclose 1 firstHandle).Returns s rc s' ∧
    Accounted (fun _ => False) s' := by
  have hcreated : ∃ s, (tfFopen 6 newPath "w").Returns Fs.blank (some firstHandle) s := by
    decide +kernel
  have hboth : ∃ s', (tfFopen 6 newPath "w" >>= fun _ => tfFclose 1 firstHandle).Returns
      Fs.blank 0#32 s' := by decide +kernel
  obtain ⟨s, hopen⟩ := hcreated
  obtain ⟨s', hboth⟩ := hboth
  obtain ⟨_, _, hopen', hclose⟩ := Exec.returns_bind.mp hboth
  cases hopen.symm.trans hopen'
  have hfree : ∀ h, Fs.blank.openHandles h = false :=
    fun _ => (by decide : flagged 0#8 tfFlagOpen = false)
  have hsafe : FileOp.Safe Fs.blank (.fopen 6 newPath "w") :=
    ⟨not_finds_newPath, ⟨0, by decide⟩, ⟨1, by decide⟩, by decide, hfree _, hfree _⟩
  have hreturned : (fun h => False ∨ some firstHandle = some h) = fun h => h = firstHandle := by
    funext h
    rw [false_or, Option.some.injEq]
    exact propext eq_comm
  have hclosed : (fun h => h = firstHandle ∧ h ≠ firstHandle) = fun _ => False := by
    funext h
    rw [and_not_self_iff]
  have hsafe' : FileOp.Safe s (.fclose 1 firstHandle) := trivial
  have hstep : FileStep (Fs.blank, fun _ => False) (.fopen 6 newPath "w")
      (s, fun h => h = firstHandle) := hreturned ▸ .fopen hopen
  have hstep' : FileStep (s, fun h => h = firstHandle) (.fclose 1 firstHandle)
      (s', fun _ => False) := hclosed ▸ .fclose rfl hclose
  exact ⟨s, s', 0#32, hopen, handles_accounted hfree (.snoc .nil ⟨hsafe, hstep⟩), hclose,
    handles_accounted hfree (.snoc (.snoc .nil ⟨hsafe, hstep⟩) ⟨hsafe', hstep'⟩)⟩

/-- The root directory is opened with handle 1, and handle 0 stays open. -/
theorem tfFopen_leaks : ∃ s returned,
    Run FileStep (Fs.blank, fun _ => False) [.fopen 1 rootPath "r"] (s, returned) ∧
    ¬ Accounted returned s := by
  have hrun : ∃ s r, (tfFopen 1 rootPath "r").Returns Fs.blank r s ∧ r ≠ some firstHandle ∧
      (s.handles firstHandle).flags = 0x0a#8 := ⟨_, _, rfl, by decide, rfl⟩
  obtain ⟨s, r, hrun, hreturned, hflags⟩ := hrun
  refine ⟨s, _, .snoc .nil (.fopen hrun), fun h => ?_⟩
  have hopen : s.openHandles firstHandle = true := by
    unfold Fs.openHandles
    rw [hflags]
    decide
  rcases (h.opened firstHandle).mp hopen with hfalse | heq
  · exact hfalse
  · exact hreturned heq

end Mavmm.Hostfs
