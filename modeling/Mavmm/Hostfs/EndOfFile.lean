import Mavmm.Hostfs.FileRuns

/-!
# The end of a file

The seek behind the last byte of a file fails, and with it the call that has
read this byte; a file that has grown has room for one byte more.  A call ends
where it should exactly when it does not end with the last byte of a file that
is as it was, or gets behind the last byte of one that has grown
(`tfFread_endOfFile_iff`).
-/

namespace Mavmm.Hostfs

/-- Byte `k` of the file that begins with the cluster `c`, along its chain. -/
def TfInfo.FileByte (i : TfInfo) (vol : Disk) (c : BitVec 32) (k : Nat) (v : Byte) : Prop :=
  ∃ cs d, i.Chain vol c cs ∧ cs[k / i.clusterSize]? = some d ∧
    v = i.byteAt vol d (k % i.clusterSize)

/-- A call of `tf_fread` on a file of `n` bytes returns 0 and has read all bytes from the position
on exactly when the file has so many, and reads none behind its end. -/
def ReadsToEnd (i : TfInfo) (fp : Handle) (n len : Nat) (s : Fs) : Prop :=
  ∃ r s', (tfFread fp len).Returns s r s' ∧
    ((r.2 = 0#32 ∧ r.1.length = len ∧
        (∀ k v, r.1[k]? = some v → i.FileByte s.volume (s.handles fp).startCluster
          ((s.handles fp).pos.toNat + k) v) ∧
        (s'.handles fp).pos.toNat = (s.handles fp).pos.toNat + len) ↔
      (s.handles fp).pos.toNat + len ≤ n) ∧
    (s.handles fp).pos.toNat + r.1.length ≤ n

/-- The bytes at the positions are those of the first cluster, around its end. -/
def TfInfo.FirstCluster (i : TfInfo) (vol : Disk) (c : BitVec 32) (t len : Nat) : Prop :=
  ∀ k < len, i.FileByte vol c (t + k) (i.byteAt vol c ((t + k) % i.clusterSize))

/-- Nothing is read; or the call ends within the file if this has changed its size, and does not
begin or end with its end otherwise, and what it is to read is in the first cluster. -/
def EndsWell (i : TfInfo) (fp : Handle) (n len : Nat) (s : Fs) : Prop :=
  len = 0 ∨
    (if flagged (s.handles fp).flags tfFlagSizechanged then (s.handles fp).pos.toNat + len ≤ n
      else (s.handles fp).pos.toNat < n ∧ (s.handles fp).pos.toNat + len ≠ n) ∧
    ((s.handles fp).pos.toNat + len ≤ n → i.FirstCluster s.volume (s.handles fp).startCluster
      (s.handles fp).pos.toNat len)

section
variable {i : TfInfo} {vol : Disk} {fp : Handle} {c : BitVec 32} {l : Location} {s : Fs} {t n : Nat}

/-- The bytes that are read are those of the file. -/
theorem read_fileBytes_iff {len : Nat} :
    (∀ k v, (Ring.read i.clusterSize (i.byteAt vol c) t len)[k]? = some v →
      i.FileByte vol c (t + k) v) ↔ i.FirstCluster vol c t len := by
  have hget : ∀ k v, (Ring.read i.clusterSize (i.byteAt vol c) t len)[k]? = some v ↔
      k < len ∧ i.byteAt vol c ((t + k) % i.clusterSize) = v := by
    intro k v
    rw [List.getElem?_eq_some_iff]
    constructor
    · rintro ⟨hk, rfl⟩
      rw [Ring.getElem_read]
      rw [Ring.length_read] at hk
      exact ⟨hk, rfl⟩
    · rintro ⟨hk, rfl⟩
      exact ⟨by rwa [Ring.length_read], Ring.getElem_read _⟩
  constructor
  · exact fun h k hk => h k _ ((hget k _).mpr ⟨hk, rfl⟩)
  · rintro h k v hkv
    obtain ⟨hk, rfl⟩ := (hget k v).mp hkv
    exact h k hk

/-- Every call on a handle of a file ends well exactly under this condition. -/
theorem OpenFile.readsToEnd_iff {len : Nat} (hi : i.Fat32) (hc : i.IsCluster c)
    (h : OpenFile i l c fp s) (hallowed : (HandleOp.read len).Allowed i l fp s) :
    ReadsToEnd i fp (s.handles fp).recordedSize len s ↔
      EndsWell i fp (s.handles fp).recordedSize len s := by
  have hstart := h.handle.startCluster
  have hmarked := h.handle.marked
  have hwithin := h.handle.within
  obtain ⟨r, f', hdoes, hends⟩ := @does_tfFread_ends i s.volume fp c 0 hi hc len _ _ h.handle
    (h.handle.startCluster ▸ hallowed)
  obtain ⟨s', hread, hs'⟩ := hdoes.returns h.shows
  have hhandle : s'.handles fp = f' := by rw [hs'.handles, WriteBack.set_self]
  have hpos := hends.handle.pos
  have hlength := congrArg List.length hends.bytes
  rw [Ring.length_read] at hlength
  have hunique : ReadsToEnd i fp (s.handles fp).recordedSize len s ↔
      ((r.2 = 0#32 ∧ r.1.length = len ∧
        (∀ k v, r.1[k]? = some v → i.FileByte s.volume (s.handles fp).startCluster
          ((s.handles fp).pos.toNat + k) v) ∧
        (s'.handles fp).pos.toNat = (s.handles fp).pos.toNat + len) ↔
      (s.handles fp).pos.toNat + len ≤ (s.handles fp).recordedSize) ∧
      (s.handles fp).pos.toNat + r.1.length ≤ (s.handles fp).recordedSize := by
    constructor
    · rintro ⟨r', s'', hread', hproper⟩
      obtain ⟨rfl, rfl⟩ := hread.unique hread'
      exact hproper
    · exact fun hproper => ⟨r, s', hread, hproper⟩
  rw [hunique, hhandle, hpos, hends.rc, hlength, hends.bytes, hstart]
  unfold EndsWell
  rw [hstart]
  have hn : (s.handles fp).recordedSize = if flagged (s.handles fp).flags tfFlagSizechanged then
      (s.handles fp).size.toNat - 1 else (s.handles fp).size.toNat := rfl
  generalize (s.handles fp).recordedSize = n at *
  generalize (s.handles fp).pos.toNat = t at *
  generalize (s.handles fp).size.toNat = size at *
  by_cases hdone : len = 0 ∨ t + len < size
  · have hwhole : readLength size t len = len := by
      unfold readLength
      split <;> omega
    have hle : t + len ≤ n := by
      rw [hn]
      split
      · next hflag =>
        have hpositive := hmarked hflag
        omega
      · omega
    have hbytes := @read_fileBytes_iff i s.volume c t len
    rw [if_pos hdone, if_pos hdone, hwhole, hbytes]
    constructor
    · rintro ⟨hproper, -⟩
      obtain ⟨-, -, hfirst, -⟩ := hproper.mpr hle
      rcases Nat.eq_zero_or_pos len with hzero | hpositive
      · exact Or.inl hzero
      · refine Or.inr ⟨?_, fun _ => hfirst⟩
        split
        · exact hle
        · next hflag =>
          rw [if_neg hflag] at hn
          omega
    · intro hwell
      have hfirst : i.FirstCluster s.volume c t len := by
        rcases hwell with rfl | ⟨-, hfirst⟩
        · exact nofun
        · exact hfirst hle
      exact ⟨iff_of_true ⟨rfl, rfl, hfirst, rfl⟩ hle, hle⟩
  · have hfails : ¬ (-1#32 : BitVec 32) = 0#32 := by decide
    have hread : readLength size t len = min len (max 1 (size - t)) := if_neg fun h => hdone (Or.inr h)
    rw [if_neg hdone, hread]
    constructor
    · rintro ⟨hproper, hle⟩
      have hbehind : ¬ t + len ≤ n := fun h => hfails (hproper.mpr h).1
      refine Or.inr ⟨?_, fun h => absurd h hbehind⟩
      split
      · next hflag =>
        -- the byte behind the last one has been read
        have hpositive := hmarked hflag
        rw [if_pos hflag] at hn
        omega
      · next hflag =>
        rw [if_neg hflag] at hn
        omega
    · rintro (hzero | ⟨hends, -⟩)
      · exact absurd (Or.inl hzero) hdone
      · split at hends
        · next hflag =>
          have hpositive := hmarked hflag
          rw [if_pos hflag] at hn
          omega
        · next hflag =>
          rw [if_neg hflag] at hn
          refine ⟨iff_of_false (fun h => hfails h.1) (by omega), by omega⟩

/-- In every state that is reached from the opening of a regular file by reading, writing, seeking
and flushing, a call of `tf_fread` whose bytes the driver comes to ends as it should exactly if it
does so under the condition on this state; the file has the size that it was opened with, or as far
as it has been written. -/
theorem tfFread_endOfFile_iff {s s₁ s₂ : Fs} {mode : String} {fuel high : Nat} {ops : List HandleOp}
    (hs : s.Mounted) (hpath : l.Located s.info s.volume)
    (hfile : (l.entry s.info s.volume).Regular)
    (hc : s.info.IsCluster (l.entry s.info s.volume).startCluster)
    (hmode : strchr mode 'a' = false)
    (hopen : (tfFopen fuel l.path mode).Returns s (some fp) s₁)
    (hrun : Run (UseStep s.info l fp) (s₁, 0) ops (s₂, high)) {len : Nat}
    (hlen : (HandleOp.read len).Allowed s.info l fp s₂) :
    ReadsToEnd s.info fp (max (l.entry s.info s.volume).msdosFileSize.toNat high) len s₂ ↔
      EndsWell s.info fp (max (l.entry s.info s.volume).msdosFileSize.toNat high) len s₂ := by
  have hi := hs.fat32
  obtain ⟨fp', heq, -, -, hfile₁, hfresh⟩ := returns_tfFopen_open hi hpath hfile hc
    (fun ha => absurd (hmode.symm.trans ha) Bool.false_ne_true) hs.shows hopen
  cases heq
  have hused : Used s.info l (l.entry s.info s.volume).startCluster fp
      (l.entry s.info s.volume).msdosFileSize.toNat (s₂, high) := by
    refine hrun.invariant ⟨hfile₁, ?_⟩ fun hused hstep => hused.step hi hc hstep
    rw [hfresh.recordedSize, Nat.max_zero]
  have hiff := @OpenFile.readsToEnd_iff s.info fp _ l s₂ len hi hc hused.file hlen
  rw [hused.recordedSize] at hiff
  exact hiff

end

/-! ## A short file -/

/-- A volume with one file, the first cluster of which is 3. -/
def Fs.ofFile (e : ShortEntry) : Fs :=
  { Fs.ofDirectory [⟨none, e⟩] with
    disk := WriteBack.set (Fs.ofDirectory [⟨none, e⟩]).disk 32#32
      (Bytes.putWord (fun _ => 0#8) 4 12 lastCluster) }

section
variable {e : ShortEntry}

theorem mounted_ofFile : (Fs.ofFile e).Mounted := by
  have hclean := clean_ofDirectory [⟨none, e⟩]
  have hfront : ¬ Fs.blank.info.IsData Fs.blank.info.currentSector := by decide
  exact ⟨fun _ => rfl, mounted_twoClusters.fat32,
    fun hdirty => absurd (hclean.symm.trans hdirty) Bool.false_ne_true,
    fun _ hdata => absurd hdata hfront⟩

theorem holds_ofFile :
    (Fs.ofFile e).info.Holds (Fs.ofFile e).volume 2#32 (directoryBytes [⟨none, e⟩]) := by
  have hlength : (directoryBytes [⟨none, e⟩]).length = 64 := rfl
  have hholds := @holds_ofDirectory [⟨none, e⟩] (by rw [hlength]; decide)
  refine ⟨hholds.1, fun k hk => Eq.trans ?_ (hholds.2 k hk)⟩
  rw [hlength] at hk
  have hsector : Fs.blank.info.sectorAt 2#32 k = 1056#32 := by
    have hfirst : Fs.blank.info.sectorAt 2#32 0 = 1056#32 := by decide
    have hblock : k / 512 = 0 / 512 := by omega
    rw [← hfirst]
    unfold TfInfo.sectorAt
    rw [hblock]
  have hclean := Bool.eq_false_iff.mp (clean_ofDirectory [⟨none, e⟩])
  have hvolume : (Fs.ofFile e).volume = (Fs.ofFile e).disk := if_neg hclean
  have hvolume' : (Fs.ofDirectory [⟨none, e⟩]).volume = (Fs.ofDirectory [⟨none, e⟩]).disk :=
    if_neg hclean
  have hdisk : (Fs.ofFile e).disk 1056#32 = (Fs.ofDirectory [⟨none, e⟩]).disk 1056#32 := by
    have hother : (1056#32 : BitVec 32) ≠ 32#32 := by decide
    unfold Fs.ofFile
    dsimp only
    rw [WriteBack.set_ne hother]
  have hinfo : ∀ vol, (Fs.ofDirectory [⟨none, e⟩]).info.byteAt vol 2#32 k =
      vol (Fs.blank.info.sectorAt 2#32 k) (k % 512) := fun _ => rfl
  have hinfo' : ∀ vol, (Fs.ofFile e).info.byteAt vol 2#32 k =
      vol (Fs.blank.info.sectorAt 2#32 k) (k % 512) := fun _ => rfl
  rw [hinfo, hinfo', hsector, hvolume, hvolume', hdisk]

end

def secondHandle : Handle := ⟨1, by decide⟩

/-- The file `A.TXT` of 5 bytes in cluster 3. -/
def textEntry : ShortEntry where
  bytes := fun k => [0x41#8, 0x20#8, 0x20#8, 0x20#8, 0x20#8, 0x20#8, 0x20#8, 0x20#8, 0x54#8, 0x58#8,
    0x54#8, 0x20#8, 0#8, 0#8, 0#8, 0#8, 0#8, 0#8, 0#8, 0#8, 0#8, 0#8, 0#8, 0#8, 0#8, 0#8, 3#8, 0#8,
    5#8].getD k 0#8
  attributes := by decide
  used := by decide
  name := by decide

/-- `/a.txt`. -/
def textLocation : Location where
  path := { bytes := fun k => [0x2f#8, 0x61#8, 0x2e#8, 0x74#8, 0x78#8, 0x74#8].getD k 0#8, off := 0 }
  len := 6
  separator := 0
  directory := 2#32
  record := 0

theorem resolved_ofText :
    textLocation.Resolved (Fs.ofFile textEntry).info (Fs.ofFile textEntry).volume := by
  have hleaf : ∀ k < 6, 0 < k → textLocation.path.get k ≠ slash := by decide
  have hstop : (textLocation.path.skip 1).StopsAt 11 := by decide
  exact resolves_first mounted_ofFile.fat32 (by decide) rfl holds_ofFile
    ⟨by decide, by decide, by decide, fun k hpos hk => hleaf k hk hpos⟩ hstop (by decide)

/-- Two bytes of the file are read, and then ten, where three are left. -/
theorem tfFread_endOfFile_iff_behind : ∃ s₁ s₂,
    (tfFopen 2 textLocation.path "r").Returns (Fs.ofFile textEntry) (some secondHandle) s₁ ∧
    Run (UseStep (Fs.ofFile textEntry).info textLocation secondHandle) (s₁, 0) [.read 2] (s₂, 0) ∧
    ReadsToEnd (Fs.ofFile textEntry).info secondHandle 5 10 s₂ := by
  have hcalls : ∃ s', (do
      let fp ← deref (← tfFopen 2 textLocation.path "r")
      let start := (← file fp).startCluster
      let _ ← tfFread fp 2
      let f ← file fp
      return (fp, start, f.startCluster, f.pos, flagged f.flags tfFlagSizechanged)).Returns
        (Fs.ofFile textEntry) (secondHandle, 3#32, 3#32, 2#32, false) s' := by decide +kernel
  obtain ⟨s', hcalls⟩ := hcalls
  obtain ⟨r, s₁, hopen, hcalls⟩ := Exec.returns_bind.mp hcalls
  cases r with
  | none => cases hcalls
  | some fp =>
    obtain ⟨_, _, hderef, hcalls⟩ := Exec.returns_bind.mp hcalls
    cases hderef
    have hcalls := Exec.returns_read_bind.mp hcalls
    obtain ⟨r, s₂, hread, hcalls⟩ := Exec.returns_bind.mp hcalls
    have hcalls := Exec.returns_read_bind.mp hcalls
    obtain ⟨heq, rfl⟩ := Exec.returns_pure.mp hcalls
    rw [Prod.mk.injEq, Prod.mk.injEq, Prod.mk.injEq, Prod.mk.injEq] at heq
    obtain ⟨rfl, hstart, hstart', hpos, hflags⟩ := heq
    have hallowed : ∀ {s : Fs} {len : Nat}, (s.handles secondHandle).startCluster = 3#32 →
        (HandleOp.read len).Allowed (Fs.ofFile textEntry).info textLocation secondHandle s := by
      intro s len h
      unfold HandleOp.Allowed
      rw [h]
      exact mounted_ofFile.fat32.reach (by decide) (by decide) (by decide)
    have hrun : Run (UseStep (Fs.ofFile textEntry).info textLocation secondHandle) (s₁, 0) [.read 2]
        (s₂, 0) := .snoc .nil ⟨hallowed hstart, ⟨r, hread⟩, rfl⟩
    have hsize : max (textLocation.entry (Fs.ofFile textEntry).info
        (Fs.ofFile textEntry).volume).msdosFileSize.toNat 0 = 5 := by decide
    have hiff := tfFread_endOfFile_iff mounted_ofFile resolved_ofText.toLocates (by decide)
      (by decide) (by decide) hopen hrun (@hallowed s₂ 10 hstart')
    rw [hsize] at hiff
    have hends : EndsWell (Fs.ofFile textEntry).info secondHandle 5 10 s₂ := by
      unfold EndsWell
      rw [hpos, hflags, if_neg Bool.false_ne_true]
      exact Or.inr ⟨by decide, fun hin => absurd hin (by decide)⟩
    exact ⟨s₁, s₂, hopen, hrun, hiff.mpr hends⟩

/-- The file `INITRD00.IMG` of 5 bytes in cluster 3. -/
def imageEntry : ShortEntry where
  bytes := fun k => [0x49#8, 0x4e#8, 0x49#8, 0x54#8, 0x52#8, 0x44#8, 0x30#8, 0x30#8, 0x49#8, 0x4d#8,
    0x47#8, 0x20#8, 0#8, 0#8, 0#8, 0#8, 0#8, 0#8, 0#8, 0#8, 0#8, 0#8, 0#8, 0#8, 0#8, 0#8, 3#8, 0#8,
    5#8].getD k 0#8
  attributes := by decide
  used := by decide
  name := by decide

/-- `/initrd00.img`. -/
def imageLocation : Location where
  path := initrdPath.skip 4
  len := 13
  separator := 0
  directory := 2#32
  record := 0

theorem resolved_ofImage :
    imageLocation.Resolved (Fs.ofFile imageEntry).info (Fs.ofFile imageEntry).volume := by
  have hstop : (imageLocation.path.skip 1).StopsAt 12 := by decide
  exact resolves_first mounted_ofFile.fat32 (by decide) rfl holds_ofFile inRoot_initrd hstop
    (by decide)

/-- The call that reads all five bytes fails with the last one. -/
theorem tfFread_fails_at_end : ∃ s₁, (Fs.ofFile imageEntry).Mounted ∧
    imageLocation.Resolved (Fs.ofFile imageEntry).info (Fs.ofFile imageEntry).volume ∧
    (imageLocation.entry (Fs.ofFile imageEntry).info (Fs.ofFile imageEntry).volume).msdosFileSize = 5#32 ∧
    (tfFopen 2 imageLocation.path "r").Returns (Fs.ofFile imageEntry) (some secondHandle) s₁ ∧
    ¬ ReadsToEnd (Fs.ofFile imageEntry).info secondHandle 5 5 s₁ := by
  have hrun : ∃ s', (do
      let fp ← deref (← tfFopen 2 imageLocation.path "r")
      let pos := (← file fp).pos
      let r ← tfFread fp 5
      return (fp, pos, r.2)).Returns (Fs.ofFile imageEntry) (secondHandle, 0#32, -1#32) s' := by decide +kernel
  obtain ⟨s', hrun⟩ := hrun
  obtain ⟨r, s₁, hopen, hrun⟩ := Exec.returns_bind.mp hrun
  cases r with
  | none => cases hrun
  | some fp =>
    obtain ⟨_, _, hderef, hrun⟩ := Exec.returns_bind.mp hrun
    cases hderef
    have hrun := Exec.returns_read_bind.mp hrun
    obtain ⟨r, s₂, hread, hrun⟩ := Exec.returns_bind.mp hrun
    obtain ⟨heq, rfl⟩ := Exec.returns_pure.mp hrun
    rw [Prod.mk.injEq, Prod.mk.injEq] at heq
    obtain ⟨rfl, hpos, hrc⟩ := heq
    refine ⟨s₁, mounted_ofFile, resolved_ofImage, by decide, hopen, ?_⟩
    rintro ⟨r', s'', hread', hproper, -⟩
    obtain ⟨rfl, -⟩ := hread.unique hread'
    have hle : (s₁.handles secondHandle).pos.toNat + 5 ≤ 5 := by
      rw [hpos]
      decide
    exact absurd (hrc.symm.trans (hproper.mpr hle).1) (by decide)

end Mavmm.Hostfs
