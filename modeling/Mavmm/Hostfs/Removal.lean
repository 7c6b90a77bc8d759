import Mavmm.Hostfs.Handles
import Mavmm.Hostfs.Lookup

/-!
# Removing a file

The entries that follow a file are moved forward by 36 bytes, and the records
of its long name stay.  A directory with one file and no long name is empty
afterwards, whatever the path of the file looks like (`tfRemove_exact`); the
record behind a file loses its first four bytes.
-/

namespace Mavmm.Hostfs

section
variable {i : TfInfo} {vol : Disk} {files : Handle → TfFile} {fp : Handle} {c : BitVec 32}
  {last t fuel : Nat} {entry : FatFileEntry} {s s' : Fs}

/-! ## Moving entries -/

/-- Bytes that fit are written at a position. -/
theorem run_tfFwrite (hi : i.Fat32) (hc : i.IsCluster c) {src : List Byte}
    (ht : t + src.length ≤ i.clusterSize) (hreach : i.Reach c t src.length)
    (hs : ReadsAt i vol files fp c t s) : ∃ es s' vol', (tfFwrite fp src).Runs s es 0#32 s' ∧
      ReadsAt i vol' files fp c (t + src.length) s' ∧
      (∀ k < i.clusterSize, i.byteAt vol' c k =
        if t ≤ k then src.getD (k - t) (i.byteAt vol c k) else i.byteAt vol c k) ∧
      ∀ u, ¬ i.Covers c u → vol' u = vol u := by
  have hsize := i.clusterSize_lt
  obtain ⟨f, hf, hattr, hshows⟩ := hs
  let f₁ : TfFile := { f with flags := f.flags ||| tfFlagDirty }
  have hstands : f₁.Stands i.clusterSize c t :=
    ⟨hf.stands.startCluster, hf.stands.currentCluster, hf.stands.pos, hf.stands.currentByte,
      hf.stands.size, hf.stands.overflow⟩
  obtain ⟨vol', f', hbytes, hstands', hframe, hring, hattr', hsize'⟩ :=
    @does_fwriteBytes i fp c 0 hi hc
    src t vol (WriteBack.set files fp f₁) (by rw [WriteBack.set_self]; exact hstands) (by omega)
    hreach
  rw [WriteBack.set_self] at hattr' hsize'
  rw [WriteBack.set_set] at hbytes
  have hwrite : Does 0 i vol (WriteBack.set files fp f) (tfFwrite fp src) 0#32 vol'
      (WriteBack.set files fp f') := by
    unfold tfFwrite
    refine (does_modifyFile _).bind ?_
    rw [WriteBack.set_self, WriteBack.set_set]
    exact hbytes
  have hlast : f₁.size.toNat = 2 ^ 32 - 1 := congrArg BitVec.toNat hf.size
  obtain ⟨es, s', hrun, hs', -⟩ := hwrite s hshows
  refine ⟨es, s', vol', hrun, ⟨f', ⟨hstands', ?_⟩, hattr'.trans hattr, hs'⟩, fun k hk => ?_, hframe⟩
  · exact (hsize' (by omega)).trans hf.size
  · rw [hring (by omega) k hk, Ring.write_eq ht]

/-- The last round of the loop: the entry that follows begins with 0. -/
theorem run_shiftEntries_last (hi : i.Fat32) (hc : i.IsCluster c) (ht : t + 72 ≤ i.clusterSize)
    (hreach : i.Reach c t 72) (hzero : i.byteAt vol c (t + 36) = 0#8)
    (hs : ReadsAt i vol files fp c t s) : ∃ es s' vol', (shiftEntries fp (fuel + 1) entry).Runs s es () s' ∧
      ReadsAt i vol' files fp c (t + 36) s' ∧
      ∀ k < i.clusterSize, i.byteAt vol' c k =
        if t ≤ k ∧ k < t + 36 then i.byteAt vol c (k + 36) else i.byteAt vol c k := by
  have hsize := i.clusterSize_lt
  have hnext : i.Reach c (t + 36) 36 := hreach.sub (by omega) (by omega)
  obtain ⟨es₁, s₁, hrun₁, hs₁, -⟩ := @readsAt_fseekEntries i vol files fp c 0 t hi hc 1 (t + 36)
    (by simp) (by omega) (by omega) (by omega) s hs
  obtain ⟨es₂, s₂, hrun₂, hs₂, -⟩ := @readsAt_freadEntry i vol files fp c 0 (t + 36) entry hi hc
    (by omega) hnext s₁ hs₁
  obtain ⟨es₃, s₃, hrun₃, hs₃, -⟩ := @readsAt_fseekEntries i vol files fp c 0 (t + 36 + 36) hi hc
    (-2) t (by simp) (by omega) (by omega) (by omega) s₂ hs₂
  have hbytes : ∀ k < 36, i.entryAt vol c (t + 36) entry k = i.byteAt vol c (t + 36 + k) :=
    fun k hk => TfInfo.entryAt_eq (by omega) hk
  generalize i.entryAt vol c (t + 36) entry = next at *
  have hlength : (FatFileEntry.toBytes next).length = 36 := by
    unfold FatFileEntry.toBytes
    rw [List.length_map, List.length_range, sizeofFatFileEntry_eq]
  obtain ⟨es₄, s₄, vol', hrun₄, hs₄, hvol', -⟩ := @run_tfFwrite i vol files fp c t s₃ hi hc
    (FatFileEntry.toBytes next) (by omega) (hreach.sub (Nat.le_refl t) (by omega)) hs₃
  rw [hlength] at hs₄
  have hfirst : next 0 = 0#8 := by rw [hbytes 0 (by simp), Nat.add_zero, hzero]
  refine ⟨es₁ ++ (es₂ ++ (es₃ ++ (es₄ ++ []))), s₄, vol', ?_, hs₄, fun k hk => ?_⟩
  · unfold shiftEntries
    refine (Exec.runs_bind_of hrun₁).mpr ⟨_, ?_, rfl⟩
    rw [if_neg (not_not_intro rfl)]
    refine (Exec.runs_bind_of hrun₂).mpr ⟨_, ?_, rfl⟩
    refine (Exec.runs_bind_of hrun₃).mpr ⟨_, ?_, rfl⟩
    refine (Exec.runs_bind_of hrun₄).mpr ⟨_, ?_, rfl⟩
    rw [if_pos hfirst]
    rfl
  · rw [hvol' k hk]
    by_cases hin : t ≤ k ∧ k < t + 36
    · have hpos : t + 36 + (k - t) = k + 36 := by omega
      rw [if_pos hin, if_pos hin.1, List.getD_eq_getElem _ _ (by omega)]
      unfold FatFileEntry.toBytes
      rw [List.getElem_map, List.getElem_range, hbytes _ (by omega), hpos]
    · rw [if_neg hin]
      split
      · exact List.getD_eq_default _ _ (by omega)
      · rfl

/-! ## Opening a path in the root directory -/

/-- The path of a file in the root directory. -/
structure Path.InRoot (filename : Path) (len : Nat) : Prop where
  ends : filename.Ends len
  root : filename.get 0 = slash
  leaf : 1 < len ∧ ∀ k, 0 < k → k < len → filename.get k ≠ slash

variable {filename : Path} {len n : Nat} {mode : String}

theorem returns_strlen {p : Path} {k : Nat} (h : (strlen p fuel k).Returns s n s') :
    k ≤ n ∧ p.get n = 0#8 ∧ ∀ j, k ≤ j → j < n → p.get j ≠ 0#8 := by
  induction fuel generalizing k with
  | zero => cases h
  | succ fuel ih =>
    unfold strlen at h
    rw [returns_charAt_bind] at h
    split at h
    · next hzero =>
      obtain ⟨rfl, -⟩ := Exec.returns_pure.mp h
      exact ⟨Nat.le_refl k, hzero, fun j hj hlt => absurd hlt (by omega)⟩
    · next hne =>
      obtain ⟨hle, hzero, hbefore⟩ := ih h
      refine ⟨by omega, hzero, fun j hj hlt => ?_⟩
      rcases Nat.lt_or_eq_of_le hj with hj | rfl
      · exact hbefore j hj hlt
      · exact hne

theorem Path.Ends.unique {p : Path} {a b : Nat} (ha : p.Ends a) (hb : p.Ends b) : a = b := by
  rcases Nat.lt_trichotomy a b with hlt | heq | hlt
  · exact absurd ha.1 (hb.2 a hlt)
  · exact heq
  · exact absurd hb.1 (ha.2 b hlt)

theorem Path.Ends.of_strlen {p : Path} (h : (strlen p fuel 0).Returns s n s') : p.Ends n := by
  obtain ⟨-, hzero, hbefore⟩ := returns_strlen h
  exact ⟨hzero, fun k hk => hbefore k (Nat.zero_le k) hk⟩

theorem returns_lastSlash (hpath : filename.InRoot len)
    (h : (lastSlash filename).Returns s n s') : n = 0 := by
  unfold lastSlash at h
  obtain ⟨r, t, hr, h⟩ := Exec.returns_bind.mp h
  unfold strrchr at hr
  obtain ⟨m, t', hlen, hr⟩ := Exec.returns_bind.mp hr
  obtain ⟨rfl, -⟩ := Exec.returns_pure.mp hr
  cases (Path.Ends.of_strlen hlen).unique hpath.ends
  cases hfind : (List.range len).reverse.find? fun k => filename.get k = slash with
  | none =>
    rw [hfind] at h
    cases h
  | some k =>
    rw [hfind] at h
    obtain ⟨rfl, -⟩ := Exec.returns_pure.mp h
    have hslash := List.find?_some hfind
    have hmem := List.mem_range.mp (List.mem_reverse.mp (List.mem_of_find?_eq_some hfind))
    rcases Nat.eq_zero_or_pos k with hzero | hpos
    · exact hzero
    · exact absurd (of_decide_eq_true hslash) (hpath.leaf.2 k hpos hmem)

/-- A handle of the root directory. -/
structure TfFile.Root (f : TfFile) : Prop where
  directory : f.Directory 2#32
  attributes : f.attributes = 0x10#8
  flags : f.flags = tfFlagOpen ||| tfFlagRoot

theorem does_setMode {b : Prop} [Decidable b] {m : BitVec 8} :
    Does last i vol files (Exec.when b (modifyFile fp fun f => { f with mode := f.mode ||| m })) ()
      vol (WriteBack.set files fp { files fp with
        mode := if b then (files fp).mode ||| m else (files fp).mode }) := by
  unfold Exec.when
  split
  · exact does_modifyFile _
  · rw [WriteBack.set_eq rfl]
    exact does_pure

/-- What an action does that returns. -/
theorem does_returns {α : Type} {x : FsM α} {a b : α} {vol' : Disk} {files' : Handle → TfFile}
    (hx : Does 0 i vol files x a vol' files') (hs : Shows i vol files s)
    (h : x.Returns s b s') : b = a ∧ Shows i vol' files' s' := by
  obtain ⟨t, hreturns, ht⟩ := hx.returns hs
  obtain ⟨rfl, rfl⟩ := h.unique hreturns
  exact ⟨rfl, ht⟩

theorem returns_tfGetFreeHandle (hs : Shows i vol files s)
    (h : tfGetFreeHandle.Returns s (some fp) s') :
    Shows i vol (WriteBack.set files fp { files fp with flags := tfFlagOpen }) s' := by
  unfold tfGetFreeHandle at h
  rw [Exec.returns_read_bind] at h
  split at h
  · cases h
  · obtain ⟨_, t, hset, hreturn⟩ := Exec.returns_bind.mp h
    obtain ⟨heq, rfl⟩ := Exec.returns_pure.mp hreturn
    cases heq
    exact (does_returns (does_modifyFile _) hs hset).2

/-- A character of the copy of a path. -/
theorem get_copy {v : Nat → Byte} {k : Nat} :
    (⟨Bytes.put (strncpy v filename.get n) n 0#8, 0⟩ : Path).get k =
      if k = n then 0#8 else strncpy v filename.get n k := by
  unfold Path.get Bytes.put
  dsimp only
  rw [Nat.zero_add]

/-- The copy of a whole path is the same string. -/
theorem get_copy_ends {v : Nat → Byte} (hends : filename.Ends n) {k : Nat} (hk : k ≤ n) :
    (⟨Bytes.put (strncpy v filename.get n) n 0#8, 0⟩ : Path).get k = filename.get k := by
  rw [get_copy]
  split
  · next heq => rw [heq, hends.1]
  · next hne =>
    have hall : ((List.range k).all fun j => filename.get j ≠ 0#8) = true := by
      rw [List.all_eq_true]
      intro j hj
      exact decide_eq_true (hends.2 j (by have := List.mem_range.mp hj; omega))
    unfold strncpy
    rw [if_pos (by omega), if_pos hall]

/-- A path is walked from the root directory through the first handle that is free. -/
theorem returns_tfFnopen {r : Option Handle} (ha : strchr mode 'a' = false)
    (hs : Shows i vol files s) (h : (tfFnopen fuel filename mode n).Returns s r s') :
    ∃ fp files₁ v s₁ found s₂, (files₁ fp).Root ∧ Shows i vol files₁ s₁ ∧
      (walkPath fuel fp fuel ⟨Bytes.put (strncpy v filename.get n) n 0#8, 0⟩).Returns s₁ found s₂ ∧
      (found = false → r = none) ∧
      ∀ files₂, Shows i vol files₂ s₂ → ∃ mode flags name, Shows i vol
        (WriteBack.set files₂ fp { files₂ fp with mode := mode, flags := flags, filename := name }) s' ∧
        (found = true → r = some fp ∧ flags = (files₂ fp).flags) := by
  unfold tfFnopen at h
  obtain ⟨handle, t, hfree, h⟩ := Exec.returns_bind.mp h
  obtain ⟨v, t₁, hv, h⟩ := Exec.returns_bind.mp h
  dsimp only at h
  split at h
  · cases h
  · cases handle with
    | none => cases h
    | some fp =>
      have ht := returns_tfGetFreeHandle hs hfree
      have ht₁ : Shows i vol (WriteBack.set files fp { files fp with flags := tfFlagOpen }) t₁ := by
        cases hv
        exact ht.newLocal
      obtain ⟨_, t₂, hderef, h⟩ := Exec.returns_bind.mp h
      cases hderef
      obtain ⟨_, s₁, hroot, h⟩ := Exec.returns_bind.mp h
      obtain ⟨found, s₂, hwalk, h⟩ := Exec.returns_bind.mp h
      have hs₁ := (does_returns (does_modifyFile _) ht₁ hroot).2
      rw [WriteBack.set_self, WriteBack.set_set] at hs₁
      refine ⟨fp, _, v, s₁, found, s₂, ?_, hs₁, hwalk, ?_, ?_⟩
      · rw [WriteBack.set_self]
        exact ⟨⟨rfl, rfl, rfl⟩, rfl, rfl⟩
      · rintro rfl
        rw [if_pos Bool.false_ne_true] at h
        obtain ⟨_, _, -, h⟩ := Exec.returns_bind.mp h
        exact (Exec.returns_pure.mp h).1.symm
      · intro files₂ hs₂
        cases found with
        | false =>
          rw [if_pos Bool.false_ne_true] at h
          obtain ⟨_, t₃, hrelease, h⟩ := Exec.returns_bind.mp h
          obtain ⟨-, rfl⟩ := Exec.returns_pure.mp h
          have hs₃ := (does_returns (does_modifyFile _) hs₂ hrelease).2
          exact ⟨(files₂ fp).mode, _, (files₂ fp).filename, hs₃, fun h => absurd h Bool.false_ne_true⟩
        | true =>
          rw [if_neg (not_not_intro rfl)] at h
          obtain ⟨_, t₃, hread, h⟩ := Exec.returns_bind.mp h
          have hs₃ := (does_returns does_setMode hs₂ hread).2
          obtain ⟨_, t₄, happend, h⟩ := Exec.returns_bind.mp h
          unfold Exec.when at happend
          rw [if_neg (Bool.eq_false_iff.mp ha)] at happend
          obtain ⟨-, rfl⟩ := Exec.returns_pure.mp happend
          obtain ⟨_, t₅, hplus, h⟩ := Exec.returns_bind.mp h
          have hs₅ := (does_returns does_setMode hs₃ hplus).2
          obtain ⟨_, t₆, hwrite, h⟩ := Exec.returns_bind.mp h
          have hs₆ := (does_returns does_setMode hs₅ hwrite).2
          obtain ⟨_, t₇, hname, h⟩ := Exec.returns_bind.mp h
          have hs₇ := (does_returns (does_modifyFile _) hs₆ hname).2
          obtain ⟨hr, rfl⟩ := Exec.returns_pure.mp h
          simp only [WriteBack.set_self, WriteBack.set_set] at hs₇
          exact ⟨_, (files₂ fp).flags, _, hs₇, fun _ => ⟨hr.symm, rfl⟩⟩

/-- The root directory is opened without a walk. -/
theorem returns_tfFnopen_root {r : Option Handle} (ha : strchr mode 'a' = false)
    (hs : Shows i vol files s) (h : (tfFnopen fuel filename mode 0).Returns s r s') :
    ∃ fp files', r = some fp ∧ (files' fp).Root ∧ Shows i vol files' s' := by
  obtain ⟨fp, files₁, v, s₁, found, s₂, hroot, hs₁, hwalk, -, hrest⟩ := returns_tfFnopen ha hs h
  have hempty := @get_copy filename 0 v 0
  rw [if_pos rfl] at hempty
  generalize (⟨Bytes.put (strncpy v filename.get 0) 0 0#8, 0⟩ : Path) = p at *
  cases fuel with
  | zero => cases hwalk
  | succ fuel =>
    have hopen : ¬ (files₁ fp).flags = 0xff#8 := by
      rw [hroot.flags]
      decide
    have hslash : ¬ (0#8 : Byte) = slash := by decide
    unfold walkPath at hwalk
    obtain ⟨rest, t, hstep, hwalk⟩ := Exec.returns_bind.mp hwalk
    unfold tfWalk at hstep
    rw [returns_charAt_bind, hempty] at hstep
    dsimp only at hstep
    rw [if_neg hslash, returns_charAt_bind, hempty, if_pos rfl] at hstep
    obtain ⟨rfl, rfl⟩ := Exec.returns_pure.mp hstep
    rw [← hs₁.handles] at hopen
    have hwalk : ((if (s₁.handles fp).flags = 0xff#8 then pure false else pure true) :
        FsM Bool).Returns s₁ found s₂ := hwalk
    rw [if_neg hopen] at hwalk
    obtain ⟨rfl, rfl⟩ := Exec.returns_pure.mp hwalk
    obtain ⟨m, flags, name, hs', hsome⟩ := hrest files₁ hs₁
    obtain ⟨hr, rfl⟩ := hsome rfl
    refine ⟨fp, _, hr, ?_, hs'⟩
    rw [WriteBack.set_self]
    exact ⟨⟨hroot.directory.startCluster, hroot.directory.currentCluster, hroot.directory.size⟩,
      hroot.attributes, hroot.flags⟩

/-- The last component, behind the separator. -/
theorem Path.InRoot.ends_leaf (hpath : filename.InRoot len) :
    (filename.skip 1).Ends (len - 1) := by
  have hleaf := hpath.leaf.1
  have hlen : 1 + (len - 1) = len := by omega
  refine ⟨?_, fun k hk => ?_⟩
  · rw [Path.get_skip, hlen, hpath.ends.1]
  · rw [Path.get_skip]
    exact hpath.ends.2 (1 + k) (by omega)

theorem returns_componentEnd_leaf {m : Nat} (hpath : filename.InRoot len)
    (h : (componentEnd (filename.skip 1) maxString 0).Returns s m s') : m = len - 1 := by
  have hends := hpath.ends_leaf
  obtain ⟨-, -, hbefore, hstop⟩ := returns_componentEnd h
  rcases Nat.lt_trichotomy m (len - 1) with hlt | heq | hlt
  · refine absurd ⟨?_, hends.2 m hlt⟩ hstop
    rw [Path.get_skip]
    exact hpath.leaf.2 (1 + m) (by omega) (by omega)
  · exact heq
  · exact absurd hends.1 (hbefore (len - 1) (Nat.zero_le _) hlt).2

variable {f : DirFile}

/-- The walk of a path in the root directory ends there, and marks the handle if the only file is
not found. -/
theorem returns_tfWalk_leaf {rest : Option Path} (hi : i.Fat32) (hc : i.IsCluster 2#32)
    (hshort : f.longName = none) (hfiles : i.Holds vol 2#32 (directoryBytes [f]))
    (hpath : filename.InRoot len) (hs : Shows i vol files s) (hdir : (files fp).Directory 2#32)
    (h : (tfWalk fuel filename fp).Returns s rest s') :
    rest = none ∧ ∃ files', Shows i vol files' s' ∧ ((files' fp).flags = 0xff#8 ∨
      (files' fp).flags = tfFlagOpen ∧ ∃ stop < maxString, (filename.skip 1).StopsAt stop ∧
        (filename.skip 1).matches f.entry.bytes stop = true) := by
  have hends := hpath.ends_leaf
  have hleaf := hpath.leaf.1
  have hfirst : (filename.skip 1).get 0 ≠ 0#8 := hends.2 0 (by omega)
  unfold tfWalk at h
  rw [returns_charAt_bind, hpath.root] at h
  dsimp only at h
  rw [if_pos rfl, returns_charAt_bind, if_neg hfirst] at h
  obtain ⟨rc, t, hfind, h⟩ := Exec.returns_bind.mp h
  obtain ⟨stop, hlt, hstop, hfound⟩ := returns_tfFindFile hi hc hdir hshort hfiles hs hfind
  cases hmatch : (filename.skip 1).matches f.entry.bytes stop with
  | false =>
    rw [hmatch, if_neg Bool.false_ne_true] at hfound
    obtain ⟨rfl, g, -, -, ht⟩ := hfound
    rw [if_pos (by simp)] at h
    obtain ⟨_, t', hmark, h⟩ := Exec.returns_bind.mp h
    obtain ⟨rfl, rfl⟩ := Exec.returns_pure.mp h
    refine ⟨rfl, _, (does_returns (does_modifyFile _) ht hmark).2, Or.inl ?_⟩
    rw [WriteBack.set_self]
  | true =>
    rw [hmatch, if_pos rfl] at hfound
    obtain ⟨rfl, ht⟩ := hfound
    rw [if_neg (not_not_intro rfl)] at h
    obtain ⟨v, t₁, hlocal, h⟩ := Exec.returns_bind.mp h
    obtain ⟨t₂, ht₂, h⟩ := (@readsAt_freadEntry i vol files fp 2#32 0 0 v hi hc
      (by simp) (hi.reach_of_le (by decide))).returns_bind (ht.newLocal hlocal) h
    obtain ⟨m, t₃, hscan, h⟩ := Exec.returns_bind.mp h
    have ht₃ : ReadsAt i vol files fp 2#32 (0 + 36) t₃ := Exec.Keeps.keeps ht₂ hscan
    have hm := returns_componentEnd_leaf hpath hscan
    subst hm
    have hend : ((filename.skip 1).skip (len - 1)).get 0 = 0#8 := by
      rw [Path.get_skip, Nat.add_zero]
      exact hends.1
    have hslash : ¬ (0#8 : Byte) = slash := by decide
    rw [returns_charAt_bind, hend, if_neg hslash] at h
    obtain ⟨_, t₄, hset, h⟩ := Exec.returns_bind.mp h
    rw [returns_charAt_bind, hend, if_pos rfl] at h
    obtain ⟨rfl, rfl⟩ := Exec.returns_pure.mp h
    obtain ⟨g, -, -, hshows⟩ := ht₃
    refine ⟨rfl, _, (does_returns (does_modifyFile _) hshows hset).2, Or.inr ?_⟩
    rw [WriteBack.set_self]
    exact ⟨rfl, stop, hlt, hstop, hmatch⟩

/-- The result of the comparison depends on the string only. -/
theorem Path.matches_congr {name name' : Path} {stop stop' : Nat} (hname : name.Ends len)
    (hsame : ∀ k ≤ len, name'.get k = name.get k) (hstop : name.StopsAt stop)
    (hstop' : name'.StopsAt stop') (hmatch : name.matches entry stop = true) :
    name'.matches entry stop' = true := by
  unfold Path.matches at hmatch ⊢
  rw [Path.caseEqual_iff] at hmatch ⊢
  intro j hj hbefore
  rw [Nat.zero_add] at *
  have hle : j ≤ len := by
    apply Nat.le_of_not_lt
    intro hlt
    have hne := hbefore len hlt
    rw [Nat.zero_add, hsame len (Nat.le_refl len)] at hne
    exact hne hname.1
  have hlt : j < stop := by
    apply Nat.lt_of_not_le
    intro hge
    have hgo := hstop'.before stop hstop.le (by omega)
    rw [hsame stop (by omega)] at hgo
    exact hstop.stop hgo
  have heq := hmatch j (by omega) fun l hl => by
    rw [Nat.zero_add, ← hsame l (by omega)]
    have hne := hbefore l hl
    rwa [Nat.zero_add] at hne
  rw [hsame j hle]
  rwa [Nat.zero_add] at heq

/-- A handle that is returned for a path in the root directory is not dirty, and the only file has
been found. -/
theorem returns_tfFnopen_leaf {r : Option Handle} (hi : i.Fat32) (hc : i.IsCluster 2#32)
    (hshort : f.longName = none) (hfiles : i.Holds vol 2#32 (directoryBytes [f]))
    (hpath : filename.InRoot n) (ha : strchr mode 'a' = false) (hs : Shows i vol files s)
    (h : (tfFnopen fuel filename mode n).Returns s r s') :
    ∃ files', Shows i vol files' s' ∧ ∀ fp, r = some fp → (files' fp).flags = tfFlagOpen ∧
      ∀ stop, (filename.skip 1).StopsAt stop →
        (filename.skip 1).matches f.entry.bytes stop = true := by
  obtain ⟨fp, files₁, v, s₁, found, s₂, hroot, hs₁, hwalk, hnone, hrest⟩ := returns_tfFnopen ha hs h
  have hcopy := fun k hk => @get_copy_ends filename n v hpath.ends k hk
  generalize (⟨Bytes.put (strncpy v filename.get n) n 0#8, 0⟩ : Path) = p at *
  have hp : p.InRoot n := by
    refine ⟨⟨?_, fun k hk => ?_⟩, ?_, hpath.leaf.1, fun k hpos hk => ?_⟩
    · rw [hcopy n (Nat.le_refl n), hpath.ends.1]
    · rw [hcopy k (Nat.le_of_lt hk)]
      exact hpath.ends.2 k hk
    · rw [hcopy 0 (Nat.zero_le n), hpath.root]
    · rw [hcopy k (Nat.le_of_lt hk)]
      exact hpath.leaf.2 k hpos hk
  cases fuel with
  | zero => cases hwalk
  | succ fuel =>
    unfold walkPath at hwalk
    obtain ⟨rest, t, hstep, hwalk⟩ := Exec.returns_bind.mp hwalk
    obtain ⟨rfl, files₂, ht, hflags⟩ := returns_tfWalk_leaf hi hc hshort hfiles hp hs₁
      hroot.directory hstep
    have hwalk : ((if (t.handles fp).flags = 0xff#8 then pure false else pure true) :
        FsM Bool).Returns t found s₂ := hwalk
    rw [ht.handles] at hwalk
    rcases hflags with hmarked | ⟨hopen, stop, -, hstop, hmatch⟩
    · rw [if_pos hmarked] at hwalk
      obtain ⟨rfl, rfl⟩ := Exec.returns_pure.mp hwalk
      obtain ⟨m, flags, name, hs', -⟩ := hrest files₂ ht
      refine ⟨_, hs', fun fp hr => ?_⟩
      rw [hnone rfl] at hr
      cases hr
    · have hne : ¬ (files₂ fp).flags = 0xff#8 := by
        rw [hopen]
        decide
      rw [if_neg hne] at hwalk
      obtain ⟨rfl, rfl⟩ := Exec.returns_pure.mp hwalk
      obtain ⟨m, flags, name, hs', hsome⟩ := hrest files₂ ht
      obtain ⟨rfl, rfl⟩ := hsome rfl
      refine ⟨_, hs', fun fp' hr => ?_⟩
      cases hr
      rw [WriteBack.set_self]
      refine ⟨hopen, fun stop' hstop' => ?_⟩
      refine @Path.matches_congr _ (n - 1) _ _ _ _ hp.ends_leaf (fun k hk => ?_) hstop hstop' hmatch
      rw [Path.get_skip, Path.get_skip, hcopy (1 + k) (by have := hp.leaf.1; omega)]

theorem returns_tfFopen {r : Option Handle} (hi : i.Fat32) (hc : i.IsCluster 2#32)
    (hshort : f.longName = none) (hfiles : i.Holds vol 2#32 (directoryBytes [f]))
    (hpath : filename.InRoot len) (hs : Shows i vol files s)
    (h : (tfFopen fuel filename "r").Returns s r s') :
    ∃ files', Shows i vol files' s' ∧ ∀ fp, r = some fp → (files' fp).flags = tfFlagOpen ∧
      ∀ stop, (filename.skip 1).StopsAt stop →
        (filename.skip 1).matches f.entry.bytes stop = true := by
  have hread : strchr "r" 'a' = false := by decide
  have hmode : ∀ fp : Option Handle,
      ¬ (fp = none ∧ (strchr "r" '+' = true ∨ strchr "r" 'w' = true ∨ strchr "r" 'a' = true)) := by
    rintro fp ⟨-, hplus | hwrite | happend⟩
    · exact absurd hplus (by decide)
    · exact absurd hwrite (by decide)
    · exact absurd happend (by decide)
  unfold tfFopen at h
  obtain ⟨n, t, hlen, h⟩ := Exec.returns_bind.mp h
  have ht : Shows i vol files t := Exec.Keeps.keeps hs hlen
  cases (Path.Ends.of_strlen hlen).unique hpath.ends
  obtain ⟨fp, t₁, hfirst, h⟩ := Exec.returns_bind.mp h
  obtain ⟨files₁, ht₁, -⟩ := returns_tfFnopen_leaf hi hc hshort hfiles hpath hread ht hfirst
  obtain ⟨_, t₂, hwhen, h⟩ := Exec.returns_bind.mp h
  rw [Exec.returns_when, if_neg (hmode fp)] at hwhen
  subst hwhen
  exact returns_tfFnopen_leaf hi hc hshort hfiles hpath hread ht₁ h

/-! ## Closing -/

theorem Shows.flushed (h : Shows i vol files s) (hdirty : s.dirty = true) :
    Shows i vol files s.flushed := by
  have hclean : s.flushed.dirty = false := flagged_clear_self _ _
  have hdisk : s.flushed.disk = vol := by
    rw [← h.volume]
    unfold Fs.volume
    rw [if_pos hdirty]
    rfl
  refine ⟨fun n => h.errorFree (n + 1), h.geometry,
    fun hd => absurd (hclean.symm.trans hd) Bool.false_ne_true, fun _ _ => ?_, ?_, h.handles⟩
  · exact WriteBack.set_self
  · unfold Fs.volume
    rw [hclean]
    exact hdisk

/-- A handle that is clean or belongs to a directory is flushed without a change of the volume. -/
theorem returns_tfFflush_flags {rc : BitVec 32} (hs : Shows i vol files s)
    (hfile : flagged (files fp).flags tfFlagDirty = false ∨
      flagged (files fp).attributes tfAttrDirectory = true)
    (h : (tfFflush fuel fp).Returns s rc s') :
    rc = 0#32 ∧ ∃ flags, Shows i vol (WriteBack.set files fp { files fp with flags := flags }) s' := by
  cases fuel with
  | zero => cases h
  | succ fuel =>
    unfold tfFflush at h
    have h := Exec.returns_read_bind.mp h
    rw [hs.handles] at h
    split at h
    · obtain ⟨rfl, rfl⟩ := Exec.returns_pure.mp h
      refine ⟨rfl, (files fp).flags, ?_⟩
      rwa [WriteBack.set_eq rfl]
    · next hdirty =>
      have hdir := hfile.resolve_left fun hclean => hdirty (Bool.eq_false_iff.mp hclean)
      have hskip : ¬ (flagged (files fp).flags tfFlagSizechanged = true ∧
          ¬ flagged (files fp).attributes tfAttrDirectory = true) := fun hgo => hgo.2 hdir
      have h := Exec.returns_read_bind.mp h
      dsimp only at h
      rw [if_neg hskip] at h
      split at h
      · next hdirty' =>
        obtain ⟨rc, t₁, hstore, h⟩ := Exec.returns_bind.mp h
        obtain ⟨-, rfl⟩ := (Exec.returns_of_run (run_tfStore hs.errorFree)).mp hstore
        obtain ⟨_, t₂, hmark, h⟩ := Exec.returns_bind.mp h
        obtain ⟨rfl, rfl⟩ := Exec.returns_pure.mp h
        exact ⟨rfl, _, (does_returns (does_modifyFile _) (hs.flushed hdirty') hmark).2⟩
      · obtain ⟨_, t₂, hmark, h⟩ := Exec.returns_bind.mp h
        obtain ⟨rfl, rfl⟩ := Exec.returns_pure.mp h
        exact ⟨rfl, _, (does_returns (does_modifyFile _) hs hmark).2⟩

theorem returns_tfFclose_flags {rc : BitVec 32} (hs : Shows i vol files s)
    (hfile : flagged (files fp).flags tfFlagDirty = false ∨
      flagged (files fp).attributes tfAttrDirectory = true)
    (h : (tfFclose fuel fp).Returns s rc s') :
    ∃ flags, Shows i vol (WriteBack.set files fp { files fp with flags := flags }) s' := by
  unfold tfFclose fcloseWith at h
  obtain ⟨rc', t, hflush, h⟩ := Exec.returns_bind.mp h
  obtain ⟨_, t', hclear, h⟩ := Exec.returns_bind.mp h
  obtain ⟨-, rfl⟩ := Exec.returns_pure.mp h
  obtain ⟨-, flags, ht⟩ := returns_tfFflush_flags hs hfile hflush
  have ht' := (does_returns (does_modifyFile _) ht hclear).2
  rw [WriteBack.set_self, WriteBack.set_set] at ht'
  exact ⟨_, ht'⟩

/-- A handle that is clean or belongs to a directory is closed without a change of the volume. -/
theorem returns_tfFclose {rc : BitVec 32} (hs : Shows i vol files s)
    (hfile : flagged (files fp).flags tfFlagDirty = false ∨
      flagged (files fp).attributes tfAttrDirectory = true)
    (h : (tfFclose fuel fp).Returns s rc s') : ∃ files', Shows i vol files' s' := by
  obtain ⟨flags, hs'⟩ := returns_tfFclose_flags hs hfile h
  exact ⟨_, hs'⟩

/-! ## Removing -/

/-- A removal that returns 0 leaves a directory that begins with its end. -/
theorem returns_tfRemove (hi : i.Fat32) (hc : i.IsCluster 2#32) (hshort : f.longName = none)
    (hfiles : i.Holds vol 2#32 (directoryBytes [f])) (hpath : filename.InRoot len)
    (hs : Shows i vol files s) (h : (tfRemove fuel filename).Returns s 0#32 s') :
    ∃ vol' files', Shows i vol' files' s' ∧ i.byteAt vol' 2#32 0 = 0#8 := by
  have hsize := hi.clusterSize_ge
  have hzero : i.byteAt vol 2#32 (0 + 36) = 0#8 := by
    have hrest := hfiles.rest (k := 4) hshort (by rw [length_directoryBytes_nil]; decide)
    rwa [getD_directoryBytes_nil] at hrest
  unfold tfRemove at h
  obtain ⟨r, t₁, hopen, h⟩ := Exec.returns_bind.mp h
  obtain ⟨files₁, ht₁, hopened⟩ := returns_tfFopen hi hc hshort hfiles hpath hs hopen
  cases r with
  | none => cases h
  | some fp =>
    obtain ⟨hflags, hmatch⟩ := hopened fp rfl
    have hclean : flagged (files₁ fp).flags tfFlagDirty = false := by
      rw [hflags]
      decide
    obtain ⟨rc, t₂, hclose, h⟩ := Exec.returns_bind.mp h
    obtain ⟨files₂, ht₂⟩ := returns_tfFclose ht₁ (Or.inl hclean) hclose
    obtain ⟨parent, t₃, hparent, h⟩ := Exec.returns_bind.mp h
    unfold tfParent at hparent
    obtain ⟨n, t₄, hlast, hparent⟩ := Exec.returns_bind.mp hparent
    have ht₄ : Shows i vol files₂ t₄ := Exec.Keeps.keeps ht₂ hlast
    cases returns_lastSlash hpath hlast
    obtain ⟨dir, files₃, rfl, hroot, ht₃⟩ := returns_tfFnopen_root (by decide) ht₄ hparent
    obtain ⟨_, t₅, hderef, h⟩ := Exec.returns_bind.mp h
    cases hderef
    obtain ⟨n, t₆, hlast, h⟩ := Exec.returns_bind.mp h
    have ht₆ : Shows i vol files₃ t₆ := Exec.Keeps.keeps ht₃ hlast
    cases returns_lastSlash hpath hlast
    obtain ⟨rc, t₇, hfind, h⟩ := Exec.returns_bind.mp h
    obtain ⟨stop, -, hstop, hfound⟩ := returns_tfFindFile hi hc hroot.directory hshort hfiles ht₆ hfind
    rw [hmatch stop hstop, if_pos rfl] at hfound
    obtain ⟨rfl, ht₇⟩ := hfound
    dsimp only at h
    rw [if_pos rfl] at h
    obtain ⟨v, t₈, hlocal, h⟩ := Exec.returns_bind.mp h
    have ht₈ := ht₇.newLocal hlocal
    obtain ⟨_, t₉, hshift, h⟩ := Exec.returns_bind.mp h
    obtain ⟨vol', ht₉, hvol'⟩ : ∃ vol', ReadsAt i vol' files₃ dir 2#32 (0 + 36) t₉ ∧
        i.byteAt vol' 2#32 0 = 0#8 := by
      cases fuel with
      | zero => cases hshift
      | succ fuel =>
        obtain ⟨es, t, vol', hrun, ht, hvol'⟩ := @run_shiftEntries_last i vol files₃ dir 2#32 0 fuel v
          t₈ hi hc (by omega) (hi.reach_of_le (by decide)) hzero ht₈
        obtain ⟨-, rfl⟩ := hshift.unique hrun.returns
        refine ⟨vol', ht, ?_⟩
        rw [hvol' 0 (by omega), if_pos (by simp)]
        exact hzero
    obtain ⟨g, -, hattr, hshows⟩ := ht₉
    obtain ⟨_, t₁₀, hshrink, h⟩ := Exec.returns_bind.mp h
    have ht₁₀ := (does_returns (does_modifyFile _) hshows hshrink).2
    obtain ⟨rc, t₁₁, hclose, h⟩ := Exec.returns_bind.mp h
    obtain ⟨-, rfl⟩ := Exec.returns_pure.mp h
    have hdir : flagged g.attributes tfAttrDirectory = true := by
      rw [hattr, hroot.attributes]
      decide
    rw [WriteBack.set_self, WriteBack.set_set] at ht₁₀
    obtain ⟨files', hs'⟩ := returns_tfFclose ht₁₀ (Or.inr (by
      rw [WriteBack.set_self]
      exact hdir)) hclose
    exact ⟨vol', files', hs', hvol'⟩

/-- What should hold after the file `f` was removed from the directory with the path: a lookup in
it fails for every name of `f`, and finds the record of every other file by its names, with its
start cluster and size. -/
structure RemovesExactly (before : List DirFile) (f : DirFile) (after : List DirFile)
    (filename : Path) (s' : Fs) : Prop where
  gone : ∀ name len, name.Ends len → f.Named (name.component len) →
    ∀ fuel dir s₁, (tfParent fuel filename "r").Returns s' (some dir) s₁ →
      ∃ fuel' t, (tfFindFile fuel' dir name).Returns s₁ (-1) t
  kept : ∀ g ∈ before ++ after, ∀ name len, name.Ends len → g.Named (name.component len) →
    ∀ fuel dir s₁, (tfParent fuel filename "r").Returns s' (some dir) s₁ →
      ∃ fuel' s₂ entry t, (tfFindFile fuel' dir name).Returns s₁ 0 s₂ ∧
        (freadEntry dir fun _ => 0#8).Returns s₂ entry t ∧
        entry.msdosEaIndex = FatFileEntry.msdosEaIndex g.entry.bytes ∧
        entry.msdosFirstCluster = FatFileEntry.msdosFirstCluster g.entry.bytes ∧
        entry.msdosFileSize = FatFileEntry.msdosFileSize g.entry.bytes

/-- A removal from the root directory is exact if the file has no long name and there is no other
file. -/
theorem tfRemove_exact {before after : List DirFile} (hs : s.Mounted)
    (hroot : s.info.IsCluster 2#32)
    (hfiles : s.info.Holds s.volume 2#32 (directoryBytes (before ++ f :: after)))
    (hpath : filename.InRoot len) (honly : before = [] ∧ after = []) (hshort : f.longName = none)
    (hremove : (tfRemove fuel filename).Returns s 0#32 s') :
    RemovesExactly before f after filename s' := by
  have hi := hs.fat32
  obtain ⟨rfl, rfl⟩ := honly
  obtain ⟨vol', files', hs', hzero⟩ := returns_tfRemove hi hroot hshort hfiles hpath hs.shows hremove
  refine ⟨?_, nofun⟩
  intro name n _ _ fuel dir s₁ hparent
  unfold tfParent at hparent
  obtain ⟨m, t₁, hlast, hparent⟩ := Exec.returns_bind.mp hparent
  have ht₁ : Shows s.info vol' files' t₁ := Exec.Keeps.keeps hs' hlast
  cases returns_lastSlash hpath hlast
  obtain ⟨dir', files₁, hdir, hopened, hs₁⟩ := returns_tfFnopen_root (by decide) ht₁ hparent
  cases hdir
  obtain ⟨t, hend, -⟩ := (@leads_tfFindFile_end s.info vol' files₁ dir 2#32 0 name hi hroot
    hopened.directory hzero 0).returns hs₁
  exact ⟨1, t, hend⟩

end

/-- The file `KERNEL00.IMG`. -/
def kernelEntry : ShortEntry where
  bytes := fun k => [0x4b#8, 0x45#8, 0x52#8, 0x4e#8, 0x45#8, 0x4c#8, 0x30#8, 0x30#8, 0x49#8, 0x4d#8,
    0x47#8, 0x20#8].getD k 0#8
  attributes := by decide
  used := by decide
  name := by decide

/-- `kernel00.img`. -/
def kernelPath : Path where
  bytes := fun k => [0x6b#8, 0x65#8, 0x72#8, 0x6e#8, 0x65#8, 0x6c#8, 0x30#8, 0x30#8, 0x2e#8, 0x69#8,
    0x6d#8, 0x67#8].getD k 0#8
  off := 0

theorem inRoot_initrd : (initrdPath.skip 4).InRoot 13 := by
  have hleaf : ∀ k < 13, 0 < k → (initrdPath.skip 4).get k ≠ slash := by decide
  exact ⟨by decide, by decide, by decide, fun k hpos hk => hleaf k hk hpos⟩

/-- The only file is removed. -/
theorem tfRemove_initrd : ∃ s',
    (tfRemove 2 (initrdPath.skip 4)).Returns (Fs.ofDirectory [⟨none, initrdEntry⟩]) 0#32 s' ∧
    RemovesExactly [] ⟨none, initrdEntry⟩ [] (initrdPath.skip 4) s' := by
  have hrun : ∃ s', (tfRemove 2 (initrdPath.skip 4)).Returns
      (Fs.ofDirectory [⟨none, initrdEntry⟩]) 0#32 s' := by decide +kernel
  obtain ⟨s', hremove⟩ := hrun
  exact ⟨s', hremove, tfRemove_exact (mounted_ofDirectory _) isCluster_two
    (holds_ofDirectory (by decide)) inRoot_initrd ⟨rfl, rfl⟩ rfl hremove⟩

/-- The file behind the one that is removed is not found any more. -/
theorem tfRemove_loses_next : ∃ s',
    (Fs.ofDirectory [⟨none, initrdEntry⟩, ⟨none, kernelEntry⟩]).Mounted ∧
    (Fs.ofDirectory [⟨none, initrdEntry⟩, ⟨none, kernelEntry⟩]).info.Holds
      (Fs.ofDirectory [⟨none, initrdEntry⟩, ⟨none, kernelEntry⟩]).volume 2#32
      (directoryBytes [⟨none, initrdEntry⟩, ⟨none, kernelEntry⟩]) ∧
    (initrdPath.skip 4).InRoot 13 ∧
    (tfRemove 3 (initrdPath.skip 4)).Returns
      (Fs.ofDirectory [⟨none, initrdEntry⟩, ⟨none, kernelEntry⟩]) 0#32 s' ∧
    ¬ RemovesExactly [] ⟨none, initrdEntry⟩ [⟨none, kernelEntry⟩] (initrdPath.skip 4) s' := by
  have hrun : ∃ t, (do
      let rc ← tfRemove 3 (initrdPath.skip 4)
      let dir ← deref (← tfParent 3 (initrdPath.skip 4) "r")
      return (rc, ← tfFindFile 3 dir kernelPath)).Returns
      (Fs.ofDirectory [⟨none, initrdEntry⟩, ⟨none, kernelEntry⟩]) (0#32, -1) t := by decide +kernel
  obtain ⟨t, hrun⟩ := hrun
  obtain ⟨rc, s', hremove, hrun⟩ := Exec.returns_bind.mp hrun
  obtain ⟨parent, s₁, hparent, hrun⟩ := Exec.returns_bind.mp hrun
  cases parent with
  | none => cases hrun
  | some dir =>
    obtain ⟨_, _, hderef, hrun⟩ := Exec.returns_bind.mp hrun
    cases hderef
    obtain ⟨found, s₂, hfind, hrun⟩ := Exec.returns_bind.mp hrun
    obtain ⟨heq, rfl⟩ := Exec.returns_pure.mp hrun
    cases heq
    refine ⟨s', mounted_ofDirectory _, holds_ofDirectory (by decide), inRoot_initrd, hremove, ?_⟩
    intro h
    obtain ⟨fuel, s₃, _, _, hfound, -⟩ := h.kept ⟨none, kernelEntry⟩ List.mem_cons_self kernelPath 12
      (by decide) (Or.inl (by decide)) 3 dir s₁ hparent
    have hmissed := returns_tfFindFile_more fuel hfind
    have hfound := returns_tfFindFile_more 3 hfound
    rw [Nat.add_comm] at hfound
    exact absurd (hmissed.unique hfound).1 (by simp)

end Mavmm.Hostfs
