import Mathlib.Data.List.GetD
import Mathlib.Data.List.TakeWhile
import Mathlib.Data.Nat.Find
import Mavmm.Hostfs.DirectoryFormat
import Mavmm.Hostfs.Volume

/-!
# Comparing names

`tf_compare_filename_segment` begins its scan for the end of the component at
the index that the loops over the entry have left, which is 11 for a short name.
It compares at least as many characters, so that only a component of 11 or more
characters can be found, and one of 11 characters is found in a name of 12.
-/

namespace Mavmm.Hostfs

/-! ## Characters -/

theorem strcaseCharmap_eq_zero {c : Byte} (h : strcaseCharmap c = 0#8) : c = 0#8 := by
  unfold strcaseCharmap at h
  split at h <;> bv_omega

theorem strcaseCharmap_eq_slash {c : Byte} (h : strcaseCharmap c = slash) : c = slash := by
  unfold strcaseCharmap slash at *
  split at h <;> bv_omega

theorem sameName_iff {a b : List Byte} : SameName a b ↔ a.length = b.length ∧
    ∀ k < a.length, strcaseCharmap (a.getD k 0#8) = strcaseCharmap (b.getD k 0#8) := by
  unfold SameName
  constructor
  · intro h
    have hlen : a.length = b.length := by simpa using congrArg List.length h
    refine ⟨hlen, fun k hk => ?_⟩
    have heq := List.getElem_of_eq h (i := k) (by simpa using hk)
    simpa [List.getD, hk, hlen ▸ hk] using heq
  · rintro ⟨hlen, h⟩
    apply List.ext_getElem (by simpa using hlen)
    intro k hk hk'
    rw [List.length_map] at hk hk'
    have heq := h k hk
    simpa [List.getD, hk, hk'] using heq

/-! ## The loops -/

/-- Whether `n` characters from index `k` on are equal but for their case, up to a terminator. -/
def Path.caseEqual (name : Path) (other : Nat → Byte) : (n k : Nat) → Bool
  | 0, _ => true
  | n + 1, k =>
    if strcaseCharmap (name.get k) ≠ strcaseCharmap (other k) then false
    else if name.get k = 0#8 then true
    else name.caseEqual other n (k + 1)

theorem Path.caseEqual_iff {name : Path} {other : Nat → Byte} {n k : Nat} :
    name.caseEqual other n k = true ↔ ∀ j < n, (∀ l < j, name.get (k + l) ≠ 0#8) →
      strcaseCharmap (name.get (k + j)) = strcaseCharmap (other (k + j)) := by
  induction n generalizing k with
  | zero => exact iff_of_true rfl fun j hj => absurd hj (Nat.not_lt_zero j)
  | succ n ih =>
    have hsucc : ∀ j, k + 1 + j = k + (j + 1) := by omega
    unfold Path.caseEqual
    split
    · next hne =>
      refine iff_of_false Bool.false_ne_true fun h => hne ?_
      exact h 0 (Nat.succ_pos n) fun l hl => absurd hl (Nat.not_lt_zero l)
    · next heq =>
      have heq := Decidable.of_not_not heq
      split
      · next hzero =>
        refine iff_of_true rfl fun j hj hbefore => ?_
        cases j with
        | zero => exact heq
        | succ j => exact absurd hzero (hbefore 0 (Nat.succ_pos j))
      · next hne =>
        rw [ih]
        constructor
        · intro h j hj hbefore
          cases j with
          | zero => exact heq
          | succ j =>
            have hrest := h j (Nat.lt_of_succ_lt_succ hj) fun l hl => by
              rw [hsucc]
              exact hbefore (l + 1) (Nat.succ_lt_succ hl)
            rwa [hsucc] at hrest
        · intro h j hj hbefore
          rw [hsucc]
          refine h (j + 1) (Nat.succ_lt_succ hj) fun l hl => ?_
          cases l with
          | zero => exact hne
          | succ l =>
            rw [← hsucc]
            exact hbefore l (Nat.lt_of_succ_lt_succ hl)

section
variable {i : TfInfo} {vol : Disk} {files : Handle → TfFile} {last : Nat} {β : Type}
  {name : Path} {J : Fs → Prop}

theorem does_charAt_bind {k : Nat} {f : Byte → FsM β} {b : β} (hk : name.off + k ≤ last)
    (hf : (f (name.get k)).Leads (FsEvent.UpTo last) (Shows i vol files) b J) :
    (name.charAt k >>= f).Leads (FsEvent.UpTo last) (Shows i vol files) b J := by
  intro s h
  obtain ⟨es, s', hrun, hs', hes⟩ := hf s h
  refine ⟨.char (name.off + k) :: es, s', ?_, hs', List.forall_mem_cons.mpr ⟨hk, hes⟩⟩
  exact (Exec.runs_bind_of rfl).mpr ⟨es, hrun, rfl⟩

/-- The scan stops at the first separator or terminator. -/
theorem does_componentEnd {fuel k stop : Nat} (hfuel : stop < k + fuel) (hk : k ≤ stop)
    (hlast : name.off + stop ≤ last)
    (hbefore : ∀ j, k ≤ j → j < stop → name.get j ≠ slash ∧ name.get j ≠ 0#8)
    (hstop : ¬ (name.get stop ≠ slash ∧ name.get stop ≠ 0#8)) :
    Does last i vol files (componentEnd name fuel k) stop vol files := by
  induction fuel generalizing k with
  | zero => omega
  | succ fuel ih =>
    unfold componentEnd
    apply does_charAt_bind (by omega)
    by_cases heq : k = stop
    · rw [heq, if_neg hstop]
      exact does_pure
    · rw [if_pos (hbefore k (Nat.le_refl k) (by omega))]
      exact ih (by omega) (by omega) fun j hj => hbefore j (by omega)

theorem does_strncasecmpEqual {other : Nat → Byte} {n k : Nat}
    (hlast : ∀ j < n, name.off + (k + j) ≤ last) :
    Does last i vol files (strncasecmpEqual name other n k) (name.caseEqual other n k) vol
      files := by
  induction n generalizing k with
  | zero => exact does_pure
  | succ n ih =>
    unfold strncasecmpEqual Path.caseEqual
    have hfirst : name.off + k ≤ last := hlast 0 (Nat.succ_pos n)
    apply does_charAt_bind hfirst
    by_cases hne : strcaseCharmap (name.get k) ≠ strcaseCharmap (other k)
    · rw [if_pos hne, if_pos hne]
      exact does_pure
    · rw [if_neg hne, if_neg hne]
      by_cases hzero : name.get k = 0#8
      · rw [if_pos hzero, if_pos hzero]
        exact does_pure
      · rw [if_neg hzero, if_neg hzero]
        refine ih fun j hj => ?_
        have hle := hlast (j + 1) (Nat.succ_lt_succ hj)
        omega

/-- The component or the string ends here, and not at the characters from 11 on in front of it. -/
structure Path.StopsAt (name : Path) (stop : Nat) : Prop where
  le : 11 ≤ stop
  before : ∀ j, 11 ≤ j → j < stop → name.get j ≠ slash ∧ name.get j ≠ 0#8
  stop : ¬ (name.get stop ≠ slash ∧ name.get stop ≠ 0#8)

instance (name : Path) (stop : Nat) : Decidable (name.StopsAt stop) :=
  decidable_of_iff (11 ≤ stop ∧ (∀ j < stop, 11 ≤ j → name.get j ≠ slash ∧ name.get j ≠ 0#8) ∧
      ¬ (name.get stop ≠ slash ∧ name.get stop ≠ 0#8))
    ⟨fun h => ⟨h.1, fun j hle hlt => h.2.1 j hlt hle, h.2.2⟩,
      fun h => ⟨h.le, fun j hlt hle => h.before j hle hlt, h.stop⟩⟩

/-! ### What the loops return -/

theorem returns_charAt_bind {k : Nat} {f : Byte → FsM β} {b : β} {s s' : Fs} :
    (name.charAt k >>= f).Returns s b s' ↔ (f (name.get k)).Returns s b s' := Iff.rfl

/-- If the scan returns, it has stopped at the first separator or terminator. -/
theorem returns_componentEnd {fuel k stop : Nat} {s s' : Fs}
    (h : (componentEnd name fuel k).Returns s stop s') : k ≤ stop ∧ stop < k + fuel ∧
      (∀ j, k ≤ j → j < stop → name.get j ≠ slash ∧ name.get j ≠ 0#8) ∧
      ¬ (name.get stop ≠ slash ∧ name.get stop ≠ 0#8) := by
  induction fuel generalizing k with
  | zero => cases h
  | succ fuel ih =>
    unfold componentEnd at h
    rw [returns_charAt_bind] at h
    split at h
    · next hgo =>
      obtain ⟨hle, hlt, hbefore, hstop⟩ := ih h
      refine ⟨by omega, by omega, fun j hj hlt' => ?_, hstop⟩
      rcases Nat.lt_or_eq_of_le hj with hj | rfl
      · exact hbefore j hj hlt'
      · exact hgo
    · next hstop =>
      obtain ⟨rfl, -⟩ := Exec.returns_pure.mp h
      exact ⟨Nat.le_refl k, by omega, fun j hj hlt => absurd hlt (by omega), hstop⟩

/-- Where the comparison of a short entry returns, it has found the end of the component. -/
theorem returns_tfCompareFilenameSegment {entry : FatFileEntry} {b : Bool} {s s' : Fs}
    (hshort : entry.msdosAttributes ≠ 0x0f#8)
    (h : (tfCompareFilenameSegment entry name).Returns s b s') :
    ∃ stop < maxString, name.StopsAt stop := by
  have hindex : entry.lastIndex = 11 := if_pos hshort
  have hmax : 11 ≤ maxString := by decide
  unfold tfCompareFilenameSegment at h
  rw [hindex] at h
  obtain ⟨stop, t, hscan, -⟩ := Exec.returns_bind.mp h
  obtain ⟨hle, hlt, hbefore, hstop⟩ := returns_componentEnd hscan
  exact ⟨stop, by omega, hle, hbefore, hstop⟩

/-- An entry is compared, from where its kind has the scan begin. -/
theorem does_segment {entry : FatFileEntry} {stop : Nat} (hle : entry.lastIndex ≤ stop)
    (hbefore : ∀ j, entry.lastIndex ≤ j → j < stop → name.get j ≠ slash ∧ name.get j ≠ 0#8)
    (hstop : ¬ (name.get stop ≠ slash ∧ name.get stop ≠ 0#8)) (hfuel : stop < maxString)
    (hlast : name.off + stop ≤ last) :
    Does last i vol files (tfCompareFilenameSegment entry name)
      (name.caseEqual (fun k => entry.reformatted.getD k 0#8) (min 13 stop) 0) vol files := by
  unfold tfCompareFilenameSegment
  refine (does_componentEnd (by omega) hle hlast hbefore hstop).bind ?_
  exact does_strncasecmpEqual fun j hj => by omega

/-- An entry with a short name is compared. -/
theorem does_tfCompareFilenameSegment {entry : FatFileEntry} {stop : Nat}
    (hshort : entry.msdosAttributes ≠ 0x0f#8) (hstop : name.StopsAt stop)
    (hfuel : stop < maxString) (hlast : name.off + stop ≤ last) :
    Does last i vol files (tfCompareFilenameSegment entry name)
      (name.caseEqual (fun k => entry.reformatted.getD k 0#8) (min 13 stop) 0) vol files := by
  have hindex : entry.lastIndex = 11 := if_pos hshort
  refine does_segment ?_ ?_ hstop.stop hfuel hlast
  · rw [hindex]
    exact hstop.le
  · rw [hindex]
    exact hstop.before

/-- The character at which the scan begins is read. -/
theorem emits_tfCompareFilenameSegment {entry : FatFileEntry} {P : FsEvent → Prop} {s : Fs}
    (h : (tfCompareFilenameSegment entry name).Emits P s) :
    P (.char (name.off + entry.lastIndex)) := by
  have hindex : entry.lastIndex < maxString := by
    unfold FatFileEntry.lastIndex
    split <;> decide
  have hscan : maxString - entry.lastIndex = maxString - entry.lastIndex - 1 + 1 := by omega
  unfold tfCompareFilenameSegment at h
  have h := (Exec.emits_bind.mp h).1
  rw [hscan] at h
  unfold componentEnd at h
  exact (Exec.emits_bind.mp h).1.all _ List.mem_cons_self

end

/-! ## Short names -/

theorem eq_unpadded_append (cs : List Byte) :
    ∃ n, cs = unpadded cs ++ List.replicate n space := by
  refine ⟨(cs.reverse.takeWhile (· = space)).length, ?_⟩
  have hspaces : cs.reverse.takeWhile (· = space) =
      List.replicate (cs.reverse.takeWhile (· = space)).length space :=
    List.eq_replicate_iff.mpr ⟨rfl, fun c hc => by simpa using List.mem_takeWhile_imp hc⟩
  have hsplit := congrArg List.reverse
    (List.takeWhile_append_dropWhile (p := (· = space)) (l := cs.reverse))
  rw [List.reverse_append, List.reverse_reverse, hspaces, List.reverse_replicate] at hsplit
  exact hsplit.symm

theorem unpadded_isPrefix (cs : List Byte) : unpadded cs <+: cs := List.rdropWhile_prefix _ _

/-- Without spaces inside, all spaces are the ones at the end. -/
theorem filter_eq_unpadded {cs : List Byte} (h : space ∉ unpadded cs) :
    cs.filter (· ≠ space) = unpadded cs := by
  obtain ⟨n, hn⟩ := eq_unpadded_append cs
  have hkept : (unpadded cs).filter (· ≠ space) = unpadded cs :=
    List.filter_eq_self.mpr fun c hc => decide_eq_true fun heq => h (heq ▸ hc)
  have hspaces : (List.replicate n space).filter (· ≠ space) = [] := by simp
  conv => lhs; rw [hn]
  rw [List.filter_append, hkept, hspaces, List.append_nil]

/-- The name with the dot, which it always has when it is compared. -/
def ShortEntry.dotted (e : ShortEntry) : List Byte := e.stem ++ dot :: e.extension

section
variable {e : ShortEntry} {entry : FatFileEntry} {name : Path} {len stop : Nat}

theorem ShortEntry.length_parts (e : ShortEntry) :
    e.stem.length ≤ 8 ∧ e.extension.length ≤ 3 := by
  have hstem := (unpadded_isPrefix ((List.range 8).map e.bytes)).length_le
  have hext := (unpadded_isPrefix ((List.range 3).map fun k => e.bytes (8 + k))).length_le
  rw [List.length_map, List.length_range] at hstem hext
  exact ⟨hstem, hext⟩

theorem msdosAttributes_eq (entry : FatFileEntry) : entry.msdosAttributes = entry 11 := by
  have hoffset : MsdosMember.offset .attributes = 11 := MsdosMember.offset_eq .attributes
  unfold FatFileEntry.msdosAttributes
  rw [hoffset]
  exact Bytes.word_one

/-- Only the name and the attributes are used. -/
theorem reformatted_congr (hentry : ∀ k < 12, entry k = e.bytes k) :
    entry.reformatted = FatFileEntry.reformatted e.bytes := by
  have hattr : entry.msdosAttributes = FatFileEntry.msdosAttributes e.bytes := by
    rw [msdosAttributes_eq, msdosAttributes_eq, hentry 11 (by simp)]
  have hshort : FatFileEntry.msdosAttributes e.bytes ≠ 0x0f#8 := by
    rw [msdosAttributes_eq]
    exact e.attributes
  have hstem : (List.range 8).map entry = (List.range 8).map e.bytes :=
    List.map_congr_left fun k hk => hentry k (by have := List.mem_range.mp hk; omega)
  have hext : ((List.range 3).map fun k => entry (8 + k)) =
      (List.range 3).map fun k => e.bytes (8 + k) :=
    List.map_congr_left fun k hk => hentry (8 + k) (by have := List.mem_range.mp hk; omega)
  unfold FatFileEntry.reformatted
  rw [hattr, if_pos hshort, if_pos hshort, hstem, hext]

theorem reformatted_eq (hsolid : e.Solid) :
    FatFileEntry.reformatted e.bytes = e.dotted ++ [0#8] := by
  have hshort : FatFileEntry.msdosAttributes e.bytes ≠ 0x0f#8 := by
    rw [msdosAttributes_eq]
    exact e.attributes
  unfold FatFileEntry.reformatted ShortEntry.dotted
  rw [if_pos hshort, filter_eq_unpadded hsolid.1, filter_eq_unpadded hsolid.2]
  simp [ShortEntry.stem, ShortEntry.extension]

theorem ShortEntry.mem_dotted {c : Byte} (hmem : c ∈ e.dotted) : c ≠ 0#8 ∧ c ≠ slash := by
  have hdot : dot ≠ 0#8 ∧ dot ≠ slash := by decide
  unfold ShortEntry.dotted at hmem
  rw [List.mem_append, List.mem_cons] at hmem
  rcases hmem with hmem | rfl | hmem
  · obtain ⟨k, hk, rfl⟩ := List.mem_map.mp ((unpadded_isPrefix _).mem hmem)
    have hlt := List.mem_range.mp hk
    exact e.name k (by omega)
  · exact hdot
  · obtain ⟨k, hk, rfl⟩ := List.mem_map.mp ((unpadded_isPrefix _).mem hmem)
    have hlt := List.mem_range.mp hk
    exact e.name (8 + k) (by omega)

theorem Path.length_component : (name.component len).length = name.componentLength len := by
  unfold Path.component
  rw [List.length_map, List.length_range]

theorem Path.getD_component {k : Nat} (hk : k < name.componentLength len) :
    (name.component len).getD k 0#8 = name.get k := by
  unfold Path.component
  simp [List.getD, hk]

/-- Up to the end of the string the characters are compared. -/
theorem Path.Ends.caseEqual_iff (hname : name.Ends len) {other : Nat → Byte} {n : Nat}
    (hn : n ≤ len) : name.caseEqual other n 0 = true ↔
      ∀ j < n, strcaseCharmap (name.get j) = strcaseCharmap (other j) := by
  rw [Path.caseEqual_iff]
  constructor
  · intro h j hj
    have heq := h j hj fun l hl => by
      rw [Nat.zero_add]
      exact hname.2 l (by omega)
    rwa [Nat.zero_add] at heq
  · intro h j hj _
    rw [Nat.zero_add]
    exact h j hj

/-- A scan that begins in the string ends in it. -/
theorem Path.Ends.exists_stop (hname : name.Ends len) {k : Nat} (hk : k ≤ len) :
    ∃ stop ≤ len, k ≤ stop ∧ (∀ j, k ≤ j → j < stop → name.get j ≠ slash ∧ name.get j ≠ 0#8) ∧
      ¬ (name.get stop ≠ slash ∧ name.get stop ≠ 0#8) := by
  have hlast : k ≤ len ∧ ¬ (name.get len ≠ slash ∧ name.get len ≠ 0#8) :=
    ⟨hk, fun h => h.2 hname.1⟩
  have hex : ∃ j, k ≤ j ∧ ¬ (name.get j ≠ slash ∧ name.get j ≠ 0#8) := ⟨len, hlast⟩
  have hfind := Nat.find_spec hex
  refine ⟨Nat.find hex, Nat.find_min' hex hlast, hfind.1, ?_, hfind.2⟩
  intro j hj hlt
  exact Decidable.of_not_not fun h => Nat.find_min hex hlt ⟨hj, h⟩

theorem Path.Ends.exists_stopsAt (hname : name.Ends len) (hlen : 11 ≤ len) :
    ∃ stop ≤ len, name.StopsAt stop := by
  obtain ⟨stop, hle, hk, hbefore, hstop⟩ := hname.exists_stop hlen
  exact ⟨stop, hle, hk, hbefore, hstop⟩

theorem Path.StopsAt.le_len (hstop : name.StopsAt stop) (hname : name.Ends len)
    (hlen : 11 ≤ len) : stop ≤ len := by
  apply Nat.le_of_not_lt
  intro hlt
  exact (hstop.before len hlen hlt).2 hname.1

/-- The scan from index 11 on gets to the end of a component that is long enough. -/
theorem Path.StopsAt.eq_componentLength (hstop : name.StopsAt stop) (hname : name.Ends len)
    (hm : 11 ≤ name.componentLength len) : stop = name.componentLength len := by
  obtain ⟨hle, hbefore, hslash⟩ := name.componentLength_spec len
  have hend : ¬ (name.get (name.componentLength len) ≠ slash ∧
      name.get (name.componentLength len) ≠ 0#8) := by
    rintro ⟨hne, hzero⟩
    rcases Nat.lt_or_eq_of_le hle with hlt | heq
    · exact hne (hslash hlt)
    · rw [heq] at hzero
      exact hzero hname.1
  rcases Nat.lt_trichotomy stop (name.componentLength len) with hlt | heq | hlt
  · exact absurd ⟨hbefore stop hlt, hname.2 stop (by omega)⟩ hstop.stop
  · exact heq
  · exact absurd (hstop.before _ hm hlt) hend

/-- A component is found if it has at least 11 characters, and the name with its dot begins
with it. -/
theorem caseEqual_dotted_iff (hname : name.Ends len) (hlen : 11 ≤ len)
    (hstop : name.StopsAt stop) :
    name.caseEqual (fun k => (e.dotted ++ [0#8]).getD k 0#8) (min 13 stop) 0 = true ↔
      11 ≤ name.componentLength len ∧ name.componentLength len ≤ e.dotted.length ∧
        SameName (name.component len) (e.dotted.take (name.componentLength len)) := by
  obtain ⟨hle, hbefore, hslash⟩ := name.componentLength_spec len
  have hstople := hstop.le
  have hstoplen := hstop.le_len hname hlen
  have hdotted : e.dotted.length ≤ 12 := by
    have hparts := e.length_parts
    unfold ShortEntry.dotted
    rw [List.length_append, List.length_cons]
    omega
  have hin : ∀ {k}, k < e.dotted.length → (e.dotted ++ [0#8]).getD k 0#8 = e.dotted.getD k 0#8 := by
    intro k hk
    rw [List.getD_append _ _ _ _ hk]
  have hout : ∀ {k}, e.dotted.length ≤ k → (e.dotted ++ [0#8]).getD k 0#8 = 0#8 := by
    intro k hk
    rcases Nat.lt_or_eq_of_le hk with hlt | rfl
    · exact List.getD_eq_default _ _ (by rw [List.length_append, List.length_singleton]; omega)
    · simp [List.getD]
  have hmem : ∀ {k}, k < e.dotted.length → e.dotted.getD k 0#8 ∈ e.dotted := by
    intro k hk
    rw [List.getD_eq_getElem _ _ hk]
    exact List.getElem_mem hk
  have htake : ∀ {m k}, k < m → m ≤ e.dotted.length →
      (e.dotted.take m).getD k 0#8 = e.dotted.getD k 0#8 := by
    intro m k hk hm
    simp [List.getD, hk]
  rw [hname.caseEqual_iff (by omega), sameName_iff, Path.length_component, List.length_take]
  constructor
  · intro h
    have hm : 11 ≤ name.componentLength len := by
      apply Nat.le_of_not_lt
      intro hlt
      have heq := h (name.componentLength len) (by omega)
      rw [hslash (by omega)] at heq
      have heq := strcaseCharmap_eq_slash heq.symm
      rcases Nat.lt_or_ge (name.componentLength len) e.dotted.length with hin' | hout'
      · rw [hin hin'] at heq
        exact (ShortEntry.mem_dotted (hmem hin')).2 heq
      · rw [hout hout'] at heq
        exact absurd heq (by decide)
    have hstop' := hstop.eq_componentLength hname hm
    have hmle : name.componentLength len ≤ e.dotted.length := by
      apply Nat.le_of_not_lt
      intro hlt
      have heq := h e.dotted.length (by omega)
      rw [hout (Nat.le_refl _)] at heq
      exact hname.2 _ (by omega) (strcaseCharmap_eq_zero heq)
    refine ⟨hm, hmle, (Nat.min_eq_left hmle).symm, fun k hk => ?_⟩
    rw [Path.getD_component hk, htake hk hmle, ← hin (by omega)]
    exact h k (by omega)
  · rintro ⟨hm, hmle, -, h⟩ j hj
    have hstop' := hstop.eq_componentLength hname hm
    have heq := h j (by omega)
    rwa [Path.getD_component (by omega), htake (by omega) hmle, ← hin (by omega)] at heq

/-- With 11 characters the name has an extension. -/
theorem ShortEntry.dotted_eq (hlen : 11 ≤ e.dotted.length) : e.dotted = e.shortName := by
  have hparts := e.length_parts
  unfold ShortEntry.dotted at hlen ⊢
  rw [List.length_append, List.length_cons] at hlen
  unfold ShortEntry.shortName
  rw [if_neg]
  intro hnil
  rw [hnil, List.length_nil] at hlen
  omega

theorem ShortEntry.eq_dotted (hlen : 11 ≤ e.shortName.length) : e.shortName = e.dotted := by
  have hparts := e.length_parts
  unfold ShortEntry.shortName at hlen ⊢
  split
  · next hnil =>
    rw [if_pos hnil] at hlen
    omega
  · rfl

/-- A component is found if it has at least 11 characters, and is the name or its first 11
characters. -/
theorem Path.caseEqual_solid_iff (hname : name.Ends len) (hlen : 11 ≤ len)
    (hstop : name.StopsAt stop) (hsolid : e.Solid) :
    name.caseEqual (fun k => (FatFileEntry.reformatted e.bytes).getD k 0#8) (min 13 stop) 0 = true ↔
      11 ≤ (name.component len).length ∧ (SameName (name.component len) e.shortName ∨
        SameName (name.component len) (e.shortName.take 11)) := by
  have hparts := e.length_parts
  have hdotted : e.dotted.length ≤ 12 := by
    unfold ShortEntry.dotted
    rw [List.length_append, List.length_cons]
    omega
  rw [reformatted_eq hsolid, caseEqual_dotted_iff hname hlen hstop, Path.length_component]
  constructor
  · rintro ⟨hm, hle, hsame⟩
    refine ⟨hm, ?_⟩
    have hshort := e.dotted_eq (by omega)
    rw [hshort] at hsame hle hdotted
    by_cases hall : name.componentLength len = e.shortName.length
    · left
      rwa [hall, List.take_length] at hsame
    · right
      have heleven : name.componentLength len = 11 := by omega
      rwa [heleven] at hsame
  · rintro ⟨hm, hsame | hsame⟩
    · have hlength := (sameName_iff.mp hsame).1
      rw [Path.length_component] at hlength
      have hshort := e.eq_dotted (by omega)
      rw [hshort] at hsame hlength
      refine ⟨hm, by omega, ?_⟩
      rwa [hlength, List.take_length]
    · have hlength := (sameName_iff.mp hsame).1
      rw [Path.length_component, List.length_take] at hlength
      have hshort := e.eq_dotted (by omega)
      rw [hshort] at hsame hlength
      have heleven : name.componentLength len = 11 := by omega
      refine ⟨hm, by omega, ?_⟩
      rwa [heleven]

end

end Mavmm.Hostfs
