import Mavmm.MapWalks
import Mavmm.PageAccounting

/-!
# Hiding a region of the memory map

What `hide_memory` does to the words of an entry is a function of what the entry
says and of the part that waits (`hideE820`), so a run on a map that the boot
loader encodes is a run over the list of its entries (`hideMemory_entries`).
-/

namespace Mavmm

/-- The part of a split entry that waits for a reserved entry. -/
structure SplitPart where
  start : BitVec 64
  size : BitVec 64

/-- What an entry says, and the part that waits. -/
def HideState.view (s : HideState) (mmap : Addr) : E820Entry × SplitPart :=
  (entryAt s.mem mmap, ⟨s.replaceStart, s.replaceSize⟩)

section
variable (hidestart hideend : BitVec 64) (locals : Indeterminate)

/-- A turn of `hide_memory`, on what an entry says. -/
def hideE820 (newstart newend : BitVec 64) (p : E820Entry) (r : SplitPart) :
    E820Entry × SplitPart :=
  let stop := p.addr + p.size
  let startsIn := p.addr ≥ hidestart ∧ p.addr ≤ hideend
  let endsIn := stop ≥ hidestart ∧ stop ≤ hideend
  let newstart := if startsIn then hideend + 1#64 else newstart
  let newend := if endsIn then hidestart - 1#64 else newend
  if p.type ≠ e820Ram then
    if r.size ≠ 0#64 ∧ p.type = e820Reserved then (⟨r.start, r.size, e820Ram⟩, ⟨r.start, 0#64⟩)
    else (p, r)
  else if p.addr < hidestart ∧ stop > hideend then
    ({ p with size := hidestart - p.addr }, ⟨hideend + 1#64, stop - (hideend + 1#64)⟩)
  else if ¬ startsIn ∧ ¬ endsIn then (p, r)
  else if stop > p.addr then ({ p with addr := newstart, size := newend - newstart }, r)
  else ({ p with type := e820Reserved }, r)

/-- The entries after the turns of `hide_memory`. -/
def hideE820s : (turn : Nat) → List E820Entry → SplitPart → List E820Entry
  | _, [], _ => []
  | turn, p :: ps, r =>
    (hideE820 hidestart hideend (locals.newstart turn) (locals.newend turn) p r).1 ::
      hideE820s (turn + 1) ps
        (hideE820 hidestart hideend (locals.newstart turn) (locals.newend turn) p r).2

end

/-! ## Words of an entry -/

section
variable {m : Mem} {mmap : Addr} {f g : MmapField} {s : HideState}
  {hidestart hideend newstart newend : BitVec 64}

theorem loadField_storeField_self {v : BitVec 32} : loadField (storeField m mmap f v) mmap f = v :=
  Mem.load32_store32 m _ v

theorem MmapField.offset_apart (h : f ≠ g) :
    f.offset + 4 ≤ g.offset ∨ g.offset + 4 ≤ f.offset := by
  revert h
  cases f <;> cases g <;> decide

theorem MmapField.offset_le : f.offset ≤ 20 := by
  cases f <;> decide

theorem loadField_storeField_ne {v : BitVec 32} (h : f ≠ g) :
    loadField (storeField m mmap f v) mmap g = loadField m mmap g := by
  apply Mem.load32_store32_apart
  intro i hi
  have hsub : g.addr mmap + BitVec.ofNat 64 i - f.addr mmap =
      BitVec.ofNat 64 (g.offset + i) - BitVec.ofNat 64 f.offset := by
    unfold MmapField.addr
    bv_omega
  have hapart := MmapField.offset_apart h
  have hf := MmapField.offset_le (f := f)
  have hg := MmapField.offset_le (f := g)
  rw [hsub, BitVec.toNat_sub, BitVec.toNat_ofNat, BitVec.toNat_ofNat]
  omega

theorem entryStart_storeBase {v : BitVec 64} : entryStart (storeBase m mmap v) mmap = v := by
  unfold entryStart storeBase
  rw [loadField_storeField_self, loadField_storeField_ne (by simp), loadField_storeField_self,
    joinWords_split]

theorem entrySize_storeLength {v : BitVec 64} : entrySize (storeLength m mmap v) mmap = v := by
  unfold entrySize storeLength
  rw [loadField_storeField_self, loadField_storeField_ne (by simp), loadField_storeField_self,
    joinWords_split]

theorem entryAt_storeBase {v : BitVec 64} :
    entryAt (storeBase m mmap v) mmap = { entryAt m mmap with addr := v } := by
  unfold entryAt
  rw [entryStart_storeBase]
  unfold entrySize storeBase
  rw [loadField_storeField_ne (by simp), loadField_storeField_ne (by simp),
    loadField_storeField_ne (by simp), loadField_storeField_ne (by simp),
    loadField_storeField_ne (by simp), loadField_storeField_ne (by simp)]

theorem entryAt_storeLength {v : BitVec 64} :
    entryAt (storeLength m mmap v) mmap = { entryAt m mmap with size := v } := by
  unfold entryAt
  rw [entrySize_storeLength]
  unfold entryStart storeLength
  rw [loadField_storeField_ne (by simp), loadField_storeField_ne (by simp),
    loadField_storeField_ne (by simp), loadField_storeField_ne (by simp),
    loadField_storeField_ne (by simp), loadField_storeField_ne (by simp)]

theorem entryAt_storeType {v : BitVec 32} :
    entryAt (storeField m mmap .type v) mmap = { entryAt m mmap with type := v } := by
  unfold entryAt entryStart entrySize
  rw [loadField_storeField_self, loadField_storeField_ne (by simp),
    loadField_storeField_ne (by simp), loadField_storeField_ne (by simp),
    loadField_storeField_ne (by simp)]

/-- A turn does to the words of its entry what `hideE820` does to what they say. -/
theorem view_hideEntry :
    (hideEntry hidestart hideend newstart newend mmap s).view mmap =
      hideE820 hidestart hideend newstart newend (s.view mmap).1 (s.view mmap).2 := by
  have hother : ∀ s : HideState,
      s.view mmap = (entryAt s.mem mmap, ⟨s.replaceStart, s.replaceSize⟩) := fun _ => rfl
  unfold hideE820 hideEntry
  rw [hother s]
  dsimp only
  by_cases htype : loadField s.mem mmap .type ≠ e820Ram
  · rw [if_pos htype, if_pos (show (entryAt s.mem mmap).type ≠ e820Ram from htype)]
    by_cases hreplace : s.replaceSize ≠ 0#64 ∧ loadField s.mem mmap .type = e820Reserved
    · rw [if_pos hreplace]
      unfold HideState.view replaceEntry
      rw [entryAt_storeLength, entryAt_storeBase, entryAt_storeType]
      exact (if_pos hreplace).symm
    · rw [if_neg hreplace]
      exact (if_neg hreplace).symm
  · rw [if_neg htype, if_neg (show ¬ (entryAt s.mem mmap).type ≠ e820Ram from htype)]
    unfold hideRam
    dsimp only
    by_cases hsplit : entryStart s.mem mmap < hidestart ∧
        entryStart s.mem mmap + entrySize s.mem mmap > hideend
    · rw [if_pos hsplit]
      unfold HideState.view
      rw [entryAt_storeLength]
      exact (if_pos hsplit).symm
    rw [if_neg hsplit]
    refine Eq.trans ?_ (if_neg hsplit).symm
    by_cases hout : ¬ (entryStart s.mem mmap ≥ hidestart ∧ entryStart s.mem mmap ≤ hideend) ∧
        ¬ (entryStart s.mem mmap + entrySize s.mem mmap ≥ hidestart ∧
          entryStart s.mem mmap + entrySize s.mem mmap ≤ hideend)
    · rw [if_pos hout]
      exact (if_pos hout).symm
    rw [if_neg hout]
    refine Eq.trans ?_ (if_neg hout).symm
    by_cases hgrows : entryStart s.mem mmap + entrySize s.mem mmap > entryStart s.mem mmap
    · rw [if_pos hgrows]
      unfold HideState.view
      rw [entryAt_storeLength, entryAt_storeBase]
      exact (if_pos hgrows).symm
    · rw [if_neg hgrows]
      unfold HideState.view
      rw [entryAt_storeType]
      exact (if_neg hgrows).symm

end

/-! ## Runs over records -/

/-- The entries of the map, as a 64-bit cursor finds them. -/
def MultibootInfo.entries (mbi : MultibootInfo) (m : Mem) : List E820Entry :=
  (mbi.offsets m).map fun o => entryAt m (mbi.mmap o)

section
variable (hidestart hideend : BitVec 64) (locals : Indeterminate)

/-- The records after the turns of `hide_memory`. -/
def hideRecords : (turn : Nat) → List MapRecord → SplitPart → List MapRecord
  | _, [], _ => []
  | turn, q :: qs, r =>
    { q with
      entry :=
        (hideE820 hidestart hideend (locals.newstart turn) (locals.newend turn) q.entry r).1 } ::
      hideRecords (turn + 1) qs
        (hideE820 hidestart hideend (locals.newstart turn) (locals.newend turn) q.entry r).2

end

section
variable {mbi : MultibootInfo} {m : Mem} {s : HideState} {hidestart hideend : BitVec 64}
  {locals : Indeterminate}

theorem map_entry_hideRecords (rs : List MapRecord) : ∀ (turn : Nat) (r : SplitPart),
    (hideRecords hidestart hideend locals turn rs r).map MapRecord.entry =
      hideE820s hidestart hideend locals turn (rs.map MapRecord.entry) r := by
  induction rs with
  | nil => exact fun _ _ => rfl
  | cons q rs ih => exact fun turn r => congrArg (List.cons _) (ih (turn + 1) _)

theorem length_encode_hideRecords (rs : List MapRecord) : ∀ (turn : Nat) (r : SplitPart),
    (encode (hideRecords hidestart hideend locals turn rs r)).length = (encode rs).length := by
  induction rs with
  | nil => exact fun _ _ => rfl
  | cons q rs ih =>
    intro turn r
    rw [length_encode_cons, ← ih (turn + 1)
      (hideE820 hidestart hideend (locals.newstart turn) (locals.newend turn) q.entry r).2]
    exact length_encode_cons

/-- The turns of later entries leave an entry alone. -/
theorem loadField_hideEntries {o : Nat} (ho : o < 2 ^ 63) (os : List Nat) : ∀ (turn : Nat)
    (s : HideState), (∀ a ∈ os, o + sizeofMemoryMap ≤ a ∧ a < 2 ^ 63) → ∀ f,
      loadField (hideEntries mbi hidestart hideend locals turn os s).mem (mbi.mmap o) f =
        loadField s.mem (mbi.mmap o) f := by
  induction os with
  | nil => exact fun _ _ _ _ => rfl
  | cons a os ih =>
    intro turn s hos f
    obtain ⟨ha, hos⟩ := List.forall_mem_cons.mp hos
    rw [hideEntries, ih (turn + 1) _ hos f]
    exact loadField_hideEntry ha.2 ho (.inr ha.1) f

theorem loadField_size_hideEntry {mmap : Addr} {newstart newend : BitVec 64} :
    loadField (hideEntry hidestart hideend newstart newend mmap s).mem mmap .size =
      loadField s.mem mmap .size := by
  refine Mem.load_congr fun k hk => hideEntry_beside (.inl ?_)
  have hzero : MmapField.addr .size mmap = mmap := BitVec.add_zero mmap
  rw [hzero, Mem.toNat_add_ofNat_sub mmap (by omega)]
  exact hk

/-- A run over records leaves records of the same sizes. -/
theorem recordsFrom_hideEntries (rs : List MapRecord) : ∀ {o turn : Nat} {s : HideState},
    RecordsFrom mbi m o rs → RecordsFrom mbi s.mem o rs →
      o + (encode rs).length = mbi.mmapLength.toNat →
      RecordsFrom mbi (hideEntries mbi hidestart hideend locals turn
          ((mbi.strides m).offsets mbi.mmapLength.toNat o) s).mem o
        (hideRecords hidestart hideend locals turn rs ⟨s.replaceStart, s.replaceSize⟩) := by
  have hbound := mbi.mmapLength.isLt
  induction rs with
  | nil => exact fun _ _ _ => trivial
  | cons q rs ih =>
    intro o turn s hm hs hlen
    rw [offsets_records hm hlen]
    rw [length_encode_cons] at hlen
    have hsize := q.size_eq
    have hview : (hideEntry hidestart hideend (locals.newstart turn) (locals.newend turn)
        (mbi.mmap o) s).view (mbi.mmap o) =
          hideE820 hidestart hideend (locals.newstart turn) (locals.newend turn) q.entry
            ⟨s.replaceStart, s.replaceSize⟩ := by
      rw [view_hideEntry]
      unfold HideState.view
      rw [hs.2.1]
    have hlater : ∀ a ∈ (mbi.strides m).offsets mbi.mmapLength.toNat (o + (q.size.toNat + 4)),
        o + sizeofMemoryMap ≤ a ∧ a < 2 ^ 63 := by
      intro a ha
      have := Strides.mem_offsets _ _ _ a ha
      unfold sizeofMemoryMap
      omega
    have hkept : RecordsFrom mbi (hideEntry hidestart hideend (locals.newstart turn)
        (locals.newend turn) (mbi.mmap o) s).mem (o + (q.size.toNat + 4)) rs :=
      hs.2.2.hideEntry (by omega) (by unfold sizeofMemoryMap; omega) (by omega)
    have hsame : loadField (hideEntry hidestart hideend (locals.newstart turn) (locals.newend turn)
        (mbi.mmap o) s).mem (mbi.mmap o) .size = loadField s.mem (mbi.mmap o) .size :=
      loadField_size_hideEntry
    rw [hideEntries, hideRecords, ← hview]
    generalize hideEntry hidestart hideend (locals.newstart turn) (locals.newend turn) (mbi.mmap o)
      s = t at hkept hsame ⊢
    have hframe : ∀ f, loadField (hideEntries mbi hidestart hideend locals (turn + 1) _ t).mem
        (mbi.mmap o) f = loadField t.mem (mbi.mmap o) f :=
      loadField_hideEntries (by omega) _ (turn + 1) t hlater
    exact ⟨(hframe .size).trans (hsame.trans hs.1), entryAt_congr hframe,
      ih hm.2.2 hkept (by omega)⟩

theorem offsets_recordsFrom (rs : List MapRecord) : ∀ {o : Nat},
    RecordsFrom mbi m o rs → o + (encode rs).length = mbi.mmapLength.toNat →
      ((mbi.strides m).offsets mbi.mmapLength.toNat o).map (fun o => entryAt m (mbi.mmap o)) =
        rs.map MapRecord.entry := by
  induction rs with
  | nil =>
    intro o _ hlen
    have hlen : o = mbi.mmapLength.toNat := hlen
    rw [Strides.offsets_of_le (Nat.le_of_eq hlen.symm)]
    rfl
  | cons q rs ih =>
    intro o h hlen
    rw [offsets_records h hlen, List.map_cons, List.map_cons, h.2.1]
    rw [length_encode_cons] at hlen
    rw [ih h.2.2 (by omega)]

theorem MapAt.entries_eq {rs : List MapRecord} (h : MapAt mbi rs m) :
    mbi.entries m = rs.map MapRecord.entry :=
  offsets_recordsFrom rs (recordsFrom_of_holds rs h.holds) ((Nat.zero_add _).trans h.length.symm)

/-- More turns than the loop needs change nothing. -/
theorem hideLoop_succ (fuel : Nat) : ∀ {turn n : Nat} {s : HideState} {log : List MapEvent}
    {r : Unit × HideState},
    hideLoop mbi hidestart hideend locals fuel turn (BitVec.ofNat 32 n) s = (log, .ok r) →
      hideLoop mbi hidestart hideend locals (fuel + 1) turn (BitVec.ofNat 32 n) s =
        (log, .ok r) := by
  induction fuel with
  | zero =>
    intro turn n s log r h
    cases h
  | succ fuel ih =>
    intro turn n s log r h
    by_cases hlt : n % 2 ^ 32 < mbi.mmapLength.toNat
    · rw [ofNat_mod, hideLoop_turn hidestart hideend locals fuel turn s hlt] at h
      rw [ofNat_mod, hideLoop_turn hidestart hideend locals (fuel + 1) turn s hlt]
      obtain ⟨rfl, hresult⟩ := Prod.mk.inj h
      rw [ih (Prod.ext rfl hresult)]
    · have hge := Nat.le_of_not_lt hlt
      rw [hideLoop_done hge] at h ⊢
      exact h

theorem hideLoop_add {fuel turn n : Nat} {s : HideState} {log : List MapEvent}
    {r : Unit × HideState} (more : Nat)
    (h : hideLoop mbi hidestart hideend locals fuel turn (BitVec.ofNat 32 n) s = (log, .ok r)) :
    hideLoop mbi hidestart hideend locals (fuel + more) turn (BitVec.ofNat 32 n) s =
      (log, .ok r) := by
  induction more with
  | zero => exact h
  | succ more ih => exact hideLoop_succ _ ih

/-- On a map that the boot loader encodes the loop ends, and leaves the entries that its turns make
of the ones that were there. -/
theorem hideMemory_entries {rs : List MapRecord} {length : BitVec 64} (h : MapAt mbi rs m) :
    ∃ fuel s, (hideMemory mbi hidestart length locals fuel).Returns (hideStart locals m) () s ∧
      mbi.entries s.mem = hideE820s hidestart (hidestart + length - 1#64) locals 0
        (mbi.entries m) ⟨locals.replaceStart, 0#64⟩ := by
  have hrec := recordsFrom_of_holds rs h.holds
  have hlen : 0 + (encode rs).length = mbi.mmapLength.toNat :=
    (Nat.zero_add _).trans h.length.symm
  have hstart : RecordsFrom mbi (hideStart locals m).mem 0 rs := hrec
  have halike : WalksAlike mbi hidestart (hidestart + length - 1#64) locals m 0 (mbi.offsets m)
      (hideStart locals m) := walksAlike_of_recordsFrom rs hrec hstart hlen
  obtain ⟨log, hruns, -⟩ := hideLoop_follows 0 halike (Nat.lt_succ_self _) (by simp)
  refine ⟨_, _, hruns.returns, ?_⟩
  have hafter : RecordsFrom mbi (hideEntries mbi hidestart (hidestart + length - 1#64) locals 0
      (mbi.offsets m) (hideStart locals m)).mem 0 (hideRecords hidestart
        (hidestart + length - 1#64) locals 0 rs ⟨locals.replaceStart, 0#64⟩) :=
    recordsFrom_hideEntries rs hrec hstart hlen
  rw [h.entries_eq, ← map_entry_hideRecords]
  refine offsets_recordsFrom _ hafter ?_
  rw [length_encode_hideRecords]
  exact hlen

theorem hideMemory_unique {length : BitVec 64} {fuel fuel' : Nat} {s s' : HideState}
    (h : (hideMemory mbi hidestart length locals fuel).Returns (hideStart locals m) () s)
    (h' : (hideMemory mbi hidestart length locals fuel').Returns (hideStart locals m) () s') :
    s = s' := by
  have hmore := hideLoop_add (n := 0) fuel' h.runs
  have hmore' := hideLoop_add (n := 0) fuel h'.runs
  rw [Nat.add_comm, hmore] at hmore'
  exact (Prod.mk.inj (Except.ok.inj (Prod.mk.inj hmore').2)).2

end

end Mavmm
