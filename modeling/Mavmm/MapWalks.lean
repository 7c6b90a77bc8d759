import Mavmm.MapParsing

/-!
# The two walks over the memory map

`setup_memory_region` ends on every map: its cursor has room for the sum of an
offset and a size.  The cursor of `hide_memory` has not, and starts over where
the sum is truncated.  The two visit the same entries as long as the last sum
is not truncated into the map again and no entry is rewritten over the size of
a later one (`WalksAlike`).
-/

namespace Mavmm

def MapEvent.visited : MapEvent → Option Addr
  | .visit mmap => some mmap
  | _ => none

/-- The entries that a loop looks at, in order. -/
def visited (log : List MapEvent) : List Addr := log.filterMap MapEvent.visited

/-- The offsets of the entries, for a cursor that is wide enough. -/
def MultibootInfo.offsets (mbi : MultibootInfo) (m : Mem) : List Nat :=
  (mbi.strides m).offsets mbi.mmapLength.toNat 0

/-- The loop of `setup_memory_region`. -/
def setupWalk (mbi : MultibootInfo) : Setup E820Map :=
  setupLoop mbi (mbi.mmapLength.toNat + 1) 0#64 ⟨[], Nat.zero_le _⟩

/-- Both loops end, and up to the limit of `setup_memory_region`, which stops at the entry after
the 128th, they look at the same entries. -/
structure WalkersAgree (mbi : MultibootInfo) (hidestart length : BitVec 64)
    (locals : Indeterminate) (m : Mem) : Prop where
  setup_ends : (setupWalk mbi m).2 ≠ .error .diverges
  hide_ends : ∃ fuel s log,
    (hideMemory mbi hidestart length locals fuel).Runs (hideStart locals m) log () s ∧
      visited (setupWalk mbi m).1 = (visited log).take (e820MaxEntries + 1)

section
variable (mbi : MultibootInfo) (hidestart hideend : BitVec 64) (locals : Indeterminate)

/-- The turns of `hide_memory` at the given offsets. -/
def hideEntries : (turn : Nat) → List Nat → HideState → HideState
  | _, [], s => s
  | turn, o :: os, s =>
    hideEntries (turn + 1) os
      (hideEntry hidestart hideend (locals.newstart turn) (locals.newend turn) (mbi.mmap o) s)

/-- When the turn of an entry comes, its size is still the one in `m`; the last one leads past the
map in 32 bits. -/
def WalksAlike (m : Mem) : (turn : Nat) → List Nat → HideState → Prop
  | _, [], _ => True
  | _, [o], s =>
    mbi.mmapLength.toNat ≤ (o + ((loadField s.mem (mbi.mmap o) .size).toNat + 4)) % 2 ^ 32
  | turn, o :: os, s =>
    loadField s.mem (mbi.mmap o) .size = loadField m (mbi.mmap o) .size ∧
      WalksAlike m (turn + 1) os
        (hideEntry hidestart hideend (locals.newstart turn) (locals.newend turn) (mbi.mmap o) s)

end

/-! ## What a turn leaves alone -/

/-- Not in the words of the entry after its size. -/
def Beside (mmap x : Addr) : Prop := (x - mmap).toNat < 4 ∨ sizeofMemoryMap ≤ (x - mmap).toNat

section
variable {m : Mem} {mmap x : Addr} {f : MmapField} {s : HideState}
  {hidestart hideend newstart newend : BitVec 64}

theorem storeField_beside {v : BitVec 32} (hf : f ≠ .size) (h : Beside mmap x) :
    storeField m mmap f v x = m x := by
  refine if_neg (Nat.not_lt.mpr ?_)
  have hx := (x - mmap).isLt
  have hoff : 4 ≤ f.offset ∧ f.offset ≤ 20 := by
    cases f with
    | size => exact absurd rfl hf
    | baseAddrLow => decide
    | baseAddrHigh => decide
    | lengthLow => decide
    | lengthHigh => decide
    | type => decide
  have hsub : x - f.addr mmap = x - mmap - BitVec.ofNat 64 f.offset := by
    unfold MmapField.addr
    bv_omega
  unfold Beside sizeofMemoryMap at h
  rw [hsub, BitVec.toNat_sub, BitVec.toNat_ofNat]
  omega

theorem storeBase_beside {v : BitVec 64} (h : Beside mmap x) : storeBase m mmap v x = m x := by
  unfold storeBase
  rw [storeField_beside (by simp) h, storeField_beside (by simp) h]

theorem storeLength_beside {v : BitVec 64} (h : Beside mmap x) : storeLength m mmap v x = m x := by
  unfold storeLength
  rw [storeField_beside (by simp) h, storeField_beside (by simp) h]

theorem hideRam_beside (h : Beside mmap x) :
    (hideRam hidestart hideend newstart newend mmap s).mem x = s.mem x := by
  unfold hideRam
  dsimp only
  split
  · exact storeLength_beside h
  · split
    · rfl
    · split
      · exact (storeLength_beside h).trans (storeBase_beside h)
      · exact storeField_beside (by simp) h

/-- A turn leaves everything but its entry alone, and the size of its entry. -/
theorem hideEntry_beside (h : Beside mmap x) :
    (hideEntry hidestart hideend newstart newend mmap s).mem x = s.mem x := by
  unfold hideEntry
  dsimp only
  split
  · split
    · exact (storeLength_beside h).trans
        ((storeBase_beside h).trans (storeField_beside (by simp) h))
    · rfl
  · exact hideRam_beside h

/-- The words of an entry that begins 24 bytes later, or earlier. -/
theorem loadField_hideEntry {mbi : MultibootInfo} {o a : Nat} (ho : o < 2 ^ 63) (ha : a < 2 ^ 63)
    (h : o + sizeofMemoryMap ≤ a ∨ a + sizeofMemoryMap ≤ o) (f : MmapField) :
    loadField (hideEntry hidestart hideend newstart newend (mbi.mmap o) s).mem (mbi.mmap a) f =
      loadField s.mem (mbi.mmap a) f := by
  refine Mem.load_congr fun k hk => hideEntry_beside (.inr ?_)
  have hoff : f.offset ≤ 20 := by cases f <;> decide
  unfold MmapField.addr
  rw [mmap_add, mmap_add]
  unfold sizeofMemoryMap at h ⊢
  change 24 ≤ (mbi.mmapAddr.setWidth 64 + BitVec.ofNat 64 (a + f.offset + k) -
    (mbi.mmapAddr.setWidth 64 + BitVec.ofNat 64 o)).toNat
  have hbase := (mbi.mmapAddr.setWidth 64).isLt
  rw [BitVec.toNat_sub, BitVec.toNat_add, BitVec.toNat_add, BitVec.toNat_ofNat, BitVec.toNat_ofNat]
  omega

end

section
variable {mbi : MultibootInfo} {hidestart hideend : BitVec 64} {locals : Indeterminate} {m : Mem}
  {s : HideState} {fuel turn o : Nat}

/-! ## The 64-bit cursor -/

theorem visited_setup_head {mmap : Addr} {log : List MapEvent} :
    visited (.visit mmap :: entryReads mmap ++ log) = mmap :: visited log := rfl

/-- The loop ends, and takes the entries in order while there is room, and one more. -/
theorem setupLoop_visits (o : Nat) : ∀ {fuel : Nat} {e820 : E820Map},
    ((mbi.strides m).offsets mbi.mmapLength.toNat o).length < fuel → o < 2 ^ 64 →
      (setupLoop mbi fuel (BitVec.ofNat 64 o) e820 m).2 ≠ .error .diverges ∧
        visited (setupLoop mbi fuel (BitVec.ofNat 64 o) e820 m).1 =
          (((mbi.strides m).offsets mbi.mmapLength.toNat o).take
            (e820MaxEntries - e820.map.length + 1)).map mbi.mmap := by
  have hbound := mbi.mmapLength.isLt
  induction o using Strides.offsets.induct (mbi.strides m) mbi.mmapLength.toNat with
  | case1 o hlt ih =>
    intro fuel e820 hfuel _
    obtain ⟨fuel, rfl⟩ := Nat.exists_eq_succ_of_ne_zero (Nat.ne_of_gt (Nat.zero_lt_of_lt hfuel))
    rw [Strides.offsets_of_lt hlt] at hfuel ⊢
    by_cases hroom : e820.map.length < e820MaxEntries
    · obtain ⟨e', hmap, hturn⟩ := setupLoop_turn (m := m) fuel hlt hroom
      have hnext : (mbi.strides m).next o < 2 ^ 64 := by
        have hsize := (loadField m (mbi.mmap o) .size).isLt
        change o + ((loadField m (mbi.mmap o) .size).toNat + 4) < 2 ^ 64
        omega
      obtain ⟨hends, hvisits⟩ := @ih fuel e' (Nat.lt_of_succ_lt_succ hfuel) hnext
      have hlen : e820MaxEntries - e820.map.length = e820MaxEntries - e'.map.length + 1 := by
        rw [hmap, List.length_append, List.length_singleton]
        omega
      rw [hturn]
      refine ⟨hends, ?_⟩
      rw [visited_setup_head, hlen, List.take_succ_cons, List.map_cons, ← hvisits]
      rfl
    · have hfull := Nat.le_of_not_lt hroom
      rw [setupLoop_full hlt hfull, Nat.sub_eq_zero_of_le hfull]
      refine ⟨fun h => ?_, rfl⟩
      cases h
  | case2 o hge =>
    intro fuel e820 hfuel ho
    obtain ⟨fuel, rfl⟩ := Nat.exists_eq_succ_of_ne_zero (Nat.ne_of_gt (Nat.zero_lt_of_lt hfuel))
    rw [setupLoop_done ho (Nat.le_of_not_lt hge), Strides.offsets_of_le (Nat.le_of_not_lt hge)]
    refine ⟨fun h => ?_, rfl⟩
    cases h

theorem setupWalk_visits : (setupWalk mbi m).2 ≠ .error .diverges ∧
    visited (setupWalk mbi m).1 = ((mbi.offsets m).take (e820MaxEntries + 1)).map mbi.mmap :=
  setupLoop_visits 0 (Nat.lt_succ_of_le (Strides.length_offsets_le _ _ _)) (by simp)

/-! ## The 32-bit cursor -/

theorem ofNat_lt_mmapLength_iff :
    BitVec.ofNat 32 o < mbi.mmapLength ↔ o % 2 ^ 32 < mbi.mmapLength.toNat := by
  rw [BitVec.lt_def, BitVec.toNat_ofNat]

theorem ofNat_mod (n : Nat) : BitVec.ofNat 32 n = BitVec.ofNat 32 (n % 2 ^ 32) := by
  apply BitVec.eq_of_toNat_eq
  rw [BitVec.toNat_ofNat, BitVec.toNat_ofNat, Nat.mod_mod]

theorem hideLoop_done (h : mbi.mmapLength.toNat ≤ o % 2 ^ 32) :
    hideLoop mbi hidestart hideend locals (fuel + 1) turn (BitVec.ofNat 32 o) s =
      ([], .ok ((), s)) := by
  unfold hideLoop Exec.when
  rw [if_neg (fun hlt => Nat.not_lt.mpr h (ofNat_lt_mmapLength_iff.mp hlt))]
  rfl

/-- A turn looks at the entry, and goes on where its size says, in 32 bits. -/
theorem hideLoop_turn (hidestart hideend : BitVec 64) (locals : Indeterminate) (fuel turn : Nat)
    (s : HideState) (h : o < mbi.mmapLength.toNat) :
    hideLoop mbi hidestart hideend locals (fuel + 1) turn (BitVec.ofNat 32 o) s =
      (.visit (mbi.mmap o) ::
          (hideLoop mbi hidestart hideend locals fuel (turn + 1)
            (BitVec.ofNat 32 (o + ((loadField s.mem (mbi.mmap o) .size).toNat + 4)))
            (hideEntry hidestart hideend (locals.newstart turn) (locals.newend turn) (mbi.mmap o)
              s)).1,
        (hideLoop mbi hidestart hideend locals fuel (turn + 1)
          (BitVec.ofNat 32 (o + ((loadField s.mem (mbi.mmap o) .size).toNat + 4)))
          (hideEntry hidestart hideend (locals.newstart turn) (locals.newend turn) (mbi.mmap o)
            s)).2) := by
  have ho : o < 2 ^ 32 := Nat.lt_trans h mbi.mmapLength.isLt
  have hoff : (BitVec.ofNat 32 o).setWidth 64 = BitVec.ofNat 64 o := by
    apply BitVec.eq_of_toNat_eq
    rw [BitVec.toNat_setWidth_of_le (by simp), BitVec.toNat_ofNat, BitVec.toNat_ofNat]
    omega
  conv_lhs => unfold hideLoop Exec.when
  have hlt : BitVec.ofNat 32 o < mbi.mmapLength := by
    rw [ofNat_lt_mmapLength_iff, Nat.mod_eq_of_lt ho]
    exact h
  rw [if_pos hlt, hoff, BitVec.ofNat_add, BitVec.ofNat_add, BitVec.ofNat_toNat, BitVec.setWidth_eq]
  rfl

/-- Where the walks are alike, the loop takes the entries in order and ends. -/
theorem hideLoop_follows (o : Nat) : ∀ {fuel turn : Nat} {s : HideState},
    WalksAlike mbi hidestart hideend locals m turn
        ((mbi.strides m).offsets mbi.mmapLength.toNat o) s →
      ((mbi.strides m).offsets mbi.mmapLength.toNat o).length < fuel → o < 2 ^ 32 →
      ∃ log, (hideLoop mbi hidestart hideend locals fuel turn (BitVec.ofNat 32 o)).Runs s log ()
          (hideEntries mbi hidestart hideend locals turn
            ((mbi.strides m).offsets mbi.mmapLength.toNat o) s) ∧
        visited log = ((mbi.strides m).offsets mbi.mmapLength.toNat o).map mbi.mmap := by
  have hbound := mbi.mmapLength.isLt
  induction o using Strides.offsets.induct (mbi.strides m) mbi.mmapLength.toNat with
  | case1 o hlt ih =>
    intro fuel turn s halike hfuel ho
    obtain ⟨fuel, rfl⟩ := Nat.exists_eq_succ_of_ne_zero (Nat.ne_of_gt (Nat.zero_lt_of_lt hfuel))
    have hturn := hideLoop_turn hidestart hideend locals fuel turn s hlt
    rw [Strides.offsets_of_lt hlt] at halike hfuel ⊢
    have hfuel := Nat.lt_of_succ_lt_succ hfuel
    by_cases hlast : mbi.mmapLength.toNat ≤ (mbi.strides m).next o
    · -- the sum may be truncated, but not into the map
      rw [Strides.offsets_of_le hlast] at halike hfuel ⊢
      obtain ⟨fuel, rfl⟩ := Nat.exists_eq_succ_of_ne_zero (Nat.ne_of_gt hfuel)
      rw [hideLoop_done halike] at hturn
      exact ⟨[.visit (mbi.mmap o)], hturn, rfl⟩
    · have hlast := Nat.lt_of_not_le hlast
      obtain ⟨hsize, hrest⟩ : loadField s.mem (mbi.mmap o) .size = loadField m (mbi.mmap o) .size ∧
          WalksAlike mbi hidestart hideend locals m (turn + 1)
            ((mbi.strides m).offsets mbi.mmapLength.toNat ((mbi.strides m).next o))
            (hideEntry hidestart hideend (locals.newstart turn) (locals.newend turn) (mbi.mmap o)
              s) := by
        rw [Strides.offsets_of_lt hlast] at halike ⊢
        exact halike
      obtain ⟨log, hruns, hvisits⟩ := ih hrest hfuel (Nat.lt_trans hlast hbound)
      rw [hsize] at hturn
      refine ⟨.visit (mbi.mmap o) :: log, ?_, ?_⟩
      · unfold Exec.Runs at hruns ⊢
        rw [hturn]
        rw [show o + ((loadField m (mbi.mmap o) .size).toNat + 4) = (mbi.strides m).next o from rfl,
          hruns]
        rfl
      · rw [List.map_cons, ← hvisits]
        rfl
  | case2 o hge =>
    intro fuel turn s halike hfuel ho
    obtain ⟨fuel, rfl⟩ := Nat.exists_eq_succ_of_ne_zero (Nat.ne_of_gt (Nat.zero_lt_of_lt hfuel))
    have hge := Nat.le_of_not_lt hge
    rw [Strides.offsets_of_le hge]
    exact ⟨[], hideLoop_done ((Nat.mod_eq_of_lt ho).symm ▸ hge), rfl⟩

theorem mmap_inj {a b : Nat} (ha : a < 2 ^ 64) (hb : b < 2 ^ 64) (h : mbi.mmap a = mbi.mmap b) :
    a = b := by
  have h := (BitVec.add_right_inj _).mp h
  have h := congrArg BitVec.toNat h
  rwa [BitVec.toNat_ofNat, BitVec.toNat_ofNat, Nat.mod_eq_of_lt ha, Nat.mod_eq_of_lt hb] at h

/-- What a loop that ends looks at first. -/
theorem visited_head {n : Nat} {s' : HideState} {log : List MapEvent}
    (h : (hideLoop mbi hidestart hideend locals fuel turn (BitVec.ofNat 32 n)).Runs s log () s') :
    (visited log).head? =
      if n % 2 ^ 32 < mbi.mmapLength.toNat then some (mbi.mmap (n % 2 ^ 32)) else none := by
  cases fuel with
  | zero => cases h
  | succ fuel =>
    split
    · next hlt =>
      unfold Exec.Runs at h
      rw [ofNat_mod, hideLoop_turn hidestart hideend locals fuel turn s hlt] at h
      obtain ⟨rfl, -⟩ := Prod.mk.inj h
      rfl
    · next hge =>
      unfold Exec.Runs at h
      rw [hideLoop_done (Nat.le_of_not_lt hge)] at h
      obtain ⟨rfl, -⟩ := Prod.mk.inj h
      rfl

/-- A loop that ends after the entries in order has found their sizes as they are in `m`. -/
theorem walksAlike_of_visits (o : Nat) : ∀ {fuel turn : Nat} {s s' : HideState}
    {log : List MapEvent},
    (hideLoop mbi hidestart hideend locals fuel turn (BitVec.ofNat 32 o)).Runs s log () s' →
      visited log = ((mbi.strides m).offsets mbi.mmapLength.toNat o).map mbi.mmap →
      WalksAlike mbi hidestart hideend locals m turn
        ((mbi.strides m).offsets mbi.mmapLength.toNat o) s := by
  have hbound := mbi.mmapLength.isLt
  induction o using Strides.offsets.induct (mbi.strides m) mbi.mmapLength.toNat with
  | case1 o hlt ih =>
    intro fuel turn s s' log hruns hvisits
    cases fuel with
    | zero => cases hruns
    | succ fuel =>
      unfold Exec.Runs at hruns
      rw [hideLoop_turn hidestart hideend locals fuel turn s hlt] at hruns
      rw [Strides.offsets_of_lt hlt] at hvisits ⊢
      obtain ⟨rfl, hresult⟩ := Prod.mk.inj hruns
      have hrest := Exec.Returns.runs hresult
      have hhead := visited_head hrest
      have hvisits : visited _ =
        ((mbi.strides m).offsets mbi.mmapLength.toNat ((mbi.strides m).next o)).map mbi.mmap :=
        (List.cons.inj hvisits).2
      rw [hvisits] at hhead
      by_cases hlast : mbi.mmapLength.toNat ≤ (mbi.strides m).next o
      · rw [Strides.offsets_of_le hlast] at hhead ⊢
        refine Nat.le_of_not_lt fun hback => ?_
        rw [if_pos hback] at hhead
        cases hhead
      · have hlast := Nat.lt_of_not_le hlast
        have hsize : loadField s.mem (mbi.mmap o) .size = loadField m (mbi.mmap o) .size := by
          rw [Strides.offsets_of_lt hlast] at hhead
          split at hhead
          · next hback =>
            have hsame := mmap_inj (by omega) (by omega) (Option.some.inj hhead)
            have hnext : (mbi.strides m).next o =
              o + ((loadField m (mbi.mmap o) .size).toNat + 4) := rfl
            have hs := (loadField s.mem (mbi.mmap o) .size).isLt
            have hm := (loadField m (mbi.mmap o) .size).isLt
            apply BitVec.eq_of_toNat_eq
            omega
          · cases hhead
        rw [hsize] at hrest hvisits
        have halike := ih hrest hvisits
        rw [Strides.offsets_of_lt hlast] at halike ⊢
        exact ⟨hsize, halike⟩
  | case2 o hge =>
    intro fuel turn s s' log hruns hvisits
    rw [Strides.offsets_of_le (Nat.le_of_not_lt hge)]
    trivial

/-! ## Records -/

theorem entryAt_congr {m m' : Mem} {a : Addr}
    (h : ∀ f, loadField m' a f = loadField m a f) : entryAt m' a = entryAt m a := by
  unfold entryAt entryStart entrySize
  simp only [h]

/-- A turn at `o` leaves the records from a later offset on alone. -/
theorem RecordsFrom.hideEntry {newstart newend : BitVec 64} {rs : List MapRecord}
    (ho : o < 2 ^ 32) : ∀ {a : Nat}, RecordsFrom mbi s.mem a rs → o + sizeofMemoryMap ≤ a →
      a + (encode rs).length ≤ 2 ^ 32 →
      RecordsFrom mbi (hideEntry hidestart hideend newstart newend (mbi.mmap o) s).mem a rs := by
  induction rs with
  | nil => exact fun _ _ _ => trivial
  | cons r rs ih =>
    intro a h hle hlen
    obtain ⟨hsize, hentry, hrest⟩ := h
    rw [length_encode_cons] at hlen
    have hsame : ∀ f,
        loadField (Mavmm.hideEntry hidestart hideend newstart newend (mbi.mmap o) s).mem
          (mbi.mmap a) f = loadField s.mem (mbi.mmap a) f :=
      loadField_hideEntry (by omega) (by omega) (.inl hle)
    refine ⟨(hsame .size).trans hsize, (entryAt_congr hsame).trans hentry, ?_⟩
    exact ih hrest (by omega) (by omega)

theorem offsets_records {r : MapRecord} {rs : List MapRecord}
    (h : RecordsFrom mbi m o (r :: rs))
    (hlen : o + (encode (r :: rs)).length = mbi.mmapLength.toNat) :
    (mbi.strides m).offsets mbi.mmapLength.toNat o =
      o :: (mbi.strides m).offsets mbi.mmapLength.toNat (o + (r.size.toNat + 4)) := by
  rw [length_encode_cons] at hlen
  rw [Strides.offsets_of_lt (by omega), next_of_size h.1]

/-- Records have room for what is written into them. -/
theorem walksAlike_of_recordsFrom (rs : List MapRecord) : ∀ {o turn : Nat} {s : HideState},
    RecordsFrom mbi m o rs → RecordsFrom mbi s.mem o rs →
      o + (encode rs).length = mbi.mmapLength.toNat →
      WalksAlike mbi hidestart hideend locals m turn
        ((mbi.strides m).offsets mbi.mmapLength.toNat o) s := by
  have hbound := mbi.mmapLength.isLt
  induction rs with
  | nil =>
    intro o turn s _ _ hlen
    have hlen : o = mbi.mmapLength.toNat := hlen
    rw [Strides.offsets_of_le (Nat.le_of_eq hlen.symm)]
    trivial
  | cons r rs ih =>
    intro o turn s hm hs hlen
    rw [offsets_records hm hlen]
    rw [length_encode_cons] at hlen
    have hsize := r.size_eq
    have hrest : WalksAlike mbi hidestart hideend locals m (turn + 1)
        ((mbi.strides m).offsets mbi.mmapLength.toNat (o + (r.size.toNat + 4)))
        (hideEntry hidestart hideend (locals.newstart turn) (locals.newend turn) (mbi.mmap o) s) :=
      ih hm.2.2 (hs.2.2.hideEntry (by omega) (by unfold sizeofMemoryMap; omega) (by omega))
        (by omega)
    cases rs with
    | nil =>
      have hlen : o + (r.size.toNat + 4 + 0) = mbi.mmapLength.toNat := hlen
      rw [Strides.offsets_of_le (by omega)]
      change mbi.mmapLength.toNat ≤
        (o + ((loadField s.mem (mbi.mmap o) .size).toNat + 4)) % 2 ^ 32
      rw [hs.1, Nat.mod_eq_of_lt (by omega)]
      omega
    | cons r' rs =>
      rw [length_encode_cons] at hlen
      rw [Strides.offsets_of_lt (by omega)] at hrest ⊢
      exact ⟨hs.1.trans hm.1.symm, hrest⟩

/-! ## Agreement -/

theorem WalkersAgree.alike {length : BitVec 64} (h : WalkersAgree mbi hidestart length locals m)
    (hfew : (mbi.offsets m).length ≤ e820MaxEntries) :
    WalksAlike mbi hidestart (hidestart + length - 1#64) locals m 0 (mbi.offsets m)
      (hideStart locals m) := by
  obtain ⟨-, fuel, s, log, hruns, hvisits⟩ := h
  rw [setupWalk_visits.2, List.take_of_length_le (Nat.le_succ_of_le hfew)] at hvisits
  have hshort := congrArg List.length hvisits
  rw [List.length_map, List.length_take] at hshort
  rw [List.take_of_length_le (by omega)] at hvisits
  exact walksAlike_of_visits 0 hruns hvisits.symm

/-- The walks agree where they are alike, and only there if the map has no more entries than the
e820 map. -/
theorem walkersAgree_iff {length : BitVec 64} :
    (WalksAlike mbi hidestart (hidestart + length - 1#64) locals m 0 (mbi.offsets m)
        (hideStart locals m) → WalkersAgree mbi hidestart length locals m) ∧
      ((mbi.offsets m).length ≤ e820MaxEntries → WalkersAgree mbi hidestart length locals m →
        WalksAlike mbi hidestart (hidestart + length - 1#64) locals m 0 (mbi.offsets m)
          (hideStart locals m)) := by
  refine ⟨fun halike => ?_, fun hfew h => h.alike hfew⟩
  obtain ⟨hends, (hsetup : visited (setupWalk mbi m).1 = _)⟩ := setupWalk_visits
  obtain ⟨log, hruns, hvisits⟩ := hideLoop_follows 0 halike (Nat.lt_succ_self _) (by simp)
  refine ⟨hends, _, _, log, hruns, ?_⟩
  rw [hsetup, hvisits, List.map_take]
  rfl

end

def Indeterminate.zero : Indeterminate := ⟨0#64, fun _ => 0#64, fun _ => 0#64⟩

/-- A map that the boot loader encodes is walked alike. -/
theorem walkersAgree_iff_two :
    WalkersAgree (.of twoRecords) 0x100000#64 0x1000#64 .zero
      (.ofBytes 0x9000#64 (encode twoRecords)) := by
  have hmap : MapAt (.of twoRecords) twoRecords (.ofBytes 0x9000#64 (encode twoRecords)) :=
    mapAt_of (by decide)
  have hrec := recordsFrom_of_holds twoRecords hmap.holds
  exact walkersAgree_iff.1 (walksAlike_of_recordsFrom twoRecords hrec hrec (by decide))

/-- An entry of size `0xfffffffc`, which the 32-bit cursor never leaves. -/
def loopingEntry : Mem := .ofBytes 0x9000#64 [0xfc#8, 0xff#8, 0xff#8, 0xff#8]

def loopingMap : MultibootInfo := ⟨mbiMemmap, 24#32, 0x9000#32⟩

theorem not_walkersAgree :
    ¬ ∃ locals, WalkersAgree loopingMap 0x100000#64 0x1000#64 locals loopingEntry := by
  rintro ⟨locals, h⟩
  have hoffsets : loopingMap.offsets loopingEntry = [0] := by
    unfold MultibootInfo.offsets
    rw [Strides.offsets_of_lt (by decide), Strides.offsets_of_le (by decide +kernel)]
  have halike := h.alike (by rw [hoffsets]; decide)
  rw [hoffsets] at halike
  have hsize : (loadField loopingEntry (loopingMap.mmap 0) .size).toNat = 0xfffffffc := by
    decide +kernel
  have halike :
      24 ≤ (0 + ((loadField loopingEntry (loopingMap.mmap 0) .size).toNat + 4)) % 2 ^ 32 := halike
  rw [hsize] at halike
  exact absurd halike (by simp)

end Mavmm
