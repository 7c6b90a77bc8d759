import Mavmm.Hostfs.Sector

/-!
# What the operations on sectors leave

What the operations on sectors do, whatever the device answers, and then what
they and those on FAT entries do when every transfer succeeds, as functions of
the state.
-/

namespace Mavmm.Hostfs

section
variable {α β : Type} {s s' : Fs}

/-! ## Steps -/

theorem run_info_bind {f : TfInfo → FsM β} : (info >>= f) s = f s.info s := rfl

theorem run_file_bind {fp : Handle} {f : TfFile → FsM β} :
    (file fp >>= f) s = f (s.handles fp) s := rfl

theorem run_modifyFile_bind {fp : Handle} {g : TfFile → TfFile} {f : Unit → FsM β} :
    (modifyFile fp g >>= f) s = f () (s.setFile fp (g (s.handles fp))) := rfl

theorem run_int_bind {x : Int} {f : BitVec 32 → FsM β} (h : -2 ^ 31 ≤ x ∧ x < 2 ^ 31) :
    (int x >>= f) s = f (BitVec.ofInt 32 x) s := by
  unfold int
  rw [if_pos h]
  rfl

theorem run_int_bind_fails {x : Int} {f : BitVec 32 → FsM β} (h : ¬ (-2 ^ 31 ≤ x ∧ x < 2 ^ 31)) :
    (int x >>= f) s = ([], .error .undefinedBehaviour) := by
  unfold int
  rw [if_neg h]
  rfl

/-! ## Flags -/

theorem flagged_clear_self (flags mask : BitVec 8) : flagged (flags &&& ~~~mask) mask = false := by
  have h : flags &&& ~~~mask &&& mask = 0#8 := by
    rw [BitVec.and_assoc, BitVec.and_comm (~~~mask), BitVec.and_not_self]
    exact BitVec.and_zero
  exact decide_eq_false (not_not_intro h)

theorem flagged_or_self (flags : BitVec 8) {mask : BitVec 8} (hmask : mask ≠ 0#8) :
    flagged (flags ||| mask) mask = true := by
  have h : (flags ||| mask) &&& mask = mask := by
    apply BitVec.eq_of_getLsbD_eq
    intro i hi
    rw [BitVec.getLsbD_and, BitVec.getLsbD_or]
    cases flags.getLsbD i <;> cases mask.getLsbD i <;> rfl
  unfold flagged
  rw [h]
  exact decide_eq_true hmask

/-! ## Transfers -/

/-- The state after `n` calls of the device. -/
def Fs.called (s : Fs) (n : Nat) : Fs := { s with answers := fun k => s.answers (k + n) }

/-- Whether the buffer is marked as dirty. -/
def Fs.dirty (s : Fs) : Bool := flagged s.info.sectorFlags tfFlagDirty

/-- The state after `tf_store`, whatever the device answers. -/
def Fs.stored (s : Fs) : Fs :=
  { s.called 1 with
    info := { s.info with sectorFlags := s.info.sectorFlags &&& ~~~tfFlagDirty }
    disk := WriteBack.set s.disk s.info.currentSector
      (if (s.answers 0).rc = 0#32 then s.info.buffer else (s.answers 0).sector) }

/-- The state after a sector was read into the buffer, whatever the device answers. -/
def Fs.readInto (s : Fs) (t : BitVec 32) : Fs :=
  { s.called 1 with info := { s.info with
      buffer := if (s.answers 0).rc = 0#32 then s.disk t else (s.answers 0).sector } }

/-- The sector that is recorded for the buffer. -/
def Fs.recorded (s : Fs) (t : BitVec 32) : Fs :=
  { s with info := { s.info with currentSector := t } }

/-- What `tf_fetch` has done before it reads the sector. -/
def Fs.writtenBack (s : Fs) : Fs := if s.dirty then s.stored else s

/-- What `tf_fetch` returns for a sector that is not in the buffer. -/
def Fs.fetchCode (s : Fs) : BitVec 32 :=
  (if s.dirty then (s.answers 0).rc else 0#32) ||| (s.writtenBack.answers 0).rc

theorem run_tfStore_any : tfStore s = ([], .ok ((s.answers 0).rc, s.stored)) := rfl

theorem run_readSector_any {t : BitVec 32} :
    readSector t s = ([], .ok ((s.answers 0).rc, s.readInto t)) := rfl

/-- The new sector is recorded when the device has not failed. -/
theorem run_tfFetch_any {t : BitVec 32} (ht : t ≠ s.info.currentSector) :
    tfFetch t s = ([], .ok (s.fetchCode,
      if s.fetchCode = 0#32 then (s.writtenBack.readInto t).recorded t
      else s.writtenBack.readInto t)) := by
  have hread : ∀ (s : Fs) (stored : BitVec 32), (do
      let rc := stored ||| (← readSector t)
      Exec.when (rc = 0#32) (modifyInfo fun i => { i with currentSector := t })
      return rc) s = ([], .ok (stored ||| (s.answers 0).rc,
        if stored ||| (s.answers 0).rc = 0#32 then (s.readInto t).recorded t
        else s.readInto t)) := by
    intro s stored
    rw [Exec.run_bind run_readSector_any]
    unfold Exec.when
    split
    · rfl
    · rfl
  unfold tfFetch Fs.fetchCode Fs.writtenBack
  rw [run_info_bind, if_neg ht]
  cases hdirty : s.dirty with
  | true =>
    rw [if_pos (show flagged s.info.sectorFlags tfFlagDirty = true from hdirty),
      Exec.run_bind run_tfStore_any]
    exact hread s.stored (s.answers 0).rc
  | false =>
    rw [if_neg (by rw [show flagged s.info.sectorFlags tfFlagDirty = false from hdirty]; decide),
      Exec.run_pure_bind]
    exact hread s 0#32

/-! ## Buffer -/

/-- The buffer is written back. -/
def Fs.flushed (s : Fs) : Fs :=
  { s.called 1 with
    info := { s.info with sectorFlags := s.info.sectorFlags &&& ~~~tfFlagDirty }
    disk := WriteBack.set s.disk s.info.currentSector s.info.buffer }

/-- Another sector is read into the buffer. -/
def Fs.loaded (s : Fs) (t : BitVec 32) : Fs :=
  { s.called 1 with info := { s.info with buffer := s.disk t, currentSector := t } }

/-- The sector is in the buffer. -/
def Fs.fetched (s : Fs) (t : BitVec 32) : Fs :=
  if t = s.info.currentSector then s else (if s.dirty then s.flushed else s).loaded t

theorem Fs.stored_eq (h : s.ErrorFree) : s.stored = s.flushed := by
  unfold Fs.stored
  rw [h 0, if_pos rfl]
  rfl

theorem Fs.recorded_readInto (h : s.ErrorFree) (t : BitVec 32) :
    (s.readInto t).recorded t = s.loaded t := by
  unfold Fs.readInto
  rw [h 0, if_pos rfl]
  rfl

theorem run_tfStore (h : s.ErrorFree) : tfStore s = ([], .ok (0#32, s.flushed)) := by
  rw [run_tfStore_any, h 0, Fs.stored_eq h]

theorem run_tfFetch (h : s.ErrorFree) (t : BitVec 32) :
    tfFetch t s = ([], .ok (0#32, s.fetched t)) := by
  unfold Fs.fetched
  by_cases ht : t = s.info.currentSector
  · unfold tfFetch
    rw [run_info_bind, if_pos ht, if_pos ht]
    rfl
  · have hback : s.writtenBack = if s.dirty then s.flushed else s := by
      unfold Fs.writtenBack
      rw [Fs.stored_eq h]
    have hfree : s.writtenBack.ErrorFree := by
      rw [hback]
      split
      · exact fun n => h (n + 1)
      · exact h
    have hcode : s.fetchCode = 0#32 := by
      unfold Fs.fetchCode
      rw [h 0, hfree 0, ite_self]
      rfl
    rw [run_tfFetch_any ht, hcode, if_pos rfl, if_neg ht, Fs.recorded_readInto hfree, hback]

/-- The driver's cache of one sector. -/
def Fs.cache (s : Fs) : WriteBack (BitVec 32) Sector where
  key := s.info.currentSector
  block := s.info.buffer
  dirty := s.dirty
  back := s.disk

theorem Fs.cache_eq {dirty : Bool} (h : s.dirty = dirty) :
    s.cache = ⟨s.info.currentSector, s.info.buffer, dirty, s.disk⟩ := by
  rw [← h]
  rfl

@[simp] theorem Fs.cache_flushed : s.flushed.cache = s.cache.flush :=
  Fs.cache_eq (s := s.flushed) (flagged_clear_self _ _)

/-- Over a buffer that is not dirty. -/
theorem Fs.cache_loaded (h : s.dirty = false) (t : BitVec 32) :
    (s.loaded t).cache = ⟨t, s.disk t, false, s.disk⟩ := Fs.cache_eq (s := s.loaded t) h

@[simp] theorem Fs.cache_fetched (t : BitVec 32) : (s.fetched t).cache = s.cache.fetch t := by
  unfold Fs.fetched
  by_cases ht : t = s.info.currentSector
  · rw [if_pos ht]
    exact (if_pos ht).symm
  · rw [if_neg ht]
    refine Eq.trans ?_ (if_neg (show ¬ t = s.cache.key from ht)).symm
    cases hdirty : s.dirty with
    | true =>
      rw [if_pos rfl, if_pos (show s.cache.dirty = true from hdirty),
        Fs.cache_loaded (s := s.flushed) (flagged_clear_self _ _)]
      rfl
    | false =>
      rw [if_neg Bool.false_ne_true, Fs.cache_loaded hdirty,
        if_neg (ne_true_of_eq_false (show s.cache.dirty = false from hdirty))]
      rfl

@[simp] theorem Fs.fetched_handles (t : BitVec 32) : (s.fetched t).handles = s.handles := by
  unfold Fs.fetched
  split
  · rfl
  · split <;> rfl

@[simp] theorem Fs.fetched_currentSector (t : BitVec 32) :
    (s.fetched t).info.currentSector = t := by
  unfold Fs.fetched
  split
  · next h => exact h.symm
  · rfl

/-- The geometry of the volume is not touched by a fetch. -/
theorem Fs.fetched_info {γ : Type} (g : TfInfo → γ)
    (hg : ∀ i k flags b, g { i with currentSector := k, sectorFlags := flags, buffer := b } = g i)
    (t : BitVec 32) : g (s.fetched t).info = g s.info := by
  unfold Fs.fetched
  split
  · rfl
  · split
    · exact hg s.info t _ _
    · exact hg s.info t s.info.sectorFlags _

theorem Fs.ErrorFree.fetched (h : s.ErrorFree) (t : BitVec 32) : (s.fetched t).ErrorFree := by
  intro n
  unfold Fs.fetched
  split
  · exact h n
  · split <;> exact h _

/-! ## FAT -/

/-- The number of the byte of the FAT at which the entry of a cluster starts fits in an `int`. -/
def FatOffset (cluster : BitVec 32) : Prop :=
  -2 ^ 31 ≤ cluster.toInt * 4 ∧ cluster.toInt * 4 < 2 ^ 31

instance (cluster : BitVec 32) : Decidable (FatOffset cluster) :=
  inferInstanceAs (Decidable (_ ∧ _))

/-- The sector with the FAT entry of a cluster. -/
def TfInfo.fatSector (i : TfInfo) (cluster : BitVec 32) : BitVec 32 :=
  BitVec.ofInt 32 (i.reservedSectors.toNat + (cluster.toInt * 4).tdiv 512)

/-- The place of the FAT entry of a cluster in its sector. -/
def fatIndex (cluster : BitVec 32) : Nat := ((cluster.toInt * 4).tmod 512).toNat

theorem toInt_ofInt {x : Int} (h : -2 ^ 31 ≤ x ∧ x < 2 ^ 31) : (BitVec.ofInt 32 x).toInt = x := by
  rw [BitVec.toInt_ofInt]
  exact Int.bmod_eq_of_le (by omega) (by omega)

/-- The sector of an entry is an `int`. -/
theorem fatSector_range {c : BitVec 32} (h : FatOffset c) (reserved : BitVec 16) :
    -2 ^ 31 ≤ (reserved.toNat : Int) + (c.toInt * 4).tdiv 512 ∧
      (reserved.toNat : Int) + (c.toInt * 4).tdiv 512 < 2 ^ 31 := by
  have hreserved := reserved.isLt
  unfold FatOffset at h
  have hsign : Int.sign 512 = 1 := rfl
  rw [Int.tdiv_eq_ediv, hsign]
  split <;> omega

theorem run_tfGetFatEntry (h : s.ErrorFree) {c : BitVec 32} (hc : FatOffset c) :
    tfGetFatEntry c s = ([], .ok (0#32, s.fetched (s.info.fatSector c))) := by
  unfold tfGetFatEntry
  rw [run_int_bind hc, run_info_bind, toInt_ofInt hc, run_int_bind (fatSector_range hc _)]
  exact run_tfFetch h _

/-- A word of the buffer is set. -/
def Fs.wordSet (s : Fs) (off : Nat) (v : BitVec 32) : Fs :=
  { s with info := { s.info with buffer := Bytes.putWord s.info.buffer 4 off v } }

/-- The stores of the bytes of a word. -/
def storeWord (sector : BitVec 32) (off : Nat) (v : BitVec 32) : List FsEvent :=
  [.stored sector off (v.extractLsb' 0 8), .stored sector (off + 1) (v.extractLsb' 8 8),
    .stored sector (off + 2) (v.extractLsb' 16 8), .stored sector (off + 3) (v.extractLsb' 24 8)]

/-- Four bytes make a word. -/
theorem put_eq_putWord (b : Sector) (off : Nat) (v : BitVec 32) :
    Bytes.put (Bytes.put (Bytes.put (Bytes.put b off (v.extractLsb' 0 8)) (off + 1)
      (v.extractLsb' 8 8)) (off + 2) (v.extractLsb' 16 8)) (off + 3) (v.extractLsb' 24 8) =
      Bytes.putWord b 4 off v := by
  funext k
  unfold Bytes.put Bytes.putWord
  by_cases hk : off ≤ k ∧ k < off + 4
  · obtain ⟨j, rfl⟩ := Nat.exists_eq_add_of_le hk.1
    have hj : j < 4 := by omega
    rw [if_pos hk, Nat.add_sub_cancel_left]
    match j, hj with
    | 0, _ | 1, _ | 2, _ | 3, _ => simp
  · have hne : k ≠ off + 3 ∧ k ≠ off + 2 ∧ k ≠ off + 1 ∧ k ≠ off := by omega
    rw [if_neg hk, if_neg hne.1, if_neg hne.2.1, if_neg hne.2.2.1, if_neg hne.2.2.2]

theorem run_setByte (off : Nat) (v : Byte) :
    setByte off v s = ([.stored s.info.currentSector off v],
      .ok ((), { s with info := { s.info with buffer := Bytes.put s.info.buffer off v } })) := rfl

theorem run_setWord (off : Nat) (v : BitVec 32) :
    setWord off v s = (storeWord s.info.currentSector off v, .ok ((), s.wordSet off v)) := by
  unfold Fs.wordSet
  rw [← put_eq_putWord]
  rfl

theorem run_tfSetFatEntry (h : s.ErrorFree) {c : BitVec 32} (hc : FatOffset c)
    (hindex : 0 ≤ (c.toInt * 4).tmod 512) (v : BitVec 32) :
    tfSetFatEntry c v s = (storeWord (s.info.fatSector c) (fatIndex c) v,
      .ok (0#32, (s.fetched (s.info.fatSector c)).wordSet (fatIndex c) v)) := by
  unfold tfSetFatEntry
  rw [run_int_bind hc, run_info_bind, toInt_ofInt hc, run_int_bind (fatSector_range hc _),
    Exec.run_bind (run_tfFetch h _)]
  dsimp only
  rw [if_neg (Int.not_lt.mpr hindex), Exec.run_bind_log (run_setWord _ v),
    Fs.fetched_currentSector]
  rfl

/-- Setting an entry succeeds only for a cluster whose entry lies in the FAT or before it, at a
place in the buffer. -/
theorem tfSetFatEntry_range {c v rc : BitVec 32} (h : s.ErrorFree)
    (hset : (tfSetFatEntry c v).Returns s rc s') :
    FatOffset c ∧ 0 ≤ (c.toInt * 4).tmod 512 := by
  by_cases hc : FatOffset c
  · refine ⟨hc, ?_⟩
    apply Int.not_lt.mp
    intro hindex
    unfold tfSetFatEntry Exec.Returns at hset
    rw [run_int_bind hc, run_info_bind, toInt_ofInt hc, run_int_bind (fatSector_range hc _),
      Exec.run_bind (run_tfFetch h _)] at hset
    dsimp only at hset
    rw [if_pos hindex] at hset
    cases hset
  · unfold tfSetFatEntry Exec.Returns at hset
    rw [run_int_bind_fails hc] at hset
    cases hset

end

end Mavmm.Hostfs
