import Mavmm.Hostfs.SectorCache

/-!
# Device errors

What a fetch leaves when the device fails.  The sector that is recorded stays
the old one, but the mark of a dirty buffer is gone before the buffer is
written back, and the new sector is read into the buffer in any case.  So the
buffer still holds the sector that is recorded only if it was written back and
the device left it alone when the read failed (`tfFetch_survives_iff`).
-/

namespace Mavmm.Hostfs

section
variable {s s' : Fs} {t rc : BitVec 32}

/-- A fetch that fails has read into the buffer; the store before it has failed, or the read. -/
theorem returns_tfFetch_fails (h : (tfFetch t).Returns s rc s') (hrc : rc ≠ 0#32) :
    s' = s.writtenBack.readInto t ∧
      ((s.dirty = true ∧ (s.answers 0).rc ≠ 0#32) ∨ (s.writtenBack.answers 0).rc ≠ 0#32) := by
  by_cases ht : t = s.info.currentSector
  · unfold tfFetch Exec.Returns at h
    rw [run_info_bind, if_pos ht] at h
    exact absurd (Exec.returns_pure.mp h).1.symm hrc
  · obtain ⟨rfl, hs'⟩ := (Exec.returns_of_run (run_tfFetch_any ht)).mp h
    rw [if_neg hrc] at hs'
    refine ⟨hs'.symm, ?_⟩
    by_cases hread : (s.writtenBack.answers 0).rc = 0#32
    · unfold Fs.fetchCode at hrc
      rw [hread, BitVec.or_zero] at hrc
      split at hrc
      · next hdirty => exact Or.inl ⟨hdirty, hrc⟩
      · exact absurd rfl hrc
    · exact Or.inr hread

/-! ## What is left -/

/-- The bytes of two sectors. -/
def SameBytes (a b : Sector) : Prop := ∀ k < 512, a k = b k

/-- After a fetch from `s` that failed, the buffer holds the sector that is recorded for it, and a
modified one that was not written back is still marked; the sector is not mistaken for another one
later. -/
structure Survives (s s' : Fs) : Prop where
  holds : SameBytes s'.info.buffer (s.cache.view s'.info.currentSector)
  /-- The first call of the device is the one that writes the buffer back. -/
  modified : s.dirty = true → (s.answers 0).rc ≠ 0#32 →
    SameBytes s'.info.buffer s.info.buffer ∧ s'.dirty = true
  later : ∀ {rc u}, (tfFetch s'.info.currentSector).Returns s' rc u →
    SameBytes u.info.buffer (s.cache.view s'.info.currentSector)

/-- A buffer that has to be written back is written back, and the device leaves the bytes of the
buffer alone when it fails to read. -/
structure SparesBuffer (s : Fs) : Prop where
  store : s.dirty = true → (s.answers 0).rc = 0#32
  read : SameBytes (s.answers (if s.dirty then 1 else 0)).sector s.info.buffer

/-- Fetching the sector that is recorded does nothing. -/
theorem returns_tfFetch_current (h : (tfFetch s.info.currentSector).Returns s rc s') : s = s' := by
  unfold tfFetch Exec.Returns at h
  rw [run_info_bind, if_pos rfl] at h
  exact (Exec.returns_pure.mp h).2

/-- A buffer that did not have to be written back, or was, holds the sector that is recorded when
the bytes in it are the ones that it had. -/
theorem survives_readInto {u : Fs} (hcurrent : u.info.currentSector = s.info.currentSector)
    (hstore : s.dirty = true → (s.answers 0).rc = 0#32) :
    Survives s (u.readInto t) ↔ SameBytes (u.readInto t).info.buffer s.info.buffer := by
  have hview : s.cache.view (u.readInto t).info.currentSector = s.info.buffer := by
    have hkey : s.cache.view s.info.currentSector = s.info.buffer :=
      WriteBack.view_key (c := s.cache)
    rw [← hkey, ← hcurrent]
    rfl
  constructor
  · intro hsurvives
    have hholds := hsurvives.holds
    rwa [hview] at hholds
  · intro hsame
    rw [← hview] at hsame
    refine ⟨hsame, fun hdirty hrc => absurd (hstore hdirty) hrc, fun hlater => ?_⟩
    rw [← returns_tfFetch_current hlater]
    exact hsame

/-- The read that failed has put into the buffer what the device left there. -/
theorem buffer_readInto (h : (s.answers 0).rc ≠ 0#32) :
    (s.readInto t).info.buffer = (s.answers 0).sector := if_neg h

/-- A fetch that fails leaves the cache as it should be exactly when the buffer was written back, if
it had to be, and the read that failed did not change it. -/
theorem tfFetch_survives_iff (h : (tfFetch t).Returns s rc s') (hrc : rc ≠ 0#32) :
    Survives s s' ↔ SparesBuffer s := by
  obtain ⟨rfl, hfailed⟩ := returns_tfFetch_fails h hrc
  by_cases hstore : s.dirty = true → (s.answers 0).rc = 0#32
  · have hread : (s.writtenBack.answers 0).rc ≠ 0#32 := by
      rcases hfailed with ⟨hdirty, hrc⟩ | hread
      · exact absurd (hstore hdirty) hrc
      · exact hread
    have hcurrent : s.writtenBack.info.currentSector = s.info.currentSector := by
      unfold Fs.writtenBack
      split <;> rfl
    have hanswer : s.writtenBack.answers 0 = s.answers (if s.dirty then 1 else 0) := by
      unfold Fs.writtenBack
      split <;> rfl
    rw [survives_readInto hcurrent hstore, buffer_readInto hread, hanswer]
    exact ⟨fun hsame => ⟨hstore, hsame⟩, SparesBuffer.read⟩
  · -- the mark is gone although the buffer was not written back
    refine iff_of_false (fun hsurvives => hstore fun hdirty => ?_)
      fun hspares => hstore hspares.store
    by_cases hfails : (s.answers 0).rc = 0#32
    · exact hfails
    · have hmarked := (hsurvives.modified hdirty hfails).2
      unfold Fs.writtenBack at hmarked
      rw [if_pos hdirty] at hmarked
      have hclear : (s.stored.readInto t).dirty = false := flagged_clear_self _ _
      exact absurd (hclear.symm.trans hmarked) Bool.false_ne_true

end

/-- The device answers the first call with an error, and leaves this in the target. -/
def Fs.failing (s : Fs) (left : Sector) : Fs :=
  { s with answers := fun n => { rc := if n = 0 then 1#32 else 0#32, sector := left } }

/-- A read that fails without touching the buffer. -/
theorem tfFetch_survives_untouched : ∃ s',
    (tfFetch 41#32).Returns (Fs.blank.failing fun _ => 0#8) 1#32 s' ∧
    Survives (Fs.blank.failing fun _ => 0#8) s' := by
  have hfetch : ∃ s', (tfFetch 41#32).Returns (Fs.blank.failing fun _ => 0#8) 1#32 s' := by decide
  obtain ⟨s', hfetch⟩ := hfetch
  exact ⟨s', hfetch, (tfFetch_survives_iff hfetch (by decide)).mpr
    ⟨fun hdirty => absurd hdirty (by decide), fun _ _ => rfl⟩⟩

/-- A modified sector that cannot be written back is replaced by the next one. -/
theorem tfFetch_loses_modified : ∃ s',
    (tfFetch 41#32).Returns ((Fs.blank.byteSet 0 7#8).failing fun _ => 0#8) 1#32 s' ∧
    ¬ Survives ((Fs.blank.byteSet 0 7#8).failing fun _ => 0#8) s' := by
  have hfetch : ∃ s', (tfFetch 41#32).Returns ((Fs.blank.byteSet 0 7#8).failing fun _ => 0#8)
      1#32 s' := by decide
  obtain ⟨s', hfetch⟩ := hfetch
  obtain ⟨rfl, -⟩ := returns_tfFetch_fails hfetch (by decide)
  exact ⟨_, hfetch, fun hsurvives => absurd (hsurvives.holds 0 (by decide)) (by decide)⟩

end Mavmm.Hostfs
