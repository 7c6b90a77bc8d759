import Mavmm.SkipResume
import Mavmm.GuestWalk

/-!
# Write access in the guest's page directory

Unpacking takes write access away from every page of the guest by clearing one
bit in each word of its page directory, and gives it back by setting that bit.
Nothing records which words had it, so the pair is an inverse only for a
directory in which every page was writable (`unpack_restored_iff`).

A translation never looks at the bit.  The words that the loops rewrite are
aligned, and so is every word a walk reads: a walk reads such a word or one
apart from it, even where a directory is its own page table
(`linear2Physical_updateDirectory`).
-/

namespace Mavmm

open Paging

/-! ## Round trip -/

/-- Write access is on in every word of the page directory. -/
def WriteEnabled (cr3 : BitVec 64) (mem : Mem) : Prop :=
  ∀ index < 1024, has (mem.load32 (directoryWord cr3 index)) (1#32 <<< 1) = true

theorem pttefRw_eq : BitVec.ofNat 32 pttefRw = 1#32 <<< 1 := by decide

theorem not_pttefRw_eq : 0xffffffff#32 - BitVec.ofNat 32 pttefRw = ~~~(1#32 <<< 1) := by decide

section
variable {cr3 : BitVec 64} {mem : Mem} {index : Nat}

theorem load_protectedMem (h : index < 1024) :
    (protectedMem cr3 mem).load32 (directoryWord cr3 index) =
      mem.load32 (directoryWord cr3 index) &&& ~~~(1#32 <<< 1) := by
  rw [protectedMem, load_updateDirectory h, not_pttefRw_eq]

theorem load_unprotected (h : index < 1024) :
    (unprotected cr3 mem).load32 (directoryWord cr3 index) =
      mem.load32 (directoryWord cr3 index) ||| 1#32 <<< 1 := by
  rw [unprotected, load_updateDirectory h, pttefRw_eq]

end

/-- A word in which a bit was cleared and then set has it. -/
theorem clear_or_eq_iff {n k : Nat} {x : BitVec n} (hk : k < n) :
    x &&& ~~~(1#n <<< k) ||| 1#n <<< k = x ↔ has x (1#n <<< k) = true := by
  constructor
  · intro h
    rw [has_bit hk, ← h, BitVec.getLsbD_or, Bits.getLsbD_one_shiftLeft hk, decide_eq_true rfl,
      Bool.or_true]
  · exact clear_or hk

theorem load_unprotected_protectedMem {cr3 : BitVec 64} {mem : Mem} {index : Nat}
    (h : index < 1024) :
    (unprotected cr3 (protectedMem cr3 mem)).load32 (directoryWord cr3 index) =
        mem.load32 (directoryWord cr3 index) ↔
      has (mem.load32 (directoryWord cr3 index)) (1#32 <<< 1) = true := by
  rw [load_unprotected h, load_protectedMem h]
  exact clear_or_eq_iff (by simp)

/-- The two loops are all that happens to the guest's memory. -/
theorem unpack_roundTrip (m : Machine) :
    ∃ m₁ m₂, (vmEnableIntercept userUnpack).Returns m () m₁ ∧
      (vmDisableIntercept userUnpack).Returns m₁ () m₂ ∧
      m₂.mem = unprotected m.vmcb.cr3 (protectedMem m.vmcb.cr3 m.mem) := by
  have hasked : has userUnpack userUnpack = true := by decide
  refine ⟨_, _, returns_vmEnableIntercept.mpr rfl, returns_vmDisableIntercept.mpr rfl, ?_⟩
  simp only [if_pos hasked]
  rfl

/-- Enabling the intercepts for unpacking and disabling them again both complete, and they leave
the guest's page directory as it was exactly when every word of it had write access. -/
theorem unpack_restored_iff (m : Machine) :
    ∃ m₁ m₂, (vmEnableIntercept userUnpack).Returns m () m₁ ∧
      (vmDisableIntercept userUnpack).Returns m₁ () m₂ ∧
      ((∀ index < 1024, m₂.mem.load32 (directoryWord m.vmcb.cr3 index) =
          m.mem.load32 (directoryWord m.vmcb.cr3 index)) ↔
        WriteEnabled m.vmcb.cr3 m.mem) := by
  obtain ⟨m₁, m₂, henable, hdisable, hmem⟩ := unpack_roundTrip m
  refine ⟨m₁, m₂, henable, hdisable, ?_⟩
  rw [hmem]
  exact forall₂_congr fun _ hindex => load_unprotected_protectedMem hindex

/-- A guest that has made the pages of its first directory entry read-only loses that. -/
theorem unpack_not_restored : ∃ m m₁ m₂,
    (vmEnableIntercept userUnpack).Returns m () m₁ ∧
    (vmDisableIntercept userUnpack).Returns m₁ () m₂ ∧
    m.mem.load32 (directoryWord m.vmcb.cr3 0) = 0x1005#32 ∧
    m₂.mem.load32 (directoryWord m.vmcb.cr3 0) = 0x1007#32 := by
  let m : Machine := { Machine.boot with
    mem := Mem.store32 Machine.boot.mem (directoryWord 0#64 0) 0x1005#32 }
  have hword : m.mem.load32 (directoryWord m.vmcb.cr3 0) = 0x1005#32 := Mem.load32_store32 ..
  obtain ⟨m₁, m₂, henable, hdisable, hmem⟩ := unpack_roundTrip m
  refine ⟨m, m₁, m₂, henable, hdisable, hword, ?_⟩
  rw [hmem, load_unprotected (by simp), load_protectedMem (by simp), hword]
  decide

/-! ## Translation -/

/-- The two entries differ in write access at most. -/
def SameEntry (e e' : BitVec 32) : Prop := ∀ i, i ≠ 1 → e.getLsbD i = e'.getLsbD i

/-- The two memories differ in write access at most, in every aligned word. -/
def SameButRw (mem mem' : Mem) : Prop :=
  ∀ a : Addr, a.toNat % 4 = 0 → SameEntry (mem.load32 a) (mem'.load32 a)

theorem SameButRw.trans {m₁ m₂ m₃ : Mem} (h₁ : SameButRw m₁ m₂) (h₂ : SameButRw m₂ m₃) :
    SameButRw m₁ m₃ := fun a ha i hi => (h₁ a ha i hi).trans (h₂ a ha i hi)

/-- Two aligned words are the same or apart. -/
theorem apart_of_aligned {a b : Addr} (ha : a.toNat % 4 = 0) (hb : b.toNat % 4 = 0) (hne : b ≠ a) :
    Mem.Apart a 4 b 4 := by
  intro i hi
  have hne : b.toNat ≠ a.toNat := fun h => hne (BitVec.eq_of_toNat_eq h)
  have halt := a.isLt
  have hblt := b.isLt
  rw [BitVec.toNat_sub, BitVec.toNat_add, BitVec.toNat_ofNat]
  omega

section
variable {f : BitVec 32 → BitVec 32} {mem : Mem}

theorem sameButRw_store32 (hf : ∀ w, SameEntry (f w) w) {a : Addr}
    (ha : a.toNat % 4 = 0) : SameButRw (mem.store32 a (f (mem.load32 a))) mem := by
  intro b hb i hi
  by_cases heq : b = a
  · rw [heq, Mem.load32_store32, hf _ i hi]
  · rw [Mem.load32_store32_apart _ (apart_of_aligned ha hb heq)]

theorem directoryWord_aligned {cr3 : BitVec 64} (h : cr3.toNat % 4 = 0) (index : Nat) :
    (directoryWord cr3 index).toNat % 4 = 0 := by
  unfold directoryWord
  rw [BitVec.toNat_add, BitVec.toNat_ofNat]
  omega

theorem sameButRw_updateDirectory (hf : ∀ w, SameEntry (f w) w)
    {cr3 : BitVec 64} (h : cr3.toNat % 4 = 0) : SameButRw (updateDirectory f cr3 mem) mem := by
  unfold updateDirectory
  generalize List.range 1024 = words
  induction words generalizing mem with
  | nil => exact fun _ _ _ _ => rfl
  | cons index words ih =>
    rw [List.foldl_cons]
    exact ih.trans (sameButRw_store32 hf (directoryWord_aligned h index))

end

/-! ### A walk -/

section
variable {mem mem' : Mem} {e e' : BitVec 32} {a table : BitVec 64}

theorem SameEntry.extractLsb' {lo len : Nat} (h : SameEntry e e') (hlo : 1 < lo) :
    e.extractLsb' lo len = e'.extractLsb' lo len := by
  apply BitVec.eq_of_getLsbD_eq
  intro i hi
  rw [BitVec.getLsbD_extractLsb', BitVec.getLsbD_extractLsb', h (lo + i) (by omega)]

theorem SameEntry.present (h : SameEntry e e') : present e = present e' := h 0 (by simp)

theorem SameEntry.large (h : SameEntry e e') : large e = large e' := h 7 (by simp)

theorem SameEntry.pteBase (h : SameEntry e e') : PgtEntry4kb.pteBase e = PgtEntry4kb.pteBase e' :=
  h.extractLsb' (by simp)

theorem SameEntry.tableResult (h : SameEntry e e') : tableResult e a = tableResult e' a := by
  rw [Mavmm.tableResult, Mavmm.tableResult, h.pteBase, h.present]

theorem shiftInt_mod_four (e : BitVec 32) :
    (shiftInt (PgtEntry4kb.pteBase e) 12).toNat % 4 = 0 := by
  have haligned := Nat.dvd_of_mod_eq_zero (@shiftInt_aligned e 12 (by simp))
  exact Nat.mod_eq_zero_of_dvd (Nat.dvd_trans (by simp) haligned)

/-- The words of an aligned table are aligned. -/
theorem SameButRw.entry (h : SameButRw mem mem') (htable : table.toNat % 4 = 0)
    (index : BitVec 64) :
    SameEntry (mem.load32 (table + index * 4#64)) (mem'.load32 (table + index * 4#64)) := by
  apply h
  rw [BitVec.toNat_add, BitVec.toNat_mul, BitVec.toNat_ofNat]
  omega

/-- The walk of one page table. -/
theorem linear2physicalTable4kb_congr (h : SameButRw mem mem') (htable : table.toNat % 4 = 0) :
    linear2physicalTable4kb mem a 1 table = linear2physicalTable4kb mem' a 1 table := by
  have hpte : SameEntry (legacyEntry mem table a 12) (legacyEntry mem' table a 12) :=
    h.entry htable _
  rw [linear2physicalTable4kb_pt, linear2physicalTable4kb_pt, hpte.tableResult]

theorem linear2physicalLegacy4kb_congr (h : SameButRw mem mem') (htable : table.toNat % 4 = 0) :
    linear2physicalLegacy4kb mem table a = linear2physicalLegacy4kb mem' table a := by
  have hpde : SameEntry (legacyEntry mem table a 22) (legacyEntry mem' table a 22) :=
    h.entry htable _
  have hpte : SameEntry
      (legacyEntry mem (shiftInt (PgtEntry4kb.pteBase (legacyEntry mem' table a 22)) 12) a 12)
      (legacyEntry mem' (shiftInt (PgtEntry4kb.pteBase (legacyEntry mem' table a 22)) 12) a 12) :=
    h.entry (shiftInt_mod_four _) _
  rw [linear2physicalLegacy4kb_eq, linear2physicalLegacy4kb_eq, hpde.present, hpde.pteBase,
    hpte.tableResult]

theorem linear2physicalLegacy4mb_congr (h : SameButRw mem mem') (htable : table.toNat % 4 = 0) :
    linear2physicalLegacy4mb mem table a = linear2physicalLegacy4mb mem' table a := by
  have hpde := h.entry htable (a >>> 22)
  have hlow : Pd4mEntry.baselow (mem.load32 (table + (a >>> 22) * 4#64)) =
      Pd4mEntry.baselow (mem'.load32 (table + (a >>> 22) * 4#64)) := hpde.extractLsb' (by simp)
  have hlarge : Pd4mEntry.flags (mem.load32 (table + (a >>> 22) * 4#64)) &&&
        BitVec.ofNat 13 pttefPageSize ≠ 0#13 ↔
      Pd4mEntry.flags (mem'.load32 (table + (a >>> 22) * 4#64)) &&&
        BitVec.ofNat 13 pttefPageSize ≠ 0#13 := by
    apply decide_eq_decide.mp
    rw [pageSizeFlag_eq, pageSizeFlag_eq, hpde.large]
  have hpresent : entry4mbIsPresent (mem.load32 (table + (a >>> 22) * 4#64)) =
      entry4mbIsPresent (mem'.load32 (table + (a >>> 22) * 4#64)) := by
    rw [entry4mbIsPresent_eq, entry4mbIsPresent_eq, hpde.present]
  unfold linear2physicalLegacy4mb
  by_cases hl : Pd4mEntry.flags (mem'.load32 (table + (a >>> 22) * 4#64)) &&&
      BitVec.ofNat 13 pttefPageSize ≠ 0#13
  · rw [if_pos (hlarge.mpr hl), if_pos hl, hpresent, hlow]
  · rw [if_neg (mt hlarge.mp hl), if_neg hl]
    unfold linear2physicalEntry4kb
    rw [hpde.pteBase, if_neg (by decide), if_neg (by decide)]
    exact linear2physicalTable4kb_congr h (shiftInt_mod_four _)

/-- A translation through an aligned directory does not depend on write access. -/
theorem linear2Physical_congr (h : SameButRw mem mem') (htable : table.toNat % 4 = 0)
    (cr0 cr4 : BitVec 64) :
    linear2Physical mem cr0 table cr4 a = linear2Physical mem' cr0 table cr4 a := by
  unfold linear2Physical
  rw [linear2physicalLegacy4kb_congr h htable, linear2physicalLegacy4mb_congr h htable]

end

/-- The loop that a word function drives leaves every translation as it was. -/
theorem linear2Physical_updateDirectory {f : BitVec 32 → BitVec 32}
    (hf : ∀ w, SameEntry (f w) w) {cr3 : BitVec 64} (h : cr3.toNat % 4 = 0) (mem : Mem)
    (cr0 cr4 a : BitVec 64) :
    linear2Physical (updateDirectory f cr3 mem) cr0 cr3 cr4 a = linear2Physical mem cr0 cr3 cr4 a :=
  linear2Physical_congr (sameButRw_updateDirectory hf h) h cr0 cr4

theorem sameEntry_clear (w : BitVec 32) :
    SameEntry (w &&& (0xffffffff#32 - BitVec.ofNat 32 pttefRw)) w := by
  intro i hi
  rw [not_pttefRw_eq, BitVec.getLsbD_and, BitVec.getLsbD_not,
    Bits.getLsbD_one_shiftLeft (by simp), decide_eq_false hi, Bool.not_false, Bool.and_true]
  by_cases hlt : i < 32
  · rw [decide_eq_true hlt, Bool.and_true]
  · rw [decide_eq_false hlt, Bool.and_false, BitVec.getLsbD_of_ge w i (Nat.le_of_not_lt hlt)]

theorem sameEntry_set (w : BitVec 32) : SameEntry (w ||| BitVec.ofNat 32 pttefRw) w := by
  intro i hi
  rw [pttefRw_eq, BitVec.getLsbD_or, Bits.getLsbD_one_shiftLeft (by simp), decide_eq_false hi,
    Bool.or_false]

/-- Taking write access away from every page and giving it back leave every translation as it
was, wherever the tables of the walk lie. -/
theorem linear2Physical_protected {mem : Mem} {cr0 cr3 cr4 a : BitVec 64}
    (hcr3 : cr3.toNat % 4 = 0) :
    linear2Physical (protectedMem cr3 mem) cr0 cr3 cr4 a = linear2Physical mem cr0 cr3 cr4 a ∧
      linear2Physical (unprotected cr3 mem) cr0 cr3 cr4 a = linear2Physical mem cr0 cr3 cr4 a :=
  ⟨linear2Physical_updateDirectory sameEntry_clear hcr3 mem cr0 cr4 a,
    linear2Physical_updateDirectory sameEntry_set hcr3 mem cr0 cr4 a⟩

/-- A directory whose last word points to the directory itself. -/
theorem linear2Physical_protected_selfMap :
    linear2Physical (protectedMem 0x1000#64 (Mem.store32 (fun _ => 0#8) 0x1ffc#64 0x1003#32))
        0x80000001#64 0x1000#64 0#64 0xfffff123#64 =
      linear2Physical (Mem.store32 (fun _ => 0#8) 0x1ffc#64 0x1003#32)
        0x80000001#64 0x1000#64 0#64 0xfffff123#64 :=
  (linear2Physical_protected (by simp)).1

end Mavmm
