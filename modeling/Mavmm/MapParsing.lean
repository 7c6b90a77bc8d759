import Mavmm.Lib.Strides
import Mavmm.MemoryMap

/-!
# Reading the memory map back

Records that stand in memory as the boot loader encodes them, with padding of
any size, come out of `setup_memory_region` as they went in: the loop takes one
record a turn, as the next one begins where the size of this one says
(`setupLoop_turn`).
-/

namespace Mavmm

/-- The entry at an offset. -/
abbrev MultibootInfo.mmap (mbi : MultibootInfo) (o : Nat) : Addr := mbi.entry (BitVec.ofNat 64 o)

/-- The entries that a 64-bit cursor visits. -/
def MultibootInfo.strides (mbi : MultibootInfo) (m : Mem) : Strides where
  next o := o + ((loadField m (mbi.mmap o) .size).toNat + 4)
  lt_next _ := Nat.lt_add_of_pos_right (Nat.succ_pos _)

section
variable {m : Mem} {mbi : MultibootInfo} {e820 : E820Map} {fuel p : Nat} {mmap : Addr}

/-! ## One turn -/

/-- What a turn reads before it stores the entry. -/
def entryReads (mmap : Addr) : List MapEvent :=
  [.read mmap .baseAddrHigh, .read mmap .baseAddrLow, .read mmap .lengthHigh,
    .read mmap .lengthLow, .read mmap .type]

theorem addMemoryRegion_room (entry : E820Entry) (h : e820.map.length < e820MaxEntries) :
    ∃ e' : E820Map, e'.map = e820.map ++ [entry] ∧
      addMemoryRegion e820 entry.addr entry.size entry.type m =
        ([.store e820.map.length], .ok e') := by
  refine ⟨⟨e820.map ++ [entry], ?_⟩, rfl, ?_⟩
  · rw [List.length_append, List.length_singleton]
    exact h
  · unfold addMemoryRegion
    rw [dif_neg (Nat.not_le.mpr h)]
    rfl

theorem addMemoryRegion_full {start size : BitVec 64} {type : E820Type}
    (h : e820MaxEntries ≤ e820.map.length) :
    addMemoryRegion e820 start size type m =
      ([], fatalFailure "Too many entries in the memory map.\n") := by
  unfold addMemoryRegion
  rw [dif_pos h]
  rfl

theorem lt_mmapLength_iff (hp : p < 2 ^ 64) :
    BitVec.ofNat 64 p < mbi.mmapLength.setWidth 64 ↔ p < mbi.mmapLength.toNat := by
  rw [BitVec.lt_def, BitVec.toNat_ofNat, Nat.mod_eq_of_lt hp,
    BitVec.toNat_setWidth_of_le (by simp)]

theorem setupLoop_done (hp : p < 2 ^ 64) (h : mbi.mmapLength.toNat ≤ p) :
    setupLoop mbi (fuel + 1) (BitVec.ofNat 64 p) e820 m = ([], .ok e820) := by
  unfold setupLoop
  rw [if_neg (fun hlt => Nat.not_lt.mpr h ((lt_mmapLength_iff hp).mp hlt))]
  rfl

/-- What a turn does after it has looked at the entry. -/
def setupRest (mbi : MultibootInfo) (fuel : Nat) (p : BitVec 64) (mmap : Addr) (e820 : E820Map)
    (entry : E820Entry) : Setup E820Map := do
  let e820 ← addMemoryRegion e820 entry.addr entry.size entry.type
  let size ← readField mmap .size
  setupLoop mbi fuel (p + (size.setWidth 64 + 4#64)) e820

theorem setupLoop_reads (h : p < mbi.mmapLength.toNat) :
    setupLoop mbi (fuel + 1) (BitVec.ofNat 64 p) e820 m =
      (.visit (mbi.mmap p) :: entryReads (mbi.mmap p) ++
        (setupRest mbi fuel (BitVec.ofNat 64 p) (mbi.mmap p) e820
          (entryAt m (mbi.mmap p)) m).1,
        (setupRest mbi fuel (BitVec.ofNat 64 p) (mbi.mmap p) e820
          (entryAt m (mbi.mmap p)) m).2) := by
  have hlt := mbi.mmapLength.isLt
  conv_lhs => unfold setupLoop
  rw [if_pos ((lt_mmapLength_iff (by omega)).mpr h)]
  rfl

theorem ofNat_next :
    BitVec.ofNat 64 p +
        ((loadField m (mbi.mmap p) .size).setWidth 64 + 4#64) =
      BitVec.ofNat 64 ((mbi.strides m).next p) := by
  change _ = BitVec.ofNat 64 (p + ((loadField m (mbi.mmap p) .size).toNat + 4))
  rw [BitVec.ofNat_add, BitVec.ofNat_add, BitVec.ofNat_toNat]

/-- A turn with room for the entry goes on at the next one. -/
theorem setupLoop_turn (fuel : Nat) (h : p < mbi.mmapLength.toNat)
    (hroom : e820.map.length < e820MaxEntries) :
    ∃ e' : E820Map, e'.map = e820.map ++ [entryAt m (mbi.mmap p)] ∧
      setupLoop mbi (fuel + 1) (BitVec.ofNat 64 p) e820 m =
        (.visit (mbi.mmap p) :: entryReads (mbi.mmap p) ++
            .store e820.map.length :: .read (mbi.mmap p) .size ::
              (setupLoop mbi fuel (BitVec.ofNat 64 ((mbi.strides m).next p)) e' m).1,
          (setupLoop mbi fuel (BitVec.ofNat 64 ((mbi.strides m).next p)) e' m).2) := by
  obtain ⟨e', hmap, hadd⟩ := addMemoryRegion_room (m := m) (entryAt m (mbi.mmap p)) hroom
  refine ⟨e', hmap, ?_⟩
  have hadds : (addMemoryRegion e820 (entryAt m (mbi.mmap p)).addr (entryAt m (mbi.mmap p)).size
      (entryAt m (mbi.mmap p)).type).Returns m e' := congrArg Prod.snd hadd
  rw [setupLoop_reads h, ← ofNat_next, setupRest, Probe.run_bind hadds, hadd]
  rfl

/-- A turn without room stops. -/
theorem setupLoop_full (h : p < mbi.mmapLength.toNat) (hfull : e820MaxEntries ≤ e820.map.length) :
    setupLoop mbi (fuel + 1) (BitVec.ofNat 64 p) e820 m =
      (.visit (mbi.mmap p) :: entryReads (mbi.mmap p),
        fatalFailure "Too many entries in the memory map.\n") := by
  have hrest : setupRest mbi fuel (BitVec.ofNat 64 p) (mbi.mmap p) e820 (entryAt m (mbi.mmap p)) m =
      ([], fatalFailure "Too many entries in the memory map.\n") :=
    Probe.run_bind_fails (addMemoryRegion_full hfull)
  rw [setupLoop_reads h, hrest, List.append_nil]

end

/-! ## Records -/

/-- A record of the map, with its padding. -/
structure MapRecord where
  size : BitVec 32
  entry : E820Entry
  padding : List Byte
  size_eq : size.toNat = 20 + padding.length

namespace MapRecord

/-- The size of a record without padding. -/
theorem size_plain : (20#32).toNat = 20 + ([] : List Byte).length := rfl

/-- The words of the record, in the order of `struct memory_map`. -/
def words (r : MapRecord) : List (BitVec 32) :=
  [r.size, lowWord r.entry.addr, highWord r.entry.addr, lowWord r.entry.size,
    highWord r.entry.size, r.entry.type]

def bytes (r : MapRecord) : List Byte := r.words.flatMap (Mem.wordBytes 4) ++ r.padding

end MapRecord

/-- The records back to back. -/
def encode (rs : List MapRecord) : List Byte := rs.flatMap MapRecord.bytes

/-- The boot loader's map: the records stand at `mmap_addr`, and `mmap_length` is their length. -/
structure MapAt (mbi : MultibootInfo) (rs : List MapRecord) (m : Mem) : Prop where
  length : mbi.mmapLength.toNat = (encode rs).length
  holds : m.Holds (mbi.mmap 0) (encode rs)

/-- Reads only the words of the map, and stores only into the array. -/
def MapEvent.Inside (mbi : MultibootInfo) : MapEvent → Prop
  | .visit _ => True
  | .read mmap f => ∃ k, f.addr mmap = mbi.mmap k ∧ k + 4 ≤ mbi.mmapLength.toNat
  | .store i => i < e820MaxEntries

/-- The words of the records, at the offsets where the cursor looks for them. -/
def RecordsFrom (mbi : MultibootInfo) (m : Mem) : (o : Nat) → List MapRecord → Prop
  | _, [] => True
  | o, r :: rs =>
    loadField m (mbi.mmap o) .size = r.size ∧ entryAt m (mbi.mmap o) = r.entry ∧
      RecordsFrom mbi m (o + (r.size.toNat + 4)) rs

section
variable {m : Mem} {mbi : MultibootInfo} {r : MapRecord} {rs : List MapRecord} {o : Nat}

theorem MapRecord.length_bytes : r.bytes.length = r.size.toNat + 4 := by
  rw [r.size_eq]
  simp only [MapRecord.bytes, MapRecord.words, List.flatMap_cons, List.flatMap_nil,
    List.length_append, Mem.length_wordBytes, List.length_nil]
  omega

theorem encode_cons : encode (r :: rs) = r.bytes ++ encode rs := List.flatMap_cons

theorem length_encode_cons :
    (encode (r :: rs)).length = r.size.toNat + 4 + (encode rs).length := by
  rw [encode_cons, List.length_append, MapRecord.length_bytes]

theorem mmap_add (o k : Nat) : mbi.mmap o + BitVec.ofNat 64 k = mbi.mmap (o + k) := by
  change mbi.mmapAddr.setWidth 64 + BitVec.ofNat 64 o + BitVec.ofNat 64 k = _
  rw [BitVec.add_assoc, ← BitVec.ofNat_add]
  rfl

@[simp] theorem joinWords_split (x : BitVec 64) : joinWords (highWord x) (lowWord x) = x := by
  apply BitVec.eq_of_getLsbD_eq
  intro i hi
  simp only [joinWords, highWord, lowWord, BitVec.getLsbD_or, BitVec.getLsbD_shiftLeft,
    BitVec.getLsbD_setWidth, BitVec.getLsbD_ushiftRight]
  by_cases hlow : i < 32
  · simp [hlow, hi]
  · have hsum : 32 + (i - 32) = i := by omega
    have hsub : i - 32 < 32 := by omega
    have hwide : i - 32 < 64 := by omega
    simp [hlow, hi, hsum, hsub, hwide]

/-- The words of a record that stands at `mmap`. -/
theorem MapRecord.load_words {mmap : Addr} (h : m.Holds mmap r.bytes) (i : Nat)
    (hi : i < r.words.length) : m.load32 (mmap + BitVec.ofNat 64 (4 * i)) = r.words[i] :=
  Mem.load_of_holds_words (Mem.holds_append.mp h).1 i hi

theorem MapRecord.entryAt_eq {mmap : Addr} (h : m.Holds mmap r.bytes) :
    loadField m mmap .size = r.size ∧ entryAt m mmap = r.entry := by
  have hwords := r.load_words h
  have hbase : entryStart m mmap = r.entry.addr := by
    unfold entryStart loadField
    rw [show m.load32 (MmapField.addr .baseAddrHigh mmap) = highWord r.entry.addr from
        hwords 2 (show 2 < 6 by decide),
      show m.load32 (MmapField.addr .baseAddrLow mmap) = lowWord r.entry.addr from
        hwords 1 (show 1 < 6 by decide), joinWords_split]
  have hlength : entrySize m mmap = r.entry.size := by
    unfold entrySize loadField
    rw [show m.load32 (MmapField.addr .lengthHigh mmap) = highWord r.entry.size from
        hwords 4 (show 4 < 6 by decide),
      show m.load32 (MmapField.addr .lengthLow mmap) = lowWord r.entry.size from
        hwords 3 (show 3 < 6 by decide), joinWords_split]
  have htype : loadField m mmap .type = r.entry.type := hwords 5 (show 5 < 6 by decide)
  refine ⟨hwords 0 (show 0 < 6 by decide), ?_⟩
  unfold entryAt
  rw [hbase, hlength, htype]

/-- Records that stand in memory back to back are where the cursor looks for them. -/
theorem recordsFrom_of_holds (rs : List MapRecord) :
    ∀ {o : Nat}, m.Holds (mbi.mmap o) (encode rs) → RecordsFrom mbi m o rs := by
  induction rs with
  | nil => exact fun _ => trivial
  | cons r rs ih =>
    intro o h
    rw [encode_cons] at h
    obtain ⟨hr, hrs⟩ := Mem.holds_append.mp h
    rw [MapRecord.length_bytes, mmap_add] at hrs
    obtain ⟨hsize, hentry⟩ := r.entryAt_eq hr
    exact ⟨hsize, hentry, ih hrs⟩

/-! ## The round trip -/

theorem next_of_size (h : loadField m (mbi.mmap o) .size = r.size) :
    (mbi.strides m).next o = o + (r.size.toNat + 4) := by
  change o + ((loadField m (mbi.mmap o) .size).toNat + 4) = _
  rw [h]

theorem inside_reads (h : o + sizeofMemoryMap ≤ mbi.mmapLength.toNat) :
    ∀ ev ∈ .visit (mbi.mmap o) :: entryReads (mbi.mmap o), ev.Inside mbi := by
  have hread : ∀ f : MmapField, (MapEvent.read (mbi.mmap o) f).Inside mbi := by
    intro f
    refine ⟨o + f.offset, mmap_add o f.offset, ?_⟩
    have hoff : f.offset + 4 ≤ sizeofMemoryMap := by cases f <;> decide
    omega
  intro ev hev
  simp only [entryReads, List.mem_cons, List.not_mem_nil, or_false] at hev
  rcases hev with rfl | rfl | rfl | rfl | rfl | rfl
  · trivial
  all_goals exact hread _

/-- From the records that are left, the loop takes all of them where there is room. -/
theorem setupLoop_records (rs : List MapRecord) : ∀ {fuel o : Nat} {e820 : E820Map},
    RecordsFrom mbi m o rs → o + (encode rs).length = mbi.mmapLength.toNat → rs.length < fuel →
      (setupLoop mbi fuel (BitVec.ofNat 64 o) e820).Emits (MapEvent.Inside mbi) m ∧
        (e820.map.length + rs.length ≤ e820MaxEntries → ∃ e' : E820Map,
          (setupLoop mbi fuel (BitVec.ofNat 64 o) e820).Returns m e' ∧
            e'.map = e820.map ++ rs.map MapRecord.entry) ∧
        (e820MaxEntries < e820.map.length + rs.length →
          (setupLoop mbi fuel (BitVec.ofNat 64 o) e820 m).2 =
            fatalFailure "Too many entries in the memory map.\n") := by
  have hbound := mbi.mmapLength.isLt
  induction rs with
  | nil =>
    intro fuel o e820 _ hlen hfuel
    obtain ⟨fuel, rfl⟩ := Nat.exists_eq_succ_of_ne_zero (Nat.ne_of_gt hfuel)
    have hdone : setupLoop mbi (fuel + 1) (BitVec.ofNat 64 o) e820 m = ([], .ok e820) :=
      setupLoop_done (by omega) (Nat.le_of_eq hlen.symm)
    refine ⟨⟨fun ev hev => ?_⟩, fun _ => ⟨e820, congrArg Prod.snd hdone, ?_⟩, fun hover => ?_⟩
    · rw [hdone] at hev
      cases hev
    · rw [List.map_nil, List.append_nil]
    · exact absurd e820.nrMap_le (Nat.not_le.mpr hover)
  | cons r rs ih =>
    intro fuel o e820 hrec hlen hfuel
    obtain ⟨fuel, rfl⟩ := Nat.exists_eq_succ_of_ne_zero (Nat.ne_of_gt (Nat.zero_lt_of_lt hfuel))
    obtain ⟨hsize, hentry, hrest⟩ := hrec
    rw [length_encode_cons] at hlen
    have hsize20 := r.size_eq
    have hlt : o < mbi.mmapLength.toNat := by omega
    have hwords : o + sizeofMemoryMap ≤ mbi.mmapLength.toNat := by
      unfold sizeofMemoryMap
      omega
    by_cases hroom : e820.map.length < e820MaxEntries
    · obtain ⟨e', hmap, hturn⟩ := setupLoop_turn (m := m) fuel hlt hroom
      rw [next_of_size hsize] at hturn
      have hlen' : e'.map.length = e820.map.length + 1 := by
        rw [hmap, List.length_append, List.length_singleton]
      obtain ⟨hinside, hall, hover⟩ :=
        @ih fuel _ e' hrest (by omega) (Nat.lt_of_succ_lt_succ hfuel)
      have hlength : (r :: rs).length = rs.length + 1 := rfl
      refine ⟨⟨fun ev hev => ?_⟩, fun hle => ?_, fun hlt => ?_⟩
      · rw [hturn] at hev
        rcases List.mem_append.mp hev with hev | hev
        · exact inside_reads hwords ev hev
        rcases List.mem_cons.mp hev with rfl | hev
        · exact hroom
        rcases List.mem_cons.mp hev with rfl | hev
        · exact ⟨o, mmap_add o 0, by omega⟩
        · exact hinside.all ev hev
      · obtain ⟨e'', hreturns, hmap'⟩ := hall (by omega)
        refine ⟨e'', (congrArg Prod.snd hturn).trans hreturns, ?_⟩
        rw [hmap', hmap, hentry, List.append_assoc]
        rfl
      · rw [hturn]
        exact hover (by omega)
    · have hfull : setupLoop mbi (fuel + 1) (BitVec.ofNat 64 o) e820 m =
          (.visit (mbi.mmap o) :: entryReads (mbi.mmap o),
            fatalFailure "Too many entries in the memory map.\n") :=
        setupLoop_full hlt (Nat.le_of_not_lt hroom)
      refine ⟨⟨fun ev hev => ?_⟩, fun hle => ?_, fun _ => congrArg Prod.snd hfull⟩
      · rw [hfull] at hev
        exact inside_reads hwords ev hev
      · rw [List.length_cons] at hle
        omega

theorem length_le_length_encode (rs : List MapRecord) : rs.length ≤ (encode rs).length := by
  induction rs with
  | nil => exact Nat.le_refl _
  | cons r rs ih =>
    rw [length_encode_cons, List.length_cons]
    omega

/-- The e820 map is the list of the records, each with its base and its length, and nothing outside
the records is read; a list too long for the array stops the monitor, and nothing is stored past
the array. -/
theorem setupMemoryRegion_encode (hflags : mbi.flags &&& mbiMemmap ≠ 0#32) (h : MapAt mbi rs m) :
    (setupMemoryRegion mbi).Emits (MapEvent.Inside mbi) m ∧
      (rs.length ≤ e820MaxEntries → ∃ e820 : E820Map,
        (setupMemoryRegion mbi).Returns m e820 ∧ e820.map = rs.map MapRecord.entry) ∧
      (e820MaxEntries < rs.length →
        (setupMemoryRegion mbi m).2 = fatalFailure "Too many entries in the memory map.\n") := by
  unfold setupMemoryRegion
  rw [if_neg hflags]
  have hfuel : rs.length < mbi.mmapLength.toNat + 1 := by
    rw [h.length]
    exact Nat.lt_succ_of_le (length_le_length_encode rs)
  have hrun := @setupLoop_records m mbi rs _ 0 ⟨[], Nat.zero_le _⟩ (recordsFrom_of_holds rs h.holds)
    ((Nat.zero_add _).trans h.length.symm) hfuel
  simpa only [List.length_nil, Nat.zero_add, List.nil_append] using hrun

end

/-- The memory below 640 KB, with two bytes of padding, and a reserved region above 4 GB. -/
def twoRecords : List MapRecord :=
  [⟨22#32, ⟨0#64, 0xa0000#64, e820Ram⟩, [0#8, 0#8], rfl⟩,
    ⟨20#32, ⟨0x180000000#64, 0x1000#64, e820Reserved⟩, [], rfl⟩]

/-- The boot loader's description of a map at 0x9000. -/
def MultibootInfo.of (rs : List MapRecord) : MultibootInfo where
  flags := mbiMemmap
  mmapLength := BitVec.ofNat 32 (encode rs).length
  mmapAddr := 0x9000#32

theorem mapAt_of {rs : List MapRecord} (h : (encode rs).length < 2 ^ 32) :
    MapAt (.of rs) rs (.ofBytes (MultibootInfo.mmap (.of rs) 0) (encode rs)) :=
  ⟨Nat.mod_eq_of_lt h, Mem.holds_ofBytes _ (by omega)⟩

theorem setupMemoryRegion_encode_two :
    (setupMemoryRegion (.of twoRecords)).Emits (MapEvent.Inside (.of twoRecords))
        (.ofBytes 0x9000#64 (encode twoRecords)) ∧
      (twoRecords.length ≤ e820MaxEntries → ∃ e820 : E820Map,
        (setupMemoryRegion (.of twoRecords)).Returns (.ofBytes 0x9000#64 (encode twoRecords)) e820 ∧
          e820.map = twoRecords.map MapRecord.entry) ∧
      (e820MaxEntries < twoRecords.length →
        (setupMemoryRegion (.of twoRecords) (.ofBytes 0x9000#64 (encode twoRecords))).2 =
          fatalFailure "Too many entries in the memory map.\n") :=
  setupMemoryRegion_encode (by decide) (mapAt_of (by decide))

end Mavmm
