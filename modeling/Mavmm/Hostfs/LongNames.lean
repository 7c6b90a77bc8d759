import Mavmm.Hostfs.ShortNames

/-!
# Chains of long entries

`tf_place_lfn_chain` splits a name into pieces of 13 characters, from the front
to find the last one, and then places an entry for each from the back.  What it
writes is a list of entries that does not depend on the file (`emitAll`); read
in ascending order their characters are the name, and zeros behind it.
-/

namespace Mavmm.Hostfs

/-! ## Characters of an entry -/

namespace FatFileEntry

def lfnChecksum (e : FatFileEntry) : BitVec 8 := Bytes.word e 1 (LfnMember.offset .checksum)

/-- The low bytes of the three arrays of characters. -/
def lowBytes (e : FatFileEntry) : List Byte :=
  ((List.range 5).map fun k => (e.lfnChar .name1 k).setWidth 8) ++
    ((List.range 6).map fun k => (e.lfnChar .name2 k).setWidth 8) ++
    (List.range 2).map fun k => (e.lfnChar .name3 k).setWidth 8

/-- Characters of one array, from the first one on. -/
def setLfnChars (e : FatFileEntry) (f : LfnMember) (n : Nat) (char : Nat → BitVec 16) :
    FatFileEntry :=
  (List.range n).foldl (fun e k => e.setLfnChar f k (char k)) e

section
variable {e : FatFileEntry} {f : LfnMember} {char : Nat → BitVec 16} {n : Nat}

theorem setLfnChars_succ :
    e.setLfnChars f (n + 1) char = (e.setLfnChars f n char).setLfnChar f n (char n) := by
  rw [setLfnChars, List.range_succ, List.foldl_append]
  rfl

theorem setLfnChars_outside {j : Nat} (hj : ¬ (f.offset ≤ j ∧ j < f.offset + 2 * n)) :
    e.setLfnChars f n char j = e j := by
  induction n with
  | zero => rfl
  | succ n ih =>
    rw [setLfnChars_succ, setLfnChar, Bytes.putWord_outside (by omega), ih (by omega)]

theorem lfnChar_setLfnChars {k : Nat} (hk : k < n) :
    (e.setLfnChars f n char).lfnChar f k = char k := by
  induction n with
  | zero => exact absurd hk (Nat.not_lt_zero k)
  | succ n ih =>
    rw [setLfnChars_succ]
    rcases Nat.lt_or_eq_of_le (Nat.le_of_lt_succ hk) with hlt | rfl
    · rw [← ih hlt]
      refine Bytes.word_congr fun j hj => ?_
      exact Bytes.putWord_outside (by omega)
    · exact Bytes.word_putWord (n := 2)

/-- The low bytes of an array that was set, and then left alone. -/
theorem lowBytes_array {e' : FatFileEntry}
    (h : ∀ j, f.offset ≤ j → j < f.offset + 2 * n → e' j = e.setLfnChars f n char j) :
    ((List.range n).map fun k => (e'.lfnChar f k).setWidth 8) =
      (List.range n).map fun k => (char k).setWidth 8 := by
  apply List.map_congr_left
  intro k hk
  rw [List.mem_range] at hk
  have hchar : e'.lfnChar f k = (e.setLfnChars f n char).lfnChar f k :=
    Bytes.word_congr fun j hj => h _ (by omega) (by omega)
  rw [hchar, lfnChar_setLfnChars hk]

end

end FatFileEntry

/-- Where the members of a long entry stand. -/
theorem LfnMember.offsets : LfnMember.offset .sequenceNumber = 0 ∧ LfnMember.offset .name1 = 2 ∧
    LfnMember.offset .attributes = 12 ∧ LfnMember.offset .reserved = 13 ∧
    LfnMember.offset .checksum = 14 ∧ LfnMember.offset .name2 = 16 ∧
    LfnMember.offset .firstCluster = 28 ∧ LfnMember.offset .name3 = 30 := by decide

theorem LfnMember.sizes : LfnMember.size .sequenceNumber = 1 ∧ LfnMember.size .attributes = 1 ∧
    LfnMember.size .reserved = 1 ∧ LfnMember.size .checksum = 1 ∧
    LfnMember.size .firstCluster = 2 := by decide

/-! ## One entry -/

/-- Character `k` of a name, with zeros behind it. -/
def Path.padded (p : Path) (len k : Nat) : Byte := if k < len then p.get k else 0#8

section
variable {p : Path} {len : Nat} {entry : FatFileEntry}

/-- The characters in front of the terminator, among the first 13. -/
theorem length_takeWhile_name (hends : p.Ends len) :
    ((List.range 13).takeWhile fun k => p.get k ≠ 0#8).length = min 13 len := by
  have hlen : ∀ n, ((List.range n).map p.get).takeWhile (· ≠ 0#8) =
      ((List.range len).map p.get).take n := by
    intro n
    apply Bytes.takeWhile_buffer
    · intro c hc
      obtain ⟨k, hk, rfl⟩ := List.mem_map.mp hc
      exact hends.2 k (List.mem_range.mp hk)
    · intro k _ hk
      rw [List.length_map, List.length_range] at hk
      rw [List.getElem?_map, List.getElem?_range hk]
      rfl
    · intro _
      rw [List.length_map, List.length_range]
      exact hends.1
  have hmap := congrArg List.length (hlen 13)
  rw [List.takeWhile_map, List.length_map, List.length_take, List.length_map,
    List.length_range] at hmap
  exact hmap

/-- The entry for a piece of a name with a number and a checksum has the first 13 characters of
the piece. -/
structure IsPiece (p : Path) (len : Nat) (seq checksum : BitVec 8) (e : FatFileEntry) : Prop where
  sequenceNumber : e.lfnSequenceNumber = seq
  checksum : e.lfnChecksum = checksum
  chars : e.lowBytes = (List.range 13).map (p.padded len)

theorem setWidth_signExtend (c : Byte) : (c.signExtend 16).setWidth 8 = c := by
  apply BitVec.eq_of_getLsbD_eq
  intro i hi
  rw [BitVec.getLsbD_setWidth, BitVec.getLsbD_signExtend]
  simp only [hi, decide_true, Bool.true_and, if_true]
  rw [decide_eq_true (by omega), Bool.true_and]

/-- The entry that is placed for a piece. -/
def pieceEntry (p : Path) (seq checksum : BitVec 8) (entry : FatFileEntry) : FatFileEntry :=
  ((tfCreateLfnEntry p entry).1.setLfn .sequenceNumber seq).setLfn .checksum checksum

/-- A member that is set leaves the bytes of the others alone. -/
theorem setLfn_outside {e : FatFileEntry} {f : LfnMember} {v : BitVec (8 * f.size)} {j : Nat}
    (h : ¬ (f.offset ≤ j ∧ j < f.offset + f.size)) : e.setLfn f v j = e j :=
  Bytes.putWord_outside h

/-- The characters of a piece, as the entry has them. -/
def Path.wideChar (p : Path) (len k : Nat) : BitVec 16 := (p.padded len k).signExtend 16

theorem tfCreateLfnEntry_eq (hends : p.Ends len) :
    (tfCreateLfnEntry p entry).1 =
      (((((entry.setLfnChars .name1 5 (p.wideChar (min 13 len))).setLfnChars
        .name2 6 fun k => p.wideChar (min 13 len) (5 + k)).setLfnChars
        .name3 2 fun k => p.wideChar (min 13 len) (11 + k)).setLfn .attributes 0x0f#8).setLfn
        .reserved 0#8).setLfn .firstCluster 0#16 := by
  have hchar : (fun k => if k < min 13 len then (p.get k).signExtend 16 else 0#16) =
      p.wideChar (min 13 len) := by
    funext k
    unfold Path.wideChar Path.padded
    split <;> rfl
  unfold tfCreateLfnEntry
  dsimp only
  rw [length_takeWhile_name hends, ← hchar]
  rfl

/-- The members that are set after the characters are not among them. -/
theorem pieceEntry_apply (hends : p.Ends len) {seq checksum : BitVec 8} {j : Nat}
    (hj : 2 ≤ j ∧ j < 12 ∨ 16 ≤ j ∧ j < 28 ∨ 30 ≤ j) : pieceEntry p seq checksum entry j =
      ((entry.setLfnChars .name1 5 (p.wideChar (min 13 len))).setLfnChars
        .name2 6 fun k => p.wideChar (min 13 len) (5 + k)).setLfnChars
        .name3 2 (fun k => p.wideChar (min 13 len) (11 + k)) j := by
  obtain ⟨hseq, -, hattributes, hreserved, hchecksum, -, hfirst, -⟩ := LfnMember.offsets
  obtain ⟨hseqSize, hattributesSize, hreservedSize, hchecksumSize, hfirstSize⟩ := LfnMember.sizes
  have hcreate : pieceEntry p seq checksum entry j = (tfCreateLfnEntry p entry).1 j :=
    (setLfn_outside (by omega)).trans (setLfn_outside (by omega))
  refine hcreate.trans ((congrFun (tfCreateLfnEntry_eq hends) j).trans ?_)
  refine (setLfn_outside (by omega)).trans ?_
  refine (setLfn_outside (by omega)).trans ?_
  exact setLfn_outside (by omega)

theorem lowBytes_char {k : Nat} (hk : k < 13) :
    (p.wideChar (min 13 len) k).setWidth 8 = p.padded len k := by
  rw [Path.wideChar, setWidth_signExtend]
  unfold Path.padded
  by_cases hlt : k < len
  · rw [if_pos (by omega), if_pos hlt]
  · rw [if_neg (by omega), if_neg hlt]

theorem isPiece_pieceEntry (hends : p.Ends len) (seq checksum : BitVec 8) :
    IsPiece p len seq checksum (pieceEntry p seq checksum entry) := by
  obtain ⟨hseq, hname1, -, -, hchecksum, hname2, -, hname3⟩ := LfnMember.offsets
  obtain ⟨-, -, -, hchecksumSize, -⟩ := LfnMember.sizes
  have hchars : (pieceEntry p seq checksum entry).lowBytes =
      ((List.range 5).map fun k => (p.wideChar (min 13 len) k).setWidth 8) ++
        ((List.range 6).map fun k => (p.wideChar (min 13 len) (5 + k)).setWidth 8) ++
        (List.range 2).map fun k => (p.wideChar (min 13 len) (11 + k)).setWidth 8 := by
    unfold FatFileEntry.lowBytes
    congr 1
    · congr 1
      · apply FatFileEntry.lowBytes_array
        intro j hlo hhi
        rw [pieceEntry_apply hends (by omega), FatFileEntry.setLfnChars_outside (by omega),
          FatFileEntry.setLfnChars_outside (by omega)]
      · apply FatFileEntry.lowBytes_array
        intro j hlo hhi
        rw [pieceEntry_apply hends (by omega), FatFileEntry.setLfnChars_outside (by omega)]
    · exact FatFileEntry.lowBytes_array fun j hlo _ => pieceEntry_apply hends (by omega)
  constructor
  · exact (Bytes.word_congr fun j hj => @setLfn_outside
      ((tfCreateLfnEntry p entry).1.setLfn .sequenceNumber seq) .checksum checksum
      (LfnMember.offset .sequenceNumber + j) (by omega)).trans (Bytes.word_putWord (n := 1))
  · exact Bytes.word_putWord (n := 1)
  · have hsplit : List.range 13 =
        List.range 5 ++ (List.range 6).map (5 + ·) ++ (List.range 2).map (11 + ·) := rfl
    rw [hchars, hsplit, List.map_append, List.map_append, List.map_map, List.map_map]
    congr 1
    · congr 1
      · exact List.map_congr_left fun k hk => lowBytes_char (by rw [List.mem_range] at hk; omega)
      · exact List.map_congr_left fun k hk => lowBytes_char (by rw [List.mem_range] at hk; omega)
    · exact List.map_congr_left fun k hk => lowBytes_char (by rw [List.mem_range] at hk; omega)

/-! ## The chain -/

/-- The entries that are written, one after the other. -/
def emitAll (fp : Handle) : (es : List FatFileEntry) → FsM Unit
  | [] => return
  | e :: es => do
    let _ ← tfFwrite fp e.toBytes
    emitAll fp es

/-- The entries for the last `n` pieces, from the last one on. -/
def lfnChain (checksum : BitVec 8) : (n : Nat) → (piece : Path) → (seq : BitVec 8) →
    FatFileEntry → List FatFileEntry
  | 0, _, _, _ => []
  | n + 1, piece, seq, entry =>
    pieceEntry piece seq checksum entry ::
      lfnChain checksum n { piece with off := piece.off - 13 } ((seq &&& ~~~0x40#8) - 1#8)
        (pieceEntry piece seq checksum entry)

theorem placeLfnEntries_eq (fp : Handle) (checksum : BitVec 8) (n : Nat) :
    ∀ (piece : Path) (seq : BitVec 8) (entry : FatFileEntry),
      placeLfnEntries fp checksum n piece seq entry =
        emitAll fp (lfnChain checksum n piece seq entry) := by
  induction n with
  | zero => exact fun _ _ _ => rfl
  | succ n ih =>
    intro piece seq entry
    rw [placeLfnEntries, lfnChain, emitAll]
    exact congrArg _ (funext fun _ => ih _ _ _)

/-- The number of pieces of a name. -/
def pieceCount (len : Nat) : Nat := (len + 12) / 13

/-- The first loop ends at the last piece. -/
theorem run_lfnPieces (hends : p.Ends len) {s : Fs} : ∀ {fuel k : Nat} {entry : FatFileEntry},
    13 * k < len → pieceCount len ≤ fuel + k →
    ∃ entry', lfnPieces fuel (p.skip (13 * k)) (k + 1) entry s =
      ([], .ok ((p.skip (13 * (pieceCount len - 1)), pieceCount len, entry'), s)) := by
  intro fuel
  induction fuel with
  | zero =>
    intro k entry hk hfuel
    unfold pieceCount at hfuel
    omega
  | succ fuel ih =>
    intro k entry hk hfuel
    have hrest := hends.skip (Nat.le_of_lt hk)
    have hlast : (tfCreateLfnEntry (p.skip (13 * k)) entry).2 =
        if 13 * (k + 1) < len then some (p.skip (13 * (k + 1))) else none := by
      unfold tfCreateLfnEntry
      dsimp only
      rw [length_takeWhile_name hrest]
      by_cases hmore : 13 * (k + 1) < len
      · have hmin : min 13 (len - 13 * k) = 13 := by omega
        rw [if_pos hmore, hmin, if_pos (hrest.2 13 (by omega))]
        rfl
      · have hmin : min 13 (len - 13 * k) = len - 13 * k := by omega
        rw [if_neg hmore, hmin, if_neg (not_not_intro hrest.1)]
    rw [lfnPieces]
    by_cases hmore : 13 * (k + 1) < len
    · rw [if_pos hmore] at hlast
      cases hcreate : tfCreateLfnEntry (p.skip (13 * k)) entry with
      | mk e rest =>
        rw [hcreate] at hlast
        cases hlast
        exact ih hmore (by omega)
    · rw [if_neg hmore] at hlast
      have hcount : pieceCount len = k + 1 := by
        unfold pieceCount
        omega
      rw [hcount]
      cases hcreate : tfCreateLfnEntry (p.skip (13 * k)) entry with
      | mk e rest =>
        rw [hcreate] at hlast
        cases hlast
        exact ⟨e, rfl⟩

/-- The numbers `n`, …, `1`. -/
def descending (n : Nat) : List (BitVec 8) :=
  (List.range n).reverse.map fun k => BitVec.ofNat 8 (k + 1)

theorem Path.padded_skip {m k : Nat} :
    (p.skip m).padded (len - m) k = p.padded len (m + k) := by
  unfold Path.padded
  rw [Path.get_skip]
  by_cases hk : m + k < len
  · rw [if_pos (by omega), if_pos hk]
  · rw [if_neg (by omega), if_neg hk]

/-- The next number of a chain: the mark of the last piece is gone. -/
theorem nextNumber {n : Nat} (hn : n < 20) {seq : BitVec 8}
    (hseq : seq &&& ~~~0x40#8 = BitVec.ofNat 8 (n + 1)) :
    (seq &&& ~~~0x40#8) - 1#8 = BitVec.ofNat 8 n ∧
      BitVec.ofNat 8 n &&& ~~~0x40#8 = BitVec.ofNat 8 n := by
  rw [hseq]
  clear hseq
  revert n
  decide

/-- A chain from piece `n - 1` down to the first one: its characters are the first `13 * n` of the
name and the zeros behind it. -/
theorem lfnChain_spec (hends : p.Ends len) {checksum : BitVec 8} (n : Nat) :
    ∀ {piece : Path} {seq : BitVec 8} {entry : FatFileEntry}, n ≤ 20 → 13 * (n - 1) ≤ len →
      (0 < n → piece = p.skip (13 * (n - 1))) → seq &&& ~~~0x40#8 = BitVec.ofNat 8 n →
      ((lfnChain checksum n piece seq entry).map FatFileEntry.lfnSequenceNumber =
        if n = 0 then [] else seq :: descending (n - 1)) ∧
      (∀ e ∈ lfnChain checksum n piece seq entry, e.lfnChecksum = checksum) ∧
      (lfnChain checksum n piece seq entry).reverse.flatMap FatFileEntry.lowBytes =
        (List.range (13 * n)).map (p.padded len) := by
  induction n with
  | zero => exact fun _ _ _ _ => ⟨rfl, nofun, rfl⟩
  | succ n ih =>
    intro piece seq entry hn hle hpiece hseq
    obtain rfl := hpiece (Nat.succ_pos n)
    rw [Nat.add_sub_cancel] at hle ⊢
    obtain ⟨hnext, hnumber⟩ := nextNumber (by omega) hseq
    have hpart := @isPiece_pieceEntry _ _ entry (hends.skip hle) seq checksum
    have hback : 0 < n → { p.skip (13 * n) with off := (p.skip (13 * n)).off - 13 } =
        p.skip (13 * (n - 1)) := by
      intro hpos
      have hoff : p.off + 13 * n - 13 = p.off + 13 * (n - 1) := by omega
      exact congrArg (Path.mk p.bytes) hoff
    obtain ⟨hnumbers, hchecksums, hchars⟩ := @ih
      { p.skip (13 * n) with off := (p.skip (13 * n)).off - 13 } ((seq &&& ~~~0x40#8) - 1#8)
      (pieceEntry (p.skip (13 * n)) seq checksum entry) (by omega) (by omega) hback
      (by rw [hnext, hnumber])
    rw [lfnChain]
    refine ⟨?_, ?_, ?_⟩
    · rw [List.map_cons, hpart.sequenceNumber, hnumbers, hnext, if_neg (Nat.succ_ne_zero n)]
      cases n with
      | zero => rfl
      | succ n =>
        rw [if_neg (Nat.succ_ne_zero n), Nat.add_sub_cancel, descending, descending,
          List.range_succ, List.reverse_append, List.reverse_singleton, List.map_append]
        rfl
    · rintro e (_ | ⟨_, he⟩)
      · exact hpart.checksum
      · exact hchecksums e he
    · rw [List.reverse_cons, List.flatMap_append, hchars, List.flatMap_singleton, hpart.chars,
        Nat.mul_succ, List.range_add, List.map_append, List.map_map]
      congr 1
      exact List.map_congr_left fun k _ => Path.padded_skip

/-- The characters of a chain up to the first zero. -/
theorem takeWhile_padded (hends : p.Ends len) {n : Nat} (hn : len ≤ n) :
    ((List.range n).map (p.padded len)).takeWhile (fun c => c ≠ 0#8) =
      (List.range len).map p.get := by
  have htake : ((List.range len).map p.get).take n = (List.range len).map p.get :=
    List.take_of_length_le (by rw [List.length_map, List.length_range]; exact hn)
  rw [← htake]
  apply Bytes.takeWhile_buffer
  · intro c hc
    obtain ⟨k, hk, rfl⟩ := List.mem_map.mp hc
    exact hends.2 k (List.mem_range.mp hk)
  · intro k _ hk
    rw [List.length_map, List.length_range] at hk
    rw [List.getElem?_map, List.getElem?_range hk, Path.padded, if_pos hk]
    rfl
  · intro _
    rw [List.length_map, List.length_range]
    exact if_neg (Nat.lt_irrefl len)

/-- The mark of the last piece, and its number without the mark. -/
theorem lastNumber {n : Nat} (hn : n ≤ 20) :
    BitVec.ofNat 8 (n ||| 0x40) &&& ~~~0x40#8 = BitVec.ofNat 8 n := by
  have hall : ∀ m < 21, BitVec.ofNat 8 (m ||| 0x40) &&& ~~~0x40#8 = BitVec.ofNat 8 m := by decide
  exact hall n (Nat.lt_succ_of_le hn)

/-- A buffer for a short name is filled for every name, and nothing else changes. -/
theorem exists_run_tfShortenFilename (hends : p.Ends len) (hlen : len < maxString) {s : Fs}
    (dest : Nat → Byte) : ∃ es r, tfShortenFilename dest p s = (es, .ok (r, s)) := by
  by_cases hclear : NoSpaces dest p len
  · obtain ⟨es, r, hrun, -⟩ := run_tfShortenFilename_clear (s := s) hends hlen hclear
    exact ⟨es, r, hrun⟩
  · obtain ⟨es, r, -, hrun, -⟩ := run_tfShortenFilename_stalled (s := s) hends hlen hclear
    exact ⟨es, r, hrun⟩

end

/-- The local variables of `tf_place_lfn_chain` are set up. -/
def Fs.pastLocals (s : Fs) : Fs := { s with locals := fun n => s.locals (n + 2) }

theorem run_newLocals {α : Type} {f : (Nat → Byte) → (Nat → Byte) → FsM α} {s : Fs} :
    (newLocal >>= fun a => newLocal >>= f a) s = f (s.locals 0) (s.locals 1) s.pastLocals := rfl

/-- The entries of a chain for a name: their number, their numbers, one checksum, and the name. -/
structure IsChain (name : Path) (len : Nat) (es : List FatFileEntry) : Prop where
  length : es.length = (len + 12) / 13
  numbers : es.map FatFileEntry.lfnSequenceNumber =
    BitVec.ofNat 8 ((len + 12) / 13 ||| 0x40) :: descending ((len + 12) / 13 - 1)
  checksum : ∃ c, ∀ e ∈ es, e.lfnChecksum = c
  name : (es.reverse.flatMap FatFileEntry.lowBytes).takeWhile (fun c => c ≠ 0#8) =
    (List.range len).map name.get

/-- Whatever the file and whatever the local variables hold, what a name of 1 to 255 bytes writes
is the entries of a chain, and the chain is the name. -/
theorem tfPlaceLfnChain_entries {name : Path} {len fuel : Nat} (hends : name.Ends len)
    (hpos : 1 ≤ len) (hlen : len ≤ 255) (hfuel : (len + 12) / 13 ≤ fuel) (fp : Handle) (s : Fs) :
    ∃ es log, IsChain name len es ∧
      tfPlaceLfnChain fuel fp name s =
        (log ++ ((emitAll fp es >>= fun _ => pure 0#32) s.pastLocals).1,
          ((emitAll fp es >>= fun _ => pure 0#32) s.pastLocals).2) := by
  have hcount : pieceCount len = (len + 12) / 13 := rfl
  obtain ⟨log, sfn, hsfn⟩ := @exists_run_tfShortenFilename _ _ hends
    (Nat.lt_of_le_of_lt hlen (by decide)) s.pastLocals (s.locals 1)
  obtain ⟨entry, hpieces⟩ : ∃ entry, lfnPieces fuel name 1 (s.locals 0) s.pastLocals =
      ([], .ok ((name.skip (13 * (pieceCount len - 1)), pieceCount len, entry), s.pastLocals)) :=
    @run_lfnPieces _ _ hends _ fuel 0 _ hpos hfuel
  have hchain := @lfnChain_spec _ _ hends (tfLfnChecksum sfn) (pieceCount len)
    (name.skip (13 * (pieceCount len - 1))) (BitVec.ofNat 8 (pieceCount len ||| 0x40)) entry
    (by omega) (by omega) (fun _ => rfl) (lastNumber (by omega))
  obtain ⟨hnumbers, hchecksum, hchars⟩ := hchain
  rw [if_neg (by omega)] at hnumbers
  refine ⟨_, log, ⟨?_, hnumbers, ⟨_, hchecksum⟩, ?_⟩, ?_⟩
  · have hlength := congrArg List.length hnumbers
    rw [List.length_map, List.length_cons, descending, List.length_map, List.length_reverse,
      List.length_range] at hlength
    omega
  · rw [hchars, takeWhile_padded hends (by omega)]
  · unfold tfPlaceLfnChain
    rw [run_newLocals, Exec.run_bind_log hsfn, Exec.run_bind hpieces]
    dsimp only
    rw [placeLfnEntries_eq]

/-- The name `unpacked_code.bin`. -/
def longPath : Path where
  bytes := fun k => [0x75#8, 0x6e#8, 0x70#8, 0x61#8, 0x63#8, 0x6b#8, 0x65#8, 0x64#8, 0x5f#8, 0x63#8,
    0x6f#8, 0x64#8, 0x65#8, 0x2e#8, 0x62#8, 0x69#8, 0x6e#8].getD k 0#8
  off := 0

/-- Its chain is two entries. -/
theorem tfPlaceLfnChain_entries_two : ∃ es log, IsChain longPath 17 es ∧ es.length = 2 ∧
    tfPlaceLfnChain 2 firstHandle longPath Fs.blank =
      (log ++ ((emitAll firstHandle es >>= fun _ => pure 0#32) Fs.blank.pastLocals).1,
        ((emitAll firstHandle es >>= fun _ => pure 0#32) Fs.blank.pastLocals).2) := by
  obtain ⟨es, log, hchain, hrun⟩ := @tfPlaceLfnChain_entries longPath 17 2 (by decide) (by decide)
    (by decide) (by decide) firstHandle Fs.blank
  exact ⟨es, log, hchain, hchain.length, hrun⟩

end Mavmm.Hostfs
