import Mathlib.Data.Nat.Find
import Mavmm.Hostfs.DirectoryFormat
import Mavmm.Hostfs.FatEntries

/-!
# Short names

`tf_shorten_filename` looks at the buffer that it is about to fill: where a
character of the stem would replace a space it stalls, and the name comes out
short.  Over any other buffer it leaves the short name of the file, unless the
extension has more than three characters: the fourth one takes the place of the
terminator.
-/

namespace Mavmm.Hostfs

/-! ## The short name of a file -/

/-- The number of characters in front of the first dot. -/
def Path.stemLength (p : Path) (len : Nat) : Nat :=
  ((List.range len).find? fun k => p.get k = dot).getD len

/-- Where the last dot is. -/
def Path.lastDot (p : Path) (len : Nat) : Option Nat :=
  (List.range len).reverse.find? fun k => p.get k = dot

/-- The characters behind the last dot. -/
def Path.extension (p : Path) (len : Nat) : List Byte :=
  match p.lastDot len with
  | none => []
  | some k => (List.range (len - (k + 1))).map fun j => p.get (k + 1 + j)

/-- The first eight bytes of the short name: a stem of six characters or more is cut off, and
marked, and a shorter one is filled up. -/
def Path.stemField (p : Path) (len : Nat) : List Byte :=
  let stem := (List.range (min 6 (p.stemLength len))).map fun k => upper (p.get k)
  if 6 ≤ p.stemLength len then stem ++ [0x7e#8, 0x31#8]
  else stem ++ List.replicate (8 - p.stemLength len) space

/-- The last three bytes of the short name. -/
def Path.extensionField (p : Path) (len : Nat) : List Byte :=
  ((p.extension len).map upper ++ List.replicate 3 space).take 3

/-- The short name, in eight and three bytes. -/
def Path.shortName (p : Path) (len : Nat) : List Byte := p.stemField len ++ p.extensionField len

/-- The function leaves the short name, with a terminator, and nothing else of the buffer has
changed. -/
def Shortens (s : Fs) (dest : Nat → Byte) (src : Path) (len : Nat) : Prop :=
  ∃ r s', (tfShortenFilename dest src).Returns s r s' ∧
    (∀ k < 11, some (r k) = (src.shortName len)[k]?) ∧ r 11 = 0#8 ∧ ∀ k, 12 ≤ k → r k = dest k

/-- No character of the stem replaces a space. -/
def NoSpaces (dest : Nat → Byte) (src : Path) (len : Nat) : Prop :=
  ∀ k < min 6 (src.stemLength len), dest k ≠ space

instance (dest : Nat → Byte) (src : Path) (len : Nat) : Decidable (NoSpaces dest src len) :=
  inferInstanceAs (Decidable (∀ k < min 6 (src.stemLength len), dest k ≠ space))

theorem upper_eq_zero {c : Byte} (h : upper c = 0#8) : c = 0#8 := by
  have htable : ∀ c : Byte, upper c = 0#8 → c = 0#8 := by decide
  exact htable c h

section
variable {p : Path} {len : Nat}

theorem Path.stemLength_spec (p : Path) (len : Nat) :
    p.stemLength len ≤ len ∧ (∀ k < p.stemLength len, p.get k ≠ dot) ∧
      (p.stemLength len < len → p.get (p.stemLength len) = dot) := by
  unfold Path.stemLength
  cases hfind : (List.range len).find? fun k => p.get k = dot with
  | none =>
    refine ⟨Nat.le_refl _, ?_, fun hlt => absurd hlt (Nat.lt_irrefl _)⟩
    intro k hk
    simpa using List.find?_eq_none.mp hfind k (List.mem_range.mpr hk)
  | some m =>
    obtain ⟨hdot, hmem, hbefore⟩ := List.find?_range_eq_some.mp hfind
    refine ⟨Nat.le_of_lt (List.mem_range.mp hmem), ?_, fun _ => by simpa using hdot⟩
    intro k hk
    simpa using hbefore k hk

theorem Path.length_stemField : (p.stemField len).length = 8 := by
  unfold Path.stemField
  dsimp only
  split <;> simp only [List.length_append, List.length_map, List.length_range,
    List.length_replicate, List.length_cons, List.length_nil] <;> omega

theorem Path.Ends.shortName_ne_zero (h : p.Ends len) : ∀ c ∈ p.shortName len, c ≠ 0#8 := by
  have hupper : ∀ k < len, upper (p.get k) ≠ 0#8 := fun k hk hzero => h.2 k hk (upper_eq_zero hzero)
  have hstem : ∀ c ∈ (List.range (min 6 (p.stemLength len))).map fun k => upper (p.get k),
      c ≠ 0#8 := by
    intro c hc
    obtain ⟨k, hk, rfl⟩ := List.mem_map.mp hc
    have hle := (p.stemLength_spec len).1
    rw [List.mem_range] at hk
    exact hupper k (by omega)
  have hext : ∀ c ∈ (p.extension len).map upper, c ≠ 0#8 := by
    unfold Path.extension
    split
    · exact fun c hc => absurd hc List.not_mem_nil
    · intro c hc
      obtain ⟨_, hmem, rfl⟩ := List.mem_map.mp hc
      obtain ⟨j, hj, rfl⟩ := List.mem_map.mp hmem
      rw [List.mem_range] at hj
      exact hupper _ (by omega)
  intro c hc
  rcases List.mem_append.mp hc with hc | hc
  · unfold Path.stemField at hc
    dsimp only at hc
    split at hc
    · rcases List.mem_append.mp hc with hc | hc
      · exact hstem c hc
      · simp only [List.mem_cons, List.not_mem_nil, or_false] at hc
        rcases hc with rfl | rfl <;> decide
    · rcases List.mem_append.mp hc with hc | hc
      · exact hstem c hc
      · rw [List.eq_of_mem_replicate hc]
        decide
  · rcases List.mem_append.mp (List.mem_of_mem_take hc) with hc | hc
    · exact hext c hc
    · rw [List.eq_of_mem_replicate hc]
      decide

end

/-! ## Filling the buffer -/

section
variable {dest : Nat → Byte} {src : Nat → Byte}

theorem putAll_outside (cs : List Byte) : ∀ {dest : Nat → Byte} {d k : Nat},
    ¬ (d ≤ k ∧ k < d + cs.length) → putAll dest d cs k = dest k := by
  induction cs with
  | nil => exact fun _ => rfl
  | cons c cs ih =>
    intro dest d k hk
    rw [List.length_cons] at hk
    rw [putAll, ih (by omega), Bytes.put_ne (by omega)]

theorem putAll_inside (cs : List Byte) : ∀ {dest : Nat → Byte} {d k : Nat},
    k < cs.length → some (putAll dest d cs (d + k)) = cs[k]? := by
  induction cs with
  | nil => exact fun h => absurd h (Nat.not_lt_zero _)
  | cons c cs ih =>
    intro dest d k hk
    rw [putAll]
    cases k with
    | zero =>
      rw [putAll_outside cs (by omega)]
      exact congrArg some Bytes.put_self
    | succ k =>
      rw [List.getElem?_cons_succ, ← ih (Nat.lt_of_succ_lt_succ hk), Nat.add_right_comm d 1 k]
      rfl

theorem putAll_append (cs cs' : List Byte) : ∀ (dest : Nat → Byte) (d : Nat),
    putAll dest d (cs ++ cs') = putAll (putAll dest d cs) (d + cs.length) cs' := by
  induction cs with
  | nil => exact fun _ _ => rfl
  | cons c cs ih =>
    intro dest d
    rw [List.cons_append, putAll, ih, putAll, List.length_cons, Nat.add_right_comm]
    rfl

/-- Characters are copied as long as there is no space in their place. -/
theorem shortenStem_copied (m : Nat) : ∀ {n d s : Nat} {dest : Nat → Byte},
    (∀ k < m, src (s + k) ≠ dot ∧ src (s + k) ≠ 0#8 ∧ dest (d + k) ≠ space) →
    shortenStem src (m + n) dest d s =
      shortenStem src n (putAll dest d ((List.range m).map fun k => upper (src (s + k))))
        (d + m) (s + m) := by
  induction m with
  | zero =>
    intro n d s dest _
    rw [Nat.zero_add]
    rfl
  | succ m ih =>
    intro n d s dest h
    obtain ⟨hdot, hzero, hspace⟩ := h 0 (Nat.succ_pos m)
    rw [Nat.add_zero] at hdot hzero hspace
    rw [Nat.add_right_comm, shortenStem, if_neg (not_or.mpr ⟨hdot, hzero⟩), if_neg hspace, ih]
    · rw [List.range_succ_eq_map, List.map_cons, List.map_map, putAll]
      have hchars : (fun k => upper (src (s + k))) ∘ Nat.succ = fun k => upper (src (s + 1 + k)) := by
        funext k
        rw [Function.comp, Nat.succ_eq_add_one, Nat.add_right_comm, Nat.add_assoc]
      rw [hchars, Nat.add_assoc, Nat.add_comm 1 m, Nat.add_assoc, Nat.add_comm 1 m]
      rfl
    · intro k hk
      obtain ⟨hdot, hzero, hspace⟩ := h (k + 1) (Nat.succ_lt_succ hk)
      rw [Nat.add_right_comm, Nat.add_assoc]
      refine ⟨hdot, hzero, ?_⟩
      rw [Nat.add_right_comm, Nat.add_assoc, Bytes.put_ne (by omega)]
      exact hspace

/-- At a space the rest of the rounds are used up. -/
theorem shortenStem_stalled {d s : Nat} (hdot : src s ≠ dot) (hzero : src s ≠ 0#8)
    (hspace : dest d = space) (n : Nat) : shortenStem src n dest d s = (dest, d, s, 0) := by
  induction n with
  | zero => rfl
  | succ n ih => rw [shortenStem, if_neg (not_or.mpr ⟨hdot, hzero⟩), if_pos hspace, ih]

end

/-! ## The last dot -/

/-- The last index of a range is found in the part behind an index where nothing is found. -/
theorem find?_reverse_range {P : Nat → Bool} {m len : Nat} (hle : m ≤ len)
    (hbefore : ∀ k < m, P k = false) :
    (List.range len).reverse.find? P =
      ((List.range (len - m)).reverse.find? fun k => P (m + k)).map (m + ·) := by
  obtain ⟨n, rfl⟩ := Nat.exists_eq_add_of_le hle
  have hnone : (List.range m).reverse.find? P = none := by
    rw [List.find?_eq_none]
    intro k hk
    rw [List.mem_reverse, List.mem_range] at hk
    rw [hbefore k hk]
    exact Bool.false_ne_true
  rw [List.range_add, List.reverse_append, List.find?_append, hnone, Option.or_none,
    ← List.map_reverse, List.find?_map, Nat.add_sub_cancel_left]
  rfl

section
variable {p : Path} {len : Nat} {s : Fs}

theorem run_strlen (hends : p.Ends len) : ∀ {fuel k : Nat}, k ≤ len → len < k + fuel →
    ∃ es, strlen p fuel k s = (es, .ok (len, s)) := by
  intro fuel
  induction fuel with
  | zero => exact fun hle hlt => absurd hlt (by omega)
  | succ fuel ih =>
    intro k hle hlt
    have hchar : p.charAt k s = ([.char (p.off + k)], .ok (p.get k, s)) := rfl
    unfold strlen
    rw [Exec.run_bind_log hchar]
    by_cases hzero : p.get k = 0#8
    · obtain rfl : k = len := Nat.le_antisymm hle
        (Nat.le_of_not_lt fun h => hends.2 k h hzero)
      rw [if_pos hzero]
      exact ⟨_, rfl⟩
    · have hne : k ≠ len := fun heq => hzero (heq ▸ hends.1)
      obtain ⟨es, hrest⟩ := ih (k := k + 1) (by omega) (by omega)
      rw [if_neg hzero, hrest]
      exact ⟨_, rfl⟩

theorem Path.Ends.skip (hends : p.Ends len) {m : Nat} (hle : m ≤ len) :
    (p.skip m).Ends (len - m) := by
  constructor
  · rw [Path.get_skip, Nat.add_sub_cancel' hle]
    exact hends.1
  · intro k hk
    rw [Path.get_skip]
    exact hends.2 _ (by omega)

/-- The search for the last dot begins behind the stem. -/
theorem run_strrchr_dot (hends : p.Ends len) (hlen : len < maxString) {m : Nat}
    (hm : m ≤ p.stemLength len) : ∃ es r, strrchr (p.skip m) dot s = (es, .ok (r, s)) ∧
      p.lastDot len = r.map (m + ·) := by
  obtain ⟨hle, hbefore, -⟩ := p.stemLength_spec len
  obtain ⟨es, hrun⟩ := run_strlen (s := s) (hends.skip (Nat.le_trans hm hle))
    (Nat.zero_le _) (by omega : len - m < 0 + maxString)
  refine ⟨es ++ [], (List.range (len - m)).reverse.find? fun k => (p.skip m).get k = dot, ?_, ?_⟩
  · unfold strrchr
    rw [Exec.run_bind_log hrun]
    rfl
  · simp only [Path.get_skip]
    refine find?_reverse_range (Nat.le_trans hm hle) fun k hk => ?_
    exact decide_eq_false (hbefore k (by omega))

/-- The part of the extension that is copied. -/
theorem extension_take (hends : p.Ends len) {k : Nat} (hdot : p.lastDot len = some k) :
    ((List.range 4).map fun j => p.get (k + 1 + j)).takeWhile (· ≠ 0#8) =
      (p.extension len).take 4 := by
  have hk : k < len := by
    have hmem := List.mem_of_find?_eq_some hdot
    rwa [List.mem_reverse, List.mem_range] at hmem
  unfold Path.extension
  rw [hdot]
  dsimp only
  apply Bytes.takeWhile_buffer
  · intro c hc
    obtain ⟨j, hj, rfl⟩ := List.mem_map.mp hc
    rw [List.mem_range] at hj
    exact hends.2 _ (by omega)
  · intro j _ hj
    rw [List.length_map, List.length_range] at hj
    rw [List.getElem?_map, List.getElem?_range hj]
    rfl
  · intro _
    rw [List.length_map, List.length_range, Nat.add_sub_cancel' (by omega)]
    exact hends.1

end

/-! ## The function -/

section
variable {src : Path} {len : Nat} {dest dest' : Nat → Byte} {s : Fs}

/-- What is filled in behind the characters of the stem. -/
def stemTail (left : Nat) : List Byte :=
  if left = 0 then [0x7e#8, 0x31#8] else List.replicate (2 + left) space

/-- The rest of the name is put in behind the stem. -/
theorem run_tfShortenFilename (hends : src.Ends len) (hlen : len < maxString) {d m left : Nat}
    (hstem : shortenStem src.get 6 dest 0 0 = (dest', d, m, left)) (hm : m ≤ src.stemLength len) :
    ∃ es, tfShortenFilename dest src s = (es, .ok (putAll (putAll dest' d
      (stemTail left ++ [space, space, space, 0#8])) (d + (stemTail left).length)
        (((src.extension len).take 4).map upper), s)) := by
  obtain ⟨es, r, hrun, hdot⟩ := run_strrchr_dot (s := s) hends hlen hm
  unfold tfShortenFilename
  rw [hstem]
  dsimp only
  rw [Exec.run_bind_log hrun]
  cases r with
  | none =>
    have hnone : src.extension len = [] := by
      unfold Path.extension
      rw [hdot]
      rfl
    rw [hnone, List.take_nil, List.map_nil, putAll_append]
    exact ⟨_, rfl⟩
  | some k =>
    rw [← extension_take hends hdot, putAll_append]
    exact ⟨_, rfl⟩

/-- The number of characters of the extension that are copied. -/
theorem length_copied : (((src.extension len).take 4).map upper).length =
    min 4 (src.extension len).length := by
  rw [List.length_map, List.length_take]

theorem ne_zero_of_mem_extension (hends : src.Ends len) : ∀ c ∈ src.extension len, c ≠ 0#8 := by
  unfold Path.extension
  split
  · exact fun c hc => absurd hc List.not_mem_nil
  · intro c hc
    obtain ⟨j, hj, rfl⟩ := List.mem_map.mp hc
    rw [List.mem_range] at hj
    exact hends.2 _ (by omega)

/-- The stem is copied, and the name is filled up to eight characters. -/
theorem shortenStem_clear (hends : src.Ends len) (hclear : NoSpaces dest src len) :
    ∃ m, m ≤ src.stemLength len ∧ m + (stemTail (6 - m)).length = 8 ∧
      src.stemField len = ((List.range m).map fun k => upper (src.get k)) ++ stemTail (6 - m) ∧
      shortenStem src.get 6 dest 0 0 =
        (putAll dest 0 ((List.range m).map fun k => upper (src.get k)), m, m, 6 - m) := by
  obtain ⟨hle, hbefore, hdot⟩ := src.stemLength_spec len
  have hcopied : ∀ {m}, m ≤ min 6 (src.stemLength len) → shortenStem src.get 6 dest 0 0 =
      shortenStem src.get (6 - m) (putAll dest 0 ((List.range m).map fun k => upper (src.get k)))
        m m := by
    intro m hm
    have hsum : 6 = m + (6 - m) := by omega
    have hcopy := @shortenStem_copied src.get m (6 - m) 0 0 dest fun k hk => by
      simp only [Nat.zero_add]
      exact ⟨hbefore k (by omega), hends.2 k (by omega), hclear k (by omega)⟩
    simp only [Nat.zero_add] at hcopy
    rw [← hcopy, ← hsum]
  by_cases hlong : 6 ≤ src.stemLength len
  · refine ⟨6, hlong, rfl, ?_, hcopied (m := 6) (by omega)⟩
    unfold Path.stemField
    rw [Nat.min_eq_left hlong, if_pos hlong]
    rfl
  · have hmin : min 6 (src.stemLength len) = src.stemLength len := by omega
    refine ⟨src.stemLength len, Nat.le_refl _, ?_, ?_, ?_⟩
    · rw [stemTail, if_neg (by omega), List.length_replicate]
      omega
    · have hpad : 8 - src.stemLength len = 2 + (6 - src.stemLength len) := by omega
      unfold Path.stemField
      rw [hmin, if_neg hlong, stemTail, if_neg (by omega), hpad]
    · obtain ⟨n, hn⟩ : ∃ n, 6 - src.stemLength len = n + 1 := ⟨5 - src.stemLength len, by omega⟩
      have hend : src.get (src.stemLength len) = dot ∨ src.get (src.stemLength len) = 0#8 := by
        rcases Nat.lt_or_eq_of_le hle with hlt | heq
        · exact Or.inl (hdot hlt)
        · exact Or.inr (heq.symm ▸ hends.1)
      rw [hcopied (m := src.stemLength len) (by omega), hn, shortenStem, if_pos hend]

/-- Over a buffer without spaces in the way the short name comes first, and behind it the fourth
character of the extension or the terminator. -/
theorem run_tfShortenFilename_clear (hends : src.Ends len) (hlen : len < maxString)
    (hclear : NoSpaces dest src len) : ∃ es r, tfShortenFilename dest src s = (es, .ok (r, s)) ∧
      (∀ k < 11, some (r k) = (src.shortName len)[k]?) ∧
      (r 11 = 0#8 ↔ (src.extension len).length ≤ 3) ∧ ∀ k, 12 ≤ k → r k = dest k := by
  obtain ⟨m, hm, htail, hfield, hstem⟩ := shortenStem_clear hends hclear
  obtain ⟨es, hrun⟩ := run_tfShortenFilename (s := s) hends hlen hstem hm
  have hput := putAll_append ((List.range m).map fun k => upper (src.get k))
    (stemTail (6 - m) ++ [space, space, space, 0#8]) dest 0
  rw [List.length_map, List.length_range, Nat.zero_add, ← List.append_assoc, ← hfield] at hput
  rw [htail, ← hput] at hrun
  have hlength := @Path.length_stemField src len
  refine ⟨es, _, hrun, ?_, ?_, ?_⟩
  · intro k hk
    by_cases hstemk : k < 8
    · have hin := @putAll_inside (src.stemField len ++ [space, space, space, 0#8]) dest 0 k
        (by rw [List.length_append]; omega)
      rw [Nat.zero_add, List.getElem?_append_left (by omega)] at hin
      rw [putAll_outside _ (by omega), hin, Path.shortName, List.getElem?_append_left (by omega)]
    · obtain ⟨j, rfl⟩ := Nat.exists_eq_add_of_le (Nat.le_of_not_lt hstemk)
      rw [Path.shortName, List.getElem?_append_right (by omega), hlength, Nat.add_sub_cancel_left,
        Path.extensionField, List.getElem?_take_of_lt (by omega)]
      by_cases hj : j < (src.extension len).length
      · rw [putAll_inside _ (by rw [length_copied]; omega),
          List.getElem?_append_left (by rw [List.length_map]; exact hj), List.map_take,
          List.getElem?_take_of_lt (by omega)]
      · have hin := @putAll_inside (src.stemField len ++ [space, space, space, 0#8]) dest 0 (8 + j)
          (by rw [List.length_append, hlength]; simp only [List.length_cons]; omega)
        rw [Nat.zero_add, List.getElem?_append_right (by omega), hlength,
          Nat.add_sub_cancel_left] at hin
        rw [putAll_outside _ (by rw [length_copied]; omega), hin,
          List.getElem?_append_right (by rw [List.length_map]; omega), List.length_map,
          List.getElem?_replicate, if_pos (by omega)]
        match j, (by omega : j < 3) with
        | 0, _ | 1, _ | 2, _ => rfl
  · by_cases hext : 3 < (src.extension len).length
    · have hin := @putAll_inside (((src.extension len).take 4).map upper)
        (putAll dest 0 (src.stemField len ++ [space, space, space, 0#8])) 8 3
        (by rw [length_copied]; omega)
      rw [List.map_take, List.getElem?_take_of_lt (by omega), List.getElem?_map,
        List.getElem?_eq_getElem hext] at hin
      rw [iff_false_right (by omega), List.map_take, Option.some.inj hin]
      exact fun hzero => ne_zero_of_mem_extension hends _ (List.getElem_mem hext)
        (upper_eq_zero hzero)
    · have hin := @putAll_inside (src.stemField len ++ [space, space, space, 0#8]) dest 0 11
        (by rw [List.length_append, hlength]; simp only [List.length_cons]; omega)
      rw [Nat.zero_add, List.getElem?_append_right (by omega), hlength] at hin
      rw [putAll_outside _ (by rw [length_copied]; omega), iff_true_right (by omega)]
      exact Option.some.inj hin
  · intro k hk
    rw [putAll_outside _ (by rw [length_copied]; omega), putAll_outside _ (by
      rw [List.length_append, hlength]
      simp only [List.length_cons, List.length_nil]
      omega)]

theorem exists_first_space (h : ¬ NoSpaces dest src len) :
    ∃ j < min 6 (src.stemLength len), dest j = space ∧ ∀ k < j, dest k ≠ space := by
  have hex : ∃ j, j < min 6 (src.stemLength len) ∧ dest j = space := by
    apply Classical.byContradiction
    exact fun hno => h fun k hk hspace => hno ⟨k, hk, hspace⟩
  refine ⟨Nat.find hex, (Nat.find_spec hex).1, (Nat.find_spec hex).2, fun k hk hspace => ?_⟩
  exact Nat.find_min hex hk ⟨Nat.lt_trans hk (Nat.find_spec hex).1, hspace⟩

/-- A space in the way: the last byte of the name is where it was, and so is the place of its
terminator. -/
theorem run_tfShortenFilename_stalled (hends : src.Ends len) (hlen : len < maxString)
    (hspace : ¬ NoSpaces dest src len) : ∃ es r j, tfShortenFilename dest src s = (es, .ok (r, s)) ∧
      j < 6 ∧ r 11 = dest 11 ∧ ((src.extension len).length ≤ 3 → r (j + 5) = 0#8) := by
  obtain ⟨j, hj, hspacej, hbefore⟩ := exists_first_space hspace
  obtain ⟨hle, hdots, -⟩ := src.stemLength_spec len
  have hchar : ∀ k ≤ j, src.get k ≠ dot ∧ src.get k ≠ 0#8 := fun k hk =>
    ⟨hdots k (by omega), hends.2 k (by omega)⟩
  have hstem : shortenStem src.get 6 dest 0 0 =
      (putAll dest 0 ((List.range j).map fun k => upper (src.get k)), j, j, 0) := by
    have hcopy := @shortenStem_copied src.get j (6 - j) 0 0 dest fun k hk => by
      simp only [Nat.zero_add]
      exact ⟨(hchar k (by omega)).1, (hchar k (by omega)).2, hbefore k hk⟩
    simp only [Nat.zero_add] at hcopy
    have hsum : j + (6 - j) = 6 := by omega
    rw [hsum] at hcopy
    rw [hcopy]
    refine shortenStem_stalled (hchar j (Nat.le_refl j)).1 (hchar j (Nat.le_refl j)).2 ?_ _
    rw [putAll_outside _ (by rw [List.length_map, List.length_range]; omega)]
    exact hspacej
  obtain ⟨es, hrun⟩ := run_tfShortenFilename (s := s) hends hlen hstem (by omega)
  have hlen6 : (stemTail 0 ++ [space, space, space, 0#8]).length = 6 := rfl
  refine ⟨es, _, j, hrun, by omega, ?_, fun hext => ?_⟩
  · rw [putAll_outside _ (by rw [length_copied]; exact fun h => absurd h.2 (by
        have htail : (stemTail 0).length = 2 := rfl
        omega)), putAll_outside _ (by rw [hlen6]; omega),
      putAll_outside _ (by rw [List.length_map, List.length_range]; omega)]
  · have hin := @putAll_inside (stemTail 0 ++ [space, space, space, 0#8])
      (putAll dest 0 ((List.range j).map fun k => upper (src.get k))) j 5 (by decide)
    rw [putAll_outside _ (by rw [length_copied]; exact fun h => absurd h.2 (by
        have htail : (stemTail 0).length = 2 := rfl
        omega))]
    exact Option.some.inj hin

theorem shortens_of_clear (hends : src.Ends len) (hlen : len < maxString)
    (hclear : NoSpaces dest src len) :
    Shortens s dest src len ↔ (src.extension len).length ≤ 3 := by
  obtain ⟨es, r, hrun, hname, hend, hrest⟩ :=
    run_tfShortenFilename_clear (s := s) hends hlen hclear
  constructor
  · rintro ⟨r', s', hreturns, -, hend', -⟩
    obtain ⟨rfl, -⟩ := (Exec.returns_of_run hrun).mp hreturns
    exact hend.mp hend'
  · exact fun hext => ⟨r, s, congrArg Prod.snd hrun, hname, hend.mpr hext, hrest⟩

/-- Over a space that is in the way, a short extension makes the name too short. -/
theorem clear_of_shortens (hends : src.Ends len) (hlen : len < maxString)
    (hext : (src.extension len).length ≤ 3) (h : Shortens s dest src len) :
    NoSpaces dest src len := by
  apply Classical.byContradiction
  intro hspace
  obtain ⟨es, r, j, hrun, hj, -, hzero⟩ := run_tfShortenFilename_stalled (s := s) hends hlen hspace
  obtain ⟨r', s', hreturns, hname, -, -⟩ := h
  obtain ⟨rfl, -⟩ := (Exec.returns_of_run hrun).mp hreturns
  have hbyte := hname (j + 5) (by omega)
  rw [hzero hext] at hbyte
  exact hends.shortName_ne_zero _ (List.mem_of_getElem? hbyte.symm) rfl

/-- A buffer of spaces stalls every stem. -/
theorem not_shortens_spaces (hends : src.Ends len) (hlen : len < maxString)
    (hstem : 0 < src.stemLength len) : ¬ Shortens s (fun _ => space) src len := by
  have hspace : ¬ NoSpaces (fun _ => space) src len := fun hclear => hclear 0 (by omega) rfl
  obtain ⟨es, r, j, hrun, -, hlast, -⟩ := run_tfShortenFilename_stalled (s := s) hends hlen hspace
  rintro ⟨r', s', hreturns, -, hend, -⟩
  obtain ⟨rfl, -⟩ := (Exec.returns_of_run hrun).mp hreturns
  rw [hend] at hlast
  exact absurd hlast (by decide)

/-- Whatever is in the buffer, the short name is left only for a name without a stem and with at
most three characters in its extension.  A buffer that has no space where a character of the stem
goes is enough otherwise; and with such an extension no other buffer is. -/
theorem tfShortenFilename_iff (hends : src.Ends len) (hlen : len < maxString) (s : Fs) :
    ((∀ dest, Shortens s dest src len) ↔
      src.stemLength len = 0 ∧ (src.extension len).length ≤ 3) ∧
    (∀ dest, NoSpaces dest src len →
      (Shortens s dest src len ↔ (src.extension len).length ≤ 3)) ∧
    ((src.extension len).length ≤ 3 →
      ∀ dest, Shortens s dest src len ↔ NoSpaces dest src len) := by
  refine ⟨⟨fun hall => ?_, ?_⟩, fun dest hclear => shortens_of_clear hends hlen hclear,
    fun hext dest => ⟨clear_of_shortens hends hlen hext,
      fun hclear => (shortens_of_clear hends hlen hclear).mpr hext⟩⟩
  · have hstem : src.stemLength len = 0 := by
      rcases Nat.eq_zero_or_pos (src.stemLength len) with hzero | hpos
      · exact hzero
      · exact absurd (hall fun _ => space) (not_shortens_spaces hends hlen hpos)
    have hclear : NoSpaces (fun _ => space) src len := fun k hk => absurd hk (by omega)
    exact ⟨hstem, (shortens_of_clear hends hlen hclear).mp (hall _)⟩
  · rintro ⟨hstem, hext⟩ dest
    exact (shortens_of_clear hends hlen fun k hk => absurd hk (by omega)).mpr hext

end

/-- The name `a.b`. -/
def shortPath : Path where
  bytes := fun k => [0x61#8, 0x2e#8, 0x62#8].getD k 0#8
  off := 0

/-- The name `a.text`. -/
def textPath : Path where
  bytes := fun k => [0x61#8, 0x2e#8, 0x74#8, 0x65#8, 0x78#8, 0x74#8].getD k 0#8
  off := 0

/-- Over a buffer of zeros `a.b` is shortened. -/
theorem tfShortenFilename_iff_short : Shortens Fs.blank (fun _ => 0#8) shortPath 3 := by
  obtain ⟨-, -, hbuffer⟩ := @tfShortenFilename_iff shortPath 3 (by decide)
    (by decide) Fs.blank
  exact (hbuffer (by decide) _).mpr (by decide)

/-- The first byte of what the function leaves. -/
def firstByte (dest : Nat → Byte) (src : Path) : FsM Byte := do
  return (← tfShortenFilename dest src) 0

/-- A space in the buffer makes `a.b` to another name than zeros do, and the fourth character of
the extension of `a.text` is where the terminator should be. -/
theorem tfShortenFilename_depends :
    ¬ Shortens Fs.blank (fun _ => space) shortPath 3 ∧
      ¬ Shortens Fs.blank (fun _ => 0#8) textPath 6 ∧
        (∃ s, (firstByte (fun _ => space) shortPath).Returns Fs.blank 0x7e#8 s) ∧
          ∃ s, (firstByte (fun _ => 0#8) shortPath).Returns Fs.blank 0x41#8 s := by
  refine ⟨fun h => ?_, fun h => ?_, by decide +kernel, by decide +kernel⟩
  · exact absurd (clear_of_shortens (by decide) (by decide) (by decide) h) (by decide)
  · exact absurd ((shortens_of_clear (by decide) (by decide) (by decide)).mp h) (by decide)

end Mavmm.Hostfs
