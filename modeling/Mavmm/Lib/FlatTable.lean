/-!
# Tables searched from the front

A table is an array with a counter: entries are added at the end, looked up by
key from the front, and removed by shifting what follows down one place.  The
removal goes on after a hit, with the next index, so that it passes over the
entry that has just moved into the place (`remove_eq_scan`).  It takes out the
entries of the key, all of them and no others, unless two of them are next to
each other (`scan_eq_filter_iff`).

`SlotTable` is the same in place: the loops over the array and its counter leave
the list of the entries that the removal on lists gives (`entries_remove`).
-/

namespace FlatTable

variable {α κ : Type} [DecidableEq κ] (key : α → κ)

/-- The first entry with the key. -/
def find (k : κ) (table : List α) : Option α := table.find? fun x => key x = k

/-- The body of the removal at index `i`, which does nothing past the end. -/
def removeAt (k : κ) (table : List α) (i : Nat) : List α :=
  match table[i]? with
  | some x => if key x = k then table.eraseIdx i else table
  | none => table

/-- Removal, an index after the other. -/
def remove (k : κ) (table : List α) : List α :=
  (List.range table.length).foldl (removeAt key k) table

variable {key} {k : κ} {table : List α}

theorem removeAt_of_absent (h : ∀ x ∈ table, key x ≠ k) (i : Nat) :
    removeAt key k table i = table := by
  unfold removeAt
  split
  · next x hx => exact if_neg (h x (List.mem_of_getElem? hx))
  · rfl

theorem foldl_removeAt_of_absent (h : ∀ x ∈ table, key x ≠ k) (is : List Nat) :
    is.foldl (removeAt key k) table = table := by
  induction is with
  | nil => rfl
  | cons i is ih => rw [List.foldl_cons, removeAt_of_absent h, ih]

theorem removeAt_past {i : Nat} (h : table.length ≤ i) : removeAt key k table i = table := by
  unfold removeAt
  rw [List.getElem?_eq_none h]

theorem foldl_removeAt_past (n : Nat) :
    ∀ {i : Nat}, table.length ≤ i → (List.range' i n).foldl (removeAt key k) table = table := by
  induction n with
  | zero => exact fun _ => rfl
  | succ n ih =>
    intro i h
    rw [List.range'_succ, List.foldl_cons, removeAt_past h]
    exact ih (Nat.le_succ_of_le h)

theorem removeAt_length {x : α} {pre post : List α} :
    removeAt key k (pre ++ x :: post) pre.length =
      if key x = k then pre ++ post else pre ++ [x] ++ post := by
  have hget : (pre ++ x :: post)[pre.length]? = some x := by
    rw [List.getElem?_append_right (Nat.le_refl _), Nat.sub_self]
    rfl
  unfold removeAt
  rw [hget]
  dsimp only
  split
  · rw [List.eraseIdx_append_of_length_le (Nat.le_refl _), Nat.sub_self]
    rfl
  · rw [List.append_assoc]
    rfl

/-! ## What a removal leaves -/

/-- A removal entry by entry: behind an entry that is taken out, the next one is passed over. -/
def scan (key : α → κ) (k : κ) : List α → List α
  | [] => []
  | [x] => if key x = k then [] else [x]
  | x :: y :: rest => if key x = k then y :: scan key k rest else x :: scan key k (y :: rest)

/-- Removal from the place behind `pre`. -/
theorem foldl_removeAt_append (post : List α) :
    ∀ {pre : List α} {n : Nat}, post.length ≤ n →
      (List.range' pre.length n).foldl (removeAt key k) (pre ++ post) =
        pre ++ scan key k post := by
  induction post using scan.induct key k with
  | case1 =>
    intro pre n _
    rw [List.append_nil]
    exact (foldl_removeAt_past n (Nat.le_refl _)).trans (List.append_nil _).symm
  | case2 x hk =>
    intro pre n hlen
    obtain ⟨n, rfl⟩ : ∃ n', n = n' + 1 := ⟨n - 1, by rw [List.length_singleton] at hlen; omega⟩
    rw [List.range'_succ, List.foldl_cons, removeAt_length, if_pos hk, scan, if_pos hk]
    exact foldl_removeAt_past n (by simp)
  | case3 x hk =>
    intro pre n hlen
    obtain ⟨n, rfl⟩ : ∃ n', n = n' + 1 := ⟨n - 1, by rw [List.length_singleton] at hlen; omega⟩
    rw [List.range'_succ, List.foldl_cons, removeAt_length, if_neg hk, scan, if_neg hk,
      List.append_nil]
    exact foldl_removeAt_past n (by simp)
  | case4 x y rest hk ih =>
    intro pre n hlen
    obtain ⟨n, rfl⟩ : ∃ n', n = n' + 1 := ⟨n - 1, by simp only [List.length_cons] at hlen; omega⟩
    -- the next index is the one behind the entry that has moved up
    have hih := @ih (pre ++ [y]) n (by simp only [List.length_cons] at hlen; omega)
    rw [List.length_append, List.length_singleton, List.append_assoc, List.append_assoc] at hih
    rw [List.range'_succ, List.foldl_cons, removeAt_length, if_pos hk, scan, if_pos hk]
    exact hih
  | case5 x y rest hk ih =>
    intro pre n hlen
    obtain ⟨n, rfl⟩ : ∃ n', n = n' + 1 := ⟨n - 1, by simp only [List.length_cons] at hlen; omega⟩
    have hih := @ih (pre ++ [x]) n (Nat.le_of_succ_le_succ hlen)
    rw [List.length_append, List.length_singleton] at hih
    rw [List.range'_succ, List.foldl_cons, removeAt_length, if_neg hk, hih, List.append_assoc, scan,
      if_neg hk]
    rfl

theorem remove_eq_scan : remove key k table = scan key k table := by
  have hall := @foldl_removeAt_append _ _ _ key k table [] _ (Nat.le_refl _)
  rwa [List.length_nil, List.nil_append, ← List.range_eq_range'] at hall

theorem removeAt_sublist (i : Nat) : (removeAt key k table i).Sublist table := by
  unfold removeAt
  split
  · split
    · exact List.eraseIdx_sublist table i
    · exact List.Sublist.refl table
  · exact List.Sublist.refl table

theorem foldl_removeAt_sublist (is : List Nat) :
    ∀ {table : List α}, (is.foldl (removeAt key k) table).Sublist table := by
  induction is with
  | nil => exact List.Sublist.refl _
  | cons i is ih => exact ih.trans (removeAt_sublist i)

/-- A removal adds nothing and changes no order. -/
theorem remove_sublist : (remove key k table).Sublist table := foldl_removeAt_sublist _

theorem remove_of_absent (h : ∀ x ∈ table, key x ≠ k) : remove key k table = table :=
  foldl_removeAt_of_absent h _

/-- Two entries with the key, one right behind the other. -/
def Doubled (key : α → κ) (k : κ) : List α → Prop
  | x :: y :: rest => key x = k ∧ key y = k ∨ Doubled key k (y :: rest)
  | _ => False

omit [DecidableEq κ] in
theorem doubled_cons_of_ne {x : α} (hx : key x ≠ k) :
    Doubled key k (x :: table) ↔ Doubled key k table := by
  cases table with
  | nil => exact Iff.rfl
  | cons y rest => exact ⟨fun h => h.resolve_left fun hk => hx hk.1, Or.inr⟩

omit [DecidableEq κ] in
theorem doubled_iff : Doubled key k table ↔
    ∃ i x y, table[i]? = some x ∧ table[i + 1]? = some y ∧ key x = k ∧ key y = k := by
  induction table with
  | nil => exact iff_of_false id fun ⟨i, x, y, hx, _⟩ => nomatch hx
  | cons x table ih =>
    cases table with
    | nil => exact iff_of_false id fun ⟨i, x, y, _, hy, _⟩ => by simp at hy
    | cons y rest =>
      constructor
      · rintro (hk | h)
        · exact ⟨0, x, y, rfl, rfl, hk⟩
        · obtain ⟨i, hi⟩ := ih.mp h
          exact ⟨i + 1, hi⟩
      · rintro ⟨i, x', y', hx, hy, hk⟩
        cases i with
        | zero =>
          cases hx
          cases hy
          exact .inl hk
        | succ i => exact .inr (ih.mpr ⟨i, x', y', hx, hy, hk⟩)

/-- A removal is a filter unless there are two entries with the key in a row. -/
theorem scan_eq_filter_iff :
    scan key k table = table.filter (fun x => key x ≠ k) ↔ ¬ Doubled key k table := by
  induction table using scan.induct key k with
  | case1 => exact iff_of_true rfl nofun
  | case2 x hk => exact iff_of_true (by simp [scan, hk]) nofun
  | case3 x hk => exact iff_of_true (by simp [scan, hk]) nofun
  | case4 x y rest hk ih =>
    rw [scan, if_pos hk, List.filter_cons_of_neg (by simp [hk])]
    by_cases hy : key y = k
    · refine iff_of_false (fun h => ?_) fun h => h (.inl ⟨hk, hy⟩)
      have hmem : y ∈ (y :: rest).filter (fun x => key x ≠ k) := h ▸ List.mem_cons_self
      exact absurd hy (of_decide_eq_true (List.mem_filter.mp hmem).2)
    · have hdoubled : Doubled key k (x :: y :: rest) ↔ Doubled key k rest :=
        ⟨fun h => (doubled_cons_of_ne hy).mp (h.resolve_left fun hc => hy hc.2),
          fun h => .inr ((doubled_cons_of_ne hy).mpr h)⟩
      rw [List.filter_cons_of_pos (by simp [hy]), List.cons_inj_right, hdoubled]
      exact ih
  | case5 x y rest hk ih =>
    rw [scan, if_neg hk, List.filter_cons_of_pos (by simp [hk]), List.cons_inj_right,
      doubled_cons_of_ne hk]
    exact ih

omit [DecidableEq κ] in
theorem not_doubled_of_pairwise (h : table.Pairwise fun x y => key x ≠ key y) :
    ¬ Doubled key k table := by
  induction table with
  | nil => exact nofun
  | cons x table ih =>
    obtain ⟨hx, htable⟩ := List.pairwise_cons.mp h
    cases table with
    | nil => exact nofun
    | cons y rest =>
      rintro (⟨hkx, hky⟩ | hrest)
      · exact hx y List.mem_cons_self (hkx.trans hky.symm)
      · exact ih htable hrest

/-- With one entry a key at most, a removal takes out the entry of the key and no other. -/
theorem remove_eq_filter (h : table.Pairwise fun x y => key x ≠ key y) :
    remove key k table = table.filter fun x => key x ≠ k := by
  rw [remove_eq_scan]
  exact scan_eq_filter_iff.mpr (not_doubled_of_pairwise h)

/-- An entry whose key no other entry has is the one a lookup finds. -/
theorem find_eq_some {x : α} (hx : x ∈ table)
    (h : table.Pairwise fun x y => key x ≠ key y) : find key (key x) table = some x := by
  induction table with
  | nil => cases hx
  | cons y table ih =>
    obtain ⟨hy, htable⟩ := List.pairwise_cons.mp h
    unfold find
    rcases List.mem_cons.mp hx with rfl | hx
    · exact List.find?_cons_of_pos (decide_eq_true rfl)
    · rw [List.find?_cons_of_neg (by simpa using hy x hx)]
      exact ih hx htable

theorem find_cons_of_eq {x : α} (h : key x = k) : find key k (x :: table) = some x :=
  List.find?_cons_of_pos (decide_eq_true h)

theorem find_append {post : List α} :
    find key k (table ++ post) = (find key k table).or (find key k post) := List.find?_append

theorem find_eq_none : find key k table = none ↔ ∀ x ∈ table, key x ≠ k := by
  unfold find
  rw [List.find?_eq_none]
  constructor
  · intro h x hx hk
    exact h x hx (decide_eq_true hk)
  · intro h x hx hk
    exact h x hx (of_decide_eq_true hk)

theorem mem_of_find {x : α} (h : find key k table = some x) : x ∈ table ∧ key x = k := by
  have hkey : decide (key x = k) = true := @List.find?_some _ (fun x => decide (key x = k)) _ _ h
  exact ⟨List.mem_of_find?_eq_some h, of_decide_eq_true hkey⟩

end FlatTable

/-! ## In place -/

/-- The array and the counter: the slots from the counter on are not in use. -/
structure SlotTable (α : Type) where
  slots : Nat → α
  count : Nat

namespace SlotTable

variable {α κ : Type} [DecidableEq κ] {key : α → κ} {k : κ} {t : SlotTable α} {i n : Nat}

def entries (t : SlotTable α) : List α := (List.range t.count).map t.slots

/-- A slot takes over what the next one has. -/
def pull (slots : Nat → α) (j : Nat) : Nat → α := fun n => if n = j then slots (j + 1) else slots n

/-- The counter goes down, and each slot from `i` on takes over the next one. -/
def shiftFrom (t : SlotTable α) (i : Nat) : SlotTable α where
  slots := (List.range' i (t.count - 1 - i)).foldl pull t.slots
  count := t.count - 1

/-- The loop of a removal, from slot `i` on: its bound goes down with each hit. -/
def removeFrom (key : α → κ) (k : κ) (t : SlotTable α) (i : Nat) : SlotTable α :=
  if i < t.count then
    if key (t.slots i) = k then removeFrom key k (t.shiftFrom i) (i + 1)
    else removeFrom key k t (i + 1)
  else t
termination_by t.count - i
decreasing_by
  · simp only [shiftFrom]
    omega
  · omega

@[simp] theorem length_entries : t.entries.length = t.count := by
  rw [entries, List.length_map, List.length_range]

theorem getElem?_entries : t.entries[i]? = if i < t.count then some (t.slots i) else none := by
  unfold entries
  rw [List.getElem?_map]
  split
  · next h => rw [List.getElem?_range h]; rfl
  · next h => rw [List.getElem?_eq_none (by rw [List.length_range]; omega)]; rfl

theorem foldl_pull (m : Nat) :
    ∀ {slots : Nat → α} {i : Nat}, (List.range' i m).foldl pull slots n =
      if i ≤ n ∧ n < i + m then slots (n + 1) else slots n := by
  induction m with
  | zero => exact fun {_ _} => (if_neg (by omega)).symm
  | succ m ih =>
    intro slots i
    rw [List.range'_succ, List.foldl_cons, ih]
    unfold pull
    by_cases hn : n = i
    · rw [if_neg (by omega), if_pos hn, if_pos (by omega), hn]
    · by_cases hin : i ≤ n ∧ n < i + (m + 1)
      · rw [if_pos (by omega), if_neg (by omega), if_pos hin]
      · rw [if_neg (by omega), if_neg hn, if_neg hin]

theorem entries_shiftFrom (hi : i < t.count) :
    (t.shiftFrom i).entries = t.entries.eraseIdx i := by
  apply List.ext_getElem?
  intro n
  rw [getElem?_entries, List.getElem?_eraseIdx, getElem?_entries, getElem?_entries]
  unfold shiftFrom
  dsimp only
  rw [foldl_pull]
  by_cases hn : n < i
  · rw [if_pos (by omega), if_neg (by omega), if_pos hn, if_pos (by omega)]
  · rw [if_neg hn]
    by_cases hin : n < t.count - 1
    · rw [if_pos hin, if_pos (by omega), if_pos (by omega)]
    · rw [if_neg hin, if_neg (by omega)]

theorem removeAt_entries (hi : i < t.count) :
    FlatTable.removeAt key k t.entries i =
      if key (t.slots i) = k then (t.shiftFrom i).entries else t.entries := by
  unfold FlatTable.removeAt
  rw [getElem?_entries, if_pos hi, entries_shiftFrom hi]

/-- In place, the removal is the one on the list of the entries. -/
theorem entries_removeFrom : ∀ {n : Nat}, t.count - i ≤ n →
    (removeFrom key k t i).entries =
      (List.range' i n).foldl (FlatTable.removeAt key k) t.entries := by
  induction t, i using removeFrom.induct key k with
  | case1 t i hi hk ih =>
    intro n hn
    obtain ⟨n, rfl⟩ : ∃ n', n = n' + 1 := ⟨n - 1, by omega⟩
    have hcount : (t.shiftFrom i).count = t.count - 1 := rfl
    rw [removeFrom, if_pos hi, if_pos hk, List.range'_succ, List.foldl_cons, removeAt_entries hi,
      if_pos hk]
    exact ih (by omega)
  | case2 t i hi hk ih =>
    intro n hn
    obtain ⟨n, rfl⟩ : ∃ n', n = n' + 1 := ⟨n - 1, by omega⟩
    rw [removeFrom, if_pos hi, if_neg hk, List.range'_succ, List.foldl_cons, removeAt_entries hi,
      if_neg hk]
    exact ih (by omega)
  | case3 t i hi =>
    intro n _
    rw [removeFrom, if_neg hi]
    exact (FlatTable.foldl_removeAt_past n (by rw [length_entries]; omega)).symm

/-- The removal from the first slot on. -/
def remove (key : α → κ) (k : κ) (t : SlotTable α) : SlotTable α := removeFrom key k t 0

theorem entries_remove : (remove key k t).entries = FlatTable.remove key k t.entries := by
  unfold remove FlatTable.remove
  rw [List.range_eq_range', length_entries]
  exact entries_removeFrom (Nat.le_refl _)

/-- `t'` has the entries of `t` without the key, in their order, and a lookup finds none. -/
structure Filtered (key : α → κ) (k : κ) (t t' : SlotTable α) : Prop where
  entries : t'.entries = t.entries.filter fun x => key x ≠ k
  count : t'.count = (t.entries.filter fun x => key x ≠ k).length
  find : FlatTable.find key k t'.entries = none

omit [DecidableEq κ] in
theorem doubled_entries_iff : FlatTable.Doubled key k t.entries ↔
    ∃ i, i + 1 < t.count ∧ key (t.slots i) = k ∧ key (t.slots (i + 1)) = k := by
  rw [FlatTable.doubled_iff]
  refine exists_congr fun i => ?_
  rw [getElem?_entries, getElem?_entries]
  by_cases hi : i + 1 < t.count
  · rw [if_pos (by omega), if_pos hi]
    simp [hi]
  · rw [if_neg hi]
    simp [hi]

/-- A removal is exact unless two entries in a row have the key. -/
theorem filtered_remove_iff : Filtered key k t (remove key k t) ↔
    ∀ i, i + 1 < t.count → ¬ (key (t.slots i) = k ∧ key (t.slots (i + 1)) = k) := by
  have hentries : (remove key k t).entries = t.entries.filter (fun x => key x ≠ k) ↔
      ¬ FlatTable.Doubled key k t.entries := by
    rw [entries_remove, FlatTable.remove_eq_scan]
    exact FlatTable.scan_eq_filter_iff
  constructor
  · intro h i hi hk
    exact hentries.mp h.entries (doubled_entries_iff.mpr ⟨i, hi, hk⟩)
  · intro h
    have hfilter := hentries.mpr fun hd => by
      obtain ⟨i, hi, hk⟩ := doubled_entries_iff.mp hd
      exact h i hi hk
    refine ⟨hfilter, ?_, ?_⟩
    · rw [← hfilter, length_entries]
    · rw [FlatTable.find_eq_none, hfilter]
      intro x hx
      exact of_decide_eq_true (List.mem_filter.mp hx).2

end SlotTable
