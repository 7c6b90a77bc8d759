/-!
# Lazily grown table trees

A radix tree of tables with a fixed number of entries each.  Tables live in
frames of type `F` and hold words of type `W`.  `node l k` is the frame of the
table at level `l` that serves the keys `k * fanout ^ (l + 1)` and up, once it
exists, and `leaf x` is the word stored for key `x`.  `Rep` ties both to the
entries in memory.  Writing a leaf entry (`Rep.setLeaf`) and linking a fresh
table (`Rep.grow`) are the two steps of an insertion.
-/

namespace TableTree

/-- The shape of a tree: `empty` is the absent entry, `link f` points to the table in `f`. -/
structure Format (F W : Type) where
  fanout : Nat
  empty : W
  link : F → W

variable {F W : Type}

/-- The entry that points to the table `o`, when there is one. -/
def Format.entry (fmt : Format F W) : Option F → W
  | none => fmt.empty
  | some f => fmt.link f

/-- `e f j` is entry `j` of the table in frame `f`. -/
abbrev Entries (F W : Type) := F → Nat → W

/-- The entries `e` hold the tree of tables `node`, with root level `top`, and the words `leaf`. -/
structure Rep (fmt : Format F W) (top : Nat) (e : Entries F W) (node : Nat → Nat → Option F)
    (leaf : Nat → W) : Prop where
  upper : ∀ {l k f j}, node (l + 1) k = some f → j < fmt.fanout →
    e f j = fmt.entry (node l (k * fmt.fanout + j))
  leaves : ∀ {k f j}, node 0 k = some f → j < fmt.fanout → e f j = leaf (k * fmt.fanout + j)
  closed : ∀ {l k}, l < top → node (l + 1) (k / fmt.fanout) = none → node l k = none
  bare : ∀ {x}, node 0 (x / fmt.fanout) = none → leaf x = fmt.empty
  inj : ∀ {l k l' k' f}, node l k = some f → node l' k' = some f → l = l' ∧ k = k'

/-- `node` with the table in `g` at level `l` and key `k`. -/
def setNode (node : Nat → Nat → Option F) (l k : Nat) (g : F) : Nat → Nat → Option F :=
  fun l' k' => if l' = l ∧ k' = k then some g else node l' k'

/-- `leaf` with the word `w` at key `x`. -/
def setLeaf (leaf : Nat → W) (x : Nat) (w : W) : Nat → W := fun y => if y = x then w else leaf y

theorem setNode_self (node : Nat → Nat → Option F) (l k : Nat) (g : F) :
    setNode node l k g l k = some g := if_pos ⟨rfl, rfl⟩

theorem setNode_of_some {node : Nat → Nat → Option F} {l k l' k' : Nat} {f g : F}
    (h : node l' k' = some f) (hnone : node l k = none) : setNode node l k g l' k' = some f := by
  unfold setNode
  rw [if_neg ?_, h]
  rintro ⟨rfl, rfl⟩
  rw [h] at hnone
  cases hnone

theorem key_div {n k j : Nat} (hj : j < n) : (k * n + j) / n = k := by
  have hn : 0 < n := Nat.lt_of_le_of_lt (Nat.zero_le j) hj
  rw [Nat.mul_comm, Nat.mul_add_div hn, Nat.div_eq_of_lt hj, Nat.add_zero]

/-- The key under which entry `j` of table `k` is filed determines both. -/
theorem key_inj {n k j k' j' : Nat} (hj : j < n) (hj' : j' < n)
    (h : k * n + j = k' * n + j') : k = k' ∧ j = j' := by
  have hk : k = k' := by
    have := @key_div n k j hj
    rw [h, key_div hj'] at this
    exact this.symm
  subst hk
  exact ⟨rfl, Nat.add_left_cancel h⟩

namespace Rep

variable {fmt : Format F W} {top : Nat} {e e' : Entries F W} {node : Nat → Nat → Option F}
  {leaf : Nat → W}

/-- A single empty root. -/
theorem root {f : F} (hempty : ∀ j, j < fmt.fanout → e f j = fmt.empty) :
    Rep fmt top e (setNode (fun _ _ => none) top 0 f) (fun _ => fmt.empty) where
  upper {l k f' j} h hj := by
    unfold setNode at h ⊢
    split at h
    · next heq =>
      cases h
      rw [if_neg (by omega), hempty j hj]
      rfl
    · cases h
  leaves {k f' j} h hj := by
    unfold setNode at h
    split at h
    · cases h
      exact hempty j hj
    · cases h
  closed {l k} hl _ := by
    unfold setNode
    rw [if_neg (by omega)]
  bare _ := rfl
  inj {l k l' k' f'} h h' := by
    unfold setNode at h h'
    split at h
    · next h₁ =>
      split at h'
      · next h₂ => exact ⟨h₁.1.trans h₂.1.symm, h₁.2.trans h₂.2.symm⟩
      · cases h'
    · cases h

variable (h : Rep fmt top e node leaf)
include h

/-- Overwriting one leaf entry. -/
theorem setLeaf {k j : Nat} {f : F} {w : W} (hnode : node 0 k = some f) (hj : j < fmt.fanout)
    (hself : e' f j = w)
    (hother : ∀ {l' k' f' j'}, node l' k' = some f' → j' < fmt.fanout → ¬ (f' = f ∧ j' = j) →
      e' f' j' = e f' j') :
    Rep fmt top e' node (setLeaf leaf (k * fmt.fanout + j) w) where
  upper {l k' f' j'} hn hj' := by
    rw [hother hn hj', h.upper hn hj']
    rintro ⟨rfl, -⟩
    exact absurd (h.inj hn hnode).1 (Nat.succ_ne_zero l)
  leaves {k' f' j'} hn hj' := by
    unfold TableTree.setLeaf
    by_cases heq : f' = f ∧ j' = j
    · obtain ⟨rfl, rfl⟩ := heq
      rw [(h.inj hn hnode).2, if_pos rfl, hself]
    · rw [hother hn hj' heq, h.leaves hn hj', if_neg ?_]
      intro hkey
      obtain ⟨rfl, rfl⟩ := key_inj hj' hj hkey
      rw [hnode] at hn
      cases hn
      exact heq ⟨rfl, rfl⟩
  closed := h.closed
  bare {x} hx := by
    unfold TableTree.setLeaf
    rw [if_neg ?_, h.bare hx]
    rintro rfl
    rw [key_div hj, hnode] at hx
    cases hx
  inj := h.inj

/-- Linking a fresh empty table below entry `j` of an existing one. -/
theorem grow {l k j : Nat} {f g : F} (hl : l < top) (hnode : node (l + 1) k = some f)
    (hj : j < fmt.fanout) (habsent : node l (k * fmt.fanout + j) = none)
    (hfresh : ∀ l' k', node l' k' ≠ some g)
    (hempty : ∀ i, i < fmt.fanout → e' g i = fmt.empty) (hlink : e' f j = fmt.link g)
    (hother : ∀ {l' k' f' j'}, node l' k' = some f' → j' < fmt.fanout → ¬ (f' = f ∧ j' = j) →
      e' f' j' = e f' j') :
    Rep fmt top e' (setNode node l (k * fmt.fanout + j) g) leaf where
  upper {l' k' f' j'} hn hj' := by
    by_cases hnew : l' + 1 = l ∧ k' = k * fmt.fanout + j
    · -- the new table itself: none of its children exist
      obtain ⟨rfl, rfl⟩ := hnew
      rw [setNode_self] at hn
      cases hn
      have hchild : node l' ((k * fmt.fanout + j) * fmt.fanout + j') = none :=
        h.closed (by omega) (by rw [key_div hj']; exact habsent)
      unfold setNode
      rw [if_neg (by omega), hchild, hempty j' hj']
      rfl
    · have hold : node (l' + 1) k' = some f' := by
        rw [setNode, if_neg hnew] at hn
        exact hn
      by_cases hslot : f' = f ∧ j' = j
      · obtain ⟨rfl, rfl⟩ := hslot
        obtain ⟨hl', rfl⟩ := h.inj hold hnode
        obtain rfl : l' = l := by omega
        rw [setNode_self, hlink]
        rfl
      · rw [hother hold hj' hslot, h.upper hold hj', setNode, if_neg ?_]
        rintro ⟨rfl, hkey⟩
        obtain ⟨rfl, rfl⟩ := key_inj hj' hj hkey
        rw [hnode] at hold
        cases hold
        exact hslot ⟨rfl, rfl⟩
  leaves {k' f' j'} hn hj' := by
    by_cases hnew : 0 = l ∧ k' = k * fmt.fanout + j
    · obtain ⟨rfl, rfl⟩ := hnew
      rw [setNode_self] at hn
      cases hn
      rw [hempty j' hj', h.bare (by rw [key_div hj']; exact habsent)]
    · have hold : node 0 k' = some f' := by
        rw [setNode, if_neg hnew] at hn
        exact hn
      rw [hother hold hj' ?_, h.leaves hold hj']
      rintro ⟨rfl, rfl⟩
      exact absurd (h.inj hold hnode).1 (Nat.succ_ne_zero l).symm
  closed {l' k'} hl' hnone := by
    unfold setNode at hnone ⊢
    split at hnone
    · cases hnone
    · have hold := h.closed hl' hnone
      rw [if_neg ?_, hold]
      rintro ⟨rfl, rfl⟩
      rw [key_div hj, hnode] at hnone
      cases hnone
  bare {x} hx := by
    unfold setNode at hx
    split at hx
    · cases hx
    · exact h.bare hx
  inj {l₁ k₁ l₂ k₂ f'} h₁ h₂ := by
    unfold setNode at h₁ h₂
    split at h₁
    · next heq₁ =>
      split at h₂
      · next heq₂ => exact ⟨heq₁.1.trans heq₂.1.symm, heq₁.2.trans heq₂.2.symm⟩
      · cases h₁
        exact absurd h₂ (hfresh _ _)
    · split at h₂
      · cases h₂
        exact absurd h₁ (hfresh _ _)
      · exact h.inj h₁ h₂

end Rep

end TableTree
