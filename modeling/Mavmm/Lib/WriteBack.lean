/-!
# A write-back cache of one block

A cache that holds one block of a storage, and writes it back before it loads
another one if the block was marked as dirty.  As long as a block that is not
dirty is the one in the storage (`Coherent`), the cache stands for a plain
storage, its `view`: loading leaves the view alone, and a change of the block
that marks it as dirty is a change of the view at its key.  A change that does
not mark the block is safe only if the block was dirty before, or stays as it
is (`coherent_change_iff`).
-/

/-- A block of a storage, with its key. -/
structure WriteBack (κ β : Type) where
  key : κ
  block : β
  dirty : Bool
  back : κ → β

namespace WriteBack

variable {κ β : Type}

/-- What was not changed is in the storage. -/
def Coherent (c : WriteBack κ β) : Prop := c.dirty = false → c.back c.key = c.block

/-- The block is replaced. -/
def change (c : WriteBack κ β) (b : β) : WriteBack κ β := { c with block := b }

/-- The block is replaced and marked as dirty. -/
def update (c : WriteBack κ β) (b : β) : WriteBack κ β := { c with block := b, dirty := true }

theorem Coherent.update {c : WriteBack κ β} {b : β} : (c.update b).Coherent := fun h => nomatch h

theorem coherent_change_iff {c : WriteBack κ β} (h : c.Coherent) {b : β} :
    (c.change b).Coherent ↔ c.dirty = true ∨ c.block = b := by
  unfold Coherent change
  constructor
  · intro hb
    cases hdirty : c.dirty with
    | true => exact Or.inl rfl
    | false => exact Or.inr ((h hdirty).symm.trans (hb hdirty))
  · rintro (hdirty | rfl) hclean
    · exact absurd (hdirty.symm.trans hclean) (by simp)
    · exact h hclean

variable [DecidableEq κ]

/-- A storage in which one block is replaced. -/
def set (m : κ → β) (k : κ) (b : β) : κ → β := fun k' => if k' = k then b else m k'

@[simp] theorem set_self {m : κ → β} {k : κ} {b : β} : set m k b k = b := if_pos rfl

theorem set_ne {m : κ → β} {k k' : κ} {b : β} (h : k' ≠ k) : set m k b k' = m k' := if_neg h

theorem set_eq {m : κ → β} {k : κ} {b : β} (h : m k = b) : set m k b = m := by
  funext k'
  by_cases hk : k' = k
  · rw [hk, set_self, h]
  · exact set_ne hk

theorem set_set {m : κ → β} {k : κ} {b b' : β} : set (set m k b) k b' = set m k b' := by
  funext k'
  by_cases hk : k' = k
  · rw [hk, set_self, set_self]
  · rw [set_ne hk, set_ne hk, set_ne hk]

/-- The storage that the cache stands for. -/
def view (c : WriteBack κ β) : κ → β := set c.back c.key c.block

/-- The block is written back. -/
def flush (c : WriteBack κ β) : WriteBack κ β := { c with dirty := false, back := c.view }

/-- The block with the key is loaded. -/
def fetch (c : WriteBack κ β) (k : κ) : WriteBack κ β :=
  if k = c.key then c
  else
    let c := if c.dirty then c.flush else c
    { c with key := k, block := c.back k, dirty := false }

variable {c : WriteBack κ β}

@[simp] theorem view_key : c.view c.key = c.block := set_self

@[simp] theorem fetch_key {k : κ} : (c.fetch k).key = k := by
  unfold fetch
  split
  · next h => exact h.symm
  · rfl

theorem view_eq_back (hc : c.Coherent) (h : c.dirty = false) : c.view = c.back := set_eq (hc h)

theorem Coherent.flush : c.flush.Coherent := fun _ => view_key (c := c)

theorem view_flush : c.flush.view = c.view := set_eq (view_key (c := c))

@[simp] theorem view_update {b : β} : (c.update b).view = set c.view c.key b := set_set.symm

theorem Coherent.fetch (h : c.Coherent) (k : κ) : (c.fetch k).Coherent := by
  unfold WriteBack.fetch
  split
  · exact h
  · exact fun _ => rfl

/-- Loading a block does not change what the cache stands for. -/
theorem view_fetch (h : c.Coherent) (k : κ) : (c.fetch k).view = c.view := by
  unfold fetch
  split
  · rfl
  · cases hdirty : c.dirty with
    | true => exact set_eq rfl
    | false => exact (set_eq rfl).trans (view_eq_back h hdirty).symm

/-- The block that is loaded is the one of the storage that the cache stands for. -/
theorem block_fetch (h : c.Coherent) (k : κ) : (c.fetch k).block = c.view k := by
  have hview := view_key (c := c.fetch k)
  rw [view_fetch h, fetch_key] at hview
  exact hview.symm

@[simp] theorem view_change {b : β} : (c.change b).view = set c.view c.key b := set_set.symm

end WriteBack
