import Mathlib.Data.List.Lex
import Mathlib.Order.Bounds.Basic
import Mavmm.Lib.Copy
import Mavmm.Vm

/-!
# Copies and strings (string.c)

The block copies act on the memory.  The functions that read strings see one as
its characters from the pointer on; a pointer that has gone on is an index.
-/

namespace Mavmm

/-! ## Copies -/

/-- A `movsw` or `movsb` at offset `off`, when its bit of the count is set. -/
def movsWhen (c : Bool) (k off : Nat) (dst src : Addr) (m : Mem) : Mem :=
  if c then m.store k (dst + BitVec.ofNat 64 off) (m.load k (src + BitVec.ofNat 64 off)) else m

/-- `__inline_memcpy`: `rep movsl`, then `movsw` and `movsb` as the low bits of the count say. -/
def inlineMemcpy (dst src : Addr) (n : BitVec 64) (m : Mem) : Mem :=
  let done := 4 * (n / 4#64).toNat
  let m := Mem.copyUp 4 (n / 4#64).toNat dst src m
  let m := movsWhen (n.getLsbD 1) 2 done dst src m
  let done := if n.getLsbD 1 then done + 2 else done
  movsWhen (n.getLsbD 0) 1 done dst src m

def memcpy : Addr → Addr → BitVec 64 → Mem → Mem := inlineMemcpy

def memmove (dest src : Addr) (count : BitVec 64) (m : Mem) : Mem :=
  if dest < src then inlineMemcpy dest src count m
  else Mem.copyDown count.toNat (dest + count) (src + count) m

section
variable {m : Mem} {dst src : Addr} {n : BitVec 64} {off k : Nat} {c : Bool}

open Mem

/-- The parts of a count. -/
theorem count_parts : 4 * (n / 4#64).toNat + (if n.getLsbD 1 then 2 else 0) +
    (if n.getLsbD 0 then 1 else 0) = n.toNat := by
  have hdiv : (n / 4#64).toNat = n.toNat / 4 := BitVec.toNat_udiv
  have hone : n.getLsbD 1 = decide (n.toNat / 2 % 2 = 1) := by
    rw [← BitVec.testBit_toNat, Nat.testBit_eq_decide_div_mod_eq]
  have hzero : n.getLsbD 0 = decide (n.toNat % 2 = 1) := by
    rw [← BitVec.testBit_toNat, Nat.testBit_eq_decide_div_mod_eq, Nat.pow_zero, Nat.div_one]
  rw [hdiv, hone, hzero]
  simp only [decide_eq_true_eq]
  split
  · split
    · omega
    · omega
  · split
    · omega
    · omega

theorem movsWhen_moved (h : UpSafe dst src (off + if c then k else 0))
    (hle : (off + if c then k else 0) ≤ 2 ^ 64) :
    movsWhen c k off dst src (m.moved dst src off) =
      m.moved dst src (off + if c then k else 0) := by
  cases c with
  | false => rfl
  | true =>
    simp only [movsWhen, if_true] at h hle ⊢
    rw [store_load_eq_moved, h.moved_moved hle]

theorem inlineMemcpy_eq_moved (h : UpSafe dst src n.toNat) :
    inlineMemcpy dst src n m = m.moved dst src n.toNat := by
  have hparts := @count_parts n
  have hlt := n.isLt
  unfold inlineMemcpy
  dsimp only
  rw [copyUp_eq_moved (by omega) (h.mono (by omega)),
    movsWhen_moved (h.mono (by omega)) (by omega)]
  have hdone : (if n.getLsbD 1 = true then 4 * (n / 4#64).toNat + 2 else 4 * (n / 4#64).toNat) =
      4 * (n / 4#64).toNat + if n.getLsbD 1 = true then 2 else 0 := by
    split
    · rfl
    · rfl
  rw [hdone, movsWhen_moved (h.mono (by omega)) (by omega), hparts]

/-- `memmove` moves the block as if it were read as a whole before it is written, whether the
blocks are apart or overlap in either direction. -/
theorem memmove_eq_moved (hdst : dst.toNat + n.toNat ≤ 2 ^ 64)
    (hsrc : src.toNat + n.toNat ≤ 2 ^ 64) : memmove dst src n m = m.moved dst src n.toNat := by
  have hlt := n.isLt
  have hd := dst.isLt
  have hs := src.isLt
  unfold memmove
  split
  · next hlow =>
    rw [BitVec.lt_def] at hlow
    refine inlineMemcpy_eq_moved (Or.inr ?_)
    rw [BitVec.toNat_sub]
    omega
  · next hhigh =>
    rw [BitVec.lt_def, Nat.not_lt] at hhigh
    have hn : n = BitVec.ofNat 64 n.toNat := by rw [BitVec.ofNat_toNat, BitVec.setWidth_eq]
    conv => lhs; rw [hn]
    rw [BitVec.toNat_ofNat, Nat.mod_eq_of_lt hlt]
    refine copyDown_eq_moved (by omega) ?_
    by_cases heq : dst = src
    · exact Or.inl heq
    · right
      have hne : dst.toNat ≠ src.toNat := fun h => heq (BitVec.eq_of_toNat_eq h)
      rw [BitVec.toNat_sub]
      omega

theorem memmove_eq_moved_overlap :
    let m := Mem.ofBytes 0x100#64 [1#8, 2#8, 3#8, 4#8, 5#8, 6#8, 7#8]
    memmove 0x101#64 0x100#64 7#64 m = m.moved 0x101#64 0x100#64 7 :=
  memmove_eq_moved (by decide) (by decide)

end

/-! ## Strings -/

/-- The characters from index `k` on are those of the string, and end there. -/
def Spells (cs : Nat → Byte) : (k : Nat) → List Byte → Prop
  | k, [] => cs k = 0#8
  | k, c :: s => cs k = c ∧ c ≠ 0#8 ∧ Spells cs (k + 1) s

instance decidableSpells (cs : Nat → Byte) : (k : Nat) → (s : List Byte) → Decidable (Spells cs k s)
  | k, [] => inferInstanceAs (Decidable (cs k = 0#8))
  | k, c :: s =>
    have := decidableSpells cs (k + 1) s
    inferInstanceAs (Decidable (cs k = c ∧ c ≠ 0#8 ∧ Spells cs (k + 1) s))

/-- The turns after which a loop has seen every address. -/
def addresses : Nat := 2 ^ 64

/-- The loop of `strcmp`; the difference is kept in a `signed char`. -/
def strcmpLoop (cs ct : Nat → Byte) : (fuel k : Nat) → Option (BitVec 8)
  | 0, _ => none
  | fuel + 1, k =>
    let res := cs k - ct k
    if res ≠ 0#8 ∨ cs k = 0#8 then some res else strcmpLoop cs ct fuel (k + 1)

def strcmp (cs ct : Nat → Byte) : Option (BitVec 8) := strcmpLoop cs ct addresses 0

/-- The loop of `strncmp`. -/
def strncmpLoop (cs ct : Nat → Byte) : (count k : Nat) → BitVec 8
  | 0, _ => 0#8
  | count + 1, k =>
    let res := cs k - ct k
    if res ≠ 0#8 ∨ cs k = 0#8 then res else strncmpLoop cs ct count (k + 1)

def strncmp (cs ct : Nat → Byte) (count : BitVec 64) : BitVec 8 :=
  strncmpLoop cs ct count.toNat 0

/-- The inner loop of `strstr`: whether `sub` stands at `bp`. -/
def strstrMatch (buf sub : Nat → Byte) : (fuel bp sp : Nat) → Option Bool
  | 0, _, _ => none
  | fuel + 1, bp, sp =>
    if sub sp = 0#8 then some true
    else if buf bp = sub sp then strstrMatch buf sub fuel (bp + 1) (sp + 1)
    else some false

/-- The outer loop of `strstr`; the result is an index, or none for a null pointer. -/
def strstrLoop (buf sub : Nat → Byte) : (fuel k : Nat) → Option (Option Nat)
  | 0, _ => none
  | fuel + 1, k =>
    if buf k = 0#8 then some none
    else do
      if ← strstrMatch buf sub addresses k 0 then some (some k)
      else strstrLoop buf sub fuel (k + 1)

def strstr (buf sub : Nat → Byte) : Option (Option Nat) :=
  if sub 0 = 0#8 then some (some 0) else strstrLoop buf sub addresses 0

section
variable {cs ct buf sub : Nat → Byte} {s t : List Byte} {k fuel : Nat}

/-! ### Comparison -/

theorem sub_eq_zero_iff {x y : Byte} : x - y = 0#8 ↔ x = y := by
  constructor
  · intro h
    rw [← BitVec.sub_add_cancel x y, h, BitVec.zero_add]
  · rintro rfl
    exact BitVec.sub_self x

/-- Characters of seven bits: the difference does not overflow. -/
def Ascii (s : List Byte) : Prop := ∀ c ∈ s, c.toNat < 128

theorem sub_neg_iff {x y : Byte} (hx : x.toNat < 128) (hy : y.toNat < 128) :
    (x - y).toInt < 0 ↔ x < y := by
  rw [BitVec.lt_def, BitVec.toInt_eq_toNat_cond, BitVec.toNat_sub]
  split
  · omega
  · omega

/-- What `strcmp` returns of two strings that end. -/
structure Compared (s t : List Byte) (res : BitVec 8) : Prop where
  equal : res = 0#8 ↔ s = t
  less : Ascii s → Ascii t → (res.toInt < 0 ↔ s < t)

theorem Ascii.tail {c : Byte} (h : Ascii (c :: s)) : Ascii s :=
  fun x hx => h x (List.mem_cons_of_mem c hx)

theorem Ascii.head {c : Byte} (h : Ascii (c :: s)) : c.toNat < 128 := h c List.mem_cons_self

theorem strcmpLoop_differ (hne : cs k ≠ ct k) :
    strcmpLoop cs ct (fuel + 1) k = some (cs k - ct k) :=
  if_pos (Or.inl fun h => hne (sub_eq_zero_iff.mp h))

theorem strcmpLoop_same (heq : cs k = ct k) (hne : cs k ≠ 0#8) :
    strcmpLoop cs ct (fuel + 1) k = strcmpLoop cs ct fuel (k + 1) := by
  refine if_neg (not_or.mpr ⟨?_, hne⟩)
  rw [ne_eq, not_not]
  exact sub_eq_zero_iff.mpr heq

/-- The difference of the first characters that differ decides. -/
theorem compared_differ {c d : Byte} (hne : c ≠ d) : Compared (c :: s) (d :: t) (c - d) where
  equal := by
    refine iff_of_false (fun h => hne (sub_eq_zero_iff.mp h)) fun h => ?_
    exact hne (List.cons_eq_cons.mp h).1
  less hs ht := by
    rw [sub_neg_iff hs.head ht.head, List.cons_lt_cons_iff, or_iff_left fun h => hne h.1]

theorem Compared.cons {c : Byte} {res : BitVec 8} (h : Compared s t res) :
    Compared (c :: s) (c :: t) res where
  equal := by rw [h.equal, List.cons_inj_right]
  less hs ht := by
    rw [h.less hs.tail ht.tail, List.cons_lt_cons_iff, or_iff_right (BitVec.lt_irrefl c)]
    exact ⟨fun h => ⟨rfl, h⟩, fun h => h.2⟩

theorem strcmpLoop_spec (hs : Spells cs k s) (ht : Spells ct k t)
    (hfuel : min s.length t.length < fuel) :
    ∃ res, strcmpLoop cs ct fuel k = some res ∧ Compared s t res := by
  induction s generalizing k t fuel with
  | nil =>
    obtain ⟨fuel, rfl⟩ := Nat.exists_eq_add_one.mpr (Nat.zero_lt_of_lt hfuel)
    have hend : cs k = 0#8 := hs
    cases t with
    | nil =>
      have hend' : ct k = 0#8 := ht
      refine ⟨0#8, ?_, iff_of_true rfl rfl, fun _ _ => ?_⟩
      · rw [strcmpLoop, hend, hend']
        rfl
      · exact iff_of_false (by decide) (List.not_lt_nil [])
    | cons d t =>
      obtain ⟨hd, hne, -⟩ := ht
      have hdiff : cs k ≠ ct k := by
        rw [hend, hd]
        exact hne.symm
      refine ⟨_, strcmpLoop_differ hdiff, ?_, fun _ hd7 => ?_⟩
      · exact iff_of_false (fun h => hdiff (sub_eq_zero_iff.mp h)) (by simp)
      · rw [hd, hend, sub_neg_iff (by decide) hd7.head]
        refine iff_of_true ?_ (List.nil_lt_cons d t)
        exact BitVec.lt_def.mpr (Nat.pos_of_ne_zero fun h => hne (BitVec.eq_of_toNat_eq h))
  | cons c s ih =>
    obtain ⟨hc, hne, hs⟩ := hs
    obtain ⟨fuel, rfl⟩ := Nat.exists_eq_add_one.mpr (Nat.zero_lt_of_lt hfuel)
    cases t with
    | nil =>
      have hend : ct k = 0#8 := ht
      have hdiff : cs k ≠ ct k := by
        rw [hend, hc]
        exact hne
      refine ⟨_, strcmpLoop_differ hdiff, ?_, fun hc7 _ => ?_⟩
      · exact iff_of_false (fun h => hdiff (sub_eq_zero_iff.mp h)) (by simp)
      · rw [hc, hend, sub_neg_iff hc7.head (by decide)]
        exact iff_of_false BitVec.not_lt_zero (List.not_lt_nil _)
    | cons d t =>
      obtain ⟨hd, -, ht⟩ := ht
      by_cases heq : c = d
      · subst heq
        have hmin : min s.length t.length < fuel := by
          rw [List.length_cons, List.length_cons] at hfuel
          omega
        obtain ⟨res, hres, hcmp⟩ := ih hs ht hmin
        refine ⟨res, ?_, hcmp.cons⟩
        rw [strcmpLoop_same (by rw [hc, hd]) (by rw [hc]; exact hne), hres]
      · have hdiff : cs k ≠ ct k := by
          rw [hc, hd]
          exact heq
        refine ⟨_, strcmpLoop_differ hdiff, ?_⟩
        rw [hc, hd]
        exact compared_differ heq

/-- As long as the second string lasts, `strncmp` compares character by character. -/
theorem strncmpLoop_eq_zero_iff (ht : Spells ct k t) {n : Nat} (hn : n ≤ t.length) :
    strncmpLoop cs ct n k = 0#8 ↔ ∀ i < n, cs (k + i) = ct (k + i) := by
  induction n generalizing k t with
  | zero => exact iff_of_true rfl fun i hi => absurd hi (Nat.not_lt_zero i)
  | succ n ih =>
    cases t with
    | nil => exact absurd hn (Nat.not_succ_le_zero n)
    | cons d t =>
      obtain ⟨hd, hne, ht⟩ := ht
      rw [strncmpLoop]
      by_cases heq : cs k = ct k
      · rw [if_neg (by rw [heq, BitVec.sub_self, hd]; simpa using hne),
          ih ht (Nat.le_of_succ_le_succ hn)]
        constructor
        · intro h i hi
          cases i with
          | zero => exact heq
          | succ i =>
            have := h i (Nat.lt_of_succ_lt_succ hi)
            rwa [Nat.add_right_comm] at this
        · intro h i hi
          have := h (i + 1) (Nat.succ_lt_succ hi)
          rwa [← Nat.add_assoc, Nat.add_right_comm] at this
      · have hdiff : cs k - ct k ≠ 0#8 := fun h => heq (sub_eq_zero_iff.mp h)
        rw [if_pos (Or.inl hdiff)]
        exact iff_of_false hdiff fun h => heq (h 0 (Nat.succ_pos n))

theorem Spells.char (h : Spells cs k s) {i : Nat} (hi : i < s.length) : cs (k + i) ≠ 0#8 := by
  induction s generalizing k i with
  | nil => exact absurd hi (Nat.not_lt_zero i)
  | cons c s ih =>
    obtain ⟨hc, hne, hs⟩ := h
    cases i with
    | zero =>
      rw [Nat.add_zero, hc]
      exact hne
    | succ i =>
      have := ih hs (Nat.lt_of_succ_lt_succ hi)
      rwa [Nat.add_right_comm] at this

theorem Spells.terminator (h : Spells cs k s) : cs (k + s.length) = 0#8 := by
  induction s generalizing k with
  | nil => exact h
  | cons c s ih =>
    have := ih h.2.2
    rwa [Nat.add_right_comm] at this

theorem Spells.nonzero (h : Spells cs k s) : ∀ c ∈ s, c ≠ 0#8 := by
  induction s generalizing k with
  | nil => exact fun c hc => absurd hc List.not_mem_nil
  | cons c s ih => exact List.forall_mem_cons.mpr ⟨h.2.1, ih h.2.2⟩

theorem Spells.unique (hs : Spells cs k s) (ht : Spells cs k t) : s = t := by
  induction s generalizing k t with
  | nil =>
    cases t with
    | nil => rfl
    | cons d t => exact absurd (ht.1.symm.trans hs) ht.2.1
  | cons c s ih =>
    cases t with
    | nil => exact absurd (hs.1.symm.trans ht) hs.2.1
    | cons d t => rw [← hs.1, ← ht.1, ih hs.2.2 ht.2.2]

/-! ### Search -/

/-- The inner loop tells whether one string goes on with the other. -/
theorem strstrMatch_spec {i j : Nat} (hs : Spells buf i s) (ht : Spells sub j t)
    (hfuel : t.length < fuel) : strstrMatch buf sub fuel i j = some (decide (t <+: s)) := by
  induction t generalizing s i j fuel with
  | nil =>
    obtain ⟨fuel, rfl⟩ := Nat.exists_eq_add_one.mpr (Nat.zero_lt_of_lt hfuel)
    rw [strstrMatch, if_pos (show sub j = 0#8 from ht), decide_eq_true List.nil_prefix]
  | cons d t ih =>
    obtain ⟨fuel, rfl⟩ := Nat.exists_eq_add_one.mpr (Nat.zero_lt_of_lt hfuel)
    obtain ⟨hd, hne, ht⟩ := ht
    rw [strstrMatch, hd, if_neg hne]
    cases s with
    | nil =>
      have hend : buf i = 0#8 := hs
      rw [hend, if_neg hne.symm, decide_eq_false (by simp)]
    | cons c s =>
      obtain ⟨hc, -, hs⟩ := hs
      by_cases heq : c = d
      · subst heq
        rw [hc, if_pos rfl, ih hs ht (Nat.lt_of_succ_lt_succ hfuel)]
        simp only [List.prefix_cons_inj]
      · rw [hc, if_neg heq, decide_eq_false fun h => heq (List.cons_prefix_cons.mp h).1.symm]

/-- The outer loop finds the first place, from `k` on, at which the other string stands. -/
theorem strstrLoop_spec (hs : Spells buf k s) (ht : Spells sub 0 t) (hlen : t.length < addresses)
    (hfuel : s.length < fuel) :
    strstrLoop buf sub fuel k =
      some (((List.range s.length).find? fun i => t <+: s.drop i).map (k + ·)) := by
  induction s generalizing k fuel with
  | nil =>
    obtain ⟨fuel, rfl⟩ := Nat.exists_eq_add_one.mpr (Nat.zero_lt_of_lt hfuel)
    rw [strstrLoop, if_pos (show buf k = 0#8 from hs)]
    rfl
  | cons c s ih =>
    obtain ⟨fuel, rfl⟩ := Nat.exists_eq_add_one.mpr (Nat.zero_lt_of_lt hfuel)
    have hmatch := strstrMatch_spec hs ht hlen
    obtain ⟨hc, hne, hs⟩ := hs
    rw [strstrLoop, hc, if_neg hne, hmatch, Option.bind_eq_bind, Option.bind_some,
      List.length_cons, List.range_succ_eq_map, List.find?_cons, List.drop_zero]
    by_cases hpre : t <+: c :: s
    · simp only [decide_eq_true hpre, if_true]
      rfl
    · rw [if_neg (by simpa using hpre), ih hs (Nat.lt_of_succ_lt_succ hfuel)]
      simp only [decide_eq_false hpre, List.find?_map, Option.map_map]
      congr 2
      funext i
      exact Nat.add_right_comm k 1 i

end

/-! ### In memory -/

/-- The characters from an address on. -/
def charsAt (m : Mem) (p : Addr) : Nat → Byte := fun k => m (p + BitVec.ofNat 64 k)

section
variable {m : Mem} {p q : Addr} {s t : List Byte}

/-- A string in memory ends before its addresses come round. -/
theorem Spells.length_lt (h : Spells (charsAt m p) 0 s) : s.length < addresses := by
  by_contra hlong
  have hle : addresses ≤ s.length := Nat.le_of_not_lt hlong
  have hend := h.terminator
  have hchar := h.char (i := s.length - addresses) (by unfold addresses at hle ⊢; omega)
  have hsame : BitVec.ofNat 64 (0 + s.length) = BitVec.ofNat 64 (0 + (s.length - addresses)) := by
    apply BitVec.eq_of_toNat_eq
    rw [BitVec.toNat_ofNat, BitVec.toNat_ofNat]
    unfold addresses at hle ⊢
    omega
  unfold charsAt at hend hchar
  rw [hsame] at hend
  exact hchar hend

/-- `strcmp` returns, gives 0 exactly for equal strings, and orders those of seven-bit characters
as the dictionary does. -/
theorem strcmp_compares (hs : Spells (charsAt m p) 0 s) (ht : Spells (charsAt m q) 0 t) :
    ∃ res, strcmp (charsAt m p) (charsAt m q) = some res ∧ (res = 0#8 ↔ s = t) ∧
      (Ascii s → Ascii t → (res.toInt < 0 ↔ s < t)) := by
  obtain ⟨res, hres, hcmp⟩ :=
    strcmpLoop_spec hs ht (Nat.lt_of_le_of_lt (Nat.min_le_left _ _) hs.length_lt)
  exact ⟨res, hres, hcmp.equal, hcmp.less⟩

theorem strcmp_compares_words :
    let m := Mem.ofBytes 0x100#64 [0x61#8, 0x62#8, 0#8, 0x62#8, 0#8]
    ∃ res, strcmp (charsAt m 0x100#64) (charsAt m 0x103#64) = some res ∧
      (res = 0#8 ↔ [0x61#8, 0x62#8] = [0x62#8]) ∧
      (Ascii [0x61#8, 0x62#8] → Ascii [0x62#8] → (res.toInt < 0 ↔ [0x61#8, 0x62#8] < [0x62#8])) :=
  strcmp_compares (by decide) (by decide)

/-- The names of tracked processes are compared with `strcmp`. -/
theorem strEqual_iff_strcmp {cs : Nat → Byte} (hs : Spells cs 0 s)
    (ht : Spells (charsAt m p) 0 t) :
    strEqual m s p = true ↔ strcmp cs (charsAt m p) = some 0#8 := by
  have hall : ∀ (s : List Byte) (k : Nat), (∀ c ∈ s, c ≠ 0#8) →
      (((s ++ [0#8]).zipIdx k).all (fun c => m (p + BitVec.ofNat 64 c.2) = c.1) = true ↔
        Spells (charsAt m p) k s) := by
    intro s
    induction s with
    | nil =>
      intro k _
      simp [Spells, charsAt]
    | cons c s ih =>
      intro k hne
      rw [List.cons_append, List.zipIdx_cons, List.all_cons, Bool.and_eq_true, decide_eq_true_eq,
        ih (k + 1) fun c hc => hne c (List.mem_cons_of_mem _ hc)]
      exact ⟨fun h => ⟨h.1, hne c List.mem_cons_self, h.2⟩, fun h => ⟨h.1, h.2.2⟩⟩
  obtain ⟨res, hres, hcmp⟩ :=
    strcmpLoop_spec hs ht (Nat.lt_of_le_of_lt (Nat.min_le_right _ _) ht.length_lt)
  have hsame : strcmp cs (charsAt m p) = some res := hres
  rw [hsame, Option.some_inj, hcmp.equal]
  unfold strEqual
  rw [hall s 0 hs.nonzero]
  constructor
  · exact fun h => h.unique ht
  · rintro rfl
    exact ht

/-- A string that is not empty stands nowhere at the very end. -/
theorem lt_length_of_prefix_drop {i : Nat} (hne : t ≠ []) (h : t <+: s.drop i) : i < s.length := by
  by_contra hge
  rw [List.drop_eq_nil_of_le (Nat.le_of_not_lt hge), List.prefix_nil] at h
  exact hne h

theorem find?_eq_some_iff_isLeast {i : Nat} (hne : t ≠ []) :
    ((List.range s.length).find? fun i => t <+: s.drop i) = some i ↔
      IsLeast { i | i ≤ s.length ∧ t <+: s.drop i } i := by
  rw [List.find?_range_eq_some, decide_eq_true_eq, List.mem_range]
  constructor
  · rintro ⟨hpre, hi, hmin⟩
    refine ⟨⟨Nat.le_of_lt hi, hpre⟩, ?_⟩
    rintro j ⟨-, hj⟩
    by_contra hlt
    simpa [hj] using hmin j (Nat.lt_of_not_le hlt)
  · rintro ⟨⟨-, hpre⟩, hmin⟩
    refine ⟨hpre, lt_length_of_prefix_drop hne hpre, fun j hj => ?_⟩
    rw [Bool.not_eq_true', decide_eq_false_iff_not]
    intro hpre'
    have := hmin ⟨Nat.le_of_lt (lt_length_of_prefix_drop hne hpre'), hpre'⟩
    omega

/-- `strstr` returns the first place at which the second string stands in the first, and a null
pointer when there is none. -/
theorem strstr_first (hs : Spells (charsAt m p) 0 s) (ht : Spells (charsAt m q) 0 t) :
    ∃ r, strstr (charsAt m p) (charsAt m q) = some r ∧
      ∀ i, r = some i ↔ IsLeast { i | i ≤ s.length ∧ t <+: s.drop i } i := by
  unfold strstr
  cases t with
  | nil =>
    refine ⟨some 0, if_pos ht, fun i => ?_⟩
    have hleast : IsLeast { i | i ≤ s.length ∧ [] <+: s.drop i } 0 :=
      ⟨⟨Nat.zero_le _, List.nil_prefix⟩, fun j _ => Nat.zero_le j⟩
    constructor
    · rintro ⟨rfl⟩
      exact hleast
    · exact fun h => congrArg some (hleast.unique h)
  | cons d t =>
    refine ⟨_, ?_, fun i => find?_eq_some_iff_isLeast (List.cons_ne_nil d t)⟩
    rw [if_neg (by rw [ht.1]; exact ht.2.1), strstrLoop_spec hs ht ht.length_lt hs.length_lt]
    congr 1
    simp only [Nat.zero_add, Option.map_id']

theorem strstr_first_middle :
    let m := Mem.ofBytes 0x100#64 [0x61#8, 0x61#8, 0x62#8, 0#8, 0x61#8, 0x62#8, 0#8]
    ∃ r, strstr (charsAt m 0x100#64) (charsAt m 0x104#64) = some r ∧
      ∀ i, r = some i ↔
        IsLeast { i | i ≤ [0x61#8, 0x61#8, 0x62#8].length ∧
          [0x61#8, 0x62#8] <+: [0x61#8, 0x61#8, 0x62#8].drop i } i :=
  strstr_first (by decide) (by decide)

end

end Mavmm
