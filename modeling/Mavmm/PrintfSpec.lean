import Mathlib.Tactic.SplitIfs
import Mavmm.Lib.Bytes
import Mavmm.Printf

/-!
# Bounds of formatted output

A format and its arguments are read as a list of pieces, plain characters and
hexadecimal numbers, and the full rendering is their text.  A run stores the
rendering position by position (`putPieces_fits`) as long as no number ends
past the buffer; the terminator is only there when the rendering is shorter
than the buffer.
-/

namespace Mavmm

/-! ## The full rendering -/

/-- A part of the output. -/
inductive Piece where
  | chars (bs : List Byte)
  | hex (w : BitVec 64)

/-- A number in base 16. -/
def hexText (n : Nat) : List Byte := (Nat.toDigits 16 n).map fun c => BitVec.ofNat 8 c.toNat

def Piece.text : Piece → List Byte
  | .chars bs => bs
  | .hex w => 48#8 :: 120#8 :: hexText w.toNat

/-- The piece of a directive, and the arguments that are left. -/
def directivePiece (d : Byte) (args : List FmtArg) : Option (Piece × List FmtArg) :=
  if d = 99#8 then
    match args with
    | .word w :: args => some (.chars [w.setWidth 8], args)
    | _ => none
  else if d = 115#8 then
    match args with
    | .str s :: args => some (.chars s.chars, args)
    | _ => none
  else if d = 120#8 then
    match args with
    | .word w :: args => some (.hex w, args)
    | _ => none
  else if d = 37#8 then some (.chars [37#8], args)
  else none

/-- The pieces of a format made of literal characters and the four directives, with an
argument for each that takes one. -/
def pieces : List Byte → List FmtArg → Option (List Piece)
  | [], _ => some []
  | c :: fmt, args =>
    if c ≠ 37#8 then (pieces fmt args).map (.chars [c] :: ·)
    else
      match fmt with
      | [] => none
      | d :: fmt => do
        let (p, args) ← directivePiece d args
        return p :: (← pieces fmt args)

/-- The full rendering. -/
def render (ps : List Piece) : List Byte := ps.flatMap Piece.text

/-- No number among the pieces from position `j` on ends past `size`. -/
def NumbersFit (size : Nat) : (j : Nat) → List Piece → Prop
  | _, [] => True
  | j, .chars bs :: ps => NumbersFit size (j + bs.length) ps
  | j, .hex w :: ps =>
    j + (Piece.hex w).text.length ≤ size ∧ NumbersFit size (j + (Piece.hex w).text.length) ps

/-! ## Digits -/

theorem digit_eq (n : BitVec 64) :
    digit n = BitVec.ofNat 8 (Nat.digitChar (n.toNat % 16)).toNat := by
  have htable : ∀ d < 16, BitVec.ofNat 8 (if d < 10 then 48 + d else 87 + d) =
      BitVec.ofNat 8 (Nat.digitChar d).toNat := by decide
  exact htable _ (Nat.mod_lt _ (by omega))

theorem reverse_digitLoop :
    ∀ (turns : Nat) {n : BitVec 64}, n.toNat < 16 ^ turns → 0 < turns →
      (digitLoop turns n).reverse = hexText n.toNat
  | turns + 1, n, hn, _ => by
    have hshift : (n >>> 4).toNat = n.toNat / 16 := by
      rw [BitVec.toNat_ushiftRight, Nat.shiftRight_eq_div_pow]
    rw [digitLoop, List.reverse_cons, digit_eq, hexText, Nat.toDigits_eq_if (by omega)]
    by_cases hz : n >>> 4 = 0#64
    · have hlt : n.toNat < 16 := by
        rw [hz, BitVec.toNat_zero] at hshift
        omega
      rw [if_pos hz, if_pos hlt, Nat.mod_eq_of_lt hlt]
      rfl
    · have hge : ¬ n.toNat < 16 := by
        intro hlt
        refine hz (BitVec.eq_of_toNat_eq ?_)
        rw [hshift, Nat.div_eq_of_lt hlt]
        rfl
      have hquot : (n >>> 4).toNat < 16 ^ turns := by
        rw [hshift]
        exact Nat.div_lt_of_lt_mul (Nat.pow_succ' ▸ hn)
      have hturns : 0 < turns := by
        rcases turns with _ | turns
        · exact absurd hn hge
        · exact Nat.succ_pos turns
      rw [if_neg hz, if_neg hge, reverse_digitLoop turns hquot hturns, hshift, List.map_append]
      rfl

theorem hexDigits_eq (w : BitVec 64) : hexDigits w = hexText w.toNat :=
  reverse_digitLoop 16 w.isLt (by omega)

theorem text_hex (w : BitVec 64) : (Piece.hex w).text = 48#8 :: 120#8 :: hexDigits w := by
  rw [hexDigits_eq]
  rfl

/-! ## Stores -/

/-- The stores that put `text` at position `j`, cut off at `size`. -/
def stores (size : Nat) : (j : Nat) → List Byte → List (Nat × Byte)
  | _, [] => []
  | j, c :: text => (if j < size then [(j, c)] else []) ++ stores size (j + 1) text

theorem stores_append (size : Nat) (s t : List Byte) :
    ∀ j, stores size j (s ++ t) = stores size j s ++ stores size (j + s.length) t := by
  induction s with
  | nil => exact fun j => rfl
  | cons c s ih =>
    intro j
    rw [List.cons_append, stores, ih, stores, List.append_assoc, List.length_cons,
      Nat.add_assoc, Nat.add_comm 1]

theorem stores_lt {size : Nat} (text : List Byte) :
    ∀ {j : Nat}, ∀ w ∈ stores size j text, w.1 < size := by
  induction text with
  | nil => exact fun _ h => nomatch h
  | cons c text ih =>
    intro j w hw
    rcases List.mem_append.mp hw with hw | hw
    · split at hw
      · next h =>
        rw [List.mem_singleton.mp hw]
        exact h
      · cases hw
    · exact ih w hw

/-- Reading back the stored text. -/
theorem foldl_stores {size k : Nat} (hk : k < size) (text : List Byte) :
    ∀ (j : Nat) (found : Option Byte),
      (stores size j text).foldl (fun found w => if w.1 = k then some w.2 else found) found =
        if j ≤ k ∧ k < j + text.length then text[k - j]? else found := by
  induction text with
  | nil =>
    intro j found
    rw [if_neg (by simp only [List.length_nil]; omega)]
    rfl
  | cons c text ih =>
    intro j found
    rw [stores, List.foldl_append, ih]
    by_cases hj : j = k
    · subst hj
      have hlen : j < j + (c :: text).length := by
        rw [List.length_cons]
        omega
      rw [if_pos hk, if_neg (fun h => Nat.not_succ_le_self j h.1), if_pos ⟨Nat.le_refl j, hlen⟩,
        Nat.sub_self]
      exact if_pos rfl
    · have hstep : (if j < size then [(j, c)] else []).foldl
          (fun found w => if w.1 = k then some w.2 else found) found = found := by
        split
        · exact if_neg hj
        · rfl
      rw [hstep, List.length_cons]
      by_cases hin : j + 1 ≤ k ∧ k < j + 1 + text.length
      · have hsub : k - j = (k - (j + 1)) + 1 := by omega
        rw [if_pos hin, if_pos (by omega), hsub, List.getElem?_cons_succ]
      · rw [if_neg hin, if_neg (by omega)]

/-! ## One piece -/

/-- Adding `bs` at the output index. -/
def Output.put (size : Nat) (bs : List Byte) (out : Output) : Output :=
  { writes := out.writes ++ stores size out.j bs, j := out.j + bs.length }

theorem Output.put_put (size : Nat) (s t : List Byte) (out : Output) :
    (out.put size s).put size t = out.put size (s ++ t) := by
  simp only [Output.put, stores_append, List.append_assoc, List.length_append, Nat.add_assoc]

/-- The output after a piece, as the code stores it. -/
def Output.add (size : Nat) (out : Output) : Piece → Output
  | .chars bs => out.put size bs
  | .hex w =>
    { writes := out.writes ++ numberWrites size out.j (hexDigits w)
      j := out.j + (Piece.hex w).text.length }

@[simp] theorem Output.add_j (size : Nat) (out : Output) (p : Piece) :
    (out.add size p).j = out.j + p.text.length := by
  cases p <;> rfl

theorem addInt_ok_iff {i n k : Nat} : addInt i n = .ok k ↔ i + n ≤ intMax ∧ k = i + n := by
  rw [addInt]
  constructor
  · intro hk
    split at hk
    · next h => exact ⟨h, (Except.ok.inj hk).symm⟩
    · cases hk
  · rintro ⟨h, rfl⟩
    exact if_pos h

theorem putChar_ok_iff {size : Nat} {c : Byte} {out out' : Output} :
    putChar size c out = .ok out' ↔ out.j + 1 ≤ intMax ∧ out' = out.put size [c] := by
  have hwrites : (if out.j < size then out.writes ++ [(out.j, c)] else out.writes) =
      out.writes ++ stores size out.j [c] := by
    simp only [stores]
    split <;> simp
  rw [putChar, hwrites]
  constructor
  · intro h
    obtain ⟨j, hj, h⟩ := bind_ok_iff.mp h
    obtain ⟨hle, rfl⟩ := addInt_ok_iff.mp hj
    exact ⟨hle, (Except.ok.inj h).symm⟩
  · rintro ⟨hle, rfl⟩
    exact bind_ok_iff.mpr ⟨_, addInt_ok_iff.mpr ⟨hle, rfl⟩, rfl⟩

theorem putString_ok_iff {size : Nat} (s : List Byte) :
    ∀ {out out' : Output}, out.j ≤ intMax →
      (putString size s out = .ok out' ↔
        out.j + s.length ≤ intMax ∧ out' = out.put size s) := by
  induction s with
  | nil =>
    intro out out' hj
    have hput : out.put size [] = out := by simp [Output.put, stores]
    rw [putString, hput, Except.ok.injEq]
    exact ⟨fun h => ⟨hj, h.symm⟩, fun h => h.2.symm⟩
  | cons c s ih =>
    intro out out' hj
    have hlen : (out.put size [c]).j + s.length = out.j + (c :: s).length := by
      simp only [Output.put, List.length_cons, List.length_nil]
      omega
    rw [putString, bind_ok_iff]
    constructor
    · rintro ⟨mid, hc, hs⟩
      obtain ⟨hle, rfl⟩ := putChar_ok_iff.mp hc
      obtain ⟨hle', rfl⟩ := (ih hle).mp hs
      exact ⟨hlen ▸ hle', Output.put_put ..⟩
    · rintro ⟨hle, rfl⟩
      have hle' : out.j + 1 ≤ intMax := by
        rw [List.length_cons] at hle
        omega
      refine ⟨_, putChar_ok_iff.mpr ⟨hle', rfl⟩, (ih hle').mpr ⟨hlen ▸ hle, ?_⟩⟩
      exact (Output.put_put size [c] s out).symm

theorem putNumber_ok_iff {size : Nat} {w : BitVec 64} {out out' : Output} :
    putNumber size w out = .ok out' ↔
      out.j + (Piece.hex w).text.length ≤ intMax ∧ out' = out.add size (.hex w) := by
  have hlen : (Piece.hex w).text.length = (hexDigits w).length + 2 := by
    rw [text_hex]
    rfl
  rw [putNumber, Output.add, hlen]
  constructor
  · intro h
    obtain ⟨j, hj, h⟩ := bind_ok_iff.mp h
    obtain ⟨hle, rfl⟩ := addInt_ok_iff.mp hj
    exact ⟨hle, (Except.ok.inj h).symm⟩
  · rintro ⟨hle, rfl⟩
    exact bind_ok_iff.mpr ⟨_, addInt_ok_iff.mpr ⟨hle, rfl⟩, rfl⟩

theorem directivePiece_cases {d : Byte} {args rest : List FmtArg} {p : Piece}
    (h : directivePiece d args = some (p, rest)) :
    (∃ w, d = 99#8 ∧ args = .word w :: rest ∧ p = .chars [w.setWidth 8]) ∨
    (∃ s, d = 115#8 ∧ args = .str s :: rest ∧ p = .chars s.chars) ∨
    (∃ w, d = 120#8 ∧ args = .word w :: rest ∧ p = .hex w) ∨
    (d = 37#8 ∧ args = rest ∧ p = .chars [37#8]) := by
  unfold directivePiece at h
  split_ifs at h with hc hs hx hp
  · rcases args with _ | ⟨w | s, args⟩ <;> cases h
    exact Or.inl ⟨w, hc, rfl, rfl⟩
  · rcases args with _ | ⟨w | s, args⟩ <;> cases h
    exact Or.inr (Or.inl ⟨s, hs, rfl, rfl⟩)
  · rcases args with _ | ⟨w | s, args⟩ <;> cases h
    exact Or.inr (Or.inr (Or.inl ⟨w, hx, rfl, rfl⟩))
  · cases h
    exact Or.inr (Or.inr (Or.inr ⟨hp, rfl, rfl⟩))

/-- A directive with its argument adds its piece. -/
theorem directive_ok_iff {size : Nat} {d : Byte} {args rest : List FmtArg} {p : Piece}
    (hp : directivePiece d args = some (p, rest)) {out : Output} (hj : out.j ≤ intMax)
    {r : List FmtArg × Output} :
    directive size d args out = .ok r ↔
      out.j + p.text.length ≤ intMax ∧ r = (rest, out.add size p) := by
  have hmap : ∀ {x : Except Fault Output},
      (∀ out', x = .ok out' ↔ out.j + p.text.length ≤ intMax ∧ out' = out.add size p) →
      ((do return (rest, ← x)) = Except.ok r ↔
        out.j + p.text.length ≤ intMax ∧ r = (rest, out.add size p)) := by
    intro x hx
    rw [bind_ok_iff]
    constructor
    · rintro ⟨out', h, hr⟩
      obtain ⟨hle, rfl⟩ := (hx out').mp h
      exact ⟨hle, (Except.ok.inj hr).symm⟩
    · rintro ⟨hle, rfl⟩
      exact ⟨_, (hx _).mpr ⟨hle, rfl⟩, rfl⟩
  rcases directivePiece_cases hp with
    ⟨w, rfl, rfl, rfl⟩ | ⟨s, rfl, rfl, rfl⟩ | ⟨w, rfl, rfl, rfl⟩ | ⟨rfl, rfl, rfl⟩
  · exact hmap fun out' => putChar_ok_iff
  · exact hmap fun out' => putString_ok_iff s.chars hj
  · exact hmap fun out' => putNumber_ok_iff
  · exact hmap fun out' => putChar_ok_iff

/-! ## The loop over the format -/

theorem pieces_literal {c : Byte} {fmt : List Byte} {args : List FmtArg} {ps : List Piece}
    (hc : c ≠ 37#8) (h : pieces (c :: fmt) args = some ps) :
    ∃ rest, pieces fmt args = some rest ∧ ps = .chars [c] :: rest := by
  rw [pieces.eq_def] at h
  simp only [if_pos hc, Option.map_eq_some_iff] at h
  obtain ⟨rest, hrest, hps⟩ := h
  exact ⟨rest, hrest, hps.symm⟩

theorem pieces_directive {d : Byte} {fmt : List Byte} {args : List FmtArg} {ps : List Piece}
    (h : pieces (37#8 :: d :: fmt) args = some ps) :
    ∃ p args' rest, directivePiece d args = some (p, args') ∧ pieces fmt args' = some rest ∧
      ps = p :: rest := by
  rw [pieces.eq_def] at h
  simp only [if_neg (fun h : (37#8 : Byte) ≠ 37#8 => h rfl)] at h
  obtain ⟨⟨p, args'⟩, hp, h⟩ := Option.bind_eq_some_iff.mp h
  obtain ⟨rest, hrest, hps⟩ := Option.bind_eq_some_iff.mp h
  exact ⟨p, args', rest, hp, hrest, (Option.some.inj hps).symm⟩

theorem render_cons (p : Piece) (ps : List Piece) : render (p :: ps) = p.text ++ render ps := rfl

/-- The loop adds the pieces one after the other, as long as neither index overflows. -/
theorem formatLoop_ok_iff {size : Nat} :
    ∀ (fmt : List Byte) (args : List FmtArg) {ps : List Piece} {i : Nat} {out out' : Output},
      pieces fmt args = some ps → i ≤ intMax → out.j ≤ intMax →
      (formatLoop size fmt i args out = .ok out' ↔
        i + fmt.length ≤ intMax ∧ out.j + (render ps).length ≤ intMax ∧
          out' = ps.foldl (Output.add size) out)
  | [], args, ps, i, out, out', hps, hi, hj => by
    cases hps
    rw [formatLoop, Except.ok.injEq]
    constructor
    · exact fun h => ⟨hi, hj, h.symm⟩
    · exact fun h => h.2.2.symm
  | c :: fmt, args, ps, i, out, out', hps, hi, hj => by
    by_cases hc : c = 37#8
    · subst hc
      rcases fmt with _ | ⟨d, fmt⟩
      · cases hps
      obtain ⟨p, args', rest, hp, hrest, rfl⟩ := pieces_directive hps
      rw [formatLoop.eq_def]
      simp only [if_neg (fun h : (37#8 : Byte) ≠ 37#8 => h rfl), bind_ok_iff, render_cons,
        List.length_append, List.length_cons, List.foldl_cons]
      constructor
      · rintro ⟨i', hi', ⟨args'', mid⟩, hdir, k, hk, hloop⟩
        obtain ⟨hle, hmid⟩ := (directive_ok_iff hp hj).mp hdir
        cases hmid
        obtain ⟨-, rfl⟩ := addInt_ok_iff.mp hi'
        obtain ⟨hik, rfl⟩ := addInt_ok_iff.mp hk
        obtain ⟨h1, h2, h3⟩ :=
          (formatLoop_ok_iff fmt args' hrest hik (by rwa [Output.add_j])).mp hloop
        rw [Output.add_j] at h2
        exact ⟨by omega, by omega, h3⟩
      · rintro ⟨h1, h2, h3⟩
        have hle : out.j + p.text.length ≤ intMax := by omega
        have hik : i + 1 + 1 ≤ intMax := by omega
        refine ⟨_, addInt_ok_iff.mpr ⟨by omega, rfl⟩, _,
          (directive_ok_iff hp hj).mpr ⟨hle, rfl⟩, _, addInt_ok_iff.mpr ⟨hik, rfl⟩, ?_⟩
        refine (formatLoop_ok_iff fmt args' hrest hik (by rwa [Output.add_j])).mpr ⟨?_, ?_, h3⟩
        · omega
        · rw [Output.add_j]
          omega
    · obtain ⟨rest, hrest, rfl⟩ := pieces_literal hc hps
      rw [formatLoop.eq_def]
      simp only [if_pos hc, bind_ok_iff, render_cons, List.length_append, List.length_cons,
        List.foldl_cons]
      constructor
      · rintro ⟨mid, hput, k, hk, hloop⟩
        obtain ⟨hle, rfl⟩ := putChar_ok_iff.mp hput
        obtain ⟨hik, rfl⟩ := addInt_ok_iff.mp hk
        obtain ⟨h1, h2, h3⟩ := (formatLoop_ok_iff fmt args hrest hik hle).mp hloop
        exact ⟨by omega, Nat.add_assoc .. ▸ h2, h3⟩
      · rintro ⟨h1, h2, h3⟩
        have hlen : (Piece.chars [c]).text.length = 1 := rfl
        have hle : out.j + 1 ≤ intMax := by omega
        have hik : i + 1 ≤ intMax := by omega
        refine ⟨_, putChar_ok_iff.mpr ⟨hle, rfl⟩, _, addInt_ok_iff.mpr ⟨hik, rfl⟩, ?_⟩
        refine (formatLoop_ok_iff fmt args hrest hik hle).mpr ⟨by omega, ?_, h3⟩
        exact (Nat.add_assoc ..) ▸ h2

/-! ## Where the stores end -/

/-- The digits of a number that ends inside the buffer are all stored. -/
theorem map_zipIdx_eq_stores {size : Nat} (digits : List Byte) :
    ∀ {j k : Nat}, j + 2 + k + digits.length ≤ size →
      ((digits.zipIdx k).filter fun d => decide (j + d.2 < size)).map
        (fun d => (j + 2 + d.2, d.1)) = stores size (j + 2 + k) digits := by
  induction digits with
  | nil => exact fun _ => rfl
  | cons c digits ih =>
    intro j k h
    rw [List.length_cons] at h
    have hguard : j + k < size := by omega
    have hstore : j + 2 + k < size := by omega
    have hrest : j + 2 + (k + 1) + digits.length ≤ size := by omega
    rw [List.zipIdx_cons, List.filter_cons, if_pos (decide_eq_true hguard), List.map_cons,
      ih hrest, stores, if_pos hstore]
    rfl

theorem numberWrites_eq_stores {size j : Nat} {w : BitVec 64}
    (h : j + (Piece.hex w).text.length ≤ size) :
    numberWrites size j (hexDigits w) = stores size j (Piece.hex w).text := by
  simp only [text_hex, List.length_cons] at h
  have h0 : j < size := by omega
  have h1 : j + 1 < size := by omega
  rw [numberWrites, map_zipIdx_eq_stores (hexDigits w) (by omega : j + 2 + 0 + _ ≤ size), text_hex, stores,
    stores, if_pos h0, if_pos h1]
  rfl

/-- A number that ends past the buffer is stored past it. -/
theorem numberWrites_overflow {size j : Nat} {w : BitVec 64}
    (h : size < j + (Piece.hex w).text.length) :
    ∃ p ∈ numberWrites size j (hexDigits w), size ≤ p.1 := by
  simp only [text_hex, List.length_cons] at h
  by_cases hj : j + 1 < size
  -- the guard lets the digit at `size` through
  · have hlt : size - (j + 2) < (hexDigits w).length := by omega
    refine ⟨(j + 2 + (size - (j + 2)), (hexDigits w)[size - (j + 2)]), ?_, by omega⟩
    refine List.mem_cons_of_mem _ (List.mem_cons_of_mem _ (List.mem_map.mpr ?_))
    refine ⟨((hexDigits w)[size - (j + 2)], size - (j + 2)), ?_, rfl⟩
    refine List.mem_filter.mpr ⟨List.mem_zipIdx_iff_getElem?.mpr ?_, decide_eq_true ?_⟩
    · exact List.getElem?_eq_getElem hlt
    · change j + (size - (j + 2)) < size
      omega
  · exact ⟨(j + 1, 120#8), List.mem_cons_of_mem _ List.mem_cons_self, by omega⟩

/-- Pieces whose numbers fit leave their rendering, cut off at the buffer's end. -/
theorem putPieces_fits {size : Nat} (ps : List Piece) :
    ∀ {out : Output}, NumbersFit size out.j ps →
      ps.foldl (Output.add size) out = out.put size (render ps) := by
  induction ps with
  | nil =>
    intro out _
    simp [render, Output.put, stores]
  | cons p ps ih =>
    intro out h
    have hadd : out.add size p = out.put size p.text ∧ NumbersFit size (out.add size p).j ps := by
      cases p with
      | chars bs => exact ⟨rfl, h⟩
      | hex w => exact ⟨by rw [Output.add, numberWrites_eq_stores h.1, Output.put], h.2⟩
    rw [List.foldl_cons, ih hadd.2, hadd.1, Output.put_put, render_cons]

theorem mem_writes_putPieces {size : Nat} (ps : List Piece) :
    ∀ {out : Output}, ∀ w ∈ out.writes, w ∈ (ps.foldl (Output.add size) out).writes := by
  induction ps with
  | nil => exact fun w hw => hw
  | cons p ps ih =>
    intro out w hw
    refine ih w ?_
    cases p with
    | chars bs => exact List.mem_append_left _ hw
    | hex v => exact List.mem_append_left _ hw

/-- Stores that all stay inside the buffer are those of numbers that fit. -/
theorem putPieces_overflow {size : Nat} (ps : List Piece) :
    ∀ {out : Output}, (∀ w ∈ (ps.foldl (Output.add size) out).writes, w.1 < size) →
      NumbersFit size out.j ps := by
  induction ps with
  | nil => exact fun _ => trivial
  | cons p ps ih =>
    intro out h
    have hrest := ih h
    rw [Output.add_j] at hrest
    cases p with
    | chars bs => exact hrest
    | hex w =>
      refine ⟨Nat.le_of_not_lt fun hlt => ?_, hrest⟩
      obtain ⟨p, hp, hge⟩ := numberWrites_overflow hlt
      have hadd : p ∈ (out.add size (.hex w)).writes := List.mem_append_right out.writes hp
      exact absurd (h p (mem_writes_putPieces ps p hadd)) (Nat.not_lt.mpr hge)

/-! ## The buffer after a run -/

theorem foldl_add_j {size : Nat} (ps : List Piece) :
    ∀ {out : Output}, (ps.foldl (Output.add size) out).j = out.j + (render ps).length := by
  induction ps with
  | nil => exact fun {out} => rfl
  | cons p ps ih =>
    intro out
    rw [List.foldl_cons, ih, Output.add_j, render_cons, List.length_append, Nat.add_assoc]

/-- The terminator, which `vsnprintf` stores if there is room. -/
def Output.terminate (size : Nat) (out : Output) : Output :=
  if out.j < size then { out with writes := out.writes ++ [(out.j, 0#8)] } else out

section
variable {size : BitVec 64} {fmt : CString} {args : List FmtArg} {ps : List Piece}

/-- The run as a whole: the pieces, then the terminator. -/
theorem vsnprintf_ok_iff (hsize : size ≠ 0#64) (hps : pieces fmt.chars args = some ps)
    {out : Output} :
    vsnprintf size fmt args = .ok out ↔
      fmt.chars.length ≤ intMax ∧ (render ps).length ≤ intMax ∧
        out = (ps.foldl (Output.add size.toNat) { writes := [], j := 0 }).terminate size.toNat := by
  have hloop : ∀ mid, formatLoop size.toNat fmt.chars 0 args { writes := [], j := 0 } = .ok mid ↔
      fmt.chars.length ≤ intMax ∧ (render ps).length ≤ intMax ∧
        mid = ps.foldl (Output.add size.toNat) { writes := [], j := 0 } := by
    intro mid
    have h := @formatLoop_ok_iff size.toNat fmt.chars args ps 0 { writes := [], j := 0 } mid hps
      (Nat.zero_le _) (Nat.zero_le _)
    rwa [Nat.zero_add, Nat.zero_add] at h
  rw [vsnprintf, if_neg hsize]
  change (_ >>= _) = _ ↔ _
  rw [bind_ok_iff]
  constructor
  · rintro ⟨mid, hmid, hout⟩
    obtain ⟨hf, hr, rfl⟩ := (hloop mid).mp hmid
    exact ⟨hf, hr, (Except.ok.inj hout).symm⟩
  · rintro ⟨hf, hr, rfl⟩
    exact ⟨_, (hloop _).mpr ⟨hf, hr, rfl⟩, rfl⟩

theorem writes_terminate_lt {size : Nat} {out : Output} :
    (∀ w ∈ (out.terminate size).writes, w.1 < size) ↔ ∀ w ∈ out.writes, w.1 < size := by
  unfold Output.terminate
  split
  · next h =>
    constructor
    · exact fun hall w hw => hall w (List.mem_append_left _ hw)
    · intro hall w hw
      rcases List.mem_append.mp hw with hw | hw
      · exact hall w hw
      · rw [List.mem_singleton.mp hw]
        exact h
  · exact Iff.rfl

/-- The stores of a run stay inside the buffer exactly when its numbers fit. -/
theorem writes_lt_iff {size : Nat} {ps : List Piece} :
    (∀ w ∈ ((ps.foldl (Output.add size) { writes := [], j := 0 }).terminate size).writes,
      w.1 < size) ↔ NumbersFit size 0 ps := by
  rw [writes_terminate_lt]
  constructor
  · exact fun h => putPieces_overflow ps h
  · intro h w hw
    rw [putPieces_fits ps h] at hw
    exact stores_lt _ w hw

/-- What a run whose numbers fit leaves at offset `k`. -/
theorem lastWrite_terminate {size k : Nat} (hk : k < size) {ps : List Piece}
    (h : NumbersFit size 0 ps) :
    lastWrite ((ps.foldl (Output.add size) { writes := [], j := 0 }).terminate size).writes k =
      if k = (render ps).length then some 0#8 else (render ps)[k]? := by
  have hstores : lastWrite (stores size 0 (render ps)) k = (render ps)[k]? := by
    rw [lastWrite, foldl_stores hk]
    split
    · rfl
    · next hout => exact (List.getElem?_eq_none (by omega)).symm
  rw [putPieces_fits ps h, Output.put, Output.terminate, List.nil_append]
  simp only [Nat.zero_add]
  split
  · next hj =>
    rw [lastWrite, List.foldl_append, ← lastWrite, hstores]
    simp only [List.foldl_cons, List.foldl_nil, eq_comm]
  · next hj =>
    rw [hstores, if_neg (by omega)]

/-- The buffer holds the text up to the end, then the terminator, exactly when the numbers fit
and the text either ends before the last byte or has the terminator there itself. -/
theorem vsnprintf_bounded_iff (hsize : size ≠ 0#64) (hps : pieces fmt.chars args = some ps) :
    (∃ out, vsnprintf size fmt args = .ok out ∧
      (∀ w ∈ out.writes, w.1 < size.toNat) ∧
      (∀ k < min (size.toNat - 1) (render ps).length,
        lastWrite out.writes k = (render ps)[k]?) ∧
      lastWrite out.writes (min (size.toNat - 1) (render ps).length) = some 0#8 ∧
      out.j = (render ps).length) ↔
    fmt.chars.length ≤ intMax ∧ (render ps).length ≤ intMax ∧ NumbersFit size.toNat 0 ps ∧
      ((render ps).length < size.toNat ∨ (render ps)[size.toNat - 1]? = some 0#8) := by
  have hpos : 0 < size.toNat := by
    rcases Nat.eq_zero_or_pos size.toNat with h | h
    · exact absurd (BitVec.eq_of_toNat_eq h) hsize
    · exact h
  have hlast : size.toNat - 1 < size.toNat := by omega
  constructor
  · rintro ⟨out, hrun, hlt, -, hnul, -⟩
    obtain ⟨hfmt, hlen, rfl⟩ := (vsnprintf_ok_iff hsize hps).mp hrun
    have hfit := writes_lt_iff.mp hlt
    refine ⟨hfmt, hlen, hfit, ?_⟩
    by_cases hshort : (render ps).length < size.toNat
    · exact Or.inl hshort
    · have hmin : min (size.toNat - 1) (render ps).length = size.toNat - 1 := by omega
      have hne : size.toNat - 1 ≠ (render ps).length := by omega
      rw [hmin, lastWrite_terminate hlast hfit, if_neg hne] at hnul
      exact Or.inr hnul
  · rintro ⟨hfmt, hlen, hfit, hend⟩
    refine ⟨_, (vsnprintf_ok_iff hsize hps).mpr ⟨hfmt, hlen, rfl⟩, writes_lt_iff.mpr hfit,
      ?_, ?_, ?_⟩
    · intro k hk
      rw [lastWrite_terminate (by omega) hfit, if_neg (by omega)]
    · rw [lastWrite_terminate (by omega) hfit]
      by_cases hshort : (render ps).length < size.toNat
      · exact if_pos (by omega)
      · have hmin : min (size.toNat - 1) (render ps).length = size.toNat - 1 := by omega
        rw [hmin, if_neg (by omega)]
        exact hend.resolve_left hshort
    · unfold Output.terminate
      split <;> exact (foldl_add_j ps).trans (Nat.zero_add _)

/-- The serial line's buffer is left exactly by numbers that end past it. -/
theorem outf_bounded_iff (old : Nat → Byte) (hps : pieces fmt.chars args = some ps) :
    (∃ r, Serial.outf old fmt args = .ok r ∧ ∀ w ∈ r.1.writes, w.1 < bufSize) ↔
      fmt.chars.length ≤ intMax ∧ (render ps).length ≤ intMax ∧ NumbersFit bufSize 0 ps := by
  have hrun := fun out => @vsnprintf_ok_iff (BitVec.ofNat 64 bufSize) fmt args ps (by decide) hps out
  constructor
  · rintro ⟨r, hr, hlt⟩
    obtain ⟨out, hout, hr⟩ := bind_ok_iff.mp hr
    obtain ⟨hfmt, hlen, rfl⟩ := (hrun out).mp hout
    cases hr
    exact ⟨hfmt, hlen, writes_lt_iff.mp hlt⟩
  · rintro ⟨hfmt, hlen, hfit⟩
    refine ⟨_, bind_ok_iff.mpr ⟨_, (hrun _).mpr ⟨hfmt, hlen, rfl⟩, rfl⟩, ?_⟩
    exact writes_lt_iff.mpr hfit

/-- What is sent is the rendering, cut off at the size of the buffer. -/
theorem outf_sent_iff (old : Nat → Byte) (hps : pieces fmt.chars args = some ps)
    (hfit : NumbersFit bufSize 0 ps) (hnonzero : ∀ c ∈ render ps, c ≠ 0#8) {sent : List Byte} :
    (∃ out, Serial.outf old fmt args = .ok (out, sent)) ↔
      fmt.chars.length ≤ intMax ∧ (render ps).length ≤ intMax ∧
        sent = (render ps).take bufSize := by
  have hrun := fun out => @vsnprintf_ok_iff (BitVec.ofNat 64 bufSize) fmt args ps (by decide) hps out
  have hbuf : ((List.range bufSize).map fun k =>
      (lastWrite ((ps.foldl (Output.add bufSize) { writes := [], j := 0 }).terminate
        bufSize).writes k).getD (old k)).takeWhile (fun c => c ≠ 0#8) =
        (render ps).take bufSize := by
    refine Bytes.takeWhile_buffer hnonzero (fun k hk hlt => ?_) fun hlt => ?_
    · rw [lastWrite_terminate hk hfit, if_neg (by omega), List.getElem?_eq_getElem hlt]
      rfl
    · rw [lastWrite_terminate hlt hfit, if_pos rfl]
      rfl
  unfold Serial.outf
  constructor
  · rintro ⟨out, h⟩
    obtain ⟨mid, hmid, h⟩ := bind_ok_iff.mp h
    obtain ⟨hfmt, hlen, rfl⟩ := (hrun mid).mp hmid
    cases h
    exact ⟨hfmt, hlen, hbuf⟩
  · rintro ⟨hfmt, hlen, rfl⟩
    rw [← hbuf]
    exact ⟨_, bind_ok_iff.mpr ⟨_, (hrun _).mpr ⟨hfmt, hlen, rfl⟩, rfl⟩⟩

/-- A run on literal characters and the four directives writes inside its buffer, leaves the
rendering cut off before the last byte with the terminator behind it, and returns the
rendering's length, exactly when both indices stay below 2^31, no number ends past the buffer
and the rendering is shorter than the buffer (or has the terminator as that byte itself); and
the serial line's buffer is respected exactly when no number ends past it. -/
theorem vsnprintf_bounded (hsize : size ≠ 0#64) (hps : pieces fmt.chars args = some ps) :
    ((∃ out, vsnprintf size fmt args = .ok out ∧
        (∀ w ∈ out.writes, w.1 < size.toNat) ∧
        (∀ k < min (size.toNat - 1) (render ps).length,
          lastWrite out.writes k = (render ps)[k]?) ∧
        lastWrite out.writes (min (size.toNat - 1) (render ps).length) = some 0#8 ∧
        out.j = (render ps).length) ↔
      fmt.chars.length ≤ intMax ∧ (render ps).length ≤ intMax ∧ NumbersFit size.toNat 0 ps ∧
        ((render ps).length < size.toNat ∨ (render ps)[size.toNat - 1]? = some 0#8)) ∧
    ∀ old,
      ((∃ r, Serial.outf old fmt args = .ok r ∧ ∀ w ∈ r.1.writes, w.1 < bufSize) ↔
        fmt.chars.length ≤ intMax ∧ (render ps).length ≤ intMax ∧ NumbersFit bufSize 0 ps) :=
  ⟨vsnprintf_bounded_iff hsize hps, fun old => outf_bounded_iff old hps⟩

/-- Number `0xf` with a letter before it into eight bytes. -/
theorem vsnprintf_bounded_hex :
    pieces [97#8, 37#8, 120#8] [.word 15#64] = some [.chars [97#8], .hex 15#64] ∧
      ∃ out, vsnprintf 8#64 ⟨[97#8, 37#8, 120#8], by decide⟩ [.word 15#64] = .ok out ∧
        (∀ w ∈ out.writes, w.1 < 8) ∧ out.j = 4 := by
  have hps : pieces [97#8, 37#8, 120#8] [.word 15#64] = some [.chars [97#8], .hex 15#64] := rfl
  have hfit : NumbersFit 8 0 [.chars [97#8], .hex 15#64] := ⟨by decide, trivial⟩
  obtain ⟨out, hrun, hlt, -, -, hj⟩ :=
    (@vsnprintf_bounded 8#64 ⟨[97#8, 37#8, 120#8], by decide⟩ [.word 15#64] _ (by simp) hps).1.mpr
      ⟨by decide, by decide, hfit, Or.inl (by decide)⟩
  exact ⟨hps, out, hrun, hlt, hj⟩

/-- `%x` into a buffer of one byte is stored past it; and the literal `ab` into two bytes
leaves no terminator. -/
theorem vsnprintf_overflow :
    (pieces [37#8, 120#8] [.word 15#64] = some [.hex 15#64] ∧
      ∃ out, vsnprintf 1#64 ⟨[37#8, 120#8], by decide⟩ [.word 15#64] = .ok out ∧
        (1, 120#8) ∈ out.writes) ∧
    ∃ out, vsnprintf 2#64 ⟨[97#8, 98#8], by decide⟩ [] = .ok out ∧
      lastWrite out.writes 1 = some 98#8 := by
  refine ⟨⟨rfl, _, rfl, ?_⟩, _, rfl, rfl⟩
  exact List.mem_cons_of_mem _ List.mem_cons_self

end

end Mavmm
