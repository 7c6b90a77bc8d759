import Mathlib.Tactic.SplitIfs
import Mavmm.PrintfSpec

/-!
# Reading hexadecimal output back

`parseHex` reads a prefixed number in lowercase digits.  The text that `%x`
renders is read as the number it was rendered from, and its characters are
stored at consecutive offsets: the index moves by as many places as `number`
stores, so the next directive starts where the last one ended.
-/

namespace Mavmm

/-! ## Reading digits -/

/-- The value of a lowercase hexadecimal digit. -/
def hexDigitValue (c : Byte) : Option Nat :=
  if 48 ≤ c.toNat ∧ c.toNat ≤ 57 then some (c.toNat - 48)
  else if 97 ≤ c.toNat ∧ c.toNat ≤ 102 then some (c.toNat - 87)
  else none

/-- The digits of `s` after digits with the value `acc`. -/
def parseDigits : (acc : Nat) → List Byte → Option Nat
  | acc, [] => some acc
  | acc, c :: s => do parseDigits (16 * acc + (← hexDigitValue c)) s

/-- A number behind the prefix `0x`, with at least one digit. -/
def parseHex : List Byte → Option Nat
  | 48#8 :: 120#8 :: c :: s => parseDigits 0 (c :: s)
  | _ => none

theorem parseDigits_append (s t : List Byte) :
    ∀ acc, parseDigits acc (s ++ t) = (parseDigits acc s).bind fun n => parseDigits n t := by
  induction s with
  | nil => exact fun _ => rfl
  | cons c s ih =>
    intro acc
    rw [List.cons_append, parseDigits, parseDigits]
    cases hexDigitValue c with
    | none => rfl
    | some d => exact ih _

/-! ## Rendered digits -/

theorem hexDigitValue_digitChar {d : Nat} (hd : d < 16) :
    hexDigitValue (BitVec.ofNat 8 (Nat.digitChar d).toNat) = some d := by
  have htable : ∀ d < 16, hexDigitValue (BitVec.ofNat 8 (Nat.digitChar d).toNat) = some d := by
    decide
  exact htable d hd

theorem hexText_of_lt {n : Nat} (hn : n < 16) :
    hexText n = [BitVec.ofNat 8 (Nat.digitChar n).toNat] := by
  rw [hexText, Nat.toDigits_of_lt_base hn]
  rfl

theorem hexText_of_le {n : Nat} (hn : 16 ≤ n) :
    hexText n = hexText (n / 16) ++ [BitVec.ofNat 8 (Nat.digitChar (n % 16)).toNat] := by
  rw [hexText, Nat.toDigits_eq_if (by omega), if_neg (by omega), List.map_append]
  rfl

theorem hexText_ne_nil (n : Nat) : hexText n ≠ [] := by
  by_cases hn : n < 16
  · rw [hexText_of_lt hn]
    exact List.cons_ne_nil _ _
  · rw [hexText_of_le (by omega)]
    exact List.append_ne_nil_of_right_ne_nil _ (List.cons_ne_nil _ _)

theorem parseDigits_hexText (n : Nat) : parseDigits 0 (hexText n) = some n := by
  induction n using Nat.strongRecOn with
  | ind n ih =>
    by_cases hn : n < 16
    · rw [hexText_of_lt hn, parseDigits, hexDigitValue_digitChar hn]
      simp only [Option.bind_eq_bind, Option.bind_some, parseDigits, Nat.mul_zero, Nat.zero_add]
    · have hdigit := hexDigitValue_digitChar (Nat.mod_lt n (by omega : 0 < 16))
      have hsum : 16 * (n / 16) + n % 16 = n := Nat.div_add_mod n 16
      rw [hexText_of_le (by omega), parseDigits_append, ih (n / 16) (by omega)]
      simp only [Option.bind_some, parseDigits, hdigit, Option.bind_eq_bind, hsum]

/-- Every character of the text is a lowercase digit. -/
theorem isSome_hexDigitValue {n : Nat} : ∀ c ∈ hexText n, (hexDigitValue c).isSome := by
  induction n using Nat.strongRecOn with
  | ind n ih =>
    intro c hc
    by_cases hn : n < 16
    · rw [hexText_of_lt hn, List.mem_singleton] at hc
      rw [hc, hexDigitValue_digitChar hn]
      rfl
    · rw [hexText_of_le (by omega)] at hc
      rcases List.mem_append.mp hc with hc | hc
      · exact ih (n / 16) (by omega) c hc
      · rw [List.mem_singleton.mp hc, hexDigitValue_digitChar (Nat.mod_lt n (by omega))]
        rfl

/-- A number other than zero does not start with the digit zero. -/
theorem head_hexText {n : Nat} (hn : n ≠ 0) : (hexText n).head? ≠ some 48#8 := by
  induction n using Nat.strongRecOn with
  | ind n ih =>
    by_cases hlt : n < 16
    · have htable : ∀ d < 16, d ≠ 0 → BitVec.ofNat 8 (Nat.digitChar d).toNat ≠ 48#8 := by decide
      rw [hexText_of_lt hlt]
      exact fun h => htable n hlt hn (Option.some.inj h)
    · obtain ⟨c, s, hs⟩ := List.exists_cons_of_ne_nil (hexText_ne_nil (n / 16))
      have hhead := ih (n / 16) (by omega) (by omega)
      rw [hs] at hhead
      rw [hexText_of_le (by omega), hs]
      exact hhead

theorem length_digitLoop (turns : Nat) : ∀ n, (digitLoop turns n).length ≤ turns := by
  induction turns with
  | zero => exact fun _ => Nat.le_refl 0
  | succ turns ih =>
    intro n
    rw [digitLoop, List.length_cons]
    split
    · exact Nat.succ_le_succ (Nat.zero_le turns)
    · exact Nat.succ_le_succ (ih _)

theorem length_hexDigits (w : BitVec 64) :
    1 ≤ (hexDigits w).length ∧ (hexDigits w).length ≤ 16 := by
  constructor
  · rw [hexDigits_eq]
    exact List.length_pos_iff.mpr (hexText_ne_nil _)
  · rw [hexDigits, List.length_reverse]
    exact length_digitLoop 16 w

theorem parseHex_text (w : BitVec 64) : parseHex (Piece.hex w).text = some w.toNat := by
  have hparse := parseDigits_hexText w.toNat
  rw [Piece.text]
  cases htext : hexText w.toNat with
  | nil => exact absurd htext (hexText_ne_nil _)
  | cons c s =>
    rw [htext] at hparse
    exact hparse

/-! ## Consecutive stores -/

/-- Text that fits is stored at consecutive offsets, each character once. -/
theorem stores_eq_zip {size : Nat} (text : List Byte) :
    ∀ {j : Nat}, j + text.length ≤ size →
      stores size j text = (List.range' j text.length).zip text := by
  induction text with
  | nil => exact fun _ => rfl
  | cons c text ih =>
    intro j h
    rw [List.length_cons] at h
    rw [stores, if_pos (by omega), ih (by omega), List.length_cons, List.range'_succ,
      List.zip_cons_cons]
    rfl

/-- The format that is a run of `n` directives `%x`. -/
def hexFormat (n : Nat) : List Byte := (List.replicate n [37#8, 120#8]).flatten

theorem pieces_hexFormat (ws : List (BitVec 64)) :
    pieces (hexFormat ws.length) (ws.map .word) = some (ws.map .hex) := by
  induction ws with
  | nil => rfl
  | cons w ws ih =>
    have hformat : hexFormat (w :: ws).length = 37#8 :: 120#8 :: hexFormat ws.length := rfl
    rw [hformat, pieces.eq_def, List.map_cons]
    simp only [ne_eq, not_true_eq_false, if_false]
    change ((pieces (hexFormat ws.length) (ws.map .word)) >>= fun ps => some (Piece.hex w :: ps)) = _
    rw [ih]
    rfl

theorem numbersFit_hex {size : Nat} (ws : List (BitVec 64)) :
    ∀ {j : Nat}, j + (render (ws.map .hex)).length ≤ size → NumbersFit size j (ws.map .hex) := by
  induction ws with
  | nil => exact fun _ => trivial
  | cons w ws ih =>
    intro j h
    rw [List.map_cons, render_cons, List.length_append] at h
    exact ⟨by omega, ih (by omega)⟩

/-! ## The round trip -/

/-- What `%x` renders. -/
def hexRendering (n : BitVec 64) : List Byte := 48#8 :: 120#8 :: hexDigits n

/-- `out'` has `text` stored after `out`, one character at each offset from the index on, and
the index behind the last of them. -/
structure Prints (out : Output) (text : List Byte) (out' : Output) : Prop where
  writes : out'.writes = out.writes ++ (List.range' out.j text.length).zip text
  index : out'.j = out.j + text.length

theorem render_hex (ws : List (BitVec 64)) : render (ws.map .hex) = ws.flatMap hexRendering := by
  have htext : (fun w => (Piece.hex w).text) = hexRendering := funext text_hex
  rw [render, List.flatMap_map, htext]

theorem prints_put {size : Nat} {out out' : Output} {text : List Byte}
    (h : out.j + text.length ≤ size) : Prints out text out' ↔ out' = out.put size text := by
  constructor
  · rintro ⟨hwrites, hindex⟩
    rw [Output.put, stores_eq_zip text h, ← hwrites, ← hindex]
  · rintro rfl
    exact ⟨by rw [Output.put, stores_eq_zip text h], rfl⟩

theorem putNumber_prints {size : Nat} {n : BitVec 64} {out out' : Output}
    (h : out.j + (hexRendering n).length ≤ size) :
    putNumber size n out = .ok out' ↔
      out.j + (hexRendering n).length ≤ intMax ∧ Prints out (hexRendering n) out' := by
  rw [hexRendering, ← text_hex] at h ⊢
  rw [putNumber_ok_iff, prints_put h, Output.add, numberWrites_eq_stores h, Output.put]

theorem formatLoop_prints {size i : Nat} {ws : List (BitVec 64)} {out out' : Output}
    (hi : i ≤ intMax) (hj : out.j ≤ intMax)
    (h : out.j + (ws.flatMap hexRendering).length ≤ size) :
    formatLoop size (hexFormat ws.length) i (ws.map .word) out = .ok out' ↔
      i + (hexFormat ws.length).length ≤ intMax ∧
        out.j + (ws.flatMap hexRendering).length ≤ intMax ∧
          Prints out (ws.flatMap hexRendering) out' := by
  rw [formatLoop_ok_iff _ _ (pieces_hexFormat ws) hi hj, prints_put h]
  rw [← render_hex] at h ⊢
  rw [putPieces_fits _ (numbersFit_hex ws h)]

/-- A number is rendered behind `0x` in one to sixteen lowercase digits, without a leading zero
unless it is zero, that read as the number; its characters take consecutive offsets, and so do
those of a run of `%x` directives, as long as they fit and neither index leaves `int`. -/
theorem hex_round_trip (n : BitVec 64) :
    (1 ≤ (hexDigits n).length ∧ (hexDigits n).length ≤ 16 ∧
      (∀ c ∈ hexDigits n, (hexDigitValue c).isSome) ∧
      ((hexDigits n).head? = some 48#8 → n = 0#64 ∧ hexDigits n = [48#8]) ∧
      parseHex (hexRendering n) = some n.toNat) ∧
    (∀ {size : Nat} {out out' : Output}, out.j + (hexRendering n).length ≤ size →
      (putNumber size n out = .ok out' ↔
        out.j + (hexRendering n).length ≤ intMax ∧ Prints out (hexRendering n) out')) ∧
    ∀ {size i : Nat} {ws : List (BitVec 64)} {out out' : Output}, i ≤ intMax → out.j ≤ intMax →
      out.j + (ws.flatMap hexRendering).length ≤ size →
      (formatLoop size (hexFormat ws.length) i (ws.map .word) out = .ok out' ↔
        i + (hexFormat ws.length).length ≤ intMax ∧
          out.j + (ws.flatMap hexRendering).length ≤ intMax ∧
            Prints out (ws.flatMap hexRendering) out') := by
  obtain ⟨hpos, hle⟩ := length_hexDigits n
  refine ⟨⟨hpos, hle, ?_, ?_, ?_⟩, putNumber_prints, formatLoop_prints⟩
  · rw [hexDigits_eq]
    exact isSome_hexDigitValue
  · intro hhead
    have hzero : n.toNat = 0 := Decidable.byContradiction fun hn =>
      head_hexText hn (hexDigits_eq n ▸ hhead)
    obtain rfl : n = 0#64 := BitVec.eq_of_toNat_eq hzero
    exact ⟨rfl, rfl⟩
  · rw [hexRendering, ← text_hex]
    exact parseHex_text n

/-- `%x%x` with `0xbeef` and zero, into twelve bytes. -/
theorem hex_round_trip_beef :
    parseHex (hexRendering 0xbeef#64) = some 0xbeef ∧
      ∃ out, formatLoop 12 (hexFormat 2) 0 [.word 0xbeef#64, .word 0#64]
          { writes := [], j := 0 } = .ok out ∧ out.j = 9 := by
  obtain ⟨⟨-, -, -, -, hparse⟩, -, hrun⟩ := hex_round_trip 0xbeef#64
  have hprints : Prints { writes := [], j := 0 }
      ([0xbeef#64, 0#64].flatMap hexRendering) (Output.put 12
        ([0xbeef#64, 0#64].flatMap hexRendering) { writes := [], j := 0 }) :=
    (prints_put (by decide)).mpr rfl
  exact ⟨hparse, _, (@hrun 12 0 [0xbeef#64, 0#64] _ _ (by decide) (by decide) (by decide)).mpr
    ⟨by decide, by decide, hprints⟩, rfl⟩

end Mavmm
