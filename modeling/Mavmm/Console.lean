import Mathlib.Logic.Function.Basic
import Mavmm.Printf
import Mavmm.StringOps

/-!
# The text screen (printf.c)

`putstr` writes into the video memory, two bytes to a cell, and scrolls when the
cursor leaves the last line.  The screen is a window on an endless sheet: what
is printed goes to the sheet, and the window follows the cursor down
(`screen_shows_sheet`).
-/

namespace Mavmm

/-! ## The code -/

def videoMem : Addr := 0xb8000#64
def cols : Nat := 80
def lines : Nat := 25

/-- The memory, and `scr_info`. -/
structure Console where
  mem : Mem
  origX : Nat
  origY : Nat

/-- `&VIDEO_MEM [i]`. -/
def videoAt (i : Nat) : Addr := videoMem + BitVec.ofNat 64 i

def newlineChar : Byte := 10#8
def spaceChar : Byte := 32#8

/-- `clear_screen`; a cell has two bytes, so this is not the whole screen. -/
def clearScreen (c : Console) : Console where
  mem := c.mem.fill videoMem (cols * lines) 0#8
  origX := 0
  origY := 0

/-- `scroll`; the loop is over every other byte of the last line. -/
def scroll (m : Mem) : Mem :=
  let m := memmove videoMem (videoAt (cols * 2)) (BitVec.ofNat 64 ((lines - 1) * cols * 2)) m
  (List.range cols).foldl
    (fun m k => Function.update m (videoAt ((lines - 1) * cols * 2 + 2 * k)) spaceChar) m

/-- `x = 0`, and `y` goes to the next line. -/
def lineFeed (c : Console) : Console :=
  if c.origY + 1 ≥ lines then { mem := scroll c.mem, origX := 0, origY := c.origY + 1 - 1 }
  else { c with origX := 0, origY := c.origY + 1 }

/-- `VIDEO_MEM [(x + COLS * y) * 2] = c`. -/
def storeCell (c : Console) (ch : Byte) : Console :=
  { c with mem := Function.update c.mem (videoAt ((c.origX + cols * c.origY) * 2)) ch }

/-- One turn of the loop of `putstr`. -/
def putstrChar (c : Console) (ch : Byte) : Console :=
  if ch = newlineChar then lineFeed c
  else
    let c := storeCell c ch
    if c.origX + 1 ≥ cols then lineFeed c else { c with origX := c.origX + 1 }

def putstr (s : CString) (c : Console) : Console := s.chars.foldl putstrChar c

/-- A call that writes to the screen. -/
inductive ScreenCall where
  | putstr (s : CString)
  | clearScreen

def ScreenCall.run (c : Console) : ScreenCall → Console
  | .putstr s => Mavmm.putstr s c
  | .clearScreen => Mavmm.clearScreen c

/-! ## The sheet -/

/-- An endless sheet of rows of `cols` cells, and the cursor. -/
structure Sheet where
  row : Nat
  col : Nat
  glyph : Nat → Nat → Byte
  attr : Nat → Nat → Byte

namespace Sheet

/-- The sheet's row at the top of the window. -/
def top (s : Sheet) : Nat := s.row - (lines - 1)

def newline (s : Sheet) : Sheet := { s with row := s.row + 1, col := 0 }

/-- A character in the cell under the cursor. -/
def write (s : Sheet) (ch : Byte) : Sheet :=
  { s with glyph := fun r x => if r = s.row ∧ x = s.col then ch else s.glyph r x }

def put (s : Sheet) (ch : Byte) : Sheet :=
  if ch = newlineChar then s.newline
  else
    let s := s.write ch
    if s.col + 1 ≥ cols then s.newline else { s with col := s.col + 1 }

/-- A new sheet with what the window shows, but for the cells whose two bytes are among the first
`cols * lines` of the video memory. -/
def clear (s : Sheet) : Sheet where
  row := 0
  col := 0
  glyph r x :=
    if lines ≤ r then spaceChar
    else if (x + cols * r) * 2 < cols * lines then 0#8 else s.glyph (s.top + r) x
  attr r x :=
    let y := min r (lines - 1)
    if (x + cols * y) * 2 + 1 < cols * lines then 0#8 else s.attr (s.top + y) x

def call (s : Sheet) : ScreenCall → Sheet
  | .putstr str => str.chars.foldl put s
  | .clearScreen => s.clear

end Sheet

/-- The window of the console shows the sheet; what is below has not been written to. -/
structure Shows (c : Console) (s : Sheet) : Prop where
  row : c.origY = s.row - s.top
  col : c.origX = s.col
  inLine : s.col < cols
  glyphs : ∀ y < lines, ∀ x < cols, c.mem (videoAt ((x + cols * y) * 2)) = s.glyph (s.top + y) x
  attrs : ∀ y < lines, ∀ x < cols,
    c.mem (videoAt ((x + cols * y) * 2 + 1)) = s.attr (s.top + y) x
  blank : ∀ r, s.top + lines ≤ r → ∀ x, s.glyph r x = spaceChar
  plain : ∀ r, s.top + (lines - 1) ≤ r → ∀ x, s.attr r x = s.attr (s.top + (lines - 1)) x

/-! ## One call -/

section
variable {m : Mem} {c : Console} {s : Sheet} {ch : Byte} {i j : Nat}

theorem videoAt_sub (hi : i < 2 ^ 64) : (videoAt i - videoMem).toNat = i :=
  Mem.toNat_add_ofNat_sub videoMem hi

theorem videoAt_inj (hi : i < 2 ^ 64) (hj : j < 2 ^ 64) : videoAt i = videoAt j ↔ i = j := by
  constructor
  · intro h
    rw [← videoAt_sub hi, h, videoAt_sub hj]
  · rintro rfl
    rfl

theorem foldl_update (f : Nat → Addr) (v : Byte) (n : Nat) (a : Addr) :
    (List.range n).foldl (fun m k => Function.update m (f k) v) m a =
      if ∃ k < n, a = f k then v else m a := by
  induction n with
  | zero => simp
  | succ n ih =>
    rw [List.range_succ, List.foldl_append, List.foldl_cons, List.foldl_nil]
    by_cases ha : a = f n
    · rw [ha, Function.update_self, if_pos ⟨n, Nat.lt_succ_self n, rfl⟩]
    · rw [Function.update_of_ne ha, ih]
      have hiff : (∃ k < n, a = f k) ↔ ∃ k < n + 1, a = f k := by
        constructor
        · rintro ⟨k, hk, h⟩
          exact ⟨k, Nat.lt_succ_of_lt hk, h⟩
        · rintro ⟨k, hk, h⟩
          have hne : k ≠ n := by
            rintro rfl
            exact ha h
          exact ⟨k, by omega, h⟩
      simp only [hiff]

/-- The copy of `scroll`. -/
theorem scroll_memmove :
    memmove videoMem (videoAt (cols * 2)) (BitVec.ofNat 64 ((lines - 1) * cols * 2)) m =
      m.moved videoMem (videoAt (cols * 2)) ((lines - 1) * cols * 2) :=
  memmove_eq_moved (by decide) (by decide)

/-- Each byte of the lines above the last comes from the line below it; of the last line every
other byte is overwritten. -/
theorem scroll_videoAt (hi : i < lines * cols * 2) :
    scroll m (videoAt i) =
      if i < (lines - 1) * cols * 2 then m (videoAt (i + cols * 2))
      else if i % 2 = 0 then spaceChar else m (videoAt i) := by
  have hsub := @videoAt_sub i (by unfold lines cols at hi; omega)
  unfold scroll
  rw [scroll_memmove, foldl_update]
  have hlast : (∃ k < cols, videoAt i = videoAt ((lines - 1) * cols * 2 + 2 * k)) ↔
      (lines - 1) * cols * 2 ≤ i ∧ i % 2 = 0 := by
    unfold lines cols at hi ⊢
    constructor
    · rintro ⟨k, hk, h⟩
      rw [videoAt_inj (by omega) (by omega)] at h
      omega
    · rintro ⟨hle, heven⟩
      refine ⟨(i - 3840) / 2, by omega, ?_⟩
      congr 1
      omega
  simp only [hlast]
  by_cases hlow : i < (lines - 1) * cols * 2
  · rw [if_pos hlow, if_neg fun h => Nat.not_le.mpr hlow h.1, Mem.moved_inside (by rwa [hsub])]
    congr 1
    unfold videoAt
    rw [BitVec.add_comm videoMem (BitVec.ofNat 64 i), BitVec.add_sub_cancel, BitVec.add_assoc,
      ← BitVec.ofNat_add, Nat.add_comm]
  · have hle := Nat.le_of_not_lt hlow
    rw [if_neg hlow, Mem.moved_outside (by rwa [hsub])]
    simp only [hle, true_and]

/-- Nothing else changes. -/
theorem scroll_outside {a : Addr} (ha : lines * cols * 2 ≤ (a - videoMem).toNat) :
    scroll m a = m a := by
  unfold scroll
  rw [scroll_memmove, foldl_update, if_neg, Mem.moved_outside]
  · unfold lines cols at ha ⊢
    omega
  · rintro ⟨k, hk, rfl⟩
    unfold cols at hk
    unfold lines cols at ha
    rw [videoAt_sub (by omega)] at ha
    omega

theorem top_newline (hrow : lines - 1 ≤ s.row) : s.newline.top = s.top + 1 := by
  change s.row + 1 - (lines - 1) = s.row - (lines - 1) + 1
  omega

theorem shows_scroll (h : Shows c s) (hrow : lines - 1 ≤ s.row) :
    Shows { mem := scroll c.mem, origX := 0, origY := lines - 1 } s.newline where
  row := by
    change lines - 1 = s.row + 1 - (s.row + 1 - (lines - 1))
    omega
  col := rfl
  inLine := show 0 < cols by decide
  glyphs y hy x hx := by
    change scroll c.mem _ = s.glyph _ x
    rw [top_newline hrow, scroll_videoAt (by unfold lines cols at *; omega)]
    by_cases hlast : y < lines - 1
    · rw [if_pos (by unfold lines cols at *; omega), Nat.add_assoc s.top, Nat.add_comm 1 y,
        ← h.glyphs (y + 1) (by omega) x hx]
      congr 2
      unfold cols
      omega
    · rw [if_neg (by unfold lines cols at *; omega), if_pos (by omega)]
      exact (h.blank _ (by omega) x).symm
  attrs y hy x hx := by
    change scroll c.mem _ = s.attr _ x
    rw [top_newline hrow, scroll_videoAt (by unfold lines cols at *; omega)]
    by_cases hlast : y < lines - 1
    · rw [if_pos (by unfold lines cols at *; omega), Nat.add_assoc s.top, Nat.add_comm 1 y,
        ← h.attrs (y + 1) (by omega) x hx]
      congr 2
      unfold cols
      omega
    · rw [if_neg (by unfold lines cols at *; omega), if_neg (by omega), h.attrs y hy x hx,
        h.plain (s.top + 1 + y) (by omega), h.plain (s.top + y) (by omega)]
  blank r hr x := by
    rw [top_newline hrow] at hr
    exact h.blank r (by omega) x
  plain r hr x := by
    rw [top_newline hrow] at hr ⊢
    change s.attr r x = s.attr _ x
    rw [h.plain r (by omega), h.plain (s.top + 1 + (lines - 1)) (by omega)]

/-- The cursor goes down within the window. -/
theorem shows_down (h : Shows c s) (hrow : s.row < lines - 1) :
    Shows { c with origX := 0, origY := c.origY + 1 } s.newline := by
  have htop : s.newline.top = s.top := by
    change s.row + 1 - (lines - 1) = s.row - (lines - 1)
    omega
  have hy := h.row
  refine ⟨?_, rfl, show 0 < cols by decide, ?_, ?_, ?_, ?_⟩
  · rw [htop]
    change c.origY + 1 = s.row + 1 - s.top
    unfold Sheet.top at hy ⊢
    omega
  · rw [htop]
    exact h.glyphs
  · rw [htop]
    exact h.attrs
  · rw [htop]
    exact h.blank
  · rw [htop]
    exact h.plain

theorem shows_lineFeed (h : Shows c s) : Shows (lineFeed c) s.newline := by
  have hy := h.row
  unfold Sheet.top at hy
  unfold lineFeed
  split
  · next hend =>
    have hlast : c.origY + 1 - 1 = lines - 1 := by omega
    rw [hlast]
    exact shows_scroll h (by omega)
  · exact shows_down h (by omega)

/-- The cursor is in the window. -/
theorem Shows.cursor (h : Shows c s) : c.origY < lines ∧ s.top + c.origY = s.row := by
  have hy := h.row
  unfold Sheet.top at hy ⊢
  unfold lines at *
  omega

theorem shows_storeCell (h : Shows c s) : Shows (storeCell c ch) (s.write ch) where
  row := h.row
  col := h.col
  inLine := h.inLine
  glyphs y hy x hx := by
    obtain ⟨hline, hrow⟩ := h.cursor
    have hcol := h.col
    have hin := h.inLine
    change Function.update c.mem _ ch _ = if s.top + y = s.row ∧ x = s.col then ch else _
    by_cases hsame : y = c.origY ∧ x = c.origX
    · obtain ⟨rfl, rfl⟩ := hsame
      rw [Function.update_self, if_pos ⟨hrow, hcol⟩]
    · rw [if_neg fun h => hsame ⟨by omega, by omega⟩, Function.update_of_ne]
      · exact h.glyphs y hy x hx
      · rw [ne_eq, videoAt_inj (by unfold lines cols at *; omega)
          (by unfold lines cols at *; omega)]
        unfold cols at *
        omega
  attrs y hy x hx := by
    obtain ⟨hline, -⟩ := h.cursor
    have hcol := h.col
    have hin := h.inLine
    change Function.update c.mem _ ch _ = s.attr (s.top + y) x
    rw [Function.update_of_ne]
    · exact h.attrs y hy x hx
    · rw [ne_eq, videoAt_inj (by unfold lines cols at *; omega) (by unfold lines cols at *; omega)]
      omega
  blank r hr x := by
    obtain ⟨hline, hrow⟩ := h.cursor
    change s.top + lines ≤ r at hr
    change (if r = s.row ∧ x = s.col then ch else s.glyph r x) = spaceChar
    rw [if_neg fun h => by omega]
    exact h.blank r hr x
  plain := h.plain

theorem shows_putstrChar (h : Shows c s) : Shows (putstrChar c ch) (s.put ch) := by
  unfold putstrChar Sheet.put
  split
  · exact shows_lineFeed h
  have hstore := @shows_storeCell c s ch h
  have hcol := hstore.col
  dsimp only
  rw [hcol]
  split
  · exact shows_lineFeed hstore
  · next hlast =>
    exact ⟨hstore.row, rfl, Nat.lt_of_not_le hlast, hstore.glyphs, hstore.attrs, hstore.blank,
      hstore.plain⟩

theorem shows_putstr (str : CString) (h : Shows c s) :
    Shows (putstr str c) (str.chars.foldl Sheet.put s) := by
  unfold putstr
  induction str.chars generalizing c s with
  | nil => exact h
  | cons ch chars ih => exact ih (shows_putstrChar h)

theorem clearScreen_videoAt (hi : i < 2 ^ 64) :
    (clearScreen c).mem (videoAt i) = if i < cols * lines then 0#8 else c.mem (videoAt i) := by
  change (if (videoAt i - videoMem).toNat < cols * lines then 0#8 else c.mem (videoAt i)) = _
  rw [videoAt_sub hi]

theorem shows_clearScreen (h : Shows c s) : Shows (clearScreen c) s.clear where
  row := rfl
  col := rfl
  inLine := show 0 < cols by decide
  glyphs y hy x hx := by
    rw [clearScreen_videoAt (by unfold lines cols at *; omega), h.glyphs y hy x hx,
      show s.clear.top + y = y from Nat.zero_add y]
    unfold Sheet.clear
    dsimp only
    rw [if_neg (Nat.not_le.mpr hy)]
  attrs y hy x hx := by
    rw [clearScreen_videoAt (by unfold lines cols at *; omega), h.attrs y hy x hx,
      show s.clear.top + y = y from Nat.zero_add y]
    unfold Sheet.clear
    dsimp only
    rw [Nat.min_eq_left (Nat.le_sub_one_of_lt hy)]
  blank r hr x := by
    rw [show s.clear.top + lines = lines from Nat.zero_add _] at hr
    exact if_pos hr
  plain r hr x := by
    rw [show s.clear.top + (lines - 1) = lines - 1 from Nat.zero_add _] at hr ⊢
    unfold Sheet.clear
    dsimp only
    rw [Nat.min_eq_right hr, Nat.min_self]

theorem shows_run (call : ScreenCall) (h : Shows c s) : Shows (call.run c) (s.call call) := by
  cases call with
  | putstr str => exact shows_putstr str h
  | clearScreen => exact shows_clearScreen h

/-! ## The memory around the screen -/

/-- The two memories differ in the bytes of the screen at most. -/
def SameOutside (m m' : Mem) : Prop := ∀ a, lines * cols * 2 ≤ (a - videoMem).toNat → m' a = m a

theorem SameOutside.trans {m m' m'' : Mem} (h : SameOutside m m') (h' : SameOutside m' m'') :
    SameOutside m m'' := fun a ha => (h' a ha).trans (h a ha)

theorem sameOutside_lineFeed : SameOutside c.mem (lineFeed c).mem := by
  unfold lineFeed
  split
  · exact fun a ha => scroll_outside ha
  · exact fun a _ => rfl

/-- The cursor is in the window, so the cell is one of the screen. -/
theorem sameOutside_storeCell (h : Shows c s) : SameOutside c.mem (storeCell c ch).mem := by
  intro a ha
  have hline := h.cursor.1
  have hcol := h.col
  have hin := h.inLine
  refine Function.update_of_ne ?_ _ _
  rintro rfl
  rw [videoAt_sub (by unfold lines cols at *; omega)] at ha
  unfold lines cols at *
  omega

theorem sameOutside_putstrChar (h : Shows c s) : SameOutside c.mem (putstrChar c ch).mem := by
  unfold putstrChar
  split
  · exact sameOutside_lineFeed
  dsimp only
  split
  · exact (sameOutside_storeCell h).trans sameOutside_lineFeed
  · exact sameOutside_storeCell h

theorem sameOutside_putstr (str : CString) (h : Shows c s) :
    SameOutside c.mem (putstr str c).mem := by
  unfold putstr
  induction str.chars generalizing c s with
  | nil => exact fun a _ => rfl
  | cons ch chars ih => exact (sameOutside_putstrChar h).trans (ih (shows_putstrChar h))

theorem sameOutside_run (call : ScreenCall) (h : Shows c s) :
    SameOutside c.mem (call.run c).mem := by
  cases call with
  | putstr str => exact sameOutside_putstr str h
  | clearScreen =>
    intro a ha
    exact if_neg (by unfold lines cols at *; omega)

/-! ## Any calls -/

/-- The sheet of which the console shows the first lines. -/
def Console.sheet (c : Console) : Sheet where
  row := c.origY
  col := c.origX
  glyph r x := if lines ≤ r then spaceChar else c.mem (videoAt ((x + cols * r) * 2))
  attr r x := c.mem (videoAt ((x + cols * min r (lines - 1)) * 2 + 1))

theorem shows_sheet (hx : c.origX < cols) (hy : c.origY < lines) : Shows c c.sheet := by
  have htop : c.sheet.top = 0 := by
    change c.origY - (lines - 1) = 0
    omega
  refine ⟨?_, rfl, hx, ?_, ?_, ?_, ?_⟩
  · rw [htop]
    rfl
  · intro y hy x _
    rw [htop, Nat.zero_add]
    exact (if_neg (Nat.not_le.mpr hy)).symm
  · intro y hy x _
    rw [htop, Nat.zero_add]
    unfold Console.sheet
    dsimp only
    rw [Nat.min_eq_left (Nat.le_sub_one_of_lt hy)]
  · intro r hr x
    rw [htop, Nat.zero_add] at hr
    exact if_pos hr
  · intro r hr x
    rw [htop, Nat.zero_add] at hr ⊢
    unfold Console.sheet
    dsimp only
    rw [Nat.min_eq_right hr, Nat.min_self]

/-- After any calls the screen shows the lines of the sheet around the cursor, as if all that was
printed had gone to the sheet, and no byte but those of the screen has changed. -/
theorem screen_shows_sheet (hx : c.origX < cols) (hy : c.origY < lines)
    (calls : List ScreenCall) :
    Shows (calls.foldl ScreenCall.run c) (calls.foldl Sheet.call c.sheet) ∧
      SameOutside c.mem (calls.foldl ScreenCall.run c).mem := by
  have hrun : ∀ {c : Console} {s : Sheet}, Shows c s →
      Shows (calls.foldl ScreenCall.run c) (calls.foldl Sheet.call s) ∧
        SameOutside c.mem (calls.foldl ScreenCall.run c).mem := by
    induction calls with
    | nil => exact fun h => ⟨h, fun a _ => rfl⟩
    | cons call calls ih =>
      intro c s h
      obtain ⟨hshows, hsame⟩ := ih (shows_run call h)
      exact ⟨hshows, (sameOutside_run call h).trans hsame⟩
  exact hrun (shows_sheet hx hy)

end

theorem screen_shows_sheet_hello :
    let c : Console := { mem := fun _ => 0#8, origX := 78, origY := 24 }
    let calls := [.putstr ⟨[0x68#8, 0x69#8, 0x21#8, 10#8], by decide⟩, .clearScreen]
    Shows (calls.foldl ScreenCall.run c) (calls.foldl Sheet.call c.sheet) ∧
      SameOutside c.mem (calls.foldl ScreenCall.run c).mem :=
  screen_shows_sheet (by decide) (by decide) _

end Mavmm
