import Mavmm.Failure
import Mavmm.Lib.Memory

/-!
# Formatted output (printf.c, serial.c)

`vsnprintf` with its stores into the buffer recorded one by one, in order, as
offsets and bytes.  The output index is an `int`: moving it past `INT_MAX` is
undefined behaviour, and so is a directive without a matching argument.
-/

namespace Mavmm

/-- A NUL-terminated string. -/
structure CString where
  chars : List Byte
  nonzero : ∀ c ∈ chars, c ≠ 0#8

/-- An argument after the format: a machine word, or a pointer to a string. -/
inductive FmtArg where
  | word (w : BitVec 64)
  | str (s : CString)

/-- The stores into `buf`, and the output index `j`. -/
structure Output where
  writes : List (Nat × Byte)
  j : Nat

def intMax : Nat := 2 ^ 31 - 1

/-- `i + n` as an `int`. -/
def addInt (i n : Nat) : Except Fault Nat :=
  if i + n ≤ intMax then .ok (i + n) else .error .undefinedBehaviour

/-- `PUT_CHAR`. -/
def putChar (size : Nat) (c : Byte) (out : Output) : Except Fault Output := do
  let writes := if out.j < size then out.writes ++ [(out.j, c)] else out.writes
  return { writes, j := ← addInt out.j 1 }

/-- The `DIGITS` table. -/
def digit (n : BitVec 64) : Byte :=
  BitVec.ofNat 8 (if n.toNat % 16 < 10 then 48 + n.toNat % 16 else 87 + n.toNat % 16)

/-- The loop that fills `tmp`, least significant digit first; 16 turns empty the word. -/
def digitLoop : (turns : Nat) → BitVec 64 → List Byte
  | 0, _ => []
  | turns + 1, n =>
    digit n :: if n >>> 4 = 0#64 then [] else digitLoop turns (n >>> 4)

/-- The digits of `num` as they are printed. -/
def hexDigits (num : BitVec 64) : List Byte := (digitLoop 16 num).reverse

/-- The stores of `number`: the prefix is not guarded, and the guard of a digit looks at a
position two below the one it stores to. -/
def numberWrites (size j : Nat) (digits : List Byte) : List (Nat × Byte) :=
  (j, 48#8) :: (j + 1, 120#8) ::
    (digits.zipIdx.filter fun d => j + d.2 < size).map fun d => (j + 2 + d.2, d.1)

/-- `j += number (buf, size, j, num)`. -/
def putNumber (size : Nat) (num : BitVec 64) (out : Output) : Except Fault Output := do
  let digits := hexDigits num
  return { writes := out.writes ++ numberWrites size out.j digits
           j := ← addInt out.j (digits.length + 2) }

/-- The loop over a string argument; its index never passes `j`. -/
def putString (size : Nat) : List Byte → Output → Except Fault Output
  | [], out => .ok out
  | c :: s, out => do putString size s (← putChar size c out)

/-- The `switch` on the character after a percent sign. -/
def directive (size : Nat) (d : Byte) (args : List FmtArg) (out : Output) :
    Except Fault (List FmtArg × Output) :=
  if d = 99#8 then
    match args with
    | .word w :: args => do return (args, ← putChar size (w.setWidth 8) out)
    | _ => .error .undefinedBehaviour
  else if d = 115#8 then
    match args with
    | .str s :: args => do return (args, ← putString size s.chars out)
    | _ => .error .undefinedBehaviour
  else if d = 120#8 then
    match args with
    | .word w :: args => do return (args, ← putNumber size w out)
    | _ => .error .undefinedBehaviour
  else if d = 37#8 then do return (args, ← putChar size 37#8 out)
  else fatalFailure "vsnprintf"

/-- The loop over the rest of the format, at index `i`. -/
def formatLoop (size : Nat) : (fmt : List Byte) → (i : Nat) → List FmtArg → Output →
    Except Fault Output
  | [], _, _, out => .ok out
  | c :: fmt, i, args, out =>
    if c ≠ 37#8 then do
      let out ← putChar size c out
      formatLoop size fmt (← addInt i 1) args out
    else do
      let i ← addInt i 1
      match fmt with
      -- the character after the percent sign is the terminator
      | [] => fatalFailure "vsnprintf"
      | d :: fmt =>
        let (args, out) ← directive size d args out
        formatLoop size fmt (← addInt i 1) args out

/-- `vsnprintf`; the result is the index in the output. -/
def vsnprintf (size : BitVec 64) (fmt : CString) (args : List FmtArg) : Except Fault Output := do
  if size = 0#64 then return { writes := [], j := 0 }
  let out ← formatLoop size.toNat fmt.chars 0 args { writes := [], j := 0 }
  return if out.j < size.toNat then { out with writes := out.writes ++ [(out.j, 0#8)] } else out

/-- The byte last stored at offset `k`, if any. -/
def lastWrite (writes : List (Nat × Byte)) (k : Nat) : Option Byte :=
  writes.foldl (fun found w => if w.1 = k then some w.2 else found) none

/-! ## The serial line (serial.c) -/

def bufSize : Nat := 1024

/-- `outf`, into the static buffer that still holds `old`, with the characters it sends. -/
def Serial.outf (old : Nat → Byte) (fmt : CString) (args : List FmtArg) :
    Except Fault (Output × List Byte) := do
  let out ← vsnprintf (BitVec.ofNat 64 bufSize) fmt args
  let buf := (List.range bufSize).map fun k => (lastWrite out.writes k).getD (old k)
  return (out, buf.takeWhile fun c => c ≠ 0#8)

end Mavmm
