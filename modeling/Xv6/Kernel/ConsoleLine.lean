import Xv6.Lib.Transition
import Xv6.Kernel.Console

/-!
# The console's critical sections

`consoleintr` holds `cons.lock` for the whole of its loop, and `consoleread` holds it until it
sleeps or returns, so each such part is one step here. A label says what the step does to the
outside: the characters typed, or the bytes copied to a reader. A reader that sleeps may run again
at any time, and may be killed at any time.
-/

namespace Xv6.Console

open Lib Function

namespace Input

/-- The loop of `consoleintr` for `C('U')`: kill line. -/
def killLine (i : Input) : Input :=
  if i.e ≠ i.w ∧ i.buf ((i.e - 1).toNat % inputBuf) ≠ newline then
    killLine { i with e := i.e - 1 }
  else i
termination_by (i.e - i.w).toNat
decreasing_by
  rename_i more
  have apart : i.e.toNat ≠ i.w.toNat := fun same => more.1 (UInt32.toNat_inj.mp same)
  have first := i.e.toNat_lt
  have second := i.w.toNat_lt
  simp only [UInt32.toNat_sub, show (1 : UInt32).toNat = 1 from rfl]
  omega

/-- The default of the switch of `consoleintr`. -/
def accept (i : Input) (c : UInt8) : Input :=
  if c ≠ 0 ∧ i.e - i.r < UInt32.ofNat inputBuf then
    let c := if c = 13 then newline else c
    let i := { i with buf := update i.buf (i.e.toNat % inputBuf) c, e := i.e + 1 }
    if c = newline ∨ c = ctrl 'D' ∨ i.e = i.r + UInt32.ofNat inputBuf then { i with w := i.e }
    else i
  else i

/-- A round of the loop of `consoleintr`. -/
def key (i : Input) (c : UInt8) : Input :=
  if c = ctrl 'P' then i
  else if c = ctrl 'U' then i.killLine
  else if c = ctrl 'H' ∨ c = 0x7f then
    if i.e ≠ i.w then { i with e := i.e - 1 } else i
  else if c = ctrl 'D' then i
  else i.accept c

/-- `consoleintr`, given what `getc` returns. -/
def consoleintr (i : Input) (chars : List UInt8) : Input := chars.foldl key i

end Input

/-- Where a reader is. -/
inductive Reading where
  /-- Not in `consoleread`. -/
  | out
  /-- Asleep in `consoleread`, with `n` bytes of `target` to go. -/
  | asleep (target : UInt32) (n : Int32)
  deriving DecidableEq

namespace Input

/-- The loop of `consoleread` up to where it sleeps or returns, and what it copies to `dst`. -/
def readLoop (i : Input) (killed : Bool) (target : UInt32) (n : Int32) (dst : List UInt8) :
    Input × List UInt8 × Reading :=
  if 0 < n then
    if i.r = i.w then
      (i, dst, if killed then .out else .asleep target n)
    else
      let c := i.buf (i.r.toNat % inputBuf)
      let i := { i with r := i.r + 1 }
      if c = ctrl 'D' then
        -- Save ^D for next time, to make sure caller gets a 0-byte result.
        (if n.toUInt32 < target then { i with r := i.r - 1 } else i, dst, .out)
      else if c = newline then (i, dst ++ [c], .out)
      else readLoop i killed target (n - 1) (dst ++ [c])
  else (i, dst, .out)
termination_by n.toInt.toNat
decreasing_by
  rename_i more _ _ _
  have positive : 0 < n.toInt := Int32.lt_iff_toInt_lt.mp more
  have small := n.toInt_lt
  rw [Int32.toInt_sub, show (1 : Int32).toInt = 1 from rfl, Int.bmod_eq_of_le] <;> omega

end Input

/-- The console and its readers. -/
structure Line (Reader : Type) where
  input : Input
  reader : Reader → Reading
  /-- `killed` of each reader. -/
  killed : Reader → Bool

/-- One step. -/
inductive LineEvent (Reader : Type) where
  /-- A call of `consoleintr` with the characters that `getc` returns. -/
  | intr (chars : List UInt8)
  /-- A call of `consoleread` for `n` bytes, up to where it sleeps or returns, with the bytes it
  copies. -/
  | read (p : Reader) (n : Int32) (bytes : List UInt8)
  /-- `sleep` returns in `consoleread`, which copies some bytes before it sleeps or returns. -/
  | wake (p : Reader) (bytes : List UInt8)
  | kill (p : Reader)

namespace Line

variable {Reader : Type} [DecidableEq Reader]

/-- A critical section of `consoleread` that copies the given bytes. -/
def run (s : Line Reader) (p : Reader) (target : UInt32) (n : Int32) (bytes : List UInt8) :
    Option (Line Reader) :=
  let (input, dst, reading) := s.input.readLoop (s.killed p) target n []
  if dst = bytes then
    some { s with input := input, reader := update s.reader p reading }
  else none

/-- The step relation, as a partial function of the label. -/
def step (s : Line Reader) (event : LineEvent Reader) : Option (Line Reader) :=
  match event with
  | .intr chars => some { s with input := s.input.consoleintr chars }
  | .read p n bytes =>
    match s.reader p with
    | .out => s.run p n.toUInt32 n bytes
    | .asleep _ _ => none
  | .wake p bytes =>
    match s.reader p with
    | .out => none
    | .asleep target n => s.run p target n bytes
  | .kill p => some { s with killed := update s.killed p true }

/-- The console before input. -/
def Initial (s : Line Reader) : Prop :=
  s.input.r = 0 ∧ s.input.w = 0 ∧ s.input.e = 0 ∧ ∀ p, s.reader p = .out

/-- Runs, as histories of steps. -/
abbrev Ran : List (LineEvent Reader) → Line Reader → Prop := History Initial step

end Line

end Xv6.Console
