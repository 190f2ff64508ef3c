import Xv6.Kernel.Strings
import Xv6.User.Sh

/-!
# The main loop of the shell

`main` and `getcmd` of `sh.c` in the configuration of the first project, with the functions of
`ulib.c` they call. `buf` is cleared before it is filled, so behind the bytes stored there are
zeros.
-/

namespace Xv6.Ulib

/-- `gets`, from what is left to read; at its end `read` returns 0. What is stored, and what is left
then. The first argument is the room that is left but for the terminator. -/
def gets : Nat → List UInt8 → List UInt8 × List UInt8
  | 0, input => ([], input)
  | _ + 1, [] => ([], [])
  | room + 1, c :: input =>
    if c = '\n'.toUInt8 ∨ c = '\r'.toUInt8 then ([c], input)
    else
      let (buf, input) := gets room input
      (c :: buf, input)

/-- `strlen`. -/
def strlen (s : List UInt8) : Nat := (s.takeWhile (· ≠ 0)).length

/-- `strncmp`. -/
def strncmp (p q : List UInt8) (n : Nat) : Int := strncmpLoop p q n

end Xv6.Ulib

namespace Xv6.Sh

/-- What one round of the loop of `main` comes to. -/
inductive Round where
  /-- `getcmd` is below 0, and the loop ends. -/
  | eof
  /-- `chdir`. -/
  | cd (path : List UInt8)
  /-- The built-in `exit`. -/
  | exit
  /-- `fork1`, and `runcmd(parsecmd(buf))` in the child. -/
  | run (line : Line)

/-- There is no zero before the first zero. -/
theorem zero_not_mem_takeWhile (buf : List UInt8) : 0 ∉ buf.takeWhile (· ≠ 0) := fun member => by
  simpa using List.all_eq_true.mp List.all_takeWhile 0 member

/-- The string in `buf`. -/
def Line.ofBuf (buf : List UInt8) : Line := ⟨buf.takeWhile (· ≠ 0), zero_not_mem_takeWhile buf⟩

/-- `"exit"`. -/
def exitWord : List UInt8 := ['e', 'x', 'i', 't'].map Char.toUInt8

/-- A round, from what `getcmd` stored. -/
def mainRound (buf : List UInt8) : Round :=
  if buf.getD 0 0 = 0 then .eof
  else if buf.getD 0 0 = 'c'.toUInt8 ∧ buf.getD 1 0 = 'd'.toUInt8 ∧ buf.getD 2 0 = ' '.toUInt8 then
    .cd ((buf.take (Ulib.strlen buf - 1)).drop 3)
  else if buf.getD 0 0 ≠ '\n'.toUInt8 ∧ Ulib.strncmp buf exitWord (Ulib.strlen buf - 1) = 0 then
    .exit
  else .run (.ofBuf buf)

/-- `getcmd`, with its buffer of 100 bytes. -/
def getcmd (input : List UInt8) : List UInt8 × List UInt8 := Ulib.gets 99 input

end Xv6.Sh
