import Xv6.Kernel.ConsoleLine

/-!
# A line editor

What the console is for: characters are added to a line or edit it, and a line that ends, or fills
the space, is committed. Readers take committed characters in order. The editor keeps all that was
ever committed.
-/

namespace Xv6.Console

/-- A line editor. -/
structure Editor where
  /-- All characters committed so far. -/
  committed : List UInt8
  /-- The line that is being edited. -/
  tail : List UInt8
  /-- How many characters readers have taken. -/
  taken : Nat

namespace Editor

/-- The characters that are kept for readers. -/
def held (ed : Editor) : Nat := ed.committed.length + ed.tail.length - ed.taken

/-- A character is accepted: it ends the line, or fills the space, or waits. -/
def accept (ed : Editor) (c : UInt8) : Editor :=
  if c = newline ∨ ed.held + 1 = inputBuf then
    { ed with committed := ed.committed ++ ed.tail ++ [c], tail := [] }
  else { ed with tail := ed.tail ++ [c] }

/-- A character is typed. -/
def type (ed : Editor) (c : UInt8) : Editor :=
  if c = ctrl 'U' then { ed with tail := [] }
  else if c = ctrl 'H' ∨ c = 0x7f then { ed with tail := ed.tail.dropLast }
  else if c = ctrl 'P' ∨ c = ctrl 'D' ∨ c = 0 ∨ inputBuf ≤ ed.held then ed
  else ed.accept (if c = 13 then newline else c)

/-- The editor after the events of a history. -/
def after {Reader : Type} : List (LineEvent Reader) → Editor
  | [] => ⟨[], [], 0⟩
  | .intr chars :: past => chars.foldl type (after past)
  | .read _ _ bytes :: past | .wake _ bytes :: past =>
    let ed := after past
    { ed with taken := ed.taken + bytes.length }
  | .kill _ :: past => after past

end Editor

/-- The bytes that readers got in a history, in order. -/
def delivered {Reader : Type} : List (LineEvent Reader) → List UInt8
  | [] => []
  | .read _ _ bytes :: past | .wake _ bytes :: past => delivered past ++ bytes
  | .intr _ :: past | .kill _ :: past => delivered past

/-- The bytes between the read index and the write index. -/
def Input.unread (i : Input) : List UInt8 :=
  (List.range (i.w - i.r).toNat).map fun k => i.buf ((i.r.toNat + k) % inputBuf)

end Xv6.Console
