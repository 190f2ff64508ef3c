import Xv6.Lib.Bytes

/-!
# `grep`

`grep.c`: the matcher of Kernighan and Pike, and the loop that takes the lines of the input out of a
buffer. A string is the list of its bytes before the `NUL`.
-/

namespace Xv6.Grep

mutual

/-- `matchhere`: search for `re` at the beginning of `text`. -/
def matchhere (re text : List UInt8) : Bool :=
  match re with
  | [] => true
  | c :: re =>
    if re.head? = some '*'.toUInt8 then matchstar c re.tail text
    else if c = '$'.toUInt8 ∧ re = [] then text = []
    else
      match text with
      | [] => false
      | t :: text => if c = '.'.toUInt8 ∨ c = t then matchhere re text else false
termination_by (re.length, text.length, 0)
decreasing_by
  · exact Prod.Lex.left _ _ (by rw [List.length_tail, List.length_cons]; omega)
  · exact Prod.Lex.left _ _ (Nat.lt_succ_self _)

/-- `matchstar`: search for `c*re` at the beginning of `text`. -/
def matchstar (c : UInt8) (re text : List UInt8) : Bool :=
  if matchhere re text then true
  else
    match text with
    | [] => false
    | t :: text => if t = c ∨ c = '.'.toUInt8 then matchstar c re text else false
termination_by (re.length, text.length, 1)

end

/-- The loop of `match`: must look at the empty string too. -/
def matchAnywhere (re : List UInt8) : List UInt8 → Bool
  | [] => matchhere re []
  | t :: text => if matchhere re (t :: text) then true else matchAnywhere re text

/-- `match`. -/
def match_ (re text : List UInt8) : Bool :=
  if re.head? = some '^'.toUInt8 then matchhere re.tail text else matchAnywhere re text

/-- `strchr`: how far into a string a byte is. -/
def strchr (c : UInt8) : List UInt8 → Option Nat
  | [] => none
  | t :: s => if t = 0 then none else if t = c then some 0 else (strchr c s).map (· + 1)

/-- What is found is inside. -/
theorem strchr_lt {c : UInt8} {s : List UInt8} {q : Nat} (found : strchr c s = some q) :
    q < s.length := by
  induction s generalizing q with
  | nil => exact absurd found (Option.some_ne_none q).symm
  | cons t s ih =>
    rw [strchr] at found
    split at found
    · exact absurd found (Option.some_ne_none q).symm
    · split at found
      · rw [← Option.some.inj found]
        exact Nat.succ_pos _
      · obtain ⟨k, later, rfl⟩ := Option.map_eq_some_iff.mp found
        exact Nat.succ_lt_succ (ih later)

/-- The inner loop of `grep`, over what is in the buffer from `p` on: the lines it writes, and where
it leaves `p`. -/
def takeLines (pattern p : List UInt8) : List (List UInt8) × List UInt8 :=
  match _found : strchr '\n'.toUInt8 p with
  | none => ([], p)
  | some q =>
    let line := p.take q
    let later := takeLines pattern (p.drop (q + 1))
    if match_ pattern line then ((line ++ ['\n'.toUInt8]) :: later.1, later.2) else later
termination_by p.length
decreasing_by
  rw [List.length_drop]
  have := strchr_lt _found
  omega

/-- `sizeof(buf)`. -/
def bufSize : Nat := 1024

/-- `read`: where the stream is cut is up to what it comes from. At least one byte is read, unless
none is asked for or the stream is at its end. -/
def read (cut : Nat → Nat) (n : Nat) (stream : List UInt8) : List UInt8 :=
  stream.take (min n (max 1 (cut stream.length)))

/-- What the loop of `grep` does in one round. -/
structure Round where
  piece : List UInt8
  writes : List (List UInt8)

/-- The loop of `grep`, with the first bytes of a line held in the buffer. -/
def rounds (pattern : List UInt8) (cut : Nat → Nat) (held stream : List UInt8) : List Round :=
  let piece := read cut (bufSize - held.length - 1) stream
  if _ended : piece = [] then []
  else
    let p := takeLines pattern (held ++ piece)
    -- `p == buf`: no line has been taken, and all that is held is dropped.
    let held := if p.2.length = (held ++ piece).length then [] else p.2
    ⟨piece, p.1⟩ :: rounds pattern cut held (stream.drop piece.length)
termination_by stream.length
decreasing_by
  have some : piece.length ≠ 0 := mt List.length_eq_zero_iff.mp _ended
  have most : piece.length ≤ stream.length := List.length_take_le' _ _
  have fewer : stream.length - piece.length < stream.length := by omega
  rw [List.length_drop]
  exact fewer

/-- `grep`: what it writes. -/
def grep (pattern : List UInt8) (cut : Nat → Nat) (stream : List UInt8) : List (List UInt8) :=
  (rounds pattern cut [] stream).flatMap Round.writes

end Xv6.Grep
