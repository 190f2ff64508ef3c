import Mathlib.Tactic.Common

/-!
# The parser of the shell

`sh.c`: tokens, the recursive-descent parser and `nulterminate`. A word is where it starts and where
it ends in the line buffer, and the cursor `*ps` is the state of the parser. The nodes that
`parseredirs` puts around a command are kept in a list until the command is complete, since
`parseexec` still stores words into it. A loop or a recursive call takes one unit of fuel. What
`parsecmd` prints before a panic is left out.
-/

namespace Xv6.Sh

/-- `MAXARGS`. -/
def maxArgs : Nat := 10

/-- `O_RDONLY`. -/
def oRdonly : Nat := 0x000

/-- `O_WRONLY`. -/
def oWronly : Nat := 0x001

/-- `O_CREATE`. -/
def oCreate : Nat := 0x200

/-- Parsed command representation: `struct execcmd` and so on. -/
inductive Cmd where
  /-- `EXEC`: the words of `argv` and `eargv`. -/
  | exec (args : List (Nat × Nat))
  | redir (cmd : Cmd) (file efile mode fd : Nat)
  | pipe (left right : Cmd)
  | list (left right : Cmd)
  | back (cmd : Cmd)
  deriving DecidableEq

/-- A line in the buffer: the bytes before the `NUL`. -/
structure Line where
  bytes : List UInt8
  /-- A string has no zero byte. -/
  string : 0 ∉ bytes

/-- The parser: the cursor is the state, and a panic ends it. -/
abbrev ParseM : Type → Type := StateT Nat (Except String)

/-- `whitespace`: the characters of `" \t\r\n\v"`. -/
def whitespace : List UInt8 := [0x20, 0x09, 0x0d, 0x0a, 0x0b]

/-- `symbols`. -/
def symbols : List UInt8 := ['<', '|', '>', '&', ';', '(', ')'].map Char.toUInt8

namespace Line

variable (line : Line)

/-- `*s`: there is the `NUL` at `es`. -/
def char (s : Nat) : UInt8 := line.bytes.getD s 0

/-- `es`. -/
def es : Nat := line.bytes.length

/-- The line with its `NUL`. -/
def buffer : List UInt8 := line.bytes ++ [0]

/-- The loop that takes `s` forward while it is before `es` and `*s` is one of some characters. -/
def skip (p : UInt8 → Bool) (s : Nat) : Nat := s + ((line.bytes.drop s).takeWhile p).length

/-- The loop over white space. -/
def skipSpace (s : Nat) : Nat := line.skip (whitespace.contains ·) s

/-- The switch of `gettoken`: the token at `s`, and where it ends. -/
def token (s : Nat) : UInt8 × Nat :=
  let c := line.char s
  if c = 0 then (0, s)
  else if c ∈ ['|', '(', ')', ';', '&', '<'].map Char.toUInt8 then (c, s + 1)
  else if c = '>'.toUInt8 then
    if line.char (s + 1) = '>'.toUInt8 then ('+'.toUInt8, s + 2) else (c, s + 1)
  else ('a'.toUInt8, line.skip (fun c => !whitespace.contains c && !symbols.contains c) s)

end Line

section

variable (line : Line)

/-- `gettoken`, with the word in `*q` and `*eq`. -/
def gettoken : ParseM (UInt8 × Nat × Nat) := do
  let q := line.skipSpace (← get)
  let (ret, eq) := line.token q
  set (line.skipSpace eq)
  return (ret, q, eq)

/-- `peek`. -/
def peek (toks : List Char) : ParseM Bool := do
  let s := line.skipSpace (← get)
  set s
  return line.char s ≠ 0 && (toks.map Char.toUInt8).contains (line.char s)

/-- What the model says where the program would still be running. -/
def outOfFuel : String := "out of fuel"

/-- The arguments of `redircmd` but for the command. -/
structure Redir where
  file : Nat
  efile : Nat
  mode : Nat
  /-- The file descriptor. -/
  fd : Nat

/-- `redircmd`, for one redirection after another. -/
def redircmds (cmd : Cmd) (redirs : List Redir) : Cmd :=
  redirs.foldl (fun cmd r => .redir cmd r.file r.efile r.mode r.fd) cmd

/-- `parseredirs`: the redirections after those that are there. -/
def parseredirs : Nat → List Redir → ParseM (List Redir)
  | 0, _ => throw outOfFuel
  | fuel + 1, redirs => do
    if ← peek line ['<', '>'] then
      let (tok, _) ← gettoken line
      let (kind, q, eq) ← gettoken line
      if kind ≠ 'a'.toUInt8 then throw "missing file for redirection"
      if tok = '<'.toUInt8 then
        parseredirs fuel (redirs ++ [⟨q, eq, oRdonly, 0⟩])
      else if tok = '>'.toUInt8 ∨ tok = '+'.toUInt8 then
        parseredirs fuel (redirs ++ [⟨q, eq, oWronly ||| oCreate, 1⟩])
      else
        parseredirs fuel redirs
    else
      return redirs

/-- The loop of `parseexec`. -/
def parseargs : Nat → List (Nat × Nat) → List Redir → ParseM Cmd
  | 0, _, _ => throw outOfFuel
  | fuel + 1, args, redirs => do
    if ← peek line ['|', ')', '&', ';'] then
      return redircmds (.exec args) redirs
    let (tok, q, eq) ← gettoken line
    if tok = 0 then
      return redircmds (.exec args) redirs
    if tok ≠ 'a'.toUInt8 then throw "syntax"
    if args.length + 1 ≥ maxArgs then throw "too many args"
    let redirs ← parseredirs line fuel redirs
    parseargs fuel (args ++ [(q, eq)]) redirs

/-- The loop of `parseline`. -/
def parseback : Nat → Cmd → ParseM Cmd
  | 0, _ => throw outOfFuel
  | fuel + 1, cmd => do
    if ← peek line ['&'] then
      let _ ← gettoken line
      parseback fuel (.back cmd)
    else
      return cmd

mutual

/-- `parseline`. -/
def parseline : Nat → ParseM Cmd
  | 0 => throw outOfFuel
  | fuel + 1 => do
    let cmd ← parsepipe fuel
    let cmd ← parseback line fuel cmd
    if ← peek line [';'] then
      let _ ← gettoken line
      return .list cmd (← parseline fuel)
    else
      return cmd

/-- `parsepipe`. -/
def parsepipe : Nat → ParseM Cmd
  | 0 => throw outOfFuel
  | fuel + 1 => do
    let cmd ← parseexec fuel
    if ← peek line ['|'] then
      let _ ← gettoken line
      return .pipe cmd (← parsepipe fuel)
    else
      return cmd

/-- `parseexec`. -/
def parseexec : Nat → ParseM Cmd
  | 0 => throw outOfFuel
  | fuel + 1 => do
    if ← peek line ['('] then
      parseblock fuel
    else
      let redirs ← parseredirs line fuel []
      parseargs line fuel [] redirs

/-- `parseblock`. -/
def parseblock : Nat → ParseM Cmd
  | 0 => throw outOfFuel
  | fuel + 1 => do
    if !(← peek line ['(']) then throw "parseblock"
    let _ ← gettoken line
    let cmd ← parseline fuel
    if !(← peek line [')']) then throw "syntax - missing )"
    let _ ← gettoken line
    let redirs ← parseredirs line fuel []
    return redircmds cmd redirs

end

/-- `parsecmd` up to the call of `nulterminate`. -/
def parsetree (fuel : Nat) : ParseM Cmd := do
  let cmd ← parseline line fuel
  let _ ← peek line []
  if (← get) ≠ line.es then throw "syntax"
  return cmd

end

/-- Code that writes to the line buffer. -/
abbrev BufM : Type → Type := StateT (List UInt8) (Except String)

/-- `*p = 0`: a write outside the buffer would damage something else. -/
def cut (p : Nat) : BufM Unit := do
  if p < (← get).length then modify (·.set p 0) else throw "outside the line buffer"

/-- The loop of `nulterminate` over the words of a command. -/
def cutArgs : List (Nat × Nat) → BufM Unit
  | [] => return ()
  | (_, eq) :: args => do
    cut eq
    cutArgs args

/-- `nulterminate`. -/
def nulterminate : Cmd → BufM Unit
  | .exec args => cutArgs args
  | .redir cmd _ efile _ _ => do
    nulterminate cmd
    cut efile
  | .pipe left right | .list left right => do
    nulterminate left
    nulterminate right
  | .back cmd => nulterminate cmd

/-- `parsecmd`: the tree, and the line buffer in the end. -/
def parsecmd (line : Line) (fuel : Nat) : Except String (Cmd × List UInt8) := do
  let (cmd, _) ← parsetree line fuel 0
  let (_, buf) ← nulterminate cmd line.buffer
  return (cmd, buf)

end Xv6.Sh
