import Mathlib.Tactic.Common

/-!
# Printing to the console

`printint` and `cprintf` of `console.c`, and the row `procdumpP1` of `proc.c` prints with them. What
goes to `consputc` is a list of characters. The loop that stores the digits is the same in
`printf.c`.
-/

namespace Xv6

/-- The digits of `x`, the last one first. -/
def storeDigits (digits : List Char) (base : Nat) (wide : 1 < base) (x : Nat) : List Char :=
  digits.getD (x % base) '0' ::
    if x / base = 0 then [] else storeDigits digits base wide (x / base)
termination_by x
decreasing_by exact Nat.div_lt_self (Nat.pos_of_ne_zero (by rintro rfl; simp at *)) wide

/-- `buf` of `printint`, as far as it is filled. -/
def fillBuf (digits : List Char) (xx : Int32) (base : Nat) (wide : 1 < base) (sign : Bool) :
    List Char :=
  if sign ∧ xx < 0 then storeDigits digits base wide (-xx).toUInt32.toNat ++ ['-']
  else storeDigits digits base wide xx.toUInt32.toNat

/-- `printint`. -/
def printint (xx : Int32) (base : Nat) (wide : 1 < base) (sign : Bool) : List Char :=
  (fillBuf "0123456789abcdef".toList xx base wide sign).reverse

/-- An argument of `cprintf`. -/
inductive PrintArg where
  | int (x : Int32)
  /-- A string; none for a null pointer. -/
  | str (s : Option (List Char))

/-- `cprintf`; none where an argument is missing or is not of the kind the format asks for. -/
def cprintf : List Char → List PrintArg → Option (List Char)
  | [], _ => some []
  | ['%'], _ => some []
  | '%' :: 'd' :: fmt, .int x :: args => (printint x 10 (by decide) true ++ ·) <$> cprintf fmt args
  | '%' :: 'x' :: fmt, .int x :: args => (printint x 16 (by decide) false ++ ·) <$> cprintf fmt args
  | '%' :: 'p' :: fmt, .int x :: args => (printint x 16 (by decide) false ++ ·) <$> cprintf fmt args
  | '%' :: 's' :: fmt, .str s :: args => (s.getD "(null)".toList ++ ·) <$> cprintf fmt args
  | '%' :: c :: fmt, args =>
    if c ∈ ['d', 'x', 'p', 's'] then none
    else if c = '%' then ('%' :: ·) <$> cprintf fmt args
    else ('%' :: c :: ·) <$> cprintf fmt args
  | c :: fmt, args => (c :: ·) <$> cprintf fmt args

/-- `procdumpP1`, from what it reads of the process: its `pid`, `name`, `start_ticks`, the name of
its state and `sz`. -/
def procdumpP1 (ticks startTicks : UInt32) (pid : Int32) (name state : List Char) (sz : UInt32) :
    Option (List Char) :=
  let elapsedMs := (ticks - startTicks).toInt32
  let elapsedS := elapsedMs / 1000
  let elapsedMs := elapsedMs % 1000
  let nol := if elapsedMs < 100 ∧ elapsedMs ≥ 10 then "0" else ""
  let nol := if elapsedMs < 10 then "00" else nol
  cprintf "%d\t%s\t%s%d.%s%d\t%s\t%d\t".toList
    [.int pid, .str name, .str "     ".toList, .int elapsedS, .str nol.toList, .int elapsedMs,
      .str state, .int sz.toInt32]

end Xv6
