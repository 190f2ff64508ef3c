import Xv6.User.Ulib
import Mathlib.Algebra.Ring.Nat
import Mathlib.Data.UInt
import Mathlib.Tactic.Common

/-!
# Numbers as text

The digits `printint` stores are those of `Nat.toDigits`, and `atoi` reads them back. `procdumpP1`
prints a time in thousandths with it.
-/

namespace Xv6

/-- A text is a decimal number: digits, behind a minus sign or none. -/
inductive Decimal : List Char → Int → Prop where
  | plain (digits : List Char) (some : digits ≠ []) (all : ∀ c ∈ digits, c.isDigit) :
    Decimal digits (Nat.ofDigitChars 10 digits 0)
  | minus (digits : List Char) (some : digits ≠ []) (all : ∀ c ∈ digits, c.isDigit) :
    Decimal ('-' :: digits) (-Nat.ofDigitChars 10 digits 0)

/-- What `printint` prints to base 10. -/
def decimal (x : Int) : List Char :=
  if x < 0 then '-' :: Nat.toDigits 10 x.natAbs else Nat.toDigits 10 x.natAbs

variable {digits : List Char}

/-- The digits come last first. -/
theorem storeDigits_toDigits (ten : ∀ d < 10, digits.getD d '0' = d.digitChar) (x : Nat) :
    (storeDigits digits 10 (by decide) x).reverse = Nat.toDigits 10 x := by
  induction x using Nat.strongRecOn with
  | ind x ih =>
    rw [storeDigits, Nat.toDigits_eq_if (by decide), ten _ (Nat.mod_lt _ (by decide))]
    by_cases small : x < 10
    · simp [small, Nat.div_eq_of_lt, Nat.mod_eq_of_lt]
    · have more : x / 10 ≠ 0 := by omega
      rw [if_neg more, if_neg small, List.reverse_cons, ih _ (by omega)]

/-- The negated value is the absolute one, also for the least number. -/
theorem toNat_abs (xx : Int32) :
    (xx < 0 ↔ xx.toInt < 0) ∧ (xx.toInt < 0 → (-xx).toUInt32.toNat = xx.toInt.natAbs) ∧
      (0 ≤ xx.toInt → xx.toUInt32.toNat = xx.toInt.natAbs) := by
  have := xx.toUInt32.toNat_lt
  have value : xx.toInt = (xx.toUInt32.toNat : Int).bmod (2 ^ 32) := BitVec.toInt_eq_toNat_bmod _
  rw [Int32.toUInt32_neg, UInt32.toNat_neg, UInt32.size]
  refine ⟨Int32.lt_iff_toInt_lt, ?_, ?_⟩
  all_goals
    rw [value, Int.bmod]
    omega

/-- The buffer holds the number, last digit first. -/
theorem fillBuf_decimal (ten : ∀ d < 10, digits.getD d '0' = d.digitChar) (xx : Int32) :
    (fillBuf digits xx 10 (by decide) true).reverse = decimal xx.toInt := by
  obtain ⟨sign, negative, positive⟩ := toNat_abs xx
  unfold fillBuf decimal
  simp only [true_and, sign]
  split
  case isTrue below =>
    rw [List.reverse_append, storeDigits_toDigits ten, negative below]
    rfl
  case isFalse above => rw [storeDigits_toDigits ten, positive (by omega)]

/-- The decimal digits. -/
theorem digit_range {c : Char} (digit : c.isDigit) : '0' ≤ c ∧ c ≤ '9' :=
  (Bool.and_eq_true_iff.mp digit).imp of_decide_eq_true of_decide_eq_true

/-- A number of so many digits is small. -/
theorem ofDigitChars_lt (digits : List Char) (all : ∀ c ∈ digits, c.isDigit) :
    Nat.ofDigitChars 10 digits 0 < 10 ^ digits.length := by
  induction digits with
  | nil => simp
  | cons c digits ih =>
    have ten : c.toNat - '0'.toNat ≤ 9 :=
      Nat.sub_le_of_le_add (UInt32.le_iff_toNat_le.mp (digit_range (all c (by simp))).2)
    have rest := ih fun c member => all c (by simp [member])
    have first := Nat.mul_le_mul_left (10 ^ digits.length) ten
    rw [Nat.ofDigitChars_cons, Nat.ofDigitChars_eq_ofDigitChars_zero,
      List.length_cons, Nat.pow_succ,
      Nat.mul_zero, Nat.zero_add]
    omega

/-- A number has no more digits than any way of writing it. -/
theorem toDigits_le {n : Nat} (some : digits ≠ []) (all : ∀ c ∈ digits, c.isDigit)
    (value : Nat.ofDigitChars 10 digits 0 = n) : (Nat.toDigits 10 n).length ≤ digits.length :=
  (Nat.length_toDigits_le_iff (by decide) (List.length_pos_iff.mpr some)).mpr
    (value ▸ ofDigitChars_lt digits all)

/-- The printed text is a decimal number, and none that denotes the same number is shorter. -/
theorem decimal_shortest (x : Int) :
    Decimal (decimal x) x ∧ ∀ other, Decimal other x → (decimal x).length ≤ other.length := by
  have all : ∀ c ∈ Nat.toDigits 10 x.natAbs, c.isDigit := fun c member =>
    Nat.isDigit_of_mem_toDigits (by decide) (by decide) member
  have value : Nat.ofDigitChars 10 (Nat.toDigits 10 x.natAbs) 0 = x.natAbs :=
    Nat.ofDigitChars_ten_toDigits
  unfold decimal
  constructor
  · split
    · have := Decimal.minus _ Nat.toDigits_ne_nil all
      rwa [value, show -(x.natAbs : Int) = x by omega] at this
    · have := Decimal.plain _ Nat.toDigits_ne_nil all
      rwa [value, show (x.natAbs : Int) = x by omega] at this
  · intro other denotes
    cases denotes with
    | plain _ some digits =>
      rw [if_neg (by omega)]
      exact toDigits_le some digits (by omega)
    | minus text some digits =>
      have := toDigits_le some digits (n := (-(Nat.ofDigitChars 10 text 0 : Int)).natAbs) (by omega)
      split <;> simp only [List.length_cons] <;> omega

/-- `atoi` reads digits. -/
theorem atoiFrom_digits (digits : List Char) (all : ∀ c ∈ digits, c.isDigit) (n : Nat) :
    Ulib.atoiFrom (.ofNat n) digits = .ofNat (Nat.ofDigitChars 10 digits n) := by
  induction digits generalizing n with
  | nil => rfl
  | cons c digits ih =>
    have range := digit_range (all c (by simp))
    have above : '0'.toNat ≤ c.toNat := UInt32.le_iff_toNat_le.mp range.1
    rw [Nat.ofDigitChars_cons, ← ih fun c member => all c (by simp [member]), Ulib.atoiFrom,
      if_pos range, Int32.ofNat_add, Int32.ofNat_sub _ _ above, Int32.ofNat_mul]
    congr 1
    grind

/-- `atoi` skips spaces, and a sign in front of digits. -/
theorem atoi_signed (k : Nat) (sign : List Char) (known : sign ∈ [[], ['+'], ['-']])
    (digits : List Char) (some : digits ≠ []) (all : ∀ c ∈ digits, c.isDigit) :
    Ulib.atoi (List.replicate k ' ' ++ sign ++ digits) =
      (if sign = ['-'] then -1 else 1) * .ofNat (Nat.ofDigitChars 10 digits 0) := by
  have from_zero := atoiFrom_digits digits all 0
  obtain ⟨c, rest, rfl⟩ := List.exists_cons_of_ne_nil some
  have range := digit_range (all c (by simp))
  have apart : c ≠ ' ' ∧ c ≠ '+' ∧ c ≠ '-' := by
    refine ⟨?_, ?_, ?_⟩ <;> rintro rfl <;> exact absurd range.1 (by decide)
  simp only [List.mem_cons, List.not_mem_nil, or_false] at known
  unfold Ulib.atoi
  rw [List.append_assoc, List.dropWhile_append_of_pos (by simp), ← from_zero]
  obtain rfl | rfl | rfl := known <;> simp [apart]

/-- A number from its sign and its absolute value. -/
theorem ofNat_natAbs (x : Int32) :
    (if x.toInt < 0 then -1 else 1) * Int32.ofNat x.toInt.natAbs = x := by
  rw [← Int32.ofInt_eq_ofNat]
  split
  case isTrue below =>
    rw [show (x.toInt.natAbs : Int) = -x.toInt by omega, Int32.ofInt_neg, Int32.ofInt_toInt]
    grind
  case isFalse =>
    rw [show (x.toInt.natAbs : Int) = x.toInt by omega, Int32.ofInt_toInt]
    grind

/-- What the user library prints for `x` is its shortest decimal text, fits the buffer, and is read
back as `x`. -/
theorem printint_atoi (x : Int32) (k : Nat) :
    let text := Ulib.printint x 10 (by decide) true
    (Decimal text x.toInt ∧ ∀ other, Decimal other x.toInt → text.length ≤ other.length) ∧
    (Ulib.printBuf x 10 (by decide) true).length ≤ 16 ∧
    Ulib.atoi (List.replicate k ' ' ++ text) = x ∧
    (0 ≤ x → Ulib.atoi (List.replicate k ' ' ++ '+' :: text) = x) := by
  have printed : Ulib.printint x 10 (by decide) true = decimal x.toInt :=
    fillBuf_decimal (by decide) x
  have all : ∀ c ∈ Nat.toDigits 10 x.toInt.natAbs, c.isDigit := fun c member =>
    Nat.isDigit_of_mem_toDigits (by decide) (by decide) member
  have reads (sign) (known) := atoi_signed k sign known _ Nat.toDigits_ne_nil all
  have back := ofNat_natAbs x
  simp only [Nat.ofDigitChars_ten_toDigits] at reads
  simp only [printed]
  refine ⟨decimal_shortest _, ?_, ?_, fun above => ?_⟩
  · have ten : (Nat.toDigits 10 x.toInt.natAbs).length ≤ 10 :=
      (Nat.length_toDigits_le_iff (by decide) (by decide)).mpr (by
        have := x.toInt_lt
        have := x.le_toInt
        omega)
    rw [← List.length_reverse, show (Ulib.printBuf x 10 _ true).reverse = _ from printed, decimal]
    split
    · exact Nat.le_trans (Nat.succ_le_succ ten) (by decide)
    · exact Nat.le_trans ten (by decide)
  · unfold decimal
    split
    case isTrue below =>
      rw [if_pos below] at back
      simpa using (reads ['-'] (by simp)).trans back
    case isFalse above =>
      rw [if_neg above] at back
      simpa using (reads [] (by simp)).trans back
  · have above : ¬ x.toInt < 0 := Int.not_lt.mpr (Int32.le_iff_toInt_le.mp above)
    rw [if_neg above] at back
    rw [decimal, if_neg above]
    simpa using (reads ['+'] (by simp)).trans back

/-- The least number, behind three spaces. -/
theorem printint_atoi_least :
    Ulib.atoi ("   ".toList ++ Ulib.printint (-2147483648) 10 (by decide) true)
    = -2147483648 :=
  (printint_atoi (-2147483648) 3).2.2.1

/-- A text is a number of thousandths: digits, a point and three digits. -/
inductive Thousandths : List Char → Nat → Prop where
  | intro (whole rest : List Char) (some : whole ≠ []) (three : rest.length = 3)
    (all : ∀ c ∈ whole ++ rest, c.isDigit) :
    Thousandths (whole ++ '.' :: rest)
      (1000 * Nat.ofDigitChars 10 whole 0 + Nat.ofDigitChars 10 rest 0)

/-- Such a text has no minus sign. -/
theorem Thousandths.no_minus {text : List Char} {n : Nat} (time : Thousandths text n) :
    '-' ∉ text := by
  obtain ⟨whole, rest, -, -, all⟩ := time
  simp only [List.mem_append, List.mem_cons] at all ⊢
  rintro (digit | point | digit)
  · exact absurd (all '-' (.inl digit)) (by decide)
  · exact absurd point (by decide)
  · exact absurd (all '-' (.inr digit)) (by decide)

/-- The elapsed time as `procdumpP1` prints it. -/
def elapsedText (elapsed : Int32) : List Char :=
  let ms := elapsed % 1000
  let nol := if ms < 10 then "00" else if ms < 100 ∧ ms ≥ 10 then "0" else ""
  decimal (elapsed / 1000).toInt ++ '.' :: (nol.toList ++ decimal ms.toInt)

/-- The row of a process, with the text of its time. -/
def procRow (pid : Int32) (name time state : List Char) (sz : UInt32) : List Char :=
  decimal pid.toInt ++ '\t' :: (name ++ '\t' :: ("     ".toList ++ (time ++
    '\t' :: (state ++ '\t' :: (decimal sz.toInt32.toInt ++ ['\t'])))))

/-- Rows with the same entries but for the time have the same time. -/
theorem procRow_inj {pid : Int32} {name time time' state : List Char} {sz : UInt32}
    (same : procRow pid name time state sz = procRow pid name time' state sz) : time = time' := by
  unfold procRow at same
  simpa only [List.append_cancel_left_eq, List.cons.injEq, true_and, List.append_cancel_right_eq]
    using same

/-- What `procdumpP1` prints. -/
theorem procdumpP1_row (ticks startTicks : UInt32) (pid : Int32) (name state : List Char)
    (sz : UInt32) : procdumpP1 ticks startTicks pid name state sz =
      some (procRow pid name (elapsedText (ticks - startTicks).toInt32) state sz) := by
  have printed (x : Int32) : printint x 10 (by decide) true = decimal x.toInt :=
    fillBuf_decimal (by decide) x
  simp only [procRow, elapsedText, ← printed, List.append_assoc, List.cons_append]
  rfl

/-- The zeros in front fill the rest up to three digits. -/
theorem rest_digits (ms : Nat) (small : ms < 1000) :
    let nol := if ms < 10 then "00" else if ms < 100 ∧ ms ≥ 10 then "0" else ""
    let rest := nol.toList ++ Nat.toDigits 10 ms
    rest.length = 3 ∧ (∀ c ∈ rest, c.isDigit) ∧ Nat.ofDigitChars 10 rest 0 = ms := by
  intro nol rest
  have length (k : Nat) (some : 0 < k) : (Nat.toDigits 10 ms).length ≤ k ↔ ms < 10 ^ k :=
    Nat.length_toDigits_le_iff (by decide) some
  have one := length 1 (by decide)
  have two := length 2 (by decide)
  have three := length 3 (by decide)
  have some : 0 < (Nat.toDigits 10 ms).length := Nat.length_toDigits_pos
  have zeros : nol.toList = List.replicate (3 - (Nat.toDigits 10 ms).length) '0' := by
    dsimp only [nol]
    split_ifs
    · rw [show (Nat.toDigits 10 ms).length = 1 by omega]
      rfl
    · rw [show (Nat.toDigits 10 ms).length = 2 by omega]
      rfl
    · rw [show (Nat.toDigits 10 ms).length = 3 by omega]
      rfl
  dsimp only [rest]
  rw [zeros]
  refine ⟨by simp; omega, ?_, ?_⟩
  · intro c member
    obtain zero | digit := List.mem_append.mp member
    · rw [List.eq_of_mem_replicate zero]
      rfl
    · exact Nat.isDigit_of_mem_toDigits (by decide) (by decide) digit
  · rw [Nat.ofDigitChars_append, Nat.ofDigitChars_replicate_zero, Nat.mul_zero,
      Nat.ofDigitChars_ten_toDigits]

/-- A natural number is printed with its digits. -/
theorem decimal_natCast (n : Nat) : decimal n = Nat.toDigits 10 n := by
  simp [decimal]

/-- Less than `2^31` ticks are printed exactly. -/
theorem elapsedText_early (elapsed : UInt32) (early : elapsed.toNat < 2 ^ 31) :
    Thousandths (elapsedText elapsed.toInt32) elapsed.toNat := by
  have small := Nat.mod_lt elapsed.toNat (show 1000 > 0 by decide)
  have signed : elapsed.toInt32 = .ofNat elapsed.toNat := by
    rw [← UInt32.toInt32_ofNat', UInt32.ofNat_toNat]
  have whole : elapsed.toInt32 / 1000 = .ofNat (elapsed.toNat / 1000) :=
    signed ▸ (Int32.ofNat_div early (by decide)).symm
  have rest : elapsed.toInt32 % 1000 = .ofNat (elapsed.toNat % 1000) :=
    signed ▸ (Int32.ofNat_mod early (by decide)).symm
  have ten : Int32.ofNat (elapsed.toNat % 1000) < 10 ↔ elapsed.toNat % 1000 < 10 :=
    Int32.ofNat_lt_iff_lt (by omega) (by decide)
  have hundred : Int32.ofNat (elapsed.toNat % 1000) < 100 ↔ elapsed.toNat % 1000 < 100 :=
    Int32.ofNat_lt_iff_lt (by omega) (by decide)
  have tens : Int32.ofNat (elapsed.toNat % 1000) ≥ 10 ↔ elapsed.toNat % 1000 ≥ 10 :=
    Int32.ofNat_le_iff_le (by decide) (by omega)
  obtain ⟨three, digits, value⟩ := rest_digits _ small
  have denotes := Thousandths.intro (Nat.toDigits 10 (elapsed.toNat / 1000)) _ Nat.toDigits_ne_nil
    three (List.forall_mem_append.mpr
      ⟨fun c member => Nat.isDigit_of_mem_toDigits (by decide) (by decide) member, digits⟩)
  rw [Nat.ofDigitChars_ten_toDigits, value, Nat.div_add_mod] at denotes
  simpa only [elapsedText, whole, rest, ten, hundred, tens, Int32.toInt_ofNat_of_lt (by omega :
    elapsed.toNat / 1000 < 2 ^ 31), Int32.toInt_ofNat_of_lt (by omega :
    elapsed.toNat % 1000 < 2 ^ 31), decimal_natCast] using denotes

/-- From `2^31` ticks on there is a minus sign, in front of the seconds or of the rest. -/
theorem elapsedText_late (elapsed : Int32) (late : elapsed.toInt < 0) :
    '-' ∈ elapsedText elapsed := by
  have minus (x : Int) (below : x < 0) : '-' ∈ decimal x := by simp [decimal, below]
  have parts := Int.tdiv_mul_add_tmod elapsed.toInt 1000
  rw [show (1000 : Int) = (1000 : Int32).toInt from rfl, ← Int32.toInt_mod,
    ← Int32.toInt_div_of_ne_right _ _ (by decide)] at parts
  simp only [elapsedText, List.mem_append, List.mem_cons]
  by_cases seconds : (elapsed / 1000).toInt < 0
  · exact .inl (minus _ seconds)
  · exact .inr (.inr (.inr (minus _ (by simp only [Int32.reduceToInt] at parts; omega))))

/-- The elapsed time of a process is printed exactly if and only if it started less than `2^31`
ticks ago. -/
theorem procdumpP1_elapsed (ticks startTicks : UInt32) (pid : Int32) (name state : List Char)
    (sz : UInt32) :
    (∃ text, Thousandths text (ticks - startTicks).toNat ∧
      procdumpP1 ticks startTicks pid name state sz = some (procRow pid name text state sz)) ↔
    (ticks - startTicks).toNat < 2 ^ 31 := by
  rw [procdumpP1_row]
  generalize ticks - startTicks = elapsed
  constructor
  · rintro ⟨text, time, same⟩
    by_contra late
    have negative : elapsed.toInt32.toInt < 0 := by
      have value : elapsed.toInt32.toInt = (elapsed.toNat : Int).bmod (2 ^ 32) :=
        BitVec.toInt_eq_toNat_bmod _
      have := elapsed.toNat_lt
      rw [value, Int.bmod]
      omega
    rw [← procRow_inj (Option.some.inj same)] at time
    exact time.no_minus (elapsedText_late _ negative)
  · exact fun early => ⟨_, elapsedText_early elapsed early, rfl⟩

/-- A process that started before the ticks wrapped. -/
theorem procdumpP1_wrapped :
    (1234 - 4294967290 : UInt32).toNat < 2 ^ 31 ∧ ∃ text, Thousandths text 1240 ∧
      procdumpP1 1234 4294967290 1 "init".toList "sleep ".toList 0 =
        some ("1\tinit\t     ".toList ++ (text ++ "\tsleep \t0\t".toList)) :=
  have early : (1234 - 4294967290 : UInt32).toNat < 2 ^ 31 := by decide
  ⟨early, (procdumpP1_elapsed 1234 4294967290 1 "init".toList "sleep ".toList 0).mpr early⟩

/-- After `2^31` ticks the elapsed time is printed as a negative number. -/
theorem procdumpP1_negative : procdumpP1 (2 ^ 31) 0 1 "init".toList "sleep ".toList 0 =
    some "1\tinit\t     -2147483.00-648\tsleep \t0\t".toList := by
  rw [procdumpP1_row]
  decide

end Xv6
