import Mathlib.Data.List.Infix
import Xv6.User.ShMain
import Xv6.Verif.StringOps

/-!
# The `exit` command of the shell

`main` compares as many bytes with the keyword as the line has before its last one.
-/

namespace Xv6.Sh

/-- A line without its final newline. -/
def text (line : List UInt8) : List UInt8 :=
  if line.getLast? = some '\n'.toUInt8 then line.dropLast else line

/-- A `cd` command. -/
def IsCd (line : List UInt8) : Prop := ['c', 'd', ' '].map Char.toUInt8 <+: line

variable {line : List UInt8}

/-- A `cd` command by its first bytes. -/
theorem isCd_iff (line : List UInt8) : IsCd line ↔ line.getD 0 0 = 'c'.toUInt8 ∧
    line.getD 1 0 = 'd'.toUInt8 ∧ line.getD 2 0 = ' '.toUInt8 := by
  unfold IsCd
  rcases line with _ | ⟨a, _ | ⟨b, _ | ⟨c, rest⟩⟩⟩
  case cons.cons.cons => simp [@eq_comm _ a, @eq_comm _ b, @eq_comm _ c]
  all_goals
    have blank : (0 : UInt8) ≠ ' '.toUInt8 := by decide
    simp [blank]

/-- `main` compares the string in `buf`, without its last byte, with the start of the keyword. -/
theorem strncmp_exitWord (line : List UInt8) :
    Ulib.strncmp line exitWord (Ulib.strlen line - 1) = 0 ↔
      (line.takeWhile (· ≠ 0)).dropLast <+: exitWord := by
  have inside : Ulib.strlen line - 1 ≤ (line.takeWhile (· ≠ 0)).length := Nat.sub_le _ _
  have string : (0 : UInt8) ∉ exitWord := by decide
  rw [Ulib.strncmp, strncmpLoop_eq_zero, cstr_of_string string, cstr, List.dropLast_eq_take,
    List.prefix_iff_eq_take, List.length_take, ← List.take_takeWhile]
  rw [show (line.takeWhile (· ≠ 0)).length - 1 = Ulib.strlen line - 1 from rfl,
    Nat.min_eq_left inside]

/-- The built-in is taken for each line whose string but for its last byte starts the keyword. -/
theorem mainRound_exit (read : line.getD 0 0 ≠ 0) (other : ¬ IsCd line) :
    mainRound line =
      if line.getD 0 0 ≠ '\n'.toUInt8 ∧ (line.takeWhile (· ≠ 0)).dropLast <+: exitWord then .exit
      else .run (.ofBuf line) := by
  unfold mainRound
  simp only [if_neg read, if_neg (mt (isCd_iff line).mpr other), strncmp_exitWord]

/-- The lines whose text is the keyword. -/
theorem line_of_text (keyword : text line = exitWord) :
    line = exitWord ++ ['\n'.toUInt8] ∨ line = exitWord := by
  unfold text at keyword
  split at keyword
  case isTrue newline =>
    rw [← keyword]
    exact .inl (List.dropLast_append_getLast? _ newline).symm
  case isFalse => exact .inr keyword

/-- A `cd` command does not start the keyword. -/
theorem IsCd.not_prefix (cd : IsCd line) :
    ¬(line.takeWhile (· ≠ 0)).dropLast <+: exitWord := by
  obtain ⟨rest, rfl⟩ := cd
  have first : ∀ bytes, ¬('c'.toUInt8 :: bytes) <+: exitWord := by
    simp [exitWord, (by decide : 'c'.toUInt8 ≠ 'e'.toUInt8)]
  exact first _

/-- The shell leaves through `exit` exactly for the keyword, and runs each other line that is no
`cd` command, if and only if the line does not start with a zero byte (as at the end of the input)
and, but for its last byte, starts the keyword only when its text is the keyword. -/
theorem exit_exact (input : List UInt8) :
    ((mainRound (getcmd input).1 = .exit ↔ text (getcmd input).1 = exitWord) ∧
      (text (getcmd input).1 ≠ exitWord → ¬IsCd (getcmd input).1 →
        mainRound (getcmd input).1 = .run (.ofBuf (getcmd input).1))) ↔
    (getcmd input).1.getD 0 0 ≠ 0 ∧ ((getcmd input).1.getD 0 0 ≠ '\n'.toUInt8 →
      ((getcmd input).1.takeWhile (· ≠ 0)).dropLast <+: exitWord →
        text (getcmd input).1 = exitWord) := by
  generalize (getcmd input).1 = line
  by_cases cd : IsCd line
  · have bytes := (isCd_iff line).mp cd
    have read : line.getD 0 0 ≠ 0 := bytes.1 ▸ by decide
    have change : mainRound line ≠ .exit := by
      unfold mainRound
      rw [if_neg read, if_pos bytes]
      nofun
    have other : text line ≠ exitWord := fun keyword => by
      obtain same | same := line_of_text keyword
      all_goals exact absurd (same ▸ bytes.1) (by decide)
    exact iff_of_true ⟨iff_of_false change other, fun _ no => absurd cd no⟩
      ⟨read, fun _ starts => absurd starts cd.not_prefix⟩
  by_cases read : line.getD 0 0 = 0
  · have ends : mainRound line = .eof := if_pos read
    have other : text line ≠ exitWord := fun keyword => by
      obtain same | same := line_of_text keyword
      all_goals exact absurd (same ▸ read) (by decide)
    refine iff_of_false (fun holds => ?_) (fun holds => holds.1 read)
    have run := holds.2 other cd
    rw [ends] at run
    cases run
  · have keyword (here : text line = exitWord) :
        line.getD 0 0 ≠ '\n'.toUInt8 ∧ (line.takeWhile (· ≠ 0)).dropLast <+: exitWord := by
      obtain same | same := line_of_text here
      all_goals
        rw [same]
        decide
    rw [mainRound_exit read cd]
    split
    case isTrue exits => simp_all
    case isFalse runs =>
      have other : text line ≠ exitWord := fun here => runs (keyword here)
      exact iff_of_true ⟨iff_of_false nofun other, fun _ _ => rfl⟩
        ⟨read, fun first starts => absurd ⟨first, starts⟩ runs⟩

/-- `ex` leaves the shell. -/
theorem exit_of_ex :
    let input := ['e', 'x', '\n'].map Char.toUInt8
    mainRound (getcmd input).1 = .exit ∧ text (getcmd input).1 ≠ exitWord :=
  ⟨rfl, by decide⟩

end Xv6.Sh
