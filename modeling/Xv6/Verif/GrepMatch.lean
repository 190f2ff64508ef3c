import Xv6.Spec.Pattern
import Xv6.User.Grep

/-!
# The matcher decides its language

Each function of the matcher is membership in a product of languages: `matchhere` in the items and
what may follow them, `matchstar` in any number of a character and the rest, `match` in anything and
the rest.
-/

namespace Xv6.Grep

open Lib Spec
open scoped Computability

variable {c t : UInt8} {re text : List UInt8} {l : Language UInt8}

/-- What may stand beside a match, at an end of the text where the pattern may be anchored. -/
def beside (anchored : Bool) : Language UInt8 := if anchored then 1 else ⊤

/-- Anything may stand beside a pattern that is not anchored. -/
theorem mem_beside {anchored : Bool} : text ∈ beside anchored ↔ (anchored = true → text = []) := by
  cases anchored with
  | false => exact iff_of_true trivial fun no => absurd no Bool.false_ne_true
  | true => exact ⟨fun none _ => none, fun none => none rfl⟩

/-- The texts that begin with a match. -/
def begins (pattern : Pattern) : Language UInt8 := pattern.language * beside pattern.toEnd

/-- A pattern is found if a text with it begins somewhere. -/
theorem foundIn_iff {pattern : Pattern} :
    pattern.FoundIn text ↔ text ∈ beside pattern.fromStart * begins pattern := by
  constructor
  · rintro ⟨before, part, after, rfl, word, first, last⟩
    rw [List.append_assoc]
    refine Language.append_mem_mul (mem_beside.mpr first) ?_
    exact Language.append_mem_mul word (mem_beside.mpr last)
  · rintro ⟨before, first, _, ⟨part, word, after, last, rfl⟩, rfl⟩
    refine ⟨before, part, after, ?_, word, mem_beside.mp first, mem_beside.mp last⟩
    exact (List.append_assoc before part after).symm

/-- A pattern with one item more. -/
theorem begins_push (item : Item) (pattern : Pattern) :
    begins (pattern.push item) = item.language * begins pattern := by
  rw [begins, begins, ← mul_assoc]
  rfl

/-- The empty pattern matches everywhere. -/
theorem matchhere_nil (text : List UInt8) :
    matchhere [] text = true ↔ text ∈ begins (Pattern.readItems []) := by
  rw [matchhere]
  exact iff_of_true rfl ⟨[], rfl, text, trivial, rfl⟩

/-- `matchhere` takes one character, and goes on with the rest. -/
theorem matchhere_one (here : ∀ text, matchhere re text = true ↔ text ∈ l)
    (unstarred : re.head? ≠ some '*'.toUInt8) (inner : ¬(c = '$'.toUInt8 ∧ re = [])) :
    matchhere (c :: re) text = true ↔ text ∈ symbols (standsFor c) * l := by
  rw [matchhere.eq_def]
  simp only [if_neg unstarred, if_neg inner]
  cases text with
  | nil => exact iff_of_false Bool.false_ne_true nil_notMem_symbols_mul
  | cons t text =>
    rw [cons_mem_symbols_mul, ← here]
    simp [standsFor]

/-- `matchstar` tries the rest before each of the characters. -/
theorem matchstar_iff (here : ∀ text, matchhere re text = true ↔ text ∈ l) :
    matchstar c re text = true ↔ text ∈ (symbols (standsFor c))∗ * l := by
  induction text with
  | nil =>
    rw [matchstar, nil_mem_symbols_kstar_mul, ← here]
    simp
  | cons t text ih =>
    have takes : t ∈ standsFor c ↔ t = c ∨ c = '.'.toUInt8 := by
      rw [or_comm, eq_comm (a := t)]
      exact Iff.rfl
    rw [matchstar, cons_mem_symbols_kstar_mul, ← here, ← ih, takes]
    simp

/-- `matchhere` decides whether the pattern begins here. -/
theorem matchhere_iff : matchhere re text = true ↔ text ∈ begins (Pattern.readItems re) := by
  induction re using Pattern.readItems.induct generalizing text with
  | case1 => exact matchhere_nil text
  | case2 =>
    rw [matchhere.eq_def]
    simp [Pattern.readItems, begins, Pattern.language, beside]
  | case3 c plain =>
    have last : Pattern.readItems [c] = (Pattern.readItems []).push (.one c) := if_neg plain
    rw [last, begins_push]
    exact matchhere_one matchhere_nil (Option.some_ne_none _).symm (fun dollar => plain dollar.1)
  | case4 c re ih =>
    rw [matchhere.eq_def, Pattern.readItems, if_pos rfl, begins_push]
    exact matchstar_iff fun _ => ih
  | case5 c d re unstarred ih =>
    rw [Pattern.readItems, if_neg unstarred, begins_push]
    refine matchhere_one (fun _ => ih) (fun starred => unstarred (Option.some.inj starred)) ?_
    exact fun last => List.cons_ne_nil d re last.2

/-- The loop of `match` decides whether it does somewhere. -/
theorem matchAnywhere_iff :
    matchAnywhere re text = true ↔ text ∈ beside false * begins (Pattern.readItems re) := by
  have anything : beside false = (symbols Set.univ)∗ :=
    Language.ext fun _ => iff_of_true trivial (mem_symbols_kstar.mpr fun _ _ => trivial)
  rw [anything]
  induction text with
  | nil => rw [matchAnywhere, nil_mem_symbols_kstar_mul, matchhere_iff]
  | cons t text ih =>
    rw [matchAnywhere, cons_mem_symbols_kstar_mul, ← matchhere_iff, and_iff_right (Set.mem_univ t)]
    simp [ih]

/-- Only the first byte of a pattern anchors it. -/
theorem readItems_fromStart (re : List UInt8) : (Pattern.readItems re).fromStart = false := by
  induction re using Pattern.readItems.induct with
  | case1 => rfl
  | case2 => rfl
  | case3 c plain => rw [Pattern.readItems, if_neg plain]
  | case4 c re ih =>
    rw [Pattern.readItems, if_pos rfl]
    exact ih
  | case5 c d re unstarred ih =>
    rw [Pattern.readItems, if_neg unstarred]
    exact ih

/-- `match` returns 1 exactly if the pattern is found in the text. -/
theorem match_decides (re text : List UInt8) :
    match_ re text = true ↔ (Pattern.read re).FoundIn text := by
  rw [foundIn_iff, match_, Pattern.read]
  by_cases caret : re.head? = some '^'.toUInt8
  · rw [if_pos caret, if_pos caret, matchhere_iff]
    exact (one_mul (begins (Pattern.readItems re.tail))).symm ▸ Iff.rfl
  · rw [if_neg caret, if_neg caret, matchAnywhere_iff, readItems_fromStart]

end Xv6.Grep
