import Xv6.Lib.Symbols

/-!
# What a pattern means

A pattern of `grep` is a sequence of items, each for one character or for any number of them, with
an anchor at either end. It is found in a text if a part of the text is a word of the items.
-/

namespace Xv6.Spec

open Lib
open scoped Computability

/-- An item of a pattern. -/
inductive Item where
  | one (c : UInt8)
  /-- Any number of characters. -/
  | star (c : UInt8)

/-- The characters that a character of a pattern stands for. -/
def standsFor (c : UInt8) : Set UInt8 := { t | c = '.'.toUInt8 ∨ c = t }

/-- The words of an item. -/
def Item.language : Item → Language UInt8
  | .one c => symbols (standsFor c)
  | .star c => (symbols (standsFor c))∗

/-- A pattern that has been read. -/
structure Pattern where
  /-- The match begins where the text does. -/
  fromStart : Bool
  /-- The items from left to right. -/
  items : List Item
  /-- The match ends where the text does. -/
  toEnd : Bool

/-- Put an item before the others. -/
def Pattern.push (item : Item) (pattern : Pattern) : Pattern :=
  { pattern with items := item :: pattern.items }

/-- Read the items of a pattern, and the `$` behind them. -/
def Pattern.readItems : List UInt8 → Pattern
  | [] => ⟨false, [], false⟩
  | [c] => if c = '$'.toUInt8 then ⟨false, [], true⟩ else ⟨false, [.one c], false⟩
  | c :: d :: re =>
    if d = '*'.toUInt8 then (readItems re).push (.star c) else (readItems (d :: re)).push (.one c)

/-- Read a pattern: the `^` before the items, if there is one, and the items. -/
def Pattern.read (re : List UInt8) : Pattern :=
  if re.head? = some '^'.toUInt8 then { readItems re.tail with fromStart := true }
  else readItems re

/-- The words of the items. -/
def Pattern.language (pattern : Pattern) : Language UInt8 :=
  (pattern.items.map Item.language).prod

/-- Some part of the text is a word of the items, and is where the anchors want it. -/
def Pattern.FoundIn (pattern : Pattern) (text : List UInt8) : Prop :=
  ∃ before part after, text = before ++ part ++ after ∧ part ∈ pattern.language ∧
    (pattern.fromStart = true → before = []) ∧ (pattern.toEnd = true → after = [])

end Xv6.Spec
