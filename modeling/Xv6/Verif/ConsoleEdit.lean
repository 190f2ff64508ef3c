import Mathlib.Data.List.Induction
import Mathlib.Data.List.Infix
import Mathlib.Logic.Relation
import Xv6.Spec.LineEditor

/-!
# The console is the line editor

The buffer tracks the editor of `Spec/LineEditor.lean`: the three indices are the editor's counts,
wrapped to 32 bits, and the buffer holds what is not yet taken. Every key and every critical section
of `consoleread` keeps that, and what readers got is what the editor says they have taken. The
critical sections are runs of the rounds of `Kernel/Console.lean`.
-/

namespace Xv6.Console

open Lib Function

section Rounds

/-- One round of the loop of `consoleintr` leads to another. -/
def Input.IntrRound (before after : Input × List UInt8) : Prop :=
  before.1.intrRound before.2 = (after.1, .intr after.2) ∨
    before.1.intrRound before.2 = (after.1, .intrWake after.2)

/-- Kill line is some rounds of the loop. -/
theorem killLine_rounds (i : Input) (chars : List UInt8) :
    Relation.ReflTransGen Input.IntrRound (i, ctrl 'U' :: chars) (i.killLine, chars) := by
  fun_induction Input.killLine i with
  | case1 i more ih =>
    refine .head (.inl ?_) ih
    rw [Input.intrRound, if_neg (by decide), if_pos rfl, if_pos more]
  | case2 i done =>
    refine .single (.inl ?_)
    rw [Input.intrRound, if_neg (by decide), if_pos rfl, if_neg done]

/-- Every key is some rounds of the loop. -/
theorem key_rounds (i : Input) (c : UInt8) (chars : List UInt8) :
    Relation.ReflTransGen Input.IntrRound (i, c :: chars) (i.key c, chars) := by
  by_cases kill : c = ctrl 'U'
  · rw [kill]
    exact killLine_rounds i chars
  · refine .single ?_
    have room : i.e - i.r < UInt32.ofNat inputBuf ↔ (i.e - i.r).toNat < inputBuf :=
      UInt32.lt_iff_toNat_lt
    unfold Input.IntrRound Input.intrRound Input.key Input.accept
    simp only [if_neg kill, room]
    split_ifs <;> simp_all

/-- A call of `consoleintr` is the rounds of its loop, for as long as `getc` gives characters. -/
theorem consoleintr_rounds (i : Input) (chars : List UInt8) :
    Relation.ReflTransGen Input.IntrRound (i, chars) (i.consoleintr chars, []) := by
  unfold Input.consoleintr
  induction chars generalizing i with
  | nil => exact .refl
  | cons c chars ih => exact (key_rounds i c chars).trans (ih (i.key c))

/-- One round of the loop of `consoleread` leads to another, or out of the loop. -/
def Input.ReadRound (killed : Bool) (before after : Input × At) : Prop :=
  ∃ target n dst, before.2 = .read target n dst ∧
    before.1.readRound target n dst killed = after

/-- Where the loop of `consoleread` is left. -/
def Reading.at (dst : List UInt8) : Reading → At
  | .out => .readRelease dst
  | .asleep target n => .readSleep target n dst

/-- A critical section of `consoleread` is the rounds of its loop. -/
theorem readLoop_rounds (i : Input) (killed : Bool) (target : UInt32) (n : Int32)
    (dst : List UInt8) :
    Relation.ReflTransGen (Input.ReadRound killed) (i, .read target n dst)
      ((i.readLoop killed target n dst).1,
        (i.readLoop killed target n dst).2.2.at (i.readLoop killed target n dst).2.1) := by
  fun_induction Input.readLoop i killed target n dst with
  | case1 i n dst more empty =>
    refine .single ⟨target, n, dst, rfl, ?_⟩
    rw [Input.readRound, if_neg (Int32.not_le.mpr more), if_pos (beq_iff_eq.mpr empty)]
    cases killed <;> rfl
  | case2 i n dst more nonempty =>
    rename_i eof
    refine .single ⟨target, n, dst, rfl, ?_⟩
    rw [Input.readRound, if_neg (Int32.not_le.mpr more), if_neg (by simpa using nonempty),
      if_pos eof]
    split
    · rw [UInt32.add_sub_cancel]
      rfl
    · rfl
  | case3 i n dst more nonempty =>
    rename_i ends
    refine .single ⟨target, n, dst, rfl, ?_⟩
    rw [Input.readRound, if_neg (Int32.not_le.mpr more), if_neg (by simpa using nonempty),
      if_neg (by assumption), if_pos ends]
    rfl
  | case4 i n dst more nonempty =>
    rename_i inLine ih
    refine .head ⟨target, n, dst, rfl, ?_⟩ ih
    rw [Input.readRound, if_neg (Int32.not_le.mpr more), if_neg (by simpa using nonempty),
      if_neg (by assumption), if_neg inLine]
  | case5 i n dst done =>
    refine .single ⟨target, n, dst, rfl, ?_⟩
    rw [Input.readRound, if_pos (Int32.not_lt.mp done)]
    rfl

end Rounds

/-- All characters that the editor has. -/
def Editor.text (ed : Editor) : List UInt8 := ed.committed ++ ed.tail

/-- The input buffer is the one of the editor. -/
structure Tracks (i : Input) (ed : Editor) : Prop where
  r_eq : i.r = UInt32.ofNat ed.taken
  w_eq : i.w = UInt32.ofNat ed.committed.length
  e_eq : i.e = UInt32.ofNat (ed.committed.length + ed.tail.length)
  taken_le : ed.taken ≤ ed.committed.length
  fits : ed.committed.length + ed.tail.length ≤ ed.taken + inputBuf
  holds : ∀ k, ed.taken ≤ k → k < ed.committed.length + ed.tail.length →
    ed.text[k]? = some (i.buf (k % inputBuf))
  one_line : newline ∉ ed.tail
  /-- No control-D is in the buffer, as `consoleintr` takes it as a command. -/
  no_eof : ctrl 'D' ∉ ed.text

/-- Indices that are near subtract as numbers do. -/
theorem ofNat_sub_toNat {a b : Nat} (le : b ≤ a) (near : a ≤ b + inputBuf) :
    (UInt32.ofNat a - UInt32.ofNat b).toNat = a - b := by
  unfold inputBuf at near
  simp only [UInt32.toNat_sub, UInt32.toNat_ofNat']
  omega

/-- The slot of an index. -/
theorem slot_ofNat (k : Nat) : (UInt32.ofNat k).toNat % inputBuf = k % inputBuf := by
  rw [UInt32.toNat_ofNat']
  exact Nat.mod_mod_of_dvd k (by decide)

/-- The index before. -/
theorem ofNat_succ_sub (k : Nat) : UInt32.ofNat (k + 1) - 1 = UInt32.ofNat k := by
  rw [UInt32.ofNat_add]
  exact UInt32.add_sub_cancel _ _

namespace Tracks

variable {i : Input} {ed : Editor}

variable (tracks : Tracks i ed)

include tracks

/-- What readers have left of the finished lines. -/
theorem w_sub_r : (i.w - i.r).toNat = ed.committed.length - ed.taken := by
  have fits := tracks.fits
  rw [tracks.w_eq, tracks.r_eq]
  exact ofNat_sub_toNat tracks.taken_le (by omega)

/-- The line that is being edited. -/
theorem e_sub_w : (i.e - i.w).toNat = ed.tail.length := by
  have fits := tracks.fits
  have taken := tracks.taken_le
  rw [tracks.e_eq, tracks.w_eq, ofNat_sub_toNat (by omega) (by omega)]
  omega

/-- All that the buffer holds. -/
theorem e_sub_r : (i.e - i.r).toNat = ed.held := by
  have taken := tracks.taken_le
  rw [tracks.e_eq, tracks.r_eq]
  exact ofNat_sub_toNat (by omega) tracks.fits

/-- The line is empty. -/
theorem e_eq_w_iff : i.e = i.w ↔ ed.tail = [] := by
  have apart := tracks.e_sub_w
  constructor
  · intro same
    rw [same, UInt32.sub_self, UInt32.toNat_zero] at apart
    exact List.eq_nil_of_length_eq_zero apart.symm
  · intro empty
    rw [tracks.e_eq, tracks.w_eq, empty]
    rfl

/-- There is nothing to read. -/
theorem r_eq_w_iff : i.r = i.w ↔ ed.taken = ed.committed.length := by
  have taken := tracks.taken_le
  have apart := tracks.w_sub_r
  constructor
  · intro same
    rw [same, UInt32.sub_self, UInt32.toNat_zero] at apart
    omega
  · intro same
    rw [tracks.r_eq, tracks.w_eq, same]

/-- The last character of the line is deleted. -/
theorem delete {rest : List UInt8} {c : UInt8} (ends : ed.tail = rest ++ [c]) :
    i.buf ((i.e - 1).toNat % inputBuf) = c ∧
      Tracks { i with e := i.e - 1 } { ed with tail := rest } := by
  have longer : ed.tail.length = rest.length + 1 := by rw [ends, List.length_append]; rfl
  have text : ed.text = ed.committed ++ rest ++ [c] := by
    rw [Editor.text, ends, List.append_assoc]
  have edit : i.e - 1 = UInt32.ofNat (ed.committed.length + rest.length) := by
    rw [tracks.e_eq, longer, ← Nat.add_assoc, ofNat_succ_sub]
  have taken := tracks.taken_le
  have fits := tracks.fits
  constructor
  · have last := tracks.holds (ed.committed.length + rest.length) (by omega) (by omega)
    rw [text, ← List.length_append, List.getElem?_concat_length] at last
    rw [edit, slot_ofNat, ← List.length_append]
    exact (Option.some.inj last).symm
  · refine ⟨tracks.r_eq, tracks.w_eq, edit, taken, ?_, ?_, ?_, ?_⟩
    · show ed.committed.length + rest.length ≤ ed.taken + inputBuf
      omega
    · intro k after before
      change k < ed.committed.length + rest.length at before
      have same := tracks.holds k after (by omega)
      rwa [text, List.getElem?_append_left (by rw [List.length_append]; exact before)] at same
    · intro member
      exact tracks.one_line (ends ▸ List.mem_append_left _ member)
    · intro member
      exact tracks.no_eof (text ▸ List.mem_append_left _ member)

/-- Kill line drops the line. -/
theorem killLine : Tracks i.killLine { ed with tail := [] } := by
  obtain ⟨line, same⟩ : ∃ line, ed.tail = line := ⟨_, rfl⟩
  induction line using List.reverseRecOn generalizing i ed with
  | nil =>
    have stays : ¬(i.e ≠ i.w ∧ i.buf ((i.e - 1).toNat % inputBuf) ≠ newline) :=
      fun more => more.1 (tracks.e_eq_w_iff.mpr same)
    rw [Input.killLine, if_neg stays, ← same]
    exact tracks
  | append_singleton rest c ih =>
    obtain ⟨last, shorter⟩ := tracks.delete same
    have more : i.e ≠ i.w := fun equal => by
      rw [tracks.e_eq_w_iff.mp equal] at same
      exact List.append_ne_nil_of_right_ne_nil rest (List.cons_ne_nil c []) same.symm
    have inLine : c ≠ newline := fun equal => by
      refine tracks.one_line ?_
      rw [same, ← equal]
      exact List.mem_append_right _ List.mem_cons_self
    rw [Input.killLine, if_pos ⟨more, last.symm ▸ inLine⟩]
    have killed := ih shorter rfl
    exact killed

/-- Backspace drops its last byte. -/
theorem backspace :
    Tracks (if i.e ≠ i.w then { i with e := i.e - 1 } else i)
      { ed with tail := ed.tail.dropLast } := by
  by_cases empty : ed.tail = []
  · rw [if_neg (not_not.mpr (tracks.e_eq_w_iff.mpr empty)), empty, List.dropLast_nil, ← empty]
    exact tracks
  · rw [if_pos (fun equal => empty (tracks.e_eq_w_iff.mp equal))]
    exact (tracks.delete (List.dropLast_append_getLast empty).symm).2

/-- A byte is stored behind the line. -/
theorem put (room : ed.held < inputBuf) (c : UInt8) {k : Nat} (after : ed.taken ≤ k)
    (before : k < ed.committed.length + ed.tail.length + 1) :
    (ed.text ++ [c])[k]? = some (update i.buf (i.e.toNat % inputBuf) c (k % inputBuf)) := by
  have length : ed.text.length = ed.committed.length + ed.tail.length := List.length_append
  have taken := tracks.taken_le
  unfold Editor.held at room
  rw [tracks.e_eq, slot_ofNat]
  by_cases last : k = ed.committed.length + ed.tail.length
  · rw [last, update_self, ← length, List.getElem?_concat_length]
  · -- The slots of the characters that are held are apart.
    have apart : k % inputBuf ≠ (ed.committed.length + ed.tail.length) % inputBuf := by
      unfold inputBuf at room ⊢
      omega
    rw [update_of_ne apart, List.getElem?_append_left (by omega)]
    exact tracks.holds k after (by omega)

/-- A zero is dropped, and so is everything when the buffer is full. -/
theorem refuse {c : UInt8} (refused : c = 0 ∨ inputBuf ≤ ed.held) : i.accept c = i := by
  have guard : ¬(c ≠ 0 ∧ i.e - i.r < UInt32.ofNat inputBuf) := by
    rw [UInt32.lt_iff_toNat_lt, tracks.e_sub_r]
    intro room
    obtain zero | full := refused
    · exact room.1 zero
    · exact absurd room.2 (not_lt.mpr full)
  rw [Input.accept, if_neg guard]

/-- A byte is taken into the line, and may finish it. -/
theorem accept {c : UInt8} (real : c ≠ 0) (text : c ≠ ctrl 'D') (room : ed.held < inputBuf) :
    Tracks (i.accept c) (ed.accept (if c = 13 then newline else c)) := by
  have below : i.e - i.r < UInt32.ofNat inputBuf := by
    rw [UInt32.lt_iff_toNat_lt, tracks.e_sub_r]
    exact room
  have full : i.e + 1 = i.r + UInt32.ofNat inputBuf ↔ ed.held + 1 = inputBuf := by
    have taken := tracks.taken_le
    have fits := tracks.fits
    unfold Editor.held at room ⊢
    rw [tracks.e_eq, tracks.r_eq, ← UInt32.toNat_inj]
    unfold inputBuf at room fits ⊢
    simp only [UInt32.toNat_add, UInt32.toNat_ofNat', UInt32.toNat_one]
    omega
  obtain ⟨d, d_eq⟩ : ∃ d, d = if c = 13 then newline else c := ⟨_, rfl⟩
  have plain : d ≠ ctrl 'D' := by
    rw [d_eq]
    split
    · decide
    · exact text
  have edit : i.e + 1 = UInt32.ofNat (ed.committed.length + ed.tail.length + 1) := by
    rw [UInt32.ofNat_add, tracks.e_eq]
    rfl
  have taken := tracks.taken_le
  rw [Input.accept, if_pos ⟨real, below⟩, ← d_eq, Editor.accept]
  simp only [plain, false_or, full]
  unfold Editor.held at room ⊢
  have eof : ctrl 'D' ∉ ed.text ++ [d] := by
    rw [List.mem_append, List.mem_singleton, not_or]
    exact ⟨tracks.no_eof, plain.symm⟩
  split
  next ends =>
    -- The line is committed with the character.
    have length : (ed.committed ++ ed.tail ++ [d]).length =
        ed.committed.length + ed.tail.length + 1 := by
      rw [List.length_append, List.length_append, List.length_singleton]
    refine ⟨tracks.r_eq, length ▸ edit, length ▸ edit, ?_, ?_, ?_, List.not_mem_nil, ?_⟩
    · simp only [length]
      omega
    · simp only [length, List.length_nil]
      omega
    · intro k after before
      simp only [length, List.length_nil, Nat.add_zero] at before
      simp only [Editor.text, List.append_nil]
      exact tracks.put room d after before
    · simp only [Editor.text, List.append_nil]
      exact eof
  next waits =>
    have length : (ed.tail ++ [d]).length = ed.tail.length + 1 := List.length_append
    refine ⟨tracks.r_eq, tracks.w_eq, length ▸ edit, taken, ?_, ?_, ?_, ?_⟩
    · simp only [length]
      omega
    · intro k after before
      simp only [length, ← Nat.add_assoc] at before
      simp only [Editor.text, ← List.append_assoc]
      exact tracks.put room d after before
    · rw [List.mem_append, List.mem_singleton, not_or]
      exact ⟨tracks.one_line, fun same => waits (.inl same.symm)⟩
    · simp only [Editor.text, ← List.append_assoc]
      exact eof

/-- Every key does to the buffer what it does to the editor. -/
theorem key (c : UInt8) : Tracks (i.key c) (ed.type c) := by
  unfold Input.key Editor.type
  by_cases kill : c = ctrl 'U'
  · rw [if_pos kill, if_pos kill, if_neg (by rw [kill]; decide)]
    exact tracks.killLine
  by_cases back : c = ctrl 'H' ∨ c = 0x7f
  · rw [if_neg kill, if_pos back, if_neg kill, if_pos back]
    split
    next dump => rw [dump] at back; exact absurd back (by decide)
    next _ => exact tracks.backspace
  rw [if_neg kill, if_neg kill, if_neg back, if_neg back]
  by_cases ignored : c = ctrl 'P' ∨ c = ctrl 'D' ∨ c = 0 ∨ inputBuf ≤ ed.held
  · have same : (if c = ctrl 'P' then i else if c = ctrl 'D' then i else i.accept c) = i := by
      obtain dump | shutdown | refused := ignored
      · exact if_pos dump
      · rw [if_pos shutdown, ite_self]
      · rw [tracks.refuse refused, ite_self, ite_self]
    rw [if_pos ignored, same]
    exact tracks
  · rw [if_neg ignored]
    simp only [not_or, not_le] at ignored
    obtain ⟨dump, shutdown, zero, room⟩ := ignored
    rw [if_neg dump, if_neg shutdown]
    exact tracks.accept zero shutdown room

/-- So do the keys of an interrupt. -/
theorem consoleintr (chars : List UInt8) :
    Tracks (i.consoleintr chars) (chars.foldl Editor.type ed) := by
  unfold Input.consoleintr
  induction chars generalizing i ed with
  | nil => exact tracks
  | cons c chars ih => exact ih (tracks.key c)

/-- A reader gets the next byte. -/
theorem next (more : i.r ≠ i.w) :
    ∃ rest, ed.committed.drop ed.taken = i.buf (i.r.toNat % inputBuf) :: rest ∧
      i.buf (i.r.toNat % inputBuf) ≠ ctrl 'D' ∧
      Tracks { i with r := i.r + 1 } { ed with taken := ed.taken + 1 } := by
  have taken := tracks.taken_le
  have fits := tracks.fits
  have apart : ed.taken ≠ ed.committed.length := fun same => more (tracks.r_eq_w_iff.mpr same)
  have byte := tracks.holds ed.taken (le_refl _) (by omega)
  have slot : i.r.toNat % inputBuf = ed.taken % inputBuf := by rw [tracks.r_eq, slot_ofNat]
  rw [← slot] at byte
  refine ⟨ed.committed.drop (ed.taken + 1), ?_, ?_, ?_⟩
  · rw [Editor.text, List.getElem?_append_left (by omega)] at byte
    obtain ⟨inside, byte⟩ := List.getElem?_eq_some_iff.mp byte
    rw [← byte]
    exact List.drop_eq_getElem_cons inside
  · intro eof
    rw [eof] at byte
    exact tracks.no_eof (List.mem_of_getElem? byte)
  · refine ⟨?_, tracks.w_eq, tracks.e_eq, Nat.lt_of_le_of_ne taken apart,
      Nat.le_trans fits ?_, ?_, tracks.one_line, tracks.no_eof⟩
    · rw [UInt32.ofNat_add, ← tracks.r_eq]
      rfl
    · exact Nat.add_le_add_right (Nat.le_succ _) _
    · intro k after before
      exact tracks.holds k (Nat.le_of_succ_le after) before

/-- A critical section of `consoleread` copies the next bytes. -/
theorem readLoop (killed : Bool) (target : UInt32) (n : Int32) (dst : List UInt8) :
    ∃ bytes, (i.readLoop killed target n dst).2.1 = dst ++ bytes ∧
      bytes <+: ed.committed.drop ed.taken ∧
      Tracks (i.readLoop killed target n dst).1 { ed with taken := ed.taken + bytes.length } := by
  fun_induction Input.readLoop i killed target n dst generalizing ed with
  | case1 i n dst more empty =>
    exact ⟨[], (List.append_nil dst).symm, List.nil_prefix, tracks⟩
  | case2 i n dst more nonempty =>
    rename_i eof
    obtain ⟨_, _, text, _⟩ := tracks.next nonempty
    exact absurd eof text
  | case3 i n dst more nonempty c =>
    obtain ⟨rest, drop, _, moved⟩ := tracks.next nonempty
    exact ⟨[c], rfl, ⟨rest, drop.symm⟩, moved⟩
  | case4 i n dst more nonempty c =>
    rename_i ih
    obtain ⟨rest, drop, _, moved⟩ := tracks.next nonempty
    obtain ⟨bytes, copied, first, tracks⟩ := ih moved
    refine ⟨c :: bytes, ?_, ?_, ?_⟩
    · rw [copied, List.append_assoc]
      rfl
    · have later : rest = ed.committed.drop (ed.taken + 1) := by
        rw [← List.tail_drop, drop]
        rfl
      rw [drop, later]
      exact (List.prefix_cons_inj c).mpr first
    · rw [List.length_cons, Nat.add_comm bytes.length, ← Nat.add_assoc]
      exact tracks
  | case5 i n dst done =>
    exact ⟨[], (List.append_nil dst).symm, List.nil_prefix, tracks⟩

/-- What is there to read. -/
theorem unread_eq : i.unread = ed.committed.drop ed.taken := by
  have taken := tracks.taken_le
  unfold Input.unread
  rw [tracks.w_sub_r]
  refine List.ext_getElem? fun k => ?_
  by_cases inside : k < ed.committed.length - ed.taken
  · have byte := tracks.holds (ed.taken + k) (by omega) (by omega)
    rw [Editor.text, List.getElem?_append_left (by omega)] at byte
    have slot : (i.r.toNat + k) % inputBuf = (ed.taken + k) % inputBuf := by
      rw [Nat.add_mod, tracks.r_eq, slot_ofNat, ← Nat.add_mod]
    rw [List.getElem?_map, List.getElem?_range inside, List.getElem?_drop, byte, ← slot]
    rfl
  · rw [List.getElem?_eq_none (by simp only [List.length_map, List.length_range]; omega),
      List.getElem?_eq_none (by rw [List.length_drop]; omega)]

end Tracks

/-- Typing only adds to what is committed. -/
theorem Editor.committed_prefix (chars : List UInt8) (ed : Editor) :
    ed.committed <+: (chars.foldl type ed).committed ∧ (chars.foldl type ed).taken = ed.taken := by
  induction chars generalizing ed with
  | nil => exact ⟨List.prefix_refl _, rfl⟩
  | cons c chars ih =>
    have once : ed.committed <+: (ed.type c).committed ∧ (ed.type c).taken = ed.taken := by
      unfold type accept
      split_ifs <;> simp
    exact ⟨once.1.trans (ih (ed.type c)).1, (ih (ed.type c)).2.trans once.2⟩

section Runs

variable {Reader : Type} [DecidableEq Reader] {past : List (LineEvent Reader)} {s t : Line Reader}

/-- The buffer tracks the editor, and readers got what it says was taken. -/
structure Follows (past : List (LineEvent Reader)) (s : Line Reader) : Prop where
  tracks : Tracks s.input (Editor.after past)
  got : delivered past = (Editor.after past).committed.take (Editor.after past).taken

/-- A critical section of `consoleread`. -/
theorem Follows.run {p : Reader} {target : UInt32} {n : Int32} {bytes : List UInt8}
    {ed : Editor} {got : List UInt8} (tracks : Tracks s.input ed)
    (before : got = ed.committed.take ed.taken) (ran : s.run p target n bytes = some t) :
    Tracks t.input { ed with taken := ed.taken + bytes.length } ∧
      got ++ bytes = ed.committed.take (ed.taken + bytes.length) := by
  obtain ⟨copied, same, first, kept⟩ := tracks.readLoop (s.killed p) target n []
  simp only [Line.run, List.nil_append] at ran same
  rw [same] at ran
  split at ran
  next equal =>
    cases ran
    subst equal
    refine ⟨kept, ?_⟩
    rw [before, List.take_add, ← List.prefix_iff_eq_take.mp first]
  next => cases ran

/-- Every step keeps the buffer and the editor together. -/
theorem Follows.step {event : LineEvent Reader} (follows : Follows past s)
    (taken : s.step event = some t) : Follows (event :: past) t := by
  obtain ⟨tracks, got⟩ := follows
  cases event with
  | intr chars =>
    cases taken
    refine ⟨tracks.consoleintr chars, ?_⟩
    obtain ⟨first, same⟩ := Editor.committed_prefix chars (Editor.after past)
    show delivered past = _
    obtain ⟨line, grown⟩ := first
    simp only [Editor.after, got, same, ← grown]
    rw [List.take_append_of_le_length tracks.taken_le]
  | read p n bytes =>
    simp only [Line.step] at taken
    split at taken
    · obtain ⟨tracks, got⟩ := Follows.run tracks got taken
      exact ⟨tracks, got⟩
    · cases taken
  | wake p bytes =>
    simp only [Line.step] at taken
    split at taken
    · cases taken
    · obtain ⟨tracks, got⟩ := Follows.run tracks got taken
      exact ⟨tracks, got⟩
  | kill p =>
    cases taken
    exact ⟨tracks, got⟩

/-- So does every run. -/
theorem Follows.of_ran (ran : Line.Ran past s) : Follows past s := by
  refine ran.invariant Follows (fun s initial => ?_) fun _ _ _ _ _ follows taken =>
    follows.step taken
  obtain ⟨r, w, e, _⟩ := initial
  refine ⟨⟨r, w, e, le_refl _, Nat.zero_le _, ?_, List.not_mem_nil, List.not_mem_nil⟩, rfl⟩
  intro k _ inside
  exact absurd inside (Nat.not_lt_zero k)

/-- What readers got and what they can still take is what was committed. -/
theorem delivered_append_unread (ran : Line.Ran past s) :
    delivered past ++ s.input.unread = (Editor.after past).committed := by
  have follows := Follows.of_ran ran
  rw [follows.got, follows.tracks.unread_eq]
  exact List.take_append_drop _ _

/-- The console is a faithful line editor: however the indices wrap, what lies between them fits the
buffer, a call of `consoleintr` leaves what is committed and not yet read, and what readers got is a
prefix of what was committed. -/
theorem console_faithful (ran : Line.Ran past s) :
    (s.input.w - s.input.r).toNat + (s.input.e - s.input.w).toNat ≤ inputBuf ∧
      (∀ chars, (s.input.consoleintr chars).r = s.input.r ∧
        s.input.unread <+: (s.input.consoleintr chars).unread) ∧
      delivered past <+: (Editor.after past).committed := by
  have follows := Follows.of_ran ran
  have fits := follows.tracks.fits
  have taken := follows.tracks.taken_le
  refine ⟨?_, fun chars => ?_, ⟨_, delivered_append_unread ran⟩⟩
  · rw [follows.tracks.w_sub_r, follows.tracks.e_sub_w]
    omega
  · have typed := follows.tracks.consoleintr chars
    obtain ⟨first, same⟩ := Editor.committed_prefix chars (Editor.after past)
    constructor
    · rw [typed.r_eq, follows.tracks.r_eq, same]
    · rw [typed.unread_eq, follows.tracks.unread_eq, same]
      exact List.IsPrefix.drop first _

/-- A line is killed, another one is typed with a correction and read, and then the buffer is filled
without a newline and read. -/
def edited : List (LineEvent Unit) :=
  [.intr [120, 121, ctrl 'U', 97, 98, ctrl 'H', 99, 13], .read () 4 [97, 99, newline],
    .intr (List.replicate 130 122), .read () 130 (List.replicate inputBuf 122)]

/-- What that reader got is the corrected line, and as much as fits the buffer. -/
theorem console_faithful_edited :
    ∃ s, Line.Ran edited.reverse s ∧ delivered edited.reverse =
        [97, 99, newline] ++ List.replicate inputBuf 122 ∧
      delivered edited.reverse <+: (Editor.after edited.reverse).committed := by
  have run : (replay Line.step edited ⟨⟨fun _ => 0, 0, 0, 0⟩, fun _ => .out, fun _ => false⟩).any
      (fun s => decide (s.reader () = .asleep 130 2)) = true := by decide +kernel
  obtain ⟨s, ran, -⟩ : ∃ s, Line.Ran edited.reverse s ∧ _ :=
    History.of_replay ⟨rfl, rfl, rfl, fun _ => rfl⟩ run
  exact ⟨s, ran, by decide +kernel, (console_faithful ran).2.2⟩

end Runs

end Xv6.Console
