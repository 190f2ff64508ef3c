import Mathlib.Data.List.TakeWhile
import Xv6.Lib.Wp
import Xv6.User.Sh

/-!
# The words of a command line

A word that `gettoken` delimits has no white space, symbol or `NUL` in it, and the byte behind it is
one of these. So the bytes that `nulterminate` clears are in no word: each word keeps its bytes, and
a `NUL` comes behind it.
-/

namespace Xv6.Sh

open Lib

/-- The words of the tree: those of `argv` and the files. -/
def Cmd.words : Cmd → List (Nat × Nat)
  | .exec args => args
  | .redir cmd file efile _ _ => cmd.words ++ [(file, efile)]
  | .pipe left right | .list left right => left.words ++ right.words
  | .back cmd => cmd.words

/-- `gettoken` delimits a word there. -/
def Line.Delimits (line : Line) (word : Nat × Nat) : Prop :=
  ∃ s next, gettoken line s = .ok (('a'.toUInt8, word), next)

/-- The bytes of a word. -/
def Line.word (line : Line) (word : Nat × Nat) : List UInt8 :=
  (line.bytes.drop word.1).take (word.2 - word.1)

/-- The C string at an address of a buffer. -/
def cstring (buf : List UInt8) (a : Nat) : List UInt8 := (buf.drop a).takeWhile (· ≠ 0)

/-! ## Words of a line -/

section Words

variable {line : Line} {p : UInt8 → Bool} {s k : Nat}

variable {c : UInt8} {word : Nat × Nat}

/-- What a list has behind the elements that are taken. -/
theorem getElem?_length_takeWhile (l : List UInt8) (found : l[(l.takeWhile p).length]? = some c) :
    p c = false := by
  induction l with
  | nil => cases found
  | cons b l ih =>
    cases taken : p b with
    | false =>
      simp only [List.takeWhile_cons, taken, Bool.false_eq_true, if_false, List.length_nil,
        List.getElem?_cons_zero, Option.some.injEq] at found
      rw [← found, taken]
    | true =>
      simp only [List.takeWhile_cons, taken, if_true, List.length_cons,
        List.getElem?_cons_succ] at found
      exact ih found

/-- The byte at a place. -/
theorem char_of_getElem? (found : line.bytes[s]? = some c) : line.char s = c := by
  rw [Line.char, List.getD_eq_getElem?_getD, found, Option.getD_some]

/-- It is no zero before the end. -/
theorem char_ne_zero (inside : s < line.es) : line.char s ≠ 0 := by
  have found : line.bytes[s]? = some (line.bytes.get ⟨s, inside⟩) := List.getElem?_eq_getElem inside
  rw [char_of_getElem? found]
  intro zero
  exact line.string (zero ▸ List.get_mem line.bytes ⟨s, inside⟩)

/-- `skip` stops at the first byte that is none of those to skip. -/
theorem skip_passes (start : s ≤ k) (below : k < line.skip p s) :
    k < line.es ∧ p (line.char k) = true := by
  have taken : k - s < ((line.bytes.drop s).takeWhile p).length := by
    unfold Line.skip at below
    omega
  have inside : k < line.es := by
    have bound := (List.takeWhile_prefix (l := line.bytes.drop s) p).length_le
    rw [List.length_drop] at bound
    unfold Line.es
    omega
  have member := List.getElem_mem taken
  have same : ((line.bytes.drop s).takeWhile p)[k - s] = line.bytes.get ⟨k, inside⟩ := by
    rw [(List.takeWhile_prefix p).getElem taken, List.getElem_drop]
    simp only [Nat.add_sub_cancel' start, List.get_eq_getElem]
  refine ⟨inside, ?_⟩
  rw [char_of_getElem? (List.getElem?_eq_getElem inside)]
  rw [same] at member
  exact List.mem_takeWhile_imp member

/-- The character before which `skip` stops. -/
theorem skip_stops (inside : line.skip p s < line.es) : p (line.char (line.skip p s)) = false := by
  have found : (line.bytes.drop s)[((line.bytes.drop s).takeWhile p).length]? =
      some (line.bytes.get ⟨line.skip p s, inside⟩) := by
    rw [List.getElem?_drop]
    exact List.getElem?_eq_getElem inside
  rw [char_of_getElem? (List.getElem?_eq_getElem inside)]
  exact getElem?_length_takeWhile _ found

/-- Neither white space nor a symbol. -/
def isWord (c : UInt8) : Bool := !whitespace.contains c && !symbols.contains c

/-- A word goes up to the next byte that is none of a word. -/
theorem token_word {q : Nat} (kind : (line.token q).1 = 'a'.toUInt8) :
    line.char q ≠ 0 ∧ (line.token q).2 = line.skip isWord q := by
  unfold Line.token at kind ⊢
  dsimp only at kind ⊢
  split_ifs at kind ⊢ with zero symbol greater double
  · exact absurd (show (0 : UInt8) = 'a'.toUInt8 from kind) (by decide)
  · rw [show line.char q = 'a'.toUInt8 from kind] at symbol
    exact absurd symbol (by decide)
  · exact absurd (show '+'.toUInt8 = 'a'.toUInt8 from kind) (by decide)
  · rw [show line.char q = 'a'.toUInt8 from kind] at greater
    exact absurd greater (by decide)
  · exact ⟨zero, rfl⟩

/-- What `gettoken` returns and where it leaves the cursor. -/
theorem gettoken_eq (line : Line) (s : Nat) :
    gettoken line s = .ok (((line.token (line.skipSpace s)).1, line.skipSpace s,
      (line.token (line.skipSpace s)).2), line.skipSpace (line.token (line.skipSpace s)).2) :=
  rfl

/-- A word that is delimited ends where `skip` stops. -/
theorem Line.Delimits.ends (delimits : line.Delimits word) :
    word.1 < line.es ∧ word.2 = line.skip isWord word.1 := by
  obtain ⟨s, next, ends⟩ := delimits
  obtain ⟨q, eq⟩ := word
  rw [gettoken_eq] at ends
  simp only [Except.ok.injEq, Prod.mk.injEq] at ends
  obtain ⟨⟨kind, rfl, rfl⟩, -⟩ := ends
  obtain ⟨nonzero, ends⟩ := token_word kind
  refine ⟨?_, ends⟩
  by_contra behind
  apply nonzero
  rw [Line.char, List.getD_eq_getElem?_getD, List.getElem?_eq_none (Nat.le_of_not_lt behind)]
  rfl

/-- No word has the byte behind a word in it. -/
theorem Line.Delimits.apart {other : Nat × Nat} (delimits : line.Delimits word)
    (delimits' : line.Delimits other) (before : word.1 ≤ other.2) : word.2 ≤ other.2 := by
  by_contra below
  rw [delimits.ends.2] at below
  obtain ⟨inside, passed⟩ := skip_passes before (Nat.lt_of_not_le below)
  have stopped := delimits'.ends.2
  rw [stopped] at inside passed
  rw [skip_stops inside] at passed
  cases passed

/-- A word is inside the line. -/
theorem Line.Delimits.le_es (delimits : line.Delimits word) :
    word.1 ≤ word.2 ∧ word.2 ≤ line.es := by
  obtain ⟨inside, ends⟩ := delimits.ends
  rw [ends]
  refine ⟨Nat.le_add_right _ _, ?_⟩
  by_contra behind
  have last := (skip_passes (Nat.le_of_lt inside) (Nat.lt_of_not_le behind)).1
  exact absurd last (Nat.lt_irrefl _)

end Words

/-! ## What the parser delimits -/

variable {line : Line} {fuel s : Nat}

/-- Any panic is allowed. -/
def anyPanic : String → Prop := fun _ => True

/-- All words of a tree are delimited by `gettoken`. -/
def Line.Words (line : Line) (cmd : Cmd) : Prop := ∀ word ∈ cmd.words, line.Delimits word

/-- `gettoken` delimits words. -/
theorem gettoken_delimits : Wp anyPanic (gettoken line)
    (fun r _ => r.1 = 'a'.toUInt8 → line.Delimits r.2) s := by
  apply Wp.of_ok (gettoken_eq line s)
  intro kind
  refine ⟨s, line.skipSpace (line.token (line.skipSpace s)).2, ?_⟩
  rw [gettoken_eq, ← kind]

/-- The files of redirections are delimited. -/
def Line.Files (line : Line) (redirs : List Redir) : Prop :=
  ∀ r ∈ redirs, line.Delimits (r.file, r.efile)

variable {redirs : List Redir} {cmd : Cmd}

/-- One redirection more. -/
theorem Line.Files.snoc {r : Redir} (files : line.Files redirs)
    (last : line.Delimits (r.file, r.efile)) : line.Files (redirs ++ [r]) := by
  intro r' member
  rcases List.mem_append.mp member with old | new
  · exact files r' old
  · rw [List.mem_singleton.mp new]
    exact last

/-- The words of a command with redirections. -/
theorem Line.Words.redircmds (files : line.Files redirs) (words : line.Words cmd) :
    line.Words (redircmds cmd redirs) := by
  induction redirs generalizing cmd with
  | nil => exact words
  | cons r redirs ih =>
    apply ih fun r' member => files r' (.tail _ member)
    intro word member
    rcases List.mem_append.mp member with old | new
    · exact words word old
    · rw [List.mem_singleton.mp new]
      exact files r (.head _)

/-- The words of two commands. -/
theorem Line.Words.append {left right : Cmd} (first : line.Words left) (second : line.Words right)
    (word : Nat × Nat) (member : word ∈ left.words ++ right.words) : line.Delimits word :=
  (List.mem_append.mp member).elim (first word) (second word)

/-- `parseredirs` delimits the names of files. -/
theorem parseredirs_files (fuel : Nat) (files : line.Files redirs) :
    Wp anyPanic (parseredirs line fuel redirs) (fun r _ => line.Files r) s := by
  induction fuel generalizing redirs s with
  | zero => exact Wp.throw trivial
  | succ fuel ih =>
    unfold parseredirs
    apply Wp.bind Wp.trivial
    intro _ s₁ _
    apply Wp.ite
    · intro _
      apply Wp.bind Wp.trivial
      rintro ⟨tok, -⟩ s₂ -
      apply Wp.bind gettoken_delimits
      rintro ⟨kind, q, eq⟩ s₃ delimits
      dsimp only
      apply Wp.ite
      · exact fun _ => Wp.throw_bind trivial
      intro word
      have last := delimits (not_not.mp word)
      apply Wp.ite
      · exact fun _ => ih (files.snoc last)
      · intro _
        apply Wp.ite
        · exact fun _ => ih (files.snoc last)
        · exact fun _ => ih files
    · exact fun _ => Wp.pure files

/-- `parseexec` delimits the arguments. -/
theorem parseargs_words (fuel : Nat) {args : List (Nat × Nat)} (words : line.Words (.exec args))
    (files : line.Files redirs) :
    Wp anyPanic (parseargs line fuel args redirs) (fun cmd _ => line.Words cmd) s := by
  induction fuel generalizing args redirs s with
  | zero => exact Wp.throw trivial
  | succ fuel ih =>
    unfold parseargs
    apply Wp.bind Wp.trivial
    intro _ s₁ _
    apply Wp.ite
    · exact fun _ => Wp.pure (words.redircmds files)
    intro _
    apply Wp.bind gettoken_delimits
    rintro ⟨tok, q, eq⟩ s₂ delimits
    dsimp only
    apply Wp.ite
    · exact fun _ => Wp.pure (words.redircmds files)
    intro _
    apply Wp.ite
    · exact fun _ => Wp.throw_bind trivial
    intro word
    apply Wp.ite
    · exact fun _ => Wp.throw_bind trivial
    intro _
    apply Wp.bind (parseredirs_files fuel files)
    intro redirs s₃ files
    refine ih (fun word' member => ?_) files
    rcases List.mem_append.mp member with old | new
    · exact words word' old
    · rw [List.mem_singleton.mp new]
      exact delimits (not_not.mp word)

/-- The loop of `parseline` leaves them. -/
theorem parseback_words (fuel : Nat) (words : line.Words cmd) :
    Wp anyPanic (parseback line fuel cmd) (fun cmd _ => line.Words cmd) s := by
  induction fuel generalizing cmd s with
  | zero => exact Wp.throw trivial
  | succ fuel ih =>
    unfold parseback
    apply Wp.bind Wp.trivial
    intro _ s₁ _
    apply Wp.ite
    · intro _
      apply Wp.bind Wp.trivial
      exact fun _ _ _ => ih words
    · exact fun _ => Wp.pure words

/-- The four functions of the parser, by induction on the fuel that they share. -/
theorem parse_words (fuel : Nat) : ∀ s,
    Wp anyPanic (parseline line fuel) (fun cmd _ => line.Words cmd) s ∧
    Wp anyPanic (parsepipe line fuel) (fun cmd _ => line.Words cmd) s ∧
    Wp anyPanic (parseexec line fuel) (fun cmd _ => line.Words cmd) s ∧
    Wp anyPanic (parseblock line fuel) (fun cmd _ => line.Words cmd) s := by
  induction fuel with
  | zero => exact fun s => ⟨Wp.throw trivial, Wp.throw trivial, Wp.throw trivial, Wp.throw trivial⟩
  | succ fuel ih =>
    intro s
    refine ⟨?line, ?pipe, ?exec, ?block⟩
    case line =>
      unfold parseline
      apply Wp.bind (ih s).2.1
      intro cmd s₁ words
      apply Wp.bind (parseback_words fuel words)
      intro cmd s₂ words
      apply Wp.bind Wp.trivial
      intro _ s₃ _
      apply Wp.ite
      · intro _
        apply Wp.bind Wp.trivial
        intro _ s₄ _
        apply Wp.bind (ih s₄).1
        exact fun rest _ words' => Wp.pure (words.append words')
      · exact fun _ => Wp.pure words
    case pipe =>
      unfold parsepipe
      apply Wp.bind (ih s).2.2.1
      intro cmd s₁ words
      apply Wp.bind Wp.trivial
      intro _ s₂ _
      apply Wp.ite
      · intro _
        apply Wp.bind Wp.trivial
        intro _ s₃ _
        apply Wp.bind (ih s₃).2.1
        exact fun rest _ words' => Wp.pure (words.append words')
      · exact fun _ => Wp.pure words
    case exec =>
      unfold parseexec
      apply Wp.bind Wp.trivial
      intro _ s₁ _
      apply Wp.ite
      · exact fun _ => (ih s₁).2.2.2
      · intro _
        apply Wp.bind (parseredirs_files fuel (List.forall_mem_nil _))
        exact fun redirs s₂ files => parseargs_words fuel (List.forall_mem_nil _) files
    case block =>
      unfold parseblock
      apply Wp.bind Wp.trivial
      intro _ s₁ _
      apply Wp.ite
      · exact fun _ => Wp.throw_bind trivial
      intro _
      apply Wp.bind Wp.trivial
      intro _ s₂ _
      apply Wp.bind (ih s₂).1
      intro cmd s₃ words
      apply Wp.bind Wp.trivial
      intro _ s₄ _
      apply Wp.ite
      · exact fun _ => Wp.throw_bind trivial
      · intro _
        apply Wp.bind Wp.trivial
        intro _ s₅ _
        apply Wp.bind (parseredirs_files fuel (List.forall_mem_nil _))
        exact fun redirs _ files => Wp.pure (words.redircmds files)

/-- The words of the tree of a line that is accepted. -/
theorem parsetree_words (accepts : parsetree line fuel 0 = .ok (cmd, s)) : line.Words cmd := by
  have wp : Wp anyPanic (parsetree line fuel) (fun cmd _ => line.Words cmd) 0 := by
    unfold parsetree
    apply Wp.bind (parse_words fuel 0).1
    intro cmd s₁ words
    apply Wp.bind Wp.trivial
    intro _ s₂ _
    apply Wp.get
    apply Wp.ite
    · exact fun _ => Wp.throw_bind trivial
    · exact fun _ => Wp.pure words
  exact wp.ok accepts

/-! ## `nulterminate` -/

/-- Words are cut one after the other. -/
theorem cutArgs_append (words words' : List (Nat × Nat)) :
    cutArgs (words ++ words') = cutArgs words >>= fun _ => cutArgs words' := by
  induction words with
  | nil => rfl
  | cons word words ih =>
    rw [List.cons_append, cutArgs, cutArgs, ih, bind_assoc]

/-- `nulterminate` cuts behind every word of the tree. -/
theorem nulterminate_eq (cmd : Cmd) : nulterminate cmd = cutArgs cmd.words := by
  have one (word : Nat × Nat) : cutArgs [word] = cut word.2 := by
    show (cut word.2 >>= fun _ => pure ()) = cut word.2
    exact bind_pure (cut word.2)
  induction cmd with
  | exec args => rfl
  | redir cmd file efile mode fd ih => rw [nulterminate, ih, Cmd.words, cutArgs_append, one]
  | pipe left right ihl ihr => rw [nulterminate, ihl, ihr, Cmd.words, cutArgs_append]
  | list left right ihl ihr => rw [nulterminate, ihl, ihr, Cmd.words, cutArgs_append]
  | back cmd ih => exact ih

/-- The cuts clear the bytes behind the words, and no other byte. -/
theorem cutArgs_spec (words : List (Nat × Nat)) {buf : List UInt8}
    (inside : ∀ word ∈ words, word.2 < buf.length) :
    Wp (fun _ => False) (cutArgs words) (fun _ buf' =>
      (∀ word ∈ words, buf'[word.2]? = some 0) ∧
      ∀ k, (∀ word ∈ words, word.2 ≠ k) → buf'[k]? = buf[k]?) buf := by
  induction words generalizing buf with
  | nil => exact Wp.pure ⟨List.forall_mem_nil _, fun _ _ => rfl⟩
  | cons word words ih =>
    have here := inside word (.head _)
    have cuts : Wp (fun _ => False) (cut word.2) (fun _ buf' => buf' = buf.set word.2 0) buf := by
      unfold cut
      apply Wp.get
      rw [if_pos here]
      exact Wp.modify
    unfold cutArgs
    apply Wp.bind cuts
    rintro _ _ rfl
    refine Wp.mono (ih fun word' member => ?_) ?_
    · rw [List.length_set]
      exact inside word' (.tail _ member)
    rintro _ buf' ⟨cleared, kept⟩
    constructor
    · intro word' member
      rcases List.mem_cons.mp member with rfl | later
      · by_cases again : ∃ other ∈ words, other.2 = word'.2
        · obtain ⟨other, listed, same⟩ := again
          rw [← same]
          exact cleared other listed
        · rw [kept word'.2 fun other listed same => again ⟨other, listed, same⟩,
            List.getElem?_set_self here]
      · exact cleared word' later
    · intro k apart
      rw [kept k fun other listed => apart other (.tail _ listed),
        List.getElem?_set_ne (apart word (.head _))]

/-- The string up to the first zero. -/
theorem takeWhile_eq_take {l : List UInt8} (n : Nat) (word : ∀ i, i < n → ∃ c ≠ 0, l[i]? = some c)
    (nul : l[n]? = some 0) : l.takeWhile (· ≠ 0) = l.take n := by
  induction n generalizing l with
  | zero =>
    cases l with
    | nil => rfl
    | cons b l =>
      rw [List.getElem?_cons_zero, Option.some.injEq] at nul
      simp [nul]
  | succ n ih =>
    obtain ⟨c, nonzero, first⟩ := word 0 (Nat.succ_pos n)
    cases l with
    | nil => cases first
    | cons b l =>
      rw [List.getElem?_cons_zero, Option.some.injEq] at first
      have rest := ih (l := l) (fun i below => word (i + 1) (Nat.succ_lt_succ below)) nul
      simp only [List.takeWhile_cons, first, nonzero, List.take_succ_cons, rest, ne_eq,
        not_false_eq_true, decide_true, if_true]

/-- For every line that the parser accepts: `nulterminate` writes inside the line buffer only, so
that `parsecmd` returns, and then every word of the tree, read as a C string, is the word of the
line that `gettoken` delimited. -/
theorem nulterminate_delimits {cmd : Cmd} (accepts : parsetree line fuel 0 = .ok (cmd, s)) :
    ∃ buf, nulterminate cmd line.buffer = .ok ((), buf) ∧ parsecmd line fuel = .ok (cmd, buf) ∧
      ∀ word ∈ cmd.words, line.Delimits word ∧ cstring buf word.1 = line.word word := by
  have words := parsetree_words accepts
  have length : line.buffer.length = line.es + 1 := List.length_append
  have inside (word : Nat × Nat) (member : word ∈ cmd.words) : word.2 < line.buffer.length := by
    have bound := (words word member).le_es.2
    omega
  obtain ⟨_, buf, ends, cleared, kept⟩ := (cutArgs_spec cmd.words inside).ends
  rw [← nulterminate_eq] at ends
  have returns : parsecmd line fuel = .ok (cmd, buf) := by
    unfold parsecmd
    rw [accepts]
    dsimp only [bind, Except.bind]
    rw [ends]
    rfl
  refine ⟨buf, ends, returns, fun word member => ⟨words word member, ?_⟩⟩
  have delimits := words word member
  obtain ⟨order, bound⟩ := delimits.le_es
  -- A byte of the word is cleared for no word.
  have byte (i : Nat) (below : i < word.2 - word.1) :
      (buf.drop word.1)[i]? = (line.bytes.drop word.1)[i]? := by
    have apart (other : Nat × Nat) (listed : other ∈ cmd.words) : other.2 ≠ word.1 + i := by
      intro same
      have behind := delimits.apart (words other listed) (by omega)
      omega
    have early : word.1 + i < line.bytes.length := by
      unfold Line.es at bound
      omega
    rw [List.getElem?_drop, List.getElem?_drop, kept _ apart, Line.buffer,
      List.getElem?_append_left early]
  have string : cstring buf word.1 = (buf.drop word.1).take (word.2 - word.1) := by
    apply takeWhile_eq_take
    · intro i below
      have inside : word.1 + i < line.es := by omega
      refine ⟨_, char_ne_zero inside, ?_⟩
      have found : line.bytes[word.1 + i]? = some (line.bytes.get ⟨_, inside⟩) :=
        List.getElem?_eq_getElem inside
      rw [byte i below, List.getElem?_drop, found, char_of_getElem? found]
    · rw [List.getElem?_drop, Nat.add_sub_cancel' order]
      exact cleared word member
  rw [string, Line.word]
  apply List.ext_getElem?
  intro i
  by_cases below : i < word.2 - word.1
  · rw [List.getElem?_take_of_lt below, List.getElem?_take_of_lt below, byte i below]
  · have behind := Nat.le_of_not_lt below
    rw [List.getElem?_take_eq_none behind, List.getElem?_take_eq_none behind]

/-- The line `(a>b;c<d)|e&`. -/
def sample : Line where
  bytes := "(a>b;c<d)|e&".toList.map Char.toUInt8
  string := by decide

/-- Each of its words is cut off where another part of the line begins. -/
theorem nulterminate_delimits_sample : ∃ cmd s buf, parsetree sample 20 0 = .ok (cmd, s) ∧
    parsecmd sample 20 = .ok (cmd, buf) ∧ cmd.words.length = 5 ∧
    ∀ word ∈ cmd.words, sample.Delimits word ∧ cstring buf word.1 = sample.word word := by
  have accepts : ∃ cmd s, parsetree sample 20 0 = .ok (cmd, s) ∧ cmd.words.length = 5 :=
    ⟨_, _, rfl, rfl⟩
  obtain ⟨cmd, s, accepts, five⟩ := accepts
  obtain ⟨buf, -, returns, words⟩ := nulterminate_delimits accepts
  exact ⟨cmd, s, buf, accepts, returns, five, words⟩

end Xv6.Sh
