import Xv6.User.Grep

/-!
# The lines that `grep` writes

The bytes behind the last newline of a read are kept for the next one, so the loop sees every line
whole. A read without a newline breaks this: what is held is dropped.
-/

namespace Xv6.Grep

variable {line w tail rest pattern held stream : List UInt8} {lines : List (List UInt8)}
  {cut : Nat → Nat}

/-- A line: no newline is in it, and no `NUL`. -/
structure IsLine (line : List UInt8) : Prop where
  newline : '\n'.toUInt8 ∉ line
  nul : 0 ∉ line

/-- The stream of some lines. -/
def streamOf (lines : List (List UInt8)) : List UInt8 := lines.flatMap (· ++ ['\n'.toUInt8])

/-- Some lines and then others. -/
theorem streamOf_append (first later : List (List UInt8)) :
    streamOf (first ++ later) = streamOf first ++ streamOf later := List.flatMap_append

/-- The first line of a file. -/
theorem streamOf_cons : streamOf (line :: lines) = line ++ '\n'.toUInt8 :: streamOf lines := by
  rw [streamOf, List.flatMap_cons, List.append_assoc]
  rfl

/-- A file with lines has a newline. -/
theorem newline_mem_streamOf (some : lines ≠ []) : '\n'.toUInt8 ∈ streamOf lines := by
  obtain ⟨line, lines, rfl⟩ := List.exists_cons_of_ne_nil some
  rw [streamOf_cons]
  exact List.mem_append_right line List.mem_cons_self

/-- What `grep` should write of some lines. -/
def matching (pattern : List UInt8) (lines : List (List UInt8)) : List (List UInt8) :=
  (lines.filter (match_ pattern)).map (· ++ ['\n'.toUInt8])

/-- Lines match one by one. -/
theorem matching_append (pattern : List UInt8) (first later : List (List UInt8)) :
    matching pattern (first ++ later) = matching pattern first ++ matching pattern later := by
  rw [matching, List.filter_append, List.map_append]
  rfl

/-- `strchr` finds the end of a line. -/
theorem strchr_line (is : IsLine line) :
    strchr '\n'.toUInt8 (line ++ '\n'.toUInt8 :: rest) = some line.length := by
  induction line with
  | nil => rfl
  | cons t line ih =>
    have notNul : t ≠ 0 := fun nul => is.nul (nul ▸ List.mem_cons_self)
    have notNewline : t ≠ '\n'.toUInt8 := fun nl => is.newline (nl ▸ List.mem_cons_self)
    have later : IsLine line := ⟨fun inside => is.newline (List.mem_cons_of_mem _ inside),
      fun inside => is.nul (List.mem_cons_of_mem _ inside)⟩
    rw [List.cons_append, strchr, if_neg notNul, if_neg notNewline, ih later]
    rfl

/-- It finds nothing where there is none. -/
theorem strchr_none (none : '\n'.toUInt8 ∉ tail) : strchr '\n'.toUInt8 tail = Option.none := by
  induction tail with
  | nil => rfl
  | cons t tail ih =>
    have notNewline : t ≠ '\n'.toUInt8 := fun nl => none (nl ▸ List.mem_cons_self)
    rw [strchr, ih (fun inside => none (List.mem_cons_of_mem _ inside)), if_neg notNewline]
    exact ite_self _

/-- What has no newline is no line. -/
theorem takeLines_none (none : '\n'.toUInt8 ∉ tail) : takeLines pattern tail = ([], tail) := by
  rw [takeLines]
  split
  · rfl
  · rename_i q found
    rw [strchr_none none] at found
    exact absurd found (Option.some_ne_none q).symm

/-- The loop of `grep` takes the first line. -/
theorem takeLines_line (is : IsLine line) :
    takeLines pattern (line ++ '\n'.toUInt8 :: rest) =
      (matching pattern [line] ++ (takeLines pattern rest).1, (takeLines pattern rest).2) := by
  rw [takeLines]
  split
  · rename_i lost
    rw [strchr_line is] at lost
    exact absurd lost (Option.some_ne_none _)
  · rename_i q found
    have here : line.length = q := by
      rw [strchr_line is] at found
      exact Option.some.inj found
    have taken : (line ++ '\n'.toUInt8 :: rest).take q = line := by
      rw [← here, List.take_left]
    have left : (line ++ '\n'.toUInt8 :: rest).drop (q + 1) = rest := by
      rw [← here, ← List.drop_drop, List.drop_left]
      rfl
    rw [taken, left]
    by_cases matched : match_ pattern line = true
    · simp [matching, matched]
    · simp [matching, matched]

/-- The inner loop takes every line out of the buffer. -/
theorem takeLines_lines (are : ∀ line ∈ lines, IsLine line) (none : '\n'.toUInt8 ∉ tail) :
    takeLines pattern (streamOf lines ++ tail) = (matching pattern lines, tail) := by
  induction lines with
  | nil => exact takeLines_none none
  | cons line lines ih =>
    have later := ih fun other inside => are other (List.mem_cons_of_mem _ inside)
    rw [streamOf_cons, List.append_assoc, List.cons_append,
      takeLines_line (are line List.mem_cons_self), later, ← matching_append]
    rfl

/-- The first bytes of a stream are some lines and the beginning of another. -/
theorem streamOf_cut (are : ∀ line ∈ lines, IsLine line) (joined : w ++ rest = streamOf lines) :
    ∃ taken later tail, lines = taken ++ later ∧ w = streamOf taken ++ tail ∧
      '\n'.toUInt8 ∉ tail ∧ tail ++ rest = streamOf later := by
  induction lines generalizing w with
  | nil =>
    obtain ⟨rfl, rfl⟩ := List.append_eq_nil_iff.mp joined
    exact ⟨[], [], [], rfl, rfl, List.not_mem_nil, rfl⟩
  | cons line lines ih =>
    have inFirst : (∀ t ∈ w, t ∈ line) → ∃ taken later tail, line :: lines = taken ++ later ∧
        w = streamOf taken ++ tail ∧ '\n'.toUInt8 ∉ tail ∧ tail ++ rest = streamOf later :=
      fun begins => ⟨[], line :: lines, w, rfl, rfl,
        fun inside => (are line List.mem_cons_self).newline (begins _ inside), joined⟩
    rw [streamOf_cons] at joined
    obtain ⟨more, begins, _⟩ | ⟨past, begins, left⟩ := List.append_eq_append_iff.mp joined
    · exact inFirst fun t inside => begins ▸ List.mem_append_left more inside
    cases past with
    | nil => exact inFirst fun t inside => by rwa [begins, List.append_nil] at inside
    | cons t past =>
      obtain ⟨rfl, behind⟩ := List.cons.inj left
      obtain ⟨taken, later, tail, split, cut, none, left⟩ :=
        ih (fun other inside => are other (List.mem_cons_of_mem _ inside)) behind.symm
      refine ⟨line :: taken, later, tail, by rw [split, List.cons_append], ?_, none, left⟩
      rw [begins, cut, streamOf_cons, List.append_assoc, List.cons_append]

/-- What `read` returns and what it leaves. -/
theorem read_append (n : Nat) :
    read cut n stream ++ stream.drop (read cut n stream).length = stream :=
  List.prefix_iff_eq_append.mp (List.take_prefix _ stream)

/-- It returns no more than is asked for. -/
theorem length_read_le (n : Nat) : (read cut n stream).length ≤ n := by
  rw [read, List.length_take]
  omega

/-- A read that may return something returns nothing only at the end of the stream. -/
theorem read_eq_nil {n : Nat} (asked : 0 < n) (nothing : read cut n stream = []) : stream = [] := by
  refine (List.take_eq_nil_iff.mp nothing).resolve_left ?_
  omega

/-- At the end of the file `grep` stops. -/
theorem rounds_end : rounds pattern cut held [] = [] := by
  have nothing : read cut (bufSize - held.length - 1) [] = [] := List.take_nil
  rw [rounds, dif_pos nothing]

/-- A round that takes a line holds what is behind the last one. -/
theorem rounds_takes {piece : List UInt8} {writes : List (List UInt8)}
    (same : read cut (bufSize - held.length - 1) stream = piece) (some : piece ≠ [])
    (taking : takeLines pattern (held ++ piece) = (writes, tail))
    (shorter : tail.length < (held ++ piece).length) :
    rounds pattern cut held stream =
      ⟨piece, writes⟩ :: rounds pattern cut tail (stream.drop piece.length) := by
  rw [rounds]
  simp only [same, some, taking, Nat.ne_of_lt shorter, dite_false, if_false]

/-- One round, if it reads a newline: the lines that have become whole are taken, and the beginning
of the next one is held. -/
theorem rounds_step (pattern : List UInt8) (are : ∀ line ∈ lines, IsLine line)
    (joined : held ++ stream = streamOf lines)
    (newline : '\n'.toUInt8 ∈ read cut (bufSize - held.length - 1) stream) :
    ∃ piece taken later tail left, rounds pattern cut held stream =
        ⟨piece, matching pattern taken⟩ :: rounds pattern cut tail left ∧
      '\n'.toUInt8 ∈ piece ∧ lines = taken ++ later ∧ tail ++ left = streamOf later ∧
      '\n'.toUInt8 ∉ tail ∧ tail.length + 1 < bufSize ∧ left.length < stream.length := by
  generalize same : read cut (bufSize - held.length - 1) stream = piece at newline
  have whole : piece ++ stream.drop piece.length = stream := same ▸ read_append _
  have fits : piece.length ≤ bufSize - held.length - 1 := same ▸ length_read_le _
  have some : piece ≠ [] := List.ne_nil_of_mem newline
  obtain ⟨taken, later, tail, split, bytes, none, left⟩ := streamOf_cut (w := held ++ piece) are
    (by rw [List.append_assoc, whole, joined])
  have taking : takeLines pattern (held ++ piece) = (matching pattern taken, tail) := by
    rw [bytes]
    exact takeLines_lines (fun line inside => are line (split ▸ List.mem_append_left _ inside)) none
  have ended : taken ≠ [] := by
    rintro rfl
    have inside : '\n'.toUInt8 ∈ held ++ piece := List.mem_append_right held newline
    rw [bytes] at inside
    exact none inside
  have shorter : tail.length < (held ++ piece).length := by
    have some := List.length_pos_of_mem (newline_mem_streamOf ended)
    rw [bytes, List.length_append]
    omega
  have positive : 0 < piece.length := List.length_pos_iff.mpr some
  have most : piece.length ≤ stream.length := by
    rw [← whole, List.length_append]
    exact Nat.le_add_right _ _
  refine ⟨piece, taken, later, tail, stream.drop piece.length,
    rounds_takes same some taking shorter, newline, split, left, none, ?_, ?_⟩
  · rw [List.length_append] at shorter
    omega
  · rw [List.length_drop]
    omega

/-- `grep` writes the lines that match, if there is a newline in every piece. -/
theorem rounds_lines (are : ∀ line ∈ lines, IsLine line) (joined : held ++ stream = streamOf lines)
    (none : '\n'.toUInt8 ∉ held) (room : held.length + 1 < bufSize)
    (newlines : ∀ round ∈ rounds pattern cut held stream, '\n'.toUInt8 ∈ round.piece) :
    (rounds pattern cut held stream).flatMap Round.writes = matching pattern lines := by
  induction size : stream.length using Nat.strong_induction_on
    generalizing held stream lines with
  | _ n ih =>
    by_cases ended : read cut (bufSize - held.length - 1) stream = []
    · -- All lines have been taken: what is held is no line.
      have nothing : lines = [] := by
        by_contra some
        have inside := newline_mem_streamOf some
        rw [← joined, read_eq_nil (by omega) ended, List.append_nil] at inside
        exact none inside
      rw [rounds, dif_pos ended, nothing]
      rfl
    · have newline : '\n'.toUInt8 ∈ read cut (bufSize - held.length - 1) stream := by
        rw [rounds, dif_neg ended] at newlines
        exact newlines _ List.mem_cons_self
      obtain ⟨piece, taken, later, tail, left, step, _, rfl, joined, none, room, fewer⟩ :=
        rounds_step pattern are joined newline
      rw [step] at newlines ⊢
      rw [List.flatMap_cons, matching_append]
      congr 1
      exact ih left.length (size ▸ fewer)
        (fun line inside => are line (List.mem_append_right taken inside)) joined none room
        (fun round inside => newlines round (List.mem_cons_of_mem _ inside)) rfl

/-- What `grep` writes does not depend on where the stream is cut, if every piece it reads has a
newline in it: it writes the lines that match, in order. -/
theorem grep_lines (are : ∀ line ∈ lines, IsLine line)
    (newlines : ∀ round ∈ rounds pattern cut [] (streamOf lines), '\n'.toUInt8 ∈ round.piece) :
    grep pattern cut (streamOf lines) = matching pattern lines :=
  rounds_lines are rfl List.not_mem_nil (by decide) newlines

/-- A read that fills the buffer, or comes to the end of the stream, reads a newline. -/
theorem newline_mem_read (joined : held ++ stream = streamOf (line :: lines))
    (none : '\n'.toUInt8 ∉ held) (short : line.length + 1 < bufSize) (full : ∀ k, bufSize ≤ cut k) :
    '\n'.toUInt8 ∈ read cut (bufSize - held.length - 1) stream := by
  have ahead : ∃ more left, line = held ++ more ∧ stream = more ++ '\n'.toUInt8 :: left := by
    rw [streamOf_cons] at joined
    obtain ⟨more, begins, left⟩ | ⟨past, begins, left⟩ := List.append_eq_append_iff.mp joined
    · exact ⟨more, _, begins, left⟩
    · cases past with
      | nil =>
        rw [List.append_nil] at begins
        exact ⟨[], _, by rw [begins, List.append_nil], left.symm⟩
      | cons t past =>
        obtain ⟨rfl, _⟩ := List.cons.inj left
        exact absurd (begins ▸ List.mem_append_right line List.mem_cons_self) none
  obtain ⟨more, left, rfl, rfl⟩ := ahead
  rw [List.length_append] at short
  have all : min (bufSize - held.length - 1) (max 1 (cut (more ++ '\n'.toUInt8 :: left).length)) =
      more.length + (bufSize - held.length - 2 - more.length + 1) := by
    have := full (more ++ '\n'.toUInt8 :: left).length
    omega
  rw [read, all, List.take_length_add_append, List.take_succ_cons]
  exact List.mem_append_right more List.mem_cons_self

/-- So it is with a file: each read returns as many bytes as it is asked for, or all there are. -/
theorem rounds_newlines (are : ∀ line ∈ lines, IsLine line)
    (short : ∀ line ∈ lines, line.length + 1 < bufSize) (joined : held ++ stream = streamOf lines)
    (none : '\n'.toUInt8 ∉ held) (full : ∀ k, bufSize ≤ cut k) :
    ∀ round ∈ rounds pattern cut held stream, '\n'.toUInt8 ∈ round.piece := by
  induction size : stream.length using Nat.strong_induction_on
    generalizing held stream lines with
  | _ n ih =>
    cases lines with
    | nil =>
      obtain ⟨rfl, rfl⟩ := List.append_eq_nil_iff.mp joined
      rw [rounds_end]
      exact fun round inside => absurd inside List.not_mem_nil
    | cons line lines =>
      have newline := newline_mem_read joined none (short line List.mem_cons_self) full
      obtain ⟨piece, taken, later, tail, left, step, inPiece, split, joined, none, _, fewer⟩ :=
        rounds_step pattern are joined newline
      rw [split] at are short
      rw [step]
      refine List.forall_mem_cons.mpr ⟨inPiece, ?_⟩
      exact ih left.length (size ▸ fewer)
        (fun line inside => are line (List.mem_append_right taken inside))
        (fun line inside => short line (List.mem_append_right taken inside)) joined none rfl

/-- Two lines, of which the second is cut: its first byte is held until the next read. -/
theorem grep_lines_held :
    grep [98] (fun left => if left = 5 then 3 else 2) (streamOf [[97], [98, 99]]) =
      matching [98] [[97], [98, 99]] := by
  have first : ∀ line ∈ [[97]], IsLine line :=
    List.forall_mem_singleton.mpr ⟨by decide, by decide⟩
  have second : ∀ line ∈ [[98, 99]], IsLine line :=
    List.forall_mem_singleton.mpr ⟨by decide, by decide⟩
  have taken : takeLines [98] ([] ++ [97, 10, 98]) = (matching [98] [[97]], [98]) :=
    takeLines_lines first (by decide)
  have taken' : takeLines [98] ([98] ++ [99, 10]) = (matching [98] [[98, 99]], []) :=
    takeLines_lines second List.not_mem_nil
  apply grep_lines (List.forall_mem_append.mpr ⟨first, second⟩)
  rw [show streamOf ([[97]] ++ [[98, 99]]) = [97, 10, 98, 99, 10] from rfl,
    rounds_takes (by decide) (by decide) taken (by decide),
    rounds_takes (by decide) (by decide) taken' (by decide)]
  simp only [List.length_cons, List.length_nil, List.drop, rounds_end]
  decide

/-- A round that reads no newline drops what it read and what was held. -/
theorem rounds_drops (some : read cut (bufSize - held.length - 1) stream ≠ [])
    (none : '\n'.toUInt8 ∉ held ++ read cut (bufSize - held.length - 1) stream) :
    rounds pattern cut held stream = ⟨read cut (bufSize - held.length - 1) stream, []⟩ ::
      rounds pattern cut [] (stream.drop (read cut (bufSize - held.length - 1) stream).length) := by
  rw [rounds, dif_neg some]
  simp only [takeLines_none none, if_true]

/-! ## The empty pattern -/

/-- Every line matches the empty pattern. -/
theorem match_nil (line : List UInt8) : match_ [] line = true := by
  cases line <;> simp [match_, matchAnywhere, matchhere]

/-- So it should write the whole stream. -/
theorem matching_nil (lines : List (List UInt8)) :
    (matching [] lines).flatten = streamOf lines := by
  rw [matching, List.filter_eq_self.mpr fun line _ => match_nil line, streamOf, List.flatMap_def]

/-- With the empty pattern the inner loop writes all that it takes. -/
theorem length_takeLines (p : List UInt8) :
    (takeLines [] p).1.flatten.length + (takeLines [] p).2.length = p.length := by
  induction size : p.length using Nat.strong_induction_on generalizing p with
  | _ n ih =>
    rw [takeLines]
    split
    · rw [List.flatten_nil, List.length_nil, Nat.zero_add, size]
    · rename_i q found
      have inside := strchr_lt found
      have later := ih (p.drop (q + 1)).length (by rw [List.length_drop]; omega) _ rfl
      simp only [match_nil, if_true, List.flatten_cons, List.length_append, List.length_take,
        List.length_drop, List.length_cons, List.length_nil] at later ⊢
      omega

/-- What `grep` writes for the empty pattern is no longer than what it has read. -/
theorem length_writes_le :
    ((rounds [] cut held stream).flatMap Round.writes).flatten.length ≤
      held.length + stream.length := by
  induction size : stream.length using Nat.strong_induction_on generalizing held stream with
  | _ n ih =>
    rw [rounds]
    split
    · exact Nat.zero_le _
    · rename_i some
      dsimp only
      generalize same : read cut (bufSize - held.length - 1) stream = piece at some ⊢
      have whole : piece.length + (stream.drop piece.length).length = stream.length := by
        rw [← List.length_append, ← same, read_append]
      have positive : 0 < piece.length := List.length_pos_iff.mpr some
      have taken := length_takeLines (held ++ piece)
      generalize takeLines [] (held ++ piece) = p at taken ⊢
      have kept :
          (if p.2.length = (held ++ piece).length then [] else p.2).length ≤ p.2.length := by
        split <;> simp
      generalize (if p.2.length = (held ++ piece).length then [] else p.2) = held' at kept ⊢
      have later : ((rounds [] cut held' (stream.drop piece.length)).flatMap
          Round.writes).flatten.length ≤ held'.length + (stream.drop piece.length).length :=
        ih _ (by omega) rfl
      simp only [List.flatMap_cons, List.flatten_append, List.length_append] at later taken ⊢
      omega

/-- A read without a newline loses what was read. -/
theorem length_writes_lt (are : ∀ line ∈ lines, IsLine line)
    (joined : held ++ stream = streamOf lines) (none : '\n'.toUInt8 ∉ held)
    (lost : ∃ round ∈ rounds [] cut held stream, '\n'.toUInt8 ∉ round.piece) :
    ((rounds [] cut held stream).flatMap Round.writes).flatten.length <
      (streamOf lines).length := by
  induction size : stream.length using Nat.strong_induction_on
    generalizing held stream lines with
  | _ n ih =>
    have ended : read cut (bufSize - held.length - 1) stream ≠ [] := by
      intro ended
      rw [rounds, dif_pos ended] at lost
      exact lost.elim fun _ inside => absurd inside.1 List.not_mem_nil
    by_cases newline : '\n'.toUInt8 ∈ read cut (bufSize - held.length - 1) stream
    · -- The round loses nothing, so a later one does.
      obtain ⟨piece, taken, later, tail, left, step, inPiece, rfl, joined, none, -, fewer⟩ :=
        rounds_step [] are joined newline
      rw [step] at lost ⊢
      have lost : ∃ round ∈ rounds [] cut tail left, '\n'.toUInt8 ∉ round.piece := by
        obtain ⟨round, inside, without⟩ := lost
        rcases List.mem_cons.mp inside with rfl | later
        · exact absurd inPiece without
        · exact ⟨round, later, without⟩
      have less := ih left.length (size ▸ fewer)
        (fun line inside => are line (List.mem_append_right taken inside)) joined none lost rfl
      rw [List.flatMap_cons, List.flatten_append, List.length_append, matching_nil,
        streamOf_append, List.length_append]
      omega
    · have dropped : rounds [] cut held stream = _ :=
        rounds_drops ended fun inside => (List.mem_append.mp inside).elim none newline
      have later : ((rounds [] cut [] (stream.drop (read cut (bufSize - held.length - 1)
          stream).length)).flatMap Round.writes).flatten.length ≤ _ := length_writes_le
      have positive := List.length_pos_iff.mpr ended
      have most : (read cut (bufSize - held.length - 1) stream ++ _).length = stream.length :=
        congrArg List.length (read_append _)
      rw [dropped, List.flatMap_cons, List.nil_append, ← joined, List.length_append]
      rw [List.length_append] at most
      rw [List.length_nil] at later
      omega

/-- For the empty pattern it is a condition that every piece has a newline in it. -/
theorem grep_nil_iff (are : ∀ line ∈ lines, IsLine line) :
    grep [] cut (streamOf lines) = matching [] lines ↔
      ∀ round ∈ rounds [] cut [] (streamOf lines), '\n'.toUInt8 ∈ round.piece := by
  constructor
  · intro same
    by_contra lost
    have less : (grep [] cut (streamOf lines)).flatten.length < (streamOf lines).length :=
      length_writes_lt are rfl List.not_mem_nil (by simpa using lost)
    rw [same, matching_nil] at less
    exact Nat.lt_irrefl _ less
  · exact rounds_lines are rfl List.not_mem_nil (by decide)

/-- The same line in three pieces: all that is written of it is the newline. -/
theorem grep_drops : IsLine [97, 98] ∧
    grep [] (fun _ => 1) (streamOf [[97, 98]]) ≠ matching [] [[97, 98]] := by
  have first : rounds [] (fun _ => 1) [] [97, 98, 10] =
      ⟨[97], []⟩ :: rounds [] (fun _ => 1) [] [98, 10] := rounds_drops (by decide) (by decide)
  have second : rounds [] (fun _ => 1) [] [98, 10] =
      ⟨[98], []⟩ :: rounds [] (fun _ => 1) [] [10] := rounds_drops (by decide) (by decide)
  have third : rounds [] (fun _ => 1) [] [10] = [⟨[10], matching [] [[]]⟩] := by
    have is : ∀ line ∈ [[]], IsLine line :=
      List.forall_mem_singleton.mpr ⟨List.not_mem_nil, List.not_mem_nil⟩
    have taken : takeLines [] ([] ++ [10]) = (matching [] [[]], []) :=
      takeLines_lines is List.not_mem_nil
    rw [rounds_takes (by decide) (by decide) taken (by decide)]
    exact congrArg _ rounds_end
  refine ⟨⟨by decide, by decide⟩, ?_⟩
  rw [grep, show streamOf [[97, 98]] = [97, 98, 10] from rfl, first, second, third]
  simp [matching, match_nil]

end Xv6.Grep
