import Xv6.Verif.DirEntries
import Xv6.Verif.FsCheck

/-!
# Paths

`skipelem` takes the components off a path one by one. `namex` looks them up one after another, and
holds a reference to one inode at a time, and to a second one only while it goes from a directory to
the inode that the directory names.
-/

namespace Xv6

open Lib Function

/-! ## Components -/

/-- The parts of a path that are not empty. -/
def parts (path : List UInt8) : List (List UInt8) := (path.splitOn slash).filter (· ≠ [])

/-- The components are cut to the size of a name. -/
theorem components_eq (path : List UInt8) :
    components path = (parts path).map (·.take dirSiz) := rfl

/-- An empty path has no parts. -/
theorem parts_nil : parts [] = [] := rfl

/-- A slash before a path adds none. -/
theorem parts_slash (path : List UInt8) : parts (slash :: path) = parts path := by
  have split := @List.splitOnP_append_cons_of_forall_mem UInt8 (· == slash) [] (by simp) slash
    (by simp) path
  rw [List.nil_append] at split
  unfold parts List.splitOn
  rw [split]
  simp

/-- Nor do more of them. -/
theorem parts_dropWhile (path : List UInt8) : parts (path.dropWhile (· = slash)) = parts path := by
  induction path with
  | nil => rfl
  | cons b rest ih =>
    by_cases here : b = slash
    · rw [List.dropWhile_cons_of_pos (by simpa using here), ih, here, parts_slash]
    · rw [List.dropWhile_cons_of_neg (by simpa using here)]

variable {elem rest name' : List UInt8} {names : List (List UInt8)}

/-- A part and what follows the slash behind it. -/
theorem parts_append (nonempty : elem ≠ []) (plain : ∀ b ∈ elem, b ≠ slash) :
    parts (elem ++ slash :: rest) = elem :: parts rest := by
  have split : (elem ++ slash :: rest).splitOnP (· == slash) = elem :: rest.splitOnP (· == slash) :=
    List.splitOnP_append_cons_of_forall_mem (fun b member => by simpa using plain b member) slash
      (by simp) rest
  unfold parts List.splitOn
  rw [split, List.filter_cons_of_pos (by simpa using nonempty)]

/-- A name is one part. -/
theorem parts_single (nonempty : elem ≠ []) (plain : ∀ b ∈ elem, b ≠ slash) :
    parts elem = [elem] := by
  have split : elem.splitOnP (· == slash) = [elem] :=
    List.splitOnP_eq_singleton fun b member => by simpa using plain b member
  unfold parts List.splitOn
  rw [split, List.filter_cons_of_pos (by simpa using nonempty), List.filter_nil]

/-- A path that does not start with a slash has a part in front. -/
theorem parts_cons {path : List UInt8} (nonempty : path ≠ []) (plain : path.head? ≠ some slash) :
    path.takeWhile (· ≠ slash) ≠ [] ∧
      parts path = path.takeWhile (· ≠ slash) :: parts (path.dropWhile (· ≠ slash)) := by
  obtain ⟨b, tail, rfl⟩ := List.exists_cons_of_ne_nil nonempty
  have other : b ≠ slash := fun same => plain (by rw [same]; rfl)
  have elem : (b :: tail).takeWhile (· ≠ slash) ≠ [] := by
    rw [List.takeWhile_cons_of_pos (by simpa using other)]
    exact List.cons_ne_nil _ _
  have inside (c : UInt8) (member : c ∈ (b :: tail).takeWhile (· ≠ slash)) : c ≠ slash := by
    simpa using List.mem_takeWhile_imp member
  refine ⟨elem, ?_⟩
  have whole := List.takeWhile_append_dropWhile (p := (· ≠ slash)) (l := b :: tail)
  cases after : (b :: tail).dropWhile (· ≠ slash) with
  | nil =>
    rw [after, List.append_nil] at whole
    rw [parts_nil]
    rw [whole] at elem inside ⊢
    exact parts_single elem inside
  | cons c rest =>
    have stop : c = slash := by
      have last := List.head?_dropWhile_not (· ≠ slash) (b :: tail)
      rw [after] at last
      simpa using last
    rw [after, stop] at whole
    rw [stop, parts_slash, ← parts_append elem inside, whole]

/-- The parts consist of bytes of the path. -/
theorem mem_parts {path : List UInt8} (member : elem ∈ parts path) {b : UInt8} (inside : b ∈ elem) :
    b ∈ path := by
  induction gap : path.length using Nat.strong_induction_on generalizing path with
  | _ n ih =>
  cases path with
  | nil => cases member
  | cons c rest =>
    by_cases here : c = slash
    · rw [here, parts_slash] at member
      exact List.mem_cons_of_mem _ (ih rest.length
        (by rw [← gap]; exact Nat.lt_succ_self _) member rfl)
    obtain ⟨nonempty, first⟩ := parts_cons (List.cons_ne_nil c rest) (by simpa using here)
    have whole := List.takeWhile_append_dropWhile (p := (· ≠ slash)) (l := c :: rest)
    rw [first] at member
    rw [← whole]
    rcases List.mem_cons.mp member with rfl | later
    · exact List.mem_append_left _ inside
    · have lengths := congrArg List.length whole
      have positive := List.length_pos_of_ne_nil nonempty
      rw [List.length_append, gap] at lengths
      exact List.mem_append_right _ (ih _ (by omega) later rfl)

/-- The components of a string are strings that fit a name. -/
theorem cstr_component {path : List UInt8} (string : 0 ∉ path) (member : elem ∈ parts path) :
    cstr dirSiz elem = elem.take dirSiz :=
  cstr_of_string (fun zero => string (mem_parts member zero)) dirSiz

/-- A component has no zero byte. -/
theorem cstr_of_component {path name : List UInt8} (string : 0 ∉ path)
    (member : name ∈ components path) : cstr dirSiz name = name := by
  rw [components_eq] at member
  obtain ⟨elem, among, rfl⟩ := List.mem_map.mp member
  rw [← cstr_component string among, cstr, cstr, List.take_of_length_le, List.takeWhile_idem]
  exact Nat.le_trans (List.takeWhile_sublist _).length_le (List.length_take_le _ _)

/-- What `skipelem` returns. -/
structure Skipped (path name rest name' elem : List UInt8) : Prop where
  parts : parts path = elem :: parts rest
  name : cstr dirSiz name' = cstr dirSiz elem
  /-- The path that is left is empty if it has no parts. -/
  last : rest = [] ↔ Xv6.parts rest = []

/-- The array holds the part, cut to its size. -/
theorem cstr_copy (elem name : List UInt8) :
    cstr dirSiz (if elem.length ≥ dirSiz then elem.take dirSiz ++ name.drop dirSiz
      else elem ++ 0 :: name.drop (elem.length + 1)) = cstr dirSiz elem := by
  unfold cstr
  split
  · rename_i long
    rw [List.take_append_of_le_length (by rw [List.length_take]; omega),
      List.take_take, Nat.min_self]
  rename_i short
  obtain ⟨room, gap⟩ : ∃ room, dirSiz = elem.length + (room + 1) :=
    ⟨dirSiz - elem.length - 1, by omega⟩
  rw [List.take_append, gap, Nat.add_sub_cancel_left, List.take_succ_cons,
    List.take_of_length_le (by omega), List.takeWhile_append]
  split
  · rename_i all
    rw [List.takeWhile_cons_of_neg (by simp), List.append_nil]
    exact (List.IsPrefix.eq_of_length (List.takeWhile_prefix _) all).symm
  · rfl

/-- A path that does not start with a slash is empty if it has no parts. -/
theorem parts_eq_nil {path : List UInt8} (plain : path.head? ≠ some slash) :
    path = [] ↔ parts path = [] := by
  constructor
  · rintro rfl
    rfl
  · intro none
    by_contra nonempty
    have first := (parts_cons nonempty plain).2
    rw [none] at first
    cases first

/-- After the slashes are skipped there is none in front. -/
theorem head_dropWhile_slash (path : List UInt8) :
    (path.dropWhile (· = slash)).head? ≠ some slash := by
  intro first
  have last := List.head?_dropWhile_not (· = slash) path
  rw [first] at last
  simp at last

/-- `skipelem` takes off the first part. -/
theorem skipelem_some {path name : List UInt8} (found : skipelem path name = some (rest, name')) :
    ∃ elem, Skipped path name rest name' elem := by
  unfold skipelem at found
  dsimp only at found
  split at found
  · cases found
  · rename_i more
    cases found
    obtain ⟨-, first⟩ := parts_cons more (head_dropWhile_slash path)
    refine ⟨(path.dropWhile (· = slash)).takeWhile (· ≠ slash), ?_, cstr_copy _ _,
      parts_eq_nil (head_dropWhile_slash _)⟩
    rw [parts_dropWhile, ← parts_dropWhile path]
    exact first

/-- `skipelem` returns nothing when there is no part. -/
theorem skipelem_none {path name : List UInt8} (absent : skipelem path name = none) :
    parts path = [] := by
  unfold skipelem at absent
  dsimp only at absent
  split at absent
  · rename_i empty
    rw [← parts_dropWhile, empty]
    rfl
  · cases absent

/-- The names are those of the components. -/
theorem skipelems_names (path name : List UInt8) :
    (skipelems path name).map (fun p => cstr dirSiz p.2) = (parts path).map (cstr dirSiz) := by
  fun_induction skipelems path name with
  | case1 path name rest name' found ih =>
    obtain ⟨elem, skipped⟩ := skipelem_some found
    rw [List.map_cons, ih, skipped.parts, List.map_cons, skipped.name]
  | case2 path name absent =>
    rw [skipelem_none absent]
    rfl

/-- The path that is left is empty exactly after the last component. -/
theorem skipelems_rest (path name : List UInt8) (k : Nat)
    (inside : k < (skipelems path name).length) :
    ((skipelems path name)[k]).1 = [] ↔ k + 1 = (skipelems path name).length := by
  induction gap : path.length using Nat.strong_induction_on generalizing path name k with
  | _ n ih =>
  have unfolded := skipelems.eq_def path name
  split at unfolded
  · rename_i rest name' found
    obtain ⟨elem, skipped⟩ := skipelem_some found
    simp only [unfolded, List.length_cons] at inside ⊢
    cases k with
    | zero =>
      rw [List.getElem_cons_zero, skipped.last]
      have names := congrArg List.length (skipelems_names rest name')
      rw [List.length_map, List.length_map] at names
      rw [names, ← List.length_eq_zero_iff]
      omega
    | succ k =>
      rw [List.getElem_cons_succ, ih rest.length (gap ▸ length_skipelem found) rest name' k
        (by omega) rfl]
      omega
  · simp only [unfolded] at inside
    cases inside

/-! ## `namex` -/

/-- A lookup depends on the string in the array. -/
theorem lookup_congr {name : List UInt8} (same : cstr dirSiz name = cstr dirSiz name')
    (entries : List Dirent) : lookup entries name = lookup entries name' := by
  have named (de : Dirent) : de.Matches name ↔ de.Matches name' := by
    unfold Dirent.Matches namecmp
    rw [strncmp_eq_zero, strncmp_eq_zero, same]
  have lookups (off : Nat) : lookupFrom name off entries = lookupFrom name' off entries := by
    induction entries generalizing off with
    | nil => rfl
    | cons de rest ih => simp only [lookupFrom, named, ih]
  exact lookups 0

/-- What `namex` looks for. -/
def namexTarget (files : Nat → Option File) (parent : Bool) : Nat → List (List UInt8) → Option Nat
  | inum, [] => if parent then none else some inum
  | inum, name :: rest => do
    let file ← files inum
    guard (file.type = tDir)
    if parent ∧ rest = [] then
      some inum
    else
      let (next, _) ← lookup (dirents file.bytes) name
      namexTarget files parent next rest

/-- `namei` goes to the end of the path. -/
theorem namexTarget_false (files : Nat → Option File) (inum : Nat) (names : List (List UInt8)) :
    namexTarget files false inum names = walk files inum names := by
  induction names generalizing inum with
  | nil => rfl
  | cons name rest ih => simp [namexTarget, walk, ih]

/-- `nameiparent` stops one level early. -/
theorem namexTarget_true (files : Nat → Option File) (inum : Nat) (names : List (List UInt8)) :
    namexTarget files true inum names = (walkParent files inum names).map Prod.fst := by
  induction names generalizing inum with
  | nil => rfl
  | cons name rest ih =>
    cases rest with
    | nil =>
      cases found : files inum with
      | none => simp [namexTarget, walkParent, walk, found]
      | some file =>
        by_cases dir : file.type = tDir
        · simp [namexTarget, walkParent, walk, found, dir]
        · simp [namexTarget, walkParent, walk, found, dir]
    | cons second rest =>
      unfold namexTarget
      simp only [ih]
      cases found : files inum with
      | none => simp [walkParent, walk, found]
      | some file =>
        by_cases dir : file.type = tDir
        · cases place : lookup (dirents file.bytes) name with
          | none => simp [walkParent, walk, found, dir, place]
          | some next => simp [walkParent, walk, found, dir, place]
        · simp [walkParent, walk, found, dir]

/-- The name that `nameiparent` stops at is the last one. -/
theorem walkParent_last {files : Nat → Option File} {inum : Nat} {place : Nat × List UInt8}
    (found : walkParent files inum names = some place) : names.getLast? = some place.2 := by
  unfold walkParent at found
  cases last : names.getLast? with
  | none =>
    rw [last] at found
    cases found
  | some name =>
    simp only [last, Option.bind_eq_bind, Option.bind_some, Option.bind_eq_some_iff,
      Option.pure_def, Option.some.injEq] at found
    obtain ⟨parent, -, file, -, _, -, rfl⟩ := found
    rfl

variable {s : Store} {stops : String → Prop} {dev : Devsw} {parent : Bool} {ip : Fin nInode}
  {i : Nat} {path name : List UInt8} {w : Walk}

/-- No lock is held. -/
def unlocked : Fin nInode → Bool := fun _ => false

/-- A lock is taken and released. -/
theorem unlocked_update (ip : Fin nInode) :
    update (update unlocked ip true) ip false = unlocked := by
  rw [update_idem, update_eq_self_iff]
  rfl

/-- What `namex` returns and leaves: a reference to what it looks for, and no lock. -/
def Found (s : Store) (parent : Bool) (names : List (List UInt8)) (target : Option Nat)
    (r : Option (Fin nInode × List UInt8)) (w' : Walk) : Prop :=
  match target with
  | none => r = none ∧ At s [] unlocked w'
  | some j => ∃ jp name', r = some (jp, name') ∧ At s [(jp, j)] unlocked w' ∧
      (parent = true → ∃ last, names.getLast? = some last ∧ cstr dirSiz name' = cstr dirSiz last)

/-- The loop of `namex` goes along the rest of the path. If it returns, it has found room all along.
-/
theorem namexFrom_found (tree : s.Tree) (state : At s [(ip, i)] unlocked w)
    (numbered : i < s.sb.ninodes) (kept : s.Kept i)
    (passes : ¬(stops noType ∧ stops noInodes) → s.Passes parent i (components path)) :
    Wp stops (Walk.namexFrom dev parent ip path name)
      (fun r w' => s.Passes parent i (components path) ∧ Found s parent (components path)
        (namexTarget s.files parent i (components path)) r w') w := by
  induction gap : path.length using Nat.strong_induction_on generalizing ip i path name w with
  | _ n ih =>
  unfold Walk.namexFrom
  split
  · rename_i rest name' found
    obtain ⟨elem, skipped⟩ := skipelem_some found
    have names : components path = elem.take dirSiz :: components rest := by
      rw [components_eq, skipped.parts, List.map_cons, ← components_eq]
    have string : cstr dirSiz name' = cstr dirSiz (elem.take dirSiz) := by
      rw [skipped.name, cstr, cstr, List.take_take, Nat.min_self]
    have last : rest = [] ↔ components rest = [] := by
      rw [skipped.last, components_eq, List.map_eq_nil_iff]
    rw [names] at passes ⊢
    have typed (total : ¬stops noType) : (s.dinode i).type ≠ 0 := by
      obtain ⟨file, there, -⟩ := passes fun both => total both.1
      exact (Store.files_eq_some there).2.1
    have member : (ip, i) ∈ [(ip, i)] := List.mem_singleton.mpr rfl
    apply Wp.bind (state.ilock member rfl typed)
    rintro _ w₁ ⟨locked, typed⟩
    have here : update unlocked ip true ip = true := update_self ..
    have file := s.files_of_typed numbered typed
    have copy : (w₁.icache ip).copy = s.dinode i := locked.copy member here
    apply Wp.get
    apply Wp.ite
    · -- What is not a directory has no names.
      intro other
      rw [copy] at other
      apply Wp.bind (locked.iunlockput here kept)
      intro _ w₂ done
      rw [unlocked_update] at done
      have target : namexTarget s.files parent i (elem.take dirSiz :: components rest) = none := by
        simp [namexTarget, file, Dinode.file, other]
      rw [target]
      exact Wp.pure ⟨⟨_, file, fun dir => absurd dir other⟩, rfl, done⟩
    · intro same
      have dir : (s.dinode i).type = tDir := by
        rw [← copy]
        exact not_not.mp same
      apply Wp.ite
      · rintro ⟨early, empty⟩
        apply Wp.bind (locked.iunlock member here)
        intro _ w₂ done
        rw [unlocked_update] at done
        have target : namexTarget s.files parent i
          (elem.take dirSiz :: components rest) = some i := by
          simp [namexTarget, file, Dinode.file, dir, early, last.mp empty]
        rw [target]
        refine Wp.pure ⟨⟨_, file, fun _ further => absurd (last.mp empty) (further early)⟩,
          ip, name',
          rfl, done, fun _ => ⟨elem.take dirSiz, ?_, string⟩⟩
        rw [last.mp empty]
        rfl
      · intro further
        have further' : parent = true → components rest ≠ [] :=
          fun early none => further ⟨early, last.mpr none⟩
        have step : namexTarget s.files parent i (elem.take dirSiz :: components rest) =
            (lookup (dirents ((s.dinode i).bytes s.disk)) name').bind
              fun next => namexTarget s.files parent next.1 (components rest) := by
          rw [lookup_congr string]
          simp only [namexTarget, file, Dinode.file, dir, Option.bind_eq_bind,
            Option.bind_some, guard,
            if_true]
          rw [if_neg fun both => further' both.1 both.2]
          rfl
        have next (total : ¬(stops noType ∧ stops noInodes)) {j off : Nat}
            (found : lookup (dirents ((s.dinode i).file s.disk).bytes) name' = some (j, off)) :
            s.RoomBeside i j ∧ s.Passes parent j (components rest) := by
          obtain ⟨_, there, rest⟩ := passes total
          cases file.symm.trans there
          exact rest dir further' j off (lookup_congr string _ ▸ found)
        rw [step]
        apply Wp.bind (locked.dirlookup member here file dir (tree.aligned i _ file dir)
          (tree.numbered i _ file dir) fun j off found total =>
            locked.room_iff.mpr (next (fun both => total both.2) found).1)
        intro r w₂ result
        cases place : lookup (dirents ((s.dinode i).bytes s.disk)) name' with
        | none =>
          have place' : lookup (dirents ((s.dinode i).file s.disk).bytes) name' = none := place
          rw [place'] at result
          obtain ⟨rfl, rfl⟩ := result
          apply Wp.bind (locked.iunlockput here kept)
          intro _ w₃ done
          rw [unlocked_update] at done
          refine Wp.pure ⟨⟨_, file, fun _ _ j off found => ?_⟩, rfl, done⟩
          rw [← lookup_congr string, place'] at found
          cases found
        | some found =>
          obtain ⟨j, off⟩ := found
          have place' :
              lookup (dirents ((s.dinode i).file s.disk).bytes) name' = some (j, off) := place
          have next' (total : ¬(stops noType ∧ stops noInodes)) := next total place'
          rw [place'] at result
          obtain ⟨jp, rfl, both, room⟩ := result
          have beside := locked.room_iff.mp room
          obtain ⟨de, among, named, rfl⟩ := lookupFrom_mem place'
          apply Wp.bind ((both.perm (List.Perm.swap _ _ _)).iunlockput here kept)
          intro _ w₃ done
          rw [unlocked_update] at done
          apply Wp.mono (ih rest.length (gap ▸ length_skipelem ‹_›) done
            (tree.numbered i _ file dir de among named.1) (tree.kept i _ file dir de among named.1)
            (fun total => (next' total).2) rfl)
          rintro r w₄ ⟨passed, later⟩
          refine ⟨⟨_, file, fun _ _ j off' found => ?_⟩, ?_⟩
          · rw [← lookup_congr string, place'] at found
            cases found
            exact ⟨beside, passed⟩
          unfold Found at later ⊢
          rw [Option.bind_some]
          cases target : namexTarget s.files parent de.inum.toNat (components rest) with
          | none =>
            rw [target] at later
            exact later
          | some k =>
            rw [target] at later
            obtain ⟨kp, name'', rfl, final, ends⟩ := later
            refine ⟨kp, name'', rfl, final, fun early => ?_⟩
            obtain ⟨final', isLast, string'⟩ := ends early
            refine ⟨final', ?_, string'⟩
            rw [List.getLast?_cons, isLast]
            rfl
  · rename_i absent
    have names : components path = [] := by rw [components_eq, skipelem_none absent, List.map_nil]
    rw [names]
    apply Wp.ite
    · intro early
      apply Wp.bind (state.iput rfl kept)
      intro _ w' done
      have target : namexTarget s.files parent i [] = none := by simp [namexTarget, early]
      rw [target]
      exact Wp.pure ⟨trivial, rfl, done⟩
    · intro whole
      have target : namexTarget s.files parent i [] = some i := by simp [namexTarget, whole]
      rw [target]
      exact Wp.pure ⟨trivial, ip, name, rfl, state, fun early => absurd early whole⟩

/-- A call starts without references and locks. -/
theorem At.start {w : Walk} (whole : w.Whole) (free : ∀ ip, w.locked ip = false) :
    At w.toStore [] unlocked w where
  whole := whole
  borrows := ⟨rfl, rfl, fun _ => rfl, fun _ _ => rfl⟩
  inum := fun _ member => absurd member List.not_mem_nil
  locked := funext free
  read := fun _ locked => absurd locked Bool.false_ne_true

/-- `namex` goes along a path from the root or from the current directory. -/
theorem namex_found {cwd : Fin nInode} (ready : w.Ready cwd)
    (passes : ¬(stops noType ∧ stops noInodes) → w.Passes parent cwd path) :
    Wp stops (Walk.namex dev cwd path parent name)
      (fun r w' => w.Passes parent cwd path ∧ Found w.toStore parent (components path)
        (namexTarget w.files parent (w.start cwd path) (components path)) r w') w := by
  have state := At.start ready.whole ready.unlocked
  unfold Walk.namex
  unfold Walk.Passes Walk.start at passes ⊢
  apply Wp.ite
  · intro absolute
    rw [if_pos absolute] at passes ⊢
    apply Wp.bind (fsOp_spec (state.iget ready.tree.root.1 fun total =>
      (passes fun both => total both.2).1 absolute))
    rintro ip _ ⟨fs, ⟨held, room⟩, rfl⟩
    apply Wp.mono (namexFrom_found ready.tree held ready.tree.root.1 ready.tree.root.2
      fun total => (passes total).2)
    exact fun r w' result => ⟨⟨fun _ => room, result.1⟩, result.2⟩
  · intro relative
    rw [if_neg relative] at passes ⊢
    apply Wp.bind (state.idup ready.cwd rfl)
    intro _ w' held
    apply Wp.mono (namexFrom_found ready.tree held (ready.whole.numbered cwd ready.cwd)
      (.inr (.inr ⟨cwd, ready.cwd, rfl⟩)) fun total => (passes total).2)
    exact fun r w' result => ⟨⟨fun absolute => absurd absolute relative, result.1⟩, result.2⟩

/-- What has been found, as a reference. -/
theorem Found.resolved {target : Option Nat} {r : Option (Fin nInode × List UInt8)} {w' : Walk}
    (free : ∀ ip, w.locked ip = false) (found : Found w.toStore parent names target r w') :
    w.Resolved target (r.map Prod.fst) w' := by
  have locks : w.locked = unlocked := funext free
  unfold Walk.Resolved
  unfold Found at found
  cases target with
  | none =>
    obtain ⟨rfl, state⟩ := found
    exact ⟨state.locked.trans locks.symm, rfl, state.borrows⟩
  | some j =>
    obtain ⟨jp, name', rfl, state, -⟩ := found
    exact ⟨state.locked.trans locks.symm, jp, rfl, state.inum (jp, j) List.mem_cons_self,
      state.borrows⟩

/-- `nameiparent` has found the directory before the last component, and that component. -/
theorem Found.last {r : Option (Fin nInode × List UInt8)} {w' : Walk} (string : 0 ∉ path)
    (found : Found s true (components path) (namexTarget s.files true i (components path)) r w') :
    r.map (fun p => cstr dirSiz p.2) = (walkParent s.files i (components path)).map Prod.snd := by
  rw [namexTarget_true] at found
  cases target : walkParent s.files i (components path) with
  | none =>
    rw [target] at found
    rw [found.1]
    rfl
  | some place =>
    rw [target] at found
    obtain ⟨jp, name', rfl, -, names⟩ := found
    obtain ⟨last, isLast, same⟩ := names rfl
    have here : last = place.2 := Option.some.inj (isLast.symm.trans (walkParent_last target))
    rw [Option.map_some, Option.map_some, same, ← here,
      cstr_of_component string (List.mem_of_getLast? isLast)]

/-- Paths are resolved component by component. `skipelem` yields the components of a path, cut to
the size of a name, and the rest of the path is empty exactly after the last one. `namei` returns
exactly when the inodes on its way are allocated and the inode cache has room for each of them, and
then it returns the inode at the end of the walk along the components, or nothing if the walk ends
early. So does `nameiparent` along all components but the last, and returns the inode there with the
last component. No reference but that one and no lock remains. -/
theorem namei_nameiparent_walk {cwd : Fin nInode} (ready : w.Ready cwd) (string : 0 ∉ path)
    (dev : Devsw) (name : List UInt8) :
    (skipelems path name).map (fun p => cstr dirSiz p.2) = components path ∧
    (∀ k (inside : k < (skipelems path name).length),
      ((skipelems path name)[k]).1 = [] ↔ k + 1 = (skipelems path name).length) ∧
    ((∃ r w', Walk.namei dev cwd path name w = .ok (r, w')) ↔ w.Passes false cwd path) ∧
    (∀ r w', Walk.namei dev cwd path name w = .ok (r, w') →
      w.Resolved (walk w.files (w.start cwd path) (components path)) r w') ∧
    ((∃ r w', Walk.nameiparent dev cwd path name w = .ok (r, w')) ↔ w.Passes true cwd path) ∧
    ∀ r w', Walk.nameiparent dev cwd path name w = .ok (r, w') →
      w.Resolved ((walkParent w.files (w.start cwd path) (components path)).map Prod.fst)
        (r.map Prod.fst) w' ∧
      r.map (fun p => cstr dirSiz p.2) =
        (walkParent w.files (w.start cwd path) (components path)).map Prod.snd := by
  -- What `namei` leaves when it returns, or cannot but return.
  have namei {stops : String → Prop}
      (passes : ¬(stops noType ∧ stops noInodes) → w.Passes false cwd path) :
      Wp stops (Walk.namei dev cwd path name) (fun r w' => w.Passes false cwd path ∧
        w.Resolved (walk w.files (w.start cwd path) (components path)) r w') w := by
    unfold Walk.namei
    apply Wp.bind (namex_found ready passes)
    rintro r w' ⟨passed, found⟩
    rw [← namexTarget_false]
    exact Wp.pure ⟨passed, found.resolved ready.unlocked⟩
  have any : Wp (fun _ => True) (Walk.namei dev cwd path name) _ w :=
    namei fun total => absurd ⟨trivial, trivial⟩ total
  have anyParent : Wp (fun _ => True) (Walk.nameiparent dev cwd path name) _ w :=
    namex_found ready fun total => absurd ⟨trivial, trivial⟩ total
  refine ⟨?components, skipelems_rest path name,
    ⟨fun ⟨r, w', ends⟩ => (any.ok ends).1, fun passes => ?_⟩,
    fun r w' ends => (any.ok ends).2, ⟨fun ⟨r, w', ends⟩ => (anyParent.ok ends).1,
      fun passes => ?_⟩,
    fun r w' ends => ?_⟩
  case components =>
    rw [skipelems_names, components_eq]
    exact List.map_congr_left fun elem member => cstr_component string member
  · have wp : Wp (fun _ => False) (Walk.namei dev cwd path name) _ w := namei fun _ => passes
    obtain ⟨r, w', ends, -⟩ := wp.ends
    exact ⟨r, w', ends⟩
  · have wp : Wp (fun _ => False) (Walk.nameiparent dev cwd path name) _ w :=
      namex_found ready fun _ => passes
    obtain ⟨r, w', ends, -⟩ := wp.ends
    exact ⟨r, w', ends⟩
  · obtain ⟨-, found⟩ := anyParent.ok ends
    rw [← namexTarget_true]
    exact ⟨found.resolved ready.unlocked, found.last string⟩

/-- The path `/x`, and the file that it leads to. -/
theorem namei_nameiparent_x :
    ∃ r w', Walk.namei ⟨fun _ => none, fun _ => none⟩ firstInode [slash, 120] []
        (rootWalk 3 3 1 1 [Walk.direntOf [120] 2]) = .ok (some r, w') ∧
      (w'.icache r).inum = 2 := by
  have ready : (rootWalk 3 3 1 1 [Walk.direntOf [120] 2]).Ready firstInode := by decide +kernel
  obtain ⟨-, -, returns, resolved, -⟩ := namei_nameiparent_walk ready
    (by decide : 0 ∉ [slash, 120]) ⟨fun _ => none, fun _ => none⟩ []
  obtain ⟨r, w', ends⟩ := returns.mpr (by decide +kernel)
  obtain ⟨-, found⟩ := resolved r w' ends
  have target : walk (rootWalk 3 3 1 1 [Walk.direntOf [120] 2]).files
      ((rootWalk 3 3 1 1 [Walk.direntOf [120] 2]).start firstInode [slash, 120])
      (components [slash, 120]) = some 2 := by
    decide +kernel
  rw [target] at found
  obtain ⟨ip, rfl, number, -⟩ := found
  exact ⟨ip, w', ends, number⟩

/-- A file system whose inode cache is full. -/
def fullCache : Walk := rootWalk 52 52 1 50 [Walk.direntOf [120] 51]

/-- When the inode cache is full, a path to a file that is not cached is not resolved: `iget`
panics. -/
theorem namei_full_cache : fullCache.Ready firstInode ∧
    walk fullCache.files (fullCache.start firstInode [slash, 120]) (components [slash, 120]) =
      some 51 ∧
    Walk.namei ⟨fun _ => none, fun _ => none⟩ firstInode [slash, 120] [] fullCache =
      .error noInodes :=
  ⟨by decide +kernel, by decide +kernel, Wp.eq_error (by decide +kernel)⟩

end Xv6
