import Mathlib.Data.List.Basic
import BootImage.CommandLine

/-!
Paths and the steps that they take. A path with a name takes the steps of its parent and the name as
one more, and so does the name below the parent, whatever slashes and idle components they are
written with. So what is named like the source in the directory that the source is found in is the
source.

* `Path.components_join`: a name below a directory is one step more.
* `Path.exists_parent?`: the steps of a path are those of its parent and its name.
* `CommandLine.Invocation.targetDirectory_holds_source`: where to unpack to unless it is said.
-/

namespace BootImage

/-! ### Pieces -/

namespace Bytes

variable {separator : UInt8}

theorem pieces_eq_splitOn (separator : UInt8) (bytes : Bytes) :
    pieces separator bytes = bytes.splitOn separator := by
  induction bytes with
  | nil => rfl
  | cons b rest ih =>
      rw [pieces, ih, List.splitOn_cons_eq_if_modifyHead]
      cases front : rest.splitOn separator with
      | nil => exact absurd front (List.splitOn_ne_nil _ _)
      | cons piece others => simp [List.modifyHead]

/-- A separator divides the pieces before it from those behind it. -/
theorem pieces_append (separator : UInt8) (left right : Bytes) :
    pieces separator (left ++ separator :: right) =
      pieces separator left ++ pieces separator right := by
  rw [pieces_eq_splitOn, pieces_eq_splitOn, pieces_eq_splitOn, List.splitOn_append_cons_self]

/-- No piece holds the separator. -/
theorem notMem_of_mem_pieces {bytes piece : Bytes} (mem : piece ∈ pieces separator bytes) :
    separator ∉ piece := by
  induction bytes generalizing piece with
  | nil =>
      rw [List.mem_singleton.mp mem]
      exact List.not_mem_nil
  | cons b rest ih =>
      rw [pieces] at mem
      split at mem
      · rcases List.mem_cons.mp mem with rfl | among
        · exact List.not_mem_nil
        · exact ih among
      · rename_i other
        cases front : pieces separator rest with
        | nil => exact absurd front (pieces_ne_nil _ _)
        | cons first others =>
            rw [front] at mem ih
            rcases List.mem_cons.mp mem with rfl | among
            · rw [List.mem_cons, not_or]
              exact ⟨Ne.symm other, ih List.mem_cons_self⟩
            · exact ih (List.mem_cons_of_mem _ among)

end Bytes

namespace Path

variable {path directory : Path} {name : Bytes} {pieces : List Bytes}

/-- The steps that pieces between slashes are. -/
def steps (pieces : List Bytes) : List Component :=
  (pieces.filter fun piece => ¬ isIdle piece).map fun piece =>
    if piece = dotDot then .parent else .normal piece

/-- The first step of a path when no piece is it. -/
def lead (path : Path) : List Component :=
  if start path = [] then [] else if start path = [slash] then [.root] else [.current]

theorem steps_append (left right : List Bytes) :
    steps (left ++ right) = steps left ++ steps right := by
  rw [steps, List.filter_append, List.map_append]
  rfl

theorem steps_of_idle (idle : ∀ piece ∈ pieces, isIdle piece = true) : steps pieces = [] := by
  have none : pieces.filter (fun piece => ¬ isIdle piece) = [] := by
    rw [List.filter_eq_nil_iff]
    intro piece mem
    simp [idle piece mem]
  rw [steps, none]
  rfl

theorem steps_cons_of_idle {piece : Bytes} (idle : isIdle piece = true) (pieces : List Bytes) :
    steps (piece :: pieces) = steps pieces := by
  rw [← List.singleton_append, steps_append, steps_of_idle (by simpa using idle), List.nil_append]

/-- Trimming takes no step away. -/
theorem steps_trimmed (pieces : List Bytes) : steps (trimmed pieces) = steps pieces := by
  have idle : steps (pieces.reverse.takeWhile isIdle).reverse = [] := by
    apply steps_of_idle
    intro piece mem
    exact List.all_eq_true.mp List.all_takeWhile piece (List.mem_reverse.mp mem)
  rw [← List.append_nil (steps (trimmed pieces)), ← idle, ← steps_append, trimmed_append]

/-! ### Where a path starts -/

theorem exists_of_isAbsolute (absolute : isAbsolute path = true) :
    ∃ rest, path = slash :: rest := by
  cases path with
  | nil => cases absolute
  | cons first rest =>
      obtain rfl : first = slash := by simpa [isAbsolute] using absolute
      exact ⟨rest, rfl⟩

/-- Where a path starts is a piece of its own, an idle one. -/
theorem steps_body (path : Path) : steps (body path) = steps (Bytes.pieces slash path) := by
  cases path with
  | nil => rfl
  | cons first rest =>
      rw [body, start]
      split
      · rename_i root
        rw [root, Bytes.pieces, if_pos rfl, steps_cons_of_idle rfl]
        rfl
      · split
        · rename_i _ current
          obtain ⟨dotted, alone | absolute⟩ := current
          · obtain rfl := List.head_eq_of_cons_eq dotted
            subst alone
            decide
          · obtain rfl := List.head_eq_of_cons_eq dotted
            obtain ⟨below, rfl⟩ := exists_of_isAbsolute absolute
            have divided := Bytes.pieces_append slash dot below
            rw [show Bytes.pieces slash dot = [dot] by decide] at divided
            rw [show (0x2E : UInt8) :: slash :: below = dot ++ slash :: below from rfl, divided]
            exact (steps_cons_of_idle rfl _).trans (steps_cons_of_idle rfl _).symm
        · rfl

theorem components_eq_body (path : Path) : components path = lead path ++ steps (body path) :=
  rfl

/-- A path takes the steps that its pieces are, behind the one that it starts with. -/
theorem components_eq (path : Path) :
    components path = lead path ++ steps (Bytes.pieces slash path) := by
  rw [components_eq_body, steps_body]

/-- The front of a path starts where the path starts, unless it is the dot of a name. -/
theorem start_front {front : Path} (within : front <+: path) (nonempty : front ≠ [])
    (other : start path = [] → front ≠ dot) : start front = start path := by
  obtain ⟨rest, rfl⟩ := within
  match front with
  | [first] =>
      by_cases root : first = slash
      · simp [start, root]
      · by_cases dotted : [first] = dot
        · -- Without a start of its own the path would have a name that begins with the dot.
          have begun : start (first :: rest) ≠ [] := fun none => other none dotted
          rw [List.singleton_append]
          simp only [start, if_neg root] at begun ⊢
          split at begun
          · rename_i current
            rw [if_pos current, if_pos ⟨dotted, .inl trivial⟩]
          · contradiction
        · simp [start, root, dotted]
  | first :: second :: others => simp [start, isAbsolute]

theorem lead_front {front : Path} (within : front <+: path) (nonempty : front ≠ [])
    (other : start path = [] → front ≠ dot) : lead front = lead path := by
  rw [lead, lead, start_front within nonempty other]

/-! ### A name below a directory -/

/-- A name that is a step of its own. -/
structure IsName (name : Bytes) : Prop where
  free : slash ∉ name
  step : steps [name] = [.normal name]

theorem IsName.not_isAbsolute (named : IsName name) : isAbsolute name = false := by
  cases absolute : isAbsolute name with
  | false => rfl
  | true =>
      obtain ⟨rest, rfl⟩ := exists_of_isAbsolute absolute
      exact absurd List.mem_cons_self named.free

theorem IsName.pieces_eq (named : IsName name) : Bytes.pieces slash name = [name] := by
  rw [Bytes.pieces_eq_splitOn, List.splitOn_eq_singleton named.free]

theorem join_slash (named : IsName name) (front : Path) :
    join (front ++ [slash]) name = front ++ slash :: name := by
  simp [join, named.not_isAbsolute]

theorem join_of_ne_slash (named : IsName name) {last : UInt8} (other : last ≠ slash)
    (front : Path) : join (front ++ [last]) name = front ++ [last] ++ slash :: name := by
  simp [join, named.not_isAbsolute, other]

theorem lead_join (named : IsName name) (nonempty : directory ≠ []) :
    lead (join directory name) = lead directory := by
  refine (lead_front ?_ nonempty ?_).symm
  · obtain ⟨front, last, rfl⟩ : ∃ front last, directory = front ++ [last] :=
      ⟨_, _, (List.dropLast_concat_getLast nonempty).symm⟩
    by_cases slashed : last = slash
    · rw [slashed, join_slash named]
      exact ⟨name, List.append_assoc ..⟩
    · rw [join_of_ne_slash named slashed]
      exact List.prefix_append _ _
  · rintro none rfl
    have joined : join dot name = 0x2E :: slash :: name :=
      join_of_ne_slash named (show (0x2E : UInt8) ≠ slash by decide) []
    rw [joined] at none
    simp [start, dot, slash, isAbsolute] at none

theorem steps_join (named : IsName name) (nonempty : directory ≠ []) :
    steps (Bytes.pieces slash (join directory name)) =
      steps (Bytes.pieces slash directory) ++ [.normal name] := by
  obtain ⟨front, last, rfl⟩ : ∃ front last, directory = front ++ [last] :=
    ⟨_, _, (List.dropLast_concat_getLast nonempty).symm⟩
  by_cases slashed : last = slash
  · have nothing : steps (Bytes.pieces slash []) = [] := rfl
    rw [slashed, join_slash named, Bytes.pieces_append, Bytes.pieces_append, named.pieces_eq,
      steps_append, steps_append, named.step, nothing, List.append_nil]
  · rw [join_of_ne_slash named slashed, Bytes.pieces_append, named.pieces_eq, steps_append,
      named.step]

/-- A name below a directory is one step more. -/
theorem components_join (named : IsName name) (nonempty : directory ≠ []) :
    components (join directory name) = components directory ++ [.normal name] := by
  rw [components_eq, components_eq, lead_join named nonempty, steps_join named nonempty,
    List.append_assoc]

/-! ### Parent and name -/

theorem trimmed_front (pieces : List Bytes) : trimmed pieces <+: pieces :=
  ⟨_, trimmed_append pieces⟩

theorem steps_of_not_isIdle {piece : Bytes} (step : isIdle piece = false) :
    steps [piece] = [if piece = dotDot then .parent else .normal piece] := by
  simp [steps, step]

/-- Pieces that are no steps are trimmed away. -/
theorem trimmed_eq_nil (none : steps pieces = []) : trimmed pieces = [] := by
  rcases List.eq_nil_or_concat' (trimmed pieces) with nothing | ⟨front, last, kept⟩
  · exact nothing
  · rw [← steps_trimmed, kept, steps_append,
      steps_of_not_isIdle (not_isIdle_of_trimmed kept)] at none
    exact absurd none (List.append_ne_nil_of_right_ne_nil _ (List.cons_ne_nil _ _))

theorem fileName?_eq_some_iff :
    fileName? path = some name ↔ (components path).getLast? = some (.normal name) := by
  rw [fileName?]
  split
  · rename_i last found
    rw [found, Option.some.injEq, Option.some.injEq, Component.normal.injEq]
  · rename_i other
    exact ⟨nofun, fun found => absurd found (other name)⟩

theorem normal_notMem_lead (path : Path) (name : Bytes) : .normal name ∉ lead path := by
  rw [lead]
  split
  · exact List.not_mem_nil
  · split <;> simp

/-- A path that has a name has it behind its other pieces. -/
theorem exists_trimmed_body (found : fileName? path = some name) :
    ∃ front, trimmed (body path) = front ++ [name] ∧ IsName name := by
  have whole : components path = lead path ++ steps (trimmed (body path)) := by
    rw [steps_trimmed]
    rfl
  rw [fileName?_eq_some_iff, whole] at found
  rcases List.eq_nil_or_concat' (trimmed (body path)) with nothing | ⟨front, last, kept⟩
  · -- Where a path starts is no name.
    rw [nothing] at found
    have mem := List.mem_of_getLast? found
    rw [List.mem_append] at mem
    rcases mem with first | piece
    · exact absurd first (normal_notMem_lead path name)
    · cases piece
  · have step := steps_of_not_isIdle (not_isIdle_of_trimmed kept)
    rw [kept, steps_append, step, ← List.append_assoc, List.getLast?_concat,
      Option.some.injEq] at found
    rw [found] at step
    split at found
    · cases found
    · cases found
      have mem : name ∈ body path :=
        (trimmed_front _).subset (by rw [kept]; exact List.mem_concat_self)
      exact ⟨front, kept, Bytes.notMem_of_mem_pieces mem, step⟩

theorem steps_pieces_intercalate (free : ∀ piece ∈ pieces, slash ∉ piece) :
    steps (Bytes.pieces slash ([slash].intercalate pieces)) = steps pieces := by
  cases pieces with
  | nil => decide
  | cons first others =>
      rw [Bytes.pieces_eq_splitOn, List.splitOn_intercalate slash free (List.cons_ne_nil _ _)]

/-- Joining leading pieces gives the front of what joining all of them gives. -/
theorem intercalate_front {front : List Bytes} (within : front <+: pieces) :
    [slash].intercalate front <+: [slash].intercalate pieces := by
  obtain ⟨rest, rfl⟩ := within
  induction front with
  | nil => exact List.nil_prefix
  | cons first others ih =>
      cases others with
      | nil =>
          cases rest with
          | nil => exact List.prefix_rfl
          | cons next more =>
              rw [List.singleton_append, List.intercalate_cons_cons, List.intercalate_singleton,
                List.append_assoc]
              exact List.prefix_append _ _
      | cons second others =>
          rw [List.cons_append, List.cons_append, List.intercalate_cons_cons,
            List.intercalate_cons_cons]
          exact (List.prefix_append_right_inj _).mpr ih

/-- What comes before a name starts where the path starts, and its steps are those of its
pieces. -/
theorem components_before {front : List Bytes} (within : front <+: body path) :
    components (start path ++ [slash].intercalate (trimmed front)) =
      lead path ++ steps front := by
  have free : ∀ piece ∈ trimmed front, slash ∉ piece := by
    intro piece mem
    exact Bytes.notMem_of_mem_pieces (within.subset ((trimmed_front front).subset mem))
  have read : steps (Bytes.pieces slash ([slash].intercalate (trimmed front))) = steps front := by
    rw [steps_pieces_intercalate free, steps_trimmed]
  have before : start path ++ [slash].intercalate (trimmed front) <+: path := by
    have joined := intercalate_front ((trimmed_front front).trans within)
    rw [body, Bytes.intercalate_pieces] at joined
    have whole := (List.prefix_append_right_inj (start path)).mpr joined
    rwa [start_append_drop] at whole
  have begun : start (start path ++ [slash].intercalate (trimmed front)) = start path := by
    by_cases nothing : start path ++ [slash].intercalate (trimmed front) = []
    · rw [nothing, (List.append_eq_nil_iff.mp nothing).1]
      rfl
    · refine start_front before nothing fun none dotted => ?_
      -- A lone dot is no step, and of pieces that are no steps trimming leaves nothing.
      rw [none, List.nil_append] at dotted
      rw [dotted] at read
      rw [trimmed_eq_nil (read.symm.trans (by decide))] at dotted
      cases dotted
  rw [components_eq_body, lead, begun, body, begun, List.drop_left, read]
  rfl

/-- **A path takes the steps of its parent and its name.** -/
theorem exists_parent? (found : fileName? path = some name) :
    ∃ parent, parent? path = some parent ∧
      components path = components parent ++ [.normal name] := by
  obtain ⟨front, kept, named⟩ := exists_trimmed_body found
  have within : front <+: body path := by
    refine .trans ?_ (trimmed_front (body path))
    rw [kept]
    exact List.prefix_append _ _
  have parent : parent? path = some (start path ++ [slash].intercalate (trimmed front)) := by
    rw [parent?, kept, List.dropLast_concat]
    exact if_neg (List.append_ne_nil_of_right_ne_nil _ (List.cons_ne_nil _ _))
  refine ⟨_, parent, ?_⟩
  rw [components_before within, components_eq_body, ← steps_trimmed (body path), kept,
    steps_append, named.step, List.append_assoc]

end Path

/-- **Unless it is said otherwise, the image is unpacked beside its source.** Where the source has a
name, the target directory is not empty, and that name in it takes the steps of the source, but for
a `.` in front where the source is spelled without a directory. -/
theorem CommandLine.Invocation.targetDirectory_holds_source (invocation : Invocation) {name : Bytes}
    (unsaid : invocation.directory = none) (found : invocation.source.fileName? = some name) :
    invocation.targetDirectory ≠ [] ∧
      ((invocation.targetDirectory.join name).components = invocation.source.components ∨
        (invocation.targetDirectory.join name).components =
          .current :: invocation.source.components) := by
  obtain ⟨-, -, named⟩ := Path.exists_trimmed_body found
  obtain ⟨parent, split, whole⟩ := Path.exists_parent? found
  rw [targetDirectory, unsaid, Option.getD_none, Path.directory, split, whole]
  cases parent with
  | nil => exact ⟨List.cons_ne_nil _ _, .inr (Path.components_join named (List.cons_ne_nil _ _))⟩
  | cons first rest =>
      exact ⟨List.cons_ne_nil _ _, .inl (Path.components_join named (List.cons_ne_nil _ _))⟩

/-- A source that is spelled with slashes and idle components everywhere, and with a byte that is no
text: `//a/./..//é//./`, the `é` in Latin-1. Its name in `//a/./..` takes the same steps. -/
theorem CommandLine.Invocation.targetDirectory_of_odd_spelling :
    let odd : Invocation :=
      { source := [0x2F, 0x2F, 0x61, 0x2F, 0x2E, 0x2F, 0x2E, 0x2E, 0x2F, 0x2F, 0xE9, 0x2F, 0x2F,
          0x2E, 0x2F]
        directory := none, verbose := false, info := false, null := false, format := .info
        plan := .standard }
    odd.directory = none ∧ odd.source.fileName? = some [0xE9] ∧ odd.targetDirectory ≠ [] ∧
      odd.source.components = [.root, .normal [0x61], .parent, .normal [0xE9]] ∧
      ((odd.targetDirectory.join [0xE9]).components = odd.source.components ∨
        (odd.targetDirectory.join [0xE9]).components = .current :: odd.source.components) := by
  intro odd
  have found : odd.source.fileName? = some [0xE9] := by decide
  obtain ⟨nonempty, same⟩ := odd.targetDirectory_holds_source rfl found
  exact ⟨rfl, found, nonempty, by decide, same⟩

end BootImage
