import BootImage.Text

/-!
Paths: byte strings in which `/` divides components. Only what a path spells is looked at here,
never what it names.

* `Path.join` and `Path.parent?` keep a path as it is written.
* `Path.components` is the reading in which repeated and trailing slashes and inner `.` components
  do not count.
-/

namespace BootImage

abbrev Path := Bytes

namespace Path

def slash : UInt8 := 0x2F

/-- The component `.`, the directory itself. -/
def dot : Bytes := [0x2E]

/-- The component `..`, the directory above. -/
def dotDot : Bytes := [0x2E, 0x2E]

def isAbsolute (path : Path) : Bool :=
  path.head? = some slash

/-- A path below a directory. An absolute path stands for itself; otherwise one slash divides the
two, unless the directory is empty or ends in a slash already. -/
def join (directory path : Path) : Path :=
  if isAbsolute path then path
  else
    match directory.getLast? with
    | none => path
    | some last => if last = slash then directory ++ path else directory ++ slash :: path

def display (path : Path) : String :=
  Utf8.decodeLossy path

inductive Component where
  | root
  | current
  | parent
  | normal (name : Bytes)
  deriving DecidableEq, Repr

/-- Where a path starts: its first byte when that is a slash or a leading `.` component. -/
def start (path : Path) : Bytes :=
  match path with
  | [] => []
  | first :: rest =>
      if first = slash then [first]
      else if [first] = dot ∧ (rest = [] ∨ isAbsolute rest) then [first]
      else []

/-- Whether a piece between slashes is no step: it is empty or `.`. -/
def isIdle (piece : Bytes) : Bool :=
  piece = [] ∨ piece = dot

/-- The pieces between slashes behind the start. -/
def body (path : Path) : List Bytes :=
  Bytes.pieces slash (path.drop (start path).length)

def components (path : Path) : List Component :=
  let first : List Component :=
    if start path = [] then [] else if start path = [slash] then [.root] else [.current]
  first ++ ((body path).filter fun piece => ¬ isIdle piece).map fun piece =>
    if piece = dotDot then .parent else .normal piece

/-- The pieces without the idle ones at the end. -/
def trimmed (pieces : List Bytes) : List Bytes :=
  (pieces.reverse.dropWhile isIdle).reverse

/-- The path without its last step, otherwise as it is written. The root and the empty path have
no parent. -/
def parent? (path : Path) : Option Path :=
  let kept := trimmed (body path)
  if kept = [] then
    if start path = dot then some [] else none
  else
    some (start path ++ [slash].intercalate (trimmed kept.dropLast))

theorem start_append_drop (path : Path) : start path ++ path.drop (start path).length = path := by
  cases path with
  | nil => rfl
  | cons first rest =>
      simp only [start]
      split
      · rfl
      · split <;> rfl

/-- What joining pieces takes at most: their bytes and a slash for each. -/
def weight : List Bytes → Nat
  | [] => 0
  | piece :: rest => piece.length + 1 + weight rest

theorem length_intercalate (pieces : List Bytes) :
    ([slash].intercalate pieces).length = weight pieces - 1 := by
  induction pieces with
  | nil => rfl
  | cons piece rest ih =>
      cases rest with
      | nil => simp [List.intercalate, weight]
      | cons next others =>
          simp only [List.intercalate_cons_cons, List.length_append, ih]
          simp [weight]
          omega

theorem weight_append (left right : List Bytes) :
    weight (left ++ right) = weight left + weight right := by
  induction left with
  | nil => simp [weight]
  | cons piece rest ih => simp [weight, ih, Nat.add_assoc]

/-- Trimming takes idle pieces off the end and nothing else. -/
theorem trimmed_append (pieces : List Bytes) :
    trimmed pieces ++ (pieces.reverse.takeWhile isIdle).reverse = pieces := by
  rw [trimmed, ← List.reverse_append, List.takeWhile_append_dropWhile, List.reverse_reverse]

theorem weight_trimmed_le (pieces : List Bytes) : weight (trimmed pieces) ≤ weight pieces := by
  have whole := congrArg weight (trimmed_append pieces)
  rw [weight_append] at whole
  omega

/-- What trimming leaves ends in a step. -/
theorem not_isIdle_of_trimmed {pieces front : List Bytes} {last : Bytes}
    (kept : trimmed pieces = front ++ [last]) : isIdle last = false := by
  have reversed : pieces.reverse.dropWhile isIdle = last :: front.reverse := by
    rw [← List.reverse_reverse (pieces.reverse.dropWhile isIdle)]
    exact (congrArg List.reverse kept).trans List.reverse_concat
  have nonempty : pieces.reverse.dropWhile isIdle ≠ [] := by
    rw [reversed]
    exact List.cons_ne_nil _ _
  have step := List.head_dropWhile_not isIdle nonempty
  simp only [reversed] at step
  exact step

/-- The last piece that trimming leaves is a step, so it is not empty. -/
theorem getLast_trimmed_ne_nil {pieces : List Bytes} (kept : trimmed pieces ≠ []) :
    (trimmed pieces).getLast kept ≠ [] := by
  intro empty
  have step := not_isIdle_of_trimmed (List.dropLast_concat_getLast kept).symm
  rw [empty] at step
  exact absurd step (by decide)

/-- A parent is shorter than what it is the parent of. -/
theorem length_parent?_lt {path parent : Path} (h : parent? path = some parent) :
    parent.length < path.length := by
  have whole := congrArg List.length (start_append_drop path)
  have joined := congrArg List.length (Bytes.intercalate_pieces slash (path.drop (start path).length))
  rw [length_intercalate] at joined
  rw [List.length_append] at whole
  simp only [parent?] at h
  split at h
  · split at h
    · rename_i first
      rw [first] at whole
      simp only [Option.some.injEq] at h
      subst h
      simp [dot] at whole ⊢
      omega
    · contradiction
  · rename_i kept
    simp only [Option.some.injEq] at h
    subst h
    have last := List.length_pos_iff.mpr (getLast_trimmed_ne_nil kept)
    have cut := congrArg weight (List.dropLast_concat_getLast kept)
    have before := weight_trimmed_le (trimmed (body path)).dropLast
    have most := weight_trimmed_le (body path)
    rw [weight_append] at cut
    simp only [weight] at cut
    simp only [List.length_append, length_intercalate]
    simp only [body] at *
    omega

/-- The name that a path ends in, when its last step is one. -/
def fileName? (path : Path) : Option Bytes :=
  match (components path).getLast? with
  | some (.normal name) => some name
  | _ => none

/-- The directory that holds what a path names: its parent, or `.` where that is empty or
missing. -/
def directory (path : Path) : Path :=
  match parent? path with
  | none | some [] => dot
  | some parent => parent

end Path

end BootImage
