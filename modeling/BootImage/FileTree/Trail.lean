import BootImage.FileTree
import BootImage.Path

/-!
Walking from directory to directory. A walk keeps what lies below every directory that it has come
through, so that no step has to start from the root again. Main statement: `FileTree.walk_eq` says
that a walk leads where its steps lead, each looked up from the root.
-/

namespace BootImage.FileTree

/-- The longest name that a directory can hold, in bytes. -/
def maxName : Nat := 255

def step (tree : FileTree) (place : Location) (name : Bytes) : Except Failure Location :=
  if name = Path.dot then .ok place
  else if name = Path.dotDot then .ok place.dropLast
  else if maxName < name.length then .error .nameTooLong
  else
    match tree.node? (place ++ [name]) with
    | none => .error .notFound
    | some .directory => .ok (place ++ [name])
    | some _ => .error .notADirectory

/-- The directories from a place back to the root, the nearest first, each with what lies below
it. -/
abbrev Trail := List (Bytes × Forest Node)

/-- The place that a trail leads back from. -/
def Trail.place (trail : Trail) : Location :=
  (trail.map (·.1)).reverse

/-- What lies below the place that a trail leads back from. -/
def below (tree : FileTree) : Trail → Forest Node
  | [] => tree.entries
  | (_, forest) :: _ => forest

def extend (tree : FileTree) (trail : Trail) (name : Bytes) : Trail :=
  (name, (tree.below trail).under name) :: trail

def advance (tree : FileTree) (trail : Trail) (name : Bytes) : Except Failure Trail :=
  if name = Path.dot then .ok trail
  else if name = Path.dotDot then .ok trail.tail
  else if maxName < name.length then .error .nameTooLong
  else
    match (tree.below trail).find? [name] with
    | none => .error .notFound
    | some .directory => .ok (tree.extend trail name)
    | some _ => .error .notADirectory

def walk (tree : FileTree) (start : Location) (names : List Bytes) : Except Failure Location :=
  (names.foldlM tree.advance (start.foldl tree.extend [])).map Trail.place

/-- Whether a trail has what the tree has below its directories. -/
def Marks (tree : FileTree) : Trail → Prop
  | [] => True
  | (name, forest) :: trail => forest = (tree.below trail).under name ∧ tree.Marks trail

theorem place_cons (name : Bytes) (forest : Forest Node) (trail : Trail) :
    Trail.place ((name, forest) :: trail) = trail.place ++ [name] := by
  simp [Trail.place]

theorem place_tail (trail : Trail) : Trail.place trail.tail = trail.place.dropLast := by
  cases trail <;> simp [Trail.place]

theorem place_foldl_extend (tree : FileTree) (names : List Bytes) (trail : Trail) :
    Trail.place (names.foldl tree.extend trail) = trail.place ++ names := by
  induction names generalizing trail with
  | nil => simp
  | cons name rest ih => simp [ih, extend, place_cons]

theorem Marks.tail {tree : FileTree} {trail : Trail} (marks : tree.Marks trail) :
    tree.Marks trail.tail := by
  cases trail with
  | nil => exact marks
  | cons _ _ => exact marks.2

theorem Marks.foldl_extend {tree : FileTree} {trail : Trail} (marks : tree.Marks trail)
    (names : List Bytes) : tree.Marks (names.foldl tree.extend trail) := by
  induction names generalizing trail with
  | nil => exact marks
  | cons name rest ih => exact ih ⟨rfl, marks⟩

/-- What is found below the near end of a trail is what the tree has there. -/
theorem Marks.find?_below {tree : FileTree} {trail : Trail} (marks : tree.Marks trail)
    {place : Location} (named : place ≠ []) :
    (tree.below trail).find? place = tree.node? (trail.place ++ place) := by
  induction trail generalizing place with
  | nil => simp [below, node?, named, Trail.place]
  | cons first rest ih =>
      obtain ⟨name, forest⟩ := first
      obtain ⟨held, above⟩ := marks
      subst held
      rw [below, Forest.find?_under name named, ih above (by simp), place_cons]
      simp

/-- A step keeps the marks, and leads where it leads from the root. -/
theorem Marks.advance {tree : FileTree} {trail : Trail} (marks : tree.Marks trail) (name : Bytes) :
    (∀ next, tree.advance trail name = .ok next → tree.Marks next) ∧
      (tree.advance trail name).map Trail.place = tree.step trail.place name := by
  have found : (tree.below trail).find? [name] = tree.node? (trail.place ++ [name]) :=
    marks.find?_below (by simp)
  unfold FileTree.advance step
  split
  · exact ⟨fun _ same => by cases same; exact marks, rfl⟩
  · split
    · exact ⟨fun _ same => by cases same; exact marks.tail, by simp [Except.map, place_tail]⟩
    · split
      · exact ⟨nofun, rfl⟩
      · rw [found]
        rcases tree.node? (trail.place ++ [name]) with _ | node
        · exact ⟨nofun, rfl⟩
        · cases node with
          | directory =>
              exact ⟨fun _ same => by cases same; exact ⟨rfl, marks⟩, by
                simp [Except.map, extend, place_cons]⟩
          | file _ _ => exact ⟨nofun, rfl⟩
          | device _ => exact ⟨nofun, rfl⟩

theorem Marks.foldlM_advance {tree : FileTree} {trail : Trail} (marks : tree.Marks trail)
    (names : List Bytes) :
    (names.foldlM tree.advance trail).map Trail.place = names.foldlM tree.step trail.place := by
  induction names generalizing trail with
  | nil => rfl
  | cons name rest ih =>
      obtain ⟨kept, same⟩ := marks.advance name
      simp only [List.foldlM_cons, ← same]
      cases next : tree.advance trail name with
      | error failure => rfl
      | ok next' => exact ih (kept next' next)

/-- A walk leads where its steps lead, one after the other. -/
theorem walk_eq (tree : FileTree) (start : Location) (names : List Bytes) :
    tree.walk start names = names.foldlM tree.step start := by
  have root : tree.Marks [] := trivial
  have marks := root.foldl_extend start
  rw [walk, marks.foldlM_advance, place_foldl_extend]
  rfl

end BootImage.FileTree
