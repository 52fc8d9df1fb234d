import BootImage.FileTree.Trail

/-!
What paths name in a file tree.

A path is walked step by step: every step but the last must lead to a directory, `..` goes back to
the directory above the one reached so far, and a slash at the end asks for a directory. Files are
made or emptied by `FileTree.create`, directories by `FileTree.makeDirectories`.
-/

namespace BootImage.FileTree

/-- The longest path that is looked at, in bytes. -/
def maxPath : Nat := 4095

inductive Target where
  /-- In a directory that was reached: by the root, by `.` or by `..`. -/
  | reached (place : Location)
  /-- At a name in a directory; `slash` when the path goes on with nothing but a slash. -/
  | named (parent : Location) (name : Bytes) (slash : Bool)
  deriving DecidableEq, Repr

/-- The way of a path up to its last step. -/
def locate (tree : FileTree) (path : Path) : Except Failure Target :=
  if 0 ∈ path then .error .nulInPath
  else if path = [] then .error .notFound
  else if maxPath < path.length then .error .nameTooLong
  else do
    let names := (Bytes.pieces Path.slash path).filter (· ≠ [])
    let start := if Path.isAbsolute path then [] else tree.workingDirectory
    match names.getLast? with
    | none => return .reached start
    | some last =>
        let parent ← tree.walk start names.dropLast
        if last = Path.dot then return .reached parent
        else if last = Path.dotDot then return .reached parent.dropLast
        else return .named parent last (path.getLast? = some Path.slash)

def lookUp (tree : FileTree) (parent : Location) (name : Bytes) : Except Failure (Option Node) :=
  if maxName < name.length then .error .nameTooLong else .ok (tree.node? (parent ++ [name]))

/-- The place of an existing file or directory that is to be read. -/
def openToRead (tree : FileTree) (path : Path) : Except Failure Location := do
  match ← tree.locate path with
  | .reached place => return place
  | .named parent name slash =>
      match ← tree.lookUp parent name with
      | none => throw .notFound
      | some .directory => return parent ++ [name]
      | some _ => if slash then throw .notADirectory else return parent ++ [name]

/-- Makes an empty file, or empties the file that is there and keeps its mode. A device is left as
it is. The answer is the tree with that file, and its place. -/
def create (tree : FileTree) (path : Path) : Except Failure (FileTree × Location) := do
  match ← tree.locate path with
  | .reached _ => throw .isADirectory
  | .named parent name slash =>
      if slash then throw .isADirectory
      let place := parent ++ [name]
      match ← tree.lookUp parent name with
      | none =>
          if parent ∈ tree.closed then throw .notFound
          return (tree.put place (.file #[] Node.plainMode), place)
      | some (.file _ mode) => return (tree.put place (.file #[] mode), place)
      | some (.device _) => return (tree, place)
      | some .directory => throw .isADirectory

def isDirectory (tree : FileTree) (path : Path) : Bool :=
  match tree.openToRead path with
  | .error _ => false
  | .ok place =>
      match tree.node? place with
      | some .directory => true
      | _ => false

/-- Makes one directory, in a directory that exists. -/
def makeDirectory (tree : FileTree) (path : Path) : Except Failure FileTree := do
  match ← tree.locate path with
  | .reached _ => throw .fileExists
  | .named parent name _ =>
      match ← tree.lookUp parent name with
      | none =>
          if parent ∈ tree.closed then throw .notFound
          return tree.put (parent ++ [name]) .directory
      | some _ => throw .fileExists

/-- A directory that may be there already; `failure` is what making it has met. -/
def acceptDirectory (tree : FileTree) (path : Path) (failure : Failure) : Except Failure FileTree :=
  if tree.isDirectory path then .ok tree else .error failure

/-- Makes a directory and all directories above it that are missing. Also a tree where this fails
half way keeps what was made. -/
def makeDirectories (tree : FileTree) (path : Path) : Except Failure Unit × FileTree :=
  if path = [] then (.ok (), tree)
  else
    match tree.makeDirectory path with
    | .ok made => (.ok (), made)
    | .error failure =>
        if failure.kind = .notFound then
          match _found : path.parent? with
          | none => (.error ⟨.other, "failed to create whole tree"⟩, tree)
          | some parent =>
              match makeDirectories tree parent with
              | (.error failure, above) => (.error failure, above)
              | (.ok (), above) =>
                  match above.makeDirectory path with
                  | .ok made => (.ok (), made)
                  | .error failure => ((above.acceptDirectory path failure).map fun _ => (), above)
        else ((tree.acceptDirectory path failure).map fun _ => (), tree)
termination_by path.length
decreasing_by exact Path.length_parent?_lt ‹_›

end BootImage.FileTree
