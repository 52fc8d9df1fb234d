import BootImage.FileTree.Forest
import BootImage.Reader

/-!
Files, directories and devices. A place in the tree is the list of names that leads to it from the
root. Main statement: `FileTree.node?_put` says that changing one place leaves all others alone.

There are no links, so every file has one place and `..` goes back to the directory that a path came
through. Nor are there permissions: the mode of a file is kept, but it refuses nobody, and making a
file fails only for its path, a directory in its place, or a directory that takes no new names. What
is said of all file trees is said of trees of this kind.
-/

namespace BootImage

/-- A file that is a device: what reading it gives, and the failure that a write or a change of its
mode meets, if any. -/
structure Device where
  content : Content
  writeFailure : Option Failure
  modeFailure : Option Failure

inductive Node where
  | directory
  | file (content : Array UInt8) (mode : Nat)
  | device (behaviour : Device)

namespace Node

/-- The permission bits of a file when it is made. -/
def plainMode : Nat := 0o644

def scriptMode : Nat := 0o750

def content : Node → Content
  | .directory => .unreadable .isADirectory
  | .file content _ => .bytes content
  | .device behaviour => behaviour.content

end Node

/-- Everything below the root, by place. -/
structure FileTree where
  entries : Forest Node
  /-- The place that relative paths start from. -/
  workingDirectory : Location
  /-- Directories that take no new names. -/
  closed : List Location

namespace FileTree

/-- What is at a place; the root is a directory. -/
def node? (tree : FileTree) (place : Location) : Option Node :=
  if place = [] then some .directory else tree.entries.find? place

def put (tree : FileTree) (place : Location) (node : Node) : FileTree :=
  { tree with entries := tree.entries.insert node place }

theorem node?_put (tree : FileTree) {place : Location} (below : place ≠ []) (node : Node)
    (other : Location) :
    (tree.put place node).node? other = if place = other then some node else tree.node? other := by
  by_cases root : other = []
  · subst root
    simp [node?, below]
  · simp [node?, put, root, Forest.find?_insert _ below]

def contentAt (tree : FileTree) (place : Location) : Content :=
  match tree.node? place with
  | some node => node.content
  | none => .unreadable .notFound

end FileTree

end BootImage
