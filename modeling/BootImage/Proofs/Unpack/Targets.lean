import BootImage.Proofs.FileTree.Directories
import BootImage.Proofs.Unpack.Run

/-!
Where the files of an image go. A path leads to a place when a file can be made there, and the
places do not change while files are made and rewritten, so what is assumed of the targets of an
image holds at every turn of a run.
-/

namespace BootImage

namespace FileTree

variable {tree other : FileTree} {path : Path} {place : Location}

/-- A file can be made by a path, and it is made at a place. -/
def Leads (tree : FileTree) (path : Path) (place : Location) : Prop :=
  ∃ after, tree.create path = .ok (after, place)

theorem Leads.unique {place' : Location} (leads : tree.Leads path place)
    (leads' : tree.Leads path place') : place = place' := by
  obtain ⟨after, made⟩ := leads
  obtain ⟨after', made'⟩ := leads'
  cases made.symm.trans made'
  rfl

/-- A name behind `./` leads into the working directory. -/
theorem leads_dot_join {name : Bytes} (bare : Path.slash ∉ name) (noNul : 0 ∉ name)
    (step : name ∉ [[], Path.dot, Path.dotDot]) (short : name.length ≤ maxName)
    (takes : tree.Takes (tree.workingDirectory ++ [name])) :
    tree.Leads (Path.join Path.dot name) (tree.workingDirectory ++ [name]) := by
  have fits : name.length + 2 ≤ maxPath := by
    unfold maxName at short
    unfold maxPath
    omega
  exact ⟨_, create_eq_ok_iff.mpr ⟨_, _, tree.locate_dot_join bare noNul step fits, short, rfl,
    .inl ⟨takes, rfl⟩⟩⟩

theorem Refiled.leads_iff (refiled : tree.Refiled other) :
    other.Leads path place ↔ tree.Leads path place :=
  refiled.exists_create_iff

/-- Paths that lead to no device. -/
def Regular (tree : FileTree) (paths : List Path) : Prop :=
  ∀ path ∈ paths, ∀ place behaviour, tree.Leads path place →
    tree.node? place ≠ some (.device behaviour)

theorem Regular.takes {paths : List Path} (regular : tree.Regular paths) (among : path ∈ paths)
    (leads : tree.Leads path place) : tree.Takes place := by
  obtain ⟨after, made⟩ := leads
  obtain ⟨-, -, -, -, -, kept⟩ := create_eq_ok_iff.mp made
  rcases kept with ⟨takes, -⟩ | ⟨⟨behaviour, device⟩, -⟩
  · exact takes
  · exact absurd device (regular path among place behaviour ⟨after, made⟩)

theorem Regular.sublist {paths fewer : List Path} (regular : tree.Regular paths)
    (sub : fewer.Sublist paths) : tree.Regular fewer :=
  fun path among => regular path (sub.subset among)

theorem Regular.refiled {paths : List Path} (regular : tree.Regular paths)
    (refiled : tree.Refiled other) : other.Regular paths := by
  intro path among place behaviour leads device
  exact regular path among place behaviour (refiled.leads_iff.mp leads)
    ((refiled.node?_iff fun _ _ => Node.noConfusion).mp device)

end FileTree

/-- Paths that do not lead to the source. -/
def Machine.Spares (machine : Machine) (paths : List Path) : Prop :=
  ∀ path ∈ paths, ∀ place, machine.files.Leads path place → machine.origin ≠ .stored place

theorem Machine.Spares.sublist {machine : Machine} {paths fewer : List Path}
    (spares : machine.Spares paths) (sub : fewer.Sublist paths) : machine.Spares fewer :=
  fun path among => spares path (sub.subset among)

theorem Machine.Spares.refiled {machine after : Machine} {paths : List Path}
    (spares : machine.Spares paths) (refiled : machine.files.Refiled after.files)
    (origin : after.origin = machine.origin) : after.Spares paths := by
  intro path among place leads
  rw [origin]
  exact spares path among place (refiled.leads_iff.mp leads)

/-- The files that an image is unpacked into, in the order in which they are written. -/
def Image.targets (image : Image) (directory : Path) (plan : Plan) : List Path :=
  image.present.map fun extent => plan.target directory extent.slice

end BootImage
