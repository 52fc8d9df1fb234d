import BootImage.Proofs.Machine.Harmless
import BootImage.Proofs.Unpack.Targets

/-!
What writing leaves alone. Work on a destination, a file or a device, changes the tree at one place
at most and there only what a file holds, so a source that lies elsewhere gives the same bytes
afterwards, and every path leads where it led.

* `Image.confined_writeSlice`: writing a slice, whatever fails.
-/

namespace BootImage

namespace FileTree

variable {tree other third after : FileTree} {path : Path} {place : Location}

theorem takes_of_file {content : Array UInt8} {mode : Nat}
    (file : tree.node? place = some (.file content mode)) : tree.Takes place := by
  refine ⟨?_, .inl ⟨content, mode, file⟩⟩
  rintro rfl
  cases file

/-- A tree in which a file may have been made or rewritten at one place, and nothing else. -/
structure RefiledAt (place : Location) (tree other : FileTree) : Prop extends
    tree.Refiled other where
  elsewhere : ∀ there, place ≠ there → other.node? there = tree.node? there

namespace RefiledAt

theorem refl (place : Location) (tree : FileTree) : RefiledAt place tree tree :=
  ⟨.refl tree, fun _ _ => rfl⟩

theorem trans (first : RefiledAt place tree other) (second : RefiledAt place other third) :
    RefiledAt place tree third :=
  ⟨first.toRefiled.trans second.toRefiled, fun there apart =>
    (second.elsewhere there apart).trans (first.elsewhere there apart)⟩

theorem put (takes : tree.Takes place) (content : Array UInt8) (mode : Nat) :
    RefiledAt place tree (tree.put place (.file content mode)) := by
  refine ⟨.put takes content mode, ?_⟩
  intro there apart
  rw [node?_put tree takes.1, if_neg apart]

end RefiledAt

/-- Making a file touches one place, and reaching a device none. -/
theorem refiledAt_of_create (made : tree.create path = .ok (after, place)) :
    RefiledAt place tree after := by
  obtain ⟨-, -, -, -, -, ⟨takes, rfl⟩ | ⟨-, rfl⟩⟩ := create_eq_ok_iff.mp made
  · exact .put takes _ _
  · exact .refl ..

end FileTree

namespace Machine

variable {machine before between after : Machine} {data : Array UInt8} {tree : FileTree}
  {path : Path} {place : Location}

/-- Work that touches the tree at one place and leaves the source and its faults alone. -/
structure Confined (place : Location) (before after : Machine) : Prop where
  files : FileTree.RefiledAt place before.files after.files
  origin : after.origin = before.origin
  readFuse : after.reader.readFuse = before.reader.readFuse
  seekFuse : after.reader.seekFuse = before.reader.seekFuse

namespace Confined

theorem of_files (files : after.files = before.files) (origin : after.origin = before.origin)
    (readFuse : after.reader.readFuse = before.reader.readFuse)
    (seekFuse : after.reader.seekFuse = before.reader.seekFuse) : Confined place before after :=
  ⟨files ▸ .refl .., origin, readFuse, seekFuse⟩

theorem trans (first : Confined place before between) (second : Confined place between after) :
    Confined place before after :=
  ⟨first.files.trans second.files, second.origin.trans first.origin,
    second.readFuse.trans first.readFuse, second.seekFuse.trans first.seekFuse⟩

theorem begun (made : machine.files.create path = .ok (tree, place)) :
    Confined place machine (machine.begun tree place) :=
  ⟨FileTree.refiledAt_of_create made, rfl, rfl, rfl⟩

theorem markExecutable (destination : machine.destination = some place) :
    Confined place machine machine.markExecutable.2 := by
  rw [Machine.markExecutable, destination]
  simp only
  split
  · rename_i file
    exact ⟨.put (FileTree.takes_of_file file) _ _, rfl, rfl, rfl⟩
  · split <;> exact .of_files rfl rfl rfl rfl
  · exact .of_files rfl rfl rfl rfl

theorem close (destination : machine.destination = some place) :
    Confined place machine machine.close := by
  rw [Machine.close, destination]
  simp only
  split
  · rename_i file
    exact ⟨.put (FileTree.takes_of_file file) _ _, rfl, rfl, rfl⟩
  · exact .of_files rfl rfl rfl rfl

end Confined

/-- How work on the destination at a place leaves a machine. -/
structure Worked (place : Location) (before after : Machine) : Prop extends
    Confined place before after where
  destination : after.destination = some place

theorem Worked.trans (first : Worked place before between) (second : Worked place between after) :
    Worked place before after :=
  ⟨first.toConfined.trans second.toConfined, second.destination⟩

theorem KeepsUnder.worked (kept : before.KeepsUnder after)
    (destination : before.destination = some place) : Worked place before after :=
  ⟨.of_files kept.files kept.origin kept.readFuse kept.seekFuse, kept.destination.trans destination⟩

theorem markExecutable_keeps (machine : Machine) :
    machine.markExecutable.2.destination = machine.destination ∧
      machine.markExecutable.2.writer = machine.writer := by
  unfold markExecutable
  split
  · exact ⟨rfl, rfl⟩
  · split
    · exact ⟨rfl, rfl⟩
    · split <;> exact ⟨rfl, rfl⟩
    · exact ⟨rfl, rfl⟩

/-- Making the destination executable, and telling of it when that cannot be done. -/
theorem perform_markExecutable (destination : machine.destination = some place)
    (warning : Failure → String) :
    ∃ after, machine.perform (do
        match ← (Host.markExecutable : StateM Machine (Except Failure Unit)) with
        | .ok () => pure ()
        | .error failure => Host.tell .warn (warning failure) :
          ExceptT Stop (StateM Machine) Unit) = (.ok (), after) ∧
      Worked place machine after ∧ after.files = machine.markExecutable.2.files ∧
      after.writer = machine.writer := by
  have tried : machine.perform (liftM (Host.markExecutable : StateM Machine _) :
      ExceptT Stop (StateM Machine) (Except Failure Unit)) =
        (.ok machine.markExecutable.1, machine.markExecutable.2) := rfl
  obtain ⟨there, writer⟩ := machine.markExecutable_keeps
  have marked := Confined.markExecutable destination
  have worked : ∀ journal, Worked place machine { machine.markExecutable.2 with journal } :=
    fun _ => ⟨⟨marked.files, marked.origin, marked.readFuse, marked.seekFuse⟩,
      there.trans destination⟩
  rw [perform_bind_ok tried]
  cases machine.markExecutable.1 with
  | ok => exact ⟨_, rfl, worked _, rfl, writer⟩
  | error failure => exact ⟨_, rfl, worked _, rfl, writer⟩

/-- A source that lies elsewhere gives the same bytes as before. -/
theorem Reads.confined (reads : before.Reads data) (apart : before.origin ≠ .stored place)
    (confined : Confined place before after) : after.Reads data :=
  ⟨(content_of_elsewhere confined.origin apart confined.files.elsewhere).trans reads.content,
    confined.readFuse.trans reads.readFuse, confined.seekFuse.trans reads.seekFuse⟩

/-- Work on a file that is made touches no other place. -/
theorem Confined.withFile {work : ExceptT Stop (StateM Machine) Unit}
    (made : machine.files.create path = .ok (tree, place))
    (works : Worked place (machine.begun tree place) ((machine.begun tree place).perform work).2) :
    Confined place machine (machine.perform (BootImage.withFile path work)).2 := by
  rw [perform_withFile_made made]
  exact ((Confined.begun made).trans works.toConfined).trans (.close works.destination)

/-- Writing a script to a destination and making it executable, as far as that goes. -/
theorem worked_script (destination : machine.destination = some place) (script : Bytes)
    (warning : Failure → String) :
    Worked place machine (machine.perform (do
        attempt .writeRebuildScript (Host.writeAll script)
        match ← (Host.markExecutable : StateM Machine (Except Failure Unit)) with
        | .ok () => pure ()
        | .error failure => Host.tell .warn (warning failure) :
          ExceptT Stop (StateM Machine) Unit)).2 := by
  have kept := (harmless_writeAll script).attempt .writeRebuildScript machine
  rcases wrote : machine.perform (attempt .writeRebuildScript (Host.writeAll script)) with
    ⟨answer, written⟩
  rw [wrote] at kept
  have first := kept.worked destination
  cases answer with
  | error reason =>
      rw [perform_bind_error wrote]
      exact first
  | ok =>
      obtain ⟨after, marked, second, -⟩ := perform_markExecutable first.destination warning
      rw [perform_bind_ok wrote, marked]
      exact first.trans second

end Machine

/-- Writing a slice touches the place that its path leads to and no other, whatever fails. -/
theorem Image.confined_writeSlice {machine : Machine} {tree : FileTree} {path : Path}
    {place : Location} (image : Image) (plan : Plan) (extent : Extent)
    (made : machine.files.create path = .ok (tree, place)) :
    Machine.Confined place machine (machine.perform (image.writeSlice plan path extent)).2 := by
  by_cases header : extent.slice = .header
  · rw [writeSlice, header]
    exact .withFile made (Machine.worked_script rfl _ _)
  · rw [writeSlice_of_payload image plan path header]
    exact .withFile made ((Machine.harmless_copyRange _ _ _ _).worked rfl)

end BootImage
