import BootImage.Proofs.Copy
import BootImage.Proofs.FileTree
import BootImage.Proofs.Layout
import BootImage.Unpack

/-!
Writing one file of an unpacked image. On a source without faults only the length of the source
decides: a file that can be made gets its bytes, or those in front of the block where the source
ends, and no other place of the tree changes.
-/

namespace BootImage

namespace FileTree

variable {tree other after : FileTree} {place : Location} {path : Path}

/-- A tree with a file at a place, and with everything else as it was. -/
structure Filed (tree : FileTree) (place : Location) (content : Array UInt8) (mode : Nat)
    (other : FileTree) : Prop where
  workingDirectory : other.workingDirectory = tree.workingDirectory
  closed : other.closed = tree.closed
  node?_eq : ∀ at', other.node? at' =
    if place = at' then some (.file content mode) else tree.node? at'

theorem Filed.node?_self {content : Array UInt8} {mode : Nat}
    (filed : tree.Filed place content mode other) :
    other.node? place = some (.file content mode) := by
  rw [filed.node?_eq, if_pos rfl]

theorem filed_put (tree : FileTree) (below : place ≠ []) (content : Array UInt8) (mode : Nat) :
    tree.Filed place content mode (tree.put place (.file content mode)) :=
  ⟨rfl, rfl, node?_put tree below _⟩

/-- A file that is put over a file. -/
theorem Filed.put {content : Array UInt8} {mode : Nat} (filed : tree.Filed place content mode other)
    (below : place ≠ []) (content' : Array UInt8) (mode' : Nat) :
    tree.Filed place content' mode' (other.put place (.file content' mode')) := by
  refine ⟨filed.workingDirectory, filed.closed, ?_⟩
  intro at'
  rw [node?_put other below, filed.node?_eq]
  by_cases here : place = at'
  · rw [if_pos here, if_pos here]
  · rw [if_neg here, if_neg here, if_neg here]

theorem Filed.refiled {content : Array UInt8} {mode : Nat}
    (filed : tree.Filed place content mode other) (takes : tree.Takes place) :
    tree.Refiled other := by
  refine ⟨filed.workingDirectory, filed.closed, ?_⟩
  intro at'
  rw [filed.node?_eq]
  by_cases here : place = at'
  · subst here
    exact .inr ⟨takes, content, mode, if_pos rfl⟩
  · exact .inl (if_neg here)

/-- What it means that a regular file was made. -/
theorem filed_of_create {mode : Nat} (made : tree.create path = .ok (after, place))
    (regular : after.node? place = some (.file #[] mode)) :
    tree.Takes place ∧ tree.Filed place #[] mode after := by
  obtain ⟨parent, name, -, -, -, kept⟩ := create_eq_ok_iff.mp made
  rcases kept with ⟨takes, rfl⟩ | ⟨⟨behaviour, device⟩, rfl⟩
  · have filed := filed_put tree takes.1 #[] (tree.modeAt place)
    have same := filed.node?_self.symm.trans regular
    simp only [Option.some.injEq, Node.file.injEq, true_and] at same
    rw [same] at filed ⊢
    exact ⟨takes, filed⟩
  · rw [device] at regular
    cases regular

end FileTree

namespace Machine

variable {machine : Machine} {data : Array UInt8} {tree : FileTree} {place : Location}

/-- A source of bytes that can be read and moved in without faults. -/
structure Reads (machine : Machine) (data : Array UInt8) : Prop where
  content : machine.content = .bytes data
  readFuse : machine.reader.readFuse = none
  seekFuse : machine.reader.seekFuse = none

theorem Reads.edge (reads : machine.Reads data) : machine.reader.edge data = data.size := by
  rw [Reader.edge, reads.readFuse]

theorem Reads.struckAt (reads : machine.Reads data) (position : Nat) :
    machine.reader.struckAt position = none := by
  rw [Reader.struckAt, reads.readFuse, Option.filter_none]

theorem Reads.seekable (reads : machine.Reads data) (position : Nat) :
    (machine.reader.seek position).1 = .ok () := by
  rw [Reader.seek, reads.seekFuse]

def writing (machine : Machine) (tree : FileTree) (place : Location) : Machine :=
  { machine with files := tree, destination := some place, writer := .fresh }

/-- A machine that has begun to write what a path leads to, a file or a device. -/
def begun (machine : Machine) (tree : FileTree) (place : Location) : Machine :=
  { machine with
    files := tree, destination := some place, writer := writerFor (tree.node? place) }

theorem begun_of_file {content : Array UInt8} {mode : Nat}
    (regular : tree.node? place = some (.file content mode)) :
    machine.begun tree place = machine.writing tree place := by
  rw [begun, regular]
  rfl

theorem perform_withFile_error {path : Path} {failure : Failure}
    (refused : machine.files.create path = .error failure)
    (work : ExceptT Stop (StateM Machine) Unit) :
    machine.perform (withFile path work) =
      (.error (.error (.cannotCreate path failure)), machine) := by
  have step : machine.perform (.mk (Host.create path)) = machine.create path := rfl
  rw [create, refused] at step
  exact perform_bind_error (perform_adapt_eq step _) _

/-- Work on what was made, and then it is closed. -/
theorem perform_withFile_made {path : Path} (made : machine.files.create path = .ok (tree, place))
    (work : ExceptT Stop (StateM Machine) Unit) :
    machine.perform (withFile path work) =
      (((machine.begun tree place).perform work).1,
        ((machine.begun tree place).perform work).2.close) := by
  have step : machine.perform (.mk (Host.create path)) = machine.create path := rfl
  simp only [create, made] at step
  exact (perform_bind_ok (perform_adapt_eq step _) _).trans rfl

/-- A file that is closed holds what was written. -/
theorem close_of_file {content : Array UInt8} {mode : Nat}
    (destination : machine.destination = some place)
    (file : machine.files.node? place = some (.file content mode)) :
    machine.close = { machine with
      files := machine.files.put place (.file machine.writer.held mode), destination := none } := by
  rw [close, destination]
  simp only [file]

/-- Marking a file leaves what it holds. -/
theorem markExecutable_of_file {content : Array UInt8} {mode : Nat}
    (destination : machine.destination = some place)
    (file : machine.files.node? place = some (.file content mode)) :
    machine.markExecutable = (.ok (), { machine with
      files := machine.files.put place (.file content Node.scriptMode) }) := by
  rw [markExecutable, destination]
  simp only [file]

/-- A source is as it was where only another place of the tree has changed. -/
theorem content_of_elsewhere {after : Machine} (origin : after.origin = machine.origin)
    (apart : machine.origin ≠ .stored place)
    (elsewhere : ∀ there, place ≠ there → after.files.node? there = machine.files.node? there) :
    after.content = machine.content := by
  unfold Machine.content
  rw [origin]
  cases from' : machine.origin with
  | memory _ => rfl
  | stored there =>
      rw [from'] at apart
      have away : place ≠ there := by
        rintro rfl
        exact apart rfl
      simp only [FileTree.contentAt, elsewhere there away]

/-- A source keeps its bytes where the file that is written is not the source itself. -/
theorem content_of_filed {after : Machine} {content : Array UInt8} {mode : Nat}
    (source : machine.content = .bytes data) (origin : after.origin = machine.origin)
    (apart : machine.origin ≠ .stored place)
    (filed : machine.files.Filed place content mode after.files) :
    after.content = .bytes data := by
  refine (content_of_elsewhere origin apart ?_).trans source
  intro there away
  rw [filed.node?_eq, if_neg away]

/-- A source stays readable where the file that is written is not the source itself. -/
theorem Reads.of_filed {after : Machine} {content : Array UInt8} {mode : Nat}
    (reads : machine.Reads data) (origin : after.origin = machine.origin)
    (apart : machine.origin ≠ .stored place)
    (filed : machine.files.Filed place content mode after.files)
    (readFuse : after.reader.readFuse = machine.reader.readFuse)
    (seekFuse : after.reader.seekFuse = machine.reader.seekFuse) : after.Reads data :=
  ⟨content_of_filed reads.content origin apart filed, readFuse.trans reads.readFuse,
    seekFuse.trans reads.seekFuse⟩

/-- Whatever is done to a regular file that was made, when it is closed it holds what was written
to it. -/
theorem perform_withFile {path : Path} {mode mode' : Nat} {content : Array UInt8}
    {work : ExceptT Stop (StateM Machine) Unit} {answer : Except Stop Unit} {worked : Machine}
    (made : machine.files.create path = .ok (tree, place))
    (regular : tree.node? place = some (.file #[] mode))
    (ran : (machine.writing tree place).perform work = (answer, worked))
    (destination : worked.destination = some place)
    (filed : machine.files.Filed place content mode' worked.files) :
    ∃ after, machine.perform (withFile path work) = (answer, after) ∧
      after.origin = worked.origin ∧ after.reader = worked.reader ∧
      machine.files.Filed place worked.writer.held mode' after.files := by
  have below := (FileTree.filed_of_create made regular).1.1
  have closed := close_of_file destination filed.node?_self
  rw [perform_withFile_made made, begun_of_file regular, ran, closed]
  exact ⟨_, rfl, rfl, rfl, filed.put below _ _⟩

end Machine

namespace Image

variable {machine : Machine} {data : Array UInt8} {tree : FileTree} {place : Location}
  {image : Image} {plan : Plan} {path : Path} {extent : Extent} {mode : Nat}

theorem perform_writeSlice_error {failure : Failure}
    (refused : machine.files.create path = .error failure) :
    machine.perform (image.writeSlice plan path extent) =
      (.error (.error (.cannotCreate path failure)), machine) := by
  unfold writeSlice
  cases extent.slice <;> exact Machine.perform_withFile_error refused _

theorem writeSlice_of_payload (image : Image) (plan : Plan) (path : Path)
    (payload : extent.slice ≠ .header) :
    (image.writeSlice plan path extent : ExceptT Stop (StateM Machine) Unit) =
      withFile path (copyRange (image.blockSize plan) extent.offset extent.size) := by
  unfold writeSlice
  cases named : extent.slice with
  | header => exact absurd named payload
  | kernel => rfl
  | ramdisk => rfl
  | second => rfl

/-- The file of a payload gets the blocks that are complete. -/
theorem perform_writeSlice_payload (reads : machine.Reads data)
    (payload : extent.slice ≠ .header) (nonzero : image.blockSize plan ≠ 0)
    (small : extent.size.toNat ≤ maxBlock)
    (made : machine.files.create path = .ok (tree, place))
    (regular : tree.node? place = some (.file #[] mode)) (apart : machine.origin ≠ .stored place)
    {ready : Nat} (given : copyable (min (image.blockSize plan).toNat extent.size.toNat)
      extent.size.toNat (data.size - extent.offset.toNat) = ready) :
    ∃ after, machine.perform (image.writeSlice plan path extent) =
        (if ready < extent.size.toNat then
          .error (readStop extent.offset.toNat ready .endOfInput) else .ok (), after) ∧
      after.Reads data ∧ after.origin = machine.origin ∧
      machine.files.Filed place (Content.slice data extent.offset.toNat ready).toArray mode
        after.files := by
  obtain ⟨takes, filed⟩ := FileTree.filed_of_create made regular
  have reading : (machine.writing tree place).Reads data :=
    reads.of_filed rfl apart filed rfl rfl
  have allocatable : min (image.blockSize plan).toNat extent.size.toNat ≤ maxBlock := by omega
  rw [← reading.edge] at given
  obtain ⟨copy, copied, kept, held, -⟩ := Machine.perform_copyRange reading.content
    (reading.seekable extent.offset.toNat) nonzero allocatable given
  have all : (machine.writing tree place).writer.takes ready = ready := rfl
  have answer : (machine.writing tree place).copyAnswer data extent.offset.toNat
      extent.size.toNat ready ready =
      if ready < extent.size.toNat then
        .error (readStop extent.offset.toNat ready .endOfInput) else .ok () := by
    rw [Machine.copyAnswer, if_neg (Nat.lt_irrefl _), reading.struckAt]
    rfl
  have bytes : copy.writer.held = (Content.slice data extent.offset.toNat ready).toArray := by
    rw [held, all]
    exact Array.ext' (by simp [Machine.writing, Writer.fresh])
  rw [all, answer] at copied
  have same : machine.files.Filed place #[] mode copy.files := kept.files.symm ▸ filed
  rw [writeSlice_of_payload image plan path payload, ← bytes]
  obtain ⟨after, written, origin, reader, holds⟩ :=
    Machine.perform_withFile made regular copied kept.destination same
  rw [kept.origin] at origin
  have readFuse := (congrArg Reader.readFuse reader).trans kept.readFuse
  have seekFuse := (congrArg Reader.seekFuse reader).trans kept.seekFuse
  exact ⟨after, written, reads.of_filed origin apart holds readFuse seekFuse, origin, holds⟩

/-- The file of the header gets the whole script, and can be run. -/
theorem perform_writeSlice_header (header : extent.slice = .header)
    (made : machine.files.create path = .ok (tree, place))
    (regular : tree.node? place = some (.file #[] mode)) :
    ∃ after, machine.perform (image.writeSlice plan path extent) = (.ok (), after) ∧
      after.origin = machine.origin ∧ after.reader = machine.reader ∧
      machine.files.Filed place (image.script plan).text.toArray Node.scriptMode after.files := by
  obtain ⟨takes, filed⟩ := FileTree.filed_of_create made regular
  obtain ⟨offers, wrote⟩ := (machine.writing tree place).perform_writeAll (image.script plan).text
  have all : (machine.writing tree place).writer.takes (image.script plan).text.length =
      (image.script plan).text.length := rfl
  rw [all, if_neg (Nat.lt_irrefl _), List.take_length] at wrote
  let written := (machine.writing tree place).withWriter
    ((machine.writing tree place).writer.grown (image.script plan).text offers)
  let marked : Machine := { written with files := tree.put place (.file #[] Node.scriptMode) }
  have marks : written.markExecutable = (.ok (), marked) :=
    Machine.markExecutable_of_file rfl filed.node?_self
  have tried : written.perform (liftM (Host.markExecutable : StateM Machine _) :
      ExceptT Stop (StateM Machine) (Except Failure Unit)) =
        (.ok written.markExecutable.1, written.markExecutable.2) := rfl
  rw [marks] at tried
  have bytes : marked.writer.held = (image.script plan).text.toArray :=
    Array.ext' (by simp [marked, written, Machine.writing, Writer.fresh, Writer.grown,
      Machine.withWriter])
  rw [writeSlice, header, ← bytes]
  have executable : machine.files.Filed place #[] Node.scriptMode marked.files :=
    filed.put takes.1 _ _
  refine Machine.perform_withFile made regular ?_ rfl executable
  rw [Machine.perform_bind_ok (Machine.perform_attempt_eq wrote _), Machine.perform_bind_ok tried]
  rfl

/-- The whole file of a slice: for the header the script of its record, with the names and the
command of the plan, and else the bytes of the slice. -/
def wholeFile (image : Image) (plan : Plan) (data : Array UInt8) (extent : Extent) : Bytes :=
  match extent.slice with
  | .header => (Script.mk image.header plan.names plan.command).text
  | _ => Content.slice data extent.offset.toNat extent.size.toNat

theorem wholeFile_of_payload (image : Image) (plan : Plan) (data : Array UInt8)
    (payload : extent.slice ≠ .header) :
    image.wholeFile plan data extent =
      Content.slice data extent.offset.toNat extent.size.toNat := by
  unfold wholeFile
  cases named : extent.slice with
  | header => exact absurd named payload
  | kernel => rfl
  | ramdisk => rfl
  | second => rfl

/-- How many bytes of a slice lie in blocks that end before the source does. Blocks are as large as
the plan asks for, and as a page where it does not ask, but no larger than the slice. -/
def wholeBlocks (image : Image) (plan : Plan) (data : Array UInt8) (extent : Extent) : Nat :=
  let asked := (plan.blockSize.map (·.bytes.toNat)).getD image.header.pageSize.toNat
  let block := min asked extent.size.toNat
  block * ((data.size - extent.offset.toNat) / block)

end Image

theorem Extent.isPresent_iff {extent : Extent} : extent.isPresent ↔ extent.size ≠ 0 :=
  decide_eq_true_iff

theorem Extent.size_ne_zero {extent : Extent} (present : extent.isPresent) :
    extent.size.toNat ≠ 0 :=
  fun zero => isPresent_iff.mp present (UInt64.toNat_inj.mp zero)

/-- The source ends within a slice that is copied from it. -/
def Extent.CutIn (extent : Extent) (data : Array UInt8) : Prop :=
  extent.slice ≠ .header ∧ data.size < extent.offset.toNat + extent.size.toNat

namespace Image

variable {machine : Machine} {data : Array UInt8} {tree : FileTree} {place : Location}
  {image : Image} {plan : Plan} {path : Path} {extent : Extent} {mode : Nat}

/-- Copying goes by the block size that is asked for, or else by pages. -/
theorem toNat_blockSize (placed : Layout.ofHeader image.header = .ok image.layout) (plan : Plan) :
    (image.blockSize plan).toNat =
      (plan.blockSize.map (·.bytes.toNat)).getD image.header.pageSize.toNat := by
  unfold blockSize
  cases plan.blockSize with
  | some size => rfl
  | none => exact (Header.layout_places placed).2.2.1

/-- A layout gives a block size that can be copied with. -/
theorem blockSize_ne_zero (placed : Layout.ofHeader image.header = .ok image.layout) (plan : Plan) :
    image.blockSize plan ≠ 0 := by
  unfold blockSize
  cases plan.blockSize with
  | some size => exact size.bytes_ne_zero
  | none =>
      obtain ⟨positive, -, page, -⟩ := Header.layout_places placed
      intro zero
      have none : image.layout.pageSize.toNat = 0 := congrArg UInt64.toNat zero
      omega

theorem extent_bounds (placed : Layout.ofHeader image.header = .ok image.layout)
    (among : extent ∈ image.layout.extents.toList) :
    extent.size.toNat < 2 ^ 32 ∧ extent.offset.toNat < 2 ^ 34 := by
  obtain ⟨slice, -, rfl⟩ := List.mem_map.mp among
  obtain ⟨positive, small, -, places⟩ := Header.layout_places placed
  obtain ⟨-, size, offset⟩ := places slice
  have before := image.header.sliceStart_add_le slice
  have inside := Header.imageSize_lt positive small
  have bounded := image.header.sliceSize_lt slice
  unfold Layout.extent at size offset
  omega

/-- A slice that the source does not end in is written whole. -/
theorem perform_writeSlice_whole (plan : Plan)
    (placed : Layout.ofHeader image.header = .ok image.layout)
    (among : extent ∈ image.layout.extents.toList) (reads : machine.Reads data)
    (whole : ¬ extent.CutIn data) (made : machine.files.create path = .ok (tree, place))
    (regular : tree.node? place = some (.file #[] mode)) (apart : machine.origin ≠ .stored place) :
    ∃ after mode', machine.perform (image.writeSlice plan path extent) = (.ok (), after) ∧
      after.Reads data ∧ after.origin = machine.origin ∧
      machine.files.Filed place (image.wholeFile plan data extent).toArray mode' after.files ∧
      (extent.slice = .header → mode' = Node.scriptMode) := by
  obtain ⟨small, -⟩ := extent_bounds placed among
  by_cases header : extent.slice = .header
  · obtain ⟨after, written, origin, reader, filed⟩ :=
      perform_writeSlice_header header made regular
    refine ⟨after, _, written, reads.of_filed origin apart filed (congrArg Reader.readFuse reader)
      (congrArg Reader.seekFuse reader), origin, ?_, fun _ => rfl⟩
    rw [wholeFile, header]
    exact filed
  · have reach : extent.size.toNat ≤ data.size - extent.offset.toNat := by
      have enough : ¬ data.size < extent.offset.toNat + extent.size.toNat :=
        fun cut => whole ⟨header, cut⟩
      omega
    obtain ⟨after, written, reads', origin, filed⟩ := perform_writeSlice_payload reads header
      (blockSize_ne_zero placed plan) (by unfold maxBlock; omega) made regular apart (if_pos reach)
    rw [if_neg (Nat.lt_irrefl _)] at written
    refine ⟨after, mode, written, reads', origin, ?_, fun named => absurd named header⟩
    rw [wholeFile_of_payload image plan data header]
    exact filed

/-- Of a slice that the source ends in, the blocks in front of the end are written. -/
theorem perform_writeSlice_cut (plan : Plan)
    (placed : Layout.ofHeader image.header = .ok image.layout)
    (among : extent ∈ image.layout.extents.toList) (reads : machine.Reads data)
    (cut : extent.CutIn data) (present : extent.isPresent)
    (made : machine.files.create path = .ok (tree, place))
    (regular : tree.node? place = some (.file #[] mode)) (apart : machine.origin ≠ .stored place) :
    ∃ after, machine.perform (image.writeSlice plan path extent) =
        (.error (.error (.inputEnds
          (extent.offset.toNat + image.wholeBlocks plan data extent) .endOfInput)), after) ∧
      machine.files.Filed place (Content.slice data extent.offset.toNat
        (image.wholeBlocks plan data extent)).toArray mode after.files := by
  obtain ⟨small, near⟩ := extent_bounds placed among
  obtain ⟨payload, ends⟩ := cut
  have filled := Extent.size_ne_zero present
  have short : ¬ extent.size.toNat ≤ data.size - extent.offset.toNat := by omega
  have ready : copyable (min (image.blockSize plan).toNat extent.size.toNat) extent.size.toNat
      (data.size - extent.offset.toNat) = image.wholeBlocks plan data extent := by
    rw [toNat_blockSize placed]
    exact if_neg short
  have reach : image.wholeBlocks plan data extent ≤ data.size - extent.offset.toNat :=
    Nat.mul_div_le _ _
  obtain ⟨after, written, -, -, filed⟩ := perform_writeSlice_payload reads payload
    (blockSize_ne_zero placed plan) (by unfold maxBlock; omega) made regular apart ready
  rw [if_pos (by omega), readStop_of_end rfl (by omega)] at written
  exact ⟨after, written, filed⟩

end Image

end BootImage
