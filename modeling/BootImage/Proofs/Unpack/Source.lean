import BootImage.Proofs.Unpack.Confined

/-!
A source among the files that are written. An image is unpacked into one file after the other, and
nothing keeps one of them from being the file that the image is read from: it is emptied then, and
what it held is gone.

* `Image.MakesAt`: a run gets as far as making a file at a place.
* `Image.writeSlices_spares`: where it does not, what is at the place stays.
* `Image.writeSlices_spoils`: where it does, and the source is there, a script is left or nothing.
-/

namespace BootImage

/-- The source is a file of the tree, and it is read without faults. -/
structure Machine.ReadsFrom (machine : Machine) (place : Location) : Prop where
  origin : machine.origin = .stored place
  readFuse : machine.reader.readFuse = none
  seekFuse : machine.reader.seekFuse = none
  file : ∃ content mode, machine.files.node? place = some (.file content mode)

theorem Machine.ReadsFrom.confined {before after : Machine} {place there : Location}
    (reads : before.ReadsFrom place) (confined : before.Confined there after) :
    after.ReadsFrom place := by
  refine ⟨confined.origin.trans reads.origin, confined.readFuse.trans reads.readFuse,
    confined.seekFuse.trans reads.seekFuse, ?_⟩
  rcases confined.files.places place with same | ⟨-, file⟩
  · rw [same]
    exact reads.file
  · exact file

theorem FileTree.contentAt_of_file {tree : FileTree} {place : Location} {content : Array UInt8}
    {mode : Nat} (file : tree.node? place = some (.file content mode)) :
    tree.contentAt place = .bytes content := by
  rw [contentAt, file]
  rfl

/-- A file that holds a script or nothing. -/
def FileTree.Spoiled (tree : FileTree) (script : Bytes) (place : Location) : Prop :=
  ∃ content mode, tree.node? place = some (.file content mode) ∧
    (content = script.toArray ∨ content = #[])

namespace Image

variable {machine : Machine} {image : Image} {plan : Plan} {directory path : Path}
  {extent : Extent} {extents : List Extent} {place : Location}

/-- A run over slices gets as far as making a file at a place: its first slice goes there, or is
written, and the run over the others gets as far. -/
inductive MakesAt (image : Image) (directory : Path) (plan : Plan) (place : Location) :
    List Extent → Machine → Prop where
  | now {extent : Extent} {later : List Extent} {start : Machine} :
      start.files.Leads (plan.target directory extent.slice) place →
        MakesAt image directory plan place (extent :: later) start
  | later {extent : Extent} {rest : List Extent} {start between : Machine} :
      (announced plan directory start extent).perform
          (image.writeSlice plan (plan.target directory extent.slice) extent) = (.ok (), between) →
        MakesAt image directory plan place rest between →
          MakesAt image directory plan place (extent :: rest) start

/-! ### One slice -/

/-- A slice whose file cannot be made does nothing; all others touch the place of their file. -/
theorem writeSlice_cases (machine : Machine) (image : Image) (plan : Plan) (path : Path)
    (extent : Extent) :
    (machine.perform (image.writeSlice plan path extent)).2 = machine ∨
      ∃ there, machine.files.Leads path there ∧
        machine.Confined there (machine.perform (image.writeSlice plan path extent)).2 := by
  cases create : machine.files.create path with
  | error failure =>
      rw [perform_writeSlice_error create]
      exact .inl rfl
  | ok made =>
      obtain ⟨tree, there⟩ := made
      exact .inr ⟨there, ⟨tree, create⟩, image.confined_writeSlice plan extent create⟩

/-- What is at a place that a slice does not go to stays. -/
theorem writeSlice_spares (image : Image) (plan : Plan) (extent : Extent)
    (elsewhere : ¬ machine.files.Leads path place) :
    (machine.perform (image.writeSlice plan path extent)).2.files.node? place =
      machine.files.node? place := by
  rcases writeSlice_cases machine image plan path extent with same | ⟨there, leads, confined⟩
  · rw [same]
  · refine confined.files.elsewhere place ?_
    rintro rfl
    exact elsewhere leads

/-- Paths lead where they led before a slice was written. -/
theorem writeSlice_refiles (machine : Machine) (image : Image) (plan : Plan) (path : Path)
    (extent : Extent) :
    machine.files.Refiled (machine.perform (image.writeSlice plan path extent)).2.files := by
  rcases writeSlice_cases machine image plan path extent with same | ⟨there, -, confined⟩
  · rw [same]
    exact .refl _
  · exact confined.files.toRefiled

/-- The source is read from the same file before and after a slice is written. -/
theorem writeSlice_readsFrom (reads : machine.ReadsFrom place) (image : Image) (plan : Plan)
    (path : Path) (extent : Extent) :
    (machine.perform (image.writeSlice plan path extent)).2.ReadsFrom place := by
  rcases writeSlice_cases machine image plan path extent with same | ⟨there, -, confined⟩
  · rwa [same]
  · exact reads.confined confined

/-- A slice that is written into its own source leaves a script, or nothing: a payload is to be
read from the file that was emptied for it. -/
theorem writeSlice_spoils (plan : Plan) (placed : Layout.ofHeader image.header = .ok image.layout)
    (among : extent ∈ image.present) (reads : machine.ReadsFrom place)
    (leads : machine.files.Leads path place) :
    (machine.perform (image.writeSlice plan path extent)).2.files.Spoiled
      (image.script plan).text place := by
  obtain ⟨member, -⟩ := image.present_subset among
  obtain ⟨content, mode, file⟩ := reads.file
  obtain ⟨tree, made⟩ := leads
  have regular := FileTree.node?_of_create made (FileTree.takes_of_file file)
  by_cases header : extent.slice = .header
  · obtain ⟨after, wrote, -, -, filed⟩ : ∃ after,
        machine.perform (image.writeSlice plan path extent) = (.ok (), after) ∧ _ :=
      perform_writeSlice_header header made regular
    rw [wrote]
    exact ⟨_, _, filed.node?_self, .inl rfl⟩
  · obtain ⟨small, -⟩ := extent_bounds placed member
    obtain ⟨-, filed⟩ := FileTree.filed_of_create made regular
    let writing := machine.writing tree place
    have emptied : writing.content = .bytes #[] := by
      have origin : writing.origin = .stored place := reads.origin
      rw [Machine.content, origin]
      exact FileTree.contentAt_of_file regular
    have reading : writing.Reads #[] := ⟨emptied, reads.readFuse, reads.seekFuse⟩
    have allocatable : min (image.blockSize plan).toNat extent.size.toNat ≤ maxBlock := by
      unfold maxBlock
      omega
    obtain ⟨copy, copied, kept, held, -⟩ := Machine.perform_copyRange emptied
      (reading.seekable extent.offset.toNat) (blockSize_ne_zero placed plan) allocatable rfl
    have same : machine.files.Filed place #[] (machine.files.modeAt place) copy.files := by
      rw [kept.files]
      exact filed
    have nothing : copy.writer.held = #[] := by
      rw [held, Content.slice_eq, List.drop_nil, List.take_nil]
      rfl
    obtain ⟨after, wrote, -, -, holds⟩ :=
      Machine.perform_withFile made regular copied kept.destination same
    rw [writeSlice_of_payload image plan path header, wrote]
    exact ⟨_, _, holds.node?_self, .inr nothing⟩

/-- A source that is spoiled stays so: what is written over it is a script again, or nothing. -/
theorem writeSlice_spoiled (plan : Plan) (path : Path)
    (placed : Layout.ofHeader image.header = .ok image.layout)
    (among : extent ∈ image.present) (reads : machine.ReadsFrom place)
    (spoiled : machine.files.Spoiled (image.script plan).text place) :
    (machine.perform (image.writeSlice plan path extent)).2.files.Spoiled
      (image.script plan).text place := by
  by_cases leads : machine.files.Leads path place
  · exact writeSlice_spoils plan placed among reads leads
  · obtain ⟨content, mode, file, left⟩ := spoiled
    exact ⟨content, mode, (writeSlice_spares image plan extent leads).trans file, left⟩

/-! ### Runs -/

/-- A run over slices is behind its first slice when that one stops it, and else where the run over
the others ends. -/
theorem perform_writeSlices_after (present : extent.isPresent) (machine : Machine)
    (rest : List Extent) :
    let first := (announced plan directory machine extent).perform
      (image.writeSlice plan (plan.target directory extent.slice) extent)
    (machine.perform (image.writeSlices directory plan (extent :: rest))).2 =
      match first.1 with
      | .error _ => first.2
      | .ok () => (first.2.perform (image.writeSlices directory plan rest)).2 := by
  intro first
  rcases wrote : first with ⟨answer, between⟩
  cases answer with
  | error reason => rw [perform_writeSlices_error present wrote]
  | ok => rw [perform_writeSlices_cons present wrote]

/-- What is at a place where no file is made stays. -/
theorem writeSlices_spares (among : ∀ extent ∈ extents, extent ∈ image.present)
    (elsewhere : ¬ image.MakesAt directory plan place extents machine) :
    (machine.perform (image.writeSlices directory plan extents)).2.files.node? place =
      machine.files.node? place := by
  induction extents generalizing machine with
  | nil => rfl
  | cons extent rest ih =>
      obtain ⟨here, others⟩ := List.forall_mem_cons.mp among
      have free : ¬ (announced plan directory machine extent).files.Leads
          (plan.target directory extent.slice) place := fun leads => elsewhere (.now leads)
      have first := writeSlice_spares image plan extent free
      rw [perform_writeSlices_after (image.present_subset here).2]
      rcases wrote : (announced plan directory machine extent).perform
        (image.writeSlice plan (plan.target directory extent.slice) extent) with ⟨answer, between⟩
      rw [wrote] at first
      cases answer with
      | error reason => exact first
      | ok => exact (ih others fun makes => elsewhere (.later wrote makes)).trans first

/-- A file is made where one of the paths leads. -/
theorem MakesAt.exists_leads (makes : image.MakesAt directory plan place extents machine) :
    ∃ extent ∈ extents, machine.files.Leads (plan.target directory extent.slice) place := by
  induction makes with
  | now leads => exact ⟨_, List.mem_cons_self, leads⟩
  | @later extent rest start between wrote makes ih =>
      obtain ⟨other, member, leads⟩ := ih
      have refiled := writeSlice_refiles (announced plan directory start extent) image plan
        (plan.target directory extent.slice) extent
      rw [wrote] at refiled
      exact ⟨other, List.mem_cons_of_mem _ member, refiled.leads_iff.mp leads⟩

theorem announced_readsFrom (reads : machine.ReadsFrom place) (plan : Plan) (directory : Path)
    (extent : Extent) : (announced plan directory machine extent).ReadsFrom place :=
  ⟨reads.origin, reads.readFuse, reads.seekFuse, reads.file⟩

theorem writeSlices_spoiled (placed : Layout.ofHeader image.header = .ok image.layout)
    (among : ∀ extent ∈ extents, extent ∈ image.present) (reads : machine.ReadsFrom place)
    (spoiled : machine.files.Spoiled (image.script plan).text place) :
    (machine.perform (image.writeSlices directory plan extents)).2.files.Spoiled
      (image.script plan).text place := by
  induction extents generalizing machine with
  | nil => exact spoiled
  | cons extent rest ih =>
      obtain ⟨here, others⟩ := List.forall_mem_cons.mp among
      have told := announced_readsFrom reads plan directory extent
      rw [perform_writeSlices_after (image.present_subset here).2]
      have first :=
        writeSlice_spoiled plan (plan.target directory extent.slice) placed here told spoiled
      have reads' :=
        writeSlice_readsFrom told image plan (plan.target directory extent.slice) extent
      split
      · exact first
      · exact ih others reads' first

/-- A source where a file is made holds a script afterwards, or nothing. -/
theorem writeSlices_spoils (placed : Layout.ofHeader image.header = .ok image.layout)
    (among : ∀ extent ∈ extents, extent ∈ image.present) (reads : machine.ReadsFrom place)
    (makes : image.MakesAt directory plan place extents machine) :
    (machine.perform (image.writeSlices directory plan extents)).2.files.Spoiled
      (image.script plan).text place := by
  induction makes with
  | @now extent later start leads =>
      obtain ⟨here, others⟩ := List.forall_mem_cons.mp among
      have told := announced_readsFrom reads plan directory extent
      rw [perform_writeSlices_after (image.present_subset here).2]
      have first := writeSlice_spoils plan placed here told leads
      have reads' :=
        writeSlice_readsFrom told image plan (plan.target directory extent.slice) extent
      split
      · exact first
      · exact writeSlices_spoiled placed others reads' first
  | @later extent rest start between wrote makes ih =>
      obtain ⟨here, others⟩ := List.forall_mem_cons.mp among
      have told := announced_readsFrom reads plan directory extent
      have reads' :=
        writeSlice_readsFrom told image plan (plan.target directory extent.slice) extent
      rw [wrote] at reads'
      rw [perform_writeSlices_after (image.present_subset here).2, wrote]
      exact ih others reads'

end Image

end BootImage
