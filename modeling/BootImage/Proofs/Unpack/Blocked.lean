import BootImage.Proofs.Header.Decision
import BootImage.Proofs.Unpack.Run

/-!
Where unpacking stops. The first slice that is blocked ends the run: what was written before it
stays, its own file gets nothing or the blocks that are complete, and nothing else of the tree
changes.
-/

namespace BootImage.Image

variable {start turn : Machine} {data : Array UInt8} {image : Image} {plan : Plan}
  {directory : Path} {extent : Extent} {done : List Extent} {tree : FileTree} {place : Location}

/-- A file that cannot be made ends the run, and the tree is the one of its turn. -/
theorem Reached.perform_cannotCreate {failure : Failure}
    (reached : image.Reached plan directory data start done turn)
    (among : ∀ other ∈ done ++ [extent], other ∈ image.present)
    (refused : turn.files.create (plan.target directory extent.slice) = .error failure)
    (later : List Extent) :
    ∃ after, start.perform (image.writeSlices directory plan (done ++ extent :: later)) =
        (.error (.error (.cannotCreate (plan.target directory extent.slice) failure)), after) ∧
      after.files = turn.files := by
  have present := fun other member => (image.present_subset (among other member)).2
  have failed : (announced plan directory turn extent).perform
      (image.writeSlice plan (plan.target directory extent.slice) extent) =
        (.error (.error (.cannotCreate (plan.target directory extent.slice) failure)),
          announced plan directory turn extent) := perform_writeSlice_error refused
  have last := present extent (List.mem_append_right _ (List.mem_singleton.mpr rfl))
  refine ⟨announced plan directory turn extent, ?_, rfl⟩
  rw [perform_writeSlices_append (fun other member => present other (List.mem_append_left _ member))
    reached.ran, perform_writeSlices_error last failed]
  rfl

/-- A source that ends in a slice ends the run, and the blocks in front of the end are written. -/
theorem Reached.perform_inputEnds (reached : image.Reached plan directory data start done turn)
    (placed : Layout.ofHeader image.header = .ok image.layout)
    (among : ∀ other ∈ done ++ [extent], other ∈ image.present)
    (separates : start.Separates
      ((done ++ [extent]).map fun extent => plan.target directory extent.slice))
    (made : turn.files.create (plan.target directory extent.slice) = .ok (tree, place))
    (cut : extent.CutIn data) (later : List Extent) :
    ∃ after, start.perform (image.writeSlices directory plan (done ++ extent :: later)) =
        (.error (.error (.inputEnds
          (extent.offset.toNat + image.wholeBlocks plan data extent) .endOfInput)), after) ∧
      plan.Unpacked directory start.files after.files
        (done.map (fun extent => (extent.slice, image.wholeFile plan data extent)) ++
          [(extent.slice, Content.slice data extent.offset.toNat
            (image.wholeBlocks plan data extent))]) := by
  have present := fun other member => (image.present_subset (among other member)).2
  obtain ⟨member, last⟩ :=
    image.present_subset (among extent (List.mem_append_right _ (List.mem_singleton.mpr rfl)))
  obtain ⟨before, mode, first, regular, apart, takes, elsewhere⟩ := reached.made separates made
  have reads : (announced plan directory turn extent).Reads data :=
    ⟨reached.reads.content, reached.reads.readFuse, reached.reads.seekFuse⟩
  obtain ⟨after, failed, filed⟩ :=
    perform_writeSlice_cut plan placed member reads cut last made regular apart
  refine ⟨after, ?_, reached.unpacked.snoc first filed ?_ elsewhere⟩
  · rw [perform_writeSlices_append
      (fun other member => present other (List.mem_append_left _ member)) reached.ran,
      perform_writeSlices_error last failed]
    rfl
  · intro header
    exact absurd header cut.1

/-- A run writes the slices that are there one after the other, up to the first one that is
blocked at its turn. The files before it are whole, a source that ends leaves the blocks in front
of its end in the file of that slice, and no other place of the tree changes. -/
theorem unpackInto_stops_at_first_blocked {opened : Machine} (directory : Path) (plan : Plan)
    (accepted : (opened.perform Image.accept).1 = .ok image) (reads : start.Reads data)
    (separates : start.Separates
      (image.present.map fun extent => plan.target directory extent.slice)) :
    let turn := fun before => (start.perform (image.writeSlices directory plan before)).2
    let free := fun slices => ∀ before extent later, slices = before ++ extent :: later →
      ¬ Blocked plan directory data (turn before) extent
    let whole := fun slices : List Extent =>
      slices.map fun extent => (extent.slice, image.wholeFile plan data extent)
    let run := start.perform (image.unpackInto directory plan)
    (free image.present →
      run.1 = .ok ⟨image.present.map fun extent =>
        (extent.slice, plan.target directory extent.slice)⟩ ∧
      plan.Unpacked directory start.files run.2.files (whole image.present)) ∧
    ∀ before extent later, image.present = before ++ extent :: later → free before →
      (∀ failure,
        (turn before).files.create (plan.target directory extent.slice) = .error failure →
        run.1 = .error (.error (.cannotCreate (plan.target directory extent.slice) failure)) ∧
          plan.Unpacked directory start.files run.2.files (whole before)) ∧
      (∀ made, (turn before).files.create (plan.target directory extent.slice) = .ok made →
        extent.CutIn data →
        run.1 = .error (.error (.inputEnds
          (extent.offset.toNat + image.wholeBlocks plan data extent) .endOfInput)) ∧
          plan.Unpacked directory start.files run.2.files
            (whole before ++ [(extent.slice, Content.slice data extent.offset.toNat
              (image.wholeBlocks plan data extent))])) := by
  intro turn free whole run
  have placed := ofHeader_of_accept accepted
  have ran : run = _ := perform_unpackInto start image directory plan
  have stood : ∀ before after, image.Reached plan directory data start before after →
      turn before = after := fun before after reached => congrArg (·.2) reached.ran
  constructor
  · intro none
    obtain ⟨after, reached⟩ := exists_reached reads placed (fun other member => member) separates
      (fun before extent later after split reached =>
        stood before after reached ▸ none before extent later split)
    rw [ran, reached.ran]
    exact ⟨rfl, reached.unpacked⟩
  · intro before extent later split none
    have parts : before ++ extent :: later = (before ++ [extent]) ++ later := by simp
    have among : ∀ other ∈ before ++ [extent], other ∈ image.present := by
      intro other member
      rw [split, parts]
      exact List.mem_append_left _ member
    rw [split, parts] at separates
    have apart := separates.sublist ((List.sublist_append_left _ _).map _)
    obtain ⟨after, reached⟩ := exists_reached reads placed
      (fun other member => among other (List.mem_append_left _ member))
      (apart.sublist ((List.sublist_append_left _ _).map _))
      (fun earlier extent later after split reached =>
        stood earlier after reached ▸ none earlier extent later split)
    constructor
    · intro failure refused
      rw [stood before after reached] at refused
      obtain ⟨final, failed, files⟩ := reached.perform_cannotCreate among refused later
      rw [ran, split, failed, files]
      exact ⟨rfl, reached.unpacked⟩
    · intro made create cut
      rw [stood before after reached] at create
      obtain ⟨final, failed, unpacked⟩ :=
        reached.perform_inputEnds placed among apart create cut later
      rw [ran, split, failed]
      exact ⟨rfl, unpacked⟩

/-- A kernel of five bytes of which the source has three, copied in blocks of two bytes: the third
byte lies in a block that is not complete, and is not written. -/
theorem unpackInto_stops_in_kernel :
    let field := fun width => (⟨List.replicate width 0, List.length_replicate⟩ : Field width)
    let header : Header :=
      ⟨5, 0, 1, 0, 0, 0, 0, 1, 0, ⟨0⟩, field 16, field 512, ⟨field 32⟩, field 1024⟩
    let image : Image := ⟨header, 1, ⟨.header, 1632, 0⟩, ⟨.kernel, 5, 1632⟩, ⟨.ramdisk, 1, 1637⟩,
      ⟨.second, 0, 1638⟩⟩
    let plan : Plan := ⟨⟨[97], [98], [99], [100], [101]⟩, "", some ⟨2, by decide⟩⟩
    let data : Array UInt8 := (header.encode ++ [7, 8, 9]).toArray
    let start : Machine := { Machine.ofFiles ⟨.empty, [], []⟩ with origin := .memory data }
    (start.perform Image.accept).1 = .ok image ∧
      (start.perform (image.unpackInto [] plan)).1 =
        .error (.error (.inputEnds 1634 .endOfInput)) ∧
      ∃ mode, (start.perform (image.unpackInto [] plan)).2.files.node? [[98]] =
        some (.file #[7, 8] mode) := by
  intro field header image plan data start
  have reads : start.Reads data := ⟨rfl, rfl, rfl⟩
  have record : header.encode.length = 1632 := header.length_encode
  have size : data.size = 1635 := by
    rw [List.size_toArray, List.length_append, record]
    rfl
  have front : Content.slice data 0 Header.size = header.encode := by
    rw [Content.slice_eq, List.drop_zero, ← header.length_encode, List.take_left]
  have behind : Content.slice data (image.layout.extent .kernel).offset.toNat 2 = [7, 8] := by
    show Content.slice data 1632 2 = [7, 8]
    rw [Content.slice_eq, ← record, List.drop_left]
    rfl
  have placed : Layout.ofHeader header = .ok image.layout := by
    rw [Layout.ofHeader_eq (show acceptPageSize header.pageSize = .ok 1 from rfl)]
    exact congrArg Except.ok (by decide)
  have accepted : (start.perform Image.accept).1 = .ok image := by
    have parsed := header.parse_encode_append []
    rw [List.append_nil, ← front] at parsed
    obtain ⟨after, accepted, -⟩ := perform_accept_ok reads parsed placed
    exact congrArg (·.1) accepted
  have creates : ∀ path ∈ ([[97], [98], [99]] : List Path), ∃ tree mode,
      start.files.create path = .ok (tree, [path]) ∧
        tree.node? [path] = some (.file #[] mode) := by
    intro path among
    simp only [List.mem_cons, List.not_mem_nil, or_false] at among
    rcases among with rfl | rfl | rfl <;> exact ⟨_, _, rfl, rfl⟩
  have separates : start.Separates [[97], [98], [99]] :=
    Machine.separates_of_create (fun _ => nofun) creates (by decide)
  obtain ⟨script, _, makesScript, -⟩ := creates [97] (by decide)
  obtain ⟨kernel, _, makesKernel, -⟩ := creates [98] (by decide)
  have free : ∀ before extent later, [image.layout.extent .header] = before ++ extent :: later →
      ¬ Blocked plan [] data (start.perform (image.writeSlices [] plan before)).2 extent := by
    intro before extent later split
    cases before with
    | cons first rest => cases rest <;> cases split
    | nil =>
        cases split
        exact (Reached.nil image plan [] reads).not_blocked ⟨_, makesScript⟩ fun cut => cut.1 rfl
  obtain ⟨turn, reached⟩ : ∃ turn, image.Reached plan [] data start
      [image.layout.extent .header] turn := by
    refine exists_reached_of_creatable reads placed ?_
      (separates.sublist (List.sublist_append_left [[97]] _)) ?_ ?_
    · intro extent among
      exact List.mem_append_left [image.layout.extent .kernel, image.layout.extent .ramdisk] among
    · intro extent among
      cases List.mem_singleton.mp among
      exact ⟨_, makesScript⟩
    · intro extent among cut
      cases List.mem_singleton.mp among
      exact cut.1 rfl
  obtain ⟨made, create⟩ := reached.refiled.exists_create_iff.mpr ⟨kernel, makesKernel⟩
  have stood : (start.perform (image.writeSlices [] plan
      [image.layout.extent .header])).2 = turn := congrArg (·.2) reached.ran
  have cut : (image.layout.extent .kernel).CutIn data := by
    refine ⟨nofun, ?_⟩
    rw [size]
    decide
  have blocks : image.wholeBlocks plan data (image.layout.extent .kernel) = 2 := by
    rw [wholeBlocks, size]
    decide
  obtain ⟨-, stops⟩ := unpackInto_stops_at_first_blocked [] plan accepted reads separates
  obtain ⟨-, ends⟩ := stops [image.layout.extent .header] (image.layout.extent .kernel)
    [image.layout.extent .ramdisk] rfl free
  simp only [stood, blocks, behind] at ends
  obtain ⟨answer, unpacked⟩ := ends (made, [[98]]) create cut
  obtain ⟨_, _, mode, again, held, -⟩ :=
    unpacked.holds .kernel [7, 8] (List.mem_append_right _ (List.mem_singleton.mpr rfl))
  cases makesKernel.symm.trans again
  exact ⟨accepted, answer, mode, held⟩

end BootImage.Image
