import BootImage.Proofs.Unpack.Targets

/-!
Unpacking over what is there. Files may exist, longer than what is written to them, and several
slices may go into one file: the last of them is what the file holds.

* `Image.perform_writeSlice_ok`: a slice that was written is written whole, whatever faults there
  are.
* `Image.Overwritten.cons`: one more slice in front of a run.
* `Image.unpackInto_overwrites`: what a run that succeeds has done to the tree, and what it reports.
-/

namespace BootImage.Image

variable {machine after start : Machine} {data : Array UInt8} {image : Image} {plan : Plan}
  {directory path : Path} {extent : Extent} {extents later : List Extent}
  {turn final tree : FileTree} {place : Location} {mode : Nat}

/-- A slice that was written is written whole, whatever faults there are. -/
theorem perform_writeSlice_ok (placed : Layout.ofHeader image.header = .ok image.layout)
    (among : extent ∈ image.present) (source : machine.content = .bytes data)
    (made : machine.files.create path = .ok (tree, place))
    (regular : tree.node? place = some (.file #[] mode)) (apart : machine.origin ≠ .stored place)
    (done : machine.perform (image.writeSlice plan path extent) = (.ok (), after)) :
    ∃ mode', after.origin = machine.origin ∧ ¬ extent.CutIn data ∧
      machine.files.Filed place (image.wholeFile plan data extent).toArray mode' after.files ∧
      (extent.slice = .header → mode' = Node.scriptMode) := by
  obtain ⟨member, present⟩ := image.present_subset among
  by_cases header : extent.slice = .header
  · obtain ⟨written, wrote, origin, -, filed⟩ := perform_writeSlice_header header made regular
    cases wrote.symm.trans done
    refine ⟨_, origin, fun cut => cut.1 header, ?_, fun _ => rfl⟩
    rw [wholeFile, header]
    exact filed
  · obtain ⟨small, near⟩ := extent_bounds placed member
    obtain ⟨takes, filed⟩ := FileTree.filed_of_create made regular
    have reading : (machine.writing tree place).content = .bytes data :=
      Machine.content_of_filed source rfl apart filed
    rcases copied : (machine.writing tree place).perform
      (copyRange (image.blockSize plan) extent.offset extent.size) with ⟨answer, copy⟩
    rw [writeSlice_of_payload image plan path header, Machine.perform_withFile_made made,
      Machine.begun_of_file regular, copied] at done
    cases done
    obtain ⟨complete, kept, held⟩ := Machine.copyRange_ok reading (blockSize_ne_zero placed plan)
      (by unfold maxBlock; omega) copied
    have same : machine.files.Filed place #[] mode copy.files := kept.files.symm ▸ filed
    have bytes : copy.writer.held = (image.wholeFile plan data extent).toArray := by
      rw [held, wholeFile_of_payload image plan data header]
      exact Array.ext' (by simp [Machine.writing, Writer.fresh])
    rw [Machine.close_of_file (kept.destination) same.node?_self, bytes]
    refine ⟨mode, kept.origin, ?_, same.put takes.1 _ _, fun named => absurd named header⟩
    rintro ⟨-, cut⟩
    have filled := Extent.size_ne_zero present
    omega

/-- What was written into which files of a tree. Of what goes to one place the last stays, and the
rest of the tree is as it was. -/
structure Overwritten (image : Image) (plan : Plan) (directory : Path) (data : Array UInt8)
    (start final : FileTree) (extents : List Extent) : Prop where
  refiled : start.Refiled final
  leads : ∀ extent ∈ extents, ∃ place, start.Leads (plan.target directory extent.slice) place
  last : ∀ before extent later, extents = before ++ extent :: later →
    ∀ place, start.Leads (plan.target directory extent.slice) place →
      (∀ other ∈ later, ¬ start.Leads (plan.target directory other.slice) place) →
        ∃ mode, final.node? place =
            some (.file (image.wholeFile plan data extent).toArray mode) ∧
          (extent.slice = .header → mode = Node.scriptMode)
  untouched : ∀ place,
    (∀ extent ∈ extents, ¬ start.Leads (plan.target directory extent.slice) place) →
      final.node? place = start.node? place

namespace Overwritten

theorem nil (image : Image) (plan : Plan) (directory : Path) (data : Array UInt8)
    (start : FileTree) : image.Overwritten plan directory data start start [] where
  refiled := .refl start
  leads := fun _ => nofun
  last := by
    intro before extent later split
    cases before <;> cases split
  untouched := fun _ _ => rfl

/-- One more slice, in front of a run. It stays where nothing behind it goes to its place. -/
theorem cons {start : FileTree} (leads : start.Leads (plan.target directory extent.slice) place)
    (takes : start.Takes place)
    (filed : start.Filed place (image.wholeFile plan data extent).toArray mode turn)
    (script : extent.slice = .header → mode = Node.scriptMode)
    (rest : image.Overwritten plan directory data turn final later) :
    image.Overwritten plan directory data start final (extent :: later) := by
  have refiled := filed.refiled takes
  refine ⟨refiled.trans rest.refiled, ?_, ?_, ?_⟩
  · intro other among
    rcases List.mem_cons.mp among with rfl | behind
    · exact ⟨place, leads⟩
    · obtain ⟨there, found⟩ := rest.leads other behind
      exact ⟨there, refiled.leads_iff.mp found⟩
  · intro before other behind split there found free
    cases before with
    | nil =>
        cases split
        cases leads.unique found
        refine ⟨mode, ?_, script⟩
        rw [rest.untouched place fun extent among found =>
          free extent among (refiled.leads_iff.mp found)]
        exact filed.node?_self
    | cons first before =>
        cases split
        exact rest.last before other behind rfl there (refiled.leads_iff.mpr found)
          fun extent among found => free extent among (refiled.leads_iff.mp found)
  · intro there free
    have apart : place ≠ there := by
      rintro rfl
      exact free extent List.mem_cons_self leads
    rw [rest.untouched there fun other among found =>
      free other (List.mem_cons_of_mem _ among) (refiled.leads_iff.mp found), filed.node?_eq,
      if_neg apart]

end Overwritten

/-- What succeeds over several slices succeeds with the first one and then with the others. -/
theorem writeSlices_cons_ok {written : List (Slice × Path)} (present : extent.isPresent)
    (done : machine.perform (image.writeSlices directory plan (extent :: later)) =
      (.ok written, after)) :
    ∃ between others,
      (announced plan directory machine extent).perform
        (image.writeSlice plan (plan.target directory extent.slice) extent) = (.ok (), between) ∧
      between.perform (image.writeSlices directory plan later) = (.ok others, after) ∧
      written = (extent.slice, plan.target directory extent.slice) :: others := by
  rw [writeSlices_cons _ _ _ present] at done
  obtain ⟨⟨⟩, told, tells, done⟩ := Machine.perform_bind_eq_ok done
  cases tells
  obtain ⟨⟨⟩, between, wrote, done⟩ := Machine.perform_bind_eq_ok done
  obtain ⟨others, ended, ran, done⟩ := Machine.perform_bind_eq_ok done
  cases done
  exact ⟨between, others, wrote, ran, rfl⟩

/-- A run that succeeds has written every slice whole, whatever faults there are. -/
theorem perform_writeSlices_ok {written : List (Slice × Path)}
    (placed : Layout.ofHeader image.header = .ok image.layout)
    (among : ∀ extent ∈ extents, extent ∈ image.present) (source : machine.content = .bytes data)
    (regular : machine.files.Regular
      (extents.map fun extent => plan.target directory extent.slice))
    (spares : machine.Spares (extents.map fun extent => plan.target directory extent.slice))
    (done : machine.perform (image.writeSlices directory plan extents) = (.ok written, after)) :
    written = extents.map (fun extent => (extent.slice, plan.target directory extent.slice)) ∧
      (∀ extent ∈ extents, ¬ extent.CutIn data) ∧
      image.Overwritten plan directory data machine.files after.files extents := by
  induction extents generalizing machine written with
  | nil =>
      cases done
      exact ⟨rfl, fun _ => nofun, .nil ..⟩
  | cons extent rest ih =>
      have here := among extent List.mem_cons_self
      obtain ⟨between, others, wrote, ran, rfl⟩ :=
        writeSlices_cons_ok (image.present_subset here).2 done
      cases create : machine.files.create (plan.target directory extent.slice) with
      | error failure =>
          have refused : (announced plan directory machine extent).files.create
            (plan.target directory extent.slice) = .error failure := create
          rw [perform_writeSlice_error refused] at wrote
          cases wrote
      | ok made =>
          obtain ⟨tree, place⟩ := made
          have leads : machine.files.Leads (plan.target directory extent.slice) place :=
            ⟨tree, create⟩
          have takes := regular.takes List.mem_cons_self leads
          have apart := spares _ List.mem_cons_self place leads
          have told : (announced plan directory machine extent).content = .bytes data := source
          obtain ⟨mode, origin, whole, filed, script⟩ :=
            perform_writeSlice_ok placed here told create
              (FileTree.node?_of_create create takes) apart wrote
          -- The others are written on a tree in which their targets lead to the same places.
          have refiled : machine.files.Refiled between.files := filed.refiled takes
          obtain ⟨rfl, complete, overwritten⟩ := ih
            (fun other member => among other (List.mem_cons_of_mem _ member))
            (Machine.content_of_filed told origin apart filed)
            ((regular.sublist (List.sublist_cons_self ..)).refiled refiled)
            ((spares.sublist (List.sublist_cons_self ..)).refiled refiled origin) ran
          exact ⟨rfl, List.forall_mem_cons.mpr ⟨whole, complete⟩,
            overwritten.cons leads takes filed script⟩

/-- On a source without faults that is long enough, slices that can be made are written. -/
theorem exists_writeSlices_ok (placed : Layout.ofHeader image.header = .ok image.layout)
    (among : ∀ extent ∈ extents, extent ∈ image.present) (reads : machine.Reads data)
    (regular : machine.files.Regular
      (extents.map fun extent => plan.target directory extent.slice))
    (spares : machine.Spares (extents.map fun extent => plan.target directory extent.slice))
    (creatable : ∀ extent ∈ extents,
      ∃ place, machine.files.Leads (plan.target directory extent.slice) place)
    (long : ∀ extent ∈ extents, ¬ extent.CutIn data) :
    ∃ written after,
      machine.perform (image.writeSlices directory plan extents) = (.ok written, after) := by
  induction extents generalizing machine with
  | nil => exact ⟨[], machine, rfl⟩
  | cons extent rest ih =>
      obtain ⟨member, present⟩ := image.present_subset (among extent List.mem_cons_self)
      obtain ⟨place, leads⟩ := creatable extent List.mem_cons_self
      obtain ⟨tree, create⟩ := leads
      have takes := regular.takes List.mem_cons_self ⟨tree, create⟩
      have told : (announced plan directory machine extent).Reads data :=
        ⟨reads.content, reads.readFuse, reads.seekFuse⟩
      obtain ⟨between, mode, wrote, reads', origin, filed, -⟩ :=
        perform_writeSlice_whole plan placed member told (long extent List.mem_cons_self) create
          (FileTree.node?_of_create create takes) (spares _ List.mem_cons_self place ⟨tree, create⟩)
      have refiled : machine.files.Refiled between.files := filed.refiled takes
      obtain ⟨written, after, ran⟩ := ih
        (fun other member => among other (List.mem_cons_of_mem _ member)) reads'
        ((regular.sublist (List.sublist_cons_self ..)).refiled refiled)
        ((spares.sublist (List.sublist_cons_self ..)).refiled refiled origin)
        (fun other member => by
          obtain ⟨there, leads⟩ := creatable other (List.mem_cons_of_mem _ member)
          exact ⟨there, refiled.leads_iff.mpr leads⟩)
        (fun other member => long other (List.mem_cons_of_mem _ member))
      rw [perform_writeSlices_cons present wrote, ran]
      exact ⟨_, after, rfl⟩

/-- Among the files of some slices, the one of a slice is found by its name. -/
theorem find?_present (named : ∀ slice, (image.layout.extent slice).slice = slice)
    (file : Slice → Path) (slices : List Slice) (slice : Slice) :
    ((((slices.map image.layout.extent).filter Extent.isPresent).map
      fun extent => (extent.slice, file extent.slice)).find? fun entry => entry.1 = slice) =
      if slice ∈ slices ∧ (image.layout.extent slice).size ≠ 0 then some (slice, file slice)
      else none := by
  induction slices with
  | nil => rfl
  | cons first rest ih =>
      rw [List.map_cons]
      by_cases present : (image.layout.extent first).isPresent
      · rw [List.filter_cons_of_pos present, List.map_cons, named first, List.find?_cons]
        by_cases here : slice = first
        · subst here
          rw [decide_eq_true rfl, if_pos ⟨List.mem_cons_self, Extent.isPresent_iff.mp present⟩]
        · rw [decide_eq_false (Ne.symm here), ih]
          simp only [List.mem_cons, here, false_or]
      · rw [List.filter_cons_of_neg present, ih]
        by_cases here : slice = first
        · subst here
          have absent := mt Extent.isPresent_iff.mpr present
          rw [if_neg fun both => absent both.2, if_neg fun both => absent both.2]
        · simp only [List.mem_cons, here, false_or]

/-- **What an unpacking that succeeds does to the tree.** Files may be there before, several slices
may go into one file, and any call may fail. When the run succeeds, the place that a slice goes to
holds exactly the script or the bytes of that slice, unless a later slice goes there too; no other
place and no directory is changed; and the report names the slices that are there, in order. On a
source without faults a run over targets that can be made does succeed. -/
theorem unpackInto_overwrites {opened : Machine} (directory : Path) (plan : Plan)
    (accepted : (opened.perform Image.accept).1 = .ok image) (source : start.content = .bytes data)
    (regular : start.files.Regular (image.targets directory plan))
    (spares : start.Spares (image.targets directory plan)) :
    let run := start.perform (image.unpackInto directory plan)
    (start.Reads data →
      (∀ path ∈ image.targets directory plan, ∃ place, start.files.Leads path place) →
      (∀ extent ∈ image.present, ¬ extent.CutIn data) → ∃ report, run.1 = .ok report) ∧
    ∀ report, run.1 = .ok report →
      (∀ extent ∈ image.present, ¬ extent.CutIn data) ∧
      image.Overwritten plan directory data start.files run.2.files image.present ∧
      (∀ place, run.2.files.node? place = some .directory ↔
        start.files.node? place = some .directory) ∧
      report.written = image.present.map (fun extent =>
        (extent.slice, plan.target directory extent.slice)) ∧
      ∀ slice, report.path? slice =
        if (image.layout.extent slice).size = 0 then none
        else some (plan.target directory slice) := by
  intro run
  have placed := ofHeader_of_accept accepted
  have ran : run = _ := perform_unpackInto start image directory plan
  rw [ran]
  constructor
  · intro reads creatable long
    obtain ⟨written, after, done⟩ := exists_writeSlices_ok placed (fun _ member => member) reads
      regular spares (fun extent member => creatable _ (List.mem_map_of_mem member)) long
    rw [done]
    exact ⟨_, rfl⟩
  · intro report succeeded
    rcases done : start.perform (image.writeSlices directory plan image.present) with
      ⟨answer, after⟩
    rw [done] at succeeded
    cases answer with
    | error reason => cases succeeded
    | ok written =>
        cases succeeded
        obtain ⟨rfl, whole, overwritten⟩ :=
          perform_writeSlices_ok placed (fun _ member => member) source regular spares done
        refine ⟨whole, overwritten, overwritten.refiled.alike.directories, rfl, ?_⟩
        intro slice
        obtain ⟨-, -, -, places⟩ := Header.layout_places placed
        have found := find?_present (fun slice => (places slice).1) (plan.target directory)
          Slice.all slice
        have all : slice ∈ Slice.all := by cases slice <;> decide
        rw [Manifest.path?]
        refine (congrArg (Option.map Prod.snd) found).trans ?_
        by_cases absent : (image.layout.extent slice).size = 0
        · rw [if_neg fun both => both.2 absent, if_pos absent]
          rfl
        · rw [if_pos ⟨all, absent⟩, if_neg absent]
          rfl

/-- Kernel and ramdisk go into one file, which is there and longer than both; the script goes into
a file of its own, and there is no second stage. -/
theorem unpackInto_overwrites_longer_file :
    let plan : Plan := ⟨⟨[97], [98], [98], [99], [100]⟩, "", none⟩
    let data : Array UInt8 := (small.header.encode ++ [7, 8, 9, 5]).toArray
    let files : FileTree := (⟨.empty, [], []⟩ : FileTree).put [[98]] (.file #[1, 2, 3, 4, 5] 384)
    let start : Machine := { Machine.ofFiles files with origin := .memory data }
    let run := start.perform (small.unpackInto [] plan)
    (start.perform Image.accept).1 = .ok small ∧
      ∃ report, run.1 = .ok report ∧
        (report.path? .kernel, report.path? .ramdisk, report.path? .second) =
          (some [98], some [98], none) ∧
        (∃ mode, run.2.files.node? [[98]] = some (.file #[5] mode)) ∧
        run.2.files.node? [[97]] =
          some (.file (Script.mk small.header plan.names "").text.toArray Node.scriptMode) := by
  intro plan data files start run
  have reads : start.Reads data := ⟨rfl, rfl, rfl⟩
  have record : small.header.encode.length = 1632 := small.header.length_encode
  have size : data.size = 1636 := by
    rw [List.size_toArray, List.length_append, record]
    rfl
  obtain ⟨after, accept⟩ := perform_accept_small reads
  have accepted : (start.perform Image.accept).1 = .ok small := congrArg (·.1) accept
  have made : ∀ path ∈ small.targets [] plan, start.files.Leads path [path] ∧
      ∀ behaviour, start.files.node? [path] ≠ some (.device behaviour) := by
    intro path among
    rw [show small.targets [] plan = [[97], [98], [98]] from rfl] at among
    simp only [List.mem_cons, List.not_mem_nil, or_false] at among
    rcases among with rfl | rfl | rfl <;> exact ⟨⟨_, rfl⟩, fun _ => nofun⟩
  have regular : start.files.Regular (small.targets [] plan) := by
    intro path among place behaviour leads
    obtain ⟨here, file⟩ := made path among
    cases leads.unique here
    exact file behaviour
  have creatable : ∀ path ∈ small.targets [] plan, ∃ place, start.files.Leads path place :=
    fun path among => ⟨_, (made path among).1⟩
  have script : start.files.Leads [97] [[97]] := ⟨_, rfl⟩
  have payload : start.files.Leads [98] [[98]] := ⟨_, rfl⟩
  have apart : ∀ other ∈ [small.layout.extent .kernel, small.layout.extent .ramdisk],
      ¬ start.files.Leads (plan.target [] other.slice) [[97]] := by
    intro other among leads
    simp only [List.mem_cons, List.not_mem_nil, or_false] at among
    rcases among with rfl | rfl <;> exact absurd (payload.unique leads) (by decide)
  have long : ∀ extent ∈ small.present, ¬ extent.CutIn data := by
    rintro extent among ⟨-, cut⟩
    rw [size] at cut
    have inside : ∀ extent ∈ small.present, extent.offset.toNat + extent.size.toNat ≤ 1636 := by
      decide
    have ends := inside extent among
    omega
  obtain ⟨succeeds, effect⟩ :=
    unpackInto_overwrites [] plan accepted reads.content regular fun _ _ _ _ => nofun
  obtain ⟨report, done⟩ := succeeds reads creatable long
  obtain ⟨-, overwritten, -, -, paths⟩ := effect report done
  obtain ⟨mode, held, -⟩ := overwritten.last
    [small.layout.extent .header, small.layout.extent .kernel] (small.layout.extent .ramdisk) []
    rfl [[98]] payload (fun _ => nofun)
  have byte : small.wholeFile plan data (small.layout.extent .ramdisk) = [5] := by
    show Content.slice data 1635 1 = [5]
    rw [Content.slice_eq, show 1635 = small.header.encode.length + 3 by omega,
      List.drop_length_add_append]
    rfl
  rw [byte] at held
  obtain ⟨scriptMode, text, executable⟩ := overwritten.last [] (small.layout.extent .header)
    [small.layout.extent .kernel, small.layout.extent .ramdisk] rfl [[97]] script apart
  cases executable rfl
  refine ⟨accepted, report, done, ?_, ⟨mode, held⟩, text⟩
  rw [paths, paths, paths]
  rfl

end BootImage.Image
