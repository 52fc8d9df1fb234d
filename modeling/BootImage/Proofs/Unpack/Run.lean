import BootImage.Proofs.Unpack.Accept

/-!
Unpacking as a run over the slices that are there, one file after the other. `Plan.Unpacked` says
what a run has left behind; `Image.Reached` says where it stands, and every slice that is not
blocked keeps it.
-/

namespace BootImage

def Plan.target (plan : Plan) (directory : Path) (slice : Slice) : Path :=
  directory.join (plan.names.ofSlice slice)

/-- The slices that are there, in the order in which they are written. -/
def Image.present (image : Image) : List Extent :=
  image.layout.extents.toList.filter Extent.isPresent

/-- Of several paths, those at which a file can be made lead to regular files that are pairwise
different and none of them the source. -/
structure Machine.Separates (machine : Machine) (paths : List Path) : Prop where
  regular : ∀ path ∈ paths, ∀ tree place, machine.files.create path = .ok (tree, place) →
    (∃ mode, tree.node? place = some (.file #[] mode)) ∧ machine.origin ≠ .stored place
  different : paths.Pairwise fun first second => ∀ tree tree' place,
    machine.files.create first = .ok (tree, place) →
      machine.files.create second ≠ .ok (tree', place)

theorem Machine.Separates.sublist {machine : Machine} {paths fewer : List Path}
    (separates : machine.Separates paths) (sub : fewer.Sublist paths) : machine.Separates fewer :=
  ⟨fun path among => separates.regular path (sub.subset among), separates.different.sublist sub⟩

/-- Paths at which files are made at different places, for a source that is not in the tree. -/
theorem Machine.separates_of_create {machine : Machine} {paths : List Path}
    {place : Path → Location} (outside : ∀ place, machine.origin ≠ .stored place)
    (creates : ∀ path ∈ paths, ∃ tree mode, machine.files.create path = .ok (tree, place path) ∧
      tree.node? (place path) = some (.file #[] mode))
    (different : paths.Pairwise fun first second => place first ≠ place second) :
    machine.Separates paths := by
  constructor
  · intro path among tree there made
    obtain ⟨tree', mode, made', regular⟩ := creates path among
    cases made.symm.trans made'
    exact ⟨⟨mode, regular⟩, outside _⟩
  · refine different.imp_of_mem ?_
    intro first second firstAmong secondAmong apart tree tree' there made made'
    obtain ⟨_, _, here, -⟩ := creates first firstAmong
    obtain ⟨_, _, here', -⟩ := creates second secondAmong
    have one : there = place first := by
      cases made.symm.trans here
      rfl
    have other : there = place second := by
      cases made'.symm.trans here'
      rfl
    exact apart (one.symm.trans other)

/-- What was written into which files of a tree, everything else being as it was. -/
structure Plan.Unpacked (plan : Plan) (directory : Path) (start final : FileTree)
    (written : List (Slice × Bytes)) : Prop where
  holds : ∀ slice bytes, (slice, bytes) ∈ written → ∃ tree place mode,
    start.create (plan.target directory slice) = .ok (tree, place) ∧
      final.node? place = some (.file bytes.toArray mode) ∧
      (slice = .header → mode = Node.scriptMode)
  untouched : ∀ place, (∀ entry ∈ written, ∀ tree,
    start.create (plan.target directory entry.1) ≠ .ok (tree, place)) →
      final.node? place = start.node? place

namespace Plan.Unpacked

variable {plan : Plan} {directory : Path} {start turn after tree : FileTree} {place : Location}
  {written : List (Slice × Bytes)} {slice : Slice} {bytes : Bytes} {mode : Nat}

theorem nil (plan : Plan) (directory : Path) (start : FileTree) :
    plan.Unpacked directory start start [] :=
  ⟨fun _ _ => nofun, fun _ _ => rfl⟩

/-- One more file, at a place of its own. -/
theorem snoc (unpacked : plan.Unpacked directory start turn written)
    (made : start.create (plan.target directory slice) = .ok (tree, place))
    (filed : turn.Filed place bytes.toArray mode after)
    (script : slice = .header → mode = Node.scriptMode)
    (elsewhere : ∀ entry ∈ written, ∀ tree,
      start.create (plan.target directory entry.1) ≠ .ok (tree, place)) :
    plan.Unpacked directory start after (written ++ [(slice, bytes)]) := by
  constructor
  · intro slice' bytes' among
    rcases List.mem_append.mp among with before | last
    · obtain ⟨tree', place', mode', made', held, script'⟩ := unpacked.holds slice' bytes' before
      have apart : place ≠ place' := by
        rintro rfl
        exact elsewhere _ before tree' made'
      refine ⟨tree', place', mode', made', ?_, script'⟩
      rw [filed.node?_eq, if_neg apart]
      exact held
    · cases List.mem_singleton.mp last
      exact ⟨tree, place, mode, made, filed.node?_self, script⟩
  · intro other free
    have apart : place ≠ other := by
      rintro rfl
      exact free (slice, bytes) (List.mem_append_right _ (List.mem_singleton.mpr rfl)) tree made
    rw [filed.node?_eq, if_neg apart]
    exact unpacked.untouched other fun entry among =>
      free entry (List.mem_append_left _ among)

end Plan.Unpacked

namespace Image

variable {machine turn after : Machine} {data : Array UInt8} {image : Image} {plan : Plan}
  {directory : Path} {extent : Extent} {before later : List Extent} {written : List (Slice × Path)}

theorem present_subset (image : Image) {extent : Extent} (among : extent ∈ image.present) :
    extent ∈ image.layout.extents.toList ∧ extent.isPresent :=
  List.mem_filter.mp among

theorem writeSlices_cons (image : Image) (directory : Path) (plan : Plan)
    (present : extent.isPresent) (rest : List Extent) :
    (image.writeSlices directory plan (extent :: rest) :
      ExceptT Stop (StateM Machine) (List (Slice × Path))) = do
        Host.tell .info ("Writing \"" ++ (plan.target directory extent.slice).display ++ "\"")
        image.writeSlice plan (plan.target directory extent.slice) extent
        let others ← image.writeSlices directory plan rest
        return (extent.slice, plan.target directory extent.slice) :: others := by
  rw [writeSlices, if_pos present]
  rfl

/-- Slices of size zero are left out. -/
theorem writeSlices_filter (image : Image) (directory : Path) (plan : Plan)
    (extents : List Extent) :
    (image.writeSlices directory plan extents :
      ExceptT Stop (StateM Machine) (List (Slice × Path))) =
      image.writeSlices directory plan (extents.filter Extent.isPresent) := by
  induction extents with
  | nil => rfl
  | cons extent rest ih =>
      by_cases present : extent.isPresent
      · rw [List.filter_cons_of_pos present, writeSlices_cons _ _ _ present,
          writeSlices_cons _ _ _ present, ih]
      · rw [List.filter_cons_of_neg present, writeSlices, if_neg present, ih]

/-- A run goes on where a run over the first slices has ended. -/
theorem perform_writeSlices_append (present : ∀ extent ∈ before, extent.isPresent)
    (first : machine.perform (image.writeSlices directory plan before) = (.ok written, turn))
    (rest : List Extent) :
    machine.perform (image.writeSlices directory plan (before ++ rest)) =
      ((turn.perform (image.writeSlices directory plan rest)).1.map (written ++ ·),
        (turn.perform (image.writeSlices directory plan rest)).2) := by
  induction before generalizing machine written with
  | nil =>
      cases first
      rw [List.nil_append]
      rcases turn.perform (image.writeSlices directory plan rest) with ⟨answer, after⟩
      cases answer <;> rfl
  | cons extent others ih =>
      have here := present extent List.mem_cons_self
      rw [writeSlices_cons _ _ _ here] at first
      obtain ⟨⟨⟩, told, tells, first⟩ := Machine.perform_bind_eq_ok first
      obtain ⟨⟨⟩, between, wrote, first⟩ := Machine.perform_bind_eq_ok first
      rw [Machine.perform_bind_pure] at first
      rcases ran : between.perform (image.writeSlices directory plan others) with ⟨answer, ended⟩
      cases answer with
      | error reason =>
          rw [ran] at first
          cases first
      | ok behind =>
          rw [ran] at first
          cases first
          rw [List.cons_append, writeSlices_cons _ _ _ here, Machine.perform_bind_ok tells,
            Machine.perform_bind_ok wrote, Machine.perform_bind_pure,
            ih (fun extent among => present extent (List.mem_cons_of_mem _ among)) ran]
          cases (ended.perform (image.writeSlices directory plan rest)).1 <;> rfl

/-- The machine on which it was told which file comes next. -/
def announced (plan : Plan) (directory : Path) (machine : Machine) (extent : Extent) : Machine :=
  machine.record (.event ⟨.info,
    "Writing \"" ++ (plan.target directory extent.slice).display ++ "\""⟩)

theorem perform_writeSlices_error {reason : Stop} (present : extent.isPresent)
    (failed : (announced plan directory machine extent).perform
      (image.writeSlice plan (plan.target directory extent.slice) extent) = (.error reason, after))
    (rest : List Extent) :
    machine.perform (image.writeSlices directory plan (extent :: rest)) = (.error reason, after) := by
  rw [writeSlices_cons _ _ _ present]
  have told : machine.perform (Host.tell .info
      ("Writing \"" ++ (plan.target directory extent.slice).display ++ "\"")) =
      ((.ok () : Except Stop Unit), announced plan directory machine extent) := rfl
  rw [Machine.perform_bind_ok told, Machine.perform_bind_error failed]

theorem perform_writeSlices_cons (present : extent.isPresent)
    (written : (announced plan directory machine extent).perform
      (image.writeSlice plan (plan.target directory extent.slice) extent) = (.ok (), after))
    (rest : List Extent) :
    machine.perform (image.writeSlices directory plan (extent :: rest)) =
      ((after.perform (image.writeSlices directory plan rest)).1.map
          ((extent.slice, plan.target directory extent.slice) :: ·),
        (after.perform (image.writeSlices directory plan rest)).2) := by
  rw [writeSlices_cons _ _ _ present]
  have told : machine.perform (Host.tell .info
      ("Writing \"" ++ (plan.target directory extent.slice).display ++ "\"")) =
      ((.ok () : Except Stop Unit), announced plan directory machine extent) := rfl
  rw [Machine.perform_bind_ok told, Machine.perform_bind_ok written, Machine.perform_bind_pure]

theorem perform_writeSlices_single (present : extent.isPresent)
    (written : (announced plan directory machine extent).perform
      (image.writeSlice plan (plan.target directory extent.slice) extent) = (.ok (), after)) :
    machine.perform (image.writeSlices directory plan [extent]) =
      (.ok [(extent.slice, plan.target directory extent.slice)], after) :=
  perform_writeSlices_cons present written []

/-- A slice is blocked at its turn when its file cannot be made, or when the source ends in it. -/
def Blocked (plan : Plan) (directory : Path) (data : Array UInt8) (turn : Machine)
    (extent : Extent) : Prop :=
  (∃ failure, turn.files.create (plan.target directory extent.slice) = .error failure) ∨
    extent.CutIn data

/-- Where a run stands that has written some slices. -/
structure Reached (image : Image) (plan : Plan) (directory : Path) (data : Array UInt8)
    (start : Machine) (done : List Extent) (turn : Machine) : Prop where
  ran : start.perform (image.writeSlices directory plan done) =
    (.ok (done.map fun extent => (extent.slice, plan.target directory extent.slice)), turn)
  reads : turn.Reads data
  origin : turn.origin = start.origin
  refiled : start.files.Refiled turn.files
  unpacked : plan.Unpacked directory start.files turn.files
    (done.map fun extent => (extent.slice, image.wholeFile plan data extent))

variable {start : Machine} {done : List Extent} {tree : FileTree} {place : Location}

theorem Reached.nil (image : Image) (plan : Plan) (directory : Path) (reads : start.Reads data) :
    image.Reached plan directory data start [] start :=
  ⟨rfl, reads, rfl, .refl _, .nil ..⟩

/-- A file that can be made at its turn is a regular one, at a place that nothing was written to. -/
theorem Reached.made (reached : image.Reached plan directory data start done turn)
    (separates : start.Separates
      ((done ++ [extent]).map fun extent => plan.target directory extent.slice))
    (made : turn.files.create (plan.target directory extent.slice) = .ok (tree, place)) :
    ∃ before mode, start.files.create (plan.target directory extent.slice) = .ok (before, place) ∧
      tree.node? place = some (.file #[] mode) ∧ turn.origin ≠ .stored place ∧
      start.files.Takes place ∧
      ∀ entry ∈ done.map (fun extent => (extent.slice, image.wholeFile plan data extent)),
        ∀ tree, start.files.create (plan.target directory entry.1) ≠ .ok (tree, place) := by
  -- Only files were made so far, so the path led to the same place in the first tree.
  obtain ⟨before, first⟩ := reached.refiled.exists_create_iff.mp ⟨tree, made⟩
  obtain ⟨⟨mode, regular⟩, apart⟩ := separates.regular _
    (List.mem_map_of_mem (List.mem_append_right _ (List.mem_singleton.mpr rfl))) _ _ first
  obtain ⟨takes, -⟩ := FileTree.filed_of_create first regular
  refine ⟨before, _, first, FileTree.node?_of_create made (reached.refiled.takes_iff.mpr takes), ?_,
    takes, ?_⟩
  · rw [reached.origin]
    exact apart
  · intro entry among tree' made'
    obtain ⟨earlier, member, rfl⟩ := List.mem_map.mp among
    have different := separates.different
    rw [List.map_append, List.pairwise_append] at different
    exact different.2.2 _ (List.mem_map_of_mem member) _
      (List.mem_map_of_mem (List.mem_singleton.mpr rfl)) _ _ _ made' first

theorem Reached.snoc (reached : image.Reached plan directory data start done turn)
    (placed : Layout.ofHeader image.header = .ok image.layout)
    (among : ∀ other ∈ done ++ [extent], other ∈ image.present)
    (separates : start.Separates
      ((done ++ [extent]).map fun extent => plan.target directory extent.slice))
    (free : ¬ Blocked plan directory data turn extent) :
    ∃ after, image.Reached plan directory data start (done ++ [extent]) after := by
  obtain ⟨member, present⟩ :=
    image.present_subset (among extent (List.mem_append_right _ (List.mem_singleton.mpr rfl)))
  cases create : turn.files.create (plan.target directory extent.slice) with
  | error failure => exact absurd (.inl ⟨failure, create⟩) free
  | ok made =>
      obtain ⟨tree, place⟩ := made
      obtain ⟨before, mode, first, regular, apart, takes, elsewhere⟩ :=
        reached.made separates create
      have reads : (announced plan directory turn extent).Reads data :=
        ⟨reached.reads.content, reached.reads.readFuse, reached.reads.seekFuse⟩
      obtain ⟨after, mode', wrote, reads', origin, filed, script⟩ :=
        perform_writeSlice_whole plan placed member reads (fun cut => free (.inr cut)) create
          regular apart
      refine ⟨after, ?_, reads', origin.trans reached.origin, ?_, ?_⟩
      · have written := fun other member =>
          (image.present_subset (among other (List.mem_append_left _ member))).2
        rw [perform_writeSlices_append written reached.ran,
          perform_writeSlices_single present wrote, List.map_append]
        rfl
      · exact reached.refiled.trans (filed.refiled (reached.refiled.takes_iff.mpr takes))
      · rw [List.map_append]
        exact reached.unpacked.snoc first filed script elsewhere

/-- A run goes on over slices that are free, each at its turn. -/
theorem Reached.exists_append {rest : List Extent}
    (reached : image.Reached plan directory data start done turn)
    (placed : Layout.ofHeader image.header = .ok image.layout)
    (among : ∀ extent ∈ done ++ rest, extent ∈ image.present)
    (separates : start.Separates
      ((done ++ rest).map fun extent => plan.target directory extent.slice))
    (free : ∀ before extent later turn, done ++ rest = before ++ extent :: later →
      image.Reached plan directory data start before turn →
        ¬ Blocked plan directory data turn extent) :
    ∃ after, image.Reached plan directory data start (done ++ rest) after := by
  induction rest generalizing done turn with
  | nil =>
      rw [List.append_nil]
      exact ⟨turn, reached⟩
  | cons extent rest ih =>
      have here := free done extent rest turn rfl reached
      have parts : done ++ extent :: rest = (done ++ [extent]) ++ rest := by simp
      rw [parts] at among separates free ⊢
      obtain ⟨between, next⟩ := reached.snoc placed
        (fun other member => among other (List.mem_append_left _ member))
        (separates.sublist ((List.sublist_append_left _ _).map _)) here
      exact ih next among separates free

theorem exists_reached (reads : start.Reads data)
    (placed : Layout.ofHeader image.header = .ok image.layout)
    (among : ∀ extent ∈ done, extent ∈ image.present)
    (separates : start.Separates (done.map fun extent => plan.target directory extent.slice))
    (free : ∀ before extent later turn, done = before ++ extent :: later →
      image.Reached plan directory data start before turn →
        ¬ Blocked plan directory data turn extent) :
    ∃ turn, image.Reached plan directory data start done turn :=
  (Reached.nil image plan directory reads).exists_append placed among separates free

/-- What can be made at first can be made at its turn. -/
theorem Reached.not_blocked (reached : image.Reached plan directory data start done turn)
    (creatable : ∃ made, start.files.create (plan.target directory extent.slice) = .ok made)
    (whole : ¬ extent.CutIn data) : ¬ Blocked plan directory data turn extent := by
  rintro (⟨failure, refused⟩ | cut)
  · obtain ⟨⟨before, place⟩, first⟩ := creatable
    obtain ⟨after, made⟩ := reached.refiled.exists_create_iff.mpr ⟨before, first⟩
    exact absurd (refused.symm.trans made) nofun
  · exact whole cut

theorem perform_unpackInto (machine : Machine) (image : Image) (directory : Path) (plan : Plan) :
    machine.perform (image.unpackInto directory plan) =
      ((machine.perform (image.writeSlices directory plan image.present)).1.map Manifest.mk,
        (machine.perform (image.writeSlices directory plan image.present)).2) := by
  rw [unpackInto, writeSlices_filter, Machine.perform_bind_pure]
  rfl

/-- Where files can be made and the source is long enough, nothing is blocked. -/
theorem exists_reached_of_creatable (reads : start.Reads data)
    (placed : Layout.ofHeader image.header = .ok image.layout)
    (among : ∀ extent ∈ done, extent ∈ image.present)
    (separates : start.Separates (done.map fun extent => plan.target directory extent.slice))
    (creatable : ∀ extent ∈ done,
      ∃ made, start.files.create (plan.target directory extent.slice) = .ok made)
    (long : ∀ extent ∈ done, ¬ extent.CutIn data) :
    ∃ turn, image.Reached plan directory data start done turn := by
  refine exists_reached reads placed among separates ?_
  intro before extent later turn split reached
  have member : extent ∈ done := by
    rw [split]
    exact List.mem_append_right _ List.mem_cons_self
  exact reached.not_blocked (creatable extent member) (long extent member)

theorem perform_unpackInto_ok (placed : Layout.ofHeader image.header = .ok image.layout)
    (reads : start.Reads data)
    (separates : start.Separates
      (image.present.map fun extent => plan.target directory extent.slice))
    (creatable : ∀ extent ∈ image.present,
      ∃ made, start.files.create (plan.target directory extent.slice) = .ok made)
    (long : ∀ extent ∈ image.present, ¬ extent.CutIn data) :
    (start.perform (image.unpackInto directory plan)).1 =
        .ok ⟨image.present.map fun extent =>
          (extent.slice, plan.target directory extent.slice)⟩ ∧
      plan.Unpacked directory start.files (start.perform (image.unpackInto directory plan)).2.files
        (image.present.map fun extent => (extent.slice, image.wholeFile plan data extent)) := by
  obtain ⟨after, reached⟩ := exists_reached_of_creatable reads placed (fun other among => among)
    separates creatable long
  rw [perform_unpackInto, reached.ran]
  exact ⟨rfl, reached.unpacked⟩

end Image

end BootImage
