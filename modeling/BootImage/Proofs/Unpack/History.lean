import BootImage.Proofs.Unpack.Confined

/-!
Unpacking again and again. Two machines are twins when their files are the same and their sources
give the same bytes; where the sources stand, what they have served and how they are paced may
differ. Whatever is unpacked comes out the same on twins and leaves twins behind, so nothing that
was done before can be seen in what is done next.

* `Image.writeSlices_agree`: a run over slices, step by step.
* `Image.performEach_keeps`: what any number of calls leave as it was.
* `Image.unpackInto_after_history`: a call after others does what it does on an image just opened.
-/

namespace BootImage

namespace Machine

/-- The answers of several calls, and the machine behind them. -/
def performEach (machine : Machine) (image : Image) (calls : List (Path × Plan)) :
    List (Except Stop Manifest) × Machine :=
  (image.unpackEach calls : StateM Machine (List (Except Stop Manifest))).run machine

theorem performEach_cons (machine : Machine) (image : Image) (directory : Path) (plan : Plan)
    (rest : List (Path × Plan)) :
    machine.performEach image ((directory, plan) :: rest) =
      ((machine.perform (image.unpackInto directory plan)).1 ::
          ((machine.perform (image.unpackInto directory plan)).2.performEach image rest).1,
        ((machine.perform (image.unpackInto directory plan)).2.performEach image rest).2) := rfl

/-- Calls go on where the ones before them have ended. -/
theorem performEach_append (machine : Machine) (image : Image) (history rest : List (Path × Plan)) :
    machine.performEach image (history ++ rest) =
      ((machine.performEach image history).1 ++
          ((machine.performEach image history).2.performEach image rest).1,
        ((machine.performEach image history).2.performEach image rest).2) := by
  induction history generalizing machine with
  | nil => rfl
  | cons call others ih =>
      obtain ⟨directory, plan⟩ := call
      rw [List.cons_append, performEach_cons, ih, performEach_cons]
      rfl

theorem length_performEach (machine : Machine) (image : Image) (calls : List (Path × Plan)) :
    (machine.performEach image calls).1.length = calls.length := by
  induction calls generalizing machine with
  | nil => rfl
  | cons call rest ih =>
      obtain ⟨directory, plan⟩ := call
      rw [performEach_cons, List.length_cons, List.length_cons, ih]

variable {machine other before between after : Machine} {data : Array UInt8} {path : Path}
  {place : Location}

/-- Machines with the same files, and with sources that give the same bytes without faults. -/
structure Twins (data : Array UInt8) (machine other : Machine) : Prop where
  files : other.files = machine.files
  reads : machine.Reads data
  reads' : other.Reads data

theorem Reads.twins (reads : machine.Reads data) : Twins data machine machine :=
  ⟨rfl, reads, reads⟩

/-! ### Work on one destination -/

/-- Work on a destination that answers the same on twins and leaves the same files and bytes. -/
def Steady (data : Array UInt8) (work : ExceptT Stop (StateM Machine) Unit) : Prop :=
  ∀ machine other place, Twins data machine other → machine.destination = some place →
    other.destination = some place → other.writer = machine.writer →
      ∃ answer after after', machine.perform work = (answer, after) ∧
        other.perform work = (answer, after') ∧ Worked place machine after ∧
        Worked place other after' ∧ after'.files = after.files ∧
        after'.writer.held = after.writer.held

/-- What a copy answers does not depend on where the source stood before. -/
theorem steady_copyRange {blockSize offset count : UInt64} (nonzero : blockSize ≠ 0)
    (allocatable : min blockSize.toNat count.toNat ≤ maxBlock) :
    Steady data (copyRange blockSize offset count) := by
  intro machine other place twins destination destination' writer
  obtain ⟨after, copied, kept, held, -⟩ := perform_copyRange twins.reads.content
    (twins.reads.seekable offset.toNat) nonzero allocatable rfl
  obtain ⟨after', copied', kept', held', -⟩ := perform_copyRange twins.reads'.content
    (twins.reads'.seekable offset.toNat) nonzero allocatable rfl
  rw [twins.reads.edge, copyAnswer, twins.reads.struckAt] at copied
  rw [twins.reads.edge] at held
  rw [twins.reads'.edge, copyAnswer, twins.reads'.struckAt, writer] at copied'
  rw [twins.reads'.edge, writer] at held'
  exact ⟨_, after, after', copied, copied', kept.worked destination, kept'.worked destination',
    kept'.files.trans (twins.files.trans kept.files.symm), held'.trans held.symm⟩

/-- What is marked depends on the tree and the destination alone. -/
theorem markExecutable_congr (files : other.files = machine.files)
    (destination : other.destination = machine.destination) :
    other.markExecutable.2.files = machine.markExecutable.2.files := by
  rw [markExecutable, markExecutable, destination, files]
  split
  · exact files
  · split
    · rfl
    · split <;> exact files
    · exact files

/-- What writing a script answers does not depend on the source at all. -/
theorem steady_script (script : Bytes) (warning : Failure → String) :
    Steady data (do
      attempt .writeRebuildScript (Host.writeAll script)
      match ← (Host.markExecutable : StateM Machine (Except Failure Unit)) with
      | .ok () => pure ()
      | .error failure => Host.tell .warn (warning failure)) := by
  intro machine other place twins destination destination' writer
  obtain ⟨offers, wrote⟩ := machine.perform_writeAll script
  obtain ⟨offers', wrote'⟩ := other.perform_writeAll script
  rw [writer] at wrote'
  generalize script.take (machine.writer.takes script.length) = bytes at wrote wrote'
  let written := machine.withWriter (machine.writer.grown bytes offers)
  let written' := other.withWriter (machine.writer.grown bytes offers')
  have first : Worked place machine written := ⟨.of_files rfl rfl rfl rfl, destination⟩
  have first' : Worked place other written' := ⟨.of_files rfl rfl rfl rfl, destination'⟩
  have files : written'.files = written.files := twins.files
  split at wrote
  · rename_i refused
    rw [if_pos refused] at wrote'
    exact ⟨_, written, written', perform_bind_error (perform_attempt_eq wrote _) _,
      perform_bind_error (perform_attempt_eq wrote' _) _, first, first', files, rfl⟩
  · rename_i taken
    rw [if_neg taken] at wrote'
    obtain ⟨after, marked, second, tree, same⟩ := perform_markExecutable first.destination warning
    obtain ⟨after', marked', second', tree', same'⟩ :=
      perform_markExecutable first'.destination warning
    refine ⟨_, after, after', (perform_bind_ok (perform_attempt_eq wrote _) _).trans marked,
      (perform_bind_ok (perform_attempt_eq wrote' _) _).trans marked', first.trans second,
      first'.trans second', ?_, ?_⟩
    · rw [tree, tree', markExecutable_congr files (destination'.trans destination.symm)]
    · rw [same, same']
      rfl

/-! ### Whole runs -/

/-- What unpacking leaves as it was: where paths lead, and where the source lies. -/
structure Kept (before after : Machine) : Prop where
  refiled : before.files.Refiled after.files
  origin : after.origin = before.origin

theorem Kept.refl (machine : Machine) : Kept machine machine :=
  ⟨.refl _, rfl⟩

theorem Kept.trans (first : Kept before between) (second : Kept between after) :
    Kept before after :=
  ⟨first.refiled.trans second.refiled, second.origin.trans first.origin⟩

theorem Spares.kept {paths : List Path} (spares : before.Spares paths) (kept : Kept before after) :
    after.Spares paths :=
  spares.refiled kept.refiled kept.origin

/-- Work that comes to the same on two machines and leaves them as twins. -/
def Agree {α : Type} (data : Array UInt8) (machine other : Machine)
    (work : ExceptT Stop (StateM Machine) α) : Prop :=
  ∃ answer after after', machine.perform work = (answer, after) ∧
    other.perform work = (answer, after') ∧ Twins data after after' ∧ Kept machine after ∧
    Kept other after'

theorem close_congr (files : other.files = machine.files)
    (destination : other.destination = machine.destination)
    (held : other.writer.held = machine.writer.held) :
    other.close.files = machine.close.files := by
  rw [close, close, files, destination, held]
  split
  · exact files
  · split <;> rfl

/-- Steady work on a file that is made comes to the same on twins. -/
theorem Twins.withFile {work : ExceptT Stop (StateM Machine) Unit}
    (twins : Twins data machine other) (steady : Steady data work)
    (spares : machine.Spares [path]) (spares' : other.Spares [path]) :
    Agree data machine other (withFile path work) := by
  cases create : machine.files.create path with
  | error failure =>
      have create' : other.files.create path = .error failure := twins.files.symm ▸ create
      exact ⟨_, machine, other, perform_withFile_error create work,
        perform_withFile_error create' work, twins, .refl _, .refl _⟩
  | ok made =>
      obtain ⟨tree, place⟩ := made
      have create' : other.files.create path = .ok (tree, place) := twins.files.symm ▸ create
      have apart := spares path (List.mem_singleton.mpr rfl) place ⟨tree, create⟩
      have apart' := spares' path (List.mem_singleton.mpr rfl) place ⟨tree, create'⟩
      have begun : Confined place machine (machine.begun tree place) := .begun create
      have begun' : Confined place other (other.begun tree place) := .begun create'
      obtain ⟨answer, worked, worked', ran, ran', ended, ended', files, held⟩ :=
        steady (machine.begun tree place) (other.begun tree place) place
          ⟨rfl, twins.reads.confined apart begun, twins.reads'.confined apart' begun'⟩ rfl rfl rfl
      have whole := (begun.trans ended.toConfined).trans (.close ended.destination)
      have whole' := (begun'.trans ended'.toConfined).trans (.close ended'.destination)
      have same := close_congr files (ended'.destination.trans ended.destination.symm) held
      refine ⟨answer, worked.close, worked'.close, ?_, ?_,
        ⟨same, twins.reads.confined apart whole, twins.reads'.confined apart' whole'⟩,
        ⟨whole.files.toRefiled, whole.origin⟩, ⟨whole'.files.toRefiled, whole'.origin⟩⟩
      · rw [perform_withFile_made create, ran]
      · rw [perform_withFile_made create', ran']

end Machine

namespace Image

variable {machine other : Machine} {data : Array UInt8} {image : Image} {plan : Plan}
  {directory path : Path} {extent : Extent} {extents : List Extent}

/-- A slice is written to twins in the same way. -/
theorem writeSlice_agree (placed : Layout.ofHeader image.header = .ok image.layout)
    (among : extent ∈ image.layout.extents.toList) (twins : Machine.Twins data machine other)
    (spares : machine.Spares [path]) (spares' : other.Spares [path]) :
    Machine.Agree data machine other (image.writeSlice plan path extent) := by
  by_cases header : extent.slice = .header
  · rw [writeSlice, header]
    exact twins.withFile (Machine.steady_script _ _) spares spares'
  · obtain ⟨small, -⟩ := extent_bounds placed among
    rw [writeSlice_of_payload image plan path header]
    exact twins.withFile (Machine.steady_copyRange (blockSize_ne_zero placed plan)
      (by unfold maxBlock; omega)) spares spares'

/-- A run over slices comes to the same on twins, whether it succeeds or stops. -/
theorem writeSlices_agree (placed : Layout.ofHeader image.header = .ok image.layout)
    (among : ∀ extent ∈ extents, extent ∈ image.present) (twins : Machine.Twins data machine other)
    (spares : machine.Spares (extents.map fun extent => plan.target directory extent.slice))
    (spares' : other.Spares (extents.map fun extent => plan.target directory extent.slice)) :
    Machine.Agree data machine other (image.writeSlices directory plan extents) := by
  induction extents generalizing machine other with
  | nil => exact ⟨_, machine, other, rfl, rfl, twins, .refl _, .refl _⟩
  | cons extent rest ih =>
      obtain ⟨member, present⟩ := image.present_subset (among extent List.mem_cons_self)
      have here : [plan.target directory extent.slice].Sublist
          ((extent :: rest).map fun extent => plan.target directory extent.slice) := by
        rw [List.singleton_sublist]
        exact List.mem_cons_self
      have told : Machine.Twins data (announced plan directory machine extent)
          (announced plan directory other extent) :=
        ⟨twins.files,
          ⟨twins.reads.content, twins.reads.readFuse, twins.reads.seekFuse⟩,
          ⟨twins.reads'.content, twins.reads'.readFuse, twins.reads'.seekFuse⟩⟩
      obtain ⟨answer, between, between', wrote, wrote', twins, kept, kept'⟩ :=
        writeSlice_agree placed member told (spares.sublist here) (spares'.sublist here)
      have first : Machine.Kept machine between := ⟨kept.refiled, kept.origin⟩
      have first' : Machine.Kept other between' := ⟨kept'.refiled, kept'.origin⟩
      cases answer with
      | error reason =>
          exact ⟨_, between, between', perform_writeSlices_error present wrote rest,
            perform_writeSlices_error present wrote' rest, twins, first, first'⟩
      | ok =>
          obtain ⟨answer, after, after', ran, ran', twins, second, second'⟩ := ih
            (fun other member => among other (List.mem_cons_of_mem _ member)) twins
            ((spares.sublist (List.sublist_cons_self ..)).kept first)
            ((spares'.sublist (List.sublist_cons_self ..)).kept first')
          have run := perform_writeSlices_cons present wrote rest
          have run' := perform_writeSlices_cons present wrote' rest
          rw [ran] at run
          rw [ran'] at run'
          exact ⟨_, after, after', run, run', twins, first.trans second, first'.trans second'⟩

theorem unpackInto_agree (placed : Layout.ofHeader image.header = .ok image.layout)
    (twins : Machine.Twins data machine other)
    (spares : machine.Spares (image.targets directory plan))
    (spares' : other.Spares (image.targets directory plan)) :
    Machine.Agree data machine other (image.unpackInto directory plan) := by
  obtain ⟨answer, after, after', ran, ran', twins, kept, kept'⟩ :=
    writeSlices_agree placed (fun _ member => member) twins spares spares'
  have run := perform_unpackInto machine image directory plan
  have run' := perform_unpackInto other image directory plan
  rw [ran] at run
  rw [ran'] at run'
  exact ⟨_, after, after', run, run', twins, kept, kept'⟩

/-- Any number of calls, whatever comes of them, leave the source readable and where it was, and
every path leading where it led. -/
theorem performEach_keeps (placed : Layout.ofHeader image.header = .ok image.layout)
    (reads : machine.Reads data) (history : List (Path × Plan))
    (spares : ∀ call ∈ history, machine.Spares (image.targets call.1 call.2)) :
    (machine.performEach image history).2.Reads data ∧
      machine.Kept (machine.performEach image history).2 := by
  induction history generalizing machine with
  | nil => exact ⟨reads, .refl machine⟩
  | cons call rest ih =>
      obtain ⟨directory, plan⟩ := call
      have here := spares (directory, plan) List.mem_cons_self
      obtain ⟨answer, between, _, ran, _, twins, kept, _⟩ :=
        unpackInto_agree placed reads.twins here here
      rw [Machine.performEach_cons, ran]
      obtain ⟨reads', behind⟩ := ih twins.reads fun next member =>
        (spares next (List.mem_cons_of_mem _ member)).kept kept
      exact ⟨reads', kept.trans behind⟩

/-- **Nothing but the bytes of the source counts.** Opening an image parses its first record,
wherever the source stands and however it is paced, and laying it out never fails. A call that
comes after any others, some of which may have failed anywhere, answers what it answers on the same
image opened afresh and does the same to the files; and the image opened afresh is the same. -/
theorem unpackInto_after_history {opened : Machine} (reads : opened.Reads data) :
    let opening := opened.perform Image.accept
    (∀ reason, Header.parse (data.toList.take 1632) = .error reason →
      opening.1 = .error (.error reason)) ∧
    (∀ header, Header.parse (data.toList.take 1632) = .ok header →
      ∃ layout, Layout.ofHeader header = .ok layout ∧ opening.1 = .ok ⟨header, layout⟩) ∧
    ∀ image, opening.1 = .ok image → ∀ (history later : List (Path × Plan)) (directory : Path)
      (plan : Plan), (∀ call ∈ history, opened.Spares (image.targets call.1 call.2)) →
      opened.Spares (image.targets directory plan) →
      let calls := history ++ (directory, plan) :: later
      let before := (opening.2.performEach image history).2
      let next := before.perform (image.unpackInto directory plan)
      (opening.2.performEach image calls).1[history.length]? = some next.1 ∧
      ∀ fresh : Machine, fresh.Reads data → fresh.files = before.files →
        fresh.Spares (image.targets directory plan) →
        let afresh := fresh.perform Image.accept
        let single := afresh.2.perform (image.unpackInto directory plan)
        afresh.1 = .ok image ∧ afresh.2.files = before.files ∧ single.1 = next.1 ∧
          single.2.files = next.2.files := by
  intro opening
  have front : Content.slice data 0 Header.size = data.toList.take 1632 := by
    rw [Content.slice_eq, List.drop_zero, Header.size]
  obtain ⟨ready, opens, files, standing, origin⟩ := perform_accept reads
  have readied : opening.2 = ready := congrArg (·.2) opens
  have answered : opening.1 = _ := congrArg (·.1) opens
  refine ⟨?_, ?_, ?_⟩
  · intro reason refused
    rw [answered, front, refused]
    rfl
  · intro header parsed
    obtain ⟨layout, placed⟩ := Header.exists_layout_of_parse parsed
    refine ⟨layout, placed, ?_⟩
    rw [answered, front, parsed]
    simp only [mapError_ok, bind, Except.bind, placed]
    rfl
  · intro image accepted history later directory plan spared spares calls before next
    have placed := ofHeader_of_accept accepted
    have kept : opened.Kept opening.2 := readied ▸ ⟨files ▸ .refl _, origin⟩
    obtain ⟨still, since⟩ := performEach_keeps placed (readied ▸ standing) history
      fun call member => (spared call member).kept kept
    constructor
    · have length := Machine.length_performEach opening.2 image history
      rw [Machine.performEach_append, List.getElem?_append_right (Nat.le_of_eq length), length,
        Nat.sub_self, Machine.performEach_cons]
      rfl
    · intro fresh reads' same spares' afresh single
      obtain ⟨ready', opens', files', standing', origin'⟩ := perform_accept reads'
      have readied' : afresh.2 = ready' := congrArg (·.2) opens'
      have answered' : afresh.1 = _ := congrArg (·.1) opens'
      have kept' : fresh.Kept afresh.2 := readied' ▸ ⟨files' ▸ .refl _, origin'⟩
      have refreshed : afresh.2.files = before.files := readied' ▸ files'.trans same
      obtain ⟨answer, after, after', ran, ran', ended, -⟩ :=
        unpackInto_agree placed ⟨refreshed, still, readied' ▸ standing'⟩
          (spares.kept (kept.trans since)) (spares'.kept kept')
      have next_eq : next = _ := ran
      have single_eq : single = _ := ran'
      rw [next_eq, single_eq]
      exact ⟨answered'.trans (answered.symm.trans accepted), refreshed, rfl, ended.files⟩

/-- An image that is a file of the tree and ends in its kernel, read in single bytes from the middle
of its header on. The first call stops in the kernel and the second one finds no directory. -/
theorem unpackInto_after_failures :
    let plan : Plan := ⟨⟨[97], [98], [99], [100], [101]⟩, "", none⟩
    let data : Array UInt8 := (small.header.encode ++ [7, 8]).toArray
    let files : FileTree := (⟨.empty, [], []⟩ : FileTree).put [[115]] (.file data 420)
    let opened : Machine := { Machine.ofFiles files with
      origin := .stored [[115]]
      reader := { Reader.fresh with position := 700, pace := fun _ => ⟨1, some 0⟩ } }
    ∃ ready before again : Machine,
      opened.perform Image.accept = (.ok small, ready) ∧
      (ready.performEach small [([], plan), ([120], plan)]).2 = before ∧
      { Machine.ofFiles before.files with origin := .memory data }.perform Image.accept =
        (.ok small, again) ∧
      (again.perform (small.unpackInto [] plan)).1 =
        (before.perform (small.unpackInto [] plan)).1 ∧
      (again.perform (small.unpackInto [] plan)).2.files =
        (before.perform (small.unpackInto [] plan)).2.files := by
  intro plan data files opened
  have reads : opened.Reads data := ⟨rfl, rfl, rfl⟩
  obtain ⟨ready, opens⟩ := perform_accept_small reads
  -- Where the files go does not depend on what the image holds.
  have leads : ∀ bytes, ∀ name ∈ ([[97], [98], [99]] : List Bytes),
      ((⟨.empty, [], []⟩ : FileTree).put [[115]] (.file bytes 420)).Leads name [name] := by
    intro bytes name among
    simp only [List.mem_cons, List.not_mem_nil, or_false] at among
    rcases among with rfl | rfl | rfl <;> exact ⟨_, rfl⟩
  have missing : ∀ bytes, ∀ path ∈ ([[120, 47, 97], [120, 47, 98], [120, 47, 99]] : List Path),
      ∀ place,
        ¬ ((⟨.empty, [], []⟩ : FileTree).put [[115]] (.file bytes 420)).Leads path place := by
    rintro bytes path among place ⟨after, made⟩
    simp only [List.mem_cons, List.not_mem_nil, or_false] at among
    rcases among with rfl | rfl | rfl <;> cases made
  have spares : opened.Spares (small.targets [] plan) := by
    intro name among place led same
    cases same
    cases (leads data name among).unique led
    revert among
    decide
  have spares' : opened.Spares (small.targets [120] plan) :=
    fun path among place led => absurd led (missing data path among place)
  have spared : ∀ call ∈ [(([] : Path), plan), ([120], plan)],
      opened.Spares (small.targets call.1 call.2) := by
    intro call among
    rcases List.mem_cons.mp among with rfl | among
    · exact spares
    · cases List.mem_singleton.mp among
      exact spares'
  -- From here on nothing has to look into the image.
  generalize small = image at *
  clear_value opened plan data
  obtain ⟨-, -, agrees⟩ := unpackInto_after_history reads
  rw [opens] at agrees
  obtain ⟨-, same⟩ := agrees image rfl _ [] [] plan spared spares
  obtain ⟨before, stood⟩ :
    ∃ before, (ready.performEach image [([], plan), ([120], plan)]).2 = before := ⟨_, rfl⟩
  rw [stood] at same
  let fresh : Machine := { Machine.ofFiles before.files with origin := .memory data }
  have reads' : fresh.Reads data := ⟨rfl, rfl, rfl⟩
  obtain ⟨reopens, -, answers, effects⟩ := same fresh reads' rfl fun _ _ _ _ => nofun
  rcases reopened : fresh.perform Image.accept with ⟨answer, again⟩
  rw [reopened] at reopens answers effects
  cases reopens
  exact ⟨ready, before, again, opens, stood, reopened, answers, effects⟩

end Image

end BootImage
