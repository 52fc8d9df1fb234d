import BootImage.Program
import BootImage.Proofs.FileTree.Directories
import BootImage.Proofs.Script.Reading
import BootImage.Proofs.Unpack.Source

/-!
What a run of the program leaves of its source. Paths are taken as they are given, so a file that is
made can be the source itself, and then the source is lost; in all other runs it is as it was.

* `Program.execute_spares`, `Program.execute_spoils`: the two cases.
* `Program.execute_keeps_source_iff`: they can be told apart by what is left.
-/

namespace BootImage

/-- A script starts with the byte `#`. -/
theorem Script.head?_text (script : Script) : script.text.head? = some 0x23 := by
  have first : Utf8.encode "#!/bin/sh\n" = 0x23 :: Utf8.encode "!/bin/sh\n" := rfl
  rw [text_eq_lines, first, List.cons_append, List.cons_append, List.head?_cons]

/-- What is accepted starts with the byte `A`. -/
theorem Header.head?_of_parse {bytes : Bytes} {header : Header}
    (parsed : parse bytes = .ok header) : bytes.head? = some 0x41 := by
  obtain ⟨-, starts, -⟩ := parse_eq_ok_iff.mp parsed
  have front := congrArg List.head? starts
  rwa [List.head?_take, if_neg (by decide)] at front

namespace Program

open CommandLine (Invocation)
open Machine (Harmless)

variable {arguments : List Bytes} {invocation : Invocation} {machine : Machine} {place : Location}
  {content : Array UInt8} {mode : Nat}

/-- An invocation unpacks its source, and gets as far as making a file at a place. -/
def MakesAt (invocation : Invocation) (machine : Machine) (place : Location) : Prop :=
  invocation.info = false ∧ ∃ opened image ready made,
    machine.openSource invocation.source = (.ok (), opened) ∧
    opened.perform Image.accept = (.ok image, ready) ∧
    ready.makeDirectories invocation.targetDirectory = (.ok (), made) ∧
    image.MakesAt invocation.targetDirectory invocation.plan place image.present made

/-! ### Parts of a run -/

theorem harmless_printResult (text : Except Halt Bytes) :
    Harmless (printResult text : ExceptT Halt (StateM Machine) Unit) := by
  cases text with
  | error halt => exact .throw halt
  | ok text => exact fun _ => ⟨rfl, rfl, rfl, rfl, rfl⟩

def opened (machine : Machine) (place : Location) : Machine :=
  { machine with origin := .stored place, reader := .fresh }

theorem openSource_eq (opens : machine.files.openToRead invocation.source = .ok place) :
    machine.openSource invocation.source = (.ok (), opened machine place) := by
  rw [Machine.openSource, opens]
  rfl

/-- A source that can be opened is looked at, and printed or unpacked when it is accepted. -/
theorem files_run (opens : machine.files.openToRead invocation.source = .ok place) :
    let accepting := (opened machine place).perform Image.accept
    (machine.perform (run invocation)).2.files =
      match accepting.1 with
      | .error _ => machine.files
      | .ok image =>
          if invocation.info then machine.files
          else (accepting.2.perform (extract invocation image)).2.files := by
  intro accepting
  have step : machine.perform (.mk (Host.openSource invocation.source)) =
      (.ok (), opened machine place) := openSource_eq opens
  have files : accepting.2.files = machine.files :=
    (Machine.harmless_accept (opened machine place)).files
  rw [run, Machine.perform_bind_ok (Machine.perform_adapt_eq step _)]
  rcases looked : accepting with ⟨answer, ready⟩
  rw [looked] at files
  cases answer with
  | error reason =>
      rw [Machine.perform_bind_error (Machine.perform_adapt_eq looked _)]
      exact files
  | ok image =>
      rw [Machine.perform_bind_ok (Machine.perform_adapt_eq looked _)]
      cases invocation.info with
      | true => exact (harmless_printResult _ ready).files.trans files
      | false => rfl

/-- Unpacking makes the target directory first, and nothing else when that fails. -/
theorem files_extract (invocation : Invocation) (image : Image) (machine : Machine) :
    let making := machine.makeDirectories invocation.targetDirectory
    (machine.perform (extract invocation image)).2.files =
      match making.1 with
      | .error _ => making.2.files
      | .ok () => (making.2.perform (image.writeSlices invocation.targetDirectory invocation.plan
          image.present)).2.files := by
  intro making
  have step : machine.perform (.mk (Host.makeDirectories invocation.targetDirectory)) = making :=
    rfl
  rcases making with ⟨answer, made⟩
  rw [extract]
  cases answer with
  | error failure => rw [Machine.perform_bind_error (Machine.perform_adapt_eq step _)]
  | ok =>
      rw [Machine.perform_bind_ok (Machine.perform_adapt_eq step _)]
      have unpacked :=
        Image.perform_unpackInto made image invocation.targetDirectory invocation.plan
      rcases wrote : made.perform (image.writeSlices invocation.targetDirectory invocation.plan
        image.present) with ⟨answer, after⟩
      rw [wrote] at unpacked
      cases answer with
      | error reason => rw [Machine.perform_bind_error (Machine.perform_adapt_eq unpacked _)]
      | ok written =>
          rw [Machine.perform_bind_ok (Machine.perform_adapt_eq unpacked _)]
          exact (Machine.harmless_tell _ _ after).files

/-- Directories are made in the tree of a machine, where nothing is. -/
theorem branched_makeDirectories (machine : Machine) (path : Path) :
    machine.files.Branched (machine.makeDirectories path).2.files :=
  machine.files.branched_makeDirectories path

theorem machine_execute (parsed : CommandLine.parse arguments = .ok invocation)
    (machine : Machine) :
    (execute arguments machine).machine = (machine.perform (run invocation)).2 := by
  rw [execute, parsed]
  rfl

/-! ### A small image in the working directory -/

def smallData : Array UInt8 :=
  (Image.small.header.encode ++ [7, 8, 9, 5]).toArray

/-- Nothing but a small image, in a file of a name. -/
def besides (name : Bytes) : Machine :=
  .ofFiles ((⟨.empty, [], []⟩ : FileTree).put [name] (.file smallData Node.plainMode))

theorem node?_besides (name : Bytes) :
    (besides name).files.node? [name] = some (.file smallData Node.plainMode) := by
  rw [besides, Machine.ofFiles, FileTree.node?_put _ (List.cons_ne_nil _ _), if_pos rfl]

/-- The image is accepted, and the directory that it lies in is there. -/
theorem perform_accept_besides (name : Bytes) :
    ∃ ready, (opened (besides name) [name]).perform Image.accept = (.ok Image.small, ready) ∧
      ready.makeDirectories Path.dot = (.ok (), ready) ∧ ready.files = (besides name).files := by
  have reads : (opened (besides name) [name]).Reads smallData :=
    ⟨FileTree.contentAt_of_file (node?_besides name), rfl, rfl⟩
  obtain ⟨ready, accepted⟩ := Image.perform_accept_small reads
  have files := (Machine.harmless_accept (opened (besides name) [name])).files
  rw [accepted] at files
  refine ⟨ready, accepted, ?_, files⟩
  have there : ready.files.node? ready.files.workingDirectory = some .directory := by
    rw [files]
    rfl
  rw [Machine.makeDirectories, FileTree.makeDirectories_dot there]

/-- Every slice has a file in the working directory, the image itself for one of its own name. -/
theorem takes_besides (name : Bytes) (slice : Slice) :
    (besides name).files.Takes [FileNames.standard.ofSlice slice] := by
  have held := FileTree.node?_put (⟨.empty, [], []⟩ : FileTree) (List.cons_ne_nil name [])
    (.file smallData Node.plainMode) [FileNames.standard.ofSlice slice]
  refine ⟨List.cons_ne_nil _ _, ?_⟩
  by_cases same : [name] = [FileNames.standard.ofSlice slice]
  · rw [if_pos same] at held
    exact .inl ⟨_, _, held⟩
  · rw [if_neg same] at held
    exact .inr ⟨held.trans rfl, List.not_mem_nil⟩

theorem leads_besides (name : Bytes) (slice : Slice) :
    (besides name).files.Leads (Plan.standard.target Path.dot slice)
      [FileNames.standard.ofSlice slice] := by
  have plain : ∀ slice, Path.slash ∉ FileNames.standard.ofSlice slice ∧
      0 ∉ FileNames.standard.ofSlice slice ∧
      FileNames.standard.ofSlice slice ∉ [[], Path.dot, Path.dotDot] ∧
      (FileNames.standard.ofSlice slice).length ≤ FileTree.maxName := by
    intro slice
    cases slice <;> decide +kernel
  obtain ⟨bare, noNul, step, short⟩ := plain slice
  exact FileTree.leads_dot_join bare noNul step short (takes_besides name slice)

/-! ### Whole runs -/

/-- A run that makes no file at the place of its source leaves the file that is there. -/
theorem execute_spares (parsed : CommandLine.parse arguments = .ok invocation)
    (opens : machine.files.openToRead invocation.source = .ok place)
    (file : machine.files.node? place = some (.file content mode))
    (elsewhere : ¬ MakesAt invocation machine place) :
    (execute arguments machine).machine.files.node? place = some (.file content mode) := by
  have kept := Machine.harmless_accept (opened machine place)
  rw [machine_execute parsed, files_run opens]
  rcases looked : (opened machine place).perform Image.accept with ⟨answer, ready⟩
  rw [looked] at kept
  cases answer with
  | error reason => exact file
  | ok image =>
      cases info : invocation.info with
      | true => exact file
      | false =>
          have branched := branched_makeDirectories ready invocation.targetDirectory
          have extracted := files_extract invocation image ready
          rcases making : ready.makeDirectories invocation.targetDirectory with ⟨answer, made⟩
          rw [making] at branched extracted
          have there : made.files.node? place = some (.file content mode) :=
            branched.node?_eq_some (kept.files ▸ file)
          simp only [Bool.false_eq_true, if_false]
          rw [extracted]
          cases answer with
          | error failure => exact there
          | ok =>
              have free := fun makes => elsewhere
                ⟨info, _, image, ready, made, openSource_eq opens, looked, making, makes⟩
              exact (Image.writeSlices_spares (fun _ member => member) free).trans there

/-- A run that makes a file at the place of its source leaves a script there, or nothing. -/
theorem execute_spoils (parsed : CommandLine.parse arguments = .ok invocation)
    (opens : machine.files.openToRead invocation.source = .ok place)
    (file : machine.files.node? place = some (.file content mode))
    (makes : MakesAt invocation machine place) :
    ∃ image : Image, Header.parse (content.toList.take 1632) = .ok image.header ∧
      (execute arguments machine).machine.files.Spoiled (image.script invocation.plan).text
        place := by
  obtain ⟨info, _, image, ready, made, opening, looked, making, makes⟩ := makes
  cases (openSource_eq opens).symm.trans opening
  have reads : (opened machine place).Reads content :=
    ⟨FileTree.contentAt_of_file file, rfl, rfl⟩
  have accepted := congrArg Prod.fst looked
  have kept := Machine.harmless_accept (opened machine place)
  have branched := branched_makeDirectories ready invocation.targetDirectory
  rw [looked] at kept
  have reads' : (ready.makeDirectories invocation.targetDirectory).2.ReadsFrom place :=
    ⟨kept.origin, kept.readFuse, kept.seekFuse,
      content, mode, branched.node?_eq_some (kept.files ▸ file)⟩
  rw [making] at reads'
  refine ⟨image, ?_, ?_⟩
  · have parses := Image.parse_of_accept reads accepted
    rwa [Content.slice_eq, List.drop_zero] at parses
  · have extracted := files_extract invocation image ready
    rw [machine_execute parsed, files_run opens, looked]
    simp only [info, Bool.false_eq_true, if_false]
    rw [extracted, making]
    exact Image.writeSlices_spoils (Image.ofHeader_of_accept accepted) (fun _ member => member)
      reads' makes

/-- What is left behind such a run are not the bytes of an image. -/
theorem execute_loses (parsed : CommandLine.parse arguments = .ok invocation)
    (opens : machine.files.openToRead invocation.source = .ok place)
    (file : machine.files.node? place = some (.file content mode))
    (makes : MakesAt invocation machine place) :
    (execute arguments machine).machine.files.contentAt place ≠ .bytes content := by
  intro same
  obtain ⟨image, accepted, left, mode, spoiled, either⟩ := execute_spoils parsed opens file makes
  have begins : content.toList.head? = some 0x41 := by
    have front := Header.head?_of_parse accepted
    rwa [List.head?_take, if_neg (by decide)] at front
  rw [FileTree.contentAt_of_file spoiled] at same
  cases same
  rcases either with rfl | rfl
  · rw [Script.head?_text] at begins
    exact absurd begins (by decide)
  · cases begins

/-- **A source is lost exactly where a file is made in its place.** Whatever is asked for, and
whether the run succeeds or fails anywhere, the file that is opened as the source holds the same
bytes afterwards, unless the run unpacks and gets as far as making a file at that place: then it
holds something else. -/
theorem execute_keeps_source_iff (parsed : CommandLine.parse arguments = .ok invocation)
    (opens : machine.files.openToRead invocation.source = .ok place)
    (file : machine.files.node? place = some (.file content mode)) :
    (execute arguments machine).machine.files.contentAt place = .bytes content ↔
      ¬ MakesAt invocation machine place := by
  constructor
  · intro same makes
    exact execute_loses parsed opens file makes same
  · intro elsewhere
    exact FileTree.contentAt_of_file (execute_spares parsed opens file elsewhere)

/-- A source with a name of its own is kept, and the files are written beside it. -/
theorem execute_keeps_boot_image :
    let name := Utf8.encode "boot.img"
    let arguments := [Utf8.encode "--src", name]
    (execute arguments (besides name)).machine.files.contentAt [name] = .bytes smallData := by
  intro name arguments
  let invocation : Invocation := ⟨name, none, false, false, false, .info, Plan.standard⟩
  have parsed : CommandLine.parse arguments = .ok invocation := by decide +kernel
  have opens : (besides name).files.openToRead invocation.source = .ok [name] := by rfl
  refine (execute_keeps_source_iff parsed opens (node?_besides name)).mpr ?_
  rintro ⟨-, _, image, ready, made, opening, looked, making, makes⟩
  obtain ⟨ready, accepted, stands, files⟩ := perform_accept_besides name
  have here : invocation.targetDirectory = Path.dot := by decide +kernel
  cases (openSource_eq opens).symm.trans opening
  cases accepted.symm.trans looked
  rw [here] at making makes
  cases stands.symm.trans making
  obtain ⟨extent, -, leads⟩ := makes.exists_leads
  rw [files] at leads
  have other : ∀ slice, [name] ≠ [FileNames.standard.ofSlice slice] := by
    intro slice
    cases slice <;> decide +kernel
  exact other _ (leads.unique (leads_besides name extent.slice))

/-- The source is lost when it has the name of the kernel: the script is written first, and then
the kernel is to be read from the file that was emptied for it. -/
theorem execute_loses_kernel :
    let name := Utf8.encode "kernel.img"
    let arguments := [Utf8.encode "--src", name]
    ∃ invocation, CommandLine.parse arguments = .ok invocation ∧
      (besides name).files.openToRead invocation.source = .ok [name] ∧
      (besides name).files.node? [name] = some (.file smallData Node.plainMode) ∧
      (execute arguments (besides name)).machine.files.contentAt [name] ≠ .bytes smallData := by
  intro name arguments
  let invocation : Invocation := ⟨name, none, false, false, false, .info, Plan.standard⟩
  have parsed : CommandLine.parse arguments = .ok invocation := by decide +kernel
  have opens : (besides name).files.openToRead invocation.source = .ok [name] := by rfl
  refine ⟨invocation, parsed, opens, node?_besides name,
    execute_loses parsed opens (node?_besides name) ?_⟩
  obtain ⟨ready, accepted, stands, files⟩ := perform_accept_besides name
  have here : invocation.targetDirectory = Path.dot := by decide +kernel
  refine ⟨rfl, _, Image.small, ready, ready, openSource_eq opens, accepted, here.symm ▸ stands, ?_⟩
  rw [here]
  have leads : ∀ slice, ready.files.Leads (Plan.standard.target Path.dot slice)
      [FileNames.standard.ofSlice slice] := fun slice => files ▸ leads_besides name slice
  let script : Extent := ⟨.header, 1632, 0⟩
  let told := Image.announced Plan.standard Path.dot ready script
  obtain ⟨tree, made⟩ : ∃ tree, told.files.create (Plan.standard.target Path.dot .header) =
    .ok (tree, [FileNames.standard.ofSlice .header]) := leads .header
  have takes : told.files.Takes [FileNames.standard.ofSlice .header] :=
    files ▸ takes_besides name .header
  obtain ⟨after, wrote, -⟩ : ∃ after, told.perform (Image.small.writeSlice Plan.standard
      (Plan.standard.target Path.dot .header) script) = (.ok (), after) ∧ _ :=
    Image.perform_writeSlice_header rfl made (FileTree.node?_of_create made takes)
  have refiled := Image.writeSlice_refiles told Image.small Plan.standard
    (Plan.standard.target Path.dot .header) script
  rw [wrote] at refiled
  have present : Image.small.present = [script, ⟨.kernel, 3, 1632⟩, ⟨.ramdisk, 1, 1635⟩] := by
    decide
  rw [present]
  exact .later wrote (.now (refiled.leads_iff.mpr (leads .kernel)))

end Program

end BootImage
