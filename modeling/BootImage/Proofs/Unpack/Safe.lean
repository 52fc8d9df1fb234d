import BootImage.Proofs.Host.Always
import BootImage.Proofs.Unpack.Accept

/-!
Unpacking never faults. Whatever a source holds and whatever its surroundings answer, an image is
accepted or refused for a reason, and unpacking one gives a report or says what failed underneath;
no sum leaves its width, nothing is divided by zero, and no block is too large to be held.

* `copyRange_ends`: a copy, in blocks of any size but zero.
* `Image.Sound`, `Image.accept_ends`: what is known of every image that is accepted.
* `Image.session_never_faults`: opening an image and unpacking it again and again.
-/

namespace BootImage

/-- The surroundings have failed: reading, writing, seeking, the end of the source, or a file that
cannot be made. -/
def Stop.Outside : Stop → Prop
  | .error (.failed ..) | .error (.inputEnds ..) | .error (.cannotCreate ..) => True
  | _ => False

/-- A stop with a reason that can be told, and not a fault. -/
def Stop.Stated (stop : Stop) : Prop :=
  ∃ error, stop = .error error

section Work

variable {m : Type → Type} [Host m] [LawfulMonad m] {α : Type} {path : Path}

theorem attempt_ends {reason : Stop → Prop} {activity : Activity}
    (operation : ExceptT Failure m α)
    (failed : ∀ failure, reason (.error (.failed activity failure))) :
    Ends (fun _ => True) reason (attempt activity operation) :=
  (Ends.any operation).adapt fun failure _ => failed failure

theorem tellAll_ends {reason : Stop → Prop} (events : List Event) :
    Ends (fun _ => True) reason (Host.tellAll events : ExceptT Stop m Unit) := by
  induction events with
  | nil => exact .pure trivial
  | cons event rest ih => exact (Ends.lift _).bind fun _ _ => ih

/-- A block that cannot be read is told of by its place, which fits in a word. -/
theorem readStop_outside {offset copied : Nat} (fits : offset + copied < 2 ^ 64)
    (failure : Failure) : (readStop offset copied failure).Outside := by
  unfold readStop
  split
  · rw [Checked.fits, if_pos (show offset + copied < UInt64.size from fits)]
    trivial
  · trivial

theorem copyBlocks_ends (block : Nat) {offset copied left : Nat}
    (fits : offset + copied + left < 2 ^ 64) :
    Ends (fun _ => True) Stop.Outside
      (copyBlocks block offset copied left : ExceptT Stop m Unit) := by
  induction left using Nat.strongRecOn generalizing copied with
  | ind left ih =>
      rw [copyBlocks]
      split
      · exact .pure trivial
      · rename_i more
        have read : Ends (fun _ => True) Stop.Outside
            ((Host.readExact (min block left) : ExceptT Failure m Bytes).adapt
              (readStop offset copied)) :=
          (Ends.any _).adapt fun failure _ => readStop_outside (by omega) failure
        refine read.bind fun bytes _ => (attempt_ends _ fun _ => trivial).bind fun _ _ => ?_
        exact ih _ (by omega) (by omega)

theorem copyRange_ends {blockSize offset count : UInt64} (nonzero : blockSize ≠ 0)
    (fits : offset.toNat + count.toNat < 2 ^ 64)
    (allocatable : min blockSize.toNat count.toNat ≤ maxBlock) :
    Ends (fun _ => True) Stop.Outside
      (copyRange blockSize offset count : ExceptT Stop m Unit) := by
  rw [copyRange, if_neg nonzero]
  refine (attempt_ends _ fun _ => trivial).bind fun _ _ => ?_
  simp only [if_neg (Nat.not_lt.mpr allocatable)]
  refine (copyBlocks_ends _ fits).bind fun _ _ => ?_
  exact (attempt_ends _ fun _ => trivial).bind fun _ _ => tellAll_ends _

/-- Work on a file stops as the work does, or because the file cannot be made. -/
theorem withFile_ends {work : ExceptT Stop m Unit}
    (ends : Ends (fun _ => True) Stop.Outside work) :
    Ends (fun _ => True) Stop.Outside (withFile path work) := by
  have made : Ends (fun _ => True) Stop.Outside
      ((ExceptT.mk (Host.create path) : ExceptT Failure m Unit).adapt fun failure =>
        .error (.cannotCreate path failure)) := (Ends.any _).adapt fun _ _ => trivial
  refine made.bind fun _ _ => Always.bind ends fun outcome holds => ?_
  exact (Always.of_forall (fun _ => trivial) Host.close).bind fun _ _ => .pure holds

theorem saveScript_ends (path : Path) (script : Bytes) :
    Ends (fun _ => True) Stop.Outside (saveScript path script : ExceptT Stop m Unit) := by
  refine withFile_ends ((attempt_ends _ fun _ => trivial).bind fun _ _ => ?_)
  refine (Ends.lift Host.markExecutable).bind fun changed _ => ?_
  cases changed with
  | ok => exact .pure trivial
  | error failure => exact tellAll_ends _

end Work

/-! ### Images -/

namespace Image

/-- What can be computed of an image without a fault: where its slices and where the image itself
end, the texts of its header and the year of its patches; and whatever block size is asked for, no
block of it is larger than a word can say. -/
structure Sound (image : Image) : Prop where
  placed : Layout.ofHeader image.header = .ok image.layout
  stops : ∀ extent ∈ image.layout.extents.toList, ∃ place, extent.stop = .ok place
  ends : ∃ place, image.layout.imageEnd = .ok place
  block : ∀ plan, ∀ extent ∈ image.layout.extents.toList,
    min (image.blockSize plan).toNat extent.size.toNat < 2 ^ 32
  board : image.header.board <+: image.header.boardName.bytes
  commandLine : ∃ first second, image.header.commandLine = first ++ second ∧
    first <+: image.header.cmdline.bytes ∧ second <+: image.header.extraCmdline.bytes
  year : image.header.osRelease.patchLevel.year < 2 ^ 16

theorem sound_of_placed {image : Image}
    (placed : Layout.ofHeader image.header = .ok image.layout) : image.Sound where
  placed := placed
  stops := by
    intro extent among
    obtain ⟨size, offset⟩ := extent_bounds placed among
    exact ⟨_, Checked.add64_eq (by unfold UInt64.size; omega)⟩
  ends := ⟨_, Header.imageEnd_eq placed⟩
  block := by
    intro plan extent among
    obtain ⟨size, -⟩ := extent_bounds placed among
    omega
  board := List.takeWhile_prefix _
  commandLine := ⟨_, _, rfl, List.takeWhile_prefix _, List.takeWhile_prefix _⟩
  year := by
    have offset := image.header.osRelease.patchLevel.yearOffset.toNat_lt
    unfold PatchLevel.year
    omega

variable {m : Type → Type} [Host m] [LawfulMonad m] {image : Image} {plan : Plan}
  {directory path : Path} {extent : Extent} {extents : List Extent}

theorem writeSlice_ends (sound : image.Sound) (among : extent ∈ image.layout.extents.toList) :
    Ends (fun _ => True) Stop.Outside
      (image.writeSlice plan path extent : ExceptT Stop m Unit) := by
  obtain ⟨size, offset⟩ := extent_bounds sound.placed among
  have copied : Ends (fun _ => True) Stop.Outside (withFile path
      (copyRange (image.blockSize plan) extent.offset extent.size) : ExceptT Stop m Unit) :=
    withFile_ends (copyRange_ends (blockSize_ne_zero sound.placed plan) (by omega)
      (by unfold maxBlock; omega))
  unfold writeSlice
  cases extent.slice with
  | header => exact saveScript_ends _ _
  | kernel => exact copied
  | ramdisk => exact copied
  | second => exact copied

theorem writeSlices_ends (sound : image.Sound)
    (among : ∀ extent ∈ extents, extent ∈ image.layout.extents.toList) :
    Ends (fun _ => True) Stop.Outside
      (image.writeSlices directory plan extents : ExceptT Stop m (List (Slice × Path))) := by
  induction extents with
  | nil => exact .pure trivial
  | cons extent rest ih =>
      have others := ih fun other member => among other (List.mem_cons_of_mem _ member)
      rw [writeSlices]
      split
      · refine (tellAll_ends _).bind fun _ _ => ?_
        refine (writeSlice_ends sound (among extent List.mem_cons_self)).bind fun _ _ => ?_
        exact others.bind fun _ _ => .pure trivial
      · exact others

theorem unpackInto_ends (sound : image.Sound) :
    Ends (fun _ => True) Stop.Outside
      (image.unpackInto directory plan : ExceptT Stop m Manifest) :=
  (writeSlices_ends sound fun _ member => member).bind fun _ _ => .pure trivial

/-- Every call is answered, with a report or with what has failed outside. -/
theorem unpackEach_always (sound : image.Sound) (calls : List (Path × Plan)) :
    Always (fun answers => answers.length = calls.length ∧
        ∀ answer ∈ answers, ∀ reason, answer = .error reason → reason.Outside)
      (image.unpackEach calls : m (List (Except Stop Manifest))) := by
  induction calls with
  | nil => exact .pure ⟨rfl, fun _ => nofun⟩
  | cons call rest ih =>
      refine Always.bind (unpackInto_ends sound) fun answer ends => ih.bind fun answers held => ?_
      refine .pure ⟨congrArg (· + 1) held.1, ?_⟩
      intro given among reason stopped
      rcases List.mem_cons.mp among with rfl | behind
      · subst stopped
        exact ends
      · exact held.2 given behind reason stopped

/-- A header that is read can be laid out, and one that is not is refused for a reason. -/
theorem readNext_ends :
    Ends (fun header => ∃ layout, Layout.ofHeader header = .ok layout) Stop.Stated
      (Header.readNext : ExceptT Stop m Header) := by
  refine (attempt_ends _ fun _ => ⟨_, rfl⟩).bind fun bytes _ => Always.pure ?_
  cases parsed : Header.parse bytes with
  | error reason => exact ⟨reason, rfl⟩
  | ok header => exact Header.exists_layout_of_parse parsed

theorem accept_ends : Ends Sound Stop.Stated (accept : ExceptT Stop m Image) := by
  refine (tellAll_ends _).bind fun _ _ => (attempt_ends _ fun _ => ⟨_, rfl⟩).bind fun _ _ => ?_
  refine readNext_ends.bind fun header known => ?_
  obtain ⟨layout, placed⟩ := known
  have laid : Ends (fun found => found = layout) Stop.Stated
      (.mk (pure (Layout.ofHeader header)) : ExceptT Stop m Layout) := by
    refine Always.pure ?_
    rw [placed]
  refine laid.bind fun found same => (tellAll_ends _).bind fun _ _ => ?_
  subst same
  exact (tellAll_ends _).bind fun _ _ => .pure (sound_of_placed placed)

/-- What a session gives: an image that is sound and as many answers as there are calls, each a
report or a failure outside. -/
def Answered (calls : List (Path × Plan)) (outcome : Image × List (Except Stop Manifest)) : Prop :=
  outcome.1.Sound ∧ outcome.2.length = calls.length ∧
    ∀ answer ∈ outcome.2, ∀ reason, answer = .error reason → reason.Outside

theorem session_ends (calls : List (Path × Plan)) :
    Ends (Answered calls) Stop.Stated (session calls : ExceptT Stop m _) := by
  refine accept_ends.bind fun image sound => ?_
  have answered : Ends (fun answers => Answered calls (image, answers)) Stop.Stated
      (ExceptT.lift (image.unpackEach calls : m (List (Except Stop Manifest)))) :=
    Always.map (unpackEach_always sound calls) fun _ held => ⟨sound, held⟩
  exact answered.bind fun answers held => .pure held

/-- **No image brings about a fault.** Whatever bytes a source gives, whatever fails around it and
however often the image is unpacked, with any names and any block size: opening it gives an image
that is sound or a reason against it, and each call gives a report, or tells of reading, writing,
the end of the source or a file that cannot be made. This is so on every host, and so on every
machine with its source, its file tree and their faults. -/
theorem session_never_faults (calls : List (Path × Plan)) :
    (∀ (m : Type → Type) [Host m] [LawfulMonad m],
      Ends (Answered calls) Stop.Stated (session calls : ExceptT Stop m _)) ∧
    ∀ machine : Machine,
      (∀ outcome, (machine.perform (session calls)).1 = .ok outcome → Answered calls outcome) ∧
      ∀ reason, (machine.perform (session calls)).1 = .error reason →
        ∃ error, reason = .error error := by
  refine ⟨fun m _ _ => session_ends calls, fun machine => ?_⟩
  have held := always_iff_run.mp (session_ends calls) machine
  constructor
  · intro outcome opened
    have answer : ((session calls : ExceptT Stop (StateM Machine) _).run.run machine).1 = _ :=
      opened
    rw [answer] at held
    exact held
  · intro reason refused
    have answer : ((session calls : ExceptT Stop (StateM Machine) _).run.run machine).1 = _ :=
      refused
    rw [answer] at held
    exact held

/-- An image that ends in its kernel, first with the largest block size there is and then into a
directory that does not exist. -/
theorem session_with_largest_block :
    let names : FileNames := ⟨[97], [98], [99], [100], [101]⟩
    let largest : BlockSize := ⟨0xFFFFFFFFFFFFFFFF, by decide⟩
    let calls : List (Path × Plan) := [([], ⟨names, "", some largest⟩), ([120], ⟨names, "", none⟩)]
    let data : Array UInt8 := (small.header.encode ++ [7, 8]).toArray
    let machine : Machine := { Machine.ofFiles ⟨.empty, [], []⟩ with origin := .memory data }
    ∃ answers, (machine.perform (session calls)).1 = .ok (small, answers) ∧ small.Sound ∧
      answers.length = 2 ∧
      ∀ answer ∈ answers, ∀ reason, answer = .error reason → reason.Outside := by
  intro names largest calls data machine
  have reads : machine.Reads data := ⟨rfl, rfl, rfl⟩
  obtain ⟨ready, opens⟩ := perform_accept_small reads
  obtain ⟨answers, gives⟩ : ∃ answers,
      (machine.perform (session calls)).1 = .ok (small, answers) := by
    rw [session, Machine.perform_bind_ok opens]
    exact ⟨_, rfl⟩
  exact ⟨answers, gives, ((session_never_faults calls).2 machine).1 _ gives⟩

end Image

end BootImage
