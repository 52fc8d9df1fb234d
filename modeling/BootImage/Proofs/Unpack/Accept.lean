import BootImage.Proofs.Header.Front
import BootImage.Proofs.Layout
import BootImage.Proofs.Machine.Harmless
import BootImage.Proofs.Unpack.File

/-!
Accepting an image. What is accepted is a header that parses, together with its layout; on a source
without faults nothing but what stands at its start decides.
-/

namespace BootImage

/-- A header that parses can be laid out. -/
theorem Header.exists_layout_of_parse {bytes : Bytes} {header : Header}
    (parsed : Header.parse bytes = .ok header) : ∃ layout, Layout.ofHeader header = .ok layout := by
  obtain ⟨-, -, -, -, -, positive, small⟩ := Header.parse_eq_ok_iff.mp parsed
  exact ⟨_, Layout.ofHeader_eq (acceptPageSize_eq_ok_iff.mpr
    ⟨UInt32.le_iff_toNat_le.mp positive, UInt32.le_iff_toNat_le.mp small, rfl⟩)⟩

/-- What leaves a source where it is leaves it readable. -/
theorem Machine.KeepsUnder.reads {before after : Machine} {data : Array UInt8}
    (kept : before.KeepsUnder after) (reads : before.Reads data) : after.Reads data := by
  refine ⟨?_, kept.readFuse.trans reads.readFuse, kept.seekFuse.trans reads.seekFuse⟩
  rw [content, kept.origin, kept.files]
  exact reads.content

namespace Image

variable {machine : Machine} {data : Array UInt8} {image : Image}

theorem perform_answer {α : Type} (machine : Machine) (answer : Except Stop α) :
    machine.perform (.mk (pure answer) : ExceptT Stop (StateM Machine) α) = (answer, machine) := rfl

/-- Telling of events fails nowhere and touches nothing but the journal. -/
theorem perform_tellAll (machine : Machine) (events : List Event) :
    ∃ journal, machine.perform (Host.tellAll events : ExceptT Stop (StateM Machine) Unit) =
      (.ok (), { machine with journal }) := by
  induction events generalizing machine with
  | nil => exact ⟨machine.journal, rfl⟩
  | cons event rest ih =>
      obtain ⟨journal, told⟩ := ih (machine.record (.event event))
      have first : machine.perform (ExceptT.lift (Host.report event) :
          ExceptT Stop (StateM Machine) Unit) = (.ok (), machine.record (.event event)) := rfl
      exact ⟨journal, (Machine.perform_bind_ok first _).trans told⟩

/-- The layout of an accepted image is the one of its header, on any host. -/
theorem ofHeader_of_accept (accepted : (machine.perform Image.accept).1 = .ok image) :
    Layout.ofHeader image.header = .ok image.layout := by
  rcases ran : machine.perform Image.accept with ⟨answer, after⟩
  rw [ran] at accepted
  cases accepted
  obtain ⟨-, told, -, ran⟩ := Machine.perform_bind_eq_ok ran
  obtain ⟨-, sought, -, ran⟩ := Machine.perform_bind_eq_ok ran
  obtain ⟨header, behind, -, ran⟩ := Machine.perform_bind_eq_ok ran
  obtain ⟨layout, placed, layouted, ran⟩ := Machine.perform_bind_eq_ok ran
  obtain ⟨-, first, -, ran⟩ := Machine.perform_bind_eq_ok ran
  obtain ⟨-, second, -, ran⟩ := Machine.perform_bind_eq_ok ran
  rw [perform_answer] at layouted
  cases ran
  exact congrArg (·.1) layouted

/-- What comes of a source without faults, be it a file or not: what stands at its start decides. -/
theorem answer_accept (calm : machine.reader.readFuse = none)
    (seekable : machine.reader.seekFuse = none) :
    (machine.perform Image.accept).1 = (do
      let header ← machine.content.header.mapError Stop.error
      let layout ← Layout.ofHeader header
      return ⟨header, layout⟩) := by
  obtain ⟨journal, told⟩ := perform_tellAll machine [⟨.info, "Reading header..."⟩]
  let begun : Machine := { machine with journal }
  have told : machine.perform (Host.tell .info "Reading header...") =
      ((.ok () : Except Stop Unit), begun) := told
  have sought : (begun.reader.seek (0 : UInt64).toNat).1 = .ok () := by
    rw [Reader.seek, show begun.reader.seekFuse = none from seekable]
  have rewound := Machine.perform_attempt_eq (Machine.perform_seek sought) .rewindToStart
  have next : ((begun.sought (0 : UInt64).toNat).perform Header.readNext).1 =
      machine.content.header.mapError .error := Header.answer_readNext rfl calm
  rcases read : (begun.sought (0 : UInt64).toNat).perform Header.readNext with ⟨answer, behind⟩
  rw [read] at next
  unfold accept
  rw [Machine.perform_bind_ok told, Machine.perform_bind_ok rewound]
  cases found : machine.content.header with
  | error reason =>
      rw [found] at next
      cases next
      rw [Machine.perform_bind_error read]
      rfl
  | ok header =>
      rw [found] at next
      cases next
      rw [Machine.perform_bind_ok read]
      have answered := perform_answer behind (Layout.ofHeader header)
      cases placed : Layout.ofHeader header with
      | error reason =>
          rw [placed] at answered
          rw [Machine.perform_bind_error answered, mapError_ok]
          simp only [bind, Except.bind, placed]
      | ok layout =>
          rw [placed] at answered
          obtain ⟨journal', first⟩ := perform_tellAll behind layout.events
          obtain ⟨journal'', second⟩ := perform_tellAll { behind with journal := journal' }
            (Image.events ⟨header, layout⟩)
          rw [Machine.perform_bind_ok answered, Machine.perform_bind_ok first,
            Machine.perform_bind_ok second, mapError_ok]
          simp only [bind, Except.bind, placed]
          rfl

/-- What comes of a source without faults, by its first record. -/
theorem perform_accept (reads : machine.Reads data) :
    ∃ after, machine.perform Image.accept =
        ((do
          let header ← (Header.parse (Content.slice data 0 Header.size)).mapError Stop.error
          let layout ← Layout.ofHeader header
          return ⟨header, layout⟩), after) ∧
      after.files = machine.files ∧ after.Reads data ∧ after.origin = machine.origin := by
  have kept := Machine.harmless_accept machine
  have record : machine.content.header = Header.parse (Content.slice data 0 Header.size) := by
    rw [reads.content, Content.slice_eq, List.drop_zero]
    rfl
  rw [← record, ← answer_accept reads.readFuse reads.seekFuse]
  exact ⟨_, rfl, kept.files, kept.reads reads, kept.origin⟩

theorem perform_accept_ok {header : Header} {layout : Layout} (reads : machine.Reads data)
    (parsed : Header.parse (Content.slice data 0 Header.size) = .ok header)
    (placed : Layout.ofHeader header = .ok layout) :
    ∃ after, machine.perform Image.accept = (.ok ⟨header, layout⟩, after) ∧
      after.files = machine.files ∧ after.Reads data := by
  obtain ⟨after, accepted, files, reads', -⟩ := perform_accept reads
  rw [parsed] at accepted
  simp only [mapError_ok, bind, Except.bind, placed] at accepted
  exact ⟨after, accepted, files, reads'⟩

/-- A source that starts with the record of a valid header is accepted. -/
theorem perform_accept_encode {header : Header} {layout : Layout} {rest : Bytes}
    (reads : machine.Reads (header.encode ++ rest).toArray) (valid : header.validate = .ok ())
    (placed : Layout.ofHeader header = .ok layout) :
    ∃ after, machine.perform Image.accept = (.ok ⟨header, layout⟩, after) ∧
      after.files = machine.files ∧ after.Reads (header.encode ++ rest).toArray := by
  have front : Content.slice (header.encode ++ rest).toArray 0 Header.size = header.encode := by
    rw [Content.slice_eq, List.drop_zero, ← header.length_encode, List.take_left]
  have parsed := Header.parse_encode valid
  rw [← front] at parsed
  exact perform_accept_ok reads parsed placed

theorem parse_of_accept (reads : machine.Reads data)
    (accepted : (machine.perform Image.accept).1 = .ok image) :
    Header.parse (Content.slice data 0 Header.size) = .ok image.header := by
  obtain ⟨after, answer, -⟩ := perform_accept reads
  rw [answer] at accepted
  cases parsed : Header.parse (Content.slice data 0 Header.size) with
  | error reason =>
      rw [parsed] at accepted
      cases accepted
  | ok header =>
      rw [parsed] at accepted
      cases placed : Layout.ofHeader header with
      | error reason =>
          simp only [mapError_ok, bind, Except.bind, placed] at accepted
          cases accepted
      | ok layout =>
          simp only [mapError_ok, bind, Except.bind, placed] at accepted
          cases accepted
          rfl

/-! ### A small image -/

/-- The header of a kernel of three bytes and a ramdisk of one, on pages of one byte. -/
def smallHeader : Header :=
  let blank := fun width => (⟨List.replicate width 0, List.length_replicate⟩ : Field width)
  ⟨3, 0, 1, 0, 0, 0, 0, 1, 0, ⟨0⟩, blank 16, blank 512, ⟨blank 32⟩, blank 1024⟩

/-- The kernel lies behind the header and the ramdisk behind the kernel. -/
def small : Image :=
  ⟨smallHeader, 1, ⟨.header, 1632, 0⟩, ⟨.kernel, 3, 1632⟩, ⟨.ramdisk, 1, 1635⟩, ⟨.second, 0, 1636⟩⟩

theorem small_placed : Layout.ofHeader small.header = .ok small.layout := by
  rw [Layout.ofHeader_eq (show acceptPageSize small.header.pageSize = .ok 1 from rfl)]
  exact congrArg Except.ok (by decide)

theorem perform_accept_small {rest : Bytes}
    (reads : machine.Reads (small.header.encode ++ rest).toArray) :
    ∃ after, machine.perform Image.accept = (.ok small, after) := by
  obtain ⟨after, accepted, -⟩ := perform_accept_encode reads rfl small_placed
  exact ⟨after, accepted⟩

end Image

end BootImage
