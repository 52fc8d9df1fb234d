import BootImage.Proofs.Header.Records

/-!
What stands at the start of a source, be it a file, a directory or a device: the first bytes, as
many as there are of those that are asked for, or the failure that reading meets. Zeros without end
are read like bytes, whatever a single call gives of them.

* `Machine.answer_readUpTo`: a reader at the start gives what stands there.
* `Header.answer_readNext`: a header is parsed from it.
-/

namespace BootImage

namespace Content

/-- The first bytes, at most `count`, or why they cannot be read. -/
def front : Content → Nat → Except Failure Bytes
  | .bytes data, count => .ok (data.toList.take count)
  | .zeros, count => .ok (List.replicate count 0)
  | .unreadable failure, _ => .error failure

/-- The header at the start, or why there is none. -/
def header (content : Content) : Except Error Header := do
  let bytes ← (content.front Header.size).mapError (.failed .readHeader)
  Header.parse bytes

end Content

namespace Reader

/-- A call gives some of the zeros that are asked for, interrupted or not. -/
theorem read_zeros {reader : Reader} (calm : reader.readFuse = none) {wanted : Nat}
    (asked : 0 < wanted) :
    ∃ count served waiting, 0 < count ∧ count ≤ wanted ∧
      reader.read .zeros wanted = (.ok (List.replicate count 0),
        reader.goneTo (reader.position + count) served waiting) := by
  have calm' : reader.ready.readFuse = none := calm
  obtain ⟨count, positive, bounded, given⟩ := reader.ready.exists_allowance_eq asked
  simp only [calm'] at given
  have serve : reader.ready.serve .zeros wanted =
      (.ok (List.replicate count 0), reader.ready.moved count) := by
    rw [Reader.serve, calm', Option.filter_none, given]
  obtain ⟨served, waiting, called⟩ := reader.exists_read_eq .zeros wanted serve
  exact ⟨count, served, waiting, positive, bounded, called⟩

/-- What cannot be read answers every call with its failure. -/
theorem read_unreadable {reader : Reader} (calm : reader.readFuse = none) (failure : Failure)
    (wanted : Nat) :
    ∃ served waiting, reader.read (.unreadable failure) wanted =
      (.error failure, reader.goneTo reader.position served waiting) := by
  have calm' : reader.ready.readFuse = none := calm
  have serve : reader.ready.serve (.unreadable failure) wanted =
      (.error failure, reader.ready.moved 0) := by
    rw [Reader.serve, calm', Option.filter_none]
  exact reader.exists_read_eq _ wanted serve

end Reader

namespace Machine

variable {machine : Machine}

/-- Zeros do not run out, so there are as many as are asked for. -/
theorem answer_readChunks_zeros (source : machine.content = .zeros)
    (calm : machine.reader.readFuse = none) (wanted : Nat) (chunks : List Bytes) :
    (machine.perform (Host.readChunks wanted chunks)).1 =
      .ok (chunks.reverse.flatten ++ List.replicate wanted 0) := by
  induction wanted using Nat.strongRecOn generalizing machine chunks with
  | ind wanted ih =>
      rw [Host.readChunks]
      by_cases done : wanted = 0
      · subst done
        simp
      · rw [if_neg done]
        obtain ⟨count, served, waiting, positive, bounded, called⟩ :=
          Reader.read_zeros calm (Nat.pos_of_ne_zero done)
        let after := machine.withReader
          (machine.reader.goneTo (machine.reader.position + count) served waiting)
        have unchanged : after.content = .zeros := source
        have calm' : after.reader.readFuse = none := calm
        have some : (List.replicate count 0 : Bytes) ≠ [] := by
          rw [ne_eq, List.replicate_eq_nil_iff]
          omega
        have whole : (List.replicate count 0 : Bytes) ++ List.replicate (wanted - count) 0 =
            List.replicate wanted 0 := by
          rw [List.replicate_append_replicate, Nat.add_sub_cancel' bounded]
        rw [perform_bind_ok (perform_read source called), if_neg some, List.length_replicate,
          ih (wanted - count) (by omega) unchanged calm', List.reverse_cons, List.flatten_append,
          List.flatten_singleton, List.append_assoc, whole]

/-- A reader at the start of a source gives what stands there. -/
theorem answer_readUpTo (start : machine.reader.position = 0)
    (calm : machine.reader.readFuse = none) {wanted : Nat} (asked : 0 < wanted) :
    (machine.perform (Host.readUpTo wanted)).1 = machine.content.front wanted := by
  cases source : machine.content with
  | bytes data =>
      obtain ⟨served, waiting, read⟩ := perform_readUpTo source wanted
      rw [read, Reader.supply_eq _ asked, Reader.strikeWithin_of_calm calm, start]
      simp only [Content.front, Content.slice_eq, List.drop_zero]
  | zeros => exact answer_readChunks_zeros source calm wanted []
  | unreadable failure =>
      obtain ⟨served, waiting, called⟩ := Reader.read_unreadable calm failure wanted
      rw [Host.readUpTo, Host.readChunks, if_neg (Nat.ne_of_gt asked),
        perform_bind_error (perform_read source called)]
      rfl

end Machine

/-- A header that is read at the start of a source is the one that stands there. -/
theorem Header.answer_readNext {machine : Machine} (start : machine.reader.position = 0)
    (calm : machine.reader.readFuse = none) :
    (machine.perform Header.readNext).1 = machine.content.header.mapError .error := by
  have answer := Machine.answer_readUpTo start calm (show 0 < size by decide)
  have read : machine.perform (Host.readUpTo size) =
      (machine.content.front size, (machine.perform (Host.readUpTo size)).2) := Prod.ext answer rfl
  rw [Content.header, readNext]
  cases given : machine.content.front size with
  | error failure =>
      rw [given] at read
      rw [Machine.perform_bind_error (Machine.perform_attempt_eq read _)]
      rfl
  | ok bytes =>
      rw [given] at read
      rw [Machine.perform_bind_ok (Machine.perform_attempt_eq read _)]
      rfl

end BootImage
