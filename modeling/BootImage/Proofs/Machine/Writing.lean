import BootImage.Proofs.Machine.Perform

/-!
Writing to a machine's destination. However a writer paces its calls, `Host.writeAll` hands over all
bytes where there is room for them; otherwise the destination gets what there is room for, and its
refusal is the answer.
-/

namespace BootImage

namespace Writer

/-- How many more bytes a writer takes before it refuses or fails; none when there is no limit. -/
def room (writer : Writer) : Option Nat :=
  match writer.capacity, writer.writeFuse with
  | none, none => none
  | some capacity, none => some (capacity - writer.held.size)
  | none, some fuse => some (fuse.start - writer.held.size)
  | some capacity, some fuse => some (min capacity fuse.start - writer.held.size)

/-- How many of so many bytes a writer takes. -/
def takes (writer : Writer) (count : Nat) : Nat :=
  match writer.room with
  | none => count
  | some room => min count room

/-- What a writer answers when it is offered more than there is room for. A fuse that is no further
than the capacity strikes first. -/
def refusal (writer : Writer) : Failure :=
  match writer.writeFuse with
  | none => .nothingTaken
  | some fuse =>
      match writer.capacity with
      | none => fuse.failure
      | some capacity =>
          if fuse.start - writer.held.size ≤ capacity - writer.held.size then fuse.failure
          else .nothingTaken

/-- A writer that holds more bytes, with the offers that it has seen. -/
def grown (writer : Writer) (bytes : Bytes) (offers : Array Bytes) : Writer :=
  { writer with held := writer.held ++ bytes, offers }

theorem takes_le (writer : Writer) (count : Nat) : writer.takes count ≤ count := by
  unfold takes
  split <;> omega

theorem size_held_grown (writer : Writer) (bytes : Bytes) (offers : Array Bytes) :
    (writer.grown bytes offers).held.size = writer.held.size + bytes.length := by
  rw [← Array.length_toList, grown, Array.toList_appendList, List.length_append,
    Array.length_toList]

theorem grown_grown (writer : Writer) (first second : Bytes) (offers offers' : Array Bytes) :
    (writer.grown first offers).grown second offers' = writer.grown (first ++ second) offers' := by
  have held : writer.held ++ first ++ second = writer.held ++ (first ++ second) :=
    Array.ext' (by simp only [Array.toList_appendList, List.append_assoc])
  simp only [grown, held]

/-- What was taken is taken off what there is room for. -/
theorem room_grown (writer : Writer) (bytes : Bytes) (offers : Array Bytes) :
    (writer.grown bytes offers).room = writer.room.map (· - bytes.length) := by
  have size := size_held_grown writer bytes offers
  unfold room
  rw [size]
  simp only [grown]
  cases writer.capacity <;> cases writer.writeFuse <;> simp only [Option.map, Nat.sub_add_eq]

theorem takes_grown (writer : Writer) (bytes : Bytes) (offers : Array Bytes) (count : Nat) :
    (writer.grown bytes offers).takes (count - bytes.length) =
      writer.takes count - bytes.length := by
  unfold takes
  rw [room_grown]
  cases writer.room with
  | none => rfl
  | some room => exact Nat.sub_min_sub_right ..

/-- Which limit is met first does not change while there is room. -/
theorem refusal_grown {writer : Writer} {bytes : Bytes} {count : Nat}
    (taken : bytes.length ≤ writer.takes count) (offers : Array Bytes) :
    (writer.grown bytes offers).refusal = writer.refusal := by
  have size := size_held_grown writer bytes offers
  unfold refusal
  unfold takes room at taken
  rw [size]
  simp only [grown]
  cases fused : writer.writeFuse with
  | none => rfl
  | some fuse =>
      cases limit : writer.capacity with
      | none => rfl
      | some capacity =>
          simp only [limit, fused] at taken ⊢
          have same : fuse.start - (writer.held.size + bytes.length) ≤
              capacity - (writer.held.size + bytes.length) ↔
              fuse.start - writer.held.size ≤ capacity - writer.held.size := by omega
          simp only [same]

/-- What a turn lets through of what is offered. -/
def turn (writer : Writer) (bytes : Bytes) : Bytes :=
  match writer.pace writer.offers.size with
  | none => bytes
  | some extra => bytes.take (extra + 1)

theorem exists_turn_eq (writer : Writer) (bytes : Bytes) :
    ∃ count, 0 < count ∧ writer.turn bytes = bytes.take count := by
  unfold turn
  split
  · exact ⟨bytes.length + 1, Nat.succ_pos _, (List.take_of_length_le (Nat.le_succ _)).symm⟩
  · exact ⟨_, Nat.succ_pos _, rfl⟩

theorem intake_eq (writer : Writer) (bytes : Bytes) :
    writer.intake bytes =
      match writer.room with
      | none => writer.turn bytes
      | some room => (writer.turn bytes).take room := by
  unfold room
  cases limit : writer.capacity with
  | none =>
      cases fused : writer.writeFuse <;>
        simp only [intake, limit, fused] <;> rfl
  | some capacity =>
      cases fused : writer.writeFuse with
      | none =>
          simp only [intake, limit, fused]
          rfl
      | some fuse =>
          simp only [intake, limit, fused, List.take_take, Nat.sub_min_sub_right]
          rw [Nat.min_comm]
          rfl

/-- A call takes what its turn and the room allow. -/
theorem exists_intake_eq (writer : Writer) (bytes : Bytes) :
    ∃ turn, 0 < turn ∧ writer.intake bytes = bytes.take (min turn (writer.takes bytes.length)) := by
  obtain ⟨count, positive, given⟩ := writer.exists_turn_eq bytes
  refine ⟨count, positive, ?_⟩
  rw [intake_eq, takes, given]
  cases writer.room with
  | none =>
      show bytes.take count = bytes.take (min count bytes.length)
      rw [← List.take_take, List.take_length]
  | some room =>
      show (bytes.take count).take room = bytes.take (min count (min bytes.length room))
      rw [List.take_take, List.take_eq_take_iff]
      omega

/-- There is no room left at a fuse that has struck. -/
theorem takes_eq_zero_of_struck {writer : Writer} {fuse : Fuse}
    (struck : writer.writeFuse.filter (·.start ≤ writer.held.size) = some fuse) (count : Nat) :
    writer.takes count = 0 ∧ writer.refusal = fuse.failure := by
  rw [Option.filter_eq_some_iff] at struck
  obtain ⟨fused, reached⟩ := struck
  have reached : fuse.start ≤ writer.held.size := of_decide_eq_true reached
  unfold takes room refusal
  rw [fused]
  cases limit : writer.capacity with
  | none =>
      simp only [and_true]
      omega
  | some capacity =>
      simp only [ite_eq_left_iff]
      omega

/-- Without a fuse that has struck, it is the capacity that nothing more fits into. -/
theorem refusal_of_full {writer : Writer} {bytes : Bytes} (offered : bytes ≠ [])
    (full : writer.takes bytes.length = 0)
    (free : writer.writeFuse.filter (·.start ≤ writer.held.size) = none) :
    writer.refusal = .nothingTaken := by
  have positive := List.length_pos_iff.mpr offered
  unfold takes room at full
  unfold refusal
  cases fused : writer.writeFuse with
  | none => rfl
  | some fuse =>
      rw [fused] at full free
      simp only [Option.filter_some, decide_eq_true_eq, ite_eq_right_iff, reduceCtorEq,
        imp_false] at free
      cases limit : writer.capacity with
      | none =>
          simp only [limit] at full
          omega
      | some capacity =>
          simp only [limit, ite_eq_right_iff] at full ⊢
          omega

/-- A call takes some of the bytes as long as there is room for any. -/
theorem write_some {writer : Writer} {bytes : Bytes} (fits : 0 < writer.takes bytes.length) :
    ∃ count offers, 0 < count ∧ count ≤ writer.takes bytes.length ∧
      writer.write bytes = (.ok count, writer.grown (bytes.take count) offers) := by
  obtain ⟨turn, positive, taken⟩ := writer.exists_intake_eq bytes
  have bounded := writer.takes_le bytes.length
  refine ⟨min turn (writer.takes bytes.length), writer.offers.push bytes, by omega, by omega, ?_⟩
  have free : writer.writeFuse.filter (·.start ≤ writer.held.size) = none := by
    cases struck : writer.writeFuse.filter (·.start ≤ writer.held.size) with
    | none => rfl
    | some fuse =>
        have full := (takes_eq_zero_of_struck struck bytes.length).1
        omega
  have count : (bytes.take (min turn (writer.takes bytes.length))).length =
      min turn (writer.takes bytes.length) := List.length_take_of_le (by omega)
  rw [write, free, taken, count]
  rfl

/-- A call that there is no room for fails, or takes nothing. -/
theorem write_none {writer : Writer} {bytes : Bytes} (offered : bytes ≠ [])
    (full : writer.takes bytes.length = 0) :
    ∃ offers,
      writer.write bytes = (.error writer.refusal, writer.grown [] offers) ∨
      writer.write bytes = (.ok 0, writer.grown [] offers) ∧ writer.refusal = .nothingTaken := by
  obtain ⟨turn, _, taken⟩ := writer.exists_intake_eq bytes
  refine ⟨writer.offers.push bytes, ?_⟩
  rw [full, Nat.min_zero, List.take_zero] at taken
  cases struck : writer.writeFuse.filter (·.start ≤ writer.held.size) with
  | some fuse =>
      left
      rw [write, struck, (takes_eq_zero_of_struck struck bytes.length).2]
      simp [grown]
  | none =>
      right
      constructor
      · rw [write, struck, taken]
        rfl
      · exact refusal_of_full offered full struck

/-- A writer that refuses a part refuses the whole at the same byte. -/
theorem takes_of_refused {writer : Writer} {part whole : Nat} (refused : writer.takes part < part)
    (larger : part ≤ whole) : writer.takes whole = writer.takes part := by
  unfold takes at refused ⊢
  cases limit : writer.room with
  | none =>
      rw [limit] at refused
      exact absurd refused (Nat.lt_irrefl _)
  | some room =>
      simp only [limit] at refused ⊢
      omega

theorem le_takes_of_taken {writer : Writer} {part whole : Nat} (taken : ¬ writer.takes part < part)
    (larger : part ≤ whole) : part ≤ writer.takes whole := by
  unfold takes at taken ⊢
  cases limit : writer.room with
  | none => exact larger
  | some room =>
      simp only [limit] at taken ⊢
      omega

end Writer

namespace Machine

def withWriter (machine : Machine) (writer : Writer) : Machine :=
  { machine with writer }

theorem perform_write {machine : Machine} {bytes : Bytes} {answer : Except Failure Nat}
    {writer : Writer} (called : machine.writer.write bytes = (answer, writer)) :
    machine.perform (.mk (Host.write bytes)) = (answer, machine.withWriter writer) := by
  have step : machine.perform (.mk (Host.write bytes)) =
      ((machine.writer.write bytes).1, machine.withWriter (machine.writer.write bytes).2) := rfl
  rw [step, called]

/-- However the calls are paced, the writer gets what there is room for, and it refuses exactly
when that is not everything. -/
theorem perform_writeAll (machine : Machine) (bytes : Bytes) :
    ∃ offers, machine.perform (Host.writeAll bytes) =
      (if machine.writer.takes bytes.length < bytes.length then .error machine.writer.refusal
        else .ok (),
        machine.withWriter
          (machine.writer.grown (bytes.take (machine.writer.takes bytes.length)) offers)) := by
  -- A call takes at least one byte as long as there is room, and what it takes is taken off the room.
  induction size : bytes.length using Nat.strongRecOn generalizing machine bytes with
  | ind size ih =>
      subst size
      rw [Host.writeAll]
      by_cases done : bytes = []
      · subst done
        refine ⟨machine.writer.offers, ?_⟩
        have none := machine.writer.takes_le 0
        simp [withWriter, Writer.grown]
      · rw [if_neg done]
        by_cases full : machine.writer.takes bytes.length = 0
        · have asked := List.length_pos_iff.mpr done
          obtain ⟨offers, refused⟩ := Writer.write_none done full
          refine ⟨offers, ?_⟩
          rw [full, if_pos asked, List.take_zero]
          rcases refused with failed | ⟨nothing, refusal⟩
          · exact perform_bind_error (perform_write failed) _
          · rw [perform_bind_ok (perform_write nothing), if_pos rfl, refusal, perform_throw]
        · obtain ⟨count, offers, positive, bounded, called⟩ :=
            Writer.write_some (Nat.pos_of_ne_zero full)
          have inside := machine.writer.takes_le bytes.length
          have given : (bytes.take count).length = count := List.length_take_of_le (by omega)
          have taken : (bytes.take count).length ≤ machine.writer.takes bytes.length := by omega
          have left := machine.writer.takes_grown (bytes.take count) offers bytes.length
          have refusal := Writer.refusal_grown taken offers
          rw [given] at left
          obtain ⟨offers', rest⟩ := ih (bytes.length - count) (by omega)
            (machine.withWriter (machine.writer.grown (bytes.take count) offers))
            (bytes.drop count) List.length_drop
          refine ⟨offers', ?_⟩
          have state : (machine.withWriter (machine.writer.grown (bytes.take count) offers)).writer =
              machine.writer.grown (bytes.take count) offers := rfl
          have parts : bytes.take count ++
              (bytes.drop count).take (machine.writer.takes bytes.length - count) =
              bytes.take (machine.writer.takes bytes.length) := by
            rw [← List.take_add, Nat.add_sub_cancel' bounded]
          have fewer : machine.writer.takes bytes.length - count < bytes.length - count ↔
              machine.writer.takes bytes.length < bytes.length := by omega
          rw [perform_bind_ok (perform_write called), if_neg (Nat.ne_of_gt positive), rest, state,
            left, refusal, Writer.grown_grown, parts]
          simp only [fewer]
          rfl

end Machine

end BootImage
