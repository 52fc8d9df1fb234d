import BootImage.Proofs.Machine.Writing
import BootImage.Script

/-!
A script on its way to a destination that may refuse it. The script is written in many pieces, but
the destination cannot tell: it gets the front of the whole text that it has room for, and its own
refusal is the answer exactly when that is not everything.

* `Machine.perform_forM_writeAll`: several writes one behind the other are as one.
* `Script.writeTo_fills_room`: what that means for a script.
-/

namespace BootImage

/-- However the calls are paced, several writes one behind the other give the destination what one
write of everything would, and nothing is offered behind a refusal. -/
theorem Machine.perform_forM_writeAll (machine : Machine) (pieces : List Bytes) :
    ∃ offers, machine.perform (pieces.forM Host.writeAll) =
      (if machine.writer.takes pieces.flatten.length < pieces.flatten.length then
          .error machine.writer.refusal
        else .ok (),
        machine.withWriter (machine.writer.grown
          (pieces.flatten.take (machine.writer.takes pieces.flatten.length)) offers)) := by
  induction pieces generalizing machine with
  | nil =>
      have none := machine.writer.takes_le 0
      refine ⟨machine.writer.offers, ?_⟩
      simp [withWriter, Writer.grown]
  | cons piece rest ih =>
      obtain ⟨offers, first⟩ := machine.perform_writeAll piece
      have longer : piece.length ≤ piece.length + rest.flatten.length := Nat.le_add_right ..
      have bounded := machine.writer.takes_le (piece.length + rest.flatten.length)
      have parted : machine.perform ((piece :: rest).forM Host.writeAll) =
          machine.perform (Host.writeAll piece >>= fun _ => rest.forM Host.writeAll) := rfl
      rw [parted, List.flatten_cons, List.length_append]
      by_cases refused : machine.writer.takes piece.length < piece.length
      · have same := Writer.takes_of_refused refused longer
        rw [if_pos refused] at first
        refine ⟨offers, (perform_bind_error first _).trans ?_⟩
        rw [same, if_pos (by omega), List.take_append_of_le_length (Nat.le_of_lt refused)]
      · have inside := Writer.le_takes_of_taken refused longer
        have all : machine.writer.takes piece.length = piece.length :=
          Nat.le_antisymm (machine.writer.takes_le _) (Nat.le_of_not_lt refused)
        rw [if_neg refused, all, List.take_length] at first
        let between := machine.withWriter (machine.writer.grown piece offers)
        have left : between.writer.takes rest.flatten.length =
            machine.writer.takes (piece.length + rest.flatten.length) - piece.length := by
          have taken := machine.writer.takes_grown piece offers
            (piece.length + rest.flatten.length)
          rw [Nat.add_sub_cancel_left] at taken
          exact taken
        have refusal : between.writer.refusal = machine.writer.refusal :=
          Writer.refusal_grown inside offers
        obtain ⟨offers', later⟩ := ih between
        rw [left, refusal] at later
        refine ⟨offers', (perform_bind_ok first _).trans (later.trans ?_)⟩
        have fewer : machine.writer.takes (piece.length + rest.flatten.length) - piece.length <
            rest.flatten.length ↔ machine.writer.takes (piece.length + rest.flatten.length) <
              piece.length + rest.flatten.length := by omega
        have parts : piece ++ rest.flatten.take
            (machine.writer.takes (piece.length + rest.flatten.length) - piece.length) =
            (piece ++ rest.flatten).take
              (machine.writer.takes (piece.length + rest.flatten.length)) := by
          rw [List.take_append, List.take_of_length_le inside]
        rw [← parts, ← Writer.grown_grown _ piece _ offers]
        simp only [fewer]
        rfl

namespace Script

/-- **A destination gets the front of a script that it has room for.** Whatever it holds before and
however few bytes it takes at a time, what it holds afterwards is the text up to the place where it
is full or fails, and writing succeeds exactly when that is the whole text. Otherwise the answer is
the destination's own: that it takes nothing when it is full, and its failure, as it is, where that
strikes first. Nothing but the destination is touched. -/
theorem writeTo_fills_room (script : Script) (machine : Machine) :
    let before := machine.writer
    let run := machine.perform script.writeTo
    (before.room = none →
      run.1 = .ok () ∧ run.2.writer.held = before.held ++ script.text) ∧
    (∀ room, before.room = some room →
      run.2.writer.held = before.held ++ script.text.take (min room script.text.length) ∧
      (run.1 = .ok () ↔ script.text.length ≤ room) ∧
      (room < script.text.length → run.1 = .error before.refusal)) ∧
    (before.writeFuse = none → before.refusal = ⟨.writeZero, "failed to write whole buffer"⟩) ∧
    (∀ fuse, before.writeFuse = some fuse →
      ((∀ capacity, before.capacity = some capacity →
          fuse.start ≤ max capacity before.held.size) → before.refusal = fuse.failure) ∧
      ∀ capacity, before.capacity = some capacity → max capacity before.held.size < fuse.start →
        before.refusal = ⟨.writeZero, "failed to write whole buffer"⟩) ∧
    run.2 = { machine with writer := run.2.writer } := by
  intro before run
  obtain ⟨offers, wrote⟩ := machine.perform_forM_writeAll script.pieces
  have ran : run = _ := wrote
  have held : run.2.writer.held =
      before.held ++ script.text.take (before.takes script.text.length) :=
    congrArg (·.2.writer.held) ran
  have answer : run.1 = if before.takes script.text.length < script.text.length then
      .error before.refusal else .ok () := congrArg (·.1) ran
  refine ⟨?_, ?_, ?_, ?_, ?_⟩
  · intro unlimited
    have all : before.takes script.text.length = script.text.length := by
      rw [Writer.takes, unlimited]
    rw [answer, held, all, if_neg (Nat.lt_irrefl _), List.take_length]
    exact ⟨rfl, rfl⟩
  · intro room limited
    have taken : before.takes script.text.length = min script.text.length room := by
      rw [Writer.takes, limited]
    rw [answer, held, taken, Nat.min_comm]
    refine ⟨rfl, ?_, ?_⟩
    · split
      · rename_i refused
        exact ⟨fun failed => (by cases failed), fun enough => absurd refused (by omega)⟩
      · rename_i whole
        exact ⟨fun _ => by omega, fun _ => rfl⟩
    · intro short
      rw [if_pos (by omega)]
  · intro free
    rw [Writer.refusal, free]
    rfl
  · intro fuse fused
    rw [Writer.refusal, fused]
    constructor
    · intro first
      cases limit : before.capacity with
      | none => rfl
      | some capacity =>
          have earlier := first capacity limit
          exact if_pos (by omega)
    · intro capacity limit later
      rw [limit]
      exact if_neg (by omega)
  · rw [ran]
    rfl

end Script

end BootImage
