import BootImage.Proofs.Copy
import BootImage.Unpack

/-!
Work that leaves the files alone. Reading, writing to what was made before, moving in the source and
telling change nothing but where the source stands, what the destination holds and the record, on
every machine and whatever fails; so does everything that consists of them.

* `Harmless.bind`: work in two parts.
* `Machine.harmless_copyRange`, `Machine.harmless_accept`: copying a slice, and accepting an image.
-/

namespace BootImage

/-- However a call goes, the faults of a reader stay. -/
theorem Reader.read_keeps (reader : Reader) (content : Content) (wanted : Nat) :
    (reader.read content wanted).2.readFuse = reader.readFuse ∧
      (reader.read content wanted).2.seekFuse = reader.seekFuse := by
  rw [read_eq_serve]
  unfold serve
  split
  · exact ⟨rfl, rfl⟩
  · cases content <;> exact ⟨rfl, rfl⟩

theorem Reader.seek_keeps (reader : Reader) (position : Nat) :
    (reader.seek position).2.readFuse = reader.readFuse ∧
      (reader.seek position).2.seekFuse = reader.seekFuse := by
  unfold seek
  split
  · dsimp only
    split <;> exact ⟨rfl, rfl⟩
  · exact ⟨rfl, rfl⟩

namespace Machine

variable {ε δ α β : Type} {machine between after : Machine}

theorem KeepsUnder.refl (machine : Machine) : machine.KeepsUnder machine :=
  ⟨rfl, rfl, rfl, rfl, rfl⟩

theorem KeepsUnder.trans (first : machine.KeepsUnder between) (second : between.KeepsUnder after) :
    machine.KeepsUnder after :=
  ⟨second.files.trans first.files, second.origin.trans first.origin,
    second.destination.trans first.destination, second.readFuse.trans first.readFuse,
    second.seekFuse.trans first.seekFuse⟩

/-- Work that leaves files, source and destination where they are on every machine, whether it
succeeds or not. -/
def Harmless (work : ExceptT ε (StateM Machine) α) : Prop :=
  ∀ machine : Machine, machine.KeepsUnder (machine.perform work).2

namespace Harmless

theorem pure (value : α) : Harmless (Pure.pure value : ExceptT ε (StateM Machine) α) :=
  fun machine => .refl machine

theorem throw (reason : ε) :
    Harmless (MonadExcept.throw reason : ExceptT ε (StateM Machine) α) :=
  fun machine => .refl machine

theorem bind {work : ExceptT ε (StateM Machine) α} {next : α → ExceptT ε (StateM Machine) β}
    (first : Harmless work) (rest : ∀ value, Harmless (next value)) :
    Harmless (work >>= next) := by
  intro machine
  have begun := first machine
  rcases done : machine.perform work with ⟨answer, between⟩
  rw [done] at begun
  cases answer with
  | error reason =>
      rw [perform_bind_error done]
      exact begun
  | ok value =>
      rw [perform_bind_ok done]
      exact begun.trans (rest value between)

theorem adapt {work : ExceptT ε (StateM Machine) α} (harmless : Harmless work) (rename : ε → δ) :
    Harmless (work.adapt rename) :=
  fun machine => harmless machine

theorem attempt {operation : ExceptT Failure (StateM Machine) α} (harmless : Harmless operation)
    (activity : Activity) : Harmless (attempt activity operation) :=
  harmless.adapt _

end Harmless

/-! ### Calls -/

theorem harmless_read (wanted : Nat) :
    Harmless (.mk (Host.read wanted) : ExceptT Failure (StateM Machine) Bytes) := by
  intro machine
  obtain ⟨readFuse, seekFuse⟩ := machine.reader.read_keeps machine.content wanted
  exact ⟨rfl, rfl, rfl, readFuse, seekFuse⟩

theorem harmless_seek (position : UInt64) :
    Harmless (.mk (Host.seek position) : ExceptT Failure (StateM Machine) Unit) := by
  intro machine
  obtain ⟨readFuse, seekFuse⟩ := machine.reader.seek_keeps position.toNat
  exact ⟨rfl, rfl, rfl, readFuse, seekFuse⟩

theorem harmless_write (bytes : Bytes) :
    Harmless (.mk (Host.write bytes) : ExceptT Failure (StateM Machine) Nat) :=
  fun _ => ⟨rfl, rfl, rfl, rfl, rfl⟩

theorem harmless_flush :
    Harmless (.mk Host.flush : ExceptT Failure (StateM Machine) Unit) :=
  fun _ => ⟨rfl, rfl, rfl, rfl, rfl⟩

theorem harmless_tellAll (events : List Event) :
    Harmless (Host.tellAll events : ExceptT ε (StateM Machine) Unit) := by
  induction events with
  | nil => exact .pure ()
  | cons event rest ih =>
      have told : Harmless
          (ExceptT.lift (Host.report event) : ExceptT ε (StateM Machine) Unit) :=
        fun _ => ⟨rfl, rfl, rfl, rfl, rfl⟩
      exact told.bind fun _ => ih

theorem harmless_tell (level : Level) (text : String) :
    Harmless (Host.tell level text : ExceptT ε (StateM Machine) Unit) :=
  harmless_tellAll _

/-! ### Calls that are repeated -/

theorem harmless_readChunks (wanted : Nat) (chunks : List Bytes) :
    Harmless (Host.readChunks wanted chunks : ExceptT Failure (StateM Machine) Bytes) := by
  induction wanted using Nat.strongRecOn generalizing chunks with
  | ind wanted ih =>
      rw [Host.readChunks]
      split
      · exact .pure _
      · refine (harmless_read wanted).bind fun chunk => ?_
        by_cases ended : chunk = []
        · rw [if_pos ended]
          exact .pure _
        · rw [if_neg ended]
          have some := List.length_pos_iff.mpr ended
          exact ih _ (by omega) _

theorem harmless_readUpTo (wanted : Nat) :
    Harmless (Host.readUpTo wanted : ExceptT Failure (StateM Machine) Bytes) :=
  harmless_readChunks wanted []

theorem harmless_readExact (wanted : Nat) :
    Harmless (Host.readExact wanted : ExceptT Failure (StateM Machine) Bytes) := by
  refine (harmless_readUpTo wanted).bind fun bytes => ?_
  split
  · exact .throw _
  · exact .pure _

theorem harmless_writeAll (bytes : Bytes) :
    Harmless (Host.writeAll bytes : ExceptT Failure (StateM Machine) Unit) := by
  induction size : bytes.length using Nat.strongRecOn generalizing bytes with
  | ind size ih =>
      subst size
      rw [Host.writeAll]
      split
      · exact .pure _
      · rename_i offered
        refine (harmless_write bytes).bind fun taken => ?_
        have some := List.length_pos_iff.mpr offered
        split
        · exact .throw _
        · refine ih _ ?_ _ rfl
          rw [List.length_drop]
          omega

theorem harmless_copyBlocks (block offset copied left : Nat) :
    Harmless (copyBlocks block offset copied left : ExceptT Stop (StateM Machine) Unit) := by
  induction left using Nat.strongRecOn generalizing copied with
  | ind left ih =>
      rw [copyBlocks]
      split
      · exact .pure _
      · refine ((harmless_readExact _).adapt _).bind fun bytes => ?_
        refine ((harmless_writeAll bytes).attempt _).bind fun _ => ?_
        exact ih _ (by omega) _

/-- Copying a slice, whatever the block size and wherever it stops. -/
theorem harmless_copyRange (blockSize offset count : UInt64) :
    Harmless (copyRange blockSize offset count : ExceptT Stop (StateM Machine) Unit) := by
  rw [copyRange]
  split
  · exact .throw _
  · refine ((harmless_seek offset).attempt _).bind fun _ => ?_
    dsimp only
    split
    · exact .throw _
    · refine (harmless_copyBlocks _ _ _ _).bind fun _ => ?_
      exact (harmless_flush.attempt _).bind fun _ => harmless_tell _ _

theorem harmless_answer (answer : Except ε α) :
    Harmless (.mk (Pure.pure answer) : ExceptT ε (StateM Machine) α) :=
  fun machine => .refl machine

theorem harmless_readNext : Harmless (Header.readNext : ExceptT Stop (StateM Machine) Header) :=
  ((harmless_readUpTo _).attempt _).bind fun _ => harmless_answer _

/-- Accepting an image, or whatever else is there. -/
theorem harmless_accept : Harmless (Image.accept : ExceptT Stop (StateM Machine) Image) := by
  refine (harmless_tell _ _).bind fun _ => ?_
  refine ((harmless_seek 0).attempt _).bind fun _ => ?_
  refine harmless_readNext.bind fun header => ?_
  refine (harmless_answer _).bind fun layout => ?_
  refine (harmless_tellAll _).bind fun _ => ?_
  exact (harmless_tellAll _).bind fun _ => .pure _

end Machine

end BootImage
