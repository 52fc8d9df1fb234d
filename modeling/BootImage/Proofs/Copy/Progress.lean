import Mathlib.Algebra.Order.Floor.Div
import BootImage.Proofs.Copy
import BootImage.Proofs.Host.Watched

/-!
The loop of a copy goes on and comes to an end. It is a walk over a known number of turns, whatever
the host does: a turn starts behind whole blocks, moves a chunk that is not empty and not longer than
a block, and leaves less to be copied; only a failure ends the walk before its last turn.

* `copyBlocks_eq_forM`, `copyRange_eq_forM`: the loop as its turns, one behind the other.
* `underway_turn`, `turn_add_chunkAt`: how the loop stands at the start of a turn, and at its end.
* `shows_copyRange`: what a copy offers to its destination.
* `copyRange_progress`: all of it, on every host and on every machine.
-/

namespace BootImage

/-- One turn of the loop: behind so many bytes, a chunk is read completely and then written. -/
def copyChunk {m : Type → Type} [Host m] (offset copied chunk : Nat) : ExceptT Stop m Unit := do
  let bytes ← (Host.readExact chunk).adapt (readStop offset copied)
  attempt .writeSlice (Host.writeAll bytes)

/-- The length of the chunk of a turn: a block, or what is left. -/
def chunkAt (block count turn : Nat) : Nat :=
  min block (count - turn * block)

section Turns

variable {block count turn : Nat}

theorem chunkAt_zero (block count : Nat) : chunkAt block count 0 = min block count := by
  rw [chunkAt, Nat.zero_mul, Nat.sub_zero]

theorem chunkAt_succ (block count turn : Nat) :
    chunkAt block count (turn + 1) = chunkAt block (count - block) turn := by
  rw [chunkAt, chunkAt, Nat.succ_mul, Nat.add_comm, Nat.sub_add_eq]

/-- There are as many turns as start before everything is copied. -/
theorem lt_ceilDiv_iff (positive : 0 < block) : turn < count ⌈/⌉ block ↔ turn * block < count := by
  rw [← Nat.not_le, ceilDiv_le_iff_le_mul positive, Nat.not_le, Nat.mul_comm]

theorem ceilDiv_eq_succ (positive : 0 < block) (some : 0 < count) :
    count ⌈/⌉ block = (count - block) ⌈/⌉ block + 1 := by
  refine eq_of_forall_lt_iff fun turn => ?_
  rw [lt_ceilDiv_iff positive]
  cases turn with
  | zero => simp [some]
  | succ turn =>
      rw [Nat.succ_lt_succ_iff, lt_ceilDiv_iff positive, Nat.succ_mul]
      omega

/-- Behind a turn comes the next one, or everything is copied. -/
theorem turn_add_chunkAt (positive : 0 < block) (before : turn < count ⌈/⌉ block) :
    turn * block + chunkAt block count turn = min ((turn + 1) * block) count := by
  rw [lt_ceilDiv_iff positive] at before
  rw [chunkAt, Nat.succ_mul]
  omega

/-- All chunks are blocks but the last, which is what the others leave. -/
theorem map_chunkAt_range (positive : 0 < block) (some : 0 < count) :
    (List.range (count ⌈/⌉ block)).map (chunkAt block count) =
      List.replicate (count ⌈/⌉ block - 1) block ++ [count - block * (count ⌈/⌉ block - 1)] := by
  obtain ⟨turns, last⟩ : ∃ turns, count ⌈/⌉ block = turns + 1 := ⟨_, ceilDiv_eq_succ positive some⟩
  have below : turns * block < count := (lt_ceilDiv_iff positive).mp (by omega)
  have above : ¬ (turns + 1) * block < count := by
    rw [← lt_ceilDiv_iff positive, last]
    exact Nat.lt_irrefl _
  rw [Nat.succ_mul] at above
  have full : ∀ turn ∈ List.range turns, chunkAt block count turn = block := by
    intro turn before
    have multiple := Nat.mul_le_mul_right block (Nat.succ_le_of_lt (List.mem_range.mp before))
    rw [Nat.succ_mul] at multiple
    rw [chunkAt]
    omega
  have rest : chunkAt block count turns = count - block * turns := by
    rw [chunkAt, Nat.mul_comm block]
    omega
  rw [last, Nat.add_sub_cancel, List.range_succ, List.map_append, List.map_congr_left full,
    List.map_const', List.length_range, List.map_singleton, rest]

/-- How a loop that copies `count` bytes in blocks stands at the start of a turn, with so many bytes
copied and a chunk to be read and written. -/
structure Underway (blockSize block count copied chunk : Nat) : Prop where
  /-- Whole blocks are copied. -/
  multiple : block ∣ copied
  /-- There is something left. -/
  below : copied < count
  /-- The chunk is a block, or what is left. -/
  chunk_eq : chunk = min block (count - copied)
  filled : 1 ≤ chunk
  small : chunk ≤ blockSize
  /-- Neither the sum of what is copied then nor what is left leaves its width. -/
  inside : copied + chunk ≤ count
  /-- Less is left behind the turn. -/
  fewer : count - (copied + chunk) < count - copied

theorem underway_turn {blockSize : Nat} (size : block ≤ blockSize) (positive : 0 < block)
    (before : turn < count ⌈/⌉ block) :
    Underway blockSize block count (turn * block) (chunkAt block count turn) := by
  have below := (lt_ceilDiv_iff positive).mp before
  have chunk : chunkAt block count turn = min block (count - turn * block) := rfl
  exact ⟨Nat.dvd_mul_left .., below, chunk, by omega, by omega, by omega, by omega⟩

end Turns

theorem min_toNat_pos {blockSize count : UInt64} (nonzero : blockSize ≠ 0) (some : count ≠ 0) :
    0 < min blockSize.toNat count.toNat := by
  rw [← UInt64.toNat_inj.ne] at nonzero some
  exact Nat.lt_min.mpr ⟨Nat.pos_of_ne_zero nonzero, Nat.pos_of_ne_zero some⟩

/-- What a copy of `count` bytes offers to its destination, whatever it answers: buffers of one byte
to a block; and when it succeeds with a destination that takes all it is offered, as many as there
are turns, all of them blocks but the last. -/
def Paced (block count : Nat) (answer : Except Stop Unit) (offers : List Offer) : Prop :=
  (∀ offer ∈ offers, 1 ≤ offer.bytes.length ∧ offer.bytes.length ≤ block) ∧
  (answer = .ok () → (∀ offer ∈ offers, offer.Whole) →
    offers.map (·.bytes.length) =
      List.replicate (count ⌈/⌉ block - 1) block ++ [count - block * (count ⌈/⌉ block - 1)])

theorem Offered.paced {block count : Nat} {answer : Except Stop Unit} {offers : List Offer}
    (positive : 0 < block) (some : 0 < count)
    (offered : Offered block ((List.range (count ⌈/⌉ block)).map (chunkAt block count)) answer
      offers) : Paced block count answer offers := by
  refine ⟨offered.bounded, fun done whole => ?_⟩
  rw [← map_chunkAt_range positive some]
  exact offered.chunked () done whole

section Loop

variable {m : Type → Type} [Host m] [LawfulMonad m] {block : Nat} {blockSize offset count : UInt64}

/-- A loop that copies blocks is its turns, one behind the other. -/
theorem copyBlocks_eq_forM (positive : 0 < block) (offset copied left : Nat) :
    (copyBlocks block offset copied left : ExceptT Stop m Unit) =
      (List.range (left ⌈/⌉ block)).forM fun turn =>
        copyChunk offset (copied + turn * block) (chunkAt block left turn) := by
  induction left using Nat.strongRecOn generalizing copied with
  | ind left ih =>
      rw [copyBlocks]
      by_cases done : left = 0
      · rw [if_pos (.inl done), done, zero_ceilDiv]
        rfl
      · have fewer : left - min block left = left - block := by omega
        have rest : (copyBlocks block offset (copied + min block left) (left - block) :
            ExceptT Stop m Unit) = (List.range ((left - block) ⌈/⌉ block)).forM fun turn =>
              copyChunk offset (copied + (turn + 1) * block) (chunkAt block left (turn + 1)) := by
          by_cases full : block ≤ left
          · have behind : ∀ turn, copied + (turn + 1) * block = copied + block + turn * block := by
              intro turn
              rw [Nat.succ_mul]
              omega
            simp only [Nat.min_eq_left full, ih (left - block) (by omega), chunkAt_succ, behind]
          · -- A chunk that is shorter than a block is the last one.
            rw [Nat.sub_eq_zero_of_le (by omega), zero_ceilDiv, copyBlocks, if_pos (.inl rfl)]
            rfl
        rw [if_neg (by omega), ceilDiv_eq_succ positive (Nat.pos_of_ne_zero done),
          List.range_succ_eq_map]
        simp only [List.forM_eq_forM, List.forM_cons, List.forM_map, copyChunk, bind_assoc,
          Nat.zero_mul, Nat.add_zero, chunkAt_zero, fewer, rest]

theorem copyRange_eq_forM (nonzero : blockSize ≠ 0) (positive : 0 < block)
    (size : min blockSize.toNat count.toNat = block) (allocatable : block ≤ maxBlock) :
    (copyRange blockSize offset count : ExceptT Stop m Unit) = (do
      attempt .seekToSlice (.mk (Host.seek offset))
      (List.range (count.toNat ⌈/⌉ block)).forM fun turn =>
        copyChunk offset.toNat (turn * block) (chunkAt block count.toNat turn)
      attempt .flushSlice (.mk Host.flush)
      Host.tell .debug ("copied " ++ Numeral.decimal count.toNat ++ " bytes from offset " ++
        Numeral.hex offset.toNat)) := by
  rw [copyRange, if_neg nonzero]
  simp only [size, if_neg (Nat.not_lt.mpr allocatable), copyBlocks_eq_forM positive, Nat.zero_add]

theorem shows_copyChunk (measured : Host.Measured m) (offset copied : Nat) {chunk : Nat}
    (filled : 0 < chunk) (small : chunk ≤ block) :
    Shows (Offered block [chunk]) (copyChunk offset copied chunk)
      (copyChunk offset copied chunk : ExceptT Stop m Unit) := by
  have read : Shows (Gives fun bytes => bytes.length = chunk)
      ((Host.readExact chunk).adapt (readStop offset copied))
      ((Host.readExact chunk : ExceptT Failure m Bytes).adapt (readStop offset copied)) :=
    (shows_readExact measured chunk).adapt fun _ _ gives => gives.renamed
  refine read.gives_bind (fun _ => ⟨nofun, nofun⟩) fun bytes length => ?_
  have some : bytes ≠ [] := by
    rw [← List.length_pos_iff]
    omega
  have written : Shows (Offered block (if bytes = [] then [] else [bytes.length]))
      (Host.writeAll bytes) (Host.writeAll bytes : ExceptT Failure m Unit) :=
    shows_writeAll (by omega)
  rw [if_neg some, length] at written
  exact written.offered_attempt .writeSlice

/-- The chunks of turns follow each other. -/
theorem shows_forM {watched : Nat → ExceptT Stop (Watched m) Unit}
    {plain : Nat → ExceptT Stop m Unit} {chunk : Nat → Nat} (turns : List Nat)
    (each : ∀ turn ∈ turns, Shows (Offered block [chunk turn]) (watched turn) (plain turn)) :
    Shows (Offered block (turns.map chunk)) (turns.forM watched) (turns.forM plain) := by
  induction turns with
  | nil => exact .pure (.nothing _)
  | cons turn rest ih =>
      refine (each turn List.mem_cons_self).offered_bind fun _ => ?_
      exact ih fun other later => each other (List.mem_cons_of_mem _ later)

/-- A copy offers its chunks. -/
theorem shows_copyRange (measured : Host.Measured m) (offset : UInt64) (nonzero : blockSize ≠ 0)
    (positive : 0 < block) (size : min blockSize.toNat count.toNat = block)
    (allocatable : block ≤ maxBlock) :
    Shows (Paced block count.toNat) (copyRange blockSize offset count)
      (copyRange blockSize offset count : ExceptT Stop m Unit) := by
  have sought : Shows (Offered block []) (attempt .seekToSlice (.mk (Host.seek offset)))
      (attempt .seekToSlice (.mk (Host.seek offset)) : ExceptT Stop m Unit) :=
    (shows_quiet _).offered_attempt _
  have copied := shows_forM (List.range (count.toNat ⌈/⌉ block)) fun turn before =>
    shows_copyChunk measured offset.toNat (turn * block)
      (underway_turn (Nat.le_refl block) positive (List.mem_range.mp before)).filled
      (Nat.min_le_left ..)
  have flushed : Shows (Offered block []) (attempt .flushSlice (.mk Host.flush))
      (attempt .flushSlice (.mk Host.flush) : ExceptT Stop m Unit) :=
    (shows_quiet _).offered_attempt _
  rw [copyRange_eq_forM nonzero positive size allocatable,
    copyRange_eq_forM nonzero positive size allocatable]
  refine Shows.mono (sought.offered_bind fun _ => copied.offered_bind fun _ =>
    flushed.offered_bind fun _ => shows_tellAll _) fun answer offers offered => ?_
  rw [List.nil_append, List.nil_append, List.append_nil] at offered
  exact offered.paced positive (Nat.lt_of_lt_of_le positive (by omega))

end Loop

/-- **A copy always goes on, and keeps to its block size.** Its loop is a walk over as many turns as
it takes blocks to hold the bytes, on every host, whatever its source and its destination do: each
turn finds the copy underway, and ends where the next one starts or where everything is copied. What
it offers to the destination is paced, on every host whose source gives no more than it is asked for,
and so on every machine with its source, its destination and their faults; watching it changes
nothing of what it does. -/
theorem copyRange_progress (blockSize offset count : UInt64) (nonzero : blockSize ≠ 0)
    (some : count ≠ 0) (allocatable : min blockSize.toNat count.toNat < 2 ^ 63) :
    let block := min blockSize.toNat count.toNat
    let turns := count.toNat ⌈/⌉ block
    (∀ turn < turns,
      Underway blockSize.toNat block count.toNat (turn * block) (chunkAt block count.toNat turn) ∧
        turn * block + chunkAt block count.toNat turn = min ((turn + 1) * block) count.toNat) ∧
    (∀ (m : Type → Type) [Host m] [LawfulMonad m],
      ((copyRange blockSize offset count : ExceptT Stop m Unit) = (do
        attempt .seekToSlice (.mk (Host.seek offset))
        (List.range turns).forM fun turn =>
          copyChunk offset.toNat (turn * block) (chunkAt block count.toNat turn)
        attempt .flushSlice (.mk Host.flush)
        Host.tell .debug ("copied " ++ Numeral.decimal count.toNat ++ " bytes from offset " ++
          Numeral.hex offset.toNat))) ∧
      (Host.Measured m →
        Prod.fst <$> watch (copyRange blockSize offset count) =
          (copyRange blockSize offset count : ExceptT Stop m Unit).run ∧
        Always (fun outcome => Paced block count.toNat outcome.1 outcome.2)
          (watch (copyRange blockSize offset count) : m _))) ∧
    ∀ machine : Machine, ∃ offers,
      (watch (copyRange blockSize offset count) : StateM Machine _).run machine =
        (((machine.perform (copyRange blockSize offset count)).1, offers),
          (machine.perform (copyRange blockSize offset count)).2) ∧
      Paced block count.toNat (machine.perform (copyRange blockSize offset count)).1 offers := by
  intro block turns
  have positive : 0 < block := min_toNat_pos nonzero some
  have fits : block ≤ maxBlock := by
    unfold maxBlock
    omega
  refine ⟨?_, ?_, ?_⟩
  · intro turn before
    exact ⟨underway_turn (Nat.min_le_left ..) positive before, turn_add_chunkAt positive before⟩
  · intro m _ _
    refine ⟨copyRange_eq_forM nonzero positive rfl fits, fun measured => ?_⟩
    have shown := shows_copyRange measured offset nonzero positive rfl fits
    exact ⟨shown.erase, shown.always⟩
  · exact (shows_copyRange Machine.measured offset nonzero positive rfl fits).exists_offers

/-- Seven bytes in blocks of three, from a source that gives single bytes after two interruptions
each. -/
theorem copyRange_progress_in_three_turns :
    let machine : Machine :=
      { Machine.ofFiles ⟨.empty, [], []⟩ with
        origin := .memory #[0, 1, 2, 3, 4, 5, 6, 7, 8, 9]
        reader := { Reader.fresh with pace := fun _ => ⟨2, some 0⟩ } }
    Underway 3 3 7 6 1 ∧
      ∃ offers, (watch (copyRange 3 2 7) : StateM Machine _).run machine =
          ((.ok (), offers), (machine.perform (copyRange 3 2 7)).2) ∧
        (∀ offer ∈ offers, offer.Whole) ∧ offers.map (·.bytes.length) = [3, 3, 1] := by
  intro machine
  obtain ⟨turns, -, machines⟩ :=
    copyRange_progress 3 2 7 (by decide) (by decide) (by decide)
  obtain ⟨offers, ran, -, chunked⟩ := machines machine
  have done : (machine.perform (copyRange 3 2 7)).1 = .ok () := by decide +kernel
  have whole : ∀ offer ∈ ((watch (copyRange 3 2 7) : StateM Machine _).run machine).1.2,
      offer.Whole := by decide +kernel
  rw [ran] at whole
  rw [done] at ran
  exact ⟨(turns 2 (by decide)).1, offers, ran, whole, chunked done whole⟩

end BootImage
