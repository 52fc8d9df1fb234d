import Mathlib.Algebra.Ring.Nat
import BootImage.Proofs.Machine.Reading
import BootImage.Proofs.Machine.Writing

/-!
Copying under every fault. A block is read completely before any of it is written, so what reaches
the destination is settled by three numbers: how far the source can be read, how much room the
destination has, and the block size.
-/

namespace BootImage

/-- How many of so many bytes are handed on when only `reach` of them can be read: all, or those in
blocks that are complete. -/
def copyable (block count reach : Nat) : Nat :=
  if count ≤ reach then count else block * (reach / block)

theorem copyable_le (block : Nat) {count reach : Nat} : copyable block count reach ≤ count := by
  unfold copyable
  have whole := Nat.mul_div_le reach block
  split <;> omega

theorem copyable_le_reach (block : Nat) {count reach : Nat} :
    copyable block count reach ≤ reach := by
  unfold copyable
  have whole := Nat.mul_div_le reach block
  split <;> omega

/-- A block that can be read is handed on, and the rest goes on behind it. -/
theorem copyable_of_le {block count reach : Nat} (positive : 0 < block)
    (enough : min block count ≤ reach) :
    copyable block count reach =
      min block count + copyable block (count - min block count) (reach - min block count) := by
  unfold copyable
  by_cases all : count ≤ reach
  · rw [if_pos all, if_pos (by omega)]
    omega
  · have full : min block count = block := by omega
    rw [if_neg all, full, if_neg (by omega), Nat.div_eq_sub_div positive (by omega), Nat.mul_add,
      Nat.mul_one, Nat.add_comm]

/-- A block that cannot be read is the end. -/
theorem copyable_of_lt {block count reach : Nat} (short : reach < min block count) :
    copyable block count reach = 0 := by
  unfold copyable
  rw [if_neg (by omega), Nat.div_eq_of_lt (by omega), Nat.mul_zero]

/-- A source that ends is told of by the place of the block that is not complete. -/
theorem readStop_of_end {offset copied : Nat} {failure : Failure}
    (ends : failure.kind = .unexpectedEof) (small : offset + copied < 2 ^ 64) :
    readStop offset copied failure = .error (.inputEnds (offset + copied) failure) := by
  rw [readStop, if_pos ends, Checked.fits, if_pos (show offset + copied < UInt64.size from small)]

theorem Content.take_slice (data : Array UInt8) (start : Nat) {count taken : Nat}
    (fewer : taken ≤ count) :
    (Content.slice data start count).take taken = Content.slice data start taken := by
  rw [Content.slice_eq, Content.slice_eq, List.take_take, Nat.min_eq_left fewer]

theorem Reader.obstacle_goneTo {reader : Reader} {data : Array UInt8} {count : Nat}
    (near : count ≤ reader.reach data) (served waiting : Nat) :
    (reader.goneTo (reader.position + count) served waiting).obstacle data =
      reader.obstacle data := by
  have place : reader.position + count + (reader.edge data - (reader.position + count)) =
      reader.position + reader.reach data := by
    unfold reach at near ⊢
    omega
  have struck : ∀ position, (reader.goneTo (reader.position + count) served waiting).struckAt
      position = reader.struckAt position := fun _ => rfl
  have here : (reader.goneTo (reader.position + count) served waiting).position =
      reader.position + count := rfl
  simp only [obstacle, reach_goneTo, here, struck, place]

/-- A seek that succeeds moves the reader and leaves its faults and its pace as they are. -/
theorem Reader.seek_of_ok {reader : Reader} {position : Nat}
    (sought : (reader.seek position).1 = .ok ()) :
    reader.seek position = (.ok (), { reader with seeks := reader.seeks + 1, position }) := by
  unfold seek at sought ⊢
  cases fused : reader.seekFuse with
  | none => rfl
  | some fuse =>
      simp only [fused] at sought ⊢
      split at sought
      · cases sought
      · rename_i free
        rw [if_neg free]

namespace Machine

variable {data : Array UInt8}

/-- The machine on which bytes were taken from the source and given to the destination. -/
def handedOn (machine : Machine) (bytes : Bytes) (position served waiting : Nat)
    (offers : Array Bytes) : Machine :=
  (machine.withReader (machine.reader.goneTo position served waiting)).withWriter
    (machine.writer.grown bytes offers)

/-- What copying blocks answers when `count` of `left` bytes can be handed on. -/
def blocksAnswer (machine : Machine) (data : Array UInt8) (offset copied left count : Nat) :
    Except Stop Unit :=
  if machine.writer.takes count < count then
    .error (.error (.failed .writeSlice machine.writer.refusal))
  else if count < left then
    .error (readStop offset (copied + count) (machine.reader.obstacle data))
  else .ok ()

variable {machine : Machine} {block left quota : Nat}

/-- Of a block that cannot be read completely nothing is written. -/
theorem perform_block_short (source : machine.content = .bytes data) (offset copied : Nat)
    (turn : min block left = quota) (more : quota ≠ 0) (short : machine.reader.reach data < quota) :
    ∃ served waiting, machine.perform (copyBlocks block offset copied left) =
      (.error (readStop offset copied (machine.reader.obstacle data)),
        machine.handedOn [] (machine.reader.position + machine.reader.reach data) served waiting
          machine.writer.offers) := by
  obtain ⟨served, waiting, read⟩ := perform_readExact_of_lt source short
  refine ⟨served, waiting, ?_⟩
  rw [copyBlocks, if_neg (by omega), turn]
  refine (perform_bind_error (perform_adapt_eq read _) _).trans ?_
  simp [handedOn, withReader, withWriter, Reader.goneTo, Writer.grown]

/-- Of a block that is not written completely the destination gets what there is room for. -/
theorem perform_block_refused (source : machine.content = .bytes data) (offset copied : Nat)
    (turn : min block left = quota) (enough : quota ≤ machine.reader.reach data)
    (refused : machine.writer.takes quota < quota) :
    ∃ served waiting offers, machine.perform (copyBlocks block offset copied left) =
      (.error (.error (.failed .writeSlice machine.writer.refusal)),
        machine.handedOn
          (Content.slice data machine.reader.position (machine.writer.takes quota))
          (machine.reader.position + quota) served waiting offers) := by
  obtain ⟨served, waiting, read⟩ := perform_readExact_of_le source enough
  obtain ⟨offers, wrote⟩ := perform_writeAll (machine.withReader (machine.reader.goneTo
    (machine.reader.position + quota) served waiting))
    (Content.slice data machine.reader.position quota)
  have same : (machine.withReader (machine.reader.goneTo (machine.reader.position + quota) served
    waiting)).writer = machine.writer := rfl
  rw [Reader.length_slice_of_le_reach enough, same, if_pos refused,
    Content.take_slice data _ (Nat.le_of_lt refused)] at wrote
  refine ⟨served, waiting, offers, ?_⟩
  rw [copyBlocks, if_neg (by omega), turn, perform_bind_ok (perform_adapt_eq read _)]
  exact perform_bind_error (perform_attempt_eq wrote _) _

/-- Behind a block that was read and written the rest is copied. -/
theorem perform_block_written (source : machine.content = .bytes data) (offset copied : Nat)
    (turn : min block left = quota) (more : quota ≠ 0)
    (enough : quota ≤ machine.reader.reach data) (taken : machine.writer.takes quota = quota) :
    ∃ served waiting offers, machine.perform (copyBlocks block offset copied left) =
      (machine.handedOn (Content.slice data machine.reader.position quota)
        (machine.reader.position + quota) served waiting offers).perform
          (copyBlocks block offset (copied + quota) (left - quota)) := by
  obtain ⟨served, waiting, read⟩ := perform_readExact_of_le source enough
  obtain ⟨offers, wrote⟩ := perform_writeAll (machine.withReader (machine.reader.goneTo
    (machine.reader.position + quota) served waiting))
    (Content.slice data machine.reader.position quota)
  have same : (machine.withReader (machine.reader.goneTo (machine.reader.position + quota) served
    waiting)).writer = machine.writer := rfl
  rw [Reader.length_slice_of_le_reach enough, same, taken, if_neg (Nat.lt_irrefl _),
    Content.take_slice data _ (Nat.le_refl _)] at wrote
  refine ⟨served, waiting, offers, ?_⟩
  rw [copyBlocks, if_neg (by omega), turn, perform_bind_ok (perform_adapt_eq read _),
    perform_bind_ok (perform_attempt_eq wrote _)]
  rfl

/-- Behind a block the destination takes what it would have taken more than the block. -/
theorem takes_handedOn (enough : quota ≤ machine.reader.reach data) (more position served
    waiting : Nat) (offers : Array Bytes) :
    (machine.handedOn (Content.slice data machine.reader.position quota) position served waiting
      offers).writer.takes more = machine.writer.takes (quota + more) - quota := by
  have takes := machine.writer.takes_grown
    (Content.slice data machine.reader.position quota) offers (quota + more)
  rw [Reader.length_slice_of_le_reach enough, Nat.add_sub_cancel_left] at takes
  exact takes

/-- What there is to be answered for behind a block is what there was before it. -/
theorem blocksAnswer_handedOn (offset copied : Nat) (enough : quota ≤ machine.reader.reach data)
    {more : Nat} (taken : quota ≤ machine.writer.takes (quota + more)) (shorter : quota ≤ left)
    (served waiting : Nat) (offers : Array Bytes) :
    (machine.handedOn (Content.slice data machine.reader.position quota)
      (machine.reader.position + quota) served waiting offers).blocksAnswer data offset
        (copied + quota) (left - quota) more =
      machine.blocksAnswer data offset copied left (quota + more) := by
  have size := Reader.length_slice_of_le_reach enough
  have refusal : (machine.handedOn (Content.slice data machine.reader.position quota)
      (machine.reader.position + quota) served waiting offers).writer.refusal =
        machine.writer.refusal := Writer.refusal_grown (size.symm ▸ taken) offers
  have obstacle : (machine.handedOn (Content.slice data machine.reader.position quota)
      (machine.reader.position + quota) served waiting offers).reader.obstacle data =
        machine.reader.obstacle data := Reader.obstacle_goneTo enough served waiting
  have fewer : machine.writer.takes (quota + more) - quota < more ↔
      machine.writer.takes (quota + more) < quota + more := by omega
  have early : more < left - quota ↔ quota + more < left := by omega
  simp only [blocksAnswer, takes_handedOn enough, refusal, obstacle, fewer, early, Nat.add_assoc]

/-- Two parts that follow each other are handed on as one. -/
theorem handedOn_slice (enough : quota ≤ machine.reader.reach data) {more : Nat}
    (taken : quota ≤ machine.writer.takes (quota + more)) (served waiting position served'
      waiting' : Nat) (offers offers' : Array Bytes) :
    let after := machine.handedOn (Content.slice data machine.reader.position quota)
      (machine.reader.position + quota) served waiting offers
    after.handedOn (Content.slice data after.reader.position (after.writer.takes more)) position
        served' waiting' offers' =
      machine.handedOn
        (Content.slice data machine.reader.position (machine.writer.takes (quota + more))) position
        served' waiting' offers' := by
  intro after
  have parts := Content.slice_append data machine.reader.position quota
    (machine.writer.takes (quota + more) - quota)
  rw [Nat.add_sub_cancel' taken] at parts
  have place : after.reader.position = machine.reader.position + quota := rfl
  have takes : after.writer.takes more = machine.writer.takes (quota + more) - quota :=
    takes_handedOn enough more _ served waiting offers
  have both := Writer.grown_grown machine.writer
    (Content.slice data machine.reader.position quota)
    (Content.slice data (machine.reader.position + quota)
      (machine.writer.takes (quota + more) - quota)) offers offers'
  rw [parts] at both
  rw [place, takes]
  exact congrArg (withWriter (machine.withReader (machine.reader.goneTo position served' waiting')))
    both

/-- What a copy comes to from any place on: the blocks that can be read are handed on as far as
there is room for them. -/
theorem perform_copyBlocks (source : machine.content = .bytes data) (offset copied : Nat)
    (positive : left = 0 ∨ 0 < block) {count : Nat}
    (given : copyable block left (machine.reader.reach data) = count) :
    ∃ position served waiting offers,
      machine.perform (copyBlocks block offset copied left) =
        (machine.blocksAnswer data offset copied left count,
          machine.handedOn
            (Content.slice data machine.reader.position (machine.writer.takes count)) position
            served waiting offers) := by
  -- A block is read and then written. It is not read completely, or not written completely, or the
  -- rest is copied by a reader and a writer that have moved on by one block.
  induction left using Nat.strongRecOn generalizing machine copied count with
  | ind left ih =>
      have none : Content.slice data machine.reader.position (machine.writer.takes 0) = [] := by
        rw [Nat.le_zero.mp (machine.writer.takes_le 0), Content.slice_eq, List.take_zero]
      by_cases done : left = 0
      · subst done
        have zero : count = 0 := Nat.le_zero.mp (given ▸ copyable_le block)
        subst zero
        refine ⟨machine.reader.position, machine.reader.served, machine.reader.waiting,
          machine.writer.offers, ?_⟩
        rw [copyBlocks, if_pos (.inl rfl), none, blocksAnswer, if_neg (Nat.not_lt_zero _),
          if_neg (Nat.lt_irrefl _)]
        simp [handedOn, withReader, withWriter, Reader.goneTo, Writer.grown]
      · have positive : 0 < block := by omega
        have more : min block left ≠ 0 := by omega
        by_cases enough : min block left ≤ machine.reader.reach data
        · rw [copyable_of_le positive enough] at given
          by_cases refused : machine.writer.takes (min block left) < min block left
          · obtain ⟨served, waiting, offers, copy⟩ := perform_block_refused source
              offset copied rfl enough refused
            have whole := Writer.takes_of_refused refused (Nat.le_add_right _
              (copyable block (left - min block left)
                (machine.reader.reach data - min block left)))
            rw [given] at whole
            refine ⟨machine.reader.position + min block left, served, waiting, offers, ?_⟩
            rw [copy, blocksAnswer, whole, if_pos (by omega)]
          · have taken : machine.writer.takes (min block left) = min block left :=
              Nat.le_antisymm (machine.writer.takes_le _) (Nat.le_of_not_lt refused)
            obtain ⟨served, waiting, offers, copy⟩ :=
              perform_block_written source offset copied rfl more enough taken
            let after := machine.handedOn
              (Content.slice data machine.reader.position (min block left))
              (machine.reader.position + min block left) served waiting offers
            have behind : after.reader.reach data = machine.reader.reach data - min block left := by
              exact Nat.sub_add_eq ..
            obtain ⟨position, served', waiting', offers', rest⟩ := ih (left - min block left)
              (by omega) (show after.content = .bytes data from source) (copied + min block left)
              (.inr positive) rfl
            rw [behind] at rest
            generalize copyable block (left - min block left)
              (machine.reader.reach data - min block left) = further at given rest
            subst given
            have inside := Writer.le_takes_of_taken refused (Nat.le_add_right _ further)
            refine ⟨position, served', waiting', offers', (copy.trans rest).trans ?_⟩
            rw [blocksAnswer_handedOn offset copied enough inside (Nat.min_le_right ..),
              handedOn_slice enough inside served waiting]
        · have short := Nat.lt_of_not_le enough
          rw [copyable_of_lt short] at given
          subst given
          obtain ⟨served, waiting, copy⟩ := perform_block_short source offset copied rfl more short
          refine ⟨machine.reader.position + machine.reader.reach data, served, waiting,
            machine.writer.offers, ?_⟩
          rw [copy, none, blocksAnswer, if_neg (Nat.not_lt_zero _),
            if_pos (Nat.pos_of_ne_zero done), Nat.add_zero]

/-- What copying leaves as it is: everything but the place of the reader, what the writer holds, and
the journal. -/
structure KeepsUnder (before after : Machine) : Prop where
  files : after.files = before.files
  origin : after.origin = before.origin
  destination : after.destination = before.destination
  readFuse : after.reader.readFuse = before.reader.readFuse
  seekFuse : after.reader.seekFuse = before.reader.seekFuse

/-- What a copy answers when the destination takes `taken` bytes of the `ready` ones that can be
handed to it. -/
def copyAnswer (machine : Machine) (data : Array UInt8) (offset count ready taken : Nat) :
    Except Stop Unit :=
  if taken < ready then .error (.error (.failed .writeSlice machine.writer.refusal))
  else if ready < count then
    .error (readStop offset ready
      (match machine.reader.struckAt (max offset (machine.reader.edge data)) with
        | some fuse => fuse.failure
        | none => .endOfInput))
  else
    match machine.writer.flushFailure with
    | some failure => .error (.error (.failed .flushSlice failure))
    | none => .ok ()

def sought (machine : Machine) (position : Nat) : Machine :=
  machine.withReader { machine.reader with seeks := machine.reader.seeks + 1, position }

theorem perform_seek {position : UInt64}
    (seekable : (machine.reader.seek position.toNat).1 = .ok ()) :
    machine.perform (.mk (Host.seek position)) = (.ok (), machine.sought position.toNat) := by
  have step : machine.perform (.mk (Host.seek position)) =
      ((machine.reader.seek position.toNat).1,
        machine.withReader (machine.reader.seek position.toNat).2) := rfl
  rw [step, Reader.seek_of_ok seekable, sought]

/-- The failure that ends a copy is the one behind the place where reading starts. -/
theorem obstacle_sought (machine : Machine) (data : Array UInt8) (offset : Nat) :
    (machine.sought offset).reader.obstacle data =
      match machine.reader.struckAt (max offset (machine.reader.edge data)) with
      | some fuse => fuse.failure
      | none => .endOfInput := by
  have place : offset + (machine.reader.edge data - offset) =
      max offset (machine.reader.edge data) := by omega
  rw [← place]
  rfl

/-- A flush is counted and fails whenever flushing fails. -/
theorem perform_flush (machine : Machine) :
    machine.perform (.mk Host.flush) =
      (match machine.writer.flushFailure with
        | some failure => .error failure
        | none => .ok (),
        machine.withWriter { machine.writer with flushes := machine.writer.flushes + 1 }) := by
  have step : machine.perform (.mk Host.flush) =
      (machine.writer.flush.1, machine.withWriter machine.writer.flush.2) := rfl
  rw [step]
  obtain ⟨held, pace, capacity, writeFuse, flushFailure, offers, flushes⟩ := machine.writer
  cases flushFailure <;> rfl

/-- Copying a range is moving to its offset, copying blocks and flushing. -/
theorem perform_copyRange_eq {blockSize offset count : UInt64}
    (seekable : (machine.reader.seek offset.toNat).1 = .ok ()) (nonzero : blockSize ≠ 0)
    (allocatable : min blockSize.toNat count.toNat ≤ maxBlock) :
    machine.perform (copyRange blockSize offset count) =
      (machine.sought offset.toNat).perform
        (copyBlocks (min blockSize.toNat count.toNat) offset.toNat 0 count.toNat >>= fun _ =>
          attempt .flushSlice (.mk Host.flush) >>= fun _ =>
            Host.tell .debug ("copied " ++ Numeral.decimal count.toNat ++ " bytes from offset " ++
              Numeral.hex offset.toNat)) := by
  rw [copyRange, if_neg nonzero]
  refine (perform_bind_ok (perform_attempt_eq (perform_seek seekable) _) _).trans ?_
  simp only [if_neg (Nat.not_lt.mpr allocatable)]

/-- What a copy comes to, under every fault. -/
theorem perform_copyRange {blockSize offset count : UInt64}
    (source : machine.content = .bytes data)
    (seekable : (machine.reader.seek offset.toNat).1 = .ok ()) (nonzero : blockSize ≠ 0)
    (allocatable : min blockSize.toNat count.toNat ≤ maxBlock) {ready : Nat}
    (given : copyable (min blockSize.toNat count.toNat) count.toNat
      (machine.reader.edge data - offset.toNat) = ready) :
    ∃ after, machine.perform (copyRange blockSize offset count) =
        (machine.copyAnswer data offset.toNat count.toNat ready (machine.writer.takes ready),
          after) ∧
      machine.KeepsUnder after ∧
      after.writer.held = machine.writer.held ++
        Content.slice data offset.toNat (machine.writer.takes ready) ∧
      after.writer.flushes = machine.writer.flushes +
        if machine.writer.takes ready = count.toNat then 1 else 0 := by
  have positive : 0 < blockSize.toNat := by
    rw [Nat.pos_iff_ne_zero]
    intro zero
    exact nonzero (UInt64.toNat_inj.mp zero)
  have unchanged : (machine.sought offset.toNat).content = .bytes data := source
  obtain ⟨position, served, waiting, offers, copied⟩ :=
    perform_copyBlocks unchanged offset.toNat 0 (by omega) given
  have writer : (machine.sought offset.toNat).writer = machine.writer := rfl
  have here : (machine.sought offset.toNat).reader.position = offset.toNat := rfl
  rw [blocksAnswer, obstacle_sought, writer, here, Nat.zero_add] at copied
  have whole : ready ≤ count.toNat := given ▸ copyable_le _
  have taken := machine.writer.takes_le ready
  rw [perform_copyRange_eq seekable nonzero allocatable, copyAnswer]
  by_cases refused : machine.writer.takes ready < ready
  · rw [if_pos refused] at copied
    rw [if_pos refused, if_neg (by omega)]
    exact ⟨_, perform_bind_error copied _, ⟨rfl, rfl, rfl, rfl, rfl⟩, rfl, rfl⟩
  · rw [if_neg refused] at copied
    rw [if_neg refused]
    by_cases early : ready < count.toNat
    · rw [if_pos early] at copied
      rw [if_pos early, if_neg (by omega)]
      exact ⟨_, perform_bind_error copied _, ⟨rfl, rfl, rfl, rfl, rfl⟩, rfl, rfl⟩
    · rw [if_neg early] at copied
      rw [if_neg early, if_pos (by omega), perform_bind_ok copied]
      let copy := (machine.sought offset.toNat).handedOn
        (Content.slice data offset.toNat (machine.writer.takes ready)) position served waiting offers
      have flushed := perform_attempt_eq (perform_flush copy) .flushSlice
      have same : copy.writer.flushFailure = machine.writer.flushFailure := rfl
      cases failing : machine.writer.flushFailure with
      | some failure =>
          rw [same, failing] at flushed
          exact ⟨_, perform_bind_error flushed _, ⟨rfl, rfl, rfl, rfl, rfl⟩, rfl, rfl⟩
      | none =>
          rw [same, failing] at flushed
          exact ⟨_, (perform_bind_ok flushed _).trans rfl, ⟨rfl, rfl, rfl, rfl, rfl⟩, rfl, rfl⟩

/-- A copy that succeeds has handed on the whole range, whatever faults there are. -/
theorem copyRange_ok {after : Machine} {blockSize offset count : UInt64}
    (source : machine.content = .bytes data) (nonzero : blockSize ≠ 0)
    (allocatable : min blockSize.toNat count.toNat ≤ maxBlock)
    (done : machine.perform (copyRange blockSize offset count) = (.ok (), after)) :
    count.toNat ≤ data.size - offset.toNat ∧ machine.KeepsUnder after ∧
      after.writer.held =
        machine.writer.held ++ Content.slice data offset.toNat count.toNat := by
  have seekable : (machine.reader.seek offset.toNat).1 = .ok () := by
    have begun := done
    rw [copyRange, if_neg nonzero] at begun
    obtain ⟨⟨⟩, between, sought, -⟩ := perform_bind_eq_ok begun
    have step : machine.perform (attempt .seekToSlice (.mk (Host.seek offset))) =
        ((machine.reader.seek offset.toNat).1.mapError fun failure =>
          .error (.failed .seekToSlice failure),
          machine.withReader (machine.reader.seek offset.toNat).2) := rfl
    rw [step] at sought
    cases answered : (machine.reader.seek offset.toNat).1 with
    | error failure =>
        rw [answered] at sought
        cases sought
    | ok => rfl
  obtain ⟨ready, given⟩ : ∃ ready, copyable (min blockSize.toNat count.toNat) count.toNat
      (machine.reader.edge data - offset.toNat) = ready := ⟨_, rfl⟩
  obtain ⟨final, copied, kept, held, -⟩ :=
    perform_copyRange source seekable nonzero allocatable given
  rw [done, Prod.mk.injEq, copyAnswer] at copied
  obtain ⟨answered, rfl⟩ := copied
  split at answered
  · cases answered
  · rename_i taken
    split at answered
    · cases answered
    · rename_i complete
      have most := machine.writer.takes_le ready
      have near : ready ≤ machine.reader.edge data - offset.toNat := given ▸ copyable_le_reach _
      have whole : ready ≤ count.toNat := given ▸ copyable_le _
      have inside := machine.reader.edge_le data
      have all : machine.writer.takes ready = count.toNat := by omega
      rw [all] at held
      exact ⟨by omega, kept, held⟩

end Machine

/-- The law of a copy, whatever fails and however the calls are paced. Blocks are read completely
before they are written, so a destination that refuses wins over a source that ends behind it. -/
theorem copyRange_under_faults (machine : Machine) (data : Array UInt8)
    (blockSize offset count : UInt64) (source : machine.content = .bytes data)
    (seekable : (machine.reader.seek offset.toNat).1 = .ok ()) (nonzero : blockSize ≠ 0)
    (allocatable : min blockSize.toNat count.toNat < 2 ^ 63) :
    let block := min blockSize.toNat count.toNat
    let edge := machine.reader.edge data
    let ready := if count.toNat ≤ edge - offset.toNat then count.toNat
      else block * ((edge - offset.toNat) / block)
    let cause := match machine.reader.struckAt (max offset.toNat edge) with
      | some fuse => fuse.failure
      | none => .endOfInput
    let answer := (machine.perform (copyRange blockSize offset count)).1
    let after := (machine.perform (copyRange blockSize offset count)).2.writer
    (∀ room, machine.writer.room = some room → room < ready →
      answer = .error (.error (.failed .writeSlice machine.writer.refusal)) ∧
        after.held = machine.writer.held ++ Content.slice data offset.toNat room ∧
        after.flushes = machine.writer.flushes) ∧
    ((∀ room, machine.writer.room = some room → ready ≤ room) →
      after.held = machine.writer.held ++ Content.slice data offset.toNat ready ∧
      (ready < count.toNat →
        (cause.kind = .unexpectedEof → offset.toNat + ready < 2 ^ 64 →
          answer = .error (.error (.inputEnds (offset.toNat + ready) cause))) ∧
        (cause.kind ≠ .unexpectedEof → answer = .error (.error (.failed .readSlice cause))) ∧
        after.flushes = machine.writer.flushes) ∧
      (ready = count.toNat →
        answer = (match machine.writer.flushFailure with
          | some failure => .error (.error (.failed .flushSlice failure))
          | none => .ok ()) ∧
        after.flushes = machine.writer.flushes + 1)) ∧
    (data.size < 2 ^ 64 → offset.toNat + ready < 2 ^ 64) := by
  intro block edge ready cause answer after
  obtain ⟨final, copied, -, held, flushes⟩ :=
    Machine.perform_copyRange source seekable nonzero (by unfold maxBlock; omega)
      (show copyable block count.toNat (edge - offset.toNat) = ready from rfl)
  have answered : answer = machine.copyAnswer data offset.toNat count.toNat ready
      (machine.writer.takes ready) := congrArg (·.1) copied
  have ended : after = final.writer := congrArg (·.2.writer) copied
  have whole : ready ≤ count.toNat := copyable_le block
  have near : ready ≤ edge - offset.toNat := copyable_le_reach block
  rw [ended, answered, held, flushes]
  refine ⟨?_, ?_, ?_⟩
  · intro room limit short
    have taken : machine.writer.takes ready = room := by
      rw [Writer.takes, limit]
      exact Nat.min_eq_right (Nat.le_of_lt short)
    rw [taken, Machine.copyAnswer, if_pos short, if_neg (by omega)]
    exact ⟨rfl, rfl, rfl⟩
  · intro roomy
    have taken : machine.writer.takes ready = ready := by
      rw [Writer.takes]
      cases limit : machine.writer.room with
      | none => rfl
      | some room => exact Nat.min_eq_left (roomy room limit)
    rw [taken, Machine.copyAnswer, if_neg (Nat.lt_irrefl _)]
    refine ⟨rfl, ?_, ?_⟩
    · intro early
      rw [if_pos early, if_neg (by omega)]
      refine ⟨?_, ?_, rfl⟩
      · intro ends small
        rw [readStop_of_end ends small]
      · intro fails
        rw [readStop, if_neg fails]
    · intro all
      rw [if_neg (by omega), if_pos all]
      exact ⟨rfl, rfl⟩
  · intro small
    have inside : edge ≤ data.size := machine.reader.edge_le data
    have bounded := offset.toNat_lt
    omega

/-- Single bytes after two interruptions each, and a source that fails in its second block. -/
theorem copyRange_under_faults_at_fuse :
    let machine : Machine :=
      { Machine.ofFiles ⟨.empty, [], []⟩ with
        origin := .memory #[0, 1, 2, 3, 4, 5, 6, 7, 8, 9]
        reader := { Reader.fresh with
          pace := fun _ => ⟨2, some 0⟩
          readFuse := some ⟨7, .noSpace⟩ } }
    (machine.perform (copyRange 3 2 7)).1 = .error (.error (.failed .readSlice .noSpace)) ∧
      (machine.perform (copyRange 3 2 7)).2.writer.held = #[2, 3, 4] ∧
      (machine.perform (copyRange 3 2 7)).2.writer.flushes = 0 := by
  intro machine
  obtain ⟨-, roomy, -⟩ := copyRange_under_faults machine #[0, 1, 2, 3, 4, 5, 6, 7, 8, 9] 3 2 7 rfl
    rfl (by decide) (by decide)
  obtain ⟨held, early, -⟩ := roomy nofun
  obtain ⟨-, fails, flushes⟩ := early (by decide)
  exact ⟨fails (by decide), held.trans (by decide), flushes⟩

end BootImage
