import BootImage.Proofs.Header.Decision
import BootImage.Proofs.Machine.Reading
import BootImage.Unpack

/-!
Headers one behind the other. Every call takes the bytes of one record, or what is left of it, and
no others, whatever comes of them: so the calls cut a source into records, and a record that is
rejected does not move the ones behind it.

* `Reader.supply_eq`: what a reader gives in all, by the places of its fuse and of its data.
* `Machine.perform_nextHeader`: one call.
* `Header.readEach_takes_records`: any number of them.
-/

namespace BootImage

namespace Reader

variable {data : Array UInt8}

/-- The fuse that is met while so many bytes are read from a place: one in front of the last of
them, and no farther than the end of the data. -/
def strikeWithin (reader : Reader) (data : Array UInt8) (place wanted : Nat) : Option Fuse :=
  reader.readFuse.filter fun fuse => fuse.start < place + wanted ∧ fuse.start ≤ max place data.size

theorem strikeWithin_eq_some_iff {reader : Reader} {place wanted : Nat} {fuse : Fuse} :
    reader.strikeWithin data place wanted = some fuse ↔
      reader.readFuse = some fuse ∧ fuse.start < place + wanted ∧
        fuse.start ≤ max place data.size := by
  simp [strikeWithin, Option.filter_eq_some_iff]

theorem strikeWithin_of_calm {reader : Reader} (calm : reader.readFuse = none)
    (place wanted : Nat) : reader.strikeWithin data place wanted = none := by
  rw [strikeWithin, calm, Option.filter_none]

/-- Where a reader stands when so many bytes were asked of it. -/
def placeAfter (reader : Reader) (data : Array UInt8) (wanted : Nat) : Nat :=
  max reader.position (min (reader.position + wanted) (reader.edge data))

/-- What is asked for is given unless a fuse is met; only the end of the data makes it less. -/
theorem supply_eq (reader : Reader) {wanted : Nat} (asked : 0 < wanted) :
    reader.supply data wanted =
      match reader.strikeWithin data reader.position wanted with
      | some fuse => .error fuse.failure
      | none => .ok (Content.slice data reader.position wanted) := by
  have rest : Content.slice data reader.position (min wanted (data.size - reader.position)) =
      Content.slice data reader.position wanted := Content.slice_min ..
  cases fused : reader.readFuse with
  | none =>
      have reach : reader.reach data = data.size - reader.position := by
        rw [reach, edge, fused]
      simp only [supply, struckAt, strikeWithin, fused, Option.filter_none, reach]
      split
      · rfl
      · rw [← rest, Nat.min_eq_right (by omega)]
  | some fuse =>
      have reach : reader.reach data = min data.size fuse.start - reader.position := by
        rw [reach, edge, fused]
      simp only [supply, struckAt, strikeWithin, fused, Option.filter_some, reach,
        decide_eq_true_eq]
      by_cases met : fuse.start < reader.position + wanted ∧
          fuse.start ≤ max reader.position data.size
      · rw [if_neg (by omega), if_pos (by omega), if_pos met]
      · rw [if_neg met]
        split
        · rfl
        · have all : min wanted (data.size - reader.position) =
              min data.size fuse.start - reader.position := by omega
          rw [if_neg (by omega), ← rest, all]

/-- Without a fuse reading ends where the data end. -/
theorem edge_eq_size {reader : Reader} (calm : reader.readFuse = none) :
    reader.edge data = data.size := by
  rw [edge, calm]

/-- The place behind a call is the old one and the bytes that were there. -/
theorem placeAfter_eq (reader : Reader) (data : Array UInt8) (wanted : Nat) :
    reader.placeAfter data wanted = reader.position + min wanted (reader.reach data) := by
  unfold placeAfter reach
  omega

@[simp] theorem placeAfter_zero (reader : Reader) (data : Array UInt8) :
    reader.placeAfter data 0 = reader.position := by
  unfold placeAfter
  omega

end Reader

namespace Header

variable {data : Array UInt8}

/-- What a call that begins at a place answers: the failure that it meets there, or what parsing
says of the bytes. -/
def answerAt (reader : Reader) (data : Array UInt8) (place : Nat) : Except Stop Header :=
  match reader.strikeWithin data place size with
  | some fuse => .error (.error (.failed .readHeader fuse.failure))
  | none => (parse (Content.slice data place size)).mapError .error

end Header

/-- **One call.** Only the failure, the bytes of one record and the end of the data count; the
reader stands behind them then. -/
theorem Machine.perform_nextHeader {machine : Machine} {data : Array UInt8}
    (source : machine.content = .bytes data) :
    ∃ served waiting, machine.perform Header.readNext =
      (Header.answerAt machine.reader data machine.reader.position,
        machine.withReader (machine.reader.goneTo (machine.reader.placeAfter data Header.size)
          served waiting)) := by
  obtain ⟨served, waiting, read⟩ := perform_readUpTo source Header.size
  refine ⟨served, waiting, ?_⟩
  rw [← Reader.placeAfter_eq, Reader.supply_eq _ (by decide)] at read
  rw [Header.answerAt]
  cases met : machine.reader.strikeWithin data machine.reader.position Header.size with
  | some fuse =>
      rw [met] at read
      exact perform_bind_error (perform_attempt_eq read _) _
  | none =>
      rw [met] at read
      exact perform_bind_ok (perform_attempt_eq read _) _

namespace Header

variable {data : Array UInt8}

/-- All calls: each begins where the ones before it leave the reader. -/
theorem run_readEach {machine : Machine} (source : machine.content = .bytes data) (count : Nat) :
    ∃ served waiting, (readEach count : StateM Machine _).run machine =
      ((List.range count).map fun call =>
          answerAt machine.reader data (machine.reader.placeAfter data (call * size)),
        machine.withReader (machine.reader.goneTo
          (machine.reader.placeAfter data (count * size)) served waiting)) := by
  induction count generalizing machine with
  | zero =>
      refine ⟨machine.reader.served, machine.reader.waiting, ?_⟩
      rw [Nat.zero_mul, Reader.placeAfter_zero]
      rfl
  | succ count ih =>
      obtain ⟨served, waiting, first⟩ := Machine.perform_nextHeader source
      let reader := machine.reader.goneTo (machine.reader.placeAfter data size) served waiting
      have unchanged : (machine.withReader reader).content = .bytes data := source
      have on : ∀ calls, reader.placeAfter data (calls * size) =
          machine.reader.placeAfter data ((calls + 1) * size) := by
        intro calls
        have edge : reader.edge data = machine.reader.edge data := rfl
        have here : reader.position = machine.reader.placeAfter data size := rfl
        simp only [Reader.placeAfter, edge, here, Nat.succ_mul]
        omega
      obtain ⟨served', waiting', rest⟩ := ih unchanged
      have later : (readEach count : StateM Machine _).run (machine.withReader reader) =
          ((List.range count).map fun call =>
              answerAt machine.reader data (machine.reader.placeAfter data ((call + 1) * size)),
            machine.withReader (machine.reader.goneTo
              (machine.reader.placeAfter data ((count + 1) * size)) served' waiting')) := by
        simp only [← on]
        exact rest
      have begins : machine.reader.placeAfter data (0 * size) = machine.reader.position := by
        rw [Nat.zero_mul, Reader.placeAfter_zero]
      have step : (readEach (count + 1) : StateM Machine _).run machine =
          ((machine.perform readNext).1 ::
              ((readEach count : StateM Machine _).run (machine.perform readNext).2).1,
            ((readEach count : StateM Machine _).run (machine.perform readNext).2).2) := rfl
      refine ⟨served', waiting', ?_⟩
      rw [step, first, later, List.range_succ_eq_map, List.map_cons, List.map_map, begins]
      rfl

/-- Where no fuse is met, a call parses what it finds. -/
theorem answerAt_of_free {reader : Reader} {place : Nat}
    (free : reader.strikeWithin data place size = none) :
    answerAt reader data place =
      (parse ((data.toList.drop place).take size)).mapError .error := by
  rw [answerAt, free, Content.slice_eq]

/-- The failure of reading comes from a fuse: parsing has no such answer. -/
theorem answerAt_eq_failed_iff {reader : Reader} {place : Nat} {cause : Failure} :
    answerAt reader data place = .error (.error (.failed .readHeader cause)) ↔
      ∃ fuse, reader.strikeWithin data place size = some fuse ∧ fuse.failure = cause := by
  rw [answerAt]
  cases reader.strikeWithin data place size with
  | some fuse => simp
  | none =>
      constructor
      · intro failed
        cases parsed : parse (Content.slice data place size) with
        | ok header =>
            rw [parsed] at failed
            cases failed
        | error objection =>
            rw [parsed] at failed
            cases failed
            exact absurd rfl ((objection_ne_of_mem (mem_objections_of_parse parsed)).2 _ _)
      · rintro ⟨fuse, met, -⟩
        cases met

/-- Cutting a row of records gives back the records. -/
theorem take_drop_flatten {records : List Bytes} (width : Nat)
    (complete : ∀ record ∈ records, record.length = width) (rest : Bytes) {call : Nat}
    (inside : call < records.length) :
    ((records.flatten ++ rest).drop (call * width)).take width = records[call] := by
  induction records generalizing call with
  | nil => exact absurd inside (Nat.not_lt_zero _)
  | cons record others ih =>
      have first := complete record List.mem_cons_self
      rw [List.flatten_cons, List.append_assoc]
      cases call with
      | zero =>
          rw [Nat.zero_mul, List.drop_zero, ← first, List.take_left]
          rfl
      | succ call =>
          have behind : (call + 1) * width = record.length + call * width := by
            rw [first, Nat.succ_mul, Nat.add_comm]
          rw [behind, ← List.drop_drop, List.drop_left]
          exact ih (fun other among => complete other (List.mem_cons_of_mem _ among))
            (Nat.lt_of_succ_lt_succ inside)

/-- Records that lie one behind the other come out one by one. -/
theorem map_answerAt_records {reader : Reader} (calm : reader.readFuse = none)
    {records : List Bytes} {rest : Bytes} (complete : ∀ record ∈ records, record.length = size)
    (lie : data.toList.drop reader.position = records.flatten ++ rest) :
    ((List.range records.length).map fun call =>
        answerAt reader data (reader.placeAfter data (call * size))) =
      records.map fun record => (parse record).mapError .error := by
  refine List.ext_getElem (by simp) fun call inside _ => ?_
  rw [List.length_map, List.length_range] at inside
  have cut : ((data.toList.drop (reader.position + call * size)).take size) = records[call] := by
    rw [← List.drop_drop, lie, take_drop_flatten size complete rest inside]
  have enough : reader.position + call * size ≤ data.size := by
    have positive : 0 < size := by decide
    have whole := congrArg List.length cut
    rw [complete _ (List.getElem_mem inside), List.length_take, List.length_drop,
      Array.length_toList] at whole
    omega
  have place : reader.placeAfter data (call * size) = reader.position + call * size := by
    rw [Reader.placeAfter, Reader.edge_eq_size calm]
    omega
  rw [List.getElem_map, List.getElem_map, List.getElem_range,
    answerAt_of_free (Reader.strikeWithin_of_calm calm _ _), place, cut]

/-- **Calls take records, one each.** However the source is paced, and whatever comes of the calls
before it, a call parses the bytes of one record from where it begins, as many as there are, and
the next one begins behind them. It fails to read exactly when a failure waits in front of the last
byte that it asks for and no farther than at the end; one that waits right behind the record is not
met. So without failures records that lie one behind the other come out one by one, and none is
lost or moved by another that is rejected. -/
theorem readEach_takes_records {machine : Machine} (source : machine.content = .bytes data)
    (count : Nat) :
    let reader := machine.reader
    let place (calls : Nat) :=
      max reader.position (min (reader.position + calls * 1632) (reader.edge data))
    let meets (call : Nat) (fuse : Fuse) : Prop :=
      reader.readFuse = some fuse ∧ fuse.start < place call + 1632 ∧
        fuse.start ≤ max (place call) data.size
    ∃ answers after, (readEach count : StateM Machine _).run machine = (answers, after) ∧
      answers.length = count ∧ after.reader.position = place count ∧
      (∀ call < count,
        (∀ fuse, meets call fuse →
          answers[call]? = some (.error (.error (.failed .readHeader fuse.failure)))) ∧
        ((∀ fuse, ¬ meets call fuse) → answers[call]? =
          some ((parse ((data.toList.drop (place call)).take 1632)).mapError .error)) ∧
        ((∃ cause, answers[call]? = some (.error (.error (.failed .readHeader cause)))) ↔
          ∃ fuse, meets call fuse)) ∧
      (reader.readFuse = none →
        after.reader.position =
          max reader.position (min (reader.position + count * 1632) data.size) ∧
        ∀ (records : List Bytes) (rest : Bytes), (∀ record ∈ records, record.length = 1632) →
          records.length = count →
          data.toList.drop reader.position = records.flatten ++ rest →
          answers = records.map fun record => (parse record).mapError .error) := by
  intro reader place meets
  obtain ⟨served, waiting, ran⟩ : ∃ served waiting,
      (readEach count : StateM Machine _).run machine =
        ((List.range count).map fun call => answerAt reader data (place call),
          machine.withReader (reader.goneTo (place count) served waiting)) :=
    run_readEach source count
  have met : ∀ call fuse, reader.strikeWithin data (place call) size = some fuse ↔
      meets call fuse := fun _ _ => Reader.strikeWithin_eq_some_iff
  have answered : ∀ call < count, ((List.range count).map fun call =>
      answerAt reader data (place call))[call]? = some (answerAt reader data (place call)) := by
    intro call inside
    rw [List.getElem?_map, List.getElem?_range inside, Option.map_some]
  refine ⟨_, _, ran, ?_, rfl, ?_, ?_⟩
  · rw [List.length_map, List.length_range]
  · intro call inside
    refine ⟨fun fuse strikes => ?_, fun free => ?_, ?_⟩
    · refine (answered call inside).trans (congrArg some ?_)
      exact answerAt_eq_failed_iff.mpr ⟨fuse, (met call fuse).mpr strikes, rfl⟩
    · refine (answered call inside).trans (congrArg some (answerAt_of_free ?_))
      exact Option.eq_none_iff_forall_ne_some.mpr fun fuse strikes =>
        free fuse ((met call fuse).mp strikes)
    · rw [answered call inside]
      simp only [Option.some.injEq, answerAt_eq_failed_iff, met]
      exact ⟨fun ⟨_, fuse, strikes, _⟩ => ⟨fuse, strikes⟩,
        fun ⟨fuse, strikes⟩ => ⟨_, fuse, strikes, rfl⟩⟩
  · intro calm
    refine ⟨?_, fun records rest complete all lie => ?_⟩
    · rw [← reader.edge_eq_size calm]
      rfl
    · rw [← all]
      exact map_answerAt_records calm complete lie

/-- Three calls on a source that is interrupted and gives at most 700 bytes a time: a record of
zeros, one that is accepted, and five bytes at a failure that waits right behind the second. -/
theorem readEach_rejected_accepted_failed :
    let header : Header :=
      ⟨1, 0x8000, 2, 0, 0, 0, 0x100, 2048, 0, ⟨402653574⟩, .padded 16 [0x62],
        .padded 512 [], ⟨.padded 32 []⟩, .padded 1024 []⟩
    let data := (List.replicate 1632 0 ++ header.encode ++ [7, 7, 7, 7, 7]).toArray
    let failure : Failure := ⟨.other, "gone"⟩
    let reader : Reader :=
      { Reader.fresh with
        pace := fun call => ⟨call % 3, some 699⟩
        readFuse := some ⟨3264, failure⟩ }
    let machine : Machine :=
      { Machine.ofFiles ⟨.empty, [], []⟩ with origin := .memory data, reader := reader }
    ∃ after, (readEach 3 : StateM Machine _).run machine =
        ([.error (.error (.wrongMagic (List.replicate 8 0))), .ok header,
          .error (.error (.failed .readHeader failure))], after) ∧
      after.reader.position = 3264 := by
  intro header data failure reader machine
  have source : machine.content = .bytes data := rfl
  have list : data.toList = List.replicate 1632 0 ++ (header.encode ++ [7, 7, 7, 7, 7]) := by
    rw [List.toList_toArray, List.append_assoc]
  have length : data.size = 3269 := by
    rw [← Array.length_toList, list, List.length_append, List.length_append, List.length_replicate,
      length_encode]
    rfl
  have fused : machine.reader.readFuse = some ⟨3264, failure⟩ := rfl
  have edge : machine.reader.edge data = 3264 := by
    rw [Reader.edge, fused, length]
    rfl
  have here : machine.reader.position = 0 := rfl
  obtain ⟨answers, after, ran, three, position, calls, -⟩ := readEach_takes_records source 3
  rw [edge, here] at position
  simp only [edge, here, fused, length] at calls
  have rejected : answers[0]? = some (.error (.error (.wrongMagic (List.replicate 8 0)))) := by
    refine ((calls 0 (by decide)).2.1 ?_).trans ?_
    · rintro fuse ⟨⟨⟩, before, -⟩
      exact absurd before (by decide)
    · have record : (data.toList.drop (max 0 (min (0 + 0 * 1632) 3264))).take 1632 =
          List.replicate 1632 0 := by
        rw [list]
        exact List.take_left' List.length_replicate
      have parsed : parse (List.replicate 1632 0) = .error (.wrongMagic (List.replicate 8 0)) := by
        rw [parse_eq_firstOf, objections, List.length_replicate, if_neg (by decide),
          List.take_replicate, if_neg (by decide)]
        rfl
      rw [record, parsed]
      rfl
  have accepted : answers[1]? = some (.ok header) := by
    refine ((calls 1 (by decide)).2.1 ?_).trans ?_
    · rintro fuse ⟨⟨⟩, before, -⟩
      exact absurd before (by decide)
    · have record : (data.toList.drop (max 0 (min (0 + 1 * 1632) 3264))).take 1632 =
          header.encode ++ [] := by
        have behind : data.toList.drop 1632 = header.encode ++ [7, 7, 7, 7, 7] := by
          rw [list]
          exact List.drop_left' List.length_replicate
        rw [List.append_nil]
        exact (congrArg (List.take 1632) behind).trans (List.take_left' (length_encode header))
      rw [record, parse_encode_append]
      rfl
  have failed : answers[2]? = some (.error (.error (.failed .readHeader failure))) :=
    (calls 2 (by decide)).1 ⟨3264, failure⟩ ⟨rfl, by decide, by decide⟩
  have all : answers = [.error (.error (.wrongMagic (List.replicate 8 0))), .ok header,
      .error (.error (.failed .readHeader failure))] := by
    refine List.ext_getElem? fun call => ?_
    rcases call with _ | _ | _ | call
    · exact rejected
    · exact accepted
    · exact failed
    · rw [List.getElem?_eq_none (by omega)]
      rfl
  exact ⟨after, all ▸ ran, position.trans (by decide)⟩

end Header

end BootImage
