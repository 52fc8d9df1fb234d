import BootImage.Proofs.Machine.Perform

/-!
Reading from a machine's source. However a reader paces its calls, `Host.readUpTo` gives the next
bytes up to the place where reading ends, and the failure that waits there; `Host.readExact` gives
all bytes it is asked for or a failure.
-/

namespace BootImage

theorem Content.slice_eq (data : Array UInt8) (start count : Nat) :
    Content.slice data start count = (data.toList.drop start).take count := by
  rw [Content.slice, Array.toList_extract, List.extract_eq_take_drop, Nat.add_sub_cancel_left]

/-- A slice in two parts. -/
theorem Content.slice_append (data : Array UInt8) (start first second : Nat) :
    Content.slice data start first ++ Content.slice data (start + first) second =
      Content.slice data start (first + second) := by
  rw [Content.slice_eq, Content.slice_eq, Content.slice_eq, ← List.drop_drop, List.take_add]

theorem Content.length_slice (data : Array UInt8) (start count : Nat) :
    (Content.slice data start count).length = min count (data.size - start) := by
  rw [Content.slice_eq, List.length_take, List.length_drop, Array.length_toList]

/-- A slice that is asked to go beyond the data is as long as there are bytes. -/
theorem Content.slice_min (data : Array UInt8) (start count : Nat) :
    Content.slice data start (min count (data.size - start)) = Content.slice data start count := by
  have all : (data.toList.drop start).length = data.size - start := by
    rw [List.length_drop, Array.length_toList]
  rw [Content.slice_eq, Content.slice_eq, ← all, ← List.take_take, List.take_length]

namespace Reader

variable {data : Array UInt8}

/-- A reader with the same faults and the same pace, somewhere else. -/
def goneTo (reader : Reader) (position served waiting : Nat) : Reader :=
  { reader with position, served, waiting }

/-- A reader whose next call is served at once. -/
def ready (reader : Reader) : Reader :=
  { reader with waiting := 0 }

/-- Where reading ends: at the fuse or at the end of the data, whichever comes first. -/
def edge (reader : Reader) (data : Array UInt8) : Nat :=
  match reader.readFuse with
  | none => data.size
  | some fuse => min data.size fuse.start

/-- How many bytes there are to be read from a place. -/
def reach (reader : Reader) (data : Array UInt8) : Nat :=
  reader.edge data - reader.position

/-- The fuse that has struck at a place. -/
def struckAt (reader : Reader) (position : Nat) : Option Fuse :=
  reader.readFuse.filter (·.start ≤ position)

theorem struckAt_eq_none {reader : Reader} {position : Nat}
    (before : position < reader.edge data) : reader.struckAt position = none := by
  cases fused : reader.readFuse with
  | none => simp [struckAt, fused]
  | some fuse =>
      simp only [edge, fused] at before
      simp only [struckAt, fused, Option.filter_some, decide_eq_true_eq, ite_eq_right_iff,
        reduceCtorEq, imp_false]
      omega

/-- A turn gives at least one byte of those that are asked for, unless the fuse comes first. -/
theorem exists_allowance_eq (reader : Reader) {wanted : Nat} (asked : 0 < wanted) :
    ∃ turn, 0 < turn ∧ turn ≤ wanted ∧ reader.allowance wanted =
      match reader.readFuse with
      | none => turn
      | some fuse => min turn (fuse.start - reader.position) := by
  unfold allowance
  cases (reader.pace reader.served).extra with
  | none => exact ⟨wanted, asked, Nat.le_refl _, rfl⟩
  | some extra =>
      exact ⟨min wanted (extra + 1), Nat.lt_min.mpr ⟨asked, Nat.succ_pos _⟩, Nat.min_le_left .., rfl⟩

/-- What a call before the edge gives: something, and nothing behind the edge. -/
theorem allowance_bounds {reader : Reader} {wanted : Nat} (asked : 0 < wanted)
    (before : reader.position < reader.edge data) :
    let count := min (reader.allowance wanted) (data.size - reader.position)
    0 < count ∧ count ≤ wanted ∧ count ≤ reader.reach data := by
  obtain ⟨turn, positive, bounded, given⟩ := reader.exists_allowance_eq asked
  unfold reach edge
  unfold edge at before
  rw [given]
  cases fused : reader.readFuse with
  | none =>
      simp only [fused] at before ⊢
      omega
  | some fuse =>
      simp only [fused] at before ⊢
      omega

/-- Before the edge a served call gives some of the bytes that are asked for. -/
theorem serve_before (reader : Reader) {wanted : Nat} (asked : 0 < wanted)
    (before : 0 < reader.reach data) :
    ∃ count, 0 < count ∧ count ≤ wanted ∧ count ≤ reader.reach data ∧
      reader.serve (.bytes data) wanted =
        (.ok (Content.slice data reader.position count), reader.moved count) := by
  have inside : reader.position < reader.edge data := by unfold reach at before; omega
  obtain ⟨positive, bounded, near⟩ := allowance_bounds asked inside
  refine ⟨_, positive, bounded, near, ?_⟩
  have free := struckAt_eq_none inside
  rw [struckAt] at free
  rw [serve, free, Content.slice_min]
  simp only [Content.length_slice]

/-- At the edge and behind it nothing comes any more. -/
theorem serve_behind (reader : Reader) (wanted : Nat) (behind : reader.reach data = 0) :
    reader.serve (.bytes data) wanted =
      (match reader.struckAt reader.position with
        | some fuse => .error fuse.failure
        | none => .ok [], reader.moved 0) := by
  rw [serve, struckAt]
  cases struck : reader.readFuse.filter (·.start ≤ reader.position) with
  | some fuse => rfl
  | none =>
      have ended : data.size ≤ reader.position := by
        unfold reach edge at behind
        cases fused : reader.readFuse with
        | none =>
            simp only [fused] at behind
            omega
        | some fuse =>
            simp only [fused, Option.filter_some, decide_eq_true_eq, ite_eq_right_iff,
              reduceCtorEq, imp_false] at behind struck
            omega
      have nothing : Content.slice data reader.position (reader.allowance wanted) = [] := by
        rw [Content.slice_eq, List.drop_of_length_le (by simpa using ended), List.take_nil]
      simp only [nothing, List.length_nil]

/-- A call does what it does when it is served, however often it is interrupted before. -/
theorem exists_read_eq (reader : Reader) (content : Content) (wanted : Nat) {count : Nat}
    {answer : Except Failure Bytes}
    (served : reader.ready.serve content wanted = (answer, reader.ready.moved count)) :
    ∃ served waiting, reader.read content wanted =
      (answer, reader.goneTo (reader.position + count) served waiting) :=
  ⟨_, _, (read_eq_serve ..).trans served⟩

/-- Before the edge a call gives some of the bytes that are asked for, interrupted or not. -/
theorem read_before {reader : Reader} {wanted : Nat} (asked : 0 < wanted)
    (before : 0 < reader.reach data) :
    ∃ count served waiting, 0 < count ∧ count ≤ wanted ∧ count ≤ reader.reach data ∧
      reader.read (.bytes data) wanted = (.ok (Content.slice data reader.position count),
        reader.goneTo (reader.position + count) served waiting) := by
  obtain ⟨count, positive, bounded, near, given⟩ :=
    reader.ready.serve_before asked before
  obtain ⟨served, waiting, called⟩ := reader.exists_read_eq (.bytes data) wanted given
  exact ⟨count, served, waiting, positive, bounded, near, called⟩

/-- At the edge and behind it the fuse answers, or the end of the data. -/
theorem read_behind {reader : Reader} (wanted : Nat) (behind : reader.reach data = 0) :
    ∃ served waiting, reader.read (.bytes data) wanted =
      (match reader.struckAt reader.position with
        | some fuse => .error fuse.failure
        | none => .ok [], reader.goneTo reader.position served waiting) :=
  reader.exists_read_eq (.bytes data) wanted (reader.ready.serve_behind wanted behind)

theorem allowance_le (reader : Reader) (wanted : Nat) : reader.allowance wanted ≤ wanted := by
  rcases Nat.eq_zero_or_pos wanted with rfl | asked
  · unfold allowance
    cases (reader.pace reader.served).extra <;> cases reader.readFuse <;> simp
  · obtain ⟨turn, -, bounded, given⟩ := reader.exists_allowance_eq asked
    rw [given]
    split
    · exact bounded
    · exact Nat.le_trans (Nat.min_le_left ..) bounded

/-- No call gives more than it is asked for, whatever the source is. -/
theorem length_read_le {reader : Reader} {content : Content} {wanted : Nat} {bytes : Bytes}
    (given : (reader.read content wanted).1 = .ok bytes) : bytes.length ≤ wanted := by
  have allowed := reader.ready.allowance_le wanted
  rw [read_eq_serve] at given
  unfold serve at given
  split at given
  · cases given
  · cases content with
    | bytes data =>
        cases given
        rw [Content.length_slice]
        exact Nat.le_trans (Nat.min_le_left ..) allowed
    | zeros =>
        cases given
        rw [List.length_replicate]
        exact allowed
    | unreadable failure => cases given

theorem edge_le (reader : Reader) (data : Array UInt8) : reader.edge data ≤ data.size := by
  unfold edge
  split <;> omega

/-- A slice that ends before the edge is complete. -/
theorem length_slice_of_le_reach {reader : Reader} {count : Nat}
    (near : count ≤ reader.reach data) :
    (Content.slice data reader.position count).length = count := by
  have inside := reader.edge_le data
  unfold reach at near
  rw [Content.length_slice]
  omega

/-- What a reader gives in all when `wanted` bytes are asked for: the bytes up to the edge, or the
failure that waits there when they do not suffice. -/
def supply (reader : Reader) (data : Array UInt8) (wanted : Nat) : Except Failure Bytes :=
  if wanted ≤ reader.reach data then .ok (Content.slice data reader.position wanted)
  else
    match reader.struckAt (reader.position + reader.reach data) with
    | some fuse => .error fuse.failure
    | none => .ok (Content.slice data reader.position (reader.reach data))

/-- The failure of a reader that cannot go on to give a block. -/
def obstacle (reader : Reader) (data : Array UInt8) : Failure :=
  match reader.struckAt (reader.position + reader.reach data) with
  | some fuse => fuse.failure
  | none => .endOfInput

@[simp] theorem reach_goneTo (reader : Reader) (position served waiting : Nat) :
    (reader.goneTo position served waiting).reach data = reader.edge data - position := rfl

theorem supply_zero (reader : Reader) : reader.supply data 0 = .ok [] := by
  rw [supply, if_pos (Nat.zero_le _), Content.slice_eq, List.take_zero]

/-- What is given in all is what one call gives and what the reader behind it gives. -/
theorem supply_after {reader : Reader} {count wanted : Nat} (bounded : count ≤ wanted)
    (near : count ≤ reader.reach data) (served waiting : Nat) :
    ((reader.goneTo (reader.position + count) served waiting).supply data (wanted - count)).map
        (Content.slice data reader.position count ++ ·) = reader.supply data wanted := by
  have rest : reader.edge data - (reader.position + count) = reader.reach data - count := by
    unfold reach
    omega
  have place : reader.position + count + (reader.reach data - count) =
      reader.position + reader.reach data := by omega
  have enough : wanted - count ≤ reader.reach data - count ↔ wanted ≤ reader.reach data := by omega
  have struck : ∀ position, (reader.goneTo (reader.position + count) served waiting).struckAt
      position = reader.struckAt position := fun _ => rfl
  have here : (reader.goneTo (reader.position + count) served waiting).position =
      reader.position + count := rfl
  simp only [supply, reach_goneTo, rest, enough, here, struck, place]
  split
  · simp only [Except.map, Content.slice_append, Nat.add_sub_cancel' bounded]
  · split
    · rfl
    · simp only [Except.map, Content.slice_append, Nat.add_sub_cancel' near]

end Reader

namespace Machine

variable {data : Array UInt8}

def withReader (machine : Machine) (reader : Reader) : Machine :=
  { machine with reader }

theorem perform_read {machine : Machine} {content : Content}
    (source : machine.content = content) {wanted : Nat} {answer : Except Failure Bytes}
    {reader : Reader} (called : machine.reader.read content wanted = (answer, reader)) :
    machine.perform (.mk (Host.read wanted)) = (answer, machine.withReader reader) := by
  rw [← source] at called
  have step : machine.perform (.mk (Host.read wanted)) =
      ((machine.reader.read machine.content wanted).1,
        machine.withReader (machine.reader.read machine.content wanted).2) := rfl
  rw [step, called]

/-- A chunk may be put in front of what comes next, or behind what came before. -/
theorem map_flatten_cons (chunk : Bytes) (chunks : List Bytes) (answer : Except Failure Bytes) :
    answer.map ((chunk :: chunks).reverse.flatten ++ ·) =
      (answer.map (chunk ++ ·)).map (chunks.reverse.flatten ++ ·) := by
  cases answer with
  | error _ => rfl
  | ok bytes => simp [Except.map]

/-- However the calls are paced, what comes of them is what the reader gives in all. -/
theorem perform_readChunks {machine : Machine} (source : machine.content = .bytes data)
    (wanted : Nat) (chunks : List Bytes) :
    ∃ served waiting, machine.perform (Host.readChunks wanted chunks) =
      ((machine.reader.supply data wanted).map (chunks.reverse.flatten ++ ·),
        machine.withReader (machine.reader.goneTo
          (machine.reader.position + min wanted (machine.reader.reach data)) served waiting)) := by
  -- A call before the edge gives at least one byte, however it is paced, so there is less to read
  -- after it; behind the edge there is nothing to go on for.
  induction wanted using Nat.strongRecOn generalizing machine chunks with
  | ind wanted ih =>
      rw [Host.readChunks]
      by_cases done : wanted = 0
      · subst done
        refine ⟨machine.reader.served, machine.reader.waiting, ?_⟩
        rw [if_pos rfl, Reader.supply_zero]
        simp [Except.map, withReader, Reader.goneTo]
      · rw [if_neg done]
        have asked : 0 < wanted := Nat.pos_of_ne_zero done
        by_cases behind : machine.reader.reach data = 0
        · have out : ¬ wanted ≤ machine.reader.reach data := by omega
          obtain ⟨served, waiting, called⟩ := Reader.read_behind wanted behind
          refine ⟨served, waiting, ?_⟩
          rw [Reader.supply, if_neg out, behind, Nat.min_zero, Nat.add_zero]
          cases struck : machine.reader.struckAt machine.reader.position with
          | some fuse =>
              rw [struck] at called
              exact perform_bind_error (perform_read source called) _
          | none =>
              rw [struck] at called
              rw [perform_bind_ok (perform_read source called)]
              simp [Except.map, Content.slice_eq]
        · obtain ⟨count, served, waiting, positive, bounded, near, called⟩ :=
            Reader.read_before asked (Nat.pos_of_ne_zero behind)
          have given := Reader.length_slice_of_le_reach near
          have filled : Content.slice data machine.reader.position count ≠ [] := by
            rw [← List.length_pos_iff, given]
            exact positive
          let after := machine.withReader
            (machine.reader.goneTo (machine.reader.position + count) served waiting)
          have unchanged : after.content = .bytes data := source
          obtain ⟨served', waiting', rest⟩ := ih (wanted - count) (by omega) unchanged
            (Content.slice data machine.reader.position count :: chunks)
          refine ⟨served', waiting', ?_⟩
          rw [perform_bind_ok (perform_read source called), if_neg filled, given, rest,
            ← Reader.supply_after bounded near served waiting]
          have place : machine.reader.position + count + min (wanted - count)
              (machine.reader.edge data - (machine.reader.position + count)) =
              machine.reader.position + min wanted (machine.reader.reach data) := by
            unfold Reader.reach at near ⊢
            omega
          refine Prod.ext ?_ ?_
          · exact map_flatten_cons _ _ _
          · rw [← place]
            rfl

/-- Reading up to so many bytes. -/
theorem perform_readUpTo {machine : Machine} (source : machine.content = .bytes data)
    (wanted : Nat) :
    ∃ served waiting, machine.perform (Host.readUpTo wanted) =
      (machine.reader.supply data wanted, machine.withReader (machine.reader.goneTo
        (machine.reader.position + min wanted (machine.reader.reach data)) served waiting)) := by
  obtain ⟨served, waiting, read⟩ := perform_readChunks source wanted []
  refine ⟨served, waiting, read.trans ?_⟩
  cases machine.reader.supply data wanted <;> rfl

/-- Reading so many bytes where there are as many. -/
theorem perform_readExact_of_le {machine : Machine} (source : machine.content = .bytes data)
    {wanted : Nat} (enough : wanted ≤ machine.reader.reach data) :
    ∃ served waiting, machine.perform (Host.readExact wanted) =
      (.ok (Content.slice data machine.reader.position wanted), machine.withReader
        (machine.reader.goneTo (machine.reader.position + wanted) served waiting)) := by
  obtain ⟨served, waiting, read⟩ := perform_readUpTo source wanted
  refine ⟨served, waiting, ?_⟩
  rw [Reader.supply, if_pos enough, Nat.min_eq_left enough] at read
  rw [Host.readExact, perform_bind_ok read, Reader.length_slice_of_le_reach enough,
    if_neg (Nat.lt_irrefl _), perform_pure]

/-- Reading so many bytes where there are fewer. -/
theorem perform_readExact_of_lt {machine : Machine} (source : machine.content = .bytes data)
    {wanted : Nat} (short : machine.reader.reach data < wanted) :
    ∃ served waiting, machine.perform (Host.readExact wanted) =
      (.error (machine.reader.obstacle data), machine.withReader (machine.reader.goneTo
        (machine.reader.position + machine.reader.reach data) served waiting)) := by
  obtain ⟨served, waiting, read⟩ := perform_readUpTo source wanted
  refine ⟨served, waiting, ?_⟩
  rw [Reader.supply, if_neg (Nat.not_le.mpr short), Nat.min_eq_right (Nat.le_of_lt short)] at read
  rw [Host.readExact, Reader.obstacle]
  cases struck : machine.reader.struckAt
      (machine.reader.position + machine.reader.reach data) with
  | some fuse =>
      rw [struck] at read
      exact perform_bind_error read _
  | none =>
      rw [struck] at read
      rw [perform_bind_ok read, Reader.length_slice_of_le_reach (Nat.le_refl _), if_pos short,
        perform_throw]

end Machine

end BootImage
