import BootImage.Proofs.Host.Always
import BootImage.Proofs.Machine.Reading

/-!
A host that is watched: work does on it what it does on the host itself, and leaves a record of what
the destination was offered and what it answered.

* `Shows`: what work answers and offers whenever it is watched, and that it is not changed by that.
* `Shows.bind`, `Shows.offered_bind`: two pieces of work, one behind the other.
* `shows_readExact`, `shows_writeAll`: reading offers nothing; writing offers no empty buffer, and
  only one where the destination takes all of it.
-/

namespace BootImage

/-- A call that offers bytes to a destination, and what the destination answers. -/
structure Offer where
  bytes : Bytes
  answer : Except Failure Nat

/-- The destination took all that it was offered. -/
def Offer.Whole (offer : Offer) : Prop :=
  offer.answer = .ok offer.bytes.length

instance : (offer : Offer) → Decidable offer.Whole
  | ⟨_, .error _⟩ => isFalse nofun
  | ⟨bytes, .ok taken⟩ =>
      decidable_of_iff (taken = bytes.length) ⟨congrArg Except.ok, Except.ok.inj⟩

/-- Work on a host that goes on with a record of offers. -/
def Watched (m : Type → Type) (α : Type) : Type :=
  StateT (List Offer) m α

namespace Watched

variable {m : Type → Type} {α : Type} [Host m]

instance : Monad (Watched m) :=
  inferInstanceAs (Monad (StateT (List Offer) m))

instance [LawfulMonad m] : LawfulMonad (Watched m) :=
  inferInstanceAs (LawfulMonad (StateT (List Offer) m))

/-- Work that offers nothing. -/
def quiet (work : m α) : Watched m α :=
  fun before => (·, before) <$> work

/-- Offers bytes and puts it on record. -/
def offer (bytes : Bytes) : Watched m (Except Failure Nat) :=
  fun before => (fun answer => (answer, before ++ [⟨bytes, answer⟩])) <$> Host.write bytes

instance : Host (Watched m) where
  openSource path := quiet (Host.openSource path)
  seek position := quiet (Host.seek position)
  read wanted := quiet (Host.read wanted)
  create path := quiet (Host.create path)
  write bytes := offer bytes
  flush := quiet Host.flush
  markExecutable := quiet Host.markExecutable
  close := quiet Host.close
  makeDirectories path := quiet (Host.makeDirectories path)
  report event := quiet (Host.report event)
  print text := quiet (Host.print text)

end Watched

/-- What work answers when it is watched from its start, and what it has offered. -/
def watch {m : Type → Type} {α ε : Type} (work : ExceptT ε (Watched m) α) :
    m (Except ε α × List Offer) :=
  StateT.run work.run []

/-- A source that gives no more than it is asked for. -/
def Host.Measured (m : Type → Type) [Host m] : Prop :=
  ∀ wanted, Always (fun answer => ∀ bytes, answer = .ok bytes → bytes.length ≤ wanted)
    (Host.read wanted : m (Except Failure Bytes))

/-- Every source of a machine is one. -/
theorem Machine.measured : Host.Measured (StateM Machine) := by
  intro wanted
  refine always_iff_run.mpr fun machine bytes given => ?_
  have called : (machine.reader.read machine.content wanted).1 = .ok bytes := given
  exact Reader.length_read_le called

section Rules

variable {m : Type → Type} [Host m] {α β ε δ : Type}

/-- Whatever was on record before, work that is watched does what the plain work does, and a
property holds of every answer together with the offers that were made for it. -/
def Shows (holds : Except ε α → List Offer → Prop) (watched : ExceptT ε (Watched m) α)
    (plain : ExceptT ε m α) : Prop :=
  ∃ proved : m { outcome : Except ε α × List Offer // holds outcome.1 outcome.2 },
    (∀ before, StateT.run watched.run before =
      (fun outcome => (outcome.1.1, before ++ outcome.1.2)) <$> proved) ∧
    plain.run = (fun outcome => outcome.1.1) <$> proved

/-- What was offered when chunks of these lengths were to be written: nothing empty and nothing
longer than a block, and, if all of it was taken at once, the chunks. -/
structure Offered (block : Nat) (chunks : List Nat) (answer : Except ε α) (offers : List Offer) :
    Prop where
  bounded : ∀ offer ∈ offers, 0 < offer.bytes.length ∧ offer.bytes.length ≤ block
  chunked : ∀ value, answer = .ok value → (∀ offer ∈ offers, offer.Whole) →
    offers.map (·.bytes.length) = chunks

/-- Nothing was offered, and a value has a property. -/
structure Gives (property : α → Prop) (answer : Except ε α) (offers : List Offer) : Prop where
  quiet : offers = []
  value : ∀ value, answer = .ok value → property value

theorem Gives.stopped {property : α → Prop} (reason : ε) :
    Gives property (.error reason : Except ε α) [] :=
  ⟨rfl, nofun⟩

theorem Gives.renamed {property : α → Prop} {answer : Except ε α} {offers : List Offer}
    {rename : ε → δ} (gives : Gives property answer offers) :
    Gives property (answer.mapError rename) offers where
  quiet := gives.quiet
  value := by
    intro value done
    cases answer with
    | error reason => cases done
    | ok found => exact gives.value value (congrArg Except.ok (Except.ok.inj done))

variable {block : Nat} {chunks others : List Nat}

theorem Offered.nothing (answer : Except ε α) : Offered block [] answer [] :=
  ⟨nofun, fun _ _ _ => rfl⟩

theorem Offered.stopped {reason : ε} {offers : List Offer}
    (offered : Offered block chunks (.error reason : Except ε α) offers) :
    Offered block others (.error reason : Except ε β) offers :=
  ⟨offered.bounded, nofun⟩

theorem Offered.append {value : α} {answer : Except ε β} {offers more : List Offer}
    (first : Offered block chunks (.ok value : Except ε α) offers)
    (rest : Offered block others answer more) :
    Offered block (chunks ++ others) answer (offers ++ more) where
  bounded := by
    intro offer among
    rcases List.mem_append.mp among with early | late
    · exact first.bounded offer early
    · exact rest.bounded offer late
  chunked := by
    intro found done whole
    rw [List.map_append,
      first.chunked value rfl fun offer early => whole offer (List.mem_append_left _ early),
      rest.chunked found done fun offer late => whole offer (List.mem_append_right _ late)]

/-- Where writing ends with a call, that call is the last offer. -/
theorem Offered.refused {bytes : Bytes} (filled : bytes ≠ []) (small : bytes.length ≤ block)
    (taken : Except Failure Nat) {reason : ε} :
    Offered block chunks (.error reason : Except ε α) [⟨bytes, taken⟩] where
  bounded := by
    rintro offer among
    rw [List.mem_singleton.mp among]
    exact ⟨List.length_pos_iff.mpr filled, small⟩
  chunked := nofun

/-- What is left of the bytes is offered behind them, and nothing where all were taken. -/
theorem Offered.behind {bytes : Bytes} {taken : Nat} {answer : Except ε α} {more : List Offer}
    (rest : Offered block
      (if bytes.drop taken = [] then [] else [(bytes.drop taken).length]) answer more)
    (filled : bytes ≠ []) (small : bytes.length ≤ block) :
    Offered block [bytes.length] answer (⟨bytes, .ok taken⟩ :: more) where
  bounded := by
    rintro offer among
    rcases List.mem_cons.mp among with rfl | late
    · exact ⟨List.length_pos_iff.mpr filled, small⟩
    · exact rest.bounded offer late
  chunked := by
    intro value done whole
    have all : taken = bytes.length := by
      have first := whole _ List.mem_cons_self
      exact Except.ok.inj first
    have behind := rest.chunked value done fun offer late =>
      whole offer (List.mem_cons_of_mem _ late)
    rw [all, List.drop_length, if_pos rfl] at behind
    rw [List.map_cons, behind]

/-- Renaming the reason to stop changes nothing that was offered. -/
theorem Offered.renamed {answer : Except ε α} {offers : List Offer} {rename : ε → δ}
    (offered : Offered block chunks answer offers) :
    Offered block chunks (answer.mapError rename) offers where
  bounded := offered.bounded
  chunked := by
    intro value done whole
    cases answer with
    | error reason => cases done
    | ok found => exact offered.chunked found rfl whole

variable [LawfulMonad m] {holds : Except ε α → List Offer → Prop}
  {result : Except ε β → List Offer → Prop} {watched : ExceptT ε (Watched m) α}
  {plain : ExceptT ε m α}

namespace Shows

/-- Without its record, work that is watched is the plain work. -/
theorem erase (shown : Shows holds watched plain) :
    Prod.fst <$> watch watched = plain.run := by
  obtain ⟨proved, ran, same⟩ := shown
  rw [watch, ran, same, Functor.map_map]

omit [LawfulMonad m] in
theorem always (shown : Shows holds watched plain) :
    Always (fun outcome => holds outcome.1 outcome.2) (watch watched) := by
  obtain ⟨proved, ran, -⟩ := shown
  exact ⟨proved, (ran []).symm⟩

/-- On a machine the plain work is done, and there are offers that the property holds of. -/
theorem exists_offers {watched : ExceptT ε (Watched (StateM Machine)) α}
    {plain : ExceptT ε (StateM Machine) α} (shown : Shows holds watched plain)
    (machine : Machine) :
    ∃ offers, (watch watched : StateM Machine _).run machine =
        (((machine.perform plain).1, offers), (machine.perform plain).2) ∧
      holds (machine.perform plain).1 offers := by
  obtain ⟨proved, ran, same⟩ := shown
  have done : machine.perform plain =
      ((StateT.run proved machine).1.1.1, (StateT.run proved machine).2) :=
    congrArg (StateT.run · machine) same
  refine ⟨(StateT.run proved machine).1.1.2, ?_, ?_⟩
  · rw [watch, ran, done]
    rfl
  · rw [done]
    exact (StateT.run proved machine).1.2

theorem quiet {property : Except ε α → Prop} {work : m (Except ε α)}
    (always : Always property work) (none : ∀ answer, property answer → holds answer []) :
    Shows holds (.mk (Watched.quiet work)) (.mk work) := by
  obtain ⟨proved, rfl⟩ := always
  refine ⟨(fun answer => ⟨(answer.1, []), none answer.1 answer.2⟩) <$> proved, ?_, ?_⟩
  · intro before
    show (·, before) <$> Subtype.val <$> proved = _
    simp only [Functor.map_map, List.append_nil]
  · rw [Functor.map_map]
    rfl

/-- Work that offers nothing and cannot stop. -/
theorem lift (work : m α) :
    Shows (Offered block []) (ExceptT.lift (Watched.quiet work) : ExceptT ε (Watched m) α)
      (ExceptT.lift work) := by
  refine ⟨(fun value => ⟨(.ok value, []), .nothing _⟩) <$> work, ?_, ?_⟩
  · intro before
    have step : StateT.run (ExceptT.lift (Watched.quiet work) : ExceptT ε (Watched m) α).run before =
        (fun value => (Except.ok value, before)) <$> work :=
      (StateT.run_map ..).trans (Functor.map_map ..)
    rw [step, Functor.map_map]
    simp only [List.append_nil]
  · rw [Functor.map_map]
    rfl

theorem answer {answer : Except ε α} (none : holds answer []) :
    Shows holds (.mk (Pure.pure answer)) (.mk (Pure.pure answer) : ExceptT ε m α) := by
  refine ⟨Pure.pure ⟨(answer, []), none⟩, ?_, ?_⟩
  · intro before
    rw [map_pure, List.append_nil]
    rfl
  · rw [map_pure]
    rfl

theorem pure {value : α} (none : holds (.ok value) []) :
    Shows holds (Pure.pure value) (Pure.pure value : ExceptT ε m α) :=
  answer none

theorem throw {reason : ε} (none : holds (.error reason) []) :
    Shows holds (MonadExcept.throw reason) (MonadExcept.throw reason : ExceptT ε m α) :=
  answer none

/-- What is offered behind a value comes behind what was offered for it. -/
theorem bind {next : α → ExceptT ε (Watched m) β} {after : α → ExceptT ε m β}
    (first : Shows holds watched plain)
    (stopped : ∀ reason offers, holds (.error reason) offers → result (.error reason) offers)
    (rest : ∀ value offers, holds (.ok value) offers →
      Shows (fun answer more => result answer (offers ++ more)) (next value) (after value)) :
    Shows result (watched >>= next) (plain >>= after) := by
  obtain ⟨proved, ran, same⟩ := first
  let go : { outcome : Except ε α × List Offer // holds outcome.1 outcome.2 } →
      m { outcome : Except ε β × List Offer // result outcome.1 outcome.2 }
    | ⟨(.error reason, offers), had⟩ =>
        Pure.pure ⟨(.error reason, offers), stopped reason offers had⟩
    | ⟨(.ok value, offers), had⟩ =>
        (fun behind => ⟨(behind.1.1, offers ++ behind.1.2), behind.2⟩) <$>
          (rest value offers had).choose
  refine ⟨proved >>= go, ?_, ?_⟩
  · intro before
    have step : StateT.run (watched >>= next).run before =
        StateT.run watched.run before >>= fun outcome =>
          StateT.run (ExceptT.bindCont next outcome.1).run outcome.2 := rfl
    rw [step, ran, bind_map_left, map_bind]
    refine bind_congr fun outcome => ?_
    obtain ⟨⟨answer, offers⟩, had⟩ := outcome
    cases answer with
    | error reason =>
        simp only [go, map_pure]
        rfl
    | ok value =>
        simp only [go, Functor.map_map, ← List.append_assoc]
        exact (rest value offers had).choose_spec.1 _
  · have step : (plain >>= after).run = plain.run >>= ExceptT.bindCont after := rfl
    rw [step, same, bind_map_left, map_bind]
    refine bind_congr fun outcome => ?_
    obtain ⟨⟨answer, offers⟩, had⟩ := outcome
    cases answer with
    | error reason =>
        simp only [go, map_pure]
        rfl
    | ok value =>
        simp only [go, Functor.map_map]
        exact (rest value offers had).choose_spec.2

/-- What is done with a value may rely on what holds of it. -/
theorem gives_bind {property : α → Prop} {next : α → ExceptT ε (Watched m) β}
    {after : α → ExceptT ε m β} (first : Shows (Gives property) watched plain)
    (stopped : ∀ reason, result (.error reason) [])
    (rest : ∀ value, property value → Shows result (next value) (after value)) :
    Shows result (watched >>= next) (plain >>= after) := by
  refine first.bind ?_ ?_
  · rintro reason offers ⟨rfl, -⟩
    exact stopped reason
  · rintro value offers ⟨rfl, had⟩
    exact rest value (had value rfl)

/-- Renaming the reasons to stop. -/
theorem adapt {named : Except δ α → List Offer → Prop} {rename : ε → δ}
    (shown : Shows holds watched plain)
    (renamed : ∀ answer offers, holds answer offers → named (answer.mapError rename) offers) :
    Shows named (watched.adapt rename) (plain.adapt rename) := by
  obtain ⟨proved, ran, same⟩ := shown
  refine ⟨(fun outcome => ⟨(outcome.1.1.mapError rename, outcome.1.2),
    renamed _ _ outcome.2⟩) <$> proved, ?_, ?_⟩
  · intro before
    have step : StateT.run (watched.adapt rename).run before =
        (fun outcome => (outcome.1.mapError rename, outcome.2)) <$>
          StateT.run watched.run before := StateT.run_map ..
    rw [step, ran, Functor.map_map, Functor.map_map]
  · have step : (plain.adapt rename).run = Except.mapError rename <$> plain.run := rfl
    rw [step, same, Functor.map_map, Functor.map_map]

theorem mono {other : Except ε α → List Offer → Prop} (shown : Shows holds watched plain)
    (weaker : ∀ answer offers, holds answer offers → other answer offers) :
    Shows other watched plain := by
  obtain ⟨proved, ran, same⟩ := shown
  refine ⟨(fun outcome => ⟨outcome.1, weaker _ _ outcome.2⟩) <$> proved, ?_, ?_⟩
  · intro before
    rw [ran, Functor.map_map]
  · rw [same, Functor.map_map]

/-- The chunks of two pieces of work follow each other. -/
theorem offered_bind {next : α → ExceptT ε (Watched m) β} {after : α → ExceptT ε m β}
    (first : Shows (Offered block chunks) watched plain)
    (rest : ∀ value, Shows (Offered block others) (next value) (after value)) :
    Shows (Offered block (chunks ++ others)) (watched >>= next) (plain >>= after) := by
  refine first.bind (fun _ _ offered => offered.stopped) fun value offers offered => ?_
  exact (rest value).mono fun _ _ behind => offered.append behind

theorem offered_attempt {watched : ExceptT Failure (Watched m) α} {plain : ExceptT Failure m α}
    (shown : Shows (Offered block chunks) watched plain) (activity : Activity) :
    Shows (Offered block chunks) (attempt activity watched) (attempt activity plain) :=
  shown.adapt fun _ _ offered => offered.renamed

end Shows

/-! ### Calls, and calls that are repeated -/

/-- A call that is none of writing. -/
theorem shows_quiet (work : m (Except ε α)) :
    Shows (Offered block []) (.mk (Watched.quiet work)) (.mk work) :=
  .quiet (Always.of_forall (fun _ => trivial) work) fun answer _ => Offered.nothing answer

theorem shows_tellAll (events : List Event) :
    Shows (Offered block []) (Host.tellAll events) (Host.tellAll events : ExceptT ε m Unit) := by
  induction events with
  | nil => exact .pure (.nothing _)
  | cons event rest ih => exact (Shows.lift (Host.report event)).offered_bind fun _ => ih

theorem shows_read (measured : Host.Measured m) (wanted : Nat) :
    Shows (Gives fun bytes => bytes.length ≤ wanted) (.mk (Host.read wanted))
      (.mk (Host.read wanted) : ExceptT Failure m Bytes) :=
  .quiet (measured wanted) fun _ given => ⟨rfl, given⟩

theorem shows_write (bytes : Bytes) :
    Shows (fun answer offers => offers = [⟨bytes, answer⟩]) (.mk (Host.write bytes))
      (.mk (Host.write bytes) : ExceptT Failure m Nat) := by
  refine ⟨(fun answer => ⟨(answer, [⟨bytes, answer⟩]), rfl⟩) <$> Host.write bytes, ?_, ?_⟩
  · intro before
    rw [Functor.map_map]
    rfl
  · rw [Functor.map_map, id_map']
    rfl

theorem shows_readChunks (measured : Host.Measured m) (wanted : Nat) (chunks : List Bytes) :
    Shows (Gives fun bytes => bytes.length ≤ chunks.flatten.length + wanted)
      (Host.readChunks wanted chunks) (Host.readChunks wanted chunks : ExceptT Failure m Bytes) := by
  induction wanted using Nat.strongRecOn generalizing chunks with
  | ind wanted ih =>
      have all : Gives (fun bytes => bytes.length ≤ chunks.flatten.length + wanted)
          (.ok chunks.reverse.flatten : Except Failure Bytes) [] := by
        refine ⟨rfl, ?_⟩
        rintro bytes ⟨⟩
        rw [List.length_flatten, List.length_flatten, List.map_reverse, List.sum_reverse]
        exact Nat.le_add_right _ _
      rw [Host.readChunks, Host.readChunks]
      split
      · exact .pure all
      · refine (shows_read measured wanted).gives_bind Gives.stopped fun chunk part => ?_
        by_cases ended : chunk = []
        · rw [if_pos ended, if_pos ended]
          exact .pure all
        · rw [if_neg ended, if_neg ended]
          have some := List.length_pos_iff.mpr ended
          have total : (chunk :: chunks).flatten.length + (wanted - chunk.length) =
              chunks.flatten.length + wanted := by
            rw [List.flatten_cons, List.length_append]
            omega
          exact total ▸ ih (wanted - chunk.length) (by omega) (chunk :: chunks)

/-- Reading gives as much as is asked for, or fails. -/
theorem shows_readExact (measured : Host.Measured m) (wanted : Nat) :
    Shows (Gives fun bytes => bytes.length = wanted) (Host.readExact wanted)
      (Host.readExact wanted : ExceptT Failure m Bytes) := by
  refine (shows_readChunks measured wanted []).gives_bind Gives.stopped ?_
  intro bytes most
  rw [List.flatten_nil, List.length_nil, Nat.zero_add] at most
  split
  · exact .throw (.stopped _)
  · refine .pure ⟨rfl, ?_⟩
    rintro _ ⟨⟩
    omega

/-- Writing offers no empty buffer, and only the whole of the bytes where all of it is taken. -/
theorem shows_writeAll {bytes : Bytes} (small : bytes.length ≤ block) :
    Shows (Offered block (if bytes = [] then [] else [bytes.length])) (Host.writeAll bytes)
      (Host.writeAll bytes : ExceptT Failure m Unit) := by
  induction size : bytes.length using Nat.strongRecOn generalizing bytes with
  | ind size ih =>
      subst size
      rw [Host.writeAll, Host.writeAll]
      by_cases done : bytes = []
      · rw [if_pos done, if_pos done, if_pos done]
        exact .pure (.nothing _)
      · rw [if_neg done, if_neg done, if_neg done]
        refine (shows_write bytes).bind ?_ ?_
        · rintro reason offers rfl
          exact .refused done small _
        · rintro taken offers rfl
          by_cases nothing : taken = 0
          · rw [if_pos nothing, if_pos nothing]
            exact .throw (.refused done small _)
          · rw [if_neg nothing, if_neg nothing]
            have some := List.length_pos_iff.mpr done
            have shorter : (bytes.drop taken).length < bytes.length := by
              rw [List.length_drop]
              omega
            refine (ih _ shorter (by omega) rfl).mono fun _ _ rest => ?_
            exact rest.behind done small

end Rules

end BootImage
