import BootImage.FileTree.Walk

/-!
Files that are made and rewritten. Where a path leads depends on directories alone, so a tree in
which only files are made or rewritten takes the same files as before, at the same places:
`Refiled.exists_create_iff`.
-/

namespace BootImage.FileTree

variable {tree other third after : FileTree} {path : Path} {place : Location}

/-- Trees with the same directories. -/
structure Alike (tree other : FileTree) : Prop where
  workingDirectory : other.workingDirectory = tree.workingDirectory
  directories : ∀ place, other.node? place = some .directory ↔ tree.node? place = some .directory

theorem Alike.symm (alike : tree.Alike other) : other.Alike tree :=
  ⟨alike.workingDirectory.symm, fun place => (alike.directories place).symm⟩

theorem Alike.step (alike : tree.Alike other) {name : Bytes} {next : Location}
    (stepped : tree.step place name = .ok next) : other.step place name = .ok next := by
  unfold FileTree.step at stepped ⊢
  split at stepped
  · rename_i dot
    rw [if_pos dot]
    exact stepped
  · rename_i dot
    rw [if_neg dot]
    split at stepped
    · rename_i up
      rw [if_pos up]
      exact stepped
    · rename_i up
      rw [if_neg up]
      split at stepped
      · cases stepped
      · rename_i short
        rw [if_neg short]
        split at stepped
        · cases stepped
        · rename_i directory
          rw [(alike.directories _).mpr directory]
          exact stepped
        · cases stepped

theorem Alike.walk (alike : tree.Alike other) {names : List Bytes} {start : Location}
    (walked : tree.walk start names = .ok place) : other.walk start names = .ok place := by
  rw [walk_eq] at walked ⊢
  induction names generalizing start with
  | nil => exact walked
  | cons name rest ih =>
      rw [List.foldlM_cons] at walked ⊢
      cases stepped : tree.step start name with
      | error failure =>
          rw [stepped] at walked
          cases walked
      | ok next =>
          rw [stepped] at walked
          rw [alike.step stepped]
          exact ih walked

theorem Alike.locate (alike : tree.Alike other) {target : Target}
    (located : tree.locate path = .ok target) : other.locate path = .ok target := by
  unfold FileTree.locate at located ⊢
  rw [alike.workingDirectory]
  split at located
  · cases located
  · rename_i noNul
    rw [if_neg noNul]
    split at located
    · cases located
    · rename_i filled
      rw [if_neg filled]
      split at located
      · cases located
      · rename_i short
        rw [if_neg short]
        simp only at located ⊢
        split at located
        · exact located
        · cases walked : tree.walk (if Path.isAbsolute path then [] else tree.workingDirectory)
              ((Bytes.pieces Path.slash path).filter (· ≠ [])).dropLast with
          | error failure =>
              rw [walked] at located
              cases located
          | ok parent =>
              rw [walked] at located
              rw [alike.walk walked]
              exact located

/-- Whether a file can be at a place: there is one, or its directory takes a new name. -/
def Takes (tree : FileTree) (place : Location) : Prop :=
  place ≠ [] ∧
    ((∃ content mode, tree.node? place = some (.file content mode)) ∨
      tree.node? place = none ∧ place.dropLast ∉ tree.closed)

/-- The mode of a file that is there, or the one that a file is made with. -/
def modeAt (tree : FileTree) (place : Location) : Nat :=
  match tree.node? place with
  | some (.file _ mode) => mode
  | _ => Node.plainMode

/-- A tree in which some files were made or rewritten, and nothing else. -/
structure Refiled (tree other : FileTree) : Prop where
  workingDirectory : other.workingDirectory = tree.workingDirectory
  closed : other.closed = tree.closed
  places : ∀ place, other.node? place = tree.node? place ∨
    tree.Takes place ∧ ∃ content mode, other.node? place = some (.file content mode)

theorem Refiled.refl (tree : FileTree) : tree.Refiled tree :=
  ⟨rfl, rfl, fun _ => .inl rfl⟩

/-- Putting a file where one can be. -/
theorem Refiled.put (takes : tree.Takes place) (content : Array UInt8) (mode : Nat) :
    tree.Refiled (tree.put place (.file content mode)) := by
  refine ⟨rfl, rfl, ?_⟩
  intro other
  rw [node?_put tree takes.1]
  by_cases here : place = other
  · subst here
    rw [if_pos rfl]
    exact .inr ⟨takes, content, mode, rfl⟩
  · rw [if_neg here]
    exact .inl rfl

theorem Refiled.takes_iff (refiled : tree.Refiled other) :
    other.Takes place ↔ tree.Takes place := by
  rcases refiled.places place with same | ⟨takes, content, mode, file⟩
  · rw [Takes, Takes, same, refiled.closed]
  · exact ⟨fun _ => takes, fun _ => ⟨takes.1, .inl ⟨content, mode, file⟩⟩⟩

theorem Refiled.trans (first : tree.Refiled other) (second : other.Refiled third) :
    tree.Refiled third := by
  refine ⟨second.workingDirectory.trans first.workingDirectory, second.closed.trans first.closed,
    ?_⟩
  intro place
  rcases second.places place with same | ⟨takes, file⟩
  · rw [same]
    exact first.places place
  · exact .inr ⟨first.takes_iff.mp takes, file⟩

/-- Nothing but files is exchanged. -/
theorem Refiled.node?_iff (refiled : tree.Refiled other) {node : Node}
    (notFile : ∀ content mode, node ≠ .file content mode) :
    other.node? place = some node ↔ tree.node? place = some node := by
  rcases refiled.places place with same | ⟨⟨-, takes⟩, content, mode, file⟩
  · rw [same]
  · have before : tree.node? place ≠ some node := by
      intro there
      rcases takes with ⟨content, mode, held⟩ | ⟨missing, -⟩
      · exact notFile content mode (Option.some.inj (there.symm.trans held))
      · exact absurd (missing.symm.trans there) nofun
    rw [file]
    exact ⟨fun same => absurd (Option.some.inj same).symm (notFile content mode),
      fun there => absurd there before⟩

theorem Refiled.alike (refiled : tree.Refiled other) : tree.Alike other :=
  ⟨refiled.workingDirectory, fun _ => refiled.node?_iff nofun⟩

/-- What is made at a name in a directory that was found. -/
theorem create_of_locate {parent : Location} {name : Bytes}
    (located : tree.locate path = .ok (.named parent name false)) (short : name.length ≤ maxName) :
    tree.create path =
      match tree.node? (parent ++ [name]) with
      | none =>
          if parent ∈ tree.closed then .error .notFound
          else .ok (tree.put (parent ++ [name]) (.file #[] Node.plainMode), parent ++ [name])
      | some (.file _ mode) => .ok (tree.put (parent ++ [name]) (.file #[] mode), parent ++ [name])
      | some (.device _) => .ok (tree, parent ++ [name])
      | some .directory => .error .isADirectory := by
  have found : tree.lookUp parent name = .ok (tree.node? (parent ++ [name])) := by
    rw [lookUp, if_neg (Nat.not_lt.mpr short)]
  rw [create, located]
  simp only [bind, Except.bind, found]
  cases tree.node? (parent ++ [name]) with
  | none =>
      by_cases shut : parent ∈ tree.closed
      · simp only [shut, if_true]
        rfl
      · simp only [shut, if_false]
        rfl
  | some node => cases node <;> rfl

/-- What has to be so for a file to be made. -/
theorem locate_of_create (made : tree.create path = .ok (after, place)) :
    ∃ parent name, tree.locate path = .ok (.named parent name false) ∧
      name.length ≤ maxName ∧ place = parent ++ [name] := by
  rw [create] at made
  cases located : tree.locate path with
  | error failure =>
      rw [located] at made
      cases made
  | ok target =>
      rw [located] at made
      cases target with
      | reached place => cases made
      | named parent name slash =>
          cases slash with
          | true => cases made
          | false =>
              by_cases short : name.length ≤ maxName
              · have answer := create_of_locate located short
                rw [create, located] at answer
                have both := answer.symm.trans made
                refine ⟨parent, name, rfl, short, ?_⟩
                split at both
                · split at both
                  · cases both
                  · cases both
                    rfl
                · cases both
                  rfl
                · cases both
                  rfl
                · cases both
              · simp only [bind, Except.bind, lookUp, if_pos (Nat.lt_of_not_le short)] at made
                cases made

/-- When a file is made or emptied, and where. -/
theorem create_eq_ok_iff :
    tree.create path = .ok (after, place) ↔
      ∃ parent name, tree.locate path = .ok (.named parent name false) ∧
        name.length ≤ maxName ∧ place = parent ++ [name] ∧
        (tree.Takes place ∧ after = tree.put place (.file #[] (tree.modeAt place)) ∨
          (∃ behaviour, tree.node? place = some (.device behaviour)) ∧ after = tree) := by
  -- With the way to the place settled, only what is at the place decides.
  have answer : ∀ parent name, tree.locate path = .ok (.named parent name false) →
      name.length ≤ maxName → (tree.create path = .ok (after, parent ++ [name]) ↔
        (tree.Takes (parent ++ [name]) ∧
            after = tree.put (parent ++ [name]) (.file #[] (tree.modeAt (parent ++ [name]))) ∨
          (∃ behaviour, tree.node? (parent ++ [name]) = some (.device behaviour)) ∧
            after = tree)) := by
    intro parent name located short
    rw [create_of_locate located short, Takes, modeAt, List.dropLast_concat]
    cases held : tree.node? (parent ++ [name]) with
    | none =>
        by_cases shut : parent ∈ tree.closed
        · simp [shut]
        · simpa [shut] using eq_comm
    | some node =>
        cases node with
        | directory => simp
        | file content mode => simpa using eq_comm
        | device behaviour => simpa using eq_comm
  constructor
  · intro made
    obtain ⟨parent, name, located, short, rfl⟩ := locate_of_create made
    exact ⟨parent, name, located, short, rfl, (answer parent name located short).mp made⟩
  · rintro ⟨parent, name, located, short, rfl, kept⟩
    exact (answer parent name located short).mpr kept

/-- Where a file can be, a file is made. -/
theorem node?_of_create (made : tree.create path = .ok (after, place)) (takes : tree.Takes place) :
    after.node? place = some (.file #[] (tree.modeAt place)) := by
  obtain ⟨-, -, -, -, -, kept⟩ := create_eq_ok_iff.mp made
  rcases kept with ⟨-, rfl⟩ | ⟨⟨behaviour, device⟩, -⟩
  · rw [node?_put tree takes.1, if_pos rfl]
  · rcases takes.2 with ⟨content, mode, file⟩ | ⟨missing, -⟩
    · exact absurd (device.symm.trans file) nofun
    · exact absurd (device.symm.trans missing) nofun

/-- Files are made at the same places as in the tree before. -/
theorem Refiled.exists_create_iff (refiled : tree.Refiled other) :
    (∃ after, other.create path = .ok (after, place)) ↔
      ∃ after, tree.create path = .ok (after, place) := by
  have devices : (∃ behaviour, other.node? place = some (.device behaviour)) ↔
      ∃ behaviour, tree.node? place = some (.device behaviour) := by
    constructor
    · rintro ⟨behaviour, device⟩
      exact ⟨behaviour, (refiled.node?_iff fun _ _ => Node.noConfusion).mp device⟩
    · rintro ⟨behaviour, device⟩
      exact ⟨behaviour, (refiled.node?_iff fun _ _ => Node.noConfusion).mpr device⟩
  constructor
  · rintro ⟨after, made⟩
    obtain ⟨parent, name, located, short, here, kept⟩ := create_eq_ok_iff.mp made
    have located := refiled.alike.symm.locate located
    rcases kept with ⟨takes, -⟩ | ⟨device, -⟩
    · exact ⟨_, create_eq_ok_iff.mpr
        ⟨parent, name, located, short, here, .inl ⟨refiled.takes_iff.mp takes, rfl⟩⟩⟩
    · exact ⟨_, create_eq_ok_iff.mpr
        ⟨parent, name, located, short, here, .inr ⟨devices.mp device, rfl⟩⟩⟩
  · rintro ⟨after, made⟩
    obtain ⟨parent, name, located, short, here, kept⟩ := create_eq_ok_iff.mp made
    have located := refiled.alike.locate located
    rcases kept with ⟨takes, -⟩ | ⟨device, -⟩
    · exact ⟨_, create_eq_ok_iff.mpr
        ⟨parent, name, located, short, here, .inl ⟨refiled.takes_iff.mpr takes, rfl⟩⟩⟩
    · exact ⟨_, create_eq_ok_iff.mpr
        ⟨parent, name, located, short, here, .inr ⟨devices.mpr device, rfl⟩⟩⟩

end BootImage.FileTree
