import BootImage.FileTree.Walk

/-!
Directories that are made. They are made where nothing is, so whatever a tree has at a place it has
there afterwards, also where the making of several directories ends half way. The working directory
is there already, and names are looked for in it.
-/

namespace BootImage

theorem Bytes.pieces_of_notMem {separator : UInt8} {bytes : Bytes} (free : separator ∉ bytes) :
    pieces separator bytes = [bytes] := by
  induction bytes with
  | nil => rfl
  | cons b rest ih =>
      obtain ⟨other, free⟩ := not_or.mp (mt List.mem_cons.mpr free)
      rw [pieces, if_neg (Ne.symm other), ih free]

namespace FileTree

variable {tree other third made : FileTree} {path : Path} {place : Location}

/-- A tree in which directories may have been made where nothing was, and nothing else. -/
structure Branched (tree other : FileTree) : Prop where
  workingDirectory : other.workingDirectory = tree.workingDirectory
  closed : other.closed = tree.closed
  places : ∀ place, other.node? place = tree.node? place ∨
    tree.node? place = none ∧ other.node? place = some .directory

namespace Branched

theorem refl (tree : FileTree) : tree.Branched tree :=
  ⟨rfl, rfl, fun _ => .inl rfl⟩

/-- What is at a place stays there. -/
theorem node?_eq_some (branched : tree.Branched other) {node : Node}
    (there : tree.node? place = some node) : other.node? place = some node := by
  rcases branched.places place with same | ⟨missing, -⟩
  · rw [same, there]
  · exact absurd (missing.symm.trans there) nofun

theorem trans (first : tree.Branched other) (second : other.Branched third) :
    tree.Branched third := by
  refine ⟨second.workingDirectory.trans first.workingDirectory,
    second.closed.trans first.closed, fun place => ?_⟩
  rcases first.places place with same | ⟨missing, directory⟩
  · rw [← same]
    exact second.places place
  · exact .inr ⟨missing, second.node?_eq_some directory⟩

theorem put (missing : tree.node? place = none) : tree.Branched (tree.put place .directory) := by
  have below : place ≠ [] := by
    rintro rfl
    cases missing
  refine ⟨rfl, rfl, fun there => ?_⟩
  rw [node?_put tree below]
  by_cases here : place = there
  · subst here
    exact .inr ⟨missing, if_pos rfl⟩
  · exact .inl (if_neg here)

end Branched

/-- One directory is made where nothing is. -/
theorem branched_of_makeDirectory (done : tree.makeDirectory path = .ok made) :
    tree.Branched made := by
  rw [makeDirectory] at done
  cases located : tree.locate path with
  | error failure =>
      rw [located] at done
      cases done
  | ok target =>
      rw [located] at done
      cases target with
      | reached place => cases done
      | named parent name slash =>
          by_cases long : maxName < name.length
          · simp only [bind, Except.bind, lookUp, if_pos long] at done
            cases done
          · simp only [bind, Except.bind, lookUp, if_neg long] at done
            cases there : tree.node? (parent ++ [name]) with
            | some node =>
                rw [there] at done
                cases done
            | none =>
                rw [there] at done
                by_cases shut : parent ∈ tree.closed
                · simp only [shut, if_true] at done
                  cases done
                · simp only [shut, if_false] at done
                  cases done
                  exact .put there

/-- A directory and those above it are made where nothing is, as far as that goes. -/
theorem branched_makeDirectories (tree : FileTree) (path : Path) :
    tree.Branched (tree.makeDirectories path).2 := by
  induction size : path.length using Nat.strongRecOn generalizing path with
  | ind size ih =>
      rw [makeDirectories]
      split
      · exact .refl tree
      · split
        · exact branched_of_makeDirectory ‹_›
        · split
          · split
            · exact .refl tree
            · rename_i parent found
              have shorter := Path.length_parent?_lt found
              have above := ih parent.length (size ▸ shorter) parent rfl
              split
              · rename_i stopped
                rw [stopped] at above
                exact above
              · rename_i made
                rw [made] at above
                split
                · exact above.trans (branched_of_makeDirectory ‹_›)
                · exact above
          · exact .refl tree

/-! ### The working directory -/

/-- Going by `.` leads nowhere else. -/
theorem walk_dot (tree : FileTree) (start : Location) : tree.walk start [Path.dot] = .ok start := by
  rw [walk_eq]
  rfl

/-- A name behind `./` is one in the working directory. -/
theorem locate_dot_join (tree : FileTree) {name : Bytes} (bare : Path.slash ∉ name)
    (noNul : 0 ∉ name) (step : name ∉ [[], Path.dot, Path.dotDot])
    (short : name.length + 2 ≤ maxPath) :
    tree.locate (Path.join Path.dot name) = .ok (.named tree.workingDirectory name false) := by
  simp only [List.mem_cons, List.not_mem_nil, or_false, not_or] at step
  obtain ⟨filled, notDot, notUp⟩ := step
  have relative : ¬ Path.isAbsolute name := by
    rw [Path.isAbsolute, decide_eq_true_iff]
    exact fun first => bare (List.mem_of_head? first)
  have joined : Path.join Path.dot name = 0x2E :: Path.slash :: name := by
    rw [Path.join, if_neg relative]
    rfl
  have names : (Bytes.pieces Path.slash (0x2E :: Path.slash :: name)).filter (· ≠ []) =
      [Path.dot, name] := by
    rw [Bytes.pieces, if_neg (by decide), Bytes.pieces, if_pos rfl,
      Bytes.pieces_of_notMem bare, List.filter_cons_of_pos (by simp),
      List.filter_cons_of_pos (by simpa using filled), List.filter_nil]
    rfl
  have ends : (0x2E :: Path.slash :: name).getLast? ≠ some Path.slash := by
    cases name with
    | nil => exact absurd rfl filled
    | cons first rest =>
        rw [List.getLast?_cons_cons, List.getLast?_cons_cons]
        exact fun last => bare (List.mem_of_getLast? last)
  have noNul' : (0 : UInt8) ∉ 0x2E :: Path.slash :: name := by
    simpa [Path.slash] using noNul
  have short' : ¬ maxPath < (0x2E :: Path.slash :: name).length := Nat.not_lt.mpr short
  have starts : Path.isAbsolute (0x2E :: Path.slash :: name) = false := rfl
  rw [joined, locate, if_neg noNul', if_neg (List.cons_ne_nil _ _), if_neg short']
  have last : [Path.dot, name].getLast? = some name := rfl
  have first : [Path.dot, name].dropLast = [Path.dot] := rfl
  simp only [names, starts, ends, last, first, notDot, notUp, Bool.false_eq_true, if_false,
    walk_dot, bind, Except.bind, decide_false]
  rfl

/-- The working directory is there already. -/
theorem makeDirectories_dot (there : tree.node? tree.workingDirectory = some .directory) :
    tree.makeDirectories Path.dot = (.ok (), tree) := by
  have located : tree.locate Path.dot = .ok (.reached tree.workingDirectory) := by
    have names : (Bytes.pieces Path.slash Path.dot).filter (· ≠ []) = [Path.dot] := by decide
    have still : tree.walk tree.workingDirectory [] = .ok tree.workingDirectory := walk_eq ..
    rw [locate, if_neg (by decide), if_neg (by decide), if_neg (by decide)]
    simp only [names]
    exact congrArg (· >>= _) still
  have taken : tree.makeDirectory Path.dot = .error .fileExists := by
    rw [makeDirectory, located]
    rfl
  have found : tree.openToRead Path.dot = .ok tree.workingDirectory := by
    rw [openToRead, located]
    rfl
  have accepted : tree.isDirectory Path.dot = true := by
    rw [isDirectory, found]
    simp only [there]
  rw [makeDirectories, if_neg (by decide), taken]
  simp only [Failure.fileExists, Failure.system, reduceCtorEq, if_false, acceptDirectory, accepted,
    if_true]
  rfl

end FileTree

end BootImage
