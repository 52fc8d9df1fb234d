import BootImage.Proofs.Shell.Reading

/-!
Quoting, undone by a shell. A byte string is cut into chunks, each written in a style that suits all
of its bytes, so every chunk spells itself, and side by side they spell the whole byte string
(`spells_quote`). Only a NUL keeps a byte string from being quoted (`exists_quote`).
-/

namespace BootImage.Shell

/-! ### Single styles -/

section Pieces

variable (reading : Reading) (rest : Bytes)

/-- Between single quotes every byte but the quote stands for itself. -/
theorem readFrom_single {text : Bytes} (free : 0x27 ∉ text) (before : Bytes) :
    readFrom .single (reading.push before) (text ++ 0x27 :: rest) =
      readFrom .plain (reading.push (before ++ text)) rest := by
  induction text generalizing before with
  | nil => simp [readFrom]
  | cons b others ih =>
      simp only [List.mem_cons, not_or] at free
      obtain ⟨other, later⟩ := free
      rw [List.cons_append, readFrom, if_neg (Ne.symm other), Reading.push_push, ih later]
      simp

/-- A byte as it is written between double quotes. -/
def escaped (b : UInt8) : Bytes :=
  if b = 0x22 ∨ b = 0x5C then [0x5C, b] else [b]

/-- Between double quotes an escaped byte stands for itself, unless it opens an expansion. -/
theorem readFrom_escaped {b : UInt8} (harmless : b ≠ 0x60 ∧ b ≠ 0x24) :
    readFrom .double reading (escaped b ++ rest) = readFrom .double (reading.push [b]) rest := by
  unfold escaped
  split
  · rename_i meant
    rcases meant with rfl | rfl <;> rfl
  · rename_i plain
    obtain ⟨quote, backslash⟩ := not_or.mp plain
    obtain ⟨backquote, dollar⟩ := harmless
    by_cases zero : b = 0x00
    · subst zero
      rfl
    · apply readFrom_literalByte
      simp [quote, backslash, backquote, dollar, zero]

theorem readFrom_allEscaped {text : Bytes} (harmless : ∀ b ∈ text, b ≠ 0x60 ∧ b ≠ 0x24)
    (before : Bytes) :
    readFrom .double (reading.push before) (text.flatMap escaped ++ 0x22 :: rest) =
      readFrom .plain (reading.push (before ++ text)) rest := by
  induction text generalizing before with
  | nil => simpa using readFrom_double reading rest (List.forall_mem_nil _) before
  | cons b others ih =>
      obtain ⟨first, later⟩ := List.forall_mem_cons.mp harmless
      rw [List.flatMap_cons, List.append_assoc, readFrom_escaped _ _ first, Reading.push_push,
        ih later]
      simp

end Pieces

theorem spells_single {text : Bytes} (free : 0x27 ∉ text) :
    Spells (0x27 :: text ++ [0x27]) text := by
  intro reading rest
  have opened : readFrom .plain reading (0x27 :: (text ++ 0x27 :: rest)) =
      readFrom .single (reading.push []) (text ++ 0x27 :: rest) := by
    rw [readFrom_plain _ _ (by decide)]
    rfl
  simpa [opened] using readFrom_single reading rest free []

theorem spells_double {text : Bytes} (harmless : ∀ b ∈ text, b ≠ 0x60 ∧ b ≠ 0x24) :
    Spells (0x22 :: text.flatMap escaped ++ [0x22]) text := by
  intro reading rest
  have opened : readFrom .plain reading (0x22 :: (text.flatMap escaped ++ 0x22 :: rest)) =
      readFrom .double (reading.push []) (text.flatMap escaped ++ 0x22 :: rest) := by
    rw [readFrom_plain _ _ (by decide)]
    rfl
  simpa [opened] using readFrom_allEscaped reading rest harmless []

/-! ### Chunks -/

namespace Styles

/-- Every style that is open writes the byte so that a shell reads it back. -/
structure Suits (styles : Styles) (b : UInt8) : Prop where
  bare : styles.bare → isBare b
  single : styles.single → b ≠ 0x27
  double : styles.double → b ≠ 0x60 ∧ b ≠ 0x24

theorem suits_stylesOf (b : UInt8) : (stylesOf b).Suits b := by
  constructor <;> simp +contextual [stylesOf]

theorem suits_openChunk (b : UInt8) : (openChunk b).Suits b := by
  unfold openChunk
  split
  · rename_i same
    subst same
    constructor <;> simp [caret]
  · exact suits_stylesOf b

/-- Fewer styles suit what more of them suit. -/
theorem Suits.mono {styles fewer : Styles} {b : UInt8} (suits : styles.Suits b)
    (bare : fewer.bare → styles.bare) (single : fewer.single → styles.single)
    (double : fewer.double → styles.double) : fewer.Suits b where
  bare kept := suits.bare (bare kept)
  single kept := suits.single (single kept)
  double kept := suits.double (double kept)

theorem Suits.both_left {left : Styles} {b : UInt8} (suits : left.Suits b) (right : Styles) :
    (left.both right).Suits b := by
  apply suits.mono <;> simp +contextual [both]

theorem Suits.both_right {right : Styles} {b : UInt8} (suits : right.Suits b) (left : Styles) :
    (left.both right).Suits b := by
  apply suits.mono <;> simp +contextual [both]

/-- Every byte can start a chunk: the quote and the backslash in double quotes, any other byte in
single quotes. -/
theorem some?_openChunk (b : UInt8) : (openChunk b).some? := by
  unfold openChunk
  by_cases same : b = caret
  · rw [if_pos same]
    rfl
  · rw [if_neg same]
    by_cases quote : b = 0x27
    · subst quote
      rfl
    · by_cases backslash : b = 0x5C
      · subst backslash
        rfl
      · simp [some?, stylesOf, same, quote, backslash]

end Styles

/-- The styles that are left at the end of a chunk suit what was suited before, and all of its
bytes, and there is one if there was one. -/
theorem suits_chunkFrom (styles : Styles) (bytes : Bytes) :
    let cut := chunkFrom styles bytes
    (∀ b, styles.Suits b → cut.2.1.Suits b) ∧ (∀ b ∈ cut.1, cut.2.1.Suits b) ∧
      (styles.some? → cut.2.1.some?) := by
  induction bytes generalizing styles with
  | nil => simp [chunkFrom]
  | cons b rest ih =>
      simp only [chunkFrom]
      split
      · rename_i left
        obtain ⟨before, within, kept⟩ := ih (styles.both (stylesOf b))
        refine ⟨?_, ?_, ?_⟩
        · intro other suits
          exact before other (suits.both_left _)
        · exact List.forall_mem_cons.mpr
            ⟨before b ((Styles.suits_stylesOf b).both_right _), within⟩
        · intro _
          exact kept left
      · simp

/-- A chunk in any style that suits it spells itself. -/
theorem spells_writeChunk {styles : Styles} {chunk : Bytes} (some : styles.some?)
    (suits : ∀ b ∈ chunk, styles.Suits b) (nonempty : chunk ≠ []) :
    Spells (writeChunk styles chunk) chunk := by
  unfold writeChunk
  split
  · rename_i bare
    exact spells_bare (fun b member => (suits b member).bare bare) nonempty
  · rename_i notBare
    split
    · rename_i single
      apply spells_single
      intro member
      exact (suits 0x27 member).single single rfl
    · rename_i notSingle
      have double : styles.double = true := by
        simpa [Styles.some?, notBare, notSingle] using some
      exact spells_double fun b member => (suits b member).double double

/-! ### Whole byte strings -/

theorem spells_quoteChunks {bytes : Bytes} (nonempty : bytes ≠ []) :
    Spells (quoteChunks bytes) bytes := by
  fun_induction quoteChunks bytes with
  | case1 => exact absurd rfl nonempty
  | case2 b rest cut ih =>
      obtain ⟨before, within, kept⟩ := suits_chunkFrom (openChunk b) rest
      have suits := List.forall_mem_cons.mpr ⟨before b (Styles.suits_openChunk b), within⟩
      have chunk := spells_writeChunk (kept (Styles.some?_openChunk b)) suits
        (List.cons_ne_nil b cut.1)
      have whole : cut.1 ++ cut.2.2 = rest := chunkFrom_append (openChunk b) rest
      rcases behind : cut.2.2 with _ | ⟨next, others⟩
      · rw [behind, List.append_nil] at whole
        rw [quoteChunks, List.append_nil, ← whole]
        exact chunk
      · have later := ih (by simp [behind])
        rw [behind] at later whole
        rw [← whole, ← List.cons_append]
        exact chunk.append later

/-- **A quoted byte string is read as itself**, be it empty. -/
theorem spells_quote {bytes written : Bytes} (quoted : quote? bytes = some written) :
    Spells written bytes := by
  unfold quote? at quoted
  split at quoted
  · cases quoted
  · split at quoted
    · rename_i nothing
      cases quoted
      rw [nothing]
      exact @spells_single [] List.not_mem_nil
    · rename_i nonempty
      cases quoted
      exact spells_quoteChunks nonempty

/-- Without a NUL there is nothing that cannot be quoted. -/
theorem exists_quote {bytes : Bytes} (free : 0 ∉ bytes) :
    ∃ written, quote? bytes = some written := by
  unfold quote?
  rw [if_neg free]
  split
  · exact ⟨_, rfl⟩
  · exact ⟨_, rfl⟩

end BootImage.Shell
