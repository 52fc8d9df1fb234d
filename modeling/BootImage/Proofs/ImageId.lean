import BootImage.ImageId
import BootImage.Proofs.Text

/-!
What the text of an identifier tells. A digest and any other identifier are shown in different
lengths, and in both the bytes stand where they can be read off, so the text tells the identifier.
The words are the bytes in fours.
-/

namespace BootImage

/-! ### Pairs of digits -/

namespace Numeral

def hexPair (b : UInt8) : List Char :=
  [Nat.digitChar (b.toNat / 16), Nat.digitChar (b.toNat % 16)]

theorem toList_byteHex (b : UInt8) : (byteHex b).toList = hexPair b := by
  have bound := b.toNat_lt
  rw [byteHex, String.toList_ofList, digits, Nat.toDigits_eq_if (by decide)]
  split
  · rename_i single
    rw [hexPair, Nat.div_eq_of_lt single, Nat.mod_eq_of_lt single]
    rfl
  · rename_i several
    rw [Nat.toDigits_of_lt_base (by omega)]
    rfl

theorem hexPair_injective : Function.Injective hexPair := by
  intro b b' same
  have bound := b.toNat_lt
  have bound' := b'.toNat_lt
  simp only [hexPair, List.cons.injEq, and_true] at same
  have high := congrArg digitValue same.1
  have low := congrArg digitValue same.2
  rw [digitValue_digitChar (by omega), digitValue_digitChar (by omega)] at high low
  exact UInt8.toNat_inj.mp (by omega)

/-- Pairs of digits tell their bytes. -/
theorem flatMap_hexPair_injective {bytes bytes' : Bytes}
    (same : bytes.flatMap hexPair = bytes'.flatMap hexPair) : bytes = bytes' := by
  induction bytes generalizing bytes' with
  | nil =>
      cases bytes' with
      | nil => rfl
      | cons b' rest' => cases same
  | cons b rest ih =>
      cases bytes' with
      | nil => cases same
      | cons b' rest' =>
          rw [List.flatMap_cons, List.flatMap_cons] at same
          obtain ⟨pair, others⟩ := List.append_inj same rfl
          rw [hexPair_injective pair, ih others]

end Numeral

/-! ### Words -/

/-- Induction on bytes that come out even in fours. -/
@[elab_as_elim]
theorem Bytes.inFours {motive : (bytes : Bytes) → bytes.length % 4 = 0 → Prop}
    (nil : motive [] rfl)
    (four : ∀ b₀ b₁ b₂ b₃ rest even even', motive rest even →
      motive (b₀ :: b₁ :: b₂ :: b₃ :: rest) even') :
    ∀ bytes even, motive bytes even
  | [], _ => nil
  | b₀ :: b₁ :: b₂ :: b₃ :: rest, even' =>
      have even : rest.length % 4 = 0 := by
        simp only [List.length_cons] at even'
        omega
      four b₀ b₁ b₂ b₃ rest even even' (inFours nil four rest even)

theorem Word.encode_injective : Function.Injective Word.encode := by
  intro word word' same
  have read := decode?_encode word []
  rw [same, decode?_encode word' []] at read
  exact (congrArg Prod.fst (Option.some.inj read)).symm

/-- A word of zeros is zero. -/
theorem Word.encode_zeros_iff {word : UInt32} : (∀ b ∈ encode word, b = 0) ↔ word = 0 := by
  constructor
  · intro zeros
    exact encode_injective (List.eq_replicate_of_mem zeros)
  · rintro rfl b mem
    exact List.eq_of_mem_replicate (show b ∈ List.replicate 4 0 from mem)

namespace ImageId

variable {bytes : Bytes}

def wordsOf (bytes : Bytes) : List UInt32 :=
  (groups bytes).filterMap fun group => (Word.decode? group).map (·.1)

/-- Bytes that come out even are their words, each with the least significant byte first. -/
theorem flatMap_encode_wordsOf (even : bytes.length % 4 = 0) :
    (wordsOf bytes).flatMap Word.encode = bytes := by
  induction bytes, even using Bytes.inFours with
  | nil => rfl
  | four b₀ b₁ b₂ b₃ rest _ _ ih =>
      have words : wordsOf (b₀ :: b₁ :: b₂ :: b₃ :: rest) =
          Word.ofBytes b₀ b₁ b₂ b₃ :: wordsOf rest := rfl
      rw [words, List.flatMap_cons, Word.encode_ofBytes, ih]
      rfl

/-- What is behind some words is behind their bytes. -/
theorem flatMap_encode_drop (words : List UInt32) (count : Nat) :
    (words.drop count).flatMap Word.encode = (words.flatMap Word.encode).drop (4 * count) := by
  induction count generalizing words with
  | zero => rfl
  | succ count ih =>
      cases words with
      | nil => simp
      | cons word rest =>
          rw [List.drop_succ_cons, ih, List.flatMap_cons, Nat.mul_succ, Nat.add_comm,
            ← List.drop_drop]
          rfl

theorem flatMap_encode_words (id : ImageId) : id.words.flatMap Word.encode = id.field.bytes := by
  apply flatMap_encode_wordsOf
  rw [id.field.length_bytes]
  rfl

theorem length_words (id : ImageId) : id.words.length = 8 := by
  have spelled (words : List UInt32) : (words.flatMap Word.encode).length = 4 * words.length := by
    induction words with
    | nil => rfl
    | cons word rest ih =>
        rw [List.flatMap_cons, List.length_append, ih, Word.length_encode, List.length_cons]
        omega
  have all := spelled id.words
  rw [flatMap_encode_words, id.field.length_bytes] at all
  simp only [size] at all
  omega

/-- Nothing but zeros behind the digest. -/
def Padded (id : ImageId) : Prop :=
  ∀ b ∈ id.field.bytes.drop 20, b = 0

theorem isDigest_iff {id : ImageId} : id.isDigest = true ↔ id.Padded := by
  simp [isDigest, digestSize, Padded]

/-- The last twelve bytes are the last three words. -/
theorem padded_iff_words {id : ImageId} : id.Padded ↔ id.words.drop 5 = [0, 0, 0] := by
  have last := flatMap_encode_drop id.words 5
  have length : (id.words.drop 5).length = 3 := by rw [List.length_drop, length_words]
  rw [flatMap_encode_words] at last
  rw [Padded, ← last]
  constructor
  · intro zeros
    refine List.eq_replicate_iff.mpr ⟨length, fun word mem => ?_⟩
    refine Word.encode_zeros_iff.mp fun b inside => ?_
    exact zeros b (List.mem_flatMap.mpr ⟨word, mem, inside⟩)
  · intro zeros b mem
    rw [zeros] at mem
    exact List.eq_of_mem_replicate (show b ∈ List.replicate 12 0 from mem)

/-! ### The text -/

def grouped (bytes : Bytes) : List Char :=
  [' '].intercalate ((groups bytes).map fun group => [':'].intercalate (group.map Numeral.hexPair))

theorem groups_eq_nil_iff : groups bytes = [] ↔ bytes = [] := by
  fun_cases groups bytes with
  | case1 => simp
  | case2 => simp
  | case3 _ _ nonempty => simpa using nonempty

/-- The first four bytes and, behind a blank, the others. -/
theorem grouped_four (b₀ b₁ b₂ b₃ : UInt8) (rest : Bytes) :
    grouped (b₀ :: b₁ :: b₂ :: b₃ :: rest) =
      [':'].intercalate ([b₀, b₁, b₂, b₃].map Numeral.hexPair) ++
        if rest = [] then [] else ' ' :: grouped rest := by
  rw [grouped, groups, List.map_cons, grouped]
  cases others : groups rest with
  | nil =>
      rw [if_pos (groups_eq_nil_iff.mp others), List.map_nil, List.intercalate_singleton,
        List.append_nil]
  | cons group more =>
      have nonempty : rest ≠ [] := by
        rintro rfl
        cases others
      rw [if_neg nonempty]
      exact List.intercalate_cons_cons.trans (List.append_assoc ..)

/-- Pairs of digits stand three characters apart. -/
theorem pair_grouped (even : bytes.length % 4 = 0) (i : Nat) (b : UInt8)
    (there : bytes[i]? = some b) :
    ((grouped bytes).drop (3 * i)).take 2 = Numeral.hexPair b := by
  induction bytes, even using Bytes.inFours generalizing i with
  | nil => cases there
  | four b₀ b₁ b₂ b₃ rest _ _ ih =>
      rw [grouped_four]
      match i with
      | 0 | 1 | 2 | 3 => cases there; rfl
      | j + 4 =>
          have behind : rest[j]? = some b := there
          have nonempty : rest ≠ [] := by
            rintro rfl
            cases behind
          rw [if_neg nonempty, ← ih j behind]
          rfl

/-- The character behind a pair divides it from the next. -/
theorem divider_grouped (even : bytes.length % 4 = 0) (i : Nat) (inside : i + 1 < bytes.length) :
    (grouped bytes)[3 * i + 2]? = some (if (i + 1) % 4 = 0 then ' ' else ':') := by
  induction bytes, even using Bytes.inFours generalizing i with
  | nil => cases inside
  | four b₀ b₁ b₂ b₃ rest _ _ ih =>
      rw [grouped_four]
      match i with
      | 0 | 1 | 2 => rfl
      | 3 =>
          have nonempty : rest ≠ [] := by
            rintro rfl
            simp at inside
          rw [if_neg nonempty]
          rfl
      | j + 4 =>
          simp only [List.length_cons] at inside
          have nonempty : rest ≠ [] := by
            rintro rfl
            simp only [List.length_nil] at inside
            omega
          have next := ih j (by omega)
          have same : (j + 4 + 1) % 4 = (j + 1) % 4 := by omega
          rw [if_neg nonempty, same, ← next]
          rfl

theorem length_grouped (even : bytes.length % 4 = 0) :
    (grouped bytes).length = 3 * bytes.length - 1 := by
  induction bytes, even using Bytes.inFours with
  | nil => rfl
  | four b₀ b₁ b₂ b₃ rest _ _ ih =>
      rw [grouped_four, List.length_append]
      by_cases nothing : rest = []
      · subst nothing
        rfl
      · have some := List.length_pos_iff.mpr nothing
        rw [if_neg nothing, List.length_cons, ih]
        simp only [List.length_cons]
        change 11 + (3 * rest.length - 1 + 1) = _
        omega

/-! ### The text of an identifier -/

theorem length_bytes_mod (id : ImageId) : id.field.bytes.length % 4 = 0 := by
  rw [id.field.length_bytes]
  rfl

theorem toList_text_of_padded {id : ImageId} (padded : id.Padded) :
    id.text.toList = (id.field.bytes.take 20).flatMap Numeral.hexPair ++ " sha1".toList := by
  rw [text, if_pos (isDigest_iff.mpr padded), String.toList_append, String.toList_join,
    List.flatMap_map]
  simp only [Numeral.toList_byteHex]
  rfl

theorem toList_text_of_not_padded {id : ImageId} (used : ¬ id.Padded) :
    id.text.toList = grouped id.field.bytes := by
  rw [text, if_neg (mt isDigest_iff.mp used), String.toList_intercalate, List.map_map, grouped]
  simp only [Function.comp_def, String.toList_intercalate, List.map_map, Numeral.toList_byteHex]
  rfl

theorem length_text_of_padded {id : ImageId} (padded : id.Padded) : id.text.length = 45 := by
  have pairs (bytes : Bytes) : (bytes.flatMap Numeral.hexPair).length = 2 * bytes.length := by
    induction bytes with
    | nil => rfl
    | cons b rest ih =>
        rw [List.flatMap_cons, List.length_append, ih, List.length_cons, Nat.mul_succ, Nat.add_comm]
        rfl
  rw [← String.length_toList, toList_text_of_padded padded, List.length_append, pairs,
    List.length_take, id.field.length_bytes]
  rfl

theorem length_text_of_not_padded {id : ImageId} (used : ¬ id.Padded) : id.text.length = 95 := by
  rw [← String.length_toList, toList_text_of_not_padded used, length_grouped id.length_bytes_mod,
    id.field.length_bytes]
  rfl

/-- Padding is zeros, and as many of them for every digest. -/
theorem drop_bytes_of_padded {id : ImageId} (padded : id.Padded) :
    id.field.bytes.drop 20 = List.replicate 12 0 := by
  refine List.eq_replicate_iff.mpr ⟨?_, padded⟩
  rw [List.length_drop, id.field.length_bytes]
  rfl

/-- The text tells the identifier. -/
theorem text_injective : Function.Injective text := by
  intro id id' same
  have lengths := congrArg String.length same
  have characters := congrArg String.toList same
  suffices bytes : id.field.bytes = id'.field.bytes by
    cases id
    cases id'
    exact congrArg ImageId.mk (Field.ext bytes)
  by_cases padded : id.Padded <;> by_cases padded' : id'.Padded
  · rw [toList_text_of_padded padded, toList_text_of_padded padded'] at characters
    have digest := Numeral.flatMap_hexPair_injective (List.append_cancel_right characters)
    rw [← List.take_append_drop 20 id.field.bytes, digest, drop_bytes_of_padded padded,
      ← drop_bytes_of_padded padded', List.take_append_drop]
  · rw [length_text_of_padded padded, length_text_of_not_padded padded'] at lengths
    contradiction
  · rw [length_text_of_not_padded padded, length_text_of_padded padded'] at lengths
    contradiction
  · rw [toList_text_of_not_padded padded, toList_text_of_not_padded padded'] at characters
    have length := id.field.length_bytes.trans id'.field.length_bytes.symm
    refine List.ext_getElem length fun i inside inside' => ?_
    have pair := pair_grouped id.length_bytes_mod i _ (List.getElem?_eq_getElem inside)
    have pair' := pair_grouped id'.length_bytes_mod i _ (List.getElem?_eq_getElem inside')
    rw [characters, pair'] at pair
    exact (Numeral.hexPair_injective pair).symm

/-- **The text of an identifier tells it.** Twelve zeros at the end, which are the last three words,
make it a digest: forty digits and its kind. Any other is shown in 95 characters, the pair of digits
of each byte three characters behind the one before it, `:` or a blank between them as the bytes
belong to one group of four or to two. The words are the bytes in fours, the least significant
first. -/
theorem text_tells_id (id : ImageId) :
    (∀ other : ImageId, id.text = other.text ↔ id = other) ∧
    (id.Padded ↔ id.words.drop 5 = [0, 0, 0]) ∧
    (id.Padded → id.text.length = 45 ∧
      id.text.toList = (id.field.bytes.take 20).flatMap Numeral.hexPair ++ " sha1".toList) ∧
    (¬ id.Padded → id.text.length = 95 ∧
      (∀ i b, id.field.bytes[i]? = some b →
        (id.text.toList.drop (3 * i)).take 2 = Numeral.hexPair b) ∧
      ∀ i < 31, id.text.toList[3 * i + 2]? = some (if (i + 1) % 4 = 0 then ' ' else ':')) ∧
    id.words.length = 8 ∧ id.words.flatMap Word.encode = id.field.bytes := by
  refine ⟨fun other => ⟨fun same => text_injective same, congrArg text⟩, padded_iff_words,
    fun padded => ⟨length_text_of_padded padded, toList_text_of_padded padded⟩, fun used => ?_,
    id.length_words, id.flatMap_encode_words⟩
  rw [toList_text_of_not_padded used]
  refine ⟨length_text_of_not_padded used, pair_grouped id.length_bytes_mod, fun i small => ?_⟩
  apply divider_grouped id.length_bytes_mod
  rw [id.field.length_bytes]
  exact Nat.succ_lt_succ small

/-- A last byte that is not zero is enough to show all of them. -/
theorem text_tells_last_byte :
    let zeros : ImageId := ⟨.padded _ []⟩
    let last : ImageId := ⟨.padded _ (List.replicate 31 0 ++ [0xFF])⟩
    zeros.Padded ∧ zeros.text.length = 45 ∧ zeros.words.drop 5 = [0, 0, 0] ∧
      ¬ last.Padded ∧ last.text.length = 95 ∧ (last.text.toList.drop 93).take 2 = ['f', 'f'] ∧
      last.text.toList[92]? = some ':' ∧ zeros.text ≠ last.text := by
  intro zeros last
  have padded : zeros.Padded := fun b mem =>
    List.eq_of_mem_replicate (show b ∈ List.replicate 12 0 from mem)
  have used : ¬ last.Padded := fun padded => absurd (padded 0xFF (by decide)) (by decide)
  obtain ⟨same, words, digest, -, -, -⟩ := text_tells_id zeros
  obtain ⟨-, -, -, full, -, -⟩ := text_tells_id last
  obtain ⟨long, pairs, dividers⟩ := full used
  exact ⟨padded, (digest padded).1, words.mp padded, used, long, pairs 31 0xFF rfl,
    dividers 30 (by decide), fun texts => absurd ((same last).mp texts) (by decide)⟩

end ImageId

end BootImage
