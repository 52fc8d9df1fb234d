import BootImage.Checked

/-!
Checked arithmetic in numbers of any size: a computation in words succeeds with the word that stands
for the result, so it fails where no word does.
-/

namespace BootImage.Checked

theorem bind_eq_ok_iff {ε α β : Type} {first : Except ε α} {next : α → Except ε β} {result : β} :
    (first >>= next) = .ok result ↔ ∃ value, first = .ok value ∧ next value = .ok result := by
  cases first with
  | error reason => simp [bind, Except.bind]
  | ok value => simp [bind, Except.bind]

theorem exists_error_iff {ε α : Type} {result : Except ε α} :
    (∃ reason, result = .error reason) ↔ ¬ ∃ value, result = .ok value := by
  cases result with
  | error reason => simp
  | ok value => simp

/-- A number that fits into words, as the word that stands for it. -/
theorem map_fits_eq_ok_iff {Word : Type} {size value : Nat} {fault : Fault} {ofNat : Nat → Word}
    {toNat : Word → Nat} (toNat_ofNat : ∀ n < size, toNat (ofNat n) = n)
    (ofNat_toNat : ∀ word, ofNat (toNat word) = word) (toNat_lt : ∀ word, toNat word < size)
    {word : Word} :
    (fits size fault value).map ofNat = .ok word ↔ toNat word = value := by
  rw [fits]
  constructor
  · intro made
    split at made
    · rename_i inside
      cases made
      exact toNat_ofNat value inside
    · cases made
  · rintro rfl
    rw [if_pos (toNat_lt word)]
    exact congrArg Except.ok (ofNat_toNat word)

theorem add16_eq_ok_iff {left right sum : UInt16} :
    add16 left right = .ok sum ↔ sum.toNat = left.toNat + right.toNat :=
  map_fits_eq_ok_iff (fun _ inside => UInt16.toNat_ofNat_of_lt' inside)
    (fun _ => UInt16.ofNat_toNat) UInt16.toNat_lt_size

theorem add32_eq_ok_iff {left right sum : UInt32} :
    add32 left right = .ok sum ↔ sum.toNat = left.toNat + right.toNat :=
  map_fits_eq_ok_iff (fun _ inside => UInt32.toNat_ofNat_of_lt' inside)
    (fun _ => UInt32.ofNat_toNat) UInt32.toNat_lt_size

theorem sub16_eq_ok_iff {left right rest : UInt16} :
    sub16 left right = .ok rest ↔
      right.toNat ≤ left.toNat ∧ rest.toNat = left.toNat - right.toNat := by
  rw [sub16, ← UInt16.le_iff_toNat_le]
  split
  · rename_i le
    rw [← UInt16.toNat_sub_of_le _ _ le, UInt16.toNat_inj, Except.ok.injEq]
    exact ⟨fun same => ⟨le, same.symm⟩, fun both => both.2.symm⟩
  · rename_i above
    simp [above]

end BootImage.Checked
