import Mathlib.Data.UInt
import BootImage.Proofs.OsRelease.Packing

/-!
Releases in order. Each part has its own bits, the most significant part the highest, so words
compare as their parts do one after the other, and so do the halves of a word. Main statement:
`OsRelease.parts_decide`, with what the parts say besides the order.
-/

namespace BootImage

/-- Numbers of two digits compare digit by digit. -/
theorem compare_digits {base high low high' low' : Nat} (small : low < base)
    (small' : low' < base) :
    compare (base * high + low) (base * high' + low') =
      (compare high high').then (compare low low') := by
  rcases Nat.lt_trichotomy high high' with below | same | above
  · have room : base * (high + 1) ≤ base * high' := Nat.mul_le_mul_left base below
    rw [Nat.mul_add, Nat.mul_one] at room
    rw [Nat.compare_eq_lt.mpr below, Nat.compare_eq_lt.mpr (by omega)]
    rfl
  · subst same
    rw [Nat.compare_eq_eq.mpr rfl, Ordering.eq_then]
    rcases Nat.lt_trichotomy low low' with below | same | above
    · rw [Nat.compare_eq_lt.mpr below, Nat.compare_eq_lt.mpr (by omega)]
    · rw [same]
      exact (Nat.compare_eq_eq.mpr rfl).trans (Nat.compare_eq_eq.mpr rfl).symm
    · rw [Nat.compare_eq_gt.mpr above, Nat.compare_eq_gt.mpr (by omega)]
  · have room : base * (high' + 1) ≤ base * high := Nat.mul_le_mul_left base above
    rw [Nat.mul_add, Nat.mul_one] at room
    rw [Nat.compare_eq_gt.mpr above, Nat.compare_eq_gt.mpr (by omega)]
    rfl

/-! ### Words and the numbers that they stand for -/

theorem OsVersion.compare_eq (left right : OsVersion) :
    compare left right = compare left.bits.toNat right.bits.toNat := by
  rw [← UInt32.compare_eq_toNat_compare_toNat]
  exact Ordering.then_eq

theorem PatchLevel.compare_eq (left right : PatchLevel) :
    compare left right = compare left.bits.toNat right.bits.toNat := by
  rw [← UInt16.compare_eq_toNat_compare_toNat]
  exact Ordering.then_eq

namespace OsRelease

theorem compare_eq (left right : OsRelease) :
    compare left right = compare left.raw.toNat right.raw.toNat := by
  rw [← UInt32.compare_eq_toNat_compare_toNat]
  exact Ordering.then_eq

/-! ### Halves -/

theorem toNat_version (release : OsRelease) :
    release.version.bits.toNat = release.raw.toNat / 2 ^ 11 := by
  rw [version, UInt32.toNat_shiftRight, Nat.shiftRight_eq_div_pow]
  rfl

theorem toNat_patchLevel (release : OsRelease) :
    release.patchLevel.bits.toNat = release.raw.toNat % 2 ^ 11 := by
  have low : release.raw.toNat &&& 2047 = release.raw.toNat % 2 ^ 11 :=
    Nat.and_two_pow_sub_one_eq_mod release.raw.toNat 11
  rw [patchLevel, UInt32.toNat_toUInt16, UInt32.toNat_and]
  change (release.raw.toNat &&& 2047) % 2 ^ 16 = release.raw.toNat % 2 ^ 11
  omega

/-- The halves of a release give it back. -/
theorem ofParts_halves (release : OsRelease) :
    ofParts release.version release.patchLevel = .ok release := by
  have bound := release.raw.toNat_lt
  rw [ofParts_eq_ok_iff, toNat_version, toNat_patchLevel]
  omega

/-- A version as digits of its half. -/
theorem toNat_version_eq (release : OsRelease) :
    release.version.bits.toNat = 2 ^ 14 * release.info.major.toNat +
      (2 ^ 7 * release.info.minor.toNat + release.info.patch.toNat) := by
  obtain ⟨major, minor, patch, -, -⟩ := release.info_toNat
  rw [toNat_version]
  omega

/-- A month as digits of its half. -/
theorem toNat_patchLevel_eq (release : OsRelease) :
    release.patchLevel.bits.toNat = 2 ^ 4 * release.info.year.toNat + release.info.month.toNat := by
  obtain ⟨-, -, -, year, month⟩ := release.info_toNat
  rw [toNat_patchLevel]
  omega

/-! ### Order -/

theorem compare_version (left right : OsRelease) :
    compare left.version right.version =
      compare (left.info.parts.take 3) (right.info.parts.take 3) := by
  have low (release : OsRelease) : 2 ^ 7 * release.info.minor.toNat + release.info.patch.toNat <
      2 ^ 14 := by
    have bounds := release.info_bounds
    omega
  obtain ⟨-, -, patch, -, -⟩ := left.info_bounds
  obtain ⟨-, -, patch', -, -⟩ := right.info_bounds
  rw [OsVersion.compare_eq, toNat_version_eq, toNat_version_eq,
    compare_digits (low left) (low right), compare_digits patch patch']
  simp only [ReleaseInfo.parts, List.take_succ_cons, List.take_zero, List.compare_cons_cons,
    List.compare_nil_nil, Ordering.then_eq]

theorem compare_patchLevel (left right : OsRelease) :
    compare left.patchLevel right.patchLevel =
      compare (left.info.parts.drop 3) (right.info.parts.drop 3) := by
  obtain ⟨-, -, -, -, month⟩ := left.info_bounds
  obtain ⟨-, -, -, -, month'⟩ := right.info_bounds
  rw [PatchLevel.compare_eq, toNat_patchLevel_eq, toNat_patchLevel_eq,
    compare_digits month month']
  simp only [ReleaseInfo.parts, List.drop_succ_cons, List.drop_zero, List.compare_cons_cons,
    List.compare_nil_nil, Ordering.then_eq]

/-- Releases compare by their versions first. -/
theorem compare_halves (left right : OsRelease) :
    compare left right =
      (compare left.version right.version).then (compare left.patchLevel right.patchLevel) := by
  have whole (release : OsRelease) : release.raw.toNat =
      2 ^ 11 * release.version.bits.toNat + release.patchLevel.bits.toNat := by
    rw [toNat_version, toNat_patchLevel, Nat.div_add_mod]
  have low (release : OsRelease) : release.patchLevel.bits.toNat < 2 ^ 11 := by
    rw [toNat_patchLevel]
    exact Nat.mod_lt _ (Nat.two_pow_pos 11)
  rw [compare_eq, whole, whole, compare_digits (low left) (low right), OsVersion.compare_eq,
    PatchLevel.compare_eq]

theorem compare_parts (left right : OsRelease) :
    compare left right = compare left.info.parts right.info.parts := by
  rw [compare_halves, compare_version, compare_patchLevel]
  simp only [ReleaseInfo.parts, List.take_succ_cons, List.take_zero, List.drop_succ_cons,
    List.drop_zero, List.compare_cons_cons, List.compare_nil_nil, Ordering.then_eq,
    Ordering.then_assoc]

/-- **The parts of a release say all of it.** Packing both halves gives the release back, its texts
are those of the halves and tell it from any other, and releases, versions and months compare as
their parts do, from the first one on. -/
theorem parts_decide (left right : OsRelease) :
    ofParts left.version left.patchLevel = .ok left ∧
    (left.info.versionText = left.version.text ∧
      left.info.patchLevelText = left.patchLevel.text) ∧
    ((left.info.versionText, left.info.patchLevelText) =
      (right.info.versionText, right.info.patchLevelText) ↔ left = right) ∧
    compare left right = compare left.info.parts right.info.parts ∧
    compare left.version right.version =
      compare (left.info.parts.take 3) (right.info.parts.take 3) ∧
    compare left.patchLevel right.patchLevel =
      compare (left.info.parts.drop 3) (right.info.parts.drop 3) := by
  refine ⟨ofParts_halves left, ⟨versionText_info left, patchLevelText_info left⟩, ?texts,
    compare_parts left right, compare_version left right, compare_patchLevel left right⟩
  case texts =>
    constructor
    · intro same
      obtain ⟨version, level⟩ := Prod.mk.inj same
      exact info_injective (ReleaseInfo.texts_injective version level)
    · rintro rfl
      rfl

end OsRelease

end BootImage
