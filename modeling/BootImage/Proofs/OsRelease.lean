import Mathlib.Algebra.Ring.Nat
import BootImage.OsRelease
import BootImage.Proofs.Text

/-!
The release word and its texts. The five parts are all there is in the word
(`OsRelease.info_injective`), and the two texts of a release tell all five
(`ReleaseInfo.texts_injective`), so the texts determine the word. The texts of a release taken apart
are those of its halves.
-/

namespace BootImage

/-! ### The parts of the word -/

namespace OsRelease

/-- The parts as digits of the word: seven bits each, and four for the month. -/
theorem info_toNat (release : OsRelease) :
    release.info.major.toNat = release.raw.toNat / 2 ^ 25 ∧
    release.info.minor.toNat = release.raw.toNat / 2 ^ 18 % 2 ^ 7 ∧
    release.info.patch.toNat = release.raw.toNat / 2 ^ 11 % 2 ^ 7 ∧
    release.info.year.toNat = release.raw.toNat / 2 ^ 4 % 2 ^ 7 ∧
    release.info.month.toNat = release.raw.toNat % 2 ^ 4 := by
  have bound := release.raw.toNat_lt
  have four (n : Nat) : n &&& 15 = n % 2 ^ 4 := Nat.and_two_pow_sub_one_eq_mod n 4
  have seven (n : Nat) : n &&& 127 = n % 2 ^ 7 := Nat.and_two_pow_sub_one_eq_mod n 7
  have eight (n : Nat) : n &&& 255 = n % 2 ^ 8 := Nat.and_two_pow_sub_one_eq_mod n 8
  have eleven (n : Nat) : n &&& 2047 = n % 2 ^ 11 := Nat.and_two_pow_sub_one_eq_mod n 11
  simp [info, version, patchLevel, OsVersion.major, OsVersion.minor, OsVersion.patch,
    PatchLevel.yearOffset, PatchLevel.month, Nat.shiftRight_eq_div_pow, four, seven, eight, eleven]
  omega

/-- No two words have the same parts. -/
theorem info_injective {left right : OsRelease} (same : left.info = right.info) : left = right := by
  obtain ⟨major, minor, patch, year, month⟩ := left.info_toNat
  obtain ⟨major', minor', patch', year', month'⟩ := right.info_toNat
  rw [same] at major minor patch year month
  have raw : left.raw.toNat = right.raw.toNat := by omega
  cases left
  cases right
  exact congrArg OsRelease.mk (UInt32.toNat_inj.mp raw)

end OsRelease

/-! ### The texts -/

namespace ReleaseInfo

theorem versionText_eq (info : ReleaseInfo) :
    info.versionText = Numeral.decimal info.major.toNat ++ "." ++
      Numeral.decimal info.minor.toNat ++ "." ++ Numeral.decimal info.patch.toNat :=
  rfl

theorem patchLevelText_eq (info : ReleaseInfo) :
    info.patchLevelText = Numeral.paddedDecimal 4 (2000 + info.year.toNat) ++ "-" ++
      Numeral.paddedDecimal 2 info.month.toNat ++ "-" ++ Numeral.paddedDecimal 2 patchDay :=
  rfl

/-- The version text tells the version. -/
theorem versionText_injective {left right : ReleaseInfo}
    (same : left.versionText = right.versionText) :
    left.major = right.major ∧ left.minor = right.minor ∧ left.patch = right.patch := by
  have point (n : Nat) : '.' ∉ (Numeral.decimal n).toList :=
    Numeral.notMem_digits (by decide) (by decide) (by decide)
  rw [versionText_eq, versionText_eq] at same
  obtain ⟨front, patch⟩ := append_separator_inj rfl (point _) (point _) same
  obtain ⟨major, minor⟩ := append_separator_inj rfl (point _) (point _) front
  exact ⟨UInt8.toNat_inj.mp (Numeral.decimal_injective major),
    UInt8.toNat_inj.mp (Numeral.decimal_injective minor),
    UInt8.toNat_inj.mp (Numeral.decimal_injective patch)⟩

/-- The text of the patch level tells the month. -/
theorem patchLevelText_injective {left right : ReleaseInfo}
    (same : left.patchLevelText = right.patchLevelText) :
    left.year = right.year ∧ left.month = right.month := by
  have dash (width n : Nat) : '-' ∉ (Numeral.paddedDecimal width n).toList :=
    Numeral.notMem_digits (by decide) (by decide) (by decide)
  rw [patchLevelText_eq, patchLevelText_eq] at same
  obtain ⟨front, -⟩ := append_separator_inj rfl (dash 2 _) (dash 2 _) same
  obtain ⟨year, month⟩ := append_separator_inj rfl (dash 2 _) (dash 2 _) front
  exact ⟨UInt8.toNat_inj.mp (Nat.add_left_cancel (Numeral.paddedDecimal_injective year)),
    UInt8.toNat_inj.mp (Numeral.paddedDecimal_injective month)⟩

/-- Both texts tell all parts. -/
theorem texts_injective {left right : ReleaseInfo} (version : left.versionText = right.versionText)
    (level : left.patchLevelText = right.patchLevelText) : left = right := by
  obtain ⟨major, minor, patch⟩ := versionText_injective version
  obtain ⟨year, month⟩ := patchLevelText_injective level
  cases left
  cases right
  simp_all

end ReleaseInfo

namespace OsRelease

/-- The version of a release taken apart reads like that of its upper half. -/
theorem versionText_info (release : OsRelease) :
    release.info.versionText = release.version.text := by
  rw [ReleaseInfo.versionText_eq, OsVersion.text]
  rfl

/-- The patch level of a release taken apart reads like that of its lower half. -/
theorem patchLevelText_info (release : OsRelease) :
    release.info.patchLevelText = release.patchLevel.text := by
  rw [ReleaseInfo.patchLevelText_eq, PatchLevel.text, PatchLevel.year, Nat.add_comm]
  rfl

end OsRelease

end BootImage
