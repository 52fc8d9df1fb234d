import BootImage.Proofs.Checked
import BootImage.Proofs.OsRelease

/-!
Packing a release. Shifting a part to its place drops what the word has no room for; the difference
to 2000 and the sums stop instead. So parts without room for all of them are refused or give a
release of other parts, and which of the two is a matter of numbers.

* `PatchLevel.ofDate_eq_ok_iff`, `OsRelease.ofParts_eq_ok_iff`: what is packed.
* `ReleaseParts.release_domain`: which parts can be packed, and which come back.
-/

namespace BootImage

/-! ### The halves and the word -/

/-- A version in numbers. -/
theorem OsVersion.toNat_ofParts (a b c : UInt8) :
    (ofParts a b c).bits.toNat = a.toNat * 2 ^ 14 ||| b.toNat * 2 ^ 7 ||| c.toNat := by
  have above := a.toNat_lt
  have between := b.toNat_lt
  have first : a.toNat * 2 ^ 14 % 2 ^ 32 = a.toNat * 2 ^ 14 := Nat.mod_eq_of_lt (by omega)
  have second : b.toNat * 2 ^ 7 % 2 ^ 32 = b.toNat * 2 ^ 7 := Nat.mod_eq_of_lt (by omega)
  rw [ofParts, UInt32.toNat_or, UInt32.toNat_or, UInt32.toNat_shiftLeft, UInt32.toNat_shiftLeft,
    UInt8.toNat_toUInt32, UInt8.toNat_toUInt32, UInt8.toNat_toUInt32, Nat.shiftLeft_eq,
    Nat.shiftLeft_eq]
  exact congrArg₂ (· ||| · ||| c.toNat) first second

/-- A date is packed when it is not before 2000 and the month fits behind what is left of the
year. -/
theorem PatchLevel.ofDate_eq_ok_iff {year : UInt16} {month : UInt8} {level : PatchLevel} :
    ofDate year month = .ok level ↔
      2000 ≤ year.toNat ∧
        level.bits.toNat = 16 * (year.toNat - 2000) % 2 ^ 16 + month.toNat := by
  have shifted (years : UInt16) : (years <<< 4).toNat = 16 * years.toNat % 2 ^ 16 := by
    rw [UInt16.toNat_shiftLeft, Nat.shiftLeft_eq, Nat.mul_comm]
    rfl
  rw [ofDate, Checked.bind_eq_ok_iff]
  constructor
  · rintro ⟨years, since, packed⟩
    obtain ⟨bits, sum, same⟩ := Checked.bind_eq_ok_iff.mp packed
    obtain ⟨late, count⟩ := Checked.sub16_eq_ok_iff.mp since
    rw [Checked.add16_eq_ok_iff, shifted, count, UInt8.toNat_toUInt16] at sum
    cases same
    exact ⟨late, sum⟩
  · rintro ⟨late, sum⟩
    have since : Checked.sub16 year 2000 = .ok (year - 2000) :=
      Checked.sub16_eq_ok_iff.mpr ⟨late, UInt16.toNat_sub_of_le _ _ late⟩
    refine ⟨_, since, Checked.bind_eq_ok_iff.mpr ⟨level.bits, ?_, rfl⟩⟩
    rw [Checked.add16_eq_ok_iff, shifted, UInt16.toNat_sub_of_le _ _ late, UInt8.toNat_toUInt16]
    exact sum

theorem OsRelease.ofParts_eq_ok_iff {version : OsVersion} {level : PatchLevel}
    {release : OsRelease} :
    ofParts version level = .ok release ↔
      release.raw.toNat = version.bits.toNat * 2 ^ 11 % 2 ^ 32 + level.bits.toNat := by
  have shifted : (version.bits <<< 11).toNat = version.bits.toNat * 2 ^ 11 % 2 ^ 32 := by
    rw [UInt32.toNat_shiftLeft, Nat.shiftLeft_eq]
    rfl
  rw [ofParts, Checked.bind_eq_ok_iff, ← shifted, ← UInt16.toNat_toUInt32]
  constructor
  · rintro ⟨raw, sum, same⟩
    cases same
    exact Checked.add32_eq_ok_iff.mp sum
  · intro sum
    exact ⟨release.raw, Checked.add32_eq_ok_iff.mpr sum, rfl⟩

/-- The numbers that a patch level is packed as. -/
theorem PatchLevel.exists_toNat_eq_iff {n : Nat} :
    (∃ level : PatchLevel, level.bits.toNat = n) ↔ n < 2 ^ 16 := by
  constructor
  · rintro ⟨level, rfl⟩
    exact level.bits.toNat_lt
  · intro small
    exact ⟨⟨.ofNat n⟩, UInt16.toNat_ofNat_of_lt' small⟩

/-- The numbers that a release is packed as. -/
theorem OsRelease.exists_toNat_eq_iff {n : Nat} :
    (∃ release : OsRelease, release.raw.toNat = n) ↔ n < 2 ^ 32 := by
  constructor
  · rintro ⟨release, rfl⟩
    exact release.raw.toNat_lt
  · intro small
    exact ⟨⟨.ofNat n⟩, UInt32.toNat_ofNat_of_lt' small⟩

/-- What a release says has room in it. -/
theorem OsRelease.info_bounds (release : OsRelease) :
    release.info.major.toNat < 2 ^ 7 ∧ release.info.minor.toNat < 2 ^ 7 ∧
    release.info.patch.toNat < 2 ^ 7 ∧ release.info.year.toNat < 2 ^ 7 ∧
    release.info.month.toNat < 2 ^ 4 := by
  obtain ⟨major, minor, patch, year, month⟩ := release.info_toNat
  rw [major, minor, patch, year, month]
  exact ⟨Nat.div_lt_of_lt_mul release.raw.toNat_lt, Nat.mod_lt _ (Nat.two_pow_pos 7),
    Nat.mod_lt _ (Nat.two_pow_pos 7), Nat.mod_lt _ (Nat.two_pow_pos 7),
    Nat.mod_lt _ (Nat.two_pow_pos 4)⟩

/-! ### Parts that are packed -/

/-- The parts of a release as numbers, the most significant first. -/
def ReleaseInfo.parts (info : ReleaseInfo) : List Nat :=
  [info.major.toNat, info.minor.toNat, info.patch.toNat, info.year.toNat, info.month.toNat]

/-- What a release is packed from: the parts of its version and the month of its patches. -/
structure ReleaseParts where
  major : UInt8
  minor : UInt8
  patch : UInt8
  /-- The calendar year. -/
  year : UInt16
  month : UInt8

namespace ReleaseParts

def numbers (parts : ReleaseParts) : List Nat :=
  [parts.major.toNat, parts.minor.toNat, parts.patch.toNat, parts.year.toNat - 2000,
    parts.month.toNat]

/-- Each part has room in its own bits: seven for those of the version and for the year from 2000
on, four for the month. -/
structure HasRoom (parts : ReleaseParts) : Prop where
  major : parts.major.toNat ≤ 127
  minor : parts.minor.toNat ≤ 127
  patch : parts.patch.toNat ≤ 127
  since : 2000 ≤ parts.year.toNat
  year : parts.year.toNat ≤ 2127
  month : parts.month.toNat ≤ 15

def version (parts : ReleaseParts) : OsVersion :=
  OsVersion.ofParts parts.major parts.minor parts.patch

def patchLevel (parts : ReleaseParts) : Except Fault PatchLevel :=
  PatchLevel.ofDate parts.year parts.month

def release (parts : ReleaseParts) : Except Fault OsRelease := do
  OsRelease.ofParts parts.version (← parts.patchLevel)

/-- The version in numbers: a part that is too large covers bits of the one before it. -/
def versionNumber (parts : ReleaseParts) : Nat :=
  parts.major.toNat * 2 ^ 14 ||| parts.minor.toNat * 2 ^ 7 ||| parts.patch.toNat

/-- The month in numbers: the year loses what sixteen bits have no room for, and a month that is
too large is added to it. -/
def levelNumber (parts : ReleaseParts) : Nat :=
  16 * (parts.year.toNat - 2000) % 2 ^ 16 + parts.month.toNat

variable {parts other : ReleaseParts} {level : PatchLevel} {release : OsRelease}

theorem patchLevel_eq_ok_iff :
    parts.patchLevel = .ok level ↔
      2000 ≤ parts.year.toNat ∧ level.bits.toNat = parts.levelNumber :=
  PatchLevel.ofDate_eq_ok_iff

theorem ofParts_eq_ok_iff (dated : parts.patchLevel = .ok level) :
    OsRelease.ofParts parts.version level = .ok release ↔
      release.raw.toNat = parts.versionNumber * 2 ^ 11 % 2 ^ 32 + parts.levelNumber := by
  rw [OsRelease.ofParts_eq_ok_iff, version, OsVersion.toNat_ofParts,
    (patchLevel_eq_ok_iff.mp dated).2]
  rfl

theorem release_eq_ok_iff :
    parts.release = .ok release ↔ ∃ level, parts.patchLevel = .ok level ∧
      release.raw.toNat = parts.versionNumber * 2 ^ 11 % 2 ^ 32 + parts.levelNumber := by
  rw [ReleaseParts.release, Checked.bind_eq_ok_iff]
  exact exists_congr fun level => and_congr_right ofParts_eq_ok_iff

/-- In the room that they have, parts are packed side by side. -/
theorem HasRoom.versionNumber_eq (room : parts.HasRoom) :
    parts.versionNumber =
      parts.major.toNat * 2 ^ 14 + parts.minor.toNat * 2 ^ 7 + parts.patch.toNat := by
  have minor : parts.minor.toNat * 2 ^ 7 < 2 ^ 14 := by
    have := room.minor
    omega
  have patch : parts.patch.toNat < 2 ^ 7 := Nat.lt_succ_of_le room.patch
  have upper := Nat.two_pow_add_eq_or_of_lt minor parts.major.toNat
  have lower := Nat.two_pow_add_eq_or_of_lt patch (parts.major.toNat * 2 ^ 7 + parts.minor.toNat)
  have whole : 2 ^ 7 * (parts.major.toNat * 2 ^ 7 + parts.minor.toNat) =
      2 ^ 14 * parts.major.toNat + parts.minor.toNat * 2 ^ 7 := by
    omega
  rw [whole] at lower
  rw [versionNumber, Nat.mul_comm parts.major.toNat, ← upper, ← lower]

theorem HasRoom.levelNumber_eq (room : parts.HasRoom) :
    parts.levelNumber = 16 * (parts.year.toNat - 2000) + parts.month.toNat := by
  have year := room.year
  rw [levelNumber, Nat.mod_eq_of_lt]
  omega

/-- Parts that have room can be packed. -/
theorem HasRoom.exists_release (room : parts.HasRoom) :
    ∃ release, parts.release = .ok release := by
  have month : parts.levelNumber < 2 ^ 11 := by
    have := room.year
    have := room.month
    rw [room.levelNumber_eq]
    omega
  obtain ⟨level, bits⟩ : ∃ level : PatchLevel, level.bits.toNat = parts.levelNumber :=
    PatchLevel.exists_toNat_eq_iff.mpr (by omega)
  obtain ⟨release, raw⟩ := @OsRelease.exists_toNat_eq_iff
    (parts.versionNumber * 2 ^ 11 % 2 ^ 32 + parts.levelNumber) |>.mpr (by omega)
  have dated := patchLevel_eq_ok_iff.mpr ⟨room.since, bits⟩
  exact ⟨release, release_eq_ok_iff.mpr ⟨level, dated, raw⟩⟩

/-- **Parts come back when each has room, and only then.** -/
theorem info_eq_numbers_iff (packed : parts.release = .ok release) :
    release.info.parts = parts.numbers ↔ parts.HasRoom := by
  obtain ⟨level, dated, raw⟩ := release_eq_ok_iff.mp packed
  simp only [ReleaseInfo.parts, numbers, List.cons.injEq, and_true]
  constructor
  · intro same
    obtain ⟨since, -⟩ := patchLevel_eq_ok_iff.mp dated
    have bounds := release.info_bounds
    constructor <;> omega
  · intro room
    rw [room.versionNumber_eq, room.levelNumber_eq] at raw
    obtain ⟨major, minor, patch, -, year, month⟩ := room
    have fits : (parts.major.toNat * 2 ^ 14 + parts.minor.toNat * 2 ^ 7 + parts.patch.toNat) *
        2 ^ 11 < 2 ^ 32 := by
      omega
    rw [Nat.mod_eq_of_lt fits] at raw
    obtain ⟨major', minor', patch', year', month'⟩ := release.info_toNat
    rw [major', minor', patch', year', month', raw]
    clear major' minor' patch' year' month' raw
    refine ⟨?_, ?_, ?_, ?_, ?_⟩ <;> omega

/-- Parts that have room are told by their numbers. -/
theorem HasRoom.eq_of_numbers (room : parts.HasRoom) (room' : other.HasRoom)
    (same : parts.numbers = other.numbers) : parts = other := by
  have since := room.since
  have since' := room'.since
  simp only [numbers, List.cons.injEq, and_true, UInt8.toNat_inj] at same
  obtain ⟨major, minor, patch, year, month⟩ := same
  have sameYear : parts.year = other.year := UInt16.toNat_inj.mp (by omega)
  cases parts
  cases other
  simp_all

/-- **Which parts can be packed, and which come back.** The month is refused exactly before 2000 and
where the sum that it is part of is no word of sixteen bits, the release exactly where the sum of
both halves is no word of 32 bits. Parts that have room are packed, are what the release says, and
are the only such parts that give it. Parts without room are refused, or the release says others. -/
theorem release_domain (parts : ReleaseParts) :
    ((∃ fault, parts.patchLevel = .error fault) ↔
      parts.year.toNat < 2000 ∨ 2 ^ 16 ≤ parts.levelNumber) ∧
    (∀ level, parts.patchLevel = .ok level →
      ((∃ fault, OsRelease.ofParts parts.version level = .error fault) ↔
        2 ^ 32 ≤ parts.versionNumber * 2 ^ 11 % 2 ^ 32 + parts.levelNumber)) ∧
    (parts.HasRoom → ∃ release, parts.release = .ok release ∧
      release.info.parts = parts.numbers ∧
      ∀ other : ReleaseParts, other.HasRoom → other.release = .ok release → other = parts) ∧
    (¬ parts.HasRoom → ∀ release, parts.release = .ok release →
      release.info.parts ≠ parts.numbers) := by
  refine ⟨?month, ?word, ?room, ?noRoom⟩
  case month =>
    simp only [Checked.exists_error_iff, patchLevel_eq_ok_iff, exists_and_left,
      PatchLevel.exists_toNat_eq_iff]
    omega
  case word =>
    intro level dated
    simp only [Checked.exists_error_iff, ofParts_eq_ok_iff dated, OsRelease.exists_toNat_eq_iff]
    omega
  case room =>
    intro room
    obtain ⟨release, packed⟩ := room.exists_release
    have back := (info_eq_numbers_iff packed).mpr room
    refine ⟨release, packed, back, ?_⟩
    intro other room' packed'
    have back' := (info_eq_numbers_iff packed').mpr room'
    exact room'.eq_of_numbers room (back'.symm.trans back)
  case noRoom =>
    intro noRoom release packed back
    exact noRoom ((info_eq_numbers_iff packed).mp back)

/-- Next to the last parts that have room. One year later the sum of both halves is no word, and
4095 years after 2000 the month does not fit behind the year any more; but a year later still the
year is dropped, and the release says other parts. -/
theorem release_next_to_the_last :
    let last : ReleaseParts := ⟨127, 127, 127, 2127, 15⟩
    let next : ReleaseParts := ⟨127, 127, 127, 2128, 0⟩
    let late : ReleaseParts := ⟨0, 128, 0, 6095, 16⟩
    let later : ReleaseParts := ⟨0, 128, 0, 6096, 16⟩
    (last.HasRoom ∧ ∃ release, last.release = .ok release ∧
      release.info.parts = last.numbers) ∧
    (next.patchLevel = .ok ⟨2048⟩ ∧
      ∃ fault, OsRelease.ofParts next.version ⟨2048⟩ = .error fault) ∧
    (∃ fault, late.patchLevel = .error fault) ∧
    (¬ later.HasRoom ∧ later.release = .ok ⟨33554448⟩ ∧
      (⟨33554448⟩ : OsRelease).info.parts ≠ later.numbers) := by
  intro last next late later
  have room : last.HasRoom := by constructor <;> decide
  have noRoom : ¬ later.HasRoom := fun room => absurd room.year (by decide)
  have dated : next.patchLevel = .ok ⟨2048⟩ := by decide
  have packed : later.release = .ok ⟨33554448⟩ := by decide
  obtain ⟨-, -, back, -⟩ := release_domain last
  obtain ⟨-, refused, -, -⟩ := release_domain next
  obtain ⟨refused', -, -, -⟩ := release_domain late
  obtain ⟨-, -, -, others⟩ := release_domain later
  obtain ⟨release, made, said, -⟩ := back room
  exact ⟨⟨room, release, made, said⟩, ⟨dated, (refused _ dated).mpr (by decide)⟩,
    refused'.mpr (by decide), noRoom, packed, others noRoom _ packed⟩

end ReleaseParts

end BootImage
