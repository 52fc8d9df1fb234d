import BootImage.Checked
import BootImage.Text

/-!
The operating system release that an image is made for: a version of three parts and the month of
its security patches, packed into one word.

From the top, the word holds seven bits for each part of the version, seven bits for the year
since 2000 and four bits for the month. `OsVersion` and `PatchLevel` are the two halves as they
are packed; `ReleaseInfo` is the word taken apart.
-/

namespace BootImage

/-- A version `a.b.c`, seven bits for each part. -/
structure OsVersion where
  bits : UInt32
  deriving DecidableEq, Ord

namespace OsVersion

/-- Packs three parts. A part above 127 runs into the one before it. -/
def ofParts (a b c : UInt8) : OsVersion where
  bits := (a.toUInt32 <<< 14) ||| (b.toUInt32 <<< 7) ||| c.toUInt32

def major (version : OsVersion) : UInt8 :=
  ((version.bits >>> 14) &&& 0x7f).toUInt8

def minor (version : OsVersion) : UInt8 :=
  ((version.bits >>> 7) &&& 0x7f).toUInt8

def patch (version : OsVersion) : UInt8 :=
  (version.bits &&& 0x7f).toUInt8

/-- The version as it is shown: `12.0.0`. -/
def text (version : OsVersion) : String :=
  Numeral.decimal version.major.toNat ++ "." ++ Numeral.decimal version.minor.toNat ++ "." ++
    Numeral.decimal version.patch.toNat

end OsVersion

/-- The day that every patch level names: only year and month are recorded. -/
def patchDay : Nat := 1

/-- The month of the newest security patches, seven bits of year and four of month. -/
structure PatchLevel where
  bits : UInt16
  deriving DecidableEq, Ord

namespace PatchLevel

/-- Packs a year and a month. The shift to the year's place drops what does not fit; the
difference to 2000 and the sum with the month do not. -/
def ofDate (year : UInt16) (month : UInt8) : Except Fault PatchLevel := do
  let years ← Checked.sub16 year 2000
  let bits ← Checked.add16 (years <<< 4) month.toUInt16
  return ⟨bits⟩

def yearOffset (level : PatchLevel) : UInt8 :=
  ((level.bits >>> 4) &&& 0x7f).toUInt8

def year (level : PatchLevel) : Nat :=
  level.yearOffset.toNat + 2000

def month (level : PatchLevel) : UInt8 :=
  (level.bits &&& 0xf).toUInt8

/-- The patch level as it is shown: `2024-06-01`. -/
def text (level : PatchLevel) : String :=
  Numeral.paddedDecimal 4 level.year ++ "-" ++ Numeral.paddedDecimal 2 level.month.toNat ++ "-" ++
    Numeral.paddedDecimal 2 patchDay

end PatchLevel

structure ReleaseInfo where
  major : UInt8
  minor : UInt8
  patch : UInt8
  /-- Years since 2000. -/
  year : UInt8
  month : UInt8
  deriving DecidableEq, Repr

namespace ReleaseInfo

/-- The three parts of the version, points between them. -/
def versionText (info : ReleaseInfo) : String :=
  ".".intercalate ([info.major, info.minor, info.patch].map fun part => Numeral.decimal part.toNat)

/-- The first day of the patch month: four digits of year, two of month, two of day. -/
def patchLevelText (info : ReleaseInfo) : String :=
  "-".intercalate [Numeral.paddedDecimal 4 (2000 + info.year.toNat),
    Numeral.paddedDecimal 2 info.month.toNat, Numeral.paddedDecimal 2 patchDay]

end ReleaseInfo

/-- A version and a patch level in one word, the version above eleven bits of patch level. -/
structure OsRelease where
  raw : UInt32
  deriving DecidableEq, Ord

namespace OsRelease

/-- Packs both halves. The version's shift drops what does not fit, the sum does not. -/
def ofParts (version : OsVersion) (level : PatchLevel) : Except Fault OsRelease := do
  let raw ← Checked.add32 (version.bits <<< 11) level.bits.toUInt32
  return ⟨raw⟩

def version (release : OsRelease) : OsVersion :=
  ⟨release.raw >>> 11⟩

def patchLevel (release : OsRelease) : PatchLevel :=
  ⟨(release.raw &&& 0x7ff).toUInt16⟩

def info (release : OsRelease) : ReleaseInfo where
  major := release.version.major
  minor := release.version.minor
  patch := release.version.patch
  year := release.patchLevel.yearOffset
  month := release.patchLevel.month

/-- Both halves after the type's name: `OsVersionPatch(12.0.0, 2024-06-01)`. -/
def tagged (release : OsRelease) : String :=
  "OsVersionPatch(" ++ release.version.text ++ ", " ++ release.patchLevel.text ++ ")"

end OsRelease

end BootImage
