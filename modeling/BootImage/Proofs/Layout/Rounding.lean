import Mathlib.Order.Bounds.Basic
import BootImage.Proofs.Checked
import BootImage.Proofs.Layout.Tight

/-!
Filling up to whole pages, on words of 64 bits. The number of pages is computed before anything is
multiplied, so a size near the end of the words is filled up wherever the result is a word, also
where the size and one page together are none.

* `wholePages_eq_ok_iff`: what is computed is the filled up size, and nothing else.
* `wholePages_closure`: it is the closure onto multiples of the page, with the laws that this brings.
-/

namespace BootImage

/-! ### Numbers of any size -/

/-- A multiple holds the filled up size when it holds the size. -/
theorem roundUp_le_iff {unit multiple : Nat} (positive : 0 < unit) (whole : unit ∣ multiple)
    (size : Nat) : roundUp unit size ≤ multiple ↔ size ≤ multiple := by
  constructor
  · intro filled
    exact Nat.le_trans (le_roundUp unit size) filled
  · intro holds
    exact (isLeast_roundUp positive size).2 ⟨whole, holds⟩

theorem roundUp_mono {unit size larger : Nat} (positive : 0 < unit) (le : size ≤ larger) :
    roundUp unit size ≤ roundUp unit larger := by
  have whole := (isLeast_roundUp positive larger).1.1
  apply (roundUp_le_iff positive whole size).mpr
  exact Nat.le_trans le (le_roundUp unit larger)

/-- What is filled up already stays as it is. -/
theorem roundUp_roundUp {unit : Nat} (positive : 0 < unit) (size : Nat) :
    roundUp unit (roundUp unit size) = roundUp unit size :=
  roundUp_of_mod_eq_zero (roundUp_mod positive size)

/-- The usual formula, in numbers where no sum is too large. -/
theorem roundUp_eq_div_mul {unit : Nat} (positive : 0 < unit) (size : Nat) :
    roundUp unit size = (size + unit - 1) / unit * unit := by
  obtain ⟨count, filled⟩ := (isLeast_roundUp positive size).1.1
  rw [Nat.mul_comm] at filled
  have above := le_roundUp unit size
  have below := roundUp_lt positive size
  have counted : (size + unit - 1) / unit = count := by
    apply Nat.div_eq_of_lt_le
    · omega
    · rw [Nat.add_mul, Nat.one_mul]
      omega
  rw [counted, filled]

/-! ### Words -/

theorem page_ne_zero_iff {page : UInt64} : page ≠ 0 ↔ 0 < page.toNat := by
  rw [Nat.pos_iff_ne_zero, ne_eq, ne_eq, ← UInt64.toNat_inj]
  rfl

/-- Filling up succeeds with the filled up size when that is a word. -/
theorem wholePages_eq_ok_iff {size page filled : UInt64} :
    wholePages size page = .ok filled ↔
      page ≠ 0 ∧ filled.toNat = roundUp page.toNat size.toNat := by
  by_cases zero : page = 0
  · subst zero
    simp [wholePages, Checked.partsOf, bind, Except.bind]
  · have positive := page_ne_zero_iff.mp zero
    rw [wholePages_eq_fits positive, Checked.map_fits_eq_ok_iff
      (fun _ inside => UInt64.toNat_ofNat_of_lt' inside) (fun _ => UInt64.ofNat_toNat)
      UInt64.toNat_lt_size]
    exact (and_iff_right zero).symm

/-- It fails for pages of no bytes, and where the filled up size is no word. -/
theorem wholePages_fails_iff {size page : UInt64} :
    (∃ fault, wholePages size page = .error fault) ↔
      page = 0 ∨ 2 ^ 64 ≤ roundUp page.toNat size.toNat := by
  rw [Checked.exists_error_iff]
  constructor
  · intro failed
    by_contra fits
    obtain ⟨nonzero, inside⟩ := not_or.mp fits
    have held : (UInt64.ofNat (roundUp page.toNat size.toNat)).toNat =
        roundUp page.toNat size.toNat := UInt64.toNat_ofNat_of_lt' (Nat.lt_of_not_le inside)
    exact failed ⟨_, wholePages_eq_ok_iff.mpr ⟨nonzero, held⟩⟩
  · rintro either ⟨filled, computed⟩
    obtain ⟨nonzero, same⟩ := wholePages_eq_ok_iff.mp computed
    have bounded := filled.toNat_lt
    rcases either with zero | outside
    · exact absurd zero nonzero
    · omega

/-- The filled up size is the least multiple, so a multiple is least exactly when it is that. -/
theorem exists_isLeast_iff {unit bound : Nat} (positive : 0 < unit) (size : Nat) :
    (∃ least, IsLeast (multiplesFrom unit size) least ∧ bound < least) ↔
      bound < roundUp unit size := by
  constructor
  · rintro ⟨least, isLeast, above⟩
    rwa [← isLeast.unique (isLeast_roundUp positive size)]
  · intro above
    exact ⟨_, isLeast_roundUp positive size, above⟩

/-- **Filling up to whole pages is a closure.** It fails exactly for pages of no bytes and where the
least multiple of the page that holds the size is no word. Otherwise it gives that multiple. So a
number of pages holds the result when it holds the size; filling up again changes nothing, and does
not fail; a larger size is filled up to no less; whole pages in front stay in front, as long as the
sum is a word; and the result is that of the usual formula in numbers of any size. -/
theorem wholePages_closure (size page : UInt64) :
    ((∃ fault, wholePages size page = .error fault) ↔
      page = 0 ∨ ∃ least, IsLeast (multiplesFrom page.toNat size.toNat) least ∧
        2 ^ 64 - 1 < least) ∧
    ∀ filled, wholePages size page = .ok filled →
      IsLeast (multiplesFrom page.toNat size.toNat) filled.toNat ∧
      (∀ count, filled.toNat ≤ count * page.toNat ↔ size.toNat ≤ count * page.toNat) ∧
      wholePages filled page = .ok filled ∧
      (∀ larger more, size ≤ larger → wholePages larger page = .ok more → filled ≤ more) ∧
      (∀ count (moved more : UInt64), moved.toNat = count * page.toNat + size.toNat →
        (wholePages moved page = .ok more ↔
          more.toNat = count * page.toNat + filled.toNat)) ∧
      filled.toNat = (size.toNat + page.toNat - 1) / page.toNat * page.toNat := by
  constructor
  · rw [wholePages_fails_iff]
    by_cases zero : page = 0
    · simp [zero]
    · have positive := page_ne_zero_iff.mp zero
      rw [exists_isLeast_iff positive]
      exact or_congr_right (Nat.lt_iff_add_one_le ..).symm
  · intro filled computed
    obtain ⟨nonzero, same⟩ := wholePages_eq_ok_iff.mp computed
    have positive := page_ne_zero_iff.mp nonzero
    refine ⟨?least, ?adjoint, ?again, ?mono, ?shift, ?formula⟩
    case least =>
      rw [same]
      exact isLeast_roundUp positive _
    case adjoint =>
      intro count
      rw [same]
      exact roundUp_le_iff positive (Nat.dvd_mul_left _ _) _
    case again =>
      apply wholePages_eq_ok_iff.mpr
      rw [same, roundUp_roundUp positive]
      exact ⟨nonzero, rfl⟩
    case mono =>
      intro larger more le computed'
      obtain ⟨-, same'⟩ := wholePages_eq_ok_iff.mp computed'
      rw [UInt64.le_iff_toNat_le, same, same']
      exact roundUp_mono positive (UInt64.le_iff_toNat_le.mp le)
    case shift =>
      intro count moved more sum
      have front := roundUp_add (Nat.dvd_mul_left page.toNat count) size.toNat
      rw [wholePages_eq_ok_iff, sum, front, same]
      exact and_iff_right nonzero
    case formula =>
      rw [same]
      exact roundUp_eq_div_mul positive _

/-- Pages of three bytes at the end of the words. The last word but one and a page are no word
together, and yet it is filled up: by the formula, and by two pages in front of a smaller size. -/
theorem wholePages_near_the_end :
    let size : UInt64 := 0xFFFFFFFFFFFFFFF8
    let filled : UInt64 := 0xFFFFFFFFFFFFFFF9
    let late : UInt64 := 0xFFFFFFFFFFFFFFFE
    let last : UInt64 := 0xFFFFFFFFFFFFFFFF
    wholePages size 3 = .ok filled ∧ wholePages filled 3 = .ok filled ∧ filled ≤ last ∧
      late.toNat = 2 * 3 + size.toNat ∧ wholePages late 3 = .ok last ∧
      IsLeast (multiplesFrom 3 late.toNat) last.toNat ∧ 2 ^ 64 ≤ late.toNat + 3 - 1 ∧
      last.toNat = (late.toNat + 3 - 1) / 3 * 3 := by
  intro size filled late last
  have computed : wholePages size 3 = .ok filled := by decide +kernel
  obtain ⟨-, -, again, mono, shift, -⟩ := (wholePages_closure size 3).2 filled computed
  have sum : late.toNat = 2 * 3 + size.toNat := by decide
  have moved : wholePages late 3 = .ok last := (shift 2 late last sum).mpr (by decide)
  have le : filled ≤ last := mono late last (by decide) moved
  obtain ⟨least, -, -, -, -, formula⟩ := (wholePages_closure late 3).2 last moved
  exact ⟨computed, again, le, sum, moved, least, by decide, formula⟩

end BootImage
