import Mathlib.Algebra.Ring.Nat
import BootImage.Layout

/-!
Where slices start, in numbers of any size. A slice starts behind the filled up slices before it;
`offsets_eq` and `Header.imageEnd_eq` say that the 64-bit words of a layout hold these places,
so that no sum or product of a layout overflows.
-/

namespace BootImage

/-- Renaming failures leaves a value. -/
theorem mapError_ok {ε δ α : Type} (rename : ε → δ) (value : α) :
    (Except.ok value : Except ε α).mapError rename = .ok value :=
  rfl

/-- A size filled up to a multiple of a unit. -/
def roundUp (unit size : Nat) : Nat :=
  size + (unit - size % unit) % unit

theorem le_roundUp (unit size : Nat) : size ≤ roundUp unit size :=
  Nat.le_add_right _ _

theorem roundUp_lt {unit : Nat} (positive : 0 < unit) (size : Nat) :
    roundUp unit size < size + unit :=
  Nat.add_lt_add_left (Nat.mod_lt _ positive) size

theorem roundUp_of_mod_eq_zero {unit size : Nat} (whole : size % unit = 0) :
    roundUp unit size = size := by
  rw [roundUp, whole, Nat.sub_zero, Nat.mod_self, Nat.add_zero]

theorem roundUp_mod {unit : Nat} (positive : 0 < unit) (size : Nat) :
    roundUp unit size % unit = 0 := by
  have rest := Nat.mod_lt size positive
  by_cases whole : size % unit = 0
  · rw [roundUp_of_mod_eq_zero whole, whole]
  · have missing : (unit - size % unit) % unit = unit - size % unit :=
      Nat.mod_eq_of_lt (by omega)
    rw [roundUp, Nat.add_mod, missing, missing, Nat.add_sub_cancel' (Nat.le_of_lt rest),
      Nat.mod_self]

/-- The whole units that hold a size. -/
theorem roundUp_eq_mul {unit : Nat} (positive : 0 < unit) (size : Nat) :
    roundUp unit size = (if size % unit = 0 then size / unit else size / unit + 1) * unit := by
  have parts := Nat.div_add_mod' size unit
  have rest := Nat.mod_lt size positive
  by_cases whole : size % unit = 0
  · rw [roundUp_of_mod_eq_zero whole, if_pos whole]
    omega
  · have missing : (unit - size % unit) % unit = unit - size % unit :=
      Nat.mod_eq_of_lt (by omega)
    rw [roundUp, missing, if_neg whole, Nat.add_mul, Nat.one_mul]
    omega

theorem Checked.partsOf_eq {size page : UInt64} (positive : 0 < page.toNat) :
    ∃ parts, Checked.partsOf size page = .ok parts ∧
      parts.toNat * page.toNat = roundUp page.toNat size.toNat := by
  have nonzero : page ≠ 0 := by
    rintro rfl
    exact absurd positive (Nat.lt_irrefl _)
  have same : size % page = 0 ↔ size.toNat % page.toNat = 0 := by
    rw [← UInt64.toNat_inj, UInt64.toNat_mod]
    rfl
  have counted := roundUp_eq_mul positive size.toNat
  rw [partsOf, if_neg nonzero]
  by_cases whole : size.toNat % page.toNat = 0
  · rw [if_pos (same.mpr whole)]
    rw [if_pos whole] at counted
    exact ⟨_, rfl, by rw [UInt64.toNat_div, counted]⟩
  · rw [if_neg (mt same.mp whole)]
    rw [if_neg whole] at counted
    -- A page that leaves a rest has more than one byte, so there are fewer pages than bytes.
    have some : 0 < size.toNat := by
      rcases Nat.eq_zero_or_pos size.toNat with zero | some
      · simp [zero] at whole
      · exact some
    have several : 1 < page.toNat := by
      rcases Nat.lt_or_eq_of_le positive with several | one
      · exact several
      · simp [← one, Nat.mod_one] at whole
    have fewer := Nat.div_lt_self some several
    have bounded := size.toNat_lt
    have one : (1 : UInt64).toNat = 1 := rfl
    have kept : (size.toNat / page.toNat + 1) % 2 ^ 64 = size.toNat / page.toNat + 1 :=
      Nat.mod_eq_of_lt (by omega)
    exact ⟨_, rfl, by rw [UInt64.toNat_add, UInt64.toNat_div, one, kept, counted]⟩

/-- Only the product can be too large for a word. -/
theorem wholePages_eq_fits {size page : UInt64} (positive : 0 < page.toNat) :
    wholePages size page =
      (Checked.fits UInt64.size .multiplyOverflow (roundUp page.toNat size.toNat)).map
        UInt64.ofNat := by
  obtain ⟨parts, counted, product⟩ := @Checked.partsOf_eq size page positive
  rw [wholePages, counted]
  show Checked.mul64 parts page = _
  rw [Checked.mul64, product]

/-- Filling up stays within the words when the size and one page do. -/
theorem wholePages_eq {size page : UInt64} (positive : 0 < page.toNat)
    (fits : size.toNat + page.toNat ≤ UInt64.size) :
    wholePages size page = .ok (UInt64.ofNat (roundUp page.toNat size.toNat)) := by
  have bounded := roundUp_lt positive size.toNat
  have inside : roundUp page.toNat size.toNat < UInt64.size := Nat.lt_of_lt_of_le bounded fits
  rw [wholePages_eq_fits positive, Checked.fits, if_pos inside]
  rfl

theorem Checked.add64_eq {left right : UInt64} (fits : left.toNat + right.toNat < UInt64.size) :
    Checked.add64 left right = .ok (UInt64.ofNat (left.toNat + right.toNat)) := by
  rw [Checked.add64, Checked.fits, if_pos fits]
  rfl

/-- A place behind a filled up slice. -/
theorem nextOffset_eq {page size : UInt64} {offset : Nat} (positive : 0 < page.toNat)
    (fits : offset + size.toNat + page.toNat ≤ UInt64.size) :
    nextOffset page (UInt64.ofNat offset) size =
      .ok (UInt64.ofNat (offset + roundUp page.toNat size.toNat)) := by
  have bounded := roundUp_lt positive size.toNat
  have start : (UInt64.ofNat offset).toNat = offset := UInt64.toNat_ofNat_of_lt' (by omega)
  have filled : (UInt64.ofNat (roundUp page.toNat size.toNat)).toNat =
      roundUp page.toNat size.toNat := UInt64.toNat_ofNat_of_lt' (by omega)
  rw [nextOffset, wholePages_eq positive (by omega)]
  show Checked.add64 _ _ = _
  rw [Checked.add64_eq (by omega), start, filled]

/-- A page size that is accepted is one of 1 to 2^20. -/
theorem acceptPageSize_eq_ok_iff {pageSize : UInt32} {page : UInt64} :
    acceptPageSize pageSize = .ok page ↔
      0 < pageSize.toNat ∧ pageSize.toNat ≤ 2 ^ 20 ∧ pageSize.toUInt64 = page := by
  have zero : pageSize = 0 ↔ pageSize.toNat = 0 := by
    rw [← UInt32.toNat_inj]
    rfl
  have large : maxPageSize < pageSize ↔ 2 ^ 20 < pageSize.toNat := UInt32.lt_iff_toNat_lt
  simp only [acceptPageSize, zero, large]
  split
  · constructor
    · intro impossible
      cases impossible
    · rintro ⟨positive, small, -⟩
      omega
  · constructor
    · intro accepted
      cases accepted
      exact ⟨by omega, by omega, rfl⟩
    · rintro ⟨-, -, rfl⟩
      rfl

namespace Header

/-- The declared size of a slice; the header itself has the size of its record. -/
def sliceSize (header : Header) (slice : Slice) : Nat :=
  ((sizes header).get slice).toNat

def paddedSize (header : Header) (slice : Slice) : Nat :=
  roundUp header.pageSize.toNat (header.sliceSize slice)

def sliceStart (header : Header) (slice : Slice) : Nat :=
  ((Slice.all.take slice.index).map header.paddedSize).sum

def imageSize (header : Header) : Nat :=
  (Slice.all.map header.paddedSize).sum

theorem sliceSize_lt (header : Header) (slice : Slice) : header.sliceSize slice < 2 ^ 32 := by
  cases slice with
  | header => exact (by decide : (UInt64.ofNat Header.size).toNat < 2 ^ 32)
  | kernel => exact header.kernelSize.toNat_lt
  | ramdisk => exact header.ramdiskSize.toNat_lt
  | second => exact header.secondSize.toNat_lt

theorem sliceStart_header (header : Header) : header.sliceStart .header = 0 := rfl

theorem sliceStart_kernel (header : Header) :
    header.sliceStart .kernel = header.sliceStart .header + header.paddedSize .header := by
  simp [sliceStart, Slice.all, Slice.index]

theorem sliceStart_ramdisk (header : Header) :
    header.sliceStart .ramdisk = header.sliceStart .kernel + header.paddedSize .kernel := by
  simp [sliceStart, Slice.all, Slice.index]

theorem sliceStart_second (header : Header) :
    header.sliceStart .second = header.sliceStart .ramdisk + header.paddedSize .ramdisk := by
  simp [sliceStart, Slice.all, Slice.index, Nat.add_assoc]

theorem imageSize_eq (header : Header) :
    header.imageSize = header.sliceStart .second + header.paddedSize .second := by
  simp [imageSize, sliceStart, Slice.all, Slice.index, Nat.add_assoc]

/-- Every slice starts at a page boundary. -/
theorem sliceStart_mod {header : Header} (positive : 0 < header.pageSize.toNat) (slice : Slice) :
    header.sliceStart slice % header.pageSize.toNat = 0 := by
  have whole : ∀ slices : List Slice,
      (slices.map header.paddedSize).sum % header.pageSize.toNat = 0 := by
    intro slices
    induction slices with
    | nil => rfl
    | cons first rest ih =>
        rw [List.map_cons, List.sum_cons, Nat.add_mod, ih, paddedSize, roundUp_mod positive]
        rfl
  exact whole _

theorem paddedSize_lt {header : Header} (positive : 0 < header.pageSize.toNat)
    (small : header.pageSize.toNat ≤ 2 ^ 20) (slice : Slice) :
    header.paddedSize slice < 2 ^ 32 + 2 ^ 20 := by
  have bounded := roundUp_lt positive (header.sliceSize slice)
  have size := header.sliceSize_lt slice
  unfold paddedSize
  omega

/-- An image ends far within the words. -/
theorem imageSize_lt {header : Header} (positive : 0 < header.pageSize.toNat)
    (small : header.pageSize.toNat ≤ 2 ^ 20) : header.imageSize < 2 ^ 34 := by
  have record : header.sliceSize .header = 1632 := rfl
  have first := roundUp_lt positive (header.sliceSize .header)
  have kernel := header.paddedSize_lt positive small .kernel
  have ramdisk := header.paddedSize_lt positive small .ramdisk
  have second := header.paddedSize_lt positive small .second
  rw [imageSize_eq, sliceStart_second, sliceStart_ramdisk, sliceStart_kernel, sliceStart_header]
  unfold paddedSize at *
  omega

/-- A slice and its padding end within the image. -/
theorem sliceStart_add_le (header : Header) (slice : Slice) :
    header.sliceStart slice + header.paddedSize slice ≤ header.imageSize := by
  have kernel := header.sliceStart_kernel
  have ramdisk := header.sliceStart_ramdisk
  have second := header.sliceStart_second
  rw [imageSize_eq]
  cases slice <;> omega

/-- A word holds the size of the image. -/
theorem toNat_imageSize {header : Header} (positive : 0 < header.pageSize.toNat)
    (small : header.pageSize.toNat ≤ 2 ^ 20) :
    (UInt64.ofNat header.imageSize).toNat = header.imageSize := by
  have inside := header.imageSize_lt positive small
  exact UInt64.toNat_ofNat_of_lt' (by unfold UInt64.size; omega)

/-- The words of the offsets hold the places. -/
theorem toNat_sliceStart {header : Header} (positive : 0 < header.pageSize.toNat)
    (small : header.pageSize.toNat ≤ 2 ^ 20) (slice : Slice) :
    (UInt64.ofNat (header.sliceStart slice)).toNat = header.sliceStart slice := by
  have inside := header.imageSize_lt positive small
  have before := header.sliceStart_add_le slice
  exact UInt64.toNat_ofNat_of_lt' (by unfold UInt64.size; omega)

end Header

/-- The words of the offsets hold the places. -/
theorem offsets_eq {header : Header} {page : UInt64}
    (accepted : acceptPageSize header.pageSize = .ok page) :
    offsets header = .ok (.ofFn fun slice => UInt64.ofNat (header.sliceStart slice)) := by
  obtain ⟨positive, small, rfl⟩ := acceptPageSize_eq_ok_iff.mp accepted
  have inside := header.imageSize_lt positive small
  have next : ∀ slice, nextOffset header.pageSize.toUInt64
      (UInt64.ofNat (header.sliceStart slice)) ((sizes header).get slice) =
        .ok (UInt64.ofNat (header.sliceStart slice + header.paddedSize slice)) := by
    intro slice
    refine nextOffset_eq positive ?_
    have size := header.sliceSize_lt slice
    have before := header.sliceStart_add_le slice
    unfold Header.sliceSize at size
    rw [UInt32.toNat_toUInt64, UInt64.size]
    omega
  have kernel := next .header
  have ramdisk := next .kernel
  have second := next .ramdisk
  rw [← Header.sliceStart_kernel] at kernel
  rw [← Header.sliceStart_ramdisk] at ramdisk
  rw [← Header.sliceStart_second] at second
  have first : (0 : UInt64) = UInt64.ofNat (header.sliceStart .header) := rfl
  simp only [PerSlice.get] at kernel ramdisk second
  simp only [offsets, accepted, first, mapError_ok, bind, Except.bind, kernel, ramdisk, second]
  rfl

/-- Of a page size that is not accepted there is no layout. -/
theorem Layout.ofHeader_error {header : Header} {reason : Error}
    (refused : acceptPageSize header.pageSize = .error reason) :
    Layout.ofHeader header = .error (.error reason) := by
  rw [Layout.ofHeader, refused]
  rfl

theorem Layout.ofHeader_eq {header : Header} {page : UInt64}
    (accepted : acceptPageSize header.pageSize = .ok page) :
    Layout.ofHeader header = .ok {
      pageSize := page
      extents := .ofFn fun slice =>
        ⟨slice, (BootImage.sizes header).get slice, UInt64.ofNat (header.sliceStart slice)⟩ } := by
  rw [Layout.ofHeader, offsets_eq accepted, accepted]
  simp only [mapError_ok, bind, Except.bind, pure, Except.pure, PerSlice.get_ofFn]

namespace Header

variable {header : Header} {layout : Layout}

/-- The page size and the extents of a layout, as places in the image. -/
theorem layout_places (placed : Layout.ofHeader header = .ok layout) :
    0 < header.pageSize.toNat ∧ header.pageSize.toNat ≤ 2 ^ 20 ∧
      layout.pageSize.toNat = header.pageSize.toNat ∧
      ∀ slice, (layout.extent slice).slice = slice ∧
        (layout.extent slice).size.toNat = header.sliceSize slice ∧
        (layout.extent slice).offset.toNat = header.sliceStart slice := by
  cases accepted : acceptPageSize header.pageSize with
  | error reason =>
      rw [Layout.ofHeader_error accepted] at placed
      cases placed
  | ok page =>
      rw [Layout.ofHeader_eq accepted] at placed
      cases placed
      obtain ⟨positive, small, rfl⟩ := acceptPageSize_eq_ok_iff.mp accepted
      refine ⟨positive, small, UInt32.toNat_toUInt64 _, ?_⟩
      intro slice
      rw [Layout.extent, PerSlice.get_ofFn]
      exact ⟨rfl, rfl, toNat_sliceStart positive small slice⟩

/-- A place lies in an extent of the layout exactly when it lies in that slice. -/
theorem in_extent_iff (placed : Layout.ofHeader header = .ok layout) {slice : Slice} {place : Nat} :
    (layout.extent slice).offset.toNat ≤ place ∧
        place < (layout.extent slice).offset.toNat + (layout.extent slice).size.toNat ↔
      header.sliceStart slice ≤ place ∧
        place < header.sliceStart slice + header.sliceSize slice := by
  obtain ⟨-, -, -, places⟩ := layout_places placed
  obtain ⟨-, size, offset⟩ := places slice
  rw [size, offset]

/-- The end of the image is the size of everything in it. -/
theorem imageEnd_eq (placed : Layout.ofHeader header = .ok layout) :
    layout.imageEnd = .ok (UInt64.ofNat header.imageSize) := by
  obtain ⟨positive, small, page, places⟩ := layout_places placed
  obtain ⟨-, size, offset⟩ := places .second
  have inside := imageSize_lt positive small
  have bounded := header.sliceSize_lt .second
  have last := header.imageSize_eq
  have padded : roundUp layout.pageSize.toNat (layout.extent .second).size.toNat =
      header.paddedSize .second := by rw [page, size, paddedSize]
  have kept : (UInt64.ofNat (header.paddedSize .second)).toNat = header.paddedSize .second :=
    UInt64.toNat_ofNat_of_lt' (by unfold UInt64.size; omega)
  rw [Layout.imageEnd, wholePages_eq (by omega) (by unfold UInt64.size; omega), padded]
  show Checked.add64 _ _ = _
  rw [Checked.add64_eq (by unfold UInt64.size; omega), kept, offset, last]

end Header

end BootImage
