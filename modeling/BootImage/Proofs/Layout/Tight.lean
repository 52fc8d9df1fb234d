import Mathlib.Order.Bounds.Defs
import BootImage.Proofs.Layout

/-!
How closely the slices of an image are packed. `Tight` says of sizes and offsets that every slice
starts at the first page boundary behind the one before it, so that slices keep their order, never
overlap and leave less than a page between them.

* `layout_sound_and_tight`: a header either has a page size that lays out nothing, or offsets that
  are tight; a layout hands out the same sizes and offsets.
-/

namespace BootImage

/-! ### Least multiples -/

/-- The multiples of a unit that do not come before a place. -/
def multiplesFrom (unit place : Nat) : Set Nat :=
  {multiple | unit ∣ multiple ∧ place ≤ multiple}

/-- Filling up takes a size to the least multiple that holds it. -/
theorem isLeast_roundUp {unit : Nat} (positive : 0 < unit) (size : Nat) :
    IsLeast (multiplesFrom unit size) (roundUp unit size) := by
  have whole := Nat.dvd_of_mod_eq_zero (roundUp_mod positive size)
  constructor
  · exact ⟨whole, le_roundUp unit size⟩
  · rintro multiple ⟨⟨count, rfl⟩, behind⟩
    -- Two multiples that lie less than a unit apart are the same.
    obtain ⟨filled, same⟩ := whole
    have close : unit * filled < unit * (count + 1) := by
      have bounded := roundUp_lt positive size
      rw [same] at bounded
      rw [Nat.mul_succ]
      omega
    rw [same]
    exact Nat.mul_le_mul_left unit (Nat.le_of_lt_succ (Nat.lt_of_mul_lt_mul_left close))

/-- Whole units in front stay in front. -/
theorem roundUp_add {unit before : Nat} (whole : unit ∣ before) (size : Nat) :
    roundUp unit (before + size) = before + roundUp unit size := by
  have zero : before % unit = 0 := Nat.mod_eq_zero_of_dvd whole
  rw [roundUp, roundUp, Nat.add_mod, zero, Nat.zero_add, Nat.mod_mod, Nat.add_assoc]

/-! ### Values by slice -/

/-- The value of a slice stands at its index. -/
theorem PerSlice.getElem?_toList {α : Type} (values : PerSlice α) (slice : Slice) :
    values.toList[slice.index]? = some (values.get slice) := by
  cases slice <;> rfl

theorem PerSlice.ofFn_get {α : Type} (values : PerSlice α) : ofFn values.get = values :=
  rfl

theorem PerSlice.map_ofFn {α β : Type} (rule : α → β) (values : Slice → α) :
    (ofFn values).map rule = ofFn fun slice => rule (values slice) :=
  rfl

/-! ### Page sizes -/

/-- A page size is refused when it is zero or above 2^20, and for no other reason. -/
theorem acceptPageSize_eq (pageSize : UInt32) :
    acceptPageSize pageSize =
      if pageSize = 0 ∨ 2 ^ 20 < pageSize.toNat then .error (.unusablePageSize pageSize)
      else .ok pageSize.toUInt64 := by
  have large : maxPageSize < pageSize ↔ 2 ^ 20 < pageSize.toNat := UInt32.lt_iff_toNat_lt
  simp only [acceptPageSize, large]

/-- Of a page size that is not accepted there are no offsets. -/
theorem offsets_error {header : Header} {reason : Error}
    (refused : acceptPageSize header.pageSize = .error reason) :
    offsets header = .error (.error reason) := by
  rw [offsets, refused]
  rfl

/-! ### Tight offsets -/

/-- Offsets that leave no page unused, and the end of the image behind the last slice. -/
structure Tight (pageSize : Nat) (sizes starts : PerSlice UInt64) (stop : UInt64) : Prop where
  /-- The header comes first. -/
  first : starts.header = 0
  aligned : ∀ slice, pageSize ∣ (starts.get slice).toNat
  /-- A slice starts at the first page boundary behind the one before it. -/
  next : ∀ slice after : Slice, after.index = slice.index + 1 →
    IsLeast (multiplesFrom pageSize ((starts.get slice).toNat + (sizes.get slice).toNat))
      (starts.get after).toNat
  /-- Less than a page lies between a slice and the next one. -/
  padding : ∀ slice after : Slice, after.index = slice.index + 1 →
    (starts.get after).toNat < (starts.get slice).toNat + (sizes.get slice).toNat + pageSize
  /-- The image ends at the first page boundary behind the last slice. -/
  last : IsLeast (multiplesFrom pageSize (starts.second.toNat + sizes.second.toNat)) stop.toNat
  bounded : stop.toNat < 2 ^ 34

namespace Header

theorem sliceStart_next (header : Header) {slice after : Slice}
    (follows : after.index = slice.index + 1) :
    header.sliceStart after = header.sliceStart slice + header.paddedSize slice := by
  cases slice with
  | header =>
      cases after with
      | kernel => exact header.sliceStart_kernel
      | _ => contradiction
  | kernel =>
      cases after with
      | ramdisk => exact header.sliceStart_ramdisk
      | _ => contradiction
  | ramdisk =>
      cases after with
      | second => exact header.sliceStart_second
      | _ => contradiction
  | second => cases after <;> contradiction

/-- A slice with its padding ends at the first page boundary behind its last byte. -/
theorem isLeast_padded {header : Header} (positive : 0 < header.pageSize.toNat) (slice : Slice) :
    IsLeast (multiplesFrom header.pageSize.toNat (header.sliceStart slice + header.sliceSize slice))
      (header.sliceStart slice + header.paddedSize slice) := by
  have aligned := Nat.dvd_of_mod_eq_zero (header.sliceStart_mod positive slice)
  rw [paddedSize, ← roundUp_add aligned]
  exact isLeast_roundUp positive _

/-- The places of the slices are tight. -/
theorem tight_places {header : Header} (positive : 0 < header.pageSize.toNat)
    (small : header.pageSize.toNat ≤ 2 ^ 20) :
    Tight header.pageSize.toNat (sizes header)
      (.ofFn fun slice => UInt64.ofNat (header.sliceStart slice))
      (UInt64.ofNat header.imageSize) := by
  have held := header.toNat_sliceStart positive small
  have stop := header.toNat_imageSize positive small
  refine ⟨rfl, ?_, ?_, ?_, ?_, ?_⟩
  · intro slice
    rw [PerSlice.get_ofFn, held]
    exact Nat.dvd_of_mod_eq_zero (header.sliceStart_mod positive slice)
  · intro slice after follows
    rw [PerSlice.get_ofFn, PerSlice.get_ofFn, held, held, header.sliceStart_next follows]
    exact header.isLeast_padded positive slice
  · intro slice after follows
    rw [PerSlice.get_ofFn, PerSlice.get_ofFn, held, held, header.sliceStart_next follows]
    have bounded := roundUp_lt positive (header.sliceSize slice)
    unfold paddedSize sliceSize at *
    omega
  · have second := header.isLeast_padded positive .second
    rw [← header.imageSize_eq, ← held .second] at second
    rw [stop]
    exact second
  · rw [stop]
    exact header.imageSize_lt positive small

/-- The end of a slice is a word. -/
theorem stop_extent {header : Header} (positive : 0 < header.pageSize.toNat)
    (small : header.pageSize.toNat ≤ 2 ^ 20) (slice : Slice) :
    ∃ place, (Extent.mk slice ((sizes header).get slice)
        (UInt64.ofNat (header.sliceStart slice))).stop = .ok place ∧
      place.toNat = header.sliceStart slice + header.sliceSize slice := by
  have held := header.toNat_sliceStart positive small slice
  have inside := header.imageSize_lt positive small
  have before := header.sliceStart_add_le slice
  have filled : header.sliceSize slice ≤ header.paddedSize slice := le_roundUp _ _
  have fits : header.sliceStart slice + header.sliceSize slice < UInt64.size := by
    unfold UInt64.size
    omega
  refine ⟨UInt64.ofNat (header.sliceStart slice + header.sliceSize slice), ?_, ?_⟩
  · rw [Extent.stop, Checked.add64_eq (by rw [held]; exact fits), held]
    rfl
  · exact UInt64.toNat_ofNat_of_lt' fits

end Header

/-- **Layouts are sound and tight.** The sizes are the one of the record and those that the header
declares for its payloads. A page size of zero or above 2^20 is named as the error, of the offsets as
of the layout. For every other header there are both, no sum or product of them overflows, the
offsets are tight, and the layout holds the sizes and offsets of the header, each under the index of
its slice. -/
theorem layout_sound_and_tight (header : Header) :
    sizes header = ⟨1632, header.kernelSize.toUInt64, header.ramdiskSize.toUInt64,
      header.secondSize.toUInt64⟩ ∧
    if header.pageSize = 0 ∨ 2 ^ 20 < header.pageSize.toNat then
      offsets header = .error (.error (.unusablePageSize header.pageSize)) ∧
      Layout.ofHeader header = .error (.error (.unusablePageSize header.pageSize))
    else
      ∃ starts layout stop,
        offsets header = .ok starts ∧ Layout.ofHeader header = .ok layout ∧
        layout.imageEnd = .ok stop ∧
        Tight header.pageSize.toNat (sizes header) starts stop ∧
        layout.sizes = sizes header ∧ layout.offsets = starts ∧
        ∀ slice,
          (layout.extent slice).slice = slice ∧
          layout.extents.toList[slice.index]? = some (layout.extent slice) ∧
          (sizes header).toList[slice.index]? = some (layout.extent slice).size ∧
          starts.toList[slice.index]? = some (layout.extent slice).offset ∧
          ∃ place, (layout.extent slice).stop = .ok place ∧
            place.toNat = (starts.get slice).toNat + ((sizes header).get slice).toNat := by
  have decision := acceptPageSize_eq header.pageSize
  refine ⟨rfl, ?_⟩
  split
  · rename_i unusable
    rw [if_pos unusable] at decision
    exact ⟨offsets_error decision, Layout.ofHeader_error decision⟩
  · rename_i usable
    rw [if_neg usable] at decision
    obtain ⟨positive, small, -⟩ := acceptPageSize_eq_ok_iff.mp decision
    have placed := Layout.ofHeader_eq decision
    refine ⟨_, _, _, offsets_eq decision, placed, Header.imageEnd_eq placed,
      header.tight_places positive small, ?_, ?_, ?_⟩
    · rw [Layout.sizes, PerSlice.map_ofFn, PerSlice.ofFn_get]
    · rw [Layout.offsets, PerSlice.map_ofFn]
    · intro slice
      rw [PerSlice.getElem?_toList, PerSlice.getElem?_toList, PerSlice.getElem?_toList,
        Layout.extent, PerSlice.get_ofFn, PerSlice.get_ofFn, header.toNat_sliceStart positive small]
      exact ⟨rfl, rfl, rfl, rfl, header.stop_extent positive small slice⟩

end BootImage
