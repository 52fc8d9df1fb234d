import BootImage.Header.Codec
import BootImage.Proofs.Layout
import BootImage.Proofs.Machine.Reading

/-!
A packed image, slice by slice. Packing fills up what came so far, a layout adds up filled sizes:
`Header.Packable.slice_pack` says that both put every part at the same place,
`Header.Packable.getElem?_pack_outside` that there are only zeros elsewhere, and
`Header.pack_cutOut` that an image with nothing but zeros outside of its slices is the packed one.
-/

namespace BootImage

theorem Content.getElem?_slice (data : Array UInt8) (start : Nat) {count index : Nat}
    (inside : index < count) : (Content.slice data start count)[index]? = data[start + index]? := by
  rw [Content.slice_eq, List.getElem?_take_of_lt inside, List.getElem?_drop, Array.getElem?_toList]

namespace Bytes

theorem length_padTo (unit : Nat) (bytes : Bytes) :
    (padTo unit bytes).length = roundUp unit bytes.length := by
  rw [padTo, List.length_append, List.length_replicate, roundUp]

/-- What is filled in is zeros. -/
theorem getElem?_padTo {unit index : Nat} {bytes : Bytes} (behind : bytes.length ≤ index)
    (inside : index < (padTo unit bytes).length) : (padTo unit bytes)[index]? = some 0 := by
  rw [padTo, List.length_append, List.length_replicate] at inside
  rw [padTo, List.getElem?_append_right behind, List.getElem?_replicate_of_lt (by omega)]

/-- Whole units in front take no part in the filling. -/
theorem padTo_append {unit : Nat} {front : Bytes} (whole : front.length % unit = 0)
    (part : Bytes) : padTo unit (front ++ part) = front ++ padTo unit part := by
  rw [padTo, padTo, List.length_append, Nat.add_mod, whole, Nat.zero_add, Nat.mod_mod,
    List.append_assoc]

/-- Filling up after every part is filling up every part. -/
theorem foldl_padTo {unit : Nat} (positive : 0 < unit) {image : Bytes}
    (whole : image.length % unit = 0) (parts : List Bytes) :
    parts.foldl (fun image part => padTo unit (image ++ part)) image =
      image ++ parts.flatMap (padTo unit) := by
  induction parts generalizing image with
  | nil => rw [List.foldl_nil, List.flatMap_nil, List.append_nil]
  | cons part rest ih =>
      rw [List.foldl_cons, ih (length_padTo_mod positive _), padTo_append whole,
        List.flatMap_cons, List.append_assoc]

end Bytes

/-- The slices before a slice, the slice, and those behind it. -/
theorem Slice.all_eq (slice : Slice) :
    Slice.all = Slice.all.take slice.index ++ slice :: Slice.all.drop (slice.index + 1) := by
  cases slice <;> rfl

namespace Header

variable {header : Header} {kernel ramdisk second : Bytes}

/-- What is packed for a slice: the record for the header, and else a payload. -/
def part (header : Header) (kernel ramdisk second : Bytes) : Slice → Bytes
  | .header => header.encode
  | .kernel => kernel
  | .ramdisk => ramdisk
  | .second => second

/-- A header with payloads of the sizes that it declares, so that they make an image. -/
structure Packable (header : Header) (kernel ramdisk second : Bytes) : Prop where
  page : 0 < header.pageSize.toNat ∧ header.pageSize.toNat ≤ 2 ^ 20
  kernel_ne_nil : kernel ≠ []
  ramdisk_ne_nil : ramdisk ≠ []
  kernel_length : kernel.length = header.kernelSize.toNat
  ramdisk_length : ramdisk.length = header.ramdiskSize.toNat
  second_length : second.length = header.secondSize.toNat

theorem Packable.length_part (packable : header.Packable kernel ramdisk second) (slice : Slice) :
    (header.part kernel ramdisk second slice).length = header.sliceSize slice := by
  cases slice with
  | header => exact header.length_encode
  | kernel => exact packable.kernel_length
  | ramdisk => exact packable.ramdisk_length
  | second => exact packable.second_length

/-- Packing puts the filled up parts one behind the other. -/
theorem pack_eq_flatMap (positive : 0 < header.pageSize.toNat) (kernel ramdisk second : Bytes) :
    header.pack kernel ramdisk second = Slice.all.flatMap fun slice =>
      Bytes.padTo header.pageSize.toNat (header.part kernel ramdisk second slice) := by
  have whole := Bytes.length_padTo_mod positive header.encode
  exact Bytes.foldl_padTo positive whole [kernel, ramdisk, second]

theorem Packable.length_padTo_part (packable : header.Packable kernel ramdisk second)
    (slice : Slice) :
    (Bytes.padTo header.pageSize.toNat (header.part kernel ramdisk second slice)).length =
      header.paddedSize slice := by
  rw [Bytes.length_padTo, packable.length_part, paddedSize]

theorem Packable.length_pack (packable : header.Packable kernel ramdisk second) :
    (header.pack kernel ramdisk second).length = header.imageSize := by
  rw [pack_eq_flatMap packable.page.1, List.length_flatMap]
  simp only [packable.length_padTo_part]
  rfl

/-- Where the layout has a slice, there its part is, filled up. -/
theorem Packable.exists_drop_pack (packable : header.Packable kernel ramdisk second)
    (slice : Slice) :
    ∃ rest, (header.pack kernel ramdisk second).drop (header.sliceStart slice) =
      Bytes.padTo header.pageSize.toNat (header.part kernel ramdisk second slice) ++ rest := by
  have front : ((Slice.all.take slice.index).flatMap fun slice =>
      Bytes.padTo header.pageSize.toNat (header.part kernel ramdisk second slice)).length =
        header.sliceStart slice := by
    rw [List.length_flatMap]
    simp only [packable.length_padTo_part]
    rfl
  rw [pack_eq_flatMap packable.page.1, Slice.all_eq slice, List.flatMap_append, List.flatMap_cons,
    ← front, List.drop_left]
  exact ⟨_, rfl⟩

/-- Every part lies where the layout has it. -/
theorem Packable.slice_pack (packable : header.Packable kernel ramdisk second) (slice : Slice) :
    Content.slice (header.pack kernel ramdisk second).toArray (header.sliceStart slice)
      (header.sliceSize slice) = header.part kernel ramdisk second slice := by
  obtain ⟨rest, behind⟩ := packable.exists_drop_pack slice
  rw [Content.slice_eq, behind, ← packable.length_part slice, Bytes.padTo, List.append_assoc,
    List.take_left]

/-- A place of an image lies in a slice or in the padding behind it. -/
theorem exists_slice_of_lt (header : Header) {place : Nat} (inside : place < header.imageSize) :
    ∃ slice, header.sliceStart slice ≤ place ∧
      place < header.sliceStart slice + header.paddedSize slice := by
  have kernel := header.sliceStart_kernel
  have ramdisk := header.sliceStart_ramdisk
  have second := header.sliceStart_second
  rw [imageSize_eq] at inside
  by_cases last : header.sliceStart .second ≤ place
  · exact ⟨.second, last, inside⟩
  · by_cases third : header.sliceStart .ramdisk ≤ place
    · exact ⟨.ramdisk, third, by omega⟩
    · by_cases next : header.sliceStart .kernel ≤ place
      · exact ⟨.kernel, next, by omega⟩
      · exact ⟨.header, by rw [sliceStart_header]; omega, by omega⟩

/-- What is packed holds nothing but zeros outside of its slices. -/
theorem Packable.getElem?_pack_outside (packable : header.Packable kernel ramdisk second)
    {place : Nat} (inside : place < (header.pack kernel ramdisk second).length)
    (outside : ∀ slice, ¬ (header.sliceStart slice ≤ place ∧
      place < header.sliceStart slice + header.sliceSize slice)) :
    (header.pack kernel ramdisk second)[place]? = some 0 := by
  rw [packable.length_pack] at inside
  obtain ⟨slice, behind, before⟩ := header.exists_slice_of_lt inside
  obtain ⟨index, rfl⟩ := Nat.exists_eq_add_of_le behind
  obtain ⟨rest, dropped⟩ := packable.exists_drop_pack slice
  have padding : header.sliceSize slice ≤ index :=
    Nat.le_of_not_lt fun short => outside slice ⟨behind, Nat.add_lt_add_left short _⟩
  rw [← packable.length_part slice] at padding
  have filled : index <
      (Bytes.padTo header.pageSize.toNat (header.part kernel ramdisk second slice)).length := by
    rw [packable.length_padTo_part]
    exact Nat.lt_of_add_lt_add_left before
  rw [← List.getElem?_drop, dropped, List.getElem?_append_left filled,
    Bytes.getElem?_padTo padding filled]

/-- The parts of an image, cut out of its bytes. -/
def cutOut (header : Header) (data : Array UInt8) (slice : Slice) : Bytes :=
  Content.slice data (header.sliceStart slice) (header.sliceSize slice)

/-- Bytes that reach over a slice and its padding have the whole slice. -/
theorem length_cutOut {data : Array UInt8} {slice : Slice}
    (enough : header.sliceStart slice + header.paddedSize slice ≤ data.size) :
    (header.cutOut data slice).length = header.sliceSize slice := by
  have longer : header.sliceSize slice ≤ header.paddedSize slice := le_roundUp _ _
  rw [cutOut, Content.length_slice]
  omega

/-- The padding behind a slice belongs to no slice. -/
theorem padding_outside (header : Header) {slice : Slice} {place : Nat}
    (behind : header.sliceStart slice + header.sliceSize slice ≤ place)
    (before : place < header.sliceStart slice + header.paddedSize slice) (other : Slice) :
    ¬ (header.sliceStart other ≤ place ∧
      place < header.sliceStart other + header.sliceSize other) := by
  have longer : ∀ slice, header.sliceSize slice ≤ header.paddedSize slice :=
    fun slice => le_roundUp _ _
  have kernel := header.sliceStart_kernel
  have ramdisk := header.sliceStart_ramdisk
  have second := header.sliceStart_second
  have first := longer .header
  have next := longer .kernel
  have third := longer .ramdisk
  have last := longer .second
  cases slice <;> cases other <;> omega

/-- A slice with zeros behind it is the slice filled up. -/
theorem padTo_cutOut {data : Array UInt8} {slice : Slice}
    (enough : header.sliceStart slice + header.paddedSize slice ≤ data.size)
    (zeros : ∀ place, header.sliceStart slice + header.sliceSize slice ≤ place →
      place < header.sliceStart slice + header.paddedSize slice → data[place]? = some 0) :
    Bytes.padTo header.pageSize.toNat (header.cutOut data slice) =
      Content.slice data (header.sliceStart slice) (header.paddedSize slice) := by
  have longer : header.sliceSize slice ≤ header.paddedSize slice := le_roundUp _ _
  have size := header.length_cutOut enough
  have missing : (header.pageSize.toNat - header.sliceSize slice % header.pageSize.toNat) %
      header.pageSize.toNat = header.paddedSize slice - header.sliceSize slice := by
    rw [paddedSize, roundUp, Nat.add_sub_cancel_left]
  have padding : Content.slice data (header.sliceStart slice + header.sliceSize slice)
      (header.paddedSize slice - header.sliceSize slice) =
        List.replicate (header.paddedSize slice - header.sliceSize slice) 0 := by
    rw [List.eq_replicate_iff]
    constructor
    · rw [Content.length_slice]
      omega
    · intro byte member
      obtain ⟨index, among, rfl⟩ := List.mem_iff_getElem.mp member
      have inside := among
      rw [Content.length_slice] at inside
      have zero := zeros (header.sliceStart slice + header.sliceSize slice + index) (by omega)
        (by omega)
      rw [← Content.getElem?_slice data _ (Nat.lt_of_lt_of_le inside (Nat.min_le_left _ _)),
        List.getElem?_eq_getElem among] at zero
      exact Option.some.inj zero
  have parts := Content.slice_append data (header.sliceStart slice) (header.sliceSize slice)
    (header.paddedSize slice - header.sliceSize slice)
  rw [Nat.add_sub_cancel' longer] at parts
  rw [Bytes.padTo, size, missing, ← parts, padding]
  rfl

/-- An image with nothing but zeros outside of its slices is what is packed from them. -/
theorem pack_cutOut {data : Array UInt8} (positive : 0 < header.pageSize.toNat)
    (record : header.cutOut data .header = header.encode) (whole : data.size = header.imageSize)
    (zeros : ∀ place, place < data.size → (∀ slice, ¬ (header.sliceStart slice ≤ place ∧
      place < header.sliceStart slice + header.sliceSize slice)) → data[place]? = some 0) :
    header.pack (header.cutOut data .kernel) (header.cutOut data .ramdisk)
      (header.cutOut data .second) = data.toList := by
  have filled : ∀ slice, Bytes.padTo header.pageSize.toNat (header.cutOut data slice) =
      Content.slice data (header.sliceStart slice) (header.paddedSize slice) := by
    intro slice
    have enough : header.sliceStart slice + header.paddedSize slice ≤ data.size := by
      rw [whole]
      exact header.sliceStart_add_le slice
    refine padTo_cutOut enough ?_
    intro place behind before
    exact zeros place (by omega) (header.padding_outside behind before)
  have all : Content.slice data 0 header.imageSize = data.toList := by
    rw [Content.slice_eq, List.drop_zero, ← whole, ← Array.length_toList, List.take_length]
  have parts : header.part (header.cutOut data .kernel) (header.cutOut data .ramdisk)
      (header.cutOut data .second) = header.cutOut data := by
    funext slice
    cases slice with
    | header => exact record.symm
    | kernel => rfl
    | ramdisk => rfl
    | second => rfl
  rw [pack_eq_flatMap positive, parts]
  simp only [filled, Slice.all, List.flatMap_cons, List.flatMap_nil, List.append_nil]
  rw [← all, imageSize_eq, sliceStart_second, sliceStart_ramdisk, sliceStart_kernel,
    sliceStart_header, ← List.append_assoc, Content.slice_append, ← List.append_assoc,
    Nat.add_assoc 0, Content.slice_append, Nat.add_assoc 0, Content.slice_append, Nat.zero_add]

end Header

end BootImage
