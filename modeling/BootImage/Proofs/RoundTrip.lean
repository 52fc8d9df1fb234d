import BootImage.Proofs.Header.Decision
import BootImage.Proofs.Pack
import BootImage.Proofs.Unpack.Run

/-!
Packing and unpacking undo each other. What is packed is accepted with its header and unpacked into
its payloads, and an accepted image without anything in its padding is what is packed from its
slices.
-/

namespace BootImage

namespace Header

variable {header : Header} {kernel ramdisk second : Bytes}

theorem Packable.validate (packable : header.Packable kernel ramdisk second) :
    header.validate = .ok () := by
  have filled : ∀ {payload : Bytes} {size : UInt32}, payload ≠ [] →
      payload.length = size.toNat → size ≠ 0 := by
    rintro payload size some length rfl
    exact some (List.length_eq_zero_iff.mp length)
  have usable : ¬ (header.pageSize = 0 ∨ 0x100000 < header.pageSize) := by
    obtain ⟨positive, small⟩ := packable.page
    rintro (zero | large)
    · rw [zero] at positive
      exact absurd positive (Nat.lt_irrefl _)
    · have large : 0x100000 < header.pageSize.toNat := UInt32.lt_iff_toNat_lt.mp large
      omega
  rw [validate_eq, if_neg (filled packable.kernel_ne_nil packable.kernel_length),
    if_neg (filled packable.ramdisk_ne_nil packable.ramdisk_length), if_neg usable]

theorem Packable.parse (packable : header.Packable kernel ramdisk second) :
    Header.parse (Content.slice (header.pack kernel ramdisk second).toArray 0 size) =
      .ok header := by
  have record := packable.slice_pack .header
  have front : Content.slice (header.pack kernel ramdisk second).toArray 0 size = header.encode :=
    record
  rw [front]
  exact parse_encode packable.validate

theorem Packable.ofHeader (packable : header.Packable kernel ramdisk second) :
    ∃ layout, Layout.ofHeader header = .ok layout :=
  ⟨_, Layout.ofHeader_eq (acceptPageSize_eq_ok_iff.mpr
    ⟨packable.page.1, packable.page.2, rfl⟩)⟩

end Header

namespace Image

variable {image : Image} {data : Array UInt8} {plan : Plan} {directory : Path} {start : Machine}

/-- The file of a payload holds what is cut out of the image for it. -/
theorem wholeFile_extent (placed : Layout.ofHeader image.header = .ok image.layout) {slice : Slice}
    (payload : slice ≠ .header) :
    image.wholeFile plan data (image.layout.extent slice) = image.header.cutOut data slice := by
  obtain ⟨-, -, -, places⟩ := Header.layout_places placed
  obtain ⟨named, size, offset⟩ := places slice
  rw [wholeFile_of_payload image plan data (named.symm ▸ payload), size, offset, Header.cutOut]

theorem not_cutIn_extent (placed : Layout.ofHeader image.header = .ok image.layout)
    (whole : data.size = image.header.imageSize) (slice : Slice) :
    ¬ (image.layout.extent slice).CutIn data := by
  obtain ⟨-, -, -, places⟩ := Header.layout_places placed
  obtain ⟨-, size, offset⟩ := places slice
  have inside := image.header.sliceStart_add_le slice
  have longer : image.header.sliceSize slice ≤ image.header.paddedSize slice := le_roundUp _ _
  rintro ⟨-, cut⟩
  omega

theorem mem_present_iff (placed : Layout.ofHeader image.header = .ok image.layout)
    {extent : Extent} :
    extent ∈ image.present ↔
      ∃ slice, image.layout.extent slice = extent ∧ image.header.sliceSize slice ≠ 0 := by
  obtain ⟨-, -, -, places⟩ := Header.layout_places placed
  have filled : ∀ slice, (image.layout.extent slice).isPresent ↔
      image.header.sliceSize slice ≠ 0 := by
    intro slice
    obtain ⟨-, size, -⟩ := places slice
    rw [Extent.isPresent, decide_eq_true_iff, ← size, ne_eq, ne_eq, ← UInt64.toNat_inj]
    rfl
  have all : ∀ slice : Slice, slice ∈ Slice.all := by
    intro slice
    cases slice <;> decide
  rw [present, List.mem_filter, PerSlice.toList, List.mem_map]
  constructor
  · rintro ⟨⟨slice, -, rfl⟩, present⟩
    exact ⟨slice, rfl, (filled slice).mp present⟩
  · rintro ⟨slice, rfl, present⟩
    exact ⟨⟨slice, all slice, rfl⟩, (filled slice).mpr present⟩

/-- The slices that are there are some of all slices, in their order. -/
theorem present_sublist (placed : Layout.ofHeader image.header = .ok image.layout) :
    (image.present.map (·.slice)).Sublist Slice.all := by
  obtain ⟨-, -, -, places⟩ := Header.layout_places placed
  have names : image.layout.extents.toList.map (·.slice) = Slice.all := by
    rw [PerSlice.toList, List.map_map]
    have same : ((·.slice) ∘ image.layout.extents.get) = id := funext fun slice => (places slice).1
    rw [same, List.map_id]
  have kept := (List.filter_sublist (p := Extent.isPresent) (l := image.layout.extents.toList)).map
    (·.slice)
  rw [names] at kept
  exact kept

/-- Where all files can be made and the image is complete, every payload comes into its file, and
the files of slices that are not there stay as they are. -/
theorem perform_unpackInto_whole (placed : Layout.ofHeader image.header = .ok image.layout)
    (whole : data.size = image.header.imageSize) (reads : start.Reads data)
    (separates : start.Separates (Slice.all.map (plan.target directory)))
    (creatable : ∀ slice, image.header.sliceSize slice ≠ 0 →
      ∃ made, start.files.create (plan.target directory slice) = .ok made) :
    let run := start.perform (image.unpackInto directory plan)
    (∃ report, run.1 = .ok report) ∧
    (∀ slice made place, slice ≠ .header → image.header.sliceSize slice ≠ 0 →
      start.files.create (plan.target directory slice) = .ok (made, place) →
      ∃ mode, run.2.files.node? place =
        some (.file (image.header.cutOut data slice).toArray mode)) ∧
    ∀ place, (∀ slice made, image.header.sliceSize slice ≠ 0 →
      start.files.create (plan.target directory slice) ≠ .ok (made, place)) →
      run.2.files.node? place = start.files.node? place := by
  obtain ⟨-, -, -, places⟩ := Header.layout_places placed
  have paths := (present_sublist placed).map (plan.target directory)
  rw [List.map_map] at paths
  have present : ∀ extent ∈ image.present, image.header.sliceSize extent.slice ≠ 0 := by
    intro extent among
    obtain ⟨slice, rfl, present⟩ := (mem_present_iff placed).mp among
    rw [(places slice).1]
    exact present
  obtain ⟨answer, unpacked⟩ := perform_unpackInto_ok placed reads (separates.sublist paths)
    (fun extent among => creatable extent.slice (present extent among))
    (fun extent among => by
      obtain ⟨slice, rfl, -⟩ := (mem_present_iff placed).mp among
      exact not_cutIn_extent placed whole slice)
  refine ⟨⟨_, answer⟩, ?_, ?_⟩
  · intro slice made place payload there create
    have among : image.layout.extent slice ∈ image.present :=
      (mem_present_iff placed).mpr ⟨slice, rfl, there⟩
    have written := List.mem_map_of_mem (f := fun extent : Extent =>
      (extent.slice, image.wholeFile plan data extent)) among
    obtain ⟨made', place', mode, create', held, -⟩ := unpacked.holds _ _ written
    rw [(places slice).1, create] at create'
    cases create'
    rw [wholeFile_extent placed payload] at held
    exact ⟨mode, held⟩
  · intro place free
    refine unpacked.untouched place ?_
    intro entry among made create
    obtain ⟨extent, member, rfl⟩ := List.mem_map.mp among
    exact free extent.slice made (present extent member) create

end Image

/-- What is packed is accepted with its header and unpacks into its payloads, whatever the block
size, and a slice that is not there leaves its file as it is; an accepted image of the length that
its layout has and with nothing but zeros outside of its slices is what is packed from them. -/
theorem pack_unpack_round_trip :
    (∀ (header : Header) (kernel ramdisk second : Bytes),
      header.Packable kernel ramdisk second →
      ∀ opened : Machine, opened.Reads (header.pack kernel ramdisk second).toArray →
        ∃ layout stop, (opened.perform Image.accept).1 = .ok ⟨header, layout⟩ ∧
          (opened.perform Image.accept).2.Reads (header.pack kernel ramdisk second).toArray ∧
          layout.imageEnd = .ok stop ∧
          (header.pack kernel ramdisk second).length = stop.toNat ∧
          ∀ (plan : Plan) (directory : Path) (start : Machine),
            start.Reads (header.pack kernel ramdisk second).toArray →
            start.Separates (Slice.all.map (plan.target directory)) →
            (∀ slice, header.part kernel ramdisk second slice ≠ [] →
              ∃ made, start.files.create (plan.target directory slice) = .ok made) →
            let run := start.perform (Image.unpackInto ⟨header, layout⟩ directory plan)
            (∃ report, run.1 = .ok report) ∧
            ∀ slice made place, slice ≠ .header →
              start.files.create (plan.target directory slice) = .ok (made, place) →
              if header.part kernel ramdisk second slice = [] then
                run.2.files.node? place = start.files.node? place
              else ∃ mode, run.2.files.node? place =
                some (.file (header.part kernel ramdisk second slice).toArray mode)) ∧
    ∀ (opened : Machine) (data : Array UInt8) (image : Image) (stop : UInt64),
      opened.Reads data → (opened.perform Image.accept).1 = .ok image →
      image.layout.imageEnd = .ok stop → data.size = stop.toNat →
      let extent := image.layout.extent
      let extracted := fun slice =>
        Content.slice data (extent slice).offset.toNat (extent slice).size.toNat
      (∀ place (_ : place < data.size), (∀ slice, ¬ ((extent slice).offset.toNat ≤ place ∧
        place < (extent slice).offset.toNat + (extent slice).size.toNat)) → data[place] = 0) →
      image.header.Packable (extracted .kernel) (extracted .ramdisk) (extracted .second) ∧
        image.header.pack (extracted .kernel) (extracted .ramdisk) (extracted .second) =
          data.toList := by
  constructor
  · intro header kernel ramdisk second packable opened reads
    obtain ⟨layout, placed⟩ := packable.ofHeader
    obtain ⟨after, accepted, -, reads'⟩ := Image.perform_accept_ok reads packable.parse placed
    rw [accepted]
    have size := header.toNat_imageSize packable.page.1 packable.page.2
    refine ⟨layout, _, rfl, reads', Header.imageEnd_eq placed, ?_, ?_⟩
    · rw [packable.length_pack, size]
    · intro plan directory start readable separates creatable run
      have empty : ∀ slice, header.part kernel ramdisk second slice = [] ↔
          header.sliceSize slice = 0 := by
        intro slice
        rw [← packable.length_part, List.length_eq_zero_iff]
      obtain ⟨report, written, untouched⟩ := Image.perform_unpackInto_whole
        (show Layout.ofHeader (⟨header, layout⟩ : Image).header = .ok layout from placed)
        (by rw [List.size_toArray]; exact packable.length_pack) readable separates
        (fun slice there => creatable slice (mt (empty slice).mp there))
      refine ⟨report, ?_⟩
      intro slice made place payload create
      split
      · rename_i absent
        refine untouched place ?_
        intro other made' there create'
        -- Only the second-stage loader can be absent, and its path is the last of all.
        have last : slice = .second := by
          cases slice with
          | header => exact absurd rfl payload
          | kernel => exact absurd absent packable.kernel_ne_nil
          | ramdisk => exact absurd absent packable.ramdisk_ne_nil
          | second => rfl
        subst last
        have earlier : other ∈ [Slice.header, .kernel, .ramdisk] := by
          cases other with
          | header => decide
          | kernel => decide
          | ramdisk => decide
          | second => exact absurd ((empty .second).mp absent) there
        have different : ([Slice.header, .kernel, .ramdisk].map (plan.target directory) ++
            [plan.target directory .second]).Pairwise _ := separates.different
        exact (List.pairwise_append.mp different).2.2 _ (List.mem_map_of_mem earlier) _
          (List.mem_singleton.mpr rfl) _ _ _ create' create
      · rename_i there
        obtain ⟨mode, held⟩ := written slice made place payload (mt (empty slice).mpr there) create
        rw [Header.cutOut, packable.slice_pack] at held
        exact ⟨mode, held⟩
  · intro opened data image stop reads accepted ends whole extent extracted zeros
    have placed := Image.ofHeader_of_accept accepted
    obtain ⟨positive, small, -, places⟩ := Header.layout_places placed
    have cut : extracted = image.header.cutOut data := by
      funext slice
      obtain ⟨-, size, offset⟩ := places slice
      show Content.slice data _ _ = _
      rw [size, offset, Header.cutOut]
    have size : data.size = image.header.imageSize := by
      have same := ends.symm.trans (Header.imageEnd_eq placed)
      cases same
      rw [whole]
      exact image.header.toNat_imageSize positive small
    have length : ∀ slice, (image.header.cutOut data slice).length =
        image.header.sliceSize slice := by
      intro slice
      refine Header.length_cutOut ?_
      rw [size]
      exact image.header.sliceStart_add_le slice
    obtain ⟨-, -, record, kernel, ramdisk, -, -⟩ :=
      Header.parse_eq_ok_iff.mp (Image.parse_of_accept reads accepted)
    have front : image.header.cutOut data .header = image.header.encode := by
      rw [record]
      exact (Content.take_slice data 0 (Nat.le_refl 1632)).symm
    have filled : ∀ slice, image.header.sliceSize slice ≠ 0 →
        image.header.cutOut data slice ≠ [] := by
      intro slice there none
      rw [← length, none] at there
      exact there rfl
    rw [cut]
    constructor
    · have kernel_there : image.header.sliceSize .kernel ≠ 0 :=
        fun zero => kernel (UInt32.toNat_inj.mp zero)
      have ramdisk_there : image.header.sliceSize .ramdisk ≠ 0 :=
        fun zero => ramdisk (UInt32.toNat_inj.mp zero)
      exact ⟨⟨positive, small⟩, filled .kernel kernel_there, filled .ramdisk ramdisk_there,
        length .kernel, length .ramdisk, length .second⟩
    · refine Header.pack_cutOut positive front size ?_
      intro place inside outside
      have zero := zeros place inside fun slice among =>
        outside slice ((Header.in_extent_iff placed).mp among)
      rw [Array.getElem?_eq_getElem inside, zero]

/-- Pages of five bytes, so that there is padding behind the header and behind both payloads, and no
second-stage loader. What is unpacked from the image is packed to the image again. -/
theorem pack_unpack_round_trip_of_small_payloads :
    let field := fun width => (⟨List.replicate width 0, List.length_replicate⟩ : Field width)
    let header : Header :=
      ⟨1, 0, 2, 0, 0, 0, 0, 5, 0, ⟨0⟩, field 16, field 512, ⟨field 32⟩, field 1024⟩
    let plan : Plan := ⟨⟨[97], [98], [99], [100], [101]⟩, "", none⟩
    let data : Array UInt8 := (header.pack [7] [8, 9] []).toArray
    let start : Machine := { Machine.ofFiles ⟨.empty, [], []⟩ with origin := .memory data }
    data.size = 1645 ∧
    ∃ layout, (start.perform Image.accept).1 = .ok ⟨header, layout⟩ ∧
      (∃ report, (start.perform (Image.unpackInto ⟨header, layout⟩ [] plan)).1 = .ok report) ∧
      (∃ mode, (start.perform (Image.unpackInto ⟨header, layout⟩ [] plan)).2.files.node? [[99]] =
        some (.file #[8, 9] mode)) ∧
      let extracted := fun slice =>
        Content.slice data (layout.extent slice).offset.toNat (layout.extent slice).size.toNat
      header.pack (extracted .kernel) (extracted .ramdisk) (extracted .second) = data.toList := by
  intro field header plan data start
  have packable : header.Packable [7] [8, 9] [] :=
    ⟨⟨by decide, by decide⟩, nofun, nofun, rfl, rfl, rfl⟩
  have reads : start.Reads data := ⟨rfl, rfl, rfl⟩
  have creates : ∀ path ∈ ([[97], [98], [99], [100]] : List Path), ∃ tree mode,
      start.files.create path = .ok (tree, [path]) ∧
        tree.node? [path] = some (.file #[] mode) := by
    intro path among
    simp only [List.mem_cons, List.not_mem_nil, or_false] at among
    rcases among with rfl | rfl | rfl | rfl <;> exact ⟨_, _, rfl, rfl⟩
  have separates : start.Separates (Slice.all.map (plan.target [])) :=
    Machine.separates_of_create (fun _ => nofun) creates (by decide)
  obtain ⟨forward, backward⟩ := pack_unpack_round_trip
  obtain ⟨layout, stop, accepted, -, ends, length, unpacks⟩ :=
    forward header [7] [8, 9] [] packable start reads
  obtain ⟨report, written⟩ := unpacks plan [] start reads separates (by
    intro slice _
    obtain ⟨tree, _, made, -⟩ := creates (plan.target [] slice) (by cases slice <;> decide)
    exact ⟨_, made⟩)
  obtain ⟨tree, _, made, -⟩ := creates [99] (by decide)
  have placed := Image.ofHeader_of_accept accepted
  have padding : ∀ place (_ : place < data.size), (∀ slice,
      ¬ ((layout.extent slice).offset.toNat ≤ place ∧
        place < (layout.extent slice).offset.toNat + (layout.extent slice).size.toNat)) →
      data[place] = 0 := by
    intro place inside outside
    have zero := packable.getElem?_pack_outside inside fun slice among =>
      outside slice ((Header.in_extent_iff placed).mpr among)
    rw [← List.getElem?_toArray, Array.getElem?_eq_getElem inside] at zero
    exact Option.some.inj zero
  obtain ⟨-, packs⟩ := backward start data _ stop reads accepted ends length padding
  have whole : data.size = 1645 := packable.length_pack.trans (by decide)
  exact ⟨whole, layout, accepted, report, written .ramdisk tree [[99]] nofun made, packs⟩

end BootImage
