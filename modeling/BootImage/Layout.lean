import BootImage.Error
import BootImage.Header

/-!
Where everything lies in an image. Header, kernel, ramdisk and second-stage loader follow each
other, each from a page boundary on:

```text
| header | padding | kernel | padding | ramdisk | padding | second | padding |
0                  page               page                page             page
```

`Layout.ofHeader` places all four from the sizes in a header; the words are 64 bits wide and every
sum and product is checked.
-/

namespace BootImage

inductive Slice where
  | header
  | kernel
  | ramdisk
  | second
  deriving DecidableEq, Repr

namespace Slice

def all : List Slice := [.header, .kernel, .ramdisk, .second]

/-- The place of a slice in the order of the image. -/
def index : Slice → Nat
  | .header => 0
  | .kernel => 1
  | .ramdisk => 2
  | .second => 3

def name : Slice → String
  | .header => "header"
  | .kernel => "kernel"
  | .ramdisk => "ramdisk"
  | .second => "second"

end Slice

structure PerSlice (α : Type) where
  header : α
  kernel : α
  ramdisk : α
  second : α
  deriving DecidableEq, Repr

namespace PerSlice

variable {α β : Type}

def get (values : PerSlice α) : Slice → α
  | .header => values.header
  | .kernel => values.kernel
  | .ramdisk => values.ramdisk
  | .second => values.second

def ofFn (rule : Slice → α) : PerSlice α :=
  ⟨rule .header, rule .kernel, rule .ramdisk, rule .second⟩

@[simp] theorem get_ofFn (rule : Slice → α) (slice : Slice) : (ofFn rule).get slice = rule slice := by
  cases slice <;> rfl

def toList (values : PerSlice α) : List α :=
  Slice.all.map values.get

def map (rule : α → β) (values : PerSlice α) : PerSlice β :=
  ofFn fun slice => rule (values.get slice)

end PerSlice

/-- A page size that can lay out an image, as a 64-bit word. -/
def acceptPageSize (pageSize : UInt32) : Except Error UInt64 :=
  if pageSize = 0 ∨ maxPageSize < pageSize then .error (.unusablePageSize pageSize)
  else .ok pageSize.toUInt64

/-- A size filled up to whole pages. -/
def wholePages (size pageSize : UInt64) : Except Fault UInt64 := do
  let pages ← Checked.partsOf size pageSize
  Checked.mul64 pages pageSize

/-- The unpadded size of every slice. -/
def sizes (header : Header) : PerSlice UInt64 where
  header := UInt64.ofNat Header.size
  kernel := header.kernelSize.toUInt64
  ramdisk := header.ramdiskSize.toUInt64
  second := header.secondSize.toUInt64

/-- Where a slice can start when the one before it is known. -/
def nextOffset (pageSize offset size : UInt64) : Except Fault UInt64 := do
  let padded ← wholePages size pageSize
  Checked.add64 offset padded

/-- Where every slice starts. -/
def offsets (header : Header) : Except Stop (PerSlice UInt64) := do
  let pageSize ← (acceptPageSize header.pageSize).mapError .error
  let kernel ← (nextOffset pageSize 0 (sizes header).header).mapError .fault
  let ramdisk ← (nextOffset pageSize kernel (sizes header).kernel).mapError .fault
  let second ← (nextOffset pageSize ramdisk (sizes header).ramdisk).mapError .fault
  return { header := 0, kernel, ramdisk, second }

structure Extent where
  slice : Slice
  /-- The declared size, without padding. -/
  size : UInt64
  /-- The page boundary that it starts at. -/
  offset : UInt64
  deriving DecidableEq, Repr

namespace Extent

/-- Whether the slice is there at all: one of size zero is absent. -/
def isPresent (extent : Extent) : Bool :=
  extent.size ≠ 0

/-- The place behind the last declared byte. -/
def stop (extent : Extent) : Except Fault UInt64 :=
  Checked.add64 extent.offset extent.size

end Extent

/-- The page size of an image and the place of its four slices. -/
structure Layout where
  pageSize : UInt64
  extents : PerSlice Extent
  deriving DecidableEq

namespace Layout

/-- The layout that a header describes. -/
def ofHeader (header : Header) : Except Stop Layout := do
  let pageSize ← (acceptPageSize header.pageSize).mapError .error
  let starts ← offsets header
  return {
    pageSize
    extents := .ofFn fun slice => ⟨slice, (sizes header).get slice, starts.get slice⟩ }

def extent (layout : Layout) (slice : Slice) : Extent :=
  layout.extents.get slice

def sizes (layout : Layout) : PerSlice UInt64 :=
  layout.extents.map (·.size)

def offsets (layout : Layout) : PerSlice UInt64 :=
  layout.extents.map (·.offset)

/-- The end of the image, with the padding after its last slice. -/
def imageEnd (layout : Layout) : Except Fault UInt64 := do
  let last := layout.extent .second
  let padded ← wholePages last.size layout.pageSize
  Checked.add64 last.offset padded

end Layout

end BootImage
