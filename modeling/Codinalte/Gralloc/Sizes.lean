import Codinalte.Gralloc.Buffers
import Codinalte.Gralloc.Framebuffer

/-! The three computations of the size of a buffer: the one it is allocated with, the one that is
reported, and the one that is synchronised for a lock. -/

namespace Codinalte.Gralloc

def getBufSize (width height : Int) (format : PixelFormat) : Except Int Int := do
  let bpp ← getFormatBpp format
  .ok ((width * height * bpp).tdiv 8)

/-- Wrapped handles have a stored size. -/
def grallocGetBufSize (size width height : Int) (format : PixelFormat) : Int :=
  if size ≠ -1 then size
  else
    match getBufSize width height format with
    | .error e => -e
    | .ok bufSize => bufSize

/-- The fields of a handle of the framebuffer that are not set are zero. -/
def FbHandle.bufSize (h : FbHandle) : Int := grallocGetBufSize h.size 0 0 (.other 0)

def BufHandle.bufSize (h : BufHandle) : Int :=
  grallocGetBufSize h.size h.width h.height h.format

/-- A byte of one of the blocks of a region. -/
def HwmemRegion.Covers (region : HwmemRegion) (byte : Int) : Prop :=
  ∃ block, 0 ≤ block ∧ block < region.count ∧
    region.offset + block * region.size + region.start ≤ byte ∧
    byte < region.offset + block * region.size + region.stop

/-- Blocks of pixels, each with a number of bytes, in rows from an offset on. -/
structure Plane where
  offset : Int
  stride : Int
  blockWidth : Int
  blockHeight : Int
  bytes : Int

/-- The planes of a format; in one format a block is a macroblock. -/
def planes (width height : Int) : PixelFormat → List Plane
  | .rgba8888 | .rgbx8888 | .bgra8888 => [⟨0, width * 4, 1, 1, 4⟩]
  | .rgb888 => [⟨0, width * 3, 1, 1, 3⟩]
  | .rgb565 | .rgba5551 | .rgba4444 => [⟨0, width * 2, 1, 1, 2⟩]
  | .ycbcr422i => [⟨0, width * 2, 2, 1, 4⟩]
  | .ycbcr422sp => [⟨0, width, 1, 1, 1⟩, ⟨width * height, width, 2, 1, 2⟩]
  | .ycbcr420sp | .ycrcb420sp => [⟨0, width, 1, 1, 1⟩, ⟨width * height, width, 2, 2, 2⟩]
  | .ycbcr420p =>
    [⟨0, width, 1, 1, 1⟩, ⟨width * height, width / 2, 2, 2, 1⟩,
      ⟨width * height + width / 2 * (height / 2), width / 2, 2, 2, 1⟩]
  | .yv12 =>
    let stride := (width / 2 + 15) / 16 * 16
    [⟨0, width, 1, 1, 1⟩, ⟨width * height, stride, 2, 2, 1⟩,
      ⟨width * height + stride * (height / 2), stride, 2, 2, 1⟩]
  | .ycbcr42xmbn =>
    [⟨0, width * 16, 16, 16, 256⟩, ⟨width * height, width * 8, 16, 16, 128⟩]
  | .other _ => []

/-- The first byte of what a plane holds of a pixel. -/
def Plane.byteOf (plane : Plane) (x y : Int) : Int :=
  plane.offset + y / plane.blockHeight * plane.stride + x / plane.blockWidth * plane.bytes

def FitsInt (value : Int) : Prop := -2147483648 ≤ value ∧ value ≤ intMax

section Intermediates

/-- The numbers that are computed for an alignment that is accepted. -/
def alignUpInts (value alignment : Int) : List Int :=
  let remainder := value.tmod alignment
  let valueToAdd := if remainder > 0 then alignment - remainder else 0
  [remainder, valueToAdd, intMax - valueToAdd, value + valueToAdd]

def bufBytesInts (actualWidth actualHeight bpp : Int) (format : PixelFormat) : List Int :=
  if format = .yv12 then
    let uvStride := (alignUp (actualWidth / 2) 16).toOption.getD 0
    let meanStride := uvStride + actualWidth / 2
    alignUpInts (actualWidth / 2) 16 ++
      [meanStride, meanStride * actualHeight, meanStride * actualHeight * bpp]
  else [actualWidth * actualHeight, actualWidth * actualHeight * bpp]

/-- The numbers that `calc_buf_size` computes for a buffer. -/
def calcBufSizeInts (width height : Int) (format : PixelFormat) (usage : Usage)
    (actualWidth actualHeight bpp : Int) : List Int :=
  match getFormatWidthAndHeightAlignment usage format with
  | .error _ => []
  | .ok alignment =>
    alignUpInts width alignment.1 ++ alignUpInts height alignment.2 ++
      bufBytesInts actualWidth actualHeight bpp format

def getBufSizeInts (width height bpp : Int) : List Int := [width * height, width * height * bpp]

def hwmemRegionInts (actualLeft actualTop actualWidth bufWidth bpp : Int) : List Int :=
  [bufWidth * bpp, actualTop * (bufWidth * bpp).tdiv 8, actualLeft * bpp, actualLeft + actualWidth,
    (actualLeft + actualWidth) * bpp]

/-- The numbers that `set_up_hwmem_region` computes for a rectangle that is accepted. -/
def setUpHwmemRegionInts (left top width height bufWidth bpp : Int) (bufFormat : PixelFormat) :
    List Int :=
  [intMax - width, left + width, intMax - height, top + height] ++
    if isNonPlanarAndIndependentPixelFormat bufFormat then
      hwmemRegionInts left top width bufWidth bpp
    else hwmemRegionInts 0 0 bufWidth bufWidth bpp

end Intermediates

end Codinalte.Gralloc
