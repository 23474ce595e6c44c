import Mathlib.Tactic.SplitIfs

/-! Sizes, alignments and hwmem regions of gralloc buffers. A function of the source that returns
zero and sets `errno` returns that `errno` as its error. -/

namespace Codinalte.Gralloc

def enomem : Int := 12
def eacces : Int := 13
def einval : Int := 22
def erange : Int := 34
def enomsg : Int := 42

def intMax : Int := 2147483647

/-- The formats gralloc knows, and any other value. -/
inductive PixelFormat where
  | rgba8888 | rgbx8888 | rgb888 | rgb565 | bgra8888 | rgba5551 | rgba4444
  | ycbcr42xmbn | ycbcr422sp | ycrcb420sp | ycbcr420p | ycbcr422i | ycbcr420sp | yv12
  | other (value : Int)
deriving DecidableEq

/-- The bits of a usage value; a software bit is set when any of its mask is. -/
structure Usage where
  swRead : Bool
  swWrite : Bool
  hwTexture : Bool
  hwRender : Bool
  hw2D : Bool
  hwComposer : Bool
  hwFb : Bool
  isProtected : Bool
deriving DecidableEq

def Usage.software (usage : Usage) : Bool := usage.swRead || usage.swWrite

/-- `struct hwmem_region_us`. -/
structure HwmemRegion where
  offset : Int
  count : Int
  start : Int
  stop : Int
  size : Int
deriving DecidableEq

def unsignedInt (value : Int) : Int := value % 4294967296

def maxWidthHeight : Int := 8191

def getFormatBpp : PixelFormat → Except Int Int
  | .rgba8888 | .rgbx8888 | .bgra8888 => .ok 32
  | .rgb888 => .ok 24
  | .rgb565 | .rgba5551 | .rgba4444 | .ycbcr422sp | .ycbcr422i => .ok 16
  | .ycbcr42xmbn | .ycbcr420sp | .ycbcr420p | .ycrcb420sp | .yv12 => .ok 12
  | .other _ => .error einval

def isNonPlanarAndIndependentPixelFormat : PixelFormat → Bool
  | .rgba8888 | .rgbx8888 | .bgra8888 | .rgb888 | .rgb565 | .rgba5551 | .rgba4444 => true
  | _ => false

/-- Width and height alignment. -/
def getFormatWidthAndHeightAlignment (usage : Usage) : PixelFormat → Except Int (Int × Int)
  | .rgbx8888 | .rgba8888 | .bgra8888 =>
    .ok (if usage.hwTexture || usage.hwComposer || usage.hwRender then 2 else 1, 1)
  | .ycbcr422sp | .ycbcr422i => .ok (2, 1)
  | .ycbcr420sp | .ycbcr420p | .ycrcb420sp => .ok (2, 2)
  | .rgb565 | .rgba5551 | .rgba4444 =>
    .ok (if usage.hwTexture || usage.hwRender then 4 else 1, 1)
  | .rgb888 =>
    .ok (if usage.hwTexture || usage.hwComposer || usage.hwRender then 8
      else if usage.hw2D then 4 else 1, 1)
  | .ycbcr42xmbn => .ok (16, 16)
  | .yv12 => .ok (16, 2)
  | .other _ => .error einval

def alignUp (value alignment : Int) : Except Int Int :=
  let remainder := value.tmod alignment
  if value < 0 ∨ alignment < 0 then .error einval
  else
    let valueToAdd := if remainder > 0 then alignment - remainder else 0
    if value > intMax - valueToAdd then .error erange else .ok (value + valueToAdd)

/-- The number of bytes of a buffer of the actual width and height. -/
def bufBytes (actualWidth actualHeight bpp : Int) (format : PixelFormat) : Int :=
  if format = .yv12 then
    -- The result of this call is not checked.
    let uvStride := (alignUp (actualWidth / 2) 16).toOption.getD 0
    let meanStride := uvStride + actualWidth / 2
    meanStride * actualHeight * bpp / 8
  else actualWidth * actualHeight * bpp / 8

/-- Size, actual width and actual height. -/
def calcBufSize (width height : Int) (format : PixelFormat) (usage : Usage) :
    Except Int (Int × Int × Int) :=
  if width < 0 ∨ height < 0 then .error einval
  else do
    let bpp ← getFormatBpp format
    let alignment ← getFormatWidthAndHeightAlignment usage format
    let actualWidth ← alignUp width alignment.1
    let actualHeight ← alignUp height alignment.2
    if actualWidth > maxWidthHeight ∨ actualHeight > maxWidthHeight then .error einval
    else .ok (bufBytes actualWidth actualHeight bpp format, actualWidth, actualHeight)

def hwmemRegion (actualLeft actualTop actualWidth actualHeight bufWidth bpp : Int) : HwmemRegion :=
  let pitch := (bufWidth * bpp).tdiv 8
  { offset := unsignedInt (actualTop * pitch)
    count := unsignedInt actualHeight
    start := unsignedInt ((actualLeft * bpp).tdiv 8)
    stop := unsignedInt (((actualLeft + actualWidth) * bpp).tdiv 8)
    size := unsignedInt pitch }

/-- The rectangle, or the whole buffer where the pixels are not independent. -/
def setUpHwmemRegion (left top width height bufWidth bufHeight : Int) (bufFormat : PixelFormat) :
    Except Int HwmemRegion :=
  if left < 0 ∨ top < 0 ∨ width < 0 ∨ height < 0 ∨ left > intMax - width ∨
      left + width > bufWidth ∨ top > intMax - height ∨ top + height > bufHeight then .error einval
  else do
    let bpp ← getFormatBpp bufFormat
    if isNonPlanarAndIndependentPixelFormat bufFormat then
      .ok (hwmemRegion left top width height bufWidth bpp)
    else .ok (hwmemRegion 0 0 bufWidth bufHeight bufWidth bpp)

section Errors
variable {e : Int}

theorem bind_eq_error {α β : Type} {x : Except Int α} {f : α → Except Int β} :
    (x >>= f) = .error e ↔ x = .error e ∨ ∃ a, x = .ok a ∧ f a = .error e := by
  cases x with
  | error e' => simp [bind, Except.bind]
  | ok a => simp [bind, Except.bind]

theorem get_format_bpp_error {format : PixelFormat} (h : getFormatBpp format = .error e) :
    e = einval := by
  cases format with
  | other value => exact (Except.error.inj h).symm
  | _ => cases h

theorem format_alignment_error {usage : Usage} {format : PixelFormat}
    (h : getFormatWidthAndHeightAlignment usage format = .error e) : e = einval := by
  cases format with
  | other value => exact (Except.error.inj h).symm
  | _ => cases h

theorem align_up_error {value alignment : Int} (h : alignUp value alignment = .error e) :
    e = einval ∨ e = erange := by
  unfold alignUp at h
  dsimp only at h
  split_ifs at h
  · exact .inl (Except.error.inj h).symm
  · exact .inr (Except.error.inj h).symm
  · exact .inr (Except.error.inj h).symm

theorem calc_buf_size_error {width height : Int} {format : PixelFormat} {usage : Usage}
    (h : calcBufSize width height format usage = .error e) : e = einval ∨ e = erange := by
  unfold calcBufSize at h
  split_ifs at h
  · exact .inl (Except.error.inj h).symm
  rcases bind_eq_error.mp h with hbpp | ⟨bpp, -, h⟩
  · exact .inl (get_format_bpp_error hbpp)
  rcases bind_eq_error.mp h with halign | ⟨align, -, h⟩
  · exact .inl (format_alignment_error halign)
  rcases bind_eq_error.mp h with hwidth | ⟨actualWidth, -, h⟩
  · exact align_up_error hwidth
  rcases bind_eq_error.mp h with hheight | ⟨actualHeight, -, h⟩
  · exact align_up_error hheight
  split_ifs at h
  · exact .inl (Except.error.inj h).symm

theorem set_up_hwmem_region_error {left top width height bufWidth bufHeight : Int}
    {format : PixelFormat}
    (h : setUpHwmemRegion left top width height bufWidth bufHeight format = .error e) :
    e = einval := by
  unfold setUpHwmemRegion at h
  split at h
  · exact (Except.error.inj h).symm
  rcases bind_eq_error.mp h with hbpp | ⟨bpp, -, h⟩
  · exact get_format_bpp_error hbpp
  split_ifs at h

end Errors

theorem bind_eq_ok {α β : Type} {x : Except Int α} {f : α → Except Int β} {b : β} :
    (x >>= f) = .ok b ↔ ∃ a, x = .ok a ∧ f a = .ok b := by
  cases x with
  | error e => simp [bind, Except.bind]
  | ok a => simp [bind, Except.bind]

theorem align_up_ok {value alignment result : Int} (h : alignUp value alignment = .ok result)
    (ha : 0 < alignment) :
    0 ≤ value ∧ value ≤ result ∧ result < value + alignment ∧ result % alignment = 0 := by
  unfold alignUp at h
  dsimp only at h
  split at h
  · cases h
  next hneg =>
    have hvalue : 0 ≤ value := by omega
    rw [Int.tmod_eq_emod_of_nonneg hvalue] at h
    have hnonneg : 0 ≤ value % alignment := Int.emod_nonneg value (by omega)
    have hlt : value % alignment < alignment := Int.emod_lt_of_pos value ha
    have hresult : result =
        value + if value % alignment > 0 then alignment - value % alignment else 0 := by
      generalize (if value % alignment > 0 then alignment - value % alignment else 0) = added at h
      split_ifs at h
      exact (Except.ok.inj h).symm
    rw [hresult]
    split
    · refine ⟨hvalue, by omega, by omega, ?_⟩
      have hsum : value + (alignment - value % alignment) =
          alignment * (value / alignment + 1) := by
        have hdiv := Int.mul_ediv_add_emod value alignment
        rw [Int.mul_add, Int.mul_one]
        omega
      rw [hsum]
      exact Int.mul_emod_right alignment _
    · exact ⟨hvalue, by omega, by omega, by rw [Int.add_zero]; omega⟩

theorem format_alignment_pos {usage : Usage} {format : PixelFormat} {alignment : Int × Int}
    (h : getFormatWidthAndHeightAlignment usage format = .ok alignment) :
    0 < alignment.1 ∧ 0 < alignment.2 := by
  cases format with
  | rgba8888 | rgbx8888 | bgra8888 | rgb888 | rgb565 | rgba5551 | rgba4444 =>
    cases h
    dsimp only
    split_ifs <;> decide
  | other value => cases h
  | _ =>
    cases h
    decide

/-- The size and the two sides that an accepted buffer gets. -/
theorem calc_buf_size_ok {width height size actualWidth actualHeight : Int}
    {format : PixelFormat} {usage : Usage}
    (h : calcBufSize width height format usage = .ok (size, actualWidth, actualHeight)) :
    0 ≤ width ∧ 0 ≤ height ∧ actualWidth ≤ maxWidthHeight ∧ actualHeight ≤ maxWidthHeight ∧
      ∃ bpp alignment, getFormatBpp format = .ok bpp ∧
        getFormatWidthAndHeightAlignment usage format = .ok alignment ∧
        alignUp width alignment.1 = .ok actualWidth ∧
        alignUp height alignment.2 = .ok actualHeight := by
  unfold calcBufSize at h
  split at h
  · cases h
  next hneg =>
    obtain ⟨bpp, hbpp, h⟩ := bind_eq_ok.mp h
    obtain ⟨alignment, halignment, h⟩ := bind_eq_ok.mp h
    obtain ⟨aw, hwidth, h⟩ := bind_eq_ok.mp h
    obtain ⟨ah, hheight, h⟩ := bind_eq_ok.mp h
    split at h
    · cases h
    cases h
    exact ⟨by omega, by omega, by omega, by omega, bpp, alignment, hbpp, halignment, hwidth,
      hheight⟩

end Codinalte.Gralloc
