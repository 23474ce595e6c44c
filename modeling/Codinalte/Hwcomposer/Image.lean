import Codinalte.Gralloc.BufferRuns
import Mathlib.Tactic.Ring
import Mathlib.Algebra.Ring.Int.Parity

/-! The image hwcomposer describes to compdev for a gralloc buffer, and how its pitch and its size
compare with the layout gralloc gave the buffer. -/

namespace Codinalte.Hwcomposer
open Codinalte.Gralloc

inductive CompdevFmt where
  | rgb565 | rgb888 | rgbx8888 | rgba8888 | yuv422 | ycbcr42xmbn
  | yuv420sp | yvu420sp | yuv420p | yvu420p | yv12
deriving DecidableEq

/-- `struct compdev_img` as far as `convert_image` fills it in. -/
structure CompdevImg where
  fmt : CompdevFmt
  hwmemBufName : Int
  offset : Int
  len : Int
  width : Int
  height : Int
  pitch : Int
deriving DecidableEq

/-- An `unsigned int` stored in an `int`. -/
def signedInt (value : Int) : Int := Int.bmod value 4294967296

def unsignedShort (value : Int) : Int := value % 65536

def getStride (width : Int) (format : PixelFormat) : Int :=
  let width := unsignedInt width
  let stride := match format with
    | .rgb565 | .ycbcr422i => signedInt (width * 2)
    | .rgb888 => signedInt (width * 3)
    | .rgba8888 | .rgbx8888 | .bgra8888 => signedInt (width * 4)
    | .ycbcr42xmbn =>
      signedInt (if width % 16 ≠ 0 then width + (16 - width % 16) else width)
    -- The formats with several planes, and the ones it logs as incorrect.
    | _ => signedInt width
  if stride.tmod 8 ≠ 0 then stride + (8 - stride.tmod 8) else stride

def toCompdevFormat : PixelFormat → CompdevFmt
  | .rgba8888 => .rgba8888
  | .rgbx8888 => .rgbx8888
  | .rgb888 => .rgb888
  | .rgb565 => .rgb565
  | .ycbcr422i => .yuv422
  | .ycbcr42xmbn => .ycbcr42xmbn
  | .ycrcb420sp => .yvu420sp
  | .ycbcr420sp => .yuv420sp
  | .yv12 => .yv12
  | .ycbcr420p => .yuv420p
  -- Logged, and zero, which is the first format.
  | _ => .rgb565

def getBufSize (width height : Int) (format : PixelFormat) : Except Int Int := do
  let bpp ← getFormatBpp format
  .ok ((width * height * bpp).tdiv 8)

/-- A negated `errno` where the format is not known. -/
def grallocGetBufSize (buf : BufHandle) : Int :=
  if buf.size ≠ -1 then buf.size
  else
    match getBufSize buf.width buf.height buf.format with
    | .error e => -e
    | .ok size => size

def grallocGetBufType (buf : BufHandle) : Int :=
  match buf.type with
  | .hwmemContiguous => 0
  | .hwmemScattered => 1

/-- `allocHnd` is what `HWMEM_EXPORT_IOC` answers for the buffer. -/
def convertImage (bufHandle : Option BufHandle) (allocHnd : Int) : Except Int CompdevImg :=
  match bufHandle with
  | none => .error (-einval)
  | some buf =>
    if grallocGetBufType buf ≠ 0 then .error (-einval)
    else if allocHnd < 0 then .error (-einval)
    else if grallocGetBufSize buf < 0 then .error (-einval)
    else if buf.offset < 0 then .error (-einval)
    else .ok
      { fmt := toCompdevFormat buf.format
        hwmemBufName := allocHnd
        offset := unsignedInt buf.offset
        len := unsignedInt (grallocGetBufSize buf)
        width := unsignedShort buf.width
        height := unsignedShort buf.height
        pitch := unsignedShort (getStride buf.width buf.format) }

/-- The bytes of the chroma planes below a first plane of this pitch and height. -/
def chromaBytes (fmt : CompdevFmt) (pitch height : Int) : Int :=
  match fmt with
  | .ycbcr42xmbn | .yuv420sp | .yvu420sp => pitch * (height / 2)
  | .yuv420p | .yvu420p => 2 * (pitch / 2 * (height / 2))
  | .yv12 => 2 * ((pitch / 2 + 15) / 16 * 16 * (height / 2))
  | _ => 0

def CompdevImg.bytes (img : CompdevImg) : Int :=
  img.pitch * img.height + chromaBytes img.fmt img.pitch img.height

/-- The bits of a pixel in a row of the first plane. -/
def rowBpp (format : PixelFormat) (bpp : Int) : Int :=
  match format with
  | .ycbcr42xmbn | .ycbcr422sp | .ycrcb420sp | .ycbcr420p | .ycbcr420sp | .yv12 => 8
  | _ => bpp

/-- Every image described for the buffer has its row pitch and stays within its length. -/
def ImagesFit (buf : BufHandle) (bpp : Int) : Prop :=
  ∀ allocHnd img, convertImage (some buf) allocHnd = .ok img →
    img.pitch = buf.width * bpp / 8 ∧ img.bytes ≤ img.len

/-- The widths whose rows are a multiple of eight bytes once they are aligned, with a format that
`getStride` knows; the chroma rows of YV12 are to be half a row long as well. -/
def strideAgrees (width height : Int) (usage : Usage) : PixelFormat → Bool
  | .rgba8888 | .rgbx8888 | .bgra8888 =>
    usage.hwTexture || usage.hwComposer || usage.hwRender || width % 2 == 0
  | .rgb888 =>
    usage.hwTexture || usage.hwComposer || usage.hwRender || width % 8 == 0 ||
      (usage.hw2D && decide (4 < width % 8))
  | .rgb565 => usage.hwTexture || usage.hwRender || width % 4 == 0
  | .rgba5551 | .rgba4444 =>
    width == 0 || width == 4 || ((usage.hwTexture || usage.hwRender) && decide (width < 4))
  | .ycbcr422i => width % 4 == 0 || width % 4 == 3
  | .ycbcr422sp | .ycrcb420sp | .ycbcr420p | .ycbcr420sp => width % 8 == 0 || width % 8 == 7
  | .ycbcr42xmbn => true
  | .yv12 => width % 32 == 0 || decide (16 < width % 32) || height == 0
  | .other _ => false

/-- The same where the bits of all planes are counted to a row of the first one. -/
def totalAgrees (width height : Int) (usage : Usage) : PixelFormat → Bool
  | .ycbcr422sp => width == 0 || width == 3 || width == 4
  | .ycbcr42xmbn | .ycrcb420sp | .ycbcr420p | .ycbcr420sp | .yv12 => width == 0
  | format => strideAgrees width height usage format

section Stride
variable {width height : Int}

theorem signed_int_eq {value : Int} (hnonneg : 0 ≤ value) (hlt : value < 2147483648) :
    signedInt value = value := by
  unfold signedInt
  exact Int.bmod_eq_of_le (by omega) (by omega)

/-- The bytes of a row as `getStride` counts them, before it aligns them. -/
def strideBytes (width : Int) : PixelFormat → Int
  | .rgb565 | .ycbcr422i => width * 2
  | .rgb888 => width * 3
  | .rgba8888 | .rgbx8888 | .bgra8888 => width * 4
  | .ycbcr42xmbn => if width % 16 ≠ 0 then width + (16 - width % 16) else width
  | _ => width

theorem stride_bytes_bounds (hnonneg : 0 ≤ width) (hle : width ≤ maxWidthHeight)
    (format : PixelFormat) :
    0 ≤ strideBytes width format ∧ strideBytes width format ≤ 4 * maxWidthHeight := by
  unfold maxWidthHeight at hle ⊢
  cases format with
  | ycbcr42xmbn =>
    dsimp only [strideBytes]
    split_ifs <;> omega
  | _ =>
    dsimp only [strideBytes]
    omega

/-- The stride is the first multiple of eight from the bytes of a row on. -/
theorem get_stride_spec (hnonneg : 0 ≤ width) (hle : width ≤ maxWidthHeight)
    (format : PixelFormat) :
    getStride width format % 8 = 0 ∧ strideBytes width format ≤ getStride width format ∧
      getStride width format < strideBytes width format + 8 := by
  have hbounds := stride_bytes_bounds hnonneg hle format
  have hwidth : unsignedInt width = width := by
    unfold unsignedInt maxWidthHeight at *
    omega
  have hbytes : signedInt (strideBytes width format) = strideBytes width format := by
    unfold maxWidthHeight at hbounds
    exact signed_int_eq hbounds.1 (by omega)
  have hstride : getStride width format =
      let stride := signedInt (strideBytes (unsignedInt width) format)
      if stride.tmod 8 ≠ 0 then stride + (8 - stride.tmod 8) else stride := by
    cases format <;> rfl
  rw [hstride, hwidth, hbytes]
  dsimp only
  rw [Int.tmod_eq_emod_of_nonneg hbounds.1]
  split_ifs <;> omega

theorem bpp_bounds {format : PixelFormat} {bpp : Int} (h : getFormatBpp format = .ok bpp) :
    0 < bpp ∧ bpp ≤ 32 := by
  cases format <;> cases h <;> decide

/-- The length gralloc reports for a buffer it has laid out itself. -/
theorem gralloc_get_buf_size_new {format : PixelFormat} {bpp : Int} {usage : Usage}
    (hbpp : getFormatBpp format = .ok bpp) (hwidth : 0 ≤ width) (hheight : 0 ≤ height) :
    grallocGetBufSize (newBufHandle width height format usage) = width * height * bpp / 8 := by
  have hsize : getBufSize width height format = .ok (width * height * bpp / 8) := by
    have hnonneg : 0 ≤ width * height * bpp :=
      Int.mul_nonneg (Int.mul_nonneg hwidth hheight) (bpp_bounds hbpp).1.le
    rw [← Int.tdiv_eq_ediv_of_nonneg hnonneg]
    unfold getBufSize
    rw [hbpp]
    rfl
  unfold grallocGetBufSize
  rw [if_neg (fun hne => hne rfl)]
  simp only [newBufHandle, hsize]

theorem size_bounds {bpp : Int} (hwidth : 0 ≤ width) (hwle : width ≤ maxWidthHeight)
    (hheight : 0 ≤ height) (hhle : height ≤ maxWidthHeight) (hbpp : 0 < bpp) (hble : bpp ≤ 32) :
    0 ≤ width * height * bpp / 8 ∧ width * height * bpp / 8 < 2147483648 := by
  have harea : width * height ≤ maxWidthHeight * maxWidthHeight :=
    Int.mul_le_mul hwle hhle hheight (by decide)
  have harea0 : 0 ≤ width * height := Int.mul_nonneg hwidth hheight
  have hbits : width * height * bpp ≤ maxWidthHeight * maxWidthHeight * 32 :=
    Int.mul_le_mul harea hble hbpp.le (by decide)
  have hbits0 : 0 ≤ width * height * bpp := Int.mul_nonneg harea0 hbpp.le
  unfold maxWidthHeight at hbits
  omega

end Stride

section Fit
variable {width height bpp rowBits : Int} {format : PixelFormat} {usage : Usage}

/-- The image of a contiguous buffer; no field loses bits. -/
theorem convert_image_new (hbpp : getFormatBpp format = .ok bpp)
    (hwidth : 0 ≤ width) (hwle : width ≤ maxWidthHeight)
    (hheight : 0 ≤ height) (hhle : height ≤ maxWidthHeight) {allocHnd : Int}
    {img : CompdevImg} :
    convertImage (some (newBufHandle width height format usage)) allocHnd = .ok img ↔
      (usage.hw2D = true ∨ usage.isProtected = true) ∧ 0 ≤ allocHnd ∧
        img = ⟨toCompdevFormat format, allocHnd, 0, width * height * bpp / 8, width, height,
          getStride width format⟩ := by
  have hsize := @gralloc_get_buf_size_new width height format bpp usage hbpp hwidth hheight
  have hbounds := size_bounds hwidth hwle hheight hhle (bpp_bounds hbpp).1 (bpp_bounds hbpp).2
  have hbytes := stride_bytes_bounds hwidth hwle format
  obtain ⟨-, hstride, hstride'⟩ := get_stride_spec hwidth hwle format
  have hlen : unsignedInt (width * height * bpp / 8) = width * height * bpp / 8 :=
    Int.emod_eq_of_lt hbounds.1 (by omega)
  have hshort : ∀ value : Int, 0 ≤ value → value < 65536 → unsignedShort value = value :=
    fun value => Int.emod_eq_of_lt
  have hpitch : unsignedShort (getStride width format) = getStride width format := by
    unfold maxWidthHeight at hbytes
    exact hshort _ (by omega) (by omega)
  unfold maxWidthHeight at hwle hhle
  have himage : convertImage (some (newBufHandle width height format usage)) allocHnd =
      if usage.isProtected = false ∧ usage.hw2D = false then .error (-einval)
      else if allocHnd < 0 then .error (-einval)
      else .ok ⟨toCompdevFormat format, allocHnd, 0, width * height * bpp / 8, width, height,
        getStride width format⟩ := by
    have htype : grallocGetBufType (newBufHandle width height format usage) =
        if usage.isProtected = false ∧ usage.hw2D = false then 1 else 0 := by
      unfold newBufHandle grallocGetBufType
      dsimp only
      split_ifs <;> rfl
    have hoffset : unsignedInt 0 = 0 := rfl
    unfold convertImage
    dsimp only
    rw [htype, hsize]
    simp only [newBufHandle]
    rw [hlen, hoffset, hshort width hwidth (by omega), hshort height hheight (by omega), hpitch]
    by_cases hscattered : usage.isProtected = false ∧ usage.hw2D = false
    · rw [if_pos hscattered, if_pos hscattered, if_pos (by decide)]
    · rw [if_neg hscattered, if_neg hscattered, if_neg (by decide), if_neg (not_lt.mpr hbounds.1)]
      rfl
  rw [himage]
  have hcontiguous : ¬ (usage.isProtected = false ∧ usage.hw2D = false) ↔
      usage.hw2D = true ∨ usage.isProtected = true := by
    cases usage.hw2D <;> cases usage.isProtected <;> decide
  by_cases hscattered : usage.isProtected = false ∧ usage.hw2D = false
  · rw [if_pos hscattered, ← hcontiguous]
    simp [hscattered]
  · rw [if_neg hscattered, ← hcontiguous]
    by_cases hneg : allocHnd < 0
    · rw [if_pos hneg]
      constructor
      · intro h
        cases h
      · intro h
        omega
    · rw [if_neg hneg]
      constructor
      · intro h
        exact ⟨hscattered, by omega, (Except.ok.inj h).symm⟩
      · intro h
        rw [h.2.2]

theorem images_fit_iff (hbpp : getFormatBpp format = .ok bpp)
    (hwidth : 0 ≤ width) (hwle : width ≤ maxWidthHeight)
    (hheight : 0 ≤ height) (hhle : height ≤ maxWidthHeight) :
    ImagesFit (newBufHandle width height format usage) rowBits ↔
      (usage.hw2D = false ∧ usage.isProtected = false) ∨
        getStride width format = width * rowBits / 8 ∧
          getStride width format * height +
            chromaBytes (toCompdevFormat format) (getStride width format) height ≤
              width * height * bpp / 8 := by
  have himage := @convert_image_new width height bpp format usage hbpp hwidth hwle hheight hhle
  constructor
  · intro hfit
    by_cases hcontiguous : usage.hw2D = true ∨ usage.isProtected = true
    · exact .inr (hfit 0 _ (himage.mpr ⟨hcontiguous, le_refl 0, rfl⟩))
    · exact .inl (by simpa using hcontiguous)
  · rintro (⟨h2d, hprotected⟩ | hagree) allocHnd img himg
    · obtain ⟨hcontiguous, -, -⟩ := himage.mp himg
      simp [h2d, hprotected] at hcontiguous
    · obtain ⟨-, -, rfl⟩ := himage.mp himg
      exact hagree

/-- With `k` bytes a pixel and no chroma planes, an image of the right pitch fits. -/
theorem packed_agrees_iff {bpp k : Int} (hbpp : bpp = 8 * k) (stride width height : Int) :
    (stride = width * bpp / 8 ∧ stride * height + 0 ≤ width * height * bpp / 8) ↔
      stride = width * k := by
  subst hbpp
  have hrow : width * (8 * k) / 8 = width * k := by
    rw [show width * (8 * k) = 8 * (width * k) by ring, Int.mul_ediv_cancel_left _ (by decide)]
  have hbytes : width * height * (8 * k) / 8 = width * k * height := by
    rw [show width * height * (8 * k) = 8 * (width * k * height) by ring,
      Int.mul_ediv_cancel_left _ (by decide)]
  rw [hrow, hbytes, add_zero]
  apply and_iff_left_of_imp
  rintro rfl
  exact le_refl _

/-- Chroma planes of half the rows and a quarter of the pixels fill what 12 bits a pixel leave. -/
theorem chroma_fits (heven : height % 2 = 0) :
    width * height + width * (height / 2) ≤ width * height * 12 / 8 := by
  obtain ⟨half, rfl⟩ := Int.dvd_of_emod_eq_zero heven
  have hfirst : width * (2 * half) = 2 * (width * half) := by ring
  rw [Int.mul_ediv_cancel_left _ (by decide), hfirst]
  omega

theorem planar_chroma_fits (hwidth : width % 2 = 0) (heven : height % 2 = 0) :
    width * height + 2 * (width / 2 * (height / 2)) ≤ width * height * 12 / 8 := by
  obtain ⟨half, rfl⟩ := Int.dvd_of_emod_eq_zero hwidth
  have hplane : 2 * (2 * half / 2 * (height / 2)) = 2 * half * (height / 2) := by
    rw [Int.mul_ediv_cancel_left _ (by decide), mul_assoc]
  rw [hplane]
  exact chroma_fits heven

/-- With chroma rows aligned to 16 the planes of YV12 only fit where a row is a multiple of 32. -/
theorem yv12_fits_iff (hwidth : width % 16 = 0) (hheight : 0 ≤ height) (heven : height % 2 = 0) :
    width * height + 2 * ((width / 2 + 15) / 16 * 16 * (height / 2)) ≤ width * height * 12 / 8 ↔
      width % 32 = 0 ∨ height = 0 := by
  obtain ⟨half, rfl⟩ := Int.dvd_of_emod_eq_zero heven
  obtain ⟨blocks, rfl⟩ := Int.dvd_of_emod_eq_zero hwidth
  rw [Int.mul_ediv_cancel_left half (by decide)]
  have harea : 16 * blocks * (2 * half) = 32 * (blocks * half) := by ring
  rw [harea]
  rcases Int.even_or_odd' blocks with ⟨pairs, rfl | rfl⟩
  · have hrow : (16 * (2 * pairs) / 2 + 15) / 16 * 16 = 16 * pairs := by omega
    have hchroma : 2 * (16 * pairs * half) = 16 * (2 * pairs * half) := by ring
    rw [hrow, hchroma]
    constructor
    · intro _
      exact .inl (by omega)
    · intro _
      omega
  · have hrow : (16 * (2 * pairs + 1) / 2 + 15) / 16 * 16 = 16 * (pairs + 1) := by omega
    have hchroma : 2 * (16 * (pairs + 1) * half) = 16 * ((2 * pairs + 1) * half) + 16 * half := by
      ring
    rw [hrow, hchroma]
    omega

end Fit

/-- For every accepted buffer the stride is its row pitch, and the image stays in the length,
exactly for the widths of `strideAgrees`. -/
theorem stride_agrees_iff {width height size aw ah bpp : Int} {format : PixelFormat} {usage : Usage}
    (hcalc : calcBufSize width height format usage = .ok (size, aw, ah))
    (hbpp : getFormatBpp format = .ok bpp) :
    (getStride aw format = aw * rowBpp format bpp / 8 ∧
      getStride aw format * ah + chromaBytes (toCompdevFormat format) (getStride aw format) ah ≤
        aw * ah * bpp / 8) ↔ strideAgrees width height usage format = true := by
  obtain ⟨hwidth, hheight, hawle, hahle, -, alignment, -, halignment, haw, hah⟩ :=
    calc_buf_size_ok hcalc
  obtain ⟨-, hlo, hhi, hmod⟩ := align_up_ok haw (format_alignment_pos halignment).1
  obtain ⟨-, hlo', hhi', hmod'⟩ := align_up_ok hah (format_alignment_pos halignment).2
  obtain ⟨hstride, hge, hlt⟩ := @get_stride_spec aw (by omega) hawle format
  have haw0 : 0 ≤ aw := by omega
  have harea : 0 ≤ aw * ah := Int.mul_nonneg haw0 (by omega)
  generalize getStride aw format = stride at *
  -- Where the pitch agrees only the chroma rows of YV12 can still be too long.
  cases format with
  | rgba8888 | rgbx8888 | bgra8888 =>
    cases hbpp
    cases halignment
    dsimp only [strideBytes, rowBpp, toCompdevFormat, chromaBytes] at *
    have hpitch : stride = aw * 4 ↔ aw % 2 = 0 := by omega
    rw [@packed_agrees_iff 32 4 rfl, hpitch]
    simp only [strideAgrees, Bool.or_eq_true, beq_iff_eq] at hhi hmod ⊢
    split_ifs at hhi hmod with h
    · simp only [h, true_or, iff_true]
      omega
    · simp only [h, false_or]
      omega
  | rgb888 =>
    cases hbpp
    cases halignment
    dsimp only [strideBytes, rowBpp, toCompdevFormat, chromaBytes] at *
    have hpitch : stride = aw * 3 ↔ aw % 8 = 0 := by omega
    rw [@packed_agrees_iff 24 3 rfl, hpitch]
    simp only [strideAgrees, Bool.or_eq_true, Bool.and_eq_true, beq_iff_eq, decide_eq_true_eq]
      at hhi hmod ⊢
    split_ifs at hhi hmod with h h2d
    · simp only [h, true_or, iff_true]
      omega
    · simp only [h, h2d, false_or, true_and]
      omega
    · simp only [h, h2d, Bool.false_eq_true, false_or, false_and, or_false]
      omega
  | rgb565 =>
    cases hbpp
    cases halignment
    dsimp only [strideBytes, rowBpp, toCompdevFormat, chromaBytes] at *
    have hpitch : stride = aw * 2 ↔ aw % 4 = 0 := by omega
    rw [@packed_agrees_iff 16 2 rfl, hpitch]
    simp only [strideAgrees, Bool.or_eq_true, beq_iff_eq] at hhi hmod ⊢
    split_ifs at hhi hmod with h
    · simp only [h, true_or, iff_true]
      omega
    · simp only [h, false_or]
      omega
  | rgba5551 | rgba4444 =>
    cases hbpp
    cases halignment
    dsimp only [strideBytes, rowBpp, toCompdevFormat, chromaBytes] at *
    have hpitch : stride = aw * 2 ↔ aw = 0 ∨ aw = 4 := by omega
    rw [@packed_agrees_iff 16 2 rfl, hpitch]
    simp only [strideAgrees, Bool.or_eq_true, Bool.and_eq_true, beq_iff_eq, decide_eq_true_eq]
      at hhi hmod ⊢
    split_ifs at hhi hmod with h
    · simp only [h, true_and]
      omega
    · simp only [h, false_and, or_false]
      omega
  | ycbcr422i =>
    cases hbpp
    cases halignment
    dsimp only [strideBytes, rowBpp, toCompdevFormat, chromaBytes] at *
    have hpitch : stride = aw * 2 ↔ aw % 4 = 0 := by omega
    rw [@packed_agrees_iff 16 2 rfl, hpitch]
    simp only [strideAgrees, Bool.or_eq_true, beq_iff_eq]
    omega
  | ycbcr422sp =>
    cases hbpp
    cases halignment
    dsimp only [strideBytes, rowBpp, toCompdevFormat, chromaBytes] at *
    have hpitch : stride = aw * 8 / 8 ↔ aw % 8 = 0 := by omega
    have hfit : stride = aw * 8 / 8 → stride * ah + 0 ≤ aw * ah * 16 / 8 := by
      intro h
      rw [h, Int.mul_ediv_cancel aw (by decide)]
      omega
    rw [and_iff_left_of_imp hfit, hpitch]
    simp only [strideAgrees, Bool.or_eq_true, beq_iff_eq]
    omega
  | ycrcb420sp | ycbcr420sp =>
    cases hbpp
    cases halignment
    dsimp only [strideBytes, rowBpp, toCompdevFormat, chromaBytes] at *
    have hpitch : stride = aw * 8 / 8 ↔ aw % 8 = 0 := by omega
    have hfit : stride = aw * 8 / 8 → stride * ah + stride * (ah / 2) ≤ aw * ah * 12 / 8 := by
      intro h
      rw [h, Int.mul_ediv_cancel aw (by decide)]
      exact chroma_fits hmod'
    rw [and_iff_left_of_imp hfit, hpitch]
    simp only [strideAgrees, Bool.or_eq_true, beq_iff_eq]
    omega
  | ycbcr420p =>
    cases hbpp
    cases halignment
    dsimp only [strideBytes, rowBpp, toCompdevFormat, chromaBytes] at *
    have hpitch : stride = aw * 8 / 8 ↔ aw % 8 = 0 := by omega
    have hfit : stride = aw * 8 / 8 →
        stride * ah + 2 * (stride / 2 * (ah / 2)) ≤ aw * ah * 12 / 8 := by
      intro h
      rw [h, Int.mul_ediv_cancel aw (by decide)]
      exact planar_chroma_fits hmod hmod'
    rw [and_iff_left_of_imp hfit, hpitch]
    simp only [strideAgrees, Bool.or_eq_true, beq_iff_eq]
    omega
  | ycbcr42xmbn =>
    cases hbpp
    cases halignment
    dsimp only [strideBytes, rowBpp, toCompdevFormat, chromaBytes] at *
    have hpitch : stride = aw := by
      rw [if_neg (by omega)] at hge hlt
      omega
    rw [hpitch, Int.mul_ediv_cancel aw (by decide)]
    simp only [strideAgrees, true_and, iff_true]
    exact chroma_fits (by omega)
  | yv12 =>
    cases hbpp
    cases halignment
    dsimp only [strideBytes, rowBpp, toCompdevFormat, chromaBytes] at *
    have hpitch : stride = aw := by omega
    rw [hpitch, Int.mul_ediv_cancel aw (by decide), eq_self_iff_true, true_and,
      yv12_fits_iff hmod (by omega) hmod']
    simp only [strideAgrees, Bool.or_eq_true, beq_iff_eq, decide_eq_true_eq]
    omega
  | other value => cases hbpp

theorem total_agrees_iff {width height size aw ah bpp : Int} {format : PixelFormat} {usage : Usage}
    (hcalc : calcBufSize width height format usage = .ok (size, aw, ah))
    (hbpp : getFormatBpp format = .ok bpp) :
    (getStride aw format = aw * bpp / 8 ∧
      getStride aw format * ah + chromaBytes (toCompdevFormat format) (getStride aw format) ah ≤
        aw * ah * bpp / 8) ↔ totalAgrees width height usage format = true := by
  have hrows := stride_agrees_iff hcalc hbpp
  obtain ⟨hwidth, hheight, hawle, hahle, -, alignment, -, halignment, haw, hah⟩ :=
    calc_buf_size_ok hcalc
  obtain ⟨-, hlo, hhi, hmod⟩ := align_up_ok haw (format_alignment_pos halignment).1
  obtain ⟨-, hlo', -, -⟩ := align_up_ok hah (format_alignment_pos halignment).2
  obtain ⟨hstride, hge, hlt⟩ := @get_stride_spec aw (by omega) hawle format
  have haw0 : 0 ≤ aw := by omega
  cases format with
  | ycbcr422sp =>
    cases hbpp
    cases halignment
    generalize getStride aw .ycbcr422sp = stride at *
    dsimp only [strideBytes, toCompdevFormat, chromaBytes] at *
    have hpitch : stride = aw * 2 ↔ aw = 0 ∨ aw = 4 := by omega
    rw [@packed_agrees_iff 16 2 rfl, hpitch]
    simp only [totalAgrees, Bool.or_eq_true, beq_iff_eq]
    omega
  | ycbcr42xmbn =>
    cases hbpp
    cases halignment
    generalize getStride aw .ycbcr42xmbn = stride at *
    dsimp only [strideBytes, toCompdevFormat, chromaBytes] at *
    rw [if_neg (by omega)] at hge hlt
    have hpitch : stride = aw * 12 / 8 ↔ aw = 0 := by omega
    have hfit : stride = aw * 12 / 8 → stride * ah + stride * (ah / 2) ≤ aw * ah * 12 / 8 := by
      intro h
      rw [hpitch.mp h, show stride = 0 by omega]
      simp
    rw [and_iff_left_of_imp hfit, hpitch]
    simp only [totalAgrees, beq_iff_eq]
    omega
  | ycrcb420sp | ycbcr420p | ycbcr420sp | yv12 =>
    cases hbpp
    cases halignment
    generalize getStride aw _ = stride at *
    dsimp only [strideBytes, toCompdevFormat, chromaBytes] at *
    have hpitch : stride = aw * 12 / 8 ↔ aw = 0 := by omega
    rw [and_iff_left_of_imp, hpitch]
    · simp only [totalAgrees, beq_iff_eq]
      omega
    · intro h
      rw [hpitch.mp h, show stride = 0 by omega]
      simp
  | _ => exact hrows

section Alloc
variable {k : Kernel} {errno : Int} {buf : Nat} {width height bpp : Int} {format : PixelFormat}
variable {usage : Usage} {allocFramebuffer : Except Errno Bool} {s t : ThreadGroup} {h : BufHandle}

theorem alloc_handle (hfree : s.handle buf = none)
    (halloc : grallocAlloc k errno buf width height format usage allocFramebuffer s = (0, t))
    (hbuf : t.handle buf = some h) : ∃ bytes actualWidth actualHeight,
      calcBufSize width height format usage = .ok (bytes, actualWidth, actualHeight) ∧
        h = newBufHandle actualWidth actualHeight format (allocUsage format usage) := by
  rcases @gralloc_alloc_cases k errno buf s width height format usage allocFramebuffer with
    ⟨result, heq⟩ | ⟨result, heq⟩ | ⟨h', hnew, -, -, heq⟩
  · rw [heq] at halloc
    cases halloc
    rw [hfree] at hbuf
    cases hbuf
  · rw [heq] at halloc
    cases halloc
    have hnone : s.handle buf = some h := hbuf
    rw [hfree] at hnone
    cases hnone
  · rw [heq] at halloc
    cases halloc
    have hsome : Function.update s.handle buf (some h') buf = some h := hbuf
    rw [Function.update_self] at hsome
    cases hsome
    exact hnew

/-- A buffer in scattered memory, which is not described to compdev at all. -/
def scattered (format : PixelFormat) (usage : Usage) : Bool :=
  isNonPlanarAndIndependentPixelFormat format && !usage.hw2D && !usage.isProtected

theorem scattered_iff : (allocUsage format usage).hw2D = false ∧
    (allocUsage format usage).isProtected = false ↔ scattered format usage = true := by
  unfold allocUsage scattered
  cases isNonPlanarAndIndependentPixelFormat format <;> simp

/-- The images described for a buffer that gralloc has allocated have its row pitch and fit in its
length exactly where no image is described or the stride agrees; with the bits of all planes counted
to a row, the formats with several planes never agree but for the widths of `totalAgrees`. -/
theorem images_fit_allocated_buffer (hfree : s.handle buf = none)
    (halloc : grallocAlloc k errno buf width height format usage allocFramebuffer s = (0, t))
    (hbuf : t.handle buf = some h) (hbpp : getFormatBpp format = .ok bpp) :
    (ImagesFit h (rowBpp format bpp) ↔
      scattered format usage = true ∨ strideAgrees width height usage format = true) ∧
    (ImagesFit h bpp ↔
      scattered format usage = true ∨ totalAgrees width height usage format = true) := by
  obtain ⟨bytes, aw, ah, hcalc, rfl⟩ := alloc_handle hfree halloc hbuf
  obtain ⟨hwidth, hheight, hawle, hahle, -, alignment, -, halignment, haw, hah⟩ :=
    calc_buf_size_ok hcalc
  obtain ⟨-, hlo, -, -⟩ := align_up_ok haw (format_alignment_pos halignment).1
  obtain ⟨-, hlo', -, -⟩ := align_up_ok hah (format_alignment_pos halignment).2
  have hfit : ∀ rowBits, _ :=
    fun rowBits => @images_fit_iff aw ah bpp rowBits format (allocUsage format usage) hbpp
      (by omega) hawle (by omega) hahle
  rw [hfit, hfit, scattered_iff, stride_agrees_iff hcalc hbpp, total_agrees_iff hcalc hbpp]
  exact ⟨Iff.rfl, Iff.rfl⟩

end Alloc

/-- A buffer for the composer that the blitter may read. -/
def composerUsage : Usage := ⟨false, false, false, false, true, true, false, false⟩

theorem images_fit_sample : ∃ t h,
    grallocAlloc (sampleKernel 4096) 0 0 100 64 .rgbx8888 composerUsage (.ok false) .start = (0, t) ∧
      t.handle 0 = some h ∧ ImagesFit h 32 := by
  refine ⟨_, _, rfl, rfl, ?_⟩
  have hfit := @images_fit_allocated_buffer (sampleKernel 4096) 0 0 100 64 32 .rgbx8888 composerUsage
    (.ok false) .start _ _ rfl rfl rfl rfl
  exact hfit.1.mpr (.inr rfl)

/-- 176 x 144 pixels of YV12 are longer than the length gralloc reports, and 101 pixels of RGB565
get a pitch of 208 bytes where gralloc laid out 202. -/
theorem images_exceed_buffers :
    (∃ t h img,
      grallocAlloc (sampleKernel 4096) 0 0 176 144 .yv12 composerUsage (.ok false) .start = (0, t) ∧
        t.handle 0 = some h ∧ convertImage (some h) 1 = .ok img ∧
        img.len = 38016 ∧ img.bytes = 39168) ∧
    ∃ t h img,
      grallocAlloc (sampleKernel 4096) 0 0 101 64 .rgb565 composerUsage (.ok false) .start = (0, t) ∧
        t.handle 0 = some h ∧ convertImage (some h) 1 = .ok img ∧
        img.pitch = 208 ∧ h.width * rowBpp h.format 16 / 8 = 202 := by
  refine ⟨⟨_, _, _, rfl, rfl, rfl, by decide, by decide⟩, ⟨_, _, _, rfl, rfl, rfl, ?_, ?_⟩⟩
  · decide
  · decide

end Codinalte.Hwcomposer
