import Codinalte.Gralloc.Sizes
import Mathlib.Tactic.Linarith
import Mathlib.Tactic.Ring

/-! Where the three computations of the size of a buffer agree. -/

namespace Codinalte.Gralloc

/-- The region of a lock of a rectangle lies in a buffer, holds the rectangle, and is the whole
buffer where the pixels are not independent. -/
structure Synchronised (region : HwmemRegion) (size actualWidth actualHeight : Int)
    (format : PixelFormat) (left top width height : Int) : Prop where
  inside : ∀ byte, region.Covers byte → 0 ≤ byte ∧ byte < size
  rectangle : ∀ plane ∈ planes actualWidth actualHeight format, ∀ x y : Int,
    left ≤ x → x < left + width → top ≤ y → y < top + height →
      ∀ i, 0 ≤ i → i < plane.bytes → region.Covers (plane.byteOf x y + i)
  whole : isNonPlanarAndIndependentPixelFormat format = false →
    ∀ byte, 0 ≤ byte → byte < size → region.Covers byte

/-- A buffer is reported with the size that it is allocated with, no number on the way to it or to a
region overflows, and every region is the right one. -/
structure SizesAgree (width height : Int) (format : PixelFormat) (usage : Usage)
    (size actualWidth actualHeight : Int) : Prop where
  reported : (newBufHandle actualWidth actualHeight format (allocUsage format usage)).bufSize = size
  reportedFramebuffer : ∀ (m m' : FbModule) (fb : FbMapping) (h : FbHandle) (stride : Nat),
    m.allocSlot fb size.toNat = some (m', .handle h stride) → h.bufSize = size
  fits : ∀ bpp, getFormatBpp format = .ok bpp → ∀ value,
    value ∈ calcBufSizeInts width height format usage actualWidth actualHeight bpp ∨
      value ∈ getBufSizeInts actualWidth actualHeight bpp → FitsInt value
  locked : ∀ left top w h region,
    setUpHwmemRegion left top w h actualWidth actualHeight format = .ok region →
      Synchronised region size actualWidth actualHeight format left top w h ∧
        ∀ bpp, getFormatBpp format = .ok bpp →
          ∀ value ∈ setUpHwmemRegionInts left top w h actualWidth bpp format, FitsInt value

/-- What is known of the sides of a buffer that is accepted. -/
structure Sides (format : PixelFormat) (bpp actualWidth actualHeight : Int) : Prop where
  bits : getFormatBpp format = .ok bpp
  width : 0 ≤ actualWidth ∧ actualWidth ≤ 8191
  height : 0 ≤ actualHeight ∧ actualHeight ≤ 8191
  even : isNonPlanarAndIndependentPixelFormat format = false → actualWidth % 2 = 0
  evenHeight : bpp = 12 → actualHeight % 2 = 0
  macroblock : format = .ycbcr42xmbn → actualWidth % 16 = 0 ∧ actualHeight % 16 = 0
  yv12 : format = .yv12 → actualWidth % 16 = 0

theorem mod_of_mod {x : Int} {n m : Int} (hdvd : m ∣ n) (h : x % n = 0) : x % m = 0 :=
  Int.emod_eq_zero_of_dvd (hdvd.trans (Int.dvd_of_emod_eq_zero h))

theorem sides_of_ok {width height size actualWidth actualHeight : Int} {format : PixelFormat}
    {usage : Usage}
    (h : calcBufSize width height format usage = .ok (size, actualWidth, actualHeight)) :
    ∃ bpp, Sides format bpp actualWidth actualHeight ∧
      size = bufBytes actualWidth actualHeight bpp format := by
  obtain ⟨hwidth, hheight, hmax, hmax', bpp, alignment, hbpp, halignment, hw, hh⟩ :=
    calc_buf_size_ok h
  obtain ⟨hpos, hpos'⟩ := format_alignment_pos halignment
  obtain ⟨-, hge, -, hmod⟩ := align_up_ok hw hpos
  obtain ⟨-, hge', -, hmod'⟩ := align_up_ok hh hpos'
  unfold maxWidthHeight at hmax hmax'
  refine ⟨bpp, ⟨hbpp, ⟨by omega, hmax⟩, ⟨by omega, hmax'⟩, ?_, ?_, ?_, ?_⟩, ?_⟩
  · intro hplanar
    cases format with
    | rgba8888 | rgbx8888 | bgra8888 | rgb888 | rgb565 | rgba5551 | rgba4444 => cases hplanar
    | other value => cases hbpp
    | ycbcr42xmbn | yv12 =>
      cases halignment
      exact mod_of_mod (by decide) hmod
    | _ =>
      cases halignment
      exact hmod
  · rintro rfl
    cases format with
    | ycbcr42xmbn =>
      cases halignment
      exact mod_of_mod (by decide) hmod'
    | ycbcr420sp | ycbcr420p | ycrcb420sp | yv12 =>
      cases halignment
      exact hmod'
    | _ => cases hbpp
  · rintro rfl
    cases halignment
    exact ⟨hmod, hmod'⟩
  · rintro rfl
    cases halignment
    exact hmod
  · unfold calcBufSize at h
    rw [if_neg (by omega), hbpp, halignment] at h
    obtain ⟨bpp', hbpp', h⟩ := bind_eq_ok.mp h
    obtain ⟨alignment', halignment', h⟩ := bind_eq_ok.mp h
    cases hbpp'
    cases halignment'
    rw [hw] at h
    obtain ⟨aw, haw, h⟩ := bind_eq_ok.mp h
    rw [hh] at h
    obtain ⟨ah, hah, h⟩ := bind_eq_ok.mp h
    cases haw
    cases hah
    split at h
    · cases h
    exact (Prod.mk.inj (Except.ok.inj h)).1.symm

section Buffer
variable {format : PixelFormat} {bpp aw ah : Int}

/-- A line of the buffer is a number of bytes. -/
theorem Sides.pitch (h : Sides format bpp aw ah) :
    ∃ pitch, aw * bpp = 8 * pitch ∧ 0 ≤ pitch ∧ pitch ≤ 32764 ∧ 12 ≤ bpp ∧ bpp ≤ 32 := by
  obtain ⟨hwidth, hwidth'⟩ := h.width
  have heven := h.even
  have hbpp := h.bits
  cases format with
  | rgba8888 | rgbx8888 | bgra8888 =>
    cases hbpp
    exact ⟨aw * 4, by omega, by omega, by omega, by decide, by decide⟩
  | rgb888 =>
    cases hbpp
    exact ⟨aw * 3, by omega, by omega, by omega, by decide, by decide⟩
  | rgb565 | rgba5551 | rgba4444 | ycbcr422sp | ycbcr422i =>
    cases hbpp
    exact ⟨aw * 2, by omega, by omega, by omega, by decide, by decide⟩
  | other value => cases hbpp
  | ycbcr42xmbn | ycbcr420sp | ycbcr420p | ycrcb420sp | yv12 =>
    cases hbpp
    have := heven rfl
    exact ⟨aw / 2 * 3, by omega, by omega, by omega, by decide, by decide⟩

theorem get_buf_size_eq (h : Sides format bpp aw ah) {pitch : Int} (hpitch : aw * bpp = 8 * pitch) :
    getBufSize aw ah format = .ok (ah * pitch) := by
  have hproduct : aw * ah * bpp = 8 * (ah * pitch) := by
    rw [Int.mul_right_comm, hpitch, Int.mul_assoc, Int.mul_comm pitch]
  unfold getBufSize
  rw [h.bits]
  show Except.ok ((aw * ah * bpp).tdiv 8) = _
  rw [hproduct, Int.mul_tdiv_cancel_left _ (by decide)]

theorem align_up_half (hwidth : 0 ≤ aw ∧ aw ≤ 8191) (hmod : aw % 16 = 0) :
    alignUp (aw / 2) 16 = .ok (if aw % 32 = 0 then aw / 2 else aw / 2 + 8) := by
  unfold alignUp intMax
  dsimp only
  rw [if_neg (by omega), Int.tmod_eq_emod_of_nonneg (by omega)]
  by_cases heven : aw % 32 = 0
  · have hremainder : aw / 2 % 16 = 0 := by omega
    simp only [hremainder, lt_irrefl, gt_iff_lt, if_false]
    rw [if_pos heven, if_neg (by omega), Int.add_zero]
  · have hremainder : aw / 2 % 16 = 8 := by omega
    simp only [hremainder, gt_iff_lt, Int.reduceLT, if_true]
    rw [if_neg heven, if_neg (by omega)]
    rfl

/-- Twelve bytes more than a line has are allocated for the chroma of each line of a width that is
no multiple of 32. -/
theorem buf_bytes_eq (h : Sides format bpp aw ah) {pitch : Int} (hpitch : aw * bpp = 8 * pitch) :
    bufBytes aw ah bpp format =
      ah * pitch + if format = .yv12 ∧ aw % 32 ≠ 0 then 12 * ah else 0 := by
  have hproduct : aw * ah * bpp = 8 * (ah * pitch) := by
    rw [Int.mul_right_comm, hpitch, Int.mul_assoc, Int.mul_comm pitch]
  unfold bufBytes
  by_cases hyv12 : format = .yv12
  · have hmod := h.yv12 hyv12
    have hbits := h.bits
    rw [if_pos hyv12, align_up_half h.width hmod]
    dsimp only [Except.toOption, Option.getD_some]
    by_cases heven : aw % 32 = 0
    · rw [if_pos heven, if_neg fun h => h.2 heven, Int.add_zero,
        show aw / 2 + aw / 2 = aw by omega, hproduct, Int.mul_ediv_cancel_left _ (by decide)]
    · subst hyv12
      cases hbits
      rw [if_neg heven, if_pos ⟨rfl, heven⟩, show aw / 2 + 8 + aw / 2 = aw + 8 by omega,
        show (aw + 8) * ah * 12 = aw * ah * 12 + 8 * (12 * ah) by ring, hproduct, ← Int.mul_add,
        Int.mul_ediv_cancel_left _ (by decide)]
  · rw [if_neg hyv12, if_neg fun h => hyv12 h.1, hproduct, Int.mul_ediv_cancel_left _ (by decide),
      Int.add_zero]

theorem unsigned_int_of_nonneg {x : Int} (hnonneg : 0 ≤ x) (hlt : x < 4294967296) :
    unsignedInt x = x := Int.emod_eq_of_lt hnonneg hlt

theorem hwmem_region_eq (h : Sides format bpp aw ah) {pitch : Int} (hpitch : aw * bpp = 8 * pitch)
    {left top width height : Int} (hleft : 0 ≤ left) (htop : 0 ≤ top) (hwidth : 0 ≤ width)
    (hheight : 0 ≤ height) (hright : left + width ≤ aw) (hbottom : top + height ≤ ah) :
    hwmemRegion left top width height aw bpp =
      ⟨top * pitch, height, left * bpp / 8, (left + width) * bpp / 8, pitch⟩ := by
  obtain ⟨pitch', hpitch', hnonneg, hle, hbpp, hbpp'⟩ := h.pitch
  obtain rfl : pitch = pitch' := by omega
  obtain ⟨-, haw⟩ := h.width
  obtain ⟨-, hah⟩ := h.height
  have hoffset : 0 ≤ top * pitch := Int.mul_nonneg htop hnonneg
  have hoffset' : top * pitch ≤ 8191 * 32764 :=
    Int.mul_le_mul (by omega) hle hnonneg (by decide)
  have hstart : 0 ≤ left * bpp := Int.mul_nonneg hleft (by omega)
  have hstart' : left * bpp ≤ 8191 * 32 := Int.mul_le_mul (by omega) hbpp' (by omega) (by decide)
  have hstop : 0 ≤ (left + width) * bpp := Int.mul_nonneg (by omega) (by omega)
  have hstop' : (left + width) * bpp ≤ 8191 * 32 :=
    Int.mul_le_mul (by omega) hbpp' (by omega) (by decide)
  unfold hwmemRegion
  dsimp only
  rw [hpitch, Int.mul_tdiv_cancel_left _ (by decide), Int.tdiv_eq_ediv_of_nonneg hstart,
    Int.tdiv_eq_ediv_of_nonneg hstop, unsigned_int_of_nonneg hoffset (by omega),
    unsigned_int_of_nonneg hheight (by omega), unsigned_int_of_nonneg (by omega) (by omega),
    unsigned_int_of_nonneg (by omega) (by omega), unsigned_int_of_nonneg hnonneg (by omega)]

/-- The region of the whole buffer holds the bytes of its lines. -/
theorem whole_region_covers {pitch : Int} (hpitch : 0 ≤ pitch) (byte : Int) :
    HwmemRegion.Covers ⟨0, ah, 0, pitch, pitch⟩ byte ↔ 0 ≤ byte ∧ byte < ah * pitch := by
  constructor
  · rintro ⟨block, hnonneg, hlt, hge, hle⟩
    dsimp only at hlt hge hle
    have hstart : 0 ≤ block * pitch := Int.mul_nonneg hnonneg hpitch
    have hend : (block + 1) * pitch ≤ ah * pitch :=
      Int.mul_le_mul_of_nonneg_right (by omega) hpitch
    rw [Int.add_mul] at hend
    omega
  · rintro ⟨hnonneg, hlt⟩
    have hpos : 0 < pitch := by
      rcases hpitch.lt_or_eq with hpos | rfl
      · exact hpos
      · omega
    have hdiv := Int.mul_ediv_add_emod byte pitch
    have hmod := Int.emod_nonneg byte hpos.ne'
    have hmod' := Int.emod_lt_of_pos byte hpos
    rw [Int.mul_comm] at hdiv
    refine ⟨byte / pitch, Int.ediv_nonneg hnonneg hpitch, ?_, ?_, ?_⟩
    · exact Int.ediv_lt_of_lt_mul hpos hlt
    · dsimp only
      omega
    · dsimp only
      omega

/-- The rows of a plane end before a byte. -/
structure Plane.Fits (plane : Plane) (aw ah total : Int) : Prop where
  offset : 0 ≤ plane.offset
  stride : 0 ≤ plane.stride
  bytes : 0 ≤ plane.bytes
  block : 0 < plane.blockWidth ∧ 0 < plane.blockHeight
  columns : aw % plane.blockWidth = 0 ∧ aw / plane.blockWidth * plane.bytes ≤ plane.stride
  rows : ah % plane.blockHeight = 0 ∧
    plane.offset + ah / plane.blockHeight * plane.stride ≤ total

theorem div_lt_div {x side block : Int} (hblock : 0 < block) (hmod : side % block = 0)
    (h : x < side) : x / block + 1 ≤ side / block := by
  have hdiv := Int.mul_ediv_add_emod side block
  have hlt : x / block < side / block := by
    rw [Int.ediv_lt_iff_lt_mul hblock, Int.mul_comm]
    omega
  omega

theorem Plane.Fits.byte_lt {plane : Plane} {total x y i : Int} (h : plane.Fits aw ah total)
    (hx : 0 ≤ x) (hx' : x < aw) (hy : 0 ≤ y) (hy' : y < ah) (hi : 0 ≤ i) (hi' : i < plane.bytes) :
    0 ≤ plane.byteOf x y + i ∧ plane.byteOf x y + i < total := by
  have hoffset := h.offset
  have hcolumn := div_lt_div h.block.1 h.columns.1 hx'
  have hrow := div_lt_div h.block.2 h.rows.1 hy'
  have hcolumns : (x / plane.blockWidth + 1) * plane.bytes ≤ plane.stride :=
    (Int.mul_le_mul_of_nonneg_right hcolumn h.bytes).trans h.columns.2
  have hrows : (y / plane.blockHeight + 1) * plane.stride ≤
      ah / plane.blockHeight * plane.stride := Int.mul_le_mul_of_nonneg_right hrow h.stride
  have hstart : 0 ≤ x / plane.blockWidth * plane.bytes :=
    Int.mul_nonneg (Int.ediv_nonneg hx h.block.1.le) h.bytes
  have hstart' : 0 ≤ y / plane.blockHeight * plane.stride :=
    Int.mul_nonneg (Int.ediv_nonneg hy h.block.2.le) h.stride
  have hend := h.rows.2
  rw [Int.add_mul] at hcolumns hrows
  unfold Plane.byteOf
  omega

theorem plane_fits {plane : Plane} {total columns rows : Int}
    (haw : aw = plane.blockWidth * columns) (hah : ah = plane.blockHeight * rows)
    (hblock : 0 < plane.blockWidth) (hblock' : 0 < plane.blockHeight) (hoffset : 0 ≤ plane.offset)
    (hstride : 0 ≤ plane.stride) (hbytes : 0 ≤ plane.bytes)
    (hcolumns : columns * plane.bytes ≤ plane.stride)
    (hrows : plane.offset + rows * plane.stride ≤ total) : plane.Fits aw ah total := by
  have hcolumns' := Int.mul_ediv_cancel_left columns hblock.ne'
  have hrows' := Int.mul_ediv_cancel_left rows hblock'.ne'
  subst haw hah
  exact ⟨hoffset, hstride, hbytes, ⟨hblock, hblock'⟩, ⟨Int.mul_emod_right _ _, by rwa [hcolumns']⟩,
    ⟨Int.mul_emod_right _ _, by rwa [hrows']⟩⟩

/-- All planes of a format without independent pixels are in the lines of the buffer. -/
theorem planes_fit (h : Sides format bpp aw ah) {pitch : Int} (hpitch : aw * bpp = 8 * pitch)
    (hplanar : isNonPlanarAndIndependentPixelFormat format = false)
    (hyv12 : format = .yv12 → aw % 32 = 0) :
    ∀ plane ∈ planes aw ah format, plane.Fits aw ah (ah * pitch) := by
  obtain ⟨hwidth, hwidth'⟩ := h.width
  obtain ⟨hheight, hheight'⟩ := h.height
  have heven := h.even hplanar
  have hbits := h.bits
  have hrows := h.evenHeight
  have hblock := h.macroblock
  obtain ⟨a, rfl⟩ : ∃ a, aw = 2 * a := ⟨aw / 2, by omega⟩
  have hhalf : 2 * a / 2 = a := by omega
  have harea : 0 ≤ a * ah := Int.mul_nonneg (by omega) hheight
  cases format with
  | rgba8888 | rgbx8888 | bgra8888 | rgb888 | rgb565 | rgba5551 | rgba4444 => cases hplanar
  | other value => cases hbits
  | ycbcr422i =>
    cases hbits
    obtain rfl : pitch = 4 * a := by omega
    refine List.forall_mem_singleton.mpr
      (plane_fits (rfl : 2 * a = 2 * a) (Int.one_mul ah).symm ?_ ?_ ?_ ?_ ?_ ?_ ?_)
    all_goals
      dsimp only
      linarith
  | ycbcr422sp =>
    cases hbits
    obtain rfl : pitch = 4 * a := by omega
    refine List.forall_mem_cons.mpr
      ⟨plane_fits (Int.one_mul (2 * a)).symm (Int.one_mul ah).symm ?_ ?_ ?_ ?_ ?_ ?_ ?_,
        List.forall_mem_singleton.mpr
          (plane_fits (rfl : 2 * a = 2 * a) (Int.one_mul ah).symm ?_ ?_ ?_ ?_ ?_ ?_ ?_)⟩
    all_goals
      dsimp only
      linarith
  | ycbcr420sp | ycrcb420sp =>
    cases hbits
    obtain rfl : pitch = 3 * a := by omega
    obtain ⟨b, rfl⟩ := Int.dvd_of_emod_eq_zero (hrows rfl)
    refine List.forall_mem_cons.mpr
      ⟨plane_fits (Int.one_mul (2 * a)).symm (Int.one_mul (2 * b)).symm ?_ ?_ ?_ ?_ ?_ ?_ ?_,
        List.forall_mem_singleton.mpr
          (plane_fits (rfl : 2 * a = 2 * a) (rfl : 2 * b = 2 * b) ?_ ?_ ?_ ?_ ?_ ?_ ?_)⟩
    all_goals
      dsimp only
      linarith
  | ycbcr420p =>
    cases hbits
    obtain rfl : pitch = 3 * a := by omega
    obtain ⟨b, rfl⟩ := Int.dvd_of_emod_eq_zero (hrows rfl)
    have hhalf' : 2 * b / 2 = b := by omega
    unfold planes
    rw [hhalf, hhalf']
    refine List.forall_mem_cons.mpr
      ⟨plane_fits (Int.one_mul (2 * a)).symm (Int.one_mul (2 * b)).symm ?_ ?_ ?_ ?_ ?_ ?_ ?_,
        List.forall_mem_cons.mpr
          ⟨plane_fits (rfl : 2 * a = 2 * a) (rfl : 2 * b = 2 * b) ?_ ?_ ?_ ?_ ?_ ?_ ?_,
            List.forall_mem_singleton.mpr
              (plane_fits (rfl : 2 * a = 2 * a) (rfl : 2 * b = 2 * b) ?_ ?_ ?_ ?_ ?_ ?_ ?_)⟩⟩
    all_goals
      dsimp only
      linarith
  | yv12 =>
    cases hbits
    obtain rfl : pitch = 3 * a := by omega
    obtain ⟨b, rfl⟩ := Int.dvd_of_emod_eq_zero (hrows rfl)
    have hhalf' : 2 * b / 2 = b := by omega
    have hstride : (a + 15) / 16 * 16 = a := by
      have := hyv12 rfl
      omega
    unfold planes
    rw [hhalf, hhalf', hstride]
    refine List.forall_mem_cons.mpr
      ⟨plane_fits (Int.one_mul (2 * a)).symm (Int.one_mul (2 * b)).symm ?_ ?_ ?_ ?_ ?_ ?_ ?_,
        List.forall_mem_cons.mpr
          ⟨plane_fits (rfl : 2 * a = 2 * a) (rfl : 2 * b = 2 * b) ?_ ?_ ?_ ?_ ?_ ?_ ?_,
            List.forall_mem_singleton.mpr
              (plane_fits (rfl : 2 * a = 2 * a) (rfl : 2 * b = 2 * b) ?_ ?_ ?_ ?_ ?_ ?_ ?_)⟩⟩
    all_goals
      dsimp only
      linarith
  | ycbcr42xmbn =>
    cases hbits
    obtain rfl : pitch = 3 * a := by omega
    obtain ⟨hmod, hmod'⟩ := hblock rfl
    obtain ⟨b, rfl⟩ := Int.dvd_of_emod_eq_zero hmod'
    obtain ⟨c, rfl⟩ : ∃ c, a = 8 * c := ⟨a / 8, by omega⟩
    have hwide : 2 * (8 * c) = 16 * c := by omega
    refine List.forall_mem_cons.mpr
      ⟨plane_fits hwide (rfl : 16 * b = 16 * b) ?_ ?_ ?_ ?_ ?_ ?_ ?_,
        List.forall_mem_singleton.mpr
          (plane_fits hwide (rfl : 16 * b = 16 * b) ?_ ?_ ?_ ?_ ?_ ?_ ?_)⟩
    all_goals
      dsimp only
      linarith

/-- A rectangle that is accepted lies in the buffer. -/
structure Accepted (left top width height aw ah : Int) : Prop where
  left_nonneg : 0 ≤ left
  top_nonneg : 0 ≤ top
  width_nonneg : 0 ≤ width
  height_nonneg : 0 ≤ height
  right_le : left + width ≤ aw
  bottom_le : top + height ≤ ah

theorem set_up_hwmem_region_ok {left top width height : Int} {region : HwmemRegion}
    (hbits : getFormatBpp format = .ok bpp)
    (h : setUpHwmemRegion left top width height aw ah format = .ok region) :
    Accepted left top width height aw ah ∧
      region = if isNonPlanarAndIndependentPixelFormat format then
          hwmemRegion left top width height aw bpp
        else hwmemRegion 0 0 aw ah aw bpp := by
  unfold setUpHwmemRegion at h
  split at h
  · cases h
  next haccepted =>
    rw [hbits] at h
    obtain ⟨bpp', hbits', h⟩ := bind_eq_ok.mp h
    cases hbits'
    refine ⟨⟨by omega, by omega, by omega, by omega, by omega, by omega⟩, ?_⟩
    split at h
    · rw [if_pos ‹_›]
      exact (Except.ok.inj h).symm
    · rw [if_neg ‹_›]
      exact (Except.ok.inj h).symm

/-- A format with independent pixels has one plane, with a whole number of bytes for a pixel. -/
theorem packed_plane (hbits : getFormatBpp format = .ok bpp)
    (hpacked : isNonPlanarAndIndependentPixelFormat format = true) :
    ∃ bytes, bpp = 8 * bytes ∧ 0 < bytes ∧
      planes aw ah format = [⟨0, aw * bytes, 1, 1, bytes⟩] := by
  cases format with
  | rgba8888 | rgbx8888 | bgra8888 =>
    cases hbits
    exact ⟨4, rfl, by decide, rfl⟩
  | rgb888 =>
    cases hbits
    exact ⟨3, rfl, by decide, rfl⟩
  | rgb565 | rgba5551 | rgba4444 =>
    cases hbits
    exact ⟨2, rfl, by decide, rfl⟩
  | _ => cases hpacked

theorem packed_synchronised (h : Sides format bpp aw ah) {pitch : Int}
    (hpitch : aw * bpp = 8 * pitch) (hpacked : isNonPlanarAndIndependentPixelFormat format = true)
    {left top width height : Int} (haccepted : Accepted left top width height aw ah) :
    Synchronised (hwmemRegion left top width height aw bpp) (ah * pitch) aw ah format left top
      width height := by
  obtain ⟨hleft, htop, hwidth, hheight, hright, hbottom⟩ := haccepted
  rw [hwmem_region_eq h hpitch hleft htop hwidth hheight hright hbottom]
  obtain ⟨bytes, rfl, hpos, hplanes⟩ : ∃ bytes, bpp = 8 * bytes ∧ 0 < bytes ∧
      planes aw ah format = [⟨0, aw * bytes, 1, 1, bytes⟩] := packed_plane h.bits hpacked
  have hline : aw * bytes = pitch := by
    rw [Int.mul_left_comm] at hpitch
    exact Int.eq_of_mul_eq_mul_left (by decide) hpitch
  have hbits : ∀ x : Int, x * (8 * bytes) / 8 = x * bytes := fun x => by
    rw [Int.mul_left_comm, Int.mul_ediv_cancel_left _ (by decide)]
  rw [hbits, hbits]
  have hnonneg : 0 ≤ pitch := hline ▸ Int.mul_nonneg h.width.1 hpos.le
  have hstart : 0 ≤ left * bytes := Int.mul_nonneg hleft hpos.le
  have hstop : (left + width) * bytes ≤ pitch :=
    hline ▸ Int.mul_le_mul_of_nonneg_right hright hpos.le
  refine ⟨?_, ?_, fun hplanar => absurd hpacked (hplanar ▸ Bool.false_ne_true)⟩
  · rintro byte ⟨block, hblock, hlt, hge, hbyte⟩
    dsimp only at hlt hge hbyte
    have hblocks : 0 ≤ (top + block) * pitch := Int.mul_nonneg (by omega) hnonneg
    have hend : (top + block + 1) * pitch ≤ ah * pitch :=
      Int.mul_le_mul_of_nonneg_right (by omega) hnonneg
    rw [Int.add_mul] at hblocks
    rw [Int.add_mul, Int.add_mul, Int.one_mul] at hend
    omega
  · rw [hplanes]
    intro plane hplane x y hx hx' hy hy' i hi hi'
    rw [List.mem_singleton.mp hplane] at hi' ⊢
    dsimp only at hi'
    have hcolumn : left * bytes ≤ x * bytes := Int.mul_le_mul_of_nonneg_right hx hpos.le
    have hcolumn' : (x + 1) * bytes ≤ (left + width) * bytes :=
      Int.mul_le_mul_of_nonneg_right (by omega) hpos.le
    have hrow : top * pitch + (y - top) * pitch = y * pitch := by
      rw [← Int.add_mul]
      congr 1
      omega
    rw [Int.add_mul, Int.one_mul] at hcolumn'
    unfold Plane.byteOf
    refine ⟨y - top, by omega, ?_, ?_, ?_⟩
    · dsimp only
      omega
    · dsimp only
      rw [hline, Int.ediv_one, Int.ediv_one]
      omega
    · dsimp only
      rw [hline, Int.ediv_one, Int.ediv_one]
      omega

theorem planar_synchronised (h : Sides format bpp aw ah) {pitch : Int}
    (hpitch : aw * bpp = 8 * pitch) (hplanar : isNonPlanarAndIndependentPixelFormat format = false)
    (hyv12 : format = .yv12 → 0 < ah → aw % 32 = 0) {left top width height : Int}
    (haccepted : Accepted left top width height aw ah) :
    Synchronised (hwmemRegion 0 0 aw ah aw bpp) (ah * pitch) aw ah format left top width
      height := by
  obtain ⟨hleft, htop, hwidth, hheight, hright, hbottom⟩ := haccepted
  obtain ⟨pitch', hpitch', hnonneg, -⟩ := h.pitch
  obtain rfl : pitch = pitch' := by omega
  have hregion := hwmem_region_eq h hpitch (Int.le_refl 0) (Int.le_refl 0) h.width.1 h.height.1
    (Int.zero_add aw).le (Int.zero_add ah).le
  rw [Int.zero_mul, Int.zero_mul, Int.zero_add, hpitch, Int.mul_ediv_cancel_left _ (by decide),
    Int.zero_ediv] at hregion
  rw [hregion]
  have hcovers : ∀ byte, HwmemRegion.Covers ⟨0, ah, 0, pitch, pitch⟩ byte ↔
      0 ≤ byte ∧ byte < ah * pitch := whole_region_covers hnonneg
  refine ⟨fun byte hbyte => (hcovers byte).mp hbyte, ?_, fun _ byte hbyte hlt =>
    (hcovers byte).mpr ⟨hbyte, hlt⟩⟩
  intro plane hplane x y hx hx' hy hy' i hi hi'
  have hfits := planes_fit h hpitch hplanar (fun heq => hyv12 heq (by omega)) plane hplane
  exact (hcovers _).mpr
    (hfits.byte_lt (by omega) (by omega) (by omega) (by omega) hi hi')

end Buffer

section Fits

theorem alignment_le {usage : Usage} {format : PixelFormat} {alignment : Int × Int}
    (h : getFormatWidthAndHeightAlignment usage format = .ok alignment) :
    alignment.1 ≤ 16 ∧ alignment.2 ≤ 16 := by
  cases format with
  | rgba8888 | rgbx8888 | bgra8888 | rgb888 | rgb565 | rgba5551 | rgba4444 =>
    cases h
    dsimp only
    split_ifs <;> decide
  | other value => cases h
  | _ =>
    cases h
    decide

theorem align_up_fits {value alignment : Int} (hvalue : 0 ≤ value) (hvalue' : value ≤ 8191)
    (hpos : 0 < alignment) (hle : alignment ≤ 16) :
    ∀ x ∈ alignUpInts value alignment, FitsInt x := by
  have hremainder : 0 ≤ value % alignment := Int.emod_nonneg value hpos.ne'
  have hremainder' : value % alignment < alignment := Int.emod_lt_of_pos value hpos
  have hadded : ∃ added, (if value % alignment > 0 then alignment - value % alignment else 0) =
      added ∧ 0 ≤ added ∧ added ≤ 16 := by
    refine ⟨_, rfl, ?_⟩
    split
    · omega
    · omega
  obtain ⟨added, hadded, hnonneg, hmost⟩ := hadded
  unfold alignUpInts FitsInt intMax
  dsimp only
  rw [Int.tmod_eq_emod_of_nonneg hvalue, hadded]
  simp only [List.forall_mem_cons, List.not_mem_nil, false_implies, implies_true, and_true]
  omega

theorem product_fits {a b bpp : Int} (ha : 0 ≤ a) (ha' : a ≤ 8191) (hb : 0 ≤ b) (hb' : b ≤ 8191)
    (hbpp : 0 ≤ bpp) (hbpp' : bpp ≤ 32) : FitsInt (a * b) ∧ FitsInt (a * b * bpp) := by
  have harea : 0 ≤ a * b := Int.mul_nonneg ha hb
  have harea' : a * b ≤ 8191 * 8191 := Int.mul_le_mul ha' hb' hb (by decide)
  have hsize : 0 ≤ a * b * bpp := Int.mul_nonneg harea hbpp
  have hsize' : a * b * bpp ≤ 8191 * 8191 * 32 := Int.mul_le_mul harea' hbpp' hbpp (by decide)
  unfold FitsInt intMax
  omega

variable {format : PixelFormat} {bpp aw ah : Int}

theorem buf_bytes_fits (h : Sides format bpp aw ah) :
    ∀ x ∈ bufBytesInts aw ah bpp format, FitsInt x := by
  obtain ⟨-, -, -, -, hbpp, hbpp'⟩ := h.pitch
  obtain ⟨hwidth, hwidth'⟩ := h.width
  obtain ⟨hheight, hheight'⟩ := h.height
  unfold bufBytesInts
  split
  · next hyv12 =>
    have hmod := h.yv12 hyv12
    obtain ⟨mean, hmean, hpos, hle⟩ : ∃ mean,
        (alignUp (aw / 2) 16).toOption.getD 0 + aw / 2 = mean ∧ 0 ≤ mean ∧ mean ≤ 8191 := by
      rw [align_up_half h.width hmod]
      refine ⟨_, rfl, ?_⟩
      dsimp only [Except.toOption, Option.getD_some]
      split
      · omega
      · omega
    obtain ⟨harea, hsize⟩ :=
      product_fits hpos hle hheight hheight' (show 0 ≤ bpp by omega) hbpp'
    dsimp only
    rw [hmean]
    refine List.forall_mem_append.mpr
      ⟨align_up_fits (by omega) (by omega) (by decide) (by decide), ?_⟩
    refine List.forall_mem_cons.mpr ⟨⟨by omega, by unfold intMax; omega⟩, ?_⟩
    exact List.forall_mem_cons.mpr ⟨harea, List.forall_mem_singleton.mpr hsize⟩
  · obtain ⟨harea, hsize⟩ :=
      product_fits hwidth hwidth' hheight hheight' (show 0 ≤ bpp by omega) hbpp'
    exact List.forall_mem_cons.mpr ⟨harea, List.forall_mem_singleton.mpr hsize⟩

theorem hwmem_region_fits (h : Sides format bpp aw ah) {left top width : Int} (hleft : 0 ≤ left)
    (htop : 0 ≤ top) (hwidth : 0 ≤ width) (hright : left + width ≤ aw) (hbottom : top ≤ ah) :
    ∀ x ∈ hwmemRegionInts left top width aw bpp, FitsInt x := by
  obtain ⟨pitch, hpitch, hnonneg, hle, hbpp, hbpp'⟩ := h.pitch
  obtain ⟨-, haw⟩ := h.width
  obtain ⟨-, hah⟩ := h.height
  have hoffset : 0 ≤ top * pitch := Int.mul_nonneg htop hnonneg
  have hoffset' : top * pitch ≤ 8191 * 32764 :=
    Int.mul_le_mul (by omega) hle hnonneg (by decide)
  have hstart : 0 ≤ left * bpp := Int.mul_nonneg hleft (by omega)
  have hstart' : left * bpp ≤ 8191 * 32 := Int.mul_le_mul (by omega) hbpp' (by omega) (by decide)
  have hstop : 0 ≤ (left + width) * bpp := Int.mul_nonneg (by omega) (by omega)
  have hstop' : (left + width) * bpp ≤ 8191 * 32 :=
    Int.mul_le_mul (by omega) hbpp' (by omega) (by decide)
  unfold hwmemRegionInts FitsInt intMax
  rw [hpitch, Int.mul_tdiv_cancel_left _ (by decide)]
  simp only [List.forall_mem_cons, List.not_mem_nil, false_implies, implies_true, and_true]
  omega

theorem set_up_hwmem_region_fits (h : Sides format bpp aw ah) {left top width height : Int}
    (haccepted : Accepted left top width height aw ah) :
    ∀ x ∈ setUpHwmemRegionInts left top width height aw bpp format, FitsInt x := by
  obtain ⟨hleft, htop, hwidth, hheight, hright, hbottom⟩ := haccepted
  obtain ⟨haw, haw'⟩ := h.width
  obtain ⟨hah, hah'⟩ := h.height
  unfold setUpHwmemRegionInts
  refine List.forall_mem_append.mpr ⟨?_, ?_⟩
  · unfold FitsInt intMax
    simp only [List.forall_mem_cons, List.not_mem_nil, false_implies, implies_true, and_true]
    omega
  · split
    · exact hwmem_region_fits h hleft htop hwidth hright (by omega)
    · exact hwmem_region_fits h (Int.le_refl 0) (Int.le_refl 0) haw (Int.zero_add aw).le hah

end Fits

/-- What is reported for a buffer of given sides. -/
theorem new_handle_buf_size {format : PixelFormat} {bpp aw ah pitch : Int}
    (h : Sides format bpp aw ah) (hpitch : aw * bpp = 8 * pitch) (usage : Usage) :
    (newBufHandle aw ah format usage).bufSize = ah * pitch := by
  unfold BufHandle.bufSize grallocGetBufSize newBufHandle
  dsimp only
  rw [get_buf_size_eq h hpitch]
  rfl

theorem alloc_slot_buf_size {m m' : FbModule} {fb : FbMapping} {size stride : Nat} {h : FbHandle}
    (halloc : m.allocSlot fb size = some (m', .handle h stride)) : h.bufSize = size := by
  have hsize : h.size = size := by
    unfold FbModule.allocSlot at halloc
    split at halloc
    · cases halloc
    · split at halloc
      · cases halloc
      · dsimp only at halloc
        split at halloc
        · cases halloc
        · obtain ⟨-, hhandle⟩ := Prod.mk.inj (Option.some.inj halloc)
          rw [← (FbResult.handle.inj hhandle).1]
  unfold FbHandle.bufSize grallocGetBufSize
  rw [if_pos (by omega), hsize]

/-- The sizes agree if and only if the buffer has no YV12 lines whose width is rounded up to 16
pixels less than a multiple of 32. -/
theorem sizes_agree_iff {width height size aw ah : Int} {format : PixelFormat} {usage : Usage}
    (h : calcBufSize width height format usage = .ok (size, aw, ah)) :
    SizesAgree width height format usage size aw ah ↔
      (format = .yv12 → 0 < height → width % 32 = 0 ∨ 16 < width % 32) := by
  obtain ⟨bpp, hsides, hsize⟩ := sides_of_ok h
  obtain ⟨pitch, hpitch, hnonneg, -⟩ := hsides.pitch
  obtain ⟨haw, haw'⟩ := hsides.width
  obtain ⟨hah, hah'⟩ := hsides.height
  rw [buf_bytes_eq hsides hpitch] at hsize
  have hreported := new_handle_buf_size hsides hpitch (allocUsage format usage)
  obtain ⟨hwidth, hheight, -, -, bpp', alignment, hbits, halignment, hw, hh⟩ := calc_buf_size_ok h
  obtain ⟨hpos, hpos'⟩ := format_alignment_pos halignment
  obtain ⟨hle, hle'⟩ := alignment_le halignment
  obtain ⟨-, hge, hlt, hmod⟩ := align_up_ok hw hpos
  obtain ⟨-, hge', hlt', hmod'⟩ := align_up_ok hh hpos'
  have hcondition : (format = .yv12 → 0 < height → width % 32 = 0 ∨ 16 < width % 32) ↔
      (format = .yv12 → 0 < ah → aw % 32 = 0) := by
    refine forall_congr' fun hyv12 => ?_
    subst hyv12
    cases halignment
    dsimp only at hge hlt hmod hge' hlt' hmod'
    omega
  rw [hcondition]
  constructor
  · intro hagree hyv12 hahpos
    by_contra hodd
    have := hagree.reported
    rw [if_pos ⟨hyv12, hodd⟩] at hsize
    omega
  · intro hnoslack
    have hexact : size = ah * pitch := by
      rw [hsize]
      split
      · next hslack =>
        have := mt (hnoslack hslack.1) hslack.2
        omega
      · omega
    have hsize_nonneg : 0 ≤ size := hexact ▸ Int.mul_nonneg hah hnonneg
    refine ⟨hreported.trans hexact.symm, ?_, ?_, ?_⟩
    · intro m m' fb handle stride halloc
      rw [alloc_slot_buf_size halloc, Int.toNat_of_nonneg hsize_nonneg]
    · intro bpp'' hbits'' x hx
      obtain rfl : bpp = bpp'' := Except.ok.inj (hsides.bits.symm.trans hbits'')
      obtain ⟨-, -, -, -, hbpp, hbpp'⟩ := hsides.pitch
      rcases hx with hx | hx
      · unfold calcBufSizeInts at hx
        rw [halignment] at hx
        simp only [List.mem_append] at hx
        rcases hx with (hx | hx) | hx
        · exact align_up_fits hwidth (by omega) hpos hle x hx
        · exact align_up_fits hheight (by omega) hpos' hle' x hx
        · exact buf_bytes_fits hsides x hx
      · obtain ⟨harea, hproduct⟩ :=
          product_fits haw haw' hah hah' (show 0 ≤ bpp by omega) hbpp'
        exact List.forall_mem_cons.mpr ⟨harea, List.forall_mem_singleton.mpr hproduct⟩ x hx
    · intro left top w h' region hregion
      obtain ⟨haccepted, rfl⟩ := set_up_hwmem_region_ok hsides.bits hregion
      refine ⟨?_, fun bpp'' hbits'' => ?_⟩
      · rw [hexact]
        split
        · next hpacked => exact packed_synchronised hsides hpitch hpacked haccepted
        · next hplanar =>
          exact planar_synchronised hsides hpitch (Bool.eq_false_iff.mpr hplanar) hnoslack haccepted
      · obtain rfl : bpp = bpp'' := Except.ok.inj (hsides.bits.symm.trans hbits'')
        exact set_up_hwmem_region_fits hsides haccepted

def syncedUsage : Usage := ⟨true, true, false, false, true, true, false, false⟩

theorem sizes_agree_sample : SizesAgree 24 3 .yv12 syncedUsage 192 32 4 :=
  (sizes_agree_iff rfl).mpr fun _ _ => .inr (by decide)

/-- The lines of a YV12 buffer of 16 pixels: 24 bytes less than those allocated are reported and
synchronised, and the last ones of the last chroma plane are among these. -/
theorem yv12_tail_left_out :
    calcBufSize 16 2 .yv12 syncedUsage = .ok (72, 16, 2) ∧
      (newBufHandle 16 2 .yv12 (allocUsage .yv12 syncedUsage)).bufSize = 48 ∧
      ∃ region, setUpHwmemRegion 0 0 16 2 16 2 .yv12 = .ok region ∧
        ∃ plane ∈ planes 16 2 .yv12, ¬ region.Covers (plane.byteOf 15 1) := by
  refine ⟨rfl, rfl, ⟨0, 2, 0, 24, 24⟩, rfl, ⟨48, 16, 2, 2, 1⟩, ?_, ?_⟩
  · exact List.mem_cons_of_mem _ (List.mem_cons_of_mem _ (List.mem_singleton_self _))
  · rintro ⟨block, -, hblock, -, hend⟩
    have hbyte : Plane.byteOf ⟨48, 16, 2, 2, 1⟩ 15 1 = 55 := rfl
    dsimp only at hblock hend
    omega

end Codinalte.Gralloc
