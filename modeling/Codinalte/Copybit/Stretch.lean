import Codinalte.Copybit.Parameters
import Codinalte.Copybit.Rects

/-! A stretch of one image onto another: one request for each clip rectangle of a region. -/

namespace Codinalte.Copybit

def einval : Int := -22

inductive Format where
  | rgba_8888
  | rgbx_8888
  | bgra_8888
  | rgb_565
  | ycbcr_422_sp
  | ycbcr_420_sp
  | ycbcr42xmbn
  | ycbcr_420_p
  | ycbcr_422_i
  | other
deriving DecidableEq

inductive BltFmt where
  | abgr8888
  | argb8888
  | rgb565
  | yuv422_packed_semi_planar
  | yuv420_packed_semi_planar
  | yuv420_packed_semiplanar_mb_ste
  | yuv420_packed_planar
  | cb_y_cr_y
deriving DecidableEq

def to_blt_fmt : Format → Option BltFmt
  | .rgba_8888 | .rgbx_8888 => some .abgr8888
  | .bgra_8888 => some .argb8888
  | .rgb_565 => some .rgb565
  | .ycbcr_422_sp => some .yuv422_packed_semi_planar
  | .ycbcr_420_sp => some .yuv420_packed_semi_planar
  | .ycbcr42xmbn => some .yuv420_packed_semiplanar_mb_ste
  | .ycbcr_420_p => some .yuv420_packed_planar
  | .ycbcr_422_i => some .cb_y_cr_y
  | .other => none

/-- What the graphics memory module is asked for a buffer. -/
inductive Query where
  | get_buf_allocator_handle
  | get_buf_size
  | get_buf_offset
  | get_buf_type
deriving DecidableEq

def gralloc_buf_type_hwmem : Int := 0

inductive BltPtrType where
  | fd_offset
  | hwmem_buf_name_offset
deriving DecidableEq

structure BltBuf where
  type : BltPtrType
  hwmem_buf_name : Int
  fd : Int
  offset : Int
  len : Int
deriving DecidableEq

structure BltImg where
  fmt : BltFmt
  buf : BltBuf
  width : Int
  height : Int
deriving DecidableEq

/-- An image; its handle may be null. -/
structure Image (H : Type) where
  w : Int
  h : Int
  format : Format
  handle : Option H

/-- A request of a device: the parameters, the images and the rectangles of one blit. -/
structure Request where
  parameters : BltReq
  src_img : BltImg
  dst_img : BltImg
  src_rect : BltRect
  dst_rect : BltRect
  dst_clip_rect : BltRect
deriving DecidableEq

section Image
variable {H : Type}

def convert_image (perform : H → Query → Int) (cp_img : Image H) : Option BltImg := do
  let buf_hnd ← cp_img.handle
  let fmt ← to_blt_fmt cp_img.format
  let alloc_hnd := perform buf_hnd .get_buf_allocator_handle
  guard (0 ≤ alloc_hnd)
  let size := perform buf_hnd .get_buf_size
  guard (0 ≤ size)
  let offset := perform buf_hnd .get_buf_offset
  guard (0 ≤ offset)
  let type := perform buf_hnd .get_buf_type
  guard (0 ≤ type)
  let buf : BltBuf :=
    if type = gralloc_buf_type_hwmem then ⟨.hwmem_buf_name_offset, alloc_hnd, 0, offset, size⟩
    else ⟨.fd_offset, 0, alloc_hnd, offset, size⟩
  return ⟨fmt, buf, int32 cp_img.w, int32 cp_img.h⟩

end Image

def blt_flag_per_pixel_alpha_blend : BitVec 32 := 0x4
def blt_flag_src_is_not_premult : BitVec 32 := 0x100

/-- Nothing is blended from a source without alpha or onto a YUV destination. -/
def blend_flags (src dst : Format) (flags : BitVec 32) : BitVec 32 :=
  let blend := blt_flag_per_pixel_alpha_blend ||| blt_flag_src_is_not_premult
  if src = .rgbx_8888 ∨ dst = .ycbcr_422_sp ∨ dst = .ycbcr_420_sp ∨ dst = .ycbcr_420_p ∨
      dst = .ycbcr42xmbn then
    flags &&& ~~~blend
  else flags ||| blend

def Transform.of (transform : BitVec 32) : Transform where
  flip_h := transform &&& blt_transform_flip_h ≠ 0
  flip_v := transform &&& blt_transform_flip_v ≠ 0
  ccw_rot_90 := transform &&& blt_transform_ccw_rot_90 ≠ 0

def minification_limit : Int := 8
def magnification_limit : Int := 8

/-- Whether a length of the source is in the limits of one of the destination; there is no answer
if a division by zero comes first. -/
def check_length (source destination : Int) : Option Bool :=
  if source > destination then
    if destination = 0 then none
    else some (¬ Int.tdiv source destination > minification_limit)
  else if source < destination then
    if source = 0 then none else some (¬ Int.tdiv destination source > magnification_limit)
  else some true

def check_stretch_limits (src_rect dst_rect : BltRect) (rotation : Bool) : Option Bool := do
  let to_size : Int × Int :=
    if rotation then (dst_rect.height, dst_rect.width) else (dst_rect.width, dst_rect.height)
  if ← check_length src_rect.width to_size.1 then check_length src_rect.height to_size.2 else return false

/-- How a stretch ends. -/
inductive Ending where
  | divided_by_zero
  | returned (status : Int)
deriving DecidableEq

/-- What the library of the blitter returns for a request, after those before it, and for waiting
until all of them are done. -/
structure Blitter where
  blt_request : List Request → Request → Int
  blt_synch : List Request → Int

/-- The requests for the clips of a region, after those that were made for the clips before. -/
def stretch_clips (blitter : Blitter) (src_rect dst_rect bounds : Rect) :
    Request → List Request → List Rect → List Request × Ending
  | _, requests, [] =>
    let status := blitter.blt_synch requests
    (requests, .returned (if status < 0 then status else 0))
  | req, requests, clip :: clips =>
    let clip := intersect bounds clip
    let transform := Transform.of req.parameters.transform
    match set_rects src_rect dst_rect clip transform with
    | none => (requests, .divided_by_zero)
    | some (s, d) =>
      let req := { req with src_rect := s, dst_rect := d }
      match check_stretch_limits s d transform.ccw_rot_90 with
      | none => (requests, .divided_by_zero)
      | some false => (requests, .returned einval)
      | some true =>
        if d.width = 0 ∨ d.height = 0 ∨ s.width = 0 ∨ s.height = 0 then
          stretch_clips blitter src_rect dst_rect bounds req requests clips
        else
          let req := { req with
            dst_clip_rect := ⟨clip.l, clip.t, int32 (clip.r - clip.l), int32 (clip.b - clip.t)⟩ }
          let status := blitter.blt_request requests req
          if status < 0 then (requests ++ [req], .returned status)
          else stretch_clips blitter src_rect dst_rect bounds req (requests ++ [req]) clips

/-- The requests that a stretch makes for the clips that a region has, and how it ends. -/
def copybit_stretch {H : Type} (perform : H → Query → Int) (blitter : Blitter) (blt_req : Request)
    (dst src : Image H) (dst_rect src_rect : Rect) (region : List Rect) : List Request × Ending :=
  let bounds : Rect := ⟨0, 0, int32 dst.w, int32 dst.h⟩
  match convert_image perform src with
  | none => ([], .returned einval)
  | some src_img =>
    match convert_image perform dst with
    | none => ([], .returned einval)
    | some dst_img =>
      let parameters := { blt_req.parameters with
        flags := blend_flags src.format dst.format blt_req.parameters.flags }
      stretch_clips blitter src_rect dst_rect bounds
        { blt_req with parameters, src_img, dst_img } [] region

end Codinalte.Copybit
