import Mathlib.Data.Int.Init
import Mathlib.Order.Basic
import Mathlib.Order.Defs.LinearOrder

/-! The rectangles of a blit that is clipped: the part of the destination inside the clip, and where
in the source it comes from, in 16.16 fixed point. -/

namespace Codinalte.Copybit

/-- What an `int32_t` holds of a number, and what a `uint32_t` does. -/
def int32 (x : Int) : Int := x.bmod 4294967296

def uint32 (x : Int) : Int := x % 4294967296

structure Rect where
  l : Int
  t : Int
  r : Int
  b : Int
deriving DecidableEq

structure BltRect where
  x : Int
  y : Int
  width : Int
  height : Int
deriving DecidableEq

/-- The bits of a transform. -/
structure Transform where
  flip_h : Bool
  flip_v : Bool
  ccw_rot_90 : Bool
deriving DecidableEq

def intersect (lhs rhs : Rect) : Rect :=
  ⟨max lhs.l rhs.l, max lhs.t rhs.t, min lhs.r rhs.r, min lhs.b rhs.b⟩

/-- A rescale factor; there is none for a destination of no length. -/
def rescale_factor (source destination : Int) : Option Int :=
  if destination = 0 then none
  else some (uint32 (int32 (Int.tdiv (int32 (source * 65536)) destination)))

/-- An offset is rounded down. -/
def rescale_offset (rsf x : Int) : Int := if rsf ≠ 65536 then int32 (x * rsf) / 65536 else x

/-- A length is rounded to the nearest. -/
def rescale_length (rsf width : Int) : Int :=
  if rsf ≠ 65536 then int32 (int32 (width * rsf) + 32768) / 65536 else width

/-- The part of the destination inside the clip, relative to the destination. -/
def clip_destination (dst_norm clip_norm : BltRect) : BltRect :=
  let l := max dst_norm.x clip_norm.x
  let t := max dst_norm.y clip_norm.y
  let r := min (int32 (dst_norm.x + dst_norm.width)) (int32 (clip_norm.x + clip_norm.width))
  let b := min (int32 (dst_norm.y + dst_norm.height)) (int32 (clip_norm.y + clip_norm.height))
  ⟨l, t, int32 (r - l), int32 (b - t)⟩

/-- Where the part comes from before it is rescaled. -/
def transform_source (transforms : Transform) (dst_norm dst_clipped : BltRect) : BltRect :=
  let src_clipped := dst_clipped
  let src_clipped :=
    if transforms.flip_v then
      { src_clipped with
        y := int32 (dst_norm.height - int32 (dst_clipped.height + dst_clipped.y)) }
    else src_clipped
  let src_clipped :=
    if transforms.flip_h then
      { src_clipped with
        x := int32 (dst_norm.width - int32 (dst_clipped.width + dst_clipped.x)) }
    else src_clipped
  if transforms.ccw_rot_90 then
    ⟨int32 (dst_norm.height - int32 (src_clipped.y + src_clipped.height)), src_clipped.x,
      dst_clipped.height, dst_clipped.width⟩
  else src_clipped

def normalize (rect : Rect) (l t : Int) : BltRect :=
  ⟨int32 (rect.l - l), int32 (rect.t - t), int32 (rect.r - rect.l), int32 (rect.b - rect.t)⟩

/-- The source and the destination of the blit; there are none if a division by zero comes first. -/
def set_rects (src_rect dst_rect clip_rect : Rect) (transforms : Transform) :
    Option (BltRect × BltRect) := do
  let src_norm : BltRect :=
    ⟨0, 0, int32 (src_rect.r - src_rect.l), int32 (src_rect.b - src_rect.t)⟩
  let dst_norm : BltRect :=
    ⟨0, 0, int32 (dst_rect.r - dst_rect.l), int32 (dst_rect.b - dst_rect.t)⟩
  let clip_norm := normalize clip_rect dst_rect.l dst_rect.t
  let dst_clipped := clip_destination dst_norm clip_norm
  let src_clipped := transform_source transforms dst_norm dst_clipped
  let h_rsf ← rescale_factor src_norm.width
    (if transforms.ccw_rot_90 then dst_norm.height else dst_norm.width)
  let v_rsf ← rescale_factor src_norm.height
    (if transforms.ccw_rot_90 then dst_norm.width else dst_norm.height)
  return (
    { x := int32 (rescale_offset h_rsf src_clipped.x + src_rect.l)
      y := int32 (rescale_offset v_rsf src_clipped.y + src_rect.t)
      width := rescale_length h_rsf src_clipped.width
      height := rescale_length v_rsf src_clipped.height },
    { dst_clipped with
      x := int32 (dst_clipped.x + dst_rect.l)
      y := int32 (dst_clipped.y + dst_rect.t) })

example :
    set_rects ⟨0, 0, 4, 2⟩ ⟨10, 10, 12, 14⟩ ⟨10, 11, 12, 14⟩ ⟨false, false, true⟩ =
      some (⟨0, 0, 3, 2⟩, ⟨10, 11, 2, 3⟩) := by decide

end Codinalte.Copybit
