import Codinalte.Copybit.Rects
import Mathlib.Algebra.Order.Round
import Mathlib.Data.Rat.Floor
import Mathlib.Tactic.Linarith

/-! The source of a clipped blit lies inside the source rectangle, and its fixed-point numbers are
the exact ones, as long as no side is longer than 32767. -/

namespace Codinalte.Copybit

def InInt32 (x : Int) : Prop := -2147483648 ≤ x ∧ x < 2147483648

instance (x : Int) : Decidable (InInt32 x) := inferInstanceAs (Decidable (_ ∧ _))

theorem int32_of_inInt32 {x : Int} (h : InInt32 x) : int32 x = x :=
  Int.bmod_eq_of_le (by unfold InInt32 at h; omega) (by unfold InInt32 at h; omega)

theorem int32_add_int32 (x y : Int) : int32 (x + int32 y) = int32 (x + y) := Int.add_bmod_bmod

theorem int32_int32_add (x y : Int) : int32 (int32 x + y) = int32 (x + y) := Int.bmod_add_bmod

theorem int32_sub_int32 (x y : Int) : int32 (x - int32 y) = int32 (x - y) := Int.sub_bmod_bmod

namespace Rect

def width (rect : Rect) : Int := rect.r - rect.l

def height (rect : Rect) : Int := rect.b - rect.t

/-- The coordinates are those of an `int`. -/
structure OfInt (rect : Rect) : Prop where
  l : InInt32 rect.l
  t : InInt32 rect.t
  r : InInt32 rect.r
  b : InInt32 rect.b

/-- What is common to a destination and a clip, relative to the destination. -/
def part (dst clip : Rect) : Rect :=
  intersect ⟨0, 0, dst.width, dst.height⟩
    ⟨clip.l - dst.l, clip.t - dst.t, clip.r - dst.l, clip.b - dst.t⟩

/-- There is a pixel in both. -/
def Meets (clip dst : Rect) : Prop :=
  0 < (part dst clip).width ∧ 0 < (part dst clip).height

instance (clip dst : Rect) : Decidable (Meets clip dst) := inferInstanceAs (Decidable (_ ∧ _))

/-- The edges of a clip relative to the corner of a destination are numbers of an `int`. -/
structure Offsets (dst clip : Rect) : Prop where
  l : InInt32 (clip.l - dst.l)
  t : InInt32 (clip.t - dst.t)
  r : InInt32 (clip.r - dst.l)
  b : InInt32 (clip.b - dst.t)

end Rect

open Rect

/-- The sides of the destination and of its part in the clip fit as well. -/
structure Representable (dst clip : Rect) : Prop extends Offsets dst clip where
  width : InInt32 dst.width
  height : InInt32 dst.height
  part_width : InInt32 (part dst clip).width
  part_height : InInt32 (part dst clip).height

def Rect.blt (rect : Rect) : BltRect := ⟨rect.l, rect.t, rect.width, rect.height⟩

theorem clip_destination_eq {dst clip : Rect} (h : Representable dst clip) :
    clip_destination ⟨0, 0, int32 (dst.r - dst.l), int32 (dst.b - dst.t)⟩
      (normalize clip dst.l dst.t) = (part dst clip).blt := by
  have hr : int32 (int32 (clip.l - dst.l) + int32 (clip.r - clip.l)) = clip.r - dst.l := by
    rw [int32_add_int32, int32_int32_add, show clip.l - dst.l + (clip.r - clip.l) = clip.r - dst.l by
      omega, int32_of_inInt32 h.r]
  have hb : int32 (int32 (clip.t - dst.t) + int32 (clip.b - clip.t)) = clip.b - dst.t := by
    rw [int32_add_int32, int32_int32_add, show clip.t - dst.t + (clip.b - clip.t) = clip.b - dst.t by
      omega, int32_of_inInt32 h.b]
  have hwidth := int32_of_inInt32 h.width
  have hheight := int32_of_inInt32 h.height
  have hpart_width := int32_of_inInt32 h.part_width
  have hpart_height := int32_of_inInt32 h.part_height
  unfold Rect.width at hwidth hpart_width
  unfold Rect.height at hheight hpart_height
  unfold clip_destination normalize
  simp only [Int.zero_add, hr, hb, hwidth, hheight]
  rw [int32_of_inInt32 h.l, int32_of_inInt32 h.t]
  exact BltRect.mk.injEq .. |>.mpr ⟨rfl, rfl, hpart_width, hpart_height⟩

theorem Rect.Meets.bounds {dst clip : Rect} (h : Meets clip dst) :
    0 ≤ (part dst clip).l ∧ (part dst clip).l < (part dst clip).r ∧
      (part dst clip).r ≤ dst.width ∧ 0 ≤ (part dst clip).t ∧
      (part dst clip).t < (part dst clip).b ∧ (part dst clip).b ≤ dst.height := by
  obtain ⟨hwidth, hheight⟩ := h
  unfold Rect.width at hwidth
  unfold Rect.height at hheight
  exact ⟨le_max_left _ _, by omega, min_le_left _ _, le_max_left _ _, by omega, min_le_left _ _⟩

theorem Rect.Meets.representable {dst clip : Rect} (h : Meets clip dst) (hoffsets : Offsets dst clip)
    (hwidth : InInt32 dst.width) (hheight : InInt32 dst.height) : Representable dst clip := by
  obtain ⟨hl, hlr, hr, ht, htb, hb⟩ := h.bounds
  unfold InInt32 at hwidth hheight
  refine ⟨hoffsets, hwidth, hheight, ?_, ?_⟩
  · unfold InInt32 Rect.width
    omega
  · unfold InInt32 Rect.height
    omega

/-- A stretch of a side, seen from the other end if the side is flipped. -/
def flipped (flip : Bool) (side l r : Int) : Int := if flip then side - r else l

/-- Where the part of a destination comes from, in the coordinates of the destination turned back.
-/
def Transform.turned (t : Transform) (dst part : Rect) : BltRect :=
  if t.ccw_rot_90 then
    ⟨flipped (!t.flip_v) dst.height part.t part.b, flipped t.flip_h dst.width part.l part.r,
      part.height, part.width⟩
  else
    ⟨flipped t.flip_h dst.width part.l part.r, flipped t.flip_v dst.height part.t part.b,
      part.width, part.height⟩

theorem transform_source_eq {dst part : Rect} (hl : 0 ≤ part.l) (hlr : part.l < part.r)
    (hr : part.r ≤ dst.width) (ht : 0 ≤ part.t) (htb : part.t < part.b)
    (hb : part.b ≤ dst.height) (hwidth : InInt32 dst.width) (hheight : InInt32 dst.height)
    (t : Transform) :
    transform_source t ⟨0, 0, dst.width, dst.height⟩ part.blt = t.turned dst part := by
  unfold InInt32 at hwidth hheight
  have hx : int32 (dst.width - (part.width + part.l)) = dst.width - part.r := by
    rw [show part.width + part.l = part.r by unfold Rect.width; omega]
    exact int32_of_inInt32 ⟨by omega, by omega⟩
  have hy : int32 (dst.height - (part.height + part.t)) = dst.height - part.b := by
    rw [show part.height + part.t = part.b by unfold Rect.height; omega]
    exact int32_of_inInt32 ⟨by omega, by omega⟩
  have hback : int32 (dst.height - (dst.height - part.b + part.height)) = part.t := by
    rw [show dst.height - (dst.height - part.b + part.height) = part.t by
      unfold Rect.height
      omega]
    exact int32_of_inInt32 ⟨by omega, by omega⟩
  obtain ⟨flip_h, flip_v, ccw_rot_90⟩ := t
  unfold transform_source Transform.turned flipped Rect.blt
  simp only [int32_sub_int32, hx, hy]
  cases ccw_rot_90 <;> cases flip_v <;> cases flip_h
  all_goals simp only [Bool.false_eq_true, if_false, if_true, Bool.not_false, Bool.not_true, hback,
    Int.add_comm part.t part.height, hy]

/-- The side of the destination that the source's width comes from, and its height. -/
def Transform.sides (t : Transform) (dst : Rect) : Int × Int :=
  if t.ccw_rot_90 then (dst.height, dst.width) else (dst.width, dst.height)

theorem set_rects_eq {src dst clip : Rect} (hsrc : InInt32 src.width ∧ InInt32 src.height)
    (h : Representable dst clip) (t : Transform) :
    set_rects src dst clip t = (do
      let h_rsf ← rescale_factor src.width (t.sides dst).1
      let v_rsf ← rescale_factor src.height (t.sides dst).2
      let turned := transform_source t ⟨0, 0, dst.width, dst.height⟩ (part dst clip).blt
      return (⟨int32 (rescale_offset h_rsf turned.x + src.l),
          int32 (rescale_offset v_rsf turned.y + src.t), rescale_length h_rsf turned.width,
          rescale_length v_rsf turned.height⟩,
        { (part dst clip).blt with
          x := int32 ((part dst clip).l + dst.l)
          y := int32 ((part dst clip).t + dst.t) })) := by
  have hclip := clip_destination_eq h
  have hwidth := int32_of_inInt32 h.width
  have hheight := int32_of_inInt32 h.height
  have hsource := int32_of_inInt32 hsrc.1
  have hsource' := int32_of_inInt32 hsrc.2
  unfold Rect.width at hwidth hsource
  unfold Rect.height at hheight hsource'
  unfold set_rects
  simp only [hclip]
  unfold Rect.width Rect.height Transform.sides
  simp only [hwidth, hheight, hsource, hsource']
  cases t.ccw_rot_90 <;> rfl

section Scaled
variable {source side : Int}

/-- The factor of a side that is not too long is a quotient of numbers that do not overflow. -/
theorem rescale_factor_eq (hsource : 1 ≤ source ∧ source ≤ 32767) (hside : 1 ≤ side) :
    rescale_factor source side = some (source * 65536 / side) := by
  have hpos : 0 ≤ source * 65536 / side := Int.ediv_nonneg (by omega) (by omega)
  have hle : source * 65536 / side ≤ source * 65536 := Int.ediv_le_self _ (by omega)
  unfold rescale_factor
  rw [if_neg (by omega), int32_of_inInt32 (x := source * 65536) ⟨by omega, by omega⟩,
    Int.tdiv_eq_ediv_of_nonneg (by omega), int32_of_inInt32 ⟨by omega, by omega⟩]
  unfold uint32
  rw [Int.emod_eq_of_lt hpos (by omega)]

/-- A stretch of a side is scaled without an overflow, and not past the end of the source. -/
theorem rescale_exact (hsource : 1 ≤ source ∧ source ≤ 32767) (hside : 1 ≤ side)
    {x length : Int} (hx : 0 ≤ x) (hlength : 0 < length) (hend : x + length ≤ side) :
    let rsf := source * 65536 / side
    rescale_offset rsf x = x * rsf / 65536 ∧
      rescale_length rsf length = (length * rsf + 32768) / 65536 ∧
      0 ≤ x * rsf / 65536 ∧ 0 ≤ (length * rsf + 32768) / 65536 ∧
      x * rsf / 65536 + (length * rsf + 32768) / 65536 ≤ source := by
  intro rsf
  have hrsf : 0 ≤ rsf := Int.ediv_nonneg (by omega) (by omega)
  have hx' : 0 ≤ x * rsf := Int.mul_nonneg hx hrsf
  have hlength' : 0 ≤ length * rsf := Int.mul_nonneg hlength.le hrsf
  have hsum : x * rsf + length * rsf ≤ source * 65536 :=
    calc
      x * rsf + length * rsf = (x + length) * rsf := (Int.add_mul _ _ _).symm
      _ ≤ side * rsf := Int.mul_le_mul_of_nonneg_right hend hrsf
      _ ≤ source * 65536 := Int.mul_ediv_self_le (by omega)
  refine ⟨?_, ?_, by omega, by omega, by omega⟩
  · unfold rescale_offset
    split
    · rw [int32_of_inInt32 ⟨by omega, by omega⟩]
    · next h =>
      rw [not_not.mp h]
      omega
  · unfold rescale_length
    split
    · rw [int32_of_inInt32 (x := length * rsf) ⟨by omega, by omega⟩,
        int32_of_inInt32 ⟨by omega, by omega⟩]
    · next h =>
      rw [not_not.mp h]
      omega

end Scaled

/-- The factor by which a side of the source is larger than one of the destination, rounded down to
sixteen bits behind the point. -/
def factor (source side : Int) : ℚ := ⌊(source : ℚ) * 65536 / side⌋ / 65536

theorem factor_eq (source : Int) {side : Int} (hside : 1 ≤ side) :
    factor source side = (source * 65536 / side : Int) / (65536 : ℕ) := by
  obtain ⟨n, rfl⟩ := Int.eq_ofNat_of_zero_le (show 0 ≤ side by omega)
  have hrsf : ⌊(source : ℚ) * 65536 / n⌋ = source * 65536 / (n : Int) := by
    exact_mod_cast Rat.floor_intCast_div_natCast (source * 65536) n
  unfold factor
  rw [Int.cast_natCast, hrsf]
  norm_num

theorem floor_factor (x source : Int) {side : Int} (hside : 1 ≤ side) :
    ⌊(x : ℚ) * factor source side⌋ = x * (source * 65536 / side) / 65536 := by
  rw [factor_eq source hside, ← mul_div_assoc, ← Int.cast_mul]
  exact Rat.floor_intCast_div_natCast _ _

theorem round_factor (length source : Int) {side : Int} (hside : 1 ≤ side) :
    round ((length : ℚ) * factor source side) =
      (length * (source * 65536 / side) + 32768) / 65536 := by
  have hhalf : (length : ℚ) * ((source * 65536 / side : Int) / (65536 : ℕ)) + 1 / 2 =
      ((length * (source * 65536 / side) + 32768 : Int) : ℚ) / (65536 : ℕ) := by
    push_cast
    ring
  rw [round_eq, factor_eq source hside, hhalf]
  exact Rat.floor_intCast_div_natCast _ _

/-- No side is empty or longer than 32767. -/
structure Rect.Short (rect : Rect) : Prop where
  width : 1 ≤ rect.width ∧ rect.width ≤ 32767
  height : 1 ≤ rect.height ∧ rect.height ≤ 32767

/-- The rectangle of a blit lies inside a rectangle. -/
structure BltRect.Within (rect : BltRect) (outer : Rect) : Prop where
  left : 0 ≤ rect.x - outer.l
  width : 0 ≤ rect.width
  right : rect.x + rect.width ≤ outer.r
  top : 0 ≤ rect.y - outer.t
  height : 0 ≤ rect.height
  bottom : rect.y + rect.height ≤ outer.b

/-- The stretch of a side that was turned back lies on it. -/
theorem flipped_bounds (flip : Bool) {side l r : Int} (hl : 0 ≤ l) (hr : r ≤ side) :
    0 ≤ flipped flip side l r ∧ flipped flip side l r + (r - l) ≤ side := by
  unfold flipped
  split
  · omega
  · omega

theorem Transform.turned_bounds (t : Transform) {dst clip : Rect} (h : Meets clip dst) :
    let turned := t.turned dst (part dst clip)
    0 ≤ turned.x ∧ 0 < turned.width ∧ turned.x + turned.width ≤ (t.sides dst).1 ∧
      0 ≤ turned.y ∧ 0 < turned.height ∧ turned.y + turned.height ≤ (t.sides dst).2 := by
  obtain ⟨hl, hlr, hr, ht, htb, hb⟩ := h.bounds
  have hwidth : 0 < (part dst clip).width := h.1
  have hheight : 0 < (part dst clip).height := h.2
  unfold Transform.turned Transform.sides
  split
  · have hx := flipped_bounds (!t.flip_v) ht hb
    have hy := flipped_bounds t.flip_h hl hr
    exact ⟨hx.1, hheight, hx.2, hy.1, hwidth, hy.2⟩
  · have hx := flipped_bounds t.flip_h hl hr
    have hy := flipped_bounds t.flip_v ht hb
    exact ⟨hx.1, hwidth, hx.2, hy.1, hheight, hy.2⟩

theorem Rect.Short.sides {dst : Rect} (h : dst.Short) (t : Transform) :
    1 ≤ (t.sides dst).1 ∧ 1 ≤ (t.sides dst).2 := by
  unfold Transform.sides
  split
  · exact ⟨h.height.1, h.width.1⟩
  · exact ⟨h.width.1, h.height.1⟩

theorem Rect.Short.inInt32 {rect : Rect} (h : rect.Short) :
    InInt32 rect.width ∧ InInt32 rect.height := by
  obtain ⟨hwidth, hheight⟩ := h
  unfold InInt32
  omega

/-- The source of a blit lies inside the source rectangle, with the exact floor and the exact
rounding of its offsets and lengths. -/
theorem source_within_source_rect {src dst clip : Rect} (hint : src.OfInt) (hsrc : src.Short)
    (hdst : dst.Short) (hmeets : Meets clip dst) (hoffsets : Offsets dst clip) (t : Transform) :
    ∃ s d, set_rects src dst clip t = some (s, d) ∧ s.Within src ∧
      let turned := t.turned dst (part dst clip)
      let h_factor := factor src.width (t.sides dst).1
      let v_factor := factor src.height (t.sides dst).2
      s.x = src.l + ⌊turned.x * h_factor⌋ ∧ s.width = round (turned.width * h_factor) ∧
        s.y = src.t + ⌊turned.y * v_factor⌋ ∧ s.height = round (turned.height * v_factor) := by
  obtain ⟨hl, hlr, hr, ht, htb, hb⟩ := hmeets.bounds
  have hrep := hmeets.representable hoffsets hdst.inInt32.1 hdst.inInt32.2
  have hsides := hdst.sides t
  have hturned := transform_source_eq hl hlr hr ht htb hb hrep.width hrep.height t
  obtain ⟨hx, hwidth, hright, hy, hheight, hbottom⟩ := t.turned_bounds hmeets
  obtain ⟨hoffset_x, hlength_x, hx₀, hw₀, hend_x⟩ :=
    rescale_exact hsrc.width hsides.1 hx hwidth hright
  obtain ⟨hoffset_y, hlength_y, hy₀, hh₀, hend_y⟩ :=
    rescale_exact hsrc.height hsides.2 hy hheight hbottom
  have hsrc_r : src.r = src.l + src.width := by unfold Rect.width; omega
  have hsrc_b : src.b = src.t + src.height := by unfold Rect.height; omega
  obtain ⟨hint_l, hint_t, hint_r, hint_b⟩ := hint
  unfold InInt32 at hint_l hint_t hint_r hint_b
  have heq := set_rects_eq hsrc.inInt32 hrep t
  rw [rescale_factor_eq hsrc.width hsides.1, rescale_factor_eq hsrc.height hsides.2, hturned] at heq
  simp only [Option.bind_eq_bind, Option.bind_some, Option.pure_def] at heq
  have hleft : ∀ x, 0 ≤ x → x ≤ src.width → int32 (x + src.l) = x + src.l := fun x h₀ h₁ =>
    int32_of_inInt32 ⟨by omega, by omega⟩
  have htop : ∀ y, 0 ≤ y → y ≤ src.height → int32 (y + src.t) = y + src.t := fun y h₀ h₁ =>
    int32_of_inInt32 ⟨by omega, by omega⟩
  refine ⟨_, _, heq, ?_⟩
  dsimp only
  rw [hoffset_x, hlength_x, hoffset_y, hlength_y, floor_factor _ _ hsides.1,
    round_factor _ _ hsides.1, floor_factor _ _ hsides.2, round_factor _ _ hsides.2,
    hleft _ hx₀ (by omega), htop _ hy₀ (by omega)]
  refine ⟨⟨?_, hw₀, ?_, ?_, hh₀, ?_⟩, Int.add_comm _ _, rfl, Int.add_comm _ _, rfl⟩
  all_goals
    dsimp only
    omega

theorem source_within_source_rect_sample :
    ∃ s d, set_rects ⟨5, 5, 8, 6⟩ ⟨0, 0, 2, 7⟩ ⟨-1, 1, 2, 3⟩ ⟨true, false, true⟩ = some (s, d) ∧
      s.Within ⟨5, 5, 8, 6⟩ := by
  have hint : Rect.OfInt ⟨5, 5, 8, 6⟩ := ⟨by decide, by decide, by decide, by decide⟩
  have hmeets : Meets ⟨-1, 1, 2, 3⟩ ⟨0, 0, 2, 7⟩ := by decide
  obtain ⟨s, d, h, hwithin, -⟩ := source_within_source_rect hint ⟨by decide, by decide⟩
    ⟨by decide, by decide⟩ hmeets ⟨by decide, by decide, by decide, by decide⟩ ⟨true, false, true⟩
  exact ⟨s, d, h, hwithin⟩

/-- The distance of a clip that starts far to the left of the destination is no `int`: the source
starts in front of the source rectangle. -/
theorem far_clip_leaves_source_rect :
    ∃ src dst clip : Rect, src.OfInt ∧ dst.OfInt ∧ clip.OfInt ∧ src.Short ∧ dst.Short ∧
      Meets clip dst ∧ ∃ s d, set_rects src dst clip ⟨false, false, false⟩ = some (s, d) ∧
        s.x - src.l < 0 :=
  ⟨⟨0, 0, 2, 1⟩, ⟨1, 1, 2, 2⟩, ⟨-2147483648, 0, 2, 2⟩,
    ⟨by decide, by decide, by decide, by decide⟩, ⟨by decide, by decide, by decide, by decide⟩,
    ⟨by decide, by decide, by decide, by decide⟩, ⟨by decide, by decide⟩, ⟨by decide, by decide⟩,
    by decide, _, _, rfl, by decide⟩

end Codinalte.Copybit
