import Codinalte.Copybit.Containment
import Codinalte.Copybit.Stretch
import Mathlib.Tactic.MkIffOfInductiveProp

/-! Which pixels of the source a clipped blit writes, beside those of the blit without a clip. -/

namespace Codinalte.Copybit
open Rect

/-- Where a pixel of a source goes: the flips come first, and the turn counter clockwise after
them. -/
def Transform.forward (t : Transform) (width height : Int) (pixel : Int × Int) : Int × Int :=
  let u := if t.flip_h then width - 1 - pixel.1 else pixel.1
  let v := if t.flip_v then height - 1 - pixel.2 else pixel.2
  if t.ccw_rot_90 then (v, width - 1 - u) else (u, v)

/-- The size of a source after the turn. -/
def Transform.size (t : Transform) (width height : Int) : Int × Int :=
  if t.ccw_rot_90 then (height, width) else (width, height)

/-- A blit without a change of scale writes a pixel of the source to a pixel of the destination. -/
@[mk_iff] structure Blits (t : Transform) (src dst : BltRect) (source target : Int × Int) : Prop where
  scale : (dst.width, dst.height) = t.size src.width src.height
  left : 0 ≤ source.1 - src.x
  right : source.1 - src.x < src.width
  top : 0 ≤ source.2 - src.y
  bottom : source.2 - src.y < src.height
  lands : (target.1 - dst.x, target.2 - dst.y) =
    t.forward src.width src.height (source.1 - src.x, source.2 - src.y)

def Rect.Contains (rect : Rect) (pixel : Int × Int) : Prop :=
  rect.l ≤ pixel.1 ∧ pixel.1 < rect.r ∧ rect.t ≤ pixel.2 ∧ pixel.2 < rect.b

/-- In the clip the clipped blit writes what the blit without a clip does. -/
def SamePixels (t : Transform) (src dst clip : Rect) : Prop :=
  ∃ s d, set_rects src dst clip t = some (s, d) ∧
    ∀ target, clip.Contains target → dst.Contains target →
      ∀ source, Blits t src.blt dst.blt source target → Blits t s d source target

/-- The part in the clip is in the middle of the destination. -/
def Centred (dst clip : Rect) : Prop :=
  (part dst clip).l + (part dst clip).r = dst.width ∧
    (part dst clip).t + (part dst clip).b = dst.height

/-- The quotient that becomes the factor of unit scale on a side that is longer than 32767. -/
theorem long_quotient {side : Int} (hlong : 32767 < side) :
    ∃ q, Int.tdiv (int32 (side * 65536)) side = q ∧ -65536 ≤ q ∧ q ≤ 32767 ∧
      -2147483648 ≤ q * side ∧ q * side < 2147483648 := by
  have hleast : -2147483648 ≤ int32 (side * 65536) := Int.le_bmod (by decide)
  have hmost : int32 (side * 65536) < 2147483648 := Int.bmod_lt (by decide)
  rcases Int.lt_or_le (int32 (side * 65536)) 0 with hneg | hpos
  · obtain ⟨b, hb⟩ : ∃ b, int32 (side * 65536) = -b := ⟨_, (Int.neg_neg _).symm⟩
    have hquotient : 0 ≤ b / side := Int.ediv_nonneg (by omega) (by omega)
    have hle : b / side * side ≤ b := Int.ediv_mul_le b (by omega)
    have hsmall : b / side ≤ 65536 := by
      by_contra h
      have := Int.mul_le_mul (show 65537 ≤ b / side by omega) (show 32768 ≤ side by omega)
        (by omega) hquotient
      omega
    refine ⟨-(b / side), ?_, by omega, by omega, ?_, ?_⟩
    · rw [hb, Int.neg_tdiv, Int.tdiv_eq_ediv_of_nonneg (by omega)]
    · rw [Int.neg_mul]
      omega
    · rw [Int.neg_mul]
      have := Int.mul_nonneg hquotient (show 0 ≤ side by omega)
      omega
  · have hlonger : 65536 ≤ side := by
      by_contra h
      have hwrapped : int32 (side * 65536) = side * 65536 - 4294967296 := by
        unfold int32
        rw [← Int.sub_bmod_right]
        exact int32_of_inInt32 ⟨by omega, by omega⟩
      omega
    obtain ⟨a, ha⟩ : ∃ a, int32 (side * 65536) = a := ⟨_, rfl⟩
    rw [ha] at hpos hmost ⊢
    have hquotient : 0 ≤ a / side := Int.ediv_nonneg hpos (by omega)
    have hle : a / side * side ≤ a := Int.ediv_mul_le a (by omega)
    refine ⟨a / side, Int.tdiv_eq_ediv_of_nonneg hpos, by omega, ?_, ?_, by omega⟩
    · by_contra h
      have := Int.mul_le_mul (show 32768 ≤ a / side by omega) hlonger (by omega) hquotient
      omega
    · have := Int.mul_nonneg hquotient (show 0 ≤ side by omega)
      omega

/-- On such a side no length stays what it is. -/
theorem rescale_length_long {side length rsf : Int} (hlong : 32767 < side) (hpos : 0 < length)
    (hle : length ≤ side) (h : rescale_factor side side = some rsf) :
    rescale_length rsf length ≠ length := by
  obtain ⟨q, hq, hleast, hmost, hbelow, habove⟩ := long_quotient hlong
  unfold rescale_factor at h
  rw [if_neg (by omega), hq, int32_of_inInt32 ⟨by omega, by omega⟩] at h
  have hrsf : uint32 q = rsf := Option.some.inj h
  have hne : rsf ≠ 65536 := by
    rw [← hrsf]
    unfold uint32
    omega
  have hproduct : int32 (length * rsf) = int32 (length * q) := by
    rw [← hrsf]
    exact Int.mul_emod_bmod _ _
  have hupper : length * q ≤ length * 32767 := Int.mul_le_mul_of_nonneg_left hmost hpos.le
  have hrange : -2147483648 ≤ length * q ∧ length * q < 2147483648 := by
    rcases Int.lt_or_le q 0 with hneg | hnonneg
    · have hlow : q * side ≤ q * length := Int.mul_le_mul_of_nonpos_left hneg.le hle
      have hhigh : q * length ≤ 0 := Int.mul_nonpos_of_nonpos_of_nonneg hneg.le hpos.le
      rw [Int.mul_comm length]
      omega
    · have hlow : 0 ≤ q * length := Int.mul_nonneg hnonneg hpos.le
      have hhigh : q * length ≤ q * side := Int.mul_le_mul_of_nonneg_left hle hnonneg
      rw [Int.mul_comm length]
      omega
  unfold rescale_length
  rw [if_pos hne, hproduct, int32_of_inInt32 hrange]
  rcases Int.lt_or_le (length * q + 32768) 2147483648 with hfits | hwraps
  · rw [int32_of_inInt32 ⟨by omega, hfits⟩]
    omega
  · have hwrapped : int32 (length * q + 32768) = length * q + 32768 - 4294967296 := by
      unfold int32
      rw [← Int.sub_bmod_right]
      exact int32_of_inInt32 ⟨by omega, by omega⟩
    rw [hwrapped]
    omega

theorem unit_factor {side : Int} (hside : 1 ≤ side ∧ side ≤ 32767) :
    rescale_factor side side = some 65536 := by
  rw [rescale_factor_eq hside hside.1, Int.mul_ediv_cancel_left _ (by omega)]

/-- Every pixel of the destination comes from one of the source. -/
theorem exists_blits (t : Transform) {src dst : Rect}
    (hunit : (dst.width, dst.height) = t.size src.width src.height) {target : Int × Int}
    (h : dst.Contains target) : ∃ source, Blits t src.blt dst.blt source target := by
  obtain ⟨hl, hr, ht, hb⟩ := h
  obtain ⟨flip_h, flip_v, ccw_rot_90⟩ := t
  have hsize := hunit
  unfold Transform.size Rect.width Rect.height at hsize
  let turned : Int × Int :=
    if ccw_rot_90 then (src.width - 1 - (target.2 - dst.t), target.1 - dst.l)
    else (target.1 - dst.l, target.2 - dst.t)
  refine ⟨(src.l + if flip_h then src.width - 1 - turned.1 else turned.1,
    src.t + if flip_v then src.height - 1 - turned.2 else turned.2), hunit, ?_, ?_, ?_, ?_, ?_⟩
  all_goals
    simp only [Rect.blt, Transform.forward, Rect.width, Rect.height, turned]
    cases flip_h <;> cases flip_v <;> cases ccw_rot_90
    all_goals
      simp only [Bool.false_eq_true, if_false, if_true, Prod.mk.injEq] at hsize ⊢
      omega

section Unit
variable {src dst clip : Rect} {t : Transform}

theorem sides_of_unit (hunit : (dst.width, dst.height) = t.size src.width src.height) :
    t.sides dst = (src.width, src.height) := by
  unfold Transform.size at hunit
  unfold Transform.sides
  split at hunit
  · rw [if_pos ‹_›]
    exact congrArg Prod.swap hunit
  · rw [if_neg ‹_›]
    exact hunit

/-- What holds of the sides of the source holds of those of the destination. -/
theorem unit_sides (hunit : (dst.width, dst.height) = t.size src.width src.height)
    (P : Int → Prop) : P src.width ∧ P src.height ↔ P dst.width ∧ P dst.height := by
  unfold Transform.size at hunit
  split at hunit
  · obtain ⟨hwidth, hheight⟩ := Prod.mk.inj hunit
    rw [hwidth, hheight, and_comm]
  · obtain ⟨hwidth, hheight⟩ := Prod.mk.inj hunit
    rw [hwidth, hheight]

/-- What is written lies in the destination. -/
theorem Blits.target_bounds {source target : Int × Int}
    (h : Blits t src.blt dst.blt source target) :
    (0 ≤ target.1 - dst.l ∧ target.1 - dst.l < dst.width) ∧
      0 ≤ target.2 - dst.t ∧ target.2 - dst.t < dst.height := by
  obtain ⟨hscale, hleft, hright, htop, hbottom, hlands⟩ := h
  obtain ⟨flip_h, flip_v, ccw_rot_90⟩ := t
  simp only [Transform.forward, Transform.size, Rect.blt] at hscale hleft hright htop hbottom hlands
  cases ccw_rot_90 <;> cases flip_h <;> cases flip_v
  all_goals
    simp only [Bool.false_eq_true, if_false, if_true, Prod.mk.injEq] at hscale hlands
    omega

/-- The blit of the part in the clip takes a pixel from where the whole blit does, unless a turn
comes after one flip and the part is not in the middle. -/
theorem blits_part (hunit : (dst.width, dst.height) = t.size src.width src.height)
    {source target : Int × Int} (hclip : clip.Contains target)
    (h : Blits t src.blt dst.blt source target) :
    Blits t ⟨(t.turned dst (part dst clip)).x + src.l, (t.turned dst (part dst clip)).y + src.t,
        (t.turned dst (part dst clip)).width, (t.turned dst (part dst clip)).height⟩
      ⟨(part dst clip).l + dst.l, (part dst clip).t + dst.t, (part dst clip).width,
        (part dst clip).height⟩ source target ↔
    (t.ccw_rot_90 = true → t.flip_h ≠ t.flip_v → Centred dst clip) := by
  obtain ⟨⟨hx, hx'⟩, hy, hy'⟩ := h.target_bounds
  obtain ⟨-, -, -, -, -, hlands⟩ := h
  obtain ⟨hl, hr, ht, hb⟩ := hclip
  -- the pixel lies in the part, on either axis
  have hpart_l : (part dst clip).l ≤ target.1 - dst.l := max_le hx (Int.sub_le_sub_right hl _)
  have hpart_r : target.1 - dst.l < (part dst clip).r :=
    lt_min hx' (Int.sub_lt_sub_right hr _)
  have hpart_t : (part dst clip).t ≤ target.2 - dst.t := max_le hy (Int.sub_le_sub_right ht _)
  have hpart_b : target.2 - dst.t < (part dst clip).b :=
    lt_min hy' (Int.sub_lt_sub_right hb _)
  clear hl hr ht hb hx hx' hy hy'
  unfold Centred
  generalize part dst clip = p at *
  have hwidth : p.width = p.r - p.l := rfl
  have hheight : p.height = p.b - p.t := rfl
  obtain ⟨flip_h, flip_v, ccw_rot_90⟩ := t
  simp only [blits_iff, Transform.turned, Transform.forward, Transform.size, Rect.blt, flipped,
    hwidth, hheight] at hunit hlands ⊢
  cases ccw_rot_90 <;> cases flip_h <;> cases flip_v
  all_goals
    simp only [Bool.false_eq_true, Bool.true_eq_false, if_false, if_true, Bool.not_false,
      Bool.not_true, Prod.mk.injEq, ne_eq, not_true, not_false_eq_true, false_implies, true_implies,
      implies_true, iff_true, true_and] at hunit hlands ⊢
    omega

/-- The rectangles of a clipped blit of unit scale, with the factors still in them. -/
theorem set_rects_of_unit (hunit : (dst.width, dst.height) = t.size src.width src.height)
    (hmeets : Meets clip dst) (h : Representable dst clip) :
    set_rects src dst clip t = (do
      let h_rsf ← rescale_factor src.width src.width
      let v_rsf ← rescale_factor src.height src.height
      let turned := t.turned dst (part dst clip)
      return (⟨int32 (rescale_offset h_rsf turned.x + src.l),
          int32 (rescale_offset v_rsf turned.y + src.t), rescale_length h_rsf turned.width,
          rescale_length v_rsf turned.height⟩,
        { (part dst clip).blt with
          x := int32 ((part dst clip).l + dst.l)
          y := int32 ((part dst clip).t + dst.t) })) := by
  obtain ⟨hl, hlr, hr, ht, htb, hb⟩ := hmeets.bounds
  have hsides := sides_of_unit hunit
  have hsrc : InInt32 src.width ∧ InInt32 src.height :=
    (unit_sides hunit InInt32).mpr ⟨h.width, h.height⟩
  rw [set_rects_eq hsrc h, transform_source_eq hl hlr hr ht htb hb h.width h.height, hsides]

/-- A blit that is still of unit scale has no side longer than 32767. -/
theorem short_of_scale (hunit : (dst.width, dst.height) = t.size src.width src.height)
    (hmeets : Meets clip dst) (h : Representable dst clip) {s d : BltRect}
    (hset : set_rects src dst clip t = some (s, d))
    (hscale : (d.width, d.height) = t.size s.width s.height) :
    dst.width ≤ 32767 ∧ dst.height ≤ 32767 := by
  obtain ⟨hx, hwidth, hright, hy, hheight, hbottom⟩ := t.turned_bounds hmeets
  rw [sides_of_unit hunit] at hright hbottom
  rw [set_rects_of_unit hunit hmeets h] at hset
  obtain ⟨h_rsf, hh, hset⟩ := Option.bind_eq_some_iff.mp hset
  obtain ⟨v_rsf, hv, hset⟩ := Option.bind_eq_some_iff.mp hset
  obtain ⟨rfl, rfl⟩ := Prod.mk.inj (Option.some.inj hset)
  have hsame : rescale_length h_rsf (t.turned dst (part dst clip)).width =
        (t.turned dst (part dst clip)).width ∧
      rescale_length v_rsf (t.turned dst (part dst clip)).height =
        (t.turned dst (part dst clip)).height := by
    unfold Transform.size Rect.blt Transform.turned at hscale
    unfold Transform.turned
    split at hscale
    · rw [if_pos ‹_›]
      exact ⟨(Prod.mk.inj hscale).2.symm, (Prod.mk.inj hscale).1.symm⟩
    · rw [if_neg ‹_›]
      exact ⟨(Prod.mk.inj hscale).1.symm, (Prod.mk.inj hscale).2.symm⟩
  refine (unit_sides hunit (· ≤ 32767)).mp ⟨not_lt.mp fun hlong => ?_, not_lt.mp fun hlong => ?_⟩
  · exact rescale_length_long hlong hwidth (by omega) hh hsame.1
  · exact rescale_length_long hlong hheight (by omega) hv hsame.2

/-- Of a destination that is short the clipped blit has the numbers of the part in the clip. -/
theorem set_rects_short (hunit : (dst.width, dst.height) = t.size src.width src.height)
    (hsrc : src.OfInt) (hdst : dst.OfInt) (hmeets : Meets clip dst) (h : Representable dst clip)
    (hwidth : dst.width ≤ 32767) (hheight : dst.height ≤ 32767) :
    set_rects src dst clip t =
      some (⟨(t.turned dst (part dst clip)).x + src.l, (t.turned dst (part dst clip)).y + src.t,
          (t.turned dst (part dst clip)).width, (t.turned dst (part dst clip)).height⟩,
        ⟨(part dst clip).l + dst.l, (part dst clip).t + dst.t, (part dst clip).width,
          (part dst clip).height⟩) := by
  obtain ⟨hl, hlr, hr, ht, htb, hb⟩ := hmeets.bounds
  obtain ⟨hx, hpart_width, hright, hy, hpart_height, hbottom⟩ := t.turned_bounds hmeets
  have hsides := sides_of_unit hunit
  have hshort : src.width ≤ 32767 ∧ src.height ≤ 32767 :=
    (unit_sides hunit (· ≤ 32767)).mpr ⟨hwidth, hheight⟩
  rw [hsides] at hright hbottom
  obtain ⟨hsrc_l, hsrc_t, hsrc_r, hsrc_b⟩ := hsrc
  obtain ⟨hdst_l, hdst_t, hdst_r, hdst_b⟩ := hdst
  unfold InInt32 at hsrc_l hsrc_t hsrc_r hsrc_b hdst_l hdst_t hdst_r hdst_b
  have hsrc_width : src.r = src.l + src.width := by unfold Rect.width; omega
  have hsrc_height : src.b = src.t + src.height := by unfold Rect.height; omega
  have hdst_width : dst.r = dst.l + dst.width := by unfold Rect.width; omega
  have hdst_height : dst.b = dst.t + dst.height := by unfold Rect.height; omega
  rw [set_rects_of_unit hunit hmeets h, unit_factor ⟨by omega, hshort.1⟩,
    unit_factor ⟨by omega, hshort.2⟩]
  simp only [Option.bind_eq_bind, Option.bind_some, Option.pure_def, rescale_offset, rescale_length,
    ne_eq, not_true, if_false]
  rw [int32_of_inInt32 (x := (t.turned dst (part dst clip)).x + src.l) ⟨by omega, by omega⟩,
    int32_of_inInt32 (x := (t.turned dst (part dst clip)).y + src.t) ⟨by omega, by omega⟩,
    int32_of_inInt32 (x := (part dst clip).l + dst.l) ⟨by omega, by omega⟩,
    int32_of_inInt32 (x := (part dst clip).t + dst.t) ⟨by omega, by omega⟩]
  rfl

end Unit

/-- A clipped blit of unit scale writes in the clip what the whole blit does if and only if no side
is longer than 32767 and no turn comes after one flip while the part in the clip is not in the
middle. -/
theorem same_pixels_iff {src dst clip : Rect} {t : Transform} (hsrc : src.OfInt) (hdst : dst.OfInt)
    (hunit : (dst.width, dst.height) = t.size src.width src.height) (hwidth : InInt32 dst.width)
    (hheight : InInt32 dst.height) (hmeets : Meets clip dst) (hoffsets : Offsets dst clip) :
    SamePixels t src dst clip ↔ dst.width ≤ 32767 ∧ dst.height ≤ 32767 ∧
      (t.ccw_rot_90 = true → t.flip_h ≠ t.flip_v → Centred dst clip) := by
  have hrep := hmeets.representable hoffsets hwidth hheight
  constructor
  · rintro ⟨s, d, hset, hsame⟩
    obtain ⟨hl, hlr, hr, ht, htb, hb⟩ := hmeets.bounds
    have hcorner : clip.Contains ((part dst clip).l + dst.l, (part dst clip).t + dst.t) ∧
        dst.Contains ((part dst clip).l + dst.l, (part dst clip).t + dst.t) := by
      unfold part intersect Rect.width Rect.height at *
      unfold Rect.Contains
      dsimp only at *
      omega
    obtain ⟨source, hsource⟩ := exists_blits t hunit hcorner.2
    have hblits := hsame _ hcorner.1 hcorner.2 source hsource
    obtain ⟨hw, hh⟩ := short_of_scale hunit hmeets hrep hset hblits.scale
    rw [set_rects_short hunit hsrc hdst hmeets hrep hw hh] at hset
    obtain ⟨rfl, rfl⟩ := Prod.mk.inj (Option.some.inj hset)
    exact ⟨hw, hh, (blits_part hunit hcorner.1 hsource).mp hblits⟩
  · rintro ⟨hw, hh, hcentred⟩
    refine ⟨_, _, set_rects_short hunit hsrc hdst hmeets hrep hw hh, fun target hclip _ source h => ?_⟩
    exact (blits_part hunit hclip h).mpr hcentred

theorem same_pixels_sample :
    SamePixels ⟨true, false, true⟩ ⟨0, 0, 2, 4⟩ ⟨10, 10, 14, 12⟩ ⟨11, 10, 13, 12⟩ :=
  (same_pixels_iff ⟨by decide, by decide, by decide, by decide⟩
    ⟨by decide, by decide, by decide, by decide⟩ rfl (by decide) (by decide) (by decide)
    ⟨by decide, by decide, by decide, by decide⟩).mpr ⟨by decide, by decide, fun _ _ => ⟨rfl, rfl⟩⟩

/-- The turn with a horizontal flip is one with a vertical flip; in the left half of its destination
the clipped blit takes the upper half of the source in place of the lower one. -/
theorem half_of_turned_flip :
    ∃ value : BitVec 32, value = copybit_transform_flip_h ||| copybit_transform_rot_90 ∧
      (copybit_set_parameter ⟨0, 0, 0⟩ copybit_transform value.toInt).2 = .ok ∧
      ¬ SamePixels
        (.of (copybit_set_parameter ⟨0, 0, 0⟩ copybit_transform value.toInt).1.transform)
        ⟨0, 0, 1, 2⟩ ⟨0, 0, 2, 1⟩ ⟨0, 0, 1, 1⟩ := by
  refine ⟨_, rfl, rfl, ?_⟩
  rintro ⟨s, d, hset, hsame⟩
  obtain ⟨rfl, rfl⟩ := Prod.mk.inj (Option.some.inj hset)
  have hwhole : Blits ⟨false, true, true⟩ (Rect.blt ⟨0, 0, 1, 2⟩) (Rect.blt ⟨0, 0, 2, 1⟩) (0, 1)
      (0, 0) :=
    ⟨rfl, by decide, by decide, by decide, by decide, rfl⟩
  have hclipped := hsame (0, 0) ⟨by decide, by decide, by decide, by decide⟩
    ⟨by decide, by decide, by decide, by decide⟩ (0, 1) hwhole
  exact absurd hclipped.bottom (by decide)

end Codinalte.Copybit
