import Codinalte.Copybit.Containment
import Codinalte.Copybit.Stretch

/-! When a stretch divides by no zero and makes only requests for blits of a positive size. -/

namespace Codinalte.Copybit
open Rect

section Length
variable {source side length : Int}

/-- The length in the source of a part of the destination, where no number overflows. -/
def sourceLength (source side length : Int) : Int :=
  (length * (source * 65536 / side) + 32768) / 65536

/-- The length in the source is rounded to zero. -/
def Vanishes (source side length : Int) : Prop :=
  if source = side then length = 0
  else -32768 ≤ int32 (length * (source * 65536 / side)) ∧
    int32 (length * (source * 65536 / side)) < 32768

/-- A part that is not empty has some length in the source. -/
def Kept (source side length : Int) : Prop := 0 < length → ¬ Vanishes source side length

/-- A part that is not empty is stretched less than ninefold. -/
def InLimits (source side length : Int) : Prop :=
  0 < length →
    sourceLength source side length < 9 * length ∧ length < 9 * sourceLength source side length

instance : Decidable (Vanishes source side length) := by
  unfold Vanishes
  infer_instance

instance : Decidable (Kept source side length) := inferInstanceAs (Decidable (_ → _))

instance : Decidable (InLimits source side length) := inferInstanceAs (Decidable (_ → _))

theorem kept_of_nonpos (h : length ≤ 0) : Kept source side length :=
  fun hpos => absurd hpos h.not_gt

theorem inLimits_of_nonpos (h : length ≤ 0) : InLimits source side length :=
  fun hpos => absurd hpos h.not_gt

theorem factor_unit (hsource : 1 ≤ source ∧ source ≤ 32767) (hside : 1 ≤ side) :
    source * 65536 / side = 65536 ↔ source = side := by
  rw [Int.ediv_eq_iff_of_pos (by omega)]
  omega

theorem vanishes_iff (hsource : 1 ≤ source ∧ source ≤ 32767) (hside : 1 ≤ side) :
    rescale_length (source * 65536 / side) length = 0 ↔ Vanishes source side length := by
  unfold rescale_length Vanishes
  simp only [ne_eq, factor_unit hsource hside]
  have hleast : -2147483648 ≤ int32 (length * (source * 65536 / side)) := Int.le_bmod (by decide)
  have hmost : int32 (length * (source * 65536 / side)) < 2147483648 := Int.bmod_lt (by decide)
  generalize int32 (length * (source * 65536 / side)) = p at *
  by_cases hunit : source = side
  · rw [if_neg (not_not.mpr hunit), if_pos hunit]
  · rw [if_pos hunit, if_neg hunit]
    rcases Int.lt_or_le (p + 32768) 2147483648 with hfits | hwraps
    · rw [int32_of_inInt32 ⟨by omega, hfits⟩]
      omega
    · have hwrapped : int32 (p + 32768) = p + 32768 - 4294967296 := by
        unfold int32
        rw [← Int.sub_bmod_right]
        exact int32_of_inInt32 ⟨by omega, by omega⟩
      omega

theorem rescale_length_eq (hsource : 1 ≤ source ∧ source ≤ 32767) (hside : 1 ≤ side)
    (hpos : 0 < length) (hle : length ≤ side) :
    rescale_length (source * 65536 / side) length = sourceLength source side length ∧
      0 ≤ sourceLength source side length := by
  obtain ⟨-, hlength, -, hnonneg, -⟩ := rescale_exact hsource hside (Int.le_refl 0) hpos
    (by omega)
  exact ⟨hlength, hnonneg⟩

theorem check_length_pos {s l : Int} (hl : 0 < l) (hs : 0 < s) :
    check_length s l = some (decide (s < 9 * l ∧ l < 9 * s)) := by
  unfold check_length minification_limit magnification_limit
  split
  · rw [if_neg (by omega), Int.tdiv_eq_ediv_of_nonneg hs.le]
    have h := Int.le_ediv_iff_mul_le (c := l) (a := 9) (b := s) hl
    congr 1
    simp only [decide_eq_decide]
    omega
  · split
    · rw [if_neg (by omega), Int.tdiv_eq_ediv_of_nonneg hl.le]
      have h := Int.le_ediv_iff_mul_le (c := s) (a := 9) (b := l) hs
      congr 1
      simp only [decide_eq_decide]
      omega
    · rw [eq_comm]
      simp only [Option.some.injEq, decide_eq_true_eq]
      omega

theorem check_length_zero {l : Int} (hl : 0 < l) : check_length 0 l = none := by
  unfold check_length
  rw [if_neg (by omega), if_pos hl, if_pos rfl]

/-- An inverted part is never out of the limits. -/
theorem check_length_neg {s l : Int} (hl : l < 0) : check_length s l = some true := by
  have hsmall : ∀ {a b : Int}, a < 0 → b < a → Int.tdiv a b = 0 := fun {a b} ha hb => by
    rw [← Int.neg_tdiv_neg]
    exact Int.tdiv_eq_zero_of_lt (by omega) (by omega)
  unfold check_length minification_limit magnification_limit
  split
  · next hmore =>
    have hquotient : Int.tdiv s l ≤ 0 := by
      rcases Int.lt_or_le s 0 with hneg | hnonneg
      · exact (hsmall hneg hmore).le
      · exact Int.tdiv_nonpos_of_nonneg_of_nonpos hnonneg hl.le
    rw [if_neg (by omega), decide_eq_true (by omega)]
  · split
    · next hless =>
      rw [if_neg (by omega), hsmall hl hless]
      rfl
    · rfl

/-- What the check says of a part that belongs to a length in the source. -/
theorem check_length_rescaled (hsource : 1 ≤ source ∧ source ≤ 32767) (hside : 1 ≤ side)
    (hle : length ≤ side) :
    check_length (rescale_length (source * 65536 / side) length) length =
      if Kept source side length then some (decide (InLimits source side length)) else none := by
  rcases Int.lt_trichotomy length 0 with hneg | rfl | hpos
  · rw [check_length_neg hneg, if_pos (kept_of_nonpos hneg.le), decide_eq_true (inLimits_of_nonpos hneg.le)]
  · have hzero : rescale_length (source * 65536 / side) 0 = 0 := by
      unfold rescale_length
      rw [Int.zero_mul]
      split <;> rfl
    rw [hzero, if_pos (kept_of_nonpos le_rfl), decide_eq_true (inLimits_of_nonpos le_rfl)]
    rfl
  · obtain ⟨hlength, hnonneg⟩ := rescale_length_eq hsource hside hpos hle
    have hvanishes : rescale_length (source * 65536 / side) length = 0 ↔
        Vanishes source side length := vanishes_iff hsource hside
    rw [hlength] at hvanishes ⊢
    split
    · next hkept =>
      have hs : 0 < sourceLength source side length := by
        have hne := mt hvanishes.mp (hkept hpos)
        omega
      rw [check_length_pos hpos hs]
      congr 1
      exact decide_eq_decide.mpr ⟨fun h _ => h, fun h => h hpos⟩
    · next hlost =>
      have hs : sourceLength source side length = 0 := by
        by_contra hne
        exact hlost fun _ => mt hvanishes.mpr hne
      rw [hs, check_length_zero hpos]

end Length

section Clip
variable (src dst : Rect) (t : Transform) (clip : Rect)

/-- The limits are checked without a division by zero: a part that is not empty has some width in
the source, and some height if its width is in the limits. -/
def Undivided : Prop :=
  Kept src.width (t.sides dst).1 (t.sides (part dst clip)).1 ∧
    (InLimits src.width (t.sides dst).1 (t.sides (part dst clip)).1 →
      Kept src.height (t.sides dst).2 (t.sides (part dst clip)).2)

def WithinLimits : Prop :=
  InLimits src.width (t.sides dst).1 (t.sides (part dst clip)).1 ∧
    InLimits src.height (t.sides dst).2 (t.sides (part dst clip)).2

/-- The part is not empty, or it counts as empty. -/
def Proper : Prop :=
  Meets clip dst ∨ (part dst clip).width = 0 ∨ (part dst clip).height = 0 ∨
    Vanishes src.width (t.sides dst).1 (t.sides (part dst clip)).1 ∨
      Vanishes src.height (t.sides dst).2 (t.sides (part dst clip)).2

instance : Decidable (Undivided src dst t clip) := inferInstanceAs (Decidable (_ ∧ (_ → _)))

instance : Decidable (WithinLimits src dst t clip) := inferInstanceAs (Decidable (_ ∧ _))

instance : Decidable (Proper src dst t clip) := inferInstanceAs (Decidable (_ ∨ _ ∨ _ ∨ _ ∨ _))

/-- Every clip up to the first one out of the limits is checked without a division by zero, and has
a proper part if it is in the limits. -/
def Sound (bounds : Rect) : List Rect → Prop
  | [] => True
  | clip :: clips =>
    let clip := intersect bounds clip
    Undivided src dst t clip ∧
      (WithinLimits src dst t clip → Proper src dst t clip ∧ Sound bounds clips)

end Clip

theorem transform_source_sides (t : Transform) (dst_norm : BltRect) (rect : Rect) :
    ((transform_source t dst_norm rect.blt).width, (transform_source t dst_norm rect.blt).height) =
      t.sides rect := by
  obtain ⟨flip_h, flip_v, ccw_rot_90⟩ := t
  cases ccw_rot_90 <;> cases flip_h <;> cases flip_v <;> rfl

theorem part_le (t : Transform) (dst clip : Rect) :
    (t.sides (part dst clip)).1 ≤ (t.sides dst).1 ∧ (t.sides (part dst clip)).2 ≤ (t.sides dst).2 := by
  have hl : 0 ≤ (part dst clip).l := le_max_left _ _
  have ht : 0 ≤ (part dst clip).t := le_max_left _ _
  have hr : (part dst clip).r ≤ dst.width := min_le_left _ _
  have hb : (part dst clip).b ≤ dst.height := min_le_left _ _
  have hwidth : (part dst clip).width ≤ dst.width := by
    rw [Rect.width]
    omega
  have hheight : (part dst clip).height ≤ dst.height := by
    rw [Rect.height]
    omega
  unfold Transform.sides
  split
  · exact ⟨hheight, hwidth⟩
  · exact ⟨hwidth, hheight⟩

/-- The rectangles of a clip, before the limits are checked. -/
structure Clipped (src dst : Rect) (t : Transform) (clip : Rect) (s d : BltRect) : Prop where
  x : d.x = int32 ((part dst clip).l + dst.l)
  y : d.y = int32 ((part dst clip).t + dst.t)
  dst_width : d.width = (part dst clip).width
  dst_height : d.height = (part dst clip).height
  src_width : s.width =
    rescale_length (src.width * 65536 / (t.sides dst).1) (t.sides (part dst clip)).1
  src_height : s.height =
    rescale_length (src.height * 65536 / (t.sides dst).2) (t.sides (part dst clip)).2

section Step
variable {src dst clip : Rect} {t : Transform}

theorem sides_pos (t : Transform) (hwidth : 1 ≤ dst.width) (hheight : 1 ≤ dst.height) :
    1 ≤ (t.sides dst).1 ∧ 1 ≤ (t.sides dst).2 := by
  unfold Transform.sides
  split
  · exact ⟨hheight, hwidth⟩
  · exact ⟨hwidth, hheight⟩

theorem set_rects_clipped (hsrc : src.Short) (hwidth : 1 ≤ dst.width) (hheight : 1 ≤ dst.height)
    (h : Representable dst clip) :
    ∃ s d, set_rects src dst clip t = some (s, d) ∧ Clipped src dst t clip s d := by
  obtain ⟨hside, hside'⟩ := sides_pos t hwidth hheight
  have heq := set_rects_eq hsrc.inInt32 h t
  rw [rescale_factor_eq hsrc.width hside, rescale_factor_eq hsrc.height hside'] at heq
  have hturned := Prod.ext_iff.mp
    (transform_source_sides t ⟨0, 0, dst.width, dst.height⟩ (part dst clip))
  exact ⟨_, _, heq, rfl, rfl, rfl, rfl, by rw [← hturned.1], by rw [← hturned.2]⟩

theorem Clipped.check {s d : BltRect} (h : Clipped src dst t clip s d) (hsrc : src.Short)
    (hwidth : 1 ≤ dst.width) (hheight : 1 ≤ dst.height) :
    check_stretch_limits s d t.ccw_rot_90 =
      if Undivided src dst t clip then some (decide (WithinLimits src dst t clip)) else none := by
  obtain ⟨hside, hside'⟩ := sides_pos t hwidth hheight
  obtain ⟨hle, hle'⟩ := part_le t dst clip
  have hto : (if t.ccw_rot_90 then (d.height, d.width) else (d.width, d.height)) =
      t.sides (part dst clip) := by
    rw [h.dst_width, h.dst_height]
    rfl
  unfold check_stretch_limits
  rw [hto, h.src_width, h.src_height]
  simp only [check_length_rescaled hsrc.width hside hle,
    check_length_rescaled hsrc.height hside' hle']
  by_cases hkept : Kept src.width (t.sides dst).1 (t.sides (part dst clip)).1
  · rw [if_pos hkept, Option.bind_eq_bind, Option.bind_some]
    by_cases hin : InLimits src.width (t.sides dst).1 (t.sides (part dst clip)).1
    · rw [if_pos (decide_eq_true hin)]
      by_cases hkept' : Kept src.height (t.sides dst).2 (t.sides (part dst clip)).2
      · rw [if_pos hkept', if_pos ⟨hkept, fun _ => hkept'⟩]
        congr 1
        exact decide_eq_decide.mpr ⟨fun h => ⟨hin, h⟩, And.right⟩
      · rw [if_neg hkept', if_neg fun h => hkept' (h.2 hin)]
    · rw [if_neg (mt of_decide_eq_true hin), if_pos ⟨hkept, fun h => absurd h hin⟩]
      rw [decide_eq_false fun h => hin h.1]
      rfl
  · rw [if_neg hkept, if_neg fun hundivided : Undivided src dst t clip => hkept hundivided.1]
    rfl

/-- A clip whose blit is not skipped although it is no proper part has a side that is not
positive. -/
theorem Clipped.proper_iff {s d : BltRect} (h : Clipped src dst t clip s d) (hsrc : src.Short)
    (hwidth : 1 ≤ dst.width) (hheight : 1 ≤ dst.height) :
    Proper src dst t clip ↔
      Meets clip dst ∨ d.width = 0 ∨ d.height = 0 ∨ s.width = 0 ∨ s.height = 0 := by
  obtain ⟨hside, hside'⟩ := sides_pos t hwidth hheight
  unfold Proper
  rw [h.dst_width, h.dst_height, h.src_width, h.src_height, vanishes_iff hsrc.width hside,
    vanishes_iff hsrc.height hside']

theorem Clipped.src_pos {s d : BltRect} (h : Clipped src dst t clip s d) (hsrc : src.Short)
    (hmeets : Meets clip dst) (hwidth : s.width ≠ 0) (hheight : s.height ≠ 0) :
    0 < s.width ∧ 0 < s.height := by
  obtain ⟨hl, hlr, hr, ht, htb, hb⟩ := hmeets.bounds
  obtain ⟨hside, hside'⟩ := sides_pos t (show 1 ≤ dst.width by omega) (show 1 ≤ dst.height by omega)
  obtain ⟨hpart, hpart'⟩ := sides_pos t (show 1 ≤ (part dst clip).width from hmeets.1) hmeets.2
  obtain ⟨hle, hle'⟩ := part_le t dst clip
  rw [h.src_width] at hwidth ⊢
  rw [h.src_height] at hheight ⊢
  obtain ⟨hlength, hnonneg⟩ := rescale_length_eq hsrc.width hside hpart hle
  obtain ⟨hlength', hnonneg'⟩ := rescale_length_eq hsrc.height hside' hpart' hle'
  omega

theorem Clipped.within {s d : BltRect} (h : Clipped src dst t clip s d) (hdst : dst.OfInt)
    (hmeets : Meets clip dst) : d.Within (intersect clip dst) := by
  obtain ⟨hwidth, hheight⟩ := hmeets
  obtain ⟨hdst_l, hdst_t, hdst_r, hdst_b⟩ := hdst
  unfold InInt32 at hdst_l hdst_t hdst_r hdst_b
  have hl : (part dst clip).l + dst.l = max clip.l dst.l := by
    unfold part intersect
    dsimp only
    omega
  have ht : (part dst clip).t + dst.t = max clip.t dst.t := by
    unfold part intersect
    dsimp only
    omega
  have hr : (part dst clip).r + dst.l = min clip.r dst.r := by
    unfold part intersect Rect.width
    dsimp only
    omega
  have hb : (part dst clip).b + dst.t = min clip.b dst.b := by
    unfold part intersect Rect.height
    dsimp only
    omega
  have hx : d.x = max clip.l dst.l := by
    unfold Rect.width at hwidth
    rw [h.x, hl, int32_of_inInt32 ⟨by omega, by omega⟩]
  have hy : d.y = max clip.t dst.t := by
    unfold Rect.height at hheight
    rw [h.y, ht, int32_of_inInt32 ⟨by omega, by omega⟩]
  have hdst_width := h.dst_width
  have hdst_height := h.dst_height
  unfold Rect.width at hwidth hdst_width
  unfold Rect.height at hheight hdst_height
  refine ⟨?_, by omega, ?_, ?_, by omega, ?_⟩
  all_goals
    dsimp only [intersect]
    omega

end Step

/-- A request for a blit of a positive size inside one of the clips. -/
structure Request.Fine (region : List Rect) (bounds dst_rect : Rect) (req : Request) : Prop where
  src_width : 0 < req.src_rect.width
  src_height : 0 < req.src_rect.height
  dst_width : 0 < req.dst_rect.width
  dst_height : 0 < req.dst_rect.height
  inside : ∃ clip ∈ region, req.dst_clip_rect = (intersect bounds clip).blt ∧
    req.dst_rect.Within (intersect (intersect bounds clip) dst_rect)

/-- Nothing is divided by zero, and every request is for a blit of a positive size inside its
clip. -/
structure Safe (region : List Rect) (bounds dst_rect : Rect) (run : List Request × Ending) :
    Prop where
  divided : run.2 ≠ .divided_by_zero
  requests : ∀ req ∈ run.1, req.Fine region bounds dst_rect

section Run
variable {blitter : Blitter} {src dst : Rect} {w h : Int}

/-- No request is taken back. -/
theorem mem_stretch_clips (bounds : Rect) (clips : List Rect) {req r : Request}
    {requests : List Request} (h : r ∈ requests) :
    r ∈ (stretch_clips blitter src dst bounds req requests clips).1 := by
  induction clips generalizing req requests with
  | nil => exact h
  | cons clip clips ih =>
    unfold stretch_clips
    dsimp only
    split
    · exact h
    · split
      · exact h
      · exact h
      · split
        · exact ih h
        · split
          · exact List.mem_append_left _ h
          · exact ih (List.mem_append_left _ h)

/-- The size of a clip inside the bounds is a number of an `int`. -/
theorem clip_rect_eq (hw : InInt32 w) (hh : InInt32 h) {clip : Rect}
    (hmeets : Meets (intersect ⟨0, 0, w, h⟩ clip) dst) :
    (⟨(intersect ⟨0, 0, w, h⟩ clip).l, (intersect ⟨0, 0, w, h⟩ clip).t,
      int32 ((intersect ⟨0, 0, w, h⟩ clip).r - (intersect ⟨0, 0, w, h⟩ clip).l),
      int32 ((intersect ⟨0, 0, w, h⟩ clip).b - (intersect ⟨0, 0, w, h⟩ clip).t)⟩ : BltRect) =
      (intersect ⟨0, 0, w, h⟩ clip).blt := by
  obtain ⟨hwidth, hheight⟩ := hmeets
  have hl : 0 ≤ (intersect ⟨0, 0, w, h⟩ clip).l := le_max_left _ _
  have ht : 0 ≤ (intersect ⟨0, 0, w, h⟩ clip).t := le_max_left _ _
  have hr : (intersect ⟨0, 0, w, h⟩ clip).r ≤ w := min_le_left _ _
  have hb : (intersect ⟨0, 0, w, h⟩ clip).b ≤ h := min_le_left _ _
  generalize intersect ⟨0, 0, w, h⟩ clip = clamped at *
  unfold part intersect Rect.width at hwidth
  unfold part intersect Rect.height at hheight
  unfold InInt32 at hw hh
  dsimp only at hwidth hheight
  rw [int32_of_inInt32 ⟨by omega, by omega⟩, int32_of_inInt32 ⟨by omega, by omega⟩]
  rfl

/-- A stretch is safe with a sound region, whatever the blitter returns. -/
theorem safe_of_sound (hsrc : src.Short) (hdst : dst.OfInt) (hwidth : 1 ≤ dst.width)
    (hheight : 1 ≤ dst.height) (hw : InInt32 w) (hh : InInt32 h) {region clips : List Rect}
    (hsub : clips ⊆ region)
    (hrep : ∀ clip ∈ clips, Representable dst (intersect ⟨0, 0, w, h⟩ clip)) {req : Request}
    {t : Transform} (ht : Transform.of req.parameters.transform = t)
    (hsound : Sound src dst t ⟨0, 0, w, h⟩ clips) {requests : List Request}
    (hfine : ∀ r ∈ requests, r.Fine region ⟨0, 0, w, h⟩ dst) :
    Safe region ⟨0, 0, w, h⟩ dst
      (stretch_clips blitter src dst ⟨0, 0, w, h⟩ req requests clips) := by
  induction clips generalizing req requests with
  | nil => exact ⟨fun hend => Ending.noConfusion hend, hfine⟩
  | cons clip clips ih =>
    obtain ⟨hundivided, hnext⟩ := hsound
    obtain ⟨hmem, hsub⟩ := List.cons_subset.mp hsub
    obtain ⟨hrep, hreps⟩ := List.forall_mem_cons.mp hrep
    obtain ⟨s, d, hset, hclipped⟩ := set_rects_clipped (t := t) hsrc hwidth hheight hrep
    have hcheck := hclipped.check hsrc hwidth hheight
    rw [if_pos hundivided] at hcheck
    unfold stretch_clips
    simp only [ht, hset, hcheck]
    by_cases hlimits : WithinLimits src dst t (intersect ⟨0, 0, w, h⟩ clip)
    · obtain ⟨hproper, hsound⟩ := hnext hlimits
      rw [decide_eq_true hlimits]
      dsimp only
      split
      · refine ih hsub hreps ?_ hsound hfine
        exact ht
      · next hempty =>
        simp only [not_or] at hempty
        have hmeets : Meets (intersect ⟨0, 0, w, h⟩ clip) dst := by
          have := (hclipped.proper_iff hsrc hwidth hheight).mp hproper
          tauto
        have hpos := hclipped.src_pos hsrc hmeets hempty.2.2.1 hempty.2.2.2
        have hfine' : Request.Fine region ⟨0, 0, w, h⟩ dst
            { req with src_rect := s, dst_rect := d, dst_clip_rect := ⟨_, _, _, _⟩ } :=
          ⟨hpos.1, hpos.2, hclipped.dst_width ▸ hmeets.1, hclipped.dst_height ▸ hmeets.2,
            clip, hmem, clip_rect_eq hw hh hmeets, hclipped.within hdst hmeets⟩
        have hall := List.forall_mem_append.mpr ⟨hfine, List.forall_mem_singleton.mpr hfine'⟩
        split
        · exact ⟨fun hend => Ending.noConfusion hend, hall⟩
        · refine ih hsub hreps ?_ hsound hall
          exact ht
    · rw [decide_eq_false hlimits]
      exact ⟨fun hend => Ending.noConfusion hend, hfine⟩

/-- The blitter that does everything it is asked for. -/
def Blitter.willing : Blitter := ⟨fun _ _ => 0, fun _ => 0⟩

theorem sound_of_safe (hsrc : src.Short) (hwidth : 1 ≤ dst.width) (hheight : 1 ≤ dst.height)
    {region clips : List Rect} {bounds : Rect}
    (hrep : ∀ clip ∈ clips, Representable dst (intersect bounds clip)) {req : Request}
    {t : Transform} (ht : Transform.of req.parameters.transform = t) {requests : List Request}
    (hsafe : Safe region bounds dst
      (stretch_clips .willing src dst bounds req requests clips)) :
    Sound src dst t bounds clips := by
  induction clips generalizing req requests with
  | nil => trivial
  | cons clip clips ih =>
    obtain ⟨hrep, hreps⟩ := List.forall_mem_cons.mp hrep
    obtain ⟨s, d, hset, hclipped⟩ := set_rects_clipped (t := t) hsrc hwidth hheight hrep
    have hcheck := hclipped.check hsrc hwidth hheight
    unfold stretch_clips at hsafe
    simp only [ht, hset, hcheck] at hsafe
    by_cases hundivided : Undivided src dst t (intersect bounds clip)
    · refine ⟨hundivided, fun hlimits => ?_⟩
      rw [if_pos hundivided, decide_eq_true hlimits] at hsafe
      dsimp only at hsafe
      rw [hclipped.proper_iff hsrc hwidth hheight]
      split at hsafe
      · next hempty =>
        refine ⟨.inr hempty, ih hreps ?_ hsafe⟩
        exact ht
      · split at hsafe
        · next hrefused => exact absurd hrefused (lt_irrefl 0)
        · have hfine := hsafe.requests _
            (mem_stretch_clips bounds clips (List.mem_append_right _ (List.mem_singleton_self _)))
          refine ⟨.inl ⟨hclipped.dst_width ▸ hfine.dst_width,
            hclipped.dst_height ▸ hfine.dst_height⟩, ih hreps ?_ hsafe⟩
          exact ht
    · rw [if_neg hundivided] at hsafe
      exact absurd rfl hsafe.divided

end Run

/-- A stretch is safe with every blitter if and only if an image has no buffer to blit with or the
clips are sound. -/
theorem stretch_safe_iff {H : Type} (perform : H → Query → Int) (blt_req : Request)
    (dst src : Image H) {dst_rect src_rect : Rect} {region : List Rect} (hsrc : src_rect.Short)
    (hdst : dst_rect.OfInt) (hwidth : 1 ≤ dst_rect.width) (hheight : 1 ≤ dst_rect.height)
    (hrep : ∀ clip ∈ region,
      Representable dst_rect (intersect ⟨0, 0, int32 dst.w, int32 dst.h⟩ clip)) :
    (∀ blitter, Safe region ⟨0, 0, int32 dst.w, int32 dst.h⟩ dst_rect
      (copybit_stretch perform blitter blt_req dst src dst_rect src_rect region)) ↔
    ((convert_image perform src).isSome → (convert_image perform dst).isSome →
      Sound src_rect dst_rect (.of blt_req.parameters.transform)
        ⟨0, 0, int32 dst.w, int32 dst.h⟩ region) := by
  have hrange : ∀ x, InInt32 (int32 x) := fun x => ⟨Int.le_bmod (by decide), Int.bmod_lt (by decide)⟩
  have hnothing : Safe region ⟨0, 0, int32 dst.w, int32 dst.h⟩ dst_rect ([], .returned einval) :=
    ⟨fun hend => Ending.noConfusion hend, fun _ h => absurd h List.not_mem_nil⟩
  unfold copybit_stretch
  rcases convert_image perform src with _ | src_img
  · exact ⟨fun _ h => absurd h (by decide), fun _ _ => hnothing⟩
  · rcases convert_image perform dst with _ | dst_img
    · exact ⟨fun _ _ h => absurd h (by decide), fun _ _ => hnothing⟩
    · constructor
      · intro hsafe _ _
        refine sound_of_safe hsrc hwidth hheight hrep ?_ (hsafe .willing)
        rfl
      · intro hsound blitter
        refine safe_of_sound hsrc hdst hwidth hheight (hrange _) (hrange _) (List.Subset.refl _) hrep
          ?_ (hsound rfl rfl) fun _ h => absurd h List.not_mem_nil
        rfl

/-- A device, an image of it and a request before any blit. -/
def sampleImage (w h : Int) : Image Unit := ⟨w, h, .rgba_8888, some ()⟩

def sampleRequest : Request :=
  let img : BltImg := ⟨.abgr8888, ⟨.fd_offset, 0, 0, 0, 0⟩, 0, 0⟩
  ⟨⟨0, 0, 0⟩, img, img, ⟨0, 0, 0, 0⟩, ⟨0, 0, 0, 0⟩, ⟨0, 0, 0, 0⟩⟩

theorem stretch_safe_sample :
    Safe [⟨-1, 0, 4, 4⟩, ⟨1, 3, 20, 8⟩] ⟨0, 0, int32 16, int32 8⟩ ⟨0, 0, 8, 8⟩
      (copybit_stretch (fun _ _ => 0) .willing sampleRequest (sampleImage 16 8) (sampleImage 4 4)
        ⟨0, 0, 8, 8⟩ ⟨0, 0, 4, 4⟩ [⟨-1, 0, 4, 4⟩, ⟨1, 3, 20, 8⟩]) := by
  have hrep : ∀ clip ∈ ([⟨-1, 0, 4, 4⟩, ⟨1, 3, 20, 8⟩] : List Rect),
      Representable ⟨0, 0, 8, 8⟩ (intersect ⟨0, 0, int32 16, int32 8⟩ clip) := by
    simp only [List.forall_mem_cons]
    refine ⟨⟨⟨?_, ?_, ?_, ?_⟩, ?_, ?_, ?_, ?_⟩, ⟨⟨?_, ?_, ?_, ?_⟩, ?_, ?_, ?_, ?_⟩,
      fun _ h => absurd h List.not_mem_nil⟩
    all_goals decide
  refine (stretch_safe_iff (fun _ _ => 0) sampleRequest (sampleImage 16 8) (sampleImage 4 4)
    ⟨by decide, by decide⟩ ⟨by decide, by decide, by decide, by decide⟩ (by decide) (by decide)
    hrep).mpr ?_ .willing
  exact fun _ _ => ⟨by decide, fun _ => ⟨by decide, by decide, fun _ => ⟨by decide, trivial⟩⟩⟩

/-- Three columns of an eightfold stretch are less than half a pixel of the source: the
magnification is divided by zero. A clip beside the destination gives a request for a blit of a
negative size. -/
theorem narrow_clip_divides_by_zero :
    (copybit_stretch (fun _ _ => 0) .willing sampleRequest (sampleImage 8 8) (sampleImage 1 1)
      ⟨0, 0, 8, 8⟩ ⟨0, 0, 1, 1⟩ [⟨0, 0, 3, 8⟩]).2 = .divided_by_zero ∧
    ∃ req ∈ (copybit_stretch (fun _ _ => 0) .willing sampleRequest (sampleImage 16 16)
        (sampleImage 8 8) ⟨0, 0, 8, 8⟩ ⟨0, 0, 8, 8⟩ [⟨10, 10, 12, 12⟩]).1,
      req.dst_rect.width = -2 ∧ req.src_rect.width = -2 :=
  ⟨by decide, _, List.mem_singleton_self _, rfl, rfl⟩

end Codinalte.Copybit
