import Mathlib.Data.List.Induction

/-! The parameters of a copybit device: each call updates bits of the request that the next blits
are made with. -/

namespace Codinalte.Copybit

inductive Status where
  | ok
  | einval
deriving DecidableEq

/-- What the calls set in the request of the device. -/
@[ext] structure BltReq where
  transform : BitVec 32
  flags : BitVec 32
  global_alpha : BitVec 8
deriving DecidableEq

def blt_transform_flip_h : BitVec 32 := 1
def blt_transform_flip_v : BitVec 32 := 2
def blt_transform_ccw_rot_90 : BitVec 32 := 4
def blt_transform_ccw_rot_180 : BitVec 32 := 3
def blt_transform_ccw_rot_270 : BitVec 32 := 7

def blt_flag_global_alpha_blend : BitVec 32 := 0x8
def blt_flag_dither : BitVec 32 := 0x200
def blt_flag_blur : BitVec 32 := 0x400

def copybit_rotation_deg : Int := 1
def copybit_plane_alpha : Int := 2
def copybit_dither : Int := 3
def copybit_transform : Int := 4
def copybit_blur : Int := 5

def copybit_disable : Int := 0
def copybit_enable : Int := 1

def copybit_transform_flip_h : BitVec 32 := 1
def copybit_transform_flip_v : BitVec 32 := 2
def copybit_transform_rot_90 : BitVec 32 := 4

/-- The bits of all three rotations. -/
def rotation_mask : BitVec 32 :=
  blt_transform_ccw_rot_90 ||| blt_transform_ccw_rot_180 ||| blt_transform_ccw_rot_270

/-- Degrees are clockwise here and counter clockwise in a request. -/
def set_rotation (req : BltReq) (value : Int) : BltReq × Status :=
  let cleared := { req with transform := req.transform &&& ~~~rotation_mask }
  if value = 0 then (cleared, .ok)
  else if value = 90 then
    ({ cleared with transform := cleared.transform ||| blt_transform_ccw_rot_270 }, .ok)
  else if value = 180 then
    ({ cleared with transform := cleared.transform ||| blt_transform_ccw_rot_180 }, .ok)
  else if value = 270 then
    ({ cleared with transform := cleared.transform ||| blt_transform_ccw_rot_90 }, .ok)
  else (cleared, .einval)

def set_plane_alpha (req : BltReq) (value : Int) : BltReq × Status :=
  if value ≥ 0 ∧ value < 256 then
    let req := { req with global_alpha := BitVec.ofInt 8 value }
    if req.global_alpha = 255 then
      ({ req with flags := req.flags &&& ~~~blt_flag_global_alpha_blend }, .ok)
    else ({ req with flags := req.flags ||| blt_flag_global_alpha_blend }, .ok)
  else (req, .einval)

/-- A flag that can be enabled and disabled. -/
def set_flag (flag : BitVec 32) (req : BltReq) (value : Int) : BltReq × Status :=
  if value = copybit_enable then ({ req with flags := req.flags ||| flag }, .ok)
  else if value = copybit_disable then ({ req with flags := req.flags &&& ~~~flag }, .ok)
  else (req, .einval)

/-- The transform of a request for a value of `COPYBIT_TRANSFORM`. -/
def transform_of (value : BitVec 32) : BitVec 32 :=
  let transform : BitVec 32 := 0
  let transform :=
    if value &&& copybit_transform_flip_h ≠ 0 then transform ||| blt_transform_flip_h
    else transform
  let transform :=
    if value &&& copybit_transform_flip_v ≠ 0 then transform ||| blt_transform_flip_v
    else transform
  if value &&& copybit_transform_rot_90 ≠ 0 then transform ^^^ blt_transform_ccw_rot_270
  else transform

def copybit_set_parameter (req : BltReq) (name value : Int) : BltReq × Status :=
  if name = copybit_rotation_deg then set_rotation req value
  else if name = copybit_plane_alpha then set_plane_alpha req value
  else if name = copybit_dither then set_flag blt_flag_dither req value
  else if name = copybit_transform then
    ({ req with transform := transform_of (BitVec.ofInt 32 value) }, .ok)
  else if name = copybit_blur then set_flag blt_flag_blur req value
  else (req, .einval)

structure Parameter where
  name : Int
  value : Int
deriving DecidableEq

def Parameter.set (req : BltReq) (p : Parameter) : BltReq × Status :=
  copybit_set_parameter req p.name p.value

/-- The request after a sequence of calls. -/
def requestAfter (req : BltReq) (calls : List Parameter) : BltReq :=
  calls.foldl (fun req p => (p.set req).1) req

/-- Those of a sequence of calls that return 0. -/
def succeeded : BltReq → List Parameter → List Parameter
  | _, [] => []
  | req, p :: calls =>
    let (req', status) := p.set req
    if status = .ok then p :: succeeded req' calls else succeeded req' calls

def ValidRotation (value : Int) : Prop := value = 0 ∨ value = 90 ∨ value = 180 ∨ value = 270

instance (value : Int) : Decidable (ValidRotation value) :=
  inferInstanceAs (Decidable (value = 0 ∨ value = 90 ∨ value = 180 ∨ value = 270))

/-- A call for a rotation that there is not. -/
def Parameter.BadRotation (p : Parameter) : Prop :=
  p.name = copybit_rotation_deg ∧ ¬ ValidRotation p.value

instance (p : Parameter) : Decidable p.BadRotation :=
  inferInstanceAs (Decidable (_ ∧ _))

/-- The rotation and the flips that a call asks for, after others that asked for `bits`. -/
def Parameter.requested (bits : BitVec 32) (p : Parameter) : BitVec 32 :=
  if p.name = copybit_rotation_deg then
    if p.value = 0 then 0
    else if p.value = 90 then blt_transform_ccw_rot_270
    else if p.value = 180 then blt_transform_ccw_rot_180
    else if p.value = 270 then blt_transform_ccw_rot_90
    else bits
  else if p.name = copybit_transform then transform_of (BitVec.ofInt 32 p.value)
  else bits

/-- The rotation and the flips that the last call for one asks for, or those of the beginning. -/
def requestedBits (req : BltReq) (calls : List Parameter) : BitVec 32 :=
  calls.foldl Parameter.requested (req.transform &&& rotation_mask)

/-- Whether a call for a rotation that there is not comes after the last call that asks for one, or
for flips. -/
def cleared (calls : List Parameter) : Bool :=
  calls.foldl (fun dirty p =>
    if p.BadRotation then true
    else if p.name = copybit_rotation_deg ∨ p.name = copybit_transform then false
    else dirty) false

theorem transform_of_mask (value : BitVec 32) :
    transform_of value &&& rotation_mask = transform_of value := by
  unfold transform_of
  dsimp only
  split_ifs <;> decide

/-- A call that sets the transform or its rotation, with what comes of the bits outside the mask. -/
structure Parameter.Sets (p : Parameter) (bits keep : BitVec 32) : Prop where
  set : ∀ req : BltReq, p.set req = ({ req with transform := req.transform &&& keep ||| bits }, .ok)
  masked : bits &&& rotation_mask = bits
  outside : keep &&& rotation_mask = 0
  requested : ∀ before, p.requested before = bits
  name : p.name = copybit_rotation_deg ∨ p.name = copybit_transform
  good : ¬ p.BadRotation

/-- A call that clears the rotation although it fails. -/
structure Parameter.Clears (p : Parameter) : Prop where
  set : ∀ req : BltReq,
    p.set req = ({ req with transform := req.transform &&& ~~~rotation_mask }, .einval)
  requested : ∀ before, p.requested before = before
  bad : p.BadRotation

/-- A call that does not touch the transform, and nothing at all if it fails. -/
structure Parameter.Leaves (p : Parameter) (flags : BitVec 32 → BitVec 32)
    (global_alpha : BitVec 8 → BitVec 8) (status : Status) : Prop where
  set : ∀ req : BltReq, p.set req =
    (⟨req.transform, flags req.flags, global_alpha req.global_alpha⟩, status)
  fails : status = .einval → flags = id ∧ global_alpha = id
  requested : ∀ before, p.requested before = before
  name : ¬ (p.name = copybit_rotation_deg ∨ p.name = copybit_transform)
  good : ¬ p.BadRotation

theorem set_plane_alpha_leaves (value : Int) : ∃ flags global_alpha status,
    (∀ req, set_plane_alpha req value =
      (⟨req.transform, flags req.flags, global_alpha req.global_alpha⟩, status)) ∧
      (status = .einval → flags = id ∧ global_alpha = id) := by
  unfold set_plane_alpha
  dsimp only
  split_ifs
  · exact ⟨fun flags => flags &&& ~~~blt_flag_global_alpha_blend, fun _ => _, .ok, fun _ => rfl,
      fun h => nomatch h⟩
  · exact ⟨fun flags => flags ||| blt_flag_global_alpha_blend, fun _ => _, .ok, fun _ => rfl,
      fun h => nomatch h⟩
  · exact ⟨id, id, .einval, fun _ => rfl, fun _ => ⟨rfl, rfl⟩⟩

theorem set_flag_leaves (flag : BitVec 32) (value : Int) : ∃ flags status,
    (∀ req, set_flag flag req value =
      (⟨req.transform, flags req.flags, req.global_alpha⟩, status)) ∧
      (status = .einval → flags = id) := by
  unfold set_flag
  split_ifs
  · exact ⟨fun flags => flags ||| flag, .ok, fun _ => rfl, fun h => nomatch h⟩
  · exact ⟨fun flags => flags &&& ~~~flag, .ok, fun _ => rfl, fun h => nomatch h⟩
  · exact ⟨id, .einval, fun _ => rfl, fun _ => rfl⟩

theorem and_zero_or (a b : BitVec 32) : a &&& 0 ||| b = b := by simp

/-- What a call does, one case for each kind of it. -/
theorem Parameter.cases (p : Parameter) :
    (∃ bits keep, p.Sets bits keep) ∨ p.Clears ∨
      ∃ flags global_alpha status, p.Leaves flags global_alpha status := by
  by_cases hrotation : p.name = copybit_rotation_deg
  · have hset : ∀ req : BltReq, p.set req = set_rotation req p.value := fun req => if_pos hrotation
    have hrequested : ∀ before, p.requested before =
        if p.value = 0 then 0
        else if p.value = 90 then blt_transform_ccw_rot_270
        else if p.value = 180 then blt_transform_ccw_rot_180
        else if p.value = 270 then blt_transform_ccw_rot_90
        else before := fun before => if_pos hrotation
    unfold set_rotation at hset
    by_cases hvalid : ValidRotation p.value
    · refine .inl ?_
      have hgood : ¬ p.BadRotation := fun h => h.2 hvalid
      rcases hvalid with h | h | h | h
      · rw [h] at hset hrequested
        refine ⟨0, ~~~rotation_mask, ⟨fun req => ?_, by decide, by decide, hrequested, .inl hrotation,
          hgood⟩⟩
        have hzero : req.transform &&& ~~~rotation_mask ||| 0 =
          req.transform &&& ~~~rotation_mask := by simp
        rw [hset, hzero]
        rfl
      · rw [h] at hset hrequested
        exact ⟨blt_transform_ccw_rot_270, ~~~rotation_mask, hset, by decide, by decide, hrequested,
          .inl hrotation, hgood⟩
      · rw [h] at hset hrequested
        exact ⟨blt_transform_ccw_rot_180, ~~~rotation_mask, hset, by decide, by decide, hrequested,
          .inl hrotation, hgood⟩
      · rw [h] at hset hrequested
        exact ⟨blt_transform_ccw_rot_90, ~~~rotation_mask, hset, by decide, by decide, hrequested,
          .inl hrotation, hgood⟩
    · refine .inr (.inl ?_)
      obtain ⟨h₀, h₁, h₂, h₃⟩ : p.value ≠ 0 ∧ p.value ≠ 90 ∧ p.value ≠ 180 ∧ p.value ≠ 270 := by
        simpa [ValidRotation] using hvalid
      refine ⟨fun req => ?_, fun before => ?_, hrotation, hvalid⟩
      · simp only [hset, if_neg h₀, if_neg h₁, if_neg h₂, if_neg h₃]
      · simp only [hrequested, if_neg h₀, if_neg h₁, if_neg h₂, if_neg h₃]
  · have hgood : ¬ p.BadRotation := fun h => hrotation h.1
    by_cases htransform : p.name = copybit_transform
    · refine .inl ⟨transform_of (BitVec.ofInt 32 p.value), 0, fun req => ?_, transform_of_mask _,
        by decide, fun before => ?_, .inr htransform, hgood⟩
      · rw [and_zero_or]
        simp [Parameter.set, copybit_set_parameter, htransform, copybit_rotation_deg,
          copybit_plane_alpha, copybit_dither, copybit_transform]
      · simp [Parameter.requested, htransform, copybit_rotation_deg, copybit_transform]
    · refine .inr (.inr ?_)
      have hname : ¬ (p.name = copybit_rotation_deg ∨ p.name = copybit_transform) :=
        not_or.mpr ⟨hrotation, htransform⟩
      have hrequested : ∀ before, p.requested before = before := fun before => by
        rw [Parameter.requested, if_neg hrotation, if_neg htransform]
      have hset : ∀ req : BltReq, p.set req =
          if p.name = copybit_plane_alpha then set_plane_alpha req p.value
          else if p.name = copybit_dither then set_flag blt_flag_dither req p.value
          else if p.name = copybit_blur then set_flag blt_flag_blur req p.value
          else (req, .einval) := fun req => by
        rw [Parameter.set, copybit_set_parameter, if_neg hrotation, if_neg htransform]
      by_cases halpha : p.name = copybit_plane_alpha
      · obtain ⟨flags, global_alpha, status, heq, hfails⟩ := set_plane_alpha_leaves p.value
        exact ⟨flags, global_alpha, status, fun req => by rw [hset, if_pos halpha, heq], hfails,
          hrequested, hname, hgood⟩
      · by_cases hdither : p.name = copybit_dither
        · obtain ⟨flags, status, heq, hfails⟩ := set_flag_leaves blt_flag_dither p.value
          exact ⟨flags, id, status, fun req => by rw [hset, if_neg halpha, if_pos hdither, heq]; rfl,
            fun h => ⟨hfails h, rfl⟩, hrequested, hname, hgood⟩
        · by_cases hblur : p.name = copybit_blur
          · obtain ⟨flags, status, heq, hfails⟩ := set_flag_leaves blt_flag_blur p.value
            exact ⟨flags, id, status,
              fun req => by rw [hset, if_neg halpha, if_neg hdither, if_pos hblur, heq]; rfl,
              fun h => ⟨hfails h, rfl⟩, hrequested, hname, hgood⟩
          · exact ⟨id, id, .einval,
              fun req => by rw [hset, if_neg halpha, if_neg hdither, if_neg hblur]; rfl,
              fun _ => ⟨rfl, rfl⟩, hrequested, hname, hgood⟩

/-- Whether a call succeeds does not depend on the request. -/
theorem Parameter.set_status (p : Parameter) (req req' : BltReq) :
    (p.set req).2 = (p.set req').2 := by
  rcases p.cases with ⟨bits, keep, h⟩ | h | ⟨flags, global_alpha, status, h⟩
  · rw [h.set, h.set]
  · rw [h.set, h.set]
  · rw [h.set, h.set]

theorem requestAfter_snoc (req : BltReq) (calls : List Parameter) (p : Parameter) :
    requestAfter req (calls ++ [p]) = (p.set (requestAfter req calls)).1 := by
  rw [requestAfter, List.foldl_append]
  rfl

theorem succeeded_snoc (req : BltReq) (calls : List Parameter) (p : Parameter) :
    succeeded req (calls ++ [p]) =
      succeeded req calls ++ if (p.set req).2 = .ok then [p] else [] := by
  induction calls generalizing req with
  | nil =>
    simp only [List.nil_append, succeeded]
  | cons q calls ih =>
    simp only [List.cons_append, succeeded]
    rw [ih, p.set_status (q.set req).1 req]
    split_ifs <;> rfl

/-- The request after all calls beside the one after those that returned 0. -/
structure Follows (req : BltReq) (calls : List Parameter) : Prop where
  flags : (requestAfter req calls).flags = (requestAfter req (succeeded req calls)).flags
  global_alpha : (requestAfter req calls).global_alpha =
    (requestAfter req (succeeded req calls)).global_alpha
  bits : (requestAfter req (succeeded req calls)).transform &&& rotation_mask =
    requestedBits req calls
  transform : (requestAfter req calls).transform =
    if cleared calls then
      (requestAfter req (succeeded req calls)).transform &&& ~~~rotation_mask
    else (requestAfter req (succeeded req calls)).transform

theorem and_keep_or_and {transform bits keep mask : BitVec 32} (hbits : bits &&& mask = bits)
    (hkeep : keep &&& mask = 0) : (transform &&& keep ||| bits) &&& mask = bits := by
  calc
    (transform &&& keep ||| bits) &&& mask
    _ = transform &&& (keep &&& mask) ||| bits &&& mask := by
      rw [BitVec.and_or_distrib_right, BitVec.and_assoc]
    _ = bits := by rw [hkeep, hbits, and_zero_or]

theorem and_not_and {transform keep mask : BitVec 32} (hkeep : keep &&& mask = 0) :
    transform &&& ~~~mask &&& keep = transform &&& keep := by
  ext i hi
  have hbit : (keep &&& mask)[i] = false := by rw [hkeep]; simp
  simp only [BitVec.getElem_and, BitVec.getElem_not] at hbit ⊢
  cases hk : keep[i]
  · simp
  · simp [hk] at hbit
    simp [hbit]

theorem follows (req : BltReq) (calls : List Parameter) : Follows req calls := by
  induction calls using List.reverseRecOn with
  | nil =>
    exact ⟨rfl, rfl, rfl, rfl⟩
  | append_singleton calls p ih =>
    obtain ⟨hflags, hglobal_alpha, hbits, htransform⟩ := ih
    have hcleared : cleared (calls ++ [p]) = if p.BadRotation then true
        else if p.name = copybit_rotation_deg ∨ p.name = copybit_transform then false
        else cleared calls := by
      rw [cleared, List.foldl_append]
      rfl
    have hrequested : requestedBits req (calls ++ [p]) =
        p.requested (requestedBits req calls) := by
      rw [requestedBits, List.foldl_append]
      rfl
    rcases p.cases with ⟨bits, keep, h⟩ | h | ⟨flags, global_alpha, status, h⟩
    · have hok : succeeded req (calls ++ [p]) = succeeded req calls ++ [p] := by
        rw [succeeded_snoc, h.set, if_pos rfl]
      have hclean : cleared (calls ++ [p]) = false := by
        rw [hcleared, if_neg h.good, if_pos h.name]
      constructor
      · rw [hok, requestAfter_snoc, requestAfter_snoc, h.set, h.set]
        exact hflags
      · rw [hok, requestAfter_snoc, requestAfter_snoc, h.set, h.set]
        exact hglobal_alpha
      · rw [hok, hrequested, h.requested, requestAfter_snoc, h.set]
        exact and_keep_or_and h.masked h.outside
      · rw [hok, hclean, requestAfter_snoc, requestAfter_snoc, h.set, h.set]
        dsimp only
        rw [htransform]
        split
        · rw [and_not_and h.outside]
          rfl
        · rfl
    · have hok : succeeded req (calls ++ [p]) = succeeded req calls := by
        rw [succeeded_snoc, h.set, if_neg (fun h => nomatch h), List.append_nil]
      have hdirty : cleared (calls ++ [p]) = true := by rw [hcleared, if_pos h.bad]
      constructor
      · rw [hok, requestAfter_snoc, h.set]
        exact hflags
      · rw [hok, requestAfter_snoc, h.set]
        exact hglobal_alpha
      · rw [hok, hrequested, h.requested]
        exact hbits
      · rw [hok, hdirty, requestAfter_snoc, h.set, if_pos rfl]
        dsimp only
        rw [htransform]
        split
        · rw [BitVec.and_assoc, BitVec.and_self]
        · rfl
    · have hsame : cleared (calls ++ [p]) = cleared calls := by
        rw [hcleared, if_neg h.good, if_neg h.name]
      cases hstatus : status with
      | ok =>
        subst hstatus
        have hok : succeeded req (calls ++ [p]) = succeeded req calls ++ [p] := by
          rw [succeeded_snoc, h.set, if_pos rfl]
        constructor
        · rw [hok, requestAfter_snoc, requestAfter_snoc, h.set, h.set]
          exact congrArg flags hflags
        · rw [hok, requestAfter_snoc, requestAfter_snoc, h.set, h.set]
          exact congrArg global_alpha hglobal_alpha
        · rw [hok, hrequested, h.requested, requestAfter_snoc, h.set]
          exact hbits
        · rw [hok, hsame, requestAfter_snoc, requestAfter_snoc, h.set, h.set]
          exact htransform
      | einval =>
        subst hstatus
        obtain ⟨rfl, rfl⟩ := h.fails rfl
        have hok : succeeded req (calls ++ [p]) = succeeded req calls := by
          rw [succeeded_snoc, h.set, if_neg (fun h => nomatch h), List.append_nil]
        have hafter : requestAfter req (calls ++ [p]) = requestAfter req calls := by
          rw [requestAfter_snoc, h.set]
          rfl
        constructor
        · rw [hok, hafter]
          exact hflags
        · rw [hok, hafter]
          exact hglobal_alpha
        · rw [hok, hrequested, h.requested]
          exact hbits
        · rw [hok, hafter, hsame]
          exact htransform

theorem and_not_eq_iff (transform mask : BitVec 32) :
    transform &&& ~~~mask = transform ↔ transform &&& mask = 0 := by
  constructor
  · intro h
    rw [← h, BitVec.and_assoc, BitVec.and_comm (~~~mask), BitVec.and_not_self]
    exact BitVec.and_zero
  · intro h
    ext i hi
    have hbit : (transform &&& mask)[i] = false := by rw [h]; simp
    simp only [BitVec.getElem_and, BitVec.getElem_not] at hbit ⊢
    cases ht : transform[i]
    · rfl
    · simp [ht] at hbit
      simp [hbit]

/-- A call that fails changes the request only if it is for a rotation that there is not, and a
rotation or a flip is set. -/
theorem Parameter.failed_iff (p : Parameter) (req : BltReq) (h : (p.set req).2 = .einval) :
    (p.set req).1 = req ↔ ¬ p.BadRotation ∨ req.transform &&& rotation_mask = 0 := by
  rcases p.cases with ⟨bits, keep, hp⟩ | hp | ⟨flags, global_alpha, status, hp⟩
  · rw [hp.set] at h
    cases h
  · rw [hp.set, ← and_not_eq_iff]
    refine ⟨fun heq => .inr (congrArg BltReq.transform heq), fun hkept => ?_⟩
    rw [hkept.resolve_left (not_not_intro hp.bad)]
  · rw [hp.set] at h
    obtain ⟨rfl, rfl⟩ := hp.fails h
    rw [hp.set]
    exact iff_of_true rfl (.inl hp.good)

/-- The request after a sequence of calls is the one after those that returned 0, unless a rotation
that there is not was asked for after the last rotation or flip that was. -/
theorem request_follows_accepted_calls (req : BltReq) (calls : List Parameter) :
    (requestAfter req calls = requestAfter req (succeeded req calls) ↔
      cleared calls = false ∨ requestedBits req calls = 0) ∧
    ∀ p : Parameter, (p.set req).2 = .einval →
      ((p.set req).1 = req ↔ ¬ p.BadRotation ∨ req.transform &&& rotation_mask = 0) := by
  refine ⟨?_, fun p h => p.failed_iff req h⟩
  obtain ⟨hflags, hglobal_alpha, hbits, htransform⟩ := follows req calls
  have hiff : requestAfter req calls = requestAfter req (succeeded req calls) ↔
      (requestAfter req calls).transform = (requestAfter req (succeeded req calls)).transform :=
    ⟨congrArg _, fun h => BltReq.ext h hflags hglobal_alpha⟩
  rw [hiff, htransform, ← hbits]
  cases cleared calls with
  | false => exact iff_of_true rfl (.inl rfl)
  | true =>
    rw [if_pos rfl, and_not_eq_iff]
    exact ⟨.inr, fun h => h.resolve_left fun h => nomatch h⟩

theorem request_follows_accepted_calls_sample :
    (Parameter.set ⟨0, 0, 0⟩ ⟨copybit_rotation_deg, 45⟩).1 = ⟨0, 0, 0⟩ :=
  ((request_follows_accepted_calls ⟨0, 0, 0⟩ []).2 ⟨copybit_rotation_deg, 45⟩ (by decide)).mpr
    (.inr (by decide))

/-- A turn by 90 degrees is gone after a call that fails. -/
theorem failed_call_clears_rotation :
    ∃ req : BltReq, (copybit_set_parameter req copybit_rotation_deg 45).2 = .einval ∧
      (copybit_set_parameter req copybit_rotation_deg 45).1 ≠ req ∧
      requestAfter req [⟨copybit_rotation_deg, 45⟩] ≠
        requestAfter req (succeeded req [⟨copybit_rotation_deg, 45⟩]) :=
  ⟨⟨blt_transform_ccw_rot_270, 0, 255⟩, by decide⟩

end Codinalte.Copybit
