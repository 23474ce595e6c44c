import Codinalte.Hwcomposer.Prepare

/-! `hwcomposer_set`: the composition types put back, the scene and the layer sent to compdev,
and the GPU job. The worker that set waits for at its end is in `Codinalte.Hwcomposer.Worker`. -/

namespace Codinalte.Hwcomposer

/-- The values of `enum compdev_transform` that a rotation in degrees is turned into. -/
inductive CompdevTransform where
  | rot0
  | rot90Cw
  | rot180
  | rot270Cw
deriving DecidableEq

def toCompdevRotation (rotation : Int) : CompdevTransform :=
  if rotation = 90 then .rot90Cw
  else if rotation = 180 then .rot180
  else if rotation = 270 then .rot270Cw
  else .rot0

def toDegrees : CompdevTransform → Nat
  | .rot90Cw => 90
  | .rot180 => 180
  | .rot270Cw => 270
  | .rot0 => 0

-- the display size and the two other rotations only reach locals that nothing reads
def hwcRotate (rect : HwcRect) (halRot : BitVec 32) : HwcRect :=
  if halRot &&& halTransformRot90 ≠ 0 then
    { top := rect.left, left := rect.top, right := rect.bottom, bottom := rect.right }
  else rect

def growFrameRect (transform : BitVec 32) (frame rect : HwcRect) : HwcRect :=
  let rectRot := hwcRotate rect transform
  { top := min rectRot.top frame.top
    left := min rectRot.left frame.left
    right := max rectRot.right frame.right
    bottom := max rectRot.bottom frame.bottom }

def emptyFrameRect : HwcRect := { left := intMax, top := intMax, right := 0, bottom := 0 }

/-- How many layers go to compdev, and the frame they cover together. -/
def countCompdevLayers (frame : HwcRect) (count : Nat) : List HwcLayer → HwcRect × Nat
  | [] => (frame, count)
  | layer :: rest =>
    if layer.compositionType = hwcFramebuffer then (frame, count)
    else match layer.visibleRegionScreen.rects with
      | none => countCompdevLayers frame count rest
      | some rects =>
        if 0 < layer.visibleRegionScreen.numRects then
          countCompdevLayers (rects.foldl (growFrameRect layer.transform) frame) (count + 1) rest
        else countCompdevLayers frame count rest

def compdevLayerCount (layers : List HwcLayer) : Nat :=
  (countCompdevLayers emptyFrameRect 0 layers).2

def frameRect (layers : List HwcLayer) : HwcRect :=
  (countCompdevLayers emptyFrameRect 0 layers).1

/-- The arguments of `hwc_post_compdev_scene`. -/
structure CompdevScene where
  fbTransform : CompdevTransform
  appTransform : CompdevTransform
  imgCount : Nat
  reuseFbImg : Bool
  hwTransform : CompdevTransform
deriving DecidableEq

def postScene (ctx : HwcomposerContext) (layers : List HwcLayer) : CompdevScene :=
  let fbTransform := toCompdevRotation ctx.uiOrientation
  let hwTransform := toCompdevRotation ctx.hardwareRotation
  if 0 < compdevLayerCount layers ∧ layers.length ≠ compdevLayerCount layers then
    if ctx.grabbedAllLayers then ⟨fbTransform, .rot0, 1, true, hwTransform⟩
    else ⟨fbTransform, .rot0, 2, false, hwTransform⟩
  else
    -- a portrait application stands up on the clone
    let appTransform := if (toDegrees fbTransform + toDegrees hwTransform) % 360 = 0
      then CompdevTransform.rot90Cw else .rot0
    ⟨fbTransform, appTransform, 1, false, hwTransform⟩

def restoreTypes (layers : List HwcLayer) (types : List Int) : List HwcLayer :=
  layers.zipWith (fun layer type => { layer with compositionType := type }) types

def ungrabFbLayersLocked (ctx : HwcomposerContext) (layers : List HwcLayer) :
    Option (List HwcLayer) :=
  (load ctx.actualCompositionTypes layers.length).map (restoreTypes layers)

/-- What `worker_signal_update` hands to the worker. -/
structure WorkerUpdate where
  workList : Option HwcLayerList
  compdevLayerCount : Nat
  compdevBypassCount : Nat
  frameRect : HwcRect
  uiOrientation : Int
  hardwareRotation : Int
deriving DecidableEq

/-- What set is told from outside: whether display and surface are both there, and whether
compdev answers that it has a listener. -/
structure SetEnv where
  dpyAndSur : Bool
  listener : Bool
deriving DecidableEq

/-- What one set does. The GPU job is the composition-complete call with `swap` after it. -/
structure Posted where
  list : Option HwcLayerList
  scene : Option CompdevScene
  update : Option WorkerUpdate
  gpuJob : Bool
  swap : Bool
deriving DecidableEq

def signalUpdate (ctx : HwcomposerContext) (env : SetEnv) (list : Option HwcLayerList)
    (layers : List HwcLayer) : Option WorkerUpdate :=
  let bypassCount := if ctx.bypassOvly && env.listener then 1 else 0
  if 0 < compdevLayerCount layers ∨ 0 < bypassCount then
    some ⟨list, compdevLayerCount layers, bypassCount, frameRect layers,
      ctx.uiOrientation, ctx.hardwareRotation⟩
  else none

def hwcomposerSet (ctx : HwcomposerContext) (env : SetEnv) (list : Option HwcLayerList) :
    Option Posted :=
  match list with
  | none =>
    let gpuJob := !ctx.grabbedAllLayers
    some ⟨none, none, signalUpdate ctx env none [], gpuJob, gpuJob && env.dpyAndSur⟩
  | some list =>
    let restored := if ctx.grabbedAllLayers then ungrabFbLayersLocked ctx list.hwLayers
      else some list.hwLayers
    restored.map fun layers =>
      let list := { list with hwLayers := layers }
      let gpuJob := !ctx.grabbedAllLayers && decide (layers.length ≠ compdevLayerCount layers)
      ⟨some list, some (postScene ctx layers), signalUpdate ctx env (some list) layers,
        gpuJob, gpuJob && env.dpyAndSur⟩

theorem restore_overlay_all (layers : List HwcLayer) :
    restoreTypes (overlayAll layers) (layers.map (·.compositionType)) = layers := by
  unfold restoreTypes overlayAll
  induction layers with
  | nil => rfl
  | cons layer rest ih =>
    rw [List.map_cons, List.map_cons, List.zipWith_cons_cons, ih]

end Codinalte.Hwcomposer
