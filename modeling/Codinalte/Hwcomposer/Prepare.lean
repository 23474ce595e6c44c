import Codinalte.Hwcomposer.Types

/-! `hwcomposer_prepare` and `hwcomposer_setparameter`. The functions with a `none` result
dereference NULL or leave an allocated block on that input. -/

namespace Codinalte.Hwcomposer

/-- Whether the `malloc` reached at each place of one prepare succeeds. -/
structure Mallocs where
  check : Bool
  populate : Bool
  clear : Bool
  grab : Bool
deriving DecidableEq

/-- The input of one `hwcomposer_prepare`; `list` is `none` for a NULL list. -/
structure Frame where
  list : Option HwcLayerList
  gralloc : Handle → GrallocBuf
  mallocs : Mallocs

def yuvFormats : List Int := [0x32315659, 0x10, 0x21, 0x13, 0x11, 0xE, 0x14]

def bufferIsYUV (gralloc : Handle → GrallocBuf) (handle : Handle) : Bool :=
  (gralloc handle).format ∈ yuvFormats

def bufferIsHWMEM (gralloc : Handle → GrallocBuf) (handle : Handle) : Bool :=
  (gralloc handle).type = grallocBufTypeHwmem

/-- A layer whose buffer is a hwmem buffer in a YUV format. -/
def isVideo (gralloc : Handle → GrallocBuf) (layer : HwcLayer) : Bool :=
  layer.handle.any fun h => bufferIsHWMEM gralloc h && bufferIsYUV gralloc h

def getHdmiResolution (width height : Nat) : CompdevRect :=
  if height < width then
    if width ≤ 1280 then
      ⟨1280, if height ≤ 720 then 720 else if height ≤ 768 then 768 else 800⟩
    else if width ≤ 1360 then ⟨1360, 768⟩
    else if width ≤ 1366 then ⟨1366, 768⟩
    else if width ≤ 1440 then ⟨1440, if height ≤ 480 then 480 else 576⟩
    else ⟨1920, 1080⟩
  else
    if height ≤ 600 then ⟨800, 600⟩
    else if height ≤ 720 then ⟨1280, 720⟩
    else if height ≤ 768 then
      ⟨if width ≤ 1024 then 1024 else if width ≤ 1280 then 1280 else
        if width ≤ 1360 then 1360 else 1366, 768⟩
    else if height ≤ 800 then ⟨1280, 800⟩
    else ⟨1920, 1080⟩

/-- A `__u16` made from the `int` that gralloc returns. -/
def toU16 (n : Int) : Nat := (n % 65536).toNat

/-- The search for a video layer, with the resolution request it sends to hdmid. -/
def findVideo (gralloc : Handle → GrallocBuf) :
    HwcomposerContext → List HwcLayer → HwcomposerContext × List HdmidCommand
  | ctx, [] => (ctx, [])
  | ctx, layer :: rest =>
    if isVideo gralloc layer then
      let ctx := { ctx with videoplayback := true }
      if ctx.hdmiSettings.resolutionchanged || !ctx.hdmiSettings.hdmiPlugged then (ctx, [])
      else
        let buf := gralloc (layer.handle.getD 0)
        let res := getHdmiResolution (toU16 buf.width) (toU16 buf.height)
        if ctx.hdmiSettings.res ≠ res then
          let settings := { ctx.hdmiSettings with res := res, resolutionchanged := true }
          let (ctx, cmds) := findVideo gralloc { ctx with hdmiSettings := settings } rest
          (ctx, .preferredResolution res :: cmds)
        else findVideo gralloc ctx rest
    else findVideo gralloc ctx rest

/-- The layer after the bottom one is reset before the loop leaves. -/
def resetHead : List HwcLayer → List HwcLayer
  | [] => []
  | layer :: rest => { layer with compositionType := hwcFramebuffer } :: rest

/-- The loop that gives the bottom layer to the overlay where it can. -/
def decideLayers (gralloc : Handle → GrallocBuf) (ctx : HwcomposerContext) :
    List HwcLayer → HwcomposerContext × List HwcLayer
  | [] => (ctx, [])
  | layer :: rest =>
    let layer := { layer with compositionType := hwcFramebuffer }
    if layer.visibleRegionScreen.numRects = 0 then (ctx, layer :: rest)
    else if layer.isSkip || layer.handle.isNone then
      -- a skipped layer might be needed by listeners for compdev
      ({ ctx with bypassOvly := ctx.bypassOvly || isVideo gralloc layer }, layer :: rest)
    else if isVideo gralloc layer then
      (ctx, { layer with
        compositionType := hwcOverlay
        hints := hwcHintTripleBuffer ||| hwcHintClearFb } :: resetHead rest)
    else (ctx, layer :: resetHead rest)

/-- The part of prepare that runs for a changed geometry or a skip layer. -/
def decideComposition (gralloc : Handle → GrallocBuf) (ctx : HwcomposerContext)
    (list : HwcLayerList) : HwcomposerContext × List HwcLayer × List HdmidCommand :=
  if list.hwLayers.any (·.isSkip) || list.geometryChanged then
    let (ctx, cmds) := findVideo gralloc { ctx with videoplayback := false } list.hwLayers
    let (ctx, layers) := decideLayers gralloc ctx list.hwLayers
    (ctx, layers, cmds)
  else (ctx, list.hwLayers, [])

def initLayerCacheLocked (malloc : Bool) (ctx : HwcomposerContext) : HwcomposerContext :=
  if ctx.cachedLayers.isNone && !malloc then ctx
  else { ctx with
    cachedLayers := some (List.replicate cachedLayersSize none)
    cachedLayersCount := 0
    grabbedAllLayers := false }

/-- The result of `init_layer_cache_locked` is not looked at: where its `malloc` failed the
first store goes through NULL. -/
def populateCachedLayerLocked (malloc : Bool) (ctx : HwcomposerContext)
    (layers : List HwcLayer) : Option HwcomposerContext :=
  let ctx := initLayerCacheLocked malloc ctx
  (store ctx.cachedLayers (layers.map (·.handle))).map fun blk =>
    { ctx with
      cachedLayers := blk
      cachedLayersCount :=
        if layers.any (·.isOverlay) then ctx.cachedLayersCount + layers.length else 0 }

/-- How the comparison of a list with the cache ends. -/
inductive CacheScan where
  | hit
  | mismatch
  | nullOrSkip
deriving DecidableEq

def scanCachedLayers : List (Option Handle) → List HwcLayer → Option CacheScan
  | _, [] => some .hit
  | [], _ :: _ => none
  | cached :: blk, layer :: rest =>
    if layer.handle.isSome && !layer.isSkip then
      if layer.isOverlay then scanCachedLayers blk rest
      else if layer.handle = cached then scanCachedLayers blk rest
      else some .mismatch
    else some .nullOrSkip

def checkCachedLayersLocked (mallocs : Mallocs) (ctx : HwcomposerContext)
    (layers : List HwcLayer) : Option (HwcomposerContext × Bool) :=
  let ctx := if ctx.cachedLayers.isNone then initLayerCacheLocked mallocs.check ctx else ctx
  if cachedLayersSize < layers.length then some (ctx, false)
  else if ctx.cachedLayersCount = 0 ∨ ctx.cachedLayersCount ≠ layers.length then
    (populateCachedLayerLocked mallocs.populate ctx layers).map (·, false)
  else
    match ctx.cachedLayers.bind (scanCachedLayers · layers) with
    | none => none
    | some .hit => some (ctx, true)
    | some .mismatch => (populateCachedLayerLocked mallocs.populate ctx layers).map (·, false)
    | some .nullOrSkip => some ({ ctx with cachedLayersCount := 0 }, false)

def overlayAll (layers : List HwcLayer) : List HwcLayer :=
  layers.map fun layer => { layer with compositionType := hwcOverlay }

/-- The layers as grabbing leaves them, and whether it succeeded. -/
def grabAllLayersLocked (malloc : Bool) (ctx : HwcomposerContext) (layers : List HwcLayer) :
    Option (HwcomposerContext × List HwcLayer × Bool) :=
  let ctx :=
    if ctx.actualCompositionTypesSize ≠ layers.length ∧ ctx.actualCompositionTypes.isSome then
      { ctx with actualCompositionTypes := none, actualCompositionTypesSize := 0 }
    else ctx
  let ctx :=
    if ctx.actualCompositionTypes.isNone then
      { ctx with
        actualCompositionTypes := if malloc then some (List.replicate layers.length 0) else none
        actualCompositionTypesSize := layers.length }
    else ctx
  if ctx.actualCompositionTypes.isNone then some (ctx, layers, false)
  else
    (store ctx.actualCompositionTypes (layers.map (·.compositionType))).map fun blk =>
      ({ ctx with actualCompositionTypes := blk, grabbedAllLayers := true },
        overlayAll layers, true)

/-- What prepare did with the layer cache. -/
inductive CacheOutcome where
  | noList
  | cleared
  | missed
  | grabbed
  | grabFailed
deriving DecidableEq

def CacheOutcome.isHit : CacheOutcome → Bool
  | .grabbed | .grabFailed => true
  | _ => false

def cacheLayers (mallocs : Mallocs) (ctx : HwcomposerContext) (layers : List HwcLayer) :
    Option (HwcomposerContext × List HwcLayer × CacheOutcome) :=
  if layers.length ≠ 1 ∧ ctx.pendingRotation = false then
    match checkCachedLayersLocked mallocs ctx layers with
    | none => none
    | some (ctx, false) => some (ctx, layers, .missed)
    | some (ctx, true) =>
      match grabAllLayersLocked mallocs.grab ctx layers with
      | none => none
      | some (ctx, layers, true) => some (ctx, layers, .grabbed)
      | some (ctx, layers, false) => some (ctx, layers, .grabFailed)
  else some (initLayerCacheLocked mallocs.clear ctx, layers, .cleared)

/-- The end of prepare: a resolution asked for earlier is taken back. -/
def revertResolution (ctx : HwcomposerContext) : HwcomposerContext × List HdmidCommand :=
  if (!ctx.videoplayback || !ctx.hdmiSettings.hdmiPlugged) &&
      ctx.hdmiSettings.resolutionchanged then
    ({ ctx with hdmiSettings :=
        { ctx.hdmiSettings with resolutionchanged := false, res := ⟨0, 0⟩ } },
      if ctx.hdmiSettings.hdmiPlugged then [.defaultResolution] else [])
  else (ctx, [])

/-- What one prepare leaves: the list handed back to the caller, the return value, what
happened to the cache and the commands sent to hdmid. -/
structure Prepared where
  ctx : HwcomposerContext
  list : Option HwcLayerList
  ret : Int
  cache : CacheOutcome
  hdmid : List HdmidCommand
deriving DecidableEq

def hwcomposerPrepare (ctx : HwcomposerContext) (f : Frame) : Option Prepared :=
  let ctx := { ctx with bypassOvly := false }
  match f.list with
  | none =>
    let (ctx, cmds) := revertResolution ctx
    some ⟨ctx, none, 0, .noList, cmds⟩
  | some list =>
    let (ctx, layers, cmds) := decideComposition f.gralloc ctx list
    match cacheLayers f.mallocs ctx layers with
    | none => none
    | some (ctx, layers, .grabFailed) =>
      -- leaves before pending_rotation and the resolution are looked at
      some ⟨ctx, some { list with hwLayers := layers }, -1, .grabFailed, cmds⟩
    | some (ctx, layers, outcome) =>
      let (ctx, revert) := revertResolution { ctx with pendingRotation := false }
      some ⟨ctx, some { list with hwLayers := layers }, 0, outcome, cmds ++ revert⟩

/-- The parameters that `hwcomposer_setparameter` knows. -/
inductive HwcParam where
  | uiOrientation
  | hardwareRotation
  | hdmiPlugged
  | other
deriving DecidableEq

def hwcomposerSetparameter (ctx : HwcomposerContext) (param : HwcParam) (value : Int) :
    HwcomposerContext × Int :=
  match param with
  | .uiOrientation => ({ ctx with uiOrientation := value, pendingRotation := true }, 0)
  | .hardwareRotation => ({ ctx with hardwareRotation := value, pendingRotation := true }, 0)
  | .hdmiPlugged =>
    ({ ctx with hdmiSettings := { ctx.hdmiSettings with hdmiPlugged := decide (0 < value) } }, 0)
  | .other => (ctx, -1)

end Codinalte.Hwcomposer
