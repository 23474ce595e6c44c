import Mathlib.Data.List.Basic
import Mathlib.Data.Option.Basic

/-! The data of the hardware composer: the layer list of one frame, what gralloc tells about
a buffer, and the part of the context that prepare, set and setparameter share. -/

namespace Codinalte.Hwcomposer

/-- A non-NULL buffer handle. -/
abbrev Handle := Nat

def hwcFramebuffer : Int := 0
def hwcOverlay : Int := 1
def hwcSkipLayer : BitVec 32 := 0x1
def hwcGeometryChanged : BitVec 32 := 0x1
def hwcHintTripleBuffer : BitVec 32 := 0x1
def hwcHintClearFb : BitVec 32 := 0x2
def halTransformRot90 : BitVec 32 := 0x4
def grallocBufTypeHwmem : Int := 0
def cachedLayersSize : Nat := 16
def intMax : Int := 2147483647

structure HwcRect where
  left : Int
  top : Int
  right : Int
  bottom : Int
deriving DecidableEq

/-- `rects` is NULL or an array of `numRects` rectangles. -/
structure HwcRegion where
  numRects : Nat
  rects : Option (List HwcRect)
  size : ∀ rs ∈ rects, rs.length = numRects
deriving DecidableEq

structure HwcLayer where
  compositionType : Int
  hints : BitVec 32
  flags : BitVec 32
  handle : Option Handle
  transform : BitVec 32
  visibleRegionScreen : HwcRegion
deriving DecidableEq

structure HwcLayerList where
  flags : BitVec 32
  hwLayers : List HwcLayer
deriving DecidableEq

def HwcLayer.isSkip (layer : HwcLayer) : Bool := layer.flags &&& hwcSkipLayer ≠ 0

def HwcLayer.isOverlay (layer : HwcLayer) : Bool := layer.compositionType = hwcOverlay

def HwcLayerList.geometryChanged (list : HwcLayerList) : Bool :=
  list.flags &&& hwcGeometryChanged ≠ 0

def HwcLayerList.numHwLayers (list : HwcLayerList) : Nat := list.hwLayers.length

/-- What `gralloc->perform` answers for a handle. -/
structure GrallocBuf where
  type : Int
  format : Int
  width : Int
  height : Int
deriving DecidableEq

structure CompdevRect where
  width : Nat
  height : Nat
deriving DecidableEq

structure HwcHdmiSettings where
  hdmiPlugged : Bool
  resolutionchanged : Bool
  res : CompdevRect
deriving DecidableEq

/-- The commands written to the hdmid socket. -/
inductive HdmidCommand where
  | preferredResolution (res : CompdevRect)
  | defaultResolution
deriving DecidableEq

/-- `cachedLayers` and `actualCompositionTypes` are malloc'ed blocks, or NULL. -/
structure HwcomposerContext where
  bypassOvly : Bool
  uiOrientation : Int
  hardwareRotation : Int
  videoplayback : Bool
  hdmiSettings : HwcHdmiSettings
  pendingRotation : Bool
  cachedLayers : Option (List (Option Handle))
  cachedLayersCount : Nat
  grabbedAllLayers : Bool
  actualCompositionTypes : Option (List Int)
  actualCompositionTypesSize : Nat
deriving DecidableEq

/-- The context as `hwcomposer_device_open` leaves it: cleared by `memset`. -/
def HwcomposerContext.opened : HwcomposerContext where
  bypassOvly := false
  uiOrientation := 0
  hardwareRotation := 0
  videoplayback := false
  hdmiSettings := ⟨false, false, ⟨0, 0⟩⟩
  pendingRotation := false
  cachedLayers := none
  cachedLayersCount := 0
  grabbedAllLayers := false
  actualCompositionTypes := none
  actualCompositionTypesSize := 0

/-- Write `xs` into a block from index 0 on; `none` is a store outside the block. -/
def store {α : Type} : Option (List α) → List α → Option (Option (List α))
  | blk, [] => some blk
  | none, _ :: _ => none
  | some blk, x :: xs =>
    if (x :: xs).length ≤ blk.length then some (some (x :: xs ++ blk.drop (x :: xs).length))
    else none

/-- Read the first `n` entries of a block; `none` is a load outside the block. -/
def load {α : Type} (blk : Option (List α)) (n : Nat) : Option (List α) :=
  if n = 0 then some []
  else match blk with
    | none => none
    | some xs => if n ≤ xs.length then some (xs.take n) else none

theorem store_eq_some {α : Type} {blk : List α} {xs : List α} (h : xs.length ≤ blk.length) :
    store (some blk) xs = some (some (xs ++ blk.drop xs.length)) := by
  cases xs with
  | nil => simp [store]
  | cons x xs => simp only [store, if_pos h]

theorem load_take {α : Type} {blk : List α} {n : Nat} (h : n ≤ blk.length) :
    load (some blk) n = some (blk.take n) := by
  unfold load
  split_ifs with h0
  · simp [h0]
  · simp only [if_pos h]

end Codinalte.Hwcomposer
