import Codinalte.Gralloc.Layout
import Codinalte.Lib.Machine

/-! The slots of the framebuffer: the mapping, the handles that are given out for parts of it, and
the rotation of the screen. Fields of 32 bits are natural numbers below `2 ^ 32`. -/

namespace Codinalte.Gralloc
open Codinalte.Machine

def toUint32 (value : Nat) : Nat := value % 4294967296

/-- The fields of `fb_var_screeninfo` that are used. -/
structure ScreenInfo where
  xres : Nat
  yres : Nat
  xresVirtual : Nat
  yresVirtual : Nat
  bitsPerPixel : Nat
  rotate : Nat
  yoffset : Nat
deriving DecidableEq

/-- What the driver says of the screen, and where the framebuffer is mapped; `error` holds an
`errno`, and `errno` is what it happens to be where the screen has no memory. -/
structure FbDriver where
  info : ScreenInfo
  lineLength : Nat
  smemLen : Nat
  errno : Int
  vaddr : Except Int Nat

/-- `slot` is a record: `currentBufferIndex` when the handle was given out. -/
structure FbHandle where
  baseAddr : Nat
  offset : Nat
  size : Nat
  slot : Nat
deriving DecidableEq

structure FbMapping where
  baseAddr : Nat
  size : Nat
deriving DecidableEq

/-- The fields of the module and of the framebuffer device, and the handles that are given out. -/
structure FbModule where
  framebuffer : Option FbMapping
  info : ScreenInfo
  lineLength : Nat
  numBuffers : Nat
  bufferMask : BitVec 32
  currentBufferIndex : Nat
  currentBuffer : Option FbHandle
  width : Nat
  height : Nat
  stride : Nat
  handles : List FbHandle
deriving DecidableEq

def FbModule.start : FbModule where
  framebuffer := none
  info := ⟨0, 0, 0, 0, 0, 0, 0⟩
  lineLength := 0
  numBuffers := 0
  bufferMask := 0
  currentBufferIndex := 0
  currentBuffer := none
  width := 0
  height := 0
  stride := 0
  handles := []

/-- What `gralloc_alloc_framebuffer` gives back. -/
inductive FbResult where
  | error (errno : Int)
  | notHandled
  | handle (h : FbHandle) (stride : Nat)
deriving DecidableEq

def pageSize : Nat := 4096

def roundUpToPageSize (x : Nat) : Nat :=
  toUint32 (toUint32 (x + (pageSize - 1)) - toUint32 (x + (pageSize - 1)) % pageSize)

def isPitchMcdeAligned (pitch : Nat) : Bool := pitch % 8 == 0

/-- `FB_ROTATE_UR`, `FB_ROTATE_CW`, `FB_ROTATE_UD` and `FB_ROTATE_CCW`. -/
def fbRotateToDegree : Nat → Nat
  | 0 => 0
  | 1 => 90
  | 2 => 180
  | 3 => 270
  | _ => 0

def degreeToFbRotate (degree : Nat) : Nat :=
  if degree % 360 = 0 then 0
  else if degree % 360 = 270 then 3
  else if degree % 360 = 180 then 2
  else if degree % 360 = 90 then 1
  else 0

namespace FbModule

/-- A mapping that fails leaves a framebuffer at the address zero, and one that succeeds fits in the
address space. Without lines the division by `yres` has no result. -/
def mapFrameBufferLocked (m : FbModule) (driver : Except Int FbDriver) : Option (FbModule × Int) :=
  if m.framebuffer.isSome then some (m, 0)
  else match driver with
    | .error errno => some (m, -errno)
    | .ok d =>
      if d.smemLen = 0 then some (m, -d.errno)
      else if d.info.yres = 0 then none
      else
        let fbSize := roundUpToPageSize (toUint32 (d.lineLength * d.info.yresVirtual))
        let m := { m with
          info := d.info
          lineLength := d.lineLength
          framebuffer := some ⟨0, fbSize⟩
          numBuffers := d.info.yresVirtual / d.info.yres
          bufferMask := 0
          currentBufferIndex := 4294967295 }
        match d.vaddr with
        -- `module->framebuffer` stays set
        | .error errno => some (m, -errno)
        | .ok vaddr =>
          if vaddr + fbSize ≤ 4294967296 then
            some ({ m with framebuffer := some ⟨vaddr, fbSize⟩ }, 0)
          else none

/-- `size_t bufferSize`. -/
def bufferSize (m : FbModule) : Nat := toUint32 (m.lineLength * m.info.yres)

end FbModule

/-- The loop that looks for a free slot, with the index it ends at. -/
def findFreeSlot (numBuffers : Nat) (bufferMask : BitVec 32) : Nat → Nat → Nat × Bool
  | 0, current => (current, false)
  | i + 1, current =>
    let next := toUint32 (current + 1) % numBuffers
    if bufferMask &&& (1#32 <<< next) = 0 then (next, true)
    else findFreeSlot numBuffers bufferMask i next

namespace FbModule

/-- The part of `gralloc_alloc_framebuffer_locked` that finds the framebuffer mapped. -/
def allocSlot (m : FbModule) (fb : FbMapping) (size : Nat) : Option (FbModule × FbResult) :=
  if m.numBuffers = 1 then some (m, .notHandled)
  -- every buffer is in use
  else if (1#32 <<< m.numBuffers) - 1#32 ≤ m.bufferMask then some (m, .error enomem)
  else
    let (index, found) := findFreeSlot m.numBuffers m.bufferMask m.numBuffers m.currentBufferIndex
    let vaddr := toUint32 (fb.baseAddr + m.bufferSize * index)
    let h : FbHandle := ⟨vaddr, toUint32 (vaddr + (4294967296 - fb.baseAddr)), size, index⟩
    if m.info.bitsPerPixel = 0 then none
    else some ({ m with
      bufferMask := if found then m.bufferMask ||| (1#32 <<< index) else m.bufferMask
      currentBufferIndex := index
      handles := m.handles ++ [h] },
      .handle h (toUint32 (m.lineLength * 8) / m.info.bitsPerPixel))

def allocFramebufferLocked (m : FbModule) (size : Nat) (driver : Except Int FbDriver) :
    Option (FbModule × FbResult) :=
  (m.mapFrameBufferLocked driver).bind fun (m, err) =>
    if err < 0 then some (m, .error (-err))
    else m.framebuffer.bind fun fb => m.allocSlot fb size

/-- `gralloc_free_pmem` of a handle with `PRIV_FLAGS_FRAMEBUFFER`. -/
def freePmem (m : FbModule) (k : Nat) (h : FbHandle) : Option FbModule :=
  m.framebuffer.bind fun fb =>
    if m.bufferSize = 0 then none
    else
      let index := toUint32 (h.baseAddr + (4294967296 - fb.baseAddr)) / m.bufferSize
      some { m with
        bufferMask := m.bufferMask &&& ~~~(1#32 <<< index)
        handles := m.handles.eraseIdx k }

/-- `fb_device_open`: the fields of the device. -/
def deviceOpen (m : FbModule) (driver : Except Int FbDriver) : Option (FbModule × Int) :=
  (m.mapFrameBufferLocked driver).bind fun (m, status) =>
    if 0 ≤ status then
      if m.info.bitsPerPixel / 8 = 0 then none
      else some ({ m with
        width := m.info.xres
        height := m.info.yres
        stride := m.lineLength / (m.info.bitsPerPixel / 8) }, status)
    else some (m, status)

/-- The pitch of lines of the given number of pixels. -/
def pitch (m : FbModule) (pixels : Nat) : Nat := toUint32 (pixels * m.info.bitsPerPixel) / 8

/-- The degree is accepted, and one side of the screen becomes the other. -/
def switchesWidthHeight (m : FbModule) (degree : Nat) : Bool :=
  degree % 90 == 0 && isPitchMcdeAligned (m.pitch m.info.xres) &&
    isPitchMcdeAligned (m.pitch m.info.yres) &&
    fbRotateToDegree m.info.rotate % 180 != degree % 180

/-- The branch of `fb_rotate` for `switch_width_height`. -/
def switchWidthHeight (m : FbModule) : Option FbModule :=
  if m.info.yres = 0 then none
  else
    let numBufs := m.info.yresVirtual / m.info.yres
    some { m with
      info := { m.info with
        xres := m.info.yres
        yres := m.info.xres
        xresVirtual := m.info.yres
        yresVirtual := toUint32 (m.info.xres * numBufs) }
      -- without the padding that the driver has put to the lines
      lineLength := m.pitch m.info.yres
      width := m.height
      height := m.width
      stride := m.info.yres }

def fbRotate (m : FbModule) (degree : Nat) : Option (FbModule × Int) :=
  if degree % 90 ≠ 0 then some (m, -einval)
  else if ¬ isPitchMcdeAligned (m.pitch m.info.xres) ∨
      ¬ isPitchMcdeAligned (m.pitch m.info.yres) then some (m, -enomsg)
  else
    let rotated := { m with info := { m.info with rotate := degreeToFbRotate degree } }
    if fbRotateToDegree m.info.rotate % 180 ≠ degree % 180 then
      rotated.switchWidthHeight.map fun m => (m, 0)
    else some (rotated, 0)

/-- `fb_post` of a handle of the framebuffer: the line that the screen starts with. -/
def fbPost (m : FbModule) (h : FbHandle) : Option FbModule :=
  m.framebuffer.bind fun fb =>
    if m.lineLength = 0 then none
    else
      let offset := toUint32 (h.baseAddr + (4294967296 - fb.baseAddr))
      some { m with
        info := { m.info with yoffset := offset / m.lineLength }
        currentBuffer := some h }

end FbModule

inductive FbAction where
  | deviceOpen (driver : Except Int FbDriver)
  | alloc (size : Nat) (driver : Except Int FbDriver)
  | free (k : Nat)
  | rotate (degree : Nat)
  | post (k : Nat)

/-- A handle that is freed or posted is the `k`-th of those that are given out; there is a device to
rotate once the framebuffer is mapped. -/
def FbModule.step (m : FbModule) : FbAction → Option FbModule
  | .deviceOpen driver => (m.deviceOpen driver).map Prod.fst
  | .alloc size driver => (m.allocFramebufferLocked size driver).map Prod.fst
  | .free k => m.handles[k]?.bind fun h => m.freePmem k h
  | .rotate degree =>
    if m.framebuffer.isSome then (m.fbRotate degree).map Prod.fst else none
  | .post k => m.handles[k]?.bind fun h => m.fbPost h

end Codinalte.Gralloc
