import Hamachi.NetworkListDrawing
import Hamachi.Painting

namespace Hamachi.Display

/-!
# The frame buffers of `graphics.cpp`

`Scene2D` takes its frame buffers from one block of video memory, one after the
other.  A pixel that is on the screen has its own word in each of them.
-/

/-- What the system calls of `Scene2D::Init` return, and where the memory is
put. -/
structure VideoCalls where
  opened : Int
  createdEqueue : Int
  allocated : Int
  directMemOff : Int
  mapped : Int
  videoMem : Int
  registered : Int

/-- `Scene2D`. -/
structure Scene2D extends Scene where
  depth : Int
  video : Int := 0
  directMemOff : Int := 0
  directMemAllocationSize : Int := 0
  videoMemSP : Int := 0
  videoMem : Int := 0
  frameBuffers : List Int := []
  frameBufferSize : Int
  activeFrameBufferIdx : Nat := 0

/-- The words of the video memory, by their addresses. -/
abbrev VideoMemory :=
  Int → BitVec 32

/-- The color of a pixel in memory. -/
def encodedColor (color : Color) : BitVec 32 :=
  0x80000000#32 + color.r.setWidth 32 <<< 16 + color.g.setWidth 32 <<< 8 +
    color.b.setWidth 32

namespace Scene2D

/-- `Scene2D::Scene2D`. -/
def create (w h pixelDepth : Int) : Scene2D where
  width := w
  height := h
  depth := pixelDepth
  frameBufferSize := w * h * pixelDepth

/-- `allocateVideoMem`. -/
def allocateVideoMem
    (calls : VideoCalls)
    (size alignment : Int)
    (scene : Scene2D) :
    Bool × Scene2D :=
  let scene := { scene with
    directMemAllocationSize :=
      (size + alignment - 1) / alignment * alignment }
  if calls.allocated < 0 then
    (false, { scene with directMemAllocationSize := 0 })
  else if calls.mapped < 0 then
    (false, { scene with directMemOff := 0, directMemAllocationSize := 0 })
  else
    (true, { scene with
      directMemOff := calls.directMemOff
      videoMem := calls.videoMem
      videoMemSP := calls.videoMem })

/-- `allocateDisplayMem`. -/
def allocateDisplayMem (size : Int) (scene : Scene2D) : Int × Scene2D :=
  (scene.videoMemSP, { scene with videoMemSP := scene.videoMemSP + size })

/-- The loop of `allocateFrameBuffers`. -/
def setDisplayBuffers : Nat → Scene2D → Scene2D
  | 0, scene => scene
  | num + 1, scene =>
      let (allocatedPtr, scene) :=
        scene.allocateDisplayMem scene.frameBufferSize
      setDisplayBuffers num
        { scene with frameBuffers := scene.frameBuffers ++ [allocatedPtr] }

/-- `allocateFrameBuffers`. -/
def allocateFrameBuffers
    (calls : VideoCalls)
    (num : Nat)
    (scene : Scene2D) :
    Bool × Scene2D :=
  (calls.registered = 0,
    setDisplayBuffers num { scene with frameBuffers := [] })

/-- `Scene2D::Init`. -/
def init
    (calls : VideoCalls)
    (memSize : Int)
    (numFrameBuffers : Nat)
    (scene : Scene2D) :
    Bool × Scene2D :=
  let scene := { scene with video := calls.opened, videoMem := 0 }
  if scene.video < 0 then
    (false, scene)
  else if calls.createdEqueue < 0 then
    (false, scene)
  else
    match scene.allocateVideoMem calls memSize 0x200000 with
    | (false, scene) => (false, scene)
    | (true, scene) => scene.allocateFrameBuffers calls numFrameBuffers

/-- `SetActiveFrameBuffer`. -/
def setActiveFrameBuffer (index : Nat) (scene : Scene2D) : Scene2D :=
  { scene with activeFrameBufferIdx := index }

/-- `FrameBufferSwap`. -/
def frameBufferSwap (scene : Scene2D) : Scene2D :=
  { scene with
    activeFrameBufferIdx := (scene.activeFrameBufferIdx + 1) % 2 }

/-- The word of a pixel in the frame buffer at an address. -/
def address (scene : Scene2D) (base : Int) (point : Int × Int) : Int :=
  base + 4 * (point.2 * scene.width + point.1)

/-- `DrawPixel`; nothing without an active frame buffer. -/
def drawPixel
    (scene : Scene2D)
    (memory : VideoMemory)
    (write : PixelWrite) :
    Option VideoMemory :=
  scene.frameBuffers[scene.activeFrameBufferIdx]?.map fun base =>
    Function.update memory (scene.address base (write.x, write.y))
      (encodedColor write.color)

/-- Calls of `DrawPixel` in a row. -/
def drawPixels
    (scene : Scene2D) :
    List PixelWrite → VideoMemory → Option VideoMemory
  | [], memory => some memory
  | write :: rest, memory =>
      (scene.drawPixel memory write).bind (drawPixels scene rest)

/-- The word of a pixel in a frame buffer. -/
def pixel
    (scene : Scene2D)
    (memory : VideoMemory)
    (index : Nat)
    (point : Int × Int) :
    Option (BitVec 32) :=
  scene.frameBuffers[index]?.map fun base =>
    memory (scene.address base point)

/-- `FrameBufferClear`. -/
def frameBufferClear (scene : Scene2D) (memory : VideoMemory) :
    Option VideoMemory :=
  scene.drawPixels (drawRectangle 0 0 scene.width scene.height white) memory

end Scene2D

/-- The points of the screen. -/
def OnScreen (point : Int × Int) : Prop :=
  0 ≤ point.1 ∧ point.1 < scene.width ∧
    0 ≤ point.2 ∧ point.2 < scene.height

instance (point : Int × Int) : Decidable (OnScreen point) :=
  inferInstanceAs (Decidable (_ ∧ _))

theorem onScreen_write
    {write : PixelWrite}
    (onScreen : write.OnScreen scene) :
    OnScreen (write.x, write.y) :=
  onScreen

/-- Two frame buffers of the size of the screen, in one block of memory. -/
structure Scene2D.DoubleBuffered (scene : Scene2D) : Prop where
  size : scene.toScene = Hamachi.scene
  bufferSize : scene.frameBufferSize = 8294400
  buffers :
    scene.frameBuffers = [scene.videoMem, scene.videoMem + 8294400]
  room : 2 * 8294400 ≤ scene.directMemAllocationSize
  opened : 0 ≤ scene.video
  active : scene.activeFrameBufferIdx < 2

/-- The frame buffers follow each other. -/
theorem Scene2D.setDisplayBuffers_eq
    (num : Nat)
    (scene : Scene2D) :
    scene.setDisplayBuffers num = { scene with
      videoMemSP := scene.videoMemSP + num * scene.frameBufferSize
      frameBuffers :=
        scene.frameBuffers ++ (List.range num).map fun (i : Nat) =>
          scene.videoMemSP + i * scene.frameBufferSize } := by
  induction num generalizing scene with
  | zero =>
      simp [setDisplayBuffers]
  | succ num inductionHypothesis =>
      refine (inductionHypothesis _).trans ?_
      rw [List.range_succ_eq_map]
      congr 1
      · push_cast
        ring
      · have shifted :
            ∀ i : Nat,
              scene.videoMemSP + scene.frameBufferSize +
                  i * scene.frameBufferSize =
                scene.videoMemSP + (i + 1 : Nat) * scene.frameBufferSize := by
          intro i
          push_cast
          ring
        simp [shifted]

/-- `gui_init` with the scene of `gui_preinit`; nothing when `Init` fails, which
`gui_init` does not check. -/
def guiInit
    (calls : VideoCalls)
    (memory : VideoMemory) :
    Option (Scene2D × VideoMemory) :=
  match (Scene2D.create 1920 1080 4).init calls (1920 * 1080 * 4 * 2) 2 with
  | (false, _) => none
  | (true, scene) =>
      let scene := scene.setActiveFrameBuffer 0
      (scene.frameBufferClear memory).map fun cleared => (scene, cleared)

/-- Where the calls of `Init` succeed, the scene has its two frame buffers. -/
theorem Scene2D.init_doubleBuffered
    {calls : VideoCalls}
    {scene : Scene2D}
    (succeeds :
      (create 1920 1080 4).init calls (1920 * 1080 * 4 * 2) 2 =
        (true, scene)) :
    (scene.setActiveFrameBuffer 0).DoubleBuffered ∧
      scene.video = calls.opened := by
  simp only [init, allocateVideoMem, allocateFrameBuffers,
    setDisplayBuffers_eq] at succeeds
  split_ifs at succeeds with opened
  all_goals
    simp only [Prod.mk.injEq, Bool.false_eq_true, false_and] at succeeds
  obtain ⟨_, rfl⟩ := succeeds
  refine ⟨{
    size := rfl
    bufferSize := rfl
    buffers := ?_
    room := by simp [setActiveFrameBuffer]
    opened := not_lt.mp opened
    active := Nat.zero_lt_two
  }, rfl⟩
  simp [setActiveFrameBuffer, create, List.range_succ]

theorem guiInit_doubleBuffered
    {calls : VideoCalls}
    {memory cleared : VideoMemory}
    {scene : Scene2D}
    (starts : guiInit calls memory = some (scene, cleared)) :
    scene.DoubleBuffered ∧ scene.video = calls.opened := by
  unfold guiInit at starts
  split at starts
  · cases starts
  · rename_i initial succeeds
    obtain ⟨_, _, isStart⟩ := Option.map_eq_some_iff.mp starts
    cases isStart
    exact Scene2D.init_doubleBuffered succeeds

namespace Scene2D.DoubleBuffered

variable
  {scene : Scene2D}
  {index other : Nat}
  {base otherBase : Int}
  {point otherPoint : Int × Int}

/-- Swapping the frame buffers keeps them. -/
theorem frameBufferSwap
    (buffered : scene.DoubleBuffered) :
    scene.frameBufferSwap.DoubleBuffered where
  size := buffered.size
  bufferSize := buffered.bufferSize
  buffers := buffered.buffers
  room := buffered.room
  opened := buffered.opened
  active := Nat.mod_lt _ Nat.zero_lt_two

/-- There are no more than two frame buffers. -/
theorem index_lt
    (buffered : scene.DoubleBuffered)
    (isBase : scene.frameBuffers[index]? = some base) :
    index < 2 := by
  have inList := (List.getElem?_eq_some_iff.mp isBase).1
  rwa [buffered.buffers] at inList

/-- The frame buffer at an index. -/
theorem frameBuffers_getElem?
    (buffered : scene.DoubleBuffered)
    (within : index < 2) :
    scene.frameBuffers[index]? = some (scene.videoMem + 8294400 * index) := by
  rw [buffered.buffers]
  match index with
  | 0 => simp
  | 1 => simp

/-- A frame buffer lies in the video memory. -/
theorem frameBuffer_inside
    (buffered : scene.DoubleBuffered)
    (isBase : scene.frameBuffers[index]? = some base) :
    scene.videoMem ≤ base ∧
      base + scene.frameBufferSize ≤
        scene.videoMem + scene.directMemAllocationSize := by
  have indexed := buffered.index_lt isBase
  rw [buffered.frameBuffers_getElem? indexed, Option.some.injEq] at isBase
  have room := buffered.room
  rw [buffered.bufferSize]
  omega

/-- Frame buffers do not overlap. -/
theorem frameBuffers_apart
    (buffered : scene.DoubleBuffered)
    (isBase : scene.frameBuffers[index]? = some base)
    (isOther : scene.frameBuffers[other]? = some otherBase)
    (different : other ≠ index) :
    base + scene.frameBufferSize ≤ otherBase ∨
      otherBase + scene.frameBufferSize ≤ base := by
  have indexed := buffered.index_lt isBase
  have otherIndexed := buffered.index_lt isOther
  rw [buffered.frameBuffers_getElem? indexed, Option.some.injEq] at isBase
  rw [buffered.frameBuffers_getElem? otherIndexed,
    Option.some.injEq] at isOther
  rw [buffered.bufferSize]
  omega

/-- The word of a pixel lies in its frame buffer. -/
theorem address_inside
    (buffered : scene.DoubleBuffered)
    (base : Int)
    (onScreen : OnScreen point) :
    base ≤ scene.address base point ∧
      scene.address base point + 4 ≤ base + scene.frameBufferSize := by
  obtain ⟨left, right, top, bottom⟩ := onScreen
  simp only [Hamachi.scene] at right bottom
  rw [address, buffered.size, buffered.bufferSize]
  simp only [Hamachi.scene]
  omega

/-- Every pixel of every frame buffer has its own word. -/
theorem address_injective
    (buffered : scene.DoubleBuffered)
    (isBase : scene.frameBuffers[index]? = some base)
    (isOther : scene.frameBuffers[other]? = some otherBase)
    (onScreen : OnScreen point)
    (otherOnScreen : OnScreen otherPoint)
    (same :
      scene.address base point = scene.address otherBase otherPoint) :
    index = other ∧ point = otherPoint := by
  have indexed := buffered.index_lt isBase
  have otherIndexed := buffered.index_lt isOther
  rw [buffered.frameBuffers_getElem? indexed, Option.some.injEq] at isBase
  rw [buffered.frameBuffers_getElem? otherIndexed,
    Option.some.injEq] at isOther
  obtain ⟨left, right, top, bottom⟩ := onScreen
  obtain ⟨otherLeft, otherRight, otherTop, otherBottom⟩ := otherOnScreen
  simp only [Hamachi.scene] at right bottom otherRight otherBottom
  rw [address, address, buffered.size] at same
  simp only [Hamachi.scene] at same
  refine ⟨by omega, Prod.ext ?_ ?_⟩ <;> omega

variable
  {memory after : VideoMemory}
  {write : PixelWrite}

/-- There is a frame buffer to draw to. -/
theorem drawPixel_exists
    (buffered : scene.DoubleBuffered)
    (memory : VideoMemory)
    (write : PixelWrite) :
    ∃ after, scene.drawPixel memory write = some after := by
  rw [Scene2D.drawPixel, buffered.frameBuffers_getElem? buffered.active]
  exact ⟨_, rfl⟩

theorem drawPixels_exists
    (buffered : scene.DoubleBuffered)
    (writes : List PixelWrite)
    (memory : VideoMemory) :
    ∃ after, scene.drawPixels writes memory = some after := by
  induction writes generalizing memory with
  | nil =>
      exact ⟨memory, rfl⟩
  | cons write writes inductionHypothesis =>
      obtain ⟨middle, drawn⟩ := buffered.drawPixel_exists memory write
      rw [Scene2D.drawPixels, drawn]
      exact inductionHypothesis middle

/-- There are two frame buffers to display. -/
theorem pixel_exists
    (buffered : scene.DoubleBuffered)
    (memory : VideoMemory)
    (within : index < 2)
    (point : Int × Int) :
    ∃ word, scene.pixel memory index point = some word := by
  rw [Scene2D.pixel, buffered.frameBuffers_getElem? within]
  exact ⟨_, rfl⟩

/-- Drawing on the screen changes its pixel in the active frame buffer. -/
theorem drawPixel_active
    (buffered : scene.DoubleBuffered)
    (drawn : scene.drawPixel memory write = some after)
    (writeOnScreen : write.OnScreen Hamachi.scene)
    (onScreen : OnScreen point)
    {plane : Int × Int → BitVec 32}
    (holds :
      scene.pixel memory scene.activeFrameBufferIdx point =
        some (plane point)) :
    scene.pixel after scene.activeFrameBufferIdx point =
      some (Function.update plane (write.x, write.y)
        (encodedColor write.color) point) := by
  have isBase := buffered.frameBuffers_getElem? buffered.active
  simp only [Scene2D.drawPixel, Scene2D.pixel, isBase, Option.map_some,
    Option.some.injEq] at drawn holds ⊢
  rw [← drawn]
  refine update_address ?_ holds
  intro same
  exact (buffered.address_injective isBase isBase onScreen
    (onScreen_write writeOnScreen) same).2

/-- Drawing on the screen leaves the other frame buffer as it is. -/
theorem drawPixel_other
    (buffered : scene.DoubleBuffered)
    (drawn : scene.drawPixel memory write = some after)
    (writeOnScreen : write.OnScreen Hamachi.scene)
    (onScreen : OnScreen point)
    (inactive : index ≠ scene.activeFrameBufferIdx) :
    scene.pixel after index point = scene.pixel memory index point := by
  have isBase := buffered.frameBuffers_getElem? buffered.active
  simp only [Scene2D.drawPixel, isBase, Option.map_some,
    Option.some.injEq] at drawn
  rw [Scene2D.pixel, Scene2D.pixel]
  cases isOther : scene.frameBuffers[index]? with
  | none =>
      rfl
  | some otherBase =>
      rw [Option.map_some, Option.map_some, ← drawn,
        Function.update_of_ne]
      intro same
      exact inactive (buffered.address_injective isOther isBase onScreen
        (onScreen_write writeOnScreen) same).1

end Scene2D.DoubleBuffered

/-- `gui_init` starts when the calls of `Init` succeed. -/
theorem guiInit_exists
    {calls : VideoCalls}
    (memory : VideoMemory)
    (opened : 0 ≤ calls.opened)
    (createdEqueue : 0 ≤ calls.createdEqueue)
    (allocated : 0 ≤ calls.allocated)
    (mapped : 0 ≤ calls.mapped)
    (registered : calls.registered = 0) :
    ∃ scene cleared, guiInit calls memory = some (scene, cleared) := by
  obtain ⟨scene, succeeds⟩ :
      ∃ scene,
        (Scene2D.create 1920 1080 4).init calls (1920 * 1080 * 4 * 2) 2 =
          (true, scene) := by
    simp [Scene2D.init, Scene2D.allocateVideoMem,
      Scene2D.allocateFrameBuffers, not_lt.mpr opened,
      not_lt.mpr createdEqueue, not_lt.mpr allocated, not_lt.mpr mapped,
      registered]
  obtain ⟨cleared, isCleared⟩ :=
    (Scene2D.init_doubleBuffered succeeds).1.drawPixels_exists
      (drawRectangle 0 0 scene.width scene.height white) memory
  refine ⟨scene.setActiveFrameBuffer 0, cleared, ?_⟩
  rw [guiInit, succeeds]
  exact Option.map_eq_some_iff.mpr ⟨cleared, isCleared, rfl⟩

end Hamachi.Display
