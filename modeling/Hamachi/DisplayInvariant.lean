import Hamachi.DisplayMachine
import Hamachi.ScreenBounds

namespace Hamachi.Display

/-!
# The frame buffers in the course of a flip

While the program draws, the display shows the other frame buffer; between a
flip and its completion the program does not draw.  Which of this holds depends
on where the program is.
-/

/-- What `DrawPixel` writes, and where. -/
def stroke (write : PixelWrite) : (Int × Int) × BitVec 32 :=
  ((write.x, write.y), encodedColor write.color)

/-- The picture of a dialog. -/
def Shown.picture
    (face : Byte → Option Glyph)
    (shown : Shown) :
    Int × Int → BitVec 32 :=
  paint ((shown.draw face).map stroke) fun _ => 0

namespace Machine

/-- A pixel of a frame buffer. -/
def pixel
    (machine : Machine)
    (index : Nat)
    (point : Int × Int) :
    Option (BitVec 32) :=
  machine.scene.pixel machine.memory index point

/-- The frame buffer that the program does not draw to. -/
def inactive (machine : Machine) : Nat :=
  (machine.scene.activeFrameBufferIdx + 1) % 2

/-- A frame buffer holds the whole screen of a dialog. -/
def Holds
    (face : Byte → Option Glyph)
    (machine : Machine)
    (index : Nat)
    (shown : Shown) :
    Prop :=
  ∀ point, OnScreen point →
    machine.pixel index point = some (shown.picture face point)

/-- The video output shows the screen from the frame buffer, or nothing. -/
def Displays
    (face : Byte → Option Glyph)
    (machine : Machine)
    (index : Nat) :
    Option Shown → Prop
  | none => machine.video.shown = none
  | some shown =>
      machine.video.shown = some index ∧ machine.Holds face index shown

end Machine

/-- All flips are made, and the display shows the inactive frame buffer. -/
structure Settled
    (face : Byte → Option Glyph)
    (machine : Machine)
    (television : Television) :
    Prop where
  flips : machine.video.flips = []
  next : television.next = none
  fresh : machine.video.flipArg ≠ machine.curFrame
  displays : machine.Displays face machine.inactive television.current

/-- A part of the screen of a dialog is drawn. -/
def Drawing
    (face : Byte → Option Glyph)
    (machine : Machine)
    (shown : Shown)
    (writes : List PixelWrite) :
    Prop :=
  ∃ drawn plane,
    shown.draw face = drawn ++ writes ∧
      ∀ point, OnScreen point →
        machine.pixel machine.scene.activeFrameBufferIdx point =
          some (paint (drawn.map stroke) plane point)

/-- The flip to the active frame buffer is submitted, and not made. -/
structure Pending
    (face : Byte → Option Glyph)
    (machine : Machine)
    (television : Television)
    (shown : Shown) :
    Prop where
  flips :
    machine.video.flips =
      [(machine.scene.activeFrameBufferIdx, machine.curFrame)]
  next : television.next = some shown
  fresh : machine.video.flipArg ≠ machine.curFrame
  displays : machine.Displays face machine.inactive television.current
  holds : machine.Holds face machine.scene.activeFrameBufferIdx shown

/-- The flip to the active frame buffer is made. -/
structure Flipped
    (face : Byte → Option Glyph)
    (machine : Machine)
    (television : Television)
    (shown : Shown) :
    Prop where
  flips : machine.video.flips = []
  next : television.next = none
  made : machine.video.flipArg = machine.curFrame
  current : television.current = some shown
  displays :
    machine.Displays face machine.scene.activeFrameBufferIdx (some shown)

/-- What holds where the program is. -/
def During
    (face : Byte → Option Glyph)
    (machine : Machine)
    (television : Television) :
    Phase → List Call → Prop
  | .outside _, _ | .dumping, _ | .editing, _ =>
      Settled face machine television
  | .drawing writes, call :: _ =>
      Settled face machine television ∧
        Drawing face machine call.shown writes
  | .checking, call :: _ =>
      Pending face machine television call.shown ∨
        Flipped face machine television call.shown
  | .waiting, call :: _ =>
      -- A flip that was made after the check has left its event.
      Pending face machine television call.shown ∨
        Flipped face machine television call.shown ∧
          machine.video.event = true
  | .swapping, call :: _ => Flipped face machine television call.shown
  | .releasing, call :: _ | .pressing, call :: _ =>
      Settled face machine television ∧
        television.current = some call.shown
  | _, [] => False

/-- What every step keeps. -/
structure Invariant
    (face : Byte → Option Glyph)
    (watched : Machine × Television) :
    Prop where
  buffered : watched.1.scene.DoubleBuffered
  opened : watched.1.scene.video ≠ 0
  good : ∀ call ∈ watched.1.calls, call.shown.Good face
  during : During face watched.1 watched.2 watched.1.phase watched.1.calls

/-- Steps of a program that calls dialogs whose screens fit, with waits that do
not fail. -/
def Label.Allowed (face : Byte → Option Glyph) : Label → Prop
  | .call request => request.Fits face
  | .wait fails => fails = false
  | _ => True

/-- Machines that differ in where the program is and in the pad only. -/
structure SameDisplay (machine other : Machine) : Prop where
  scene : other.scene = machine.scene := by rfl
  memory : other.memory = machine.memory := by rfl
  curFrame : other.curFrame = machine.curFrame := by rfl
  video : other.video = machine.video := by rfl

variable
  {face : Byte → Option Glyph}
  {machine other : Machine}
  {television : Television}
  {shown : Shown}

theorem Settled.same
    (settled : Settled face machine television)
    (same : SameDisplay machine other) :
    Settled face other television := by
  cases machine
  cases other
  obtain ⟨rfl, rfl, rfl, rfl⟩ := same
  exact ⟨settled.flips, settled.next, settled.fresh, settled.displays⟩

theorem Drawing.same
    {writes : List PixelWrite}
    (drawing : Drawing face machine shown writes)
    (same : SameDisplay machine other) :
    Drawing face other shown writes := by
  cases machine
  cases other
  obtain ⟨rfl, rfl, rfl, rfl⟩ := same
  exact drawing

theorem Pending.same
    (pending : Pending face machine television shown)
    (same : SameDisplay machine other) :
    Pending face other television shown := by
  cases machine
  cases other
  obtain ⟨rfl, rfl, rfl, rfl⟩ := same
  exact ⟨pending.flips, pending.next, pending.fresh, pending.displays,
    pending.holds⟩

theorem Flipped.same
    (flipped : Flipped face machine television shown)
    (same : SameDisplay machine other) :
    Flipped face other television shown := by
  cases machine
  cases other
  obtain ⟨rfl, rfl, rfl, rfl⟩ := same
  exact ⟨flipped.flips, flipped.next, flipped.made, flipped.current,
    flipped.displays⟩

/-- What holds of a phase does not depend on the pad. -/
theorem During.same
    {phase : Phase}
    {calls : List Call}
    (during : During face machine television phase calls)
    (same : SameDisplay machine other) :
    During face other television phase calls := by
  cases phase with
  | outside answer | dumping | editing =>
      cases calls <;> exact Settled.same during same
  | drawing writes =>
      cases calls with
      | nil => exact during
      | cons call callers =>
          exact ⟨during.1.same same, during.2.same same⟩
  | checking =>
      cases calls with
      | nil => exact during
      | cons call callers =>
          exact during.imp (·.same same) (·.same same)
  | waiting =>
      cases calls with
      | nil => exact during
      | cons call callers =>
          exact during.imp (·.same same) fun flipped =>
            ⟨flipped.1.same same, same.video ▸ flipped.2⟩
  | swapping =>
      cases calls with
      | nil => exact during
      | cons call callers => exact Flipped.same during same
  | releasing | pressing =>
      cases calls with
      | nil => exact during
      | cons call callers => exact ⟨during.1.same same, during.2⟩

/-- What is drawn over a whole screen is its picture. -/
theorem Drawing.holds
    (drawing : Drawing face machine shown []) :
    machine.Holds face machine.scene.activeFrameBufferIdx shown := by
  obtain ⟨drawn, plane, isDrawn, pixels⟩ := drawing
  intro point onScreen
  obtain ⟨write, inScreen, isPoint⟩ := @Shown.draw_covers face shown _ onScreen
  rw [pixels point onScreen, ← List.append_nil drawn, ← isDrawn,
    Shown.picture]
  refine congrArg some (paint_of_mem ?_ _ _)
  rw [List.map_map]
  exact List.mem_map.mpr ⟨write, inScreen, isPoint⟩

/-- Before the first pixel nothing is drawn. -/
theorem Drawing.start
    (buffered : machine.scene.DoubleBuffered)
    (shown : Shown) :
    Drawing face machine shown (shown.draw face) := by
  refine ⟨[], fun point =>
    (machine.pixel machine.scene.activeFrameBufferIdx point).getD 0,
    rfl, fun point onScreen => ?_⟩
  obtain ⟨word, isWord⟩ :=
    buffered.pixel_exists machine.memory buffered.active point
  have isPixel :
      machine.pixel machine.scene.activeFrameBufferIdx point = some word :=
    isWord
  rw [List.map_nil, paint, isPixel, Option.getD_some]

/-- One pixel more. -/
theorem Drawing.draw
    {write : PixelWrite}
    {writes : List PixelWrite}
    {memory : VideoMemory}
    (drawing : Drawing face machine shown (write :: writes))
    (buffered : machine.scene.DoubleBuffered)
    (onScreen : AllOnScreen (shown.draw face))
    (draws :
      machine.scene.drawPixel machine.memory write = some memory) :
    Drawing face { machine with memory := memory } shown writes := by
  obtain ⟨drawn, plane, isDrawn, pixels⟩ := drawing
  refine ⟨drawn ++ [write], plane, ?_, fun point isPoint => ?_⟩
  · rw [isDrawn, List.append_assoc, List.singleton_append]
  · have writeOnScreen : write.OnScreen Hamachi.scene := by
      refine onScreen write ?_
      rw [isDrawn]
      exact List.mem_append_right _ List.mem_cons_self
    rw [List.map_append, List.map_singleton, stroke, paint_concat]
    exact buffered.drawPixel_active draws writeOnScreen isPoint
      (pixels point isPoint)

/-- Drawing leaves the inactive frame buffer as it is. -/
theorem Settled.draw
    {write : PixelWrite}
    {memory : VideoMemory}
    (settled : Settled face machine television)
    (buffered : machine.scene.DoubleBuffered)
    (onScreen : write.OnScreen Hamachi.scene)
    (draws :
      machine.scene.drawPixel machine.memory write = some memory) :
    Settled face { machine with memory := memory } television where
  flips := settled.flips
  next := settled.next
  fresh := settled.fresh
  displays := by
    have displays := settled.displays
    cases isCurrent : television.current with
    | none =>
        rwa [isCurrent] at displays
    | some shown =>
        rw [isCurrent] at displays
        obtain ⟨isShown, holds⟩ := displays
        refine ⟨isShown, fun point isPoint => ?_⟩
        have other :
            machine.inactive ≠ machine.scene.activeFrameBufferIdx := by
          have := buffered.active
          rw [Machine.inactive]
          omega
        exact (buffered.drawPixel_other draws onScreen isPoint other).trans
          (holds point isPoint)

/-- Submitting the flip of a screen that is drawn. -/
theorem Settled.submit
    (settled : Settled face machine television)
    (holds : machine.Holds face machine.scene.activeFrameBufferIdx shown) :
    Pending face machine.submit { television with next := some shown }
      shown where
  flips := by
    rw [Machine.submit, settled.flips, List.nil_append]
  next := rfl
  fresh := settled.fresh
  displays := by
    have displays := settled.displays
    cases isCurrent : television.current with
    | none =>
        rwa [isCurrent] at displays
    | some shown =>
        rwa [isCurrent] at displays
  holds := holds

/-- Making the flip. -/
theorem Pending.vsync
    (pending : Pending face machine television shown) :
    Flipped face { machine with video := machine.video.vsync }
      { current := some shown, next := none } shown where
  flips := by
    simp only [VideoOut.vsync, pending.flips]
  next := rfl
  made := by
    simp only [VideoOut.vsync, pending.flips]
  current := rfl
  displays := by
    refine ⟨?_, pending.holds⟩
    simp only [VideoOut.vsync, pending.flips]

/-- After the swap the frame buffer on the display is the inactive one. -/
theorem Flipped.swap
    (flipped : Flipped face machine television shown)
    (buffered : machine.scene.DoubleBuffered) :
    Settled face
      { machine with
        scene := machine.scene.frameBufferSwap
        curFrame := machine.curFrame + 1 }
      television where
  flips := flipped.flips
  next := flipped.next
  fresh := by
    have made := flipped.made
    dsimp only
    omega
  displays := by
    obtain ⟨isShown, holds⟩ := flipped.displays
    rw [flipped.current]
    have back :
        ((machine.scene.activeFrameBufferIdx + 1) % 2 + 1) % 2 =
          machine.scene.activeFrameBufferIdx := by
      have := buffered.active
      omega
    simp only [Machine.Displays, Machine.inactive, Scene2D.frameBufferSwap,
      back]
    exact ⟨isShown, holds⟩

end Hamachi.Display
