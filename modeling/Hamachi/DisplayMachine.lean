import Hamachi.Dialogs
import Hamachi.Runs

namespace Hamachi.Display

/-!
# The display and the pad around `gui.cpp`

The program draws pixel by pixel, submits flips, waits for them and reads the
pad; the video output makes the flips that were submitted and the user presses
buttons at any time.  Every step of one of them is a step of the machine.
-/

/-- The video output: the frame buffer on the screen, the argument of the last
flip, the flips to come, and whether the queue holds a flip event. -/
structure VideoOut where
  shown : Option Nat
  flipArg : Int
  flips : List (Nat × Int)
  event : Bool

/-- The next flip. -/
def VideoOut.vsync (video : VideoOut) : VideoOut :=
  match video.flips with
  | [] => video
  | (index, frameID) :: flips => {
      shown := some index
      flipArg := frameID
      flips := flips
      event := true
    }

/-- What `scePadReadState` reads; `others` are buttons that no dialog knows. -/
structure Pad where
  keys : Keys
  others : Bool := false
  deriving DecidableEq

/-- `data.buttons` is not zero. -/
def Pad.buttons (pad : Pad) : Bool :=
  pad.keys ≠ {} ∨ pad.others

/-- A call of a dialog, with the keys that it polled last. -/
structure Call where
  shown : Shown
  keys : Keys := {}

/-- Where the program is. -/
inductive Phase where
  | outside (answer : Option Answer)
  | drawing (writes : List PixelWrite)
  | checking
  | waiting
  | swapping
  | releasing
  | pressing
  | dumping
  | editing

/-- The program, the frame buffers, the video output and the pad. -/
structure Machine where
  scene : Scene2D
  memory : VideoMemory
  curFrame : Int := 0
  calls : List Call := []
  phase : Phase := .outside none
  video : VideoOut
  pad : Pad

/-- What happens; a step of the program, or of what is around it. -/
inductive Label where
  | call (request : Request)
  | draw
  | submit
  | check
  | wait (fails : Bool)
  | swap
  | read
  | dumped (err : Option (List Byte))
  | edited (ime : ImeResult)
  | vsync
  | pad (pad : Pad)

namespace Machine

variable (face : Byte → Option Glyph)

/-- Draw the screen of a dialog on top of other calls. -/
def redraw
    (machine : Machine)
    (call : Call)
    (callers : List Call) :
    Machine :=
  { machine with
    calls := call :: callers
    phase := .drawing (call.shown.draw face) }

/-- Return to the callers, each of which called `doDumpLogs`. -/
def leave (machine : Machine) (answer : Answer) : List Call → Machine
  | [] => { machine with calls := [], phase := .outside (some answer) }
  | caller :: callers =>
      match caller.shown.dumped caller.keys with
      | .redraw shown =>
          machine.redraw face { caller with shown := shown } callers
      | _ => leave machine .done callers

/-- How the program goes on in a call. -/
def goOn
    (machine : Machine)
    (call : Call)
    (callers : List Call) :
    Next → Machine
  | .redraw shown =>
      machine.redraw face { call with shown := shown } callers
  | .dumpLogs =>
      { machine with calls := call :: callers, phase := .dumping }
  | .edit => { machine with calls := call :: callers, phase := .editing }
  | .returns answer => machine.leave face answer callers

/-- `FrameBufferSwap` and the end of `flip`, and what the dialog does then. -/
def swap (machine : Machine) : List Call → Option Machine
  | [] => none
  | call :: callers =>
      let machine := { machine with
        scene := machine.scene.frameBufferSwap
        curFrame := machine.curFrame + 1 }
      match call.shown.flipped with
      | none => some { machine with phase := .releasing }
      | some next => some (machine.goOn face call callers next)

/-- `sceVideoOutSubmitFlip`. -/
def submit (machine : Machine) : Machine :=
  { machine with
    phase := .checking
    video := { machine.video with
      flips := machine.video.flips ++
        [(machine.scene.activeFrameBufferIdx, machine.curFrame)] } }

/-- A step, where the program or its surroundings can make it. -/
def step (machine : Machine) : Label → Option Machine
  | .call request =>
      match machine.phase with
      | .outside _ =>
          some (machine.redraw face { shown := request.shown } [])
      | _ => none
  | .draw =>
      match machine.phase with
      | .drawing (write :: writes) =>
          (machine.scene.drawPixel machine.memory write).map fun memory =>
            { machine with memory := memory, phase := .drawing writes }
      | _ => none
  | .submit =>
      match machine.phase with
      | .drawing [] => some machine.submit
      | _ => none
  | .check =>
      match machine.phase with
      | .checking =>
          -- Without a video handle `FrameWait` does not wait.
          some { machine with
            phase :=
              if machine.scene.video = 0 ∨
                  machine.video.flipArg = machine.curFrame then
                .swapping
              else
                .waiting }
      | _ => none
  | .wait fails =>
      match machine.phase with
      | .waiting =>
          if fails then
            some { machine with phase := .swapping }
          else if machine.video.event then
            some { machine with
              phase := .checking
              video := { machine.video with event := false } }
          else
            none
      | _ => none
  | .swap =>
      match machine.phase with
      | .swapping => machine.swap face machine.calls
      | _ => none
  | .read =>
      match machine.phase, machine.calls with
      | .releasing, _ =>
          some { machine with
            phase := if machine.pad.buttons then .releasing else .pressing }
      | .pressing, call :: callers =>
          if machine.pad.buttons then
            some (machine.goOn face
              { call with keys := machine.pad.keys } callers
              (call.shown.pressed machine.pad.keys))
          else
            some machine
      | _, _ => none
  | .dumped err =>
      match machine.phase with
      | .dumping =>
          some (machine.redraw face { shown := Shown.dumpResult err }
            machine.calls)
      | _ => none
  | .edited ime =>
      match machine.phase, machine.calls with
      | .editing, call :: callers =>
          some (machine.redraw face
            { call with shown := call.shown.edited ime } callers)
      | _, _ => none
  | .vsync => some { machine with video := machine.video.vsync }
  | .pad pad => some { machine with pad := pad }

/-- The machine after `gui_init`, with a video output that has not flipped. -/
def start
    (scene : Scene2D)
    (memory : VideoMemory)
    (flipArg : Int)
    (pad : Pad) :
    Machine where
  scene := scene
  memory := memory
  video := { shown := none, flipArg := flipArg, flips := [], event := false }
  pad := pad

section Steps

variable
  {face : Byte → Option Glyph}
  {machine next : Machine}

theorem step_call
    {request : Request} :
    machine.step face (.call request) = some next ↔
      ∃ answer, machine.phase = .outside answer ∧
        next = machine.redraw face { shown := request.shown } [] := by
  unfold step
  cases machine.phase <;> simp [eq_comm]

theorem step_draw :
    machine.step face .draw = some next ↔
      ∃ write writes memory,
        machine.phase = .drawing (write :: writes) ∧
          machine.scene.drawPixel machine.memory write = some memory ∧
          next = { machine with
            memory := memory
            phase := .drawing writes } := by
  unfold step
  cases machine.phase with
  | drawing writes =>
      cases writes <;> simp [eq_comm]
  | _ => simp

theorem step_submit :
    machine.step face .submit = some next ↔
      machine.phase = .drawing [] ∧ next = machine.submit := by
  unfold step
  cases machine.phase with
  | drawing writes =>
      cases writes <;> simp [eq_comm]
  | _ => simp

theorem step_check :
    machine.step face .check = some next ↔
      machine.phase = .checking ∧
        next = { machine with
          phase :=
            if machine.scene.video = 0 ∨
                machine.video.flipArg = machine.curFrame then
              .swapping
            else
              .waiting } := by
  unfold step
  cases machine.phase with
  | checking =>
      simp only [Option.some.injEq, true_and]
      exact eq_comm
  | _ => simp

theorem step_wait :
    machine.step face (.wait false) = some next ↔
      machine.phase = .waiting ∧ machine.video.event = true ∧
        next = { machine with
          phase := .checking
          video := { machine.video with event := false } } := by
  unfold step
  cases machine.phase with
  | waiting =>
      cases machine.video.event with
      | false => simp
      | true =>
          simp only [Bool.false_eq_true, if_false, if_true,
            Option.some.injEq, true_and]
          exact eq_comm
  | _ => simp

theorem step_swap :
    machine.step face .swap = some next ↔
      machine.phase = .swapping ∧
        machine.swap face machine.calls = some next := by
  unfold step
  cases machine.phase <;> simp

/-- What `pollPad` does with what it reads. -/
theorem step_read
    (stepped : machine.step face .read = some next) :
    (machine.phase = .releasing ∧
        next = { machine with
          phase :=
            if machine.pad.buttons then .releasing else .pressing }) ∨
      (∃ call callers,
        machine.phase = .pressing ∧ machine.calls = call :: callers ∧
          machine.pad.buttons = true ∧
          next = machine.goOn face
            { call with keys := machine.pad.keys } callers
            (call.shown.pressed machine.pad.keys)) ∨
      (machine.phase = .pressing ∧ machine.pad.buttons = false ∧
        next = machine) := by
  unfold step at stepped
  cases isPhase : machine.phase <;> cases isCalls : machine.calls <;>
    simp only [isPhase, isCalls, reduceCtorEq, Option.some.injEq] at stepped
  · exact .inl ⟨rfl, stepped.symm⟩
  · exact .inl ⟨rfl, stepped.symm⟩
  · rename_i call callers
    split at stepped
    · rename_i pressed
      exact .inr (.inl ⟨call, callers, rfl, rfl, pressed,
        (Option.some.inj stepped).symm⟩)
    · rename_i released
      exact .inr (.inr ⟨rfl, Bool.not_eq_true _ ▸ released,
        (Option.some.inj stepped).symm⟩)

theorem step_read_press
    {call : Call}
    {callers : List Call}
    (isPhase : machine.phase = .pressing)
    (isCalls : machine.calls = call :: callers)
    (pressed : machine.pad.buttons = true) :
    machine.step face .read =
      some (machine.goOn face { call with keys := machine.pad.keys } callers
        (call.shown.pressed machine.pad.keys)) := by
  simp only [step, isPhase, isCalls, pressed, if_true]

theorem step_dumped
    {err : Option (List Byte)} :
    machine.step face (.dumped err) = some next ↔
      machine.phase = .dumping ∧
        next = machine.redraw face { shown := Shown.dumpResult err }
          machine.calls := by
  unfold step
  cases machine.phase <;> simp [eq_comm]

theorem step_edited
    {ime : ImeResult} :
    machine.step face (.edited ime) = some next ↔
      ∃ call callers,
        machine.phase = .editing ∧ machine.calls = call :: callers ∧
          next = machine.redraw face
            { call with shown := call.shown.edited ime } callers := by
  unfold step
  cases machine.phase <;> cases machine.calls <;> simp [eq_comm]

end Steps

end Machine

/-- Screens on a display that shows each of them as a whole: the one on it and
the one that was submitted. -/
structure Television where
  current : Option Shown := none
  next : Option Shown := none

theorem Television.eq_of_current
    {television : Television}
    {shown : Shown}
    (current : television.current = some shown)
    (next : television.next = none) :
    television = { current := some shown } := by
  cases television
  cases current
  cases next
  rfl

/-- What a television makes of the steps of a machine. -/
def Television.after
    (television : Television)
    (machine : Machine) :
    Label → Television
  | .submit => { television with
      next := machine.calls.head?.map Call.shown }
  | .vsync =>
      match television.next with
      | none => television
      | some shown => { current := some shown, next := none }
  | _ => television

/-- A step of the machine, and of a television beside it. -/
def Watched
    (face : Byte → Option Glyph)
    (source : Machine × Television)
    (label : Label)
    (target : Machine × Television) :
    Prop :=
  source.1.step face label = some target.1 ∧
    target.2 = source.2.after source.1 label

end Hamachi.Display
