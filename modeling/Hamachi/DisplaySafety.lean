import Hamachi.DisplayInvariant

namespace Hamachi.Display

/-!
# The display shows whole screens only

Every step keeps the invariant, so every run of dialogs shows their screens one
after the other, each of them whole, and draws where nobody looks.
-/

variable
  {face : Byte → Option Glyph}
  {machine next : Machine}
  {television : Television}

/-- A display at rest, and the dialogs that may draw on it. -/
structure Ready
    (face : Byte → Option Glyph)
    (machine : Machine)
    (television : Television)
    (calls : List Call) :
    Prop where
  settled : Settled face machine television
  buffered : machine.scene.DoubleBuffered
  opened : machine.scene.video ≠ 0
  good : ∀ call ∈ calls, call.shown.Good face

namespace Ready

/-- The dialog on top may show another screen. -/
theorem shows
    {call : Call}
    {callers : List Call}
    {shown : Shown}
    (ready : Ready face machine television (call :: callers))
    (shownGood : shown.Good face) :
    Ready face machine television
      ({ call with shown := shown } :: callers) where
  settled := ready.settled
  buffered := ready.buffered
  opened := ready.opened
  good :=
    List.forall_mem_cons.mpr
      ⟨shownGood, (List.forall_mem_cons.mp ready.good).2⟩

/-- Drawing the screen of a dialog starts from a display at rest. -/
theorem redraw
    {call : Call}
    {callers : List Call}
    (ready : Ready face machine television (call :: callers)) :
    Invariant face (machine.redraw face call callers, television) where
  buffered := ready.buffered
  opened := ready.opened
  good := ready.good
  during :=
    ⟨ready.settled.same {}, Drawing.start ready.buffered call.shown⟩

/-- Returning to the callers. -/
theorem leave
    {callers : List Call}
    (ready : Ready face machine television callers)
    (answer : Answer) :
    Invariant face (machine.leave face answer callers, television) := by
  induction callers generalizing answer with
  | nil =>
      exact ⟨ready.buffered, ready.opened, ready.good,
        ready.settled.same {}⟩
  | cons caller callers inductionHypothesis =>
      obtain ⟨callerGood, callersGood⟩ :=
        List.forall_mem_cons.mp ready.good
      have dumped := callerGood.dumped caller.keys
      rw [Machine.leave]
      split
      · rename_i shown isDumped
        rw [isDumped] at dumped
        exact (ready.shows dumped).redraw
      · exact inductionHypothesis { ready with good := callersGood } .done

/-- However a dialog goes on, it starts from a display at rest. -/
theorem goOn
    {call : Call}
    {callers : List Call}
    {goesOn : Next}
    (ready : Ready face machine television (call :: callers))
    (goesOnGood : goesOn.Good face) :
    Invariant face
      (machine.goOn face call callers goesOn, television) := by
  cases goesOn with
  | redraw shown =>
      exact (ready.shows goesOnGood).redraw
  | dumpLogs =>
      exact ⟨ready.buffered, ready.opened, ready.good,
        ready.settled.same {}⟩
  | edit =>
      exact ⟨ready.buffered, ready.opened, ready.good,
        ready.settled.same {}⟩
  | returns answer =>
      obtain ⟨_, callersGood⟩ := List.forall_mem_cons.mp ready.good
      exact Ready.leave { ready with good := callersGood } answer

end Ready

namespace Invariant

variable (invariant : Invariant face (machine, television))
include invariant

/-- What holds in a phase with a call. -/
theorem call_of_phase
    {phase : Phase}
    (isPhase : machine.phase = phase)
    (inCall : During face machine television phase [] → False) :
    ∃ call callers,
      machine.calls = call :: callers ∧
        During face machine television phase (call :: callers) := by
  have during := invariant.during
  rw [isPhase] at during
  cases isCalls : machine.calls with
  | nil =>
      rw [isCalls] at during
      exact (inCall during).elim
  | cons call callers =>
      rw [isCalls] at during
      exact ⟨call, callers, rfl, during⟩

theorem call
    {request : Request}
    (fits : request.Fits face)
    (stepped : machine.step face (.call request) = some next) :
    Invariant face (next, television) := by
  obtain ⟨answer, isPhase, rfl⟩ := Machine.step_call.mp stepped
  have settled := invariant.during
  rw [isPhase] at settled
  refine Ready.redraw ⟨settled, invariant.buffered, invariant.opened, ?_⟩
  exact List.forall_mem_cons.mpr ⟨fits.good, by simp⟩

theorem draw
    (stepped : machine.step face .draw = some next) :
    Invariant face (next, television) := by
  obtain ⟨write, writes, memory, isPhase, draws, rfl⟩ :=
    Machine.step_draw.mp stepped
  obtain ⟨call, callers, isCalls, settled, drawing⟩ :=
    invariant.call_of_phase isPhase id
  have good : call.shown.Good face := by
    refine invariant.good call ?_
    rw [isCalls]
    exact List.mem_cons_self
  have onScreen : write.OnScreen Hamachi.scene := by
    obtain ⟨drawn, _, isDrawn, _⟩ := drawing
    refine good.onScreen write ?_
    rw [isDrawn]
    exact List.mem_append_right _ List.mem_cons_self
  have after := settled.draw invariant.buffered onScreen draws
  refine ⟨invariant.buffered, invariant.opened, invariant.good, ?_⟩
  dsimp only
  rw [isCalls]
  exact ⟨after.same {},
    drawing.draw invariant.buffered good.onScreen draws⟩

theorem submit
    (stepped : machine.step face .submit = some next) :
    Invariant face (next, television.after machine .submit) := by
  obtain ⟨isPhase, rfl⟩ := Machine.step_submit.mp stepped
  obtain ⟨call, callers, isCalls, settled, drawing⟩ :=
    invariant.call_of_phase isPhase id
  refine ⟨invariant.buffered, invariant.opened, invariant.good, ?_⟩
  have pending := settled.submit drawing.holds
  simp only [Television.after, Machine.submit, isCalls, List.head?_cons,
    Option.map_some] at pending ⊢
  exact .inl pending

theorem check
    (stepped : machine.step face .check = some next) :
    Invariant face (next, television) := by
  obtain ⟨isPhase, rfl⟩ := Machine.step_check.mp stepped
  obtain ⟨call, callers, isCalls, during⟩ :=
    invariant.call_of_phase isPhase id
  refine ⟨invariant.buffered, invariant.opened, invariant.good, ?_⟩
  dsimp only
  rw [isCalls]
  have opened := invariant.opened
  rcases during with pending | flipped
  · rw [if_neg (by simp [opened, pending.fresh])]
    exact .inl (pending.same {})
  · rw [if_pos (.inr flipped.made)]
    exact flipped.same {}

theorem wait
    (stepped : machine.step face (.wait false) = some next) :
    Invariant face (next, television) := by
  obtain ⟨isPhase, _, rfl⟩ := Machine.step_wait.mp stepped
  obtain ⟨call, callers, isCalls, during⟩ :=
    invariant.call_of_phase isPhase id
  refine ⟨invariant.buffered, invariant.opened, invariant.good, ?_⟩
  dsimp only
  rw [isCalls]
  rcases during with pending | ⟨flipped, _⟩
  · exact .inl ⟨pending.flips, pending.next, pending.fresh,
      pending.displays, pending.holds⟩
  · exact .inr ⟨flipped.flips, flipped.next, flipped.made,
      flipped.current, flipped.displays⟩

theorem swap
    (stepped : machine.step face .swap = some next) :
    Invariant face (next, television) := by
  obtain ⟨isPhase, swapped⟩ := Machine.step_swap.mp stepped
  obtain ⟨call, callers, isCalls, flipped⟩ :=
    invariant.call_of_phase isPhase id
  have good := invariant.good
  have settled := Flipped.swap flipped invariant.buffered
  dsimp only at good
  rw [isCalls] at swapped good
  simp only [Machine.swap] at swapped
  split at swapped
  · cases swapped
    refine ⟨invariant.buffered.frameBufferSwap, invariant.opened,
      invariant.good, ?_⟩
    dsimp only
    rw [isCalls]
    exact ⟨settled.same {}, flipped.current⟩
  · rename_i goesOn flips
    cases swapped
    exact Ready.goOn
      ⟨settled, invariant.buffered.frameBufferSwap, invariant.opened, good⟩
      (Shown.flipped_good flips)

theorem read
    (stepped : machine.step face .read = some next) :
    Invariant face (next, television) := by
  rcases Machine.step_read stepped with
    ⟨isPhase, rfl⟩ |
    ⟨call, callers, isPhase, isCalls, _, rfl⟩ |
    ⟨_, _, rfl⟩
  · obtain ⟨call, callers, isCalls, settled, current⟩ :=
      invariant.call_of_phase isPhase id
    refine ⟨invariant.buffered, invariant.opened, invariant.good, ?_⟩
    dsimp only
    rw [isCalls]
    split <;> exact ⟨settled.same {}, current⟩
  · obtain ⟨_, _, _, settled, _⟩ := invariant.call_of_phase isPhase id
    have good := invariant.good
    dsimp only at good
    rw [isCalls] at good
    obtain ⟨callGood, callersGood⟩ := List.forall_mem_cons.mp good
    exact Ready.goOn
      ⟨settled, invariant.buffered, invariant.opened,
        List.forall_mem_cons.mpr ⟨callGood, callersGood⟩⟩
      (callGood.pressed machine.pad.keys)
  · exact invariant

theorem dumped
    {err : Option (List Byte)}
    (stepped : machine.step face (.dumped err) = some next) :
    Invariant face (next, television) := by
  obtain ⟨isPhase, rfl⟩ := Machine.step_dumped.mp stepped
  have settled := invariant.during
  rw [isPhase] at settled
  exact Ready.redraw
    ⟨settled, invariant.buffered, invariant.opened,
      List.forall_mem_cons.mpr ⟨Shown.dumpResult_good err, invariant.good⟩⟩

theorem edited
    {ime : ImeResult}
    (stepped : machine.step face (.edited ime) = some next) :
    Invariant face (next, television) := by
  obtain ⟨call, callers, isPhase, isCalls, rfl⟩ :=
    Machine.step_edited.mp stepped
  have settled := invariant.during
  rw [isPhase] at settled
  have good := invariant.good
  dsimp only at good
  rw [isCalls] at good
  obtain ⟨callGood, callersGood⟩ := List.forall_mem_cons.mp good
  exact Ready.redraw
    ⟨settled, invariant.buffered, invariant.opened,
      List.forall_mem_cons.mpr ⟨callGood.edited ime, callersGood⟩⟩

end Invariant

/-- Either no flip is submitted, or the program waits for it. -/
inductive FlipState
    (face : Byte → Option Glyph)
    (machine : Machine)
    (television : Television) :
    Prop
  | idle
      (noFlips : machine.video.flips = [])
      (noNext : television.next = none)
  | submitted
      {call : Call}
      {callers : List Call}
      (isCalls : machine.calls = call :: callers)
      (isPhase : machine.phase = .checking ∨ machine.phase = .waiting)
      (pending : Pending face machine television call.shown)

namespace Invariant

variable (invariant : Invariant face (machine, television))
include invariant

theorem flipState :
    FlipState face machine television := by
  have during := invariant.during
  dsimp only at during
  cases isPhase : machine.phase with
  | outside answer | dumping | editing =>
      rw [isPhase] at during
      exact .idle during.flips during.next
  | drawing writes | releasing | pressing =>
      obtain ⟨_, _, _, settled, _⟩ := invariant.call_of_phase isPhase id
      exact .idle settled.flips settled.next
  | checking =>
      obtain ⟨call, callers, isCalls, pending | flipped⟩ :=
        invariant.call_of_phase isPhase id
      · exact .submitted isCalls (.inl isPhase) pending
      · exact .idle flipped.flips flipped.next
  | waiting =>
      obtain ⟨call, callers, isCalls, pending | ⟨flipped, _⟩⟩ :=
        invariant.call_of_phase isPhase id
      · exact .submitted isCalls (.inr isPhase) pending
      · exact .idle flipped.flips flipped.next
  | swapping =>
      obtain ⟨_, _, _, flipped⟩ := invariant.call_of_phase isPhase id
      exact .idle flipped.flips flipped.next

theorem vsync :
    Invariant face
      ({ machine with video := machine.video.vsync },
        television.after machine .vsync) := by
  rcases invariant.flipState with
    ⟨noFlips, noNext⟩ | @⟨call, callers, isCalls, isPhase, pending⟩
  · have sameVideo : machine.video.vsync = machine.video := by
      rw [VideoOut.vsync, noFlips]
    have sameTelevision : television.after machine .vsync = television := by
      rw [Television.after, noNext]
    rw [sameVideo, sameTelevision]
    exact invariant
  · refine ⟨invariant.buffered, invariant.opened, invariant.good, ?_⟩
    have flipped := pending.vsync
    have event : machine.video.vsync.event = true := by
      rw [VideoOut.vsync, pending.flips]
    have watches :
        television.after machine .vsync =
          { current := some call.shown, next := none } := by
      rw [Television.after, pending.next]
    dsimp only
    rw [watches, isCalls]
    rcases isPhase with isPhase | isPhase <;> rw [isPhase]
    · exact .inr (flipped.same {})
    · exact .inr ⟨flipped.same {}, event⟩

theorem pad
    (pad : Pad) :
    Invariant face ({ machine with pad := pad }, television) :=
  ⟨invariant.buffered, invariant.opened, invariant.good,
    invariant.during.same {}⟩

end Invariant

/-- The invariant holds after `gui_init`. -/
theorem Invariant.start
    {calls : VideoCalls}
    {memory cleared : VideoMemory}
    {scene : Scene2D}
    {flipArg : Int}
    (starts : guiInit calls memory = some (scene, cleared))
    (opened : calls.opened ≠ 0)
    (idle : flipArg ≠ 0)
    (pad : Pad) :
    Invariant face (Machine.start scene cleared flipArg pad, {}) := by
  obtain ⟨buffered, isOpened⟩ := guiInit_doubleBuffered starts
  refine ⟨buffered, ?_, by simp [Machine.start], rfl, rfl, idle, rfl⟩
  exact isOpened ▸ opened

/-- Every step keeps the invariant. -/
theorem Invariant.step
    {source target : Machine × Television}
    {label : Label}
    (invariant : Invariant face source)
    (stepped : label.Allowed face ∧ Watched face source label target) :
    Invariant face target := by
  obtain ⟨machine, television⟩ := source
  obtain ⟨next, later⟩ := target
  obtain ⟨allowed, steps, watches⟩ := stepped
  dsimp only at steps watches
  subst watches
  cases label with
  | call request => exact invariant.call allowed steps
  | draw => exact invariant.draw steps
  | submit => exact invariant.submit steps
  | check => exact invariant.check steps
  | wait fails =>
      cases allowed
      exact invariant.wait steps
  | swap => exact invariant.swap steps
  | read => exact invariant.read steps
  | dumped err => exact invariant.dumped steps
  | edited ime => exact invariant.edited steps
  | vsync =>
      cases steps
      exact invariant.vsync
  | pad pad =>
      cases steps
      exact invariant.pad pad

/-- Every run keeps the invariant. -/
theorem Invariant.run
    {source target : Machine × Television}
    {labels : List Label}
    (invariant : Invariant face source)
    (allowed : ∀ label ∈ labels, label.Allowed face)
    (run : Run (Watched face) source labels target) :
    Invariant face target := by
  refine @Run.invariant _ _ _ (Invariant face) ?_ _ _ _
    (run.allowing allowed) invariant
  intro source label target holds stepped
  exact holds.step stepped

/-- A pixel on the display. -/
def Machine.displayed
    (machine : Machine)
    (point : Int × Int) :
    Option (BitVec 32) :=
  machine.video.shown.bind fun index => machine.pixel index point

theorem Machine.Displays.displayed
    {index : Nat}
    {current : Option Shown}
    {point : Int × Int}
    (displays : machine.Displays face index current)
    (onScreen : OnScreen point) :
    machine.displayed point =
      current.map fun shown => shown.picture face point := by
  cases current with
  | none =>
      rw [Machine.displayed, show machine.video.shown = none from displays]
      rfl
  | some shown =>
      obtain ⟨isShown, holds⟩ := displays
      rw [Machine.displayed, isShown]
      exact holds point onScreen

/-- The display shows what a television shows that knows whole screens only. -/
theorem Invariant.displayed
    (invariant : Invariant face (machine, television))
    {point : Int × Int}
    (onScreen : OnScreen point) :
    machine.displayed point =
      television.current.map fun shown => shown.picture face point := by
  have during := invariant.during
  dsimp only at during
  cases isPhase : machine.phase with
  | outside answer | dumping | editing =>
      rw [isPhase] at during
      exact during.displays.displayed onScreen
  | drawing writes | releasing | pressing =>
      obtain ⟨_, _, _, settled, _⟩ := invariant.call_of_phase isPhase id
      exact settled.displays.displayed onScreen
  | checking =>
      obtain ⟨_, _, _, pending | flipped⟩ :=
        invariant.call_of_phase isPhase id
      · exact pending.displays.displayed onScreen
      · rw [flipped.current]
        exact flipped.displays.displayed onScreen
  | waiting =>
      obtain ⟨_, _, _, pending | ⟨flipped, _⟩⟩ :=
        invariant.call_of_phase isPhase id
      · exact pending.displays.displayed onScreen
      · rw [flipped.current]
        exact flipped.displays.displayed onScreen
  | swapping =>
      obtain ⟨_, _, _, flipped⟩ := invariant.call_of_phase isPhase id
      rw [flipped.current]
      exact flipped.displays.displayed onScreen

/-- The program draws to a frame buffer that is not on the display and that no
flip leads to. -/
theorem Settled.hidden
    (settled : Settled face machine television)
    (buffered : machine.scene.DoubleBuffered) :
    machine.video.shown ≠ some machine.scene.activeFrameBufferIdx ∧
      machine.video.flips = [] := by
  refine ⟨?_, settled.flips⟩
  have displays := settled.displays
  cases isCurrent : television.current with
  | none =>
      rw [isCurrent] at displays
      rw [show machine.video.shown = none from displays]
      simp
  | some shown =>
      rw [isCurrent] at displays
      obtain ⟨isShown, _⟩ := displays
      have := buffered.active
      rw [isShown, Machine.inactive, ne_eq, Option.some.injEq]
      omega

end Hamachi.Display
