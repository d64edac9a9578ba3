import Hamachi.DisplayProgress

namespace Hamachi.Display

/-!
# What the user sees and what the program is told

The screens on the display, the answers of the dialogs that they show, and the
presses that the answers are for.
-/

/-- An answer is one that a dialog offers with these keys, on the screen that
it shows. -/
def Shown.Offers : Shown → Keys → Answer → Prop
  | _, _, .done => True
  | question _ choice, keys, .choice ok =>
      ok = true → choice = true ∧ keys.cross = true
  | networkList networks curNet, keys, .listAction cur action =>
      cur = curNet ∧
        match action with
        | .create => keys.triangle = true
        | .join => keys.square = true
        | .delete =>
            keys.circle = true ∧ 0 ≤ curNet ∧ curNet < networks.length
  | login _, keys, .entered none => keys.circle = true
  | login form, _, .entered (some (name, secret)) =>
      form.idx = 2 ∧ form.login = name ∧ form.password = secret
  | _, _, _ => False

/-- The program reads a pressed button and lets the dialog answer it. -/
structure Machine.Reports (machine : Machine) : Prop where
  phase : machine.phase = .pressing
  buttons : machine.pad.buttons = true

section Answers

variable
  {face : Byte → Option Glyph}
  {machine next : Machine}
  {television : Television}
  {shown : Shown}
  {keys : Keys}
  {answer : Answer}

theorem Shown.enter_offers
    {form : LoginForm}
    (enters : Shown.enter form = .returns answer) :
    (Shown.login form).Offers keys answer := by
  unfold Shown.enter at enters
  split at enters
  · rename_i atButton
    cases enters
    exact ⟨atButton, rfl, rfl⟩
  · cases enters

/-- What a dialog returns for a key, it offers. -/
theorem Shown.Good.offers
    (good : shown.Good face)
    (returns : shown.pressed keys = .returns answer) :
    shown.Offers keys answer := by
  cases shown with
  | networkList networks curNet =>
      obtain ⟨inside, _⟩ := good
      simp only [Shown.pressed] at returns
      split at returns
      · split at returns
        · rename_i action polled
          cases returns
          unfold emptyListKeys at polled
          refine ⟨rfl, ?_⟩
          cases action <;> grind
        · cases returns
        · cases returns
      · split at returns
        · rename_i cur action polled
          cases returns
          unfold networkListKeys at polled
          refine ⟨by grind, ?_⟩
          cases action <;> grind
        · cases returns
        · cases returns
  | question msg choice =>
      simp only [Shown.pressed] at returns
      split at returns
      · rename_i ok polled
        cases returns
        unfold questionKeys at polled
        simp only [Shown.Offers]
        grind
      · cases returns
  | login form =>
      simp only [Shown.pressed] at returns
      split_ifs at returns with up down circle cross
      · cases returns
        exact circle
      · exact Shown.enter_offers returns
  | errorScreen message =>
      simp only [Shown.pressed] at returns
      split at returns <;> cases returns
  | errorDialog message ild =>
      simp only [Shown.pressed] at returns
      split_ifs at returns
      cases returns
      trivial
  | notification message =>
      simp only [Shown.pressed] at returns
      split at returns
      · cases returns
        trivial
      · cases returns
  | statusMessage message =>
      cases returns
      trivial

theorem Shown.flipped_offers
    (flips : shown.flipped = some (.returns answer)) :
    shown.Offers keys answer := by
  cases shown with
  | statusMessage message =>
      cases flips
      trivial
  | login form =>
      simp only [Shown.flipped] at flips
      split at flips
      · exact Shown.enter_offers (Option.some.inj flips)
      · cases flips
  | _ => cases flips

/-- The answer of the outermost dialog is its own, or that of a function that
returns none. -/
theorem Machine.leave_answer
    {result : Answer}
    {callers : List Call}
    (outside :
      (machine.leave face answer callers).phase = .outside (some result)) :
    result = answer ∨ result = .done := by
  induction callers generalizing answer with
  | nil =>
      simp only [leave, Phase.outside.injEq, Option.some.injEq] at outside
      exact .inl outside.symm
  | cons caller callers inductionHypothesis =>
      rw [leave] at outside
      split at outside
      · cases outside
      · exact .inr ((inductionHypothesis outside).elim id id)

theorem Machine.goOn_answer
    {call : Call}
    {callers : List Call}
    {goesOn : Next}
    (outside :
      (machine.goOn face call callers goesOn).phase =
        .outside (some answer)) :
    goesOn = .returns answer ∨ answer = .done := by
  cases goesOn with
  | returns result =>
      rcases Machine.leave_answer outside with rfl | isDone
      · exact .inl rfl
      · exact .inr isDone
  | _ => cases outside

theorem Shown.offers_done
    (shown : Shown)
    (keys : Keys) :
    shown.Offers keys .done := by
  cases shown <;> trivial

/-- Only a press or the end of a flip gives an answer. -/
theorem Machine.step_answers
    {label : Label}
    (stepped : machine.step face label = some next)
    (inside : ∀ before, machine.phase ≠ .outside before)
    (outside : next.phase = .outside (some answer)) :
    label = .read ∨ label = .swap := by
  cases label with
  | read => exact .inl rfl
  | swap => exact .inr rfl
  | call request =>
      obtain ⟨before, isPhase, _⟩ := Machine.step_call.mp stepped
      exact absurd isPhase (inside before)
  | draw =>
      obtain ⟨_, _, _, _, _, rfl⟩ := Machine.step_draw.mp stepped
      cases outside
  | submit =>
      obtain ⟨_, rfl⟩ := Machine.step_submit.mp stepped
      cases outside
  | check =>
      obtain ⟨_, rfl⟩ := Machine.step_check.mp stepped
      dsimp only at outside
      split at outside <;> cases outside
  | wait fails =>
      simp only [Machine.step] at stepped
      split at stepped
      · split at stepped
        · cases stepped
          cases outside
        · split at stepped
          · cases stepped
            cases outside
          · cases stepped
      · cases stepped
  | dumped err =>
      obtain ⟨_, rfl⟩ := Machine.step_dumped.mp stepped
      cases outside
  | edited ime =>
      obtain ⟨_, _, _, _, rfl⟩ := Machine.step_edited.mp stepped
      cases outside
  | vsync =>
      cases stepped
      exact absurd outside (inside _)
  | pad pad =>
      cases stepped
      exact absurd outside (inside _)

namespace Invariant

variable (invariant : Invariant face (machine, television))
include invariant

theorem answers_read
    (stepped : machine.step face .read = some next)
    (outside : next.phase = .outside (some answer)) :
    ∃ shown,
      television = { current := some shown } ∧
        shown.Offers machine.pad.keys answer := by
  rcases Machine.step_read stepped with
    ⟨_, rfl⟩ | ⟨call, callers, isPhase, isCalls, _, rfl⟩ | ⟨isPhase, _, rfl⟩
  · dsimp only at outside
    split at outside <;> cases outside
  · obtain ⟨top, others, isTop, settled, current⟩ :=
      invariant.call_of_phase isPhase id
    obtain ⟨rfl, rfl⟩ := List.cons.inj (isCalls.symm.trans isTop)
    have good : call.shown.Good face := by
      refine invariant.good call ?_
      rw [isCalls]
      exact List.mem_cons_self
    refine ⟨call.shown, Television.eq_of_current current settled.next, ?_⟩
    rcases Machine.goOn_answer outside with returns | rfl
    · exact good.offers returns
    · exact Shown.offers_done ..
  · rw [isPhase] at outside
    cases outside

theorem answers_swap
    (stepped : machine.step face .swap = some next)
    (outside : next.phase = .outside (some answer)) :
    ∃ shown,
      television = { current := some shown } ∧
        shown.Offers machine.pad.keys answer := by
  obtain ⟨isPhase, swapped⟩ := Machine.step_swap.mp stepped
  obtain ⟨call, callers, isCalls, flipped⟩ :=
    invariant.call_of_phase isPhase id
  refine ⟨call.shown,
    Television.eq_of_current flipped.current flipped.next, ?_⟩
  rw [isCalls] at swapped
  simp only [Machine.swap] at swapped
  split at swapped
  · cases swapped
    cases outside
  · rename_i goesOn flips
    cases swapped
    rcases Machine.goOn_answer outside with rfl | rfl
    · exact Shown.flipped_offers flips
    · exact Shown.offers_done ..

/-- An answer is one that the dialog on the display offers. -/
theorem answers
    {label : Label}
    (stepped : machine.step face label = some next)
    (inside : ∀ before, machine.phase ≠ .outside before)
    (outside : next.phase = .outside (some answer)) :
    ∃ shown,
      television = { current := some shown } ∧
        shown.Offers machine.pad.keys answer := by
  rcases Machine.step_answers stepped inside outside with rfl | rfl
  · exact invariant.answers_read stepped outside
  · exact invariant.answers_swap stepped outside

end Invariant

theorem Machine.leave_phase
    {callers : List Call} :
    (machine.leave face answer callers).phase ≠ .pressing := by
  induction callers generalizing answer with
  | nil =>
      simp [leave]
  | cons caller callers inductionHypothesis =>
      rw [leave]
      split
      · simp [redraw]
      · exact inductionHypothesis

/-- No dialog goes on by taking the keys of its poll again. -/
theorem Machine.goOn_phase
    {call : Call}
    {callers : List Call}
    {goesOn : Next} :
    (machine.goOn face call callers goesOn).phase ≠ .pressing := by
  cases goesOn with
  | returns answer => exact Machine.leave_phase
  | _ => simp [goOn, redraw]

/-- The program starts to wait for a press when it reads that no button is
pressed. -/
theorem Machine.step_pressing
    {label : Label}
    (stepped : machine.step face label = some next)
    (isNext : next.phase = .pressing) :
    machine.phase = .pressing ∨
      label = .read ∧ machine.phase = .releasing ∧
        machine.pad.buttons = false := by
  cases label with
  | read =>
      rcases Machine.step_read stepped with
        ⟨isPhase, rfl⟩ | ⟨_, _, isPhase, _⟩ | ⟨isPhase, _⟩
      · refine .inr ⟨rfl, isPhase, ?_⟩
        dsimp only at isNext
        split at isNext
        · cases isNext
        · rename_i released
          exact Bool.not_eq_true _ ▸ released
      · exact .inl isPhase
      · exact .inl isPhase
  | swap =>
      obtain ⟨_, swapped⟩ := Machine.step_swap.mp stepped
      cases isCalls : machine.calls with
      | nil =>
          rw [isCalls] at swapped
          cases swapped
      | cons call callers =>
          rw [isCalls] at swapped
          simp only [Machine.swap] at swapped
          split at swapped
          · cases swapped
            cases isNext
          · cases swapped
            exact absurd isNext Machine.goOn_phase
  | call request =>
      obtain ⟨_, _, rfl⟩ := Machine.step_call.mp stepped
      cases isNext
  | draw =>
      obtain ⟨_, _, _, _, _, rfl⟩ := Machine.step_draw.mp stepped
      cases isNext
  | submit =>
      obtain ⟨_, rfl⟩ := Machine.step_submit.mp stepped
      cases isNext
  | check =>
      obtain ⟨_, rfl⟩ := Machine.step_check.mp stepped
      dsimp only at isNext
      split at isNext <;> cases isNext
  | wait fails =>
      simp only [Machine.step] at stepped
      split at stepped
      · split at stepped
        · cases stepped
          cases isNext
        · split at stepped
          · cases stepped
            cases isNext
          · cases stepped
      · cases stepped
  | dumped err =>
      obtain ⟨_, rfl⟩ := Machine.step_dumped.mp stepped
      cases isNext
  | edited ime =>
      obtain ⟨_, _, _, _, rfl⟩ := Machine.step_edited.mp stepped
      cases isNext
  | vsync =>
      cases stepped
      exact .inl isNext
  | pad pad =>
      cases stepped
      exact .inl isNext

/-- A run to the wait for a press reads the pad with no button pressed. -/
theorem run_pressing
    {source target : Machine × Television}
    {labels : List Label}
    (run : Run (Watched face) source labels target)
    (isSource : source.1.phase ≠ .pressing)
    (isTarget : target.1.phase = .pressing) :
    ∃ leading trailing middle,
      labels = leading ++ .read :: trailing ∧
        Run (Watched face) source leading middle ∧
        middle.1.phase = .releasing ∧
        middle.1.pad.buttons = false := by
  induction run with
  | nil state =>
      exact absurd isTarget isSource
  | @cons source middle target label rest step later inductionHypothesis =>
      by_cases isMiddle : middle.1.phase = .pressing
      · rcases Machine.step_pressing step.1 isMiddle with
          same | ⟨rfl, releasing, released⟩
        · exact absurd same isSource
        · exact ⟨[], rest, source, rfl, .nil source, releasing, released⟩
      · obtain ⟨leading, trailing, last, rfl, before, found⟩ :=
          inductionHypothesis isMiddle isTarget
        exact ⟨label :: leading, trailing, last, rfl,
          .cons label leading step before, found⟩

end Answers

/-- The word of this pixel lies in the frame buffer that is drawn to, which is
a part of the video memory that it shares with no other. -/
inductive Scene2D.Inside (scene : Scene2D) (write : PixelWrite) : Prop
  | frameBuffer
      {base : Int}
      (active :
        scene.frameBuffers[scene.activeFrameBufferIdx]? = some base)
      (above : base ≤ scene.address base (write.x, write.y))
      (below :
        scene.address base (write.x, write.y) + 4 ≤
          base + scene.frameBufferSize)
      (allocated :
        scene.videoMem ≤ base ∧
          base + scene.frameBufferSize ≤
            scene.videoMem + scene.directMemAllocationSize)
      (apart :
        ∀ other otherBase,
          other ≠ scene.activeFrameBufferIdx →
          scene.frameBuffers[other]? = some otherBase →
          base + scene.frameBufferSize ≤ otherBase ∨
            otherBase + scene.frameBufferSize ≤ base)

section Runs

variable
  {face : Byte → Option Glyph}
  {calls : VideoCalls}
  {scene : Scene2D}
  {memory cleared : VideoMemory}
  {flipArg : Int}
  {pad : Pad}
  {labels : List Label}
  {machine next : Machine}
  {television : Television}

/-- System calls that succeed. -/
def VideoCalls.succeeding : VideoCalls where
  opened := 1
  createdEqueue := 0
  allocated := 0
  directMemOff := 0
  mapped := 0
  videoMem := 0
  registered := 0

/-- Without a font the texts of the toolbox have no width. -/
theorem toolboxFits_none :
    ToolboxFits fun _ => none := by
  unfold ToolboxFits
  decide

/-- The first call of a dialog. -/
theorem first_call
    (face : Byte → Option Glyph)
    {request : Request}
    (fits : request.Fits face) :
    ∃ scene cleared machine,
      guiInit .succeeding (fun _ => 0) = some (scene, cleared) ∧
        (∀ label ∈ [Label.call request], label.Allowed face) ∧
        Run (Watched face)
          (Machine.start scene cleared (-1) { keys := {} }, {})
          [.call request] (machine, {}) ∧
        Invariant face (machine, {}) ∧ machine.Flipping ∧
        machine.calls = [{ shown := request.shown }] ∧
        machine.phase = .drawing (request.shown.draw face) := by
  obtain ⟨scene, cleared, starts⟩ :=
    @guiInit_exists .succeeding (fun _ => 0)
      (by decide) (by decide) (by decide) (by decide) rfl
  have call :
      Watched face (Machine.start scene cleared (-1) { keys := {} }, {})
        (.call request)
        ((Machine.start scene cleared (-1) { keys := {} }).redraw face
          { shown := request.shown } [], {}) :=
    ⟨rfl, rfl⟩
  have allowed : ∀ label ∈ [Label.call request], label.Allowed face := by
    simpa [Label.Allowed] using fits
  have invariant :=
    (Invariant.start starts (by decide) (by decide) { keys := {} }).call fits
      call.1
  exact ⟨scene, cleared, _, starts, allowed, .cons _ [] call (.nil _),
    invariant, trivial, rfl, rfl⟩

/-- Without a font the list of one network fits. -/
theorem lan_fits :
    (Request.networkList [chars "lan"] 0).Fits fun _ => none :=
  ⟨.inr (by decide), toolboxFits_none⟩

/-- In every run of dialogs whose screens fit, the display shows the screens
that were submitted, one after the other and each as a whole: every pixel is
that of the current screen.  The program draws inside of one frame buffer,
which is not on the display nor about to be, and not before the last screen was
shown. -/
theorem display_shows_whole_screens
    (starts : guiInit calls memory = some (scene, cleared))
    (opened : calls.opened ≠ 0)
    (idle : flipArg ≠ 0)
    (allowed : ∀ label ∈ labels, label.Allowed face)
    (run :
      Run (Watched face) (Machine.start scene cleared flipArg pad, {})
        labels (machine, television)) :
    (∀ point, OnScreen point →
        machine.displayed point =
          television.current.map fun shown => shown.picture face point) ∧
      ∀ writes, machine.phase = .drawing writes →
        (∀ write ∈ writes, machine.scene.Inside write) ∧
          machine.video.shown ≠ some machine.scene.activeFrameBufferIdx ∧
          machine.video.flips = [] ∧ television.next = none := by
  have invariant := (Invariant.start starts opened idle pad).run allowed run
  refine ⟨fun point => invariant.displayed, fun writes isPhase => ?_⟩
  obtain ⟨call, callers, isCalls, settled, drawing⟩ :=
    invariant.call_of_phase isPhase id
  obtain ⟨hidden, noFlips⟩ := settled.hidden invariant.buffered
  refine ⟨fun write member => ?_, hidden, noFlips, settled.next⟩
  have good : call.shown.Good face := by
    refine invariant.good call ?_
    rw [isCalls]
    exact List.mem_cons_self
  have onScreen : write.OnScreen Hamachi.scene := by
    obtain ⟨drawn, _, isDrawn, _⟩ := drawing
    refine good.onScreen write ?_
    rw [isDrawn]
    exact List.mem_append_right _ member
  have isBase := invariant.buffered.frameBuffers_getElem?
    invariant.buffered.active
  obtain ⟨above, below⟩ :=
    invariant.buffered.address_inside _ (onScreen_write onScreen)
  exact .frameBuffer isBase above below
    (invariant.buffered.frameBuffer_inside isBase)
    fun other otherBase different isOther =>
      invariant.buffered.frameBuffers_apart isBase isOther different

/-- The first status message is drawn in its frame buffer and comes to the
display. -/
theorem display_shows_status_message :
    ∃ scene cleared drawing labels machine,
      guiInit .succeeding (fun _ => 0) = some (scene, cleared) ∧
        Run (Watched fun _ => none)
          (Machine.start scene cleared (-1) { keys := {} }, {})
          [.call (.statusMessage (chars "Wait"))] (drawing, {}) ∧
        drawing.phase =
          .drawing ((Shown.statusMessage (chars "Wait")).draw
            fun _ => none) ∧
        (∀ write ∈
            (Shown.statusMessage (chars "Wait")).draw fun _ => none,
          drawing.scene.Inside write) ∧
        Run (Watched fun _ => none) (drawing, {}) labels
          (machine, { current := some (.statusMessage (chars "Wait")) }) ∧
        ∀ point, OnScreen point →
          machine.displayed point =
            some ((Shown.statusMessage (chars "Wait")).picture
              (fun _ => none) point) := by
  obtain ⟨scene, cleared, called, starts, allowed, call, invariant,
    flipping, isCalls, isPhase⟩ :=
    @first_call (fun _ => none) (.statusMessage (chars "Wait")) trivial
  obtain ⟨labels, machine, later, run, _⟩ :=
    invariant.reaches_swap flipping isCalls
  have drawn :=
    (display_shows_whole_screens starts (by decide) (by decide) allowed
      call).2 _ isPhase
  have shows :=
    (display_shows_whole_screens starts (by decide) (by decide)
      (List.forall_mem_append.mpr
        ⟨allowed, fun label member => (later label member).1⟩)
      (call.append run)).1
  exact ⟨scene, cleared, called, labels, machine, starts, call, isPhase,
    drawn.1, run, shows⟩

/-- From the first pixel of a screen to the swap of the frame buffers, the
program can always go on, at the latest after the flip that it waits for; and
whatever happens in between, it makes a bounded number of steps. -/
theorem flip_completes
    (starts : guiInit calls memory = some (scene, cleared))
    (opened : calls.opened ≠ 0)
    (idle : flipArg ≠ 0)
    (allowed : ∀ label ∈ labels, label.Allowed face)
    (run :
      Run (Watched face) (Machine.start scene cleared flipArg pad, {})
        labels (machine, television))
    (flipping : machine.Flipping) :
    (machine.CanGoOn face ∨
        machine.video.flips ≠ [] ∧
          ({ machine with video := machine.video.vsync }).CanGoOn face) ∧
      ∀ others target,
        (∀ label ∈ others, label.Allowed face) →
        .swap ∉ others →
        Run (Watched face) (machine, television) others target →
        target.1.Flipping ∧
          others.countP Label.Draws < machine.work := by
  have invariant := (Invariant.start starts opened idle pad).run allowed run
  have working := Machine.work_pos_iff.mpr flipping
  refine ⟨invariant.canGoOn flipping, fun others target fine noSwap later => ?_⟩
  obtain ⟨positive, bound⟩ := invariant.work_run working fine noSwap later
  dsimp only at bound
  exact ⟨Machine.work_pos_iff.mp positive, by omega⟩

/-- The first screen of a list of networks is flipped in the end. -/
theorem flip_completes_network_list :
    ∃ scene cleared machine,
      guiInit .succeeding (fun _ => 0) = some (scene, cleared) ∧
        Run (Watched fun _ => none)
          (Machine.start scene cleared (-1) { keys := {} }, {})
          [.call (.networkList [chars "lan"] 0)] (machine, {}) ∧
        ∀ others target,
          (∀ label ∈ others, label.Allowed fun _ => none) →
          .swap ∉ others →
          Run (Watched fun _ => none) (machine, {}) others target →
          others.countP Label.Draws < machine.work := by
  obtain ⟨scene, cleared, machine, starts, allowed, call, _, flipping, _, _⟩ :=
    first_call (fun _ => none) lan_fits
  refine ⟨scene, cleared, machine, starts, call, ?_⟩
  intro others target fine noSwap later
  exact ((flip_completes starts (by decide) (by decide) allowed call
    flipping).2 others target fine noSwap later).2

/-- A dialog returns only what it offers on the screen that the display shows,
all of it, while the key is read. -/
theorem answers_are_displayed
    {label : Label}
    {answer : Answer}
    (starts : guiInit calls memory = some (scene, cleared))
    (opened : calls.opened ≠ 0)
    (idle : flipArg ≠ 0)
    (allowed : ∀ label ∈ labels, label.Allowed face)
    (run :
      Run (Watched face) (Machine.start scene cleared flipArg pad, {})
        labels (machine, television))
    (stepped : machine.step face label = some next)
    (inside : ∀ before, machine.phase ≠ .outside before)
    (outside : next.phase = .outside (some answer)) :
    ∃ shown : Shown,
      (∀ point, OnScreen point →
          machine.displayed point = some (shown.picture face point)) ∧
        shown.Offers machine.pad.keys answer := by
  have invariant := (Invariant.start starts opened idle pad).run allowed run
  obtain ⟨shown, rfl, offers⟩ := invariant.answers stepped inside outside
  exact ⟨shown, fun point => invariant.displayed, offers⟩

/-- Leaving the only network of a list. -/
theorem answers_are_displayed_leaving :
    ∃ scene cleared labels machine next,
      guiInit .succeeding (fun _ => 0) = some (scene, cleared) ∧
        Run (Watched fun _ => none)
          (Machine.start scene cleared (-1) { keys := {} }, {}) labels
          (machine, { current := some (.networkList [chars "lan"] 0) }) ∧
        machine.step (fun _ => none) .read = some next ∧
        next.phase = .outside (some (.listAction 0 .delete)) ∧
        ∃ shown : Shown,
          (∀ point, OnScreen point →
              machine.displayed point =
                some (shown.picture (fun _ => none) point)) ∧
            shown.Offers { circle := true } (.listAction 0 .delete) := by
  obtain ⟨scene, cleared, called, starts, allowed, call, invariant,
    flipping, isCalls, _⟩ :=
    first_call (fun _ => none) lan_fits
  obtain ⟨labels, machine, later, run, isPhase, hasCalls, hasPad⟩ :=
    invariant.reaches_press flipping isCalls rfl
      { keys := { circle := true } }
  have stepped :
      machine.step (fun _ => none) .read =
        some { machine with
          calls := []
          phase := .outside (some (.listAction 0 .delete)) } := by
    have pressed : machine.pad.buttons = true := by
      rw [hasPad]
      decide
    have isKeys : machine.pad.keys = { circle := true } := by
      rw [hasPad]
    rw [Machine.step_read_press isPhase hasCalls pressed, isKeys]
    rfl
  have answers := answers_are_displayed starts (by decide) (by decide)
    (List.forall_mem_append.mpr
      ⟨allowed, fun label member => (later label member).1⟩)
    (call.append run) stepped
    (by simp [isPhase]) rfl
  rw [hasPad] at answers
  exact ⟨scene, cleared, _, machine, _, starts, call.append run, stepped,
    rfl, answers⟩

/-- Buttons that stay pressed are answered once: between two polls that a
dialog answers, the pad was read with no button pressed. -/
theorem presses_are_answered_once
    {first after last : Machine × Television}
    (reports : first.1.Reports)
    (reads : Watched face first .read after)
    (run : Run (Watched face) after labels last)
    (again : last.1.Reports) :
    ∃ leading trailing middle,
      labels = leading ++ .read :: trailing ∧
        Run (Watched face) after leading middle ∧
        middle.1.phase = .releasing ∧
        middle.1.pad.buttons = false := by
  refine run_pressing run ?_ again.1
  obtain ⟨isPhase, pressed⟩ := reports
  rcases Machine.step_read reads.1 with
    ⟨releasing, _⟩ | ⟨call, callers, _, _, _, isAfter⟩ | ⟨_, released, _⟩
  · rw [isPhase] at releasing
    cases releasing
  · rw [isAfter]
    exact Machine.goOn_phase
  · rw [pressed] at released
    cases released

/-- Between two presses of an unknown button in a notification. -/
theorem presses_are_answered_once_notification :
    ∃ (first after last : Machine × Television) (labels : List Label),
      first.1.Reports ∧ last.1.Reports ∧
        Watched (fun _ => none) first .read after ∧
        Run (Watched fun _ => none) after labels last ∧
        ∃ leading trailing middle,
          labels = leading ++ .read :: trailing ∧
            Run (Watched fun _ => none) after leading middle ∧
            middle.1.phase = .releasing ∧
            middle.1.pad.buttons = false := by
  obtain ⟨_, _, _, _, _, _, invariant, flipping, isCalls, _⟩ :=
    @first_call (fun _ => none) (.notification (chars "Done")) trivial
  obtain ⟨_, first, fine, run, isPhase, hasCalls, hasPad⟩ :=
    invariant.reaches_press flipping isCalls rfl
      { keys := {}, others := true }
  have pressed :
      ({ keys := {}, others := true } : Pad).buttons = true := by
    decide
  have reports : first.Reports :=
    ⟨isPhase, hasPad ▸ pressed⟩
  have reads :
      Watched (fun _ => none)
        (first, { current := some (.notification (chars "Done")) }) .read
        (first.redraw (fun _ => none)
            { shown := .notification (chars "Done") } [],
          { current := some (.notification (chars "Done")) }) := by
    refine ⟨?_, rfl⟩
    dsimp only
    rw [Machine.step_read_press isPhase hasCalls reports.2, hasPad]
    rfl
  have again :=
    (invariant.run (fun label member => (fine label member).1) run).read
      reads.1
  obtain ⟨labels, last, _, later, lastPhase, _, lastPad⟩ :=
    again.reaches_press trivial rfl rfl { keys := {}, others := true }
  have lastReports : last.Reports :=
    ⟨lastPhase, lastPad ▸ pressed⟩
  exact ⟨_, _, _, labels, reports, lastReports, reads, later,
    presses_are_answered_once reports reads later lastReports⟩

end Runs

end Hamachi.Display
