import Hamachi.DialogInputs
import Hamachi.DisplayedScreens

namespace Hamachi.Display

/-!
# Dialogs on the display and dialogs by their inputs

However drawing, flips and the user's presses interleave, a dialog on the
display answers what it computes from the polls and texts that it took.
-/

/-- A step of the machine, without a television. -/
def Machine.Steps
    (face : Byte → Option Glyph)
    (source : Machine)
    (label : Label)
    (target : Machine) :
    Prop :=
  source.step face label = some target

/-- What a step takes from outside. -/
def Machine.input (machine : Machine) : Label → Option Input
  | .read =>
      match machine.phase with
      | .pressing =>
          if machine.pad.buttons then some (.press machine.pad.keys) else none
      | _ => none
  | .edited ime => some (.edit ime)
  | _ => none

/-- What a run takes from outside. -/
def inputs
    (face : Byte → Option Glyph) :
    Machine → List Label → List Input
  | _, [] => []
  | machine, label :: rest =>
      match machine.step face label with
      | none => []
      | some next => (machine.input label).toList ++ inputs face next rest

/-- What the dialog that the machine runs comes to without a display. -/
inductive Reaches (machine : Machine) : Polled Waiting Answer → Prop where
  | flipping
      (call : Call)
      (isPhase : machine.Flipping)
      (isCalls : machine.calls = [call]) :
      Reaches machine call.shown.waits
  | polling
      (call : Call)
      (isPhase : machine.phase = .releasing ∨ machine.phase = .pressing)
      (isCalls : machine.calls = [call]) :
      Reaches machine (.goesOn ⟨call.shown, .polling⟩)
  | dumping
      (call : Call)
      (isPhase : machine.phase = .dumping)
      (isCalls : machine.calls = [call]) :
      Reaches machine (.goesOn ⟨call.shown, .dumping call.keys⟩)
  | dumped
      (top call : Call)
      (err : Option (List Byte))
      (isTop : top.shown = Shown.dumpResult err)
      (isPhase :
        machine.Flipping ∨
          machine.phase = .releasing ∨ machine.phase = .pressing)
      (isCalls : machine.calls = [top, call]) :
      Reaches machine (.goesOn ⟨call.shown, .dumping call.keys⟩)
  | editing
      (call : Call)
      (isPhase : machine.phase = .editing)
      (isCalls : machine.calls = [call]) :
      Reaches machine (.goesOn ⟨call.shown, .editing⟩)
  | outside
      (answer : Answer)
      (isPhase : machine.phase = .outside (some answer)) :
      Reaches machine (.returns answer)

/-- The dialog goes on with an input, or without one. -/
def Reaches.After
    (outcome : Polled Waiting Answer)
    (next : Machine) :
    Option Input → Prop
  | none => Reaches next outcome
  | some (.press keys) =>
      ∃ waiting,
        outcome = .goesOn waiting ∧ waiting.place ≠ .editing ∧
          Reaches next (waiting.press keys)
  | some (.edit ime) =>
      ∃ waiting,
        outcome = .goesOn waiting ∧ waiting.place = .editing ∧
          Reaches next (waiting.shown.edited ime).waits

variable
  {face : Byte → Option Glyph}
  {machine next : Machine}
  {outcome : Polled Waiting Answer}

/-- A flip is followed by a poll, a text or the return. -/
theorem Shown.flipped_cases
    {shown : Shown}
    {goesOn : Next}
    (flips : shown.flipped = some goesOn) :
    goesOn = .edit ∨ ∃ answer, goesOn = .returns answer := by
  cases shown with
  | statusMessage message =>
      cases flips
      exact .inr ⟨.done, rfl⟩
  | login form =>
      simp only [Shown.flipped, Shown.enter] at flips
      split_ifs at flips with entering atButton
      · cases flips
        exact .inr ⟨_, rfl⟩
      · cases flips
        exact .inl rfl
  | _ => cases flips

/-- After `doDumpLogs` a dialog draws again or returns. -/
theorem Shown.dumped_cases
    (shown : Shown)
    (keys : Keys) :
    (∃ again, shown.dumped keys = .redraw again) ∨
      shown.dumped keys = .returns .done := by
  cases shown with
  | errorDialog message ild =>
      simp only [Shown.dumped]
      split
      · exact .inr rfl
      · exact .inl ⟨_, rfl⟩
  | _ => exact .inl ⟨_, rfl⟩

/-- The dialog with the result of `dump_logs` returns with the cross. -/
theorem Shown.dumpResult_pressed
    (err : Option (List Byte))
    (keys : Keys) :
    (Shown.dumpResult err).pressed keys =
      if keys.cross then
        .returns .done
      else
        .redraw (Shown.dumpResult err) := by
  cases err with
  | none => rfl
  | some err => simp [Shown.dumpResult, Shown.pressed]

theorem Shown.dumpResult_flipped
    (err : Option (List Byte)) :
    (Shown.dumpResult err).flipped = none := by
  cases err <;> rfl

/-- Drawing and what is around the program leave it in its dialog. -/
theorem Machine.step_quiet
    {label : Label}
    (stepped : machine.step face label = some next)
    (quiet :
      label.Draws = true ∨ label = .vsync ∨ ∃ pad, label = .pad pad) :
    next.calls = machine.calls ∧
      (machine.Flipping ∧ next.Flipping ∨ next.phase = machine.phase) := by
  cases label with
  | draw =>
      obtain ⟨_, _, _, isPhase, _, rfl⟩ := Machine.step_draw.mp stepped
      exact ⟨rfl, .inl ⟨by simp [Machine.Flipping, isPhase], trivial⟩⟩
  | submit =>
      obtain ⟨isPhase, rfl⟩ := Machine.step_submit.mp stepped
      exact ⟨rfl, .inl ⟨by simp [Machine.Flipping, isPhase], trivial⟩⟩
  | check =>
      obtain ⟨isPhase, rfl⟩ := Machine.step_check.mp stepped
      refine ⟨rfl, .inl ⟨by simp [Machine.Flipping, isPhase], ?_⟩⟩
      simp only [Machine.Flipping]
      split_ifs <;> trivial
  | wait fails =>
      simp only [Machine.step] at stepped
      split at stepped
      · rename_i isPhase
        refine ⟨?_, .inl ⟨by simp [Machine.Flipping, isPhase], ?_⟩⟩ <;>
          split_ifs at stepped <;> cases stepped <;> trivial
      · cases stepped
  | vsync =>
      cases stepped
      exact ⟨rfl, .inr rfl⟩
  | pad pad =>
      cases stepped
      exact ⟨rfl, .inr rfl⟩
  | _ => simp [Label.Draws] at quiet

namespace Reaches

/-- A step that leaves the program in its dialog. -/
theorem quiet
    (reaches : Reaches machine outcome)
    (sameCalls : next.calls = machine.calls)
    (stays :
      machine.Flipping ∧ next.Flipping ∨ next.phase = machine.phase) :
    Reaches next outcome := by
  have flips : machine.Flipping → next.Flipping := by
    intro flipping
    rcases stays with ⟨_, nextFlipping⟩ | same
    · exact nextFlipping
    · rwa [Machine.Flipping, same]
  have keeps :
      ∀ phase, machine.phase = phase → ¬ machine.Flipping →
        next.phase = phase := by
    rintro phase rfl still
    exact stays.resolve_left fun flipping => still flipping.1
  cases reaches with
  | flipping call isPhase isCalls =>
      exact .flipping call (flips isPhase) (sameCalls.trans isCalls)
  | polling call isPhase isCalls =>
      refine .polling call ?_ (sameCalls.trans isCalls)
      exact isPhase.imp
        (fun isPhase => keeps _ isPhase (by simp [Machine.Flipping, isPhase]))
        (fun isPhase => keeps _ isPhase (by simp [Machine.Flipping, isPhase]))
  | dumping call isPhase isCalls =>
      exact .dumping call
        (keeps _ isPhase (by simp [Machine.Flipping, isPhase]))
        (sameCalls.trans isCalls)
  | dumped top call err isTop isPhase isCalls =>
      refine .dumped top call err isTop ?_ (sameCalls.trans isCalls)
      refine isPhase.imp flips (Or.imp ?_ ?_) <;> intro isPhase <;>
        exact keeps _ isPhase (by simp [Machine.Flipping, isPhase])
  | editing call isPhase isCalls =>
      exact .editing call
        (keeps _ isPhase (by simp [Machine.Flipping, isPhase]))
        (sameCalls.trans isCalls)
  | outside answer isPhase =>
      exact .outside answer
        (keeps _ isPhase (by simp [Machine.Flipping, isPhase]))

/-- Going on without callers is what the dialog comes to. -/
theorem goOn
    (call : Call)
    (goesOn : Next) :
    Reaches (machine.goOn face call [] goesOn)
      (goesOn.waits call.shown call.keys) := by
  cases goesOn with
  | redraw shown =>
      exact .flipping { call with shown := shown } trivial rfl
  | dumpLogs => exact .dumping call rfl rfl
  | edit => exact .editing call rfl rfl
  | returns answer => exact .outside answer rfl

/-- Leaving the dialog with the result of `dump_logs` goes on with the one
under it. -/
theorem leave
    (call : Call) :
    Reaches (machine.leave face .done [call])
      ((call.shown.dumped call.keys).waits call.shown call.keys) := by
  rcases call.shown.dumped_cases call.keys with ⟨again, isAgain⟩ | isDone
  · simp only [Machine.leave, isAgain]
    exact .flipping { call with shown := again } trivial rfl
  · simp only [Machine.leave, isDone]
    exact .outside .done rfl

/-- The swap after a flip. -/
theorem swap
    (reaches : Reaches machine outcome)
    (stepped : machine.step face .swap = some next) :
    Reaches next outcome := by
  obtain ⟨isSwapping, swapped⟩ := Machine.step_swap.mp stepped
  cases reaches with
  | flipping call _ isCalls =>
      rw [isCalls] at swapped
      simp only [Machine.swap] at swapped
      split at swapped
      · rename_i polls
        cases swapped
        rw [Shown.waits, polls]
        exact .polling call (.inl rfl) isCalls
      · rename_i goesOn flips
        cases swapped
        rw [Shown.waits, flips]
        rcases Shown.flipped_cases flips with rfl | ⟨answer, rfl⟩
        · exact goOn call .edit
        · exact goOn call (.returns answer)
  | dumped top call err isTop _ isCalls =>
      rw [isCalls] at swapped
      simp only [Machine.swap, isTop, Shown.dumpResult_flipped] at swapped
      cases swapped
      exact .dumped top call err isTop (.inr (.inl rfl)) isCalls
  | polling call isPhase _ => simp [isSwapping] at isPhase
  | dumping call isPhase _ => simp [isSwapping] at isPhase
  | editing call isPhase _ => simp [isSwapping] at isPhase
  | outside answer isPhase => simp [isSwapping] at isPhase

end Reaches

/-- The polls are those of the dialog, or of the result of its `dump_logs`. -/
inductive Polling (machine : Machine) : Polled Waiting Answer → Prop where
  | own
      (call : Call)
      (isCalls : machine.calls = [call]) :
      Polling machine (.goesOn ⟨call.shown, .polling⟩)
  | dumped
      (top call : Call)
      (err : Option (List Byte))
      (isTop : top.shown = Shown.dumpResult err)
      (isCalls : machine.calls = [top, call]) :
      Polling machine (.goesOn ⟨call.shown, .dumping call.keys⟩)

namespace Reaches

theorem polls
    (reaches : Reaches machine outcome)
    (isPhase : machine.phase = .releasing ∨ machine.phase = .pressing) :
    Polling machine outcome := by
  cases reaches with
  | polling call _ isCalls => exact .own call isCalls
  | dumped top call err isTop _ isCalls =>
      exact .dumped top call err isTop isCalls
  | flipping call flips _ =>
      rcases isPhase with isPhase | isPhase <;>
        simp [Machine.Flipping, isPhase] at flips
  | dumping call isDumping _ => simp [isDumping] at isPhase
  | editing call isEditing _ => simp [isEditing] at isPhase
  | outside answer isOutside => simp [isOutside] at isPhase

/-- Reading the pad, with an input where a press is answered. -/
theorem read
    (reaches : Reaches machine outcome)
    (stepped : machine.step face .read = some next) :
    Reaches.After outcome next (machine.input .read) := by
  rcases Machine.step_read stepped with
    ⟨isReleasing, rfl⟩ |
    ⟨top, callers, isPressing, isCalls, pressed, rfl⟩ |
    ⟨isPressing, released, isSame⟩
  · have noInput : machine.input .read = none := by
      simp [Machine.input, isReleasing]
    have again :
        (if machine.pad.buttons then Phase.releasing else .pressing) =
            .releasing ∨
          (if machine.pad.buttons then Phase.releasing else .pressing) =
            .pressing := by
      split
      · exact .inl rfl
      · exact .inr rfl
    rw [noInput]
    cases reaches.polls (.inl isReleasing) with
    | own call isCalls => exact .polling call again isCalls
    | dumped top call err isTop isCalls =>
        exact .dumped top call err isTop (.inr again) isCalls
  · have isInput :
        machine.input .read = some (.press machine.pad.keys) := by
      simp [Machine.input, isPressing, pressed]
    rw [isInput]
    cases reaches.polls (.inr isPressing) with
    | own call hasCalls =>
        obtain ⟨rfl, rfl⟩ := List.cons.inj (isCalls.symm.trans hasCalls)
        exact ⟨_, rfl, by simp, goOn _ _⟩
    | dumped other call err isTop hasCalls =>
        obtain ⟨rfl, rfl⟩ := List.cons.inj (isCalls.symm.trans hasCalls)
        refine ⟨_, rfl, by simp, ?_⟩
        rw [isTop, Shown.dumpResult_pressed]
        simp only [Waiting.press]
        split
        · exact leave call
        · exact .dumped _ call err rfl (.inl trivial) rfl
  · have noInput : machine.input .read = none := by
      simp [Machine.input, isPressing, released]
    rw [noInput, isSame]
    exact reaches

theorem dumpLogs
    {err : Option (List Byte)}
    (reaches : Reaches machine outcome)
    (stepped : machine.step face (.dumped err) = some next) :
    Reaches next outcome := by
  obtain ⟨isDumping, rfl⟩ := Machine.step_dumped.mp stepped
  cases reaches with
  | dumping call _ isCalls =>
      rw [isCalls]
      exact .dumped _ call err rfl (.inl trivial) rfl
  | polling call isPhase _ => simp [isDumping] at isPhase
  | dumped top call err isTop isPhase _ =>
      simp [Machine.Flipping, isDumping] at isPhase
  | flipping call isPhase _ => simp [Machine.Flipping, isDumping] at isPhase
  | editing call isPhase _ => simp [isDumping] at isPhase
  | outside answer isPhase => simp [isDumping] at isPhase

theorem edited
    {ime : ImeResult}
    (reaches : Reaches machine outcome)
    (stepped : machine.step face (.edited ime) = some next) :
    Reaches.After outcome next (some (.edit ime)) := by
  obtain ⟨top, callers, isEditing, isCalls, rfl⟩ :=
    Machine.step_edited.mp stepped
  cases reaches with
  | editing call _ hasCalls =>
      obtain ⟨rfl, rfl⟩ := List.cons.inj (isCalls.symm.trans hasCalls)
      exact ⟨_, rfl, rfl,
        .flipping { top with shown := top.shown.edited ime } trivial rfl⟩
  | dumping call isPhase _ => simp [isEditing] at isPhase
  | polling call isPhase _ => simp [isEditing] at isPhase
  | dumped top call err isTop isPhase _ =>
      simp [Machine.Flipping, isEditing] at isPhase
  | flipping call isPhase _ => simp [Machine.Flipping, isEditing] at isPhase
  | outside answer isPhase => simp [isEditing] at isPhase

/-- Every step but a call goes on with the dialog, with its input. -/
theorem step
    {label : Label}
    (reaches : Reaches machine outcome)
    (notCall : ∀ request, label ≠ .call request)
    (stepped : machine.step face label = some next) :
    Reaches.After outcome next (machine.input label) := by
  cases label with
  | read => exact reaches.read stepped
  | swap => exact reaches.swap stepped
  | dumped err => exact reaches.dumpLogs stepped
  | edited ime => exact reaches.edited stepped
  | call request => exact absurd rfl (notCall request)
  | draw | submit | check | wait fails =>
      obtain ⟨sameCalls, stays⟩ := Machine.step_quiet stepped (.inl rfl)
      exact reaches.quiet sameCalls stays
  | vsync =>
      obtain ⟨sameCalls, stays⟩ :=
        Machine.step_quiet stepped (.inr (.inl rfl))
      exact reaches.quiet sameCalls stays
  | pad pad =>
      obtain ⟨sameCalls, stays⟩ :=
        Machine.step_quiet stepped (.inr (.inr ⟨pad, rfl⟩))
      exact reaches.quiet sameCalls stays

/-- A run to the return concludes the dialog with its inputs. -/
theorem run
    {source target : Machine}
    {labels : List Label}
    {answer : Answer}
    (reaches : Reaches source outcome)
    (noCall : ∀ label ∈ labels, ∀ request, label ≠ .call request)
    (run : Run (Machine.Steps face) source labels target)
    (returned : target.phase = .outside (some answer)) :
    Concludes outcome (inputs face source labels) answer := by
  induction run generalizing outcome with
  | nil state =>
      cases reaches with
      | outside result isPhase =>
          cases isPhase.symm.trans returned
          exact .returned _
      | flipping call isPhase _ => simp [Machine.Flipping, returned] at isPhase
      | polling call isPhase _ => simp [returned] at isPhase
      | dumping call isPhase _ => simp [returned] at isPhase
      | dumped top call err isTop isPhase _ =>
          simp [Machine.Flipping, returned] at isPhase
      | editing call isPhase _ => simp [returned] at isPhase
  | @cons source middle target label rest step _ inductionHypothesis =>
      obtain ⟨notCall, noLater⟩ := List.forall_mem_cons.mp noCall
      have after := reaches.step notCall step
      rw [inputs, show source.step face label = some middle from step]
      dsimp only
      cases isInput : source.input label with
      | none =>
          rw [isInput] at after
          exact inductionHypothesis after noLater returned
      | some input =>
          rw [isInput] at after
          cases input with
          | press keys =>
              obtain ⟨waiting, rfl, polls, later⟩ := after
              exact .press keys polls
                (inductionHypothesis later noLater returned)
          | edit ime =>
              obtain ⟨waiting, rfl, edits, later⟩ := after
              exact .edit ime edits
                (inductionHypothesis later noLater returned)

end Reaches

/-- Whatever draws, flips and presses come in between, a dialog on the display
answers what the dialog of a session computes from the polls and texts that it
took: a network and an action, a choice, a name and a password. -/
theorem displayed_dialogs_compute
    {final : Machine}
    {request : Request}
    {labels : List Label}
    {answer : Answer}
    (run :
      Run (Machine.Steps face) machine (.call request :: labels) final)
    (noCall : ∀ label ∈ labels, ∀ other, label ≠ .call other)
    (returned : final.phase = .outside (some answer)) :
    request.Computes (inputs face machine (.call request :: labels))
      answer := by
  cases run with
  | cons _ _ called later =>
      rw [inputs, show machine.step face (.call request) = some _ from called]
      obtain ⟨_, _, rfl⟩ := Machine.step_call.mp called
      have reaches :
          Reaches (machine.redraw face { shown := request.shown } [])
            request.shown.waits :=
        .flipping { shown := request.shown } trivial rfl
      exact Request.computes (reaches.run noCall later returned)

/-- A run that a television watches is a run. -/
theorem run_of_watched
    {source target : Machine × Television}
    {labels : List Label}
    (run : Run (Watched face) source labels target) :
    Run (Machine.Steps face) source.1 labels target.1 := by
  induction run with
  | nil state => exact .nil _
  | cons label rest step _ inductionHypothesis =>
      exact .cons label rest step.1 inductionHypothesis

/-- Leaving the only network of a list. -/
theorem displayed_dialogs_compute_leaving :
    ∃ machine labels,
      (Request.networkList [chars "lan"] 0).Computes
        (inputs (fun _ => none) machine
          (.call (.networkList [chars "lan"] 0) :: labels))
        (.listAction 0 .delete) := by
  obtain ⟨_, _, _, _, _, call, invariant, flipping, isCalls, _⟩ :=
    first_call (fun _ => none) lan_fits
  obtain ⟨labels, machine, inner, run, isPhase, hasCalls, hasPad⟩ :=
    invariant.reaches_press flipping isCalls rfl
      { keys := { circle := true } }
  have pressed : machine.pad.buttons = true := by
    rw [hasPad]
    decide
  have reads :
      Machine.Steps (fun _ => none) machine .read
        { machine with
          calls := []
          phase := .outside (some (.listAction 0 .delete)) } := by
    have isKeys : machine.pad.keys = { circle := true } := by
      rw [hasPad]
    rw [Machine.Steps, Machine.step_read_press isPhase hasCalls pressed,
      isKeys]
    rfl
  refine ⟨_, labels ++ [.read], displayed_dialogs_compute
    ((run_of_watched call).append ((run_of_watched run).concat reads))
    ?_ rfl⟩
  rw [List.forall_mem_append]
  exact ⟨fun label member => (inner label member).2, by simp⟩

end Hamachi.Display
