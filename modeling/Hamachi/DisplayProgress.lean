import Hamachi.DisplaySafety

namespace Hamachi.Display

/-!
# Every flip completes

The program may check the flip before or after the video output makes it, and
an event of an earlier flip may wake it for nothing; but it never waits for an
event that does not come, and its steps until the swap are bounded.
-/

/-- The steps of the program between the first pixel and the swap. -/
def Label.Draws : Label → Bool
  | .draw | .submit | .check | .wait _ => true
  | _ => false

/-- A bound on the steps of the program until the swap, with the swap. -/
def Machine.work (machine : Machine) : Nat :=
  match machine.phase with
  | .drawing writes => 8 + writes.length
  | .checking =>
      if machine.video.flips = [] then 2
      else if machine.video.event then 7 else 5
  | .waiting =>
      if machine.video.flips = [] then 3
      else if machine.video.event then 6 else 4
  | .swapping => 1
  | _ => 0

/-- Steps of a dialog, and around it. -/
structure Label.Inner
    (face : Byte → Option Glyph)
    (label : Label) :
    Prop where
  allowed : label.Allowed face
  inside : ∀ request, label ≠ .call request

/-- The program draws a screen or waits for its flip. -/
def Machine.Flipping (machine : Machine) : Prop :=
  match machine.phase with
  | .drawing _ | .checking | .waiting | .swapping => True
  | _ => False

variable
  {face : Byte → Option Glyph}
  {machine next : Machine}
  {television : Television}

theorem Machine.work_pos_iff :
    0 < machine.work ↔ machine.Flipping := by
  unfold work Flipping
  cases machine.phase <;> grind

namespace Invariant

variable (invariant : Invariant face (machine, television))
include invariant

/-- A step of the program towards the swap leaves less to do. -/
theorem draws
    {label : Label}
    (allowed : label.Allowed face)
    (draws : label.Draws = true)
    (stepped : machine.step face label = some next) :
    next.calls = machine.calls ∧
      0 < next.work ∧ next.work < machine.work := by
  cases label with
  | draw =>
      obtain ⟨write, writes, memory, isPhase, _, rfl⟩ :=
        Machine.step_draw.mp stepped
      simp [Machine.work, isPhase]
  | submit =>
      obtain ⟨isPhase, rfl⟩ := Machine.step_submit.mp stepped
      cases event : machine.video.event <;>
        simp [Machine.work, Machine.submit, isPhase, event]
  | check =>
      obtain ⟨isPhase, rfl⟩ := Machine.step_check.mp stepped
      obtain ⟨_, _, _, pending | flipped⟩ :=
        invariant.call_of_phase isPhase id
      · have flips : machine.video.flips ≠ [] := by
          simp [pending.flips]
        have opened := invariant.opened
        simp only [Machine.work, isPhase, flips, pending.fresh, or_false,
          if_neg opened, if_false, true_and]
        split <;> decide
      · simp [Machine.work, isPhase, flipped.made, flipped.flips]
  | wait fails =>
      cases allowed
      obtain ⟨isPhase, event, rfl⟩ := Machine.step_wait.mp stepped
      simp only [Machine.work, isPhase, event, true_and]
      split <;> simp
  | _ => cases draws

/-- Nothing is undone by the video output. -/
theorem work_vsync :
    ({ machine with video := machine.video.vsync }).work ≤ machine.work := by
  rcases invariant.flipState with
    ⟨noFlips, _⟩ | ⟨_, isPhase, pending⟩
  · have sameVideo : machine.video.vsync = machine.video := by
      rw [VideoOut.vsync, noFlips]
    rw [sameVideo]
  · have flips : machine.video.vsync.flips = [] := by
      rw [VideoOut.vsync, pending.flips]
    rcases isPhase with isPhase | isPhase <;>
      simp only [Machine.work, isPhase, flips, pending.flips,
        List.cons_ne_nil, if_true, if_false] <;>
      split <;> decide

end Invariant

/-- The program has a step towards the swap, or the swap. -/
inductive Machine.CanGoOn
    (face : Byte → Option Glyph)
    (machine : Machine) :
    Prop
  | draw
      (label : Label)
      {next : Machine}
      (allowed : label.Allowed face)
      (draws : label.Draws = true)
      (stepped : machine.step face label = some next)
  | swap
      {next : Machine}
      (stepped : machine.step face .swap = some next)

namespace Invariant

variable (invariant : Invariant face (machine, television))
include invariant

/-- Until the swap the program can go on, at the latest after the flip. -/
theorem canGoOn
    (flipping : machine.Flipping) :
    machine.CanGoOn face ∨
      machine.video.flips ≠ [] ∧
        ({ machine with video := machine.video.vsync }).CanGoOn face := by
  cases isPhase : machine.phase with
  | drawing writes =>
      cases writes with
      | nil =>
          exact .inl (.draw .submit trivial rfl
            (Machine.step_submit.mpr ⟨isPhase, rfl⟩))
      | cons write writes =>
          obtain ⟨memory, drawn⟩ :=
            invariant.buffered.drawPixel_exists machine.memory write
          exact .inl (.draw .draw trivial rfl
            (Machine.step_draw.mpr
              ⟨write, writes, memory, isPhase, drawn, rfl⟩))
  | checking =>
      exact .inl (.draw .check trivial rfl
        (Machine.step_check.mpr ⟨isPhase, rfl⟩))
  | waiting =>
      obtain ⟨_, _, _, pending | ⟨_, event⟩⟩ :=
        invariant.call_of_phase isPhase id
      · have event : machine.video.vsync.event = true := by
          rw [VideoOut.vsync, pending.flips]
        exact .inr ⟨by simp [pending.flips], .draw (.wait false) rfl rfl
          (Machine.step_wait.mpr ⟨rfl, event, rfl⟩)⟩
      · exact .inl (.draw (.wait false) rfl rfl
          (Machine.step_wait.mpr ⟨isPhase, event, rfl⟩))
  | swapping =>
      obtain ⟨call, callers, isCalls, _⟩ :=
        invariant.call_of_phase isPhase id
      cases flips : call.shown.flipped with
      | none =>
          exact .inl (.swap (Machine.step_swap.mpr
            ⟨isPhase, by rw [isCalls, Machine.swap, flips]⟩))
      | some goesOn =>
          exact .inl (.swap (Machine.step_swap.mpr
            ⟨isPhase, by rw [isCalls, Machine.swap, flips]⟩))
  | _ => simp [Machine.Flipping, isPhase] at flipping

end Invariant

/-- Without a swap the work shrinks by every step of the program. -/
theorem Invariant.work_step
    {label : Label}
    {later : Television}
    (invariant : Invariant face (machine, television))
    (working : 0 < machine.work)
    (allowed : label.Allowed face)
    (notSwap : label ≠ .swap)
    (watched : Watched face (machine, television) label (next, later)) :
    0 < next.work ∧
      next.work + (if label.Draws then 1 else 0) ≤ machine.work := by
  obtain ⟨stepped, _⟩ := watched
  dsimp only at stepped
  cases draws : label.Draws with
  | true =>
      obtain ⟨_, positive, less⟩ := invariant.draws allowed draws stepped
      exact ⟨positive, less⟩
  | false =>
      cases label with
      | vsync =>
          cases stepped
          refine ⟨?_, invariant.work_vsync⟩
          revert working
          cases isPhase : machine.phase <;> simp only [Machine.work, isPhase] <;>
            grind
      | pad pad =>
          cases stepped
          exact ⟨working, le_refl _⟩
      | call request =>
          obtain ⟨answer, isPhase, _⟩ := Machine.step_call.mp stepped
          simp [Machine.work, isPhase] at working
      | read =>
          rcases Machine.step_read stepped with
            ⟨isPhase, _⟩ | ⟨_, _, isPhase, _⟩ | ⟨isPhase, _⟩ <;>
            simp [Machine.work, isPhase] at working
      | dumped err =>
          obtain ⟨isPhase, _⟩ := Machine.step_dumped.mp stepped
          simp [Machine.work, isPhase] at working
      | edited ime =>
          obtain ⟨_, _, isPhase, _⟩ := Machine.step_edited.mp stepped
          simp [Machine.work, isPhase] at working
      | swap => exact absurd rfl notSwap
      | _ => cases draws

/-- Without a swap the work bounds the steps of the program. -/
theorem Invariant.work_run
    {source target : Machine × Television}
    {labels : List Label}
    (invariant : Invariant face source)
    (working : 0 < source.1.work)
    (allowed : ∀ label ∈ labels, label.Allowed face)
    (noSwap : .swap ∉ labels)
    (run : Run (Watched face) source labels target) :
    0 < target.1.work ∧
      labels.countP Label.Draws + target.1.work ≤ source.1.work := by
  induction run with
  | nil state =>
      simpa using working
  | @cons source middle target label rest step later inductionHypothesis =>
      obtain ⟨now, restAllowed⟩ := List.forall_mem_cons.mp allowed
      rw [List.mem_cons, not_or] at noSwap
      obtain ⟨positive, less⟩ := invariant.work_step working now
        (Ne.symm noSwap.1) step
      obtain ⟨lastPositive, restBound⟩ :=
        inductionHypothesis (invariant.step ⟨now, step⟩) positive
          restAllowed noSwap.2
      refine ⟨lastPositive, ?_⟩
      rw [List.countP_cons]
      omega

/-- The program gets to the swap. -/
theorem Invariant.reaches_swap
    {call : Call}
    {callers : List Call}
    (invariant : Invariant face (machine, television))
    (flipping : machine.Flipping)
    (isCalls : machine.calls = call :: callers) :
    ∃ labels next,
      (∀ label ∈ labels, label.Inner face) ∧
        Run (Watched face) (machine, television) labels
          (next, { current := some call.shown }) ∧
        next.phase = .swapping ∧ next.calls = call :: callers := by
  induction bound : machine.work using Nat.strong_induction_on
    generalizing machine television with
  | _ work inductionHypothesis =>
      subst bound
      -- One step of the program, and what the hypothesis says of the rest.
      have advance :
          ∀ {middle : Machine} {seen : Television},
            Invariant face (middle, seen) →
            middle.calls = call :: callers →
            middle.work ≤ machine.work →
            middle.CanGoOn face →
            ∃ labels next,
              (∀ label ∈ labels, label.Inner face) ∧
                Run (Watched face) (middle, seen) labels
                  (next, { current := some call.shown }) ∧
                next.phase = .swapping ∧ next.calls = call :: callers := by
        intro middle seen holds hasCalls within goesOn
        rcases goesOn with
          @⟨label, after, allowed, draws, stepped⟩ | @⟨after, stepped⟩
        · have notCall : ∀ request, label ≠ .call request := by
            rintro request rfl
            cases draws
          obtain ⟨kept, positive, less⟩ := holds.draws allowed draws stepped
          have step : Watched face (middle, seen) label
              (after, seen.after middle label) :=
            ⟨stepped, rfl⟩
          obtain ⟨labels, last, restAllowed, run, isLast⟩ :=
            inductionHypothesis after.work (by omega)
              (holds.step ⟨allowed, step⟩)
              (Machine.work_pos_iff.mp positive) (kept.trans hasCalls) rfl
          exact ⟨label :: labels, last,
            List.forall_mem_cons.mpr ⟨⟨allowed, notCall⟩, restAllowed⟩,
            .cons label labels step run, isLast⟩
        · obtain ⟨isPhase, _⟩ := Machine.step_swap.mp stepped
          obtain ⟨top, others, isTop, flipped⟩ :=
            holds.call_of_phase isPhase id
          obtain ⟨rfl, rfl⟩ := List.cons.inj (hasCalls.symm.trans isTop)
          rw [Television.eq_of_current flipped.current flipped.next]
          exact ⟨[], middle, by simp, .nil _, isPhase, hasCalls⟩
      rcases invariant.canGoOn flipping with goesOn | ⟨_, goesOn⟩
      · exact advance invariant isCalls (le_refl _) goesOn
      · have step : Watched face (machine, television) .vsync
            ({ machine with video := machine.video.vsync },
              television.after machine .vsync) :=
          ⟨rfl, rfl⟩
        obtain ⟨labels, last, restAllowed, run, isLast⟩ :=
          advance invariant.vsync isCalls invariant.work_vsync goesOn
        exact ⟨.vsync :: labels, last,
          List.forall_mem_cons.mpr ⟨⟨trivial, by simp⟩, restAllowed⟩,
          .cons .vsync labels step run, isLast⟩

/-- A dialog that polls the pad gets to where it answers what the user then
presses. -/
theorem Invariant.reaches_press
    {call : Call}
    {callers : List Call}
    (invariant : Invariant face (machine, television))
    (flipping : machine.Flipping)
    (isCalls : machine.calls = call :: callers)
    (polls : call.shown.flipped = none)
    (pad : Pad) :
    ∃ labels next,
      (∀ label ∈ labels, label.Inner face) ∧
        Run (Watched face) (machine, television) labels
          (next, { current := some call.shown }) ∧
        next.phase = .pressing ∧ next.calls = call :: callers ∧
        next.pad = pad := by
  obtain ⟨labels, middle, allowed, run, isPhase, hasCalls⟩ :=
    invariant.reaches_swap flipping isCalls
  let screen : Television := { current := some call.shown }
  let swapped : Machine := { middle with
    scene := middle.scene.frameBufferSwap
    curFrame := middle.curFrame + 1
    phase := .releasing }
  let waiting : Machine := { swapped with
    phase := .pressing
    pad := { keys := {} } }
  have swaps : Watched face (middle, screen) .swap (swapped, screen) := by
    refine ⟨Machine.step_swap.mpr ⟨isPhase, ?_⟩, rfl⟩
    simp only [hasCalls, Machine.swap, polls, swapped]
  have releases :
      Watched face (swapped, screen) (.pad { keys := {} })
        ({ swapped with pad := { keys := {} } }, screen) :=
    ⟨rfl, rfl⟩
  have reads :
      Watched face ({ swapped with pad := { keys := {} } }, screen) .read
        (waiting, screen) := by
    have released : ({ keys := {} } : Pad).buttons = false := by
      decide
    refine ⟨?_, rfl⟩
    simp [Machine.step, swapped, waiting, released]
  have presses :
      Watched face (waiting, screen) (.pad pad)
        ({ waiting with pad := pad }, screen) :=
    ⟨rfl, rfl⟩
  refine ⟨labels ++ [.swap, .pad { keys := {} }, .read, .pad pad],
    { waiting with pad := pad }, ?_, ?_, rfl, hasCalls, rfl⟩
  · refine List.forall_mem_append.mpr ⟨allowed, ?_⟩
    intro label member
    simp only [List.mem_cons, List.not_mem_nil, or_false] at member
    rcases member with rfl | rfl | rfl | rfl <;>
      exact ⟨trivial, by simp⟩
  · exact run.append (.cons _ _ swaps (.cons _ _ releases
      (.cons _ _ reads (.cons _ _ presses (.nil _)))))

end Hamachi.Display
