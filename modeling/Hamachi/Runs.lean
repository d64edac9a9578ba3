import Mathlib.Data.List.Infix

namespace Hamachi

/-!
# Runs of a transition system

`Run` is the sequence of steps that a list of labels drives; `Along` states a
condition at every position of such a list when the state it refers to is a
function of the labels alone.
-/

/-- A finite sequence of steps, labelled by a list. -/
inductive Run
    {State Label : Type}
    (Step : State → Label → State → Prop) :
    State → List Label → State → Prop where
  | nil (state : State) :
      Run Step state [] state
  | cons
      {initial middle final : State}
      (label : Label)
      (rest : List Label)
      (first : Step initial label middle)
      (later : Run Step middle rest final) :
      Run Step initial (label :: rest) final

namespace Run

variable
  {State Label : Type}
  {Step : State → Label → State → Prop}

/-- A property kept by every step is kept by every run. -/
theorem invariant
    {Invariant : State → Prop}
    (preserved :
      ∀ {source label target},
        Invariant source →
        Step source label target →
        Invariant target)
    {initial final : State}
    {labels : List Label}
    (run : Run Step initial labels final)
    (holds : Invariant initial) :
    Invariant final := by
  induction run with
  | nil state =>
      exact holds
  | cons label rest step _ inductionHypothesis =>
      exact inductionHypothesis (preserved holds step)

/-- Two runs one after the other. -/
theorem append
    {initial middle final : State}
    {leading trailing : List Label}
    (first : Run Step initial leading middle)
    (later : Run Step middle trailing final) :
    Run Step initial (leading ++ trailing) final := by
  induction first with
  | nil state =>
      exact later
  | cons label rest step _ inductionHypothesis =>
      exact .cons label _ step (inductionHypothesis later)

/-- A run and one more step. -/
theorem concat
    {initial middle final : State}
    {labels : List Label}
    {label : Label}
    (run : Run Step initial labels middle)
    (step : Step middle label final) :
    Run Step initial (labels ++ [label]) final :=
  run.append (.cons label [] step (.nil final))

/-- A run over a concatenation passes a state in the middle. -/
theorem split
    {initial final : State}
    {leading trailing : List Label}
    (run : Run Step initial (leading ++ trailing) final) :
    ∃ middle,
      Run Step initial leading middle ∧
        Run Step middle trailing final := by
  induction leading generalizing initial with
  | nil =>
      exact ⟨initial, .nil initial, run⟩
  | cons label rest inductionHypothesis =>
      cases run with
      | cons _ _ step later =>
          obtain ⟨middle, first, last⟩ := inductionHypothesis later
          exact ⟨middle, .cons label rest step first, last⟩

/-- A property of states and the labels that led to them, kept by every step
from states where it holds, holds after every run. -/
theorem history
    {Property : List Label → State → Prop}
    {initial final : State}
    {labels : List Label}
    (start : Property [] initial)
    (preserved :
      ∀ {passed source label target},
        Run Step initial passed source →
        Property passed source →
        Step source label target →
        Property (passed ++ [label]) target)
    (run : Run Step initial labels final) :
    Property labels final := by
  have generalized :
      ∀ {middle last : State} {rest : List Label},
        Run Step middle rest last →
        ∀ {passed : List Label},
          Run Step initial passed middle →
          Property passed middle →
          Property (passed ++ rest) last := by
    intro middle last rest run
    induction run with
    | nil state =>
        intro passed _ holds
        rwa [List.append_nil]
    | cons label rest step _ inductionHypothesis =>
        intro passed before holds
        have extended := inductionHypothesis (before.concat step)
          (preserved before holds step)
        rwa [List.append_assoc, List.singleton_append] at extended
  exact generalized run (.nil initial) start

/-- Steps of one kind make a run of every kind that they belong to. -/
theorem imp
    {Other : State → Label → State → Prop}
    {initial final : State}
    {labels : List Label}
    (weaker :
      ∀ {source label target},
        Step source label target → Other source label target)
    (run : Run Step initial labels final) :
    Run Other initial labels final := by
  induction run with
  | nil state =>
      exact .nil state
  | cons label rest step _ inductionHypothesis =>
      exact .cons label rest (weaker step) inductionHypothesis

/-- A run whose labels are all allowed is a run of allowed steps. -/
theorem allowing
    {Allowed : Label → Prop}
    {initial final : State}
    {labels : List Label}
    (run : Run Step initial labels final)
    (allowed : ∀ label ∈ labels, Allowed label) :
    Run (fun source label target =>
        Allowed label ∧ Step source label target)
      initial labels final := by
  induction run with
  | nil state =>
      exact .nil state
  | cons label rest step _ inductionHypothesis =>
      obtain ⟨now, later⟩ := List.forall_mem_cons.mp allowed
      exact .cons label rest ⟨now, step⟩ (inductionHypothesis later)

/-- What every step says of its label holds of the labels of a run. -/
theorem labels
    {Allowed : Label → Prop}
    (allowed :
      ∀ {source label target}, Step source label target → Allowed label)
    {initial final : State}
    {labels : List Label}
    (run : Run Step initial labels final) :
    ∀ label ∈ labels, Allowed label := by
  induction run with
  | nil state =>
      exact fun _ member => absurd member List.not_mem_nil
  | cons label rest step _ inductionHypothesis =>
      exact List.forall_mem_cons.mpr ⟨allowed step, inductionHypothesis⟩

/-- Where a step determines its target, labels determine the end of a run. -/
theorem functional
    {initial final other : State}
    {labels : List Label}
    (first : Run Step initial labels final)
    (second : Run Step initial labels other)
    (deterministic :
      ∀ {source label target other},
        Step source label target →
        Step source label other →
        target = other) :
    final = other := by
  induction first with
  | nil state =>
      cases second
      rfl
  | cons label rest step _ inductionHypothesis =>
      cases second with
      | cons _ _ otherStep later =>
          exact inductionHypothesis (deterministic step otherStep ▸ later)

/-- Where a step determines its target, a run consists of steps with a property
exactly when the property holds at every position. -/
theorem everywhere_iff
    {Property : State → Label → Prop}
    {initial final : State}
    {labels : List Label}
    (run : Run Step initial labels final)
    (deterministic :
      ∀ {source label target other},
        Step source label target →
        Step source label other →
        target = other) :
    Run (fun source label target =>
          Property source label ∧ Step source label target)
        initial labels final ↔
      ∀ leading label trailing middle,
        labels = leading ++ label :: trailing →
        Run Step initial leading middle →
        Property middle label := by
  induction run with
  | nil state =>
      refine ⟨?_, fun _ => .nil state⟩
      intro _ leading label trailing middle shape
      simp at shape
  | @cons initial next final label rest step _ inductionHypothesis =>
      constructor
      · intro properties leading other trailing middle shape before
        cases properties with
        | cons _ _ both later =>
            obtain ⟨now, otherStep⟩ := both
            cases deterministic step otherStep
            cases before with
            | nil =>
                obtain ⟨rfl, _⟩ := List.cons.inj shape
                exact now
            | cons _ _ firstStep toMiddle =>
                obtain ⟨rfl, isRest⟩ := List.cons.inj shape
                cases deterministic step firstStep
                exact inductionHypothesis.mp later _ other trailing
                  middle isRest toMiddle
      · intro everywhere
        refine .cons label rest
          ⟨everywhere [] label rest initial rfl (.nil initial), step⟩ ?_
        refine inductionHypothesis.mpr ?_
        intro leading other trailing middle isRest toMiddle
        exact everywhere (label :: leading) other trailing middle
          (congrArg (label :: ·) isRest) (.cons label leading step toMiddle)

/-- Where a step determines its target, two runs of the same labels are one run
of steps of both kinds. -/
theorem both
    {Other : State → Label → State → Prop}
    {initial final last : State}
    {labels : List Label}
    (first : Run Step initial labels final)
    (second : Run Other initial labels last)
    (deterministic :
      ∀ {source label target other},
        Step source label target →
        Other source label other →
        target = other) :
    Run (fun source label target =>
        Step source label target ∧ Other source label target)
      initial labels final := by
  induction first with
  | nil state =>
      exact .nil state
  | cons label rest step _ inductionHypothesis =>
      cases second with
      | cons _ _ otherStep later =>
          cases deterministic step otherStep
          exact .cons label rest ⟨step, otherStep⟩ (inductionHypothesis later)

/-- Following a partial step function is a run. -/
theorem of_foldlM
    {next : State → Label → Option State}
    {initial final : State}
    {labels : List Label}
    (follows : labels.foldlM next initial = some final) :
    Run (fun source label target => next source label = some target)
      initial labels final := by
  induction labels generalizing initial with
  | nil =>
      cases follows
      exact .nil _
  | cons label rest inductionHypothesis =>
      rw [List.foldlM_cons] at follows
      obtain ⟨middle, first, later⟩ := Option.bind_eq_some_iff.mp follows
      exact .cons label rest first (inductionHypothesis later)

end Run

/-- `Condition` holds at every position of a list of labels. -/
def Along
    {State Label : Type}
    (next : State → Label → State)
    (Condition : State → Label → Prop) :
    State → List Label → Prop
  | _, [] => True
  | state, label :: rest =>
      Condition state label ∧
        Along next Condition (next state label) rest

namespace Along

variable
  {State Label : Type}
  {next : State → Label → State}
  {Condition : State → Label → Prop}

instance decidable
    [∀ state label, Decidable (Condition state label)] :
    ∀ (state : State) (labels : List Label),
      Decidable (Along next Condition state labels)
  | _, [] =>
      .isTrue trivial
  | state, label :: rest =>
      have := decidable (next state label) rest
      inferInstanceAs (Decidable (_ ∧ _))

/-- A condition along a concatenation holds along both parts. -/
theorem append_iff
    {state : State}
    {leading trailing : List Label} :
    Along next Condition state (leading ++ trailing) ↔
      Along next Condition state leading ∧
        Along next Condition (leading.foldl next state) trailing := by
  induction leading generalizing state with
  | nil =>
      simp [Along]
  | cons label rest inductionHypothesis =>
      simp [Along, inductionHypothesis, and_assoc]

/-- A condition along a list holds along its prefixes. -/
theorem of_prefix
    {state : State}
    {leading labels : List Label}
    (along : Along next Condition state labels)
    (isPrefix : leading <+: labels) :
    Along next Condition state leading := by
  obtain ⟨trailing, rfl⟩ := isPrefix
  exact (append_iff.mp along).1

end Along

end Hamachi
