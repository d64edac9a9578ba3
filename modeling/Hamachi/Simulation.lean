import Hamachi.Program

namespace Hamachi.Program

/-!
# Programs that do what a model does

A program over one state simulates a model over another one when related states
lead to related ones, with results that belong together or with the same reason
to stop.  Steps that the model does not have are silent.
-/

variable
  {State Image Stop Result Answer Other Reply : Type}

/-- The outcomes of a program and its model belong together. -/
def Together
    (After : Result → Answer → State → Image → Prop)
    (Ended : State → Image → Prop) :
    Except Stop Result × State → Except Stop Answer × Image → Prop
  | (.ok result, after), (.ok answer, image) => After result answer after image
  | (.error reason, after), (.error other, image) =>
      reason = other ∧ Ended after image
  | _, _ => False

/-- From related states a program does what the model does. -/
def Simulates
    (Before : State → Image → Prop)
    (program : Program State Stop Result)
    (model : Program Image Stop Answer)
    (After : Result → Answer → State → Image → Prop)
    (Ended : State → Image → Prop) : Prop :=
  ∀ state image, Before state image →
    Together After Ended (program state) (model image)

/-- A program that returns, and that the model does not notice. -/
def Silent
    (Before : State → Image → Prop)
    (program : Program State Stop Result)
    (After : Result → State → Image → Prop) : Prop :=
  ∀ state image, Before state image →
    ∃ result after,
      program state = (.ok result, after) ∧ After result after image

variable
  {Before : State → Image → Prop}
  {program : Program State Stop Result}
  {model : Program Image Stop Answer}
  {After : Result → Answer → State → Image → Prop}
  {Ended : State → Image → Prop}

namespace Silent

variable
  {Quiet : Result → State → Image → Prop}
  {Later : Other → State → Image → Prop}
  {next : Result → Program State Stop Other}

theorem pure
    {result : Result}
    (holds : ∀ state image, Before state image → Quiet result state image) :
    @Silent State Image Stop Result Before (Pure.pure result) Quiet :=
  fun state image before =>
    ⟨result, state, rfl, holds state image before⟩

/-- One silent program after the other. -/
theorem bind
    (first : Silent Before program Quiet)
    (later : ∀ result, Silent (Quiet result) (next result) Later) :
    Silent Before (program >>= next) Later := by
  intro state image before
  obtain ⟨result, middle, returns, quiet⟩ := first state image before
  obtain ⟨last, after, goesOn, holds⟩ := later result middle image quiet
  refine ⟨last, after, ?_, holds⟩
  rw [bind_apply, returns]
  exact goesOn

theorem weaken
    {Stronger : State → Image → Prop}
    {Weaker : Result → State → Image → Prop}
    (silent : Silent Before program Quiet)
    (before : ∀ state image, Stronger state image → Before state image)
    (after :
      ∀ result state image,
        Quiet result state image → Weaker result state image) :
    Silent Stronger program Weaker := by
  intro state image holds
  obtain ⟨result, last, returns, quiet⟩ :=
    silent state image (before state image holds)
  exact ⟨result, last, returns, after result last image quiet⟩

/-- Reading the state, when any state will do. -/
theorem read
    {last : State → Program State Stop Other}
    (later : ∀ current, Silent Before (last current) Later) :
    Silent Before (Program.read >>= last) Later :=
  fun state image before => later state state image before

/-- What is known of the values, apart from the states. -/
theorem known
    {Fact : Prop}
    (silent : Fact → Silent Before program Quiet) :
    Silent (fun state image => Fact ∧ Before state image) program Quiet :=
  fun state image holds => silent holds.1 state image holds.2

end Silent

namespace Simulates

variable
  {Between : Result → Answer → State → Image → Prop}
  {Last : Other → Reply → State → Image → Prop}
  {next : Result → Program State Stop Other}
  {follow : Answer → Program Image Stop Reply}

theorem pure
    {result : Result}
    {answer : Answer}
    (holds :
      ∀ state image,
        Before state image → After result answer state image) :
    @Simulates State Image Stop Result Answer Before (Pure.pure result)
      (Pure.pure answer)
      After Ended :=
  fun state image before => holds state image before

theorem stop
    {reason : Stop}
    (ends : ∀ state image, Before state image → Ended state image) :
    Simulates Before (Program.stop reason) (Program.stop reason)
      After Ended :=
  fun state image before => ⟨rfl, ends state image before⟩

/-- One program after the other, as the model does. -/
theorem bind
    (first : Simulates Before program model Between Ended)
    (later :
      ∀ result answer,
        Simulates (Between result answer) (next result) (follow answer)
          Last Ended) :
    Simulates Before (program >>= next) (model >>= follow) Last Ended := by
  intro state image before
  have together := first state image before
  rcases left : program state with ⟨reason | result, after⟩ <;>
    rcases right : model image with ⟨other | answer, imageAfter⟩ <;>
    simp only [bind_apply, left, right, Together] at together ⊢
  · exact together
  · exact later result answer after imageAfter together

/-- A silent program in front. -/
theorem silently
    {Quiet : Result → State → Image → Prop}
    {reply : Program Image Stop Reply}
    (first : Silent Before program Quiet)
    (later :
      ∀ result, Simulates (Quiet result) (next result) reply Last Ended) :
    Simulates Before (program >>= next) reply Last Ended := by
  intro state image before
  obtain ⟨result, middle, returns, quiet⟩ := first state image before
  rw [bind_apply, returns]
  exact later result middle image quiet

/-- A silent program behind. -/
theorem quietly
    {Later : Other → Answer → State → Image → Prop}
    (first : Simulates Before program model Between Ended)
    (later :
      ∀ result answer,
        Silent (Between result answer) (next result)
          fun last => Later last answer) :
    Simulates Before (program >>= next) model Later Ended := by
  intro state image before
  have together := first state image before
  rcases left : program state with ⟨reason | result, after⟩ <;>
    rcases right : model image with ⟨other | answer, imageAfter⟩ <;>
    simp only [bind_apply, left, right, Together] at together ⊢
  · exact together
  · obtain ⟨last, lastState, returns, holds⟩ :=
      later result answer after imageAfter together
    rw [returns]
    exact holds

theorem weaken
    {Stronger : State → Image → Prop}
    {Weaker : Result → Answer → State → Image → Prop}
    (simulates : Simulates Before program model After Ended)
    (before : ∀ state image, Stronger state image → Before state image)
    (after :
      ∀ result answer state image,
        After result answer state image → Weaker result answer state image) :
    Simulates Stronger program model Weaker Ended := by
  intro state image holds
  have together := simulates state image (before state image holds)
  rcases left : program state with ⟨reason | result, last⟩ <;>
    rcases right : model image with ⟨other | answer, imageLast⟩ <;>
    simp only [left, right, Together] at together ⊢
  · exact together
  · exact after result answer last imageLast together

/-- What is known of the values, apart from the states. -/
theorem known
    {Fact : Prop}
    (simulates : Fact → Simulates Before program model After Ended) :
    Simulates (fun state image => Fact ∧ Before state image) program model
      After Ended :=
  fun state image holds => simulates holds.1 state image holds.2

/-- Reading the state, when any state will do. -/
theorem read
    {last : State → Program State Stop Other}
    {reply : Program Image Stop Reply}
    (later : ∀ current, Simulates Before (last current) reply Last Ended) :
    Simulates Before (Program.read >>= last) reply Last Ended :=
  fun state image before => later state state image before

/-- States that are related in some way. -/
theorem any
    {Way : Type}
    {Related : Way → State → Image → Prop}
    (simulates :
      ∀ way, Simulates (Related way) program model After Ended) :
    Simulates (fun state image => ∃ way, Related way state image) program
      model After Ended :=
  fun state image ⟨way, holds⟩ => simulates way state image holds

/-- What follows from the relation of the states. -/
theorem given
    {Fact : Prop}
    (follows : ∀ state image, Before state image → Fact)
    (simulates : Fact → Simulates Before program model After Ended) :
    Simulates Before program model After Ended :=
  fun state image holds =>
    simulates (follows state image holds) state image holds

end Simulates

end Hamachi.Program
