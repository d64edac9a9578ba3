import Mathlib.Tactic.Basic

namespace Hamachi

/-!
# Programs that change a state and may stop

A program maps a state to a result, or to the reason why it stopped, and the
state in which it returned or stopped.  A triple states what holds then, so that
an invariant of the state is known to hold at every stop as well.
-/

/-- A stateful program that returns or stops. -/
def Program (State Stop Result : Type) : Type :=
  State → Except Stop Result × State

namespace Program

variable
  {State Stop Result Other : Type}

/-- Run a program and then the one for its result. -/
def andThen
    (program : Program State Stop Result)
    (next : Result → Program State Stop Other) :
    Program State Stop Other :=
  fun state =>
    match program state with
    | (.ok result, after) => next result after
    | (.error stop, after) => (.error stop, after)

instance : Monad (Program State Stop) where
  pure result := fun state => (.ok result, state)
  bind := andThen

/-- The state. -/
def read : Program State Stop State :=
  fun state => (.ok state, state)

/-- Change the state. -/
def modify (change : State → State) : Program State Stop Unit :=
  fun state => (.ok (), change state)

/-- Stop. -/
def stop (reason : Stop) : Program State Stop Result :=
  fun state => (.error reason, state)

@[simp] theorem bind_apply
    (program : Program State Stop Result)
    (next : Result → Program State Stop Other)
    (state : State) :
    (program >>= next) state =
      match program state with
      | (.ok result, after) => next result after
      | (.error stop, after) => (.error stop, after) :=
  rfl

theorem andThen_pure (program : Program State Stop Result) :
    program >>= pure = program := by
  funext state
  rw [bind_apply]
  rcases program state with ⟨reason | result, after⟩ <;> rfl

@[simp] theorem pure_apply (result : Result) (state : State) :
    (pure result : Program State Stop Result) state = (.ok result, state) :=
  rfl

@[simp] theorem read_apply (state : State) :
    (read : Program State Stop State) state = (.ok state, state) :=
  rfl

@[simp] theorem modify_apply (change : State → State) (state : State) :
    (modify change : Program State Stop Unit) state =
      (.ok (), change state) :=
  rfl

@[simp] theorem stop_apply (reason : Stop) (state : State) :
    (stop reason : Program State Stop Result) state =
      (.error reason, state) :=
  rfl

/-- A program returns. -/
def Returns
    (program : Program State Stop Result)
    (state : State)
    (result : Result)
    (after : State) : Prop :=
  program state = (.ok result, after)

/-- Whether a program returns and passes a test. -/
def completes
    (program : Program State Stop Result)
    (state : State)
    (test : Result → State → Bool) : Bool :=
  match program state with
  | (.ok result, after) => test result after
  | (.error _, _) => false

/-- A completed program returns something that passed the test. -/
theorem returns_of_completes
    {program : Program State Stop Result}
    {state : State}
    {test : Result → State → Bool}
    (completed : program.completes state test = true) :
    ∃ result after,
      program.Returns state result after ∧ test result after = true := by
  unfold completes at completed
  rcases isOutcome : program state with ⟨reason | result, after⟩
  · simp [isOutcome] at completed
  · rw [isOutcome] at completed
    exact ⟨result, after, isOutcome, completed⟩

/-- What holds when a program returns or stops. -/
def Triple
    (Pre : State → Prop)
    (program : Program State Stop Result)
    (Post : Result → State → Prop)
    (Stopped : Stop → State → Prop) : Prop :=
  ∀ state, Pre state →
    match program state with
    | (.ok result, after) => Post result after
    | (.error reason, after) => Stopped reason after

/-- A program keeps an invariant, also where it stops, and its result or the
reason of its stop are as stated. -/
def Maintains
    (Inv : State → Prop)
    (Stopped : Stop → Prop)
    (program : Program State Stop Result)
    (Post : Result → Prop) : Prop :=
  Triple Inv program
    (fun result after => Inv after ∧ Post result)
    (fun reason after => Inv after ∧ Stopped reason)

namespace Triple

variable
  {Pre : State → Prop}
  {Post : Result → State → Prop}
  {Stopped : Stop → State → Prop}
  {program : Program State Stop Result}

/-- What a returning program established. -/
theorem returns
    {state after : State}
    {result : Result}
    (triple : Triple Pre program Post Stopped)
    (holds : Pre state)
    (isReturn : program.Returns state result after) :
    Post result after := by
  have established := triple state holds
  rw [isReturn] at established
  exact established

/-- Run one program after the other. -/
theorem bind
    {Between : Result → State → Prop}
    {Last : Other → State → Prop}
    {next : Result → Program State Stop Other}
    (first : Triple Pre program Between Stopped)
    (later : ∀ result, Triple (Between result) (next result) Last Stopped) :
    Triple Pre (program >>= next) Last Stopped := by
  intro state holds
  have established := first state holds
  rcases isOutcome : program state with ⟨reason | result, after⟩ <;>
    simp only [bind_apply, isOutcome] at established ⊢
  · exact established
  · exact later result after established

/-- A weaker statement. -/
theorem weaken
    {Stronger : State → Prop}
    {Weaker : Result → State → Prop}
    {MoreStops : Stop → State → Prop}
    (triple : Triple Pre program Post Stopped)
    (before : ∀ state, Stronger state → Pre state)
    (returned : ∀ result after, Post result after → Weaker result after)
    (stopped : ∀ reason after, Stopped reason after → MoreStops reason after) :
    Triple Stronger program Weaker MoreStops := by
  intro state holds
  have established := triple state (before state holds)
  rcases isOutcome : program state with ⟨reason | result, after⟩ <;>
    simp only [isOutcome] at established ⊢
  · exact stopped reason after established
  · exact returned result after established

/-- A state that is as required in some way. -/
theorem any
    {Way : Type}
    {Required : Way → State → Prop}
    (triple : ∀ way, Triple (Required way) program Post Stopped) :
    Triple (fun state => ∃ way, Required way state) program Post Stopped :=
  fun state ⟨way, holds⟩ => triple way state holds

/-- What is known of the values, apart from the state. -/
theorem known
    {Fact : Prop}
    (triple : Fact → Triple Pre program Post Stopped) :
    Triple (fun state => Fact ∧ Pre state) program Post Stopped :=
  fun state holds => triple holds.1 state holds.2

end Triple

namespace Maintains

variable
  {Inv : State → Prop}
  {Stopped : Stop → Prop}
  {program : Program State Stop Result}
  {Post : Result → Prop}

theorem pure
    {result : Result}
    (post : Post result) :
    Maintains Inv Stopped (Pure.pure result) Post :=
  fun _ holds => ⟨holds, post⟩

theorem read :
    Maintains Inv Stopped (Program.read : Program State Stop State) Inv :=
  fun _ holds => ⟨holds, holds⟩

theorem modify
    {change : State → State}
    (keeps : ∀ state, Inv state → Inv (change state)) :
    Maintains Inv Stopped
      (Program.modify change : Program State Stop Unit)
      fun _ => True :=
  fun state holds => ⟨keeps state holds, trivial⟩

theorem stop
    {reason : Stop}
    (stopped : Stopped reason) :
    Maintains Inv Stopped (Program.stop reason) Post :=
  fun _ holds => ⟨holds, stopped⟩

/-- Run one program after the other. -/
theorem bind
    {Last : Other → Prop}
    {next : Result → Program State Stop Other}
    (first : Maintains Inv Stopped program Post)
    (later :
      ∀ result, Post result → Maintains Inv Stopped (next result) Last) :
    Maintains Inv Stopped (program >>= next) Last := by
  apply Triple.bind first
  intro result state established
  exact later result established.2 state established.1

/-- A weaker statement of the result. -/
theorem weaken
    {Weaker : Result → Prop}
    (maintains : Maintains Inv Stopped program Post)
    (returned : ∀ result, Post result → Weaker result) :
    Maintains Inv Stopped program Weaker :=
  Triple.weaken maintains (fun _ holds => holds)
    (fun result _ established =>
      ⟨established.1, returned result established.2⟩)
    (fun _ _ stopped => stopped)

/-- A program that keeps an invariant, and then any other one. -/
theorem before
    {Last : Other → State → Prop}
    {MoreStops : Stop → State → Prop}
    {next : Result → Program State Stop Other}
    (first : Maintains Inv Stopped program Post)
    (stopped :
      ∀ reason after, Inv after → Stopped reason → MoreStops reason after)
    (later :
      ∀ result, Post result → Triple Inv (next result) Last MoreStops) :
    Triple Inv (program >>= next) Last MoreStops := by
  have weaker :=
    Triple.weaken first (fun _ holds => holds)
      (fun _ _ established => established)
      (fun reason after established =>
        stopped reason after established.1 established.2)
  exact weaker.bind fun result state established =>
    later result established.2 state established.1

/-- Programs for the elements of a list, one after the other. -/
theorem forEach
    {Element : Type}
    {body : Element → Program State Stop Unit}
    (each :
      ∀ element, Maintains Inv Stopped (body element) fun _ => True)
    (elements : List Element) :
    Maintains Inv Stopped (elements.forM body) fun _ => True := by
  induction elements with
  | nil =>
      exact pure trivial
  | cons element rest inductionHypothesis =>
      exact (each element).bind fun _ _ => inductionHypothesis

end Maintains

end Program

end Hamachi
