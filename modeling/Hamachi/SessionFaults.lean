import Hamachi.MainLoopSafety
import Hamachi.SessionRefinement

namespace Hamachi

/-!
# How the application stops

A session stops where nothing more is to come, at a listing of more networks
than an `int` counts, or at a listing whose last line is not ended.  As the
application does what a session does, it uses its heap without any other fault.
-/

namespace Session

open Program

/-- How a session may stop that is given some outputs. -/
def Stops
    (outputs : List (List (List Byte)))
    (stopped : Stopped) : Prop :=
  stopped = .waiting ∨ stopped = .overflow ∨ stopped = .badNetwork ∨
    (stopped = .fault .outOfBounds ∧
      ∃ output ∈ outputs, ¬ EndsLine output.flatten)

/-- What is still to be printed is among some outputs. -/
def Remaining
    (outputs : List (List (List Byte)))
    (state : SessionState) : Prop :=
  ∀ output ∈ state.outputs, output ∈ outputs

section Typing

/-- The text dialogs take what is typed only. -/
theorem editFields_maintains
    {Inv : SessionState → Prop}
    {Fine : Stopped → Prop}
    (typed :
      ∀ state imes, Inv state → Inv { state with imes := imes })
    (waiting : Fine .waiting)
    (below : Nat)
    (form : Form) :
    Maintains Inv Fine (editFields below form) fun _ => True := by
  induction below generalizing form with
  | zero =>
      exact .pure trivial
  | succ below inductionHypothesis =>
      have edits :
          Maintains Inv Fine (editField form) fun _ => True := by
        refine Maintains.read.bind fun state _ => ?_
        split
        · exact .stop waiting
        · refine Maintains.bind
            (.modify fun state holds => typed state _ holds) fun _ _ => ?_
          split
          · exact .pure trivial
          · exact .pure trivial
      refine edits.bind fun result _ => ?_
      obtain ⟨form, confirmed⟩ := result
      cases confirmed with
      | false =>
          exact .pure trivial
      | true =>
          exact inductionHypothesis _

/-- The form takes polls and what is typed only. -/
theorem formKeys_maintains
    {Inv : SessionState → Prop}
    {Fine : Stopped → Prop}
    (polled :
      ∀ state pads, Inv state → Inv { state with pads := pads })
    (typed :
      ∀ state imes, Inv state → Inv { state with imes := imes })
    (waiting : Fine .waiting)
    (pads : List Keys)
    (form : Form) :
    Maintains Inv Fine (formKeys pads form) fun _ => True := by
  induction pads generalizing form with
  | nil =>
      exact .stop waiting
  | cons keys rest inductionHypothesis =>
      refine Maintains.bind
        (.modify fun state holds => polled state rest holds) fun _ _ => ?_
      split
      · exact inductionHypothesis _
      split
      · exact inductionHypothesis _
      split
      · exact .pure trivial
      split
      · refine (editFields_maintains typed waiting _ form).bind
          fun form _ => ?_
        split
        · exact .pure trivial
        · exact inductionHypothesis form
      · exact inductionHypothesis _

end Typing

section Stopping

variable
  {outputs : List (List (List Byte))}
  {Result : Type}

theorem stops_waiting : Stops outputs .waiting :=
  .inl rfl

theorem happen_maintains (happening : Happening) :
    Maintains (Remaining outputs) (Stops outputs) (happen happening)
      fun _ => True :=
  .modify fun _ remaining => remaining

theorem watch_maintains
    {dialog : Session Result}
    {happening : Result → List Keys → List ImeResult → Happening}
    (maintains :
      Maintains (Remaining outputs) (Stops outputs) dialog fun _ => True) :
    Maintains (Remaining outputs) (Stops outputs) (watch dialog happening)
      fun _ => True := by
  refine Maintains.read.bind fun before _ => ?_
  refine maintains.bind fun result _ => ?_
  refine Maintains.read.bind fun after _ => ?_
  exact (happen_maintains _).bind fun _ _ => .pure trivial

theorem poll_maintains
    (dialog : List Keys → Option (Result × List Keys)) :
    Maintains (Remaining outputs) (Stops outputs) (poll dialog)
      fun _ => True := by
  refine Maintains.read.bind fun state _ => ?_
  split
  · exact .stop stops_waiting
  · exact Maintains.bind (.modify fun _ remaining => remaining) fun _ _ =>
      .pure trivial

/-- A command prints one of the outputs. -/
theorem command_maintains (argv : List (List Byte)) :
    Maintains (Remaining outputs) (Stops outputs) (command argv)
      fun printed => ∃ output ∈ outputs, printed = output.flatten := by
  refine (happen_maintains _).bind fun _ _ => ?_
  intro state remaining
  cases isOutputs : state.outputs with
  | nil =>
      simpa [printed, isOutputs] using
        And.intro remaining (@stops_waiting outputs)
  | cons output rest =>
      simp only [printed, happen, bind_apply, read_apply, isOutputs,
        modify_apply, pure_apply]
      rw [Remaining, isOutputs] at remaining
      exact ⟨fun other member =>
          remaining other (List.mem_cons_of_mem _ member),
        output, remaining output (List.mem_cons_self ..), rfl⟩

theorem tell_maintains (error : Option (List Byte)) :
    Maintains (Remaining outputs) (Stops outputs) (tell error)
      fun _ => True := by
  cases error with
  | none =>
      exact .pure trivial
  | some message =>
      rw [tell]
      exact watch_maintains (poll_maintains _)

theorem ask_maintains (question : List Byte) :
    Maintains (Remaining outputs) (Stops outputs) (ask question)
      fun _ => True :=
  watch_maintains (poll_maintains _)

/-- A listing whose last line is not ended is one of the outputs. -/
theorem list_maintains :
    Maintains (Remaining outputs) (Stops outputs) list fun _ => True := by
  refine (command_maintains _).bind fun printed isOutput => ?_
  obtain ⟨output, member, rfl⟩ := isOutput
  split
  · split
    · exact .stop (.inr (.inl rfl))
    · exact .pure trivial
  next notEnded =>
    exact .stop (.inr (.inr (.inr ⟨rfl, output, member, notEnded⟩)))

theorem enter_maintains (verb : List Byte) :
    Maintains (Remaining outputs) (Stops outputs) (enter verb)
      fun _ => True := by
  have fills :
      Maintains (Remaining outputs) (Stops outputs) fill fun _ => True :=
    watch_maintains (Maintains.read.bind fun state _ =>
      formKeys_maintains (fun _ _ remaining => remaining)
        (fun _ _ remaining => remaining) stops_waiting state.pads _)
  refine fills.bind fun entered _ => ?_
  cases entered with
  | none =>
      exact .pure trivial
  | some entered =>
      exact (command_maintains _).bind fun _ _ => tell_maintains _

theorem leave_maintains (name : List Byte) :
    Maintains (Remaining outputs) (Stops outputs) (leave name)
      fun _ => True := by
  refine (ask_maintains _).bind fun sure _ => ?_
  split
  · exact .pure trivial
  refine (command_maintains _).bind fun output _ => ?_
  split
  · refine (ask_maintains _).bind fun sure _ => ?_
    split
    · exact .pure trivial
    · exact (command_maintains _).bind fun _ _ => tell_maintains _
  · exact tell_maintains _

theorem round_maintains (cursor : Int) :
    Maintains (Remaining outputs) (Stops outputs) (round cursor)
      fun _ => True := by
  refine list_maintains.bind fun names _ => ?_
  refine Maintains.bind (watch_maintains (poll_maintains _))
    fun choice _ => ?_
  have acts :
      Maintains (Remaining outputs) (Stops outputs) (act names choice)
        fun _ => True := by
    obtain ⟨cursor, action⟩ := choice
    cases action with
    | create =>
        exact enter_maintains _
    | join =>
        exact enter_maintains _
    | delete =>
        cases named : names[cursor.toNat]? with
        | none =>
            simp only [act, named]
            exact .stop (.inr (.inr (.inl rfl)))
        | some name =>
            simp only [act, named]
            exact leave_maintains name
  exact acts.bind fun _ _ => .pure trivial

theorem rounds_maintains
    (count : Nat)
    (cursor : Int) :
    Maintains (Remaining outputs) (Stops outputs) (rounds count cursor)
      fun _ => True := by
  induction count generalizing cursor with
  | zero =>
      exact .pure trivial
  | succ count inductionHypothesis =>
      exact (round_maintains cursor).bind fun next _ =>
        inductionHypothesis next

theorem main_maintains (count : Nat) :
    Maintains (Remaining outputs) (Stops outputs) (main count)
      fun _ => True := by
  refine (command_maintains _).bind fun output _ => ?_
  have checks :
      Maintains (Remaining outputs) (Stops outputs)
        (checkLogin (errorOf output)) fun _ => True := by
    cases errorOf output with
    | none =>
        exact .pure trivial
    | some message =>
        rw [checkLogin]
        split
        · exact .stop stops_waiting
        · exact .pure trivial
  exact checks.bind fun _ _ => rounds_maintains count 0

end Stopping

end Session

namespace App

open Program

/-- The application does what a session does: whatever is pressed, typed and
printed, it returns or stops in the same way, has run the same commands and
asked the same, and has taken the same of what was to come.  It stops where
nothing more is to come, at more networks than an `int` counts, or where it
reads past an output whose last line is not ended, and by no other use of its
heap. -/
theorem main_conducts_session
    (count : Nat)
    (pads : List Keys)
    (outputs : List (List (List Byte)))
    (imes : List ImeResult)
    (junk : Nat → Byte)
    (small : ∀ output ∈ outputs, output.flatten.length ≤ 2 ^ 63) :
    (main count (appStart pads outputs imes junk)).1 =
        (Session.main count (sessionStart pads outputs imes)).1.map idle ∧
      Alike (main count (appStart pads outputs imes junk)).2
        (Session.main count (sessionStart pads outputs imes)).2 ∧
      ∀ stopped,
        (main count (appStart pads outputs imes junk)).1 = .error stopped →
          stopped = .waiting ∨ stopped = .overflow ∨
            (stopped = .fault .outOfBounds ∧
              ∃ output ∈ outputs, ¬ EndsLine output.flatten) := by
  obtain ⟨same, alike⟩ :=
    simulates_start count pads outputs imes junk small
  refine ⟨same, alike, fun stopped stops => ?_⟩
  have maintained :=
    @Session.main_maintains outputs count (sessionStart pads outputs imes)
      fun _ member => member
  have observed :=
    observedDiscipline.main count (appStart pads outputs imes junk)
      (by simp [Observed, appStart])
  rcases outcome : Session.main count (sessionStart pads outputs imes) with
    ⟨reason | cursor, after⟩
  · rw [outcome] at maintained same
    rcases left : main count (appStart pads outputs imes junk) with
      ⟨other | locals, state⟩
    · rw [left] at same observed stops
      cases same
      cases stops
      rcases maintained.2 with waiting | overflow | bad | ended
      · exact .inl waiting
      · exact .inr (.inl overflow)
      · exact absurd bad observed.2.2
      · exact .inr (.inr ended)
    · rw [left] at same
      cases same
  · rw [outcome] at same
    rw [same] at stops
    cases stops

/-! ## The user deletes a network -/

/-- The user enters a network, reads that its name is taken, and then confirms
that this network is left, and that it is deleted. -/
def deletionPads : List Keys :=
  [{ triangle := true }, { cross := true }, { cross := true },
    { circle := true }, { right := true }, { cross := true },
    { right := true }, { cross := true }]

/-- The network belongs to the user. -/
def deletionOutputs : List (List (List Byte)) :=
  [[chars "Logging in .. ok\n"], [chars " * [home]\n"],
    [chars "Creating home .. failed, ", chars "name is taken\n"],
    [chars " * [home]\n"], [chars "Leaving home .. failed, denied\n"],
    [chars "Deleting home .. ok\n"]]

def deletionTexts : List ImeResult :=
  [⟨chars "home", by decide, true⟩, ⟨chars "secret", by decide, true⟩]

def deletionCommands : List (List (List Byte)) :=
  [[chars "hamachi", chars "login"], [chars "hamachi", chars "list"],
    [chars "hamachi", chars "create", chars "home", chars "secret"],
    [chars "hamachi", chars "list"],
    [chars "hamachi", chars "leave", chars "home"],
    [chars "hamachi", chars "delete", chars "home"]]

theorem deletion_small :
    ∀ output ∈ deletionOutputs, output.flatten.length ≤ 2 ^ 63 := by
  decide

theorem deletion_session :
    ∃ state,
      Session.main 2 (sessionStart deletionPads deletionOutputs
            deletionTexts) =
          (.ok 0, state) ∧
        state.story.filterMap Happening.argv? = deletionCommands := by
  have completed :
      (Session.main 2).completes
        (sessionStart deletionPads deletionOutputs deletionTexts)
        (fun cursor state => decide
          (cursor = 0 ∧
            state.story.filterMap Happening.argv? = deletionCommands)) =
        true := by
    decide +kernel
  obtain ⟨cursor, state, returns, tested⟩ := returns_of_completes completed
  obtain ⟨rfl, ran⟩ := of_decide_eq_true tested
  exact ⟨state, returns, ran⟩

def deletionStart : AppState :=
  appStart deletionPads deletionOutputs deletionTexts fun _ => 0

theorem main_conducts_deletion :
    (main 2 deletionStart).1 = .ok (idle 0) ∧
      (main 2 deletionStart).2.events.filterMap Event.argv? =
        deletionCommands := by
  obtain ⟨state, returns, ran⟩ := deletion_session
  obtain ⟨same, alike, -⟩ :=
    main_conducts_session 2 deletionPads deletionOutputs deletionTexts
      (fun _ => 0) deletion_small
  rw [returns] at same alike
  rw [deletionStart, same, alike.ran, ran]
  exact ⟨rfl, rfl⟩

end App

end Hamachi
