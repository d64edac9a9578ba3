import Hamachi.SessionFaults
import Hamachi.SessionStory

namespace Hamachi

/-!
# What the user agreed to

A session tells a story in which the user agreed to every command and answered
every dialog, and the application runs what this story says.
-/

namespace Session

open Program

/-- The story so far, in which every command is permitted and every dialog
answered, with what it has taken of what was to come. -/
structure Tells
    (start : SessionState)
    (story : List Happening)
    (state : SessionState) : Prop where
  soFar : state.story = story
  pads : start.pads = story.flatMap Happening.polls ++ state.pads
  outputs :
    start.outputs.map List.flatten =
      story.filterMap Happening.printed? ++ state.outputs.map List.flatten
  imes : start.imes = story.flatMap Happening.typed ++ state.imes
  consented : Consented story
  answered : Answered story

/-- The story at the end, maybe in the middle of a dialog. -/
structure Told (start state : SessionState) : Prop where
  pads : state.story.flatMap Happening.polls <+: start.pads
  outputs :
    state.story.filterMap Happening.printed? <+:
      start.outputs.map List.flatten
  imes : state.story.flatMap Happening.typed <+: start.imes
  consented : Consented state.story
  answered : Answered state.story

/-- A dialog takes polls and texts, about which something is known, and leaves
the rest alone. -/
def Takes
    (dialog : Session Result)
    (Fact : Result → List Keys → List ImeResult → Prop) : Prop :=
  ∀ before,
    match dialog before with
    | (.ok result, after) =>
        ∃ polls typed,
          before.pads = polls ++ after.pads ∧
            before.imes = typed ++ after.imes ∧
            after = { before with pads := after.pads, imes := after.imes } ∧
            Fact result polls typed
    | (.error _, after) => after.story = before.story

variable
  {start : SessionState}
  {story : List Happening}
  {Result : Type}

theorem Tells.told
    {state : SessionState}
    (tells : Tells start story state) :
    Told start state := by
  obtain ⟨rfl, pads, outputs, imes, consented, answered⟩ := tells
  exact ⟨⟨_, pads.symm⟩, ⟨_, outputs.symm⟩, ⟨_, imes.symm⟩, consented,
    answered⟩

theorem Told.of_story
    {state after : SessionState}
    (told : Told start state)
    (same : after.story = state.story) :
    Told start after := by
  obtain ⟨pads, outputs, imes, consented, answered⟩ := told
  rw [← same] at pads outputs imes consented answered
  exact ⟨pads, outputs, imes, consented, answered⟩

/-- A dialog and what it is in the story. -/
theorem watch_tells
    {dialog : Session Result}
    {Fact : Result → List Keys → List ImeResult → Prop}
    {happening : Result → List Keys → List ImeResult → Happening}
    (takes : Takes dialog Fact)
    (answers :
      ∀ result polls typed, Fact result polls typed →
        (happening result polls typed).Answers story)
    (isDialog :
      ∀ result polls typed, Fact result polls typed →
        (happening result polls typed).IsDialog polls typed) :
    Triple (Tells start story) (watch dialog happening)
      (fun result state =>
        ∃ polls typed,
          Fact result polls typed ∧
            Tells start (story ++ [happening result polls typed]) state)
      (fun _ => Told start) := by
  intro state tells
  have taken := takes state
  rcases outcome : dialog state with ⟨reason | result, after⟩ <;>
    simp only [outcome, watch, happen, bind_apply, read_apply, modify_apply,
      pure_apply] at taken ⊢
  · exact tells.told.of_story taken
  · obtain ⟨took, typed, isPads, isImes, kept, fact⟩ := taken
    have padsTaken :
        state.pads.take (state.pads.length - after.pads.length) = took := by
      rw [isPads, List.length_append, Nat.add_sub_cancel, List.take_left]
    have imesTaken :
        state.imes.take (state.imes.length - after.imes.length) = typed := by
      rw [isImes, List.length_append, Nat.add_sub_cancel, List.take_left]
    have dialog := isDialog _ _ _ fact
    rw [padsTaken, imesTaken]
    refine ⟨took, typed, fact, ?_, ?_, ?_, ?_, ?_,
      tells.answered.append (answers _ _ _ fact)⟩
    · rw [kept, tells.soFar]
    · rw [List.flatMap_append, List.flatMap_singleton, dialog.polls,
        List.append_assoc, ← isPads, tells.pads]
    · rw [List.filterMap_append, List.filterMap_cons, dialog.silent, kept,
        tells.outputs]
      simp
    · rw [List.flatMap_append, List.flatMap_singleton, dialog.typed,
        List.append_assoc, ← isImes, tells.imes]
    · refine tells.consented.append fun argv isRun => ?_
      rw [dialog.quiet] at isRun
      cases isRun

theorem printed_tells :
    Triple (Tells start story) printed
      (fun output => Tells start (story ++ [.printed output]))
      (fun _ => Told start) := by
  intro state tells
  cases isOutputs : state.outputs with
  | nil =>
      simpa [printed, isOutputs] using tells.told
  | cons output outputs =>
      simp only [printed, happen, bind_apply, read_apply, isOutputs,
        modify_apply, pure_apply]
      refine ⟨?_, ?_, ?_, ?_, ?_, tells.answered.append trivial⟩
      · rw [tells.soFar]
      · rw [tells.pads]
        simp [Happening.polls]
      · have before := tells.outputs
        rw [isOutputs] at before
        simpa [Happening.printed?] using before
      · rw [tells.imes]
        simp [Happening.typed]
      · refine tells.consented.append fun argv isRun => ?_
        cases isRun

/-- A command that is permitted. -/
theorem command_tells
    {argv : List (List Byte)}
    (permitted : Permitted story argv) :
    Triple (Tells start story) (command argv)
      (fun output => Tells start (story ++ [.ran argv] ++ [.printed output]))
      (fun _ => Told start) := by
  have runs :
      Triple (Tells start story) (happen (.ran argv))
        (fun _ => Tells start (story ++ [.ran argv]))
        (fun _ => Told start) := by
    intro state tells
    refine ⟨congrArg (· ++ [.ran argv]) tells.soFar, ?_, ?_, ?_, ?_,
      tells.answered.append trivial⟩
    · rw [tells.pads]
      simp [Happening.polls]
    · rw [tells.outputs]
      simp [Happening.printed?]
    · rw [tells.imes]
      simp [Happening.typed]
    · refine tells.consented.append fun other isRun => ?_
      cases isRun
      exact permitted
  exact runs.bind fun _ => printed_tells

section Dialogs

/-- A dialog over the polls takes those in front of what it leaves. -/
theorem takes_poll
    {dialog : List Keys → Option (Result × List Keys)}
    (takes :
      ∀ pads result rest, dialog pads = some (result, rest) →
        ∃ polls, pads = polls ++ rest ∧ dialog polls = some (result, [])) :
    Takes (poll dialog) fun result polls typed =>
      dialog polls = some (result, []) ∧ typed = [] := by
  intro before
  rcases polled : dialog before.pads with _ | ⟨result, rest⟩
  · simp [poll, polled]
  · obtain ⟨polls, taken, same⟩ := takes _ _ _ polled
    simp only [poll, bind_apply, read_apply, polled, modify_apply, pure_apply]
    exact ⟨polls, [], taken, rfl, trivial, same, rfl⟩

theorem showNetworkList_takes
    {netCnt curNet : Int}
    {pads rest : List Keys}
    {choice : Int × Action}
    (shown : showNetworkList netCnt curNet pads = some (choice, rest)) :
    ∃ polls,
      pads = polls ++ rest ∧
        showNetworkList netCnt curNet polls = some (choice, []) := by
  unfold showNetworkList at shown ⊢
  split at shown
  next isEmpty =>
    obtain ⟨⟨action, left⟩, polled, isChoice⟩ :=
      Option.map_eq_some_iff.mp shown
    cases isChoice
    obtain ⟨polls, taken, same⟩ := pollUntil_takes polled
    refine ⟨polls, taken, ?_⟩
    rw [if_pos isEmpty, same, Option.map_some]
  next notEmpty =>
    obtain ⟨polls, taken, same⟩ := pollUntil_takes shown
    refine ⟨polls, taken, ?_⟩
    rwa [if_neg notEmpty]

/-- The text dialog takes one text. -/
theorem editField_cons (form : Form) (ime : ImeResult) :
    ∃ edited, ∀ state rest, state.imes = ime :: rest →
      editField form state =
        (.ok (edited, ime.confirmed), { state with imes := rest }) := by
  by_cases first : form.idx = 0
  · refine ⟨{ form with login := string ime.text },
      fun state rest isImes => ?_⟩
    simp [editField, isImes, first]
  · refine ⟨{ form with password := string ime.text },
      fun state rest isImes => ?_⟩
    simp [editField, isImes, first]

/-- The text dialogs take the texts in front of those that they leave, and
would do the same with these anywhere. -/
theorem editFields_takes
    {below : Nat}
    {form edited : Form}
    {before after : SessionState}
    (edits : editFields below form before = (.ok edited, after)) :
    ∃ typed,
      before.imes = typed ++ after.imes ∧
        after = { before with imes := after.imes } ∧
        ∀ other more, other.imes = typed ++ more →
          editFields below form other =
            (.ok edited, { other with imes := more }) := by
  induction below generalizing form before with
  | zero =>
      cases edits
      refine ⟨[], rfl, rfl, fun other more isImes => ?_⟩
      rw [List.nil_append] at isImes
      rw [← isImes]
      rfl
  | succ below inductionHypothesis =>
      cases isImes : before.imes with
      | nil =>
          simp [editFields, editField, isImes] at edits
      | cons ime rest =>
          obtain ⟨next, takesOne⟩ := editField_cons form ime
          simp only [editFields, bind_apply, takesOne _ _ isImes] at edits ⊢
          cases confirmed : ime.confirmed with
          | false =>
              rw [confirmed] at edits
              cases edits
              refine ⟨[ime], rfl, rfl, fun other more isOther => ?_⟩
              rw [takesOne other more isOther, confirmed]
              rfl
          | true =>
              rw [confirmed] at edits
              obtain ⟨typed, taken, kept, again⟩ := inductionHypothesis edits
              refine ⟨ime :: typed, congrArg (ime :: ·) taken, kept,
                fun other more isOther => ?_⟩
              rw [takesOne other (typed ++ more) isOther, confirmed]
              exact again _ more rfl

/-- The form takes these polls and texts, whatever follows them. -/
def Form.Takes
    (form : Form)
    (entered : Option (List Byte × List Byte))
    (polls : List Keys)
    (typed : List ImeResult) : Prop :=
  ∀ later other more, other.imes = typed ++ more →
    formKeys (polls ++ later) form other =
      (.ok entered, { other with pads := later, imes := more })

/-- The login form takes the polls and the texts in front of those that it
leaves. -/
theorem formKeys_takes
    {pads : List Keys}
    {form : Form}
    {before after : SessionState}
    {entered : Option (List Byte × List Byte)}
    (enters : formKeys pads form before = (.ok entered, after)) :
    ∃ polls typed,
      pads = polls ++ after.pads ∧
        before.imes = typed ++ after.imes ∧
        after = { before with pads := after.pads, imes := after.imes } ∧
        form.Takes entered polls typed := by
  induction pads generalizing form before with
  | nil =>
      simp [formKeys] at enters
  | cons keys rest inductionHypothesis =>
      -- The poll moves the cursor, or does nothing.
      have goesOn
          {next : Form}
          (same :
            ∀ rest state, formKeys (keys :: rest) form state =
              formKeys rest next { state with pads := rest }) :
          ∃ polls typed,
            keys :: rest = polls ++ after.pads ∧
              before.imes = typed ++ after.imes ∧
              after =
                { before with pads := after.pads, imes := after.imes } ∧
              form.Takes entered polls typed := by
        rw [same] at enters
        obtain ⟨polls, typed, isPads, isImes, kept, again⟩ :=
          inductionHypothesis enters
        refine ⟨keys :: polls, typed, congrArg (keys :: ·) isPads, isImes,
          kept, fun later other more isOther => ?_⟩
        rw [List.cons_append, same]
        exact again later _ more isOther
      by_cases up : keys.up
      · exact goesOn fun rest state => by
          simp only [formKeys, up, if_true]
          rfl
      by_cases down : keys.down
      · exact goesOn fun rest state => by
          simp only [formKeys, up, down, if_true, if_false,
            Bool.false_eq_true]
          rfl
      by_cases circle : keys.circle
      · have same (rest : List Keys) (state : SessionState) :
            formKeys (keys :: rest) form state =
              (.ok none, { state with pads := rest }) := by
          simp [formKeys, up, down, circle]
        rw [same] at enters
        cases enters
        refine ⟨[keys], [], rfl, rfl, rfl, fun later other more isOther => ?_⟩
        rw [List.nil_append] at isOther
        rw [List.singleton_append, same, ← isOther]
      by_cases cross : keys.cross
      · have same (rest : List Keys) (state : SessionState) :
            formKeys (keys :: rest) form state =
              (do
                let form ← editFields (2 - form.idx) form
                if form.idx = 2 then
                  pure (some (form.login, form.password))
                else
                  formKeys rest form)
                { state with pads := rest } := by
          simp only [formKeys, up, down, circle, cross, if_true, if_false,
            Bool.false_eq_true]
          rfl
        rw [same, bind_apply] at enters
        rcases edits :
            editFields (2 - form.idx) form { before with pads := rest } with
          ⟨reason | edited, middle⟩ <;>
          rw [edits] at enters
        · cases enters
        obtain ⟨typed, isImes, kept, again⟩ := editFields_takes edits
        by_cases complete : edited.idx = 2
        · simp only [if_pos complete] at enters
          cases enters
          refine ⟨[keys], typed, by rw [kept]; rfl, isImes, ?_,
            fun later other more isOther => ?_⟩
          · rw [kept]
          · rw [List.singleton_append, same, bind_apply,
              again { other with pads := later } more isOther]
            simp only [if_pos complete]
            rfl
        · simp only [if_neg complete] at enters
          obtain ⟨polls, others, isPads, isMore, keptLater, later⟩ :=
            inductionHypothesis enters
          refine ⟨keys :: polls, typed ++ others,
            congrArg (keys :: ·) isPads, ?_, ?_,
            fun left other more isOther => ?_⟩
          · rw [List.append_assoc, ← isMore]
            exact isImes
          · rw [keptLater, kept]
          · rw [List.append_assoc] at isOther
            rw [List.cons_append, same, bind_apply,
              again { other with pads := polls ++ left } _ isOther]
            simp only [if_neg complete]
            exact later left _ more rfl
      · exact goesOn fun rest state => by
          simp only [formKeys, up, down, circle, cross, if_false,
            Bool.false_eq_true]
          rfl

/-- The form of a session, and all that was entered in it. -/
theorem takes_form :
    Takes
      (do
        let state ← read
        formKeys state.pads ⟨[], [], 0⟩)
      fun entered polls typed =>
        formKeys polls ⟨[], [], 0⟩ (sessionStart polls [] typed) =
          (.ok entered, sessionStart [] [] []) := by
  intro before
  simp only [bind_apply, read_apply]
  rcases enters : formKeys before.pads ⟨[], [], 0⟩ before with
    ⟨reason | entered, after⟩
  · have kept :
        Maintains (fun state => state.story = before.story)
          (fun _ => True) (formKeys before.pads ⟨[], [], 0⟩) fun _ => True :=
      formKeys_maintains (fun _ _ same => same) (fun _ _ same => same)
        trivial _ _
    have same := kept before rfl
    rw [enters] at same
    exact same.1
  · obtain ⟨polls, typed, isPads, isImes, kept, again⟩ := formKeys_takes enters
    refine ⟨polls, typed, isPads, isImes, kept, ?_⟩
    have alone := again [] (sessionStart polls [] typed) [] (by
      simp [sessionStart])
    rwa [List.append_nil] at alone

end Dialogs

section Rounds

/-- The story has gone on, with the cursor where it was. -/
def Later
    (start : SessionState)
    (story : List Happening)
    (state : SessionState) : Prop :=
  ∃ more,
    cursorOf (story ++ more) = cursorOf story ∧
      Tells start (story ++ more) state

theorem Tells.now
    {state : SessionState}
    (tells : Tells start story state) :
    Later start story state := by
  refine ⟨[], ?_, ?_⟩ <;> rw [List.append_nil]
  exact tells

/-- One happening earlier, which does not move the cursor. -/
theorem Later.before
    {happening : Happening}
    {state : SessionState}
    (later : Later start (story ++ [happening]) state)
    (quiet : happening.cursor? = none) :
    Later start story state := by
  obtain ⟨others, same, tells⟩ := later
  rw [List.append_assoc] at same tells
  refine ⟨[happening] ++ others, ?_, tells⟩
  rw [same, cursorOf_append, quiet, Option.getD_none]

/-- A program whose story goes on from a happening. -/
theorem later_of_append
    {program : Session Result}
    {happening : Happening}
    (quiet : happening.cursor? = none)
    (triple :
      Triple (Tells start (story ++ [happening])) program
        (fun _ => Later start (story ++ [happening])) (fun _ => Told start)) :
    Triple (Tells start (story ++ [happening])) program
      (fun _ => Later start story) (fun _ => Told start) :=
  triple.weaken (fun _ holds => holds) (fun _ _ later => later.before quiet)
    fun _ _ told => told

/-- A dialog over the polls that is answered. -/
theorem poll_tells
    {dialog : List Keys → Option (Result × List Keys)}
    {happening : Result → List Keys → Happening}
    (takes :
      ∀ pads result rest, dialog pads = some (result, rest) →
        ∃ polls, pads = polls ++ rest ∧ dialog polls = some (result, []))
    (answers :
      ∀ result polls, dialog polls = some (result, []) →
        (happening result polls).Answers story)
    (isDialog : ∀ result polls, (happening result polls).IsDialog polls []) :
    Triple (Tells start story)
      (watch (poll dialog) fun result polls _ => happening result polls)
      (fun result state =>
        ∃ polls,
          dialog polls = some (result, []) ∧
            Tells start (story ++ [happening result polls]) state)
      (fun _ => Told start) := by
  refine (watch_tells (takes_poll takes)
    (fun result polls _ fact => answers result polls fact.1) ?_).weaken
      (fun _ holds => holds) ?_ fun _ _ told => told
  · rintro result polls _ ⟨-, rfl⟩
    exact isDialog result polls
  · rintro result state ⟨polls, _, ⟨fact, -⟩, tells⟩
    exact ⟨polls, fact, tells⟩

/-- The error of an output is told. -/
theorem tell_tells (output : List Byte) :
    Triple (Tells start (story ++ [.printed output]))
      (tell (errorOf output))
      (fun _ => Later start (story ++ [.printed output]))
      (fun _ => Told start) := by
  cases isError : errorOf output with
  | none =>
      exact fun state tells => tells.now
  | some message =>
      have tells :=
        @poll_tells start (story ++ [.printed output]) _ _
          (fun _ => .told message) (fun _ _ _ => pollUntil_takes)
          (fun _ polls told => ⟨⟨story, output, rfl, isError⟩, told⟩)
          (fun _ _ => ⟨rfl, rfl, rfl, rfl⟩)
      refine tells.weaken (fun _ holds => holds) ?_ fun _ _ told => told
      rintro _ state ⟨polls, -, tells⟩
      exact tells.now.before rfl

/-- A question, and what is known if the answer is yes. -/
theorem ask_tells (question : List Byte) :
    Triple (Tells start story) (ask question)
      (fun answer state =>
        ∃ polls,
          (answer = true → Confirmed polls) ∧
            Tells start (story ++ [.asked question answer polls]) state)
      (fun _ => Told start) := by
  have asks :=
    @poll_tells start story _ _ (.asked question)
      (fun _ _ _ => pollUntil_takes) (fun _ _ answered => answered)
      (fun _ _ => ⟨rfl, rfl, rfl, rfl⟩)
  refine asks.weaken (fun _ holds => holds) ?_ fun _ _ told => told
  rintro answer state ⟨polls, answered, tells⟩
  refine ⟨polls, ?_, tells⟩
  rintro rfl
  exact confirmed_of_answered answered

/-- A command, and what follows its output. -/
theorem command_later
    {argv : List (List Byte)}
    {next : List Byte → Session Result}
    (permitted : Permitted story argv)
    (follows :
      ∀ output,
        Triple (Tells start (story ++ [.ran argv] ++ [.printed output]))
          (next output)
          (fun _ => Later start (story ++ [.ran argv] ++ [.printed output]))
          (fun _ => Told start)) :
    Triple (Tells start story) (command argv >>= next)
      (fun _ => Later start story) (fun _ => Told start) :=
  (command_tells permitted).bind fun output =>
    (later_of_append rfl (follows output)).weaken (fun _ holds => holds)
      (fun _ _ later => later.before rfl) fun _ _ told => told

/-- A command whose error is told. -/
theorem command_told
    {argv : List (List Byte)}
    (permitted : Permitted story argv) :
    Triple (Tells start story)
      (do
        let output ← command argv
        tell (errorOf output))
      (fun _ => Later start story) (fun _ => Told start) :=
  command_later permitted tell_tells

/-- The form, and the command for what was entered. -/
theorem enter_tells
    {verb : List Byte}
    (permitted :
      ∀ name secret polls typed,
        Permitted (story ++ [.filled (some (name, secret)) polls typed])
          [chars "hamachi", verb, name, secret]) :
    Triple (Tells start story) (enter verb) (fun _ => Later start story)
      (fun _ => Told start) := by
  have fills :=
    @watch_tells start story _ _ _ .filled takes_form
      (fun _ _ _ filled => filled) (fun _ _ _ _ => ⟨rfl, rfl, rfl, rfl⟩)
  refine fills.bind fun entered => Triple.any fun polls =>
    Triple.any fun typed => Triple.known fun _ => ?_
  cases entered with
  | none =>
      exact fun state tells => tells.now.before rfl
  | some entered =>
      obtain ⟨name, secret⟩ := entered
      exact later_of_append rfl
        (command_told (permitted name secret polls typed))

/-- A network is left after a confirmed question, and deleted after another
one. -/
theorem leave_tells
    {earlier : List Happening}
    {listing name : List Byte}
    {cursor : Int}
    {polls : List Keys}
    (named : (networkNames listing)[cursor.toNat]? = some name) :
    Triple (Tells start (chosen earlier listing (cursor, .delete) polls))
      (leave name)
      (fun _ => Later start (chosen earlier listing (cursor, .delete) polls))
      (fun _ => Told start) := by
  refine (ask_tells (leaveQuestion name)).bind fun sure =>
    Triple.any fun answering => Triple.known fun confirmed => ?_
  cases sure with
  | false =>
      exact fun state tells => tells.now.before rfl
  | true =>
      have leaves :=
        @Permitted.leave earlier listing name cursor polls answering named
          (confirmed rfl)
      refine later_of_append rfl (command_later leaves fun output => ?_)
      by_cases denied : Denied (errorOf output)
      · rw [if_pos denied]
        refine (ask_tells (deleteQuestion name)).bind fun sure =>
          Triple.any fun confirming => Triple.known fun again => ?_
        cases sure with
        | false =>
            exact fun state tells => tells.now.before rfl
        | true =>
            have deletes :=
              @Permitted.delete earlier listing name output cursor polls
                answering confirming named (confirmed rfl) denied (again rfl)
            refine later_of_append rfl (command_told ?_)
            simpa only [List.append_assoc, List.cons_append,
              List.nil_append] using deletes
      · rw [if_neg denied]
        exact tell_tells output

/-- What the user chose. -/
theorem act_tells
    {earlier : List Happening}
    {listing : List Byte}
    {choice : Int × Action}
    {polls : List Keys} :
    Triple (Tells start (chosen earlier listing choice polls))
      (act (networkNames listing) choice)
      (fun _ => Later start (chosen earlier listing choice polls))
      (fun _ => Told start) := by
  obtain ⟨cursor, action⟩ := choice
  cases action with
  | create =>
      exact enter_tells fun _ _ _ _ => .create
  | join =>
      exact enter_tells fun _ _ _ _ => .join
  | delete =>
      cases named : (networkNames listing)[cursor.toNat]? with
      | none =>
          simp only [act, named]
          exact fun state tells => tells.told
      | some name =>
          simp only [act, named]
          exact leave_tells named

/-- The networks are listed. -/
theorem list_tells :
    Triple (Tells start story) list
      (fun names state =>
        ∃ listing,
          names = networkNames listing ∧
            Tells start
              (story ++
                [.ran [chars "hamachi", chars "list"], .printed listing])
              state)
      (fun _ => Told start) := by
  refine (command_tells (.list story)).bind fun output => ?_
  rw [List.append_assoc, List.singleton_append]
  split
  · split
    · exact fun state tells => tells.told
    · exact fun state tells => ⟨output, rfl, tells⟩
  · exact fun state tells => tells.told

/-- A round starts at the cursor of the last choice, and leaves it at its
own. -/
theorem round_tells
    {cursor : Int}
    (here : cursorOf story = cursor) :
    Triple (Tells start story) (round cursor)
      (fun next state =>
        ∃ more,
          cursorOf (story ++ more) = next ∧ Tells start (story ++ more) state)
      (fun _ => Told start) := by
  refine list_tells.bind fun names => Triple.any fun listing =>
    Triple.known ?_
  rintro rfl
  have listed :
      cursorOf
          (story ++
            [.ran [chars "hamachi", chars "list"], .printed listing]) =
        cursor := by
    rw [← here, List.append_cons, cursorOf_append, cursorOf_append]
    rfl
  have chooses :=
    @poll_tells start
      (story ++ [.ran [chars "hamachi", chars "list"], .printed listing])
      _ _ (.chose (networkNames listing))
      (fun _ _ _ => @showNetworkList_takes (networkNames listing).length
        cursor _ _ _)
      (fun choice polls shown => ⟨⟨story, listing, rfl, rfl⟩, by
        rw [listed, shown]⟩)
      (fun _ _ => ⟨rfl, rfl, rfl, rfl⟩)
  refine chooses.bind fun choice => Triple.any fun polls =>
    Triple.known fun _ => ?_
  have same :
      story ++ [.ran [chars "hamachi", chars "list"], .printed listing] ++
          [.chose (networkNames listing) choice polls] =
        chosen story listing choice polls := by
    rw [chosen, List.append_assoc]
    rfl
  rw [same]
  refine act_tells.bind fun _ state later => ?_
  obtain ⟨more, kept, tells⟩ := later
  rw [cursorOf_chosen] at kept
  rw [chosen, List.append_assoc] at kept tells
  exact ⟨_, kept, tells⟩

/-- Any number of rounds. -/
theorem rounds_tells
    (count : Nat)
    {cursor : Int}
    (here : cursorOf story = cursor) :
    Triple (Tells start story) (rounds count cursor)
      (fun _ state => ∃ more, Tells start (story ++ more) state)
      (fun _ => Told start) := by
  induction count generalizing cursor story with
  | zero =>
      exact fun state tells => ⟨[], by rwa [List.append_nil]⟩
  | succ count inductionHypothesis =>
      refine (round_tells here).bind fun next => Triple.any fun more =>
        Triple.known fun there => ?_
      refine (inductionHypothesis there).weaken (fun _ holds => holds) ?_
        fun _ _ told => told
      rintro _ state ⟨others, tells⟩
      exact ⟨more ++ others, by rwa [← List.append_assoc]⟩

/-- A session tells a story in which every command was permitted, and every
dialog answered. -/
theorem main_tells
    (count : Nat)
    (pads : List Keys)
    (outputs : List (List (List Byte)))
    (imes : List ImeResult) :
    Told (sessionStart pads outputs imes)
      (main count (sessionStart pads outputs imes)).2 := by
  have starts :
      Tells (sessionStart pads outputs imes) []
        (sessionStart pads outputs imes) :=
    ⟨rfl, rfl, rfl, rfl, consented_nil, answered_nil⟩
  have triple :
      Triple (Tells (sessionStart pads outputs imes) []) (main count)
        (fun _ state =>
          ∃ story, Tells (sessionStart pads outputs imes) story state)
        (fun _ => Told (sessionStart pads outputs imes)) := by
    refine (command_tells .login).bind fun output => ?_
    have checks :
        Triple
          (Tells (sessionStart pads outputs imes)
            [.ran [chars "hamachi", chars "login"], .printed output])
          (checkLogin (errorOf output))
          (fun _ =>
            Tells (sessionStart pads outputs imes)
              [.ran [chars "hamachi", chars "login"], .printed output])
          (fun _ => Told (sessionStart pads outputs imes)) := by
      cases errorOf output with
      | none =>
          exact fun state tells => tells
      | some message =>
          rw [checkLogin]
          split
          · exact fun state tells => tells.told
          · exact fun state tells => tells
    refine checks.bind fun _ => (rounds_tells count rfl).weaken
      (fun _ holds => holds) ?_ fun _ _ told => told
    rintro _ state ⟨more, tells⟩
    exact ⟨_, tells⟩
  have ended := triple _ starts
  rcases outcome : main count (sessionStart pads outputs imes) with
    ⟨reason | cursor, after⟩ <;>
    rw [outcome] at ended
  · exact ended
  · obtain ⟨story, tells⟩ := ended
    exact tells.told

end Rounds

end Session

namespace App

/-- A story tells of a run: the same commands were run and the same dialogs
answered, with polls, texts and outputs that came in this order, and every
command was permitted, and every dialog answered, by what came before it. -/
structure Recounts
    (pads : List Keys)
    (outputs : List (List (List Byte)))
    (imes : List ImeResult)
    (state : AppState)
    (story : List Happening) : Prop where
  ran :
    state.events.filterMap Event.argv? = story.filterMap Happening.argv?
  exchanged :
    state.events.filterMap Event.exchange? =
      story.filterMap Happening.exchange?
  polls : story.flatMap Happening.polls <+: pads
  printed : story.filterMap Happening.printed? <+: outputs.map List.flatten
  typed : story.flatMap Happening.typed <+: imes
  consented : Consented story
  answered : Answered story

/-- Every run of the application, whatever is pressed, typed and printed, is
told by the story of its session. -/
theorem main_asks_first
    (count : Nat)
    (pads : List Keys)
    (outputs : List (List (List Byte)))
    (imes : List ImeResult)
    (junk : Nat → Byte)
    (small : ∀ output ∈ outputs, output.flatten.length ≤ 2 ^ 63) :
    Recounts pads outputs imes (main count (appStart pads outputs imes junk)).2
      (Session.main count (sessionStart pads outputs imes)).2.story := by
  have told := Session.main_tells count pads outputs imes
  have alike := (simulates_start count pads outputs imes junk small).2
  exact ⟨alike.ran, alike.exchanged, told.pads, told.outputs, told.imes,
    told.consented, told.answered⟩

/-- A network that is deleted. -/
theorem main_asks_first_deletion :
    ∃ story,
      Recounts deletionPads deletionOutputs deletionTexts
          (main 2 deletionStart).2 story ∧
        story.filterMap Happening.argv? = deletionCommands := by
  obtain ⟨state, returns, ran⟩ := deletion_session
  have asks :=
    main_asks_first 2 deletionPads deletionOutputs deletionTexts (fun _ => 0)
      deletion_small
  rw [returns] at asks
  exact ⟨_, asks, ran⟩

end App

end Hamachi
