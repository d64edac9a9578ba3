import Hamachi.Dialogs

namespace Hamachi.Display

/-!
# Dialogs by their inputs

What a dialog answers to the polls and the texts that it takes one after the
other, without a display: the functions that a session uses for its dialogs
compute the same.
-/

/-- What a dialog takes from outside. -/
inductive Input where
  | press (keys : Keys)
  | edit (ime : ImeResult)

def Input.press? : Input → Option Keys
  | .press keys => some keys
  | .edit _ => none

def Input.edit? : Input → Option ImeResult
  | .press _ => none
  | .edit ime => some ime

/-- What a dialog waits for; under `doDumpLogs` it remembers its keys. -/
inductive Place where
  | polling
  | dumping (keys : Keys)
  | editing

/-- A dialog that waits for an input. -/
structure Waiting where
  shown : Shown
  place : Place

/-- What follows the flip of a screen. -/
def Shown.waits (shown : Shown) : Polled Waiting Answer :=
  match shown.flipped with
  | some (.returns answer) => .returns answer
  | some .edit => .goesOn ⟨shown, .editing⟩
  | _ => .goesOn ⟨shown, .polling⟩

/-- What follows in a dialog that took these keys. -/
def Next.waits (shown : Shown) (keys : Keys) : Next → Polled Waiting Answer
  | .redraw shown => shown.waits
  | .dumpLogs => .goesOn ⟨shown, .dumping keys⟩
  | .edit => .goesOn ⟨shown, .editing⟩
  | .returns answer => .returns answer

/-- The dialog takes a poll, or the one on top of it does. -/
def Waiting.press (waiting : Waiting) (keys : Keys) : Polled Waiting Answer :=
  match waiting.place with
  | .dumping before =>
      if keys.cross then
        (waiting.shown.dumped before).waits waiting.shown before
      else
        .goesOn waiting
  | _ => (waiting.shown.pressed keys).waits waiting.shown keys

/-- A dialog concludes with an answer after these inputs. -/
inductive Concludes : Polled Waiting Answer → List Input → Answer → Prop where
  | returned (answer : Answer) :
      Concludes (.returns answer) [] answer
  | press
      {waiting : Waiting}
      {rest : List Input}
      {answer : Answer}
      (keys : Keys)
      (polls : waiting.place ≠ .editing)
      (later : Concludes (waiting.press keys) rest answer) :
      Concludes (.goesOn waiting) (.press keys :: rest) answer
  | edit
      {waiting : Waiting}
      {rest : List Input}
      {answer : Answer}
      (ime : ImeResult)
      (edits : waiting.place = .editing)
      (later : Concludes (waiting.shown.edited ime).waits rest answer) :
      Concludes (.goesOn waiting) (.edit ime :: rest) answer

/-- The loop of `gui_show_notification`. -/
def notificationKeys (_ : Unit) (keys : Keys) : Polled Unit Unit :=
  if keys.cross then .returns () else .goesOn ()

/-- The form of a session takes these inputs, and this is its answer. -/
def FormComputes
    (program : List Keys → Session (Option (List Byte × List Byte)))
    (inputs : List Input)
    (answer : Answer) :
    Prop :=
  ∃ entered, answer = .entered entered ∧ ∀ later more state,
    state.pads = inputs.filterMap Input.press? ++ later →
    state.imes = inputs.filterMap Input.edit? ++ more →
    program (inputs.filterMap Input.press? ++ later) state =
      (.ok entered, { state with pads := later, imes := more })

/-- The dialog of a call computes this answer from its inputs, and leaves what
comes later. -/
def Request.Computes
    (inputs : List Input)
    (answer : Answer) :
    Request → Prop
  | .errorScreen _ => False
  | .errorDialog _ =>
      answer = .done ∧ ∀ later,
        pollUntil errorDialogKeys .shown
            (inputs.filterMap Input.press? ++ later) =
          some ((), later)
  | .notification _ =>
      answer = .done ∧ ∀ later,
        pollUntil notificationKeys ()
            (inputs.filterMap Input.press? ++ later) =
          some ((), later)
  | .statusMessage _ => answer = .done ∧ inputs = []
  | .networkList networks curNet =>
      ∃ choice : Int × Action,
        answer = .listAction choice.1 choice.2 ∧ ∀ later,
          showNetworkList networks.length curNet
              (inputs.filterMap Input.press? ++ later) =
            some (choice, later)
  | .question _ =>
      ∃ ok, answer = .choice ok ∧ ∀ later,
        pollUntil questionKeys false
            (inputs.filterMap Input.press? ++ later) =
          some (ok, later)
  | .login _ =>
      FormComputes (fun polls => Session.formKeys polls ⟨[], [], 0⟩) inputs
        answer

/-- A dialog that is a loop over its polls computes what the loop does. -/
theorem Concludes.pollUntil_eq
    {State Result : Type}
    {handle : State → Keys → Polled State Result}
    {answers : Result → Answer}
    {Represents : State → Waiting → Prop}
    (polls :
      ∀ {state waiting}, Represents state waiting →
        waiting.place ≠ .editing)
    (goesOn :
      ∀ {state waiting keys next},
        Represents state waiting → handle state keys = .goesOn next →
        ∃ after,
          waiting.press keys = .goesOn after ∧ Represents next after)
    (returns :
      ∀ {state waiting keys result},
        Represents state waiting → handle state keys = .returns result →
        waiting.press keys = .returns (answers result))
    {waiting : Waiting}
    {state : State}
    {inputs : List Input}
    {answer : Answer}
    (concludes : Concludes (.goesOn waiting) inputs answer)
    (represents : Represents state waiting) :
    ∃ result,
      answer = answers result ∧ ∀ later,
        pollUntil handle state (inputs.filterMap Input.press? ++ later) =
          some (result, later) := by
  generalize isOutcome : Polled.goesOn waiting = outcome at concludes
  induction concludes generalizing waiting state with
  | returned answer =>
      cases isOutcome
  | edit ime edits _ _ =>
      cases isOutcome
      exact absurd edits (polls represents)
  | press keys _ later inductionHypothesis =>
      cases isOutcome
      cases handled : handle state keys with
      | goesOn next =>
          obtain ⟨after, pressed, nextRepresents⟩ :=
            goesOn represents handled
          obtain ⟨result, isAnswer, computes⟩ :=
            inductionHypothesis nextRepresents pressed.symm
          refine ⟨result, isAnswer, fun rest => ?_⟩
          simpa only [List.filterMap_cons, Input.press?, List.cons_append,
            pollUntil, handled] using computes rest
      | returns result =>
          rw [returns represents handled] at later
          cases later
          refine ⟨result, rfl, fun rest => ?_⟩
          simp only [List.filterMap_cons, Input.press?, List.cons_append,
            List.filterMap_nil, List.nil_append, pollUntil, handled]

variable
  {inputs : List Input}
  {answer : Answer}

/-- The error screen has no end. -/
theorem errorScreen_concludes
    {message : List Byte}
    {place : Place} :
    ¬ Concludes (.goesOn ⟨.errorScreen message, place⟩) inputs answer := by
  intro concludes
  generalize isOutcome :
    Polled.goesOn (Waiting.mk (.errorScreen message) place) = outcome
    at concludes
  induction concludes generalizing place with
  | returned answer =>
      cases isOutcome
  | edit ime _ _ inductionHypothesis =>
      cases isOutcome
      exact inductionHypothesis rfl
  | press keys _ _ inductionHypothesis =>
      cases isOutcome
      obtain ⟨after, pressed⟩ :
          ∃ after,
            Waiting.press ⟨.errorScreen message, place⟩ keys =
              .goesOn ⟨.errorScreen message, after⟩ := by
        simp only [Waiting.press, Shown.pressed, Shown.dumped]
        split
        · split <;> exact ⟨_, rfl⟩
        · split <;> exact ⟨_, rfl⟩
      exact inductionHypothesis pressed.symm

/-- Where the dialog of an error message waits. -/
def ErrorDialog.WaitsAt
    (message : List Byte) :
    ErrorDialog → Waiting → Prop
  | .shown, waiting =>
      waiting = ⟨.errorDialog message false, .polling⟩
  | .dumping closes, waiting =>
      ∃ keys : Keys, keys.cross = closes ∧
        waiting = ⟨.errorDialog message false, .dumping keys⟩

namespace ErrorDialog.WaitsAt

variable
  {message : List Byte}
  {dialog next : ErrorDialog}
  {waiting : Waiting}
  {keys : Keys}
  {result : Unit}

theorem polls
    (waits : ErrorDialog.WaitsAt message dialog waiting) :
    waiting.place ≠ .editing := by
  cases dialog with
  | shown =>
      cases waits
      simp
  | dumping closes =>
      obtain ⟨keys, _, rfl⟩ := waits
      simp

theorem goesOn
    (waits : ErrorDialog.WaitsAt message dialog waiting)
    (handled : errorDialogKeys dialog keys = .goesOn next) :
    ∃ after,
      waiting.press keys = .goesOn after ∧
        ErrorDialog.WaitsAt message next after := by
  cases dialog with
  | shown =>
      cases waits
      simp only [errorDialogKeys] at handled
      split at handled
      · rename_i options
        cases handled
        exact ⟨_, by simp [Waiting.press, Shown.pressed, options,
          Next.waits], keys, rfl, rfl⟩
      · split at handled
        · cases handled
        · rename_i options cross
          cases handled
          exact ⟨_, by simp [Waiting.press, Shown.pressed, options,
            cross, Next.waits, Shown.waits, Shown.flipped], rfl⟩
  | dumping closes =>
      obtain ⟨before, isCloses, rfl⟩ := waits
      simp only [errorDialogKeys] at handled
      split at handled
      · rename_i cross
        split at handled
        · cases handled
        · rename_i stays
          cases handled
          exact ⟨_, by simp [Waiting.press, Shown.dumped, cross, isCloses,
            stays, Next.waits, Shown.waits, Shown.flipped], rfl⟩
      · rename_i cross
        cases handled
        exact ⟨_, by simp [Waiting.press, cross], before, isCloses, rfl⟩

theorem returns
    (waits : ErrorDialog.WaitsAt message dialog waiting)
    (handled : errorDialogKeys dialog keys = .returns result) :
    waiting.press keys = .returns .done := by
  cases dialog with
  | shown =>
      cases waits
      simp only [errorDialogKeys] at handled
      split at handled
      · cases handled
      · split at handled
        · rename_i options cross
          simp [Waiting.press, Shown.pressed, options, cross, Next.waits]
        · cases handled
  | dumping closes =>
      obtain ⟨before, isCloses, rfl⟩ := waits
      simp only [errorDialogKeys] at handled
      split at handled
      · rename_i cross
        split at handled
        · rename_i closes
          simp [Waiting.press, Shown.dumped, cross, isCloses, closes,
            Next.waits]
        · cases handled
      · cases handled

end ErrorDialog.WaitsAt

theorem errorDialog_computes
    {message : List Byte}
    (concludes :
      Concludes (.goesOn ⟨.errorDialog message false, .polling⟩) inputs
        answer) :
    (Request.errorDialog message).Computes inputs answer := by
  obtain ⟨⟨⟩, computes⟩ :=
    @Concludes.pollUntil_eq _ _ errorDialogKeys (fun _ => .done)
      (ErrorDialog.WaitsAt message) ErrorDialog.WaitsAt.polls
      ErrorDialog.WaitsAt.goesOn ErrorDialog.WaitsAt.returns
      _ .shown _ _ concludes rfl
  exact computes

theorem notification_computes
    {message : List Byte}
    (concludes :
      Concludes (.goesOn ⟨.notification message, .polling⟩) inputs answer) :
    (Request.notification message).Computes inputs answer := by
  suffices computes :
      ∃ result : Unit, answer = .done ∧ ∀ later,
        pollUntil notificationKeys ()
            (inputs.filterMap Input.press? ++ later) =
          some (result, later) by
    obtain ⟨⟨⟩, computes⟩ := computes
    exact computes
  refine @Concludes.pollUntil_eq _ _ notificationKeys (fun _ => .done)
    (fun _ waiting => waiting = ⟨.notification message, .polling⟩)
    ?_ ?_ ?_ _ () _ _ concludes rfl
  · rintro _ _ rfl
    simp
  · rintro _ _ keys _ rfl handled
    unfold notificationKeys at handled
    split at handled
    · cases handled
    · rename_i cross
      exact ⟨_, by simp [Waiting.press, Shown.pressed, cross, Next.waits,
        Shown.waits, Shown.flipped], rfl⟩
  · rintro _ _ keys _ rfl handled
    unfold notificationKeys at handled
    split at handled
    · rename_i cross
      simp [Waiting.press, Shown.pressed, cross, Next.waits]
    · cases handled

theorem question_computes
    {msg : List Byte}
    {choice : Bool}
    (concludes :
      Concludes (.goesOn ⟨.question msg choice, .polling⟩) inputs answer) :
    ∃ ok, answer = .choice ok ∧ ∀ later,
      pollUntil questionKeys choice
          (inputs.filterMap Input.press? ++ later) =
        some (ok, later) := by
  refine @Concludes.pollUntil_eq _ _ questionKeys .choice
    (fun choice waiting => waiting = ⟨.question msg choice, .polling⟩)
    ?_ ?_ ?_ _ choice _ _ concludes rfl
  · rintro _ _ rfl
    simp
  · rintro choice _ keys next rfl handled
    exact ⟨_, by simp [Waiting.press, Shown.pressed, handled, Next.waits,
      Shown.waits, Shown.flipped], rfl⟩
  · rintro choice _ keys ok rfl handled
    simp [Waiting.press, Shown.pressed, handled, Next.waits]

theorem emptyList_computes
    {networks : List (List Byte)}
    {curNet : Int}
    (isEmpty : networks.length = 0)
    (concludes :
      Concludes (.goesOn ⟨.networkList networks curNet, .polling⟩) inputs
        answer) :
    ∃ action, answer = .listAction curNet action ∧ ∀ later,
      pollUntil emptyListKeys false
          (inputs.filterMap Input.press? ++ later) =
        some (action, later) := by
  refine @Concludes.pollUntil_eq _ _ emptyListKeys (.listAction curNet)
    (fun dumping waiting =>
      ∃ place, waiting = ⟨.networkList networks curNet, place⟩ ∧
        if dumping then ∃ keys, place = .dumping keys else place = .polling)
    ?_ ?_ ?_ _ false _ _ concludes ⟨_, rfl, rfl⟩
  · rintro dumping _ ⟨place, rfl, isPlace⟩ rfl
    cases dumping <;> simp at isPlace
  · rintro dumping _ keys next ⟨place, rfl, isPlace⟩ handled
    cases dumping with
    | false =>
        cases isPlace
        cases next with
        | false =>
            exact ⟨_, by simp [Waiting.press, Shown.pressed, isEmpty,
              handled, Next.waits, Shown.waits, Shown.flipped],
              _, rfl, rfl⟩
        | true =>
            exact ⟨_, by simp [Waiting.press, Shown.pressed, isEmpty,
              handled, Next.waits], _, rfl, keys, rfl⟩
    | true =>
        obtain ⟨before, rfl⟩ := isPlace
        cases handled
        cases cross : keys.cross with
        | false =>
            exact ⟨_, by simp [Waiting.press, cross], _, rfl, before, rfl⟩
        | true =>
            exact ⟨_, by simp [Waiting.press, Shown.dumped, cross,
              Next.waits, Shown.waits, Shown.flipped], _, rfl, rfl⟩
  · rintro dumping _ keys action ⟨place, rfl, isPlace⟩ handled
    cases dumping with
    | false =>
        cases isPlace
        simp [Waiting.press, Shown.pressed, isEmpty, handled, Next.waits]
    | true => cases handled

theorem networkList_computes
    {networks : List (List Byte)}
    {curNet : Int}
    (notEmpty : networks.length ≠ 0)
    (concludes :
      Concludes (.goesOn ⟨.networkList networks curNet, .polling⟩) inputs
        answer) :
    ∃ choice : Int × Action,
      answer = .listAction choice.1 choice.2 ∧ ∀ later,
        pollUntil (networkListKeys networks.length) ⟨curNet, false⟩
            (inputs.filterMap Input.press? ++ later) =
          some (choice, later) := by
  refine @Concludes.pollUntil_eq _ _ (networkListKeys networks.length)
    (fun choice => .listAction choice.1 choice.2)
    (fun cursor waiting =>
      ∃ place, waiting = ⟨.networkList networks cursor.curNet, place⟩ ∧
        if cursor.dumping then
          ∃ keys, place = .dumping keys
        else
          place = .polling)
    ?_ ?_ ?_ _ ⟨curNet, false⟩ _ _ concludes ⟨_, rfl, rfl⟩
  · rintro ⟨cur, dumping⟩ _ ⟨place, rfl, isPlace⟩ rfl
    cases dumping <;> simp at isPlace
  · rintro ⟨cur, dumping⟩ _ keys ⟨next, dumps⟩ ⟨place, rfl, isPlace⟩ handled
    cases dumping with
    | false =>
        cases isPlace
        cases dumps with
        | false =>
            exact ⟨_, by simp [Waiting.press, Shown.pressed, notEmpty,
              handled, Next.waits, Shown.waits, Shown.flipped],
              _, rfl, rfl⟩
        | true =>
            -- The cursor stays where it is under the message.
            have sameCursor : next = cur := by
              unfold networkListKeys at handled
              grind
            subst sameCursor
            exact ⟨_, by simp [Waiting.press, Shown.pressed, notEmpty,
              handled, Next.waits], _, rfl, keys, rfl⟩
    | true =>
        obtain ⟨before, rfl⟩ := isPlace
        cases handled
        cases cross : keys.cross with
        | false =>
            exact ⟨_, by simp [Waiting.press, cross], _, rfl, before, rfl⟩
        | true =>
            exact ⟨_, by simp [Waiting.press, Shown.dumped, cross,
              Next.waits, Shown.waits, Shown.flipped], _, rfl, rfl⟩
  · rintro ⟨cur, dumping⟩ _ keys ⟨chosen, action⟩ ⟨place, rfl, isPlace⟩ handled
    cases dumping with
    | false =>
        cases isPlace
        simp [Waiting.press, Shown.pressed, notEmpty, handled, Next.waits]
    | true => cases handled

/-- The form as a session has it. -/
def LoginForm.form (form : LoginForm) : Session.Form :=
  ⟨form.login, form.password, form.idx⟩

/-- The rest of a session's form after its button or a field was chosen. -/
def enterForm
    (polls : List Keys)
    (form : Session.Form) :
    Session (Option (List Byte × List Byte)) := do
  let form ← Session.editFields (2 - form.idx) form
  if form.idx = 2 then
    pure (some (form.login, form.password))
  else
    Session.formKeys polls form

theorem formKeys_cons
    (keys : Keys)
    (rest : List Keys)
    (form : Session.Form) :
    Session.formKeys (keys :: rest) form =
      Program.modify (fun state => { state with pads := rest }) >>= fun _ =>
        if keys.up then
          Session.formKeys rest { form with idx := form.idx - 1 }
        else if keys.down then
          Session.formKeys rest { form with
            idx := if form.idx < 2 then form.idx + 1 else form.idx }
        else if keys.circle then
          pure none
        else if keys.cross then
          enterForm rest form
        else
          Session.formKeys rest form :=
  rfl

/-- One poll in front. -/
theorem FormComputes.press
    {keys : Keys}
    {first second :
      List Keys → Session (Option (List Byte × List Byte))}
    (computes : FormComputes second inputs answer)
    (polls :
      ∀ rest,
        first (keys :: rest) =
          Program.modify (fun state => { state with pads := rest }) >>=
            fun _ => second rest) :
    FormComputes first (.press keys :: inputs) answer := by
  obtain ⟨entered, isAnswer, computes⟩ := computes
  refine ⟨entered, isAnswer, fun later more state _ isImes => ?_⟩
  rw [List.filterMap_cons, Input.press?, List.cons_append, polls]
  exact computes later more _ rfl isImes

/-- One text in front. -/
theorem FormComputes.edit
    {ime : ImeResult}
    {first second :
      List Keys → Session (Option (List Byte × List Byte))}
    (computes : FormComputes second inputs answer)
    (edits :
      ∀ polls state imes,
        state.imes = ime :: imes →
        first polls state = second polls { state with imes := imes }) :
    FormComputes first (.edit ime :: inputs) answer := by
  obtain ⟨entered, isAnswer, computes⟩ := computes
  refine ⟨entered, isAnswer, fun later more state isPads isImes => ?_⟩
  exact (edits _ state _ isImes).trans
    (computes later more { state with imes := _ } isPads rfl)

/-- The form at its button returns what is in it. -/
theorem enterForm_button
    {form : LoginForm}
    (atButton : form.idx = 2) :
    FormComputes (fun polls => enterForm polls form.form) []
      (.entered (some (form.login, form.password))) := by
  refine ⟨_, rfl, fun later more state isPads isImes => ?_⟩
  cases state
  cases isPads
  cases isImes
  simp [enterForm, LoginForm.form, atButton, Session.editFields]

/-- A text for the form, and whether the next field follows. -/
theorem enterForm_edit
    {ime : ImeResult}
    {imes : List ImeResult}
    {polls : List Keys}
    {form : LoginForm}
    {state : SessionState}
    (inside : form.idx < 2)
    (isImes : state.imes = ime :: imes) :
    enterForm polls form.form state =
      (if ime.confirmed then
        enterForm polls { (form.typed ime).form with idx := form.idx + 1 }
      else
        Session.formKeys polls (form.typed ime).form)
        { state with imes := imes } := by
  obtain ⟨login, password, formName, idx, entering⟩ := form
  match idx with
  | 0 =>
      cases confirmed : ime.confirmed <;>
        simp [enterForm, Session.editFields, Session.editField, isImes,
          LoginForm.typed, LoginForm.form, confirmed]
  | 1 =>
      cases confirmed : ime.confirmed <;>
        simp [enterForm, Session.editFields, Session.editField, isImes,
          LoginForm.typed, LoginForm.form, confirmed]

/-- The form on the display, wherever it waits, does what that of a session
does. -/
structure FormConcludes
    (outcome : Polled Waiting Answer)
    (inputs : List Input)
    (answer : Answer) :
    Prop where
  polling :
    ∀ form : LoginForm,
      outcome = .goesOn ⟨.login form, .polling⟩ →
      form.entering = false → form.idx ≤ 2 →
      FormComputes (fun polls => Session.formKeys polls form.form)
        inputs answer
  editing :
    ∀ form : LoginForm,
      outcome = .goesOn ⟨.login form, .editing⟩ → form.idx < 2 →
      FormComputes (fun polls => enterForm polls form.form)
        inputs answer

namespace FormConcludes

variable
  {form : LoginForm}
  {rest : List Input}

/-- A press in the form. -/
theorem press
    {keys : Keys}
    (follows :
      FormConcludes (Waiting.press ⟨.login form, .polling⟩ keys) rest answer)
    (later :
      Concludes (Waiting.press ⟨.login form, .polling⟩ keys) rest answer)
    (polling : form.entering = false)
    (inside : form.idx ≤ 2) :
    FormComputes (fun polls => Session.formKeys polls form.form)
      (.press keys :: rest) answer := by
  by_cases up : keys.up = true
  · refine FormComputes.press (follows.polling
      { form with
        idx := if form.idx > 0 then form.idx - 1 else form.idx }
      ?_ polling ?_) fun rest => ?_
    · simp [Waiting.press, Shown.pressed, up, Next.waits, Shown.waits,
        Shown.flipped, polling]
    · dsimp only
      split <;> omega
    · have moved :
          (if form.idx > 0 then form.idx - 1 else form.idx) =
            form.idx - 1 := by
        split <;> omega
      simp only [formKeys_cons, up, if_true, LoginForm.form, moved]
  by_cases down : keys.down = true
  · refine FormComputes.press (follows.polling
      { form with
        idx := if form.idx < 2 then form.idx + 1 else form.idx }
      ?_ polling ?_) fun rest => ?_
    · simp [Waiting.press, Shown.pressed, up, down, Next.waits,
        Shown.waits, Shown.flipped, polling]
    · dsimp only
      split <;> omega
    · simp only [formKeys_cons, up, down, if_true, if_false,
        Bool.false_eq_true, LoginForm.form]
  by_cases circle : keys.circle = true
  · have returns :
        Waiting.press ⟨.login form, .polling⟩ keys =
          .returns (.entered none) := by
      simp [Waiting.press, Shown.pressed, up, down, circle, Next.waits]
    rw [returns] at later
    cases later
    refine ⟨none, rfl, fun later more state _ isImes => ?_⟩
    subst isImes
    simp [Input.press?, formKeys_cons, up, down, circle]
  by_cases cross : keys.cross = true
  · have enters :
        Waiting.press ⟨.login form, .polling⟩ keys =
          (Shown.enter form).waits (.login form) keys := by
      simp [Waiting.press, Shown.pressed, up, down, circle, cross]
    have computes :
        FormComputes (fun polls => enterForm polls form.form) rest
          answer := by
      by_cases atButton : form.idx = 2
      · rw [enters, Shown.enter, if_pos atButton] at later
        cases later
        exact enterForm_button atButton
      · refine follows.editing form ?_ (by omega)
        rw [enters, Shown.enter, if_neg atButton]
        rfl
    refine computes.press fun polls => ?_
    simp only [formKeys_cons, up, down, circle, cross, if_true,
      if_false, Bool.false_eq_true]
  · refine FormComputes.press (follows.polling form ?_ polling inside)
      fun rest => ?_
    · simp [Waiting.press, Shown.pressed, up, down, circle, cross,
        Next.waits, Shown.waits, Shown.flipped, polling]
    · simp only [formKeys_cons, up, down, circle, cross, if_false,
        Bool.false_eq_true]

/-- A text for the form. -/
theorem edit
    {ime : ImeResult}
    (follows :
      FormConcludes ((Shown.login form).edited ime).waits rest answer)
    (later : Concludes ((Shown.login form).edited ime).waits rest answer)
    (inside : form.idx < 2) :
    FormComputes (fun polls => enterForm polls form.form)
      (.edit ime :: rest) answer := by
  refine FormComputes.edit ?_ fun polls state imes isImes =>
    enterForm_edit inside isImes
  have sameIdx : (form.typed ime).idx = form.idx := by
    unfold LoginForm.typed
    split <;> rfl
  cases confirmed : ime.confirmed with
  | false =>
      refine follows.polling
        { form.typed ime with entering := false } ?_ rfl ?_
      · simp [Shown.edited, Shown.waits, Shown.flipped, confirmed]
      · exact sameIdx.trans_le inside.le
  | true =>
      by_cases lastField : form.idx + 1 = 2
      · simp only [Shown.edited, confirmed, if_true, sameIdx, Shown.waits,
          Shown.flipped, Shown.enter, lastField] at later
        cases later
        have button := @enterForm_button
          { form.typed ime with idx := 2, entering := true } rfl
        rwa [← lastField] at button
      · refine follows.editing { form.typed ime with
          idx := form.idx + 1, entering := true } ?_ ?_
        · simp [Shown.edited, confirmed, sameIdx, Shown.waits,
            Shown.flipped, Shown.enter, lastField]
        · dsimp only
          omega

end FormConcludes

/-- Every run of a form's inputs is one of a session's form. -/
theorem form_concludes
    {outcome : Polled Waiting Answer}
    (concludes : Concludes outcome inputs answer) :
    FormConcludes outcome inputs answer := by
  induction concludes with
  | returned answer =>
      constructor
      · rintro form ⟨⟩
      · rintro form ⟨⟩
  | @press waiting rest answer keys polls later inductionHypothesis =>
      constructor
      · rintro form ⟨⟩ polling inside
        exact inductionHypothesis.press later polling inside
      · rintro form ⟨⟩
        exact absurd rfl polls
  | @edit waiting rest answer ime editing later inductionHypothesis =>
      constructor
      · rintro form ⟨⟩
        cases editing
      · rintro form ⟨⟩ inside
        exact inductionHypothesis.edit later inside

/-- A dialog computes its answer from its inputs as that of a session does. -/
theorem Request.computes
    {request : Request}
    (concludes : Concludes request.shown.waits inputs answer) :
    request.Computes inputs answer := by
  cases request with
  | errorScreen message =>
      exact errorScreen_concludes concludes
  | errorDialog message =>
      exact errorDialog_computes concludes
  | notification message =>
      exact notification_computes concludes
  | statusMessage message =>
      cases concludes
      exact ⟨rfl, rfl⟩
  | networkList networks curNet =>
      rw [Request.shown] at concludes
      by_cases isEmpty : networks.length = 0
      · rw [if_pos isEmpty] at concludes
        obtain ⟨action, isAnswer, computes⟩ :=
          emptyList_computes isEmpty concludes
        refine ⟨(curNet, action), isAnswer, fun later => ?_⟩
        simp [showNetworkList, isEmpty, computes later]
      · rw [if_neg isEmpty] at concludes
        obtain ⟨choice, isAnswer, computes⟩ :=
          networkList_computes isEmpty concludes
        refine ⟨choice, isAnswer, fun later => ?_⟩
        have notEmpty : (networks.length : Int) ≠ 0 := by
          omega
        rw [showNetworkList, if_neg notEmpty]
        exact computes later
  | question msg =>
      exact question_computes concludes
  | login formName =>
      exact (form_concludes concludes).polling _ rfl rfl (Nat.zero_le 2)

end Hamachi.Display
