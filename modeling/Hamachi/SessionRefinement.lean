import Hamachi.MainLoopRules
import Hamachi.SessionCapture

namespace Hamachi

/-!
# The application conducts sessions

Function by function the application does what the session does, whatever
blocks it holds besides.
-/

namespace App

open Program

variable {owned : Owned Cell}

section Errors

/-- The comparison of the last five bytes. -/
theorem endsWell_iff
    {bytes output : List Byte}
    (contents : bytes.take output.length = output) :
    (output.length ≥ 5 ∧
        (bytes.drop (output.length - 5)).take 5 = chars ". ok\n") ↔
      chars ". ok\n" <:+ output := by
  have five : (chars ". ok\n").length = 5 := rfl
  have last (long : output.length ≥ 5) :
      (bytes.drop (output.length - 5)).take 5 =
        output.drop (output.length - 5) := by
    have whole : (bytes.take output.length).drop (output.length - 5) =
        (bytes.drop (output.length - 5)).take 5 := by
      rw [List.drop_take]
      congr 1
      omega
    rw [← whole, contents]
  rw [List.suffix_iff_eq_drop, five]
  constructor
  · rintro ⟨long, same⟩
    rw [← same, last long]
  · intro same
    have long : output.length ≥ 5 := by
      have length := congrArg List.length same
      rw [five, List.length_drop] at length
      omega
    exact ⟨long, by rw [last long, ← same]⟩

/-- `error_string` keeps the error, if there is one. -/
theorem silent_errorString
    (result : Addr × Nat)
    (output : List Byte) :
    Silent (CapturedAt owned result output)
      (errorString result.1 result.2)
      fun errs => ErrorAt owned errs (Session.errorOf output) := by
  obtain ⟨data, sz⟩ := result
  rintro state session ⟨bytes, ⟨absent, size, contents, null⟩, shows⟩
  simp only at absent size null shows ⊢
  subst size
  have reads :
      Silent (Shows (owned.place data (.chars bytes))) (bytesOf data)
        fun result state session =>
          result = bytes ∧
            Shows (owned.place data (.chars bytes)) state session :=
    silent_bytesOf (Owned.place_same _) null
  have tail := endsWell_iff contents
  refine Silent.bind reads (fun other => Silent.known ?_) state session shows
  rintro rfl
  refine Silent.read fun current => ?_
  by_cases fine : chars ". ok\n" <:+ output
  · rw [if_pos (tail.mpr fine), Session.errorOf, if_pos fine]
    exact (silent_free absent).bind fun _ =>
      .pure fun _ _ shows => ⟨rfl, shows⟩
  · rw [if_neg (mt tail.mp fine), Session.errorOf, if_neg fine,
      terminated_block current.junk contents]
    refine (silent_realloc absent _).weaken (fun _ _ shows => shows) ?_
    rintro errs state session ⟨⟨proper, absent⟩, shows⟩
    exact ⟨output ++ [0], ⟨proper, absent, textAt_string output []⟩, shows⟩

/-- An error is freed. -/
theorem silent_free_error
    (errs : Addr)
    (error : Option (List Byte)) :
    Silent (ErrorAt owned errs error) (free errs) fun _ => Shows owned := by
  cases error with
  | none =>
      rintro state session ⟨rfl, shows⟩
      exact ⟨(), state, rfl, shows⟩
  | some message =>
      rintro state session ⟨bytes, ⟨_, absent, _⟩, shows⟩
      exact silent_free absent state session shows

/-- Whether the user owns the network. -/
theorem silent_isDenied
    (errs : Addr)
    (error : Option (List Byte)) :
    Silent (ErrorAt owned errs error) (isDenied errs)
      fun denied state session =>
        denied = decide (Session.Denied error) ∧
          ErrorAt owned errs error state session := by
  cases error with
  | none =>
      rintro state session ⟨rfl, shows⟩
      exact ⟨false, state, rfl, rfl, rfl, shows⟩
  | some message =>
      rintro state session ⟨bytes, ⟨proper, absent, reads⟩, shows⟩
      obtain ⟨read, after, returns, same, kept⟩ :=
        silent_text (Owned.place_same _ proper) reads state session shows
      rw [same] at returns
      refine ⟨!!(chars ". failed, denied\n").isSuffixOf message, after, ?_,
        ?_, bytes, ⟨proper, absent, reads⟩, kept⟩
      · simp only [isDenied, if_pos proper, errcmp, bind_apply, returns,
          pure_apply]
      · rw [Bool.not_not, Bool.eq_iff_iff, List.isSuffixOf_iff_suffix,
          decide_eq_true_eq, Session.Denied]
        simp

end Errors

section Dialogs

variable {Result : Type}

/-- The story goes on with a dialog when the application has observed it. -/
theorem simulates_watch
    {Answer Other : Type}
    {Before : AppState → SessionState → Prop}
    {program : App Result}
    {finish : Result → App Other}
    {dialog : Session Answer}
    {happening : Answer → List Keys → List ImeResult → Happening}
    {Between : Result → Answer → AppState → SessionState → Prop}
    {After : Other → Answer → AppState → SessionState → Prop}
    (simulates : Simulates Before program dialog Between Alike)
    (finishes :
      ∀ result answer polls typed,
        Simulates (Between result answer) (finish result)
          (do
            Session.happen (happening answer polls typed)
            pure answer)
          After Alike) :
    Simulates Before (program >>= finish) (Session.watch dialog happening)
      After Alike := by
  intro state session before
  have told :
      Simulates Before (program >>= finish)
        (do
          let answer ← dialog
          let after ← read
          Session.happen (happening answer
            (session.pads.take (session.pads.length - after.pads.length))
            (session.imes.take (session.imes.length - after.imes.length)))
          pure answer)
        After Alike :=
    simulates.bind fun result answer state image between =>
      finishes result answer _ _ state image between
  exact told state session before

/-- A happening that exchanges nothing. -/
theorem Shows.happen
    {state : AppState}
    {session : SessionState}
    {happening : Happening}
    (shows : Shows owned state session)
    (quiet : happening.exchange? = none) :
    Shows owned state
      { session with story := session.story ++ [happening] } :=
  { shows with
    exchanged := by
      simpa [List.filterMap_cons, quiet] using shows.exchanged }

/-- A dialog, and what it is in the story. -/
theorem Shows.answered
    {state : AppState}
    {session : SessionState}
    {dialog : Dialog}
    {happening : Happening}
    (shows : Shows owned state session)
    (same : happening.exchange? = some (.dialog dialog)) :
    Shows owned { state with events := state.events ++ [.dialog dialog] }
      { session with story := session.story ++ [happening] } :=
  { shows with
    exchanged := by
      simp [same, shows.exchanged] }

/-- Both poll the same buttons. -/
theorem simulates_poll
    (dialog : List Keys → Option (Result × List Keys)) :
    Simulates (Shows owned) (poll dialog) (Session.poll dialog)
      (fun result answer state session =>
        (result = answer ∧ ∃ pads rest, dialog pads = some (result, rest)) ∧
          Shows owned state session)
      Alike := by
  intro state session shows
  have same := shows.pads
  rcases polled : dialog session.pads with _ | ⟨result, pads⟩ <;>
    simp only [poll, Session.poll, bind_apply, read_apply, same, polled,
      stop_apply, modify_apply, pure_apply, Together]
  · exact ⟨trivial, shows.toAlike⟩
  · exact ⟨⟨trivial, _, _, polled⟩, { shows with pads := rfl }⟩

/-- A message with a name in it. -/
theorem silent_showStatus (s1 s2 s3 : List Byte) :
    Silent (Shows owned) (showStatus s1 s2 s3) fun _ => Shows owned := by
  refine (silent_malloc _).bind fun msg => Silent.known ?_
  rintro ⟨proper, absent⟩
  refine Silent.bind
    ((silent_text (Owned.place_same _ proper) (textAt_string _ [])).bind
      fun _ => .pure fun _ _ shows => shows.2)
    fun _ => silent_free absent

/-- A question with a name in it. -/
theorem simulates_askQuestion
    {s1 s2 s3 : List Byte}
    (clean : 0 ∉ s1 ++ s2 ++ s3) :
    Simulates (Shows owned) (askQuestion s1 s2 s3)
      (Session.ask (s1 ++ s2 ++ s3))
      (fun result answer state session =>
        result = answer ∧ Shows owned state session)
      Alike := by
  refine Simulates.silently (silent_malloc _) fun msg => Simulates.known ?_
  rintro ⟨proper, absent⟩
  have asks :
      Simulates
        (Shows (owned.place msg (.chars (s1 ++ s2 ++ s3 ++ [0]))))
        (guiShowQuestion msg) (Session.ask (s1 ++ s2 ++ s3))
        (fun result answer state session =>
          result = answer ∧
            Shows (owned.place msg (.chars (s1 ++ s2 ++ s3 ++ [0]))) state
              session)
        Alike := by
    refine Simulates.silently
      (silent_text (Owned.place_same _ proper) (textAt_string _ []))
      fun question => Simulates.known ?_
    rintro rfl
    rw [string_eq_self clean]
    refine simulates_watch (simulates_poll _) fun ans answer polls typed =>
      Simulates.known ?_
    rintro ⟨rfl, -⟩
    exact fun _ _ shows => ⟨rfl, shows.answered rfl⟩
  refine asks.quietly fun result answer => Silent.known ?_
  rintro rfl
  exact (silent_free absent).bind fun _ =>
    .pure fun _ _ shows => ⟨rfl, shows⟩

/-- The error of a command, if there is one. -/
theorem simulates_showError
    (errs : Addr)
    (error : Option (List Byte)) :
    Simulates (ErrorAt owned errs error) (showError errs)
      (Session.tell error) (fun _ _ => Shows owned) Alike := by
  cases error with
  | none =>
      rintro state session ⟨rfl, shows⟩
      exact shows
  | some message =>
      rintro state session ⟨bytes, ⟨proper, absent, reads⟩, shows⟩
      have dialog :
          Simulates (Shows (owned.place errs (.chars bytes)))
            (guiShowErrorDialog errs) (Session.tell (some message))
            (fun _ _ => Shows (owned.place errs (.chars bytes))) Alike := by
        refine Simulates.silently
          (silent_text (Owned.place_same _ proper) reads)
          fun error => Simulates.known ?_
        rintro rfl
        rw [Session.tell]
        refine simulates_watch (simulates_poll _) fun _ _ polls typed =>
          Simulates.known fun _ => ?_
        intro state session shows
        exact shows.answered rfl
      have closes := dialog.quietly fun _ _ => silent_free absent
      have run := closes state session shows
      rw [showError, if_pos proper]
      exact run

end Dialogs

section LoginForm

/-- The blocks of the login form hold what was entered. -/
structure FormBlocks
    (owned : Owned Cell)
    (login password : Addr)
    (loginBytes passwordBytes name secret : List Byte) : Prop where
  loginProper : login ≠ 0
  passwordProper : password ≠ 0
  different : login ≠ password
  loginAbsent : owned login = none
  passwordAbsent : owned password = none
  loginText : textAt loginBytes 0 = .ok name
  passwordText : textAt passwordBytes 0 = .ok secret

/-- The login form as the session has it. -/
def FormAt
    (owned : Owned Cell)
    (form : LoginForm)
    (entered : Session.Form)
    (state : AppState)
    (session : SessionState) : Prop :=
  ∃ loginBytes passwordBytes,
    (form.idx = entered.idx ∧
        FormBlocks owned form.login form.password loginBytes passwordBytes
          entered.login entered.password) ∧
      Shows
        ((owned.place form.login (.chars loginBytes)).place form.password
          (.chars passwordBytes))
        state session

/-- The result of the login form. -/
def EnteredAt
    (owned : Owned Cell)
    (result : Addr × Addr)
    (entered : Option (List Byte × List Byte))
    (state : AppState)
    (session : SessionState) : Prop :=
  match entered with
  | none => result = (0, 0) ∧ Shows owned state session
  | some (name, secret) =>
      ∃ loginBytes passwordBytes,
        FormBlocks owned result.1 result.2 loginBytes passwordBytes name
            secret ∧
          Shows
            ((owned.place result.1 (.chars loginBytes)).place result.2
              (.chars passwordBytes))
            state session

variable
  {login password : Addr}
  {loginBytes passwordBytes name secret : List Byte}

/-- What the text dialog leaves in its buffer. -/
theorem textAt_ime (ime : ImeResult) :
    textAt (ime.text ++ List.replicate (4096 - ime.text.length) 0) 0 =
      .ok (Session.string ime.text) := by
  have short := ime.short
  obtain ⟨rest, isRest⟩ : ∃ rest, 4096 - ime.text.length = rest + 1 :=
    ⟨4095 - ime.text.length, by omega⟩
  rw [isRest, List.replicate_succ]
  exact textAt_string _ _

/-- The blocks of the form, the other one first. -/
theorem FormBlocks.swap
    {state : AppState}
    {session : SessionState}
    (blocks :
      FormBlocks owned login password loginBytes passwordBytes name secret)
    (shows :
      Shows
        ((owned.place login (.chars loginBytes)).place password
          (.chars passwordBytes))
        state session) :
    Shows
      ((owned.place password (.chars passwordBytes)).place login
        (.chars loginBytes))
      state session := by
  rw [← Owned.place_comm _ _ blocks.different]
  exact shows

/-- A new block for the name. -/
theorem FormBlocks.realloc_login
    {bytes text : List Byte}
    (blocks :
      FormBlocks owned login password loginBytes passwordBytes name secret)
    (reads : textAt bytes 0 = .ok text) :
    Silent
      (Shows
        ((owned.place login (.chars loginBytes)).place password
          (.chars passwordBytes)))
      (realloc login (.chars bytes))
      fun address state session =>
        FormBlocks owned address password bytes passwordBytes text secret ∧
          Shows
            ((owned.place address (.chars bytes)).place password
              (.chars passwordBytes))
            state session := by
  have absent :
      owned.place password (.chars passwordBytes) login = none := by
    rw [Owned.place_other _ blocks.different]
    exact blocks.loginAbsent
  refine (silent_realloc absent (.chars bytes)).weaken
    (fun _ _ => blocks.swap) ?_
  rintro address state session ⟨⟨proper, newAbsent⟩, shows⟩
  have different : address ≠ password := by
    rintro rfl
    rw [Owned.place_same _ proper] at newAbsent
    cases newAbsent
  rw [Owned.place_other _ different] at newAbsent
  refine ⟨{ blocks with
    loginProper := proper
    different := different
    loginAbsent := newAbsent
    loginText := reads }, ?_⟩
  rw [Owned.place_comm _ _ different]
  exact shows

/-- A new block for the password. -/
theorem FormBlocks.realloc_password
    {bytes text : List Byte}
    (blocks :
      FormBlocks owned login password loginBytes passwordBytes name secret)
    (reads : textAt bytes 0 = .ok text) :
    Silent
      (Shows
        ((owned.place login (.chars loginBytes)).place password
          (.chars passwordBytes)))
      (realloc password (.chars bytes))
      fun address state session =>
        FormBlocks owned login address loginBytes bytes name text ∧
          Shows
            ((owned.place login (.chars loginBytes)).place address
              (.chars bytes))
            state session := by
  have absent : owned.place login (.chars loginBytes) password = none := by
    rw [Owned.place_other _ blocks.different.symm]
    exact blocks.passwordAbsent
  refine (silent_realloc absent (.chars bytes)).weaken
    (fun _ _ shows => shows) ?_
  rintro address state session ⟨⟨proper, newAbsent⟩, shows⟩
  have different : login ≠ address := by
    rintro rfl
    rw [Owned.place_same _ proper] at newAbsent
    cases newAbsent
  rw [Owned.place_other _ different.symm] at newAbsent
  exact ⟨{ blocks with
    passwordProper := proper
    different := different
    passwordAbsent := newAbsent
    passwordText := reads }, shows⟩

/-- The text dialog for one field. -/
theorem simulates_editField
    (form : LoginForm)
    (entered : Session.Form) :
    Simulates (FormAt owned form entered) (editField form)
      (Session.editField entered)
      (fun result answer state session =>
        result.2 = answer.2 ∧
          FormAt owned result.1 answer.1 state session)
      Alike := by
  rintro state session
    ⟨loginBytes, passwordBytes, ⟨sameIdx, blocks⟩, shows⟩
  have same := shows.imes
  cases isImes : session.imes with
  | nil =>
      rw [isImes] at same
      simpa [editField, Session.editField, same, isImes, Together] using
        shows.toAlike
  | cons ime imes =>
      rw [isImes] at same
      have begun :
          Shows
            ((owned.place form.login (.chars loginBytes)).place form.password
              (.chars passwordBytes))
            { state with imes := imes } { session with imes := imes } :=
        { shows with imes := rfl }
      simp only [editField, Session.editField, bind_apply, read_apply, same,
        isImes, modify_apply, ← sameIdx]
      by_cases first : form.idx = 0
      · obtain ⟨address, after, returns, kept, shown⟩ :=
          blocks.realloc_login (textAt_ime ime) _ _ begun
        simp only [if_pos first, bind_apply, returns, pure_apply, Together]
        exact ⟨trivial, _, _, ⟨rfl, kept⟩, shown⟩
      · obtain ⟨address, after, returns, kept, shown⟩ :=
          blocks.realloc_password (textAt_ime ime) _ _ begun
        simp only [if_neg first, bind_apply, returns, pure_apply, Together]
        exact ⟨trivial, _, _, ⟨rfl, kept⟩, shown⟩

/-- The text dialogs from the cursor on. -/
theorem simulates_editFields
    (below : Nat)
    (form : LoginForm)
    (entered : Session.Form) :
    Simulates (FormAt owned form entered) (editFields below form)
      (Session.editFields below entered) (FormAt owned) Alike := by
  induction below generalizing form entered with
  | zero =>
      exact .pure fun _ _ formAt => formAt
  | succ below inductionHypothesis =>
      refine (simulates_editField form entered).bind fun result answer => ?_
      obtain ⟨form, confirmed⟩ := result
      obtain ⟨entered, answered⟩ := answer
      refine Simulates.known ?_
      intro same
      simp only at same
      subst same
      cases confirmed with
      | false =>
          exact .pure fun _ _ formAt => formAt
      | true =>
          refine (inductionHypothesis _ _).weaken ?_ fun _ _ _ _ holds => holds
          rintro state session
            ⟨loginBytes, passwordBytes, ⟨sameIdx, blocks⟩, shows⟩
          exact ⟨loginBytes, passwordBytes,
            ⟨congrArg (· + 1) sameIdx, blocks⟩, shows⟩

theorem FormAt.idx
    {form : LoginForm}
    {entered : Session.Form}
    {state : AppState}
    {session : SessionState}
    (formAt : FormAt owned form entered state session) :
    form.idx = entered.idx := by
  obtain ⟨_, _, ⟨same, _⟩, _⟩ := formAt
  exact same

/-- The cursor of the form moves in both. -/
theorem FormAt.moved
    {form : LoginForm}
    {entered : Session.Form}
    {state : AppState}
    {session : SessionState}
    {idx other : Nat}
    (formAt : FormAt owned form entered state session)
    (same : idx = other) :
    FormAt owned { form with idx := idx } { entered with idx := other } state
      session := by
  obtain ⟨loginBytes, passwordBytes, ⟨-, blocks⟩, shows⟩ := formAt
  exact ⟨loginBytes, passwordBytes, ⟨same, blocks⟩, shows⟩

/-- Giving up frees both blocks. -/
theorem silent_cancel
    (form : LoginForm)
    (entered : Session.Form) :
    Silent (FormAt owned form entered)
      (do
        free form.login
        free form.password
        pure (0, 0))
      fun result => EnteredAt owned result none := by
  rintro state session ⟨loginBytes, passwordBytes, ⟨-, blocks⟩, shows⟩
  have absent :
      owned.place form.password (.chars passwordBytes) form.login = none := by
    rw [Owned.place_other _ blocks.different]
    exact blocks.loginAbsent
  have frees :
      Silent
        (Shows
          ((owned.place form.password (.chars passwordBytes)).place form.login
            (.chars loginBytes)))
        (do
          free form.login
          free form.password
          pure (0, 0))
        fun result => EnteredAt owned result none :=
    (silent_free absent).bind fun _ =>
      (silent_free blocks.passwordAbsent).bind fun _ =>
        .pure fun _ _ shows => ⟨rfl, shows⟩
  exact frees state session (blocks.swap shows)

/-- The loop of the login form. -/
theorem simulates_loginKeys
    (pads : List Keys)
    (form : LoginForm)
    (entered : Session.Form) :
    Simulates (FormAt owned form entered) (loginKeys pads form)
      (Session.formKeys pads entered) (EnteredAt owned) Alike := by
  induction pads generalizing form entered with
  | nil =>
      exact .stop fun _ _ ⟨_, _, _, shows⟩ => shows.toAlike
  | cons keys rest inductionHypothesis =>
      have polls :
          Simulates (FormAt owned form entered)
            (modify fun state => { state with pads := rest } : App Unit)
            (modify fun state => { state with pads := rest } : Session Unit)
            (fun _ _ => FormAt owned form entered)
            Alike := by
        rintro state session ⟨loginBytes, passwordBytes, facts, shows⟩
        exact ⟨loginBytes, passwordBytes, facts, { shows with pads := rfl }⟩
      refine polls.bind fun _ _ => Simulates.given (fun _ _ => FormAt.idx)
        fun sameIdx => ?_
      by_cases up : keys.up
      · simp only [up, if_true]
        exact (inductionHypothesis _ _).weaken
          (fun _ _ formAt => formAt.moved (by rw [sameIdx]))
          fun _ _ _ _ holds => holds
      by_cases down : keys.down
      · simp only [up, down, if_true, Bool.false_eq_true, if_false]
        exact (inductionHypothesis _ _).weaken
          (fun _ _ formAt => formAt.moved (by rw [sameIdx]))
          fun _ _ _ _ holds => holds
      by_cases circle : keys.circle
      · simp only [up, down, circle, if_true, Bool.false_eq_true, if_false]
        exact fun state session formAt => by
          obtain ⟨result, after, returns, holds⟩ :=
            silent_cancel form entered state session formAt
          rw [returns]
          exact holds
      by_cases cross : keys.cross
      · simp only [up, down, circle, cross, if_true, Bool.false_eq_true,
          if_false]
        rw [show 2 - form.idx = 2 - entered.idx by rw [sameIdx]]
        refine (simulates_editFields _ form entered).bind fun form entered =>
          Simulates.given (fun _ _ => FormAt.idx) fun sameIdx => ?_
        rw [sameIdx]
        by_cases complete : entered.idx = 2
        · rw [if_pos complete, if_pos complete]
          refine .pure ?_
          rintro state session
            ⟨loginBytes, passwordBytes, ⟨-, blocks⟩, shows⟩
          exact ⟨loginBytes, passwordBytes, blocks, shows⟩
        · rw [if_neg complete, if_neg complete]
          exact inductionHypothesis form entered
      · simp only [up, down, circle, cross, Bool.false_eq_true, if_false]
        exact inductionHypothesis form entered

/-- `gui_login` lets the user fill in the form. -/
theorem simulates_guiLogin :
    Simulates (Shows owned) guiLogin Session.fill (EnteredAt owned)
      Alike := by
  have fills :
      Simulates (Shows owned) guiLogin
        (do
          let state ← read
          Session.formKeys state.pads ⟨[], [], 0⟩)
        (EnteredAt owned) Alike := by
    refine Simulates.silently (silent_malloc _) fun login =>
      Simulates.known fun loginFacts => ?_
    refine Simulates.silently (silent_malloc _) fun password =>
      Simulates.known fun passwordFacts => ?_
    obtain ⟨loginProper, loginAbsent⟩ := loginFacts
    obtain ⟨passwordProper, passwordAbsent⟩ := passwordFacts
    have different : login ≠ password := by
      rintro rfl
      rw [Owned.place_same _ loginProper] at passwordAbsent
      cases passwordAbsent
    rw [Owned.place_other _ different.symm] at passwordAbsent
    intro state session shows
    show Together _ _ (loginKeys state.pads _ state)
      (Session.formKeys session.pads _ session)
    rw [shows.pads]
    refine simulates_loginKeys session.pads _ _ state session
      ⟨[0], [0], ⟨rfl, ?_⟩, shows⟩
    exact ⟨loginProper, passwordProper, different, loginAbsent,
      passwordAbsent, textAt_string [] [], textAt_string [] []⟩
  suffices told :
      Simulates (Shows owned) (guiLogin >>= pure) Session.fill
        (EnteredAt owned) Alike by
    rwa [andThen_pure] at told
  refine simulates_watch fills
    fun result answer polls typed state session entered => ?_
  cases answer with
  | none =>
      exact ⟨entered.1, entered.2.happen rfl⟩
  | some _ =>
      obtain ⟨loginBytes, passwordBytes, blocks, shows⟩ := entered
      exact ⟨loginBytes, passwordBytes, blocks, shows.happen rfl⟩

end LoginForm

section Rounds

theorem Shows.forget
    {address : Addr}
    {cell : Cell}
    {state : AppState}
    {session : SessionState}
    (shows : Shows (owned.place address cell) state session)
    (absent : owned address = none) :
    Shows owned state session :=
  { shows with backed := shows.backed.forget absent }

/-- `list_networks` finds the networks of the session. -/
theorem simulates_listNetworks :
    Simulates (Shows owned) listNetworks Session.list
      (fun result names state session =>
        ((result.1 ≠ 0 ∧ owned result.1 = none) ∧
            result.2 = names.length ∧ ∀ name ∈ names, 0 ∉ name) ∧
          Shows (owned.place result.1 (.networks names)) state session)
      Alike := by
  refine (simulates_myPopen _).bind fun result output => ?_
  obtain ⟨buf, sz⟩ := result
  refine Simulates.any fun bytes => Simulates.known ?_
  rintro ⟨absent, size, contents, null⟩
  simp only at absent size null ⊢
  subst size
  refine Simulates.read fun current => ?_
  refine Simulates.silently
    (silent_bytesOf (Owned.place_same _) null) fun read =>
      Simulates.known ?_
  rintro rfl
  rw [terminated_block current.junk contents]
  refine Simulates.silently (silent_realloc absent _) fun block =>
    Simulates.known fun blockFacts => ?_
  by_cases ends : EndsLine output
  · obtain ⟨array, lists, holds⟩ := listNetworks_ended ends
    have parsed :
        parseNetworks (output ++ [0]) output.length = .ok array :=
      lists
    have counted : array.names.length = array.nnets := by
      rw [holds.names_eq, holds.counted]
    rw [parsed, if_pos ends, ← holds.names_eq, counted]
    show Simulates _
      (if array.nnets ≥ 2 ^ 31 then
        stop .overflow
      else do
        let ans ← malloc (.networks array.names)
        pure (ans, (array.nnets : Int)))
      _ _ _
    by_cases overflows : array.nnets ≥ 2 ^ 31
    · rw [if_pos overflows, if_pos overflows]
      exact .stop fun _ _ shows => shows.toAlike
    · rw [if_neg overflows, if_neg overflows]
      -- The block that was parsed is lost here.
      refine Simulates.weaken ?_
        (fun _ _ shows => shows.forget blockFacts.2)
        fun _ _ _ _ holds => holds
      refine Simulates.silently (silent_malloc _) fun ans => .pure ?_
      rintro state session ⟨facts, shows⟩
      refine ⟨⟨facts, by rw [counted], fun name member => ?_⟩, shows⟩
      rw [holds.names_eq] at member
      exact noZero_of_name member
  · have fails :
        parseNetworks (output ++ [0]) output.length =
          .error .outOfBounds :=
      listNetworks_unended ends
    rw [fails, if_neg ends]
    exact fun _ _ shows => ⟨rfl, shows.toAlike⟩

/-- `netlist[netid]` is the name of a network. -/
theorem silent_network
    {netlist : Addr}
    {names : List (List Byte)}
    {name : List Byte}
    {netid : Int}
    (content : owned netlist = some (.networks names))
    (lower : 0 ≤ netid)
    (named : names[netid.toNat]? = some name) :
    Silent (Shows owned) (network netlist names.length netid)
      fun result state session =>
        result = name ∧ Shows owned state session := by
  intro state session shows
  obtain ⟨below, here⟩ := List.getElem?_eq_some_iff.mp named
  have inside : netid < names.length := by
    omega
  refine ⟨name, { state with
    events := state.events ++ [.network netid names.length] }, ?_, rfl,
    { shows with
      exchanged := by
        simpa [List.filterMap_cons] using shows.exchanged }⟩
  have loaded := shows.backed.load content
  simp [network, observe, lower, inside, loaded, ofExcept, here]

/-- The variables of `main` between two commands. -/
def idle (netid : Int) : Locals :=
  ⟨0, 0, netid⟩

/-- A command on a network, and its error. -/
theorem simulates_commandOn
    {netlist : Addr}
    {names : List (List Byte)}
    {name : List Byte}
    {netid : Int}
    (content : owned netlist = some (.networks names))
    (lower : 0 ≤ netid)
    (named : names[netid.toNat]? = some name)
    (message verb : List Byte) :
    Simulates (Shows owned)
      (commandOn netlist names.length message verb (idle netid))
      (Session.command [chars "hamachi", verb, name])
      (fun result output state session =>
        result.2 = idle netid ∧
          ErrorAt owned result.1 (Session.errorOf output) state session)
      Alike := by
  have reads := silent_network content lower named
  refine Simulates.silently reads fun first => Simulates.known fun _ => ?_
  refine Simulates.silently (silent_showStatus _ _ _) fun _ => ?_
  refine Simulates.silently reads fun second => Simulates.known ?_
  rintro rfl
  refine (simulates_myPopen _).quietly fun result output => ?_
  exact (silent_errorString result output).bind fun errs =>
    .pure fun _ _ errorAt => ⟨rfl, errorAt⟩

/-- A block is freed beside the output of a command. -/
theorem silent_free_captured
    {address : Addr}
    {cell : Cell}
    (proper : address ≠ 0)
    (absent : owned address = none)
    (result : Addr × Nat)
    (output : List Byte) :
    Silent (CapturedAt (owned.place address cell) result output)
      (free address) fun _ => CapturedAt owned result output := by
  rintro state session ⟨bytes, ⟨resultAbsent, facts⟩, shows⟩
  have different : result.1 ≠ address := by
    intro same
    rw [same, Owned.place_same _ proper] at resultAbsent
    cases resultAbsent
  rw [Owned.place_other _ different] at resultAbsent
  rw [Owned.place_comm _ _ different.symm] at shows
  have besideAbsent :
      owned.place result.1 (.chars bytes) address = none := by
    rw [Owned.place_other _ different.symm]
    exact absent
  obtain ⟨_, after, returns, kept⟩ :=
    silent_free besideAbsent state session shows
  exact ⟨(), after, returns, bytes, ⟨resultAbsent, facts⟩, kept⟩

/-- Creating or joining a network. -/
theorem simulates_enterNetwork
    (message verb : List Byte)
    (netid : Int) :
    Simulates (Shows owned) (enterNetwork message verb (idle netid))
      (Session.enter verb)
      (fun result _ state session =>
        result = idle netid ∧ Shows owned state session)
      Alike := by
  refine simulates_guiLogin.bind fun result entered => ?_
  obtain ⟨login, password⟩ := result
  cases entered with
  | none =>
      refine Simulates.known ?_
      rintro ⟨rfl, rfl⟩
      exact .pure fun _ _ shows => ⟨rfl, shows⟩
  | some entered =>
      obtain ⟨name, secret⟩ := entered
      refine Simulates.any fun loginBytes => Simulates.any fun passwordBytes =>
        Simulates.known fun blocks => ?_
      dsimp only at blocks ⊢
      rw [if_pos ⟨blocks.loginProper, blocks.passwordProper⟩]
      have loginContent :
          (owned.place login (.chars loginBytes)).place password
              (.chars passwordBytes) login =
            some (.chars loginBytes) := by
        rw [Owned.place_other _ blocks.different,
          Owned.place_same _ blocks.loginProper]
      refine Simulates.silently
        (silent_text loginContent blocks.loginText) fun read =>
          Simulates.known ?_
      rintro rfl
      refine Simulates.silently (silent_showStatus _ _ _) fun _ => ?_
      refine Simulates.silently
        (silent_text (Owned.place_same _ blocks.passwordProper)
          blocks.passwordText) fun read =>
          Simulates.known ?_
      rintro rfl
      refine (simulates_myPopen _).bind fun result output => ?_
      rw [Owned.place_comm _ _ blocks.different]
      refine Simulates.silently
        (silent_free_captured blocks.loginProper ?_ result output)
        fun _ => ?_
      · rw [Owned.place_other _ blocks.different]
        exact blocks.loginAbsent
      refine Simulates.silently
        (silent_free_captured blocks.passwordProper blocks.passwordAbsent
          result output)
        fun _ => ?_
      refine Simulates.silently (silent_errorString result output)
        fun errs => ?_
      exact (simulates_showError errs _).quietly fun _ _ =>
        .pure fun _ _ shows => ⟨rfl, shows⟩

theorem noZero_between
    {front name back : List Byte}
    (noZero : 0 ∉ name)
    (first : 0 ∉ front)
    (last : 0 ∉ back) :
    0 ∉ front ++ name ++ back := by
  rw [List.mem_append, List.mem_append]
  rintro ((inFront | inName) | inBack)
  · exact first inFront
  · exact noZero inName
  · exact last inBack

/-- Leaving a network, or deleting it. -/
theorem simulates_leaveNetwork
    {netlist : Addr}
    {names : List (List Byte)}
    {name : List Byte}
    {netid : Int}
    (content : owned netlist = some (.networks names))
    (lower : 0 ≤ netid)
    (named : names[netid.toNat]? = some name)
    (noZero : 0 ∉ name) :
    Simulates (Shows owned)
      (leaveNetwork netlist names.length (idle netid)) (Session.leave name)
      (fun result _ state session =>
        result = idle netid ∧ Shows owned state session)
      Alike := by
  have reads := silent_network content lower named
  refine Simulates.silently reads fun read => Simulates.known ?_
  rintro rfl
  refine (simulates_askQuestion ?_).bind fun ans sure =>
    Simulates.known ?_
  · exact noZero_between noZero (by decide) (by decide)
  rintro rfl
  cases ans with
  | false =>
      exact .pure fun _ _ shows => ⟨rfl, shows⟩
  | true =>
      refine (simulates_commandOn content lower named _ _).bind
        fun result output => Simulates.known fun settled => ?_
      obtain ⟨errs, locals⟩ := result
      simp only at settled
      subst settled
      refine Simulates.silently (silent_isDenied errs _) fun denied =>
        Simulates.known ?_
      rintro rfl
      by_cases denied : Session.Denied (Session.errorOf output)
      · rw [if_pos (decide_eq_true denied), if_pos denied]
        refine Simulates.silently (silent_free_error errs _) fun _ => ?_
        refine Simulates.silently reads fun read => Simulates.known ?_
        rintro rfl
        refine (simulates_askQuestion ?_).bind fun ans sure =>
          Simulates.known ?_
        · exact noZero_between noZero (by decide) (by decide)
        rintro rfl
        cases ans with
        | false =>
            exact .pure fun _ _ shows => ⟨rfl, shows⟩
        | true =>
            refine (simulates_commandOn content lower named _ _).bind
              fun result output => Simulates.known fun settled => ?_
            obtain ⟨errs, locals⟩ := result
            simp only at settled
            subst settled
            exact (simulates_showError errs _).quietly fun _ _ =>
              .pure fun _ _ shows => ⟨rfl, shows⟩
      · rw [if_neg (by simpa using denied), if_neg denied]
        exact (simulates_showError errs _).quietly fun _ _ =>
          .pure fun _ _ shows => ⟨rfl, shows⟩

/-- The branches of `main`. -/
theorem simulates_act
    {netlist : Addr}
    {names : List (List Byte)}
    {choice : Int × Action}
    (content : owned netlist = some (.networks names))
    (noZero : ∀ name ∈ names, 0 ∉ name)
    (lower : 0 ≤ choice.1)
    (inside : choice.2 = .delete → choice.1 < names.length) :
    Simulates (Shows owned)
      (act netlist names.length (idle choice.1) choice.2)
      (Session.act names choice)
      (fun result _ state session =>
        result = idle choice.1 ∧ Shows owned state session)
      Alike := by
  obtain ⟨netid, action⟩ := choice
  cases action with
  | create =>
      exact simulates_enterNetwork _ _ netid
  | join =>
      exact simulates_enterNetwork _ _ netid
  | delete =>
      have below : netid.toNat < names.length := by
        have bound : netid < names.length := inside rfl
        simp only at lower
        omega
      have named := List.getElem?_eq_getElem below
      have leaves :
          Session.act names (netid, .delete) =
            Session.leave names[netid.toNat] := by
        simp only [Session.act, named]
      rw [leaves]
      exact simulates_leaveNetwork content lower named
        (noZero _ (List.getElem_mem below))

/-- A round. -/
theorem simulates_round
    {cursor : Int}
    (lower : 0 ≤ cursor) :
    Simulates (Shows owned) (round (idle cursor)) (Session.round cursor)
      (fun result next state session =>
        (result = idle next ∧ 0 ≤ next) ∧ Shows owned state session)
      Alike := by
  refine simulates_listNetworks.bind fun result names =>
    Simulates.known fun facts => ?_
  obtain ⟨netlist, nnets⟩ := result
  obtain ⟨⟨proper, absent⟩, counted, noZero⟩ := facts
  simp only at proper absent counted ⊢
  subst counted
  have chooses :
      Simulates (Shows (owned.place netlist (.networks names)))
        (guiShowNetworkList names.length cursor)
        (Session.choose names cursor)
        (fun result answer state session =>
          (result = answer ∧ 0 ≤ result.1 ∧
              (result.2 = .delete → result.1 < names.length)) ∧
            Shows (owned.place netlist (.networks names)) state session)
        Alike := by
    refine simulates_watch (simulates_poll _) fun choice answer polls typed =>
      Simulates.known ?_
    rintro ⟨rfl, pads, rest, shown⟩ state session shows
    exact ⟨⟨rfl, showNetworkList_returns (Int.natCast_nonneg _) lower
      shown⟩, shows.answered rfl⟩
  refine chooses.bind fun choice answer => Simulates.known ?_
  rintro ⟨rfl, started, inside⟩
  have acts :=
    @simulates_act (owned.place netlist (.networks names)) netlist names
      choice (Owned.place_same _ proper) noZero started inside
  refine acts.bind fun locals _ => Simulates.known ?_
  rintro rfl
  exact Simulates.silently (silent_free absent) fun _ =>
    .pure fun _ _ shows => ⟨⟨rfl, started⟩, shows⟩

/-- Any number of rounds. -/
theorem simulates_rounds
    (count : Nat)
    {cursor : Int}
    (lower : 0 ≤ cursor) :
    Simulates (Shows owned) (rounds count (idle cursor))
      (Session.rounds count cursor)
      (fun result last state session =>
        result = idle last ∧ Shows owned state session)
      Alike := by
  induction count generalizing cursor with
  | zero =>
      exact .pure fun _ _ shows => ⟨rfl, shows⟩
  | succ count inductionHypothesis =>
      refine (simulates_round lower).bind fun locals next =>
        Simulates.known ?_
      rintro ⟨rfl, started⟩
      exact inductionHypothesis started

/-- The error of the login. -/
theorem simulates_checkLogin
    (errs : Addr)
    (error : Option (List Byte)) :
    Simulates (ErrorAt owned errs error) (checkLogin errs)
      (Session.checkLogin error) (fun _ _ => Shows owned) Alike := by
  cases error with
  | none =>
      rintro state session ⟨rfl, shows⟩
      exact shows
  | some message =>
      refine Simulates.any fun bytes => Simulates.known ?_
      rintro ⟨proper, absent, reads⟩
      have content := @Owned.place_same _ owned errs (.chars bytes) proper
      rw [checkLogin, if_pos proper]
      refine Simulates.silently (silent_text content reads) fun read =>
        Simulates.known ?_
      rintro rfl
      rw [Session.checkLogin]
      split
      · exact Simulates.silently (silent_text content reads) fun _ =>
          .stop fun _ _ shows => shows.2.toAlike
      · exact .pure fun _ _ shows => shows.forget absent

theorem simulates_main (count : Nat) :
    Simulates (Shows owned) (main count) (Session.main count)
      (fun result cursor state session =>
        result = idle cursor ∧ Shows owned state session)
      Alike := by
  refine (simulates_myPopen _).bind fun result output => ?_
  obtain ⟨buf, sz⟩ := result
  refine Simulates.silently (silent_errorString (buf, sz) output)
    fun errs => ?_
  exact (simulates_checkLogin errs _).bind fun _ _ =>
    simulates_rounds count le_rfl

end Rounds

/-- The application and the session, from the start. -/
theorem simulates_start
    (count : Nat)
    (pads : List Keys)
    (outputs : List (List (List Byte)))
    (imes : List ImeResult)
    (junk : Nat → Byte)
    (small : ∀ output ∈ outputs, output.flatten.length ≤ 2 ^ 63) :
    (main count (appStart pads outputs imes junk)).1 =
        (Session.main count (sessionStart pads outputs imes)).1.map idle ∧
      Alike (main count (appStart pads outputs imes junk)).2
        (Session.main count (sessionStart pads outputs imes)).2 := by
  have starts :
      Shows (fun _ => none) (appStart pads outputs imes junk)
        (sessionStart pads outputs imes) :=
    { pads := rfl
      outputs := rfl
      imes := rfl
      exchanged := rfl
      small := small
      backed := by
        rintro address block ⟨⟩
      empty := rfl
      noData := rfl }
  have together := simulates_main count _ _ starts
  rcases left : main count (appStart pads outputs imes junk) with
    ⟨reason | locals, after⟩ <;>
    rcases right : Session.main count (sessionStart pads outputs imes) with
      ⟨other | cursor, sessionAfter⟩ <;>
    simp only [left, right, Together] at together ⊢
  · exact ⟨congrArg Except.error together.1, together.2⟩
  · exact ⟨congrArg Except.ok together.1, together.2.toAlike⟩

end App

end Hamachi
