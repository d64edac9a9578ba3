import Hamachi.MainLoop
import Hamachi.NetworkListLines

namespace Hamachi

/-!
# Sessions

What the application is for, without its heap and its captured output: a
session lists the networks, asks the user, and runs commands.  It keeps the
story of what happened, with the polls that each dialog took and the texts that
were typed in it.
-/

/-- What happens in a session. -/
inductive Happening where
  | ran (argv : List (List Byte))
  | printed (output : List Byte)
  | chose
      (names : List (List Byte))
      (choice : Int × Action)
      (polls : List Keys)
  | filled
      (entered : Option (List Byte × List Byte))
      (polls : List Keys)
      (typed : List ImeResult)
  | asked (question : List Byte) (answer : Bool) (polls : List Keys)
  | told (error : List Byte) (polls : List Keys)
  deriving DecidableEq

/-- What a session still gets from outside, and its story. -/
structure SessionState where
  pads : List Keys
  outputs : List (List (List Byte))
  imes : List ImeResult
  story : List Happening

/-- A part of a session. -/
abbrev Session (Result : Type) := Program SessionState Stopped Result

namespace Session

open Program

def happen (happening : Happening) : Session Unit :=
  modify fun state => { state with story := state.story ++ [happening] }

/-- A dialog, with what it is in the story. -/
def watch
    (dialog : Session Result)
    (happening : Result → List Keys → List ImeResult → Happening) :
    Session Result := do
  let before ← read
  let result ← dialog
  let after ← read
  happen (happening result
    (before.pads.take (before.pads.length - after.pads.length))
    (before.imes.take (before.imes.length - after.imes.length)))
  pure result

def poll
    (dialog : List Keys → Option (Result × List Keys)) : Session Result := do
  let state ← read
  match dialog state.pads with
  | none => stop .waiting
  | some (result, pads) => do
      modify fun state => { state with pads := pads }
      pure result

/-- What a command prints. -/
def printed : Session (List Byte) := do
  let state ← read
  match state.outputs with
  | [] => stop .waiting
  | output :: outputs => do
      modify fun state => { state with outputs := outputs }
      happen (.printed output.flatten)
      pure output.flatten

/-- Run a command; the result is what it prints. -/
def command (argv : List (List Byte)) : Session (List Byte) := do
  happen (.ran argv)
  printed

/-- The text in front of the first terminator. -/
def string (bytes : List Byte) : List Byte :=
  bytes.takeWhile (· != 0)

/-- The error of a command, unless it ended well. -/
def errorOf (output : List Byte) : Option (List Byte) :=
  if chars ". ok\n" <:+ output then
    none
  else
    some (string output)

/-- The user does not own the network. -/
def Denied (error : Option (List Byte)) : Prop :=
  ∃ message ∈ error, chars ". failed, denied\n" <:+ message

instance (error : Option (List Byte)) : Decidable (Denied error) :=
  match error with
  | none => isFalse (by simp [Denied])
  | some message =>
      decidable_of_iff (chars ". failed, denied\n" <:+ message)
        (by simp [Denied])

def tell : Option (List Byte) → Session Unit
  | none => pure ()
  | some error =>
      watch (poll (pollUntil errorDialogKeys .shown))
        fun _ polls _ => .told error polls

def ask (question : List Byte) : Session Bool :=
  watch (poll (pollUntil questionKeys false))
    fun answer polls _ => .asked question answer polls

/-- The names of the networks. -/
def list : Session (List (List Byte)) := do
  let output ← command [chars "hamachi", chars "list"]
  if EndsLine output then
    if (networkNames output).length ≥ 2 ^ 31 then
      stop .overflow
    else
      pure (networkNames output)
  else
    stop (.fault .outOfBounds)

def choose (names : List (List Byte)) (cursor : Int) : Session (Int × Action) :=
  watch (poll (showNetworkList names.length cursor))
    fun choice polls _ => .chose names choice polls

/-- The login form and its cursor. -/
structure Form where
  login : List Byte
  password : List Byte
  idx : Nat

/-- The text dialog for the field at the cursor. -/
def editField (form : Form) : Session (Form × Bool) := do
  let state ← read
  match state.imes with
  | [] => stop .waiting
  | ime :: imes => do
      modify fun state => { state with imes := imes }
      if form.idx = 0 then
        pure ({ form with login := string ime.text }, ime.confirmed)
      else
        pure ({ form with password := string ime.text }, ime.confirmed)

/-- The text dialogs from the cursor on, until one is not confirmed. -/
def editFields : Nat → Form → Session Form
  | 0, form => pure form
  | below + 1, form => do
      let (form, confirmed) ← editField form
      if confirmed then
        editFields below { form with idx := form.idx + 1 }
      else
        pure form

/-- The login form over the polls of the pad. -/
def formKeys :
    List Keys → Form → Session (Option (List Byte × List Byte))
  | [], _ => stop .waiting
  | keys :: rest, form => do
      modify fun state => { state with pads := rest }
      if keys.up then
        formKeys rest { form with idx := form.idx - 1 }
      else if keys.down then
        formKeys rest { form with
          idx := if form.idx < 2 then form.idx + 1 else form.idx }
      else if keys.circle then
        pure none
      else if keys.cross then do
        let form ← editFields (2 - form.idx) form
        if form.idx = 2 then
          pure (some (form.login, form.password))
        else
          formKeys rest form
      else
        formKeys rest form

/-- A name and a password, unless the user gives up. -/
def fill : Session (Option (List Byte × List Byte)) :=
  watch
    (do
      let state ← read
      formKeys state.pads ⟨[], [], 0⟩)
    .filled

/-- Create or join the network that the user enters. -/
def enter (verb : List Byte) : Session Unit := do
  match ← fill with
  | none => pure ()
  | some (name, secret) => do
      let output ← command [chars "hamachi", verb, name, secret]
      tell (errorOf output)

/-- Leave a network, or delete it if the user owns it. -/
def leave (name : List Byte) : Session Unit := do
  let sure ← ask (chars "Do you want to leave " ++ name ++ chars "?")
  if !sure then
    pure ()
  else do
    let output ← command [chars "hamachi", chars "leave", name]
    if Denied (errorOf output) then do
      let sure ← ask
        (chars "You are the owner of " ++ name ++ chars ". Delete network?")
      if !sure then
        pure ()
      else do
        let output ← command [chars "hamachi", chars "delete", name]
        tell (errorOf output)
    else
      tell (errorOf output)

/-- What the user chose. -/
def act (names : List (List Byte)) : Int × Action → Session Unit
  | (_, .create) => enter (chars "create")
  | (_, .join) => enter (chars "join")
  | (cursor, .delete) =>
      match names[cursor.toNat]? with
      | some name => leave name
      | none => stop .badNetwork

/-- A round, which moves the cursor. -/
def round (cursor : Int) : Session Int := do
  let names ← list
  let choice ← choose names cursor
  act names choice
  pure choice.1

/-- That many rounds. -/
def rounds : Nat → Int → Session Int
  | 0, cursor => pure cursor
  | count + 1, cursor => do
      let cursor ← round cursor
      rounds count cursor

/-- An error of the login ends the session, unless it is harmless. -/
def checkLogin : Option (List Byte) → Session Unit
  | none => pure ()
  | some error =>
      if error ≠ chars "Already logged in.\n" then
        stop .waiting
      else
        pure ()

/-- A session of up to that many rounds. -/
def main (count : Nat) : Session Int := do
  let output ← command [chars "hamachi", chars "login"]
  checkLogin (errorOf output)
  rounds count 0

end Session

/-- A session before the login. -/
def sessionStart
    (pads : List Keys)
    (outputs : List (List (List Byte)))
    (imes : List ImeResult) : SessionState where
  pads := pads
  outputs := outputs
  imes := imes
  story := []

/-- The command that a happening runs. -/
def Happening.argv? : Happening → Option (List (List Byte))
  | .ran argv => some argv
  | _ => none

/-- The command that an event runs. -/
def Event.argv? : Event → Option (List (List Byte))
  | .popen _ _ argv => some argv
  | _ => none

/-- What passes between the application, its commands and its user. -/
inductive Exchange where
  | command (argv : List (List Byte))
  | dialog (dialog : Dialog)

def Exchange.argv? : Exchange → Option (List (List Byte))
  | .command argv => some argv
  | .dialog _ => none

/-- What is printed comes with the command, and what is entered in the form
goes into the next one. -/
def Happening.exchange? : Happening → Option Exchange
  | .ran argv => some (.command argv)
  | .printed _ => none
  | .chose names choice _ => some (.dialog (.chose names.length choice))
  | .filled _ _ _ => none
  | .asked question answer _ => some (.dialog (.asked question answer))
  | .told error _ => some (.dialog (.told error))

def Event.exchange? : Event → Option Exchange
  | .popen _ _ argv => some (.command argv)
  | .network _ _ => none
  | .dialog shown => some (.dialog shown)

@[simp] theorem Happening.exchange?_ran (argv : List (List Byte)) :
    (Happening.ran argv).exchange? = some (.command argv) :=
  rfl

@[simp] theorem Happening.exchange?_printed (output : List Byte) :
    (Happening.printed output).exchange? = none :=
  rfl

@[simp] theorem Event.exchange?_popen
    (buf : Addr)
    (sz : Nat)
    (argv : List (List Byte)) :
    (Event.popen buf sz argv).exchange? = some (.command argv) :=
  rfl

@[simp] theorem Event.exchange?_network (netid nnets : Int) :
    (Event.network netid nnets).exchange? = none :=
  rfl

@[simp] theorem Event.exchange?_dialog (shown : Dialog) :
    (Event.dialog shown).exchange? = some (.dialog shown) :=
  rfl

/-- The commands among what was exchanged. -/
theorem Happening.argv?_of_exchange (story : List Happening) :
    (story.filterMap Happening.exchange?).filterMap Exchange.argv? =
      story.filterMap Happening.argv? := by
  rw [List.filterMap_filterMap]
  congr 1
  funext happening
  cases happening <;> rfl

theorem Event.argv?_of_exchange (events : List Event) :
    (events.filterMap Event.exchange?).filterMap Exchange.argv? =
      events.filterMap Event.argv? := by
  rw [List.filterMap_filterMap]
  congr 1
  funext event
  cases event <;> rfl

end Hamachi
