import Hamachi.Screens
import Hamachi.Session

namespace Hamachi.Display

/-!
# The dialogs of `gui.cpp` as one machine

A dialog shows a screen, polls the pad and goes on with another screen until it
returns.  `doDumpLogs` opens a dialog on top of another one.
-/

/-- What `gui_login` has in its variables; `entering` in its inner loop, which
does not poll the pad. -/
structure LoginForm where
  login : List Byte
  password : List Byte
  formName : List Byte
  idx : Nat
  entering : Bool := false

/-- The form with a text in the field at its cursor. -/
def LoginForm.typed (ime : ImeResult) (form : LoginForm) : LoginForm :=
  if form.idx = 0 then
    { form with login := Session.string ime.text }
  else
    { form with password := Session.string ime.text }

/-- A dialog and what its variables hold. -/
inductive Shown where
  | errorScreen (message : List Byte)
  | errorDialog (message : List Byte) (ild : Bool)
  | notification (message : List Byte)
  | statusMessage (message : List Byte)
  | networkList (networks : List (List Byte)) (curNet : Int)
  | question (msg : List Byte) (choice : Bool)
  | login (form : LoginForm)

/-- What a dialog returns. -/
inductive Answer where
  | done
  | listAction (curNet : Int) (action : Action)
  | choice (ok : Bool)
  | entered (login : Option (List Byte × List Byte))
  deriving DecidableEq

/-- How a dialog goes on. -/
inductive Next where
  | redraw (shown : Shown)
  | dumpLogs
  | edit
  | returns (answer : Answer)

/-- A call of the functions of `gui.h`. -/
inductive Request where
  | errorScreen (message : List Byte)
  | errorDialog (message : List Byte)
  | notification (message : List Byte)
  | statusMessage (message : List Byte)
  | networkList (networks : List (List Byte)) (curNet : Int)
  | question (msg : List Byte)
  | login (formName : List Byte)

/-- What the dialog of a call shows first. -/
def Request.shown : Request → Shown
  | .errorScreen message => .errorScreen message
  | .errorDialog message => .errorDialog message false
  | .notification message => .notification message
  | .statusMessage message => .statusMessage message
  | .networkList networks curNet =>
      if networks.length = 0 then
        .networkList networks curNet
      else
        .networkList networks
          (if curNet ≥ networks.length then networks.length - 1 else curNet)
  | .question msg => .question msg false
  | .login formName =>
      .login { login := [], password := [], formName := formName, idx := 0 }

/-- The texts of the toolbox leave room for its last button. -/
def ToolboxFits (face : Byte → Option Glyph) : Prop :=
  textWidth face (chars "Create network") +
      textWidth face (chars "Connect to network") +
      textWidth face (chars "Leave network") ≤ 1605

/-- A call whose screens all fit. -/
def Request.Fits (face : Byte → Option Glyph) : Request → Prop
  | .networkList networks curNet =>
      FitsScreen networks curNet ∧ ToolboxFits face
  | _ => True

namespace Shown

/-- What a dialog draws before it flips. -/
def draw (face : Byte → Option Glyph) : Shown → List PixelWrite
  | errorScreen message =>
      drawError face message false
  | errorDialog message ild =>
      drawError face message ild ++ drawOk face
  | notification message =>
      drawSkeleton face ++ drawMessage face message ++ drawOk face
  | statusMessage message =>
      drawSkeleton face ++ drawMessage face message
  | networkList networks curNet =>
      if networks.length = 0 then
        drawSkeleton face ++
          drawMessage face (chars "You're not in any networks") ++
          drawNetworkListToolbox face
      else
        drawSkeleton face ++ drawNetworks face networks curNet ++
          drawNetworkListToolbox face
  | question msg choice =>
      drawSkeleton face ++ drawMessage face msg ++ drawChoice face choice
  | login form =>
      drawLoginForm face form.login form.password form.formName form.idx

/-- The head of the inner loop of `gui_login`. -/
def enter (form : LoginForm) : Next :=
  if form.idx = 2 then
    .returns (.entered (some (form.login, form.password)))
  else
    .edit

/-- What follows a flip at once; `none` is to poll the pad. -/
def flipped : Shown → Option Next
  | statusMessage _ => some (.returns .done)
  | login form => if form.entering then some (enter form) else none
  | _ => none

/-- What a dialog does with the keys of a poll. -/
def pressed : Shown → Keys → Next
  | errorScreen message, keys =>
      if keys.options then .dumpLogs else .redraw (errorScreen message)
  | errorDialog message ild, keys =>
      if !ild && keys.options then
        .dumpLogs
      else if keys.cross then
        .returns .done
      else
        .redraw (errorDialog message ild)
  | notification message, keys =>
      if keys.cross then
        .returns .done
      else
        .redraw (notification message)
  | statusMessage _, _ => .returns .done
  | networkList networks curNet, keys =>
      if networks.length = 0 then
        match emptyListKeys false keys with
        | .returns action => .returns (.listAction curNet action)
        | .goesOn true => .dumpLogs
        | .goesOn false => .redraw (networkList networks curNet)
      else
        match networkListKeys networks.length ⟨curNet, false⟩ keys with
        | .returns (curNet, action) => .returns (.listAction curNet action)
        | .goesOn ⟨_, true⟩ => .dumpLogs
        | .goesOn ⟨curNet, false⟩ => .redraw (networkList networks curNet)
  | question msg choice, keys =>
      match questionKeys choice keys with
      | .returns ok => .returns (.choice ok)
      | .goesOn choice => .redraw (question msg choice)
  | login form, keys =>
      if keys.up then
        .redraw (login { form with
          idx := if form.idx > 0 then form.idx - 1 else form.idx })
      else if keys.down then
        .redraw (login { form with
          idx := if form.idx < 2 then form.idx + 1 else form.idx })
      else if keys.circle then
        .returns (.entered none)
      else if keys.cross then
        enter form
      else
        .redraw (login form)

/-- The dialog after `doDumpLogs`, with the keys that it was called for. -/
def dumped : Shown → Keys → Next
  | errorDialog message ild, keys =>
      if keys.cross then
        .returns .done
      else
        .redraw (errorDialog message ild)
  | shown, _ => .redraw shown

/-- The dialog that tells what `dump_logs` returned. -/
def dumpResult : Option (List Byte) → Shown
  | none => notification (chars "Logs have been dumped to USB")
  | some err => errorDialog err true

/-- The form after the text dialog for the field at the cursor. -/
def edited (ime : ImeResult) : Shown → Shown
  | login form =>
      let form := form.typed ime
      login (if ime.confirmed then
          { form with idx := form.idx + 1, entering := true }
        else
          { form with entering := false })
  | shown => shown

/-- The drawing of a dialog fits the screen. -/
def Fits (face : Byte → Option Glyph) : Shown → Prop
  | networkList networks curNet =>
      (networks.length = 0 ∨ -1 ≤ curNet ∧ curNet ≤ 24) ∧ ToolboxFits face
  | _ => True

end Shown

end Hamachi.Display
