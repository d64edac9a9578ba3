import Hamachi.Gui
import Hamachi.NetworkList
import Hamachi.Popen
import Hamachi.Program

namespace Hamachi

/-!
# The main loop of the application

Each round lists the networks, shows them, and creates, joins or leaves one by a
command of the `hamachi` program.  Heap blocks are numbered in the order of
their allocation; an address that the host uses again is a new block.
-/

/-- A block of the heap: characters, or the result of `list_networks`. -/
inductive Cell where
  | chars (bytes : List Byte)
  | networks (names : List (List Byte))

/-- What the text dialog leaves in its buffer, and whether it ended with
`ORBIS_DIALOG_OK`. -/
structure ImeResult where
  text : List Byte
  short : text.length ≤ 2047
  confirmed : Bool
  deriving DecidableEq

/-- What a dialog showed, and what the user answered. -/
inductive Dialog where
  | chose (netCnt : Int) (choice : Int × Action)
  | asked (question : List Byte) (answer : Bool)
  | told (error : List Byte)
  deriving DecidableEq

/-- What can be observed of a run: calls of `my_popen` with the values behind
its pointers, accesses `netlist[netid]` to a list of `nnets`, and dialogs that
were answered. -/
inductive Event where
  | popen (buf : Addr) (sz : Nat) (argv : List (List Byte))
  | network (netid nnets : Int)
  | dialog (dialog : Dialog)

/-- The ways in which a run stops. -/
inductive Stopped where
  /-- nothing more is pressed, typed or printed -/
  | waiting
  /-- `abort` of `my_popen` -/
  | aborted
  /-- `netlist[netid]` outside of the list -/
  | badNetwork
  /-- `nnets` leaves the range of `int` -/
  | overflow
  | fault (fault : Fault)
  deriving DecidableEq

/-- The state of the application, and what it will still get from outside. -/
structure AppState where
  heap : Heap Cell
  /-- the number of blocks allocated so far -/
  allocated : Nat
  popen : Popen
  /-- `popen_data` -/
  popenData : Addr
  events : List Event
  pads : List Keys
  /-- what each command prints, block by block -/
  outputs : List (List (List Byte))
  imes : List ImeResult
  /-- what enlarged blocks end in -/
  junk : Nat → Byte

/-- A function of the application. -/
abbrev App (Result : Type) := Program AppState Stopped Result

namespace App

open Program

/-- Record an event. -/
def observe (event : Event) : App Unit :=
  modify fun state => { state with events := state.events ++ [event] }

/-- A computation that may fault. -/
def ofExcept : Except Fault Result → App Result
  | .ok result => pure result
  | .error fault => stop (.fault fault)

/-- `malloc`. -/
def malloc (cell : Cell) : App Addr := do
  let state ← read
  let address := state.allocated + 1
  modify fun state => { state with
    heap := state.heap.malloc address cell
    allocated := state.allocated + 1 }
  pure address

/-- `free`; a freed block is not read again. -/
def free (address : Addr) : App Unit := do
  let state ← read
  let heap ← ofExcept (state.heap.release (fun _ => none) address)
  modify fun state => { state with heap := heap }

/-- `realloc`. -/
def realloc (address : Addr) (cell : Cell) : App Addr := do
  free address
  malloc cell

/-- Write to a block. -/
def store (address : Addr) (cell : Cell) : App Unit := do
  let state ← read
  let heap ← ofExcept (state.heap.store address cell)
  modify fun state => { state with heap := heap }

/-- The characters of a block; there are none behind a null pointer. -/
def bytesOf (address : Addr) : App (List Byte) := do
  let state ← read
  if address = 0 then
    pure []
  else
    match ← ofExcept (state.heap.load address) with
    | .chars bytes => pure bytes
    | .networks _ => stop (.fault .invalidPointer)

/-- Read a string. -/
def text (address : Addr) : App (List Byte) := do
  let bytes ← bytesOf address
  ofExcept (textAt bytes 0)

/-- The block at `popen_data` after the statics `old` have become `popen`: it
is enlarged, written in place, or there is none. -/
def popenBlock (data : Addr) (old popen : Popen) : App Addr :=
  if popen.cap > old.cap then
    realloc data (.chars popen.data)
  else if data = 0 then
    pure 0
  else do
    store data (.chars popen.data)
    pure data

/-- `popen_write`. -/
def popenWrite (buf : List Byte) : App Unit := do
  let state ← read
  let popen ← ofExcept (state.popen.write buf buf.length state.junk)
  let data ← popenBlock state.popenData state.popen popen
  modify fun state => { state with popen := popen, popenData := data }

/-- The command that `my_popen` forks prints its output. -/
def runCommand : App Unit := do
  let state ← read
  match state.outputs with
  | [] => stop .waiting
  | output :: outputs => do
      modify fun state => { state with outputs := outputs }
      output.forM popenWrite

/-- `popen_get`. -/
def popenGet : App (Addr × Nat) := do
  let state ← read
  modify fun state => { state with popen := .empty, popenData := 0 }
  pure (state.popenData, state.popen.sz)

/-- `my_popen`: what the two pointers are set to. -/
def myPopen
    (ptr : Addr)
    (sz : Nat)
    (argv : List (List Byte)) : App (Addr × Nat) := do
  observe (.popen ptr sz argv)
  if ptr ≠ 0 ∨ sz ≠ 0 then
    stop .aborted
  else do
    modify fun state => { state with
      popen := { state.popen with isInPopen := true } }
    runCommand
    popenGet

/-- Run a dialog over the polls of the pad. -/
def poll (dialog : List Keys → Option (Result × List Keys)) : App Result := do
  let state ← read
  match dialog state.pads with
  | none => stop .waiting
  | some (result, pads) => do
      modify fun state => { state with pads := pads }
      pure result

/-- `gui_show_status_message`. -/
def guiShowStatusMessage (message : Addr) : App Unit := do
  let _ ← text message
  pure ()

/-- `gui_show_error_dialog`. -/
def guiShowErrorDialog (message : Addr) : App Unit := do
  let error ← text message
  let _ ← poll (pollUntil errorDialogKeys .shown)
  observe (.dialog (.told error))

/-- `gui_show_error_screen`, which does not return. -/
def guiShowErrorScreen (message : Addr) : App Unit := do
  let _ ← text message
  stop .waiting

/-- `gui_show_question`. -/
def guiShowQuestion (msg : Addr) : App Bool := do
  let question ← text msg
  let ans ← poll (pollUntil questionKeys false)
  observe (.dialog (.asked question ans))
  pure ans

/-- `gui_show_network_list`: the polls of its loop, without what is drawn. -/
def guiShowNetworkList (netCnt curNet : Int) : App (Int × Action) := do
  let choice ← poll (showNetworkList netCnt curNet)
  observe (.dialog (.chose netCnt choice))
  pure choice

/-- The fields of the login form and its cursor. -/
structure LoginForm where
  login : Addr
  password : Addr
  idx : Nat

/-- The text dialog for the field at the cursor, in a buffer of 4096 bytes;
whether it was confirmed. -/
def editField (form : LoginForm) : App (LoginForm × Bool) := do
  let state ← read
  match state.imes with
  | [] => stop .waiting
  | ime :: imes => do
      modify fun state => { state with imes := imes }
      let cell := Cell.chars
        (ime.text ++ List.replicate (4096 - ime.text.length) 0)
      if form.idx = 0 then do
        let login ← realloc form.login cell
        pure ({ form with login := login }, ime.confirmed)
      else do
        let password ← realloc form.password cell
        pure ({ form with password := password }, ime.confirmed)

/-- The inner loop of `gui_login`, with that many fields below the cursor. -/
def editFields : Nat → LoginForm → App LoginForm
  | 0, form => pure form
  | below + 1, form => do
      let (form, confirmed) ← editField form
      if confirmed then
        editFields below { form with idx := form.idx + 1 }
      else
        pure form

/-- The outer loop of `gui_login` over the polls of the pad. -/
def loginKeys : List Keys → LoginForm → App (Addr × Addr)
  | [], _ => stop .waiting
  | keys :: rest, form => do
      modify fun state => { state with pads := rest }
      if keys.up then
        loginKeys rest { form with idx := form.idx - 1 }
      else if keys.down then
        loginKeys rest { form with
          idx := if form.idx < 2 then form.idx + 1 else form.idx }
      else if keys.circle then do
        free form.login
        free form.password
        pure (0, 0)
      else if keys.cross then do
        let form ← editFields (2 - form.idx) form
        if form.idx = 2 then
          pure (form.login, form.password)
        else
          loginKeys rest form
      else
        loginKeys rest form

/-- `gui_login`. -/
def guiLogin : App (Addr × Addr) := do
  let login ← malloc (.chars [0])
  let password ← malloc (.chars [0])
  let state ← read
  loginKeys state.pads ⟨login, password, 0⟩

/-- `concat3`. -/
def concat3 (s1 s2 s3 : List Byte) : App Addr :=
  malloc (.chars (s1 ++ s2 ++ s3 ++ [0]))

/-- `error_string`. -/
def errorString (data : Addr) (sz : Nat) : App Addr := do
  let bytes ← bytesOf data
  let state ← read
  if sz ≥ 5 ∧ (bytes.drop (sz - 5)).take 5 = chars ". ok\n" then do
    free data
    pure 0
  else
    realloc data
      (.chars ((reallocated bytes (sz + 1) state.junk).set sz 0))

/-- `errcmp`. -/
def errcmp (err : Addr) (needle : List Byte) : App Bool := do
  let err ← text err
  pure (!needle.isSuffixOf err)

/-- `list_networks`: the list and `*cnt`. -/
def listNetworks : App (Addr × Int) := do
  let (buf, sz) ← myPopen 0 0 [chars "hamachi", chars "list"]
  let state ← read
  let bytes ← bytesOf buf
  let bytes := (reallocated bytes (sz + 1) state.junk).set sz 0
  let _ ← realloc buf (.chars bytes)
  let array ← ofExcept (parseNetworks bytes sz)
  if array.nnets ≥ 2 ^ 31 then
    stop .overflow
  else do
    let ans ← malloc (.networks array.names)
    pure (ans, array.nnets)

/-- `netlist[netid]`. -/
def network (netlist : Addr) (nnets netid : Int) : App (List Byte) := do
  observe (.network netid nnets)
  if 0 ≤ netid ∧ netid < nnets then do
    let state ← read
    match ← ofExcept (state.heap.load netlist) with
    | .networks names =>
        match names[netid.toNat]? with
        | some name => pure name
        | none => stop (.fault .outOfBounds)
    | .chars _ => stop (.fault .invalidPointer)
  else
    stop .badNetwork

/-- The variables of `main` that last from one round to the next. -/
structure Locals where
  buf : Addr
  sz : Nat
  netid : Int

/-- Show a message with a name in it. -/
def showStatus (s1 s2 s3 : List Byte) : App Unit := do
  let msg ← concat3 s1 s2 s3
  guiShowStatusMessage msg
  free msg

/-- Ask a question with a name in it. -/
def askQuestion (s1 s2 s3 : List Byte) : App Bool := do
  let msg ← concat3 s1 s2 s3
  let ans ← guiShowQuestion msg
  free msg
  pure ans

/-- Show the error of a command, if there is one. -/
def showError (errs : Addr) : App Unit :=
  if errs ≠ 0 then do
    guiShowErrorDialog errs
    free errs
  else
    pure ()

/-- The branches of `main` for an action that asks for a name and a password. -/
def enterNetwork
    (message command : List Byte)
    (locals : Locals) : App Locals := do
  let (login, password) ← guiLogin
  if login ≠ 0 ∧ password ≠ 0 then do
    let name ← text login
    showStatus message name (chars "...")
    let secret ← text password
    let (buf, sz) ← myPopen locals.buf locals.sz
      [chars "hamachi", command, name, secret]
    free login
    free password
    let errs ← errorString buf sz
    showError errs
    pure { locals with buf := 0, sz := 0 }
  else
    pure locals

/-- `action == 1`. -/
def createNetwork : Locals → App Locals :=
  enterNetwork (chars "Creating ") (chars "create")

/-- `action == 2`. -/
def joinNetwork : Locals → App Locals :=
  enterNetwork (chars "Joining ") (chars "join")

/-- Run a command on the network at the cursor: `errs`, and the variables after
`buf = 0; sz = 0`. -/
def commandOn
    (netlist : Addr)
    (nnets : Int)
    (message command : List Byte)
    (locals : Locals) : App (Addr × Locals) := do
  let name ← network netlist nnets locals.netid
  showStatus message name (chars "...")
  let name ← network netlist nnets locals.netid
  let (buf, sz) ← myPopen locals.buf locals.sz
    [chars "hamachi", command, name]
  let errs ← errorString buf sz
  pure (errs, { locals with buf := 0, sz := 0 })

/-- `errs && !errcmp(errs, ". failed, denied\n")`. -/
def isDenied (errs : Addr) : App Bool :=
  if errs ≠ 0 then do
    let differs ← errcmp errs (chars ". failed, denied\n")
    pure (!differs)
  else
    pure false

/-- `action == 3`. -/
def leaveNetwork
    (netlist : Addr)
    (nnets : Int)
    (locals : Locals) : App Locals := do
  let name ← network netlist nnets locals.netid
  let ans ← askQuestion (chars "Do you want to leave ") name (chars "?")
  if !ans then
    pure locals
  else do
    let (errs, locals) ←
      commandOn netlist nnets (chars "Leaving ") (chars "leave") locals
    let denied ← isDenied errs
    if denied then do
      free errs
      let name ← network netlist nnets locals.netid
      let ans ← askQuestion (chars "You are the owner of ") name
        (chars ". Delete network?")
      if !ans then
        pure locals
      else do
        let (errs, locals) ←
          commandOn netlist nnets (chars "Deleting ") (chars "delete") locals
        showError errs
        pure locals
    else do
      showError errs
      pure locals

/-- The branches of `main` on the action. -/
def act
    (netlist : Addr)
    (nnets : Int)
    (locals : Locals) :
    Action → App Locals
  | .create => createNetwork locals
  | .join => joinNetwork locals
  | .delete => leaveNetwork netlist nnets locals

/-- A round of the loop of `main`, once the networks are listed. -/
def roundOn
    (netlist : Addr)
    (nnets : Int)
    (locals : Locals) : App Locals := do
  let (netid, action) ← guiShowNetworkList nnets locals.netid
  let locals ← act netlist nnets { locals with netid := netid } action
  free netlist
  pure locals

/-- One round of the loop of `main`. -/
def round (locals : Locals) : App Locals := do
  let (netlist, nnets) ← listNetworks
  roundOn netlist nnets locals

/-- That many rounds of the loop. -/
def rounds : Nat → Locals → App Locals
  | 0, locals => pure locals
  | count + 1, locals => do
      let locals ← round locals
      rounds count locals

/-- The error of the login ends the program, unless it is harmless. -/
def checkLogin (errs : Addr) : App Unit :=
  if errs ≠ 0 then do
    let message ← text errs
    if message ≠ chars "Already logged in.\n" then
      guiShowErrorScreen errs
    else
      pure ()
  else
    pure ()

/-- `main` from the login on, up to that many rounds of the loop. -/
def main (count : Nat) : App Locals := do
  let (buf, sz) ← myPopen 0 0 [chars "hamachi", chars "login"]
  let errs ← errorString buf sz
  checkLogin errs
  rounds count { buf := 0, sz := 0, netid := 0 }

end App

/-- The application before the login. -/
def appStart
    (pads : List Keys)
    (outputs : List (List (List Byte)))
    (imes : List ImeResult)
    (junk : Nat → Byte) : AppState where
  heap := .empty
  allocated := 0
  popen := .empty
  popenData := 0
  events := []
  pads := pads
  outputs := outputs
  imes := imes
  junk := junk

end Hamachi
