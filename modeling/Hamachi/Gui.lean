import Mathlib.Data.Int.Order.Basic

namespace Hamachi

/-!
# The dialogs of `gui.cpp`

A dialog draws itself and polls the pad until a button ends it.  What it does
with the buttons is a function of the poll results; a list that runs out leaves
the dialog waiting.
-/

/-- The buttons that one `pollPad` reports. -/
structure Keys where
  up : Bool := false
  down : Bool := false
  left : Bool := false
  right : Bool := false
  cross : Bool := false
  circle : Bool := false
  square : Bool := false
  triangle : Bool := false
  options : Bool := false
  deriving DecidableEq

/-- What a dialog does with one poll. -/
inductive Polled (State Result : Type) where
  | goesOn (state : State)
  | returns (result : Result)

/-- Poll until the dialog returns; the result and the polls left. -/
def pollUntil
    (handle : State → Keys → Polled State Result) :
    State → List Keys → Option (Result × List Keys)
  | _, [] => none
  | state, keys :: rest =>
      match handle state keys with
      | .goesOn state => pollUntil handle state rest
      | .returns result => some (result, rest)

/-- The buttons of the network list. -/
inductive Action where
  | create
  | join
  | delete
  deriving DecidableEq

/-- The loop of `gui_show_network_list` without networks; `dumping` while
`doDumpLogs` shows its message. -/
def emptyListKeys (dumping : Bool) (keys : Keys) : Polled Bool Action :=
  if dumping then
    .goesOn (!keys.cross)
  else if keys.triangle then
    .returns .create
  else if keys.square then
    .returns .join
  else
    .goesOn keys.options

/-- The cursor of the network list, and whether `doDumpLogs` shows its
message. -/
structure ListCursor where
  curNet : Int
  dumping : Bool

/-- The loop of `gui_show_network_list` with networks. -/
def networkListKeys
    (netCnt : Int)
    (cursor : ListCursor)
    (keys : Keys) :
    Polled ListCursor (Int × Action) :=
  if cursor.dumping then
    .goesOn { cursor with dumping := !keys.cross }
  else if keys.up then
    .goesOn { cursor with
      curNet :=
        if cursor.curNet ≠ 0 then cursor.curNet - 1 else cursor.curNet }
  else if keys.down then
    .goesOn { cursor with
      curNet :=
        if cursor.curNet + 1 < netCnt then
          cursor.curNet + 1
        else
          cursor.curNet }
  else if keys.triangle then
    .returns (cursor.curNet, .create)
  else if keys.square then
    .returns (cursor.curNet, .join)
  else if keys.circle then
    .returns (cursor.curNet, .delete)
  else
    .goesOn { cursor with dumping := keys.options }

/-- `gui_show_network_list`: the cursor and the action. -/
def showNetworkList
    (netCnt curNet : Int)
    (pads : List Keys) :
    Option ((Int × Action) × List Keys) :=
  if netCnt = 0 then
    (pollUntil emptyListKeys false pads).map fun polled =>
      ((curNet, polled.1), polled.2)
  else
    let curNet := if curNet ≥ netCnt then netCnt - 1 else curNet
    pollUntil (networkListKeys netCnt) ⟨curNet, false⟩ pads

/-- The loop of `gui_show_question`; `true` is `OK`. -/
def questionKeys (choice : Bool) (keys : Keys) : Polled Bool Bool :=
  if keys.right then
    .goesOn true
  else if keys.left then
    .goesOn false
  else if keys.circle then
    .returns false
  else if keys.cross then
    .returns choice
  else
    .goesOn choice

/-- The error dialog itself, or `doDumpLogs` under it; `closes` when the cross
was pressed as well. -/
inductive ErrorDialog where
  | shown
  | dumping (closes : Bool)

/-- The loop of `showErrorDialog`. -/
def errorDialogKeys
    (dialog : ErrorDialog)
    (keys : Keys) : Polled ErrorDialog Unit :=
  match dialog with
  | .shown =>
      if keys.options then
        .goesOn (.dumping keys.cross)
      else if keys.cross then
        .returns ()
      else
        .goesOn .shown
  | .dumping closes =>
      if keys.cross then
        if closes then
          .returns ()
        else
          .goesOn .shown
      else
        .goesOn (.dumping closes)

/-- An invariant of the polls holds of what the dialog returns. -/
theorem pollUntil_returns
    {Inv : State → Prop}
    {Post : Result → Prop}
    {handle : State → Keys → Polled State Result}
    (goesOn :
      ∀ {state keys next},
        Inv state → handle state keys = .goesOn next → Inv next)
    (returns :
      ∀ {state keys result},
        Inv state → handle state keys = .returns result → Post result)
    {state : State}
    {pads rest : List Keys}
    {result : Result}
    (holds : Inv state)
    (polled : pollUntil handle state pads = some (result, rest)) :
    Post result := by
  induction pads generalizing state with
  | nil =>
      cases polled
  | cons keys pads inductionHypothesis =>
      rw [pollUntil] at polled
      split at polled
      · rename_i next isNext
        exact inductionHypothesis (goesOn holds isNext) polled
      · rename_i isResult
        cases polled
        exact returns holds isResult

/-- The cursor stays inside of the list. -/
theorem networkListKeys_returns
    {netCnt curNet : Int}
    {pads rest : List Keys}
    {result : Int × Action}
    (inside : 0 ≤ curNet ∧ curNet < netCnt)
    (polled :
      pollUntil (networkListKeys netCnt) ⟨curNet, false⟩ pads =
        some (result, rest)) :
    0 ≤ result.1 ∧ result.1 < netCnt := by
  refine @pollUntil_returns _ _
    (fun cursor => 0 ≤ cursor.curNet ∧ cursor.curNet < netCnt)
    (fun result => 0 ≤ result.1 ∧ result.1 < netCnt)
    _ ?_ ?_ _ _ _ _ inside polled
  · intro cursor keys next holds isNext
    unfold networkListKeys at isNext
    grind
  · intro cursor keys result holds isResult
    unfold networkListKeys at isResult
    grind

/-- The network list returns a cursor inside of the list; it offers to leave a
network only when there is one. -/
theorem showNetworkList_returns
    {netCnt curNet : Int}
    {pads rest : List Keys}
    {result : Int × Action}
    (counted : 0 ≤ netCnt)
    (started : 0 ≤ curNet)
    (shown : showNetworkList netCnt curNet pads = some (result, rest)) :
    0 ≤ result.1 ∧ (result.2 = .delete → result.1 < netCnt) := by
  unfold showNetworkList at shown
  split at shown
  · obtain ⟨⟨action, left⟩, polled, isResult⟩ :=
      Option.map_eq_some_iff.mp shown
    cases isResult
    refine ⟨started, fun isDelete => ?_⟩
    have notDelete : action ≠ .delete := by
      refine @pollUntil_returns _ _ (fun _ => True)
        (fun action => action ≠ .delete) _ ?_ ?_ _ _ _ _ trivial polled
      · exact fun _ _ => trivial
      · intro dumping keys result _ isResult
        unfold emptyListKeys at isResult
        grind
    exact absurd isDelete notDelete
  · have inside := networkListKeys_returns (by split <;> omega) shown
    exact ⟨inside.1, fun _ => inside.2⟩

end Hamachi
