import Hamachi.MainLoop

namespace Hamachi

/-!
# Invariants of the main loop

An invariant of the application that respects a choice of blocks is kept by
every function of the main loop, as long as a round starts with no captured
output and a cursor that is not negative.
-/

namespace App

open Program

/-- An invariant that survives the primitive steps: blocks may be freed and
written when they are among the chosen ones, and every new block is. -/
structure Discipline
    (Inv : AppState → Prop)
    (Own : Addr → Prop)
    (Stops : Stopped → Prop) : Prop where
  null : Own 0
  popenData : ∀ state, Inv state → Own state.popenData
  malloc :
    ∀ state cell, Inv state →
      Own (state.allocated + 1) ∧
        Inv { state with
          heap := state.heap.malloc (state.allocated + 1) cell
          allocated := state.allocated + 1 }
  free :
    ∀ state address heap, Inv state → Own address →
      state.heap.release (fun _ => none) address = .ok heap →
        Inv { state with heap := heap }
  store :
    ∀ state address cell heap, Inv state → Own address →
      state.heap.store address cell = .ok heap →
        Inv { state with heap := heap }
  popen :
    ∀ state popen data, Inv state → Own data →
      Inv { state with popen := popen, popenData := data }
  input :
    ∀ state pads outputs imes, Inv state →
      Inv { state with pads := pads, outputs := outputs, imes := imes }
  popenEvent :
    ∀ state argv, Inv state →
      Inv { state with events := state.events ++ [.popen 0 0 argv] }
  networkEvent :
    ∀ state netid nnets, Inv state → 0 ≤ netid → netid < nnets →
      Inv { state with events := state.events ++ [.network netid nnets] }
  dialogEvent :
    ∀ state dialog, Inv state →
      Inv { state with events := state.events ++ [.dialog dialog] }
  waiting : Stops .waiting
  overflow : Stops .overflow
  fault : ∀ fault, Stops (.fault fault)

/-- The variables of `main` between two rounds: no captured output, and a cursor
that is not negative. -/
structure Settled (locals : Locals) : Prop where
  buf : locals.buf = 0
  sz : locals.sz = 0
  netid : 0 ≤ locals.netid

/-- The variables after `buf = 0; sz = 0`. -/
theorem Settled.reset
    {locals : Locals}
    (settled : Settled locals) :
    Settled { locals with buf := 0, sz := 0 } :=
  ⟨rfl, rfl, settled.netid⟩

section Reads

variable
  {Inv : AppState → Prop}
  {Stops : Stopped → Prop}

/-- A computation that may fault leaves the state alone. -/
theorem maintains_ofExcept
    {Result : Type}
    (fault : ∀ fault, Stops (.fault fault))
    (outcome : Except Fault Result) :
    Maintains Inv Stops (ofExcept outcome)
      fun result => outcome = .ok result := by
  cases outcome with
  | error reason =>
      exact .stop (fault reason)
  | ok result =>
      exact .pure rfl

/-- Reading a block leaves the state alone. -/
theorem maintains_bytesOf
    (fault : ∀ fault, Stops (.fault fault))
    (address : Addr) :
    Maintains Inv Stops (bytesOf address) fun _ => True := by
  refine Maintains.read.bind fun state _ => ?_
  split
  · exact .pure trivial
  · refine (maintains_ofExcept fault _).bind fun cell _ => ?_
    cases cell with
    | chars bytes =>
        exact .pure trivial
    | networks names =>
        exact .stop (fault _)

end Reads

namespace Discipline

variable
  {Inv : AppState → Prop}
  {Own : Addr → Prop}
  {Stops : Stopped → Prop}

theorem ofExcept
    {Result : Type}
    (discipline : Discipline Inv Own Stops)
    (outcome : Except Fault Result) :
    Maintains Inv Stops (App.ofExcept outcome)
      fun result => outcome = .ok result :=
  maintains_ofExcept discipline.fault outcome

theorem mallocs
    (discipline : Discipline Inv Own Stops)
    (cell : Cell) :
    Maintains Inv Stops (App.malloc cell) Own :=
  fun state holds =>
    ⟨(discipline.malloc state cell holds).2,
      (discipline.malloc state cell holds).1⟩

theorem frees
    {address : Addr}
    (discipline : Discipline Inv Own Stops)
    (owns : Own address) :
    Maintains Inv Stops (App.free address) fun _ => True := by
  intro state holds
  cases isHeap : state.heap.release (fun _ => none) address with
  | error fault =>
      simpa [App.free, isHeap, App.ofExcept] using
        ⟨holds, discipline.fault fault⟩
  | ok heap =>
      simpa [App.free, isHeap, App.ofExcept] using
        discipline.free state address heap holds owns isHeap

theorem stores
    {address : Addr}
    (discipline : Discipline Inv Own Stops)
    (owns : Own address)
    (cell : Cell) :
    Maintains Inv Stops (App.store address cell) fun _ => True := by
  intro state holds
  cases isHeap : state.heap.store address cell with
  | error fault =>
      simpa [App.store, isHeap, App.ofExcept] using
        ⟨holds, discipline.fault fault⟩
  | ok heap =>
      simpa [App.store, isHeap, App.ofExcept] using
        discipline.store state address cell heap holds owns isHeap

theorem reallocs
    {address : Addr}
    (discipline : Discipline Inv Own Stops)
    (owns : Own address)
    (cell : Cell) :
    Maintains Inv Stops (App.realloc address cell) Own :=
  (discipline.frees owns).bind fun _ _ => discipline.mallocs cell

theorem bytesOf
    (discipline : Discipline Inv Own Stops)
    (address : Addr) :
    Maintains Inv Stops (App.bytesOf address) fun _ => True :=
  maintains_bytesOf discipline.fault address

theorem text
    (discipline : Discipline Inv Own Stops)
    (address : Addr) :
    Maintains Inv Stops (App.text address) fun _ => True :=
  (discipline.bytesOf address).bind fun _ _ =>
    (discipline.ofExcept _).weaken fun _ _ => trivial

theorem popenBlock
    {data : Addr}
    {old popen : Popen}
    (discipline : Discipline Inv Own Stops)
    (owns : Own data) :
    Maintains Inv Stops (App.popenBlock data old popen) Own := by
  unfold App.popenBlock
  split
  · exact discipline.reallocs owns _
  · split
    · exact .pure discipline.null
    · exact (discipline.stores owns _).bind fun _ _ => .pure owns

theorem popenWrite
    (discipline : Discipline Inv Own Stops)
    (buf : List Byte) :
    Maintains Inv Stops (App.popenWrite buf) fun _ => True := by
  refine Maintains.read.bind fun state holds => ?_
  have owns := discipline.popenData state holds
  refine (discipline.ofExcept _).bind fun popen _ => ?_
  refine (discipline.popenBlock owns).bind fun data isOwn => ?_
  exact .modify fun state holds =>
    discipline.popen state popen data holds isOwn

theorem runCommand
    (discipline : Discipline Inv Own Stops) :
    Maintains Inv Stops App.runCommand fun _ => True := by
  refine Maintains.read.bind fun state _ => ?_
  split
  · exact .stop discipline.waiting
  · rename_i output outputs _
    refine Maintains.bind (.modify fun state holds =>
      discipline.input state state.pads outputs state.imes holds) fun _ _ => ?_
    exact Maintains.forEach discipline.popenWrite output

theorem popenGet
    (discipline : Discipline Inv Own Stops) :
    Maintains Inv Stops App.popenGet fun result => Own result.1 := by
  refine Maintains.read.bind fun state holds => ?_
  have owns := discipline.popenData state holds
  refine Maintains.bind (.modify fun state holds =>
    discipline.popen state .empty 0 holds discipline.null) fun _ _ => ?_
  exact .pure owns

/-- `my_popen` is called with no captured output. -/
theorem myPopen
    (discipline : Discipline Inv Own Stops)
    (argv : List (List Byte)) :
    Maintains Inv Stops (App.myPopen 0 0 argv) fun result =>
      Own result.1 := by
  refine Maintains.bind (.modify fun state holds =>
    discipline.popenEvent state argv holds) fun _ _ => ?_
  rw [if_neg (by simp)]
  refine Maintains.bind (.modify fun state holds => ?_) fun _ _ => ?_
  · exact discipline.popen state { state.popen with isInPopen := true }
      state.popenData holds (discipline.popenData state holds)
  · exact discipline.runCommand.bind fun _ _ => discipline.popenGet

theorem poll
    {Result : Type}
    {Post : Result → Prop}
    {dialog : List Keys → Option (Result × List Keys)}
    (discipline : Discipline Inv Own Stops)
    (returns :
      ∀ pads result rest, dialog pads = some (result, rest) → Post result) :
    Maintains Inv Stops (App.poll dialog) Post := by
  refine Maintains.read.bind fun state _ => ?_
  split
  · exact .stop discipline.waiting
  · rename_i result pads isResult
    refine Maintains.bind (.modify fun state holds =>
      discipline.input state pads state.outputs state.imes holds)
      fun _ _ => ?_
    exact .pure (returns _ result pads isResult)

theorem observeDialog
    (discipline : Discipline Inv Own Stops)
    (dialog : Dialog) :
    Maintains Inv Stops (App.observe (.dialog dialog)) fun _ => True :=
  .modify fun state => discipline.dialogEvent state dialog

theorem guiShowStatusMessage
    (discipline : Discipline Inv Own Stops)
    (message : Addr) :
    Maintains Inv Stops (App.guiShowStatusMessage message) fun _ => True :=
  (discipline.text message).bind fun _ _ => .pure trivial

theorem guiShowErrorDialog
    (discipline : Discipline Inv Own Stops)
    (message : Addr) :
    Maintains Inv Stops (App.guiShowErrorDialog message) fun _ => True := by
  refine (discipline.text message).bind fun _ _ => ?_
  refine (discipline.poll fun _ _ _ _ => trivial).bind fun _ _ => ?_
  exact discipline.observeDialog _

theorem guiShowErrorScreen
    (discipline : Discipline Inv Own Stops)
    (message : Addr) :
    Maintains Inv Stops (App.guiShowErrorScreen message) fun _ => True :=
  (discipline.text message).bind fun _ _ => .stop discipline.waiting

theorem guiShowQuestion
    (discipline : Discipline Inv Own Stops)
    (msg : Addr) :
    Maintains Inv Stops (App.guiShowQuestion msg) fun _ => True := by
  refine (discipline.text msg).bind fun _ _ => ?_
  refine (discipline.poll fun _ _ _ _ => trivial).bind fun _ _ => ?_
  exact (discipline.observeDialog _).bind fun _ _ => .pure trivial

theorem guiShowNetworkList
    {netCnt curNet : Int}
    (discipline : Discipline Inv Own Stops)
    (counted : 0 ≤ netCnt)
    (started : 0 ≤ curNet) :
    Maintains Inv Stops (App.guiShowNetworkList netCnt curNet)
      fun result =>
        0 ≤ result.1 ∧ (result.2 = .delete → result.1 < netCnt) := by
  refine (discipline.poll fun _ _ _ shown =>
    showNetworkList_returns counted started shown).bind fun choice inside => ?_
  exact (discipline.observeDialog _).bind fun _ _ => .pure inside

theorem editField
    {form : LoginForm}
    (discipline : Discipline Inv Own Stops)
    (owns : Own form.login ∧ Own form.password) :
    Maintains Inv Stops (App.editField form) fun result =>
      Own result.1.login ∧ Own result.1.password := by
  refine Maintains.read.bind fun state _ => ?_
  split
  · exact .stop discipline.waiting
  · rename_i ime imes _
    refine Maintains.bind (.modify fun state holds =>
      discipline.input state state.pads state.outputs imes holds)
      fun _ _ => ?_
    split
    · exact (discipline.reallocs owns.1 _).bind fun login isOwn =>
        .pure ⟨isOwn, owns.2⟩
    · exact (discipline.reallocs owns.2 _).bind fun password isOwn =>
        .pure ⟨owns.1, isOwn⟩

theorem editFields
    {form : LoginForm}
    (discipline : Discipline Inv Own Stops)
    (owns : Own form.login ∧ Own form.password)
    (below : Nat) :
    Maintains Inv Stops (App.editFields below form) fun form =>
      Own form.login ∧ Own form.password := by
  induction below generalizing form with
  | zero =>
      exact .pure owns
  | succ below inductionHypothesis =>
      refine (discipline.editField owns).bind fun result isOwn => ?_
      obtain ⟨form, confirmed⟩ := result
      cases confirmed with
      | true =>
          exact inductionHypothesis isOwn
      | false =>
          exact .pure isOwn

theorem loginKeys
    {form : LoginForm}
    (discipline : Discipline Inv Own Stops)
    (owns : Own form.login ∧ Own form.password)
    (pads : List Keys) :
    Maintains Inv Stops (App.loginKeys pads form) fun result =>
      Own result.1 ∧ Own result.2 := by
  induction pads generalizing form with
  | nil =>
      exact .stop discipline.waiting
  | cons keys rest inductionHypothesis =>
      refine Maintains.bind (.modify fun state holds =>
        discipline.input state rest state.outputs state.imes holds)
        fun _ _ => ?_
      split
      · exact inductionHypothesis owns
      · split
        · exact inductionHypothesis owns
        · split
          · exact (discipline.frees owns.1).bind fun _ _ =>
              (discipline.frees owns.2).bind fun _ _ =>
                .pure ⟨discipline.null, discipline.null⟩
          · split
            · refine (discipline.editFields owns _).bind fun form isOwn => ?_
              split
              · exact .pure isOwn
              · exact inductionHypothesis isOwn
            · exact inductionHypothesis owns

theorem guiLogin
    (discipline : Discipline Inv Own Stops) :
    Maintains Inv Stops App.guiLogin fun result =>
      Own result.1 ∧ Own result.2 :=
  (discipline.mallocs _).bind fun _ ownLogin =>
    (discipline.mallocs _).bind fun _ ownPassword =>
      Maintains.read.bind fun state _ =>
        discipline.loginKeys ⟨ownLogin, ownPassword⟩ state.pads

theorem errorString
    {data : Addr}
    (discipline : Discipline Inv Own Stops)
    (owns : Own data)
    (sz : Nat) :
    Maintains Inv Stops (App.errorString data sz) Own := by
  refine (discipline.bytesOf data).bind fun bytes _ =>
    Maintains.read.bind fun state _ => ?_
  split
  · exact (discipline.frees owns).bind fun _ _ => .pure discipline.null
  · exact discipline.reallocs owns _

theorem errcmp
    (discipline : Discipline Inv Own Stops)
    (err : Addr)
    (needle : List Byte) :
    Maintains Inv Stops (App.errcmp err needle) fun _ => True :=
  (discipline.text err).bind fun _ _ => .pure trivial

theorem listNetworks
    (discipline : Discipline Inv Own Stops) :
    Maintains Inv Stops App.listNetworks fun result =>
      Own result.1 ∧ 0 ≤ result.2 := by
  refine (discipline.myPopen _).bind fun captured owns => ?_
  refine Maintains.read.bind fun state _ => ?_
  refine (discipline.bytesOf _).bind fun bytes _ => ?_
  refine (discipline.reallocs owns _).bind fun _ _ => ?_
  refine (discipline.ofExcept _).bind fun array _ => ?_
  split
  · exact .stop discipline.overflow
  · exact (discipline.mallocs _).bind fun ans isOwn =>
      .pure ⟨isOwn, Int.natCast_nonneg _⟩

theorem network
    {nnets netid : Int}
    (discipline : Discipline Inv Own Stops)
    (inside : 0 ≤ netid ∧ netid < nnets)
    (netlist : Addr) :
    Maintains Inv Stops (App.network netlist nnets netid)
      fun _ => True := by
  refine Maintains.bind (.modify fun state holds =>
    discipline.networkEvent state netid nnets holds inside.1 inside.2)
    fun _ _ => ?_
  rw [if_pos inside]
  refine Maintains.read.bind fun state _ =>
    (discipline.ofExcept _).bind fun cell _ => ?_
  cases cell with
  | chars bytes =>
      exact .stop (discipline.fault _)
  | networks names =>
      dsimp only
      split
      · exact .pure trivial
      · exact .stop (discipline.fault _)

theorem showStatus
    (discipline : Discipline Inv Own Stops)
    (s1 s2 s3 : List Byte) :
    Maintains Inv Stops (App.showStatus s1 s2 s3) fun _ => True :=
  (discipline.mallocs _).bind fun msg isOwn =>
    (discipline.guiShowStatusMessage msg).bind fun _ _ =>
      discipline.frees isOwn

theorem askQuestion
    (discipline : Discipline Inv Own Stops)
    (s1 s2 s3 : List Byte) :
    Maintains Inv Stops (App.askQuestion s1 s2 s3) fun _ => True :=
  (discipline.mallocs _).bind fun msg isOwn =>
    (discipline.guiShowQuestion msg).bind fun _ _ =>
      (discipline.frees isOwn).bind fun _ _ => .pure trivial

theorem showError
    {errs : Addr}
    (discipline : Discipline Inv Own Stops)
    (owns : Own errs) :
    Maintains Inv Stops (App.showError errs) fun _ => True := by
  unfold App.showError
  split
  · exact (discipline.guiShowErrorDialog errs).bind fun _ _ =>
      discipline.frees owns
  · exact .pure trivial

theorem enterNetwork
    {locals : Locals}
    (discipline : Discipline Inv Own Stops)
    (settled : Settled locals)
    (message command : List Byte) :
    Maintains Inv Stops (App.enterNetwork message command locals)
      Settled := by
  refine discipline.guiLogin.bind fun result owns => ?_
  obtain ⟨login, password⟩ := result
  dsimp only
  split
  · refine (discipline.text login).bind fun name _ => ?_
    refine (discipline.showStatus _ _ _).bind fun _ _ => ?_
    refine (discipline.text password).bind fun secret _ => ?_
    rw [settled.buf, settled.sz]
    refine (discipline.myPopen _).bind fun captured isOwn => ?_
    refine (discipline.frees owns.1).bind fun _ _ => ?_
    refine (discipline.frees owns.2).bind fun _ _ => ?_
    refine (discipline.errorString isOwn _).bind fun errs ownErrs => ?_
    refine (discipline.showError ownErrs).bind fun _ _ => ?_
    exact .pure settled.reset
  · exact .pure settled

theorem commandOn
    {locals : Locals}
    {nnets : Int}
    (discipline : Discipline Inv Own Stops)
    (settled : Settled locals)
    (inside : locals.netid < nnets)
    (netlist : Addr)
    (message command : List Byte) :
    Maintains Inv Stops
      (App.commandOn netlist nnets message command locals)
      fun result => Own result.1 ∧ Settled result.2 ∧
        result.2.netid = locals.netid := by
  have access := discipline.network ⟨settled.netid, inside⟩ netlist
  refine access.bind fun name _ => ?_
  refine (discipline.showStatus _ _ _).bind fun _ _ => ?_
  refine access.bind fun name _ => ?_
  rw [settled.buf, settled.sz]
  refine (discipline.myPopen _).bind fun captured isOwn => ?_
  refine (discipline.errorString isOwn _).bind fun errs ownErrs => ?_
  exact .pure ⟨ownErrs, settled.reset, rfl⟩

theorem isDenied
    (discipline : Discipline Inv Own Stops)
    (errs : Addr) :
    Maintains Inv Stops (App.isDenied errs) fun _ => True := by
  unfold App.isDenied
  split
  · exact (discipline.errcmp errs _).bind fun _ _ => .pure trivial
  · exact .pure trivial

theorem leaveNetwork
    {locals : Locals}
    {nnets : Int}
    (discipline : Discipline Inv Own Stops)
    (settled : Settled locals)
    (inside : locals.netid < nnets)
    (netlist : Addr) :
    Maintains Inv Stops (App.leaveNetwork netlist nnets locals)
      Settled := by
  have access := discipline.network ⟨settled.netid, inside⟩ netlist
  refine access.bind fun name _ => ?_
  refine (discipline.askQuestion _ _ _).bind fun ans _ => ?_
  split
  · exact .pure settled
  · refine (discipline.commandOn settled inside netlist _ _).bind
      fun result left => ?_
    obtain ⟨errs, locals⟩ := result
    obtain ⟨ownErrs, settled, sameNetid⟩ := left
    have inside : locals.netid < nnets := sameNetid ▸ inside
    refine (discipline.isDenied errs).bind fun denied _ => ?_
    split
    · refine (discipline.frees ownErrs).bind fun _ _ => ?_
      have access := discipline.network ⟨settled.netid, inside⟩ netlist
      refine access.bind fun name _ => ?_
      refine (discipline.askQuestion _ _ _).bind fun ans _ => ?_
      split
      · exact .pure settled
      · refine (discipline.commandOn settled inside netlist _ _).bind
          fun result deleted => ?_
        refine (discipline.showError deleted.1).bind fun _ _ => ?_
        exact .pure deleted.2.1
    · exact (discipline.showError ownErrs).bind fun _ _ => .pure settled

theorem act
    {locals : Locals}
    {nnets : Int}
    {action : Action}
    (discipline : Discipline Inv Own Stops)
    (settled : Settled locals)
    (inside : action = .delete → locals.netid < nnets)
    (netlist : Addr) :
    Maintains Inv Stops (App.act netlist nnets locals action) Settled := by
  cases action with
  | create =>
      exact discipline.enterNetwork settled _ _
  | join =>
      exact discipline.enterNetwork settled _ _
  | delete =>
      exact discipline.leaveNetwork settled (inside rfl) netlist

/-- A round from the network list on. -/
theorem roundOn
    {locals : Locals}
    {netlist : Addr}
    {nnets : Int}
    (discipline : Discipline Inv Own Stops)
    (settled : Settled locals)
    (owns : Own netlist)
    (counted : 0 ≤ nnets) :
    Maintains Inv Stops (App.roundOn netlist nnets locals) Settled := by
  refine (discipline.guiShowNetworkList counted settled.netid).bind
    fun result shown => ?_
  have moved : Settled { locals with netid := result.1 } :=
    ⟨settled.buf, settled.sz, shown.1⟩
  refine (discipline.act moved shown.2 netlist).bind fun locals settled => ?_
  exact (discipline.frees owns).bind fun _ _ => .pure settled

theorem round
    {locals : Locals}
    (discipline : Discipline Inv Own Stops)
    (settled : Settled locals) :
    Maintains Inv Stops (App.round locals) Settled :=
  discipline.listNetworks.bind fun _ listed =>
    discipline.roundOn settled listed.1 listed.2

theorem rounds
    {locals : Locals}
    (discipline : Discipline Inv Own Stops)
    (settled : Settled locals)
    (count : Nat) :
    Maintains Inv Stops (App.rounds count locals) Settled := by
  induction count generalizing locals with
  | zero =>
      exact .pure settled
  | succ count inductionHypothesis =>
      exact (discipline.round settled).bind fun _ settled =>
        inductionHypothesis settled

theorem checkLogin
    (discipline : Discipline Inv Own Stops)
    (errs : Addr) :
    Maintains Inv Stops (App.checkLogin errs) fun _ => True := by
  unfold App.checkLogin
  split
  · refine (discipline.text errs).bind fun message _ => ?_
    split
    · exact discipline.guiShowErrorScreen errs
    · exact .pure trivial
  · exact .pure trivial

theorem main
    (discipline : Discipline Inv Own Stops)
    (count : Nat) :
    Maintains Inv Stops (App.main count) Settled := by
  refine (discipline.myPopen _).bind fun captured owns => ?_
  refine (discipline.errorString owns _).bind fun errs _ => ?_
  refine (discipline.checkLogin errs).bind fun _ _ => ?_
  exact discipline.rounds ⟨rfl, rfl, Int.le_refl 0⟩ count

end Discipline

end App

end Hamachi
