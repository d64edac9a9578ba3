import Hamachi.MainLoopRules

namespace Hamachi

/-!
# Every round leaks

`list_networks` enlarges the captured output by a terminator and parses it in
the new block, but frees neither this block nor hands it on.
-/

namespace App

open Program

/-- Every block allocated between two states has been freed; to free a block
twice is a fault. -/
def Balanced (before after : AppState) : Prop :=
  ∀ block,
    before.allocated < block →
      block ≤ after.allocated →
        block ∉ after.heap.live

/-- A block is live and nothing refers to it. -/
structure Spares (block : Addr) (state : AppState) : Prop where
  live : block ∈ state.heap.live
  allocated : block ≤ state.allocated
  notPopen : state.popenData ≠ block

/-- Freeing another block spares a block. -/
theorem live_of_release
    {heap released : Heap Cell}
    {block address : Addr}
    (live : block ∈ heap.live)
    (other : address ≠ block)
    (isReleased : heap.release (fun _ => none) address = .ok released) :
    block ∈ released.live := by
  unfold Heap.release at isReleased
  split at isReleased
  · cases isReleased
    exact live
  · split at isReleased <;> cases isReleased
    exact Finset.mem_erase.mpr ⟨other.symm, live⟩

/-- A store keeps the live blocks. -/
theorem live_of_store
    {heap stored : Heap Cell}
    {address : Addr}
    {cell : Cell}
    (isStored : heap.store address cell = .ok stored) :
    stored.live = heap.live := by
  obtain ⟨old, _, isSet⟩ := bind_eq_ok.mp isStored
  cases isSet
  rfl

/-- The main loop spares a block that nothing refers to. -/
theorem sparesDiscipline
    {block : Addr}
    (nonNull : block ≠ 0) :
    Discipline (Spares block) (fun address => address ≠ block)
      (fun _ => True) where
  null := nonNull.symm
  popenData := fun _ spares => spares.notPopen
  malloc := by
    intro state cell spares
    have older := spares.allocated
    refine ⟨(Nat.lt_succ_of_le older).ne', ?_, Nat.le_succ_of_le older,
      spares.notPopen⟩
    dsimp only
    rw [Heap.live_malloc _ (Nat.succ_ne_zero _)]
    exact Finset.mem_insert_of_mem spares.live
  free := fun _ _ _ spares other isReleased =>
    ⟨live_of_release spares.live other isReleased, spares.allocated,
      spares.notPopen⟩
  store := fun _ _ _ _ spares _ isStored =>
    ⟨live_of_store isStored ▸ spares.live, spares.allocated,
      spares.notPopen⟩
  popen := fun _ _ _ spares other => ⟨spares.live, spares.allocated, other⟩
  input := fun _ _ _ _ spares =>
    ⟨spares.live, spares.allocated, spares.notPopen⟩
  popenEvent := fun _ _ spares =>
    ⟨spares.live, spares.allocated, spares.notPopen⟩
  networkEvent := fun _ _ _ spares _ _ =>
    ⟨spares.live, spares.allocated, spares.notPopen⟩
  dialogEvent := fun _ _ spares =>
    ⟨spares.live, spares.allocated, spares.notPopen⟩
  waiting := trivial
  overflow := trivial
  fault := fun _ => trivial

/-- Blocks are only ever added to those allocated so far. -/
theorem grownDiscipline (count : Nat) :
    Discipline (fun state => count ≤ state.allocated) (fun _ => True)
      (fun _ => True) where
  null := trivial
  popenData := fun _ _ => trivial
  malloc := fun _ _ grown => ⟨trivial, Nat.le_succ_of_le grown⟩
  free := fun _ _ _ grown _ _ => grown
  store := fun _ _ _ _ grown _ _ => grown
  popen := fun _ _ _ grown _ => grown
  input := fun _ _ _ _ grown => grown
  popenEvent := fun _ _ grown => grown
  networkEvent := fun _ _ _ grown _ _ => grown
  dialogEvent := fun _ _ grown => grown
  waiting := trivial
  overflow := trivial
  fault := fun _ => trivial

/-- Blocks have been allocated, and `popen_data` is a null pointer. -/
structure Captured (count : Nat) (state : AppState) : Prop where
  grown : count ≤ state.allocated
  handedOut : state.popenData = 0

/-- After `my_popen` the statics of `popen.c` refer to no block. -/
theorem myPopen_captured
    {count : Nat}
    (argv : List (List Byte)) :
    Triple (fun state => count ≤ state.allocated) (myPopen 0 0 argv)
      (fun _ => Captured count) (fun _ _ => True) := by
  have discipline := grownDiscipline count
  have observes :
      Maintains (fun state => count ≤ state.allocated) (fun _ => True)
        (observe (.popen 0 0 argv)) fun _ => True :=
    .modify fun _ grown => grown
  have marks :
      Maintains (fun state : AppState => count ≤ state.allocated)
        (fun _ : Stopped => True)
        (modify fun state => { state with
          popen := { state.popen with isInPopen := true } })
        fun _ => True :=
    .modify fun _ grown => grown
  refine observes.before (fun _ _ _ _ => trivial) fun _ _ => ?_
  rw [if_neg (by simp)]
  refine marks.before (fun _ _ _ _ => trivial) fun _ _ => ?_
  refine discipline.runCommand.before (fun _ _ _ _ => trivial)
    fun _ _ state grown => ?_
  exact ⟨grown, rfl⟩

/-- The block that `list_networks` parses is new. -/
theorem realloc_spares
    {count : Nat}
    (address : Addr)
    (cell : Cell) :
    Triple (Captured count) (realloc address cell)
      (fun block after => count < block ∧ Spares block after)
      (fun _ _ => True) := by
  have freed : Triple (Captured count) (free address)
      (fun _ => Captured count) (fun _ _ => True) := by
    intro state captured
    cases isHeap : state.heap.release (fun _ => none) address with
    | error fault =>
        simp [free, isHeap, ofExcept]
    | ok heap =>
        simpa [free, isHeap, ofExcept] using
          ⟨captured.grown, captured.handedOut⟩
  refine freed.bind fun _ state captured => ?_
  refine ⟨Nat.lt_succ_of_le captured.grown, ?_, Nat.le_refl _, ?_⟩
  · simp [Heap.live_malloc _ (Nat.succ_ne_zero _)]
  · simp [captured.handedOut]

/-- `list_networks` leaves a new block that nothing refers to. -/
theorem listNetworks_leaks
    {count : Nat} :
    Triple (fun state => count ≤ state.allocated) listNetworks
      (fun result after =>
        ∃ block,
          count < block ∧ Spares block after ∧
            result.1 ≠ block ∧ 0 ≤ result.2)
      (fun _ _ => True) := by
  refine (myPopen_captured _).bind fun captured => ?_
  have reads :
      Maintains (Captured count) (fun _ : Stopped => True) read
        (Captured count) :=
    .read
  have loads :
      Maintains (Captured count) (fun _ => True) (bytesOf captured.1)
        fun _ => True :=
    maintains_bytesOf (fun _ => trivial) _
  refine reads.before (fun _ _ _ _ => trivial) fun state _ => ?_
  refine loads.before
    (fun _ _ _ _ => trivial) fun bytes _ => ?_
  refine (realloc_spares _ _).bind fun block => ?_
  rintro state ⟨isNew, spares⟩
  have discipline := sparesDiscipline (Nat.ne_zero_of_lt isNew)
  refine (discipline.ofExcept _).before (fun _ _ _ _ => trivial)
    (fun array _ => ?_) state spares
  split
  · exact fun _ _ => trivial
  · refine (discipline.mallocs _).before (fun _ _ _ _ => trivial)
      fun ans other state spares => ?_
    exact ⟨block, isNew, spares, other, Int.natCast_nonneg _⟩

/-- A round leaves a block that it allocated. -/
theorem round_leaks
    {count : Nat}
    {locals : Locals}
    (settled : Settled locals) :
    Triple (fun state => count ≤ state.allocated) (round locals)
      (fun _ after => ∃ block, count < block ∧ Spares block after)
      (fun _ _ => True) := by
  refine listNetworks_leaks.bind fun result => ?_
  rintro state ⟨block, isNew, spares, other, counted⟩
  have discipline := sparesDiscipline (Nat.ne_zero_of_lt isNew)
  refine Triple.weaken (discipline.roundOn settled other counted)
    (fun _ spares => spares) ?_ ?_ state spares
  · exact fun _ _ left => ⟨block, isNew, left.1⟩
  · exact fun _ _ _ => trivial

/-- In every run, every round that ends leaves a block that it allocated and
did not free. -/
theorem not_balanced_round
    (count : Nat)
    (pads : List Keys)
    (outputs : List (List (List Byte)))
    (imes : List ImeResult)
    (junk : Nat → Byte)
    {locals next : Locals}
    {state after : AppState}
    (reached :
      (main count).Returns (appStart pads outputs imes junk) locals state)
    (ends : (round locals).Returns state next after) :
    ¬ Balanced state after := by
  intro balanced
  have settled :=
    (Triple.returns ((grownDiscipline 0).main count) (Nat.zero_le _)
      reached).2
  obtain ⟨block, isNew, spares⟩ :=
    Triple.returns (round_leaks settled) (Nat.le_refl state.allocated) ends
  exact balanced block isNew spares.allocated spares.live

/-- The login succeeds, there are no networks, and the login form for a new one
is cancelled. -/
def cancelledStart : AppState :=
  appStart [{ triangle := true }, { circle := true }]
    [[chars "Logging in . ok\n"], []] [] fun _ => 0

/-- A round that ends, and leaves a block. -/
theorem not_balanced_cancelled :
    ∃ locals state next after,
      (main 0).Returns cancelledStart locals state ∧
        (round locals).Returns state next after ∧
        ¬ Balanced state after := by
  have completed :
      (main 0).completes cancelledStart
        (fun locals state => (round locals).completes state
          fun _ _ => true) = true := by
    decide +kernel
  obtain ⟨locals, state, reached, completed⟩ :=
    returns_of_completes completed
  obtain ⟨next, after, ends, _⟩ := returns_of_completes completed
  exact ⟨locals, state, next, after, reached, ends,
    not_balanced_round 0 _ _ _ _ reached ends⟩

/-- The second block of the run, the enlarged output of the list command, is
live when the round ends. -/
theorem leaked_cancelled :
    ¬ ∀ (count : Nat) (pads : List Keys) (outputs : List (List (List Byte)))
        (imes : List ImeResult) (junk : Nat → Byte) (locals next : Locals)
        (state after : AppState),
      (main count).Returns (appStart pads outputs imes junk) locals state →
        (round locals).Returns state next after → Balanced state after := by
  intro balanced
  have completed :
      (main 0).completes cancelledStart
        (fun locals state => (round locals).completes state
          fun _ after => decide
            (state.allocated < 2 ∧ 2 ≤ after.allocated ∧
              2 ∈ after.heap.live)) = true := by
    decide +kernel
  obtain ⟨locals, state, reached, completed⟩ :=
    returns_of_completes completed
  obtain ⟨next, after, ends, tested⟩ := returns_of_completes completed
  obtain ⟨isNew, isAllocated, isLive⟩ := of_decide_eq_true tested
  exact balanced 0 _ _ _ _ locals next state after reached ends 2 isNew
    isAllocated isLive

end App

end Hamachi
