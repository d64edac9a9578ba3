import Hamachi.Custody
import Hamachi.ResourceListOperations

namespace Hamachi.Handles

variable {Finaliser Payload State : Type}

/-!
# The order of actions in `resource_collect`

The loop of `resource_collect` reads a node, calls its finaliser, reads the node
again and frees it.  Here each of these actions also logs itself, so that what
the loop does to every block can be stated: nothing is read after it was freed,
and no back link is read at all.
-/

/-- What `resource_collect` does to a block. -/
inductive CollectAction (Finaliser Payload : Type) where
  | read (block : Addr)
  | finalise (free : Finaliser) (h : Addr) (payload : Payload)
  | release (block : Addr)
  deriving DecidableEq

namespace CollectAction

/-- A call of a finaliser, with the resource's own payload. -/
def finalisation? :
    CollectAction Finaliser Payload → Option (Finaliser × Addr × Payload)
  | finalise free h payload => some (free, h, payload)
  | _ => none

/-- The block that is freed. -/
def released? : CollectAction Finaliser Payload → Option Addr
  | release block => some block
  | _ => none

/-- A finaliser has its resource's block. -/
def uses : CollectAction Finaliser Payload → List Addr
  | read block => [block]
  | finalise _ h _ => [resourceOf h]
  | release _ => []

end CollectAction

/-- A block belongs to the list until it is freed. -/
def blockCustody : Custody (CollectAction Finaliser Payload) Addr where
  uses := CollectAction.uses
  gains := fun _ => none
  gives := CollectAction.released?

/-- Read a block. -/
def loadTraced
    (heap : Heap (Resource Finaliser Payload))
    (cur : Addr) :
    Except Fault
      (Resource Finaliser Payload ×
        List (CollectAction Finaliser Payload)) := do
  let block ← heap.load cur
  .ok (block, [.read cur])

/-- Call a finaliser. -/
def finaliseTraced
    (runtime : Runtime Finaliser Payload State)
    (free : Finaliser)
    (h : Addr)
    (payload : Payload)
    (state : State) :
    Except Fault (State × List (CollectAction Finaliser Payload)) := do
  let state ← runtime.finalise free h payload state
  .ok (state, [.finalise free h payload])

/-- Free a block. -/
def releaseTraced
    (runtime : Runtime Finaliser Payload State)
    (heap : Heap (Resource Finaliser Payload))
    (cur : Addr) :
    Except Fault
      (Heap (Resource Finaliser Payload) ×
        List (CollectAction Finaliser Payload)) := do
  let heap ← heap.release runtime.scrub cur
  .ok (heap, [.release cur])

/-- The body of the loop of `resource_collect`. -/
def collectTurn
    (runtime : Runtime Finaliser Payload State)
    (handles : Handles Finaliser Payload)
    (state : State) :
    Except Fault
      (Handles Finaliser Payload × State ×
        List (CollectAction Finaliser Payload)) := do
  let cur := handles.list
  let (block, reads) ← loadTraced handles.heap cur
  if block.magic ≠ magic then
    .error .aborted
  else do
    let (state, finalises) ←
      finaliseTraced runtime block.free (handleOf cur) block.payload state
    let (finalised, readsAgain) ← loadTraced handles.heap cur
    let (heap, releases) ← releaseTraced runtime handles.heap cur
    .ok ({ handles with heap := heap, list := finalised.next }, state,
      reads ++ finalises ++ readsAgain ++ releases)

/-- The loop, with its actions. -/
def collectLoopTraced
    (runtime : Runtime Finaliser Payload State) :
    Nat →
    Handles Finaliser Payload →
    State →
    Except Fault
      (Handles Finaliser Payload × State ×
        List (CollectAction Finaliser Payload))
  | fuel, handles, state =>
      if handles.list = 0 then
        .ok (handles, state, [])
      else
        match fuel with
        | 0 => .error .outOfFuel
        | fuel + 1 => do
            let (handles, state, actions) ←
              collectTurn runtime handles state
            let (handles, state, later) ←
              collectLoopTraced runtime fuel handles state
            .ok (handles, state, actions ++ later)

/-- `resource_collect`, with its actions. -/
def resourceCollectTraced
    (runtime : Runtime Finaliser Payload State)
    (handles : Handles Finaliser Payload)
    (state : State) :
    Except Fault
      (Handles Finaliser Payload × State ×
        List (CollectAction Finaliser Payload)) := do
  let handles ← handles.acquire
  let (handles, state, actions) ←
    collectLoopTraced runtime handles.heap.live.card handles state
  .ok (handles.unlock, state, actions)

/-- The loop takes one turn after the other. -/
theorem collectLoop_turn
    (runtime : Runtime Finaliser Payload State)
    {handles : Handles Finaliser Payload}
    (nonempty : handles.list ≠ 0)
    (fuel : Nat)
    (state : State) :
    collectLoop runtime (fuel + 1) handles state =
      (do
        let (handles, state, _) ← collectTurn runtime handles state
        collectLoop runtime fuel handles state) := by
  rw [collectLoop, if_neg nonempty, collectTurn]
  dsimp only [loadTraced, finaliseTraced, releaseTraced]
  cases handles.heap.load handles.list with
  | error fault =>
      rfl
  | ok block =>
      simp only [ok_bind]
      split
      · rfl
      · simp only [bind_assoc, ok_bind]

/-- Listing the actions does not change the loop. -/
theorem collectLoop_traced
    (runtime : Runtime Finaliser Payload State)
    (fuel : Nat)
    (handles : Handles Finaliser Payload)
    (state : State) :
    collectLoop runtime fuel handles state =
      (do
        let (handles, state, _) ←
          collectLoopTraced runtime fuel handles state
        .ok (handles, state)) := by
  induction fuel generalizing handles state with
  | zero =>
      unfold collectLoop collectLoopTraced
      split <;> rfl
  | succ fuel inductionHypothesis =>
      by_cases isEmpty : handles.list = 0
      · unfold collectLoop collectLoopTraced
        rw [if_pos isEmpty, if_pos isEmpty]
        rfl
      · rw [collectLoop_turn runtime isEmpty, collectLoopTraced,
          if_neg isEmpty]
        simp only [inductionHypothesis, bind_assoc, ok_bind]

/-- Nor does it change `resource_collect`. -/
theorem resourceCollect_traced
    (runtime : Runtime Finaliser Payload State)
    (handles : Handles Finaliser Payload)
    (state : State) :
    handles.resourceCollect runtime state =
      (do
        let (handles, state, _) ←
          handles.resourceCollectTraced runtime state
        .ok (handles, state)) := by
  unfold resourceCollect resourceCollectTraced
  simp only [collectLoop_traced, bind_assoc, ok_bind]

/-- The calls of finalisers among some actions. -/
def finalisations
    (actions : List (CollectAction Finaliser Payload)) :
    List (Finaliser × Addr × Payload) :=
  actions.filterMap CollectAction.finalisation?

@[simp] theorem finalisations_nil :
    finalisations ([] : List (CollectAction Finaliser Payload)) = [] :=
  rfl

@[simp] theorem finalisations_append
    (leading trailing : List (CollectAction Finaliser Payload)) :
    finalisations (leading ++ trailing) =
      finalisations leading ++ finalisations trailing :=
  List.filterMap_append

/-- A runtime that also records which finalisers are called. -/
def recording
    (runtime : Runtime Finaliser Payload State) :
    Runtime Finaliser Payload
      (State × List (Finaliser × Addr × Payload)) where
  finalise := fun free h payload (state, called) => do
    let state ← runtime.finalise free h payload state
    .ok (state, called ++ [(free, h, payload)])
  scrub := runtime.scrub

/-- A turn calls the finalisers that it logs. -/
theorem collectTurn_recording
    (runtime : Runtime Finaliser Payload State)
    (handles : Handles Finaliser Payload)
    (state : State)
    (called : List (Finaliser × Addr × Payload)) :
    collectTurn (recording runtime) handles (state, called) =
      (do
        let (handles, state, actions) ← collectTurn runtime handles state
        .ok (handles, (state, called ++ finalisations actions),
          actions)) := by
  unfold collectTurn
  dsimp only [loadTraced, finaliseTraced, releaseTraced, recording]
  cases handles.heap.load handles.list with
  | error fault =>
      rfl
  | ok block =>
      simp only [ok_bind]
      split
      · rfl
      · simp only [bind_assoc, ok_bind]
        rfl

/-- The loop calls the finalisers that it logs. -/
theorem collectLoop_recording
    (runtime : Runtime Finaliser Payload State)
    (fuel : Nat)
    (handles : Handles Finaliser Payload)
    (state : State)
    (called : List (Finaliser × Addr × Payload)) :
    collectLoop (recording runtime) fuel handles (state, called) =
      (do
        let (handles, state, actions) ←
          collectLoopTraced runtime fuel handles state
        .ok (handles, state, called ++ finalisations actions)) := by
  induction fuel generalizing handles state called with
  | zero =>
      unfold collectLoop collectLoopTraced
      split
      · simp only [ok_bind, finalisations_nil, List.append_nil]
      · rfl
  | succ fuel inductionHypothesis =>
      by_cases isEmpty : handles.list = 0
      · unfold collectLoop collectLoopTraced
        rw [if_pos isEmpty, if_pos isEmpty]
        simp only [ok_bind, finalisations_nil, List.append_nil]
      · rw [collectLoop_turn _ isEmpty, collectLoopTraced, if_neg isEmpty,
          collectTurn_recording]
        simp only [inductionHypothesis, bind_assoc, ok_bind,
          finalisations_append, List.append_assoc]

/-- `resource_collect` calls the finalisers that it logs. -/
theorem resourceCollect_recording
    (runtime : Runtime Finaliser Payload State)
    (handles : Handles Finaliser Payload)
    (state : State) :
    handles.resourceCollect (recording runtime) (state, []) =
      (do
        let (handles, state, actions) ←
          handles.resourceCollectTraced runtime state
        .ok (handles, state, finalisations actions)) := by
  unfold resourceCollect resourceCollectTraced
  simp only [collectLoop_recording, bind_assoc, ok_bind, List.nil_append]

/-- What the loop does to one resource. -/
def actionsOf
    (resource : Tracked Finaliser Payload) :
    List (CollectAction Finaliser Payload) :=
  [.read resource.block,
    .finalise resource.free (handleOf resource.block) resource.payload,
    .read resource.block, .release resource.block]

section Segments

variable
  {handles : Handles Finaliser Payload}
  {link : Link}
  {resources : List (Tracked Finaliser Payload)}

/-- A turn takes the first resource off the list.  What its successor's back
link says does not matter: it is not read. -/
theorem collectTurn_segment
    (runtime : Runtime Finaliser Payload State)
    {resource : Tracked Finaliser Payload}
    (segment :
      Segment handles.heap link handles.list (resource :: resources) 0)
    (noDuplicates : (blocks (resource :: resources)).Nodup)
    (live :
      handles.heap.live = (blocks (resource :: resources)).toFinset) :
    ∃ changed : Handles Finaliser Payload,
      Segment changed.heap (.next resource.block) changed.list resources 0 ∧
        changed.heap.live = (blocks resources).toFinset ∧
        changed.lock = handles.lock ∧
        ∀ state,
          collectTurn runtime handles state =
            (do
              let state ←
                runtime.finalise resource.free (handleOf resource.block)
                  resource.payload state
              .ok (changed, state, actionsOf resource)) := by
  obtain ⟨isHead, next, loaded, later⟩ := segment
  obtain ⟨notLater, _⟩ :
      resource.block ∉ blocks resources ∧ (blocks resources).Nodup :=
    List.nodup_cons.mp noDuplicates
  obtain ⟨released, releases, releasedLive, others⟩ :=
    Heap.release_live runtime.scrub handles.heap (Heap.load_ne_null loaded)
      (by simp [live])
  refine ⟨{ handles with heap := released, list := next }, ?_, ?_, rfl,
    fun state => ?_⟩
  · exact later.congr fun address member =>
      others address fun same => notLater (same ▸ member)
  · change released.live = _
    rw [releasedLive, live, blocks_cons, List.toFinset_cons,
      Finset.erase_insert (mt List.mem_toFinset.mp notLater)]
  · unfold collectTurn loadTraced finaliseTraced releaseTraced
    simp only [isHead, loaded, ok_bind, bind_assoc, ne_eq,
      not_true_eq_false, ↓reduceIte, releases, actionsOf,
      List.cons_append, List.nil_append]

/-- The loop runs the finalisers from the front of the list. -/
theorem collectLoopTraced_segment
    (runtime : Runtime Finaliser Payload State)
    (segment : Segment handles.heap link handles.list resources 0)
    (noDuplicates : (blocks resources).Nodup)
    (live : handles.heap.live = (blocks resources).toFinset)
    (fuel : Nat)
    (enough : resources.length ≤ fuel) :
    ∃ collected : Handles Finaliser Payload,
      collected.list = 0 ∧
        collected.heap.live = ∅ ∧
        collected.lock = handles.lock ∧
        ∀ state,
          collectLoopTraced runtime fuel handles state =
            (do
              let state ← finaliseAll runtime resources state
              .ok (collected, state, resources.flatMap actionsOf)) := by
  induction resources generalizing handles link fuel with
  | nil =>
      have isNull : handles.list = 0 := segment
      refine ⟨handles, isNull, live, rfl, fun state => ?_⟩
      unfold collectLoopTraced
      rw [if_pos isNull]
      rfl
  | cons resource rest inductionHypothesis =>
      have nonempty : handles.list ≠ 0 := by
        rw [segment.1]
        exact segment.ne_null_of_mem List.mem_cons_self
      obtain ⟨changed, later, changedLive, sameLock, turns⟩ :=
        collectTurn_segment runtime segment noDuplicates live
      obtain ⟨fuel, rfl⟩ : ∃ less, fuel = less + 1 :=
        Nat.exists_eq_succ_of_ne_zero (by
          rintro rfl
          simp at enough)
      obtain ⟨collected, isEmpty, noneLive, lock, loops⟩ :=
        inductionHypothesis later (List.nodup_cons.mp noDuplicates).2
          changedLive fuel (by simpa using enough)
      refine ⟨collected, isEmpty, noneLive, lock.trans sameLock,
        fun state => ?_⟩
      rw [collectLoopTraced, if_neg nonempty]
      simp only [turns, loops, finaliseAll, bind_assoc, ok_bind,
        List.flatMap_cons]

end Segments

/-- Every block of the list is read and finalised before it is freed, and freed
once. -/
theorem settles_actions
    {resources : List (Tracked Finaliser Payload)}
    (noDuplicates : (blocks resources).Nodup) :
    blockCustody.Settles (blocks resources).toFinset
      (resources.flatMap actionsOf) := by
  induction resources with
  | nil =>
      rfl
  | cons resource rest inductionHypothesis =>
      obtain ⟨notLater, restNodup⟩ :
          resource.block ∉ blocks rest ∧ (blocks rest).Nodup :=
        List.nodup_cons.mp noDuplicates
      let owned := insert resource.block (blocks rest).toFinset
      have reads :
          blockCustody.after owned
              (.read resource.block :
                CollectAction Finaliser Payload) =
            some owned :=
        Custody.after_uses rfl rfl
          (by simp [owned, blockCustody, CollectAction.uses])
      have finalises :
          blockCustody.after owned
              (.finalise resource.free (handleOf resource.block)
                resource.payload) =
            some owned :=
        Custody.after_uses rfl rfl
          (by simp [owned, blockCustody, CollectAction.uses])
      have releases :
          blockCustody.after owned
              (.release resource.block :
                CollectAction Finaliser Payload) =
            some (blocks rest).toFinset :=
        Custody.after_gives_insert rfl rfl
          (by simp [blockCustody, CollectAction.uses])
          (mt List.mem_toFinset.mp notLater)
      rw [blocks_cons, List.toFinset_cons, List.flatMap_cons, actionsOf]
      simp only [List.cons_append, List.nil_append]
      rw [Custody.settles_cons reads, Custody.settles_cons finalises,
        Custody.settles_cons reads, Custody.settles_cons releases]
      exact inductionHypothesis restNodup

/-- The finalisers are called in the order of the list. -/
theorem finalisations_actions
    (resources : List (Tracked Finaliser Payload)) :
    finalisations (resources.flatMap actionsOf) =
      resources.map fun resource =>
        (resource.free, handleOf resource.block, resource.payload) := by
  induction resources with
  | nil =>
      rfl
  | cons resource rest inductionHypothesis =>
      rw [List.flatMap_cons, finalisations_append, inductionHypothesis]
      rfl

/-- The blocks are freed in the order of the list. -/
theorem releases_actions
    (resources : List (Tracked Finaliser Payload)) :
    (resources.flatMap actionsOf).filterMap CollectAction.released? =
      blocks resources := by
  induction resources with
  | nil =>
      rfl
  | cons resource rest inductionHypothesis =>
      rw [List.flatMap_cons, List.filterMap_append, inductionHypothesis]
      rfl

namespace Represents

variable
  {handles : Handles Finaliser Payload}
  {resources : List (Tracked Finaliser Payload)}

/-- `resource_collect` with its actions. -/
theorem resourceCollectTraced
    (runtime : Runtime Finaliser Payload State)
    (represents : Represents handles resources) :
    ∃ collected,
      Represents collected [] ∧
        ∀ state,
          handles.resourceCollectTraced runtime state =
            (do
              let state ← finaliseAll runtime resources state
              .ok (collected, state, resources.flatMap actionsOf)) := by
  have length :
      resources.length ≤ handles.heap.live.card := by
    rw [represents.liveBlocks,
      List.toFinset_card_of_nodup represents.blocksNodup]
    simp [blocks]
  obtain ⟨collected, isEmpty, noneLive, _, loops⟩ :=
    @collectLoopTraced_segment _ _ _ { handles with lock := true } _ _
      runtime represents.segment represents.blocksNodup
      represents.liveBlocks _ length
  refine ⟨collected.unlock, ⟨⟨isEmpty, List.nodup_nil, noneLive⟩, rfl⟩,
    fun state => ?_⟩
  unfold Handles.resourceCollectTraced acquire
  simp only [represents.unlocked, Bool.false_eq_true, ↓reduceIte, ok_bind,
    loops, bind_assoc]

/--
`resource_collect` runs every finaliser once, newest resource first, and leaves
an empty list.
-/
theorem resourceCollect
    (runtime : Runtime Finaliser Payload State)
    (represents : Represents handles resources) :
    ∃ collected,
      Represents collected [] ∧
        ∀ state,
          handles.resourceCollect runtime state =
            (do
              let state ← finaliseAll runtime resources state
              .ok (collected, state)) := by
  obtain ⟨collected, isEmpty, collects⟩ :=
    represents.resourceCollectTraced runtime
  refine ⟨collected, isEmpty, fun state => ?_⟩
  rw [resourceCollect_traced, collects]
  simp only [bind_assoc, ok_bind]

end Represents

/-- Finalisers that return let every list of resources be finalised. -/
theorem finaliseAll_returns
    {runtime : Runtime Finaliser Payload State}
    (finalisersReturn :
      ∀ free h payload state,
        ∃ finalised,
          runtime.finalise free h payload state = .ok finalised)
    (resources : List (Tracked Finaliser Payload))
    (state : State) :
    ∃ final, finaliseAll runtime resources state = .ok final := by
  induction resources generalizing state with
  | nil =>
      exact ⟨state, rfl⟩
  | cons resource rest inductionHypothesis =>
      obtain ⟨middle, finalises⟩ :=
        finalisersReturn resource.free (handleOf resource.block)
          resource.payload state
      obtain ⟨final, later⟩ := inductionHypothesis middle
      refine ⟨final, ?_⟩
      rw [finaliseAll, finalises]
      exact later

/-- `resource_collect` returns from every well-formed list.  It calls each
finaliser once, with its own payload, newest resource first, and frees each
block once; no block is read or finalised after it was freed; the list is empty
and unlocked at the end.  The state at the end is what the finalisers leave in
this order, and a runtime that records its calls sees these. -/
theorem resourceCollect_collects
    {runtime : Runtime Finaliser Payload State}
    (finalisersReturn :
      ∀ free h payload state,
        ∃ finalised,
          runtime.finalise free h payload state = .ok finalised)
    {handles : Handles Finaliser Payload}
    {resources : List (Tracked Finaliser Payload)}
    (represents : Represents handles resources)
    (state : State) :
    ∃ collected final actions,
      handles.resourceCollect runtime state = .ok (collected, final) ∧
        finaliseAll runtime resources state = .ok final ∧
        handles.resourceCollect (recording runtime) (state, []) =
          .ok (collected, final, resources.map fun resource =>
            (resource.free, handleOf resource.block, resource.payload)) ∧
        handles.resourceCollectTraced runtime state =
          .ok (collected, final, actions) ∧
        finalisations actions =
          resources.map (fun resource =>
            (resource.free, handleOf resource.block, resource.payload)) ∧
        actions.filterMap CollectAction.released? = blocks resources ∧
        blockCustody.Settles handles.heap.live actions ∧
        collected.list = 0 ∧
        collected.heap.live = ∅ ∧
        collected.lock = false := by
  obtain ⟨final, finalises⟩ :=
    finaliseAll_returns finalisersReturn resources state
  obtain ⟨collected, isEmpty, collects⟩ :=
    represents.resourceCollectTraced runtime
  have traced := collects state
  rw [finalises, ok_bind] at traced
  refine ⟨collected, final, resources.flatMap actionsOf, ?_, finalises, ?_,
    traced, finalisations_actions resources, releases_actions resources, ?_,
    isEmpty.segment, isEmpty.liveBlocks, isEmpty.unlocked⟩
  · rw [resourceCollect_traced, traced]
    rfl
  · rw [resourceCollect_recording, traced, ← finalisations_actions]
    rfl
  · rw [represents.liveBlocks]
    exact settles_actions represents.blocksNodup

/-- A runtime whose finalisers are logged. -/
def finaliserLog : Runtime Nat Nat (List (Nat × Addr × Nat)) where
  finalise := fun free h payload log =>
    .ok (log ++ [(free, h, payload)])
  scrub := fun _ => none

/-- A list of two resources. -/
def twoResources : Handles Nat Nat where
  heap :=
    { cell := fun address =>
        if address = 200 then
          some
            { magic := magic, next := 64, prev := .list,
              free := 2, payload := 20 }
        else if address = 64 then
          some
            { magic := magic, next := 0, prev := .next 200,
              free := 1, payload := 10 }
        else
          none
      live := {200, 64} }
  list := 200
  lock := false

private theorem represents_pair :
    Represents twoResources
      [{ block := 200, free := 2, payload := 20 },
        { block := 64, free := 1, payload := 10 }] :=
  ⟨⟨⟨rfl, 64, rfl, rfl, 0, rfl, rfl⟩, by decide, rfl⟩, rfl⟩

/-- Two resources are finalised and freed, the newer one first. -/
theorem resourceCollect_collects_pair :
    ∃ collected final actions,
      twoResources.resourceCollect finaliserLog [] = .ok (collected, final) ∧
        finaliseAll finaliserLog
            [{ block := 200, free := 2, payload := 20 },
              { block := 64, free := 1, payload := 10 }] [] =
          .ok final ∧
        twoResources.resourceCollect (recording finaliserLog) ([], []) =
          .ok (collected, final,
            [(2, handleOf 200, 20), (1, handleOf 64, 10)]) ∧
        twoResources.resourceCollectTraced finaliserLog [] =
          .ok (collected, final, actions) ∧
        finalisations actions =
          [(2, handleOf 200, 20), (1, handleOf 64, 10)] ∧
        actions.filterMap CollectAction.released? = [200, 64] ∧
        blockCustody.Settles twoResources.heap.live actions ∧
        collected.list = 0 ∧
        collected.heap.live = ∅ ∧
        collected.lock = false :=
  resourceCollect_collects (fun _ _ _ log => ⟨log ++ [_], rfl⟩)
    represents_pair []

end Hamachi.Handles
