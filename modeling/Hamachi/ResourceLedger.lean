import Hamachi.HandlesRuns
import Hamachi.ResourceCollection

namespace Hamachi.Handles

/-!
# The life of every resource

The list of `handles.c` exists so that every resource is finalised once: by
`resource_free`, or by `resource_collect` when the program exits.  Here a run
of calls and the collection at its end are compared with a ledger, computed from
the calls alone, of the resources that are still open and of those that were
finalised.
-/

variable {Finaliser Payload State : Type}

namespace Call

/-- The finaliser that a call registers. -/
def registers? : Call Finaliser Payload → Option Finaliser
  | .alloc _ _ finaliser => some finaliser
  | _ => none

/-- The open resources after a call, newest first. -/
def ledger
    (resources : List (Tracked Finaliser Payload)) :
    Call Finaliser Payload → List (Tracked Finaliser Payload)
  | .alloc buf junk finaliser =>
      { block := buf, free := finaliser, payload := junk.payload } :: resources
  | .realloc h moved payload =>
      resources.map fun resource =>
        if resource.block = resourceOf h then
          { resource with block := moved, payload := payload }
        else
          resource
  | .free h =>
      resources.filter fun resource => resource.block ≠ resourceOf h

/-- The resources that a call finalises. -/
def finalises
    (resources : List (Tracked Finaliser Payload)) :
    Call Finaliser Payload → List (Tracked Finaliser Payload)
  | .free h =>
      resources.filter fun resource => resource.block = resourceOf h
  | _ => []

end Call

/-- The open resources after a sequence of calls. -/
def ledgerAfterAll
    (resources : List (Tracked Finaliser Payload))
    (calls : List (Call Finaliser Payload)) :
    List (Tracked Finaliser Payload) :=
  calls.foldl Call.ledger resources

/-- The resources that a sequence of calls finalises, in order. -/
def finalisedBy :
    List (Tracked Finaliser Payload) →
    List (Call Finaliser Payload) →
    List (Tracked Finaliser Payload)
  | _, [] => []
  | resources, call :: rest =>
      call.finalises resources ++ finalisedBy (call.ledger resources) rest

/-- The resources that are finalised until the program has exited. -/
def lifetimes
    (calls : List (Call Finaliser Payload)) :
    List (Tracked Finaliser Payload) :=
  finalisedBy [] calls ++ ledgerAfterAll [] calls

section Lists

variable
  {leading trailing : List (Tracked Finaliser Payload)}
  {resource : Tracked Finaliser Payload}

/-- The blocks of a ledger are the live blocks of the run. -/
theorem blocks_ledger
    (call : Call Finaliser Payload)
    (resources : List (Tracked Finaliser Payload)) :
    blocks (call.ledger resources) = call.liveAfter (blocks resources) := by
  cases call with
  | alloc buf junk free =>
      rfl
  | realloc h moved payload =>
      simp only [Call.ledger, Call.liveAfter, blocks, List.map_map]
      refine List.map_congr_left fun resource _ => ?_
      simp only [Function.comp_apply]
      split <;> rfl
  | free h =>
      simp only [Call.ledger, Call.liveAfter, blocks, List.filter_map]
      rfl

/-- Only one resource of a list without duplicates has its block. -/
theorem ne_block_of_split
    (noDuplicates : (blocks (leading ++ resource :: trailing)).Nodup) :
    (∀ other ∈ leading, other.block ≠ resource.block) ∧
      ∀ other ∈ trailing, other.block ≠ resource.block := by
  simp only [blocks_append, blocks_cons] at noDuplicates
  obtain ⟨notMember, _⟩ :=
    List.nodup_cons.mp (List.nodup_middle.mp noDuplicates)
  rw [List.mem_append, not_or] at notMember
  exact ⟨fun other member same =>
      notMember.1 (same ▸ List.mem_map_of_mem member),
    fun other member same =>
      notMember.2 (same ▸ List.mem_map_of_mem member)⟩

/-- A release on a split list. -/
theorem ledger_free_split
    (noDuplicates : (blocks (leading ++ resource :: trailing)).Nodup) :
    (Call.free (handleOf resource.block)).ledger
          (leading ++ resource :: trailing) =
        leading ++ trailing ∧
      (Call.free (handleOf resource.block)).finalises
          (leading ++ resource :: trailing) =
        [resource] := by
  obtain ⟨before, after⟩ := ne_block_of_split noDuplicates
  have keptBefore :
      leading.filter (fun other => other.block ≠ resource.block) = leading :=
    List.filter_eq_self.mpr fun other member => by
      simpa using before other member
  have keptAfter :
      trailing.filter (fun other => other.block ≠ resource.block) =
        trailing :=
    List.filter_eq_self.mpr fun other member => by
      simpa using after other member
  have noneBefore :
      leading.filter (fun other => other.block = resource.block) = [] :=
    List.filter_eq_nil_iff.mpr fun other member => by
      simpa using before other member
  have noneAfter :
      trailing.filter (fun other => other.block = resource.block) = [] :=
    List.filter_eq_nil_iff.mpr fun other member => by
      simpa using after other member
  constructor
  · rw [Call.ledger, resourceOf_handleOf, List.filter_append,
      List.filter_cons_of_neg (by simp), keptBefore, keptAfter]
  · rw [Call.finalises, resourceOf_handleOf, List.filter_append,
      List.filter_cons_of_pos (by simp), noneBefore, noneAfter,
      List.nil_append]

/-- A reallocation on a split list. -/
theorem ledger_realloc_split
    (noDuplicates : (blocks (leading ++ resource :: trailing)).Nodup)
    (moved : Addr)
    (payload : Payload) :
    (Call.realloc (handleOf resource.block) moved payload).ledger
        (leading ++ resource :: trailing) =
      leading ++ { resource with block := moved, payload := payload } ::
        trailing := by
  obtain ⟨before, after⟩ := ne_block_of_split noDuplicates
  have kept
      (others : List (Tracked Finaliser Payload))
      (different : ∀ other ∈ others, other.block ≠ resource.block) :
      others.map
          (fun other =>
            if other.block = resource.block then
              { other with block := moved, payload := payload }
            else
              other) =
        others :=
    (List.map_congr_left fun other member =>
      if_neg (different other member)).trans (List.map_id _)
  rw [Call.ledger, resourceOf_handleOf, List.map_append, List.map_cons,
    if_pos rfl, kept leading before, kept trailing after]

end Lists

/-- A permitted call that spares the oldest resource finalises what the ledger
says, and leaves what the ledger says. -/
theorem perform_ledger
    (runtime : Runtime Finaliser Payload State)
    {handles : Handles Finaliser Payload}
    {resources : List (Tracked Finaliser Payload)}
    (represents : Represents handles resources)
    (state : State)
    {call : Call Finaliser Payload}
    (permitted : call.Permitted (blocks resources))
    (spares : call.SparesOldest (blocks resources)) :
    ∃ changed,
      Represents changed (call.ledger resources) ∧
        call.perform runtime (handles, state) =
          (do
            let state ←
              finaliseAll runtime (call.finalises resources) state
            .ok (changed, state)) := by
  cases call with
  | alloc buf junk free =>
      have available : handles.heap.Available buf := by
        refine ⟨permitted.1, ?_⟩
        rw [represents.liveBlocks, List.mem_toFinset]
        exact permitted.2
      obtain ⟨changed, allocates, changedRepresents⟩ :=
        represents.resourceAlloc available junk free
      exact ⟨changed, changedRepresents, by
        simp [Call.perform, allocates, Call.finalises, finaliseAll]⟩
  | realloc h moved payload =>
      obtain ⟨block, member, rfl, target⟩ := permitted
      obtain ⟨leading, resource, trailing, rfl, rfl, hasSuccessor⟩ :=
        exists_successor represents.blocksNodup member
      rw [Call.SparesOldest, resourceOf_handleOf] at spares
      obtain ⟨successor, later, rfl⟩ :=
        List.exists_cons_of_ne_nil (hasSuccessor.mp spares)
      obtain ⟨changed, reallocates, changedRepresents⟩ :=
        represents.resourceRealloc runtime
          (target.imp id fun fresh =>
            ⟨fresh.1, by
              rw [represents.liveBlocks, List.mem_toFinset]
              exact fresh.2⟩)
          payload
      rw [ledger_realloc_split represents.blocksNodup]
      exact ⟨changed, changedRepresents, by
        simp [Call.perform, reallocates, Call.finalises, finaliseAll]⟩
  | free h =>
      obtain ⟨block, member, rfl⟩ := permitted
      obtain ⟨leading, resource, trailing, rfl, rfl, hasSuccessor⟩ :=
        exists_successor represents.blocksNodup member
      rw [Call.SparesOldest, resourceOf_handleOf] at spares
      obtain ⟨successor, later, rfl⟩ :=
        List.exists_cons_of_ne_nil (hasSuccessor.mp spares)
      obtain ⟨left, finalised⟩ := ledger_free_split represents.blocksNodup
      obtain ⟨changed, frees, changedRepresents⟩ :=
        represents.resourceFree runtime state
      rw [left, finalised]
      refine ⟨changed, changedRepresents, ?_⟩
      rw [Call.perform, frees]
      simp only [finaliseAll, bind_assoc, ok_bind]

/-- Finalisers of two lists run one list after the other. -/
theorem finaliseAll_append
    (runtime : Runtime Finaliser Payload State)
    (first later : List (Tracked Finaliser Payload))
    (state : State) :
    finaliseAll runtime (first ++ later) state =
      (do
        let state ← finaliseAll runtime first state
        finaliseAll runtime later state) := by
  induction first generalizing state with
  | nil =>
      rfl
  | cons resource rest inductionHypothesis =>
      simp only [List.cons_append, finaliseAll, inductionHypothesis,
        bind_assoc]

/-- A sequence of calls finalises what the ledger says, and leaves what the
ledger says. -/
theorem run_ledger
    (runtime : Runtime Finaliser Payload State)
    {handles : Handles Finaliser Payload}
    {resources : List (Tracked Finaliser Payload)}
    (represents : Represents handles resources)
    (state : State)
    {calls : List (Call Finaliser Payload)}
    (admissible : Admissible (blocks resources) calls)
    (spares : AllSpareOldest (blocks resources) calls) :
    ∃ changed,
      Represents changed (ledgerAfterAll resources calls) ∧
        run runtime (handles, state) calls =
          (do
            let state ←
              finaliseAll runtime (finalisedBy resources calls) state
            .ok (changed, state)) := by
  induction calls generalizing handles resources state with
  | nil =>
      exact ⟨handles, represents, rfl⟩
  | cons call rest inductionHypothesis =>
      obtain ⟨middle, middleRepresents, performs⟩ :=
        perform_ledger runtime represents state admissible.1 spares.1
      have later := admissible.2
      have sparesLater := spares.2
      rw [← blocks_ledger] at later sparesLater
      -- A finaliser that fails stops the run; the ledger goes on regardless.
      cases finalises :
          finaliseAll runtime (call.finalises resources) state with
      | error fault =>
          obtain ⟨changed, changedRepresents, _⟩ :=
            inductionHypothesis middleRepresents state later sparesLater
          refine ⟨changed, changedRepresents, ?_⟩
          rw [run, List.foldlM_cons, performs, finalisedBy,
            finaliseAll_append, finalises]
          rfl
      | ok finalised =>
          obtain ⟨changed, changedRepresents, runs⟩ :=
            inductionHypothesis middleRepresents finalised later sparesLater
          refine ⟨changed, changedRepresents, ?_⟩
          rw [run, List.foldlM_cons, performs, finalisedBy,
            finaliseAll_append, finalises]
          exact runs

/-- One call moves resources from the ledger to the finalised ones, and adds
what it registers. -/
theorem ledger_perm
    (call : Call Finaliser Payload)
    (resources : List (Tracked Finaliser Payload)) :
    ((call.finalises resources ++ call.ledger resources).map
        Tracked.free).Perm
      (call.registers?.toList ++ resources.map Tracked.free) := by
  cases call with
  | alloc buf junk free =>
      exact List.Perm.refl _
  | realloc h moved payload =>
      refine List.Perm.of_eq ?_
      simp only [Call.finalises, Call.ledger, Call.registers?,
        List.nil_append, List.map_map, Option.toList_none]
      refine List.map_congr_left fun resource _ => ?_
      simp only [Function.comp_apply]
      split <;> rfl
  | free h =>
      have split :
          (Call.finalises resources (.free h) ++
              Call.ledger resources (.free h)).Perm
            resources := by
        simpa [Call.finalises, Call.ledger] using
          List.filter_append_perm
            (fun resource => resource.block = resourceOf h) resources
      exact split.map Tracked.free

/-- What a sequence of calls finalises and what it leaves are together what was
open and what it registers. -/
theorem finalisedBy_perm
    (calls : List (Call Finaliser Payload))
    (resources : List (Tracked Finaliser Payload)) :
    ((finalisedBy resources calls ++ ledgerAfterAll resources calls).map
        Tracked.free).Perm
      (calls.filterMap Call.registers? ++ resources.map Tracked.free) := by
  induction calls generalizing resources with
  | nil =>
      exact List.Perm.refl _
  | cons call rest inductionHypothesis =>
      have later := inductionHypothesis (call.ledger resources)
      have now := ledger_perm call resources
      rw [List.map_append] at later now
      calc
        ((finalisedBy resources (call :: rest) ++
                ledgerAfterAll resources (call :: rest)).map
              Tracked.free) =
            (call.finalises resources).map Tracked.free ++
              ((finalisedBy (call.ledger resources) rest).map Tracked.free ++
                (ledgerAfterAll (call.ledger resources) rest).map
                  Tracked.free) := by
          simp [finalisedBy, ledgerAfterAll]
        List.Perm _
            ((call.finalises resources).map Tracked.free ++
              (rest.filterMap Call.registers? ++
                (call.ledger resources).map Tracked.free)) :=
          later.append_left _
        List.Perm _
            (rest.filterMap Call.registers? ++
              ((call.finalises resources).map Tracked.free ++
                (call.ledger resources).map Tracked.free)) := by
          rw [← List.append_assoc, ← List.append_assoc]
          exact List.perm_append_comm.append_right _
        List.Perm _
            (rest.filterMap Call.registers? ++
              (call.registers?.toList ++ resources.map Tracked.free)) :=
          now.append_left _
        List.Perm _
            ((call :: rest).filterMap Call.registers? ++
              resources.map Tracked.free) := by
          rw [← List.append_assoc, List.filterMap_cons]
          refine List.Perm.append_right _ ?_
          cases call.registers? with
          | none =>
              simp
          | some finaliser =>
              exact List.perm_append_comm

/-- A program that opens and closes resources, never the oldest one, and then
exits: every finaliser that was registered is called once, with the payload
that its resource has at that moment, and no block is left. -/
theorem lifetimes_finalised_once
    (runtime : Runtime Finaliser Payload State)
    (state : State)
    {calls : List (Call Finaliser Payload)}
    (admissible : Admissible [] calls)
    (spares : AllSpareOldest [] calls) :
    ∃ collected,
      (do
        let (handles, state) ← run runtime (initial, state) calls
        handles.resourceCollect runtime state) =
          (do
            let state ← finaliseAll runtime (lifetimes calls) state
            .ok (collected, state)) ∧
        ((lifetimes calls).map Tracked.free).Perm
          (calls.filterMap Call.registers?) ∧
        collected.list = 0 ∧
        collected.heap.live = ∅ ∧
        collected.lock = false := by
  obtain ⟨changed, changedRepresents, runs⟩ :=
    run_ledger runtime represents_initial state admissible spares
  obtain ⟨collected, isEmpty, collects⟩ :=
    changedRepresents.resourceCollect runtime
  refine ⟨collected, ?_, ?_, isEmpty.segment, isEmpty.liveBlocks,
    isEmpty.unlocked⟩
  · rw [runs, lifetimes, finaliseAll_append]
    simp only [bind_assoc, ok_bind, collects]
  · simpa [lifetimes] using finalisedBy_perm calls []

/-- Two resources, the newer one closed before the exit and moved before
that. -/
def closeNewer : List (Call Nat Nat) :=
  [.alloc 64 { magic := 0, next := 0, prev := .list, free := 0, payload := 10 }
      1,
    .alloc 200
      { magic := 0, next := 0, prev := .list, free := 0, payload := 20 } 2,
    .realloc (handleOf 200) 400 30, .free (handleOf 400)]

/-- Their finalisers are logged once each. -/
theorem lifetimes_finalised_once_closeNewer :
    ∃ collected,
      (do
        let (handles, log) ← run finaliserLog (initial, []) closeNewer
        handles.resourceCollect finaliserLog log) =
          (do
            let log ← finaliseAll finaliserLog (lifetimes closeNewer) []
            .ok (collected, log)) ∧
        ((lifetimes closeNewer).map Tracked.free).Perm
          (closeNewer.filterMap Call.registers?) ∧
        collected.list = 0 ∧
        collected.heap.live = ∅ ∧
        collected.lock = false :=
  lifetimes_finalised_once finaliserLog [] (by decide) (by decide)

end Hamachi.Handles
