import Hamachi.ResourceListOperations
import Hamachi.Runs

namespace Hamachi.Handles

variable {Finaliser Payload State : Type}

/-!
# Runs of the resource functions

A run is any sequence of allocations, reallocations and releases in which each
reallocation and release names a live resource.  The live resources are
followed on a list of blocks, newest first, that is computed from the calls
alone; the heap is then compared with that list.
-/

/-- One call to `handles.c`, with the addresses that the host allocator chose. -/
inductive Call (Finaliser Payload : Type) where
  | alloc
      (buf : Addr)
      (junk : Resource Finaliser Payload)
      (free : Finaliser)
  | realloc (h moved : Addr) (payload : Payload)
  | free (h : Addr)

namespace Call

/-- Execute one call. -/
def perform
    (runtime : Runtime Finaliser Payload State) :
    Handles Finaliser Payload × State →
    Call Finaliser Payload →
    Except Fault (Handles Finaliser Payload × State)
  | (handles, state), .alloc buf junk finaliser => do
      let (handles, _) ← handles.resourceAlloc buf junk finaliser
      .ok (handles, state)
  | (handles, state), .realloc h moved payload => do
      let (handles, _) ← handles.resourceRealloc runtime h moved payload
      .ok (handles, state)
  | (handles, state), .free h =>
      handles.resourceFree runtime state h

/-- The live blocks after a call, newest allocation first. -/
def liveAfter (live : List Addr) : Call Finaliser Payload → List Addr
  | .alloc buf _ _ => buf :: live
  | .realloc h moved _ =>
      live.map fun block =>
        if block = resourceOf h then moved else block
  | .free h => live.filter fun block => block ≠ resourceOf h

/-- Handles are live, and the host allocator returns unused memory. -/
def Permitted (live : List Addr) : Call Finaliser Payload → Prop
  | .alloc buf _ _ => buf ≠ 0 ∧ buf ∉ live
  | .realloc h moved _ =>
      ∃ block,
        block ∈ live ∧
          h = handleOf block ∧
          (moved = block ∨ moved ≠ 0 ∧ moved ∉ live)
  | .free h => ∃ block, block ∈ live ∧ h = handleOf block

instance (live : List Addr) :
    ∀ call : Call Finaliser Payload, Decidable (call.Permitted live)
  | .alloc _ _ _ =>
      inferInstanceAs (Decidable (_ ∧ _))
  | .realloc h moved _ =>
      inferInstanceAs (Decidable (∃ block, block ∈ live ∧
        h = handleOf block ∧
          (moved = block ∨ moved ≠ 0 ∧ moved ∉ live)))
  | .free h =>
      inferInstanceAs
        (Decidable (∃ block, block ∈ live ∧ h = handleOf block))

/-- The call does not reallocate or release the oldest live resource. -/
def SparesOldest (live : List Addr) : Call Finaliser Payload → Prop
  | .alloc _ _ _ => True
  | .realloc h _ _ => live.getLast? ≠ some (resourceOf h)
  | .free h => live.getLast? ≠ some (resourceOf h)

instance (live : List Addr) :
    ∀ call : Call Finaliser Payload, Decidable (call.SparesOldest live)
  | .alloc _ _ _ =>
      .isTrue trivial
  | .realloc h _ _ =>
      inferInstanceAs
        (Decidable (live.getLast? ≠ some (resourceOf h)))
  | .free h =>
      inferInstanceAs
        (Decidable (live.getLast? ≠ some (resourceOf h)))

end Call

/-- Execute a sequence of calls. -/
def run
    (runtime : Runtime Finaliser Payload State)
    (start : Handles Finaliser Payload × State)
    (calls : List (Call Finaliser Payload)) :
    Except Fault (Handles Finaliser Payload × State) :=
  calls.foldlM (Call.perform runtime) start

/-- The live blocks after a sequence of calls. -/
def liveAfterAll (live : List Addr)
    (calls : List (Call Finaliser Payload)) : List Addr :=
  calls.foldl Call.liveAfter live

/-- Every call of the sequence is permitted where it is made. -/
abbrev Admissible :
    List Addr → List (Call Finaliser Payload) → Prop :=
  Along Call.liveAfter fun live call => call.Permitted live

/-- No call of the sequence touches the oldest resource of its moment. -/
abbrev AllSpareOldest :
    List Addr → List (Call Finaliser Payload) → Prop :=
  Along Call.liveAfter fun live call => call.SparesOldest live

/-- The intrusive list holds exactly the given blocks, properly linked. -/
def WellLinked
    (handles : Handles Finaliser Payload)
    (live : List Addr) : Prop :=
  ∃ resources, blocks resources = live ∧ Represents handles resources

/--
Every call of the sequence completes, and after each the list holds exactly
the live resources.
-/
def StaysWellLinked
    (runtime : Runtime Finaliser Payload State)
    (state : State)
    (calls : List (Call Finaliser Payload)) : Prop :=
  ∀ leading,
    leading <+: calls →
    ∃ final,
      run runtime (initial, state) leading = .ok final ∧
        WellLinked final.1 (liveAfterAll [] leading)

/-- A resource that is not the last of a list has a successor. -/
theorem exists_successor
    {resources : List (Tracked Finaliser Payload)}
    (noDuplicates : (blocks resources).Nodup)
    {block : Addr}
    (member : block ∈ blocks resources) :
    ∃ leading resource trailing,
      resources = leading ++ resource :: trailing ∧
        resource.block = block ∧
        ((blocks resources).getLast? ≠ some block ↔ trailing ≠ []) := by
  obtain ⟨resource, inResources, isBlock⟩ := List.mem_map.mp member
  obtain ⟨leading, trailing, shape⟩ :=
    List.append_of_mem inResources
  subst shape
  refine ⟨leading, resource, trailing, rfl, isBlock, ?_⟩
  subst isBlock
  rcases List.eq_nil_or_concat' trailing with isNil | ⟨init, last, shape⟩
  · subst isNil
    simp
  · subst shape
    simp only [blocks_append, blocks_cons, blocks_nil] at noDuplicates ⊢
    have different : last.block ≠ resource.block := by
      have later := (List.nodup_append.mp noDuplicates).2.1
      intro same
      apply (List.nodup_cons.mp later).1
      rw [← same]
      simp
    have isLast :
        (blocks leading ++
            resource.block :: (blocks init ++ [last.block])).getLast? =
          some last.block := by
      rw [← List.cons_append, ← List.append_assoc]
      exact List.getLast?_concat
    simp [isLast, different]

/-- Removing the block of a split list by value joins the two sides. -/
private theorem filter_blocks_split
    {leading trailing : List (Tracked Finaliser Payload)}
    {resource : Tracked Finaliser Payload}
    (noDuplicates : (blocks (leading ++ resource :: trailing)).Nodup) :
    (blocks (leading ++ resource :: trailing)).filter
        (fun block => block ≠ resource.block) =
      blocks (leading ++ trailing) := by
  simp only [blocks_append, blocks_cons] at noDuplicates ⊢
  obtain ⟨notMember, _⟩ :=
    List.nodup_cons.mp (List.nodup_middle.mp noDuplicates)
  rw [List.filter_append, List.filter_cons_of_neg (by simp),
    List.filter_eq_self.mpr, List.filter_eq_self.mpr]
  · intro block member
    have different : block ≠ resource.block := by
      rintro rfl
      exact notMember (List.mem_append_right _ member)
    simpa using different
  · intro block member
    have different : block ≠ resource.block := by
      rintro rfl
      exact notMember (List.mem_append_left _ member)
    simpa using different

/-- Renaming the block of a split list by value changes that block only. -/
private theorem map_blocks_split
    {leading trailing : List (Tracked Finaliser Payload)}
    {resource : Tracked Finaliser Payload}
    (renamed : Tracked Finaliser Payload)
    (noDuplicates : (blocks (leading ++ resource :: trailing)).Nodup) :
    (blocks (leading ++ resource :: trailing)).map
        (fun block =>
          if block = resource.block then renamed.block else block) =
      blocks (leading ++ renamed :: trailing) := by
  simp only [blocks_append, blocks_cons] at noDuplicates ⊢
  obtain ⟨notMember, _⟩ :=
    List.nodup_cons.mp (List.nodup_middle.mp noDuplicates)
  have kept :
      ∀ items : List Addr,
        resource.block ∉ items →
        items.map
            (fun block =>
              if block = resource.block then renamed.block else block) =
          items := by
    intro items absent
    conv_rhs => rw [← List.map_id items]
    apply List.map_congr_left
    intro block member
    have different : block ≠ resource.block := by
      rintro rfl
      exact absent member
    simp [different]
  rw [List.map_append, List.map_cons,
    kept _ fun member => notMember (List.mem_append_left _ member),
    kept _ fun member => notMember (List.mem_append_right _ member)]
  simp

/-- A permitted call that spares the oldest resource keeps the list linked. -/
theorem perform_spared
    {runtime : Runtime Finaliser Payload State}
    (finalisersReturn :
      ∀ free h payload state,
        ∃ finalised,
          runtime.finalise free h payload state = .ok finalised)
    {handles : Handles Finaliser Payload}
    {state : State}
    {live : List Addr}
    (wellLinked : WellLinked handles live)
    {call : Call Finaliser Payload}
    (permitted : call.Permitted live)
    (spares : call.SparesOldest live) :
    ∃ final,
      call.perform runtime (handles, state) = .ok final ∧
        WellLinked final.1 (call.liveAfter live) := by
  obtain ⟨resources, rfl, represents⟩ := wellLinked
  cases call with
  | alloc buf junk free =>
      have available : handles.heap.Available buf := by
        refine ⟨permitted.1, ?_⟩
        rw [represents.liveBlocks, List.mem_toFinset]
        exact permitted.2
      obtain ⟨changed, allocates, changedRepresents⟩ :=
        represents.resourceAlloc available junk free
      exact ⟨(changed, state), by simp [Call.perform, allocates],
        _, rfl, changedRepresents⟩
  | realloc h moved payload =>
      obtain ⟨block, member, isHandle, target⟩ := permitted
      obtain ⟨leading, resource, trailing, rfl, rfl, hasSuccessor⟩ :=
        exists_successor represents.blocksNodup member
      subst isHandle
      rw [Call.SparesOldest, resourceOf_handleOf] at spares
      obtain ⟨successor, later, rfl⟩ :=
        List.exists_cons_of_ne_nil (hasSuccessor.mp spares)
      obtain ⟨changed, reallocates, changedRepresents⟩ :=
        represents.resourceRealloc runtime
          (target.imp id fun fresh =>
            ⟨fresh.1, by
              rw [represents.liveBlocks, List.mem_toFinset]
              exact fresh.2⟩)
          payload
      refine ⟨(changed, state), by simp [Call.perform, reallocates],
        _, ?_, changedRepresents⟩
      rw [Call.liveAfter, resourceOf_handleOf]
      exact (map_blocks_split
        { resource with block := moved, payload := payload }
        represents.blocksNodup).symm
  | free h =>
      obtain ⟨block, member, isHandle⟩ := permitted
      obtain ⟨leading, resource, trailing, rfl, rfl, hasSuccessor⟩ :=
        exists_successor represents.blocksNodup member
      subst isHandle
      rw [Call.SparesOldest, resourceOf_handleOf] at spares
      obtain ⟨successor, later, rfl⟩ :=
        List.exists_cons_of_ne_nil (hasSuccessor.mp spares)
      obtain ⟨finalised, finalises⟩ :=
        finalisersReturn resource.free (handleOf resource.block)
          resource.payload state
      obtain ⟨changed, frees, changedRepresents⟩ :=
        represents.resourceFree runtime state
      refine ⟨(changed, finalised),
        by simp [Call.perform, frees, finalises],
        _, ?_, changedRepresents⟩
      rw [Call.liveAfter, resourceOf_handleOf]
      exact (filter_blocks_split represents.blocksNodup).symm

/-- A permitted call on the oldest resource dereferences the null pointer. -/
theorem perform_oldest
    {runtime : Runtime Finaliser Payload State}
    (finalisersReturn :
      ∀ free h payload state,
        ∃ finalised,
          runtime.finalise free h payload state = .ok finalised)
    {handles : Handles Finaliser Payload}
    {state : State}
    {live : List Addr}
    (wellLinked : WellLinked handles live)
    {call : Call Finaliser Payload}
    (permitted : call.Permitted live)
    (touches : ¬call.SparesOldest live) :
    call.perform runtime (handles, state) = .error .nullPointer := by
  obtain ⟨resources, rfl, represents⟩ := wellLinked
  cases call with
  | alloc buf junk free =>
      exact (touches trivial).elim
  | realloc h moved payload =>
      obtain ⟨block, member, isHandle, target⟩ := permitted
      obtain ⟨leading, resource, trailing, rfl, rfl, hasSuccessor⟩ :=
        exists_successor represents.blocksNodup member
      subst isHandle
      rw [Call.SparesOldest, resourceOf_handleOf, hasSuccessor,
        not_not] at touches
      subst touches
      have faults :=
        represents.resourceRealloc_oldest runtime
          (target.imp id fun fresh =>
            ⟨fresh.1, by
              rw [represents.liveBlocks, List.mem_toFinset]
              exact fresh.2⟩)
          payload
      simp [Call.perform, faults]
  | free h =>
      obtain ⟨block, member, isHandle⟩ := permitted
      obtain ⟨leading, resource, trailing, rfl, rfl, hasSuccessor⟩ :=
        exists_successor represents.blocksNodup member
      subst isHandle
      rw [Call.SparesOldest, resourceOf_handleOf, hasSuccessor,
        not_not] at touches
      subst touches
      obtain ⟨finalised, finalises⟩ :=
        finalisersReturn resource.free (handleOf resource.block)
          resource.payload state
      have faults := represents.resourceFree_oldest runtime state
      rw [finalises] at faults
      exact faults

/-- A sequence that spares the oldest resource runs to its end. -/
theorem run_spared
    {runtime : Runtime Finaliser Payload State}
    (finalisersReturn :
      ∀ free h payload state,
        ∃ finalised,
          runtime.finalise free h payload state = .ok finalised)
    (start : Handles Finaliser Payload × State)
    {live : List Addr}
    {calls : List (Call Finaliser Payload)}
    (wellLinked : WellLinked start.1 live)
    (admissible : Admissible live calls)
    (spares : AllSpareOldest live calls) :
    ∃ final,
      run runtime start calls = .ok final ∧
        WellLinked final.1 (liveAfterAll live calls) := by
  induction calls generalizing start live with
  | nil =>
      exact ⟨start, rfl, wellLinked⟩
  | cons call rest inductionHypothesis =>
      obtain ⟨middle, performs, middleLinked⟩ :=
        perform_spared finalisersReturn wellLinked
          admissible.1 spares.1
      obtain ⟨final, runs, finalLinked⟩ :=
        inductionHypothesis middle middleLinked admissible.2 spares.2
      refine ⟨final, ?_, finalLinked⟩
      rw [run, List.foldlM_cons, performs]
      exact runs

/-- A sequence that touches the oldest resource stops on a null pointer. -/
theorem run_touched
    {runtime : Runtime Finaliser Payload State}
    (finalisersReturn :
      ∀ free h payload state,
        ∃ finalised,
          runtime.finalise free h payload state = .ok finalised)
    (start : Handles Finaliser Payload × State)
    {live : List Addr}
    {calls : List (Call Finaliser Payload)}
    (wellLinked : WellLinked start.1 live)
    (admissible : Admissible live calls)
    (touches : ¬AllSpareOldest live calls) :
    run runtime start calls = .error .nullPointer := by
  induction calls generalizing start live with
  | nil =>
      exact (touches trivial).elim
  | cons call rest inductionHypothesis =>
      rw [run, List.foldlM_cons]
      by_cases spares : call.SparesOldest live
      · obtain ⟨middle, performs, middleLinked⟩ :=
          perform_spared finalisersReturn wellLinked
            admissible.1 spares
        rw [performs]
        exact inductionHypothesis middle middleLinked admissible.2
          fun later => touches ⟨spares, later⟩
      · rw [perform_oldest finalisersReturn wellLinked
          admissible.1 spares]
        rfl

/--
Exactly the sequences that never reallocate or release the oldest live resource
keep the list well linked after every call.
-/
theorem staysWellLinked_iff_allSpareOldest
    {runtime : Runtime Finaliser Payload State}
    (finalisersReturn :
      ∀ free h payload state,
        ∃ finalised,
          runtime.finalise free h payload state = .ok finalised)
    (state : State)
    {calls : List (Call Finaliser Payload)}
    (admissible : Admissible [] calls) :
    StaysWellLinked runtime state calls ↔ AllSpareOldest [] calls := by
  have start :
      WellLinked (initial : Handles Finaliser Payload) [] :=
    ⟨[], rfl, represents_initial⟩
  constructor
  · intro stays
    by_contra touches
    obtain ⟨final, runs, _⟩ := stays calls List.prefix_rfl
    rw [run_touched finalisersReturn (initial, state)
      start admissible touches] at runs
    cases runs
  · intro spares leading isPrefix
    exact run_spared finalisersReturn (initial, state) start
      (admissible.of_prefix isPrefix) (spares.of_prefix isPrefix)

/-- A runtime whose finalisers do nothing and whose freed blocks are gone. -/
def silentRuntime : Runtime Unit Unit Unit where
  finalise := fun _ _ _ state => .ok state
  scrub := fun _ => none

/-- The contents of memory that was never written. -/
def unwritten : Resource Unit Unit where
  magic := 0
  next := 0
  prev := .list
  free := ()
  payload := ()

/-- Releasing and moving newer resources is harmless. -/
theorem staysWellLinked_newest :
    StaysWellLinked silentRuntime ()
      [.alloc 64 unwritten (), .alloc 128 unwritten (),
        .realloc (handleOf 128) 192 (), .free (handleOf 192)] :=
  (staysWellLinked_iff_allSpareOldest
    (fun _ _ _ state => ⟨state, rfl⟩) () (by decide)).mpr (by decide)

/-- Releasing the only resource of a run dereferences the null pointer. -/
theorem not_staysWellLinked_only :
    Admissible [] [.alloc 64 unwritten (), .free (handleOf 64)] ∧
      run silentRuntime (initial, ())
          [.alloc 64 unwritten (), .free (handleOf 64)] =
        .error .nullPointer ∧
      ¬StaysWellLinked silentRuntime ()
        [.alloc 64 unwritten (), .free (handleOf 64)] := by
  have faults :
      run silentRuntime (initial, ())
          [.alloc 64 unwritten (), .free (handleOf 64)] =
        .error .nullPointer :=
    rfl
  refine ⟨by decide, faults, fun stays => ?_⟩
  obtain ⟨final, runs, _⟩ := stays _ List.prefix_rfl
  rw [faults] at runs
  cases runs

end Hamachi.Handles
