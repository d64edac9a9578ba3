import Hamachi.Process
import Hamachi.ResourceListOperations

namespace Hamachi

/-!
# Removal from the resource list

`resource_free` writes to the successor of a resource without a test for the
end of the list.  With that test it removes every resource, and the two agree
wherever there is a successor.
-/

namespace Handles

variable {Finaliser Payload State : Type}

/-- `resource_free` with a test for the end of the list. -/
def resourceRemove
    (runtime : Runtime Finaliser Payload State)
    (handles : Handles Finaliser Payload)
    (state : State)
    (h : Addr) :
    Except Fault (Handles Finaliser Payload × State) :=
  if h = 0 then
    .ok (handles, state)
  else do
    let res := resourceOf h
    let handles ← handles.acquire
    let block ← handles.heap.load res
    if block.magic ≠ magic then
      .error .aborted
    else do
      let state ← runtime.finalise block.free h block.payload state
      let handles ← handles.storeLink block.prev block.next
      let block ← handles.heap.load res
      let handles ←
        if block.next = 0 then
          .ok handles
        else
          handles.storePrev block.next block.prev
      let handles := handles.unlock
      let heap ← handles.heap.release runtime.scrub res
      .ok ({ handles with heap := heap }, state)

variable
  {handles : Handles Finaliser Payload}
  {leading trailing : List (Tracked Finaliser Payload)}
  {resource : Tracked Finaliser Payload}

/-- Of a resource with a successor, `resource_free` is the removal. -/
theorem Represents.resourceFree_eq
    (runtime : Runtime Finaliser Payload State)
    (state : State)
    {successor : Tracked Finaliser Payload}
    (represents :
      Represents handles
        (leading ++ resource :: successor :: trailing)) :
    handles.resourceFree runtime state (handleOf resource.block) =
      handles.resourceRemove runtime state (handleOf resource.block) := by
  obtain ⟨next, loaded, _, right⟩ := represents.load_block
  obtain rfl : next = successor.block := right.1
  obtain ⟨relinked, unlinked, stored, reloaded, _⟩ :=
    represents.acquired.unlink
  have notEnd : successor.block ≠ 0 :=
    represents.segment.ne_null_of_mem (by simp)
  unfold Handles.resourceFree Handles.resourceRemove acquire
  simp only [handleOf_ne_null, ↓reduceIte, resourceOf_handleOf,
    represents.unlocked, Bool.false_eq_true, ok_bind, loaded, ne_eq,
    not_true_eq_false, stored, reloaded, notEnd]

/-- The removal runs the finaliser of a resource and takes it from the list,
wherever it stands. -/
theorem Represents.resourceRemove
    (runtime : Runtime Finaliser Payload State)
    (state : State)
    (represents : Represents handles (leading ++ resource :: trailing)) :
    ∃ changed,
      handles.resourceRemove runtime state (handleOf resource.block) =
          (do
            let state ←
              runtime.finalise resource.free (handleOf resource.block)
                resource.payload state
            .ok (changed, state)) ∧
        Represents changed (leading ++ trailing) := by
  cases trailing with
  | cons successor trailing =>
      rw [← represents.resourceFree_eq]
      exact represents.resourceFree runtime state
  | nil =>
      obtain ⟨next, loaded, left, isNull⟩ := represents.load_block
      obtain rfl : next = 0 := isNull
      have apart := represents.not_mem_of_split
      have noDuplicates :
          (blocks leading ++ [resource.block]).Nodup := by
        simpa using represents.blocksNodup
      obtain ⟨relinked, stored, segment, sameLive, _, others⟩ :=
        storeLink_segment { handles with lock := true } left
          (List.nodup_append.mp noDuplicates).1 0
      have reloaded := others _ apart.1
      rw [loaded] at reloaded
      have live : resource.block ∈ relinked.heap.live := by
        rw [sameLive]
        simp [represents.liveBlocks]
      obtain ⟨released, releases, releasedLive, kept⟩ :=
        Heap.release_live runtime.scrub relinked.heap
          (Heap.load_ne_null loaded) live
      refine ⟨{ relinked with heap := released, lock := false }, ?_, ?_⟩
      · unfold Handles.resourceRemove acquire
        simp only [handleOf_ne_null, ↓reduceIte, resourceOf_handleOf,
          represents.unlocked, Bool.false_eq_true, ok_bind, loaded, ne_eq,
          not_true_eq_false, stored, reloaded, unlock, releases]
      · rw [List.append_nil]
        refine ⟨⟨?_, (List.nodup_append.mp noDuplicates).1, ?_⟩, rfl⟩
        · apply segment.congr
          intro address member
          apply kept
          rintro rfl
          exact apart.1 member
        · rw [releasedLive, sameLive]
          change handles.heap.live.erase _ = _
          rw [represents.liveBlocks, blocks_append, blocks_cons,
            toFinset_erase_middle apart.1 apart.2, blocks_nil,
            List.append_nil]

end Handles

/-- `Process.free` by removal. -/
def Process.remove (process : Process) (h : Addr) : Except Fault Process := do
  let (handles, glue) ←
    process.handles.resourceRemove runtime process.glue h
  .ok { handles := handles, glue := glue }

end Hamachi
