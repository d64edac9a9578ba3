import Hamachi.ResourceList

namespace Hamachi.Handles

variable {Finaliser Payload State : Type}

/-!
# The operations of `handles.c` on the resource list

One lemma for each operation says what it does to the list of resources that
the heap represents.  `resource_free` and `resource_realloc` have two: they
write to the successor's back link without a test, so on the oldest resource
they write through the null pointer.
-/

namespace Represents

variable
  {handles : Handles Finaliser Payload}
  {resources : List (Tracked Finaliser Payload)}

/-- Taking the lock leaves the list linked. -/
theorem acquired
    (represents : Represents handles resources) :
    Linked { handles with lock := true } resources :=
  ⟨represents.segment, represents.blocksNodup, represents.liveBlocks⟩

/-- `resource_alloc` puts the new resource in front of the others. -/
theorem resourceAlloc
    (represents : Represents handles resources)
    {buf : Addr}
    (available : handles.heap.Available buf)
    (junk : Resource Finaliser Payload)
    (free : Finaliser) :
    ∃ changed,
      handles.resourceAlloc buf junk free =
          .ok (changed, handleOf buf) ∧
        Represents changed
          ({ block := buf, free := free, payload := junk.payload } ::
            resources) := by
  have fresh := represents.available_not_mem available
  have nonNull := available.1
  let allocated : Handles Finaliser Payload :=
    { handles with
      lock := true
      heap := handles.heap.malloc buf junk }
  have allocatedSegment :
      Segment allocated.heap .list handles.list resources 0 := by
    apply represents.segment.congr
    intro address member
    apply Heap.load_malloc_other
    rintro rfl
    exact fresh member
  have allocatedBuf : allocated.heap.load buf = .ok junk :=
    Heap.load_malloc_same _ nonNull junk
  have live : allocated.heap.live = insert buf handles.heap.live :=
    Heap.live_malloc _ nonNull junk
  obtain ⟨linked, linkedResult, linkedSegment, sameLive, linkedList,
      sameBuf⟩ :=
    linkHead_segment allocated allocatedSegment represents.blocksNodup fresh
  have linkedBuf : linked.heap.load buf = .ok junk :=
    sameBuf.trans allocatedBuf
  refine
    ⟨{ heap := linked.heap.set buf
          { magic := magic
            next := linked.list
            prev := .list
            free := free
            payload := junk.payload }
       list := buf
       lock := false }, ?_, ?_⟩
  · unfold Handles.resourceAlloc acquire
    rw [represents.unlocked]
    simp only [Bool.false_eq_true, ↓reduceIte, ok_bind]
    change allocated.linkHead buf >>= _ = _
    rw [linkedResult]
    simp [linkedBuf, Heap.store_of_load linkedBuf, unlock]
  · refine ⟨⟨⟨rfl, linked.list, Heap.load_set_same _ nonNull _, ?_⟩, ?_, ?_⟩,
      rfl⟩
    · rw [linkedList]
      apply linkedSegment.congr
      intro address member
      apply Heap.load_set_other
      rintro rfl
      exact fresh member
    · exact List.nodup_cons.mpr ⟨fresh, represents.blocksNodup⟩
    · simp [sameLive, live, represents.liveBlocks]

/-- A store to a tracked payload changes that resource's payload only. -/
theorem storePayload
    {leading trailing : List (Tracked Finaliser Payload)}
    {resource : Tracked Finaliser Payload}
    (represents :
      Represents handles (leading ++ resource :: trailing))
    (payload : Payload) :
    ∃ changed,
      handles.storePayload (handleOf resource.block) payload =
          .ok changed ∧
        Represents changed
          (leading ++ { resource with payload := payload } ::
            trailing) := by
  obtain ⟨next, loaded, left, right⟩ := represents.load_block
  have apart := represents.not_mem_of_split
  refine
    ⟨{ handles with
        heap := handles.heap.set resource.block
          { magic := magic
            next := next
            prev := exitLink .list leading
            free := resource.free
            payload := payload } }, ?_, ?_⟩
  · simp [Handles.storePayload, loaded, Heap.store_of_load loaded]
  · refine ⟨⟨?_, ?_, ?_⟩, represents.unlocked⟩
    · apply Segment.append_iff.mpr
      refine ⟨resource.block, left.congr ?_, rfl, next,
        Heap.load_set_same _ (Heap.load_ne_null loaded) _,
        right.congr ?_⟩
      · intro address member
        apply Heap.load_set_other
        rintro rfl
        exact apart.1 member
      · intro address member
        apply Heap.load_set_other
        rintro rfl
        exact apart.2 member
    · simpa using represents.blocksNodup
    · simpa using represents.liveBlocks

/--
`resource_free` of a resource with a successor runs its finaliser and removes
it.
-/
theorem resourceFree
    (runtime : Runtime Finaliser Payload State)
    (state : State)
    {leading trailing : List (Tracked Finaliser Payload)}
    {resource successor : Tracked Finaliser Payload}
    (represents :
      Represents handles
        (leading ++ resource :: successor :: trailing)) :
    ∃ changed,
      handles.resourceFree runtime state (handleOf resource.block) =
          (do
            let state ←
              runtime.finalise resource.free (handleOf resource.block)
                resource.payload state
            .ok (changed, state)) ∧
        Represents changed (leading ++ successor :: trailing) := by
  have linked := represents.acquired
  obtain ⟨next, loaded, _, right⟩ := represents.load_block
  have isSuccessor : next = successor.block := right.1
  subst isSuccessor
  obtain ⟨relinked, unlinked, stored, reloaded, storedPrev, segment,
      sameLive⟩ := linked.unlink
  have live : resource.block ∈ unlinked.heap.live := by
    rw [sameLive]
    simp [represents.liveBlocks]
  obtain ⟨released, releases, releasedLive, others⟩ :=
    Heap.release_live runtime.scrub unlinked.heap
      (Heap.load_ne_null loaded) live
  refine ⟨{ unlinked with heap := released, lock := false }, ?_, ?_⟩
  · unfold Handles.resourceFree acquire
    simp only [handleOf_ne_null, ↓reduceIte, resourceOf_handleOf,
      represents.unlocked, Bool.false_eq_true, ok_bind, loaded, ne_eq,
      not_true_eq_false, stored, reloaded, storedPrev, unlock, releases]
  · have apart := represents.not_mem_of_split
    refine ⟨⟨?_, ?_, ?_⟩, rfl⟩
    · apply segment.congr
      intro address member
      apply others
      rintro rfl
      rw [blocks_append, List.mem_append] at member
      exact member.elim apart.1 apart.2
    · have noDuplicates := represents.blocksNodup
      simp only [blocks_append, blocks_cons] at noDuplicates ⊢
      exact (List.nodup_cons.mp
        (List.nodup_middle.mp noDuplicates)).2
    · rw [releasedLive, sameLive]
      change handles.heap.live.erase _ = _
      rw [represents.liveBlocks, blocks_append, blocks_cons,
        toFinset_erase_middle apart.1 apart.2, blocks_append]

/--
`resource_free` of the oldest resource runs its finaliser and then writes
through the null pointer that ends the list.
-/
theorem resourceFree_oldest
    (runtime : Runtime Finaliser Payload State)
    (state : State)
    {leading : List (Tracked Finaliser Payload)}
    {resource : Tracked Finaliser Payload}
    (represents : Represents handles (leading ++ [resource])) :
    handles.resourceFree runtime state (handleOf resource.block) =
      (do
        let _ ←
          runtime.finalise resource.free (handleOf resource.block)
            resource.payload state
        .error .nullPointer) := by
  obtain ⟨next, loaded, left, isNull⟩ := represents.load_block
  have isNull : next = 0 := isNull
  subst isNull
  obtain ⟨relinked, stored, _, _, _, others⟩ :=
    storeLink_segment { handles with lock := true } left
      (List.nodup_append.mp
        (by simpa using represents.blocksNodup :
          (blocks leading ++ [resource.block]).Nodup)).1 0
  have reloaded := others _ represents.not_mem_of_split.1
  rw [loaded] at reloaded
  unfold Handles.resourceFree acquire
  simp only [handleOf_ne_null, ↓reduceIte, resourceOf_handleOf,
    represents.unlocked, Bool.false_eq_true, ok_bind, loaded, ne_eq,
    not_true_eq_false, stored, reloaded, storePrev, Heap.load_null,
    error_bind]

/-- `resource_realloc` of a resource with a successor moves it in place. -/
theorem resourceRealloc
    (runtime : Runtime Finaliser Payload State)
    {leading trailing : List (Tracked Finaliser Payload)}
    {resource successor : Tracked Finaliser Payload}
    (represents :
      Represents handles
        (leading ++ resource :: successor :: trailing))
    {moved : Addr}
    (target : moved = resource.block ∨ handles.heap.Available moved)
    (payload : Payload) :
    ∃ changed,
      handles.resourceRealloc runtime (handleOf resource.block) moved
          payload = .ok (changed, handleOf moved) ∧
        Represents changed
          (leading ++
            { resource with block := moved, payload := payload } ::
              successor :: trailing) := by
  have linked := represents.acquired
  obtain ⟨next, heap, relinked, loaded, reallocated, loadedMoved, stored,
      reloaded, left, right, live⟩ :=
    linked.move runtime.scrub target payload
  have apart := represents.not_mem_of_split
  have movedApart := represents.target_not_mem target
  have noDuplicates :
      (blocks leading ++
        resource.block :: successor.block :: blocks trailing).Nodup := by
    simpa using represents.blocksNodup
  have isSuccessor : next = successor.block := right.1
  subst isSuccessor
  have successorOnce : successor.block ∉ blocks trailing := by
    have later := (List.nodup_append.mp noDuplicates).2.1
    exact (List.nodup_cons.mp (List.nodup_cons.mp later).2).1
  obtain ⟨changed, storedPrev, redirected, sameLive, sameList, _,
      others⟩ :=
    storePrev_segment relinked right successorOnce (.next moved)
  have movedNeSuccessor : moved ≠ successor.block := by
    rintro rfl
    exact movedApart.2 (by simp)
  refine ⟨{ changed with lock := false }, ?_, ⟨⟨?_, ?_, ?_⟩, rfl⟩⟩
  · unfold Handles.resourceRealloc acquire
    simp only [resourceOf_handleOf, represents.unlocked,
      Bool.false_eq_true, ↓reduceIte, ok_bind, loaded, ne_eq,
      not_true_eq_false, reallocated, loadedMoved, stored, reloaded,
      storedPrev, unlock]
  · apply Segment.append_iff.mpr
    refine ⟨moved, ?_, rfl, successor.block, ?_, redirected⟩
    · rw [sameList]
      apply left.congr
      intro address member
      apply others
      rintro rfl
      exact (List.nodup_append.mp noDuplicates).2.2 _ member _
        (by simp) rfl
    · change changed.heap.load moved = _
      rw [others moved movedNeSuccessor, reloaded]
  · simp only [blocks_append, blocks_cons]
    apply List.nodup_middle.mpr
    refine List.nodup_cons.mpr ⟨?_, ?_⟩
    · rw [List.mem_append]
      exact not_or.mpr movedApart
    · exact (List.nodup_cons.mp
        (List.nodup_middle.mp noDuplicates)).2
  · change changed.heap.live = _
    rw [sameLive, live]
    change insert moved (handles.heap.live.erase resource.block) = _
    rw [represents.liveBlocks, blocks_append, blocks_cons,
      toFinset_erase_middle apart.1 apart.2]
    ext address
    simp only [blocks_append, blocks_cons, Finset.mem_insert,
      List.mem_toFinset, List.mem_append, List.mem_cons]
    tauto

/--
`resource_realloc` of the oldest resource writes through the null pointer that
ends the list.
-/
theorem resourceRealloc_oldest
    (runtime : Runtime Finaliser Payload State)
    {leading : List (Tracked Finaliser Payload)}
    {resource : Tracked Finaliser Payload}
    (represents : Represents handles (leading ++ [resource]))
    {moved : Addr}
    (target : moved = resource.block ∨ handles.heap.Available moved)
    (payload : Payload) :
    handles.resourceRealloc runtime (handleOf resource.block) moved
        payload = .error .nullPointer := by
  have linked := represents.acquired
  obtain ⟨next, heap, relinked, loaded, reallocated, loadedMoved, stored,
      reloaded, _, isNull, _⟩ :=
    linked.move runtime.scrub target payload
  have isNull : next = 0 := isNull
  subst isNull
  unfold Handles.resourceRealloc acquire
  simp only [resourceOf_handleOf, represents.unlocked,
    Bool.false_eq_true, ↓reduceIte, ok_bind, loaded, ne_eq,
    not_true_eq_false, reallocated, loadedMoved, stored, reloaded,
    storePrev, Heap.load_null, error_bind]

end Represents

/-- Run the finalisers of a list of resources in order. -/
def finaliseAll (runtime : Runtime Finaliser Payload State) :
    List (Tracked Finaliser Payload) → State → Except Fault State
  | [], state => .ok state
  | resource :: rest, state => do
      let state ←
        runtime.finalise resource.free (handleOf resource.block)
          resource.payload state
      finaliseAll runtime rest state

end Hamachi.Handles
