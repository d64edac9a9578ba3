import Hamachi.ResourceCollection

namespace Hamachi

/-!
# What a completed list operation tells

When a freed block becomes unreadable, only handles of live resources can be
freed without a fault.  A completed `resource_free` therefore names a resource
of the list, and one that is not the oldest.
-/

namespace Heap

variable {Block : Type}

/-- Only live blocks have contents. -/
def Strict (heap : Heap Block) : Prop :=
  ∀ address, address ∉ heap.live → heap.cell address = none

theorem strict_empty : (empty : Heap Block).Strict :=
  fun _ _ => rfl

/-- In a strict heap a readable block is live. -/
theorem Strict.live_of_load
    {heap : Heap Block}
    {address : Addr}
    {block : Block}
    (strict : heap.Strict)
    (loaded : heap.load address = .ok block) :
    address ∈ heap.live := by
  by_contra notLive
  have nonNull := load_ne_null loaded
  simp [load, nonNull, strict address notLive] at loaded

/-- A store reaches only live blocks. -/
theorem Strict.store
    {heap changed : Heap Block}
    {address : Addr}
    {block : Block}
    (strict : heap.Strict)
    (stored : heap.store address block = .ok changed) :
    changed.Strict := by
  obtain ⟨old, loaded, isSet⟩ := bind_eq_ok.mp stored
  cases isSet
  intro other notLive
  have different : other ≠ address := by
    rintro rfl
    exact notLive (strict.live_of_load loaded)
  exact (Function.update_of_ne different _ _).trans (strict other notLive)

/-- A new block is live. -/
theorem Strict.malloc
    {heap : Heap Block}
    (strict : heap.Strict)
    (address : Addr)
    (junk : Block) :
    (heap.malloc address junk).Strict := by
  unfold Heap.malloc
  split
  · exact strict
  · intro other notLive
    obtain ⟨different, notOld⟩ :=
      not_or.mp (Finset.mem_insert.not.mp notLive)
    exact (Function.update_of_ne different _ _).trans (strict other notOld)

/-- A block released without a trace cannot be read. -/
theorem Strict.release
    {heap changed : Heap Block}
    {address : Addr}
    (strict : heap.Strict)
    (released : heap.release (fun _ => none) address = .ok changed) :
    changed.Strict := by
  unfold Heap.release at released
  split at released
  · cases released
    exact strict
  · split at released
    · cases released
      intro other notLive
      by_cases same : other = address
      · subst same
        simp
      · rw [Finset.mem_erase, not_and] at notLive
        exact (Function.update_of_ne same _ _).trans
          (strict other (notLive same))
    · cases released

end Heap

namespace Handles

variable
  {Finaliser Payload State : Type}
  {handles changed : Handles Finaliser Payload}

theorem strict_storeLink
    {link : Link}
    {target : Addr}
    (strict : handles.heap.Strict)
    (stored : handles.storeLink link target = .ok changed) :
    changed.heap.Strict := by
  cases link with
  | list =>
      cases stored
      exact strict
  | next owner =>
      obtain ⟨block, _, rest⟩ := bind_eq_ok.mp stored
      obtain ⟨heap, storedBlock, isChanged⟩ := bind_eq_ok.mp rest
      cases isChanged
      exact strict.store storedBlock

theorem strict_storePrev
    {node : Addr}
    {link : Link}
    (strict : handles.heap.Strict)
    (stored : handles.storePrev node link = .ok changed) :
    changed.heap.Strict := by
  obtain ⟨block, _, rest⟩ := bind_eq_ok.mp stored
  obtain ⟨heap, storedBlock, isChanged⟩ := bind_eq_ok.mp rest
  cases isChanged
  exact strict.store storedBlock

theorem strict_storePayload
    {h : Addr}
    {payload : Payload}
    (strict : handles.heap.Strict)
    (stored : handles.storePayload h payload = .ok changed) :
    changed.heap.Strict := by
  obtain ⟨block, _, rest⟩ := bind_eq_ok.mp stored
  obtain ⟨heap, storedBlock, isChanged⟩ := bind_eq_ok.mp rest
  cases isChanged
  exact strict.store storedBlock

/-- `LOCK()` changes no block. -/
theorem acquire_heap
    (acquired : handles.acquire = .ok changed) :
    changed.heap = handles.heap := by
  unfold acquire at acquired
  split at acquired
  · cases acquired
  · cases acquired
    rfl

theorem strict_resourceAlloc
    {buf h : Addr}
    {junk : Resource Finaliser Payload}
    {free : Finaliser}
    (strict : handles.heap.Strict)
    (allocated :
      handles.resourceAlloc buf junk free = .ok (changed, h)) :
    changed.heap.Strict := by
  obtain ⟨locked, acquired, rest⟩ := bind_eq_ok.mp allocated
  rw [← acquire_heap acquired] at strict
  obtain ⟨linked, links, rest⟩ := bind_eq_ok.mp rest
  have linkedStrict : linked.heap.Strict := by
    unfold linkHead at links
    split at links
    · exact strict_storePrev (strict.malloc buf junk) links
    · cases links
      exact strict.malloc buf junk
  obtain ⟨block, _, rest⟩ := bind_eq_ok.mp rest
  obtain ⟨heap, stored, isChanged⟩ := bind_eq_ok.mp rest
  cases isChanged
  exact linkedStrict.store stored

/-- A readable handle is that of a resource of the list. -/
theorem Represents.of_load
    {resources : List (Tracked Finaliser Payload)}
    {h : Addr}
    {block : Resource Finaliser Payload}
    (represents : Represents handles resources)
    (strict : handles.heap.Strict)
    (loaded : handles.heap.load (resourceOf h) = .ok block) :
    ∃ leading resource trailing,
      resources = leading ++ resource :: trailing ∧
        h = handleOf resource.block := by
  have isLive := strict.live_of_load loaded
  rw [represents.liveBlocks, List.mem_toFinset] at isLive
  obtain ⟨resource, member, isBlock⟩ := List.mem_map.mp isLive
  obtain ⟨leading, trailing, shape⟩ := List.append_of_mem member
  have inside : sizeofResource ≤ h :=
    (Nat.lt_of_sub_ne_zero (Heap.load_ne_null loaded)).le
  refine ⟨leading, resource, trailing, shape, ?_⟩
  rw [isBlock]
  exact (Nat.sub_add_cancel inside).symm

section Release

variable
  {runtime : Runtime Finaliser Payload State}
  {state final : State}

theorem strict_resourceFree
    {h : Addr}
    (noTrace : runtime.scrub = fun _ => none)
    (strict : handles.heap.Strict)
    (freed : handles.resourceFree runtime state h = .ok (changed, final)) :
    changed.heap.Strict := by
  by_cases isNull : h = 0
  · subst isNull
    cases freed
    exact strict
  · obtain ⟨_, relinked, _, unlinked, heap, _, _, _, links, _, unlinks,
        released, isChanged⟩ :=
      resourceFree_steps isNull freed
    subst isChanged
    rw [noTrace] at released
    have lockedStrict :
        { handles with lock := true }.heap.Strict :=
      strict
    exact (strict_storePrev (strict_storeLink lockedStrict links)
      unlinks).release released

theorem strict_collectLoop
    {fuel : Nat}
    (noTrace : runtime.scrub = fun _ => none)
    (strict : handles.heap.Strict)
    (collects :
      collectLoop runtime fuel handles state = .ok (changed, final)) :
    changed.heap.Strict := by
  induction fuel generalizing handles state with
  | zero =>
      unfold collectLoop at collects
      split at collects
      · cases collects
        exact strict
      · cases collects
  | succ fuel inductionHypothesis =>
      unfold collectLoop at collects
      split at collects
      · cases collects
        exact strict
      · obtain ⟨block, _, rest⟩ := bind_eq_ok.mp collects
        split at rest
        · cases rest
        · obtain ⟨_, _, rest⟩ := bind_eq_ok.mp rest
          obtain ⟨_, _, rest⟩ := bind_eq_ok.mp rest
          obtain ⟨heap, released, rest⟩ := bind_eq_ok.mp rest
          rw [noTrace] at released
          exact inductionHypothesis (strict.release released) rest

theorem strict_resourceCollect
    (noTrace : runtime.scrub = fun _ => none)
    (strict : handles.heap.Strict)
    (collects :
      handles.resourceCollect runtime state = .ok (changed, final)) :
    changed.heap.Strict := by
  obtain ⟨locked, acquired, rest⟩ := bind_eq_ok.mp collects
  rw [← acquire_heap acquired] at strict
  obtain ⟨⟨collected, _⟩, loops, isChanged⟩ := bind_eq_ok.mp rest
  cases isChanged
  have collectedStrict := strict_collectLoop noTrace strict loops
  exact collectedStrict

/-- A completed `resource_free` of a non-null handle ran the finaliser of a
live resource that has a successor, and removed it from the list. -/
theorem Represents.resourceFree_completed
    {resources : List (Tracked Finaliser Payload)}
    {h : Addr}
    (represents : Represents handles resources)
    (strict : handles.heap.Strict)
    (nonNull : h ≠ 0)
    (freed : handles.resourceFree runtime state h = .ok (changed, final)) :
    ∃ leading resource successor trailing,
      resources = leading ++ resource :: successor :: trailing ∧
        h = handleOf resource.block ∧
        runtime.finalise resource.free h resource.payload state =
          .ok final ∧
        Represents changed (leading ++ successor :: trailing) := by
  obtain ⟨block, _, _, _, _, loaded, _⟩ := resourceFree_steps nonNull freed
  obtain ⟨leading, resource, later, rfl, isHandle⟩ :=
    represents.of_load strict loaded
  subst isHandle
  cases later with
  | nil =>
      rw [represents.resourceFree_oldest runtime state] at freed
      obtain ⟨_, _, isError⟩ := bind_eq_ok.mp freed
      cases isError
  | cons successor trailing =>
      obtain ⟨unlinked, frees, unlinkedRepresents⟩ :=
        represents.resourceFree runtime state
      rw [frees] at freed
      obtain ⟨finalised, finalises, isChanged⟩ := bind_eq_ok.mp freed
      cases isChanged
      exact ⟨leading, resource, successor, trailing, rfl, rfl, finalises,
        unlinkedRepresents⟩

/-- A completed `resource_collect` ran every finaliser and left no resource. -/
theorem Represents.resourceCollect_completed
    {resources : List (Tracked Finaliser Payload)}
    (represents : Represents handles resources)
    (collects :
      handles.resourceCollect runtime state = .ok (changed, final)) :
    Represents changed [] ∧
      finaliseAll runtime resources state = .ok final := by
  obtain ⟨collected, isEmpty, collection⟩ :=
    represents.resourceCollect runtime
  rw [collection state] at collects
  obtain ⟨finalised, finalises, isChanged⟩ := bind_eq_ok.mp collects
  cases isChanged
  exact ⟨isEmpty, finalises⟩

end Release

/-- A completed `resource_alloc` returns the handle of a new first resource. -/
theorem Represents.resourceAlloc_completed
    {resources : List (Tracked Finaliser Payload)}
    {buf h : Addr}
    {junk : Resource Finaliser Payload}
    {free : Finaliser}
    (represents : Represents handles resources)
    (allocator : buf = 0 ∨ handles.heap.Available buf)
    (allocated :
      handles.resourceAlloc buf junk free = .ok (changed, h)) :
    h = handleOf buf ∧
      handles.heap.Available buf ∧
      Represents changed
        ({ block := buf, free := free, payload := junk.payload } ::
          resources) := by
  rcases allocator with failed | available
  · subst failed
    obtain ⟨locked, acquired, rest⟩ := bind_eq_ok.mp allocated
    obtain ⟨linked, links, rest⟩ := bind_eq_ok.mp rest
    obtain ⟨block, loaded, _⟩ := bind_eq_ok.mp rest
    simp at loaded
  · obtain ⟨linked, allocates, linkedRepresents⟩ :=
      represents.resourceAlloc available junk free
    rw [allocates] at allocated
    cases allocated
    exact ⟨rfl, available, linkedRepresents⟩

end Handles

end Hamachi
