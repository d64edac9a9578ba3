import Hamachi.Heap

namespace Hamachi

/-!
# The resource list of `handles.c`

Every object of the emulated program is a heap block headed by a
`struct Resource`.  The blocks form an intrusive list with back links of type
`struct Resource**`: a back link is either the address of the static variable
`list` or the address of another block's `next` field.

The payload behind the header and the finalisers are parameters.  A finaliser
runs with the lock held and acts on the rest of the process state only.
-/

/-- The values of a `struct Resource**`. -/
inductive Link where
  | list
  | next (owner : Addr)
  deriving Repr, DecidableEq

/-- `struct Resource`, followed by the payload that its handle points to. -/
structure Resource (Finaliser Payload : Type) where
  magic : Nat
  next : Addr
  prev : Link
  free : Finaliser
  payload : Payload
  deriving Repr, DecidableEq

/-- The static variables of `handles.c` and the blocks they lead to. -/
structure Handles (Finaliser Payload : Type) where
  heap : Heap (Resource Finaliser Payload)
  list : Addr
  lock : Bool

/-- What the list code needs from its surroundings. -/
structure Runtime (Finaliser Payload State : Type) where
  finalise : Finaliser → Addr → Payload → State → Except Fault State
  scrub :
    Resource Finaliser Payload → Option (Resource Finaliser Payload)

/-- `MAGIC`. -/
def magic : Nat := 0xfee1deaddeadbeef

/-- `sizeof(struct Resource)`. -/
def sizeofResource : Nat := 32

/-- The handle of a block: `buf + 1`. -/
def handleOf (buf : Addr) : Addr := buf + sizeofResource

/-- The block of a handle: `(struct Resource*)h - 1`. -/
def resourceOf (h : Addr) : Addr := h - sizeofResource

@[simp] theorem resourceOf_handleOf (buf : Addr) :
    resourceOf (handleOf buf) = buf := by
  simp [resourceOf, handleOf]

theorem handleOf_ne_null (buf : Addr) : handleOf buf ≠ 0 := by
  simp [handleOf, sizeofResource]

theorem handleOf_injective : Function.Injective handleOf := by
  intro first second same
  simpa [handleOf] using same

namespace Handles

variable {Finaliser Payload State : Type}

/-- The statics at program start. -/
def initial : Handles Finaliser Payload where
  heap := .empty
  list := 0
  lock := false

/-- `LOCK()`: a single thread that already holds the lock spins forever. -/
def acquire
    (handles : Handles Finaliser Payload) :
    Except Fault (Handles Finaliser Payload) :=
  if handles.lock then
    .error .deadlocked
  else
    .ok { handles with lock := true }

/-- `UNLOCK()`. -/
def unlock (handles : Handles Finaliser Payload) :
    Handles Finaliser Payload :=
  { handles with lock := false }

/-- The assignment `*link = target`. -/
def storeLink
    (handles : Handles Finaliser Payload)
    (link : Link)
    (target : Addr) : Except Fault (Handles Finaliser Payload) :=
  match link with
  | .list =>
      .ok { handles with list := target }
  | .next owner => do
      let block ← handles.heap.load owner
      let heap ← handles.heap.store owner { block with next := target }
      .ok { handles with heap := heap }

/-- The assignment `node->prev = link`. -/
def storePrev
    (handles : Handles Finaliser Payload)
    (node : Addr)
    (link : Link) : Except Fault (Handles Finaliser Payload) := do
  let block ← handles.heap.load node
  let heap ← handles.heap.store node { block with prev := link }
  .ok { handles with heap := heap }

/-- A store to the payload behind a handle, such as `*(int*)h = fd`. -/
def storePayload
    (handles : Handles Finaliser Payload)
    (h : Addr)
    (payload : Payload) : Except Fault (Handles Finaliser Payload) := do
  let block ← handles.heap.load (resourceOf h)
  let heap ← handles.heap.store (resourceOf h)
    { block with payload := payload }
  .ok { handles with heap := heap }

/-- `if(list) list->prev = &buf->next;` -/
def linkHead
    (handles : Handles Finaliser Payload)
    (buf : Addr) : Except Fault (Handles Finaliser Payload) :=
  if handles.list ≠ 0 then
    handles.storePrev handles.list (.next buf)
  else
    .ok handles

/-- `resource_alloc`; `malloc` returned `buf`, whose bytes are `junk`. -/
def resourceAlloc
    (handles : Handles Finaliser Payload)
    (buf : Addr)
    (junk : Resource Finaliser Payload)
    (free : Finaliser) :
    Except Fault (Handles Finaliser Payload × Addr) := do
  let handles ← handles.acquire
  let handles := { handles with heap := handles.heap.malloc buf junk }
  let handles ← handles.linkHead buf
  let block ← handles.heap.load buf
  let heap ← handles.heap.store buf
    { block with
      magic := magic
      next := handles.list
      prev := .list
      free := free }
  let handles := { handles with heap := heap, list := buf }
  .ok (handles.unlock, handleOf buf)

/--
`resource_realloc`; `realloc` put the block at `moved` and left `payload` in
it.  The self-check `check_heap` is compiled out: its uses read `0 && 0`.
-/
def resourceRealloc
    (runtime : Runtime Finaliser Payload State)
    (handles : Handles Finaliser Payload)
    (h moved : Addr)
    (payload : Payload) :
    Except Fault (Handles Finaliser Payload × Addr) := do
  let handles ← handles.acquire
  let cur := resourceOf h
  let block ← handles.heap.load cur
  if block.magic ≠ magic then
    .error .aborted
  else do
    let heap ← handles.heap.realloc runtime.scrub cur moved
      { block with payload := payload }
    let handles := { handles with heap := heap }
    let block ← handles.heap.load moved
    let handles ← handles.storeLink block.prev moved
    let block ← handles.heap.load moved
    -- No test for the end of the list before `cur->next->prev`.
    let handles ← handles.storePrev block.next (.next moved)
    .ok (handles.unlock, handleOf moved)

/-- `resource_free`. -/
def resourceFree
    (runtime : Runtime Finaliser Payload State)
    (handles : Handles Finaliser Payload)
    (state : State)
    (h : Addr) :
    Except Fault (Handles Finaliser Payload × State) :=
  if h = 0 then
    .ok (handles, state)
  else do
    let res := resourceOf h
    let handles ← handles.acquire
    let block ← handles.heap.load res
    if block.magic ≠ magic then
      .error .aborted
    else do
      let state ← runtime.finalise block.free h block.payload state
      let handles ← handles.storeLink block.prev block.next
      let block ← handles.heap.load res
      -- No test for the end of the list before `res->next->prev`.
      let handles ← handles.storePrev block.next block.prev
      let handles := handles.unlock
      let heap ← handles.heap.release runtime.scrub res
      .ok ({ handles with heap := heap }, state)

/-- The loop of `resource_collect`. -/
def collectLoop
    (runtime : Runtime Finaliser Payload State) :
    Nat →
    Handles Finaliser Payload →
    State →
    Except Fault (Handles Finaliser Payload × State)
  | fuel, handles, state =>
      if handles.list = 0 then
        .ok (handles, state)
      else
        match fuel with
        | 0 => .error .outOfFuel
        | fuel + 1 => do
            let cur := handles.list
            let block ← handles.heap.load cur
            if block.magic ≠ magic then
              .error .aborted
            else do
              let state ←
                runtime.finalise block.free (handleOf cur)
                  block.payload state
              let block ← handles.heap.load cur
              let heap ← handles.heap.release runtime.scrub cur
              collectLoop runtime fuel
                { handles with heap := heap, list := block.next } state

/--
`resource_collect`.  Each turn of the loop releases a live block, so the number
of live blocks bounds the number of turns.
-/
def resourceCollect
    (runtime : Runtime Finaliser Payload State)
    (handles : Handles Finaliser Payload)
    (state : State) :
    Except Fault (Handles Finaliser Payload × State) := do
  let handles ← handles.acquire
  let (handles, state) ←
    collectLoop runtime handles.heap.live.card handles state
  .ok (handles.unlock, state)

/-- The steps of a `resource_free` that completes. -/
theorem resourceFree_steps
    {runtime : Runtime Finaliser Payload State}
    {handles changed : Handles Finaliser Payload}
    {state final : State}
    {h : Addr}
    (nonNull : h ≠ 0)
    (frees : handles.resourceFree runtime state h = .ok (changed, final)) :
    ∃ block linked again unlinked heap,
      handles.heap.load (resourceOf h) = .ok block ∧
        block.magic = magic ∧
        runtime.finalise block.free h block.payload state = .ok final ∧
        { handles with lock := true }.storeLink block.prev block.next =
          .ok linked ∧
        linked.heap.load (resourceOf h) = .ok again ∧
        linked.storePrev again.next again.prev = .ok unlinked ∧
        unlinked.heap.release runtime.scrub (resourceOf h) = .ok heap ∧
        changed = { unlinked.unlock with heap := heap } := by
  unfold resourceFree acquire at frees
  rw [if_neg nonNull] at frees
  obtain ⟨locked, acquires, frees⟩ := bind_eq_ok.mp frees
  split at acquires
  · cases acquires
  · cases acquires
    obtain ⟨block, loaded, frees⟩ := bind_eq_ok.mp frees
    split at frees
    · cases frees
    · rename_i isMagic
      obtain ⟨finalised, finalises, frees⟩ := bind_eq_ok.mp frees
      obtain ⟨linked, links, frees⟩ := bind_eq_ok.mp frees
      obtain ⟨again, reloaded, frees⟩ := bind_eq_ok.mp frees
      obtain ⟨unlinked, unlinks, frees⟩ := bind_eq_ok.mp frees
      obtain ⟨heap, releases, isChanged⟩ := bind_eq_ok.mp frees
      cases isChanged
      exact ⟨block, linked, again, unlinked, heap, loaded,
        not_not.mp isMagic, finalises, links, reloaded, unlinks, releases,
        rfl⟩

end Handles

end Hamachi
