import Hamachi.HandlesRuns
import Hamachi.ResourceListCompletion

namespace Hamachi.Handles

variable {Finaliser Payload State : Type}

/-!
# Stale handles and the magic word

`resource_alloc` writes the magic word and nothing ever clears it.  On an
allocator that leaves the bytes of a freed block alone, the block of every
handle that was ever given out still carries the magic word, whether its
resource is live or not.
-/

/-- The magic word that a load through the address would find. -/
def magicAt
    (heap : Heap (Resource Finaliser Payload))
    (address : Addr) : Option Nat :=
  (heap.load address).toOption.map Resource.magic

/-- The handles that a run gave out. -/
structure Issued where
  /-- The handles of each live resource, its present one first. -/
  live : List (List Addr)
  /-- The handles of the freed resources. -/
  stale : List Addr
  deriving DecidableEq

namespace Call

/-- What a call does to the handles that were given out. -/
def issue (issued : Issued) : Call Finaliser Payload → Issued
  | .alloc buf _ _ =>
      { issued with live := [handleOf buf] :: issued.live }
  | .realloc h moved _ =>
      { issued with
        live := issued.live.map fun names =>
          if names.head? = some h then handleOf moved :: names else names }
  | .free h =>
      { live := issued.live.filter fun names => names.head? ≠ some h
        stale :=
          (issued.live.filter fun names => names.head? = some h).flatten ++
            issued.stale }

/-- The handle that a call is given. -/
def handle? : Call Finaliser Payload → Option Addr
  | .alloc _ _ _ => none
  | .realloc h _ _ => some h
  | .free h => some h

/-- The call aborts before any finaliser: whatever the finalisers would do. -/
def Caught
    (runtime : Runtime Finaliser Payload State)
    (reached : Handles Finaliser Payload × State)
    (call : Call Finaliser Payload) : Prop :=
  ∀ finalise,
    call.perform { runtime with finalise := finalise } reached =
      .error .aborted

end Call

/-- The handles given out by a sequence of calls. -/
def issuedAfterAll
    (issued : Issued)
    (calls : List (Call Finaliser Payload)) : Issued :=
  calls.foldl Call.issue issued

/-- The handles of a run that were ever given out. -/
def Issued.all (issued : Issued) : List Addr :=
  issued.live.flatten ++ issued.stale

section Blocks

variable {heap changed : Heap (Resource Finaliser Payload)}

theorem magicAt_eq_some
    {address : Addr}
    {word : Nat} :
    magicAt heap address = some word ↔
      ∃ block, heap.load address = .ok block ∧ block.magic = word := by
  unfold magicAt
  cases heap.load address <;> simp [Except.toOption]

/-- A readable block is at hand after each change of it. -/
theorem magicAt_set
    {address : Addr}
    {old : Resource Finaliser Payload}
    (loaded : heap.load address = .ok old)
    (block : Resource Finaliser Payload) :
    magicAt (heap.set address block) =
      Function.update (magicAt heap) address (some block.magic) := by
  funext other
  by_cases isAddress : other = address
  · subst isAddress
    rw [Function.update_self, magicAt_eq_some]
    exact ⟨block, Heap.load_set_same heap (Heap.load_ne_null loaded) block,
      rfl⟩
  · rw [Function.update_of_ne isAddress]
    unfold magicAt
    rw [Heap.load_set_other heap isAddress]

/-- A store that keeps the magic word of its block changes none. -/
theorem magicAt_store
    {address : Addr}
    {old block : Resource Finaliser Payload}
    (loaded : heap.load address = .ok old)
    (stores : heap.store address block = .ok changed)
    (sameMagic : block.magic = old.magic) :
    magicAt changed = magicAt heap := by
  rw [Heap.store_of_load loaded] at stores
  cases stores
  rw [magicAt_set loaded, sameMagic]
  exact Function.update_eq_self_iff.mpr
    (magicAt_eq_some.mpr ⟨old, loaded, rfl⟩).symm

theorem magicAt_malloc
    {address : Addr}
    (nonNull : address ≠ 0)
    (junk : Resource Finaliser Payload) :
    magicAt (heap.malloc address junk) =
      Function.update (magicAt heap) address (some junk.magic) := by
  funext other
  by_cases isAddress : other = address
  · subst isAddress
    rw [Function.update_self, magicAt_eq_some]
    exact ⟨junk, Heap.load_malloc_same heap nonNull junk, rfl⟩
  · rw [Function.update_of_ne isAddress]
    unfold magicAt
    rw [Heap.load_malloc_other heap isAddress]

/-- A block that is released with its bytes in place keeps its magic word. -/
theorem magicAt_release
    {address : Addr}
    (releases : heap.release some address = .ok changed) :
    magicAt changed = magicAt heap := by
  unfold Heap.release at releases
  split at releases
  · cases releases
    rfl
  · split at releases
    · cases releases
      rw [Option.bind_fun_some, Function.update_eq_self]
      rfl
    · cases releases

/-- The old block of a `realloc` keeps its magic word too. -/
theorem magicAt_realloc
    {address moved : Addr}
    {old block : Resource Finaliser Payload}
    (loaded : heap.load address = .ok old)
    (nonNull : moved ≠ 0)
    (moves : heap.realloc some address moved block = .ok changed) :
    magicAt changed =
      Function.update (magicAt heap) moved (some block.magic) := by
  unfold Heap.realloc at moves
  split at moves
  · rename_i inPlace
    subst inPlace
    rw [Heap.store_of_load loaded] at moves
    cases moves
    exact magicAt_set loaded block
  · rw [magicAt_release moves, magicAt_malloc nonNull]

end Blocks

section Steps

variable {handles changed : Handles Finaliser Payload}

theorem magicAt_storeLink
    {link : Link}
    {target : Addr}
    (stores : handles.storeLink link target = .ok changed) :
    magicAt changed.heap = magicAt handles.heap := by
  cases link with
  | list =>
      cases stores
      rfl
  | next owner =>
      obtain ⟨block, loaded, stores⟩ := bind_eq_ok.mp stores
      obtain ⟨heap, writes, stores⟩ := bind_eq_ok.mp stores
      cases stores
      exact magicAt_store loaded writes rfl

theorem magicAt_storePrev
    {node : Addr}
    {link : Link}
    (stores : handles.storePrev node link = .ok changed) :
    magicAt changed.heap = magicAt handles.heap := by
  obtain ⟨block, loaded, stores⟩ := bind_eq_ok.mp stores
  obtain ⟨heap, writes, stores⟩ := bind_eq_ok.mp stores
  cases stores
  exact magicAt_store loaded writes rfl

theorem magicAt_linkHead
    {buf : Addr}
    (links : handles.linkHead buf = .ok changed) :
    magicAt changed.heap = magicAt handles.heap := by
  unfold linkHead at links
  split at links
  · exact magicAt_storePrev links
  · cases links
    rfl

/-- An allocation writes the magic word of its block. -/
theorem magicAt_resourceAlloc
    {buf h : Addr}
    {junk : Resource Finaliser Payload}
    {free : Finaliser}
    (allocates : handles.resourceAlloc buf junk free = .ok (changed, h)) :
    h = handleOf buf ∧
      changed.lock = false ∧
      magicAt changed.heap =
        Function.update (magicAt handles.heap) buf (some magic) := by
  obtain ⟨locked, acquires, allocates⟩ := bind_eq_ok.mp allocates
  obtain ⟨linked, links, allocates⟩ := bind_eq_ok.mp allocates
  obtain ⟨block, loaded, allocates⟩ := bind_eq_ok.mp allocates
  obtain ⟨heap, stores, allocates⟩ := bind_eq_ok.mp allocates
  cases allocates
  rw [Heap.store_of_load loaded] at stores
  cases stores
  refine ⟨rfl, rfl, ?_⟩
  calc
    magicAt (linked.heap.set buf _) =
        Function.update (magicAt linked.heap) buf (some magic) :=
      magicAt_set loaded _
    _ = Function.update (magicAt handles.heap) buf (some magic) := by
      rw [magicAt_linkHead links, acquire_heap acquires,
        magicAt_malloc (Heap.load_ne_null loaded), Function.update_idem]

/-- A reallocation writes the magic word of the new block, and the old block
keeps its own. -/
theorem magicAt_resourceRealloc
    {runtime : Runtime Finaliser Payload State}
    (keepsBytes : runtime.scrub = some)
    {h moved returned : Addr}
    {payload : Payload}
    (reallocates :
      handles.resourceRealloc runtime h moved payload =
        .ok (changed, returned)) :
    returned = handleOf moved ∧
      changed.lock = false ∧
      magicAt changed.heap =
        Function.update (magicAt handles.heap) moved (some magic) := by
  obtain ⟨locked, acquires, reallocates⟩ := bind_eq_ok.mp reallocates
  obtain ⟨block, loaded, reallocates⟩ := bind_eq_ok.mp reallocates
  split at reallocates
  · cases reallocates
  · rename_i hasMagic
    obtain ⟨heap, moves, reallocates⟩ := bind_eq_ok.mp reallocates
    obtain ⟨arrived, arrives, reallocates⟩ := bind_eq_ok.mp reallocates
    obtain ⟨linked, links, reallocates⟩ := bind_eq_ok.mp reallocates
    obtain ⟨again, reloaded, reallocates⟩ := bind_eq_ok.mp reallocates
    obtain ⟨repaired, repairs, reallocates⟩ := bind_eq_ok.mp reallocates
    cases reallocates
    have carried : block.magic = magic := not_not.mp hasMagic
    refine ⟨rfl, rfl, ?_⟩
    calc
      magicAt repaired.heap = magicAt linked.heap := magicAt_storePrev repairs
      _ = magicAt heap := magicAt_storeLink links
      _ = Function.update (magicAt locked.heap) moved (some magic) := by
        rw [keepsBytes] at moves
        rw [magicAt_realloc loaded (Heap.load_ne_null arrives) moves,
          carried]
      _ = Function.update (magicAt handles.heap) moved (some magic) := by
        rw [acquire_heap acquires]

/-- A release changes no magic word. -/
theorem magicAt_resourceFree
    {runtime : Runtime Finaliser Payload State}
    (keepsBytes : runtime.scrub = some)
    {state final : State}
    {h : Addr}
    (unlocked : handles.lock = false)
    (frees :
      handles.resourceFree runtime state h = .ok (changed, final)) :
    changed.lock = false ∧ magicAt changed.heap = magicAt handles.heap := by
  by_cases isNull : h = 0
  · subst isNull
    cases frees
    exact ⟨unlocked, rfl⟩
  · obtain ⟨_, linked, _, unlinked, heap, _, _, _, links, _, unlinks,
        releases, isChanged⟩ :=
      resourceFree_steps isNull frees
    subst isChanged
    rw [keepsBytes] at releases
    refine ⟨rfl, ?_⟩
    calc
      magicAt heap = magicAt unlinked.heap := magicAt_release releases
      _ = magicAt linked.heap := magicAt_storePrev unlinks
      _ = magicAt { handles with lock := true }.heap :=
        magicAt_storeLink links
      _ = magicAt handles.heap := rfl

end Steps

/-- Every handle that was given out leads to a block with the magic word. -/
def Issued.Marked
    (issued : Issued)
    (heap : Heap (Resource Finaliser Payload)) : Prop :=
  ∀ h,
    h ∈ issued.all →
    ∃ block, h = handleOf block ∧ magicAt heap block = some magic

namespace Issued

variable
  {issued : Issued}
  {heap changed : Heap (Resource Finaliser Payload)}

/-- Writing one more magic word hides no other. -/
theorem Marked.update
    {block : Addr}
    (marked : issued.Marked heap)
    (writes :
      magicAt changed = Function.update (magicAt heap) block (some magic)) :
    issued.Marked changed := by
  intro h member
  obtain ⟨other, isHandle, hasMagic⟩ := marked h member
  refine ⟨other, isHandle, ?_⟩
  rw [writes]
  by_cases same : other = block
  · rw [same, Function.update_self]
  · rw [Function.update_of_ne same, hasMagic]

/-- The handles after a call were there before, or name its new block. -/
theorem mem_all_issue
    {call : Call Finaliser Payload}
    {h : Addr}
    (member : h ∈ (call.issue issued).all) :
    h ∈ issued.all ∨
      match call with
      | .alloc buf _ _ => h = handleOf buf
      | .realloc _ moved _ => h = handleOf moved
      | .free _ => False := by
  unfold all at member ⊢
  cases call with
  | alloc buf junk free =>
      simp only [Call.issue, List.flatten_cons, List.cons_append,
        List.nil_append, List.mem_cons] at member
      exact member.symm
  | realloc old moved payload =>
      simp only [Call.issue, List.mem_append, List.mem_flatten,
        List.mem_map, exists_exists_and_eq_and] at member ⊢
      rcases member with ⟨names, isLive, member⟩ | isStale
      · split at member
        · rcases List.mem_cons.mp member with isNew | member
          · exact .inr isNew
          · exact .inl (.inl ⟨names, isLive, member⟩)
        · exact .inl (.inl ⟨names, isLive, member⟩)
      · exact .inl (.inr isStale)
  | free old =>
      simp only [Call.issue, List.mem_append, List.mem_flatten,
        List.mem_filter] at member ⊢
      rcases member with ⟨names, ⟨isLive, _⟩, member⟩ |
        ⟨names, ⟨isLive, _⟩, member⟩ | isStale
      · exact .inl (.inl ⟨names, isLive, member⟩)
      · exact .inl (.inl ⟨names, isLive, member⟩)
      · exact .inl (.inr isStale)

end Issued

/-- A call leaves the lock free and every handle marked. -/
theorem Call.perform_marked
    {runtime : Runtime Finaliser Payload State}
    (keepsBytes : runtime.scrub = some)
    {handles changed : Handles Finaliser Payload}
    {state final : State}
    {call : Call Finaliser Payload}
    {issued : Issued}
    (unlocked : handles.lock = false)
    (marked : issued.Marked handles.heap)
    (performs :
      call.perform runtime (handles, state) = .ok (changed, final)) :
    changed.lock = false ∧ (call.issue issued).Marked changed.heap := by
  cases call with
  | alloc buf junk free =>
      obtain ⟨⟨allocated, returned⟩, allocates, performs⟩ :=
        bind_eq_ok.mp performs
      cases performs
      obtain ⟨_, free, writes⟩ := magicAt_resourceAlloc allocates
      refine ⟨free, fun h member => ?_⟩
      rcases Issued.mem_all_issue member with member | isNew
      · exact marked.update writes h member
      · exact ⟨buf, isNew, by rw [writes, Function.update_self]⟩
  | realloc old moved payload =>
      obtain ⟨⟨moves, returned⟩, reallocates, performs⟩ :=
        bind_eq_ok.mp performs
      cases performs
      obtain ⟨_, free, writes⟩ :=
        magicAt_resourceRealloc keepsBytes reallocates
      refine ⟨free, fun h member => ?_⟩
      rcases Issued.mem_all_issue member with member | isNew
      · exact marked.update writes h member
      · exact ⟨moved, isNew, by rw [writes, Function.update_self]⟩
  | free old =>
      obtain ⟨free, same⟩ :=
        magicAt_resourceFree keepsBytes unlocked performs
      refine ⟨free, fun h member => ?_⟩
      rcases Issued.mem_all_issue member with member | impossible
      · rw [same]
        exact marked h member
      · exact impossible.elim

/-- The same holds of a whole run. -/
theorem run_marked
    {runtime : Runtime Finaliser Payload State}
    (keepsBytes : runtime.scrub = some)
    {calls : List (Call Finaliser Payload)}
    {start final : Handles Finaliser Payload × State}
    {issued : Issued}
    (unlocked : start.1.lock = false)
    (marked : issued.Marked start.1.heap)
    (runs : run runtime start calls = .ok final) :
    final.1.lock = false ∧
      (issuedAfterAll issued calls).Marked final.1.heap := by
  induction calls generalizing start issued with
  | nil =>
      cases runs
      exact ⟨unlocked, marked⟩
  | cons call rest inductionHypothesis =>
      rw [run, List.foldlM_cons] at runs
      obtain ⟨middle, performs, runs⟩ := bind_eq_ok.mp runs
      obtain ⟨free, stillMarked⟩ :=
        Call.perform_marked keepsBytes unlocked marked performs
      exact inductionHypothesis free stillMarked runs

/-- A computation aborts only where one of its parts does. -/
theorem bind_ne_aborted
    {α β : Type}
    {first : Except Fault α}
    {next : α → Except Fault β}
    (here : first ≠ .error .aborted)
    (later : ∀ value, next value ≠ .error .aborted) :
    first >>= next ≠ .error .aborted := by
  cases first with
  | error fault =>
      intro same
      cases same
      exact here rfl
  | ok value =>
      exact later value

section NoAborts

variable
  {Block : Type}
  (heap : Heap Block)
  (address : Addr)

theorem load_ne_aborted : heap.load address ≠ .error .aborted := by
  unfold Heap.load
  split
  · simp
  · split <;> simp

theorem store_ne_aborted
    (block : Block) :
    heap.store address block ≠ .error .aborted :=
  bind_ne_aborted (load_ne_aborted heap address) fun _ => by simp

theorem release_ne_aborted
    (scrub : Block → Option Block) :
    heap.release scrub address ≠ .error .aborted := by
  unfold Heap.release
  split
  · simp
  · split <;> simp

theorem realloc_ne_aborted
    (scrub : Block → Option Block)
    (moved : Addr)
    (block : Block) :
    heap.realloc scrub address moved block ≠ .error .aborted := by
  unfold Heap.realloc
  split
  · exact store_ne_aborted heap address block
  · exact release_ne_aborted _ address scrub

end NoAborts

section Uses

variable
  {runtime : Runtime Finaliser Payload State}
  (handles : Handles Finaliser Payload)

theorem storeLink_ne_aborted
    (link : Link)
    (target : Addr) :
    handles.storeLink link target ≠ .error .aborted := by
  cases link with
  | list =>
      simp [storeLink]
  | next owner =>
      exact bind_ne_aborted (load_ne_aborted _ owner) fun _ =>
        bind_ne_aborted (store_ne_aborted _ owner _) fun _ => by simp

theorem storePrev_ne_aborted
    (node : Addr)
    (link : Link) :
    handles.storePrev node link ≠ .error .aborted :=
  bind_ne_aborted (load_ne_aborted _ node) fun _ =>
    bind_ne_aborted (store_ne_aborted _ node _) fun _ => by simp

variable {handles} {address : Addr}

/-- A release of a marked block calls its finaliser. -/
theorem resourceFree_marked
    (unlocked : handles.lock = false)
    (hasMagic : magicAt handles.heap address = some magic)
    (state : State)
    (fault : Fault) :
    handles.resourceFree
        { runtime with finalise := fun _ _ _ _ => .error fault } state
        (handleOf address) =
      .error fault := by
  obtain ⟨block, loaded, isMagic⟩ := magicAt_eq_some.mp hasMagic
  unfold resourceFree acquire
  simp [handleOf_ne_null, unlocked, loaded, isMagic]

/-- A reallocation of a marked block passes its check. -/
theorem resourceRealloc_marked
    (unlocked : handles.lock = false)
    (hasMagic : magicAt handles.heap address = some magic)
    (moved : Addr)
    (payload : Payload) :
    handles.resourceRealloc runtime (handleOf address) moved payload ≠
      .error .aborted := by
  obtain ⟨block, loaded, isMagic⟩ := magicAt_eq_some.mp hasMagic
  unfold resourceRealloc acquire
  simp only [unlocked, resourceOf_handleOf, loaded, isMagic, ok_bind,
    ne_eq, not_true_eq_false, Bool.false_eq_true, ↓reduceIte]
  refine bind_ne_aborted (realloc_ne_aborted _ _ _ _ _) fun heap => ?_
  refine bind_ne_aborted (load_ne_aborted _ _) fun arrived => ?_
  refine bind_ne_aborted (storeLink_ne_aborted _ _ _) fun linked => ?_
  refine bind_ne_aborted (load_ne_aborted _ _) fun again => ?_
  refine bind_ne_aborted (storePrev_ne_aborted _ _ _) fun repaired => ?_
  simp

end Uses

/-- After the calls, each use of a freed resource's handle aborts at the magic
check. -/
def CatchesStale
    (runtime : Runtime Finaliser Payload State)
    (state : State)
    (calls : List (Call Finaliser Payload)) : Prop :=
  ∀ reached,
    run runtime (initial, state) calls = .ok reached →
    ∀ call : Call Finaliser Payload,
      ∀ h,
        call.handle? = some h →
        h ∈ (issuedAfterAll ⟨[], []⟩ calls).stale →
        call.Caught runtime reached

/-- No use of a stale handle aborts at the magic check, in any run: nothing
clears the magic word of a resource that is freed or moved. -/
theorem not_caught_of_stale
    {runtime : Runtime Finaliser Payload State}
    (keepsBytes : runtime.scrub = some)
    {state : State}
    {calls : List (Call Finaliser Payload)}
    {reached : Handles Finaliser Payload × State}
    (runs : run runtime (initial, state) calls = .ok reached)
    {call : Call Finaliser Payload}
    {h : Addr}
    (uses : call.handle? = some h)
    (stale : h ∈ (issuedAfterAll ⟨[], []⟩ calls).stale) :
    ¬call.Caught runtime reached := by
  obtain ⟨unlocked, marked⟩ :=
    @run_marked _ _ _ runtime keepsBytes _ (initial, state) _ ⟨[], []⟩
      rfl (fun _ member => (List.not_mem_nil member).elim) runs
  obtain ⟨block, rfl, hasMagic⟩ := marked h (List.mem_append_right _ stale)
  intro caught
  cases call with
  | alloc buf junk free =>
      cases uses
  | realloc old moved payload =>
      cases uses
      exact
        bind_ne_aborted
          (resourceRealloc_marked unlocked hasMagic moved payload)
          (fun _ => by simp) (caught runtime.finalise)
  | free old =>
      cases uses
      -- A finaliser that never comes back is reached all the same.
      have aborts := caught fun _ _ _ _ => .error .deadlocked
      have reaches :=
        @resourceFree_marked _ _ _ runtime _ _ unlocked hasMagic reached.2
          .deadlocked
      exact absurd (reaches.symm.trans aborts) (by simp)

/-- A runtime whose allocator leaves the bytes of freed blocks alone. -/
def keepingRuntime : Runtime Unit Unit Unit where
  finalise := fun _ _ _ state => .ok state
  scrub := some

/-- The newer of two resources is released. -/
def releaseNewer : List (Call Unit Unit) :=
  [.alloc 64 unwritten (), .alloc 200 unwritten (), .free (handleOf 200)]

/-- A second release of its handle is not caught. -/
theorem not_caught_of_stale_newer :
    ∃ reached,
      run keepingRuntime (initial, ()) releaseNewer = .ok reached ∧
        ¬(Call.free (handleOf 200)).Caught keepingRuntime reached :=
  ⟨_, rfl,
    @not_caught_of_stale _ _ _ keepingRuntime rfl () releaseNewer _ rfl _ _
      rfl (by decide)⟩

/-- The released handle passes the check again. -/
theorem not_catchesStale_releaseNewer :
    ¬CatchesStale keepingRuntime () releaseNewer := by
  intro catches
  have aborts :=
    catches _ rfl (.free (handleOf 200)) (handleOf 200) rfl (by decide)
      fun _ _ _ _ => .error .deadlocked
  cases aborts

end Hamachi.Handles
