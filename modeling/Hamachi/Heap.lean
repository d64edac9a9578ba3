import Mathlib.Data.Finset.Insert
import Mathlib.Data.Finset.Card
import Mathlib.Logic.Function.Basic

namespace Hamachi

/-!
# Faults and block heaps

A heap maps addresses to typed blocks.  The allocator's own view of a block
(`live`) is kept apart from what a load through a stale pointer would still
find (`cell`), because C programs can observe the difference: a freed block may
keep its bytes, be overwritten or become unreadable.  The policy is the `scrub`
argument of `Heap.release`.
-/

/-- The ways in which a C execution stops instead of returning. -/
inductive Fault where
  | nullPointer
  | invalidPointer
  | outOfBounds
  | aborted
  | deadlocked
  | outOfFuel
  deriving Repr, DecidableEq

/-- Invert a successful bind into its two successful halves. -/
theorem bind_eq_ok
    {first : Except Fault α}
    {next : α → Except Fault β}
    {result : β} :
    (first >>= next) = .ok result ↔
      ∃ value, first = .ok value ∧ next value = .ok result := by
  cases first with
  | error fault =>
      simp [bind, Except.bind]
  | ok value =>
      simp [bind, Except.bind]

@[simp] theorem ok_bind
    (value : α)
    (next : α → Except Fault β) :
    ((Except.ok value : Except Fault α) >>= next) = next value :=
  rfl

@[simp] theorem error_bind
    (fault : Fault)
    (next : α → Except Fault β) :
    ((Except.error fault : Except Fault α) >>= next) = .error fault :=
  rfl

/-- An address; `0` is the null pointer. -/
abbrev Addr := Nat

/-- A memory of typed blocks, together with the allocator's live set. -/
structure Heap (Block : Type) where
  cell : Addr → Option Block
  live : Finset Addr

namespace Heap

variable {Block : Type}

/-- The heap before the first allocation. -/
def empty : Heap Block where
  cell := fun _ => none
  live := ∅

/-- What `malloc` may return on success. -/
def Available (heap : Heap Block) (address : Addr) : Prop :=
  address ≠ 0 ∧ address ∉ heap.live

instance (heap : Heap Block) (address : Addr) :
    Decidable (heap.Available address) :=
  inferInstanceAs (Decidable (_ ∧ _))

/-- Read a block through a pointer. -/
def load (heap : Heap Block) (address : Addr) : Except Fault Block :=
  if address = 0 then
    .error .nullPointer
  else
    match heap.cell address with
    | none => .error .invalidPointer
    | some block => .ok block

/-- Replace the contents of a block without checking the pointer. -/
def set (heap : Heap Block) (address : Addr) (block : Block) : Heap Block :=
  { heap with cell := Function.update heap.cell address (some block) }

/-- Write a block through a pointer. -/
def store
    (heap : Heap Block)
    (address : Addr)
    (block : Block) : Except Fault (Heap Block) := do
  let _ ← heap.load address
  .ok (heap.set address block)

/--
Record that `malloc` returned `address`; a fresh block holds `junk`.  A failed
`malloc` returns the null pointer and leaves the heap alone.
-/
def malloc (heap : Heap Block) (address : Addr) (junk : Block) : Heap Block :=
  if address = 0 then
    heap
  else
    { cell := Function.update heap.cell address (some junk)
      live := insert address heap.live }

/-- `free`: only a live block may be released, and `scrub` says what is left. -/
def release
    (scrub : Block → Option Block)
    (heap : Heap Block)
    (address : Addr) : Except Fault (Heap Block) :=
  if address = 0 then
    .ok heap
  else if address ∈ heap.live then
    .ok
      { cell :=
          Function.update heap.cell address ((heap.cell address).bind scrub)
        live := heap.live.erase address }
  else
    .error .invalidPointer

/-- `realloc` of a live block, which the host may leave in place or move. -/
def realloc
    (scrub : Block → Option Block)
    (heap : Heap Block)
    (address moved : Addr)
    (block : Block) : Except Fault (Heap Block) :=
  if moved = address then
    heap.store address block
  else
    (heap.malloc moved block).release scrub address

/-- A successful load goes through a non-null pointer. -/
theorem load_ne_null
    {heap : Heap Block}
    {address : Addr}
    {block : Block}
    (loaded : heap.load address = .ok block) :
    address ≠ 0 := by
  rintro rfl
  simp [load] at loaded

@[simp] theorem load_null (heap : Heap Block) :
    heap.load 0 = .error .nullPointer := by
  simp [load]

/-- A store through a readable pointer replaces the block. -/
theorem store_of_load
    {heap : Heap Block}
    {address : Addr}
    {old : Block}
    (loaded : heap.load address = .ok old)
    (block : Block) :
    heap.store address block = .ok (heap.set address block) := by
  simp [store, loaded]

theorem load_set_same
    (heap : Heap Block)
    {address : Addr}
    (nonNull : address ≠ 0)
    (block : Block) :
    (heap.set address block).load address = .ok block := by
  simp [load, set, nonNull]

theorem load_set_other
    (heap : Heap Block)
    {address other : Addr}
    (different : other ≠ address)
    (block : Block) :
    (heap.set address block).load other = heap.load other := by
  simp [load, set, different]

@[simp] theorem live_set
    (heap : Heap Block)
    (address : Addr)
    (block : Block) :
    (heap.set address block).live = heap.live :=
  rfl

theorem load_malloc_same
    (heap : Heap Block)
    {address : Addr}
    (nonNull : address ≠ 0)
    (junk : Block) :
    (heap.malloc address junk).load address = .ok junk := by
  simp [load, malloc, nonNull]

theorem load_malloc_other
    (heap : Heap Block)
    {address other : Addr}
    (different : other ≠ address)
    (junk : Block) :
    (heap.malloc address junk).load other = heap.load other := by
  unfold malloc
  split
  · rfl
  · simp [load, different]

theorem live_malloc
    (heap : Heap Block)
    {address : Addr}
    (nonNull : address ≠ 0)
    (junk : Block) :
    (heap.malloc address junk).live = insert address heap.live := by
  simp [malloc, nonNull]

/-- Releasing a live block only changes that block. -/
theorem release_live
    (scrub : Block → Option Block)
    (heap : Heap Block)
    {address : Addr}
    (nonNull : address ≠ 0)
    (member : address ∈ heap.live) :
    ∃ released,
      heap.release scrub address = .ok released ∧
        released.live = heap.live.erase address ∧
        ∀ other, other ≠ address →
          released.load other = heap.load other := by
  refine
    ⟨{ cell :=
          Function.update heap.cell address ((heap.cell address).bind scrub)
       live := heap.live.erase address },
      by simp [release, nonNull, member], rfl, ?_⟩
  intro other different
  simp [load, different]

/-- A successful `realloc` moves the block and touches no other. -/
theorem realloc_live
    (scrub : Block → Option Block)
    {heap : Heap Block}
    {address moved : Addr}
    {old : Block}
    (loaded : heap.load address = .ok old)
    (member : address ∈ heap.live)
    (target : moved = address ∨ heap.Available moved)
    (block : Block) :
    ∃ changed,
      heap.realloc scrub address moved block = .ok changed ∧
        changed.load moved = .ok block ∧
        changed.live = insert moved (heap.live.erase address) ∧
        ∀ other, other ≠ address → other ≠ moved →
          changed.load other = heap.load other := by
  have nonNull := load_ne_null loaded
  rcases target with inPlace | available
  · subst inPlace
    refine ⟨heap.set moved block, ?_, load_set_same heap nonNull block,
      (Finset.insert_erase member).symm, ?_⟩
    · simp [realloc, store_of_load loaded]
    · intro other different _
      exact load_set_other heap different block
  · have different : moved ≠ address := by
      rintro rfl
      exact available.2 member
    obtain ⟨changed, released, live, others⟩ :=
      release_live scrub (heap.malloc moved block) nonNull
        (by
          rw [live_malloc heap available.1 block]
          exact Finset.mem_insert_of_mem member)
    refine ⟨changed, ?_, ?_, ?_, ?_⟩
    · simp [realloc, different, released]
    · rw [others moved different, load_malloc_same heap available.1 block]
    · rw [live, live_malloc heap available.1 block,
        Finset.erase_insert_of_ne different]
    · intro other notOld notMoved
      rw [others other notOld, load_malloc_other heap notMoved block]

end Heap

end Hamachi
