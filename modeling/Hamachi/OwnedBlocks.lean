import Hamachi.Heap

namespace Hamachi

/-!
# Blocks that a program owns

A program knows some blocks of the heap and what they hold.  It may free those
and write to them; what it does to one leaves the others alone.  Blocks that it
forgets are leaked.
-/

/-- What a program knows of the heap: the contents of its blocks. -/
abbrev Owned (Block : Type) := Addr → Option Block

/-- One more block, unless the pointer is null. -/
def Owned.place
    {Block : Type}
    (owned : Owned Block)
    (address : Addr)
    (block : Block) : Owned Block :=
  if address = 0 then
    owned
  else
    Function.update owned address (some block)

/-- The blocks are live, hold what is known of them, and are among those
numbered so far. -/
def Owned.Backed
    {Block : Type}
    (owned : Owned Block)
    (heap : Heap Block)
    (allocated : Nat) : Prop :=
  ∀ address block, owned address = some block →
    address ≠ 0 ∧ address ≤ allocated ∧ address ∈ heap.live ∧
      heap.cell address = some block

section Place

variable
  {Block : Type}
  {owned : Owned Block}

@[simp] theorem Owned.place_null (block : Block) :
    owned.place 0 block = owned :=
  if_pos rfl

theorem Owned.place_same
    {address : Addr}
    (block : Block)
    (proper : address ≠ 0) :
    owned.place address block address = some block := by
  rw [Owned.place, if_neg proper, Function.update_self]

theorem Owned.place_other
    {address other : Addr}
    (block : Block)
    (different : other ≠ address) :
    owned.place address block other = owned other := by
  unfold Owned.place
  split
  · rfl
  · exact Function.update_of_ne different _ _

/-- Blocks at different addresses, in any order. -/
theorem Owned.place_comm
    {first second : Addr}
    (block other : Block)
    (different : first ≠ second) :
    (owned.place first block).place second other =
      (owned.place second other).place first block := by
  funext address
  by_cases atFirst : address = first
  · subst atFirst
    by_cases null : address = 0
    · subst null
      simp
    · rw [Owned.place_other _ different, Owned.place_same _ null,
        Owned.place_same _ null]
  · rw [Owned.place_other _ atFirst]
    by_cases atSecond : address = second
    · subst atSecond
      by_cases null : address = 0
      · subst null
        simp [Owned.place_other _ atFirst]
      · rw [Owned.place_same _ null, Owned.place_same _ null]
    · rw [Owned.place_other _ atSecond, Owned.place_other _ atFirst,
        Owned.place_other _ atSecond]

end Place

namespace Owned.Backed

variable
  {Block : Type}
  {owned : Owned Block}
  {heap : Heap Block}
  {allocated : Nat}

theorem null
    (backed : Owned.Backed owned heap allocated) :
    owned 0 = none := by
  cases content : owned 0 with
  | none =>
      rfl
  | some block =>
      exact absurd rfl (backed 0 block content).1

/-- The next block is none of those that are owned. -/
theorem next
    (backed : Owned.Backed owned heap allocated) :
    owned (allocated + 1) = none := by
  cases content : owned (allocated + 1) with
  | none =>
      rfl
  | some block =>
      exact absurd (backed _ block content).2.1 (Nat.not_succ_le_self _)

theorem load
    {address : Addr}
    {block : Block}
    (backed : Owned.Backed owned heap allocated)
    (content : owned address = some block) :
    heap.load address = .ok block := by
  obtain ⟨proper, -, -, cell⟩ := backed address block content
  rw [Heap.load, if_neg proper, cell]

/-- A block that is forgotten. -/
theorem forget
    {address : Addr}
    {block : Block}
    (backed : Owned.Backed (owned.place address block) heap allocated)
    (absent : owned address = none) :
    Owned.Backed owned heap allocated := by
  intro other content known
  refine backed other content ?_
  rw [Owned.place_other, known]
  rintro rfl
  rw [absent] at known
  cases known

theorem malloc
    (backed : Owned.Backed owned heap allocated)
    (block : Block) :
    Owned.Backed (owned.place (allocated + 1) block)
      (heap.malloc (allocated + 1) block) (allocated + 1) := by
  intro address content known
  have proper : allocated + 1 ≠ 0 := Nat.succ_ne_zero _
  rw [Heap.live_malloc heap proper, Heap.malloc, if_neg proper]
  by_cases same : address = allocated + 1
  · subst same
    rw [Owned.place_same _ proper] at known
    exact ⟨proper, le_rfl, Finset.mem_insert_self .., 
      (Function.update_self ..).trans known⟩
  · rw [Owned.place_other _ same] at known
    obtain ⟨notNull, numbered, live, cell⟩ := backed address content known
    exact ⟨notNull, Nat.le_succ_of_le numbered,
      Finset.mem_insert_of_mem live,
      (Function.update_of_ne same ..).trans cell⟩

theorem release
    {address : Addr}
    {block : Block}
    (scrub : Block → Option Block)
    (backed : Owned.Backed (owned.place address block) heap allocated)
    (absent : owned address = none) :
    ∃ released,
      heap.release scrub address = .ok released ∧
        Owned.Backed owned released allocated := by
  by_cases null : address = 0
  · subst null
    exact ⟨heap, if_pos rfl, backed.forget absent⟩
  · obtain ⟨-, -, live, -⟩ := backed address block (Owned.place_same _ null)
    refine ⟨_, by rw [Heap.release, if_neg null, if_pos live], ?_⟩
    intro other content known
    have different : other ≠ address := by
      rintro rfl
      rw [absent] at known
      cases known
    obtain ⟨notNull, numbered, otherLive, cell⟩ :=
      backed.forget absent other content known
    exact ⟨notNull, numbered, Finset.mem_erase.mpr ⟨different, otherLive⟩,
      (Function.update_of_ne different ..).trans cell⟩

theorem store
    {address : Addr}
    {old : Block}
    (backed : Owned.Backed (owned.place address old) heap allocated)
    (proper : address ≠ 0)
    (block : Block) :
    ∃ stored,
      heap.store address block = .ok stored ∧
        Owned.Backed (owned.place address block) stored allocated := by
  have here := @Owned.place_same _ owned address old proper
  obtain ⟨-, numbered, live, -⟩ := backed address old here
  refine ⟨heap.set address block, ?_, ?_⟩
  · rw [Heap.store, backed.load here]
    rfl
  · intro other content known
    by_cases same : other = address
    · subst same
      rw [Owned.place_same _ proper] at known
      exact ⟨proper, numbered, live,
        (Function.update_self ..).trans known⟩
    · rw [Owned.place_other _ same] at known
      obtain ⟨notNull, otherNumbered, otherLive, cell⟩ :=
        backed other content (by rw [Owned.place_other _ same, known])
      exact ⟨notNull, otherNumbered, otherLive,
        (Function.update_of_ne same ..).trans cell⟩

end Owned.Backed

end Hamachi
