import Hamachi.Handles
import Mathlib.Data.Finset.Dedup
import Mathlib.Data.List.Nodup

namespace Hamachi.Handles

variable {Finaliser Payload State : Type}

/-!
# Representation of the intrusive resource list

The abstract state of `handles.c` is the list of live resources, newest first.
`Segment` relates a stretch of that list to the heap: it fixes the pointer that
enters the stretch, the pointer that leaves it and every back link in between.
Each operation of `handles.c` is then one lemma about `Represents`.
-/

/-- A live resource: its block and the parts its owner chose. -/
structure Tracked (Finaliser Payload : Type) where
  block : Addr
  free : Finaliser
  payload : Payload
  deriving Repr, DecidableEq

/-- The blocks of a list of resources. -/
def blocks (resources : List (Tracked Finaliser Payload)) : List Addr :=
  resources.map Tracked.block

@[simp] theorem blocks_nil :
    blocks ([] : List (Tracked Finaliser Payload)) = [] :=
  rfl

@[simp] theorem blocks_cons
    (resource : Tracked Finaliser Payload)
    (rest : List (Tracked Finaliser Payload)) :
    blocks (resource :: rest) = resource.block :: blocks rest :=
  rfl

@[simp] theorem blocks_append
    (first second : List (Tracked Finaliser Payload)) :
    blocks (first ++ second) = blocks first ++ blocks second :=
  List.map_append

/--
`Segment heap link first resources last`: following `next` from `first` visits
exactly `resources` and arrives at `last`; the first node's back link is `link`
and every other node's back link names its predecessor's `next` field.
-/
def Segment (heap : Heap (Resource Finaliser Payload)) :
    Link → Addr → List (Tracked Finaliser Payload) → Addr → Prop
  | _, first, [], last => first = last
  | link, first, resource :: rest, last =>
      first = resource.block ∧
        ∃ next,
          heap.load resource.block =
              .ok
                { magic := magic
                  next := next
                  prev := link
                  free := resource.free
                  payload := resource.payload } ∧
            Segment heap (.next resource.block) next rest last

/-- The pointer through which a segment is left. -/
def exitLink : Link → List (Tracked Finaliser Payload) → Link
  | link, [] => link
  | _, resource :: rest => exitLink (.next resource.block) rest

@[simp] theorem exitLink_append_singleton
    (link : Link)
    (leading : List (Tracked Finaliser Payload))
    (resource : Tracked Finaliser Payload) :
    exitLink link (leading ++ [resource]) = .next resource.block := by
  induction leading generalizing link with
  | nil =>
      rfl
  | cons head rest inductionHypothesis =>
      exact inductionHypothesis (.next head.block)

namespace Segment

variable {heap changed : Heap (Resource Finaliser Payload)}

/-- A segment splits at every position. -/
theorem append_iff
    {link : Link}
    {first last : Addr}
    {leading trailing : List (Tracked Finaliser Payload)} :
    Segment heap link first (leading ++ trailing) last ↔
      ∃ middle,
        Segment heap link first leading middle ∧
          Segment heap (exitLink link leading) middle trailing last := by
  induction leading generalizing link first with
  | nil =>
      simp [Segment, exitLink]
  | cons resource rest inductionHypothesis =>
      simp only [List.cons_append, Segment, exitLink, inductionHypothesis]
      constructor
      · rintro ⟨same, next, loaded, middle, left, right⟩
        exact ⟨middle, ⟨same, next, loaded, left⟩, right⟩
      · rintro ⟨middle, ⟨same, next, loaded, left⟩, right⟩
        exact ⟨same, next, loaded, middle, left, right⟩

/-- Only the blocks of a segment matter to it. -/
theorem congr
    {link : Link}
    {first last : Addr}
    {resources : List (Tracked Finaliser Payload)}
    (segment : Segment heap link first resources last)
    (same :
      ∀ address,
        address ∈ blocks resources →
        changed.load address = heap.load address) :
    Segment changed link first resources last := by
  induction resources generalizing link first with
  | nil =>
      exact segment
  | cons resource rest inductionHypothesis =>
      obtain ⟨isFirst, next, loaded, later⟩ := segment
      refine ⟨isFirst, next, ?_, ?_⟩
      · rw [same resource.block (by simp), loaded]
      · exact inductionHypothesis later fun address member =>
          same address (by simp [member])

/-- Every block of a segment is readable, hence not null. -/
theorem ne_null_of_mem
    {link : Link}
    {first last : Addr}
    {resources : List (Tracked Finaliser Payload)}
    (segment : Segment heap link first resources last)
    {address : Addr}
    (member : address ∈ blocks resources) :
    address ≠ 0 := by
  induction resources generalizing link first with
  | nil =>
      simp at member
  | cons resource rest inductionHypothesis =>
      obtain ⟨_, next, loaded, later⟩ := segment
      rcases List.mem_cons.mp member with isHead | inRest
      · subst isHead
        exact Heap.load_ne_null loaded
      · exact inductionHypothesis later inRest

end Segment

/-- The back link of the first node of a segment can be redirected. -/
theorem storePrev_segment
    (handles : Handles Finaliser Payload)
    {link : Link}
    {first last : Addr}
    {resource : Tracked Finaliser Payload}
    {rest : List (Tracked Finaliser Payload)}
    (segment :
      Segment handles.heap link first (resource :: rest) last)
    (notLater : resource.block ∉ blocks rest)
    (redirected : Link) :
    ∃ changed,
      handles.storePrev first redirected = .ok changed ∧
        Segment changed.heap redirected first (resource :: rest) last ∧
        changed.heap.live = handles.heap.live ∧
        changed.list = handles.list ∧
        changed.lock = handles.lock ∧
        ∀ address,
          address ≠ resource.block →
          changed.heap.load address = handles.heap.load address := by
  obtain ⟨isFirst, next, loaded, later⟩ := segment
  subst isFirst
  have nonNull : resource.block ≠ 0 := Heap.load_ne_null loaded
  refine
    ⟨{ handles with
        heap := handles.heap.set resource.block
          { magic := magic
            next := next
            prev := redirected
            free := resource.free
            payload := resource.payload } },
      ?_, ?_, rfl, rfl, rfl, ?_⟩
  · simp [storePrev, loaded, Heap.store_of_load loaded]
  · refine ⟨rfl, next, Heap.load_set_same _ nonNull _, ?_⟩
    apply later.congr
    intro address member
    apply Heap.load_set_other
    rintro rfl
    exact notLater member
  · intro address different
    exact Heap.load_set_other _ different _

/-- `linkHead` redirects the back link of the head, if there is one. -/
theorem linkHead_segment
    (handles : Handles Finaliser Payload)
    {resources : List (Tracked Finaliser Payload)}
    (segment : Segment handles.heap .list handles.list resources 0)
    (noDuplicates : (blocks resources).Nodup)
    {buf : Addr}
    (fresh : buf ∉ blocks resources) :
    ∃ linked,
      handles.linkHead buf = .ok linked ∧
        Segment linked.heap (.next buf) handles.list resources 0 ∧
        linked.heap.live = handles.heap.live ∧
        linked.list = handles.list ∧
        linked.heap.load buf = handles.heap.load buf := by
  cases resources with
  | nil =>
      have isNull : handles.list = 0 := segment
      exact ⟨handles, by simp [linkHead, isNull], segment, rfl, rfl, rfl⟩
  | cons head rest =>
      have headNonNull : handles.list ≠ 0 := by
        rw [segment.1]
        exact segment.ne_null_of_mem (by simp)
      obtain ⟨linked, stored, redirected, sameLive, sameList, _, others⟩ :=
        storePrev_segment handles segment
          (List.nodup_cons.mp noDuplicates).1 (.next buf)
      refine ⟨linked, ?_, redirected, sameLive, sameList, others buf ?_⟩
      · simp only [linkHead, headNonNull, ne_eq, not_false_eq_true,
          ↓reduceIte]
        exact stored
      · rintro rfl
        exact fresh (by simp)

/-- Writing through the exit link of a segment moves its end. -/
theorem storeLink_segment
    (handles : Handles Finaliser Payload)
    {leading : List (Tracked Finaliser Payload)}
    {last : Addr}
    (segment : Segment handles.heap .list handles.list leading last)
    (noDuplicates : (blocks leading).Nodup)
    (target : Addr) :
    ∃ changed,
      handles.storeLink (exitLink .list leading) target = .ok changed ∧
        Segment changed.heap .list changed.list leading target ∧
        changed.heap.live = handles.heap.live ∧
        changed.lock = handles.lock ∧
        ∀ address,
          address ∉ blocks leading →
          changed.heap.load address = handles.heap.load address := by
  rcases List.eq_nil_or_concat' leading with isNil | ⟨init, owner, shape⟩
  · subst isNil
    exact ⟨{ handles with list := target }, rfl, rfl, rfl, rfl,
      fun _ _ => rfl⟩
  · subst shape
    obtain ⟨middle, initSegment, isOwner, next, loaded, _⟩ :=
      Segment.append_iff.mp segment
    have nonNull : owner.block ≠ 0 := Heap.load_ne_null loaded
    have ownerNotInit : owner.block ∉ blocks init := by
      have apart := (List.nodup_append.mp
        (by simpa using noDuplicates :
          (blocks init ++ [owner.block]).Nodup)).2.2
      intro member
      exact apart _ member _ (by simp) rfl
    refine
      ⟨{ handles with
          heap := handles.heap.set owner.block
            { magic := magic
              next := target
              prev := exitLink .list init
              free := owner.free
              payload := owner.payload } },
        ?_, ?_, rfl, rfl, ?_⟩
    · simp [storeLink, loaded, Heap.store_of_load loaded]
    · apply Segment.append_iff.mpr
      refine ⟨middle, initSegment.congr ?_, isOwner, target,
        Heap.load_set_same _ nonNull _, rfl⟩
      intro address member
      apply Heap.load_set_other
      rintro rfl
      exact ownerNotInit member
    · intro address notMember
      apply Heap.load_set_other
      rintro rfl
      exact notMember (by simp)

/-- Erasing a value that occurs once removes it from the finite set. -/
theorem toFinset_erase_middle
    {leading trailing : List Addr}
    {address : Addr}
    (notLeading : address ∉ leading)
    (notTrailing : address ∉ trailing) :
    (leading ++ address :: trailing).toFinset.erase address =
      (leading ++ trailing).toFinset := by
  ext other
  simp only [Finset.mem_erase, List.mem_toFinset, List.mem_append,
    List.mem_cons]
  constructor
  · rintro ⟨different, inLeading | isAddress | inTrailing⟩
    · exact .inl inLeading
    · exact (different isAddress).elim
    · exact .inr inTrailing
  · rintro (inLeading | inTrailing)
    · exact ⟨fun same => notLeading (same ▸ inLeading), .inl inLeading⟩
    · exact ⟨fun same => notTrailing (same ▸ inTrailing),
        .inr (.inr inTrailing)⟩

/-- The list variable and the heap hold exactly the given resources. -/
structure Linked
    (handles : Handles Finaliser Payload)
    (resources : List (Tracked Finaliser Payload)) : Prop where
  segment :
    Segment handles.heap .list handles.list resources 0
  blocksNodup :
    (blocks resources).Nodup
  liveBlocks :
    handles.heap.live = (blocks resources).toFinset

/-- The state between two operations: linked, and nobody holds the lock. -/
structure Represents
    (handles : Handles Finaliser Payload)
    (resources : List (Tracked Finaliser Payload)) : Prop extends
    Linked handles resources where
  unlocked :
    handles.lock = false

/-- Initially there is no resource. -/
theorem represents_initial :
    Represents (initial : Handles Finaliser Payload) [] where
  segment :=
    rfl
  blocksNodup :=
    List.nodup_nil
  liveBlocks :=
    rfl
  unlocked :=
    rfl

namespace Linked

variable
  {handles : Handles Finaliser Payload}
  {resources : List (Tracked Finaliser Payload)}

/-- An address that `malloc` may return is not tracked. -/
theorem available_not_mem
    (linked : Linked handles resources)
    {buf : Addr}
    (available : handles.heap.Available buf) :
    buf ∉ blocks resources := by
  intro member
  apply available.2
  rw [linked.liveBlocks]
  exact List.mem_toFinset.mpr member

/-- The block of a tracked resource can be read. -/
theorem load_block
    {leading trailing : List (Tracked Finaliser Payload)}
    {resource : Tracked Finaliser Payload}
    (linked : Linked handles (leading ++ resource :: trailing)) :
    ∃ next,
      handles.heap.load resource.block =
          .ok
            { magic := magic
              next := next
              prev := exitLink .list leading
              free := resource.free
              payload := resource.payload } ∧
        Segment handles.heap .list handles.list leading
          resource.block ∧
        Segment handles.heap (.next resource.block) next trailing 0 := by
  obtain ⟨middle, left, isMiddle, next, loaded, right⟩ :=
    Segment.append_iff.mp linked.segment
  subst isMiddle
  exact ⟨next, loaded, left, right⟩

/-- A tracked block is tracked only once. -/
theorem not_mem_of_split
    {leading trailing : List (Tracked Finaliser Payload)}
    {resource : Tracked Finaliser Payload}
    (linked : Linked handles (leading ++ resource :: trailing)) :
    resource.block ∉ blocks leading ∧
      resource.block ∉ blocks trailing := by
  have noDuplicates := linked.blocksNodup
  simp only [blocks_append, blocks_cons] at noDuplicates
  exact not_or.mp fun member =>
    (List.nodup_cons.mp (List.nodup_middle.mp noDuplicates)).1
      (List.mem_append.mpr member)

/--
Unlinking a resource that has a successor: both neighbours are repaired and
the block itself keeps its contents.
-/
theorem unlink
    {leading trailing : List (Tracked Finaliser Payload)}
    {resource successor : Tracked Finaliser Payload}
    (linked :
      Linked handles
        (leading ++ resource :: successor :: trailing)) :
    ∃ relinked unlinked,
      handles.storeLink (exitLink .list leading) successor.block =
          .ok relinked ∧
        relinked.heap.load resource.block =
          .ok
            { magic := magic
              next := successor.block
              prev := exitLink .list leading
              free := resource.free
              payload := resource.payload } ∧
        relinked.storePrev successor.block (exitLink .list leading) =
          .ok unlinked ∧
        Segment unlinked.heap .list unlinked.list
          (leading ++ successor :: trailing) 0 ∧
        unlinked.heap.live = handles.heap.live := by
  obtain ⟨next, loaded, left, right⟩ := linked.load_block
  have isSuccessor : next = successor.block := right.1
  subst isSuccessor
  have noDuplicates :
      (blocks leading ++
        resource.block :: successor.block :: blocks trailing).Nodup := by
    simpa using linked.blocksNodup
  obtain ⟨leadingNodup, restNodup, apart⟩ :=
    List.nodup_append.mp noDuplicates
  have resourceNotLeading : resource.block ∉ blocks leading :=
    fun member => apart _ member _ (by simp) rfl
  have laterNotLeading :
      ∀ address,
        address ∈ successor.block :: blocks trailing →
        address ∉ blocks leading :=
    fun address later member =>
      apart _ member _ (List.mem_cons_of_mem _ later) rfl
  obtain ⟨relinked, stored, leadingSegment, sameLive, _, others⟩ :=
    storeLink_segment handles left leadingNodup successor.block
  have laterSegment :
      Segment relinked.heap (.next resource.block) successor.block
        (successor :: trailing) 0 :=
    right.congr fun address member =>
      others address (laterNotLeading address (by simpa using member))
  obtain ⟨unlinked, storedPrev, redirected, sameLive', sameList, _,
      others'⟩ :=
    storePrev_segment relinked laterSegment
      (by
        have := (List.nodup_cons.mp restNodup).2
        exact (List.nodup_cons.mp this).1)
      (exitLink .list leading)
  refine ⟨relinked, unlinked, stored, ?_, storedPrev, ?_, ?_⟩
  · rw [others _ resourceNotLeading, loaded]
  · apply Segment.append_iff.mpr
    refine ⟨successor.block, ?_, redirected⟩
    rw [sameList]
    apply leadingSegment.congr
    intro address member
    apply others'
    rintro rfl
    exact laterNotLeading _ (by simp) member
  · rw [sameLive', sameLive]

/-- The address that `realloc` returns is no other tracked block. -/
theorem target_not_mem
    {leading trailing : List (Tracked Finaliser Payload)}
    {resource : Tracked Finaliser Payload}
    (linked : Linked handles (leading ++ resource :: trailing))
    {moved : Addr}
    (target : moved = resource.block ∨ handles.heap.Available moved) :
    moved ∉ blocks leading ∧ moved ∉ blocks trailing := by
  rcases target with inPlace | available
  · subst inPlace
    exact linked.not_mem_of_split
  · have fresh := linked.available_not_mem available
    simp only [blocks_append, blocks_cons, List.mem_append,
      List.mem_cons] at fresh
    exact ⟨fun member => fresh (.inl member),
      fun member => fresh (.inr (.inr member))⟩

/--
After `realloc` and `*cur->prev = cur` the predecessor and the moved block are
in order; the successor, if any, still has its old back link.
-/
theorem move
    (scrub :
      Resource Finaliser Payload → Option (Resource Finaliser Payload))
    {leading trailing : List (Tracked Finaliser Payload)}
    {resource : Tracked Finaliser Payload}
    (linked : Linked handles (leading ++ resource :: trailing))
    {moved : Addr}
    (target : moved = resource.block ∨ handles.heap.Available moved)
    (payload : Payload) :
    ∃ next heap relinked,
      handles.heap.load resource.block =
          .ok
            { magic := magic
              next := next
              prev := exitLink .list leading
              free := resource.free
              payload := resource.payload } ∧
        handles.heap.realloc scrub resource.block moved
            { magic := magic
              next := next
              prev := exitLink .list leading
              free := resource.free
              payload := payload } = .ok heap ∧
        heap.load moved =
          .ok
            { magic := magic
              next := next
              prev := exitLink .list leading
              free := resource.free
              payload := payload } ∧
        ({ handles with heap := heap }).storeLink
            (exitLink .list leading) moved = .ok relinked ∧
        relinked.heap.load moved =
          .ok
            { magic := magic
              next := next
              prev := exitLink .list leading
              free := resource.free
              payload := payload } ∧
        Segment relinked.heap .list relinked.list leading moved ∧
        Segment relinked.heap (.next resource.block) next trailing 0 ∧
        relinked.heap.live =
          insert moved (handles.heap.live.erase resource.block) := by
  obtain ⟨next, loaded, left, right⟩ := linked.load_block
  obtain ⟨heap, reallocated, loadedMoved, live, others⟩ :=
    Heap.realloc_live scrub loaded
      (by simp [linked.liveBlocks]) target
      { magic := magic
        next := next
        prev := exitLink .list leading
        free := resource.free
        payload := payload }
  have apart := linked.not_mem_of_split
  have movedApart := linked.target_not_mem target
  have noDuplicates :
      (blocks leading ++ resource.block :: blocks trailing).Nodup := by
    simpa using linked.blocksNodup
  obtain ⟨leadingNodup, _, disjoint⟩ := List.nodup_append.mp noDuplicates
  have left' : Segment heap .list handles.list leading resource.block := by
    apply left.congr
    intro address member
    apply others
    · rintro rfl
      exact apart.1 member
    · rintro rfl
      exact movedApart.1 member
  obtain ⟨relinked, stored, relinkedLeft, sameLive, _, others'⟩ :=
    storeLink_segment { handles with heap := heap } left'
      leadingNodup moved
  refine ⟨next, heap, relinked, loaded, reallocated, loadedMoved, stored,
    ?_, relinkedLeft, ?_, ?_⟩
  · rw [others' moved movedApart.1, loadedMoved]
  · apply right.congr
    intro address member
    have notLeading : address ∉ blocks leading :=
      fun inLeading =>
        disjoint _ inLeading _ (List.mem_cons_of_mem _ member) rfl
    rw [others' address notLeading]
    apply others
    · rintro rfl
      exact apart.2 member
    · rintro rfl
      exact movedApart.2 member
  · rw [sameLive, live]

end Linked

end Hamachi.Handles
