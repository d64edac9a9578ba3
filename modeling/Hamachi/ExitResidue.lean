import Hamachi.Obligations
import Hamachi.ProcessRuns

namespace Hamachi

/-!
# What an emulated exit leaves behind

`impl_exit` frees the resources, and the finaliser of the epoll instance resets
`epoll_rs`.  Nothing resets `tun_fd` and `per_fd_resources`: they are clean
after the exit exactly when the program had closed every descriptor that it
opened or made the tap device.
-/

namespace SysCall

/-- The descriptor that a completed call enters in the static tables. -/
def enters : SysCall → Option Int
  | .open64 _ _ _ fd _ _ => some fd
  | .socket _ _ _ ans _ _ => if ans < 0 then none else some ans
  | .ioctl fd cmd _ _ _ =>
      if cmd = tunSetIff ∧ fd ≠ -1 then some fd else none
  | _ => none

/-- The descriptor that a completed call removes from the static tables. -/
def closes : SysCall → Option Int
  | .close fd _ => if fd = epollFd then none else some fd
  | _ => none

end SysCall

/-- The descriptor-related statics are as at program start. -/
structure Clean (process : Process) : Prop where
  noResource : process.handles.list = 0
  noEpoll : process.glue.epollRs = 0
  noTun : process.glue.tunFd = -1
  noEntry : ∀ fd, process.glue.perFdResources fd = 0

/-- The epoll instance is a resource. -/
def HasEpoll
    (glue : Glue)
    (resources : List (Handles.Tracked Finaliser Payload)) : Prop :=
  glue.epollRs ≠ 0 →
    ∃ resource ∈ resources,
      handleOf resource.block = glue.epollRs ∧ resource.free = .resEpoll

/-- The tables hold exactly the descriptors that are owed a `close`. -/
def Remembers (owed : Set Int) (glue : Glue) : Prop :=
  ∀ fd, fd ∈ owed ↔
    glue.perFdResources fd ≠ 0 ∨ glue.tunFd = fd ∧ fd ≠ -1

/-- The invariant of a run. -/
def Leaves (owed : Set Int) (process : Process) : Prop :=
  ∃ resources,
    process.Holds resources ∧
      HasEpoll process.glue resources ∧
      Remembers owed process.glue

namespace HasEpoll

variable
  {glue changed : Glue}
  {resources remaining : List (Handles.Tracked Finaliser Payload)}

/-- The instance is a resource while the resources keep their blocks. -/
theorem weaken
    (hasEpoll : HasEpoll glue resources)
    (sameEpoll : changed.epollRs = glue.epollRs)
    (kept :
      ∀ resource ∈ resources, ∃ other ∈ remaining,
        other.block = resource.block ∧ other.free = resource.free) :
    HasEpoll changed remaining := by
  intro created
  rw [sameEpoll] at created ⊢
  obtain ⟨resource, member, isHandle, isEpoll⟩ := hasEpoll created
  obtain ⟨other, remains, sameBlock, sameFree⟩ := kept resource member
  exact ⟨other, remains, sameBlock ▸ isHandle, sameFree.trans isEpoll⟩

/-- The instance is a resource after another one was finalised, and is
forgotten after its own finaliser. -/
theorem finalise
    {resource : Handles.Tracked Finaliser Payload}
    {h : Addr}
    (hasEpoll : HasEpoll glue resources)
    (finalises :
      Glue.finalise resource.free h resource.payload glue = .ok changed)
    (kept :
      ∀ other ∈ resources, other ≠ resource → other ∈ remaining) :
    HasEpoll changed remaining := by
  obtain ⟨_, epollRs⟩ := finalise_tables finalises
  intro created
  rw [epollRs] at created ⊢
  split at created
  · exact absurd rfl created
  · rename_i notEpoll
    obtain ⟨found, member, isHandle, isEpoll⟩ := hasEpoll created
    refine ⟨found, kept found member ?_, ?_, isEpoll⟩
    · rintro rfl
      exact notEpoll isEpoll
    · rw [if_neg notEpoll, isHandle]

end HasEpoll

theorem Remembers.congr
    {owed : Set Int}
    {glue changed : Glue}
    (remembers : Remembers owed glue)
    (same : SameTables glue changed) :
    Remembers owed changed := by
  intro fd
  rw [same.perFdResources, same.tunFd]
  exact remembers fd

/-- Finalising a list of resources ends without an epoll instance when the
instance is one of them. -/
theorem finaliseAll_tables
    {resources : List (Handles.Tracked Finaliser Payload)}
    {glue final : Glue}
    (finalises :
      Handles.finaliseAll runtime resources glue = .ok final)
    (hasEpoll : HasEpoll glue resources) :
    SameTables glue final ∧ final.epollRs = 0 := by
  induction resources generalizing glue with
  | nil =>
      cases finalises
      refine ⟨⟨rfl, rfl⟩, ?_⟩
      by_contra created
      obtain ⟨resource, member, _⟩ := hasEpoll created
      cases member
  | cons resource rest inductionHypothesis =>
      obtain ⟨changed, finalisesFirst, finalisesRest⟩ :=
        bind_eq_ok.mp finalises
      obtain ⟨same, _⟩ := finalise_tables finalisesFirst
      have stillHas : HasEpoll changed rest :=
        hasEpoll.finalise finalisesFirst fun other member different =>
          (List.mem_cons.mp member).resolve_left different
      obtain ⟨sameLater, noEpoll⟩ :=
        inductionHypothesis finalisesRest stillHas
      exact ⟨⟨sameLater.perFdResources.trans same.perFdResources,
        sameLater.tunFd.trans same.tunFd⟩, noEpoll⟩

namespace Leaves

variable
  {owed : Set Int}
  {process next : Process}

/-- New tables keep the invariant when they hold what is then owed. -/
theorem tables
    {owedNow : Set Int}
    (leaves : Leaves owed process)
    {glue : Glue}
    (sameEpoll : glue.epollRs = process.glue.epollRs)
    (remembers : Remembers owedNow glue) :
    Leaves owedNow { process with glue := glue } := by
  obtain ⟨resources, holds, hasEpoll, _⟩ := leaves
  have stillHas : HasEpoll glue resources :=
    hasEpoll.weaken sameEpoll fun resource member =>
      ⟨resource, member, rfl, rfl⟩
  exact ⟨resources, holds.glue glue, stillHas, remembers⟩

/-- Statics that keep the tables and the epoll instance keep the invariant. -/
theorem glue
    (leaves : Leaves owed process)
    {glue : Glue}
    (frame : Frame process.glue glue) :
    Leaves owed { process with glue := glue } := by
  have remembers : Remembers owed process.glue := by
    obtain ⟨_, _, _, remembers⟩ := leaves
    exact remembers
  exact leaves.tables frame.epollRs (remembers.congr frame.toSameTables)

/-- An allocation keeps the invariant. -/
theorem alloc
    {buf h : Addr}
    {junk : Resource Finaliser Payload}
    {free : Finaliser}
    (leaves : Leaves owed process)
    (allocator : buf = 0 ∨ process.handles.heap.Available buf)
    (allocates : process.alloc buf junk free = .ok (next, h)) :
    Leaves owed next := by
  obtain ⟨resources, holds, hasEpoll, remembers⟩ := leaves
  obtain ⟨_, sameGlue, nextHolds⟩ := holds.alloc allocator allocates
  refine ⟨_, nextHolds, ?_, sameGlue ▸ remembers⟩
  exact hasEpoll.weaken (by rw [sameGlue]) fun resource member =>
    ⟨resource, List.mem_cons_of_mem _ member, rfl, rfl⟩

/-- Freeing any handle keeps the invariant. -/
theorem free
    {h : Addr}
    (leaves : Leaves owed process)
    (frees : process.free h = .ok next) :
    Leaves owed next ∧ SameTables process.glue next.glue := by
  by_cases isNull : h = 0
  · subst isNull
    rw [Process.free_null] at frees
    cases frees
    exact ⟨leaves, rfl, rfl⟩
  obtain ⟨resources, holds, hasEpoll, remembers⟩ := leaves
  obtain ⟨leading, resource, successor, trailing, rfl, _, finalises,
      nextHolds⟩ := holds.free isNull frees
  obtain ⟨same, _⟩ := finalise_tables finalises
  refine ⟨⟨_, nextHolds, ?_, remembers.congr same⟩, same⟩
  apply hasEpoll.finalise finalises
  intro other member different
  simpa [different] using member

/-- A store of a payload keeps the invariant. -/
theorem storePayload
    {h : Addr}
    {payload : Payload}
    (leaves : Leaves owed process)
    (stores : process.storePayload h payload = .ok next) :
    Leaves owed next := by
  obtain ⟨resources, holds, hasEpoll, remembers⟩ := leaves
  obtain ⟨leading, resource, trailing, rfl, _, sameGlue, nextHolds⟩ :=
    holds.storePayload stores
  refine ⟨_, nextHolds, ?_, sameGlue ▸ remembers⟩
  apply hasEpoll.weaken (by rw [sameGlue])
  intro found member
  rcases List.mem_append.mp member with inLeading | inRest
  · exact ⟨found, List.mem_append_left _ inLeading, rfl, rfl⟩
  · rcases List.mem_cons.mp inRest with rfl | inTrailing
    · exact ⟨_, List.mem_append_right _ List.mem_cons_self, rfl, rfl⟩
    · exact ⟨found, List.mem_append_right _
        (List.mem_cons_of_mem _ inTrailing), rfl, rfl⟩

/-- A tracked descriptor is entered in the table. -/
theorem trackFd
    {fd : Int}
    {buf : Addr}
    {junk : Resource Finaliser Payload}
    (leaves : Leaves owed process)
    (allocator : buf = 0 ∨ process.handles.heap.Available buf)
    (tracks : process.trackFd fd buf junk = .ok next) :
    Leaves { id | id = fd ∨ id ∈ owed } next := by
  obtain ⟨resources, holds, hasEpoll, remembers⟩ := leaves
  obtain ⟨_, nextGlue⟩ := Process.trackFd_completed tracks
  refine ⟨_, holds.trackFd allocator tracks, ?_, ?_⟩
  · exact hasEpoll.weaken (by rw [nextGlue]) fun resource member =>
      ⟨resource, List.mem_cons_of_mem _ member, rfl, rfl⟩
  · rw [nextGlue]
    intro id
    by_cases isFd : id = fd
    · subst isFd
      simp [handleOf_ne_null]
    · simpa [isFd] using remembers id

/-- A host call does not matter. -/
theorem onHost
    (leaves : Leaves owed process)
    (host : Host) :
    Leaves owed (process.onHost host) :=
  leaves.glue ⟨⟨rfl, rfl⟩, rfl⟩

/-- `impl_close` settles what is owed for its descriptor. -/
theorem close
    {fd result : Int}
    {ret : Int}
    (leaves : Leaves owed process)
    (completes : process.implClose fd result = .ok (next, ret)) :
    Leaves { id | id ∈ owed ∧ (id = fd → fd = epollFd) } next := by
  rcases Process.implClose_completed completes with
    ⟨isEpoll, frees⟩ | ⟨freed, closesResource, inRange, isNext⟩
  · have kept :
        { id | id ∈ owed ∧ (id = fd → fd = epollFd) } = owed := by
      ext id
      simp [isEpoll.1]
    rw [kept]
    exact (leaves.free frees).1
  · have notEpoll : fd ≠ epollFd := by
      rintro rfl
      exact absurd inRange.2 (by decide)
    have frees := Process.closeResource_completed closesResource
    have forgets : ∃ owedNow, Leaves owedNow (process.forgetTun fd) :=
      ⟨_, leaves.tables rfl fun _ => Iff.rfl⟩
    obtain ⟨_, forgetsLeaves⟩ := forgets
    obtain ⟨freedLeaves, same⟩ := forgetsLeaves.free frees
    obtain ⟨_, _, _, remembers⟩ := leaves
    subst isNext
    refine freedLeaves.tables rfl fun id => ?_
    have before := remembers id
    by_cases isFd : id = fd
    · subst isFd
      simp only [Glue.hostClose, Set.mem_ofPred_eq, notEpoll, same.tunFd,
        Process.forgetTun, Function.update_self]
      grind
    · simp only [Glue.hostClose, Set.mem_ofPred_eq, isFd, same.tunFd,
        Process.forgetTun, same.perFdResources,
        Function.update_of_ne isFd, before]
      grind

/-- A completed `TUNSETIFF` remembers its descriptor. -/
theorem ioctlTunSetIff
    {fd ans ret : Int}
    {ifru : LinuxIfru}
    {garbage : InAddr}
    {glue : Glue}
    (leaves : Leaves owed process)
    (completes :
      process.glue.implIoctl fd tunSetIff ifru garbage ans =
        .ok (glue, ret)) :
    Leaves { id | id = fd ∧ fd ≠ -1 ∨ id ∈ owed }
      { process with glue := glue } := by
  obtain ⟨free, perFdResources, tunFd, epollRs⟩ :=
    implIoctl_tunSetIff completes
  refine leaves.tables epollRs fun id => ?_
  obtain ⟨_, _, _, remembers⟩ := leaves
  have before := remembers id
  rw [free] at before
  simp only [Set.mem_ofPred_eq, perFdResources, tunFd, before]
  grind

/-- The new epoll instance is a resource. -/
theorem epollCreate
    {buf : Addr}
    {junk : Resource Finaliser Payload}
    {ret : Int}
    (leaves : Leaves owed process)
    (allocator : buf = 0 ∨ process.handles.heap.Available buf)
    (completes : process.implEpollCreate buf junk = .ok (next, ret)) :
    Leaves owed next := by
  obtain ⟨allocated, allocates, rfl⟩ :=
    Process.implEpollCreate_completed completes
  obtain ⟨resources, holds, _, remembers⟩ := leaves
  obtain ⟨_, _, allocatedHolds⟩ := holds.alloc allocator allocates
  exact ⟨_, allocatedHolds.glue _,
    fun _ => ⟨_, List.mem_cons_self, rfl, rfl⟩,
    remembers.congr ⟨rfl, rfl⟩⟩

/-- A new stream is a resource of no table. -/
theorem fopen64
    {path mode : String}
    {fp buf ret : Addr}
    {junk : Resource Finaliser Payload}
    (leaves : Leaves owed process)
    (allocator : buf = 0 ∨ process.handles.heap.Available buf)
    (completes :
      process.implFopen64 path mode fp buf junk = .ok (next, ret)) :
    Leaves owed next := by
  obtain ⟨opened, ans, opens, rest⟩ :=
    Process.implFopen64_completed completes
  obtain ⟨isOpened, frame⟩ := Frame.openStream opens
  have openedLeaves : Leaves owed opened := isOpened ▸ leaves.glue frame
  have stillAllocator : buf = 0 ∨ opened.handles.heap.Available buf :=
    isOpened ▸ allocator
  rcases rest with rfl | ⟨allocated, h, allocates, stores⟩
  · exact openedLeaves
  · exact (openedLeaves.alloc stillAllocator allocates).storePayload stores

/-- Closing a stream frees a resource of no table. -/
theorem fclose
    {f : Addr}
    {result ret : Int}
    (leaves : Leaves owed process)
    (completes : process.implFclose f result = .ok (next, ret)) :
    Leaves owed next := by
  obtain ⟨fp, closed, ans, stored, closes, stores, frees⟩ :=
    Process.implFclose_completed completes
  obtain ⟨isClosed, frame⟩ := Frame.closeStream closes
  have closedLeaves : Leaves owed closed := isClosed ▸ leaves.glue frame
  exact ((closedLeaves.storePayload stores).free frees).1

/-- `impl_free` frees a resource or nothing. -/
theorem implFree
    {ptr lookedUp : Addr}
    (leaves : Leaves owed process)
    (completes : process.implFree ptr lookedUp = .ok next) :
    Leaves owed next := by
  obtain ⟨storage, rest⟩ := Process.implFree_completed completes
  have stored := leaves.glue
    (show Frame process.glue { process.glue with
      emptyRepStorage := storage } from ⟨⟨rfl, rfl⟩, rfl⟩)
  rcases rest with frees | rfl
  · exact (stored.free frees).1
  · exact stored

/-- `impl_open64` owes its descriptor. -/
theorem open64
    {path : String}
    {flags mode : Nat}
    {fd ret : Int}
    {buf : Addr}
    {junk : Resource Finaliser Payload}
    (leaves : Leaves owed process)
    (allocator : buf = 0 ∨ process.handles.heap.Available buf)
    (completes :
      process.implOpen64 path flags mode fd buf junk = .ok (next, ret)) :
    Leaves { id | id = fd ∨ id ∈ owed } next := by
  have tracks := Process.implOpen64_completed completes
  refine trackFd ?_ ?_ tracks
  · exact leaves.onHost _
  · exact allocator

/-- `impl_socket` owes its descriptor when there is one. -/
theorem socket
    {domain type protocol ans ret : Int}
    {buf : Addr}
    {junk : Resource Finaliser Payload}
    (leaves : Leaves owed process)
    (allocator : buf = 0 ∨ process.handles.heap.Available buf)
    (completes :
      process.implSocket domain type protocol ans buf junk =
        .ok (next, ret)) :
    Leaves { id | id = ans ∧ ¬ ans < 0 ∨ id ∈ owed } next := by
  obtain ⟨call, ⟨failed, rfl⟩ | ⟨opened, tracks⟩⟩ :=
    Process.implSocket_completed completes
  · simpa [failed] using leaves.onHost _
  · have hosted := leaves.onHost (process.glue.host.opens call ans)
    simpa [opened] using hosted.trackFd allocator tracks

/-- Every system call keeps the invariant. -/
theorem step
    {call : SysCall}
    (leaves : Leaves owed process)
    (step : Process.Step process call next) :
    Leaves (owedAfter SysCall.enters SysCall.closes owed call) next := by
  obtain ⟨⟨allocator, _⟩, performs⟩ := step
  cases call with
  | open64 path flags mode fd buf junk =>
      obtain ⟨⟨opened, _⟩, completes, isNext⟩ := bind_eq_ok.mp performs
      cases isNext
      convert leaves.open64 (allocator buf rfl) completes using 1
      ext id
      simp [owedAfter, SysCall.enters, SysCall.closes, eq_comm]
  | socket domain type protocol ans buf junk =>
      obtain ⟨⟨opened, _⟩, completes, isNext⟩ := bind_eq_ok.mp performs
      cases isNext
      convert leaves.socket (allocator buf rfl) completes using 1
      ext id
      simp [owedAfter, SysCall.enters, SysCall.closes, eq_comm, and_comm]
  | accept sock ans =>
      cases performs
      rw [owedAfter_neutral rfl rfl]
      exact leaves.onHost _
  | epollCreate buf junk =>
      obtain ⟨⟨created, _⟩, completes, isNext⟩ := bind_eq_ok.mp performs
      cases isNext
      rw [owedAfter_neutral rfl rfl]
      exact leaves.epollCreate (allocator buf rfl) completes
  | epollCtl fd op fd2 event =>
      obtain ⟨⟨glue, _⟩, completes, isNext⟩ := bind_eq_ok.mp performs
      cases isNext
      rw [owedAfter_neutral rfl rfl]
      exact leaves.glue (.implEpollCtl completes)
  | ioctl fd cmd ifru garbage ans =>
      obtain ⟨⟨glue, _⟩, completes, isNext⟩ := bind_eq_ok.mp performs
      cases isNext
      by_cases isTunSetIff : cmd = tunSetIff
      · subst isTunSetIff
        convert leaves.ioctlTunSetIff completes using 1
        ext id
        simp [owedAfter, SysCall.enters, SysCall.closes, eq_comm, and_comm]
      · rw [owedAfter_neutral (by simp [SysCall.enters, isTunSetIff]) rfl]
        exact leaves.glue (.implIoctl isTunSetIff completes)
  | read fd buf host =>
      obtain ⟨⟨glue, _⟩, completes, isNext⟩ := bind_eq_ok.mp performs
      cases isNext
      rw [owedAfter_neutral rfl rfl]
      exact leaves.glue (.implRead completes)
  | write fd buf result =>
      obtain ⟨⟨glue, _⟩, completes, isNext⟩ := bind_eq_ok.mp performs
      cases isNext
      rw [owedAfter_neutral rfl rfl]
      exact leaves.glue (.implWrite completes)
  | fopen64 path mode fp buf junk =>
      obtain ⟨⟨opened, _⟩, completes, isNext⟩ := bind_eq_ok.mp performs
      cases isNext
      rw [owedAfter_neutral rfl rfl]
      exact leaves.fopen64 (allocator buf rfl) completes
  | fclose f result =>
      obtain ⟨⟨closed, _⟩, completes, isNext⟩ := bind_eq_ok.mp performs
      cases isNext
      rw [owedAfter_neutral rfl rfl]
      exact leaves.fclose completes
  | malloc buf junk =>
      obtain ⟨⟨allocated, _⟩, completes, isNext⟩ := bind_eq_ok.mp performs
      cases isNext
      rw [owedAfter_neutral rfl rfl]
      exact leaves.alloc (allocator buf rfl) completes
  | free ptr lookedUp =>
      rw [owedAfter_neutral rfl rfl]
      exact leaves.implFree performs
  | close fd result =>
      obtain ⟨⟨closed, _⟩, completes, isNext⟩ := bind_eq_ok.mp performs
      cases isNext
      convert leaves.close completes using 1
      ext id
      by_cases isEpoll : fd = epollFd
      · simp [owedAfter, SysCall.enters, SysCall.closes, isEpoll]
      · simp [owedAfter, SysCall.enters, SysCall.closes, isEpoll, eq_comm]

end Leaves

end Hamachi
