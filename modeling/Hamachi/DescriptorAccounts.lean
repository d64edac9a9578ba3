import Hamachi.Obligations
import Hamachi.ProcessRuns

namespace Hamachi

/-!
# Accounting for open descriptors

In a run of `impl_open64`, `impl_socket`, `impl_accept` and `impl_close` a
descriptor is open on the host exactly when `per_fd_resources` has a resource
for it or when `impl_accept` returned it and nobody closed it since.
-/

namespace SysCall

/-- The calls that open or close a descriptor. -/
def onDescriptors : SysCall → Bool
  | .open64 .. => true
  | .socket .. => true
  | .accept .. => true
  | .close .. => true
  | _ => false

/-- The descriptor that a successful `impl_accept` returns. -/
def accepts : SysCall → Option Int
  | .accept _ ans => if ans < 0 then none else some ans
  | _ => none

/-- The descriptor that is passed to `impl_close`. -/
def closesFd : SysCall → Option Int
  | .close fd _ => some fd
  | _ => none

end SysCall

/-- A resource is not among the others of its list. -/
theorem Handles.notMem_others
    {leading trailing : List (Handles.Tracked Finaliser Payload)}
    {resource : Handles.Tracked Finaliser Payload}
    (noDuplicates :
      (Handles.blocks (leading ++ resource :: trailing)).Nodup) :
    resource ∉ leading ++ trailing := by
  rw [Handles.blocks_append, Handles.blocks_cons, List.nodup_middle,
    ← Handles.blocks_append] at noDuplicates
  intro member
  exact (List.nodup_cons.mp noDuplicates).1 (List.mem_map_of_mem member)

/-- One completed call on descriptors. -/
def DescriptorStep
    (process : Process)
    (call : SysCall)
    (next : Process) : Prop :=
  call.onDescriptors = true ∧ process.Step call next

/-- A run whose calls are all on descriptors. -/
theorem run_onDescriptors
    {process final : Process}
    {calls : List SysCall}
    (run : Run Process.Step process calls final)
    (onDescriptors : ∀ call ∈ calls, call.onDescriptors = true) :
    Run DescriptorStep process calls final :=
  run.allowing onDescriptors

/-- The resources are the tracked descriptors, and the open descriptors are
these and the ones that are owed a `close`. -/
structure Accounting
    (owed : Set Int)
    (process : Process)
    (resources : List (Handles.Tracked Finaliser Payload)) : Prop where
  holds : process.Holds resources
  tracked :
    ∀ resource ∈ resources, ∃ fd,
      resource.free = .resFd ∧
        resource.payload = .fd fd ∧
        process.glue.perFdResources fd = handleOf resource.block
  entries :
    ∀ fd, process.glue.perFdResources fd ≠ 0 →
      ∃ resource ∈ resources,
        resource.payload = .fd fd ∧
          process.glue.perFdResources fd = handleOf resource.block
  opened :
    ∀ fd, fd ∈ process.glue.host.opened ↔
      process.glue.perFdResources fd ≠ 0 ∨ fd ∈ owed
  untracked :
    ∀ fd ∈ owed, process.glue.perFdResources fd = 0
  noEpoll :
    process.glue.epollRs = 0

/-- The open descriptors of a process are accounted for. -/
def Accounts (owed : Set Int) (process : Process) : Prop :=
  ∃ resources, Accounting owed process resources

namespace Accounting

variable
  {owed : Set Int}
  {process next : Process}
  {resources : List (Handles.Tracked Finaliser Payload)}

/-- A failed host call opens nothing. -/
theorem failed
    (accounting : Accounting owed process resources)
    (call : HostCall)
    {fd : Int}
    (failed : fd < 0) :
    Accounting owed (process.onHost (process.glue.host.opens call fd))
      resources where
  holds := accounting.holds.glue _
  tracked := accounting.tracked
  entries := accounting.entries
  opened := by
    simpa [Process.onHost, Host.opens, failed] using accounting.opened
  untracked := accounting.untracked
  noEpoll := accounting.noEpoll

/-- A descriptor that is not tracked is owed a `close`. -/
theorem accepted
    (accounting : Accounting owed process resources)
    (call : HostCall)
    {fd : Int}
    (succeeded : ¬ fd < 0)
    (isNew : fd ∉ process.glue.host.opened) :
    Accounting { id | id = fd ∨ id ∈ owed }
      (process.onHost (process.glue.host.opens call fd)) resources where
  holds := accounting.holds.glue _
  tracked := accounting.tracked
  entries := accounting.entries
  opened := by
    intro id
    have before := accounting.opened id
    simp only [Process.onHost, Host.opens, succeeded, if_false,
      Finset.mem_insert, Set.mem_ofPred_eq, before]
    tauto
  untracked := by
    rintro id (rfl | isOwed)
    · by_contra isEntry
      exact isNew ((accounting.opened id).mpr (.inl isEntry))
    · exact accounting.untracked id isOwed
  noEpoll := accounting.noEpoll

/-- A tracked descriptor is a new resource. -/
theorem trackFd
    {call : HostCall}
    {fd : Int}
    {buf : Addr}
    {junk : Resource Finaliser Payload}
    (accounting : Accounting owed process resources)
    (allocator : buf = 0 ∨ process.handles.heap.Available buf)
    (isNew : fd ∉ process.glue.host.opened)
    (tracks :
      (process.onHost (process.glue.host.opens call fd)).trackFd
        fd buf junk = .ok next) :
    Accounting owed next (⟨buf, .resFd, .fd fd⟩ :: resources) := by
  obtain ⟨inRange, nextGlue⟩ := Process.trackFd_completed tracks
  have noEntry : process.glue.perFdResources fd = 0 := by
    by_contra isEntry
    exact isNew ((accounting.opened fd).mpr (.inl isEntry))
  have entryElsewhere :
      ∀ id, id ≠ fd →
        next.glue.perFdResources id = process.glue.perFdResources id := by
    intro id different
    rw [nextGlue]
    exact Function.update_of_ne different _ _
  have entryHere : next.glue.perFdResources fd = handleOf buf := by
    rw [nextGlue]
    exact Function.update_self fd _ _
  have hosted : (process.onHost (process.glue.host.opens call fd)).Holds
      resources :=
    accounting.holds.glue _
  refine ⟨hosted.trackFd allocator tracks, ?_, ?_, ?_, ?_, ?_⟩
  · intro resource member
    rcases List.mem_cons.mp member with rfl | inRest
    · exact ⟨fd, rfl, rfl, entryHere⟩
    · obtain ⟨id, isFd, isPayload, isEntry⟩ :=
        accounting.tracked resource inRest
      have different : id ≠ fd := by
        rintro rfl
        exact handleOf_ne_null _ (isEntry.symm.trans noEntry)
      exact ⟨id, isFd, isPayload,
        (entryElsewhere id different).trans isEntry⟩
  · intro id isEntry
    by_cases isFd : id = fd
    · subst isFd
      exact ⟨_, List.mem_cons_self, rfl, entryHere⟩
    · rw [entryElsewhere id isFd] at isEntry ⊢
      obtain ⟨resource, member, isPayload, same⟩ :=
        accounting.entries id isEntry
      exact ⟨resource, List.mem_cons_of_mem _ member, isPayload, same⟩
  · intro id
    have hostOpened :
        next.glue.host.opened = insert fd process.glue.host.opened := by
      rw [nextGlue]
      exact if_neg (not_lt.mpr inRange.1)
    rw [hostOpened, Finset.mem_insert, accounting.opened id]
    by_cases isFd : id = fd
    · subst isFd
      simp [entryHere, handleOf_ne_null]
    · simp [entryElsewhere id isFd, isFd]
  · intro id isOwed
    have different : id ≠ fd := by
      rintro rfl
      exact isNew ((accounting.opened id).mpr (.inr isOwed))
    rw [entryElsewhere id different]
    exact accounting.untracked id isOwed
  · rw [nextGlue]
    exact accounting.noEpoll

/-- Two resources with one block are the same. -/
theorem same_resource
    (accounting : Accounting owed process resources)
    {first second : Handles.Tracked Finaliser Payload}
    (firstMember : first ∈ resources)
    (secondMember : second ∈ resources)
    (sameBlock : first.block = second.block) :
    first = second :=
  List.inj_on_of_nodup_map accounting.holds.represents.blocksNodup
    firstMember secondMember sameBlock

/-- The resource in the entry of a descriptor closes that descriptor. -/
theorem resource_of_entry
    (accounting : Accounting owed process resources)
    {fd : Int}
    {resource : Handles.Tracked Finaliser Payload}
    (member : resource ∈ resources)
    (isEntry :
      process.glue.perFdResources fd = handleOf resource.block) :
    resource.free = .resFd ∧ resource.payload = .fd fd := by
  have nonNull : process.glue.perFdResources fd ≠ 0 := by
    rw [isEntry]
    exact handleOf_ne_null _
  obtain ⟨found, foundMember, isPayload, foundEntry⟩ :=
    accounting.entries fd nonNull
  have sameBlock : found.block = resource.block :=
    handleOf_injective (foundEntry.symm.trans isEntry)
  obtain rfl := accounting.same_resource foundMember member sameBlock
  obtain ⟨_, isFd, _, _⟩ := accounting.tracked found foundMember
  exact ⟨isFd, isPayload⟩

/-- Freeing the resource of a descriptor closes it if it was tracked, and
leaves the other resources. -/
theorem closeResource
    {fd : Int}
    (accounting : Accounting owed process resources)
    (completes : process.closeResource fd = .ok next) :
    ∃ remaining,
      next.Holds remaining ∧
        (∀ resource, resource ∈ remaining ↔
          resource ∈ resources ∧ resource.payload ≠ .fd fd) ∧
        next.glue.perFdResources = process.glue.perFdResources ∧
        next.glue.epollRs = process.glue.epollRs ∧
        next.glue.host.opened.erase fd =
          process.glue.host.opened.erase fd := by
  have frees := Process.closeResource_completed completes
  by_cases noEntry : process.glue.perFdResources fd = 0
  · rw [noEntry, Process.free_null] at frees
    cases frees
    refine ⟨resources, accounting.holds.glue _, ?_, rfl, rfl, rfl⟩
    intro resource
    constructor
    · intro member
      refine ⟨member, fun isPayload => ?_⟩
      obtain ⟨id, _, samePayload, isEntry⟩ :=
        accounting.tracked resource member
      rw [isPayload] at samePayload
      cases samePayload
      exact handleOf_ne_null _ (isEntry.symm.trans noEntry)
    · exact And.left
  · have forgetsHolds : (process.forgetTun fd).Holds resources :=
      accounting.holds.glue _
    obtain ⟨leading, resource, successor, trailing, shape, isHandle,
        finalises, nextHolds⟩ := forgetsHolds.free noEntry frees
    have member : resource ∈ resources := by
      simp [shape]
    obtain ⟨isFd, isPayload⟩ :=
      accounting.resource_of_entry member isHandle
    rw [isFd, isPayload] at finalises
    have isNext := Except.ok.inj finalises
    refine ⟨_, nextHolds, ?_, ?_, ?_, ?_⟩
    · intro other
      have noDuplicates := accounting.holds.represents.blocksNodup
      rw [shape] at noDuplicates
      constructor
      · intro remains
        have otherMember : other ∈ resources := by
          rw [shape]
          simp only [List.mem_append, List.mem_cons] at remains ⊢
          tauto
        refine ⟨otherMember, fun samePayload => ?_⟩
        obtain ⟨id, _, otherPayload, otherEntry⟩ :=
          accounting.tracked other otherMember
        rw [samePayload] at otherPayload
        cases otherPayload
        have sameBlock : other.block = resource.block :=
          handleOf_injective (otherEntry.symm.trans isHandle)
        obtain rfl :=
          accounting.same_resource otherMember member sameBlock
        exact Handles.notMem_others noDuplicates remains
      · rintro ⟨otherMember, otherPayload⟩
        rw [shape] at otherMember
        have different : other ≠ resource := by
          rintro rfl
          exact otherPayload isPayload
        simpa [different] using otherMember
    all_goals
      rw [← isNext]
      simp [Process.forgetTun, Glue.hostClose, Host.close]

/-- A completed `impl_close` removes the resource of its descriptor, and the
descriptor from what is owed. -/
theorem close
    {fd result ret : Int}
    (accounting : Accounting owed process resources)
    (completes : process.implClose fd result = .ok (next, ret)) :
    ∃ remaining, Accounting { id | id ∈ owed ∧ id ≠ fd } next remaining := by
  rcases Process.implClose_completed completes with
    ⟨⟨_, created⟩, _⟩ | ⟨freed, closesResource, _, isNext⟩
  · exact absurd accounting.noEpoll created
  · obtain ⟨remaining, freedHolds, remains, perFdResources, epollRs,
        opened⟩ := accounting.closeResource closesResource
    have entryElsewhere :
        ∀ id, id ≠ fd →
          next.glue.perFdResources id = process.glue.perFdResources id := by
      intro id different
      rw [isNext, ← perFdResources]
      exact Function.update_of_ne different _ _
    have entryHere : next.glue.perFdResources fd = 0 := by
      rw [isNext]
      exact Function.update_self fd _ _
    have hostOpened :
        next.glue.host.opened = process.glue.host.opened.erase fd := by
      rw [isNext, ← opened]
      rfl
    refine ⟨remaining, ?_, ?_, ?_, ?_, ?_, ?_⟩
    · rw [isNext]
      exact freedHolds.glue _
    · intro resource member
      obtain ⟨wasMember, notFd⟩ := (remains resource).mp member
      obtain ⟨id, isFd, isPayload, isEntry⟩ :=
        accounting.tracked resource wasMember
      have different : id ≠ fd := by
        rintro rfl
        exact notFd isPayload
      exact ⟨id, isFd, isPayload,
        (entryElsewhere id different).trans isEntry⟩
    · intro id isEntry
      have different : id ≠ fd := by
        rintro rfl
        exact isEntry entryHere
      rw [entryElsewhere id different] at isEntry ⊢
      obtain ⟨resource, member, isPayload, same⟩ :=
        accounting.entries id isEntry
      refine ⟨resource, (remains resource).mpr ⟨member, ?_⟩, isPayload,
        same⟩
      rw [isPayload]
      exact fun sameFd => different (Payload.fd.inj sameFd)
    · intro id
      rw [hostOpened, Finset.mem_erase, accounting.opened id]
      by_cases isFd : id = fd
      · subst isFd
        simp [entryHere]
      · simp [entryElsewhere id isFd, isFd]
    · rintro id ⟨isOwed, different⟩
      rw [entryElsewhere id different]
      exact accounting.untracked id isOwed
    · rw [isNext]
      exact epollRs.trans accounting.noEpoll

end Accounting

/-- A process without resources and open descriptors is accounted for. -/
theorem accounts_empty
    {process : Process}
    (holds : process.Holds [])
    (noEntry : ∀ fd, process.glue.perFdResources fd = 0)
    (noneOpened : process.glue.host.opened = ∅)
    (noEpoll : process.glue.epollRs = 0) :
    Accounts ∅ process := by
  refine ⟨[], holds, ?_, ?_, ?_, ?_, noEpoll⟩
  · intro resource member
    cases member
  · intro fd isEntry
    exact absurd (noEntry fd) isEntry
  · intro fd
    simp [noneOpened, noEntry fd]
  · intro fd isOwed
    exact absurd isOwed (Set.notMem_empty fd)

/-- Every call on descriptors keeps the accounts. -/
theorem Accounts.step
    {owed : Set Int}
    {process next : Process}
    {call : SysCall}
    (accounts : Accounts owed process)
    (step : DescriptorStep process call next) :
    Accounts (owedAfter SysCall.accepts SysCall.closesFd owed call)
      next := by
  obtain ⟨resources, accounting⟩ := accounts
  obtain ⟨onDescriptors, ⟨allocator, host⟩, performs⟩ := step
  cases call with
  | open64 path flags mode fd buf junk =>
      obtain ⟨⟨opened, _⟩, completes, isNext⟩ := bind_eq_ok.mp performs
      cases isNext
      have tracks := Process.implOpen64_completed completes
      have inRange := (Process.trackFd_completed tracks).1
      rw [owedAfter_neutral rfl rfl]
      have isNew :=
        (host fd rfl).resolve_left (not_lt.mpr inRange.1)
      exact ⟨_, accounting.trackFd (allocator buf rfl) isNew tracks⟩
  | socket domain type protocol ans buf junk =>
      obtain ⟨⟨opened, _⟩, completes, isNext⟩ := bind_eq_ok.mp performs
      cases isNext
      rw [owedAfter_neutral rfl rfl]
      obtain ⟨call, ⟨failed, rfl⟩ | ⟨succeeded, tracks⟩⟩ :=
        Process.implSocket_completed completes
      · exact ⟨_, accounting.failed call failed⟩
      · have isNew := (host ans rfl).resolve_left succeeded
        exact ⟨_, accounting.trackFd (allocator buf rfl) isNew tracks⟩
  | accept sock ans =>
      cases performs
      by_cases failed : ans < 0
      · rw [owedAfter_neutral (by simp [SysCall.accepts, failed]) rfl]
        exact ⟨_, accounting.failed (.accept sock) failed⟩
      · have isNew := (host ans rfl).resolve_left failed
        have raised :
            owedAfter SysCall.accepts SysCall.closesFd owed
                (.accept sock ans) =
              { id | id = ans ∨ id ∈ owed } := by
          ext id
          simp [owedAfter, SysCall.accepts, SysCall.closesFd, failed,
            eq_comm]
        rw [raised]
        exact ⟨_, accounting.accepted (.accept sock) failed isNew⟩
  | close fd result =>
      obtain ⟨⟨closed, _⟩, completes, isNext⟩ := bind_eq_ok.mp performs
      cases isNext
      have settled :
          owedAfter SysCall.accepts SysCall.closesFd owed
              (.close fd result) =
            { id | id ∈ owed ∧ id ≠ fd } := by
        ext id
        simp [owedAfter, SysCall.accepts, SysCall.closesFd, eq_comm]
      rw [settled]
      exact accounting.close completes
  | epollCreate | epollCtl | ioctl | read | write | fopen64 | fclose
  | malloc | free =>
      cases onDescriptors

end Hamachi
