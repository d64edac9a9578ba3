import Hamachi.EpollInterest
import Hamachi.EpollWait
import Hamachi.ExitResidue

namespace Hamachi

/-!
# Closed descriptors in the interest sets

Linux drops a descriptor from every epoll instance when it is closed.  Nothing
in `impl_close` does: a descriptor leaves the interest sets only by
`EPOLL_CTL_DEL` or a new instance.  The sets hold open descriptors as long as
the program deletes each descriptor before it closes it, and adds open ones.
-/

namespace SysCall

/-- The calls that open, close or watch descriptors. -/
def onEpoll : SysCall → Bool
  | .open64 .. => true
  | .socket .. => true
  | .epollCreate .. => true
  | .epollCtl .. => true
  | .close .. => true
  | _ => false

end SysCall

/-- The descriptors that `impl_epoll_wait` passes to `select`. -/
def Glue.interest (glue : Glue) : Finset Int :=
  glue.epollIn ∪ glue.epollOut ∪ glue.epollErr

namespace Process

/-- A process at program start that inherits open descriptors. -/
def startedWith (opened : Finset Int) : Process :=
  initial.onHost { opened := opened, trace := [] }

/-- The call reaches the epoll instance as an `ADD` or `MOD` of `fd`. -/
def Adds (process : Process) (fd : Int) : SysCall → Prop
  | .epollCtl instanceFd op fd2 _ =>
      (instanceFd = epollFd ∧ process.glue.epollRs ≠ 0) ∧
        (op = epollCtlAdd ∨ op = epollCtlMod) ∧ fd2 = fd
  | _ => False

/-- A step that leaves `fd` open and does not add it anew. -/
def OpenStep
    (fd : Int)
    (process : Process)
    (call : SysCall)
    (next : Process) : Prop :=
  process.Step call next ∧
    ¬ process.Adds fd call ∧
    fd ∈ next.glue.host.opened

/-- The last call that added `fd` found it open, `fd` is open ever since, and
the data of that call is reported for it. -/
def OpenSinceAdded
    (start : Process)
    (calls : List SysCall)
    (reached : Process)
    (fd : Int) : Prop :=
  ∃ before op event after source added,
    calls = before ++ .epollCtl epollFd op fd event :: after ∧
      Run Step start before source ∧
      source.Adds fd (.epollCtl epollFd op fd event) ∧
      source.Step (.epollCtl epollFd op fd event) added ∧
      fd ∈ added.glue.host.opened ∧
      Run (OpenStep fd) added after reached ∧
      reached.glue.epollPerFdData fd = event.data

/-- In every state of a run the watched descriptors are open since they were
added. -/
def WatchesOpen (start : Process) (calls : List SysCall) : Prop :=
  ∀ leading reached,
    leading <+: calls →
    Run Step start leading reached →
    ∀ fd ∈ reached.glue.interest,
      OpenSinceAdded start leading reached fd

/-- The call neither closes a watched descriptor nor watches one that is not
open. -/
def Careful (process : Process) : SysCall → Prop
  | .close fd _ =>
      fd = epollFd ∧ process.glue.epollRs ≠ 0 ∨
        fd ∉ process.glue.interest
  | .epollCtl instanceFd op fd2 event =>
      process.Adds fd2 (.epollCtl instanceFd op fd2 event) →
        fd2 ∈ process.glue.host.opened ∨
          op = epollCtlAdd ∧ event.has epollIn = false ∧
            event.has epollOut = false ∧ event.has epollErr = false
  | _ => True

/-- One completed call that is careful. -/
def CarefulStep
    (process : Process)
    (call : SysCall)
    (next : Process) : Prop :=
  process.Careful call ∧ process.Step call next

end Process

/-- The entries of `per_fd_resources` are resources that close their
descriptor, and the epoll instance is a resource. -/
structure Tracking
    (process : Process)
    (resources : List (Handles.Tracked Finaliser Payload)) : Prop where
  holds : process.Holds resources
  entries :
    ∀ fd, process.glue.perFdResources fd ≠ 0 →
      ∃ resource ∈ resources,
        process.glue.perFdResources fd = handleOf resource.block ∧
          resource.free = .resFd ∧ resource.payload = .fd fd
  hasEpoll : HasEpoll process.glue resources

namespace Tracking

variable
  {process next : Process}
  {resources : List (Handles.Tracked Finaliser Payload)}

/-- Other statics than the tables do not matter. -/
theorem glue
    (tracking : Tracking process resources)
    {glue : Glue}
    (frame : Frame process.glue glue) :
    Tracking { process with glue := glue } resources where
  holds := tracking.holds.glue glue
  entries := by
    intro fd
    change glue.perFdResources fd ≠ 0 → _
    rw [frame.perFdResources]
    exact tracking.entries fd
  hasEpoll :=
    tracking.hasEpoll.weaken frame.epollRs fun resource member =>
      ⟨resource, member, rfl, rfl⟩

/-- A tracked descriptor is a new resource. -/
theorem trackFd
    {fd : Int}
    {buf : Addr}
    {junk : Resource Finaliser Payload}
    (tracking : Tracking process resources)
    (allocator : buf = 0 ∨ process.handles.heap.Available buf)
    (tracks : process.trackFd fd buf junk = .ok next) :
    Tracking next (⟨buf, .resFd, .fd fd⟩ :: resources) := by
  obtain ⟨_, nextGlue⟩ := Process.trackFd_completed tracks
  refine ⟨tracking.holds.trackFd allocator tracks, ?_, ?_⟩
  · intro id
    rw [nextGlue]
    by_cases isFd : id = fd
    · subst isFd
      intro _
      exact ⟨_, List.mem_cons_self, Function.update_self id _ _, rfl, rfl⟩
    · simp only [Function.update_of_ne isFd]
      intro isEntry
      obtain ⟨resource, member, rest⟩ := tracking.entries id isEntry
      exact ⟨resource, List.mem_cons_of_mem _ member, rest⟩
  · exact tracking.hasEpoll.weaken (by rw [nextGlue])
      fun resource member =>
        ⟨resource, List.mem_cons_of_mem _ member, rfl, rfl⟩

/-- The epoll instance is a new resource. -/
theorem epollCreate
    {buf : Addr}
    {junk : Resource Finaliser Payload}
    {ret : Int}
    (tracking : Tracking process resources)
    (allocator : buf = 0 ∨ process.handles.heap.Available buf)
    (completes : process.implEpollCreate buf junk = .ok (next, ret)) :
    Tracking next (⟨buf, .resEpoll, junk.payload⟩ :: resources) := by
  obtain ⟨allocated, allocates, rfl⟩ :=
    Process.implEpollCreate_completed completes
  obtain ⟨_, _, allocatedHolds⟩ := tracking.holds.alloc allocator allocates
  refine ⟨allocatedHolds.glue _, ?_, ?_⟩
  · intro fd isEntry
    obtain ⟨resource, member, rest⟩ := tracking.entries fd isEntry
    exact ⟨resource, List.mem_cons_of_mem _ member, rest⟩
  · intro _
    exact ⟨_, List.mem_cons_self, rfl, rfl⟩

/-- Freeing the resource of a descriptor closes at most that descriptor, and
keeps the resources of other kinds and descriptors. -/
theorem closeResource
    {fd : Int}
    (tracking : Tracking process resources)
    (completes : process.closeResource fd = .ok next) :
    ∃ remaining,
      next.Holds remaining ∧
        (∀ resource ∈ resources,
          ¬ (resource.free = .resFd ∧ resource.payload = .fd fd) →
            resource ∈ remaining) ∧
        (next.glue = (process.forgetTun fd).glue ∨
          next.glue = (process.forgetTun fd).glue.hostClose fd) := by
  have frees := Process.closeResource_completed completes
  have forgetsHolds : (process.forgetTun fd).Holds resources :=
    tracking.holds.glue _
  by_cases noEntry : process.glue.perFdResources fd = 0
  · rw [noEntry, Process.free_null] at frees
    cases frees
    exact ⟨resources, forgetsHolds, fun _ member _ => member, .inl rfl⟩
  · obtain ⟨leading, resource, successor, trailing, shape, isHandle,
        finalises, nextHolds⟩ := forgetsHolds.free noEntry frees
    obtain ⟨found, foundMember, foundEntry, isFd, isPayload⟩ :=
      tracking.entries fd noEntry
    have member : resource ∈ resources := by
      simp [shape]
    have sameBlock : found.block = resource.block :=
      handleOf_injective (foundEntry.symm.trans isHandle)
    obtain rfl : found = resource :=
      List.inj_on_of_nodup_map tracking.holds.represents.blocksNodup
        foundMember member sameBlock
    rw [isFd, isPayload] at finalises
    refine ⟨_, nextHolds, ?_, .inr (Except.ok.inj finalises).symm⟩
    intro other otherMember notFd
    rw [shape] at otherMember
    have different : other ≠ found := by
      rintro rfl
      exact notFd ⟨isFd, isPayload⟩
    simpa [different] using otherMember

/-- Freeing the epoll instance closes nothing, and keeps the resources of other
kinds. -/
theorem freeEpoll
    (tracking : Tracking process resources)
    (created : process.glue.epollRs ≠ 0)
    (frees : process.free process.glue.epollRs = .ok next) :
    ∃ remaining,
      next.Holds remaining ∧
        (∀ resource ∈ resources,
          resource.free ≠ .resEpoll → resource ∈ remaining) ∧
        next.glue = { process.glue with epollRs := 0 } := by
  obtain ⟨leading, resource, successor, trailing, shape, isHandle,
      finalises, nextHolds⟩ := tracking.holds.free created frees
  obtain ⟨found, foundMember, foundHandle, isEpoll⟩ :=
    tracking.hasEpoll created
  have member : resource ∈ resources := by
    simp [shape]
  have sameBlock : found.block = resource.block :=
    handleOf_injective (foundHandle.trans isHandle)
  obtain rfl : found = resource :=
    List.inj_on_of_nodup_map tracking.holds.represents.blocksNodup
      foundMember member sameBlock
  rw [isEpoll] at finalises
  refine ⟨_, nextHolds, ?_, (Except.ok.inj finalises).symm⟩
  intro other otherMember notEpoll
  rw [shape] at otherMember
  have different : other ≠ found := by
    rintro rfl
    exact notEpoll isEpoll
  simpa [different] using otherMember

/-- What a completed `impl_close` leaves: it closed the epoll instance, or the
descriptor and nothing else. -/
theorem close
    {fd result ret : Int}
    (tracking : Tracking process resources)
    (completes : process.implClose fd result = .ok (next, ret)) :
    (∃ remaining, Tracking next remaining) ∧
      next.glue.interest = process.glue.interest ∧
      next.glue.epollPerFdData = process.glue.epollPerFdData ∧
      ((fd = epollFd ∧ process.glue.epollRs ≠ 0) ∧
          next.glue.host = process.glue.host ∨
        ¬ (fd = epollFd ∧ process.glue.epollRs ≠ 0) ∧
          next.glue.host.opened = process.glue.host.opened.erase fd) := by
  rcases Process.implClose_completed completes with
    ⟨isEpoll, frees⟩ | ⟨freed, closesResource, inRange, rfl⟩
  · obtain ⟨remaining, nextHolds, kept, nextGlue⟩ :=
      tracking.freeEpoll isEpoll.2 frees
    refine ⟨⟨remaining, nextHolds, ?_, ?_⟩, ?_, ?_, .inl ⟨isEpoll, ?_⟩⟩
    · intro id
      rw [nextGlue]
      intro isEntry
      obtain ⟨resource, member, isHandle, isFd, isPayload⟩ :=
        tracking.entries id isEntry
      exact ⟨resource, kept resource member (by rw [isFd]; decide),
        isHandle, isFd, isPayload⟩
    · intro created
      rw [nextGlue] at created
      exact absurd rfl created
    · rw [nextGlue]
      rfl
    · rw [nextGlue]
    · rw [nextGlue]
  · have notEpoll : ¬ (fd = epollFd ∧ process.glue.epollRs ≠ 0) := by
      rintro ⟨rfl, _⟩
      exact absurd inRange.2 (by decide)
    obtain ⟨remaining, freedHolds, kept, freedGlue⟩ :=
      tracking.closeResource closesResource
    have sameTable :
        freed.glue.perFdResources = process.glue.perFdResources := by
      rcases freedGlue with isGlue | isGlue <;> rw [isGlue] <;> rfl
    have sameEpoll : freed.glue.epollRs = process.glue.epollRs := by
      rcases freedGlue with isGlue | isGlue <;> rw [isGlue] <;> rfl
    refine ⟨⟨remaining, freedHolds.glue _, ?_, ?_⟩, ?_, ?_,
      .inr ⟨notEpoll, ?_⟩⟩
    · intro id
      change Function.update freed.glue.perFdResources fd 0 id ≠ 0 → _
      by_cases isFd : id = fd
      · subst isFd
        simp
      · change _ → ∃ resource ∈ remaining,
          Function.update freed.glue.perFdResources fd 0 id = _ ∧ _
        rw [Function.update_of_ne isFd, sameTable]
        intro isEntry
        obtain ⟨resource, member, isHandle, isResFd, isPayload⟩ :=
          tracking.entries id isEntry
        refine ⟨resource, kept resource member ?_, isHandle, isResFd,
          isPayload⟩
        rintro ⟨_, samePayload⟩
        rw [isPayload] at samePayload
        exact isFd (Payload.fd.inj samePayload)
    · intro created
      change freed.glue.epollRs ≠ 0 at created
      rw [sameEpoll] at created
      obtain ⟨resource, member, isHandle, isEpoll⟩ :=
        tracking.hasEpoll created
      refine ⟨resource, kept resource member ?_, ?_, isEpoll⟩
      · rintro ⟨isResFd, _⟩
        rw [isEpoll] at isResFd
        cases isResFd
      · exact isHandle.trans sameEpoll.symm
    · rcases freedGlue with isGlue | isGlue <;>
        simp [Glue.hostClose, isGlue, Process.forgetTun, Glue.interest]
    · rcases freedGlue with isGlue | isGlue <;>
        simp [Glue.hostClose, isGlue, Process.forgetTun]
    · rcases freedGlue with isGlue | isGlue <;>
        simp [Glue.hostClose, Host.close, isGlue, Process.forgetTun]

end Tracking

theorem mem_setIf
    {condition : Bool}
    {fd other : Int}
    {set : Finset Int} :
    other ∈ setIf condition fd set ↔
      other = fd ∧ condition = true ∨ other ∈ set := by
  cases condition <;> simp [setIf]

/-- A completed `impl_epoll_ctl` reached the epoll instance as one of the three
calls, or failed. -/
theorem implEpollCtl_completed
    {glue changed : Glue}
    {fd op fd2 ret : Int}
    {event : EpollEvent}
    (completes :
      glue.implEpollCtl fd op fd2 event = .ok (changed, ret)) :
    ¬ (fd = epollFd ∧ glue.epollRs ≠ 0) ∧
        changed = { glue with errno := 9 } ∨
      (fd = epollFd ∧ glue.epollRs ≠ 0) ∧
        ∃ call : EpollCall,
          call.op = op ∧ call.fd = fd2 ∧ call.event = event ∧
            changed = call.effect glue := by
  unfold Glue.implEpollCtl at completes
  split at completes
  · rename_i elsewhere
    cases completes
    refine .inl ⟨?_, rfl⟩
    rintro ⟨isEpoll, created⟩
    exact elsewhere.elim (absurd isEpoll) created
  · rename_i reaches
    refine .inr ⟨by simpa using reaches, ?_⟩
    split at completes
    · rename_i registers
      split at completes
      · cases completes
        rcases registers with rfl | rfl
        · exact ⟨.add fd2 event, rfl, rfl, rfl, rfl⟩
        · exact ⟨.mod fd2 event, rfl, rfl, rfl, rfl⟩
      · cases completes
    · split at completes
      · rename_i isDel
        split at completes <;> cases completes
        exact ⟨.del fd2 event, isDel.symm, rfl, rfl, rfl⟩
      · cases completes

/-- Which descriptors are watched after a call on the epoll instance. -/
theorem mem_interest_effect
    {glue : Glue}
    {call : EpollCall}
    {fd : Int} :
    fd ∈ (call.effect glue).interest ↔
      match call with
      | .add fd2 event =>
          fd ∈ glue.interest ∨
            fd = fd2 ∧ (event.has epollIn = true ∨
              event.has epollOut = true ∨ event.has epollErr = true)
      | .mod fd2 _ => fd ∈ glue.interest ∨ fd = fd2
      | .del fd2 _ => fd ∈ glue.interest ∧ fd ≠ fd2 := by
  cases call with
  | add fd2 event =>
      simp only [EpollCall.effect, Glue.setFlags, Glue.interest,
        Finset.mem_union, mem_setIf]
      tauto
  | mod fd2 event =>
      simp only [EpollCall.effect, Glue.setFlags, Glue.setMissing,
        Glue.interest, Finset.mem_union, mem_setIf]
      cases event.has epollIn <;> simp <;> tauto
  | del fd2 event =>
      simp only [EpollCall.effect, Glue.clearFlags, Glue.interest,
        Finset.mem_union, Finset.mem_erase]
      tauto

/-- The data word of a descriptor after a call on the epoll instance. -/
theorem data_effect
    {glue : Glue}
    {call : EpollCall}
    {fd : Int} :
    (call.effect glue).epollPerFdData fd =
      if call.op = epollCtlDel then
        glue.epollPerFdData fd
      else if fd = call.fd then
        call.event.data
      else
        glue.epollPerFdData fd := by
  cases call with
  | add fd2 event =>
      simp [EpollCall.effect, EpollCall.op, EpollCall.fd, EpollCall.event,
        epollCtlAdd, epollCtlDel, Function.update_apply]
      rfl
  | mod fd2 event =>
      simp [EpollCall.effect, EpollCall.op, EpollCall.fd, EpollCall.event,
        epollCtlMod, epollCtlDel, Function.update_apply]
      rfl
  | del fd2 event =>
      simp [EpollCall.effect, EpollCall.op, Glue.clearFlags]

/-- What a completed call means for the descriptors that are watched after
it. -/
structure Watched
    (process : Process)
    (call : SysCall)
    (next : Process) : Prop where
  tracking : ∃ remaining, Tracking next remaining
  kept :
    ∀ fd ∈ next.glue.interest, ¬ process.Adds fd call →
      fd ∈ process.glue.interest ∧
        next.glue.epollPerFdData fd = process.glue.epollPerFdData fd
  stillOpen :
    ∀ fd ∈ next.glue.interest, process.Careful call →
      fd ∈ process.glue.host.opened → fd ∈ next.glue.host.opened

namespace Watched

variable
  {process next : Process}
  {resources : List (Handles.Tracked Finaliser Payload)}

/-- A call that watches no other descriptors and closes none. -/
theorem quiet
    {call : SysCall}
    (tracking : Tracking next resources)
    (sameInterest : next.glue.interest ⊆ process.glue.interest)
    (sameData :
      next.glue.epollPerFdData = process.glue.epollPerFdData)
    (opens : process.glue.host.opened ⊆ next.glue.host.opened) :
    Watched process call next where
  tracking := ⟨resources, tracking⟩
  kept := fun _ member _ => ⟨sameInterest member, by rw [sameData]⟩
  stillOpen := fun _ _ _ isOpen => opens isOpen

/-- Opening a descriptor, tracked or not, is quiet. -/
theorem opens
    {call : SysCall}
    {hostCall : HostCall}
    {fd : Int}
    {buf : Addr}
    {junk : Resource Finaliser Payload}
    (tracking : Tracking process resources)
    (allocator : buf = 0 ∨ process.handles.heap.Available buf)
    (tracks :
      (process.onHost (process.glue.host.opens hostCall fd)).trackFd
        fd buf junk = .ok next) :
    Watched process call next := by
  obtain ⟨inRange, nextGlue⟩ := Process.trackFd_completed tracks
  have hosted :
      Tracking (process.onHost (process.glue.host.opens hostCall fd))
        resources :=
    tracking.glue ⟨⟨rfl, rfl⟩, rfl⟩
  refine quiet (hosted.trackFd allocator tracks) ?_ ?_ ?_
  · rw [nextGlue]
    exact subset_rfl
  · rw [nextGlue]
    rfl
  · rw [nextGlue]
    change _ ⊆ (process.glue.host.opens hostCall fd).opened
    rw [Host.opens, if_neg (not_lt.mpr inRange.1)]
    exact Finset.subset_insert fd _

/-- A failed `impl_socket` is quiet. -/
theorem failed
    {call : SysCall}
    {hostCall : HostCall}
    {fd : Int}
    (tracking : Tracking process resources)
    (failed : fd < 0) :
    Watched process call
      (process.onHost (process.glue.host.opens hostCall fd)) := by
  refine quiet (tracking.glue ⟨⟨rfl, rfl⟩, rfl⟩) subset_rfl rfl ?_
  change _ ⊆ (process.glue.host.opens hostCall fd).opened
  rw [Host.opens, if_pos failed]

/-- A new epoll instance watches nothing. -/
theorem epollCreate
    {buf : Addr}
    {junk : Resource Finaliser Payload}
    {ret : Int}
    (tracking : Tracking process resources)
    (allocator : buf = 0 ∨ process.handles.heap.Available buf)
    (completes : process.implEpollCreate buf junk = .ok (next, ret)) :
    Watched process (.epollCreate buf junk) next := by
  have created := tracking.epollCreate allocator completes
  obtain ⟨allocated, allocates, rfl⟩ :=
    Process.implEpollCreate_completed completes
  refine quiet created ?_ rfl subset_rfl
  intro fd member
  simp [Glue.interest] at member

/-- `impl_epoll_ctl` watches at most its own descriptor anew. -/
theorem epollCtl
    {fd op fd2 ret : Int}
    {event : EpollEvent}
    {glue : Glue}
    (tracking : Tracking process resources)
    (completes :
      process.glue.implEpollCtl fd op fd2 event = .ok (glue, ret)) :
    Watched process (.epollCtl fd op fd2 event)
      { process with glue := glue } := by
  have framed := tracking.glue (.implEpollCtl completes)
  rcases implEpollCtl_completed completes with
    ⟨_, rfl⟩ | ⟨reaches, call, rfl, rfl, rfl, rfl⟩
  · exact quiet framed subset_rfl rfl subset_rfl
  · have sameOpened :
        (call.effect process.glue).host = process.glue.host := by
      cases call <;> rfl
    refine ⟨⟨resources, framed⟩, ?_, ?_⟩
    · intro id member notAdded
      have notAdded' :
          call.op = epollCtlDel ∨ id ≠ call.fd := by
        by_contra both
        obtain ⟨notDel, isFd⟩ := not_or.mp both
        refine notAdded ⟨reaches, ?_, (not_not.mp isFd).symm⟩
        cases call with
        | add _ _ => exact .inl rfl
        | mod _ _ => exact .inr rfl
        | del _ _ => exact absurd rfl notDel
      constructor
      · have watched := mem_interest_effect.mp member
        cases call with
        | add fd2 event =>
            rcases notAdded' with isDel | other
            · exact absurd isDel (by simp [EpollCall.op, epollCtlAdd,
                epollCtlDel])
            · exact watched.resolve_right fun both => other both.1
        | mod fd2 event =>
            rcases notAdded' with isDel | other
            · exact absurd isDel (by simp [EpollCall.op, epollCtlMod,
                epollCtlDel])
            · exact watched.resolve_right other
        | del fd2 event =>
            exact watched.1
      · change (call.effect process.glue).epollPerFdData id = _
        rw [data_effect]
        rcases notAdded' with isDel | other
        · rw [if_pos isDel]
        · rw [if_neg other, ite_self]
    · intro id _ _ isOpen
      change id ∈ (call.effect process.glue).host.opened
      rwa [sameOpened]

/-- A careful `impl_close` leaves the watched descriptors open. -/
theorem close
    {fd result ret : Int}
    (tracking : Tracking process resources)
    (completes : process.implClose fd result = .ok (next, ret)) :
    Watched process (.close fd result) next := by
  obtain ⟨nextTracking, sameInterest, sameData, closed⟩ :=
    tracking.close completes
  refine ⟨nextTracking, ?_, ?_⟩
  · intro id member _
    exact ⟨sameInterest ▸ member, by rw [sameData]⟩
  · intro id member careful isOpen
    rcases closed with ⟨_, sameHost⟩ | ⟨notEpoll, opened⟩
    · rwa [sameHost]
    · have notWatched := careful.resolve_left notEpoll
      rw [opened, Finset.mem_erase]
      refine ⟨?_, isOpen⟩
      rintro rfl
      exact notWatched (sameInterest ▸ member)

/-- Every call that opens, closes or watches descriptors. -/
theorem of_step
    {call : SysCall}
    (tracking : Tracking process resources)
    (onEpoll : call.onEpoll = true)
    (step : process.Step call next) :
    Watched process call next := by
  obtain ⟨⟨allocator, _⟩, performs⟩ := step
  cases call with
  | open64 path flags mode fd buf junk =>
      obtain ⟨⟨opened, _⟩, completes, isNext⟩ := bind_eq_ok.mp performs
      cases isNext
      exact .opens tracking (allocator buf rfl)
        (Process.implOpen64_completed completes)
  | socket domain type protocol ans buf junk =>
      obtain ⟨⟨opened, _⟩, completes, isNext⟩ := bind_eq_ok.mp performs
      cases isNext
      obtain ⟨hostCall, outcome⟩ := Process.implSocket_completed completes
      rcases outcome with ⟨isFailed, rfl⟩ | ⟨_, tracks⟩
      · exact .failed tracking isFailed
      · exact .opens tracking (allocator buf rfl) tracks
  | epollCreate buf junk =>
      obtain ⟨⟨created, _⟩, completes, isNext⟩ := bind_eq_ok.mp performs
      cases isNext
      exact .epollCreate tracking (allocator buf rfl) completes
  | epollCtl fd op fd2 event =>
      obtain ⟨⟨glue, _⟩, completes, isNext⟩ := bind_eq_ok.mp performs
      cases isNext
      exact .epollCtl tracking completes
  | close fd result =>
      obtain ⟨⟨closed, _⟩, completes, isNext⟩ := bind_eq_ok.mp performs
      cases isNext
      exact .close tracking completes
  | _ =>
      cases onEpoll

end Watched

namespace Process

variable
  {start process next final : Process}
  {calls : List SysCall}

/-- An `ADD` or `MOD` stores the data word of its event. -/
theorem adds_data
    {fd op fd2 : Int}
    {event : EpollEvent}
    (adds : process.Adds fd (.epollCtl epollFd op fd2 event))
    (step : process.Step (.epollCtl epollFd op fd2 event) next) :
    next.glue.epollPerFdData fd = event.data := by
  obtain ⟨reaches, registers, rfl⟩ := adds
  obtain ⟨⟨glue, _⟩, completes, isNext⟩ := bind_eq_ok.mp step.2
  cases isNext
  rcases implEpollCtl_completed completes with
    ⟨fails, _⟩ | ⟨_, call, rfl, rfl, rfl, rfl⟩
  · exact absurd reaches fails
  · change (call.effect process.glue).epollPerFdData call.fd = _
    have notDel : call.op ≠ epollCtlDel := by
      rcases registers with isAdd | isMod
      · rw [isAdd]
        decide
      · rw [isMod]
        decide
    rw [data_effect, if_neg notDel, if_pos rfl]

/-- A careful `ADD` or `MOD` of a descriptor that is watched after it found it
open, or already watched. -/
theorem adds_careful
    {fd op fd2 : Int}
    {event : EpollEvent}
    (adds : process.Adds fd (.epollCtl epollFd op fd2 event))
    (careful : process.Careful (.epollCtl epollFd op fd2 event))
    (step : process.Step (.epollCtl epollFd op fd2 event) next)
    (member : fd ∈ next.glue.interest) :
    fd ∈ process.glue.host.opened ∨ fd ∈ process.glue.interest := by
  obtain ⟨reaches, registers, rfl⟩ := adds
  rcases careful ⟨reaches, registers, rfl⟩ with
    isOpen | ⟨isAdd, noIn, noOut, noErr⟩
  · exact .inl isOpen
  · obtain ⟨⟨glue, _⟩, completes, isNext⟩ := bind_eq_ok.mp step.2
    cases isNext
    rcases implEpollCtl_completed completes with
      ⟨fails, _⟩ | ⟨_, call, isOp, rfl, rfl, rfl⟩
    · exact absurd reaches fails
    · have watched := mem_interest_effect.mp member
      cases call with
      | add fd2 event =>
          refine .inr (watched.resolve_right ?_)
          simp only [EpollCall.event] at noIn noOut noErr
          simp [noIn, noOut, noErr]
      | mod fd2 event =>
          rw [isAdd] at isOp
          exact absurd isOp (by simp [EpollCall.op, epollCtlAdd,
            epollCtlMod])
      | del fd2 event =>
          exact .inr watched.1

/-- What holds after each careful call. -/
structure WatchesTracked
    (start : Process)
    (calls : List SysCall)
    (reached : Process) : Prop where
  tracking : ∃ resources, Tracking reached resources
  watched :
    ∀ fd ∈ reached.glue.interest, OpenSinceAdded start calls reached fd

/-- A descriptor open since it was added is open. -/
theorem OpenSinceAdded.isOpen
    {reached : Process}
    {fd : Int}
    (since : OpenSinceAdded start calls reached fd) :
    fd ∈ reached.glue.host.opened := by
  obtain ⟨_, _, _, _, _, added, _, _, _, _, addedOpen, stays, _⟩ := since
  exact @Run.invariant Process SysCall (OpenStep fd)
    (fun process => fd ∈ process.glue.host.opened)
    (fun _ step => step.2.2) _ _ _ stays addedOpen

/-- A careful call keeps the watched descriptors open since they were added. -/
theorem WatchesTracked.step
    {passed : List SysCall}
    {call : SysCall}
    (before : Run Step start passed process)
    (watches : WatchesTracked start passed process)
    (onEpoll : call.onEpoll = true)
    (careful : process.Careful call)
    (step : process.Step call next) :
    WatchesTracked start (passed ++ [call]) next := by
  obtain ⟨⟨resources, tracking⟩, watched⟩ := watches
  have change := Watched.of_step tracking onEpoll step
  refine ⟨change.tracking, ?_⟩
  intro fd member
  by_cases adds : process.Adds fd call
  · cases call with
    | epollCtl instanceFd op fd2 event =>
        obtain ⟨⟨rfl, _⟩, _, rfl⟩ := id adds
        have wasOpen : fd2 ∈ process.glue.host.opened :=
          (adds_careful adds careful step member).elim id
            fun wasWatched => (watched fd2 wasWatched).isOpen
        have isOpen := change.stillOpen fd2 member careful wasOpen
        exact ⟨passed, op, event, [], process, next, rfl, before, adds,
          step, isOpen, .nil next, adds_data adds step⟩
    | _ =>
        cases adds
  · obtain ⟨wasWatched, sameData⟩ := change.kept fd member adds
    have since := watched fd wasWatched
    have isOpen := change.stillOpen fd member careful since.isOpen
    obtain ⟨earlier, op, event, after, source, added, shape, runs, addsFd,
      addStep, addedOpen, stays, data⟩ := since
    refine ⟨earlier, op, event, after ++ [call], source, added, ?_, runs,
      addsFd, addStep, addedOpen, stays.concat ⟨step, adds, isOpen⟩,
      sameData.trans data⟩
    rw [shape, List.append_assoc, List.cons_append]

/-- At program start nothing is watched. -/
theorem watchesTracked_start (opened : Finset Int) :
    WatchesTracked (startedWith opened) [] (startedWith opened) where
  tracking :=
    ⟨[], initial_holds.glue _, fun _ isEntry => absurd rfl isEntry,
      fun created => absurd rfl created⟩
  watched := by
    intro fd member
    simp [startedWith, onHost, initial, Glue.initial, Glue.interest]
      at member

/-- Careful calls keep the watched descriptors open since they were added. -/
theorem watchesTracked_careful
    {opened : Finset Int}
    (onEpoll : ∀ call ∈ calls, call.onEpoll = true)
    (run : Run CarefulStep (startedWith opened) calls final) :
    WatchesTracked (startedWith opened) calls final := by
  refine Run.history (watchesTracked_start opened) ?_
    (run.allowing onEpoll)
  rintro passed source call target before watches
    ⟨callOnEpoll, careful, step⟩
  exact watches.step (before.imp fun allowed => allowed.2.2) callOnEpoll
    careful step

/-- A call after which every watched descriptor is open was careful. -/
theorem careful_of_open
    {call : SysCall}
    (tracking : ∃ resources, Tracking process resources)
    (step : process.Step call next)
    (isOpen : ∀ fd ∈ next.glue.interest, fd ∈ next.glue.host.opened) :
    process.Careful call := by
  obtain ⟨resources, tracking⟩ := tracking
  cases call with
  | epollCtl instanceFd op fd2 event =>
      rintro ⟨reaches, registers, _⟩
      obtain ⟨⟨glue, _⟩, completes, isNext⟩ := bind_eq_ok.mp step.2
      cases isNext
      rcases implEpollCtl_completed completes with
        ⟨fails, _⟩ | ⟨_, call, rfl, rfl, rfl, rfl⟩
      · exact absurd reaches fails
      · have wasOpen :
            call.fd ∈ (call.effect process.glue).interest →
              call.fd ∈ process.glue.host.opened := by
          intro member
          have sameHost :
              (call.effect process.glue).host = process.glue.host := by
            cases call <;> rfl
          exact sameHost ▸ isOpen call.fd member
        cases call with
        | add fd2 event =>
            by_cases flagged :
                event.has epollIn = true ∨ event.has epollOut = true ∨
                  event.has epollErr = true
            · exact .inl (wasOpen
                (mem_interest_effect.mpr (.inr ⟨rfl, flagged⟩)))
            · simp only [not_or, Bool.not_eq_true] at flagged
              exact .inr ⟨rfl, flagged⟩
        | mod fd2 event =>
            exact .inl (wasOpen (mem_interest_effect.mpr (.inr rfl)))
        | del fd2 event =>
            exact absurd registers (by simp [EpollCall.op, epollCtlAdd,
              epollCtlDel, epollCtlMod])
  | close fd result =>
      obtain ⟨⟨closed, _⟩, completes, isNext⟩ := bind_eq_ok.mp step.2
      cases isNext
      obtain ⟨_, sameInterest, _, outcome⟩ := tracking.close completes
      rcases outcome with ⟨isEpoll, _⟩ | ⟨_, opened⟩
      · exact .inl isEpoll
      · refine .inr fun member => ?_
        have stillOpen := isOpen fd (sameInterest ▸ member)
        rw [opened] at stillOpen
        exact Finset.notMem_erase fd _ stillOpen
  | _ =>
      trivial

/-- In a run the watched descriptors are open since they were added, at every
point, exactly when every call is careful: no watched descriptor is closed and
only open ones are added. -/
theorem watchesOpen_iff_careful
    {opened : Finset Int}
    (onEpoll : ∀ call ∈ calls, call.onEpoll = true)
    (run : Run Step (startedWith opened) calls final) :
    WatchesOpen (startedWith opened) calls ↔
      Run CarefulStep (startedWith opened) calls final := by
  constructor
  · intro watchesOpen
    have careful :
        calls <+: calls →
          Run CarefulStep (startedWith opened) calls final := by
      refine @Run.history Process SysCall Step
        (fun labels reached => labels <+: calls →
          Run CarefulStep (startedWith opened) labels reached)
        _ _ _ ?_ ?_ run
      · exact fun _ => .nil _
      · intro passed source call target before carefulBefore step isPrefix
        have earlier := (List.prefix_append passed [call]).trans isPrefix
        have carefulRun := carefulBefore earlier
        have watches := watchesTracked_careful
          (fun call member => onEpoll call (earlier.subset member))
          carefulRun
        refine carefulRun.concat ⟨careful_of_open watches.tracking step
          ?_, step⟩
        intro fd member
        exact (watchesOpen _ _ isPrefix (before.concat step) fd
          member).isOpen
    exact careful (List.prefix_refl calls)
  · rintro careful leading reached ⟨trailing, rfl⟩ toReached fd member
    obtain ⟨middle, toMiddle, _⟩ := careful.split
    have steps : Run Step (startedWith opened) leading middle :=
      toMiddle.imp And.right
    obtain rfl : middle = reached :=
      steps.functional toReached fun first second =>
        step_functional first second
    exact (watchesTracked_careful
      (fun call inLeading => onEpoll call (List.mem_append_left _ inLeading))
      toMiddle).watched fd member

/-- A socket that is deleted from the interest set before it is closed. -/
def deletedBeforeClose : List SysCall :=
  [
    .epollCreate 4096 freshBlock,
    .socket 2 2 0 3 8192 freshBlock,
    .epollCtl epollFd epollCtlAdd 3 ⟨epollIn, 7⟩,
    .epollCtl epollFd epollCtlDel 3 ⟨0, 0⟩,
    .close 3 0
  ]

/-- The same without the deletion. -/
def closedWhileWatched : List SysCall :=
  [
    .epollCreate 4096 freshBlock,
    .socket 2 2 0 3 8192 freshBlock,
    .epollCtl epollFd epollCtlAdd 3 ⟨epollIn, 7⟩,
    .close 3 0
  ]

/-- A run whose calls are careful because the socket is deleted first. -/
theorem watchesOpen_deletedBeforeClose :
    ∃ final,
      Run Step (startedWith ∅) deletedBeforeClose final ∧
        (WatchesOpen (startedWith ∅) deletedBeforeClose ↔
          Run CarefulStep (startedWith ∅) deletedBeforeClose final) := by
  have passes :
      reaches (fun _ => true) (startedWith ∅) deletedBeforeClose = true := by
    decide
  obtain ⟨final, run, _⟩ := exists_run passes
  exact ⟨final, run, watchesOpen_iff_careful (by decide) run⟩

/-- A closed socket stays in the interest set. -/
theorem not_watchesOpen_closedWhileWatched :
    ¬ ∀ (opened : Finset Int) (calls : List SysCall) (final : Process),
      (∀ call ∈ calls, call.onEpoll = true) →
        Run Step (startedWith opened) calls final →
          WatchesOpen (startedWith opened) calls := by
  intro watchesOpen
  have passes :
      reaches
        (fun process => 3 ∈ process.glue.interest ∧
          3 ∉ process.glue.host.opened)
        (startedWith ∅) closedWhileWatched = true := by
    decide
  obtain ⟨final, run, tested⟩ := exists_run passes
  obtain ⟨watched, closed⟩ := of_decide_eq_true tested
  have onEpoll :
      ∀ call ∈ closedWhileWatched, call.onEpoll = true := by
    decide
  exact closed (watchesOpen ∅ closedWhileWatched final onEpoll run _ final
    (List.prefix_refl _) run 3 watched).isOpen

end Process

end Hamachi
