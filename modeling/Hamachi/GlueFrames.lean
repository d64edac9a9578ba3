import Hamachi.GlueDevices

namespace Hamachi

/-!
# What the completion of a system call tells

For each function of `glue.c` that goes through several stages there is a lemma
on the stages of a completed call.  The descriptor tables are
`per_fd_resources` and `tun_fd`; most calls change neither these nor
`epoll_rs`, and a finaliser may only reset the latter.
-/

/-- Two states of the statics with the same descriptor tables. -/
structure SameTables (glue changed : Glue) : Prop where
  perFdResources : changed.perFdResources = glue.perFdResources
  tunFd : changed.tunFd = glue.tunFd

/-- Two states of the statics that also agree on the epoll instance. -/
structure Frame (glue changed : Glue) : Prop extends
    SameTables glue changed where
  epollRs : changed.epollRs = glue.epollRs

/-- A finaliser leaves the tables alone and forgets the epoll instance only
when it is that of the instance. -/
theorem finalise_tables
    {free : Finaliser}
    {h : Addr}
    {payload : Payload}
    {glue changed : Glue}
    (finalises : Glue.finalise free h payload glue = .ok changed) :
    SameTables glue changed ∧
      changed.epollRs = if free = .resEpoll then 0 else glue.epollRs := by
  unfold Glue.finalise at finalises
  split at finalises
  · cases finalises
    exact ⟨⟨rfl, rfl⟩, rfl⟩
  · cases finalises
    exact ⟨⟨rfl, rfl⟩, rfl⟩
  · split at finalises <;>
      · cases finalises
        exact ⟨⟨rfl, rfl⟩, rfl⟩
  · cases finalises
    exact ⟨⟨rfl, rfl⟩, rfl⟩
  · cases finalises

namespace Glue

/-- A completed store to `per_fd_resources` was inside the table. -/
theorem setPerFd_completed
    {glue changed : Glue}
    {fd : Int}
    {h : Addr}
    (sets : glue.setPerFd fd h = .ok changed) :
    (0 ≤ fd ∧ fd < perFdSize) ∧
      changed =
        { glue with
          perFdResources := Function.update glue.perFdResources fd h } := by
  unfold setPerFd at sets
  split at sets
  · rename_i inRange
    cases sets
    exact ⟨inRange, rfl⟩
  · cases sets

/-- A completed read of `per_fd_resources` found its entry. -/
theorem perFd_completed
    {glue : Glue}
    {fd : Int}
    {h : Addr}
    (reads : glue.perFd fd = .ok h) :
    h = glue.perFdResources fd := by
  unfold perFd at reads
  split at reads <;> cases reads
  rfl

end Glue

namespace Process

/-- A store through a handle leaves the statics alone. -/
theorem storePayload_glue
    {process stored : Process}
    {h : Addr}
    {payload : Payload}
    (stores : process.storePayload h payload = .ok stored) :
    stored.glue = process.glue := by
  obtain ⟨handles, _, isStored⟩ := bind_eq_ok.mp stores
  cases isStored
  rfl

/-- A completed `trackFd` enters the handle of its block. -/
theorem trackFd_completed
    {process tracked : Process}
    {fd : Int}
    {buf : Addr}
    {junk : Resource Finaliser Payload}
    (tracks : process.trackFd fd buf junk = .ok tracked) :
    (0 ≤ fd ∧ fd < perFdSize) ∧
      tracked.glue =
        { process.glue with
          perFdResources :=
            Function.update process.glue.perFdResources fd
              (handleOf buf) } := by
  obtain ⟨⟨allocated, h⟩, allocates, rest⟩ := bind_eq_ok.mp tracks
  obtain ⟨rfl, sameGlue⟩ := alloc_completed allocates
  obtain ⟨glue, sets, stores⟩ := bind_eq_ok.mp rest
  obtain ⟨inRange, isGlue⟩ := Glue.setPerFd_completed sets
  refine ⟨inRange, ?_⟩
  rw [storePayload_glue stores]
  exact isGlue.trans (by rw [sameGlue])

/-- A completed `impl_open64` tracked the descriptor. -/
theorem implOpen64_completed
    {process next : Process}
    {path : String}
    {flags mode : Nat}
    {fd ret : Int}
    {buf : Addr}
    {junk : Resource Finaliser Payload}
    (completes :
      process.implOpen64 path flags mode fd buf junk = .ok (next, ret)) :
    (process.onHost (process.glue.host.opens
        (.open (openPath path) (openFlags flags) mode) fd)).trackFd
      fd buf junk = .ok next := by
  obtain ⟨tracked, tracks, isNext⟩ := bind_eq_ok.mp completes
  cases isNext
  exact tracks

/-- A completed `impl_socket` tracked the descriptor when there is one. -/
theorem implSocket_completed
    {process next : Process}
    {domain type protocol ans ret : Int}
    {buf : Addr}
    {junk : Resource Finaliser Payload}
    (completes :
      process.implSocket domain type protocol ans buf junk =
        .ok (next, ret)) :
    ∃ call,
      let hosted := process.onHost (process.glue.host.opens call ans)
      ans < 0 ∧ next = hosted ∨
        ¬ ans < 0 ∧ hosted.trackFd ans buf junk = .ok next := by
  refine ⟨.socket (if domain = 10 then 28 else domain) type protocol, ?_⟩
  unfold implSocket at completes
  extract_lets _ host _ hosted at completes
  split at completes
  · rename_i failed
    obtain ⟨isNext, _⟩ := Prod.mk.inj (Except.ok.inj completes)
    exact .inl ⟨failed, isNext.symm⟩
  · rename_i opened
    obtain ⟨tracked, tracks, isNext⟩ := bind_eq_ok.mp completes
    cases isNext
    exact .inr ⟨opened, tracks⟩

/-- A completed `impl_close` freed the epoll instance, or freed the resource of
the descriptor, cleared its entry and closed it. -/
theorem implClose_completed
    {process next : Process}
    {fd result ret : Int}
    (completes : process.implClose fd result = .ok (next, ret)) :
    ((fd = epollFd ∧ process.glue.epollRs ≠ 0) ∧
        process.free process.glue.epollRs = .ok next) ∨
      ∃ freed,
        process.closeResource fd = .ok freed ∧
          (0 ≤ fd ∧ fd < perFdSize) ∧
          next =
            { freed with glue := Glue.hostClose { freed.glue with
                perFdResources :=
                  Function.update freed.glue.perFdResources fd 0 } fd } := by
  unfold implClose at completes
  split at completes
  · rename_i isEpoll
    obtain ⟨freed, frees, isNext⟩ := bind_eq_ok.mp completes
    cases isNext
    exact .inl ⟨isEpoll, frees⟩
  · obtain ⟨freed, closesResource, rest⟩ := bind_eq_ok.mp completes
    obtain ⟨cleared, clears, isNext⟩ := bind_eq_ok.mp rest
    obtain ⟨glue, sets, isCleared⟩ := bind_eq_ok.mp clears
    obtain ⟨inRange, rfl⟩ := Glue.setPerFd_completed sets
    cases isCleared
    cases isNext
    exact .inr ⟨freed, closesResource, inRange, rfl⟩

/-- The process that forgot the tap device if that is the descriptor. -/
def forgetTun (process : Process) (fd : Int) : Process :=
  { process with glue := { process.glue with
    tunFd := if fd = process.glue.tunFd then -1 else process.glue.tunFd } }

/-- A completed `closeResource` forgot the tap device when it is the
descriptor, and freed the resource of the descriptor. -/
theorem closeResource_completed
    {process freed : Process}
    {fd : Int}
    (completes : process.closeResource fd = .ok freed) :
    (process.forgetTun fd).free (process.glue.perFdResources fd) =
      .ok freed := by
  obtain ⟨h, reads, frees⟩ := bind_eq_ok.mp completes
  rw [Glue.perFd_completed reads] at frees
  exact frees

/-- A completed `impl_epoll_create` allocated the epoll instance. -/
theorem implEpollCreate_completed
    {process next : Process}
    {buf : Addr}
    {junk : Resource Finaliser Payload}
    {ret : Int}
    (completes : process.implEpollCreate buf junk = .ok (next, ret)) :
    ∃ allocated,
      process.alloc buf junk .resEpoll = .ok (allocated, handleOf buf) ∧
        next =
          { allocated with glue := { process.glue with
            epollRs := handleOf buf
            epollIn := ∅
            epollOut := ∅
            epollErr := ∅ } } := by
  unfold implEpollCreate at completes
  split at completes
  · cases completes
  · obtain ⟨⟨allocated, h⟩, allocates, isNext⟩ := bind_eq_ok.mp completes
    obtain ⟨rfl, sameGlue⟩ := alloc_completed allocates
    cases isNext
    exact ⟨allocated, allocates, by rw [sameGlue]⟩

/-- A completed `impl_fopen64` opened no stream or made it a resource. -/
theorem implFopen64_completed
    {process next : Process}
    {path mode : String}
    {fp buf ret : Addr}
    {junk : Resource Finaliser Payload}
    (completes :
      process.implFopen64 path mode fp buf junk = .ok (next, ret)) :
    ∃ opened ans,
      process.openStream path mode fp = .ok (opened, ans) ∧
        (next = opened ∨
          ∃ allocated h,
            opened.alloc buf junk .resFile = .ok (allocated, h) ∧
              allocated.storePayload h (.file ans) = .ok next) := by
  obtain ⟨⟨opened, ans⟩, opens, rest⟩ := bind_eq_ok.mp completes
  refine ⟨opened, ans, opens, ?_⟩
  change (if ans = 0 then _ else _) = _ at rest
  split at rest
  · cases rest
    exact .inl rfl
  · obtain ⟨⟨allocated, h⟩, allocates, rest⟩ := bind_eq_ok.mp rest
    obtain ⟨stored, stores, isNext⟩ := bind_eq_ok.mp rest
    cases isNext
    exact .inr ⟨allocated, _, allocates, stores⟩

/-- A completed `impl_fclose` closed the stream, cleared it and freed its
resource. -/
theorem implFclose_completed
    {process next : Process}
    {f : Addr}
    {result ret : Int}
    (completes : process.implFclose f result = .ok (next, ret)) :
    ∃ fp closed ans stored,
      process.closeStream fp result = .ok (closed, ans) ∧
        closed.storePayload f (.file 0) = .ok stored ∧
        stored.free f = .ok next := by
  obtain ⟨block, _, rest⟩ := bind_eq_ok.mp completes
  split at rest
  · obtain ⟨⟨closed, ans⟩, closes, rest⟩ := bind_eq_ok.mp rest
    obtain ⟨stored, stores, rest⟩ := bind_eq_ok.mp rest
    obtain ⟨freed, frees, isNext⟩ := bind_eq_ok.mp rest
    cases isNext
    exact ⟨_, closed, _, stored, closes, stores, frees⟩
  · cases rest

/-- A completed `impl_free` freed its argument or nothing. -/
theorem implFree_completed
    {process next : Process}
    {ptr lookedUp : Addr}
    (completes : process.implFree ptr lookedUp = .ok next) :
    ∃ storage,
      let stored : Process := { process with glue := { process.glue with
        emptyRepStorage := storage } }
      stored.free ptr = .ok next ∨ next = stored := by
  refine ⟨if process.glue.emptyRepStorage = 0 then lookedUp
    else process.glue.emptyRepStorage, ?_⟩
  unfold implFree at completes
  extract_lets storage _ stored at completes
  split at completes
  · exact .inl completes
  · exact .inr (Except.ok.inj completes).symm

/-- A completed `resource_free` ran at most one finaliser. -/
theorem free_finalises
    {process freed : Process}
    {h : Addr}
    (frees : process.free h = .ok freed) :
    freed.glue = process.glue ∨
      ∃ free payload,
        Glue.finalise free h payload process.glue = .ok freed.glue := by
  obtain ⟨⟨handles, glue⟩, freesHandles, isFreed⟩ := bind_eq_ok.mp frees
  cases isFreed
  by_cases isNull : h = 0
  · subst isNull
    cases freesHandles
    exact .inl rfl
  · obtain ⟨block, _, _, _, _, _, _, finalises, _⟩ :=
      Handles.resourceFree_steps isNull freesHandles
    exact .inr ⟨block.free, block.payload, finalises⟩

/-- A completed `resource_free` keeps the tables, and at most resets the epoll
instance. -/
theorem free_tables
    {process freed : Process}
    {h : Addr}
    (frees : process.free h = .ok freed) :
    SameTables process.glue freed.glue ∧
      (freed.glue.epollRs = 0 ∨
        freed.glue.epollRs = process.glue.epollRs) := by
  rcases free_finalises frees with sameGlue | ⟨free, payload, finalises⟩
  · rw [sameGlue]
    exact ⟨⟨rfl, rfl⟩, .inr rfl⟩
  · obtain ⟨same, epollRs⟩ := finalise_tables finalises
    refine ⟨same, ?_⟩
    split at epollRs
    · exact .inl epollRs
    · exact .inr epollRs

end Process

/-- A completed `TUNSETIFF` found no tap device and remembers its own. -/
theorem implIoctl_tunSetIff
    {glue changed : Glue}
    {fd ans ret : Int}
    {ifru : LinuxIfru}
    {garbage : InAddr}
    (completes :
      glue.implIoctl fd tunSetIff ifru garbage ans = .ok (changed, ret)) :
    glue.tunFd = -1 ∧
      changed.perFdResources = glue.perFdResources ∧
      changed.tunFd = fd ∧
      changed.epollRs = glue.epollRs := by
  unfold Glue.implIoctl at completes
  rw [if_pos rfl] at completes
  split at completes
  · cases completes
  · rename_i free
    obtain ⟨flags, _, rest⟩ := bind_eq_ok.mp completes
    split at rest <;>
      · cases rest
        exact ⟨not_not.mp free, rfl, rfl, rfl⟩

namespace Frame

variable {glue changed : Glue}

theorem implEpollCtl
    {fd op fd2 ret : Int}
    {event : EpollEvent}
    (completes :
      glue.implEpollCtl fd op fd2 event = .ok (changed, ret)) :
    Frame glue changed := by
  unfold Glue.implEpollCtl at completes
  split at completes
  · cases completes
    exact ⟨⟨rfl, rfl⟩, rfl⟩
  · split at completes
    · split at completes
      · cases completes
        split <;> exact ⟨⟨rfl, rfl⟩, rfl⟩
      · cases completes
    · split at completes
      · split at completes <;> cases completes
        exact ⟨⟨rfl, rfl⟩, rfl⟩
      · cases completes

theorem implRead
    {cnt : Nat}
    {fd ret : Int}
    {buf filled : Buffer cnt}
    {host : HostRead cnt}
    (completes :
      glue.implRead fd buf host = .ok (changed, filled, ret)) :
    Frame glue changed := by
  unfold Glue.implRead at completes
  split at completes
  · obtain ⟨read, _, isChanged⟩ := bind_eq_ok.mp completes
    cases isChanged
    exact ⟨⟨rfl, rfl⟩, rfl⟩
  · cases host with
    | failed errno =>
        cases completes
        exact ⟨⟨rfl, rfl⟩, rfl⟩
    | returned data fits =>
        obtain ⟨_, _, isChanged⟩ := bind_eq_ok.mp completes
        cases isChanged
        exact ⟨⟨rfl, rfl⟩, rfl⟩

theorem implWrite
    {cnt : Nat}
    {fd result ret : Int}
    {buf : Buffer cnt}
    (completes : glue.implWrite fd buf result = .ok (changed, ret)) :
    Frame glue changed := by
  unfold Glue.implWrite at completes
  split at completes
  · obtain ⟨write, _, isChanged⟩ := bind_eq_ok.mp completes
    cases isChanged
    exact ⟨⟨rfl, rfl⟩, rfl⟩
  · split at completes <;>
      · cases completes
        exact ⟨⟨rfl, rfl⟩, rfl⟩

/-- Every `ioctl` but `TUNSETIFF` leaves the tables alone. -/
theorem implIoctl
    {fd cmd ans ret : Int}
    {ifru : LinuxIfru}
    {garbage : InAddr}
    (notTunSetIff : cmd ≠ tunSetIff)
    (completes :
      glue.implIoctl fd cmd ifru garbage ans = .ok (changed, ret)) :
    Frame glue changed := by
  unfold Glue.implIoctl at completes
  rw [if_neg notTunSetIff] at completes
  split at completes
  · obtain ⟨_, _, isChanged⟩ := bind_eq_ok.mp completes
    cases isChanged
    exact ⟨⟨rfl, rfl⟩, rfl⟩
  · split at completes
    · cases completes
      exact ⟨⟨rfl, rfl⟩, rfl⟩
    · split at completes
      · obtain ⟨_, _, isChanged⟩ := bind_eq_ok.mp completes
        cases isChanged
        exact ⟨⟨rfl, rfl⟩, rfl⟩
      · split at completes
        · obtain ⟨_, _, isChanged⟩ := bind_eq_ok.mp completes
          cases isChanged
          exact ⟨⟨rfl, rfl⟩, rfl⟩
        · split at completes
          · obtain ⟨_, _, isChanged⟩ := bind_eq_ok.mp completes
            cases isChanged
            exact ⟨⟨rfl, rfl⟩, rfl⟩
          · cases completes

/-- Opening a stream changes the statics outside the tables only. -/
theorem openStream
    {process next : Process}
    {path mode : String}
    {fp ans : Addr}
    (completes : process.openStream path mode fp = .ok (next, ans)) :
    next = { process with glue := next.glue } ∧
      Frame process.glue next.glue := by
  unfold Process.openStream at completes
  split at completes
  · split at completes
    · cases completes
      exact ⟨rfl, ⟨rfl, rfl⟩, rfl⟩
    · split at completes
      · cases completes
      · cases completes
        exact ⟨rfl, ⟨rfl, rfl⟩, rfl⟩
  · cases completes
    exact ⟨rfl, ⟨rfl, rfl⟩, rfl⟩

/-- So does closing one. -/
theorem closeStream
    {process next : Process}
    {fp : Addr}
    {result ans : Int}
    (completes : process.closeStream fp result = .ok (next, ans)) :
    next = { process with glue := next.glue } ∧
      Frame process.glue next.glue := by
  unfold Process.closeStream at completes
  split at completes
  · cases completes
    exact ⟨rfl, ⟨rfl, rfl⟩, rfl⟩
  · split at completes
    · cases completes
    · cases completes
      exact ⟨rfl, ⟨rfl, rfl⟩, rfl⟩

end Frame

end Hamachi
