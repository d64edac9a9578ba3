import Hamachi.DescriptorAccounts

namespace Hamachi

/-!
# Host closes of one `impl_close`

The finaliser `res_fd` closes the descriptor and `impl_close` closes it again.
Another thread may open descriptors between the two: while the finaliser holds
the lock of `handles.c` only the host call can happen, afterwards it can
register the descriptor, too.
-/

/-- A host call by which another thread opens a descriptor. -/
inductive Opening where
  | open (path : String) (flags mode : Nat) (fd : Int)
  | socket (domain type protocol : Int) (fd : Int)

namespace Opening

/-- The call that the host receives. -/
def call : Opening → HostCall
  | .open path flags mode _ =>
      .open (openPath path) (openFlags flags) mode
  | .socket domain type protocol _ =>
      .socket (if domain = 10 then 28 else domain) type protocol

/-- The descriptor that the host returns. -/
def fd : Opening → Int
  | .open _ _ _ fd => fd
  | .socket _ _ _ fd => fd

end Opening

/-- A step of another thread in `impl_open64` or `impl_socket`. -/
inductive Other where
  | opening (opening : Opening)
  | track (fd : Int) (buf : Addr) (junk : Resource Finaliser Payload)

namespace Glue

/-- The statics after the host calls of another thread. -/
def afterOpenings (glue : Glue) (openings : List Opening) : Glue :=
  { glue with
    host := openings.foldl
      (fun host opening => host.opens opening.call opening.fd) glue.host }

/-- How often the host was told to close a descriptor. -/
def hostCloses (glue : Glue) (fd : Int) : Nat :=
  glue.host.trace.count (.close fd)

end Glue

/-- The finalisers, with host calls of another thread after each. -/
def runtimeAmid (inside : List Opening) :
    Runtime Finaliser Payload Glue where
  finalise := fun free h payload glue => do
    let glue ← Glue.finalise free h payload glue
    .ok (glue.afterOpenings inside)
  scrub := fun _ => none

namespace Process

/-- The steps of other threads. -/
def others (process : Process) : List Other → Except Fault Process
  | [] => .ok process
  | .opening opening :: rest =>
      others { process with glue := process.glue.afterOpenings [opening] }
        rest
  | .track fd buf junk :: rest => do
      let process ← process.trackFd fd buf junk
      process.others rest

/-- `resource_free` amid the host calls of another thread. -/
def freeAmid
    (process : Process)
    (inside : List Opening)
    (h : Addr) : Except Fault Process := do
  let (handles, glue) ←
    process.handles.resourceFree (runtimeAmid inside) process.glue h
  .ok { handles := handles, glue := glue }

/-- `closeResource` amid the host calls of another thread. -/
def closeResourceAmid
    (process : Process)
    (inside : List Opening)
    (fd : Int) : Except Fault Process := do
  let tunFd := if fd = process.glue.tunFd then -1 else process.glue.tunFd
  let process :=
    { process with glue := { process.glue with tunFd := tunFd } }
  let h ← process.glue.perFd fd
  process.freeAmid inside h

/-- `impl_close` amid the steps of other threads: `inside` happens in
`resource_free` after the finaliser, `before` and `after` on either side of the
assignment to `per_fd_resources`. -/
def closeAmid
    (process : Process)
    (fd result : Int)
    (inside : List Opening)
    (before after : List Other) :
    Except Fault (Process × Int) :=
  if fd = epollFd ∧ process.glue.epollRs ≠ 0 then do
    let process ← process.freeAmid inside process.glue.epollRs
    .ok (process, 0)
  else do
    let process ← process.closeResourceAmid inside fd
    let process ← process.others before
    let process ← process.closeEntry fd
    let process ← process.others after
    .ok (process.closeHost fd result)

/-- Without other threads this is `impl_close`. -/
theorem closeAmid_alone
    (process : Process)
    (fd result : Int) :
    process.closeAmid fd result [] [] [] = process.implClose fd result := by
  have alone : runtimeAmid [] = runtime := by
    unfold runtimeAmid runtime
    congr 1
    funext free h payload glue
    cases Glue.finalise free h payload glue <;> rfl
  have freeAlone :
      ∀ (process : Process) (h : Addr),
        process.freeAmid [] h = process.free h := by
    intro process h
    unfold freeAmid free
    rw [alone]
  unfold closeAmid implClose closeResourceAmid closeResource
  simp only [freeAlone, others, ok_bind]

/-- Opening descriptors closes none. -/
theorem hostCloses_afterOpenings
    (glue : Glue)
    (openings : List Opening)
    (fd : Int) :
    (glue.afterOpenings openings).hostCloses fd = glue.hostCloses fd := by
  unfold Glue.afterOpenings Glue.hostCloses
  induction openings generalizing glue with
  | nil =>
      rfl
  | cons opening rest inductionHypothesis =>
      have first :
          (glue.host.opens opening.call opening.fd).trace.count (.close fd) =
            glue.host.trace.count (.close fd) := by
        cases opening <;>
          simp [Host.opens, Opening.call, List.count_append]
      rw [← first]
      exact inductionHypothesis
        { glue with host := glue.host.opens opening.call opening.fd }

/-- Other threads close no descriptor. -/
theorem hostCloses_others
    {process next : Process}
    {steps : List Other}
    (completes : process.others steps = .ok next)
    (fd : Int) :
    next.glue.hostCloses fd = process.glue.hostCloses fd := by
  induction steps generalizing process with
  | nil =>
      cases completes
      rfl
  | cons step rest inductionHypothesis =>
      cases step with
      | opening opening =>
          rw [inductionHypothesis completes]
          exact hostCloses_afterOpenings process.glue [opening] fd
      | track tracked buf junk =>
          obtain ⟨middle, tracks, later⟩ := bind_eq_ok.mp completes
          rw [inductionHypothesis later,
            (trackFd_completed tracks).2]
          rfl

/-- `impl_close` amid other threads closes its descriptor exactly once on the
host and returns the result of that. -/
def ClosesOnce
    (process : Process)
    (fd result : Int)
    (inside : List Opening)
    (before after : List Other) : Prop :=
  ∃ next,
    process.closeAmid fd result inside before after = .ok (next, result) ∧
      next.glue.hostCloses fd = process.glue.hostCloses fd + 1

end Process

/-- The finaliser of a tracked descriptor closes it. -/
theorem Accounting.closeResourceAmid
    {owed : Set Int}
    {process freed : Process}
    {resources : List (Handles.Tracked Finaliser Payload)}
    {fd : Int}
    {inside : List Opening}
    (accounting : Accounting owed process resources)
    (isTracked : process.glue.perFdResources fd ≠ 0)
    (completes : process.closeResourceAmid inside fd = .ok freed) :
    freed.glue.hostCloses fd = process.glue.hostCloses fd + 1 := by
  obtain ⟨h, reads, frees⟩ := bind_eq_ok.mp completes
  obtain ⟨⟨handles, glue⟩, freesHandles, isFreed⟩ := bind_eq_ok.mp frees
  cases isFreed
  rw [Glue.perFd_completed reads] at freesHandles
  obtain ⟨leading, resource, successor, trailing, shape, isHandle,
      finalises, _⟩ :=
    accounting.holds.represents.resourceFree_completed
      accounting.holds.strict isTracked freesHandles
  have member : resource ∈ resources := by
    simp [shape]
  obtain ⟨isFd, isPayload⟩ :=
    accounting.resource_of_entry member isHandle
  obtain ⟨closed, closes, isFinal⟩ := bind_eq_ok.mp finalises
  rw [isFd, isPayload] at closes
  cases closes
  cases isFinal
  rw [Process.hostCloses_afterOpenings]
  simp [Glue.hostCloses, Glue.hostClose, Host.close]

/-- A completed `impl_close` of a tracked descriptor closed it twice. -/
theorem Accounting.closeAmid
    {owed : Set Int}
    {process next : Process}
    {resources : List (Handles.Tracked Finaliser Payload)}
    {fd result ret : Int}
    {inside : List Opening}
    {before after : List Other}
    (accounting : Accounting owed process resources)
    (isTracked : process.glue.perFdResources fd ≠ 0)
    (completes :
      process.closeAmid fd result inside before after =
        .ok (next, ret)) :
    next.glue.hostCloses fd = process.glue.hostCloses fd + 2 := by
  unfold Process.closeAmid at completes
  rw [if_neg fun isEpoll => isEpoll.2 accounting.noEpoll] at completes
  obtain ⟨freed, closesResource, rest⟩ := bind_eq_ok.mp completes
  obtain ⟨interrupted, earlier, rest⟩ := bind_eq_ok.mp rest
  obtain ⟨cleared, clears, rest⟩ := bind_eq_ok.mp rest
  obtain ⟨resumed, later, isNext⟩ := bind_eq_ok.mp rest
  obtain ⟨glue, sets, isCleared⟩ := bind_eq_ok.mp clears
  cases isNext
  cases isCleared
  have sameHost : glue.host = interrupted.glue.host := by
    rw [(Glue.setPerFd_completed sets).2]
  calc
    (resumed.glue.hostClose fd).hostCloses fd
    _ = resumed.glue.hostCloses fd + 1 := by
      simp [Glue.hostCloses, Glue.hostClose, Host.close]
    _ = glue.hostCloses fd + 1 := by
      rw [Process.hostCloses_others later]
    _ = interrupted.glue.hostCloses fd + 1 := by
      rw [Glue.hostCloses, sameHost, Glue.hostCloses]
    _ = freed.glue.hostCloses fd + 1 := by
      rw [Process.hostCloses_others earlier]
    _ = process.glue.hostCloses fd + 2 := by
      rw [accounting.closeResourceAmid isTracked closesResource]

/-- No `impl_close` of a tracked descriptor closes it exactly once, whatever
other threads do meanwhile. -/
theorem not_closesOnce
    {reached : Process}
    {calls : List SysCall}
    (run : Run Process.Step Process.initial calls reached)
    (onDescriptors : ∀ call ∈ calls, call.onDescriptors = true)
    {fd : Int}
    (isTracked : reached.glue.perFdResources fd ≠ 0)
    (result : Int)
    (inside : List Opening)
    (before after : List Other) :
    ¬ reached.ClosesOnce fd result inside before after := by
  have initialAccounts :=
    accounts_empty Process.initial_holds (fun _ => rfl) rfl rfl
  obtain ⟨resources, accounting⟩ :=
    (run_onDescriptors run onDescriptors).outstanding Accounts.step
      initialAccounts
  rintro ⟨next, completes, once⟩
  have twice := accounting.closeAmid isTracked completes
  omega

/-- A program with two descriptors. -/
def twoDescriptors : List SysCall :=
  [.open64 "/dev/urandom" 0 0 3 8 freshBlock,
    .socket 2 2 0 4 100 freshBlock]

/-- The newer of two descriptors is not closed exactly once. -/
theorem not_closesOnce_twoDescriptors :
    ∃ reached,
      Run Process.Step Process.initial twoDescriptors reached ∧
        ¬ reached.ClosesOnce 4 0 [] [] [] := by
  have passes :
      Process.reaches (fun process => process.glue.perFdResources 4 != 0)
        Process.initial twoDescriptors = true := by
    decide
  obtain ⟨reached, run, isTracked⟩ := Process.exists_run passes
  exact ⟨reached, run,
    not_closesOnce run (by decide) (bne_iff_ne.mp isTracked) 0 [] [] []⟩

/-- Another thread gets the number of the closed descriptor for a socket of its
own, which the same `impl_close` closes. -/
theorem closes_socket_of_other :
    ∃ reached next,
      Run Process.Step Process.initial twoDescriptors reached ∧
        reached.glue.perFdResources 4 ≠ 0 ∧
        reached.closeAmid 4 0 [.socket 2 1 0 4] [] [] = .ok (next, 0) ∧
        4 ∉ next.glue.host.opened ∧
        ¬ reached.ClosesOnce 4 0 [.socket 2 1 0 4] [] [] := by
  have passes :
      Process.reaches
        (fun process =>
          match process.closeAmid 4 0 [.socket 2 1 0 4] [] [] with
          | .ok (next, ret) =>
              process.glue.perFdResources 4 ≠ 0 ∧
                ret = 0 ∧ 4 ∉ next.glue.host.opened ∧
                next.glue.hostCloses 4 = process.glue.hostCloses 4 + 2
          | .error _ => false)
        Process.initial twoDescriptors = true := by
    decide
  obtain ⟨reached, run, tested⟩ := Process.exists_run passes
  split at tested
  · rename_i next ret completes
    obtain ⟨isTracked, rfl, notOpen, twice⟩ := of_decide_eq_true tested
    refine ⟨reached, next, run, isTracked, completes, notOpen, ?_⟩
    rintro ⟨other, otherCompletes, once⟩
    rw [completes] at otherCompletes
    cases otherCompletes
    omega
  · cases tested

end Hamachi
