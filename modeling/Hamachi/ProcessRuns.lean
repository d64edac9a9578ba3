import Hamachi.GlueFrames
import Hamachi.ResourceListCompletion
import Hamachi.Runs

namespace Hamachi

/-!
# Runs of an emulated process

A run is a sequence of system calls, each with what the host answers it.  A
call that faults does not complete, so a run holds completed calls only.  For
each function of `glue.c` there is a lemma on what its completion means for the
resource list.
-/

/-- A system call of the Linux program with the answers of the host. -/
inductive SysCall where
  | open64
      (path : String) (flags mode : Nat) (fd : Int)
      (buf : Addr) (junk : Resource Finaliser Payload)
  | socket
      (domain type protocol : Int) (ans : Int)
      (buf : Addr) (junk : Resource Finaliser Payload)
  | accept (sock ans : Int)
  | epollCreate (buf : Addr) (junk : Resource Finaliser Payload)
  | epollCtl (fd op fd2 : Int) (event : EpollEvent)
  | ioctl (fd cmd : Int) (ifru : LinuxIfru) (garbage : InAddr) (ans : Int)
  | read {cnt : Nat} (fd : Int) (buf : Buffer cnt) (host : HostRead cnt)
  | write {cnt : Nat} (fd : Int) (buf : Buffer cnt) (result : Int)
  | fopen64
      (path mode : String) (fp : Addr)
      (buf : Addr) (junk : Resource Finaliser Payload)
  | fclose (f : Addr) (result : Int)
  | malloc (buf : Addr) (junk : Resource Finaliser Payload)
  | free (ptr lookedUp : Addr)
  | close (fd result : Int)

namespace SysCall

/-- The block that `malloc` returns during the call. -/
def block : SysCall → Option Addr
  | .open64 _ _ _ _ buf _ => some buf
  | .socket _ _ _ _ buf _ => some buf
  | .epollCreate buf _ => some buf
  | .fopen64 _ _ _ buf _ => some buf
  | .malloc buf _ => some buf
  | _ => none

/-- The descriptor that the host hands out during the call. -/
def descriptor : SysCall → Option Int
  | .open64 _ _ _ fd _ _ => some fd
  | .socket _ _ _ ans _ _ => some ans
  | .accept _ ans => some ans
  | _ => none

end SysCall

namespace Process

/-- Perform a system call. -/
def perform (process : Process) : SysCall → Except Fault Process
  | .open64 path flags mode fd buf junk => do
      let (process, _) ← process.implOpen64 path flags mode fd buf junk
      return process
  | .socket domain type protocol ans buf junk => do
      let (process, _) ←
        process.implSocket domain type protocol ans buf junk
      return process
  | .accept sock ans =>
      .ok (process.implAccept sock ans).1
  | .epollCreate buf junk => do
      let (process, _) ← process.implEpollCreate buf junk
      return process
  | .epollCtl fd op fd2 event => do
      let (glue, _) ← process.glue.implEpollCtl fd op fd2 event
      return { process with glue := glue }
  | .ioctl fd cmd ifru garbage ans => do
      let (glue, _) ← process.glue.implIoctl fd cmd ifru garbage ans
      return { process with glue := glue }
  | .read fd buf host => do
      let (glue, _) ← process.glue.implRead fd buf host
      return { process with glue := glue }
  | .write fd buf result => do
      let (glue, _) ← process.glue.implWrite fd buf result
      return { process with glue := glue }
  | .fopen64 path mode fp buf junk => do
      let (process, _) ← process.implFopen64 path mode fp buf junk
      return process
  | .fclose f result => do
      let (process, _) ← process.implFclose f result
      return process
  | .malloc buf junk => do
      let (process, _) ← process.implMalloc buf junk
      return process
  | .free ptr lookedUp =>
      process.implFree ptr lookedUp
  | .close fd result => do
      let (process, _) ← process.implClose fd result
      return process

/-- The host hands out blocks and descriptors that are not in use. -/
def HostAllows (process : Process) (call : SysCall) : Prop :=
  (∀ buf ∈ call.block, buf = 0 ∨ process.handles.heap.Available buf) ∧
    ∀ fd ∈ call.descriptor, fd < 0 ∨ fd ∉ process.glue.host.opened

/-- One completed system call. -/
def Step (process : Process) (call : SysCall) (next : Process) : Prop :=
  process.HostAllows call ∧ process.perform call = .ok next

/-- A call ends in one state. -/
theorem step_functional
    {process next other : Process}
    {call : SysCall}
    (first : process.Step call next)
    (second : process.Step call other) :
    next = other :=
  Except.ok.inj (first.2.symm.trans second.2)

instance (process : Process) (call : SysCall) :
    Decidable (process.HostAllows call) :=
  inferInstanceAs (Decidable (_ ∧ _))

/-- Perform a list of calls and test the state that they lead to. -/
def reaches
    (test : Process → Bool) : Process → List SysCall → Bool
  | process, [] =>
      test process
  | process, call :: rest =>
      decide (process.HostAllows call) &&
        match process.perform call with
        | .ok next => reaches test next rest
        | .error _ => false

/-- A positive test gives a run. -/
theorem exists_run
    {test : Process → Bool}
    {process : Process}
    {calls : List SysCall}
    (passes : reaches test process calls = true) :
    ∃ final, Run Step process calls final ∧ test final = true := by
  induction calls generalizing process with
  | nil =>
      exact ⟨process, .nil process, passes⟩
  | cons call rest inductionHypothesis =>
      obtain ⟨allows, later⟩ := Bool.and_eq_true_iff.mp passes
      cases performs : process.perform call with
      | error fault =>
          simp [performs] at later
      | ok next =>
          rw [performs] at later
          obtain ⟨final, run, tested⟩ := inductionHypothesis later
          exact ⟨final,
            .cons call rest ⟨of_decide_eq_true allows, performs⟩ run,
            tested⟩

/-- A test of the state after `impl_exit`. -/
def exitsWith (test : Process → Bool) (process : Process) : Bool :=
  match process.implExit with
  | .ok final => test final
  | .error _ => false

/-- A positive test after an exit gives a run and its exit. -/
theorem exists_exit
    {test : Process → Bool}
    {process : Process}
    {calls : List SysCall}
    (passes : reaches (exitsWith test) process calls = true) :
    ∃ reached final,
      Run Step process calls reached ∧
        reached.implExit = .ok final ∧
        test final = true := by
  obtain ⟨reached, run, tested⟩ := exists_run passes
  unfold exitsWith at tested
  split at tested
  · rename_i final exits
    exact ⟨reached, final, run, exits, tested⟩
  · cases tested

/-- The resources of a process, with freed blocks unreadable. -/
structure Holds
    (process : Process)
    (resources : List (Handles.Tracked Finaliser Payload)) : Prop where
  represents : process.handles.Represents resources
  strict : process.handles.heap.Strict

variable
  {process next : Process}
  {resources : List (Handles.Tracked Finaliser Payload)}

/-- Only the list matters to the resources of a process. -/
theorem Holds.glue
    (holds : process.Holds resources)
    (glue : Glue) :
    { process with glue := glue }.Holds resources :=
  ⟨holds.represents, holds.strict⟩

theorem initial_holds : initial.Holds [] where
  represents := Handles.represents_initial
  strict := Heap.strict_empty

/-- A completed allocation adds a resource with the payload found there. -/
theorem Holds.alloc
    {buf h : Addr}
    {junk : Resource Finaliser Payload}
    {free : Finaliser}
    (holds : process.Holds resources)
    (allocator : buf = 0 ∨ process.handles.heap.Available buf)
    (allocates : process.alloc buf junk free = .ok (next, h)) :
    h = handleOf buf ∧
      next.glue = process.glue ∧
      next.Holds (⟨buf, free, junk.payload⟩ :: resources) := by
  obtain ⟨isHandle, sameGlue⟩ := alloc_completed allocates
  obtain ⟨⟨handles, found⟩, allocatesHandles, isNext⟩ :=
    bind_eq_ok.mp allocates
  cases isNext
  obtain ⟨_, _, represents⟩ :=
    holds.represents.resourceAlloc_completed allocator allocatesHandles
  exact ⟨isHandle, sameGlue, represents,
    Handles.strict_resourceAlloc holds.strict allocatesHandles⟩

/-- A completed store reached a resource of the list. -/
theorem Holds.storePayload
    {h : Addr}
    {payload : Payload}
    (holds : process.Holds resources)
    (stores : process.storePayload h payload = .ok next) :
    ∃ leading resource trailing,
      resources = leading ++ resource :: trailing ∧
        h = handleOf resource.block ∧
        next.glue = process.glue ∧
        next.Holds
          (leading ++ { resource with payload := payload } :: trailing) := by
  obtain ⟨handles, storesHandles, isNext⟩ := bind_eq_ok.mp stores
  cases isNext
  obtain ⟨block, loaded, _⟩ := bind_eq_ok.mp storesHandles
  obtain ⟨leading, resource, trailing, rfl, rfl⟩ :=
    holds.represents.of_load holds.strict loaded
  obtain ⟨changed, storesChanged, represents⟩ :=
    holds.represents.storePayload payload
  rw [storesChanged] at storesHandles
  cases storesHandles
  exact ⟨leading, resource, trailing, rfl, rfl, rfl, represents,
    Handles.strict_storePayload holds.strict storesChanged⟩

/-- A store through the handle of the newest resource changes that one. -/
theorem Holds.storeNewest
    {resource : Handles.Tracked Finaliser Payload}
    {payload : Payload}
    (holds : process.Holds (resource :: resources))
    (stores :
      process.storePayload (handleOf resource.block) payload = .ok next) :
    next.glue = process.glue ∧
      next.Holds ({ resource with payload := payload } :: resources) := by
  obtain ⟨leading, found, trailing, shape, same, sameGlue, nextHolds⟩ :=
    holds.storePayload stores
  have isNewest : resource.block = found.block := handleOf_injective same
  cases leading with
  | nil =>
      cases shape
      exact ⟨sameGlue, nextHolds⟩
  | cons head rest =>
      obtain ⟨rfl, rfl⟩ := List.cons.inj shape
      have noDuplicates := holds.represents.blocksNodup
      simp [isNewest] at noDuplicates

/-- A completed `resource_free` of the process. -/
theorem Holds.free
    {h : Addr}
    (holds : process.Holds resources)
    (nonNull : h ≠ 0)
    (frees : process.free h = .ok next) :
    ∃ leading resource successor trailing,
      resources = leading ++ resource :: successor :: trailing ∧
        h = handleOf resource.block ∧
        Glue.finalise resource.free h resource.payload process.glue =
          .ok next.glue ∧
        next.Holds (leading ++ successor :: trailing) := by
  obtain ⟨⟨handles, glue⟩, freesHandles, isNext⟩ := bind_eq_ok.mp frees
  cases isNext
  obtain ⟨leading, resource, successor, trailing, shape, isHandle,
      finalises, represents⟩ :=
    holds.represents.resourceFree_completed holds.strict nonNull
      freesHandles
  exact ⟨leading, resource, successor, trailing, shape, isHandle,
    finalises, represents,
    Handles.strict_resourceFree rfl holds.strict freesHandles⟩

/-- `resource_free(0)` does nothing. -/
theorem free_null (process : Process) : process.free 0 = .ok process :=
  rfl

/-- A completed `trackFd` adds a resource for the descriptor and enters its
handle in the table. -/
theorem Holds.trackFd
    {fd : Int}
    {buf : Addr}
    {junk : Resource Finaliser Payload}
    (holds : process.Holds resources)
    (allocator : buf = 0 ∨ process.handles.heap.Available buf)
    (tracks : process.trackFd fd buf junk = .ok next) :
    next.Holds (⟨buf, .resFd, .fd fd⟩ :: resources) := by
  obtain ⟨⟨allocated, h⟩, allocates, rest⟩ := bind_eq_ok.mp tracks
  obtain ⟨rfl, _, allocatedHolds⟩ := holds.alloc allocator allocates
  obtain ⟨glue, _, stores⟩ := bind_eq_ok.mp rest
  exact ((allocatedHolds.glue glue).storeNewest stores).2

/-- A completed exit ran every finaliser and left no resource. -/
theorem Holds.implExit
    (holds : process.Holds resources)
    (exits : process.implExit = .ok next) :
    next.Holds [] ∧
      ∃ glue,
        Handles.finaliseAll runtime resources process.glue = .ok glue ∧
          next.glue = { glue with isMainThread := false } := by
  unfold Process.implExit at exits
  split at exits
  · cases exits
  · obtain ⟨⟨handles, glue⟩, collects, isNext⟩ := bind_eq_ok.mp exits
    cases isNext
    obtain ⟨represents, finalises⟩ :=
      holds.represents.resourceCollect_completed collects
    exact ⟨⟨represents,
      Handles.strict_resourceCollect rfl holds.strict collects⟩,
      glue, finalises, rfl⟩

end Process

end Hamachi
