import Hamachi.Handles
import Hamachi.Tuntap
import Mathlib.Data.Finset.Insert

namespace Hamachi

/-!
# The state of an emulated process

`glue.c` keeps the descriptor tables of the Linux program in static variables
and registers every descriptor, `FILE*` and memory block with `handles.c`.  The
host is seen through the results of its calls; it keeps the descriptors that
are open and a trace of the calls it received.  A freed block becomes
unreadable, so a use after free is a fault.
-/

/-- The callbacks that `glue.c` gives to `resource_alloc`. -/
inductive Finaliser where
  | resMemory
  | resFd
  | resFile
  | resEpoll
  deriving Repr, DecidableEq

/-- What the block behind a handle holds. -/
inductive Payload where
  | memory
  | fd (fd : Int)
  | file (fp : Addr)
  deriving Repr, DecidableEq

/-- A call that the glue passes on to the host. -/
inductive HostCall where
  | open (path : String) (flags mode : Nat)
  | socket (domain type protocol : Int)
  | accept (sock : Int)
  | close (fd : Int)
  | fopen (path mode : String)
  | fclose (fp : Addr)
  deriving Repr, DecidableEq

/-- The host, as far as the emulated process uses it. -/
structure Host where
  opened : Finset Int
  trace : List HostCall

namespace Host

/-- A call that returned `fd`: a descriptor, or negative on failure. -/
def opens (host : Host) (call : HostCall) (fd : Int) : Host where
  opened := if fd < 0 then host.opened else insert fd host.opened
  trace := host.trace ++ [call]

/-- `close(fd)`. -/
def close (host : Host) (fd : Int) : Host where
  opened := host.opened.erase fd
  trace := host.trace ++ [.close fd]

/-- A call that opens and closes no descriptor. -/
def records (host : Host) (call : HostCall) : Host :=
  { host with trace := host.trace ++ [call] }

end Host

/-- The static variables of `glue.c` and of the files it works with. -/
structure Glue where
  isMainThread : Bool
  logHandle : Addr
  emptyRepStorage : Addr
  perFdResources : Int → Addr
  epollIn : Finset Int
  epollOut : Finset Int
  epollErr : Finset Int
  epollPerFdData : Int → BitVec 64
  tunFd : Int
  epollRs : Addr
  tuntap : Tuntap
  isInPopen : Bool
  popenData : List Byte
  errno : Int
  host : Host

/-- An emulated process: its resources and its static variables. -/
structure Process where
  handles : Handles Finaliser Payload
  glue : Glue

/-- `sizeof(per_fd_resources) / sizeof(per_fd_resources[0])`. -/
def perFdSize : Int := 16384

/-- `FD_SETSIZE`. -/
def fdSetSize : Int := 1024

/-- The descriptor that stands for the epoll instance. -/
def epollFd : Int := 65536

namespace Glue

/-- The statics at program start, in the main thread. -/
def initial : Glue where
  isMainThread := true
  logHandle := 0
  emptyRepStorage := 0
  perFdResources := fun _ => 0
  epollIn := ∅
  epollOut := ∅
  epollErr := ∅
  epollPerFdData := fun _ => 0
  tunFd := -1
  epollRs := 0
  tuntap := .configured (.of (List.replicate 6 0)) 0 0
  isInPopen := false
  popenData := []
  errno := 0
  host := { opened := ∅, trace := [] }

/-- Read `per_fd_resources[fd]`. -/
def perFd (glue : Glue) (fd : Int) : Except Fault Addr :=
  if 0 ≤ fd ∧ fd < perFdSize then
    .ok (glue.perFdResources fd)
  else
    .error .outOfBounds

/-- The assignment `per_fd_resources[fd] = h`. -/
def setPerFd (glue : Glue) (fd : Int) (h : Addr) : Except Fault Glue :=
  if 0 ≤ fd ∧ fd < perFdSize then
    .ok { glue with
      perFdResources := Function.update glue.perFdResources fd h }
  else
    .error .outOfBounds

/-- `close(fd)` of the host. -/
def hostClose (glue : Glue) (fd : Int) : Glue :=
  { glue with host := glue.host.close fd }

/-- `res_memory`, `res_fd`, `res_file` and `res_epoll`; reading a block as
something it does not hold is a fault. -/
def finalise : Finaliser → Addr → Payload → Glue → Except Fault Glue
  | .resMemory, _, _, glue =>
      .ok glue
  | .resFd, _, .fd fd, glue =>
      .ok (glue.hostClose fd)
  | .resFile, _, .file fp, glue =>
      if fp ≠ 0 ∧ fp ≠ glue.logHandle then
        .ok { glue with host := glue.host.records (.fclose fp) }
      else
        .ok glue
  | .resEpoll, _, _, glue =>
      .ok { glue with epollRs := 0 }
  | _, _, _, _ =>
      .error .invalidPointer

end Glue

/-- A zeroed block as `malloc` may return it. -/
def freshBlock : Resource Finaliser Payload where
  magic := 0
  next := 0
  prev := .list
  free := .resMemory
  payload := .memory

/-- The surroundings of the resource list in an emulated process. -/
def runtime : Runtime Finaliser Payload Glue where
  finalise := Glue.finalise
  scrub := fun _ => none

namespace Process

/-- A process at program start. -/
def initial : Process where
  handles := .initial
  glue := .initial

/-- The process after a host call. -/
def onHost (process : Process) (host : Host) : Process :=
  { process with glue := { process.glue with host := host } }

/-- `resource_alloc` of the process. -/
def alloc
    (process : Process)
    (buf : Addr)
    (junk : Resource Finaliser Payload)
    (free : Finaliser) :
    Except Fault (Process × Addr) := do
  let (handles, h) ← process.handles.resourceAlloc buf junk free
  .ok ({ process with handles := handles }, h)

/-- An allocation returns the handle of the new block and leaves the static
variables alone. -/
theorem alloc_completed
    {process allocated : Process}
    {buf h : Addr}
    {junk : Resource Finaliser Payload}
    {free : Finaliser}
    (allocates : process.alloc buf junk free = .ok (allocated, h)) :
    h = handleOf buf ∧ allocated.glue = process.glue := by
  obtain ⟨⟨handles, found⟩, allocatesHandles, isAllocated⟩ :=
    bind_eq_ok.mp allocates
  cases isAllocated
  refine ⟨?_, rfl⟩
  obtain ⟨_, _, rest⟩ := bind_eq_ok.mp allocatesHandles
  obtain ⟨_, _, rest⟩ := bind_eq_ok.mp rest
  obtain ⟨_, _, rest⟩ := bind_eq_ok.mp rest
  obtain ⟨_, _, isFound⟩ := bind_eq_ok.mp rest
  cases isFound
  rfl

/-- `resource_free` of the process. -/
def free (process : Process) (h : Addr) : Except Fault Process := do
  let (handles, glue) ←
    process.handles.resourceFree runtime process.glue h
  .ok { handles := handles, glue := glue }

/-- A store through a handle. -/
def storePayload
    (process : Process)
    (h : Addr)
    (payload : Payload) : Except Fault Process := do
  let handles ← process.handles.storePayload h payload
  .ok { process with handles := handles }

end Process

end Hamachi
