import Hamachi.Process

namespace Hamachi

/-!
# The system calls of `glue.c`

Each function takes, after its own arguments, what the host calls and the
allocator under it return: `buf` is the block that `malloc` returns for a new
resource and `junk` what it held.  The temporary buffers of `build_fake_path`
are not part of the state.
-/

/-- `PREFIX`. -/
def pathPrefix : String := "/user/home/hamachi"

/-- `build_fake_path`. -/
def buildFakePath (path : String) : String :=
  pathPrefix ++ path

/-- `log_path` as the Linux program names it. -/
def linuxLogPath : String := "/var/lib/logmein-hamachi/h2-engine.log"

/-- The translation of Linux open flags in `impl_open64`. -/
def openFlags (flags : Nat) : Nat :=
  (flags &&& 3) |||
    (if flags &&& 64 ≠ 0 then 0x200 else 0) |||
    (if flags &&& 2048 ≠ 0 then 4 else 0)

/-- The path that `impl_open64` opens on the host. -/
def openPath (path : String) : String :=
  if path = "/dev/urandom" then
    path
  else if path = "/dev/net/tun" then
    "/dev/tun"
  else
    buildFakePath path

namespace Process

/-- `*(int*)(per_fd_resources[fd] = resource_alloc(sizeof(int), res_fd)) = fd` -/
def trackFd
    (process : Process)
    (fd : Int)
    (buf : Addr)
    (junk : Resource Finaliser Payload) :
    Except Fault Process := do
  let (process, h) ← process.alloc buf junk .resFd
  let glue ← process.glue.setPerFd fd h
  { process with glue := glue }.storePayload h (.fd fd)

/-- `impl_open64`; the host's `open` returns `fd`. -/
def implOpen64
    (process : Process)
    (path : String)
    (flags mode : Nat)
    (fd : Int)
    (buf : Addr)
    (junk : Resource Finaliser Payload) :
    Except Fault (Process × Int) := do
  let host := process.glue.host.opens
    (.open (openPath path) (openFlags flags) mode) fd
  let process := { process with glue := { process.glue with host := host } }
  -- No test for a failed `open` before the table is indexed with `fd`.
  let process ← process.trackFd fd buf junk
  .ok (process, fd)

/-- `impl_socket`; the host's `socket` returns `ans`. -/
def implSocket
    (process : Process)
    (domain type protocol : Int)
    (ans : Int)
    (buf : Addr)
    (junk : Resource Finaliser Payload) :
    Except Fault (Process × Int) := do
  let domain := if domain = 10 then 28 else domain
  let host := process.glue.host.opens (.socket domain type protocol) ans
  let process := { process with glue := { process.glue with host := host } }
  if ans < 0 then
    .ok (process, ans)
  else
    let process ← process.trackFd ans buf junk
    .ok (process, ans)

/-- `impl_accept`; the host's `accept` returns `ans`.  The peer address that
goes to the caller's buffer is not part of the process. -/
def implAccept (process : Process) (sock ans : Int) : Process × Int :=
  let host := process.glue.host.opens (.accept sock) ans
  ({ process with glue := { process.glue with host := host } }, ans)

/-- The part of `impl_close` up to and including `resource_free`. -/
def closeResource (process : Process) (fd : Int) : Except Fault Process := do
  let tunFd := if fd = process.glue.tunFd then -1 else process.glue.tunFd
  let process :=
    { process with glue := { process.glue with tunFd := tunFd } }
  let h ← process.glue.perFd fd
  process.free h

/-- `per_fd_resources[fd] = 0` -/
def closeEntry (process : Process) (fd : Int) : Except Fault Process := do
  let glue ← process.glue.setPerFd fd 0
  .ok { process with glue := glue }

/-- `return close(fd)`; the host's `close` returns `result`. -/
def closeHost (process : Process) (fd result : Int) : Process × Int :=
  ({ process with glue := process.glue.hostClose fd }, result)

/-- `impl_close`. -/
def implClose
    (process : Process)
    (fd result : Int) :
    Except Fault (Process × Int) :=
  if fd = epollFd ∧ process.glue.epollRs ≠ 0 then do
    let process ← process.free process.glue.epollRs
    .ok (process, 0)
  else do
    let process ← process.closeResource fd
    let process ← process.closeEntry fd
    .ok (process.closeHost fd result)

/-- The stream that `impl_fopen64` hands out; the log is opened once. -/
def openStream
    (process : Process)
    (path mode : String)
    (fp : Addr) :
    Except Fault (Process × Addr) :=
  if path = linuxLogPath then
    if process.glue.logHandle ≠ 0 then
      .ok (process, process.glue.logHandle)
    else if fp = 0 then
      -- `setvbuf` is called without a test of the stream.
      .error .nullPointer
    else
      .ok ({ process with glue := { process.glue with
        logHandle := fp
        host := process.glue.host.records
          (.fopen (buildFakePath path) "w") } }, fp)
  else
    .ok ({ process with glue := { process.glue with
      host := process.glue.host.records
        (.fopen (buildFakePath path) mode) } }, fp)

/-- `impl_fopen64`; the host's `fopen` returns `fp`. -/
def implFopen64
    (process : Process)
    (path mode : String)
    (fp : Addr)
    (buf : Addr)
    (junk : Resource Finaliser Payload) :
    Except Fault (Process × Addr) := do
  let (process, ans) ← process.openStream path mode fp
  if ans = 0 then
    .ok (process, 0)
  else
    let (process, handle) ← process.alloc buf junk .resFile
    let process ← process.storePayload handle (.file ans)
    .ok (process, handle)

/-- `(*fp == log_handle) ? 0 : fclose(*fp)` -/
def closeStream
    (process : Process)
    (fp : Addr)
    (result : Int) :
    Except Fault (Process × Int) :=
  if fp = process.glue.logHandle then
    .ok (process, 0)
  else if fp = 0 then
    .error .nullPointer
  else
    .ok ({ process with glue := { process.glue with
      host := process.glue.host.records (.fclose fp) } }, result)

/-- `impl_fclose`; the host's `fclose` returns `result`. -/
def implFclose
    (process : Process)
    (f : Addr)
    (result : Int) :
    Except Fault (Process × Int) := do
  let block ← process.handles.heap.load (resourceOf f)
  match block.payload with
  | .file fp =>
      let (process, ans) ← process.closeStream fp result
      let process ← process.storePayload f (.file 0)
      let process ← process.free f
      .ok (process, ans)
  | _ => .error .invalidPointer

/-- `impl_malloc`. -/
def implMalloc
    (process : Process)
    (buf : Addr)
    (junk : Resource Finaliser Payload) :
    Except Fault (Process × Addr) :=
  process.alloc buf junk .resMemory

/-- `impl_free`; `lookedUp` is the answer of `lookup_data`. -/
def implFree
    (process : Process)
    (ptr lookedUp : Addr) :
    Except Fault Process :=
  let storage :=
    if process.glue.emptyRepStorage = 0 then
      lookedUp
    else
      process.glue.emptyRepStorage
  let process :=
    { process with glue := { process.glue with emptyRepStorage := storage } }
  if ptr ≠ 0x97c4e0 ∧ ptr ≠ storage then
    process.free ptr
  else
    .ok process

/-- `impl_exit`, up to `my_exit`. -/
def implExit (process : Process) : Except Fault Process :=
  if ¬ process.glue.isMainThread then
    .error .aborted
  else do
    let (handles, glue) ←
      process.handles.resourceCollect runtime process.glue
    .ok { handles := handles, glue := { glue with isMainThread := false } }

end Process

end Hamachi
