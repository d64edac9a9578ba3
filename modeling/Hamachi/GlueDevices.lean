import Hamachi.Glue

namespace Hamachi

/-!
# The epoll instance and the tap device of `glue.c`
-/

/-- `struct linux_epoll_event`. -/
structure EpollEvent where
  events : BitVec 32
  data : BitVec 64
  deriving DecidableEq

/-- `LINUX_EPOLLIN`. -/
def epollIn : BitVec 32 := 0x001

/-- `LINUX_EPOLLOUT`. -/
def epollOut : BitVec 32 := 0x004

/-- `LINUX_EPOLLERR`. -/
def epollErr : BitVec 32 := 0x008

/-- `LINUX_EPOLL_CTL_ADD`. -/
def epollCtlAdd : Int := 1

/-- `LINUX_EPOLL_CTL_DEL`. -/
def epollCtlDel : Int := 2

/-- `LINUX_EPOLL_CTL_MOD`. -/
def epollCtlMod : Int := 3

/-- `e->events & flag` -/
def EpollEvent.has (event : EpollEvent) (flag : BitVec 32) : Bool :=
  event.events &&& flag != 0

/-- `FD_SET(fd, set)` under a condition. -/
def setIf (condition : Bool) (fd : Int) (set : Finset Int) : Finset Int :=
  if condition then insert fd set else set

namespace Glue

/-- The three `FD_SET`s that follow the flags of an event. -/
def setFlags (glue : Glue) (fd : Int) (event : EpollEvent) : Glue :=
  { glue with
    epollIn := setIf (event.has Hamachi.epollIn) fd glue.epollIn
    epollOut := setIf (event.has Hamachi.epollOut) fd glue.epollOut
    epollErr := setIf (event.has Hamachi.epollErr) fd glue.epollErr }

/-- The block of `LINUX_EPOLL_CTL_MOD`: the flags that are missing from the
event are set, too, where they would have to be cleared. -/
def setMissing (glue : Glue) (fd : Int) (event : EpollEvent) : Glue :=
  { glue with
    epollIn := setIf (!event.has Hamachi.epollIn) fd glue.epollIn
    epollOut := setIf (!event.has Hamachi.epollOut) fd glue.epollOut
    epollErr := setIf (!event.has Hamachi.epollErr) fd glue.epollErr }

/-- The three `FD_CLR`s of `LINUX_EPOLL_CTL_DEL`. -/
def clearFlags (glue : Glue) (fd : Int) : Glue :=
  { glue with
    epollIn := glue.epollIn.erase fd
    epollOut := glue.epollOut.erase fd
    epollErr := glue.epollErr.erase fd }

/-- `impl_epoll_ctl`; the sets and the data array are indexed with `fd2`. -/
def implEpollCtl
    (glue : Glue)
    (fd op fd2 : Int)
    (event : EpollEvent) :
    Except Fault (Glue × Int) :=
  if fd ≠ epollFd ∨ glue.epollRs = 0 then
    .ok ({ glue with errno := 9 }, -1)
  else if op = epollCtlAdd ∨ op = epollCtlMod then
    if 0 ≤ fd2 ∧ fd2 < fdSetSize then
      let glue := if op = epollCtlMod then glue.setMissing fd2 event else glue
      let glue := glue.setFlags fd2 event
      .ok ({ glue with
        epollPerFdData :=
          Function.update glue.epollPerFdData fd2 event.data }, 0)
    else
      .error .outOfBounds
  else if op = epollCtlDel then
    if 0 ≤ fd2 ∧ fd2 < fdSetSize then
      .ok (glue.clearFlags fd2, 0)
    else
      .error .outOfBounds
  else
    .error .aborted

end Glue

namespace Process

/-- `impl_epoll_create`. -/
def implEpollCreate
    (process : Process)
    (buf : Addr)
    (junk : Resource Finaliser Payload) :
    Except Fault (Process × Int) :=
  if process.glue.epollRs ≠ 0 then
    .error .aborted
  else do
    let (process, h) ← process.alloc buf junk .resEpoll
    .ok ({ process with glue := { process.glue with
      epollRs := h
      epollIn := ∅
      epollOut := ∅
      epollErr := ∅ } }, epollFd)

end Process

/-- The part of `struct linux_ifreq` that `impl_ioctl` reads: the 16 bytes of
`ifr_ifru`, which all its members share. -/
abbrev LinuxIfru := Buffer 16

namespace LinuxIfru

/-- `ifru_flags`, and `sa_family` of the address members. -/
def flags (ifru : LinuxIfru) : Except Fault (BitVec 16) := do
  let low ← ifru.byteAt 0
  let high ← ifru.byteAt 1
  return high ++ low

/-- `ifru_hwaddr.sa_data`, of which six bytes are a MAC address. -/
def hwaddr (ifru : LinuxIfru) : Except Fault Mac :=
  ifru.slice 2 6

/-- `sin_addr` of what `linux_addr_to_bsd_addr` stores in a `struct ifreq`.  An
unknown family leaves the garbage of the stack; the other two known families
do not fit and overrun it. -/
def sinAddr (ifru : LinuxIfru) (garbage : InAddr) : Except Fault InAddr := do
  let family ← ifru.flags
  if family = 2 then
    return word32 (← ifru.slice 4 4)
  else if family = 10 ∨ family = 1 then
    .error .outOfBounds
  else
    return garbage

end LinuxIfru

/-- The `ioctl` that makes a descriptor the tap device. -/
def tunSetIff : Int := 0x400454ca

/-- `LINUX_IFF_TAP | LINUX_IFF_NO_PI`. -/
def tapFlags : BitVec 16 := 0x1002

namespace Glue

/-- `impl_ioctl`; the host's `ioctl` on the interface returns `ans`. -/
def implIoctl
    (glue : Glue)
    (fd cmd : Int)
    (ifru : LinuxIfru)
    (garbage : InAddr)
    (ans : Int) :
    Except Fault (Glue × Int) :=
  if cmd = tunSetIff then
    if glue.tunFd ≠ -1 then
      .error .aborted
    else do
      let glue := { glue with tunFd := fd }
      if (← ifru.flags) ≠ tapFlags then
        .ok ({ glue with errno := 25 }, -1)
      else
        .ok (glue, 0)
  else if cmd = 35108 then do
    -- SIOCSIFHWADDR
    let macaddr ← ifru.hwaddr
    .ok ({ glue with tuntap := { glue.tuntap with macaddr := macaddr } }, 0)
  else if cmd = 35106 ∨ cmd = 35091 ∨ cmd = 35092 then
    -- SIOCSIFMTU, SIOCGIFLAGS, SIOCSIFLAGS
    .ok (glue, 0)
  else if cmd = 35094 then do
    -- SIOCSIFADDR
    let ipaddr ← ifru.sinAddr garbage
    .ok ({ glue with tuntap := { glue.tuntap with ipaddr := ipaddr } }, ans)
  else if cmd = 35100 then do
    -- SIOCSIFNETMASK
    let _ ← ifru.sinAddr garbage
    .ok (glue, ans)
  else if cmd = 35098 then do
    -- SIOCSIFBRDADDR
    let brdaddr ← ifru.sinAddr garbage
    .ok ({ glue with tuntap := { glue.tuntap with brdaddr := brdaddr } }, ans)
  else
    .error .aborted

/-- `impl_read`. -/
def implRead
    {cnt : Nat}
    (glue : Glue)
    (fd : Int)
    (buf : Buffer cnt)
    (host : HostRead cnt) :
    Except Fault (Glue × Buffer cnt × Int) :=
  if fd = glue.tunFd then do
    let read ← tuntapRead glue.tuntap buf host
    .ok ({ glue with
      tuntap := read.tap
      errno := read.errno.getD glue.errno }, read.buf, read.ret)
  else
    match host with
    | .failed errno =>
        .ok ({ glue with errno := errno }, buf, -1)
    | .returned data _ => do
        let buf ← buf.overwrite 0 data
        .ok (glue, buf, data.length)

/-- `impl_write`; the host's `write` returns `result`. -/
def implWrite
    {cnt : Nat}
    (glue : Glue)
    (fd : Int)
    (buf : Buffer cnt)
    (result : Int) :
    Except Fault (Glue × Int) :=
  if fd = glue.tunFd then do
    let write ← tuntapWrite glue.tuntap buf result
    .ok ({ glue with tuntap := write.tap }, write.ret)
  else if fd = 1 ∧ glue.isInPopen then
    .ok ({ glue with popenData := glue.popenData ++ buf.bytes }, cnt)
  else
    .ok (glue, result)

end Glue

end Hamachi
