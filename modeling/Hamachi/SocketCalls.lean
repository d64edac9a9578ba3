import Hamachi.SocketAddress

namespace Hamachi

/-!
# Calls that pass socket addresses

The buffers for converted addresses are not initialised: `garbage` is what they
hold, and what a call leaves of it is part of its behaviour.  The host's side
of a call is a parameter, as is the `errno` before it.
-/

variable {size len : Nat}

/-- What a host call returns, and `errno` after it. -/
structure HostStatus where
  ret : Int
  errno : Int

/-- A call that hands an address to the host. -/
structure AddrPass where
  /-- The bytes of the address, if the host is called. -/
  passed : Option (List Byte)
  ret : Int
  errno : Int
  deriving DecidableEq

/-- `impl_bind`. -/
def implBind
    (addr : Buffer size)
    (garbage : BsdAddr)
    (host : HostStatus) :
    Except Fault AddrPass := do
  let (bsdAddr, bsdLen) ← linuxAddrToBsdAddr addr garbage
  if bsdLen = 0 then
    -- ENOSYS
    return { passed := none, ret := -1, errno := 78 }
  else do
    let argument ← bsdAddr.slice 0 bsdLen
    return {
      passed := some argument.bytes
      ret := host.ret
      errno := host.errno
    }

/-- The test of `impl_connect` for `htonl(0xa9fea9fe)`. -/
def isUnreachable (addr : Buffer size) : Except Fault Bool := do
  let saFamily ← addr.slice 0 2
  if saFamily.bytes = [2, 0] then do
    let sAddr ← addr.slice 4 4
    return sAddr.bytes = [0xa9, 0xfe, 0xa9, 0xfe]
  else
    return false

/-- `impl_connect`. -/
def implConnect
    (addr : Buffer size)
    (garbage : BsdAddr)
    (host : HostStatus) :
    Except Fault AddrPass := do
  let (bsdAddr, bsdLen) ← linuxAddrToBsdAddr addr garbage
  if bsdLen = 0 then
    -- ENOSYS
    return { passed := none, ret := -1, errno := 78 }
  else do
    if ← isUnreachable addr then
      -- EHOSTUNREACH
      return { passed := none, ret := -1, errno := 65 }
    else do
      let argument ← bsdAddr.slice 0 bsdLen
      return {
        passed := some argument.bytes
        ret := host.ret
        -- EINPROGRESS
        errno := if host.errno = 36 then 115 else host.errno
      }

/-- `errno == EAGAIN` in the numbering of Linux. -/
def linuxEagain (errno : Int) : Int :=
  if errno = 35 then 11 else errno

/-- `impl_sendto`, without the data. -/
def implSendto
    (sa : Buffer size)
    (garbage : BsdAddr)
    (host : HostStatus) :
    Except Fault AddrPass := do
  let (a, l) ← linuxAddrToBsdAddr sa garbage
  let argument ← a.slice 0 l
  return {
    passed := some argument.bytes
    ret := host.ret
    errno := linuxEagain host.errno
  }

/-- What a host call that returns an address does: it fails, or it stores an
address in a buffer of 108 bytes. -/
inductive HostAddr where
  | failed (errno : Int)
  | returned (ret : Nat) (address : List Byte) (fits : address.length ≤ 108)

namespace HostAddr

def ret : HostAddr → Int
  | .failed _ => -1
  | .returned ret _ _ => ret

/-- `errno` after the call. -/
def errnoAfter (errno : Int) : HostAddr → Int
  | .failed errno => errno
  | .returned _ _ _ => errno

/-- The buffer after the call. -/
def store (garbage : BsdAddr) : HostAddr → Except Fault BsdAddr
  | .failed _ => .ok garbage
  | .returned _ address _ => garbage.overwrite 0 address

end HostAddr

/-- The buffers of a call that returns an address. -/
structure Locals where
  bsdAddr : BsdAddr
  linuxAddr : LinuxAddr

/-- A call that returns an address to the Linux program. -/
structure AddrReturn (len : Nat) where
  ret : Int
  addr : Option (Buffer len)
  /-- What `*len` ends up with. -/
  length : Nat
  errno : Int

/-- The conversion, `if(ll > *l) ll = *l;` and the `memcpy` of `ll` bytes. -/
def returnAddr
    (bsdAddr : BsdAddr)
    (linuxAddr : LinuxAddr)
    (addr : Buffer len) :
    Except Fault (Buffer len × Nat) := do
  let (linuxAddr, ll) ← bsdAddrToLinuxAddr bsdAddr linuxAddr
  let ll := min ll len
  let part ← linuxAddr.slice 0 ll
  let addr ← addr.overwrite 0 part.bytes
  return (addr, ll)

/-- `impl_accept` up to the descriptor, which is `Process.implAccept`; a null
pointer asks for no address. -/
def implAccept
    (addr : Option (Buffer len))
    (garbage : Locals)
    (errno : Int)
    (host : HostAddr) :
    Except Fault (AddrReturn len) :=
  match addr with
  | none =>
      .ok {
        ret := host.ret
        addr := none
        length := len
        errno := host.errnoAfter errno
      }
  | some addr => do
      let bsdAddr ← host.store garbage.bsdAddr
      let (addr, _) ← returnAddr bsdAddr garbage.linuxAddr addr
      return {
        ret := host.ret
        addr := some addr
        length := len
        errno := host.errnoAfter errno
      }

/-- The common body of `impl_getsockname` and `impl_getpeername`. -/
def getName
    (addr : Option (Buffer len))
    (garbage : Locals)
    (errno : Int)
    (host : HostAddr) :
    Except Fault (AddrReturn len) := do
  let bsdAddr ← host.store garbage.bsdAddr
  match addr with
  | none => .error .nullPointer
  | some addr => do
      let (addr, sz) ← returnAddr bsdAddr garbage.linuxAddr addr
      return {
        ret := host.ret
        addr := some addr
        length := sz
        errno := host.errnoAfter errno
      }

/-- `impl_getsockname`. -/
def implGetsockname :=
  @getName len

/-- `impl_getpeername`. -/
def implGetpeername :=
  @getName len

/-- `impl_recvfrom`, without the data. -/
def implRecvfrom
    (sa : Option (Buffer len))
    (garbage : Locals)
    (errno : Int)
    (host : HostAddr) :
    Except Fault (AddrReturn len) := do
  let a ← host.store garbage.bsdAddr
  match sa with
  | none => .error .nullPointer
  | some sa => do
      let (sa, ll) ← returnAddr a garbage.linuxAddr sa
      return {
        ret := host.ret
        addr := some sa
        length := ll
        errno := linuxEagain (host.errnoAfter errno)
      }

end Hamachi
