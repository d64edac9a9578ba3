import Hamachi.HostArguments
import Hamachi.ResourceListOperations

namespace Hamachi

/-!
# Lists of `struct linux_addrinfo`

`impl_getaddrinfo` copies the list of the host node by node into blocks of the
resource list.  The canonical names are C strings on a heap of their own, which
the finaliser of a node frees.
-/

/-- `res_addrinfo` and the other callbacks of `resource_alloc`. -/
inductive AddrinfoFree where
  | resAddrinfo
  | another (free : Finaliser)
  deriving DecidableEq

/-- `struct laax`, or what another block holds. -/
inductive AddrinfoBlock where
  | laax (ai : Addrinfo) (sa : LinuxAddr)
  | another (payload : Payload)
  deriving DecidableEq

/-- The state that the finalisers work on. -/
structure ResolverState where
  strings : Heap (List Byte)
  glue : Glue

/-- A process and the variable that the caller gave for the result. -/
structure Resolver where
  handles : Handles AddrinfoFree AddrinfoBlock
  state : ResolverState
  res : Addr

/-- The surroundings of the resource list. -/
def addrinfoRuntime : Runtime AddrinfoFree AddrinfoBlock ResolverState where
  finalise
    | .resAddrinfo, _, .laax ai _, state => do
        let strings ← state.strings.release (fun _ => none) ai.aiCanonname
        return { state with strings := strings }
    | .another free, h, .another payload, state => do
        let glue ← Glue.finalise free h payload state.glue
        return { state with glue := glue }
    | _, _, _, _ => .error .invalidPointer
  scrub := fun _ => none

/-- A `struct host_addrinfo`, with what its pointers lead to. -/
structure HostAddrinfo where
  aiFlags : Int
  aiFamily : Int
  aiSocktype : Int
  aiProtocol : Int
  addr : BsdAddr
  canonname : Option (List Byte)

/-- What the allocator returns for a node: its block, what the block held, and
the copy of the name. -/
structure Allocation where
  buf : Addr
  ai : Addrinfo
  sa : LinuxAddr
  name : Addr

/-- A new block of the allocation. -/
def Allocation.junk
    (allocation : Allocation) :
    Resource AddrinfoFree AddrinfoBlock where
  magic := 0
  next := 0
  prev := .list
  free := .resAddrinfo
  payload := .laax allocation.ai allocation.sa

/-- The values of `ans`: the variable of the caller, or the `ai_next` of a
node. -/
inductive Ans where
  | res
  | next (i : Addr)
  deriving DecidableEq

/-- `offsetof(struct laax, sa)`. -/
def saOffset : Nat := 48

/-- `ai_family` in the numbering of Linux. -/
def linuxAiFamily (aiFamily : Int) : Int :=
  if aiFamily = 28 then 10 else aiFamily

/-- `strdup`, whose `malloc` returned `name`. -/
def strdup
    (strings : Heap (List Byte))
    (text : Option (List Byte))
    (name : Addr) :
    Except Fault (Heap (List Byte) × Addr) :=
  match text with
  | none => .error .nullPointer
  | some text => .ok (strings.malloc name text, name)

namespace Resolver

/-- The `struct laax` behind a handle. -/
def laaxAt
    (resolver : Resolver)
    (i : Addr) :
    Except Fault (Addrinfo × LinuxAddr) := do
  let block ← resolver.handles.heap.load (resourceOf i)
  match block.payload with
  | .laax ai sa => .ok (ai, sa)
  | .another _ => .error .invalidPointer

/-- The assignments to `i->ai` and `i->sa`. -/
def fill
    (resolver : Resolver)
    (i : Addr)
    (arg : HostAddrinfo)
    (name : Addr) :
    Except Fault Resolver := do
  let (ai, sa) ← resolver.laaxAt i
  let (sa, l) ← bsdAddrToLinuxAddr arg.addr sa
  let (strings, aiCanonname) ←
    strdup resolver.state.strings arg.canonname name
  let handles ← resolver.handles.storePayload i
    (.laax
      { ai with
        aiFlags := arg.aiFlags
        aiFamily := linuxAiFamily arg.aiFamily
        aiSocktype := arg.aiSocktype
        aiProtocol := arg.aiProtocol
        aiAddrlen := l
        aiAddr := i + saOffset
        aiCanonname := aiCanonname }
      sa)
  return { resolver with
    handles := handles
    state := { resolver.state with strings := strings } }

/-- `*ans = i`. -/
def storeAns
    (resolver : Resolver)
    (i : Addr) : Ans → Except Fault Resolver
  | .res => .ok { resolver with res := i }
  | .next owner => do
      let (ai, sa) ← resolver.laaxAt owner
      let handles ← resolver.handles.storePayload owner
        (.laax { ai with aiNext := i } sa)
      return { resolver with handles := handles }

/-- `bsd_to_linux_addrinfo`. -/
def bsdToLinuxAddrinfo :
    List (HostAddrinfo × Allocation) →
    Ans →
    Resolver →
    Except Fault Resolver
  | [], ans, resolver => resolver.storeAns 0 ans
  | (arg, allocation) :: rest, ans, resolver => do
      let (handles, i) ←
        resolver.handles.resourceAlloc allocation.buf allocation.junk
          .resAddrinfo
      let resolver := { resolver with handles := handles }
      let resolver ← resolver.fill i arg allocation.name
      let resolver ← resolver.storeAns i ans
      bsdToLinuxAddrinfo rest (.next i) resolver

/-- The loop of `impl_freeaddrinfo`. -/
def freeLoop : Nat → Addr → Resolver → Except Fault Resolver
  | fuel, ai, resolver =>
      if ai = 0 then
        .ok resolver
      else
        match fuel with
        | 0 => .error .outOfFuel
        | fuel + 1 => do
            let (node, _) ← resolver.laaxAt ai
            let (handles, state) ←
              resolver.handles.resourceFree addrinfoRuntime resolver.state ai
            freeLoop fuel node.aiNext
              { resolver with handles := handles, state := state }

/-- `impl_freeaddrinfo`.  Each turn of the loop releases a live block. -/
def implFreeaddrinfo
    (resolver : Resolver)
    (ai : Addr) :
    Except Fault Resolver :=
  freeLoop resolver.handles.heap.live.card ai resolver

/-- `impl_getaddrinfo`; the host answers the hints with a status and a list. -/
def implGetaddrinfo
    (resolver : Resolver)
    (hints garbage : Addrinfo)
    (host : Addrinfo → Int × List (HostAddrinfo × Allocation)) :
    Except Fault (Resolver × Int) :=
  let (ans, bsdRes) := host (bsdHints hints garbage)
  if bsdRes ≠ [] then do
    let resolver ← bsdToLinuxAddrinfo bsdRes .res resolver
    return (resolver, ans)
  else
    .ok ({ resolver with res := 0 }, ans)

end Resolver

end Hamachi
