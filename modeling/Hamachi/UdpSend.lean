import Hamachi.Runs
import Hamachi.TunKernel

namespace Hamachi

/-!
# Calls of `new_udp_send`

Any number of calls run at once, over the slots `ifaces` and the address
mutexes of the interfaces, while devices are opened and closed.  A call records
what `acquire_iface` returned to it and what it handed to `old_udp_send`.
-/

/-- A pointer to an interface. -/
def IsIface (iface : Addr) : Prop :=
  iface ≠ 0 ∧ iface ≠ ifaceAcquired

/-- A chain of `struct mbuf`; no two chains have the same `id`. -/
structure Packet where
  id : Nat
  contents : List Byte
  deriving DecidableEq

/-- `struct sockaddr_in`. -/
structure SockaddrIn where
  len : Byte
  family : Byte
  port : BitVec 16
  addr : InAddr
  zero : BitVec 64
  deriving DecidableEq

/-- `AF_INET`. -/
def afInet : Byte := 2

/-- `INADDR_BROADCAST`. -/
def inaddrBroadcast : InAddr := 0xffffffff

/-- `struct ifaddr`. -/
structure Ifaddr where
  broadaddr : Option SockaddrIn
  deriving DecidableEq

/-- The address that `new_udp_send` sends to for an entry of `if_addrhead`. -/
def validAddr (ia2 : Option Ifaddr) : Option InAddr :=
  match ia2 with
  | none => none
  | some ia =>
      match ia.broadaddr with
      | none => none
      | some broadaddr =>
          if broadaddr.family = afInet then
            some broadaddr.addr
          else
            none

/-- The arguments of `new_udp_send` and `old_udp_send`. -/
structure SendArgs where
  so : Addr
  flags : BitVec 32
  m : Option Packet
  addr : Option SockaddrIn
  control : Option Packet
  td : Addr
  deriving DecidableEq

namespace SendArgs

/-- The condition of the first `if` of `new_udp_send`. -/
def Broadcasts (args : SendArgs) : Prop :=
  ∃ sin, args.addr = some sin ∧
    sin.family = afInet ∧ sin.addr = inaddrBroadcast

instance decidableBroadcasts (args : SendArgs) : Decidable args.Broadcasts :=
  match isAddr : args.addr with
  | none =>
      .isFalse (by simp [Broadcasts, isAddr])
  | some sin =>
      decidable_of_iff
        (sin.family = afInet ∧ sin.addr = inaddrBroadcast)
        (by simp [Broadcasts, isAddr])

/-- The destination with another address. -/
def addrTo (args : SendArgs) (broadaddr : InAddr) : Option SockaddrIn :=
  args.addr.map fun sin => { sin with addr := broadaddr }

/-- The packets that a call of `old_udp_send` consumes. -/
def packetIds (args : SendArgs) : List Nat :=
  (args.m.toList ++ args.control.toList).map Packet.id

/-- The message and the control data are two of the first `packets` chains. -/
structure Fresh (args : SendArgs) (packets : Nat) : Prop where
  distinct : args.packetIds.Nodup
  allocated : ∀ id ∈ args.packetIds, id < packets

end SendArgs

/-- A call of `old_udp_send` and its result. -/
structure UdpSend where
  args : SendArgs
  result : BitVec 32
  deriving DecidableEq

/-- The next action of a call of `new_udp_send`. -/
inductive SendPlace where
  /-- `acquire_iface` reads the slot -/
  | acquiring (i : Slot)
  /-- it compares and swaps the slot -/
  | comparing (i : Slot) (ans : Addr)
  /-- `mtx_lock(&IF_ADDR_MTX(*iface))` -/
  | lockingAddrs (i : Slot) (iface : Addr)
  /-- `TAILQ_FOREACH` with these addresses left -/
  | sending (i : Slot) (iface : Addr) (rest : List (Option Ifaddr))
  /-- `release_iface` -/
  | releasing (i : Slot) (iface : Addr)
  /-- the `return` statement -/
  | lastSend
  | returned (result : BitVec 32)
  deriving DecidableEq

/-- A call of `new_udp_send`. -/
structure SendCall where
  place : SendPlace
  args : SendArgs
  /-- what `acquire_iface` returned, slot by slot -/
  found : List (Option Addr)
  sends : List UdpSend
  deriving DecidableEq

namespace SendCall

/-- Where the loop goes after a slot. -/
def afterSlot (i : Slot) : SendPlace :=
  if isSlot : i.val + 1 < 10 then
    .acquiring ⟨i.val + 1, isSlot⟩
  else
    .lastSend

/-- A call that has not done anything. -/
def begin (args : SendArgs) : SendCall where
  place := if args.Broadcasts then .acquiring firstSlot else .lastSend
  args := args
  found := []
  sends := []

/-- Go on at another place. -/
def goto (call : SendCall) (place : SendPlace) : SendCall :=
  { call with place := place }

/-- Go on with what `acquire_iface` returned. -/
def acquired
    (call : SendCall)
    (iface : Option Addr)
    (place : SendPlace) : SendCall :=
  { call with place := place, found := call.found ++ [iface] }

/-- Go on after a call of `old_udp_send`. -/
def sent
    (call : SendCall)
    (args : SendArgs)
    (result : BitVec 32)
    (place : SendPlace) : SendCall :=
  { call with place := place, sends := call.sends ++ [⟨args, result⟩] }

end SendCall

/-- A call of `new_udp_send` by its number. -/
abbrev CallId := Nat

/-- What the calls of `new_udp_send` share with each other and with
`opaque_alloc` and `opaque_free`, and the calls. -/
structure SendKernel where
  ifaces : Slot → Addr
  /-- the owner of `IF_ADDR_MTX` of an interface -/
  addrMtx : Addr → Option CallId
  /-- the number of chains allocated -/
  packets : Nat
  /-- the slots that `opaque_free` has acquired -/
  closing : Finset Slot
  calls : CallId → Option SendCall

/-- `m_dup`, for a chain that is not null, and the number of chains after it. -/
def dup (packets : Nat) (m : Option Packet) : Option Packet × Nat :=
  match m with
  | none => (none, packets)
  | some chain => (some { chain with id := packets }, packets + 1)

namespace SendKernel

/-- Store to a slot. -/
def setIface (kernel : SendKernel) (i : Slot) (iface : Addr) : SendKernel :=
  { kernel with ifaces := Function.update kernel.ifaces i iface }

/-- Take or release `IF_ADDR_MTX`. -/
def setAddrMtx
    (kernel : SendKernel)
    (iface : Addr)
    (owner : Option CallId) : SendKernel :=
  { kernel with addrMtx := Function.update kernel.addrMtx iface owner }

def setCall
    (kernel : SendKernel)
    (c : CallId)
    (call : SendCall) : SendKernel :=
  { kernel with calls := Function.update kernel.calls c (some call) }

def setPackets (kernel : SendKernel) (packets : Nat) : SendKernel :=
  { kernel with packets := packets }

/-- The arguments for one address, and the number of chains after the two
copies. -/
def copyArgs
    (packets : Nat)
    (args : SendArgs)
    (broadaddr : InAddr) : SendArgs × Nat :=
  let m2 := dup packets args.m
  let c2 := dup m2.2 args.control
  ({ args with m := m2.1, addr := args.addrTo broadaddr, control := c2.1 },
    c2.2)

variable (addrs : Addr → List (Option Ifaddr))

/-- The next action of a call; `addrs` is `if_addrhead` of an interface, and
`result` is what `old_udp_send` returns where the action is a call of it. -/
def run
    (kernel : SendKernel)
    (c : CallId)
    (result : BitVec 32) : Option SendKernel :=
  match kernel.calls c with
  | none => none
  | some call =>
      match call.place with
      | .acquiring i =>
          if kernel.ifaces i = 0 then
            some (kernel.setCall c
              (call.acquired none (SendCall.afterSlot i)))
          else if kernel.ifaces i = ifaceAcquired then
            some (kernel.setCall c (call.goto (.acquiring i)))
          else
            some (kernel.setCall c
              (call.goto (.comparing i (kernel.ifaces i))))
      | .comparing i ans =>
          if kernel.ifaces i = ans then
            some ((kernel.setIface i ifaceAcquired).setCall c
              (call.acquired (some ans) (.lockingAddrs i ans)))
          else
            some (kernel.setCall c (call.goto (.acquiring i)))
      | .lockingAddrs i iface =>
          if kernel.addrMtx iface = none then
            some ((kernel.setAddrMtx iface (some c)).setCall c
              (call.goto (.sending i iface (addrs iface))))
          else
            none
      | .sending i iface [] =>
          some ((kernel.setAddrMtx iface none).setCall c
            (call.goto (.releasing i iface)))
      | .sending i iface (ia2 :: rest) =>
          match validAddr ia2 with
          | none =>
              some (kernel.setCall c (call.goto (.sending i iface rest)))
          | some broadaddr =>
              let copy := copyArgs kernel.packets call.args broadaddr
              some ((kernel.setPackets copy.2).setCall c
                (call.sent copy.1 result (.sending i iface rest)))
      | .releasing i iface =>
          some ((kernel.setIface i iface).setCall c
            (call.goto (SendCall.afterSlot i)))
      | .lastSend =>
          some (kernel.setCall c
            (call.sent call.args result (.returned result)))
      | .returned _ => none

/-- What happens next: a call begins or goes on, `opaque_alloc` publishes an
interface, or `opaque_free` acquires or clears its slot. -/
inductive Label where
  | udpSend (c : CallId) (args : SendArgs)
  | runs (c : CallId) (result : BitVec 32)
  | opens (i : Slot) (iface : Addr)
  | closeTakes (i : Slot)
  | closeClears (i : Slot)
  deriving DecidableEq

/-- `acquire_iface` of `opaque_free`. -/
def closeTake (kernel : SendKernel) (i : Slot) : SendKernel :=
  { kernel with
    closing := insert i kernel.closing
    ifaces :=
      if kernel.ifaces i = 0 then
        kernel.ifaces
      else
        Function.update kernel.ifaces i ifaceAcquired }

/-- The store of the null pointer by `opaque_free`. -/
def closeClear (kernel : SendKernel) (i : Slot) : SendKernel :=
  { kernel with
    closing := kernel.closing.erase i
    ifaces := Function.update kernel.ifaces i 0 }

/-- One step as a relation. -/
inductive Step : SendKernel → Label → SendKernel → Prop where
  | udpSend
      {kernel : SendKernel}
      (c : CallId)
      (args : SendArgs)
      (isNew : kernel.calls c = none)
      (fresh : args.Fresh kernel.packets) :
      Step kernel (.udpSend c args) (kernel.setCall c (.begin args))
  | runs
      {kernel after : SendKernel}
      (c : CallId)
      (result : BitVec 32)
      (runs : kernel.run addrs c result = some after) :
      Step kernel (.runs c result) after
  /-- a device gets an index only when the slot was cleared -/
  | opens
      {kernel : SendKernel}
      (i : Slot)
      (iface : Addr)
      (isClear : kernel.ifaces i = 0 ∧ i ∉ kernel.closing)
      (isIface : IsIface iface) :
      Step kernel (.opens i iface) (kernel.setIface i iface)
  | closeTakes
      {kernel : SendKernel}
      (i : Slot)
      (isFree : kernel.ifaces i ≠ ifaceAcquired) :
      Step kernel (.closeTakes i) (kernel.closeTake i)
  | closeClears
      {kernel : SendKernel}
      (i : Slot)
      (isClosing : i ∈ kernel.closing) :
      Step kernel (.closeClears i) (kernel.closeClear i)

/-- An action of a call, by the branch of the source that it takes. -/
inductive Acts
    (kernel : SendKernel)
    (c : CallId)
    (call : SendCall)
    (result : BitVec 32) : SendKernel → Prop where
  /-- `acquire_iface` finds no interface, and the loop goes on -/
  | absent
      (i : Slot)
      (isPlace : call.place = .acquiring i)
      (isNull : kernel.ifaces i = 0) :
      Acts kernel c call result
        (kernel.setCall c (call.acquired none (SendCall.afterSlot i)))
  /-- the slot is marked -/
  | again
      (i : Slot)
      (isPlace : call.place = .acquiring i)
      (isAcquired : kernel.ifaces i = ifaceAcquired) :
      Acts kernel c call result
        (kernel.setCall c (call.goto (.acquiring i)))
  | reads
      (i : Slot)
      (isPlace : call.place = .acquiring i)
      (isIface : IsIface (kernel.ifaces i)) :
      Acts kernel c call result
        (kernel.setCall c (call.goto (.comparing i (kernel.ifaces i))))
  | takes
      (i : Slot)
      (ans : Addr)
      (isPlace : call.place = .comparing i ans)
      (found : kernel.ifaces i = ans) :
      Acts kernel c call result
        ((kernel.setIface i ifaceAcquired).setCall c
          (call.acquired (some ans) (.lockingAddrs i ans)))
  | loses
      (i : Slot)
      (ans : Addr)
      (isPlace : call.place = .comparing i ans)
      (lost : kernel.ifaces i ≠ ans) :
      Acts kernel c call result
        (kernel.setCall c (call.goto (.acquiring i)))
  | locksAddrs
      (i : Slot)
      (iface : Addr)
      (isPlace : call.place = .lockingAddrs i iface)
      (isFree : kernel.addrMtx iface = none) :
      Acts kernel c call result
        ((kernel.setAddrMtx iface (some c)).setCall c
          (call.goto (.sending i iface (addrs iface))))
  /-- the end of the address list -/
  | sentAll
      (i : Slot)
      (iface : Addr)
      (isPlace : call.place = .sending i iface []) :
      Acts kernel c call result
        ((kernel.setAddrMtx iface none).setCall c
          (call.goto (.releasing i iface)))
  | skips
      (i : Slot)
      (iface : Addr)
      (ia2 : Option Ifaddr)
      (rest : List (Option Ifaddr))
      (isPlace : call.place = .sending i iface (ia2 :: rest))
      (isInvalid : validAddr ia2 = none) :
      Acts kernel c call result
        (kernel.setCall c (call.goto (.sending i iface rest)))
  | sends
      (i : Slot)
      (iface : Addr)
      (ia2 : Option Ifaddr)
      (rest : List (Option Ifaddr))
      (broadaddr : InAddr)
      (isPlace : call.place = .sending i iface (ia2 :: rest))
      (isValid : validAddr ia2 = some broadaddr) :
      Acts kernel c call result
        ((kernel.setPackets
            (copyArgs kernel.packets call.args broadaddr).2).setCall c
          (call.sent (copyArgs kernel.packets call.args broadaddr).1 result
            (.sending i iface rest)))
  | releases
      (i : Slot)
      (iface : Addr)
      (isPlace : call.place = .releasing i iface) :
      Acts kernel c call result
        ((kernel.setIface i iface).setCall c
          (call.goto (SendCall.afterSlot i)))
  | lastSends
      (isPlace : call.place = .lastSend) :
      Acts kernel c call result
        (kernel.setCall c (call.sent call.args result (.returned result)))

variable
  {addrs : Addr → List (Option Ifaddr)}
  {kernel after : SendKernel}
  {c : CallId}
  {call : SendCall}
  {result : BitVec 32}

/-- Every action of a call is one of the branches. -/
theorem acts_of_run
    (isCall : kernel.calls c = some call)
    (runs : kernel.run addrs c result = some after) :
    kernel.Acts addrs c call result after := by
  cases isPlace : call.place with
  | acquiring i =>
      simp only [run, isCall, isPlace] at runs
      split at runs
      · cases runs
        exact .absent i isPlace ‹_›
      · split at runs <;> cases runs
        · exact .again i isPlace ‹_›
        · exact .reads i isPlace ⟨‹_›, ‹_›⟩
  | comparing i ans =>
      simp only [run, isCall, isPlace] at runs
      split at runs <;> cases runs
      · exact .takes i ans isPlace ‹_›
      · exact .loses i ans isPlace ‹_›
  | lockingAddrs i iface =>
      simp only [run, isCall, isPlace] at runs
      split at runs <;> cases runs
      exact .locksAddrs i iface isPlace ‹_›
  | sending i iface rest =>
      cases rest with
      | nil =>
          simp only [run, isCall, isPlace] at runs
          cases runs
          exact .sentAll i iface isPlace
      | cons ia2 rest =>
          simp only [run, isCall, isPlace] at runs
          split at runs <;> cases runs <;> rename_i isAddr
          · exact .skips i iface ia2 rest isPlace isAddr
          · exact .sends i iface ia2 rest _ isPlace isAddr
  | releasing i iface =>
      simp only [run, isCall, isPlace] at runs
      cases runs
      exact .releases i iface isPlace
  | lastSend =>
      simp only [run, isCall, isPlace] at runs
      cases runs
      exact .lastSends isPlace
  | returned other =>
      simp [run, isCall, isPlace] at runs

/-- Every branch is an action of a call. -/
theorem run_of_acts
    (isCall : kernel.calls c = some call)
    (acts : kernel.Acts addrs c call result after) :
    kernel.run addrs c result = some after := by
  cases acts with
  | absent i isPlace isNull =>
      simp only [run, isCall, isPlace, isNull, if_true]
  | again i isPlace isAcquired =>
      have present : kernel.ifaces i ≠ 0 := by
        rw [isAcquired]
        exact Nat.one_ne_zero
      simp only [run, isCall, isPlace, if_neg present, if_pos isAcquired]
  | reads i isPlace isIface =>
      simp only [run, isCall, isPlace, if_neg isIface.1, if_neg isIface.2]
  | takes i ans isPlace found =>
      simp only [run, isCall, isPlace, if_pos found]
  | loses i ans isPlace lost =>
      simp only [run, isCall, isPlace, if_neg lost]
  | locksAddrs i iface isPlace isFree =>
      simp only [run, isCall, isPlace, if_pos isFree]
  | sentAll i iface isPlace =>
      simp only [run, isCall, isPlace]
  | skips i iface ia2 rest isPlace isInvalid =>
      simp only [run, isCall, isPlace, isInvalid]
  | sends i iface ia2 rest broadaddr isPlace isValid =>
      simp only [run, isCall, isPlace, isValid]
  | releases i iface isPlace =>
      simp only [run, isCall, isPlace]
  | lastSends isPlace =>
      simp only [run, isCall, isPlace]

/-- Only a call that has begun acts. -/
theorem exists_acts
    (runs : kernel.run addrs c result = some after) :
    ∃ call,
      kernel.calls c = some call ∧
        kernel.Acts addrs c call result after := by
  cases isCall : kernel.calls c with
  | none =>
      simp [run, isCall] at runs
  | some call =>
      exact ⟨call, rfl, acts_of_run isCall runs⟩

end SendKernel

end Hamachi
