import Hamachi.SocketCalls

namespace Hamachi

/-!
# What the host is handed of uninitialised memory

Two runs of a call that differ only in what its local buffers held must hand
the host the same arguments.  They do not: the length byte of an address and
the last four fields of the hints are never written.
-/

/-- `struct linux_addrinfo` and `struct host_addrinfo`, which have the same
fields. -/
structure Addrinfo where
  aiFlags : Int
  aiFamily : Int
  aiSocktype : Int
  aiProtocol : Int
  aiAddrlen : Nat
  aiAddr : Addr
  aiCanonname : Addr
  aiNext : Addr
  deriving DecidableEq

/-- `bsd_hints` of `impl_getaddrinfo`. -/
def bsdHints (hints garbage : Addrinfo) : Addrinfo :=
  { garbage with
    aiFlags := hints.aiFlags
    aiFamily := if hints.aiFamily = 10 then 28 else hints.aiFamily
    aiSocktype := hints.aiSocktype
    aiProtocol := hints.aiProtocol }

/-- A call that hands the host a structure of its own stack. -/
inductive StackCall where
  | bind {size : Nat} (addr : Buffer size)
  | connect {size : Nat} (addr : Buffer size)
  | sendto {size : Nat} (addr : Buffer size)
  | getaddrinfo (hints : Addrinfo)

/-- What the local variables of a call held before. -/
structure Uninitialised where
  bsdAddr : BsdAddr
  bsdHints : Addrinfo

/-- The structure that the host gets, if it is called. -/
inductive HostArgument where
  | sockaddr (bytes : Option (List Byte))
  | hints (hints : Addrinfo)

namespace StackCall

/-- The argument of the host call. -/
def argument
    (garbage : Uninitialised)
    (host : HostStatus) :
    StackCall → Except Fault HostArgument
  | .bind addr => do
      let pass ← implBind addr garbage.bsdAddr host
      return .sockaddr pass.passed
  | .connect addr => do
      let pass ← implConnect addr garbage.bsdAddr host
      return .sockaddr pass.passed
  | .sendto addr => do
      let pass ← implSendto addr garbage.bsdAddr host
      return .sockaddr pass.passed
  | .getaddrinfo hints =>
      return .hints (Hamachi.bsdHints hints garbage.bsdHints)

/-- The call passes an internet address or hints. -/
def IsInternet : StackCall → Prop
  | .bind addr => ∃ value : SocketAddress, value.InLinux addr
  | .connect addr => ∃ value : SocketAddress, value.InLinux addr
  | .sendto addr => ∃ value : SocketAddress, value.InLinux addr
  | .getaddrinfo _ => True

/-- Two runs of the call hand the host the same argument. -/
def IgnoresGarbage (call : StackCall) : Prop :=
  ∀ (garbage garbage' : Uninitialised) (host : HostStatus),
    call.argument garbage host = call.argument garbage' host

/-- The call is refused without the host. -/
def StaysInside : StackCall → Prop
  | .connect addr => isUnreachable addr = .ok true
  | _ => False

variable
  {size : Nat}
  {addr : Buffer size}
  {value : SocketAddress}

/-- The address that the host gets starts with a byte of the garbage. -/
theorem converted_first
    (holds : value.InLinux addr)
    (garbage : BsdAddr) :
    ∃ bsdAddr argument,
      linuxAddrToBsdAddr addr garbage = .ok (bsdAddr, value.length) ∧
        bsdAddr.slice 0 value.length = .ok argument ∧
        argument.bytes[0]? = garbage.bytes[0]? := by
  obtain ⟨flowinfo, readFlowinfo, _⟩ :=
    Buffer.slice_inside garbage 4 4 (by decide)
  obtain ⟨scopeId, readScopeId, _⟩ :=
    Buffer.slice_inside garbage 24 4 (by decide)
  obtain ⟨bsdAddr, converts, _, first⟩ :=
    linuxAddrToBsdAddr_spec holds (by decide) readFlowinfo readScopeId
  have fits := value.length_le
  obtain ⟨argument, slices, _⟩ :=
    Buffer.slice_inside bsdAddr 0 value.length (by omega)
  refine ⟨bsdAddr, argument, converts, slices, ?_⟩
  rw [Buffer.slice_getElem? slices, if_pos value.length_pos, Nat.zero_add,
    first]

/-- Local variables whose first byte is known. -/
def startingWith (first : Byte) : Uninitialised where
  bsdAddr := ⟨first :: List.replicate 107 0, by simp⟩
  bsdHints := ⟨0, 0, 0, 0, 0, 0, 0, first.toNat⟩

/-- A call that hands over the converted address does not ignore it. -/
theorem not_ignoresGarbage
    {call : StackCall}
    (holds : value.InLinux addr)
    (passes :
      ∀ (garbage : Uninitialised) (bsdAddr : BsdAddr)
        (passed : Buffer value.length),
        linuxAddrToBsdAddr addr garbage.bsdAddr =
          .ok (bsdAddr, value.length) →
        bsdAddr.slice 0 value.length = .ok passed →
        call.argument garbage ⟨0, 0⟩ =
          .ok (.sockaddr (some passed.bytes))) :
    ¬ call.IgnoresGarbage := by
  intro ignores
  obtain ⟨bsdAddr, passed, converts, slices, first⟩ :=
    converted_first holds (startingWith 0).bsdAddr
  obtain ⟨bsdAddr', passed', converts', slices', first'⟩ :=
    converted_first holds (startingWith 1).bsdAddr
  have same := ignores (startingWith 0) (startingWith 1) ⟨0, 0⟩
  rw [passes _ _ _ converts slices, passes _ _ _ converts' slices',
    Except.ok.injEq, HostArgument.sockaddr.injEq, Option.some.injEq] at same
  rw [same, first'] at first
  exact absurd first (by decide)

/-- The test of `impl_connect` can be made for every internet address. -/
theorem isUnreachable_returns
    (holds : value.InLinux addr) :
    ∃ unreachable, isUnreachable addr = .ok unreachable := by
  unfold isUnreachable
  cases value with
  | inet port address =>
      have family : addr.slice 0 2 = .ok ⟨[2, 0], rfl⟩ := holds.family
      rw [family, ok_bind, if_pos rfl, holds.fields.2]
      exact ⟨_, rfl⟩
  | inet6 port flowinfo address scopeId =>
      have family : addr.slice 0 2 = .ok ⟨[10, 0], rfl⟩ := holds.family
      rw [family, ok_bind, if_neg (by decide)]
      exact ⟨_, rfl⟩

/-- A call with an internet address or hints ignores its garbage exactly when
it does not reach the host. -/
theorem ignoresGarbage_iff_staysInside
    {call : StackCall}
    (isInternet : call.IsInternet) :
    call.IgnoresGarbage ↔ call.StaysInside := by
  cases call with
  | bind addr =>
      obtain ⟨value, holds⟩ := isInternet
      refine ⟨not_ignoresGarbage holds ?_, False.elim⟩
      intro garbage bsdAddr passed converts slices
      simp only [argument, implBind, converts, slices, ok_bind,
        if_neg value.length_pos.ne']
      rfl
  | connect addr =>
      obtain ⟨value, holds⟩ := isInternet
      obtain ⟨unreachable, tests⟩ := isUnreachable_returns holds
      cases unreachable with
      | false =>
          constructor
          · refine fun ignores => absurd ignores ?_
            refine not_ignoresGarbage holds ?_
            intro garbage bsdAddr passed converts slices
            simp only [argument, implConnect, converts, slices, tests,
              ok_bind, if_neg value.length_pos.ne']
            rfl
          · intro unreachable
            cases tests.symm.trans unreachable
      | true =>
          refine ⟨fun _ => tests, fun _ garbage garbage' host => ?_⟩
          obtain ⟨bsdAddr, _, converts, _⟩ :=
            converted_first holds garbage.bsdAddr
          obtain ⟨bsdAddr', _, converts', _⟩ :=
            converted_first holds garbage'.bsdAddr
          simp only [argument, implConnect, converts, converts', tests,
            ok_bind, if_neg value.length_pos.ne', if_true]
  | sendto addr =>
      obtain ⟨value, holds⟩ := isInternet
      refine ⟨not_ignoresGarbage holds ?_, False.elim⟩
      intro garbage bsdAddr passed converts slices
      simp only [argument, implSendto, converts, slices, ok_bind]
      rfl
  | getaddrinfo hints =>
      refine ⟨fun ignores => ?_, False.elim⟩
      have same := ignores (startingWith 0) (startingWith 1) ⟨0, 0⟩
      cases same

/-- Port 80 of the metadata service of cloud machines. -/
def metadataAddr : Buffer 16 :=
  .of [2, 0, 0, 80, 169, 254, 169, 254, 0, 0, 0, 0, 0, 0, 0, 0]

/-- A connection to the metadata service is refused without the host. -/
theorem ignoresGarbage_metadata :
    (connect metadataAddr).IgnoresGarbage :=
  have holds :
      (SocketAddress.inet (.of [0, 80]) (.of [169, 254, 169, 254])).InLinux
        metadataAddr :=
    ⟨rfl, rfl, rfl⟩
  (@ignoresGarbage_iff_staysInside (connect metadataAddr) ⟨_, holds⟩).mpr
    rfl

/-- The host is handed the length byte that the stack held. -/
theorem not_ignoresGarbage_loopback :
    ¬ ∀ call : StackCall, call.IsInternet → call.IgnoresGarbage := by
  intro ignores
  have holds :
      SocketAddress.loopback.InLinux
        (.of [2, 0, 0, 80, 127, 0, 0, 1, 0, 0, 0, 0, 0, 0, 0, 0]) :=
    ⟨rfl, rfl, rfl⟩
  have same :=
    ignores
      (bind (.of [2, 0, 0, 80, 127, 0, 0, 1, 0, 0, 0, 0, 0, 0, 0, 0]))
      ⟨_, holds⟩ (startingWith 0) (startingWith 1) ⟨0, 0⟩
  cases same

end StackCall

end Hamachi
