import Hamachi.CString
import Hamachi.GlueDevices

namespace Hamachi

/-!
# Socket addresses of Linux and of the host

Both systems lay out `sockaddr_in` and `sockaddr_in6` alike, except for the
family: two bytes on Linux, a length byte and a family byte on the host.  The
converters copy ports and addresses.  The length byte, the padding, the flow
information and the scope stay what the destination held.
-/

variable {size room : Nat}

/-- `strncpy(…, text, n)`. -/
def strncpy (text : List Byte) (n : Nat) : List Byte :=
  (text ++ List.replicate n 0).take n

@[simp] theorem strncpy_length (text : List Byte) (n : Nat) :
    (strncpy text n).length = n := by
  simp [strncpy]

/-- The assignments to `sin_addr` and `sin_port`. -/
def copyIn
    (addr : Buffer size)
    (converted : Buffer room) :
    Except Fault (Buffer room) := do
  let sAddr ← addr.slice 4 4
  let converted ← converted.overwrite 4 sAddr.bytes
  let sinPort ← addr.slice 2 2
  converted.overwrite 2 sinPort.bytes

/-- The assignments to `sin6_port` and `sin6_addr`. -/
def copyIn6
    (addr : Buffer size)
    (converted : Buffer room) :
    Except Fault (Buffer room) := do
  let sin6Port ← addr.slice 2 2
  let converted ← converted.overwrite 2 sin6Port.bytes
  let sin6Addr ← addr.slice 8 16
  converted.overwrite 8 sin6Addr.bytes

/-- `linux_addr_to_bsd_addr`: what `bsd_addr` and `bsd_len` end up with. -/
def linuxAddrToBsdAddr
    (addr : Buffer size)
    (bsdAddr : Buffer room) :
    Except Fault (Buffer room × Nat) := do
  let saFamily ← addr.slice 0 2
  if saFamily.bytes = [2, 0] then do
    let bsdAddr ← bsdAddr.overwrite 1 [2]
    let bsdAddr ← copyIn addr bsdAddr
    return (bsdAddr, 16)
  else if saFamily.bytes = [10, 0] then do
    let bsdAddr ← bsdAddr.overwrite 1 [28]
    let bsdAddr ← copyIn6 addr bsdAddr
    return (bsdAddr, 28)
  else if saFamily.bytes = [1, 0] then do
    let bsdAddr ← bsdAddr.overwrite 1 [1]
    let sunPath ← textAt addr.bytes 2
    let pp := chars pathPrefix ++ sunPath
    let bsdAddr ← bsdAddr.overwrite 2 (strncpy pp 104)
    let bsdAddr ← bsdAddr.overwrite 105 [0]
    return (bsdAddr, 106)
  else
    return (bsdAddr, 0)

/-- `bsd_addr_to_linux_addr`: what `linux_addr` and `linux_len` end up with. -/
def bsdAddrToLinuxAddr
    (addr : Buffer size)
    (linuxAddr : Buffer room) :
    Except Fault (Buffer room × Nat) := do
  let saFamily ← addr.byteAt 1
  if saFamily = 2 then do
    let linuxAddr ← linuxAddr.overwrite 0 [2, 0]
    let linuxAddr ← copyIn addr linuxAddr
    return (linuxAddr, 16)
  else if saFamily = 28 then do
    let linuxAddr ← linuxAddr.overwrite 0 [10, 0]
    let linuxAddr ← copyIn6 addr linuxAddr
    return (linuxAddr, 28)
  else if saFamily = 1 then do
    let linuxAddr ← linuxAddr.overwrite 0 [1, 0]
    let linuxAddr ← linuxAddr.overwrite 2 [0]
    return (linuxAddr, 110)
  else
    return (linuxAddr, 0)

/-- `union bsd_addr`. -/
abbrev BsdAddr := Buffer 108

/-- `union linux_addr`. -/
abbrev LinuxAddr := Buffer 112

/-- What an internet socket address says. -/
inductive SocketAddress where
  | inet (port : Buffer 2) (address : Buffer 4)
  | inet6
      (port : Buffer 2)
      (flowinfo : Buffer 4)
      (address : Buffer 16)
      (scopeId : Buffer 4)
  deriving DecidableEq

namespace SocketAddress

/-- `sa_family` on Linux. -/
def linuxFamily : SocketAddress → Buffer 2
  | .inet .. => ⟨[2, 0], rfl⟩
  | .inet6 .. => ⟨[10, 0], rfl⟩

/-- `sa_family` on the host. -/
def bsdFamily : SocketAddress → Byte
  | .inet .. => 2
  | .inet6 .. => 28

/-- The size of the structure, on both systems. -/
def length : SocketAddress → Nat
  | .inet .. => 16
  | .inet6 .. => 28

/-- The fields that both systems keep at the same offsets. -/
def Fields (addr : Buffer size) : SocketAddress → Prop
  | .inet port address =>
      addr.slice 2 2 = .ok port ∧ addr.slice 4 4 = .ok address
  | .inet6 port flowinfo address scopeId =>
      addr.slice 2 2 = .ok port ∧ addr.slice 4 4 = .ok flowinfo ∧
        addr.slice 8 16 = .ok address ∧ addr.slice 24 4 = .ok scopeId

/-- A Linux buffer holds the address. -/
structure InLinux (value : SocketAddress) (addr : Buffer size) : Prop where
  family : addr.slice 0 2 = .ok value.linuxFamily
  fields : value.Fields addr

/-- A host buffer holds the address. -/
structure InBsd (value : SocketAddress) (addr : Buffer size) : Prop where
  family : addr.byteAt 1 = .ok value.bsdFamily
  fields : value.Fields addr

/-- Write the family, the port and the address. -/
def store
    (start : Nat)
    (family : List Byte)
    (converted : Buffer room) :
    SocketAddress → Except Fault (Buffer room)
  | .inet port address =>
      converted.overwrite start (family ++ port.bytes ++ address.bytes)
  | .inet6 port _ address _ => do
      let converted ← converted.overwrite start (family ++ port.bytes)
      converted.overwrite 8 address.bytes

/-- The address with other flow information and another scope. -/
def withScope
    (flowinfo scopeId : Buffer 4) : SocketAddress → SocketAddress
  | .inet port address => .inet port address
  | .inet6 port _ address _ => .inet6 port flowinfo address scopeId

theorem length_pos (value : SocketAddress) : 0 < value.length := by
  cases value <;> exact Nat.succ_pos _

theorem length_le (value : SocketAddress) : value.length ≤ 28 := by
  cases value with
  | inet port address => exact show 16 ≤ 28 by decide
  | inet6 port flowinfo address scopeId => exact Nat.le_refl 28

variable
  (value : SocketAddress)
  (flowinfo scopeId : Buffer 4)

@[simp] theorem linuxFamily_withScope :
    (value.withScope flowinfo scopeId).linuxFamily = value.linuxFamily := by
  cases value <;> rfl

@[simp] theorem bsdFamily_withScope :
    (value.withScope flowinfo scopeId).bsdFamily = value.bsdFamily := by
  cases value <;> rfl

@[simp] theorem length_withScope :
    (value.withScope flowinfo scopeId).length = value.length := by
  cases value <;> rfl

@[simp] theorem withScope_withScope :
    (value.withScope flowinfo scopeId).withScope flowinfo scopeId =
      value.withScope flowinfo scopeId := by
  cases value <;> rfl

end SocketAddress

section Converters

variable
  {addr : Buffer size}
  {converted : Buffer room}
  {port : Buffer 2}

/-- `sin_port` and `sin_addr` are copied as one part. -/
theorem copyIn_eq
    {address : Buffer 4}
    (readPort : addr.slice 2 2 = .ok port)
    (readAddress : addr.slice 4 4 = .ok address) :
    copyIn addr converted =
      converted.overwrite 2 (port.bytes ++ address.bytes) := by
  unfold copyIn
  simp only [readPort, readAddress, ok_bind]
  rw [converted.overwrite_disjoint 2 4 port.bytes address.bytes
      (by rw [port.sized]),
    converted.overwrite_next _ _ (by rw [port.sized])]

/-- `sin6_port` and `sin6_addr` are copied apart. -/
theorem copyIn6_eq
    {address : Buffer 16}
    (readPort : addr.slice 2 2 = .ok port)
    (readAddress : addr.slice 8 16 = .ok address) :
    copyIn6 addr converted =
      converted.overwrite 2 port.bytes >>= fun converted =>
        converted.overwrite 8 address.bytes := by
  unfold copyIn6
  simp only [readPort, readAddress, ok_bind]

/-- What a stored address reads: its fields with the flow information and the
scope of the destination, its family, and the bytes before the family. -/
theorem store_spec
    (value : SocketAddress)
    {start : Nat}
    {family : List Byte}
    {flowinfo scopeId : Buffer 4}
    (position : start + family.length = 2)
    (large : 28 ≤ room)
    (readFlowinfo : converted.slice 4 4 = .ok flowinfo)
    (readScopeId : converted.slice 24 4 = .ok scopeId) :
    ∃ written,
      value.store start family converted = .ok written ∧
        (value.withScope flowinfo scopeId).Fields written ∧
        written.slice start family.length = .ok (.of family) ∧
        ∀ index < start,
          written.bytes[index]? = converted.bytes[index]? := by
  cases value with
  | inet port address =>
      have portSized := port.sized
      have addressSized := address.sized
      obtain ⟨written, writes, _⟩ :=
        Buffer.overwrite_inside converted start
          (family ++ port.bytes ++ address.bytes)
          (by simp only [List.length_append]; omega)
      refine ⟨written, writes, ⟨?_, ?_⟩, ?_, fun index before => ?_⟩
      · exact Buffer.slice_written writes family port address.bytes rfl
          position
      · refine Buffer.slice_written writes (family ++ port.bytes) address []
          (List.append_nil _).symm ?_
        rw [List.length_append]
        omega
      · exact Buffer.slice_written writes [] (.of family)
          (port.bytes ++ address.bytes) (List.append_assoc ..) rfl
      · rw [Buffer.overwrite_getElem? writes, if_neg (by omega)]
  | inet6 port _ address _ =>
      have portSized := port.sized
      have addressSized := address.sized
      have front : start + (family ++ port.bytes).length = 4 := by
        rw [List.length_append]
        omega
      obtain ⟨middle, writesPort, _⟩ :=
        Buffer.overwrite_inside converted start (family ++ port.bytes)
          (by omega)
      obtain ⟨written, writesAddress, _⟩ :=
        Buffer.overwrite_inside middle 8 address.bytes (by omega)
      refine ⟨written, ?_, ⟨?_, ?_, ?_, ?_⟩, ?_, fun index before => ?_⟩
      · simp only [SocketAddress.store, writesPort, ok_bind, writesAddress]
      · rw [Buffer.slice_overwrite_outside writesAddress (.inl (by omega))]
        exact Buffer.slice_written writesPort family port []
          (List.append_nil _).symm position
      · rw [Buffer.slice_overwrite_outside writesAddress (.inl (by omega)),
          Buffer.slice_overwrite_outside writesPort (.inr (by omega))]
        exact readFlowinfo
      · exact Buffer.slice_written writesAddress [] address []
          (List.append_nil _).symm rfl
      · rw [Buffer.slice_overwrite_outside writesAddress (.inr (by omega)),
          Buffer.slice_overwrite_outside writesPort (.inr (by omega))]
        exact readScopeId
      · rw [Buffer.slice_overwrite_outside writesAddress (.inl (by omega))]
        exact Buffer.slice_written writesPort [] (.of family) port.bytes rfl
          rfl
      · rw [Buffer.overwrite_getElem? writesAddress, if_neg (by omega),
          Buffer.overwrite_getElem? writesPort, if_neg (by omega)]

/-- An internet address of Linux is stored after the length byte. -/
theorem linuxAddrToBsdAddr_eq
    {value : SocketAddress}
    (holds : value.InLinux addr) :
    linuxAddrToBsdAddr addr converted =
      value.store 1 [value.bsdFamily] converted >>= fun converted =>
        .ok (converted, value.length) := by
  unfold linuxAddrToBsdAddr
  cases value with
  | inet port address =>
      have family : addr.slice 0 2 = .ok ⟨[2, 0], rfl⟩ := holds.family
      obtain ⟨readPort, readAddress⟩ := holds.fields
      rw [family, ok_bind, if_pos rfl]
      simp only [copyIn_eq readPort readAddress, ← bind_assoc]
      rw [converted.overwrite_next [2] _ (show 1 + 1 = 2 from rfl),
        ← List.append_assoc]
      rfl
  | inet6 port flowinfo address scopeId =>
      have family : addr.slice 0 2 = .ok ⟨[10, 0], rfl⟩ := holds.family
      obtain ⟨readPort, _, readAddress, _⟩ := holds.fields
      rw [family, ok_bind, if_neg (by decide), if_pos rfl]
      simp only [copyIn6_eq readPort readAddress, ← bind_assoc]
      rw [converted.overwrite_next [28] _ (show 1 + 1 = 2 from rfl)]
      rfl

/-- An internet address of the host is stored after a family of two bytes. -/
theorem bsdAddrToLinuxAddr_eq
    {value : SocketAddress}
    (holds : value.InBsd addr) :
    bsdAddrToLinuxAddr addr converted =
      value.store 0 value.linuxFamily.bytes converted >>= fun converted =>
        .ok (converted, value.length) := by
  unfold bsdAddrToLinuxAddr
  cases value with
  | inet port address =>
      have family : addr.byteAt 1 = .ok 2 := holds.family
      obtain ⟨readPort, readAddress⟩ := holds.fields
      rw [family, ok_bind, if_pos rfl]
      simp only [copyIn_eq readPort readAddress, ← bind_assoc]
      rw [converted.overwrite_next [2, 0] _ (show 0 + 2 = 2 from rfl),
        ← List.append_assoc]
      rfl
  | inet6 port flowinfo address scopeId =>
      have family : addr.byteAt 1 = .ok 28 := holds.family
      obtain ⟨readPort, _, readAddress, _⟩ := holds.fields
      rw [family, ok_bind, if_neg (by decide), if_pos rfl]
      simp only [copyIn6_eq readPort readAddress, ← bind_assoc]
      rw [converted.overwrite_next [10, 0] _ (show 0 + 2 = 2 from rfl)]
      rfl

/-- What the host gets of an internet address: flow information and scope, like
the length byte, are those of the destination. -/
theorem linuxAddrToBsdAddr_spec
    {value : SocketAddress}
    {flowinfo scopeId : Buffer 4}
    (holds : value.InLinux addr)
    (large : 28 ≤ room)
    (readFlowinfo : converted.slice 4 4 = .ok flowinfo)
    (readScopeId : converted.slice 24 4 = .ok scopeId) :
    ∃ bsdAddr,
      linuxAddrToBsdAddr addr converted = .ok (bsdAddr, value.length) ∧
        (value.withScope flowinfo scopeId).InBsd bsdAddr ∧
        bsdAddr.bytes[0]? = converted.bytes[0]? := by
  obtain ⟨bsdAddr, stores, fields, family, before⟩ :=
    @store_spec _ converted value 1 [value.bsdFamily] _ _ rfl large
      readFlowinfo readScopeId
  refine ⟨bsdAddr, ?_, ⟨?_, fields⟩, before 0 Nat.one_pos⟩
  · rw [linuxAddrToBsdAddr_eq holds, stores, ok_bind]
  · rw [SocketAddress.bsdFamily_withScope]
    exact Buffer.byteAt_of_slice family

/-- What Linux gets of an internet address of the host. -/
theorem bsdAddrToLinuxAddr_spec
    {value : SocketAddress}
    {flowinfo scopeId : Buffer 4}
    (holds : value.InBsd addr)
    (large : 28 ≤ room)
    (readFlowinfo : converted.slice 4 4 = .ok flowinfo)
    (readScopeId : converted.slice 24 4 = .ok scopeId) :
    ∃ linuxAddr,
      bsdAddrToLinuxAddr addr converted = .ok (linuxAddr, value.length) ∧
        (value.withScope flowinfo scopeId).InLinux linuxAddr := by
  have position : 0 + value.linuxFamily.bytes.length = 2 := by
    rw [value.linuxFamily.sized]
  obtain ⟨linuxAddr, stores, fields, family, _⟩ :=
    @store_spec _ converted value 0 value.linuxFamily.bytes _ _ position
      large readFlowinfo readScopeId
  refine ⟨linuxAddr, ?_, ⟨?_, fields⟩⟩
  · rw [bsdAddrToLinuxAddr_eq holds, stores, ok_bind]
  · rw [SocketAddress.linuxFamily_withScope]
    cases value <;> exact family

/-- The value of a 16-bit field with a small constant. -/
theorem append_eq_small {high low small : Byte} :
    high ++ low = (0 : Byte) ++ small ↔ [low, high] = [small, 0] := by
  constructor
  · intro same
    have sameNat := congrArg BitVec.toNat same
    rw [BitVec.toNat_append, BitVec.toNat_append,
      ← Nat.shiftLeft_add_eq_or_of_lt low.isLt,
      ← Nat.shiftLeft_add_eq_or_of_lt small.isLt, Nat.shiftLeft_eq,
      Nat.shiftLeft_eq, show (0 : Byte).toNat = 0 from rfl] at sameNat
    have lowBound := low.isLt
    have smallBound := small.isLt
    have sameLow : low = small := BitVec.eq_of_toNat_eq (by omega)
    have noHigh : high = 0 := BitVec.eq_of_toNat_eq (by
      change high.toNat = 0
      omega)
    rw [sameLow, noHigh]
  · intro same
    cases same
    rfl

/-- `impl_ioctl` converts into the 16 bytes of a `struct ifreq`. -/
theorem sinAddr_eq
    (ifru : LinuxIfru)
    {ifr : Buffer 16}
    {garbage : InAddr}
    (held : ifr.slice 4 4 = .ok (bytes32 garbage)) :
    ifru.sinAddr garbage = do
      let (ifr, _) ← linuxAddrToBsdAddr ifru ifr
      let sAddr ← ifr.slice 4 4
      return word32 sAddr := by
  obtain ⟨port, readPort, _⟩ := Buffer.slice_inside ifru 2 2 (by decide)
  obtain ⟨address, readAddress, _⟩ :=
    Buffer.slice_inside ifru 4 4 (by decide)
  obtain ⟨low, high, rest, bytes⟩ :
      ∃ low high rest, ifru.bytes = low :: high :: rest := by
    match ifru with
    | ⟨low :: high :: rest, _⟩ => exact ⟨low, high, rest, rfl⟩
  have readFamily : ifru.slice 0 2 = .ok (.of [low, high]) :=
    Buffer.slice_eq [] (.of [low, high]) rest bytes rfl
  have flags : ifru.flags = .ok (high ++ low) := by
    simp [LinuxIfru.flags, Buffer.byteAt, bytes]
  have isInet : high ++ low = (2 : BitVec 16) ↔ [low, high] = [2, 0] :=
    @append_eq_small high low 2
  have isInet6 : high ++ low = (10 : BitVec 16) ↔ [low, high] = [10, 0] :=
    @append_eq_small high low 10
  have isUnix : high ++ low = (1 : BitVec 16) ↔ [low, high] = [1, 0] :=
    @append_eq_small high low 1
  unfold LinuxIfru.sinAddr linuxAddrToBsdAddr
  rw [flags, readFamily]
  simp only [ok_bind, isInet, isInet6, isUnix, Buffer.of]
  split
  · obtain ⟨written, writes, _⟩ :=
      Buffer.overwrite_inside ifr 1 ([2] ++ port.bytes ++ address.bytes)
        (by simp [port.sized, address.sized])
    have readBack : written.slice 4 4 = .ok address :=
      Buffer.slice_written writes ([2] ++ port.bytes) address []
        (List.append_nil _).symm (by simp [port.sized])
    simp only [readAddress, copyIn_eq readPort readAddress, ← bind_assoc]
    rw [ifr.overwrite_next [2] _ (show 1 + 1 = 2 from rfl),
      ← List.append_assoc, writes]
    simp only [ok_bind, pure_bind, readBack]
  · rename_i notInet
    obtain ⟨named, names, _⟩ :=
      Buffer.overwrite_inside ifr 1 [28] (by decide)
    obtain ⟨ported, ports, _⟩ :=
      Buffer.overwrite_inside named 2 port.bytes (by simp [port.sized])
    obtain ⟨unix, namesUnix, _⟩ :=
      Buffer.overwrite_inside ifr 1 [1] (by decide)
    split
    · rename_i overruns
      rcases overruns with isInet6 | isUnix
      · rw [if_pos isInet6, names, ok_bind]
        unfold copyIn6
        rw [readPort, ok_bind, ports, ok_bind,
          Buffer.slice_outside (by decide)]
        rfl
      · rw [if_neg (by rw [isUnix]; decide), if_pos isUnix, namesUnix,
          ok_bind]
        cases path : textAt ifru.bytes 2 with
        | error fault =>
            rw [textAt_error path]
            rfl
        | ok sunPath =>
            rw [ok_bind, Buffer.overwrite_outside
              (by rw [strncpy_length]; decide)]
            rfl
    · rename_i notOverrun
      rw [if_neg (not_or.mp notOverrun).1, if_neg (not_or.mp notOverrun).2]
      simp only [pure_bind, held, ok_bind, word32_bytes32]

end Converters

namespace SocketAddress

variable {value : SocketAddress}

/-- Neither flow information nor a scope. -/
def HasNoScope : SocketAddress → Prop
  | .inet _ _ => True
  | .inet6 _ flowinfo _ scopeId =>
      flowinfo = .zeroed 4 ∧ scopeId = .zeroed 4

/-- A Linux address survives the conversion for the host and back. -/
def SurvivesBsd (value : SocketAddress) (addr : Buffer size) : Prop :=
  ∃ (bsdAddr : BsdAddr) (linuxAddr : LinuxAddr),
    linuxAddrToBsdAddr addr (.zeroed 108) = .ok (bsdAddr, value.length) ∧
      bsdAddrToLinuxAddr bsdAddr (.zeroed 112) =
        .ok (linuxAddr, value.length) ∧
      value.InLinux linuxAddr

/-- A host address survives the conversion for Linux and back. -/
def SurvivesLinux (value : SocketAddress) (addr : Buffer size) : Prop :=
  ∃ (linuxAddr : LinuxAddr) (bsdAddr : BsdAddr),
    bsdAddrToLinuxAddr addr (.zeroed 112) = .ok (linuxAddr, value.length) ∧
      linuxAddrToBsdAddr linuxAddr (.zeroed 108) =
        .ok (bsdAddr, value.length) ∧
      value.InBsd bsdAddr

/-- A buffer holds one set of fields for each kind of address. -/
theorem Fields.withScope_unique
    {flowinfo scopeId : Buffer 4}
    {addr : Buffer size}
    (fields : value.Fields addr)
    (others : (value.withScope flowinfo scopeId).Fields addr) :
    value.withScope flowinfo scopeId = value := by
  cases value with
  | inet port address =>
      rfl
  | inet6 port flowinfo' address scopeId' =>
      obtain ⟨_, readFlowinfo, _, readScopeId⟩ := fields
      obtain ⟨_, otherFlowinfo, _, otherScopeId⟩ := others
      rw [readFlowinfo] at otherFlowinfo
      rw [readScopeId] at otherScopeId
      cases otherFlowinfo
      cases otherScopeId
      rfl

/-- Clearing the scope changes nothing exactly when there is none. -/
theorem withScope_zeroed_iff :
    value.withScope (.zeroed 4) (.zeroed 4) = value ↔ value.HasNoScope := by
  cases value with
  | inet port address =>
      exact ⟨fun _ => trivial, fun _ => rfl⟩
  | inet6 port flowinfo address scopeId =>
      constructor
      · intro same
        cases same
        exact ⟨rfl, rfl⟩
      · rintro ⟨rfl, rfl⟩
        rfl

theorem survivesBsd_iff
    {addr : Buffer size}
    (holds : value.InLinux addr) :
    value.SurvivesBsd addr ↔ value.HasNoScope := by
  obtain ⟨bsdAddr, toBsd, inBsd, _⟩ :=
    @linuxAddrToBsdAddr_spec _ _ _ (.zeroed 108) _ (.zeroed 4) (.zeroed 4)
      holds (by decide) rfl rfl
  obtain ⟨linuxAddr, toLinux, inLinux⟩ :=
    @bsdAddrToLinuxAddr_spec _ _ _ (.zeroed 112) _ (.zeroed 4) (.zeroed 4)
      inBsd (by decide) rfl rfl
  rw [withScope_withScope] at inLinux
  rw [length_withScope] at toLinux
  constructor
  · rintro ⟨bsdAddr', linuxAddr', toBsd', toLinux', survives⟩
    cases toBsd.symm.trans toBsd'
    cases toLinux.symm.trans toLinux'
    exact withScope_zeroed_iff.mp
      (survives.fields.withScope_unique inLinux.fields)
  · intro noScope
    rw [withScope_zeroed_iff.mpr noScope] at inLinux
    exact ⟨bsdAddr, linuxAddr, toBsd, toLinux, inLinux⟩

theorem survivesLinux_iff
    {addr : Buffer size}
    (holds : value.InBsd addr) :
    value.SurvivesLinux addr ↔ value.HasNoScope := by
  obtain ⟨linuxAddr, toLinux, inLinux⟩ :=
    @bsdAddrToLinuxAddr_spec _ _ _ (.zeroed 112) _ (.zeroed 4) (.zeroed 4)
      holds (by decide) rfl rfl
  obtain ⟨bsdAddr, toBsd, inBsd, _⟩ :=
    @linuxAddrToBsdAddr_spec _ _ _ (.zeroed 108) _ (.zeroed 4) (.zeroed 4)
      inLinux (by decide) rfl rfl
  rw [withScope_withScope] at inBsd
  rw [length_withScope] at toBsd
  constructor
  · rintro ⟨linuxAddr', bsdAddr', toLinux', toBsd', survives⟩
    cases toLinux.symm.trans toLinux'
    cases toBsd.symm.trans toBsd'
    exact withScope_zeroed_iff.mp
      (survives.fields.withScope_unique inBsd.fields)
  · intro noScope
    rw [withScope_zeroed_iff.mpr noScope] at inBsd
    exact ⟨linuxAddr, bsdAddr, toLinux, toBsd, inBsd⟩

/-- An internet address survives the round trip from each side exactly when it
has neither flow information nor a scope. -/
theorem survives_iff_hasNoScope (value : SocketAddress) :
    (∀ {size : Nat} {addr : Buffer size},
        value.InLinux addr →
          (value.SurvivesBsd addr ↔ value.HasNoScope)) ∧
      ∀ {size : Nat} {addr : Buffer size},
        value.InBsd addr →
          (value.SurvivesLinux addr ↔ value.HasNoScope) :=
  ⟨survivesBsd_iff, survivesLinux_iff⟩

/-- Port 80 of `127.0.0.1`. -/
def loopback : SocketAddress :=
  .inet (.of [0, 80]) (.of [127, 0, 0, 1])

/-- Port 80 of the loopback address survives, from a Linux and from a host
`sockaddr_in`. -/
theorem survives_loopback :
    loopback.SurvivesBsd
        (.of [2, 0, 0, 80, 127, 0, 0, 1, 0, 0, 0, 0, 0, 0, 0, 0]) ∧
      loopback.SurvivesLinux
        (.of [16, 2, 0, 80, 127, 0, 0, 1, 0, 0, 0, 0, 0, 0, 0, 0]) := by
  obtain ⟨fromLinux, fromBsd⟩ := survives_iff_hasNoScope loopback
  exact ⟨(fromLinux ⟨rfl, rfl, rfl⟩).mpr trivial,
    (fromBsd ⟨rfl, rfl, rfl⟩).mpr trivial⟩

/-- Port 80 of `fe80::1` on the second interface. -/
def linkLocal : SocketAddress :=
  .inet6 (.of [0, 80]) (.of [0, 0, 0, 0])
    (.of [0xfe, 0x80, 0, 0, 0, 0, 0, 0, 0, 0, 0, 0, 0, 0, 0, 1])
    (.of [2, 0, 0, 0])

/-- A link-local address loses its interface. -/
theorem not_survives_linkLocal :
    ¬ ∀ (value : SocketAddress) (addr : Buffer 28),
      value.InLinux addr → value.SurvivesBsd addr := by
  intro survives
  have inLinux :
      linkLocal.InLinux
        (.of [10, 0, 0, 80, 0, 0, 0, 0, 0xfe, 0x80, 0, 0, 0, 0, 0, 0, 0, 0,
          0, 0, 0, 0, 0, 1, 2, 0, 0, 0]) :=
    ⟨rfl, rfl, rfl, rfl, rfl⟩
  have noScope :=
    (survivesBsd_iff inLinux).mp (survives _ _ inLinux)
  exact absurd noScope.2 (by decide)

end SocketAddress

end Hamachi
