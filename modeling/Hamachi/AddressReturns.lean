import Hamachi.SocketCalls

namespace Hamachi

/-!
# Addresses that calls return

The four calls convert and copy whatever their buffer holds, also when the host
has failed and left it unwritten.  `impl_accept` never stores the length.
-/

variable {len : Nat}

/-- The Linux length of an address of a host family. -/
def linuxLength (family : Byte) : Nat :=
  if family = 2 then
    16
  else if family = 28 then
    28
  else if family = 1 then
    110
  else
    0

/-- A host buffer with an internet family holds an internet address. -/
theorem exists_inBsd
    {bsdAddr : BsdAddr}
    {family : Byte}
    (readFamily : bsdAddr.byteAt 1 = .ok family)
    (internet : family = 2 ∨ family = 28) :
    ∃ value : SocketAddress,
      value.InBsd bsdAddr ∧ value.bsdFamily = family := by
  obtain ⟨port, readPort, _⟩ := Buffer.slice_inside bsdAddr 2 2 (by decide)
  obtain ⟨four, readFour, _⟩ := Buffer.slice_inside bsdAddr 4 4 (by decide)
  obtain ⟨address, readAddress, _⟩ :=
    Buffer.slice_inside bsdAddr 8 16 (by decide)
  obtain ⟨scopeId, readScopeId, _⟩ :=
    Buffer.slice_inside bsdAddr 24 4 (by decide)
  rcases internet with rfl | rfl
  · exact ⟨.inet port four, ⟨readFamily, readPort, readFour⟩, rfl⟩
  · exact ⟨.inet6 port four address scopeId,
      ⟨readFamily, readPort, readFour, readAddress, readScopeId⟩, rfl⟩

/-- The conversion of any contents of the host buffer. -/
theorem bsdAddrToLinuxAddr_returns
    {bsdAddr : BsdAddr}
    {family : Byte}
    (readFamily : bsdAddr.byteAt 1 = .ok family)
    (linuxAddr : LinuxAddr) :
    ∃ converted,
      bsdAddrToLinuxAddr bsdAddr linuxAddr =
          .ok (converted, linuxLength family) ∧
        (family = 2 → converted.bytes[0]? = some 2) ∧
        (family = 28 → converted.bytes[0]? = some 10) := by
  by_cases internet : family = 2 ∨ family = 28
  · obtain ⟨value, holds, rfl⟩ := exists_inBsd readFamily internet
    obtain ⟨flowinfo, readFlowinfo, _⟩ :=
      Buffer.slice_inside linuxAddr 4 4 (by decide)
    obtain ⟨scopeId, readScopeId, _⟩ :=
      Buffer.slice_inside linuxAddr 24 4 (by decide)
    obtain ⟨converted, converts, inLinux⟩ :=
      bsdAddrToLinuxAddr_spec holds (by decide) readFlowinfo readScopeId
    have first := Buffer.slice_getElem? inLinux.family 0
    rw [if_pos Nat.two_pos, Nat.zero_add,
      SocketAddress.linuxFamily_withScope] at first
    refine ⟨converted, ?_, ?_, ?_⟩
    · rw [converts]
      cases value <;> rfl
    · cases value with
      | inet port address => exact fun _ => first.symm
      | inet6 port flowinfo address scopeId =>
          exact fun isInet => absurd isInet (show ¬ (28 : Byte) = 2 by decide)
    · cases value with
      | inet port address =>
          exact fun isInet6 => absurd isInet6 (show ¬ (2 : Byte) = 28 by decide)
      | inet6 port flowinfo address scopeId => exact fun _ => first.symm
  · obtain ⟨notInet, notInet6⟩ := not_or.mp internet
    have neither (converted : LinuxAddr) :
        (family = 2 → converted.bytes[0]? = some 2) ∧
          (family = 28 → converted.bytes[0]? = some 10) :=
      ⟨fun isInet => absurd isInet notInet,
        fun isInet6 => absurd isInet6 notInet6⟩
    unfold bsdAddrToLinuxAddr linuxLength
    rw [readFamily, ok_bind, if_neg notInet, if_neg notInet6,
      if_neg notInet, if_neg notInet6]
    split
    · obtain ⟨named, names, _⟩ :=
        Buffer.overwrite_inside linuxAddr 0 [1, 0] (by decide)
      obtain ⟨converted, ends, _⟩ :=
        Buffer.overwrite_inside named 2 [0] (by decide)
      refine ⟨converted, ?_, neither converted⟩
      rw [names, ok_bind, ends]
      rfl
    · exact ⟨linuxAddr, rfl, neither linuxAddr⟩

/-- Any contents of the host buffer are converted and copied as far as there is
room. -/
theorem returnAddr_spec
    {bsdAddr : BsdAddr}
    {linuxAddr converted : LinuxAddr}
    {L : Nat}
    (converts :
      bsdAddrToLinuxAddr bsdAddr linuxAddr = .ok (converted, L))
    (fits : L ≤ 112)
    (addr : Buffer len) :
    ∃ written,
      returnAddr bsdAddr linuxAddr addr = .ok (written, min L len) ∧
        written.bytes =
          converted.bytes.take (min L len) ++
            addr.bytes.drop (min L len) := by
  obtain ⟨part, slices, partBytes⟩ :=
    Buffer.slice_inside converted 0 (min L len) (by omega)
  obtain ⟨written, writes, layout⟩ :=
    Buffer.overwrite_inside addr 0 part.bytes
      (by rw [part.sized]; omega)
  refine ⟨written, ?_, ?_⟩
  · unfold returnAddr
    rw [converts]
    simp only [ok_bind, slices, writes]
    rfl
  · rw [layout, part.sized, partBytes]
    simp

/-- The four calls that return an address. -/
inductive AddrCall where
  | accept
  | getsockname
  | getpeername
  | recvfrom

namespace AddrCall

/-- Perform a call. -/
def perform
    (addr : Option (Buffer len))
    (garbage : Locals)
    (errno : Int)
    (host : HostAddr) :
    AddrCall → Except Fault (AddrReturn len)
  | .accept => implAccept addr garbage errno host
  | .getsockname => implGetsockname addr garbage errno host
  | .getpeername => implGetpeername addr garbage errno host
  | .recvfrom => implRecvfrom addr garbage errno host

/-- The value of `*len` after a call that converts an address of length `L`. -/
def length (L len : Nat) : AddrCall → Nat
  | .accept => len
  | _ => min L len

/-- Every call is the conversion of its buffer and what it makes of `*len`. -/
theorem perform_spec
    (call : AddrCall)
    (addr : Buffer len)
    (garbage : Locals)
    (errno : Int)
    {host : HostAddr}
    {received : BsdAddr}
    {converted : LinuxAddr}
    {L : Nat}
    (stores : host.store garbage.bsdAddr = .ok received)
    (converts :
      bsdAddrToLinuxAddr received garbage.linuxAddr = .ok (converted, L))
    (fits : L ≤ 112) :
    ∃ written errno',
      call.perform (some addr) garbage errno host =
          .ok ⟨host.ret, some written, call.length L len, errno'⟩ ∧
        written.bytes =
          converted.bytes.take (min L len) ++
            addr.bytes.drop (min L len) := by
  obtain ⟨written, returns, layout⟩ := returnAddr_spec converts fits addr
  cases call with
  | accept =>
      refine ⟨written, host.errnoAfter errno, ?_, layout⟩
      simp only [perform, implAccept, stores, returns, ok_bind]
      rfl
  | getsockname =>
      refine ⟨written, host.errnoAfter errno, ?_, layout⟩
      simp only [perform, implGetsockname, getName, stores, returns, ok_bind]
      rfl
  | getpeername =>
      refine ⟨written, host.errnoAfter errno, ?_, layout⟩
      simp only [perform, implGetpeername, getName, stores, returns, ok_bind]
      rfl
  | recvfrom =>
      refine ⟨written, linuxEagain (host.errnoAfter errno), ?_, layout⟩
      simp only [perform, implRecvfrom, stores, returns, ok_bind]
      rfl

/-- The two ways to report a length: that of the address, or that of the part
that was stored. -/
inductive Report where
  | actual
  | stored

/-- The reported length of an address of length `L`. -/
def Report.length (L len : Nat) : Report → Nat
  | .actual => L
  | .stored => min L len

/-- What the Linux program is promised, whatever the buffers of the call held:
the address as far as it fits and its length, or nothing on a failure. -/
def KeepsContract
    (call : AddrCall)
    (report : Report)
    (addr : Buffer len)
    (host : HostAddr) : Prop :=
  ∀ (garbage : Locals) (errno : Int),
    ∃ done,
      call.perform (some addr) garbage errno host = .ok done ∧
        done.ret = host.ret ∧
        match host with
        | .failed _ => done.addr = some addr ∧ done.length = len
        | .returned _ _ _ =>
            ∀ received converted L,
              host.store garbage.bsdAddr = .ok received →
              bsdAddrToLinuxAddr received garbage.linuxAddr =
                .ok (converted, L) →
              done.length = report.length L len ∧
                ∃ written,
                  done.addr = some written ∧
                    written.bytes =
                      converted.bytes.take (min L len) ++
                        addr.bytes.drop (min L len)

/-- A family that the host buffer can have: that of the address, or any if the
address has no family. -/
def MayHaveFamily (address : List Byte) (family : Byte) : Prop :=
  ∀ own, address[1]? = some own → own = family

/-- `*len` needs no other value than the call gives it. -/
def ReportsLength (call : AddrCall) (report : Report) (L len : Nat) : Prop :=
  match call, report with
  | .accept, .actual => L = len
  | .accept, .stored => len ≤ L
  | _, .actual => L ≤ len
  | _, .stored => True

/-- The host succeeds with addresses whose length is reported, or it fails and
there is no room for an address. -/
def Answerable
    (call : AddrCall)
    (report : Report)
    (len : Nat) : HostAddr → Prop
  | .failed _ => len = 0
  | .returned _ address _ =>
      ∀ family,
        MayHaveFamily address family →
          call.ReportsLength report (linuxLength family) len

variable
  {call : AddrCall}
  {report : Report}
  {host : HostAddr}
  {garbage : Locals}
  {family : Byte}

theorem length_eq_iff {L : Nat} :
    call.length L len = report.length L len ↔
      call.ReportsLength report L len := by
  cases call <;> cases report <;>
    simp only [length, Report.length, ReportsLength] <;> omega

theorem linuxLength_le (family : Byte) : linuxLength family ≤ 112 := by
  unfold linuxLength
  split_ifs <;> decide

/-- Buffers whose garbage looks like an address of a family. -/
def leftover (family : Byte) : Locals where
  bsdAddr :=
    ⟨0 :: family :: List.replicate 106 0, by simp⟩
  linuxAddr := .zeroed 112

/-- The family that a call converts is one that the address can have. -/
theorem exists_family
    (host : HostAddr)
    (garbage : Locals) :
    ∃ received family,
      host.store garbage.bsdAddr = .ok received ∧
        received.byteAt 1 = .ok family ∧
        ∀ ret address fits,
          host = .returned ret address fits →
            MayHaveFamily address family := by
  cases host with
  | failed errno =>
      refine ⟨garbage.bsdAddr, _, rfl, Buffer.byteAt_eq (by decide), ?_⟩
      rintro _ _ _ ⟨⟩
  | returned ret address fits =>
      obtain ⟨received, stores, _⟩ :=
        Buffer.overwrite_start garbage.bsdAddr address fits
      have readFamily :=
        @Buffer.byteAt_eq _ received 1 (by decide)
      refine ⟨received, _, stores, readFamily, ?_⟩
      rintro _ _ _ ⟨⟩ own isOwn
      have reads := Buffer.overwrite_getElem? stores 1
      have inside := (List.getElem?_eq_some_iff.mp isOwn).1
      rw [if_pos (by omega), Nat.sub_zero, isOwn,
        List.getElem?_eq_getElem (by rw [received.sized]; decide)] at reads
      exact (Option.some.inj reads).symm

/-- Every family that an address can have is converted for some garbage. -/
theorem store_leftover
    {ret : Nat}
    {address : List Byte}
    {fits : address.length ≤ 108}
    (mayHave : MayHaveFamily address family) :
    ∃ received,
      (HostAddr.returned ret address fits).store (leftover family).bsdAddr =
          .ok received ∧
        received.byteAt 1 = .ok family := by
  obtain ⟨received, stores, _⟩ :=
    Buffer.overwrite_start (leftover family).bsdAddr address fits
  refine ⟨received, stores, ?_⟩
  unfold Buffer.byteAt
  rw [Buffer.overwrite_getElem? stores 1]
  split
  · rename_i byte isByte
    split at isByte
    · rw [mayHave byte isByte]
    · cases isByte
      rfl
  · rename_i isNone
    split at isNone
    · rename_i inside
      rw [List.getElem?_eq_none_iff] at isNone
      omega
    · cases isNone

/-- After a failure an address of the garbage stands where there is room. -/
theorem failed_first
    {addr : Buffer len}
    {errno : Int}
    {first : Byte}
    (nonempty : 0 < len)
    (keeps : call.KeepsContract report addr (.failed errno))
    (isLong : linuxLength family ≠ 0)
    (starts :
      ∀ converted,
        bsdAddrToLinuxAddr (leftover family).bsdAddr
            (leftover family).linuxAddr =
          .ok (converted, linuxLength family) →
        converted.bytes[0]? = some first) :
    addr.bytes[0]? = some first := by
  obtain ⟨converted, converts, _⟩ :=
    @bsdAddrToLinuxAddr_returns (leftover family).bsdAddr family rfl
      (leftover family).linuxAddr
  obtain ⟨done, performs, _, same, _⟩ := keeps (leftover family) 0
  obtain ⟨written, errno', performs', layout⟩ :=
    @perform_spec _ call addr (leftover family) 0 (.failed errno) _ _ _ rfl
      converts (linuxLength_le family)
  cases performs.symm.trans performs'
  cases same
  rw [layout, List.getElem?_append_left, List.getElem?_take,
    if_pos (by omega)]
  · exact starts converted converts
  · rw [List.length_take, converted.sized]
    have := linuxLength_le family
    omega

/-- A call that fails leaves the buffer and its length alone exactly when there
is no room. -/
theorem keepsContract_failed_iff
    {addr : Buffer len}
    {errno : Int} :
    call.KeepsContract report addr (.failed errno) ↔ len = 0 := by
  constructor
  · intro keeps
    by_contra nonempty
    have positive : 0 < len := Nat.pos_of_ne_zero nonempty
    -- the garbage may look like an address of either family
    have inet : addr.bytes[0]? = some 2 := by
      refine @failed_first _ call report 2 addr errno 2 positive keeps
        (by decide) fun converted converts => ?_
      obtain ⟨other, others, starts, _⟩ :=
        @bsdAddrToLinuxAddr_returns (leftover 2).bsdAddr 2 rfl
          (leftover 2).linuxAddr
      cases converts.symm.trans others
      exact starts rfl
    have inet6 : addr.bytes[0]? = some 10 := by
      refine @failed_first _ call report 28 addr errno 10 positive keeps
        (by decide) fun converted converts => ?_
      obtain ⟨other, others, _, starts⟩ :=
        @bsdAddrToLinuxAddr_returns (leftover 28).bsdAddr 28 rfl
          (leftover 28).linuxAddr
      cases converts.symm.trans others
      exact starts rfl
    rw [inet] at inet6
    exact absurd inet6 (by decide)
  · rintro rfl garbage errno'
    obtain ⟨received, family, stores, readFamily, _⟩ :=
      exists_family (.failed errno) garbage
    obtain ⟨converted, converts, _⟩ :=
      bsdAddrToLinuxAddr_returns readFamily garbage.linuxAddr
    obtain ⟨written, after, performs, layout⟩ :=
      @perform_spec _ call addr garbage errno' _ _ _ _ stores converts
        (linuxLength_le family)
    refine ⟨_, performs, rfl, ?_, ?_⟩
    · have same : written = addr := by
        apply Buffer.ext
        rw [layout, Nat.min_zero]
        rfl
      rw [same]
    · cases call <;> first | rfl | exact Nat.min_zero _

/-- A call that succeeds always copies the address, and reports its length
exactly when every length it can have is reported. -/
theorem keepsContract_returned_iff
    {addr : Buffer len}
    {ret : Nat}
    {address : List Byte}
    {fits : address.length ≤ 108} :
    call.KeepsContract report addr (.returned ret address fits) ↔
      ∀ family,
        MayHaveFamily address family →
          call.ReportsLength report (linuxLength family) len := by
  constructor
  · intro keeps family mayHave
    obtain ⟨received, stores, readFamily⟩ :=
      @store_leftover family ret address fits mayHave
    obtain ⟨converted, converts, _⟩ :=
      bsdAddrToLinuxAddr_returns readFamily (leftover family).linuxAddr
    obtain ⟨done, performs, _, promised⟩ := keeps (leftover family) 0
    obtain ⟨written, after, performs', _⟩ :=
      @perform_spec _ call addr (leftover family) 0 _ _ _ _ stores converts
        (linuxLength_le family)
    cases performs.symm.trans performs'
    exact length_eq_iff.mp (promised _ _ _ stores converts).1
  · intro reports garbage errno
    obtain ⟨received, family, stores, readFamily, mayHave⟩ :=
      exists_family (.returned ret address fits) garbage
    obtain ⟨converted, converts, _⟩ :=
      bsdAddrToLinuxAddr_returns readFamily garbage.linuxAddr
    obtain ⟨written, after, performs, layout⟩ :=
      @perform_spec _ call addr garbage errno _ _ _ _ stores converts
        (linuxLength_le family)
    refine ⟨_, performs, rfl, ?_⟩
    intro received' converted' L stores' converts'
    cases stores.symm.trans stores'
    cases converts.symm.trans converts'
    exact ⟨length_eq_iff.mpr (reports family (mayHave _ _ _ rfl)), written,
      rfl, layout⟩

/-- For each way to report a length: a call keeps its contract exactly when the
host succeeds with an address whose length the call reports, or fails and there
is no room. -/
theorem keepsContract_iff_answerable
    (call : AddrCall)
    (report : Report)
    (addr : Buffer len)
    (host : HostAddr) :
    call.KeepsContract report addr host ↔
      call.Answerable report len host := by
  cases host with
  | failed errno => exact keepsContract_failed_iff
  | returned ret address fits => exact keepsContract_returned_iff

/-- A `getsockname` of a closed descriptor clears the caller's length. -/
theorem not_keepsContract_closed :
    ¬ ∃ report : Report,
      ∀ (call : AddrCall) (addr : Buffer 16) (host : HostAddr),
        call.KeepsContract report addr host := by
  rintro ⟨report, keeps⟩
  have nothing := keeps .getsockname (.zeroed 16) (.failed 9)
  exact absurd (keepsContract_failed_iff.mp nothing) (by decide)

end AddrCall

end Hamachi
