import Hamachi.AddressReturns
import Hamachi.ArpReplies
import Hamachi.GlueDevices

namespace Hamachi

/-!
# Calls that would block

A host call that would block fails with the host's number for `EAGAIN`, which
is another one than that of Linux.  Some of the wrappers translate it, each on
its own; others hand it to the Linux program as it is.
-/

/-- `impl_send`, without the data. -/
def implSend (host : HostStatus) : HostStatus where
  ret := host.ret
  errno := linuxEagain host.errno

/-- `impl_recv`, without the data. -/
def implRecv (host : HostStatus) : HostStatus where
  ret := host.ret
  errno := linuxEagain host.errno

/-- `EAGAIN` of the host. -/
def hostEagain : Int := 35

/-- A host call that would block. -/
def hostWouldBlock : HostStatus where
  ret := -1
  errno := hostEagain

/-- What the Linux program is to see of it. -/
def linuxWouldBlock : HostStatus where
  ret := -1
  errno := 11

/-- A call that may block, with its arguments and what it finds in memory. -/
inductive BlockingCall where
  | read {cnt : Nat} (fd : Int) (buf : Buffer cnt)
  | write {cnt : Nat} (fd : Int) (buf : Buffer cnt)
  | send
  | recv
  | sendto {size : Nat} (sa : Buffer size) (garbage : BsdAddr)
  | recvfrom {len : Nat} (sa : Option (Buffer len)) (garbage : Locals)
  | accept {len : Nat} (addr : Option (Buffer len)) (garbage : Locals)

namespace BlockingCall

/-- What the Linux program gets when the host's call, if it is made, would
block. -/
def perform (glue : Glue) : BlockingCall → Except Fault HostStatus
  | .read fd buf => do
      let (glue, _, ret) ← glue.implRead fd buf (.failed hostEagain)
      .ok ⟨ret, glue.errno⟩
  | .write fd buf => do
      -- No function runs after the host's `write` that would store an `errno`.
      let failed := { glue with errno := hostEagain }
      let (glue, ret) ← failed.implWrite fd buf (-1)
      .ok ⟨ret, glue.errno⟩
  | .send =>
      .ok (implSend hostWouldBlock)
  | .recv =>
      .ok (implRecv hostWouldBlock)
  | .sendto sa garbage => do
      let pass ← implSendto sa garbage hostWouldBlock
      .ok ⟨pass.ret, pass.errno⟩
  | .recvfrom sa garbage => do
      let received ← implRecvfrom sa garbage glue.errno (.failed hostEagain)
      .ok ⟨received.ret, received.errno⟩
  | .accept addr garbage => do
      let accepted ← implAccept addr garbage glue.errno (.failed hostEagain)
      .ok ⟨accepted.ret, accepted.errno⟩

/-- The host's call is made: no pending packet answers a read, a write is
neither captured nor dropped, and the address of a `sendto` can be read. -/
def AsksHost (glue : Glue) : BlockingCall → Prop
  | .read fd _ =>
      fd = glue.tunFd → glue.tuntap.fakepktSz = 0
  | .write fd buf =>
      if fd = glue.tunFd then
        ∃ write,
          tuntapWrite glue.tuntap buf (-1) = .ok write ∧
            write.written ≠ none
      else
        ¬ (fd = 1 ∧ glue.isInPopen)
  | .sendto sa garbage =>
      ∃ a l argument,
        linuxAddrToBsdAddr sa garbage = .ok (a, l) ∧
          a.slice 0 l = .ok argument
  | _ => True

/-- The wrapper compares `errno` with the host's `EAGAIN`, and gets there. -/
def Translates : BlockingCall → Prop
  | .send => True
  | .recv => True
  | .sendto _ _ => True
  | .recvfrom sa _ => sa.isSome
  | _ => False

/-- Would-block is reported: where the host's call is made and would block, the
Linux program sees the `EAGAIN` of Linux. -/
def ReportsWouldBlock (glue : Glue) (call : BlockingCall) : Prop :=
  call.AsksHost glue → call.perform glue = .ok linuxWouldBlock

variable {glue : Glue} {cnt len size : Nat}

/-- A read that would block leaves the host's number. -/
theorem perform_read
    {fd : Int}
    {buf : Buffer cnt}
    (asks : (read fd buf).AsksHost glue) :
    (read fd buf).perform glue = .ok hostWouldBlock := by
  by_cases isTun : fd = glue.tunFd
  · have idle := asks isTun
    have reads :
        tuntapRead glue.tuntap buf (.failed hostEagain) =
          .ok ⟨glue.tuntap, buf, -1, some hostEagain⟩ := by
      unfold tuntapRead
      rw [if_neg (not_not.mpr idle)]
    simp only [perform, Glue.implRead, if_pos isTun, reads, ok_bind]
    rfl
  · simp only [perform, Glue.implRead, if_neg isTun, ok_bind]
    rfl

/-- So does a write. -/
theorem perform_write
    {fd : Int}
    {buf : Buffer cnt}
    {status : HostStatus}
    (writes : (write fd buf).perform glue = .ok status) :
    status.errno = hostEagain := by
  obtain ⟨⟨next, ret⟩, calls, isStatus⟩ := bind_eq_ok.mp writes
  have kept : next.errno = hostEagain := by
    unfold Glue.implWrite at calls
    split at calls
    · obtain ⟨tap, _, isNext⟩ := bind_eq_ok.mp calls
      cases isNext
      rfl
    · split at calls <;>
      · cases calls
        rfl
  cases isStatus
  exact kept

/-- An address that can be read goes to the host. -/
theorem perform_sendto
    {sa : Buffer size}
    {garbage : BsdAddr}
    (asks : (sendto sa garbage).AsksHost glue) :
    (sendto sa garbage).perform glue = .ok linuxWouldBlock := by
  obtain ⟨a, l, argument, converts, slices⟩ := asks
  simp only [perform, implSendto, converts, slices, ok_bind]
  rfl

/-- After a failed call there is still an address to convert: what the stack
held. -/
theorem exists_leftover (garbage : Locals) :
    ∃ converted L,
      bsdAddrToLinuxAddr garbage.bsdAddr garbage.linuxAddr =
          .ok (converted, L) ∧
        L ≤ 112 := by
  obtain ⟨converted, converts, _⟩ :=
    bsdAddrToLinuxAddr_returns
      (@Buffer.byteAt_eq _ garbage.bsdAddr 1 (by decide))
      garbage.linuxAddr
  exact ⟨converted, _, converts, AddrCall.linuxLength_le _⟩

/-- With a buffer for the address, `recvfrom` reports that it would block. -/
theorem perform_recvfrom
    (sa : Buffer len)
    (garbage : Locals) :
    (recvfrom (some sa) garbage).perform glue = .ok linuxWouldBlock := by
  obtain ⟨converted, L, converts, fits⟩ := exists_leftover garbage
  obtain ⟨written, returns, _⟩ := returnAddr_spec converts fits sa
  simp only [perform, implRecvfrom, HostAddr.store, ok_bind, returns]
  rfl

/-- `accept` leaves the host's number, with or without a buffer. -/
theorem perform_accept
    (addr : Option (Buffer len))
    (garbage : Locals) :
    (accept addr garbage).perform glue = .ok hostWouldBlock := by
  cases addr with
  | none =>
      rfl
  | some addr =>
      obtain ⟨converted, L, converts, fits⟩ := exists_leftover garbage
      obtain ⟨written, returns, _⟩ := returnAddr_spec converts fits addr
      simp only [perform, implAccept, HostAddr.store, ok_bind, returns]
      rfl

/-- The number of the host is not that of Linux. -/
theorem hostWouldBlock_ne :
    (.ok hostWouldBlock : Except Fault HostStatus) ≠ .ok linuxWouldBlock := by
  intro same
  have sameErrno := congrArg HostStatus.errno (Except.ok.inj same)
  exact absurd sameErrno (by decide)

/-- Would-block is reported exactly by the wrappers that translate it, and by
the others where they do not ask the host. -/
theorem reportsWouldBlock_iff
    (glue : Glue)
    (call : BlockingCall) :
    call.ReportsWouldBlock glue ↔
      (call.AsksHost glue → call.Translates) := by
  refine forall_congr' fun asks => ?_
  cases call with
  | read fd buf =>
      rw [perform_read asks]
      exact iff_of_false hostWouldBlock_ne not_false
  | write fd buf =>
      refine iff_of_false (fun reports => ?_) not_false
      exact absurd (perform_write reports) (by decide)
  | send =>
      exact iff_of_true rfl trivial
  | recv =>
      exact iff_of_true rfl trivial
  | sendto sa garbage =>
      exact iff_of_true (perform_sendto asks) trivial
  | recvfrom sa garbage =>
      cases sa with
      | none =>
          refine iff_of_false (fun reports => ?_) Bool.false_ne_true
          cases reports
      | some sa =>
          exact iff_of_true (perform_recvfrom sa garbage) rfl
  | accept addr garbage =>
      rw [perform_accept]
      exact iff_of_false hostWouldBlock_ne not_false

/-- A read of one byte that would block. -/
theorem not_reportsWouldBlock :
    ¬ ∀ (glue : Glue) (call : BlockingCall),
      call.ReportsWouldBlock glue := by
  intro reports
  have asks :
      (read 5 (Buffer.of [0])).AsksHost Glue.initial := by
    intro isTun
    cases isTun
  have performs := perform_read asks
  rw [reports _ _ asks] at performs
  exact hostWouldBlock_ne performs.symm

end BlockingCall

end Hamachi
