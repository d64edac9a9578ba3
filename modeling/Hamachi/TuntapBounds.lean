import Hamachi.ArpReplies
import Hamachi.Runs

namespace Hamachi

/-!
# Bounds and results of the tap calls

A buffer of the model has exactly `cnt` bytes and an access beyond them is a
fault, so a call that returns has stayed inside.  That the result of a read is
the same whatever the buffer held before says that only delivered bytes are
looked at.
-/

variable {cnt : Nat}

/-- A call of a function of `tuntap.c`. -/
inductive NodeCall where
  | setHwaddr (m : Mac)
  | setIpaddr (i : InAddr)
  | setBrdaddr (b : InAddr)
  | read {cnt : Nat} (buf : Buffer cnt) (host : HostRead cnt)
  | write {cnt : Nat} (buf : Buffer cnt) (hostWrite : Int)

/-- Perform a call. -/
def NodeCall.perform (tap : Tuntap) : NodeCall → Except Fault Tuntap
  | .setHwaddr m => .ok { tap with macaddr := m }
  | .setIpaddr i => .ok { tap with ipaddr := i }
  | .setBrdaddr b => .ok { tap with brdaddr := b }
  | .read buf host => do
      let read ← tuntapRead tap buf host
      return read.tap
  | .write buf hostWrite => do
      let write ← tuntapWrite tap buf hostWrite
      return write.tap

namespace Tuntap

/-- The statics at program start. -/
def loaded : Tuntap :=
  .configured (.of (List.replicate 6 0)) 0 0

/-- A completed call. -/
def Step (tap : Tuntap) (call : NodeCall) (next : Tuntap) : Prop :=
  call.perform tap = .ok next

/-- The results of a read: those of `ReadOutcome`, or the length of a prefix of
the pending packet. -/
inductive ReadResult
    (tap : Tuntap)
    (host : HostRead cnt)
    (read : TuntapRead cnt) : Prop where
  | idle
      (outcome : ReadOutcome tap host read)
  | pending
      (length : Nat)
      (isPending : length ≤ tap.fakepktSz)
      (ret : read.ret = length)
      (frame : read.frame = tap.fakepkt.bytes.take length)

/-- What a read keeps to, for every result of the host. -/
structure ReadDiscipline (tap : Tuntap) (host : HostRead cnt) : Prop where
  returns :
    ∃ ret frame,
      ret ≤ (cnt : Int) ∧
        ∀ buf : Buffer cnt,
          ∃ read,
            tuntapRead tap buf host = .ok read ∧
              read.ret = ret ∧
              read.frame = frame ∧
              ReadResult tap host read
  addresses :
    ∀ data fits,
      host = .returned data fits →
      20 ≤ data.length →
      ∀ buf received : Buffer cnt,
        buf.overwrite 0 data = .ok received →
          received.slice 12 4 = (Buffer.of data).slice 12 4 ∧
            received.slice 16 4 = (Buffer.of data).slice 16 4
  shortUnread :
    ∀ data fits,
      tap.fakepktSz = 0 →
      host = .returned data fits →
      data.length < 20 →
      ∀ buf : Buffer cnt,
        ∃ received : Buffer cnt,
          tuntapRead tap buf host =
            .ok (if data.length = 0 then
              { tap := tap, buf := received, ret := 0, errno := none }
            else
              skipPacket tap received)

/-- What a write keeps to. -/
def WriteDiscipline
    (tap : Tuntap)
    (buf : Buffer cnt)
    (hostWrite : Int) : Prop :=
  ∃ write,
    tuntapWrite tap buf hostWrite = .ok write ∧
      (write.tap.fakepktSz = tap.fakepktSz ∨ write.tap.fakepktSz = 42)

variable {tap : Tuntap}

/-- The result of a read is no larger than its buffer. -/
theorem readOutcome_le
    {host : HostRead cnt}
    {read : TuntapRead cnt}
    (outcome : ReadOutcome tap host read) :
    read.ret ≤ cnt := by
  cases outcome with
  | failed errno isFailed ret stored =>
      omega
  | empty isEmpty ret =>
      omega
  | skipped ret stored =>
      omega
  | requested packet isPacket room ret frame =>
      omega
  | encapsulated packet dstMac isPacket room ret frame =>
      omega

theorem readDiscipline
    (held : tap.fakepktSz ≤ 65536)
    (host : HostRead cnt) :
    tap.ReadDiscipline host where
  returns := by
    by_cases idle : tap.fakepktSz = 0
    · obtain ⟨ret, frame, outcome⟩ := tuntapRead_outcome host idle
      refine ⟨ret, frame, ?_, fun buf => ?_⟩
      · obtain ⟨read, _, _, isRet, _, ends⟩ :=
          outcome ⟨List.replicate cnt 0, List.length_replicate⟩
        exact isRet ▸ readOutcome_le ends
      · obtain ⟨read, reads, _, isRet, isFrame, ends⟩ := outcome buf
        exact ⟨read, reads, isRet, isFrame, .idle ends⟩
    · refine ⟨(min tap.fakepktSz cnt : Nat),
        tap.fakepkt.bytes.take (min tap.fakepktSz cnt), by omega,
        fun buf => ?_⟩
      obtain ⟨read, reads, _, ret, frame⟩ :=
        tuntapRead_prefix tap buf host idle held
      exact ⟨read, reads, ret, frame,
        .pending _ (Nat.min_le_left ..) ret frame⟩
  addresses := by
    rintro data fits - long buf received writes
    have source := Buffer.slice_overwrite_inside writes
      (show 12 + 4 ≤ data.length by omega)
    have destination := Buffer.slice_overwrite_inside writes
      (show 16 + 4 ≤ data.length by omega)
    rw [Nat.zero_add] at source destination
    exact ⟨source, destination⟩
  shortUnread := by
    rintro data fits idle rfl short buf
    obtain ⟨received, writes, _⟩ := Buffer.overwrite_start buf data fits
    refine ⟨received, ?_⟩
    unfold tuntapRead
    rw [if_neg (not_not.mpr idle)]
    simp only [writes, ok_bind]
    split
    · rfl
    · unfold encapsulate
      rw [if_pos short]

theorem writeDiscipline
    (tap : Tuntap)
    (buf : Buffer cnt)
    (hostWrite : Int) :
    tap.WriteDiscipline buf hostWrite := by
  obtain ⟨write, writes, _, replied⟩ :=
    tuntapWrite_replies tap buf hostWrite
  refine ⟨write, writes, ?_⟩
  split at replied
  · exact .inr replied.1
  · exact .inl replied.1

/-- The pending packet is part of the array that holds it. -/
def Held (tap : Tuntap) : Prop :=
  tap.fakepktSz ≤ 65536

/-- A read removes the pending packet, or leaves it alone. -/
theorem tuntapRead_fakepktSz
    {cnt : Nat}
    {buf : Buffer cnt}
    {host : HostRead cnt}
    {read : TuntapRead cnt}
    (held : tap.Held)
    (reads : tuntapRead tap buf host = .ok read) :
    read.tap.fakepktSz = 0 ∨ read.tap.fakepktSz = tap.fakepktSz := by
  by_cases idle : tap.fakepktSz = 0
  · obtain ⟨_, _, outcome⟩ := tuntapRead_outcome host idle
    obtain ⟨other, otherReads, sameTap, _⟩ := outcome buf
    cases reads.symm.trans otherReads
    exact .inr (sameTap ▸ rfl)
  · obtain ⟨other, otherReads, drained, _⟩ :=
      tuntapRead_prefix tap buf host idle held
    cases reads.symm.trans otherReads
    exact .inl (drained ▸ rfl)

/-- Every call keeps the pending packet inside its array. -/
theorem Held.step
    {next : Tuntap}
    {call : NodeCall}
    (held : tap.Held)
    (step : tap.Step call next) :
    next.Held := by
  cases call with
  | setHwaddr m =>
      cases step
      exact held
  | setIpaddr i =>
      cases step
      exact held
  | setBrdaddr b =>
      cases step
      exact held
  | read buf host =>
      obtain ⟨read, reads, isNext⟩ := bind_eq_ok.mp step
      cases isNext
      rcases tuntapRead_fakepktSz held reads with drained | same
      · exact drained.trans_le (Nat.zero_le _)
      · exact same.trans_le held
  | write buf hostWrite =>
      obtain ⟨write, writes, isNext⟩ := bind_eq_ok.mp step
      cases isNext
      obtain ⟨other, otherWrites, outcome⟩ :=
        writeDiscipline tap buf hostWrite
      cases writes.symm.trans otherWrites
      rcases outcome with same | replied
      · exact same.trans_le held
      · exact replied.trans_le (by decide)

/-- From every state whose pending packet is part of its array, and in every
state that calls lead to, reads and writes of every size stay inside their
buffer and return what they should. -/
theorem disciplined_of_run
    {start : Tuntap}
    {calls : List NodeCall}
    (held : start.Held)
    (run : Run Step start calls tap) :
    (∀ {cnt : Nat} (host : HostRead cnt), tap.ReadDiscipline host) ∧
      ∀ {cnt : Nat} (buf : Buffer cnt) (hostWrite : Int),
        tap.WriteDiscipline buf hostWrite := by
  have stillHeld : tap.Held :=
    run.invariant (fun held step => held.step step) held
  exact ⟨fun host => readDiscipline stillHeld host,
    fun buf hostWrite => writeDiscipline tap buf hostWrite⟩

/-- A node that was given its addresses and then received a request for its
MAC. -/
theorem disciplined_configured :
    ∃ tap,
      Run Step loaded
          [.setHwaddr (.of [2, 0, 0, 0, 0, 2]), .setIpaddr 0x0200a8c0,
            .setBrdaddr 0xff00a8c0, .write (.of firstRequest) 0]
          tap ∧
        tap.fakepktSz = 42 ∧
        (∀ {cnt : Nat} (host : HostRead cnt), tap.ReadDiscipline host) ∧
        ∀ {cnt : Nat} (buf : Buffer cnt) (hostWrite : Int),
          tap.WriteDiscipline buf hostWrite := by
  obtain ⟨write, writes, -, replied⟩ :=
    tuntapWrite_replies answeringNode (.of firstRequest) 0
  have receives :
      Step answeringNode (.write (.of firstRequest) 0) write.tap := by
    rw [Step, NodeCall.perform, writes]
    rfl
  have run :
      Run Step loaded
        [.setHwaddr (.of [2, 0, 0, 0, 0, 2]), .setIpaddr 0x0200a8c0,
          .setBrdaddr 0xff00a8c0, .write (.of firstRequest) 0]
        write.tap :=
    .cons _ _ rfl (.cons _ _ rfl (.cons _ _ rfl
      (.cons _ _ receives (.nil _))))
  have held : loaded.Held := Nat.zero_le _
  obtain ⟨reads, wrote⟩ := disciplined_of_run held run
  exact ⟨_, run, replied.1, reads, wrote⟩

end Tuntap

end Hamachi
