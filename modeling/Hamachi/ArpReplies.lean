import Hamachi.TuntapCalls

namespace Hamachi

/-!
# Replies to ARP requests over whole runs

A node answers an ARP request through its one pending packet, which the next
read returns.  A second request before that read takes the packet over, so of
the requests between two reads the last one is answered.
-/

variable {cnt : Nat}

/-- The bytes of a frame at an offset. -/
def part (frame : List Byte) (offset length : Nat) : List Byte :=
  (frame.drop offset).take length

/-- A frame that `tuntap_write` takes for an ARP packet sent to this node. -/
def IsArpFor (macaddr : Mac) (frame : List Byte) : Prop :=
  42 ≤ frame.length ∧
    (part frame 0 6 = macaddr.bytes ∨ part frame 0 6 = broadcast.bytes) ∧
    part frame 12 2 = [0x08, 0x06] ∧
    part frame 14 7 = [0, 1, 8, 0, 6, 4, 0] ∧
    (part frame 21 1 = [1] ∨ part frame 21 1 = [2])

/-- An accepted ARP request for the address of this node. -/
def AsksFor (macaddr : Mac) (ipaddr : InAddr) (frame : List Byte) : Prop :=
  IsArpFor macaddr frame ∧
    part frame 21 1 = [1] ∧
    part frame 38 4 = (bytes32 ipaddr).bytes

instance (macaddr : Mac) (frame : List Byte) :
    Decidable (IsArpFor macaddr frame) :=
  inferInstanceAs (Decidable (_ ∧ _))

instance (macaddr : Mac) (ipaddr : InAddr) (frame : List Byte) :
    Decidable (AsksFor macaddr ipaddr frame) :=
  inferInstanceAs (Decidable (_ ∧ _))

/-- The reply that an accepted request is owed. -/
def replyTo
    (macaddr : Mac)
    (ipaddr : InAddr)
    (frame : List Byte) :
    Option (List Byte) :=
  if AsksFor macaddr ipaddr frame then
    some (part frame 6 6 ++ macaddr.bytes ++ [0x08, 0x06] ++
      [0, 1, 8, 0, 6, 4, 0, 2] ++ macaddr.bytes ++ (bytes32 ipaddr).bytes ++
      part frame 6 6 ++ part frame 28 4)
  else
    none

/-- One call on a node; reads leave room for an ARP packet. -/
inductive TapCall where
  | write (frame : List Byte) (hostWrite : Int)
  | read
      {cnt : Nat}
      (room : 42 ≤ cnt)
      (buf : Buffer cnt)
      (host : HostRead cnt)

namespace TapCall

def isWrite : TapCall → Bool
  | .write _ _ => true
  | .read _ _ _ => false

/-- The reply owed for a call. -/
def owes (macaddr : Mac) (ipaddr : InAddr) : TapCall → Option (List Byte)
  | .write frame _ => replyTo macaddr ipaddr frame
  | .read _ _ _ => none

end TapCall

/-- The replies owed for the calls before the next read. -/
def owedBeforeRead
    (macaddr : Mac)
    (ipaddr : InAddr)
    (calls : List TapCall) :
    List (List Byte) :=
  (calls.takeWhile TapCall.isWrite).filterMap (TapCall.owes macaddr ipaddr)

/-- The replies that are not taken over by a later request. -/
def answered (macaddr : Mac) (ipaddr : InAddr) : List TapCall → List (List Byte)
  | [] => []
  | call :: rest =>
      match call.owes macaddr ipaddr with
      | none => answered macaddr ipaddr rest
      | some reply =>
          if (owedBeforeRead macaddr ipaddr rest).isEmpty then
            reply :: answered macaddr ipaddr rest
          else
            answered macaddr ipaddr rest

/-- The pending packet of a node is `reply`, if there is one. -/
def Pending (tap : Tuntap) : Option (List Byte) → Prop
  | none => tap.fakepktSz = 0
  | some reply =>
      tap.fakepktSz = 42 ∧ tap.fakepkt.bytes.take 42 = reply

section Write

variable
  {tap : Tuntap}
  {buf : Buffer cnt}

/-- Slices are parts of the frame. -/
theorem slice_part
    (buf : Buffer cnt)
    (offset length : Nat)
    (inside : offset + length ≤ cnt) :
    ∃ slice,
      buf.slice offset length = .ok slice ∧
        slice.bytes = part buf.bytes offset length :=
  Buffer.slice_inside buf offset length inside

/-- Two buffers of a size differ when their bytes do. -/
theorem Buffer.bytes_inj
    {size : Nat}
    {first second : Buffer size} :
    first.bytes = second.bytes ↔ first = second :=
  ⟨Buffer.ext, congrArg Buffer.bytes⟩

/-- A byte in bounds is a part of length one. -/
theorem byteAt_part
    (buf : Buffer cnt)
    (index : Nat)
    (inside : index < cnt) :
    ∃ byte,
      buf.byteAt index = .ok byte ∧
        part buf.bytes index 1 = [byte] := by
  have bound : index < buf.bytes.length :=
    buf.sized.symm ▸ inside
  refine ⟨_, Buffer.byteAt_eq inside, ?_⟩
  rw [part, List.drop_eq_getElem_cons bound]
  rfl

/-- `is_arp` decides the fixed part of an ARP packet. -/
theorem isArp_part (complete : 42 ≤ cnt) :
    isArp buf 14 =
      .ok (decide (part buf.bytes 14 7 = [0, 1, 8, 0, 6, 4, 0] ∧
        (part buf.bytes 21 1 = [1] ∨ part buf.bytes 21 1 = [2]))) := by
  obtain ⟨fixed, readFixed, fixedPart⟩ :=
    slice_part buf 14 7 (by omega)
  obtain ⟨q7, readQ7, q7Part⟩ :=
    byteAt_part buf 21 (by omega)
  unfold isArp
  rw [readFixed, readQ7, ← fixedPart, q7Part]
  simp [pure, Except.pure, Bool.decide_and, Bool.decide_or]

/-- `tuntap_write` reaches the ARP branch exactly for `IsArpFor` frames and
leaves the node alone otherwise. -/
theorem tuntapWrite_cases
    (tap : Tuntap)
    (buf : Buffer cnt)
    (hostWrite : Int) :
    (IsArpFor tap.macaddr buf.bytes ∧
      tuntapWrite tap buf hostWrite =
        receiveArp tap buf >>= fun tap =>
          .ok { tap := tap, written := none, ret := cnt }) ∨
    (¬ IsArpFor tap.macaddr buf.bytes ∧
      ∃ write,
        tuntapWrite tap buf hostWrite = .ok write ∧ write.tap = tap) := by
  have sized := buf.sized
  by_cases short : cnt < 14
  · refine .inr ⟨fun arp => absurd arp.1 (by omega), ?_⟩
    unfold tuntapWrite
    rw [if_pos short]
    exact ⟨_, rfl, rfl⟩
  obtain ⟨dst, readDst, dstPart⟩ :=
    slice_part buf 0 6 (by omega)
  obtain ⟨protocol, readProtocol, protocolPart⟩ :=
    slice_part buf 12 2 (by omega)
  by_cases others : dst ≠ tap.macaddr ∧ dst ≠ broadcast
  · refine .inr ⟨?_, ?_⟩
    · rintro ⟨_, forUs, _⟩
      rw [← dstPart, Buffer.bytes_inj, Buffer.bytes_inj] at forUs
      tauto
    · unfold tuntapWrite
      rw [if_neg short, readDst, ok_bind, if_pos others]
      exact ⟨_, rfl, rfl⟩
  by_cases isIp : protocol.bytes = [0x08, 0x00]
  · obtain ⟨payload, readPayload, _⟩ :=
      slice_part buf 14 (cnt - 14)
        (by omega)
    refine .inr ⟨?_, ?_⟩
    · rintro ⟨_, _, isArpProtocol, _⟩
      rw [← protocolPart, isIp] at isArpProtocol
      exact absurd isArpProtocol (by decide)
    · unfold tuntapWrite
      rw [if_neg short, readDst, ok_bind, if_neg others, readProtocol,
        ok_bind, if_pos isIp, readPayload]
      exact ⟨_, rfl, rfl⟩
  have reached :
      tuntapWrite tap buf hostWrite =
        if protocol.bytes = [0x08, 0x06] then
          if cnt < 42 then
            .ok { tap := tap, written := none, ret := cnt }
          else do
            if ← isArp buf 14 then
              let tap ← receiveArp tap buf
              .ok { tap := tap, written := none, ret := cnt }
            else
              .ok { tap := tap, written := none, ret := cnt }
        else
          .ok { tap := tap, written := none, ret := cnt } := by
    unfold tuntapWrite
    rw [if_neg short, readDst, ok_bind, if_neg others, readProtocol,
      ok_bind, if_neg isIp]
  rw [reached]
  by_cases isArpProtocol : protocol.bytes = [0x08, 0x06]
  · rw [if_pos isArpProtocol]
    by_cases incomplete : cnt < 42
    · rw [if_pos incomplete]
      exact .inr ⟨fun arp => absurd arp.1 (by omega), _, rfl, rfl⟩
    · rw [if_neg incomplete, isArp_part (by omega), ok_bind]
      have forUs :
          part buf.bytes 0 6 = tap.macaddr.bytes ∨
            part buf.bytes 0 6 = broadcast.bytes := by
        rw [← dstPart, Buffer.bytes_inj, Buffer.bytes_inj]
        tauto
      by_cases fixed :
          part buf.bytes 14 7 = [0, 1, 8, 0, 6, 4, 0] ∧
            (part buf.bytes 21 1 = [1] ∨ part buf.bytes 21 1 = [2])
      · refine .inl ⟨⟨by omega, forUs, ?_, fixed⟩, ?_⟩
        · exact protocolPart.symm.trans isArpProtocol
        · rw [decide_eq_true fixed]
          rfl
      · refine .inr ⟨?_, ?_⟩
        · rintro ⟨_, _, _, isFixed⟩
          exact fixed isFixed
        · rw [decide_eq_false fixed]
          exact ⟨_, rfl, rfl⟩
  · rw [if_neg isArpProtocol]
    refine .inr ⟨?_, _, rfl, rfl⟩
    rintro ⟨_, _, isProtocol, _⟩
    exact isArpProtocol (protocolPart.trans isProtocol)

/-- The reply owed for a request, as a frame. -/
theorem replyTo_eq_arpFrame
    {macaddr source : Mac}
    {ipaddr : InAddr}
    {sender : Buffer 4}
    {frame : List Byte}
    (asked : AsksFor macaddr ipaddr frame)
    (sourcePart : source.bytes = part frame 6 6)
    (senderPart : sender.bytes = part frame 28 4) :
    replyTo macaddr ipaddr frame =
      some (arpFrame 2 source macaddr source ipaddr (word32 sender)) := by
  rw [replyTo, if_pos asked]
  simp [arpFrame, etherHeader, arpPacket, ← sourcePart, ← senderPart,
    bytes32_word32]

/-- The condition of the reply branch, on the bytes of an ARP packet. -/
theorem asksFor_part
    {target : Buffer 4}
    (isArpFor : IsArpFor tap.macaddr buf.bytes)
    (q7Part : part buf.bytes 21 1 = [q7])
    (targetPart : target.bytes = part buf.bytes 38 4) :
    (q7 = 1 ∧ word32 target = tap.ipaddr) ↔
      AsksFor tap.macaddr tap.ipaddr buf.bytes := by
  rw [AsksFor, and_iff_right isArpFor, q7Part, ← targetPart,
    Buffer.bytes_inj, List.cons.injEq, and_iff_left rfl]
  refine and_congr_right fun _ => ⟨?_, ?_⟩
  · rintro address
    rw [← address, bytes32_word32]
  · rintro rfl
    exact word32_bytes32 _

/-- A write to the tap always returns and leaves the addresses alone. It
leaves the reply it owes pending, and the pending packet alone when it owes
none. -/
theorem tuntapWrite_replies
    (tap : Tuntap)
    (buf : Buffer cnt)
    (hostWrite : Int) :
    ∃ write,
      tuntapWrite tap buf hostWrite = .ok write ∧
        SameNode tap write.tap ∧
        match replyTo tap.macaddr tap.ipaddr buf.bytes with
        | some reply => Pending write.tap (some reply)
        | none =>
            write.tap.fakepktSz = tap.fakepktSz ∧
              write.tap.fakepkt = tap.fakepkt := by
  rcases tuntapWrite_cases tap buf hostWrite with
    ⟨isArpFor, writes⟩ | ⟨notArp, write, writes, unchanged⟩
  · have complete : 42 ≤ cnt := by
      have := isArpFor.1
      rwa [buf.sized] at this
    obtain ⟨sender, readSender, senderPart⟩ :=
      slice_part buf 28 4 (by omega)
    obtain ⟨senderMac, readSenderMac, _⟩ := slice_part buf 22 6 (by omega)
    obtain ⟨q7, readQ7, q7Part⟩ := byteAt_part buf 21 (by omega)
    obtain ⟨target, readTarget, targetPart⟩ :=
      slice_part buf 38 4 (by omega)
    obtain ⟨source, readSource, sourcePart⟩ := slice_part buf 6 6 (by omega)
    obtain ⟨changed, receives, same, _, replied⟩ :=
      receiveArp_spec tap readSender readSenderMac readQ7 readTarget
        readSource
    have asks := asksFor_part isArpFor q7Part targetPart
    refine ⟨⟨changed, none, cnt⟩, ?_, same, ?_⟩
    · rw [writes, receives]
      rfl
    by_cases asked : AsksFor tap.macaddr tap.ipaddr buf.bytes
    · rw [if_pos (asks.mpr asked)] at replied
      rw [replyTo_eq_arpFrame asked sourcePart senderPart]
      exact replied
    · rw [if_neg (asks.not.mpr asked)] at replied
      rw [replyTo, if_neg asked]
      exact replied
  · refine ⟨write, writes, unchanged ▸ ⟨rfl, rfl, rfl⟩, ?_⟩
    rw [replyTo, if_neg fun asked => notArp asked.1, unchanged]
    exact ⟨rfl, rfl⟩

/-- A write to the tap always returns. -/
theorem tuntapWrite_returns
    (tap : Tuntap)
    (buf : Buffer cnt)
    (hostWrite : Int) :
    ∃ write, tuntapWrite tap buf hostWrite = .ok write := by
  obtain ⟨write, writes, _⟩ := tuntapWrite_replies tap buf hostWrite
  exact ⟨write, writes⟩

end Write

section Read

variable {tap : Tuntap}

/-- The part in the middle of a frame. -/
theorem part_middle
    (before middle after : List Byte) :
    part (before ++ middle ++ after) before.length middle.length =
      middle := by
  simp [part]

/-- The protocol of a frame. -/
theorem part_protocol
    (dst src : Mac)
    (kind : BitVec 16)
    (payload : List Byte) :
    part (etherHeader dst src kind ++ payload) 12 2 =
      [(kind >>> 8).setWidth 8, kind.setWidth 8] := by
  have front : (dst.bytes ++ src.bytes).length = 12 := by
    rw [List.length_append, dst.sized, src.sized]
  have middle := part_middle (dst.bytes ++ src.bytes)
    [(kind >>> 8).setWidth 8, kind.setWidth 8] payload
  rw [front] at middle
  simpa [etherHeader] using middle

end Read

section Run

/-- The node `192.168.0.2`. -/
def answeringNode : Tuntap :=
  .configured (.of [2, 0, 0, 0, 0, 2]) 0x0200a8c0 0xff00a8c0

/-- A request of `192.168.0.1`. -/
def firstRequest : List Byte :=
  arpFrame 1 broadcast (.of [2, 0, 0, 0, 0, 1]) unknown
    0x0100a8c0 0x0200a8c0

end Run

end Hamachi
