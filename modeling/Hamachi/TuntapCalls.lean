import Hamachi.TuntapFrames

namespace Hamachi

/-!
# What one read or write of the tap does

One lemma for each way a call can go, in terms of the frame layouts.
-/

variable {cnt : Nat}

/-- The frame that a successful read hands to the Linux program. -/
def TuntapRead.frame (read : TuntapRead cnt) : List Byte :=
  read.buf.bytes.take read.ret.toNat

section Read

variable
  {tap : Tuntap}
  {buf : Buffer cnt}

/-- A pending packet is returned as far as it fits, and is then no longer
pending. -/
theorem tuntapRead_prefix
    (tap : Tuntap)
    (buf : Buffer cnt)
    (host : HostRead cnt)
    (pending : tap.fakepktSz ≠ 0)
    (inside : tap.fakepktSz ≤ 65536) :
    ∃ read,
      tuntapRead tap buf host = .ok read ∧
        read.tap = { tap with fakepktSz := 0 } ∧
        read.ret = (min tap.fakepktSz cnt : Nat) ∧
        read.frame = tap.fakepkt.bytes.take (min tap.fakepktSz cnt) := by
  obtain ⟨packet, slices, packetBytes⟩ :=
    Buffer.slice_inside tap.fakepkt 0 (min tap.fakepktSz cnt) (by omega)
  obtain ⟨written, writes, layout⟩ :=
    Buffer.overwrite_start buf packet.bytes
      (by rw [packet.sized]; exact Nat.min_le_right ..)
  let read : TuntapRead cnt := {
    tap := { tap with fakepktSz := 0 }
    buf := written
    ret := (min tap.fakepktSz cnt : Nat)
    errno := none
  }
  refine ⟨read, ?_, rfl, rfl, ?_⟩
  · unfold tuntapRead
    rw [if_pos pending]
    simp only [slices, writes, ok_bind]
    rfl
  · have front :
        written.bytes.take (min tap.fakepktSz cnt) = packet.bytes := by
      rw [layout]
      exact List.take_left' packet.sized
    exact front.trans (by rw [packetBytes, List.drop_zero])

/-- A pending packet that fits is returned whole. -/
theorem tuntapRead_pending
    (tap : Tuntap)
    (buf : Buffer cnt)
    (host : HostRead cnt)
    (pending : tap.fakepktSz ≠ 0)
    (inside : tap.fakepktSz ≤ 65536)
    (room : tap.fakepktSz ≤ cnt) :
    ∃ read,
      tuntapRead tap buf host = .ok read ∧
        read.tap = { tap with fakepktSz := 0 } ∧
        read.ret = tap.fakepktSz ∧
        read.frame = tap.fakepkt.bytes.take tap.fakepktSz := by
  have reads := tuntapRead_prefix tap buf host pending inside
  rwa [Nat.min_eq_left room] at reads

/-- With nothing pending, a read of an IP packet goes on with the packet. -/
theorem tuntapRead_packet
    {packet : IpPacket}
    (buf : Buffer cnt)
    (fits : packet.bytes.length ≤ cnt)
    (idle : tap.fakepktSz = 0) :
    ∃ received,
      received.bytes =
          packet.bytes ++ buf.bytes.drop packet.bytes.length ∧
        tuntapRead tap buf (.returned packet.bytes fits) =
          encapsulate tap received packet.bytes.length := by
  obtain ⟨received, writes, layout⟩ :=
    Buffer.overwrite_start buf packet.bytes fits
  have nonempty : packet.bytes.length ≠ 0 := by
    rw [packet.bytes_length]
    omega
  refine ⟨received, layout, ?_⟩
  simp [tuntapRead, idle, writes, nonempty]

/-- The source field of a received packet. -/
theorem slice_src
    {packet : IpPacket}
    {rest : List Byte}
    (holds : buf.bytes = packet.bytes ++ rest) :
    buf.slice 12 4 = .ok (bytes32 packet.src) :=
  Buffer.slice_eq packet.front.bytes (bytes32 packet.src)
    ((bytes32 packet.dst).bytes ++ packet.body ++ rest)
    (by simp [holds, IpPacket.bytes])
    packet.front.sized

/-- The destination field of a received packet. -/
theorem slice_dst
    {packet : IpPacket}
    {rest : List Byte}
    (holds : buf.bytes = packet.bytes ++ rest) :
    buf.slice 16 4 = .ok (bytes32 packet.dst) :=
  Buffer.slice_eq (packet.front.bytes ++ (bytes32 packet.src).bytes)
    (bytes32 packet.dst) (packet.body ++ rest)
    (by simp [holds, IpPacket.bytes])
    (by rw [List.length_append, packet.front.sized,
      (bytes32 packet.src).sized])

/-- A packet for an unknown destination becomes an ARP request. -/
theorem tuntapRead_unknown
    (buf : Buffer cnt)
    {packet : IpPacket}
    (fits : packet.bytes.length ≤ cnt)
    (room : 42 ≤ cnt)
    (idle : tap.fakepktSz = 0)
    (isUnknown : tap.getMacForIpMbbr packet.dst = none) :
    ∃ read,
      tuntapRead tap buf (.returned packet.bytes fits) = .ok read ∧
        read.tap = tap ∧
        read.ret = 42 ∧
        read.frame =
          arpFrame 1 broadcast tap.macaddr unknown
            packet.src packet.dst := by
  obtain ⟨received, holds, continues⟩ :=
    tuntapRead_packet buf fits idle
  have long : ¬ packet.bytes.length < 20 := by
    rw [packet.bytes_length]
    omega
  obtain ⟨written, writes, layout⟩ :=
    Buffer.overwrite_start received
      (arpFrame 1 broadcast tap.macaddr unknown packet.src packet.dst)
      (by rwa [arpFrame_length])
  rw [← arpFrame_eq] at writes
  let read : TuntapRead cnt :=
    { tap := tap, buf := written, ret := 42, errno := none }
  refine ⟨read, ?_, rfl, rfl, ?_⟩
  · rw [continues]
    unfold encapsulate
    rw [if_neg long, slice_src holds, slice_dst holds]
    simp only [ok_bind, word32_bytes32, isUnknown,
      if_neg (not_lt.mpr room), ← bind_assoc]
    rw [writes]
    rfl
  · change written.bytes.take 42 = _
    rw [layout]
    exact List.take_left' (arpFrame_length ..)

/-- A packet for a known destination is encapsulated. -/
theorem tuntapRead_known
    (buf : Buffer cnt)
    {packet : IpPacket}
    {dstMac : Mac}
    (fits : packet.bytes.length ≤ cnt)
    (room : packet.bytes.length + 14 ≤ cnt)
    (idle : tap.fakepktSz = 0)
    (isKnown : tap.getMacForIpMbbr packet.dst = some dstMac) :
    ∃ read,
      tuntapRead tap buf (.returned packet.bytes fits) = .ok read ∧
        read.tap = tap ∧
        read.ret = packet.bytes.length + 14 ∧
        read.frame =
          etherHeader dstMac tap.macaddr 0x0800 ++ packet.bytes := by
  obtain ⟨received, holds, continues⟩ :=
    tuntapRead_packet buf fits idle
  have long : ¬ packet.bytes.length < 20 := by
    rw [packet.bytes_length]
    omega
  obtain ⟨shifted, shifts, moved⟩ :=
    shiftUp_bytes received room
  obtain ⟨written, writes, layout⟩ :=
    Buffer.overwrite_start shifted
      (etherHeader dstMac tap.macaddr 0x0800)
      (by rw [etherHeader_length]; omega)
  rw [← ethernetHeader_eq] at writes
  let read : TuntapRead cnt := {
    tap := tap
    buf := written
    ret := packet.bytes.length + 14
    errno := none
  }
  refine ⟨read, ?_, rfl, rfl, ?_⟩
  · rw [continues]
    unfold encapsulate
    rw [if_neg long, slice_src holds, slice_dst holds]
    simp only [ok_bind, word32_bytes32, isKnown,
      if_neg (not_lt.mpr room), shifts, writes]
    rfl
  · change written.bytes.take (packet.bytes.length + 14) = _
    have front : (received.bytes.take 14).length = 14 := by
      rw [List.length_take, received.sized]
      omega
    rw [layout, etherHeader_length, moved, List.append_assoc,
      List.drop_left' front, holds, List.take_left' rfl,
      ← List.append_assoc]
    apply List.take_left'
    rw [List.length_append, etherHeader_length, Nat.add_comm]

/-- How a read with nothing pending can end: the host's own result, an
`EAGAIN`, or a complete frame. -/
inductive ReadOutcome
    (tap : Tuntap)
    (host : HostRead cnt)
    (read : TuntapRead cnt) : Prop where
  | failed
      (errno : Int)
      (isFailed : host = .failed errno)
      (ret : read.ret = -1)
      (stored : read.errno = some errno)
  | empty
      (isEmpty : ∃ fits, host = .returned [] fits)
      (ret : read.ret = 0)
  | skipped
      (ret : read.ret = -1)
      (stored : read.errno = some 11)
  | requested
      (packet : IpPacket)
      (isPacket : ∃ fits, host = .returned packet.bytes fits)
      (room : 42 ≤ cnt)
      (ret : read.ret = 42)
      (frame :
        read.frame =
          arpFrame 1 broadcast tap.macaddr unknown packet.src packet.dst)
  | encapsulated
      (packet : IpPacket)
      (dstMac : Mac)
      (isPacket : ∃ fits, host = .returned packet.bytes fits)
      (room : packet.bytes.length + 14 ≤ cnt)
      (ret : read.ret = packet.bytes.length + 14)
      (frame :
        read.frame =
          etherHeader dstMac tap.macaddr 0x0800 ++ packet.bytes)

/-- With nothing pending a read always returns, leaves the node alone, and
returns the same whatever the buffer held before. -/
theorem tuntapRead_outcome
    (host : HostRead cnt)
    (idle : tap.fakepktSz = 0) :
    ∃ ret frame,
      ∀ buf : Buffer cnt,
        ∃ read,
          tuntapRead tap buf host = .ok read ∧
            read.tap = tap ∧
            read.ret = ret ∧
            read.frame = frame ∧
            ReadOutcome tap host read := by
  cases host with
  | failed errno =>
      refine ⟨-1, [], fun buf => ⟨⟨tap, buf, -1, some errno⟩, ?_, rfl, rfl,
        rfl, .failed errno rfl rfl rfl⟩⟩
      simp [tuntapRead, idle]
  | returned data fits =>
      by_cases short : data.length < 20
      · by_cases empty : data.length = 0
        · obtain rfl := List.eq_nil_of_length_eq_zero empty
          refine ⟨0, [], fun buf => ?_⟩
          obtain ⟨received, writes, _⟩ :=
            Buffer.overwrite_start buf [] fits
          refine ⟨⟨tap, received, 0, none⟩, ?_, rfl, rfl, rfl,
            .empty ⟨fits, rfl⟩ rfl⟩
          simp [tuntapRead, idle, writes]
        · refine ⟨-1, [], fun buf => ?_⟩
          obtain ⟨received, writes, _⟩ :=
            Buffer.overwrite_start buf data fits
          refine ⟨skipPacket tap received, ?_, rfl, rfl, rfl,
            .skipped rfl rfl⟩
          simp [tuntapRead, idle, writes, empty, encapsulate, short]
      · obtain ⟨packet, rfl⟩ :=
          IpPacket.exists_of_length (not_lt.mp short)
        have skips
            (noFrame :
              ∀ received : Buffer cnt,
                (∃ rest, received.bytes = packet.bytes ++ rest) →
                  encapsulate tap received packet.bytes.length =
                    .ok (skipPacket tap received)) :
            ∃ ret frame,
              ∀ buf : Buffer cnt,
                ∃ read,
                  tuntapRead tap buf (.returned packet.bytes fits) =
                      .ok read ∧
                    read.tap = tap ∧
                    read.ret = ret ∧
                    read.frame = frame ∧
                    ReadOutcome tap (.returned packet.bytes fits) read := by
          refine ⟨-1, [], fun buf => ?_⟩
          obtain ⟨received, holds, continues⟩ :=
            tuntapRead_packet buf fits idle
          exact ⟨skipPacket tap received,
            continues.trans (noFrame received ⟨_, holds⟩), rfl, rfl, rfl,
            .skipped rfl rfl⟩
        cases known : tap.getMacForIpMbbr packet.dst with
        | none =>
            by_cases room : 42 ≤ cnt
            · refine ⟨42,
                arpFrame 1 broadcast tap.macaddr unknown packet.src
                  packet.dst, fun buf => ?_⟩
              obtain ⟨read, reads, readTap, ret, frame⟩ :=
                tuntapRead_unknown buf fits room idle known
              exact ⟨read, reads, readTap, ret, frame,
                .requested packet ⟨fits, rfl⟩ room ret frame⟩
            · refine skips fun received holds => ?_
              obtain ⟨rest, holds⟩ := holds
              unfold encapsulate
              rw [if_neg short, slice_src holds, slice_dst holds]
              simp only [ok_bind, word32_bytes32, known,
                if_pos (not_le.mp room)]
        | some dstMac =>
            by_cases room : packet.bytes.length + 14 ≤ cnt
            · refine ⟨packet.bytes.length + 14,
                etherHeader dstMac tap.macaddr 0x0800 ++ packet.bytes,
                fun buf => ?_⟩
              obtain ⟨read, reads, readTap, ret, frame⟩ :=
                tuntapRead_known buf fits room idle known
              exact ⟨read, reads, readTap, ret, frame,
                .encapsulated packet dstMac ⟨fits, rfl⟩ room ret frame⟩
            · refine skips fun received holds => ?_
              obtain ⟨rest, holds⟩ := holds
              unfold encapsulate
              rw [if_neg short, slice_src holds, slice_dst holds]
              simp only [ok_bind, word32_bytes32, known,
                if_pos (not_le.mp room)]

end Read

section Write

variable
  {tap : Tuntap}
  {buf : Buffer cnt}
  {sender target : Buffer 4}
  {senderMac source dst : Mac}
  {q7 : Byte}

/-- What `receiveArp` leaves of a tap: the fields it never writes. -/
structure SameNode (tap changed : Tuntap) : Prop where
  macaddr : changed.macaddr = tap.macaddr
  ipaddr : changed.ipaddr = tap.ipaddr
  brdaddr : changed.brdaddr = tap.brdaddr

/-- An ARP packet is learned from, and answered when it asks for this node. -/
theorem receiveArp_spec
    (tap : Tuntap)
    (readSender : buf.slice 28 4 = .ok sender)
    (readSenderMac : buf.slice 22 6 = .ok senderMac)
    (readQ7 : buf.byteAt 21 = .ok q7)
    (readTarget : buf.slice 38 4 = .ok target)
    (readSource : buf.slice 6 6 = .ok source) :
    ∃ changed,
      receiveArp tap buf = .ok changed ∧
        SameNode tap changed ∧
        changed.table = tap.table.set (word32 sender) senderMac ∧
        if q7 = 1 ∧ word32 target = tap.ipaddr then
          changed.fakepktSz = 42 ∧
            changed.fakepkt.bytes.take 42 =
              arpFrame 2 source tap.macaddr source
                tap.ipaddr (word32 sender)
        else
          changed.fakepktSz = tap.fakepktSz ∧
            changed.fakepkt = tap.fakepkt := by
  unfold receiveArp
  simp only [readSender, readSenderMac, readQ7, readTarget, readSource,
    ok_bind]
  split
  · obtain ⟨written, writes, layout⟩ :=
      Buffer.overwrite_start tap.fakepkt
        (arpFrame 2 source tap.macaddr source tap.ipaddr (word32 sender))
        (by rw [arpFrame_length]; decide)
    rw [← arpFrame_eq] at writes
    rw [← bind_assoc, writes]
    refine ⟨_, rfl, ⟨rfl, rfl, rfl⟩, rfl, rfl, ?_⟩
    rw [layout]
    exact List.take_left' (arpFrame_length ..)
  · exact ⟨_, rfl, ⟨rfl, rfl, rfl⟩, rfl, rfl, rfl⟩

/-- A frame for this node goes on to the protocol branches. -/
theorem tuntapWrite_accepted
    {hostWrite : Int}
    {protocol : Buffer 2}
    (readDst : buf.slice 0 6 = .ok dst)
    (forUs : dst = tap.macaddr ∨ dst = broadcast)
    (readProtocol : buf.slice 12 2 = .ok protocol)
    (isArpProtocol : protocol.bytes = [0x08, 0x06])
    (complete : 42 ≤ cnt)
    (arp : isArp buf 14 = .ok true) :
    tuntapWrite tap buf hostWrite =
      receiveArp tap buf >>= fun tap =>
        .ok { tap := tap, written := none, ret := cnt } := by
  have notOthers : ¬ (dst ≠ tap.macaddr ∧ dst ≠ broadcast) := by
    tauto
  unfold tuntapWrite
  rw [if_neg (by omega), readDst]
  simp only [ok_bind, if_neg notOthers, readProtocol, isArpProtocol, arp]
  rw [if_neg (by decide), if_pos trivial, if_neg (by omega)]
  rfl

/-- An IP frame for this node is handed to the tun without its header. -/
theorem tuntapWrite_ip
    (tap : Tuntap)
    (buf : Buffer cnt)
    (hostWrite : Int)
    {src : Mac}
    {payload : List Byte}
    (holds : buf.bytes = etherHeader dst src 0x0800 ++ payload)
    (forUs : dst = tap.macaddr ∨ dst = broadcast) :
    ∃ write,
      tuntapWrite tap buf hostWrite = .ok write ∧
        write.tap = tap ∧
        write.written = some payload ∧
        write.ret =
          if hostWrite < 0 then hostWrite else hostWrite + 14 := by
  have notOthers : ¬ (dst ≠ tap.macaddr ∧ dst ≠ broadcast) := by
    tauto
  have total : cnt = 14 + payload.length := by
    rw [← buf.sized, holds, List.length_append, etherHeader_length]
  have readDst : buf.slice 0 6 = .ok dst :=
    Buffer.slice_eq [] dst (src.bytes ++ [0x08, 0x00] ++ payload)
      (by simp [holds, etherHeader]) rfl
  have readProtocol : buf.slice 12 2 = .ok ⟨[0x08, 0x00], rfl⟩ :=
    Buffer.slice_eq (dst.bytes ++ src.bytes) ⟨[0x08, 0x00], rfl⟩ payload
      (by simp [holds, etherHeader])
      (by rw [List.length_append, dst.sized, src.sized])
  have readPayload :
      buf.slice 14 (cnt - 14) = .ok ⟨payload, by omega⟩ :=
    Buffer.slice_eq (etherHeader dst src 0x0800) ⟨payload, by omega⟩ []
      (by simp [holds]) (etherHeader_length ..)
  unfold tuntapWrite
  rw [if_neg (by omega), readDst]
  simp only [ok_bind, if_neg notOthers, readProtocol, if_true,
    readPayload]
  exact ⟨_, rfl, rfl, rfl, rfl⟩

/-- A well-formed ARP frame for this node: what is learned and answered. -/
theorem tuntapWrite_arpFrame
    (tap : Tuntap)
    (buf : Buffer cnt)
    (hostWrite : Int)
    {frameDst srcMac dstMac : Mac}
    {src dst : InAddr}
    (holds : buf.bytes = arpFrame q7 frameDst srcMac dstMac src dst)
    (operation : q7 = 1 ∨ q7 = 2)
    (forUs : frameDst = tap.macaddr ∨ frameDst = broadcast) :
    ∃ write,
      tuntapWrite tap buf hostWrite = .ok write ∧
        write.written = none ∧
        write.ret = cnt ∧
        SameNode tap write.tap ∧
        write.tap.table = tap.table.set src srcMac ∧
        if q7 = 1 ∧ dst = tap.ipaddr then
          write.tap.fakepktSz = 42 ∧
            write.tap.fakepkt.bytes.take 42 =
              arpFrame 2 srcMac tap.macaddr srcMac tap.ipaddr src
        else
          write.tap.fakepktSz = tap.fakepktSz ∧
            write.tap.fakepkt = tap.fakepkt := by
  have total : cnt = 42 := by
    rw [← buf.sized, holds, arpFrame_length]
  have readDst : buf.slice 0 6 = .ok frameDst :=
    Buffer.slice_eq [] frameDst
      (srcMac.bytes ++ [0x08, 0x06] ++ arpPacket q7 srcMac dstMac src dst)
      (by simp [holds, arpFrame, etherHeader]) rfl
  have readSource : buf.slice 6 6 = .ok srcMac :=
    Buffer.slice_eq frameDst.bytes srcMac
      ([0x08, 0x06] ++ arpPacket q7 srcMac dstMac src dst)
      (by simp [holds, arpFrame, etherHeader]) frameDst.sized
  have readProtocol : buf.slice 12 2 = .ok ⟨[0x08, 0x06], rfl⟩ :=
    Buffer.slice_eq (frameDst.bytes ++ srcMac.bytes)
      ⟨[0x08, 0x06], rfl⟩ (arpPacket q7 srcMac dstMac src dst)
      (by simp [holds, arpFrame, etherHeader])
      (by rw [List.length_append, frameDst.sized, srcMac.sized])
  have readFixed :
      buf.slice 14 7 = .ok ⟨[0, 1, 8, 0, 6, 4, 0], rfl⟩ :=
    Buffer.slice_eq (etherHeader frameDst srcMac 0x0806)
      ⟨[0, 1, 8, 0, 6, 4, 0], rfl⟩
      ([q7] ++ srcMac.bytes ++ (bytes32 src).bytes ++ dstMac.bytes ++
        (bytes32 dst).bytes)
      (by simp [holds, arpFrame, arpPacket]) (etherHeader_length ..)
  have readQ7 : buf.byteAt 21 = .ok q7 := by
    simp [Buffer.byteAt, holds, arpFrame, arpPacket, List.getElem?_append]
  have readSenderMac : buf.slice 22 6 = .ok srcMac :=
    Buffer.slice_eq
      (etherHeader frameDst srcMac 0x0806 ++ [0, 1, 8, 0, 6, 4, 0, q7])
      srcMac
      ((bytes32 src).bytes ++ dstMac.bytes ++ (bytes32 dst).bytes)
      (by simp [holds, arpFrame, arpPacket])
      (by rw [List.length_append, etherHeader_length]; rfl)
  have readSender : buf.slice 28 4 = .ok (bytes32 src) :=
    Buffer.slice_eq
      (etherHeader frameDst srcMac 0x0806 ++
        [0, 1, 8, 0, 6, 4, 0, q7] ++ srcMac.bytes)
      (bytes32 src) (dstMac.bytes ++ (bytes32 dst).bytes)
      (by simp [holds, arpFrame, arpPacket])
      (by simp [srcMac.sized])
  have readTarget : buf.slice 38 4 = .ok (bytes32 dst) :=
    Buffer.slice_eq
      (etherHeader frameDst srcMac 0x0806 ++
        [0, 1, 8, 0, 6, 4, 0, q7] ++ srcMac.bytes ++
        (bytes32 src).bytes ++ dstMac.bytes)
      (bytes32 dst) []
      (by simp [holds, arpFrame, arpPacket])
      (by simp [srcMac.sized, dstMac.sized, (bytes32 src).sized])
  have arp : isArp buf 14 = .ok true := by
    unfold isArp
    rw [readFixed, readQ7]
    simpa using operation
  obtain ⟨changed, receives, same, learned, answered⟩ :=
    receiveArp_spec tap
      readSender readSenderMac readQ7 readTarget readSource
  refine ⟨⟨changed, none, cnt⟩, ?_, rfl, rfl, same, ?_, ?_⟩
  · rw [tuntapWrite_accepted readDst forUs readProtocol rfl (by omega) arp,
      receives]
    rfl
  · simpa using learned
  · simpa using answered

end Write

end Hamachi
