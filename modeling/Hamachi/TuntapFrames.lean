import Hamachi.Tuntap

namespace Hamachi

/-!
# Frame layouts

The writers of `tuntap.c` address bytes relative to the start of the header
they fill in, the readers relative to the start of the frame.  Both are related
here to one description of the Ethernet and ARP layouts.
-/

/-- The 14 bytes of an Ethernet header. -/
def etherHeader (dst src : Mac) (kind : BitVec 16) : List Byte :=
  dst.bytes ++ src.bytes ++ [(kind >>> 8).setWidth 8] ++ [kind.setWidth 8]

/-- The 28 bytes of an ARP packet for IPv4 over Ethernet. -/
def arpPacket
    (q7 : Byte)
    (srcMac dstMac : Mac)
    (src dst : InAddr) :
    List Byte :=
  [0, 1, 8, 0, 6, 4, 0, q7] ++ srcMac.bytes ++ (bytes32 src).bytes ++
    dstMac.bytes ++ (bytes32 dst).bytes

/-- An ARP packet in an Ethernet frame sent by its sender. -/
def arpFrame
    (q7 : Byte)
    (frameDst srcMac dstMac : Mac)
    (src dst : InAddr) :
    List Byte :=
  etherHeader frameDst srcMac 0x0806 ++ arpPacket q7 srcMac dstMac src dst

@[simp] theorem etherHeader_length (dst src : Mac) (kind : BitVec 16) :
    (etherHeader dst src kind).length = 14 := by
  simp [etherHeader, dst.sized, src.sized]

@[simp] theorem arpPacket_length
    (q7 : Byte)
    (srcMac dstMac : Mac)
    (src dst : InAddr) :
    (arpPacket q7 srcMac dstMac src dst).length = 28 := by
  simp [arpPacket, srcMac.sized, dstMac.sized, (bytes32 src).sized,
    (bytes32 dst).sized]

@[simp] theorem arpFrame_length
    (q7 : Byte)
    (frameDst srcMac dstMac : Mac)
    (src dst : InAddr) :
    (arpFrame q7 frameDst srcMac dstMac src dst).length = 42 := by
  simp [arpFrame]

variable {size cnt : Nat}

/-- `ethernet_header` writes the header layout. -/
theorem ethernetHeader_eq
    (pkt : Buffer size)
    (dst src : Mac)
    (kind : BitVec 16) :
    ethernetHeader pkt dst src kind =
      pkt.overwrite 0 (etherHeader dst src kind) := by
  unfold ethernetHeader etherHeader
  simp only [← bind_assoc]
  rw [pkt.overwrite_next _ _ (by rw [dst.sized]),
    pkt.overwrite_next _ _ (by simp [dst.sized, src.sized]),
    pkt.overwrite_next _ _ (by simp [dst.sized, src.sized])]

/-- `arp_request` writes the packet layout. -/
theorem arpRequest_eq
    (pkt : Buffer size)
    (start : Nat)
    (q7 : Byte)
    (srcMac dstMac : Mac)
    (src dst : InAddr) :
    arpRequest pkt start q7 srcMac dstMac src dst =
      pkt.overwrite start (arpPacket q7 srcMac dstMac src dst) := by
  have swapped (written : Buffer size) :
      (written.overwrite (start + 18) dstMac.bytes >>= fun written =>
        written.overwrite (start + 14) (bytes32 src).bytes) =
        written.overwrite (start + 14) (bytes32 src).bytes >>=
          fun written => written.overwrite (start + 18) dstMac.bytes :=
    written.overwrite_disjoint _ _ _ _ (by rw [(bytes32 src).sized])
  unfold arpRequest arpPacket
  calc
    _ = pkt.overwrite start [0, 1, 8, 0, 6, 4, 0, q7] >>= fun pkt =>
          pkt.overwrite (start + 8) srcMac.bytes >>= fun pkt =>
          (pkt.overwrite (start + 18) dstMac.bytes >>= fun pkt =>
            pkt.overwrite (start + 14) (bytes32 src).bytes) >>= fun pkt =>
          pkt.overwrite (start + 24) (bytes32 dst).bytes := by
        simp only [bind_assoc]
    _ = _ := by
        simp only [swapped]
        simp only [← bind_assoc]
        rw [pkt.overwrite_next _ _ (by rfl),
          pkt.overwrite_next _ _ (by simp [srcMac.sized]),
          pkt.overwrite_next _ _
            (by simp [srcMac.sized, (bytes32 src).sized]),
          pkt.overwrite_next _ _
            (by simp [srcMac.sized, dstMac.sized, (bytes32 src).sized])]

/-- The two writers together write a whole ARP frame. -/
theorem arpFrame_eq
    (pkt : Buffer size)
    (q7 : Byte)
    (frameDst srcMac dstMac : Mac)
    (src dst : InAddr) :
    (do
      let pkt ← ethernetHeader pkt frameDst srcMac 0x0806
      arpRequest pkt 14 q7 srcMac dstMac src dst) =
      pkt.overwrite 0 (arpFrame q7 frameDst srcMac dstMac src dst) := by
  rw [ethernetHeader_eq]
  simp only [arpRequest_eq]
  exact pkt.overwrite_next _ _ (by rw [etherHeader_length])

/-- The loop of `tuntap_read` moves the packet 14 bytes up. -/
theorem shiftUp_bytes
    {n : Nat}
    (buf : Buffer cnt)
    (fits : n + 14 ≤ cnt) :
    ∃ shifted,
      shiftUp n buf = .ok shifted ∧
        shifted.bytes =
          buf.bytes.take 14 ++ buf.bytes.take n ++
            buf.bytes.drop (n + 14) := by
  induction n generalizing buf with
  | zero =>
      exact ⟨buf, rfl, by simp⟩
  | succ n inductionHypothesis =>
      have sized := buf.sized
      obtain ⟨moved, writes, layout⟩ :=
        Buffer.overwrite_inside buf (n + 14) [buf.bytes[n]]
          (by rw [List.length_singleton]; omega)
      obtain ⟨shifted, shifts, shape⟩ :=
        inductionHypothesis moved (by omega)
      refine ⟨shifted, ?_, ?_⟩
      · rw [shiftUp, Buffer.byteAt_eq (by omega)]
        simp only [List.get_eq_getElem, ok_bind, writes, shifts]
      · have grown :
            buf.bytes.take (n + 1) = buf.bytes.take n ++ [buf.bytes[n]] :=
          List.take_succ_eq_append_getElem (by omega)
        have kept (length : Nat) (below : length ≤ n + 14) :
            (buf.bytes.take (n + 14)).take length =
              buf.bytes.take length := by
          rw [List.take_take, Nat.min_eq_left below]
        have front : (buf.bytes.take (n + 14)).length = n + 14 := by
          rw [List.length_take]
          omega
        rw [shape, layout, grown, List.append_assoc _ [_],
          List.take_append_of_le_length (by omega), kept 14 (by omega),
          List.take_append_of_le_length (by omega), kept n (by omega),
          List.drop_left' front, List.length_singleton,
          Nat.add_right_comm n 14 1]
        simp only [List.append_assoc]

/-- An IP packet, split at the two fields that `tuntap.c` looks at. -/
structure IpPacket where
  front : Buffer 12
  src : InAddr
  dst : InAddr
  body : List Byte

namespace IpPacket

/-- The packet as the host delivers it. -/
def bytes (packet : IpPacket) : List Byte :=
  packet.front.bytes ++ (bytes32 packet.src).bytes ++
    (bytes32 packet.dst).bytes ++ packet.body

theorem bytes_length (packet : IpPacket) :
    packet.bytes.length = packet.body.length + 20 := by
  simp only [bytes, List.length_append, packet.front.sized,
    (bytes32 packet.src).sized, (bytes32 packet.dst).sized]
  omega

/-- Every byte string of at least 20 bytes is an IP packet. -/
theorem exists_of_length
    {data : List Byte}
    (long : 20 ≤ data.length) :
    ∃ packet : IpPacket, packet.bytes = data := by
  obtain ⟨front, _, frontBytes⟩ :=
    Buffer.slice_inside (.of data) 0 12 (by omega)
  obtain ⟨src, _, srcBytes⟩ :=
    Buffer.slice_inside (.of data) 12 4 (by omega)
  obtain ⟨dst, _, dstBytes⟩ :=
    Buffer.slice_inside (.of data) 16 4 (by omega)
  refine ⟨⟨front, word32 src, word32 dst, data.drop 20⟩, ?_⟩
  have throughSrc :
      data.take 12 ++ (data.drop 12).take 4 = data.take 16 :=
    List.take_add.symm
  have throughDst :
      data.take 16 ++ (data.drop 16).take 4 = data.take 20 :=
    List.take_add.symm
  simp only [bytes, bytes32_word32, frontBytes, srcBytes, dstBytes,
    Buffer.of, List.drop_zero, throughSrc, throughDst]
  exact List.take_append_drop 20 data

end IpPacket

end Hamachi
