import Hamachi.ArpReplies
import Hamachi.ArpResolution

namespace Hamachi

/-!
# Encapsulation between nodes

A read puts an Ethernet header before an IP packet, a write on another node
strips it.  The receiver decides from the destination MAC alone whether the
packet is for it.
-/

variable {cnt : Nat}

/-- What the frame of an IP packet must do at any receiving node; `everywhere`
says that the packet went to the broadcast address of its sender. -/
structure Carries
    (packet : IpPacket)
    (everywhere : Prop)
    (frame : List Byte) : Prop where
  length : frame.length = packet.bytes.length + 14
  delivered :
    ∀ (node : Tuntap) (hostWrite : Int),
      node.macaddr.bytes = part frame 0 6 ∨ everywhere →
      ∃ write,
        tuntapWrite node (.of frame) hostWrite = .ok write ∧
          write.written = some packet.bytes ∧
          (hostWrite = packet.bytes.length →
            write.ret = packet.bytes.length + 14) ∧
          write.tap = node
  dropped :
    ∀ (node : Tuntap) (hostWrite : Int),
      node.macaddr.bytes ≠ part frame 0 6 →
      part frame 0 6 ≠ broadcast.bytes →
      ∃ write,
        tuntapWrite node (.of frame) hostWrite = .ok write ∧
          write.written = none ∧
          write.ret = packet.bytes.length + 14 ∧
          write.tap = node

/-- The destination MAC of a frame with a header. -/
theorem part_etherHeader
    (dst src : Mac)
    (kind : BitVec 16)
    (payload : List Byte) :
    part (etherHeader dst src kind ++ payload) 0 6 = dst.bytes := by
  unfold part etherHeader
  rw [List.drop_zero]
  simp only [List.append_assoc]
  exact List.take_left' dst.sized

/-- A frame for another node is dropped. -/
theorem tuntapWrite_foreign
    (tap : Tuntap)
    (buf : Buffer cnt)
    (hostWrite : Int)
    {dst src : Mac}
    {kind : BitVec 16}
    {payload : List Byte}
    (holds : buf.bytes = etherHeader dst src kind ++ payload)
    (foreign : dst ≠ tap.macaddr)
    (notBroadcast : dst ≠ broadcast) :
    tuntapWrite tap buf hostWrite =
      .ok { tap := tap, written := none, ret := cnt } := by
  have total : cnt = 14 + payload.length := by
    rw [← buf.sized, holds, List.length_append, etherHeader_length]
  have readDst : buf.slice 0 6 = .ok dst :=
    Buffer.slice_eq [] dst
      (src.bytes ++ [(kind >>> 8).setWidth 8] ++ [kind.setWidth 8] ++
        payload)
      (by simp [holds, etherHeader]) rfl
  unfold tuntapWrite
  rw [if_neg (by omega), readDst]
  simp only [ok_bind, if_pos (And.intro foreign notBroadcast)]

/-- The packet of an IP frame that is sent to this node or to all. -/
def ipPacketFor (macaddr : Mac) (frame : List Byte) : Option (List Byte) :=
  if 14 ≤ frame.length ∧ part frame 12 2 = [0x08, 0x00] ∧
      (part frame 0 6 = macaddr.bytes ∨
        part frame 0 6 = broadcast.bytes) then
    some (frame.drop 14)
  else
    none

theorem ipPacketFor_eq_some
    {macaddr : Mac}
    {frame packet : List Byte}
    (isPacket : ipPacketFor macaddr frame = some packet) :
    14 ≤ frame.length ∧ part frame 12 2 = [0x08, 0x00] ∧
      (part frame 0 6 = macaddr.bytes ∨
        part frame 0 6 = broadcast.bytes) ∧
      packet = frame.drop 14 := by
  unfold ipPacketFor at isPacket
  split at isPacket
  · rename_i isIp
    exact ⟨isIp.1, isIp.2.1, isIp.2.2, (Option.some.inj isPacket).symm⟩
  · cases isPacket

/-- Only the packet of an IP frame for this node is handed to the tun. -/
theorem tuntapWrite_written
    {tap : Tuntap}
    {buf : Buffer cnt}
    {hostWrite : Int}
    {write : TuntapWrite}
    (writes : tuntapWrite tap buf hostWrite = .ok write) :
    write.written = ipPacketFor tap.macaddr buf.bytes := by
  have sized := buf.sized
  unfold tuntapWrite at writes
  by_cases short : cnt < 14
  · rw [if_pos short] at writes
    cases writes
    exact (if_neg fun isIp => absurd isIp.1 (by omega)).symm
  obtain ⟨dst, readDst, dstPart⟩ :=
    slice_part buf 0 6 (by omega)
  obtain ⟨protocol, readProtocol, protocolPart⟩ :=
    slice_part buf 12 2 (by omega)
  obtain ⟨payload, readPayload, payloadPart⟩ :=
    slice_part buf 14 (cnt - 14) (by omega)
  have forUs_iff :
      (part buf.bytes 0 6 = tap.macaddr.bytes ∨
          part buf.bytes 0 6 = broadcast.bytes) ↔
        ¬ (dst ≠ tap.macaddr ∧ dst ≠ broadcast) := by
    rw [← dstPart, Buffer.bytes_inj, Buffer.bytes_inj]
    tauto
  rw [if_neg short, readDst, ok_bind] at writes
  unfold ipPacketFor
  by_cases others : dst ≠ tap.macaddr ∧ dst ≠ broadcast
  · rw [if_pos others] at writes
    cases writes
    exact (if_neg fun isIp => forUs_iff.mp isIp.2.2 others).symm
  rw [if_neg others, readProtocol, ok_bind] at writes
  by_cases isIp : protocol.bytes = [0x08, 0x00]
  · rw [if_pos isIp, readPayload, ok_bind] at writes
    cases writes
    have isPayload : payload.bytes = buf.bytes.drop 14 := by
      rw [payloadPart, part]
      exact List.take_of_length_le (by rw [List.length_drop, sized])
    change some payload.bytes = _
    rw [isPayload, if_pos ⟨by omega, protocolPart.symm.trans isIp,
      forUs_iff.mpr others⟩]
  · rw [if_neg fun isPacket => isIp (protocolPart.trans isPacket.2.1)]
    rw [if_neg isIp] at writes
    by_cases isArpProtocol : protocol.bytes = [0x08, 0x06]
    · rw [if_pos isArpProtocol] at writes
      by_cases incomplete : cnt < 42
      · rw [if_pos incomplete] at writes
        cases writes
        rfl
      · rw [if_neg incomplete, isArp_part (by omega), ok_bind] at writes
        split at writes
        · obtain ⟨changed, _, isWrite⟩ := bind_eq_ok.mp writes
          cases isWrite
          rfl
        · cases writes
          rfl
    · rw [if_neg isArpProtocol] at writes
      cases writes
      rfl

/-- A packet with a header is carried to the nodes that its destination MAC
names. -/
theorem carries_etherHeader
    (packet : IpPacket)
    (dstMac src : Mac)
    {everywhere : Prop}
    (isBroadcast : everywhere → dstMac = broadcast) :
    Carries packet everywhere (etherHeader dstMac src 0x0800 ++ packet.bytes)
    where
  length := by
    rw [List.length_append, etherHeader_length, Nat.add_comm]
  delivered := by
    intro node hostWrite isFor
    rw [part_etherHeader] at isFor
    have forUs : dstMac = node.macaddr ∨ dstMac = broadcast :=
      isFor.imp (fun same => Buffer.ext same.symm) isBroadcast
    obtain ⟨write, writes, sameTap, written, ret⟩ :=
      tuntapWrite_ip node (.of (etherHeader dstMac src 0x0800 ++ packet.bytes))
        hostWrite rfl forUs
    refine ⟨write, writes, written, fun whole => ?_, sameTap⟩
    rw [ret, whole, if_neg (by omega)]
  dropped := by
    intro node hostWrite others notBroadcast
    rw [part_etherHeader] at others notBroadcast
    refine ⟨_, tuntapWrite_foreign node
      (.of (etherHeader dstMac src 0x0800 ++ packet.bytes)) hostWrite rfl
      (fun same => others (same ▸ rfl))
      (fun same => notBroadcast (same ▸ rfl)), rfl, ?_, rfl⟩
    simp only [List.length_append, etherHeader_length]
    omega

/-- A packet for a known destination is read as a frame that carries it to the
right nodes and to no others. -/
theorem tuntapRead_carries
    (tap : Tuntap)
    (buf : Buffer cnt)
    (packet : IpPacket)
    (fits : packet.bytes.length ≤ cnt)
    (room : packet.bytes.length + 14 ≤ cnt)
    (idle : tap.fakepktSz = 0)
    (known : packet.dst = tap.brdaddr ∨ (tap.table packet.dst).isSome) :
    ∃ read,
      tuntapRead tap buf (.returned packet.bytes fits) = .ok read ∧
        read.ret = packet.bytes.length + 14 ∧
        Carries packet (packet.dst = tap.brdaddr) read.frame := by
  obtain ⟨dstMac, isKnown, isBroadcast⟩ :
      ∃ dstMac,
        tap.getMacForIpMbbr packet.dst = some dstMac ∧
          (packet.dst = tap.brdaddr → dstMac = broadcast) := by
    by_cases everywhere : packet.dst = tap.brdaddr
    · exact ⟨broadcast, if_pos everywhere, fun _ => rfl⟩
    · obtain ⟨dstMac, entry⟩ :=
        Option.isSome_iff_exists.mp (known.resolve_left everywhere)
      exact ⟨dstMac, (if_neg everywhere).trans entry,
        fun same => absurd same everywhere⟩
  obtain ⟨read, reads, _, ret, frame⟩ :=
    tuntapRead_known buf fits room idle isKnown
  refine ⟨read, reads, ret, ?_⟩
  rw [frame]
  exact carries_etherHeader packet dstMac tap.macaddr isBroadcast

/-- A datagram from a node that has learned where it goes. -/
theorem tuntapRead_carries_datagram :
    ∃ read,
      tuntapRead
          { nodeA with table := nodeA.table.set datagram.dst nodeB.macaddr }
          (.of (List.replicate 64 0))
          (.returned datagram.bytes (by decide)) = .ok read ∧
        read.ret = 34 ∧
        Carries datagram (datagram.dst = nodeA.brdaddr) read.frame :=
  tuntapRead_carries
    { nodeA with table := nodeA.table.set datagram.dst nodeB.macaddr }
    (.of (List.replicate 64 0)) datagram (by decide) (by decide) rfl
    (.inr rfl)

end Hamachi
