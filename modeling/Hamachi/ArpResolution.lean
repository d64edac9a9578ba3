import Hamachi.TuntapCalls

namespace Hamachi

/-!
# ARP resolution between two nodes

Node `a` has a packet for the address of node `b`, whose MAC it does not know.
Three frames pass between the nodes; the last one delivers the packet.
-/

/-- The six calls of a resolution and the frames they exchange. -/
structure Resolution (cntA cntB : Nat) where
  request : TuntapRead cntA
  learned : TuntapWrite
  reply : TuntapRead cntB
  resolved : TuntapWrite
  frame : TuntapRead cntA
  delivered : TuntapWrite

variable {cntA cntB : Nat}

/-- `a` reads the packet, `b` is given the request, `b` reads its reply, `a` is
given the reply, `a` reads the packet again and `b` is given the frame. -/
def resolve
    (a b : Tuntap)
    (buf buf' : Buffer cntA)
    (bufB : Buffer cntB)
    (packet packet' : HostRead cntA)
    (hostB : HostRead cntB)
    (hostWrite : Int) :
    Except Fault (Resolution cntA cntB) := do
  let request ← tuntapRead a buf packet
  let learned ← tuntapWrite b (.of request.frame) hostWrite
  let reply ← tuntapRead learned.tap bufB hostB
  let resolved ← tuntapWrite request.tap (.of reply.frame) hostWrite
  let frame ← tuntapRead resolved.tap buf' packet'
  let delivered ← tuntapWrite reply.tap (.of frame.frame) hostWrite
  return { request, learned, reply, resolved, frame, delivered }

/-- What a resolution from `macA` to `macB` has to achieve. -/
structure Resolves
    (a b : Tuntap)
    (packet : IpPacket)
    (hostWrite : Int)
    (outcome : Resolution cntA cntB) :
    Prop where
  requestLength : outcome.request.ret = 42
  request :
    outcome.request.frame =
      arpFrame 1 broadcast a.macaddr unknown packet.src packet.dst
  replyLength : outcome.reply.ret = 42
  reply :
    outcome.reply.frame =
      arpFrame 2 a.macaddr b.macaddr a.macaddr packet.dst packet.src
  frameLength : outcome.frame.ret = packet.bytes.length + 14
  frame :
    outcome.frame.frame =
      etherHeader b.macaddr a.macaddr 0x0800 ++ packet.bytes
  delivered : outcome.delivered.written = some packet.bytes
  accepted :
    0 ≤ hostWrite → outcome.delivered.ret = hostWrite + 14
  quiet :
    outcome.learned.written = none ∧ outcome.resolved.written = none
  tableA :
    outcome.frame.tap.table = a.table.set packet.dst b.macaddr
  tableB :
    outcome.delivered.tap.table = b.table.set packet.src a.macaddr

/-- Two nodes resolve each other by ARP, whatever their tables held before. -/
theorem arp_resolution
    (a b : Tuntap)
    (packet : IpPacket)
    (buf buf' : Buffer cntA)
    (bufB : Buffer cntB)
    (hostB : HostRead cntB)
    (hostWrite : Int)
    (fits : packet.bytes.length ≤ cntA)
    (room : packet.bytes.length + 14 ≤ cntA)
    (arpRoomA : 42 ≤ cntA)
    (arpRoomB : 42 ≤ cntB)
    (addressB : b.ipaddr = packet.dst)
    (notBroadcast : a.brdaddr ≠ packet.dst)
    (noEntry : a.table packet.dst = none)
    (idle : a.fakepktSz = 0) :
    ∃ outcome,
      resolve a b buf buf' bufB (.returned packet.bytes fits)
          (.returned packet.bytes fits) hostB hostWrite = .ok outcome ∧
        Resolves a b packet hostWrite outcome := by
  have isUnknown : a.getMacForIpMbbr packet.dst = none := by
    simp [Tuntap.getMacForIpMbbr, notBroadcast.symm, noEntry]
  -- `a` asks
  obtain ⟨request, asks, requestTap, requestRet, requestFrame⟩ :=
    tuntapRead_unknown buf fits arpRoomA idle isUnknown
  -- `b` learns and prepares its reply
  obtain ⟨learned, learns, learnedQuiet, _, sameB, tableB, pending⟩ :=
    tuntapWrite_arpFrame b (.of request.frame) hostWrite requestFrame
      (.inl rfl) (.inr rfl)
  rw [if_pos ⟨rfl, addressB.symm⟩] at pending
  obtain ⟨pendingSz, pendingBytes⟩ := pending
  -- `b` answers
  obtain ⟨reply, answers, replyTap, replyRet, replyFrame⟩ :=
    tuntapRead_pending learned.tap bufB hostB (by omega) (by omega)
      (by omega)
  rw [pendingSz, pendingBytes, addressB] at replyFrame
  -- `a` learns
  obtain ⟨resolved, resolves, resolvedQuiet, _, sameA, tableA, stillIdle⟩ :=
    tuntapWrite_arpFrame request.tap (.of reply.frame) hostWrite replyFrame
      (.inr rfl) (.inl (by rw [requestTap]))
  rw [if_neg fun both => absurd both.1 (by decide), requestTap]
    at stillIdle
  have isKnown :
      resolved.tap.getMacForIpMbbr packet.dst = some b.macaddr := by
    rw [Tuntap.getMacForIpMbbr, sameA.brdaddr, requestTap,
      if_neg notBroadcast.symm, tableA]
    exact Function.update_self ..
  -- `a` sends and `b` delivers
  obtain ⟨frame, sends, frameTap, frameRet, frameFrame⟩ :=
    tuntapRead_known buf' fits room (stillIdle.1.trans idle) isKnown
  rw [sameA.macaddr, requestTap] at frameFrame
  obtain ⟨delivered, delivers, deliveredTap, handed, returned⟩ :=
    tuntapWrite_ip reply.tap (.of frame.frame) hostWrite
      frameFrame (.inl (by rw [replyTap, sameB.macaddr]))
  refine ⟨⟨request, learned, reply, resolved, frame, delivered⟩, ?_, {
    requestLength := requestRet
    request := requestFrame
    replyLength := replyRet.trans (by rw [pendingSz]; rfl)
    reply := replyFrame
    frameLength := frameRet
    frame := frameFrame
    delivered := handed
    accepted := fun whole => returned.trans (if_neg (not_lt.mpr whole))
    quiet := ⟨learnedQuiet, resolvedQuiet⟩
    tableA := by rw [frameTap, tableA, requestTap]
    tableB := by rw [deliveredTap, replyTap, ← tableB]
  }⟩
  simp only [resolve, asks, learns, answers, resolves, sends, delivers,
    ok_bind]
  rfl

/-- The node `192.168.0.1` of a `/24` network. -/
def nodeA : Tuntap :=
  .configured (.of [2, 0, 0, 0, 0, 1]) 0x0100a8c0 0xff00a8c0

/-- The node `192.168.0.2` of the same network. -/
def nodeB : Tuntap :=
  .configured (.of [2, 0, 0, 0, 0, 2]) 0x0200a8c0 0xff00a8c0

/-- An empty datagram from one to the other. -/
def datagram : IpPacket where
  front := .of [0x45, 0, 0, 20, 0, 0, 0, 0, 64, 17, 0, 0]
  src := 0x0100a8c0
  dst := 0x0200a8c0
  body := []

/-- Two configured nodes resolve each other. -/
theorem arp_resolution_datagram :
    ∃ outcome,
      resolve nodeA nodeB (.of (List.replicate 64 0))
          (.of (List.replicate 64 0)) (.of (List.replicate 64 0))
          (.returned datagram.bytes (by decide))
          (.returned datagram.bytes (by decide)) (.failed 11) 20 =
        .ok outcome ∧
        Resolves nodeA nodeB datagram 20 outcome :=
  arp_resolution nodeA nodeB datagram (.of (List.replicate 64 0))
    (.of (List.replicate 64 0)) (.of (List.replicate 64 0)) (.failed 11) 20
    (by decide) (by decide) (by decide) (by decide) rfl (by decide) rfl rfl

end Hamachi
