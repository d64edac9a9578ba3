import Hamachi.TapNetwork

namespace Hamachi

/-!
# Packets reach only their destination

ARP carries addresses from node to node in frames that anything may happen to.
Still every binding that a node learns is a true one, so an IP frame is always
addressed to the owner of the packet's destination.
-/

variable
  {Node : Type}
  {cnt : Nat}
  {directory : Directory Node}
  {node : Node}
  {tap : Tuntap}
  {known : Set (TapFact Node)}

/-- `addr` is the address of the node whose MAC is `mac`. -/
def Directory.Binds
    (directory : Directory Node)
    (addr : InAddr)
    (mac : Mac) : Prop :=
  ∃ owner, directory.ip owner = addr ∧ directory.mac owner = mac

/-- A node that knows its own addresses, only true bindings of others, and
answers with its own binding. -/
structure GoodNode
    (directory : Directory Node)
    (node : Node)
    (tap : Tuntap) : Prop where
  macaddr : tap.macaddr = directory.mac node
  ipaddr : tap.ipaddr = directory.ip node
  brdaddr : tap.brdaddr = directory.brd node
  table : ∀ addr mac, tap.table addr = some mac → directory.Binds addr mac
  pending :
    tap.fakepktSz = 0 ∨
      ∃ source sender,
        Pending tap
          (some (arpFrame 2 source (directory.mac node) source
            (directory.ip node) sender))

/-- A frame that no node learns anything wrong from, and that carries a packet
of some host to the owner of its destination or to everyone. -/
structure HonestFrame
    (directory : Directory Node)
    (known : Set (TapFact Node))
    (frame : List Byte) : Prop where
  arp :
    ∀ receiver,
      IsArpFor receiver frame →
        ∃ addr mac,
          directory.Binds addr mac ∧
            part frame 28 4 = (bytes32 addr).bytes ∧
            part frame 22 6 = mac.bytes
  ip :
    part frame 12 2 = [0x08, 0x00] →
      ∃ sender,
        .sent sender (frame.drop 14) ∈ known ∧
          ((∃ owner,
              part frame 0 6 = (directory.mac owner).bytes ∧
                dstOf (frame.drop 14) = (bytes32 (directory.ip owner)).bytes) ∨
            dstOf (frame.drop 14) = (bytes32 (directory.brd sender)).bytes)

section Frames

/-- The source address of a packet. -/
theorem IpPacket.part_src (packet : IpPacket) :
    part packet.bytes 12 4 = (bytes32 packet.src).bytes := by
  have middle := part_middle packet.front.bytes (bytes32 packet.src).bytes
    ((bytes32 packet.dst).bytes ++ packet.body)
  rw [packet.front.sized, (bytes32 packet.src).sized] at middle
  simpa [IpPacket.bytes] using middle

/-- The destination address of a packet. -/
theorem IpPacket.dstOf_bytes (packet : IpPacket) :
    dstOf packet.bytes = (bytes32 packet.dst).bytes := by
  have middle := part_middle
    (packet.front.bytes ++ (bytes32 packet.src).bytes)
    (bytes32 packet.dst).bytes packet.body
  rw [List.length_append, packet.front.sized, (bytes32 packet.src).sized,
    (bytes32 packet.dst).sized] at middle
  exact middle

/-- The sender that an ARP frame names. -/
theorem part_arpFrame_sender
    (q7 : Byte)
    (frameDst srcMac dstMac : Mac)
    (src dst : InAddr) :
    part (arpFrame q7 frameDst srcMac dstMac src dst) 28 4 =
        (bytes32 src).bytes ∧
      part (arpFrame q7 frameDst srcMac dstMac src dst) 22 6 =
        srcMac.bytes := by
  constructor
  · have middle := part_middle
      (etherHeader frameDst srcMac 0x0806 ++ [0, 1, 8, 0, 6, 4, 0, q7] ++
        srcMac.bytes)
      (bytes32 src).bytes (dstMac.bytes ++ (bytes32 dst).bytes)
    rw [(bytes32 src).sized] at middle
    simpa [arpFrame, arpPacket, srcMac.sized] using middle
  · have middle := part_middle
      (etherHeader frameDst srcMac 0x0806 ++ [0, 1, 8, 0, 6, 4, 0, q7])
      srcMac.bytes
      ((bytes32 src).bytes ++ dstMac.bytes ++ (bytes32 dst).bytes)
    rw [srcMac.sized] at middle
    simpa [arpFrame, arpPacket] using middle

/-- A part of full length in a cut frame is the part of the whole frame. -/
theorem part_take
    {frame : List Byte}
    {shown offset length : Nat}
    (full : (part (frame.take shown) offset length).length = length) :
    part (frame.take shown) offset length = part frame offset length := by
  have isPrefix :
      part (frame.take shown) offset length <+: part frame offset length := by
    unfold part
    rw [List.drop_take]
    exact (List.take_prefix _ _).take length
  refine isPrefix.eq_of_length_le ?_
  rw [full]
  exact List.length_take_le ..

/-- What is left of an ARP frame with a true binding, however it is cut. -/
theorem honest_arpFrame_take
    {q7 : Byte}
    {frameDst srcMac dstMac : Mac}
    {src dst : InAddr}
    (binds : directory.Binds src srcMac)
    (shown : Nat) :
    HonestFrame directory known
      ((arpFrame q7 frameDst srcMac dstMac src dst).take shown) where
  arp := by
    intro receiver isArpFor
    have complete := isArpFor.1
    rw [List.length_take, arpFrame_length] at complete
    obtain ⟨senderPart, senderMacPart⟩ :=
      part_arpFrame_sender q7 frameDst srcMac dstMac src dst
    rw [List.take_of_length_le (by rw [arpFrame_length]; omega)]
    exact ⟨src, srcMac, binds, senderPart, senderMacPart⟩
  ip := by
    intro isIp
    have whole := @part_take _ _ _ 2 (by rw [isIp]; rfl)
    rw [isIp, arpFrame, part_protocol] at whole
    exact absurd whole (by decide)

/-- An ARP frame with a true binding. -/
theorem honest_arpFrame
    {q7 : Byte}
    {frameDst srcMac dstMac : Mac}
    {src dst : InAddr}
    (binds : directory.Binds src srcMac) :
    HonestFrame directory known
      (arpFrame q7 frameDst srcMac dstMac src dst) := by
  have whole :
      (arpFrame q7 frameDst srcMac dstMac src dst).take 42 =
        arpFrame q7 frameDst srcMac dstMac src dst :=
    List.take_of_length_le (by rw [arpFrame_length])
  exact whole ▸ honest_arpFrame_take binds 42

/-- A packet in a frame to the owner of its destination, or to everyone. -/
theorem honest_etherHeader
    {packet : IpPacket}
    {dstMac srcMac : Mac}
    (sent : .sent node packet.bytes ∈ known)
    (destination :
      directory.Binds packet.dst dstMac ∨ packet.dst = directory.brd node) :
    HonestFrame directory known
      (etherHeader dstMac srcMac 0x0800 ++ packet.bytes) where
  arp := by
    rintro receiver ⟨_, _, isArpProtocol, _⟩
    rw [part_protocol] at isArpProtocol
    exact absurd isArpProtocol (by decide)
  ip := by
    intro _
    rw [List.drop_left' (etherHeader_length ..), part_etherHeader,
      packet.dstOf_bytes]
    refine ⟨node, sent, ?_⟩
    rcases destination with ⟨owner, isOwner, isMac⟩ | everyone
    · exact .inl ⟨owner, congrArg Buffer.bytes isMac.symm, isOwner ▸ rfl⟩
    · exact .inr (everyone ▸ rfl)

end Frames

section Reads

/-- A good node resolves an address to its owner, or to everyone. -/
theorem GoodNode.resolves
    (good : GoodNode directory node tap)
    {addr : InAddr}
    {mac : Mac}
    (resolved : tap.getMacForIpMbbr addr = some mac) :
    directory.Binds addr mac ∨ addr = directory.brd node := by
  unfold Tuntap.getMacForIpMbbr at resolved
  split at resolved
  · exact .inr (by rwa [← good.brdaddr])
  · exact .inl (good.table addr mac resolved)

/-- The source address of a packet that the host of a node sent. -/
theorem SendsOwn.src
    {host : HostRead cnt}
    {packet : IpPacket}
    (own : SendsOwn directory node host)
    (isPacket : ∃ fits, host = .returned packet.bytes fits) :
    packet.src = directory.ip node := by
  obtain ⟨fits, isHost⟩ := isPacket
  have sameBytes :
      (bytes32 packet.src).bytes = (bytes32 (directory.ip node)).bytes :=
    packet.part_src.symm.trans
      (own packet.bytes fits isHost (by rw [packet.bytes_length]; omega))
  rw [← word32_bytes32 packet.src, Buffer.ext sameBytes, word32_bytes32]

/-- A host that has nothing to send sends nothing of others. -/
theorem sendsOwn_failed
    (directory : Directory Node)
    (node : Node)
    (errno : Int) :
    SendsOwn directory node (.failed errno : HostRead cnt) := by
  rintro data fits ⟨⟩

/-- A packet with the address of the node is its own. -/
theorem sendsOwn_returned
    {packet : IpPacket}
    (fits : packet.bytes.length ≤ cnt)
    (src : packet.src = directory.ip node) :
    SendsOwn directory node (.returned packet.bytes fits) := by
  rintro data _ ⟨⟩ _
  rw [packet.part_src, src]

/-- A packet is only encapsulated for the MAC that its destination has. -/
theorem resolved_of_encapsulated
    {buf : Buffer cnt}
    {packet : IpPacket}
    {fits : packet.bytes.length ≤ cnt}
    {read : TuntapRead cnt}
    {dstMac : Mac}
    (idle : tap.fakepktSz = 0)
    (room : packet.bytes.length + 14 ≤ cnt)
    (reads : tuntapRead tap buf (.returned packet.bytes fits) = .ok read)
    (ret : read.ret = packet.bytes.length + 14)
    (frame :
      read.frame = etherHeader dstMac tap.macaddr 0x0800 ++ packet.bytes) :
    tap.getMacForIpMbbr packet.dst = some dstMac := by
  cases known : tap.getMacForIpMbbr packet.dst with
  | some mac =>
      obtain ⟨read', reads', _, _, frame'⟩ :=
        tuntapRead_known buf fits room idle known
      cases reads.symm.trans reads'
      have headers := congrArg (part · 0 6) (frame.symm.trans frame')
      simp only [part_etherHeader] at headers
      rw [Buffer.ext headers]
  | none =>
      by_cases arpRoom : 42 ≤ cnt
      · obtain ⟨read', reads', _, _, frame'⟩ :=
          tuntapRead_unknown buf fits arpRoom idle known
        cases reads.symm.trans reads'
        have protocols := congrArg (part · 12 2) (frame.symm.trans frame')
        simp only [arpFrame, part_protocol] at protocols
        exact absurd protocols (by decide)
      · obtain ⟨received, holds, continues⟩ :=
          tuntapRead_packet buf fits idle
        have long : ¬ packet.bytes.length < 20 := by
          rw [packet.bytes_length]
          omega
        rw [continues] at reads
        unfold encapsulate at reads
        rw [if_neg long, slice_src holds, slice_dst holds] at reads
        simp only [ok_bind, word32_bytes32, known,
          if_pos (not_le.mp arpRoom)] at reads
        cases reads
        exact absurd ret (by simp only [skipPacket]; omega)

/-- A read at a good node leaves it good, and what it returns is honest. -/
theorem GoodNode.read
    (good : GoodNode directory node tap)
    {buf : Buffer cnt}
    {host : HostRead cnt}
    {read : TuntapRead cnt}
    (own : SendsOwn directory node host)
    (reads : tuntapRead tap buf host = .ok read) :
    GoodNode directory node read.tap ∧
      (0 < read.ret →
        HonestFrame directory (known ∪ TapFact.ofRead node tap host)
          read.frame) := by
  have ownBinding : directory.Binds (directory.ip node) tap.macaddr :=
    ⟨node, rfl, good.macaddr.symm⟩
  rcases good.pending with idle | ⟨source, sender, pendingSz, pending⟩
  · obtain ⟨_, _, outcome⟩ := tuntapRead_outcome host idle
    obtain ⟨read', reads', readTap, _, _, ends⟩ := outcome buf
    cases reads.symm.trans reads'
    refine ⟨readTap.symm ▸ good, fun positive => ?_⟩
    cases ends with
    | failed errno isFailed ret stored =>
        omega
    | empty isEmpty ret =>
        omega
    | skipped ret stored =>
        omega
    | requested packet isPacket room ret frame =>
        rw [frame, own.src isPacket]
        exact honest_arpFrame ownBinding
    | encapsulated packet dstMac isPacket room ret frame =>
        obtain ⟨fits, isHost⟩ := isPacket
        have sent :
            .sent node packet.bytes ∈ known ∪ TapFact.ofRead node tap host :=
          .inr ⟨idle, packet.bytes, fits, isHost, rfl⟩
        rw [frame]
        subst isHost
        exact honest_etherHeader sent
          (good.resolves (resolved_of_encapsulated idle room reads ret frame))
  · obtain ⟨read', reads', readTap, _, frame⟩ :=
      tuntapRead_prefix tap buf host (by omega) (by omega)
    cases reads.symm.trans reads'
    refine ⟨?_, fun _ => ?_⟩
    · rw [readTap]
      exact { good with pending := .inl rfl }
    · have cut :
          read.frame =
            (arpFrame 2 source (directory.mac node) source
              (directory.ip node) sender).take (min tap.fakepktSz cnt) := by
        have short : min tap.fakepktSz cnt ≤ 42 :=
          pendingSz ▸ Nat.min_le_left ..
        rw [frame, ← pending, List.take_take, Nat.min_eq_left short]
      rw [cut]
      exact honest_arpFrame_take (good.macaddr ▸ ownBinding) _

end Reads

section Writes

/-- The addresses of a good node stay, so it stays good if its table and its
pending packet do. -/
theorem GoodNode.changed
    {changed : Tuntap}
    (good : GoodNode directory node tap)
    (same : SameNode tap changed)
    (table :
      ∀ addr mac, changed.table addr = some mac → directory.Binds addr mac)
    (pending :
      changed.fakepktSz = 0 ∨
        ∃ source sender,
          Pending changed
            (some (arpFrame 2 source (directory.mac node) source
              (directory.ip node) sender))) :
    GoodNode directory node changed where
  macaddr := same.macaddr.trans good.macaddr
  ipaddr := same.ipaddr.trans good.ipaddr
  brdaddr := same.brdaddr.trans good.brdaddr
  table := table
  pending := pending

/-- Writing an honest frame at a good node leaves it good, and a packet is only
handed to a tun that it was sent to. -/
theorem GoodNode.write
    (good : GoodNode directory node tap)
    {frame : List Byte}
    {hostWrite : Int}
    {write : TuntapWrite}
    (honest : HonestFrame directory known frame)
    (writes : tuntapWrite tap (.of frame) hostWrite = .ok write) :
    GoodNode directory node write.tap ∧
      ∀ packet ∈ write.written,
        TapFact.Allowed directory known (.delivered node packet) := by
  cases tuntapWrite_outcome writes with
  | ignored unchanged quiet =>
      refine ⟨unchanged.symm ▸ good, fun packet written => ?_⟩
      rw [quiet] at written
      cases written
  | handed unchanged handed isIp forUs =>
      refine ⟨unchanged.symm ▸ good, fun packet written => ?_⟩
      rw [handed] at written
      cases written
      obtain ⟨sender, sent, destination⟩ := honest.ip isIp
      refine ⟨sender, sent, destination.imp_left ?_⟩
      rintro ⟨owner, isMac, isOwner⟩
      rw [isMac, Buffer.bytes_inj, Buffer.bytes_inj, good.macaddr] at forUs
      have self : owner = node :=
        directory.distinct (forUs.resolve_right (directory.notBroadcast owner))
      exact self ▸ isOwner
  | learned sender senderMac quiet isArpFor same senderPart senderMacPart
      table pending =>
      obtain ⟨addr, mac, binds, addrPart, macPart⟩ :=
        honest.arp tap.macaddr isArpFor
      have isAddr : word32 sender = addr := by
        rw [Buffer.ext (senderPart.trans addrPart), word32_bytes32]
      have isMac : senderMac = mac :=
        Buffer.ext (senderMacPart.trans macPart)
      refine ⟨good.changed same ?_ ?_, fun packet written => ?_⟩
      · intro other otherMac entry
        rw [table, MacMap.set, Function.update_apply] at entry
        split at entry
        · cases entry
          rename_i isOther
          rwa [isOther, isAddr, isMac]
        · exact good.table other otherMac entry
      · rcases pending with ⟨sameSz, samePacket⟩ | ⟨source, answer⟩
        · refine good.pending.imp sameSz.trans ?_
          rintro ⟨source, target, pendingSz, pending⟩
          exact ⟨source, target, sameSz.trans pendingSz,
            samePacket ▸ pending⟩
        · rw [good.macaddr, good.ipaddr] at answer
          exact .inr ⟨source, word32 sender, answer⟩
      · rw [quiet] at written
        cases written

end Writes

section Network

/-- Frames stay honest as more packets are sent. -/
theorem HonestFrame.mono
    {more : Set (TapFact Node)}
    {frame : List Byte}
    (grown : known ⊆ more)
    (honest : HonestFrame directory known frame) :
    HonestFrame directory more frame where
  arp := honest.arp
  ip := fun isIp =>
    (honest.ip isIp).imp fun _ => And.imp_left fun sent => grown sent

/-- Deliveries stay allowed as more packets are sent. -/
theorem TapFact.Allowed.mono
    {more : Set (TapFact Node)}
    {fact : TapFact Node}
    (grown : known ⊆ more)
    (allowed : fact.Allowed directory known) :
    fact.Allowed directory more := by
  cases fact with
  | sent node packet =>
      trivial
  | delivered node packet =>
      exact Exists.imp (fun _ => And.imp_left fun sent => grown sent) allowed

/-- One node of the network, whatever the others do. -/
theorem tapDiscipline (directory : Directory Node) :
    Network.Discipline (TapReacts directory) (GoodNode directory)
      (HonestFrame directory) (TapFact.Allowed directory) where
  honestMono := HonestFrame.mono
  allowedMono := TapFact.Allowed.mono
  reacts := by
    intro known node tap input reaction good honest reacts
    cases reacts with
    | read buf host own reads =>
        obtain ⟨stillGood, honestRead⟩ := good.read own reads
        refine ⟨stillGood, ?_, ?_⟩
        · rintro frame ⟨positive, rfl⟩
          exact honestRead positive
        · rintro fact ⟨_, data, fits, _, rfl⟩
          trivial
    | write frame hostWrite writes =>
        obtain ⟨stillGood, allowed⟩ :=
          good.write (honest frame rfl) writes
        refine ⟨stillGood, fun _ isSent => absurd isSent (Set.notMem_empty _),
          ?_⟩
        rintro fact ⟨packet, written, rfl⟩
        exact (allowed packet written).mono Set.subset_union_left

/-- The configured network is sound. -/
theorem sound_configured (directory : Directory Node) :
    (TapNetwork.configured directory).Sound (GoodNode directory)
      (HonestFrame directory) (TapFact.Allowed directory) where
  states := fun _ => {
    macaddr := rfl
    ipaddr := rfl
    brdaddr := rfl
    table := fun _ _ entry => by cases entry
    pending := .inl rfl
  }
  medium := fun _ isSent => absurd isSent (Set.notMem_empty _)
  facts := fun _ happened => absurd happened (Set.notMem_empty _)

variable [DecidableEq Node]

/-- Every reachable state of a tap network is sound. -/
theorem sound_of_run
    {final : TapNetwork Node}
    {nodes : List Node}
    (run :
      Run (Network.Step (TapReacts directory))
        (TapNetwork.configured directory) nodes final) :
    final.Sound (GoodNode directory) (HonestFrame directory)
      (TapFact.Allowed directory) :=
  Network.Sound.run (tapDiscipline directory) run (sound_configured directory)

end Network

end Hamachi
