import Hamachi.TapNetworkSafety

namespace Hamachi

/-!
# Packets can always be delivered

Whatever a tap network went through, any node can still reach any other: a
pending packet is read away, an unknown MAC is asked for, and then the packet
goes through.
-/

variable
  {Node : Type}
  [DecidableEq Node]
  {directory : Directory Node}
  {network : TapNetwork Node}
  {cnt : Nat}

/-- What a step of one node leaves: its own state is replaced, the states of
the others and everything that was sent stay. -/
structure Advances
    (directory : Directory Node)
    (network : TapNetwork Node)
    (node : Node)
    (tap : Tuntap)
    (next : TapNetwork Node) : Prop where
  step : Network.Step (TapReacts directory) network node next
  self : next.states node = tap
  others : ∀ other, other ≠ node → next.states other = network.states other
  medium : network.medium ⊆ next.medium

/-- A read is a step of the network, and sends its frame. -/
theorem advances_read
    {node : Node}
    {buf : Buffer cnt}
    {host : HostRead cnt}
    {read : TuntapRead cnt}
    (own : SendsOwn directory node host)
    (reads : tuntapRead (network.states node) buf host = .ok read) :
    ∃ next,
      Advances directory network node read.tap next ∧
        (0 < read.ret → read.frame ∈ next.medium) := by
  refine ⟨_, {
    step := .react (by rintro _ ⟨⟩) (.read buf host own reads)
    self := Network.after_states_self ..
    others := fun other => Network.after_states_of_ne _ _
    medium := Set.subset_union_left
  }, fun positive => .inr ⟨positive, rfl⟩⟩

/-- Writing a frame of the medium is a step of the network. -/
theorem advances_write
    (directory : Directory Node)
    {node : Node}
    {frame : List Byte}
    {hostWrite : Int}
    {write : TuntapWrite}
    (sent : frame ∈ network.medium)
    (writes :
      tuntapWrite (network.states node) (.of frame) hostWrite = .ok write) :
    ∃ next,
      Advances directory network node write.tap next ∧
        ∀ packet ∈ write.written, .delivered node packet ∈ next.facts := by
  refine ⟨_, {
    step := .react (fun message isInput => Option.some.inj isInput ▸ sent)
      (.write frame hostWrite writes)
    self := Network.after_states_self ..
    others := fun other => Network.after_states_of_ne _ _
    medium := Set.subset_union_left
  }, fun packet written => .inr ⟨packet, written, rfl⟩⟩

/-- A pending packet can be read away. -/
theorem exists_idle
    (sound :
      network.Sound (GoodNode directory) (HonestFrame directory)
        (TapFact.Allowed directory))
    (node : Node) :
    ∃ nodes next,
      nodes.length ≤ 1 ∧
        Run (Network.Step (TapReacts directory)) network nodes next ∧
        (next.states node).fakepktSz = 0 := by
  rcases (sound.states node).pending with idle | ⟨_, _, pendingSz, _⟩
  · exact ⟨[], network, by simp, .nil network, idle⟩
  · obtain ⟨read, reads, readTap, _⟩ :=
      tuntapRead_prefix (network.states node) (.zeroed 42) (.failed 11)
        (by omega) (by omega)
    obtain ⟨next, advances, _⟩ :=
      advances_read (sendsOwn_failed directory node 11) reads
    refine ⟨[node], next, by simp, .cons node [] advances.step (.nil next),
      ?_⟩
    rw [advances.self, readTap]

/-- A packet whose destination is resolved can be delivered. -/
theorem exists_delivered
    {sender receiver : Node}
    {packet : IpPacket}
    {dstMac : Mac}
    (sound :
      network.Sound (GoodNode directory) (HonestFrame directory)
        (TapFact.Allowed directory))
    (others : sender ≠ receiver)
    (src : packet.src = directory.ip sender)
    (idle : (network.states sender).fakepktSz = 0)
    (resolved :
      (network.states sender).getMacForIpMbbr packet.dst = some dstMac)
    (isFor : dstMac = directory.mac receiver ∨ dstMac = broadcast) :
    ∃ next,
      Run (Network.Step (TapReacts directory)) network [sender, receiver]
          next ∧
        .delivered receiver packet.bytes ∈ next.facts := by
  have fits : packet.bytes.length ≤ packet.bytes.length + 14 :=
    Nat.le_add_right ..
  obtain ⟨read, reads, _, ret, frame⟩ :=
    tuntapRead_known (.zeroed (packet.bytes.length + 14)) fits (le_refl _)
      idle resolved
  obtain ⟨middle, sends, inMedium⟩ :=
    advances_read (sendsOwn_returned fits src) reads
  have good := sound.states receiver
  obtain ⟨write, writes, _, handed, _⟩ :=
    tuntapWrite_ip (middle.states receiver) (.of read.frame) 0 frame
      (by rwa [sends.others receiver others.symm, good.macaddr])
  obtain ⟨next, delivers, happened⟩ :=
    advances_write directory (inMedium (by omega)) writes
  exact ⟨next, .cons sender _ sends.step (.cons receiver [] delivers.step
    (.nil next)), happened packet.bytes handed⟩

/-- An unknown MAC can be asked for. -/
theorem exists_resolved
    {sender receiver : Node}
    {packet : IpPacket}
    (sound :
      network.Sound (GoodNode directory) (HonestFrame directory)
        (TapFact.Allowed directory))
    (others : sender ≠ receiver)
    (src : packet.src = directory.ip sender)
    (dst : packet.dst = directory.ip receiver)
    (idle : (network.states sender).fakepktSz = 0)
    (isUnknown :
      (network.states sender).getMacForIpMbbr packet.dst = none) :
    ∃ next,
      Run (Network.Step (TapReacts directory)) network
          [sender, receiver, receiver, sender] next ∧
        (next.states sender).fakepktSz = 0 ∧
        (next.states sender).getMacForIpMbbr packet.dst =
          some (directory.mac receiver) := by
  have fits : packet.bytes.length ≤ packet.bytes.length + 42 :=
    Nat.le_add_right ..
  have goodSender := sound.states sender
  have goodReceiver := sound.states receiver
  -- the sender asks
  obtain ⟨request, asks, requestTap, requestRet, requestFrame⟩ :=
    tuntapRead_unknown (.zeroed (packet.bytes.length + 42)) fits (by omega)
      idle isUnknown
  obtain ⟨asked, asking, inAsked⟩ :=
    advances_read (sendsOwn_returned fits src) asks
  have receiverAsked := asking.others receiver others.symm
  -- the receiver takes the question
  obtain ⟨learned, learns, _, _, same, _, pending⟩ :=
    tuntapWrite_arpFrame (asked.states receiver) (.of request.frame) 0
      requestFrame (.inl rfl) (.inr rfl)
  rw [if_pos ⟨rfl, by rw [receiverAsked, goodReceiver.ipaddr, dst]⟩]
    at pending
  obtain ⟨heard, hearing, _⟩ :=
    advances_write directory (inAsked (by omega)) learns
  -- and answers
  obtain ⟨reply, replies, _, replyRet, replyFrame⟩ :=
    tuntapRead_pending (heard.states receiver) (.zeroed 42) (.failed 11)
      (by rw [hearing.self]; omega) (by rw [hearing.self]; omega)
      (by rw [hearing.self]; omega)
  obtain ⟨answered, answering, inAnswered⟩ :=
    advances_read (sendsOwn_failed directory receiver 11) replies
  rw [hearing.self, pending.1, pending.2, receiverAsked, goodReceiver.macaddr,
    goodReceiver.ipaddr] at replyFrame
  -- the sender learns
  have senderAnswered : answered.states sender = network.states sender := by
    rw [answering.others sender others, hearing.others sender others,
      asking.self, requestTap]
  obtain ⟨resolved, resolves, _, _, sameSender, table, stillIdle⟩ :=
    tuntapWrite_arpFrame (answered.states sender) (.of reply.frame) 0
      replyFrame (.inr rfl)
      (.inl (by rw [senderAnswered]))
  rw [if_neg fun both => absurd both.1 (by decide)] at stillIdle
  obtain ⟨next, learning, _⟩ :=
    advances_write directory
      (inAnswered (by rw [replyRet, hearing.self, pending.1]; decide))
      resolves
  refine ⟨next, .cons sender _ asking.step (.cons receiver _ hearing.step
    (.cons receiver _ answering.step (.cons sender [] learning.step
      (.nil next)))), ?_, ?_⟩
  · rw [learning.self, stillIdle.1, senderAnswered, idle]
  · have notBroadcast : packet.dst ≠ (network.states sender).brdaddr := by
      intro everyone
      rw [Tuntap.getMacForIpMbbr, if_pos everyone] at isUnknown
      cases isUnknown
    rw [learning.self, Tuntap.getMacForIpMbbr, sameSender.brdaddr,
      senderAnswered, if_neg notBroadcast, table, dst]
    exact Function.update_self ..

omit [DecidableEq Node] in
/-- The MAC that a node resolves the address of another node to. -/
theorem resolved_receiver
    (ipDistinct : Function.Injective directory.ip)
    {sender receiver : Node}
    {dstMac : Mac}
    (good : GoodNode directory sender (network.states sender))
    (resolved :
      (network.states sender).getMacForIpMbbr (directory.ip receiver) =
        some dstMac) :
    dstMac = directory.mac receiver ∨ dstMac = broadcast := by
  by_cases everyone :
      directory.ip receiver = (network.states sender).brdaddr
  · rw [Tuntap.getMacForIpMbbr, if_pos everyone] at resolved
    exact .inr (Option.some.inj resolved).symm
  · rcases good.resolves resolved with ⟨owner, isOwner, isMac⟩ | isBrd
    · exact .inl (by rw [← isMac, ipDistinct isOwner])
    · exact absurd (isBrd.trans good.brdaddr.symm) everyone

/-- In a sound network any node can reach any other. -/
theorem exists_exchange
    (ipDistinct : Function.Injective directory.ip)
    (sound :
      network.Sound (GoodNode directory) (HonestFrame directory)
        (TapFact.Allowed directory))
    {sender receiver : Node}
    (others : sender ≠ receiver)
    (packet : IpPacket)
    (src : packet.src = directory.ip sender)
    (dst : packet.dst = directory.ip receiver) :
    ∃ nodes next,
      nodes.length ≤ 7 ∧
        Run (Network.Step (TapReacts directory)) network nodes next ∧
        .delivered receiver packet.bytes ∈ next.facts := by
  obtain ⟨draining, drained, short, drains, idle⟩ := exists_idle sound sender
  have soundDrained := Network.Sound.run (tapDiscipline directory) drains sound
  cases resolved :
      (drained.states sender).getMacForIpMbbr packet.dst with
  | some dstMac =>
      have isFor := resolved_receiver ipDistinct
        (soundDrained.states sender) (dst ▸ resolved)
      obtain ⟨next, delivers, delivered⟩ :=
        exists_delivered soundDrained others src idle resolved isFor
      refine ⟨draining ++ [sender, receiver], next, ?_,
        drains.append delivers, delivered⟩
      simp only [List.length_append, List.length_cons, List.length_nil]
      omega
  | none =>
      obtain ⟨asked, asks, idleAsked, resolvedAsked⟩ :=
        exists_resolved soundDrained others src dst idle resolved
      have soundAsked :=
        Network.Sound.run (tapDiscipline directory) asks soundDrained
      obtain ⟨next, delivers, delivered⟩ :=
        exists_delivered soundAsked others src idleAsked resolvedAsked
          (.inl rfl)
      refine ⟨draining ++ ([sender, receiver, receiver, sender] ++
        [sender, receiver]), next, ?_,
        drains.append (asks.append delivers), delivered⟩
      simp only [List.length_append, List.length_cons, List.length_nil]
      omega

/-- Whatever is done at the nodes and to the frames, a packet that is handed to
a tun was sent by some host, to the address of that tun or to the sender's
broadcast address, and no table ever holds a wrong binding. -/
theorem tapNetwork_delivers_to_destination
    {final : TapNetwork Node}
    {nodes : List Node}
    (run :
      Run (Network.Step (TapReacts directory))
        (TapNetwork.configured directory) nodes final) :
    (∀ receiver packet,
      .delivered receiver packet ∈ final.facts →
        ∃ sender,
          .sent sender packet ∈ final.facts ∧
            (dstOf packet = (bytes32 (directory.ip receiver)).bytes ∨
              dstOf packet = (bytes32 (directory.brd sender)).bytes)) ∧
      ∀ node addr mac,
        (final.states node).table addr = some mac →
          ∃ owner, directory.ip owner = addr ∧ directory.mac owner = mac := by
  have sound := sound_of_run run
  exact ⟨fun receiver packet delivered => sound.facts _ delivered,
    fun node => (sound.states node).table⟩

/-- Two nodes of a `/24` network. -/
def pairDirectory : Directory Bool where
  mac := fun node => if node then nodeB.macaddr else nodeA.macaddr
  ip := fun node => if node then nodeB.ipaddr else nodeA.ipaddr
  brd := fun _ => nodeA.brdaddr
  distinct := by
    intro first second
    cases first <;> cases second <;> decide
  notBroadcast := by
    intro node
    cases node <;> decide

/-- Their addresses differ. -/
theorem pairDirectory_distinct : Function.Injective pairDirectory.ip := by
  intro first second
  cases first <;> cases second <;> decide

/-- A run of two nodes in which a datagram is delivered, as it must be. -/
theorem tapNetwork_delivers_datagram :
    ∃ nodes final,
      Run (Network.Step (TapReacts pairDirectory))
          (TapNetwork.configured pairDirectory) nodes final ∧
        .delivered true datagram.bytes ∈ final.facts ∧
        ∃ sender,
          .sent sender datagram.bytes ∈ final.facts ∧
            (dstOf datagram.bytes =
                (bytes32 (pairDirectory.ip true)).bytes ∨
              dstOf datagram.bytes =
                (bytes32 (pairDirectory.brd sender)).bytes) := by
  obtain ⟨nodes, final, _, run, delivered⟩ :=
    exists_exchange pairDirectory_distinct (sound_configured pairDirectory)
      (show false ≠ true by decide) datagram rfl rfl
  exact ⟨nodes, final, run, delivered,
    (tapNetwork_delivers_to_destination run).1 true datagram.bytes delivered⟩

end Hamachi
