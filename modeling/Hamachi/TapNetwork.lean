import Hamachi.ArpReplies
import Hamachi.Encapsulation
import Hamachi.Network

namespace Hamachi

/-!
# Any number of nodes on one tap network

Each node runs `tuntap_read` and `tuntap_write` over its own tun.  The frames
that the reads return go to the network, and the frames that the network
delivers are written.  Nodes know each other only through ARP.
-/

variable {Node : Type} {cnt : Nat}

/-- The addresses that the nodes are configured with. -/
structure Directory (Node : Type) where
  mac : Node → Mac
  ip : Node → InAddr
  brd : Node → InAddr
  distinct : Function.Injective mac
  notBroadcast : ∀ node, mac node ≠ broadcast

/-- What happens at the tun devices: the host's network stack of a node sends
a packet, or is handed one. -/
inductive TapFact (Node : Type) where
  | sent (node : Node) (packet : List Byte)
  | delivered (node : Node) (packet : List Byte)

/-- The host sends packets under its own address. -/
def SendsOwn
    (directory : Directory Node)
    (node : Node)
    (host : HostRead cnt) : Prop :=
  ∀ data fits,
    host = .returned data fits →
      20 ≤ data.length →
        part data 12 4 = (bytes32 (directory.ip node)).bytes

/-- The packet that a read takes from the host: none while one is pending. -/
def TapFact.ofRead
    (node : Node)
    (tap : Tuntap)
    (host : HostRead cnt) : Set (TapFact Node) :=
  { fact |
    tap.fakepktSz = 0 ∧
      ∃ data fits, host = .returned data fits ∧ fact = .sent node data }

/-- One call at a node: the frame of a successful read is sent, a frame of the
medium is written. -/
inductive TapReacts
    (directory : Directory Node)
    (node : Node)
    (tap : Tuntap) :
    Option (List Byte) →
    Reaction Tuntap (List Byte) (TapFact Node) → Prop where
  | read
      {cnt : Nat}
      (buf : Buffer cnt)
      (host : HostRead cnt)
      (own : SendsOwn directory node host)
      {read : TuntapRead cnt}
      (reads : tuntapRead tap buf host = .ok read) :
      TapReacts directory node tap none {
        next := read.tap
        sends := { frame | 0 < read.ret ∧ frame = read.frame }
        facts := TapFact.ofRead node tap host
      }
  | write
      (frame : List Byte)
      (hostWrite : Int)
      {write : TuntapWrite}
      (writes : tuntapWrite tap (.of frame) hostWrite = .ok write) :
      TapReacts directory node tap (some frame) {
        next := write.tap
        sends := ∅
        facts := { fact |
          ∃ packet ∈ write.written, fact = .delivered node packet }
      }

/-- The state, the medium and the facts of a tap network. -/
abbrev TapNetwork (Node : Type) :=
  Network Node Tuntap (List Byte) (TapFact Node)

/-- All nodes are configured; nothing was sent yet. -/
def TapNetwork.configured (directory : Directory Node) : TapNetwork Node where
  states := fun node =>
    .configured (directory.mac node) (directory.ip node) (directory.brd node)
  medium := ∅
  facts := ∅

/-- The destination address of an IP packet. -/
def dstOf (packet : List Byte) : List Byte :=
  part packet 16 4

/-- What a packet in a tap network may be: one that a host sent, at a node that
has its destination address or by way of the sender's broadcast address. -/
def TapFact.Allowed
    (directory : Directory Node)
    (known : Set (TapFact Node)) : TapFact Node → Prop
  | .sent _ _ => True
  | .delivered node packet =>
      ∃ sender,
        .sent sender packet ∈ known ∧
          (dstOf packet = (bytes32 (directory.ip node)).bytes ∨
            dstOf packet = (bytes32 (directory.brd sender)).bytes)

section Write

/-- How a write to the tap goes on with a frame. -/
inductive WriteOutcome
    (tap : Tuntap)
    (frame : List Byte)
    (write : TuntapWrite) : Prop where
  | ignored
      (unchanged : write.tap = tap)
      (quiet : write.written = none)
  | handed
      (unchanged : write.tap = tap)
      (written : write.written = some (frame.drop 14))
      (isIp : part frame 12 2 = [0x08, 0x00])
      (forUs :
        part frame 0 6 = tap.macaddr.bytes ∨
          part frame 0 6 = broadcast.bytes)
  | learned
      (sender : Buffer 4)
      (senderMac : Mac)
      (quiet : write.written = none)
      (isArpFor : IsArpFor tap.macaddr frame)
      (same : SameNode tap write.tap)
      (senderPart : sender.bytes = part frame 28 4)
      (senderMacPart : senderMac.bytes = part frame 22 6)
      (table : write.tap.table = tap.table.set (word32 sender) senderMac)
      (pending :
        write.tap.fakepktSz = tap.fakepktSz ∧
            write.tap.fakepkt = tap.fakepkt ∨
          ∃ source,
            Pending write.tap
              (some (arpFrame 2 source tap.macaddr source tap.ipaddr
                (word32 sender))))

/-- Every write has one of the outcomes. -/
theorem tuntapWrite_outcome
    {tap : Tuntap}
    {frame : List Byte}
    {hostWrite : Int}
    {write : TuntapWrite}
    (writes : tuntapWrite tap (.of frame) hostWrite = .ok write) :
    WriteOutcome tap frame write := by
  rcases tuntapWrite_cases tap (.of frame) hostWrite with
    ⟨isArpFor, receives⟩ | ⟨_, other, otherWrites, unchanged⟩
  · have complete : 42 ≤ frame.length := isArpFor.1
    obtain ⟨sender, readSender, senderPart⟩ :=
      slice_part (.of frame) 28 4 (by omega)
    obtain ⟨senderMac, readSenderMac, senderMacPart⟩ :=
      slice_part (.of frame) 22 6 (by omega)
    obtain ⟨q7, readQ7, _⟩ := byteAt_part (.of frame) 21 (by omega)
    obtain ⟨target, readTarget, _⟩ :=
      slice_part (.of frame) 38 4 (by omega)
    obtain ⟨source, readSource, _⟩ := slice_part (.of frame) 6 6 (by omega)
    obtain ⟨changed, learns, same, table, answered⟩ :=
      receiveArp_spec tap readSender readSenderMac readQ7 readTarget
        readSource
    rw [receives, learns] at writes
    cases writes
    refine .learned sender senderMac rfl isArpFor same senderPart
      senderMacPart table ?_
    split at answered
    · exact .inr ⟨source, answered⟩
    · exact .inl answered
  · cases otherWrites.symm.trans writes
    cases written : write.written with
    | none =>
        exact .ignored unchanged written
    | some packet =>
        obtain ⟨_, isIp, forUs, rfl⟩ :=
          ipPacketFor_eq_some (tuntapWrite_written writes ▸ written)
        exact .handed unchanged written isIp forUs

end Write

end Hamachi
