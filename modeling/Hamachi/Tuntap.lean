import Hamachi.MacTableMap

namespace Hamachi

/-!
# The Ethernet emulation of `tuntap.c`

The Linux program expects a tap device, the host offers a tun device.  Reads
put an Ethernet header before each IP packet, or turn the packet into an ARP
request when its destination has no known MAC address; writes strip the header
and answer ARP requests through a pending packet that the next read returns.
The table of `map.c` appears as the map it stands for.
-/

/-- The static variables of `tuntap.c`. -/
structure Tuntap where
  macaddr : Mac
  ipaddr : InAddr
  brdaddr : InAddr
  table : MacMap
  fakepkt : Buffer 65536
  fakepktSz : Nat

/-- The statics once the addresses are set, before the first frame. -/
def Tuntap.configured (macaddr : Mac) (ipaddr brdaddr : InAddr) : Tuntap where
  macaddr := macaddr
  ipaddr := ipaddr
  brdaddr := brdaddr
  table := .empty
  fakepkt := ⟨List.replicate 65536 0, List.length_replicate⟩
  fakepktSz := 0

/-- What the host's `read` on the tun descriptor returns. -/
inductive HostRead (cnt : Nat) where
  | failed (errno : Int)
  | returned (data : List Byte) (fits : data.length ≤ cnt)

/-- The effects of one `tuntap_read`; `errno` is the value it stored, if any. -/
structure TuntapRead (cnt : Nat) where
  tap : Tuntap
  buf : Buffer cnt
  ret : Int
  errno : Option Int

/-- The effects of one `tuntap_write`; `written` is what the tun got, if any. -/
structure TuntapWrite where
  tap : Tuntap
  written : Option (List Byte)
  ret : Int

/-- `BROADCAST`. -/
def broadcast : Mac :=
  .of [0xff, 0xff, 0xff, 0xff, 0xff, 0xff]

/-- `UNKNOWN`. -/
def unknown : Mac :=
  .of [0, 0, 0, 0, 0, 0]

/-- `get_mac_for_ip_mbbr`. -/
def Tuntap.getMacForIpMbbr (tap : Tuntap) (addr : InAddr) : Option Mac :=
  if addr = tap.brdaddr then
    some broadcast
  else
    tap.table addr

variable {size cnt : Nat}

/-- `ethernet_header`. -/
def ethernetHeader
    (pkt : Buffer size)
    (dst src : Mac)
    (kind : BitVec 16) :
    Except Fault (Buffer size) := do
  let pkt ← pkt.overwrite 0 dst.bytes
  let pkt ← pkt.overwrite 6 src.bytes
  let pkt ← pkt.overwrite 12 [(kind >>> 8).setWidth 8]
  pkt.overwrite 13 [kind.setWidth 8]

/-- `arp_request(pkt + start, …)`. -/
def arpRequest
    (pkt : Buffer size)
    (start : Nat)
    (q7 : Byte)
    (srcMac dstMac : Mac)
    (src dst : InAddr) :
    Except Fault (Buffer size) := do
  let pkt ← pkt.overwrite start [0, 1, 8, 0, 6, 4, 0, q7]
  let pkt ← pkt.overwrite (start + 8) srcMac.bytes
  let pkt ← pkt.overwrite (start + 18) dstMac.bytes
  let pkt ← pkt.overwrite (start + 14) (bytes32 src).bytes
  pkt.overwrite (start + 24) (bytes32 dst).bytes

/-- `is_arp(pkt + start)`. -/
def isArp (pkt : Buffer size) (start : Nat) : Except Fault Bool := do
  let fixed ← pkt.slice start 7
  let q7 ← pkt.byteAt (start + 7)
  return fixed.bytes = [0, 1, 8, 0, 6, 4, 0] && (q7 = 1 || q7 = 2)

/-- `for(off_t i = ans - 1; i >= 0; i--) buf[i+14] = buf[i];`, given `i + 1`. -/
def shiftUp : Nat → Buffer cnt → Except Fault (Buffer cnt)
  | 0, buf => .ok buf
  | i + 1, buf => do
      let byte ← buf.byteAt i
      let buf ← buf.overwrite (i + 14) [byte]
      shiftUp i buf

/-- `skip_packet`: `EAGAIN` in the numbering of Linux. -/
def skipPacket (tap : Tuntap) (buf : Buffer cnt) : TuntapRead cnt where
  tap := tap
  buf := buf
  ret := -1
  errno := some 11

/-- The part of `tuntap_read` after a host `read` of `ans > 0` bytes. -/
def encapsulate
    (tap : Tuntap)
    (buf : Buffer cnt)
    (ans : Nat) :
    Except Fault (TuntapRead cnt) :=
  if ans < 20 then
    .ok (skipPacket tap buf)
  else do
    let src ← buf.slice 12 4
    let dst ← buf.slice 16 4
    match tap.getMacForIpMbbr (word32 dst) with
    | none =>
        if cnt < 42 then
          .ok (skipPacket tap buf)
        else do
          let buf ← ethernetHeader buf broadcast tap.macaddr 0x0806
          let buf ← arpRequest buf 14 1 tap.macaddr unknown
            (word32 src) (word32 dst)
          .ok { tap := tap, buf := buf, ret := 42, errno := none }
    | some dstMac =>
        if ans + 14 > cnt then
          .ok (skipPacket tap buf)
        else do
          let buf ← shiftUp ans buf
          let buf ← ethernetHeader buf dstMac tap.macaddr 0x0800
          .ok { tap := tap, buf := buf, ret := ans + 14, errno := none }

/-- `tuntap_read`. -/
def tuntapRead
    (tap : Tuntap)
    (buf : Buffer cnt)
    (host : HostRead cnt) :
    Except Fault (TuntapRead cnt) :=
  if tap.fakepktSz ≠ 0 then do
    let sz := min tap.fakepktSz cnt
    let packet ← tap.fakepkt.slice 0 sz
    let buf ← buf.overwrite 0 packet.bytes
    .ok {
      tap := { tap with fakepktSz := 0 }
      buf := buf
      ret := sz
      errno := none
    }
  else
    match host with
    | .failed errno =>
        .ok { tap := tap, buf := buf, ret := -1, errno := some errno }
    | .returned data _ => do
        let buf ← buf.overwrite 0 data
        if data.length = 0 then
          .ok { tap := tap, buf := buf, ret := 0, errno := none }
        else
          encapsulate tap buf data.length

/-- The ARP branch of `tuntap_write`. -/
def receiveArp
    (tap : Tuntap)
    (buf : Buffer cnt) :
    Except Fault Tuntap := do
  let sender ← buf.slice 28 4
  let senderMac ← buf.slice 22 6
  let tap := { tap with table := tap.table.set (word32 sender) senderMac }
  let q7 ← buf.byteAt 21
  let target ← buf.slice 38 4
  if q7 = 1 ∧ word32 target = tap.ipaddr then do
    let source ← buf.slice 6 6
    let fakepkt ← ethernetHeader tap.fakepkt source tap.macaddr 0x0806
    let fakepkt ← arpRequest fakepkt 14 2 tap.macaddr source
      tap.ipaddr (word32 sender)
    .ok { tap with fakepkt := fakepkt, fakepktSz := 42 }
  else
    .ok tap

/-- `tuntap_write`; `hostWrite` is what the host's `write` returns. -/
def tuntapWrite
    (tap : Tuntap)
    (buf : Buffer cnt)
    (hostWrite : Int) :
    Except Fault TuntapWrite :=
  if cnt < 14 then
    .ok { tap := tap, written := none, ret := cnt }
  else do
    let dst ← buf.slice 0 6
    if dst ≠ tap.macaddr ∧ dst ≠ broadcast then
      .ok { tap := tap, written := none, ret := cnt }
    else do
      let protocol ← buf.slice 12 2
      if protocol.bytes = [0x08, 0x00] then do
        let payload ← buf.slice 14 (cnt - 14)
        .ok {
          tap := tap
          written := some payload.bytes
          ret := if hostWrite < 0 then hostWrite else hostWrite + 14
        }
      else if protocol.bytes = [0x08, 0x06] then do
        if cnt < 42 then
          .ok { tap := tap, written := none, ret := cnt }
        else if ← isArp buf 14 then do
          let tap ← receiveArp tap buf
          .ok { tap := tap, written := none, ret := cnt }
        else
          .ok { tap := tap, written := none, ret := cnt }
      else
        .ok { tap := tap, written := none, ret := cnt }

end Hamachi
