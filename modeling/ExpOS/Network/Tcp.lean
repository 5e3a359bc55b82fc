import ExpOS.Support.Checksum

/-!
# TCP segments on the wire

A segment travels in an IPv4 packet in an Ethernet frame.  The service writes
segments without options except for the maximum segment size of a SYN, and
checks every frame it receives before it looks at the segment inside: the
lengths, both checksums, the addresses and the ports.

Every place a parser reads lies below a length it has checked before, so
reading is total here and gives a zero octet outside the frame.
-/

namespace ExpOS

open List Option

open Bytes Checksum

def frameCapacity : ℕ := 1536
def tcpHeaderSize : ℕ := 20
def tcpSynHeaderSize : ℕ := 24
def tcpPayloadCapacity : ℕ := 1500 - 20 - tcpHeaderSize
def tcpReceiveWindow : ℕ := 32 * 1024

def tcpFin : UInt8 := 0x01
def tcpSyn : UInt8 := 0x02
def tcpRst : UInt8 := 0x04
def tcpPsh : UInt8 := 0x08
def tcpAck : UInt8 := 0x10

/-- The link and network address of one host. -/
structure Interface where
  mac : ByteBlock 6
  address : ByteBlock 4

structure TcpPacket where
  sequence : UInt32
  acknowledgement : UInt32
  flags : UInt8
  payload : Bytes

/-- The packet carries the flag. -/
def TcpPacket.has (packet : TcpPacket) (flag : UInt8) : Bool :=
  packet.flags &&& flag != 0

/-! ## Reading a frame -/

namespace Bytes

/-- The 16-bit word at one place. -/
def word (octets : Bytes) (place : ℕ) : ℕ :=
  fromBeBytes (part octets place 2)

end Bytes

/-- The checksum of a segment and of the addresses it travels between. -/
def transportChecksum (source destination : ByteBlock 4) (protocol : UInt8) (octets : Bytes) : ℕ :=
  let pseudo := source.val ++ destination.val ++ [0, protocol] ++ toBeBytes 2 octets.length
  65535 - checksumAdd (checksumAdd 0 pseudo) octets

/-- The checks of the segment inside an IPv4 packet. -/
def parseTcpSegment (tcp : Bytes) (interface : Interface) (expectedSource : ByteBlock 4)
    (expectedSourcePort expectedDestinationPort : UInt16) : Except ℕ TcpPacket :=
  let headerLength := (octet tcp 12 >>> 4).toNat * 4
  if word tcp 0 ≠ expectedSourcePort.toNat
      ∨ word tcp 2 ≠ expectedDestinationPort.toNat
      ∨ headerLength < tcpHeaderSize
      ∨ headerLength > tcp.length then
    .error 17
  else if
      transportChecksum expectedSource interface.address 6 tcp ≠ 0 then
    .error 18
  else
    .ok
      { sequence := UInt32.ofNat (fromBeBytes (part tcp 4 4))
        acknowledgement := UInt32.ofNat (fromBeBytes (part tcp 8 4))
        flags := octet tcp 13
        payload := tcp.drop headerLength }

def parseTcpPacket (frame : Bytes) (interface : Interface) (expectedSource : ByteBlock 4)
    (expectedSourcePort expectedDestinationPort : UInt16) : Except ℕ TcpPacket :=
  if frame.length < 14 + 20 + tcpHeaderSize
      ∨ part frame 12 2 ≠ toBeBytes 2 0x0800
      ∨ octet frame 14 >>> 4 ≠ 4 then
    .error 10
  else
    let ipHeader := (octet frame 14 &&& 0x0F).toNat * 4
    let totalLength := word frame 16
    if ipHeader < 20 then .error 11
    else if totalLength < ipHeader + tcpHeaderSize
        ∨ 14 + totalLength > frame.length then
      .error 12
    else if octet frame 23 ≠ 6 then .error 13
    else if word frame 20 &&& 0x3FFF ≠ 0 then .error 14
    else if checksum (part frame 14 ipHeader) ≠ 0 then .error 15
    else if part frame 26 4 ≠ expectedSource.val
        ∨ part frame 30 4 ≠ interface.address.val then
      .error 16
    else
      parseTcpSegment (part frame (14 + ipHeader) (totalLength - ipHeader))
        interface expectedSource expectedSourcePort expectedDestinationPort

/-- The request for the link address of this host. -/
def isArpRequest (frame : Bytes) (interface : Interface) : Bool :=
  decide (42 ≤ frame.length)
    && part frame 12 2 == toBeBytes 2 0x0806
    && part frame 20 2 == toBeBytes 2 1
    && part frame 38 4 == interface.address.val

/-! ## Writing a frame -/

/-- The reply to a request for the link address. -/
def arpReply (incoming : Bytes) (interface : Interface) : Bytes :=
  part incoming 22 6 ++ interface.mac.val ++ toBeBytes 2 0x0806 ++
    part incoming 14 6 ++ toBeBytes 2 2 ++ interface.mac.val ++
    interface.address.val ++ part incoming 22 6 ++ part incoming 28 4

/-- An IPv4 header without options, with its checksum field filled in. -/
def packetHeader (protocol : UInt8) (length identification : ℕ) (source destination : ByteBlock 4)
    (check : ℕ) : Bytes :=
  ([0x45, 0] ++ toBeBytes 2 length ++ toBeBytes 2 identification ++
    toBeBytes 2 0x4000 ++ [64, protocol]) ++ toBeBytes 2 check ++ (source.val ++ destination.val)

def tcpHeaderLength (flags : UInt8) : ℕ :=
  if flags &&& tcpSyn ≠ 0 then tcpSynHeaderSize else tcpHeaderSize

/-- The only option that is ever sent: the segment size a SYN announces. -/
def tcpOptions (flags : UInt8) : Bytes :=
  if flags &&& tcpSyn ≠ 0 then [2, 4, 0x05, 0xB4] else []

/-- A segment with its checksum field filled in. -/
def tcpSegment (sourcePort destinationPort : UInt16) (packet : TcpPacket) (check : ℕ) : Bytes :=
  (toBeBytes 2 sourcePort.toNat ++ toBeBytes 2 destinationPort.toNat ++
    toBeBytes 4 packet.sequence.toNat ++ toBeBytes 4 packet.acknowledgement.toNat ++
    [UInt8.ofNat (tcpHeaderLength packet.flags / 4) <<< 4, packet.flags] ++
    toBeBytes 2 tcpReceiveWindow) ++ toBeBytes 2 check ++
      ([0, 0] ++ tcpOptions packet.flags ++ packet.payload)

/-- The two ends of a connection, which no call on it changes. -/
structure TcpEndpoints where
  interface : Interface
  destinationMac : ByteBlock 6
  destination : ByteBlock 4
  sourcePort : UInt16
  destinationPort : UInt16

namespace TcpEndpoints

/-- The same connection as the peer sees it. -/
def swap (ends : TcpEndpoints) : TcpEndpoints where
  interface := ⟨ends.destinationMac, ends.destination⟩
  destinationMac := ends.interface.mac
  destination := ends.interface.address
  sourcePort := ends.destinationPort
  destinationPort := ends.sourcePort

/-- A frame from the other end. -/
def parse (ends : TcpEndpoints) (frame : Bytes) : Except ℕ TcpPacket :=
  parseTcpPacket frame ends.interface ends.destination ends.destinationPort
    ends.sourcePort

/-- The frame that carries a packet to the other end, if it fits. -/
def tcpFrame (ends : TcpEndpoints) (packet : TcpPacket) : Option Bytes :=
  let tcpLength := tcpHeaderLength packet.flags + packet.payload.length
  let ipLength := 20 + tcpLength
  let frameLength := 14 + ipLength
  if tcpLength > 1500 - 20 ∨ frameLength > frameCapacity then none
  else
    let ip := packetHeader 6 ipLength (packet.sequence.toNat % 65536)
      ends.interface.address ends.destination
    let tcp := tcpSegment ends.sourcePort ends.destinationPort packet
    some (ends.destinationMac.val ++ ends.interface.mac.val ++
      toBeBytes 2 0x0800 ++ ip (checksum (ip 0)) ++
      tcp (transportChecksum ends.interface.address ends.destination 6
        (tcp 0)))

/-- The frame by which the peer sends a packet. -/
def peerFrame (ends : TcpEndpoints) (packet : TcpPacket) : Bytes :=
  (ends.swap.tcpFrame packet).getD []

end TcpEndpoints

/-- Two hosts of a local network. -/
def localEnds : TcpEndpoints where
  interface := ⟨⟨[2, 0, 0, 0, 0, 1], rfl⟩, ⟨[10, 0, 2, 15], rfl⟩⟩
  destinationMac := ⟨[2, 0, 0, 0, 0, 2], rfl⟩
  destination := ⟨[10, 0, 2, 2], rfl⟩
  sourcePort := 49194
  destinationPort := 80

/-! ## What is sent is read back -/

theorem fromBeBytes_halfWord (n : UInt16) : fromBeBytes (toBeBytes 2 n.toNat) = n.toNat :=
  fromBeBytes_toBeBytes_of_lt (by simpa using n.toNat_lt)

theorem fromBeBytes_fullWord (n : UInt32) : fromBeBytes (toBeBytes 4 n.toNat) = n.toNat :=
  fromBeBytes_toBeBytes_of_lt (by simpa using n.toNat_lt)

theorem ByteBlock.exists_four (block : ByteBlock 4) : ∃ a b c d, block = ⟨[a, b, c, d], rfl⟩ := by
  match block with
  | ⟨[a, b, c, d], _⟩ => exact ⟨a, b, c, d, rfl⟩

theorem ByteBlock.exists_six (block : ByteBlock 6) :
    ∃ a b c d e f, block = ⟨[a, b, c, d, e, f], rfl⟩ := by
  match block with
  | ⟨[a, b, c, d, e, f], _⟩ => exact ⟨a, b, c, d, e, f, rfl⟩

section Segment

variable (sourcePort destinationPort : UInt16) (packet : TcpPacket)

theorem tcpHeaderLength_eq (flags : UInt8) :
    tcpHeaderLength flags = 20 + (tcpOptions flags).length := by
  rw [tcpHeaderLength, tcpOptions]
  split <;> rfl

variable (check : ℕ)

theorem length_tcpSegment :
    (tcpSegment sourcePort destinationPort packet check).length =
      tcpHeaderLength packet.flags + packet.payload.length := by
  rw [tcpHeaderLength_eq]
  simp only [tcpSegment, length_append, length_toBeBytes, length_cons, length_nil]
  omega

theorem word_sourcePort : word (tcpSegment sourcePort destinationPort packet check) 0 =
      sourcePort.toNat :=
  fromBeBytes_halfWord sourcePort

theorem word_destinationPort :
    word (tcpSegment sourcePort destinationPort packet check) 2 = destinationPort.toNat :=
  fromBeBytes_halfWord destinationPort

theorem part_sequence :
    fromBeBytes (part (tcpSegment sourcePort destinationPort packet check)
      4 4) = packet.sequence.toNat :=
  fromBeBytes_fullWord packet.sequence

theorem part_acknowledgement :
    fromBeBytes (part (tcpSegment sourcePort destinationPort packet check)
      8 4) = packet.acknowledgement.toNat :=
  fromBeBytes_fullWord packet.acknowledgement

theorem octet_dataOffset :
    (octet (tcpSegment sourcePort destinationPort packet check) 12
      >>> 4).toNat * 4 = tcpHeaderLength packet.flags := by
  change (UInt8.ofNat (tcpHeaderLength packet.flags / 4) <<< 4 >>> 4).toNat * 4 = _
  rw [tcpHeaderLength]
  split <;> rfl

theorem drop_header : (tcpSegment sourcePort destinationPort packet check).drop
      (tcpHeaderLength packet.flags) = packet.payload := by
  rw [tcpHeaderLength_eq, tcpSegment, ← append_assoc, ← append_assoc]
  apply drop_left'
  simp only [length_append, length_toBeBytes, length_cons, length_nil]

/-- A segment with its own checksum in the field passes the check. -/
theorem transportChecksum_tcpSegment (source destination : ByteBlock 4) :
    transportChecksum source destination 6 (tcpSegment sourcePort destinationPort packet
        (transportChecksum source destination 6
          (tcpSegment sourcePort destinationPort packet 0))) = 0 := by
  rw [transportChecksum, transportChecksum]
  simp only [length_tcpSegment]
  rw [tcpSegment, tcpSegment, checksumAdd_field]
  · exact checksumAdd_le (Nat.zero_le _) _
  · simp [length_toBeBytes]

theorem parseTcpSegment_tcpSegment (source : ByteBlock 4) (interface : Interface) : parseTcpSegment
      (tcpSegment sourcePort destinationPort packet (transportChecksum source interface.address 6
          (tcpSegment sourcePort destinationPort packet 0)))
      interface source sourcePort destinationPort = .ok packet := by
  have hsmall : tcpHeaderSize ≤ tcpHeaderLength packet.flags := by
    rw [tcpHeaderLength_eq]
    exact Nat.le_add_right _ _
  rw [parseTcpSegment, octet_dataOffset, if_neg, if_neg]
  · rw [drop_header, part_sequence, part_acknowledgement]
    simp only [UInt32.ofNat_toNat]
    rfl
  · exact not_not_intro (transportChecksum_tcpSegment ..)
  · rw [word_sourcePort, word_destinationPort, length_tcpSegment]
    omega

end Segment

/-! ## Packets -/

/-- A frame that carries a packet, with any padding behind it. -/
structure Carries (frame : Bytes) (protocol : UInt8) (source destination : ByteBlock 4)
    (body padding : Bytes) : Prop where
  length : frame.length = 34 + body.length + padding.length
  kind : frame.part 12 2 = toBeBytes 2 0x0800
  start : frame.word 14 = 0x4500
  version : frame.octet 14 = 0x45
  total : frame.word 16 = 20 + body.length
  fragment : frame.word 20 = 0x4000
  protocol : frame.octet 23 = protocol
  header : checksum (frame.part 14 20) = 0
  source : frame.part 26 4 = source.val
  destination : frame.part 30 4 = destination.val
  body : frame.part 34 body.length = body

theorem checksum_packetHeader (protocol : UInt8) (length identification : ℕ)
    (source destination : ByteBlock 4) :
    checksum (packetHeader protocol length identification source destination
      (checksum (packetHeader protocol length identification source destination 0))) = 0 := by
  rw [checksum, checksum, packetHeader, packetHeader, checksumAdd_field]
  · exact Nat.zero_le _
  · simp

theorem carries_packet (protocol : UInt8) (identification : ℕ) (source destination : ByteBlock 4)
    (destinationMac sourceMac : ByteBlock 6) {body : Bytes} (hshort : body.length ≤ 1480)
    (padding : Bytes) :
    Carries (destinationMac.val ++ sourceMac.val ++ toBeBytes 2 0x0800 ++
        packetHeader protocol (20 + body.length) identification source destination
          (checksum (packetHeader protocol (20 + body.length) identification source
            destination 0)) ++ body ++ padding) protocol source destination body padding := by
  have hcheck := checksum_packetHeader protocol (20 + body.length) identification source destination
  generalize checksum (packetHeader _ _ _ _ _ 0) = check at hcheck ⊢
  have htotal : fromBeBytes (toBeBytes 2 (20 + body.length)) = 20 + body.length :=
    fromBeBytes_toBeBytes_of_lt (by omega)
  obtain ⟨a, b, c, d, rfl⟩ := ByteBlock.exists_four source
  obtain ⟨e, f, g, h, rfl⟩ := ByteBlock.exists_four destination
  obtain ⟨i, j, k, l, m, n, rfl⟩ := ByteBlock.exists_six destinationMac
  obtain ⟨o, p, q, r, s, t, rfl⟩ := ByteBlock.exists_six sourceMac
  refine ⟨?_, rfl, rfl, rfl, htotal, rfl, rfl, hcheck, rfl, rfl, ?_⟩
  · simp only [packetHeader, length_append, length_toBeBytes, length_cons, length_nil]
  · rw [append_assoc _ body]
    exact take_left

namespace Carries

variable {frame body padding : Bytes} {protocol : UInt8} {source destination : ByteBlock 4}

theorem headerLength (h : Carries frame protocol source destination body padding) :
    (frame.octet 14 &&& 0x0F).toNat * 4 = 20 := by
  rw [h.version]
  rfl

/-- The checks before the segment pass on a frame that carries one. -/
theorem parseTcpPacket (h : Carries frame 6 source destination body padding) (mac : ByteBlock 6)
    (sourcePort destinationPort : UInt16) (hlong : tcpHeaderSize ≤ body.length) :
    parseTcpPacket frame ⟨mac, destination⟩ source sourcePort destinationPort =
      parseTcpSegment body ⟨mac, destination⟩ source sourcePort destinationPort := by
  rw [tcpHeaderSize] at hlong
  rw [ExpOS.parseTcpPacket, h.headerLength, h.total, if_neg, if_neg, if_neg, if_neg, if_neg,
    if_neg, if_neg]
  · rw [Nat.add_sub_cancel_left, h.body]
  · rw [h.source, h.destination]
    exact fun h => h.elim (· rfl) (· rfl)
  · exact not_not_intro h.header
  · rw [h.fragment]
    exact not_not_intro rfl
  · exact not_not_intro h.protocol
  · rw [h.length, tcpHeaderSize]
    omega
  · exact Nat.lt_irrefl 20
  rw [h.length, h.kind, h.version, tcpHeaderSize]
  rintro (h | h | h)
  · omega
  · exact h rfl
  · exact h rfl

end Carries

namespace TcpEndpoints

variable (ends : TcpEndpoints) {packet : TcpPacket} {frame : Bytes}

/-- The segment of a packet with its own checksum. -/
def segment (packet : TcpPacket) : Bytes :=
  tcpSegment ends.sourcePort ends.destinationPort packet
    (transportChecksum ends.interface.address ends.destination 6
      (tcpSegment ends.sourcePort ends.destinationPort packet 0))

theorem carries_tcpFrame (h : ends.tcpFrame packet = some frame) (padding : Bytes) :
    Carries (frame ++ padding) 6 ends.interface.address ends.destination (ends.segment packet)
      padding := by
  have hlength : (ends.segment packet).length = _ := length_tcpSegment ..
  rw [tcpFrame] at h
  split at h
  · cases h
  rw [← Option.some.inj h]
  simp only [← hlength]
  exact carries_packet 6 _ _ _ _ _ (by omega) padding

/-- The other end reads the packet that was sent, also from a frame that the
driver has padded. -/
theorem parse_tcpFrame (h : ends.tcpFrame packet = some frame) (padding : Bytes) :
    ends.swap.parse (frame ++ padding) = .ok packet := by
  rw [parse, swap, (ends.carries_tcpFrame h padding).parseTcpPacket]
  · exact parseTcpSegment_tcpSegment _ _ packet _ ⟨ends.destinationMac, ends.destination⟩
  · rw [segment, length_tcpSegment, tcpHeaderLength_eq, tcpHeaderSize]
    omega

end TcpEndpoints

theorem TcpEndpoints.parse_peerFrame (ends : TcpEndpoints)
    {packet : TcpPacket} (h : (ends.swap.tcpFrame packet).isSome = true) :
    ends.parse (ends.peerFrame packet) = .ok packet := by
  obtain ⟨frame, hframe⟩ := isSome_iff_exists.mp h
  have hparse := ends.swap.parse_tcpFrame hframe []
  rw [append_nil] at hparse
  rw [peerFrame, hframe]
  exact hparse

/-- No end reads an answer about link addresses as a packet. -/
theorem parse_arpReply {incoming : Bytes} {interface : Interface}
    (h : isArpRequest incoming interface = true) (ends : TcpEndpoints) (padding : Bytes) :
    ends.parse (arpReply incoming interface ++ padding) = .error 10 := by
  have hlong : 42 ≤ incoming.length := by
    simp only [isArpRequest, Bool.and_eq_true, decide_eq_true_eq] at h
    exact h.1.1.1
  have hkind : part (arpReply incoming interface ++ padding) 12 2 = toBeBytes 2 0x0806 := by
    have hfront : (part incoming 22 6 ++ interface.mac.val).length = 12 := by
      simp only [part, length_append, length_take, length_drop, interface.mac.property]
      omega
    simp only [arpReply, append_assoc] at hfront ⊢
    rw [part, ← append_assoc, drop_left' hfront]
    rfl
  rw [TcpEndpoints.parse, parseTcpPacket, if_pos]
  right
  left
  rw [hkind]
  decide

end ExpOS
