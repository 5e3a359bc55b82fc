import ExpOS.Network.Tcp
import ExpOS.Support.Outcome

/-!
# Frames that are built and parsed

A datagram travels like a segment, in an IPv4 packet in an Ethernet frame.
What one host builds the other one parses back, a frame with one word changed
is refused, and no parser reads outside the frame it is given.

The checksums only see the sum of the words modulo 65535.  A longer header
takes words from the segment behind it, but adds them to one sum as it takes
them from the other, so that the two together still tell which word changed.
-/

namespace ExpOS

open List Outcome

open Bytes Checksum

/-! ## Reading with bounds -/

namespace Checked

variable {ε : Type} (octets : Bytes) {start width : ℕ}

/-- A slice of the octets; one that is out of range halts. -/
def part (start width : ℕ) : Outcome ε Bytes :=
  if start + width ≤ octets.length then .done (octets.part start width) else .halt

def octet (place : ℕ) : Outcome ε UInt8 :=
  if place < octets.length then .done (octets.octet place) else .halt

def word (place : ℕ) : Outcome ε ℕ := do
  return fromBeBytes (← part octets place 2)

variable {octets}

theorem part_eq (h : start + width ≤ octets.length) :
    (part octets start width : Outcome ε Bytes) = .done (octets.part start width) := if_pos h

variable {place : ℕ}

theorem octet_eq (h : place < octets.length) :
    (octet octets place : Outcome ε UInt8) = .done (octets.octet place) := if_pos h

theorem word_eq (h : place + 2 ≤ octets.length) :
    (word octets place : Outcome ε ℕ) = .done (octets.word place) := by
  rw [word, part_eq h]
  rfl

theorem length_part (h : start + width ≤ octets.length) :
    (octets.part start width).length = width := by
  rw [Bytes.part, length_take, length_drop]
  omega

end Checked

open Checked (part_eq octet_eq word_eq length_part)

/-- The segment parser as it indexes the frame. -/
def readTcpPacket (frame : Bytes) (interface : Interface) (expectedSource : ByteBlock 4)
    (expectedSourcePort expectedDestinationPort : UInt16) : Outcome ℕ TcpPacket := do
  if frame.length < 14 + 20 + tcpHeaderSize then .fail 10
  else
    let kind ← Checked.part frame 12 2
    let version ← Checked.octet frame 14
    if kind ≠ toBeBytes 2 0x0800 ∨ version >>> 4 ≠ 4 then .fail 10
    else
      let ipHeader := (version &&& 0x0F).toNat * 4
      let totalLength ← Checked.word frame 16
      if ipHeader < 20 then .fail 11
      else if totalLength < ipHeader + tcpHeaderSize ∨ 14 + totalLength > frame.length then
        .fail 12
      else if (← Checked.octet frame 23) ≠ 6 then .fail 13
      else if (← Checked.word frame 20) &&& 0x3FFF ≠ 0 then .fail 14
      else if checksum (← Checked.part frame 14 ipHeader) ≠ 0 then .fail 15
      else if (← Checked.part frame 26 4) ≠ expectedSource.val
          ∨ (← Checked.part frame 30 4) ≠ interface.address.val then .fail 16
      else
        let tcp ← Checked.part frame (14 + ipHeader) (totalLength - ipHeader)
        let headerLength := ((← Checked.octet tcp 12) >>> 4).toNat * 4
        if (← Checked.word tcp 0) ≠ expectedSourcePort.toNat
            ∨ (← Checked.word tcp 2) ≠ expectedDestinationPort.toNat
            ∨ headerLength < tcpHeaderSize ∨ headerLength > tcp.length then .fail 17
        else if transportChecksum expectedSource interface.address 6 tcp ≠ 0 then .fail 18
        else
          return {
            sequence := UInt32.ofNat (fromBeBytes (← Checked.part tcp 4 4))
            acknowledgement := UInt32.ofNat (fromBeBytes (← Checked.part tcp 8 4))
            flags := ← Checked.octet tcp 13
            payload := ← Checked.part tcp headerLength (tcp.length - headerLength) }

/-- Every place the segment parser looks at is inside the frame. -/
theorem readTcpPacket_eq (frame : Bytes) (interface : Interface) (expectedSource : ByteBlock 4)
    (sourcePort destinationPort : UInt16) :
    readTcpPacket frame interface expectedSource sourcePort destinationPort =
      match parseTcpPacket frame interface expectedSource sourcePort destinationPort with
      | .ok packet => .done packet
      | .error error => .fail error := by
  rw [readTcpPacket, parseTcpPacket]
  by_cases hshort : frame.length < 14 + 20 + tcpHeaderSize
  · rw [if_pos hshort, if_pos (.inl hshort)]
  rw [if_neg hshort, part_eq (by omega), octet_eq (by omega),
    word_eq (by omega)]
  simp only [done_bind, hshort, false_or]
  iterate 3
    split
    · rfl
  rename_i hheader hlengths
  rw [tcpHeaderSize] at hlengths
  rw [octet_eq (by omega), done_bind]
  split
  · rfl
  rw [word_eq (by omega), done_bind]
  split
  · rfl
  rw [part_eq (by omega), done_bind]
  split
  · rfl
  rw [part_eq (by omega), done_bind, part_eq (by omega), done_bind]
  split
  · rfl
  rw [part_eq (by omega), done_bind]
  generalize htcp : frame.part _ (frame.word 16 - _) = tcp
  have hlength : tcp.length = frame.word 16 - (frame.octet 14 &&& 0x0F).toNat * 4 := by
    rw [← htcp]
    exact length_part (by omega)
  rw [parseTcpSegment, octet_eq (by omega), word_eq (by omega),
    word_eq (by omega)]
  simp only [done_bind]
  split
  · rfl
  split
  · rfl
  have hpayload : tcp.part ((tcp.octet 12 >>> 4).toNat * 4)
      (tcp.length - (tcp.octet 12 >>> 4).toNat * 4) =
      tcp.drop ((tcp.octet 12 >>> 4).toNat * 4) :=
    take_of_length_le (by rw [length_drop])
  rw [part_eq (by omega), part_eq (by omega), octet_eq (by omega),
    part_eq (by omega), hpayload]
  rfl

/-! ## Datagrams -/

/-- A datagram with its checksum field filled in. -/
def udpDatagram (sourcePort destinationPort : UInt16) (payload : Bytes) (check : ℕ) : Bytes :=
  (toBeBytes 2 sourcePort.toNat ++ toBeBytes 2 destinationPort.toNat ++
    toBeBytes 2 (8 + payload.length)) ++ toBeBytes 2 check ++ payload

/-- The checksum field of a datagram, in which zero stands for none. -/
def udpChecksum (source destination : ByteBlock 4) (datagram : ℕ → Bytes) : ℕ :=
  let check := transportChecksum source destination 17 (datagram 0)
  if check = 0 then 65535 else check

def udpSourcePort (connectionSeed : UInt64) : UInt16 := 49152 + connectionSeed.toUInt16 % 16384

/-- The frame that `udp_exchange` sends to a neighbor, if it sends one. -/
def udpFrame (interface : Interface) (neighbor : ByteBlock 6) (destination : ByteBlock 4)
    (destinationPort : UInt16) (connectionSeed : UInt64) (payload : Bytes) : Option Bytes :=
  if destinationPort = 0 ∨ payload.length > 1500 - 20 - 8 then none
  else
    let ip := packetHeader 17 (28 + payload.length) connectionSeed.toUInt16.toNat
      interface.address destination
    let udp := udpDatagram (udpSourcePort connectionSeed) destinationPort payload
    some (neighbor.val ++ interface.mac.val ++ toBeBytes 2 0x0800 ++ ip (checksum (ip 0)) ++
      udp (udpChecksum interface.address destination udp))

def parseUdpReply (frame : Bytes) (localAddress expectedSource : ByteBlock 4)
    (expectedSourcePort expectedDestinationPort : UInt16) : Outcome Unit Bytes := do
  if frame.length < 14 + 20 + 8 then .fail ()
  else
    let kind ← Checked.part frame 12 2
    let version ← Checked.octet frame 14
    if kind ≠ toBeBytes 2 0x0800 ∨ version >>> 4 ≠ 4 then .fail ()
    else
      let ipHeader := (version &&& 0x0F).toNat * 4
      let totalLength ← Checked.word frame 16
      if ipHeader < 20 ∨ totalLength < ipHeader + 8 ∨ 14 + totalLength > frame.length then .fail ()
      else if (← Checked.word frame 20) &&& 0x3FFF ≠ 0
          ∨ checksum (← Checked.part frame 14 ipHeader) ≠ 0 ∨ (← Checked.octet frame 23) ≠ 17
          ∨ (← Checked.part frame 26 4) ≠ expectedSource.val
          ∨ (← Checked.part frame 30 4) ≠ localAddress.val then .fail ()
      else
        let offset := 14 + ipHeader
        let udpLength ← Checked.word frame (offset + 4)
        if (← Checked.word frame offset) ≠ expectedSourcePort.toNat
            ∨ (← Checked.word frame (offset + 2)) ≠ expectedDestinationPort.toNat
            ∨ udpLength < 8 ∨ offset + udpLength > 14 + totalLength then .fail ()
        else
          let udp ← Checked.part frame offset udpLength
          if (← Checked.word udp 6) ≠ 0
              ∧ transportChecksum expectedSource localAddress 17 udp ≠ 0 then .fail ()
          else Checked.part udp 8 (udp.length - 8)

theorem parseUdpReply_ne_halt (frame : Bytes) (localAddress expectedSource : ByteBlock 4)
    (sourcePort destinationPort : UInt16) :
    parseUdpReply frame localAddress expectedSource sourcePort destinationPort ≠ .halt := by
  rw [parseUdpReply]
  split
  · exact nofun
  rw [part_eq (by omega), octet_eq (by omega), word_eq (by omega)]
  simp only [done_bind]
  split
  · exact nofun
  split
  · exact nofun
  rw [word_eq (by omega), part_eq (by omega), octet_eq (by omega),
    part_eq (by omega), part_eq (by omega)]
  simp only [done_bind]
  split
  · exact nofun
  rw [word_eq (by omega), word_eq (by omega), word_eq (by omega)]
  simp only [done_bind]
  split
  · exact nofun
  rw [part_eq (by omega), done_bind]
  generalize hudp : frame.part _ (frame.word _) = udp
  have hlength : 8 ≤ udp.length := by
    rw [← hudp, length_part (by omega)]
    omega
  rw [word_eq (by omega), done_bind]
  split
  · exact nofun
  rw [part_eq (by omega)]
  exact nofun

section Datagram

variable (source destination : ByteBlock 4) (sourcePort destinationPort : UInt16)
  (payload : Bytes)

@[simp] theorem length_udpDatagram (check : ℕ) :
    (udpDatagram sourcePort destinationPort payload check).length = 8 + payload.length := by
  simp only [udpDatagram, length_append, length_toBeBytes]

/-- A datagram with its own checksum in the field passes the check. -/
theorem transportChecksum_udpDatagram :
    transportChecksum source destination 17 (udpDatagram sourcePort destinationPort payload
      (udpChecksum source destination (udpDatagram sourcePort destinationPort payload))) = 0 := by
  rw [udpChecksum, transportChecksum, transportChecksum]
  simp only [length_udpDatagram]
  have hsum := checksumAdd_le (Nat.zero_le 65535) (source.val ++ destination.val ++ [0, 17] ++
    toBeBytes 2 (8 + payload.length))
  generalize checksumAdd 0 _ = sum at hsum ⊢
  have hfront : (toBeBytes 2 sourcePort.toNat ++ toBeBytes 2 destinationPort.toNat ++
      toBeBytes 2 (8 + payload.length)).length % 2 = 0 := by
    simp only [length_append, length_toBeBytes]
  split
  · next hfull =>
      -- With a zero field the sum is full already, and a full field keeps it so.
      have hmod := checksumAdd_modEq sum (udpDatagram sourcePort destinationPort payload 0)
      have hle := checksumAdd_le hsum (udpDatagram sourcePort destinationPort payload 0)
      rw [show checksumAdd sum (udpDatagram sourcePort destinationPort payload 0) = 65535 by omega,
        udpDatagram, append_assoc, wordSum_append hfront, wordSum_toBeBytes (Nat.zero_le _)] at hmod
      rw [checksumAdd_eq_of_dvd hsum]
      · rw [udpDatagram, append_assoc, wordSum_append hfront, wordSum_toBeBytes le_rfl]
        have hdvd := Nat.modEq_zero_iff_dvd.mp (hmod.symm.trans rfl)
        omega
      · rw [udpDatagram, append_assoc, wordSum_append hfront, wordSum_toBeBytes le_rfl]
        omega
  · rw [udpDatagram, udpDatagram, checksumAdd_field hsum hfront]

variable {source destination sourcePort destinationPort}

/-- A packet whose datagram passes its checks is read. -/
theorem Carries.parseUdpReply {frame udp padding : Bytes}
    (h : Carries frame 17 source destination udp padding) (hlong : 8 ≤ udp.length)
    (hsource : udp.word 0 = sourcePort.toNat) (hdestination : udp.word 2 = destinationPort.toNat)
    (hlength : udp.word 4 = udp.length)
    (hudp : transportChecksum source destination 17 udp = 0) :
    parseUdpReply frame destination source sourcePort destinationPort = .done (udp.drop 8) := by
  have hsize := h.length
  have hword (place : ℕ) (hplace : place + 2 ≤ udp.length) :
      frame.word (34 + place) = udp.word place := by
    have hpart : udp.part place 2 = frame.part (34 + place) 2 := by
      conv_lhs => rw [← h.body]
      rw [part, part, part, drop_take, take_take, drop_drop, Nat.min_eq_left (by omega)]
    rw [Bytes.word, Bytes.word, hpart]
  have hpayload : udp.part 8 (udp.length - 8) = udp.drop 8 :=
    take_of_length_le (by rw [length_drop])
  rw [ExpOS.parseUdpReply, if_neg (by omega), part_eq (by omega),
    octet_eq (by omega), word_eq (by omega)]
  simp only [done_bind, h.headerLength, h.total]
  rw [if_neg, if_neg (by omega), word_eq (by omega), part_eq (by omega),
    octet_eq (by omega), part_eq (by omega), part_eq (by omega)]
  · simp only [done_bind, h.header]
    rw [if_neg, word_eq (by omega), word_eq (by omega), word_eq (by omega)]
    · simp only [done_bind]
      rw [hword 4 (by omega), hword 0 (by omega), hword 2 (by omega), hlength, if_neg (by omega),
        part_eq (by omega), h.body, done_bind, word_eq (by omega), done_bind,
        if_neg fun hbad => hbad.2 hudp, part_eq (by omega), hpayload]
    · simp [h.fragment, h.protocol, h.source, h.destination]
  rw [h.version, h.kind]
  exact fun hbad => hbad.elim (· rfl) (· rfl)

end Datagram

variable {interface : Interface} {destination : ByteBlock 4} {destinationPort : UInt16}
  {frame : Bytes}

/-- The peer reads the payload that was sent. -/
theorem parseUdpReply_udpFrame {neighbor : ByteBlock 6} {connectionSeed : UInt64}
    {payload : Bytes} (h : udpFrame interface neighbor destination destinationPort
      connectionSeed payload = some frame) :
    parseUdpReply frame destination interface.address (udpSourcePort connectionSeed)
      destinationPort = .done payload := by
  rw [udpFrame] at h
  split at h
  · cases h
  let udp := udpDatagram (udpSourcePort connectionSeed) destinationPort payload
    (udpChecksum interface.address destination
      (udpDatagram (udpSourcePort connectionSeed) destinationPort payload))
  have hlength : udp.length = 8 + payload.length := length_udpDatagram ..
  have htotal : 28 + payload.length = 20 + udp.length := by omega
  have hfield : fromBeBytes (toBeBytes 2 (8 + payload.length)) = udp.length := by
    rw [hlength]
    exact fromBeBytes_toBeBytes_of_lt (by omega)
  have hcarries := carries_packet 17 connectionSeed.toUInt16.toNat interface.address destination
    neighbor interface.mac (show udp.length ≤ 1480 by omega) []
  rw [append_nil, ← htotal] at hcarries
  rw [← Option.some.inj h]
  exact hcarries.parseUdpReply (by omega) (fromBeBytes_halfWord _) (fromBeBytes_halfWord _) hfield
    (transportChecksum_udpDatagram ..)

/-! ## One changed word -/

/-- The octets with another word at one place. -/
def withWord (octets : Bytes) (place word : ℕ) : Bytes :=
  octets.take place ++ toBeBytes 2 word ++ octets.drop (place + 2)

section Changed

variable {octets : Bytes} {start width place word : ℕ}

theorem getElem?_withWord (h : place + 2 ≤ octets.length) (i : ℕ) :
    (withWord octets place word)[i]? = if i < place then octets[i]?
      else if i < place + 2 then (toBeBytes 2 word)[i - place]? else octets[i]? := by
  have hlength := length_toBeBytes 2 word
  rw [withWord]
  grind

/-- A window that holds the place changes with it. -/
theorem part_withWord (h : place + 2 ≤ width) (hlength : start + width ≤ octets.length) :
    (withWord octets (start + place) word).part start width =
      withWord (octets.part start width) place word := by
  apply ext_getElem?
  intro i
  rw [getElem?_withWord (by rw [length_part hlength]; omega)]
  simp only [part, getElem?_take, getElem?_drop]
  rw [getElem?_withWord (by omega)]
  grind

theorem word_withWord_of_apart {other : ℕ} (h : place + 2 ≤ octets.length)
    (hapart : other + 2 ≤ place ∨ place + 2 ≤ other) :
    (withWord octets place word).word other = octets.word other := by
  have hpart : (withWord octets place word).part other 2 = octets.part other 2 := by
    apply ext_getElem?
    intro i
    simp only [part, getElem?_take, getElem?_drop]
    rw [getElem?_withWord h]
    grind
  rw [Bytes.word, hpart]
  rfl

theorem word_withWord (h : place + 2 ≤ octets.length) (hword : word ≤ 65535) :
    (withWord octets place word).word place = word := by
  have hpart : (withWord octets place word).part place 2 = toBeBytes 2 word := by
    rw [withWord, append_assoc, part, drop_left' (by rw [length_take]; omega)]
    exact take_left' (length_toBeBytes 2 word)
  rw [Bytes.word, hpart]
  exact fromBeBytes_toBeBytes_of_lt (by omega)

theorem withWord_self (h : place + 2 ≤ octets.length) :
    withWord octets place (octets.word place) = octets := by
  have hback : toBeBytes 2 (octets.word place) = octets.part place 2 := by
    have hinverse := toBeBytes_fromBeBytes (octets.part place 2)
    rwa [length_part h] at hinverse
  rw [withWord, hback, part, append_assoc, ← drop_drop, take_append_drop, take_append_drop]

theorem word_le (octets : Bytes) (place : ℕ) : octets.word place ≤ 65535 := by
  have hlt := fromLeBytes_lt (octets.part place 2).reverse
  have hlength : (octets.part place 2).reverse.length ≤ 2 := by
    rw [length_reverse]
    exact length_take_le _ _
  have hpow := Nat.pow_le_pow_right (by decide : 0 < 256) hlength
  rw [Bytes.word, fromBeBytes]
  omega

theorem wordSum_withWord (heven : place % 2 = 0) (h : place + 2 ≤ octets.length)
    (hword : word ≤ 65535) :
    wordSum (withWord octets place word) =
      wordSum (octets.take place) + word + wordSum (octets.drop (place + 2)) := by
  have hfront : (octets.take place).length % 2 = 0 := by
    rw [length_take]
    omega
  rw [withWord, append_assoc, wordSum_append hfront, wordSum_toBeBytes hword, Nat.add_assoc]

/-- The sum over a window changes by the difference of the words. -/
theorem wordSum_part_withWord (heven : place % 2 = 0) (h : place + 2 ≤ width)
    (hlength : start + width ≤ octets.length) (hword : word ≤ 65535) :
    wordSum ((withWord octets (start + place) word).part start width) +
        octets.word (start + place) = wordSum (octets.part start width) + word := by
  have hplace : place + 2 ≤ (octets.part start width).length := by
    rw [length_part hlength]
    exact h
  have hself : octets.part start width =
      withWord (octets.part start width) place (octets.word (start + place)) := by
    have hwhole : withWord octets (start + place) (octets.word (start + place)) = octets :=
      withWord_self (by omega)
    exact (congrArg (·.part start width) hwhole).symm.trans (part_withWord h hlength)
  rw [part_withWord h hlength, wordSum_withWord heven hplace hword]
  conv_rhs => rw [hself, wordSum_withWord heven hplace (word_le _ _)]
  omega

end Changed

variable {octets : Bytes}

theorem word_eq_octets {place : ℕ} (h : place + 2 ≤ octets.length) :
    octets.word place = (octets.octet place).toNat * 256 + (octets.octet (place + 1)).toNat := by
  have hpart : octets.part place 2 = [octets.octet place, octets.octet (place + 1)] := by
    apply ext_getElem?
    intro i
    simp only [part, octet]
    grind
  rw [Bytes.word, hpart]
  simp [fromBeBytes, fromLeBytes]
  omega

/-- A block whose checksum is zero sums up to a multiple of 65535. -/
theorem dvd_of_checksumAdd {sum : ℕ} (hsum : sum ≤ 65535)
    (h : 65535 - checksumAdd sum octets = 0) : 65535 ∣ sum + wordSum octets := by
  have hle := checksumAdd_le hsum octets
  have hmod := (checksumAdd_modEq sum octets).symm
  rw [show checksumAdd sum octets = 65535 by omega] at hmod
  exact Nat.modEq_zero_iff_dvd.mp (hmod.trans rfl)

variable {source : ByteBlock 4}

theorem dvd_of_transportChecksum {protocol : UInt8} (hlength : octets.length ≤ 65535)
    (h : transportChecksum source destination protocol octets = 0) :
    65535 ∣ wordSum (source.val ++ destination.val ++ [0, protocol]) + octets.length +
      wordSum octets := by
  have hpseudo : wordSum (source.val ++ destination.val ++ [0, protocol] ++
      toBeBytes 2 octets.length) =
      wordSum (source.val ++ destination.val ++ [0, protocol]) + octets.length := by
    have hback := wordSum_toBeBytes hlength []
    rw [append_nil] at hback
    rw [wordSum_append (by simp [source.property, destination.property]), hback]
    rfl
  have hmod := checksumAdd_modEq 0 (source.val ++ destination.val ++ [0, protocol] ++
    toBeBytes 2 octets.length)
  rw [Nat.zero_add, hpseudo] at hmod
  have hdvd := dvd_of_checksumAdd (checksumAdd_le (Nat.zero_le _) _) h
  exact Nat.modEq_zero_iff_dvd.mp ((hmod.symm.add_right _).trans (Nat.modEq_zero_iff_dvd.mpr hdvd))

/-- What the checksums of an accepted frame say about its words. -/
theorem accepted_sums {sourcePort : UInt16} {packet : TcpPacket}
    (h : parseTcpPacket frame interface source sourcePort destinationPort = .ok packet) :
    ∃ header, header = frame.word 14 / 256 % 16 * 4 ∧ frame.word 14 / 4096 = 4 ∧ 20 ≤ header ∧
      header ≤ frame.word 16 ∧ 14 + frame.word 16 ≤ frame.length ∧
      65535 ∣ wordSum (frame.part 14 header) ∧
      65535 ∣ wordSum (source.val ++ interface.address.val ++ [0, 6]) +
        (frame.word 16 - header) + wordSum (frame.part 14 (frame.word 16)) := by
  have hlow : (frame.octet 14 &&& 0x0F).toNat = (frame.octet 14).toNat % 16 := by
    exact Nat.and_two_pow_sub_one_eq_mod _ 4
  have hhigh : (frame.octet 14 >>> 4).toNat = (frame.octet 14).toNat / 16 := by
    exact Nat.shiftRight_eq_div_pow _ 4
  rw [parseTcpPacket] at h
  split at h
  · cases h
  dsimp only at h
  split at h
  · cases h
  split at h
  · cases h
  rename_i hheader hlengths
  iterate 2
    split at h
    · cases h
  split at h
  · cases h
  rename_i hip
  split at h
  · cases h
  rw [parseTcpSegment] at h
  split at h
  · cases h
  split at h
  · cases h
  rename_i htcp
  have hwords : frame.word 14 = _ := word_eq_octets (by omega)
  have hversion : (frame.octet 14 >>> 4).toNat = 4 := by
    rw [show frame.octet 14 >>> 4 = 4 by tauto]
    rfl
  have hsecond := (frame.octet (14 + 1)).toNat_lt
  generalize hsize : (frame.octet 14 &&& 0x0F).toNat * 4 = header at *
  have hwhole : frame.part 14 (frame.word 16) =
      frame.part 14 header ++ frame.part (14 + header) (frame.word 16 - header) := by
    rw [part, part, part, ← drop_drop, ← take_add]
    congr 1
    omega
  have heven : (frame.part 14 header).length % 2 = 0 := by
    rw [length_part (by omega)]
    omega
  have hsegment : (frame.part (14 + header) (frame.word 16 - header)).length =
      frame.word 16 - header := length_part (by omega)
  have hipSum := dvd_of_checksumAdd (Nat.zero_le _) (not_ne_iff.mp hip)
  have htcpSum := dvd_of_transportChecksum (by have := word_le frame 16; omega) (not_ne_iff.mp htcp)
  rw [Nat.zero_add] at hipSum
  refine ⟨header, by omega, by omega, by omega, by omega, by omega, hipSum, ?_⟩
  rw [hwhole, wordSum_append heven]
  omega

namespace TcpEndpoints

variable (ends : TcpEndpoints) {packet : TcpPacket} {frame : Bytes}

/-- No word of the packet can be replaced, but for the two ways to write zero. -/
theorem parse_withWord (h : ends.tcpFrame packet = some frame) {k word : ℕ}
    (hplace : 14 + 2 * k + 2 ≤ frame.length) (hword : word ≤ 65535)
    (hother : word ≠ frame.word (14 + 2 * k))
    (hup : ¬ (frame.word (14 + 2 * k) = 0 ∧ word = 65535))
    (hdown : ¬ (frame.word (14 + 2 * k) = 65535 ∧ word = 0)) :
    ∃ code, ends.swap.parse (withWord frame (14 + 2 * k) word) = .error code := by
  have hparse := ends.parse_tcpFrame h []
  rw [append_nil] at hparse
  have hcarries := ends.carries_tcpFrame h []
  rw [append_nil] at hcarries
  have hfirst := hcarries.start
  have hsecond : 14 + frame.word 16 = frame.length := by
    rw [hcarries.total, hcarries.length, length_nil]
    omega
  obtain ⟨header, hheader, -, -, hshort, -, hip, hboth⟩ := accepted_sums hparse
  obtain rfl : header = 20 := by rw [hheader, hfirst]
  have hold := word_le frame (14 + 2 * k)
  have hsum (width : ℕ) (hwidth : 2 * k + 2 ≤ width) (hlength : 14 + width ≤ frame.length) :=
    wordSum_part_withWord (Nat.mul_mod_right 2 k) hwidth hlength hword
  have hapart (other : ℕ) (hne : other + 2 ≤ 14 + 2 * k ∨ 14 + 2 * k + 2 ≤ other) :
      (withWord frame (14 + 2 * k) word).word other = frame.word other :=
    word_withWord_of_apart hplace hne
  cases hchanged : ends.swap.parse (withWord frame (14 + 2 * k) word) with
  | error code => exact ⟨code, rfl⟩
  | ok changed =>
    exfalso
    obtain ⟨header', hheader', hversion', hlong', hshort', -, hip', hboth'⟩ :=
      accepted_sums hchanged
    by_cases htotal : k = 1
    · -- the length of the packet is in the header's sum
      rw [hapart 14 (by omega), hfirst] at hheader'
      obtain rfl : header' = 20 := hheader'
      have hheaders := hsum 20 (by omega) (by omega)
      omega
    · rw [hapart 16 (by omega)] at hboth' hshort'
      have hpackets := hsum (frame.word 16) (by omega) (by omega)
      by_cases hzero : k = 0
      · -- a longer header lowers the length of the segment
        subst hzero
        have hnew : (withWord frame (14 + 2 * 0) word).word 14 = word := word_withWord hplace hword
        have hfirst' : frame.word (14 + 2 * 0) = 0x4500 := hfirst
        obtain ⟨a, ha⟩ := hboth
        obtain ⟨b, hb⟩ := hboth'
        have hsame : a = b := by omega
        omega
      · rw [hapart 14 (by omega), hfirst] at hheader'
        omega

end TcpEndpoints

/-- Within the capacity of a frame every packet and every datagram is sent, and
the peer reads back what it says; a packet with another word is refused, and
every frame is read to the end without leaving it. -/
theorem built_frames_parse_back :
    (∀ (ends : TcpEndpoints) (packet : TcpPacket),
      tcpHeaderLength packet.flags + packet.payload.length ≤ 1500 - 20 →
      ∃ frame, ends.tcpFrame packet = some frame ∧ ends.swap.parse frame = .ok packet ∧
        ∀ k word, 14 + 2 * k + 2 ≤ frame.length → word ≤ 0xFFFF →
          word ≠ frame.word (14 + 2 * k) → ¬ (frame.word (14 + 2 * k) = 0 ∧ word = 0xFFFF) →
          ¬ (frame.word (14 + 2 * k) = 0xFFFF ∧ word = 0) →
          ∃ code, ends.swap.parse (withWord frame (14 + 2 * k) word) = .error code) ∧
    (∀ (interface : Interface) (neighbor : ByteBlock 6) (destination : ByteBlock 4)
        (destinationPort : UInt16) (connectionSeed : UInt64) (payload : Bytes),
      destinationPort ≠ 0 → payload.length ≤ 1500 - 20 - 8 →
      ∃ frame, udpFrame interface neighbor destination destinationPort connectionSeed payload =
          some frame ∧
        parseUdpReply frame destination interface.address (udpSourcePort connectionSeed)
          destinationPort = .done payload) ∧
    ∀ (frame : Bytes) (interface : Interface) (source : ByteBlock 4)
      (sourcePort destinationPort : UInt16),
      (readTcpPacket frame interface source sourcePort destinationPort =
        match parseTcpPacket frame interface source sourcePort destinationPort with
        | .ok packet => .done packet
        | .error code => .fail code) ∧
      parseUdpReply frame interface.address source sourcePort destinationPort ≠ .halt := by
  refine ⟨?_, ?_, ?_⟩
  · intro ends packet hfits
    obtain ⟨frame, hframe⟩ : ∃ frame, ends.tcpFrame packet = some frame := by
      rw [TcpEndpoints.tcpFrame, if_neg (by rw [frameCapacity]; omega)]
      exact ⟨_, rfl⟩
    have hparse := ends.parse_tcpFrame hframe []
    rw [append_nil] at hparse
    exact ⟨frame, hframe, hparse, fun k word => ends.parse_withWord hframe⟩
  · intro interface neighbor destination destinationPort connectionSeed payload hport hfits
    obtain ⟨frame, hframe⟩ : ∃ frame, udpFrame interface neighbor destination destinationPort
        connectionSeed payload = some frame := by
      rw [udpFrame, if_neg (by push Not; exact ⟨hport, hfits⟩)]
      exact ⟨_, rfl⟩
    exact ⟨frame, hframe, parseUdpReply_udpFrame hframe⟩
  · intro frame interface source sourcePort destinationPort
    exact ⟨readTcpPacket_eq _ _ _ _ _, parseUdpReply_ne_halt _ _ _ _ _⟩

end ExpOS
