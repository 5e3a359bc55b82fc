import ExpOS.Network.Reading
import Mathlib.Data.List.Induction

/-!
# Writes and acknowledgements

The peer holds the octets it has received in order.  It may take any frame
that was sent, at any later time and any number of times, and every
acknowledgement it sends counts octets that it holds.  Between the two the
network may lose, repeat and reorder frames in both directions.

A write sends one segment and waits for the number after its last octet.  But
the routine that takes in a frame reports an acknowledgement of the number
before the first octet as well, and the write counts it as its own: any
segment the peer sent before it saw the write ends the call.  Moreover a
write that fails leaves the sequence number where it was, so that the next
write sends other octets under the same numbers.  In every run without such
acknowledgements and without a write after a failed one, the peer holds what
the writes have reported.
-/

namespace ExpOS

open List StreamEvent
open UInt32 (ofNat)

open Bytes Effect

/-! ## The peer -/

/-- What the peer holds, and the frames that were sent to it, each with the
number of octets it held at that moment. -/
structure PeerState where
  held : Bytes
  inFlight : List (ℕ × Bytes)

namespace PeerState

def initial : PeerState := ⟨[], []⟩

def sending (peer : PeerState) (frame : Bytes) : PeerState :=
  { peer with inFlight := (peer.held.length, frame) :: peer.inFlight }

end PeerState

section Peer

variable (ends : TcpEndpoints) (base : UInt32)

/-- A frame with the end of the stream was sent. -/
def Closing (peer : PeerState) : Prop :=
  ∃ sentAt frame padding packet, (sentAt, frame) ∈ peer.inFlight ∧
    ends.swap.parse (frame ++ padding) = .ok packet ∧ packet.has tcpFin = true

/-- The frame acknowledges only octets that the peer holds, and no less than
2 ^ 31 octets ago, or all of them and the end of the stream. -/
def AcknowledgesHeld (peer : PeerState) (frame : Bytes) : Prop :=
  ∀ packet, ends.parse frame = .ok packet → packet.has tcpAck = true →
    (∃ count ≤ peer.held.length, peer.held.length < count + 2 ^ 31 ∧
      packet.acknowledgement = base + UInt32.ofNat count) ∨
    Closing ends peer ∧ packet.acknowledgement = base + UInt32.ofNat (peer.held.length + 1)

/-- What passes the driver, seen from the peer. -/
inductive PeerEvent : LinkEvent → PeerState → PeerState → Prop
  | sent (frame : Bytes) (peer : PeerState) :
      PeerEvent (.sent frame) peer (peer.sending frame)
  | received (connection : TcpConnection) {frame : Bytes}
      {peer : PeerState} (h : AcknowledgesHeld ends base peer frame) :
      PeerEvent (.received connection frame) peer peer

/-- The peer takes a frame, perhaps padded, in which the next octet it waits
for may stand, and keeps some of the octets from there on. -/
inductive Takes : PeerState → PeerState → Prop
  | segment {peer : PeerState} {sentAt : ℕ} {frame padding : Bytes}
      {packet : TcpPacket} {offset : ℕ} (count : ℕ)
      (hframe : (sentAt, frame) ∈ peer.inFlight)
      (hdelay : peer.held.length < sentAt + 2 ^ 31)
      (hparse : ends.swap.parse (frame ++ padding) = .ok packet)
      (hsequence : packet.sequence = base + UInt32.ofNat offset)
      (hoffset : offset ≤ peer.held.length) :
      Takes peer
        { peer with
          held := peer.held ++
            (packet.payload.drop (peer.held.length - offset)).take count }

/-- The peer can be in this state after what has passed the driver. -/
inductive PeerRun : List LinkEvent → PeerState → Prop
  | start : PeerRun [] .initial
  | event {log : List LinkEvent} {event : LinkEvent}
      {peer peer' : PeerState} (h : PeerRun log peer)
      (hevent : PeerEvent ends base event peer peer') :
      PeerRun (log ++ [event]) peer'
  | takes {log : List LinkEvent} {peer peer' : PeerState}
      (h : PeerRun log peer) (htakes : Takes ends base peer peer') :
      PeerRun log peer'

variable {ends base} {log : List LinkEvent} {event : LinkEvent} {peer : PeerState}

/-- What an event establishes and taking frames keeps holds after it. -/
theorem PeerRun.last_event (h : PeerRun ends base (log ++ [event]) peer) (P : PeerState → Prop)
    (hevent : ∀ peer peer', PeerRun ends base log peer →
      PeerEvent ends base event peer peer' → P peer')
    (htakes : ∀ peer peer', P peer → Takes ends base peer peer' → P peer') : P peer := by
  generalize hlog : log ++ [event] = whole at h
  induction h with
  | start => simp at hlog
  | event hbefore hstep ih =>
    obtain ⟨rfl, hsame⟩ := append_inj' hlog rfl
    cases hsame
    exact hevent _ _ hbefore hstep
  | takes hbefore hstep ih => exact htakes _ _ (ih hlog) hstep

variable {peer' : PeerState}

theorem Takes.held (h : Takes ends base peer peer') : peer.held <+: peer'.held := by
  cases h
  exact prefix_append _ _

theorem PeerEvent.held (h : PeerEvent ends base event peer peer') : peer'.held = peer.held := by
  cases h <;> rfl

/-- The peer never lets go of octets. -/
theorem PeerRun.earlier {later : List LinkEvent} (h : PeerRun ends base (log ++ later) peer) :
    ∃ past, PeerRun ends base log past ∧ past.held <+: peer.held := by
  induction later using List.reverseRecOn generalizing peer with
  | nil =>
    rw [append_nil] at h
    exact ⟨peer, h, prefix_refl _⟩
  | append_singleton later event ih =>
    rw [← append_assoc] at h
    apply h.last_event fun peer => ∃ past, PeerRun ends base log past ∧ past.held <+: peer.held
    · intro before after hbefore hevent
      rw [hevent.held]
      exact ih hbefore
    · rintro before after ⟨past, hpast, hheld⟩ htakes
      exact ⟨past, hpast, hheld.trans htakes.held⟩

end Peer

/-! ## What is in flight -/

variable {ends : TcpEndpoints}

theorem acknowledgement_eq_some {frame : Bytes}
    {number : UInt32} (h : acknowledgement ends frame = some number) :
    ∃ packet, ends.parse frame = .ok packet ∧ packet.has tcpAck = true ∧
      packet.acknowledgement = number := by
  rw [acknowledgement] at h
  split at h
  · exact absurd h (by simp)
  rename_i packet hparse
  split at h
  · rename_i hflag
    exact ⟨packet, hparse, hflag, Option.some.inj h⟩
  · exact absurd h (by simp)

/-- The packet is without content or carries octets of the stream written so
far, from a place that the peer held when it was sent. -/
def IsWritten (base : UInt32) (acked current : Bytes) (sentAt : ℕ) (packet : TcpPacket) : Prop :=
  packet.payload = [] ∨ ∃ offset, packet.sequence = base + UInt32.ofNat offset ∧
      offset ≤ acked.length ∧ offset ≤ sentAt ∧ sentAt ≤ offset + packet.payload.length ∧
      packet.payload = part (acked ++ current) offset packet.payload.length ∧
      packet.payload.length ≤ tcpPayloadCapacity

/-- The peer holds what was acknowledged, nothing that was not written, and
nothing else is on its way. -/
structure PeerHolds (ends : TcpEndpoints) (base : UInt32)
    (acked current : Bytes) (peer : PeerState) : Prop where
  begins : acked <+: peer.held
  within : peer.held <+: acked ++ current
  flight : ∀ sentAt frame padding packet, (sentAt, frame) ∈ peer.inFlight →
    ends.swap.parse (frame ++ padding) = .ok packet → packet.has tcpFin = false ∧
      IsWritten base acked current sentAt packet

namespace PeerHolds

variable {ends : TcpEndpoints} {base : UInt32} {acked current : Bytes}
variable {peer peer' : PeerState}

theorem initial : PeerHolds ends base [] [] .initial :=
  ⟨ nil_prefix, nil_prefix, by simp [PeerState.initial]⟩

/-- A part of the rest of a list prolongs a beginning of it. -/
theorem append_part_prefix {front whole : Bytes} {offset length count : ℕ}
    (h : front <+: whole) (hoffset : offset ≤ front.length) :
    front ++ ((part whole offset length).drop (front.length - offset)).take count <+: whole := by
  obtain ⟨rest, rfl⟩ := h
  apply (prefix_append_right_inj _).mpr
  rw [part, drop_take, drop_drop, Nat.add_sub_cancel' hoffset, drop_left]
  exact ( take_prefix _ _).trans ( take_prefix _ _)

theorem takes (h : PeerHolds ends base acked current peer) (htakes : Takes ends base peer peer') :
    PeerHolds ends base acked current peer' := by
  have hheld := htakes.held
  obtain ⟨count, hframe, hdelay, hparse, hsequence, hoffset⟩ := htakes
  refine ⟨h.begins.trans hheld, ?_, h.flight⟩
  have hacked := h.begins.length_le
  obtain ⟨-, hnil | ⟨offset', hsequence', hle, hlow, hhigh, hpayload,
    hlength⟩⟩ := h.flight _ _ _ _ hframe hparse
  · rw [hnil, drop_nil, take_nil, append_nil]
    exact h.within
  rename_i packet offset
  by_cases hpast : offset + packet.payload.length ≤ peer.held.length
  · rw [drop_eq_nil_of_le (by omega), take_nil, append_nil]
    exact h.within
  rw [tcpPayloadCapacity] at hlength
  have hsame : offset = offset' :=
    offset_unique (hsequence.symm.trans hsequence') (by omega) (by omega)
  rw [hpayload, ← hsame]
  exact append_part_prefix h.within hoffset

variable {frame : Bytes}

theorem quiet (h : PeerHolds ends base acked current peer)
    (hquiet : Quiet ends frame) : PeerHolds ends base acked current (peer.sending frame) := by
  refine ⟨h.begins, h.within, ?_⟩
  intro sentAt frame' padding packet hmem hparse
  rcases mem_cons.mp hmem with heq | hmem
  · obtain ⟨-, rfl⟩ := Prod.mk.inj heq
    obtain ⟨hpayload, hfin⟩ := hquiet padding packet hparse
    exact ⟨hfin, .inl hpayload⟩
  · exact h.flight sentAt frame' padding packet hmem hparse

/-- The segment of the current write. -/
theorem segment (h : PeerHolds ends base acked current peer)
    {packet : TcpPacket} (hframe : ends.tcpFrame packet = some frame)
    (hsequence : packet.sequence = base + ofNat acked.length)
    (hpayload : packet.payload = current) (hlength : current.length ≤ tcpPayloadCapacity)
    (hfin : packet.has tcpFin = false) :
    PeerHolds ends base acked current (peer.sending frame) := by
  refine ⟨h.begins, h.within, ?_⟩
  intro sentAt frame' padding packet' hmem hparse
  rcases mem_cons.mp hmem with heq | hmem
  · obtain ⟨rfl, rfl⟩ := Prod.mk.inj heq
    rw [ends.parse_tcpFrame hframe padding] at hparse
    rw [← Except.ok.inj hparse]
    have hacked := h.begins.length_le
    have hheld := h.within.length_le
    rw [length_append] at hheld
    refine ⟨hfin, .inr ⟨acked.length, hsequence, le_refl _, hacked, ?_, ?_, ?_⟩⟩
    · rwa [hpayload]
    · rw [hpayload, part, drop_left, take_length]
    · rwa [hpayload]
  · exact h.flight sentAt frame' padding packet' hmem hparse

/-- While no end of the stream is on its way, the number after the last octet
is acknowledged only when the peer holds it. -/
theorem acknowledged (h : PeerHolds ends base acked current peer)
    (hlength : current.length ≤ tcpPayloadCapacity)
    (hack : AcknowledgesHeld ends base peer frame) (hexpected : acknowledgement ends frame =
      some (base + ofNat (acked.length + current.length))) :
    PeerHolds ends base (acked ++ current) [] peer := by
  have hbegins := h.begins.length_le
  have hwithin := h.within.length_le
  rw [length_append] at hwithin
  rw [tcpPayloadCapacity] at hlength
  obtain ⟨packet, hparse, hflag, hnumber⟩ := acknowledgement_eq_some hexpected
  have hall : peer.held = acked ++ current := by
    apply h.within.eq_of_length
    rw [length_append]
    rcases hack packet hparse hflag with ⟨count, hle, hdelay, hcount⟩ |
      ⟨⟨sentAt, sent, padding, fin, hmem, hfin, hclosing⟩, -⟩
    · have := offset_unique (hnumber.symm.trans hcount) (by omega) (by omega)
      omega
    · have := (h.flight sentAt sent padding fin hmem hfin).1
      exact absurd (this.symm.trans hclosing) (by simp)
  refine ⟨hall ▸ prefix_refl _, ?_, ?_⟩
  · simp [hall]
  intro sentAt frame' padding packet' hmem hparse'
  obtain ⟨hfin, hwritten⟩ := h.flight sentAt frame' padding packet' hmem hparse'
  refine ⟨hfin, hwritten.imp_right ?_⟩
  rintro ⟨offset, hsequence, hoffset, hlow, hhigh, hpayload, hshort⟩
  rw [← append_nil (acked ++ current)] at hpayload
  refine ⟨offset, hsequence, ?_, hlow, hhigh, hpayload, hshort⟩
  rw [length_append]
  omega

/-- A write starts. -/
theorem start (h : PeerHolds ends base acked [] peer) (payload : Bytes) :
    PeerHolds ends base acked payload peer := by
  refine ⟨h.begins, ?_, ?_⟩
  · have hwithin := h.within
    rw [append_nil] at hwithin
    exact hwithin.trans (prefix_append _ _)
  intro sentAt frame padding packet hmem hparse
  obtain ⟨hfin, hwritten⟩ := h.flight sentAt frame padding packet hmem hparse
  refine ⟨hfin, hwritten.imp_right ?_⟩
  rintro ⟨offset, hsequence, hoffset, hlow, hhigh, hpayload, hshort⟩
  refine ⟨offset, hsequence, hoffset, hlow, hhigh, ?_, hshort⟩
  have hlength := congrArg List.length hpayload
  rw [append_nil, part, length_take, length_drop] at hlength
  rw [part, drop_append_of_le_length hoffset, take_append_of_le_length (by rw [length_drop]; omega)]
  rw [append_nil, part] at hpayload
  exact hpayload

end PeerHolds

/-! ## The calls -/

/-- The frame acknowledges the number that comes next, so nothing of what is
being written. -/
def staleAck (ends : TcpEndpoints) (connection : TcpConnection) (frame : Bytes) : Bool :=
  match ends.parse frame with
  | .error _ => false
  | .ok packet => connection.acknowledgedBy packet

/-- Such a frame came. -/
def staleAcks (ends : TcpEndpoints) (log : List LinkEvent) : Bool :=
  log.any fun
    | .received connection frame => staleAck ends connection frame
    | .sent _ => false

section Calls

variable {σ : Type} (ends : TcpEndpoints) (link : Link σ)
variable (base : UInt32) (earlier : List LinkEvent)

/-- Whatever the peer did meanwhile, it holds what was acknowledged. -/
def Holding (acked current : Bytes) (world : StreamWorld σ) : Prop :=
  ∀ peer, PeerRun ends base (earlier ++ world.log) peer → PeerHolds ends base acked current peer

/-- The connection sends the octets of `current` next. -/
def Sending (acked current : Bytes) (world : StreamWorld σ) : Prop :=
  Holding ends base earlier acked current world ∧
    world.connection.localNext = base + UInt32.ofNat acked.length

variable {ends link base earlier}
variable {acked current : Bytes}

variable {frame : Bytes} {world : StreamWorld σ}

theorem Holding.sent (h : Holding ends base earlier acked current world) (next : σ)
    (hsent : ∀ peer, PeerHolds ends base acked current peer →
      PeerHolds ends base acked current (peer.sending frame)) :
    Holding ends base earlier acked current (world.sent frame next) := by
  intro peer hrun
  rw [StreamWorld.sent, ← append_assoc] at hrun
  apply hrun.last_event
  · rintro before after hbefore hevent
    cases hevent
    exact hsent before (h before hbefore)
  · exact fun before after hbefore htakes => hbefore.takes htakes

/-- A frame that comes changes nothing, and its acknowledgement is true. -/
theorem Holding.received
    (h : Holding ends base earlier acked current world) (frame : Bytes) (next : σ) :
    Holding ends base earlier acked current (world.received frame next) := by
  intro peer hrun
  rw [StreamWorld.received, ← append_assoc] at hrun
  apply hrun.last_event
  · rintro before after hbefore hevent
    cases hevent
    exact h _ hbefore
  · exact fun before after hbefore htakes => hbefore.takes htakes

theorem Holding.acknowledged (h : Holding ends base earlier acked current world)
    (hlength : current.length ≤ tcpPayloadCapacity) (next : σ)
    (hexpected : acknowledgement ends frame =
      some (base + ofNat (acked.length + current.length))) :
    Holding ends base earlier (acked ++ current) [] (world.received frame next) := by
  intro peer hrun
  rw [StreamWorld.received, ← append_assoc] at hrun
  apply hrun.last_event
  · rintro before after hbefore hevent
    cases hevent with
    | received _ hack =>
      exact (h _ hbefore).acknowledged hlength hack hexpected
  · exact fun before after hbefore htakes => hbefore.takes htakes

theorem steady_sending : Steady (σ := σ) ends (Sending ends base earlier acked current) where
  moved _ _ h := h
  sent _ _ next h hquiet := ⟨h.1.sent next fun _ hpeer => hpeer.quiet hquiet, h.2⟩

/-! ### Reads -/

/-- A condition that the steps of a read keep. -/
structure ReadKeeps (ends : TcpEndpoints) (P : StreamWorld σ → Prop) :
    Prop where
  steady : Steady ends P
  received : ∀ world frame next, P world → P (world.received frame next)
  connection : ∀ world connection, P world → connection.localNext = world.connection.localNext →
    connection.localClosed = world.connection.localClosed → P { world with connection }

variable {connection : TcpConnection}

theorem accept_local {packet : TcpPacket}
    {accepted : TcpConnection × Bool} (h : connection.accept packet = .ok accepted) :
    accepted.1.localNext = connection.localNext ∧
      accepted.1.localClosed = connection.localClosed := by
  rcases TcpConnection.accept_cases h with
    h | ⟨-, ⟨-, _, _, h | ⟨-, h⟩⟩ | ⟨-, -, h⟩⟩
  · rw [h]
    exact ⟨rfl, rfl⟩
  · rw [h]
    exact ⟨rfl, rfl⟩
  · rw [h]
    exact ⟨rfl, rfl⟩
  · rw [h]
    exact ⟨rfl, rfl⟩

variable {P : StreamWorld σ → Prop}

theorem ReadKeeps.readPending (hP : ReadKeeps ends P) (room : ℕ) :
    Returns P (readPending room) (ByAnswer P fun _ => P) P := by
  intro world h
  rw [run_readPending]
  have hdrained : P (world.drained room) := hP.connection world _ h rfl rfl
  dsimp only
  split
  · exact hdrained
  · split <;> exact hdrained

theorem ReadKeeps.readRounds (hP : ReadKeeps ends P) (room rounds : ℕ) :
    Maintains P (readRounds ends link room rounds) := by
  have hframe : ∀ frame, Returns P (readFrame ends link room frame) (ByAnswer P fun _ => P) P := by
    intro frame
    refine Ensures.bind ?_ fun _ => hP.readPending room
    apply ensures_receiveIntoPending fun _ => hP.steady
    · exact fun _ h => h
    · intro world packet connection accepted h _ haccept
      have hlocal := accept_local haccept
      exact hP.connection world connection h hlocal.1 hlocal.2
    · exact fun _ _ h => h
  induction rounds with
  | zero => exact ensures_fail fun _ h => h
  | succ rounds ih =>
    apply (ensures_pollFrames hP.steady hP.received (fun _ _ h => h)
      (fun _ h => h) hframe receivePolls).bind
    rintro (_ | octets)
    · exact (hP.steady.sendAckIf _).bind fun _ => ih
    · exact ensures_pure fun _ h => h

theorem ReadKeeps.readStream (hP : ReadKeeps ends P) (room : ℕ) :
    Maintains P (readStream ends link room) := by
  rw [ExpOS.readStream]
  split
  · exact ensures_pure fun _ h => h
  apply (hP.readPending room).bind
  rintro (_ | octets)
  · exact hP.readRounds room streamRetries
  · exact ensures_pure fun _ h => h

theorem readKeeps_sending : ReadKeeps (σ := σ) ends (Sending ends base earlier acked current) where
  steady := steady_sending
  received _ frame next h := ⟨h.1.received frame next, h.2⟩
  connection _ _ h hlocal _ := ⟨h.1, hlocal.trans h.2⟩

theorem readKeeps_closed : ReadKeeps (σ := σ) ends fun world =>
      world.connection.localClosed = true where
  steady := ⟨fun _ _ h => h, fun _ _ _ h _ => h⟩
  received _ _ _ h := h
  connection _ _ h _ hclosed := hclosed.trans h

/-! ### Writes -/

variable (ends base earlier acked current)

/-- A write that waits for its acknowledgement. -/
def Waiting (world : StreamWorld σ) : Prop :=
  staleAcks ends world.log = false → Sending ends base earlier acked current world

/-- The frame given to a write: where it is the acknowledgement, the peer
holds the segment. -/
def GivenToWrite (frame : Bytes) (world : StreamWorld σ) : Prop :=
  Waiting ends base earlier acked current world ∧ (staleAcks ends world.log = false →
      acknowledgement ends frame ≠ some world.connection.localNext ∧ (acknowledgement ends frame =
          some (base + UInt32.ofNat (acked.length + current.length)) →
        Holding ends base earlier (acked ++ current) [] world))

/-- A write that was acknowledged. -/
def Acknowledged (world : StreamWorld σ) : Prop :=
  staleAcks ends world.log = false → Sending ends base earlier (acked ++ current) [] world

variable {ends base earlier acked current} {log : List LinkEvent}

theorem staleAcks_sent : staleAcks ends (log ++ [.sent frame]) = staleAcks ends log := by
  simp [staleAcks]

theorem staleAcks_received (h : staleAcks ends (log ++ [.received connection frame]) = false) :
    staleAcks ends log = false ∧ acknowledgement ends frame ≠ some connection.localNext := by
  simp only [staleAcks, any_append, Bool.or_eq_false_iff] at h
  refine ⟨h.1, fun hack => ?_⟩
  obtain ⟨packet, hparse, hflag, hnumber⟩ := acknowledgement_eq_some hack
  simp [staleAck, hparse, TcpConnection.acknowledgedBy, hflag, hnumber] at h

theorem steady_waiting : Steady (σ := σ) ends (Waiting ends base earlier acked current) where
  moved _ _ h := h
  sent _ frame next h hquiet hstale :=
    steady_sending.sent _ frame next (h (staleAcks_sent ▸ hstale)) hquiet

theorem steady_acknowledged :
    Steady (σ := σ) ends (Acknowledged ends base earlier acked current) where
  moved _ _ h := h
  sent _ frame next h hquiet hstale :=
    steady_sending.sent _ frame next (h (staleAcks_sent ▸ hstale)) hquiet

theorem Waiting.received (hlength : current.length ≤ tcpPayloadCapacity)
    (h : Waiting ends base earlier acked current world) (frame : Bytes) (next : σ) :
    GivenToWrite ends base earlier acked current frame (world.received frame next) := by
  constructor
  · intro hstale
    have hsending := h (staleAcks_received hstale).1
    exact ⟨hsending.1.received frame next, hsending.2⟩
  · intro hstale
    obtain ⟨hbefore, hother⟩ := staleAcks_received hstale
    exact ⟨hother, fun hexpected => (h hbefore).1.acknowledged hlength next hexpected⟩

variable {number : UInt32}

/-- The frame that a write waits for. -/
theorem ensures_writeFrame_expected (hnumber : number = base + ofNat (acked ++ current).length)
    (hexpected : acknowledgement ends frame = some number) :
    Returns (GivenToWrite (σ := σ) ends base earlier acked current frame)
      (writeFrame ends link number frame) (ByAnswer (Waiting ends base earlier acked current)
        fun _ => Acknowledged ends base earlier acked current) fun _ => True := by
  rw [writeFrame, hexpected, beq_self_eq_true]
  have hset : Returns (GivenToWrite (σ := σ) ends base earlier acked current frame)
      (setConnection fun connection =>
        if true then { connection with localNext := number } else connection)
      (fun _ => Acknowledged ends base earlier acked current) fun _ => True := by
    apply ensures_modify
    intro world h hstale
    rw [length_append] at hnumber
    refine ⟨(h.2 hstale).2 (hnumber ▸ hexpected), ?_⟩
    rw [length_append]
    exact hnumber
  apply hset.bind
  intro _
  have hreceive : Returns (Acknowledged (σ := σ) ends base earlier acked current)
      (receiveIntoPending ends link frame)
      (fun _ => Acknowledged ends base earlier acked current) fun _ => True := by
    apply ensures_receiveIntoPending fun _ => steady_acknowledged
    · exact fun _ h => h
    · intro world packet connection accepted h _ haccept hstale
      exact ⟨(h hstale).1, (accept_local haccept).1.trans (h hstale).2⟩
    · exact fun _ _ _ => trivial
  apply hreceive.bind
  rintro ⟨_, acknowledged⟩
  simp only [Bool.or_true]
  refine Ensures.bind ?_ fun _ => ensures_pure fun _ h => h
  apply ensures_modify
  exact fun world h hstale => ⟨(h hstale).1, hnumber⟩

/-- Any other frame: it is reported as the acknowledgement only if it is a
stale one. -/
theorem ensures_writeFrame_other (hother : acknowledgement ends frame ≠ some number) :
    Returns (GivenToWrite (σ := σ) ends base earlier acked current frame)
      (writeFrame ends link number frame) (ByAnswer (Waiting ends base earlier acked current)
        fun _ => Acknowledged ends base earlier acked current) fun _ => True := by
  rw [writeFrame, beq_eq_false_iff_ne.mpr hother]
  have hreceive : Returns (GivenToWrite (σ := σ) ends base earlier acked current frame)
      (receiveIntoPending ends link frame)
      (fun answer world => staleAcks ends world.log = false →
        answer.2 = false ∧ Sending ends base earlier acked current world) fun _ => True := by
    apply @ensures_receiveIntoPending σ ends link _ (fun _ => True) _
      (fun acknowledged world => staleAcks ends world.log = false → acknowledged = false ∧
          Sending ends base earlier acked current world)
    · intro acknowledged
      constructor
      · exact fun _ _ h => h
      · intro world frame' next h hquiet hstale
        obtain ⟨hfalse, hsending⟩ := h (staleAcks_sent ▸ hstale)
        exact ⟨hfalse, steady_sending.sent world frame' next hsending hquiet⟩
    · exact fun world h hstale => ⟨rfl, h.1 hstale⟩
    · intro world packet connection accepted h hparse haccept hstale
      have hsending := h.1 hstale
      refine ⟨?_, hsending.1, (accept_local haccept).1.trans hsending.2⟩
      apply Bool.eq_false_iff.mpr
      intro hack
      apply (h.2 hstale).1
      simp only [TcpConnection.acknowledgedBy, Bool.and_eq_true, beq_iff_eq] at hack
      rw [acknowledgement, hparse]
      simp [hack.1, hack.2]
    · exact fun _ _ _ => trivial
  have hset : Returns (GivenToWrite (σ := σ) ends base earlier acked current frame)
      (setConnection fun connection =>
        if false then { connection with localNext := number } else connection)
      (fun _ => GivenToWrite ends base earlier acked current frame) fun _ => True :=
    ensures_modify fun _ h => h
  apply hset.bind
  intro _
  apply hreceive.bind
  rintro ⟨_, acknowledged⟩
  simp only [Bool.or_false]
  split
  · rename_i hack
    refine Ensures.bind ?_ fun _ => ensures_pure fun _ h => h
    apply ensures_modify
    intro world h hstale
    exact absurd (hack.symm.trans (h hstale).1) (by simp)
  · exact ensures_pure fun world h hstale => (h hstale).2

theorem ensures_writeRounds_sending (hlength : current.length ≤ tcpPayloadCapacity)
    {sequence : UInt32} (hsequence : sequence = base + ofNat acked.length) (rounds : ℕ) :
    Returns (Waiting ends base earlier acked current)
      (writeRounds ends link sequence current rounds) (fun count world => count = current.length ∧
        Acknowledged ends base earlier acked current world) fun _ => True := by
  induction rounds with
  | zero => exact ensures_fail fun _ _ => trivial
  | succ rounds ih =>
    have hsend : Maintains (Waiting ends base earlier acked current)
        (sendSegment ends link sequence (tcpAck ||| tcpPsh) current) := by
      apply ensures_sendSegment (fun _ h => h)
      intro world frame next h hframe hstale
      have hsending := h (staleAcks_sent ▸ hstale)
      refine ⟨hsending.1.sent next fun peer hpeer => ?_, hsending.2⟩
      apply hpeer.segment hframe hsequence rfl hlength
      change ((tcpAck ||| tcpPsh) &&& tcpFin != 0) = false
      decide
    apply (hsend.mono (fun _ h => h) (fun _ _ h => h) (fun _ _ _ => trivial) fun _ h => h).bind
    intro _
    have hnumber : sequence + ofNat current.length =
        base + ofNat (acked ++ current).length := by
      rw [hsequence, length_append, UInt32.ofNat_add, UInt32.add_assoc]
    have hframe : ∀ frame, Returns (GivenToWrite (σ := σ) ends base earlier acked current frame)
        (writeFrame ends link (sequence + ofNat current.length) frame)
        (ByAnswer (Waiting ends base earlier acked current)
          fun _ => Acknowledged ends base earlier acked current) fun _ => True := by
      intro frame
      by_cases hexpected : acknowledgement ends frame =
          some (sequence + ofNat current.length)
      · exact ensures_writeFrame_expected hnumber hexpected
      · exact ensures_writeFrame_other hexpected
    apply (ensures_pollFrames steady_waiting
      (fun world frame next h => h.received hlength frame next)
      (fun _ _ h => h.1) (fun _ _ => trivial) hframe receivePolls).bind
    rintro (_ | _)
    · exact ih
    · exact ensures_pure fun _ h => ⟨rfl, h⟩

variable (link) in
/-- A write that returns was acknowledged. -/
theorem ensures_writeStream_sending (input : Bytes) : Returns (Sending ends base earlier acked [])
      (writeStream ends link input) (fun count world => staleAcks ends world.log = false →
        Sending ends base earlier (acked ++ input.take count) [] world) fun _ => True := by
  apply ensures_get_bind
  intro world
  split
  · exact ensures_fail fun _ _ => trivial
  split
  · apply ensures_pure
    intro s h _
    rw [take_zero, append_nil]
    exact h.2
  intro s hs
  obtain ⟨rfl, hholding, hnext⟩ := hs
  generalize hcount : min input.length tcpPayloadCapacity = count
  have hlength : (input.take count).length = count := by
    rw [length_take]
    omega
  have hrounds := @ensures_writeRounds_sending σ ends link base earlier
    acked (input.take count) (by omega) s.connection.localNext hnext
    streamRetries
  refine hrounds.after ?_ s fun _ => ⟨?_, hnext⟩
  · rintro count' t ⟨rfl, hacknowledged⟩ hstale
    rw [hlength]
    exact hacknowledged hstale
  · exact fun peer hrun => (hholding peer hrun).start _

theorem closeStream_closes : Returns (fun _ => True) (closeStream ends link)
      (fun _ (world : StreamWorld σ) => world.connection.localClosed = true) fun _ => False := by
  apply ensures_get_bind
  intro world
  split
  · rename_i hclosed
    apply ensures_pure
    rintro s ⟨rfl, -⟩
    exact hclosed
  have hsend : Returns (fun t => t = world ∧ True)
      (sendSegment ends link world.connection.localNext (tcpFin ||| tcpAck) [])
      (fun _ _ => True) fun _ => True :=
    ensures_sendSegment (fun _ _ => trivial) fun _ _ _ _ _ => trivial
  apply hsend.attempt.bind
  intro _
  exact ensures_modify fun _ _ => rfl

end Calls

/-! ## Whole runs -/

namespace StreamEvent

def isWrite (event : StreamEvent) : Bool :=
  match event.call with
  | .write _ => true
  | _ => false

/-- A write that reported an error. -/
def isFailedWrite (event : StreamEvent) : Bool :=
  event.isWrite && match event.answer with
    | .done _ => false
    | _ => true

end StreamEvent

/-- All that passed the driver in a run. -/
def linkLog (events : List StreamEvent) : List LinkEvent :=
  events.flatMap StreamEvent.log

/-- The octets that the writes of a run have reported as written. -/
def octetsAccepted (events : List StreamEvent) : Bytes :=
  events.flatMap StreamEvent.octetsWritten

section Runs

variable {σ : Type} {ends : TcpEndpoints} {link : Link σ} {base : UInt32}

variable (past : List StreamEvent) (event : StreamEvent)

theorem linkLog_append : linkLog (past ++ [event]) = linkLog past ++ event.log := by
  simp [linkLog]

theorem octetsAccepted_append : octetsAccepted (past ++ [event]) =
      octetsAccepted past ++ event.octetsWritten := by
  simp [octetsAccepted]

/-- The connection can still write: the peer holds exactly what was
acknowledged. -/
def CanWrite (ends : TcpEndpoints) (base : UInt32)
    (past : List StreamEvent) (connection : TcpConnection) : Prop :=
  (∀ peer, PeerRun ends base (linkLog past) peer →
    PeerHolds ends base (octetsAccepted past) [] peer) ∧
  connection.localNext = base + UInt32.ofNat (octetsAccepted past).length

/-- The peer holds what the writes have reported; and the connection can
still write, or is closed, or a write has failed. -/
structure WrittenSoFar (ends : TcpEndpoints) (base : UInt32)
    (past : List StreamEvent) (connection : TcpConnection) : Prop where
  held : ∀ peer, PeerRun ends base (linkLog past) peer → octetsAccepted past <+: peer.held
  state : CanWrite ends base past connection ∨ connection.localClosed = true ∨
    past.any StreamEvent.isFailedWrite = true

variable {past : List StreamEvent} {connection : TcpConnection}
variable {state : σ} {answer : Outcome StreamError StreamValue}
variable {world : StreamWorld σ} {call : StreamCall}

/-- The connection can write after an event exactly when its world is
sending. -/
theorem canWrite_append :
    CanWrite ends base (past ++ [⟨call, world.log, answer⟩]) world.connection ↔
    Sending ends base (linkLog past) (octetsAccepted past ++
        octetsWritten ⟨call, world.log, answer⟩) [] world := by
  rw [CanWrite, linkLog_append, octetsAccepted_append]
  exact Iff.rfl

theorem CanWrite.sending (h : CanWrite ends base past connection) (state : σ) :
    Sending ends base (linkLog past) (octetsAccepted past) [] ⟨connection, state, []⟩ := by
  refine ⟨fun peer hrun => ?_, h.2⟩
  rw [append_nil] at hrun
  exact h.1 peer hrun

theorem CanWrite.written (h : CanWrite ends base past connection) :
    WrittenSoFar ends base past connection :=
  ⟨fun peer hrun => (h.1 peer hrun).begins, .inl h⟩

/-- An event that reports no octets leaves the peer with what it held. -/
theorem WrittenSoFar.idle {event : StreamEvent} (h : WrittenSoFar ends base past connection)
    (hidle : event.octetsWritten = []) {next : TcpConnection} (hstate : next.localClosed = true ∨
      (past ++ [event]).any isFailedWrite = true) :
    WrittenSoFar ends base (past ++ [event]) next := by
  refine ⟨fun peer hrun => ?_, .inr hstate⟩
  rw [linkLog_append] at hrun
  rw [octetsAccepted_append, hidle, append_nil]
  obtain ⟨before, hbefore, hgrown⟩ := hrun.earlier
  exact (h.held before hbefore).trans hgrown

theorem WrittenSoFar.write {input : Bytes} (h : WrittenSoFar ends base past connection)
    (hrun : ((StreamCall.write input).perform ends link).run
      ⟨connection, state, []⟩ = (answer, world))
    (hnone : past.any isFailedWrite = false)
    (hstale : staleAcks ends world.log = false) :
    WrittenSoFar ends base (past ++ [⟨.write input, world.log, answer⟩]) world.connection := by
  by_cases hdone : ∃ value, answer = .done value
  · obtain ⟨value, rfl⟩ := hdone
    obtain ⟨count, middle, hwrite, hvalue⟩ := run_bind_eq_done.mp hrun
    cases hvalue
    rcases h.state with hlive | hclosed | hfailed
    · have hend := ensures_writeStream_sending link input _ (hlive.sending state)
      rw [hwrite] at hend
      exact (canWrite_append.mpr (hend hstale)).written
    · simp [writeStream, run_bind, Effect.get, hclosed] at hwrite
    · exact absurd (hnone.symm.trans hfailed) (by simp)
  · apply h.idle
    · rw [octetsWritten]
      split
      · rename_i value hvalue
        exact absurd ⟨value, hvalue⟩ hdone
      · rfl
    · right
      rw [any_append, hnone]
      cases answer with
      | done value => exact absurd ⟨value, rfl⟩ hdone
      | fail error => rfl
      | halt => rfl

theorem WrittenSoFar.read {room : ℕ} (h : WrittenSoFar ends base past connection)
    (hrun : ((StreamCall.read room).perform ends link).run
      ⟨connection, state, []⟩ = (answer, world)) :
    WrittenSoFar ends base (past ++ [⟨.read room, world.log, answer⟩]) world.connection := by
  have hidle : octetsWritten ⟨.read room, world.log, answer⟩ = [] := by
    cases answer <;> rfl
  have hkeeps : ∀ P : StreamWorld σ → Prop, ReadKeeps ends P →
      P ⟨connection, state, []⟩ → P world := by
    intro P hP hstart
    have hread : Ensures P ((StreamCall.read room).perform ends link) (fun _ => P) (fun _ => P) P :=
      ((hP.readStream room).bind fun _ => ensures_pure fun _ h => h).mono
        (fun _ h => h) (fun _ _ h => h) (fun _ _ h => h) fun _ => False.elim
    have := hread.keeps _ hstart
    rwa [hrun] at this
  rcases h.state with hlive | hclosed | hfailed
  · apply CanWrite.written
    rw [canWrite_append, hidle, append_nil]
    exact hkeeps _ readKeeps_sending (hlive.sending state)
  · exact h.idle hidle (.inl (hkeeps _ readKeeps_closed hclosed))
  · apply h.idle hidle
    right
    rw [any_append, hfailed, Bool.true_or]

theorem WrittenSoFar.close (h : WrittenSoFar ends base past connection)
    (hrun : (StreamCall.close.perform ends link).run ⟨connection, state, []⟩ = (answer, world)) :
    WrittenSoFar ends base (past ++ [⟨.close, world.log, answer⟩]) world.connection := by
  have hclose : Returns (fun _ => True) (StreamCall.close.perform ends link)
      (fun _ (world : StreamWorld σ) => world.connection.localClosed = true) fun _ => False :=
    closeStream_closes.bind fun _ => ensures_pure fun _ h => h
  have hend := hclose ⟨connection, state, []⟩ trivial
  rw [hrun] at hend
  cases answer with
  | done value => exact h.idle rfl (.inl hend)
  | fail error => exact False.elim hend
  | halt => exact False.elim hend

/-- One call of a run. -/
theorem WrittenSoFar.perform (h : WrittenSoFar ends base past connection)
    (hrun : (call.perform ends link).run ⟨connection, state, []⟩ = (answer, world))
    (hallowed : isWrite ⟨call, world.log, answer⟩ = true →
      past.any isFailedWrite = false ∧ staleAcks ends world.log = false) :
    WrittenSoFar ends base (past ++ [⟨call, world.log, answer⟩]) world.connection := by
  cases call with
  | write input =>
    obtain ⟨hnone, hstale⟩ := hallowed rfl
    exact h.write hrun hnone hstale
  | read room => exact h.read hrun
  | close => exact h.close hrun

end Runs

theorem WrittenSoFar.established (ends : TcpEndpoints) (base remoteNext : UInt32) :
    WrittenSoFar ends base [] (.established base remoteNext) := by
  apply CanWrite.written
  refine ⟨fun peer hrun => ?_, by simp [TcpConnection.established, octetsAccepted]⟩
  generalize hlog : linkLog [] = log at hrun
  induction hrun with
  | start => exact PeerHolds.initial
  | event _ _ _ => simp [linkLog] at hlog
  | takes _ htakes ih => exact (ih hlog).takes htakes

/-- Over any network and any sequence of calls in which no write follows a
failed one, and no frame that comes during a write acknowledges just the
number before it: whatever the peer can have taken, it holds the octets that
a write reports when it returns, and at any time all that the writes have
reported. -/
theorem write_stream_acknowledged {σ : Type} (ends : TcpEndpoints)
    (link : Link σ) (base remoteNext : UInt32) (calls : List StreamCall) (state : σ)
    (hfailed : (runCalls ends link calls (.established base remoteNext)
        state).Pairwise fun earlier later =>
      earlier.isFailedWrite = true → later.isWrite = false)
    (hstale : ∀ event ∈ runCalls ends link calls (.established base remoteNext) state,
      event.isWrite = true → staleAcks ends event.log = false) : (∀ before event after input count,
      runCalls ends link calls (.established base remoteNext) state = before ++ event :: after →
      event.call = .write input → event.answer = .done (.written count) →
      ∀ peer, PeerRun ends base (linkLog (before ++ [event])) peer →
        octetsAccepted before ++ input.take count <+: peer.held) ∧ ∀ before after,
      runCalls ends link calls (.established base remoteNext) state = before ++ after →
      ∀ peer, PeerRun ends base (linkLog before) peer → octetsAccepted before <+: peer.held := by
  obtain ⟨-, hinv⟩ := runCalls_keeps ends link (WrittenSoFar ends base)
    (fun past event => event.isWrite = true → past.any isFailedWrite = false ∧
        staleAcks ends event.log = false)
    (fun _ _ => True)
    (fun past call connection state answer world h hrun hallowed =>
      ⟨trivial, h.perform hrun hallowed⟩)
    calls [] (.established base remoteNext) state
    (.established ends base remoteNext)
    (fun before event after hsplit hwrite => by
      rw [hsplit] at hfailed hstale
      refine ⟨?_, hstale event (by simp) hwrite⟩
      apply Bool.eq_false_iff.mpr
      intro hany
      obtain ⟨earlier, hmem, hearlier⟩ := any_eq_true.mp hany
      have hlater := (pairwise_append.mp hfailed).2.2 earlier hmem event mem_cons_self hearlier
      exact absurd (hlater.symm.trans hwrite) (by simp))
  have hall : ∀ before after, runCalls ends link calls (.established base remoteNext) state =
        before ++ after →
      ∀ peer, PeerRun ends base (linkLog before) peer → octetsAccepted before <+: peer.held := by
    intro before after hsplit
    obtain ⟨connection, h⟩ := hinv before after hsplit
    exact h.held
  refine ⟨?_, hall⟩
  intro before event after input count hsplit hcall hanswer peer hrun
  rw [append_cons] at hsplit
  have h := hall _ _ hsplit peer hrun
  rwa [octetsAccepted_append, octetsWritten, hanswer, hcall] at h

/-! ### Two writes -/

/-- A peer that takes nothing while every acknowledgement is the first
number. -/
theorem PeerRun.idle {base : UInt32}
    {log : List LinkEvent} (h : ∀ connection frame, .received connection frame ∈ log →
      ∀ number, acknowledgement ends frame = some number → number = base) :
    ∃ peer, PeerRun ends base log peer ∧ peer.held = [] := by
  induction log using List.reverseRecOn with
  | nil => exact ⟨_, .start, rfl⟩
  | append_singleton log event ih =>
    obtain ⟨peer, hrun, hnone⟩ := ih fun connection frame hmem =>
      h connection frame (mem_append_left _ hmem)
    cases event with
    | sent frame => exact ⟨_, hrun.event (.sent frame peer), hnone⟩
    | received connection frame =>
      refine ⟨peer, hrun.event (.received connection ?_), hnone⟩
      intro packet hparse hflag
      left
      refine ⟨0, Nat.zero_le _, by simp [hnone], ?_⟩
      rw [show ofNat 0 = 0 from rfl, UInt32.add_zero]
      apply h connection frame (by simp)
      rw [acknowledgement, hparse]
      simp [hflag]

/-- A write during which the peer sends an octet of its own before it has
seen the segment. -/
def crossedWrite : List StreamEvent :=
  runCalls localEnds scriptLink [.write [1, 2]] (.established 500 1000)
    [localEnds.peerFrame ⟨1000, 500, tcpAck ||| tcpPsh, [0x48]⟩]

theorem crossedWrite_not_held : crossedWrite.map (fun event => (event.call, event.answer)) =
      [(.write [1, 2], .done (.written 2))] ∧
    ∃ peer, PeerRun localEnds 500 (linkLog crossedWrite) peer ∧ peer.held = [] := by
  refine ⟨by decide +kernel, PeerRun.idle ?_⟩
  have hall : (linkLog crossedWrite).all (fun
      | .received _ frame => acknowledgement localEnds frame == some 500
      | .sent _ => true) = true := by
    decide +kernel
  intro connection frame hmem number hnumber
  have hframe := all_eq_true.mp hall _ hmem
  rw [beq_iff_eq, hnumber] at hframe
  exact Option.some.inj hframe

/-- The segment of a write of two octets. -/
def writtenSegment : TcpPacket := ⟨500, 1000, tcpAck ||| tcpPsh, [1, 2]⟩

/-- The acknowledgement of both. -/
def heldAck : TcpPacket := ⟨1000, 502, tcpAck, []⟩

/-- A write that the peer acknowledges. -/
def heldWrite : List StreamEvent :=
  runCalls localEnds scriptLink [.write [1, 2]] (.established 500 1000)
    [localEnds.peerFrame heldAck]

/-- The peer of that write can be there: it takes the segment and then
acknowledges it. -/
theorem heldWrite_peer : ∃ peer, PeerRun localEnds 500 (linkLog heldWrite) peer ∧
      peer.held = [1, 2] := by
  have hlog : linkLog heldWrite = [.sent (localEnds.swap.peerFrame writtenSegment),
        .received (.established 500 1000) (localEnds.peerFrame heldAck)] := by
    decide +kernel
  have hparse : localEnds.swap.parse
      (localEnds.swap.peerFrame writtenSegment ++ []) = .ok writtenSegment := by
    rw [append_nil]
    exact localEnds.swap.parse_peerFrame (by decide +kernel)
  have hack : localEnds.parse (localEnds.peerFrame heldAck) = .ok heldAck :=
    localEnds.parse_peerFrame (by decide +kernel)
  have hsent : PeerRun localEnds 500 [.sent (localEnds.swap.peerFrame writtenSegment)]
      (PeerState.initial.sending (localEnds.swap.peerFrame writtenSegment)) :=
    PeerRun.start.event (.sent _ _)
  have htaken : PeerRun localEnds 500 [.sent (localEnds.swap.peerFrame writtenSegment)]
      ⟨[1, 2], [(0, localEnds.swap.peerFrame writtenSegment)]⟩ := by
    have hsequence : writtenSegment.sequence = 500 + ofNat 0 := rfl
    exact hsent.takes (.segment 2 mem_cons_self (by decide) hparse hsequence (Nat.zero_le _))
  rw [hlog]
  refine ⟨_, htaken.event (.received _ ?_), rfl⟩
  intro packet hpacket _
  rw [hack] at hpacket
  rw [← Except.ok.inj hpacket]
  exact .inl ⟨2, by decide, by decide, by decide⟩

theorem heldWrite_held : octetsAccepted heldWrite = [1, 2] ∧
    (∃ peer, PeerRun localEnds 500 (linkLog heldWrite) peer ∧ peer.held = [1, 2]) ∧
    ∀ peer, PeerRun localEnds 500 (linkLog heldWrite) peer → [1, 2] <+: peer.held := by
  have hwritten : octetsAccepted heldWrite = [1, 2] := by decide +kernel
  refine ⟨hwritten, heldWrite_peer, ?_⟩
  rw [← hwritten]
  exact (write_stream_acknowledged localEnds scriptLink 500 1000 _ _
    (by decide +kernel) (by decide +kernel)).2 heldWrite [] (append_nil _).symm

end ExpOS
