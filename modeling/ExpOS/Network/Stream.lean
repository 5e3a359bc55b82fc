import ExpOS.Network.Tcp
import ExpOS.Support.Triple

/-!
# One TCP connection of the network service

A connection is read and written in calls that poll the driver themselves.
There is one buffer for received octets, which holds the payload of a single
segment, and there is at most one segment waiting to be acknowledged.  Reads
and writes share the routine that takes in a frame, so a read can find octets
that a write has buffered.

The driver is a `Link`: it answers a frame that is handed to it and may have
a frame when it is polled.  A ghost log of a call records every frame handed
to the driver and every frame it gave, with the state of the connection at
that moment.
-/

namespace ExpOS

open List

open Bytes Effect

def receivePolls : ℕ := 200000
def streamRetries : ℕ := 2

inductive StreamError where
  | timeout
  | reset
  | invalid
deriving DecidableEq

/-! ## The buffer of received octets -/

/-- The occupied part of the buffer and how much of it was read.  A buffer
that was read to its end is empty. -/
structure PendingBuffer where
  octets : Bytes
  offset : ℕ
  length_le : octets.length ≤ tcpPayloadCapacity
  offset_le : offset ≤ octets.length
  empty_of_read : offset = octets.length → octets = []
deriving DecidableEq

namespace PendingBuffer

def empty : PendingBuffer :=
  ⟨[], 0, Nat.zero_le _, Nat.zero_le _, fun _ => rfl⟩

/-- The octets that no read has returned yet. -/
def unread (buffer : PendingBuffer) : Bytes :=
  buffer.octets.drop buffer.offset

/-- Fill an empty buffer with a payload. -/
def fill (payload : Bytes) (hne : payload ≠ [])
    (hle : payload.length ≤ tcpPayloadCapacity) : PendingBuffer :=
  ⟨payload, 0, hle, Nat.zero_le _, fun h =>
    absurd (List.length_eq_zero_iff.mp h.symm) hne⟩

/-- Copy as many octets as there is room for. -/
def drain (buffer : PendingBuffer) (room : ℕ) : Bytes × PendingBuffer :=
  let available := buffer.octets.length - buffer.offset
  let copied := min available room
  let output := part buffer.octets buffer.offset copied
  if h : buffer.offset + copied = buffer.octets.length then
    (output, empty)
  else
    (output,
      { buffer with
        offset := buffer.offset + copied
        offset_le := by
          have := buffer.offset_le
          omega
        empty_of_read := fun hread => absurd hread h })

@[simp] theorem unread_empty : empty.unread = [] := rfl

variable {buffer : PendingBuffer}

theorem unread_eq_nil_iff : buffer.unread = [] ↔ buffer.octets = [] := by
  constructor
  · intro h
    apply buffer.empty_of_read
    have hle := drop_eq_nil_iff.mp h
    exact Nat.le_antisymm buffer.offset_le hle
  · intro h
    rw [unread, h, drop_nil]

/-- Draining only cuts the unread octets in two. -/
theorem drain_unread (buffer : PendingBuffer) (room : ℕ) :
    (buffer.drain room).1 ++ (buffer.drain room).2.unread = buffer.unread := by
  rw [drain]
  split
  · rename_i hend
    simp only [unread_empty, append_nil]
    apply take_of_length_le
    rw [length_drop]
    omega
  · simp only [unread, part]
    rw [← drop_drop, take_append_drop]

theorem drain_eq_nil {room : ℕ} (hroom : 0 < room)
    (h : (buffer.drain room).1 = []) : buffer.unread = [] := by
  have hpart : part buffer.octets buffer.offset
      (min (buffer.octets.length - buffer.offset) room) = [] := by
    rw [drain] at h
    split at h <;> exact h
  rw [part, take_eq_nil_iff] at hpart
  rcases hpart with hzero | hnil
  · apply drop_eq_nil_iff.mpr
    omega
  · exact hnil

end PendingBuffer

/-! ## The connection -/

/-- The part of a connection that calls change. -/
structure TcpConnection where
  localNext : UInt32
  remoteNext : UInt32
  pending : PendingBuffer
  remoteClosed : Bool
  localClosed : Bool
deriving DecidableEq

namespace TcpConnection

/-- A connection as the handshake leaves it. -/
def established (localNext remoteNext : UInt32) : TcpConnection :=
  { localNext, remoteNext
    pending := .empty
    remoteClosed := false
    localClosed := false }

/-- The packet acknowledges all that was sent. -/
def acknowledgedBy (connection : TcpConnection) (packet : TcpPacket) :
    Bool :=
  packet.has tcpAck && packet.acknowledgement == connection.localNext

/-- The connection with a payload in its buffer. -/
def buffered (connection : TcpConnection) (payload : Bytes)
    (hne : payload ≠ []) (hle : payload.length ≤ tcpPayloadCapacity) :
    TcpConnection :=
  { connection with
    pending := .fill payload hne hle
    remoteNext := connection.remoteNext + UInt32.ofNat payload.length }

/-- The connection after the peer's FIN. -/
def ended (connection : TcpConnection) : TcpConnection :=
  { connection with
    remoteNext := connection.remoteNext + 1
    remoteClosed := true }

/-- Buffer the payload of the next segment where the buffer is free. -/
def takePayload (connection : TcpConnection) (packet : TcpPacket) :
    Except StreamError (TcpConnection × Bool) :=
  if h : packet.payload ≠ [] ∧ connection.pending.octets = [] then
    if hle : packet.payload.length ≤ tcpPayloadCapacity then
      .ok (connection.buffered packet.payload h.1 hle, true)
    else
      .error .invalid
  else
    .ok (connection, false)

/-- Note the end of the stream where the packet carries it. -/
def takeFin (packet : TcpPacket) (taken : TcpConnection × Bool) : TcpConnection × Bool :=
  if packet.has tcpFin then (taken.1.ended, true) else taken

/-- What a packet without a reset does to the connection, and whether any of
it was taken. -/
def accept (connection : TcpConnection) (packet : TcpPacket) :
    Except StreamError (TcpConnection × Bool) :=
  if packet.sequence = connection.remoteNext then
    (connection.takePayload packet).map (takeFin packet)
  else
    .ok (connection, false)

theorem takeFin_cases (packet : TcpPacket) (taken : TcpConnection × Bool) :
    (takeFin packet taken).1 = taken.1 ∨
      packet.has tcpFin = true ∧ (takeFin packet taken).1 = taken.1.ended := by
  rw [takeFin]
  split
  · rename_i hfin
    exact .inr ⟨hfin, rfl⟩
  · exact .inl rfl

/-- A packet leaves the connection alone unless it is the next one; then its
payload goes to a free buffer, and its FIN counts in any case. -/
theorem accept_cases {connection : TcpConnection} {packet : TcpPacket}
    {accepted : TcpConnection × Bool} (h : connection.accept packet = .ok accepted) :
    accepted.1 = connection ∨ packet.sequence = connection.remoteNext ∧
      ((connection.pending.octets = [] ∧ ∃ hne hle,
          accepted.1 = connection.buffered packet.payload hne hle ∨
          packet.has tcpFin = true ∧ accepted.1 =
            (connection.buffered packet.payload hne hle).ended) ∨
        ((packet.payload = [] ∨ connection.pending.octets ≠ []) ∧
          packet.has tcpFin = true ∧ accepted.1 = connection.ended)) := by
  rw [accept] at h
  split at h
  · rename_i hsequence
    rw [takePayload] at h
    split at h
    · rename_i hfree
      split at h
      · rename_i hle
        rw [← Except.ok.inj h]
        right
        exact ⟨hsequence, .inl ⟨hfree.2, hfree.1, hle, takeFin_cases packet _⟩⟩
      · exact absurd h (by simp [Except.map])
    · rename_i hfree
      rw [← Except.ok.inj h]
      rcases takeFin_cases packet (connection, false) with hsame | hfin
      · exact .inl hsame
      right
      refine ⟨hsequence, .inr ⟨?_, hfin⟩⟩
      by_cases hpayload : packet.payload = []
      · exact .inl hpayload
      · exact .inr fun hempty => hfree ⟨hpayload, hempty⟩
  · rw [← Except.ok.inj h]
    exact .inl rfl

end TcpConnection

/-! ## Calls -/

/-- A network driver over its own state.  An empty frame stands for the
length zero by which the driver reports a failure. -/
structure Link (σ : Type) where
  send : Bytes → σ → Bool × σ
  receive : σ → Option Bytes × σ

/-- What passed between a connection and its driver. -/
inductive LinkEvent where
  | sent (frame : Bytes)
  | received (connection : TcpConnection) (frame : Bytes)
deriving DecidableEq

/-- A driver that takes every frame and gives the frames of a list in
turn. -/
def scriptLink : Link (List Bytes) where
  send _ script := (true, script)
  receive
    | [] => (none, [])
    | frame :: script => (some frame, script)

structure StreamWorld (σ : Type) where
  connection : TcpConnection
  link : σ
  log : List LinkEvent

namespace StreamWorld

variable {σ : Type}

def sent (world : StreamWorld σ) (frame : Bytes) (next : σ) : StreamWorld σ :=
  { world with link := next, log := world.log ++ [.sent frame] }

def received (world : StreamWorld σ) (frame : Bytes) (next : σ) : StreamWorld σ :=
  { world with
    link := next
    log := world.log ++ [.received world.connection frame] }

end StreamWorld

section Calls

variable {σ : Type} (ends : TcpEndpoints) (link : Link σ)

def sendFrame (frame : Bytes) : Effect (StreamWorld σ) StreamError Bool where
  run world :=
    let answer := link.send frame world.link
    (.done answer.1, world.sent frame answer.2)

def receiveFrame : Effect (StreamWorld σ) StreamError (Option Bytes) where
  run world :=
    match link.receive world.link with
    | (none, next) => (.done none, { world with link := next })
    | (some frame, next) => (.done (some frame), world.received frame next)

/-- Change the connection. -/
def setConnection (f : TcpConnection → TcpConnection) : Effect (StreamWorld σ) StreamError PUnit :=
  Effect.modify fun world =>
    { world with connection := f world.connection }

def sendSegment (sequence : UInt32) (flags : UInt8) (payload : Bytes) :
    Effect (StreamWorld σ) StreamError PUnit := do
  let world ← Effect.get
  match ends.tcpFrame
      { sequence, acknowledgement := world.connection.remoteNext
        flags, payload } with
  | none => Effect.fail .invalid
  | some frame => do
      let sent ← sendFrame link frame
      if sent then pure ⟨⟩ else Effect.fail .invalid

def sendAck : Effect (StreamWorld σ) StreamError PUnit := do
  let world ← Effect.get
  sendSegment ends link world.connection.localNext tcpAck []

/-- Acknowledge where something is to be acknowledged. -/
def sendAckIf (needed : Bool) : Effect (StreamWorld σ) StreamError PUnit :=
  if needed then sendAck ends link else pure ⟨⟩

def answerArp (incoming : Bytes) : Effect (StreamWorld σ) StreamError PUnit := do
  let _ ← sendFrame link (arpReply incoming ends.interface)
  pure ⟨⟩

def receiveIntoPending (frame : Bytes) : Effect (StreamWorld σ) StreamError (Bool × Bool) := do
  let world ← Effect.get
  match ends.parse frame with
  | .error _ => pure (false, false)
  | .ok packet =>
    if packet.has tcpRst then Effect.fail .reset
    else
      match world.connection.accept packet with
      | .error error => Effect.fail error
      | .ok (connection, accepted) => do
          setConnection fun _ => connection
          sendAckIf ends link (accepted ||
            (packet.payload != []
              && packet.sequence != connection.remoteNext))
          pure (true, world.connection.acknowledgedBy packet)

/-- One frame that the driver gave: a failure of the driver, a request for
the link address, or a frame for the call. -/
def handleFrame {α : Type} (handle : Bytes → Effect (StreamWorld σ) StreamError (Option α))
    (frame : Bytes) : Effect (StreamWorld σ) StreamError (Option α) :=
  if frame = [] then Effect.fail .invalid
  else if isArpRequest frame ends.interface then do
    answerArp ends link frame
    pure none
  else
    handle frame

/-- Poll the driver until a frame ends the call or the polls are used up. -/
def pollFrames {α : Type} (handle : Bytes → Effect (StreamWorld σ) StreamError (Option α)) :
    ℕ → Effect (StreamWorld σ) StreamError (Option α)
  | 0 => pure none
  | polls + 1 => do
      match ← receiveFrame link with
      | none => pollFrames handle polls
      | some frame => do
          match ← handleFrame ends link handle frame with
          | some answer => pure (some answer)
          | none => pollFrames handle polls

/-! ### Writing -/

/-- The number a frame acknowledges. -/
def acknowledgement (frame : Bytes) : Option UInt32 :=
  match ends.parse frame with
  | .error _ => none
  | .ok packet =>
    if packet.has tcpAck then some packet.acknowledgement else none

/-- The frame handler of a write; it ends the call with the
acknowledgement. -/
def writeFrame (expectedAck : UInt32) (frame : Bytes) :
    Effect (StreamWorld σ) StreamError (Option Unit) := do
  let expected := acknowledgement ends frame == some expectedAck
  setConnection fun connection =>
    if expected then { connection with localNext := expectedAck }
    else connection
  let (_, acknowledged) ← receiveIntoPending ends link frame
  if acknowledged || expected then do
    setConnection fun connection =>
      { connection with localNext := expectedAck }
    pure (some ())
  else
    pure none

def writeRounds (sequence : UInt32) (payload : Bytes) : ℕ → Effect (StreamWorld σ) StreamError ℕ
  | 0 => Effect.fail .timeout
  | rounds + 1 => do
      sendSegment ends link sequence (tcpAck ||| tcpPsh) payload
      let expectedAck := sequence + UInt32.ofNat payload.length
      match ← pollFrames ends link (writeFrame ends link expectedAck)
          receivePolls with
      | some _ => pure payload.length
      | none => writeRounds sequence payload rounds

def writeStream (input : Bytes) : Effect (StreamWorld σ) StreamError ℕ := do
  let world ← Effect.get
  if world.connection.localClosed || world.connection.remoteClosed then
    Effect.fail .reset
  else if input = [] then
    pure 0
  else
    let written := min input.length tcpPayloadCapacity
    writeRounds ends link world.connection.localNext (input.take written)
      streamRetries

/-! ### Reading -/

def drainPending (room : ℕ) : Effect (StreamWorld σ) StreamError Bytes := do
  let world ← Effect.get
  let (copied, pending) := world.connection.pending.drain room
  setConnection fun connection => { connection with pending }
  pure copied

/-- The answer to a read as far as there is one: buffered octets, or the end
of the stream. -/
def readPending (room : ℕ) : Effect (StreamWorld σ) StreamError (Option Bytes) := do
  let copied ← drainPending room
  let world ← Effect.get
  if copied ≠ [] then pure (some copied)
  else if world.connection.remoteClosed then pure (some [])
  else pure none

/-- The frame handler of a read. -/
def readFrame (room : ℕ) (frame : Bytes) : Effect (StreamWorld σ) StreamError (Option Bytes) := do
  let _ ← receiveIntoPending ends link frame
  readPending room

def readRounds (room : ℕ) : ℕ → Effect (StreamWorld σ) StreamError Bytes
  | 0 => Effect.fail .timeout
  | rounds + 1 => do
      match ← pollFrames ends link (readFrame ends link room)
          receivePolls with
      | some copied => pure copied
      | none => do
          sendAckIf ends link (decide (0 < rounds))
          readRounds room rounds

/-- The octets a read copies into a buffer with room for so many. -/
def readStream (room : ℕ) : Effect (StreamWorld σ) StreamError Bytes :=
  if room = 0 then pure []
  else do
    match ← readPending room with
    | some copied => pure copied
    | none => readRounds ends link room streamRetries

def closeStream : Effect (StreamWorld σ) StreamError PUnit := do
  let world ← Effect.get
  if world.connection.localClosed then pure ⟨⟩
  else do
    let _ ← (sendSegment ends link world.connection.localNext
      (tcpFin ||| tcpAck) []).attempt
    setConnection fun connection =>
      { connection with
        localNext := connection.localNext + 1
        localClosed := true }

/-! ### Runs -/

inductive StreamCall where
  | write (input : Bytes)
  | read (room : ℕ)
  | close
deriving DecidableEq

inductive StreamValue where
  | written (count : ℕ)
  | copied (octets : Bytes)
  | closed
deriving DecidableEq

/-- The octets that a read returned. -/
def StreamValue.octetsRead : StreamValue → Bytes
  | .copied octets => octets
  | _ => []

/-- The octets of the input that a write reported as written. -/
def StreamValue.octetsWritten : StreamCall → StreamValue → Bytes
  | .write input, .written count => input.take count
  | _, _ => []

/-- One call on the connection. -/
def StreamCall.perform : StreamCall → Effect (StreamWorld σ) StreamError StreamValue
  | .write input => do
      let count ← writeStream ends link input
      pure (.written count)
  | .read room => do
      let octets ← readStream ends link room
      pure (.copied octets)
  | .close => do
      closeStream ends link
      pure .closed

/-- A call, what passed the driver during it, and how it ended. -/
structure StreamEvent where
  call : StreamCall
  log : List LinkEvent
  answer : Outcome StreamError StreamValue

namespace StreamEvent

/-- The octets that a read returned. -/
def octetsRead (event : StreamEvent) : Bytes :=
  match event.answer with
  | .done value => value.octetsRead
  | _ => []

/-- The octets of the input that a write reported as written. -/
def octetsWritten (event : StreamEvent) : Bytes :=
  match event.answer with
  | .done value => value.octetsWritten event.call
  | _ => []

end StreamEvent

/-- The events of a sequence of calls on one connection. -/
def runCalls : List StreamCall → TcpConnection → σ → List StreamEvent
  | [], _, _ => []
  | call :: calls, connection, state =>
    let ended := (call.perform ends link).run ⟨connection, state, []⟩
    ⟨call, ended.2.log, ended.1⟩ :: runCalls calls ended.2.connection ended.2.link

/-- A condition on the past and the connection that every call keeps while
its event is allowed: it holds after each call, and so does what each call
promises about its own event. -/
theorem runCalls_keeps (Inv : List StreamEvent → TcpConnection → Prop)
    (Allowed Good : List StreamEvent → StreamEvent → Prop)
    (hstep : ∀ past call connection state answer world, Inv past connection →
      (call.perform ends link).run ⟨connection, state, []⟩ = (answer, world) →
      Allowed past ⟨call, world.log, answer⟩ → Good past ⟨call, world.log, answer⟩ ∧
        Inv (past ++ [⟨call, world.log, answer⟩]) world.connection)
    (calls : List StreamCall) (past : List StreamEvent)
    (connection : TcpConnection) (state : σ) (hinv : Inv past connection)
    (hallowed : ∀ before event after,
      runCalls ends link calls connection state = before ++ event :: after →
      Allowed (past ++ before) event) : (∀ before event after,
      runCalls ends link calls connection state = before ++ event :: after →
      Good (past ++ before) event) ∧ ∀ before after,
      runCalls ends link calls connection state = before ++ after →
      ∃ connection', Inv (past ++ before) connection' := by
  induction calls generalizing past connection state with
  | nil =>
    constructor
    · intro before event after h
      simp [runCalls] at h
    intro before after h
    have hbefore : before = [] := (append_eq_nil_iff.mp h.symm).1
    rw [hbefore, append_nil]
    exact ⟨connection, hinv⟩
  | cons call calls ih =>
    rcases hrun : (call.perform ends link).run ⟨connection, state, []⟩ with
      ⟨answer, world⟩
    have hcons : runCalls ends link (call :: calls) connection state =
        ⟨call, world.log, answer⟩ :: runCalls ends link calls world.connection world.link := by
      rw [runCalls, hrun]
    rw [hcons] at hallowed ⊢
    have hfirst := hallowed [] _ _ rfl
    rw [append_nil] at hfirst
    obtain ⟨hgood, hnext⟩ := hstep past call connection state answer world hinv hrun hfirst
    obtain ⟨hgoods, hinvs⟩ := ih (past ++ [⟨call, world.log, answer⟩]) world.connection world.link
      hnext fun before event after h => by
        rw [append_assoc]
        exact hallowed (_ :: before) event after (by rw [h]; rfl)
    constructor
    · rintro (_ | ⟨first, before⟩) event after h
      · rw [append_nil, ← (List.cons.inj h).1]
        exact hgood
      · rw [← (List.cons.inj h).1]
        have := hgoods before event after (List.cons.inj h).2
        rwa [append_assoc] at this
    · rintro (_ | ⟨first, before⟩) after h
      · rw [append_nil]
        exact ⟨connection, hinv⟩
      · rw [← (List.cons.inj h).1]
        have := hinvs before after (List.cons.inj h).2
        rwa [append_assoc] at this

end Calls

/-! ## Rules for calls -/

/-- No end of the connection takes octets or the end of the stream from the
frame. -/
def Quiet (ends : TcpEndpoints) (frame : Bytes) : Prop :=
  ∀ padding packet, ends.swap.parse (frame ++ padding) = .ok packet →
    packet.payload = [] ∧ packet.has tcpFin = false

/-- A condition that neither the driver's own steps nor frames without
content disturb. -/
structure Steady {σ : Type} (ends : TcpEndpoints)
    (P : StreamWorld σ → Prop) : Prop where
  moved : ∀ world next, P world → P { world with link := next }
  sent : ∀ world frame next, P world → Quiet ends frame → P (world.sent frame next)

/-- One condition while a call goes on and another one once it has an
answer. -/
def ByAnswer {σ α : Type} (going : StreamWorld σ → Prop)
    (done : α → StreamWorld σ → Prop) : Option α → StreamWorld σ → Prop
  | none => going
  | some answer => done answer

section Rules

variable {σ : Type} {ends : TcpEndpoints} {link : Link σ}
variable {P Q : StreamWorld σ → Prop} {frame : Bytes}

theorem ensures_sendFrame {failed : StreamError → _}
    (h : ∀ world next, P world → Q (world.sent frame next)) :
    Ensures P (sendFrame link frame) (fun _ => Q) failed fun _ => False :=
  fun world hworld => h world _ hworld

theorem ensures_sendSegment {sequence : UInt32} {flags : UInt8}
    {payload : Bytes} (hstay : ∀ world, P world → Q world) (hsent : ∀ world frame next, P world →
      ends.tcpFrame ⟨sequence, world.connection.remoteNext, flags, payload⟩ =
        some frame → Q (world.sent frame next)) :
    Returns P (sendSegment ends link sequence flags payload) (fun _ => Q) Q := by
  apply ensures_get_bind
  intro world
  split
  · apply ensures_fail
    rintro s ⟨rfl, hs⟩
    exact hstay s hs
  rename_i frame hframe
  have hfirst : Returns (fun s => s = world ∧ P s) (sendFrame link frame) (fun _ => Q) Q := by
    apply ensures_sendFrame
    rintro s next ⟨rfl, hs⟩
    exact hsent s frame next hs hframe
  apply hfirst.bind
  intro sent
  split
  · exact ensures_pure fun s hs => hs
  · exact ensures_fail fun s hs => hs

/-- The world after a read has looked into the buffer. -/
def StreamWorld.drained (world : StreamWorld σ) (room : ℕ) : StreamWorld σ :=
  { world with
    connection :=
      { world.connection with
        pending := (world.connection.pending.drain room).2 } }

theorem run_readPending (room : ℕ) (world : StreamWorld σ) : (readPending room).run world = (.done
        (if (world.connection.pending.drain room).1 ≠ [] then
          some (world.connection.pending.drain room).1
        else if world.connection.remoteClosed then some [] else none), world.drained room) := by
  simp only [readPending, drainPending, setConnection, run_bind, Effect.get,
    Effect.modify, run_pure]
  split
  · rfl
  · split <;> rfl

theorem quiet_tcpFrame {packet : TcpPacket}
    (h : ends.tcpFrame packet = some frame) (hpayload : packet.payload = [])
    (hfin : packet.has tcpFin = false) : Quiet ends frame := by
  intro padding packet' hparse
  rw [ends.parse_tcpFrame h padding] at hparse
  rw [← Except.ok.inj hparse]
  exact ⟨hpayload, hfin⟩

theorem Steady.sendAck (hP : Steady ends P) :
    Maintains P (sendAck ends link) := by
  apply ensures_get_bind
  intro world
  apply ensures_sendSegment
  · exact fun s hs => hs.2
  intro s frame next hs hframe
  apply hP.sent s frame next hs.2
  apply quiet_tcpFrame hframe rfl
  change (tcpAck &&& tcpFin != 0) = false
  decide

theorem Steady.sendAckIf (hP : Steady ends P) (needed : Bool) :
    Maintains P (sendAckIf ends link needed) := by
  rw [ExpOS.sendAckIf]
  split
  · exact hP.sendAck
  · exact ensures_pure fun s hs => hs

theorem Steady.answerArp (hP : Steady ends P)
    (h : isArpRequest frame ends.interface = true) {failed : StreamError → StreamWorld σ → Prop} :
    Ensures P (answerArp ends link frame) (fun _ => P) failed fun _ => False := by
  have hquiet : Quiet ends (arpReply frame ends.interface) := by
    intro padding packet hparse
    rw [parse_arpReply h] at hparse
    exact absurd hparse (by simp)
  have hsend : Ensures P (sendFrame link (arpReply frame ends.interface))
      (fun _ => P) failed fun _ => False :=
    ensures_sendFrame fun world next hworld => hP.sent world _ next hworld hquiet
  exact hsend.bind fun _ => ensures_pure fun s hs => hs

variable {failed : StreamWorld σ → Prop}

/-- Taking in a frame: nothing happens where it is no packet, an error leaves
the connection as it was, and otherwise the packet is accepted and perhaps
acknowledged. -/
theorem ensures_receiveIntoPending {pre : StreamWorld σ → Prop}
    {after : Bool → StreamWorld σ → Prop}
    (hafter : ∀ acknowledged, Steady ends (after acknowledged))
    (hother : ∀ world, pre world → after false world)
    (haccept : ∀ world packet connection accepted, pre world → ends.parse frame = .ok packet →
      world.connection.accept packet = .ok (connection, accepted) →
      after (world.connection.acknowledgedBy packet)
        { world with connection })
    (hfailed : ∀ acknowledged world, after acknowledged world → failed world) :
    Returns pre (receiveIntoPending ends link frame) (fun answer => after answer.2) failed := by
  apply ensures_get_bind
  intro world
  split
  · apply ensures_pure
    rintro s ⟨rfl, hs⟩
    exact hother s hs
  rename_i packet hparse
  split
  · apply ensures_fail
    rintro s ⟨rfl, hs⟩
    exact hfailed false s (hother s hs)
  split
  · apply ensures_fail
    rintro s ⟨rfl, hs⟩
    exact hfailed false s (hother s hs)
  rename_i connection accepted haccepted
  have hset : Returns (fun s => s = world ∧ pre s) (setConnection fun _ => connection)
      (fun _ => after (world.connection.acknowledgedBy packet)) failed := by
    apply ensures_modify
    rintro s ⟨rfl, hs⟩
    exact haccept s packet connection accepted hs hparse haccepted
  apply hset.bind
  intro _
  refine Ensures.bind ?_ fun _ => ensures_pure fun s hs => hs
  apply ((hafter _).sendAckIf _).mono
  · exact fun _ hs => hs
  · exact fun _ _ hs => hs
  · exact fun _ => hfailed _
  · exact fun _ hs => hs

/-- Polling: the condition between two polls is steady, and the handler of
the call keeps it until it ends the call. -/
theorem ensures_pollFrames {α : Type}
    {handle : Bytes → Effect (StreamWorld σ) StreamError (Option α)}
    {given : Bytes → StreamWorld σ → Prop} {done : α → StreamWorld σ → Prop} (hP : Steady ends P)
    (hreceived : ∀ world frame next, P world → given frame (world.received frame next))
    (hgiven : ∀ frame world, given frame world → P world)
    (hfailed : ∀ world, P world → failed world)
    (hhandle : ∀ frame, Returns (given frame) (handle frame)
      (ByAnswer P done) failed) (polls : ℕ) :
    Returns P (pollFrames ends link handle polls) (ByAnswer P done) failed := by
  induction polls with
  | zero => exact ensures_pure fun s hs => hs
  | succ polls ih =>
    have hreceive : Returns P (receiveFrame link) (ByAnswer P given) failed := by
      intro world hworld
      simp only [receiveFrame]
      rcases link.receive world.link with ⟨_ | frame, next⟩
      · exact hP.moved world next hworld
      · exact hreceived world frame next hworld
    apply hreceive.bind
    rintro (_ | frame)
    · exact ih
    have hframe : Returns (given frame) (handleFrame ends link handle frame) (ByAnswer P done)
        failed := by
      rw [handleFrame]
      split
      · exact ensures_fail fun s hs => hfailed s (hgiven frame s hs)
      split
      · rename_i harp
        refine Ensures.bind ?_ fun _ => ensures_pure fun s hs => hs
        exact (hP.answerArp harp).before (hgiven frame)
      · exact hhandle frame
    apply hframe.bind
    rintro (_ | a)
    · exact ih
    · exact ensures_pure fun s hs => hs

end Rules

end ExpOS
