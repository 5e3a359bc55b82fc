import ExpOS.Network.Stream

/-!
# Reads deliver the peer's stream

The peer sends the octets of one stream, cut into segments in any way, and
the network may lose, repeat, delay or reorder them.  The connection is at
one position of the stream: what reads have returned and what is buffered.

The routine that takes in a frame drops the payload of the next segment while
the buffer is occupied, which is harmless because the peer sends it again.
But it also looks at the FIN of the same segment, and then the octets it
dropped are counted as the end of the stream.  In every run without such a
delivery, reads return a part of the stream from its start, and report its
end only after all of it.
-/

namespace ExpOS

open List PendingBuffer

open Bytes Effect

/-! ## Positions in a stream -/

variable {base : UInt32}

/-- Two offsets less than `2 ^ 32` apart stand for different numbers. -/
theorem offset_unique {a b : ℕ} (h : base + UInt32.ofNat a = base + UInt32.ofNat b)
    (hab : a < b + 2 ^ 32) (hba : b < a + 2 ^ 32) : a = b := by
  have hnat := congrArg UInt32.toNat ((UInt32.add_right_inj base).mp h)
  simp only [UInt32.toNat_ofNat'] at hnat
  omega

/-- The packet is a segment of the stream that is not 2 ^ 31 octets away from
the position. -/
def IsSegment (stream : Bytes) (base : UInt32) (position : ℕ) (packet : TcpPacket) : Prop :=
  ∃ offset, packet.sequence = base + UInt32.ofNat offset ∧
    packet.payload = part stream offset packet.payload.length ∧
    offset + packet.payload.length ≤ stream.length ∧ (packet.has tcpFin = true →
      offset + packet.payload.length = stream.length) ∧
    offset < position + 2 ^ 31 ∧ position < offset + 2 ^ 31

/-- Whatever content the frame has comes from the stream. -/
def FromPeer (ends : TcpEndpoints) (stream : Bytes) (base : UInt32)
    (position : ℕ) (frame : Bytes) : Prop :=
  ∀ packet, ends.parse frame = .ok packet → packet.payload ≠ [] ∨ packet.has tcpFin = true →
    IsSegment stream base position packet

/-- The frame is the next segment, with payload and FIN, and finds the buffer
occupied. -/
def losesPayload (ends : TcpEndpoints) (connection : TcpConnection) (frame : Bytes) : Bool :=
  match ends.parse frame with
  | .error _ => false
  | .ok packet =>
    packet.payload != [] && packet.has tcpFin
      && packet.sequence == connection.remoteNext
      && connection.pending.octets != []

/-- The octets that the reads of a run returned. -/
def octetsReturned (events : List StreamEvent) : Bytes :=
  events.flatMap StreamEvent.octetsRead

theorem octetsReturned_append (past : List StreamEvent)
    (event : StreamEvent) : octetsReturned (past ++ [event]) =
      octetsReturned past ++ event.octetsRead := by
  simp [octetsReturned]

/-- The position of a connection in the peer's stream. -/
def streamPosition (returned : Bytes) (connection : TcpConnection) : ℕ :=
  returned.length + connection.pending.unread.length

/-- A frame that the driver gave, with the connection at that moment and its
position. -/
structure Delivery where
  position : ℕ
  connection : TcpConnection
  frame : Bytes

/-- The deliveries of a run that goes on from the octets returned so far. -/
def deliveries (returned : Bytes) : List StreamEvent → List Delivery
  | [] => []
  | event :: events =>
    (event.log.filterMap fun
      | .received connection frame =>
        some ⟨streamPosition returned connection, connection, frame⟩
      | .sent _ => none) ++
    deliveries (returned ++ event.octetsRead) events

variable {frame : Bytes}

theorem mem_deliveries {returned : Bytes} {before after : List StreamEvent} {event : StreamEvent}
    {connection : TcpConnection} (h : .received connection frame ∈ event.log) :
    ⟨streamPosition (returned ++ octetsReturned before) connection,
      connection, frame⟩ ∈ deliveries returned (before ++ event :: after) := by
  induction before generalizing returned with
  | nil =>
    apply mem_append_left
    apply mem_filterMap.mpr
    exact ⟨_, h, by simp [octetsReturned]⟩
  | cons first before ih =>
    apply mem_append_right
    have := @ih (returned ++ first.octetsRead)
    rwa [append_assoc] at this

/-! ## The invariant -/

/-- What was returned and what is buffered is the stream up to the next
octet expected, and a closed stream is there to its end. -/
structure AtPosition (stream : Bytes) (base : UInt32) (returned : Bytes)
    (connection : TcpConnection) : Prop where
  received : returned ++ connection.pending.unread <+: stream
  next : connection.remoteClosed = false → connection.remoteNext =
    base + UInt32.ofNat (streamPosition returned connection)
  closed : connection.remoteClosed = true → returned ++ connection.pending.unread = stream ∧
      connection.remoteNext = base + UInt32.ofNat (stream.length + 1)

namespace AtPosition

variable {stream : Bytes} {base : UInt32} {returned : Bytes}
variable {connection : TcpConnection} {packet : TcpPacket}

theorem established (stream : Bytes) (localNext base : UInt32) :
    AtPosition stream base [] (.established localNext base) where
  received := List.nil_prefix
  next _ := by simp [TcpConnection.established, streamPosition]
  closed h := absurd h (by simp [TcpConnection.established])

/-- Only the segment at the position itself carries the number expected. -/
theorem offset_eq (h : AtPosition stream base returned connection)
    {offset : ℕ} (hnext : base + UInt32.ofNat offset = connection.remoteNext)
    (hle : offset ≤ stream.length) (hafter : offset < streamPosition returned connection + 2 ^ 31)
    (hbefore : streamPosition returned connection < offset + 2 ^ 31) :
    connection.remoteClosed = false ∧ offset = streamPosition returned connection := by
  cases hclosed : connection.remoteClosed with
  | false =>
    rw [h.next hclosed] at hnext
    exact ⟨rfl, offset_unique hnext (by omega) (by omega)⟩
  | true =>
    obtain ⟨hall, hremote⟩ := h.closed hclosed
    rw [hremote] at hnext
    have hposition : streamPosition returned connection = stream.length := by
      rw [← hall, length_append]
      rfl
    have := offset_unique hnext (by omega) (by omega)
    omega

/-- Buffering the payload at the position. -/
theorem buffered (h : AtPosition stream base returned connection)
    (hopen : connection.remoteClosed = false)
    (hempty : connection.pending.octets = []) {payload : Bytes}
    (hpayload : payload = part stream (streamPosition returned connection) payload.length)
    (hne : payload ≠ []) (hle : payload.length ≤ tcpPayloadCapacity) :
    AtPosition stream base returned (connection.buffered payload hne hle) := by
  have hunread := unread_eq_nil_iff.mpr hempty
  have hposition : streamPosition returned connection = returned.length := by
    rw [streamPosition, hunread]
    rfl
  have hnext := h.next hopen
  rw [hposition] at hpayload hnext
  constructor
  · obtain ⟨rest, hrest⟩ := h.received
    rw [hunread, append_nil] at hrest
    change returned ++ payload <+: stream
    rw [hpayload, ← hrest, part, drop_left]
    exact (prefix_append_right_inj _).mpr ( take_prefix _ _)
  · intro _
    change connection.remoteNext + UInt32.ofNat payload.length =
      base + UInt32.ofNat (returned.length + payload.length)
    rw [hnext, UInt32.ofNat_add, UInt32.add_assoc]
  · intro hclosed
    exact absurd (hopen.symm.trans hclosed) (by simp)

/-- Closing at the end of the stream. -/
theorem ended (h : AtPosition stream base returned connection)
    (hopen : connection.remoteClosed = false)
    (hend : streamPosition returned connection = stream.length) :
    AtPosition stream base returned connection.ended := by
  have hall : returned ++ connection.pending.unread = stream := by
    apply h.received.eq_of_length
    rw [length_append]
    exact hend
  constructor
  · exact h.received
  · intro hclosed
    exact absurd hclosed (by simp [TcpConnection.ended])
  · intro _
    refine ⟨hall, ?_⟩
    change connection.remoteNext + 1 = _
    rw [h.next hopen, hend, UInt32.ofNat_add, UInt32.add_assoc]
    rfl

/-- What the connection accepts of a segment of the stream. -/
theorem accept (h : AtPosition stream base returned connection)
    (hsegment : packet.payload ≠ [] ∨ packet.has tcpFin = true →
      IsSegment stream base (streamPosition returned connection) packet)
    (hkept : ¬ (packet.payload ≠ [] ∧ packet.has tcpFin = true ∧
      packet.sequence = connection.remoteNext ∧ connection.pending.octets ≠ []))
    {accepted : TcpConnection × Bool} (haccept : connection.accept packet = .ok accepted) :
    AtPosition stream base returned accepted.1 := by
  rcases TcpConnection.accept_cases haccept with
    hsame | ⟨hsequence, ⟨hempty, hne, hle, htaken⟩ | ⟨hfull, hfin, htaken⟩⟩
  · rw [hsame]
    exact h
  · obtain ⟨offset, hnumber, hpayload, hwithin, hend, hafter, hbefore⟩ := hsegment (.inl hne)
    obtain ⟨hopen, rfl⟩ := h.offset_eq (hnumber.symm.trans hsequence) (by omega) hafter hbefore
    have hbuffered := h.buffered hopen hempty hpayload hne hle
    rcases htaken with htaken | ⟨hfin, htaken⟩
    · rw [htaken]
      exact hbuffered
    rw [htaken]
    apply hbuffered.ended hopen
    have hunread := unread_eq_nil_iff.mpr hempty
    rw [← hend hfin, streamPosition, streamPosition, hunread]
    rfl
  · obtain ⟨offset, hnumber, hpayload, hwithin, hend, hafter, hbefore⟩ := hsegment (.inr hfin)
    obtain ⟨hopen, rfl⟩ := h.offset_eq (hnumber.symm.trans hsequence) (by omega) hafter hbefore
    have hnil : packet.payload = [] := by
      by_contra hne
      exact hkept ⟨hne, hfin, hsequence, hfull.resolve_left hne⟩
    rw [htaken]
    apply h.ended hopen
    have := hend hfin
    rwa [hnil] at this

theorem drain (h : AtPosition stream base returned connection) (room : ℕ) :
    AtPosition stream base (returned ++ (connection.pending.drain room).1)
      { connection with pending := (connection.pending.drain room).2 } := by
  have hunread : returned ++ (connection.pending.drain room).1 ++
      (connection.pending.drain room).2.unread = returned ++ connection.pending.unread := by
    rw [append_assoc, drain_unread]
  constructor
  · change returned ++ _ ++ _ <+: stream
    rw [hunread]
    exact h.received
  · intro hopen
    have hlength := congrArg List.length hunread
    simp only [length_append] at hlength
    rw [h.next hopen, streamPosition, streamPosition, length_append, hlength]
  · intro hclosed
    rw [hunread]
    exact h.closed hclosed

/-- The invariant does not depend on the sending side. -/
theorem of_same (h : AtPosition stream base returned connection)
    {other : TcpConnection} (hpending : other.pending = connection.pending)
    (hremote : other.remoteNext = connection.remoteNext)
    (hclosed : other.remoteClosed = connection.remoteClosed) :
    AtPosition stream base returned other := by
  have hposition : streamPosition returned other = streamPosition returned connection := by
    rw [streamPosition, streamPosition, hpending]
  constructor
  · rw [hpending]
    exact h.received
  · rw [hclosed, hremote, hposition]
    exact h.next
  · rw [hclosed, hremote, hpending]
    exact h.closed

end AtPosition

/-! ## The calls -/

section Calls

variable {σ : Type} (ends : TcpEndpoints) (link : Link σ)
variable (stream : Bytes) (base : UInt32) (returned : Bytes)

/-- A frame of the stream that meets the connection where no payload is
lost. -/
def GoodDelivery (connection : TcpConnection) (frame : Bytes) : Prop :=
  FromPeer ends stream base (streamPosition returned connection) frame ∧
    losesPayload ends connection frame = false

/-- Every frame that the driver gave so far was such a delivery. -/
def GoodLog (log : List LinkEvent) : Prop :=
  ∀ connection frame, .received connection frame ∈ log →
    GoodDelivery ends stream base returned connection frame

/-- The invariant between two steps of a call. -/
def Following (world : StreamWorld σ) : Prop :=
  GoodLog ends stream base returned world.log → AtPosition stream base returned world.connection

/-- The frame was given to a connection that differs at most in its sending
side. -/
def Given (frame : Bytes) (world : StreamWorld σ) : Prop :=
  Following ends stream base returned world ∧ ∃ connection, .received connection frame ∈ world.log ∧
      world.connection.pending = connection.pending ∧
      world.connection.remoteNext = connection.remoteNext

/-- The invariant after a read that returned octets. -/
def Answered (octets : Bytes) (world : StreamWorld σ) : Prop :=
  GoodLog ends stream base returned world.log →
    AtPosition stream base (returned ++ octets) world.connection ∧ (octets = [] → returned = stream)

variable {ends link stream base returned} {log : List LinkEvent}

theorem GoodLog.of_append {later : List LinkEvent}
    (h : GoodLog ends stream base returned (log ++ later)) :
    GoodLog ends stream base returned log :=
  fun connection frame hmem => h connection frame (mem_append_left later hmem)

variable {world : StreamWorld σ}

theorem Following.sent (h : Following ends stream base returned world) (frame : Bytes) (next : σ) :
    Following ends stream base returned (world.sent frame next) :=
  fun hlog => h (by simpa [GoodLog, StreamWorld.sent] using hlog)

theorem Following.of_same {other : StreamWorld σ}
    (h : Following ends stream base returned world) (hlog : other.log = world.log)
    (hpending : other.connection.pending = world.connection.pending)
    (hremote : other.connection.remoteNext = world.connection.remoteNext)
    (hclosed : other.connection.remoteClosed = world.connection.remoteClosed) :
    Following ends stream base returned other := by
  intro hgood
  rw [hlog] at hgood
  exact (h hgood).of_same hpending hremote hclosed

theorem steady_following : Steady (σ := σ) ends (Following ends stream base returned) where
  moved _ _ h := h
  sent _ frame next h _ := h.sent frame next

theorem Following.received
    (h : Following ends stream base returned world) (frame : Bytes) (next : σ) :
    Given ends stream base returned frame (world.received frame next) := by
  constructor
  · exact fun hlog => h hlog.of_append
  · refine ⟨world.connection, ?_, rfl, rfl⟩
    exact mem_append_right _ mem_cons_self

/-- Taking in a frame keeps the position. -/
theorem ensures_receive : Returns (Given ends stream base returned frame)
      (receiveIntoPending ends link frame) (fun _ => Following ends stream base returned)
      (Following ends stream base returned) := by
  apply ensures_receiveIntoPending (fun _ => steady_following)
  · exact fun world h => h.1
  · rintro world packet connection accepted ⟨hfollowing, delivered, hmem,
      hpending, hremote⟩ hparse haccept hlog
    obtain ⟨hpeer, hloses⟩ := hlog delivered frame hmem
    apply (hfollowing hlog).accept _ _ haccept
    · intro hcontent
      have := hpeer packet hparse hcontent
      rwa [streamPosition, ← hpending] at this
    · rintro ⟨hne, hfin, hsequence, hfull⟩
      rw [hremote] at hsequence
      rw [hpending] at hfull
      simp [losesPayload, hparse, hne, hfin, hsequence, hfull] at hloses
  · exact fun _ world h => h

variable {room : ℕ}

/-- What a read finds in the buffer. -/
theorem ensures_readPending (hroom : 0 < room) :
    Returns (Following (σ := σ) ends stream base returned) (readPending room)
      (ByAnswer (Following ends stream base returned) (Answered ends stream base returned))
      (Following ends stream base returned) := by
  intro world h
  have hdrain : GoodLog ends stream base returned world.log → AtPosition stream base
        (returned ++ (world.connection.pending.drain room).1)
        (world.drained room).connection :=
    fun hlog => (h hlog).drain room
  rw [run_readPending]
  by_cases hcopied : (world.connection.pending.drain room).1 = []
  · have hunread := drain_eq_nil hroom hcopied
    rw [hcopied, append_nil] at hdrain
    rw [if_neg (not_not_intro hcopied)]
    by_cases hclosed : world.connection.remoteClosed = true
    · rw [if_pos hclosed]
      intro hlog
      rw [append_nil]
      refine ⟨hdrain hlog, fun _ => ?_⟩
      have hall := ((h hlog).closed hclosed).1
      rwa [hunread, append_nil] at hall
    · rw [if_neg hclosed]
      exact hdrain
  · rw [if_pos hcopied]
    exact fun hlog => ⟨hdrain hlog, fun hnil => absurd hnil hcopied⟩

/-- Polling with a handler that keeps the position. -/
theorem ensures_polling {α : Type} {handle : Bytes → Effect (StreamWorld σ) StreamError (Option α)}
    {done : α → StreamWorld σ → Prop} (h : ∀ frame, Returns (Given ends stream base returned frame)
      (handle frame) (ByAnswer (Following ends stream base returned) done)
      (Following ends stream base returned)) (polls : ℕ) :
    Returns (Following ends stream base returned) (pollFrames ends link handle polls)
      (ByAnswer (Following ends stream base returned) done)
      (Following ends stream base returned) := by
  apply ensures_pollFrames steady_following
  · exact fun world frame next hworld => hworld.received frame next
  · exact fun _ _ hgiven => hgiven.1
  · exact fun _ hworld => hworld
  · exact h

theorem ensures_readRounds (hroom : 0 < room) (rounds : ℕ) :
    Returns (Following ends stream base returned) (readRounds ends link room rounds)
      (Answered ends stream base returned) (Following ends stream base returned) := by
  induction rounds with
  | zero => exact ensures_fail fun _ h => h
  | succ rounds ih =>
    apply (ensures_polling _ receivePolls).bind
    · rintro (_ | octets)
      · exact (steady_following.sendAckIf _).bind fun _ => ih
      · exact ensures_pure fun _ h => h
    · exact fun frame => ensures_receive.bind fun _ => ensures_readPending hroom

/-- A read returns the next octets, and none only at the end. -/
theorem ensures_readStream (room : ℕ) : Returns (Following ends stream base returned)
      (readStream ends link room) (fun octets world => GoodLog ends stream base returned world.log →
        AtPosition stream base (returned ++ octets) world.connection ∧
          (0 < room → octets = [] → returned = stream)) (Following ends stream base returned) := by
  rw [readStream]
  split
  · rename_i hzero
    apply ensures_pure
    intro world h hlog
    rw [append_nil]
    exact ⟨h hlog, fun hroom => absurd hzero hroom.ne'⟩
  · rename_i hroom
    have hpos := Nat.pos_of_ne_zero hroom
    refine Ensures.after (?_ : Ensures (Following ends stream base returned) _
      (Answered ends stream base returned) _ _) ?_
    · apply (ensures_readPending hpos).bind
      rintro (_ | octets)
      · exact ensures_readRounds hpos streamRetries
      · exact ensures_pure fun _ h => h
    · intro octets world h hlog
      exact ⟨(h hlog).1, fun _ => (h hlog).2⟩

/-- The frames that come during a write keep the position. -/
theorem ensures_writeFrame (expectedAck : UInt32) (frame : Bytes) :
    Returns (Given ends stream base returned frame) (writeFrame ends link expectedAck frame)
      (ByAnswer (Following ends stream base returned) fun _ => Following ends stream base returned)
      (Following ends stream base returned) := by
  have hset : Returns (Given ends stream base returned frame)
      (setConnection (σ := σ) fun connection =>
        if acknowledgement ends frame == some expectedAck then
          { connection with localNext := expectedAck }
        else connection)
      (fun _ => Given ends stream base returned frame) (Following ends stream base returned) := by
    apply ensures_modify
    rintro world ⟨hfollowing, delivered, hmem, hpending, hremote⟩
    split
    · exact ⟨hfollowing.of_same rfl rfl rfl rfl, delivered, hmem, hpending, hremote⟩
    · exact ⟨hfollowing, delivered, hmem, hpending, hremote⟩
  apply hset.bind
  intro _
  apply ensures_receive.bind
  rintro ⟨_, acknowledged⟩
  simp only
  split
  · have hlast : Maintains (Following ends stream base returned)
      (setConnection (σ := σ) fun connection => { connection with localNext := expectedAck }) :=
      ensures_modify fun world h => h.of_same rfl rfl rfl rfl
    exact hlast.bind fun _ => ensures_pure fun _ h => h
  · exact ensures_pure fun _ h => h

theorem ensures_writeRounds (sequence : UInt32) (payload : Bytes) (rounds : ℕ) :
    Maintains (Following ends stream base returned)
        (writeRounds ends link sequence payload rounds) := by
  induction rounds with
  | zero => exact ensures_fail fun _ h => h
  | succ rounds ih =>
    have hsend : Maintains (Following ends stream base returned)
        (sendSegment ends link sequence (tcpAck ||| tcpPsh) payload) :=
      ensures_sendSegment (fun _ h => h) fun _ frame next h _ => h.sent frame next
    apply hsend.bind
    intro _
    apply (ensures_polling (ensures_writeFrame _) receivePolls).bind
    rintro (_ | _)
    · exact ih
    · exact ensures_pure fun _ h => h

theorem ensures_writeStream (input : Bytes) : Maintains (Following ends stream base returned)
      (writeStream ends link input) := by
  apply ensures_get_bind
  intro world
  split
  · exact ensures_fail fun _ h => h.2
  · split
    · exact ensures_pure fun _ h => h.2
    · exact (ensures_writeRounds _ _ _).before fun _ h => h.2

theorem ensures_closeStream : Maintains (Following ends stream base returned)
      (closeStream ends link) := by
  apply ensures_get_bind
  intro world
  split
  · exact ensures_pure fun _ h => h.2
  have hsend : Returns (fun t => t = world ∧ Following ends stream base returned t)
      (sendSegment ends link world.connection.localNext (tcpFin ||| tcpAck) [])
      (fun _ => Following ends stream base returned) (Following ends stream base returned) :=
    ensures_sendSegment (fun _ h => h.2) fun _ frame next h _ => h.2.sent frame next
  apply hsend.attempt.bind
  intro _
  apply ensures_modify
  exact fun _ h => h.of_same rfl rfl rfl rfl

variable (link) in
/-- Each call advances the position by what it returns. -/
theorem ensures_perform (call : StreamCall) :
    Returns (Following ends stream base returned) (call.perform ends link)
      (fun value world => GoodLog ends stream base returned world.log →
        (∀ room, call = .read room → 0 < room → value = .copied [] → returned = stream) ∧
        AtPosition stream base (returned ++ value.octetsRead) world.connection)
      (Following ends stream base returned) := by
  cases call with
  | write input =>
    apply (ensures_writeStream input).bind
    intro count
    apply ensures_pure
    intro world h hlog
    refine ⟨fun room hcall => absurd hcall (by simp), ?_⟩
    exact (append_nil returned).symm ▸ h hlog
  | read room =>
    apply (ensures_readStream room).bind
    intro octets
    apply ensures_pure
    intro world h hlog
    obtain ⟨hposition, hend⟩ := h hlog
    refine ⟨fun room' hcall hpos hvalue => ?_, hposition⟩
    cases hcall
    exact hend hpos (StreamValue.copied.inj hvalue)
  | close =>
    apply ensures_closeStream.bind
    intro _
    apply ensures_pure
    intro world h hlog
    refine ⟨fun room hcall => absurd hcall (by simp), ?_⟩
    exact (append_nil returned).symm ▸ h hlog

/-- One call of a run, however it ends. -/
theorem AtPosition.perform {call : StreamCall} {connection : TcpConnection}
    {state : σ} {answer : Outcome StreamError StreamValue}
    (h : AtPosition stream base returned connection)
    (hrun : (call.perform ends link).run ⟨connection, state, []⟩ = (answer, world))
    (hlog : GoodLog ends stream base returned world.log) :
    (∀ room, call = .read room → 0 < room → answer = .done (.copied []) → returned = stream) ∧
    AtPosition stream base (returned ++ StreamEvent.octetsRead ⟨call, world.log, answer⟩)
      world.connection := by
  have hstart : Following ends stream base returned
      (⟨connection, state, []⟩ : StreamWorld σ) := fun _ => h
  have hend := ensures_perform link call _ hstart
  rw [hrun] at hend
  cases answer with
  | done value =>
    obtain ⟨hread, hposition⟩ := hend hlog
    refine ⟨fun room hcall hpos hanswer => ?_, hposition⟩
    exact hread room hcall hpos (Outcome.done.inj hanswer)
  | fail error =>
    rw [StreamEvent.octetsRead, append_nil]
    exact ⟨fun room hcall hpos hanswer => absurd hanswer (by simp), hend hlog⟩
  | halt => exact False.elim hend

end Calls

/-! ## Whole runs -/

/-- Over any network and any sequence of calls: if every frame that came was
a segment of the stream and none met the buffer occupied with payload and
FIN, the octets returned are a beginning of the stream, and a read with room
returns nothing only after all of it. -/
theorem read_stream_delivers {σ : Type} (ends : TcpEndpoints) (link : Link σ)
    (stream : Bytes) (localNext base : UInt32) (calls : List StreamCall) (state : σ)
    (h : ∀ delivery ∈ deliveries [] (runCalls ends link calls (.established localNext base) state),
      FromPeer ends stream base delivery.position delivery.frame ∧
        losesPayload ends delivery.connection delivery.frame = false) : octetsReturned
      (runCalls ends link calls (.established localNext base) state) <+: stream ∧
    ∀ before event after room, runCalls ends link calls (.established localNext base) state =
        before ++ event :: after → event.call = .read room → 0 < room →
      event.answer = .done (.copied []) → octetsReturned before = stream := by
  obtain ⟨hgood, hinv⟩ := runCalls_keeps ends link
    (fun past => AtPosition stream base (octetsReturned past))
    (fun past event => GoodLog ends stream base (octetsReturned past) event.log)
    (fun past event => ∀ room, event.call = .read room → 0 < room →
      event.answer = .done (.copied []) → octetsReturned past = stream)
    (fun past call connection state answer world hposition hrun hlog => by
      rw [octetsReturned_append]
      exact hposition.perform hrun hlog)
    calls [] (.established localNext base) state
    (AtPosition.established stream localNext base)
    (fun before event after hsplit connection frame hmem => by
      rw [hsplit] at h
      exact h _ (mem_deliveries hmem))
  constructor
  · obtain ⟨connection, hposition⟩ := hinv _ [] (append_nil _).symm
    exact (prefix_append _ _).trans hposition.received
  · intro before event after room hsplit
    exact hgood before event after hsplit room

theorem FromPeer.of_packet {ends : TcpEndpoints} {stream : Bytes} {position : ℕ}
    {packet : TcpPacket}
    (hsent : (ends.swap.tcpFrame packet).isSome = true)
    (h : IsSegment stream base position packet) :
    FromPeer ends stream base position (ends.peerFrame packet) := by
  intro packet' hparse _
  rw [ends.parse_peerFrame hsent] at hparse
  rw [← Except.ok.inj hparse]
  exact h

/-- The first octet of a stream of two, with the acknowledgement of one
octet. -/
def firstHalf : TcpPacket := ⟨1000, 501, tcpAck ||| tcpPsh, [0x48]⟩

/-- The second octet with the end of the stream. -/
def secondHalf : TcpPacket :=
  ⟨1001, 502, tcpAck ||| tcpPsh ||| tcpFin, [0x69]⟩

theorem fromPeer_firstHalf :
    FromPeer localEnds [0x48, 0x69] 1000 0 (localEnds.peerFrame firstHalf) :=
  .of_packet (by decide +kernel) ⟨0, by decide +kernel⟩

theorem fromPeer_secondHalf :
    FromPeer localEnds [0x48, 0x69] 1000 1 (localEnds.peerFrame secondHalf) :=
  .of_packet (by decide +kernel) ⟨1, by decide +kernel⟩

/-- Two writes whose acknowledgements bring the two halves of the stream, and
the reads after each. -/
def halvesRead : List StreamEvent :=
  runCalls localEnds scriptLink
    [.write [1], .read 8, .write [2], .read 8, .read 8]
    (.established 500 1000)
    [localEnds.peerFrame firstHalf, localEnds.peerFrame secondHalf]

theorem halvesRead_delivered : octetsReturned halvesRead = [0x48, 0x69] ∧
      octetsReturned halvesRead <+: [0x48, 0x69] := by
  refine ⟨by decide +kernel, ?_⟩
  apply (read_stream_delivers localEnds scriptLink [0x48, 0x69] 500 1000 _ _ _).1
  have hall : ∀ delivery ∈ deliveries [] halvesRead, (delivery.position = 0 ∧
          delivery.frame = localEnds.peerFrame firstHalf ∨
        delivery.position = 1 ∧ delivery.frame = localEnds.peerFrame secondHalf) ∧
      losesPayload localEnds delivery.connection delivery.frame = false := by
    decide +kernel
  intro delivery hmem
  obtain ⟨⟨hposition, hframe⟩ | ⟨hposition, hframe⟩, hkept⟩ := hall delivery hmem
  · refine ⟨?_, hkept⟩
    rw [hposition, hframe]
    exact fromPeer_firstHalf
  · refine ⟨?_, hkept⟩
    rw [hposition, hframe]
    exact fromPeer_secondHalf

/-- The same two frames, both during writes: the second payload is dropped,
its FIN is not, and the reads return one octet and then the end. -/
def halfLost : List StreamEvent :=
  runCalls localEnds scriptLink
    [.write [1], .write [2], .read 8, .read 8] (.established 500 1000)
    [localEnds.peerFrame firstHalf, localEnds.peerFrame secondHalf]

theorem halfLost_ends_early : (∀ delivery ∈ deliveries [] halfLost,
      FromPeer localEnds [0x48, 0x69] 1000 delivery.position delivery.frame) ∧
    halfLost.map (fun event => (event.call, event.answer)) =
      [(.write [1], .done (.written 1)), (.write [2], .done (.written 1)),
        (.read 8, .done (.copied [0x48])), (.read 8, .done (.copied []))] ∧
    octetsReturned halfLost = [0x48] := by
  refine ⟨?_, by decide +kernel, by decide +kernel⟩
  have hall : ∀ delivery ∈ deliveries [] halfLost, delivery.position = 0 ∧
          delivery.frame = localEnds.peerFrame firstHalf ∨
        delivery.position = 1 ∧ delivery.frame = localEnds.peerFrame secondHalf := by
    decide +kernel
  intro delivery hmem
  obtain ⟨hposition, hframe⟩ | ⟨hposition, hframe⟩ := hall delivery hmem
  · rw [hposition, hframe]
    exact fromPeer_firstHalf
  · rw [hposition, hframe]
    exact fromPeer_secondHalf

end ExpOS
