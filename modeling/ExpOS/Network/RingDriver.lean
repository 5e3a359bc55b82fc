import ExpOS.Network.Portal
import ExpOS.Support.Bytes
import ExpOS.Support.Triple

/-!
# The driver behind the portal

The network service programs the RTL8139 through the portal, hands it frames
in four buffers and takes received frames out of its ring.  After each frame
it tells the device how far it has read, in a register that counts from 16
octets before the ring; the portal admits the values this gives for every
place in the ring except the second, third and fourth word.

What the device answers to reads and what it has put into the ring are
arbitrary.
-/

namespace ExpOS

open List Option

namespace RingDriver

open Effect Portal

def commandRxBufferEmpty : ℕ := 1
def txStatusOwn : ℕ := 1 <<< 13
def txStatusOk : ℕ := 1 <<< 15
def txStatusAborted : ℕ := 1 <<< 30
def driverPolls : ℕ := 2000000

/-- The receive buffer and the transmit buffers, aligned to 256 octets. -/
def dmaBytes : ℕ := 16128

structure DriverState where
  initialized : Bool
  backend : ℕ
  receiveOffset : ℕ
  transmitIndex : ℕ

/-- What the driver met, for reference: the writes that were refused, the
lengths of the frames in the ring since the last start and before, the valid
frames among them and those it returned. -/
structure Log where
  refused : List (ℕ × ℕ × ℕ)
  lengths : List ℕ
  earlier : List (List ℕ)
  arrived : List Bytes
  delivered : List Bytes

structure Worker where
  machine : Portal.Machine
  driver : DriverState
  transmit : ℕ → Bytes
  reads : ℕ
  log : Log

/-- The service as it is loaded. -/
def Worker.loaded (machine : Portal.Machine) : Worker where
  machine
  driver :=
    { initialized := false
      backend := 0
      receiveOffset := 0
      transmitIndex := 0 }
  transmit := fun _ => List.replicate maxFrameSize 0
  reads := 0
  log := { refused := [], lengths := [], earlier := [], arrived := [], delivered := [] }

/-! ## Register accesses -/

/-- The value of each port at each read. -/
abbrev Ports := ℕ → ℕ → ℕ

def driverRead (ports : Ports) (register width : ℕ) : Effect Worker Unit ℕ where
  run worker :=
    match worker.machine.serviceDriverRead register width
        (ports worker.reads) with
    | .ok value => (.done value, { worker with reads := worker.reads + 1 })
    | .error _ => (.fail (), worker)

/-- A refused write is an error for every caller. -/
def driverWrite (register width value : ℕ) : Effect Worker Unit PUnit where
  run worker :=
    match worker.machine.serviceDriverWrite register width value with
    | (.ok (), machine) => (.done ⟨⟩, { worker with machine })
    | (.error _, machine) =>
      (.fail (),
        { worker with
          machine
          log :=
            { worker.log with
              refused := worker.log.refused ++ [(register, width, value)] } })

/-- Poll a register until a condition holds; the callers differ in what a
failed read means. -/
def await (ports : Ports) (register width : ℕ) (condition : ℕ → Bool) : ℕ → Effect Worker Unit ℕ
  | 0 => Effect.fail ()
  | polls + 1 => do
      let value ← driverRead ports register width
      if condition value then pure value
      else await ports register width condition polls

/-- A failed read counts as a poll. -/
def awaitAvailable (ports : Ports) (register : ℕ) : ℕ → Effect Worker Unit PUnit
  | 0 => Effect.fail ()
  | polls + 1 => do
      let status ← (driverRead ports register 4).attempt
      if status.any fun value => value &&& txStatusOwn != 0 then pure ⟨⟩
      else awaitAvailable ports register polls

/-! ## Configuration -/

/-- What the kernel reports about the interface. -/
structure ConfigurationReply where
  ready : Bool
  mac : Bytes
  backend : ℕ

/-- The kernel translates the address of the buffers, if they are the
service's own. -/
def acquire (network : NetworkStack) (physical : Option ℕ) : Effect Worker Unit PUnit where
  run worker :=
    match physical with
    | none => (.fail (), worker)
    | some physical =>
      match worker.machine.serviceDriverAcquire network physical dmaBytes
          rxBufferSize maxFrameSize txBufferCount with
      | (.ok (), machine) => (.done ⟨⟩, { worker with machine })
      | (.error _, machine) => (.fail (), { worker with machine })

/-- The device fills the ring from its start again. -/
def Log.restart (log : Log) : Log :=
  { log with
    lengths := []
    earlier := log.lengths :: log.earlier }

def start (backend : ℕ) : Effect Worker Unit PUnit :=
  Effect.modify fun worker =>
    { worker with
      driver :=
        { initialized := true
          backend
          receiveOffset := 0
          transmitIndex := 0 }
      log := worker.log.restart }

/-- The six octets of the link address. -/
def readAddress (ports : Ports) : List ℕ → Effect Worker Unit Bytes
  | [] => pure []
  | index :: indices => do
      let octet ← driverRead ports (idr0 + index) 1
      let octets ← readAddress ports indices
      pure (UInt8.ofNat octet :: octets)

def programRegisters : Effect Worker Unit PUnit := do
  driverWrite rbstart 4 0
  (List.range txBufferCount).forM fun index =>
    driverWrite (tsad0 + index * 4) 4 0
  driverWrite imr 2 0
  driverWrite isr 2 0xFFFF
  driverWrite tcr 4 0x03000000
  driverWrite rcr 4 ringConfiguration
  driverWrite Portal.command 1 (commandRxEnable ||| commandTxEnable)
  driverWrite capr 2 0xFFF0

def configureRing (network : NetworkStack) (ports : Ports)
    (physical : Option ℕ) (backend : ℕ) : Effect Worker Unit Bytes := do
  acquire network physical
  driverWrite config1 1 0
  driverWrite Portal.command 1 commandReset
  let _ ← await ports Portal.command 1
    (fun value => value &&& commandReset == 0) driverPolls
  let mac ← readAddress ports (List.range 6)
  Effect.modify fun worker =>
    { worker with transmit := fun _ => List.replicate maxFrameSize 0 }
  programRegisters
  start backend
  let media ← driverRead ports mediaStatus 1
  if media &&& 1 <<< 2 ≠ 0 then Effect.fail () else pure mac

/-- The link address of the interface; the other addresses are those that the
kernel reports. -/
def configuration (network : NetworkStack) (ports : Ports)
    (physical : Option ℕ) (reply : ConfigurationReply) : Effect Worker Unit Bytes :=
  if reply.ready = false then Effect.fail ()
  else if reply.mac = List.replicate 6 0 ∨ reply.mac = List.replicate 6 0xFF ∨
      ¬(1 ≤ reply.backend ∧ reply.backend ≤ 3) then Effect.fail ()
  else if reply.backend ≠ 1 then do
    start reply.backend
    pure reply.mac
  else configureRing network ports physical reply.backend

/-! ## Sending -/

/-- The buffer with a padded frame at its start. -/
def fillBuffer (buffer frame : Bytes) (length : ℕ) : Bytes :=
  frame ++ List.replicate (length - frame.length) 0 ++ buffer.drop length

def sendFrame (ports : Ports) (frame : Bytes) (index : ℕ) : Effect Worker Unit PUnit := do
  let length := max frame.length 60
  let register := tsd0 + index * 4
  awaitAvailable ports register driverPolls
  Effect.modify fun worker =>
    { worker with
      transmit :=
        Function.update worker.transmit index
          (fillBuffer (worker.transmit index) frame length) }
  driverWrite register 4 (32 <<< 16 ||| length)
  let status ← await ports register 4
    (fun value => value &&& txStatusOk != 0 || value &&& txStatusAborted != 0)
    driverPolls
  if status &&& txStatusOk ≠ 0 then
    Effect.modify fun worker =>
      { worker with
        driver :=
          { worker.driver with
            transmitIndex := (index + 1) % txBufferCount } }
  else Effect.fail ()

/-- An error stands for `false`.  Other devices take the frame from the
kernel, which says whether it did. -/
def send (ports : Ports) (kernelSends : Bool) (frame : Bytes) : Effect Worker Unit PUnit := do
  let worker ← Effect.get
  if worker.driver.initialized = false ∨ maxFrameSize < frame.length then
    Effect.fail ()
  else if worker.driver.backend ≠ 1 then
    if kernelSends then pure ⟨⟩ else Effect.fail ()
  else sendFrame ports frame worker.driver.transmitIndex

/-! ## Receiving -/

def readWrappedU16 (ring : ℕ → UInt8) (offset : ℕ) : ℕ :=
  (ring (offset % rxRingSize)).toNat + 256 * (ring ((offset + 1) % rxRingSize)).toNat

def copyWrapped (ring : ℕ → UInt8) (offset length : ℕ) : Bytes :=
  (List.range length).map fun index => ring ((offset + index) % rxRingSize)

/-- The place after the frame at a place. -/
def nextOffset (ring : ℕ → UInt8) (offset : ℕ) : ℕ :=
  let deviceLength := readWrappedU16 ring (offset + 2)
  let advance :=
    if 4 ≤ deviceLength ∧ deviceLength ≤ maxFrameSize + 4 then
      deviceLength + 4
    else 4
  (offset + advance + 3) / 4 * 4 % rxRingSize

/-- The frame at a place, if it is valid. -/
def frameAt (ring : ℕ → UInt8) (offset : ℕ) : Option Bytes :=
  let status := readWrappedU16 ring offset
  let deviceLength := readWrappedU16 ring (offset + 2)
  if status &&& 1 ≠ 0 ∧ 4 ≤ deviceLength ∧ deviceLength ≤ maxFrameSize + 4 then
    some (copyWrapped ring (offset + 4) (deviceLength - 4))
  else none

/-- The register counts from 16 octets before the ring, in 16 bits. -/
def readPointer (offset : ℕ) : ℕ := (offset + 2 ^ 64 - 16) % 2 ^ 64 % 2 ^ 16

/-- The driver behind the frame at a place. -/
def Worker.pass (ring : ℕ → UInt8) (offset : ℕ) (worker : Worker) : Worker :=
  { worker with
    driver := { worker.driver with receiveOffset := nextOffset ring offset }
    log :=
      { worker.log with
        lengths := worker.log.lengths ++ [readWrappedU16 ring (offset + 2)]
        arrived := worker.log.arrived ++ (frameAt ring offset).toList } }

def Worker.deliver (frame : Bytes) (worker : Worker) : Worker :=
  { worker with
    log := { worker.log with delivered := worker.log.delivered ++ [frame] } }

def acknowledge (offset : ℕ) : Effect Worker Unit PUnit := do
  driverWrite capr 2 (readPointer offset)
  driverWrite isr 2 0xFFFF

/-- Take the frame at the current place out of the ring.  A refused write
makes it an empty frame. -/
def receiveFrame (ring : ℕ → UInt8) (offset : ℕ) : Effect Worker Unit Bytes := do
  Effect.modify (Worker.pass ring offset)
  let accepted ← (acknowledge (nextOffset ring offset)).attempt
  match accepted, frameAt ring offset with
  | none, _ => pure []
  | some _, none => Effect.fail ()
  | some _, some frame => do
      Effect.modify (Worker.deliver frame)
      pure frame

/-- What the kernel answers for other devices: an error, no frame or one. -/
def receiveFromKernel : Option Bytes → Effect Worker Unit Bytes
  | none => pure []
  | some frame =>
    if frame = [] ∨ maxFrameSize < frame.length then Effect.fail ()
    else pure frame

/-- An error stands for `None`, the empty frame for `Some(0)`. -/
def receive (ports : Ports) (kernelFrame : Option Bytes)
    (ring : ℕ → UInt8) : Effect Worker Unit Bytes := do
  let worker ← Effect.get
  if worker.driver.initialized = false then pure []
  else if worker.driver.backend ≠ 1 then receiveFromKernel kernelFrame
  else do
    let status ← driverRead ports Portal.command 1
    if status &&& commandRxBufferEmpty ≠ 0 then Effect.fail ()
    else receiveFrame ring worker.driver.receiveOffset

/-! ## Runs -/

inductive DriverCall where
  | configuration (physical : Option ℕ) (reply : ConfigurationReply)
  | send (kernelSends : Bool) (frame : Bytes)
  | receive (kernelFrame : Option Bytes) (ring : ℕ → UInt8)

def Worker.step (network : NetworkStack) (ports : Ports) (worker : Worker) : DriverCall → Worker
  | .configuration physical reply =>
    ((RingDriver.configuration network ports physical reply).run worker).2
  | .send kernelSends frame =>
    ((RingDriver.send ports kernelSends frame).run worker).2
  | .receive kernelFrame ring =>
    ((RingDriver.receive ports kernelFrame ring).run worker).2

def Worker.run (network : NetworkStack) (ports : Ports) (worker : Worker)
    (calls : List DriverCall) : Worker :=
  calls.foldl (Worker.step network ports) worker

/-! ## Writes that the portal admits -/

/-- The portal admits the write in every session. -/
def Admitted (register width value : ℕ) : Prop :=
  ∀ portal, driverWriteValue portal register width value ≠ none

/-- The octets that a frame takes in the ring, with the header before it and up
to the next word. -/
def occupied (deviceLength : ℕ) : ℕ :=
  if 4 ≤ deviceLength ∧ deviceLength ≤ maxFrameSize + 4 then (deviceLength + 4 + 3) / 4 * 4 else 4

/-- The place behind frames that fill the ring from its start. -/
def placeBehind (lengths : List ℕ) : ℕ := (lengths.map occupied).sum % rxRingSize

/-- A place in the ring whose read pointer the portal admits. -/
def Acceptable (offset : ℕ) : Prop := offset ≠ 4 ∧ offset ≠ 8 ∧ offset ≠ 12

/-- No frame ends before the second, third or fourth word of the ring. -/
def Regular (lengths : List ℕ) : Prop := ∀ taken, taken <+: lengths → Acceptable (placeBehind taken)

def Log.Regular (log : Log) : Prop :=
  ∀ lengths ∈ log.lengths :: log.earlier, RingDriver.Regular lengths

/-- The driver was only started with an active portal, it is behind the frames
it has taken, and its counter of buffers is in range. -/
structure Ready (worker : Worker) : Prop where
  active : worker.driver.initialized = true → worker.driver.backend = 1 →
    worker.machine.portal.active = true
  offset_eq : worker.driver.receiveOffset = placeBehind worker.log.lengths
  index_lt : worker.driver.transmitIndex < txBufferCount

/-- Up to a start the logs are the same. -/
structure Log.Same (log log' : Log) : Prop where
  refused : log'.refused = log.refused
  arrived : log'.arrived = log.arrived
  delivered : log'.delivered = log.delivered
  regular : log'.Regular ↔ log.Regular

/-- The driver has done nothing else so far. -/
def Held (log : Log) (worker : Worker) : Prop :=
  Ready worker ∧ log.Same worker.log

/-- The same during a session. -/
def Open (log : Log) (worker : Worker) : Prop :=
  Held log worker ∧ worker.machine.portal.active = true

variable {log : Log} {machine : Portal.Machine} {register width value : ℕ}

theorem serviceDriverWrite_admitted (hactive : machine.portal.active = true)
    (h : Admitted register width value) :
    ∃ machine', machine.serviceDriverWrite register width value =
        (.ok (), machine') ∧ machine'.portal = machine.portal := by
  have hvalue := h machine.portal
  rw [Portal.Machine.serviceDriverWrite, if_neg (by rw [hactive]; decide)]
  rw [driverWriteValue] at hvalue
  cases hdecode : decode register width with
  | none =>
    rw [hdecode] at hvalue
    exact absurd rfl hvalue
  | some decoded =>
    rw [hdecode] at hvalue
    cases hwritten : decoded.value machine.portal value with
    | none => exact absurd hwritten hvalue
    | some written =>
      simp only [hwritten]
      exact ⟨_, rfl, rfl⟩

theorem serviceDriverWrite_refused (hactive : machine.portal.active = true)
    (h : driverWriteValue machine.portal register width value = none) :
    machine.serviceDriverWrite register width value = (.error .endpointDenied, machine) := by
  rw [Portal.Machine.serviceDriverWrite, if_neg (by rw [hactive]; decide)]
  rw [driverWriteValue] at h
  cases hdecode : decode register width with
  | none => rfl
  | some decoded =>
    rw [hdecode] at h
    simp only [show decoded.value machine.portal value = none from h]

variable {worker : Worker}

theorem Held.of_eq {worker' : Worker} (h : Held log worker)
    (hportal : worker'.machine.portal = worker.machine.portal)
    (hdriver : worker'.driver = worker.driver)
    (hlog : worker'.log = worker.log) : Held log worker' := by
  obtain ⟨⟨hactive, hoffset, hindex⟩, hsame⟩ := h
  refine ⟨⟨?_, ?_, ?_⟩, hlog ▸ hsame⟩
  · rw [hdriver, hportal]
    exact hactive
  · rw [hdriver, hlog]
    exact hoffset
  · rw [hdriver]
    exact hindex

theorem driverWrite_run (h : worker.machine.serviceDriverWrite register width value =
      (.ok (), machine)) : (driverWrite register width value).run worker =
      (.done ⟨⟩, { worker with machine }) := by
  simp only [driverWrite, h]

variable {failed : Unit → Worker → Prop}

theorem driverWrite_open (h : Admitted register width value) :
    Ensures (Open log) (driverWrite register width value)
      (fun _ => Open log) failed fun _ => False := by
  rintro worker ⟨hheld, hactive⟩
  obtain ⟨machine, hrun, hportal⟩ := serviceDriverWrite_admitted hactive h
  rw [driverWrite_run hrun]
  exact ⟨hheld.of_eq hportal rfl rfl, hportal ▸ hactive⟩

variable (ports : Ports)

theorem driverRead_cases (register width : ℕ) (worker : Worker) :
    (∃ value, (driverRead ports register width).run worker =
      (.done value, { worker with reads := worker.reads + 1 })) ∨
    (driverRead ports register width).run worker = (.fail (), worker) := by
  simp only [driverRead]
  cases worker.machine.serviceDriverRead register width (ports worker.reads) with
  | ok value => exact .inl ⟨value, rfl⟩
  | error e => exact .inr rfl

theorem driverRead_open (register width : ℕ) :
    Maintains (Open log) (driverRead ports register width) := by
  intro worker h
  rcases driverRead_cases ports register width worker with
    ⟨value, hrun⟩ | hrun
  · rw [hrun]
    exact ⟨h.1.of_eq rfl rfl rfl, h.2⟩
  · rw [hrun]
    exact h

theorem await_open (register width : ℕ) (condition : ℕ → Bool) (polls : ℕ) :
    Maintains (Open log) (await ports register width condition polls) := by
  induction polls with
  | zero => exact ensures_fail fun _ h => h
  | succ polls ih =>
    refine (driverRead_open ports register width).bind fun value => ?_
    split
    · exact ensures_pure fun _ h => h
    · exact ih

theorem awaitAvailable_open (register polls : ℕ) :
    Maintains (Open log) (awaitAvailable ports register polls) := by
  induction polls with
  | zero => exact ensures_fail fun _ h => h
  | succ polls ih =>
    refine (driverRead_open ports register 4).attempt.bind fun status => ?_
    split
    · exact ensures_pure fun _ h => h
    · exact ih

theorem readAddress_open (indices : List ℕ) :
    Maintains (Open log) (readAddress ports indices) := by
  induction indices with
  | nil => exact ensures_pure fun _ h => h
  | cons index indices ih =>
    refine (driverRead_open ports _ 1).bind fun octet => ?_
    exact ih.bind fun octets => ensures_pure fun _ h => h

variable {index : ℕ}

theorem admitted_tsad (h : index < txBufferCount) : Admitted (tsad0 + index * 4) 4 0 := by
  intro portal
  have hdecode : ∀ i : Fin txBufferCount, decode (tsad0 + i * 4) 4 = some (.tsad i) := by
    decide
  rw [driverWriteValue, hdecode ⟨index, h⟩]
  exact some_ne_none _

/-- A frame of any length that the driver sends. -/
theorem admitted_tsd {length : ℕ} (hindex : index < txBufferCount)
    (hlow : 60 ≤ length) (hhigh : length ≤ maxFrameSize) :
    Admitted (tsd0 + index * 4) 4 (32 <<< 16 ||| length) := by
  intro portal
  have hdecode : ∀ i : Fin txBufferCount, decode (tsd0 + i * 4) 4 = some (.tsd i) := by
    decide
  have hbits : ∀ l ≤ maxFrameSize, (32 <<< 16 ||| l) &&& 0xFFFF0000 = 32 <<< 16 ∧
        (32 <<< 16 ||| l) &&& 0x1FFF = l := by
    decide +kernel
  obtain ⟨hthreshold, hlength⟩ := hbits length hhigh
  rw [driverWriteValue, hdecode ⟨index, hindex⟩, bind_some,
    Register.value, hthreshold, hlength, if_pos ⟨rfl, hlow, hhigh⟩]
  exact some_ne_none _

/-- The writes of the configuration with fixed values. -/
def fixedWrites : List (ℕ × ℕ × ℕ) :=
  [(config1, 1, 0), (Portal.command, 1, commandReset), (rbstart, 4, 0),
    (imr, 2, 0), (isr, 2, 0xFFFF), (tcr, 4, 0x03000000), (rcr, 4, ringConfiguration),
    (Portal.command, 1, commandRxEnable ||| commandTxEnable), (capr, 2, 0xFFF0)]

theorem admitted_fixed (h : (register, width, value) ∈ fixedWrites) :
    Admitted register width value := by
  intro portal
  simp only [fixedWrites, mem_cons, not_mem_nil, or_false] at h
  rcases h with h | h | h | h | h | h | h | h | h
  all_goals
    obtain ⟨rfl, rfl, rfl⟩ := h
    exact some_ne_none _

theorem programRegisters_open : Ensures (Open log) programRegisters (fun _ => Open log) failed
      fun _ => False := by
  have hloop : Ensures (Open log) ((List.range txBufferCount).forM fun index =>
        driverWrite (tsad0 + index * 4) 4 0)
      (fun _ => Open log) failed fun _ => False := by
    refine ensures_forM (fun _ => Open log) _ ?_
    intro index rest hsuffix
    apply driverWrite_open
    apply admitted_tsad
    exact mem_range.mp (hsuffix.subset mem_cons_self)
  refine (driverWrite_open (admitted_fixed (by decide))).bind fun _ => ?_
  refine hloop.bind fun _ => ?_
  iterate 5 refine (driverWrite_open (admitted_fixed (by decide))).bind fun _ => ?_
  exact driverWrite_open (admitted_fixed (by decide))

/-! ## Calls -/

variable (network : NetworkStack)

theorem acquire_held (physical : Option ℕ) :
    Returns (Held log) (acquire network physical) (fun _ => Open log) (Held log) := by
  intro worker hheld
  cases physical with
  | none => exact hheld
  | some physical =>
    rcases worker.machine.serviceDriverAcquire_cases network physical
        dmaBytes rxBufferSize maxFrameSize txBufferCount with
      ⟨e, hrun⟩ | ⟨machine, hrun, hactive⟩
    · simp only [acquire, hrun]
      exact hheld
    · simp only [acquire, hrun]
      obtain ⟨⟨-, hoffset, hindex⟩, hsame⟩ := hheld
      exact ⟨⟨⟨fun _ _ => hactive, hoffset, hindex⟩, hsame⟩, hactive⟩

theorem Open.held (h : Open log worker) : Held log worker :=
  h.1

theorem regular_nil : Regular [] := by
  rintro taken htaken
  rw [prefix_nil.mp htaken]
  exact (by decide : 0 ≠ 4 ∧ 0 ≠ 8 ∧ 0 ≠ 12)

theorem Log.Same.restart (h : log.Same worker.log) : log.Same worker.log.restart := by
  refine ⟨h.refused, h.arrived, h.delivered, ?_⟩
  rw [← h.regular, Log.Regular, Log.Regular, Log.restart, forall_mem_cons]
  exact and_iff_right regular_nil

theorem held_start {backend : ℕ} (hsame : log.Same worker.log)
    (h : backend = 1 → worker.machine.portal.active = true) : Held log
      { worker with
        driver :=
          { initialized := true
            backend
            receiveOffset := 0
            transmitIndex := 0 }
        log := worker.log.restart } where
  left :=
    { active := fun _ => h
      offset_eq := rfl
      index_lt := (by decide : 0 < txBufferCount) }
  right := hsame.restart

theorem modify_open {f : Worker → Worker} (h : ∀ worker, Open log worker → Open log (f worker)) :
    Ensures (Open log) (Effect.modify f) (fun _ => Open log) failed fun _ => False :=
  ensures_modify h

/-- A part of a session, as a part of a call. -/
theorem ensures_held {α : Type} {x : Effect Worker Unit α}
    (h : Maintains (Open log) x) :
    Returns (Open log) x (fun _ => Open log) (Held log) :=
  h.mono (fun _ => id) (fun _ _ => id) (fun _ _ => Open.held) fun _ => id

theorem configureRing_held (ports : Ports)
    (physical : Option ℕ) (backend : ℕ) :
    Maintains (Held log) (configureRing network ports physical backend) := by
  refine (acquire_held network physical).bind fun _ => ?_
  refine (driverWrite_open (admitted_fixed (by decide))).bind fun _ => ?_
  refine (driverWrite_open (admitted_fixed (by decide))).bind fun _ => ?_
  refine (ensures_held (await_open ports _ 1 _ _)).bind fun _ => ?_
  refine (ensures_held (readAddress_open ports _)).bind fun mac => ?_
  refine (modify_open fun worker h => ?_).bind fun _ => ?_
  · exact ⟨h.held.of_eq rfl rfl rfl, h.2⟩
  refine programRegisters_open.bind fun _ => ?_
  refine (modify_open fun worker h => ?_).bind fun _ => ?_
  · exact ⟨held_start h.held.2 fun _ => h.2, h.2⟩
  refine (ensures_held (driverRead_open ports _ 1)).bind fun media => ?_
  split
  · exact ensures_fail fun _ => Open.held
  · exact ensures_pure fun _ => Open.held

theorem configuration_held (ports : Ports)
    (physical : Option ℕ) (reply : ConfigurationReply) :
    Maintains (Held log) (configuration network ports physical reply) := by
  rw [configuration]
  split
  · exact ensures_fail fun _ h => h
  split
  · exact ensures_fail fun _ h => h
  split
  · rename_i hbackend
    rintro worker ⟨-, hsame⟩
    exact held_start hsame fun h => absurd h hbackend
  · exact configureRing_held network ports physical _

theorem sendFrame_held {frame : Bytes}
    (hframe : frame.length ≤ maxFrameSize) (hindex : index < txBufferCount) :
    Returns (Open log) (sendFrame ports frame index) (fun _ => Held log) (Held log) := by
  refine (ensures_held (awaitAvailable_open ports _ _)).bind fun _ => ?_
  refine (modify_open fun worker h => ?_).bind fun _ => ?_
  · exact ⟨h.held.of_eq rfl rfl rfl, h.2⟩
  have hlength : max frame.length 60 ≤ maxFrameSize := max_le hframe (by decide)
  refine (driverWrite_open (admitted_tsd hindex (le_max_right _ _) hlength)).bind fun _ => ?_
  refine (ensures_held (await_open ports _ 4 _ _)).bind fun status => ?_
  split
  · apply ensures_modify
    rintro worker ⟨⟨⟨hactive, hoffset, -⟩, hsame⟩, -⟩
    exact ⟨⟨hactive, hoffset, Nat.mod_lt _ (by decide)⟩, hsame⟩
  · exact ensures_fail fun _ => Open.held

theorem send_held (kernelSends : Bool) (frame : Bytes) :
    Maintains (Held log) (send ports kernelSends frame) := by
  apply ensures_get_bind
  intro worker
  split
  · exact ensures_fail fun _ h => h.2
  rename_i hready
  rw [not_or, Bool.not_eq_false, Nat.not_lt] at hready
  split
  · split
    · exact ensures_pure fun _ h => h.2
    · exact ensures_fail fun _ h => h.2
  · rename_i hbackend
    rw [not_not] at hbackend
    rintro _ ⟨rfl, hheld⟩
    exact sendFrame_held ports hready.2 hheld.1.index_lt _ ⟨hheld, hheld.1.active hready.1 hbackend⟩

/-! ## Frames -/

theorem nextOffset_lt (ring : ℕ → UInt8) (offset : ℕ) : nextOffset ring offset < rxRingSize := by
  exact Nat.mod_lt _ (by decide)

theorem nextOffset_mod (ring : ℕ → UInt8) (offset : ℕ) : nextOffset ring offset % 4 = 0 := by
  rw [nextOffset, rxRingSize]
  omega

/-- Behind the frames taken so far the driver goes on behind the next one. -/
theorem nextOffset_placeBehind (ring : ℕ → UInt8) (lengths : List ℕ) :
    nextOffset ring (placeBehind lengths) =
      placeBehind (lengths ++ [readWrappedU16 ring (placeBehind lengths + 2)]) := by
  have hdvd : 4 ∣ (lengths.map occupied).sum := by
    induction lengths with
    | nil => exact dvd_zero 4
    | cons deviceLength lengths ih =>
        rw [map_cons, sum_cons, occupied]
        split <;> omega
  rw [nextOffset]
  generalize readWrappedU16 ring (placeBehind lengths + 2) = deviceLength
  rw [placeBehind, placeBehind, map_append, sum_append, map_singleton, sum_singleton, occupied,
    rxRingSize]
  split <;> omega

/-- One frame more adds one place. -/
theorem regular_concat (lengths : List ℕ) (deviceLength : ℕ) :
    Regular (lengths ++ [deviceLength]) ↔
      Regular lengths ∧ Acceptable (placeBehind (lengths ++ [deviceLength])) := by
  simp only [Regular, prefix_concat_iff, forall_eq_or_imp]
  exact and_comm

/-- The rule for the read pointer. -/
theorem readPointer_admitted (hlt : offset < rxRingSize) (hmod : offset % 4 = 0) :
    readPointer offset = 0xFFF0 ∨ readPointer offset < rxRingSize ↔ Acceptable offset := by
  rw [readPointer, Acceptable]
  rw [rxRingSize] at hlt ⊢
  omega

theorem capr_value (portal : DriverPortal) (value : ℕ) : driverWriteValue portal capr 2 value =
      if value = 0xFFF0 ∨ value < rxRingSize then some value else none :=
  rfl

variable {worker : Worker} {ring : ℕ → UInt8} {offset : ℕ}

section

variable (hactive : worker.machine.portal.active = true)
include hactive

/-- A place that the portal admits is acknowledged. -/
theorem acknowledge_accepted
    (hlt : offset < rxRingSize) (hmod : offset % 4 = 0) (h : Acceptable offset) :
    ∃ machine, machine.portal = worker.machine.portal ∧ (acknowledge offset).run worker =
        (.done ⟨⟩, { worker with machine }) := by
  have hpointer : Admitted capr 2 (readPointer offset) := by
    intro portal
    rw [capr_value, if_pos ((readPointer_admitted hlt hmod).mpr h)]
    exact some_ne_none _
  have hstatus : Admitted isr 2 0xFFFF := admitted_fixed (by decide)
  obtain ⟨first, hfirst, hportal⟩ := serviceDriverWrite_admitted hactive hpointer
  rw [← hportal] at hactive
  obtain ⟨second, hsecond, hportal'⟩ := serviceDriverWrite_admitted hactive hstatus
  refine ⟨second, hportal'.trans hportal, ?_⟩
  rw [acknowledge, run_bind_of_done (driverWrite_run hfirst)]
  exact driverWrite_run hsecond

/-- At any other place the portal refuses the read pointer. -/
theorem acknowledge_refused
    (hlt : offset < rxRingSize) (hmod : offset % 4 = 0) (h : ¬Acceptable offset) :
    (acknowledge offset).run worker = (.fail (),
        { worker with
          log :=
            { worker.log with
              refused :=
                worker.log.refused ++ [(capr, 2, readPointer offset)] } }) := by
  have hvalue : driverWriteValue worker.machine.portal capr 2 (readPointer offset) = none := by
    rw [capr_value, if_neg fun hpointer => h ((readPointer_admitted hlt hmod).mp hpointer)]
  apply run_bind_of_fail
  simp only [driverWrite, serviceDriverWrite_refused hactive hvalue]

/-- A frame at a place from which the driver may go on is returned. -/
theorem receiveFrame_accepted
    (h : Acceptable (nextOffset ring offset)) : ∃ machine, machine.portal = worker.machine.portal ∧
      ((receiveFrame ring offset).run worker).2 =
        { worker.pass ring offset with
          machine
          log :=
            { (worker.pass ring offset).log with
              delivered :=
                worker.log.delivered ++ (frameAt ring offset).toList } } := by
  have hpassed : (worker.pass ring offset).machine.portal.active = true := hactive
  obtain ⟨machine, hportal, hrun⟩ := acknowledge_accepted hpassed
    (nextOffset_lt ring offset) (nextOffset_mod ring offset) h
  refine ⟨machine, hportal, ?_⟩
  rw [receiveFrame, run_bind_of_done (run_modify _ _), run_bind_of_done (by rw [run_attempt, hrun])]
  cases frameAt ring offset with
  | none =>
    rw [toList_none, append_nil]
    rfl
  | some frame => rfl

/-- At any other place it is lost. -/
theorem receiveFrame_refused
    (h : ¬Acceptable (nextOffset ring offset)) : ((receiveFrame ring offset).run worker).2 =
      { worker.pass ring offset with
        log :=
          { (worker.pass ring offset).log with
            refused :=
              worker.log.refused ++ [(capr, 2, readPointer (nextOffset ring offset))] } } := by
  have hpassed : (worker.pass ring offset).machine.portal.active = true := hactive
  have hrun := acknowledge_refused hpassed (nextOffset_lt ring offset)
    (nextOffset_mod ring offset) h
  rw [receiveFrame, run_bind_of_done (run_modify _ _), run_bind_of_done (by rw [run_attempt, hrun])]
  rfl

end

/-! ## Agreement -/

/-- Every write was admitted and every valid frame returned. -/
def Log.Agreed (log : Log) : Prop :=
  log.refused = [] ∧ log.delivered = log.arrived

/-- The lengths of the frames decide whether it did. -/
structure Log.Balanced (log : Log) : Prop where
  agreed : log.Regular → log.Agreed
  regular : log.refused = [] → log.Regular

/-- What every call of the driver keeps. -/
def Balanced (worker : Worker) : Prop :=
  Ready worker ∧ worker.log.Balanced

theorem Ready.pass (h : Ready worker) (hportal : machine.portal = worker.machine.portal)
    (hoffset : offset = worker.driver.receiveOffset)
    (hlengths : log.lengths = (worker.pass ring offset).log.lengths) :
    Ready { worker.pass ring offset with machine, log } where
  active := by
    intro hinitialized hbackend
    exact (congrArg DriverPortal.active hportal).trans (h.active hinitialized hbackend)
  offset_eq := by
    rw [hlengths, hoffset, h.offset_eq]
    exact nextOffset_placeBehind ring worker.log.lengths
  index_lt := h.index_lt

theorem receiveFrame_balanced (h : Balanced worker)
    (hactive : worker.machine.portal.active = true) :
    Balanced ((receiveFrame ring worker.driver.receiveOffset).run worker).2 := by
  obtain ⟨hready, hagreed, hregular⟩ := h
  have hpassed : (worker.pass ring worker.driver.receiveOffset).log.Regular ↔
      worker.log.Regular ∧ Acceptable (nextOffset ring worker.driver.receiveOffset) := by
    rw [hready.offset_eq, nextOffset_placeBehind, Log.Regular, Log.Regular, forall_mem_cons,
      forall_mem_cons]
    exact (and_congr_left' (regular_concat _ _)).trans and_right_comm
  by_cases hnext : Acceptable (nextOffset ring worker.driver.receiveOffset)
  · obtain ⟨machine, hportal, hrun⟩ := receiveFrame_accepted hactive hnext
    rw [hrun]
    refine ⟨hready.pass hportal rfl rfl, ?_, ?_⟩
    · intro hall
      obtain ⟨hrefused, hdelivered⟩ := hagreed (hpassed.mp hall).1
      exact ⟨hrefused, congrArg (· ++ _) hdelivered⟩
    · intro hrefused
      exact hpassed.mpr ⟨hregular hrefused, hnext⟩
  · rw [receiveFrame_refused hactive hnext]
    refine ⟨hready.pass rfl rfl rfl, ?_, ?_⟩
    · intro hall
      exact absurd (hpassed.mp hall).2 hnext
    · intro hrefused
      exact absurd hrefused (append_ne_nil_of_right_ne_nil _ (cons_ne_nil _ _))

theorem Log.Same.balanced {log' : Log} (h : log.Same log') (hbalanced : log.Balanced) :
    log'.Balanced where
  agreed := by
    intro hregular
    obtain ⟨hrefused, hdelivered⟩ := hbalanced.agreed (h.regular.mp hregular)
    exact ⟨h.refused.trans hrefused, by rw [h.delivered, h.arrived, hdelivered]⟩
  regular := by
    intro hrefused
    exact h.regular.mpr (hbalanced.regular (h.refused.symm.trans hrefused))

theorem balanced_of_held {α : Type} {x : Effect Worker Unit α}
    (h : ∀ log, Maintains (Held log) x) : Keeps Balanced x := by
  rintro worker ⟨hready, hbalanced⟩
  have hrun := h worker.log worker ⟨hready, rfl, rfl, rfl, Iff.rfl⟩
  rcases hx : x.run worker with ⟨a | e | _, t⟩
  · rw [hx] at hrun
    exact ⟨hrun.1, hrun.2.balanced hbalanced⟩
  · rw [hx] at hrun
    exact ⟨hrun.1, hrun.2.balanced hbalanced⟩
  · rw [hx] at hrun
    exact hrun.elim

theorem receive_balanced (kernelFrame : Option Bytes)
    (ring : ℕ → UInt8) : Keeps Balanced (receive ports kernelFrame ring) := by
  intro worker h
  rw [receive, run_bind]
  dsimp only [Effect.get]
  split
  · exact h
  split
  · cases kernelFrame with
    | none => exact h
    | some frame =>
      rw [receiveFromKernel]
      split
      · exact h
      · exact h
  · rename_i hinitialized hbackend
    have hactive := h.1.active (Bool.not_eq_false _ ▸ hinitialized) (not_not.mp hbackend)
    rcases driverRead_cases ports Portal.command 1 worker with
      ⟨status, hread⟩ | hread
    · rw [run_bind, hread]
      dsimp only
      have hbalanced : Balanced { worker with reads := worker.reads + 1 } :=
        ⟨{ h.1 with }, h.2⟩
      split
      · exact hbalanced
      · exact receiveFrame_balanced hbalanced hactive
    · rw [run_bind, hread]
      exact h

theorem step_balanced (ports : Ports)
    (h : Balanced worker) (call : DriverCall) : Balanced (worker.step network ports call) := by
  cases call with
  | configuration physical reply =>
    exact balanced_of_held (fun _ => configuration_held network ports physical reply) worker h
  | send kernelSends frame =>
    exact balanced_of_held (fun _ => send_held ports kernelSends frame) worker h
  | receive kernelFrame ring =>
    exact receive_balanced ports kernelFrame ring worker h

theorem run_balanced (ports : Ports)
    (h : Balanced worker) (calls : List DriverCall) :
    Balanced (worker.run network ports calls) := by
  induction calls generalizing worker with
  | nil => exact h
  | cons call calls ih => exact ih (step_balanced network ports h call)

theorem balanced_loaded (machine : Portal.Machine) : Balanced (.loaded machine) where
  left :=
    { active := fun h => Bool.noConfusion h
      offset_eq := rfl
      index_lt := (by decide : 0 < txBufferCount) }
  right :=
    { agreed := fun _ => ⟨rfl, rfl⟩
      regular := fun _ => forall_mem_singleton.mpr regular_nil }

/-- The driver and the portal agree in exactly those runs in which, since each
start, the frames in the ring never end before its second, third or fourth
word. -/
theorem driver_agrees_iff (network : NetworkStack) (ports : Ports)
    (machine : Portal.Machine) (calls : List DriverCall) :
    ((Worker.loaded machine).run network ports calls).log.Agreed ↔
      ((Worker.loaded machine).run network ports calls).log.Regular := by
  have h := run_balanced network ports (balanced_loaded machine) calls
  constructor
  · intro hagreed
    exact h.2.regular hagreed.1
  · exact h.2.agreed

/-! ### A ring that is filled once -/

/-- A valid frame with a length at every place where the driver looks. -/
def filledRing (offset length : ℕ) (place : ℕ) : UInt8 :=
  if place = offset % rxRingSize then 1
  else if place = (offset + 2) % rxRingSize then UInt8.ofNat (length % 256)
  else if place = (offset + 3) % rxRingSize then UInt8.ofNat (length / 256)
  else 0

/-- Five frames of full length and a shorter one, which ends one word behind
the start of the ring. -/
def sixFrames : List DriverCall :=
  [.configuration (some 0x100000)
      { ready := true, mac := [2, 0, 0, 0, 0, 1], backend := 1 },
    .receive none (filledRing 0 1518), .receive none (filledRing 1524 1518),
    .receive none (filledRing 3048 1518), .receive none (filledRing 4572 1518),
    .receive none (filledRing 6096 1518), .receive none (filledRing 7620 572)]

theorem sixFrames_disagree :
    ¬((Worker.loaded (.discovered 0 .reset)).run Portal.Machine.exampleNetwork
      (fun _ _ => 0) sixFrames).log.Agreed := by
  intro h
  have hrefused : ((Worker.loaded (.discovered 0 .reset)).run Portal.Machine.exampleNetwork
      (fun _ _ => 0) sixFrames).log.refused = [(capr, 2, 0xFFF4)] := by
    decide +kernel
  exact cons_ne_nil _ _ h.1

end RingDriver

end ExpOS
