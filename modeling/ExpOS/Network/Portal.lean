import Mathlib.Data.Nat.Bitwise

/-!
# The register portal of the network driver

The driver of the RTL8139 runs outside the kernel.  During a session it has a
lease of memory for transfers and may write the registers that the portal has
a rule for; where a register takes an address the portal puts in an address of
the lease.  The device itself knows nothing of sessions: it keeps its address
registers until they are written or it is reset.
-/

namespace ExpOS

namespace Portal

def rxRingSize : ℕ := 8 * 1024
def maxFrameSize : ℕ := 1536
def rxBufferSize : ℕ := rxRingSize + 16 + maxFrameSize
def txBufferCount : ℕ := 4

def idr0 : ℕ := 0x00
def tsd0 : ℕ := 0x10
def tsad0 : ℕ := 0x20
def rbstart : ℕ := 0x30
def command : ℕ := 0x37
def capr : ℕ := 0x38
def imr : ℕ := 0x3C
def isr : ℕ := 0x3E
def tcr : ℕ := 0x40
def rcr : ℕ := 0x44
def config1 : ℕ := 0x52
def mediaStatus : ℕ := 0x58

def commandTxEnable : ℕ := 1 <<< 2
def commandRxEnable : ℕ := 1 <<< 3
def commandReset : ℕ := 1 <<< 4

/-- An 8 KiB ring in which the device wraps around. -/
def ringConfiguration : ℕ := 7 <<< 13 ||| 7 <<< 8 ||| 1 <<< 3 ||| 1 <<< 1

/-! ## Rules for registers -/

/-- The registers that the portal has a rule for. -/
inductive Register where
  | config1
  | command
  | rbstart
  | tsad (index : Fin txBufferCount)
  | imr
  | isr
  | tcr
  | rcr
  | capr
  | tsd (index : Fin txBufferCount)
deriving DecidableEq

/-- The number of a register in the group of four that starts at a place. -/
def groupIndex (first register : ℕ) : Option (Fin txBufferCount) :=
  if register < first ∨ (register - first) % 4 ≠ 0 then none
  else if h : (register - first) / 4 < txBufferCount then some ⟨_, h⟩
  else none

/-- The register at a place, if it is accessed with its own width. -/
def decode (register width : ℕ) : Option Register :=
  if register = Portal.config1 ∧ width = 1 then some .config1
  else if register = Portal.command ∧ width = 1 then some .command
  else if register = Portal.rbstart ∧ width = 4 then some .rbstart
  else if register = Portal.imr ∧ width = 2 then some .imr
  else if register = Portal.isr ∧ width = 2 then some .isr
  else if register = Portal.tcr ∧ width = 4 then some .tcr
  else if register = Portal.rcr ∧ width = 4 then some .rcr
  else if register = Portal.capr ∧ width = 2 then some .capr
  else if width = 4 then
    ((groupIndex tsad0 register).map .tsad).or
      ((groupIndex tsd0 register).map .tsd)
  else none

structure DriverPortal where
  active : Bool
  receivePhysical : ℕ
  transmitPhysical : Fin txBufferCount → ℕ

def DriverPortal.empty : DriverPortal where
  active := false
  receivePhysical := 0
  transmitPhysical := fun _ => 0

/-- The value that is written in place of the one requested, unless the write
is refused. -/
def Register.value (portal : DriverPortal) (requested : ℕ) : Register → Option ℕ
  | .config1 => if requested = 0 then some 0 else none
  | .command =>
    if requested % 2 ^ 8 ∈ [0, commandReset, commandRxEnable,
        commandTxEnable, commandRxEnable ||| commandTxEnable] then
      some requested
    else none
  | .rbstart =>
    if requested = 0 then some portal.receivePhysical else none
  | .tsad index =>
    if requested = 0 then some (portal.transmitPhysical index) else none
  | .imr => if requested = 0 then some 0 else none
  | .isr => if requested = 0xFFFF then some 0xFFFF else none
  | .tcr => if requested = 0x03000000 then some requested else none
  | .rcr => if requested = ringConfiguration then some requested else none
  | .capr =>
    if requested = 0xFFF0 ∨ requested < rxRingSize then some requested
    else none
  | .tsd _ =>
    if requested &&& 0xFFFF0000 = 32 <<< 16 ∧
        60 ≤ requested &&& 0x1FFF ∧ requested &&& 0x1FFF ≤ maxFrameSize then
      some requested
    else none

def driverWriteValue (portal : DriverPortal) (register width requested : ℕ) : Option ℕ :=
  (decode register width).bind (·.value portal requested)

/-! ## The device -/

/-- The registers of the device that its transfers depend on. -/
structure Rtl8139 where
  receiveAddress : ℕ
  transmitAddress : Fin txBufferCount → ℕ
  receiveConfiguration : ℕ
  receiverEnabled : Bool
  transmitterEnabled : Bool

namespace Rtl8139

def reset : Rtl8139 where
  receiveAddress := 0
  transmitAddress := fun _ => 0
  receiveConfiguration := 0
  receiverEnabled := false
  transmitterEnabled := false

/-- A port write of a value that the portal has let through. -/
def write (device : Rtl8139) (value : ℕ) : Register → Rtl8139
  | .command =>
    if value &&& commandReset ≠ 0 then reset
    else
      { device with
        receiverEnabled := value &&& commandRxEnable != 0
        transmitterEnabled := value &&& commandTxEnable != 0 }
  | .rbstart => { device with receiveAddress := value }
  | .tsad index =>
    { device with
      transmitAddress :=
        Function.update device.transmitAddress index value }
  | .rcr => { device with receiveConfiguration := value }
  | _ => device

/-- The octets of memory from the receive address on that the receiver may
write: a ring of a configured size, and room for a frame where it does not
wrap around. -/
def receiveExtent (device : Rtl8139) : ℕ :=
  rxRingSize <<< ((device.receiveConfiguration >>> 11) &&& 3) + 16 +
    if device.receiveConfiguration &&& 0x80 = 0 then 0 else maxFrameSize

/-- The receiver is off, and the ring it is configured for fits into a lease. -/
def Idle (device : Rtl8139) : Prop :=
  device.receiverEnabled = false ∧ device.receiveExtent ≤ rxBufferSize

end Rtl8139

/-! ## Sessions -/

inductive Backend where
  | unavailable
  | rtl8139
  | e1000
  | virtio
deriving DecidableEq

structure NetworkStack where
  initialized : Bool
  backend : Backend
  ioBase : ℕ

inductive NetworkError where
  | endpointDenied
  | noDevice
  | transmitFailed
  | packetTooLarge

/-- What the current session was leased and which address registers were
written in it since the last reset. -/
structure Session where
  start : ℕ
  size : ℕ
  receiveWritten : Bool
  transmitWritten : Fin txBufferCount → Bool

def Session.opened (start size : ℕ) : Session where
  start
  size
  receiveWritten := false
  transmitWritten := fun _ => false

/-- The octets from an address on are inside of the lease. -/
def Session.Contains (session : Session) (address length : ℕ) : Prop :=
  session.start ≤ address ∧ address + length ≤ session.start + session.size

/-- The effect of an accepted write. -/
def Session.note (session : Session) (value : ℕ) : Register → Session
  | .command =>
    if value &&& commandReset ≠ 0 then
      .opened session.start session.size
    else session
  | .rbstart => { session with receiveWritten := true }
  | .tsad index =>
    { session with
      transmitWritten :=
        Function.update session.transmitWritten index true }
  | _ => session

/-- The portal, the command register of the PCI function, the device and the
session, which no code reads. -/
structure Machine where
  portal : DriverPortal
  pciCommand : ℕ
  device : Rtl8139
  session : Session

namespace Machine

/-- After discovery, which leaves bus mastering off and the device as it was. -/
def discovered (pciCommand : ℕ) (device : Rtl8139) : Machine where
  portal := .empty
  pciCommand := (pciCommand ||| 1) &&& (2 ^ 32 - 1 - 4)
  device
  session := .opened 0 0

def busMaster (machine : Machine) : Prop := machine.pciCommand &&& 4 ≠ 0

instance (machine : Machine) : Decidable machine.busMaster :=
  inferInstanceAs (Decidable (machine.pciCommand &&& 4 ≠ 0))

def serviceDriverAcquire (network : NetworkStack)
    (physical apertureBytes receiveBytes transmitBytes transmitCount : ℕ)
    (machine : Machine) : Except NetworkError Unit × Machine :=
  if physical % 256 ≠ 0 ∨ receiveBytes ≠ rxBufferSize ∨
      transmitBytes ≠ maxFrameSize ∨ transmitCount ≠ txBufferCount ∨
      apertureBytes < receiveBytes + transmitBytes * transmitCount ∨
      2 ^ 32 - 1 < physical + apertureBytes then
    (.error .endpointDenied, machine)
  else if network.initialized = false ∨ network.backend ≠ .rtl8139 ∨ network.ioBase = 0 then
    (.error .noDevice, machine)
  else if machine.portal.active then (.error .transmitFailed, machine)
  else
    (.ok (),
      { machine with
        pciCommand := machine.pciCommand ||| 5
        portal :=
          { active := true
            receivePhysical := physical % 2 ^ 32
            transmitPhysical := fun index =>
              (physical + receiveBytes + index * transmitBytes) % 2 ^ 32 }
        session := .opened physical apertureBytes })

/-- Whether a register may be read with a width. -/
def readable (register width : ℕ) : Bool :=
  if width = 1 then
    decide (idr0 ≤ register ∧ register < idr0 + 6) ||
      register == Portal.command || register == mediaStatus
  else if width = 2 then register == Portal.isr
  else if width = 4 then (groupIndex tsd0 register).isSome
  else false

/-- A read gives what the device holds at the port. -/
def serviceDriverRead (register width : ℕ) (ports : ℕ → ℕ)
    (machine : Machine) : Except NetworkError ℕ :=
  if machine.portal.active = false then .error .noDevice
  else if readable register width = false then .error .endpointDenied
  else .ok (ports register % 2 ^ (8 * width))

def serviceDriverWrite (register width requested : ℕ) (machine : Machine) :
    Except NetworkError Unit × Machine :=
  if machine.portal.active = false then (.error .noDevice, machine)
  else
    match decode register width with
    | none => (.error .endpointDenied, machine)
    | some register =>
      match register.value machine.portal requested with
      | none => (.error .endpointDenied, machine)
      | some value =>
        (.ok (),
          { machine with
            device := machine.device.write value register
            session := machine.session.note value register })

def serviceDriverRelease (machine : Machine) : Machine :=
  if machine.portal.active = false then machine
  else
    { machine with
      device := machine.device.write 0 .command
      pciCommand := machine.pciCommand &&& (2 ^ 32 - 1 - 4)
      portal := .empty }

end Machine

/-! ## Runs -/

inductive PortalCall where
  | acquire
      (physical apertureBytes receiveBytes transmitBytes transmitCount : ℕ)
  | read (register width : ℕ) (ports : ℕ → ℕ)
  | write (register width requested : ℕ)
  | release

namespace Machine

def step (network : NetworkStack) (machine : Machine) : PortalCall → Machine
  | .acquire physical apertureBytes receiveBytes transmitBytes transmitCount =>
    (machine.serviceDriverAcquire network physical apertureBytes
      receiveBytes transmitBytes transmitCount).2
  | .read _ _ _ => machine
  | .write register width requested =>
    (machine.serviceDriverWrite register width requested).2
  | .release => machine.serviceDriverRelease

/-- The address and the length of the frame that a call makes the device
transmit. -/
def transmission (machine : Machine) : PortalCall → Option (ℕ × ℕ)
  | .write register width requested =>
    match decode register width with
    | some (.tsd index) =>
      if machine.portal.active ∧ machine.device.transmitterEnabled then
        ((Register.tsd index).value machine.portal requested).map
          fun value =>
            (machine.device.transmitAddress index, value &&& 0x1FFF)
      else none
    | _ => none
  | _ => none

/-- Without a session there are no transfers, and during one the receiver
writes into its lease. -/
structure Confined (machine : Machine) : Prop where
  outside : machine.portal.active = false → ¬machine.busMaster
  receive : machine.busMaster → machine.device.receiverEnabled = true →
    machine.session.Contains machine.device.receiveAddress
      machine.device.receiveExtent

/-- So is the device in every state of a run, and every frame that a call makes
it transmit is inside of the lease. -/
def ConfinedRun (network : NetworkStack) : Machine → List PortalCall → Prop
  | machine, [] => machine.Confined
  | machine, call :: calls =>
    machine.Confined ∧ (∀ address length, machine.transmission call = some (address, length) →
      machine.session.Contains address length) ∧
    ConfinedRun network (machine.step network call) calls

/-- The receiver is enabled, and a frame is handed to an enabled transmitter,
only after the address register was written in this session. -/
def Programmed (machine : Machine) : PortalCall → Prop
  | .write register width requested =>
    match decode register width with
    | some .command =>
      requested &&& commandRxEnable ≠ 0 → machine.session.receiveWritten = true
    | some (.tsd index) =>
      machine.device.transmitterEnabled = true → machine.session.transmitWritten index = true
    | _ => True
  | _ => True

def ProgrammedRun (network : NetworkStack) : Machine → List PortalCall → Prop
  | _, [] => True
  | machine, call :: calls =>
    machine.Programmed call ∧ ProgrammedRun network (machine.step network call) calls

/-! ## Confinement -/

/-- The portal and the device of a session whose address registers were only
used after they were written. -/
structure Leased (machine : Machine) : Prop where
  room : rxBufferSize + txBufferCount * maxFrameSize ≤ machine.session.size
  receivePhysical :
    machine.portal.receivePhysical = machine.session.start
  transmitPhysical : ∀ index : Fin txBufferCount, machine.portal.transmitPhysical index =
      machine.session.start + rxBufferSize + index * maxFrameSize
  receiveWritten : machine.session.receiveWritten = true →
    machine.device.receiveAddress = machine.portal.receivePhysical
  transmitWritten : ∀ index, machine.session.transmitWritten index = true →
    machine.device.transmitAddress index = machine.portal.transmitPhysical index
  receiver : machine.device.receiverEnabled = true → machine.session.receiveWritten = true

/-- Outside of a session nothing is enabled. -/
structure Safe (machine : Machine) : Prop where
  idle : machine.portal.active = false →
    machine.pciCommand &&& 4 = 0 ∧ machine.device.receiverEnabled = false
  extent : machine.device.receiveExtent ≤ rxBufferSize
  leased : machine.portal.active = true → machine.Leased

variable {machine : Machine}

theorem and_four_of_cleared (command : ℕ) : command &&& (2 ^ 32 - 1 - 4) &&& 4 = 0 := by
  rw [Nat.and_assoc]
  exact Nat.and_zero command

theorem safe_discovered (pciCommand : ℕ) {device : Rtl8139} (h : device.Idle) :
    (discovered pciCommand device).Safe where
  idle := fun _ => ⟨and_four_of_cleared _, h.1⟩
  extent := h.2
  leased := by
    intro hactive
    cases hactive

theorem Safe.confined (h : machine.Safe) : machine.Confined where
  outside := by
    intro hinactive hmaster
    exact hmaster (h.idle hinactive).1
  receive := by
    intro hmaster henabled
    cases hactive : machine.portal.active with
    | false => exact absurd (h.idle hactive).1 hmaster
    | true =>
      have hleased := h.leased hactive
      have haddress := hleased.receiveWritten (hleased.receiver henabled)
      rw [haddress, hleased.receivePhysical]
      constructor
      · exact le_refl _
      · have hroom := hleased.room
        have hextent := h.extent
        omega

/-! ### One accepted write -/

variable {requested value : ℕ} {register : Register} {portal : DriverPortal}

/-- What the portal lets through for the length of a frame. -/
theorem tsd_value {index : Fin txBufferCount}
    (h : (Register.tsd index).value portal requested = some value) :
    value &&& 0x1FFF ≤ maxFrameSize := by
  rw [Register.value] at h
  split at h
  · rename_i hrule
    cases h
    exact hrule.2.2
  · cases h

theorem extent_write (device : Rtl8139) (h : device.receiveExtent ≤ rxBufferSize)
    (hvalue : register.value portal requested = some value) :
    (device.write value register).receiveExtent ≤ rxBufferSize := by
  cases register with
  | command =>
    rw [Rtl8139.write]
    split
    · decide
    · exact h
  | rcr =>
    rw [Register.value] at hvalue
    split at hvalue
    · rename_i hrule
      cases hvalue
      rw [hrule]
      exact (by decide : Rtl8139.receiveExtent
          { Rtl8139.reset with
            receiveConfiguration := ringConfiguration } ≤ rxBufferSize)
    · cases hvalue
  | config1 | rbstart | tsad index | imr | isr | tcr | capr | tsd index =>
    exact h

/-- A session stays as leased by a write after the registers it relies on. -/
theorem Leased.write (h : machine.Leased)
    (hvalue : register.value machine.portal requested = some value)
    (hprogrammed : register = .command → requested &&& commandRxEnable ≠ 0 →
        machine.session.receiveWritten = true) : Leased
      { machine with
        device := machine.device.write value register
        session := machine.session.note value register } := by
  cases register with
  | command =>
    have hrequested : value = requested := by
      rw [Register.value] at hvalue
      split at hvalue
      · exact (Option.some.inj hvalue).symm
      · cases hvalue
    by_cases hreset : value &&& commandReset ≠ 0
    · simp only [Rtl8139.write, Session.note, if_pos hreset]
      exact
        { room := h.room
          receivePhysical := h.receivePhysical
          transmitPhysical := h.transmitPhysical
          receiveWritten := fun hwritten => by cases hwritten
          transmitWritten := fun _ hwritten => by cases hwritten
          receiver := fun henabled => by cases henabled }
    · simp only [Rtl8139.write, Session.note, if_neg hreset]
      refine { h with receiver := ?_ }
      intro henabled
      rw [hrequested] at henabled
      exact hprogrammed rfl (bne_iff_ne.mp henabled)
  | rbstart =>
    rw [Register.value] at hvalue
    split at hvalue
    · cases hvalue
      exact
        { room := h.room
          receivePhysical := h.receivePhysical
          transmitPhysical := h.transmitPhysical
          receiveWritten := fun _ => rfl
          transmitWritten := h.transmitWritten
          receiver := fun _ => rfl }
    · cases hvalue
  | tsad index =>
    rw [Register.value] at hvalue
    split at hvalue
    · cases hvalue
      refine
        { room := h.room
          receivePhysical := h.receivePhysical
          transmitPhysical := h.transmitPhysical
          receiveWritten := h.receiveWritten
          transmitWritten := ?_
          receiver := h.receiver }
      intro other hother
      by_cases heq : other = index
      · rw [heq]
        exact Function.update_self _ _ _
      · have hold : machine.session.transmitWritten other = true :=
          (Function.update_of_ne heq _ _).symm.trans hother
        exact (Function.update_of_ne heq _ _).trans (h.transmitWritten other hold)
    · cases hvalue
  | config1 | imr | isr | tcr | rcr | capr | tsd index => exact { h with }

theorem Safe.serviceDriverWrite (h : machine.Safe) {register width : ℕ}
    (hprogrammed : machine.Programmed (.write register width requested)) :
    (machine.serviceDriverWrite register width requested).2.Safe := by
  rw [Machine.serviceDriverWrite]
  split
  · exact h
  rename_i hactive
  rw [Bool.not_eq_false] at hactive
  split
  · exact h
  rename_i decoded hdecode
  split
  · exact h
  rename_i value hvalue
  refine ⟨?_, extent_write _ h.extent hvalue, ?_⟩
  · intro hidle
    rw [show machine.portal.active = false from hidle] at hactive
    cases hactive
  · intro _
    refine (h.leased hactive).write hvalue ?_
    rintro rfl
    rw [Programmed, hdecode] at hprogrammed
    exact hprogrammed

/-- A session is opened, or nothing changes. -/
theorem serviceDriverAcquire_cases (machine : Machine) (network : NetworkStack)
    (physical apertureBytes receiveBytes transmitBytes transmitCount : ℕ) :
    (∃ e, machine.serviceDriverAcquire network physical apertureBytes
      receiveBytes transmitBytes transmitCount = (.error e, machine)) ∨
    ∃ machine', machine.serviceDriverAcquire network physical apertureBytes
      receiveBytes transmitBytes transmitCount = (.ok (), machine') ∧
        machine'.portal.active = true := by
  rw [serviceDriverAcquire]
  split
  · exact .inl ⟨_, rfl⟩
  split
  · exact .inl ⟨_, rfl⟩
  · split
    · exact .inl ⟨_, rfl⟩
    · exact .inr ⟨_, rfl, rfl⟩

section

variable (h : machine.Safe)
include h

theorem Safe.serviceDriverAcquire (network : NetworkStack)
    (physical apertureBytes receiveBytes transmitBytes transmitCount : ℕ) :
    (machine.serviceDriverAcquire network physical apertureBytes receiveBytes
      transmitBytes transmitCount).2.Safe := by
  rw [Machine.serviceDriverAcquire]
  split
  · exact h
  rename_i hlease
  split
  · exact h
  split
  · exact h
  rename_i hactive
  rw [Bool.not_eq_true] at hactive
  simp only [not_or, not_not, Nat.not_lt] at hlease
  obtain ⟨-, rfl, rfl, rfl, hroom, hend⟩ := hlease
  refine
    { idle := fun hidle => Bool.noConfusion hidle
      extent := h.extent
      leased := fun _ => ⟨?_, ?_, ?_, ?_, ?_, ?_⟩ }
  · exact (Nat.mul_comm maxFrameSize txBufferCount) ▸ hroom
  · refine Nat.mod_eq_of_lt ?_
    omega
  · intro index
    refine Nat.mod_eq_of_lt ?_
    have hindex : (index : ℕ) * maxFrameSize + maxFrameSize ≤ maxFrameSize * txBufferCount := by
      rw [Nat.mul_comm]
      exact Nat.mul_le_mul_left _ index.isLt
    omega
  · intro hwritten
    cases hwritten
  · intro _ hwritten
    cases hwritten
  · intro henabled
    exact absurd henabled (Bool.eq_false_iff.mp (h.idle hactive).2)

theorem Safe.serviceDriverRelease : machine.serviceDriverRelease.Safe := by
  rw [Machine.serviceDriverRelease]
  split
  · exact h
  · refine ⟨fun _ => ⟨and_four_of_cleared _, rfl⟩, h.extent, ?_⟩
    intro hactive
    cases hactive

variable {call : PortalCall}

theorem Safe.step (network : NetworkStack) (hprogrammed : machine.Programmed call) :
    (machine.step network call).Safe := by
  cases call with
  | acquire physical apertureBytes receiveBytes transmitBytes transmitCount =>
    exact h.serviceDriverAcquire network physical apertureBytes
      receiveBytes transmitBytes transmitCount
  | read register width ports => exact h
  | write register width requested => exact h.serviceDriverWrite hprogrammed
  | release => exact h.serviceDriverRelease

theorem Safe.transmission
    {address length : ℕ} (hprogrammed : machine.Programmed call) (htransmission :
      machine.transmission call = some (address, length)) :
    machine.session.Contains address length := by
  cases call with
  | acquire | read | release => cases htransmission
  | write register width requested =>
    rw [Machine.transmission] at htransmission
    split at htransmission
    · rename_i index hdecode
      split at htransmission
      · rename_i hactive
        obtain ⟨value, hvalue, heq⟩ := Option.map_eq_some_iff.mp htransmission
        cases heq
        rw [Programmed, hdecode] at hprogrammed
        have hleased := h.leased hactive.1
        rw [hleased.transmitWritten index (hprogrammed hactive.2), hleased.transmitPhysical]
        have hlength := tsd_value hvalue
        have hroom := hleased.room
        have hindex : (index : ℕ) * maxFrameSize + maxFrameSize ≤ txBufferCount * maxFrameSize := by
          rw [← Nat.succ_mul]
          exact Nat.mul_le_mul_right _ index.isLt
        constructor <;> omega
      · cases htransmission
    · cases htransmission

theorem Safe.confinedRun {network : NetworkStack} {calls : List PortalCall}
    (hcalls : machine.ProgrammedRun network calls) :
    machine.ConfinedRun network calls := by
  induction calls generalizing machine with
  | nil => exact h.confined
  | cons call calls ih =>
    obtain ⟨hcall, hrest⟩ := hcalls
    refine ⟨h.confined, ?_, ih (h.step network hcall) hrest⟩
    intro address length htransmission
    exact h.transmission hcall htransmission

end

/-- A driver that writes its address registers in each session, after a reset
again, before they are used keeps the device inside of its lease, if discovery
found it idle. -/
theorem programmed_confined {network : NetworkStack} {pciCommand : ℕ} {device : Rtl8139}
    {calls : List PortalCall} (hidle : device.Idle)
    (h : (discovered pciCommand device).ProgrammedRun network calls) :
    (discovered pciCommand device).ConfinedRun network calls :=
  (safe_discovered pciCommand hidle).confinedRun h

/-- The network and the leases of two sessions. -/
def exampleNetwork : NetworkStack where
  initialized := true
  backend := .rtl8139
  ioBase := 0xC000

def exampleLease (physical : ℕ) : PortalCall :=
  .acquire physical 15888 rxBufferSize maxFrameSize txBufferCount

/-- A device that its firmware has left with a transmitter. -/
def exampleDevice : Rtl8139 where
  receiveAddress := 0x9000
  transmitAddress := fun _ => 0x8000
  receiveConfiguration := ringConfiguration
  receiverEnabled := false
  transmitterEnabled := true

theorem twoSessions_confined : (discovered 0 exampleDevice).ConfinedRun exampleNetwork
      [exampleLease 0x100000, .write Portal.rbstart 4 0,
        .write tsad0 4 0, .write Portal.command 1 0x0C, .write tsd0 4 (32 <<< 16 ||| 60), .release,
        exampleLease 0x200000, .write Portal.rbstart 4 0, .write Portal.command 1 0x08, .release] :=
  programmed_confined ⟨rfl, by decide⟩ ⟨trivial, trivial, trivial, fun _ => rfl, fun _ => rfl,
      trivial, trivial, trivial, fun _ => rfl, trivial, trivial⟩

/-- The second session enables the receiver, whose address register still
holds the lease of the first. -/
theorem staleReceiver_escapes : ¬(discovered 0 .reset).ConfinedRun exampleNetwork
      [exampleLease 0x100000, .write Portal.rbstart 4 0, .release,
        exampleLease 0x200000, .write Portal.command 1 0x08] := by
  rintro ⟨-, -, -, -, -, -, -, -, -, -, hlast⟩
  have hcontains := hlast.receive (by decide) (by decide)
  exact absurd hcontains.1 (by decide)

end Machine

end Portal

end ExpOS
