import ExpOS.Store.Runtime

/-!
# NVMe queues

The driver and the controller share a submission queue, a completion queue and
one page of data.  A command is written behind the tail of the submission
queue and announced by a doorbell; the controller takes the commands in order,
moves the data and posts an entry with the command's identifier, its status
and a phase tag that changes with every turn of the completion queue.

The queue memory that the controller reads is modelled by what the driver
writes there: a command, not its sixteen words.  Only the last word of a
completion entry is read by the driver and kept here.
-/

namespace ExpOS

open Function

inductive NvmeOpcode where
  | flush
  | write
  | read
deriving DecidableEq

structure NvmeCommand where
  cid : ℕ
  opcode : NvmeOpcode
  lba : ℕ
  forceUnitAccess : Bool

def nvmeMaxPolls : ℕ := 12000000

/-! ## Completion entries -/

/-- The last word of a completion entry: the command identifier, the phase
tag and fifteen bits of status. -/
def completionStatus (cid : ℕ) (phase : Bool) (code : Fin 32768) : UInt32 :=
  UInt32.ofNat (cid + 65536 * phase.toNat + 131072 * code)

def completedCid (status : UInt32) : ℕ := status.toNat % 65536

def completedPhase (status : UInt32) : Bool :=
  status.toNat / 65536 % 2 != 0

def completedCode (status : UInt32) : ℕ := status.toNat / 131072

variable {cid : ℕ}

theorem toNat_completionStatus (hcid : cid < 65536) (phase : Bool) (code : Fin 32768) :
    (completionStatus cid phase code).toNat = cid + 65536 * phase.toNat + 131072 * code := by
  apply UInt32.toNat_ofNat_of_lt'
  have hphase := phase.toNat_le
  change _ < 4294967296
  omega

theorem completedCid_completionStatus (hcid : cid < 65536) (phase : Bool) (code : Fin 32768) :
    completedCid (completionStatus cid phase code) = cid := by
  rw [completedCid, toNat_completionStatus hcid]
  omega

theorem completedPhase_completionStatus (hcid : cid < 65536) (phase : Bool) (code : Fin 32768) :
    completedPhase (completionStatus cid phase code) = phase := by
  have hphase : (cid + 65536 * phase.toNat + 131072 * code) / 65536 % 2 = phase.toNat := by
    have hle := phase.toNat_le
    omega
  rw [completedPhase, toNat_completionStatus hcid, hphase]
  cases phase with
  | false => rfl
  | true => rfl

theorem completedCode_completionStatus (hcid : cid < 65536) (phase : Bool) (code : Fin 32768) :
    completedCode (completionStatus cid phase code) = code := by
  rw [completedCode, toNat_completionStatus hcid]
  have hle := phase.toNat_le
  omega

/-! ## The two parties -/

/-- What the driver keeps for the queues of a namespace. -/
structure NvmeController where
  ready : Bool
  queueDepth : ℕ
  nextCid : ℕ
  ioSqTail : ℕ
  ioCqHead : ℕ
  ioPhase : Bool
  sectors : ℕ
  /-- The address of the page of data. -/
  dataAddress : ℕ

/-- Where the controller is in both queues; the tail of the submission queue
is what the doorbell told it. -/
structure NvmeDevice where
  sqHead : ℕ
  sqTail : ℕ
  cqTail : ℕ
  phase : Bool
  /-- The data of the command at the head has been moved. -/
  transferred : Bool
  disk : ℕ → Sector

structure NvmeMachine where
  driver : NvmeController
  device : NvmeDevice
  ioSq : ℕ → Option NvmeCommand
  ioCq : ℕ → UInt32
  data : Sector

def increment (value depth : ℕ) : ℕ :=
  if value + 1 = depth then 0 else value + 1

theorem increment_lt {value depth : ℕ} (h : value < depth) : increment value depth < depth := by
  rw [increment]
  split
  · omega
  · omega

theorem increment_ne {depth : ℕ} (hdepth : 2 ≤ depth) (value : ℕ) :
    increment value depth ≠ value := by
  rw [increment]
  split
  · omega
  · omega

namespace NvmeMachine

/-! ## The controller's side -/

/-- The command that the controller works on. -/
def pending (machine : NvmeMachine) : Option NvmeCommand :=
  if machine.device.sqHead = machine.device.sqTail then none
  else machine.ioSq machine.device.sqHead

/-- The controller moves the data of its command. -/
def transfer (machine : NvmeMachine) : NvmeMachine :=
  match machine.pending with
  | none => machine
  | some command =>
    if machine.device.transferred then machine
    else
      match command.opcode with
      | .flush => { machine with device.transferred := true }
      | .read =>
        { machine with
          data := machine.device.disk command.lba
          device.transferred := true }
      | .write =>
        { machine with
          device.disk :=
            Function.update machine.device.disk command.lba machine.data
          device.transferred := true }

/-- The controller posts the completion of its command. -/
def post (machine : NvmeMachine) (code : Fin 32768) : NvmeMachine :=
  match machine.pending with
  | none => machine
  | some command =>
    let depth := machine.driver.queueDepth
    let device := machine.device
    { machine with
      ioCq := Function.update machine.ioCq device.cqTail
        (completionStatus command.cid device.phase code)
      device.sqHead := increment device.sqHead depth
      device.cqTail := increment device.cqTail depth
      device.phase :=
        if device.cqTail + 1 = depth then !device.phase else device.phase
      device.transferred := false }

/-! ## The driver's side -/

def allocateCid (machine : NvmeMachine) : ℕ × NvmeMachine :=
  let cid := machine.driver.nextCid
  (cid, { machine with driver.nextCid := max ((cid + 1) % 65536) 1 })

/-- The page of data can be named to the controller. -/
def dmaReachable (machine : NvmeMachine) : Bool :=
  decide (machine.driver.dataAddress ≠ 0
    ∧ machine.driver.dataAddress < 0x100000000
    ∧ machine.driver.dataAddress % 4096 = 0)

/-- Write a command behind the tail and ring the doorbell. -/
def submit (machine : NvmeMachine) (command : NvmeCommand) : NvmeMachine :=
  let driver := machine.driver
  let tail := increment driver.ioSqTail driver.queueDepth
  { machine with
    ioSq := Function.update machine.ioSq driver.ioSqTail (some command)
    driver.ioSqTail := tail
    device.sqTail := tail }

/-- The completion at the head has been taken. -/
def advance (machine : NvmeMachine) : NvmeMachine :=
  let driver := machine.driver
  if driver.ioCqHead + 1 = driver.queueDepth then
    { machine with
      driver.ioCqHead := 0
      driver.ioPhase := !driver.ioPhase }
  else
    { machine with driver.ioCqHead := driver.ioCqHead + 1 }

/-- One look at the completion queue, which may end the wait. -/
def checkCompletion (machine : NvmeMachine) (cid : ℕ) :
    Option (Outcome StorageError Unit) × NvmeMachine :=
  let status := machine.ioCq machine.driver.ioCqHead
  if completedPhase status = machine.driver.ioPhase then
    if completedCid status ≠ cid ∨ completedCode status ≠ 0 then
      (some (.fail (.controllerFault status)), machine)
    else
      (some (.done ()), machine.advance)
  else
    (none, machine)

/-! ## Agreement of the two parties -/

/-- Both parties are at the same place of the completion queue.  What stands
there carries the tag of this turn before the head and the other tag from
there on. -/
structure Agrees (machine : NvmeMachine) : Prop where
  depth : 2 ≤ machine.driver.queueDepth
  cid_lt : machine.driver.nextCid < 65536
  sqTail_eq : machine.device.sqTail = machine.driver.ioSqTail
  sqTail_lt : machine.driver.ioSqTail < machine.driver.queueDepth
  cqTail_eq : machine.device.cqTail = machine.driver.ioCqHead
  cqHead_lt : machine.driver.ioCqHead < machine.driver.queueDepth
  phase_eq : machine.device.phase = machine.driver.ioPhase
  tags : ∀ slot < machine.driver.queueDepth, completedPhase (machine.ioCq slot) =
      if slot < machine.driver.ioCqHead then machine.driver.ioPhase
      else !machine.driver.ioPhase

/-- No command is under way. -/
structure Synced (machine : NvmeMachine) : Prop extends Agrees machine where
  sqHead_eq : machine.device.sqHead = machine.driver.ioSqTail
  idle : machine.device.transferred = false

/-- One command is under way. -/
structure Awaits (machine : NvmeMachine) (command : NvmeCommand) : Prop
    extends Agrees machine where
  command_lt : command.cid < 65536
  pending_eq : machine.pending = some command
  sqHead_eq : increment machine.device.sqHead machine.driver.queueDepth = machine.driver.ioSqTail

variable {machine : NvmeMachine} {command : NvmeCommand}

theorem Synced.allocateCid (h : machine.Synced) : machine.allocateCid.2.Synced :=
  { h with
    cid_lt := by
      change max ((machine.driver.nextCid + 1) % 65536) 1 < 65536
      omega }

theorem Synced.submit (h : machine.Synced) (hcid : command.cid < 65536) :
    (machine.submit command).Awaits command where
  depth := h.depth
  cid_lt := h.cid_lt
  command_lt := hcid
  pending_eq := by
    have hne := increment_ne h.depth machine.driver.ioSqTail
    change (if machine.device.sqHead = increment machine.driver.ioSqTail
      machine.driver.queueDepth then none else update machine.ioSq
        machine.driver.ioSqTail (some command) machine.device.sqHead) = _
    rw [h.sqHead_eq, if_neg hne.symm, update_self]
  sqHead_eq := congrArg (increment · machine.driver.queueDepth) h.sqHead_eq
  sqTail_eq := rfl
  sqTail_lt := increment_lt h.sqTail_lt
  cqTail_eq := h.cqTail_eq
  cqHead_lt := h.cqHead_lt
  phase_eq := h.phase_eq
  tags := h.tags

/-- As long as nothing is posted the driver waits. -/
theorem Awaits.checkCompletion (h : machine.Awaits command) (cid : ℕ) :
    machine.checkCompletion cid = (none, machine) := by
  have htag := h.tags machine.driver.ioCqHead h.cqHead_lt
  rw [if_neg (Nat.lt_irrefl _)] at htag
  rw [NvmeMachine.checkCompletion, if_neg]
  rw [htag]
  exact Bool.not_ne_self _

theorem Awaits.transfer (h : machine.Awaits command) : machine.transfer.Awaits command := by
  rw [NvmeMachine.transfer, h.pending_eq]
  dsimp only
  split
  · exact h
  split
  · exact { h with }
  · exact { h with }
  · exact { h with }

theorem Awaits.post_eq (h : machine.Awaits command) (code : Fin 32768) : machine.post code =
      { machine with
        ioCq := update machine.ioCq machine.device.cqTail
          (completionStatus command.cid machine.device.phase code)
        device.sqHead :=
          increment machine.device.sqHead machine.driver.queueDepth
        device.cqTail :=
          increment machine.device.cqTail machine.driver.queueDepth
        device.phase :=
          if machine.device.cqTail + 1 = machine.driver.queueDepth then
            !machine.device.phase
          else machine.device.phase
        device.transferred := false } := by
  rw [NvmeMachine.post, h.pending_eq]

/-- The driver takes what was posted for its command, and moves on only when
the status is a success. -/
theorem Awaits.checkCompletion_post (h : machine.Awaits command) (code : Fin 32768) :
    (machine.post code).checkCompletion command.cid =
      if code = 0 then (some (.done ()), (machine.post code).advance)
      else
        (some (.fail (.controllerFault (completionStatus command.cid machine.driver.ioPhase code))),
          machine.post code) := by
  have hstatus : (machine.post code).ioCq (machine.post code).driver.ioCqHead =
        completionStatus command.cid machine.driver.ioPhase code := by
    rw [h.post_eq, h.cqTail_eq, h.phase_eq]
    exact update_self _ _ _
  have hphase : (machine.post code).driver.ioPhase = machine.driver.ioPhase := by rw [h.post_eq]
  rw [NvmeMachine.checkCompletion, hstatus, hphase, completedPhase_completionStatus h.command_lt,
    completedCid_completionStatus h.command_lt,
    completedCode_completionStatus h.command_lt, if_pos rfl]
  by_cases hcode : code = 0
  · rw [if_neg (by simp [hcode]), if_pos hcode]
  · have hne : (code : ℕ) ≠ 0 := fun hzero => hcode (Fin.ext hzero)
    rw [if_pos (.inr hne), if_neg hcode]

theorem Awaits.tags_post (h : machine.Awaits command) (code : Fin 32768)
    (slot : ℕ) (hslot : slot < machine.driver.queueDepth) :
    completedPhase (update machine.ioCq machine.device.cqTail
      (completionStatus command.cid machine.device.phase code) slot) =
        if slot ≤ machine.driver.ioCqHead then machine.driver.ioPhase
        else !machine.driver.ioPhase := by
  rw [h.cqTail_eq, h.phase_eq]
  by_cases heq : slot = machine.driver.ioCqHead
  · rw [heq, update_self, if_pos le_rfl, completedPhase_completionStatus h.command_lt]
  · rw [update_of_ne heq, h.tags slot hslot]
    exact if_congr (by omega) rfl rfl

theorem Awaits.synced_advance (h : machine.Awaits command)
    (code : Fin 32768) : (machine.post code).advance.Synced := by
  have htags := h.tags_post code
  rw [h.post_eq, NvmeMachine.advance]
  by_cases hlast : machine.driver.ioCqHead + 1 = machine.driver.queueDepth
  · rw [if_pos hlast]
    refine ⟨⟨h.depth, h.cid_lt, h.sqTail_eq, h.sqTail_lt, ?_, ?_, ?_, ?_⟩, h.sqHead_eq, rfl⟩
    · change increment machine.device.cqTail machine.driver.queueDepth = 0
      rw [h.cqTail_eq, increment, if_pos hlast]
    · exact Nat.zero_lt_of_lt h.depth
    · change (if machine.device.cqTail + 1 = _ then _ else _) = _
      rw [h.cqTail_eq, if_pos hlast, h.phase_eq]
    · intro slot hslot
      refine (htags slot hslot).trans ?_
      dsimp only at hslot ⊢
      rw [if_pos (by omega), if_neg (Nat.not_lt_zero _), Bool.not_not]
  · rw [if_neg hlast]
    refine ⟨⟨h.depth, h.cid_lt, h.sqTail_eq, h.sqTail_lt, ?_, ?_, ?_, ?_⟩, h.sqHead_eq, rfl⟩
    · change increment machine.device.cqTail machine.driver.queueDepth = _
      rw [h.cqTail_eq, increment, if_neg hlast]
    · have hlt := h.cqHead_lt
      change machine.driver.ioCqHead + 1 < machine.driver.queueDepth
      omega
    · change (if machine.device.cqTail + 1 = _ then _ else _) = _
      rw [h.cqTail_eq, if_neg hlast, h.phase_eq]
    · intro slot hslot
      refine (htags slot hslot).trans ?_
      exact if_congr Nat.lt_succ_iff.symm rfl rfl

end NvmeMachine

end ExpOS
