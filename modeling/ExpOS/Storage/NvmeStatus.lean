import ExpOS.Storage.Nvme

/-!
# The status of NVMe commands

Each sector operation issues commands and waits for their completion.  Here
the controller answers the commands in order, the `k`-th one after a number of
looks of the driver and with any status.

A completion with an error is reported, but the driver does not move on in the
completion queue, so it takes the same entry for the next command.  The two
parties stay together exactly as long as no command fails.
-/

namespace ExpOS

/-- How the controller answers a command. -/
structure NvmeAnswer where
  /-- The number of looks of the driver before the answer is there. -/
  delay : ℕ
  code : Fin 32768

/-- What was reported for a command, and where both parties were then. -/
structure NvmeRecord where
  cid : ℕ
  reported : Outcome StorageError Unit
  head : ℕ
  phase : Bool
  deviceHead : ℕ
  devicePhase : Bool

/-- The machine with the answers to come and a record of the commands, which
no code reads. -/
structure NvmeRun where
  machine : NvmeMachine
  answers : ℕ → NvmeAnswer
  answered : ℕ
  waited : ℕ
  log : List NvmeRecord

namespace NvmeRun

/-- The answer to the command that is under way. -/
def answer (run : NvmeRun) : NvmeAnswer := run.answers run.answered

/-- The run after that answer; only a successful command moves data. -/
def answerNow (run : NvmeRun) : NvmeRun :=
  { run with
    machine :=
      (if run.answer.code = 0 then run.machine.transfer
      else run.machine).post run.answer.code
    answered := run.answered + 1
    waited := 0 }

/-- The controller's turn between two looks of the driver. -/
def tick (run : NvmeRun) : NvmeRun :=
  if run.machine.pending.isNone then run
  else if run.waited < run.answer.delay then
    { run with waited := run.waited + 1 }
  else run.answerNow

def waitCompletion (cid : ℕ) : ℕ → Mutator NvmeRun StorageError Unit
  | 0, run => (.fail .timeout, run)
  | polls + 1, run =>
    let run := run.tick
    match run.machine.checkCompletion cid with
    | (some result, machine) => (result, { run with machine })
    | (none, machine) => waitCompletion cid polls { run with machine }

def record (run : NvmeRun) (cid : ℕ) (reported : Outcome StorageError Unit) :
    NvmeRun :=
  { run with
    log := run.log ++
      [{ cid, reported
         head := run.machine.driver.ioCqHead
         phase := run.machine.driver.ioPhase
         deviceHead := run.machine.device.cqTail
         devicePhase := run.machine.device.phase }] }

def command (run : NvmeRun) (opcode : NvmeOpcode) (lba : ℕ) : NvmeCommand where
  cid := run.machine.driver.nextCid
  opcode
  lba
  forceUnitAccess := opcode == .write

def submit (run : NvmeRun) (opcode : NvmeOpcode) (lba : ℕ) : NvmeRun :=
  { run with
    machine := run.machine.allocateCid.2.submit (run.command opcode lba) }

/-- Issue a command and wait for it. -/
def issue (opcode : NvmeOpcode) (lba : ℕ) : Mutator NvmeRun StorageError Unit := fun run =>
  let cid := (run.command opcode lba).cid
  let (result, run) :=
    waitCompletion cid nvmeMaxPolls (run.submit opcode lba)
  (result, run.record cid result)

def io (opcode : NvmeOpcode) (lba : ℕ) : Mutator NvmeRun StorageError Unit :=
  fun run =>
    if !run.machine.driver.ready then (.fail .noDevice, run)
    else if opcode ≠ .flush ∧ !run.machine.dmaReachable then
      (.fail .unsupportedDevice,
        { run with machine := run.machine.allocateCid.2 })
    else issue opcode lba run

/-! ## Sector operations -/

def readSector (lba : ℕ) : Mutator NvmeRun StorageError Sector := fun run =>
  if run.machine.driver.sectors ≤ lba then (.fail .outOfRange, run)
  else
    match io .read lba run with
    | (.done (), run) => (.done run.machine.data, run)
    | (.fail error, run) => (.fail error, run)
    | (.halt, run) => (.halt, run)

def writeSectorUnflushed (lba : ℕ) (input : Sector) :
    Mutator NvmeRun StorageError Unit := fun run =>
  if run.machine.driver.sectors ≤ lba then (.fail .outOfRange, run)
  else io .write lba { run with machine.data := input }

def flush : Mutator NvmeRun StorageError Unit := io .flush 0

def writeSector (lba : ℕ) (input : Sector) : Mutator NvmeRun StorageError Unit := fun run =>
  match writeSectorUnflushed lba input run with
  | (.done (), run) => flush run
  | (.fail error, run) => (.fail error, run)
  | (.halt, run) => (.halt, run)

end NvmeRun

inductive SectorCall where
  | read (lba : ℕ)
  | write (lba : ℕ) (input : Sector)
  | writeUnflushed (lba : ℕ) (input : Sector)
  | flush

namespace NvmeRun

def call (run : NvmeRun) : SectorCall → NvmeRun
  | .read lba => (readSector lba run).2
  | .write lba input => (writeSector lba input run).2
  | .writeUnflushed lba input => (writeSectorUnflushed lba input run).2
  | .flush => (flush run).2

def calls (run : NvmeRun) (list : List SectorCall) : NvmeRun :=
  list.foldl call run

/-! ## What a command reports -/

/-- The status of an answer, as it is reported for a command. -/
def Reports (answer : NvmeAnswer) (record : NvmeRecord) : Prop :=
  match record.reported with
  | .done () => answer.code = 0
  | .fail (.controllerFault status) =>
    answer.code ≠ 0 ∧ completedCode status = answer.code ∧ completedCid status = record.cid
  | _ => False

/-- The command got the status that was posted for it, and left the driver
where the controller is. -/
def Matches (answer : NvmeAnswer) (record : NvmeRecord) : Prop :=
  Reports answer record ∧ record.head = record.deviceHead ∧ record.phase = record.devicePhase

variable {run : NvmeRun} {command : NvmeCommand}

variable {result : Outcome StorageError Unit}

/-- The wait lasts until the answer is there. -/
theorem waitCompletion_eq (h : run.machine.Awaits command) {polls : ℕ}
    (hwaited : run.waited ≤ run.answer.delay) (hpolls : run.answer.delay < run.waited + polls)
    {machine : NvmeMachine}
    (hcheck : run.answerNow.machine.checkCompletion command.cid = (some result, machine)) :
    waitCompletion command.cid polls run = (result, { run.answerNow with machine }) := by
  induction polls generalizing run with
  | zero => omega
  | succ polls ih =>
    by_cases hlt : run.waited < run.answer.delay
    · rw [waitCompletion, tick, h.pending_eq, if_neg (by simp), if_pos hlt]
      rw [h.checkCompletion]
      have hlooks : run.answer.delay < run.waited + 1 + polls := by omega
      exact @ih { run with waited := run.waited + 1 } h hlt hlooks hcheck
    · rw [waitCompletion, tick, h.pending_eq, if_neg (by simp), if_neg hlt]
      rw [hcheck]

theorem tick_keeps (run : NvmeRun) : run.tick.log = run.log ∧ run.tick.answers = run.answers := by
  rw [tick]
  split
  · exact ⟨rfl, rfl⟩
  · split
    · exact ⟨rfl, rfl⟩
    · exact ⟨rfl, rfl⟩

theorem waitCompletion_keeps (cid polls : ℕ) (run : NvmeRun) :
    (waitCompletion cid polls run).2.log = run.log ∧
      (waitCompletion cid polls run).2.answers = run.answers := by
  induction polls generalizing run with
  | zero => exact ⟨rfl, rfl⟩
  | succ polls ih =>
    obtain ⟨hlog, hanswers⟩ := tick_keeps run
    rw [waitCompletion]
    rcases run.tick.machine.checkCompletion cid with ⟨_ | result, machine⟩
    · obtain ⟨hlog', hanswers'⟩ := ih { run.tick with machine }
      exact ⟨hlog'.trans hlog, hanswers'.trans hanswers⟩
    · exact ⟨hlog, hanswers⟩

/-! ## Whole runs -/

/-- Every command so far was answered with success. -/
def Clean (run : NvmeRun) : Prop :=
  ∀ k < run.log.length, (run.answers k).code = 0

/-- Every command so far got its own status. -/
def Faithful (run : NvmeRun) : Prop :=
  ∀ k record, run.log[k]? = some record → Matches (run.answers k) record

structure InStep (run : NvmeRun) : Prop where
  synced : run.machine.Synced
  answered : run.answered = run.log.length
  waited : run.waited = 0

/-- The commands got their own status as long as none of them failed, and then
the next one will, too. -/
structure Sound (answers : ℕ → NvmeAnswer) (run : NvmeRun) : Prop where
  answers_eq : run.answers = answers
  faithful_iff : run.Faithful ↔ run.Clean
  inStep : run.Clean → run.InStep

variable {answers : ℕ → NvmeAnswer}

variable {record : NvmeRecord} {run' : NvmeRun}

/-- A record that is added to a run which was not faithful, or does not match
itself, leaves an unfaithful run. -/
theorem not_faithful_concat
    (hlog : run'.log = run.log ++ [record]) (hanswers : run'.answers = run.answers)
    (h : ¬ run.Faithful ∨ ¬ Matches (run.answers run.log.length) record) : ¬ run'.Faithful := by
  intro hfaithful
  rcases h with hold | hlast
  · apply hold
    intro k old hk
    rw [← hanswers]
    apply hfaithful k old
    rw [hlog, List.getElem?_append_left (List.getElem?_eq_some_iff.mp hk).1]
    exact hk
  · apply hlast
    rw [← hanswers]
    apply hfaithful _ record
    rw [hlog]
    simp

theorem faithful_concat (hlog : run'.log = run.log ++ [record])
    (hanswers : run'.answers = run.answers) (hold : run.Faithful)
    (hlast : Matches (run.answers run.log.length) record) : run'.Faithful := by
  intro k found hk
  rw [hanswers]
  rw [hlog] at hk
  rcases Nat.lt_or_ge k run.log.length with hlt | hge
  · rw [List.getElem?_append_left hlt] at hk
    exact hold k found hk
  rw [List.getElem?_append_right hge, List.getElem?_singleton] at hk
  split at hk
  · rename_i hzero
    obtain rfl : k = run.log.length := by omega
    rw [← Option.some.inj hk]
    exact hlast
  · cases hk

theorem clean_concat (hlog : run'.log = run.log ++ [record])
    (hanswers : run'.answers = run.answers) :
    run'.Clean ↔ run.Clean ∧ (run.answers run.log.length).code = 0 := by
  rw [Clean, hlog, hanswers, List.length_append, List.length_singleton]
  constructor
  · intro h
    exact ⟨fun k hk => h k (by omega), h _ (by omega)⟩
  rintro ⟨hold, hlast⟩ k hk
  rcases Nat.lt_succ_iff_lt_or_eq.mp hk with hlt | rfl
  · exact hold k hlt
  · exact hlast

theorem issue_log (opcode : NvmeOpcode) (lba : ℕ) (run : NvmeRun) :
    (∃ record, (issue opcode lba run).2.log = run.log ++ [record]) ∧
      (issue opcode lba run).2.answers = run.answers := by
  have hkeeps := waitCompletion_keeps (run.command opcode lba).cid
    nvmeMaxPolls (run.submit opcode lba)
  refine ⟨⟨_, congrArg (· ++ [_]) hkeeps.1⟩, hkeeps.2⟩

theorem InStep.awaits (h : run.InStep) (opcode : NvmeOpcode) (lba : ℕ) :
    (run.submit opcode lba).machine.Awaits (run.command opcode lba) :=
  h.synced.allocateCid.submit h.synced.cid_lt

/-- What is there when the answer has come is what the command reports. -/
theorem InStep.issue_eq (h : run.InStep)
    (hdelay : run.answer.delay < nvmeMaxPolls) {opcode : NvmeOpcode}
    {lba : ℕ} {machine : NvmeMachine}
    (hcheck : (run.submit opcode lba).answerNow.machine.checkCompletion
      (run.command opcode lba).cid = (some result, machine)) : (issue opcode lba run).2 =
      ({ (run.submit opcode lba).answerNow with machine } : NvmeRun).record
        (run.command opcode lba).cid result := by
  have hwait := waitCompletion_eq (h.awaits opcode lba)
    (by rw [show (run.submit opcode lba).waited = 0 from h.waited]; omega)
    (Nat.lt_add_left _ hdelay) hcheck
  rw [issue]
  rw [hwait]

/-- A successful command leaves the run in step. -/
theorem InStep.issue_success (h : run.InStep) (hdelay : run.answer.delay < nvmeMaxPolls)
    (hcode : run.answer.code = 0) (opcode : NvmeOpcode) (lba : ℕ) :
    ∃ record, (issue opcode lba run).2.log = run.log ++ [record] ∧
      Matches run.answer record ∧ (issue opcode lba run).2.InStep := by
  have hawaits := (h.awaits opcode lba).transfer
  have hsynced := hawaits.synced_advance run.answer.code
  have hcheck := hawaits.checkCompletion_post run.answer.code
  have hnow : (run.submit opcode lba).answerNow.machine =
      (run.submit opcode lba).machine.transfer.post run.answer.code := by
    change NvmeMachine.post (if run.answer.code = 0 then _ else _) _ = _
    rw [if_pos hcode]
    rfl
  rw [if_pos hcode, ← hnow] at hcheck
  rw [h.issue_eq hdelay hcheck, hnow]
  refine ⟨_, rfl, ⟨hcode, hsynced.cqTail_eq.symm, hsynced.phase_eq.symm⟩, hsynced, ?_, rfl⟩
  change run.answered + 1 = (run.log ++ [_]).length
  rw [h.answered, List.length_append, List.length_singleton]

/-- A failed command leaves the driver behind the controller. -/
theorem InStep.issue_failure (h : run.InStep) (hdelay : run.answer.delay < nvmeMaxPolls)
    (hcode : run.answer.code ≠ 0) (opcode : NvmeOpcode) (lba : ℕ) :
    ∃ record, (issue opcode lba run).2.log = run.log ++ [record] ∧ ¬ Matches run.answer record := by
  have hawaits := h.awaits opcode lba
  have hcheck := hawaits.checkCompletion_post run.answer.code
  have hnow : (run.submit opcode lba).answerNow.machine =
      (run.submit opcode lba).machine.post run.answer.code := by
    change NvmeMachine.post (if run.answer.code = 0 then _ else _) _ = _
    rw [if_neg hcode]
    rfl
  rw [if_neg hcode, ← hnow] at hcheck
  rw [h.issue_eq hdelay hcheck, hnow]
  refine ⟨_, rfl, ?_⟩
  rintro ⟨-, hhead, -⟩
  rw [hawaits.post_eq] at hhead
  rw [hawaits.cqTail_eq] at hhead
  exact increment_ne hawaits.depth _ hhead.symm

section

variable (h : run.Sound answers)
include h

theorem Sound.of_failure (hlog : run'.log = run.log ++ [record])
    (hanswers : run'.answers = run.answers) (hfail : ¬ run.Clean ∨
      ((run.answers run.log.length).code ≠ 0 ∧ ¬ Matches (run.answers run.log.length) record)) :
    run'.Sound answers := by
  have hnot : ¬ run'.Faithful := by
    apply not_faithful_concat hlog hanswers
    rcases hfail with hold | ⟨-, hlast⟩
    · exact .inl fun hfaithful => hold (h.faithful_iff.mp hfaithful)
    · exact .inr hlast
  have hnotClean : ¬ run'.Clean := by
    rw [clean_concat hlog hanswers]
    rintro ⟨hclean, hcode⟩
    rcases hfail with hold | ⟨hne, -⟩
    · exact hold hclean
    · exact hne hcode
  exact ⟨hanswers.trans h.answers_eq, iff_of_false hnot hnotClean,
    fun hclean => absurd hclean hnotClean⟩

theorem Sound.issue
    (hdelay : ∀ k, (answers k).delay < nvmeMaxPolls) (opcode : NvmeOpcode)
    (lba : ℕ) : (NvmeRun.issue opcode lba run).2.Sound answers := by
  obtain ⟨⟨record, hlog⟩, hanswers⟩ := issue_log opcode lba run
  by_cases hold : run.Clean
  · have hstep := h.inStep hold
    have hanswer : run.answers run.log.length = run.answer := by
      rw [answer, hstep.answered]
    have hshort : run.answer.delay < nvmeMaxPolls := by
      rw [answer, h.answers_eq]
      exact hdelay _
    by_cases hcode : run.answer.code = 0
    · obtain ⟨record', hlog', hmatches, hnext⟩ := hstep.issue_success hshort hcode opcode lba
      rw [← hanswer] at hmatches hcode
      have hfaithful := faithful_concat hlog' hanswers (h.faithful_iff.mpr hold) hmatches
      have hclean := (clean_concat hlog' hanswers).mpr ⟨hold, hcode⟩
      exact ⟨hanswers.trans h.answers_eq, iff_of_true hfaithful hclean, fun _ => hnext⟩
    · obtain ⟨record', hlog', hmatches⟩ := hstep.issue_failure hshort hcode opcode lba
      rw [← hanswer] at hmatches hcode
      exact h.of_failure hlog' hanswers (.inr ⟨hcode, hmatches⟩)
  · exact h.of_failure hlog hanswers (.inl hold)

/-- A change of what no command depends on. -/
theorem Sound.machine {machine : NvmeMachine}
    (hsynced : run.machine.Synced → machine.Synced) :
    ({ run with machine } : NvmeRun).Sound answers where
  answers_eq := h.answers_eq
  faithful_iff := h.faithful_iff
  inStep := by
    intro hclean
    have hstep := h.inStep hclean
    exact ⟨hsynced hstep.synced, hstep.answered, hstep.waited⟩

theorem Sound.io
    (hdelay : ∀ k, (answers k).delay < nvmeMaxPolls) (opcode : NvmeOpcode)
    (lba : ℕ) : (NvmeRun.io opcode lba run).2.Sound answers := by
  rw [NvmeRun.io]
  split
  · exact h
  · split
    · exact h.machine fun hsynced => hsynced.allocateCid
    · exact h.issue hdelay opcode lba

theorem Sound.readSector
    (hdelay : ∀ k, (answers k).delay < nvmeMaxPolls) (lba : ℕ) :
    (NvmeRun.readSector lba run).2.Sound answers := by
  have hio := h.io hdelay .read lba
  rw [NvmeRun.readSector]
  split
  · exact h
  revert hio
  rcases NvmeRun.io .read lba run with ⟨_ | error | _, next⟩
  · exact id
  · exact id
  · exact id

theorem Sound.writeSectorUnflushed
    (hdelay : ∀ k, (answers k).delay < nvmeMaxPolls) (lba : ℕ) (input : Sector) :
    (NvmeRun.writeSectorUnflushed lba input run).2.Sound answers := by
  rw [NvmeRun.writeSectorUnflushed]
  split
  · exact h
  · apply Sound.io _ hdelay
    exact h.machine fun hsynced => { hsynced with }

theorem Sound.call
    (hdelay : ∀ k, (answers k).delay < nvmeMaxPolls) (call : SectorCall) :
    (run.call call).Sound answers := by
  cases call with
  | read lba => exact h.readSector hdelay lba
  | write lba input =>
    have hwrite := h.writeSectorUnflushed hdelay lba input
    rw [NvmeRun.call, writeSector]
    revert hwrite
    rcases NvmeRun.writeSectorUnflushed lba input run with
      ⟨_ | error | _, next⟩
    · intro hwrite
      exact hwrite.io hdelay .flush 0
    · exact id
    · exact id
  | writeUnflushed lba input => exact h.writeSectorUnflushed hdelay lba input
  | flush => exact h.io hdelay .flush 0

theorem Sound.calls (hdelay : ∀ k, (answers k).delay < nvmeMaxPolls)
    (list : List SectorCall) : (run.calls list).Sound answers := by
  induction list generalizing run with
  | nil => exact h
  | cons call list ih => exact ih (h.call hdelay call)

end

/-- A run that begins. -/
def start (machine : NvmeMachine) (answers : ℕ → NvmeAnswer) : NvmeRun where
  machine
  answers
  answered := 0
  waited := 0
  log := []

theorem sound_start {machine : NvmeMachine} (h : machine.Synced)
    (answers : ℕ → NvmeAnswer) : (start machine answers).Sound answers where
  answers_eq := rfl
  faithful_iff := by
    refine iff_of_true ?_ ?_
    · intro k record hk
      cases hk
    · intro k hk
      exact absurd hk (Nat.not_lt_zero k)
  inStep := fun _ => ⟨h, rfl, rfl⟩

end NvmeRun

/-- The commands of a run get their own status, and leave the driver where the
controller is, exactly when every command succeeds. -/
theorem nvme_status_iff {machine : NvmeMachine} (h : machine.Synced)
    {answers : ℕ → NvmeAnswer} (hdelay : ∀ k, (answers k).delay < nvmeMaxPolls)
    (calls : List SectorCall) :
    let run := (NvmeRun.start machine answers).calls calls
    (∀ k record, run.log[k]? = some record → NvmeRun.Matches (answers k) record) ↔
        ∀ k < run.log.length, (answers k).code = 0 := by
  intro run
  have hsound := (NvmeRun.sound_start h answers).calls hdelay calls
  have hiff := hsound.faithful_iff
  rw [NvmeRun.Faithful, NvmeRun.Clean, hsound.answers_eq] at hiff
  exact hiff

/-! ## An error that stays -/

/-- A controller with four entries in each queue, just set up. -/
def smallNvme : NvmeMachine where
  driver :=
    { ready := true
      queueDepth := 4
      nextCid := 1
      ioSqTail := 0
      ioCqHead := 0
      ioPhase := true
      sectors := 8
      dataAddress := 4096 }
  device :=
    { sqHead := 0
      sqTail := 0
      cqTail := 0
      phase := true
      transferred := false
      disk := fun _ => ByteBlock.zeros sectorSize }
  ioSq := fun _ => none
  ioCq := fun _ => 0
  data := ByteBlock.zeros sectorSize

theorem smallNvme_synced : smallNvme.Synced where
  depth := by decide
  cid_lt := by decide
  sqTail_eq := rfl
  sqTail_lt := by decide
  cqTail_eq := rfl
  cqHead_lt := by decide
  phase_eq := rfl
  tags := by
    intro slot _
    change completedPhase 0 = false
    decide
  sqHead_eq := rfl
  idle := rfl

/-- The first command fails, all others succeed. -/
def firstFails : ℕ → NvmeAnswer
  | 0 => ⟨0, 1⟩
  | _ => ⟨0, 0⟩

/-- The second read is answered with success, but reports the error of the
first one. -/
theorem firstFails_poisons :
    (((NvmeRun.start smallNvme firstFails).calls [.read 0, .read 1]).log.map NvmeRecord.reported) =
        [.fail (.controllerFault (completionStatus 1 true 1)),
          .fail (.controllerFault (completionStatus 1 true 1))] ∧ (firstFails 1).code = 0 := by
  decide +kernel

theorem smallNvme_reports : smallNvme.Synced ∧ (∀ (k : ℕ) record,
      ((NvmeRun.start smallNvme fun _ => ⟨3, 0⟩).calls
        [.write 5 (ByteBlock.zeros sectorSize), .read 5]).log[k]? =
          some record → NvmeRun.Matches ⟨3, 0⟩ record) := by
  refine ⟨smallNvme_synced, (nvme_status_iff smallNvme_synced (fun _ => by decide) _).mpr ?_⟩
  intro k _
  rfl

end ExpOS
