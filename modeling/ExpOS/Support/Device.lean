import Mathlib.Data.List.Basic
import ExpOS.Support.Outcome

/-!
# Block devices with faults

A device maps addresses to blocks.  What happens to its next calls is a
script: a call takes effect, reports an error before or after it took effect,
silently moves another block than the one asked for, or never returns because
the power is gone.  An exhausted script means that every further call takes
effect.

A device without faults is *quiet*.  On a quiet device a sequence of reads
gives the blocks on it; a sequence of writes that is cut short leaves exactly
the blocks of a first part of it.
-/

namespace ExpOS

open List Function Effect

/-- What happens to one call on a device. -/
inductive IoEvent (β : Type*) (ε : Type*) where
  /-- The call takes effect. -/
  | ok
  /-- The call reports an error and has no effect. -/
  | fault (error : ε)
  /-- The call takes effect and reports an error. -/
  | late (error : ε)
  /-- The call moves another block than the one asked for. -/
  | other (block : β)
  /-- The power is gone before the call takes effect. -/
  | powerLoss

/-- The blocks of a device and the fate of the calls to come. -/
structure Device (β : Type*) (ε : Type*) where
  blocks : ℕ → β
  script : List (IoEvent β ε)

namespace Device

variable {β ε : Type*}

/-- The device after its next call. -/
def next (d : Device β ε) : Device β ε :=
  { d with script := d.script.tail }

/-- The device with one block replaced. -/
def store (d : Device β ε) (address : ℕ) (block : β) : Device β ε :=
  { d with blocks := Function.update d.blocks address block }

def read (address : ℕ) : Effect (Device β ε) ε β where
  run d :=
    match d.script.head?.getD .ok with
    | .ok => (.done (d.blocks address), d.next)
    | .fault error => (.fail error, d.next)
    | .late error => (.fail error, d.next)
    | .other block => (.done block, d.next)
    | .powerLoss => (.halt, d.next)

def write (address : ℕ) (block : β) : Effect (Device β ε) ε Unit where
  run d :=
    match d.script.head?.getD .ok with
    | .ok => (.done (), d.next.store address block)
    | .fault error => (.fail error, d.next)
    | .late error => (.fail error, d.next.store address block)
    | .other block' => (.done (), d.next.store address block')
    | .powerLoss => (.halt, d.next)

/-- Read the blocks at the addresses in order. -/
def readAll : List ℕ → Effect (Device β ε) ε (List β)
  | [] => pure []
  | address :: rest => do
      let block ← read address
      let blocks ← readAll rest
      pure (block :: blocks)

/-- Write the blocks in order. -/
def writeAll : List (ℕ × β) → Effect (Device β ε) ε Unit
  | [] => pure ()
  | (address, block) :: rest => do
      write address block
      writeAll rest

/-! ## What calls leave alone -/

variable (blocks : ℕ → β) (script : List (IoEvent β ε))

/-- The blocks are these, and the calls to come are a last part of these. -/
def Holds (d : Device β ε) : Prop := d.blocks = blocks ∧ d.script <:+ script

theorem read_keeps_blocks (address : ℕ) :
    Effect.Keeps (Holds blocks script) (read address) := by
  intro d h
  have hnext : d.next.Holds blocks script := ⟨h.1, (tail_suffix _).trans h.2⟩
  simp only [read]
  split <;> exact hnext

theorem readAll_keeps_blocks (addresses : List ℕ) :
    Effect.Keeps (Holds blocks script) (readAll addresses) := by
  induction addresses with
  | nil => exact keeps_pure _
  | cons address rest ih =>
    exact (read_keeps_blocks blocks script address).bind fun _ => ih.bind fun _ => keeps_pure _

/-- No call to come moves another block than the one asked for. -/
def Honest (d : Device β ε) : Prop := ∀ block, .other block ∉ d.script

theorem Honest.read {d d' : Device β ε} (h : d.Honest) {address : ℕ} {block : β}
    (hrun : (Device.read address).run d = (.done block, d')) : block = d.blocks address := by
  obtain ⟨blocks, script⟩ := d
  rcases script with _ | ⟨event, script⟩
  · cases hrun
    rfl
  cases event with
  | ok =>
    cases hrun
    rfl
  | fault error => cases hrun
  | late error => cases hrun
  | other block => exact absurd mem_cons_self (h block)
  | powerLoss => cases hrun

theorem Honest.readAll {d d' : Device β ε} (h : d.Honest) {addresses : List ℕ} {content : List β}
    (hrun : (Device.readAll addresses).run d = (.done content, d')) :
    content = addresses.map d.blocks := by
  induction addresses generalizing d content with
  | nil =>
    cases hrun
    rfl
  | cons address rest ih =>
    obtain ⟨block, d₁, hfirst, hrun⟩ := run_bind_eq_done.mp hrun
    obtain ⟨later, d₂, hrest, hrun⟩ := run_bind_eq_done.mp hrun
    have hkeeps := read_keeps_blocks d.blocks d.script address d ⟨rfl, suffix_refl _⟩
    rw [hfirst] at hkeeps
    cases hrun
    rw [h.read hfirst, ih (fun block hmem => h block (hkeeps.2.subset hmem)) hrest, hkeeps.1,
      map_cons]

variable {writes : List (ℕ × β)}

/-! ## Quiet devices -/

/-- Every call to come takes effect. -/
def Quiet (d : Device β ε) : Prop := d.script = []

variable {d : Device β ε}

theorem Quiet.read (h : d.Quiet) (address : ℕ) :
    (read address).run d = (.done (d.blocks address), d) := by
  cases d
  cases h
  rfl

theorem Quiet.readAll (h : d.Quiet) (addresses : List ℕ) :
    (readAll addresses).run d = (.done (addresses.map d.blocks), d) := by
  induction addresses with
  | nil => rfl
  | cons address rest ih =>
    rw [Device.readAll, run_bind, h.read]
    simp only [run_bind, ih]
    rfl

/-- The blocks after a sequence of writes. -/
def written (writes : List (ℕ × β)) (blocks : ℕ → β) : ℕ → β :=
  writes.foldl (fun blocks w => Function.update blocks w.1 w.2) blocks

/-- Writes of blocks that depend on the address only. -/
theorem written_eq (content : ℕ → β)
    (h : ∀ w ∈ writes, w.2 = content w.1) (blocks : ℕ → β) (address : ℕ) :
    written writes blocks address =
      if address ∈ writes.map Prod.fst then content address
      else blocks address := by
  induction writes generalizing blocks with
  | nil => simp [written]
  | cons first rest ih =>
    have hrest := ih (fun w hw => h w (mem_cons_of_mem _ hw))
      (Function.update blocks first.1 first.2)
    change written rest _ address = _
    rw [hrest, map_cons]
    by_cases hmem : address ∈ rest.map Prod.fst
    · rw [if_pos hmem, if_pos (mem_cons_of_mem _ hmem)]
    rw [if_neg hmem]
    by_cases heq : address = first.1
    · subst heq
      rw [update_self, if_pos mem_cons_self]
      exact h first mem_cons_self
    · rw [update_of_ne heq, if_neg]
      simp only [mem_cons, not_or]
      exact ⟨heq, hmem⟩

/-- A sequence of writes whose first one reports an error and has no
effect. -/
theorem writeAll_fault (h : writes ≠ [])
    (blocks : ℕ → β) (error : ε) (script : List (IoEvent β ε)) :
    (writeAll writes).run ⟨blocks, .fault error :: script⟩ = (.fail error, ⟨blocks, script⟩) := by
  cases writes with
  | nil => exact absurd rfl h
  | cons first rest => rfl

/-! ## Losing power -/

/-- A device without faults whose power lasts for `calls` further calls, or
for all of them. -/
def powered : Option ℕ → List (IoEvent β ε)
  | none => []
  | some calls => List.replicate calls .ok ++ [.powerLoss]

/-- The power lasts for `calls` further calls. -/
def Lasts (power : Option ℕ) (calls : ℕ) : Prop :=
  ∀ limit, power = some limit → calls ≤ limit

instance (power : Option ℕ) (calls : ℕ) : Decidable (Lasts power calls) :=
  match power with
  | none => isTrue (by simp [Lasts])
  | some limit => decidable_of_iff (calls ≤ limit) (by simp [Lasts])

/-- A read on a powered device gives the block or does not return. -/
theorem read_powered (address : ℕ) (blocks : ℕ → β) (power : Option ℕ) :
    (∃ power', (power = none → power' = none) ∧
      (read address).run (⟨blocks, powered power⟩ : Device β ε) =
        (.done (blocks address), ⟨blocks, powered power'⟩)) ∨ (power ≠ none ∧
      (read address).run (⟨blocks, powered power⟩ : Device β ε) =
        (.halt, ⟨blocks, powered none⟩)) := by
  rcases power with _ | _ | calls
  · exact .inl ⟨none, id, rfl⟩
  · exact .inr ⟨by simp, rfl⟩
  · exact .inl ⟨some calls, by simp, rfl⟩

/-- So do reads of several blocks. -/
theorem readAll_powered (addresses : List ℕ) (blocks : ℕ → β) (power : Option ℕ) :
    (∃ power', (readAll addresses).run (⟨blocks, powered power⟩ : Device β ε) =
      (.done (addresses.map blocks), ⟨blocks, powered power'⟩)) ∨
    ∃ d, (readAll addresses).run (⟨blocks, powered power⟩ : Device β ε) = (.halt, d) := by
  induction addresses generalizing power with
  | nil => exact .inl ⟨power, rfl⟩
  | cons address rest ih =>
    rw [readAll, run_bind]
    rcases read_powered (ε := ε) address blocks power with ⟨power', -, hread⟩ | ⟨-, hread⟩
    · rw [hread]
      dsimp only
      rw [run_bind]
      rcases ih power' with ⟨power'', hrest⟩ | ⟨d, hrest⟩
      · rw [hrest]
        exact .inl ⟨power'', rfl⟩
      · rw [hrest]
        exact .inr ⟨d, rfl⟩
    · rw [hread]
      exact .inr ⟨_, rfl⟩

/-- A sequence of writes that the power outlasts. -/
theorem writeAll_powered {power : Option ℕ} (h : Lasts power writes.length) :
    ∃ power', (power = none → power' = none) ∧
      (writeAll writes).run (⟨blocks, powered power⟩ : Device β ε) =
        (.done (), ⟨written writes blocks, powered power'⟩) := by
  induction writes generalizing blocks power with
  | nil => exact ⟨power, id, rfl⟩
  | cons first rest ih =>
    rcases power with _ | _ | calls
    · have hlasts : Lasts none rest.length := by simp [Lasts]
      obtain ⟨power', hnone, hrest⟩ := ih (Function.update blocks first.1 first.2) hlasts
      exact ⟨power', hnone, hrest⟩
    · exact absurd (h 0 rfl) (by simp)
    · have hlasts : Lasts (some calls) rest.length := by
        simpa [Lasts] using h
      obtain ⟨power', -, hrest⟩ := ih (Function.update blocks first.1 first.2) hlasts
      exact ⟨power', by simp, hrest⟩

/-- A sequence of writes cut short leaves a first part of it on the
device. -/
theorem writeAll_cut {calls : ℕ} (h : calls < writes.length) : (writeAll writes).run
      (⟨blocks, powered (some calls)⟩ : Device β ε) =
        (.halt, ⟨written (writes.take calls) blocks, []⟩) := by
  induction writes generalizing blocks calls with
  | nil => simp at h
  | cons first rest ih =>
    cases calls with
    | zero => rfl
    | succ calls =>
      exact ih (Function.update blocks first.1 first.2) (by simpa using h)

end Device

end ExpOS
