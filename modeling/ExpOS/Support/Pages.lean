import Mathlib.Data.Nat.Bitwise
import ExpOS.Support.Bytes
import ExpOS.Support.Outcome

/-!
# Pages, page-table entries and checked slices

Memory is divided in pages of 4096 octets.  An entry of a page table is the
address of a page, whose low twelve bits are free, combined with flags in
those bits and in the highest one.

Reads of a byte string are checked: one that leaves the string halts.
-/

namespace ExpOS

/-- The number of pages that hold `n` octets. -/
def pageCeil (n : ℕ) : ℕ :=
  if n % 4096 = 0 then n / 4096 else n / 4096 + 1

theorem lt_pageCeil_iff {page n : ℕ} : page < pageCeil n ↔ page * 4096 < n := by
  unfold pageCeil
  split <;> omega

theorem le_pageCeil_mul (n : ℕ) : n ≤ pageCeil n * 4096 := by
  unfold pageCeil
  split <;> omega

theorem pageCeil_mul_lt (n : ℕ) : pageCeil n * 4096 < n + 4096 := by
  unfold pageCeil
  split <;> omega

variable {start : ℕ}

/-- Octets behind whole pages. -/
theorem pageCeil_add {n : ℕ} (h : start % 4096 = 0) :
    pageCeil (start + n) = start / 4096 + pageCeil n := by
  unfold pageCeil
  split <;> split <;> omega

/-! ## Checked reads -/

section Reads

variable {ε : Type}

/-- The part of a byte string between two places. -/
def slice (octets : Bytes) (start length : ℕ) : Outcome ε Bytes :=
  if start + length ≤ octets.length ∧ start + length < usizeLimit then
    .done ((octets.drop start).take length)
  else .halt

variable {octets : Bytes}

theorem slice_eq {length : ℕ} (h : start + length ≤ octets.length)
    (hlimit : start + length < usizeLimit) : (slice octets start length : Outcome ε Bytes) =
      .done ((octets.drop start).take length) :=
  if_pos ⟨h, hlimit⟩

/-- The little-endian word at a place. -/
def readWord (octets : Bytes) (start width : ℕ) : Outcome ε ℕ := do
  let word ← slice octets start width
  .done (Bytes.fromLeBytes word)

theorem readWord_eq {width : ℕ} (h : start + width ≤ octets.length)
    (hlimit : start + width < usizeLimit) : (readWord octets start width : Outcome ε ℕ) =
      .done (Bytes.fromLeBytes ((octets.drop start).take width)) := by
  rw [readWord, slice_eq h hlimit, Outcome.done_bind]

/-- A loop over consecutive numbers whose every round is known. -/
theorem foldlM_range' {σ : Type} {step : σ → ℕ → Outcome ε σ} (after : ℕ → σ) (first count : ℕ)
    (h : ∀ k < count, step (after k) (first + k) = .done (after (k + 1))) :
    (List.range' first count).foldlM step (after 0) = .done (after count) := by
  induction count generalizing first after with
  | zero => rfl
  | succ count ih =>
    rw [List.range'_succ, List.foldlM_cons]
    have hfirst := h 0 (Nat.succ_pos count)
    rw [Nat.add_zero] at hfirst
    rw [hfirst]
    refine ih (fun k => after (k + 1)) (first + 1) fun k hk => ?_
    have hstep := h (k + 1) (Nat.succ_lt_succ hk)
    rwa [← Nat.add_assoc, Nat.add_right_comm] at hstep

/-- A loop none of whose rounds halts. -/
theorem foldlM_ne_halt {σ ι : Type} {step : σ → ι → Outcome ε σ}
    {items : List ι} (h : ∀ s, ∀ i ∈ items, step s i ≠ .halt) (s : σ) :
    items.foldlM step s ≠ .halt := by
  induction items generalizing s with
  | nil =>
    intro hnil
    cases hnil
  | cons i items ih =>
    exact Outcome.bind_ne_halt (h s i List.mem_cons_self) fun t _ =>
      ih (fun s j hj => h s j (List.mem_cons_of_mem i hj)) t

end Reads

/-! ## Page-table entries -/

/-- The entry is valid. -/
def isPresent (entry : ℕ) : Bool := entry.testBit 0

def isWritable (entry : ℕ) : Bool := entry.testBit 1

/-- The page can be used in user mode. -/
def isUser (entry : ℕ) : Bool := entry.testBit 2

/-- No code runs from the page. -/
def isNoExecute (entry : ℕ) : Bool := entry.testBit 63

/-- The flags present, writable, user and no-execute. -/
def pageFlags (writable executable : Bool) : ℕ :=
  1 ||| 4 ||| (if writable then 2 else 0) |||
    if executable then 0 else 1 <<< 63

/-- The low bits of a page address are free for flags. -/
theorem testBit_page {address bit : ℕ} (h : address % 4096 = 0)
    (hbit : bit < 12) : address.testBit bit = false := by
  have haddress : address = 2 ^ 12 * (address / 4096) := by omega
  rw [haddress, Nat.testBit_two_pow_mul]
  simp [Nat.not_le.mpr hbit]

section Entries

variable {address : ℕ} (h : address % 4096 = 0)
include h

theorem isWritable_page (writable executable : Bool) :
    isWritable (address ||| pageFlags writable executable) = writable := by
  rw [isWritable, Nat.testBit_or, testBit_page h (by decide)]
  cases writable <;> cases executable <;> decide

end Entries

/-- A page that is not to be executed is marked so wherever it lies. -/
theorem isNoExecute_page (address : ℕ) (writable : Bool) :
    isNoExecute (address ||| pageFlags writable false) = true := by
  have hflags : (pageFlags writable false).testBit 63 = true := by
    cases writable <;> decide
  rw [isNoExecute, Nat.testBit_or, hflags, Bool.or_true]

/-- An entry that has all bits of a mask has each of them. -/
theorem testBit_of_mask {entry mask bit : ℕ} (h : entry &&& mask = mask)
    (hbit : mask.testBit bit = true) : entry.testBit bit = true := by
  have hand := congrArg (Nat.testBit · bit) h
  simp only [Nat.testBit_and, hbit, Bool.and_true] at hand
  exact hand

end ExpOS
