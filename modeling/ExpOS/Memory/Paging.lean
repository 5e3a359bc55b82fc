import ExpOS.Support.Outcome
import ExpOS.Support.TwoLevel
import Mathlib.Data.Nat.Bitwise

/-!
# Supervisor mappings

The identity map below 4 GiB is built from 2 MiB entries.  Those that touch
the kernel's read-only sections or page zero are split into pages when the map
is initialized; others are split when a frame of a Form is sealed.  Both kinds
of tables come from pools of their own.

A name of a table stands for the address of its page, which is aligned and
therefore never has the bit that marks a large entry.
-/

namespace ExpOS

open List Function TwoLevel

namespace Paging

def page : ℕ := 4096
def huge : ℕ := 2 * 1024 * 1024
def present : ℕ := 1
def write : ℕ := 2
def nx : ℕ := 1 <<< 63
def address : ℕ := 0x000FFFFFFFFFF000
def dynamicSplitCapacity : ℕ := 64

/-- The pages of a table, and of a large entry. -/
def tableLen : ℕ := 512

/-! ## The layout of the kernel -/

structure Layout where
  textStart : ℕ
  textEnd : ℕ
  rodataStart : ℕ
  rodataEnd : ℕ

namespace Layout

def inText (layout : Layout) (address : ℕ) : Bool :=
  decide (layout.textStart ≤ address ∧ address < layout.textEnd)

def inRodata (layout : Layout) (address : ℕ) : Bool :=
  decide (layout.rodataStart ≤ address ∧ address < layout.rodataEnd)

def flags (layout : Layout) (address nx : ℕ) : ℕ :=
  if address = 0 then 0
  else if layout.inText address then present
  else if layout.inRodata address then present ||| nx
  else present ||| write ||| nx

def split (layout : Layout) (base : ℕ) : Bool :=
  decide (base = 0
    ∨ (base < layout.textEnd ∧ layout.textStart < base + huge)
    ∨ (base < layout.rodataEnd ∧ layout.rodataStart < base + huge))

end Layout

/-! ## The tables -/

/-- A page table of one of the two pools. -/
inductive TableName where
  | split (index : ℕ)
  | dynamic (index : ℕ)
deriving DecidableEq

/-- The four entries above the directories, the directories with their
tables, and the number of dynamic tables in use. -/
structure PageTables where
  pdpt : ℕ → ℕ
  levels : TwoLevel TableName ℕ
  dynamicUsed : ℕ

/-- The page that a large entry stands for at an offset. -/
def largePage (value offset : ℕ) : ℕ :=
  ((value &&& address) + offset * page) ||| (value &&& (present ||| write ||| nx))

/-- The entry that maps a page. -/
def PageTables.leaf (tables : PageTables) (number : ℕ) : ℕ :=
  tables.levels.leaf tableLen largePage number

/-- What the processor makes of the entries of a page. -/
structure Mapping where
  frame : ℕ
  writable : Bool
  executable : Bool

def PageTables.lookup (tables : PageTables) (number : ℕ) : Option Mapping :=
  let above := tables.pdpt (number / (tableLen * tableLen))
  let entry := tables.leaf number
  if above &&& present = 0 ∨ entry &&& present = 0 then none
  else
    some
      { frame := entry &&& address
        writable := above &&& write != 0 && entry &&& write != 0
        executable := above &&& nx == 0 && entry &&& nx == 0 }

/-! ## Initialization -/

/-- The page table for the pages from `base` on. -/
def Layout.table (layout : Layout) (base offset : ℕ) : ℕ :=
  (base + offset * page) ||| layout.flags (base + offset * page) nx

/-- The directory entry of a large page is replaced by a table of the dynamic
pool. -/
def splitLarge (tables : PageTables) (index value : ℕ) : PageTables :=
  { tables with
    levels :=
      tables.levels.split index (.dynamic tables.dynamicUsed)
        (largePage value)
    dynamicUsed := tables.dynamicUsed + 1 }

def setEntry (tables : PageTables) (name : TableName) (physical flags : ℕ) :
    PageTables :=
  { tables with
    levels :=
      tables.levels.setEntry name (physical / page % tableLen)
        (physical ||| flags) }

def setIdentityFrame (physical flags : ℕ) (tables : PageTables) : Bool × PageTables :=
  if physical = 0 ∨ 1 <<< 32 ≤ physical ∨ physical % page ≠ 0 then
    (false, tables)
  else if tables.pdpt (physical / (tableLen * huge)) &&& present = 0 then
    (false, tables)
  else
    match tables.levels.directory (physical / huge) with
    | .inl value =>
      if dynamicSplitCapacity ≤ tables.dynamicUsed then (false, tables)
      else
        (true, setEntry (splitLarge tables (physical / huge) value)
            (.dynamic tables.dynamicUsed) physical flags)
    | .inr name => (true, setEntry tables name physical flags)

def sealFormCodeFrame (physical : ℕ) (tables : PageTables) : Bool × PageTables :=
  setIdentityFrame physical (present ||| nx) tables

def unsealFormFrame (physical : ℕ) (tables : PageTables) : Bool × PageTables :=
  setIdentityFrame physical (present ||| write ||| nx) tables

/-- The page of the trampoline becomes executable; the first directory entry
names a table. -/
def sealApTrampoline (tables : PageTables) : PageTables :=
  match tables.levels.directory 0 with
  | .inl _ => tables
  | .inr name =>
    { tables with
      levels := tables.levels.setEntry name 8 (0x8000 ||| present) }

/-! ## Entries -/

variable {number : ℕ}

/-- An aligned address below the limit of the address bits. -/
theorem and_address (h : number < 2 ^ 40) : number * page &&& address = number * page := by
  have hpage : page = 2 ^ 12 := by decide
  have haddress : address = (2 ^ 40 - 1) * 2 ^ 12 := by decide
  rw [hpage, haddress]
  apply Nat.eq_of_testBit_eq
  intro bit
  rw [Nat.testBit_and, Nat.testBit_mul_two_pow, Nat.testBit_mul_two_pow,
    Nat.testBit_two_pow_sub_one]
  by_cases hbit : bit - 12 < 40
  · by_cases hlow : 12 ≤ bit
    · simp [hbit, hlow]
    · simp [hlow]
  · have hhigh : number < 2 ^ (bit - 12) :=
      h.trans_le (Nat.pow_le_pow_right (by decide) (Nat.not_lt.mp hbit))
    simp [Nat.testBit_lt_two_pow hhigh]

variable {flags : ℕ}

/-- The entry of a page has the address of the page. -/
theorem entry_and_address (h : number < 2 ^ 40) (hflags : flags &&& address = 0) :
    (number * page ||| flags) &&& address = number * page := by
  rw [Nat.and_or_distrib_right, and_address h, hflags, Nat.or_zero]

/-- The entry of a page has the flags that were put there. -/
theorem entry_and_flag {flag : ℕ} (h : number < 2 ^ 40) (hflag : address &&& flag = 0) (flags : ℕ) :
    (number * page ||| flags) &&& flag = flags &&& flag := by
  have hzero : number * page &&& flag = 0 := by
    rw [← and_address h, Nat.and_assoc, hflag, Nat.and_zero]
  rw [Nat.and_or_distrib_right, hzero, Nat.zero_or]

variable {index : ℕ}

variable {layout : Layout} {levels levels' : TwoLevel TableName ℕ}

/-- Only the first tables of the pool are named, each of them once. -/
structure Building (levels : TwoLevel TableName ℕ) (used : ℕ) : Prop where
  unshared : levels.Unshared
  names : ∀ index name, levels.directory index = .inr name → ∃ number < used, name = .split number

variable {used : ℕ}

theorem Building.unused (h : Building levels used) : levels.Unused (.split used) := by
  intro index hindex
  obtain ⟨number, hlt, heq⟩ := h.names index _ hindex
  cases heq
  exact absurd hlt (Nat.lt_irrefl _)

theorem Building.split (h : Building levels used) (index : ℕ) (leaves : ℕ → ℕ) :
    Building (levels.split index (.split used) leaves) (used + 1) where
  unshared := unshared_split h.unused h.unshared index leaves
  names := by
    intro i name hi
    rcases directory_split hi with ⟨-, rfl⟩ | hold
    · exact ⟨used, Nat.lt_succ_self used, rfl⟩
    · obtain ⟨number, hlt, rfl⟩ := h.names i name hold
      exact ⟨number, hlt.trans (Nat.lt_succ_self used), rfl⟩

theorem Building.setBlock (h : Building levels used)
    (index block : ℕ) : Building (levels.setBlock index block) used where
  unshared := unshared_setBlock h.unshared index block
  names := fun i name hi => h.names i name (directory_setBlock hi)

variable {indices : List ℕ}

/-- Every table is named at most once, and no unused dynamic table is. -/
structure WellFormed (tables : PageTables) : Prop where
  unshared : tables.levels.Unshared
  dynamic_lt : ∀ index number, tables.levels.directory index = .inr (.dynamic number) →
      number < tables.dynamicUsed

variable {tables : PageTables}

theorem WellFormed.unused (h : WellFormed tables) :
    tables.levels.Unused (.dynamic tables.dynamicUsed) := by
  intro index hindex
  exact absurd (h.dynamic_lt index _ hindex) (Nat.lt_irrefl _)

theorem WellFormed.splitLarge (h : WellFormed tables) (index value : ℕ) :
    WellFormed (splitLarge tables index value) where
  unshared := unshared_split h.unused h.unshared index _
  dynamic_lt := by
    intro i number hi
    rcases directory_split hi with ⟨-, heq⟩ | hold
    · cases heq
      exact Nat.lt_succ_self _
    · exact (h.dynamic_lt i number hold).trans (Nat.lt_succ_self _)

/-- What setting the entry of one page leaves. -/
structure Changed (tables tables' : PageTables) (number entry : ℕ) : Prop where
  wellFormed : WellFormed tables'
  pdpt : tables'.pdpt = tables.pdpt
  leaf : ∀ other, tables'.leaf other =
    if other = number then entry else tables.leaf other
  kept : ∀ index name, tables.levels.directory index = .inr name →
    tables'.levels.directory index = .inr name
  split : ∃ name, tables'.levels.directory (number / tableLen) = .inr name

variable {name : TableName}

theorem WellFormed.setEntry (h : WellFormed tables)
    (hname : tables.levels.directory (number / tableLen) = .inr name)
    (entry : ℕ) : Changed tables
      { tables with
        levels := tables.levels.setEntry name (number % tableLen) entry } number entry where
  wellFormed := ⟨h.unshared, h.dynamic_lt⟩
  pdpt := rfl
  leaf := leaf_setEntry h.unshared hname entry
  kept := fun _ _ hindex => hindex
  split := ⟨name, hname⟩

theorem div_page_div_tableLen (physical : ℕ) : physical / page / tableLen = physical / huge := by
  rw [Nat.div_div_eq_div_mul]
  rfl

/-- A frame is set as asked, or nothing changes. -/
theorem WellFormed.setIdentityFrame (h : WellFormed tables) (physical flags : ℕ) :
    setIdentityFrame physical flags tables = (false, tables) ∨
    ∃ tables', setIdentityFrame physical flags tables = (true, tables') ∧
      (physical ≠ 0 ∧ physical < 1 <<< 32 ∧ physical % page = 0) ∧
      Changed tables tables' (physical / page) (physical ||| flags) := by
  rw [Paging.setIdentityFrame]
  split
  · exact .inl rfl
  rename_i hrange
  rw [not_or, not_or, not_not, Nat.not_le] at hrange
  split
  · exact .inl rfl
  have hindex := div_page_div_tableLen physical
  split
  · rename_i value hvalue
    split
    · exact .inl rfl
    refine .inr ⟨_, rfl, hrange, ?_⟩
    have hnew := h.splitLarge (physical / huge) value
    have hname : (Paging.splitLarge tables (physical / huge)
        value).levels.directory (physical / page / tableLen) =
          .inr (.dynamic tables.dynamicUsed) := by
      rw [hindex]
      exact update_self _ _ _
    have hset := hnew.setEntry hname (physical ||| flags)
    refine ⟨hset.wellFormed, rfl, ?_, ?_, hset.split⟩
    · intro other
      rw [← show (Paging.splitLarge tables _ value).leaf _ = tables.leaf other from
        leaf_split_block h.unused hvalue other]
      exact hset.leaf other
    intro index name hold
    apply hset.kept
    have hne : index ≠ physical / huge := by
      rintro rfl
      rw [hvalue] at hold
      cases hold
    exact (update_of_ne hne _ _).trans hold
  · rename_i name hname
    exact .inr ⟨_, rfl, hrange, h.setEntry (hindex ▸ hname) _⟩

variable {physical : ℕ}

/-! ## Runs -/

inductive PagingCall where
  | sealApTrampoline
  | sealFormCodeFrame (physical : ℕ)
  | unsealFormFrame (physical : ℕ)

/-- The tables, whether the trampoline is sealed, and the frames that were
sealed and not unsealed since. -/
structure PagingState where
  tables : PageTables
  trampoline : Bool
  isSealed : ℕ → Bool

namespace PagingState

/-- The state after a call on a frame. -/
def settle (state : PagingState) (physical : ℕ) (mark : Bool) : Bool × PageTables → PagingState
  | (true, tables) =>
    { state with
      tables
      isSealed := Function.update state.isSealed physical mark }
  | (false, tables) => { state with tables }

def step (state : PagingState) : PagingCall → PagingState
  | .sealApTrampoline =>
    { state with
      tables := sealApTrampoline state.tables
      trampoline := true }
  | .sealFormCodeFrame physical =>
    state.settle physical true (sealFormCodeFrame physical state.tables)
  | .unsealFormFrame physical =>
    state.settle physical false (unsealFormFrame physical state.tables)

def run (state : PagingState) (calls : List PagingCall) : PagingState :=
  calls.foldl step state

end PagingState

/-- The frame is outside the sections of the kernel and is not the
trampoline. -/
def Layout.permits (layout : Layout) (physical : ℕ) : Prop :=
  layout.inText physical = false ∧ layout.inRodata physical = false ∧ physical ≠ 0x8000

def PagingCall.Permitted (layout : Layout) : PagingCall → Prop
  | .sealApTrampoline => True
  | .sealFormCodeFrame physical => layout.permits physical
  | .unsealFormFrame physical => layout.permits physical

/-- The flags that a page has in a state. -/
def expectedFlags (layout : Layout) (state : PagingState) (number : ℕ) : ℕ :=
  if number = 8 ∧ state.trampoline then present
  else if state.isSealed (number * page) then present ||| nx
  else layout.flags (number * page) nx

structure Sound (layout : Layout) (state : PagingState) : Prop where
  wellFormed : WellFormed state.tables
  pdpt : ∀ index, state.tables.pdpt index = present ||| write
  first : ∃ name, state.tables.levels.directory 0 = .inr name
  entries : ∀ number < 2 ^ 20, state.tables.leaf number =
    number * page ||| expectedFlags layout state number
  isSealed : ∀ physical, state.isSealed physical = true → layout.permits physical ∧
    (physical ≠ 0 ∧ physical < 1 <<< 32 ∧ physical % page = 0) ∧
    ∃ name, state.tables.levels.directory (physical / huge) = .inr name

/-- The map after initialization, before any call. -/
def PagingState.initial (tables : PageTables) : PagingState where
  tables
  trampoline := false
  isSealed := fun _ => false

variable {state : PagingState}

theorem expectedFlags_of_ne (h : number ≠ 8) : expectedFlags layout state number =
      if state.isSealed (number * page) then present ||| nx
      else layout.flags (number * page) nx :=
  if_neg fun hand => h hand.1

/-- The flags of a frame that is marked as sealed or not. -/
def markFlags (mark : Bool) : ℕ :=
  if mark then present ||| nx else present ||| write ||| nx

section

variable (h : Sound layout state)
include h

/-- Setting a frame outside the sections keeps the map sound. -/
theorem Sound.settle (hpermits : layout.permits physical) (mark : Bool) :
    Sound layout (state.settle physical mark
      (setIdentityFrame physical (markFlags mark) state.tables)) := by
  rcases h.wellFormed.setIdentityFrame physical (markFlags mark) with
    heq | ⟨tables', heq, hrange, hchanged⟩
  · rw [heq]
    exact { h with }
  rw [heq]
  obtain ⟨hzero, hlt, haligned⟩ := hrange
  have hphysical : physical / page * page = physical :=
    Nat.div_mul_cancel (Nat.dvd_of_mod_eq_zero haligned)
  refine ⟨hchanged.wellFormed, ?_, ?_, ?_, ?_⟩
  · intro index
    exact (congrFun hchanged.pdpt index).trans (h.pdpt index)
  · obtain ⟨name, hname⟩ := h.first
    exact ⟨name, hchanged.kept 0 name hname⟩
  · intro number hnumber
    refine (hchanged.leaf number).trans ?_
    by_cases hsame : number = physical / page
    · have htrampoline : physical / page ≠ 8 := by
        intro height
        rw [height] at hphysical
        exact hpermits.2.2 hphysical.symm
      rw [if_pos hsame, hsame, expectedFlags_of_ne htrampoline, hphysical,
        show (state.settle physical mark (true, tables')).isSealed physical =
          mark from update_self _ _ _]
      cases mark
      · rw [Layout.flags, if_neg hzero, hpermits.1, hpermits.2.1]
        rfl
      · rfl
    · rw [if_neg hsame, h.entries number hnumber, expectedFlags, expectedFlags]
      have hother : number * page ≠ physical := by
        rintro rfl
        exact hsame (Nat.mul_div_cancel number (by decide)).symm
      rw [show (state.settle physical mark (true, tables')).isSealed
        (number * page) = state.isSealed (number * page) from
          update_of_ne hother _ _]
      rfl
  · intro other hother
    by_cases hsame : other = physical
    · rw [hsame]
      refine ⟨hpermits, ⟨hzero, hlt, haligned⟩, ?_⟩
      rw [← div_page_div_tableLen]
      exact hchanged.split
    · have hold : state.isSealed other = true := (update_of_ne hsame _ _).symm.trans hother
      obtain ⟨hpermitted, hrange, name, hname⟩ := h.isSealed other hold
      exact ⟨hpermitted, hrange, name, hchanged.kept _ _ hname⟩

/-- So does sealing the trampoline. -/
theorem Sound.sealApTrampoline :
    Sound layout (state.step .sealApTrampoline) := by
  obtain ⟨name, hname⟩ := h.first
  have hentry : state.tables.levels.directory (8 / tableLen) = .inr name := hname
  have hchanged := h.wellFormed.setEntry hentry (0x8000 ||| present)
  have htables : (state.step .sealApTrampoline).tables =
      { state.tables with
        levels := state.tables.levels.setEntry name 8 (0x8000 ||| present) } := by
    change Paging.sealApTrampoline state.tables = _
    rw [Paging.sealApTrampoline, hname]
  refine ⟨?_, ?_, ?_, ?_, ?_⟩
  · rw [htables]
    exact hchanged.wellFormed
  · rw [htables]
    exact h.pdpt
  · rw [htables]
    exact ⟨name, hname⟩
  · intro number hnumber
    rw [htables]
    refine (hchanged.leaf number).trans ?_
    by_cases hsame : number = 8
    · rw [if_pos hsame, hsame]
      rfl
    · rw [if_neg hsame, h.entries number hnumber,
        expectedFlags_of_ne hsame, expectedFlags_of_ne hsame]
      rfl
  · intro physical hsealed
    rw [htables]
    exact h.isSealed physical hsealed

theorem Sound.step {call : PagingCall}
    (hcall : call.Permitted layout) : Sound layout (state.step call) := by
  cases call with
  | sealApTrampoline => exact h.sealApTrampoline
  | sealFormCodeFrame physical => exact h.settle hcall true
  | unsealFormFrame physical => exact h.settle hcall false

theorem Sound.run {calls : List PagingCall}
    (hcalls : ∀ call ∈ calls, call.Permitted layout) : Sound layout (state.run calls) := by
  induction calls generalizing state with
  | nil => exact h
  | cons call calls ih =>
    rw [forall_mem_cons] at hcalls
    exact ih (h.step hcalls.1) hcalls.2

end

/-! ## What a sound map shows -/

/-- The mapping that flags stand for. -/
def flagMapping (number flags : ℕ) : Option Mapping :=
  if flags &&& present = 0 then none
  else
    some
      { frame := number * page
        writable := flags &&& write != 0
        executable := flags &&& nx == 0 }

theorem expectedFlags_mem (layout : Layout) (state : PagingState) (number : ℕ) :
    expectedFlags layout state number ∈ [0, present, present ||| nx, present ||| write ||| nx] := by
  rw [expectedFlags, Layout.flags]
  split
  · decide
  · repeat' split
    all_goals decide

theorem Sound.lookup (h : Sound layout state) (hnumber : number < 2 ^ 20) :
    state.tables.lookup number = flagMapping number (expectedFlags layout state number) := by
  have hbound : number < 2 ^ 40 := hnumber.trans (by decide)
  have haddress : ∀ flags ∈ [0, present, present ||| nx, present ||| write ||| nx],
      flags &&& address = 0 := by
    decide
  rw [PageTables.lookup, h.pdpt, h.entries number hnumber,
    entry_and_address hbound (haddress _ (expectedFlags_mem _ _ _)),
    entry_and_flag hbound (by decide), entry_and_flag hbound (by decide),
    entry_and_flag hbound (by decide)]
  exact if_congr (or_iff_right (by decide)) rfl rfl

end Paging

end ExpOS
