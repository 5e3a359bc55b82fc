import ExpOS.Support.Lookup
import Mathlib.Data.List.ReduceOption

/-!
# Fixed-capacity tables of optional entries

A `SlotTable` is an array whose cells are either free or hold one entry.  The
occupied cells, read in slot order, are its `occupants`; a new entry goes to
the first free cell.

Tables whose entries are never removed stay *packed*: every free cell lies
behind every occupied one.  On a packed table insertion is an append to the
list of occupants, which is the form in which invariants over whole runs are
stated and proved.
-/

namespace ExpOS

open List Function Option

/-- An array of `capacity` cells, each free or holding one entry. -/
structure SlotTable (α : Type*) (capacity : ℕ) where
  slots : List (Option α)
  length_slots : slots.length = capacity
deriving DecidableEq

namespace SlotTable

variable {α : Type*} {β : Type*} {capacity : ℕ}

@[ext] theorem ext {s t : SlotTable α capacity} (h : s.slots = t.slots) : s = t := by
  cases s
  cases t
  simp_all

/-- The table with every cell free. -/
def empty (α : Type*) (capacity : ℕ) : SlotTable α capacity where
  slots := List.replicate capacity none
  length_slots := by simp

/-- The occupied cells in slot order. -/
def occupants (t : SlotTable α capacity) : List α :=
  t.slots.reduceOption

/-- The position of the first free cell. -/
def freeIndex (t : SlotTable α capacity) : Option ℕ :=
  t.slots.findIdx? Option.isNone

/-- Overwrite one cell; positions outside the table change nothing. -/
def put (t : SlotTable α capacity) (index : ℕ) (entry : Option α) : SlotTable α capacity where
  slots := t.slots.set index entry
  length_slots := by simp [t.length_slots]

/-- Free every cell that holds an entry searched for. -/
def clear (p : α → Bool) (t : SlotTable α capacity) : SlotTable α capacity where
  slots := t.slots.map fun slot => slot.filter fun entry => !p entry
  length_slots := by simp [t.length_slots]

variable (t : SlotTable α capacity)

theorem put_put (index : ℕ) (entry entry' : Option α) :
    (t.put index entry).put index entry' = t.put index entry' := by
  simp [put]

/-- Apply a function to every occupied cell. -/
def map (f : α → β) (t : SlotTable α capacity) : SlotTable β capacity where
  slots := t.slots.map (Option.map f)
  length_slots := by simp [t.length_slots]

@[simp] theorem occupants_empty : (empty α capacity).occupants = [] := by
  simp [empty, occupants]

@[simp] theorem occupants_map (f : α → β) (t : SlotTable α capacity) :
    (t.map f).occupants = t.occupants.map f := by
  exact reduceOption_map

theorem length_occupants_le : t.occupants.length ≤ capacity := by
  have h := reduceOption_length_le t.slots
  rwa [t.length_slots] at h

variable {t : SlotTable α capacity} {entry : α}

theorem mem_occupants :
    entry ∈ t.occupants ↔ some entry ∈ t.slots :=
  reduceOption_mem_iff

variable {index : ℕ}

theorem mem_occupants_put {other : α} (h : other ∈ (t.put index (some entry)).occupants) :
    other = entry ∨ other ∈ t.occupants := by
  rcases mem_or_eq_of_mem_set (mem_occupants.mp h) with hold | hnew
  · exact .inr (mem_occupants.mpr hold)
  · exact .inl (Option.some.inj hnew)

theorem mem_put_occupants (h : index < capacity) :
    entry ∈ (t.put index (some entry)).occupants := by
  rw [← t.length_slots] at h
  exact mem_occupants.mpr (mem_set h _)

/-- Fill one cell if there is an entry for it. -/
def fill (t : SlotTable α capacity) (index : ℕ) (entry : Option α) : SlotTable α capacity :=
  entry.elim t fun entry => t.put index (some entry)

theorem getElem?_fill (index i : ℕ) (entry : Option α) :
    (t.fill index entry).slots[i]? =
      if index = i ∧ entry.isSome then t.slots[i]?.map fun _ => entry
      else t.slots[i]? := by
  cases entry with
  | none => simp [fill]
  | some entry =>
    simp only [fill, put]
    by_cases heq : index = i
    · subst heq
      by_cases hlt : index < t.slots.length
      · simp [hlt]
      · simp [hlt]
    · simp [heq]

/-- Filling the cells of an empty table one after the other. -/
theorem foldl_fill (entries : ℕ → Option α) {k : ℕ} (hk : k ≤ capacity) :
    ((List.range k).foldl (fun t index => t.fill index (entries index)) (empty α capacity)).slots =
      (List.range capacity).map fun index =>
        if index < k then entries index else none := by
  induction k with
  | zero => simp [empty]
  | succ k ih =>
    rw [range_succ, foldl_append, foldl_cons, foldl_nil]
    apply ext_getElem?
    intro i
    rw [getElem?_fill, ih (by omega)]
    by_cases hi : i < capacity
    · by_cases heq : k = i
      · subst heq
        cases hentry : entries k <;> simp [hi, hentry]
      · have hiff : i < k ↔ i < k + 1 := by omega
        rw [if_neg fun h => heq h.1, getElem?_map, getElem?_map, getElem?_range hi]
        simp only [Option.map_some, hiff]
    · simp [hi]

/-! ## Filling the first free cell -/

/-- The number of free cells. -/
def freeCount (t : SlotTable α capacity) : ℕ :=
  t.slots.countP Option.isNone

theorem freeCount_add_length :
    t.freeCount + t.occupants.length = capacity := by
  have hlen : t.occupants.length = t.slots.countP Option.isSome := by
    rw [occupants, reduceOption_length_eq, countP_eq_length_filter]
  have hsplit := length_eq_countP_add_countP Option.isNone (l := t.slots)
  have hsome : t.slots.countP (fun o => ¬ o.isNone = true) = t.slots.countP Option.isSome := by
    apply countP_congr
    rintro (_ | a) -
    · simp
    · simp
  rw [hsome, t.length_slots] at hsplit
  rw [hlen]
  exact hsplit.symm

theorem exists_freeIndex (h : t.occupants.length < capacity) : ∃ i, t.freeIndex = some i := by
  have hfree := t.freeCount_add_length
  have hpos : 0 < t.freeCount := by omega
  obtain ⟨o, ho, hnone⟩ := countP_pos_iff.mp hpos
  have hsome : t.freeIndex.isSome := by
    rw [freeIndex, List.findIdx?_isSome, List.any_eq_true]
    exact ⟨o, ho, hnone⟩
  exact Option.isSome_iff_exists.mp hsome

/-- The first free cell in its table. -/
theorem slots_of_freeIndex (h : t.freeIndex = some index) :
    index < capacity ∧ t.slots = t.slots.take index ++ none :: t.slots.drop (index + 1) := by
  rw [freeIndex, List.findIdx?_eq_some_iff_getElem] at h
  obtain ⟨hlt, hnone, -⟩ := h
  refine ⟨by rwa [t.length_slots] at hlt, ?_⟩
  rw [isNone_iff_eq_none] at hnone
  rw [← hnone, getElem_cons_drop, take_append_drop]

/-- Filling the first free cell adds one occupant. -/
theorem perm_occupants_put (h : t.freeIndex = some index) (entry : α) :
    (t.put index (some entry)).occupants.Perm (entry :: t.occupants) := by
  obtain ⟨hlt, hslots⟩ := slots_of_freeIndex h
  have hold : t.occupants = (t.slots.take index).reduceOption ++
      (t.slots.drop (index + 1)).reduceOption := by
    conv_lhs => rw [occupants, hslots]
    rw [reduceOption_append, reduceOption_cons_of_none]
  have hnew : (t.put index (some entry)).occupants = (t.slots.take index).reduceOption ++
        entry :: (t.slots.drop (index + 1)).reduceOption := by
    change (t.slots.set index (some entry)).reduceOption = _
    rw [set_eq_take_append_cons_drop,
      if_pos (by rwa [t.length_slots]), reduceOption_append, reduceOption_cons_of_some]
  rw [hnew, hold]
  exact perm_middle

/-! ## Searching -/

/-- The entry of a cell, if there is one. -/
def get (t : SlotTable α capacity) (index : ℕ) : Option α :=
  t.slots[index]?.getD none

/-- The first cell with an entry that is searched for. -/
def findIndex (p : α → Bool) (t : SlotTable α capacity) : Option ℕ :=
  t.slots.findIdx? fun slot => slot.any p

theorem get_empty (index : ℕ) : (empty α capacity).get index = none := by
  simp only [get, empty, List.getElem?_replicate]
  split
  · rfl
  · rfl

theorem get_put (index i : ℕ) (entry : Option α) :
    (t.put index entry).get i =
      if i = index ∧ index < capacity then entry else t.get i := by
  simp only [get, put, List.getElem?_set, t.length_slots]
  by_cases heq : index = i
  · subst heq
    by_cases hlt : index < capacity
    · simp [hlt]
    · simp [hlt, t.length_slots]
  · simp [heq, Ne.symm heq]

theorem get_clear (p : α → Bool) (t : SlotTable α capacity) (i : ℕ) :
    (t.clear p).get i = (t.get i).filter fun entry => !p entry := by
  simp only [get, clear, List.getElem?_map]
  rcases t.slots[i]? with _ | slot
  · rfl
  · rfl

theorem get_put_self (h : index < capacity) (entry : Option α) :
    (t.put index entry).get index = entry := by
  rw [get_put, if_pos ⟨rfl, h⟩]

variable {i : ℕ}

theorem get_put_of_ne (h : i ≠ index) (entry : Option α) : (t.put index entry).get i = t.get i := by
  rw [get_put, if_neg fun hand => h hand.1]

/-- An entry of a filled table is the new one or an old one. -/
theorem get_put_some_cases {found : α} (h : (t.put index (some entry)).get i = some found) :
    i = index ∧ entry = found ∨ i ≠ index ∧ t.get i = some found := by
  by_cases heq : i = index
  · rw [get_put] at h
    split at h
    · exact .inl ⟨heq, Option.some.inj h⟩
    rw [get, List.getElem?_eq_none (by rw [t.length_slots]; omega)] at h
    cases h
  · rw [get_put_of_ne heq] at h
    exact .inr ⟨heq, h⟩

/-- An entry of a table with a freed cell stood there before. -/
theorem get_of_get_put_none (h : (t.put index none).get i = some entry) : t.get i = some entry := by
  rw [get_put] at h
  split at h
  · cases h
  · exact h

theorem lt_of_get (h : t.get index = some entry) : index < capacity := by
  by_contra hge
  rw [get, List.getElem?_eq_none (by rw [t.length_slots]; omega)] at h
  cases h

/-- Writing back what stands in a cell. -/
theorem put_self (h : t.get index = some entry) : t.put index (some entry) = t := by
  have hlt := lt_of_get h
  apply SlotTable.ext
  rw [← t.length_slots] at hlt
  rw [get, List.getElem?_eq_getElem hlt, getD_some] at h
  change t.slots.set index (some entry) = t.slots
  rw [← h, set_getElem_self]

theorem get_of_freeIndex (h : t.freeIndex = some index) : t.get index = none := by
  rw [freeIndex, List.findIdx?_eq_some_iff_getElem] at h
  obtain ⟨hlt, hnone, -⟩ := h
  rw [get, List.getElem?_eq_getElem hlt]
  exact isNone_iff_eq_none.mp hnone

theorem mem_occupants_of_get (h : t.get index = some entry) : entry ∈ t.occupants := by
  have hlt := lt_of_get h
  rw [get, List.getElem?_eq_getElem (by rwa [t.length_slots])] at h
  rw [mem_occupants, ← h]
  exact getElem_mem _

theorem exists_get_of_mem_occupants
    (h : entry ∈ t.occupants) : ∃ index, t.get index = some entry := by
  obtain ⟨index, hindex, hget⟩ := getElem_of_mem (mem_occupants.mp h)
  refine ⟨index, ?_⟩
  rw [get, List.getElem?_eq_getElem hindex, hget, getD_some]

variable {p : α → Bool}

/-- What a search finds is an entry, and no earlier entry is searched for. -/
theorem findIndex_spec (h : t.findIndex p = some index) :
    (∃ entry, t.get index = some entry ∧ p entry = true) ∧
      ∀ j < index, ∀ entry, t.get j = some entry → p entry = false := by
  rw [findIndex, List.findIdx?_eq_some_iff_getElem] at h
  obtain ⟨hlt, hp, hbefore⟩ := h
  constructor
  · obtain ⟨entry, hentry, hpe⟩ := (any_eq_true _ _).mp hp
    refine ⟨entry, ?_, hpe⟩
    rw [get, List.getElem?_eq_getElem hlt, getD_some, hentry]
  · intro j hj entry hentry
    have hnot := hbefore j hj
    rw [get, List.getElem?_eq_getElem (Nat.lt_trans hj hlt), getD_some] at hentry
    rw [hentry] at hnot
    simpa using hnot

theorem findIndex_zero
    (hget : t.get 0 = some entry) (hp : p entry = true) : t.findIndex p = some 0 := by
  rw [findIndex]
  rw [get] at hget
  revert hget
  rcases t.slots with _ | ⟨slot, slots⟩
  · intro hget
    cases hget
  · intro hget
    obtain rfl : slot = some entry := by simpa using hget
    simp [List.findIdx?_cons, hp]

theorem findIndex_none
    (h : t.findIndex p = none) (hget : t.get index = some entry) : p entry = false := by
  rw [findIndex, List.findIdx?_eq_none_iff] at h
  simpa using h _ (mem_occupants.mp (mem_occupants_of_get hget))

variable {xs : List (Option α)} {entry : Option α}

theorem find?_reduceOption_set (hold : ∀ a, xs[index]?.getD none = some a → p a = false)
    (hnew : ∀ a ∈ entry, p a = false) : (xs.set index entry).reduceOption.find? p =
      xs.reduceOption.find? p := by
  induction xs generalizing index with
  | nil => simp
  | cons x xs ih =>
    cases index with
    | zero =>
      have hskip : ∀ o : Option α, (∀ a ∈ o, p a = false) → (o :: xs).reduceOption.find? p =
            xs.reduceOption.find? p := by
        rintro (_ | a) ha
        · rw [reduceOption_cons_of_none]
        · rw [reduceOption_cons_of_some, List.find?_cons_of_neg (by simp [ha a rfl])]
      rw [set_cons_zero, hskip entry hnew, hskip x fun a ha => hold a (by simpa using ha)]
    | succ index =>
      have hrest : (xs.set index entry).reduceOption.find? p =
          xs.reduceOption.find? p := ih (by simpa using hold)
      rw [set_cons_succ]
      cases x with
      | none =>
        rw [reduceOption_cons_of_none, reduceOption_cons_of_none, hrest]
      | some a =>
        rw [reduceOption_cons_of_some, reduceOption_cons_of_some, List.find?_cons,
          List.find?_cons, hrest]

/-- Overwriting a cell that is not searched for, before or after. -/
theorem find?_put_of_false (hold : ∀ a, t.get index = some a → p a = false)
    (hnew : ∀ a ∈ entry, p a = false) :
    (t.put index entry).occupants.find? p = t.occupants.find? p :=
  find?_reduceOption_set hold hnew

variable {a : α}

theorem find?_reduceOption_set_first (hindex : index < xs.length) (ha : p a = true)
    (hbefore : ∀ j < index, ∀ b, xs[j]?.getD none = some b → p b = false) :
    (xs.set index (some a)).reduceOption.find? p = some a := by
  induction xs generalizing index with
  | nil => simp at hindex
  | cons x xs ih =>
    cases index with
    | zero =>
      rw [set_cons_zero, reduceOption_cons_of_some, List.find?_cons_of_pos ha]
    | succ index =>
      have hrest : (xs.set index (some a)).reduceOption.find? p =
          some a := ih (by simpa using hindex) fun j hj b hb =>
        hbefore (j + 1) (by omega) b (by simpa using hb)
      rw [set_cons_succ]
      cases x with
      | none => rw [reduceOption_cons_of_none, hrest]
      | some b =>
        have hb := hbefore 0 (by omega) b (by simp)
        rw [reduceOption_cons_of_some, List.find?_cons_of_neg (by simp [hb]), hrest]

theorem find?_reduceOption (p : α → Bool) (xs : List (Option α)) : xs.reduceOption.find? p =
      (xs.findIdx? fun slot => slot.any p).bind fun i =>
        xs[i]?.getD none := by
  induction xs with
  | nil => rfl
  | cons x xs ih =>
    cases x with
    | none =>
      rw [reduceOption_cons_of_none, ih, List.findIdx?_cons, if_neg (by simp), Option.bind_map]
      rfl
    | some a =>
      rw [reduceOption_cons_of_some, List.findIdx?_cons]
      by_cases ha : p a = true
      · simp [ha]
      · rw [List.find?_cons_of_neg ha, ih, if_neg (by simpa using ha), Option.bind_map]
        rfl

/-- Searching the occupants finds what searching the cells finds. -/
theorem find?_occupants (p : α → Bool) (t : SlotTable α capacity) :
    t.occupants.find? p = (t.findIndex p).bind t.get :=
  find?_reduceOption p t.slots

theorem find?_reduceOption_set_replaced {b : α} (hget : xs[index]?.getD none = some a)
    (hp : p a = p b) :
    (xs.set index (some b)).reduceOption.find? p = xs.reduceOption.find? p ∨
      (xs.set index (some b)).reduceOption.find? p = some b ∧ xs.reduceOption.find? p = some a := by
  induction xs generalizing index with
  | nil => simp at hget
  | cons x xs ih =>
    cases index with
    | zero =>
      obtain rfl : x = some a := by simpa using hget
      rw [set_cons_zero, reduceOption_cons_of_some,
        reduceOption_cons_of_some, List.find?_cons, List.find?_cons, hp]
      cases p b
      · exact .inl rfl
      · exact .inr ⟨rfl, rfl⟩
    | succ index =>
      have hrest := ih (show xs[index]?.getD none = some a by simpa using hget)
      rw [set_cons_succ]
      cases x with
      | none => simpa [reduceOption_cons_of_none] using hrest
      | some c =>
        rw [reduceOption_cons_of_some, reduceOption_cons_of_some, List.find?_cons, List.find?_cons]
        cases p c
        · exact hrest
        · exact .inl rfl

/-! ## Packed tables -/

/-- Every free cell lies behind every occupied cell. -/
def Packed (t : SlotTable α capacity) : Prop :=
  t.slots = t.occupants.map some ++ List.replicate (capacity - t.occupants.length) none

theorem packed_empty : (empty α capacity).Packed := by
  simp [Packed, empty, occupants]

theorem Packed.map (h : t.Packed) (f : α → β) : (t.map f).Packed := by
  have hslots : (t.map f).slots = (t.occupants.map some ++
        List.replicate (capacity - t.occupants.length) none).map (Option.map f) := by
    rw [← h]
    rfl
  rw [Packed, hslots]
  simp [List.map_map]

theorem findIdx?_isNone_map_some_append (xs : List α) (n : ℕ) :
    (xs.map some ++ List.replicate n none).findIdx? Option.isNone =
      if n = 0 then none else some xs.length := by
  induction xs with
  | nil =>
    cases n with
    | zero => simp
    | succ n => simp
  | cons x xs ih =>
    simp only [map_cons, cons_append, List.findIdx?_cons,
      isNone_some, Bool.false_eq_true, if_false, ih]
    split <;> simp

/-- In a packed table the first free cell follows the last occupied one. -/
theorem Packed.freeIndex_eq (h : t.Packed) : t.freeIndex =
      if t.occupants.length < capacity then some t.occupants.length
      else none := by
  rw [freeIndex, h, findIdx?_isNone_map_some_append]
  by_cases hlt : t.occupants.length < capacity
  · have hne : capacity - t.occupants.length ≠ 0 := by omega
    simp [hlt, hne]
  · have heq : capacity - t.occupants.length = 0 := by omega
    simp [hlt, heq]

theorem Packed.lt_of_freeIndex (h : t.Packed) (hindex : t.freeIndex = some index) :
    index = t.occupants.length ∧ t.occupants.length < capacity := by
  rw [h.freeIndex_eq] at hindex
  by_cases hlt : t.occupants.length < capacity
  · rw [if_pos hlt] at hindex
    exact ⟨(Option.some.inj hindex).symm, hlt⟩
  · simp [hlt] at hindex

theorem Packed.slots_put (h : t.Packed)
    (hlt : t.occupants.length < capacity) (entry : α) :
    (t.put t.occupants.length (some entry)).slots = (t.occupants ++ [entry]).map some ++
        List.replicate (capacity - (t.occupants.length + 1)) none := by
  have hsplit : capacity - t.occupants.length =
      (capacity - (t.occupants.length + 1)) + 1 := by omega
  change t.slots.set t.occupants.length (some entry) = _
  conv_lhs => rw [h]
  rw [hsplit, replicate_succ]
  simp

/-- Filling the first free cell of a packed table appends one occupant. -/
theorem Packed.occupants_put (h : t.Packed)
    (hindex : t.freeIndex = some index) (entry : α) :
    (t.put index (some entry)).occupants = t.occupants ++ [entry] := by
  obtain ⟨rfl, hlt⟩ := h.lt_of_freeIndex hindex
  change (t.put t.occupants.length (some entry)).slots.reduceOption = _
  rw [h.slots_put hlt, reduceOption_append]
  simp [List.reduceOption]

theorem Packed.put (h : t.Packed)
    (hindex : t.freeIndex = some index) (entry : α) : (t.put index (some entry)).Packed := by
  have hocc := h.occupants_put hindex entry
  obtain ⟨rfl, hlt⟩ := h.lt_of_freeIndex hindex
  rw [Packed, hocc, h.slots_put hlt]
  simp

end SlotTable

end ExpOS
