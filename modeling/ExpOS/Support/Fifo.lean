import ExpOS.Support.Ring
import Mathlib.Data.Nat.ModEq

/-!
# Queues in circular tables

A queue is kept in a table whose cells are gone through in turn: entries are
put behind the last one and taken from the place of the first.  The table
holds a list when the cells from that place on hold its entries and every
other cell is free.
-/

namespace ExpOS.Fifo

open List SlotTable

variable {α : Type*} {capacity head count : ℕ}
variable {cells : SlotTable α capacity} {entries : List α} {entry : α}

/-- The contents of a number of cells from one place on. -/
def window (capacity : ℕ) (cells : ℕ → α) (head count : ℕ) : List α :=
  (range count).map fun i => cells ((head + i) % capacity)

/-- Different offsets below the capacity are different places. -/
theorem place_injective {i j : ℕ} (hi : i < capacity) (hj : j < capacity)
    (h : (head + i) % capacity = (head + j) % capacity) : i = j := by
  have hcongr : Nat.ModEq capacity i j := Nat.ModEq.add_left_cancel' head h
  exact Nat.ModEq.eq_of_lt_of_lt hcongr hi hj

/-- The table holds these entries, the oldest first, and nothing else. -/
structure Holds (cells : SlotTable α capacity) (head count : ℕ) (entries : List α) : Prop where
  head_lt : head < capacity
  count_eq : count = entries.length
  count_le : count ≤ capacity
  get_eq : ∀ offset < capacity, cells.get ((head + offset) % capacity) = entries[offset]?

theorem holds_empty (hcapacity : 0 < capacity) (hhead : head < capacity) :
    Holds (.empty α capacity) head 0 [] where
  head_lt := hhead
  count_eq := rfl
  count_le := hcapacity.le
  get_eq offset _ := by rw [get_empty, getElem?_nil]

namespace Holds

variable {index : ℕ}

/-- Every place is some number of places behind the first one. -/
theorem exists_offset (h : Holds cells head count entries) (hindex : index < capacity) :
    ∃ offset < capacity, index = (head + offset) % capacity := by
  have hhead := h.head_lt
  rcases Nat.lt_or_ge index head with hlt | hge
  · refine ⟨index + capacity - head, by omega, ?_⟩
    have hsum : head + (index + capacity - head) = index + capacity := by omega
    rw [hsum, Nat.add_mod_right, Nat.mod_eq_of_lt hindex]
  · refine ⟨index - head, by omega, ?_⟩
    have hsum : head + (index - head) = index := by omega
    rw [hsum, Nat.mod_eq_of_lt hindex]

/-- The occupied cells are the ones from the first place up to the count. -/
theorem isSome_get_iff (h : Holds cells head count entries) (hindex : index < capacity) :
    (cells.get index).isSome ↔ ∃ offset < count, index = (head + offset) % capacity := by
  constructor
  · intro hsome
    obtain ⟨offset, hoffset, rfl⟩ := h.exists_offset hindex
    refine ⟨offset, ?_, rfl⟩
    rw [h.get_eq offset hoffset, isSome_getElem?] at hsome
    rwa [h.count_eq]
  · rintro ⟨offset, hoffset, rfl⟩
    rw [h.get_eq offset (hoffset.trans_le h.count_le), isSome_getElem?, ← h.count_eq]
    exact hoffset

/-- The window of the table spells the entries. -/
theorem window_eq (h : Holds cells head count entries) :
    (window capacity cells.get head count).reduceOption = entries := by
  have hmap : window capacity cells.get head count =
      (range entries.length).map fun i => entries[i]? := by
    rw [h.count_eq]
    apply map_congr_left
    intro i hi
    apply h.get_eq
    have hlt := mem_range.mp hi
    have hle := h.count_le
    rw [h.count_eq] at hle
    omega
  rw [hmap, reduceOption, filterMap_map]
  exact filterMap_getElem?_range entries

/-- An entry goes to the place behind the last one. -/
theorem push (h : Holds cells head count entries) (hroom : count < capacity) (entry : α) :
    Holds (cells.put ((head + count) % capacity) (some entry)) head (count + 1)
      (entries ++ [entry]) where
  head_lt := h.head_lt
  count_eq := by
    rw [length_append, length_singleton, h.count_eq]
  count_le := hroom
  get_eq offset hoffset := by
    have hcount := h.count_eq
    by_cases heq : offset = count
    · subst heq
      rw [get_put_self (Nat.mod_lt _ (Nat.zero_lt_of_lt hroom)), hcount,
        getElem?_concat_length]
    have hplace : (head + offset) % capacity ≠ (head + count) % capacity :=
      fun hsame => heq (place_injective hoffset hroom hsame)
    rw [get_put_of_ne hplace, h.get_eq offset hoffset]
    rcases Nat.lt_or_ge offset entries.length with hlt | hge
    · rw [getElem?_append_left hlt]
    · rw [getElem?_eq_none hge, getElem?_eq_none]
      rw [length_append, length_singleton]
      omega

/-- The first entry stands at the first place. -/
theorem get_head (h : Holds cells head count (entry :: entries)) : cells.get head = some entry := by
  have hpos : 0 < capacity := Nat.zero_lt_of_lt h.head_lt
  have hget := h.get_eq 0 hpos
  rwa [Nat.add_zero, Nat.mod_eq_of_lt h.head_lt] at hget

/-- The first entry is taken and its cell is freed. -/
theorem pop (h : Holds cells head count (entry :: entries)) :
    Holds (cells.put head none) ((head + 1) % capacity) (count - 1) entries where
  head_lt := Nat.mod_lt _ (Nat.zero_lt_of_lt h.head_lt)
  count_eq := by
    rw [h.count_eq, length_cons, Nat.add_sub_cancel]
  count_le := (Nat.sub_le _ _).trans h.count_le
  get_eq offset hoffset := by
    have hcount := h.count_eq
    have hle := h.count_le
    rw [length_cons] at hcount
    rw [Nat.mod_add_mod, Nat.add_assoc, Nat.add_comm 1]
    rcases Nat.lt_or_ge (offset + 1) capacity with hlt | hge
    · have hplace : (head + (offset + 1)) % capacity ≠ head := by
        intro hsame
        have hzero : (head + (offset + 1)) % capacity = (head + 0) % capacity := by
          rw [hsame, Nat.add_zero, Nat.mod_eq_of_lt h.head_lt]
        have := place_injective hlt (by omega) hzero
        omega
      rw [get_put_of_ne hplace, h.get_eq _ hlt, getElem?_cons_succ]
    · -- one place before the first is the last place of the table
      have hlast : offset + 1 = capacity := by omega
      rw [hlast, Nat.add_mod_right, Nat.mod_eq_of_lt h.head_lt, get_put_self h.head_lt,
        getElem?_eq_none (by omega)]

/-- An entry is replaced where it stands. -/
theorem modify (h : Holds cells head count entries) {offset : ℕ} (hoffset : offset < count)
    (entry : α) :
    Holds (cells.put ((head + offset) % capacity) (some entry)) head count
      (entries.set offset entry) where
  head_lt := h.head_lt
  count_eq := by rw [length_set, h.count_eq]
  count_le := h.count_le
  get_eq i hi := by
    have hlt : offset < entries.length := by rwa [← h.count_eq]
    have hcapacity := hoffset.trans_le h.count_le
    by_cases heq : i = offset
    · subst heq
      rw [get_put_self (Nat.mod_lt _ (Nat.zero_lt_of_lt hi)), getElem?_set_self hlt]
    · have hplace : (head + i) % capacity ≠ (head + offset) % capacity :=
        fun hsame => heq (place_injective hi hcapacity hsame)
      rw [get_put_of_ne hplace, h.get_eq i hi, getElem?_set_ne (Ne.symm heq)]

end Holds

end ExpOS.Fifo
