import ExpOS.Support.SlotTable
import Mathlib.Data.List.MinMax

/-!
# Tables that keep the last entries of a log

A table that is filled from its first cell on, and then overwrites its cells
in turn, holds the last entries of the log of everything put into it.
-/

namespace ExpOS.SlotTable

open List Option

variable {α β : Type*} {capacity : ℕ}

/-! ## Cells -/

variable {index : ℕ}

variable {t : SlotTable α capacity}

theorem get_eq_getElem (h : index < t.slots.length) : t.get index = t.slots[index] := by
  rw [get, List.getElem?_eq_getElem h, getD_some]

theorem ext_get {s : SlotTable α capacity}
    (h : ∀ index < capacity, s.get index = t.get index) : s = t := by
  refine SlotTable.ext (ext_getElem ?_ fun index hs ht => ?_)
  · rw [s.length_slots, t.length_slots]
  · rw [← get_eq_getElem hs, ← get_eq_getElem ht]
    exact h index (by rwa [s.length_slots] at hs)

theorem get_map (f : α → β) (t : SlotTable α capacity) (index : ℕ) :
    (t.map f).get index = (t.get index).map f := by
  rw [get, get, map, List.getElem?_map]
  rcases t.slots[index]? with _ | cell <;> rfl

theorem map_put (f : α → β) (t : SlotTable α capacity) (index : ℕ) (entry : α) :
    (t.put index (some entry)).map f = (t.map f).put index (some (f entry)) := by
  simp [map, put]

theorem freeIndex_eq_some (hindex : index < capacity) (hfree : t.get index = none)
    (hfirst : ∀ i < index, t.get i ≠ none) : t.freeIndex = some index := by
  rw [freeIndex, List.findIdx?_eq_some_iff_getElem]
  have hlen : index < t.slots.length := by rwa [t.length_slots]
  refine ⟨hlen, ?_, fun i hi => ?_⟩
  · rw [← get_eq_getElem hlen, hfree]
    rfl
  · rw [← get_eq_getElem (Nat.lt_trans hi hlen)]
    simpa using hfirst i hi

theorem freeIndex_eq_none (h : ∀ index < capacity, t.get index ≠ none) : t.freeIndex = none := by
  rw [freeIndex, List.findIdx?_eq_none_iff]
  intro cell hcell
  obtain ⟨index, hindex, rfl⟩ := getElem_of_mem hcell
  rw [← get_eq_getElem hindex]
  have hne := h index (by rwa [t.length_slots] at hindex)
  rwa [isNone_eq_false_iff, isSome_iff_ne_none]

/-- Overwriting a cell replaces what it held. -/
theorem perm_occupants_overwrite (h : index < capacity) (entry : α) :
    ((t.get index).toList ++ (t.put index (some entry)).occupants).Perm (entry :: t.occupants) := by
  have hlen : index < t.slots.length := by rwa [t.length_slots]
  have hold : t.slots = t.slots.take index ++ t.get index :: t.slots.drop (index + 1) := by
    rw [get_eq_getElem hlen, getElem_cons_drop, take_append_drop]
  have hnew : (t.put index (some entry)).slots = t.slots.take index ++
      some entry :: t.slots.drop (index + 1) := by
    change t.slots.set index (some entry) = _
    rw [set_eq_take_append_cons_drop, if_pos hlen]
  rw [occupants, occupants, hnew]
  conv_rhs => rw [hold]
  rcases t.get index with _ | old
  · simp [reduceOption_append]
  · simp only [reduceOption_append]
    exact (perm_middle.cons old).trans ((List.Perm.swap _ _ _).trans (perm_middle.symm.cons entry))

variable {entry : α}

/-- Freeing a cell takes away what it held. -/
theorem perm_occupants_free
    (h : t.get index = some entry) : t.occupants.Perm (entry :: (t.put index none).occupants) := by
  have hlt := lt_of_get h
  have hback : (t.put index none).put index (some entry) = t := by
    rw [put_put, put_self h]
  have hperm := @perm_occupants_overwrite α capacity index (t.put index none) hlt entry
  rwa [hback, get_put_self hlt] at hperm

/-- Overwriting an occupied cell keeps the number of occupants. -/
theorem length_occupants_replace (h : t.get index = some entry) (entry' : α) :
    (t.put index (some entry')).occupants.length = t.occupants.length := by
  have hperm := (@perm_occupants_overwrite α capacity index t (lt_of_get h) entry').length_eq
  rw [h, toList_some, length_append, Nat.add_comm] at hperm
  exact Nat.succ.inj hperm

/-! ## The ring of a log -/

theorem filterMap_getElem?_range (xs : List α) :
    (List.range xs.length).filterMap (fun index => xs[index]?) = xs := by
  induction xs with
  | nil => rfl
  | cons x xs ih =>
    rw [length_cons, range_succ_eq_map, filterMap_cons, filterMap_map]
    exact congrArg (x :: ·) ih

/-- The entries of a log put into the cells in turn. -/
def ring (capacity : ℕ) (log : List α) : SlotTable α capacity :=
  log.zipIdx.foldl
    (fun t (entry, k) => t.put (k % capacity) (some entry))
    (empty α capacity)

theorem ring_concat (log : List α) (entry : α) : ring capacity (log ++ [entry]) =
      (ring capacity log).put (log.length % capacity) (some entry) := by
  simp [ring, zipIdx_append]

variable {log : List α}

/-- A cell holds the last entry whose turn it was. -/
theorem get_ring (hindex : index < capacity) : (ring capacity log).get index = some entry ↔
      ∃ k, log[k]? = some entry ∧ log.length ≤ k + capacity ∧ k % capacity = index := by
  induction log using List.reverseRecOn with
  | nil => simp [ring, get, empty, hindex]
  | append_singleton log last ih =>
    rw [ring_concat]
    constructor
    · intro hget
      rcases get_put_some_cases hget with ⟨rfl, rfl⟩ | ⟨hne, hold⟩
      · exact ⟨log.length, by simp, by simp; omega, rfl⟩
      obtain ⟨k, hk, hrecent, hturn⟩ := ih.mp hold
      have hlt := (List.getElem?_eq_some_iff.mp hk).1
      refine ⟨k, by rwa [List.getElem?_append_left hlt], ?_, hturn⟩
      -- an entry of full age would stand in the cell of the new one
      have hage : log.length ≠ k + capacity := by
        intro heq
        rw [heq, Nat.add_mod_right, hturn] at hne
        exact hne rfl
      simp only [length_append, length_singleton]
      omega
    · rintro ⟨k, hk, hrecent, rfl⟩
      simp only [length_append, length_singleton] at hrecent
      rcases Nat.lt_trichotomy k log.length with hlt | rfl | hgt
      · rw [List.getElem?_append_left hlt] at hk
        have hne : k % capacity ≠ log.length % capacity := by
          intro heq
          have hzero := Nat.sub_mod_eq_zero_of_mod_eq heq.symm
          rw [Nat.mod_eq_of_lt (by omega)] at hzero
          omega
        rw [get_put_of_ne hne]
        exact ih.mpr ⟨k, hk, by omega, rfl⟩
      · rw [get_put_self hindex]
        simpa using hk
      · rw [List.getElem?_eq_none (by simp; omega)] at hk
        cases hk

theorem ring_map (f : α → β) (log : List α) :
    (ring capacity log).map f = ring capacity (log.map f) := by
  induction log using List.reverseRecOn with
  | nil => simp [ring, map, empty]
  | append_singleton log last ih =>
    rw [ring_concat, map_put, map_append, map_singleton, ring_concat, ← ih, length_map]

/-- Cells are occupied in turn. -/
theorem get_ring_ne_none (hindex : index < capacity) :
    (ring capacity log).get index ≠ none ↔ index < log.length := by
  rw [ne_none_iff_exists']
  constructor
  · rintro ⟨entry, hentry⟩
    obtain ⟨k, hk, -, rfl⟩ := (get_ring hindex).mp hentry
    exact Nat.lt_of_le_of_lt (Nat.mod_le _ _) (List.getElem?_eq_some_iff.mp hk).1
  intro hlt
  -- the last turn of the cell
  let age := (log.length - 1 - index) % capacity
  have hage : age < capacity := Nat.mod_lt _ (by omega)
  have hdiv := Nat.mod_add_div (log.length - 1 - index) capacity
  have hk : log.length - 1 - age < log.length := by omega
  refine ⟨log[log.length - 1 - age], (get_ring hindex).mpr
    ⟨log.length - 1 - age, List.getElem?_eq_getElem hk, by omega, ?_⟩⟩
  have hturn : log.length - 1 - age = index +
      capacity * ((log.length - 1 - index) / capacity) := by omega
  rw [hturn, Nat.add_mul_mod_self_left, Nat.mod_eq_of_lt hindex]

/-- The cell whose turn it is holds the oldest entry of a full table. -/
theorem get_ring_full (hcapacity : 0 < capacity) (hfull : capacity ≤ log.length) :
    (ring capacity log).get (log.length % capacity) =
      some (log.get ⟨log.length - capacity, by omega⟩) :=
  (get_ring (Nat.mod_lt _ hcapacity)).mpr ⟨log.length - capacity,
    List.getElem?_eq_getElem _, by omega, (Nat.mod_eq_sub_mod hfull).symm⟩

/-- The entries that are kept, counted from the oldest one. -/
theorem get_ring_age (hcapacity : 0 < capacity)
    (hindex : index < min log.length capacity) :
    (ring capacity log).get ((log.length - capacity + index) % capacity) =
      (log.drop (log.length - capacity))[index]? := by
  have hlt : log.length - capacity + index < log.length := by omega
  rw [List.getElem?_drop, List.getElem?_eq_getElem hlt]
  exact (get_ring (Nat.mod_lt _ hcapacity)).mpr ⟨_, List.getElem?_eq_getElem hlt, by omega, rfl⟩

/-- The occupied cells hold the last entries of the log. -/
theorem perm_occupants_ring (log : List α) (hcapacity : 0 < capacity) :
    (ring capacity log).occupants.Perm (log.drop (log.length - capacity)) := by
  induction log using List.reverseRecOn with
  | nil => simp [ring]
  | append_singleton log last ih =>
    have hturn : log.length % capacity < capacity := Nat.mod_lt _ hcapacity
    have hput := perm_occupants_overwrite (t := ring capacity log) hturn last
    rw [ring_concat, length_append, length_singleton]
    rcases Nat.lt_or_ge log.length capacity with hlt | hge
    · have hfree : (ring capacity log).get (log.length % capacity) = none := by
        by_contra hne
        have h := (get_ring_ne_none hturn).mp hne
        rw [Nat.mod_eq_of_lt hlt] at h
        omega
      rw [hfree] at hput
      rw [Nat.sub_eq_zero_of_le hlt]
      rw [Nat.sub_eq_zero_of_le (Nat.le_of_lt hlt)] at ih
      exact (hput.trans (ih.cons last)).trans (perm_append_singleton last log).symm
    · have hk : log.length - capacity < log.length := by omega
      rw [get_ring_full hcapacity hge] at hput
      rw [drop_eq_getElem_cons hk] at ih
      have hrest := (hput.trans (ih.cons last)).trans (List.Perm.swap _ _ _)
      rw [Nat.sub_add_comm hge, drop_append_of_le_length (by omega)]
      exact hrest.cons_inv.trans (perm_append_singleton last _).symm

/-- The first free cell is the next one, as long as there is one. -/
theorem freeIndex_ring (log : List α) : (ring capacity log).freeIndex =
      if log.length < capacity then some log.length else none := by
  split
  · next hlt =>
      refine freeIndex_eq_some hlt ?_ fun i hi => ?_
      · by_contra hne
        exact absurd ((get_ring_ne_none hlt).mp hne) (Nat.lt_irrefl _)
      · exact (get_ring_ne_none (Nat.lt_trans hi hlt)).mpr hi
  exact freeIndex_eq_none fun i hi => (get_ring_ne_none hi).mpr (by omega)

/-! ## Overwriting the oldest entry -/

variable {γ : Type*}

/-- The cells with a key of their entry. -/
def keyedCells (key : α → γ) (t : SlotTable α capacity) : List (ℕ × γ) :=
  t.slots.zipIdx.filterMap fun (cell, index) =>
    cell.map fun entry => (index, key entry)

variable {key : α → γ}

theorem mem_keyedCells {k : γ} : (index, k) ∈ t.keyedCells key ↔
      ∃ entry, t.get index = some entry ∧ key entry = k := by
  simp only [keyedCells, mem_filterMap, Prod.exists, mk_mem_zipIdx_iff_getElem?, get]
  constructor
  · rintro ⟨cell, i, hcell, hkey⟩
    obtain ⟨entry, rfl, hpair⟩ := map_eq_some_iff.mp hkey
    cases hpair
    exact ⟨entry, by rw [hcell, getD_some], rfl⟩
  rintro ⟨entry, hget, rfl⟩
  refine ⟨some entry, index, ?_, rfl⟩
  rcases hcell : t.slots[index]? with _ | cell
  · rw [hcell] at hget
    cases hget
  · rw [hcell, getD_some] at hget
    rw [hget]

/-- If keys grow along the log, the oldest entry of a full table stands in
the cell whose turn it is. -/
theorem argmin_keyedCells_ring {rank : γ → ℕ} (hcapacity : 0 < capacity)
    (hfull : capacity ≤ log.length)
    (hkeys : log.Pairwise fun a b => rank (key a) < rank (key b)) :
    (((ring capacity log).keyedCells key).argmin fun cell => rank cell.2).map Prod.fst =
        some (log.length % capacity) := by
  have hmem : (log.length % capacity, key _) ∈ (ring capacity log).keyedCells key :=
    mem_keyedCells.mpr ⟨_, get_ring_full hcapacity hfull, rfl⟩
  rcases hmin : ((ring capacity log).keyedCells key).argmin
    (fun cell => rank cell.2) with _ | ⟨index, k⟩
  · rw [argmin_eq_none] at hmin
    rw [hmin] at hmem
    cases hmem
  obtain ⟨entry, hget, rfl⟩ := mem_keyedCells.mp (argmin_mem hmin)
  obtain ⟨k, hk, hrecent, hturn⟩ := (get_ring (lt_of_get hget)).mp hget
  obtain ⟨hlt, rfl⟩ := List.getElem?_eq_some_iff.mp hk
  rcases eq_or_ne k (log.length - capacity) with heq | hne
  · rw [heq, ← Nat.mod_eq_sub_mod hfull] at hturn
    rw [hmin, map_some, hturn]
  · have hle := le_of_mem_argmin hmem hmin
    have hgt := pairwise_iff_getElem.mp hkeys (log.length - capacity) k (by omega) hlt (by omega)
    exact absurd hle (Nat.not_le.mpr hgt)

end ExpOS.SlotTable
