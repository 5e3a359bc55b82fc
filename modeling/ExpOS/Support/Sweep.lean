import Mathlib.Order.WellFoundedSet

/-!
# Switches that need one another

Each switch of a board may be on only if it is allowed to be and all the
switches it needs are on.  A sweep sets the switches of a list one after the
other, each by what the board shows at that moment, and sweeps are repeated in
the hope that nothing changes any more.

A switch is settled once no later sweep changes it.  If a sweep settles no
further switch while some are unsettled, each of those needs another one of
them.  So the sweeps settle the whole list, one switch at a time at least,
where no switch needs itself through others.
-/

namespace ExpOS

open List

universe u

variable {ι : Type u}

structure Board (ι : Type u) where
  Allowed : ι → Prop
  Needs : ι → ι → Prop

namespace Board

variable (b : Board ι)

/-- The switch may be on while those in `on` are. -/
def Ready (on : Set ι) (i : ι) : Prop :=
  b.Allowed i ∧ ∀ j, b.Needs i j → j ∈ on

/-- Set one switch by what the board shows. -/
def update (on : Set ι) (i : ι) : Set ι :=
  {j | (j = i ∧ b.Ready on i) ∨ (j ≠ i ∧ j ∈ on)}

/-- Set the switches of a list one after the other. -/
def sweep (order : List ι) (on : Set ι) : Set ι :=
  order.foldl b.update on

variable {b} {on : Set ι} {i j : ι} {order : List ι}

theorem mem_update_self : i ∈ b.update on i ↔ b.Ready on i := by
  simp [update]

theorem mem_update_of_ne (h : j ≠ i) : j ∈ b.update on i ↔ j ∈ on := by
  simp [update, h]

@[simp] theorem sweep_cons : b.sweep (i :: order) on = b.sweep order (b.update on i) := rfl

variable {first second : List ι}

theorem sweep_append : b.sweep (first ++ second) on = b.sweep second (b.sweep first on) := by
  simp [sweep]

theorem mem_sweep_of_notMem (h : i ∉ order) : i ∈ b.sweep order on ↔ i ∈ on := by
  induction order generalizing on with
  | nil => rfl
  | cons k rest ih =>
    rw [mem_cons, not_or] at h
    rw [sweep_cons, ih h.2, mem_update_of_ne h.1]

/-- In the middle of a sweep over different switches each one shows its value
from before or the one from after. -/
theorem mem_sweep_part (on : Set ι)
    (hnodup : (first ++ second).Nodup) (j : ι) : (j ∈ b.sweep first on ↔ j ∈ on) ∨
      (j ∈ b.sweep first on ↔ j ∈ b.sweep (first ++ second) on) := by
  by_cases h : j ∈ first
  · right
    have hsecond : j ∉ second := fun hj => disjoint_of_nodup_append hnodup h hj
    rw [sweep_append, mem_sweep_of_notMem hsecond]
  · left
    exact mem_sweep_of_notMem h

/-- A switch of the list is set by a board between those before and after the
sweep. -/
theorem exists_between (on : Set ι) (hnodup : order.Nodup) (hi : i ∈ order) : ∃ mid : Set ι,
      (∀ j, (j ∈ mid ↔ j ∈ on) ∨ (j ∈ mid ↔ j ∈ b.sweep order on)) ∧
        (i ∈ b.sweep order on ↔ b.Ready mid i) := by
  obtain ⟨first, second, rfl⟩ := append_of_mem hi
  refine ⟨b.sweep first on, mem_sweep_part on hnodup, ?_⟩
  have hsecond : i ∉ second := (nodup_cons.mp (nodup_append.mp hnodup).2.1).1
  rw [sweep_append, sweep_cons, mem_sweep_of_notMem hsecond, mem_update_self]

/-! ## Settled switches -/

/-- The board after a number of sweeps. -/
def swept (b : Board ι) (order : List ι) (on : Set ι) (t : ℕ) : Set ι :=
  (b.sweep order)^[t] on

/-- The switches that a sweep after the first `t` still changes. -/
def unsettled (b : Board ι) (order : List ι) (on : Set ι) (t : ℕ) : Set ι :=
  {i | ∃ s, t ≤ s ∧ ¬ (i ∈ b.swept order on s ↔ i ∈ b.swept order on t)}

theorem swept_succ (t : ℕ) : b.swept order on (t + 1) = b.sweep order (b.swept order on t) := by
  rw [swept, Function.iterate_succ_apply']
  rfl

variable {t : ℕ}

theorem notMem_unsettled : i ∉ b.unsettled order on t ↔
      ∀ s, t ≤ s → (i ∈ b.swept order on s ↔ i ∈ b.swept order on t) := by
  simp [unsettled]

theorem unsettled_antitone {s : ℕ} (h : s ≤ t) :
    b.unsettled order on t ⊆ b.unsettled order on s := by
  intro i hi
  by_contra hs
  rw [notMem_unsettled] at hs
  obtain ⟨r, hr, hne⟩ := hi
  apply hne
  rw [hs r (h.trans hr), hs t h]

theorem unsettled_subset (h : i ∈ b.unsettled order on t) : i ∈ order := by
  by_contra hi
  have hfixed : ∀ s, i ∈ b.swept order on s ↔ i ∈ on := by
    intro s
    induction s with
    | zero => rfl
    | succ s ih => rw [swept_succ, mem_sweep_of_notMem hi, ih]
  obtain ⟨s, -, hne⟩ := h
  apply hne
  rw [hfixed, hfixed]

/-- The board after one more sweep, seen from a switch of the list. -/
theorem mem_swept_succ (on : Set ι) (hnodup : order.Nodup) (hi : i ∈ order) (s : ℕ) : ∃ mid : Set ι,
      (∀ j, (j ∈ mid ↔ j ∈ b.swept order on s) ∨ (j ∈ mid ↔ j ∈ b.swept order on (s + 1))) ∧
        (i ∈ b.swept order on (s + 1) ↔ b.Ready mid i) := by
  rw [swept_succ]
  exact exists_between _ hnodup hi

/-- A switch of the list whose settings after `t` sweeps are all alike is
settled by the next one. -/
theorem notMem_unsettled_succ {value : Prop}
    (h : ∀ s, t ≤ s → (i ∈ b.swept order on (s + 1) ↔ value)) :
    i ∉ b.unsettled order on (t + 1) := by
  rw [notMem_unsettled]
  intro s hs
  obtain ⟨r, rfl⟩ : ∃ r, s = r + 1 := ⟨s - 1, by omega⟩
  rw [h r (by omega), h t le_rfl]

/-- If a sweep settles no further switch, each unsettled one is allowed and
needs another unsettled one. -/
theorem stuck (hnodup : order.Nodup) (hsame : b.unsettled order on t ⊆ b.unsettled order on (t + 1))
    (hi : i ∈ b.unsettled order on t) :
    b.Allowed i ∧ ∃ j ∈ b.unsettled order on t, b.Needs i j := by
  have horder := unsettled_subset hi
  -- If all settings of the switch had one value it would be settled.
  have hvaries : ∀ value : Prop, ¬ ∀ s, t ≤ s → (i ∈ b.swept order on (s + 1) ↔ value) :=
    fun value h => notMem_unsettled_succ h (hsame hi)
  have hsettled : ∀ j, j ∉ b.unsettled order on t → ∀ s, t ≤ s →
      ∀ mid : Set ι, ((j ∈ mid ↔ j ∈ b.swept order on s) ∨
        (j ∈ mid ↔ j ∈ b.swept order on (s + 1))) →
      (j ∈ mid ↔ j ∈ b.swept order on t) := by
    intro j hj s hs mid hmid
    rw [notMem_unsettled] at hj
    rcases hmid with h | h
    · rw [h, hj s hs]
    · rw [h, hj (s + 1) (by omega)]
  have hallowed : b.Allowed i := by
    by_contra hnot
    apply hvaries False
    intro s _
    obtain ⟨mid, -, hset⟩ := mem_swept_succ (b := b) on hnodup horder s
    rw [hset]
    exact iff_of_false (fun h => hnot h.1) id
  have hon : ∀ j, b.Needs i j → j ∉ b.unsettled order on t → j ∈ b.swept order on t := by
    intro j hneeds hj
    by_contra hoff
    apply hvaries False
    intro s hs
    obtain ⟨mid, hmid, hset⟩ := mem_swept_succ (b := b) on hnodup horder s
    rw [hset]
    refine iff_of_false (fun h => hoff ?_) id
    rw [← hsettled j hj s hs mid (hmid j)]
    exact h.2 j hneeds
  refine ⟨hallowed, ?_⟩
  by_contra hnone
  apply hvaries True
  intro s hs
  obtain ⟨mid, hmid, hset⟩ := mem_swept_succ (b := b) on hnodup horder s
  rw [hset]
  refine iff_of_true ⟨hallowed, ?_⟩ trivial
  intro j hneeds
  have hj : j ∉ b.unsettled order on t := fun h => hnone ⟨j, h, hneeds⟩
  rw [hsettled j hj s hs mid (hmid j)]
  exact hon j hneeds hj

/-- If every sweep settles a switch as long as some are unsettled, the list is
settled after as many sweeps as it is long. -/
theorem swept_settles (hprogress : ∀ t, b.unsettled order on t ⊆ b.unsettled order on (t + 1) →
      b.unsettled order on t = ∅) : b.unsettled order on order.length = ∅ := by
  classical
  let left : ℕ → Finset ι := fun t => order.toFinset.filter (· ∈ b.unsettled order on t)
  have hmem : ∀ t i, i ∈ left t ↔ i ∈ b.unsettled order on t := by
    intro t i
    simp only [left, Finset.mem_filter, mem_toFinset]
    exact ⟨fun h => h.2, fun h => ⟨unsettled_subset h, h⟩⟩
  have hcard : ∀ t, t + (left t).card ≤ order.length ∨ b.unsettled order on t = ∅ := by
    intro t
    induction t with
    | zero =>
      left
      rw [Nat.zero_add]
      calc
        (left 0).card ≤ order.toFinset.card := Finset.card_filter_le _ _
        _ ≤ order.length := toFinset_card_le order
    | succ t ih =>
      have hanti : b.unsettled order on (t + 1) ⊆ b.unsettled order on t :=
        unsettled_antitone (Nat.le_succ t)
      rcases ih with hle | hempty
      · by_cases hsub : b.unsettled order on t ⊆ b.unsettled order on (t + 1)
        · right
          exact Set.subset_eq_empty hanti (hprogress t hsub)
        left
        have hlt : (left (t + 1)).card < (left t).card := by
          apply Finset.card_lt_card
          constructor
          · intro i hi
            exact (hmem t i).mpr (hanti ((hmem (t + 1) i).mp hi))
          intro h
          apply hsub
          intro i hi
          exact (hmem (t + 1) i).mp (h ((hmem t i).mpr hi))
        omega
      · right
        exact Set.subset_eq_empty hanti hempty
  rcases hcard order.length with hle | hempty
  · have hzero : left order.length = ∅ := by
      rw [← Finset.card_eq_zero]
      omega
    ext i
    rw [← hmem, hzero]
    simp
  · exact hempty

/-- Once nothing is unsettled, a further sweep changes nothing. -/
theorem sweep_swept_of_settled (h : b.unsettled order on t = ∅) :
    b.sweep order (b.swept order on t) = b.swept order on t := by
  rw [← swept_succ]
  ext i
  have hi : i ∉ b.unsettled order on t := by
    rw [h]
    exact Set.notMem_empty i
  exact notMem_unsettled.mp hi (t + 1) (Nat.le_succ t)

/-! ## Boards that settle -/

/-- The first switch is allowed and needs the second. -/
def Link (b : Board ι) (i j : ι) : Prop :=
  b.Allowed i ∧ b.Needs i j

/-- Where no switch needs itself through allowed ones, the sweeps settle the
list. -/
theorem settles_of_acyclic (hnodup : order.Nodup)
    (hacyclic : ∀ i, ¬ Relation.TransGen b.Link i i) (on : Set ι) :
    b.unsettled order on order.length = ∅ := by
  apply swept_settles
  intro t hsame
  rw [Set.eq_empty_iff_forall_notMem]
  intro i hi
  let below : ι → ι → Prop := fun j i => Relation.TransGen b.Link i j
  have hstrict : IsStrictOrder ι below :=
    { irrefl := hacyclic
      trans := fun _ _ _ h₁ h₂ => Relation.TransGen.trans h₂ h₁ }
  have hfinite : (b.unsettled order on t).Finite :=
    (finite_toSet order).subset fun _ h => unsettled_subset h
  have hwf : (b.unsettled order on t).WellFoundedOn below := hfinite.wellFoundedOn
  -- A least unsettled switch needs another one below it.
  obtain ⟨⟨m, hm⟩, -, hleast⟩ := hwf.has_min Set.univ ⟨⟨i, hi⟩, trivial⟩
  obtain ⟨hallowed, j, hj, hneeds⟩ := stuck hnodup hsame hm
  exact hleast ⟨j, hj⟩ trivial (Relation.TransGen.single ⟨hallowed, hneeds⟩)

end Board

end ExpOS
