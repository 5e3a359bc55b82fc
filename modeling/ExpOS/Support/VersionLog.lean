import Mathlib.Data.List.Nodup

/-!
# Append-only logs of versions

A log holds versions of keyed records.  A later version of a key has a larger
revision, and versions arrive in batches that carry one sequence number each.
The newest version of a key is then unique, and the view of the log up to a
sequence number does not change when later batches are appended.
-/

namespace ExpOS

open List

variable {α κ : Type*}

/-- The last entry with the largest measure. -/
def maxBy (f : α → ℕ) : List α → Option α
  | [] => none
  | entry :: rest =>
    match maxBy f rest with
    | none => some entry
    | some best => if f best < f entry then some entry else some best

variable {f : α → ℕ} {log : List α}

theorem maxBy_eq_none : maxBy f log = none ↔ log = [] := by
  cases log with
  | nil => simp [maxBy]
  | cons entry rest =>
    simp only [maxBy]
    split
    · simp
    · split <;> simp

theorem maxBy_spec {best : α} (h : maxBy f log = some best) :
    best ∈ log ∧ ∀ other ∈ log, f other ≤ f best := by
  induction log generalizing best with
  | nil => cases h
  | cons entry rest ih =>
    simp only [maxBy] at h
    split at h
    · next hnone =>
        cases h
        rw [maxBy_eq_none.mp hnone]
        simp
    rename_i inner hinner
    obtain ⟨hmem, hmax⟩ := ih hinner
    split at h
    · next hlt =>
        cases h
        refine ⟨mem_cons_self, fun other hother => ?_⟩
        rcases mem_cons.mp hother with rfl | hrest
        · exact Nat.le_refl _
        · exact Nat.le_of_lt (Nat.lt_of_le_of_lt (hmax other hrest) hlt)
    rename_i hge
    cases h
    refine ⟨mem_cons_of_mem _ hmem, fun other hother => ?_⟩
    rcases mem_cons.mp hother with rfl | hrest
    · exact Nat.not_lt.mp hge
    · exact hmax other hrest

namespace VersionLog

variable (key : α → κ) (revision : α → ℕ)

/-- Later versions of a key have larger revisions. -/
def Increasing (log : List α) : Prop :=
  log.Pairwise fun a b => key a = key b → revision a < revision b

/-- A batch names each key once and only brings newer versions. -/
structure Extends (log batch : List α) : Prop where
  keys : (batch.map key).Nodup
  newer : ∀ b ∈ batch, ∀ a ∈ log, key a = key b → revision a < revision b

variable {key revision} {log batch : List α}

theorem Extends.increasing (h : Increasing key revision log)
    (hbatch : Extends key revision log batch) : Increasing key revision (log ++ batch) := by
  refine pairwise_append.mpr ⟨h, ?_, ?_⟩
  · refine (pairwise_map.mp hbatch.keys).imp ?_
    intro a b hne heq
    exact absurd heq hne
  · intro a ha b hb hk
    exact hbatch.newer b hb a ha hk

variable {a b : α}

/-- In an increasing log key and revision determine the version. -/
theorem Increasing.eq_of_same (h : Increasing key revision log)
    (ha : a ∈ log) (hb : b ∈ log) (hk : key a = key b) (hr : revision a = revision b) : a = b := by
  obtain ⟨i, hi, rfl⟩ := getElem_of_mem ha
  obtain ⟨j, hj, rfl⟩ := getElem_of_mem hb
  have hlt := pairwise_iff_getElem.mp h
  rcases Nat.lt_trichotomy i j with hij | rfl | hij
  · have := hlt i j hi hj hij hk
    omega
  · rfl
  · have := hlt j i hj hi hij hk.symm
    omega

/-- Two measures that increase along the log order the versions of a key
alike. -/
theorem Increasing.le_of_le {sequence : α → ℕ}
    (h : Increasing key revision log) (hs : Increasing key sequence log) (ha : a ∈ log)
    (hb : b ∈ log) (hk : key a = key b)
    (hle : revision a ≤ revision b) : sequence a ≤ sequence b := by
  obtain ⟨i, hi, rfl⟩ := getElem_of_mem ha
  obtain ⟨j, hj, rfl⟩ := getElem_of_mem hb
  rcases Nat.lt_trichotomy i j with hij | rfl | hij
  · exact Nat.le_of_lt (pairwise_iff_getElem.mp hs i j hi hj hij hk)
  · exact Nat.le_refl _
  · have hlt := pairwise_iff_getElem.mp h j i hj hi hij hk.symm
    omega

theorem Increasing.nodup (h : Increasing key revision log) : log.Nodup := by
  refine h.imp ?_
  rintro a b hlt rfl
  exact Nat.lt_irrefl _ (hlt rfl)

variable [DecidableEq κ]

variable (key revision) in
/-- The newest version of a key. -/
def latest (log : List α) (k : κ) : Option α :=
  maxBy revision (log.filter (key · = k))

variable {k : κ}

theorem latest_eq_none : latest key revision log k = none ↔ ∀ a ∈ log, key a ≠ k := by
  rw [latest, maxBy_eq_none]
  simp

theorem latest_spec (h : latest key revision log k = some a) : a ∈ log ∧ key a = k ∧
      ∀ b ∈ log, key b = k → revision b ≤ revision a := by
  obtain ⟨hmem, hmax⟩ := maxBy_spec h
  rw [mem_filter, decide_eq_true_eq] at hmem
  refine ⟨hmem.1, hmem.2, fun b hb hk => hmax b ?_⟩
  exact mem_filter.mpr ⟨hb, decide_eq_true hk⟩

/-- No stored version of a key is newer than its latest one. -/
theorem newer_iff : (∀ a ∈ latest key revision log (key b), revision a < revision b) ↔
      ∀ a ∈ log, key a = key b → revision a < revision b := by
  constructor
  · intro h a ha hk
    rcases hlatest : latest key revision log (key b) with _ | c
    · exact absurd hk (latest_eq_none.mp hlatest a ha)
    · exact Nat.lt_of_le_of_lt ((latest_spec hlatest).2.2 a ha hk) (h c hlatest)
  · intro h a ha
    obtain ⟨hmem, hk, -⟩ := latest_spec ha
    exact h a hmem hk

theorem Increasing.latest_eq_some (h : Increasing key revision log) :
    latest key revision log k = some a ↔ a ∈ log ∧ key a = k ∧
        ∀ b ∈ log, key b = k → revision b ≤ revision a := by
  refine ⟨latest_spec, ?_⟩
  rintro ⟨hmem, hk, hmax⟩
  rcases hlatest : latest key revision log k with _ | c
  · exact absurd hk (latest_eq_none.mp hlatest a hmem)
  · obtain ⟨hc, hck, hcmax⟩ := latest_spec hlatest
    rw [h.eq_of_same hc hmem (hck.trans hk.symm)
      (Nat.le_antisymm (hmax c hc hck) (hcmax a hmem hk))]

/-! ## The newest versions -/

variable (key revision) in
/-- The version is the newest of its key. -/
def isNewest (log : List α) (a : α) : Bool :=
  (latest key revision log (key a)).any fun b => revision b = revision a

variable (key revision) in
/-- The versions that are the newest of their key. -/
def current (log : List α) : List α :=
  log.filter (isNewest key revision log)

theorem Increasing.isNewest_iff (h : Increasing key revision log) (ha : a ∈ log) :
    isNewest key revision log a = true ↔ ∀ b ∈ log, key b = key a → revision b ≤ revision a := by
  rw [isNewest, Option.any_eq_true]
  constructor
  · rintro ⟨c, hc, heq⟩ b hb hk
    rw [decide_eq_true_eq] at heq
    rw [← heq]
    exact (latest_spec hc).2.2 b hb hk
  · intro hmax
    exact ⟨a, h.latest_eq_some.mpr ⟨ha, rfl, hmax⟩, decide_eq_true rfl⟩

/-- After a batch the newest versions are those of the batch and the old ones
it does not replace. -/
theorem Extends.current_append (h : Increasing key revision log)
    (hbatch : Extends key revision log batch) : current key revision (log ++ batch) =
      log.filter (fun a => isNewest key revision log a &&
        !batch.any (fun b => key b = key a)) ++ batch := by
  have hall := hbatch.increasing h
  have hold : ∀ a ∈ log, isNewest key revision (log ++ batch) a = (isNewest key revision log a &&
        !batch.any (fun b => key b = key a)) := by
    intro a ha
    rw [Bool.eq_iff_iff, hall.isNewest_iff (mem_append_left _ ha),
      Bool.and_eq_true, h.isNewest_iff ha, Bool.not_eq_true', any_eq_false]
    constructor
    · intro hmax
      refine ⟨fun b hb => hmax b (mem_append_left _ hb), ?_⟩
      intro b hb hk
      rw [decide_eq_true_eq] at hk
      have hle := hmax b (mem_append_right _ hb) hk
      have hlt := hbatch.newer b hb a ha hk.symm
      omega
    · rintro ⟨hmax, hfree⟩ b hb hk
      rcases mem_append.mp hb with hb | hb
      · exact hmax b hb hk
      · exact absurd (decide_eq_true hk) (hfree b hb)
  have hnew : ∀ b ∈ batch, isNewest key revision (log ++ batch) b = true := by
    intro b hb
    rw [hall.isNewest_iff (mem_append_right _ hb)]
    intro a ha hk
    rcases mem_append.mp ha with ha | ha
    · exact Nat.le_of_lt (hbatch.newer b hb a ha hk)
    · exact Nat.le_of_eq (congrArg revision (inj_on_of_nodup_map hbatch.keys ha hb hk))
  rw [current, filter_append, filter_congr hold, filter_eq_self.mpr hnew]

/-! ## Views up to a sequence number -/

section Views

variable (key revision) (sequence : α → ℕ)

/-- The newest versions among those with a sequence number of at most `s`. -/
def viewAt (log : List α) (s : ℕ) : List α :=
  log.filter fun a => sequence a ≤ s &&
    !log.any fun c => key c = key a && sequence c ≤ s &&
      revision a < revision c

variable {key revision sequence}

/-- Later batches do not change the view. -/
theorem viewAt_append {s : ℕ} (h : ∀ b ∈ batch, s < sequence b) :
    viewAt key revision sequence (log ++ batch) s = viewAt key revision sequence log s := by
  have hlate : ∀ b ∈ batch, decide (sequence b ≤ s) = false := by
    intro b hb
    exact decide_eq_false (Nat.not_le.mpr (h b hb))
  have hany : ∀ a : α, (batch.any fun c => key c = key a &&
      decide (sequence c ≤ s) && decide (revision a < revision c)) = false := by
    intro a
    rw [any_eq_false]
    intro c hc
    simp [hlate c hc]
  have hnone : batch.filter (fun a => decide (sequence a ≤ s) &&
      !(log ++ batch).any fun c => key c = key a &&
        decide (sequence c ≤ s) && decide (revision a < revision c)) = [] := by
    rw [filter_eq_nil_iff]
    intro b hb
    simp [hlate b hb]
  rw [viewAt, filter_append, hnone, append_nil, viewAt]
  simp only [any_append, hany, Bool.or_false]

variable (sequence) in
/-- The view holds exactly one version of each key that has one, the newest
up to the sequence number. -/
theorem Increasing.viewAt_key (h : Increasing key revision log) {s : ℕ} (ha : a ∈ log)
    (hk : key a = k) (hs : sequence a ≤ s) :
    ∃ newest, (viewAt key revision sequence log s).filter (key · = k) =
        [newest] ∧ newest ∈ log ∧ key newest = k ∧ sequence newest ≤ s ∧
      ∀ c ∈ log, key c = k → sequence c ≤ s → revision c ≤ revision newest := by
  have hne : maxBy revision (log.filter fun c => key c = k &&
      decide (sequence c ≤ s)) ≠ none := by
    rw [Ne, maxBy_eq_none, filter_eq_nil_iff]
    intro hnil
    exact hnil a ha (by simp [hk, hs])
  obtain ⟨newest, hnewest⟩ := Option.ne_none_iff_exists'.mp hne
  obtain ⟨hmem, hmax⟩ := maxBy_spec hnewest
  rw [mem_filter, Bool.and_eq_true, decide_eq_true_eq, decide_eq_true_eq] at hmem
  obtain ⟨hlog, hkey, hseq⟩ := hmem
  have hbound : ∀ c ∈ log, key c = k → sequence c ≤ s → revision c ≤ revision newest := by
    intro c hc hck hcs
    exact hmax c (mem_filter.mpr ⟨hc, by simp [hck, hcs]⟩)
  refine ⟨newest, ?_, hlog, hkey, hseq, hbound⟩
  have hiff : ∀ c, c ∈ (viewAt key revision sequence log s).filter (key · = k) ↔ c = newest := by
    intro c
    rw [mem_filter, viewAt, mem_filter, Bool.and_eq_true,
      decide_eq_true_eq, decide_eq_true_eq, Bool.not_eq_true', any_eq_false]
    constructor
    · rintro ⟨⟨hc, hcs, hnone⟩, hck⟩
      refine h.eq_of_same hc hlog (hck.trans hkey.symm) ?_
      refine Nat.le_antisymm (hbound c hc hck hcs) ?_
      by_contra hlt
      exact hnone newest hlog (by simp [hkey, hck]; omega)
    · rintro rfl
      refine ⟨⟨hlog, hseq, fun c hc => ?_⟩, hkey⟩
      simp only [Bool.and_eq_true, decide_eq_true_eq, not_and]
      rintro ⟨hck, hcs⟩
      exact Nat.not_lt.mpr (hbound c hc (hck.trans hkey) hcs)
  have hnodup : ((viewAt key revision sequence log s).filter
      (key · = k)).Nodup := (h.nodup.filter _).filter _
  exact (perm_singleton.mp ((perm_ext_iff_of_nodup hnodup
    (nodup_singleton newest)).mpr fun c => by
      rw [hiff, mem_singleton]))

end Views

end VersionLog

end ExpOS
