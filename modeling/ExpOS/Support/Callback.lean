import ExpOS.Support.Lookup
import Mathlib.Data.List.Pairwise
import Mathlib.Order.Nat

/-!
# Completion notices with coalescing

Sources commit under increasing numbers.  A commit stays pending in the slot
of its source until a notice with its number is posted to a queue; a notice of
the same source that is still queued is overwritten instead of joined by a
second one.  Delivery takes a notice from the queue.

Posting can fail to happen for as long as the queue likes.  The invariant
`Accounts` says that the last commit of a source is nevertheless accounted
for: it is pending, queued, or the last one delivered.
-/

namespace ExpOS.Callback

open List Option

open Function

variable {κ ω : Type*}

/-- A source with the number of its last commit, zero before the first. -/
structure Source (κ ω : Type*) where
  id : κ
  owner : ω
  sequence : ℕ

structure Notice (κ ω : Type*) where
  id : κ
  owner : ω
  value : ℕ

/-- Sources and pending commits by slot, queued notices by cell, and the
history of commits and deliveries. -/
structure Board (κ ω : Type*) where
  source : ℕ → Option (Source κ ω)
  pending : ℕ → ℕ
  queued : ℕ → Option (Notice κ ω)
  last : ℕ
  commits : List (κ × ℕ)
  delivered : κ → List ℕ

/-- The notice belongs to the source. -/
def Notice.IsOf (notice : Notice κ ω) (source : Source κ ω) : Prop :=
  notice.id = source.id ∧ notice.owner = source.owner

namespace Board

/-- A notice with a number is queued for a source. -/
def Queued (b : Board κ ω) (id : κ) (n : ℕ) : Prop :=
  ∃ cell notice, b.queued cell = some notice ∧ notice.id = id ∧ notice.value = n

/-- A pending commit is posted to the cell of an older notice of its source,
or to an empty cell if there is none. -/
inductive Post (b : Board κ ω) : Board κ ω → Prop
  | mk {slot cell : ℕ} {source : Source κ ω}
      (hsource : b.source slot = some source)
      (hpending : b.pending slot ≠ 0)
      (hcell : (∃ notice, b.queued cell = some notice ∧ notice.IsOf source) ∨
        b.queued cell = none ∧ ∀ k notice, b.queued k = some notice → ¬ notice.IsOf source) :
      Post b
        { b with
          pending := update b.pending slot 0
          queued := update b.queued cell
            (some ⟨source.id, source.owner, b.pending slot⟩) }

/-- The other steps: a source is opened under an unused name, commits, is
closed with its notices, or a notice is delivered. -/
inductive Step [DecidableEq κ] (b : Board κ ω) : Board κ ω → Prop
  | opened {slot : ℕ} (id : κ) (owner : ω) (hfree : b.source slot = none)
      (hfresh : ∀ i source, b.source i = some source → source.id ≠ id) :
      Step b
        { b with
          source := update b.source slot (some ⟨id, owner, 0⟩) }
  | committed {slot : ℕ} {source : Source κ ω}
      (hsource : b.source slot = some source) :
      Step b
        { b with
          source := update b.source slot
            (some { source with sequence := b.last + 1 })
          pending := update b.pending slot (b.last + 1)
          last := b.last + 1
          commits := b.commits ++ [(source.id, b.last + 1)] }
  | closed {slot : ℕ} {source : Source κ ω}
      {queued : ℕ → Option (Notice κ ω)}
      (hsource : b.source slot = some source)
      (hqueued : ∀ k notice, queued k = some notice ↔
        b.queued k = some notice ∧ ¬ notice.IsOf source) :
      Step b
        { b with
          source := update b.source slot none
          pending := update b.pending slot 0
          queued }
  | delivered {cell : ℕ} {notice : Notice κ ω}
      (hnotice : b.queued cell = some notice) :
      Step b
        { b with
          queued := update b.queued cell none
          delivered := update b.delivered notice.id
            (b.delivered notice.id ++ [notice.value]) }

/-- Every last commit is pending, queued or the last one delivered, and
numbers only grow along the way. -/
structure Accounts (b : Board κ ω) : Prop where
  ids : ∀ i j x y, b.source i = some x → b.source j = some y → x.id = y.id → i = j
  below : ∀ i x, b.source i = some x → x.sequence ≤ b.last
  pending : ∀ i, b.pending i ≠ 0 → ∃ x, b.source i = some x ∧ b.pending i = x.sequence
  logged : ∀ i x, b.source i = some x → x.sequence ≠ 0 → (x.id, x.sequence) ∈ b.commits
  queued : ∀ k e, b.queued k = some e → (e.id, e.value) ∈ b.commits ∧
    ∃ i x, b.source i = some x ∧ e.IsOf x ∧ e.value ≤ x.sequence ∧
      (b.pending i ≠ 0 → e.value < b.pending i)
  once : ∀ k l e f, b.queued k = some e → b.queued l = some f → e.id = f.id → k = l
  sorted : ∀ id, (b.delivered id).Pairwise (· < ·)
  old : ∀ id, ∀ n ∈ b.delivered id, n ≤ b.last
  beforeQueued : ∀ k e, b.queued k = some e → ∀ n ∈ b.delivered e.id, n < e.value
  beforePending : ∀ i x, b.source i = some x → b.pending i ≠ 0 →
    ∀ n ∈ b.delivered x.id, n < b.pending i
  accounted : ∀ i x, b.source i = some x → x.sequence ≠ 0 →
    b.pending i = x.sequence ∨ b.Queued x.id x.sequence ∨
      (b.delivered x.id).getLast? = some x.sequence

/-- The board with nothing on it. -/
def blank : Board κ ω where
  source _ := none
  pending _ := 0
  queued _ := none
  last := 0
  commits := []
  delivered _ := []

theorem blank_accounts : (blank : Board κ ω).Accounts where
  ids _ _ _ _ h := nomatch h
  below _ _ h := nomatch h
  pending _ h := (h rfl).elim
  logged _ _ h := nomatch h
  queued _ _ h := nomatch h
  once _ _ _ _ h := nomatch h
  sorted _ := .nil
  old _ _ h := nomatch h
  beforeQueued _ _ h := nomatch h
  beforePending _ _ h := nomatch h
  accounted _ _ h := nomatch h

variable {i j : ℕ}

theorem update_some_cases {α : Type*} {f : ℕ → Option α}
    {new x : α} (h : update f i (some new) j = some x) :
    j = i ∧ new = x ∨ j ≠ i ∧ f j = some x := by
  by_cases heq : j = i
  · subst heq
    rw [update_self, some.injEq] at h
    exact .inl ⟨rfl, h⟩
  · rw [update_of_ne heq] at h
    exact .inr ⟨heq, h⟩

theorem update_none_cases {α : Type*} {f : ℕ → Option α} {x : α}
    (h : update f i none j = some x) : j ≠ i ∧ f j = some x := by
  by_cases heq : j = i
  · subst heq
    rw [update_self] at h
    cases h
  · rw [update_of_ne heq] at h
    exact ⟨heq, h⟩

theorem update_zero_cases {f : ℕ → ℕ}
    (h : update f i 0 j ≠ 0) : j ≠ i ∧ f j ≠ 0 ∧ update f i 0 j = f j := by
  by_cases heq : j = i
  · subst heq
    exact absurd (update_self j 0 f) h
  · rw [update_of_ne heq] at h
    exact ⟨heq, h, update_of_ne heq _ _⟩

section Preservation

variable {b b' : Board κ ω}

theorem Accounts.post (h : b.Accounts) (hstep : Post b b') : b'.Accounts := by
  obtain @⟨slot, cell, source, hsource, hpending, hcell⟩ := hstep
  have hvalue : b.pending slot = source.sequence := by
    obtain ⟨x, hx, hvalue⟩ := h.pending slot hpending
    rw [hsource, some.injEq] at hx
    exact hx ▸ hvalue
  have hsequence : source.sequence ≠ 0 := hvalue ▸ hpending
  -- a queued notice of the source can only be in the cell that is written
  have hcells : ∀ k e, b.queued k = some e → e.id = source.id → k = cell := by
    intro k e hk hid
    obtain ⟨-, i, y, hy, ⟨heid, howner⟩, -⟩ := h.queued k e hk
    have heq := h.ids i slot y source hy hsource (heid ▸ hid)
    subst heq
    rw [hsource, some.injEq] at hy
    subst hy
    rcases hcell with ⟨notice, hnotice, hof⟩ | ⟨-, hnone⟩
    · exact h.once k cell e notice hk hnotice (hid.trans hof.1.symm)
    · exact absurd ⟨heid, howner⟩ (hnone k e hk)
  refine ⟨h.ids, h.below, ?_, h.logged, ?_, ?_, h.sorted, h.old, ?_, ?_, ?_⟩
  · intro i hi
    obtain ⟨-, hne, heq⟩ := update_zero_cases hi
    obtain ⟨x, hx, hval⟩ := h.pending i hne
    exact ⟨x, hx, heq.trans hval⟩
  · intro k e hk
    rcases update_some_cases hk with ⟨-, rfl⟩ | ⟨-, hk'⟩
    · refine ⟨?_, slot, source, hsource, ⟨rfl, rfl⟩, hvalue.le, ?_⟩
      · dsimp only
        rw [hvalue]
        exact h.logged slot source hsource hsequence
      · exact fun hne => absurd (update_self slot 0 b.pending) hne
    · obtain ⟨hlog, i, x, hx, hof, hle, hlt⟩ := h.queued k e hk'
      refine ⟨hlog, i, x, hx, hof, hle, fun hi => ?_⟩
      obtain ⟨-, hne, heq⟩ := update_zero_cases hi
      exact (hlt hne).trans_eq heq.symm
  · exact distinct_of_changed h.once update_some_cases hcells
  · intro k e hk
    rcases update_some_cases hk with ⟨-, rfl⟩ | ⟨-, hk'⟩
    · exact h.beforePending slot source hsource hpending
    · exact h.beforeQueued k e hk'
  · intro i x hx hi n hn
    obtain ⟨-, hne, heq⟩ := update_zero_cases hi
    exact (h.beforePending i x hx hne n hn).trans_eq heq.symm
  · intro i x hx hne
    by_cases heq : i = slot
    · subst heq
      rw [hsource, some.injEq] at hx
      subst hx
      exact .inr (.inl ⟨cell, _, update_self _ _ _, rfl, hvalue⟩)
    rcases h.accounted i x hx hne with hold | ⟨k, e, hk, hid, hval⟩ | hold
    · exact .inl ((update_of_ne heq _ _).trans hold)
    · refine .inr (.inl ⟨k, e, ?_, hid, hval⟩)
      -- the cell written held no notice of this other source
      have hkcell : k ≠ cell := by
        rintro rfl
        rcases hcell with ⟨notice, hnotice, hof⟩ | ⟨hnone, -⟩
        · rw [hk, some.injEq] at hnotice
          subst hnotice
          exact heq (h.ids i slot x source hx hsource (hid.symm.trans hof.1))
        · rw [hk] at hnone
          cases hnone
      exact (update_of_ne hkcell _ _).trans hk
    · exact .inr (.inr hold)

theorem Accounts.posts (h : b.Accounts)
    (hsteps : Relation.ReflTransGen Post b b') : b'.Accounts := by
  induction hsteps with
  | refl => exact h
  | tail _ hstep ih => exact ih.post hstep

variable {slot : ℕ}

theorem Accounts.opened (h : b.Accounts) (id : κ) (owner : ω) (hfree : b.source slot = none)
    (hfresh : ∀ i source, b.source i = some source → source.id ≠ id) : Accounts
      { b with
        source := update b.source slot (some ⟨id, owner, 0⟩) } := by
  have hidle : b.pending slot = 0 := by
    by_contra hne
    obtain ⟨x, hx, -⟩ := h.pending slot hne
    rw [hfree] at hx
    cases hx
  have hkeep : ∀ i x, b.source i = some x →
      update b.source slot (some ⟨id, owner, 0⟩) i = some x := by
    intro i x hx
    rw [update_of_ne (ne_of_some_none hx hfree), hx]
  refine ⟨?_, ?_, ?_, ?_, ?_, h.once, h.sorted, h.old, h.beforeQueued, ?_, ?_⟩
  · apply distinct_of_changed h.ids update_some_cases
    exact fun i x hi hid => absurd hid (hfresh i x hi)
  · intro i x hi
    rcases update_some_cases hi with ⟨-, rfl⟩ | ⟨-, hi'⟩
    · exact Nat.zero_le _
    · exact h.below i x hi'
  · intro i hi
    obtain ⟨x, hx, hval⟩ := h.pending i hi
    exact ⟨x, hkeep i x hx, hval⟩
  · intro i x hi hne
    rcases update_some_cases hi with ⟨-, rfl⟩ | ⟨-, hi'⟩
    · exact absurd rfl hne
    · exact h.logged i x hi' hne
  · intro k e hk
    obtain ⟨hlog, i, x, hx, hof, hle⟩ := h.queued k e hk
    exact ⟨hlog, i, x, hkeep i x hx, hof, hle⟩
  · intro i x hi hne
    rcases update_some_cases hi with ⟨rfl, -⟩ | ⟨-, hi'⟩
    · exact absurd hidle hne
    · exact h.beforePending i x hi' hne
  · intro i x hi hne
    rcases update_some_cases hi with ⟨-, rfl⟩ | ⟨-, hi'⟩
    · exact absurd rfl hne
    · exact h.accounted i x hi' hne

variable {source : Source κ ω}

theorem Accounts.committed (h : b.Accounts) (hsource : b.source slot = some source) : Accounts
      { b with
        source := update b.source slot (some { source with sequence := b.last + 1 })
        pending := update b.pending slot (b.last + 1)
        last := b.last + 1
        commits := b.commits ++ [(source.id, b.last + 1)] } := by
  have hbelow := h.below slot source hsource
  refine ⟨?_, ?_, ?_, ?_, ?_, h.once, h.sorted, ?_, h.beforeQueued, ?_, ?_⟩
  · apply distinct_of_changed h.ids update_some_cases
    exact fun i x hi => h.ids i slot x source hi hsource
  · intro i x hi
    rcases update_some_cases hi with ⟨-, rfl⟩ | ⟨-, hi'⟩
    · exact Nat.le_refl _
    · exact Nat.le_succ_of_le (h.below i x hi')
  · intro i hi
    by_cases heq : i = slot
    · subst heq
      exact ⟨_, update_self _ _ _, update_self _ _ _⟩
    dsimp only at hi ⊢
    rw [update_of_ne heq] at hi ⊢
    rw [update_of_ne heq]
    exact h.pending i hi
  · intro i x hi hne
    rcases update_some_cases hi with ⟨-, rfl⟩ | ⟨-, hi'⟩
    · exact mem_append_right _ (mem_singleton_self _)
    · exact mem_append_left _ (h.logged i x hi' hne)
  · intro k e hk
    obtain ⟨hlog, i, x, hx, hof, hle, hlt⟩ := h.queued k e hk
    refine ⟨mem_append_left _ hlog, i, ?_⟩
    by_cases heq : i = slot
    · subst heq
      rw [hsource, some.injEq] at hx
      subst hx
      have hnew : e.value ≤ b.last := Nat.le_trans hle hbelow
      refine ⟨_, update_self _ _ _, hof, Nat.le_succ_of_le hnew, ?_⟩
      dsimp only
      rw [update_self]
      exact fun _ => Nat.lt_succ_of_le hnew
    · refine ⟨x, (update_of_ne heq _ _).trans hx, hof, hle, ?_⟩
      dsimp only
      rw [update_of_ne heq]
      exact hlt
  · intro id n hn
    exact Nat.le_succ_of_le (h.old id n hn)
  · intro i x hi hne n hn
    rcases update_some_cases hi with ⟨rfl, rfl⟩ | ⟨heq, hi'⟩
    · dsimp only
      rw [update_self]
      exact Nat.lt_succ_of_le (h.old _ n hn)
    · dsimp only at hne ⊢
      rw [update_of_ne heq] at hne ⊢
      exact h.beforePending i x hi' hne n hn
  · intro i x hi hne
    rcases update_some_cases hi with ⟨rfl, rfl⟩ | ⟨heq, hi'⟩
    · exact .inl (update_self _ _ _)
    · rcases h.accounted i x hi' hne with hold | hold
      · exact .inl ((update_of_ne heq _ _).trans hold)
      · exact .inr hold

theorem Accounts.closed
    {queued : ℕ → Option (Notice κ ω)} (h : b.Accounts) (hsource : b.source slot = some source)
    (hqueued : ∀ k notice, queued k = some notice ↔
      b.queued k = some notice ∧ ¬ notice.IsOf source) : Accounts
      { b with
        source := update b.source slot none
        pending := update b.pending slot 0
        queued } := by
  have hold : ∀ k e, queued k = some e → b.queued k = some e :=
    fun k e hk => ((hqueued k e).mp hk).1
  refine ⟨?_, ?_, ?_, ?_, ?_, ?_, h.sorted, h.old, ?_, ?_, ?_⟩
  · intro i j x y hi hj hid
    exact h.ids i j x y (update_none_cases hi).2 (update_none_cases hj).2 hid
  · intro i x hi
    exact h.below i x (update_none_cases hi).2
  · intro i hi
    obtain ⟨heq, hne, hval⟩ := update_zero_cases hi
    obtain ⟨x, hx, hsame⟩ := h.pending i hne
    exact ⟨x, (update_of_ne heq _ _).trans hx, hval.trans hsame⟩
  · intro i x hi
    exact h.logged i x (update_none_cases hi).2
  · intro k e hk
    obtain ⟨hk', hnot⟩ := (hqueued k e).mp hk
    obtain ⟨hlog, i, x, hx, hof, hle, hlt⟩ := h.queued k e hk'
    have heq : i ≠ slot := by
      rintro rfl
      rw [hsource, some.injEq] at hx
      subst hx
      exact hnot hof
    refine ⟨hlog, i, x, (update_of_ne heq _ _).trans hx, hof, hle, ?_⟩
    dsimp only
    rw [update_of_ne heq]
    exact hlt
  · intro k l e f hk hl
    exact h.once k l e f (hold k e hk) (hold l f hl)
  · intro k e hk
    exact h.beforeQueued k e (hold k e hk)
  · intro i x hi hne n hn
    obtain ⟨-, hpending, hval⟩ := update_zero_cases hne
    exact (h.beforePending i x (update_none_cases hi).2 hpending n hn).trans_eq hval.symm
  · intro i x hi hne
    obtain ⟨heq, hx⟩ := update_none_cases hi
    rcases h.accounted i x hx hne with hold | ⟨k, e, hk, hid, hval⟩ | hold
    · exact .inl ((update_of_ne heq _ _).trans hold)
    · refine .inr (.inl ⟨k, e, (hqueued k e).mpr ⟨hk, ?_⟩, hid, hval⟩)
      intro hof
      exact heq (h.ids i slot x source hx hsource (hid.symm.trans hof.1))
    · exact .inr (.inr hold)

variable [DecidableEq κ]

theorem mem_update_append {f : κ → List ℕ} {id other : κ} {m n : ℕ}
    (h : n ∈ update f id (f id ++ [m]) other) : n ∈ f other ∨ other = id ∧ n = m := by
  by_cases heq : other = id
  · subst heq
    rw [update_self, mem_append, mem_singleton] at h
    exact h.imp_right fun hval => ⟨rfl, hval⟩
  · rw [update_of_ne heq] at h
    exact .inl h

theorem Accounts.delivery {cell : ℕ} {notice : Notice κ ω}
    (h : b.Accounts) (hnotice : b.queued cell = some notice) : Accounts
      { b with
        queued := update b.queued cell none
        delivered := update b.delivered notice.id (b.delivered notice.id ++ [notice.value]) } := by
  obtain ⟨-, slot, source, hsource, hof, hle, hlt⟩ := h.queued cell notice hnotice
  have hslot : ∀ i x, b.source i = some x → x.id = notice.id → i = slot ∧ x = source := by
    intro i x hx hid
    have heq := h.ids i slot x source hx hsource (hid.trans hof.1)
    subst heq
    rw [hsource, some.injEq] at hx
    exact ⟨rfl, hx.symm⟩
  refine ⟨h.ids, h.below, h.pending, h.logged, ?_, ?_, ?_, ?_, ?_, ?_, ?_⟩
  · intro k e hk
    exact h.queued k e (update_none_cases hk).2
  · intro k l e f hk hl
    exact h.once k l e f (update_none_cases hk).2 (update_none_cases hl).2
  · intro id
    by_cases heq : id = notice.id
    · subst heq
      dsimp only
      rw [update_self, pairwise_append]
      refine ⟨h.sorted _, pairwise_singleton _ _, ?_⟩
      intro n hn m hm
      rw [mem_singleton.mp hm]
      exact h.beforeQueued cell notice hnotice n hn
    · dsimp only
      rw [update_of_ne heq]
      exact h.sorted id
  · intro id n hn
    rcases mem_update_append hn with hn' | ⟨-, rfl⟩
    · exact h.old id n hn'
    · exact Nat.le_trans hle (h.below slot source hsource)
  · intro k e hk n hn
    obtain ⟨hne, hk'⟩ := update_none_cases hk
    rcases mem_update_append hn with hn' | ⟨hid, -⟩
    · exact h.beforeQueued k e hk' n hn'
    · exact absurd (h.once k cell e notice hk' hnotice hid) hne
  · intro i x hi hne n hn
    rcases mem_update_append hn with hn' | ⟨hid, rfl⟩
    · exact h.beforePending i x hi hne n hn'
    · obtain ⟨rfl, -⟩ := hslot i x hi hid
      exact hlt hne
  · intro i x hi hne
    rcases h.accounted i x hi hne with hold | ⟨k, e, hk, hid, hval⟩ | hold
    · exact .inl hold
    · refine .inr ?_
      by_cases heq : k = cell
      · subst heq
        rw [hnotice, some.injEq] at hk
        subst hk
        refine .inr ?_
        dsimp only
        rw [← hid, update_self, List.getLast?_concat, hval]
      · exact .inl ⟨k, e, (update_of_ne heq _ _).trans hk, hid, hval⟩
    · by_cases heq : x.id = notice.id
      · -- the last delivery is older than every queued notice
        obtain ⟨-, rfl⟩ := hslot i x hi heq
        have hmem := mem_of_getLast? hold
        rw [heq] at hmem
        exact absurd (h.beforeQueued cell notice hnotice _ hmem) (Nat.not_lt.mpr hle)
      · refine .inr (.inr ?_)
        dsimp only
        rw [update_of_ne heq]
        exact hold

theorem Accounts.step (h : b.Accounts) (hstep : Step b b') : b'.Accounts := by
  cases hstep with
  | opened id owner hfree hfresh => exact h.opened id owner hfree hfresh
  | committed hsource => exact h.committed hsource
  | closed hsource hqueued => exact h.closed hsource hqueued
  | delivered hnotice => exact h.delivery hnotice

/-- Only posting queues a notice. -/
theorem Step.queued_of (hstep : Step b b') {id : κ} {n : ℕ}
    (h : b'.Queued id n) : b.Queued id n := by
  obtain ⟨k, e, hk, he⟩ := h
  cases hstep with
  | opened => exact ⟨k, e, hk, he⟩
  | committed => exact ⟨k, e, hk, he⟩
  | closed _ hqueued => exact ⟨k, e, ((hqueued k e).mp hk).1, he⟩
  | delivered => exact ⟨k, e, (update_none_cases hk).2, he⟩

end Preservation

end Board

end ExpOS.Callback
