import Mathlib.Data.List.Induction
import Mathlib.Order.Lattice

/-!
# Votes of different ranks

Votes for the values of keys are counted one after the other.  A vote of
higher rank replaces what stands, a vote of lower rank is ignored, and two
votes of the same rank for different values stop the count.

What a count that is not stopped ends in depends only on the set of votes.
Whether it is stopped does not: votes that disagree are noticed only while no
vote of higher rank has been counted.
-/

namespace ExpOS

open List Function

/-- A vote for the value of a key. -/
structure Vote (κ ρ β : Type) where
  key : κ
  rank : ρ
  value : β

/-- For each key the value that stands, with the rank of its vote. -/
abbrev Standing (κ ρ β : Type) := κ → Option (ρ × β)

variable {κ ρ β : Type} [DecidableEq κ] [LinearOrder ρ] [DecidableEq β]

/-- Count one vote. -/
def countVote (standing : Standing κ ρ β) (vote : Vote κ ρ β) :
    Except (Vote κ ρ β) (Standing κ ρ β) :=
  match standing vote.key with
  | none =>
    .ok (Function.update standing vote.key (some (vote.rank, vote.value)))
  | some (rank, value) =>
    if vote.rank < rank then .ok standing
    else if rank = vote.rank ∧ value ≠ vote.value then .error vote
    else
      .ok (Function.update standing vote.key
        (some (vote.rank, vote.value)))

/-- Count all votes, in order. -/
def tally (votes : List (Vote κ ρ β)) : Except (Vote κ ρ β) (Standing κ ρ β) :=
  votes.foldlM countVote fun _ => none

variable {votes others : List (Vote κ ρ β)} {standing : Standing κ ρ β}
variable {vote : Vote κ ρ β}

theorem tally_append : tally (votes ++ others) = tally votes >>= others.foldlM countVote := by
  rw [tally, foldlM_append, tally]

theorem tally_concat : tally (votes ++ [vote]) = tally votes >>= (countVote · vote) := by
  rw [tally_append]
  congr 1
  funext standing
  rw [foldlM_cons]
  cases countVote standing vote <;> rfl

/-! ## What stands after a count -/

/-- What stands for a key is a vote for it, and every other vote for the key
has lower rank or agrees. -/
structure Stands (votes : List (Vote κ ρ β)) (key : κ) (rank : ρ)
    (value : β) : Prop where
  mem : ⟨key, rank, value⟩ ∈ votes
  top : ∀ v ∈ votes, v.key = key → v.rank < rank ∨ v.rank = rank ∧ v.value = value

/-- The standing is the outcome of the votes. -/
structure Tallied (votes : List (Vote κ ρ β)) (standing : Standing κ ρ β) :
    Prop where
  none_iff : ∀ key, standing key = none ↔ ∀ v ∈ votes, v.key ≠ key
  stands : ∀ key rank value, standing key = some (rank, value) → Stands votes key rank value

variable {standing' : Standing κ ρ β}

omit [DecidableEq κ] [DecidableEq β] in
/-- The outcome depends on the set of votes only. -/
theorem Tallied.unique (h : Tallied votes standing) (h' : Tallied others standing')
    (hmem : ∀ v, v ∈ votes ↔ v ∈ others) : standing = standing' := by
  funext key
  rcases hs : standing key with _ | ⟨rank, value⟩
  · have hnone := (h.none_iff key).mp hs
    exact ((h'.none_iff key).mpr fun v hv => hnone v ((hmem v).mpr hv)).symm
  have hstands := h.stands key rank value hs
  rcases hs' : standing' key with _ | ⟨rank', value'⟩
  · have hnone := (h'.none_iff key).mp hs'
    exact absurd rfl (hnone _ ((hmem _).mp hstands.mem))
  have hstands' := h'.stands key rank' value' hs'
  -- Each of the two is a vote that the other one is not below.
  have hleft := hstands'.top _ ((hmem _).mp hstands.mem) rfl
  have hright := hstands.top _ ((hmem _).mpr hstands'.mem) rfl
  rcases hleft with hlt | ⟨rfl, rfl⟩
  · rcases hright with hlt' | ⟨heq, -⟩
    · exact absurd hlt (lt_asymm hlt')
    · exact absurd heq hlt.ne'
  · rfl

omit [DecidableEq β] in
theorem tallied_update (h : Tallied votes standing)
    (hnew : standing' = Function.update standing vote.key (some (vote.rank, vote.value)))
    (htop : ∀ v ∈ votes, v.key = vote.key →
      v.rank < vote.rank ∨ v.rank = vote.rank ∧ v.value = vote.value) :
    Tallied (votes ++ [vote]) standing' := by
  subst hnew
  constructor
  · intro key
    by_cases hkey : key = vote.key
    · subst hkey
      rw [update_self]
      constructor
      · intro hnone
        cases hnone
      · intro hall
        exact absurd rfl (hall vote (by simp))
    · rw [update_of_ne hkey, h.none_iff]
      constructor
      · intro hall v hv
        rcases mem_append.mp hv with hv | hv
        · exact hall v hv
        · rw [mem_singleton.mp hv]
          exact Ne.symm hkey
      · intro hall v hv
        exact hall v (mem_append_left _ hv)
  · intro key rank value hs
    by_cases hkey : key = vote.key
    · subst hkey
      rw [update_self] at hs
      cases hs
      refine ⟨by simp, fun v hv hvk => ?_⟩
      rcases mem_append.mp hv with hv | hv
      · exact htop v hv hvk
      · rw [mem_singleton.mp hv]
        exact .inr ⟨rfl, rfl⟩
    · rw [update_of_ne hkey] at hs
      have hstands := h.stands key rank value hs
      refine ⟨mem_append_left _ hstands.mem, fun v hv hvk => ?_⟩
      rcases mem_append.mp hv with hv | hv
      · exact hstands.top v hv hvk
      · rw [mem_singleton.mp hv] at hvk
        exact absurd hvk.symm hkey

omit [DecidableEq κ] [DecidableEq β] in
theorem tallied_ignored {rank : ρ} {value : β} (h : Tallied votes standing)
    (hs : standing vote.key = some (rank, value))
    (hlt : vote.rank < rank) : Tallied (votes ++ [vote]) standing := by
  constructor
  · intro key
    rw [h.none_iff]
    constructor
    · intro hall v hv
      rcases mem_append.mp hv with hv | hv
      · exact hall v hv
      rw [mem_singleton.mp hv]
      rintro rfl
      rw [(h.none_iff vote.key).mpr hall] at hs
      cases hs
    · intro hall v hv
      exact hall v (mem_append_left _ hv)
  · intro key rank' value' hs'
    have hstands := h.stands key rank' value' hs'
    refine ⟨mem_append_left _ hstands.mem, fun v hv hvk => ?_⟩
    rcases mem_append.mp hv with hv | hv
    · exact hstands.top v hv hvk
    rw [mem_singleton.mp hv] at hvk ⊢
    rw [hvk, hs'] at hs
    cases hs
    exact .inl hlt

/-- Counting one more vote. -/
theorem countVote_tallied (h : Tallied votes standing)
    (hcount : countVote standing vote = .ok standing') : Tallied (votes ++ [vote]) standing' := by
  unfold countVote at hcount
  split at hcount
  · next hs =>
      refine tallied_update h (Except.ok.inj hcount).symm fun v hv hvk => ?_
      exact absurd hvk ((h.none_iff vote.key).mp hs v hv)
  rename_i rank value hs
  split at hcount
  · next hlt =>
      obtain rfl := Except.ok.inj hcount
      exact tallied_ignored h hs hlt
  split at hcount
  · cases hcount
  rename_i hge hagree
  refine tallied_update h (Except.ok.inj hcount).symm ?_
  intro v hv hvk
  have htop := (h.stands _ rank value hs).top v hv hvk
  rcases lt_or_eq_of_le (not_lt.mp hge) with hlt | rfl
  · left
    rcases htop with hv | ⟨hv, -⟩
    · exact hv.trans hlt
    · exact hv.trans_lt hlt
  · have hvalue : value = vote.value := by
      by_contra hne
      exact hagree ⟨rfl, hne⟩
    rw [← hvalue]
    exact htop

theorem tally_tallied (h : tally votes = .ok standing) : Tallied votes standing := by
  induction votes using List.reverseRecOn generalizing standing with
  | nil =>
    obtain rfl := Except.ok.inj h
    exact ⟨by simp, by simp⟩
  | append_singleton votes vote ih =>
    rw [tally_concat] at h
    cases hvotes : tally votes with
    | error stopped =>
      rw [hvotes] at h
      cases h
    | ok before =>
      rw [hvotes] at h
      exact countVote_tallied (ih hvotes) h

/-! ## When a count is stopped -/

/-- Two votes of one rank for different values of a key. -/
structure Disagree (a b : Vote κ ρ β) : Prop where
  key : a.key = b.key
  rank : a.rank = b.rank
  value : a.value ≠ b.value

/-- Some votes disagree. -/
def Clash (votes : List (Vote κ ρ β)) : Prop :=
  ∃ a ∈ votes, ∃ b ∈ votes, Disagree a b

/-- Votes of the highest rank for their key disagree. -/
def TopClash (votes : List (Vote κ ρ β)) : Prop :=
  ∃ a ∈ votes, ∃ b ∈ votes, Disagree a b ∧ ∀ v ∈ votes, v.key = a.key → v.rank ≤ a.rank

variable {stopped : Vote κ ρ β}

/-- A count that is stopped by its last vote met one that disagrees. -/
theorem countVote_eq_error (h : countVote standing vote = .error stopped) :
    ∃ value, standing vote.key = some (vote.rank, value) ∧ value ≠ vote.value ∧ vote = stopped := by
  unfold countVote at h
  split at h
  · cases h
  rename_i rank value hs
  split at h
  · cases h
  split at h
  · next hagree =>
      rw [← hagree.1]
      exact ⟨value, hs, hagree.2, Except.error.inj h⟩
  · cases h

/-- A count that is stopped names one of two votes that disagree. -/
theorem tally_eq_error (h : tally votes = .error stopped) :
    stopped ∈ votes ∧ ∃ other ∈ votes, Disagree stopped other := by
  induction votes using List.reverseRecOn with
  | nil => cases h
  | append_singleton votes vote ih =>
    rw [tally_concat] at h
    cases hvotes : tally votes with
    | error earlier =>
      rw [hvotes] at h
      obtain rfl := Except.error.inj h
      obtain ⟨hmem, other, hother, hdisagree⟩ := ih hvotes
      exact ⟨mem_append_left _ hmem, other, mem_append_left _ hother, hdisagree⟩
    | ok before =>
      rw [hvotes] at h
      obtain ⟨value, hs, hne, rfl⟩ := countVote_eq_error h
      have hmem := ((tally_tallied hvotes).stands _ _ _ hs).mem
      exact ⟨by simp, _, mem_append_left _ hmem, rfl, rfl, hne.symm⟩

/-- Votes that nowhere disagree are counted. -/
theorem tally_of_not_clash (h : ¬ Clash votes) : ∃ standing, tally votes = .ok standing := by
  cases htally : tally votes with
  | ok standing => exact ⟨standing, rfl⟩
  | error stopped =>
    obtain ⟨hmem, other, hother, hdisagree⟩ := tally_eq_error htally
    exact absurd ⟨stopped, hmem, other, hother, hdisagree⟩ h

/-- Votes counted from the highest rank down are counted unless those of the
highest rank disagree. -/
theorem tally_of_sorted (hsorted : votes.Pairwise fun a b => b.rank ≤ a.rank)
    (h : ¬ TopClash votes) : ∃ standing, tally votes = .ok standing := by
  induction votes using List.reverseRecOn with
  | nil => exact ⟨_, rfl⟩
  | append_singleton votes vote ih =>
    obtain ⟨hbefore, -, hlast⟩ := pairwise_append.mp hsorted
    have hle : ∀ v ∈ votes, vote.rank ≤ v.rank := fun v hv =>
      hlast v hv vote (mem_singleton_self vote)
    obtain ⟨before, hcounted⟩ := ih hbefore fun ⟨a, ha, b, hb, hab, htop⟩ =>
      h ⟨a, mem_append_left _ ha, b, mem_append_left _ hb, hab, fun v hv hvk => by
          rcases mem_append.mp hv with hv | hv
          · exact htop v hv hvk
          · rw [mem_singleton.mp hv]
            exact hle a ha⟩
    rw [tally_concat, hcounted]
    cases hcount : countVote before vote with
    | ok standing => exact ⟨standing, hcount⟩
    | error stopped =>
      obtain ⟨value, hs, hne, -⟩ := countVote_eq_error hcount
      have hstands := (tally_tallied hcounted).stands _ _ _ hs
      refine absurd ⟨_, mem_append_left _ hstands.mem, vote, by simp,
        ⟨rfl, rfl, hne⟩, fun v hv hvk => ?_⟩ h
      rcases mem_append.mp hv with hv | hv
      · rcases hstands.top v hv hvk with hlt | ⟨heq, -⟩
        · exact hlt.le
        · exact heq.le
      · rw [mem_singleton.mp hv]

/-- Votes of the highest rank that disagree stop every count. -/
theorem tally_ne_ok_of_topClash (h : TopClash votes) : tally votes ≠ .ok standing := by
  intro hok
  obtain ⟨a, ha, b, hb, hab, htop⟩ := h
  have htallied := tally_tallied hok
  rcases hs : standing a.key with _ | ⟨rank, value⟩
  · exact (htallied.none_iff a.key).mp hs a ha rfl
  have hstands := htallied.stands _ _ _ hs
  have hrank := htop _ hstands.mem rfl
  -- Both votes have the rank of what stands, so both agree with it.
  have hvalue : ∀ v ∈ votes, v.key = a.key → v.rank = a.rank → v.value = value := by
    intro v hv hvk hvr
    rcases hstands.top v hv hvk with hlt | ⟨-, hvalue⟩
    · exact absurd (hlt.trans_le hrank) (by rw [hvr]; exact lt_irrefl _)
    · exact hvalue
  refine hab.value ?_
  rw [hvalue a ha rfl rfl, hvalue b hb hab.key.symm hab.rank.symm]

omit [DecidableEq κ] [DecidableEq β] in
theorem topClash_congr (hmem : ∀ v, v ∈ votes ↔ v ∈ others)
    (h : TopClash votes) : TopClash others := by
  obtain ⟨a, ha, b, hb, hab, htop⟩ := h
  exact ⟨a, (hmem a).mp ha, b, (hmem b).mp hb, hab, fun v hv => htop v ((hmem v).mpr hv)⟩

omit [DecidableEq κ] [LinearOrder ρ] [DecidableEq β] in
theorem clash_congr (hmem : ∀ v, v ∈ votes ↔ v ∈ others) (h : Clash votes) : Clash others := by
  obtain ⟨a, ha, b, hb, hab⟩ := h
  exact ⟨a, (hmem a).mp ha, b, (hmem b).mp hb, hab⟩

/-- Votes of one rank that disagree stop a count that starts with them. -/
theorem tally_ne_ok_of_clash {rank : ρ} (hrank : ∀ v ∈ votes, v.rank = rank)
    (h : Clash votes) : tally (votes ++ others) ≠ .ok standing := by
  intro hok
  rw [tally_append] at hok
  obtain ⟨a, ha, b, hb, hab⟩ := h
  have htop : TopClash votes := ⟨a, ha, b, hb, hab, fun v hv _ => by
    rw [hrank v hv, hrank a ha]⟩
  cases hfirst : tally votes with
  | error stopped =>
    rw [hfirst] at hok
    cases hok
  | ok before => exact tally_ne_ok_of_topClash htop hfirst

end ExpOS
