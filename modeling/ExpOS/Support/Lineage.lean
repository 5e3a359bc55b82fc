import ExpOS.Support.SlotTable
import Mathlib.Data.List.Nodup

/-!
# Parent-linked records

Records that carry their own key and, unless they are roots, the key of a
parent.  A list of records is *grown* when each one was appended with a fresh
key and either as a root or below a record already present.  Such a list is a
forest: keys are distinct, every parent is present, and the chain of parents
from any record ends at a root.

The second half is about sweeps that spread a mark from a record to all of
its descendants by repeated passes over the whole table.
-/

namespace ExpOS.Lineage

open List SlotTable Option

variable {ν ι : Type*}

/-- Lists built by appending roots and children of present records; `R`
relates every child to its parent. -/
inductive Grown (key : ν → ι) (parentKey : ν → Option ι)
    (R : ν → ν → Prop) : List ν → Prop
  | nil : Grown key parentKey R []
  | snoc {records : List ν} {n : ν} :
      Grown key parentKey R records → (∀ m ∈ records, key m ≠ key n) → (parentKey n = none ∨
        ∃ p ∈ records, parentKey n = some (key p) ∧ R p n) →
      Grown key parentKey R (records ++ [n])

variable {key : ν → ι} {parentKey : ν → Option ι} {R : ν → ν → Prop}

namespace Grown

variable {records : List ν}

theorem nodup_keys (h : Grown key parentKey R records) : (records.map key).Nodup := by
  induction h with
  | nil => simp
  | snoc _ hfresh _ ih =>
    rw [map_append, map_cons, map_nil, nodup_append]
    refine ⟨ih, nodup_singleton _, ?_⟩
    intro a ha b hb
    obtain ⟨m, hm, rfl⟩ := mem_map.mp ha
    rw [mem_singleton] at hb
    subst hb
    exact hfresh m hm

/-- A key determines its record. -/
theorem eq_of_key_eq (h : Grown key parentKey R records) {m n : ν}
    (hm : m ∈ records) (hn : n ∈ records) (hkey : key m = key n) : m = n :=
  inj_on_of_nodup_map h.nodup_keys hm hn hkey

/-- A record with a parent key has its parent in the list, related by `R`. -/
theorem exists_parent (h : Grown key parentKey R records) {n : ν} {k : ι}
    (hn : n ∈ records) (hk : parentKey n = some k) : ∃ p ∈ records, key p = k ∧ R p n := by
  induction h with
  | nil => simp at hn
  | snoc _ _ hparent ih =>
    rcases mem_append.mp hn with hold | hnew
    · obtain ⟨p, hp, hkey, hrel⟩ := ih hold
      exact ⟨p, mem_append_left _ hp, hkey, hrel⟩
    rw [mem_singleton] at hnew
    subst hnew
    rcases hparent with hroot | ⟨p, hp, hpk, hrel⟩
    · rw [hroot] at hk
      cases hk
    · rw [hpk] at hk
      exact ⟨p, mem_append_left _ hp, Option.some.inj hk, hrel⟩

/-- Rewriting records without touching keys or links keeps the growth. -/
theorem map (h : Grown key parentKey R records)
    {f : ν → ν} (hkey : ∀ n, key (f n) = key n) (hlink : ∀ n, parentKey (f n) = parentKey n)
    (hrel : ∀ p n, R p n → R (f p) (f n)) : Grown key parentKey R (records.map f) := by
  induction h with
  | nil => exact Grown.nil
  | snoc _ hfresh hparent ih =>
    rw [map_append, map_cons]
    refine Grown.snoc ih ?_ ?_
    · intro m hm
      obtain ⟨n, hn, rfl⟩ := mem_map.mp hm
      rw [hkey, hkey]
      exact hfresh n hn
    · rcases hparent with hroot | ⟨p, hp, hpk, hpn⟩
      · exact .inl (by rw [hlink]; exact hroot)
      · refine .inr ⟨f p, mem_map_of_mem hp, ?_, hrel _ _ hpn⟩
        rw [hlink, hkey]
        exact hpk

end Grown

variable [DecidableEq ι]

/-- The first record with the given key. -/
def lookup (key : ν → ι) (records : List ν) (k : ι) : Option ν :=
  records.find? (fun n => key n = k)

/-- The parent of a record, when it has one in the list. -/
def parentOf (key : ν → ι) (parentKey : ν → Option ι) (records : List ν) (n : ν) : Option ν :=
  (parentKey n).bind (lookup key records)

/-- The record reached by following `k` parent links. -/
def ancestor (key : ν → ι) (parentKey : ν → Option ι) (records : List ν) : ℕ → ν → Option ν
  | 0, n => some n
  | k + 1, n =>
    (parentOf key parentKey records n).bind
      (ancestor key parentKey records k)

variable {records : List ν}

theorem lookup_mem {k : ι} {n : ν} (h : lookup key records k = some n) : n ∈ records ∧ key n = k :=
  ⟨mem_of_find?_eq_some h, by simpa using List.find?_some h⟩

namespace Grown

variable {records : List ν} {n : ν}

theorem lookup_key (h : Grown key parentKey R records) (hn : n ∈ records) :
    lookup key records (key n) = some n := by
  cases hfind : lookup key records (key n) with
  | none =>
    have hnone := List.find?_eq_none.mp hfind n hn
    simp at hnone
  | some m =>
    obtain ⟨hm, hkey⟩ := lookup_mem hfind
    rw [h.eq_of_key_eq hm hn hkey]

theorem parentOf_eq_some (h : Grown key parentKey R records) {k : ι}
    (hn : n ∈ records) (hk : parentKey n = some k) : ∃ p ∈ records, key p = k ∧ R p n ∧
      parentOf key parentKey records n = some p := by
  obtain ⟨p, hp, hkey, hrel⟩ := h.exists_parent hn hk
  refine ⟨p, hp, hkey, hrel, ?_⟩
  rw [parentOf, hk, ← hkey]
  exact h.lookup_key hp

theorem of_parentOf (h : Grown key parentKey R records) {p : ν} (hn : n ∈ records)
    (hp : parentOf key parentKey records n = some p) :
    p ∈ records ∧ parentKey n = some (key p) ∧ R p n := by
  cases hk : parentKey n with
  | none => simp [parentOf, hk] at hp
  | some k =>
    obtain ⟨q, hq, hkey, hrel, hparent⟩ := h.parentOf_eq_some hn hk
    rw [hparent] at hp
    cases hp
    exact ⟨hq, by rw [hkey], hrel⟩

/-- Any preorder that contains `R` holds along the whole chain of parents. -/
theorem ancestor_rel (h : Grown key parentKey R records) {S : ν → ν → Prop}
    (hrefl : ∀ n, S n n) (htrans : ∀ a b c, S a b → S b c → S a c)
    (hstep : ∀ p n, R p n → S p n) {k : ℕ} {a : ν} (hn : n ∈ records)
    (ha : ancestor key parentKey records k n = some a) : S a n := by
  induction k generalizing n with
  | zero =>
    obtain rfl : n = a := Option.some.inj ha
    exact hrefl n
  | succ k ih =>
    obtain ⟨p, hp, ha⟩ := bind_eq_some_iff.mp ha
    obtain ⟨hpmem, -, hrel⟩ := h.of_parentOf hn hp
    exact htrans a p n (ih hpmem ha) (hstep p n hrel)

theorem lookup_append {m p : ν}
    (h : Grown key parentKey R (records ++ [m])) (hp : p ∈ records) :
    lookup key (records ++ [m]) (key p) = lookup key records (key p) := by
  have hall := h.lookup_key (mem_append_left [m] hp)
  rw [hall]
  cases hfind : lookup key records (key p) with
  | none =>
    have hnone := List.find?_eq_none.mp hfind p hp
    simp at hnone
  | some q =>
    obtain ⟨hq, hkey⟩ := lookup_mem hfind
    rw [h.eq_of_key_eq (mem_append_left [m] hq) (mem_append_left [m] hp) hkey]

/-- Appending a record changes no chain of an older record. -/
theorem ancestor_append {m : ν} (h : Grown key parentKey R records)
    (h' : Grown key parentKey R (records ++ [m]))
    {k : ℕ} (hn : n ∈ records) : ancestor key parentKey (records ++ [m]) k n =
      ancestor key parentKey records k n := by
  induction k generalizing n with
  | zero => rfl
  | succ k ih =>
    cases hk : parentKey n with
    | none => simp [ancestor, parentOf, hk]
    | some i =>
      obtain ⟨p, hp, hkey, -, hparent⟩ := h.parentOf_eq_some hn hk
      have hparent' : parentOf key parentKey (records ++ [m]) n = some p := by
        rw [parentOf, hk, bind_some, ← hkey, lookup_append h' hp]
        exact h.lookup_key hp
      simp only [ancestor, hparent, hparent']
      exact ih hp

/-- Following parent links ends at a root before the list is exhausted. -/
theorem exists_root
    (h : Grown key parentKey R records) (hn : n ∈ records) : ∃ k < records.length, ∃ r,
      ancestor key parentKey records k n = some r ∧ parentKey r = none := by
  induction h generalizing n with
  | nil => simp at hn
  | @snoc records m hgrown hfresh hparent ih =>
    have hall : Grown key parentKey R (records ++ [m]) := Grown.snoc hgrown hfresh hparent
    rcases mem_append.mp hn with hold | hnew
    · obtain ⟨k, hk, r, hr, hroot⟩ := ih hold
      refine ⟨k, by simp; omega, r, ?_, hroot⟩
      rw [ancestor_append hgrown hall hold]
      exact hr
    rw [mem_singleton] at hnew
    subst hnew
    rcases hparent with hroot | ⟨p, hp, hpk, -⟩
    · exact ⟨0, by simp, n, rfl, hroot⟩
    obtain ⟨k, hk, r, hr, hroot⟩ := ih hp
    refine ⟨k + 1, by simp; omega, r, ?_, hroot⟩
    have hpn : parentOf key parentKey (records ++ [n]) n = some p := by
      rw [parentOf, hpk]
      exact hall.lookup_key (mem_append_left _ hp)
    rw [ancestor, hpn, bind_some, ancestor_append hgrown hall hp]
    exact hr

end Grown

/-! ## Spreading a mark to all descendants -/

/-- The chain of parents from `n`, `n` itself included, meets the key. -/
def Descends (key : ν → ι) (parentKey : ν → Option ι)
    (records : List ν) (seed : ι) (n : ν) : Prop :=
  ∃ k a, ancestor key parentKey records k n = some a ∧ key a = seed

theorem Descends.of_parent {seed : ι} {n p : ν}
    (hparent : parentOf key parentKey records n = some p)
    (h : Descends key parentKey records seed p) : Descends key parentKey records seed n := by
  obtain ⟨k, a, ha, hkey⟩ := h
  exact ⟨k + 1, a, by rw [ancestor, hparent]; exact ha, hkey⟩

/-- One pass: mark every record that `flag` selects in the old table. -/
def sweepPass {capacity : ℕ} (flag : List ν → ν → Bool) (mark : ν → ν)
    (t : SlotTable ν capacity) : SlotTable ν capacity :=
  t.map (fun n => if flag t.occupants n then mark n else n)

/-- Repeat passes until one selects nothing. -/
def sweepLoop {capacity : ℕ} (flag : List ν → ν → Bool) (mark : ν → ν) :
    ℕ → SlotTable ν capacity → Option (SlotTable ν capacity)
  | 0, _ => none
  | fuel + 1, t =>
    if t.occupants.any (flag t.occupants) then
      sweepLoop flag mark fuel (sweepPass flag mark t)
    else
      some t

/-- What a mark and the flag that spreads it from `seed` have to satisfy. -/
structure Spreads (key : ν → ι) (parentKey : ν → Option ι)
    (R : ν → ν → Prop) (seed : ι) (marked : ν → Bool) (mark : ν → ν)
    (flag : List ν → ν → Bool) : Prop where
  key_mark : ∀ n, key (mark n) = key n
  link_mark : ∀ n, parentKey (mark n) = parentKey n
  marked_mark : ∀ n, marked (mark n) = true
  mark_of_marked : ∀ n, marked n = true → mark n = n
  rel_mark : ∀ p n p' n', (p' = p ∨ p' = mark p) → (n' = n ∨ n' = mark n) → R p n → R p' n'
  flag_iff : ∀ records n, flag records n = true ↔ (key n = seed ∨ ∃ p ∈ records,
      parentKey n = some (key p) ∧ marked p = true) ∧ marked n = false

/-- Marks reach every child of a marked record. -/
def Closed (key : ν → ι) (parentKey : ν → Option ι) (marked : ν → Bool) (records : List ν) : Prop :=
  ∀ n ∈ records, ∀ p ∈ records, parentKey n = some (key p) → marked p = true → marked n = true

section Sweep

variable {capacity : ℕ} {seed : ι} {marked : ν → Bool} {mark : ν → ν}
  {flag : List ν → ν → Bool}

/-- A partial result of the sweep over `records`: some records are marked,
and each newly marked one descends from the seed. -/
structure Spreading (key : ν → ι) (parentKey : ν → Option ι) (seed : ι)
    (marked : ν → Bool) (mark : ν → ν) (records : List ν)
    (g : ν → ν) : Prop where
  cases : ∀ n, g n = n ∨ g n = mark n
  sound : ∀ n ∈ records, marked (g n) = true →
    marked n = true ∨ Descends key parentKey records seed n

variable (S : Spreads key parentKey R seed marked mark flag)
include S

variable {records : List ν} {g : ν → ν}

theorem Spreading.key_eq
    (P : Spreading key parentKey seed marked mark records g) (n : ν) : key (g n) = key n := by
  rcases P.cases n with h | h
  · rw [h]
  · rw [h, S.key_mark]

theorem Spreading.link_eq (P : Spreading key parentKey seed marked mark records g) (n : ν) :
    parentKey (g n) = parentKey n := by
  rcases P.cases n with h | h
  · rw [h]
  · rw [h, S.link_mark]

/-- One more pass keeps the partial result. -/
theorem Spreading.step (hgrown : Grown key parentKey R records)
    (hclosed : Closed key parentKey marked records)
    (P : Spreading key parentKey seed marked mark records g) :
    Spreading key parentKey seed marked mark records
      (fun n => if flag (records.map g) (g n) then mark (g n) else g n) := by
  constructor
  · intro n
    split
    · rcases P.cases n with h | h
      · exact .inr (by rw [h])
      · right
        rw [h, S.mark_of_marked _ (S.marked_mark n)]
    · exact P.cases n
  · intro n hn hmarked
    split at hmarked
    · next hflag =>
        obtain ⟨hwhy, -⟩ := (S.flag_iff _ _).mp hflag
        rcases hwhy with hseed | ⟨q, hq, hlink, hqmarked⟩
        · rw [P.key_eq S] at hseed
          exact .inr ⟨0, n, rfl, hseed⟩
        obtain ⟨p, hp, rfl⟩ := mem_map.mp hq
        rw [P.link_eq S, P.key_eq S] at hlink
        rcases P.sound p hp hqmarked with hold | hdesc
        · exact .inl (hclosed n hn p hp hlink hold)
        right
        refine Descends.of_parent ?_ hdesc
        rw [parentOf, hlink]
        exact hgrown.lookup_key hp
    · exact P.sound n hn hmarked

/-- When a pass selects nothing, every descendant of the seed is marked. -/
theorem Spreading.complete (hgrown : Grown key parentKey R records)
    (P : Spreading key parentKey seed marked mark records g)
    (hstop : ∀ n ∈ records, flag (records.map g) (g n) = false)
    {n : ν} (hn : n ∈ records) (hdesc : Descends key parentKey records seed n) :
    marked (g n) = true := by
  obtain ⟨k, a, ha, hseed⟩ := hdesc
  -- The induction follows the chain of parents from `n` up to the seed.
  induction k generalizing n with
  | zero =>
    obtain rfl : n = a := Option.some.inj ha
    by_contra hnot
    have hflag : flag (records.map g) (g n) = true := by
      rw [S.flag_iff, P.key_eq S]
      exact ⟨.inl hseed, by simpa using hnot⟩
    rw [hstop n hn] at hflag
    cases hflag
  | succ k ih =>
    obtain ⟨p, hp, ha⟩ := bind_eq_some_iff.mp ha
    obtain ⟨hpmem, hlink, -⟩ := hgrown.of_parentOf hn hp
    have hpmarked := ih hpmem ha
    by_contra hnot
    have hflag : flag (records.map g) (g n) = true := by
      rw [S.flag_iff, P.link_eq S]
      refine ⟨.inr ⟨g p, mem_map_of_mem hpmem, ?_, hpmarked⟩, by simpa using hnot⟩
      rw [P.key_eq S]
      exact hlink
    rw [hstop n hn] at hflag
    cases hflag

omit S in
/-- Each pass that selects a record leaves fewer unmarked ones. -/
theorem countP_map_lt {f : ν → ν} {p : ν → Bool}
    (hle : ∀ n ∈ records, p (f n) = true → p n = true)
    (hlt : ∃ n ∈ records, p n = true ∧ p (f n) = false) :
    (records.map f).countP p < records.countP p := by
  induction records with
  | nil => simp at hlt
  | cons m records ih =>
    have hmono : (records.map f).countP p ≤ records.countP p := by
      rw [countP_map]
      apply countP_mono_left
      intro n hn h
      exact hle n (mem_cons_of_mem m hn) h
    obtain ⟨n, hn, hpn, hpf⟩ := hlt
    rcases mem_cons.mp hn with rfl | hn
    · simp only [map_cons, countP_cons, hpn, hpf]
      simp only [Bool.false_eq_true, if_false, if_true]
      omega
    have hrec := ih (fun x hx => hle x (mem_cons_of_mem m hx)) ⟨n, hn, hpn, hpf⟩
    have hhead := hle m mem_cons_self
    simp only [map_cons, countP_cons]
    cases hm : p m <;> cases hfm : p (f m) <;>
      simp only [hm, hfm, if_true, if_false, Bool.false_eq_true]
        at hhead ⊢ <;> first | omega | simp_all

variable {t : SlotTable ν capacity}

/-- The sweep ends and marks exactly the descendants of the seed. -/
theorem sweepLoop_spreading
    (hgrown : Grown key parentKey R t.occupants) (hclosed : Closed key parentKey marked t.occupants)
    (P : Spreading key parentKey seed marked mark t.occupants g)
    {fuel : ℕ} (hfuel : (t.occupants.map g).countP (fun n => !marked n) < fuel) :
    ∃ g', sweepLoop flag mark fuel (t.map g) = some (t.map g') ∧ ∀ n ∈ t.occupants,
        (Descends key parentKey t.occupants seed n → g' n = mark n) ∧
        (¬ Descends key parentKey t.occupants seed n → g' n = n) := by
  induction fuel generalizing g with
  | zero => omega
  | succ fuel ih =>
    rw [sweepLoop]
    by_cases hany : (t.map g).occupants.any (flag (t.map g).occupants) = true
    · rw [if_pos hany]
      have hpass : sweepPass flag mark (t.map g) = t.map (fun n => if flag (t.occupants.map g) (g n)
            then mark (g n) else g n) := by
        apply SlotTable.ext
        rw [sweepPass, occupants_map]
        simp only [SlotTable.map, List.map_map]
        apply List.map_congr_left
        intro o _
        cases o <;> rfl
      rw [hpass]
      apply ih (P.step S hgrown hclosed)
      obtain ⟨m, hm, hflag⟩ := any_eq_true.mp hany
      rw [occupants_map] at hm hflag
      obtain ⟨n, hn, rfl⟩ := mem_map.mp hm
      have hmap : t.occupants.map (fun n =>
          if flag (t.occupants.map g) (g n) then mark (g n)
          else g n) =
        (t.occupants.map g).map (fun n =>
          if flag (t.occupants.map g) n then mark n else n) := by
        simp [Function.comp_def]
      rw [hmap]
      refine Nat.lt_of_lt_of_le (countP_map_lt ?_ ?_) (Nat.le_of_lt_succ hfuel)
      · intro x _ hx
        split at hx
        · simp [S.marked_mark] at hx
        · exact hx
      · refine ⟨g n, mem_map_of_mem hn, ?_, ?_⟩
        · have := ((S.flag_iff _ _).mp hflag).2
          simp [this]
        · simp [hflag, S.marked_mark]
    · rw [if_neg hany]
      rw [occupants_map] at hany
      have hstop : ∀ n ∈ t.occupants, flag (t.occupants.map g) (g n) = false := by
        intro n hn
        by_contra h
        exact hany (any_eq_true.mpr ⟨g n, mem_map_of_mem hn, by simpa using h⟩)
      refine ⟨g, rfl, fun n hn => ⟨fun hdesc => ?_, fun hnot => ?_⟩⟩
      · have hmarked := P.complete S hgrown hstop hn hdesc
        rcases P.cases n with h | h
        · rw [h] at hmarked ⊢
          exact (S.mark_of_marked n hmarked).symm
        · exact h
      · rcases P.cases n with h | h
        · exact h
        have hmarked : marked (g n) = true := by
          rw [h]
          exact S.marked_mark n
        rcases P.sound n hn hmarked with hold | hdesc
        · rw [h]
          exact S.mark_of_marked n hold
        · exact absurd hdesc hnot

/-- With fuel for one pass per cell and one more, the sweep over a grown,
closed table ends having marked exactly the descendants of the seed. -/
theorem sweepLoop_spec (hgrown : Grown key parentKey R t.occupants)
    (hclosed : Closed key parentKey marked t.occupants) :
    ∃ g, sweepLoop flag mark (capacity + 1) t = some (t.map g) ∧ ∀ n ∈ t.occupants,
        (Descends key parentKey t.occupants seed n → g n = mark n) ∧
        (¬ Descends key parentKey t.occupants seed n → g n = n) := by
  have hid : t.map id = t := by
    apply SlotTable.ext
    simp [SlotTable.map]
  have hcount : (t.occupants.map id).countP (fun n => !marked n) < capacity + 1 := by
    have hle := countP_le_length (p := fun n => !marked n) (l := t.occupants.map id)
    have hlen := t.length_occupants_le
    rw [length_map] at hle
    omega
  have P : Spreading key parentKey seed marked mark t.occupants id :=
    ⟨fun n => .inl rfl, fun n _ h => .inl h⟩
  have h := sweepLoop_spreading S hgrown hclosed P hcount
  rwa [hid] at h

end Sweep

end ExpOS.Lineage
