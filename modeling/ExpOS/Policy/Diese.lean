import ExpOS.Policy.Pimp
import ExpOS.Support.SlotTable
import ExpOS.Support.Tally

/-!
# DIESE: resolving policy specifications

DIESE keeps at most sixteen specifications in the order they were pushed and
resolves them for a Form in a Dimension.  For every key the entry of the
highest scope wins; two entries of one scope with different values are a
conflict.

Resolution is a count of ranked votes: each applicable specification votes for
the values it sets, with its scope as the rank.  A conflict below the highest
scope of its key is reported only if it is met before the entry that overrides
it, so the outcome can depend on the order of the specifications.
-/

namespace ExpOS

open List SlotTable

inductive Diagnostic where
  | tooManySpecifications
  | conflict (key : SpecKey) (scope : PimpScope)
  | missingPolicy
deriving DecidableEq

structure Resolution where
  useMode : Option Text
  backend : Option Text
  network : Option NetworkPolicy
  debug : Option Bool
  isolation : Option Bool
deriving DecidableEq

/-- The resolved value of a key. -/
def Resolution.value (resolution : Resolution) : SpecKey → Option PimpValue
  | .use => resolution.useMode.map .name
  | .backend => resolution.backend.map .name
  | .network => resolution.network.map .network
  | .debug => resolution.debug.map .enabled
  | .isolation => resolution.isolation.map .enabled

def maxSpecs : ℕ := 16

/-- The specifications in the order they were pushed. -/
abbrev Diese := SlotTable PimpSpec maxSpecs

/-- For each key the selected entry, with the scope it comes from. -/
abbrev Selection := Standing SpecKey PimpScope PimpValue

def nameValue : Option (PimpScope × PimpValue) → Option Text
  | some (_, .name value) => some value
  | _ => none

def networkValue : Option (PimpScope × PimpValue) → Option NetworkPolicy
  | some (_, .network value) => some value
  | _ => none

def boolValue : Option (PimpScope × PimpValue) → Option Bool
  | some (_, .enabled value) => some value
  | _ => none

/-- What is selected, key by key. -/
def Selection.resolution (selected : Selection) : Resolution where
  useMode := nameValue (selected .use)
  backend := nameValue (selected .backend)
  network := networkValue (selected .network)
  debug := boolValue (selected .debug)
  isolation := boolValue (selected .isolation)

/-- The specification is about the Form, in this Dimension or in all. -/
def PimpSpec.applies (target dimension : FormFin) (spec : PimpSpec) : Bool :=
  spec.target == target &&
    match spec.dimension with
    | some required => required == dimension
    | none => true

namespace Diese

def new : Diese := SlotTable.empty PimpSpec maxSpecs

def push (diese : Diese) (spec : PimpSpec) : Except Diagnostic Diese :=
  match diese.freeIndex with
  | none => .error .tooManySpecifications
  | some index => .ok (diese.put index (some spec))

/-- Consider one entry of an applicable specification. -/
def selectEntry (scope : PimpScope) (selected : Selection)
    (entry : PimpEntry) : Except Diagnostic Selection :=
  match selected entry.key with
  | none =>
    .ok (Function.update selected entry.key (some (scope, entry.value)))
  | some (current, value) =>
    if scope < current then .ok selected
    else if current = scope ∧ value ≠ entry.value then
      .error (.conflict entry.key scope)
    else
      .ok (Function.update selected entry.key (some (scope, entry.value)))

/-- Consider one specification; the flag says whether any applied. -/
def selectSpec (target dimension : FormFin) (state : Selection × Bool)
    (spec : PimpSpec) : Except Diagnostic (Selection × Bool) :=
  if spec.applies target dimension then
    match spec.entries.list.foldlM (selectEntry spec.scope) state.1 with
    | .error diagnostic => .error diagnostic
    | .ok selected => .ok (selected, true)
  else
    .ok state

def resolve (diese : Diese) (target dimension : FormFin) : Except Diagnostic Resolution :=
  match diese.occupants.foldlM (selectSpec target dimension)
      ((fun _ => none), false) with
  | .error diagnostic => .error diagnostic
  | .ok (selected, matched) =>
    if matched then .ok selected.resolution else .error .missingPolicy

/-- Push all specifications, in order, and resolve. -/
def resolveAll (specs : List PimpSpec) (target dimension : FormFin) :
    Except Diagnostic Resolution := do
  let diese ← specs.foldlM push new
  diese.resolve target dimension

/-! ## Pushing -/

variable {diese : Diese}

theorem push_packed (h : diese.Packed)
    (hroom : diese.occupants.length < maxSpecs) (spec : PimpSpec) :
    ∃ diese', diese.push spec = .ok diese' ∧ diese'.Packed ∧
      diese'.occupants = diese.occupants ++ [spec] := by
  have hfree : diese.freeIndex = some diese.occupants.length := by
    rw [h.freeIndex_eq, if_pos hroom]
  refine ⟨diese.put diese.occupants.length (some spec), ?_,
    h.put hfree spec, h.occupants_put hfree spec⟩
  rw [push, hfree]

theorem foldlM_push (h : diese.Packed)
    {specs : List PimpSpec} (hroom : diese.occupants.length + specs.length ≤ maxSpecs) :
    ∃ diese', specs.foldlM push diese = .ok diese' ∧
      diese'.occupants = diese.occupants ++ specs := by
  induction specs generalizing diese with
  | nil => exact ⟨diese, rfl, (append_nil _).symm⟩
  | cons spec specs ih =>
    rw [length_cons] at hroom
    obtain ⟨next, hpush, hpacked, hoccupants⟩ :=
      push_packed h (by omega) spec
    have hlength := congrArg List.length hoccupants
    rw [length_append, length_singleton] at hlength
    obtain ⟨diese', hfold, hall⟩ := ih hpacked (by omega)
    refine ⟨diese', ?_, ?_⟩
    · rw [foldlM_cons, hpush]
      exact hfold
    · rw [hall, hoccupants, append_assoc, singleton_append]

/-- Specifications that fit are all kept, in the order of pushing. -/
theorem exists_pushed {specs : List PimpSpec} (hfits : specs.length ≤ maxSpecs) :
    ∃ diese, specs.foldlM push new = .ok diese ∧ diese.occupants = specs := by
  have hnew : new.occupants = [] := occupants_empty
  obtain ⟨diese, hfold, hall⟩ :=
    @foldlM_push new packed_empty specs (by rw [hnew]; simpa using hfits)
  exact ⟨diese, hfold, by rw [hall, hnew, nil_append]⟩

/-! ## Resolution as a count of votes -/

/-- The votes of one specification. -/
def votes (spec : PimpSpec) : List (Vote SpecKey PimpScope PimpValue) :=
  spec.entries.list.map fun entry => ⟨entry.key, spec.scope, entry.value⟩

/-- The votes of the applicable specifications. -/
def ballot (target dimension : FormFin) (specs : List PimpSpec) :
    List (Vote SpecKey PimpScope PimpValue) :=
  (specs.filter (·.applies target dimension)).flatMap votes

/-- The diagnostic of a vote that stops the count. -/
def conflictOf (vote : Vote SpecKey PimpScope PimpValue) : Diagnostic :=
  .conflict vote.key vote.rank

variable (scope : PimpScope) (selected : Selection)

theorem selectEntry_eq (entry : PimpEntry) :
    selectEntry scope selected entry = (countVote selected ⟨entry.key, scope, entry.value⟩).mapError
        conflictOf := by
  unfold selectEntry countVote
  rcases selected entry.key with _ | ⟨current, value⟩
  · rfl
  · dsimp only
    split_ifs <;> rfl

theorem foldlM_selectEntry (entries : List PimpEntry) :
    entries.foldlM (selectEntry scope) selected =
      ((entries.map fun entry => (⟨entry.key, scope, entry.value⟩ :
        Vote SpecKey PimpScope PimpValue)).foldlM countVote selected).mapError conflictOf := by
  induction entries generalizing selected with
  | nil => rfl
  | cons entry entries ih =>
    rw [foldlM_cons, map_cons, foldlM_cons, selectEntry_eq]
    cases countVote selected ⟨entry.key, scope, entry.value⟩ with
    | error vote => rfl
    | ok next => exact ih next

theorem ballot_cons (target dimension : FormFin) (spec : PimpSpec) (specs : List PimpSpec) :
    ballot target dimension (spec :: specs) =
      (if spec.applies target dimension then votes spec else []) ++
        ballot target dimension specs := by
  unfold ballot
  by_cases happlies : spec.applies target dimension = true
  · rw [filter_cons_of_pos happlies, flatMap_cons, if_pos happlies]
  · rw [filter_cons_of_neg happlies, if_neg happlies, nil_append]

/-- The loop over the specifications counts their votes and notes whether one
of them applied. -/
theorem foldlM_selectSpec (target dimension : FormFin)
    (specs : List PimpSpec) (selected : Selection) (matched : Bool) :
    specs.foldlM (selectSpec target dimension) (selected, matched) =
      (((ballot target dimension specs).foldlM countVote selected).map fun final =>
          (final, matched || specs.any (·.applies target dimension))).mapError
        conflictOf := by
  induction specs generalizing selected matched with
  | nil =>
    change .ok (selected, matched) = Except.ok (selected, matched || false)
    rw [Bool.or_false]
  | cons spec specs ih =>
    rw [foldlM_cons, ballot_cons, foldlM_append]
    by_cases happlies : spec.applies target dimension = true
    · rw [if_pos happlies, selectSpec, if_pos happlies, foldlM_selectEntry]
      rw [← votes]
      cases (votes spec).foldlM countVote selected with
      | error vote => rfl
      | ok next =>
        refine (ih next true).trans ?_
        rw [any_cons, happlies]
        simp only [Bool.true_or, Bool.or_true]
        rfl
    · rw [selectSpec, if_neg happlies]
      refine (ih selected matched).trans ?_
      rw [any_cons, Bool.eq_false_of_not_eq_true happlies]
      rfl

/-- Resolution in terms of the votes. -/
theorem resolveAll_eq {specs : List PimpSpec}
    (hfits : specs.length ≤ maxSpecs) (target dimension : FormFin) :
    resolveAll specs target dimension =
      match tally (ballot target dimension specs) with
      | .error vote => .error (conflictOf vote)
      | .ok standing =>
        if specs.any (·.applies target dimension) then
          .ok (Selection.resolution standing)
        else .error .missingPolicy := by
  obtain ⟨diese, hpush, hoccupants⟩ := exists_pushed hfits
  have hall : resolveAll specs target dimension = diese.resolve target dimension := by
    unfold resolveAll
    rw [hpush]
    rfl
  rw [hall, resolve, hoccupants, foldlM_selectSpec, tally]
  cases (ballot target dimension specs).foldlM countVote fun _ => none with
  | error vote => rfl
  | ok standing =>
    simp only [Except.map, Except.mapError, Bool.false_or]

/-! ## Dependence on the order -/

/-- The same value, the same missing policy, or a conflict in both. -/
def SameOutcome : Except Diagnostic Resolution → Except Diagnostic Resolution → Prop
  | .ok resolution, .ok resolution' => resolution = resolution'
  | .error .missingPolicy, .error .missingPolicy => True
  | .error (.conflict _ _), .error (.conflict _ _) => True
  | _, _ => False

variable {target dimension : FormFin} {vote : Vote SpecKey PimpScope PimpValue}

theorem mem_ballot {specs : List PimpSpec} : vote ∈ ballot target dimension specs ↔
      ∃ spec ∈ specs, spec.applies target dimension = true ∧ vote ∈ votes spec := by
  simp [ballot, and_assoc]

theorem mem_ballot_of_perm {specs specs' : List PimpSpec} (h : specs.Perm specs')
    (vote : Vote SpecKey PimpScope PimpValue) : vote ∈ ballot target dimension specs ↔
      vote ∈ ballot target dimension specs' := by
  simp only [mem_ballot, h.mem_iff]

variable {spec : PimpSpec}

theorem rank_of_mem_votes (h : vote ∈ votes spec) : vote.rank = spec.scope := by
  obtain ⟨entry, -, rfl⟩ := mem_map.mp h
  rfl

/-- One specification does not disagree with itself. -/
theorem value_of_mem_votes {a b : Vote SpecKey PimpScope PimpValue} (ha : a ∈ votes spec)
    (hb : b ∈ votes spec) (hkey : a.key = b.key) : a.value = b.value := by
  obtain ⟨entry, hentry, rfl⟩ := mem_map.mp ha
  obtain ⟨entry', hentry', rfl⟩ := mem_map.mp hb
  have heq := inj_on_of_nodup_map spec.entries.distinct hentry hentry' hkey
  rw [heq]

/-- Where no votes clash, every order has the same outcome. -/
theorem sameOutcome_of_not_clash
    {specs specs' : List PimpSpec} (hperm : specs.Perm specs') (hfits : specs.length ≤ maxSpecs)
    (hclash : ¬ Clash (ballot target dimension specs)) :
    SameOutcome (resolveAll specs target dimension) (resolveAll specs' target dimension) := by
  have hmem := @mem_ballot_of_perm target dimension specs specs' hperm
  obtain ⟨standing, hok⟩ := tally_of_not_clash hclash
  obtain ⟨standing', hok'⟩ := tally_of_not_clash fun h =>
    hclash (clash_congr (fun v => (hmem v).symm) h)
  have hsame := (tally_tallied hok).unique (tally_tallied hok') hmem
  have hany : specs'.any (·.applies target dimension) =
      specs.any (·.applies target dimension) := hperm.any_eq.symm
  rw [resolveAll_eq hfits, resolveAll_eq (hperm.length_eq ▸ hfits), hok, hok', ← hsame]
  rw [hany]
  split_ifs
  · exact rfl
  · exact trivial

/-- Where votes of the highest rank clash, every order is a conflict. -/
theorem conflict_of_topClash {specs : List PimpSpec} (hfits : specs.length ≤ maxSpecs)
    (hclash : TopClash (ballot target dimension specs)) :
    ∃ key scope, resolveAll specs target dimension = .error (.conflict key scope) := by
  rw [resolveAll_eq hfits]
  cases htally : tally (ballot target dimension specs) with
  | error vote => exact ⟨vote.key, vote.rank, rfl⟩
  | ok standing => exact absurd htally (tally_ne_ok_of_topClash hclash)

/-- The specifications from the highest scope down. -/
def descending (specs : List PimpSpec) : List PimpSpec :=
  specs.mergeSort fun a b => decide (b.scope ≤ a.scope)

theorem descending_ballot (target dimension : FormFin) (specs : List PimpSpec) :
    (ballot target dimension (descending specs)).Pairwise fun a b => b.rank ≤ a.rank := by
  have hsorted : (descending specs).Pairwise fun a b => decide (b.scope ≤ a.scope) = true := by
    apply pairwise_mergeSort
    · intro a b c hab hbc
      exact decide_eq_true ((of_decide_eq_true hbc).trans (of_decide_eq_true hab))
    · intro a b
      rw [Bool.or_eq_true, decide_eq_true_eq, decide_eq_true_eq]
      exact le_total b.scope a.scope
  refine pairwise_flatMap.mpr ⟨fun spec _ => ?_, ?_⟩
  · refine pairwise_of_forall_mem_list fun a ha b hb => ?_
    exact (rank_of_mem_votes hb).trans_le (rank_of_mem_votes ha).ge
  · refine (hsorted.filter _).imp fun {s s'} hle a ha b hb => ?_
    rw [rank_of_mem_votes ha, rank_of_mem_votes hb]
    exact of_decide_eq_true hle

/-- Without a clash at the top, descending order is no conflict. -/
theorem descending_no_conflict {specs : List PimpSpec} (hfits : specs.length ≤ maxSpecs)
    (hclash : ¬ TopClash (ballot target dimension specs)) (key : SpecKey) (scope : PimpScope) :
    resolveAll (descending specs) target dimension ≠ .error (.conflict key scope) := by
  have hperm : (descending specs).Perm specs := mergeSort_perm specs _
  obtain ⟨standing, hok⟩ := tally_of_sorted (descending_ballot target dimension specs) fun h =>
      hclash (topClash_congr (mem_ballot_of_perm hperm) h)
  rw [resolveAll_eq (hperm.length_eq ▸ hfits), hok]
  split_ifs
  · simp
  · simp

/-- With two specifications that disagree in front there is a conflict. -/
theorem clash_conflict {specs : List PimpSpec}
    (hfits : specs.length ≤ maxSpecs) (hclash : Clash (ballot target dimension specs)) :
    ∃ specs', specs'.Perm specs ∧ ∃ key scope,
      resolveAll specs' target dimension = .error (.conflict key scope) := by
  obtain ⟨a, ha, b, hb, hab⟩ := hclash
  obtain ⟨s, hs, hsapplies, has⟩ := mem_ballot.mp ha
  obtain ⟨s', hs', hsapplies', hbs⟩ := mem_ballot.mp hb
  have hne : s' ≠ s := by
    rintro rfl
    exact hab.value (value_of_mem_votes has hbs hab.key)
  have hscope : s'.scope = s.scope := by
    rw [← rank_of_mem_votes has, ← rank_of_mem_votes hbs, hab.rank]
  have hmem : s' ∈ specs.erase s := (mem_erase_of_ne hne).mpr hs'
  have hperm : (s :: s' :: (specs.erase s).erase s').Perm specs :=
    ((perm_cons_erase hmem).symm.cons s).trans (perm_cons_erase hs).symm
  refine ⟨_, hperm, ?_⟩
  rw [resolveAll_eq (hperm.length_eq ▸ hfits), ballot_cons, ballot_cons,
    if_pos hsapplies, if_pos hsapplies', ← append_assoc]
  have hrank : ∀ v ∈ votes s ++ votes s', v.rank = s.scope := by
    intro v hv
    rcases mem_append.mp hv with hv | hv
    · exact rank_of_mem_votes hv
    · rw [rank_of_mem_votes hv, hscope]
  have hfront : Clash (votes s ++ votes s') :=
    ⟨a, mem_append_left _ has, b, mem_append_right _ hbs, hab⟩
  cases htally : tally (votes s ++ votes s' ++
      ballot target dimension ((specs.erase s).erase s')) with
  | error vote => exact ⟨vote.key, vote.rank, rfl⟩
  | ok standing => exact absurd htally (tally_ne_ok_of_clash hrank hfront)

theorem sameOutcome_conflict_iff {key : SpecKey} {scope : PimpScope}
    {outcome : Except Diagnostic Resolution} : SameOutcome (.error (.conflict key scope)) outcome ↔
      ∃ key' scope', outcome = .error (.conflict key' scope') := by
  constructor
  · intro h
    match outcome, h with
    | .error (.conflict key' scope'), _ => exact ⟨key', scope', rfl⟩
  · rintro ⟨key', scope', rfl⟩
    exact trivial

/-- Every order of the specifications has the same outcome exactly if votes
that disagree anywhere come with votes that disagree at the highest scope of
their key. -/
theorem resolve_order_independent_iff (specs : List PimpSpec)
    (hfits : specs.length ≤ maxSpecs) (target dimension : FormFin) :
    (∀ first second : List PimpSpec, first.Perm specs → second.Perm specs →
      SameOutcome (resolveAll first target dimension) (resolveAll second target dimension)) ↔
      (Clash (ballot target dimension specs) → TopClash (ballot target dimension specs)) := by
  constructor
  · intro hsame hclash
    by_contra htop
    obtain ⟨first, hfirst, key, scope, hconflict⟩ := clash_conflict hfits hclash
    have hboth := hsame first (descending specs) hfirst (mergeSort_perm specs _)
    rw [hconflict, sameOutcome_conflict_iff] at hboth
    obtain ⟨key', scope', hdescending⟩ := hboth
    exact descending_no_conflict hfits htop key' scope' hdescending
  · intro hcond first second hfirst hsecond
    have hroom : first.length ≤ maxSpecs := hfirst.length_eq ▸ hfits
    by_cases hclash : Clash (ballot target dimension specs)
    · have htop := hcond hclash
      have hconflict : ∀ order : List PimpSpec, order.Perm specs →
          ∃ key scope, resolveAll order target dimension = .error (.conflict key scope) := by
        intro order horder
        exact conflict_of_topClash (horder.length_eq ▸ hfits)
          (topClash_congr (mem_ballot_of_perm horder.symm) htop)
      obtain ⟨key, scope, hone⟩ := hconflict first hfirst
      rw [hone]
      exact sameOutcome_conflict_iff.mpr (hconflict second hsecond)
    · exact sameOutcome_of_not_clash (hfirst.trans hsecond.symm) hroom
        fun h => hclash (clash_congr (mem_ballot_of_perm hfirst) h)

/-- A specification that sets the debug key only. -/
def debugSpec (scope : PimpScope) (flag : Bool) : PimpSpec where
  scope := scope
  target := .fromU128 1
  dimension := none
  entries := ⟨[⟨.debug, .enabled flag⟩], by simp, by simp [PimpValue.suits]⟩
  nonempty := by simp

/-- Two system specifications that agree and a Form specification that
overrides them. -/
def overriding : List PimpSpec :=
  [debugSpec .system true, debugSpec .form false, debugSpec .system true]

theorem resolve_order_independent_three : overriding.length ≤ maxSpecs ∧
    ∀ first second : List PimpSpec, first.Perm overriding → second.Perm overriding →
      SameOutcome (resolveAll first (.fromU128 1) (.fromU128 2))
        (resolveAll second (.fromU128 1) (.fromU128 2)) := by
  refine ⟨by decide, (resolve_order_independent_iff _ (by decide) _ _).mpr ?_⟩
  rintro ⟨a, ha, b, hb, hclash⟩
  have hagree : ∀ a ∈ ballot (.fromU128 1) (.fromU128 2) overriding,
      ∀ b ∈ ballot (.fromU128 1) (.fromU128 2) overriding, a.rank = b.rank →
        a.value = b.value := by decide
  exact absurd (hagree a ha b hb hclash.rank) hclash.value

/-- Two system specifications disagree and a Form specification overrides
both: pushed last it comes too late, pushed first it hides the conflict. -/
theorem overridden_conflict_order : PimpSpec.parse .system (.fromU128 1) none "debug=true".toList =
        .ok (debugSpec .system true) ∧
      PimpSpec.parse .system (.fromU128 1) none "debug=false".toList =
        .ok (debugSpec .system false) ∧
      PimpSpec.parse .form (.fromU128 1) none "debug=true".toList = .ok (debugSpec .form true) ∧
      [debugSpec .form true, debugSpec .system true, debugSpec .system false].Perm
        [debugSpec .system true, debugSpec .system false, debugSpec .form true] ∧
      resolveAll [debugSpec .system true, debugSpec .system false,
          debugSpec .form true] (.fromU128 1) (.fromU128 2) = .error (.conflict .debug .system) ∧
      resolveAll [debugSpec .form true, debugSpec .system true,
          debugSpec .system false] (.fromU128 1) (.fromU128 2) =
        .ok ⟨none, none, none, some true, none⟩ := by
  decide +kernel

/-! ## What is resolved -/

/-- A specification that applies sets the key to the value, at this scope. -/
def Carries (specs : List PimpSpec) (target dimension : FormFin) (key : SpecKey)
    (scope : PimpScope) (value : PimpValue) : Prop :=
  ∃ spec ∈ specs, spec.applies target dimension = true ∧ spec.scope = scope ∧
    ⟨key, value⟩ ∈ spec.entries.list

section Carried

variable {specs : List PimpSpec} {target dimension : FormFin}

theorem mem_ballot_iff {v : Vote SpecKey PimpScope PimpValue} : v ∈ ballot target dimension specs ↔
      Carries specs target dimension v.key v.rank v.value := by
  rw [mem_ballot]
  constructor
  · rintro ⟨spec, hspec, happlies, hvote⟩
    obtain ⟨entry, hentry, rfl⟩ := mem_map.mp hvote
    exact ⟨spec, hspec, happlies, rfl, hentry⟩
  · rintro ⟨spec, hspec, happlies, hscope, hentry⟩
    refine ⟨spec, hspec, happlies, mem_map.mpr ⟨_, hentry, ?_⟩⟩
    rw [hscope]

/-- The values that stand are of the kind of their key, so none is lost. -/
theorem value_resolution {standing : Selection}
    (h : Tallied (ballot target dimension specs) standing) (key : SpecKey) :
    (Selection.resolution standing).value key = (standing key).map Prod.snd := by
  have hsuits : ∀ scope value, standing key = some (scope, value) → value.suits key = true := by
    intro scope value hs
    obtain ⟨spec, -, -, -, hentry⟩ := mem_ballot_iff.mp (h.stands key scope value hs).mem
    exact spec.entries.suited _ hentry
  rcases hs : standing key with _ | ⟨scope, value⟩
  · cases key <;>
      simp [Resolution.value, Selection.resolution, hs, nameValue, networkValue, boolValue]
  · have hkind := hsuits scope value hs
    cases key <;> cases value <;> simp [PimpValue.suits] at hkind <;>
      simp [Resolution.value, Selection.resolution, hs, nameValue, networkValue, boolValue]

/-- Each resolved value is the one that all entries of the highest scope for
its key carry; a conflict and a missing policy are what they say. -/
theorem resolve_sound (hfits : specs.length ≤ maxSpecs) :
    (∀ resolution, resolveAll specs target dimension = .ok resolution → ∀ key,
      (resolution.value key = none ↔
        ∀ scope value, ¬ Carries specs target dimension key scope value) ∧
      ∀ scope value, Carries specs target dimension key scope value →
        (∀ scope' value', Carries specs target dimension key scope' value' → scope' ≤ scope) →
        resolution.value key = some value) ∧
    (∀ key scope, resolveAll specs target dimension = .error (.conflict key scope) →
      ∃ value value', value ≠ value' ∧ Carries specs target dimension key scope value ∧
        Carries specs target dimension key scope value') ∧
    (resolveAll specs target dimension = .error .missingPolicy ↔
      ∀ spec ∈ specs, spec.applies target dimension = false) := by
  have hnone : (∀ spec ∈ specs, spec.applies target dimension = false) →
      ballot target dimension specs = [] := fun hno =>
    eq_nil_iff_forall_not_mem.mpr fun vote hvote => by
      obtain ⟨spec, hspec, happlies, -⟩ := mem_ballot.mp hvote
      rw [hno spec hspec] at happlies
      cases happlies
  rw [resolveAll_eq hfits]
  cases htally : tally (ballot target dimension specs) with
  | error vote =>
    obtain ⟨hmem, other, hother, hdisagree⟩ := tally_eq_error htally
    refine ⟨by simp, ?_, by simp [conflictOf], ?_⟩
    · intro key scope hconflict
      cases hconflict
      refine ⟨_, _, hdisagree.value, mem_ballot_iff.mp hmem, ?_⟩
      rw [hdisagree.key, hdisagree.rank]
      exact mem_ballot_iff.mp hother
    · intro hno
      rw [hnone hno] at hmem
      cases hmem
  | ok standing =>
    have htallied := tally_tallied htally
    dsimp only
    refine ⟨?_, ?_, ?_⟩
    · intro resolution hok key
      split at hok
      · obtain rfl := Except.ok.inj hok
        rw [value_resolution htallied, Option.map_eq_none_iff, htallied.none_iff]
        constructor
        · constructor
          · intro hall scope value hcarries
            exact hall _ (mem_ballot_iff (v := ⟨key, scope, value⟩).mpr hcarries) rfl
          · rintro hall vote hvote rfl
            exact hall _ _ (mem_ballot_iff.mp hvote)
        · intro scope value hcarries htop
          have hmem := mem_ballot_iff (v := ⟨key, scope, value⟩).mpr hcarries
          rcases hs : standing key with _ | ⟨rank, stood⟩
          · exact absurd rfl ((htallied.none_iff key).mp hs _ hmem)
          have hstands := htallied.stands _ _ _ hs
          rcases hstands.top _ hmem rfl with hlt | ⟨-, hvalue⟩
          · exact absurd (htop _ _ (mem_ballot_iff.mp hstands.mem)) (not_le.mpr hlt)
          · exact congrArg some hvalue.symm
      · cases hok
    · intro key scope hconflict
      split at hconflict <;> cases hconflict
    · simp

end Carried

theorem resolve_sound_conflict : [debugSpec .form true, debugSpec .form false].length ≤ maxSpecs ∧
    ∃ value value', value ≠ value' ∧
      Carries [debugSpec .form true, debugSpec .form false] (.fromU128 1) (.fromU128 2)
        .debug .form value ∧
      Carries [debugSpec .form true, debugSpec .form false] (.fromU128 1) (.fromU128 2)
        .debug .form value' :=
  ⟨by decide, (resolve_sound (by decide)).2.1 _ _ (by decide +kernel)⟩

end Diese

end ExpOS
