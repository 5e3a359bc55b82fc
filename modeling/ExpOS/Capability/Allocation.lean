import ExpOS.Capability.Attenuation
import ExpOS.Support.Counter

/-!
# Identifiers never run out

The counter skips zero when it wraps, so `maxHandles + 1` successive candidates
are distinct and the table cannot hold all of them.
-/

namespace ExpOS.CapabilityBroker

open List

/-- The arguments `issue_for` accepts. -/
def Issuable (b : CapabilityBroker) (requester : FormFin) (authority : Authority)
    (target dimension : FormFin) (operations : Operations) : Prop :=
  b.isSealed requester dimension = false ∧ permitted authority operations ∧ ¬ requester.isZero ∧
    operations ≠ Operations.none ∧ ¬ target.isZero ∧ ¬ dimension.isZero

/-- The arguments `delegate` accepts. -/
def Delegable (b : CapabilityBroker) (parentId : UInt32) (requester : FormFin)
    (operations : Operations) (validUntilTick tick : UInt64) : Prop :=
  ∃ parent, b.find parentId = some parent ∧
    (b.isSealed requester parent.dimension → requester = parent.requester) ∧
    b.authorize parent.id parent.target parent.dimension operations tick = .ok () ∧
    ¬ requester.isZero ∧ operations ≠ Operations.none ∧ parent.operations.contains operations ∧
    validUntilTick ≤ parent.validUntilTick ∧
    (operations = parent.operations → validUntilTick ≠ parent.validUntilTick)

/-- A valid call obtains a nonzero unused identifier while a cell is free, and
a call that fails keeps the table. -/
structure Allocates (b : CapabilityBroker) (valid : Prop)
    (call : Outcome CapabilityError FormHandle × CapabilityBroker) : Prop where
  done : valid → b.handles.freeIndex ≠ none → ∃ handle, call.1 = .done handle ∧
    handle.id ≠ 0 ∧ ∀ h ∈ b.handles.occupants, h.id ≠ handle.id
  failed : (∀ handle, call.1 ≠ .done handle) → call.2.handles = b.handles

/-- A loop that gives up has met a Handle for every candidate. -/
theorem used_of_allocateIdLoop {e : CapabilityError} (fuel : ℕ) :
    ∀ {b : CapabilityBroker}, (allocateIdLoop fuel b).1 = .fail e → ∀ j < fuel,
      ∃ h ∈ b.handles.occupants,
        h.id.toNat = ((max b.nextId 1).toNat - 1 + j) % (2 ^ 32 - 1) + 1 := by
  induction fuel with
  | zero => simp
  | succ fuel ih =>
    intro b hfail j hj
    have hne := max_one_ne_zero b.nextId
    have hpos : (max b.nextId 1).toNat ≠ 0 := fun hzero => hne (UInt32.toNat_inj.mp hzero)
    have hlt := (max b.nextId 1).toNat_lt
    rw [allocateIdLoop] at hfail
    split at hfail
    · next hused =>
      cases j with
      | zero =>
        obtain ⟨h, hh, hid⟩ := any_eq_true.mp hused
        refine ⟨h, hh, ?_⟩
        rw [of_decide_eq_true hid]
        omega
      | succ j =>
        obtain ⟨h, hh, hid⟩ := ih hfail j (by omega)
        refine ⟨h, hh, hid.trans ?_⟩
        rw [max_one_eq (max_one_ne_zero _), toNat_max_succ_mod hne]
        omega
    · cases hfail

variable {b : CapabilityBroker} {valid : Prop}

theorem allocates_refused {e : CapabilityError} (h : valid → b.handles.freeIndex = none) :
    Allocates b valid (.fail e, b) :=
  ⟨fun hvalid hfree => absurd (h hvalid) hfree, fun _ => rfl⟩

theorem allocates_publish (slot : ℕ) {handle : UInt32 → FormHandle}
    (hhandle : ∀ id, (handle id).id = id) : Allocates b valid (publish slot handle b) := by
  obtain ⟨nextId, -, hhalt, hdone⟩ := allocateIdLoop_spec (maxHandles + 1) b
  rw [publish, allocateId]
  rcases hrun : allocateIdLoop (maxHandles + 1) b with ⟨id | e | _, b'⟩
  · rw [hrun] at hdone
    refine ⟨fun _ _ => ⟨_, rfl, ?_⟩, fun h => absurd rfl (h _)⟩
    rw [hhandle]
    exact hdone id rfl
  · have hused := used_of_allocateIdLoop (maxHandles + 1) (congrArg Prod.fst hrun)
    obtain ⟨j, hj, hfree⟩ := exists_lt_notMem (l := b.handles.occupants.map (·.id.toNat))
      (n := maxHandles + 1) (g := fun j => ((max b.nextId 1).toNat - 1 + j) % (2 ^ 32 - 1) + 1)
      (by rw [length_map]; exact Nat.lt_succ_of_le b.handles.length_occupants_le)
      (fun i hi j hj h => by rw [maxHandles] at hi hj; omega)
    obtain ⟨h, hh, hid⟩ := hused j hj
    exact absurd (mem_map.mpr ⟨h, hh, hid⟩) hfree
  · exact absurd (congrArg Prod.fst hrun) hhalt

/-- Every broker has an identifier left while it has a free cell, and a call
that fails changes nothing. -/
theorem identifiers_never_run_out (b : CapabilityBroker) :
    (∀ requester authority target dimension operations validUntilTick,
      b.Allocates (b.Issuable requester authority target dimension operations)
        (issueFor requester authority target dimension operations validUntilTick b)) ∧
    ∀ parentId requester operations validUntilTick tick,
      b.Allocates (b.Delegable parentId requester operations validUntilTick tick)
        (delegate parentId requester operations validUntilTick tick b) := by
  constructor
  · intro requester authority target dimension operations validUntilTick
    rw [issueFor]
    split
    · next hsealed => exact allocates_refused fun h => by simp [h.1] at hsealed
    split
    · next hdenied => exact allocates_refused fun h => by simp_all [Issuable]
    split
    · next hfull => exact allocates_refused fun _ => hfull
    · exact allocates_publish _ fun _ => rfl
  · intro parentId requester operations validUntilTick tick
    rw [delegate]
    split
    · next hfind =>
      refine allocates_refused ?_
      rintro ⟨_, h, -⟩
      simp [h] at hfind
    next parent hfind =>
    split
    · refine allocates_refused ?_
      rintro ⟨_, h, hopen, -⟩
      simp_all
    split
    · refine allocates_refused ?_
      rintro ⟨_, h, -, hok, -⟩
      simp_all
    split
    · next hwide =>
      refine allocates_refused ?_
      rintro ⟨_, h, -, -, hrequester, hsome, hwithin, hvalid, hstrict⟩
      obtain rfl := Option.some.inj (h.symm.trans hfind)
      exact absurd hwide (by simpa [hrequester, hsome, hwithin, hvalid] using hstrict)
    split
    · next hfull => exact allocates_refused fun _ => hfull
    · exact allocates_publish _ fun _ => rfl

end ExpOS.CapabilityBroker
