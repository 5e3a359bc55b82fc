import ExpOS.Capability.Attenuation

/-!
# Revocation

A successful `revoke` flags one Handle and everything below it and touches
nothing else.  Flagged Handles are never unflagged, removed or renamed, and a
Handle below a flagged one is flagged, so no later sequence of calls makes the
broker accept any of them again.
-/

namespace ExpOS.CapabilityBroker

open Lineage FormHandle

/-- Some authorization entry point accepts the identifier. -/
def Accepts (b : CapabilityBroker) (id : UInt32) : Prop :=
  (∃ target dimension operation tick, b.authorize id target dimension operation tick = .ok ()) ∨
  (∃ cfc target dimension operation tick,
    b.authorizeIn cfc id target dimension operation tick = .ok ()) ∨
  (∃ requester target dimension operation tick,
    b.authorizeRequester id requester target dimension operation tick = .ok ()) ∨
  ∃ requester target dimension operations tick h,
    b.findAuthorized requester target dimension operations tick = some h ∧ h.id = id

variable {b : CapabilityBroker} {id : UInt32}

/-- Every entry point ends in `authorize` on the same identifier. -/
theorem Accepts.authorize (h : b.Accepts id) : ∃ target dimension operation tick,
      b.authorize id target dimension operation tick = .ok () := by
  rcases h with h | ⟨cfc, t, d, o, k, h⟩ | ⟨r, t, d, o, k, h⟩ | ⟨r, t, d, o, k, handle, h, rfl⟩
  · exact h
  · exact ⟨t, d, o, k, (authorizeIn_eq_ok.mp h).2.2⟩
  · exact ⟨t, d, o, k, (authorizeRequester_eq_ok.mp h).1⟩
  · have hok := List.find?_some h
    simp only [decide_eq_true_eq] at hok
    exact ⟨t, d, o, k, (authorizeRequester_eq_ok.mp hok.2).1⟩

/-- A flagged Handle carries the identifier. -/
def RevokedId (b : CapabilityBroker) (id : UInt32) : Prop :=
  ∃ h ∈ b.handles.occupants, h.id = id ∧ h.revoked = true

theorem RevokedId.not_accepts (hb : b.WellFormed) (h : b.RevokedId id) : ¬ b.Accepts id := by
  intro haccept
  obtain ⟨t, d, o, k, hok⟩ := haccept.authorize
  obtain ⟨m, hfind, hlive, -⟩ := authorize_eq_ok.mp hok
  obtain ⟨n, hn, hid, hrevoked⟩ := h
  obtain ⟨hm, hmid⟩ := find_eq_some hfind
  have heq := hb.grown.eq_of_key_eq hm hn (hmid.trans hid.symm)
  rw [heq, hrevoked] at hlive
  cases hlive

variable {h : FormHandle}

/-- Being flagged passes down the chain of parents. -/
theorem WellFormed.revoked_of_descends (hb : b.WellFormed) (hid : b.RevokedId id)
    (hh : h ∈ b.handles.occupants)
    (hdesc : Descends FormHandle.id parentKey b.handles.occupants id h) : h.revoked = true := by
  obtain ⟨n, hn, hnid, hrevoked⟩ := hid
  obtain ⟨k, a, ha, haid⟩ := hdesc
  induction k generalizing h with
  | zero =>
    obtain rfl : h = a := Option.some.inj ha
    rw [hb.grown.eq_of_key_eq hh hn (haid.trans hnid.symm)]
    exact hrevoked
  | succ k ih =>
    obtain ⟨p, hp, ha⟩ := Option.bind_eq_some_iff.mp ha
    obtain ⟨hpmem, hlink, -⟩ := hb.grown.of_parentOf hh hp
    exact hb.closed h hh p hpmem hlink (ih hpmem ha)

/-! ## Flags persist -/

variable {b' : CapabilityBroker}

theorem RevokedId.change {call : Call}
    (hb : b.WellFormed) (hchange : Change b call b') (h : b.RevokedId id) : b'.RevokedId id := by
  obtain ⟨n, hn, hid, hrevoked⟩ := h
  cases hchange with
  | counted call nextId => exact ⟨n, hn, hid, hrevoked⟩
  | stored nextId hslot _ _ =>
    refine ⟨n, ?_, hid, hrevoked⟩
    rw [hb.packed.occupants_put hslot]
    exact List.mem_append_left _ hn
  | @revoked target g _ hg =>
    refine ⟨g n, ?_, ?_, ?_⟩
    · rw [SlotTable.occupants_map]
      exact List.mem_map_of_mem hn
    · rcases hg.cases hn with heq | heq <;> rw [heq]
      · exact hid
      · exact hid
    · rcases hg.cases hn with heq | heq <;> rw [heq]
      · exact hrevoked
      · rfl
  | closed _ _ => exact ⟨n, hn, hid, hrevoked⟩

theorem RevokedId.run (hb : b.WellFormed) (h : b.RevokedId id) (calls : List Call) :
    (b.run calls).RevokedId id := by
  induction calls generalizing b with
  | nil => exact h
  | cons call calls ih =>
    have hchange := change_after hb call
    exact ih (hb.change hchange) (h.change hb hchange)

/-! ## The effect of one revocation -/

/-- On a stored identifier `revoke` ends, having flagged exactly the
Handles whose chain of parents contains it. -/
theorem revoke_eq (hb : b.WellFormed) (hpresent : ∃ h ∈ b.handles.occupants, h.id = id) :
    ∃ g, RevokedFrom b id g ∧ revoke id b = (.done (), { b with handles := b.handles.map g }) := by
  obtain ⟨g, hloop, hg⟩ := sweepLoop_spec (spreads_revoked id) hb.grown hb.closed
  refine ⟨g, hg, ?_⟩
  have hany : b.handles.occupants.any (·.id = id) = true := by
    simpa using hpresent
  rw [revoke, if_neg (not_not.mpr hany), hloop]

theorem revoke_absent (habsent : ∀ h ∈ b.handles.occupants, h.id ≠ id) :
    revoke id b = (.fail .notFound, b) := by
  have hany : ¬ b.handles.occupants.any (·.id = id) = true := by
    simpa using habsent
  rw [revoke, if_pos hany]

theorem RevokedFrom.revokedId {g : FormHandle → FormHandle} (hg : RevokedFrom b id g)
    (hb' : b'.handles = b.handles.map g) (hh : h ∈ b.handles.occupants)
    (hdesc : Descends FormHandle.id parentKey b.handles.occupants id h) : b'.RevokedId h.id := by
  refine ⟨markRevoked h, ?_, rfl, rfl⟩
  rw [hb', SlotTable.occupants_map, ← (hg h hh).1 hdesc]
  exact List.mem_map_of_mem hh

/-- Revocation is exact, transitive and permanent: on a stored identifier it
ends and flags exactly that Handle and its descendants; on any other it
changes nothing; flags are always closed under descendants; and afterwards no
sequence of calls makes any entry point accept the Handle, a descendant it had
when revoked, or a descendant it has by then. -/
theorem revoke_exact_transitive_permanent {b : CapabilityBroker} (hb : b.Reachable) (id : UInt32) :
    ((∃ h ∈ b.handles.occupants, h.id = id) → ∃ g, RevokedFrom b id g ∧ revoke id b =
          (.done (), { b with handles := b.handles.map g })) ∧
    ((∀ h ∈ b.handles.occupants, h.id ≠ id) → revoke id b = (.fail .notFound, b)) ∧
    (∀ h ∈ b.handles.occupants, ∀ a ∈ b.handles.occupants,
      Descends FormHandle.id parentKey b.handles.occupants a.id h →
      a.revoked = true → h.revoked = true) ∧ ((∃ h ∈ b.handles.occupants, h.id = id) →
      ∀ calls b', b' = (revoke id b).2.run calls → (∀ h ∈ b.handles.occupants,
          Descends FormHandle.id parentKey b.handles.occupants id h → ¬ b'.Accepts h.id) ∧
        (∀ h ∈ b'.handles.occupants, Descends FormHandle.id parentKey b'.handles.occupants id h →
          ¬ b'.Accepts h.id)) := by
  have hwf := hb.wellFormed
  refine ⟨revoke_eq hwf, revoke_absent, ?_, ?_⟩
  · intro h hh a ha hdesc hrevoked
    exact hwf.revoked_of_descends ⟨a, ha, rfl, hrevoked⟩ hh hdesc
  rintro hpresent calls b' rfl
  obtain ⟨g, hg, hrevoke⟩ := revoke_eq hwf hpresent
  have hwf₁ : (revoke id b).2.WellFormed := hwf.change (revoke_change hwf id)
  have hflag : ∀ h ∈ b.handles.occupants,
      Descends FormHandle.id parentKey b.handles.occupants id h →
      (revoke id b).2.RevokedId h.id := by
    intro h hh hdesc
    exact hg.revokedId (by rw [hrevoke]) hh hdesc
  have hwf' := hwf₁.run calls
  refine ⟨?_, ?_⟩
  · intro h hh hdesc
    exact ((hflag h hh hdesc).run hwf₁ calls).not_accepts hwf'
  intro h hh hdesc
  obtain ⟨n, hn, rfl⟩ := hpresent
  have hseed := (hflag n hn ⟨0, n, rfl, rfl⟩).run hwf₁ calls
  have hrevoked := hwf'.revoked_of_descends hseed hh hdesc
  exact RevokedId.not_accepts hwf' ⟨h, hh, rfl, hrevoked⟩

theorem delegated_revoked : delegatedBroker.Reachable ∧
    (∃ h ∈ delegatedBroker.handles.occupants, h.id = 1) ∧
    ¬ (revoke 1 delegatedBroker).2.Accepts 2 := by
  have hpresent : ∃ h ∈ delegatedBroker.handles.occupants, h.id = 1 := by
    decide
  obtain ⟨-, -, -, hpermanent⟩ := revoke_exact_transitive_permanent delegatedBroker_reachable 1
  refine ⟨delegatedBroker_reachable, hpresent, ?_⟩
  obtain ⟨p, hp⟩ : ∃ p, delegatedBroker.ancestor 1 delegatedHandle = some p ∧ p.id = 1 :=
    Option.map_eq_some_iff.mp (by decide)
  exact (hpermanent hpresent [] _ rfl).1 delegatedHandle (by decide) ⟨1, p, hp⟩

end ExpOS.CapabilityBroker
