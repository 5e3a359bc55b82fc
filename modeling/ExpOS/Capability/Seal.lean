import ExpOS.Capability.Attenuation

/-!
# Seals only ever remove authority

Once a context is sealed, issuing into it is refused and delegation into it
needs a parent the same requester already holds.  What the requester can do in
the Dimension therefore never grows, whatever else happens to the broker.
Restoring persisted records is the one explicit path around the seal.
-/

namespace ExpOS.CapabilityBroker

/-- The target, operation and tick combinations that some Handle held by the
requester authorizes in a Dimension. -/
def heldAuthority (b : CapabilityBroker) (requester dimension : FormFin) :
    Set (FormFin × Operations × UInt64) :=
  {a | ∃ h ∈ b.handles.occupants, h.requester = requester ∧
    b.authorizeRequester h.id requester a.1 dimension a.2.1 a.2.2 =
      .ok ()}

variable {b : CapabilityBroker} {requester dimension : FormFin}

theorem WellFormed.mem_heldAuthority (hb : b.WellFormed)
    {a : FormFin × Operations × UInt64} : a ∈ b.heldAuthority requester dimension ↔
      ∃ h ∈ b.handles.occupants, h.requester = requester ∧
        h.revoked = false ∧ a.2.2 ≤ h.validUntilTick ∧ h.target = a.1 ∧ h.dimension = dimension ∧
        h.operations.contains a.2.1 = true := by
  constructor
  · rintro ⟨h, hh, hholder, hok⟩
    obtain ⟨m, hfind, hm⟩ := authorize_eq_ok.mp (authorizeRequester_eq_ok.mp hok).1
    obtain ⟨hmem, hid⟩ := find_eq_some hfind
    obtain rfl := hb.grown.eq_of_key_eq hmem hh hid
    exact ⟨m, hh, hholder, hm⟩
  · rintro ⟨h, hh, hholder, hrest⟩
    have hfind : b.find h.id = some h := hb.grown.lookup_key hh
    refine ⟨h, hh, hholder, authorizeRequester_eq_ok.mpr ⟨?_, ?_⟩⟩
    · exact authorize_eq_ok.mpr ⟨h, hfind, hrest⟩
    · exact ⟨h, hfind, hholder⟩

theorem isSealed_iff : b.isSealed requester dimension = true ↔ ∃ s ∈ b.seals.occupants,
        s.requester = requester ∧ s.dimension = dimension := by
  simp [isSealed, sealOf]

/-! ## One call -/

variable {b' : CapabilityBroker} {call : Call}

/-- No call opens a sealed context. -/
theorem isSealed_change (hb : b.WellFormed) (hchange : Change b call b')
    (hsealed : b.isSealed requester dimension = true) : b'.isSealed requester dimension = true := by
  obtain ⟨s, hs, heq⟩ := isSealed_iff.mp hsealed
  cases hchange with
  | counted call nextId => exact hsealed
  | stored nextId _ _ _ => exact hsealed
  | revoked _ _ => exact hsealed
  | closed hslot _ =>
    refine isSealed_iff.mpr ⟨s, ?_, heq⟩
    rw [hb.sealsPacked.occupants_put hslot]
    exact List.mem_append_left _ hs

theorem heldAuthority_change (hb : b.WellFormed) (hchange : Change b call b')
    (hsealed : b.isSealed requester dimension = true) (hcall : ∀ handle, call ≠ .restore handle) :
    b'.heldAuthority requester dimension ⊆ b.heldAuthority requester dimension := by
  have hb' := hb.change hchange
  intro a ha
  obtain ⟨h, hh, hholder, hlive, htick, htarget, hdim, hops⟩ := hb'.mem_heldAuthority.mp ha
  rw [hb.mem_heldAuthority]
  cases hchange with
  | counted call nextId =>
    exact ⟨h, hh, hholder, hlive, htick, htarget, hdim, hops⟩
  | closed _ _ =>
    exact ⟨h, hh, hholder, hlive, htick, htarget, hdim, hops⟩
  | @revoked id g _ hg =>
    rw [SlotTable.occupants_map] at hh
    obtain ⟨m, hm, rfl⟩ := List.mem_map.mp hh
    rcases hg.cases hm with heq | heq
    · rw [heq] at hholder hlive htick htarget hdim hops
      exact ⟨m, hm, hholder, hlive, htick, htarget, hdim, hops⟩
    · rw [heq] at hlive
      cases hlive
  | stored nextId hslot _ horigin =>
    rw [hb.packed.occupants_put hslot] at hh
    rcases List.mem_append.mp hh with hold | hnew
    · exact ⟨h, hold, hholder, hlive, htick, htarget, hdim, hops⟩
    -- The new Handle is in the sealed context, so it was delegated
    -- from a Handle that already gave the requester as much.
    rw [← List.mem_singleton.mp hnew] at horigin
    have hsealed' : b.isSealed h.requester h.dimension = true := by
      rw [hholder, hdim]
      exact hsealed
    cases horigin with
    | issued authority hopen =>
      rw [hsealed'] at hopen
      cases hopen
    | delegated tick p hp hplive hnarrow hself =>
      refine ⟨p, hp, ?_, hplive, ?_, ?_, ?_, ?_⟩
      · rw [← hself hsealed', hholder]
      · exact UInt64.le_trans htick hnarrow.expiry
      · rw [hnarrow.target, htarget]
      · rw [hnarrow.dimension, hdim]
      · exact Operations.contains_trans hnarrow.operations hops
    | restored => exact absurd rfl (hcall h)

/-! ## Whole runs -/

theorem isSealed_run (hb : b.WellFormed) (hsealed : b.isSealed requester dimension = true)
    (calls : List Call) : (b.run calls).isSealed requester dimension = true := by
  induction calls generalizing b with
  | nil => exact hsealed
  | cons call calls ih =>
    have hchange := change_after hb call
    exact ih (hb.change hchange) (isSealed_change hb hchange hsealed)

theorem heldAuthority_run (hb : b.WellFormed) (hsealed : b.isSealed requester dimension = true)
    {calls : List Call} (hcalls : ∀ call ∈ calls, ∀ handle, call ≠ .restore handle) :
    (b.run calls).heldAuthority requester dimension ⊆ b.heldAuthority requester dimension := by
  induction calls generalizing b with
  | nil => exact .refl _
  | cons call calls ih =>
    have hchange := change_after hb call
    have hrest := ih (hb.change hchange) (isSealed_change hb hchange hsealed)
      (fun c hc => hcalls c (List.mem_cons_of_mem call hc))
    exact hrest.trans (heldAuthority_change hb hchange hsealed (hcalls call List.mem_cons_self))

theorem sealContext_isSealed (hb : b.WellFormed)
    {s : ExpSeal} (hdone : (sealContext requester dimension b).1 = .done s) :
    (sealContext requester dimension b).2.isSealed requester dimension =
      true := by
  rw [sealContext] at hdone ⊢
  split at hdone
  · cases hdone
  rename_i hzero
  rw [if_neg hzero]
  split at hdone
  · cases hdone
  rename_i hopen
  rw [if_neg hopen]
  split at hdone
  · cases hdone
  rename_i slot hslot
  refine isSealed_iff.mpr ⟨s, ?_, ?_⟩
  · rw [hb.sealsPacked.occupants_put hslot]
    cases hdone
    simp
  · cases hdone
    exact ⟨rfl, rfl⟩

/-- After a successful seal, whatever has happened since, a sequence of calls
other than `restore` never adds to what the sealed requester can do in the
sealed Dimension. -/
theorem sealed_authority_never_grows {b : CapabilityBroker}
    (hb : b.Reachable) {requester dimension : FormFin} {s : ExpSeal}
    (hdone : (sealContext requester dimension b).1 = .done s) (earlier later : List Call)
    (hlater : ∀ call ∈ later, ∀ handle, call ≠ .restore handle) :
    ((sealContext requester dimension b).2.run
        (earlier ++ later)).heldAuthority requester dimension ⊆
      ((sealContext requester dimension b).2.run earlier).heldAuthority requester dimension := by
  have hwf := hb.wellFormed
  have hwf₁ : (sealContext requester dimension b).2.WellFormed :=
    hwf.change (sealContext_change b requester dimension)
  have hsealed := isSealed_run hwf₁ (sealContext_isSealed hwf hdone) earlier
  have hsplit : (sealContext requester dimension b).2.run
      (earlier ++ later) = ((sealContext requester dimension b).2.run earlier).run later :=
    List.foldl_append
  rw [hsplit]
  exact heldAuthority_run (hwf₁.run earlier) hsealed hlater

/-- The requester of the sample broker's root Handle is sealed and then
delegates to itself. -/
theorem delegated_sealed_authority_never_grows : delegatedBroker.Reachable ∧
    (sealContext (FormFin.fromU128 2) (FormFin.fromU128 4)
      delegatedBroker).1.toOption.isSome = true ∧
    ((sealContext (FormFin.fromU128 2) (FormFin.fromU128 4) delegatedBroker).2.run
          [.delegate 1 (FormFin.fromU128 2) Operations.read 80 10]
      ).heldAuthority (FormFin.fromU128 2) (FormFin.fromU128 4) ⊆
      (sealContext (FormFin.fromU128 2) (FormFin.fromU128 4)
        delegatedBroker).2.heldAuthority (FormFin.fromU128 2) (FormFin.fromU128 4) := by
  have hdone : (sealContext (FormFin.fromU128 2) (FormFin.fromU128 4)
      delegatedBroker).1.toOption.isSome = true := by
    decide
  obtain ⟨s, hs⟩ := Option.isSome_iff_exists.mp hdone
  refine ⟨delegatedBroker_reachable, hdone, ?_⟩
  exact sealed_authority_never_grows delegatedBroker_reachable (Outcome.toOption_eq_some.mp hs) []
    [.delegate 1 (FormFin.fromU128 2) Operations.read 80 10] (by simp)

end ExpOS.CapabilityBroker
