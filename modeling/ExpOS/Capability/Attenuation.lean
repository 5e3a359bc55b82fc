import ExpOS.Capability.Broker

/-!
# Attenuation over whole runs

Every path that stores a Handle establishes the same facts about it: its
identifier is fresh and nonzero, it belongs to the broker's CFC, and unless
it is a root its parent is stored, live and strictly wider.  Handles are
never removed, so the table is packed and its occupants form a grown list in
the sense of `ExpOS.Lineage`.  The invariant of all reachable brokers and the
shape of every parent chain follow from that.
-/

namespace ExpOS

open List SlotTable Option

namespace FormHandle

/-- `handle` is a strict attenuation of `parent`. -/
structure Narrows (parent handle : FormHandle) : Prop where
  target : parent.target = handle.target
  dimension : parent.dimension = handle.dimension
  cfc : parent.cfc = handle.cfc
  operations : parent.operations.contains handle.operations = true
  expiry : handle.validUntilTick ≤ parent.validUntilTick
  strict : handle.operations ≠ parent.operations ∨ handle.validUntilTick < parent.validUntilTick

/-- `handle` has at most the authority of `ancestor`. -/
structure Within (ancestor handle : FormHandle) : Prop where
  target : ancestor.target = handle.target
  dimension : ancestor.dimension = handle.dimension
  cfc : ancestor.cfc = handle.cfc
  operations : ancestor.operations.contains handle.operations = true
  expiry : handle.validUntilTick ≤ ancestor.validUntilTick

theorem Within.refl (handle : FormHandle) : Within handle handle :=
  ⟨rfl, rfl, rfl, Operations.contains_refl _, UInt64.le_refl _⟩

theorem Within.trans {a b c : FormHandle} (hab : Within a b) (hbc : Within b c) : Within a c where
  target := hab.target.trans hbc.target
  dimension := hab.dimension.trans hbc.dimension
  cfc := hab.cfc.trans hbc.cfc
  operations := Operations.contains_trans hab.operations hbc.operations
  expiry := UInt64.le_trans hbc.expiry hab.expiry

theorem Narrows.within {parent handle : FormHandle}
    (h : Narrows parent handle) : Within parent handle :=
  ⟨h.target, h.dimension, h.cfc, h.operations, h.expiry⟩

/-- Attenuation does not look at the revocation flags. -/
theorem Narrows.of_revoked {p h p' h' : FormHandle}
    (hp : p' = p ∨ p' = CapabilityBroker.markRevoked p)
    (hh : h' = h ∨ h' = CapabilityBroker.markRevoked h)
    (hnarrow : Narrows p h) : Narrows p' h' := by
  rcases hp with rfl | rfl <;> rcases hh with rfl | rfl <;>
    exact ⟨hnarrow.1, hnarrow.2, hnarrow.3, hnarrow.4, hnarrow.5, hnarrow.6⟩

end FormHandle

namespace CapabilityBroker

open Lineage FormHandle

/-! ## Identifier allocation -/

theorem max_one_ne_zero (x : UInt32) : max x 1 ≠ 0 := by
  have hmax : max x 1 = if x ≤ 1 then 1 else x := rfl
  intro h
  rw [hmax] at h
  split at h
  · cases h
  rename_i hx
  subst h
  exact hx (by decide)

/-- Allocation moves the counter and nothing else; an identifier it returns
is nonzero and unused. -/
theorem allocateIdLoop_spec (fuel : ℕ) (b : CapabilityBroker) : ∃ nextId,
      (allocateIdLoop fuel b).2 = { b with nextId } ∧
      (allocateIdLoop fuel b).1 ≠ .halt ∧ ∀ id, (allocateIdLoop fuel b).1 = .done id →
        id ≠ 0 ∧ ∀ h ∈ b.handles.occupants, h.id ≠ id := by
  induction fuel generalizing b with
  | zero =>
    exact ⟨b.nextId, rfl, by simp [allocateIdLoop], by simp [allocateIdLoop]⟩
  | succ fuel ih =>
    simp only [allocateIdLoop]
    by_cases hused : b.handles.occupants.any (·.id = max b.nextId 1) = true
    · rw [if_pos hused]
      obtain ⟨nextId, hstate, hhalt, hid⟩ := ih { b with nextId := max (max b.nextId 1 + 1) 1 }
      exact ⟨nextId, hstate, hhalt, hid⟩
    rw [if_neg hused]
    refine ⟨_, rfl, by simp, ?_⟩
    intro id hid
    cases hid
    refine ⟨max_one_ne_zero _, ?_⟩
    intro h hh heq
    exact hused (any_eq_true.mpr ⟨h, hh, by simpa using heq⟩)

/-! ## What one call can do -/

/-- What every path that stores a Handle has established about it. -/
structure Storable (b : CapabilityBroker) (handle : FormHandle) :
    Prop where
  id_ne_zero : handle.id ≠ 0
  fresh : ∀ h ∈ b.handles.occupants, h.id ≠ handle.id
  cfc : handle.cfc = b.cfc
  parent : handle.parentKey = none ∨ ∃ p ∈ b.handles.occupants,
    handle.parentKey = some p.id ∧ Narrows p handle ∧ p.revoked = false

/-- Which call stored a Handle, with the facts particular to that path. -/
inductive Origin (b : CapabilityBroker) (handle : FormHandle) :
    Call → Prop
  | issued (authority : Authority)
      (hopen : b.isSealed handle.requester handle.dimension = false) :
      Origin b handle (.issueFor handle.requester authority
        handle.target handle.dimension handle.operations
        handle.validUntilTick)
  | delegated (tick : UInt64) (p : FormHandle)
      (hp : p ∈ b.handles.occupants) (hlive : p.revoked = false)
      (hnarrow : Narrows p handle)
      (hsealed : b.isSealed handle.requester handle.dimension = true →
        handle.requester = p.requester) :
      Origin b handle (.delegate p.id handle.requester
        handle.operations handle.validUntilTick tick)
  | restored : Origin b handle (.restore handle)

/-- The Handle table after a successful revocation of `id`. -/
def RevokedFrom (b : CapabilityBroker) (id : UInt32) (g : FormHandle → FormHandle) : Prop :=
  ∀ h ∈ b.handles.occupants, (Descends FormHandle.id parentKey b.handles.occupants id h →
      g h = markRevoked h) ∧
    (¬ Descends FormHandle.id parentKey b.handles.occupants id h → g h = h)

/-- Everything a call can do to a broker. -/
inductive Change (b : CapabilityBroker) : Call → CapabilityBroker → Prop
  | counted (call : Call) (nextId : UInt32) :
      Change b call { b with nextId }
  | stored {call : Call} {slot : ℕ} {handle : FormHandle}
      (nextId : UInt32) (hslot : b.handles.freeIndex = some slot)
      (hstorable : Storable b handle) (horigin : Origin b handle call) :
      Change b call
        { b with handles := b.handles.put slot (some handle), nextId }
  | revoked {id : UInt32} {g : FormHandle → FormHandle}
      (hpresent : ∃ h ∈ b.handles.occupants, h.id = id)
      (hg : RevokedFrom b id g) :
      Change b (.revoke id) { b with handles := b.handles.map g }
  | closed {requester dimension : FormFin} {slot : ℕ} {s : ExpSeal}
      (hslot : b.seals.freeIndex = some slot)
      (hs : s.requester = requester ∧ s.dimension = dimension) :
      Change b (.sealContext requester dimension)
        { b with seals := b.seals.put slot (some s) }

variable {b : CapabilityBroker} {id : UInt32} {h : FormHandle}

theorem Change.kept {call : Call} : Change b call b :=
  .counted call b.nextId

theorem find_eq_some (hfind : b.find id = some h) : h ∈ b.handles.occupants ∧ h.id = id :=
  lookup_mem hfind

variable {target dimension : FormFin} {operation : Operations} {tick : UInt64}

theorem authorize_eq_ok : b.authorize id target dimension operation tick = .ok () ↔
      ∃ h, b.find id = some h ∧ h.revoked = false ∧ tick ≤ h.validUntilTick ∧ h.target = target ∧
        h.dimension = dimension ∧ h.operations.contains operation = true := by
  rw [authorize]
  cases b.find id with
  | none => simp
  | some h =>
    by_cases hrevoked : h.revoked = true
    · simp [hrevoked]
    by_cases hexpired : h.validUntilTick < tick
    · simp [hrevoked, hexpired]
    by_cases hscope : h.target ≠ target ∨ h.dimension ≠ dimension
    · have hno : ¬ (h.target = target ∧ h.dimension = dimension) := by
        rintro ⟨ht, hd⟩
        rcases hscope with hscope | hscope
        · exact hscope ht
        · exact hscope hd
      simp only [if_neg hrevoked, if_neg hexpired, if_pos hscope]
      simp only [reduceCtorEq, false_iff]
      rintro ⟨h', hsome, -, -, ht, hd, -⟩
      obtain rfl := Option.some.inj hsome
      exact hno ⟨ht, hd⟩
    · have hle := UInt64.not_lt.mp hexpired
      have hsame : h.target = target ∧ h.dimension = dimension := by
        simpa only [not_or, not_not] using hscope
      by_cases hops : h.operations.contains operation = true
      · simp [hrevoked, hexpired, hle, hsame, hops]
      · simp [hrevoked, hexpired, hsame, hops]

variable {cfc : CfcFin}

theorem authorizeIn_eq_ok : b.authorizeIn cfc id target dimension operation tick = .ok () ↔
      b.cfc = cfc ∧ (∃ h, b.find id = some h ∧ h.cfc = cfc) ∧
        b.authorize id target dimension operation tick = .ok () := by
  rw [authorizeIn]
  by_cases hcfc : cfc = b.cfc
  · cases b.find id with
    | none => simp [hcfc]
    | some h => by_cases hh : h.cfc = cfc <;> simp_all
  · simp [hcfc, eq_comm (a := b.cfc)]

theorem authorizeRequester_eq_ok
    {requester : FormFin} : b.authorizeRequester id requester target dimension operation tick =
        .ok () ↔ b.authorize id target dimension operation tick = .ok () ∧
        ∃ h, b.find id = some h ∧ h.requester = requester := by
  rw [authorizeRequester]
  cases b.authorize id target dimension operation tick with
  | error e => simp
  | ok u =>
    cases b.find id with
    | none => simp
    | some h => simp

/-- Publishing under a new identifier either only moves the counter or
stores a Handle with a fresh nonzero identifier. -/
theorem publish_cases (slot : ℕ) (handle : UInt32 → FormHandle) (b : CapabilityBroker) :
    (∃ nextId, (publish slot handle b).2 = { b with nextId }) ∨
    ∃ id nextId, id ≠ 0 ∧ (∀ h ∈ b.handles.occupants, h.id ≠ id) ∧ (publish slot handle b).2 =
        { b with
          handles := b.handles.put slot (some (handle id)), nextId } := by
  obtain ⟨nextId, hstate, -, hid⟩ := allocateIdLoop_spec (maxHandles + 1) b
  simp only [publish, allocateId]
  rcases hrun : allocateIdLoop (maxHandles + 1) b with ⟨r, b'⟩
  rw [hrun] at hstate hid
  cases r with
  | done id =>
    obtain ⟨hne, hfresh⟩ := hid id rfl
    refine .inr ⟨id, nextId, hne, hfresh, ?_⟩
    subst hstate
    rfl
  | fail e => exact .inl ⟨nextId, hstate⟩
  | halt => exact .inl ⟨nextId, hstate⟩

theorem issueFor_change (b : CapabilityBroker) (requester : FormFin)
    (authority : Authority) (target dimension : FormFin)
    (operations : Operations) (valid : UInt64) :
    Change b (.issueFor requester authority target dimension operations valid)
      (issueFor requester authority target dimension operations valid b).2 := by
  rw [issueFor]
  split
  · exact .kept
  rename_i hopen
  split
  · exact .kept
  split
  · exact .kept
  rename_i slot hslot
  rcases publish_cases slot _ b with
    ⟨nextId, hstate⟩ | ⟨id, nextId, hne, hfresh, hstate⟩
  · rw [hstate]
    exact Change.counted _ nextId
  rw [hstate]
  refine Change.stored nextId hslot ?_ ?_
  · exact ⟨hne, hfresh, rfl, .inl rfl⟩
  · exact Origin.issued authority (by simpa using hopen)

theorem delegate_change (b : CapabilityBroker) (parentId : UInt32)
    (requester : FormFin) (operations : Operations) (valid tick : UInt64)
    (hids : ∀ h ∈ b.handles.occupants, h.id ≠ 0)
    (hcfcs : ∀ h ∈ b.handles.occupants, h.cfc = b.cfc) :
    Change b (.delegate parentId requester operations valid tick)
      (delegate parentId requester operations valid tick b).2 := by
  rw [delegate]
  split
  · exact .kept
  rename_i parent hparent
  obtain ⟨hmem, rfl⟩ := find_eq_some hparent
  split
  · exact .kept
  rename_i hsealed
  split
  · exact .kept
  rename_i hauth
  split
  · exact .kept
  rename_i hnarrow
  split
  · exact .kept
  rename_i slot hslot
  simp only [not_or, not_not, not_and] at hnarrow
  obtain ⟨-, -, hops, hvalid, hstrict⟩ := hnarrow
  obtain ⟨h', hfind, hlive, -⟩ := authorize_eq_ok.mp hauth
  rw [hparent] at hfind
  obtain rfl := Option.some.inj hfind
  have hvalid' := UInt64.not_lt.mp hvalid
  have hn : ∀ id, Narrows parent
      { id, parentId := parent.id, cfc := b.cfc,
        requester, target := parent.target
        dimension := parent.dimension
        operations, validUntilTick := valid
        revoked := false } := fun id =>
    { target := rfl
      dimension := rfl
      cfc := hcfcs parent hmem
      operations := hops
      expiry := hvalid'
      strict := by
        by_cases heq : operations = parent.operations
        · exact .inr (UInt64.lt_of_le_of_ne hvalid' (hstrict heq))
        · exact .inl heq }
  rcases publish_cases slot _ b with
    ⟨nextId, hstate⟩ |
    ⟨id, nextId, hne, hfresh, hstate⟩
  · rw [hstate]
    exact Change.counted _ nextId
  rw [hstate]
  refine Change.stored nextId hslot ?_ ?_
  · refine ⟨hne, hfresh, rfl, .inr ⟨parent, hmem, ?_, hn id, hlive⟩⟩
    simp [parentKey, hids parent hmem]
  · exact Origin.delegated tick parent hmem hlive (hn id) (fun hs => by
        by_contra hne'
        exact hsealed ⟨hs, hne'⟩)

theorem restore_change (b : CapabilityBroker) (handle : FormHandle) :
    Change b (.restore handle) (restore handle b).2 := by
  rw [restore]
  split
  · exact .kept
  rename_i hcfc
  split
  · exact .kept
  rename_i hvalid
  split
  · exact .kept
  rename_i hdup
  split
  · exact .kept
  rename_i hcheck
  split
  · exact .kept
  rename_i slot hslot
  refine Change.stored _ hslot ?_ Origin.restored
  refine ⟨fun h => hvalid (.inl h), ?_, not_not.mp hcfc, ?_⟩
  · intro h hh heq
    exact hdup (any_eq_true.mpr ⟨h, hh, by simpa using heq⟩)
  · exact checkParent_ok hcheck
where
  checkParent_ok {b : CapabilityBroker} {handle : FormHandle} (h : b.checkParent handle = .ok ()) :
      handle.parentKey = none ∨ ∃ p ∈ b.handles.occupants,
        handle.parentKey = some p.id ∧ Narrows p handle ∧ p.revoked = false := by
    rw [checkParent] at h
    split at h
    · next hroot => exact .inl (by simp [parentKey, hroot])
    rename_i hroot
    split at h
    · cases h
    rename_i parent hparent
    obtain ⟨hmem, hid⟩ := find_eq_some hparent
    split at h
    · cases h
    rename_i hwide
    split at h
    · cases h
    rename_i hclone
    simp only [not_or, not_not] at hwide
    obtain ⟨hcfc, htarget, hdim, hlive, hops, hvalid⟩ := hwide
    have hvalid' := UInt64.not_lt.mp hvalid
    refine .inr ⟨parent, hmem, ?_, ?_, by simpa using hlive⟩
    · simp [parentKey, hroot, hid]
    refine ⟨htarget, hdim, hcfc, hops, hvalid', ?_⟩
    by_cases heq : handle.operations = parent.operations
    · exact .inr (UInt64.lt_of_le_of_ne hvalid' (fun hv => hclone ⟨heq, hv⟩))
    · exact .inl heq

/-- The passes of `revoke` spread the revocation flag from one identifier. -/
theorem spreads_revoked (id : UInt32) :
    Spreads FormHandle.id parentKey Narrows id FormHandle.revoked markRevoked (revokeFlag id) where
  key_mark _ := rfl
  link_mark _ := rfl
  marked_mark _ := rfl
  mark_of_marked h hrevoked := by
    cases h
    simp_all [markRevoked]
  rel_mark p h p' h' hp hh hrel := Narrows.of_revoked hp hh hrel
  flag_iff _ h := by
    by_cases hroot : h.parentId = 0
    · simp [revokeFlag, parentKey, hroot]
    · simp [revokeFlag, parentKey, hroot, eq_comm (a := h.parentId)]

/-- The invariant of every reachable broker. -/
structure WellFormed (b : CapabilityBroker) : Prop where
  packed : b.handles.Packed
  sealsPacked : b.seals.Packed
  grown : Grown FormHandle.id parentKey Narrows b.handles.occupants
  id_ne_zero : ∀ h ∈ b.handles.occupants, h.id ≠ 0
  cfc_eq : ∀ h ∈ b.handles.occupants, h.cfc = b.cfc
  closed : Closed FormHandle.id parentKey FormHandle.revoked
    b.handles.occupants

theorem revoke_change (hb : b.WellFormed)
    (id : UInt32) : Change b (.revoke id) (revoke id b).2 := by
  rw [revoke]
  split
  · exact .kept
  rename_i hpresent
  obtain ⟨g, hloop, hg⟩ := sweepLoop_spec (spreads_revoked id) hb.grown hb.closed
  rw [hloop]
  refine Change.revoked ?_ hg
  simpa using hpresent

theorem sealContext_change (b : CapabilityBroker) (requester dimension : FormFin) :
    Change b (.sealContext requester dimension) (sealContext requester dimension b).2 := by
  rw [sealContext]
  split
  · exact .kept
  split
  · exact .kept
  · split
    · exact .kept
    · next slot hslot => exact Change.closed hslot ⟨rfl, rfl⟩

/-- Every call on a well-formed broker is one of the listed changes. -/
theorem change_after (hb : b.WellFormed) (call : Call) : Change b call (b.after call) := by
  cases call with
  | issueFor r a t d o v => exact issueFor_change b r a t d o v
  | delegate p r o v t =>
    exact delegate_change b p r o v t hb.id_ne_zero hb.cfc_eq
  | restore handle => exact restore_change b handle
  | revoke id => exact revoke_change hb id
  | sealContext r d => exact sealContext_change b r d

/-! ## The invariant along a run -/

variable {g : FormHandle → FormHandle}

theorem RevokedFrom.cases (hg : RevokedFrom b id g) (hh : h ∈ b.handles.occupants) :
    g h = h ∨ g h = markRevoked h := by
  by_cases hdesc : Descends FormHandle.id parentKey b.handles.occupants id h
  · exact .inr ((hg h hh).1 hdesc)
  · exact .inl ((hg h hh).2 hdesc)

/-- A revocation map agrees on the table with one that only sets flags. -/
theorem RevokedFrom.exists_flags (hg : RevokedFrom b id g) : ∃ f : FormHandle → FormHandle,
      (∀ h, f h = h ∨ f h = markRevoked h) ∧
      b.handles.occupants.map g = b.handles.occupants.map f := by
  classical
  refine ⟨fun h => if h ∈ b.handles.occupants then g h else h, ?_, ?_⟩
  · intro h
    by_cases hh : h ∈ b.handles.occupants
    · simpa only [if_pos hh] using hg.cases hh
    · simp [hh]
  · apply map_congr_left
    intro h hh
    simp [hh]

theorem grown_map_revoked (hg : RevokedFrom b id g) (hgrown : Grown FormHandle.id parentKey Narrows
      b.handles.occupants) : Grown FormHandle.id parentKey Narrows (b.handles.occupants.map g) := by
  obtain ⟨f, hf, hmap⟩ := hg.exists_flags
  rw [hmap]
  refine hgrown.map ?_ ?_ ?_
  · intro h
    rcases hf h with heq | heq <;> rw [heq]
    rfl
  · intro h
    rcases hf h with heq | heq <;> rw [heq]
    rfl
  · intro p h hrel
    exact Narrows.of_revoked (hf p) (hf h) hrel

/-- Revoking a whole subtree keeps the revoked Handles closed. -/
theorem closed_map_revoked (hb : b.WellFormed) (hg : RevokedFrom b id g) :
    Closed FormHandle.id parentKey FormHandle.revoked (b.handles.occupants.map g) := by
  intro n hn p hp hlink hrevoked
  obtain ⟨m, hm, rfl⟩ := mem_map.mp hn
  obtain ⟨q, hq, rfl⟩ := mem_map.mp hp
  have hlink' : m.parentKey = some q.id := by
    rcases hg.cases hm with hgm | hgm <;>
      rcases hg.cases hq with hgq | hgq <;>
      rw [hgm, hgq] at hlink <;> exact hlink
  by_cases hdesc : Descends FormHandle.id parentKey b.handles.occupants id q
  · have hdesc' : Descends FormHandle.id parentKey b.handles.occupants id m := by
      refine Descends.of_parent ?_ hdesc
      rw [parentOf, hlink']
      exact hb.grown.lookup_key hq
    rw [(hg m hm).1 hdesc']
    rfl
  · rw [(hg q hq).2 hdesc] at hrevoked
    have hold := hb.closed m hm q hq hlink' hrevoked
    rcases hg.cases hm with hgm | hgm
    · rw [hgm]
      exact hold
    · rw [hgm]
      rfl

/-- Storing a Handle under the established facts keeps the invariant. -/
theorem WellFormed.store (hb : b.WellFormed)
    {slot : ℕ} {handle : FormHandle} {nextId : UInt32} (hslot : b.handles.freeIndex = some slot)
    (hs : Storable b handle) : WellFormed
      { b with handles := b.handles.put slot (some handle), nextId } where
  packed := hb.packed.put hslot handle
  sealsPacked := hb.sealsPacked
  grown := by
    rw [hb.packed.occupants_put hslot]
    refine Grown.snoc hb.grown hs.fresh ?_
    rcases hs.parent with hroot | ⟨p, hp, hlink, hnarrow, -⟩
    · exact .inl hroot
    · exact .inr ⟨p, hp, hlink, hnarrow⟩
  id_ne_zero := by
    rw [hb.packed.occupants_put hslot]
    intro h hh
    rcases mem_append.mp hh with hold | hnew
    · exact hb.id_ne_zero h hold
    · rw [mem_singleton.mp hnew]
      exact hs.id_ne_zero
  cfc_eq := by
    rw [hb.packed.occupants_put hslot]
    intro h hh
    rcases mem_append.mp hh with hold | hnew
    · exact hb.cfc_eq h hold
    · rw [mem_singleton.mp hnew]
      exact hs.cfc
  closed := by
    rw [hb.packed.occupants_put hslot]
    intro n hn p hp hlink hrevoked
    have hpold : p ∈ b.handles.occupants := by
      rcases mem_append.mp hp with hold | hnew
      · exact hold
      -- Nothing in the table links to the Handle that was just stored.
      · rw [mem_singleton.mp hnew] at hlink
        rcases mem_append.mp hn with hnold | hnnew
        · obtain ⟨q, hq, hkey, -⟩ := hb.grown.exists_parent hnold hlink
          exact absurd hkey (hs.fresh q hq)
        rw [mem_singleton.mp hnnew] at hlink
        rcases hs.parent with hroot | ⟨q, hq, hqlink, -, -⟩
        · rw [hroot] at hlink
          cases hlink
        · rw [hqlink] at hlink
          exact absurd (Option.some.inj hlink) (hs.fresh q hq)
    rcases mem_append.mp hn with hold | hnew
    · exact hb.closed n hold p hpold hlink hrevoked
    rw [mem_singleton.mp hnew] at hlink ⊢
    rcases hs.parent with hroot | ⟨q, hq, hqlink, -, hlive⟩
    · rw [hroot] at hlink
      cases hlink
    rw [hqlink] at hlink
    have heq := hb.grown.eq_of_key_eq hq hpold (Option.some.inj hlink)
    rw [heq, hrevoked] at hlive
    cases hlive

theorem WellFormed.change {b' : CapabilityBroker} {call : Call}
    (hb : b.WellFormed) (h : Change b call b') : b'.WellFormed := by
  cases h with
  | counted call nextId =>
    exact ⟨hb.packed, hb.sealsPacked, hb.grown, hb.id_ne_zero, hb.cfc_eq, hb.closed⟩
  | stored nextId hslot hstorable _ => exact hb.store hslot hstorable
  | @revoked id g _ hg =>
    have hocc : (b.handles.map g).occupants = b.handles.occupants.map g := occupants_map g _
    refine ⟨hb.packed.map g, hb.sealsPacked, ?_, ?_, ?_, ?_⟩
    · rw [hocc]
      exact grown_map_revoked hg hb.grown
    · rw [hocc]
      intro h hh
      obtain ⟨m, hm, rfl⟩ := mem_map.mp hh
      rcases hg.cases hm with heq | heq <;> rw [heq]
      · exact hb.id_ne_zero m hm
      · exact hb.id_ne_zero m hm
    · rw [hocc]
      intro h hh
      obtain ⟨m, hm, rfl⟩ := mem_map.mp hh
      rcases hg.cases hm with heq | heq <;> rw [heq]
      · exact hb.cfc_eq m hm
      · exact hb.cfc_eq m hm
    · rw [hocc]
      exact closed_map_revoked hb hg
  | closed hslot _ =>
    exact ⟨hb.packed, hb.sealsPacked.put hslot _, hb.grown, hb.id_ne_zero, hb.cfc_eq, hb.closed⟩

theorem wellFormed_new {ε : Type} (h : new (ε := ε) cfc = .done b) : b.WellFormed := by
  rw [new] at h
  split at h
  · cases h
  cases h
  refine ⟨packed_empty, packed_empty, ?_, ?_, ?_, ?_⟩
  · simpa using Grown.nil
  · simp
  · simp
  · intro n hn
    simp at hn

theorem WellFormed.run (hb : b.WellFormed) (calls : List Call) : (b.run calls).WellFormed := by
  induction calls generalizing b with
  | nil => exact hb
  | cons call calls ih => exact ih (hb.change (change_after hb call))

theorem Reachable.wellFormed (h : b.Reachable) : b.WellFormed := by
  obtain ⟨cfc, b₀, calls, hnew, rfl⟩ := h
  exact (wellFormed_new hnew).run calls

/-! ## The shape of every reachable table -/

/-- The Handle reached by following `k` parent links. -/
def ancestor (b : CapabilityBroker) (k : ℕ) (handle : FormHandle) : Option FormHandle :=
  Lineage.ancestor FormHandle.id parentKey b.handles.occupants k handle

/-- In every reachable broker the Handles form a forest of attenuations:
identifiers are distinct and nonzero, parents are present, every chain of
parents ends at a root, authority only shrinks along a chain, and each single
link is strict. -/
theorem reachable_attenuated {b : CapabilityBroker} (hb : b.Reachable) :
    (b.handles.occupants.map FormHandle.id).Nodup ∧ (∀ h ∈ b.handles.occupants, h.id ≠ 0) ∧
    (∀ h ∈ b.handles.occupants, h.parentId ≠ 0 → ∃ p ∈ b.handles.occupants, p.id = h.parentId) ∧
    (∀ h ∈ b.handles.occupants, ∃ k < maxHandles, ∃ root,
      b.ancestor k h = some root ∧ root.parentId = 0) ∧
    (∀ h ∈ b.handles.occupants, ∀ k a, b.ancestor k h = some a → Within a h) ∧
    (∀ h ∈ b.handles.occupants, ∀ p, b.ancestor 1 h = some p → Narrows p h) := by
  have hwf := hb.wellFormed
  refine ⟨hwf.grown.nodup_keys, hwf.id_ne_zero, ?_, ?_, ?_, ?_⟩
  · intro h hh hparent
    have hlink : h.parentKey = some h.parentId := by
      simp [parentKey, hparent]
    obtain ⟨p, hp, hkey, -⟩ := hwf.grown.exists_parent hh hlink
    exact ⟨p, hp, hkey⟩
  · intro h hh
    obtain ⟨k, hk, root, hroot, hnone⟩ := hwf.grown.exists_root hh
    exact ⟨k, Nat.lt_of_lt_of_le hk b.handles.length_occupants_le, root,
      hroot, by simpa [parentKey] using hnone⟩
  · intro h hh k a ha
    exact hwf.grown.ancestor_rel Within.refl
      (fun _ _ _ => Within.trans) (fun _ _ => Narrows.within) hh ha
  · intro h hh p hp
    exact (hwf.grown.of_parentOf hh (by simpa [ancestor, Lineage.ancestor] using hp)).2.2

/-- A broker that holds a root Handle and one delegated from it. -/
def delegatedBroker : CapabilityBroker :=
  run
    { cfc := CfcFin.fromU128 1
      handles := SlotTable.empty FormHandle maxHandles
      seals := SlotTable.empty ExpSeal maxSeals
      nextId := 1 }
    [.issueFor (FormFin.fromU128 2) .operator (FormFin.fromU128 3)
      (FormFin.fromU128 4) (Operations.read.union Operations.execute) 90,
      .delegate 1 (FormFin.fromU128 5) Operations.read 90 10]

theorem delegatedBroker_reachable : delegatedBroker.Reachable :=
  ⟨CfcFin.fromU128 1, _, _, by decide, rfl⟩

/-- The delegated Handle of the sample broker. -/
def delegatedHandle : FormHandle :=
  { id := 2, parentId := 1, cfc := CfcFin.fromU128 1
    requester := FormFin.fromU128 5, target := FormFin.fromU128 3
    dimension := FormFin.fromU128 4, operations := Operations.read
    validUntilTick := 90, revoked := false }

theorem delegated_attenuated : delegatedBroker.Reachable ∧
    delegatedHandle ∈ delegatedBroker.handles.occupants ∧
    ∃ p, delegatedBroker.ancestor 1 delegatedHandle = some p ∧ Narrows p delegatedHandle := by
  have hmem : delegatedHandle ∈ delegatedBroker.handles.occupants := by
    decide
  obtain ⟨p, hp⟩ : ∃ p, delegatedBroker.ancestor 1 delegatedHandle = some p :=
    isSome_iff_exists.mp (by decide)
  exact ⟨delegatedBroker_reachable, hmem, p, hp,
    (reachable_attenuated delegatedBroker_reachable).2.2.2.2.2 delegatedHandle hmem p hp⟩

end CapabilityBroker

end ExpOS
