import ExpOS.Store.Quiet
import Mathlib.Data.Nat.Bitwise

/-!
# Stale streams

A stream may be committed if its Form still has the revision the stream was
opened on.  That is safe as long as the revision of a Form stands for its
content: whoever publishes another content for a Form must also give it a
revision that the Form never had.  Saves and stream commits do.  A commit of
the shell or a restore publishes revisions that were counted elsewhere.

A session starts without streams and goes through any sequence of calls; it
remembers every snapshot that was current, and for every open stream the
content it was opened on.
-/

namespace ExpOS

open List SlotTable Outcome Option Snapshot ChunkedBlob

open Effect

/-! ## Revisions that stand for contents -/

namespace Snapshot

/-- No Form of `s` has gone back behind `t`: its revision has grown, or
nothing has changed. -/
def Succeeds (s t : Snapshot) : Prop :=
  ∀ fin old new, t.form? fin = some old → s.form? fin = some new →
    old.form.revision < new.form.revision ∨
      old.form.revision = new.form.revision ∧ old.content = new.content

/-- No Form of `past` or `s` has a FIN that `s` will give to a new Form. -/
def FreshFins (past : List Snapshot) (s : Snapshot) : Prop :=
  ∀ n, s.nextFin ≤ n → ∀ t ∈ s :: past, t.form? (newFormFin n) = none

/-- The snapshot continues the history `past`. -/
structure Continues (past : List Snapshot) (s : Snapshot) : Prop where
  succeeds : ∀ t ∈ past, s.Succeeds t
  fresh : s.FreshFins past

/-- The next save does not wrap a counter. -/
structure Counts (s : Snapshot) : Prop where
  nextFin : s.nextFin.toNat + 1 < 2 ^ 32
  revision : ∀ stored ∈ s.forms.occupants, stored.form.revision.toNat + 1 < 2 ^ 32

end Snapshot

/-- A snapshot in which one Form was revised or created. -/
inductive OneFormChanged (base s : Snapshot) : Prop
  | revised (old new : StoredForm) (hold : old ∈ base.forms.occupants)
      (hrevision : new.form.revision = nextRevision old.form.revision)
      (hnext : s.nextFin = base.nextFin)
      (hforms : ∀ fin, s.form? fin = base.form? fin ∨
        s.form? fin = some new ∧ base.form? fin = some old)
  | created (hnext : s.nextFin = max (base.nextFin + 1) 2)
      (hforms : ∀ fin, s.form? fin = base.form? fin ∨ fin = newFormFin base.nextFin)

variable {fin : FormFin} {kind : FormKind}

theorem Form.fin_of_new {ε : Type} {name : Bytes} {form : Form}
    (h : Form.new (ε := ε) fin name kind = .done form) :
    form.fin = fin := by
  rw [Form.new] at h
  split at h
  · cases h
  split at h
  · cases h
    rfl
  · cases h

/-- A counter that does not wrap grows. -/
theorem lt_max_succ {n : UInt32} (low : UInt32) (h : n.toNat + 1 < 2 ^ 32) :
    n < max (n + 1) low := by
  have hadd : (n + 1).toNat = n.toNat + 1 := by
    exact Nat.mod_eq_of_lt h
  change n < if n + 1 ≤ low then low else n + 1
  split
  · next hle =>
      rw [UInt32.le_iff_toNat_le] at hle
      rw [UInt32.lt_iff_toNat_lt]
      omega
  · rw [UInt32.lt_iff_toNat_lt]
    omega

theorem newFormFin_lt (n : UInt32) :
    (0x464F524D000000000000000000000000 ||| n.toNat) < 256 ^ 16 := by
  have hn := n.toNat_lt
  exact Nat.or_lt_two_pow (n := 128) (by decide) (by omega)

theorem newFormFin_injective : Function.Injective newFormFin := by
  intro a b h
  have hbytes := congrArg (fun fin => Bytes.fromBeBytes fin.bytes.val) h
  simp only [newFormFin, FormFin.fromU128] at hbytes
  rw [Bytes.fromBeBytes_toBeBytes_of_lt (newFormFin_lt a),
    Bytes.fromBeBytes_toBeBytes_of_lt (newFormFin_lt b)] at hbytes
  have hlow := congrArg (· % 2 ^ 32) hbytes
  simp only [Nat.or_mod_two_pow] at hlow
  simpa [UInt32.toNat_inj] using hlow

theorem Snapshot.form?_eq (s : Snapshot) (fin : FormFin) :
    s.form? fin = (s.formIndex fin).bind s.forms.get :=
  SlotTable.find?_occupants _ _

/-- Changing the relationships or the journal leaves the Forms alone. -/
theorem Snapshot.contained_forms (s : Snapshot) (fin : FormFin) :
    (s.contained fin).forms = s.forms ∧ (s.contained fin).nextFin = s.nextFin := by
  rw [contained]
  split
  · exact ⟨rfl, rfl⟩
  · exact ⟨rfl, rfl⟩

variable {s t : Snapshot}

theorem Snapshot.form?_congr (h : s.forms = t.forms)
    (fin : FormFin) : s.form? fin = t.form? fin := by
  rw [form?, form?, h]

variable {index : ℕ}

/-- Replacing the content of a Form. -/
theorem Snapshot.form?_put {old new : StoredForm} (hget : s.forms.get index = some old)
    (hfin : new.form.fin = old.form.fin) (fin : FormFin) :
    ({ s with forms := s.forms.put index (some new) } : Snapshot).form? fin =
        s.form? fin ∨ ({ s with forms := s.forms.put index (some new) } :
        Snapshot).form? fin = some new ∧ s.form? fin = some old :=
  SlotTable.find?_reduceOption_set_replaced hget (by rw [hfin])

variable {base : Snapshot} {bytes : Bytes} {revision : UInt32}

theorem withNamedForm_changed {name : Text}
    (h : base.withNamedForm name kind bytes = .done (s, fin, revision)) :
    OneFormChanged base s := by
  rw [withNamedForm] at h
  split at h
  · next index _ =>
      split at h
      · cases h
      rename_i stored hget
      split at h
      · cases h
      obtain ⟨form, hform, h⟩ := bind_eq_done.mp h
      cases h
      have hfin := Form.fin_of_new hform
      exact .revised stored
        { form :=
            { form with
              revision := nextRevision stored.form.revision }
          content := fromBytes bytes }
        (mem_occupants_of_get hget) rfl rfl
        (form?_put hget hfin)
  · split at h
    · cases h
    rename_i index hfree
    obtain ⟨form, hform, h⟩ := bind_eq_done.mp h
    cases h
    refine .created ?_ fun fin => ?_
    · exact (contained_forms _ _).2
    rw [or_iff_not_imp_right]
    intro hne
    refine (form?_congr (contained_forms _ _).1 fin).trans ?_
    refine SlotTable.find?_put_of_false ?_ ?_
    · intro a ha
      rw [get_of_freeIndex hfree] at ha
      cases ha
    · intro a ha
      cases ha
      have hfin := Form.fin_of_new hform
      rw [beq_eq_false_iff_ne]
      exact fun heq => hne (heq.symm.trans hfin)

variable {baseRevision : UInt32}

/-- What a commit of a stream needs, and what it changes. -/
theorem withStream_eq_done {content : ChunkedBlob}
    (h : base.withStream fin baseRevision content = .done (s, revision)) : OneFormChanged base s ∧
      ∃ stored, base.form? fin = some stored ∧ stored.form.revision = baseRevision := by
  rw [withStream] at h
  split at h
  · cases h
  rename_i index stored hfound
  obtain ⟨index, hindex, hmap⟩ := bind_eq_some_iff.mp hfound
  obtain ⟨stored, hget, hpair⟩ := map_eq_some_iff.mp hmap
  cases hpair
  split at h
  · cases h
  rename_i hrevision
  cases h
  refine ⟨?_, stored, ?_, not_not.mp hrevision⟩
  · exact .revised stored
      { form :=
          { stored.form with
            revision := nextRevision stored.form.revision }
        content }
      (mem_occupants_of_get hget) rfl rfl
      (form?_put hget rfl)
  · rw [form?_eq, hindex]
    exact hget

variable {past : List Snapshot}

/-- A changed Form continues the history. -/
theorem OneFormChanged.continues (h : OneFormChanged base s) (hbase : base.Continues past)
    (hcounts : base.Counts) : s.Continues past := by
  cases h with
  | revised old new hold hrevision hnext hforms =>
    have hless : old.form.revision < new.form.revision := by
      rw [hrevision]
      exact lt_max_succ 1 (hcounts.revision old hold)
    constructor
    · intro t ht fin before after hbefore hafter
      rcases hforms fin with hsame | ⟨hnew, holdForm⟩
      · rw [hsame] at hafter
        exact hbase.succeeds t ht fin before after hbefore hafter
      rw [hnew] at hafter
      cases hafter
      left
      rcases hbase.succeeds t ht fin before old hbefore holdForm with
        hlt | ⟨heq, -⟩
      · exact UInt32.lt_trans hlt hless
      · rwa [heq]
    · intro n hn t ht
      rw [hnext] at hn
      rcases mem_cons.mp ht with rfl | hpast
      · have hnone := hbase.fresh n hn base mem_cons_self
        rcases hforms (newFormFin n) with hsame | ⟨-, holdForm⟩
        · rw [hsame, hnone]
        · rw [hnone] at holdForm
          cases holdForm
      · exact hbase.fresh n hn t (mem_cons_of_mem _ hpast)
  | created hnext hforms =>
    have hless : base.nextFin < s.nextFin := by
      rw [hnext]
      exact lt_max_succ 2 hcounts.nextFin
    constructor
    · intro t ht fin before after hbefore hafter
      rcases hforms fin with hsame | rfl
      · rw [hsame] at hafter
        exact hbase.succeeds t ht fin before after hbefore hafter
      · -- The FIN of the new Form was never used.
        rw [hbase.fresh _ (UInt32.le_refl _) t (mem_cons_of_mem _ ht)] at hbefore
        cases hbefore
    · intro n hn t ht
      have hlt : base.nextFin < n := UInt32.lt_of_lt_of_le hless hn
      have hle := UInt32.le_of_lt hlt
      rcases mem_cons.mp ht with rfl | hpast
      · rcases hforms (newFormFin n) with hsame | hfin
        · rw [hsame]
          exact hbase.fresh n hle base mem_cons_self
        · rw [newFormFin_injective hfin] at hlt
          exact absurd hlt (UInt32.lt_irrefl _)
      · exact hbase.fresh n hle t (mem_cons_of_mem _ hpast)

namespace Snapshot

theorem Succeeds.refl (s : Snapshot) : s.Succeeds s := by
  intro fin old new hold hnew
  rw [hold] at hnew
  cases hnew
  exact .inr ⟨rfl, rfl⟩

/-- A published snapshot becomes part of the history. -/
theorem Continues.cons (h : s.Continues past) : s.Continues (s :: past) where
  succeeds := by
    intro t ht
    rcases mem_cons.mp ht with rfl | hpast
    · exact .refl t
    · exact h.succeeds t hpast
  fresh := by
    intro n hn t ht
    rcases mem_cons.mp ht with rfl | hpast
    · exact h.fresh n hn t mem_cons_self
    · exact h.fresh n hn t hpast

theorem Continues.congr (hforms : t.forms = s.forms) (hnext : t.nextFin = s.nextFin)
    (h : s.Continues past) : t.Continues past where
  succeeds u hu fin old new hold hnew :=
    h.succeeds u hu fin old new hold ((form?_congr hforms fin).symm.trans hnew)
  fresh n hn u hu := by
    rw [hnext] at hn
    rcases mem_cons.mp hu with rfl | hpast
    · rw [form?_congr hforms]
      exact h.fresh n hn s mem_cons_self
    · exact h.fresh n hn u (mem_cons_of_mem _ hpast)

end Snapshot

/-! ## Sessions -/

/-- A machine, the snapshots that were current, and the content on which the
stream in each cell was opened. -/
structure StreamSession where
  machine : Machine
  past : List Snapshot
  origin : ℕ → Option ChunkedBlob

namespace StreamSession

def start (m : Machine) : StreamSession where
  machine := m
  past := m.store.snapshot.toList
  origin _ := none

variable (cipher : StorageCipher)

def step (s : StreamSession) (call : StoreCall) : StreamSession :=
  let after := ((call.exec cipher).run s.machine).2
  { machine := after
    past := after.store.snapshot.toList ++ s.past
    origin := fun index =>
      if (s.machine.streams.get index).isSome then s.origin index
      else (after.streams.get index).map (·.content) }

def after (s : StreamSession) (calls : List StoreCall) : StreamSession :=
  calls.foldl (step cipher) s

/-- What the shell commits and what is restored continues the history, and a
save does not wrap a counter. -/
def Careful (s : StreamSession) : StoreCall → Prop
  | call@(.commit _) | call@(.restoreCheckpoint _)
  | call@.restoreBaseline =>
    ∀ m' t, (call.exec cipher).run s.machine = (.done (), m') →
      m'.store.snapshot = some t → t.Continues s.past
  | .saveNamedForm _ _ _ _ | .commitBlobStream _ _ _ =>
    s.machine.store.base.Counts
  | _ => True

/-- Every call of a sequence is careful when its turn comes. -/
def AllCareful (s : StreamSession) : List StoreCall → Prop
  | [] => True
  | call :: rest =>
    s.Careful cipher call ∧ (s.step cipher call).AllCareful rest

/-- The current snapshot continues the history, and every open stream was
opened on a Form of it. -/
structure Kept (s : StreamSession) : Prop where
  base : s.machine.store.base.Continues s.past
  current : ∀ t, s.machine.store.snapshot = some t → t ∈ s.past
  streams : ∀ index stream, s.machine.streams.get index = some stream →
    ∃ t ∈ s.past, ∃ stored, t.form? stream.form = some stored ∧
      stored.form.revision = stream.baseRevision ∧ s.origin index = some stored.content

variable {cipher} {s : StreamSession} {call : StoreCall} {next : Machine}

theorem kept_start {m : Machine} (hstreams : m.streams = .empty _ _)
    (hfresh : m.store.base.FreshFins []) : (start m).Kept where
  base := by
    have hbase : m.store.base.Continues [] := ⟨by simp, hfresh⟩
    rcases hsnapshot : m.store.snapshot with _ | t
    · simpa [start, hsnapshot] using hbase
    · have ht : m.store.base = t := by rw [RuntimeStore.base, hsnapshot]; rfl
      simpa [start, hsnapshot, ht] using hbase.cons
  current t ht := by
    change m.store.snapshot = some t at ht
    simp [start, ht]
  streams index stream hget := by
    change m.streams.get index = some stream at hget
    have hmem := mem_occupants_of_get hget
    rw [hstreams] at hmem
    cases hmem

/-- The stream was open before, or it has just been opened on a Form of the
history. -/
def Traced (s : StreamSession) (index : ℕ) (stream : BlobStream) : Prop :=
  (∃ old, s.machine.streams.get index = some old ∧
    old.form = stream.form ∧ old.baseRevision = stream.baseRevision) ∨
  s.machine.streams.get index = none ∧ ∃ t ∈ s.past, ∃ stored, t.form? stream.form = some stored ∧
    stored.form.revision = stream.baseRevision ∧ stored.content = stream.content

variable {stream : BlobStream}

theorem traced_of_get (h : s.machine.streams.get index = some stream) : s.Traced index stream :=
  .inl ⟨stream, h, rfl, rfl⟩

/-- A step is fine if its snapshot continues the history and its streams can
be traced. -/
theorem Kept.of_machine (h : s.Kept) (hafter : next = ((call.exec cipher).run s.machine).2)
    (hbase : next.store.base.Continues s.past)
    (hstreams : ∀ index stream, next.streams.get index = some stream → s.Traced index stream) :
    (s.step cipher call).Kept := by
  subst hafter
  refine ⟨?_, ?_, ?_⟩
  · rcases hsnapshot : ((call.exec cipher).run s.machine).2.store.snapshot with _ | t
    · simpa [step, hsnapshot] using hbase
    have ht : ((call.exec cipher).run s.machine).2.store.base = t := by
      rw [RuntimeStore.base, hsnapshot]
      rfl
    simpa [step, hsnapshot, ht] using hbase.cons
  · intro t ht
    change ((call.exec cipher).run s.machine).2.store.snapshot = some t at ht
    simp [step, ht]
  · intro index stream hget
    rcases hstreams index stream hget with
      ⟨old, hold, hform, hrevision⟩ |
      ⟨hnone, t, ht, stored, hstored, hrevision, hcontent⟩
    · obtain ⟨t, ht, stored, hstored, hbaseRevision, horigin⟩ := h.streams index old hold
      refine ⟨t, mem_append_right _ ht, stored, hform ▸ hstored, hbaseRevision.trans hrevision, ?_⟩
      simpa [step, hold] using horigin
    · refine ⟨t, mem_append_right _ ht, stored, hstored, hrevision, ?_⟩
      have hafter : ((call.exec cipher).run s.machine).2.streams.get index = some stream := hget
      simp [step, hnone, hafter, hcontent]

/-- Whatever a careful call publishes continues the history. -/
theorem Kept.continues_offer (h : s.Kept) (hcareful : s.Careful cipher call)
    (hoffer : call.Offers s.machine t) (hdone : ((call.exec cipher).run s.machine).1 = .done ())
    (hstore : ((call.exec cipher).run s.machine).2.store.snapshot =
      some t) : t.Continues s.past := by
  have hpair : (call.exec cipher).run s.machine =
      (.done (), ((call.exec cipher).run s.machine).2) := by
    rw [← hdone]
  cases call with
  | commit snapshot => exact hcareful _ t hpair hstore
  | restoreCheckpoint stateId => exact hcareful _ t hpair hstore
  | restoreBaseline => exact hcareful _ t hpair hstore
  | saveNamedForm cfc name kind bytes =>
    obtain ⟨-, text, fin, revision, -, hwith⟩ := hoffer
    exact (withNamedForm_changed hwith).continues h.base hcareful
  | commitSystemRecords settings accounts =>
    obtain ⟨-, rfl⟩ := hoffer
    exact Snapshot.Continues.congr (s := s.machine.store.base) rfl rfl h.base
  | _ => exact hoffer.elim

/-- A stream of a table with a closed cell was there before. -/
theorem traced_of_closed {streams : SlotTable BlobStream maxBlobStreams}
    {closed : ℕ} (hstreams : streams = s.machine.streams.put closed none)
    (h : streams.get index = some stream) : s.Traced index stream := by
  rw [hstreams, get_put] at h
  split at h
  · cases h
  · exact traced_of_get h

/-- A careful call keeps the history. -/
theorem Kept.step (h : s.Kept) (hcareful : s.Careful cipher call) : (s.step cipher call).Kept := by
  have hchange := call.change cipher s.machine
  generalize hr : (call.exec cipher).run s.machine = r at hchange
  have hafter : r.2 = ((call.exec cipher).run s.machine).2 := by rw [hr]
  have hcurrent : ∀ t, s.machine.store.snapshot = some t → t.Continues s.past := by
    intro t ht
    have hbase := h.base
    rwa [RuntimeStore.base, ht] at hbase
  cases hchange with
  | same hsame =>
    refine h.of_machine hafter ?_ fun index stream hget => ?_
    · rw [RuntimeStore.base, hsame.snapshot, hsame.cfc, hsame.cfcName, hsame.primaryDimension]
      exact h.base
    · rw [show r.2.streams = s.machine.streams from
        congrArg Prod.fst hsame.streams] at hget
      exact traced_of_get hget
  | published hoffer hdone hstore hstreams =>
    subst hr
    refine h.of_machine rfl ?_ fun index stream hget => ?_
    · rw [hstore]
      exact h.continues_offer hcareful hoffer hdone (by rw [hstore]; rfl)
    · rw [show ((call.exec cipher).run s.machine).2.streams =
        s.machine.streams from congrArg Prod.fst hstreams] at hget
      exact traced_of_get hget
  | @opened index stream snapshot stored hfree hsnapshot hstored hrevision
      hcontent =>
      refine h.of_machine hafter h.base fun i found hget => ?_
      rcases get_put_some_cases hget with ⟨rfl, rfl⟩ | ⟨-, hold⟩
      · exact .inr ⟨get_of_freeIndex hfree, snapshot,
          h.current snapshot hsnapshot, stored, hstored, hrevision.symm, hcontent.symm⟩
      · exact traced_of_get hold
  | @rewritten index stream content hget =>
    refine h.of_machine hafter h.base fun i found hfound => ?_
    rcases get_put_some_cases hfound with ⟨rfl, rfl⟩ | ⟨-, hold⟩
    · exact .inl ⟨stream, hget, rfl, rfl⟩
    · exact traced_of_get hold
  | closed index hstore hstreams hdone =>
    refine h.of_machine hafter ?_ fun i found hfound => traced_of_closed hstreams hfound
    rw [hstore]
    exact h.base
  | streamed hcall hget hform hsnapshot hwith hvalid hdone hstore
      hstreams =>
      subst hcall
      refine h.of_machine hafter ?_ fun i found hfound => traced_of_closed hstreams hfound
      rw [hstore]
      have hcounts : s.machine.store.base.Counts := hcareful
      rw [RuntimeStore.base, hsnapshot] at hcounts
      exact (withStream_eq_done hwith).1.continues (hcurrent _ hsnapshot) hcounts

theorem Kept.after {calls : List StoreCall} (h : s.Kept) (hcareful : s.AllCareful cipher calls) :
    (s.after cipher calls).Kept := by
  induction calls generalizing s with
  | nil => exact h
  | cons call rest ih => exact ih (h.step hcareful.1) hcareful.2

/-- While the history is kept, a Form with the revision of a stream has the
content the stream was opened on. -/
theorem Kept.content_eq (h : s.Kept) (hget : s.machine.streams.get index = some stream)
    {snapshot : Snapshot} {stored : StoredForm}
    (hsnapshot : s.machine.store.snapshot = some snapshot)
    (hstored : snapshot.form? stream.form = some stored)
    (hrevision : stored.form.revision = stream.baseRevision) :
    s.origin index = some stored.content := by
  obtain ⟨t, ht, old, hold, holdRevision, horigin⟩ := h.streams index stream hget
  have hbase := h.base
  rw [RuntimeStore.base, hsnapshot] at hbase
  rw [horigin]
  rcases hbase.succeeds t ht stream.form old stored hold hstored with
    hlt | ⟨-, heq⟩
  · rw [holdRevision, hrevision] at hlt
    exact absurd hlt (UInt32.lt_irrefl _)
  · rw [heq]

end StreamSession

/-! ## Committing a stream -/

variable {cipher : StorageCipher} {snapshot : Snapshot}

/-- The Form of the stream has another revision, or is gone. -/
theorem commitBlobStream_refused {m : Machine} {cfc : CfcFin} {form : FormFin} {id : UInt32}
    {stream : BlobStream} {error : StoreError}
    (hindex : m.streams.findIndex (BlobStream.isNamed cfc form id) = some index)
    (hget : m.streams.get index = some stream) (hwritable : stream.writable = true)
    (hsnapshot : m.store.snapshot = some snapshot)
    (hwith : snapshot.withStream form stream.baseRevision stream.content = .fail error) :
    (commitBlobStream cipher cfc form id).run m = (.fail error, m.closing index) := by
  simp [commitBlobStream, findStream, setStream, getStore, run_bind,
    Effect.get, Effect.modify, hindex, hget, hwritable, hsnapshot, hwith, Machine.closing]

theorem withStream_stale {stored : StoredForm} (content : ChunkedBlob)
    (hstored : s.form? fin = some stored)
    (hrevision : stored.form.revision ≠ baseRevision) :
    s.withStream fin baseRevision content = .fail .staleStream := by
  rw [form?_eq] at hstored
  obtain ⟨index, hindex, hget⟩ := bind_eq_some_iff.mp hstored
  simp [withStream, hindex, hget, hrevision]

theorem withStream_gone (baseRevision : UInt32) (content : ChunkedBlob)
    (hgone : s.form? fin = none) :
    s.withStream fin baseRevision content = .fail .streamNotFound := by
  rw [form?_eq] at hgone
  rcases hindex : s.formIndex fin with _ | index
  · simp [withStream, hindex]
  · have hget : s.forms.get index = none := by rwa [hindex] at hgone
    simp [withStream, hindex, hget]

/-- In a session of careful calls, a stream is committed only onto the content
it was opened on.  Onto another content the commit is refused as stale, and
then nothing but the stream is gone. -/
theorem commitBlobStream_stale_or_unchanged (cipher : StorageCipher)
    {m : Machine} (hstreams : m.streams = SlotTable.empty _ _)
    (hfresh : m.store.base.FreshFins []) {calls : List StoreCall}
    (hcareful : (StreamSession.start m).AllCareful cipher calls)
    {cfc : CfcFin} {form : FormFin} {id : UInt32} {index : ℕ} {stream : BlobStream} :
    let s := (StreamSession.start m).after cipher calls
    s.machine.streams.findIndex (BlobStream.isNamed cfc form id) = some index →
    s.machine.streams.get index = some stream →
    (∀ result m', (commitBlobStream cipher cfc form id).run s.machine = (.done result, m') →
      ∃ snapshot stored, s.machine.store.snapshot = some snapshot ∧
        snapshot.form? form = some stored ∧ s.origin index = some stored.content) ∧
    ∀ snapshot, s.machine.store.snapshot = some snapshot → stream.writable = true →
      (∀ stored, snapshot.form? form = some stored → s.origin index ≠ some stored.content →
        (commitBlobStream cipher cfc form id).run s.machine =
          (.fail .staleStream, s.machine.closing index)) ∧
      (snapshot.form? form = none → (commitBlobStream cipher cfc form id).run s.machine =
          (.fail .streamNotFound, s.machine.closing index)) := by
  intro s hindex hget
  have hkept : s.Kept := (StreamSession.kept_start hstreams hfresh).after hcareful
  have hform : stream.form = form := by
    obtain ⟨⟨found, hfound, hnamed⟩, -⟩ := findIndex_spec hindex
    rw [hget] at hfound
    cases hfound
    simp only [BlobStream.isNamed, Bool.and_eq_true, beq_iff_eq] at hnamed
    exact hnamed.2
  subst hform
  refine ⟨?_, fun snapshot hsnapshot hwritable => ⟨?_, ?_⟩⟩
  · intro result m' hrun
    obtain hnone | ⟨index', stream', hindex', hget', -, hpublishes⟩ :=
      commitBlobStream_cases cipher cfc stream.form id s.machine
    · rw [hrun] at hnone
      cases hnone
    rw [hindex] at hindex'
    cases hindex'
    rw [hget] at hget'
    cases hget'
    rw [hrun] at hpublishes
    obtain ⟨-, ⟨-, t, ⟨-, snapshot, revision, hsnapshot, hwith⟩, -⟩ | ⟨hne, -⟩⟩ := hpublishes
    · obtain ⟨-, stored, hstored, hrevision⟩ := withStream_eq_done hwith
      exact ⟨snapshot, stored, hsnapshot, hstored,
        hkept.content_eq hget hsnapshot hstored hrevision⟩
    · exact absurd rfl (hne result)
  · intro stored hstored hother
    refine commitBlobStream_refused hindex hget hwritable hsnapshot ?_
    refine withStream_stale _ hstored fun hrevision => hother ?_
    exact hkept.content_eq hget hsnapshot hstored hrevision
  · intro hgone
    exact commitBlobStream_refused hindex hget hwritable hsnapshot (withStream_gone _ _ hgone)

/-! ## Sessions with one Form -/

/-- Where a session on a quiet device stands. -/
structure StreamSession.At (s : StreamSession) (snapshot : Option Snapshot)
    (streams : SlotTable BlobStream maxBlobStreams × UInt32) : Prop where
  ready : s.machine.Ready plainConfig
  snapshot : s.machine.store.snapshot = snapshot
  streams : s.machine.streamState = streams

variable {s : StreamSession}

theorem StreamSession.At.streams_eq {snapshot : Option Snapshot}
    {streams : SlotTable BlobStream maxBlobStreams} {next : UInt32}
    (h : s.At snapshot (streams, next)) : s.machine.streams = streams :=
  congrArg Prod.fst h.streams

theorem notesAt_form (revision : UInt32) (bytes : Bytes) (sequence : UInt32) :
    (notesAt revision bytes sequence).form? notesForm.fin =
      some { form := { notesForm with revision }
             content := fromBytes bytes } := rfl

theorem notesAt_stream (revision : UInt32) (old bytes : Bytes) (sequence : UInt32) :
    (notesAt revision old sequence).withStream notesForm.fin revision
        (fromBytes bytes) = .done (notesAt (nextRevision revision) bytes
        (max (sequence + 1) 1), nextRevision revision) := by
  have hfound : (notesAt revision old sequence).formIndex notesForm.fin = some 0 := rfl
  have hget : (notesAt revision old sequence).forms.get 0 = some
      { form := { notesForm with revision }
        content := fromBytes old } := rfl
  simp only [withStream, hfound, hget, bind_some, map_some, ne_eq]
  rfl

/-- The calls on the sample Form. -/
def saveNotes (bytes : Bytes) : StoreCall :=
  .saveNamedForm plainConfig.cfc (asciiBytes "MyNotes") .data bytes

def openNotes : StoreCall :=
  .openBlobStream plainConfig.cfc notesForm.fin true

/-- A stream on the sample Form, as it is opened. -/
def notesStream (revision : UInt32) (bytes : Bytes) : BlobStream where
  id := 1
  cfc := plainConfig.cfc
  form := notesForm.fin
  writable := true
  baseRevision := revision
  content := ChunkedBlob.fromBytes bytes

/-- The table with that stream only. -/
def notesStreams (revision : UInt32) (bytes : Bytes) : SlotTable BlobStream maxBlobStreams :=
  (SlotTable.empty _ _).put 0 (some (notesStream revision bytes))

namespace StreamSession.At

variable {cipher : StorageCipher} {s : StreamSession}
  {streams : SlotTable BlobStream maxBlobStreams × UInt32}

theorem commit {current : Option Snapshot} (h : s.At current streams)
    (hstores : plainConfig.Stores (t.published current)) :
    (s.step cipher (.commit t)).At (some (t.published current))
      streams := by
  rw [← h.snapshot] at hstores
  obtain ⟨m', hlocked, hready, hstore, hstreams⟩ :=
    commitLocked_ready cipher (plainConfig_opens _) h.ready hstores
  have hrun := commit_run hstores.admitted.valid
    (hstores.admitted.cfc.trans h.ready.cfc.symm) hlocked
  have hmachine : (s.step cipher (.commit t)).machine = m' := by
    simp only [step, StoreCall.exec, run_bind, hrun, run_pure]
  refine ⟨?_, ?_, ?_⟩
  · rwa [hmachine]
  · rw [hmachine, hstore, ← h.snapshot]
    rfl
  · rw [hmachine, hstreams, h.streams]

variable {sequence : UInt32}

theorem save {old : Bytes} (h : s.At (some (notesAt revision old sequence)) streams)
    (hbytes : bytes.length ≤ formContentCapacity) : (s.step cipher (saveNotes bytes)).At
      (some (notesAt (nextRevision revision) bytes (max (sequence + 1) 1))) streams := by
  have hbase : s.machine.store.base = notesAt revision old sequence := by
    rw [RuntimeStore.base, h.snapshot]
    rfl
  have hsave : s.machine.store.base.withNamedForm notesForm.name .data bytes =
      .done (notesAt (nextRevision revision) bytes
        (max (sequence + 1) 1), notesForm.fin, nextRevision revision) := by
    rw [hbase]
    rfl
  obtain ⟨m', hrun, hready, hstore, hstreams⟩ :=
    saveNamedForm_ready cipher (plainConfig_opens _) h.ready hbytes
      (show Text.new (asciiBytes "MyNotes") = .ok notesForm.name from rfl)
      hsave (plainConfig_stores (nextRevision_ne_zero _) hbytes (nextRevision_ne_zero _))
  have hmachine : (s.step cipher (saveNotes bytes)).machine = m' := by
    simp only [step, saveNotes, StoreCall.exec, run_bind, hrun, run_pure]
  refine ⟨?_, ?_, ?_⟩
  · rwa [hmachine]
  · rw [hmachine, hstore]
    rfl
  · rw [hmachine, hstreams, h.streams]

theorem opened (h : s.At (some (notesAt revision bytes sequence))
      (.empty _ _, 1)) :
    (s.step cipher openNotes).At (some (notesAt revision bytes sequence))
        (notesStreams revision bytes, 2) ∧ (s.step cipher openNotes).origin 0 =
        some (fromBytes bytes) := by
  have hempty := h.streams_eq
  have hid : s.machine.nextStreamId = 1 := congrArg Prod.snd h.streams
  have hopen := openBlobStream_run h.snapshot (notesAt_form revision bytes sequence)
    (by rw [hempty]; rfl : s.machine.streams.freeIndex = some 0) true
  rw [h.ready.cfc, hid, hempty] at hopen
  have hmachine : (s.step cipher openNotes).machine =
      { s.machine with
        streams := notesStreams revision bytes
        nextStreamId := 2 } := by
    simp only [step, openNotes, StoreCall.exec, run_bind, hopen]
    rfl
  refine ⟨⟨?_, ?_, ?_⟩, ?_⟩
  · rw [hmachine]
    exact ⟨h.ready.device, h.ready.storageKey, h.ready.cfc, h.ready.primaryDimension, h.ready.quiet⟩
  · rw [hmachine]
    exact h.snapshot
  · rw [hmachine]
    rfl
  have hcell : (s.step cipher openNotes).machine.streams.get 0 =
      some (notesStream revision bytes) := by
    rw [hmachine]
    rfl
  change (if (s.machine.streams.get 0).isSome then _ else
    ((s.step cipher openNotes).machine.streams.get 0).map _) = _
  rw [hempty, hcell]
  rfl

end StreamSession.At

theorem StreamSession.after_concat (cipher : StorageCipher) (s : StreamSession)
    (calls : List StoreCall) (call : StoreCall) : s.after cipher (calls ++ [call]) =
      (s.after cipher calls).step cipher call := by
  simp [after]

/-- An open stream keeps its origin. -/
theorem StreamSession.origin_step (call : StoreCall)
    (h : (s.machine.streams.get index).isSome = true) :
    (s.step cipher call).origin index = s.origin index :=
  if_pos h

/-- The sample Form is committed by the shell, saved and opened. -/
def openedNotes : List StoreCall :=
  [.commit (notesAt 1 [65] 1), saveNotes [66], openNotes]

theorem length_le_capacity (b : UInt8) : [b].length ≤ formContentCapacity :=
  show 1 ≤ formContentCapacity by decide

theorem committedNotes_at (cipher : StorageCipher) :
    ((StreamSession.start (freshMachine plainConfig)).step cipher
      (.commit (notesAt 1 [65] 1))).At (some (notesAt 1 [65] 1)) (.empty _ _, 1) :=
  StreamSession.At.commit ⟨freshMachine_ready _, rfl, rfl⟩
    (plainConfig_stores (by decide) (length_le_capacity 65) (by decide))

theorem openedNotes_at (cipher : StorageCipher) :
    ((StreamSession.start (freshMachine plainConfig)).after cipher
        openedNotes).At (some (notesAt 2 [66] 2)) (notesStreams 2 [66], 2) ∧
      ((StreamSession.start (freshMachine plainConfig)).after cipher
        openedNotes).origin 0 = some (fromBytes [66]) :=
  ((committedNotes_at cipher).save (length_le_capacity 66)).opened

/-- The shell still holds revision 1 of the Form and commits a revision 2 of
its own.  The stream that was opened on the saved revision 2 is then
committed over it. -/
theorem stream_overwrites_shell_commit :
    let s := (StreamSession.start (freshMachine plainConfig)).after clearCipher
      (openedNotes ++ [.commit (notesAt 2 [67] 2)])
    ∃ snapshot stored result m', s.machine.store.snapshot = some snapshot ∧
      snapshot.form? notesForm.fin = some stored ∧ s.machine.streams.findIndex
        (BlobStream.isNamed plainConfig.cfc notesForm.fin 1) = some 0 ∧
      s.origin 0 ≠ some stored.content ∧
      (commitBlobStream clearCipher plainConfig.cfc notesForm.fin 1).run
        s.machine = (.done result, m') := by
  intro s
  obtain ⟨hopen, horigin⟩ := openedNotes_at clearCipher
  have hs : s = ((StreamSession.start (freshMachine plainConfig)).after
      clearCipher openedNotes).step clearCipher
        (.commit (notesAt 2 [67] 2)) := StreamSession.after_concat _ _ _ _
  have hat : s.At (some (notesAt 2 [67] 3)) (notesStreams 2 [66], 2) := by
    rw [hs]
    exact hopen.commit (plainConfig_stores (by decide) (length_le_capacity 67) (by decide))
  have hstreams := hat.streams_eq
  have hindex : s.machine.streams.findIndex
      (BlobStream.isNamed plainConfig.cfc notesForm.fin 1) = some 0 := by
    rw [hstreams]
    decide
  have hget : s.machine.streams.get 0 = some (notesStream 2 [66]) := by
    rw [hstreams]
    rfl
  obtain ⟨m', hrun, -⟩ := commitBlobStream_ready clearCipher
    (plainConfig_opens _) hat.ready hindex hget rfl hat.snapshot
    (notesAt_stream 2 [67] [66] 3)
    (plainConfig_stores (nextRevision_ne_zero _) (length_le_capacity 66) (nextRevision_ne_zero _))
  refine ⟨_, _, _, m', hat.snapshot, notesAt_form 2 [67] 3, hindex, ?_, hrun⟩
  rw [hs, StreamSession.origin_step, horigin]
  · decide
  · rw [hopen.streams_eq]
    rfl

theorem notesAt_counts (bytes : Bytes) (sequence : UInt32) (h : revision.toNat + 1 < 2 ^ 32) :
    (notesAt revision bytes sequence).Counts where
  nextFin := show (2 : UInt32).toNat + 1 < 2 ^ 32 by decide
  revision := by
    intro stored hstored
    rw [notesAt_occupants, mem_singleton] at hstored
    subst hstored
    exact h

/-- The sample Form has no FIN of a counter. -/
theorem notesForm_fin_ne (n : UInt32) : notesForm.fin ≠ newFormFin n := by
  intro h
  have hbytes := congrArg (fun fin => Bytes.fromBeBytes fin.bytes.val) h
  simp only [notesForm, newFormFin, FormFin.fromU128] at hbytes
  rw [Bytes.fromBeBytes_toBeBytes_of_lt (by decide),
    Bytes.fromBeBytes_toBeBytes_of_lt (newFormFin_lt n)] at hbytes
  have hle : 0x464F524D000000000000000000000000 ≤
      0x464F524D000000000000000000000000 ||| n.toNat := Nat.left_le_or
  omega

theorem notesAt_continues (revision : UInt32) (bytes : Bytes) (sequence : UInt32) :
    (notesAt revision bytes sequence).Continues [] where
  succeeds := by simp
  fresh := by
    intro n hn t ht
    rw [mem_singleton] at ht
    subst ht
    rw [form?, notesAt_occupants, List.find?_eq_none]
    intro stored hstored
    rw [mem_singleton] at hstored
    subst hstored
    simpa using notesForm_fin_ne n

variable {streams : SlotTable BlobStream maxBlobStreams × UInt32}

theorem StreamSession.At.careful_save {sequence : UInt32} {old : Bytes} (bytes : Bytes)
    (h : s.At (some (notesAt revision old sequence)) streams)
    (hrevision : revision.toNat + 1 < 2 ^ 32) : s.Careful cipher (saveNotes bytes) := by
  change s.machine.store.base.Counts
  rw [RuntimeStore.base, h.snapshot]
  exact notesAt_counts old sequence hrevision

theorem StreamSession.At.careful_commit (h : (s.step cipher (.commit snapshot)).At (some t) streams)
    (ht : t.Continues s.past) : s.Careful cipher (.commit snapshot) := by
  intro m' u hrun hu
  have hsnapshot := h.snapshot
  simp only [StreamSession.step, hrun, hu] at hsnapshot
  rwa [Option.some.inj hsnapshot]

theorem openedNotes_careful (cipher : StorageCipher) (bytes : Bytes) :
    (StreamSession.start (freshMachine plainConfig)).AllCareful cipher
      (openedNotes ++ [saveNotes bytes]) := by
  have hcommitted := committedNotes_at cipher
  have hopened := (openedNotes_at cipher).1
  exact ⟨hcommitted.careful_commit (notesAt_continues 1 [65] 1),
    hcommitted.careful_save [66] (by decide), trivial,
    hopened.careful_save bytes (by decide), trivial⟩

/-- A stream is refused after another save. -/
theorem stream_stale_after_save :
    let s := (StreamSession.start (freshMachine plainConfig)).after clearCipher
      (openedNotes ++ [saveNotes [67]])
    (commitBlobStream clearCipher plainConfig.cfc notesForm.fin 1).run
      s.machine = (.fail .staleStream, s.machine.closing 0) := by
  obtain ⟨hopen, horigin⟩ := openedNotes_at clearCipher
  have hstep := StreamSession.after_concat clearCipher
    (.start (freshMachine plainConfig)) openedNotes (saveNotes [67])
  have hat : (StreamSession.step clearCipher _ (saveNotes [67])).At _ _ :=
    hopen.save (length_le_capacity 67)
  have hother : (((StreamSession.start (freshMachine plainConfig)).after
      clearCipher openedNotes).step clearCipher
        (saveNotes [67])).origin 0 ≠ some (fromBytes [67]) := by
    rw [StreamSession.origin_step, horigin]
    · decide
    · rw [hopen.streams_eq]
      rfl
  rw [← hstep] at hat hother
  have hempty : (freshMachine plainConfig).store.base.FreshFins [] := by
    intro n _ t ht
    rw [mem_singleton] at ht
    subst ht
    rfl
  have hindex : (notesStreams 2 [66]).findIndex
      (BlobStream.isNamed plainConfig.cfc notesForm.fin 1) = some 0 := by
    decide
  rw [← hat.streams_eq] at hindex
  have hget : (notesStreams 2 [66]).get 0 = some (notesStream 2 [66]) := rfl
  rw [← hat.streams_eq] at hget
  exact ((commitBlobStream_stale_or_unchanged clearCipher rfl hempty
    (openedNotes_careful clearCipher [67]) hindex hget).2 _ hat.snapshot
      rfl).1 _ (notesAt_form _ _ _) hother

end ExpOS
