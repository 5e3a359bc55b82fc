import Mathlib.Data.List.Pairwise
import ExpOS.Core.Identity
import ExpOS.Support.Chars
import ExpOS.Support.SlotTable

/-!
# Central Inflation Fabrics and their catalog

A CFC owns Forms and Dimensions and binds the ones into the others.  A catalog
holds the CFCs of one machine and refuses a CFC that shares an identity with
one it already holds.

A CFC is only built by its constructor and its three mutators.  Each of them
keeps the conditions that `validate` rechecks, and the catalog keeps the
ownership of its members apart.
-/

namespace ExpOS

open List SlotTable

def maxCfcSecondaryDimensions : ℕ := 7
def maxCfcForms : ℕ := 16
def maxCfcBindings : ℕ := 32
def maxCfcs : ℕ := 4

structure CfcBinding where
  form : FormFin
  dimension : FormFin
deriving DecidableEq

inductive CfcError where
  | invalidCfcFin
  | invalidName
  | invalidIdentity
  | duplicateDimension
  | duplicateForm
  | identityKindConflict
  | secondaryDimensionCapacity
  | formCapacity
  | bindingCapacity
  | missingDimension
  | missingForm
  | alreadyBound
deriving DecidableEq

structure Cfc where
  fin : CfcFin
  name : Text
  primaryDimension : FormFin
  secondaryDimensions : SlotTable FormFin maxCfcSecondaryDimensions
  forms : SlotTable FormFin maxCfcForms
  bindings : SlotTable CfcBinding maxCfcBindings
deriving DecidableEq

namespace Cfc

def new (fin : CfcFin) (name : List Char) (primaryDimension : FormFin) : Except CfcError Cfc :=
  if fin.isZero then .error .invalidCfcFin
  else if primaryDimension.isZero then .error .invalidIdentity
  else
    match Text.new (utf8 (trim name)) with
    | .error _ => .error .invalidName
    | .ok name => .ok
        { fin
          name
          primaryDimension
          secondaryDimensions := SlotTable.empty _ _
          forms := SlotTable.empty _ _
          bindings := SlotTable.empty _ _ }

def ownsDimension (cfc : Cfc) (dimension : FormFin) : Bool :=
  dimension == cfc.primaryDimension ||
    cfc.secondaryDimensions.occupants.any (· == dimension)

def ownsForm (cfc : Cfc) (form : FormFin) : Bool :=
  cfc.forms.occupants.any (· == form)

def isBound (cfc : Cfc) (form dimension : FormFin) : Bool :=
  cfc.bindings.occupants.any fun binding =>
    binding.form == form && binding.dimension == dimension

def ownsAnyIdentity (cfc : Cfc) (identity : FormFin) : Bool :=
  cfc.ownsDimension identity || cfc.ownsForm identity

def addSecondaryDimension (dimension : FormFin) : Mutator Cfc CfcError Unit := fun cfc =>
  if dimension.isZero then (.fail .invalidIdentity, cfc)
  else if cfc.ownsDimension dimension then
    (.fail .duplicateDimension, cfc)
  else if cfc.ownsForm dimension then (.fail .identityKindConflict, cfc)
  else
    match cfc.secondaryDimensions.freeIndex with
    | none => (.fail .secondaryDimensionCapacity, cfc)
    | some slot => (.done (),
        { cfc with
          secondaryDimensions :=
            cfc.secondaryDimensions.put slot (some dimension) })

def ownForm (form : FormFin) : Mutator Cfc CfcError Unit := fun cfc =>
  if form.isZero then (.fail .invalidIdentity, cfc)
  else if cfc.ownsForm form then (.fail .duplicateForm, cfc)
  else if cfc.ownsDimension form then (.fail .identityKindConflict, cfc)
  else
    match cfc.forms.freeIndex with
    | none => (.fail .formCapacity, cfc)
    | some slot => (.done (),
        { cfc with forms := cfc.forms.put slot (some form) })

def bind (form dimension : FormFin) : Mutator Cfc CfcError Unit :=
  fun cfc =>
    if ¬ cfc.ownsForm form then (.fail .missingForm, cfc)
    else if ¬ cfc.ownsDimension dimension then
      (.fail .missingDimension, cfc)
    else if cfc.isBound form dimension then (.fail .alreadyBound, cfc)
    else
      match cfc.bindings.freeIndex with
      | none => (.fail .bindingCapacity, cfc)
      | some slot => (.done (),
          { cfc with
            bindings := cfc.bindings.put slot (some { form, dimension }) })

/-! ## Validation -/

/-- Check each entry of a list against the entries after it. -/
def validateEach {α : Type} (check : α → List α → Except CfcError Unit) :
    List α → Except CfcError Unit
  | [] => .ok ()
  | entry :: rest =>
    match check entry rest with
    | .error e => .error e
    | .ok () => validateEach check rest

def checkDimension (cfc : Cfc) (dimension : FormFin) (rest : List FormFin) : Except CfcError Unit :=
  if dimension.isZero ∨ dimension = cfc.primaryDimension then
    .error .duplicateDimension
  else if rest.any (· == dimension) then .error .duplicateDimension
  else if cfc.ownsForm dimension then .error .identityKindConflict
  else .ok ()

def checkForm (cfc : Cfc) (form : FormFin) (rest : List FormFin) : Except CfcError Unit :=
  if form.isZero then .error .invalidIdentity
  else if rest.any (· == form) then .error .duplicateForm
  else if cfc.ownsDimension form then .error .identityKindConflict
  else .ok ()

def checkBinding (cfc : Cfc) (binding : CfcBinding)
    (rest : List CfcBinding) : Except CfcError Unit :=
  if ¬ cfc.ownsForm binding.form then .error .missingForm
  else if ¬ cfc.ownsDimension binding.dimension then
    .error .missingDimension
  else if rest.any (· == binding) then .error .alreadyBound
  else .ok ()

def validate (cfc : Cfc) : Except CfcError Unit :=
  if cfc.fin.isZero then .error .invalidCfcFin
  else if trim (asciiChars cfc.name.content) = [] then .error .invalidName
  else if cfc.primaryDimension.isZero then .error .invalidIdentity
  else
    match validateEach cfc.checkDimension
        cfc.secondaryDimensions.occupants with
    | .error e => .error e
    | .ok () =>
      match validateEach cfc.checkForm cfc.forms.occupants with
      | .error e => .error e
      | .ok () => validateEach cfc.checkBinding cfc.bindings.occupants

/-- What `validate` accepts. -/
structure Valid (cfc : Cfc) : Prop where
  fin : cfc.fin.isZero = false
  name : trim (asciiChars cfc.name.content) ≠ []
  primaryDimension : cfc.primaryDimension.isZero = false
  dimensions : ∀ dimension ∈ cfc.secondaryDimensions.occupants,
    dimension.isZero = false ∧ dimension ≠ cfc.primaryDimension
  dimensions_nodup : cfc.secondaryDimensions.occupants.Nodup
  forms : ∀ form ∈ cfc.forms.occupants, form.isZero = false
  forms_nodup : cfc.forms.occupants.Nodup
  kinds : ∀ identity, ¬ (cfc.ownsForm identity = true ∧ cfc.ownsDimension identity = true)
  bindings : ∀ binding ∈ cfc.bindings.occupants, cfc.ownsForm binding.form = true ∧
      cfc.ownsDimension binding.dimension = true
  bindings_nodup : cfc.bindings.occupants.Nodup

variable {cfc : Cfc} {form : FormFin}

theorem ownsForm_iff : cfc.ownsForm form = true ↔ form ∈ cfc.forms.occupants := by
  simp [ownsForm]

variable {dimension : FormFin}

theorem ownsDimension_iff : cfc.ownsDimension dimension = true ↔
      dimension = cfc.primaryDimension ∨ dimension ∈ cfc.secondaryDimensions.occupants := by
  simp [ownsDimension]

theorem isBound_iff : cfc.isBound form dimension = true ↔
      { form, dimension } ∈ cfc.bindings.occupants := by
  simp only [isBound, any_eq_true, Bool.and_eq_true, beq_iff_eq]
  constructor
  · rintro ⟨binding, hmem, rfl, rfl⟩
    exact hmem
  · intro h
    exact ⟨_, h, rfl, rfl⟩

variable {identity : FormFin}

theorem ownsAnyIdentity_iff : cfc.ownsAnyIdentity identity = true ↔
      cfc.ownsDimension identity = true ∨ cfc.ownsForm identity = true := by
  rw [ownsAnyIdentity, Bool.or_eq_true]

/-- A check that refuses an entry for what it is or for coming back later
accepts a list of such entries without repetition. -/
theorem validateEach_eq_ok {α : Type} {P : α → Prop}
    {check : α → List α → Except CfcError Unit} (h : ∀ entry rest, check entry rest = .ok () ↔
      P entry ∧ entry ∉ rest) (entries : List α) : validateEach check entries = .ok () ↔
      (∀ entry ∈ entries, P entry) ∧ entries.Nodup := by
  induction entries with
  | nil => simp [validateEach]
  | cons entry rest ih =>
    rw [forall_mem_cons, nodup_cons]
    simp only [validateEach]
    rcases hcheck : check entry rest with e | ⟨⟨⟩⟩
    · have hrefused : ¬ (P entry ∧ entry ∉ rest) := by
        rw [← h, hcheck]
        simp
      constructor
      · intro hok
        cases hok
      · rintro ⟨⟨hP, -⟩, hfresh, -⟩
        exact absurd ⟨hP, hfresh⟩ hrefused
    · obtain ⟨hP, hfresh⟩ := (h entry rest).mp hcheck
      simp only [ih]
      constructor
      · rintro ⟨hall, hnodup⟩
        exact ⟨⟨hP, hall⟩, hfresh, hnodup⟩
      · rintro ⟨⟨-, hall⟩, -, hnodup⟩
        exact ⟨hall, hnodup⟩

section Checks

variable (cfc : Cfc)

theorem checkDimension_eq_ok (dimension : FormFin) (rest : List FormFin) :
    cfc.checkDimension dimension rest = .ok () ↔
      (dimension.isZero = false ∧ dimension ≠ cfc.primaryDimension ∧
        cfc.ownsForm dimension = false) ∧ dimension ∉ rest := by
  rw [checkDimension]
  split
  · next h =>
      simp only [reduceCtorEq, false_iff]
      rintro ⟨⟨hzero, hprimary, -⟩, -⟩
      rcases h with h | h
      · rw [hzero] at h
        cases h
      · exact hprimary h
  split
  · next hany => simp_all
  · next hany => split <;> simp_all

theorem checkForm_eq_ok (form : FormFin) (rest : List FormFin) : cfc.checkForm form rest = .ok () ↔
      (form.isZero = false ∧ cfc.ownsDimension form = false) ∧ form ∉ rest := by
  rw [checkForm]
  split
  · simp_all
  · split
    · simp_all
    · split <;> simp_all

theorem checkBinding_eq_ok (binding : CfcBinding) (rest : List CfcBinding) :
    cfc.checkBinding binding rest = .ok () ↔ (cfc.ownsForm binding.form = true ∧
        cfc.ownsDimension binding.dimension = true) ∧ binding ∉ rest := by
  rw [checkBinding]
  split
  · simp_all
  · split
    · simp_all
    · split <;> simp_all

theorem validate_eq_ok : cfc.validate = .ok () ↔ cfc.Valid := by
  have hdimensions := validateEach_eq_ok cfc.checkDimension_eq_ok cfc.secondaryDimensions.occupants
  have hforms := validateEach_eq_ok cfc.checkForm_eq_ok cfc.forms.occupants
  have hbindings := validateEach_eq_ok cfc.checkBinding_eq_ok cfc.bindings.occupants
  rw [validate]
  constructor
  · intro h
    split at h
    · cases h
    rename_i hfin
    split at h
    · cases h
    rename_i hname
    split at h
    · cases h
    rename_i hprimary
    split at h
    · cases h
    rename_i hdim
    split at h
    · cases h
    rename_i hform
    obtain ⟨hds, hdnodup⟩ := hdimensions.mp hdim
    obtain ⟨hfs, hfnodup⟩ := hforms.mp hform
    obtain ⟨hbs, hbnodup⟩ := hbindings.mp h
    refine ⟨by simpa using hfin, hname,
      by simpa using hprimary, ?_, hdnodup, ?_, hfnodup, ?_, hbs, hbnodup⟩
    · intro dimension hmem
      exact ⟨(hds dimension hmem).1, (hds dimension hmem).2.1⟩
    · exact fun form hmem => (hfs form hmem).1
    · rintro identity ⟨hform, hdim⟩
      have h := (hfs identity (ownsForm_iff.mp hform)).2
      rw [hdim] at h
      cases h
  · intro h
    have hdim := hdimensions.mpr ⟨fun dimension hmem =>
      ⟨(h.dimensions dimension hmem).1, (h.dimensions dimension hmem).2,
        Bool.not_eq_true _ ▸ fun hform => h.kinds dimension
          ⟨hform, ownsDimension_iff.mpr (.inr hmem)⟩⟩,
      h.dimensions_nodup⟩
    have hform := hforms.mpr ⟨fun form hmem => ⟨h.forms form hmem,
      Bool.not_eq_true _ ▸ fun hdim => h.kinds form ⟨ownsForm_iff.mpr hmem, hdim⟩⟩, h.forms_nodup⟩
    rw [if_neg (by simp [h.fin]), if_neg h.name, if_neg (by simp [h.primaryDimension]), hdim]
    simp only [hform]
    exact hbindings.mpr ⟨h.bindings, h.bindings_nodup⟩

end Checks

/-! ## Construction keeps the conditions -/

theorem new_valid {fin : CfcFin} {name : List Char}
    {primaryDimension : FormFin} (h : new fin name primaryDimension = .ok cfc) : cfc.Valid := by
  rw [new] at h
  split at h
  · cases h
  rename_i hfin
  split at h
  · cases h
  rename_i hprimary
  split at h
  · cases h
  rename_i text htext
  cases h
  obtain ⟨hcontent, hne⟩ := Text.content_of_new htext
  have hascii := text.ascii
  rw [hcontent] at hascii
  have hchars := asciiChars_utf8 hascii
  refine ⟨by simpa using hfin, ?_, by simpa using hprimary,
    by simp, by simp, by simp, by simp, ?_, by simp, by simp⟩
  · dsimp only
    rw [hcontent, hchars, trim_trim]
    exact fun hnil => hne (utf8_eq_nil.mpr hnil)
  · rintro identity ⟨hform, -⟩
    cases hform

section Keeping

variable {cfc : Cfc} (h : cfc.Valid)

include h

theorem addSecondaryDimension_valid (dimension : FormFin) :
    (addSecondaryDimension dimension cfc).2.Valid := by
  rw [addSecondaryDimension]
  split
  · exact h
  rename_i hzero
  split
  · exact h
  rename_i hdimension
  split
  · exact h
  rename_i hform
  split
  · exact h
  rename_i slot hslot
  have hperm := perm_occupants_put hslot dimension
  rw [ownsDimension_iff, not_or] at hdimension
  have howns : ∀ identity, ownsDimension { cfc with
        secondaryDimensions := cfc.secondaryDimensions.put slot (some dimension) } identity = true ↔
        identity = dimension ∨ cfc.ownsDimension identity = true := by
    intro identity
    rw [ownsDimension_iff, ownsDimension_iff]
    rw [hperm.mem_iff, mem_cons, or_left_comm]
  refine ⟨h.fin, h.name, h.primaryDimension, ?_, ?_,
    h.forms, h.forms_nodup, ?_, ?_, h.bindings_nodup⟩
  · intro other hother
    rcases mem_occupants_put hother with rfl | hold
    · exact ⟨by simpa using hzero, hdimension.1⟩
    · exact h.dimensions other hold
  · rw [hperm.nodup_iff, nodup_cons]
    exact ⟨hdimension.2, h.dimensions_nodup⟩
  · rintro identity ⟨hf, hd⟩
    rcases (howns identity).mp hd with rfl | hold
    · exact hform hf
    · exact h.kinds identity ⟨hf, hold⟩
  · intro binding hbinding
    obtain ⟨hf, hd⟩ := h.bindings binding hbinding
    exact ⟨hf, (howns _).mpr (.inr hd)⟩

theorem ownForm_valid (form : FormFin) : (ownForm form cfc).2.Valid := by
  rw [ownForm]
  split
  · exact h
  rename_i hzero
  split
  · exact h
  rename_i hform
  split
  · exact h
  rename_i hdimension
  split
  · exact h
  rename_i slot hslot
  have hperm := perm_occupants_put hslot form
  rw [ownsForm_iff] at hform
  have howns : ∀ identity, ownsForm { cfc with
        forms := cfc.forms.put slot (some form) }
        identity = true ↔ identity = form ∨ cfc.ownsForm identity = true := by
    intro identity
    rw [ownsForm_iff, ownsForm_iff]
    rw [hperm.mem_iff, mem_cons]
  refine ⟨h.fin, h.name, h.primaryDimension, h.dimensions,
    h.dimensions_nodup, ?_, ?_, ?_, ?_, h.bindings_nodup⟩
  · intro other hother
    rcases mem_occupants_put hother with rfl | hold
    · simpa using hzero
    · exact h.forms other hold
  · rw [hperm.nodup_iff, nodup_cons]
    exact ⟨hform, h.forms_nodup⟩
  · rintro identity ⟨hf, hd⟩
    rcases (howns identity).mp hf with rfl | hold
    · exact hdimension hd
    · exact h.kinds identity ⟨hold, hd⟩
  · intro binding hbinding
    obtain ⟨hf, hd⟩ := h.bindings binding hbinding
    exact ⟨(howns _).mpr (.inr hf), hd⟩

theorem bind_valid (form dimension : FormFin) : (bind form dimension cfc).2.Valid := by
  rw [bind]
  split
  · exact h
  rename_i hform
  split
  · exact h
  rename_i hdimension
  split
  · exact h
  rename_i hbound
  split
  · exact h
  rename_i slot hslot
  have hperm := perm_occupants_put hslot
    { form, dimension : CfcBinding }
  rw [isBound_iff] at hbound
  rw [not_not] at hform hdimension
  refine ⟨h.fin, h.name, h.primaryDimension, h.dimensions,
    h.dimensions_nodup, h.forms, h.forms_nodup, h.kinds, ?_, ?_⟩
  · intro binding hbinding
    rcases mem_occupants_put hbinding with rfl | hold
    · exact ⟨hform, hdimension⟩
    · exact h.bindings binding hold
  · rw [hperm.nodup_iff, nodup_cons]
    exact ⟨hbound, h.bindings_nodup⟩

end Keeping

/-- A call of one of the mutators. -/
inductive Call where
  | addSecondaryDimension (dimension : FormFin)
  | ownForm (form : FormFin)
  | bind (form dimension : FormFin)

def Call.run : Call → Mutator Cfc CfcError Unit
  | .addSecondaryDimension dimension => Cfc.addSecondaryDimension dimension
  | .ownForm form => Cfc.ownForm form
  | .bind form dimension => Cfc.bind form dimension

/-- The values that `new` and the mutators build. -/
inductive Built : Cfc → Prop
  | new {fin : CfcFin} {name : List Char} {primaryDimension : FormFin}
      {cfc : Cfc} (h : Cfc.new fin name primaryDimension = .ok cfc) :
      Built cfc
  | call {cfc cfc' : Cfc} {outcome : Outcome CfcError Unit} (c : Call)
      (h : Built cfc) (hrun : c.run cfc = (outcome, cfc')) : Built cfc'

theorem Call.run_valid (c : Call) (h : cfc.Valid) : (c.run cfc).2.Valid := by
  cases c with
  | addSecondaryDimension dimension =>
    exact addSecondaryDimension_valid h dimension
  | ownForm form => exact ownForm_valid h form
  | bind form dimension => exact bind_valid h form dimension

theorem Built.valid (h : Built cfc) : cfc.Valid := by
  induction h with
  | new hnew => exact new_valid hnew
  | call c _ hrun ih =>
    have hvalid := c.run_valid ih
    rwa [hrun] at hvalid

/-- The identities of a CFC in the order the catalog checks them. -/
def identities (cfc : Cfc) : List FormFin :=
  cfc.primaryDimension :: cfc.secondaryDimensions.occupants ++ cfc.forms.occupants

theorem ownsAnyIdentity_iff_mem :
    cfc.ownsAnyIdentity identity = true ↔ identity ∈ cfc.identities := by
  rw [ownsAnyIdentity_iff, ownsDimension_iff, ownsForm_iff, identities, mem_append, mem_cons]

end Cfc

/-! ## The catalog -/

inductive CfcCatalogError where
  | invalidCfc (error : CfcError)
  | duplicateCfcFin
  | crossCfcSharing (identity : FormFin) (existingOwner : CfcFin)
  | full
deriving DecidableEq

structure CfcCatalog where
  cfcs : SlotTable Cfc maxCfcs
deriving DecidableEq

namespace CfcCatalog

def new : CfcCatalog where
  cfcs := SlotTable.empty _ _

/-- The first identity of `cfc` that an earlier member owns, and its
owner. -/
def sharing (members : List Cfc) (cfc : Cfc) : Option (FormFin × CfcFin) :=
  members.findSome? fun existing =>
    (cfc.identities.find? existing.ownsAnyIdentity).map fun identity =>
      (identity, existing.fin)

def insert (cfc : Cfc) : Mutator CfcCatalog CfcCatalogError Unit :=
  fun catalog =>
    match cfc.validate with
    | .error error => (.fail (.invalidCfc error), catalog)
    | .ok () =>
      if catalog.cfcs.occupants.any (·.fin == cfc.fin) then
        (.fail .duplicateCfcFin, catalog)
      else
        match sharing catalog.cfcs.occupants cfc with
        | some (identity, owner) =>
          (.fail (.crossCfcSharing identity owner), catalog)
        | none =>
          match catalog.cfcs.freeIndex with
          | none => (.fail .full, catalog)
          | some slot => (.done (),
              { cfcs := catalog.cfcs.put slot (some cfc) })

/-- The catalogs that insertions, successful or not, lead to. -/
inductive Reachable : CfcCatalog → Prop
  | new : Reachable CfcCatalog.new
  | insert {catalog catalog' : CfcCatalog} {cfc : Cfc}
      {outcome : Outcome CfcCatalogError Unit} (h : Reachable catalog)
      (hrun : CfcCatalog.insert cfc catalog = (outcome, catalog')) :
      Reachable catalog'

/-- Two CFCs that share nothing. -/
def Apart (a b : Cfc) : Prop :=
  a.fin ≠ b.fin ∧ ∀ identity, ¬ (a.ownsAnyIdentity identity = true ∧
      b.ownsAnyIdentity identity = true)

theorem Apart.symm {a b : Cfc} (h : Apart a b) : Apart b a :=
  ⟨h.1.symm, fun identity howns => h.2 identity ⟨howns.2, howns.1⟩⟩

instance : Std.Symm Apart := ⟨fun _ _ h => h.symm⟩

theorem sharing_eq_none {members : List Cfc} {cfc : Cfc} (h : sharing members cfc = none) :
    ∀ existing ∈ members, ∀ identity, ¬ (existing.ownsAnyIdentity identity = true ∧
        cfc.ownsAnyIdentity identity = true) := by
  rintro existing hmem identity ⟨hold, hnew⟩
  rw [sharing, List.findSome?_eq_none_iff] at h
  have hnone := h existing hmem
  rw [Option.map_eq_none_iff, List.find?_eq_none] at hnone
  exact hnone identity (Cfc.ownsAnyIdentity_iff_mem.mp hnew) hold

variable {catalog : CfcCatalog}

theorem insert_fail {catalog' : CfcCatalog} {cfc : Cfc}
    {error : CfcCatalogError} (h : insert cfc catalog = (.fail error, catalog')) :
    catalog' = catalog := by
  rw [insert] at h
  split at h
  · cases h
    rfl
  split at h
  · cases h
    rfl
  split at h
  · cases h
    rfl
  split at h
  · cases h
    rfl
  · cases h

/-- Every member is valid and no two of them share anything. -/
structure Sound (catalog : CfcCatalog) : Prop where
  valid : ∀ cfc ∈ catalog.cfcs.occupants, cfc.Valid
  apart : catalog.cfcs.occupants.Pairwise Apart

theorem Sound.insert (h : catalog.Sound) (cfc : Cfc) : (insert cfc catalog).2.Sound := by
  rw [CfcCatalog.insert]
  split
  · exact h
  rename_i hvalid
  split
  · exact h
  rename_i hfin
  split
  · exact h
  rename_i hsharing
  split
  · exact h
  rename_i slot hslot
  have hperm := perm_occupants_put hslot cfc
  refine ⟨?_, ?_⟩
  · intro member hmember
    rcases mem_occupants_put hmember with rfl | hold
    · exact (Cfc.validate_eq_ok _).mp hvalid
    · exact h.valid member hold
  · rw [hperm.pairwise_iff Apart.symm, pairwise_cons]
    refine ⟨fun member hmember => ?_, h.apart⟩
    refine Apart.symm ⟨?_, sharing_eq_none hsharing _ hmember⟩
    rintro heq
    exact hfin (any_eq_true.mpr ⟨member, hmember, by simp [heq]⟩)

theorem Reachable.sound (h : Reachable catalog) : catalog.Sound := by
  induction h with
  | new => exact ⟨by simp [CfcCatalog.new], by simp [CfcCatalog.new]⟩
  | @insert _ _ cfc _ _ hrun ih =>
    have hsound := ih.insert cfc
    rwa [hrun] at hsound

end CfcCatalog

/-- Everything `new` and the mutators build passes `validate`.  In every
reachable catalog no identity has two owners or two kinds, and an insertion
that fails changes nothing. -/
theorem cfc_single_ownership : (∀ cfc, Cfc.Built cfc → cfc.validate = .ok ()) ∧
    (∀ catalog, CfcCatalog.Reachable catalog →
      catalog.cfcs.occupants.Pairwise (fun a b => ∀ identity, ¬ (a.ownsAnyIdentity identity = true ∧
          b.ownsAnyIdentity identity = true)) ∧
      ∀ a ∈ catalog.cfcs.occupants, ∀ b ∈ catalog.cfcs.occupants,
        ∀ identity, ¬ (a.ownsForm identity = true ∧ b.ownsDimension identity = true)) ∧
    ∀ cfc catalog catalog' error, CfcCatalog.insert cfc catalog = (.fail error, catalog') →
        catalog' = catalog := by
  refine ⟨fun cfc hbuilt => (Cfc.validate_eq_ok cfc).mpr hbuilt.valid, ?_,
    fun cfc catalog catalog' error hfail => CfcCatalog.insert_fail hfail⟩
  intro catalog hreachable
  have hsound := hreachable.sound
  refine ⟨hsound.apart.imp fun hab => hab.2, ?_⟩
  rintro a ha b hb identity ⟨hform, hdimension⟩
  by_cases hab : a = b
  · subst hab
    exact (hsound.valid a ha).kinds identity ⟨hform, hdimension⟩
  · have hapart := hsound.apart.forall ha hb hab
    exact hapart.2 identity
      ⟨Cfc.ownsAnyIdentity_iff.mpr (.inr hform), Cfc.ownsAnyIdentity_iff.mpr (.inl hdimension)⟩

/-- A CFC named `T` with one Form. -/
def smallCfc (fin primaryDimension form : ℕ) : Cfc where
  fin := CfcFin.fromU128 fin
  name := ⟨asciiBytes "T", by decide, isAscii_iff.mp (by decide)⟩
  primaryDimension := FormFin.fromU128 primaryDimension
  secondaryDimensions := SlotTable.empty _ _
  forms := (SlotTable.empty _ _).put 0 (some (FormFin.fromU128 form))
  bindings := SlotTable.empty _ _

theorem smallCfc_built : Cfc.Built (smallCfc 100 1 2) := by
  have hnew : Cfc.new (CfcFin.fromU128 100) [' ', 'T'] (FormFin.fromU128 1) =
      .ok { smallCfc 100 1 2 with forms := .empty _ _ } := by
    decide +kernel
  have hown : (Cfc.Call.ownForm (FormFin.fromU128 2)).run
      { smallCfc 100 1 2 with forms := .empty _ _ } = (.done (), smallCfc 100 1 2) := by
    decide +kernel
  exact .call _ (.new hnew) hown

theorem two_cfcs_single_ownership : (smallCfc 100 1 2).validate = .ok () ∧
      ∃ catalog, CfcCatalog.Reachable catalog ∧
        catalog.cfcs.occupants = [smallCfc 100 1 2, smallCfc 101 3 4] ∧
        catalog.cfcs.occupants.Pairwise (fun a b => ∀ identity,
          ¬ (a.ownsAnyIdentity identity = true ∧ b.ownsAnyIdentity identity = true)) := by
  have hfirst : CfcCatalog.insert (smallCfc 100 1 2) .new =
      (.done (), ⟨CfcCatalog.new.cfcs.put 0 (some (smallCfc 100 1 2))⟩) := by
    decide +kernel
  have hsecond : CfcCatalog.insert (smallCfc 101 3 4)
      ⟨CfcCatalog.new.cfcs.put 0 (some (smallCfc 100 1 2))⟩ = (.done (), ⟨(CfcCatalog.new.cfcs.put 0
        (some (smallCfc 100 1 2))).put 1 (some (smallCfc 101 3 4))⟩) := by
    decide +kernel
  have hreachable := (CfcCatalog.Reachable.new.insert hfirst).insert hsecond
  exact ⟨cfc_single_ownership.1 _ smallCfc_built, _, hreachable, rfl,
    (cfc_single_ownership.2.1 _ hreachable).1⟩

end ExpOS
