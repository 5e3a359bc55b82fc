import ExpOS.Support.Outcome
import ExpOS.Support.Words
import Mathlib.Order.Basic

/-!
# Resource budgets

A budget keeps one account for each resource kind.  A charge that does not fit
the soft limit or overflows is counted and leaves the use unchanged.
-/

namespace ExpOS

inductive ResourceKind where
  | cpuTicks
  | heapPages
  | ipcMessages
  | ipcBytes
  | outputBytes
  | networkBytes
  | formOperations
  | formBytes
deriving DecidableEq

structure ResourceAccount where
  ceiling : UInt64
  soft : UInt64
  hard : UInt64
  used : UInt64
  deniedCharges : UInt64
  overflowCharges : UInt64
deriving DecidableEq

def ResourceAccount.withCeiling (ceiling : UInt64) : ResourceAccount where
  ceiling := ceiling
  soft := ceiling
  hard := ceiling
  used := 0
  deniedCharges := 0
  overflowCharges := 0

inductive BudgetError where
  | invalidLimits (kind : ResourceKind) (used soft hard ceiling : UInt64)
  | softLimitExceeded (kind : ResourceKind) (used requested soft : UInt64)
  | chargeOverflow (kind : ResourceKind) (used requested : UInt64)
  | releaseUnderflow (kind : ResourceKind) (used requested : UInt64)
deriving DecidableEq

/-- A budget owned by the context `context`. -/
structure ExpBudget (C : Type) where
  context : C
  accounts : ResourceKind → ResourceAccount

namespace ExpBudget

variable {C : Type}

def new (context : C) (ceilings : ResourceKind → UInt64) : ExpBudget C where
  context := context
  accounts kind := .withCeiling (ceilings kind)

def uniform (context : C) (ceiling : UInt64) : ExpBudget C :=
  new context fun _ => ceiling

def account (budget : ExpBudget C) (kind : ResourceKind) :
    ResourceAccount :=
  budget.accounts kind

/-- Replace the account of one kind. -/
def setAccount (budget : ExpBudget C) (kind : ResourceKind)
    (account : ResourceAccount) : ExpBudget C :=
  { budget with
    accounts := fun other =>
      if other = kind then account else budget.accounts other }

def configure (kind : ResourceKind) (soft hard : UInt64) :
    Mutator (ExpBudget C) BudgetError Unit := fun budget =>
  let account := budget.account kind
  if account.used > soft ∨ soft > hard ∨ hard > account.ceiling then
    (.fail (.invalidLimits kind account.used soft hard account.ceiling), budget)
  else
    (.done (), budget.setAccount kind { account with soft, hard })

def charge (kind : ResourceKind) (amount : UInt64) :
    Mutator (ExpBudget C) BudgetError UInt64 := fun budget =>
  let account := budget.account kind
  -- `checked_add` on 64-bit words
  if 2 ^ 64 ≤ account.used.toNat + amount.toNat then
    (.fail (.chargeOverflow kind account.used amount), budget.setAccount kind
        { account with
          deniedCharges := saturatingAdd account.deniedCharges 1
          overflowCharges := saturatingAdd account.overflowCharges 1 })
  else if account.used + amount > account.soft then
    (.fail (.softLimitExceeded kind account.used amount account.soft), budget.setAccount kind
        { account with
          deniedCharges := saturatingAdd account.deniedCharges 1 })
  else
    (.done (account.used + amount),
      budget.setAccount kind { account with used := account.used + amount })

def release (kind : ResourceKind) (amount : UInt64) :
    Mutator (ExpBudget C) BudgetError Unit := fun budget =>
  let account := budget.account kind
  if account.used < amount then
    (.fail (.releaseUnderflow kind account.used amount), budget)
  else
    (.done (), budget.setAccount kind { account with used := account.used - amount })

/-! ## Runs -/

/-- One call on a budget with arbitrary arguments. -/
inductive Call where
  | configure (kind : ResourceKind) (soft hard : UInt64)
  | charge (kind : ResourceKind) (amount : UInt64)
  | release (kind : ResourceKind) (amount : UInt64)
deriving DecidableEq

def perform (budget : ExpBudget C) : Call → Outcome BudgetError Unit × ExpBudget C
  | .configure kind soft hard => configure kind soft hard budget
  | .charge kind amount =>
    let result := charge kind amount budget
    (result.1 >>= fun _ => .done (), result.2)
  | .release kind amount => release kind amount budget

def run (budget : ExpBudget C) (calls : List Call) : ExpBudget C :=
  calls.foldl (fun budget call => (budget.perform call).2) budget

end ExpBudget

namespace ResourceAccount

/-- The order that every account keeps. -/
structure Ordered (account : ResourceAccount) : Prop where
  used_le : account.used ≤ account.soft
  soft_le : account.soft ≤ account.hard
  hard_le : account.hard ≤ account.ceiling

/-- What an account says about its resource, without its counters. -/
def amounts (account : ResourceAccount) : UInt64 × UInt64 × UInt64 × UInt64 :=
  (account.used, account.soft, account.hard, account.ceiling)

theorem ordered_withCeiling (ceiling : UInt64) : (withCeiling ceiling).Ordered where
  used_le := UInt64.le_iff_toNat_le.mpr (Nat.zero_le _)
  soft_le := UInt64.le_refl _
  hard_le := UInt64.le_refl _

end ResourceAccount

namespace ExpBudget

variable {C : Type} {budget : ExpBudget C}

theorem account_setAccount (budget : ExpBudget C) (kind other : ResourceKind)
    (account : ResourceAccount) :
    (budget.setAccount kind account).account other =
      if other = kind then account else budget.account other :=
  rfl

variable {kind : ResourceKind} {account : ResourceAccount}

/-- A new account with the order keeps the order of all. -/
theorem ordered_setAccount (h : ∀ kind, (budget.account kind).Ordered) (haccount : account.Ordered)
    (other : ResourceKind) : ((budget.setAccount kind account).account other).Ordered := by
  rw [account_setAccount]
  split
  · exact haccount
  · exact h other

/-- A refused charge only counts. -/
theorem amounts_setAccount
    (haccount : account.amounts = (budget.account kind).amounts) (other : ResourceKind) :
    ((budget.setAccount kind account).account other).amounts = (budget.account other).amounts := by
  rw [account_setAccount]
  split
  · next heq =>
      subst heq
      exact haccount
  · rfl

/-- One call keeps the order, and a call that fails changes no amount. -/
theorem perform_spec (h : ∀ kind, (budget.account kind).Ordered) (call : Call) :
    (∀ kind, ((budget.perform call).2.account kind).Ordered) ∧
      ∀ e, (budget.perform call).1 = .fail e → ∀ kind,
        ((budget.perform call).2.account kind).amounts = (budget.account kind).amounts := by
  cases call with
  | configure kind soft hard =>
    simp only [perform, configure]
    split
    · exact ⟨h, fun _ _ _ => rfl⟩
    rename_i hvalid
    rw [not_or, not_or] at hvalid
    refine ⟨ordered_setAccount h ⟨UInt64.not_lt.mp hvalid.1, UInt64.not_lt.mp hvalid.2.1,
      UInt64.not_lt.mp hvalid.2.2⟩, ?_⟩
    intro e he
    cases he
  | charge kind amount =>
    have hkind := h kind
    simp only [perform, charge]
    split
    · exact ⟨ordered_setAccount h ⟨hkind.used_le, hkind.soft_le, hkind.hard_le⟩,
        fun _ _ => amounts_setAccount rfl⟩
    split
    · exact ⟨ordered_setAccount h ⟨hkind.used_le, hkind.soft_le, hkind.hard_le⟩,
        fun _ _ => amounts_setAccount rfl⟩
    rename_i hfits
    refine ⟨ordered_setAccount h ⟨UInt64.not_lt.mp hfits, hkind.soft_le, hkind.hard_le⟩, ?_⟩
    intro e he
    cases he
  | release kind amount =>
    have hkind := h kind
    simp only [perform, release]
    split
    · exact ⟨h, fun _ _ _ => rfl⟩
    rename_i hfits
    refine ⟨ordered_setAccount h ⟨?_, hkind.soft_le, hkind.hard_le⟩, ?_⟩
    · -- the difference does not wrap, so it is at most the old usage
      have hused := UInt64.le_iff_toNat_le.mp hkind.used_le
      rw [UInt64.le_iff_toNat_le, UInt64.toNat_sub_of_le _ _ (UInt64.not_lt.mp hfits)]
      exact Nat.le_trans (Nat.sub_le ..) hused
    · intro e he
      cases he

/-- A refused charge counts itself. -/
theorem charge_denied {amount : UInt64} {e : BudgetError}
    (h : (charge kind amount budget).1 = .fail e) :
    ((charge kind amount budget).2.account kind).deniedCharges =
      saturatingAdd (budget.account kind).deniedCharges 1 := by
  rw [charge] at h ⊢
  split_ifs at h ⊢
  · rw [account_setAccount, if_pos rfl]
  · rw [account_setAccount, if_pos rfl]

/-- A refused configuration changes nothing. -/
theorem configure_refused {soft hard : UInt64} {e : BudgetError}
    (h : (configure kind soft hard budget).1 = .fail e) :
    (configure kind soft hard budget).2 = budget := by
  rw [configure] at h ⊢
  split_ifs at h ⊢
  · rfl

theorem ordered_run (h : ∀ kind, (budget.account kind).Ordered) (calls : List Call) :
    ∀ kind, ((budget.run calls).account kind).Ordered := by
  induction calls generalizing budget with
  | nil => exact h
  | cons call calls ih => exact ih (perform_spec h call).1

end ExpBudget

end ExpOS
