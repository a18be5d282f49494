import Aeqi.Governance.State
import Aeqi.Roles.Program
import Aeqi.Solana.Tokens

/-!
# aeqi_budget

Allocations to a role, and a counter of what was spent against them. Whoever occupies the
target role spends; the tokens themselves move elsewhere.
-/

namespace Aeqi.Budgets

open Aeqi.Lib Aeqi.Solana
open Governance (Trust)
open Roles (RolePda RoleState)

structure BudgetModuleState where
  trust : Pubkey
  budgetCount : Nat

structure Budget where
  trust : Pubkey
  budgetId : Bytes32
  grantor : Pubkey
  targetRoleId : Bytes32
  parentBudgetId : Bytes32
  amount : Nat
  spent : Nat
  expiry : Int
  frozen : Bool

def Budget.seeds (b : Budget) : TrustPda := ⟨b.trust, b.budgetId⟩

inductive BudgetError
  | trustNotInCreationMode
  | unauthorized
  | zeroAmount
  | invalidExpiry
  | budgetFrozen
  | budgetExpired
  | exceedsAllocation
  | mathOverflow

abbrev BudgetTxError := TxError BudgetError

/-- All accounts owned by the budget program. -/
structure BudgetState where
  modules : Accounts Pubkey BudgetModuleState := ∅
  budgets : Accounts TrustPda Budget := ∅

/-! ## Handlers -/

def init (s : BudgetState) (trusts : Accounts Pubkey Trust) (k payer : Pubkey) :
    Except BudgetTxError BudgetState := do
  let trust ← load trusts k
  requireFree s.modules k
  require (trust.creationMode = true) (.custom .trustNotInCreationMode)
  require (payer = trust.authority) (.custom .unauthorized)
  pure { s with modules := s.modules.insert k ⟨k, 0⟩ }

structure CreateBudget where
  trust : Pubkey
  grantor : Pubkey

structure BudgetParams where
  budgetId : Bytes32
  targetRoleId : Bytes32
  amount : Nat
  expiry : Int
  parentBudgetId : Option Bytes32

def createBudget (s : BudgetState) (trusts : Accounts Pubkey Trust) (clock : Clock)
    (a : CreateBudget) (p : BudgetParams) : Except BudgetTxError BudgetState := do
  let k : TrustPda := ⟨a.trust, p.budgetId⟩
  let trust ← load trusts a.trust
  let m ← load s.modules a.trust
  requireFree s.budgets k
  require (0 < p.amount) (.custom .zeroAmount)
  require (p.expiry = 0 ∨ clock.unixTimestamp < p.expiry) (.custom .invalidExpiry)
  require (a.grantor = trust.authority) (.custom .unauthorized)
  let b : Budget := {
    trust := a.trust
    budgetId := p.budgetId
    grantor := a.grantor
    targetRoleId := p.targetRoleId
    parentBudgetId := p.parentBudgetId.getD 0
    amount := p.amount
    spent := 0
    expiry := p.expiry
    frozen := false }
  let budgetCount ← okOr (checkedAdd 64 m.budgetCount 1) (.custom .mathOverflow)
  pure { s with
    budgets := s.budgets.insert k b
    modules := s.modules.insert a.trust { m with budgetCount } }

structure RecordSpend where
  budget : TrustPda
  spenderRole : RolePda
  spender : Pubkey

def recordSpend (s : BudgetState) (roles : RoleState) (clock : Clock) (a : RecordSpend)
    (amount : Nat) : Except BudgetTxError BudgetState := do
  let b ← loadPda s.budgets Budget.seeds a.budget
  let spenderRole ← load roles.roles a.spenderRole
  require (0 < amount) (.custom .zeroAmount)
  require (spenderRole.trust = b.trust) (.custom .unauthorized)
  require (spenderRole.roleId = b.targetRoleId) (.custom .unauthorized)
  require (spenderRole.status = .occupied) (.custom .unauthorized)
  require (spenderRole.account = a.spender) (.custom .unauthorized)
  require (b.frozen = false) (.custom .budgetFrozen)
  require (b.expiry = 0 ∨ clock.unixTimestamp < b.expiry) (.custom .budgetExpired)
  let newSpent ← okOr (checkedAdd 64 b.spent amount) (.custom .mathOverflow)
  require (newSpent ≤ b.amount) (.custom .exceedsAllocation)
  pure { s with budgets := s.budgets.insert a.budget { b with spent := newSpent } }

/-- `freeze` and `unfreeze`. -/
def setFrozen (s : BudgetState) (k : TrustPda) (grantor : Pubkey) (frozen : Bool) :
    Except BudgetTxError BudgetState := do
  let b ← loadPda s.budgets Budget.seeds k
  require (grantor = b.grantor) (.custom .unauthorized)
  pure { s with budgets := s.budgets.insert k { b with frozen } }

def freeze (s : BudgetState) (k : TrustPda) (grantor : Pubkey) :
    Except BudgetTxError BudgetState := setFrozen s k grantor true

def unfreeze (s : BudgetState) (k : TrustPda) (grantor : Pubkey) :
    Except BudgetTxError BudgetState := setFrozen s k grantor false

/-! ## The program as one transition function -/

inductive BudgetIx
  | init (trust payer : Pubkey)
  | createBudget (a : CreateBudget) (p : BudgetParams)
  | recordSpend (a : RecordSpend) (amount : Nat)
  | freeze (budget : TrustPda) (grantor : Pubkey)
  | unfreeze (budget : TrustPda) (grantor : Pubkey)

def BudgetState.exec (s : BudgetState) (trusts : Accounts Pubkey Trust) (roles : RoleState)
    (clock : Clock) : BudgetIx → Except BudgetTxError BudgetState
  | .init trust payer => Budgets.init s trusts trust payer
  | .createBudget a p => Budgets.createBudget s trusts clock a p
  | .recordSpend a amount => Budgets.recordSpend s roles clock a amount
  | .freeze budget grantor => Budgets.freeze s budget grantor
  | .unfreeze budget grantor => Budgets.unfreeze s budget grantor

end Aeqi.Budgets
