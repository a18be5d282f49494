import Aeqi.CapToken.Program
import Aeqi.Funding.Steps
import Aeqi.Funds.Steps
import Aeqi.Vesting.Program

/-!
# What a transaction did to each part of the world

The ledger moves as signed and minted by the transaction (`moves`), and the market moves by
at most one market instruction, which the transaction executes by itself or through a
funding request (`market_step`). Invariants of one program are proved from these, with no
split over the programs.
-/

/-!
## The capital programs together

One state for the programs that issue, fund, vest and budget, over the ledger they share:
a transaction is an instruction of one of them, or of the token program, executed at a
clock value. Every claim about runs is about runs of this state, so whatever it says holds
with all the other programs in between.
-/

namespace Aeqi

open Lib Solana
open Token (Ledger)
open Token.Ledger (Moves)

structure World where
  trusts : Trusts.TrustState := {}
  roles : Roles.RoleState := {}
  capToken : CapToken.TokenState := {}
  market : Market.MarketState := {}
  funds : Funds.FundState := {}
  vesting : Vesting.VestingState := {}
  budgets : Budgets.BudgetState := {}
  funding : Funding.FundingState := {}
  tokens : Ledger Address := {}

inductive WorldIx
  | trust (ix : Trusts.TrustIx)
  | role (ix : Roles.RoleIx)
  | capToken (ix : CapToken.CapTokenIx)
  | market (ix : Market.MarketIx)
  | fund (ix : Funds.FundIx)
  | vesting (ix : Vesting.VestingIx)
  | budget (ix : Budgets.BudgetIx)
  | funding (ix : Funding.FundingIx)
  | token (ix : TokenIx)

structure WorldTx where
  clock : Clock := ⟨0, 0⟩
  ix : WorldIx

inductive WorldError
  | trust (e : Trusts.TrustError)
  | role (e : Roles.RoleError)
  | capToken (e : CapToken.TokenTxError)
  | market (e : Market.MarketError)
  | fund (e : Funds.FundTxError)
  | vesting (e : Vesting.VestingTxError)
  | budget (e : Budgets.BudgetTxError)
  | funding (e : Funding.FundingTxError)
  | token (e : Token.Error)

namespace World

/-- Before the first transaction no account exists. -/
def init : World := {}

def exec (w : World) (tx : WorldTx) : Except WorldError World :=
  match tx.ix with
  | .trust ix => do
    let trusts ← (w.trusts.exec ix).mapError .trust
    pure { w with trusts }
  | .role ix => do
    let roles ← (w.roles.exec ⟨tx.clock, ix⟩).mapError .role
    pure { w with roles }
  | .capToken ix => do
    let (capToken, tokens) ← (w.capToken.exec w.trusts w.tokens ix).mapError .capToken
    pure { w with capToken, tokens }
  | .market ix => do
    let (market, tokens) ←
      (w.market.exec w.trusts.trusts w.tokens tx.clock ix).mapError .market
    pure { w with market, tokens }
  | .fund ix => do
    let (funds, tokens) ← (w.funds.exec w.trusts.trusts w.tokens ix).mapError .fund
    pure { w with funds, tokens }
  | .vesting ix => do
    let (vesting, tokens) ←
      (w.vesting.exec w.trusts.trusts w.tokens tx.clock ix).mapError .vesting
    pure { w with vesting, tokens }
  | .budget ix => do
    let budgets ← (w.budgets.exec w.trusts.trusts w.roles tx.clock ix).mapError .budget
    pure { w with budgets }
  | .funding ix => do
    let (funding, market) ←
      (w.funding.exec w.trusts.trusts w.budgets w.market w.tokens tx.clock ix).mapError .funding
    pure { w with funding, market }
  | .token ix => do
    let tokens ← (execToken w.tokens ix).mapError .token
    pure { w with tokens }

abbrev Step := okStep exec

/-! ## What a step did -/

/-- A step is a step of one program; the others keep their accounts. -/
inductive Stepped (w : World) (clock : Clock) : WorldIx → World → Prop
  | trust {ix trusts} (h : w.trusts.exec ix = .ok trusts) :
      Stepped w clock (.trust ix) { w with trusts }
  | role {ix roles} (h : w.roles.exec ⟨clock, ix⟩ = .ok roles) :
      Stepped w clock (.role ix) { w with roles }
  | capToken {ix capToken tokens}
      (h : w.capToken.exec w.trusts w.tokens ix = .ok (capToken, tokens)) :
      Stepped w clock (.capToken ix) { w with capToken, tokens }
  | market {ix market tokens}
      (h : w.market.exec w.trusts.trusts w.tokens clock ix = .ok (market, tokens)) :
      Stepped w clock (.market ix) { w with market, tokens }
  | fund {ix funds tokens} (h : w.funds.exec w.trusts.trusts w.tokens ix = .ok (funds, tokens)) :
      Stepped w clock (.fund ix) { w with funds, tokens }
  | vesting {ix vesting tokens}
      (h : w.vesting.exec w.trusts.trusts w.tokens clock ix = .ok (vesting, tokens)) :
      Stepped w clock (.vesting ix) { w with vesting, tokens }
  | budget {ix budgets} (h : w.budgets.exec w.trusts.trusts w.roles clock ix = .ok budgets) :
      Stepped w clock (.budget ix) { w with budgets }
  | funding {ix funding market}
      (h : w.funding.exec w.trusts.trusts w.budgets w.market w.tokens clock ix =
        .ok (funding, market)) :
      Stepped w clock (.funding ix) { w with funding, market }
  | token {ix tokens} (h : execToken w.tokens ix = .ok tokens) :
      Stepped w clock (.token ix) { w with tokens }

variable {w w' : World} {tx : WorldTx}

theorem exec_stepped (h : w.exec tx = .ok w') : Stepped w tx.clock tx.ix w' := by
  unfold exec at h
  split at h <;> simp only [bind_eq_ok, mapError_eq_ok, pure_eq_ok] at h
  · next ix hix =>
    obtain ⟨_, h, rfl⟩ := h
    exact hix ▸ .trust h
  · next ix hix =>
    obtain ⟨_, h, rfl⟩ := h
    exact hix ▸ .role h
  · next ix hix =>
    obtain ⟨⟨_, _⟩, h, rfl⟩ := h
    exact hix ▸ .capToken h
  · next ix hix =>
    obtain ⟨⟨_, _⟩, h, rfl⟩ := h
    exact hix ▸ .market h
  · next ix hix =>
    obtain ⟨⟨_, _⟩, h, rfl⟩ := h
    exact hix ▸ .fund h
  · next ix hix =>
    obtain ⟨⟨_, _⟩, h, rfl⟩ := h
    exact hix ▸ .vesting h
  · next ix hix =>
    obtain ⟨_, h, rfl⟩ := h
    exact hix ▸ .budget h
  · next ix hix =>
    obtain ⟨⟨_, _⟩, h, rfl⟩ := h
    exact hix ▸ .funding h
  · next ix hix =>
    obtain ⟨_, h, rfl⟩ := h
    exact hix ▸ .token h

end World

open Market (MarketIx)
open Token.Ledger (Sound)

def WorldIx.authority : WorldIx → Option Address
  | .market ix => ix.authority
  | .fund ix => ix.authority
  | .vesting ix => ix.authority
  | _ => none

def WorldIx.minted : WorldIx → Address → Nat
  | .capToken ix => ix.minted
  | .token ix => ix.minted
  | _ => fun _ => 0

namespace World

def marketIx (w : World) : WorldIx → Option MarketIx
  | .market ix => some ix
  | .funding ix => w.funding.marketIx ix
  | _ => none

variable {w w' : World} {tx : WorldTx}

theorem moves (h : w.exec tx = .ok w') :
    Moves (Signs tx.ix.authority) tx.ix.minted w.tokens w'.tokens := by
  replace h := exec_stepped h
  generalize tx.ix = ix at h
  cases h with
  | trust _ | role _ => exact .refl _
  | capToken h => exact CapToken.exec_moves h
  | market h => exact Market.exec_moves h
  | fund h => exact Funds.exec_moves h
  | vesting h => exact Vesting.exec_moves h
  | budget _ | funding _ => exact .refl _
  | token h => exact execToken_moves h

theorem sound_step (hs : Sound w.tokens) (h : w.exec tx = .ok w') : Sound w'.tokens :=
  (moves h).sound hs

theorem market_step (h : w.exec tx = .ok w') :
    (w.marketIx tx.ix = none ∧ w'.market = w.market) ∨ ∃ ix, w.marketIx tx.ix = some ix ∧
        w.market.exec w.trusts.trusts w.tokens tx.clock ix = .ok (w'.market, w'.tokens) := by
  replace h := exec_stepped h
  generalize tx.ix = ix at h
  cases h with
  | trust _ | role _ | capToken _ => exact .inl ⟨rfl, rfl⟩
  | market h => exact .inr ⟨_, rfl, h⟩
  | fund _ | vesting _ | budget _ => exact .inl ⟨rfl, rfl⟩
  | @funding ix _ _ h =>
    cases ha : ix.activation with
    | none => exact .inl (Funding.market_unchanged h ha)
    | some activation =>
      obtain ⟨_, mix, -, -, -, -, -, -, hmix, hexec, -⟩ := Funding.activation_ok h ha
      exact .inr ⟨mix, hmix, hexec⟩
  | token _ => exact .inl ⟨rfl, rfl⟩

theorem market_exec (h : w.exec tx = .ok w') {ix : MarketIx} (hix : w.marketIx tx.ix = some ix) :
    w.market.exec w.trusts.trusts w.tokens tx.clock ix = .ok (w'.market, w'.tokens) := by
  rcases market_step h with ⟨hnone, -⟩ | ⟨ix', hix', hexec⟩
  · rw [hix] at hnone
    cases hnone
  · obtain rfl : ix = ix' := Option.some.inj (hix.symm.trans hix')
    exact hexec

/-! ## Steps of one program -/

theorem capToken_step (h : w.exec tx = .ok w') :
    (∃ ix, tx.ix = .capToken ix ∧
      w.capToken.exec w.trusts w.tokens ix = .ok (w'.capToken, w'.tokens)) ∨
    (∀ ix, tx.ix ≠ .capToken ix) ∧ w'.capToken = w.capToken := by
  replace h := exec_stepped h
  generalize tx.ix = ix at h
  cases h with
  | capToken h => exact .inl ⟨_, rfl, h⟩
  | _ => exact .inr ⟨nofun, rfl⟩

theorem fund_step (h : w.exec tx = .ok w') :
    (∃ ix, tx.ix = .fund ix ∧
      w.funds.exec w.trusts.trusts w.tokens ix = .ok (w'.funds, w'.tokens)) ∨
    (∀ ix, tx.ix ≠ .fund ix) ∧ w'.funds = w.funds := by
  replace h := exec_stepped h
  generalize tx.ix = ix at h
  cases h with
  | fund h => exact .inl ⟨_, rfl, h⟩
  | _ => exact .inr ⟨nofun, rfl⟩

theorem vesting_step (h : w.exec tx = .ok w') :
    (∃ ix, tx.ix = .vesting ix ∧
      w.vesting.exec w.trusts.trusts w.tokens tx.clock ix = .ok (w'.vesting, w'.tokens)) ∨
    (∀ ix, tx.ix ≠ .vesting ix) ∧ w'.vesting = w.vesting := by
  replace h := exec_stepped h
  generalize tx.ix = ix at h
  cases h with
  | vesting h => exact .inl ⟨_, rfl, h⟩
  | _ => exact .inr ⟨nofun, rfl⟩

theorem budget_step (h : w.exec tx = .ok w') :
    (∃ ix, tx.ix = .budget ix ∧
      w.budgets.exec w.trusts.trusts w.roles tx.clock ix = .ok w'.budgets) ∨
    (∀ ix, tx.ix ≠ .budget ix) ∧ w'.budgets = w.budgets := by
  replace h := exec_stepped h
  generalize tx.ix = ix at h
  cases h with
  | budget h => exact .inl ⟨_, rfl, h⟩
  | _ => exact .inr ⟨nofun, rfl⟩

theorem funding_step (h : w.exec tx = .ok w') :
    (∃ ix, tx.ix = .funding ix ∧
      w.funding.exec w.trusts.trusts w.budgets w.market w.tokens tx.clock ix =
        .ok (w'.funding, w'.market)) ∨
    (∀ ix, tx.ix ≠ .funding ix) ∧ w'.funding = w.funding := by
  replace h := exec_stepped h
  generalize tx.ix = ix at h
  cases h with
  | funding h => exact .inl ⟨_, rfl, h⟩
  | _ => exact .inr ⟨nofun, rfl⟩

/-! ## A trust to open accounts in -/

/-- Trust 1 of key 10, with the market program ready and mints 1 and 2. -/
def openMarket : List WorldTx :=
  [{ ix := .trust (.initializeTrust 1 10) },
   { ix := .market (.init 1 10) },
   { ix := .token (.initializeMint 1 10) },
   { ix := .token (.initializeMint 2 10) }]

/-- A token account at `key`, with an amount minted to it. -/
def openAccount (key mint : Pubkey) (owner : Address) (amount : Nat) : List WorldTx :=
  [{ ix := .token (.initializeAccount key (.wallet mint) owner) },
   { ix := .token (.mintTo (.wallet mint) (.wallet key) 10 amount) }]

/-! ## Runs -/

end World

end Aeqi
