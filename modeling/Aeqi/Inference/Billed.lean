import Aeqi.Inference.Billing
import Mathlib.Algebra.Order.BigOperators.Group.Finset
import Mathlib.Algebra.BigOperators.Fin

/-!
# What calls are billed

A call is billed as it should be when it is accounted to the entity whose balance was checked,
costs less than a cent, and, where a budget was resolved, is not streamed and says what it has used.
A call that costs a cent or more is debited a hundredth of its cost, two such calls that finish
together may both debit from the same balance, and a stream is neither debited nor settled.
-/

namespace Aeqi.Inference

open Aeqi.Lib
open Function (update_of_ne update_self)

/-! ## Billing in full -/

section Calls

def Call.trustId (call : Call) : String := (entityId call.headers).getD "unknown"

def Call.gate (call : Call) : BudgetGateOutcome :=
  call.preFlight call.trustId (headerString call.headers "x-role-id")
    (headerString call.headers "x-budget-id") 1000000

def Call.cost (call : Call) : ℚ :=
  match call.upstream with
  | .error _ => 0
  | .ok done => exactCost call.req.model done.used

def Call.NamesEntity (call : Call) : Prop :=
  (∃ trustId, call.headers "x-entity" = some trustId ∧ trustId ≠ "") ∨
    call.headers "x-entity" = none ∧
      (headerString call.headers "x-trust" = none ∨
        headerString call.headers "x-trust" = some "unknown")

structure Call.Billable (call : Call) : Prop where
  entity : call.NamesEntity
  small : call.cost < 10000
  settles : ∀ done budgetId, call.upstream = .ok done → call.gate.resolved = some budgetId →
    call.req.stream = false ∧ done.reported = true

variable {call : Call}

theorem headerString_ne_empty {headers : HeaderMap} {name value : String}
    (h : headerString headers name = some value) : value ≠ "" := by
  have hkept := (Option.filter_eq_some_iff.1 h).2
  simpa using hkept

theorem Call.trustId_eq_checkedEntity_iff :
    call.trustId = checkedEntity call.headers ↔ call.NamesEntity := by
  have htrust : ∀ value, headerString call.headers "x-trust" = some value → value ≠ "" :=
    fun _ h => headerString_ne_empty h
  unfold Call.trustId checkedEntity Call.NamesEntity entityId
  cases hentity : call.headers "x-entity" with
  | none =>
    have hnone : headerString call.headers "x-entity" = none := by
      rw [headerString, hentity]; rfl
    rw [hnone]
    cases headerString call.headers "x-trust" <;> simp
  | some trustId =>
    have hheader : headerString call.headers "x-entity" = (some trustId).filter (· ≠ "") := by
      rw [headerString, hentity]
    rw [hheader]
    by_cases h : trustId = ""
    · subst h
      cases hvalue : headerString call.headers "x-trust" with
      | none => decide
      | some value => simpa [Option.filter] using htrust value hvalue
    · simp [Option.filter, h]

theorem Call.cost_nonneg : 0 ≤ call.cost := by
  unfold Call.cost
  split
  · exact le_rfl
  · exact exactCost_nonneg

theorem Call.Billable.computed_le {done : Completion} (h : call.Billable)
    (hdone : call.upstream = .ok done) :
    computeCostMicrodollars call.req.model done.used.promptTokens done.used.completionTokens ≤
      320000 := by
  have hsmall := h.small
  unfold Call.cost at hsmall
  rw [hdone] at hsmall
  have hle := @computeCostMicrodollars_le call.req.model done.used
  have hbound : (computeCostMicrodollars call.req.model done.used.promptTokens
      done.used.completionTokens : ℚ) ≤ (320000 : ℕ) := by
    push_cast
    linarith
  exact_mod_cast hbound

end Calls

section Property

variable {ι : Type} [DecidableEq ι]

abbrev Serving (ι : Type) := Pool (Books ι) ι (Task ι Response)

def Serving.start (hasher : String → String → String → UInt32 → UInt32 → UInt64)
    (calls : ι → Call) (balances : String → Option Int) : Serving ι :=
  ⟨⟨balances, []⟩, fun i => chatCompletions hasher i (calls i)⟩

/-- In its next step, the middleware lets the request through. -/
def Serving.Passes (c : Serving ι) (i : ι) : Prop :=
  ∃ trustId, (c.threads i).head = some (.check trustId) ∧ 0 < c.state.balance trustId

def LetsThroughBillable (calls : ι → Call) (c : Serving ι) (i : ι) : Prop :=
  c.Passes i → (calls i).Billable

def Serving.completed (c : Serving ι) (i : ι) : Bool :=
  (c.threads i).result.any Response.completed

def completedCalls (calls : ι → Call) (hist : List (Serving ι × ι)) (c : Serving ι)
    (trustId : String) : Finset ι :=
  (hist.map Prod.snd).toFinset.filter fun i => (calls i).trustId = trustId ∧ c.completed i

def settlementsOf (i : ι) (books : Books ι) : List Settlement :=
  (books.settled.filter (·.1 = i)).map Prod.snd

def WithinCents (cents : Int) (cost : ι → ℚ) (of : Finset ι) : Prop :=
  if of = ∅ then cents = 0 else |10000 * (cents : ℚ) - ∑ i ∈ of, cost i| < 10000 * of.card

def Call.SettledBy (call : Call) (s : Settlement) : Prop :=
  ∃ done budgetId, call.upstream = .ok done ∧ call.gate.resolved = some budgetId ∧
    s.trustId = call.trustId ∧ s.budgetId = budgetId ∧
    s.actualMicroUsd = computeCostMicrodollars call.req.model done.used.promptTokens
      done.used.completionTokens

/-- Every call is accounted to the entity that was checked, debited within a cent, and settled
once when a budget was resolved. -/
structure BilledInFull (calls : ι → Call) (balances : String → Option Int)
    (hist : List (Serving ι × ι)) (c : Serving ι) : Prop where
  entity : ∀ e ∈ hist, e.1.Passes e.2 → (calls e.2).trustId = checkedEntity (calls e.2).headers
  debited : ∀ trustId, WithinCents ((balances trustId).getD 0 - c.state.balance trustId)
    (fun i => (calls i).cost) (completedCalls calls hist c trustId)
  settled : ∀ i, c.completed i = true → (calls i).gate.resolved.isSome →
    ∃ s, settlementsOf i c.state = [s] ∧ (calls i).SettledBy s

end Property

/-! ## Phases of a call -/

inductive Phase
  | unchecked
  | refused
  | passed
  | settled (s : Settlement)

def Phase.served : Phase → Bool
  | .passed => true
  | .settled _ => true
  | _ => false

def Phase.settlements : Phase → List Settlement
  | .settled s => [s]
  | _ => []

section Phases

variable {ι : Type}

def Call.Debits (call : Call) : Prop :=
  ∃ done, call.upstream = .ok done ∧ 0 < asI64 (computeCostMicrodollars call.req.model
    done.used.promptTokens done.used.completionTokens / 1000000)

/-- The settlement as it is sent, with the cost cast to `i64`. -/
def Call.Sends (call : Call) (s : Settlement) : Prop :=
  ∃ done budgetId, call.upstream = .ok done ∧ call.gate.resolved = some budgetId ∧
    s.trustId = call.trustId ∧ s.budgetId = budgetId ∧
    s.actualMicroUsd = asI64 (computeCostMicrodollars call.req.model done.used.promptTokens
      done.used.completionTokens)

def Call.next (i : ι) (call : Call) : Protocol (Access ι) Access.Reply Phase
  | .unchecked, .check trustId, balance, g' => trustId = checkedEntity call.headers ∧
      g' = if balance.getD 0 ≤ 0 then .refused else .passed
  | .passed, .get _, _, g' => call.Debits ∧ g' = .passed
  | .passed, .set _ _, _, g' => call.Debits ∧ g' = .passed
  | .passed, .settle j s, _, g' => j = i ∧ call.Sends s ∧ g' = .settled s
  | _, _, _, _ => False

def Call.Ends (call : Call) (g : Phase) (x : Response) : Prop :=
  x.completed = true → g.served = true ∧ ∃ done, call.upstream = .ok done ∧
    (call.gate.resolved.isSome → call.req.stream = false → done.reported = true →
      ∃ s, g = .settled s)

variable {hasher : String → String → String → UInt32 → UInt32 → UInt64} {i : ι} {call : Call}

theorem inferenceErrorResponse_completed (err : InferenceError) :
    (inferenceErrorResponse err).completed = false := by
  cases err <;> rfl

theorem handleStreaming_follows (hstream : call.req.stream = true) :
    (handleStreaming call).Follows (call.next i) .passed call.Ends := by
  unfold handleStreaming
  split
  · next e he =>
    intro hcompleted
    rw [inferenceErrorResponse_completed] at hcompleted
    cases hcompleted
  · next done hdone =>
    intro _
    refine ⟨rfl, done, hdone, fun _ hnot => ?_⟩
    rw [hstream] at hnot
    cases hnot

theorem debit_follows {done : Completion} {Q : Phase → Unit → Prop}
    (hdone : call.upstream = .ok done) (hQ : Q .passed ()) :
    (debit call.trustId (computeCostMicrodollars call.req.model done.used.promptTokens
      done.used.completionTokens) : Task ι Unit).Follows (call.next i) .passed Q := by
  unfold debit
  by_cases hcents : asI64 (computeCostMicrodollars call.req.model done.used.promptTokens
      done.used.completionTokens / 1000000) > 0
  · rw [if_pos hcents]
    have hdebits : call.Debits := ⟨done, hdone, hcents⟩
    exact fun _ => ⟨.passed, ⟨hdebits, rfl⟩, fun _ => ⟨.passed, ⟨hdebits, rfl⟩, hQ⟩⟩
  · rw [if_neg hcents]
    exact hQ

theorem handleNonStreaming_follows {resolved : Option String} {actorAgent : String}
    (hgate : call.gate.resolved = resolved) :
    (handleNonStreaming hasher i call call.trustId resolved actorAgent).Follows (call.next i)
      .passed call.Ends := by
  unfold handleNonStreaming
  split
  · next e he =>
    intro hcompleted
    rw [inferenceErrorResponse_completed] at hcompleted
    cases hcompleted
  · next done hdone =>
    unfold Completion.response
    cases hreported : done.reported with
    | false =>
      refine fun _ => ⟨rfl, done, hdone, fun _ _ hnot => ?_⟩
      rw [hreported] at hnot
      cases hnot
    | true =>
      refine Prog.follows_bind.2 (debit_follows hdone (Prog.follows_bind.2 ?_))
      cases resolved with
      | none =>
        refine fun _ => ⟨rfl, done, hdone, fun hsome => ?_⟩
        rw [hgate] at hsome
        cases hsome
      | some budgetId =>
        intro r
        refine ⟨.settled _, ⟨rfl, ⟨done, budgetId, hdone, hgate, rfl, rfl, rfl⟩, rfl⟩, ?_⟩
        exact fun _ => ⟨rfl, done, hdone, fun _ _ _ => ⟨_, rfl⟩⟩

theorem proceed_follows {resolved : Option String} {actorAgent : String}
    (hgate : call.gate.resolved = resolved) :
    (if call.req.stream then handleStreaming call
      else handleNonStreaming hasher i call call.trustId resolved actorAgent : Task ι Response).Follows
      (call.next i) .passed call.Ends := by
  split
  · next hstream => exact handleStreaming_follows hstream
  · exact handleNonStreaming_follows hgate

theorem chatCompletionsHandler_follows :
    (chatCompletionsHandler hasher i call).Follows (call.next i) .passed call.Ends := by
  unfold chatCompletionsHandler
  dsimp only
  split
  · next budgetId _ hgate =>
    have hresolved : call.gate.resolved = some budgetId := congrArg BudgetGateOutcome.resolved hgate
    exact proceed_follows hresolved
  · next hgate =>
    have hresolved : call.gate.resolved = none := congrArg BudgetGateOutcome.resolved hgate
    exact proceed_follows hresolved
  all_goals exact fun hnot => Bool.noConfusion hnot

/-- **A call keeps to its protocol**, whatever the balances are. -/
theorem chatCompletions_follows :
    (chatCompletions hasher i call).Follows (call.next i) .unchecked call.Ends := by
  unfold chatCompletions
  split
  · exact fun hnot => Bool.noConfusion hnot
  · intro balance
    refine ⟨_, ⟨rfl, rfl⟩, ?_⟩
    change Prog.Follows _ (if Option.getD balance 0 ≤ 0 then _ else _) _ _
    split
    · exact fun hnot => Bool.noConfusion hnot
    · exact chatCompletionsHandler_follows

end Phases

/-! ## Runs -/

section Runs

variable {ι : Type} [DecidableEq ι] {calls : ι → Call} {balances : String → Option Int}

/-- What holds of the books while calls that pass are billable. -/
structure Sound (calls : ι → Call) (balances : String → Option Int) (books : Books ι)
    (g : ι → Phase) : Prop where
  balances : books.balances = balances
  billable : ∀ i, (g i).served = true → (calls i).Billable
  settled : ∀ i, settlementsOf i books = (g i).settlements
  sends : ∀ i s, g i = .settled s → (calls i).Sends s

variable {books : Books ι} {g : ι → Phase} {i : ι}

theorem settlementsOf_append {j : ι} {s : Settlement} {bs : String → Option Int} :
    settlementsOf j ⟨bs, books.settled ++ [(i, s)]⟩ =
      settlementsOf j books ++ if i = j then [s] else [] := by
  unfold settlementsOf
  by_cases h : i = j <;> simp [h]

theorem Call.Billable.not_debits {call : Call} (h : call.Billable) : ¬ call.Debits := by
  rintro ⟨done, hdone, hcents⟩
  have hle := h.computed_le hdone
  have hzero : computeCostMicrodollars call.req.model done.used.promptTokens
      done.used.completionTokens / 1000000 = 0 := by omega
  rw [hzero] at hcents
  exact nomatch hcents

theorem Call.Billable.settledBy {call : Call} {s : Settlement} (h : call.Billable)
    (hs : call.Sends s) : call.SettledBy s := by
  obtain ⟨done, budgetId, hdone, hgate, htrust, hbudget, hcost⟩ := hs
  refine ⟨done, budgetId, hdone, hgate, htrust, hbudget, hcost.trans ?_⟩
  have hle := h.computed_le hdone
  unfold asI64 i64Max
  rw [if_pos (by omega)]

theorem Sound.quiet {g' : Phase} (h : Sound calls balances books g)
    (hsettlements : g'.settlements = (g i).settlements)
    (hserved : g'.served = true → (calls i).Billable)
    (hsends : ∀ s, g' = .settled s → (calls i).Sends s) :
    Sound calls balances books (Function.update g i g') := by
  refine ⟨h.balances, fun j hj => ?_, fun j => ?_, fun j s hj => ?_⟩
  all_goals by_cases hij : j = i
  · subst hij
    rw [update_self] at hj
    exact hserved hj
  · rw [update_of_ne hij] at hj
    exact h.billable j hj
  · subst hij
    rw [update_self, hsettlements, h.settled j]
  · rw [update_of_ne hij, h.settled j]
  · subst hij
    rw [update_self] at hj
    exact hsends s hj
  · rw [update_of_ne hij] at hj
    exact h.sends j s hj

theorem sound_step {a : Access ι} {g' : Phase} (h : Sound calls balances books g)
    (hpass : ∀ trustId, a = .check trustId → 0 < books.balance trustId → (calls i).Billable)
    (hmove : (calls i).next i (g i) a (Access.run a books).1 g') :
    Sound calls balances (Access.run a books).2 (Function.update g i g') := by
  cases hg : g i with
  | unchecked =>
    rw [hg] at hmove
    cases a with
    | check trustId =>
      obtain ⟨-, hg'⟩ := hmove
      split at hg'
      · subst hg'
        exact h.quiet (by rw [hg]; rfl) (nofun) (nofun)
      · next hpositive =>
        subst hg'
        exact h.quiet (by rw [hg]; rfl) (fun _ => hpass trustId rfl (not_le.1 hpositive))
          (nofun)
    | get trustId | set trustId cents | settle j s => exact hmove.elim
  | refused | settled s =>
    rw [hg] at hmove
    cases a <;> exact hmove.elim
  | passed =>
    have hbillable : (calls i).Billable := h.billable i (by rw [hg]; rfl)
    rw [hg] at hmove
    cases a with
    | check trustId => exact hmove.elim
    | get trustId | set trustId cents => exact absurd hmove.1 hbillable.not_debits
    | settle j s =>
      obtain ⟨rfl, hsends, rfl⟩ := hmove
      refine ⟨h.balances, fun k hk => ?_, fun k => ?_, fun k t hk => ?_⟩
      all_goals by_cases hkj : k = j
      · exact hkj ▸ hbillable
      · rw [update_of_ne hkj] at hk
        exact h.billable k hk
      · subst hkj
        have hbefore := h.settled k
        rw [hg] at hbefore
        rw [update_self]
        change settlementsOf k ⟨books.balances, books.settled ++ [(k, s)]⟩ = [s]
        rw [settlementsOf_append, if_pos rfl, hbefore]
        rfl
      · rw [update_of_ne hkj, ← h.settled k]
        change settlementsOf k ⟨books.balances, books.settled ++ [(j, s)]⟩ = _
        rw [settlementsOf_append, if_neg (Ne.symm hkj), List.append_nil]
      · subst hkj
        rw [update_self] at hk
        cases hk
        exact hsends
      · rw [update_of_ne hkj] at hk
        exact h.sends k t hk

theorem withinCents_zero {cost : ι → ℚ} {of : Finset ι}
    (hcost : ∀ i ∈ of, 0 ≤ cost i ∧ cost i < 10000) : WithinCents 0 cost of := by
  unfold WithinCents
  split
  · rfl
  · next hne =>
    have hnonneg : 0 ≤ ∑ i ∈ of, cost i := Finset.sum_nonneg fun i hi => (hcost i hi).1
    have hlt : ∑ i ∈ of, cost i < ∑ _i ∈ of, (10000 : ℚ) :=
      Finset.sum_lt_sum_of_nonempty (Finset.nonempty_iff_ne_empty.2 hne) fun i hi => (hcost i hi).2
    rw [Finset.sum_const, nsmul_eq_mul] at hlt
    have habs : |10000 * ((0 : Int) : ℚ) - ∑ i ∈ of, cost i| = ∑ i ∈ of, cost i := by
      rw [Int.cast_zero, mul_zero, zero_sub, abs_neg, abs_of_nonneg hnonneg]
    linarith

variable {hasher : String → String → String → UInt32 → UInt32 → UInt64}
  {hist : List (Serving ι × ι)} {c : Serving ι}

theorem sound_start : Sound calls balances ⟨balances, []⟩ fun _ => .unchecked where
  balances := rfl
  billable _ hnot := Bool.noConfusion hnot
  settled _ := rfl
  sends _ _ hnot := Phase.noConfusion hnot

/-- **Calls are billed in full** in every run in which the middleware lets only billable ones
through. -/
theorem billedInFull
    (run : Run (Guarded (LetsThroughBillable calls) (okStep (Pool.step Access.run)))
      (Serving.start hasher calls balances) hist c) :
    BilledInFull calls balances hist c := by
  have hrun : ∃ g, Sound calls balances c.state g ∧
      ∀ i, (c.threads i).Follows ((calls i).next i) (g i) (calls i).Ends :=
    run.follows ⟨fun _ => .unchecked, sound_start, fun i => chatCompletions_follows⟩
      fun t g i a g' hgood hhead _ hinv hmove => sound_step hinv
        (fun trustId ha hpositive => hgood ⟨trustId, ha ▸ hhead, hpositive⟩) hmove
  obtain ⟨g, hsound, hfollows⟩ := hrun
  have hends : ∀ i, c.completed i = true → (g i).served = true ∧
      ∃ done, (calls i).upstream = .ok done ∧ ((calls i).gate.resolved.isSome →
        (calls i).req.stream = false → done.reported = true → ∃ s, g i = .settled s) := by
    intro i hcompleted
    obtain ⟨x, hx, hcompletedx⟩ := (Option.any_eq_true _ _).1 hcompleted
    have hthread := hfollows i
    rw [Prog.result_eq_some.1 hx] at hthread
    exact hthread hcompletedx
  refine ⟨fun e he hpasses => ?_, fun trustId => ?_, fun i hcompleted hresolved => ?_⟩
  · obtain ⟨_, _, _, hgood, _⟩ := run.of_mem he
    exact Call.trustId_eq_checkedEntity_iff.2 (hgood hpasses).entity
  · have hzero : (balances trustId).getD 0 - c.state.balance trustId = 0 := by
      unfold Books.balance
      rw [hsound.balances, sub_self]
    rw [hzero]
    refine withinCents_zero fun i hi => ?_
    have hcompleted := (Finset.mem_filter.1 hi).2.2
    exact ⟨Call.cost_nonneg, (hsound.billable i (hends i hcompleted).1).small⟩
  · obtain ⟨hserved, done, hdone, hsettled⟩ := hends i hcompleted
    have hbillable := hsound.billable i hserved
    obtain ⟨budgetId, hbudget⟩ := Option.isSome_iff_exists.1 hresolved
    obtain ⟨hstream, hreported⟩ := hbillable.settles done budgetId hdone hbudget
    obtain ⟨s, hs⟩ := hsettled hresolved hstream hreported
    refine ⟨s, ?_, hbillable.settledBy (hsound.sends i s hs)⟩
    rw [hsound.settled i, hs]
    rfl

end Runs

/-! ## Runs of one and two calls -/

/-- A call in the name of an entity whose role has a budget. -/
def pricedCall (model : String) (promptTokens : UInt32) : Call where
  headers name :=
    if name = "authorization" then some "Bearer t"
    else if name = "x-entity" then some "acme"
    else none
  req := ⟨model, false⟩
  preFlight _ _ _ _ := .allowed "growth" 5000000
  upstream := .ok ⟨"chatcmpl-1", ⟨promptTokens, 0, promptTokens⟩, true, []⟩

def fiveDollars (trustId : String) : Option Int := if trustId = "acme" then some 500 else none

def plainHasher (_ _ _ : String) (_ _ : UInt32) : UInt64 := 0

/-- The schedule of the steps of `n` calls. -/
def served {n : ℕ} (calls : Fin n → Call) (schedule : List (Fin n)) :
    Except Unit (List (Serving (Fin n) × Fin n) × Serving (Fin n)) :=
  traceAll (Pool.step Access.run) [] (Serving.start plainHasher calls fiveDollars) schedule

def smallCalls (_ : Fin 2) : Call := pricedCall "meta-llama/Meta-Llama-3.1-8B-Instruct" 1000

theorem smallCalls_billable (i : Fin 2) : (smallCalls i).Billable where
  entity := .inl ⟨"acme", rfl, by decide⟩
  small := by
    have hcost : (smallCalls i).cost = 55 / 1000 * 1000 + 55 / 1000 * 0 := rfl
    rw [hcost]
    norm_num
  settles done budgetId hdone _ := by
    cases hdone
    exact ⟨rfl, rfl⟩

/-- Two calls side by side, both settled. -/
theorem smallCalls_billedInFull : ∃ hist c, served smallCalls [0, 1, 1, 0] = .ok (hist, c) ∧
    completedCalls smallCalls hist c "acme" = {0, 1} ∧
    BilledInFull smallCalls fiveDollars hist c := by
  have hfacts : (served smallCalls [0, 1, 1, 0]).toOption.map (fun t =>
      completedCalls smallCalls t.1 t.2 "acme") = some {0, 1} := by
    decide +kernel
  obtain ⟨⟨hist, c⟩, htrace, hcompleted⟩ := toOption_map_eq_some.1 hfacts
  have run : Run (Guarded (LetsThroughBillable smallCalls) (okStep (Pool.step Access.run)))
      (Serving.start plainHasher smallCalls fiveDollars) hist c :=
    (Run.nil.traceAll htrace).mono fun _ i _ hstep => ⟨fun _ => smallCalls_billable i, hstep⟩
  exact ⟨hist, c, htrace, hcompleted, billedInFull run⟩

def largeCall (_ : Fin 1) : Call := pricedCall "deepinfra/airoboros-70b" 1000000

theorem not_billedInFull : ¬ ∀ (n : ℕ) hasher (calls : Fin n → Call) balances hist c,
    (∀ i, (pricingFor (calls i).req.model).isSome) →
    Run (okStep (Pool.step Access.run)) (Serving.start hasher calls balances) hist c →
    BilledInFull calls balances hist c := by
  intro hall
  have hfacts : (served largeCall [0, 0]).toOption.map (fun t =>
      (completedCalls largeCall t.1 t.2 "acme", t.2.state.balance "acme")) = some ({0}, 500) := by
    decide +kernel
  obtain ⟨⟨hist, c⟩, htrace, hend⟩ := toOption_map_eq_some.1 hfacts
  obtain ⟨hcompleted, hbalance⟩ := Prod.mk.inj hend
  have hbilled := hall 1 plainHasher largeCall fiveDollars hist c (fun _ => rfl)
    (Run.nil.traceAll htrace)
  have hdebited := hbilled.debited "acme"
  have hcost : (largeCall 0).cost = 70 / 100 * 1000000 + 70 / 100 * 0 := rfl
  have hcents : (fiveDollars "acme").getD 0 - c.state.balance "acme" = 0 := by
    rw [hbalance]
    rfl
  rw [hcents, hcompleted, WithinCents] at hdebited
  rw [Finset.sum_singleton, hcost] at hdebited
  norm_num at hdebited

end Aeqi.Inference
