import Aeqi.Lib.Binary64
import Aeqi.Lib.Threads

/-!
# Billing of inference (`api.rs`, `billing/subscription.rs`)

A request passes the subscription middleware, the gate of the role budgets and the handler, which
asks the upstream provider and debits what the answer costs. Every lock scope of the balances and
every settlement is one step; what the gate and the provider say to a request belongs to the
request. Of a completion only what is billed is kept, of a stream the texts of its chunks.
-/

/-!
## Prices of models (`upstream/deepinfra.rs`)

The cost of a completion is computed in `f64` and truncated to micro-dollars. A price in dollars
per million tokens is one in micro-dollars per token, which is what the exact cost is stated in.
-/

namespace Aeqi.Inference

open Aeqi.Lib

/-- Dollars per million tokens, before they are rounded to `f64`. -/
structure ModelPricing where
  inputPerMillion : ℚ
  outputPerMillion : ℚ

def pricingFor : String → Option ModelPricing
  | "meta-llama/Meta-Llama-3.1-70B-Instruct" => some ⟨59 / 100, 79 / 100⟩
  | "meta-llama/Meta-Llama-3.1-8B-Instruct" => some ⟨55 / 1000, 55 / 1000⟩
  | "meta-llama/Meta-Llama-3.3-70B-Instruct" => some ⟨59 / 100, 79 / 100⟩
  | "mistralai/Mistral-7B-Instruct-v0.3" => some ⟨55 / 1000, 55 / 1000⟩
  | "Qwen/Qwen2.5-72B-Instruct" => some ⟨35 / 100, 40 / 100⟩
  | "deepinfra/airoboros-70b" => some ⟨70 / 100, 70 / 100⟩
  | _ => none

structure UsageStats where
  promptTokens : UInt32
  completionTokens : UInt32
  totalTokens : UInt32

def sideCost (perMillion : ℚ) (tokens : UInt32) : ℚ :=
  Binary64.round (Binary64.round (Binary64.round perMillion * tokens.toNat) / 1000000)

def computeCostMicrodollars (model : String) (promptTokens completionTokens : UInt32) : ℕ :=
  match pricingFor model with
  | none => 0
  | some p =>
    let inputCost := sideCost p.inputPerMillion promptTokens
    let outputCost := sideCost p.outputPerMillion completionTokens
    ⌊Binary64.round (Binary64.round (inputCost + outputCost) * 1000000)⌋₊

def exactCost (model : String) (usage : UsageStats) : ℚ :=
  match pricingFor model with
  | none => 0
  | some p => p.inputPerMillion * usage.promptTokens.toNat +
      p.outputPerMillion * usage.completionTokens.toNat

theorem pricingFor_nonneg {model : String} {p : ModelPricing} (h : pricingFor model = some p) :
    0 ≤ p.inputPerMillion ∧ 0 ≤ p.outputPerMillion := by
  unfold pricingFor at h
  split at h <;> cases h <;> norm_num

theorem sideCost_nonneg {perMillion : ℚ} {tokens : UInt32} (h : 0 ≤ perMillion) :
    0 ≤ sideCost perMillion tokens := by
  have hprice : 0 ≤ Binary64.round perMillion := Binary64.round_nonneg h
  have hprod : 0 ≤ Binary64.round (Binary64.round perMillion * tokens.toNat) :=
    Binary64.round_nonneg (mul_nonneg hprice (Nat.cast_nonneg _))
  exact Binary64.round_nonneg (div_nonneg hprod (by norm_num))

theorem sideCost_le {perMillion : ℚ} (tokens : UInt32) (h : 0 ≤ perMillion) :
    sideCost perMillion tokens ≤ 8 * (perMillion * tokens.toNat) / 1000000 := by
  have htokens : (0 : ℚ) ≤ tokens.toNat := Nat.cast_nonneg _
  have hprice : 0 ≤ Binary64.round perMillion := Binary64.round_nonneg h
  have hmul : Binary64.round perMillion * tokens.toNat ≤ 2 * perMillion * tokens.toNat :=
    mul_le_mul_of_nonneg_right (Binary64.round_le h) htokens
  have hprod := Binary64.round_le_of_le (mul_nonneg hprice htokens) hmul
  have hpos := Binary64.round_nonneg (mul_nonneg hprice htokens)
  have hside := Binary64.round_le (div_nonneg hpos (by norm_num : (0 : ℚ) ≤ 1000000))
  unfold sideCost
  linarith

theorem exactCost_nonneg {model : String} {usage : UsageStats} : 0 ≤ exactCost model usage := by
  unfold exactCost
  split
  · exact le_rfl
  · next p hp =>
    obtain ⟨hin, hout⟩ := pricingFor_nonneg hp
    exact add_nonneg (mul_nonneg hin (Nat.cast_nonneg _)) (mul_nonneg hout (Nat.cast_nonneg _))

theorem computeCostMicrodollars_le {model : String} {usage : UsageStats} :
    (computeCostMicrodollars model usage.promptTokens usage.completionTokens : ℚ) ≤
      32 * exactCost model usage := by
  unfold computeCostMicrodollars exactCost
  split
  · norm_num
  · next p hp =>
    obtain ⟨hin, hout⟩ := pricingFor_nonneg hp
    have hinput := sideCost_le usage.promptTokens hin
    have houtput := sideCost_le usage.completionTokens hout
    have hsum : 0 ≤ sideCost p.inputPerMillion usage.promptTokens +
        sideCost p.outputPerMillion usage.completionTokens :=
      add_nonneg (sideCost_nonneg hin) (sideCost_nonneg hout)
    have hround := Binary64.round_nonneg hsum
    have hle := Binary64.round_le hsum
    have hscaled := mul_nonneg hround (by norm_num : (0 : ℚ) ≤ 1000000)
    have hcost := Binary64.round_le hscaled
    refine (Nat.floor_le (Binary64.round_nonneg hscaled)).trans ?_
    linarith

/-! ## Requests -/

/-- The headers by name. A value that is not readable text is absent: no use of a header tells the
two apart. -/
abbrev HeaderMap := String → Option String

def headerString (headers : HeaderMap) (name : String) : Option String :=
  (headers name).filter (· ≠ "")

def entityId (headers : HeaderMap) : Option String :=
  (headerString headers "x-entity").or (headerString headers "x-trust")

structure ChatCompletionRequest where
  model : String
  stream : Bool

structure ChatCompletionResponse where
  id : String
  usage : Option UsageStats

inductive InferenceError
  | auth
  | authPermanent
  | noBalance
  | billing
  | rateLimit (retryAfterSecs : Option UInt32)
  | overloaded
  | serverError (msg : String)
  | timeout
  | contextOverflow
  | modelNotFound (msg : String)
  | upstreamUnavailable (msg : String)
  | unsupported (msg : String)
  | internal (msg : String)

def InferenceError.toString : InferenceError → String
  | .auth => "authentication required"
  | .authPermanent => "authentication permanently invalid"
  | .noBalance => "insufficient balance"
  | .billing => "billing rejected"
  | .rateLimit none => "rate limited"
  | .rateLimit (some secs) => "rate limited (retry after " ++ secs.toNat.repr ++ "s)"
  | .overloaded => "provider overloaded"
  | .serverError msg => "upstream server error: " ++ msg
  | .timeout => "upstream timeout"
  | .contextOverflow => "context window overflow"
  | .modelNotFound msg => "model not found: " ++ msg
  | .upstreamUnavailable msg => "upstream unavailable: " ++ msg
  | .unsupported msg => "unsupported: " ++ msg
  | .internal msg => "internal error: " ++ msg

inductive BudgetGateOutcome
  | allowed (resolvedBudgetId : String) (remainingMicroUsd : Int)
  | insufficient (budgetId roleId : String) (remainingMicroUsd : Int)
  | skipped
  | forbidden (msg : String)
  | error (msg : String)

def BudgetGateOutcome.resolved : BudgetGateOutcome → Option String
  | .allowed budgetId _ => some budgetId
  | _ => none

/-- A call that the provider has completed: the tokens it took, whether the response says so, and
the chunks when it is streamed. -/
structure Completion where
  id : String
  used : UsageStats
  reported : Bool
  chunks : List (Except String String)

def Completion.response (done : Completion) : ChatCompletionResponse :=
  ⟨done.id, if done.reported then some done.used else none⟩

/-- A request, with what the gate and the provider say to it. -/
structure Call where
  headers : HeaderMap
  req : ChatCompletionRequest
  preFlight : (trustId : String) → (roleId budgetId : Option String) → (estimate : Int) →
    BudgetGateOutcome
  upstream : Except InferenceError Completion

/-! ## Responses -/

structure ErrorBody where
  type : String
  message : String
  budgetId : Option String := none
  roleId : Option String := none
  remainingMicroUsd : Option Int := none

inductive Response
  | empty (status : ℕ)
  | error (status : ℕ) (body : ErrorBody) (retryAfter : Option String)
  | json (resp : ChatCompletionResponse)
  | eventStream (frames : List String)

def Response.completed : Response → Bool
  | .json _ => true
  | .eventStream _ => true
  | _ => false

def inferenceErrorResponse (err : InferenceError) : Response :=
  match err with
  | .auth | .authPermanent => .error 401 { type := "auth_error", message := err.toString } none
  | .noBalance | .billing => .error 402 { type := "billing_error", message := err.toString } none
  | .rateLimit retryAfterSecs =>
    .error 429 { type := "rate_limit_error", message := err.toString }
      (retryAfterSecs.map fun secs => secs.toNat.repr)
  | .overloaded => .error 503 { type := "overloaded_error", message := err.toString } none
  | .serverError msg => .error 502 { type := "upstream_error", message := msg } none
  | .timeout => .error 504 { type := "upstream_error", message := err.toString } none
  | .contextOverflow =>
    .error 400 { type := "context_overflow_error", message := err.toString } none
  | .modelNotFound msg => .error 404 { type := "model_not_found", message := msg } none
  | .unsupported msg => .error 400 { type := "invalid_request_error", message := msg } none
  | .upstreamUnavailable msg => .error 502 { type := "upstream_error", message := msg } none
  | .internal msg => .error 500 { type := "internal_error", message := msg } none

/-! ## Shared state -/

structure Settlement where
  trustId : String
  budgetId : String
  actualMicroUsd : Int
  requestHash : String
  actorAgentId : String

/-- The balances in cents, and what has been settled on the gate for which call. -/
structure Books (ι : Type) where
  balances : String → Option Int
  settled : List (ι × Settlement)

/-- The balance of an entity; one without a record counts as zero. -/
def Books.balance {ι : Type} (books : Books ι) (trustId : String) : Int :=
  (books.balances trustId).getD 0

/-- `check` is the reading of `BalanceStore::get` by the middleware, `get` the one by the
handler. -/
inductive Access (ι : Type)
  | check (trustId : String)
  | get (trustId : String)
  | set (trustId : String) (cents : Int)
  | settle (call : ι) (s : Settlement)

@[reducible] def Access.Reply {ι : Type} : Access ι → Type
  | .check _ => Option Int
  | .get _ => Option Int
  | .set _ _ => Unit
  | .settle _ _ => Unit

def Access.run {ι : Type} : (a : Access ι) → Books ι → a.Reply × Books ι
  | .check trustId, books => (books.balances trustId, books)
  | .get trustId, books => (books.balances trustId, books)
  | .set trustId cents, books =>
    ((), { books with balances := Function.update books.balances trustId (some cents) })
  | .settle call s, books => ((), { books with settled := books.settled ++ [(call, s)] })

abbrev Task (ι : Type) (α : Type) := Prog (Access ι) Access.Reply α

def act {ι : Type} (a : Access ι) : Task ι a.Reply := Prog.perform a

/-! ## The handler -/

def i64Min : Int := -9223372036854775808

def i64Max : Int := 9223372036854775807

/-- `u64 as i64`. -/
def asI64 (n : ℕ) : Int := if (n : Int) ≤ i64Max then n else n - 18446744073709551616

def saturatingSub (a b : Int) : Int := max i64Min (min i64Max (a - b))

section Handler

variable {ι : Type}

/-- Sixteen hexadecimal digits. -/
def hex16 (n : UInt64) : String :=
  let digits := Nat.toDigits 16 n.toNat
  String.ofList (List.replicate (16 - digits.length) '0' ++ digits)

/-- `hasher` is the value of the default hasher once the fields have gone in. -/
def requestHash (hasher : String → String → String → UInt32 → UInt32 → UInt64)
    (workspaceId requestId model : String) (promptTokens completionTokens : UInt32) : String :=
  "ihash-" ++ hex16 (hasher workspaceId requestId model promptTokens completionTokens)

def debit (trustId : String) (cost : ℕ) : Task ι Unit := do
  let costCents := asI64 (cost / 1000000)
  if costCents > 0 then
    let current ← act (.get trustId)
    act (.set trustId (saturatingSub (current.getD 0) costCents))

def settleOn (i : ι) (resolvedBudgetId : Option String) (s : String → Settlement) : Task ι Unit :=
  match resolvedBudgetId with
  | none => pure ()
  | some budgetId => act (.settle i (s budgetId))

variable (hasher : String → String → String → UInt32 → UInt32 → UInt64)

def handleNonStreaming (i : ι) (call : Call) (trustId : String) (resolvedBudgetId : Option String)
    (actorAgent : String) : Task ι Response :=
  match call.upstream with
  | .error e => pure (inferenceErrorResponse e)
  | .ok done =>
    match done.response.usage with
    | none => pure (.json done.response)
    | some usage => do
      let cost :=
        computeCostMicrodollars call.req.model usage.promptTokens usage.completionTokens
      debit trustId cost
      settleOn i resolvedBudgetId fun budgetId => {
        trustId
        budgetId
        actualMicroUsd := asI64 cost
        requestHash := requestHash hasher trustId done.response.id call.req.model
          usage.promptTokens usage.completionTokens
        actorAgentId := actorAgent }
      pure (.json done.response)

def sseFrame : Except String String → String
  | .ok json => "data: " ++ json ++ "\n\n"
  | .error e => "data: \x7b\"error\": \"" ++ e ++ "\"\x7d\n\n"

def handleStreaming (call : Call) : Task ι Response :=
  match call.upstream with
  | .error e => pure (inferenceErrorResponse e)
  | .ok done => pure (.eventStream (done.chunks.map sseFrame ++ ["data: [DONE]\n\n"]))

def chatCompletionsHandler (i : ι) (call : Call) : Task ι Response :=
  let trustId := (entityId call.headers).getD "unknown"
  let roleId := headerString call.headers "x-role-id"
  let budgetIdHint := headerString call.headers "x-budget-id"
  let actorAgent := (headerString call.headers "x-actor-agent").getD trustId
  let estimateMicroUsd := 1000000
  let proceed (resolvedBudgetId : Option String) : Task ι Response :=
    if call.req.stream then handleStreaming call
    else handleNonStreaming hasher i call trustId resolvedBudgetId actorAgent
  match call.preFlight trustId roleId budgetIdHint estimateMicroUsd with
  | .allowed resolvedBudgetId _ => proceed (some resolvedBudgetId)
  | .skipped => proceed none
  | .insufficient budgetId roleId remainingMicroUsd =>
    pure (.error 402
      { type := "insufficient_budget_inference"
        message := "budget " ++ budgetId ++ " exhausted (remaining " ++ remainingMicroUsd.repr ++
          " micro-USD); role " ++ roleId ++ " cannot make this call"
        budgetId := some budgetId
        roleId := some roleId
        remainingMicroUsd := some remainingMicroUsd } none)
  | .forbidden msg => pure (.error 403 { type := "forbidden", message := msg } none)
  | .error msg => pure (.error 500 { type := "internal", message := msg } none)

/-! ## The middleware -/

def checkedEntity (headers : HeaderMap) : String := (headers "x-entity").getD "unknown"

/-- `SubscriptionMiddleware` around the handler. -/
def chatCompletions (i : ι) (call : Call) : Task ι Response :=
  if ¬ (call.headers "authorization").any ("Bearer ".isPrefixOf ·) then pure (.empty 401)
  else do
    let balance ← act (.check (checkedEntity call.headers))
    if balance.getD 0 ≤ 0 then pure (.empty 402)
    else chatCompletionsHandler hasher i call

end Handler

end Aeqi.Inference
