import Aeqi.Lib.Accounts
import Aeqi.Sessions.Queue

/-!
# Questions that wait for a person

An agent that asks a person sets `awaiting_at` on a session. `enqueue_pending` and
`answer_awaiting` clear it together with the insertion of the message, and `dismiss_awaiting`
clears it without one. Whether a message is a person's, `enqueue_pending` tells from the `kind`
of its payload; the result of a quest, which the executor enqueues into the session that
created the quest, has the kind of a chat message.

The budget of a payload is left out.
-/

namespace Aeqi.Sessions

open Aeqi.Lib

/-! ## Payloads -/

/-- A queued message with what its producers say about its origin. -/
structure Payload extends QueuedMessage where
  senderId : Option String := none
  transport : Option String := none
  creatorSessionId : Option String := none
  initialMessageRecorded : Bool := false
  sourceUserId : Option String := none
  deriving DecidableEq

/-- Who built a payload, and of what. -/
inductive Produced
  | chat (agentHint message : String) (senderId transport : Option String)
  | userReply (agentHint message : String) (sourceUserId : Option String)
  | quest (agentHint message questId : String) (creatorSessionId : Option String)
  | questResult (questId outcomeStatus agentName agentId finalText : String)

def Produced.payload : Produced → Payload
  | .chat agentHint message senderId transport => { agentHint, message, senderId, transport }
  | .userReply agentHint message sourceUserId =>
    { agentHint, message, senderId := sourceUserId, transport := some "inbox",
      kind := some "user_reply", sourceUserId }
  | .quest agentHint message questId creatorSessionId =>
    { agentHint, message, transport := some "quest", kind := some "quest",
      questId := some questId, creatorSessionId }
  -- `QueuedMessage::chat(spawned.agent_id, base, None, Some("scheduler"))`
  | .questResult questId outcomeStatus agentName agentId finalText =>
    { agentHint := agentId,
      message := "Quest " ++ questId ++ " completed (" ++ outcomeStatus ++ "): " ++ agentName ++
        " — " ++ finalText,
      transport := some "scheduler" }

/-- A message that a person wrote. -/
def Produced.Human : Produced → Prop
  | .chat .. | .userReply .. => True
  | .quest .. | .questResult .. => False

instance (p : Produced) : Decidable p.Human := by
  cases p <;> unfold Produced.Human <;> infer_instance

/-- serde on payloads; it reads back whether a payload is a quest's. -/
structure Serde where
  toPayload : Payload → String
  fromPayload : String → Option Payload
  isQuest_back : ∀ m, ((fromPayload (toPayload m)).any fun m' => m'.isQuest) = m.isQuest

/-! ## The store -/

structure SessionRow where
  awaitingAt : Option String := none
  awaitingSubject : Option String := none

structure Inbox where
  sessions : Accounts String SessionRow := ∅
  store : SessionStore := {}

namespace Inbox

variable (serde : Serde) (s : Inbox) (sessionId : String)

def awaits : Bool := (s.sessions.lookup sessionId).any fun r => r.awaitingAt.isSome

/-- `UPDATE sessions SET awaiting_at = NULL, awaiting_subject = NULL WHERE id = .. AND
awaiting_at IS NOT NULL`; says whether there was such a row. -/
def clear : Bool × Inbox :=
  if s.awaits sessionId then (true, { s with sessions := s.sessions.insert sessionId {} })
  else (false, s)

def enqueuePending (payload : String) : Inbox :=
  let s := { s with store := s.store.enqueuePending sessionId payload }
  let userOriginated :=
    match serde.fromPayload payload with
    | some qm => !qm.isQuest
    | none => true
  if userOriginated then (s.clear sessionId).2 else s

def answerAwaiting (payload : String) : Bool × Inbox :=
  let cleared := (s.clear sessionId).1
  let s := (s.clear sessionId).2
  (cleared, { s with store := s.store.enqueuePending sessionId payload })

def dismissAwaiting : Bool × Inbox := s.clear sessionId

def setAwaiting (subject now : String) : Inbox :=
  match s.sessions.lookup sessionId with
  | none => s
  | some _ =>
    let row : SessionRow := { awaitingAt := some now, awaitingSubject := some subject }
    { s with sessions := s.sessions.insert sessionId row }

end Inbox

/-! ## Runs -/

inductive Call
  | enqueue (sessionId : String) (p : Produced)
  /-- `handle_answer_inbox`. -/
  | answer (sessionId agentId answer : String) (senderUserId : Option String)
  | dismiss (sessionId : String)
  | ask (sessionId subject now : String)

def Inbox.exec (serde : Serde) (s : Inbox) : Call → Inbox
  | .enqueue sessionId p => s.enqueuePending serde sessionId (serde.toPayload p.payload)
  | .answer sessionId agentId answer senderUserId =>
    (s.answerAwaiting sessionId
      (serde.toPayload (Produced.userReply agentId answer senderUserId).payload)).2
  | .dismiss sessionId => (s.dismissAwaiting sessionId).2
  | .ask sessionId subject now => s.setAwaiting sessionId subject now

def Inbox.trace (serde : Serde) (s : Inbox) : List Call → List (Inbox × Call)
  | [] => []
  | c :: calls => (s, c) :: (s.exec serde c).trace serde calls

/-- A person writes to the session. -/
def Call.Message (c : Call) (id : String) : Prop :=
  match c with
  | .enqueue sessionId p => sessionId = id ∧ p.Human
  | .answer sessionId _ _ _ => sessionId = id
  | .dismiss _ | .ask .. => False

def Call.Dismissal (c : Call) (id : String) : Prop := c = .dismiss id

/-- The executor enqueues the result of a quest into the session. -/
def Call.Result (c : Call) (id : String) : Prop :=
  match c with
  | .enqueue sessionId (.questResult ..) => sessionId = id
  | _ => False

/-- A question is cleared by a message of a person or a dismissal only, and by every message. -/
structure Lawful (serde : Serde) (s : Inbox) (c : Call) : Prop where
  cleared : ∀ id, s.awaits id = true → (s.exec serde c).awaits id = false →
    c.Message id ∨ c.Dismissal id
  answered : ∀ id, s.awaits id = true → c.Message id → (s.exec serde c).awaits id = false

/-- The result of a quest does not come into a session that waits. -/
def Quiet (s : Inbox) (c : Call) : Prop := ∀ id, c.Result id → s.awaits id = false

/-! ## One call -/

section Calls

variable {serde : Serde} {s : Inbox} {sessionId id : String}

@[simp] theorem clear_awaits :
    (s.clear sessionId).2.awaits id = (s.awaits id && decide (sessionId ≠ id)) := by
  unfold Inbox.clear
  by_cases hid : sessionId = id
  · subst hid
    split
    next => simp [Inbox.awaits]
    next hno => simp [hno]
  · split
    next => simp [Inbox.awaits, AList.lookup_insert_ne (Ne.symm hid), hid]
    next => simp [hid]

@[simp] theorem awaits_enqueued (store : SessionStore) :
    Inbox.awaits { s with store } id = s.awaits id := rfl

theorem enqueuePending_awaits (p : Produced) :
    (s.enqueuePending serde sessionId (serde.toPayload p.payload)).awaits id =
      (s.awaits id && !(decide (sessionId = id) && !p.payload.isQuest)) := by
  have horigin : (match serde.fromPayload (serde.toPayload p.payload) with
      | some qm => !qm.isQuest
      | none => true) = !p.payload.isQuest := by
    rw [← serde.isQuest_back]
    cases serde.fromPayload (serde.toPayload p.payload) <;> simp
  unfold Inbox.enqueuePending
  simp only [horigin]
  by_cases hquest : p.payload.isQuest = true
  · simp [hquest]
  · simp [hquest]

theorem setAwaiting_awaits {subject now : String} (h : s.awaits id = true) :
    (s.setAwaiting sessionId subject now).awaits id = true := by
  unfold Inbox.setAwaiting
  split
  · exact h
  · by_cases hid : id = sessionId
    · subst hid
      simp [Inbox.awaits]
    · unfold Inbox.awaits
      rwa [AList.lookup_insert_ne hid]

theorem exec_awaits (c : Call) (h : s.awaits id = true) :
    (s.exec serde c).awaits id = false ↔ c.Message id ∨ c.Dismissal id ∨ c.Result id := by
  cases c with
  | enqueue sessionId p =>
    rw [Inbox.exec, enqueuePending_awaits, h]
    cases p <;> simp [Produced.payload, QueuedMessage.isQuest, Call.Message, Call.Dismissal,
      Call.Result, Produced.Human]
  | answer sessionId agentId answer senderUserId =>
    simp [Inbox.exec, Inbox.answerAwaiting, h, Call.Message, Call.Dismissal, Call.Result]
  | dismiss sessionId =>
    simp [Inbox.exec, Inbox.dismissAwaiting, h, Call.Message, Call.Dismissal, Call.Result]
  | ask sessionId subject now =>
    simp [Inbox.exec, setAwaiting_awaits h, Call.Message, Call.Dismissal, Call.Result]

theorem Call.not_message_of_result {c : Call} (h : c.Result id) :
    ¬ (c.Message id ∨ c.Dismissal id) := by
  unfold Call.Result at h
  split at h
  · rintro (hmessage | hdismissal)
    · exact hmessage.2
    · cases hdismissal
  · exact h.elim

theorem lawful_iff (c : Call) : Lawful serde s c ↔ Quiet s c := by
  constructor
  · intro hlaw id hresult
    by_contra hwaits
    rw [Bool.not_eq_false] at hwaits
    -- a result that comes into a session that waits clears it
    have hgone : (s.exec serde c).awaits id = false :=
      (exec_awaits c hwaits).2 (.inr (.inr hresult))
    exact Call.not_message_of_result hresult (hlaw.cleared id hwaits hgone)
  · intro hquiet
    constructor
    · intro id hwaits hgone
      rcases (exec_awaits c hwaits).1 hgone with h | h | hresult
      · exact .inl h
      · exact .inr h
      · rw [hquiet id hresult] at hwaits
        cases hwaits
    · intro id hwaits hmessage
      exact (exec_awaits c hwaits).2 (.inl hmessage)

end Calls

/-- For every run from any state: all its calls are lawful if and only if no result of a quest
comes into a session that waits at that moment. -/
theorem lawful_run_iff (serde : Serde) (s : Inbox) (calls : List Call) :
    (∀ e ∈ s.trace serde calls, Lawful serde e.1 e.2) ↔ ∀ e ∈ s.trace serde calls, Quiet e.1 e.2 :=
  forall₂_congr fun e _ => lawful_iff e.2

/-! ## The result of a quest takes a question away -/

def oneResult : Produced := .questResult "as-001" "done" "Ada" "ada" "found it"

def oneResultText : String :=
  "\x7b\"agent_hint\":\"ada\",\"message\":\"Quest as-001 completed (done): Ada — found it\"," ++
    "\"sender_id\":null,\"transport\":\"scheduler\",\"kind\":null,\"quest_id\":null," ++
    "\"creator_session_id\":null,\"budget_usd\":null,\"initial_message_recorded\":false," ++
    "\"source_user_id\":null\x7d"

/-- The text of one payload; of any other no more than whether it is a quest's. -/
def oneResultSerde : Serde where
  toPayload m :=
    if m = oneResult.payload then oneResultText else if m.isQuest then "quest" else "chat"
  fromPayload text :=
    if text = oneResultText then some oneResult.payload
    else if text = "quest" then some (Produced.quest "ada" "" "as-001" none).payload
    else none
  isQuest_back := by
    intro m
    have hresult : oneResult.payload.isQuest = false := by decide
    split
    next hm => rw [hm, if_pos rfl, Option.any_some]
    · split
      next hquest =>
        rw [if_neg (by decide), if_pos rfl, hquest]
        rfl
      next hquest =>
        rw [if_neg (by decide), if_neg (by decide), Option.any_none]
        exact (Bool.not_eq_true _ ▸ hquest).symm

/-- Ada asks in session `s`, and a quest created there completes. -/
theorem not_lawful_run : ¬ ∀ (serde : Serde) (s : Inbox) (calls : List Call),
    ∀ e ∈ s.trace serde calls, Lawful serde e.1 e.2 := by
  intro hall
  let s : Inbox := { sessions := (∅ : Accounts String SessionRow).insert "s" {} }
  let asked : Inbox := s.exec oneResultSerde (.ask "s" "Approve?" "2026-05-07T09:00:00Z")
  have hlaw := hall oneResultSerde s
    [.ask "s" "Approve?" "2026-05-07T09:00:00Z", .enqueue "s" oneResult]
    (asked, .enqueue "s" oneResult) (List.mem_cons_of_mem _ (List.mem_singleton_self _))
  have hquiet := (lawful_iff _).1 hlaw "s" rfl
  cases hquiet

end Aeqi.Sessions
