import Aeqi.Messages.Store

/-!
# Addressed messages

`handle_message_to` and `handle_add_participant` of `ipc/messages.rs`, as programs over the
accesses of the store. Both stores are taken to be wired.
-/

/-!
## Mentions

`parse_mentions` of `mentions.rs`: the `@`-tokens of a text. The source goes over bytes and
cuts the text at `@`, at ASCII delimiters and at its end only, so positions here are counted in
characters; the byte range of a reference is computed from them.

The lower case of a text, by which references are told apart, is a parameter.
-/

namespace Aeqi.Messages

open Aeqi.Lib

def KIND_AGENT : String := "agent"
def KIND_USER : String := "user"
def KIND_POSITION : String := "position"
def KIND_FUZZY : String := "fuzzy"

structure MentionRef where
  kind : String
  id : String
  rawText : String
  charRange : Nat × Nat

/-! ## Characters -/

def isWhitespaceOrTerminal (c : Char) : Bool :=
  c ∈ [' ', '\t', '\n', '\x0d', ',', ';', '!', '?', '\'', '"', '(', ')', '[', ']', '\x7b', '\x7d']

def isWordChar (c : Char) : Bool := c.isAlphanum || c = '_'

def trimEndDots (text : List Char) : List Char := (text.reverse.dropWhile (· = '.')).reverse

/-! ## The parser -/

section Parse

variable (body : List Char)

def slice (start stop : Nat) : List Char := (body.take stop).drop start

def scanTokenEnd (start : Nat) : Nat :=
  start + ((body.drop start).takeWhile fun c => !isWhitespaceOrTerminal c).length

def detectPrefixedKind (tokenStart : Nat) : Option (String × Nat) :=
  if "agent:".toList.isPrefixOf (body.drop tokenStart) then
    some (KIND_AGENT, tokenStart + "agent:".length)
  else if "user:".toList.isPrefixOf (body.drop tokenStart) then
    some (KIND_USER, tokenStart + "user:".length)
  else none

/-- `@agent:<id>` or `@user:<id>`: its kind and id, and where it ends. -/
def prefixedMention (tokenStart : Nat) : Option (String × List Char × Nat) :=
  match detectPrefixedKind body tokenStart with
  | none => none
  | some (kind, idStart) =>
    let idEnd := scanTokenEnd body idStart
    let id := trim (slice body idStart idEnd)
    if id = [] then none else some (kind, id, idEnd)

/-- `@position(<title>)`. -/
def positionMention (tokenStart : Nat) : Option (String × List Char × Nat) :=
  if "position(".toList.isPrefixOf (body.drop tokenStart) then
    let parenOpen := tokenStart + "position(".length
    match (body.drop parenOpen).findIdx? (· = ')') with
    | none => none
    | some parenClose =>
      let title := trim (slice body parenOpen (parenOpen + parenClose))
      if title = [] then none else some (KIND_POSITION, title, parenOpen + parenClose + 1)
  else none

/-- What the token after an `@` says, if anything, with the end of its text, and where the
parser goes on. -/
def mentionFrom (tokenStart : Nat) : Option (String × List Char × Nat) × Nat :=
  match prefixedMention body tokenStart with
  | some (kind, id, stop) => (some (kind, id, stop), stop)
  | none =>
    match positionMention body tokenStart with
    | some (kind, id, stop) => (some (kind, id, stop), stop)
    | none =>
      let nameEnd := scanTokenEnd body tokenStart
      let name := trimEndDots (slice body tokenStart nameEnd)
      if name = [] then (none, nameEnd)
      else (some (KIND_FUZZY, name, tokenStart + name.length), nameEnd)

/-- The loop, from position `i` on; every turn goes on at a later position. -/
def parseFrom (lower : String → String) : Nat → Nat → List (String × String) → List MentionRef
  | 0, _, _ => []
  | fuel + 1, i, seen =>
    match body[i]? with
    | none => []
    | some c =>
      if c ≠ '@' ∨ (0 < i ∧ (body[i - 1]?).any isWordChar) ∨
          (body[i + 1]?).all isWhitespaceOrTerminal then
        parseFrom lower fuel (i + 1) seen
      else
        match mentionFrom body (i + 1) with
        | (none, next) => parseFrom lower fuel next seen
        | (some (kind, id, stop), next) =>
          let key := (kind, lower (String.ofList id))
          if key ∈ seen then parseFrom lower fuel next seen
          else
            { kind
              id := String.ofList id
              rawText := String.ofList (slice body i stop)
              charRange := (byteLength (body.take i), byteLength (body.take stop)) } ::
              parseFrom lower fuel next (key :: seen)

end Parse

def parseMentions (lower : String → String) (body : String) : List MentionRef :=
  parseFrom body.toList lower body.toList.length 0 []

open Aeqi.Orchestrator Handler
open Access (run)

/-- What the handlers know beside the request. -/
structure Ctx where
  toLowercase : String → String
  defaultProvider : Bool := true

abbrev Routine (α : Type) := ExceptT Failure (Prog Access Access.Reply) α

def act (a : Access) : Routine a.Reply := ExceptT.lift (Prog.perform a)

def give {α : Type} (x : Except Failure α) : Routine α := ExceptT.mk (pure x)

def required (field : Option String) (name : String) : Routine String :=
  give (okOr (requestField field) (.message (name ++ " required")))

/-! ## Mentions of a message -/

def resolveMention (m : MentionRef) : Routine (Option Identity) :=
  if m.kind = KIND_AGENT ∨ m.kind = KIND_USER ∨ m.kind = KIND_POSITION then
    pure (some (m.kind, m.id))
  else if m.kind = KIND_FUZZY then do
    let agent ← act (.activeByName m.id)
    pure ((agent : Option String).map fun id => (KIND_AGENT, id))
  else pure none

/-- The loop of `wire_at_mentions_in_message`; its accesses may fail. -/
def wireMentions (ctx : Ctx) (sessionId body : String) : List MentionRef → Routine Unit
  | [] => pure ()
  | m :: mentions => do
    match ← resolveMention m with
    | none => wireMentions ctx sessionId body mentions
    | some who =>
      let _ ← act (.addSessionParticipant sessionId who (some "mention"))
      if who.1 = KIND_AGENT ∧ ctx.defaultProvider then
        let _ ← act (.enqueueSpawn { sessionId, agentId := who.2, body })
      wireMentions ctx sessionId body mentions

def wireAtMentionsInMessage (ctx : Ctx) (sessionId body : String) : Routine Unit :=
  wireMentions ctx sessionId body (parseMentions ctx.toLowercase body)

/-! ## `message_to` -/

/-- The request, with the id of a new session and the row that SQLite picks. -/
structure MessageTo where
  targetKind : Option String
  targetId : Option String
  body : Option String
  fromKind : Option String := none
  fromId : Option String := none
  payloadKind : Option String := none
  newId : String := ""
  pick : Nat := 0

namespace MessageTo

def senderKind (req : MessageTo) : String := (requestField req.fromKind).getD "user"

def senderId (req : MessageTo) : Option String := requestField req.fromId

def caller (req : MessageTo) : Option Identity := req.senderId.map fun id => (req.senderKind, id)

end MessageTo

structure Sent where
  sessionId : String
  messageId : Nat
  deriving DecidableEq

def roleForFromKind (fromKind : String) : String :=
  if fromKind = "user" then "user"
  else if fromKind = "agent" ∨ fromKind = "position" then "assistant"
  else "system"

def deliver (req : MessageTo) (sessionId body : String) : Routine Sent := do
  let appended ← act (.appendMessageFrom sessionId (roleForFromKind req.senderKind) body
    req.senderKind req.senderId (requestField req.payloadKind))
  let messageId ← give (appended : Except Failure Nat)
  pure { sessionId, messageId }

/-- `deliver`, and the mentions. -/
def deliverAndWire (ctx : Ctx) (req : MessageTo) (sessionId body : String) : Routine Sent := do
  let sent ← deliver req sessionId body
  wireAtMentionsInMessage ctx sessionId body
  pure sent

def ideaSession (req : MessageTo) (ideaId : String) : Routine String := do
  let found ← act (.getIdea ideaId)
  let idea ← give (okOr (found : Option Idea) (.message "idea not found"))
  match idea.sessionId with
  | some sessionId => pure sessionId
  | none =>
    let created ← act (.createSession req.newId
      { sessionType := "idea", name := "idea:" ++ idea.name })
    give (created : Except Failure Unit)
    let _ ← act (.setIdeaSession ideaId req.newId)
    pure req.newId

def newRoleSession (req : MessageTo) (roleId : String) : Routine Unit := do
  let created ← act (.createSession req.newId
    { sessionType := "role", name := "role:" ++ roleId, targetRoleId := some roleId })
  give (created : Except Failure Unit)

def roleSession (req : MessageTo) (roleId : String) : Routine String :=
  match req.senderId with
  | some callerAgentId => do
    match (← act (.findRoleSession roleId callerAgentId req.pick) : Option String) with
    | some sessionId => pure sessionId
    | none =>
      newRoleSession req roleId
      let _ ← act (.addSessionParticipant req.newId ("agent", callerAgentId) none)
      pure req.newId
  | none => do
    newRoleSession req roleId
    pure req.newId

def occupantIdentity (role : Role) : Option Identity :=
  match role.occupantKind, role.occupantId with
  | .human, some id => some ("user", id)
  | .agent, some id => some ("agent", id)
  | .trust, some id => some ("trust", id)
  | .vacant, _ => none
  | _, none => none

def messageToRole (req : MessageTo) (roleId body : String) : Routine Sent := do
  let found ← act (.getRole roleId)
  let role ← give (okOr (found : Option Role) (.message "role not found"))
  let occupant ← give (okOr (occupantIdentity role) (.message "role has no occupant"))
  let sessionId ← roleSession req roleId
  let _ ← act (.addSessionParticipant sessionId occupant none)
  deliver req sessionId body

/-- The branches `agent` and `user`: the caller is looked up as an agent in both. -/
def messageToDm (ctx : Ctx) (req : MessageTo) (sessionType targetKind targetId body : String) :
    Routine Sent := do
  let dmName := "dm:agent:" ++ req.senderId.getD "unknown" ++ ":" ++ targetKind ++ ":" ++ targetId
  let found ← act (.findOrCreateDmSession sessionType dmName ("agent", req.senderId.getD "")
    (targetKind, targetId) req.newId req.pick)
  let (sessionId, _) ← give (found : Except Failure (String × Bool))
  deliverAndWire ctx req sessionId body

def handleMessageTo (ctx : Ctx) (req : MessageTo) : Routine Sent := do
  let targetKind ← required req.targetKind "target_kind"
  let targetId ← required req.targetId "target_id"
  let body ← required req.body "body"
  if targetKind = "session" then deliverAndWire ctx req targetId body
  else if targetKind = "idea" then
    let sessionId ← ideaSession req targetId
    deliverAndWire ctx req sessionId body
  else if targetKind = "role" then messageToRole req targetId body
  else if targetKind = "agent" then messageToDm ctx req "agent_agent_dm" "agent" targetId body
  else if targetKind = "user" then messageToDm ctx req "agent_user_dm" "user" targetId body
  else give (.error (.message ("unknown target_kind: " ++ targetKind)))

/-! ## `add_participant` -/

structure AddParticipant where
  sessionId : Option String
  identityKind : Option String
  identityId : Option String
  joinedBy : Option String := none

structure Added where
  sessionId : String
  inserted : Bool

def handleAddParticipant (req : AddParticipant) : Routine Added := do
  let sessionId ← required req.sessionId "session_id"
  let identityKind ← required req.identityKind "identity_kind"
  let identityId ← required req.identityId "identity_id"
  let added ← act (.addSessionParticipant sessionId (identityKind, identityId)
    (requestField req.joinedBy))
  let inserted ← give (added : Except Failure Bool)
  if inserted then
    let _ ← act (.appendMessageFrom sessionId "system" (identityKind ++ ":" ++ identityId ++ " joined")
      "system" none none)
  pure { sessionId, inserted }

/-! ## Rules -/

section Rules

variable {w : World} {α : Type} {good : Access → World → Prop} {q : α → World → Prop}

theorem leads_act {a : Access} {q : a.Reply → World → Prop} :
    Leads run good (act a) w q ↔ good a w ∧ q (a.run w).1 (a.run w).2 := leads_perform

theorem leads_give {x : Except Failure α} :
    Leads run good (give x) w q ↔ ∀ a, x = .ok a → q a w := leads_result

theorem leads_required {field : Option String} {name : String} {q : String → World → Prop} :
    Leads run good (required field name) w q ↔ ∀ text, requestField field = some text → q text w := by
  unfold required
  simp [leads_give]

variable {req : MessageTo}

theorem leads_deliver {sid body : String} {q : World → Prop}
    (hgood : good (.appendMessageFrom sid (roleForFromKind req.senderKind) body req.senderKind
      req.senderId (requestField req.payloadKind)) w)
    (h : q (w.appendMessageFrom sid (roleForFromKind req.senderKind) body req.senderKind
      req.senderId (requestField req.payloadKind)).2) :
    Leads run good (deliver req sid body) w fun _ => q := by
  refine leads_bind.2 (leads_act.2 ⟨hgood, ?_⟩)
  exact leads_bind.2 (leads_give.2 fun _ _ => leads_pure.2 h)

theorem leads_deliverAndWire {ctx : Ctx} {sid body : String} {q : World → Prop}
    (hgood : good (.appendMessageFrom sid (roleForFromKind req.senderKind) body req.senderKind
      req.senderId (requestField req.payloadKind)) w)
    (h : Leads run good (wireAtMentionsInMessage ctx sid body)
      (w.appendMessageFrom sid (roleForFromKind req.senderKind) body req.senderKind req.senderId
        (requestField req.payloadKind)).2 fun _ => q) :
    Leads run good (deliverAndWire ctx req sid body) w fun _ => q := by
  let wired (w' : World) : Prop :=
    Leads run good (wireAtMentionsInMessage ctx sid body) w' fun _ => q
  refine leads_bind.2 ((leads_deliver (q := wired) hgood h).mono fun _ _ h => ?_)
  exact leads_bind.2 (Leads.mono h fun _ _ h => leads_pure.2 h)

theorem leads_handleMessageTo {ctx : Ctx} {q : Sent → World → Prop}
    (h : ∀ kind id body, requestField req.targetKind = some kind →
      requestField req.targetId = some id → requestField req.body = some body →
      (kind = "session" → Leads run good (deliverAndWire ctx req id body) w q) ∧
      (kind = "idea" → Leads run good
        (ideaSession req id >>= fun sid => deliverAndWire ctx req sid body) w q) ∧
      (kind = "role" → Leads run good (messageToRole req id body) w q) ∧
      (kind = "agent" → Leads run good (messageToDm ctx req "agent_agent_dm" "agent" id body) w q) ∧
      (kind = "user" → Leads run good (messageToDm ctx req "agent_user_dm" "user" id body) w q)) :
    Leads run good (handleMessageTo ctx req) w q := by
  refine leads_bind.2 (leads_required.2 fun kind hkind => ?_)
  refine leads_bind.2 (leads_required.2 fun id hid => ?_)
  refine leads_bind.2 (leads_required.2 fun body hbody => ?_)
  obtain ⟨hsession, hidea, hrole, hagent, huser⟩ := h kind id body hkind hid hbody
  split
  next hc => exact hsession hc
  · split
    next hc => exact hidea hc
    · split
      next hc => exact hrole hc
      · split
        next hc => exact hagent hc
        · split
          next hc => exact huser hc
          · refine leads_give.2 fun _ hcontra => ?_
            cases hcontra

/-! ### Mentions -/

def World.mentioned (w : World) (m : MentionRef) : Option Identity :=
  if m.kind = KIND_AGENT ∨ m.kind = KIND_USER ∨ m.kind = KIND_POSITION then some (m.kind, m.id)
  else if m.kind = KIND_FUZZY then (w.activeByName m.id).map fun id => (KIND_AGENT, id)
  else none

theorem World.mentioned_congr {w' : World} (h : w'.agents = w.agents) (m : MentionRef) :
    w'.mentioned m = w.mentioned m := by
  unfold World.mentioned World.activeByName
  rw [h]

theorem leads_resolveMention {m : MentionRef} {q : Option Identity → World → Prop}
    (hgood : good (.activeByName m.id) w) (h : q (w.mentioned m) w) :
    Leads run good (resolveMention m) w q := by
  unfold World.mentioned at h
  unfold resolveMention
  split at h
  next hkind =>
    rw [if_pos hkind]
    exact leads_pure.2 h
  next hkind =>
    rw [if_neg hkind]
    split at h
    next hfuzzy =>
      rw [if_pos hfuzzy]
      exact leads_bind.2 (leads_act.2 ⟨hgood, leads_pure.2 h⟩)
    next hfuzzy =>
      rw [if_neg hfuzzy]
      exact leads_pure.2 h

theorem leads_wireMentions {ctx : Ctx} {sid body : String} {P : World → Prop}
    {mentions : List MentionRef} (hname : ∀ name w, good (.activeByName name) w)
    (hjoin : ∀ m ∈ mentions, ∀ w who, P w → w.mentioned m = some who →
      good (.addSessionParticipant sid who (some "mention")) w ∧
        P (w.addSessionParticipant sid who (some "mention")).2)
    (hspawn : ∀ agentId w, P w → good (.enqueueSpawn { sessionId := sid, agentId, body }) w ∧
      P { w with spawns := w.spawns ++ [{ sessionId := sid, agentId, body }] }) (h : P w) :
    Leads run good (wireMentions ctx sid body mentions) w fun _ => P := by
  induction mentions generalizing w with
  | nil => exact leads_pure.2 h
  | cons m mentions ih =>
    have hrest := fun m' hm' => hjoin m' (List.mem_cons_of_mem m hm')
    refine leads_bind.2 (leads_resolveMention (hname m.id w) ?_)
    cases hwho : w.mentioned m with
    | none => exact ih hrest h
    | some who =>
      obtain ⟨hgood, hP⟩ := hjoin m List.mem_cons_self w who h hwho
      refine leads_bind.2 (leads_act.2 ⟨hgood, ?_⟩)
      split
      · obtain ⟨hgood, hP⟩ := hspawn who.2 _ hP
        exact leads_bind.2 (leads_act.2 ⟨hgood, ih hrest hP⟩)
      · exact ih hrest hP

end Rules

end Aeqi.Messages
