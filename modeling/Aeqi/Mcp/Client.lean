import Aeqi.Lib.Accounts

/-!
# The MCP client (`client.rs`)

Requests wait for their answers in a map from ids to senders; the demultiplexer of the inbound
lines takes the senders out again. Every lock scope is one step, and so is what happens between
two of them. JSON values are of an arbitrary type `V`, and decoding a line is a parameter; payloads
of requests are left out.
-/

namespace Aeqi.Mcp

open Aeqi.Lib

/-! ## Messages -/

inductive McpReasonCode
  | unavailable
  | protocolError
  | invalidArgs
  | unknownTool
  | callerDenied
  | missingCredential
  | transportError
  | timeout

def McpReasonCode.fromJsonrpc (code : Int) : McpReasonCode :=
  if code = -32601 then .unknownTool
  else if code = -32602 then .invalidArgs
  else .protocolError

structure McpError where
  code : McpReasonCode
  message : String

structure JsonRpcErrorObject where
  code : Int
  message : String

section Types

variable (V : Type)

structure IncomingMessage where
  id : Option Nat := none
  method : Option String := none
  result : Option V := none
  error : Option JsonRpcErrorObject := none
  params : Option V := none

inductive Notification
  | toolsListChanged
  | other (method : String) (params : V)

/-- A oneshot channel, from its receiver's side. -/
inductive Slot
  | empty
  | filled (msg : IncomingMessage V)
  | dropped

/-- How far a call of `request` has come. -/
inductive Phase
  | idle
  /-- The transport was not closed. -/
  | checked
  | issued (id : Nat)
  | registered (id : Nat) (slot : Slot V)
  | sendFailed (id : Nat)
  | awaiting (id : Nat) (slot : Slot V)
  | timedOut (id : Nat)
  | returned (id : Option Nat) (result : Except McpError V)

end Types

variable {ι V : Type} [DecidableEq ι]

def Phase.id? : Phase V → Option Nat
  | idle | checked => none
  | issued id | registered id _ | sendFailed id | awaiting id _ | timedOut id => some id
  | returned id _ => id

/-- Decoding, and what the requests are. -/
structure McpCtx (ι V : Type) where
  decode : String → Option (IncomingMessage V)
  null : V
  method : ι → String
  callTimeout : String

/-- `next_id` counts the ids that were issued; it is a `u64`. -/
structure Client (ι V : Type) where
  issued : Nat := 0
  pending : Accounts Nat ι := ∅
  closed : Option String := none
  /-- The demultiplexer has come to the end of the inbound lines. -/
  ended : Bool := false
  notified : List (Notification V) := []
  requests : ι → Phase V := fun _ => .idle

namespace Client

variable (s : Client ι V) (ctx : McpCtx ι V)

/-- The counter starts at one and wraps around. -/
def nextId : Nat := (1 + s.issued) % 2 ^ 64

def set (i : ι) (phase : Phase V) : Client ι V :=
  { s with requests := Function.update s.requests i phase }

/-- The sender of request `i` is used or dropped; its receiver may be gone. -/
def put (i : ι) (slot : Slot V) : Client ι V :=
  match s.requests i with
  | .registered id .empty => s.set i (.registered id slot)
  | .awaiting id .empty => s.set i (.awaiting id slot)
  | _ => s

/-! ## `dispatch_inbound` -/

def notification (method : String) (params : Option V) : Notification V :=
  if method = "notifications/tools/list_changed" then .toolsListChanged
  else .other method (params.getD ctx.null)

def dispatchInbound (line : String) : Client ι V :=
  match ctx.decode line with
  | none => s
  | some parsed =>
    match parsed.id, parsed.method with
    | some id, _ =>
      match s.pending.lookup id with
      | some i => ({ s with pending := s.pending.erase id }).put i (.filled parsed)
      | none => s
    | none, some method =>
      { s with notified := s.notified ++ [notification ctx method parsed.params] }
    | none, none => s

/-! ## `request` -/

def call (i : ι) : Except Unit (Client ι V) :=
  match s.requests i with
  | .idle =>
    match s.closed with
    | some reason =>
      .ok (s.set i (.returned none (.error ⟨.unavailable, "mcp transport closed: " ++ reason⟩)))
    | none => .ok (s.set i .checked)
  | _ => .error ()

def fetch (i : ι) : Except Unit (Client ι V) :=
  match s.requests i with
  | .checked => .ok ({ s with issued := s.issued + 1 }.set i (.issued s.nextId))
  | _ => .error ()

def dropSender (id : Nat) : Client ι V :=
  match s.pending.lookup id with
  | some j => s.put j .dropped
  | none => s

def register (i : ι) : Except Unit (Client ι V) :=
  match s.requests i with
  | .issued id =>
    let s := s.dropSender id
    .ok ({ s with pending := s.pending.insert id i }.set i (.registered id .empty))
  | _ => .error ()

/-- The outbound channel takes the payload, or is closed. -/
def send (i : ι) (sent : Bool) : Except Unit (Client ι V) :=
  match s.requests i with
  | .registered id slot => .ok (s.set i (if sent then .awaiting id slot else .sendFailed id))
  | _ => .error ()

/-- The deadline passes while there is no answer. -/
def expire (i : ι) : Except Unit (Client ι V) :=
  match s.requests i with
  | .awaiting id .empty => .ok (s.set i (.timedOut id))
  | _ => .error ()

/-- A request that gives up takes its entry back and returns. -/
def unregister (i : ι) : Except Unit (Client ι V) :=
  match s.requests i with
  | .sendFailed id =>
    .ok ({ s with pending := s.pending.erase id }.set i (.returned (some id)
      (.error ⟨.transportError, "outbound send failed: channel closed"⟩)))
  | .timedOut id =>
    .ok ({ s with pending := s.pending.erase id }.set i (.returned (some id)
      (.error ⟨.timeout, "method '" ++ ctx.method i ++ "' timed out after " ++ ctx.callTimeout⟩)))
  | _ => .error ()

def responseResult (response : IncomingMessage V) : Except McpError V :=
  match response.error with
  | some err => .error ⟨McpReasonCode.fromJsonrpc err.code,
      "server error " ++ toString err.code ++ ": " ++ err.message⟩
  | none =>
    match response.result with
    | some result => .ok result
    | none => .error ⟨.protocolError, "response missing both result and error"⟩

def receive (i : ι) : Except Unit (Client ι V) :=
  match s.requests i with
  | .awaiting id (.filled msg) => .ok (s.set i (.returned (some id) (responseResult msg)))
  | .awaiting id .dropped =>
    .ok (s.set i (.returned (some id) (.error ⟨.transportError, "response channel dropped"⟩)))
  | _ => .error ()

end Client

/-! ## Runs -/

/-- A step of a request, of the demultiplexer or of the registry. -/
inductive McpStep (ι : Type)
  | call (i : ι)
  | fetch (i : ι)
  | register (i : ι)
  | send (i : ι) (sent : Bool)
  | expire (i : ι)
  | unregister (i : ι)
  | receive (i : ι)
  | inbound (line : String)
  | inboundEnd
  | markClosed (reason : String)

def Client.exec (ctx : McpCtx ι V) (s : Client ι V) : McpStep ι → Except Unit (Client ι V)
  | .call i => s.call i
  | .fetch i => s.fetch i
  | .register i => s.register i
  | .send i sent => s.send i sent
  | .expire i => s.expire i
  | .unregister i => s.unregister ctx i
  | .receive i => s.receive i
  | .inbound line => if s.ended then .error () else .ok (s.dispatchInbound ctx line)
  | .inboundEnd => if s.ended then .error () else .ok { s with ended := true }
  | .markClosed reason => .ok { s with closed := some reason }

end Aeqi.Mcp
