import Aeqi.Messages.Store

/-!
# Recording messages

The three methods of `session_store.rs` that insert a message for a session. Each then fills in
the `first_message` of the session with the first 200 bytes of a user's message, which ends the
call where byte 200 is inside a character: the row has been inserted by then.

Metadata are texts, and times count seconds. An insertion with these columns does not fail.
-/

namespace Aeqi.Recording

open Aeqi.Lib
open Aeqi.Messages (Failure World)

/-- A row of `session_messages`; the defaults are those of the table. -/
structure SessionMessage where
  id : Nat := 0
  sessionId : String
  role : String
  content : String
  timestamp : Nat
  source : Option String := none
  eventType : String := "message"
  metadata : Option String := none
  senderId : Option String := none
  transport : Option String := some "unknown"
  fromKind : Option String := none
  fromId : Option String := none

/-- `role == "user" && !content.is_empty()`. -/
def SessionMessage.FromUser (m : SessionMessage) : Prop := m.role = "user" ∧ m.content ≠ ""

instance (m : SessionMessage) : Decidable m.FromUser := inferInstanceAs (Decidable (_ ∧ _))

/-- `session_messages` with its next id, and the `first_message` of every row of `sessions`. -/
structure Transcripts where
  messages : List SessionMessage := []
  nextId : Nat := 1
  firstMessages : Accounts String (Option String) := ∅

namespace Transcripts

variable (s : Transcripts)

def insertMessage (m : SessionMessage) : Transcripts :=
  { s with messages := s.messages ++ [{ m with id := s.nextId }], nextId := s.nextId + 1 }

/-- `UPDATE sessions SET first_message = ?1 WHERE id = ?2 AND first_message IS NULL`. -/
def setFirstMessage (sessionId first : String) : Transcripts :=
  match s.firstMessages.lookup sessionId with
  | none => s
  | some old =>
    { s with firstMessages := s.firstMessages.insert sessionId (old.or (some first)) }

/-- What the three methods do with the row that each makes of its arguments. -/
def record (m : SessionMessage) : Except Failure Nat × Transcripts :=
  let t := s.insertMessage m
  if m.FromUser then
    match sliceTo 200 m.content.toList with
    | none => (.error .panic, t)
    | some first => (.ok s.nextId, t.setFirstMessage m.sessionId (String.ofList first))
  else (.ok s.nextId, t)

def openSession (sessionId : String) : Transcripts :=
  { s with firstMessages := s.firstMessages.insert sessionId none }

end Transcripts

/-! ## The methods -/

section Methods

variable (now : Nat)

def eventRow (sessionId eventType role content : String)
    (source metadata senderId transport fromKind fromId : Option String) : SessionMessage :=
  { sessionId, role, content, timestamp := now, source, eventType, metadata, senderId, transport,
    fromKind, fromId }

def messageRow (sessionId senderId transport role content : String) (metadata : Option String) :
    SessionMessage :=
  { sessionId, role, content, timestamp := now, eventType := "message", metadata,
    senderId := some senderId, transport := some transport }

def appendedRow (sessionId role content fromKind : String) (fromId payloadKind : Option String) :
    SessionMessage :=
  { sessionId, role, content, timestamp := now, eventType := payloadKind.getD "message",
    fromKind := some fromKind, fromId }

variable (s : Transcripts)

def recordEventBySessionWithFullIdentity (sessionId eventType role content : String)
    (source metadata senderId transport fromKind fromId : Option String) :
    Except Failure Unit × Transcripts :=
  let (reply, s) := s.record (eventRow now sessionId eventType role content source metadata
    senderId transport fromKind fromId)
  (reply.map fun _ => (), s)

def recordMessage (sessionId senderId transport role content : String)
    (metadata : Option String) : Except Failure Nat × Transcripts :=
  s.record (messageRow now sessionId senderId transport role content metadata)

def appendMessageFrom (sessionId role content fromKind : String)
    (fromId payloadKind : Option String) : Except Failure Nat × Transcripts :=
  s.record (appendedRow now sessionId role content fromKind fromId payloadKind)

end Methods

inductive Call
  /-- A row of `sessions` whose `first_message` is `NULL`. -/
  | openSession (sessionId : String)
  | recordEventBySessionWithFullIdentity (now : Nat) (sessionId eventType role content : String)
      (source metadata senderId transport fromKind fromId : Option String)
  | recordMessage (now : Nat) (sessionId senderId transport role content : String)
      (metadata : Option String)
  | appendMessageFrom (now : Nat) (sessionId role content fromKind : String)
      (fromId payloadKind : Option String)

namespace Call

def perform (s : Transcripts) : Call → Except Failure Unit × Transcripts
  | openSession sessionId => (.ok (), s.openSession sessionId)
  | recordEventBySessionWithFullIdentity now sessionId eventType role content source metadata
      senderId transport fromKind fromId =>
    Recording.recordEventBySessionWithFullIdentity now s sessionId eventType role content source
      metadata senderId transport fromKind fromId
  | recordMessage now sessionId senderId transport role content metadata =>
    let (reply, s) :=
      Recording.recordMessage now s sessionId senderId transport role content metadata
    (reply.map fun _ => (), s)
  | appendMessageFrom now sessionId role content fromKind fromId payloadKind =>
    let (reply, s) :=
      Recording.appendMessageFrom now s sessionId role content fromKind fromId payloadKind
    (reply.map fun _ => (), s)

def row : Call → Option SessionMessage
  | openSession _ => none
  | recordEventBySessionWithFullIdentity now sessionId eventType role content source metadata
      senderId transport fromKind fromId =>
    some (eventRow now sessionId eventType role content source metadata senderId transport fromKind
      fromId)
  | recordMessage now sessionId senderId transport role content metadata =>
    some (messageRow now sessionId senderId transport role content metadata)
  | appendMessageFrom now sessionId role content fromKind fromId payloadKind =>
    some (appendedRow now sessionId role content fromKind fromId payloadKind)

/-- A new session has a uuid that has not been used. -/
def Admitted (s : Transcripts) : Call → Prop
  | openSession sessionId =>
    s.firstMessages.lookup sessionId = none ∧ ∀ m ∈ s.messages, m.sessionId ≠ sessionId
  | _ => True

/-- A step of the store; the reply is that of `perform`. -/
def Step (s : Transcripts) (c : Call) (t : Transcripts) : Prop :=
  c.Admitted s ∧ (c.perform s).2 = t

end Call

/-! ## What is promised -/

def Transcripts.firstUserMessage (s : Transcripts) (sessionId : String) : Option SessionMessage :=
  s.messages.find? fun m => m.sessionId = sessionId ∧ m.FromUser

/-- Every stored `first_message` is a beginning of it. -/
def Transcripts.FirstMessagesFit (s : Transcripts) : Prop :=
  ∀ sessionId first, s.firstMessages.lookup sessionId = some (some first) →
    ∃ m, s.firstUserMessage sessionId = some m ∧ first.toList <+: m.content.toList

/-- Byte 200 of a user's message, where it has one, is not inside a character. -/
def Call.CutBetweenCharacters (c : Call) : Prop :=
  ∀ m, c.row = some m → m.FromUser →
    byteLength m.content.toList ≤ 200 ∨ isCharBoundary m.content.toList 200 = true

/-! ## One call -/

section OneCall

variable {s t : Transcripts} {c : Call} {m : SessionMessage} {sid id : String}
  {hist : List (Transcripts × Call)}

theorem perform_record (h : c.row = some m) :
    c.perform s = ((s.record m).1.map fun _ => (), (s.record m).2) := by
  cases c with
  | openSession => cases h
  | recordEventBySessionWithFullIdentity | recordMessage | appendMessageFrom => cases h; rfl

theorem record_cases (s : Transcripts) (m : SessionMessage) :
    ¬ m.FromUser ∧ s.record m = (.ok s.nextId, s.insertMessage m) ∨
    m.FromUser ∧ sliceTo 200 m.content.toList = none ∧
      s.record m = (.error .panic, s.insertMessage m) ∨
    m.FromUser ∧ ∃ first, sliceTo 200 m.content.toList = some first ∧ s.record m =
        (.ok s.nextId, (s.insertMessage m).setFirstMessage m.sessionId (String.ofList first)) := by
  unfold Transcripts.record
  by_cases huser : m.FromUser
  · rw [if_pos huser]
    cases hslice : sliceTo 200 m.content.toList with
    | none => exact .inr (.inl ⟨huser, rfl, rfl⟩)
    | some first => exact .inr (.inr ⟨huser, first, rfl, rfl⟩)
  · rw [if_neg huser]
    exact .inl ⟨huser, rfl⟩

theorem record_panics_iff : (s.record m).1 = .error .panic ↔
    m.FromUser ∧ ¬ (byteLength m.content.toList ≤ 200 ∨ isCharBoundary m.content.toList 200 = true) := by
  rw [← sliceTo_eq_none]
  rcases record_cases s m with ⟨huser, hrecord⟩ | ⟨huser, hslice, hrecord⟩ |
    ⟨-, first, hslice, hrecord⟩
  · rw [hrecord]
    exact iff_of_false (by simp) fun h => huser h.1
  · rw [hrecord]
    exact iff_of_true rfl ⟨huser, hslice⟩
  · rw [hrecord]
    exact iff_of_false (by simp) fun h => by cases hslice.symm.trans h.2

theorem perform_isOk_iff : (c.perform s).1 = .ok () ↔ c.CutBetweenCharacters := by
  cases hrow : c.row with
  | none =>
    cases c with
    | openSession => exact iff_of_true rfl fun m hm => by cases hm
    | recordEventBySessionWithFullIdentity | recordMessage | appendMessageFrom => cases hrow
  | some m =>
    have hcut : c.CutBetweenCharacters ↔ (s.record m).1 ≠ .error .panic := by
      unfold Call.CutBetweenCharacters
      rw [ne_eq, record_panics_iff, hrow, not_and_not_right]
      simp
    rw [perform_record hrow, hcut]
    rcases record_cases s m with ⟨-, hrecord⟩ | ⟨-, -, hrecord⟩ | ⟨-, first, -, hrecord⟩
    · rw [hrecord]
      simp [Except.map]
    · rw [hrecord]
      simp [Except.map]
    · rw [hrecord]
      simp [Except.map]

/-! ## First messages -/

theorem firstUserMessage_insertMessage :
    (s.insertMessage m).firstUserMessage sid = (s.firstUserMessage sid).or
      (if m.sessionId = sid ∧ m.FromUser then some { m with id := s.nextId } else none) := by
  have hfind : ∀ m' : SessionMessage, [m'].find? (fun m => m.sessionId = sid ∧ m.FromUser) =
      if m'.sessionId = sid ∧ m'.FromUser then some m' else none := by
    intro m'
    by_cases h : m'.sessionId = sid ∧ m'.FromUser
    · rw [if_pos h]
      exact List.find?_cons_of_pos (decide_eq_true h)
    · rw [if_neg h, List.find?_cons_of_neg (by simpa using h)]
      rfl
  exact List.find?_append.trans (congrArg _ (hfind _))

variable {first : String}

theorem setFirstMessage_none (h : s.firstMessages.lookup id = none) :
    s.setFirstMessage id first = s := by
  unfold Transcripts.setFirstMessage
  rw [h]

theorem setFirstMessage_some {old : Option String} (h : s.firstMessages.lookup id = some old) :
    s.setFirstMessage id first =
      { s with firstMessages := s.firstMessages.insert id (old.or (some first)) } := by
  unfold Transcripts.setFirstMessage
  rw [h]

theorem lookup_setFirstMessage :
    (s.setFirstMessage id first).firstMessages.lookup sid =
      if sid = id then (s.firstMessages.lookup id).map (·.or (some first))
      else s.firstMessages.lookup sid := by
  cases hold : s.firstMessages.lookup id with
  | none =>
    rw [setFirstMessage_none hold]
    split
    next hsid => rw [hsid, hold]; rfl
    next => rfl
  | some old =>
    rw [setFirstMessage_some hold]
    split
    next hsid => rw [hsid]; exact AList.lookup_insert _
    next hsid => exact AList.lookup_insert_ne hsid

theorem firstUserMessage_setFirstMessage :
    (s.setFirstMessage id first).firstUserMessage sid = s.firstUserMessage sid := by
  unfold Transcripts.setFirstMessage
  cases s.firstMessages.lookup id <;> rfl

/-- The first messages fit, and where none is stored no user has sent one. -/
structure Sound (s : Transcripts) : Prop where
  fit : s.FirstMessagesFit
  unset : ∀ sid, s.firstMessages.lookup sid = some none → s.firstUserMessage sid = none

theorem sound_openSession (h : Sound s) (hnew : ∀ m ∈ s.messages, m.sessionId ≠ id) :
    Sound (s.openSession id) := by
  have hlookup : ∀ sid, sid ≠ id →
      (s.openSession id).firstMessages.lookup sid = s.firstMessages.lookup sid :=
    fun sid hsid => AList.lookup_insert_ne hsid
  have hself : (s.openSession id).firstMessages.lookup id = some none := AList.lookup_insert _
  constructor
  · intro sid first hfirst
    by_cases hsid : sid = id
    · subst hsid
      cases hself.symm.trans hfirst
    · exact h.fit sid first ((hlookup sid hsid).symm.trans hfirst)
  · intro sid hnone
    by_cases hsid : sid = id
    · apply List.find?_eq_none.2
      intro m hm hfrom
      exact hnew m hm ((of_decide_eq_true hfrom).1.trans hsid)
    · exact h.unset sid ((hlookup sid hsid).symm.trans hnone)

theorem sound_insertMessage (h : Sound s) (huser : ¬ m.FromUser) : Sound (s.insertMessage m) := by
  have hfirst : ∀ sid, (s.insertMessage m).firstUserMessage sid = s.firstUserMessage sid := by
    intro sid
    rw [firstUserMessage_insertMessage, if_neg fun hm => huser hm.2, Option.or_none]
  constructor
  · intro sid first hlookup
    rw [hfirst]
    exact h.fit sid first hlookup
  · intro sid hlookup
    rw [hfirst]
    exact h.unset sid hlookup

theorem sound_setFirstMessage (h : Sound s) (huser : m.FromUser) {first : List Char}
    (hfront : first <+: m.content.toList) :
    Sound ((s.insertMessage m).setFirstMessage m.sessionId (String.ofList first)) := by
  have hmessage : ∀ sid, ((s.insertMessage m).setFirstMessage m.sessionId
      (String.ofList first)).firstUserMessage sid = (s.firstUserMessage sid).or
        (if m.sessionId = sid ∧ m.FromUser then some { m with id := s.nextId } else none) :=
    fun sid => firstUserMessage_setFirstMessage.trans firstUserMessage_insertMessage
  constructor
  · intro sid stored hlookup
    rw [hmessage]
    rw [lookup_setFirstMessage] at hlookup
    by_cases hsid : sid = m.sessionId
    · subst hsid
      rw [if_pos rfl] at hlookup
      obtain ⟨old, hold, hstored⟩ := Option.map_eq_some_iff.1 hlookup
      cases old with
      | none =>
        cases hstored
        rw [h.unset _ hold, if_pos ⟨rfl, huser⟩]
        exact ⟨_, rfl, by rw [String.toList_ofList]; exact hfront⟩
      | some old =>
        cases hstored
        obtain ⟨m', hm', hfit⟩ := h.fit _ _ hold
        exact ⟨m', by rw [hm']; rfl, hfit⟩
    · rw [if_neg hsid] at hlookup
      obtain ⟨m', hm', hfit⟩ := h.fit _ _ hlookup
      exact ⟨m', by rw [hm']; rfl, hfit⟩
  · intro sid hlookup
    rw [lookup_setFirstMessage] at hlookup
    by_cases hsid : sid = m.sessionId
    · rw [if_pos hsid] at hlookup
      obtain ⟨old, -, hnone⟩ := Option.map_eq_some_iff.1 hlookup
      cases old <;> cases hnone
    · rw [if_neg hsid] at hlookup
      rw [hmessage, h.unset sid hlookup, if_neg fun hm => hsid hm.1.symm]
      rfl

theorem sound_perform (h : Sound s) (hc : c.Admitted s) (hcut : c.CutBetweenCharacters) :
    Sound (c.perform s).2 := by
  cases hrow : c.row with
  | none =>
    cases c with
    | openSession => exact sound_openSession h hc.2
    | recordEventBySessionWithFullIdentity | recordMessage | appendMessageFrom => cases hrow
  | some m =>
    rw [perform_record hrow]
    rcases record_cases s m with ⟨huser, hrecord⟩ | ⟨huser, hslice, -⟩ |
      ⟨huser, first, hslice, hrecord⟩
    · rw [hrecord]
      exact sound_insertMessage h huser
    · exact absurd (hcut m hrow huser) (sliceTo_eq_none.1 hslice)
    · rw [hrecord]
      exact sound_setFirstMessage h huser (front_of_sliceTo hslice)

/-! ## Runs -/

theorem sound_run (hrun : Run Call.Step {} hist t)
    (hcut : ∀ e ∈ hist, e.2.CutBetweenCharacters) : Sound t := by
  have hguarded : Run (Guarded (fun _ c => Call.CutBetweenCharacters c) Call.Step) {} hist t :=
    Run.guarded_iff.2 ⟨hrun, hcut⟩
  apply hguarded.invariant
  · constructor
    · intro sid first hlookup
      cases hlookup
    · intro sid hlookup
      cases hlookup
  · rintro s c t hs ⟨hc, hadmitted, rfl⟩
    exact sound_perform hs hadmitted hc

/-! ## The store of sessions -/

/-- What the two models of the store share: the ids of messages, and the first messages. -/
structure Mirrors (w : World) (s : Transcripts) : Prop where
  nextId : s.nextId = w.nextMessageId
  first : ∀ sid, s.firstMessages.lookup sid = (w.sessions.lookup sid).map (·.firstMessage)

end OneCall
end Aeqi.Recording
