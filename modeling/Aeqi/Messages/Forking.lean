import Aeqi.Messages.Recording

/-!
# Forking a session (`session_store.rs`)

`fork_session` copies the messages of a session up to one of them into a new session. Four readers
show the messages of a session: the history and the timeline leave out what has been summarized, the
two feeds part the messages of the system from the others. The statement that copies lists its
columns, and those that were added to the table later are not among them.

Rows stand in the order of their ids, which `AUTOINCREMENT` draws. Legacy rows without a session are
left out, and so are the columns of `sessions` that a fork leaves at their defaults. How metadata is
parsed is a parameter; a limit of `2 ^ 63` or more is negative as an `i64` and limits nothing.
-/

namespace Aeqi.Forking

open Aeqi.Lib Aeqi.Orchestrator List

/-! ## The tables -/

structure SessionRow extends Messages.Session where
  parentId : Option String := none

structure MessageRow extends Recording.SessionMessage where
  summarized : Bool := false

/-- The rows are in the order of their ids, all of which have been drawn. -/
structure SessionStore where
  sessions : Accounts String SessionRow
  messages : List MessageRow
  nextId : Nat
  sorted : messages.Pairwise fun a b => a.id < b.id
  drawn : ∀ m ∈ messages, m.id < nextId

inductive Failure
  | queryReturnedNoRows
  | invalidColumnType (index : Nat) (name : String)
  | sqlite (violated : Constraint)

/-- `LIMIT` with `limit as i64`. -/
def limited {α : Type} (limit : Nat) (rows : List α) : List α :=
  if limit < 9223372036854775808 then rows.take limit else rows

/-- `ORDER BY id ASC LIMIT ?` -/
def firstRows (p : MessageRow → Bool) (limit : Nat) (rows : List MessageRow) : List MessageRow :=
  limited limit (rows.filter p)

/-- `ORDER BY id DESC LIMIT ?`, reversed. -/
def lastRows (p : MessageRow → Bool) (limit : Nat) (rows : List MessageRow) : List MessageRow :=
  (limited limit (rows.filter p).reverse).reverse

/-! ## What the readers return -/

structure HistoryMessage where
  sessionId : String
  role : String
  content : String
  timestamp : Nat
  source : Option String
  deriving DecidableEq

structure ThreadEvent where
  id : Nat
  sessionId : String
  eventType : String
  role : String
  content : String
  timestamp : Nat
  source : Option String
  metadata : Option Json
  senderId : Option String
  transport : Option String
  fromKind : Option String
  fromId : Option String

structure SessionMessageRow where
  id : Nat
  sessionId : String
  role : String
  content : String
  timestamp : Nat
  fromKind : Option String
  fromId : Option String
  metadata : Option Json

namespace MessageRow

variable (parse : String → Option Json) (m : MessageRow)

def history : HistoryMessage := ⟨m.sessionId, m.role, m.content, m.timestamp, m.source⟩

def event : ThreadEvent where
  id := m.id
  sessionId := m.sessionId
  eventType := m.eventType
  role := m.role
  content := m.content
  timestamp := m.timestamp
  source := m.source
  metadata := m.metadata.bind parse
  senderId := m.senderId
  transport := m.transport
  fromKind := m.fromKind
  fromId := m.fromId

def feedRow : SessionMessageRow where
  id := m.id
  sessionId := m.sessionId
  role := m.role
  content := m.content
  timestamp := m.timestamp
  fromKind := m.fromKind
  fromId := m.fromId
  metadata := m.metadata.bind parse

/-- `summarized = 0 AND event_type = 'message'` -/
def isLive : Bool := !m.summarized && m.eventType = "message"

def isSystem : Bool := m.fromKind = some "system" ∨ (m.fromKind = none ∧ m.role = "system")

/-- A comparison with NULL is not true. -/
def isConversation : Bool :=
  (m.fromKind ≠ none ∧ m.fromKind ≠ some "system") ∨ (m.fromKind = none ∧ m.role ≠ "system")

/-- The row that a fork makes; the columns that are not listed have their defaults. -/
def copied (sessionId : String) (id : Nat) : MessageRow where
  id := id
  sessionId := sessionId
  role := m.role
  content := m.content
  timestamp := m.timestamp
  source := m.source
  eventType := m.eventType
  metadata := m.metadata
  senderId := m.senderId
  transport := m.transport

end MessageRow

/-- `INSERT .. SELECT .. ORDER BY id ASC` -/
def copies (sessionId : String) : Nat → List MessageRow → List MessageRow
  | _, [] => []
  | nextId, m :: rows => m.copied sessionId nextId :: copies sessionId (nextId + 1) rows

section

variable {sessionId : String} {nextId : Nat} {rows : List MessageRow} {m : MessageRow}

theorem mem_copies (h : m ∈ copies sessionId nextId rows) :
    m.sessionId = sessionId ∧ nextId ≤ m.id ∧ m.id < nextId + rows.length := by
  induction rows generalizing nextId with
  | nil => cases h
  | cons row rows ih =>
    rw [length_cons]
    rcases mem_cons.1 h with rfl | h
    · exact ⟨rfl, le_rfl, by simp [MessageRow.copied]⟩
    · obtain ⟨hsession, hle, hlt⟩ := ih h
      exact ⟨hsession, by omega, by omega⟩

theorem sorted_copies : (copies sessionId nextId rows).Pairwise fun a b => a.id < b.id := by
  induction rows generalizing nextId with
  | nil => exact List.Pairwise.nil
  | cons row rows ih =>
    refine List.Pairwise.cons (fun m hm => ?_) ih
    have hle := (mem_copies hm).2.1
    change nextId < m.id
    omega

end

namespace SessionStore

variable (s : SessionStore) (sessionId : String)

def rowsOf : List MessageRow := s.messages.filter (·.sessionId = sessionId)

/-! ## The methods -/

def historyBySession (limit : Nat) : List HistoryMessage :=
  (lastRows (·.isLive) limit (s.rowsOf sessionId)).map (·.history)

def timelineBySession (parse : String → Option Json) (limit : Nat) : List ThreadEvent :=
  (lastRows (!·.summarized) limit (s.rowsOf sessionId)).map (·.event parse)

def systemMessagesBySession (parse : String → Option Json) (limit : Nat) :
    List SessionMessageRow :=
  (firstRows (·.isSystem) limit (s.rowsOf sessionId)).map (·.feedRow parse)

def conversationMessagesBySession (parse : String → Option Json) (limit : Nat) :
    List SessionMessageRow :=
  (firstRows (·.isConversation) limit (s.rowsOf sessionId)).map (·.feedRow parse)

/-- All but the first and the last of the live messages are marked; how many are is returned. -/
def summarizeRangeBySession (preserveHead preserveTail : Nat) : Nat × SessionStore :=
  let live := (s.rowsOf sessionId).filter (·.isLive)
  let keepIds := (limited preserveHead live).map (·.id) ++
    (limited preserveTail live.reverse).map (·.id)
  let marked (m : MessageRow) : Bool :=
    m.sessionId = sessionId ∧ m.isLive ∧ m.id ∉ keepIds
  (s.messages.countP marked,
    { s with
      messages := s.messages.map fun m => if marked m then { m with summarized := true } else m
      sorted := by
        refine List.pairwise_map.2 (s.sorted.imp fun h => ?_)
        split <;> split <;> exact h
      drawn := by
        intro m hm
        obtain ⟨old, hold, rfl⟩ := List.mem_map.1 hm
        have hlt := s.drawn old hold
        split <;> exact hlt })

def forkSession (upToMessageId : Int) (newId : String) : Except Failure (String × SessionStore) :=
  match s.sessions.lookup sessionId with
  | none => .error .queryReturnedNoRows
  | some row =>
    match row.agentId with
    | none => .error (.invalidColumnType 0 "agent_id")
    | some agentId =>
      if (s.sessions.lookup newId).isSome then .error (.sqlite .primaryKey)
      else
        let rows := (s.rowsOf sessionId).filter fun m => (m.id : Int) ≤ upToMessageId
        .ok (newId,
          { sessions := s.sessions.insert newId
              { agentId := some agentId, sessionType := "interactive",
                name := row.name ++ " (fork)", status := "active", parentId := some sessionId }
            messages := s.messages ++ copies newId s.nextId rows
            nextId := s.nextId + rows.length
            sorted := by
              refine List.pairwise_append.2 ⟨s.sorted, sorted_copies, fun a ha b hb => ?_⟩
              exact Nat.lt_of_lt_of_le (s.drawn a ha) (mem_copies hb).2.1
            drawn := by
              intro m hm
              rcases List.mem_append.1 hm with hm | hm
              · exact Nat.lt_of_lt_of_le (s.drawn m hm) (Nat.le_add_right _ _)
              · exact (mem_copies hm).2.2 })

def upTo (id : Int) : SessionStore where
  sessions := s.sessions
  messages := s.messages.filter fun m => m.sessionId = sessionId → (m.id : Int) ≤ id
  nextId := s.nextId
  sorted := s.sorted.sublist List.filter_sublist
  drawn := fun m hm => s.drawn m (List.mem_filter.1 hm).1

end SessionStore

/-! ## Preservation -/

def HistoryMessage.bare (h : HistoryMessage) : HistoryMessage := { h with sessionId := "" }

def ThreadEvent.bare (e : ThreadEvent) : ThreadEvent := { e with id := 0, sessionId := "" }

def SessionMessageRow.bare (r : SessionMessageRow) : SessionMessageRow :=
  { r with id := 0, sessionId := "" }

def MessageRow.bare (m : MessageRow) : MessageRow := { m with id := 0, sessionId := "" }

structure SameFeeds (parse : String → Option Json) (s : SessionStore) (sessionId : String)
    (s' : SessionStore) (sessionId' : String) : Prop where
  history : ∀ limit, (s.historyBySession sessionId limit).map (·.bare) =
    (s'.historyBySession sessionId' limit).map (·.bare)
  timeline : ∀ limit, (s.timelineBySession sessionId parse limit).map (·.bare) =
    (s'.timelineBySession sessionId' parse limit).map (·.bare)
  system : ∀ limit, (s.systemMessagesBySession sessionId parse limit).map (·.bare) =
    (s'.systemMessagesBySession sessionId' parse limit).map (·.bare)
  conversation : ∀ limit, (s.conversationMessagesBySession sessionId parse limit).map (·.bare) =
    (s'.conversationMessagesBySession sessionId' parse limit).map (·.bare)
  summarized : (s.rowsOf sessionId).map (·.summarized) =
    (s'.rowsOf sessionId').map (·.summarized)

def ForkPreserves (parse : String → Option Json) (s : SessionStore) (sessionId : String)
    (upToMessageId : Int) (newId : String) : Prop :=
  ∃ s', s.forkSession sessionId upToMessageId newId = .ok (newId, s') ∧
    SameFeeds parse s' newId (s.upTo sessionId upToMessageId) sessionId

def Copyable (s : SessionStore) (sessionId : String) (upToMessageId : Int) : Prop :=
  (∃ row agentId, s.sessions.lookup sessionId = some row ∧ row.agentId = some agentId) ∧
    ∀ m ∈ s.rowsOf sessionId, (m.id : Int) ≤ upToMessageId →
      m.summarized = false ∧ m.fromKind = none ∧ m.fromId = none

/-- A uuid that has just been drawn. -/
structure Unused (s : SessionStore) (newId : String) : Prop where
  sessions : s.sessions.lookup newId = none
  messages : ∀ m ∈ s.messages, m.sessionId ≠ newId

/-! ### Rows that differ in their ids only -/

section

variable {p : MessageRow → Bool} {limit : Nat} {rows : List MessageRow} {m : MessageRow}
  {sessionId : String} {nextId : Nat}

theorem map_limited {α β : Type} {f : α → β} {xs : List α} :
    (limited limit xs).map f = limited limit (xs.map f) := by
  unfold limited
  split
  · exact map_take
  · rfl

theorem map_firstRows (hp : ∀ m : MessageRow, p m.bare = p m) :
    (firstRows p limit rows).map (·.bare) = firstRows p limit (rows.map (·.bare)) := by
  unfold firstRows
  rw [map_limited, filter_map]
  congr 2
  exact filter_congr fun m _ => (hp m).symm

theorem map_lastRows (hp : ∀ m : MessageRow, p m.bare = p m) :
    (lastRows p limit rows).map (·.bare) = lastRows p limit (rows.map (·.bare)) := by
  unfold lastRows
  rw [map_reverse, map_limited, map_reverse, filter_map]
  congr 4
  exact filter_congr fun m _ => (hp m).symm

theorem copied_bare (hsummarized : m.summarized = false) (hkind : m.fromKind = none)
    (hid : m.fromId = none) : (m.copied sessionId nextId).bare = m.bare := by
  unfold MessageRow.copied MessageRow.bare
  rw [hsummarized, hkind, hid]

theorem copies_bare
    (h : ∀ m ∈ rows, m.summarized = false ∧ m.fromKind = none ∧ m.fromId = none) :
    (copies sessionId nextId rows).map (·.bare) = rows.map (·.bare) := by
  induction rows generalizing nextId with
  | nil => rfl
  | cons m rows ih =>
    obtain ⟨hsummarized, hkind, hid⟩ := h m mem_cons_self
    rw [copies, map_cons, map_cons, copied_bare hsummarized hkind hid,
      ih fun m hm => h m (mem_cons_of_mem _ hm)]

theorem copies_plain (h : m ∈ copies sessionId nextId rows) :
    m.summarized = false ∧ m.fromKind = none ∧ m.fromId = none := by
  induction rows generalizing nextId with
  | nil => cases h
  | cons row rows ih =>
    rcases mem_cons.1 h with rfl | h
    · exact ⟨rfl, rfl, rfl⟩
    · exact ih h

end

/-! ### What a fork leaves -/

section

variable {parse : String → Option Json} {s s' : SessionStore} {sessionId sessionId' newId : String}
  {upToMessageId : Int}

theorem rowsOf_upTo : (s.upTo sessionId upToMessageId).rowsOf sessionId =
    (s.rowsOf sessionId).filter fun m => (m.id : Int) ≤ upToMessageId := by
  unfold SessionStore.rowsOf SessionStore.upTo
  rw [filter_filter, filter_filter]
  refine filter_congr fun m _ => ?_
  by_cases hsession : m.sessionId = sessionId <;> simp [hsession]

theorem forkSession_ok (hnew : Unused s newId)
    (hfork : s.forkSession sessionId upToMessageId newId = .ok (newId, s')) :
    (∃ row agentId, s.sessions.lookup sessionId = some row ∧ row.agentId = some agentId) ∧
      s'.rowsOf newId = copies newId s.nextId
        ((s.rowsOf sessionId).filter fun m => (m.id : Int) ≤ upToMessageId) := by
  unfold SessionStore.forkSession at hfork
  cases hrow : s.sessions.lookup sessionId with
  | none => rw [hrow] at hfork; cases hfork
  | some row =>
    cases hagent : row.agentId with
    | none => simp only [hrow, hagent] at hfork; cases hfork
    | some agentId =>
      simp only [hrow, hagent, hnew.sessions] at hfork
      cases hfork
      refine ⟨⟨row, agentId, rfl, hagent⟩, ?_⟩
      change (s.messages ++ copies newId s.nextId _).filter _ = _
      have hold : (s.messages.filter fun m => m.sessionId = newId) = [] :=
        filter_eq_nil_iff.2 fun m hm => by simpa using hnew.messages m hm
      rw [filter_append, hold]
      exact filter_eq_self.2 fun m hm => decide_eq_true (mem_copies hm).1

theorem forkSession_isOk (hnew : Unused s newId) {row : SessionRow} {agentId : String}
    (hrow : s.sessions.lookup sessionId = some row) (hagent : row.agentId = some agentId) :
    ∃ s', s.forkSession sessionId upToMessageId newId = .ok (newId, s') := by
  unfold SessionStore.forkSession
  simp only [hrow, hagent, hnew.sessions]
  exact ⟨_, rfl⟩

theorem sameFeeds_of_bare
    (h : (s.rowsOf sessionId).map (·.bare) = (s'.rowsOf sessionId').map (·.bare)) :
    SameFeeds parse s sessionId s' sessionId' := by
  have hlast : ∀ (p : MessageRow → Bool) (_ : ∀ m : MessageRow, p m.bare = p m) limit,
      (lastRows p limit (s.rowsOf sessionId)).map (·.bare) =
        (lastRows p limit (s'.rowsOf sessionId')).map (·.bare) := by
    intro p hp limit
    rw [map_lastRows hp, map_lastRows hp, h]
  have hfirst : ∀ (p : MessageRow → Bool) (_ : ∀ m : MessageRow, p m.bare = p m) limit,
      (firstRows p limit (s.rowsOf sessionId)).map (·.bare) =
        (firstRows p limit (s'.rowsOf sessionId')).map (·.bare) := by
    intro p hp limit
    rw [map_firstRows hp, map_firstRows hp, h]
  refine ⟨fun limit => ?_, fun limit => ?_, fun limit => ?_, fun limit => ?_, ?_⟩
  · have hview := congrArg (List.map fun m : MessageRow => m.history)
      (hlast (·.isLive) (fun _ => rfl) limit)
    rw [map_map, map_map] at hview
    unfold SessionStore.historyBySession
    rw [map_map, map_map]
    exact hview
  · have hview := congrArg (List.map fun m : MessageRow => m.event parse)
      (hlast (!·.summarized) (fun _ => rfl) limit)
    rw [map_map, map_map] at hview
    unfold SessionStore.timelineBySession
    rw [map_map, map_map]
    exact hview
  · have hview := congrArg (List.map fun m : MessageRow => m.feedRow parse)
      (hfirst (·.isSystem) (fun _ => rfl) limit)
    rw [map_map, map_map] at hview
    unfold SessionStore.systemMessagesBySession
    rw [map_map, map_map]
    exact hview
  · have hview := congrArg (List.map fun m : MessageRow => m.feedRow parse)
      (hfirst (·.isConversation) (fun _ => rfl) limit)
    rw [map_map, map_map] at hview
    unfold SessionStore.conversationMessagesBySession
    rw [map_map, map_map]
    exact hview
  · have hview := congrArg (List.map fun m : MessageRow => m.summarized) h
    rwa [map_map, map_map] at hview

theorem timeline_unlimited : s.timelineBySession sessionId parse 9223372036854775808 =
    ((s.rowsOf sessionId).filter (!·.summarized)).map (·.event parse) := by
  unfold SessionStore.timelineBySession lastRows limited
  rw [if_neg (by decide), reverse_reverse]

end

/-- A fork shows what the session did if and only if the session has an agent and no message that
is copied has been summarized or carries its sender. -/
theorem fork_preserves_iff {parse : String → Option Json} {s : SessionStore}
    {sessionId newId : String} {upToMessageId : Int} (hnew : Unused s newId) :
    ForkPreserves parse s sessionId upToMessageId newId ↔ Copyable s sessionId upToMessageId := by
  constructor
  · intro ⟨s', hfork, hsame⟩
    obtain ⟨hagent, hrows⟩ := forkSession_ok hnew hfork
    refine ⟨hagent, ?_⟩
    set kept := (s.rowsOf sessionId).filter fun m => (m.id : Int) ≤ upToMessageId with hkept
    have hsummarized := hsame.summarized
    have htimeline := hsame.timeline 9223372036854775808
    rw [timeline_unlimited, timeline_unlimited, rowsOf_upTo, hrows] at htimeline
    rw [rowsOf_upTo, hrows] at hsummarized
    have hplain : ∀ m ∈ kept, m.summarized = false := by
      intro m hm
      have hmem : m.summarized ∈ kept.map (·.summarized) := mem_map_of_mem hm
      rw [← hsummarized] at hmem
      obtain ⟨copy, hcopy, heq⟩ := mem_map.1 hmem
      exact heq ▸ (copies_plain hcopy).1
    intro m hm hle
    have hmem : m ∈ kept := mem_filter.2 ⟨hm, decide_eq_true hle⟩
    have hshown : (m.event parse).bare ∈
        ((kept.filter (!·.summarized)).map (·.event parse)).map (·.bare) :=
      mem_map_of_mem (mem_map_of_mem (mem_filter.2 ⟨hmem, by simp [hplain m hmem]⟩))
    rw [← htimeline] at hshown
    obtain ⟨e, he, heq⟩ := mem_map.1 hshown
    obtain ⟨copy, hcopy, rfl⟩ := mem_map.1 he
    obtain ⟨-, hkind, hid⟩ := copies_plain (mem_filter.1 hcopy).1
    refine ⟨hplain m hmem, ?_, ?_⟩
    · exact (congrArg ThreadEvent.fromKind heq).symm.trans hkind
    · exact (congrArg ThreadEvent.fromId heq).symm.trans hid
  · intro ⟨⟨row, agentId, hrow, hagent⟩, hplain⟩
    obtain ⟨s', hfork⟩ :
        ∃ s', s.forkSession sessionId upToMessageId newId = .ok (newId, s') :=
      forkSession_isOk hnew hrow hagent
    refine ⟨s', hfork, sameFeeds_of_bare ?_⟩
    rw [(forkSession_ok hnew hfork).2, rowsOf_upTo]
    refine copies_bare fun m hm => ?_
    obtain ⟨hmem, hle⟩ := mem_filter.1 hm
    exact hplain m hmem (of_decide_eq_true hle)

/-- A question and an answer by a channel, and a second question. -/
def chat : SessionStore where
  sessions := (∅ : Accounts String SessionRow).insert "sess-1"
    { agentId := some "agent-1", sessionType := "interactive", name := "chat" }
  messages :=
    [{ Recording.messageRow 0 "sess-1" "ada" "web" "user" "hi" none with id := 1 },
      { Recording.messageRow 1 "sess-1" "agent-1" "web" "assistant" "hello" none with id := 2 },
      { Recording.messageRow 2 "sess-1" "ada" "web" "user" "what now?" none with id := 3 }].map
      fun m => { m with }
  nextId := 4
  sorted := by decide
  drawn := by decide

theorem chat_fork_preserves : ForkPreserves (fun _ => none) chat "sess-1" 2 "fork-1" :=
  (fork_preserves_iff ⟨rfl, by decide⟩).2
    ⟨⟨_, "agent-1", rfl, rfl⟩, by decide⟩

/-- Of the chat, whose second message has been summarized, the fork shows all three. -/
theorem summarized_fork_differs :
    ¬ ForkPreserves (fun _ => none) (chat.summarizeRangeBySession "sess-1" 1 1).2 "sess-1" 3
      "fork-1" := by
  intro ⟨s', hfork, hsame⟩
  have hnew : Unused (chat.summarizeRangeBySession "sess-1" 1 1).2 "fork-1" := ⟨rfl, by decide⟩
  have hhistory := hsame.history 10
  unfold SessionStore.historyBySession at hhistory
  rw [(forkSession_ok hnew hfork).2] at hhistory
  exact nomatch hhistory

end Aeqi.Forking
