import Aeqi.Sessions.Delivery

/-!
# Whom a message reaches

The rows of a session are for different agents, and some are quests. A claim spawns the agent
its row is for; an injection hands the whole line to the agent that happens to run. So the rows
reach the agents they are for exactly when every injection finds nothing but messages to the
running agent.
-/

namespace Aeqi.Sessions

open Aeqi.Lib List Option

section Addressing

variable {α : Type} (resolve : String → α) (fromPayload : String → Option QueuedMessage)

/-- The agent that the run of a claim is a run of; `resolve` is the agent a hint stands for. -/
def runAgent (sessionId : String) (claim : PendingClaim) : Option α :=
  (execute fromPayload sessionId claim).map fun request => resolve request.agentHint

def Taken.Reaches (sessionId : String) (m : QueuedMessage) : Taken → Prop
  | .claimed row =>
    runAgent resolve fromPayload sessionId row = some (resolve m.agentHint) ∧
      (m.kind = some "quest" →
        ∃ request ∈ execute fromPayload sessionId row, request.questId.isSome)
  | .injected _ claim =>
    runAgent resolve fromPayload sessionId claim = some (resolve m.agentHint) ∧
      m.kind ≠ some "quest"

def Delivered (sessionId : String) (t : Taken) : Prop :=
  ∀ m ∈ fromPayload t.row.payload, t.Reaches resolve fromPayload sessionId m

/-- A quest that is claimed names its quest, and whatever is queued behind a run that injects is
a message to the running agent and no quest. -/
def Daemon.Addressed (d : Daemon) : Event → Prop
  | .claim i =>
    match d.tasks[i]? with
    | some ⟨sessionId, .claiming⟩ => d.store.rows sessionId .running = [] →
        ∀ row ∈ (d.store.line sessionId).head?, ∀ m ∈ fromPayload row.payload,
          m.kind = some "quest" → m.questId.isSome
    | _ => True
  | .inject i _ =>
    match d.tasks[i]? with
    | some ⟨sessionId, .executing claim _⟩ =>
      ∀ row ∈ d.store.line sessionId, ∀ m ∈ fromPayload row.payload,
        (fromPayload claim.payload).map (resolve ·.agentHint) = some (resolve m.agentHint) ∧
          m.kind ≠ some "quest"
    | _ => True
  | _ => True

instance [DecidableEq α] (d : Daemon) (e : Event) :
    Decidable (d.Addressed resolve fromPayload e) := by
  unfold Daemon.Addressed
  split
  · split <;> infer_instance
  · split <;> infer_instance
  · infer_instance

variable {resolve fromPayload} {d d' : Daemon} {s : SessionStore} {sessionId : String}
  {hist : List (Daemon × Event)}

theorem runAgent_eq (claim : PendingClaim) :
    runAgent resolve fromPayload sessionId claim =
      (fromPayload claim.payload).map (resolve ·.agentHint) := by
  unfold runAgent execute
  cases fromPayload claim.payload <;> rfl

theorem delivered_claimed {row : PendingClaim} :
    Delivered resolve fromPayload sessionId (.claimed row) ↔
      ∀ m ∈ fromPayload row.payload, m.kind = some "quest" → m.questId.isSome := by
  refine forall₂_congr fun m hm => ?_
  have hparse : fromPayload row.payload = some m := hm
  have hexecute : execute fromPayload sessionId row = some
      ⟨m.agentHint, m.message, sessionId, row.id, if m.isQuest then m.questId else none⟩ := by
    rw [execute, hparse]
    rfl
  rw [Taken.Reaches, runAgent_eq, hparse, hexecute]
  constructor
  · rintro ⟨-, hquest⟩ hkind
    obtain ⟨request, hrequest, hid⟩ := hquest hkind
    obtain rfl := some.inj hrequest
    split at hid
    · exact hid
    · cases hid
  · intro hquest
    refine ⟨rfl, fun hkind => ⟨_, rfl, ?_⟩⟩
    simp [QueuedMessage.isQuest, hkind, hquest hkind]

theorem delivered_injected {row claim : PendingClaim} :
    Delivered resolve fromPayload sessionId (.injected row claim) ↔ ∀ m ∈ fromPayload row.payload,
        (fromPayload claim.payload).map (resolve ·.agentHint) = some (resolve m.agentHint) ∧
          m.kind ≠ some "quest" := by
  simp [Delivered, Taken.Reaches, runAgent_eq, Taken.row]

theorem Daemon.Inv.delivers_iff (h : d.Inv) {e : Event} (hmoves : Moves fromPayload d e d') :
    (∀ sessionId, ∀ t ∈ d.takes sessionId e, Delivered resolve fromPayload sessionId t) ↔
      d.Addressed resolve fromPayload e := by
  cases hmoves with
  | insert | spawn | executed | delete => exact ⟨fun _ => trivial, fun _ _ t ht => by cases ht⟩
  | @claim i session claim store l₁ l₂ tasks hi hsplit hclaim =>
    have hclaims := h.ordered.claimNextPending hclaim
    have hidle : d.store.rows session .running = [] := map_eq_nil_iff.1 hclaims.idle
    simp only [takes, Addressed, hi, hclaim, hidle, hclaims.head, head?_cons, forall_const, mem_some_iff, forall_eq']
    rw [← @delivered_claimed _ resolve fromPayload session claim]
    constructor
    · intro hall
      exact hall session (.claimed claim) (by rw [if_pos rfl]; exact mem_singleton_self _)
    · intro hdelivered sessionId t ht
      split at ht
      · next heq =>
        obtain rfl := mem_singleton.1 ht
        exact heq ▸ hdelivered
      · cases ht
  | @finish i session store l₁ l₂ tasks hi hsplit hclaim =>
    obtain ⟨-, hnone⟩ := SessionStore.claimNextPending_none hclaim
    simp only [takes, Addressed, hi, hclaim, map_none, toList_none, ite_self]
    refine ⟨fun _ hidle row hrow => ?_, fun _ _ t ht => by cases ht⟩
    rcases hnone with hrunning | hempty
    · exact absurd (congrArg (List.map _) hidle) hrunning
    · rw [← SessionStore.line_ids, map_eq_nil_iff] at hempty
      rw [hempty] at hrow
      cases hrow
  | @inject i sinceId session claim messages l₁ l₂ tasks hi hsince hsplit =>
    have hinjectable := SessionStore.injectable_eq (h.since_ahead hi hsince)
    simp only [takes, Addressed, hi, hinjectable]
    constructor
    · intro hall row hrow
      obtain ⟨p, hp, rfl⟩ := List.mem_map.1 hrow
      refine delivered_injected.1 (hall session (.injected ⟨p.id, p.payload⟩ claim) ?_)
      rw [if_pos rfl]
      exact List.mem_map_of_mem hp
    · intro hall sessionId t ht
      split at ht
      · obtain ⟨p, hp, rfl⟩ := List.mem_map.1 ht
        exact delivered_injected.2 (hall ⟨p.id, p.payload⟩ (List.mem_map_of_mem hp))
      · cases ht

/-! ## Runs that have been started -/

theorem runs_started (hd : d.tasks = [])
    (run : Run (Daemon.Step fromPayload) d hist d') :
    (∀ t ∈ d'.tasks, ∀ claim messages, t.phase = .executing claim messages →
      .claimed claim ∈ taken t.sessionId hist) ∧
    ∀ sessionId row claim, .injected row claim ∈ taken sessionId hist →
      .claimed claim ∈ taken sessionId hist := by
  induction run with
  | nil =>
    refine ⟨fun t ht => ?_, fun _ _ _ hrow => by cases hrow⟩
    rw [hd] at ht
    cases ht
  | @step hist t t' e run hstep ih =>
    obtain ⟨hexecuting, hinjected⟩ := ih
    have hold : ∀ {sessionId x}, x ∈ taken sessionId hist → x ∈ taken sessionId ((t, e) :: hist) :=
      mem_append_left _
    have hcases : ∀ {sessionId row claim}, .injected row claim ∈ taken sessionId ((t, e) :: hist) →
          (.injected row claim ∈ t.takes sessionId e → .claimed claim ∈ taken sessionId hist) →
            .claimed claim ∈ taken sessionId ((t, e) :: hist) := by
      intro sessionId row claim hrow hnew
      rcases mem_append.1 hrow with hrow | hrow
      · exact hold (hinjected sessionId row claim hrow)
      · exact hold (hnew hrow)
    cases Daemon.moves hstep with
    | insert =>
      exact ⟨fun u hu c ms hphase => hold (hexecuting u hu c ms hphase),
        fun _ _ _ hrow => hcases hrow fun hnew => by cases hnew⟩
    | spawn =>
      refine ⟨fun u hu c ms hphase => ?_, fun _ _ _ hrow => hcases hrow fun hnew => by cases hnew⟩
      rcases mem_append.1 hu with hu | hu
      · exact hold (hexecuting u hu c ms hphase)
      · rw [mem_singleton.1 hu] at hphase
        cases hphase
    | @claim i session claim store l₁ l₂ tasks hi hsplit hclaim =>
      constructor
      · intro u hu c ms hphase
        rcases hsplit.mem hu with rfl | hu
        · cases hphase
          refine mem_append_right _ ?_
          simp [Daemon.takes, hi, hclaim]
        · exact hold (hexecuting u hu c ms hphase)
      · refine fun _ _ _ hrow => hcases hrow fun hnew => ?_
        simp only [Daemon.takes, hi, hclaim] at hnew
        split at hnew
        · cases mem_singleton.1 hnew
        · cases hnew
    | @finish i session store l₁ l₂ tasks hi hsplit hclaim =>
      constructor
      · intro u hu c ms hphase
        rcases hsplit.mem hu with rfl | hu
        · cases hphase
        · exact hold (hexecuting u hu c ms hphase)
      · refine fun _ _ _ hrow => hcases hrow fun hnew => ?_
        simp [Daemon.takes, hi] at hnew
    | @inject i sinceId session claim messages l₁ l₂ tasks hi hsince hsplit =>
      have hclaimed := hexecuting _ (mem_of_getElem? hi) claim messages rfl
      constructor
      · intro u hu c ms hphase
        rcases hsplit.mem hu with rfl | hu
        · cases hphase
          exact hold hclaimed
        · exact hold (hexecuting u hu c ms hphase)
      · refine fun _ _ _ hrow => hcases hrow fun hnew => ?_
        simp only [Daemon.takes, hi] at hnew
        split at hnew
        · next heq =>
          obtain ⟨p, -, hp⟩ := List.mem_map.1 hnew
          cases hp
          exact heq ▸ hclaimed
        · cases hnew
    | @executed i ok session claim messages l₁ l₂ tasks hsplit
    | @delete i session claim l₁ l₂ tasks hsplit =>
      refine ⟨fun u hu c ms hphase => ?_, fun _ _ _ hrow => hcases hrow fun hnew => by cases hnew⟩
      rcases hsplit.mem hu with rfl | hu
      · cases hphase
      · exact hold (hexecuting u hu c ms hphase)

theorem Daemon.Inv.run_delivers_iff (h : d.Inv) (run : Run (Daemon.Step fromPayload) d hist d') :
    (∀ e ∈ hist, e.1.Addressed resolve fromPayload e.2) ↔
      ∀ sessionId, ∀ t ∈ taken sessionId hist, Delivered resolve fromPayload sessionId t := by
  induction run with
  | nil =>
    exact ⟨fun _ _ _ ht => (not_mem_nil ht).elim, fun _ _ he => (not_mem_nil he).elim⟩
  | @step hist t t' e run hstep ih =>
    rw [forall_mem_cons, ih, ← (h.run run).delivers_iff (Daemon.moves hstep)]
    simp only [taken, forall_mem_append, forall_and, and_comm]

/-- **Messages reach the agents they are for** exactly when no injection finds a quest or a message
to another agent behind the run, and no quest is claimed that does not name its quest. -/
theorem messages_reach_agents (hs : s.Ordered)
    (run : Run (Daemon.Step fromPayload) (.boot s) hist d) :
    ((∀ e ∈ hist, e.1.Addressed resolve fromPayload e.2) ↔
      ∀ sessionId, ∀ t ∈ taken sessionId hist, Delivered resolve fromPayload sessionId t) ∧
    ((∀ e ∈ hist, e.1.Addressed resolve fromPayload e.2) →
      ∀ sessionId, d.Quiet sessionId → ∀ getActiveByName mentions body,
        (∀ m ∈ wireAtMentionsInMessage getActiveByName mentions body,
          ∃ row ∈ inserted sessionId hist, fromPayload row.payload = some m) →
        ∀ mention ∈ mentions, ∀ agentId ∈ mention.agent getActiveByName,
          ∃ claim, .claimed claim ∈ taken sessionId hist ∧
            runAgent resolve fromPayload sessionId claim = some (resolve agentId)) := by
  have hboot := Daemon.boot_inv hs
  have hiff : (∀ e ∈ hist, e.1.Addressed resolve fromPayload e.2) ↔
      ∀ sessionId, ∀ t ∈ taken sessionId hist, Delivered resolve fromPayload sessionId t :=
    hboot.run_delivers_iff run
  refine ⟨hiff, fun haddressed sessionId hquiet getActiveByName mentions body hinserted mention
    hmention agentId hagent => ?_⟩
  obtain ⟨-, -, hline, -, hempty⟩ := queue_delivers hs run sessionId
  rw [hempty hquiet, append_nil] at hline
  have hwired : QueuedMessage.chat agentId body ∈
      wireAtMentionsInMessage getActiveByName mentions body :=
    mem_filterMap.2 ⟨mention, hmention, by rw [hagent]; rfl⟩
  obtain ⟨row, hrow, hparse⟩ := hinserted _ hwired
  have hmem : row ∈ (taken sessionId hist).map Taken.row := by
    rw [hline]
    exact mem_append_right _ hrow
  obtain ⟨t, ht, rfl⟩ := List.mem_map.1 hmem
  have hdelivered := hiff.1 haddressed sessionId t ht _ hparse
  cases t with
  | claimed row => exact ⟨row, ht, hdelivered.1⟩
  | injected row claim =>
    exact ⟨claim, (runs_started rfl run).2 sessionId row claim ht, hdelivered.1⟩

end Addressing

def mentionPayload (agentHint message : String) : String :=
  "\x7b\"agent_hint\":\"" ++ agentHint ++ "\",\"message\":\"" ++ message ++
    "\",\"sender_id\":null,\"transport\":\"mention\",\"kind\":null,\"quest_id\":null," ++
    "\"creator_session_id\":null,\"budget_usd\":null,\"initial_message_recorded\":true," ++
    "\"source_user_id\":null\x7d"

def bothBody : String := "@agent:ada @agent:bob please look"

def adaPayload : String := mentionPayload "ada" bothBody

def bobPayload : String := mentionPayload "bob" bothBody

def bothFromPayload (text : String) : Option QueuedMessage :=
  if text = adaPayload then some (.chat "ada" bothBody)
  else if text = bobPayload then some (.chat "bob" bothBody)
  else none

/-- The run of the first agent returns before its next step boundary. -/
def bothRun : List Event :=
  [.insert "s" adaPayload, .spawn "s", .insert "s" bobPayload, .spawn "s", .claim 0,
    .executed 0 true, .delete 0, .claim 0, .claim 1, .executed 0 true, .delete 0, .claim 0]

theorem bothRun_reaches : ∃ hist d, Run (Daemon.Step bothFromPayload) (.boot {}) hist d ∧
    (∀ t ∈ taken "s" hist, Delivered id bothFromPayload "s" t) ∧
    ∀ agentId ∈ ["ada", "bob"], ∃ claim, .claimed claim ∈ taken "s" hist ∧
      runAgent id bothFromPayload "s" claim = some agentId := by
  have hfacts : (traceAll (Daemon.exec bothFromPayload) [] (.boot {}) bothRun).toOption.map
      (fun r => decide ((∀ e ∈ r.1, e.1.Addressed id bothFromPayload e.2) ∧ r.2.Quiet "s" ∧
        inserted "s" r.1 = [⟨1, adaPayload⟩, ⟨2, bobPayload⟩])) = some true := by decide +kernel
  obtain ⟨⟨hist, d⟩, htrace, hgood⟩ := toOption_map_eq_some.1 hfacts
  obtain ⟨haddressed, hquiet, hinserted⟩ := of_decide_eq_true hgood
  have run := Run.nil.traceAll htrace
  have hordered : SessionStore.Ordered {} :=
    ⟨List.Pairwise.nil, nofun⟩
  obtain ⟨hiff, hmentions⟩ := messages_reach_agents hordered run
  refine ⟨hist, d, run, hiff.1 haddressed "s", fun agentId hagent => ?_⟩
  refine hmentions haddressed "s" hquiet (fun _ => none) [⟨.agent, "ada"⟩, ⟨.agent, "bob"⟩] bothBody
    ?_ ⟨.agent, agentId⟩ ?_ agentId rfl
  · rw [hinserted]
    decide +kernel
  · simpa using hagent

/-- One message mentions two agents, and the run of the first takes the row of the second. -/
theorem not_messages_reach_agents : ∃ hist d,
    Run (Daemon.Step bothFromPayload) (.boot {}) hist d ∧ d.Quiet "s" ∧
    inserted "s" hist = [⟨1, adaPayload⟩, ⟨2, bobPayload⟩] ∧
    ¬ (∀ t ∈ taken "s" hist, Delivered id bothFromPayload "s" t) ∧
    ∀ claim, .claimed claim ∈ taken "s" hist → runAgent id bothFromPayload "s" claim ≠ some "bob" := by
  have hfacts : (traceAll (Daemon.exec bothFromPayload) [] (.boot {})
      [.insert "s" adaPayload, .spawn "s", .insert "s" bobPayload, .spawn "s", .claim 0, .claim 1,
        .inject 0 1, .executed 0 true, .delete 0, .claim 0]).toOption.map
      (fun r => decide (r.2.Quiet "s" ∧ inserted "s" r.1 = [⟨1, adaPayload⟩, ⟨2, bobPayload⟩] ∧
        taken "s" r.1 = [.claimed ⟨1, adaPayload⟩,
          .injected ⟨2, bobPayload⟩ ⟨1, adaPayload⟩])) = some true := by decide +kernel
  obtain ⟨⟨hist, d⟩, htrace, hgood⟩ := toOption_map_eq_some.1 hfacts
  obtain ⟨hquiet, hinserted, htaken⟩ := of_decide_eq_true hgood
  refine ⟨hist, d, Run.nil.traceAll htrace, hquiet, hinserted, ?_, ?_⟩
  · intro hall
    rw [htaken] at hall
    have hbob := hall (.injected ⟨2, bobPayload⟩ ⟨1, adaPayload⟩) (by simp)
    exact absurd (hbob (.chat "bob" bothBody) (by decide +kernel)).1 (by decide +kernel)
  · intro claim hclaim
    rw [htaken] at hclaim
    obtain rfl : claim = ⟨1, adaPayload⟩ := by simpa using hclaim
    decide +kernel

end Aeqi.Sessions
