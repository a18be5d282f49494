import Aeqi.Orchestrator.Visibility

/-!
# Context assembly

`assemble_ideas_for_patterns` of `idea_assembly.rs`: a walk from the root to the target agent
that dispatches, at each agent on the way, the events its own visibility fragment admits. The
set of seen events starts anew at each agent, so an event is dispatched as often as there are
agents on the way that see it (`count_dispatched`).

The task ideas that are appended at the end, the tool restrictions they bring and the trace
rows of a dispatch are left out; what a dispatch answers is a parameter.
-/

namespace Aeqi.Orchestrator

open Aeqi.Lib
open Option (any_some bind_eq_some_iff)

structure ToolCall where
  tool : String
  args : String
  deriving DecidableEq

/-- The columns that assembly reads. -/
structure Event where
  id : String
  agentId : Option String := none
  scope : Scope := .self
  name : String
  pattern : String
  toolCalls : List ToolCall := []
  enabled : Bool := true
  deriving DecidableEq

def Event.anchored (e : Event) : Anchored := { scope := e.scope, agentId := e.agentId }

structure EventTable where
  rows : List Event
  nodup : (rows.map Event.id).Nodup

/-- `.. AND enabled = 1 AND pattern LIKE '{pattern}%' ORDER BY name`. -/
def EventTable.getEventsForPatternVisible (events : EventTable) (c : VisibilityClause)
    (pattern : String) : List Event :=
  (events.rows.filter fun e =>
      c.admits e.anchored && e.enabled && like e.pattern (pattern ++ "%")).mergeSort
    fun e e' => e.name ≤ e'.name

/-- The agents of `get_ancestor_ids` that have a row. -/
def RoleStore.getAncestors (s : RoleStore) (agents : List String) (agentId : String) :
    Option (List String) :=
  (s.getAncestorIds agentId).map fun ids => ids.filter fun id => id ∈ agents

/-! ## Dispatch -/

/-- The segments that an event's calls append, and whether there are any. -/
structure EventToolCallOutcome where
  parts : List String := []
  producedOutput : Bool := false

/-- `dispatch_event_tool_calls`; its answer may depend on what was dispatched before. -/
abbrev ToolDispatch := List Event → Event → EventToolCallOutcome

/-- What the walk has done so far. -/
structure AssembledContext where
  dispatched : List Event := []
  parts : List String := []
  firedEventIds : List String := []

def dispatchEvent (toolDispatch : Option ToolDispatch) (ctx : AssembledContext) (e : Event) :
    AssembledContext :=
  if e.toolCalls = [] then ctx
  else
    match toolDispatch with
    -- a warning only
    | none => ctx
    | some dispatch =>
      let outcome := dispatch ctx.dispatched e
      { dispatched := ctx.dispatched ++ [e]
        parts := ctx.parts ++ outcome.parts
        firedEventIds :=
          if outcome.producedOutput ∧ e.id ∉ ctx.firedEventIds then ctx.firedEventIds ++ [e.id]
          else ctx.firedEventIds }

/-- `if seen_event_ids.insert(event.id.clone()) { events_for_agent.push(event) }`. -/
def pushUnseen (eventsForAgent : List Event) : List Event → List Event
  | [] => eventsForAgent
  | e :: more =>
    pushUnseen
      (if e.id ∈ eventsForAgent.map Event.id then eventsForAgent else eventsForAgent ++ [e]) more

/-- The loop over the patterns. -/
def collectEvents (events : EventTable) (c : VisibilityClause) (eventsForAgent : List Event) :
    List String → List Event
  | [] => eventsForAgent
  | pattern :: patterns =>
    collectEvents events c
      (pushUnseen eventsForAgent (events.getEventsForPatternVisible c pattern)) patterns

/-- The loop over the ancestors, from the root to the agent itself. -/
def walkAncestors (s : RoleStore) (events : EventTable) (patterns : List String)
    (toolDispatch : Option ToolDispatch) (ctx : AssembledContext) :
    List String → Option AssembledContext
  | [] => some ctx
  | agent :: below => do
    let clause ← s.visibilitySqlClause agent
    let eventsForAgent := collectEvents events clause [] patterns
    walkAncestors s events patterns toolDispatch
      (eventsForAgent.foldl (dispatchEvent toolDispatch) ctx) below

/-- It has no answer where one of its queries has none. -/
def assembleIdeasForPatterns (s : RoleStore) (agents : List String) (events : EventTable)
    (agentId : String) (eventPatterns : List String) (toolDispatch : Option ToolDispatch) :
    Option AssembledContext := do
  let ancestors ← s.getAncestors agents agentId
  walkAncestors s events eventPatterns toolDispatch {} ancestors.reverse

/-! ## The events of one agent -/

section Collect

variable {events : EventTable} {c : VisibilityClause} {acc more : List Event} {e : Event}

def Event.Matches (e : Event) (patterns : List String) : Prop :=
  ∃ pattern ∈ patterns, like e.pattern (pattern ++ "%") = true

instance {patterns : List String} : Decidable (e.Matches patterns) :=
  inferInstanceAs (Decidable (∃ pattern ∈ patterns, like e.pattern (pattern ++ "%") = true))

theorem mem_getEventsForPatternVisible {pattern : String} :
    e ∈ events.getEventsForPatternVisible c pattern ↔
      e ∈ events.rows ∧ c.admits e.anchored = true ∧ e.enabled = true ∧
        like e.pattern (pattern ++ "%") = true := by
  rw [EventTable.getEventsForPatternVisible, List.mem_mergeSort, List.mem_filter,
    Bool.and_eq_true, Bool.and_eq_true, and_assoc]

theorem EventTable.eq_of_id {e' : Event} (he : e ∈ events.rows) (he' : e' ∈ events.rows)
    (hid : e.id = e'.id) : e = e' :=
  List.inj_on_of_nodup_map events.nodup he he' hid

structure Collected (events : EventTable) (acc : List Event) : Prop where
  subset : acc ⊆ events.rows
  nodup : acc.Nodup

theorem Collected.push (h : Collected events acc) (he : e ∈ events.rows) :
    Collected events (if e.id ∈ acc.map Event.id then acc else acc ++ [e]) ∧
      ∀ x, x ∈ (if e.id ∈ acc.map Event.id then acc else acc ++ [e]) ↔ x ∈ acc ∨ x = e := by
  split
  next hid =>
    refine ⟨h, fun x => ⟨.inl, ?_⟩⟩
    rintro (hx | rfl)
    · exact hx
    · obtain ⟨e', he', hsame⟩ := List.mem_map.1 hid
      rwa [← EventTable.eq_of_id (h.subset he') he hsame]
  next hid =>
    have hnew : e ∉ acc := fun hmem => hid (List.mem_map_of_mem hmem)
    refine ⟨⟨?_, ?_⟩, fun x => by rw [List.mem_append, List.mem_singleton]⟩
    · exact List.append_subset.2 ⟨h.subset, List.cons_subset.2 ⟨he, List.nil_subset _⟩⟩
    · exact List.nodup_append.2 ⟨h.nodup, List.nodup_singleton e, fun a ha b hb hab =>
        hnew (by rw [← List.mem_singleton.1 hb, ← hab]; exact ha)⟩

theorem Collected.pushUnseen (h : Collected events acc) (hmore : more ⊆ events.rows) :
    Collected events (pushUnseen acc more) ∧ ∀ x, x ∈ pushUnseen acc more ↔ x ∈ acc ∨ x ∈ more := by
  induction more generalizing acc with
  | nil => exact ⟨h, fun x => by simp [Orchestrator.pushUnseen]⟩
  | cons e more ih =>
    obtain ⟨he, hmore⟩ := List.cons_subset.1 hmore
    obtain ⟨hpush, hmem⟩ := h.push he
    obtain ⟨hall, hmemAll⟩ := ih hpush hmore
    refine ⟨hall, fun x => ?_⟩
    rw [Orchestrator.pushUnseen, hmemAll, hmem, List.mem_cons, or_assoc]

theorem Collected.collect (h : Collected events acc) (patterns : List String) :
    Collected events (collectEvents events c acc patterns) ∧
      ∀ x, x ∈ collectEvents events c acc patterns ↔
        x ∈ acc ∨ x ∈ events.rows ∧ c.admits x.anchored = true ∧ x.enabled = true ∧
          x.Matches patterns := by
  induction patterns generalizing acc with
  | nil => exact ⟨h, fun x => by simp [collectEvents, Event.Matches]⟩
  | cons pattern patterns ih =>
    have hrows : events.getEventsForPatternVisible c pattern ⊆ events.rows :=
      fun x hx => (mem_getEventsForPatternVisible.1 hx).1
    obtain ⟨hpush, hmem⟩ := h.pushUnseen hrows
    obtain ⟨hall, hmemAll⟩ := ih hpush
    refine ⟨hall, fun x => ?_⟩
    rw [collectEvents, hmemAll, hmem, mem_getEventsForPatternVisible]
    simp only [Event.Matches, List.mem_cons, exists_eq_or_imp]
    tauto

theorem count_collectEvents (patterns : List String) :
    (collectEvents events c [] patterns).count e =
      if e ∈ events.rows ∧ c.admits e.anchored = true ∧ e.enabled = true ∧ e.Matches patterns
        then 1 else 0 := by
  have hnil : Collected events [] := ⟨List.nil_subset _, List.nodup_nil⟩
  obtain ⟨hall, hmem⟩ := hnil.collect (c := c) patterns
  rw [hall.nodup.count]
  simp [hmem]

end Collect

/-! ## The walk -/

section Walk

variable {s : RoleStore} {events : EventTable} {patterns : List String}
  {toolDispatch : Option ToolDispatch} {ctx out : AssembledContext} {e : Event}

def Dispatches (toolDispatch : Option ToolDispatch) (e : Event) : Prop :=
  toolDispatch.isSome = true ∧ e.toolCalls ≠ []

instance : Decidable (Dispatches toolDispatch e) :=
  inferInstanceAs (Decidable (toolDispatch.isSome = true ∧ e.toolCalls ≠ []))

theorem count_dispatchEvent (x : Event) :
    (dispatchEvent toolDispatch ctx x).dispatched.count e =
      ctx.dispatched.count e + if Dispatches toolDispatch e ∧ x = e then 1 else 0 := by
  unfold dispatchEvent Dispatches
  split
  next hcalls =>
    rw [if_neg, Nat.add_zero]
    rintro ⟨⟨-, hne⟩, rfl⟩
    exact hne hcalls
  next hcalls =>
    cases toolDispatch with
    | none => simp
    | some dispatch =>
      by_cases hx : x = e
      · subst hx
        simp [hcalls]
      · simp [hx]

theorem count_foldl_dispatchEvent (hdispatch : Dispatches toolDispatch e) (es : List Event) :
    (es.foldl (dispatchEvent toolDispatch) ctx).dispatched.count e =
      ctx.dispatched.count e + es.count e := by
  induction es generalizing ctx with
  | nil => simp
  | cons x es ih =>
    rw [List.foldl_cons, ih, count_dispatchEvent]
    by_cases hx : x = e <;> simp [hx, hdispatch]
    omega

theorem count_foldl_quiet (hquiet : ¬ Dispatches toolDispatch e) (es : List Event) :
    (es.foldl (dispatchEvent toolDispatch) ctx).dispatched.count e = ctx.dispatched.count e := by
  induction es generalizing ctx with
  | nil => rfl
  | cons x es ih => rw [List.foldl_cons, ih, count_dispatchEvent, if_neg (hquiet ·.1), Nat.add_zero]

def RoleStore.admitsRow (s : RoleStore) (row : Anchored) (agentId : String) : Bool :=
  (s.visibilitySqlClause agentId).any fun c => c.admits row

variable {path : List String}

theorem count_walkAncestors (hdispatch : Dispatches toolDispatch e)
    (he : e ∈ events.rows ∧ e.enabled = true ∧ e.Matches patterns)
    (h : walkAncestors s events patterns toolDispatch ctx path = some out) :
    out.dispatched.count e = ctx.dispatched.count e + path.countP (s.admitsRow e.anchored) := by
  induction path generalizing ctx with
  | nil =>
    obtain rfl := Option.some.inj h
    rfl
  | cons agent below ih =>
    obtain ⟨c, hc, h⟩ := bind_eq_some_iff.1 h
    have hadmits : s.admitsRow e.anchored agent = c.admits e.anchored := by
      rw [RoleStore.admitsRow, hc, any_some]
    have hcollected : e ∈ events.rows ∧ c.admits e.anchored = true ∧ e.enabled = true ∧
        e.Matches patterns ↔ c.admits e.anchored = true := by
      constructor
      · exact fun h => h.2.1
      · exact fun h => ⟨he.1, h, he.2⟩
    rw [ih h, count_foldl_dispatchEvent hdispatch, count_collectEvents, List.countP_cons, hadmits]
    simp only [hcollected]
    omega

theorem walkAncestors_quiet (hquiet : ¬ Dispatches toolDispatch e)
    (h : walkAncestors s events patterns toolDispatch ctx path = some out) :
    out.dispatched.count e = ctx.dispatched.count e := by
  induction path generalizing ctx with
  | nil =>
    obtain rfl := Option.some.inj h
    rfl
  | cons agent below ih =>
    obtain ⟨c, -, h⟩ := bind_eq_some_iff.1 h
    rw [ih h, count_foldl_quiet hquiet]

theorem walkAncestors_ends_iff :
    (∃ out, walkAncestors s events patterns toolDispatch ctx path = some out) ↔
      ∀ b ∈ path, s.NoCycleAbove b := by
  induction path generalizing ctx with
  | nil => simp [walkAncestors]
  | cons agent below ih =>
    rw [List.forall_mem_cons, ← RoleStore.clause_ends_iff]
    constructor
    · rintro ⟨out, h⟩
      obtain ⟨c, hc, h⟩ := bind_eq_some_iff.1 h
      exact ⟨⟨c, hc⟩, ih.1 ⟨out, h⟩⟩
    · rintro ⟨⟨c, hc⟩, hbelow⟩
      obtain ⟨out, h⟩ := ih.2 hbelow
      exact ⟨out, bind_eq_some_iff.2 ⟨c, hc, h⟩⟩

end Walk

/-! ## How often an event is dispatched -/

section Once

variable {s : RoleStore} {agents : List String} {events : EventTable} {agentId b : String}
  {patterns : List String} {toolDispatch : Option ToolDispatch} {e : Event}

def RoleStore.OnTheWay (s : RoleStore) (agents : List String) (agentId b : String) : Prop :=
  (b = agentId ∧ s.Seated agentId ∨ s.Above b agentId) ∧ b ∈ agents

/-- An enabled event with calls that matches and is visible to the target. -/
structure Wanted (s : RoleStore) (events : EventTable) (agentId : String) (patterns : List String)
    (e : Event) : Prop where
  stored : e ∈ events.rows
  enabled : e.enabled = true
  hits : e.Matches patterns
  visible : s.SeesRow agentId e.anchored
  calls : e.toolCalls ≠ []

theorem getAncestors_ends_iff : (∃ path, s.getAncestors agents agentId = some path) ↔
    s.NoCycleAbove agentId := by
  rw [← RoleStore.getAncestorIds_ends_iff]
  simp [RoleStore.getAncestors]

theorem mem_getAncestors {path : List String} (h : s.getAncestors agents agentId = some path) :
    b ∈ path ↔ s.OnTheWay agents agentId b := by
  obtain ⟨ids, hids, rfl⟩ := Option.map_eq_some_iff.1 h
  rw [List.mem_filter, decide_eq_true_eq, RoleStore.mem_getAncestorIds hids, RoleStore.OnTheWay]

theorem nodup_getAncestors {path : List String} (h : s.getAncestors agents agentId = some path) :
    path.Nodup := by
  obtain ⟨ids, hids, rfl⟩ := Option.map_eq_some_iff.1 h
  exact (RoleStore.nodup_getAncestorIds hids).filter _

theorem admitsRow_iff {row : Anchored} (h : s.NoCycleAbove b) :
    s.admitsRow row b = true ↔ s.SeesRow b row := by
  obtain ⟨c, hc⟩ := RoleStore.clause_ends_iff.2 h
  rw [RoleStore.admitsRow, hc, any_some, RoleStore.clause_sees hc]

theorem countP_eq_one_iff {l : List String} {p : String → Bool} (hl : l.Nodup) :
    l.countP p = 1 ↔ ∃! b, b ∈ l ∧ p b = true := by
  rw [List.countP_eq_length_filter, List.length_eq_one_iff]
  constructor
  · rintro ⟨b, hb⟩
    have hmem : ∀ x, x ∈ l ∧ p x = true ↔ x = b := by
      intro x
      rw [← List.mem_filter, hb, List.mem_singleton]
    exact ⟨b, (hmem b).2 rfl, fun x hx => (hmem x).1 hx⟩
  · rintro ⟨b, hb, honly⟩
    refine ⟨b, List.perm_singleton.1 ?_⟩
    refine (List.perm_ext_iff_of_nodup (hl.filter _) (List.nodup_singleton b)).2 ?_
    intro x
    rw [List.mem_filter, List.mem_singleton]
    constructor
    · exact honly x
    · rintro rfl
      exact hb

theorem assemble_ends_iff :
    (∃ ctx, assembleIdeasForPatterns s agents events agentId patterns toolDispatch = some ctx) ↔
      s.NoCycleAbove agentId ∧ ∀ b, s.OnTheWay agents agentId b → s.NoCycleAbove b := by
  have hends : (∃ path, s.getAncestors agents agentId = some path) ↔ s.NoCycleAbove agentId :=
    getAncestors_ends_iff
  rw [← hends]
  constructor
  · rintro ⟨ctx, h⟩
    obtain ⟨path, hpath, h⟩ := bind_eq_some_iff.1 h
    have hends := walkAncestors_ends_iff.1 ⟨ctx, h⟩
    exact ⟨⟨path, hpath⟩, fun b hb =>
      hends b (List.mem_reverse.2 ((mem_getAncestors hpath).2 hb))⟩
  · rintro ⟨⟨path, hpath⟩, hends⟩
    have hwalk : ∀ b ∈ path.reverse, s.NoCycleAbove b := fun b hb =>
      hends b ((mem_getAncestors hpath).1 (List.mem_reverse.1 hb))
    obtain ⟨ctx, h⟩ := walkAncestors_ends_iff.2 hwalk
    exact ⟨ctx, bind_eq_some_iff.2 ⟨path, hpath, h⟩⟩

theorem count_dispatched {ctx : AssembledContext}
    (h : assembleIdeasForPatterns s agents events agentId patterns toolDispatch = some ctx)
    (he : Wanted s events agentId patterns e) :
    ctx.dispatched.count e = 1 ↔ toolDispatch.isSome = true ∧
      ∃! b, s.OnTheWay agents agentId b ∧ s.SeesRow b e.anchored := by
  obtain ⟨-, hends⟩ := assemble_ends_iff.1 ⟨ctx, h⟩
  obtain ⟨path, hpath, h⟩ := bind_eq_some_iff.1 h
  by_cases hdispatch : Dispatches toolDispatch e
  · have hcount := count_walkAncestors hdispatch ⟨he.stored, he.enabled, he.hits⟩ h
    have hsame : ∀ b, b ∈ path ∧ s.admitsRow e.anchored b = true ↔
        s.OnTheWay agents agentId b ∧ s.SeesRow b e.anchored := by
      intro b
      rw [mem_getAncestors hpath]
      exact and_congr_right fun hb => admitsRow_iff (hends b hb)
    rw [hcount, List.count_nil, Nat.zero_add, List.countP_reverse,
      countP_eq_one_iff (nodup_getAncestors hpath)]
    simp [hsame, hdispatch.1]
  · have hcount := walkAncestors_quiet hdispatch h
    rw [hcount, List.count_nil]
    constructor
    · intro hzero
      exact nomatch hzero
    · intro hsome
      exact absurd ⟨hsome.1, he.calls⟩ hdispatch

/-- Every event that is wanted is dispatched exactly once, if and only if the queries end, there is
a dispatcher, and exactly one of the agents above sees the event. -/
theorem dispatched_once_iff (s : RoleStore) (agents : List String) (events : EventTable)
    (agentId : String) (patterns : List String) (toolDispatch : Option ToolDispatch) :
    (∃ ctx, assembleIdeasForPatterns s agents events agentId patterns toolDispatch = some ctx ∧
      ∀ e, Wanted s events agentId patterns e → ctx.dispatched.count e = 1) ↔
    (s.NoCycleAbove agentId ∧ ∀ b, s.OnTheWay agents agentId b → s.NoCycleAbove b) ∧
      ∀ e, Wanted s events agentId patterns e → toolDispatch.isSome = true ∧
        ∃! b, s.OnTheWay agents agentId b ∧ s.SeesRow b e.anchored := by
  have hends : (∃ ctx, assembleIdeasForPatterns s agents events agentId patterns toolDispatch =
      some ctx) ↔ s.NoCycleAbove agentId ∧ ∀ b, s.OnTheWay agents agentId b → s.NoCycleAbove b :=
    assemble_ends_iff
  rw [← hends]
  constructor
  · rintro ⟨ctx, h, honce⟩
    exact ⟨⟨ctx, h⟩, fun e he => (count_dispatched h he).1 (honce e he)⟩
  · rintro ⟨⟨ctx, h⟩, honce⟩
    exact ⟨ctx, h, fun e he => (count_dispatched h he).2 (honce e he)⟩

end Once

def greet : Event where
  id := "ev"
  scope := .global
  name := "greet"
  pattern := "session:start"
  toolCalls := [{ tool := "ideas.assemble", args := "" }]

def greeting : EventTable where
  rows := [greet]
  nodup := List.nodup_singleton _

/-- A global event is dispatched for the lead and again for its report. -/
theorem not_dispatched_once : ¬ ∀ (s : RoleStore) (agents : List String) (events : EventTable)
    (agentId : String) (patterns : List String) (dispatch : ToolDispatch),
    ∃ ctx, assembleIdeasForPatterns s agents events agentId patterns (some dispatch) = some ctx ∧
      ∀ e, Wanted s events agentId patterns e → ctx.dispatched.count e = 1 := by
  intro hall
  obtain ⟨ctx, h, honce⟩ := hall leadAndReport ["lead", "report"] greeting "report"
    ["session:start"] fun _ _ => { parts := ["hello"], producedOutput := true }
  have htwice : (assembleIdeasForPatterns leadAndReport ["lead", "report"] greeting "report"
      ["session:start"] (some fun _ _ => { parts := ["hello"], producedOutput := true })).map
      (fun ctx => (ctx.dispatched.count greet, ctx.parts)) = some (2, ["hello", "hello"]) := by
    decide +kernel
  rw [h] at htwice
  obtain ⟨hcount, -⟩ := Prod.mk.inj (Option.some.inj htwice)
  have hwanted : Wanted leadAndReport greeting "report" ["session:start"] greet :=
    { stored := List.mem_singleton_self _
      enabled := rfl
      hits := by decide +kernel
      visible := .inl rfl
      calls := by decide }
  rw [honce _ hwanted] at hcount
  exact nomatch hcount

end Aeqi.Orchestrator
