import Aeqi.Lib.Footprint
import Aeqi.Quests.Columns

/-!
# What an update of a quest stores

`update_task` returns the quest as the closure has left it, and writes it over some columns of the
row. Here that quest is compared with what is read of the row afterwards, field by field: the kind,
the creation time and the session of the creator are in no column that is written, the status
`in_review` is not read back, and a quest without an outcome may be given one made of the reason
that an older row was closed with. `Kept` is what a quest has to satisfy for the rest.

Two closures that touch disjoint fields commute where both leave quests that are kept.
-/

namespace Aeqi.Quests.Columns

open Aeqi.Lib Option

/-! ## Fields -/

/-- The fields of a quest; the update sets `updated_at` itself. -/
inductive Field
  | id
  | ideaId
  | status
  | priority
  | kind
  | agentId
  | assignee
  | scope
  | dependsOn
  | retryCount
  | checkpoints
  | metadata
  | createdAt
  | closedAt
  | dueAt
  | outcome
  | worktreeBranch
  | worktreePath
  | creatorSessionId
  deriving DecidableEq

def Field.Same : Field → Quest → Quest → Prop
  | .id, p, q => p.id = q.id
  | .ideaId, p, q => p.ideaId = q.ideaId
  | .status, p, q => p.status = q.status
  | .priority, p, q => p.priority = q.priority
  | .kind, p, q => p.kind = q.kind
  | .agentId, p, q => p.agentId = q.agentId
  | .assignee, p, q => p.assignee = q.assignee
  | .scope, p, q => p.scope = q.scope
  | .dependsOn, p, q => p.dependsOn = q.dependsOn
  | .retryCount, p, q => p.retryCount = q.retryCount
  | .checkpoints, p, q => p.checkpoints = q.checkpoints
  | .metadata, p, q => p.metadata = q.metadata
  | .createdAt, p, q => p.createdAt = q.createdAt
  | .closedAt, p, q => p.closedAt = q.closedAt
  | .dueAt, p, q => p.dueAt = q.dueAt
  | .outcome, p, q => p.outcome = q.outcome
  | .worktreeBranch, p, q => p.worktreeBranch = q.worktreeBranch
  | .worktreePath, p, q => p.worktreePath = q.worktreePath
  | .creatorSessionId, p, q => p.creatorSessionId = q.creatorSessionId

/-- The time at which a quest is due counts in whole seconds. -/
def Field.Alike : Field → Quest → Quest → Prop
  | .dueAt, p, q => p.dueAt.map (·.timestamp) = q.dueAt.map (·.timestamp)
  | i, p, q => i.Same p q

section

variable {i : Field} {p q : Quest}

theorem Field.same_equivalence (i : Field) : Equivalence i.Same := by
  cases i <;> exact ⟨fun _ => rfl, fun h => h.symm, fun h h' => h.trans h'⟩

theorem Field.alike_equivalence (i : Field) : Equivalence i.Alike := by
  cases i <;> exact ⟨fun _ => rfl, fun h => h.symm, fun h h' => h.trans h'⟩

theorem Field.Same.alike (h : i.Same p q) : i.Alike p q := by
  cases i
  case dueAt => exact congrArg (Option.map DateTime.timestamp) h
  all_goals exact h

theorem Field.Alike.same (h : i.Alike p q) (hne : i ≠ .dueAt) : i.Same p q := by
  cases i
  case dueAt => exact absurd rfl hne
  all_goals exact h

end

/-! ## Properties -/

variable (c : Codec) (t : Table) (id : String) (f g : Quest → Quest)

/-- What `get_task` returns after the update is the quest that the update has returned. -/
def Persists (now : DateTime) : Prop :=
  ∀ q t', updateTask c t id f now = .ok (q, t') →
    ∃ p, getTask c t' id = some p ∧ ∀ i : Field, i.Alike p q

/-- The one after the other. -/
def updateBoth (now₁ now₂ : DateTime) : Except String Table :=
  updateTask c t id f now₁ >>= fun r => (updateTask c r.2 id g now₂).map (·.2)

def DisjointFields : Prop :=
  ∃ A B : Set Field, Disjoint A B ∧ Touches Field.Same A f ∧ Touches Field.Same B g

def UpdatesPersist (now₁ now₂ : DateTime) : Prop :=
  Persists c t id f now₁ ∧ Persists c t id g now₂ ∧
    (DisjointFields f g → updateBoth c t id f g now₁ now₂ = updateBoth c t id g f now₁ now₂)

/-- The fields of `q` that the row does not hold, or would not give back. -/
structure Kept (row : Row) (q : Quest) : Prop where
  id : row.id = q.id
  kind : "task" = q.kind
  createdAt : (rowToTask c row).createdAt = q.createdAt
  creatorSessionId : row.creatorSessionId = q.creatorSessionId
  status : q.status ≠ .inReview
  outcome : outcomeOf c (q.outcome.bind c.outcome.toString) row.closedReason
    (statusText q.status) = q.outcome
  checkpoints : c.checkpoints.read [] (c.checkpoints.text q.checkpoints) = q.checkpoints
  metadata : c.metadata.read .null (c.metadata.text q.metadata) = q.metadata
  dependsOn : c.dependsOn.read [] (c.dependsOn.text q.dependsOn) = q.dependsOn
  closedAt : (q.closedAt.map c.toRfc3339).bind c.parseFromRfc3339 = q.closedAt

def Keeps : Prop := ∀ row, t.find id = some row → Kept c row (f (rowToTask c row))

/-! ## What is read back -/

section

variable {c t id f g} {row : Row} {p q : Quest} {now now₁ now₂ : DateTime}
  {A B : Set Field}

theorem due_reread (secs : Option Int) :
    ((secs.bind DateTime.fromTimestamp).map (·.timestamp)).bind DateTime.fromTimestamp =
      secs.bind DateTime.fromTimestamp := by
  cases secs with
  | none => rfl
  | some secs =>
    simp only [bind_some]
    by_cases h : MIN_TIMESTAMP ≤ secs ∧ secs ≤ MAX_TIMESTAMP
    · have hsome : DateTime.fromTimestamp secs = some ⟨secs, 0, h, by decide⟩ := dif_pos h
      rw [hsome, map_some, bind_some, hsome]
    · have hnone : DateTime.fromTimestamp secs = none := dif_neg h
      rw [hnone]
      rfl

theorem due_timestamp (due : Option DateTime) :
    ((due.map (·.timestamp)).bind DateTime.fromTimestamp).map (·.timestamp) = due.map (·.timestamp) := by
  cases due with
  | none => rfl
  | some due => exact fromTimestamp_timestamp due

theorem alike_reread_iff :
    (∀ i : Field, i.Alike (rowToTask c (setColumns c q now row)) q) ↔ Kept c row q := by
  constructor
  · intro h
    have hstatus : statusOf (statusText q.status) = q.status := h .status
    exact
      { id := h .id
        kind := h .kind
        createdAt := h .createdAt
        creatorSessionId := h .creatorSessionId
        status := fun hreview => by
          rw [hreview] at hstatus
          cases hstatus
        outcome := h .outcome
        checkpoints := h .checkpoints
        metadata := h .metadata
        dependsOn := h .dependsOn
        closedAt := h .closedAt }
  · intro h i
    cases i
    case id => exact h.id
    case kind => exact h.kind
    case createdAt => exact h.createdAt
    case creatorSessionId => exact h.creatorSessionId
    case outcome => exact h.outcome
    case checkpoints => exact h.checkpoints
    case metadata => exact h.metadata
    case dependsOn => exact h.dependsOn
    case closedAt => exact h.closedAt
    case status => exact (statusOf_statusText q.status).trans (if_neg h.status)
    case priority => exact priorityOf_priorityText q.priority
    case scope => exact scopeOf_scopeText q.scope
    case retryCount =>
      have hretry : (rowToTask c (setColumns c q now row)).retryCount = q.retryCount := by
        simp [rowToTask, setColumns]
      exact hretry
    case dueAt => exact due_timestamp q.dueAt
    case ideaId | agentId | assignee | worktreeBranch | worktreePath => rfl

theorem persists_iff : Persists c t id f now ↔ Keeps c t id f := by
  constructor
  · intro h row hrow
    obtain ⟨p, hget, halike⟩ := h _ _ (updateTask_of_find hrow)
    have hrows := @updateTask_of_find c t id row f now hrow
    have hid : (f (rowToTask c row)).id = id := by
      obtain ⟨row', hrow', rfl⟩ := map_eq_some_iff.1 hget
      have hread : row'.id = (f (rowToTask c row)).id := halike .id
      exact hread.symm.trans (Table.id_of_find hrow')
    have hfound := find_updateTask_self hrows hid
    rw [hrow, map_some] at hfound
    rw [getTask, hfound, map_some, Option.some.injEq] at hget
    subst hget
    exact alike_reread_iff.1 halike
  · intro h q t' hupdate
    obtain ⟨row, hrow, rfl, -⟩ := updateTask_ok hupdate
    have hkept : Kept c row (f (rowToTask c row)) := h row hrow
    have hfound := find_updateTask_self hupdate (hkept.id.symm.trans (Table.id_of_find hrow))
    rw [hrow, map_some] at hfound
    exact ⟨rowToTask c (setColumns c (f (rowToTask c row)) now row),
      by rw [getTask, hfound, map_some], alike_reread_iff.2 hkept⟩

/-! ## Two updates -/

theorem setColumns_setColumns :
    setColumns c p now₂ (setColumns c q now₁ row) = setColumns c p now₂ row := rfl

theorem setColumns_congr (h : ∀ i : Field, i.Alike p q) :
    setColumns c p now row = setColumns c q now row := by
  have hIdea : p.ideaId = q.ideaId := h .ideaId
  have hStatus : p.status = q.status := h .status
  have hPriority : p.priority = q.priority := h .priority
  have hAgent : p.agentId = q.agentId := h .agentId
  have hAssignee : p.assignee = q.assignee := h .assignee
  have hScope : p.scope = q.scope := h .scope
  have hRetry : p.retryCount = q.retryCount := h .retryCount
  have hCheckpoints : p.checkpoints = q.checkpoints := h .checkpoints
  have hMetadata : p.metadata = q.metadata := h .metadata
  have hDepends : p.dependsOn = q.dependsOn := h .dependsOn
  have hClosed : p.closedAt = q.closedAt := h .closedAt
  have hOutcome : p.outcome = q.outcome := h .outcome
  have hDue : p.dueAt.map (·.timestamp) = q.dueAt.map (·.timestamp) := h .dueAt
  have hBranch : p.worktreeBranch = q.worktreeBranch := h .worktreeBranch
  have hPath : p.worktreePath = q.worktreePath := h .worktreePath
  unfold setColumns
  rw [hIdea, hStatus, hPriority, hAgent, hAssignee, hScope, hRetry, hCheckpoints, hMetadata,
    hDepends, hClosed, hOutcome, hDue, hBranch, hPath]

theorem same_reread (hf : Touches Field.Same A f)
    (hkept : Kept c row (f (rowToTask c row))) {i : Field} (hi : i ∉ A) :
    i.Same (rowToTask c (setColumns c (f (rowToTask c row)) now row)) (rowToTask c row) := by
  have hframe : i.Same (f (rowToTask c row)) (rowToTask c row) := hf.frame _ i hi
  by_cases hdue : i = .dueAt
  · subst hdue
    change ((f (rowToTask c row)).dueAt.map (·.timestamp)).bind DateTime.fromTimestamp =
      row.dueAt.bind DateTime.fromTimestamp
    rw [hframe]
    exact due_reread row.dueAt
  · have halike : i.Alike (rowToTask c (setColumns c (f (rowToTask c row)) now row))
        (f (rowToTask c row)) := alike_reread_iff.2 hkept i
    exact (Field.same_equivalence i).trans (halike.same hdue) hframe

theorem updateBoth_of_find (hrow : t.find id = some row) (hid : (f (rowToTask c row)).id = id)
    (hid' : (g (rowToTask c (setColumns c (f (rowToTask c row)) now₁ row))).id = id) :
    updateBoth c t id f g now₁ now₂ = .ok (t.update id (setColumns c
      (g (rowToTask c (setColumns c (f (rowToTask c row)) now₁ row))) now₂) fun _ => rfl) := by
  have hfirst := @updateTask_of_find c t id row f now₁ hrow
  have hfound := find_updateTask_self hfirst hid
  rw [hrow] at hfound
  unfold updateBoth
  rw [hfirst]
  change (updateTask c _ id g now₂).map (·.2) = _
  rw [updateTask_of_find hfound]
  refine congrArg Except.ok ?_
  simp only [hid, hid']
  exact Table.update_update fun row => setColumns_setColumns

theorem id_of_both (hg : Touches Field.Same A g) (hf : Touches Field.Same B f)
    (hdisj : Disjoint A B) (hkeptf : Kept c row (f (rowToTask c row)))
    (hkeptg : Kept c row (g (rowToTask c row))) :
    (g (rowToTask c (setColumns c (f (rowToTask c row)) now row))).id = row.id := by
  have hseen : ∀ i ∈ A, i.Same (rowToTask c (setColumns c (f (rowToTask c row)) now row))
      (rowToTask c row) :=
    fun i hi => same_reread hf hkeptf fun hB => Set.disjoint_left.1 hdisj hi hB
  have hid : Field.id.Same (g (rowToTask c (setColumns c (f (rowToTask c row)) now row)))
      (g (rowToTask c row)) :=
    hg.congr Field.same_equivalence hseen rfl
  exact Eq.trans hid hkeptg.id.symm

theorem updateBoth_comm (hf : Keeps c t id f) (hg : Keeps c t id g) (h : DisjointFields f g) :
    updateBoth c t id f g now₁ now₂ = updateBoth c t id g f now₁ now₂ := by
  obtain ⟨A, B, hdisj, htouchf, htouchg⟩ := h
  cases hrow : t.find id with
  | none =>
    unfold updateBoth
    rw [updateTask_of_missing hrow, updateTask_of_missing hrow]
    rfl
  | some row =>
    have hid : row.id = id := Table.id_of_find hrow
    have hkeptf : Kept c row (f (rowToTask c row)) := hf row hrow
    have hkeptg : Kept c row (g (rowToTask c row)) := hg row hrow
    rw [updateBoth_of_find hrow (hkeptf.id.symm.trans hid)
        ((id_of_both htouchg htouchf hdisj.symm hkeptf hkeptg).trans hid),
      updateBoth_of_find hrow (hkeptg.id.symm.trans hid)
        ((id_of_both htouchf htouchg hdisj hkeptg hkeptf).trans hid)]
    have halike : ∀ i : Field, i.Alike
        (g (rowToTask c (setColumns c (f (rowToTask c row)) now₁ row)))
        (f (rowToTask c (setColumns c (g (rowToTask c row)) now₁ row))) := fun i =>
      Touches.commute_stored Field.same_equivalence Field.alike_equivalence
        (fun _ _ _ => Field.Same.alike) htouchf htouchg hdisj
        (fun _ => same_reread htouchf hkeptf) (fun _ => same_reread htouchg hkeptg)
        (alike_reread_iff.2 hkeptf) (alike_reread_iff.2 hkeptg)
    have hcolumns : setColumns c (g (rowToTask c (setColumns c (f (rowToTask c row)) now₁ row)))
          now₂ =
        setColumns c (f (rowToTask c (setColumns c (g (rowToTask c row)) now₁ row))) now₂ :=
      funext fun _ => setColumns_congr halike
    simp [hcolumns]

theorem updatesPersist_iff : UpdatesPersist c t id f g now₁ now₂ ↔ Keeps c t id f ∧ Keeps c t id g := by
  constructor
  · rintro ⟨hf, hg, -⟩
    exact ⟨persists_iff.1 hf, persists_iff.1 hg⟩
  · rintro ⟨hf, hg⟩
    exact ⟨persists_iff.2 hf, persists_iff.2 hg, updateBoth_comm hf hg⟩

end

/-! ## The kind that the create tool sets (`tools/quests.rs`) -/

inductive CreateError
  | invalidKind (kind : String)
  | kindNotSet (questId kind error : String)

def CANONICAL_QUEST_KINDS : List String := ["task", "project"]

def isQuestKind (kind : String) : Bool :=
  CANONICAL_QUEST_KINDS.contains kind || "custom:".toList.isPrefixOf kind.toList

def trimmed (kind : Option String) : Option String :=
  kind.map fun kind => String.ofList (trim kind.toList)

/-- What `action_create` does with the argument `kind` once it has made the quest. -/
def setKind (kind : Option String) (now : DateTime) : Except CreateError Table :=
  match trimmed kind with
  | none => .ok t
  | some kind =>
    if isQuestKind kind = false then .error (.invalidKind kind)
    else if kind = "task" then .ok t
    else
      match updateTask c t id (fun q => { q with kind }) now with
      | .error e => .error (.kindNotSet id kind e)
      | .ok r => .ok r.2

def KindStored (kind : Option String) (now : DateTime) : Prop :=
  ∀ row k t', t.find id = some row → trimmed kind = some k →
    setKind c t id kind now = .ok t' → (getTask c t' id).map (·.kind) = some k

/-- Of the kinds that it accepts, the tool is called with `task` only. -/
def TaskOnly (kind : Option String) : Prop :=
  ∀ row k, t.find id = some row → trimmed kind = some k → isQuestKind k = true → k = "task"

section

variable {c t id} {row : Row} {kind : Option String} {k : String} {now : DateTime}

theorem kind_of_getTask {q : Quest} (h : getTask c t id = some q) : q.kind = "task" := by
  obtain ⟨-, -, rfl⟩ := map_eq_some_iff.1 h
  rfl

theorem setKind_of_accepted (now : DateTime) (hrow : t.find id = some row)
    (hk : trimmed kind = some k) (haccept : isQuestKind k = true) :
    ∃ t' row', setKind c t id kind now = .ok t' ∧ t'.find id = some row' := by
  unfold setKind
  rw [hk]
  simp only [haccept, Bool.true_eq_false, if_false]
  by_cases htask : k = "task"
  · exact ⟨t, row, if_pos htask, hrow⟩
  · have hupdate := @updateTask_of_find c t id row (fun q => { q with kind := k }) now hrow
    have hid : ({ rowToTask c row with kind := k } : Quest).id = id := Table.id_of_find hrow
    have hfound := find_updateTask_self hupdate hid
    rw [hrow] at hfound
    refine ⟨_, _, ?_, hfound⟩
    rw [if_neg htask, hupdate]

theorem kindStored_iff : KindStored c t id kind now ↔ TaskOnly t id kind := by
  constructor
  · intro h row k hrow hk haccept
    obtain ⟨t', -, hset, -⟩ := setKind_of_accepted now hrow hk haccept
    obtain ⟨q, hq, rfl⟩ := map_eq_some_iff.1 (h row k t' hrow hk hset)
    exact kind_of_getTask hq
  · intro h row k t' hrow hk hset
    have haccept : isQuestKind k = true := by
      cases hkind : isQuestKind k with
      | true => rfl
      | false =>
        unfold setKind at hset
        rw [hk] at hset
        simp only [hkind] at hset
        cases hset
    obtain ⟨t'', row', hset', hfound⟩ := setKind_of_accepted now hrow hk haccept
    rw [hset] at hset'
    cases hset'
    rw [getTask, hfound, h row k hrow hk haccept]
    rfl

end

/-! ## The result -/

/-- Updates persist what they return, and commute where they touch disjoint fields, just where both
closures leave the stored quest kept. -/
theorem updateTask_persists_iff (now₁ now₂ : DateTime) (kind : Option String) :
    UpdatesPersist c t id f g now₁ now₂ ∧ KindStored c t id kind now₁ ↔
      Keeps c t id f ∧ Keeps c t id g ∧ TaskOnly t id kind := by
  rw [updatesPersist_iff, kindStored_iff, and_assoc]

def newTable : Table where
  rows := [{ id := "as-001", ideaId := "idea-1", createdAt := "1970-01-01T00:00:00+00:00" }]
  nodup := by decide

/-- Neither a quest that is put up for review nor a project is stored as such. -/
theorem not_updateTask_persists :
    (¬Persists plainCodec newTable "as-001" (fun q => { q with status := .inReview }) UNIX_EPOCH) ∧
      ¬KindStored plainCodec newTable "as-001" (some "project") UNIX_EPOCH := by
  constructor
  · intro h
    have hkept := persists_iff.1 h _ rfl
    exact hkept.status rfl
  · intro h
    have htask := kindStored_iff.1 h _ "project" rfl (by decide +kernel) (by decide +kernel)
    exact nomatch htask

end Aeqi.Quests.Columns
