import Aeqi.Quests.Columns
import Aeqi.Quests.Creation

/-!
# The open quest of a subject (`agent_registry.rs`)

`find_open_task_by_subject` asks one database for an idea of the given name and the other for an
open quest of that idea. Ideas are unique for an agent and a name together, so several agents may
own ideas of one name; the first query takes one of them and the second looks at no other.

Neither query has an order. The row that SQLite picks is given with the call.
-/

namespace Aeqi.Quests.Columns

open Aeqi.Lib List

/-! ## The lookup -/

/-- The row that `LIMIT 1` leaves. -/
def limitOne {α : Type} (rows : List α) (pick : Nat) : Option α := rows[pick % rows.length]?

theorem limitOne_mem {α : Type} {rows : List α} {pick : Nat} {x : α}
    (h : limitOne rows pick = some x) : x ∈ rows :=
  mem_of_getElem? h

theorem exists_limitOne {α : Type} {rows : List α} {x : α} (h : x ∈ rows) :
    ∃ pick, limitOne rows pick = some x := by
  obtain ⟨i, hi, hx⟩ := getElem_of_mem h
  refine ⟨i, ?_⟩
  unfold limitOne
  rw [Nat.mod_eq_of_lt hi, getElem?_eq_getElem hi, hx]

theorem limitOne_isSome {α : Type} {rows : List α} {pick : Nat} :
    (limitOne rows pick).isSome ↔ rows ≠ [] := by
  cases rows with
  | nil => simp [limitOne]
  | cons x rows =>
    have hlt : pick % (rows.length + 1) < rows.length + 1 := Nat.mod_lt _ (by omega)
    simpa [limitOne] using hlt

structure Databases where
  ideas : Accounts String IdeaRow
  quests : Table

namespace Databases

variable (db : Databases)

/-- The ideas `WHERE name = ?1`. -/
def named (subject : String) : List String :=
  db.ideas.keys.filter fun id => (db.ideas.lookup id).any (·.name = subject)

/-- The quests `WHERE idea_id = ?1 AND status IN ('todo', 'in_progress')`. -/
def openOf (ideaId : String) : List Row :=
  db.quests.rows.filter fun row =>
    row.ideaId = ideaId ∧ (row.status = "todo" ∨ row.status = "in_progress")

def findOpenTaskBySubject (c : Codec) (subject : String) (pickIdea pickQuest : Nat) :
    Option Quest :=
  match limitOne (db.named subject) pickIdea with
  | none => none
  | some ideaId => (limitOne (db.openOf ideaId) pickQuest).map (rowToTask c)

def Claims (subject : String) (row : Row) : Prop :=
  row ∈ db.quests.rows ∧ (row.status = "todo" ∨ row.status = "in_progress") ∧
    ∃ idea, db.ideas.lookup row.ideaId = some idea ∧ idea.name = subject

end Databases

section

variable {db : Databases} {c : Codec} {subject ideaId : String} {row : Row} {pick pick' : Nat}

open Databases

theorem mem_named : ideaId ∈ db.named subject ↔
    ∃ idea, db.ideas.lookup ideaId = some idea ∧ idea.name = subject := by
  unfold named
  rw [mem_filter, Option.any_eq_true]
  constructor
  · intro ⟨_, idea, hidea, hname⟩
    exact ⟨idea, hidea, of_decide_eq_true hname⟩
  · intro ⟨idea, hidea, hname⟩
    refine ⟨?_, idea, hidea, decide_eq_true hname⟩
    exact AList.mem_keys.1 (AList.lookup_isSome.1 (by rw [hidea]; rfl))

theorem mem_openOf : row ∈ db.openOf ideaId ↔ row ∈ db.quests.rows ∧ row.ideaId = ideaId ∧
      (row.status = "todo" ∨ row.status = "in_progress") := by
  unfold openOf
  rw [mem_filter, decide_eq_true_iff]

theorem claims_iff :
    db.Claims subject row ↔ ∃ ideaId ∈ db.named subject, row ∈ db.openOf ideaId := by
  constructor
  · intro ⟨hrow, hopen, hidea⟩
    exact ⟨row.ideaId, mem_named.2 hidea, mem_openOf.2 ⟨hrow, rfl, hopen⟩⟩
  · intro ⟨ideaId, hid, hmem⟩
    obtain ⟨hrow, heq, hopen⟩ := mem_openOf.1 hmem
    subst heq
    exact ⟨hrow, hopen, mem_named.1 hid⟩

theorem found_iff : (db.findOpenTaskBySubject c subject pick pick').isSome ↔
    ∃ ideaId, limitOne (db.named subject) pick = some ideaId ∧ db.openOf ideaId ≠ [] := by
  unfold findOpenTaskBySubject
  cases hidea : limitOne (db.named subject) pick with
  | none => simp
  | some ideaId => simp [limitOne_isSome]

end

/-! ## Completeness -/

def FindsClaim (db : Databases) (c : Codec) (subject : String) (pickIdea pickQuest : Nat) : Prop :=
  (db.findOpenTaskBySubject c subject pickIdea pickQuest).isSome ↔ ∃ row, db.Claims subject row

section

variable (db : Databases) (c : Codec) (subject : String)

theorem findsClaim_iff (pickIdea pickQuest : Nat) :
    FindsClaim db c subject pickIdea pickQuest ↔
      ∀ ideaId, limitOne (db.named subject) pickIdea = some ideaId →
        (∃ row, db.Claims subject row) → db.openOf ideaId ≠ [] := by
  unfold FindsClaim
  rw [found_iff]
  constructor
  · intro h ideaId hidea hclaim
    obtain ⟨id, hid, hopen⟩ := h.2 hclaim
    rw [hidea] at hid
    cases hid
    exact hopen
  · intro h
    constructor
    · intro ⟨ideaId, hidea, hopen⟩
      obtain ⟨row, hrow⟩ := exists_mem_of_ne_nil _ hopen
      exact ⟨row, claims_iff.2 ⟨ideaId, limitOne_mem hidea, hrow⟩⟩
    · intro ⟨row, hrow⟩
      -- the idea of the claim is one that could have been picked, so some idea is
      obtain ⟨ideaId, hid, -⟩ := claims_iff.1 hrow
      have hsome : (limitOne (db.named subject) pickIdea).isSome :=
        limitOne_isSome.2 (ne_nil_of_mem hid)
      obtain ⟨picked, hpicked⟩ := Option.isSome_iff_exists.1 hsome
      exact ⟨picked, hpicked, h picked hpicked ⟨row, hrow⟩⟩

/-- A claim is found, whichever rows the queries pick, if and only if the ideas of the name carry
open quests all or none. -/
theorem findOpenTask_finds_claims :
    ((∀ pickIdea pickQuest, FindsClaim db c subject pickIdea pickQuest) ↔
      ((∃ ideaId ∈ db.named subject, db.openOf ideaId ≠ []) →
        ∀ ideaId ∈ db.named subject, db.openOf ideaId ≠ [])) ∧
    ∀ pickIdea pickQuest, FindsClaim db c subject pickIdea pickQuest ↔
      ∀ ideaId, limitOne (db.named subject) pickIdea = some ideaId →
        (∃ other ∈ db.named subject, db.openOf other ≠ []) → db.openOf ideaId ≠ [] := by
  have hclaim : (∃ row, db.Claims subject row) ↔
      ∃ ideaId ∈ db.named subject, db.openOf ideaId ≠ [] := by
    constructor
    · intro ⟨row, hrow⟩
      obtain ⟨ideaId, hid, hopen⟩ := claims_iff.1 hrow
      exact ⟨ideaId, hid, ne_nil_of_mem hopen⟩
    · intro ⟨ideaId, hid, hopen⟩
      obtain ⟨row, hrow⟩ := exists_mem_of_ne_nil _ hopen
      exact ⟨row, claims_iff.2 ⟨ideaId, hid, hrow⟩⟩
  have heach : ∀ pickIdea pickQuest, FindsClaim db c subject pickIdea pickQuest ↔
      ∀ ideaId, limitOne (db.named subject) pickIdea = some ideaId →
        (∃ other ∈ db.named subject, db.openOf other ≠ []) → db.openOf ideaId ≠ [] := by
    intro pickIdea pickQuest
    rw [findsClaim_iff, hclaim]
  refine ⟨?_, heach⟩
  constructor
  · intro h hany ideaId hid
    obtain ⟨pick, hpick⟩ := exists_limitOne hid
    exact (heach pick 0).1 (h pick 0) ideaId hpick hany
  · intro h pickIdea pickQuest
    rw [heach]
    intro ideaId hidea hany
    exact h hany ideaId (limitOne_mem hidea)

end

/-! ## A claim that is missed -/

/-- Two agents have claimed one resource, the first no longer. -/
def twiceClaimed : Databases where
  ideas := ((∅ : Accounts String IdeaRow).insert "i-2"
    { name := "claim:repo", content := "", scope := .self, agentId := some "b", tags := [] }).insert
    "i-1" { name := "claim:repo", content := "", scope := .self, agentId := some "a", tags := [] }
  quests :=
    { rows :=
        [{ id := "as-001", ideaId := "i-1", status := "done", agentId := some "a",
           createdAt := "1970-01-01T00:00:00+00:00" },
          { id := "as-002", ideaId := "i-2", status := "in_progress", agentId := some "b",
            createdAt := "1970-01-01T00:00:00+00:00" }]
      nodup := by decide }

theorem findOpenTask_misses_claim :
    ¬ FindsClaim twiceClaimed plainCodec "claim:repo" 0 0 := by
  intro h
  have hclaim : ∃ row, twiceClaimed.Claims "claim:repo" row :=
    ⟨_, mem_cons_of_mem _ mem_cons_self, .inr rfl, _, rfl, rfl⟩
  exact absurd (h.2 hclaim) (by decide +kernel)

end Aeqi.Quests.Columns
