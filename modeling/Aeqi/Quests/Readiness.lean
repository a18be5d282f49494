import Aeqi.Lib.Sortings
import Aeqi.Quests.Columns
import Mathlib.Data.Prod.Lex
import Mathlib.Data.String.Basic

/-!
# The quests that are ready (`agent_registry.rs`, `store.rs`)

`ready_tasks` of the registry is a query on the rows, `QuestBoard::ready` a filter and a sort of a
hash map. Both leave open how ties stand: the query by what SQLite does with equal keys, the sort by
the order in which the map yields its values. They are compared over every list that they may
return.

The query looks at no hold and wants dependencies to be `done`; the board takes quests of the
backlog. Texts of times are compared by the one, times by the other.
-/

namespace Aeqi.Quests.Columns

open Aeqi.Lib List

/-! ## The query -/

/-- The `CASE` of the `ORDER BY`. -/
def priorityCase : String → Nat
  | "critical" => 0
  | "high" => 1
  | "normal" => 2
  | "low" => 3
  | _ => 4

abbrev OrderBy : Row → Row → Prop :=
  ByKeys (fun row => priorityCase row.priority) fun row => row.createdAt

/-- All dependencies have the status `done`; one that there is no row of has none. -/
def unblocked (t : Table) (q : Quest) : Bool :=
  q.dependsOn.isEmpty || q.dependsOn.all fun dep => (t.find dep).map (·.status) = some "done"

/-- What `ready_tasks` may return. -/
def ReadyTasks (c : Codec) (t : Table) (tasks : List Quest) : Prop :=
  ∃ rows, Sorting OrderBy (t.rows.filter (·.status = "todo")) rows ∧
    tasks = (rows.map (rowToTask c)).filter (unblocked t)

/-- With ties in the order of the rows. -/
def readyTasks (c : Codec) (t : Table) : List Quest :=
  (((t.rows.filter (·.status = "todo")).insertionSort OrderBy).map (rowToTask c)).filter
    (unblocked t)

/-! ## The board -/

/-- The discriminants of `Priority`, by which it is ordered. -/
def priorityOrd : Priority → Nat
  | .low => 0
  | .normal => 1
  | .high => 2
  | .critical => 3

def DateTime.key (t : DateTime) : ℤ ×ₗ ℕ := toLex (t.timestamp, t.nanos)

namespace Quest

variable (q : Quest)

def isClosed : Bool := q.status = .done ∨ q.status = .cancelled

def isReady (resolved : String → Bool) : Bool :=
  (q.status = .todo ∨ q.status = .backlog) && q.dependsOn.all resolved

/-- `pointer("/aeqi/hold")` is true. -/
def isSchedulerHeld : Bool :=
  (((q.metadata.field "aeqi").bind (·.field "hold")).bind Json.asBool).getD false

end Quest

abbrev BoardOrder : Quest → Quest → Prop :=
  ByKeys (fun q => OrderDual.toDual (priorityOrd q.priority)) fun q => q.createdAt.key

section

variable (quests : List Quest)

def resolved (id : String) : Bool := (quests.find? (·.id = id)).any (·.isClosed)

def ready (values : List Quest) : List Quest :=
  (values.filter fun q =>
    q.isReady (resolved quests) && !q.isSchedulerHeld).insertionSort BoardOrder

/-- What `ready` may return. -/
def Ready (tasks : List Quest) : Prop := ∃ values, values.Perm quests ∧ tasks = ready quests values

/-! ## The schedule -/

/-- A quest to be run next: it is `todo`, not held, and its dependencies are closed. -/
def scheduled (q : Quest) : Bool :=
  q.status = .todo && !q.isSchedulerHeld && q.dependsOn.all (resolved quests)

/-- These quests, the highest priority first and the oldest first within a priority. -/
def Schedule (tasks : List Quest) : Prop :=
  Sorting BoardOrder (quests.filter (scheduled quests)) tasks

def isDone (id : String) : Bool := (quests.find? (·.id = id)).any (·.status = .done)

end

/-- A quest and the row that holds it. -/
structure Stored (c : Codec) where
  quest : Quest
  row : Row
  id : row.id = quest.id
  status : row.status = statusText quest.status
  priority : row.priority = priorityText quest.priority
  createdAt : row.createdAt = c.toRfc3339 quest.createdAt
  dependsOn : c.dependsOn.read [] row.dependsOn = quest.dependsOn

structure QuestSet (c : Codec) where
  entries : List (Stored c)
  nodup : (entries.map (·.quest.id)).Nodup

namespace QuestSet

variable {c : Codec} (s : QuestSet c)

def quests : List Quest := s.entries.map (·.quest)

def table : Table where
  rows := s.entries.map (·.row)
  nodup := by
    have hid : (s.entries.map (·.row)).map (·.id) = s.entries.map (·.quest.id) := by
      rw [List.map_map]
      exact List.map_congr_left fun e _ => e.id
    rw [hid]
    exact s.nodup

end QuestSet

/-- The ids of a list that satisfies `P`. -/
def Ids (P : List Quest → Prop) (ids : List String) : Prop :=
  ∃ tasks, P tasks ∧ ids = tasks.map (·.id)

def SchedulesAlike {c : Codec} (s : QuestSet c) : Prop :=
  ∀ ids, (Ids (ReadyTasks c s.table) ids ↔ Ids (Schedule s.quests) ids) ∧
    (Ids (Ready s.quests) ids ↔ Ids (Schedule s.quests) ids)

/-- No quest is such that its hold, a cancelled dependency or its being in the backlog matters, and
the texts of times stand as the times do. -/
structure Aligned {c : Codec} (s : QuestSet c) : Prop where
  held : ∀ q ∈ s.quests, q.status = .todo → q.isSchedulerHeld = true →
    q.dependsOn.all (isDone s.quests) = false
  cancelled : ∀ q ∈ s.quests, q.status = .todo → q.isSchedulerHeld = false →
    q.dependsOn.all (resolved s.quests) = true → q.dependsOn.all (isDone s.quests) = true
  backlog : ∀ q ∈ s.quests, q.status = .backlog → q.isSchedulerHeld = false →
    q.dependsOn.all (resolved s.quests) = false
  texts : ∀ p ∈ s.quests, ∀ q ∈ s.quests, scheduled s.quests p = true →
    scheduled s.quests q = true → p.priority = q.priority →
      (c.toRfc3339 p.createdAt ≤ c.toRfc3339 q.createdAt ↔ p.createdAt.key ≤ q.createdAt.key)

/-! ## Over the quests with their rows -/

section

variable {c : Codec} {s : QuestSet c} {e e' : Stored c}

def QuestSet.selected (s : QuestSet c) (e : Stored c) : Bool :=
  e.quest.status = .todo && e.quest.dependsOn.all (isDone s.quests)

def QuestSet.taken (s : QuestSet c) (e : Stored c) : Bool :=
  e.quest.isReady (resolved s.quests) && !e.quest.isSchedulerHeld

theorem statusText_injective : Function.Injective statusText := by
  intro status status' h
  cases status <;> cases status' <;> first | rfl | exact absurd h (by decide)

theorem find_table (id : String) :
    (s.table.find id).map (·.status) = (s.quests.find? (·.id = id)).map (statusText ·.status) := by
  unfold Table.find QuestSet.table QuestSet.quests
  rw [find?_map, find?_map, Option.map_map, Option.map_map]
  have hsame : (fun e : Stored c => decide (e.row.id = id)) = fun e => decide (e.quest.id = id) :=
    funext fun e => by rw [e.id]
  change Option.map _ (s.entries.find? fun e => decide (e.row.id = id)) = _
  rw [hsame]
  exact Option.map_congr fun e _ => e.status

theorem unblocked_iff : unblocked s.table (rowToTask c e.row) =
    e.quest.dependsOn.all (isDone s.quests) := by
  have hdeps : (rowToTask c e.row).dependsOn = e.quest.dependsOn := e.dependsOn
  have hdone : ∀ dep, decide ((s.table.find dep).map (·.status) = some "done") =
      isDone s.quests dep := by
    intro dep
    rw [find_table]
    unfold isDone
    cases s.quests.find? (·.id = dep) with
    | none => rfl
    | some q =>
      have hstatus : statusText q.status = "done" ↔ q.status = .done :=
        statusText_injective.eq_iff (b := .done)
      simp [hstatus]
  unfold unblocked
  simp only [hdeps, hdone]
  cases e.quest.dependsOn with
  | nil | cons dep deps => rfl

theorem priorityCase_add (p : Priority) : priorityCase (priorityText p) + priorityOrd p = 3 := by
  cases p <;> rfl

theorem priorityOrd_injective : Function.Injective priorityOrd := by
  intro p p' h
  cases p <;> cases p' <;> first | rfl | cases h

abbrev RowOrder (e e' : Stored c) : Prop :=
  ByKeys (fun e : Stored c => priorityCase e.row.priority) (fun e => e.row.createdAt) e e'

abbrev QuestOrder (e e' : Stored c) : Prop :=
  ByKeys (fun e : Stored c => OrderDual.toDual (priorityOrd e.quest.priority))
    (fun e => e.quest.createdAt.key) e e'

theorem rowOrder_iff : RowOrder e e' ↔
    ByKeys (fun e : Stored c => OrderDual.toDual (priorityOrd e.quest.priority))
      (fun e => c.toRfc3339 e.quest.createdAt) e e' := by
  have hcase := priorityCase_add e.quest.priority
  have hcase' := priorityCase_add e'.quest.priority
  simp only [ByKeys, e.priority, e'.priority, e.createdAt, e'.createdAt,
    OrderDual.toDual_lt_toDual, OrderDual.toDual_inj]
  have hlt : priorityCase (priorityText e.quest.priority) <
      priorityCase (priorityText e'.quest.priority) ↔
        priorityOrd e'.quest.priority < priorityOrd e.quest.priority := by omega
  have heq : priorityCase (priorityText e.quest.priority) =
      priorityCase (priorityText e'.quest.priority) ↔
        priorityOrd e.quest.priority = priorityOrd e'.quest.priority := by omega
  rw [hlt, heq]

variable {ids : List String}

theorem ids_readyTasks : Ids (ReadyTasks c s.table) ids ↔
    ∃ m, Sorting RowOrder (s.entries.filter s.selected) m ∧ ids = m.map (·.quest.id) := by
  have hselected : s.entries.filter s.selected =
      (s.entries.filter fun e => e.row.status = "todo").filter fun e =>
        unblocked s.table (rowToTask c e.row) := by
    rw [List.filter_filter]
    refine filter_congr fun e _ => ?_
    have htodo : e.row.status = "todo" ↔ e.quest.status = .todo := by
      rw [e.status]
      exact statusText_injective.eq_iff (b := .todo)
    rw [unblocked_iff, Bool.and_comm]
    simp [htodo, QuestSet.selected]
  have hrows : s.table.rows.filter (·.status = "todo") =
      (s.entries.filter fun e => e.row.status = "todo").map (·.row) := List.filter_map ..
  have hids : ∀ m : List (Stored c),
      (((m.map (·.row)).map (rowToTask c)).filter (unblocked s.table)).map (·.id) =
        (m.filter fun e => unblocked s.table (rowToTask c e.row)).map (·.quest.id) := by
    intro m
    rw [List.map_map, List.filter_map, List.map_map]
    exact map_congr_left fun e _ => e.id
  rw [hselected]
  constructor
  · rintro ⟨-, ⟨rows, hsort, rfl⟩, rfl⟩
    rw [hrows] at hsort
    obtain ⟨m, hm, rfl⟩ := sorting_map_iff.1 hsort
    exact ⟨_, Sorting.filter hm, hids m⟩
  · rintro ⟨m, hm, rfl⟩
    obtain ⟨m', hm', rfl⟩ := sorting_filter_iff.1 hm
    refine ⟨_, ⟨m'.map (·.row), ?_, rfl⟩, (hids m').symm⟩
    rw [hrows]
    exact sorting_map_iff.2 ⟨m', hm', rfl⟩

theorem ready_iff {quests tasks : List Quest} : Ready quests tasks ↔
    Sorting BoardOrder (quests.filter fun q => q.isReady (resolved quests) && !q.isSchedulerHeld)
      tasks := by
  constructor
  · rintro ⟨values, hperm, rfl⟩
    exact sorting_iff_insertionSort.2 ⟨_, hperm.filter _, rfl⟩
  · intro h
    obtain ⟨values, hvalues, rfl⟩ := sorting_filter_iff.1 h
    exact ⟨values, hvalues.perm, h.sorted.insertionSort_eq.symm⟩

theorem ids_sorting {p : Quest → Bool} :
    Ids (Sorting BoardOrder (s.quests.filter p)) ids ↔
      ∃ m, Sorting QuestOrder (s.entries.filter fun e => p e.quest) m ∧ ids = m.map (·.quest.id) := by
  have hquests : s.quests.filter p = (s.entries.filter fun e => p e.quest).map (·.quest) :=
    List.filter_map ..
  rw [hquests]
  constructor
  · rintro ⟨tasks, hsort, rfl⟩
    obtain ⟨m, hm, rfl⟩ := sorting_map_iff.1 hsort
    exact ⟨m, hm, List.map_map ..⟩
  · rintro ⟨m, hm, rfl⟩
    exact ⟨m.map (·.quest), sorting_map_iff.2 ⟨m, hm, rfl⟩, (List.map_map ..).symm⟩

theorem ids_ready : Ids (Ready s.quests) ids ↔
    ∃ m, Sorting QuestOrder (s.entries.filter s.taken) m ∧ ids = m.map (·.quest.id) := by
  have hids : Ids (Ready s.quests) ids ↔ Ids (Sorting BoardOrder (s.quests.filter fun q =>
      q.isReady (resolved s.quests) && !q.isSchedulerHeld)) ids := by
    simp [Ids, ready_iff]
  exact hids.trans ids_sorting

theorem ids_schedule : Ids (Schedule s.quests) ids ↔
    ∃ m, Sorting QuestOrder (s.entries.filter fun e => scheduled s.quests e.quest) m ∧
      ids = m.map (·.quest.id) :=
  ids_sorting

theorem ids_eq_iff {P Q : List (Stored c) → Prop} (hP : ∀ m, P m → m ⊆ s.entries)
    (hQ : ∀ m, Q m → m ⊆ s.entries) :
    (∀ ids, (∃ m, P m ∧ ids = m.map (·.quest.id)) ↔ ∃ m, Q m ∧ ids = m.map (·.quest.id)) ↔
      ∀ m, P m ↔ Q m := by
  have hinj := inj_on_of_nodup_map s.nodup
  have heq : ∀ m m', m ⊆ s.entries → m' ⊆ s.entries →
      m.map (·.quest.id) = m'.map (·.quest.id) → m = m' := fun m m' hm hm' =>
    eq_of_map_eq fun a ha b hb => hinj (hm ha) (hm' hb)
  constructor
  · intro h m
    constructor
    · intro hm
      obtain ⟨m', hm', hids⟩ := (h _).1 ⟨m, hm, rfl⟩
      rwa [heq m m' (hP m hm) (hQ m' hm') hids]
    · intro hm
      obtain ⟨m', hm', hids⟩ := (h _).2 ⟨m, hm, rfl⟩
      rwa [heq m m' (hQ m hm) (hP m' hm') hids]
  · intro h ids
    simp [h]

theorem subset_of_sorting {r : Stored c → Stored c → Prop} {p : Stored c → Bool}
    {m : List (Stored c)} (h : Sorting r (s.entries.filter p) m) : m ⊆ s.entries := fun _ he =>
  (mem_filter.1 (h.perm.mem_iff.1 he)).1

theorem perm_filter_iff {p p' : Stored c → Bool} :
    (s.entries.filter p).Perm (s.entries.filter p') ↔ ∀ e ∈ s.entries, p e = p' e := by
  constructor
  · intro h e he
    have hmem := h.mem_iff (a := e)
    rw [mem_filter, mem_filter] at hmem
    exact Bool.eq_iff_iff.2 ⟨fun hp => (hmem.1 ⟨he, hp⟩).2, fun hp => (hmem.2 ⟨he, hp⟩).2⟩
  · intro h
    rw [filter_congr h]

theorem registry_iff : (∀ ids, Ids (ReadyTasks c s.table) ids ↔ Ids (Schedule s.quests) ids) ↔
    (∀ e ∈ s.entries, s.selected e = scheduled s.quests e.quest) ∧
      ∀ e ∈ s.entries, ∀ e' ∈ s.entries, s.selected e = true → s.selected e' = true →
        (RowOrder e e' ↔ QuestOrder e e') := by
  simp only [ids_readyTasks, ids_schedule]
  rw [ids_eq_iff (fun _ => subset_of_sorting) (fun _ => subset_of_sorting), sortings_eq_iff,
    perm_filter_iff]
  refine and_congr_right fun _ => ?_
  simp only [mem_filter]
  constructor
  · exact fun h e he e' he' hp hp' => h e ⟨he, hp⟩ e' ⟨he', hp'⟩
  · exact fun h e he e' he' => h e he.1 e' he'.1 he.2 he'.2

theorem board_iff : (∀ ids, Ids (Ready s.quests) ids ↔ Ids (Schedule s.quests) ids) ↔
    ∀ e ∈ s.entries, s.taken e = scheduled s.quests e.quest := by
  simp only [ids_ready, ids_schedule]
  rw [ids_eq_iff (fun _ => subset_of_sorting) (fun _ => subset_of_sorting), sortings_eq_iff,
    perm_filter_iff]
  exact and_iff_left fun _ _ _ _ => Iff.rfl

/-! ## Where the schedules differ -/

theorem resolved_of_isDone {quests : List Quest} {dep : String} (h : isDone quests dep = true) :
    resolved quests dep = true := by
  unfold isDone at h
  unfold resolved
  cases hfind : quests.find? (·.id = dep) with
  | none =>
    rw [hfind] at h
    cases h
  | some q =>
    rw [hfind] at h
    have hdone : q.status = .done := of_decide_eq_true h
    exact decide_eq_true (.inl hdone)

theorem selected_eq_iff : s.selected e = scheduled s.quests e.quest ↔
    (e.quest.status = .todo → e.quest.isSchedulerHeld = true →
      e.quest.dependsOn.all (isDone s.quests) = false) ∧
    (e.quest.status = .todo → e.quest.isSchedulerHeld = false →
      e.quest.dependsOn.all (resolved s.quests) = true →
        e.quest.dependsOn.all (isDone s.quests) = true) := by
  have hclosed : e.quest.dependsOn.all (isDone s.quests) = true →
      e.quest.dependsOn.all (resolved s.quests) = true := by
    intro h
    exact List.all_eq_true.2 fun dep hdep => resolved_of_isDone (List.all_eq_true.1 h dep hdep)
  unfold QuestSet.selected scheduled
  by_cases htodo : e.quest.status = .todo
  · cases hheld : e.quest.isSchedulerHeld with
    | true => simp
    | false =>
      simp only [htodo, decide_true, Bool.true_and, Bool.not_false, Bool.false_eq_true,
        false_implies, forall_const, true_and]
      constructor
      · intro h hall
        rw [h, hall]
      · intro h
        exact Bool.eq_iff_iff.2 ⟨hclosed, h⟩
  · simp [htodo]

theorem taken_eq_iff : s.taken e = scheduled s.quests e.quest ↔
    (e.quest.status = .backlog → e.quest.isSchedulerHeld = false →
      e.quest.dependsOn.all (resolved s.quests) = false) := by
  unfold QuestSet.taken scheduled Quest.isReady
  cases hstatus : e.quest.status <;> cases hheld : e.quest.isSchedulerHeld <;> simp

theorem order_iff : (RowOrder e e' ↔ QuestOrder e e') ↔ (e.quest.priority = e'.quest.priority →
      (c.toRfc3339 e.quest.createdAt ≤ c.toRfc3339 e'.quest.createdAt ↔
        e.quest.createdAt.key ≤ e'.quest.createdAt.key)) := by
  have hpriority : OrderDual.toDual (priorityOrd e.quest.priority) =
      OrderDual.toDual (priorityOrd e'.quest.priority) ↔ e.quest.priority = e'.quest.priority :=
    OrderDual.toDual_inj.trans priorityOrd_injective.eq_iff
  rw [rowOrder_iff, ← hpriority]
  exact byKeys_iff_byKeys

/-- The registry and the board schedule alike just where no hold, no cancelled dependency and no
quest of the backlog makes the difference, and texts of times stand as the times do. -/
theorem readyTasks_eq_ready_iff (s : QuestSet c) : SchedulesAlike s ↔ Aligned s := by
  unfold SchedulesAlike
  rw [forall_and, registry_iff, board_iff]
  have hmem : ∀ q, q ∈ s.quests ↔ ∃ e ∈ s.entries, e.quest = q := fun _ => List.mem_map
  constructor
  · rintro ⟨⟨hselected, horder⟩, htaken⟩
    constructor
    · intro q hq
      obtain ⟨e, he, rfl⟩ := (hmem q).1 hq
      exact (selected_eq_iff.1 (hselected e he)).1
    · intro q hq
      obtain ⟨e, he, rfl⟩ := (hmem q).1 hq
      exact (selected_eq_iff.1 (hselected e he)).2
    · intro q hq
      obtain ⟨e, he, rfl⟩ := (hmem q).1 hq
      exact taken_eq_iff.1 (htaken e he)
    · intro p hp q hq hscheduled hscheduled' hpriority
      obtain ⟨e, he, rfl⟩ := (hmem p).1 hp
      obtain ⟨e', he', rfl⟩ := (hmem q).1 hq
      have hsame : RowOrder e e' ↔ QuestOrder e e' := horder e he e' he'
        ((hselected e he).trans hscheduled) ((hselected e' he').trans hscheduled')
      exact order_iff.1 hsame hpriority
  · intro h
    have hselected : ∀ e ∈ s.entries, s.selected e = scheduled s.quests e.quest := by
      intro e he
      have hq : e.quest ∈ s.quests := (hmem _).2 ⟨e, he, rfl⟩
      exact selected_eq_iff.2 ⟨h.held _ hq, h.cancelled _ hq⟩
    refine ⟨⟨hselected, fun e he e' he' hsel hsel' => ?_⟩, fun e he =>
      taken_eq_iff.2 (h.backlog _ ((hmem _).2 ⟨e, he, rfl⟩))⟩
    exact order_iff.2 (h.texts _ ((hmem _).2 ⟨e, he, rfl⟩) _ ((hmem _).2 ⟨e', he', rfl⟩)
      ((hselected e he).symm.trans hsel) ((hselected e' he').symm.trans hsel'))

end

def heldSet : QuestSet plainCodec where
  entries :=
    [{ quest :=
        { id := "as-001"
          ideaId := "idea-1"
          metadata := .obj [("aeqi", .obj [("hold", .bool true)])] }
       row := { id := "as-001", ideaId := "idea-1", createdAt := "1970-01-01T00:00:00+00:00" }
       id := rfl
       status := rfl
       priority := rfl
       createdAt := rfl
       dependsOn := rfl }]
  nodup := by decide

def pairSet (status : QuestStatus) : QuestSet plainCodec where
  entries :=
    [{ quest := { id := "as-001", ideaId := "idea-1", status }
       row :=
        { id := "as-001"
          ideaId := "idea-1"
          status := statusText status
          createdAt := "1970-01-01T00:00:00+00:00" }
       id := rfl
       status := rfl
       priority := rfl
       createdAt := rfl
       dependsOn := rfl },
     { quest := { id := "as-002", ideaId := "idea-2", dependsOn := ["as-001"] }
       row :=
        { id := "as-002"
          ideaId := "idea-2"
          dependsOn := "[\"as-001\"]"
          createdAt := "1970-01-01T00:00:00+00:00" }
       id := rfl
       status := rfl
       priority := rfl
       createdAt := rfl
       dependsOn := by decide }]
  nodup := show ["as-001", "as-002"].Nodup by decide

/-- The registry returns a quest on hold and not one behind a cancelled quest; the board returns a
quest of the backlog. -/
theorem not_schedulesAlike : ¬SchedulesAlike heldSet ∧ ¬SchedulesAlike (pairSet .cancelled) ∧
    ¬SchedulesAlike (pairSet .backlog) := by
  refine ⟨fun h => ?_, fun h => ?_, fun h => ?_⟩
  · have hselected := (registry_iff.1 fun ids => (h ids).1).1 _ mem_cons_self
    exact nomatch hselected
  · have hselected := (registry_iff.1 fun ids => (h ids).1).1 _
      (mem_cons_of_mem _ mem_cons_self)
    exact nomatch hselected
  · have htaken := board_iff.1 (fun ids => (h ids).2) _ mem_cons_self
    exact nomatch htaken

/-- A quest behind one that is done. -/
example : Aligned (pairSet .done) := by
  constructor <;> decide

end Aeqi.Quests.Columns
