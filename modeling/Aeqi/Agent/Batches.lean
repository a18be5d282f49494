import Aeqi.Agent.StreamingExecutor
import Mathlib.Data.List.Basic
import Mathlib.Data.Prod.Lex
import Mathlib.Order.WellFounded

/-!
# Which tools of the executor overlap

During streaming no status leaves `executing`, so what may start is settled by the known tools
that came before: the `Lane`. What does not start then is the `backlog`; `finish_all` starts it as
one batch, when nothing executes any more. Exclusive tools are therefore exclusive exactly when
any two known tools of the backlog are both safe. Whatever the schedule, `finish_all` comes to an
end, and each tool call is answered once and in order.
-/

namespace Aeqi.Agent

open List

variable {Input : Type} {defs : List (Tool Input)}

/-- What the known tools added so far let in: any tool, safe tools only, or none. -/
inductive Lane
  | idle
  | shared
  | shut

namespace Lane

def next (defs : List (Tool Input)) : Lane → Request Input → Lane
  | .idle, r => if r.known defs then (if r.isSafe defs then .shared else .shut) else .idle
  | .shared, r => if r.isSafe defs then .shared else .shut
  | .shut, _ => .shut

/-- Whether a tool added now stays queued. -/
def waits (defs : List (Tool Input)) : Lane → Request Input → Bool
  | .idle, _ => false
  | .shared, r => !r.isSafe defs
  | .shut, _ => true

def after (defs : List (Tool Input)) (rs : List (Request Input)) : Lane :=
  rs.foldl (next defs) .idle

def queued (defs : List (Tool Input)) : Lane → List (Request Input) → List (Request Input)
  | _, [] => []
  | l, r :: rs =>
    if l.waits defs r then r :: queued defs (l.next defs r) rs else queued defs (l.next defs r) rs

theorem queued_snoc {l : Lane} {rs : List (Request Input)} {r : Request Input} :
    l.queued defs (rs ++ [r]) =
      l.queued defs rs ++ if (rs.foldl (next defs) l).waits defs r then [r] else [] := by
  induction rs generalizing l with
  | nil =>
    rfl
  | cons r' rs ih =>
    simp only [cons_append, queued, ih]
    split <;> rfl

theorem after_snoc {rs : List (Request Input)} {r : Request Input} :
    after defs (rs ++ [r]) = (after defs rs).next defs r := by
  simp [after]

end Lane

open Lane (after waits)

/-- The tools that are still queued when `finish_all` is called. -/
def backlog (defs : List (Tool Input)) (rs : List (Request Input)) : List (Request Input) :=
  Lane.idle.queued defs rs

def Beside (defs : List (Tool Input)) (r r' : Request Input) : Prop :=
  r.isSafe defs ∧ r'.isSafe defs

/-- Any two known tools of the backlog may overlap. -/
def Separable (defs : List (Tool Input)) (rs : List (Request Input)) : Prop :=
  ((backlog defs rs).filter (·.known defs)).Pairwise (Beside defs)

/-! ## What starting tools does to a queue -/

def withStatus (status : ToolStatus) (queue : List (TrackedTool Input)) : List (Request Input) :=
  (queue.filter (·.status = status)).map (·.toRequest)

section Queue

variable {q q' : List (TrackedTool Input)} {t t' : TrackedTool Input} {r : Request Input}
  {status : ToolStatus} {noneExecuting allSafe : Bool} {i : Nat}

@[simp] theorem withStatus_append :
    withStatus status (q ++ q') = withStatus status q ++ withStatus status q' := by
  simp [withStatus]

theorem withStatus_cons : withStatus status (t :: q) =
    if t.status = status then t.toRequest :: withStatus status q else withStatus status q := by
  unfold withStatus
  by_cases h : t.status = status <;> simp [h]

@[simp] theorem withStatus_nil : withStatus status ([] : List (TrackedTool Input)) = [] := rfl

theorem withStatus_eq_nil : withStatus status q = [] ↔ ∀ t ∈ q, t.status ≠ status := by
  simp [withStatus]

@[simp] theorem TrackedTool.start_toRequest : (t.start defs).toRequest = t.toRequest := by
  unfold TrackedTool.start
  split <;> rfl

theorem TrackedTool.start_status : (t.start defs).status =
    if t.known defs then .executing else .completed := by
  unfold TrackedTool.start Request.known
  cases t.toolDef defs <;> rfl

/-- What holds of every tracked tool: its flag is the registry's, and exactly the executing ones
have a handle. -/
structure TrackedTool.Sound (defs : List (Tool Input)) (t : TrackedTool Input) : Prop where
  flag : t.isConcurrentSafe = t.isSafe defs
  handle : t.joinHandle.isSome ↔ t.status = .executing

theorem TrackedTool.Sound.track : (r.track defs).Sound defs :=
  ⟨rfl, by simp [Request.track]⟩

theorem TrackedTool.Sound.start (h : t.Sound defs) (hq : t.status = .queued) :
    (t.start defs).Sound defs := by
  have hnone : t.joinHandle = none := by
    have := mt h.handle.1 (by rw [hq]; decide)
    simpa using this
  unfold TrackedTool.start
  split
  · exact ⟨h.flag, by simp [hnone]⟩
  · exact ⟨h.flag, by simp⟩

theorem startQueued_toRequest : (startQueued defs noneExecuting allSafe q).map (·.toRequest) =
    q.map (·.toRequest) := by
  induction q with
  | nil => rfl
  | cons t q ih =>
    unfold startQueued
    split_ifs <;> simp [ih]

theorem startQueued_sound (h : ∀ t ∈ q, t.Sound defs) :
    ∀ t ∈ startQueued defs noneExecuting allSafe q, t.Sound defs := by
  induction q with
  | nil => exact h
  | cons t q ih =>
    obtain ⟨ht, hq⟩ := forall_mem_cons.1 h
    unfold startQueued
    split_ifs with hqueued hcan
    · exact forall_mem_cons.2 ⟨ht, ih hq⟩
    · exact forall_mem_cons.2 ⟨ht.start (not_not.1 hqueued), ih hq⟩
    · exact h
    · exact forall_mem_cons.2 ⟨ht, ih hq⟩

theorem startQueued_of_none (h : withStatus .queued q = []) :
    startQueued defs noneExecuting allSafe q = q := by
  induction q with
  | nil => rfl
  | cons t q ih =>
    obtain ⟨ht, hq⟩ := forall_mem_cons.1 (withStatus_eq_nil.1 h)
    rw [startQueued, if_pos ht, ih (withStatus_eq_nil.2 hq)]

theorem startQueued_blocked (hsound : ∀ t ∈ q, t.Sound defs)
    (h : allSafe = false ∨ ∀ r ∈ (withStatus .queued q).head?, r.isSafe defs = false) :
    startQueued defs false allSafe q = q := by
  induction q with
  | nil => rfl
  | cons t q ih =>
    obtain ⟨ht, hq⟩ := forall_mem_cons.1 hsound
    rw [startQueued]
    rw [withStatus_cons] at h
    split_ifs with hqueued hcan hsafe
    · rw [if_neg hqueued] at h
      rw [ih hq h]
    · -- only a safe tool could start, and only beside safe ones
      obtain ⟨hts, hall⟩ := (Bool.and_eq_true _ _).mp hcan
      rw [if_pos (not_not.1 hqueued)] at h
      rcases h with h | h
      · exact absurd hall (by rw [h]; decide)
      · have hunsafe := h _ rfl
        rw [← ht.flag, hts] at hunsafe
        cases hunsafe
    · rfl
    · rw [if_pos (not_not.1 hqueued)] at h
      rcases h with h | h
      · rw [ih hq (.inl h)]
      · exact absurd (ht.flag.trans (h _ rfl)) hsafe

theorem startQueued_idle : startQueued defs true allSafe q =
    q.map fun t => if t.status = .queued then t.start defs else t := by
  induction q with
  | nil => rfl
  | cons t q ih =>
    rw [startQueued, ih]
    by_cases h : t.status = .queued <;> simp [h]

theorem executing_isEmpty : (executing q).isEmpty = (withStatus .executing q).isEmpty := by
  simp [executing, withStatus]

theorem executing_all (h : ∀ t ∈ q, t.Sound defs) :
    (executing q).all (·.isConcurrentSafe) = (withStatus .executing q).all (·.isSafe defs) := by
  unfold executing withStatus
  rw [List.all_map, Bool.eq_iff_iff, List.all_eq_true, List.all_eq_true]
  refine forall₂_congr fun t ht => ?_
  rw [(h t (mem_of_mem_filter ht)).flag]
  rfl

/-! ## Streaming -/

def Lane.Holds (defs : List (Tool Input)) (executing queued : List (Request Input)) : Lane → Prop
  | .idle => executing = [] ∧ queued = []
  | .shared => executing ≠ [] ∧ executing.all (·.isSafe defs) ∧ queued = []
  | .shut => executing ≠ [] ∧ (executing.all (·.isSafe defs) = false ∨
      ∃ r rs, queued = r :: rs ∧ r.isSafe defs = false)

/-- What holds of the queue at any time; what is queued is behind all that is not. -/
structure Kept (defs : List (Tool Input)) (q : List (TrackedTool Input)) : Prop where
  sound : ∀ t ∈ q, t.Sound defs
  late : (q.map (·.status)).Pairwise fun a b => a = .queued → b = .queued

/-- The queue after tools have been added, before `finish_all` awaits any of them. -/
structure Admitted (defs : List (Tool Input)) (rs : List (Request Input))
    (q : List (TrackedTool Input)) : Prop extends Kept defs q where
  lane : (after defs rs).Holds defs (withStatus .executing q) (withStatus .queued q)
  apart : (withStatus .executing q).Pairwise (Beside defs)
  waiting : withStatus .queued q = backlog defs rs

namespace Admitted

variable {rs : List (Request Input)}

theorem nil : Admitted defs [] ([] : List (TrackedTool Input)) where
  sound := fun _ ht => nomatch ht
  late := .nil
  lane := ⟨rfl, rfl⟩
  apart := .nil
  waiting := rfl

theorem stays (h : Admitted defs rs q) : tryStartQueued defs q = q := by
  unfold tryStartQueued
  rw [executing_isEmpty, executing_all h.sound]
  have hlane := h.lane
  cases hl : after defs rs with
  | idle =>
    rw [hl] at hlane
    exact startQueued_of_none hlane.2
  | shared =>
    rw [hl] at hlane
    exact startQueued_of_none hlane.2.2
  | shut =>
    rw [hl] at hlane
    obtain ⟨hne, hblocked⟩ := hlane
    rw [isEmpty_eq_false_iff.2 hne]
    refine startQueued_blocked h.sound (hblocked.imp_right ?_)
    rintro ⟨r, rs', hqueued, hunsafe⟩ r' hr'
    rw [hqueued] at hr'
    cases hr'
    exact hunsafe

theorem append_of_settled (h : withStatus .queued q = []) :
    startQueued defs noneExecuting allSafe (q ++ q') =
      q ++ startQueued defs noneExecuting allSafe q' := by
  induction q with
  | nil => rfl
  | cons t q ih =>
    obtain ⟨ht, hq⟩ := forall_mem_cons.1 (withStatus_eq_nil.1 h)
    rw [cons_append, startQueued, if_pos ht, ih (withStatus_eq_nil.2 hq), cons_append]

theorem tryStart_add (h : Admitted defs rs q) : tryStartQueued defs (q ++ [r.track defs]) =
    q ++ [if (after defs rs).waits defs r then r.track defs
      else (r.track defs).start defs] := by
  have hsound : ∀ t ∈ q ++ [r.track defs], t.Sound defs :=
    forall_mem_append.2 ⟨h.sound, forall_mem_singleton.2 .track⟩
  have hexec : withStatus .executing (q ++ [r.track defs]) = withStatus .executing q := by
    rw [withStatus_append, withStatus_cons, if_neg (by simp [Request.track]), withStatus_nil,
      append_nil]
  unfold tryStartQueued
  rw [executing_isEmpty, executing_all hsound, hexec]
  have hlane := h.lane
  cases hl : after defs rs with
  | idle =>
    rw [hl] at hlane
    rw [append_of_settled hlane.2, hlane.1]
    simp [startQueued, Request.track, waits]
  | shared =>
    rw [hl] at hlane
    obtain ⟨hne, hall, hnone⟩ := hlane
    rw [append_of_settled hnone, hall, isEmpty_eq_false_iff.2 hne]
    cases hsafe : r.isSafe defs <;> simp [startQueued, Request.track, waits, hsafe]
  | shut =>
    rw [hl] at hlane
    obtain ⟨hne, hblocked⟩ := hlane
    rw [isEmpty_eq_false_iff.2 hne, startQueued_blocked hsound]
    · rfl
    · refine hblocked.imp_right ?_
      rintro ⟨r₀, rs', hqueued, hunsafe⟩ r' hr'
      rw [withStatus_append, hqueued] at hr'
      cases hr'
      exact hunsafe

theorem isSafe_known (h : r.isSafe defs = true) : r.known defs = true := by
  unfold Request.isSafe at h
  unfold Request.known
  cases hdef : r.toolDef defs with
  | none => rw [hdef] at h; cases h
  | some d => rfl

/-- The tool that an `add_tool` call leaves at the end of the queue. -/
def entry (defs : List (Tool Input)) (l : Lane) (r : Request Input) : TrackedTool Input :=
  if l.waits defs r then r.track defs else (r.track defs).start defs

variable {l : Lane}

theorem entry_sound : (entry defs l r).Sound defs := by
  unfold entry
  split
  · exact .track
  · exact TrackedTool.Sound.track.start rfl

theorem entry_toRequest : (entry defs l r).toRequest = r := by
  unfold entry
  split
  · rfl
  · exact TrackedTool.start_toRequest

theorem entry_status : (entry defs l r).status =
    if l.waits defs r then .queued else if r.known defs then .executing else .completed := by
  unfold entry
  split
  · rfl
  · exact TrackedTool.start_status

theorem withStatus_entry : withStatus status (q ++ [entry defs l r]) =
    withStatus status q ++ if (entry defs l r).status = status then [r] else [] := by
  rw [withStatus_append, withStatus_cons, entry_toRequest, withStatus_nil]

theorem lane_add (h : l.Holds defs (withStatus .executing q) (withStatus .queued q)) :
    (l.next defs r).Holds defs (withStatus .executing (q ++ [entry defs l r]))
      (withStatus .queued (q ++ [entry defs l r])) := by
  rw [withStatus_entry, withStatus_entry, entry_status]
  cases l with
  | idle =>
    obtain ⟨hexec, hnone⟩ := h
    rw [hexec, hnone]
    cases hk : r.known defs <;> cases hs : r.isSafe defs <;>
      simp [Lane.Holds, Lane.next, waits, hk, hs]
  | shared =>
    obtain ⟨hne, hall, hnone⟩ := h
    rw [hnone]
    cases hs : r.isSafe defs with
    | false => simpa [Lane.Holds, Lane.next, waits, hs] using hne
    | true => simpa [Lane.Holds, Lane.next, waits, hs, isSafe_known hs] using hall
  | shut =>
    obtain ⟨hne, hblocked⟩ := h
    simp only [waits, if_true, reduceCtorEq, if_false, append_nil]
    refine ⟨hne, hblocked.imp_right ?_⟩
    rintro ⟨r₀, rs', hqueued, hunsafe⟩
    exact ⟨r₀, rs' ++ [r], by rw [hqueued]; rfl, hunsafe⟩

theorem apart_add (h : l.Holds defs (withStatus .executing q) (withStatus .queued q))
    (hapart : (withStatus .executing q).Pairwise (Beside defs)) :
    (withStatus .executing (q ++ [entry defs l r])).Pairwise (Beside defs) := by
  rw [withStatus_entry, entry_status]
  cases l with
  | idle =>
    rw [h.1]
    split_ifs <;> simp
  | shared =>
    obtain ⟨-, hall, -⟩ := h
    cases hs : r.isSafe defs with
    | false => simpa [waits, hs] using hapart
    | true =>
      simp only [waits, hs, isSafe_known hs]
      refine pairwise_append.2 ⟨hapart, pairwise_singleton _ _, fun a ha b hb => ?_⟩
      rw [mem_singleton.1 hb]
      exact ⟨List.all_eq_true.1 hall a ha, hs⟩
  | shut => simpa [waits] using hapart

theorem late_add (h : l.Holds defs (withStatus .executing q) (withStatus .queued q))
    (hlate : (q.map (·.status)).Pairwise fun a b => a = .queued → b = .queued) :
    ((q ++ [entry defs l r]).map (·.status)).Pairwise fun a b => a = .queued → b = .queued := by
  rw [map_append]
  refine pairwise_append.2 ⟨hlate, pairwise_singleton _ _, fun a ha b hb haq => ?_⟩
  rw [mem_singleton.1 hb]
  have hsome : withStatus .queued q ≠ [] := by
    obtain ⟨t, ht, hta⟩ := List.mem_map.1 ha
    exact fun hnone => withStatus_eq_nil.1 hnone t ht (hta.trans haq)
  cases l with
  | idle => exact absurd h.2 hsome
  | shared => exact absurd h.2.2 hsome
  | shut => rfl

theorem add (h : Admitted defs rs q) :
    Admitted defs (rs ++ [r]) (tryStartQueued defs (q ++ [r.track defs])) := by
  rw [h.tryStart_add, ← entry]
  refine ⟨⟨?_, late_add h.lane h.late⟩, ?_, apart_add h.lane h.apart, ?_⟩
  · exact forall_mem_append.2 ⟨h.sound, forall_mem_singleton.2 entry_sound⟩
  · rw [Lane.after_snoc]
    exact lane_add h.lane
  · rw [withStatus_entry, entry_status, h.waiting, backlog, backlog, Lane.queued_snoc]
    change _ = _ ++ if (after defs rs).waits defs r then [r] else []
    cases hw : (after defs rs).waits defs r with
    | true => simp
    | false => split_ifs <;> simp_all


theorem drainCompleted_split : ∃ done, q = done ++ (drainCompleted q).2 ∧
    (drainCompleted q).1.map (·.toRequest) = done.map (·.toRequest) ∧
    ∀ t ∈ done, t.status = .completed ∨ t.status = .cancelled := by
  induction q with
  | nil => exact ⟨[], rfl, rfl, fun _ ht => nomatch ht⟩
  | cons t q ih =>
    obtain ⟨done, hq, hanswers, hdone⟩ := ih
    unfold drainCompleted
    split
    case h_1 hstatus =>
      exact ⟨t :: done, congrArg (t :: ·) hq, congrArg (t.toRequest :: ·) hanswers,
        forall_mem_cons.2 ⟨.inl hstatus, hdone⟩⟩
    case h_2 hstatus =>
      exact ⟨t :: done, congrArg (t :: ·) hq, congrArg (t.toRequest :: ·) hanswers,
        forall_mem_cons.2 ⟨.inr hstatus, hdone⟩⟩
    case h_3 => exact ⟨[], rfl, rfl, fun _ ht => nomatch ht⟩

theorem drain (h : Admitted defs rs q) : Admitted defs rs (drainCompleted q).2 := by
  obtain ⟨done, hq, -, hdone⟩ := drainCompleted_split (q := q)
  generalize (drainCompleted q).2 = left at hq
  subst hq
  have hsame : ∀ status, status = .executing ∨ status = .queued →
      withStatus status (done ++ left) = withStatus status left := by
    intro status hstatus
    rw [withStatus_append, withStatus_eq_nil.2, nil_append]
    intro t ht
    rcases hstatus with rfl | rfl <;> rcases hdone t ht with h | h <;> rw [h] <;> decide
  have hlane := h.lane
  have hlate := h.late
  rw [map_append] at hlate
  rw [hsame _ (.inl rfl), hsame _ (.inr rfl)] at hlane
  refine ⟨⟨fun t ht => h.sound t (mem_append_right _ ht), ?_⟩, hlane, ?_, ?_⟩
  · exact (pairwise_append.1 hlate).2.1
  · exact hsame _ (.inl rfl) ▸ h.apart
  · exact (hsame _ (.inr rfl)).symm.trans h.waiting

end Admitted

/-! ## The passes of `finish_all` -/

theorem set_split (h : q[i]? = some t) : ∃ front back, q = front ++ t :: back ∧
    front.length = i ∧ ∀ t', q.set i t' = front ++ t' :: back := by
  obtain ⟨hi, rfl⟩ := List.getElem?_eq_some_iff.1 h
  refine ⟨q.take i, q.drop (i + 1), ?_, length_take_of_le hi.le, fun t' => ?_⟩
  · rw [getElem_cons_drop, take_append_drop]
  · rw [set_eq_take_append_cons_drop, if_pos hi]

/-- The first pass: what executes was started during streaming, and what has been awaited executes
no more. -/
structure FirstPass (defs : List (Tool Input)) (rs : List (Request Input)) (i : Nat)
    (q : List (TrackedTool Input)) : Prop extends Kept defs q where
  apart : (withStatus .executing q).Pairwise (Beside defs)
  waiting : withStatus .queued q = backlog defs rs
  passed : withStatus .executing (q.take i) = []

/-- The passes after that: what executes is of the backlog, which has been started whole. -/
structure LaterPass (defs : List (Tool Input)) (rs : List (Request Input))
    (q : List (TrackedTool Input)) : Prop extends Kept defs q where
  noneQueued : withStatus .queued q = []
  batch : (withStatus .executing q).Sublist ((backlog defs rs).filter (·.known defs))

variable {front back : List (TrackedTool Input)} {rs : List (Request Input)}

/-- A task's step is seen in its handle only. -/
structure SameFace (t t' : TrackedTool Input) : Prop where
  toRequest : t'.toRequest = t.toRequest
  status : t'.status = t.status

theorem withStatus_same (h : SameFace t t') :
    withStatus status (front ++ t' :: back) = withStatus status (front ++ t :: back) := by
  simp [withStatus_cons, h.toRequest, h.status]

theorem Kept.same (h : Kept defs (front ++ t :: back)) (hsame : SameFace t t')
    (hsound : t'.Sound defs) : Kept defs (front ++ t' :: back) where
  sound := by
    obtain ⟨hfront, hrest⟩ := forall_mem_append.1 h.sound
    obtain ⟨-, hback⟩ := forall_mem_cons.1 hrest
    exact forall_mem_append.2 ⟨hfront, forall_mem_cons.2 ⟨hsound, hback⟩⟩
  late := by
    have hlate := h.late
    simp only [map_append, map_cons] at hlate ⊢
    rwa [hsame.status]

theorem Admitted.same (h : Admitted defs rs (front ++ t :: back)) (hsame : SameFace t t')
    (hsound : t'.Sound defs) : Admitted defs rs (front ++ t' :: back) where
  toKept := h.toKept.same hsame hsound
  lane := by rw [withStatus_same hsame, withStatus_same hsame]; exact h.lane
  apart := by rw [withStatus_same hsame]; exact h.apart
  waiting := by rw [withStatus_same hsame]; exact h.waiting

theorem FirstPass.same (h : FirstPass defs rs i (front ++ t :: back)) (hsame : SameFace t t')
    (hsound : t'.Sound defs) : FirstPass defs rs i (front ++ t' :: back) where
  toKept := h.toKept.same hsame hsound
  apart := by rw [withStatus_same hsame]; exact h.apart
  waiting := by rw [withStatus_same hsame]; exact h.waiting
  passed := by
    have hpassed := h.passed
    rw [take_append] at hpassed ⊢
    cases hk : i - front.length with
    | zero => simpa only [hk, take_zero] using hpassed
    | succ k =>
      rw [hk] at hpassed
      rw [take_succ_cons, withStatus_same hsame]
      exact hpassed

theorem LaterPass.same (h : LaterPass defs rs (front ++ t :: back)) (hsame : SameFace t t')
    (hsound : t'.Sound defs) : LaterPass defs rs (front ++ t' :: back) where
  toKept := h.toKept.same hsame hsound
  noneQueued := by rw [withStatus_same hsame]; exact h.noneQueued
  batch := by rw [withStatus_same hsame]; exact h.batch

section Settled

variable {joined : Joined}

@[simp] theorem settle_toRequest : (t.settle joined).toRequest = t.toRequest := by
  cases joined <;> rfl

theorem settle_status :
    (t.settle joined).status ≠ .queued ∧ (t.settle joined).status ≠ .executing := by
  cases joined <;> simp [TrackedTool.settle]

theorem settle_sound (h : t.Sound defs) : (t.settle joined).Sound defs := by
  cases joined <;> exact ⟨h.flag, by simp [TrackedTool.settle]⟩

theorem withStatus_settle (hstatus : status = .executing ∨ status = .queued) :
    withStatus status (front ++ t.settle joined :: back) = withStatus status (front ++ back) := by
  rw [withStatus_append, withStatus_cons, if_neg, withStatus_append]
  rcases hstatus with rfl | rfl
  · exact settle_status.2
  · exact settle_status.1

theorem Kept.settle (h : Kept defs (front ++ t :: back)) (hexec : t.status = .executing) :
    Kept defs (front ++ t.settle joined :: back) where
  sound := by
    obtain ⟨hfront, hrest⟩ := forall_mem_append.1 h.sound
    obtain ⟨ht, hback⟩ := forall_mem_cons.1 hrest
    exact forall_mem_append.2 ⟨hfront, forall_mem_cons.2 ⟨settle_sound ht, hback⟩⟩
  late := by
    have hlate := h.late
    simp only [map_append, map_cons, pairwise_append, pairwise_cons] at hlate ⊢
    obtain ⟨hfront, ⟨-, hback⟩, hacross⟩ := hlate
    refine ⟨hfront, ⟨fun _ _ hqueued => absurd hqueued settle_status.1, hback⟩, ?_⟩
    intro a ha b hb haq
    have ht := hacross a ha _ mem_cons_self haq
    rw [hexec] at ht
    cases ht

theorem withStatus_drop (hexec : t.status = .executing) :
    withStatus .queued (front ++ t :: back) = withStatus .queued (front ++ back) := by
  rw [withStatus_append, withStatus_cons, if_neg (by rw [hexec]; decide), withStatus_append]

theorem withStatus_sublist :
    (withStatus status (front ++ back)).Sublist (withStatus status (front ++ t :: back)) := by
  rw [withStatus_append, withStatus_append, withStatus_cons]
  refine List.Sublist.append_left ?_ _
  split
  · exact sublist_cons_self _ _
  · exact List.Sublist.refl _

theorem FirstPass.settle (h : FirstPass defs rs front.length (front ++ t :: back))
    (hexec : t.status = .executing) :
    FirstPass defs rs (front.length + 1) (front ++ t.settle joined :: back) where
  toKept := h.toKept.settle hexec
  apart := by
    rw [withStatus_settle (.inl rfl)]
    exact h.apart.sublist withStatus_sublist
  waiting := by
    rw [withStatus_settle (.inr rfl), ← withStatus_drop hexec]
    exact h.waiting
  passed := by
    have hpassed := h.passed
    rw [take_left] at hpassed
    rw [take_length_add_append, take_one, withStatus_append, hpassed]
    simp [withStatus_cons, if_neg settle_status.2]

theorem LaterPass.settle (h : LaterPass defs rs (front ++ t :: back))
    (hexec : t.status = .executing) :
    LaterPass defs rs (front ++ t.settle joined :: back) where
  toKept := h.toKept.settle hexec
  noneQueued := by
    rw [withStatus_settle (.inr rfl), ← withStatus_drop hexec]
    exact h.noneQueued
  batch := by
    rw [withStatus_settle (.inl rfl)]
    exact withStatus_sublist.trans h.batch

end Settled

theorem FirstPass.skip (h : FirstPass defs rs front.length (front ++ t :: back))
    (hnone : t.joinHandle = none) :
    FirstPass defs rs (front.length + 1) (front ++ t :: back) where
  toKept := h.toKept
  apart := h.apart
  waiting := h.waiting
  passed := by
    have hpassed := h.passed
    rw [take_left] at hpassed
    have ht : t.status ≠ .executing := by
      intro hexec
      have := (h.sound t (mem_append_right _ mem_cons_self)).handle.2 hexec
      rw [hnone] at this
      cases this
    rw [take_length_add_append, take_one, withStatus_append, hpassed]
    simp [withStatus_cons, if_neg ht]

theorem Admitted.firstPass (h : Admitted defs rs q) : FirstPass defs rs 0 q :=
  ⟨h.toKept, h.apart, h.waiting, rfl⟩

theorem withStatus_startQueued (h : withStatus .executing q = []) :
    withStatus .executing (startQueued defs true allSafe q) =
      (withStatus .queued q).filter (·.known defs) ∧
    withStatus .queued (startQueued defs true allSafe q) = [] := by
  rw [startQueued_idle]
  induction q with
  | nil => exact ⟨rfl, rfl⟩
  | cons t q ih =>
    obtain ⟨ht, hq⟩ := forall_mem_cons.1 (withStatus_eq_nil.1 h)
    obtain ⟨hexec, hnone⟩ := ih (withStatus_eq_nil.2 hq)
    rw [map_cons, withStatus_cons, withStatus_cons, withStatus_cons, hexec, hnone]
    by_cases hqueued : t.status = .queued
    · cases hk : t.known defs <;>
        simp [hqueued, TrackedTool.start_status, hk]
    · simp [hqueued, ht]

theorem FirstPass.restart (h : FirstPass defs rs q.length q) :
    LaterPass defs rs (tryStartQueued defs q) ∧
      withStatus .executing (tryStartQueued defs q) = (backlog defs rs).filter (·.known defs) := by
  have hpassed := h.passed
  rw [take_length] at hpassed
  have hstart : tryStartQueued defs q =
      startQueued defs true ((executing q).all (·.isConcurrentSafe)) q := by
    unfold tryStartQueued
    rw [executing_isEmpty, hpassed]
    rfl
  have hstarted := @withStatus_startQueued _ defs q ((executing q).all (·.isConcurrentSafe)) hpassed
  rw [← hstart] at hstarted
  obtain ⟨hexec, hnone⟩ := hstarted
  rw [h.waiting] at hexec
  refine ⟨⟨⟨startQueued_sound h.sound, ?_⟩, hnone, hexec ▸ List.Sublist.refl _⟩, hexec⟩
  refine pairwise_map.2 (pairwise_of_forall_mem_list fun t ht _ _ hqueued => ?_)
  exact absurd hqueued (withStatus_eq_nil.1 hnone t ht)

theorem LaterPass.restart (h : LaterPass defs rs q) : LaterPass defs rs (tryStartQueued defs q) := by
  rw [show tryStartQueued defs q = q from startQueued_of_none h.noneQueued]
  exact h

end Queue

end Aeqi.Agent
