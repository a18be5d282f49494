import Aeqi.Agent.Batches

/-!
# Exclusive tools, results in order, and the end of `finish_all`

The invariant of the executor says which pass it is in and that what it has returned, followed by
what is still in its queue, is what has been added. Every step lowers a measure, so no schedule
goes on for ever; and where the executor waits, the task it waits for has a step to take.
-/

namespace Aeqi.Agent

open List Option

variable {Input : Type} {defs : List (Tool Input)} {calls : List (Call Input)}

/-- The tool calls that have been answered, and those that are still to be, in order. -/
def State.answered (s : State Input) : List (Request Input) :=
  s.returned.map (·.toRequest) ++ s.queue.map (·.toRequest)

def Pass (defs : List (Tool Input)) (rs : List (Request Input)) (hadQueued : Bool) (i : Nat)
    (q : List (TrackedTool Input)) : Prop :=
  (hadQueued = true ∧ FirstPass defs rs i q) ∨ LaterPass defs rs q

def Inv (defs : List (Tool Input)) (calls : List (Call Input)) (s : State Input) : Prop :=
  match s.control with
  | .streaming rest =>
    ∃ rs, rs ++ added rest = added calls ∧ s.answered = rs ∧ Admitted defs rs s.queue
  | .awaiting hadQueued i =>
    s.answered = added calls ∧ Pass defs (added calls) hadQueued i s.queue
  | .finished => s.answered = added calls ∧ s.queue = []

section Steps

variable {s s' : State Input} {e : Event} {i : Nat} {joined : Joined}

theorem tryStartQueued_toRequest {q : List (TrackedTool Input)} :
    (tryStartQueued defs q).map (·.toRequest) = q.map (·.toRequest) := startQueued_toRequest

theorem resume_cases (h : s.resume defs = some s') :
    (∃ r rest, s.control = .streaming (.addTool r :: rest) ∧ s' = { s with
        queue := tryStartQueued defs (s.queue ++ [r.track defs]), control := .streaming rest }) ∨
    (∃ rest, s.control = .streaming (.drainCompleted :: rest) ∧ s' = { s with
        queue := (drainCompleted s.queue).2
        control := .streaming rest
        returned := s.returned ++ (drainCompleted s.queue).1 }) ∨
    (s.control = .streaming [] ∧
      s' = { s with queue := tryStartQueued defs s.queue, control := .awaiting true 0 }) ∨
    (∃ b front t back, s.control = .awaiting b front.length ∧ s.queue = front ++ t :: back ∧
      t.joinHandle = none ∧ s' = { s with control := .awaiting b (front.length + 1) }) ∨
    (∃ b front t back joined, s.control = .awaiting b front.length ∧
      s.queue = front ++ t :: back ∧ t.joinHandle = some (.ended joined) ∧
      s' = { s with
        queue := front ++ t.settle joined :: back
        control := .awaiting true (front.length + 1) }) ∨
    (∃ i, s.control = .awaiting true i ∧ s.queue.length ≤ i ∧
      s' = { s with queue := tryStartQueued defs s.queue, control := .awaiting false 0 }) ∨
    (∃ i, s.control = .awaiting false i ∧ s.queue.length ≤ i ∧ s' = { s with
        queue := []
        control := .finished
        returned := s.returned ++ s.queue.map (·.complete "Tool never completed") }) := by
  unfold State.resume at h
  split at h
  case h_1 r rest hc => exact .inl ⟨r, rest, hc, (some.inj h).symm⟩
  case h_2 rest hc => exact .inr (.inl ⟨rest, hc, (some.inj h).symm⟩)
  case h_3 hc => exact .inr (.inr (.inl ⟨hc, (some.inj h).symm⟩))
  case h_4 b i hc =>
    split at h
    case h_1 t hq =>
      obtain ⟨front, back, hsplit, rfl, hset⟩ := set_split hq
      split at h
      case h_1 hnone =>
        exact .inr (.inr (.inr (.inl
          ⟨b, front, t, back, hc, hsplit, hnone, (some.inj h).symm⟩)))
      case h_2 joined hended =>
        refine .inr (.inr (.inr (.inr (.inl ⟨b, front, t, back, joined, hc, hsplit, hended, ?_⟩))))
        rw [← hset]
        exact (some.inj h).symm
      case h_3 => cases h
    case h_2 hq =>
      have hle := List.getElem?_eq_none_iff.1 hq
      cases b with
      | true =>
        exact .inr (.inr (.inr (.inr (.inr (.inl ⟨i, hc, hle, (some.inj h).symm⟩)))))
      | false =>
        exact .inr (.inr (.inr (.inr (.inr (.inr ⟨i, hc, hle, (some.inj h).symm⟩)))))
  case h_5 => cases h

theorem task_cases (h : (∃ i, e = .begins i) ∨ ∃ i joined, e = .ends i joined)
    (hstep : s.step defs e = some s') :
    ∃ front t back task task', s.queue = front ++ t :: back ∧ t.joinHandle = some task ∧
      (task = .spawned ∧ task' ≠ .spawned ∨ task = .running ∧ ∃ joined, task' = .ended joined) ∧
      s'.queue = front ++ { t with joinHandle := some task' } :: back ∧
      s'.control = s.control ∧ s'.returned = s.returned := by
  rcases h with ⟨i, rfl⟩ | ⟨i, joined, rfl⟩
  · simp only [State.step, State.begins] at hstep
    split at hstep
    case h_1 t hq =>
      obtain ⟨front, back, hsplit, rfl, hset⟩ := set_split hq
      split_ifs at hstep with hspawned herrored
      · cases hstep
        exact ⟨front, t, back, .spawned, .ended (.failed "Cancelled: sibling tool errored"), hsplit,
          hspawned, .inl ⟨rfl, by simp⟩, hset _, rfl, rfl⟩
      · cases hstep
        exact ⟨front, t, back, .spawned, .running, hsplit, hspawned, .inl ⟨rfl, by simp⟩, hset _,
          rfl, rfl⟩
    case h_2 => cases hstep
  · simp only [State.step, State.ends] at hstep
    split at hstep
    case h_1 t hq =>
      obtain ⟨front, back, hsplit, rfl, hset⟩ := set_split hq
      split_ifs at hstep with hrunning
      cases hstep
      exact ⟨front, t, back, .running, _, hsplit, hrunning, .inr ⟨rfl, joined, rfl⟩, hset _, rfl, rfl⟩
    case h_2 => cases hstep

theorem Inv.resume (h : Inv defs calls s) (hstep : s.resume defs = some s') :
    Inv defs calls s' := by
  unfold Inv at h
  rcases resume_cases hstep with ⟨r, rest, hc, rfl⟩ | ⟨rest, hc, rfl⟩ | ⟨hc, rfl⟩ |
    ⟨b, front, t, back, hc, hq, hnone, rfl⟩ | ⟨b, front, t, back, joined, hc, hq, hended, rfl⟩ |
    ⟨i, hc, hle, rfl⟩ | ⟨i, hc, -, rfl⟩
  all_goals rw [hc] at h
  · -- `add_tool`
    obtain ⟨rs, hall, hanswered, hadmitted⟩ := h
    refine ⟨rs ++ [r], by rw [← hall, append_assoc]; rfl, ?_, hadmitted.add⟩
    rw [← hanswered]
    simp only [State.answered, tryStartQueued_toRequest, map_append, append_assoc]
    rfl
  · -- `drain_completed`
    obtain ⟨rs, hall, hanswered, hadmitted⟩ := h
    refine ⟨rs, hall, ?_, hadmitted.drain⟩
    obtain ⟨done, hq, hanswers, -⟩ := Admitted.drainCompleted_split (q := s.queue)
    rw [← hanswered]
    unfold State.answered
    simp only [map_append, hanswers]
    rw [append_assoc, ← map_append, ← hq]
  · -- `finish_all` starts what is queued: nothing can be
    obtain ⟨rs, hall, hanswered, hadmitted⟩ := h
    rw [added, append_nil] at hall
    subst hall
    rw [hadmitted.stays]
    exact ⟨hanswered, .inl ⟨rfl, hadmitted.firstPass⟩⟩
  · obtain ⟨hanswered, hpass⟩ := h
    rw [hq] at hpass
    refine ⟨hanswered, ?_⟩
    rw [hq]
    exact hpass.imp_left fun ⟨hb, hfirst⟩ => ⟨hb, hfirst.skip hnone⟩
  · obtain ⟨hanswered, hpass⟩ := h
    have hkept : Kept defs s.queue := hpass.elim (·.2.toKept) (·.toKept)
    rw [hq] at hpass hkept
    have hexec : t.status = .executing :=
      (hkept.sound t (mem_append_right _ mem_cons_self)).handle.1 (by rw [hended]; rfl)
    refine ⟨?_, hpass.imp (fun ⟨_, hfirst⟩ => ⟨rfl, hfirst.settle hexec⟩) (·.settle hexec)⟩
    rw [← hanswered]
    simp [State.answered, hq]
  · obtain ⟨hanswered, hpass⟩ := h
    refine ⟨?_, .inr ?_⟩
    · rw [← hanswered]
      simp [State.answered, tryStartQueued_toRequest]
    · rcases hpass with ⟨-, hfirst⟩ | hlater
      · have hlength : FirstPass defs (added calls) s.queue.length s.queue :=
          ⟨hfirst.toKept, hfirst.apart, hfirst.waiting, by
            rw [take_length, ← take_of_length_le hle]
            exact hfirst.passed⟩
        exact hlength.restart.1
      · exact hlater.restart
  · obtain ⟨hanswered, -⟩ := h
    refine ⟨?_, rfl⟩
    rw [← hanswered]
    simp [State.answered, TrackedTool.complete]

theorem Inv.task (h : Inv defs calls s) (he : (∃ i, e = .begins i) ∨ ∃ i joined, e = .ends i joined)
    (hstep : s.step defs e = some s') : Inv defs calls s' := by
  obtain ⟨front, t, back, task, task', hq, htask, -, hq', hc, hreturned⟩ := task_cases he hstep
  have hsame : SameFace t { t with joinHandle := some task' } := ⟨rfl, rfl⟩
  have hsound : t.Sound defs → ({ t with joinHandle := some task' } : TrackedTool Input).Sound defs :=
    fun ht => ⟨ht.flag, by
      simpa using ht.handle.1 (by rw [htask]; rfl)⟩
  have hmem : t ∈ front ++ t :: back := mem_append_right _ mem_cons_self
  have hanswered : s'.answered = s.answered := by
    simp [State.answered, hreturned, hq, hq']
  unfold Inv at h ⊢
  rw [hc, hanswered, hq']
  rw [hq] at h
  cases hcontrol : s.control with
  | streaming rest =>
    rw [hcontrol] at h
    obtain ⟨rs, hall, hrs, hadmitted⟩ := h
    exact ⟨rs, hall, hrs, hadmitted.same hsame (hsound (hadmitted.sound t hmem))⟩
  | awaiting b i =>
    rw [hcontrol] at h
    obtain ⟨hall, hpass⟩ := h
    refine ⟨hall, ?_⟩
    rcases hpass with ⟨hb, hfirst⟩ | hlater
    · exact .inl ⟨hb, hfirst.same hsame (hsound (hfirst.sound t hmem))⟩
    · exact .inr (hlater.same hsame (hsound (hlater.sound t hmem)))
  | finished =>
    rw [hcontrol] at h
    exact absurd h.2 (append_ne_nil_of_right_ne_nil _ (cons_ne_nil _ _))

theorem Inv.step (h : Inv defs calls s) (hstep : s.step defs e = some s') : Inv defs calls s' := by
  cases e with
  | resume => exact h.resume hstep
  | begins i => exact h.task (.inl ⟨i, rfl⟩) hstep
  | ends i joined => exact h.task (.inr ⟨i, joined, rfl⟩) hstep

theorem Inv.start : Inv defs calls (.start calls) := ⟨[], rfl, rfl, .nil⟩

theorem Reaches.inv (h : Reaches defs calls s) : Inv defs calls s := by
  obtain ⟨hist, run⟩ := h
  exact run.invariant (P := Inv defs calls) .start fun _ _ _ hinv hstep => hinv.step hstep

end Steps

/-! ## Exclusive and in order -/

section Overlap

variable {s : State Input} {q : List (TrackedTool Input)}

theorem pairwise_executing : (withStatus .executing q).Pairwise (Beside defs) ↔
    q.Pairwise fun t t' => t.status = .executing → t'.status = .executing →
      Beside defs t.toRequest t'.toRequest := by
  unfold withStatus
  rw [pairwise_map, pairwise_filter]
  simp

theorem isRunning_executing {t : TrackedTool Input} (ht : t.Sound defs) (h : t.isRunning) :
    t.status = .executing :=
  ht.handle.1 (by rw [h]; rfl)

theorem Kept.exclusive (h : Kept defs q)
    (hapart : (withStatus .executing q).Pairwise (Beside defs)) : Exclusive q := by
  refine (pairwise_executing.1 hapart).imp_of_mem fun {t t'} ht ht' hbeside hrun hrun' => ?_
  have hsound := h.sound t ht
  have hsound' := h.sound t' ht'
  rw [hsound.flag, hsound'.flag]
  exact hbeside (isRunning_executing hsound hrun) (isRunning_executing hsound' hrun')

theorem Kept.inOrder (h : Kept defs q)
    (hapart : (withStatus .executing q).Pairwise (Beside defs)) : InOrder q := by
  have hlate := pairwise_map.1 h.late
  refine ((pairwise_executing.1 hapart).and hlate).imp_of_mem ?_
  rintro t t' ht ht' ⟨hbeside, hqueued⟩ hunsafe hrun
  have hexec' := isRunning_executing (h.sound t' ht') hrun
  cases hstatus : t.status with
  | queued =>
    have := hqueued hstatus
    rw [hexec'] at this
    cases this
  | executing =>
    have hsafe := (hbeside hstatus hexec').1
    rw [← (h.sound t ht).flag, hunsafe] at hsafe
    cases hsafe
  | completed => exact .inl hstatus
  | cancelled => exact .inr (.inl hstatus)

theorem Inv.apart (h : Inv defs calls s) (hsep : Separable defs (added calls)) :
    Kept defs s.queue ∧ (withStatus .executing s.queue).Pairwise (Beside defs) := by
  unfold Inv at h
  cases hc : s.control with
  | streaming rest =>
    rw [hc] at h
    obtain ⟨rs, -, -, hadmitted⟩ := h
    exact ⟨hadmitted.toKept, hadmitted.apart⟩
  | awaiting b i =>
    rw [hc] at h
    rcases h.2 with ⟨-, hfirst⟩ | hlater
    · exact ⟨hfirst.toKept, hfirst.apart⟩
    · exact ⟨hlater.toKept, hsep.sublist hlater.batch⟩
  | finished =>
    rw [hc] at h
    rw [h.2]
    exact ⟨⟨fun _ ht => absurd ht not_mem_nil, .nil⟩, .nil⟩

end Overlap

/-! ## The end of `finish_all` -/

def TrackedTool.work (t : TrackedTool Input) : Nat :=
  match t.joinHandle with
  | some .spawned => 3
  | some .running => 2
  | some (.ended _) => 1
  | none => if t.status = .queued then 4 else 0

def work (q : List (TrackedTool Input)) : Nat := (q.map TrackedTool.work).sum

/-- What is left to do in all: the tool calls that are still to come, and the work of the queue. -/
def State.work (s : State Input) : Nat :=
  Agent.work s.queue + match s.control with
    | .streaming rest => (rest.map fun call =>
        match call with
        | .addTool _ => 5
        | .drainCompleted => 1).sum
    | _ => 0

/-- How far the executor is with it. -/
def State.passes (s : State Input) : Nat :=
  match s.control with
  | .streaming _ => 2 * s.queue.length + 4
  | .awaiting hadQueued i =>
    (if hadQueued then s.queue.length + 1 else 0) + (s.queue.length - i) + 1
  | .finished => 0

section Termination

variable {s s' : State Input} {q front back : List (TrackedTool Input)} {t : TrackedTool Input}
  {noneExecuting allSafe : Bool} {e : Event}

theorem work_append : work (front ++ back) = work front + work back := by
  simp [work]

theorem work_cons : work (t :: back) = t.work + work back := by
  simp [work]

theorem work_queued (ht : t.Sound defs) (h : t.status = .queued) : t.work = 4 := by
  have hnone : t.joinHandle = none := by
    have := mt ht.handle.1 (by rw [h]; decide)
    simpa using this
  simp [TrackedTool.work, hnone, h]

theorem work_start (ht : t.Sound defs) (h : t.status = .queued) : (t.start defs).work ≤ t.work := by
  rw [work_queued ht h]
  unfold TrackedTool.work
  split
  · omega
  · omega
  · omega
  · split <;> omega

theorem work_startQueued (h : ∀ t ∈ q, t.Sound defs) :
    work (startQueued defs noneExecuting allSafe q) ≤ work q := by
  induction q with
  | nil => exact le_rfl
  | cons t q ih =>
    obtain ⟨ht, hq⟩ := forall_mem_cons.1 h
    have hrest := ih hq
    unfold startQueued
    split_ifs with hqueued hcan
    · rw [work_cons, work_cons]
      omega
    · have hstart := work_start ht (not_not.1 hqueued)
      rw [work_cons, work_cons]
      omega
    · omega
    · rw [work_cons, work_cons]
      omega

theorem work_tryStartQueued (h : ∀ t ∈ q, t.Sound defs) : work (tryStartQueued defs q) ≤ work q :=
  work_startQueued h

theorem length_tryStartQueued : (tryStartQueued defs q).length = q.length := by
  have h : ((tryStartQueued defs q).map (·.toRequest)).length = (q.map (·.toRequest)).length :=
    congrArg List.length tryStartQueued_toRequest
  simpa only [length_map] using h

theorem work_drainCompleted : work (drainCompleted q).2 ≤ work q := by
  obtain ⟨done, hq, -, -⟩ := Admitted.drainCompleted_split (q := q)
  conv_rhs => rw [hq, work_append]
  omega

theorem work_settle {joined joined' : Joined} (ht : t.joinHandle = some (.ended joined)) :
    (t.settle joined').work < t.work := by
  have hone : t.work = 1 := by simp [TrackedTool.work, ht]
  rw [hone]
  cases joined' <;> simp [TrackedTool.settle, TrackedTool.work]

theorem Inv.sound (h : Inv defs calls s) : ∀ t ∈ s.queue, t.Sound defs := by
  unfold Inv at h
  cases hc : s.control with
  | streaming rest =>
    rw [hc] at h
    obtain ⟨rs, -, -, hadmitted⟩ := h
    exact hadmitted.sound
  | awaiting b i =>
    rw [hc] at h
    rcases h.2 with ⟨-, hfirst⟩ | hlater
    · exact hfirst.sound
    · exact hlater.sound
  | finished =>
    rw [hc] at h
    rw [h.2]
    exact fun _ ht => nomatch ht

def Further (s s' : State Input) : Prop :=
  Prod.Lex (· < ·) (· < ·) (s'.work, s'.passes) (s.work, s.passes)

theorem further_of_le (hwork : s'.work ≤ s.work) (hpasses : s'.passes < s.passes) :
    Further s s' := by
  rcases Nat.lt_or_eq_of_le hwork with hlt | heq
  · exact .left _ _ hlt
  · unfold Further
    rw [heq]
    exact .right _ hpasses

theorem further_resume (h : Inv defs calls s) (hstep : s.resume defs = some s') : Further s s' := by
  have hsound := h.sound
  rcases resume_cases hstep with ⟨r, rest, hc, rfl⟩ | ⟨rest, hc, rfl⟩ | ⟨hc, rfl⟩ |
    ⟨b, front, t, back, hc, hq, -, rfl⟩ | ⟨b, front, t, back, joined, -, hq, hended, rfl⟩ |
    ⟨i, hc, -, rfl⟩ | ⟨i, hc, -, rfl⟩
  · refine .left _ _ ?_
    have htrack : (r.track defs).Sound defs := .track
    have hstart := work_tryStartQueued
      (forall_mem_append.2 ⟨hsound, forall_mem_singleton.2 htrack⟩)
    rw [work_append, work_cons, work_queued htrack rfl] at hstart
    simp only [State.work, hc, map_cons, sum_cons]
    have hnil : work ([] : List (TrackedTool Input)) = 0 := rfl
    omega
  · refine .left _ _ ?_
    have hdrain := work_drainCompleted (q := s.queue)
    simp only [State.work, hc, map_cons, sum_cons]
    omega
  · have hstart := work_tryStartQueued hsound
    refine further_of_le ?_ ?_
    · simp only [State.work]
      omega
    · simp only [State.passes, hc, length_tryStartQueued, if_true]
      omega
  · refine further_of_le ?_ ?_
    · simp only [State.work]
      omega
    · have hlength : front.length < s.queue.length := by rw [hq]; simp
      simp only [State.passes, hc]
      omega
  · refine .left _ _ ?_
    have hsettle : (t.settle joined).work < t.work := work_settle hended
    simp only [State.work, hq, work_append, work_cons]
    omega
  · have hstart := work_tryStartQueued hsound
    refine further_of_le ?_ ?_
    · simp only [State.work]
      omega
    · simp only [State.passes, hc, length_tryStartQueued, if_true, Bool.false_eq_true, if_false]
      omega
  · refine further_of_le ?_ ?_
    · exact Nat.zero_le _
    · simp only [State.passes, hc]
      omega

theorem further_task (he : (∃ i, e = .begins i) ∨ ∃ i joined, e = .ends i joined)
    (hstep : s.step defs e = some s') : Further s s' := by
  obtain ⟨front, t, back, task, task', hq, htask, hgoes, hq', hc, -⟩ := task_cases he hstep
  have hless : ({ t with joinHandle := some task' } : TrackedTool Input).work < t.work := by
    rcases hgoes with ⟨rfl, hne⟩ | ⟨rfl, -, rfl⟩
    · cases task' with
      | spawned => exact absurd rfl hne
      | running | ended joined => simp [TrackedTool.work, htask]
    · simp [TrackedTool.work, htask]
  refine .left _ _ ?_
  simp only [State.work, hc, hq, hq', work_append, work_cons]
  omega

theorem further_step (h : Inv defs calls s) (hstep : s.step defs e = some s') : Further s s' := by
  cases e with
  | resume => exact further_resume h hstep
  | begins i => exact further_task (.inl ⟨i, rfl⟩) hstep
  | ends i joined => exact further_task (.inr ⟨i, joined, rfl⟩) hstep

theorem no_infinite_run (f : Nat → State Input) (hstart : f 0 = .start calls)
    (hsteps : ∀ n, ∃ e, (f n).step defs e = some (f (n + 1))) : False := by
  have hinv : ∀ n, Inv defs calls (f n) := by
    intro n
    induction n with
    | zero => rw [hstart]; exact .start
    | succ n ih =>
      obtain ⟨e, he⟩ := hsteps n
      exact ih.step he
  have hwf : WellFounded (Prod.Lex (· < ·) (· < ·) : Nat × Nat → Nat × Nat → Prop) :=
    WellFounded.prod_lex Nat.lt_wfRel.wf Nat.lt_wfRel.wf
  have hnone : ∀ m, ∀ n, ((f n).work, (f n).passes) = m → False := by
    intro m
    induction m using hwf.induction with
    | _ m ih =>
      rintro n rfl
      obtain ⟨e, he⟩ := hsteps n
      exact ih _ (further_step (hinv n) he) (n + 1) rfl
  exact hnone _ 0 rfl

section Enabled

variable {b : Bool} {i : Nat}

theorem resume_skip (hc : s.control = .awaiting b i) (hq : s.queue[i]? = some t)
    (ht : t.joinHandle = none) :
    s.resume defs = some { s with control := .awaiting b (i + 1) } := by
  simp [State.resume, hc, hq, ht]

theorem resume_settle {joined : Joined} (hc : s.control = .awaiting b i)
    (hq : s.queue[i]? = some t) (ht : t.joinHandle = some (.ended joined)) :
    s.resume defs = some { s with
      queue := s.queue.set i (t.settle joined), control := .awaiting true (i + 1) } := by
  simp [State.resume, hc, hq, ht]

theorem resume_restart (hc : s.control = .awaiting true i) (hle : s.queue.length ≤ i) :
    s.resume defs = some { s with
      queue := tryStartQueued defs s.queue, control := .awaiting false 0 } := by
  simp [State.resume, hc, List.getElem?_eq_none_iff.2 hle]

theorem resume_finish (hc : s.control = .awaiting false i) (hle : s.queue.length ≤ i) :
    s.resume defs = some { s with
      queue := []
      control := .finished
      returned := s.returned ++ s.queue.map (·.complete "Tool never completed") } := by
  simp [State.resume, hc, List.getElem?_eq_none_iff.2 hle]

theorem resume_finishAll (hc : s.control = .streaming []) : s.resume defs =
    some { s with queue := tryStartQueued defs s.queue, control := .awaiting true 0 } := by
  simp [State.resume, hc]

theorem resume_call {call : Call Input} {rest : List (Call Input)}
    (hc : s.control = .streaming (call :: rest)) :
    ∃ s', s.resume defs = some s' ∧ s'.control = .streaming rest ∧
      s'.siblingErrored = s.siblingErrored := by
  cases call with
  | addTool r =>
    refine ⟨{ s with
      queue := tryStartQueued defs (s.queue ++ [r.track defs])
      control := .streaming rest }, ?_, rfl, rfl⟩
    simp [State.resume, hc]
  | drainCompleted =>
    refine ⟨{ s with
      queue := (drainCompleted s.queue).2
      control := .streaming rest
      returned := s.returned ++ (drainCompleted s.queue).1 }, ?_, rfl, rfl⟩
    simp [State.resume, hc]

/-- Where no task has a step left, the executor has one, until `finish_all` returns. -/
theorem resume_of_ended
    (h : ∀ t ∈ s.queue, t.joinHandle ≠ some .spawned ∧ t.joinHandle ≠ some .running) :
    s.control = .finished ∨ ∃ s', s.resume defs = some s' := by
  cases hc : s.control with
  | streaming rest =>
    right
    cases rest with
    | nil => exact ⟨_, resume_finishAll hc⟩
    | cons call rest =>
      obtain ⟨s', hstep, -⟩ : ∃ s', s.resume defs = some s' ∧ _ ∧ _ := resume_call hc
      exact ⟨s', hstep⟩
  | awaiting b i =>
    right
    cases hq : s.queue[i]? with
    | none =>
      cases b with
      | true => exact ⟨_, resume_restart hc (List.getElem?_eq_none_iff.1 hq)⟩
      | false => exact ⟨_, resume_finish hc (List.getElem?_eq_none_iff.1 hq)⟩
    | some t =>
      obtain ⟨hspawned, hrunning⟩ := h t (mem_of_getElem? hq)
      cases ht : t.joinHandle with
      | none => exact ⟨_, resume_skip hc hq ht⟩
      | some task =>
        cases task with
        | spawned => exact absurd ht hspawned
        | running => exact absurd ht hrunning
        | ended joined => exact ⟨_, resume_settle hc hq ht⟩
  | finished => exact .inl rfl

end Enabled

end Termination

/-! ## A schedule in which a batch overlaps -/

section Overlapping

variable {s s' : State Input} {q front back : List (TrackedTool Input)} {t : TrackedTool Input}
  {e : Event} {rs : List (Request Input)}

theorem Reaches.start : Reaches defs calls (.start calls) := ⟨[], .nil⟩

theorem Reaches.next (h : Reaches defs calls s) (hstep : s.step defs e = some s') :
    Reaches defs calls s' := by
  obtain ⟨hist, run⟩ := h
  exact ⟨_, .step run hstep⟩

/-- All calls before `finish_all` are served before any task begins. -/
theorem reaches_streamed {rest : List (Call Input)} (h : Reaches defs calls s)
    (hc : s.control = .streaming rest) :
    ∃ s', Reaches defs calls s' ∧ s'.control = .streaming [] ∧ s'.siblingErrored = s.siblingErrored := by
  induction rest generalizing s with
  | nil => exact ⟨s, h, hc, rfl⟩
  | cons call rest ih =>
    obtain ⟨s₁, hstep, hc₁, herrored⟩ : ∃ s₁, s.resume defs = some s₁ ∧
        s₁.control = .streaming rest ∧ s₁.siblingErrored = s.siblingErrored := resume_call hc
    obtain ⟨s₂, hreach, hc₂, herrored₂⟩ := ih (h.next (e := .resume) hstep) hc₁
    exact ⟨s₂, hreach, hc₂, herrored₂.trans herrored⟩

/-- A state of the first pass over the queue in which no tool has gone wrong. -/
structure FirstAt (defs : List (Tool Input)) (calls : List (Call Input)) (s : State Input)
    (i : Nat) : Prop where
  reaches : Reaches defs calls s
  control : s.control = .awaiting true i
  errored : s.siblingErrored = false
  pass : FirstPass defs (added calls) i s.queue

theorem firstAt_zero : ∃ s, FirstAt defs calls s 0 := by
  have hstart : Reaches defs calls (.start calls) := .start
  obtain ⟨s, hreach, hc, herrored⟩ := reaches_streamed hstart rfl
  have hinv := hreach.inv
  unfold Inv at hinv
  rw [hc] at hinv
  obtain ⟨rs, hall, -, hadmitted⟩ := hinv
  rw [added, append_nil] at hall
  subst hall
  refine ⟨_, hreach.next (e := .resume) (resume_finishAll hc), rfl, herrored, ?_⟩
  rw [hadmitted.stays]
  exact hadmitted.firstPass

theorem getElem?_split (hq : s.queue = front ++ t :: back) : s.queue[front.length]? = some t := by
  rw [hq, getElem?_append_right (by omega), Nat.sub_self]
  rfl

theorem set_append (t' : TrackedTool Input) (hq : s.queue = front ++ t :: back) :
    s.queue.set front.length t' = front ++ t' :: back := by
  rw [hq, set_append_right _ _ (by omega), Nat.sub_self]
  rfl

theorem begins_eq (hq : s.queue = front ++ t :: back) (ht : t.joinHandle = some .spawned)
    (herrored : s.siblingErrored = false) :
    s.begins front.length = some { s with
      queue := front ++ { t with joinHandle := some .running } :: back } := by
  simp [State.begins, getElem?_split hq, ht, herrored, set_append _ hq]

/-- The result of a tool that goes well. -/
def fine : Joined := .returned ⟨"", false⟩

theorem ends_eq (hq : s.queue = front ++ t :: back) (ht : t.joinHandle = some .running) :
    s.ends front.length fine = some { s with
      queue := front ++ { t with joinHandle := some (.ended fine) } :: back } := by
  simp [State.ends, getElem?_split hq, ht, set_append _ hq, fine, Joined.errored]

theorem FirstAt.task {task : Task} (h : FirstAt defs calls s front.length)
    (hq : s.queue = front ++ t :: back) (ht : t.joinHandle.isSome)
    (hstep : s.step defs e = some { s with
      queue := front ++ { t with joinHandle := some task } :: back }) :
    FirstAt defs calls { s with queue := front ++ { t with joinHandle := some task } :: back }
      front.length where
  reaches := h.reaches.next hstep
  control := h.control
  errored := h.errored
  pass := by
    have hpass := h.pass
    rw [hq] at hpass
    have hsound := hpass.sound t (mem_append_right _ mem_cons_self)
    exact hpass.same ⟨rfl, rfl⟩ ⟨hsound.flag, by simpa using hsound.handle.1 ht⟩

theorem FirstAt.await (h : FirstAt defs calls s front.length) (hq : s.queue = front ++ t :: back)
    (ht : t.joinHandle.isSome) :
    ∃ s' t' joined, FirstAt defs calls s' front.length ∧ s'.queue = front ++ t' :: back ∧
      t'.joinHandle = some (.ended joined) := by
  obtain ⟨task, htask⟩ := Option.isSome_iff_exists.1 ht
  cases task with
  | ended joined => exact ⟨s, t, joined, h, hq, htask⟩
  | running =>
    exact ⟨_, _, fine, h.task (e := .ends front.length fine) hq ht (ends_eq hq htask), rfl, rfl⟩
  | spawned =>
    have hbegun := h.task (e := .begins front.length) hq ht (begins_eq hq htask h.errored)
    exact ⟨_, _, fine, hbegun.task (e := .ends front.length fine) rfl rfl (ends_eq rfl rfl), rfl, rfl⟩

theorem FirstAt.advance (h : FirstAt defs calls s front.length) (hq : s.queue = front ++ t :: back) :
    ∃ s', FirstAt defs calls s' (front.length + 1) ∧ s'.queue.length = s.queue.length := by
  cases ht : t.joinHandle with
  | none =>
    have hpass := h.pass
    rw [hq] at hpass
    refine ⟨_, ⟨h.reaches.next (e := .resume) (resume_skip h.control (getElem?_split hq) ht), rfl,
      h.errored, ?_⟩, rfl⟩
    rw [hq]
    exact hpass.skip ht
  | some task =>
    obtain ⟨s', t', joined, h', hq', ht'⟩ := h.await hq (by rw [ht]; rfl)
    have hpass := h'.pass
    rw [hq'] at hpass
    have hexec : t'.status = .executing :=
      (hpass.sound t' (mem_append_right _ mem_cons_self)).handle.1 (by rw [ht']; rfl)
    refine ⟨_, ⟨h'.reaches.next (e := .resume) (resume_settle h'.control (getElem?_split hq') ht'),
      rfl, h'.errored, ?_⟩, ?_⟩
    · rw [set_append _ hq']
      exact hpass.settle hexec
    · simp [hq', hq]

theorem FirstAt.complete {i : Nat} (h : FirstAt defs calls s i) (hle : i ≤ s.queue.length) :
    ∃ s', FirstAt defs calls s' s'.queue.length := by
  obtain ⟨n, hn⟩ := Nat.exists_eq_add_of_le hle
  induction n generalizing s i with
  | zero => exact ⟨s, by rw [hn]; exact h⟩
  | succ n ih =>
    have hlt : i < s.queue.length := by omega
    obtain ⟨front, back, hq, rfl, -⟩ := set_split (getElem?_eq_getElem hlt)
    obtain ⟨s', h', hlength⟩ := h.advance hq
    exact ih h' (by omega) (by omega)

theorem spawned_startQueued {allSafe : Bool} (h : withStatus .executing q = [])
    (ht : t ∈ startQueued defs true allSafe q) (hexec : t.status = .executing) :
    t.joinHandle = some .spawned := by
  rw [startQueued_idle] at ht
  obtain ⟨t₀, ht₀, rfl⟩ := List.mem_map.1 ht
  by_cases hqueued : t₀.status = .queued
  · rw [if_pos hqueued] at hexec ⊢
    unfold TrackedTool.start at hexec ⊢
    split at hexec
    · cases hexec
    · rfl
  · rw [if_neg hqueued] at hexec
    exact absurd hexec (withStatus_eq_nil.1 h t₀ ht₀)

theorem reaches_restarted : ∃ s, Reaches defs calls s ∧ s.siblingErrored = false ∧
    withStatus .executing s.queue = (backlog defs (added calls)).filter (·.known defs) ∧
    (∀ t ∈ s.queue, t.status = .executing → t.joinHandle = some .spawned) ∧
    ∀ t ∈ s.queue, t.Sound defs := by
  obtain ⟨s₀, h₀⟩ : ∃ s, FirstAt defs calls s 0 := firstAt_zero
  obtain ⟨s, h⟩ := h₀.complete (by omega)
  obtain ⟨hlater, hbatch⟩ := h.pass.restart
  refine ⟨_, h.reaches.next (e := .resume) (resume_restart h.control (by omega)), h.errored,
    hbatch, fun t ht hexec => ?_, hlater.sound⟩
  have hpassed := h.pass.passed
  rw [take_length] at hpassed
  unfold tryStartQueued at ht
  rw [executing_isEmpty, hpassed] at ht
  exact spawned_startQueued hpassed ht hexec

theorem reaches_both (h : Reaches defs calls s) (herrored : s.siblingErrored = false) {i j : Nat}
    (hi : i < s.queue.length) (hj : j < s.queue.length) (hne : i ≠ j)
    (hspawned : s.queue[i].joinHandle = some .spawned)
    (hspawned' : s.queue[j].joinHandle = some .spawned) :
    ∃ s', Reaches defs calls s' ∧ s'.queue =
      (s.queue.set i { s.queue[i] with joinHandle := some .running }).set j
        { s.queue[j] with joinHandle := some .running } := by
  have hfirst : s.begins i = some { s with
      queue := s.queue.set i { s.queue[i] with joinHandle := some .running } } := by
    simp [State.begins, getElem?_eq_getElem hi, hspawned, herrored]
  have hget : (s.queue.set i { s.queue[i] with joinHandle := some .running })[j]? =
      some s.queue[j] := by
    rw [getElem?_set_ne hne, getElem?_eq_getElem hj]
  have hsecond : State.begins { s with
        queue := s.queue.set i { s.queue[i] with joinHandle := some .running } } j =
      some { s with
        queue := (s.queue.set i { s.queue[i] with joinHandle := some .running }).set j
          { s.queue[j] with joinHandle := some .running } } := by
    simp [State.begins, hget, hspawned', herrored]
  exact ⟨_, (h.next (e := .begins i) hfirst).next (e := .begins j) hsecond, rfl⟩

theorem separable_of_exclusive (h : ∀ {s}, Reaches defs calls s → Exclusive s.queue) :
    Separable defs (added calls) := by
  obtain ⟨s, hreach, herrored, hbatch, hspawned, hsound⟩ : ∃ s, Reaches defs calls s ∧ _ :=
    reaches_restarted
  unfold Separable
  rw [← hbatch, pairwise_executing, pairwise_iff_getElem]
  intro i j hi hj hij hexec hexec'
  have hmem := getElem_mem hi
  have hmem' := getElem_mem hj
  obtain ⟨s', hreach', hqueue⟩ := reaches_both hreach herrored hi hj hij.ne
    (hspawned _ hmem hexec) (hspawned _ hmem' hexec')
  have hexclusive := pairwise_iff_getElem.1 (h hreach') i j
  simp only [hqueue, length_set] at hexclusive
  have hboth := hexclusive hi hj hij
  rw [getElem_set_ne hij.ne', getElem_set_self, getElem_set_self] at hboth
  obtain ⟨hsafe, hsafe'⟩ := hboth rfl rfl
  exact ⟨(hsound _ hmem).flag ▸ hsafe, (hsound _ hmem').flag ▸ hsafe'⟩

end Overlapping

/-- What the executor is to do with these calls, followed by `finish_all`, in every schedule. -/
structure Orderly (defs : List (Tool Input)) (calls : List (Call Input)) : Prop where
  exclusive : ∀ {s}, Reaches defs calls s → Exclusive s.queue
  inOrder : ∀ {s}, Reaches defs calls s → InOrder s.queue
  ends : ∀ f : Nat → State Input, f 0 = .start calls →
    ¬ ∀ n, ∃ e, (f n).step defs e = some (f (n + 1))
  waits : ∀ {s}, Reaches defs calls s →
    (∀ t ∈ s.queue, t.joinHandle ≠ some .spawned ∧ t.joinHandle ≠ some .running) →
    s.control = .finished ∨ ∃ s', s.resume defs = some s'
  answers : ∀ {s}, Reaches defs calls s → s.control = .finished →
    s.returned.map (·.toRequest) = added calls

/-- Only the batch of the backlog decides; the rest of what the executor promises it keeps always. -/
theorem orderly_iff : Orderly defs calls ↔ Separable defs (added calls) := by
  constructor
  · intro h
    exact separable_of_exclusive h.exclusive
  · intro hsep
    refine ⟨fun hreach => ?_, fun hreach => ?_, fun f hstart hsteps => no_infinite_run f hstart hsteps,
      fun _ hended => resume_of_ended hended, fun {s} hreach hfinished => ?_⟩
    · obtain ⟨hkept, hapart⟩ := hreach.inv.apart hsep
      exact hkept.exclusive hapart
    · obtain ⟨hkept, hapart⟩ := hreach.inv.apart hsep
      exact hkept.inOrder hapart
    · have hinv := hreach.inv
      unfold Inv at hinv
      rw [hfinished] at hinv
      obtain ⟨hanswered, hempty⟩ := hinv
      rwa [State.answered, hempty, map_nil, append_nil] at hanswered

def writeFile : Tool Unit := ⟨"write_file", fun _ => false, false⟩

def threeWrites : List (Call Unit) :=
  [.addTool ⟨"a", "write_file", ()⟩, .addTool ⟨"b", "write_file", ()⟩,
    .addTool ⟨"c", "write_file", ()⟩]

theorem not_orderly_writes : ¬ Orderly [writeFile] threeWrites := by
  intro h
  have hsep := separable_of_exclusive h.exclusive
  have hbeside : Beside [writeFile] ⟨"b", "write_file", ()⟩ ⟨"c", "write_file", ()⟩ :=
    (pairwise_cons.1 hsep).1 _ mem_cons_self
  exact nomatch hbeside.1

end Aeqi.Agent
