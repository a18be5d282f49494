import Aeqi.Lib.Hierarchy
import Aeqi.Quests.Reopening

/-!
# Containers close with their children

A quest without checkpoints is a container: it is to be closed when all its children are. `close`
sees to that, upwards from the quest that it closes. `cancel` and `update` write their quest and
look no further, and none of them looks at what it writes when an append fails. So the board stays
settled where they do not take the last open child from a container.
-/

namespace Aeqi.Quests

open Aeqi.Lib List Option
open Function (update_apply update_of_ne update_self)

/-! ## The tree of the ids -/

namespace QuestId

variable {id p : String}

theorem depth_eq_of_parent (h : parent id = some p) : depth id = depth p + 1 := by
  obtain ⟨last, hlast, hdot⟩ := exists_lastDot h
  unfold depth
  rw [hlast, count_append, count_cons_self, count_eq_zero.2 hdot]

theorem parent_ne_self : parent id ≠ some id := by
  intro h
  have hdepth := depth_eq_of_parent h
  omega

end QuestId

open QuestId (child depth depth_eq_of_parent parent parent_ne_self root)

def questTree (C : Type) : Hierarchy String (StoredQuest C) where
  parent := QuestId.parent
  closed q := q.isClosed = true
  exempt q := q.checkpoints ≠ []
  irrefl _ := parent_ne_self

namespace QuestBoard

variable {C : Type} {reread : C → Option C} {b b' : QuestBoard C} {q : StoredQuest C}
  {id p : String} {now : Nat}

def view (b : QuestBoard C) (id : String) : Option (StoredQuest C) := b.quests.lookup id

def Keyed (b : QuestBoard C) : Prop := ∀ id q, b.quests.lookup id = some q → q.id = id

/-- Every container with a child has an open child. -/
def Settled (b : QuestBoard C) : Prop := (questTree C).Settled b.view

theorem view_insert (dir : Accounts String (LogFile (StoredQuest C)))
    (sequences : Accounts String Nat) :
    (⟨dir, b.quests.insert id q, sequences⟩ : QuestBoard C).view =
      Function.update b.view id (some q) := by
  funext i
  unfold view
  rw [update_apply]
  split_ifs with h
  · rw [h, AList.lookup_insert]
  · rw [AList.lookup_insert_ne h]

theorem quests_persist (reread : C → Option C) (b : QuestBoard C) (io : Append)
    (q : StoredQuest C) : (b.persist reread io q).2.quests = b.quests := by
  cases io <;> rfl

theorem view_update (reread : C → Option C) (f : StoredQuest C → StoredQuest C) (io : Append)
    (now : Nat) (h : b.view id = some q) :
    (b.update reread id f io now).2.view =
      Function.update b.view id (some { f q with updatedAt := some now }) := by
  have hquests : (b.update reread id f io now).2.quests =
      b.quests.insert id { f q with updatedAt := some now } := by
    have hpersist := quests_persist reread
      { b with quests := b.quests.insert id { f q with updatedAt := some now } } io
      { f q with updatedAt := some now }
    unfold update
    rw [show b.quests.lookup id = some q from h]
    dsimp only
    split
    next b₁ hb₁ =>
      rw [hb₁] at hpersist
      exact hpersist
    next b₁ hb₁ =>
      rw [hb₁] at hpersist
      exact hpersist
  rw [← view_insert b.dir b.sequences]
  unfold view
  rw [hquests]

variable {f : StoredQuest C → StoredQuest C}

theorem update_of_none {io : Append} (h : b.view id = none) :
    (b.update reread id f io now).2 = b := by
  unfold update
  rw [show b.quests.lookup id = none from h]

theorem Keyed.update {io : Append} (h : b.Keyed) (hf : ∀ q, b.view id = some q → (f q).id = q.id) :
    (b.update reread id f io now).2.Keyed := by
  cases hq : b.view id with
  | none =>
    rw [update_of_none hq]
    exact h
  | some q =>
    intro i q' hq'
    have hview : (b.update reread id f io now).2.view i = some q' := hq'
    rw [view_update _ _ _ _ hq, update_apply] at hview
    split_ifs at hview with hi
    · rw [← some.inj hview, hi]
      exact (hf q hq).trans (h id q hq)
    · exact h i q' hview

theorem mem_children (h : b.Keyed) {c : String} :
    c ∈ b.children p ↔ (questTree C).Child b.view p c := by
  unfold children Hierarchy.Child
  rw [List.mem_map]
  constructor
  · rintro ⟨q, hq, rfl⟩
    obtain ⟨hmem, hparent⟩ := mem_filter.1 hq
    have hlookup : b.view q.id = some q := (values_mem h).1 hmem
    rw [hlookup]
    exact ⟨of_decide_eq_true hparent, rfl⟩
  · rintro ⟨hparent, hsome⟩
    obtain ⟨q, hq⟩ := Option.isSome_iff_exists.1 hsome
    obtain rfl := h c q hq
    exact ⟨q, mem_filter.2 ⟨(values_mem h).2 hq, decide_eq_true hparent⟩, rfl⟩

theorem any_closed {c : String} :
    (b.quests.lookup c).any (·.isClosed) = true ↔ (questTree C).ClosedAt b.view c := by
  rw [Option.any_eq_true]
  exact Iff.rfl

theorem not_full_iff (h : b.Keyed) :
    (b.children p = [] ∨
      ¬ (b.children p).all (fun cid => (b.quests.lookup cid).any (·.isClosed)) = true) ↔
      ¬ (questTree C).Full b.view p := by
  unfold Hierarchy.Full
  rw [not_and_or]
  refine or_congr ?_ (not_congr ?_)
  · rw [eq_nil_iff_forall_not_mem, not_exists]
    exact forall_congr' fun c => not_congr (mem_children h)
  · rw [List.all_eq_true]
    exact forall_congr' fun c => by rw [mem_children h, any_closed]

/-! ## What becomes of a parent -/

def AllCancelled (m : String → Option (StoredQuest C)) (p : String) : Prop :=
  ∀ c, (questTree C).Child m p c → ∃ q, m c = some q ∧ q.status = .cancelled

/-- What becomes of an open quest `q` once all its children are closed. -/
def Concluded (m : String → Option (StoredQuest C)) (p : String) (q : StoredQuest C) : Prop :=
  ∃ q', m p = some q' ∧ (q.checkpoints ≠ [] → q'.status = .todo) ∧
    (q.checkpoints = [] → AllCancelled m p → q'.status = .cancelled) ∧
    (q.checkpoints = [] → ¬ AllCancelled m p → q'.status = .done)

theorem AllCancelled.congr {m m' : String → Option (StoredQuest C)}
    (h : ∀ c, parent c = some p → m' c = m c) : AllCancelled m' p ↔ AllCancelled m p := by
  unfold AllCancelled Hierarchy.Child
  refine forall_congr' fun c => ⟨fun hm hc => ?_, fun hm hc => ?_⟩
  · rw [← h c hc.1] at hc ⊢
    exact hm hc
  · rw [h c hc.1] at hc ⊢
    exact hm hc

theorem finishParent_status (h : b.Keyed) :
    (AllCancelled b.view p → (b.finishParent (b.children p) now q).status = .cancelled) ∧
      (¬ AllCancelled b.view p → (b.finishParent (b.children p) now q).status = .done) := by
  have hall : (b.children p).all (fun cid => (b.quests.lookup cid).any fun q =>
      decide (q.status = .cancelled)) = true ↔ AllCancelled b.view p := by
    rw [List.all_eq_true]
    refine forall_congr' fun c => ?_
    rw [mem_children h, Option.any_eq_true]
    simp only [decide_eq_true_eq]
    exact Iff.rfl
  unfold finishParent
  rw [← hall]
  constructor
  · intro hcancelled
    rw [if_pos hcancelled]
    rfl
  · intro hcancelled
    rw [if_neg hcancelled]
    rfl

theorem finishParent_closed : (b.finishParent (b.children p) now q).isClosed = true := by
  unfold finishParent Quest.isClosed StoredQuest.finish StoredQuest.setQuestOutcome
  split <;> rfl

theorem update_done_ok (reread : C → Option C) (f : StoredQuest C → StoredQuest C) (now : Nat)
    (h : b.view id = some q) :
    b.update reread id f .done now = (.ok { f q with updatedAt := some now },
      (b.update reread id f .done now).2) := by
  unfold update
  rw [show b.quests.lookup id = some q from h]
  rfl

variable {io : Nat → Append}

theorem cascade_cases (reread : C → Option C) (now : Nat) (id : String) (h : b.Keyed)
    (hio : ∀ n, io n = .done) (depth n : Nat) :
    (b.cascadeParentClose reread io now (depth + 1) n id = b ∧
      ∀ p q, parent id = some p → b.view p = some q → q.isClosed = false →
        ¬ (questTree C).Full b.view p) ∨
    ∃ p q, parent id = some p ∧ b.view p = some q ∧ q.isClosed = false ∧
      (questTree C).Full b.view p ∧
      (q.checkpoints ≠ [] ∧ b.cascadeParentClose reread io now (depth + 1) n id =
          (b.update reread p (fun q => { q with toQuest := { q.toQuest with status := .todo } })
            .done now).2 ∨
        q.checkpoints = [] ∧ b.cascadeParentClose reread io now (depth + 1) n id =
          (b.update reread p (b.finishParent (b.children p) now) .done now).2.cascadeParentClose
            reread io now depth (n + 1) p) := by
  rw [cascadeParentClose]
  cases hparent : parent id with
  | none => exact .inl ⟨rfl, fun p q hp => by cases hp⟩
  | some p =>
    dsimp only
    cases hq : b.quests.lookup p with
    | none =>
      refine .inl ⟨rfl, fun p' q hp hq' => ?_⟩
      obtain rfl := some.inj hp
      rw [show b.view p = none from hq] at hq'
      cases hq'
    | some q =>
      dsimp only
      rw [hio n]
      split_ifs with hstop hworked
      · refine .inl ⟨rfl, fun p' q' hp hq' hopen => ?_⟩
        obtain rfl := some.inj hp
        rw [show b.view p = some q from hq] at hq'
        obtain rfl := some.inj hq'
        rcases hstop with hclosed | hstop
        · rw [hopen] at hclosed
          cases hclosed
        · exact (not_full_iff h).1 hstop
      · rw [not_or] at hstop
        exact .inr ⟨p, q, rfl, hq, Bool.not_eq_true _ ▸ hstop.1,
          not_not.1 (mt (not_full_iff h).2 hstop.2), .inl ⟨hworked, rfl⟩⟩
      · rw [not_or] at hstop
        refine .inr ⟨p, q, rfl, hq, Bool.not_eq_true _ ▸ hstop.1,
          not_not.1 (mt (not_full_iff h).2 hstop.2), .inr ⟨not_not.1 hworked, ?_⟩⟩
        rw [update_done_ok _ _ _ hq]

/-! ## The cascade -/

/-- What a call that closes `id` does of its own accord: the parent of every quest that it has
closed is concluded if all its children are closed, and no other quest is changed. -/
structure Carried (m m' : String → Option (StoredQuest C)) (id : String) : Prop where
  concluded : ∀ c, (c = id ∨ ¬ (questTree C).ClosedAt m c ∧ (questTree C).ClosedAt m' c) →
    ∀ p q, parent c = some p → m p = some q → q.isClosed = false →
      (questTree C).Full m' p → Concluded m' p q
  others : ∀ i, i ≠ id → m' i ≠ m i → ∃ q, m i = some q ∧ q.isClosed = false ∧
    (questTree C).Full m' i ∧ Concluded m' i q

structure Cascades (b b' : QuestBoard C) (id : String) : Prop where
  keyed : b'.Keyed
  settled : b'.Settled
  carried : Carried b.view b'.view id
  above : ∀ i, b'.view i ≠ b.view i → depth i < depth id

theorem cascades_refl (h : b.Keyed) (hbut : (questTree C).SettledBut b.view (parent id))
    (hparent : ∀ p q, parent id = some p → b.view p = some q → q.isClosed = false →
      ¬ (questTree C).Full b.view p) : Cascades b b id where
  keyed := h
  settled := by
    refine hbut.settled fun p hp q hq hopen _ => hparent p q hp hq ?_
    exact Bool.not_eq_true _ ▸ hopen
  carried := by
    constructor
    · rintro c (rfl | ⟨hopen, hclosed⟩) p q hp hq hq' hfull
      · exact absurd hfull (hparent p q hp hq hq')
      · exact absurd hclosed hopen
    · exact fun i _ hne => absurd rfl hne
  above := fun i hne => absurd rfl hne

theorem cascades_requeue (h : b.Keyed)
    (hbut : (questTree C).SettledBut b.view (parent id)) (hp : parent id = some p)
    (hq : b.view p = some q) (hopen : q.isClosed = false) (hfull : (questTree C).Full b.view p)
    (hworked : q.checkpoints ≠ []) :
    Cascades b (b.update reread p
      (fun q => { q with toQuest := { q.toQuest with status := .todo } }) .done now).2 id := by
  have hview := view_update reread
    (fun q => { q with toQuest := { q.toQuest with status := .todo } }) .done now hq
  set requeued := (b.update reread p
    (fun q => { q with toQuest := { q.toQuest with status := .todo } }) .done now).2
  rw [hp] at hbut
  have hconcluded : Concluded requeued.view p q := by
    rw [hview]
    exact ⟨_, update_self .., fun _ => rfl, fun hnone => absurd hnone hworked,
      fun hnone => absurd hnone hworked⟩
  have hfull' : (questTree C).Full requeued.view p := by
    rw [hview]
    exact (Hierarchy.full_update parent_ne_self).2 hfull
  have hchanged : ∀ i, requeued.view i ≠ b.view i → i = p := by
    intro i hne
    by_contra hi
    rw [hview, update_of_ne hi] at hne
    exact hne rfl
  refine ⟨h.update fun _ _ => rfl, ?_, ⟨?_, fun i _ hne => ?_⟩, fun i hne => ?_⟩
  · unfold Settled
    rw [hview]
    refine hbut.reopen ?_ fun hexempt => absurd hworked hexempt
    exact fun hclosed => Bool.noConfusion hclosed
  · rintro c (rfl | ⟨hnot, hclosed⟩) p' q' hp' hq' - -
    · rw [hp] at hp'
      obtain rfl := some.inj hp'
      rw [hq] at hq'
      obtain rfl := some.inj hq'
      exact hconcluded
    · rw [hview] at hclosed
      rcases Hierarchy.closedAt_update.1 hclosed with ⟨-, hclosed⟩ | ⟨-, hclosed⟩
      · exact Bool.noConfusion hclosed
      · exact absurd hclosed hnot
  · obtain rfl := hchanged i hne
    exact ⟨q, hq, hopen, hfull', hconcluded⟩
  · rw [hchanged i hne, depth_eq_of_parent hp]
    omega

theorem cascades_finish {b₁ : QuestBoard C} {q₁ : StoredQuest C}
    (hview : b₁.view = Function.update b.view p (some q₁))
    (hstatus : (AllCancelled b.view p → q₁.status = .cancelled) ∧
      (¬ AllCancelled b.view p → q₁.status = .done))
    (hp : parent id = some p) (hq : b.view p = some q) (hopen : q.isClosed = false)
    (hfull : (questTree C).Full b.view p) (hpure : q.checkpoints = [])
    (h : Cascades b₁ b' p) : Cascades b b' id := by
  have hdepth := depth_eq_of_parent hp
  have hchild : ∀ c, parent c = some p → c ≠ p := by
    rintro c hc rfl
    exact parent_ne_self hc
  -- what the cascade changes from here on lies above the parent
  have hkeeps : ∀ i, depth p ≤ depth i → b'.view i = b₁.view i := by
    intro i hi
    by_contra hne
    exact absurd (h.above i hne) (not_lt.2 hi)
  have hsame : ∀ i, i ≠ p → b₁.view i = b.view i := fun i hi => by
    rw [hview, update_of_ne hi]
  have hbelow : ∀ c, parent c = some p → b'.view c = b.view c := by
    intro c hc
    rw [hkeeps c (by rw [depth_eq_of_parent hc]; omega), hsame c (hchild c hc)]
  have hfull' : (questTree C).Full b'.view p := (Hierarchy.full_congr hbelow).2 hfull
  have hself : b'.view p = some q₁ := by
    rw [hkeeps p (le_rfl), hview, update_self]
  have hconcluded : Concluded b'.view p q := by
    refine ⟨q₁, hself, fun hworked => absurd hpure hworked, fun _ hall => ?_, fun _ hall => ?_⟩
    · exact hstatus.1 ((AllCancelled.congr hbelow).1 hall)
    · exact hstatus.2 (mt (AllCancelled.congr hbelow).2 hall)
  refine ⟨h.keyed, h.settled, ⟨?_, fun i _ hne => ?_⟩, fun i hne => ?_⟩
  · intro c hc p' q' hp' hq' hopen' hfull''
    rcases hc with rfl | ⟨hnot, hclosed'⟩
    · rw [hp] at hp'
      obtain rfl := some.inj hp'
      rw [hq] at hq'
      obtain rfl := some.inj hq'
      exact hconcluded
    · -- a parent of a quest that has been closed is not `p`: all children of `p` were closed
      have hne : p' ≠ p := by
        rintro rfl
        have hthere := hclosed'
        obtain ⟨s, hs, -⟩ := hthere
        rw [hbelow c hp'] at hs
        exact hnot (hfull.2 c ⟨hp', by rw [hs]; rfl⟩)
      refine h.carried.concluded c ?_ p' q' hp' (by rw [hsame p' hne]; exact hq') hopen' hfull''
      by_cases hcp : c = p
      · exact .inl hcp
      · refine .inr ⟨?_, hclosed'⟩
        rintro ⟨s, hs, hs'⟩
        rw [hsame c hcp] at hs
        exact hnot ⟨s, hs, hs'⟩
  · by_cases hip : i = p
    · rw [hip]
      exact ⟨q, hq, hopen, hfull', hconcluded⟩
    · rw [← hsame i hip] at hne ⊢
      exact h.carried.others i hip hne
  · by_cases hip : i = p
    · rw [hip, hdepth]
      omega
    · rw [← hsame i hip] at hne
      exact (h.above i hne).trans (by rw [hdepth]; omega)

theorem cascades_cascade (hio : ∀ n, io n = .done) {depth n : Nat} (h : b.Keyed)
    (hdepth : QuestId.depth id ≤ depth)
    (hbut : (questTree C).SettledBut b.view (parent id)) :
    Cascades b (b.cascadeParentClose reread io now depth n id) id := by
  induction depth generalizing b id n with
  | zero =>
    refine cascades_refl h hbut fun p q hp => ?_
    rw [depth_eq_of_parent hp] at hdepth
    exact absurd hdepth (by omega)
  | succ depth ih =>
    rcases cascade_cases reread now id h hio depth n with
      ⟨heq, hparent⟩ | ⟨p, q, hp, hq, hopen, hfull, ⟨hworked, heq⟩ | ⟨hpure, heq⟩⟩
    · rw [heq]
      exact cascades_refl h hbut hparent
    · rw [heq]
      exact cascades_requeue h hbut hp hq hopen hfull hworked
    · rw [heq]
      have hview := view_update reread (b.finishParent (b.children p) now) .done now hq
      refine cascades_finish hview (finishParent_status h) hp hq hopen hfull
        hpure (ih (h.update fun _ _ => rfl) ?_ ?_)
      · rw [depth_eq_of_parent hp] at hdepth
        omega
      · rw [hp] at hbut
        rw [hview]
        exact hbut.close (H := questTree C) finishParent_closed

/-! ## The calls -/

/-- The parent waits for this child only, and is a container or has not been put back yet. -/
def Owed (b : QuestBoard C) (id : String) : Prop :=
  ∃ p q, parent id = some p ∧ b.view p = some q ∧ q.isClosed = false ∧
    (q.checkpoints = [] ∨ q.status ≠ .todo) ∧
    ∀ c, (questTree C).Child b.view p c → c ≠ id → (questTree C).ClosedAt b.view c

/-- What a change may do to a quest that nothing follows from. -/
def Harmless (b : QuestBoard C) (id : String) (q q' : StoredQuest C) : Prop :=
  q'.id = q.id ∧
    (q'.isClosed = true → q.isClosed = true ∨ ¬ (questTree C).LastOpen b.view id) ∧
    (q'.isClosed = false → q'.checkpoints = [] → ¬ (questTree C).Full b.view id)

theorem not_lastOpen_of_not_owed (h : ¬ b.Owed id) : ¬ (questTree C).LastOpen b.view id := by
  rintro ⟨p, q, hp, hq, hopen, hpure, hothers⟩
  exact h ⟨p, q, hp, hq, Bool.not_eq_true _ ▸ hopen, .inl (not_not.1 hpure), hothers⟩

theorem settled_of_update {q' : StoredQuest C} (h : b.Settled) (hq : b.view id = some q)
    (hview : b'.view = Function.update b.view id (some q')) (hf : b.Harmless id q q') :
    b'.Settled := by
  unfold Settled
  rw [hview]
  cases hclosed : q'.isClosed with
  | true =>
    rcases hf.2.1 hclosed with hwas | hlast
    · exact Hierarchy.Settled.closed_again h hq hwas hclosed
    · exact Hierarchy.Settled.close h hclosed hlast
  | false =>
    refine (Hierarchy.Settled.but h).reopen ?_ fun hexempt => ?_
    · intro htrue
      rw [show q'.isClosed = true from htrue] at hclosed
      cases hclosed
    · exact hf.2.2 hclosed (not_not.1 hexempt)

theorem Settled.update {io : Append} (h : b.Settled)
    (hf : ∀ q, b.view id = some q → b.Harmless id q (f q)) :
    (b.update reread id f io now).2.Settled := by
  cases hq : b.view id with
  | none =>
    rw [update_of_none hq]
    exact h
  | some q => exact settled_of_update h hq (view_update _ _ _ _ hq) (hf q hq)

theorem Settled.harmless {q' : StoredQuest C} (h : b.Settled) (hq : b.view id = some q)
    (hid : q'.id = q.id) (hstatus : q'.isClosed = q.isClosed)
    (hcheckpoints : q'.checkpoints = q.checkpoints) : b.Harmless id q q' := by
  refine ⟨hid, fun hclosed => .inl (hstatus ▸ hclosed), fun hopen hpure => ?_⟩
  refine h id q hq ?_ ?_
  · intro htrue
    rw [hstatus, show q.isClosed = true from htrue] at hopen
    cases hopen
  · rw [hcheckpoints] at hpure
    exact not_not.2 hpure

theorem view_add (reread : C → Option C) (b : QuestBoard C) (io : Append) (q : StoredQuest C) :
    (b.add reread io q).2.view = b.view ∨
      (b.add reread io q).2.view = Function.update b.view q.id (some q) := by
  have hpersist := quests_persist reread b io q
  unfold add
  split
  next b₁ hb₁ =>
    rw [hb₁] at hpersist
    refine .inr ?_
    rw [← view_insert b.dir b.sequences]
    funext i
    exact congrArg (fun quests : Accounts String (StoredQuest C) => (quests.insert q.id q).lookup i)
      hpersist
  next b₁ hb₁ =>
    rw [hb₁] at hpersist
    refine .inl (funext fun i => ?_)
    exact congrArg (fun quests : Accounts String (StoredQuest C) => quests.lookup i) hpersist

theorem settled_add {io : Append} (h : b.Settled) (hopen : q.isClosed = false)
    (hfull : ¬ (questTree C).Full b.view q.id) : (b.add reread io q).2.Settled := by
  unfold Settled
  rcases view_add reread b io q with hview | hview
  · rw [hview]
    exact h
  · rw [hview]
    refine (Hierarchy.Settled.but h).reopen (fun htrue => ?_) fun _ => hfull
    rw [show q.isClosed = true from htrue] at hopen
    cases hopen

theorem keyed_add {io : Append} (h : b.Keyed) : (b.add reread io q).2.Keyed := by
  intro i q' hq'
  have hi : (b.add reread io q).2.view i = some q' := hq'
  rcases view_add reread b io q with hview | hview
  · rw [hview] at hi
    exact h i q' hi
  · rw [hview, update_apply] at hi
    split_ifs at hi with heq
    · rw [← some.inj hi, heq]
    · exact h i q' hi

theorem close_carries (reread : C → Option C) (now : Nat) (reason : String) (h : b.Keyed)
    (hsettled : b.Settled) (hq : b.view id = some q) (hio : ∀ n, io n = .done) :
    (b.close reread id reason io now).2.Keyed ∧ (b.close reread id reason io now).2.Settled ∧
      Carried b.view (b.close reread id reason io now).2.view id := by
  have hupdate := update_done_ok reread (.finish .done .done reason now) now hq
  have hview := view_update reread (.finish .done .done reason now) .done now hq
  set closed := (b.update reread id (.finish .done .done reason now) .done now).2
  have hid : q.id = id := h id q hq
  have hclose : (b.close reread id reason io now).2 =
      closed.cascadeParentClose reread io now (depth id) 1 id := by
    unfold close
    rw [hio 0, hupdate]
    rw [← hid]
    rfl
  have hkeyed : closed.Keyed :=
    h.update fun _ _ => rfl
  have hbut : (questTree C).SettledBut closed.view (parent id) := by
    rw [hview]
    exact Hierarchy.SettledBut.close (H := questTree C) (Hierarchy.Settled.but hsettled) rfl
  have hcascades : Cascades _ (closed.cascadeParentClose reread io now (depth id) 1 id) id :=
    cascades_cascade hio hkeyed (by omega) hbut
  rw [hclose]
  refine ⟨hcascades.keyed, hcascades.settled, ⟨?_, fun i hi hne => ?_⟩⟩
  · intro c hc p q' hp hq' hopen hfull
    have hsame : ∀ i, i ≠ id → closed.view i = b.view i := fun i hi => by
      rw [hview, update_of_ne hi]
    have hne : p ≠ id := by
      rintro rfl
      rcases hc with rfl | ⟨hnot, hclosed⟩
      · exact parent_ne_self hp
      · -- the cascade changes no quest below the one that is closed
        refine absurd (hcascades.above c fun heq => hnot ?_) ?_
        · obtain ⟨s, hs, hs'⟩ := hclosed
          rw [heq, hsame c fun heq => parent_ne_self (heq ▸ hp)] at hs
          exact ⟨s, hs, hs'⟩
        · rw [depth_eq_of_parent hp]
          omega
    refine hcascades.carried.concluded c ?_ p q' hp (by rw [hsame p hne]; exact hq') hopen hfull
    by_cases hci : c = id
    · exact .inl hci
    · refine .inr ⟨?_, (hc.resolve_left hci).2⟩
      rintro ⟨s, hs, hs'⟩
      rw [hsame c hci] at hs
      exact (hc.resolve_left hci).1 ⟨s, hs, hs'⟩
  · have hsame : closed.view i = b.view i := by rw [hview, update_of_ne hi]
    rw [← hsame] at hne ⊢
    exact hcascades.carried.others i hi hne

theorem cancel_carries {reason : String} {io : Append} (hq : b.view id = some q)
    (howed : ¬ b.Owed id) : Carried b.view (b.cancel reread id reason io now).2.view id := by
  have hview : (b.cancel reread id reason io now).2.view = Function.update b.view id _ :=
    view_update _ _ _ _ hq
  have hsame : ∀ i, i ≠ id → (b.cancel reread id reason io now).2.view i = b.view i :=
    fun i hi => by rw [hview, update_of_ne hi]
  constructor
  · intro c hc p q' hp hq' hopen hfull
    have hci : c = id := by
      by_contra hne
      obtain ⟨hnot, s, hs, hs'⟩ := hc.resolve_left hne
      rw [hsame c hne] at hs
      exact hnot ⟨s, hs, hs'⟩
    subst hci
    have hne : p ≠ c := by
      rintro rfl
      exact parent_ne_self hp
    have hothers : ∀ c', (questTree C).Child b.view p c' → c' ≠ c →
        (questTree C).ClosedAt b.view c' := by
      intro c' hc' hne'
      have hthere : (questTree C).Child (b.cancel reread c reason io now).2.view p c' := by
        refine ⟨hc'.1, ?_⟩
        rw [hsame c' hne']
        exact hc'.2
      obtain ⟨s, hs, hs'⟩ := hfull.2 c' hthere
      rw [hsame c' hne'] at hs
      exact ⟨s, hs, hs'⟩
    by_cases howes : q'.checkpoints = [] ∨ q'.status ≠ .todo
    · exact absurd ⟨p, q', hp, hq', hopen, howes, hothers⟩ howed
    · rw [not_or, not_not] at howes
      have hsame' : (b.cancel reread c reason io now).2.view p = some q' := by rwa [hsame p hne]
      refine ⟨q', hsame', fun _ => howes.2, fun hpure => ?_, fun hpure => ?_⟩
      · exact absurd hpure howes.1
      · exact absurd hpure howes.1
  · intro i hi hne
    exact absurd (hsame i hi) hne

end QuestBoard

/-! ## Runs -/

section Runs

variable {C : Type} {reread : C → Option C} {b b' b₀ : QuestBoard C}
  {hist : List (QuestBoard C × BoardCall C × Nat)}

open QuestBoard

def BoardCall.ends : BoardCall C → Option String
  | .close id _ _ => some id
  | .cancel id _ _ => some id
  | _ => none

/-- The call leaves no container without an open child that it does not look after: a new id is not
one of which all children are closed, a change of a quest is harmless, the appends of a close
succeed, and a quest is cancelled that its parent does not wait for. The log is not read again. -/
def BoardCall.Tidy (b : QuestBoard C) : BoardCall C → Prop
  | .createWithAgent p _ _ _ =>
    ¬ (questTree C).Full b.view (root p (b.nextSeq p))
  | .createChild pid _ _ =>
    ¬ (questTree C).Full b.view (child pid ((b.childCount pid + 1) % 2 ^ 32))
  | .update id f _ => ∀ q, b.view id = some q → b.Harmless id q (f q)
  | .addDependency .. => True
  | .close id _ io => (b.view id).isSome → ∀ n, io n = .done
  | .cancel id _ _ => (b.view id).isSome → ¬ b.Owed id
  | .reload _ => False
  | .reopen _ => False

structure Keeps (b b' : QuestBoard C) (call : BoardCall C) : Prop where
  keyed : b'.Keyed
  settled : b'.Settled
  carried : ∀ id ∈ call.ends, (b.view id).isSome → Carried b.view b'.view id

theorem keeps_created {q : StoredQuest C} {io : Append} {call : BoardCall C} (h : b'.Keyed)
    (hsettled : b'.Settled) (hends : call.ends = none) (hopen : q.isClosed = false)
    (hfull : ¬ (questTree C).Full b'.view q.id) : Keeps b (b'.add reread io q).2 call where
  keyed := keyed_add h
  settled := settled_add hsettled hopen hfull
  carried := fun id hid => by rw [hends] at hid; cases hid

theorem keeps_of_tidy (reread : C → Option C) {e : BoardCall C × Nat} (h : b.Keyed)
    (hsettled : b.Settled) (htidy : e.1.Tidy b) : Keeps b (b.exec reread e.2 e.1).2 e.1 := by
  obtain ⟨call, now⟩ := e
  cases call with
  | createWithAgent p name agentId io =>
    exact keeps_created (q := .withAgent (root p (b.nextSeq p)) name agentId now) h hsettled
      rfl rfl htidy
  | createChild pid name io =>
    exact keeps_created (q := { StoredQuest.withAgent (child pid
      ((b.childCount pid + 1) % 2 ^ 32)) name none now with
        agentId := (b.quests.lookup pid).bind (·.agentId) }) h hsettled rfl rfl htidy
  | update id f io =>
    exact ⟨h.update fun q hq => (htidy q hq).1, hsettled.update htidy, nofun⟩
  | addDependency id depId io =>
    have hsame : Keeps b b (.addDependency id depId io) := ⟨h, hsettled, nofun⟩
    change Keeps b (b.addDependency reread id depId io now).2 _
    unfold addDependency
    split_ifs
    · exact hsame
    · exact hsame
    · refine ⟨h.update fun _ _ => rfl, hsettled.update fun q hq => ?_, nofun⟩
      exact hsettled.harmless hq rfl rfl rfl
  | close id reason io =>
    change Keeps b (b.close reread id reason io now).2 _
    cases hq : b.view id with
    | none =>
      have hnone : (b.close reread id reason io now).2 = b := by
        unfold close update
        rw [show b.quests.lookup id = none from hq]
      rw [hnone]
      refine ⟨h, hsettled, fun i hi hsome => ?_⟩
      obtain rfl := some.inj hi
      rw [hq] at hsome
      cases hsome
    | some q =>
      obtain ⟨hkeyed, hset, hcarried⟩ := close_carries reread now reason h hsettled hq
        (htidy (by rw [hq]; rfl))
      refine ⟨hkeyed, hset, fun i hi _ => ?_⟩
      obtain rfl := some.inj hi
      exact hcarried
  | cancel id reason io =>
    have hfinish : ∀ q, b.view id = some q →
        b.Harmless id q (.finish .cancelled .cancelled reason now q) := by
      intro q hq
      refine ⟨rfl, fun _ => .inr ?_, fun hopen => Bool.noConfusion hopen⟩
      exact not_lastOpen_of_not_owed (htidy (by rw [hq]; rfl))
    refine ⟨h.update fun _ _ => rfl, hsettled.update hfinish, fun i hi hsome => ?_⟩
    obtain rfl := some.inj hi
    obtain ⟨q, hq⟩ := Option.isSome_iff_exists.1 hsome
    exact cancel_carries hq (htidy hsome)
  | reload l | reopen l => exact htidy.elim

/-- What is claimed of a run: the board is settled whenever a close or a cancel returns, and each
has concluded the parents. -/
structure ClosesTogether (reread : C → Option C)
    (hist : List (QuestBoard C × BoardCall C × Nat)) (b : QuestBoard C) : Prop where
  settled : b.Settled
  each : ∀ e ∈ hist, ∀ id ∈ e.2.1.ends, (e.1.exec reread e.2.2 e.2.1).2.Settled ∧
    ((e.1.view id).isSome → Carried e.1.view (e.1.exec reread e.2.2 e.2.1).2.view id)

/-- In a run of tidy calls every container closes with its children. -/
theorem closesTogether_of_tidy (hkeyed : b₀.Keyed) (hsettled : b₀.Settled)
    (run : Run (Guarded (fun b e => e.1.Tidy b) (BoardStep reread)) b₀ hist b) :
    ClosesTogether reread hist b := by
  have hkeeps : b.Keyed ∧ b.Settled ∧ ∀ e ∈ hist,
      Keeps e.1 (e.1.exec reread e.2.2 e.2.1).2 e.2.1 := by
    induction run with
    | nil => exact ⟨hkeyed, hsettled, nofun⟩
    | step run hstep ih =>
      obtain ⟨htidy, -, rfl⟩ := hstep
      have hnext := keeps_of_tidy reread ih.1 ih.2.1 htidy
      exact ⟨hnext.keyed, hnext.settled, forall_mem_cons.2 ⟨hnext, ih.2.2⟩⟩
  refine ⟨hkeeps.2.1, fun e he id hid => ?_⟩
  exact ⟨(hkeeps.2.2 e he).settled, (hkeeps.2.2 e he).carried id hid⟩

theorem keyed_emptyBoard : emptyBoard.Keyed := fun _ _ hq => by cases hq

theorem settled_emptyBoard : emptyBoard.Settled := fun _ _ hq => by cases hq

/-- A quest with two children, one cancelled and then the other closed, which closes the quest. -/
theorem closesTogether_pair : ∃ hist b, hist.length = 5 ∧
    (b.view "as-001").map (·.status) = some .done ∧
    ClosesTogether (some : Unit → Option Unit) hist b := by
  let Call := Guarded (fun b e => e.1.Tidy b) (BoardStep (some : Unit → Option Unit))
  let quest : BoardCall Unit := .createWithAgent "as" "idea" none .done
  let b₁ := called emptyBoard 0 quest
  have keyed₁ : b₁.Keyed := keyed_add keyed_emptyBoard
  have step₁ : Call emptyBoard (quest, 0) b₁ :=
    ⟨(not_full_iff keyed_emptyBoard).1 (by decide +kernel), trivial, rfl⟩
  let child : BoardCall Unit := .createChild "as-001" "step" .done
  let b₂ := called b₁ 1 child
  have keyed₂ : b₂.Keyed := keyed_add keyed₁
  have step₂ : Call b₁ (child, 1) b₂ := ⟨(not_full_iff keyed₁).1 (by decide +kernel), trivial, rfl⟩
  let b₃ := called b₂ 2 child
  have step₃ : Call b₂ (child, 2) b₃ := ⟨(not_full_iff keyed₂).1 (by decide +kernel), trivial, rfl⟩
  let cancel : BoardCall Unit := .cancel "as-001.1" "not needed" .done
  let b₄ := called b₃ 3 cancel
  have howed : ¬ b₃.Owed "as-001.1" := by
    rintro ⟨p, q, hp, -, -, -, hothers⟩
    have hparent : p = "as-001" := some.inj (hp.symm.trans (by decide +kernel))
    have hchild : (questTree Unit).Child b₃.view p "as-001.2" :=
      ⟨by rw [hparent]; decide +kernel, by decide +kernel⟩
    have hclosed := any_closed.2 (hothers _ hchild (by decide))
    exact absurd hclosed (by decide +kernel)
  have step₄ : Call b₃ (cancel, 3) b₄ := ⟨fun _ => howed, trivial, rfl⟩
  let close : BoardCall Unit := .close "as-001.2" "built" fun _ => .done
  let b₅ := called b₄ 4 close
  have step₅ : Call b₄ (close, 4) b₅ := ⟨fun _ _ => rfl, trivial, rfl⟩
  exact ⟨_, b₅, rfl, by decide +kernel, closesTogether_of_tidy keyed_emptyBoard settled_emptyBoard
      (((((Run.nil.step step₁).step step₂).step step₃).step step₄).step step₅)⟩

/-- Cancelling the only child leaves its container open. -/
theorem not_closesTogether_cancel : ¬ ∀ hist b,
    Run (BoardStep (some : Unit → Option Unit)) emptyBoard hist b → ClosesTogether some hist b := by
  intro h
  let quest : BoardCall Unit := .createWithAgent "as" "idea" none .done
  let b₁ := called emptyBoard 0 quest
  have step₁ : BoardStep some emptyBoard (quest, 0) b₁ := ⟨trivial, rfl⟩
  let child : BoardCall Unit := .createChild "as-001" "step" .done
  let b₂ := called b₁ 1 child
  have step₂ : BoardStep some b₁ (child, 1) b₂ := ⟨trivial, rfl⟩
  let cancel : BoardCall Unit := .cancel "as-001.1" "not needed" .done
  let b₃ := called b₂ 2 cancel
  have step₃ : BoardStep some b₂ (cancel, 2) b₃ := ⟨trivial, rfl⟩
  have keyed₁ : b₁.Keyed := keyed_add keyed_emptyBoard
  have keyed₂ : b₂.Keyed := keyed_add keyed₁
  have keyed₃ : b₃.Keyed := keyed₂.update fun _ _ => rfl
  have hsettled := (h _ b₃ (((Run.nil.step step₁).step step₂).step step₃)).settled
  have hopen : (b₃.view "as-001").any (fun q => !q.isClosed && q.checkpoints.isEmpty) = true := by
    decide +kernel
  rw [Option.any_eq_true] at hopen
  obtain ⟨q, hq, hpure⟩ := hopen
  rw [Bool.and_eq_true, List.isEmpty_iff] at hpure
  have hnot := hsettled "as-001" q hq
    (fun hclosed => by rw [show q.isClosed = true from hclosed] at hpure; cases hpure.1)
    (not_not.2 hpure.2)
  exact absurd ((not_full_iff keyed₃).2 hnot) (by decide +kernel)

end Runs

end Aeqi.Quests
