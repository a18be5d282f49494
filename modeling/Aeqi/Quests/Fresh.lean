import Aeqi.Quests.Phases
import Mathlib.Data.Fin.VecNotation

/-!
# Fresh ids and the daily limit

A child is numbered by a count of rows and inserted under a later lock, and the daily limit is
compared with a count under a lock of its own. Calls that run side by side get fresh ids and
stay within the limit as long as no number was given, and no call was let in, that the count
does not show (`Steady`).
-/

namespace Aeqi.Quests

open Aeqi.Lib Aeqi.Orchestrator List
open Function (update_of_ne update_self)
open QuestId (childNumber parent root root_inj)

/-! ## What the tables keep -/

def Registry.createdOn (s : Registry) (agentId : String) (date : Nat) : Nat :=
  s.created.countP fun row => row.agentId = some agentId ∧ day row.createdAt = date

/-- The tables as creators leave them, whatever was deleted from `quests` since. -/
structure Registry.Sound (s : Registry) : Prop where
  ids : (s.created.map (·.id)).Nodup
  table : ∀ row ∈ s.quests, row.id ∈ s.created.map (·.id)
  numbered : ∀ row ∈ s.created, ∀ label seq, row.id = root label seq →
    seq < s.nextSeqOf label
  daily : ∀ agentId date, s.createdOn agentId date ≤ 50

/-- What a call counts towards the quests of an agent on a day, before it inserts the row. -/
def Creation.pending (q : Creation) (agentId : String) (date : Nat) (g : Phase) : Nat :=
  if g.underWay ∧ q.owner.agentId = some agentId ∧ day q.createdAt = date then 1 else 0

/-- What holds of a call in a phase, `old` being the rows created before all calls. -/
structure Own (q : Creation) (old : List QuestRow) (s : Registry) (g : Phase) : Prop where
  builds : ∀ row, g.row = some row → q.Builds row
  fresh : ∀ row, g.row = some row → row.id ∉ old.map (·.id)
  numbered : ∀ row, g.row = some row → ∀ label seq, row.id = root label seq →
    seq < s.nextSeqOf label
  free : ∀ row, g = .holding row → row.id ∉ s.created.map (·.id)
  kept : ∀ row, g = .returned (.ok row) → row ∈ s.created
  clean : ∀ violated, g ≠ .returned (.error (.sqlite violated))

section Standing

variable {ι : Type} [Fintype ι] [DecidableEq ι] {calls : ι → Creation} {old : List QuestRow}
  {s s' : Registry} {g : ι → Phase} {ph : Phase} {i : ι} {q : Creation}

/-- The tables and the calls that are under way. -/
structure Standing (calls : ι → Creation) (old : List QuestRow) (s : Registry) (g : ι → Phase) :
    Prop where
  ids : (s.created.map (·.id)).Nodup
  table : ∀ row ∈ s.quests, row.id ∈ s.created.map (·.id)
  numbered : ∀ row ∈ s.created, ∀ label seq, row.id = root label seq →
    seq < s.nextSeqOf label
  grown : old ⊆ s.created
  own : ∀ j, Own (calls j) old s (g j)
  apart : ∀ j k row row', (g j).row = some row → (g k).row = some row' → row.id = row'.id → j = k
  daily : ∀ agentId date,
    s.createdOn agentId date + ∑ j, (calls j).pending agentId date (g j) ≤ 50

theorem Own.quiet (hrow : ph.row = none) (hclean : ∀ violated, ph ≠ .returned (.error (.sqlite violated))) :
    Own q old s ph where
  builds row h := by rw [hrow] at h; cases h
  fresh row h := by rw [hrow] at h; cases h
  numbered row h := by rw [hrow] at h; cases h
  free row h := by rw [h] at hrow; cases hrow
  kept row h := by rw [h] at hrow; cases hrow
  clean := hclean

theorem Own.mono (h : Own q old s ph) (hseq : ∀ label, s.nextSeqOf label ≤ s'.nextSeqOf label)
    (hcreated : s.created ⊆ s'.created)
    (hfree : ∀ row, ph = .holding row → row.id ∉ s'.created.map (·.id)) : Own q old s' ph where
  builds := h.builds
  fresh := h.fresh
  numbered row hrow label seq hid := lt_of_lt_of_le (h.numbered row hrow label seq hid) (hseq label)
  free := hfree
  kept row hrow := hcreated (h.kept row hrow)
  clean := h.clean

omit [DecidableEq ι] in
theorem Standing.start (h : s.Sound) : Standing calls s.created s fun _ => .outside where
  ids := h.ids
  table := h.table
  numbered := h.numbered
  grown := List.Subset.refl _
  own _ := .quiet rfl fun _ h => by cases h
  apart _ _ _ _ h := by cases h
  daily agentId date := by
    simpa [Creation.pending, Phase.underWay] using h.daily agentId date

omit [DecidableEq ι] in
theorem Standing.sound (h : Standing calls old s g) : s.Sound where
  ids := h.ids
  table := h.table
  numbered := h.numbered
  daily agentId date := le_trans (Nat.le_add_right _ _) (h.daily agentId date)

theorem pending_le_one (q : Creation) (agentId : String) (date : Nat) (g : Phase) :
    q.pending agentId date g ≤ 1 := by
  unfold Creation.pending
  split <;> omega

theorem sum_pending (calls : ι → Creation) (g : ι → Phase) (i : ι) (ph : Phase) (agentId : String)
    (date : Nat) : ∑ j, (calls j).pending agentId date (Function.update g i ph j) +
      (calls i).pending agentId date (g i) =
        ∑ j, (calls j).pending agentId date (g j) + (calls i).pending agentId date ph := by
  have hothers : ∀ j, j ≠ i → (calls j).pending agentId date (Function.update g i ph j) =
      (calls j).pending agentId date (g j) := fun j hj => by rw [update_of_ne hj]
  have hsum := sum_change hothers
  simpa only [update_self] using hsum

theorem Standing.move (h : Standing calls old s g)
    (hids : (s'.created.map (·.id)).Nodup) (htable : ∀ row ∈ s'.quests, row.id ∈ s'.created.map (·.id))
    (hnumbered : ∀ row ∈ s'.created, ∀ label seq, row.id = root label seq →
      seq < s'.nextSeqOf label)
    (hseq : ∀ label, s.nextSeqOf label ≤ s'.nextSeqOf label) (hcreated : s.created ⊆ s'.created)
    (hown : Own (calls i) old s' ph)
    (hfree : ∀ j, j ≠ i → ∀ row, g j = .holding row → row.id ∉ s'.created.map (·.id))
    (hapart : ∀ j, j ≠ i → ∀ row row', ph.row = some row → (g j).row = some row' → row.id ≠ row'.id)
    (hdaily : ∀ agentId date, s'.createdOn agentId date + (calls i).pending agentId date ph ≤
      s.createdOn agentId date + (calls i).pending agentId date (g i) ∨
      s'.createdOn agentId date + ∑ j, (calls j).pending agentId date (g j) + 1 ≤ 50) :
    Standing calls old s' (Function.update g i ph) where
  ids := hids
  table := htable
  numbered := hnumbered
  grown := List.Subset.trans h.grown hcreated
  own := by
    refine (Function.forall_update_iff g fun j ph' => Own (calls j) old s' ph').2 ⟨hown, fun j hj => ?_⟩
    exact (h.own j).mono hseq hcreated (hfree j hj)
  apart := by
    intro j k row row' hrow hrow' hid
    by_cases hj : j = i <;> by_cases hk : k = i
    · rw [hj, hk]
    · subst hj
      rw [update_self] at hrow
      rw [update_of_ne hk] at hrow'
      exact absurd hid (hapart k hk row row' hrow hrow')
    · subst hk
      rw [update_of_ne hj] at hrow
      rw [update_self] at hrow'
      exact absurd hid.symm (hapart j hj row' row hrow' hrow)
    · rw [update_of_ne hj] at hrow
      rw [update_of_ne hk] at hrow'
      exact h.apart j k row row' hrow hrow' hid
  daily := by
    intro agentId date
    have hsum := sum_pending calls g i ph agentId date
    have hbefore := h.daily agentId date
    have hone := pending_le_one (calls i) agentId date ph
    rcases hdaily agentId date with hkept | hspare <;> omega

theorem Standing.quiet (h : Standing calls old s g) (hcreated : s'.created = s.created)
    (hquests : s'.quests = s.quests)
    (hseq : ∀ label, s.nextSeqOf label ≤ s'.nextSeqOf label) (hrow : ph.row = none)
    (hclean : ∀ violated, ph ≠ .returned (.error (.sqlite violated)))
    (hdaily : ∀ agentId date, (calls i).pending agentId date ph ≤
      (calls i).pending agentId date (g i) ∨
      s.createdOn agentId date + ∑ j, (calls j).pending agentId date (g j) + 1 ≤ 50) :
    Standing calls old s' (Function.update g i ph) := by
  have hon : ∀ agentId date, s'.createdOn agentId date = s.createdOn agentId date :=
    fun agentId date => by rw [Registry.createdOn, hcreated, Registry.createdOn]
  refine h.move ?_ ?_ ?_ hseq ?_ (.quiet hrow hclean) ?_ ?_ ?_
  · rw [hcreated]
    exact h.ids
  · rw [hcreated, hquests]
    exact h.table
  · intro row hmem label seq hid
    rw [hcreated] at hmem
    exact lt_of_lt_of_le (h.numbered row hmem label seq hid) (hseq label)
  · rw [hcreated]
    exact List.Subset.refl _
  · intro j _ row hrow'
    rw [hcreated]
    exact (h.own j).free row hrow'
  · intro j _ row row' hrow'
    rw [hrow] at hrow'
    cases hrow'
  · intro agentId date
    rw [hon]
    exact (hdaily agentId date).imp_left (by omega)

theorem Standing.take (h : Standing calls old s g) {row : QuestRow} (hg : g i = .admitted)
    (hcreated : s'.created = s.created) (hquests : s'.quests = s.quests)
    (hseq : ∀ label, s.nextSeqOf label ≤ s'.nextSeqOf label) (hbuilds : (calls i).Builds row)
    (hnumbered : ∀ label seq, row.id = root label seq → seq < s'.nextSeqOf label)
    (hfree : row.id ∉ s.created.map (·.id))
    (hapart : ∀ j row', g j = .holding row' → row'.id ≠ row.id) :
    Standing calls old s' (Function.update g i (.holding row)) := by
  have hold : row.id ∉ old.map (·.id) := fun hmem => hfree (map_subset _ h.grown hmem)
  refine h.move ?_ ?_ ?_ hseq ?_ ?_ ?_ ?_ ?_
  · rw [hcreated]
    exact h.ids
  · rw [hcreated, hquests]
    exact h.table
  · intro row hmem label seq hid
    rw [hcreated] at hmem
    exact lt_of_lt_of_le (h.numbered row hmem label seq hid) (hseq label)
  · rw [hcreated]
    exact List.Subset.refl _
  · refine ⟨?_, ?_, ?_, ?_, ?_, ?_⟩
    · rintro _ ⟨⟩
      exact hbuilds
    · rintro _ ⟨⟩
      exact hold
    · rintro _ ⟨⟩
      exact hnumbered
    · rintro _ ⟨⟩
      rw [hcreated]
      exact hfree
    · rintro _ ⟨⟩
    · rintro _ ⟨⟩
  · intro j _ row hrow
    rw [hcreated]
    exact (h.own j).free row hrow
  · rintro j _ _ row' ⟨⟩ hrow' hid
    cases hj : g j with
    | holding held =>
      rw [hj] at hrow'
      cases hrow'
      exact hapart j _ hj hid.symm
    | returned r =>
      rw [hj] at hrow'
      cases r with
      | error e => cases hrow'
      | ok created =>
        cases hrow'
        refine hfree ?_
        rw [hid]
        exact List.mem_map_of_mem ((h.own j).kept _ hj)
    | outside | admitted => rw [hj] at hrow'; cases hrow'
  · intro agentId date
    refine .inl (le_of_eq ?_)
    rw [Registry.createdOn, hcreated, hg]
    rfl

omit [DecidableEq ι] in
theorem Standing.not_taken (h : Standing calls old s g) {row : QuestRow} (hg : g i = .holding row) :
    ¬ ∃ q ∈ s.quests, q.id = row.id := by
  rintro ⟨q, hq, hid⟩
  refine (h.own i).free row hg ?_
  rw [← hid]
  exact h.table q hq

theorem Standing.insert (h : Standing calls old s g) {row : QuestRow} (hg : g i = .holding row) :
    Standing calls old { s with quests := s.quests ++ [row], created := s.created ++ [row] }
      (Function.update g i (.returned (.ok row))) := by
  have hrow : (g i).row = some row := by rw [hg]; rfl
  have hmine := h.own i
  have hids : (s.created ++ [row]).map (·.id) = s.created.map (·.id) ++ [row.id] := by simp
  refine h.move ?_ ?_ ?_ (fun _ => le_rfl) (subset_append_left _ _) ?_ ?_ ?_ ?_
  · rw [hids, nodup_append]
    refine ⟨h.ids, nodup_singleton _, ?_⟩
    rintro id hid _ hlast rfl
    rw [List.mem_singleton.1 hlast] at hid
    exact hmine.free row hg hid
  · intro row' hmem
    rw [hids, mem_append]
    rcases mem_append.1 hmem with hthere | hlast
    · exact .inl (h.table row' hthere)
    · rw [List.mem_singleton.1 hlast]
      exact .inr (List.mem_singleton_self _)
  · intro row' hmem
    rcases mem_append.1 hmem with hthere | hlast
    · exact h.numbered row' hthere
    · rw [List.mem_singleton.1 hlast]
      exact hmine.numbered row hrow
  · refine ⟨?_, ?_, ?_, ?_, ?_, ?_⟩
    · rintro _ ⟨⟩
      exact hmine.builds row hrow
    · rintro _ ⟨⟩
      exact hmine.fresh row hrow
    · rintro _ ⟨⟩
      exact hmine.numbered row hrow
    · rintro _ ⟨⟩
    · rintro _ ⟨⟩
      exact mem_append_right _ (List.mem_singleton_self _)
    · rintro _ ⟨⟩
  · intro j hj row' hrow'
    rw [hids, mem_append]
    rintro (hthere | hlast)
    · exact (h.own j).free row' hrow' hthere
    · refine hj (h.apart j i row' row ?_ hrow (List.mem_singleton.1 hlast))
      rw [hrow']
      rfl
  · rintro j hj _ row' ⟨⟩ hrow' hid
    exact hj (h.apart j i row' row hrow' hrow hid.symm)
  · intro agentId date
    refine .inl (le_of_eq ?_)
    have hbuilds := hmine.builds row hrow
    rw [hg, Registry.createdOn, countP_append, Registry.createdOn, countP_singleton,
      hbuilds.agentId, hbuilds.createdAt]
    simp [Creation.pending, Phase.underWay]

end Standing

/-! ## Calls side by side -/

section Calls

variable {ι : Type} [Fintype ι] [DecidableEq ι]

def CreationProg.holds (p : CreationProg) : Option QuestRow :=
  match p.head with
  | some (.insertQuest row) => some row
  | _ => none

/-- Whether a call is past the daily limit, and has not inserted its row. -/
def CreationProg.underWay (p : CreationProg) : Bool :=
  match p.head with
  | some (.mintOrReuse ..) => true
  | some (.nextSeq _) => true
  | some (.childCount _) => true
  | some (.insertQuest _) => true
  | _ => false

/-- A child gets a number that no quest below the parent has ever had and no other call is about
to insert; a call is let in when the agent has quests left for the day of the call, those of the
other calls under way included; and a uuid is new. -/
def Steady (calls : ι → Creation) (c : Pool Registry ι CreationProg) (i : ι) : Prop :=
  match (c.threads i).head with
  | some (.childCount pid) => c.state.childCount pid < 2 ^ 32 →
    let number := (c.state.childCount pid + 1) % 2 ^ 32
    (∀ row ∈ c.state.created, childNumber pid row.id ≠ some number) ∧
      ∀ j, ∀ row ∈ CreationProg.holds (c.threads j), childNumber pid row.id ≠ some number
  | some (.questsToday agentId now) => c.state.questsToday agentId now < MAX_DAILY_TASKS →
    let date := day (calls i).createdAt
    c.state.createdOn agentId date + (Finset.univ.filter fun j =>
      CreationProg.underWay (c.threads j) ∧ (calls j).owner.agentId = some agentId ∧
        day (calls j).createdAt = date).card < MAX_DAILY_TASKS
  | some (.mintOrReuse _ _ _ _ _ _ newId _) => (c.state.ideas.lookup newId).isNone
  | _ => True

instance (calls : ι → Creation) (c : Pool Registry ι CreationProg) (i : ι) :
    Decidable (Steady calls c i) := by
  unfold Steady
  split <;> infer_instance

variable {calls : ι → Creation} {old : List QuestRow} {c : Pool Registry ι CreationProg}
  {g : ι → Phase} {ph : Phase} {i : ι} {q : Creation} {p : CreationProg}

theorem RegistryAccess.nonempty_reply (a : RegistryAccess) : Nonempty a.Reply := by
  cases a with
  | getAgent id | activeByName name | defaultAgent => exact ⟨(none : Option AgentRow)⟩
  | questsToday agentId now => exact ⟨(0 : Nat)⟩
  | mintOrReuse => exact ⟨(.ok "" : Except Failure String)⟩
  | nextSeq label | childCount pid => exact ⟨(0 : Nat)⟩
  | insertQuest row => exact ⟨(.ok () : Except Failure Unit)⟩

theorem RegistryAccess.Looks.run {a : RegistryAccess} (h : a.Looks) (s : Registry) :
    (a.run s).2 = s := by
  cases a with
  | getAgent id | activeByName name | defaultAgent => rfl
  | _ => exact absurd h id

theorem holds_of_follows {row : QuestRow} (h : p.Follows q.Moves (.holding row) Finishes) :
    CreationProg.holds p = some row := by
  cases p with
  | done x => exact absurd h id
  | act a k =>
    obtain ⟨r⟩ := a.nonempty_reply
    obtain ⟨_, hmove, -⟩ := h r
    cases hmove <;> rfl

theorem underWay_of_follows (h : p.Follows q.Moves ph Finishes) (hph : ph.underWay = true) :
    CreationProg.underWay p = true := by
  cases p with
  | done x =>
    cases ph with
    | admitted | holding row => exact absurd h id
    | outside | returned r => cases hph
  | act a k =>
    obtain ⟨r⟩ := a.nonempty_reply
    obtain ⟨_, hmove, -⟩ := h r
    cases hmove with
    | look | enter | check | full => cases hph
    | _ => rfl

omit [DecidableEq ι] in
theorem sum_pending_le {agentId : String} {date : Nat}
    (hfollows : ∀ j, (c.threads j).Follows (calls j).Moves (g j) Finishes) :
    ∑ j, (calls j).pending agentId date (g j) ≤ (Finset.univ.filter fun j =>
      CreationProg.underWay (c.threads j) ∧ (calls j).owner.agentId = some agentId ∧
        day (calls j).createdAt = date).card := by
  rw [Finset.card_filter]
  refine Finset.sum_le_sum fun j _ => ?_
  unfold Creation.pending
  split
  next hpending => rw [if_pos ⟨underWay_of_follows (hfollows j) hpending.1, hpending.2⟩]
  next => exact Nat.zero_le _

theorem mintOrReuse_frame (s : Registry) (name content : String) (tags : List String)
    (agentId : Option String) (scope : Scope) (lower : String → String) (newId : String) (pick : Nat) :
    ∃ ideas, (s.mintOrReuse name content tags agentId scope lower newId pick).2 = { s with ideas } := by
  unfold Registry.mintOrReuse
  dsimp only
  split
  · exact ⟨_, rfl⟩
  · split
    · exact ⟨_, rfl⟩
    · exact ⟨_, rfl⟩

theorem mintOrReuse_error {s : Registry} {name content : String} {tags : List String}
    {agentId : Option String} {scope : Scope} {lower : String → String} {newId : String} {pick : Nat}
    {e : Failure}
    (h : (s.mintOrReuse name content tags agentId scope lower newId pick).1 = .error e) :
    (s.ideas.lookup newId).isSome = true := by
  unfold Registry.mintOrReuse at h
  dsimp only at h
  split at h
  · cases h
  · split at h
    next hthere => exact hthere
    next => cases h

theorem nextSeqOf_nextSeq (s : Registry) (label label' : String) :
    (s.nextSeq label).2.nextSeqOf label' =
      if label' = label then s.nextSeqOf label + 1 else s.nextSeqOf label' := by
  unfold Registry.nextSeq Registry.nextSeqOf
  split
  next heq => rw [heq, AList.lookup_insert]; rfl
  next hne => rw [AList.lookup_insert_ne hne]

theorem nextSeqOf_le (s : Registry) (label label' : String) :
    s.nextSeqOf label' ≤ (s.nextSeq label).2.nextSeqOf label' := by
  rw [nextSeqOf_nextSeq]
  split
  next heq => rw [heq]; omega
  next => exact le_rfl

theorem standing_step {a : RegistryAccess} (hgood : Steady calls c i)
    (hhead : (c.threads i).head = some a)
    (hfollows : ∀ j, (c.threads j).Follows (calls j).Moves (g j) Finishes)
    (h : Standing calls old c.state g) (hmove : (calls i).Moves (g i) a (a.run c.state).1 ph) :
    Standing calls old (a.run c.state).2 (Function.update g i ph) := by
  unfold Steady at hgood
  rw [hhead] at hgood
  generalize hreply : (a.run c.state).1 = r at hmove
  generalize hg : g i = was at hmove
  have hless : ∀ {ph : Phase}, (ph.underWay = true → (g i).underWay = true) → ∀ agentId date,
      (calls i).pending agentId date ph ≤ (calls i).pending agentId date (g i) ∨
        c.state.createdOn agentId date + ∑ j, (calls j).pending agentId date (g j) + 1 ≤ 50 := by
    intro ph hway agentId date
    refine .inl ?_
    unfold Creation.pending
    split
    next hpending => rw [if_pos ⟨hway hpending.1, hpending.2⟩]
    next => omega
  cases hmove with
  | look hlooks =>
    rw [hlooks.run]
    exact h.quiet rfl rfl (fun _ => le_rfl) rfl (nofun) (hless nofun)
  | enter hlooks hfree =>
    rw [hlooks.run]
    refine h.quiet rfl rfl (fun _ => le_rfl) rfl (nofun) fun agentId date => .inl ?_
    simp [Creation.pending, hfree]
  | @check agentId r howner hfew =>
    have hcount : c.state.questsToday agentId (calls i).checkedAt < MAX_DAILY_TASKS := by
      rw [show c.state.questsToday agentId (calls i).checkedAt = r from hreply]
      exact hfew
    refine h.quiet rfl rfl (fun _ => le_rfl) rfl (nofun) fun agentId' date => ?_
    by_cases hthis : agentId' = agentId ∧ date = day (calls i).createdAt
    · obtain ⟨rfl, rfl⟩ := hthis
      have hspare := hgood hcount
      have hle : ∑ j, (calls j).pending agentId' (day (calls i).createdAt) (g j) ≤ _ :=
        sum_pending_le hfollows
      simp only [MAX_DAILY_TASKS] at hspare
      exact .inr (by omega)
    · refine .inl ?_
      rw [Creation.pending, if_neg]
      · omega
      · rintro ⟨-, howner', hdate⟩
        rw [howner] at howner'
        exact hthis ⟨(Option.some.inj howner').symm, hdate.symm⟩
  | full | countOutOfRange => exact h.quiet rfl rfl (fun _ => le_rfl) rfl (nofun) (hless nofun)
  | @mint name content tags agentId scope lower pick =>
    obtain ⟨ideas, hframe⟩ := mintOrReuse_frame c.state name content tags agentId scope lower
      (calls i).newIdeaId pick
    rw [RegistryAccess.run, hframe]
    exact h.quiet rfl rfl (fun _ => le_rfl) rfl (nofun) (hless fun _ => by rw [hg]; rfl)
  | mintFails =>
    have hthere := mintOrReuse_error hreply
    have hnew : (c.state.ideas.lookup (calls i).newIdeaId).isNone = true := hgood
    rw [Option.isNone_iff_eq_none.1 hnew] at hthere
    cases hthere
  | @number label seq row hbuilds hid =>
    have hseq : seq = c.state.nextSeqOf label := hreply.symm
    -- The number is above every one given under the label.
    have habove : ∀ id, id = row.id → ¬ ∀ label' seq', id = root label' seq' →
        seq' < c.state.nextSeqOf label' := by
      rintro - rfl hnumbered
      exact absurd (hnumbered label seq hid) (by omega)
    refine h.take hg rfl rfl (nextSeqOf_le c.state label) hbuilds ?_ ?_ ?_
    · intro label' seq' hroot
      obtain ⟨rfl, rfl⟩ := root_inj (hid.symm.trans hroot)
      rw [RegistryAccess.run, nextSeqOf_nextSeq, if_pos rfl]
      omega
    · intro hmem
      obtain ⟨row', hrow', hid'⟩ := List.mem_map.1 hmem
      exact habove row'.id hid' (h.numbered row' hrow')
    · intro j row' hj hid'
      refine habove row'.id hid' ((h.own j).numbered row' ?_)
      rw [hj]
      rfl
  | @count pid n row hn hbuilds hid =>
    obtain rfl : c.state.childCount pid = n := hreply
    obtain ⟨hrows, hothers⟩ := hgood hn
    refine h.take hg rfl rfl (fun _ => le_rfl) hbuilds ?_ ?_ ?_
    · intro label seq hroot
      exact absurd (hroot.symm.trans hid) QuestId.root_ne_child
    · intro hmem
      obtain ⟨row', hrow', hid'⟩ := List.mem_map.1 hmem
      exact hrows row' hrow' (QuestId.childNumber_eq_some.2 (hid'.trans hid))
    · intro j row' hj hid'
      have hfollow := hfollows j
      rw [hj] at hfollow
      exact hothers j row' (holds_of_follows hfollow) (QuestId.childNumber_eq_some.2 (hid'.trans hid))
  | @seqOutOfRange label =>
    exact h.quiet rfl rfl (nextSeqOf_le c.state label) rfl (nofun)
      (hless nofun)
  | @insert row =>
    rw [RegistryAccess.run, Registry.insertQuest, if_neg (h.not_taken hg)]
    exact h.insert hg
  | @refused row =>
    rw [RegistryAccess.run, Registry.insertQuest, if_neg (h.not_taken hg)] at hreply
    cases hreply

def creators (lower : String → String) (calls : ι → Creation) (s : Registry) :
    Pool Registry ι CreationProg :=
  ⟨s, fun i => (createQuest lower (calls i)).run⟩

/-- What creating quests side by side promises. -/
structure AllFresh (calls : ι → Creation) (s : Registry) (c : Pool Registry ι CreationProg) : Prop where
  fresh : ∀ i row, (c.threads i).result = some (.ok row) →
    row ∈ c.state.created ∧ row.id ∉ s.created.map (·.id)
  apart : ∀ i j row row', (c.threads i).result = some (.ok row) →
    (c.threads j).result = some (.ok row') → row.id = row'.id → i = j
  immediate : ∀ i row pid, (c.threads i).result = some (.ok row) → (calls i).parent = some pid →
    parent row.id = some pid
  clean : ∀ i violated, (c.threads i).result ≠ some (.error (.sqlite violated))
  daily : ∀ agentId date, c.state.createdOn agentId date ≤ 50
  sound : c.state.Sound

theorem result_of_follows {r : Except Failure QuestRow} (h : p.Follows q.Moves ph Finishes)
    (hresult : p.result = some r) : Finishes ph r := by
  rw [Prog.result_eq_some.1 hresult] at h
  exact h

theorem over_of_follows {row : QuestRow} (h : p.Follows q.Moves ph Finishes)
    (hresult : p.result = some (.ok row)) : ph = .returned (.ok row) := by
  have hfinishes := result_of_follows h hresult
  cases ph with
  | outside =>
    obtain ⟨e, he, -⟩ := hfinishes
    cases he
  | returned r => rw [show (.ok row : Except Failure QuestRow) = r from hfinishes]
  | admitted | holding row => exact absurd hfinishes id

end Calls

/-! ## Two calls -/

/-- An agent with one quest. -/
def numbered : Registry :=
  let quest : QuestRow := { id := "as-001", ideaId := "i1", agentId := some "a", scope := .self }
  { agents := (∅ : Accounts String AgentRow).insert "a" { name := "assistant" }
    ideas := (∅ : Accounts String IdeaRow).insert "i1" ⟨"first", "", .self, some "a", []⟩
    sequences := (∅ : Accounts String Nat).insert "as" 2
    quests := [quest]
    created := [quest] }

theorem numbered_sound : numbered.Sound where
  ids := by decide
  table := by decide
  numbered := by
    intro row hrow label seq hid
    have hroot : root "as" 1 = root label seq := by
      rw [← hid, List.mem_singleton.1 hrow]
      decide +kernel
    obtain ⟨rfl, rfl⟩ := root_inj hroot
    decide +kernel
  daily _ _ := le_trans countP_le_length (by decide)

def draw (newIdeaId : String) : QuestDraw :=
  { checkedAt := 86400, createdAt := 86400, forward := le_rfl, newIdeaId }

/-- A child of the quest, and another quest or child. -/
def twoCalls (second : Option String) : Fin 2 → Creation :=
  ![createTaskV2Scoped "a" "second" "" [] [] (some "as-001") .self (draw "i2"),
    createTaskV2Scoped "a" "third" "" [] [] second .self (draw "i3")]

end Aeqi.Quests
