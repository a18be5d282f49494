import Aeqi.Quests.Creation

/-!
# The phases of a creator

A creator is outside until the daily limit lets it in, holds the row whose id it has taken until
the row is inserted, and then it is over. It follows this protocol whatever it is replied.
-/

namespace Aeqi.Quests

open Aeqi.Lib Aeqi.Orchestrator

/-! ## How far a call is -/

inductive Phase
  /-- Not past the daily limit. -/
  | outside
  | admitted
  /-- About to insert the row. -/
  | holding (row : QuestRow)
  | returned (r : Except Failure QuestRow)

def Phase.row : Phase → Option QuestRow
  | .holding row => some row
  | .returned (.ok row) => some row
  | _ => none

def Phase.underWay : Phase → Bool
  | .admitted => true
  | .holding _ => true
  | _ => false

/-- The reads before the daily limit. -/
def RegistryAccess.Looks : RegistryAccess → Prop
  | getAgent _ => True
  | activeByName _ => True
  | defaultAgent => True
  | _ => False

/-- The row of a call, but for its id and idea. -/
structure Creation.Builds (q : Creation) (row : QuestRow) : Prop where
  agentId : row.agentId = q.owner.agentId
  createdAt : row.createdAt = q.createdAt
  parent : ∀ pid, q.parent = some pid → QuestId.parent row.id = some pid

/-- What a call may do next. -/
inductive Creation.Moves (q : Creation) : Protocol RegistryAccess RegistryAccess.Reply Phase
  | look {a : RegistryAccess} {r : a.Reply} (h : a.Looks) : Moves q .outside a r .outside
  | enter {a : RegistryAccess} {r : a.Reply} (h : a.Looks) (hfree : q.owner.agentId = none) :
    Moves q .outside a r .admitted
  | check {agentId : String} {r : Nat} (h : q.owner.agentId = some agentId) (hr : r < 50) :
    Moves q .outside (.questsToday agentId q.checkedAt) r .admitted
  | full {agentId : String} {now r : Nat} : Moves q .outside (.questsToday agentId now) r .outside
  | mint {name content : String} {tags : List String} {agentId : Option String} {scope : Scope}
      {lower : String → String} {pick : Nat} {id : String} : Moves q .admitted
        (.mintOrReuse name content tags agentId scope lower q.newIdeaId pick) (.ok id) .admitted
  | mintFails {name content : String} {tags : List String} {agentId : Option String} {scope : Scope}
      {lower : String → String} {pick : Nat} {e : Failure} : Moves q .admitted
        (.mintOrReuse name content tags agentId scope lower q.newIdeaId pick) (.error e)
        (.returned (.error e))
  | number {label : String} {seq : Nat} {row : QuestRow} (h : q.Builds row)
      (hid : row.id = QuestId.root label seq) : Moves q .admitted (.nextSeq label) seq (.holding row)
  | count {pid : String} {n : Nat} {row : QuestRow} (hn : n < 2 ^ 32) (h : q.Builds row)
      (hid : row.id = QuestId.child pid ((n + 1) % 2 ^ 32)) :
    Moves q .admitted (.childCount pid) n (.holding row)
  | seqOutOfRange {label : String} {seq : Nat} :
    Moves q .admitted (.nextSeq label) seq (.returned (.error .outOfRange))
  | countOutOfRange {pid : String} {n : Nat} :
    Moves q .admitted (.childCount pid) n (.returned (.error .outOfRange))
  | insert {row : QuestRow} : Moves q (.holding row) (.insertQuest row) (.ok ()) (.returned (.ok row))
  | refused {row : QuestRow} {e : Failure} :
    Moves q (.holding row) (.insertQuest row) (.error e) (.returned (.error e))

/-- A call that is not past the limit returns an error of its own making. -/
def Finishes : Phase → Except Failure QuestRow → Prop
  | .outside, r => ∃ e, r = .error e ∧ ∀ violated, e ≠ .sqlite violated
  | .returned r', r => r = r'
  | _, _ => False

section Follows

variable {q : Creation} {lower : String → String} {α β : Type} {g : Phase}
  {Q : Phase → Except Failure α → Prop}

/-- The rules of `Follows` for the pieces of a call. -/
def Goes (q : Creation) (x : Creating α) (g : Phase) (Q : Phase → Except Failure α → Prop) : Prop :=
  x.run.Follows q.Moves g Q

theorem goes_bind {x : Creating β} {f : β → Creating α} : Goes q (x >>= f) g Q ↔
    Goes q x g (Prog.orError Q fun g' y => Goes q (f y) g' Q) := Prog.follows_bindExcept

theorem goes_access {a : RegistryAccess} {f : a.Reply → Creating α} :
    Goes q (access a >>= f) g Q ↔ ∀ r, ∃ g', q.Moves g a r g' ∧ Goes q (f r) g' Q := Iff.rfl

theorem goes_answer {x : Except Failure β} {f : β → Creating α} : Goes q (answer x >>= f) g Q ↔
    (∀ y, x = .ok y → Goes q (f y) g Q) ∧ ∀ e, x = .error e → Q g (.error e) := by
  have hbind : Goes q (answer x >>= f) g Q ↔ Prog.orError Q (fun g' y => Goes q (f y) g' Q) g x :=
    goes_bind
  rw [hbind]
  cases x with
  | error e | ok y => simp [Prog.orError]

theorem label_eq_error {a : AgentRow} {e : Failure} (h : a.label lower = .error e) : e = .panic := by
  unfold AgentRow.label at h
  split at h
  · cases h
  · split at h
    · split at h
      · cases h
      · exact (Except.error.inj h).symm
    · cases h

/-- A piece of a call that ends with the call admitted, or with an error. -/
abbrev Admits (q : Creation) (x : Creating α) (g : Phase) : Prop :=
  Goes q x g (Prog.orError Finishes fun g' _ => g' = .admitted)

theorem goes_agentPrefix {id : String} (h : q.owner = .agent id) :
    Admits q (agentPrefix lower id q.checkedAt) .outside := by
  have hagent : q.owner.agentId = some id := by rw [h]; rfl
  refine goes_access.2 fun found => ⟨.outside, .look trivial, goes_answer.2 ⟨fun agent _ => ?_, ?_⟩⟩
  · refine goes_answer.2 ⟨fun label _ => goes_access.2 fun (counted : Nat) => ?_, ?_⟩
    · by_cases hfull : MAX_DAILY_TASKS ≤ counted
      · refine ⟨.outside, .full, goes_answer.2 ⟨fun todayCount hcount => ?_, ?_⟩⟩
        · obtain ⟨-, rfl⟩ := tryInto_eq_some.1 (okOr_eq_ok.1 hcount)
          rw [if_pos hfull]
          exact ⟨_, rfl, fun violated h => by cases h⟩
        · intro e he
          obtain ⟨-, rfl⟩ := okOr_eq_error.1 he
          exact ⟨_, rfl, fun violated h => by cases h⟩
      · have hfew : counted < 50 := Nat.lt_of_not_le hfull
        refine ⟨.admitted, .check hagent hfew, goes_answer.2 ⟨fun todayCount hcount => ?_, ?_⟩⟩
        · obtain ⟨-, rfl⟩ := tryInto_eq_some.1 (okOr_eq_ok.1 hcount)
          rw [if_neg hfull]
          rfl
        · intro e he
          obtain ⟨hnone, -⟩ := okOr_eq_error.1 he
          have hsmall : counted < 2 ^ 32 := by omega
          rw [tryInto, if_pos hsmall] at hnone
          cases hnone
    · intro e he
      rw [label_eq_error he]
      exact ⟨_, rfl, fun violated h => by cases h⟩
  · intro e he
    obtain ⟨-, rfl⟩ := okOr_eq_error.1 he
    exact ⟨_, rfl, fun violated h => by cases h⟩

theorem goes_questPrefixForProject {name : String} (h : q.owner = .project name) :
    Admits q (questPrefixForProject name) .outside := by
  have hfree : q.owner.agentId = none := by rw [h]; rfl
  refine goes_bind.2 ?_
  have hhinted : Goes q (hintedAgent name) .outside
      (Prog.orError Finishes fun g' _ => g' = .admitted) := by
    refine goes_access.2 fun found => ?_
    cases found with
    | some agent => exact ⟨.admitted, .enter trivial hfree, rfl⟩
    | none =>
      refine ⟨.outside, .look trivial, goes_access.2 fun found => ?_⟩
      cases found with
      | some agent => exact ⟨.admitted, .enter trivial hfree, rfl⟩
      | none =>
        exact ⟨.outside, .look trivial, fun found => ⟨.admitted, .enter trivial hfree, rfl⟩⟩
  refine hhinted.mono ?_
  rintro g' (e | found) hg'
  · exact hg'
  · cases found <;> exact hg'

theorem goes_questIdea : Admits q (questIdea lower q) .admitted := by
  unfold questIdea
  split
  · rfl
  · refine goes_access.2 fun (minted : Except Failure String) => ?_
    cases minted with
    | ok id => exact ⟨.admitted, .mint, rfl⟩
    | error e => exact ⟨.returned (.error e), .mintFails, rfl⟩

theorem goes_questId (ideaId : String) {label : String} : Goes q (questId label q.parent) .admitted
    (Prog.orError Finishes fun g' id => g' = .holding (q.row id ideaId)) := by
  cases hparent : q.parent with
  | none =>
    refine goes_access.2 fun (seq : Nat) => ?_
    by_cases hfits : seq < 2 ^ 32
    · refine ⟨.holding (q.row (QuestId.root label seq) ideaId), .number ⟨rfl, rfl, ?_⟩ rfl, ?_⟩
      · intro pid hpid
        rw [hparent] at hpid
        cases hpid
      · rw [tryInto, if_pos hfits]
        rfl
    · refine ⟨.returned (.error .outOfRange), .seqOutOfRange, ?_⟩
      rw [tryInto, if_neg hfits]
      rfl
  | some pid =>
    refine goes_access.2 fun (n : Nat) => ?_
    by_cases hfits : n < 2 ^ 32
    · refine ⟨.holding (q.row (QuestId.child pid ((n + 1) % 2 ^ 32)) ideaId),
        .count hfits ⟨rfl, rfl, ?_⟩ rfl, ?_⟩
      · intro pid' hpid
        rw [hparent] at hpid
        cases hpid
        exact QuestId.parent_child
      · rw [tryInto, if_pos hfits]
        rfl
    · refine ⟨.returned (.error .outOfRange), .countOutOfRange, ?_⟩
      rw [tryInto, if_neg hfits]
      rfl

theorem goes_questPrefix : Admits q (questPrefix lower q) .outside := by
  unfold questPrefix
  split
  next id howner => exact goes_agentPrefix howner
  next name howner => exact goes_questPrefixForProject howner

theorem goes_createQuest : Goes q (createQuest lower q) .outside Finishes := by
  refine goes_bind.2 (goes_questPrefix.mono ?_)
  rintro _ (e | label) hg
  · exact hg
  · cases hg
    refine goes_bind.2 (goes_questIdea.mono ?_)
    rintro _ (e | ideaId) hg
    · exact hg
    · cases hg
      refine goes_bind.2 ((goes_questId ideaId).mono ?_)
      rintro _ (e | id) hg
      · exact hg
      · cases hg
        refine goes_access.2 fun (inserted : Except Failure Unit) => ?_
        cases inserted with
        | error e => exact ⟨_, .refused, rfl⟩
        | ok _ => exact ⟨_, .insert, rfl⟩

end Follows

end Aeqi.Quests
