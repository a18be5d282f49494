import Aeqi.Messages.Recording
import Aeqi.Quests.Phases

/-!
# Texts cut by bytes

A quest of an agent without a `quest_prefix` is named after the first two bytes of the agent's
name, which `spawn` has trimmed. Like the first 200 bytes of a message, they end the call where a
character lies across them, and nothing else in these methods does.
-/

namespace Aeqi.Quests

open Aeqi.Lib Aeqi.Lib.Handler
open RegistryAccess (run)

def AgentRow.spawned (name : String) : AgentRow := { name := String.ofList (trim name.toList) }

def AgentRow.Named (lower : String → String) (a : AgentRow) (label : String) : Prop :=
  match a.questPrefix with
  | some own => label = own
  | none =>
    if 2 ≤ byteLength a.name.toList then
      ∃ front, front <+: a.name.toList ∧ label = lower (String.ofList front)
    else label = "t"

def AgentRow.CutBetweenCharacters (a : AgentRow) : Prop :=
  a.questPrefix = none → 2 ≤ byteLength a.name.toList → isCharBoundary a.name.toList 2 = true

instance (a : AgentRow) : Decidable a.CutBetweenCharacters :=
  inferInstanceAs (Decidable (_ → _ → _))

/-- The call returns, and the id of a quest without a parent starts with the prefix. -/
def Creation.NamedAfter (lower : String → String) (q : Creation) (s : Registry) (a : AgentRow) :
    Prop :=
  (alone run (createQuest lower q) s).1 ≠ .error .panic ∧
  ∀ row, (alone run (createQuest lower q) s).1 = .ok row → q.parent = none →
    ∃ label seq, row.id = QuestId.root label seq ∧ a.Named lower label

section Labels

variable {lower : String → String} {a : AgentRow} {label : String}

theorem label_named (h : a.label lower = .ok label) : a.Named lower label := by
  unfold AgentRow.label at h
  unfold AgentRow.Named
  cases hown : a.questPrefix with
  | some own =>
    rw [hown] at h
    exact (Except.ok.inj h).symm
  | none =>
    rw [hown] at h
    dsimp only at h
    split at h
    next hlong =>
      rw [if_pos hlong]
      cases hslice : sliceTo 2 a.name.toList with
      | none =>
        rw [hslice] at h
        cases h
      | some front =>
        rw [hslice] at h
        exact ⟨front, front_of_sliceTo hslice, (Except.ok.inj h).symm⟩
    next hshort =>
      rw [if_neg hshort]
      exact (Except.ok.inj h).symm

theorem label_panics_iff : a.label lower = .error .panic ↔ ¬ a.CutBetweenCharacters := by
  unfold AgentRow.label AgentRow.CutBetweenCharacters
  cases hown : a.questPrefix with
  | some own => exact iff_of_false (by simp) fun h => h nofun
  | none =>
    by_cases hlong : 2 ≤ byteLength a.name.toList
    · rw [if_pos hlong]
      cases hslice : sliceTo 2 a.name.toList with
      | none =>
        have hcut := not_or.1 (sliceTo_eq_none.1 hslice)
        exact iff_of_true rfl fun h => hcut.2 (h rfl hlong)
      | some front =>
        refine iff_of_false (by simp) fun h => h fun _ _ => ?_
        rcases sliceTo_isSome.1 (Option.isSome_of_mem hslice) with hshort | hcut
        · exact isCharBoundary_iff.2 ⟨a.name.toList, List.prefix_rfl, Nat.le_antisymm hshort hlong⟩
        · exact hcut
    · rw [if_neg hlong]
      exact iff_of_false (by simp) fun h => h fun _ hlong' => absurd hlong' hlong

end Labels

/-! ## Replies -/

section Replies

variable {α β : Type} {s : Registry} {q : Creation} {lower : String → String}

/-- The call does not end inside a character, and what it returns is as `Q` says. -/
def Mild (x : Creating α) (s : Registry) (Q : α → Prop) : Prop :=
  (alone run x s).1 ≠ .error .panic ∧
    ∀ y, (alone run x s).1 = .ok y → Q y

theorem mild_bind {x : Creating α} {f : α → Creating β} {P : α → Prop} {Q : β → Prop}
    (hx : Mild x s P) (hf : ∀ y t, P y → Mild (f y) t Q) : Mild (x >>= f) s Q := by
  unfold Mild at hx ⊢
  rw [alone_bind]
  cases hrun : alone run x s with
  | mk reply t =>
    rw [hrun] at hx
    cases reply with
    | error e => exact ⟨fun h => hx.1 (congrArg _ (Except.error.inj h)), nofun⟩
    | ok y => exact hf y t (hx.2 y rfl)

theorem mild_access (a : RegistryAccess) : Mild (access a) s fun y => y = (a.run s).1 := by
  constructor
  · intro h
    cases (h : Except.ok _ = Except.error _)
  · exact fun y hy => (Except.ok.inj hy).symm

theorem mild_answer {x : Except Failure α} (h : x ≠ .error .panic) :
    Mild (answer x) s fun y => x = .ok y :=
  ⟨h, fun _ hy => hy⟩

theorem mild_refused {e : Failure} {Q : α → Prop} (h : e ≠ .panic) :
    Mild (answer (.error e)) s Q :=
  ⟨fun hpanic => h (Except.error.inj hpanic), nofun⟩

theorem okOr_ne_panic {o : Option α} {e : Failure} (h : e ≠ .panic) :
    okOr o e ≠ .error .panic := by
  intro hpanic
  exact h (okOr_eq_error.1 hpanic).2

theorem mild_pure {y : α} {Q : α → Prop} (h : Q y) : Mild (pure y) s Q := by
  constructor
  · intro hpanic
    cases (hpanic : Except.ok _ = Except.error _)
  · intro y' hy
    cases (hy : Except.ok _ = Except.ok _)
    exact h

theorem Mild.mono {x : Creating α} {P Q : α → Prop} (h : Mild x s P) (hPQ : ∀ y, P y → Q y) :
    Mild x s Q :=
  ⟨h.1, fun y hy => hPQ y (h.2 y hy)⟩

variable {a : AgentRow} {id : String}

theorem mild_agentPrefix {now : Nat} {label : String} (ha : s.agents.lookup id = some a)
    (hlabel : a.label lower = .ok label) :
    Mild (agentPrefix lower id now) s fun y => y = label := by
  apply mild_bind (mild_access _)
  intro found t hfound
  change found = s.agents.lookup id at hfound
  have hagent : okOr found (Failure.message ("agent not found: " ++ id)) = .ok a := by
    rw [hfound, ha]
    rfl
  apply mild_bind (mild_answer (by rw [hagent]; exact nofun))
  intro agent t hok
  cases hagent.symm.trans hok
  apply mild_bind (mild_answer (by rw [hlabel]; exact nofun))
  intro label' t hok
  cases hlabel.symm.trans hok
  apply mild_bind (mild_access _)
  intro counted t _
  apply mild_bind (mild_answer (okOr_ne_panic fun h => by cases h))
  intro todayCount t _
  split
  · exact mild_refused nofun
  · exact mild_pure rfl

theorem mintOrReuse_ne_panic {name content : String} {tags : List String} {agentId : Option String}
    {scope : Orchestrator.Scope} {newId : String} {pick : Nat} :
    (s.mintOrReuse name content tags agentId scope lower newId pick).1 ≠ .error .panic := by
  unfold Registry.mintOrReuse
  dsimp only
  split
  · exact fun h => by cases h
  · split
    · exact fun h => by cases h
    · exact fun h => by cases h

theorem insertQuest_ne_panic {row : QuestRow} : (s.insertQuest row).1 ≠ .error .panic := by
  unfold Registry.insertQuest
  split
  · exact nofun
  · exact nofun

theorem mild_questIdea : Mild (questIdea lower q) s fun _ => True := by
  unfold questIdea
  cases q.idea with
  | linked id => exact mild_pure trivial
  | mint subject description labels =>
    apply mild_bind (mild_access _)
    intro minted t hminted
    have hmild : minted ≠ .error .panic := by
      rw [hminted]
      exact mintOrReuse_ne_panic
    exact (mild_answer hmild).mono fun _ _ => trivial

theorem mild_questId {label : String} : Mild (questId label q.parent) s fun id =>
    q.parent = none → ∃ seq, id = QuestId.root label seq := by
  cases q.parent with
  | some pid =>
    apply mild_bind (mild_access _)
    intro counted t _
    apply mild_bind (mild_answer (okOr_ne_panic fun h => by cases h))
    intro childCount t _
    exact mild_pure nofun
  | none =>
    apply mild_bind (mild_access _)
    intro counted t _
    apply mild_bind (mild_answer (okOr_ne_panic fun h => by cases h))
    intro seq t _
    exact mild_pure fun _ => ⟨seq, rfl⟩

theorem namedAfter_of_label {label : String} (howner : q.owner = .agent id)
    (ha : s.agents.lookup id = some a) (hlabel : a.label lower = .ok label) :
    q.NamedAfter lower s a := by
  have hreply : Mild (createQuest lower q) s fun row =>
      q.parent = none → ∃ seq, row.id = QuestId.root label seq := by
    unfold createQuest questPrefix
    rw [howner]
    apply mild_bind (mild_agentPrefix ha hlabel)
    rintro _ t rfl
    apply mild_bind mild_questIdea
    intro ideaId t _
    apply mild_bind mild_questId
    intro questId t hid
    apply mild_bind (mild_access _)
    intro inserted t hinserted
    have hmild : inserted ≠ .error .panic := by
      rw [hinserted]
      exact insertQuest_ne_panic
    apply mild_bind (mild_answer hmild)
    intro _ t _
    exact mild_pure hid
  refine ⟨hreply.1, fun row hrow hparent => ?_⟩
  obtain ⟨seq, hseq⟩ := hreply.2 row hrow hparent
  exact ⟨label, seq, hseq, label_named hlabel⟩

theorem reply_error {x : Creating α} {f : α → Creating β} {e : Failure}
    (h : (alone run x s).1 = .error e) :
    (alone run (x >>= f) s).1 = .error e := by
  rw [alone_bind]
  cases hrun : alone run x s with
  | mk reply t =>
    rw [hrun] at h
    cases (h : reply = .error e)
    rfl

theorem createQuest_panics (howner : q.owner = .agent id) (ha : s.agents.lookup id = some a)
    (hlabel : a.label lower = .error .panic) :
    (alone run (createQuest lower q) s).1 = .error .panic := by
  have hagent :
      okOr (s.agents.lookup id) (Failure.message ("agent not found: " ++ id)) = .ok a := by
    rw [ha]
    rfl
  unfold createQuest questPrefix
  rw [howner]
  apply reply_error
  -- the agent is read, and then its name is cut
  change (alone run (answer (okOr (s.agents.lookup id) _) >>= _) s).1 = _
  rw [hagent]
  change (alone run (answer (a.label lower) >>= _) s).1 = _
  rw [hlabel]
  exact reply_error rfl

theorem namedAfter_iff (howner : q.owner = .agent id) (ha : s.agents.lookup id = some a) :
    q.NamedAfter lower s a ↔ a.CutBetweenCharacters := by
  cases hlabel : a.label lower with
  | ok label =>
    apply iff_of_true (namedAfter_of_label howner ha hlabel)
    by_contra hcut
    cases hlabel.symm.trans (label_panics_iff.2 hcut)
  | error e =>
    cases label_eq_error hlabel
    apply iff_of_false
    · exact fun h => h.1 (createQuest_panics howner ha hlabel)
    · exact label_panics_iff.1 hlabel

end Replies

/-! ## Exactness -/

/-- Every recorded message, and every creation of a quest for an agent, returns normally exactly
when its text is cut between characters. -/
theorem recording_returns_iff {hist : List (Recording.Transcripts × Recording.Call)}
    {t : Recording.Transcripts} (hrun : Run Recording.Call.Step {} hist t)
    {lower : String → String} {s : Registry} {q : Creation} {id : String} {a : AgentRow}
    (howner : q.owner = .agent id) (ha : s.agents.lookup id = some a) :
    ((∀ e ∈ hist, (e.2.perform e.1).1 = .ok ()) ∧ t.FirstMessagesFit ↔
      ∀ e ∈ hist, e.2.CutBetweenCharacters) ∧
    (q.NamedAfter lower s a ↔ a.CutBetweenCharacters) := by
  refine ⟨⟨?_, ?_⟩, namedAfter_iff howner ha⟩
  · rintro ⟨hok, -⟩ e he
    exact Recording.perform_isOk_iff.1 (hok e he)
  · intro hcut
    refine ⟨fun e he => Recording.perform_isOk_iff.2 (hcut e he), ?_⟩
    exact (Recording.sound_run hrun hcut).fit

def Registry.ofName (name : String) : Registry :=
  { agents := (∅ : Accounts String AgentRow).insert "agent" (AgentRow.spawned name) }

def shipQuest : Creation :=
  createTaskScoped "agent" "Ship" "" [] .self ⟨0, 0, Nat.le_refl 0, "idea", 0⟩

def greeting : Recording.Call := .recordMessage 5 "session" "user" "web" "user" "Grüße" none

/-- A session with its first message, and a quest of a new agent. -/
theorem greeting_recorded :
    ((∀ e ∈ [(({} : Recording.Transcripts).openSession "session", greeting),
        ({}, .openSession "session")], (e.2.perform e.1).1 = .ok ()) ∧
      (greeting.perform (({} : Recording.Transcripts).openSession "session")).2.FirstMessagesFit) ∧
    shipQuest.NamedAfter (·.map Char.toLower) (.ofName " Zoé ") (.spawned " Zoé ") := by
  have hrun : Run Recording.Call.Step {}
      [(({} : Recording.Transcripts).openSession "session", greeting), ({}, .openSession "session")]
      (greeting.perform (({} : Recording.Transcripts).openSession "session")).2 :=
    .step (.step .nil ⟨⟨rfl, by decide⟩, rfl⟩) ⟨trivial, rfl⟩
  have hiff := @recording_returns_iff _ _ hrun (·.map Char.toLower) (.ofName " Zoé ") shipQuest
    "agent" (.spawned " Zoé ") rfl (AList.lookup_insert _)
  refine ⟨hiff.1.2 fun e he => ?_, hiff.2.2 (by decide +kernel)⟩
  rcases List.mem_cons.1 he with rfl | he
  · intro m hm _
    cases hm
    exact .inl (by decide +kernel)
  · cases List.mem_singleton.1 he
    intro m hm
    cases hm

/-- A letter of two bytes across the end of the cut, in a message and in a name. -/
theorem not_cut_between_characters :
    (Recording.recordEventBySessionWithFullIdentity 5 {} "session" "message" "user"
      (String.ofList (List.replicate 199 'a' ++ ['é'])) none none none none none none).1 =
        .error .panic ∧
    (Recording.recordMessage 5 {} "session" "user" "web" "user"
      (String.ofList (List.replicate 199 'a' ++ ['é'])) none).1 = .error .panic ∧
    (Recording.appendMessageFrom 5 {} "session" "user"
      (String.ofList (List.replicate 199 'a' ++ ['é'])) "user" none none).1 = .error .panic ∧
    (alone RegistryAccess.run (createQuest (·.map Char.toLower) shipQuest) (.ofName "Léa")).1 =
      .error .panic := by
  have hcut : ∀ m : Recording.SessionMessage, m.role = "user" →
      m.content = String.ofList (List.replicate 199 'a' ++ ['é']) →
      (Recording.Transcripts.record {} m).1 = .error .panic := by
    intro m hrole hcontent
    apply Recording.record_panics_iff.2
    rw [Recording.SessionMessage.FromUser, hrole, hcontent, String.toList_ofList]
    decide +kernel
  refine ⟨?_, hcut _ rfl rfl, hcut _ rfl rfl, ?_⟩
  · have hevent : ∀ text, text = String.ofList (List.replicate 199 'a' ++ ['é']) →
        (Recording.recordEventBySessionWithFullIdentity 5 {} "session" "message" "user" text none
          none none none none none).1 = .error .panic := by
      intro text htext
      unfold Recording.recordEventBySessionWithFullIdentity
      dsimp only
      rw [hcut (Recording.eventRow 5 "session" "message" "user" text none none none none none none)
        rfl htext]
      rfl
    exact hevent _ rfl
  · exact createQuest_panics rfl (AList.lookup_insert _) (by decide +kernel)

end Aeqi.Quests
