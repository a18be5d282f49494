import Aeqi.Agent.Compaction

/-!
# Pairing of tool uses and results

`Paired` says that every tool use is answered once by the tool messages behind its own assistant
message, and that every result answers such a use. What pairing sees of a message is its `Turn`.
The repair compares sets of ids and inserts at one place: it makes exactly those transcripts paired
that are `Repairable`.
-/

namespace Aeqi.Agent

open List Option

/-- What pairing sees of a message. -/
structure Turn where
  role : Role
  uses : List String
  results : List String

def Message.turn (m : Message) : Turn := ⟨m.role, m.uses, m.results⟩

open Message (stripped turn)

/-- The results of the tool messages at the start. -/
def answers : List Turn → List String
  | [] => []
  | t :: rest => if t.role = .tool then t.results ++ answers rest else []

/-- What a run of tool messages that goes on behind the message answers, if it answers `ids` up to
there. -/
def Turn.asking (ids : List String) (t : Turn) : List String :=
  if t.role = .tool then ids else if t.role = .assistant then t.uses else []

/-- `P` holds of every message, with the uses that tool messages at its place answer and with what
comes behind it. -/
def AtEach (P : List String → Turn → List Turn → Prop) : List String → List Turn → Prop
  | _, [] => True
  | ids, t :: rest => P ids t rest ∧ AtEach P (t.asking ids) rest

/-- The uses of a message are an assistant's, and each has one result in the tool messages that
follow; its results stand in a tool message and answer uses of the assistant before. -/
def PairedAt (ids : List String) (t : Turn) (rest : List Turn) : Prop :=
  (∀ id ∈ t.uses, t.role = .assistant ∧ (answers rest).count id = 1) ∧
    ∀ id ∈ t.results, t.role = .tool ∧ id ∈ ids

def Paired (messages : List Message) : Prop := AtEach PairedAt [] (messages.map turn)

/-- A use is answered once behind its message, or is answered nowhere and its message is the last
assistant's; a result answers a use of its assistant, or there is no such use at all. -/
def RepairableAt (uses results ids : List String) (t : Turn) (rest : List Turn) : Prop :=
  (∀ id ∈ t.uses, (answers rest).count id = 1 ∨
    id ∉ results ∧ ∀ t' ∈ rest, t'.role ≠ .assistant) ∧
    ∀ id ∈ t.results, id ∈ ids ∨ id ∉ uses

def RepairableTurns (turns : List Turn) : Prop :=
  AtEach (RepairableAt (turns.flatMap (·.uses)) (turns.flatMap (·.results))) [] turns

def Repairable (messages : List Message) : Prop := RepairableTurns (messages.map turn)

/-- Uses stand in assistant messages and results in tool messages. -/
def Turn.Tidy (t : Turn) : Prop :=
  (∀ id ∈ t.uses, t.role = .assistant) ∧ ∀ id ∈ t.results, t.role = .tool

theorem Turn.Tidy.uses_eq_nil {t : Turn} (h : t.Tidy) (hr : t.role ≠ .assistant) : t.uses = [] :=
  eq_nil_iff_forall_not_mem.mpr fun id hid => hr (h.1 id hid)

theorem Turn.Tidy.results_eq_nil {t : Turn} (h : t.Tidy) (hr : t.role ≠ .tool) : t.results = [] :=
  eq_nil_iff_forall_not_mem.mpr fun id hid => hr (h.2 id hid)

theorem mem_results_of_answers {id : String} {turns : List Turn} (h : id ∈ answers turns) :
    id ∈ turns.flatMap (·.results) := by
  induction turns with
  | nil => exact nomatch h
  | cons t rest ih =>
    rw [answers] at h
    split at h
    · exact (mem_append.mp h).elim (mem_append_left _) fun h =>
        mem_append_right _ (ih h)
    · exact nomatch h

theorem atEach_drop {P : List String → Turn → List Turn → Prop} {ids : List String}
    {turns : List Turn} (h : AtEach P ids turns) (n : Nat) : ∃ ids', AtEach P ids' (turns.drop n) := by
  induction n generalizing ids turns with
  | zero => exact ⟨ids, h⟩
  | succ n ih =>
    cases turns with
    | nil => exact ⟨ids, h⟩
    | cons t rest => exact ih h.2

/-! ### Paired turns -/

theorem tidy_of_atEach {ids : List String} {turns : List Turn} (h : AtEach PairedAt ids turns) :
    ∀ t ∈ turns, t.Tidy := by
  induction turns generalizing ids with
  | nil => exact nofun
  | cons t rest ih =>
    refine forall_mem_cons.mpr ⟨⟨fun id hid => ?_, fun id hid => ?_⟩, ih h.2⟩
    · exact (h.1.1 id hid).1
    · exact (h.1.2 id hid).1

theorem answers_subset {ids : List String} {turns : List Turn} (h : AtEach PairedAt ids turns) :
    ∀ id ∈ answers turns, id ∈ ids := by
  induction turns with
  | nil => exact nofun
  | cons t rest ih =>
    intro id hid
    rw [answers] at hid
    split at hid
    · rename_i hr
      have hrest : AtEach PairedAt ids rest := by simpa [Turn.asking, hr] using h.2
      exact (mem_append.mp hid).elim (fun h' => (h.1.2 id h').2) (ih hrest id)
    · exact nomatch hid

theorem uses_answered {ids : List String} {turns : List Turn} (h : AtEach PairedAt ids turns) :
    ∀ id ∈ turns.flatMap (·.uses), id ∈ turns.flatMap (·.results) := by
  induction turns generalizing ids with
  | nil => exact nofun
  | cons t rest ih =>
    intro id hid
    apply mem_append_right
    rcases mem_append.mp hid with hid | hid
    · have hcount := (h.1.1 id hid).2
      exact mem_results_of_answers (count_pos_iff.mp (by omega))
    · exact ih h.2 id hid

theorem results_asked {ids : List String} {turns : List Turn} (h : AtEach PairedAt ids turns) :
    ∀ id ∈ turns.flatMap (·.results), id ∈ ids ∨ id ∈ turns.flatMap (·.uses) := by
  induction turns generalizing ids with
  | nil => exact nofun
  | cons t rest ih =>
    intro id hid
    rcases mem_append.mp hid with hid | hid
    · exact .inl (h.1.2 id hid).2
    · rcases ih h.2 id hid with hasked | huse
      · rw [Turn.asking] at hasked
        split at hasked
        · exact .inl hasked
        · split at hasked
          · exact .inr (mem_append_left _ hasked)
          · exact nomatch hasked
      · exact .inr (mem_append_right _ huse)

/-! ## Inserting behind the last -/

section Inserting

variable {α β : Type}

theorem insertAfterLast_eq_none {found : α → Bool} {new : α} {l : List α} :
    insertAfterLast found new l = none ↔ ∀ a ∈ l, found a = false := by
  induction l with
  | nil => simp [insertAfterLast]
  | cons a rest ih =>
    cases h : insertAfterLast found new rest with
    | some inserted =>
      have hrest : ¬ ∀ a ∈ rest, found a = false := fun hall => by simp [ih.mpr hall] at h
      simp only [insertAfterLast, h, reduceCtorEq, false_iff]
      exact fun hall => hrest fun b hb => hall b (mem_cons_of_mem _ hb)
    | none =>
      have hrest := ih.mp h
      simp only [insertAfterLast, h, forall_mem_cons, ite_eq_right_iff, reduceCtorEq,
        imp_false, Bool.not_eq_true]
      exact ⟨fun ha => ⟨ha, hrest⟩, fun hall => hall.1⟩

theorem insertAfterLast_map (f : α → β) {found : β → Bool} {new : α} {l : List α} :
    insertAfterLast found (f new) (l.map f) =
      (insertAfterLast (fun a => found (f a)) new l).map (List.map f) := by
  induction l with
  | nil => rfl
  | cons a rest ih =>
    rw [map_cons, insertAfterLast, insertAfterLast, ih]
    cases insertAfterLast (fun a => found (f a)) new rest with
    | some inserted => rfl
    | none => cases found (f a) <;> simp

theorem mem_insertAfterLast {found : α → Bool} {new a : α} {l inserted : List α}
    (h : insertAfterLast found new l = some inserted) : a ∈ inserted ↔ a = new ∨ a ∈ l := by
  induction l generalizing inserted with
  | nil => cases h
  | cons b rest ih =>
    rw [insertAfterLast] at h
    cases hrest : insertAfterLast found new rest with
    | some inserted' =>
      simp only [hrest, Option.some.injEq] at h
      rw [← h, mem_cons, ih hrest, mem_cons]
      tauto
    | none =>
      simp only [hrest, ite_none_right_eq_some, Option.some.injEq] at h
      rw [← h.2]
      simp only [mem_cons]
      tauto

end Inserting

/-! ## The repair on turns -/

section Repaired

variable {uses results dangling ids : List String} {turns : List Turn}

def Turn.stripped (uses : List String) (t : Turn) : Turn :=
  { t with results := t.results.filter (· ∈ uses) }

def Turn.asks (t : Turn) : Bool := t.role = .assistant

/-- What the repair inserts. -/
def syntheticTurn (dangling : List String) : Turn := ⟨.tool, [], dangling⟩

def lastUses : List Turn → List String
  | [] => []
  | t :: rest => if rest.any Turn.asks then lastUses rest else if t.asks then t.uses else []

/-- The turns are tidy and their ids are among the given ones. -/
def Within (uses results : List String) (turns : List Turn) : Prop :=
  ∀ t ∈ turns, t.Tidy ∧ t.uses ⊆ uses ∧ t.results ⊆ results

theorem within_self (h : ∀ t ∈ turns, t.Tidy) :
    Within (turns.flatMap (·.uses)) (turns.flatMap (·.results)) turns := fun t ht =>
  ⟨h t ht, fun _ hid => mem_flatMap.mpr ⟨t, ht, hid⟩, fun _ hid => mem_flatMap.mpr ⟨t, ht, hid⟩⟩

theorem Within.answers (h : Within uses results turns) : answers turns ⊆ results := fun _ hid => by
  obtain ⟨t, ht, hid⟩ := mem_flatMap.mp (mem_results_of_answers hid)
  exact (h t ht).2.2 hid

theorem answers_stripped : answers (turns.map (Turn.stripped uses)) =
    (answers turns).filter (· ∈ uses) := by
  induction turns with
  | nil => rfl
  | cons t rest ih =>
    rw [map_cons, answers, answers, ih]
    by_cases hr : t.role = .tool <;> simp [Turn.stripped, hr]

theorem count_stripped {id : String} (hid : id ∈ uses) :
    (answers (turns.map (Turn.stripped uses))).count id = (answers turns).count id := by
  rw [answers_stripped, count_filter (by simpa using hid)]

theorem stripped_results_iff {t : Turn} (ht : t.Tidy) :
    (∀ id ∈ (t.stripped uses).results, t.role = .tool ∧ id ∈ ids) ↔
      ∀ id ∈ t.results, id ∈ ids ∨ id ∉ uses := by
  constructor
  · intro h id hid
    by_cases hu : id ∈ uses
    · exact .inl (h id (mem_filter.mpr ⟨hid, by simpa using hu⟩)).2
    · exact .inr hu
  · intro h id hid
    obtain ⟨hid, hu⟩ := mem_filter.mp hid
    exact ⟨ht.2 id hid, (h id hid).resolve_right fun hn => hn (by simpa using hu)⟩

theorem paired_stripped_iff (h : Within uses results turns)
    (hnone : ∀ t ∈ turns, ∀ id ∈ t.uses, id ∈ results) :
    AtEach PairedAt ids (turns.map (Turn.stripped uses)) ↔
      AtEach (RepairableAt uses results) ids turns := by
  induction turns generalizing ids with
  | nil => exact Iff.rfl
  | cons t rest ih =>
    obtain ⟨⟨ht, husub, -⟩, hrest⟩ := forall_mem_cons.mp h
    obtain ⟨hnone, hnones⟩ := forall_mem_cons.mp hnone
    refine and_congr (and_congr ?_ (stripped_results_iff ht)) (ih hrest hnones)
    constructor
    · intro hp id hid
      exact .inl ((count_stripped (husub hid)).symm.trans (hp id hid).2)
    · intro hp id hid
      refine ⟨ht.1 id hid, (count_stripped (husub hid)).trans ?_⟩
      exact (hp id hid).resolve_right fun hn => hn.1 (hnone id hid)

theorem answers_inserted {inserted : List Turn}
    (h : insertAfterLast Turn.asks (syntheticTurn dangling) turns = some inserted) :
    answers inserted = answers turns := by
  induction turns generalizing inserted with
  | nil => cases h
  | cons t rest ih =>
    rw [insertAfterLast] at h
    cases hrest : insertAfterLast Turn.asks (syntheticTurn dangling) rest with
    | some inserted' =>
      simp only [hrest, Option.some.injEq] at h
      rw [← h, answers, answers, ih hrest]
    | none =>
      simp only [hrest, ite_none_right_eq_some, Option.some.injEq] at h
      obtain ⟨hasks, rfl⟩ := h
      have hr : t.role = .assistant := by simpa [Turn.asks] using hasks
      simp [answers, hr]

theorem count_synthetic {t : Turn} {rest : List Turn} (h : Within uses results (t :: rest))
    (hd : ∀ id, id ∈ dangling ↔ id ∈ uses ∧ id ∉ results) (hnodup : dangling.Nodup) {id : String}
    (hid : id ∈ t.uses) :
    (answers (syntheticTurn dangling :: rest.map (Turn.stripped uses))).count id = 1 ↔
      (answers rest).count id = 1 ∨ id ∉ results := by
  obtain ⟨⟨-, husub, -⟩, hrest⟩ := forall_mem_cons.mp h
  have hrest : Within uses results rest := hrest
  have hcount : (answers (syntheticTurn dangling :: rest.map (Turn.stripped uses))).count id =
      dangling.count id + (answers rest).count id := by
    have hrest : (answers (rest.map (Turn.stripped uses))).count id = (answers rest).count id :=
      count_stripped (husub hid)
    rw [← hrest, ← count_append]
    rfl
  rw [hcount]
  by_cases hres : id ∈ results
  · have hzero : dangling.count id = 0 :=
      count_eq_zero.mpr fun hid => ((hd id).mp hid).2 hres
    simp [hzero, hres]
  · have hone : dangling.count id = 1 :=
      count_eq_one_of_mem hnodup ((hd id).mpr ⟨husub hid, hres⟩)
    have hzero : (answers rest).count id = 0 :=
      count_eq_zero.mpr fun hid => hres (hrest.answers hid)
    simp [hone, hzero, hres]

theorem paired_synthetic_iff {t : Turn} {rest : List Turn} (h : Within uses results (t :: rest))
    (hd : ∀ id, id ∈ dangling ↔ id ∈ uses ∧ id ∉ results) (hnodup : dangling.Nodup)
    (hasks : t.role = .assistant) (hlast : ∀ t' ∈ rest, t'.role ≠ .assistant) :
    AtEach PairedAt ids ((t :: syntheticTurn dangling :: rest).map (Turn.stripped uses)) ↔
      AtEach (RepairableAt uses results) ids (t :: rest) ∧ dangling ⊆ t.uses := by
  obtain ⟨⟨ht, -, -⟩, hrest⟩ := forall_mem_cons.mp h
  have hsyn : (syntheticTurn dangling).stripped uses = syntheticTurn dangling := by
    simp only [Turn.stripped, syntheticTurn, Turn.mk.injEq, true_and]
    exact filter_eq_self.mpr fun id hid => by simpa using ((hd id).mp hid).1
  have hnone : ∀ t' ∈ rest, ∀ id ∈ t'.uses, id ∈ results := fun t' ht' id hid =>
    absurd ((hrest t' ht').1.1 id hid) (hlast t' ht')
  have huses : (∀ id ∈ t.uses, t.role = .assistant ∧
      (answers (syntheticTurn dangling :: rest.map (Turn.stripped uses))).count id = 1) ↔
      ∀ id ∈ t.uses, (answers rest).count id = 1 ∨
        id ∉ results ∧ ∀ t' ∈ rest, t'.role ≠ .assistant := by
    refine forall₂_congr fun id hid => ?_
    rw [count_synthetic h hd hnodup hid, and_iff_right hasks]
    exact or_congr_right (and_iff_left hlast).symm
  have hdangling : PairedAt t.uses (syntheticTurn dangling) (rest.map (Turn.stripped uses)) ↔
      dangling ⊆ t.uses := by
    simp [PairedAt, syntheticTurn, subset_def]
  have hasking : (t.stripped uses).asking ids = t.uses := by
    simp [Turn.asking, Turn.stripped, hasks]
  have hasking' : t.asking ids = t.uses := by simp [Turn.asking, hasks]
  rw [map_cons, map_cons, hsyn, AtEach, AtEach, AtEach, hasking, hasking', paired_stripped_iff hrest hnone]
  have hhead : PairedAt ids (t.stripped uses)
      (syntheticTurn dangling :: rest.map (Turn.stripped uses)) ↔
      RepairableAt uses results ids t rest := and_congr huses (stripped_results_iff ht)
  tauto

theorem paired_inserted_iff {inserted : List Turn} (h : Within uses results turns)
    (hd : ∀ id, id ∈ dangling ↔ id ∈ uses ∧ id ∉ results) (hnodup : dangling.Nodup)
    (hins : insertAfterLast Turn.asks (syntheticTurn dangling) turns = some inserted) :
    AtEach PairedAt ids (inserted.map (Turn.stripped uses)) ↔
      AtEach (RepairableAt uses results) ids turns ∧ dangling ⊆ lastUses turns := by
  induction turns generalizing ids inserted with
  | nil => cases hins
  | cons t rest ih =>
    obtain ⟨⟨ht, husub, -⟩, hrest⟩ := forall_mem_cons.mp h
    rw [insertAfterLast] at hins
    cases hmore : insertAfterLast Turn.asks (syntheticTurn dangling) rest with
    | some inserted' =>
      simp only [hmore, Option.some.injEq] at hins
      have hasks : rest.any Turn.asks = true := by
        by_contra hno
        rw [Bool.not_eq_true, List.any_eq_false] at hno
        rw [insertAfterLast_eq_none.mpr fun a ha => by simpa using hno a ha] at hmore
        cases hmore
      rw [← hins, map_cons, AtEach, AtEach, lastUses, if_pos hasks, and_assoc]
      refine and_congr (and_congr ?_ (stripped_results_iff ht)) (ih hrest hmore)
      obtain ⟨t', ht', hrole⟩ := List.any_eq_true.mp hasks
      refine forall₂_congr fun id hid => ?_
      rw [count_stripped (husub hid), answers_inserted hmore]
      constructor
      · exact fun hp => .inl hp.2
      · intro hp
        refine ⟨ht.1 id hid, hp.resolve_right fun hn => hn.2 t' ht' ?_⟩
        simpa [Turn.asks] using hrole
    | none =>
      simp only [hmore, ite_none_right_eq_some, Option.some.injEq] at hins
      obtain ⟨hasks, rfl⟩ := hins
      have hlast : ∀ t' ∈ rest, t'.role ≠ .assistant := by
        simpa [Turn.asks] using insertAfterLast_eq_none.mp hmore
      have hno : ¬ rest.any Turn.asks = true := by simpa [Turn.asks] using hlast
      rw [lastUses, if_neg hno, if_pos hasks]
      exact paired_synthetic_iff h hd hnodup (by simpa [Turn.asks] using hasks) hlast

theorem dangling_last (h : Within uses results turns)
    (hrep : AtEach (RepairableAt uses results) ids turns) {id : String}
    (hid : id ∈ turns.flatMap (·.uses)) (hres : id ∉ results) : id ∈ lastUses turns := by
  induction turns generalizing ids with
  | nil => exact nomatch hid
  | cons t rest ih =>
    obtain ⟨⟨ht, -, -⟩, hrest⟩ := forall_mem_cons.mp h
    have hrest : Within uses results rest := hrest
    rw [lastUses]
    rcases mem_append.mp (flatMap_cons ▸ hid) with hid | hid
    · have hcount : (answers rest).count id = 0 :=
        count_eq_zero.mpr fun hid => hres (hrest.answers hid)
      have hlast : ∀ t' ∈ rest, t'.role ≠ .assistant :=
        ((hrep.1.1 id hid).resolve_left (by omega)).2
      have hno : ¬ rest.any Turn.asks = true := by simpa [Turn.asks] using hlast
      have hasks : t.asks = true := by simpa [Turn.asks] using ht.1 id hid
      rw [if_neg hno, if_pos hasks]
      exact hid
    · obtain ⟨t', ht', hid'⟩ := mem_flatMap.mp hid
      have hasks : rest.any Turn.asks = true :=
        List.any_eq_true.mpr ⟨t', ht', by simpa [Turn.asks] using (hrest t' ht').1.1 id hid'⟩
      rw [if_pos hasks]
      exact ih hrest hrep.2 hid

end Repaired

/-! ## The repair -/

section Repair

variable {messages : List Message}

theorem flatMap_uses_turn : (messages.map turn).flatMap (·.uses) = messages.flatMap Message.uses := by
  rw [flatMap_map]
  rfl

theorem flatMap_results_turn : (messages.map turn).flatMap (·.results) =
    messages.flatMap Message.results := by
  rw [flatMap_map]
  rfl

theorem kept_use {orphans : List String} (parts : List ContentPart) :
    (parts.filter (·.kept orphans)).filterMap ContentPart.use = parts.filterMap ContentPart.use := by
  induction parts with
  | nil => rfl
  | cons p parts ih =>
    cases p with
    | text t => simp [filter_cons, filterMap_cons, ih]
    | toolUse id name input => simp [filter_cons, ih]
    | toolResult id content isError =>
      by_cases h : id ∈ orphans <;> simp [filterMap_cons, h, ih]

theorem kept_result {orphans : List String} (parts : List ContentPart) :
    (parts.filter (·.kept orphans)).filterMap ContentPart.result =
      (parts.filterMap ContentPart.result).filter (· ∉ orphans) := by
  induction parts with
  | nil => rfl
  | cons p parts ih =>
    cases p with
    | text t | toolUse id name input => simp [filter_cons, filterMap_cons, ih]
    | toolResult id content isError =>
      by_cases h : id ∈ orphans <;> simp [h, ih]

theorem stripped_role (orphans : List String) (m : Message) : (m.stripped orphans).role = m.role := by
  unfold stripped
  split
  · rfl
  · cases m.content <;> rfl

theorem stripped_uses (orphans : List String) (m : Message) :
    (m.stripped orphans).uses = m.uses := by
  obtain ⟨-, content⟩ := m
  unfold stripped
  split
  · rfl
  · cases content with
    | text t => rfl
    | parts parts => exact kept_use parts

theorem stripped_results {orphans : List String} {m : Message} (hr : m.role = .tool) :
    (m.stripped orphans).results = m.results.filter (· ∉ orphans) := by
  obtain ⟨role, content⟩ := m
  unfold stripped
  rw [if_neg (not_not_intro hr)]
  cases content with
  | text t => rfl
  | parts parts => exact kept_result parts

theorem stripped_turn {uses orphans : List String} {m : Message} (h : m.turn.Tidy)
    (horphan : ∀ id ∈ m.results, id ∈ orphans ↔ id ∉ uses) :
    (m.stripped orphans).turn = m.turn.stripped uses := by
  have hresults : (m.stripped orphans).results = m.results.filter (· ∈ uses) := by
    by_cases hr : m.role = .tool
    · rw [stripped_results hr]
      exact filter_congr fun id hid => by simp [horphan id hid]
    · have hnil : m.results = [] := h.results_eq_nil hr
      rw [stripped, if_pos hr, hnil]
      rfl
  simp [turn, Turn.stripped, stripped_role, stripped_uses, hresults]

theorem emptied_turn {m : Message} (h : m.emptied = true) : m.turn = ⟨.tool, [], []⟩ := by
  obtain ⟨hrole, hcontent⟩ := of_decide_eq_true h
  simp [turn, Message.uses, Message.results, hrole, hcontent]

theorem answers_emptied : answers ((messages.filter (! ·.emptied)).map turn) =
    answers (messages.map turn) := by
  induction messages with
  | nil => rfl
  | cons m rest ih =>
    cases h : m.emptied with
    | true => simp [h, ih, answers, emptied_turn h]
    | false => simp [h, ih, answers]

theorem paired_emptied_iff {ids : List String} :
    AtEach PairedAt ids ((messages.filter (! ·.emptied)).map turn) ↔
      AtEach PairedAt ids (messages.map turn) := by
  induction messages generalizing ids with
  | nil => exact Iff.rfl
  | cons m rest ih =>
    cases h : m.emptied with
    | true =>
      rw [filter_cons_of_neg (by simp [h]), ih, map_cons, AtEach, emptied_turn h]
      simp [PairedAt, Turn.asking]
    | false =>
      rw [filter_cons_of_pos (by simp [h]), map_cons, map_cons, AtEach, AtEach, ih,
        PairedAt, PairedAt, answers_emptied]

theorem syntheticResults_uses (dangling : List String) : (syntheticResults dangling).uses = [] := by
  simp [Message.uses, syntheticResults]

theorem syntheticResults_results (dangling : List String) :
    (syntheticResults dangling).results = dangling := by
  have h : (dangling.map fun id =>
      ContentPart.toolResult id SYNTHETIC_TOOL_RESULT true).filterMap ContentPart.result =
        dangling := by
    rw [filterMap_map]
    exact filterMap_some
  exact h

theorem syntheticResults_turn (dangling : List String) :
    (syntheticResults dangling).turn = syntheticTurn dangling := by
  rw [turn, syntheticResults_uses, syntheticResults_results]
  rfl

/-- The ids that the repair answers. -/
def dangling (order : HashOrder) (messages : List Message) : List String :=
  order.walk ((messages.flatMap Message.uses).dedup.filter (· ∉ messages.flatMap Message.results))

/-- The ids whose results the repair takes out. -/
def orphans (order : HashOrder) (messages : List Message) : List String :=
  order.walk ((messages.flatMap Message.results).dedup.filter (· ∉ messages.flatMap Message.uses))

/-- The transcript with the results for its dangling uses. -/
def answered (order : HashOrder) (messages : List Message) : List Message :=
  if dangling order messages ≠ [] then
    (insertAfterLast (·.role = .assistant) (syntheticResults (dangling order messages))
      messages).getD messages
  else messages

variable {order : HashOrder}

theorem mem_dangling {id : String} : id ∈ dangling order messages ↔
    id ∈ messages.flatMap Message.uses ∧ id ∉ messages.flatMap Message.results := by
  rw [dangling, (order.perm _).mem_iff, mem_filter, mem_dedup, decide_eq_true_eq]

theorem nodup_dangling : (dangling order messages).Nodup :=
  (order.perm _).nodup_iff.mpr ((nodup_dedup _).filter _)

theorem mem_orphans {id : String} : id ∈ orphans order messages ↔
    id ∈ messages.flatMap Message.results ∧ id ∉ messages.flatMap Message.uses := by
  rw [orphans, (order.perm _).mem_iff, mem_filter, mem_dedup, decide_eq_true_eq]

theorem repairToolPairing_eq : repairToolPairing order messages =
    if orphans order messages ≠ [] then
      ((answered order messages).map (·.stripped (orphans order messages))).filter (! ·.emptied)
    else answered order messages := by
  by_cases h : dangling order messages = [] ∧ orphans order messages = []
  · have hsame : repairToolPairing order messages = messages := if_pos h
    rw [hsame, if_neg (not_not_intro h.2), answered, if_neg (not_not_intro h.1)]
  · exact if_neg h

theorem repair_of_paired (h : Paired messages) : repairToolPairing order messages = messages := by
  have huses := uses_answered h
  have hresults := results_asked h
  rw [flatMap_uses_turn, flatMap_results_turn] at huses hresults
  have hd : dangling order messages = [] := eq_nil_iff_forall_not_mem.mpr fun id hid => by
    obtain ⟨huse, hres⟩ := mem_dangling.mp hid
    exact hres (huses id huse)
  have ho : orphans order messages = [] := eq_nil_iff_forall_not_mem.mpr fun id hid => by
    obtain ⟨hres, huse⟩ := mem_orphans.mp hid
    exact huse ((hresults id hres).resolve_left not_mem_nil)
  simp [repairToolPairing_eq, answered, hd, ho]

theorem mem_answered {m : Message} (hm : m ∈ answered order messages) :
    m = syntheticResults (dangling order messages) ∨ m ∈ messages := by
  unfold answered at hm
  split at hm
  · cases h : insertAfterLast (·.role = .assistant) (syntheticResults (dangling order messages))
        messages with
    | none => exact .inr (by simpa [h] using hm)
    | some inserted => exact (mem_insertAfterLast h).mp (by simpa [h] using hm)
  · exact .inr hm

theorem answered_of_mem {m : Message} (hm : m ∈ messages) : m ∈ answered order messages := by
  unfold answered
  split
  · cases h : insertAfterLast (·.role = .assistant) (syntheticResults (dangling order messages))
        messages with
    | none => exact hm
    | some inserted => exact (mem_insertAfterLast h).mpr (.inr hm)
  · exact hm

theorem synthetic_answered (hd : dangling order messages ≠ [])
    (hasks : ∃ m ∈ messages, m.role = .assistant) :
    syntheticResults (dangling order messages) ∈ answered order messages := by
  rw [answered, if_pos hd]
  obtain ⟨m, hm, hrole⟩ := hasks
  cases h : insertAfterLast (·.role = .assistant) (syntheticResults (dangling order messages))
      messages with
  | none => exact absurd (insertAfterLast_eq_none.mp h m hm) (by simp [hrole])
  | some inserted => exact (mem_insertAfterLast h).mpr (.inl rfl)

theorem answered_tidy (h : ∀ m ∈ messages, m.turn.Tidy) : ∀ m ∈ answered order messages,
    m.turn.Tidy ∧ ∀ id ∈ m.results,
      (id ∈ orphans order messages ↔ id ∉ messages.flatMap Message.uses) := by
  intro m hm
  rcases mem_answered hm with rfl | hm
  · have hturn := syntheticResults_turn (dangling order messages)
    refine ⟨?_, fun id hid => ?_⟩
    · rw [hturn]
      exact ⟨nofun, fun _ _ => rfl⟩
    · rw [syntheticResults_results] at hid
      have huse := (mem_dangling.mp hid).1
      rw [mem_orphans]
      tauto
  · refine ⟨h m hm, fun id hid => ?_⟩
    rw [mem_orphans]
    exact and_iff_right (mem_flatMap.mpr ⟨m, hm, hid⟩)

theorem paired_repair_iff_stripped (h : ∀ m ∈ messages, m.turn.Tidy) :
    Paired (repairToolPairing order messages) ↔
      AtEach PairedAt [] (((answered order messages).map turn).map
        (Turn.stripped (messages.flatMap Message.uses))) := by
  have htidy := @answered_tidy messages order h
  rw [Paired, repairToolPairing_eq]
  split
  · rw [paired_emptied_iff, List.map_map, List.map_map]
    refine iff_of_eq (congrArg _ (map_congr_left fun m hm => ?_))
    exact stripped_turn (htidy m hm).1 (htidy m hm).2
  · rename_i ho
    rw [List.map_map]
    refine iff_of_eq (congrArg _ (map_congr_left fun m hm => ?_))
    have hall : m.results.filter (· ∈ messages.flatMap Message.uses) = m.results := by
      refine filter_eq_self.mpr fun id hid => ?_
      have hno : id ∉ orphans order messages := by
        rw [not_not.mp ho]
        exact not_mem_nil
      exact decide_eq_true (not_not.mp fun hn => hno (((htidy m hm).2 id hid).mpr hn))
    simp only [Function.comp, Turn.stripped, turn, hall]

theorem paired_repair_iff (h : ∀ m ∈ messages, m.turn.Tidy) :
    Paired (repairToolPairing order messages) ↔ Repairable messages := by
  have htidy : ∀ t ∈ messages.map turn, t.Tidy := by simpa using h
  have hwithin := within_self htidy
  rw [paired_repair_iff_stripped h, Repairable, RepairableTurns]
  rw [flatMap_uses_turn, flatMap_results_turn] at *
  by_cases hd : dangling order messages = []
  · have hsame : answered order messages = messages := by simp [answered, hd]
    rw [hsame]
    refine paired_stripped_iff hwithin fun t ht id hid => ?_
    by_contra hres
    have hmem : id ∈ dangling order messages := mem_dangling.mpr ⟨(hwithin t ht).2.1 hid, hres⟩
    rw [hd] at hmem
    exact not_mem_nil hmem
  · have hasks : ∃ m ∈ messages, m.role = .assistant := by
      obtain ⟨id, hid⟩ := exists_mem_of_ne_nil _ hd
      obtain ⟨m, hm, huse⟩ := mem_flatMap.mp (mem_dangling.mp hid).1
      exact ⟨m, hm, (h m hm).1 id huse⟩
    have hins : insertAfterLast Turn.asks (syntheticTurn (dangling order messages))
        (messages.map turn) = (insertAfterLast (·.role = .assistant)
          (syntheticResults (dangling order messages)) messages).map (List.map turn) := by
      rw [← syntheticResults_turn]
      exact insertAfterLast_map turn
    rw [answered, if_pos hd]
    cases hsome : insertAfterLast (·.role = .assistant)
        (syntheticResults (dangling order messages)) messages with
    | none =>
      obtain ⟨m, hm, hrole⟩ := hasks
      exact absurd (insertAfterLast_eq_none.mp hsome m hm) (by simp [hrole])
    | some inserted =>
      rw [hsome] at hins
      rw [getD_some, paired_inserted_iff hwithin (fun id => mem_dangling) nodup_dangling hins]
      refine and_iff_left_of_imp fun hrep id hid => ?_
      obtain ⟨huse, hres⟩ := mem_dangling.mp hid
      exact dangling_last hwithin hrep (flatMap_uses_turn.symm ▸ huse) hres

/-! ### The repair again -/

theorem kept_kept {orphans orphans' : List String} (h : orphans' ⊆ orphans)
    (parts : List ContentPart) :
    (parts.filter (·.kept orphans)).filter (·.kept orphans') = parts.filter (·.kept orphans) := by
  refine filter_eq_self.mpr fun p hp => ?_
  have hkept := (mem_filter.mp hp).2
  cases p with
  | text t | toolUse id name input => rfl
  | toolResult id content isError =>
    rw [ContentPart.kept_toolResult, decide_eq_true_eq] at hkept ⊢
    exact fun hid => hkept (h hid)

theorem stripped_stripped {orphans orphans' : List String} (h : orphans' ⊆ orphans)
    (m : Message) : (m.stripped orphans).stripped orphans' = m.stripped orphans := by
  obtain ⟨role, content⟩ := m
  by_cases hr : role = .tool
  · subst hr
    cases content with
    | text t => rfl
    | parts parts =>
      exact congrArg (fun parts => Message.mk .tool (.parts parts)) (kept_kept h parts)
  · have hsame (orphans : List String) : (Message.mk role content).stripped orphans =
        ⟨role, content⟩ := if_pos hr
    rw [hsame, hsame]

theorem stripped_nil (m : Message) : m.stripped [] = m := by
  obtain ⟨role, content⟩ := m
  unfold stripped
  split
  · rfl
  · cases content with
    | text t => rfl
    | parts parts =>
      refine congrArg (fun parts => Message.mk role (.parts parts)) ?_
      refine filter_eq_self.mpr fun p _ => ?_
      cases p <;> rfl

theorem mem_repair {m : Message} (hm : m ∈ repairToolPairing order messages) :
    ∃ m' ∈ answered order messages, m'.stripped (orphans order messages) = m := by
  rw [repairToolPairing_eq] at hm
  split at hm
  · exact List.mem_map.mp (mem_of_mem_filter hm)
  · rename_i ho
    exact ⟨m, hm, not_not.mp ho ▸ stripped_nil m⟩

theorem repair_of_answered {m : Message} (hm : m ∈ answered order messages)
    (h : (m.stripped (orphans order messages)).emptied = false) :
    m.stripped (orphans order messages) ∈ repairToolPairing order messages := by
  rw [repairToolPairing_eq]
  split
  · exact mem_filter.mpr ⟨List.mem_map_of_mem hm, by simp [h]⟩
  · rename_i ho
    rwa [not_not.mp ho, stripped_nil]

theorem not_emptied {m : Message} {id : String} (h : id ∈ m.uses ∨ id ∈ m.results) :
    m.emptied = false := by
  by_contra he
  have hturn := emptied_turn (Bool.not_eq_false _ ▸ he)
  have huses : m.uses = [] := congrArg Turn.uses hturn
  have hresults : m.results = [] := congrArg Turn.results hturn
  rw [huses, hresults] at h
  exact h.elim not_mem_nil not_mem_nil

theorem mem_uses_repair {id : String} :
    id ∈ (repairToolPairing order messages).flatMap Message.uses ↔
      id ∈ messages.flatMap Message.uses := by
  constructor
  · intro hid
    obtain ⟨m, hm, huse⟩ := mem_flatMap.mp hid
    obtain ⟨m', hm', rfl⟩ := mem_repair hm
    rw [stripped_uses] at huse
    rcases mem_answered hm' with rfl | hm'
    · rw [syntheticResults_uses] at huse
      exact nomatch huse
    · exact mem_flatMap.mpr ⟨m', hm', huse⟩
  · intro hid
    obtain ⟨m, hm, huse⟩ := mem_flatMap.mp hid
    have huse' : id ∈ (m.stripped (orphans order messages)).uses := by rwa [stripped_uses]
    exact mem_flatMap.mpr ⟨_, repair_of_answered (answered_of_mem hm) (not_emptied (.inl huse')),
      huse'⟩

theorem results_repair {m : Message} {id : String} (hm : m ∈ answered order messages)
    (hid : id ∈ m.results) (huse : id ∈ messages.flatMap Message.uses) :
    id ∈ (repairToolPairing order messages).flatMap Message.results := by
  have hid' : id ∈ (m.stripped (orphans order messages)).results := by
    by_cases hr : m.role = .tool
    · rw [stripped_results hr]
      exact mem_filter.mpr ⟨hid, decide_eq_true fun ho => (mem_orphans.mp ho).2 huse⟩
    · rwa [stripped, if_pos hr]
  exact mem_flatMap.mpr ⟨_, repair_of_answered hm (not_emptied (.inr hid')), hid'⟩

theorem results_of_repair {id : String}
    (hid : id ∈ (repairToolPairing order messages).flatMap Message.results) :
    id ∈ dangling order messages ∨ id ∈ messages.flatMap Message.results := by
  obtain ⟨m, hm, hres⟩ := mem_flatMap.mp hid
  obtain ⟨m', hm', rfl⟩ := mem_repair hm
  have hres' : id ∈ m'.results := by
    by_cases hr : m'.role = .tool
    · rw [stripped_results hr] at hres
      exact mem_of_mem_filter hres
    · rwa [stripped, if_pos hr] at hres
  rcases mem_answered hm' with rfl | hm'
  · rw [syntheticResults_results] at hres'
    exact .inl hres'
  · exact .inr (mem_flatMap.mpr ⟨m', hm', hres'⟩)

variable {order' : HashOrder}

theorem orphans_repair : orphans order' (repairToolPairing order messages) ⊆
    orphans order messages := by
  intro id hid
  obtain ⟨hres, huse⟩ := mem_orphans.mp hid
  rw [mem_uses_repair] at huse
  refine mem_orphans.mpr ⟨(results_of_repair hres).resolve_left fun hd => ?_, huse⟩
  exact huse (mem_dangling.mp hd).1

theorem dangling_repair (h : ∃ m ∈ messages, m.role = .assistant) :
    dangling order' (repairToolPairing order messages) = [] := by
  refine eq_nil_iff_forall_not_mem.mpr fun id hid => ?_
  obtain ⟨huse, hres⟩ := mem_dangling.mp hid
  rw [mem_uses_repair] at huse
  by_cases hin : id ∈ messages.flatMap Message.results
  · obtain ⟨m, hm, hmres⟩ := mem_flatMap.mp hin
    exact hres (results_repair (answered_of_mem hm) hmres huse)
  · have hd : id ∈ dangling order messages := mem_dangling.mpr ⟨huse, hin⟩
    have hsyn := synthetic_answered (ne_nil_of_mem hd) h
    rw [← syntheticResults_results (dangling order messages)] at hd
    exact hres (results_repair hsyn hd huse)

theorem role_repair {m : Message} (hm : m ∈ repairToolPairing order messages)
    (hrole : m.role = .assistant) : ∃ m' ∈ messages, m'.role = .assistant := by
  obtain ⟨m', hm', rfl⟩ := mem_repair hm
  rw [stripped_role] at hrole
  rcases mem_answered hm' with rfl | hm'
  · cases hrole
  · exact ⟨m', hm', hrole⟩

theorem repair_repair : repairToolPairing order' (repairToolPairing order messages) =
    repairToolPairing order messages := by
  have hanswered : answered order' (repairToolPairing order messages) =
      repairToolPairing order messages := by
    unfold answered
    split
    · rename_i hd
      have hnone : ∀ m ∈ repairToolPairing order messages,
          decide (m.role = .assistant) = false := fun m hm =>
        decide_eq_false fun hrole => hd (dangling_repair (role_repair hm hrole))
      rw [insertAfterLast_eq_none.mpr hnone, getD_none]
    · rfl
  rw [repairToolPairing_eq, hanswered]
  split
  · rename_i ho'
    have ho : orphans order messages ≠ [] := fun ho =>
      ho' (subset_nil.mp (ho ▸ orphans_repair))
    have hsame : (repairToolPairing order messages).map
        (·.stripped (orphans order' (repairToolPairing order messages))) =
          repairToolPairing order messages := by
      refine (map_congr_left fun m hm => ?_).trans (List.map_id _)
      obtain ⟨m', -, rfl⟩ := mem_repair hm
      exact stripped_stripped orphans_repair m'
    rw [hsame]
    refine filter_eq_self.mpr fun m hm => ?_
    rw [repairToolPairing_eq, if_pos ho] at hm
    exact (mem_filter.mp hm).2
  · rfl

end Repair

end Aeqi.Agent
