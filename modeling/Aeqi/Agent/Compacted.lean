import Aeqi.Agent.Pairing
import Mathlib.Data.List.DropRight

/-!
# Compaction and pairing

Clearing and shortening results changes no pairing, and a system message that is dropped stands
before no results. So what the stages leave pairs after the repair exactly if the transcript
without the messages that `snip_compact` drains is repairable.
-/

namespace Aeqi.Agent

open List
open Message (cleared collapsed turn)

/-! ## Clearing and shortening -/

theorem filterMap_parts {f : ContentPart → ContentPart} {g : ContentPart → Option String}
    (h : ∀ p, g (f p) = g p) (parts : List ContentPart) :
    (parts.map f).filterMap g = parts.filterMap g := by
  rw [filterMap_map]
  exact congrArg (List.filterMap · parts) (funext h)

theorem cleared_turn (clearSet : List String) (m : Message) :
    (m.cleared clearSet).turn = m.turn := by
  obtain ⟨role, content⟩ := m
  unfold cleared
  split
  · rfl
  · cases content with
    | text t => rfl
    | parts parts =>
      have huse (p : ContentPart) : (p.cleared clearSet).use = p.use := by
        cases p with
        | toolResult id content isError => exact (apply_ite ContentPart.use _ _ _).trans (ite_self _)
        | _ => rfl
      have hresult (p : ContentPart) : (p.cleared clearSet).result = p.result := by
        cases p with
        | toolResult id content isError =>
          exact (apply_ite ContentPart.result _ _ _).trans (ite_self _)
        | _ => rfl
      exact congrArg₂ (Turn.mk role) (filterMap_parts huse parts) (filterMap_parts hresult parts)

theorem collapsed_turn (m : Message) : m.collapsed.turn = m.turn := by
  obtain ⟨role, content⟩ := m
  unfold collapsed
  split
  · rfl
  · cases content with
    | text t => rfl
    | parts parts =>
      have huse (p : ContentPart) : p.collapsed.use = p.use := by cases p <;> rfl
      have hresult (p : ContentPart) : p.collapsed.result = p.result := by cases p <;> rfl
      exact congrArg₂ (Turn.mk role) (filterMap_parts huse parts) (filterMap_parts hresult parts)

/-- The compactable uses before the tail. -/
def usesBeforeTail (lower : String → String) (messages : List Message) (preserveTail : Nat) :
    List String :=
  (messages.take (messages.length - preserveTail)).flatMap (·.compactableIds lower)

theorem cleared_nil (m : Message) : m.cleared [] = m := by
  obtain ⟨-, content⟩ := m
  unfold cleared
  split
  · rfl
  · cases content with
    | text t => rfl
    | parts parts =>
      have hpart (p : ContentPart) : p.cleared [] = p := by
        cases p <;> simp [ContentPart.cleared, ContentPart.clears]
      simp [hpart]

theorem microcompact_eq (lower : String → String) (messages : List Message)
    (preserveTail keepRecent : Nat) :
    (microcompact lower messages preserveTail keepRecent).2 =
      (messages.take (messages.length - preserveTail)).map
        (·.cleared ((usesBeforeTail lower messages preserveTail).rdrop keepRecent)) ++
      messages.drop (messages.length - preserveTail) := by
  unfold microcompact
  split
  · rename_i hshort
    simp [Nat.sub_eq_zero_of_le hshort]
  · dsimp only
    split
    · rename_i hfew
      have hnone : (usesBeforeTail lower messages preserveTail).rdrop keepRecent = [] := by
        rw [List.rdrop, usesBeforeTail, Nat.sub_eq_zero_of_le hfew, take_zero]
      simp [hnone, cleared_nil]
    · rfl

theorem microcompact_turns (lower : String → String) (messages : List Message)
    (preserveTail keepRecent : Nat) :
    (microcompact lower messages preserveTail keepRecent).2.map turn = messages.map turn := by
  have hcleared (clearSet : List String) :
      turn ∘ (·.cleared clearSet) = turn := funext (cleared_turn clearSet)
  rw [microcompact_eq, map_append, map_map, hcleared, ← map_append, take_append_drop]

/-! ## Dropping system messages -/

section Dropping

/-- Some system messages are gone, each of which stood before no results. -/
inductive Thinned : List Turn → List Turn → Prop
  | nil : Thinned [] []
  | keep (t : Turn) {l l' : List Turn} (thin : Thinned l l') : Thinned (t :: l) (t :: l')
  | drop {t : Turn} {l l' : List Turn} (role : t.role = .system) (quiet : answers l = [])
      (thin : Thinned l l') : Thinned (t :: l) l'

variable {l l' : List Turn}

theorem Thinned.refl (l : List Turn) : Thinned l l := by
  induction l with
  | nil => exact .nil
  | cons t l ih => exact .keep t ih

theorem Thinned.append_left (h : Thinned l l') (before : List Turn) :
    Thinned (before ++ l) (before ++ l') := by
  induction before with
  | nil => exact h
  | cons t before ih => exact .keep t ih

theorem Thinned.subset (h : Thinned l l') : l' ⊆ l := by
  induction h with
  | nil => exact fun _ h => h
  | keep t _ ih => exact cons_subset_cons t ih
  | drop _ _ _ ih => exact subset_cons_of_subset _ ih

theorem Thinned.answers (h : Thinned l l') : answers l' = answers l := by
  induction h with
  | nil => rfl
  | keep t _ ih => rw [Agent.answers, Agent.answers, ih]
  | drop role quiet _ ih => rw [ih, quiet, Agent.answers, if_neg (by simp [role])]

theorem Thinned.flatMap (h : Thinned l l') {f : Turn → List String}
    (hf : ∀ t ∈ l, t.role = .system → f t = []) : l'.flatMap f = l.flatMap f := by
  induction h with
  | nil => rfl
  | keep t _ ih =>
    rw [flatMap_cons, flatMap_cons, ih fun t ht => hf t (mem_cons_of_mem _ ht)]
  | drop role _ _ ih =>
    rw [flatMap_cons, hf _ mem_cons_self role, nil_append,
      ih fun t ht => hf t (mem_cons_of_mem _ ht)]

theorem Thinned.assistants (h : Thinned l l') :
    (∀ t ∈ l', t.role ≠ .assistant) ↔ ∀ t ∈ l, t.role ≠ .assistant := by
  induction h with
  | nil => exact Iff.rfl
  | keep t _ ih => rw [forall_mem_cons, forall_mem_cons, ih]
  | drop role _ _ ih =>
    rw [forall_mem_cons, ih]
    exact (and_iff_right (by simp [role])).symm

theorem repairable_quiet {uses results : List String} (htidy : ∀ t ∈ l, t.Tidy)
    (hquiet : answers l = []) (ids ids' : List String) :
    AtEach (RepairableAt uses results) ids l ↔ AtEach (RepairableAt uses results) ids' l := by
  induction l with
  | nil => exact Iff.rfl
  | cons t l ih =>
    obtain ⟨ht, htidy⟩ := forall_mem_cons.mp htidy
    rw [answers] at hquiet
    by_cases hr : t.role = .tool
    · rw [if_pos hr, append_eq_nil_iff] at hquiet
      simp [AtEach, Turn.asking, if_pos hr, RepairableAt, hquiet.1, ih htidy hquiet.2]
    · simp [AtEach, Turn.asking, if_neg hr, RepairableAt, ht.results_eq_nil hr]

theorem Thinned.repairableAt (h : Thinned l l') {uses results : List String}
    (htidy : ∀ t ∈ l, t.Tidy) (ids : List String) :
    AtEach (RepairableAt uses results) ids l' ↔ AtEach (RepairableAt uses results) ids l := by
  induction h generalizing ids with
  | nil => exact Iff.rfl
  | keep t thin ih =>
    obtain ⟨-, htidy⟩ := forall_mem_cons.mp htidy
    rw [AtEach, AtEach, ih htidy, RepairableAt, RepairableAt, thin.answers, thin.assistants]
  | @drop t l l' role quiet thin ih =>
    obtain ⟨ht, htidy⟩ := forall_mem_cons.mp htidy
    have hhead : RepairableAt uses results ids t l := by
      simp [RepairableAt, ht.uses_eq_nil (by simp [role]), ht.results_eq_nil (by simp [role])]
    rw [ih htidy, AtEach, and_iff_right hhead]
    exact repairable_quiet htidy quiet ids _

theorem Thinned.repairable (h : Thinned l l') (htidy : ∀ t ∈ l, t.Tidy) :
    RepairableTurns l' ↔ RepairableTurns l := by
  have huses : l'.flatMap (·.uses) = l.flatMap (·.uses) :=
    h.flatMap fun t ht role => (htidy t ht).uses_eq_nil (by simp [role])
  have hresults : l'.flatMap (·.results) = l.flatMap (·.results) :=
    h.flatMap fun t ht role => (htidy t ht).results_eq_nil (by simp [role])
  rw [RepairableTurns, huses, hresults]
  exact h.repairableAt htidy []

theorem removeStale_thinned (preserveTail : Nat) {ids : List String} {messages : List Message}
    (h : AtEach PairedAt ids (messages.map turn)) :
    Thinned (messages.map turn)
      ((removeStale preserveTail messages).2.map turn) := by
  induction messages generalizing ids with
  | nil => exact .nil
  | cons m rest ih =>
    rw [removeStale]
    split
    · exact .refl _
    · split
      · rename_i hr
        have hr : m.turn.role = .system := hr
        refine .drop hr ?_ (ih h.2)
        have hasking : m.turn.asking ids = [] := by simp [Turn.asking, hr]
        exact eq_nil_iff_forall_not_mem.mpr fun id hid =>
          absurd (answers_subset h.2 id hid) (hasking ▸ not_mem_nil)
      · exact .keep _ (ih h.2)

theorem contextCollapse_thinned {messages : List Message} {preserveHead : Nat}
    (preserveTail : Nat) {ids : List String}
    (h : AtEach PairedAt ids ((messages.drop preserveHead).map turn)) :
    Thinned (messages.map turn)
      ((contextCollapse messages preserveHead preserveTail).2.map turn) := by
  unfold contextCollapse
  split
  · exact .refl _
  · lift_lets
    intro stale last
    have hcollapsed (l : List Message) :
        (l.map collapsed).map turn = l.map turn := by
      rw [map_map]
      exact map_congr_left fun m _ => collapsed_turn m
    have hturns : (messages.take preserveHead ++ ((stale.2.take last).map collapsed ++
        stale.2.drop last)).map turn =
        (messages.take preserveHead).map turn ++ stale.2.map turn := by
      rw [map_append, map_append, hcollapsed, ← map_append, take_append_drop]
    have hsplit : messages.map turn = (messages.take preserveHead).map turn ++
        (messages.drop preserveHead).map turn := by
      rw [← map_append, take_append_drop]
    rw [hturns, hsplit]
    exact (removeStale_thinned preserveTail h).append_left _

end Dropping

/-! ## The cut -/

def window (preserveHead preserveTail : Nat) (messages : List Message) : List Message :=
  (messages.take (messages.length - preserveTail)).drop preserveHead

def roundLength (window : List Message) : Nat :=
  match window.dropWhile (·.role ≠ .assistant) with
  | [] => 0
  | _ :: rest => (rest.takeWhile (·.role = .tool)).length + 1

/-- The transcript without as many messages as the first round of the window has, from the start of
the window on, wherever in it that round begins. -/
def withoutRound (preserveHead preserveTail : Nat) (messages : List Message) : List Message :=
  if 2 ≤ (window preserveHead preserveTail messages).length then
    messages.take preserveHead ++
      messages.drop (preserveHead + roundLength (window preserveHead preserveTail messages))
  else messages

theorem firstRound_length (window : List Message) :
    (firstRound window).length = roundLength window := by
  induction window with
  | nil => rfl
  | cons m rest ih =>
    by_cases hr : m.role = .assistant
    · simp [firstRound, roundLength, hr]
    · rw [firstRound, if_pos hr, ih, roundLength, roundLength, dropWhile_cons_of_pos (by simp [hr])]

theorem snipCompact_eq (messages : List Message) (preserveHead preserveTail : Nat) :
    (snipCompact messages preserveHead preserveTail).2 =
      withoutRound preserveHead preserveTail messages := by
  have hlength : (window preserveHead preserveTail messages).length =
      messages.length - preserveTail - preserveHead := by
    simp [window]
  unfold snipCompact withoutRound
  rw [hlength]
  split
  · rw [if_neg (by omega)]
  · lift_lets
    intro windowStart windowEnd maxRemove round removeCount
    rw [if_neg (by omega)]
    by_cases hmax : 2 ≤ messages.length - preserveTail - preserveHead
    · have hround : removeCount = roundLength (window preserveHead preserveTail messages) := by
        have hpos : 0 < maxRemove := by omega
        simp only [removeCount, round, if_pos hpos]
        exact firstRound_length _
      rw [← hround]
      split
      · rfl
      · rename_i hzero
        rw [Nat.eq_zero_of_not_pos hzero, Nat.add_zero, take_append_drop]
    · have hround : removeCount = 0 := by
        have hpos : ¬ 0 < maxRemove := by omega
        simp [removeCount, round, if_neg hpos]
      rw [if_neg hmax, hround]
      rfl

/-! ## The whole -/

section Pairs

variable {messages : List Message}

def undrained (stages : Stages) (preserveHead preserveTail : Nat) (messages : List Message) :
    List Message :=
  if stages.snip then withoutRound preserveHead preserveTail messages else messages

theorem undrained_subset (stages : Stages) (preserveHead preserveTail : Nat) :
    undrained stages preserveHead preserveTail messages ⊆ messages := by
  unfold undrained withoutRound
  split
  · split
    · exact append_subset.mpr ⟨take_subset _ _, drop_subset _ _⟩
    · exact List.Subset.refl _
  · exact List.Subset.refl _

theorem undrained_drop (h : Paired messages) (stages : Stages) (preserveHead preserveTail : Nat) :
    ∃ ids, AtEach PairedAt ids
      (((undrained stages preserveHead preserveTail messages).drop preserveHead).map
        turn) := by
  have hdrop (n : Nat) : ∃ ids, AtEach PairedAt ids ((messages.drop n).map turn) := by
    rw [map_drop]
    exact atEach_drop h n
  unfold undrained withoutRound
  split
  · split
    · rename_i hwindow
      have hlength : (messages.take preserveHead).length = preserveHead := by
        rw [window, length_drop, length_take] at hwindow
        rw [length_take]
        omega
      rw [drop_append_of_le_length hlength.ge, drop_of_length_le hlength.le]
      exact hdrop _
    · exact hdrop _
  · exact hdrop _

variable (lower : String → String)

theorem compact_thinned (h : Paired messages) (stages : Stages)
    (preserveHead preserveTail keepRecent : Nat) :
    Thinned ((undrained stages preserveHead preserveTail messages).map turn)
      ((compact lower stages preserveHead preserveTail keepRecent messages).map turn) := by
  have hsnip : (if stages.snip then (snipCompact messages preserveHead preserveTail).2
      else messages) = undrained stages preserveHead preserveTail messages := by
    rw [snipCompact_eq, undrained]
  obtain ⟨ids, hdrop⟩ := undrained_drop h stages preserveHead preserveTail
  rw [compact, hsnip]
  generalize undrained stages preserveHead preserveTail messages = left at hdrop
  have hmicro : (if stages.micro then (microcompact lower left preserveTail keepRecent).2
      else left).map turn = left.map turn := by
    split
    · exact microcompact_turns lower left preserveTail keepRecent
    · rfl
  generalize (if stages.micro then (microcompact lower left preserveTail keepRecent).2
    else left) = micro at hmicro
  have hdrop : AtEach PairedAt ids ((micro.drop preserveHead).map turn) := by
    rwa [map_drop, hmicro, ← map_drop]
  rw [← hmicro]
  split
  · exact contextCollapse_thinned preserveTail hdrop
  · exact .refl _

/-- What the compaction is to keep: the transcript pairs after it, and the repair changes nothing
where it is not needed, also not after itself. -/
structure KeepsPairing (order : HashOrder) (stages : Stages)
    (preserveHead preserveTail keepRecent : Nat) (messages : List Message) : Prop where
  paired : Paired (repairToolPairing order
    (compact lower stages preserveHead preserveTail keepRecent messages))
  idempotent : ∀ order' transcript,
    repairToolPairing order' (repairToolPairing order transcript) =
      repairToolPairing order transcript
  unchanged : ∀ transcript, Paired transcript → repairToolPairing order transcript = transcript

/-- A compaction keeps the pairing if what is not drained is repairable, and only then. -/
theorem keepsPairing_iff (order : HashOrder) (stages : Stages)
    (preserveHead preserveTail keepRecent : Nat) (h : Paired messages) :
    KeepsPairing lower order stages preserveHead preserveTail keepRecent messages ↔
      Repairable (undrained stages preserveHead preserveTail messages) := by
  have htidy : ∀ t ∈ (undrained stages preserveHead preserveTail messages).map turn, t.Tidy := by
    intro t ht
    exact tidy_of_atEach h t (map_subset _ (undrained_subset ..) ht)
  have hthin := compact_thinned lower h stages preserveHead preserveTail keepRecent
  have hpaired : Paired (repairToolPairing order
      (compact lower stages preserveHead preserveTail keepRecent messages)) ↔ Repairable _ :=
    paired_repair_iff fun m hm => htidy _ (hthin.subset (mem_map_of_mem hm))
  rw [Repairable, hthin.repairable htidy] at hpaired
  exact ⟨fun h => hpaired.mp h.paired,
    fun h => ⟨hpaired.mpr h, fun _ _ => repair_repair, fun _ => repair_of_paired⟩⟩

end Pairs

instance PairedAt.decidable (ids : List String) (t : Turn) (rest : List Turn) :
    Decidable (PairedAt ids t rest) :=
  inferInstanceAs (Decidable (_ ∧ _))

instance RepairableAt.decidable (uses results ids : List String) (t : Turn) (rest : List Turn) :
    Decidable (RepairableAt uses results ids t rest) :=
  inferInstanceAs (Decidable (_ ∧ _))

instance AtEach.decidable (P : List String → Turn → List Turn → Prop)
    [h : ∀ ids t rest, Decidable (P ids t rest)] :
    ∀ ids turns, Decidable (AtEach P ids turns)
  | _, [] => isTrue trivial
  | ids, t :: rest =>
    have := h ids t rest
    have := AtEach.decidable P (t.asking ids) rest
    inferInstanceAs (Decidable (_ ∧ _))

instance Paired.decidable (messages : List Message) : Decidable (Paired messages) :=
  inferInstanceAs (Decidable (AtEach PairedAt _ _))

instance Repairable.decidable (messages : List Message) : Decidable (Repairable messages) :=
  inferInstanceAs (Decidable (AtEach (RepairableAt _ _) _ _))

def oneCall : List Message :=
  [⟨.user, .text "go"⟩, ⟨.assistant, .parts [.toolUse "a" "read" ""]⟩,
    ⟨.tool, .parts [.toolResult "a" "text" false]⟩, ⟨.assistant, .text "found"⟩,
    ⟨.user, .text "thanks"⟩]

/-- A window that starts with its round. -/
theorem oneCall_keepsPairing :
    KeepsPairing id ⟨id, .refl⟩ ⟨true, true, true⟩ 1 1 MICROCOMPACT_KEEP_RECENT oneCall :=
  (keepsPairing_iff id _ _ 1 1 _ (by decide)).mpr (by decide)

/-- A window that starts with the result of the call: the result is drained in place of the
assistant message behind it, and the synthetic result comes behind that message. -/
theorem not_keepsPairing_oneCall : ¬ ∀ (lower : String → String) (order : HashOrder)
    (stages : Stages) (preserveHead preserveTail keepRecent : Nat) (messages : List Message),
      Paired messages →
        KeepsPairing lower order stages preserveHead preserveTail keepRecent messages := by
  intro h
  have hpaired := (h id ⟨id, .refl⟩ ⟨true, false, false⟩ 2 1 0 oneCall (by decide)).paired
  exact nomatch hpaired

end Aeqi.Agent
