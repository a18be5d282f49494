import Mathlib.Data.List.Sort
import Mathlib.Data.List.TakeWhile
import Mathlib.Logic.Relation

/-!
# The quest table

The rows of `quests` and the writes of the registry to them. No write looks at the status that it
replaces: what a caller has read of the row may be out of date by then.
-/

namespace Aeqi.Quests

inductive QuestStatus
  | backlog
  | todo
  | inProgress
  | inReview
  | done
  | cancelled
  deriving DecidableEq

inductive Priority
  | low
  | normal
  | high
  | critical
  deriving DecidableEq

/-- The `CASE` of `ready_tasks`. -/
def Priority.rank : Priority → Nat
  | .critical => 0
  | .high => 1
  | .normal => 2
  | .low => 3

structure Quest where
  id : String
  status : QuestStatus := .todo
  priority : Priority := .normal
  agentId : Option String := none
  dependsOn : List String := []
  retryCount : Nat := 0
  createdAt : Nat := 0
  closedAt : Option Nat := none
  deriving DecidableEq

namespace Quest

def isClosed (q : Quest) : Bool := q.status = .done ∨ q.status = .cancelled

/-- The text of the linked idea, which `row_to_task` does not read. -/
def body (_ : Quest) : String := ""

/-- The statuses are parsed without `in_review`, which is taken for `todo`. -/
def rowToTask (q : Quest) : Quest :=
  match q.status with
  | .inReview => { q with status := .todo }
  | _ => q

end Quest

/-- The rows in the order of their insertion. -/
abbrev Board := List Quest

namespace Board

variable (b : Board)

def getTask (id : String) : Option Quest := (b.find? (·.id = id)).map (·.rowToTask)

/-- All dependencies are done; one that does not exist is not. -/
def unblocked (q : Quest) : Bool :=
  q.dependsOn.all fun dep => (b.find? (·.id = dep)).any (·.status = .done)

def readyTasks : List Quest :=
  (((b.filter (·.status = .todo)).insertionSort fun p q =>
    p.priority.rank < q.priority.rank ∨
      p.priority.rank = q.priority.rank ∧ p.createdAt ≤ q.createdAt).map
        (·.rowToTask)).filter b.unblocked

def inProgressCount (agentId : String) : Nat :=
  (b.filter fun q => q.status = .inProgress ∧ q.agentId = some agentId).length

/-- The sum of the counts of all agents. -/
def totalInProgress : Nat :=
  (b.filter fun q => q.status = .inProgress ∧ q.agentId.isSome).length

def update (id : String) (f : Quest → Quest) : Board := b.map fun q => if q.id = id then f q else q

end Board

/-- `COALESCE(?3, closed_at)`, where a status that closes gives the time. -/
def Quest.setStatus (status : QuestStatus) (now : Nat) (q : Quest) : Quest :=
  { q with
    status
    closedAt := if status = .done ∨ status = .cancelled then some now else q.closedAt }

namespace Board

variable (b : Board)

def updateTaskStatus (id : String) (status : QuestStatus) (now : Nat) : Board :=
  b.update id (·.setStatus status now)

def finalizeQuest (id : String) (status : QuestStatus) (bumpRetry : Bool) (now : Nat) : Board :=
  b.update id fun q =>
    { q.setStatus status now with retryCount := q.retryCount + if bumpRetry then 1 else 0 }

def resetStaleInProgress : Board :=
  b.map fun q =>
    if q.status = .inProgress then { q with status := .todo, retryCount := q.retryCount + 1 } else q

/-- The whole row is written back, its id and the time of its creation apart. -/
def updateTask (id : String) (f : Quest → Quest) : Board :=
  b.update id fun q => { f q.rowToTask with id := q.id, createdAt := q.createdAt }

/-! ## What the writes leave -/

variable {b} {id : String}

theorem mem_update {f : Quest → Quest} {q : Quest} :
    q ∈ b.update id f ↔ (∃ p ∈ b, p.id = id ∧ f p = q) ∨ (q ∈ b ∧ q.id ≠ id) := by
  constructor
  · intro hq
    obtain ⟨p, hp, heq⟩ := List.mem_map.1 hq
    split at heq
    · next hid => exact .inl ⟨p, hp, hid, heq⟩
    · next hid => exact .inr ⟨heq ▸ hp, heq ▸ hid⟩
  · rintro (⟨p, hp, hid, rfl⟩ | ⟨hq, hid⟩)
    · exact List.mem_map.2 ⟨p, hp, if_pos hid⟩
    · exact List.mem_map.2 ⟨q, hq, if_neg hid⟩

def Has (b : Board) (id : String) (status : QuestStatus) : Prop :=
  ∃ q ∈ b, q.id = id ∧ q.status = status

instance (b : Board) (id : String) (status : QuestStatus) : Decidable (b.Has id status) :=
  inferInstanceAs (Decidable (∃ q ∈ b, q.id = id ∧ q.status = status))

theorem not_has_update {f : Quest → Quest} {status status' : QuestStatus}
    (hf : ∀ q, (f q).status = status) (hne : status' ≠ status) :
    ¬(b.update id f).Has id status' := by
  rintro ⟨q, hq, hqid, hstatus⟩
  rcases mem_update.1 hq with ⟨p, -, -, rfl⟩ | ⟨-, hq⟩
  · exact hne (hstatus.symm.trans (hf p))
  · exact hq hqid

end Board

end Aeqi.Quests

/-!
## Quest ids

`QuestId` of `aeqi-quests`: `as-001` is the first quest with prefix `as`, `as-001.2` the second
one below it. An id says whether it is that of a root or of a child, and gives its parts back.
-/

namespace Aeqi.Quests.QuestId

open List Option
open String (ofList_injective toList_inj toList_ofList)

/-- `{seq:03}`. -/
def zeroPadded (seq : Nat) : List Char :=
  List.replicate (3 - (Nat.toDigits 10 seq).length) '0' ++ Nat.toDigits 10 seq

def root (questPrefix : String) (seq : Nat) : String :=
  String.ofList (questPrefix.toList ++ '-' :: zeroPadded seq)

def child (id : String) (childSeq : Nat) : String :=
  String.ofList (id.toList ++ '.' :: Nat.toDigits 10 childSeq)

def parent (id : String) : Option String :=
  match id.toList.reverse.dropWhile (· ≠ '.') with
  | [] => none
  | _ :: rest => some (String.ofList rest.reverse)

example : root "as" 1 = "as-001" ∧ child "as-001" 12 = "as-001.12" ∧
    parent "as-001.12" = some "as-001" := by
  decide +kernel

/-- The number of a child of `pid`. -/
def childNumber (pid id : String) : Option Nat :=
  let seq := Nat.ofDigitChars 10 (id.toList.drop (pid.length + 1)) 0
  if id = child pid seq then some seq else none

section Parts

variable {p p' pid pid' : String} {m n : Nat}

theorem digits_inj (h : Nat.toDigits 10 m = Nat.toDigits 10 n) : m = n := by
  have hvalue := congrArg (fun digits => Nat.ofDigitChars 10 digits 0) h
  simpa using hvalue

theorem zeroPadded_inj (h : zeroPadded m = zeroPadded n) : m = n := by
  have hvalue := congrArg (fun digits => Nat.ofDigitChars 10 digits 0) h
  simpa [zeroPadded, Nat.ofDigitChars_append, Nat.ofDigitChars_replicate_zero] using hvalue

theorem not_mem_digits {c : Char} (hc : c.isDigit = false) : c ∉ Nat.toDigits 10 n := by
  intro hmem
  rw [Nat.isDigit_of_mem_toDigits (by decide) (by decide) hmem] at hc
  cases hc

theorem not_mem_zeroPadded {c : Char} (hc : c.isDigit = false) : c ∉ zeroPadded n := by
  intro hmem
  rcases mem_append.1 hmem with hzero | hdigit
  · rw [(mem_replicate.1 hzero).2] at hc
    exact nomatch hc
  · exact not_mem_digits hc hdigit

theorem lastCut_inj {sep : Char} {l l' d d' : List Char} (h : l ++ sep :: d = l' ++ sep :: d')
    (hd : sep ∉ d) (hd' : sep ∉ d') : l = l' ∧ d = d' := by
  rcases append_eq_append_iff.1 h with ⟨mid, hl, hrest⟩ | ⟨mid, hl, hrest⟩
  · cases mid with
    | nil => exact ⟨by simpa using hl.symm, by simpa using hrest⟩
    | cons c mid =>
      obtain ⟨-, rfl⟩ := List.cons.inj hrest
      exact absurd (mem_append_right _ mem_cons_self) hd
  · cases mid with
    | nil => exact ⟨by simpa using hl, by simpa using hrest.symm⟩
    | cons c mid =>
      obtain ⟨-, rfl⟩ := List.cons.inj hrest
      exact absurd (mem_append_right _ mem_cons_self) hd'

theorem root_inj (h : root p m = root p' n) : p = p' ∧ m = n := by
  have hcut := lastCut_inj (ofList_injective h) (not_mem_zeroPadded (by decide))
    (not_mem_zeroPadded (by decide))
  exact ⟨toList_inj.1 hcut.1, zeroPadded_inj hcut.2⟩

theorem child_inj (h : child pid m = child pid' n) : pid = pid' ∧ m = n := by
  have hcut := lastCut_inj (ofList_injective h) (not_mem_digits (by decide))
    (not_mem_digits (by decide))
  exact ⟨toList_inj.1 hcut.1, digits_inj hcut.2⟩

theorem root_ne_child : root p m ≠ child pid n := by
  intro h
  rcases append_eq_append_iff.1 (ofList_injective h) with
    ⟨mid, -, hrest⟩ | ⟨mid, -, hrest⟩
  · cases mid with
    | nil => cases (List.cons.inj hrest).1
    | cons c mid =>
      have hdot : '.' ∈ zeroPadded m := by
        rw [(List.cons.inj hrest).2]
        exact mem_append_right _ mem_cons_self
      exact not_mem_zeroPadded (by decide) hdot
  · cases mid with
    | nil => cases (List.cons.inj hrest).1
    | cons c mid =>
      have hdash : '-' ∈ Nat.toDigits 10 n := by
        rw [(List.cons.inj hrest).2]
        exact mem_append_right _ mem_cons_self
      exact not_mem_digits (by decide) hdash

theorem parent_of_lastDot {a b : String} {last : List Char} (h : b.toList = a.toList ++ '.' :: last)
    (hlast : '.' ∉ last) : parent b = some a := by
  have hkept : ∀ c ∈ last.reverse, decide (c ≠ '.') = true := by
    intro c hc
    rw [decide_eq_true_eq]
    rintro rfl
    exact hlast (mem_reverse.1 hc)
  unfold parent
  rw [h, reverse_append, reverse_cons, List.append_assoc, dropWhile_append_of_pos hkept]
  simp

theorem parent_child : parent (child pid n) = some pid :=
  parent_of_lastDot (toList_ofList ..) (not_mem_digits (by decide))

theorem childNumber_eq_some {id : String} {k : Nat} :
    childNumber pid id = some k ↔ id = child pid k := by
  unfold childNumber
  dsimp only
  constructor
  · intro h
    split at h
    next hid => rwa [← some.inj h]
    next => cases h
  · rintro rfl
    have hdrop : (child pid k).toList.drop (pid.length + 1) = Nat.toDigits 10 k := by
      unfold child
      rw [← String.length_toList]
      simp
    simp [hdrop]

end Parts

/-! ## Ancestors -/

/-- `starts_with` and a greater length. -/
def isAncestorOf (id other : String) : Bool :=
  id.toList.isPrefixOf other.toList && decide (id.utf8ByteSize < other.utf8ByteSize)

/-- One or more `parent` steps lead from `other` to `id`. -/
def Above (id other : String) : Prop := Relation.TransGen (fun p c => parent c = some p) id other

/-- The test by prefixes tells who is above whom, and a child's parent is where it came from. -/
def AncestryAgrees (a b : String) : Prop :=
  (isAncestorOf a b = true ↔ Above a b) ∧ ∀ seq, parent (child a seq) = some a

section Ancestry

variable {a b : String}

theorem exists_lastDot (h : parent b = some a) :
    ∃ last, b.toList = a.toList ++ '.' :: last ∧ '.' ∉ last := by
  have hall := List.takeWhile_append_dropWhile (p := fun c => decide (c ≠ '.'))
    (l := b.toList.reverse)
  unfold parent at h
  split at h
  · cases h
  next c rest hrest =>
    have hdot : c = '.' := by
      have hhead := head_dropWhile_not (fun c => decide (c ≠ '.')) (l := b.toList.reverse)
        (by rw [hrest]; exact cons_ne_nil _ _)
      simp only [hrest, head_cons] at hhead
      simpa using hhead
    rw [hrest, hdot] at hall
    refine ⟨(b.toList.reverse.takeWhile fun c => decide (c ≠ '.')).reverse, ?_, fun hmem => ?_⟩
    · rw [← some.inj h, toList_ofList, ← reverse_inj]
      refine hall.symm.trans ?_
      simp
    · exact nomatch (mem_takeWhile_imp (mem_reverse.1 hmem))

theorem above_iff_dot : Above a b ↔ ∃ rest, b.toList = a.toList ++ '.' :: rest := by
  constructor
  · intro h
    induction h with
    | single hp => exact (exists_lastDot hp).imp fun _ hlast => hlast.1
    | tail _ hp ih =>
      obtain ⟨rest, hrest⟩ := ih
      obtain ⟨last, hlast, -⟩ := exists_lastDot hp
      exact ⟨rest ++ '.' :: last, by rw [hlast, hrest, List.append_assoc, cons_append]⟩
  · rintro ⟨rest, h⟩
    induction hlength : rest.length using Nat.strong_induction_on generalizing rest b with
    | _ n ih =>
      by_cases hdot : '.' ∈ rest
      · -- the last dot of `rest` makes a parent that is still below `a`
        obtain ⟨last, front, hsplit, hlast⟩ := eq_append_cons_of_mem (mem_reverse.2 hdot)
        have hrest : rest = front.reverse ++ '.' :: last.reverse := by
          rw [← reverse_reverse rest, hsplit]
          simp
        have hmid : Above a (String.ofList (a.toList ++ '.' :: front.reverse)) :=
          ih front.reverse.length (by rw [← hlength, hrest]; simp) _
            (toList_ofList ..) rfl
        have hsub : '.' ∉ last.reverse := by simpa using hlast
        refine .tail hmid (parent_of_lastDot ?_ hsub)
        rw [h, hrest, toList_ofList, List.append_assoc, cons_append]
      · exact .single (parent_of_lastDot h hdot)

theorem isAncestorOf_iff : isAncestorOf a b = true ↔ a.toList <+: b.toList ∧ a ≠ b := by
  unfold isAncestorOf
  rw [Bool.and_eq_true, isPrefixOf_iff_prefix, decide_eq_true_eq]
  refine and_congr_right fun ⟨rest, h⟩ => ?_
  have hb : b = a ++ String.ofList rest := toList_inj.1 (by simp [h])
  rw [hb, String.utf8ByteSize_append]
  constructor
  · intro hlt heq
    have hsize := congrArg String.utf8ByteSize heq
    rw [String.utf8ByteSize_append] at hsize
    omega
  · intro hne
    have hrest : String.ofList rest ≠ "" := fun hnil => hne (by rw [hnil, String.append_empty])
    rw [Ne, ← String.utf8ByteSize_eq_zero_iff] at hrest
    omega

/-- The test agrees with the parents unless the longer id goes on behind the shorter one with
something else than a dot. -/
theorem ancestryAgrees_iff :
    AncestryAgrees a b ↔ (a.toList <+: b.toList → a = b ∨ a.toList ++ ['.'] <+: b.toList) := by
  unfold AncestryAgrees
  rw [and_iff_left fun _ => parent_child, isAncestorOf_iff, above_iff_dot]
  have hdot : a.toList ++ ['.'] <+: b.toList ↔ ∃ rest, b.toList = a.toList ++ '.' :: rest := by
    simp [List.IsPrefix, eq_comm]
  rw [hdot]
  constructor
  · intro h hstarts
    exact or_iff_not_imp_left.2 fun hne => h.1 ⟨hstarts, hne⟩
  · refine fun h => ⟨fun ⟨hstarts, hne⟩ => (h hstarts).resolve_left hne, ?_⟩
    rintro ⟨rest, hrest⟩
    refine ⟨⟨_, hrest.symm⟩, ?_⟩
    rintro rfl
    simp at hrest

/-- Numbers of different lengths. -/
theorem not_ancestryAgrees_hundred : ¬ AncestryAgrees (root "as" 100) (root "as" 1000) := by
  intro h
  obtain ⟨rest, hrest⟩ := above_iff_dot.1 (h.1.1 (by decide +kernel))
  have hsixth : (root "as" 1000).toList[6]? = some '.' := by
    rw [hrest]
    rfl
  exact absurd hsixth (by decide +kernel)

end Ancestry
end Aeqi.Quests.QuestId
