import Aeqi.Lib.Log
import Aeqi.Quests.QuestLog

/-!
# When a quest board and its log agree

A file of the directory is a log in which the last line of a quest counts. As long as every quest
lies in the file of its prefix, every line is complete and reads back as the quest that was
written, the files read back are the map in memory, in whatever order they are read, and
compaction changes nothing of that. New ids are new as long as the counter of a prefix and the
number of children stay ahead of the ids in use, which needs ids that give their prefix back.
-/

namespace Aeqi.Quests

open Aeqi.Lib List Option

/-! ## Ids that give their parts back -/

namespace QuestId

variable {p : String} {n : Nat}

/-- A prefix that the ids made from it give back, and that names a file of the directory. -/
def Plain (p : String) : Prop := p ≠ "" ∧ '-' ∉ p.toList ∧ '.' ∉ p.toList ∧ '/' ∉ p.toList

instance (p : String) : Decidable (Plain p) := inferInstanceAs (Decidable (_ ∧ _))

theorem head_root (h : '-' ∉ p.toList) : head (root p n) = p := by
  unfold head root
  rw [String.toList_ofList, takeWhile_append_of_pos]
  · simp
  · intro c hc
    rw [decide_eq_true_eq]
    rintro rfl
    exact h hc

theorem second_root (h : '-' ∉ p.toList) : second (root p n) = some (zeroPadded n) := by
  have hdash : ∀ c ∈ p.toList, decide (c ≠ '-') = true := by
    intro c hc
    rw [decide_eq_true_eq]
    rintro rfl
    exact h hc
  have hdigits : (zeroPadded n).takeWhile (fun c => decide (c ≠ '-')) = zeroPadded n := by
    rw [takeWhile_eq_self_iff]
    intro c hc
    rw [decide_eq_true_eq]
    rintro rfl
    exact not_mem_zeroPadded (by decide) hc
  unfold second root
  rw [String.toList_ofList, dropWhile_append_of_pos hdash]
  exact congrArg some hdigits

theorem depth_root (h : '.' ∉ p.toList) : depth (root p n) = 0 := by
  unfold depth root
  rw [String.toList_ofList, count_eq_zero]
  intro hmem
  rcases mem_append.1 hmem with hmem | hmem
  · exact h hmem
  · rcases mem_cons.1 hmem with hmem | hmem
    · exact nomatch hmem
    · exact not_mem_zeroPadded (by decide) hmem

theorem isDigit_zeroPadded {c : Char} (h : c ∈ zeroPadded n) : c.isDigit = true := by
  by_contra hc
  exact not_mem_zeroPadded (by simpa using hc) h

theorem zeroPadded_ne_nil : zeroPadded n ≠ [] :=
  append_ne_nil_of_right_ne_nil _ (by simp)

theorem parseU32_zeroPadded (h : n < 2 ^ 32) : parseU32 (zeroPadded n) = some n := by
  have hvalue : Nat.ofDigitChars 10 (zeroPadded n) 0 = n := by
    simp [zeroPadded, Nat.ofDigitChars_append]
  have hdigits : unsigned (zeroPadded n) = zeroPadded n := by
    unfold unsigned
    split
    next rest hplus =>
      have hmem : '+' ∈ zeroPadded n := by rw [hplus]; exact mem_cons_self
      exact absurd (isDigit_zeroPadded hmem) (by decide)
    next => rfl
  unfold parseU32
  rw [hdigits, if_pos ⟨zeroPadded_ne_nil, List.all_eq_true.2 fun c hc => isDigit_zeroPadded hc,
    by rw [hvalue]; exact h⟩, hvalue]

theorem trackedSeq_root (hdash : '-' ∉ p.toList) (hdot : '.' ∉ p.toList) (h : n < 2 ^ 32) :
    trackedSeq (root p n) = some n := by
  have hdigits : (zeroPadded n).takeWhile (fun c => decide (c ≠ '.')) = zeroPadded n := by
    rw [takeWhile_eq_self_iff]
    intro c hc
    rw [decide_eq_true_eq]
    rintro rfl
    exact not_mem_zeroPadded (by decide) hc
  rw [trackedSeq, if_pos (depth_root hdot), second_root hdash, bind_some, hdigits,
    parseU32_zeroPadded h]

theorem isLog_fileName {id : String} (hne : head id ≠ "") (hslash : '/' ∉ (head id).toList) :
    isLog (fileName id) = true := by
  have hlist : (fileName id).toList = (head id).toList ++ ['.', 'j', 's', 'o', 'n', 'l'] := by
    rw [fileName, String.toList_append]
    rfl
  have hrev : (head id).toList.reverse ≠ [] := by
    simpa using hne
  obtain ⟨c, rest, hrest⟩ := exists_cons_of_ne_nil hrev
  have hextension : extension (fileName id).toList = some "jsonl".toList := by
    unfold extension
    rw [hlist, reverse_append, hrest]
    rfl
  have hname : '/' ∉ (fileName id).toList := by
    rw [hlist]
    simpa using hslash
  unfold isLog
  simp [hname, hextension]

end QuestId

open QuestId (child fileName head head_root parent root root_ne_child trackedSeq)

/-! ## Reading the directory -/

namespace QuestBoard

variable {C : Type} {reread : C → Option C} {b b' : QuestBoard C} {l : Listing C}
  {q : StoredQuest C} {id name : String} {now : Nat}

/-- The quest comes back as it is: it carries no snapshot, and its checkpoints are read as they
were written. -/
def Durable (reread : C → Option C) (q : StoredQuest C) : Prop :=
  q.idea = none ∧ q.checkpoints.mapM reread = some q.checkpoints

theorem Durable.comesBack (h : Durable reread q) : q.reread reread = some q := by
  obtain ⟨hidea, hcheckpoints⟩ := h
  rw [StoredQuest.reread, hcheckpoints, map_some, ← hidea]

variable {qs : List (StoredQuest C)}

theorem foldl_loadQuest :
    (qs.foldl loadQuest b).dir = b.dir ∧ (qs.foldl loadQuest b).quests =
      qs.foldl (fun m q => m.insert q.id q) b.quests := by
  induction qs generalizing b with
  | nil => exact ⟨rfl, rfl⟩
  | cons q qs ih => exact ih

/-- All that is read from files, in order. -/
def entries (b : QuestBoard C) (names : List String) : List (StoredQuest C) :=
  names.flatMap fun name => (b.file name).quests

theorem foldl_loadFile {names : List String} :
    names.foldl loadFile b = (b.entries names).foldl loadQuest b := by
  induction names generalizing b with
  | nil => rfl
  | cons name names ih =>
    have hentries : (loadFile b name).entries names = b.entries names := by
      unfold entries file loadFile
      rw [foldl_loadQuest.1]
    rw [foldl_cons, ih, hentries]
    exact (foldl_append).symm

theorem opened_eq (h : l.names.length ≤ l.readable) :
    b.opened l = (b.entries (l.names.filter (isLog ·))).foldl loadQuest
      { b with quests := ∅, sequences := ∅ } := by
  unfold opened loadAll
  rw [take_of_length_le h]
  exact foldl_loadFile

variable {p : String}

theorem loadQuest_le : (b.sequences.lookup p).getD 0 ≤ ((loadQuest b q).sequences.lookup p).getD 0 := by
  unfold loadQuest
  split
  next seq _ =>
    by_cases hp : p = head q.id
    · rw [hp, AList.lookup_insert]
      exact Nat.le_max_left _ _
    · rw [AList.lookup_insert_ne hp]
  next => exact le_rfl

theorem foldl_loadQuest_le :
    (b.sequences.lookup p).getD 0 ≤ ((qs.foldl loadQuest b).sequences.lookup p).getD 0 := by
  induction qs generalizing b with
  | nil => exact le_rfl
  | cons q qs ih => exact loadQuest_le.trans ih

theorem foldl_loadQuest_tracked (hq : q ∈ qs) {seq : Nat} (h : trackedSeq q.id = some seq) :
    seq ≤ ((qs.foldl loadQuest b).sequences.lookup (head q.id)).getD 0 := by
  induction qs generalizing b with
  | nil => cases hq
  | cons q' qs ih =>
    rcases mem_cons.1 hq with rfl | hq
    · have hnoted : seq ≤ ((loadQuest b q).sequences.lookup (head q.id)).getD 0 := by
        unfold loadQuest
        rw [h]
        rw [AList.lookup_insert]
        exact Nat.le_max_right _ _
      exact hnoted.trans foldl_loadQuest_le
    · exact ih hq

/-! ## The invariant -/

structure Lists (b : QuestBoard C) (l : Listing C) : Prop where
  names : l.names.Perm b.dir.keys
  prefixes : ∀ ps, (l.prefixOrder ps).Perm ps
  quests : ∀ qs, (l.questOrder qs).Perm qs

/-- All of it can be read. -/
structure Listed (b : QuestBoard C) (l : Listing C) : Prop extends Lists b l where
  readable : l.names.length ≤ l.readable

/-- Every quest lies in the file of its prefix, and every line there is complete. -/
structure Placed (b : QuestBoard C) : Prop where
  placed : ∀ name, isLog name → ∀ q ∈ (b.file name).quests, fileName q.id = name
  ended : ∀ name, isLog name → (b.file name).torn = none

def onDisk (b : QuestBoard C) (id : String) : Option (StoredQuest C) :=
  if isLog (fileName id) then
    latest (·.id) id (b.file (fileName id)).quests
  else none

/-- The number of children is ahead of the children's numbers. -/
def Dense (b : QuestBoard C) : Prop :=
  ∀ pid k, (b.quests.lookup (child pid k)).isSome → k ≤ b.childCount pid

def Numbered (b : QuestBoard C) : Prop :=
  ∀ p n, QuestId.Plain p → n < 2 ^ 32 → (b.quests.lookup (root p n)).isSome →
    n ≤ (b.sequences.lookup p).getD 0

structure Inv (reread : C → Option C) (b : QuestBoard C) : Prop extends Placed b where
  keyed : ∀ id q, b.quests.lookup id = some q → q.id = id
  durable : ∀ id q, b.quests.lookup id = some q → Durable reread q
  mirrored : ∀ id, b.quests.lookup id = b.onDisk id
  dense : b.Dense
  numbered : b.Numbered

theorem file_of_notMem (h : name ∉ b.dir.keys) : b.file name = ⟨[], none⟩ := by
  unfold file
  rw [AList.lookup_eq_none.2 h]
  rfl

theorem latest_entries (h : b.Placed) (hl : Listed b l) :
    latest (·.id) id (b.entries (l.names.filter (isLog ·))) = b.onDisk id := by
  have hother : ∀ name ∈ l.names.filter (isLog ·), name ≠ fileName id →
      latest (·.id) id (b.file name).quests = none := by
    intro name hname hne
    refine latest_eq_none.2 fun q hq hid => hne ?_
    rw [← hid]
    exact (h.placed name (mem_filter.1 hname).2 q hq).symm
  unfold onDisk entries
  split_ifs with hlog
  · by_cases hmem : fileName id ∈ l.names.filter (isLog ·)
    · exact latest_flatMap hother hmem
    · have hkeys : fileName id ∉ b.dir.keys := by
        intro hkey
        exact hmem (mem_filter.2 ⟨hl.names.mem_iff.2 hkey, hlog⟩)
      rw [file_of_notMem hkeys]
      refine latest_flatMap_none fun name hname => hother name hname ?_
      rintro rfl
      exact hmem hname
  · refine latest_flatMap_none fun name hname => hother name hname ?_
    rintro rfl
    exact hlog (mem_filter.1 hname).2

theorem lookup_opened (h : b.Placed) (hl : Listed b l) :
    (b.opened l).quests.lookup id = b.onDisk id := by
  rw [opened_eq hl.readable, foldl_loadQuest.2, lookup_foldl_insert, latest_entries h hl]
  exact or_none

theorem opened_dir (h : l.names.length ≤ l.readable) : (b.opened l).dir = b.dir := by
  rw [opened_eq h, foldl_loadQuest.1]

theorem onDisk_congr (h : b'.dir = b.dir) : b'.onDisk id = b.onDisk id := by
  unfold onDisk file
  rw [h]

variable {pid : String}

theorem childCount_congr (h : ∀ id, b'.quests.lookup id = b.quests.lookup id) :
    b'.childCount pid = b.childCount pid :=
  Accounts.total_congr fun id => by rw [Accounts.wt, Accounts.wt, h id]

theorem onDisk_some (h : b.onDisk id = some q) :
    isLog (fileName id) ∧ q ∈ (b.file (fileName id)).quests ∧ q.id = id := by
  unfold onDisk at h
  split_ifs at h with hlog
  exact ⟨hlog, latest_some h⟩

theorem numbered_opened (h : b.Placed) (hl : Listed b l) : (b.opened l).Numbered := by
  intro p n hp hn hroot
  obtain ⟨q, hq⟩ := isSome_iff_exists.1 hroot
  rw [lookup_opened h hl, ← latest_entries h hl] at hq
  obtain ⟨hmem, hid⟩ := latest_some hq
  have htracked : trackedSeq q.id = some n := by
    rw [hid]
    exact QuestId.trackedSeq_root hp.2.1 hp.2.2.1 hn
  have hle := foldl_loadQuest_tracked (b := { b with quests := ∅, sequences := ∅ }) hmem htracked
  rw [hid, head_root hp.2.1] at hle
  rw [opened_eq hl.readable]
  exact hle

theorem Placed.opened (h : b.Placed) (hl : Listed b l) : (b.opened l).Placed := by
  have hdir := opened_dir (b := b) hl.readable
  constructor
  · intro name hlog q hq
    unfold file at hq
    rw [hdir] at hq
    exact h.placed name hlog q hq
  · intro name hlog
    unfold file
    rw [hdir]
    exact h.ended name hlog

theorem inv_opened (h : b.Placed) (hl : Listed b l)
    (hdurable : ∀ name, isLog name → ∀ q ∈ (b.file name).quests, Durable reread q)
    (hdense : (b.opened l).Dense) : Inv reread (b.opened l) := by
  refine ⟨h.opened hl, ?_, ?_, ?_, hdense, numbered_opened h hl⟩
  · intro id q hq
    rw [lookup_opened h hl] at hq
    exact (onDisk_some hq).2.2
  · intro id q hq
    rw [lookup_opened h hl] at hq
    obtain ⟨hlog, hmem, -⟩ := onDisk_some hq
    exact hdurable _ hlog q hmem
  · intro id
    rw [lookup_opened h hl, onDisk_congr (opened_dir hl.readable)]

theorem Inv.lookup_opened (h : Inv reread b) (hl : Listed b l) :
    (b.opened l).quests.lookup id = b.quests.lookup id :=
  (QuestBoard.lookup_opened h.toPlaced hl).trans (h.mirrored id).symm

theorem Inv.opened (h : Inv reread b) (hl : Listed b l) : Inv reread (b.opened l) := by
  refine ⟨h.toPlaced.opened hl, ?_, ?_, ?_, ?_, numbered_opened h.toPlaced hl⟩
  · intro id q hq
    rw [h.lookup_opened hl] at hq
    exact h.keyed id q hq
  · intro id q hq
    rw [h.lookup_opened hl] at hq
    exact h.durable id q hq
  · intro id
    rw [h.lookup_opened hl, onDisk_congr (opened_dir hl.readable)]
    exact h.mirrored id
  · intro pid k hk
    rw [h.lookup_opened hl] at hk
    rw [childCount_congr fun id => h.lookup_opened hl]
    exact h.dense pid k hk

/-! ## Writing a quest -/

theorem file_insert {name' : String} {f : LogFile (StoredQuest C)} :
    ({ b with dir := b.dir.insert name f } : QuestBoard C).file name' =
      if name' = name then f else b.file name' := by
  unfold file
  split_ifs with h
  · rw [h, AList.lookup_insert]
    rfl
  · rw [AList.lookup_insert_ne h]

theorem quests_append {f : LogFile (StoredQuest C)} (h : f.torn = none) :
    (f.append (some q)).quests = f.quests ++ [q] ∧ (f.append (some q)).torn = none := by
  unfold LogFile.append LogFile.quests
  rw [h]
  simp

def written (b : QuestBoard C) (q : StoredQuest C) : QuestBoard C where
  dir := b.dir.insert (fileName q.id) ((b.file (fileName q.id)).append (some q))
  quests := b.quests.insert q.id q
  sequences := b.sequences

theorem written_file {name' : String} : (b.written q).file name' =
    if name' = fileName q.id then (b.file (fileName q.id)).append (some q)
    else b.file name' :=
  file_insert

theorem lookup_written {id' : String} :
    (b.written q).quests.lookup id' = if id' = q.id then some q else b.quests.lookup id' := by
  unfold written
  split_ifs with h
  · rw [h, AList.lookup_insert]
  · rw [AList.lookup_insert_ne h]

theorem Placed.written (h : b.Placed) : (b.written q).Placed where
  placed := by
    intro name hlog q' hq'
    rw [written_file] at hq'
    split_ifs at hq' with hname
    · rw [(quests_append (h.ended _ (hname ▸ hlog))).1] at hq'
      rcases mem_append.1 hq' with hq' | hq'
      · rw [hname]
        exact h.placed _ (hname ▸ hlog) q' hq'
      · rw [mem_singleton.1 hq', hname]
    · exact h.placed name hlog q' hq'
  ended := by
    intro name hlog
    rw [written_file]
    split_ifs with hname
    · exact (quests_append (h.ended _ (hname ▸ hlog))).2
    · exact h.ended name hlog

theorem onDisk_written (h : b.Placed) (hlog : isLog (fileName q.id)) {id' : String} :
    (b.written q).onDisk id' = if id' = q.id then some q else b.onDisk id' := by
  unfold onDisk
  rw [written_file]
  by_cases hname : fileName id' = fileName q.id
  · have happend := (quests_append (q := q) (h.ended _ hlog)).1
    rw [if_pos (hname ▸ hlog), if_pos hname, happend, latest_append, latest_singleton]
    by_cases hid : id' = q.id
    · rw [if_pos hid, if_pos hid.symm, some_or]
    · rw [if_neg hid, if_neg (Ne.symm hid), none_or, if_pos (hname ▸ hlog), hname]
  · have hid : id' ≠ q.id := fun hid => hname (hid ▸ rfl)
    rw [if_neg hname, if_neg hid]

theorem Inv.written (h : Inv reread b) (hdurable : Durable reread q)
    (hlog : isLog (fileName q.id)) (hdense : (b.written q).Dense)
    (hnumbered : (b.written q).Numbered) : Inv reread (b.written q) where
  toPlaced := h.toPlaced.written
  keyed := by
    intro id' q' hq'
    rw [lookup_written] at hq'
    split_ifs at hq' with hid
    · rw [← some.inj hq', hid]
    · exact h.keyed id' q' hq'
  durable := by
    intro id' q' hq'
    rw [lookup_written] at hq'
    split_ifs at hq' with hid
    · rwa [← some.inj hq']
    · exact h.durable id' q' hq'
  mirrored := by
    intro id'
    rw [lookup_written, onDisk_written h.toPlaced hlog]
    split_ifs
    · rfl
    · exact h.mirrored id'
  dense := hdense
  numbered := hnumbered

theorem isSome_lookup_written {id' : String} : ((b.written q).quests.lookup id').isSome ↔
    id' = q.id ∨ (b.quests.lookup id').isSome := by
  rw [lookup_written]
  split_ifs with h <;> simp [h]

theorem childCount_written_new (h : b.quests.lookup q.id = none) :
    (b.written q).childCount pid = b.childCount pid + if parent q.id = some pid then 1 else 0 :=
  Accounts.count_insert_none h

theorem childCount_written_old (hkeyed : ∀ id q, b.quests.lookup id = some q → q.id = id)
    (h : (b.quests.lookup q.id).isSome) : (b.written q).childCount pid = b.childCount pid := by
  obtain ⟨q', hq'⟩ := isSome_iff_exists.1 h
  exact Accounts.count_insert_congr hq' (by rw [hkeyed _ _ hq'])

theorem Inv.rewritten (h : Inv reread b) (hold : (b.quests.lookup q.id).isSome)
    (hdurable : Durable reread q) : Inv reread (b.written q) := by
  obtain ⟨q', hq'⟩ := isSome_iff_exists.1 hold
  have hlog := (onDisk_some ((h.mirrored q.id).symm.trans hq')).1
  refine h.written hdurable hlog ?_ ?_
  · intro pid k hk
    rw [childCount_written_old h.keyed hold]
    refine h.dense pid k ?_
    rcases isSome_lookup_written.1 hk with hid | hk
    · rw [hid]
      exact hold
    · exact hk
  · intro p n hp hn hroot
    refine h.numbered p n hp hn ?_
    rcases isSome_lookup_written.1 hroot with hid | hroot
    · rw [hid]
      exact hold
    · exact hroot

/-! ## Compaction -/

theorem values_mem (hkeyed : ∀ id q, b.quests.lookup id = some q → q.id = id) :
    q ∈ b.values ↔ b.quests.lookup q.id = some q := by
  unfold values
  rw [List.mem_map]
  constructor
  · rintro ⟨⟨k, q'⟩, he, rfl⟩
    have hlookup : b.quests.lookup k = some q' := AList.mem_lookup_iff.2 he
    rw [hkeyed k q' hlookup]
    exact hlookup
  · intro h
    exact ⟨⟨q.id, q⟩, AList.mem_lookup_iff.1 h, rfl⟩

theorem values_nodup (hkeyed : ∀ id q, b.quests.lookup id = some q → q.id = id) :
    (b.values.map (·.id)).Nodup := by
  have hids : b.values.map (·.id) = b.quests.keys := by
    unfold values AList.keys List.keys
    rw [List.map_map]
    refine map_congr_left fun e he => ?_
    exact hkeyed e.1 e.2 (AList.mem_lookup_iff.2 he)
  rw [hids]
  exact b.quests.keys_nodup

theorem withPrefix_perm (hl : ∀ qs, (l.questOrder qs).Perm qs) :
    (b.withPrefix l p).Perm (b.values.filter (head ·.id = p)) :=
  (mergeSort_perm _ _).trans (hl _)

/-- Rewriting files one after the other. -/
def compacted (reread : C → Option C) (l : Listing C) (b : QuestBoard C) (ps : List String) :
    QuestBoard C :=
  { b with dir := ps.foldl (fun dir p => dir.insert (p ++ ".jsonl")
      ⟨(b.withPrefix l p).map (·.reread reread), none⟩) b.dir }

variable {ps : List String}

theorem rewriteFrom_eq (h : ∀ n, l.rewrites n = none) {n : Nat} :
    rewriteFrom reread l n ps b = (true, b.compacted reread l ps) := by
  induction ps generalizing n b with
  | nil => rfl
  | cons p ps ih =>
    unfold rewriteFrom rewritePrefix
    rw [h n]
    exact ih

theorem compacted_file : (b.compacted reread l ps).file name =
    match ps.reverse.find? (fun p => p ++ ".jsonl" = name) with
    | some p => ⟨(b.withPrefix l p).map (·.reread reread), none⟩
    | none => b.file name := by
  induction ps generalizing b with
  | nil => rfl
  | cons p ps ih =>
    have hstep : b.compacted reread l (p :: ps) = ({ b with
        dir := b.dir.insert (p ++ ".jsonl")
          ⟨(b.withPrefix l p).map (·.reread reread), none⟩ } : QuestBoard C).compacted
        reread l ps := rfl
    rw [hstep, ih, reverse_cons, find?_append]
    cases hfind : ps.reverse.find? (fun p => p ++ ".jsonl" = name) with
    | some p' => rfl
    | none =>
      rw [file_insert]
      by_cases hname : p ++ ".jsonl" = name
      · simp [hname]
      · simp [hname, Ne.symm hname]

theorem fileName_inj {p' : String} (h : p ++ ".jsonl" = p' ++ ".jsonl") : p = p' := by
  have hlist := congrArg String.toList h
  rw [String.toList_append, String.toList_append] at hlist
  exact String.toList_inj.1 (append_cancel_right hlist)

theorem quests_compacted (h : ∀ q ∈ b.values, Durable reread q) (hl : Listed b l) :
    (⟨(b.withPrefix l p).map (·.reread reread), none⟩ : LogFile (StoredQuest C)).quests =
      b.withPrefix l p := by
  have hsame : (b.withPrefix l p).map (·.reread reread) = (b.withPrefix l p).map some := by
    refine map_congr_left fun q hq => ?_
    have hmem := (withPrefix_perm hl.quests).mem_iff.1 hq
    exact (h q (mem_filter.1 hmem).1).comesBack
  unfold LogFile.quests
  rw [hsame]
  simp

theorem compacted_cases (name : String) (ps : List String)
    (h : ∀ q ∈ b.values, Durable reread q) (hl : Listed b l) :
    (∃ p ∈ ps, p ++ ".jsonl" = name ∧ ((b.compacted reread l ps).file name).quests =
      b.withPrefix l p ∧ ((b.compacted reread l ps).file name).torn = none) ∨
    (∀ p ∈ ps, p ++ ".jsonl" ≠ name) ∧ (b.compacted reread l ps).file name = b.file name := by
  rw [compacted_file]
  cases hfind : ps.reverse.find? (fun p => p ++ ".jsonl" = name) with
  | some p =>
    have hname : p ++ ".jsonl" = name := by simpa using find?_some hfind
    have hmem : p ∈ ps := mem_reverse.1 (mem_of_find?_eq_some hfind)
    exact .inl ⟨p, hmem, hname, quests_compacted h hl, rfl⟩
  | none =>
    refine .inr ⟨fun p hp hname => ?_, rfl⟩
    have hne := find?_eq_none.1 hfind p (mem_reverse.2 hp)
    exact hne (decide_eq_true hname)

theorem mem_withPrefix (hl : Listed b l) :
    q ∈ b.withPrefix l p ↔ q ∈ b.values ∧ head q.id = p := by
  rw [(withPrefix_perm hl.quests).mem_iff, mem_filter, decide_eq_true_iff]

theorem latest_withPrefix (hkeyed : ∀ id q, b.quests.lookup id = some q → q.id = id)
    (hl : Listed b l) :
    latest (·.id) id (b.withPrefix l (head id)) = b.quests.lookup id := by
  cases hq : b.quests.lookup id with
  | none =>
    refine latest_eq_none.2 fun q hmem hid => ?_
    have hvalues := ((mem_withPrefix hl).1 hmem).1
    rw [values_mem hkeyed, hid, hq] at hvalues
    cases hvalues
  | some q =>
    obtain rfl := hkeyed id q hq
    have hmem := (mem_withPrefix hl).2 ⟨(values_mem hkeyed).2 hq, rfl⟩
    have hperm := (withPrefix_perm (b := b) hl.quests (p := head q.id)).map (·.id)
    have hnodup : ((b.withPrefix l (head q.id)).map (·.id)).Nodup :=
      hperm.nodup_iff.2 ((values_nodup hkeyed).sublist (filter_sublist.map _))
    exact latest_of_nodup hnodup hmem

theorem Inv.compacted (h : Inv reread b) (hl : Listed b l) :
    Inv reread (b.compacted reread l ps) := by
  have hdurable : ∀ q ∈ b.values, Durable reread q :=
    fun q hq => h.durable q.id q ((values_mem h.keyed).1 hq)
  refine ⟨⟨fun name hlog q hq => ?_, fun name hlog => ?_⟩, h.keyed, h.durable, fun id => ?_,
    h.dense, h.numbered⟩
  · rcases compacted_cases name ps hdurable hl with
      ⟨p, -, hname, hquests, -⟩ | ⟨-, hfile⟩
    · rw [hquests] at hq
      rw [fileName, ((mem_withPrefix hl).1 hq).2, hname]
    · rw [hfile] at hq
      exact h.placed name hlog q hq
  · rcases compacted_cases name ps hdurable hl with
      ⟨-, -, -, -, htorn⟩ | ⟨-, hfile⟩
    · exact htorn
    · rw [hfile]
      exact h.ended name hlog
  · change b.quests.lookup id = _
    rcases compacted_cases (fileName id) ps hdurable hl with
      ⟨p, -, hname, hquests, -⟩ | ⟨-, hfile⟩
    · obtain rfl := fileName_inj hname
      unfold onDisk
      rw [hquests, latest_withPrefix h.keyed hl]
      split_ifs with hlog
      · rfl
      · rw [h.mirrored id, onDisk, if_neg hlog]
    · unfold onDisk
      rw [hfile]
      exact h.mirrored id

theorem reload_eq (h : Listed b l) (hrewrites : ∀ n, l.rewrites n = none) :
    b.reload reread l = (.ok (), (b.opened l).compacted reread l
      (l.prefixOrder ((b.opened l).values.map (head ·.id)).dedup)) := by
  have hload : ({ b with quests := ∅, sequences := ∅ } : QuestBoard C).loadAll l =
      (true, b.opened l) := Prod.ext (decide_eq_true h.readable) rfl
  unfold reload compactAll
  rw [hload]
  dsimp only
  rw [rewriteFrom_eq hrewrites]

theorem Inv.reload (h : Inv reread b) (hl : Listed b l) (hrewrites : ∀ n, l.rewrites n = none) :
    Inv reread (b.reload reread l).2 := by
  rw [reload_eq hl hrewrites]
  have hopened := h.opened hl
  have hlisted : Listed (b.opened l) l :=
    ⟨⟨by rw [opened_dir hl.readable]; exact hl.names, hl.prefixes, hl.quests⟩, hl.readable⟩
  exact hopened.compacted hlisted

theorem lookup_reload (h : Inv reread b) (hl : Listed b l)
    (hrewrites : ∀ n, l.rewrites n = none) :
    (b.reload reread l).2.quests.lookup id = b.quests.lookup id := by
  rw [reload_eq hl hrewrites]
  exact h.lookup_opened hl

/-! ## The calls -/

theorem persist_done (h : Durable reread q) : b.persist reread .done q = (true, { b with
      dir := b.dir.insert (fileName q.id)
        ((b.file (fileName q.id)).append (some q)) }) := by
  unfold persist
  rw [h.comesBack]

/-- A call that is not one to create a quest writes to quests that are there, and durably. -/
structure Rewrites (reread : C → Option C) (b b' : QuestBoard C) : Prop where
  inv : Inv reread b → Inv reread b'
  isSome : ∀ id, (b'.quests.lookup id).isSome ↔ (b.quests.lookup id).isSome

theorem Rewrites.refl : Rewrites reread b b := ⟨id, fun _ => Iff.rfl⟩

theorem Rewrites.trans {b'' : QuestBoard C} (h : Rewrites reread b b')
    (h' : Rewrites reread b' b'') : Rewrites reread b b'' :=
  ⟨fun hinv => h'.inv (h.inv hinv), fun id => (h'.isSome id).trans (h.isSome id)⟩

def KeepsQuest (reread : C → Option C) (b : QuestBoard C) (id : String)
    (f : StoredQuest C → StoredQuest C) : Prop :=
  ∀ q, b.quests.lookup id = some q → (f q).id = id ∧ Durable reread (f q)

variable {f : StoredQuest C → StoredQuest C}

theorem update_done (hf : KeepsQuest reread b id f) (hq : b.quests.lookup id = some q) :
    b.update reread id f .done now =
      (.ok { f q with updatedAt := some now }, b.written { f q with updatedAt := some now }) := by
  obtain ⟨hid, hdurable⟩ := hf q hq
  have hdurable' : Durable reread { f q with updatedAt := some now } := hdurable
  unfold update
  rw [hq]
  dsimp only
  rw [persist_done hdurable']
  unfold written
  rw [hid]
  rfl

theorem rewrites_update (hf : KeepsQuest reread b id f) :
    Rewrites reread b (b.update reread id f .done now).2 := by
  cases hq : b.quests.lookup id with
  | none =>
    unfold update
    rw [hq]
    exact .refl
  | some q =>
    obtain ⟨hid, hdurable⟩ := hf q hq
    rw [update_done hf hq]
    have hsome : (b.quests.lookup (f q).id).isSome := by rw [hid, hq]; rfl
    refine ⟨fun h => h.rewritten hsome hdurable, fun id' => ?_⟩
    rw [isSome_lookup_written]
    constructor
    · rintro (rfl | h)
      · exact hsome
      · exact h
    · exact .inr

theorem KeepsQuest.of_inv (h : Inv reread b) (hid : ∀ q, (f q).id = q.id)
    (hidea : ∀ q, (f q).idea = q.idea) (hcheckpoints : ∀ q, (f q).checkpoints = q.checkpoints) :
    KeepsQuest reread b id f := by
  intro q hq
  obtain ⟨hnone, hread⟩ := h.durable id q hq
  refine ⟨(hid q).trans (h.keyed id q hq), (hidea q).trans hnone, ?_⟩
  rw [hcheckpoints q, hread]

theorem rewrites_cascade {io : Nat → Append} (hio : ∀ n, io n = .done) {depth n : Nat}
    (h : Inv reread b) : Rewrites reread b (b.cascadeParentClose reread io now depth n id) := by
  induction depth generalizing b n id with
  | zero => exact .refl
  | succ depth ih =>
    unfold cascadeParentClose
    split
    next => exact .refl
    next parentId _ =>
      split
      next => exact .refl
      next parent _ =>
        rw [hio n]
        by_cases hopen : parent.isClosed ∨ b.children parentId = [] ∨
            ¬ (b.children parentId).all (fun cid => (b.quests.lookup cid).any (·.isClosed))
        · rw [if_pos hopen]
          exact .refl
        · rw [if_neg hopen]
          by_cases hworked : parent.checkpoints ≠ []
          · rw [if_pos hworked]
            exact rewrites_update (.of_inv h (fun _ => rfl) (fun _ => rfl) fun _ => rfl)
          · rw [if_neg hworked]
            have hrewrites : Rewrites reread b
                (b.update reread parentId (b.finishParent (b.children parentId) now) .done now).2 :=
              rewrites_update (.of_inv h (fun _ => rfl) (fun _ => rfl) fun _ => rfl)
            cases hupdate : b.update reread parentId (b.finishParent (b.children parentId) now)
                .done now with
            | mk answer b₁ =>
              rw [hupdate] at hrewrites
              cases answer with
              | ok q => exact hrewrites.trans (ih (hrewrites.inv h))
              | error e => exact hrewrites

/-! ## Creating quests -/

theorem durable_withAgent {ideaId : String} {agentId : Option String} :
    Durable reread (.withAgent id ideaId agentId now) := ⟨rfl, rfl⟩

/-- What a call that creates a quest does when it succeeds. -/
structure Adds (reread : C → Option C) (b : QuestBoard C) (q : StoredQuest C)
    (b' : QuestBoard C) : Prop where
  inv : Inv reread b'
  fresh : b.quests.lookup q.id = none
  isSome : ∀ id, (b'.quests.lookup id).isSome ↔ id = q.id ∨ (b.quests.lookup id).isSome

theorem lookup_getD_insert {m : Accounts String Nat} {p' : String} {n : Nat} :
    ((m.insert p n).lookup p').getD 0 = if p' = p then n else (m.lookup p').getD 0 := by
  split_ifs with h
  · rw [h, AList.lookup_insert]
    rfl
  · rw [AList.lookup_insert_ne h]

theorem nextSeq_eq (h : (b.sequences.lookup p).getD 0 + 1 < 2 ^ 32) :
    b.nextSeq p = (b.sequences.lookup p).getD 0 + 1 := Nat.mod_eq_of_lt h

theorem Inv.counted (h : Inv reread b) (hseq : (b.sequences.lookup p).getD 0 + 1 < 2 ^ 32) :
    Inv reread { b with sequences := b.sequences.insert p (b.nextSeq p) } := by
  refine { h with numbered := fun p' n hp hn hroot => ?_ }
  have hle := h.numbered p' n hp hn hroot
  rw [lookup_getD_insert, nextSeq_eq hseq]
  split_ifs with heq
  · rw [heq] at hle
    omega
  · exact hle

theorem adds_root (h : Inv reread b) {agentId : Option String}
    (hseq : (b.sequences.lookup p).getD 0 + 1 < 2 ^ 32) (hp : QuestId.Plain p) :
    Adds reread b (.withAgent (root p (b.nextSeq p)) name agentId now)
      (({ b with sequences := b.sequences.insert p (b.nextSeq p) } : QuestBoard C).written
        (.withAgent (root p (b.nextSeq p)) name agentId now)) := by
  have hcounted := h.counted hseq
  have hfresh : b.quests.lookup (root p (b.nextSeq p)) = none := by
    by_contra hne
    have hle := h.numbered p _ hp (by rw [nextSeq_eq hseq]; exact hseq)
      (isSome_iff_ne_none.2 hne)
    rw [nextSeq_eq hseq] at hle
    omega
  have hhead := head_root (n := b.nextSeq p) hp.2.1
  have hlog : isLog (fileName (root p (b.nextSeq p))) = true :=
    QuestId.isLog_fileName (by rw [hhead]; exact hp.1) (by rw [hhead]; exact hp.2.2.2)
  refine ⟨hcounted.written durable_withAgent hlog ?_ ?_, hfresh, fun id => isSome_lookup_written⟩
  · intro pid k hk
    rw [childCount_written_new hfresh]
    refine Nat.le_add_right_of_le (h.dense pid k ?_)
    rcases isSome_lookup_written.1 hk with hid | hk
    · exact absurd hid.symm root_ne_child
    · exact hk
  · intro p' n hp' hn hroot
    rcases isSome_lookup_written.1 hroot with hid | hroot
    · obtain ⟨rfl, rfl⟩ := QuestId.root_inj hid
      change _ ≤ ((b.sequences.insert p' (b.nextSeq p')).lookup p').getD 0
      rw [lookup_getD_insert, if_pos rfl]
    · exact hcounted.numbered p' n hp' hn hroot

theorem adds_child (h : Inv reread b) (hcount : b.childCount pid + 1 < 2 ^ 32)
    (hid : q.id = child pid ((b.childCount pid + 1) % 2 ^ 32)) (hdurable : Durable reread q)
    (hlog : isLog (fileName (child pid (b.childCount pid + 1)))) :
    Adds reread b q (b.written q) := by
  rw [Nat.mod_eq_of_lt hcount] at hid
  have hfresh : b.quests.lookup q.id = none := by
    by_contra hne
    rw [hid] at hne
    have hle := h.dense pid _ (isSome_iff_ne_none.2 hne)
    omega
  refine ⟨h.written hdurable (hid ▸ hlog) ?_ ?_, hfresh, fun id => isSome_lookup_written⟩
  · intro pid' k hk
    rw [childCount_written_new hfresh]
    rcases isSome_lookup_written.1 hk with hk | hk
    · obtain ⟨rfl, rfl⟩ := QuestId.child_inj (hk.trans hid)
      rw [hid, QuestId.parent_child, if_pos rfl]
    · exact Nat.le_add_right_of_le (h.dense pid' k hk)
  · intro p n hp hn hroot
    rcases isSome_lookup_written.1 hroot with hroot | hroot
    · exact absurd (hroot.trans hid) root_ne_child
    · exact h.numbered p n hp hn hroot

end QuestBoard

/-! ## Runs -/

section Runs

variable {C : Type} {reread : C → Option C} {b b' b₀ : QuestBoard C} {l : Listing C} {now : Nat}
  {call : BoardCall C} {hist : List (QuestBoard C × BoardCall C × Nat)}

open QuestBoard

/-- A listing is one of the directory as it is, and a board is only opened on files that can be
read. -/
def BoardCall.Proper (b : QuestBoard C) : BoardCall C → Prop
  | .reload l => Lists b l
  | .reopen l => Listed b l
  | _ => True

def BoardStep (reread : C → Option C) (b : QuestBoard C) (e : BoardCall C × Nat)
    (b' : QuestBoard C) : Prop :=
  e.1.Proper b ∧ (b.exec reread e.2 e.1).2 = b'

/-- The call does not meet what parts the log from the map: an id that does not give its prefix
back or whose file is not read, an append that fails although the quest has been changed, or fails
halfway, a change of the id or of what is not written, a counter at its end, a reload that fails. -/
def BoardCall.Safe (reread : C → Option C) (b : QuestBoard C) : BoardCall C → Prop
  | .createWithAgent p _ _ io => (b.sequences.lookup p).getD 0 + 1 < 2 ^ 32 ∧
      (io = .refused ∨ io = .done ∧ QuestId.Plain p)
  | .createChild pid _ io => io = .refused ∨ io = .done ∧ b.childCount pid + 1 < 2 ^ 32 ∧
      isLog (fileName (child pid (b.childCount pid + 1)))
  | .update id f io => (b.quests.lookup id).isSome → io = .done ∧ KeepsQuest reread b id f
  | .addDependency id _ io => (b.quests.lookup id).isSome → io = .done
  | .close id _ io => (b.quests.lookup id).isSome → ∀ n, io n = .done
  | .cancel id _ io => (b.quests.lookup id).isSome → io = .done
  | .reload l => l.names.length ≤ l.readable ∧ ∀ n, l.rewrites n = none
  | .reopen _ => True

def handedOut (reread : C → Option C) (b : QuestBoard C) (e : BoardCall C × Nat) :
    Option String :=
  match e.1, (b.exec reread e.2 e.1).1 with
  | .createWithAgent .., .ok (some q) => some q.id
  | .createChild .., .ok (some q) => some q.id
  | _, _ => none

def created (reread : C → Option C) (hist : List (QuestBoard C × BoardCall C × Nat)) :
    List String :=
  hist.filterMap fun e => handedOut reread e.1 e.2

structure StepKeeps (reread : C → Option C) (b : QuestBoard C) (e : BoardCall C × Nat)
    (b' : QuestBoard C) : Prop where
  inv : Inv reread b'
  keeps : ∀ id, (b.quests.lookup id).isSome → (b'.quests.lookup id).isSome
  fresh : ∀ id ∈ handedOut reread b e,
    b.quests.lookup id = none ∧ (b'.quests.lookup id).isSome
  spared : (b.exec reread e.2 e.1).1 = .error .io → b'.quests = b.quests

theorem told_io {r : Except BoardError (StoredQuest C) × QuestBoard C} :
    (told r).1 = .error .io ↔ r.1 = .error .io := by
  unfold told
  cases r.1 <;> simp [Except.map]

variable {e : BoardCall C × Nat}

theorem stepKeeps_rewrites (h : Rewrites reread b b') (hinv : Inv reread b)
     (hnone : handedOut reread b e = none)
    (hio : (b.exec reread e.2 e.1).1 ≠ .error .io) : StepKeeps reread b e b' where
  inv := h.inv hinv
  keeps := fun id hid => (h.isSome id).2 hid
  fresh := fun id hid => by rw [hnone] at hid; cases hid
  spared := fun hfails => absurd hfails hio

variable {id : String} {io : Append}

theorem update_answer {f : StoredQuest C → StoredQuest C}
    (h : (b.quests.lookup id).isSome → io = .done) :
    (b.update reread id f io now).1 ≠ .error .io := by
  unfold update
  cases hq : b.quests.lookup id with
  | none => simp
  | some q =>
    rw [h (by rw [hq]; rfl)]
    simp [persist]

theorem rewrites_update_of {f : StoredQuest C → StoredQuest C}
    (hio : (b.quests.lookup id).isSome → io = .done) (hf : KeepsQuest reread b id f) :
    Rewrites reread b (b.update reread id f io now).2 := by
  cases hq : b.quests.lookup id with
  | none =>
    unfold update
    rw [hq]
    exact .refl
  | some q =>
    rw [hio (by rw [hq]; rfl)]
    exact rewrites_update hf

theorem addDependency_answer {depId : String} (h : (b.quests.lookup id).isSome → io = .done) :
    (b.addDependency reread id depId io now).1 ≠ .error .io := by
  unfold addDependency
  split_ifs
  · simp
  · simp
  · exact update_answer h

theorem rewrites_addDependency {depId : String} (hinv : Inv reread b)
    (h : (b.quests.lookup id).isSome → io = .done) :
    Rewrites reread b (b.addDependency reread id depId io now).2 := by
  unfold addDependency
  split_ifs
  · exact .refl
  · exact .refl
  · exact rewrites_update_of h (.of_inv hinv (fun _ => rfl) (fun _ => rfl) fun _ => rfl)

theorem close_answer {reason : String} {io : Nat → Append}
    (h : (b.quests.lookup id).isSome → ∀ n, io n = .done) :
    (b.close reread id reason io now).1 ≠ .error .io := by
  have hupdate : (b.update reread id (.finish .done .done reason now) (io 0) now).1 ≠ .error .io :=
    update_answer fun hsome => h hsome 0
  unfold close
  cases hr : b.update reread id (.finish .done .done reason now) (io 0) now with
  | mk answer b₁ =>
    rw [hr] at hupdate
    cases answer with
    | ok q => simp
    | error e => exact hupdate

theorem rewrites_close {reason : String} {io : Nat → Append} (hinv : Inv reread b)
    (h : (b.quests.lookup id).isSome → ∀ n, io n = .done) :
    Rewrites reread b (b.close reread id reason io now).2 := by
  have hupdate : Rewrites reread b
      (b.update reread id (.finish .done .done reason now) (io 0) now).2 :=
    rewrites_update_of (fun hsome => h hsome 0)
      (.of_inv hinv (fun _ => rfl) (fun _ => rfl) fun _ => rfl)
  unfold close
  cases hq : b.quests.lookup id with
  | none =>
    have hnone : b.update reread id (.finish .done .done reason now) (io 0) now =
        (.error (.notFound id), b) := by
      unfold update
      rw [hq]
    rw [hnone]
    exact .refl
  | some q =>
    have hio := h (by rw [hq]; rfl)
    cases hr : b.update reread id (.finish .done .done reason now) (io 0) now with
    | mk answer b₁ =>
      rw [hr] at hupdate
      cases answer with
      | ok q => exact hupdate.trans (rewrites_cascade hio (hupdate.inv hinv))
      | error e => exact hupdate

theorem stepKeeps_add {q : StoredQuest C} (hadds : Adds reread b q b')
    (hanswer : (b.exec reread e.2 e.1).1 = .ok (some q)) :
    StepKeeps reread b e b' where
  inv := hadds.inv
  keeps := fun id hid => (hadds.isSome id).2 (.inr hid)
  fresh := by
    intro id hid
    unfold handedOut at hid
    rw [hanswer] at hid
    split at hid
    next heq =>
      obtain rfl := some.inj hid
      obtain rfl := some.inj (Except.ok.inj heq)
      exact ⟨hadds.fresh, (hadds.isSome _).2 (.inl rfl)⟩
    next heq =>
      obtain rfl := some.inj hid
      obtain rfl := some.inj (Except.ok.inj heq)
      exact ⟨hadds.fresh, (hadds.isSome _).2 (.inl rfl)⟩
    next => cases hid
  spared := fun hfails => by rw [hanswer] at hfails; cases hfails

theorem stepKeeps_refused (hinv : Inv reread b') (hquests : b'.quests = b.quests)
    (hanswer : (b.exec reread e.2 e.1).1 = .error .io) :
    StepKeeps reread b e b' where
  inv := hinv
  keeps := fun id hid => hquests ▸ hid
  fresh := by
    intro id hid
    unfold handedOut at hid
    rw [hanswer] at hid
    split at hid
    next heq => cases heq
    next heq => cases heq
    next => cases hid
  spared := fun _ => hquests

theorem stepKeeps_of_safe (hinv : Inv reread b) (hsafe : e.1.Safe reread b)
    (hstep : BoardStep reread b e b') : StepKeeps reread b e b' := by
  obtain ⟨hproper, rfl⟩ := hstep
  obtain ⟨call, now⟩ := e
  cases call with
  | createWithAgent p name agentId io =>
    obtain ⟨hseq, hio | ⟨hio, hp⟩⟩ := hsafe
    · subst hio
      exact stepKeeps_refused (hinv.counted hseq) rfl rfl
    · subst hio
      refine stepKeeps_add (adds_root hinv hseq hp) ?_
      rfl
  | createChild pid name io =>
    rcases hsafe with hio | ⟨hio, hcount, hlog⟩
    · subst hio
      exact stepKeeps_refused hinv rfl rfl
    · subst hio
      have hdurable : Durable reread { (StoredQuest.withAgent (C := C) (child pid
        ((b.childCount pid + 1) % 2 ^ 32)) name none now) with
        agentId := (b.quests.lookup pid).bind (·.agentId) } := ⟨rfl, rfl⟩
      refine stepKeeps_add (adds_child hinv hcount rfl hdurable hlog) ?_
      rfl
  | update id f io =>
    have hio : (b.quests.lookup id).isSome → io = .done := fun h => (hsafe h).1
    have hf : KeepsQuest reread b id f := by
      intro q hq
      exact (hsafe (by rw [hq]; rfl)).2 q hq
    exact stepKeeps_rewrites (rewrites_update_of hio hf) hinv rfl (mt told_io.1 (update_answer hio))
  | addDependency id depId io =>
    exact stepKeeps_rewrites (rewrites_addDependency hinv hsafe) hinv rfl
      (mt told_io.1 (addDependency_answer hsafe))
  | close id reason io =>
    exact stepKeeps_rewrites (rewrites_close hinv hsafe) hinv rfl
      (mt told_io.1 (close_answer hsafe))
  | cancel id reason io =>
    have hf : KeepsQuest reread b id (.finish .cancelled .cancelled reason now) :=
      .of_inv hinv (fun _ => rfl) (fun _ => rfl) fun _ => rfl
    exact stepKeeps_rewrites (rewrites_update_of hsafe hf) hinv rfl
      (mt told_io.1 (update_answer hsafe))
  | reload l =>
    obtain ⟨hreadable, hrewrites⟩ := hsafe
    have hl : Listed b l := ⟨hproper, hreadable⟩
    refine ⟨hinv.reload hl hrewrites, fun id hid => ?_, fun id hid => ?_, fun hfails => ?_⟩
    · change ((b.reload reread l).2.quests.lookup id).isSome
      rw [lookup_reload hinv hl hrewrites]
      exact hid
    · cases hid
    · simp only [exec, reload_eq hl hrewrites] at hfails
      cases hfails
  | reopen l =>
    refine ⟨hinv.opened hproper, fun id hid => ?_, fun id hid => ?_, fun hfails => ?_⟩
    · change ((b.opened l).quests.lookup id).isSome
      rw [hinv.lookup_opened hproper]
      exact hid
    · cases hid
    · cases hfails

def boardOn (dir : Accounts String (LogFile (StoredQuest C))) (l : Listing C) : QuestBoard C :=
  (⟨dir, ∅, ∅⟩ : QuestBoard C).opened l

/-- The directory that a board is first opened on: every quest in the file of its prefix, complete
lines that come back as they are, and no gaps among the numbers of children. -/
structure SoundDir (reread : C → Option C) (dir : Accounts String (LogFile (StoredQuest C)))
    (l : Listing C) : Prop where
  listed : Listed ⟨dir, ∅, ∅⟩ l
  placed : Placed ⟨dir, ∅, ∅⟩
  durable : ∀ name, isLog name → ∀ q ∈ (file ⟨dir, ∅, ∅⟩ name).quests, Durable reread q
  dense : (boardOn dir l).Dense

/-- The log and the memory of a board that was opened as `b₀` agree: reading the files gives the
map, every id handed out was new, and a call whose append failed left the map as it was. -/
structure LogAgrees (reread : C → Option C) (b₀ : QuestBoard C)
    (hist : List (QuestBoard C × BoardCall C × Nat)) (b : QuestBoard C) : Prop where
  reopens : ∀ l, Listed b l → ∀ id, (b.opened l).quests.lookup id = b.quests.lookup id
  fresh : (created reread hist).Nodup ∧
    ∀ id ∈ created reread hist, b₀.quests.lookup id = none
  spared : ∀ e ∈ hist, (e.1.exec reread e.2.2 e.2.1).1 = .error .io →
    (e.1.exec reread e.2.2 e.2.1).2.quests = e.1.quests

structure RunKeeps (reread : C → Option C) (b₀ : QuestBoard C)
    (hist : List (QuestBoard C × BoardCall C × Nat)) (b : QuestBoard C) : Prop where
  inv : Inv reread b
  keeps : ∀ id, (b₀.quests.lookup id).isSome → (b.quests.lookup id).isSome
  onBoard : ∀ id ∈ created reread hist, (b.quests.lookup id).isSome
  agrees : (created reread hist).Nodup ∧
    ∀ id ∈ created reread hist, b₀.quests.lookup id = none
  spared : ∀ e ∈ hist, (e.1.exec reread e.2.2 e.2.1).1 = .error .io →
    (e.1.exec reread e.2.2 e.2.1).2.quests = e.1.quests

theorem runKeeps (hinv : Inv reread b₀)
    (run : Run (Guarded (fun b e => e.1.Safe reread b) (BoardStep reread)) b₀ hist b) :
    RunKeeps reread b₀ hist b := by
  induction run with
  | nil =>
    exact ⟨hinv, fun _ h => h, nofun, ⟨.nil, nofun⟩, nofun⟩
  | @step hist t t' e run hstep ih =>
    obtain ⟨hsafe, hstep⟩ := hstep
    have hkeeps := stepKeeps_of_safe ih.inv hsafe hstep
    obtain ⟨-, rfl⟩ := hstep
    have hcreated : created reread ((t, e) :: hist) =
        (handedOut reread t e).toList ++ created reread hist := by
      unfold created
      cases h : handedOut reread t e <;> simp [h]
    have hnew : ∀ id ∈ (handedOut reread t e).toList, t.quests.lookup id = none ∧
        ((t.exec reread e.2 e.1).2.quests.lookup id).isSome :=
      fun id hid => hkeeps.fresh id (mem_toList.1 hid)
    refine ⟨hkeeps.inv, fun id hid => hkeeps.keeps id (ih.keeps id hid), fun id hid => ?_,
      ⟨?_, fun id hid => ?_⟩, ?_⟩
    · rw [hcreated] at hid
      rcases mem_append.1 hid with hid | hid
      · exact (hnew id hid).2
      · exact hkeeps.keeps id (ih.onBoard id hid)
    · rw [hcreated]
      refine List.Nodup.append ?_ ih.agrees.1 fun id hid hold => ?_
      · cases handedOut reread t e <;> simp
      · have hsome := ih.onBoard id hold
        rw [(hnew id hid).1] at hsome
        cases hsome
    · rw [hcreated] at hid
      rcases mem_append.1 hid with hid | hid
      · by_contra hne
        have hsome := ih.keeps id (isSome_iff_ne_none.2 hne)
        rw [(hnew id hid).1] at hsome
        cases hsome
      · exact ih.agrees.2 id hid
    · exact forall_mem_cons.2 ⟨hkeeps.spared, ih.spared⟩

/-- In a run of safe calls on a sound directory the log and the memory agree throughout. -/
theorem logAgrees_of_safe {dir : Accounts String (LogFile (StoredQuest C))}
    (hdir : SoundDir reread dir l)
    (run : Run (Guarded (fun b e => e.1.Safe reread b) (BoardStep reread)) (boardOn dir l) hist b) :
    LogAgrees reread (boardOn dir l) hist b := by
  have hinv : Inv reread (boardOn dir l) :=
    inv_opened hdir.placed hdir.listed hdir.durable hdir.dense
  have hrun := runKeeps hinv run
  exact ⟨fun l hl id => hrun.inv.lookup_opened hl, hrun.agrees, hrun.spared⟩

end Runs

section Example

open QuestBoard

/-- The directory read as it lies. -/
def plainListing (b : QuestBoard Unit) : Listing Unit :=
  ⟨b.dir.keys, b.dir.keys.length, id, id, fun _ => none⟩

theorem listed_plain {b : QuestBoard Unit} : Listed b (plainListing b) :=
  ⟨⟨.refl _, fun _ => .refl _, fun _ => .refl _⟩, le_rfl⟩

def emptyBoard : QuestBoard Unit := boardOn ∅ (plainListing ⟨∅, ∅, ∅⟩)

theorem soundDir_empty : SoundDir (some : Unit → Option Unit) ∅ (plainListing ⟨∅, ∅, ∅⟩) where
  listed := listed_plain
  placed := ⟨fun _ _ _ hq => absurd hq not_mem_nil, fun _ _ => rfl⟩
  durable := fun _ _ _ hq => nomatch hq
  dense := nofun

def called (b : QuestBoard Unit) (now : Nat) (call : BoardCall Unit) : QuestBoard Unit :=
  (b.exec some now call).2

/-- A quest, a child of it, and the child closed, which closes the quest. -/
theorem logAgrees_child : ∃ hist b, hist.length = 3 ∧
    (b.quests.lookup "as-001").map (·.status) = some .done ∧
    LogAgrees (some : Unit → Option Unit) emptyBoard hist b := by
  let Call := Guarded (fun b e => e.1.Safe (some : Unit → Option Unit) b) (BoardStep some)
  let quest : BoardCall Unit := .createWithAgent "as" "idea" none .done
  let b₁ := called emptyBoard 0 quest
  have step₁ : Call emptyBoard (quest, 0) b₁ :=
    ⟨⟨by decide +kernel, .inr ⟨rfl, by decide +kernel⟩⟩, trivial, rfl⟩
  let child : BoardCall Unit := .createChild "as-001" "step" .done
  let b₂ := called b₁ 1 child
  have step₂ : Call b₁ (child, 1) b₂ :=
    ⟨.inr ⟨rfl, by decide +kernel, by decide +kernel⟩, trivial, rfl⟩
  let close : BoardCall Unit := .close "as-001.1" "built" fun _ => .done
  let b₃ := called b₂ 2 close
  have step₃ : Call b₂ (close, 2) b₃ := ⟨fun _ _ => rfl, trivial, rfl⟩
  exact ⟨_, b₃, rfl, by decide +kernel,
    logAgrees_of_safe soundDir_empty (((Run.nil.step step₁).step step₂).step step₃)⟩

/-- A prefix with a dash: after a restart its first id is handed out again. -/
theorem not_logAgrees_dash : ¬ ∀ (dir : Accounts String (LogFile (StoredQuest Unit)))
    (l : Listing Unit), Listed ⟨dir, ∅, ∅⟩ l → ∀ hist b,
      Run (BoardStep some) (boardOn dir l) hist b → LogAgrees some (boardOn dir l) hist b := by
  intro h
  let first : BoardCall Unit := .createWithAgent "web-app" "idea" none .done
  let b₁ := called emptyBoard 0 first
  have step₁ : BoardStep some emptyBoard (first, 0) b₁ := ⟨trivial, rfl⟩
  let restart : BoardCall Unit := .reopen (plainListing b₁)
  let b₂ := called b₁ 1 restart
  have step₂ : BoardStep some b₁ (restart, 1) b₂ := ⟨listed_plain, rfl⟩
  let second : BoardCall Unit := .createWithAgent "web-app" "other" none .done
  let b₃ := called b₂ 2 second
  have step₃ : BoardStep some b₂ (second, 2) b₃ := ⟨trivial, rfl⟩
  have hfresh := (h ∅ _ listed_plain _ b₃ (((Run.nil.step step₁).step step₂).step step₃)).fresh.1
  exact absurd hfresh (by decide +kernel)

end Example

end Aeqi.Quests
