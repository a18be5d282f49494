import Aeqi.Indexer.Attribution
import Aeqi.Indexer.Backfill

/-!
# No event below the cursor is lost

A backfill that runs to its end has visited every finalized transaction from the cursor on
(`Walk`), and the live tail records what it is told. So as long as every step that raises the
cursor passes transactions only that its session covered, all events below the cursor are in
the sink, in every state of every run (`keeps_events`). A backfill that stops on an error is
not covered, and the live tail raises the cursor nevertheless.
-/

namespace Aeqi.Indexer

open Aeqi.Lib List Option
open Session (watch)
open Transaction (signature)

section Cursor

variable {sha256 : String → Bytes} {decode : String → Option Bytes} {c : Chain} {p : Program}

/-! ## Own events and their rows -/

variable {tx : Transaction}

theorem ownLine_lt {i : Nat} (h : ownLine sha256 decode p tx i = true) :
    i < tx.emitted.length := by
  unfold ownLine at h
  split at h
  next => cases h
  next hline => exact (List.getElem?_eq_some_iff.1 hline).1

theorem emits_of_ownRow {row : EventRow} (h : Daemon.OwnRow sha256 decode p tx row) :
    emits sha256 decode p tx = true := by
  obtain ⟨i, hown, -⟩ := h
  exact List.any_eq_true.2 ⟨i, mem_range.2 (ownLine_lt hown), hown⟩

theorem recordsAll_iff {fails : Nat → Bool} :
    recordsAll sha256 decode p tx fails = true ↔
      ∀ i, ownLine sha256 decode p tx i = true → fails i = false := by
  rw [recordsAll, List.all_eq_true]
  constructor
  · intro h i hown
    simpa [hown] using h i (mem_range.2 (ownLine_lt hown))
  · intro h i _
    cases hown : ownLine sha256 decode p tx i with
    | false => rfl
    | true => simp [h i hown]

def Sink.Keeps (sha256 : String → Bytes) (decode : String → Option Bytes) (p : Program)
    (sink : Sink) (tx : Transaction) : Prop :=
  ∀ row, Daemon.OwnRow sha256 decode p tx row → row ∈ sink.events

/-- What handling a transaction of the chain does to the rows of the sink. -/
structure Sink.Extends (sha256 : String → Bytes) (decode : String → Option Bytes) (L : Ledger)
    (sink sink' : Sink) : Prop where
  rows : ∀ row ∈ sink.events, row ∈ sink'.events
  of : sink'.Of sha256 decode L

namespace Sink

variable {sink sink' : Sink} {tx : Transaction} {L : Ledger}

theorem Keeps.mono (h : sink.Keeps sha256 decode p tx)
    (hext : sink.Extends sha256 decode L sink') : sink'.Keeps sha256 decode p tx :=
  fun row hrow => hext.rows row (h row hrow)

theorem Extends.refl (hsink : sink.Of sha256 decode L) : sink.Extends sha256 decode L sink :=
  ⟨fun _ h => h, hsink⟩

theorem recordLogs_extends (htx : tx ∈ L.txs) (fails : Nat → Bool)
    (hsink : sink.Of sha256 decode L) :
    sink.Extends sha256 decode L
      (recordLogs sha256 decode p.pubkey fails tx tx.logs 0 sink) := by
  constructor
  · intro row hrow
    exact (mem_recordLogs htx fails hsink).2 (.inl hrow)
  · intro row hrow
    rcases (mem_recordLogs htx fails hsink).1 hrow with hrow | ⟨i, -, hrow⟩
    · exact hsink row hrow
    · exact ⟨p, tx, htx, i, hrow⟩

variable {fails : Nat → Bool}

theorem recordLogs_keeps (htx : tx ∈ L.txs) (hsink : sink.Of sha256 decode L)
    (hall : recordsAll sha256 decode p tx fails = true) :
    (recordLogs sha256 decode p.pubkey fails tx tx.logs 0 sink).Keeps sha256 decode p tx := by
  rintro row ⟨i, hown, hrow⟩
  exact (mem_recordLogs htx fails hsink).2 (.inr ⟨i, recordsAll_iff.1 hall i hown, hrow⟩)

theorem replay_extends (htx : tx ∈ L.txs) (fetched : Bool) (fails : Nat → Bool)
    (hsink : sink.Of sha256 decode L) :
    sink.Extends sha256 decode L (replay sha256 decode p fetched fails tx sink) := by
  unfold replay
  split
  · exact .refl hsink
  · split
    · exact recordLogs_extends htx fails hsink
    · exact .refl hsink

theorem replay_cursors (fetched : Bool) (fails : Nat → Bool) :
    (replay sha256 decode p fetched fails tx sink).cursors = sink.cursors := by
  unfold replay
  split
  · rfl
  · split
    · exact recordLogs_cursors p.pubkey fails tx tx.logs 0 sink
    · rfl

theorem replay_keeps (htx : tx ∈ L.txs) {fetched : Bool} (hsink : sink.Of sha256 decode L)
    (herr : tx.err = false) (hall : (fetched && recordsAll sha256 decode p tx fails) = true) :
    (replay sha256 decode p fetched fails tx sink).Keeps sha256 decode p tx := by
  obtain ⟨hfetched, hall⟩ := Bool.and_eq_true_iff.1 hall
  rw [replay, if_neg (by simp [herr]), if_pos hfetched]
  exact recordLogs_keeps htx hsink hall

theorem notify_extends (htx : tx ∈ L.txs) (fails : Nat → Bool) (bumpFails : Bool)
    (hsink : sink.Of sha256 decode L) :
    sink.Extends sha256 decode L (notify sha256 decode p fails bumpFails tx sink) := by
  have hlogs := recordLogs_extends (p := p) htx fails hsink
  unfold notify
  split
  · exact .refl hsink
  · cases bumpFails with
    | true => exact hlogs
    | false => exact ⟨hlogs.rows, hlogs.of⟩

theorem notify_keeps (htx : tx ∈ L.txs) (bumpFails : Bool) (hsink : sink.Of sha256 decode L)
    (herr : tx.err = false) (hall : recordsAll sha256 decode p tx fails = true) :
    (notify sha256 decode p fails bumpFails tx sink).Keeps sha256 decode p tx := by
  have hlogs := recordLogs_keeps htx hsink hall
  rw [notify, if_neg (by simp [herr])]
  cases bumpFails with
  | true | false => exact hlogs

theorem notify_cursor (fails : Nat → Bool) (bumpFails : Bool) :
    (notify sha256 decode p fails bumpFails tx sink).cursor p.name =
      if tx.err = false ∧ bumpFails = false then (sink.bumpCursor p.name tx.slot).cursor p.name
      else sink.cursor p.name := by
  have hcursors : (recordLogs sha256 decode p.pubkey fails tx tx.logs 0 sink).cursors =
      sink.cursors := recordLogs_cursors ..
  cases herr : tx.err with
  | true => simp [notify, herr]
  | false => cases bumpFails <;> simp [notify, herr, bumpCursor, cursor, hcursors]

theorem bumpCursor_cursor (program : String) (slot : Slot) (sink : Sink) :
    (sink.bumpCursor program slot).cursor program = some slot ∧
        ((sink.cursor program).all fun last => last.slt slot) = true ∨
      (sink.bumpCursor program slot).cursor program = sink.cursor program := by
  simp only [bumpCursor, cursor, Function.update_self]
  cases hcursor : sink.cursors program with
  | none => exact .inl ⟨rfl, rfl⟩
  | some last =>
    cases hslt : last.slt slot with
    | true => exact .inl ⟨by simp [hslt], hslt⟩
    | false => exact .inr (by simp [hslt])

end Sink

/-! ## Pages -/

/-- The page after `rest` begins with the newest of the older signatures. -/
theorem getSignatures_older {older rest newer : List Transaction}
    (hnodup : ((older ++ rest ++ newer).map signature).Nodup)
    (hrest : rest = [] → newer = []) :
    getSignatures (older ++ rest ++ newer) (rest.head?.map signature) =
      older.reverse.take PAGE_LIMIT := by
  cases rest with
  | nil => simp [hrest rfl, getSignatures]
  | cons tx rest =>
    have hne : ∀ t ∈ newer.reverse ++ rest.reverse, (t.signature != tx.signature) = true := by
      intro t ht
      have htail : t ∈ rest ++ newer := by simpa [or_comm] using ht
      simp only [append_assoc, cons_append, map_append, map_cons,
        nodup_append, nodup_cons] at hnodup
      have hout := hnodup.2.1.1
      rw [← map_append] at hout
      exact bne_iff_ne.2 fun h => hout (h ▸ List.mem_map_of_mem htail)
    have hreverse : (older ++ tx :: rest ++ newer).reverse =
        (newer.reverse ++ rest.reverse) ++ (tx :: older.reverse) := by simp
    simp only [getSignatures, head?_cons, Option.map_some]
    rw [hreverse, dropWhile_append_of_pos hne]
    simp

/-! ## The steps of the daemon -/

namespace Daemon

variable {d d' : Daemon} {e : Event} {g : Session}

/-- What a step of the daemon can do. -/
inductive Moves (sha256 : String → Bytes) (decode : String → Option Bytes) (c : Chain)
    (p : Program) (d : Daemon) : Event → Daemon → Prop
  | land (h : d.landed < c.txs.length) :
      Moves sha256 decode c p d .land { d with landed := d.landed + 1 }
  | finalize (h : d.finalized < d.landed) :
      Moves sha256 decode c p d .finalize { d with finalized := d.finalized + 1 }
  | skip (h : d.phase = .down) (readable : Bool) :
      Moves sha256 decode c p d (.start true readable) { d with phase := .starting }
  | begin (h : d.phase = .down) (readable : Bool) :
      Moves sha256 decode c p d (.start false readable)
        { d with phase := .backfill ⟨if readable then d.untilSlot p else 0, none, [], 0⟩ }
  | stop {b : Backfill} (h : d.phase = .backfill b) (hpage : b.page = []) (bumpFails : Bool) :
      Moves sha256 decode c p d (.page false bumpFails) { d with phase := .starting }
  | finish {b : Backfill} (h : d.phase = .backfill b) (hpage : b.page = []) (bumpFails : Bool)
      (hnext : d.nextPage c b = []) :
      Moves sha256 decode c p d (.page true bumpFails)
        { d with
          phase := .starting
          sink := if 0 < b.lastSlot ∧ bumpFails = false then
            d.sink.bumpCursor p.name b.lastSlot else d.sink }
  | turn {b : Backfill} (h : d.phase = .backfill b) (hpage : b.page = []) (bumpFails : Bool)
      {page : List Transaction} (hne : page ≠ []) (hnext : d.nextPage c b = page) :
      Moves sha256 decode c p d (.page true bumpFails)
        { d with
          phase := .backfill { b with
            page := page, before := page.getLast?.map signature } }
  | reach {b : Backfill} (h : d.phase = .backfill b) {tx : Transaction} {page : List Transaction}
      (hpage : b.page = tx :: page) (fetched : Bool) (fails : Nat → Bool)
      (hslot : tx.slot < b.untilSlot) :
      Moves sha256 decode c p d (.visit fetched fails) { d with phase := .starting }
  | visit {b : Backfill} (h : d.phase = .backfill b) {tx : Transaction} {page : List Transaction}
      (hpage : b.page = tx :: page) (fetched : Bool) (fails : Nat → Bool)
      (hslot : ¬ tx.slot < b.untilSlot) :
      Moves sha256 decode c p d (.visit fetched fails)
        { d with
          sink := replay sha256 decode p fetched fails tx d.sink
          phase := .backfill { b with
            page := page
            lastSlot := if tx.err = false ∧ fetched = true then tx.slot else b.lastSlot } }
  | subscribe (h : d.phase = .starting) :
      Moves sha256 decode c p d .subscribe { d with phase := .live }
  | notify (h : d.phase = .live) {i : Nat} {tx : Transaction}
      (htx : (c.txs.take d.landed)[i]? = some tx) (fails : Nat → Bool) (bumpFails : Bool) :
      Moves sha256 decode c p d (.notify i fails bumpFails)
        { d with sink := Indexer.notify sha256 decode p fails bumpFails tx d.sink }
  | crash : Moves sha256 decode c p d .crash { d with phase := .down }

theorem Moves.of_exec (h : d.exec sha256 decode c p e = .ok d') :
    Moves sha256 decode c p d e d' := by
  cases e with
  | land =>
    simp only [exec] at h
    split at h
    next hlt => cases h; exact .land hlt
    next => cases h
  | finalize =>
    simp only [exec] at h
    split at h
    next hlt => cases h; exact .finalize hlt
    next => cases h
  | start skipBackfill readable =>
    simp only [exec] at h
    split at h
    next hphase =>
      cases skipBackfill with
      | true => cases h; exact .skip hphase readable
      | false => cases h; exact .begin hphase readable
    next => cases h
  | page answered bumpFails =>
    simp only [exec] at h
    split at h
    next b hphase =>
      split at h
      next => cases h
      next hpage => cases h; exact .stop hphase hpage bumpFails
      next hpage =>
        split at h
        next hnext => cases h; exact .finish hphase hpage bumpFails hnext
        next tx page hnext =>
          cases h
          exact .turn hphase hpage bumpFails (cons_ne_nil tx page) hnext
    next => cases h
  | visit fetched fails =>
    simp only [exec] at h
    split at h
    next b hphase =>
      split at h
      next => cases h
      next tx page hpage =>
        split at h
        next hslot => cases h; exact .reach hphase hpage fetched fails hslot
        next hslot => cases h; exact .visit hphase hpage fetched fails hslot
    next => cases h
  | subscribe =>
    simp only [exec] at h
    split at h
    next hphase => cases h; exact .subscribe hphase
    next => cases h
  | notify i fails bumpFails =>
    simp only [exec] at h
    split at h
    next tx hphase htx => cases h; exact .notify hphase htx fails bumpFails
    next => cases h
  | crash => cases h; exact .crash

/-- A step leaves the cursor or raises it to the slot that `raise` names. -/
theorem Moves.cursor (hmoves : Moves sha256 decode c p d e d') :
    d'.sink.cursor p.name = d.sink.cursor p.name ∨
      d'.landed = d.landed ∧ ∃ slot, d.raise c p e = some slot ∧ d'.sink.cursor p.name = some slot := by
  cases hmoves with
  | land | finalize | skip | begin | stop => exact .inl rfl
  | @finish b h hpage bumpFails hnext =>
    by_cases hbump : 0 < b.lastSlot ∧ bumpFails = false
    · simp only [if_pos hbump]
      rcases Sink.bumpCursor_cursor p.name b.lastSlot d.sink with ⟨hsome, hraise⟩ | hsame
      · refine .inr ⟨trivial, b.lastSlot, ?_, hsome⟩
        simp only [raise, bump, h, hpage, hnext, hbump.2, decide_eq_true hbump.1,
          isEmpty_nil, Bool.and_self, if_true, Option.filter_some, hraise]
      · exact .inl hsame
    · exact .inl (by simp only [if_neg hbump])
  | turn | reach => exact .inl rfl
  | visit => exact .inl (congrFun (Sink.replay_cursors _ _) p.name)
  | subscribe => exact .inl rfl
  | @notify h i tx htx fails bumpFails =>
    simp only [Sink.notify_cursor]
    split
    next hbump =>
      obtain ⟨herr, rfl⟩ := hbump
      rcases Sink.bumpCursor_cursor p.name tx.slot d.sink with ⟨hsome, hraise⟩ | hsame
      · refine .inr ⟨trivial, tx.slot, ?_, hsome⟩
        simp [raise, bump, h, htx, herr, hraise]
      · exact .inl hsame
    next => exact .inl rfl
  | crash => exact .inl rfl

/-! ## What a session has covered is in the sink -/

/-- Every event below `slot` is in the sink, and nothing that lands later is below `slot`. -/
structure Safe (sha256 : String → Bytes) (decode : String → Option Bytes) (c : Chain)
    (p : Program) (landed : Nat) (sink : Sink) (slot : Slot) : Prop where
  reached : slot = 0 ∨ ∃ tx ∈ c.txs.take landed, tx.slot = slot
  below : ∀ tx ∈ c.txs.take landed, tx.err = false → tx.slot < slot →
    sink.Keeps sha256 decode p tx

namespace Safe

variable {landed : Nat} {sink sink' : Sink} {slot : Slot}

theorem zero : Safe sha256 decode c p landed sink 0 :=
  ⟨.inl rfl, fun _ _ _ hlt => absurd hlt (BitVec.not_lt_zero)⟩

theorem mono (h : Safe sha256 decode c p landed sink slot)
    (hext : sink.Extends sha256 decode c.toLedger sink') :
    Safe sha256 decode c p landed sink' slot :=
  ⟨h.reached, fun tx htx herr hlt => (h.below tx htx herr hlt).mono hext⟩

theorem land (h : Safe sha256 decode c p landed sink slot) (hlt : landed < c.txs.length) :
    Safe sha256 decode c p (landed + 1) sink slot := by
  have htake : c.txs.take (landed + 1) = c.txs.take landed ++ [c.txs[landed]] :=
    take_succ_eq_append_getElem hlt
  have hsorted : ∀ tx ∈ c.txs.take landed, tx.slot ≤ c.txs[landed].slot := by
    have hpair := c.sorted.sublist (take_sublist (landed + 1) c.txs)
    rw [htake, pairwise_append] at hpair
    exact fun tx htx => hpair.2.2 tx htx _ (mem_singleton_self _)
  constructor
  · rcases h.reached with hzero | ⟨tx, htx, rfl⟩
    · exact .inl hzero
    · exact .inr ⟨tx, by rw [htake]; exact mem_append_left _ htx, rfl⟩
  · intro tx htx herr hslot
    rw [htake, mem_append, mem_singleton] at htx
    rcases htx with htx | rfl
    · exact h.below tx htx herr hslot
    · -- a transaction that lands is not below the slot of one that had landed
      rcases h.reached with rfl | ⟨tx, htx, rfl⟩
      · exact absurd hslot BitVec.not_lt_zero
      · exact absurd hslot (BitVec.not_lt.2 (hsorted tx htx))

end Safe

/-- What the running session has covered is in the sink. -/
structure Core (sha256 : String → Bytes) (decode : String → Option Bytes) (c : Chain)
    (p : Program) (g : Session) (d : Daemon) : Prop where
  finalized_le : d.finalized ≤ d.landed
  landed_le : d.landed ≤ c.txs.length
  listed_le : g.listed ≤ d.finalized
  sink : d.sink.Of sha256 decode c.toLedger
  begun : Safe sha256 decode c p d.landed d.sink g.untilSlot
  recorded : ∀ tx ∈ c.txs, tx.err = false → tx.signature ∈ g.recorded →
    d.sink.Keeps sha256 decode p tx
  ran : g.ran = true → ∀ tx ∈ c.txs.take g.listed, tx.err = false → tx.signature ∉ g.failed →
    d.sink.Keeps sha256 decode p tx

/-- The backfill has visited the listed transactions from the newest one down to the page in
hand. -/
structure Walk (sha256 : String → Bytes) (decode : String → Option Bytes) (c : Chain)
    (p : Program) (g : Session) (d : Daemon) (b : Backfill) : Prop where
  untilSlot : b.untilSlot = g.untilSlot
  ran : g.ran = false
  lastSlot : b.lastSlot = 0 ∨ ∃ tx ∈ c.txs.take d.landed, tx.slot = b.lastSlot
  parts : ∃ older pending seen, c.txs.take g.listed = older ++ pending ++ seen ∧
    b.page = pending.reverse ∧ b.before = (pending ++ seen).head?.map signature ∧
    ∀ tx ∈ seen, tx.err = false → tx.signature ∉ g.failed → d.sink.Keeps sha256 decode p tx

structure Inv (sha256 : String → Bytes) (decode : String → Option Bytes) (c : Chain)
    (p : Program) (g : Session) (d : Daemon) : Prop extends Core sha256 decode c p g d where
  cursor : ∀ slot, d.sink.cursor p.name = some slot →
    Safe sha256 decode c p d.landed d.sink slot
  walk : ∀ b, d.phase = .backfill b → Walk sha256 decode c p g d b

variable {tx : Transaction}

theorem eq_of_signature {tx' : Transaction} (h : tx ∈ c.txs) (h' : tx' ∈ c.txs)
    (hs : tx.signature = tx'.signature) : tx = tx' :=
  inj_on_of_nodup_map c.signed h h' hs

theorem Core.keeps (h : Core sha256 decode c p g d) (htx : tx ∈ c.txs.take d.landed)
    (herr : tx.err = false) (hcovers : g.Covers c tx) :
    d.sink.Keeps sha256 decode p tx := by
  rcases hcovers with hslot | ⟨hran, hlisted, hfailed⟩ | hrecorded
  · exact h.begun.below tx htx herr hslot
  · obtain ⟨tx', htx', hs⟩ := List.mem_map.1 hlisted
    obtain rfl := eq_of_signature (mem_of_mem_take htx) (mem_of_mem_take htx') hs.symm
    exact h.ran hran tx htx' herr hfailed
  · exact h.recorded tx (mem_of_mem_take htx) herr hrecorded

theorem Inv.untilSlot (h : Inv sha256 decode c p g d) :
    Safe sha256 decode c p d.landed d.sink (d.untilSlot p) := by
  unfold Daemon.untilSlot
  cases hcursor : d.sink.cursor p.name with
  | none => exact .zero
  | some slot => exact h.cursor slot hcursor

theorem Inv.noLoss (h : Inv sha256 decode c p g d) : d.NoLoss sha256 decode c p := by
  intro tx htx herr row hrow
  by_cases hlt : tx.slot < d.untilSlot p
  · exact .inl (h.untilSlot.below tx htx herr hlt row hrow)
  · exact .inr (BitVec.not_lt.1 hlt)

theorem boot_inv : Inv sha256 decode c p {} boot where
  finalized_le := le_rfl
  landed_le := Nat.zero_le _
  listed_le := le_rfl
  sink := nofun
  begun := .zero
  recorded := nofun
  ran := nofun
  cursor := nofun
  walk := nofun

theorem Core.mono (h : Core sha256 decode c p g d)
    (hext : d.sink.Extends sha256 decode c.toLedger d'.sink) (hlanded : d'.landed = d.landed)
    (hfinalized : d'.finalized = d.finalized) : Core sha256 decode c p g d' where
  finalized_le := by rw [hfinalized, hlanded]; exact h.finalized_le
  landed_le := by rw [hlanded]; exact h.landed_le
  listed_le := by rw [hfinalized]; exact h.listed_le
  sink := hext.of
  begun := by rw [hlanded]; exact h.begun.mono hext
  recorded := fun tx htx herr hs => (h.recorded tx htx herr hs).mono hext
  ran := fun hran tx htx herr hfailed => (h.ran hran tx htx herr hfailed).mono hext

theorem Core.fail (h : Core sha256 decode c p g d) (signature : String) :
    Core sha256 decode c p { g with failed := signature :: g.failed } d :=
  { h with
    ran := fun hran tx htx herr hfailed =>
      h.ran hran tx htx herr fun hmem => hfailed (mem_cons_of_mem _ hmem) }

theorem Core.run (h : Core sha256 decode c p g d)
    (hall : ∀ tx ∈ c.txs.take g.listed, tx.err = false → tx.signature ∉ g.failed →
      d.sink.Keeps sha256 decode p tx) :
    Core sha256 decode c p { g with ran := true } d :=
  { h with ran := fun _ => hall }

variable {b : Backfill}

theorem Walk.exhausted (h : Walk sha256 decode c p g d b) (hpage : b.page = []) :
    ∃ older seen, c.txs.take g.listed = older ++ seen ∧ b.before = seen.head?.map signature ∧
      ∀ tx ∈ seen, tx.err = false → tx.signature ∉ g.failed → d.sink.Keeps sha256 decode p tx := by
  obtain ⟨older, pending, seen, hlist, hrev, hbefore, hseen⟩ := h.parts
  have hpending : pending = [] := reverse_eq_nil_iff.1 (hrev.symm.trans hpage)
  subst hpending
  exact ⟨older, seen, by simpa using hlist, hbefore, hseen⟩

def paged (d : Daemon) (b : Backfill) (g : Session) : Session :=
  { g with listed := if b.before.isNone then d.finalized else g.listed }

theorem Walk.nextPage (h : Core sha256 decode c p g d) (hwalk : Walk sha256 decode c p g d b)
    (hpage : b.page = []) :
    ∃ older seen, c.txs.take (paged d b g).listed = older ++ seen ∧
      d.nextPage c b = older.reverse.take PAGE_LIMIT ∧
      b.before = seen.head?.map signature ∧
      ∀ tx ∈ seen, tx.err = false → tx.signature ∉ g.failed → d.sink.Keeps sha256 decode p tx := by
  obtain ⟨older, seen, hlist, hbefore, hseen⟩ := hwalk.exhausted hpage
  have hnodup : ∀ n, ((c.txs.take n).map signature).Nodup := fun n =>
    c.signed.sublist ((take_sublist n c.txs).map _)
  cases seen with
  | nil =>
    -- the first page: whatever is final by now is listed
    have hnone : b.before = none := hbefore
    refine ⟨c.txs.take d.finalized, [], ?_, ?_, hbefore, hseen⟩
    · simp [paged, hnone]
    · simp [Daemon.nextPage, hnone, getSignatures]
  | cons tx seen =>
    have hsome : b.before.isNone = false := by rw [hbefore]; rfl
    have hlisted : (paged d b g).listed = g.listed := by simp [paged, hsome]
    have hsplit : c.txs.take d.finalized =
        older ++ (tx :: seen) ++ (c.txs.take d.finalized).drop g.listed := by
      have htake : (c.txs.take d.finalized).take g.listed = c.txs.take g.listed := by
        rw [take_take, Nat.min_eq_left h.listed_le]
      rw [← hlist, ← htake, take_append_drop]
    refine ⟨older, tx :: seen, hlisted ▸ hlist, ?_, hbefore, hseen⟩
    rw [Daemon.nextPage, hsplit, hbefore]
    refine getSignatures_older ?_ (fun hnil => absurd hnil (cons_ne_nil tx seen))
    rw [← hsplit]
    exact hnodup d.finalized

theorem Core.paged (h : Core sha256 decode c p g d) (hran : g.ran = false) (b : Backfill) :
    Core sha256 decode c p (Daemon.paged d b g) d where
  finalized_le := h.finalized_le
  landed_le := h.landed_le
  listed_le := by
    unfold Daemon.paged
    split
    · exact le_rfl
    · exact h.listed_le
  sink := h.sink
  begun := h.begun
  recorded := h.recorded
  ran := fun htrue => nomatch (hran.symm.trans htrue)

theorem watch_other (he : e = .land ∨ e = .finalize ∨ e = .subscribe ∨ e = .crash) :
    g.watch sha256 decode c p d e = g := by
  unfold watch
  rcases he with rfl | rfl | rfl | rfl <;> cases d.phase <;> rfl

theorem take_succ_mono {n : Nat} (h : tx ∈ c.txs.take n) :
    tx ∈ c.txs.take (n + 1) :=
  (take_subset_take_left c.txs (by omega)) h

theorem Inv.land (h : Inv sha256 decode c p g d) (hlt : d.landed < c.txs.length) :
    Inv sha256 decode c p g { d with landed := d.landed + 1 } where
  finalized_le := Nat.le_succ_of_le h.finalized_le
  landed_le := hlt
  listed_le := h.listed_le
  sink := h.sink
  begun := h.begun.land hlt
  recorded := h.recorded
  ran := h.ran
  cursor := fun slot hslot => (h.cursor slot hslot).land hlt
  walk := fun b hb =>
    { h.walk b hb with
      lastSlot := (h.walk b hb).lastSlot.imp_right fun ⟨tx, htx, hslot⟩ =>
        ⟨tx, take_succ_mono htx, hslot⟩ }

theorem Inv.finalize (h : Inv sha256 decode c p g d) (hlt : d.finalized < d.landed) :
    Inv sha256 decode c p g { d with finalized := d.finalized + 1 } :=
  { h with
    finalized_le := hlt
    listed_le := Nat.le_succ_of_le h.listed_le
    walk := fun b hb =>
      { h.walk b hb with } }

theorem Inv.phase (h : Inv sha256 decode c p g d) {phase : Phase}
    (hphase : ∀ b, phase ≠ .backfill b) :
    Inv sha256 decode c p g { d with phase := phase } :=
  { h with walk := fun b hb => absurd hb (hphase b) }

theorem Inv.session (h : Inv sha256 decode c p g d) {slot : Slot}
    (hslot : slot = d.untilSlot p ∨ slot = 0) (hphase : ∀ b, d.phase ≠ .backfill b) :
    Inv sha256 decode c p { untilSlot := slot } d :=
  { h with
    listed_le := Nat.zero_le _
    begun := by
      rcases hslot with rfl | rfl
      · exact h.untilSlot
      · exact .zero
    recorded := nofun
    ran := nofun
    walk := fun b hb => absurd hb (hphase b) }

theorem Walk.fresh (slot : Slot) :
    Walk sha256 decode c p { untilSlot := slot } d ⟨slot, none, [], 0⟩ where
  untilSlot := rfl
  ran := rfl
  lastSlot := .inl rfl
  parts := ⟨[], [], [], rfl, rfl, rfl, nofun⟩

variable {page : List Transaction}

theorem Walk.head (h : Walk sha256 decode c p g d b) (hpage : b.page = tx :: page) :
    ∃ older pending seen, c.txs.take g.listed = older ++ pending ++ tx :: seen ∧
      page = pending.reverse ∧
      b.before = (pending ++ tx :: seen).head?.map signature ∧
      ∀ t ∈ seen, t.err = false → t.signature ∉ g.failed → d.sink.Keeps sha256 decode p t := by
  obtain ⟨older, pending, seen, hlist, hrev, hbefore, hseen⟩ := h.parts
  have hpending : pending = page.reverse ++ [tx] := by
    rw [← reverse_reverse pending, ← hrev, hpage, reverse_cons]
  subst hpending
  exact ⟨older, page.reverse, seen, by simpa using hlist, by simp, by simpa using hbefore, hseen⟩

theorem Inv.raise_reached (h : Inv sha256 decode c p g d) {slot : Slot}
    (hraise : d.raise c p e = some slot) :
    slot = 0 ∨ ∃ tx ∈ c.txs.take d.landed, tx.slot = slot := by
  have hbump : d.bump c e = some slot := (Option.filter_eq_some_iff.1 hraise).1
  unfold bump at hbump
  split at hbump
  next b hphase =>
    split at hbump
    next =>
      obtain rfl := some.inj hbump
      exact (h.walk b hphase).lastSlot
    next => cases hbump
  next =>
    split at hbump
    next => cases hbump
    next tx htx =>
      split at hbump
      next => cases hbump
      next =>
        obtain rfl := some.inj hbump
        exact .inr ⟨tx, mem_of_getElem? htx, rfl⟩
  next => cases hbump

theorem Inv.cursor_step {g' : Session} (h : Inv sha256 decode c p g d)
    (hmoves : Moves sha256 decode c p d e d') (hcore : Core sha256 decode c p g' d')
    (hext : d.sink.Extends sha256 decode c.toLedger d'.sink) (hlanded : d'.landed = d.landed)
    (hcovered : d.Covered sha256 decode c p g' e) :
    ∀ slot, d'.sink.cursor p.name = some slot → Safe sha256 decode c p d'.landed d'.sink slot := by
  intro slot hslot
  rcases hmoves.cursor with hsame | ⟨-, slot', hraise, hslot'⟩
  · rw [hsame] at hslot
    rw [hlanded]
    exact (h.cursor slot hslot).mono hext
  · obtain rfl := some.inj (hslot.symm.trans hslot')
    constructor
    · rw [hlanded]
      exact h.raise_reached hraise
    · intro tx htx herr hlt row hrow
      rw [Covered, hraise] at hcovered
      have hcovers := hcovered tx (hlanded ▸ htx) hlt herr (emits_of_ownRow hrow)
      exact hcore.keeps htx herr hcovers row hrow

theorem Inv.finish (h : Inv sha256 decode c p g d) (hphase : d.phase = .backfill b)
    (hpage : b.page = []) (bumpFails : Bool) (hnext : d.nextPage c b = [])
    (hcovered : d.Covered sha256 decode c p { paged d b g with ran := true }
      (.page true bumpFails)) :
    Inv sha256 decode c p { paged d b g with ran := true } { d with
      phase := .starting
      sink := if 0 < b.lastSlot ∧ bumpFails = false then
        d.sink.bumpCursor p.name b.lastSlot else d.sink } := by
  have hwalk := h.walk b hphase
  obtain ⟨older, seen, hlist, hnewest, -, hseen⟩ := hwalk.nextPage h.toCore hpage
  have holder : older = [] := by
    rw [hnext] at hnewest
    rcases take_eq_nil_iff.1 hnewest.symm with h0 | hnil
    · cases h0
    · exact reverse_eq_nil_iff.1 hnil
  subst holder
  have hcore : Core sha256 decode c p { paged d b g with ran := true } d :=
    (h.toCore.paged hwalk.ran b).run (by rw [hlist]; exact hseen)
  have hext : d.sink.Extends sha256 decode c.toLedger (if 0 < b.lastSlot ∧ bumpFails = false then
      d.sink.bumpCursor p.name b.lastSlot else d.sink) := by
    split
    · exact ⟨fun _ hrow => hrow, h.sink⟩
    · exact .refl h.sink
  have hcore' : Core sha256 decode c p { paged d b g with ran := true } { d with
      phase := .starting
      sink := if 0 < b.lastSlot ∧ bumpFails = false then
        d.sink.bumpCursor p.name b.lastSlot else d.sink } := hcore.mono hext rfl rfl
  exact ⟨hcore', h.cursor_step (.finish hphase hpage bumpFails hnext) hcore' hext rfl hcovered,
    nofun⟩

theorem Inv.turn (h : Inv sha256 decode c p g d) (hphase : d.phase = .backfill b)
    (hpage : b.page = []) (hne : page ≠ []) (hnext : d.nextPage c b = page) :
    Inv sha256 decode c p { paged d b g with ran := false } { d with
      phase := .backfill { b with
        page := page, before := page.getLast?.map signature } } := by
  have hwalk := h.walk b hphase
  obtain ⟨older, seen, hlist, hnewest, -, hseen⟩ := hwalk.nextPage h.toCore hpage
  have hcore := h.toCore.paged hwalk.ran b
  have hfalse : ({ paged d b g with ran := false } : Session) = paged d b g := by
    simp [paged, hwalk.ran]
  rw [hfalse]
  refine ⟨hcore.mono (.refl h.sink) rfl rfl, h.cursor, fun b' hb' => ?_⟩
  cases hb'
  refine ⟨hwalk.untilSlot, hwalk.ran, hwalk.lastSlot, ?_⟩
  -- the page is the newest part of what was left
  have hrev : page = (older.drop (older.length - PAGE_LIMIT)).reverse := by
    rw [← hnext, hnewest, take_reverse]
  refine ⟨older.take (older.length - PAGE_LIMIT), older.drop (older.length - PAGE_LIMIT), seen,
    by rw [take_append_drop, hlist], hrev, ?_, hseen⟩
  have hdrop : older.drop (older.length - PAGE_LIMIT) ≠ [] := by
    intro hnil
    exact hne (by rw [hrev, hnil, reverse_nil])
  rw [hrev, getLast?_reverse, head?_append_of_ne_nil _ hdrop]

theorem Inv.reach (h : Inv sha256 decode c p g d) (hphase : d.phase = .backfill b)
    (hpage : b.page = tx :: page) (hslot : tx.slot < b.untilSlot) :
    Inv sha256 decode c p { g with ran := true } { d with phase := .starting } := by
  have hwalk := h.walk b hphase
  obtain ⟨older, pending, seen, hlist, -, -, hseen⟩ := hwalk.head hpage
  have hsorted := c.sorted.sublist (take_sublist g.listed c.txs)
  rw [hlist, pairwise_append] at hsorted
  have hcore : Core sha256 decode c p { g with ran := true } d := by
    refine h.toCore.run fun t ht herr hfailed => ?_
    have hlanded : t ∈ c.txs.take d.landed :=
      (take_subset_take_left c.txs (h.listed_le.trans h.finalized_le)) ht
    rw [hlist] at ht
    -- the older ones are below the cursor with which the session began
    have hbelow : t.slot ≤ tx.slot → d.sink.Keeps sha256 decode p t := by
      intro hle
      rw [hwalk.untilSlot] at hslot
      exact h.begun.below t hlanded herr (by bv_omega)
    rcases mem_append.1 ht with hold | hnew
    · exact hbelow (hsorted.2.2 t hold tx mem_cons_self)
    · rcases mem_cons.1 hnew with rfl | hnew
      · exact hbelow (BitVec.le_refl _)
      · exact hseen t hnew herr hfailed
  exact ⟨hcore.mono (.refl h.sink) rfl rfl, h.cursor, nofun⟩

theorem Inv.visit (h : Inv sha256 decode c p g d) (hphase : d.phase = .backfill b)
    (hpage : b.page = tx :: page) (fetched : Bool) (fails : Nat → Bool) :
    Inv sha256 decode c p
      (if fetched && recordsAll sha256 decode p tx fails then g
        else { g with failed := tx.signature :: g.failed })
      { d with
        sink := replay sha256 decode p fetched fails tx d.sink
        phase := .backfill { b with
          page := page
          lastSlot := if tx.err = false ∧ fetched = true then tx.slot else b.lastSlot } } := by
  have hwalk := h.walk b hphase
  obtain ⟨older, pending, seen, hlist, hrev, hbefore, hseen⟩ := hwalk.head hpage
  have hlisted : tx ∈ c.txs.take g.listed := by
    rw [hlist]
    exact mem_append_right _ mem_cons_self
  have hlanded : tx ∈ c.txs.take d.landed :=
    (take_subset_take_left c.txs (h.listed_le.trans h.finalized_le)) hlisted
  have htx : tx ∈ c.txs := mem_of_mem_take hlanded
  have hext := Sink.replay_extends (p := p) htx fetched fails h.sink
  have hcursor : ∀ slot, (replay sha256 decode p fetched fails tx d.sink).cursor p.name =
      some slot → Safe sha256 decode c p d.landed (replay sha256 decode p fetched fails tx d.sink)
        slot := by
    intro slot hslot
    rw [Sink.cursor, Sink.replay_cursors] at hslot
    exact (h.cursor slot hslot).mono hext
  have hlast : (if tx.err = false ∧ fetched = true then tx.slot else b.lastSlot) = 0 ∨
      ∃ t ∈ c.txs.take d.landed,
        t.slot = if tx.err = false ∧ fetched = true then tx.slot else b.lastSlot := by
    split
    · exact .inr ⟨tx, hlanded, rfl⟩
    · exact hwalk.lastSlot
  have hold : ∀ t ∈ seen, t.err = false → t.signature ∉ g.failed →
      (replay sha256 decode p fetched fails tx d.sink).Keeps sha256 decode p t :=
    fun t ht herr hfailed => (hseen t ht herr hfailed).mono hext
  split
  next hall =>
    refine ⟨h.toCore.mono hext rfl rfl, hcursor, fun b' hb' => ?_⟩
    cases hb'
    refine ⟨hwalk.untilSlot, hwalk.ran, hlast, older, pending, tx :: seen, hlist, hrev, hbefore,
      fun t ht herr hfailed => ?_⟩
    rcases mem_cons.1 ht with rfl | ht
    · exact Sink.replay_keeps htx h.sink herr hall
    · exact hold t ht herr hfailed
  next =>
    refine ⟨(h.toCore.fail tx.signature).mono hext rfl rfl, hcursor, fun b' hb' => ?_⟩
    cases hb'
    refine ⟨hwalk.untilSlot, hwalk.ran, hlast, older, pending, tx :: seen, hlist, hrev, hbefore,
      fun t ht herr hfailed => ?_⟩
    rcases mem_cons.1 ht with rfl | ht
    · exact absurd mem_cons_self hfailed
    · exact hold t ht herr fun hmem => hfailed (mem_cons_of_mem _ hmem)

theorem Inv.notify (h : Inv sha256 decode c p g d) (hphase : d.phase = .live) {i : Nat}
     (htx : (c.txs.take d.landed)[i]? = some tx) (fails : Nat → Bool)
    (bumpFails : Bool)
    (hcovered : d.Covered sha256 decode c p
      (if !tx.err && recordsAll sha256 decode p tx fails then
        { g with recorded := tx.signature :: g.recorded } else g) (.notify i fails bumpFails)) :
    Inv sha256 decode c p
      (if !tx.err && recordsAll sha256 decode p tx fails then
        { g with recorded := tx.signature :: g.recorded } else g)
      { d with sink := Indexer.notify sha256 decode p fails bumpFails tx d.sink } := by
  have hmem : tx ∈ c.txs := mem_of_mem_take (mem_of_getElem? htx)
  have hext := Sink.notify_extends (p := p) hmem fails bumpFails h.sink
  have hcore : Core sha256 decode c p
      (if !tx.err && recordsAll sha256 decode p tx fails then
        { g with recorded := tx.signature :: g.recorded } else g)
      { d with sink := Indexer.notify sha256 decode p fails bumpFails tx d.sink } := by
    have hkept : Core sha256 decode c p g { d with
        sink := Indexer.notify sha256 decode p fails bumpFails tx d.sink } :=
      h.toCore.mono hext rfl rfl
    split
    next hall =>
      refine { hkept with recorded := fun t ht herr hrecorded => ?_ }
      rcases mem_cons.1 hrecorded with hs | hrecorded
      · obtain rfl := eq_of_signature ht hmem hs
        exact Sink.notify_keeps hmem bumpFails h.sink herr (Bool.and_eq_true_iff.1 hall).2
      · exact hkept.recorded t ht herr hrecorded
    next => exact hkept
  refine ⟨hcore, h.cursor_step (.notify hphase htx fails bumpFails) hcore hext rfl hcovered,
    fun b hb => ?_⟩
  rw [hphase] at hb
  cases hb

theorem Inv.step (h : Inv sha256 decode c p g d) (hstep : Step sha256 decode c p d e d')
    (hcovered : d.Covered sha256 decode c p (g.watch sha256 decode c p d e) e) :
    Inv sha256 decode c p (g.watch sha256 decode c p d e) d' := by
  have hmoves := Moves.of_exec hstep
  cases hmoves with
  | land hlt =>
    rw [watch_other (.inl rfl)]
    exact h.land hlt
  | finalize hlt =>
    rw [watch_other (.inr (.inl rfl))]
    exact h.finalize hlt
  | skip hphase readable =>
    have hdown : ∀ b, d.phase ≠ .backfill b := fun b hb => by rw [hphase] at hb; cases hb
    have hwatch : g.watch sha256 decode c p d (.start true readable) =
        { untilSlot := d.untilSlot p } := by
      simp [watch, hphase]
    rw [hwatch]
    exact (h.session (.inl rfl) hdown).phase (nofun)
  | begin hphase readable =>
    have hdown : ∀ b, d.phase ≠ .backfill b := fun b hb => by rw [hphase] at hb; cases hb
    have hwatch : g.watch sha256 decode c p d (.start false readable) =
        { untilSlot := if readable then d.untilSlot p else 0 } := by
      simp [watch, hphase]
    rw [hwatch]
    have hslot : (if readable then d.untilSlot p else 0) = d.untilSlot p ∨
        (if readable then d.untilSlot p else 0) = 0 := by
      cases readable <;> simp
    have hsession := h.session hslot hdown
    exact { hsession with
      walk := fun b hb => by
        cases hb
        exact Walk.fresh _ }
  | stop hphase hpage bumpFails =>
    have hwatch : g.watch sha256 decode c p d (.page false bumpFails) = g := by
      simp [watch]
    rw [hwatch]
    exact h.phase (nofun)
  | @finish b hphase hpage bumpFails hnext =>
    have hwatch : g.watch sha256 decode c p d (.page true bumpFails) =
        { paged d b g with ran := true } := by
      simp [watch, hphase, hnext, paged]
    rw [hwatch] at hcovered ⊢
    exact h.finish hphase hpage bumpFails hnext hcovered
  | @turn b hphase hpage bumpFails page hne hnext =>
    have hwatch : g.watch sha256 decode c p d (.page true bumpFails) =
        { paged d b g with ran := false } := by
      simp [watch, hphase, hnext, paged, hne]
    rw [hwatch]
    exact h.turn hphase hpage hne hnext
  | @reach b hphase tx page hpage fetched fails hslot =>
    have hwatch : g.watch sha256 decode c p d (.visit fetched fails) = { g with ran := true } := by
      simp [watch, hphase, hpage, hslot]
    rw [hwatch]
    exact h.reach hphase hpage hslot
  | @visit b hphase tx page hpage fetched fails hslot =>
    have hwatch : g.watch sha256 decode c p d (.visit fetched fails) =
        if fetched && recordsAll sha256 decode p tx fails then g
        else { g with failed := tx.signature :: g.failed } := by
      simp [watch, hphase, hpage, if_neg hslot]
    rw [hwatch]
    exact h.visit hphase hpage fetched fails
  | subscribe =>
    rw [watch_other (.inr (.inr (.inl rfl)))]
    exact h.phase (nofun)
  | @notify hphase i tx htx fails bumpFails =>
    have hwatch : g.watch sha256 decode c p d (.notify i fails bumpFails) =
        if !tx.err && recordsAll sha256 decode p tx fails then
          { g with recorded := tx.signature :: g.recorded } else g := by
      simp [watch, hphase, htx]
    rw [hwatch] at hcovered ⊢
    exact h.notify hphase htx fails bumpFails hcovered
  | crash =>
    rw [watch_other (.inr (.inr (.inr rfl)))]
    exact h.phase (nofun)

theorem inv_of_run {hist : List (Daemon × Event)} (run : Run (Step sha256 decode c p) boot hist d)
    (hcovered : AllCovered sha256 decode c p hist) :
    Inv sha256 decode c p (Session.of sha256 decode c p hist) d ∧
      ∀ d' ∈ hist.map Prod.fst, d'.NoLoss sha256 decode c p := by
  induction run with
  | nil => exact ⟨boot_inv, nofun⟩
  | @step hist t t' e run hstep ih =>
    obtain ⟨hinv, hbefore⟩ := ih hcovered.2
    refine ⟨hinv.step hstep hcovered.1, fun d' hd' => ?_⟩
    rcases mem_cons.1 hd' with rfl | hd'
    · exact hinv.noLoss
    · exact hbefore d' hd'

end Daemon

/-- No event is lost in a run in which every step that raises the cursor passes only transactions
that its session covered. -/
theorem keeps_events (sha256 : String → Bytes) (decode : String → Option Bytes) (c : Chain)
    (p : Program) {hist : List (Daemon × Event)} {d : Daemon}
    (run : Run (Daemon.Step sha256 decode c p) .boot hist d)
    (hcovered : Daemon.AllCovered sha256 decode c p hist) :
    ∀ d' ∈ d :: hist.map Prod.fst, d'.NoLoss sha256 decode c p := by
  obtain ⟨hinv, hbefore⟩ := Daemon.inv_of_run run hcovered
  exact forall_mem_cons.2 ⟨hinv.noLoss, hbefore⟩

/-! ## What a run does to the sink -/

structure Sink.Grows (sink sink' : Sink) : Prop where
  rows : sink.events <+: sink'.events
  keys : (sink.events.map EventRow.key).Nodup → (sink'.events.map EventRow.key).Nodup
  cursor : ∀ name slot, sink.cursor name = some slot →
    ∃ slot', sink'.cursor name = some slot' ∧ slot.toInt ≤ slot'.toInt

namespace Sink

variable {a b d : Sink}

theorem Grows.refl : a.Grows a := ⟨prefix_rfl, id, fun _ slot h => ⟨slot, h, le_rfl⟩⟩

theorem Grows.trans (h : a.Grows b) (h' : b.Grows d) : a.Grows d := by
  refine ⟨h.rows.trans h'.rows, h'.keys ∘ h.keys, fun name slot hslot => ?_⟩
  obtain ⟨slot', hslot', hle⟩ := h.cursor name slot hslot
  obtain ⟨slot'', hslot'', hle'⟩ := h'.cursor name slot' hslot'
  exact ⟨slot'', hslot'', hle.trans hle'⟩

theorem recordEvent_grows (row : EventRow) : a.Grows (a.recordEvent row) := by
  unfold recordEvent
  split
  next => exact .refl
  next hfresh =>
    refine ⟨prefix_append _ _, fun hnodup => ?_, Grows.refl.cursor⟩
    rw [map_append, map_singleton, ← concat_eq_append]
    exact hnodup.concat hfresh

theorem bumpCursor_grows (program : String) (slot : Slot) : a.Grows (a.bumpCursor program slot) := by
  refine ⟨prefix_rfl, id, fun name last hlast => ?_⟩
  by_cases hname : name = program
  · subst hname
    rw [cursor] at hlast
    simp only [cursor, bumpCursor, Function.update_self, hlast, BitVec.slt_iff_toInt_lt]
    split
    next hlt => exact ⟨slot, rfl, hlt.le⟩
    next => exact ⟨last, rfl, le_rfl⟩
  · exact ⟨last, (Function.update_of_ne hname _ _).trans hlast, le_rfl⟩

theorem recordLogs_grows (pid : String) (fails : Nat → Bool) (tx : Transaction)
    (lines : List String) (i : Nat) : a.Grows (recordLogs sha256 decode pid fails tx lines i a) := by
  induction lines generalizing a i with
  | nil => exact .refl
  | cons line rest ih =>
    unfold recordLogs
    split
    · exact ih (i + 1)
    · split
      · exact ih (i + 1)
      · exact (recordEvent_grows _).trans (ih (i + 1))

end Sink

/-- Through crashes, failed calls and restarts that read transactions again, the recorded rows
stay, no event is recorded twice and no cursor goes back. -/
theorem sink_grows {d d' : Daemon} {hist : List (Daemon × Event)}
    (run : Run (Daemon.Step sha256 decode c p) d hist d') : d.sink.Grows d'.sink := by
  refine run.invariant (P := fun t => d.sink.Grows t.sink) .refl fun t e t' ht hstep => ht.trans ?_
  cases Daemon.Moves.of_exec hstep with
  | finish =>
    dsimp only
    split
    · exact Sink.bumpCursor_grows ..
    · exact .refl
  | visit =>
    dsimp only [replay]
    split_ifs
    · exact .refl
    · exact Sink.recordLogs_grows ..
    · exact .refl
  | notify =>
    dsimp only [notify]
    split_ifs
    · exact .refl
    · exact Sink.recordLogs_grows ..
    · exact (Sink.recordLogs_grows ..).trans (Sink.bumpCursor_grows ..)
  | _ => exact .refl

end Cursor

/-! ## Two withdrawals -/

namespace Withdrawals

def treasuryId : ProgramId :=
  ⟨"2KBH4dhAM8fvix5sB44f55Hy6mE4HgeMMbm3htZTJNm7", by decide +kernel⟩

def withdrawal (signature : String) (slot : Slot) : Transaction where
  signature
  slot
  err := false
  trace := .call treasuryId (.data "3HIZDwBzq0o=" .done) none .done
  short := by
    show (3 : Nat) ≤ 2 ^ 32
    omega

def chain : Chain where
  txs := [withdrawal "first" 5, withdrawal "second" 9]
  signed := by decide +kernel
  sorted := by simp [withdrawal]

abbrev exec := Daemon.exec Treasury.sha256 Treasury.decode chain Treasury.program

def calls : Nat → Bool := fun _ => false

/-- The first withdrawal is backfilled and the second one notified. -/
def covered : List Event :=
  [.land, .finalize, .start false true, .page true false, .visit true calls, .page true false,
    .subscribe, .land, .notify 1 calls false]

/-- The backfill stops on an error, and the second withdrawal is notified. -/
def uncovered : List Event :=
  [.land, .finalize, .start false true, .page false false, .subscribe, .land,
    .notify 1 calls false]

end Withdrawals

open Withdrawals (chain covered exec uncovered withdrawal)

theorem withdrawals_kept : ∃ hist d,
    Run (Daemon.Step Treasury.sha256 Treasury.decode Withdrawals.chain Treasury.program)
      .boot hist d ∧
    d.sink.cursor Treasury.program.name = some 9 ∧
    ∀ d' ∈ d :: hist.map Prod.fst,
      d'.NoLoss Treasury.sha256 Treasury.decode Withdrawals.chain Treasury.program := by
  have hfacts : (traceAll exec [] .boot covered).toOption.map
      (fun r => decide (Daemon.AllCovered Treasury.sha256 Treasury.decode chain
        Treasury.program r.1 ∧ r.2.sink.cursor Treasury.program.name = some 9)) = some true := by
    decide +kernel
  obtain ⟨⟨hist, d⟩, htrace, hgood⟩ := toOption_map_eq_some.1 hfacts
  obtain ⟨hcovered, hcursor⟩ := of_decide_eq_true hgood
  have run := Run.nil.traceAll htrace
  exact ⟨hist, d, run, hcursor, keeps_events _ _ _ _ run hcovered⟩

/-- After a failed backfill the live tail raises the cursor past the first withdrawal. -/
theorem not_keeps_events : ∃ hist d,
    Run (Daemon.Step Treasury.sha256 Treasury.decode Withdrawals.chain Treasury.program)
      .boot hist d ∧
    ¬ d.NoLoss Treasury.sha256 Treasury.decode Withdrawals.chain Treasury.program := by
  have hfacts : (traceAll exec [] .boot uncovered).toOption.map
      (fun r => decide (r.2.landed = 2 ∧ r.2.untilSlot Treasury.program = 9 ∧
        ∀ row ∈ r.2.sink.events, row.signature = "second")) = some true := by decide +kernel
  obtain ⟨⟨hist, d⟩, htrace, hgood⟩ := toOption_map_eq_some.1 hfacts
  obtain ⟨hlanded, huntil, hrows⟩ := of_decide_eq_true hgood
  refine ⟨hist, d, Run.nil.traceAll htrace, fun hno => ?_⟩
  have hmem : withdrawal "first" 5 ∈ chain.txs.take d.landed := by
    rw [hlanded]
    exact mem_cons_self
  have hown : Daemon.OwnRow Treasury.sha256 Treasury.decode Treasury.program
      (withdrawal "first" 5)
      (eventRow (withdrawal "first" 5) 1
        (⟨"aeqi_treasury", "TreasuryWithdrew"⟩, "3HIZDwBzq0o=")) :=
    ⟨1, by decide +kernel, isRow_iff_eventOf.2
      ⟨"Program data: 3HIZDwBzq0o=", _, by decide +kernel, by decide +kernel, rfl⟩⟩
  rcases hno _ hmem rfl _ hown with hrow | hslot
  · exact absurd (hrows _ hrow) (by decide +kernel)
  · rw [huntil] at hslot
    exact nomatch hslot

/-- A restart reads the second withdrawal again. -/
theorem withdrawals_grow : ∃ hist d,
    Run (Daemon.Step Treasury.sha256 Treasury.decode chain Treasury.program) .boot hist d ∧
    d.sink.events.length = 2 ∧ Daemon.boot.sink.Grows d.sink := by
  have hfacts : (traceAll exec [] .boot (covered ++ [.finalize, .crash, .start false true,
      .page true false, .visit true Withdrawals.calls])).toOption.map
        (fun r => decide (r.2.sink.events.length = 2)) = some true := by decide +kernel
  obtain ⟨⟨hist, d⟩, htrace, hlength⟩ := toOption_map_eq_some.1 hfacts
  have run := Run.nil.traceAll htrace
  exact ⟨hist, d, run, of_decide_eq_true hlength, sink_grows run⟩

end Aeqi.Indexer
