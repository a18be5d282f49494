import Aeqi.Indexer.Events

/-!
# The daemon and its cursor

What `main.rs` and `backfill.rs` do for one program, one call at a time: a session begins with
a backfill that walks the finalized signatures of the program newest first, page by page, down
to the cursor it finds, and goes on with the live tail. Any call may fail and the process may
stop at any point. Only the rows and the cursor of this program are looked at; the tasks of
the other programs write to neither.

`Session` is what a reader of the calls can tell of the session that runs; the daemon does not
keep it.
-/

namespace Aeqi.Indexer

open Aeqi.Lib

/-- The transactions that mention a program, oldest first. -/
structure Chain extends Ledger where
  sorted : txs.Pairwise fun a b => a.slot ≤ b.slot

/-! ## `backfill_program` -/

def PAGE_LIMIT : Nat := 1000

/-- `getSignaturesForAddress`: newest first, older than `before`. -/
def getSignatures (finalized : List Transaction) : Option String → List Transaction
  | none => finalized.reverse.take PAGE_LIMIT
  | some before =>
    ((finalized.reverse.dropWhile fun tx => tx.signature != before).drop 1).take PAGE_LIMIT

/-- The variables of the loop; `page` is what is left of the page in hand, and `before` is its
last signature. -/
structure Backfill where
  untilSlot : Slot
  before : Option String := none
  page : List Transaction := []
  lastSlot : Slot := 0

inductive Phase
  | down
  | backfill (b : Backfill)
  /-- The backfill has returned, `Ok` or `Err`, or was skipped. -/
  | starting
  | live

/-- `landed` transactions of the chain are confirmed, `finalized` of them are final. -/
structure Daemon where
  landed : Nat
  finalized : Nat
  sink : Sink
  phase : Phase

inductive Event
  | land
  | finalize
  /-- The process starts; where the cursor cannot be read it counts as absent. -/
  | start (skipBackfill readable : Bool)
  | page (answered bumpFails : Bool)
  | visit (fetched : Bool) (fails : Nat → Bool)
  | subscribe
  | notify (i : Nat) (fails : Nat → Bool) (bumpFails : Bool)
  /-- The process stops, or the subscription ends. -/
  | crash

namespace Daemon

def boot : Daemon where
  landed := 0
  finalized := 0
  sink := Sink.empty
  phase := .down

/-- `sink.cursor(program_name)?.unwrap_or(0)`. -/
def untilSlot (p : Program) (d : Daemon) : Slot := (d.sink.cursor p.name).getD 0

section Step

variable (sha256 : String → Bytes) (decode : String → Option Bytes) (c : Chain) (p : Program)

def nextPage (d : Daemon) (b : Backfill) : List Transaction :=
  getSignatures (c.txs.take d.finalized) b.before

def exec (d : Daemon) : Event → Except Unit Daemon
  | .land =>
    if d.landed < c.txs.length then .ok { d with landed := d.landed + 1 } else .error ()
  | .finalize =>
    if d.finalized < d.landed then .ok { d with finalized := d.finalized + 1 } else .error ()
  | .start skipBackfill readable =>
    match d.phase with
    | .down =>
      if skipBackfill then
        .ok { d with phase := .starting }
      else
        .ok { d with phase := .backfill ⟨if readable then d.untilSlot p else 0, none, [], 0⟩ }
    | _ => .error ()
  | .page answered bumpFails =>
    match d.phase with
    | .backfill b =>
      match b.page, answered with
      | _ :: _, _ => .error ()
      | [], false => .ok { d with phase := .starting }
      | [], true =>
        match nextPage c d b with
        | [] => .ok { d with
            phase := .starting
            sink := if 0 < b.lastSlot ∧ bumpFails = false then
              d.sink.bumpCursor p.name b.lastSlot else d.sink }
        | tx :: page => .ok { d with
            phase := .backfill { b with
              page := tx :: page
              before := (tx :: page).getLast?.map Transaction.signature } }
    | _ => .error ()
  | .visit fetched fails =>
    match d.phase with
    | .backfill b =>
      match b.page with
      | [] => .error ()
      | tx :: page =>
        if tx.slot < b.untilSlot then
          .ok { d with phase := .starting }
        else
          .ok { d with
            sink := replay sha256 decode p fetched fails tx d.sink
            phase := .backfill { b with
              page := page
              lastSlot := if tx.err = false ∧ fetched = true then tx.slot else b.lastSlot } }
    | _ => .error ()
  | .subscribe =>
    match d.phase with
    | .starting => .ok { d with phase := .live }
    | _ => .error ()
  | .notify i fails bumpFails =>
    match d.phase, (c.txs.take d.landed)[i]? with
    | .live, some tx =>
      .ok { d with sink := notify sha256 decode p fails bumpFails tx d.sink }
    | _, _ => .error ()
  | .crash => .ok { d with phase := .down }

abbrev Step : Daemon → Event → Daemon → Prop := okStep (exec sha256 decode c p)

end Step

end Daemon

/-! ## What a session has covered -/

section Session

variable (sha256 : String → Bytes) (decode : String → Option Bytes)

/-- Line `i` of the log is an event that the program itself emitted. -/
def ownLine (p : Program) (tx : Transaction) (i : Nat) : Bool :=
  match tx.emitted[i]? with
  | none => false
  | some (top, line) => top == some p.pubkey && (eventOf sha256 decode p.pubkey line).isSome

def emits (p : Program) (tx : Transaction) : Bool :=
  (List.range tx.emitted.length).any (ownLine sha256 decode p tx)

/-- No call of `record_event` for an event of the program fails. -/
def recordsAll (p : Program) (tx : Transaction) (fails : Nat → Bool) : Bool :=
  (List.range tx.emitted.length).all fun i => !(ownLine sha256 decode p tx i && fails i)

/-- The session that runs: the cursor it began with, how many finalized transactions its first
page began with, whether its backfill ran to its end, the signatures for which one of the
calls of the backfill failed and those that the live tail recorded. -/
structure Session where
  untilSlot : Slot := 0
  listed : Nat := 0
  ran : Bool := false
  failed : List String := []
  recorded : List String := []

namespace Session

variable (c : Chain) (p : Program)

def watch (d : Daemon) (e : Event) (g : Session) : Session :=
  match d.phase, e with
  | .down, .start skipBackfill readable =>
    { untilSlot := if skipBackfill || readable then d.untilSlot p else 0 }
  | .backfill b, .page true _ =>
    let listed := if b.before.isNone then d.finalized else g.listed
    { g with listed, ran := (d.nextPage c b).isEmpty }
  | .backfill b, .visit fetched fails =>
    match b.page with
    | [] => g
    | tx :: _ =>
      if tx.slot < b.untilSlot then { g with ran := true }
      else if fetched && recordsAll sha256 decode p tx fails then g
      else { g with failed := tx.signature :: g.failed }
  | .live, .notify i fails _ =>
    match (c.txs.take d.landed)[i]? with
    | none => g
    | some tx =>
      if !tx.err && recordsAll sha256 decode p tx fails then
        { g with recorded := tx.signature :: g.recorded }
      else g
  | _, _ => g

def of : List (Daemon × Event) → Session
  | [] => {}
  | (d, e) :: hist => (of hist).watch sha256 decode c p d e

/-- The session began above the transaction, or its backfill ran to its end and no call for
the transaction failed, or its live tail recorded the transaction. -/
def Covers (g : Session) (tx : Transaction) : Prop :=
  tx.slot < g.untilSlot ∨
    g.ran = true ∧ tx.signature ∈ (c.txs.take g.listed).map Transaction.signature ∧
      tx.signature ∉ g.failed ∨
    tx.signature ∈ g.recorded

instance (g : Session) (tx : Transaction) : Decidable (g.Covers c tx) := by
  unfold Covers
  infer_instance

end Session

namespace Daemon

variable (c : Chain) (p : Program)

/-- The slot that a step hands to `bump_cursor`. -/
def bump (d : Daemon) (e : Event) : Option Slot :=
  match d.phase, e with
  | .backfill b, .page true false =>
    if b.page.isEmpty && (d.nextPage c b).isEmpty && decide (0 < b.lastSlot) then
      some b.lastSlot
    else none
  | .live, .notify i _ false =>
    match (c.txs.take d.landed)[i]? with
    | none => none
    | some tx => if tx.err then none else some tx.slot
  | _, _ => none

def raise (d : Daemon) (e : Event) : Option Slot :=
  (d.bump c e).filter fun slot => (d.sink.cursor p.name).all fun last => last.slt slot

/-- The step raises the cursor past no transaction with an event that the session `g` did not
cover. -/
def Covered (g : Session) (d : Daemon) (e : Event) : Prop :=
  match d.raise c p e with
  | none => True
  | some slot => ∀ tx ∈ c.txs.take d.landed, tx.slot < slot → tx.err = false →
      emits sha256 decode p tx = true → g.Covers c tx

instance (g : Session) (d : Daemon) (e : Event) :
    Decidable (d.Covered sha256 decode c p g e) := by
  unfold Covered
  split <;> infer_instance

/-- Every step of a history raises the cursor past covered transactions only. -/
def AllCovered : List (Daemon × Event) → Prop
  | [] => True
  | (d, e) :: hist =>
    d.Covered sha256 decode c p (Session.of sha256 decode c p ((d, e) :: hist)) e ∧
      AllCovered hist

instance AllCovered.decidable :
    ∀ hist, Decidable (AllCovered sha256 decode c p hist)
  | [] => isTrue trivial
  | (d, e) :: hist => by
    unfold AllCovered
    have := AllCovered.decidable hist
    infer_instance

def OwnRow (tx : Transaction) (row : EventRow) : Prop :=
  ∃ i, ownLine sha256 decode p tx i = true ∧ IsRow sha256 decode p tx i row

/-- Every event of a successful transaction is in the sink, or the next backfill visits the
transaction. -/
def NoLoss (d : Daemon) : Prop :=
  ∀ tx ∈ c.txs.take d.landed, tx.err = false → ∀ row, OwnRow sha256 decode p tx row →
    row ∈ d.sink.events ∨ d.untilSlot p ≤ tx.slot

end Daemon

end Session

end Aeqi.Indexer
