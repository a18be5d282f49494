import Aeqi.Indexer.Events

/-!
# Whose events the indexer records

`ingest` reads any transactions of a ledger along either path, any number of times, with
any failures of the calls on the way. The rows under a program are the lines of these
transactions that begin with one of its discriminators, whoever emitted them
(`mem_ingest`): they are the program's own exactly when no other program of such a
transaction emitted a line that begins like that (`events_by_discriminator`).
-/

namespace Aeqi.Indexer

inductive Path
  | live (bumpFails : Bool)
  | backfill (fetched : Bool)

/-- One transaction as one of the two paths reads it for a subscribed program. -/
structure Reading (L : Ledger) where
  program : Program
  tx : Transaction
  mem : tx ∈ L.txs
  path : Path
  fails : Nat → Bool

section Ingest

variable (sha256 : String → Bytes) (decode : String → Option Bytes) {L : Ledger}

namespace Reading

def run (r : Reading L) (sink : Sink) : Sink :=
  match r.path with
  | .live bumpFails => notify sha256 decode r.program r.fails bumpFails r.tx sink
  | .backfill fetched => replay sha256 decode r.program fetched r.fails r.tx sink

/-- The transaction succeeded and the path got to see its log. -/
def Reads (r : Reading L) : Prop := r.tx.err = false ∧ r.path ≠ .backfill false

/-- The row that this reading makes under `p` of a line emitted inside of `top`. -/
def Makes (r : Reading L) (p : Program) (top : Option String) (row : EventRow) : Prop :=
  r.program = p ∧ r.Reads ∧ ∃ i payload event, r.fails i = false ∧ r.tx.DataLine i top payload ∧
    eventNamed sha256 decode p.pubkey payload = some event ∧
    row = eventRow r.tx i (event, payload)

end Reading

def ingestFrom (sink : Sink) : List (Reading L) → Sink
  | [] => sink
  | r :: readings => ingestFrom (r.run sha256 decode sink) readings

def ingest (readings : List (Reading L)) : Sink := ingestFrom sha256 decode Sink.empty readings

/-- The rows under `p` are exactly what `p` emitted while it was the innermost program. -/
def AttributesToEmitter (readings : List (Reading L)) (p : Program) : Prop :=
  ∀ row, row.program = p.name → (row ∈ (ingest sha256 decode readings).events ↔
    ∃ r ∈ readings, r.Makes sha256 decode p (some p.pubkey) row)

variable {sha256 decode}

namespace Reading

variable {row : EventRow} {r : Reading L} {p : Program}

theorem makes_iff :
    (∃ top, r.Makes sha256 decode p top row) ↔
      r.program = p ∧ r.Reads ∧ ∃ i, r.fails i = false ∧ IsRow sha256 decode p r.tx i row := by
  constructor
  · rintro ⟨top, hp, hreads, i, payload, event, hfails, hline, hevent, hrow⟩
    exact ⟨hp, hreads, i, hfails, top, payload, event, hline, hevent, hrow⟩
  · rintro ⟨hp, hreads, i, hfails, top, payload, event, hline, hevent, hrow⟩
    exact ⟨top, hp, hreads, i, payload, event, hfails, hline, hevent, hrow⟩

theorem mem_run {sink : Sink} (hsink : sink.Of sha256 decode L) :
    row ∈ (r.run sha256 decode sink).events ↔
      row ∈ sink.events ∨ ∃ p top, r.Makes sha256 decode p top row := by
  have hlogs := mem_recordLogs (p := r.program) r.mem r.fails hsink (r := row)
  have hmakes : (∃ p top, r.Makes sha256 decode p top row) ↔
      r.Reads ∧ ∃ i, r.fails i = false ∧ IsRow sha256 decode r.program r.tx i row := by
    constructor
    · rintro ⟨p, hrow⟩
      obtain ⟨rfl, hreads, hrow⟩ := makes_iff.1 hrow
      exact ⟨hreads, hrow⟩
    · rintro ⟨hreads, hrow⟩
      exact ⟨r.program, makes_iff.2 ⟨rfl, hreads, hrow⟩⟩
  rw [hmakes]
  unfold run Reads
  cases herr : r.tx.err with
  | true => cases r.path <;> simp [notify, replay, herr]
  | false =>
    cases hpath : r.path with
    | live bumpFails =>
      cases bumpFails <;> simpa [notify, herr] using hlogs
    | backfill fetched =>
      cases fetched with
      | true => simpa [replay, herr] using hlogs
      | false => simp [replay]

variable {top : Option String}

theorem Makes.hasRow (h : r.Makes sha256 decode p top row) : L.HasRow sha256 decode row := by
  obtain ⟨-, -, i, -, hrow⟩ := makes_iff.1 ⟨top, h⟩
  exact ⟨p, r.tx, r.mem, i, hrow⟩

theorem Makes.program_eq (h : r.Makes sha256 decode p top row) : row.program = p.name := by
  obtain ⟨-, -, i, -, hrow⟩ := makes_iff.1 ⟨top, h⟩
  exact hrow.program

theorem Makes.emitter {r' : Reading L} {top' : Option String} (h : r.Makes sha256 decode p top row)
    (h' : r'.Makes sha256 decode p top' row) : top = top' := by
  obtain ⟨-, -, i, _, _, -, hline, -, rfl⟩ := h
  obtain ⟨-, -, j, _, _, -, hline', -, hrow⟩ := h'
  have htx : r.tx = r'.tx :=
    List.inj_on_of_nodup_map L.signed r.mem r'.mem (congrArg EventRow.signature hrow)
  have hij : i = j := by
    simpa only [eventRow, Nat.mod_eq_of_lt hline.lt, Nat.mod_eq_of_lt hline'.lt] using
      congrArg EventRow.logIndex hrow
  rw [← htx, ← hij] at hline'
  have hpair := Option.some.inj (hline.symm.trans hline')
  exact congrArg Prod.fst hpair

end Reading

theorem ingestFrom_of {sink : Sink} (hsink : sink.Of sha256 decode L)
    (readings : List (Reading L)) {row : EventRow} :
    row ∈ (ingestFrom sha256 decode sink readings).events ↔
      row ∈ sink.events ∨ ∃ r ∈ readings, ∃ p top, r.Makes sha256 decode p top row := by
  induction readings generalizing sink with
  | nil => simp [ingestFrom]
  | cons r readings ih =>
    have hnext : (r.run sha256 decode sink).Of sha256 decode L := by
      intro row hrow
      rcases (Reading.mem_run hsink).1 hrow with hrow | ⟨p, top, hmakes⟩
      · exact hsink row hrow
      · exact hmakes.hasRow
    rw [ingestFrom, ih hnext, Reading.mem_run hsink]
    simp [or_assoc]

theorem mem_ingest (readings : List (Reading L)) {p : Program} {row : EventRow}
    (hp : row.program = p.name) :
    row ∈ (ingest sha256 decode readings).events ↔
      ∃ r ∈ readings, ∃ top, r.Makes sha256 decode p top row := by
  have hempty : Sink.empty.Of sha256 decode L := by
    intro row hrow
    cases hrow
  rw [ingest, ingestFrom_of hempty]
  constructor
  · rintro (hrow | ⟨r, hr, q, top, hmakes⟩)
    · cases hrow
    · have hqp : q = p := Program.name_injective (hmakes.program_eq.symm.trans hp)
      exact ⟨r, hr, top, hqp ▸ hmakes⟩
  · rintro ⟨r, hr, top, hmakes⟩
    exact .inr ⟨r, hr, p, top, hmakes⟩

end Ingest

/-! ## The discriminator decides -/

/-- A line is recorded under `p` exactly when it begins with a discriminator of `p`, so the rows are
its own events exactly when `p` emitted every such line. -/
theorem events_by_discriminator (sha256 : String → Bytes) (decode : String → Option Bytes)
    (L : Ledger) (readings : List (Reading L)) (p : Program) :
    (∀ row, row.program = p.name → (row ∈ (ingest sha256 decode readings).events ↔
      ∃ r ∈ readings, ∃ top, r.Makes sha256 decode p top row)) ∧
    (∀ r ∈ readings, r.program = p → r.Reads → ∀ i top payload, r.fails i = false →
      r.tx.DataLine i top payload →
        ((∃ event, eventRow r.tx i (event, payload) ∈ (ingest sha256 decode readings).events ∧
          r.Makes sha256 decode p top (eventRow r.tx i (event, payload))) ↔
            p.Announced sha256 decode payload)) ∧
    (AttributesToEmitter sha256 decode readings p ↔
      ∀ r ∈ readings, r.program = p → r.Reads → ∀ i top payload, r.fails i = false →
        r.tx.DataLine i top payload → p.Announced sha256 decode payload → top = some p.pubkey) := by
  have hmem : ∀ row : EventRow, row.program = p.name →
      (row ∈ (ingest sha256 decode readings).events ↔
        ∃ r ∈ readings, ∃ top, r.Makes sha256 decode p top row) := fun _ => mem_ingest readings
  have hmakes : ∀ r : Reading L, r.program = p → r.Reads → ∀ i top payload, r.fails i = false →
      r.tx.DataLine i top payload → p.Announced sha256 decode payload →
        ∃ event, r.Makes sha256 decode p top (eventRow r.tx i (event, payload)) := by
    intro r hp hreads i top payload hfails hline hannounced
    obtain ⟨event, hevent⟩ := exists_eventNamed.2 hannounced
    exact ⟨event, hp, hreads, i, payload, event, hfails, hline, hevent, rfl⟩
  refine ⟨hmem, ?_, ?_, ?_⟩
  · intro r hr hp hreads i top payload hfails hline
    constructor
    · rintro ⟨event, -, -, -, j, payload', event', -, -, hevent, hrow⟩
      have hpayload : payload = payload' := congrArg EventRow.payloadB64 hrow
      rw [hpayload]
      exact exists_eventNamed.1 ⟨event', hevent⟩
    · intro hannounced
      obtain ⟨event, h⟩ := hmakes r hp hreads i top payload hfails hline hannounced
      exact ⟨event, (hmem _ h.program_eq).2 ⟨r, hr, top, h⟩, h⟩
  · intro hown r hr hp hreads i top payload hfails hline hannounced
    obtain ⟨event, h⟩ := hmakes r hp hreads i top payload hfails hline hannounced
    obtain ⟨r', -, h'⟩ := (hown _ h.program_eq).1 ((hmem _ h.program_eq).2 ⟨r, hr, top, h⟩)
    exact h.emitter h'
  · intro hall row hrow
    rw [hmem row hrow]
    constructor
    · rintro ⟨r, hr, top, h⟩
      obtain ⟨hp, hreads, i, payload, event, hfails, hline, hevent, -⟩ := id h
      have htop := hall r hr hp hreads i top payload hfails hline
        (exists_eventNamed.1 ⟨event, hevent⟩)
      exact ⟨r, hr, htop ▸ h⟩
    · rintro ⟨r, hr, h⟩
      exact ⟨r, hr, _, h⟩

/-! ## A forged withdrawal -/

namespace Treasury

/-- The digests of the two events of the treasury; no other name is looked at here. -/
def sha256 (text : String) : Bytes :=
  if text = "event:TreasuryWithdrew" then
    [220, 114, 25, 15, 0, 115, 171, 74, 171, 212, 174, 10, 5, 142, 189, 187, 124, 245, 200,
      161, 87, 129, 101, 249, 216, 129, 19, 61, 168, 143, 177, 232]
  else if text = "event:TreasuryDeposited" then
    [1, 193, 184, 0, 137, 134, 85, 50, 85, 102, 129, 67, 66, 8, 35, 169, 206, 119, 135, 211,
      102, 95, 143, 80, 36, 13, 164, 170, 175, 174, 208, 139]
  else
    []

def decode (text : String) : Option Bytes :=
  if text = "3HIZDwBzq0o=" then some [220, 114, 25, 15, 0, 115, 171, 74] else none

def program : Program :=
  ⟨("aeqi_treasury", "2KBH4dhAM8fvix5sB44f55Hy6mE4HgeMMbm3htZTJNm7",
    ["TreasuryWithdrew", "TreasuryDeposited"]), by decide +kernel⟩

end Treasury

namespace Forged

def mallory : ProgramId := ⟨"Ma11oryMa11oryMa11oryMa11oryMa11ory111111111", by decide +kernel⟩

/-- The transaction only has to name the treasury among its accounts. -/
def tx : Transaction where
  signature := "forged"
  slot := 7
  err := false
  trace := .call mallory (.data "3HIZDwBzq0o=" .done) none .done
  short := by decide +kernel

def ledger : Ledger := ⟨[tx], by decide +kernel⟩

def reading : Reading ledger := ⟨Treasury.program, tx, by simp [ledger], .live false, fun _ => false⟩

def row : EventRow :=
  ⟨"aeqi_treasury", "TreasuryWithdrew", 7, "forged", 1, "3HIZDwBzq0o="⟩

theorem recorded : row ∈ (ingest Treasury.sha256 Treasury.decode [reading]).events := by decide +kernel

end Forged

/-- Another program's line that begins like a withdrawal is recorded as the treasury's. -/
theorem not_attributes_to_emitter :
    ¬ ∀ (sha256 : String → Bytes) (decode : String → Option Bytes) (L : Ledger)
      (readings : List (Reading L)) (p : Program), AttributesToEmitter sha256 decode readings p := by
  intro hall
  have hown := hall Treasury.sha256 Treasury.decode Forged.ledger [Forged.reading] Treasury.program
  obtain ⟨r, -, -, -, i, payload, _, -, hline, -, -⟩ := (hown Forged.row rfl).1 Forged.recorded
  have htx : r.tx = Forged.tx := List.mem_singleton.1 r.mem
  have hmem := (Transaction.exists_dataLine r.tx).1 ⟨i, hline⟩
  rw [htx] at hmem
  simp [Forged.tx, Trace.emissions, Forged.mallory, Treasury.program, Program.pubkey] at hmem

end Aeqi.Indexer
