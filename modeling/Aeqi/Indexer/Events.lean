import Aeqi.Indexer.Snapshot

/-!
# The events that the indexer records

`registry.rs`, the tables `events` and `cursor` of `sink.rs`, and what the live tail of
`main.rs` and `backfill.rs` do with the log of one transaction. A log is the trace of the
programs that the transaction ran, one inside another (`Trace`). Both paths look at a
`Program data:` line alone: they record it under the subscribed program whenever its first
eight bytes are a discriminator of that program, whatever program was executing.
-/

namespace Aeqi.Indexer

open List

/-! ## `registry.rs` -/

structure EventMeta where
  program : String
  event : String
  deriving DecidableEq

/-- Name, program id in base58 and event names of each program. -/
def EVENTS : List (String × String × List String) := [
  ("aeqi_trust", "CCbs4TCqE6FXmRdyLexx2rSSHAShymWrrR9QWeJUJbXV",
    ["TrustInitialized", "TrustFinalized", "TrustPauseChanged", "ModuleRegistered",
      "ModuleImplementationPublished", "ModuleImplementationActiveChanged",
      "ModuleImplementationAdopted", "ModuleAclSet"]),
  ("aeqi_factory", "3qRT5qTuv4wkqbLfZQUVcf94QRyG3JdCAbFZsiBNpgEv",
    ["CompanyCreated", "CompanySpawned", "CompanyFullySpawned", "TemplateRegistered",
      "TemplateInstantiated"]),
  ("aeqi_role", "4GSrvANBi1yrn3w4VgoxvVz7pH9BdR8MeyUpH4ZcGXpB",
    ["RoleTypeCreated", "RoleCreated", "RoleAssigned", "RoleTransferred", "RoleResigned",
      "RoleDelegated"]),
  ("aeqi_governance", "5WHpPFf2mPYNFjr5p3ujeRcZNPoqWMBMkYnsWb2YtyNq",
    ["ConfigRegistered", "ProposalCreated", "VoteCast", "ProposalExecuted",
      "SnapshotRootCommitted"]),
  ("aeqi_token", "AxyYnv99gnKJ3VMYbyVjz4BxP8LA34CUnhHGVifrc3Kh",
    ["TokenModuleInitialized", "MintCreated", "TokensMinted", "TokensBurned"]),
  ("aeqi_treasury", "2KBH4dhAM8fvix5sB44f55Hy6mE4HgeMMbm3htZTJNm7",
    ["TreasuryWithdrew", "TreasuryDeposited"]),
  ("aeqi_vesting", "DCZKRmxjUyAZ3nptbkCBnAGqTe4E7xTvXfLbnf95uj7y",
    ["PositionCreated", "Claimed", "FdvMilestoneHit", "ContributionPaid"]),
  ("aeqi_budget", "5PbDxvaYD9shSGxE2pQyUTqCqe6FXUMDciXSEGevFE5G",
    ["BudgetCreated", "BudgetSpent", "BudgetFrozen", "BudgetUnfrozen"]),
  ("aeqi_fund", "DaFpZcqMaL4rmAemJ2WBeUth42PMmHxNg9t6j9h9p7YP",
    ["FundCreated", "FundDeposited", "FundRedeemed", "NavUpdated", "CarryClaimed"]),
  ("aeqi_funding", "8dCM5qRnfMAZGdsC8pYYQzomVdQpihL9jgwAXoPaie3U",
    ["FundingRequestCreated", "FundingRequestCancelled", "FundingRequestActivated",
      "FundingRequestFinalized"]),
  ("aeqi_unifutures", "CAz7bt2gLYTe3VUZ4xEyF8AA8syth4NkUKb5c1NRq8JF",
    ["CurveCreated", "CurveBuy", "CurveSell", "LiquidityPoolCreated", "LiquidityAdded",
      "LiquidityRemoved", "SwapExecuted", "SaleCreated", "ExitCreated", "SaleCommitted",
      "SaleFinalized", "AllocationClaimed", "ExitSettled", "ProRataClaimed"])]

/-- `assert_matches_manifest` holds the programs of the manifest to those of the registry. -/
def Program := { p : String × String × List String // p ∈ EVENTS }

namespace Program

def name (p : Program) : String := p.1.1

def pubkey (p : Program) : String := p.1.2.1

def events (p : Program) : List String := p.1.2.2

theorem name_injective : Function.Injective name := by
  have hnodup : (EVENTS.map (·.1)).Nodup := by simp [EVENTS]
  intro p q h
  exact Subtype.ext (inj_on_of_nodup_map hnodup p.2 q.2 h)

end Program

/-! ## A transaction and its log -/

/-- `str::strip_prefix`. -/
def stripPrefix (p line : String) : Option String :=
  if p.toList.isPrefixOf line.toList then
    some (String.ofList (line.toList.drop p.toList.length))
  else
    none

def dataPrefix : String := "Program data: "

def ProgramId := { text : String // text.toList.all Char.isAlphanum = true }

/-- Any line of a log that is not a `Program data:` line. -/
def OtherLine := { line : String // stripPrefix dataPrefix line = none }

/-- What the runtime logs while the instructions of a transaction run, one program inside
another. A call ends with success or with the text of a failure. -/
inductive Trace
  | done
  | data (payload : String) (rest : Trace)
  | other (line : OtherLine) (rest : Trace)
  | call (program : ProgramId) (body : Trace) (failure : Option String) (rest : Trace)

namespace Trace

def runtimeLine (program : ProgramId) (what : String) : String :=
  "Program " ++ program.1 ++ " " ++ what

def invokeLine (program : ProgramId) (depth : Nat) : String :=
  runtimeLine program ("invoke [" ++ toString depth ++ "]")

def returnLine (program : ProgramId) : Option String → String
  | none => runtimeLine program "success"
  | some failure => runtimeLine program ("failed: " ++ failure)

/-- The lines of a trace, each with the innermost program that was executing. -/
def log : Option String → Nat → Trace → List (Option String × String)
  | _, _, .done => []
  | top, depth, .data payload rest => (top, dataPrefix ++ payload) :: log top depth rest
  | top, depth, .other line rest => (top, line.1) :: log top depth rest
  | top, depth, .call program body failure rest =>
    (top, invokeLine program (depth + 1)) :: log (some program.1) (depth + 1) body ++
      (top, returnLine program failure) :: log top depth rest

/-- The data that the programs of a trace emit, in order, each with its emitter: the
innermost program that is executing. -/
def emissions : Option String → Trace → List (Option String × String)
  | _, .done => []
  | top, .data payload rest => (top, payload) :: emissions top rest
  | top, .other _ rest => emissions top rest
  | top, .call program body _ rest => emissions (some program.1) body ++ emissions top rest

end Trace

/-- Slots are `u64`; the sink stores the same bits as an `i64`. -/
abbrev Slot := BitVec 64

/-- The runtime cuts a log off long before its index would leave a `u32`. -/
structure Transaction where
  signature : String
  slot : Slot
  err : Bool
  trace : Trace
  short : (trace.log none 0).length ≤ 2 ^ 32

namespace Transaction

def emitted (tx : Transaction) : List (Option String × String) := tx.trace.log none 0

def logs (tx : Transaction) : List String := tx.emitted.map Prod.snd

end Transaction

/-! ## The sink -/

structure EventRow where
  program : String
  eventType : String
  slot : Int
  signature : String
  logIndex : Nat
  payloadB64 : String
  deriving DecidableEq

/-- `UNIQUE(signature, program, event_type, log_index)`. -/
def EventRow.key (row : EventRow) : String × String × String × Nat :=
  (row.signature, row.program, row.eventType, row.logIndex)

structure Sink where
  events : List EventRow
  cursors : String → Option Slot

namespace Sink

def empty : Sink where
  events := []
  cursors _ := none

/-- `INSERT OR IGNORE`. -/
def recordEvent (row : EventRow) (sink : Sink) : Sink :=
  if row.key ∈ sink.events.map EventRow.key then
    sink
  else
    { sink with events := sink.events ++ [row] }

def cursor (program : String) (sink : Sink) : Option Slot := sink.cursors program

/-- `MAX(cursor.last_slot, excluded.last_slot)` compares the slots as `i64`. -/
def bumpCursor (program : String) (slot : Slot) (sink : Sink) : Sink :=
  { sink with
    cursors := Function.update sink.cursors program <|
      match sink.cursors program with
      | none => some slot
      | some last => some (if last.slt slot then slot else last) }

end Sink

section Ingestion

variable (sha256 : String → Bytes) (decode : String → Option Bytes)

def anchorEventDisc (name : String) : Bytes := (sha256 ("event:" ++ name)).take 8

def registry : List ((String × Bytes) × EventMeta) :=
  EVENTS.flatMap fun (program, pid, events) =>
    events.map fun event => ((pid, anchorEventDisc sha256 event), ⟨program, event⟩)

/-- The registry is a map, so a later entry takes the place of an earlier one. -/
def lookup (pid : String) (disc : Bytes) : Option EventMeta :=
  if disc.length < 8 then
    none
  else
    ((registry sha256).reverse.find? fun entry => entry.1 == (pid, disc.take 8)).map Prod.snd

/-- The event that the subscribed program is taken to have emitted: `decode` is the base64
engine, and the first eight bytes decide. -/
def eventNamed (pid : String) (rest : String) : Option EventMeta :=
  match decode rest with
  | none => none
  | some bytes => if 8 ≤ bytes.length then lookup sha256 pid (bytes.take 8) else none

def eventOf (pid : String) (line : String) : Option (EventMeta × String) :=
  match stripPrefix dataPrefix line with
  | none => none
  | some rest => (eventNamed sha256 decode pid rest).map fun event => (event, rest)

def eventRow (tx : Transaction) (i : Nat) (event : EventMeta × String) : EventRow where
  program := event.1.program
  eventType := event.1.event
  slot := tx.slot.toInt
  signature := tx.signature
  logIndex := i % 2 ^ 32
  payloadB64 := event.2

/-- `for (log_index, line) in logs.iter().enumerate()`: where `fails` says so, the call of
`record_event` returns an error, which is only logged. -/
def recordLogs (pid : String) (fails : Nat → Bool) (tx : Transaction) :
    List String → Nat → Sink → Sink
  | [], _, sink => sink
  | line :: rest, i, sink =>
    match eventOf sha256 decode pid line with
    | none => recordLogs pid fails tx rest (i + 1) sink
    | some event =>
      recordLogs pid fails tx rest (i + 1)
        (if fails i then sink else sink.recordEvent (eventRow tx i event))

def notify (p : Program) (fails : Nat → Bool) (bumpFails : Bool) (tx : Transaction)
    (sink : Sink) : Sink :=
  if tx.err then
    sink
  else
    let sink := recordLogs sha256 decode p.pubkey fails tx tx.logs 0 sink
    if bumpFails then sink else sink.bumpCursor p.name tx.slot

/-- One signature of a backfill; `fetched` tells whether `get_transaction` returned the
transaction with its log. -/
def replay (p : Program) (fetched : Bool) (fails : Nat → Bool) (tx : Transaction)
    (sink : Sink) : Sink :=
  if tx.err then
    sink
  else if fetched then
    recordLogs sha256 decode p.pubkey fails tx tx.logs 0 sink
  else
    sink

end Ingestion

/-! ## Prefixes and data lines -/

theorem stripPrefix_eq_some {p line rest : String} :
    stripPrefix p line = some rest ↔ line = p ++ rest := by
  unfold stripPrefix
  constructor
  · intro h
    split at h
    next hp =>
      obtain ⟨tail, htail⟩ := isPrefixOf_iff_prefix.1 hp
      rw [← htail, drop_left, Option.some.injEq] at h
      rw [← h]
      exact String.toList_inj.1 (by simp [htail])
    next => cases h
  · rintro rfl
    simp

namespace Trace

/-- A line that the runtime prints is no data line: a program id cannot spell `data:`. -/
theorem stripPrefix_runtimeLine (program : ProgramId) (what : String) :
    stripPrefix dataPrefix (runtimeLine program what) = none := by
  rw [Option.eq_none_iff_forall_ne_some]
  intro payload h
  have hlist := congrArg String.toList (stripPrefix_eq_some.1 h)
  simp only [runtimeLine, dataPrefix, String.toList_append] at hlist
  have hsplit : "Program data: ".toList = "Program ".toList ++ "data: ".toList := by decide
  rw [hsplit, append_assoc, append_assoc, append_assoc, append_cancel_left_eq] at hlist
  -- what follows the letters and digits is a blank on one side and a colon on the other
  have hdrop := congrArg (List.dropWhile Char.isAlphanum) hlist
  have hid : ∀ c ∈ program.1.toList, c.isAlphanum = true := all_eq_true.1 program.2
  rw [dropWhile_append_of_pos hid] at hdrop
  simp at hdrop

theorem filterMap_log (top : Option String) (depth : Nat) (t : Trace) :
    (log top depth t).filterMap
      (fun l => (stripPrefix dataPrefix l.2).map fun payload => (l.1, payload)) =
      emissions top t := by
  induction t generalizing top depth with
  | done => rfl
  | data payload rest ih =>
    have hdata : stripPrefix dataPrefix (dataPrefix ++ payload) = some payload :=
      stripPrefix_eq_some.2 rfl
    simp [log, emissions, hdata, ih]
  | other line rest ih => simp [log, emissions, line.2, ih]
  | call program body failure rest ihb ihr =>
    have hret : stripPrefix dataPrefix (returnLine program failure) = none := by
      cases failure <;> exact stripPrefix_runtimeLine program _
    simp [log, emissions, invokeLine, stripPrefix_runtimeLine, hret, ihb, ihr]

end Trace

namespace Transaction

/-- Line `i` of the log is data that was emitted while `top` was the innermost program. -/
def DataLine (tx : Transaction) (i : Nat) (top : Option String) (payload : String) : Prop :=
  tx.emitted[i]? = some (top, dataPrefix ++ payload)

theorem exists_dataLine (tx : Transaction) {top : Option String} {payload : String} :
    (∃ i, tx.DataLine i top payload) ↔ (top, payload) ∈ tx.trace.emissions none := by
  rw [← Trace.filterMap_log none 0 tx.trace]
  simp only [DataLine, ← mem_iff_getElem?, mem_filterMap, Option.map_eq_some_iff, Prod.mk.injEq]
  constructor
  · intro h
    exact ⟨_, h, payload, stripPrefix_eq_some.2 rfl, rfl, rfl⟩
  · rintro ⟨⟨e, line⟩, h, rest, hrest, rfl, rfl⟩
    rw [← stripPrefix_eq_some.1 hrest]
    exact h

theorem DataLine.lt {tx : Transaction} {i : Nat} {top : Option String} {payload : String}
    (h : tx.DataLine i top payload) : i < 2 ^ 32 :=
  Nat.lt_of_lt_of_le (List.getElem?_eq_some_iff.1 h).1 tx.short

end Transaction

/-! ## What the registry finds -/

section Registry

variable {sha256 : String → Bytes} {decode : String → Option Bytes}

theorem Program.pubkey_injective : Function.Injective Program.pubkey := by
  have hnodup : (EVENTS.map (·.2.1)).Nodup := by simp [EVENTS]
  intro p q h
  exact Subtype.ext (inj_on_of_nodup_map hnodup p.2 q.2 h)

theorem mem_registry {entry : (String × Bytes) × EventMeta} :
    entry ∈ registry sha256 ↔ ∃ p : Program, ∃ name ∈ p.events,
      entry = ((p.pubkey, anchorEventDisc sha256 name), ⟨p.name, name⟩) := by
  simp only [registry, mem_flatMap, mem_map]
  constructor
  · rintro ⟨q, hq, name, hname, rfl⟩
    exact ⟨⟨q, hq⟩, name, hname, rfl⟩
  · rintro ⟨p, name, hname, rfl⟩
    exact ⟨p.1, p.2, name, hname, rfl⟩

variable {p : Program}

theorem lookup_eq_some {disc : Bytes} {event : EventMeta}
    (h : lookup sha256 p.pubkey disc = some event) :
    8 ≤ disc.length ∧ event.program = p.name ∧ event.event ∈ p.events ∧
      anchorEventDisc sha256 event.event = disc.take 8 := by
  unfold lookup at h
  split at h
  next => cases h
  next hlen =>
    obtain ⟨entry, hfind, rfl⟩ := Option.map_eq_some_iff.1 h
    have hkey := find?_some hfind
    have hmem := mem_reverse.1 (mem_of_find?_eq_some hfind)
    obtain ⟨q, name, hname, rfl⟩ := mem_registry.1 hmem
    simp only [beq_iff_eq, Prod.mk.injEq] at hkey
    obtain rfl := Program.pubkey_injective hkey.1
    exact ⟨Nat.not_lt.1 hlen, rfl, hname, hkey.2⟩

theorem exists_lookup {disc : Bytes} (hlen : 8 ≤ disc.length) {name : String}
    (hname : name ∈ p.events) (hdisc : anchorEventDisc sha256 name = disc.take 8) :
    ∃ event, lookup sha256 p.pubkey disc = some event := by
  have hmem : ((p.pubkey, anchorEventDisc sha256 name), (⟨p.name, name⟩ : EventMeta)) ∈
      (registry sha256).reverse :=
    mem_reverse.2 (mem_registry.2 ⟨p, name, hname, rfl⟩)
  have hfind : ((registry sha256).reverse.find? fun entry =>
      entry.1 == (p.pubkey, disc.take 8)).isSome = true := by
    rw [find?_isSome]
    exact ⟨_, hmem, by simp [hdisc]⟩
  obtain ⟨entry, hentry⟩ := Option.isSome_iff_exists.1 hfind
  exact ⟨entry.2, by rw [lookup, if_neg (by omega), hentry, Option.map_some]⟩

/-- The payload begins with the discriminator of one of the program's events. -/
def Program.Announced (sha256 : String → Bytes) (decode : String → Option Bytes) (p : Program)
    (payload : String) : Prop :=
  ∃ bytes, decode payload = some bytes ∧ 8 ≤ bytes.length ∧
    ∃ name ∈ p.events, anchorEventDisc sha256 name = bytes.take 8

theorem eventNamed_program {payload : String} {event : EventMeta}
    (h : eventNamed sha256 decode p.pubkey payload = some event) : event.program = p.name := by
  unfold eventNamed at h
  split at h
  next => cases h
  next =>
    split at h
    next => exact (lookup_eq_some h).2.1
    next => cases h

theorem exists_eventNamed {payload : String} :
    (∃ event, eventNamed sha256 decode p.pubkey payload = some event) ↔
      p.Announced sha256 decode payload := by
  constructor
  · rintro ⟨event, h⟩
    unfold eventNamed at h
    split at h
    next => cases h
    next bytes hbytes =>
      split at h
      next hlen =>
        obtain ⟨-, -, hname, hdisc⟩ := lookup_eq_some h
        rw [take_take] at hdisc
        exact ⟨bytes, hbytes, hlen, event.event, hname, hdisc⟩
      next => cases h
  · rintro ⟨bytes, hbytes, hlen, name, hname, hdisc⟩
    have htake : 8 ≤ (bytes.take 8).length := by rw [length_take]; omega
    obtain ⟨event, hevent⟩ := exists_lookup htake hname
      (by rw [take_take, Nat.min_self, hdisc])
    exact ⟨event, by simp [eventNamed, hbytes, if_pos hlen, hevent]⟩

end Registry

/-! ## The rows of a transaction -/

section Rows

variable (sha256 : String → Bytes) (decode : String → Option Bytes)

/-- The row that line `i` of the log of `tx` makes under program `p`. -/
def IsRow (p : Program) (tx : Transaction) (i : Nat) (row : EventRow) : Prop :=
  ∃ top payload event, tx.DataLine i top payload ∧
    eventNamed sha256 decode p.pubkey payload = some event ∧
    row = eventRow tx i (event, payload)

variable {sha256 decode}

variable {tx : Transaction}

theorem IsRow.program {p : Program} {i : Nat} {row : EventRow} (h : IsRow sha256 decode p tx i row) :
    row.program = p.name := by
  obtain ⟨_, _, _, -, hevent, rfl⟩ := h
  exact eventNamed_program hevent

theorem isRow_iff_eventOf {p : Program} {i : Nat} {row : EventRow} :
    IsRow sha256 decode p tx i row ↔
      ∃ line event, tx.logs[i]? = some line ∧ eventOf sha256 decode p.pubkey line = some event ∧
        row = eventRow tx i event := by
  constructor
  · rintro ⟨top, payload, event, hline, hevent, rfl⟩
    refine ⟨dataPrefix ++ payload, (event, payload), ?_, ?_, rfl⟩
    · rw [Transaction.logs, getElem?_map, hline, Option.map_some]
    · simp [eventOf, stripPrefix_eq_some.2 rfl, hevent]
  · rintro ⟨line, event, hline, hevent, rfl⟩
    rw [Transaction.logs, getElem?_map] at hline
    obtain ⟨⟨top, line⟩, hemitted, rfl⟩ := Option.map_eq_some_iff.1 hline
    unfold eventOf at hevent
    split at hevent
    next => cases hevent
    next payload hpayload =>
      obtain ⟨named, hnamed, rfl⟩ := Option.map_eq_some_iff.1 hevent
      have hdata : line = dataPrefix ++ payload := stripPrefix_eq_some.1 hpayload
      rw [hdata] at hemitted
      exact ⟨top, payload, named, hemitted, hnamed, rfl⟩

theorem IsRow.unique {p : Program} {i : Nat} {a b : EventRow} (ha : IsRow sha256 decode p tx i a)
    (hb : IsRow sha256 decode p tx i b) : a = b := by
  obtain ⟨_, _, hline, hevent, rfl⟩ := isRow_iff_eventOf.1 ha
  obtain ⟨_, _, hline', hevent', rfl⟩ := isRow_iff_eventOf.1 hb
  cases hline.symm.trans hline'
  cases hevent.symm.trans hevent'
  rfl

end Rows

/-! ## The sink keeps the rows of a ledger -/

/-- The transactions that mention a program: no two have one signature. -/
structure Ledger where
  txs : List Transaction
  signed : (txs.map Transaction.signature).Nodup

section Recording

variable (sha256 : String → Bytes) (decode : String → Option Bytes)

def Ledger.HasRow (L : Ledger) (row : EventRow) : Prop :=
  ∃ p, ∃ tx ∈ L.txs, ∃ i, IsRow sha256 decode p tx i row

def Sink.Of (L : Ledger) (sink : Sink) : Prop :=
  ∀ row ∈ sink.events, L.HasRow sha256 decode row

variable {sha256 decode} {L : Ledger}

/-- `UNIQUE(signature, program, event_type, log_index)` never keeps a row of the ledger out. -/
theorem Ledger.HasRow.eq_of_key {a b : EventRow} (ha : L.HasRow sha256 decode a)
    (hb : L.HasRow sha256 decode b) (hkey : a.key = b.key) : a = b := by
  obtain ⟨p, tx, htx, i, ha⟩ := ha
  obtain ⟨q, tx', htx', j, hb⟩ := hb
  simp only [EventRow.key, Prod.mk.injEq] at hkey
  obtain ⟨hsignature, hprogram, -, hindex⟩ := hkey
  have hp : p = q := Program.name_injective (by rw [← ha.program, ← hb.program, hprogram])
  subst hp
  obtain ⟨_, _, _, hline, _, rfl⟩ := id ha
  obtain ⟨_, _, _, hline', _, rfl⟩ := id hb
  obtain rfl := inj_on_of_nodup_map L.signed htx htx' hsignature
  have hij : i = j := by
    simpa only [eventRow, Nat.mod_eq_of_lt hline.lt, Nat.mod_eq_of_lt hline'.lt] using hindex
  subst hij
  exact ha.unique hb

namespace Sink

theorem mem_recordEvent {sink : Sink} (hsink : sink.Of sha256 decode L) {row : EventRow}
    (hrow : L.HasRow sha256 decode row) {r : EventRow} :
    r ∈ (sink.recordEvent row).events ↔ r ∈ sink.events ∨ r = row := by
  unfold recordEvent
  split
  next hkey =>
    obtain ⟨old, hold, hsame⟩ := mem_map.1 hkey
    obtain rfl := (hsink old hold).eq_of_key hrow hsame
    constructor
    · exact .inl
    · rintro (h | rfl)
      · exact h
      · exact hold
  next => simp

theorem Of.recordEvent {sink : Sink} (hsink : sink.Of sha256 decode L) {row : EventRow}
    (hrow : L.HasRow sha256 decode row) : (sink.recordEvent row).Of sha256 decode L := by
  intro r hr
  rcases (mem_recordEvent hsink hrow).1 hr with hr | rfl
  · exact hsink r hr
  · exact hrow

@[simp]
theorem recordEvent_cursors (row : EventRow) (sink : Sink) :
    (sink.recordEvent row).cursors = sink.cursors := by
  unfold recordEvent
  split <;> rfl

@[simp]
theorem bumpCursor_events (program : String) (slot : Slot) (sink : Sink) :
    (sink.bumpCursor program slot).events = sink.events := rfl

end Sink

theorem recordLogs_cursors (pid : String) (fails : Nat → Bool) (tx : Transaction)
    (lines : List String) (i : Nat) (sink : Sink) :
    (recordLogs sha256 decode pid fails tx lines i sink).cursors = sink.cursors := by
  induction lines generalizing i sink with
  | nil => rfl
  | cons line rest ih =>
    unfold recordLogs
    split
    next => exact ih (i + 1) sink
    next =>
      rw [ih (i + 1)]
      split <;> simp

/-- What a stretch of the log adds: `lines` is what is left of the log from line `i` on. -/
theorem mem_recordLogs_from {p : Program} {tx : Transaction} (htx : tx ∈ L.txs)
    (fails : Nat → Bool) {lines : List String} {i : Nat} {sink : Sink}
    (hlines : lines = tx.logs.drop i) (hsink : sink.Of sha256 decode L) {r : EventRow} :
    r ∈ (recordLogs sha256 decode p.pubkey fails tx lines i sink).events ↔
      r ∈ sink.events ∨ ∃ j, i ≤ j ∧ fails j = false ∧ IsRow sha256 decode p tx j r := by
  induction lines generalizing i sink with
  | nil =>
    have hlen : tx.logs.length ≤ i := drop_eq_nil_iff.1 hlines.symm
    constructor
    · exact .inl
    · rintro (h | ⟨j, hij, -, hrow⟩)
      · exact h
      · obtain ⟨_, _, hline, -, -⟩ := isRow_iff_eventOf.1 hrow
        have := (List.getElem?_eq_some_iff.1 hline).1
        omega
  | cons line rest ih =>
    have hline : tx.logs[i]? = some line := by
      rw [← head?_drop, ← hlines, head?_cons]
    have hrest : rest = tx.logs.drop (i + 1) := by
      rw [← drop_drop, ← hlines, drop_one, tail_cons]
    -- a row of a later line is a row of line `i` or of one after it
    have hsplit : (∃ j, i ≤ j ∧ fails j = false ∧ IsRow sha256 decode p tx j r) ↔
        (fails i = false ∧ IsRow sha256 decode p tx i r) ∨
          ∃ j, i + 1 ≤ j ∧ fails j = false ∧ IsRow sha256 decode p tx j r := by
      constructor
      · rintro ⟨j, hij, h⟩
        rcases Nat.eq_or_lt_of_le hij with rfl | hlt
        · exact .inl h
        · exact .inr ⟨j, hlt, h⟩
      · rintro (h | ⟨j, hij, h⟩)
        · exact ⟨i, le_rfl, h⟩
        · exact ⟨j, by omega, h⟩
    rw [hsplit]
    unfold recordLogs
    split
    next hnone =>
      have hno : ¬ IsRow sha256 decode p tx i r := by
        intro hrow
        obtain ⟨_, _, hline', hevent, -⟩ := isRow_iff_eventOf.1 hrow
        cases hline.symm.trans hline'
        cases hnone.symm.trans hevent
      rw [ih hrest hsink]
      simp [hno]
    next event hevent =>
      have hrow : IsRow sha256 decode p tx i (eventRow tx i event) :=
        isRow_iff_eventOf.2 ⟨line, event, hline, hevent, rfl⟩
      have hhas : L.HasRow sha256 decode (eventRow tx i event) := ⟨p, tx, htx, i, hrow⟩
      have honly : IsRow sha256 decode p tx i r ↔ r = eventRow tx i event := by
        constructor
        · intro h
          exact h.unique hrow
        · rintro rfl
          exact hrow
      rw [honly]
      cases hfails : fails i with
      | true =>
        rw [if_pos rfl, ih hrest hsink]
        simp
      | false =>
        rw [if_neg Bool.false_ne_true, ih hrest (hsink.recordEvent hhas),
          Sink.mem_recordEvent hsink hhas]
        simp [or_assoc]

theorem mem_recordLogs {p : Program} {tx : Transaction} (htx : tx ∈ L.txs)
    (fails : Nat → Bool) {sink : Sink} (hsink : sink.Of sha256 decode L) {r : EventRow} :
    r ∈ (recordLogs sha256 decode p.pubkey fails tx tx.logs 0 sink).events ↔
      r ∈ sink.events ∨ ∃ i, fails i = false ∧ IsRow sha256 decode p tx i r := by
  rw [mem_recordLogs_from htx fails drop_zero.symm hsink]
  simp

end Recording

end Aeqi.Indexer
