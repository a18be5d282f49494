import Aeqi.Orchestrator.Allocations
import Aeqi.Orchestrator.KeyUses

/-!
# Retries

A key is looked up on the budget of a call, whatever the operation, a request hash over all events,
and so is the key of a new budget without a parent. What a call has found or recorded stays what it
finds: a repetition returns what the first one returned and writes nothing, until a budget is
dissolved and its events with it. A call whose key no earlier call used on its budget is executed.
-/

namespace Aeqi.Orchestrator

open Aeqi.Lib Handler List Option

/-! ## The laws -/

/-- A call with the store that it was made on. -/
abbrev Entry := Db × (BudgetRequest × Draw)

namespace Entry

def Returns (entry : Entry) (x : Returned) : Prop := (entry.2.1.call entry.2.2 entry.1).1 = .ok x

def after (entry : Entry) : Db := (entry.2.1.call entry.2.2 entry.1).2

/-- The call goes past the lookup: if it returns, it has recorded its use or erased its budget. -/
structure Executed (entry : Entry) : Prop where
  unfound : entry.2.1.found entry.1 = none
  marked : ∀ x u, entry.Returns x → entry.2.1.use = some u →
    (∃ e es, entry.after.events = e :: (es ++ entry.1.events) ∧ u.Marks x e) ∨
      ∃ b, entry.2.1.erases = some b ∧ entry.after = entry.1.without b

/-- A repeated call returns what it returned before and leaves every row as it is, and a call whose
use is not that of an earlier one is executed. -/
structure Deduplicates (entry : Entry) (earlier : List Entry) : Prop where
  retry : ∀ first ∈ earlier, ∀ x, first.2.1 = entry.2.1 → entry.2.1.use.isSome → Returns first x →
    entry.2.1.call entry.2.2 entry.1 = (.ok x, entry.1)
  fresh : (∀ first ∈ earlier, ∀ x u, Returns first x → entry.2.1.use = some u →
      first.2.1.use ≠ some u) → entry.Executed

end Entry

def KeyUse.Shares (u u' : KeyUse) (x : Returned) : Prop :=
  if u.requestHash.isSome then u'.requestHash = u.requestHash
  else u'.key = u.key ∧ ∀ b, u.budgetId = some b → u'.target x = some b

/-- Since a call that finds this event, no budget has been dissolved that the call or the event
names, and a key that is looked up everywhere has not been used on a budget. -/
structure Undisturbed (later : List Entry) (req : BudgetRequest) (e : TreasuryEvent) : Prop where
  undissolved : ∀ entry ∈ later, ∀ b x, entry.2.1.erases = some b →
    b ∈ e.budgetId :: (e.counterBudgetId.toList ++ req.names) → ¬Entry.Returns entry x
  unshared : ∀ u, req.use = some u → u.budgetId = none → ∀ entry ∈ later, ∀ x u',
    Entry.Returns entry x → entry.2.1.use = some u' → u'.key = u.key → u'.budgetId = none

namespace Entry

/-- A repeated call finds the event that the first one found or recorded; the role of a hire is not
in it. -/
structure DeduplicatesPerBudget (entry : Entry) (earlier : List Entry) : Prop where
  retry : ∀ later first before x, earlier = later ++ first :: before → first.2.1 = entry.2.1 →
    entry.2.1.use.isSome → entry.2.1.Repeatable = true → Returns first x →
    (∀ e, entry.2.1.found (after first) = some e → Undisturbed later entry.2.1 e) →
      ∃ y, entry.2.1.call entry.2.2 entry.1 = (.ok y, entry.1) ∧ y.roleless = x.roleless
  fresh : (∀ first ∈ earlier, ∀ x u u', Returns first x → entry.2.1.use = some u →
      first.2.1.use = some u' → ¬u.Shares u' x) → entry.Executed

end Entry

/-- Of every entry of a history, newest first, and those before it. -/
def AtEach (P : Entry → List Entry → Prop) : List Entry → Prop
  | [] => True
  | entry :: earlier => P entry earlier ∧ AtEach P earlier

/-! ## What a call keeps -/

section Keeps

variable {db db₁ db' : Db} {e e' : TreasuryEvent} {req req' : BudgetRequest} {x : Returned}
  {y : Option Returned} {u : KeyUse} {draw : Draw} {gone : Option String} {b : String}

theorem Db.paused_congr (h : db'.treasuryConfig = db.treasuryConfig) (trustId : String) :
    db'.paused trustId = db.paused trustId := by
  unfold Db.paused
  rw [h]

theorem Owned.grows {callerRole : String} {budget : Budget} (h : Owned db b callerRole budget)
    (hgrows : Grows gone db db') (hgone : gone ≠ some b) : Owned db' b callerRole budget :=
  ⟨hgrows.budgets _ _ hgone h.row, (Db.paused_congr hgrows.treasuryConfig _).trans h.running,
    h.owner⟩

theorem BudgetRequest.Admitted.grows (h : req.Admitted db) (hgrows : Grows gone db db')
    (hgone : ∀ b ∈ req.names, gone ≠ some b) (hrep : req.Repeatable = true) :
    req.Admitted db' := by
  cases req with
  | refreshAt | dissolve => cases hrep
  | setPolicy b =>
    obtain ⟨budget, howned⟩ := h
    exact ⟨budget, howned.grows hgrows (hgone b mem_cons_self)⟩
  | hire b =>
    obtain ⟨parent, howned⟩ := h
    exact ⟨parent, howned.grows hgrows (hgone b mem_cons_self)⟩
  | spendTreasury b =>
    obtain ⟨budget, howned, role, hrole, hoccupied⟩ := h
    exact ⟨budget, howned.grows hgrows (hgone b mem_cons_self), role,
      hgrows.roles _ _ hrole, hoccupied⟩
  | spendInference b =>
    obtain ⟨budget, hrow, cfg, hcfg, hgateway⟩ := h
    exact ⟨budget, hgrows.budgets _ _ (hgone b mem_cons_self) hrow, cfg,
      by rw [hgrows.treasuryConfig]; exact hcfg, hgateway⟩
  | allocate p c =>
    obtain ⟨parent, child, howned, hchild, htrust⟩ := h
    exact ⟨parent, child, howned.grows hgrows (hgone p mem_cons_self),
      hgrows.budgets _ _ (hgone c (mem_cons_of_mem _ mem_cons_self)) hchild, htrust⟩
  | createBudget trustId parent =>
    obtain ⟨hrunning, ⟨role, hrole, htrust⟩, hparent⟩ := h
    refine ⟨(Db.paused_congr hgrows.treasuryConfig _).trans hrunning,
      ⟨role, hgrows.roles _ _ hrole, htrust⟩, fun p hp => ?_⟩
    obtain ⟨b, hb, hmatch⟩ := hparent p hp
    exact ⟨b, hgrows.budgets _ _ (hgone p (mem_toList.2 hp)) hb, hmatch⟩

theorem BudgetRequest.call_found (hmay : req.Admitted db) (hfound : req.found db = some e)
    (hreplies : req.Replies e x) :
    ∃ y, req.call draw db = (.ok y, db) ∧ y.roleless = x.roleless := by
  have hstop : Ends (req.call draw) db (fun y db' => y.roleless = x.roleless ∧ db' = db)
      fun _ => False := by
    have hfresh : req.found db ≠ none := hfound ▸ some_ne_none e
    have hrepeated : Ends (alone Action.run (pure .unit : Routine Returned)) db
        (fun y db' => y.roleless = Returned.unit.roleless ∧ db' = db) fun _ => False := ⟨rfl, rfl⟩
    cases req with
    | refreshAt | dissolve => exact hreplies.elim
    | createBudget =>
      cases x with
      | unit | hired | allowance => exact hreplies.elim
      | budget id =>
        refine ends_alone_bind.2 (ends_createBudget (fun hno => hno _ _ hmay hfound hreplies)
          (fun hnone => (hfresh hnone).elim) (fun _ c _ he hc => ?_)
          fun _ _ hnone => (hfresh hnone).elim)
        cases hfound.symm.trans he
        cases hc.symm.trans hreplies
        exact ends_pureRoutine.2 ⟨rfl, rfl⟩
    | setPolicy =>
      cases x with
      | budget | hired | allowance => exact hreplies.elim
      | unit =>
        obtain ⟨budget, hmay⟩ := hmay
        exact ends_alone_bind.2 (ends_setPolicy (fun hno => hfresh (hno budget hmay))
          (fun _ _ _ _ => hrepeated) fun _ _ _ hnone => (hfresh hnone).elim)
    | allocate =>
      cases x with
      | budget | hired | allowance => exact hreplies.elim
      | unit =>
        obtain ⟨parent, child, hmay⟩ := hmay
        exact ends_base_bind.2 (ends_allocate (fun hno => hno parent child hmay)
          (fun hnone => hfresh hnone) (fun hnone => (hfresh hnone).elim)
          (fun _ _ _ _ _ => hrepeated) fun _ _ _ _ _ _ hnone => (hfresh hnone).elim)
    | spendInference =>
      cases x with
      | budget | hired | allowance => exact hreplies.elim
      | unit =>
        obtain ⟨budget, hmay⟩ := hmay
        exact ends_base_bind.2 (ends_spendInference (fun hno => hno budget hmay)
          (fun hnone => hfresh hnone) (fun _ _ _ _ => hrepeated)
          fun _ _ _ _ hnone => (hfresh hnone).elim)
    | spendTreasury =>
      cases x with
      | budget | hired | allowance => exact hreplies.elim
      | unit =>
        obtain ⟨budget, hmay⟩ := hmay
        exact ends_base_bind.2 (ends_spendTreasury (fun hno => hno budget hmay)
          (fun hnone => hfresh hnone) (fun _ _ _ _ => hrepeated)
          fun _ _ _ _ hnone => (hfresh hnone).elim)
    | hire =>
      cases x with
      | unit | budget | allowance => exact hreplies.elim
      | hired result =>
        obtain ⟨parent, hmay⟩ := hmay
        have hsame : (Returned.hired ⟨"", e.counterBudgetId.getD ""⟩).roleless =
            (Returned.hired result).roleless :=
          congrArg (fun b => Returned.hired ⟨"", b⟩) hreplies.symm
        refine ends_alone_bind.2 (ends_hire (fun hno => hfresh (hno parent hmay))
          (fun _ _ _ he => ?_) fun _ _ _ hnone => (hfresh hnone).elim)
        cases hfound.symm.trans he
        exact ends_pureRoutine.2 ⟨hsame, rfl⟩
  unfold Ends at hstop
  split at hstop
  · next y db' hcall =>
    obtain ⟨hsame, rfl⟩ := hstop
    exact ⟨y, hcall, hsame⟩
  · exact hstop.elim

/-- What is remembered of a call: its guards still pass, and the event that its key finds answers
it. -/
structure Remembered (db : Db) (req : BudgetRequest) (x : Returned) (e : TreasuryEvent) : Prop where
  admitted : req.Admitted db
  found : req.found db = some e
  replies : req.Replies e x

/-- **A repeated call** returns what is remembered of it. -/
theorem Remembered.retry (h : Remembered db req x e) :
    ∃ y, req.call draw db = (.ok y, db) ∧ y.roleless = x.roleless :=
  BudgetRequest.call_found h.admitted h.found h.replies

theorem found_of_cons (hevents : db'.events = e :: db₁.events) (hsees : req.sees e = true) :
    req.found db' = some e := by
  rw [BudgetRequest.found_eq, hevents, find?_cons_of_pos hsees]

theorem not_dissolves (hrep : req.Repeatable = true) : req.erases = none := by
  cases req with
  | dissolve => cases hrep
  | _ => rfl

theorem Outcome.remembered (h : Outcome req db (some x) db') (hkeyed : req.use.isSome)
    (hrep : req.Repeatable = true) : ∃ e, Remembered db' req x e := by
  obtain ⟨u, hu⟩ := isSome_iff_exists.1 hkeyed
  cases h with
  | quiet hx =>
    rcases hx with hx | hx
    · cases hx
    · cases hu.symm.trans hx
  | repeated admitted found replies => exact ⟨_, admitted, found, replies hrep⟩
  | recorded admitted fresh grows quietly events used unused replies =>
    refine ⟨_, admitted.grows grows (fun b _ => by simp) hrep, found_of_cons events ?_,
      replies hrep⟩
    rw [BudgetRequest.sees_eq hu]
    exact (used u hu).sees
  | erased hreq =>
    rw [not_dissolves hrep] at hreq
    cases hreq

theorem Quietly.found_eq (h : Quietly db db') : req.found db' = req.found db := by
  obtain ⟨es, hes, hquiet⟩ := h
  have hnone : es.find? req.sees = none := by
    refine find?_eq_none.2 fun e he hsees => ?_
    exact hquiet e he (BudgetRequest.keyed_of_sees hsees)
  rw [BudgetRequest.found_eq, BudgetRequest.found_eq, hes, find?_append, hnone, none_or]

theorem not_sees_recorded (hfound : req.found db = some e) (hfresh : req'.found db = none)
    (hused : ∀ u, req'.use = some u → u.Marks x e')
    (hunused : req'.use = none → ¬e'.Keyed)
    (hunshared : ∀ u u', req.use = some u → u.budgetId = none → req'.use = some u' →
      u'.key = u.key → u'.budgetId = none) :
    req.sees e' = false := by
  by_contra hsees
  rw [Bool.not_eq_false] at hsees
  obtain ⟨he, hsees₀⟩ := BudgetRequest.found_mem hfound
  obtain ⟨u', hu'⟩ := ne_none_iff_exists'.1 fun hnone =>
    hunused hnone (BudgetRequest.keyed_of_sees hsees)
  obtain ⟨u, hu, -⟩ := (Option.any_eq_true _ _).1 hsees
  have hmarks : u'.Marks x e' := hused u' hu'
  have hunseen : u'.sees e = false := BudgetRequest.sees_eq hu' e ▸ BudgetRequest.not_sees hfresh he
  rw [BudgetRequest.sees_eq hu] at hsees hsees₀
  refine Bool.false_ne_true (hunseen.symm.trans ?_)
  unfold KeyUse.sees at hsees hsees₀ ⊢
  rcases BudgetRequest.use_keyed hu with ⟨⟨k, hk⟩, hhash⟩ | ⟨-, hash, hhash⟩
  · -- by the key: the two events are on one budget, or the key is looked up everywhere
    rw [hhash] at hsees hsees₀
    obtain ⟨hbudget', hkey'⟩ := Bool.and_eq_true_iff.1 hsees
    obtain ⟨hbudget, hkey⟩ := Bool.and_eq_true_iff.1 hsees₀
    have hkey' : u'.key = u.key := hmarks.key.symm.trans (of_decide_eq_true hkey')
    have hhash' : u'.requestHash = none := by
      rcases BudgetRequest.use_keyed hu' with ⟨-, hnone⟩ | ⟨hnone, -⟩
      · exact hnone
      · cases (hkey'.trans hk).symm.trans hnone
    rw [hhash']
    refine Bool.and_eq_true_iff.2 ⟨?_, ?_⟩
    · cases hb' : u'.budgetId with
      | none => rfl
      | some b' =>
        cases hb : u.budgetId with
        | none => cases (hunshared u u' hu hb hu' hkey').symm.trans hb'
        | some b =>
          rw [hb] at hbudget hbudget'
          have hsame : e'.budgetId = b' := hmarks.budgetId_of_some hb'
          exact decide_eq_true ((of_decide_eq_true hbudget).trans
            ((of_decide_eq_true hbudget').symm.trans hsame))
    · rw [hkey']
      exact hkey
  · rw [hhash] at hsees hsees₀
    have hhash' : u'.requestHash = some hash :=
      hmarks.requestHash.symm.trans (of_decide_eq_true hsees)
    rw [hhash']
    exact hsees₀

theorem found_without (hfound : req.found db = some e)
    (hkept : b ∉ e.budgetId :: e.counterBudgetId.toList) : req.found (db.without b) = some e := by
  rw [BudgetRequest.found_eq] at hfound ⊢
  obtain ⟨hsees, front, rest, hevents, hfront⟩ := find?_eq_some_iff_append.1 hfound
  have hstays : ¬(e.budgetId = b ∨ e.counterBudgetId = some b) := by
    rintro (heq | heq)
    · exact hkept (heq ▸ mem_cons_self)
    · exact hkept (mem_cons_of_mem _ (mem_toList.2 heq))
  change (db.events.filter _).find? req.sees = some e
  rw [hevents, filter_append, filter_cons, if_pos (decide_eq_true hstays)]
  refine find?_eq_some_iff_append.2 ⟨hsees, _, _, rfl, fun e' he' => ?_⟩
  exact hfront e' (mem_of_mem_filter he')

theorem Remembered.next (h : Remembered db req x e) (hrep : req.Repeatable = true)
    (hnext : Outcome req' db y db')
    (hundissolved : ∀ b x', req'.erases = some b →
      b ∈ e.budgetId :: (e.counterBudgetId.toList ++ req.names) → y ≠ some x')
    (hunshared : ∀ u u' x', req.use = some u → u.budgetId = none → y = some x' →
      req'.use = some u' → u'.key = u.key → u'.budgetId = none) :
    Remembered db' req x e := by
  have hgrown : Grows none db db' → req.found db' = some e → Remembered db' req x e :=
    fun grows hfound => ⟨h.admitted.grows grows (fun b _ => by simp) hrep, hfound, h.replies⟩
  cases hnext with
  | quiet _ grows quietly => exact hgrown grows (quietly.found_eq.trans h.found)
  | repeated => exact h
  | @recorded x' e' db₁ _ _ fresh grows quietly events used unused =>
    refine hgrown grows ?_
    have hunseen : req.sees e' = false := not_sees_recorded h.found fresh used unused
      fun u u' hu hnone hu' hkey => hunshared u u' x' hu hnone rfl hu' hkey
    rw [BudgetRequest.found_eq, events, find?_cons_of_neg (Bool.not_eq_true _ ▸ hunseen),
      ← BudgetRequest.found_eq]
    exact quietly.found_eq.trans h.found
  | @erased b x' hreq fresh =>
    have hnamed : b ∉ e.budgetId :: (e.counterBudgetId.toList ++ req.names) :=
      fun hb => hundissolved b x' hreq hb rfl
    refine ⟨h.admitted.grows (Grows.without db b) (fun b' hb' heq => ?_) hrep,
      found_without h.found fun hb => hnamed ?_, h.replies⟩
    · rw [some.inj heq] at hnamed
      exact hnamed (mem_cons_of_mem _ (mem_append_right _ hb'))
    · rcases mem_cons.1 hb with rfl | hb
      · exact mem_cons_self
      · exact mem_cons_of_mem _ (mem_append_left _ hb)

end Keeps

/-! ## Runs -/

section Runs

variable {db db' db₀ : Db} {e : TreasuryEvent} {req : BudgetRequest} {x : Returned}
  {y : Option Returned} {draw : Draw} {hist later before : List Entry} {entry first : Entry}

theorem outcome_next (db : Db) (req : BudgetRequest) (draw : Draw) :
    Outcome req db (req.call draw db).1.toOption (req.call draw db).2 := by
  have hends := call_outcome db req draw
  unfold Ends at hends
  split at hends
  · next x db' hcall =>
    rw [hcall]
    exact hends
  · next e db' hcall =>
    rw [hcall]
    exact hends

theorem Quietly.old (h : Quietly db db') (he : e ∈ db'.events) (hkeyed : e.Keyed) :
    e ∈ db.events := by
  obtain ⟨es, hes, hquiet⟩ := h
  rw [hes] at he
  rcases mem_append.1 he with hnew | hold
  · exact absurd hkeyed (hquiet e hnew)
  · exact hold

/-- Every event with a key marks the use of a call that returned. -/
def Known (hist : List Entry) (db : Db) : Prop :=
  ∀ e ∈ db.events, e.Keyed → ∃ first ∈ hist, ∃ x u, Entry.Returns first x ∧
    first.2.1.use = some u ∧ u.Marks x e

theorem Known.next (h : Known hist db) (hnext : Outcome req db y db')
    (hreturns : ∀ x, y = some x → Entry.Returns (db, (req, draw)) x) :
    Known ((db, (req, draw)) :: hist) db' := by
  have hold : ∀ e ∈ db.events, e.Keyed → ∃ first ∈ (db, (req, draw)) :: hist, ∃ x u,
      Entry.Returns first x ∧ first.2.1.use = some u ∧ u.Marks x e := by
    intro e he hkeyed
    obtain ⟨first, hfirst, hmarked⟩ := h e he hkeyed
    exact ⟨first, mem_cons_of_mem _ hfirst, hmarked⟩
  cases hnext with
  | quiet _ grows quietly => exact fun e he hkeyed => hold e (quietly.old he hkeyed) hkeyed
  | repeated => exact hold
  | @recorded x _ _ _ _ fresh grows quietly events used unused _ =>
    intro e' he' hkeyed
    rw [events] at he'
    rcases mem_cons.1 he' with rfl | he'
    · obtain ⟨u, hu⟩ := ne_none_iff_exists'.1 fun hnone => unused hnone hkeyed
      exact ⟨_, mem_cons_self, x, u, hreturns x rfl, hu, used u hu⟩
    · exact hold e' (quietly.old he' hkeyed) hkeyed
  | erased => exact fun e he hkeyed => hold e (mem_of_mem_filter he) hkeyed

/-- What the store holds of the calls that made it. -/
structure Recalled (hist : List Entry) (db : Db) : Prop where
  known : Known hist db
  remembered : ∀ later first before x, hist = later ++ first :: before → Entry.Returns first x →
    first.2.1.use.isSome → first.2.1.Repeatable = true →
    (∀ e, first.2.1.found first.after = some e → Undisturbed later first.2.1 e) →
      ∃ e, first.2.1.found first.after = some e ∧ Remembered db first.2.1 x e

theorem Recalled.init (h : db₀.events = []) : Recalled [] db₀ where
  known := fun e he => by rw [h] at he; cases he
  remembered later first before x hsplit := by cases later <;> cases hsplit

/-- **One step**: what is recalled stays so, and the new call is recalled too. -/
theorem Recalled.next (h : Recalled hist db) :
    Recalled ((db, (req, draw)) :: hist) (req.call draw db).2 := by
  have hnext := outcome_next db req draw
  have hreturns : ∀ x, (req.call draw db).1.toOption = some x → Entry.Returns (db, (req, draw)) x :=
    fun _ => toOption_eq_some.1
  refine ⟨h.known.next hnext hreturns, ?_⟩
  intro later first before x hsplit hx hkeyed hrep hundisturbed
  cases later with
  | nil =>
    obtain ⟨rfl, -⟩ := List.cons.inj hsplit
    rw [toOption_eq_some.2 hx] at hnext
    obtain ⟨e, hremembered⟩ := hnext.remembered hkeyed hrep
    exact ⟨e, hremembered.found, hremembered⟩
  | cons entry later =>
    obtain ⟨rfl, hrest⟩ := List.cons.inj hsplit
    obtain ⟨e, hfound, hbefore⟩ := h.remembered later first before x hrest hx hkeyed hrep
      fun e he => ⟨fun entry hentry => (hundisturbed e he).undissolved entry
          (mem_cons_of_mem _ hentry),
        fun u hu hnone entry hentry => (hundisturbed e he).unshared u hu hnone entry
          (mem_cons_of_mem _ hentry)⟩
    refine ⟨e, hfound, hbefore.next hrep hnext (fun b x' herases hb hx' => ?_)
      fun u u' x' hu hnone hx' hu' hkey => ?_⟩
    · exact (hundisturbed e hfound).undissolved _ mem_cons_self b x' herases hb
        (hreturns x' hx')
    · exact (hundisturbed e hfound).unshared u hu hnone _ mem_cons_self x' u'
        (hreturns x' hx') hu' hkey

theorem Entry.executed_of_found (h : entry.2.1.found entry.1 = none) : entry.Executed := by
  refine ⟨h, fun x u hx hu => ?_⟩
  have hnext := outcome_next entry.1 entry.2.1 entry.2.2
  rw [toOption_eq_some.2 hx] at hnext
  generalize hafter : (entry.2.1.call entry.2.2 entry.1).2 = db' at hnext
  cases hnext with
  | quiet hnone =>
    rcases hnone with hnone | hnone
    · cases hnone
    · cases hu.symm.trans hnone
  | repeated _ found => cases h.symm.trans found
  | @recorded _ e _ _ _ _ _ quietly events used =>
    obtain ⟨es, hes, -⟩ := quietly
    refine .inl ⟨e, es, ?_, used u hu⟩
    rw [Entry.after, hafter, events, hes]
  | erased hreq => exact .inr ⟨_, hreq, hafter⟩

theorem KeyUse.Marks.shares {u u' : KeyUse} (h : u'.Marks x e) (hsees : u.sees e = true) :
    u.Shares u' x := by
  unfold KeyUse.Shares
  unfold KeyUse.sees at hsees
  split
  · next hhash =>
    rw [if_pos hhash] at hsees
    exact h.requestHash.symm.trans (of_decide_eq_true hsees)
  · next hhash =>
    rw [if_neg hhash] at hsees
    obtain ⟨hbudget, hkey⟩ := Bool.and_eq_true_iff.1 hsees
    refine ⟨h.key.symm.trans (of_decide_eq_true hkey), fun b hb => ?_⟩
    rw [hb] at hbudget
    rw [h.target]
    exact congrArg some (of_decide_eq_true hbudget)

theorem Recalled.deduplicates (h : Recalled hist entry.1) : entry.DeduplicatesPerBudget hist where
  retry later first before x hsplit hsame hkeyed hrep hx hundisturbed := by
    rw [← hsame] at hkeyed hrep hundisturbed ⊢
    obtain ⟨e, -, hremembered⟩ :=
      h.remembered later first before x hsplit hx hkeyed hrep hundisturbed
    exact hremembered.retry
  fresh hunshared := by
    refine Entry.executed_of_found ?_
    by_contra hfound
    obtain ⟨e, hfound⟩ := ne_none_iff_exists'.1 hfound
    obtain ⟨he, hsees⟩ := BudgetRequest.found_mem hfound
    obtain ⟨first, hfirst, x, u', hx, hu', hmarks⟩ :=
      h.known e he (BudgetRequest.keyed_of_sees hsees)
    obtain ⟨u, hu, hsees⟩ := (Option.any_eq_true _ _).1 hsees
    exact hunshared first hfirst x u u' hx hu hu' (hmarks.shares hsees)

theorem recalled_of_run (hempty : db₀.events = []) (run : Run (okStep Db.next) db₀ hist db) :
    Recalled hist db ∧ AtEach Entry.DeduplicatesPerBudget hist := by
  induction run with
  | nil => exact ⟨.init hempty, trivial⟩
  | @step earlier db db' call _ hstep ih =>
    obtain ⟨hrecalled, hlaw⟩ := ih
    cases hstep
    exact ⟨hrecalled.next, Recalled.deduplicates hrecalled, hlaw⟩

/-- **Keys deduplicate retries on a budget and nothing else**, in every run. -/
theorem keys_deduplicate (hempty : db₀.events = []) (run : Run (okStep Db.next) db₀ hist db) :
    AtEach Entry.DeduplicatesPerBudget hist :=
  (recalled_of_run hempty run).2

end Runs

def keyedFounding : BudgetRequest :=
  .createBudget "acme" none "board" "Operations" .operating "board" none (some "start")

def foundedOnce : Db := (keyedFounding.call { budgetId := "ops" } newCompany).2

/-- The budget is not founded again. -/
theorem keyedFounding_repeated :
    ∃ y, keyedFounding.call { budgetId := "dup" } foundedOnce = (.ok y, foundedOnce) ∧
      y.roleless = .budget "ops" := by
  have run : Run (okStep Db.next) newCompany [(foundedOnce, (keyedFounding, { budgetId := "dup" })),
      (newCompany, (keyedFounding, { budgetId := "ops" }))] _ := .step (.step .nil rfl) rfl
  have hfirst : (keyedFounding.call { budgetId := "ops" } newCompany).1 = .ok (.budget "ops") := by
    decide +kernel
  have hlaw := keys_deduplicate rfl run
  refine hlaw.1.retry [] _ [] (.budget "ops") rfl rfl rfl rfl hfirst fun e _ => ?_
  exact ⟨fun _ h => absurd h not_mem_nil, fun _ _ _ _ h => nomatch h⟩

def keyedSpend : BudgetRequest := .spendTreasury "ops" 5 "board" none (some "start")

/-- A spend with the key that founded the budget is answered, and not executed. -/
theorem not_deduplicates : ¬ ∀ hist db, Run (okStep Db.next) newCompany hist db →
    AtEach Entry.Deduplicates hist := by
  intro hall
  have run : Run (okStep Db.next) newCompany [(foundedOnce, (keyedSpend, {})),
      (newCompany, (keyedFounding, { budgetId := "ops" }))] _ := .step (.step .nil rfl) rfl
  have hexecuted := (hall _ _ run).1.fresh fun first hfirst x u _ hu hu' => by
    rw [mem_singleton.1 hfirst] at hu'
    cases hu
    exact nomatch hu'
  have hreturns : (keyedSpend.call {} foundedOnce).1 = .ok .unit := by decide +kernel
  have hlength : (keyedSpend.call {} foundedOnce).2.events.length = foundedOnce.events.length := by
    decide +kernel
  rcases hexecuted.marked .unit _ hreturns rfl with ⟨e, es, hevents, -⟩ | ⟨b, herases, -⟩
  · have hmore := congrArg List.length hevents
    simp only [length_cons, length_append] at hmore
    have hsame : (keyedSpend.call {} foundedOnce).2.events.length = _ := hmore
    omega
  · cases herases

end Aeqi.Orchestrator
