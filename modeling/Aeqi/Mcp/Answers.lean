import Aeqi.Lib.Result
import Aeqi.Mcp.Client
import Mathlib.Tactic.Ring

/-!
# Whether requests get their own answers

An answer is a message with the id of a request that waits, whatever else it carries; and a request
that waits when the transport closes waits on. `requests_answered` says under which conditions on
the steps every request gets its own answer, none is left in the map and none waits in vain.
-/

namespace Aeqi.Mcp

open Aeqi.Lib Option
open Client (exec fetch put receive register send unregister)

variable {ι V : Type}

/-! ## Which requests the map may have -/

/-- The entry of a request may be in the map. -/
def Phase.holds (id : Nat) : Phase V → Prop
  | .registered id' slot | .awaiting id' slot => id' = id ∧ slot = .empty
  | .sendFailed id' | .timedOut id' => id' = id
  | _ => False

/-- What was sent to the receiver, if it is still there. -/
def Phase.answer : Phase V → Option (IncomingMessage V)
  | .registered _ (.filled msg) | .awaiting _ (.filled msg) => some msg
  | _ => none

/-- There is no answer, no result, and something to be done. -/
def Phase.quiet : Phase V → Bool
  | .registered _ (.filled _) | .awaiting _ (.filled _) | .awaiting _ .empty
  | .returned _ (.ok _) => false
  | _ => true

/-- No answer is there, and no step of the request but the end of its time. -/
def Phase.Waits (p : Phase V) : Prop := ∃ id, p = .awaiting id .empty

def IncomingMessage.Answers (msg : IncomingMessage V) (v : V) : Prop :=
  msg.error = none ∧ msg.result = some v

def Heard (ctx : McpCtx ι V) (hist : List (Client ι V × McpStep ι)) (msg : IncomingMessage V) :
    Prop :=
  ∃ e ∈ hist, ∃ line, e.2 = .inbound line ∧ ctx.decode line = some msg

theorem Heard.mono {ctx : McpCtx ι V} {hist : List (Client ι V × McpStep ι)}
    {e : Client ι V × McpStep ι} {msg : IncomingMessage V} (h : Heard ctx hist msg) :
    Heard ctx (e :: hist) msg := by
  obtain ⟨e', he', hline⟩ := h
  exact ⟨e', List.mem_cons_of_mem _ he', hline⟩

theorem Phase.holds_id {p : Phase V} {id : Nat} (h : p.holds id) : p.id? = some id := by
  cases p with
  | registered id' slot | awaiting id' slot => exact congrArg some h.1
  | sendFailed id' | timedOut id' => exact congrArg some h
  | idle | checked | issued | returned => exact h.elim

theorem Phase.quiet_iff {p : Phase V} :
    p.quiet ↔ p.answer = none ∧ (∀ id v, p ≠ .returned id (.ok v)) ∧ ¬ p.Waits := by
  cases p with
  | registered id slot | awaiting id slot => cases slot <;> simp [quiet, answer, Waits]
  | returned id result => cases result <;> simp [quiet, answer, Waits]
  | idle | checked | issued | sendFailed | timedOut => simp [quiet, answer, Waits]

/-! ## The guarantee -/

def Phase.Pending (p : Phase V) : Prop := p ≠ .idle ∧ ∀ id result, p ≠ .returned id result

/-- The request has a next step that is not the end of its time. -/
def Proceeds [DecidableEq ι] (ctx : McpCtx ι V) (s : Client ι V) (i : ι) : Prop :=
  ∃ st ∈ [.fetch i, .register i, .send i true, .unregister i, .receive i],
    (s.exec ctx st).isOk

/-- A result is that of a response with the request's id and no method; ids are different; a request
that has returned is not in the map; none waits once no answer can come. -/
structure Answered [DecidableEq ι] (ctx : McpCtx ι V) (hist : List (Client ι V × McpStep ι)) (s : Client ι V) :
    Prop where
  own : ∀ i id v, s.requests i = .returned id (.ok v) → ∃ msg, Heard ctx hist msg ∧
    msg.id.isSome ∧ msg.id = id ∧ msg.method = none ∧ msg.Answers v
  distinct : ∀ i j id, (s.requests i).id? = some id → (s.requests j).id? = some id → i = j
  gone : ∀ i id r, s.requests i = .returned (some id) r → s.pending.lookup id = none
  prompt : s.closed.isSome ∨ s.ended = true → ∀ i, (s.requests i).Pending → Proceeds ctx s i

/-- The condition on a step: no more ids than a `u64` counts; a message for a request that waits has
no method, if it has a result; the transport closes, and the inbound lines end, while no request
waits, and none begins to wait afterwards. -/
def Fair (ctx : McpCtx ι V) (s : Client ι V) : McpStep ι → Prop
  | .fetch _ => s.issued < 2 ^ 64
  | .inbound line => ∀ msg ∈ ctx.decode line, ∀ id ∈ msg.id, s.pending.lookup id ≠ none →
      msg.method = none ∨ ∀ v, ¬ msg.Answers v
  | .inboundEnd | .markClosed _ => ∀ i, ¬ (s.requests i).Waits
  | .send i true => s.closed.isSome ∨ s.ended = true →
      ∀ id, s.requests i ≠ .registered id .empty
  | _ => True

theorem proceeds_iff [DecidableEq ι] {ctx : McpCtx ι V} {s : Client ι V} {i : ι}
    (hi : (s.requests i).Pending) : Proceeds ctx s i ↔ ¬ (s.requests i).Waits := by
  constructor
  · rintro ⟨st, hst, hok⟩ ⟨id, hwaits⟩
    simp only [List.mem_cons, List.not_mem_nil, or_false] at hst
    rcases hst with rfl | rfl | rfl | rfl | rfl <;>
      simp [exec, fetch, register, send, unregister, receive, hwaits, Except.toBool] at hok
  · intro hwaits
    cases hphase : s.requests i with
    | idle => exact absurd hphase hi.1
    | returned id result => exact absurd hphase (hi.2 id result)
    | checked =>
      exact ⟨.fetch i, by simp, by simp only [exec, fetch, hphase]; rfl⟩
    | issued id =>
      exact ⟨.register i, by simp, by simp only [exec, register, hphase]; rfl⟩
    | registered id slot =>
      exact ⟨.send i true, by simp, by simp only [exec, send, hphase]; rfl⟩
    | sendFailed id | timedOut id =>
      exact ⟨.unregister i, by simp, by simp only [exec, unregister, hphase]; rfl⟩
    | awaiting id slot =>
      cases slot with
      | empty => exact absurd ⟨id, hphase⟩ hwaits
      | filled | dropped =>
        exact ⟨.receive i, by simp, by simp only [exec, receive, hphase]; rfl⟩

/-- What every fair step preserves. -/
structure Inv (ctx : McpCtx ι V) (hist : List (Client ι V × McpStep ι)) (s : Client ι V) :
    Prop where
  entry : ∀ id i, s.pending.lookup id = some i → (s.requests i).holds id
  counted : ∀ i id, (s.requests i).id? = some id → ∃ n < s.issued, id = (1 + n) % 2 ^ 64
  distinct : ∀ i j id, (s.requests i).id? = some id → (s.requests j).id? = some id → i = j
  answer : ∀ i msg, (s.requests i).answer = some msg → Heard ctx hist msg ∧
    msg.id.isSome ∧ msg.id = (s.requests i).id? ∧ (msg.method = none ∨ ∀ v, ¬ msg.Answers v)
  own : ∀ i id v, s.requests i = .returned id (.ok v) → ∃ msg, Heard ctx hist msg ∧
    msg.id.isSome ∧ msg.id = id ∧ msg.method = none ∧ msg.Answers v
  prompt : s.closed.isSome ∨ s.ended = true → ∀ i, ¬ (s.requests i).Waits

namespace Inv

variable {ctx : McpCtx ι V} {s s' : Client ι V} {hist : List (Client ι V × McpStep ι)}
  {e : Client ι V × McpStep ι} {i : ι} {p : Phase V}

theorem keep (h : Inv ctx hist s) (hrequests : s'.requests = s.requests)
    (hissued : s'.issued = s.issued)
    (hentry : ∀ id j, s'.pending.lookup id = some j → s.pending.lookup id = some j)
    (hprompt : s'.closed.isSome ∨ s'.ended = true → ∀ i, ¬ (s.requests i).Waits) :
    Inv ctx (e :: hist) s' := by
  refine ⟨fun id j hj => ?_, ?_, ?_, fun j msg hj => ?_, fun j id v hj => ?_, ?_⟩
  · rw [hrequests]
    exact h.entry id j (hentry id j hj)
  · rw [hrequests, hissued]
    exact h.counted
  · rw [hrequests]
    exact h.distinct
  · rw [hrequests] at hj ⊢
    obtain ⟨hmsg, hrest⟩ := h.answer j msg hj
    exact ⟨hmsg.mono, hrest⟩
  · rw [hrequests] at hj
    obtain ⟨msg, hmsg, hrest⟩ := h.own j id v hj
    exact ⟨msg, hmsg.mono, hrest⟩
  · rw [hrequests]
    exact hprompt

theorem init : Inv ctx hist ({} : Client ι V) where
  entry id i h := by simp at h
  counted i id h := by cases h
  distinct i j id h := by cases h
  answer i msg h := by cases h
  own i id v h := by cases h
  prompt h := by simp at h

theorem entries (h : Inv ctx hist s) (hp : ∀ id, (s.requests i).holds id → p.holds id) (id : Nat)
    (j : ι) (hj : s.pending.lookup id = some j) :
    j ≠ i ∧ s.pending.lookup id = some j ∨ j = i ∧ p.holds id := by
  by_cases hji : j = i
  · subst hji
    exact .inr ⟨rfl, hp id (h.entry id j hj)⟩
  · exact .inl ⟨hji, hj⟩

theorem entries_erase (h : Inv ctx hist s) {own : Nat} (hown : (s.requests i).id? = some own)
    (id : Nat) (j : ι) (hj : (s.pending.erase own).lookup id = some j) :
    j ≠ i ∧ s.pending.lookup id = some j ∨ j = i ∧ p.holds id := by
  have hne : id ≠ own := by
    rintro rfl
    rw [AList.lookup_erase] at hj
    cases hj
  rw [AList.lookup_erase_ne hne] at hj
  refine .inl ⟨?_, hj⟩
  rintro rfl
  exact hne (some.inj ((Phase.holds_id (h.entry id j hj)).symm.trans hown))

variable [DecidableEq ι]

theorem answered (h : Inv ctx hist s) : Answered ctx hist s where
  own := h.own
  distinct := h.distinct
  prompt hend i hi := (proceeds_iff hi).2 (h.prompt hend i)
  gone i id r hi := by
    by_contra hne
    obtain ⟨j, hj⟩ := Option.ne_none_iff_exists'.1 hne
    have hholds := h.entry id j hj
    have hid : (s.requests i).id? = some id := by rw [hi]; rfl
    obtain rfl := h.distinct i j id hid (Phase.holds_id hholds)
    rw [hi] at hholds
    exact hholds

theorem move (h : Inv ctx hist s) (hrequests : s'.requests = Function.update s.requests i p)
    (hissued : s.issued ≤ s'.issued)
    (hentry : ∀ id j, s'.pending.lookup id = some j →
      j ≠ i ∧ s.pending.lookup id = some j ∨ j = i ∧ p.holds id)
    (hid : ∀ id, p.id? = some id → (s.requests i).id? = some id ∨
      (∀ j, (s.requests j).id? ≠ some id) ∧ ∃ n < s'.issued, id = (1 + n) % 2 ^ 64)
    (hanswer : ∀ msg, p.answer = some msg → Heard ctx (e :: hist) msg ∧
      msg.id.isSome ∧ msg.id = p.id? ∧ (msg.method = none ∨ ∀ v, ¬ msg.Answers v))
    (hown : ∀ id v, p = .returned id (.ok v) → ∃ msg, Heard ctx (e :: hist) msg ∧
      msg.id.isSome ∧ msg.id = id ∧ msg.method = none ∧ msg.Answers v)
    (hprompt : s'.closed.isSome ∨ s'.ended = true →
      (s.closed.isSome ∨ s.ended = true) ∧ ¬ p.Waits) : Inv ctx (e :: hist) s' := by
  have hself : s'.requests i = p := by rw [hrequests, Function.update_self]
  have hother {j : ι} (hj : j ≠ i) : s'.requests j = s.requests j := by
    rw [hrequests, Function.update_of_ne hj]
  refine ⟨fun id j hj => ?_, fun j id hj => ?_, fun j k id hj hk => ?_, fun j msg hj => ?_,
    fun j id v hj => ?_, fun hend j => ?_⟩
  · rcases hentry id j hj with ⟨hne, hold⟩ | ⟨rfl, hholds⟩
    · rw [hother hne]
      exact h.entry id j hold
    · rwa [hself]
  · by_cases hji : j = i
    · subst hji
      rw [hself] at hj
      rcases hid id hj with hold | ⟨-, hfresh⟩
      · obtain ⟨n, hn, hcount⟩ := h.counted j id hold
        exact ⟨n, Nat.lt_of_lt_of_le hn hissued, hcount⟩
      · exact hfresh
    · rw [hother hji] at hj
      obtain ⟨n, hn, hcount⟩ := h.counted j id hj
      exact ⟨n, Nat.lt_of_lt_of_le hn hissued, hcount⟩
  · have hmoved {k : ι} (hki : k ≠ i) (hk : (s'.requests k).id? = some id)
        (hi : (s'.requests i).id? = some id) : k = i := by
      rw [hother hki] at hk
      rw [hself] at hi
      rcases hid id hi with hold | ⟨hfresh, -⟩
      · exact h.distinct k i id hk hold
      · exact absurd hk (hfresh k)
    by_cases hji : j = i
    · by_cases hki : k = i
      · exact hji.trans hki.symm
      · exact hji.trans (hmoved hki hk (hji ▸ hj)).symm
    · by_cases hki : k = i
      · exact (hmoved hji hj (hki ▸ hk)).trans hki.symm
      · rw [hother hji] at hj
        rw [hother hki] at hk
        exact h.distinct j k id hj hk
  · by_cases hji : j = i
    · subst hji
      rw [hself] at hj ⊢
      exact hanswer msg hj
    · rw [hother hji] at hj ⊢
      obtain ⟨hmsg, hrest⟩ := h.answer j msg hj
      exact ⟨hmsg.mono, hrest⟩
  · by_cases hji : j = i
    · subst hji
      rw [hself] at hj
      exact hown id v hj
    · rw [hother hji] at hj
      obtain ⟨msg, hmsg, hrest⟩ := h.own j id v hj
      exact ⟨msg, hmsg.mono, hrest⟩
  · obtain ⟨hbefore, hp⟩ := hprompt hend
    by_cases hji : j = i
    · subst hji
      rwa [hself]
    · rw [hother hji]
      exact h.prompt hbefore j

theorem moveOn (h : Inv ctx hist s) (hrequests : s'.requests = Function.update s.requests i p)
    (hissued : s.issued ≤ s'.issued) (hclosed : s'.closed = s.closed) (hended : s'.ended = s.ended)
    (hentry : ∀ id j, s'.pending.lookup id = some j →
      j ≠ i ∧ s.pending.lookup id = some j ∨ j = i ∧ p.holds id)
    (hid : ∀ id, p.id? = some id → (s.requests i).id? = some id ∨
      (∀ j, (s.requests j).id? ≠ some id) ∧ ∃ n < s'.issued, id = (1 + n) % 2 ^ 64)
    (hp : p.quiet) : Inv ctx (e :: hist) s' := by
  obtain ⟨hanswer, hown, hwaits⟩ := Phase.quiet_iff.1 hp
  refine h.move hrequests hissued hentry hid (fun msg hmsg => ?_) (fun id v hv => ?_) fun hend => ?_
  · rw [hanswer] at hmsg
    cases hmsg
  · exact absurd hv (hown id v)
  · rw [hclosed, hended] at hend
    exact ⟨hend, hwaits⟩

/-! ### Steps -/

theorem call (h : Inv ctx hist s) (hstep : s.call i = .ok s') : Inv ctx (e :: hist) s' := by
  unfold Client.call at hstep
  split at hstep
  · next hi =>
    have hentries {p : Phase V} := h.entries (i := i) (p := p)
      (by rw [hi]; exact fun _ hfalse => hfalse.elim)
    split at hstep
    · obtain rfl := Except.ok.inj hstep
      exact h.moveOn rfl (le_rfl) rfl rfl hentries (nofun) rfl
    · obtain rfl := Except.ok.inj hstep
      exact h.moveOn rfl (le_rfl) rfl rfl hentries (nofun) rfl
  · cases hstep

theorem fetch (h : Inv ctx hist s) (hfair : s.issued < 2 ^ 64) (hstep : s.fetch i = .ok s') :
    Inv ctx (e :: hist) s' := by
  unfold Client.fetch at hstep
  split at hstep
  · next hi =>
    obtain rfl := Except.ok.inj hstep
    refine h.moveOn rfl (Nat.le_succ _) rfl rfl
      (h.entries (by rw [hi]; exact fun _ hfalse => hfalse.elim)) (fun id hid => .inr ?_) rfl
    obtain rfl := some.inj hid
    refine ⟨fun j hj => ?_, s.issued, Nat.lt_succ_self _, rfl⟩
    obtain ⟨n, hn, hcount⟩ := h.counted j _ hj
    unfold Client.nextId at hcount
    omega
  · cases hstep

theorem register (h : Inv ctx hist s) (hstep : s.register i = .ok s') :
    Inv ctx (e :: hist) s' := by
  unfold Client.register at hstep
  split at hstep
  · next own hi =>
    have hid : (s.requests i).id? = some own := by rw [hi]; rfl
    have hfree : s.pending.lookup own = none := by
      by_contra hne
      obtain ⟨j, hj⟩ := Option.ne_none_iff_exists'.1 hne
      have hholds := h.entry own j hj
      obtain rfl := h.distinct i j own hid (Phase.holds_id hholds)
      rw [hi] at hholds
      exact hholds
    have hdrop : s.dropSender own = s := by
      unfold Client.dropSender
      rw [hfree]
    rw [hdrop] at hstep
    obtain rfl := Except.ok.inj hstep
    refine h.moveOn rfl (le_rfl) rfl rfl (fun id j hj => ?_) (fun id hid' => .inl ?_) rfl
    · change (s.pending.insert own i).lookup id = some j at hj
      by_cases hne : id = own
      · subst hne
        rw [AList.lookup_insert] at hj
        exact .inr ⟨(some.inj hj).symm, rfl, rfl⟩
      · rw [AList.lookup_insert_ne hne] at hj
        refine h.entries (i := i) (fun id' hold => ?_) id j hj
        rw [hi] at hold
        exact hold.elim
    · exact hid.trans hid'
  · cases hstep

theorem send {sent : Bool} (h : Inv ctx hist s) (hfair : Fair ctx s (.send i sent))
    (hstep : s.send i sent = .ok s') : Inv ctx (e :: hist) s' := by
  unfold Client.send at hstep
  split at hstep
  · next own slot hi =>
    obtain rfl := Except.ok.inj hstep
    cases sent with
    | false =>
      refine h.moveOn rfl (le_rfl) rfl rfl (h.entries ?_) (fun id hid => .inl ?_) rfl
      · rw [hi]
        exact fun _ hold => hold.1
      · rw [hi]
        exact hid
    | true =>
      refine h.move rfl (le_rfl) (h.entries ?_) (fun id hid => .inl ?_) (fun msg hmsg => ?_)
        (nofun) fun hend => ⟨hend, ?_⟩
      · rw [hi]
        exact fun _ hold => hold
      · rw [hi]
        exact hid
      · have hold : (s.requests i).answer = some msg := by
          rw [hi]
          cases slot <;> exact hmsg
        obtain ⟨hheard, hrest⟩ := h.answer i msg hold
        rw [hi] at hrest
        exact ⟨hheard.mono, hrest⟩
      · rintro ⟨id, hid⟩
        cases hid
        exact hfair hend _ hi
  · cases hstep

theorem expire (h : Inv ctx hist s) (hstep : s.expire i = .ok s') : Inv ctx (e :: hist) s' := by
  unfold Client.expire at hstep
  split at hstep
  · next own hi =>
    obtain rfl := Except.ok.inj hstep
    refine h.moveOn rfl (le_rfl) rfl rfl (h.entries ?_) (fun id hid => .inl ?_) rfl
    · rw [hi]
      exact fun _ hold => hold.1
    · rw [hi]
      exact hid
  · cases hstep

theorem unregister (h : Inv ctx hist s) (hstep : s.unregister ctx i = .ok s') :
    Inv ctx (e :: hist) s' := by
  unfold Client.unregister at hstep
  split at hstep
  iterate 2
    next own hi =>
      have hid : (s.requests i).id? = some own := by rw [hi]; rfl
      obtain rfl := Except.ok.inj hstep
      exact h.moveOn rfl (le_rfl) rfl rfl (h.entries_erase hid)
        (fun _ hid' => .inl (hid.trans hid')) rfl
  · cases hstep

theorem responseResult_ok {msg : IncomingMessage V} {v : V}
    (h : Client.responseResult msg = .ok v) : msg.Answers v := by
  unfold Client.responseResult at h
  split at h
  · cases h
  · next herror =>
    split at h
    · next result hresult =>
      obtain rfl := Except.ok.inj h
      exact ⟨herror, hresult⟩
    · cases h

theorem receive (h : Inv ctx hist s) (hstep : s.receive i = .ok s') : Inv ctx (e :: hist) s' := by
  unfold Client.receive at hstep
  split at hstep
  · next own msg hi =>
    have hid : (s.requests i).id? = some own := by rw [hi]; rfl
    have hmsg : (s.requests i).answer = some msg := by rw [hi]; rfl
    obtain rfl := Except.ok.inj hstep
    refine h.move rfl (le_rfl) (h.entries ?_) (fun _ hid' => .inl (hid.trans hid'))
      (nofun) (fun id v hv => ?_) fun hend => ⟨hend, ?_⟩
    · rw [hi]
      rintro - ⟨-, hslot⟩
      cases hslot
    · obtain ⟨hheard, hsome, hown, hmethod⟩ := h.answer i msg hmsg
      obtain ⟨rfl, hresult⟩ := Phase.returned.inj hv
      have hanswers := responseResult_ok hresult
      exact ⟨msg, hheard.mono, hsome, hown.trans hid,
        hmethod.resolve_right fun hnot => hnot v hanswers, hanswers⟩
    · rintro ⟨id, hid'⟩
      cases hid'
  · next own hi =>
    have hid : (s.requests i).id? = some own := by rw [hi]; rfl
    obtain rfl := Except.ok.inj hstep
    refine h.moveOn rfl (le_rfl) rfl rfl (h.entries ?_)
      (fun _ hid' => .inl (hid.trans hid')) rfl
    rw [hi]
    rintro - ⟨-, hslot⟩
    cases hslot
  · cases hstep

theorem fill (h : Inv ctx hist s) {own : Nat} {msg : IncomingMessage V}
    (hentry : s.pending.lookup own = some i) (hid : msg.id = some own)
    (hheard : Heard ctx (e :: hist) msg) (hmethod : msg.method = none ∨ ∀ v, ¬ msg.Answers v) :
    Inv ctx (e :: hist) (({ s with pending := s.pending.erase own } : Client ι V).put i
      (.filled msg)) := by
  have hholds := h.entry own i hentry
  have hown := Phase.holds_id hholds
  have hfill {p : Phase V} (hp : p.id? = some own) (hanswer : p.answer = some msg)
      (hreturned : ∀ id v, p ≠ .returned id (.ok v)) (hwaits : ¬ p.Waits) :
      Inv ctx (e :: hist) (({ s with pending := s.pending.erase own } : Client ι V).set i p) := by
    refine h.move rfl (le_rfl) (h.entries_erase hown)
      (fun id hid' => .inl (hown.trans (hp.symm.trans hid'))) (fun msg' hmsg' => ?_)
      (fun id v hv => absurd hv (hreturned id v)) fun hend => ⟨hend, hwaits⟩
    obtain rfl := some.inj (hanswer.symm.trans hmsg')
    exact ⟨hheard, by rw [hid]; rfl, hid.trans hp.symm, hmethod⟩
  have hkeep : Inv ctx (e :: hist) { s with pending := s.pending.erase own } := by
    refine h.keep rfl rfl (fun id j hj => ?_) h.prompt
    rcases h.entries_erase (i := i) (p := .idle) hown id j hj with ⟨-, hold⟩ | ⟨-, hfalse⟩
    · exact hold
    · exact hfalse.elim
  unfold put
  split
  iterate 2
    next id hi =>
      have heq : id = own := by
        rw [hi] at hholds
        exact hholds.1
      subst heq
      exact hfill rfl rfl (nofun) (by rintro ⟨id', hid'⟩; cases hid')
  · exact hkeep

theorem dispatchInbound {line : String} (h : Inv ctx hist s)
    (hfair : Fair ctx s (.inbound line)) :
    Inv ctx ((s, .inbound line) :: hist) (s.dispatchInbound ctx line) := by
  have hkeep {notified : List (Notification V)} :
      Inv ctx ((s, .inbound line) :: hist) { s with notified } :=
    h.keep rfl rfl (fun _ _ hj => hj) h.prompt
  unfold Client.dispatchInbound
  split
  · exact hkeep
  · next msg hdecode =>
    split
    · next id hid =>
      split
      · next i hentry =>
        refine h.fill hentry hid ⟨_, List.mem_cons_self, line, rfl, hdecode⟩ ?_
        exact hfair msg hdecode id hid (by rw [hentry]; exact Option.some_ne_none i)
      · exact hkeep
    · exact hkeep
    · exact hkeep

theorem step {st : McpStep ι} (h : Inv ctx hist s) (hfair : Fair ctx s st)
    (hstep : s.exec ctx st = .ok s') : Inv ctx ((s, st) :: hist) s' := by
  cases st with
  | call i => exact h.call hstep
  | fetch i => exact h.fetch hfair hstep
  | register i => exact h.register hstep
  | send i sent => exact h.send hfair hstep
  | expire i => exact h.expire hstep
  | unregister i => exact h.unregister hstep
  | receive i => exact h.receive hstep
  | inbound line =>
    simp only [exec] at hstep
    split at hstep
    · cases hstep
    · obtain rfl := Except.ok.inj hstep
      exact h.dispatchInbound hfair
  | inboundEnd =>
    simp only [exec] at hstep
    split at hstep
    · cases hstep
    · obtain rfl := Except.ok.inj hstep
      exact h.keep rfl rfl (fun _ _ hj => hj) fun _ => hfair
  | markClosed reason =>
    obtain rfl := Except.ok.inj hstep
    exact h.keep rfl rfl (fun _ _ hj => hj) fun _ => hfair

end Inv

/-- **Every request gets its own answer** and none waits in vain, in every run whose steps are
fair. -/
theorem requests_answered [DecidableEq ι] {ctx : McpCtx ι V} {s : Client ι V}
    {hist : List (Client ι V × McpStep ι)}
    (run : Run (Guarded (Fair ctx) (okStep (Client.exec ctx))) {} hist s) :
    Answered ctx hist s := by
  refine Inv.answered ?_
  induction run with
  | nil => exact Inv.init
  | step _ hstep ih => exact ih.step hstep.1 hstep.2

/-! ### One request -/

/-- The peer says `pong`, which answers the first request. -/
def pongCtx : McpCtx Unit Unit where
  decode line := if line = "pong" then some { id := some 1, result := some () } else none
  null := ()
  method _ := "tools/list"
  callTimeout := "60s"

/-- The transport closes after the answer. -/
abbrev pongSteps : List (McpStep Unit) :=
  [.call (), .fetch (), .register (), .send () true, .inbound "pong", .receive (),
    .markClosed "subprocess stdout EOF"]

theorem pong_answered : ∃ hist s, Run (okStep (Client.exec pongCtx)) {} hist s ∧
    s.requests () = .returned (some 1) (.ok ()) ∧ Answered pongCtx hist s := by
  have hanswer {msg : IncomingMessage Unit} (hmsg : msg ∈ pongCtx.decode "pong") :
      msg.method = none := by
    obtain rfl := some.inj hmsg
    rfl
  have hgood : AllGood (Fair pongCtx) (exec pongCtx) {} pongSteps := by
    refine ⟨trivial, Nat.two_pow_pos 64, trivial, ?_, fun _ hmsg _ _ _ => .inl (hanswer hmsg), trivial,
      ?_, trivial⟩
    · exact fun hend => hend.elim Bool.noConfusion Bool.noConfusion
    · rintro _ ⟨id, hid⟩
      have hreturned : (Phase.returned (some 1) (.ok ()) : Phase Unit) = .awaiting id .empty := hid
      cases hreturned
  obtain ⟨hist, s, hs, run⟩ := Run.of_allGood .nil hgood
  refine ⟨hist, s, (Run.guarded_iff.1 run).1, ?_, requests_answered run⟩
  have hfacts : (execAll (exec pongCtx) {} pongSteps).toOption.map
      (fun s => s.requests ()) = some (.returned (some 1) (.ok ())) := rfl
  rw [hs] at hfacts
  exact some.inj hfacts

/-- It closes before, and the request waits. -/
theorem not_requests_answered : ¬ ∀ (ctx : McpCtx Unit Unit) hist s,
    Run (okStep (Client.exec ctx)) {} hist s → Answered ctx hist s := by
  intro hall
  have hfacts : (execAll (exec pongCtx) {} [.call (), .fetch (), .register (),
      .send () true, .markClosed "subprocess stdout EOF"]).toOption.map
        (fun s => (s.requests (), s.closed.isSome)) = some (.awaiting 1 .empty, true) := rfl
  obtain ⟨s, hs, hfacts⟩ := toOption_map_eq_some.1 hfacts
  obtain ⟨hphase, hclosed⟩ := Prod.mk.inj hfacts
  obtain ⟨hist, run⟩ := Run.execAll hs
  have hpending : (s.requests ()).Pending := by
    rw [hphase]
    exact ⟨by simp, by simp⟩
  exact (proceeds_iff hpending).1 ((hall pongCtx hist s run).prompt (.inl hclosed) () hpending)
    ⟨1, hphase⟩

end Aeqi.Mcp
