import Mathlib.Data.List.MinMax

/-!
# Rotating credentials (`credential_pool.rs`)

A pool hands its keys out in turn and leaves out those that cool down. The cooldowns are fields of
the pool which `with_keys` alone sets, so they are constants here. Moments are numbers of
nanoseconds; the clock is read once for each credential that is looked at, and no reading need
agree with another.
-/

namespace Aeqi.Providers

open List Option

inductive RotationStrategy
  | roundRobin
  | leastUsed
  | random
  | fillFirst
  deriving DecidableEq

structure Credential where
  key : String
  useCount : UInt64 := 0
  exhaustedAt : Option Nat := none
  cooldown : Nat

namespace Credential

variable (c : Credential)

def isAvailable (now : Nat) : Bool := c.exhaustedAt.all fun moment => c.cooldown ≤ now - moment

def markUsed : Credential := { c with useCount := c.useCount + 1 }

def markExhausted (cooldown now : Nat) : Credential :=
  { c with cooldown, exhaustedAt := some now }

end Credential

/-- Why a key is marked. -/
inductive Failure
  | rateLimited
  | authError

/-- `rate_limit_cooldown`, an hour, and `auth_error_cooldown`, a day. -/
def Failure.cooldown : Failure → Nat
  | .rateLimited => 3600000000000
  | .authError => 86400000000000

structure Mark where
  failure : Failure
  key : String
  now : Nat

def Mark.until (m : Mark) : Nat := m.now + m.failure.cooldown

structure CredentialPool where
  credentials : List Credential
  strategy : RotationStrategy
  nextIndex : Nat := 0

/-- `iter_mut().find(..)`: the first credential with the key is written. -/
def markFirst (key : String) (f : Credential → Credential) : List Credential → List Credential
  | [] => []
  | c :: rest => if c.key = key then f c :: rest else c :: markFirst key f rest

namespace CredentialPool

def withKeys (keys : List String) (strategy : RotationStrategy) : CredentialPool where
  credentials := keys.map fun key => { key, cooldown := Failure.rateLimited.cooldown }
  strategy

variable (p : CredentialPool)

def available (clock : Nat → Nat) : List Nat :=
  (List.range p.credentials.length).filter fun i =>
    p.credentials[i]?.any (·.isAvailable (clock i))

/-- `(start..len).chain(0..start)`. -/
def turns (start : Nat) : List Nat :=
  (List.range p.credentials.length).filter (start ≤ ·) ++
    (List.range p.credentials.length).filter (· < start)

def pick (available : List Nat) (first seed : Nat) : Nat :=
  match p.strategy with
  | .roundRobin =>
    ((p.turns (p.nextIndex % p.credentials.length)).find? (· ∈ available)).getD first
  | .leastUsed =>
    (available.argmin fun i => (p.credentials[i]?.map (·.useCount.toNat)).getD 0).getD first
  | .random => (available[seed % available.length]?).getD first
  | .fillFirst => first

/-- The index that is returned, if any; `seed` are the nanoseconds of the system's clock. -/
def choose (clock : Nat → Nat) (seed : Nat) : Option Nat :=
  match p.available clock with
  | [] => none
  | first :: rest => some (p.pick (first :: rest) first seed)

def nextKey (clock : Nat → Nat) (seed : Nat) : Option String × CredentialPool :=
  match p.choose clock seed with
  | none => (none, p)
  | some idx =>
    (p.credentials[idx]?.map (·.key),
      { p with
        credentials := p.credentials.modify idx Credential.markUsed
        nextIndex := if p.strategy = .roundRobin then idx + 1 else p.nextIndex })

def mark (m : Mark) : CredentialPool :=
  { p with
    credentials := markFirst m.key (·.markExhausted m.failure.cooldown m.now) p.credentials }

def markRateLimited (key : String) (now : Nat) : CredentialPool := p.mark ⟨.rateLimited, key, now⟩

def markAuthError (key : String) (now : Nat) : CredentialPool := p.mark ⟨.authError, key, now⟩

end CredentialPool

/-! ## Runs -/

inductive Call
  | next (clock : Nat → Nat) (seed : Nat)
  | mark (m : Mark)

def Cooling (marks : List Mark) (key : String) (now : Nat) : Prop :=
  ∃ m ∈ marks, m.key = key ∧ now < m.until

def Call.marks : Call → List Mark
  | .next _ _ => []
  | .mark m => [m]

namespace CredentialPool

variable (p : CredentialPool)

def step : Call → Option String × CredentialPool
  | .next clock seed => p.nextKey clock seed
  | .mark m => (none, p.mark m)

def after (calls : List Call) : CredentialPool := calls.foldl (fun p call => (p.step call).2) p

/-- The keys that calls of `next_key` return. -/
def returned : CredentialPool → List Call → List String
  | _, [] => []
  | p, call :: calls => (p.step call).1.toList ++ returned (p.step call).2 calls

/-- A mark finds one credential at most, and no cooldown of its key that lasts longer. -/
def Plain : Call → Prop
  | .next _ _ => True
  | .mark m => p.credentials.countP (·.key = m.key) ≤ 1 ∧
      ∀ c ∈ p.credentials, c.key = m.key → c.isAvailable m.until

def AllPlain (calls : List Call) : Prop :=
  ∀ before call later, calls = before ++ call :: later → (p.after before).Plain call

def Tells (marks : List Mark) : Prop :=
  ∀ c ∈ p.credentials, ∀ now, c.isAvailable now = true ↔ ¬ Cooling marks c.key now

end CredentialPool

section Steps

variable {p : CredentialPool} {clock : Nat → Nat} {seed idx i now : Nat} {m : Mark}
  {marks : List Mark} {key : String} {f : Credential → Credential} {cs : List Credential}
  {c : Credential}

theorem isAvailable_markExhausted {failure : Failure} {t : Nat} :
    (c.markExhausted failure.cooldown t).isAvailable now = true ↔ t + failure.cooldown ≤ now := by
  have hpos : 0 < failure.cooldown := by cases failure <;> decide
  change decide (failure.cooldown ≤ now - t) = true ↔ _
  rw [decide_eq_true_eq]
  omega

theorem isAvailable_mono {now' : Nat} (h : c.isAvailable now = true) (hle : now ≤ now') :
    c.isAvailable now' = true := by
  unfold Credential.isAvailable at h ⊢
  cases hmoment : c.exhaustedAt with
  | none => rfl
  | some moment =>
    rw [hmoment] at h
    simp only [all_some, decide_eq_true_eq] at h ⊢
    omega

theorem keys_markFirst (hf : ∀ c, (f c).key = c.key) :
    (markFirst key f cs).map (·.key) = cs.map (·.key) := by
  induction cs with
  | nil => rfl
  | cons c cs ih =>
    rw [markFirst]
    split
    · rw [map_cons, hf, map_cons]
    · rw [map_cons, ih, map_cons]

theorem mem_markFirst (hone : cs.countP (·.key = key) ≤ 1) (h : c ∈ markFirst key f cs) :
    (∃ old ∈ cs, old.key = key ∧ c = f old) ∨ c ∈ cs ∧ c.key ≠ key := by
  induction cs with
  | nil => cases h
  | cons c' cs ih =>
    rw [markFirst] at h
    rw [countP_cons] at hone
    split at h
    · next hkey =>
      rw [if_pos (decide_eq_true hkey)] at hone
      have hnone := countP_eq_zero.1 (Nat.le_zero.1 (Nat.le_of_succ_le_succ hone))
      rcases mem_cons.1 h with rfl | h
      · exact .inl ⟨c', mem_cons_self, hkey, rfl⟩
      · exact .inr ⟨mem_cons_of_mem _ h, fun heq => hnone c h (decide_eq_true heq)⟩
    · next hkey =>
      rcases mem_cons.1 h with rfl | h
      · exact .inr ⟨mem_cons_self, hkey⟩
      · refine (ih (by omega) h).imp ?_ (And.imp_left (mem_cons_of_mem _))
        exact fun ⟨old, hold, hrest⟩ => ⟨old, mem_cons_of_mem _ hold, hrest⟩

theorem cooling_append {marks' : List Mark} :
    Cooling (marks ++ marks') key now ↔ Cooling marks key now ∨ Cooling marks' key now := by
  unfold Cooling
  simp [or_and_right, exists_or]

namespace CredentialPool

theorem mem_available : i ∈ p.available clock ↔
    ∃ c, p.credentials[i]? = some c ∧ c.isAvailable (clock i) = true := by
  rw [available, mem_filter, mem_range, Option.any_eq_true]
  exact and_iff_right_of_imp fun ⟨c, hc, _⟩ => (List.getElem?_eq_some_iff.1 hc).1

theorem pick_mem {first : Nat} {rest : List Nat} : p.pick (first :: rest) first seed ∈ first :: rest := by
  have hgetD {o : Option Nat} (h : ∀ i, o = some i → i ∈ first :: rest) :
      o.getD first ∈ first :: rest := by
    cases o with
    | none => exact mem_cons_self
    | some i => exact h i rfl
  unfold pick
  split
  · refine hgetD fun i hi => ?_
    have hmem := find?_some hi
    exact of_decide_eq_true hmem
  · exact hgetD fun i hi => argmin_mem hi
  · exact hgetD fun i hi => mem_of_getElem? hi
  · exact mem_cons_self

theorem choose_eq_none : p.choose clock seed = none ↔ p.available clock = [] := by
  unfold choose
  split
  · next h => exact iff_of_true rfl h
  · next h => exact iff_of_false (by simp) (by simp [h])

theorem choose_mem (h : p.choose clock seed = some idx) : idx ∈ p.available clock := by
  unfold choose at h
  split at h
  · cases h
  · next hlist =>
    cases h
    rw [hlist]
    exact pick_mem

theorem nextKey_cases (p : CredentialPool) (clock : Nat → Nat) (seed : Nat) :
    p.choose clock seed = none ∧ p.nextKey clock seed = (none, p) ∨
      ∃ idx c, p.choose clock seed = some idx ∧ p.credentials[idx]? = some c ∧
        c.isAvailable (clock idx) = true ∧ p.nextKey clock seed = (some c.key, { p with
            credentials := p.credentials.modify idx Credential.markUsed
            nextIndex := if p.strategy = .roundRobin then idx + 1 else p.nextIndex }) := by
  unfold nextKey
  cases hchoose : p.choose clock seed with
  | none => exact .inl ⟨rfl, rfl⟩
  | some idx =>
    obtain ⟨c, hc, havailable⟩ := mem_available.1 (choose_mem hchoose)
    refine .inr ⟨idx, c, rfl, hc, havailable, ?_⟩
    dsimp only
    rw [hc, map_some]

theorem keys_step (p : CredentialPool) (call : Call) :
    (p.step call).2.credentials.map (·.key) = p.credentials.map (·.key) := by
  cases call with
  | mark m => exact keys_markFirst fun _ => rfl
  | next clock seed =>
    rcases p.nextKey_cases clock seed with ⟨-, hnext⟩ | ⟨idx, c, -, -, -, hnext⟩
    · rw [step, hnext]
    · rw [step, hnext]
      refine ext_getElem? fun i => ?_
      rw [getElem?_map, getElem?_map, getElem?_modify]
      cases p.credentials[i]? with
      | none => rfl
      | some c' =>
        split <;> rfl

theorem strategy_step (p : CredentialPool) (call : Call) :
    (p.step call).2.strategy = p.strategy := by
  cases call with
  | mark m => rfl
  | next clock seed =>
    rcases p.nextKey_cases clock seed with ⟨-, hnext⟩ | ⟨idx, c, -, -, -, hnext⟩
    · rw [step, hnext]
    · rw [step, hnext]

/-- **One call.** A plain call leaves the credentials telling what the marks do. -/
theorem Tells.step (h : p.Tells marks) {call : Call} (hplain : p.Plain call) :
    (p.step call).2.Tells (marks ++ call.marks) := by
  cases call with
  | mark m =>
    obtain ⟨hone, hlast⟩ := hplain
    intro c hc now
    rw [Call.marks, cooling_append]
    have hnew : Cooling [m] c.key now ↔ m.key = c.key ∧ now < m.until := by
      simp [Cooling]
    rcases mem_markFirst hone hc with ⟨old, hold, hkey, rfl⟩ | ⟨hc, hkey⟩
    · rw [isAvailable_markExhausted, hnew, ← hkey, not_or]
      constructor
      · refine fun hle => ⟨(h old hold now).1 ?_, fun hlt => Nat.not_lt.2 hle hlt.2⟩
        exact isAvailable_mono (hlast old hold hkey) hle
      · exact fun hnot => Nat.not_lt.1 fun hlt => hnot.2 ⟨rfl, hlt⟩
    · rw [h c hc now, hnew, not_or]
      exact (and_iff_left fun hm => hkey hm.1.symm).symm
  | next clock seed =>
    rw [Call.marks, append_nil]
    rcases p.nextKey_cases clock seed with ⟨-, hnext⟩ | ⟨idx, c, -, -, -, hnext⟩
    · rw [CredentialPool.step, hnext]
      exact h
    · rw [CredentialPool.step, hnext]
      intro c' hc' now
      obtain ⟨i, hi⟩ := getElem?_of_mem hc'
      rw [getElem?_modify] at hi
      obtain ⟨old, hold, rfl⟩ := map_eq_some_iff.1 hi
      have htells := h old (mem_of_getElem? hold) now
      split
      · exact htells
      · exact htells

/-! ## Whole runs -/

theorem after_cons (p : CredentialPool) (call : Call) (calls : List Call) :
    p.after (call :: calls) = (p.step call).2.after calls := rfl

variable {calls : List Call}

theorem AllPlain.tail {call : Call} (h : p.AllPlain (call :: calls)) :
    (p.step call).2.AllPlain calls := fun before call' later hcalls =>
  h (call :: before) call' later (congrArg (call :: ·) hcalls)

theorem AllPlain.cons {call : Call} (hcall : p.Plain call) (h : (p.step call).2.AllPlain calls) :
    p.AllPlain (call :: calls) := by
  intro before call' later hcalls
  cases before with
  | nil => cases hcalls; exact hcall
  | cons call'' before =>
    obtain ⟨rfl, hrest⟩ := List.cons.inj hcalls
    exact h before call' later hrest

theorem Tells.after (h : p.Tells marks) (hplain : p.AllPlain calls) :
    (p.after calls).Tells (marks ++ calls.flatMap Call.marks) := by
  induction calls generalizing p marks with
  | nil => rwa [flatMap_nil, append_nil]
  | cons call calls ih =>
    rw [flatMap_cons, ← append_assoc]
    exact ih (h.step (hplain [] call calls rfl)) hplain.tail

theorem keys_after (p : CredentialPool) (calls : List Call) :
    (p.after calls).credentials.map (·.key) = p.credentials.map (·.key) := by
  induction calls generalizing p with
  | nil => rfl
  | cons call calls ih => rw [after_cons, ih, keys_step]

theorem strategy_after (p : CredentialPool) (calls : List Call) :
    (p.after calls).strategy = p.strategy := by
  induction calls generalizing p with
  | nil => rfl
  | cons call calls ih => rw [after_cons, ih, strategy_step]

/-- The place of an index in the turns that begin at `start`. -/
def place (n start i : Nat) : Nat := if start ≤ i then i - start else i + n - start

theorem turns_sorted {start : Nat} (hstart : start < p.credentials.length) :
    (p.turns start).Pairwise fun i j =>
      place p.credentials.length start i < place p.credentials.length start j := by
  have hrange := pairwise_lt_range (n := p.credentials.length)
  refine pairwise_append.2 ⟨?_, ?_, ?_⟩
  · refine (hrange.filter _).imp_of_mem fun hi hj hlt => ?_
    have hi := of_decide_eq_true (mem_filter.1 hi).2
    have hj := of_decide_eq_true (mem_filter.1 hj).2
    rw [place, place, if_pos hi, if_pos hj]
    omega
  · refine (hrange.filter _).imp_of_mem fun hi hj hlt => ?_
    have hi := of_decide_eq_true (mem_filter.1 hi).2
    have hj := of_decide_eq_true (mem_filter.1 hj).2
    rw [place, place, if_neg (by omega), if_neg (by omega)]
    omega
  · intro i hi j hj
    obtain ⟨hin, hi⟩ := mem_filter.1 hi
    have hi := of_decide_eq_true hi
    have hj := of_decide_eq_true (mem_filter.1 hj).2
    rw [mem_range] at hin
    rw [place, place, if_pos hi, if_neg (by omega)]
    omega

theorem choose_place (seed : Nat) (hrobin : p.strategy = .roundRobin) (hi : i ∈ p.available clock) :
    ∃ idx, p.choose clock seed = some idx ∧ idx < p.credentials.length ∧ (idx = i ∨
      place p.credentials.length (p.nextIndex % p.credentials.length) idx <
        place p.credentials.length (p.nextIndex % p.credentials.length) i) := by
  have hlt {i : Nat} (hi : i ∈ p.available clock) : i < p.credentials.length :=
    mem_range.1 (mem_filter.1 hi).1
  set n := p.credentials.length
  have hstart : p.nextIndex % n < n := Nat.mod_lt _ (Nat.zero_lt_of_lt (hlt hi))
  have hturn : i ∈ p.turns (p.nextIndex % n) := by
    rw [turns, mem_append, mem_filter, mem_filter, mem_range]
    rcases Nat.lt_or_ge i (p.nextIndex % n) with h | h
    · exact .inr ⟨hlt hi, decide_eq_true h⟩
    · exact .inl ⟨hlt hi, decide_eq_true h⟩
  cases hlist : p.available clock with
  | nil => rw [hlist] at hi; cases hi
  | cons first rest =>
    cases hfind : (p.turns (p.nextIndex % n)).find? (· ∈ first :: rest) with
    | none =>
      rw [hlist] at hi
      exact absurd (decide_eq_true hi) (find?_eq_none.1 hfind i hturn)
    | some idx =>
      have hchoose : p.choose clock seed = some idx := by
        unfold choose pick
        simp only [hlist, hrobin]
        exact congrArg some (by rw [hfind, getD_some])
      refine ⟨idx, hchoose, hlt (choose_mem hchoose), ?_⟩
      obtain ⟨-, earlier, later, hturns, hearlier⟩ := find?_eq_some_iff_append.1 hfind
      have hsorted := turns_sorted hstart
      rw [hturns] at hturn hsorted
      rcases mem_append.1 hturn with hmem | hmem
      · rw [hlist] at hi
        simpa [hi] using hearlier i hmem
      · rcases mem_cons.1 hmem with rfl | hmem
        · exact .inl rfl
        · exact .inr ((pairwise_cons.1 (pairwise_append.1 hsorted).2.1).1 i hmem)

theorem place_next {n start : Nat} (hstart : start < n) (hi : i < n) (hidx : idx < n)
    (h : place n start idx < place n start i) : place n ((idx + 1) % n) i < place n start i := by
  have hmod : (idx + 1) % n = if idx + 1 < n then idx + 1 else 0 := by
    split
    · next hlt => exact Nat.mod_eq_of_lt hlt
    · next hge => rw [show idx + 1 = n by omega, Nat.mod_self]
  unfold place at *
  split_ifs at * <;> omega

/-- **A whole run in turns.** What stays available is returned before its turn has passed. -/
theorem returned_of_place (hrobin : p.strategy = .roundRobin)
    (hkey : (p.credentials.map (·.key))[i]? = some key)
    (hstays : ∀ before clock seed later, calls = before ++ .next clock seed :: later →
      i ∈ (p.after before).available clock)
    (hmany : place p.credentials.length (p.nextIndex % p.credentials.length) i <
      (p.returned calls).length) : key ∈ p.returned calls := by
  induction calls generalizing p with
  | nil => exact absurd hmany (Nat.not_lt_zero _)
  | cons call calls ih =>
    have hkeys := p.keys_step call
    have hlength : (p.step call).2.credentials.length = p.credentials.length := by
      simpa using congrArg List.length hkeys
    have hrest : place p.credentials.length ((p.step call).2.nextIndex % p.credentials.length) i <
        ((p.step call).2.returned calls).length → key ∈ (p.step call).2.returned calls := by
      intro hless
      refine ih ((p.strategy_step call).trans hrobin) (hkeys ▸ hkey) ?_ (by rwa [hlength])
      intro before clock seed later hcalls
      exact hstays (call :: before) clock seed later (congrArg (call :: ·) hcalls)
    rw [returned] at hmany ⊢
    rw [mem_append]
    cases call with
    | mark m => exact .inr (hrest hmany)
    | next clock seed =>
      have hi := hstays [] clock seed calls rfl
      obtain ⟨idx, hchoose, hidx, hplace⟩ := choose_place seed hrobin hi
      rcases p.nextKey_cases clock seed with ⟨hnone, -⟩ | ⟨idx', c, hchoose', hc, -, hnext⟩
      · cases hnone.symm.trans hchoose
      · cases hchoose'.symm.trans hchoose
        rw [if_pos hrobin] at hnext
        rw [step, hnext] at hmany hrest ⊢
        rcases hplace with rfl | hless
        · rw [getElem?_map, hc] at hkey
          exact .inl (mem_toList.2 hkey)
        · refine .inr (hrest ?_)
          have hin : i < p.credentials.length := mem_range.1 (mem_filter.1 hi).1
          have hnearer := place_next (Nat.mod_lt _ (by omega)) hin hidx hless
          rw [length_append, toList_some, length_singleton] at hmany
          exact Nat.lt_of_lt_of_le hnearer (by omega)

end CredentialPool

end Steps

open CredentialPool (keys_after mem_available place withKeys)

/-! ## What a pool promises -/

/-- A key that is returned does not cool down; there is none when all keys do; and in turns, a key
that does not cool down is among as many keys as there are that are returned. -/
def Rotates (keys : List String) (strategy : RotationStrategy) (calls : List Call) : Prop :=
  let p := (withKeys keys strategy).after calls
  let marks := calls.flatMap Call.marks
  (∀ clock seed key, (p.nextKey clock seed).1 = some key →
    ∃ i, keys[i]? = some key ∧ ¬ Cooling marks key (clock i)) ∧
  (∀ clock seed, (p.nextKey clock seed).1 = none ↔
    ∀ (i : Nat) key, keys[i]? = some key → Cooling marks key (clock i)) ∧
  (strategy = .roundRobin → ∀ key ∈ keys, ∀ window, p.AllPlain window →
    (∀ before clock seed later, window = before ++ .next clock seed :: later →
      ∀ i, ¬ Cooling (marks ++ before.flatMap Call.marks) key (clock i)) →
    keys.length ≤ (p.returned window).length → key ∈ p.returned window)

/-- The pool rotates after every run in which each mark finds one credential at most and ends no
cooldown early. -/
theorem rotates_of_plain {keys : List String} {strategy : RotationStrategy} {calls : List Call}
    (hplain : (CredentialPool.withKeys keys strategy).AllPlain calls) :
    Rotates keys strategy calls := by
  unfold Rotates
  intro p marks
  have hnew : (withKeys keys strategy).Tells [] := by
    intro c hc now
    obtain ⟨-, -, rfl⟩ := List.mem_map.1 hc
    exact iff_of_true rfl fun ⟨m, hm, _⟩ => not_mem_nil hm
  have htells : p.Tells marks := hnew.after hplain
  have hkeys : p.credentials.map (·.key) = keys := by
    refine (keys_after _ calls).trans ?_
    rw [withKeys, List.map_map]
    exact List.map_id keys
  have hcredential {i : Nat} {key : String} (h : keys[i]? = some key) :
      ∃ c, p.credentials[i]? = some c ∧ c.key = key := by
    rw [← hkeys, getElem?_map] at h
    exact map_eq_some_iff.1 h
  have hkey {i : Nat} {c : Credential} (h : p.credentials[i]? = some c) :
      keys[i]? = some c.key := by
    rw [← hkeys, getElem?_map, h, map_some]
  refine ⟨fun clock seed key h => ?_, fun clock seed => ?_, ?_⟩
  · rcases p.nextKey_cases clock seed with ⟨-, hnext⟩ | ⟨idx, c, -, hc, havailable, hnext⟩
    · rw [hnext] at h
      cases h
    · rw [hnext] at h
      cases h
      exact ⟨idx, hkey hc, (htells c (mem_of_getElem? hc) _).1 havailable⟩
  · rcases p.nextKey_cases clock seed with ⟨hnone, hnext⟩ | ⟨idx, c, -, hc, havailable, hnext⟩
    · rw [hnext]
      refine iff_of_true rfl fun i key h => ?_
      obtain ⟨c, hc, rfl⟩ := hcredential h
      by_contra hcool
      have hmem := mem_available.2
        ⟨c, hc, (htells c (mem_of_getElem? hc) _).2 hcool⟩
      rw [CredentialPool.choose_eq_none.1 hnone] at hmem
      cases hmem
    · rw [hnext]
      refine iff_of_false (by simp) fun hall => ?_
      exact (htells c (mem_of_getElem? hc) _).1 havailable (hall idx c.key (hkey hc))
  · intro hrobin key hmem window hwindow hstays hmany
    obtain ⟨i, hi⟩ := getElem?_of_mem hmem
    have hlength : p.credentials.length = keys.length := by
      rw [← hkeys, length_map]
    have hin : i < keys.length := (List.getElem?_eq_some_iff.1 hi).1
    refine CredentialPool.returned_of_place (i := i)
      ((CredentialPool.strategy_after _ calls).trans hrobin) (hkeys.symm ▸ hi) ?_ ?_
    · intro before clock seed later hcalls
      have hbefore : p.AllPlain before := fun before' call later' hsplit =>
        hwindow before' call (later' ++ .next clock seed :: later) (by rw [hcalls, hsplit]; simp)
      have hkeys' : ((p.after before).credentials.map (·.key))[i]? = some key := by
        rw [keys_after, hkeys, hi]
      rw [getElem?_map] at hkeys'
      obtain ⟨c, hc, rfl⟩ := map_eq_some_iff.1 hkeys'
      refine mem_available.2 ⟨c, hc, ?_⟩
      exact (htells.after hbefore c (mem_of_getElem? hc) _).2
        (hstays before clock seed later hcalls i)
    · refine Nat.lt_of_lt_of_le ?_ hmany
      rw [place]
      split <;> omega

theorem two_keys_rotate :
    Rotates ["a", "b"] .roundRobin [.mark ⟨.rateLimited, "a", 5⟩, .next (fun _ => 6) 0] :=
  rotates_of_plain (.cons (And.intro (by decide) (by decide)) (.cons trivial fun _ _ _ h => by simp at h))

/-- A key that stands twice in the pool is returned although it has just been marked. -/
theorem not_rotates_twice :
    ¬ Rotates ["a", "a"] .roundRobin [.mark ⟨.rateLimited, "a", 5⟩] := by
  intro ⟨hsafe, _⟩
  obtain ⟨i, -, hcool⟩ := hsafe (fun _ => 6) 0 "a" (by decide)
  exact hcool ⟨_, mem_singleton_self _, rfl, by decide⟩

end Aeqi.Providers
