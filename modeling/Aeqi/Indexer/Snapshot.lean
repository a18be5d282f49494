import Aeqi.Governance.CapTable

/-!
# The snapshot job of the indexer

`snapshot_proposal`: the token accounts of a mint, as the RPC node returns them, are
parsed, sorted by owner and hashed into the root that is committed for a proposal.
One leaf is made of every account that the filters let through and that is not
empty, so the leaves are the balances of the owners, and the root does not depend
on the order of the accounts, exactly when every such owner has one account of the
base size (`OneAccountEach`).
-/

namespace Aeqi.Indexer

open Aeqi.Lib Aeqi.Solana
open List (filter_comm map_cons map_nil mem_filter sum_cons sum_nil)
open Aeqi.Governance (Sha256 VoteLeaf)

/-! ## Token accounts as the RPC node returns them -/

abbrev Bytes := List (BitVec 8)

/-- `Pubkey::new_from_array`: keys compare like their bytes, so the first byte is the
most significant one. -/
def pubkeyOfBytes (bytes : Bytes) : Pubkey :=
  bytes.foldl (fun key b => key <<< 8 ||| b.setWidth 256) 0

/-- `u64::from_le_bytes`. -/
def u64OfLeBytes (bytes : Bytes) : Nat :=
  bytes.foldr (fun b n => b.toNat + 256 * n) 0

def slice (data : Bytes) (start stop : Nat) : Bytes := (data.take stop).drop start

inductive SnapshotError
  | parsingBalance (account : Pubkey) (len expected : Nat)
  | parsingOwner (account : Pubkey) (len expected : Nat)
  | totalSupplyOverflowed (holders : Nat)

def parseTokenAmount (account : Pubkey) (data : Bytes) : Except SnapshotError Nat :=
  if data.length < 72 then
    .error (.parsingBalance account data.length 72)
  else
    .ok (u64OfLeBytes (slice data 64 72))

def parseTokenOwner (account : Pubkey) (data : Bytes) : Except SnapshotError Pubkey :=
  if data.length < 64 then
    .error (.parsingOwner account data.length 64)
  else
    .ok (pubkeyOfBytes (slice data 32 64))

inductive RpcFilter
  | memcmp (offset : Nat) (key : Pubkey)
  | dataSize (size : Nat)

def RpcFilter.allows (data : Bytes) : RpcFilter → Bool
  | .memcmp offset key =>
    offset + 32 ≤ data.length && pubkeyOfBytes (slice data offset (offset + 32)) == key
  | .dataSize size => data.length == size

/-- `getProgramAccounts`: the accounts of the token program that pass every filter, in
the order in which the node walks them. -/
def getProgramAccounts (filters : List RpcFilter) (accounts : List (Pubkey × Bytes)) :
    List (Pubkey × Bytes) :=
  accounts.filter fun a => filters.all (RpcFilter.allows a.2)

/-! ## `snapshot_proposal` -/

def snapshotFilters (mint : Pubkey) : List RpcFilter := [.memcmp 0 mint, .dataSize 165]

/-- `for (token_acct_addr, token_acct) in &accounts`: empty accounts are skipped before
their owner is parsed. -/
def collectHolders : List (Pubkey × Bytes) → Except SnapshotError (List VoteLeaf)
  | [] => .ok []
  | (account, data) :: rest => do
    let amount ← parseTokenAmount account data
    if amount = 0 then
      collectHolders rest
    else
      let owner ← parseTokenOwner account data
      let holders ← collectHolders rest
      return (owner, amount) :: holders

/-- `holders.sort_by(..)`, which is stable as insertion is. -/
def sortHolders (holders : List VoteLeaf) : List VoteLeaf :=
  holders.insertionSort fun a b => a.1 ≤ b.1

/-- `try_fold(0u64, |acc, (_, amt)| acc.checked_add(*amt))`. -/
def addSupply : Nat → List VoteLeaf → Option Nat
  | acc, [] => some acc
  | acc, (_, amount) :: rest => (checkedAdd 64 acc amount).bind fun acc => addSupply acc rest

structure MerkleSnapshot (D : Type) where
  root : D
  totalSupply : Nat
  leaves : List VoteLeaf

def snapshotProposal {D : Type} [LinearOrder D] [Zero D] (sha256 : Sha256 D) (mint : Pubkey)
    (programAccounts : List (Pubkey × Bytes)) : Except SnapshotError (MerkleSnapshot D) := do
  let accounts := getProgramAccounts (snapshotFilters mint) programAccounts
  let holders ← collectHolders accounts
  let holders := sortHolders holders
  let totalSupply ← okOr (addSupply 0 holders) (.totalSupplyOverflowed holders.length)
  let leaves := leafDigests sha256 holders
  return ⟨computeMerkleRoot sha256 leaves, totalSupply, holders⟩

/-! ## What a successful snapshot is -/

theorem sortHolders_perm (holders : List VoteLeaf) : (sortHolders holders).Perm holders :=
  List.perm_insertionSort _ holders

theorem sortHolders_sorted (holders : List VoteLeaf) :
    (sortHolders holders).Pairwise fun a b => a.1 ≤ b.1 := by
  exact List.pairwise_insertionSort _ holders

theorem sortHolders_congr {holders holders' : List VoteLeaf} (hp : holders.Perm holders')
    (hnodup : (holders.map Prod.fst).Nodup) : sortHolders holders = sortHolders holders' := by
  have hperm : (sortHolders holders).Perm (sortHolders holders') :=
    ((sortHolders_perm holders).trans hp).trans (sortHolders_perm holders').symm
  refine List.Perm.eq_of_pairwise ?_ (sortHolders_sorted _) (sortHolders_sorted _) hperm
  intro a b ha hb hab hba
  have ha' : a ∈ holders := (sortHolders_perm holders).mem_iff.1 ha
  have hb' : b ∈ holders := hp.mem_iff.2 ((sortHolders_perm holders').mem_iff.1 hb)
  exact List.inj_on_of_nodup_map hnodup ha' hb' (BitVec.le_antisymm hab hba)

theorem addSupply_eq_some (holders : List VoteLeaf) {acc total : Nat} (hacc : acc < 2 ^ 64) :
    addSupply acc holders = some total ↔
      acc + (holders.map Prod.snd).sum < 2 ^ 64 ∧ acc + (holders.map Prod.snd).sum = total := by
  induction holders generalizing acc with
  | nil =>
    simp only [addSupply, Option.some.injEq]
    exact ⟨fun h => ⟨hacc, h⟩, fun h => h.2⟩
  | cons holder rest ih =>
    obtain ⟨-, amount⟩ := holder
    simp only [addSupply, Option.bind_eq_some_iff, checkedAdd_eq_some, map_cons, sum_cons]
    constructor
    · rintro ⟨-, ⟨hlt, rfl⟩, h⟩
      have hrest := (ih hlt).1 h
      omega
    · rintro ⟨hlt, htotal⟩
      have hlt' : acc + amount < 2 ^ 64 := by omega
      exact ⟨_, ⟨hlt', rfl⟩, (ih hlt').2 (by omega)⟩

/-- An account of the token program that holds a mint: the base layout, then extensions. -/
structure TokenAccount (mint : Pubkey) where
  address : Pubkey
  data : Bytes
  base : 165 ≤ data.length
  ofMint : pubkeyOfBytes (slice data 0 32) = mint

namespace TokenAccount

variable {mint : Pubkey}

def owner (a : TokenAccount mint) : Pubkey := pubkeyOfBytes (slice a.data 32 64)

def amount (a : TokenAccount mint) : Nat := u64OfLeBytes (slice a.data 64 72)

def IsBase (a : TokenAccount mint) : Prop := a.data.length = 165

instance (a : TokenAccount mint) : Decidable a.IsBase := decEq a.data.length 165

def holder (a : TokenAccount mint) : VoteLeaf := (a.owner, a.amount)

def raw (a : TokenAccount mint) : Pubkey × Bytes := (a.address, a.data)

end TokenAccount

open TokenAccount (amount holder owner raw)

/-- The leaves before sorting. -/
def scanned {mint : Pubkey} (accounts : List (TokenAccount mint)) : List VoteLeaf :=
  ((accounts.filter (·.IsBase)).filter (·.amount ≠ 0)).map holder

section Scan

variable {mint : Pubkey}

theorem getProgramAccounts_snapshotFilters (accounts : List (TokenAccount mint)) :
    getProgramAccounts (snapshotFilters mint) (accounts.map raw) =
      (accounts.filter (·.IsBase)).map raw := by
  rw [getProgramAccounts, List.filter_map]
  congr 1
  apply List.filter_congr
  intro a _
  have hbase : 32 ≤ a.data.length := Nat.le_trans (by decide) a.base
  rw [Bool.eq_iff_iff, decide_eq_true_iff]
  simp [snapshotFilters, RpcFilter.allows, raw, TokenAccount.IsBase, a.ofMint, hbase]

theorem collectHolders_raw (accounts : List (TokenAccount mint)) :
    collectHolders (accounts.map raw) = .ok ((accounts.filter (·.amount ≠ 0)).map holder) := by
  induction accounts with
  | nil => rfl
  | cons a rest ih =>
    have hamount : parseTokenAmount a.address a.data = .ok a.amount :=
      if_neg (Nat.not_lt.2 (Nat.le_trans (by decide) a.base))
    have howner : parseTokenOwner a.address a.data = .ok a.owner :=
      if_neg (Nat.not_lt.2 (Nat.le_trans (by decide) a.base))
    simp only [map_cons, raw, collectHolders, hamount, howner] at ⊢
    by_cases hzero : a.amount = 0
    · simpa [bind, Except.bind, hzero] using ih
    · simp [bind, Except.bind, hzero, ih, holder]

theorem snapshotProposal_ok {D : Type} [LinearOrder D] [Zero D] {sha256 : Sha256 D}
    {accounts : List (TokenAccount mint)} {snapshot : MerkleSnapshot D} :
    snapshotProposal sha256 mint (accounts.map raw) = .ok snapshot ↔
      ((scanned accounts).map Prod.snd).sum < 2 ^ 64 ∧
        snapshot = ⟨computeMerkleRoot sha256 (leafDigests sha256 (sortHolders (scanned accounts))),
          ((scanned accounts).map Prod.snd).sum, sortHolders (scanned accounts)⟩ := by
  have hsum : ((sortHolders (scanned accounts)).map Prod.snd).sum =
      ((scanned accounts).map Prod.snd).sum := ((sortHolders_perm _).map _).sum_eq
  have hscan : collectHolders ((accounts.filter (·.IsBase)).map raw) =
      .ok (scanned accounts) := collectHolders_raw _
  simp only [snapshotProposal, getProgramAccounts_snapshotFilters, hscan, bind_eq_ok,
    okOr_eq_ok, pure_eq_ok, Except.ok.injEq, exists_eq_left',
    addSupply_eq_some _ (show 0 < 2 ^ 64 by decide), Nat.zero_add, hsum]
  constructor
  · rintro ⟨-, ⟨hlt, rfl⟩, rfl⟩
    exact ⟨hlt, rfl⟩
  · rintro ⟨hlt, rfl⟩
    exact ⟨_, ⟨hlt, rfl⟩, rfl⟩

end Scan

/-! ## Whole balances -/

section Balances

variable {mint : Pubkey}

def balanceOf (accounts : List (TokenAccount mint)) (owner : Pubkey) : Nat :=
  ((accounts.filter (·.owner = owner)).map amount).sum

/-- Whatever order the accounts come in, the snapshot succeeds with one root, and every
owner with a balance has one leaf, which is that balance. -/
def WholeBalances {D : Type} [LinearOrder D] [Zero D] (sha256 : Sha256 D)
    (accounts : List (TokenAccount mint)) : Prop :=
  ∃ root, ∀ order : List (TokenAccount mint), order.Perm accounts → ∃ snapshot,
    snapshotProposal sha256 mint (order.map raw) = .ok snapshot ∧
      snapshot.root = root ∧ ∀ owner, 0 < balanceOf accounts owner →
        snapshot.leaves.filter (·.1 = owner) = [(owner, balanceOf accounts owner)]

/-- The accounts that hold anything are base accounts of different owners. -/
structure OneAccountEach (accounts : List (TokenAccount mint)) : Prop where
  base : ∀ a ∈ accounts, a.amount ≠ 0 → a.IsBase
  apart : ((accounts.filter (·.amount ≠ 0)).map owner).Nodup
  fits : (accounts.map amount).sum < 2 ^ 64

variable {accounts : List (TokenAccount mint)}

theorem balanceOf_perm {order : List (TokenAccount mint)} (h : order.Perm accounts)
    (owner : Pubkey) : balanceOf order owner = balanceOf accounts owner :=
  ((h.filter _).map _).sum_eq

theorem scanned_perm {order : List (TokenAccount mint)} (h : order.Perm accounts) :
    (scanned order).Perm (scanned accounts) :=
  ((h.filter _).filter _).map _

theorem sum_filter_amount (accounts : List (TokenAccount mint)) :
    ((accounts.filter (·.amount ≠ 0)).map amount).sum = (accounts.map amount).sum := by
  have hsplit := List.sum_map_filter_add_sum_map_filter_not
    (fun a : TokenAccount mint => a.amount ≠ 0) amount accounts
  have hzero : ((accounts.filter fun a => ¬ a.amount ≠ 0).map amount).sum = 0 := by
    apply List.sum_eq_zero
    intro n hn
    obtain ⟨a, ha, rfl⟩ := List.mem_map.1 hn
    simpa using (mem_filter.1 ha).2
  rw [← hsplit, hzero, Nat.add_zero]

theorem sum_scanned (accounts : List (TokenAccount mint)) (owner : Pubkey) :
    (((scanned accounts).filter (·.1 = owner)).map Prod.snd).sum =
      balanceOf (accounts.filter (·.IsBase)) owner := by
  rw [balanceOf, ← sum_filter_amount, scanned, List.filter_map, List.map_map, filter_comm]
  rfl

theorem balanceOf_base_add (accounts : List (TokenAccount mint)) (owner : Pubkey) :
    balanceOf (accounts.filter (·.IsBase)) owner +
      balanceOf (accounts.filter fun a => ¬ a.IsBase) owner = balanceOf accounts owner := by
  have hcomm : ∀ p : TokenAccount mint → Bool, (accounts.filter p).filter (·.owner = owner) =
      (accounts.filter (·.owner = owner)).filter p := fun _ => filter_comm _ _ _
  rw [balanceOf, balanceOf, hcomm, hcomm]
  exact List.sum_map_filter_add_sum_map_filter_not (fun a : TokenAccount mint => a.IsBase)
    amount _

theorem amount_le_balanceOf {a : TokenAccount mint} (ha : a ∈ accounts) :
    a.amount ≤ balanceOf accounts a.owner :=
  List.single_le_sum (fun _ _ => Nat.zero_le _) _
    (List.mem_map_of_mem (mem_filter.2 ⟨ha, by simp⟩))

theorem balanceOf_base {owner : Pubkey}
    (h : ∀ a ∈ accounts, a.owner = owner → a.amount ≠ 0 → a.IsBase) :
    balanceOf (accounts.filter (·.IsBase)) owner = balanceOf accounts owner := by
  have hrest : balanceOf (accounts.filter fun a => ¬ a.IsBase) owner = 0 := by
    apply List.sum_eq_zero
    intro n hn
    obtain ⟨a, ha, rfl⟩ := List.mem_map.1 hn
    simp only [mem_filter, decide_eq_true_eq] at ha
    obtain ⟨⟨ha, hext⟩, howner⟩ := ha
    by_contra hne
    exact hext (h a ha howner hne)
  rw [← balanceOf_base_add accounts owner, hrest, Nat.add_zero]

theorem scanned_of_base (h : ∀ a ∈ accounts, a.amount ≠ 0 → a.IsBase) :
    scanned accounts = (accounts.filter (·.amount ≠ 0)).map holder := by
  rw [scanned, filter_comm, List.filter_eq_self.2]
  intro a ha
  simp only [mem_filter, decide_eq_true_eq] at ha ⊢
  exact h a ha.1 ha.2

namespace OneAccountEach

variable {accounts order : List (TokenAccount mint)}

theorem perm (h : OneAccountEach accounts) (hp : order.Perm accounts) : OneAccountEach order :=
  ⟨fun a ha => h.base a (hp.mem_iff.1 ha), (((hp.filter _).map _).nodup_iff).2 h.apart,
    (hp.map _).sum_eq.trans_lt h.fits⟩

theorem nodup_scanned (h : OneAccountEach accounts) : ((scanned accounts).map Prod.fst).Nodup := by
  rw [scanned_of_base h.base, List.map_map]
  exact h.apart

theorem sum_scanned_lt (h : OneAccountEach accounts) :
    ((scanned accounts).map Prod.snd).sum < 2 ^ 64 := by
  rw [scanned_of_base h.base, List.map_map]
  exact (sum_filter_amount accounts).trans_lt h.fits

theorem filter_leaves (h : OneAccountEach accounts) {owner : Pubkey}
    (hpos : 0 < balanceOf accounts owner) :
    (sortHolders (scanned accounts)).filter (·.1 = owner) = [(owner, balanceOf accounts owner)] := by
  have hperm := (sortHolders_perm (scanned accounts)).filter (·.1 = owner)
  have hsum : (((scanned accounts).filter (·.1 = owner)).map Prod.snd).sum =
      balanceOf accounts owner := by
    rw [sum_scanned, balanceOf_base fun a ha _ => h.base a ha]
  have hlen : ((scanned accounts).filter (·.1 = owner)).length ≤ 1 := by
    have hcount := List.nodup_iff_count_le_one.1 h.nodup_scanned owner
    rw [List.count_eq_length_filter, List.filter_map] at hcount
    simpa [Function.comp_def, beq_eq_decide] using hcount
  have hone : ((scanned accounts).filter (·.1 = owner)).length = 1 := by
    refine Nat.le_antisymm hlen (List.length_pos_iff.2 fun hnil => ?_)
    rw [hnil, map_nil, sum_nil] at hsum
    omega
  obtain ⟨⟨o, b⟩, hleaf⟩ := List.length_eq_one_iff.1 hone
  have hmem : (o, b) ∈ (scanned accounts).filter (·.1 = owner) := by
    rw [hleaf]
    exact List.mem_singleton_self _
  have ho : o = owner := by simpa using (mem_filter.1 hmem).2
  rw [hleaf] at hsum hperm
  simp only [map_cons, map_nil, sum_cons, sum_nil, Nat.add_zero] at hsum
  rw [List.perm_singleton.1 hperm, ho, hsum]

theorem wholeBalances {D : Type} [LinearOrder D] [Zero D] (sha256 : Sha256 D)
    (h : OneAccountEach accounts) : WholeBalances sha256 accounts := by
  refine ⟨computeMerkleRoot sha256 (leafDigests sha256 (sortHolders (scanned accounts))), ?_⟩
  intro order hp
  have ho := h.perm hp
  refine ⟨_, snapshotProposal_ok.2 ⟨ho.sum_scanned_lt, rfl⟩, ?_, fun owner hpos => ?_⟩
  · rw [sortHolders_congr (scanned_perm hp) ho.nodup_scanned]
  · rw [← balanceOf_perm hp] at hpos ⊢
    exact ho.filter_leaves hpos

end OneAccountEach

namespace WholeBalances

variable {D : Type} [LinearOrder D] [Zero D] {sha256 : Sha256 D}
  {accounts : List (TokenAccount mint)}

theorem filter_scanned (h : WholeBalances sha256 accounts) :
    ((scanned accounts).map Prod.snd).sum < 2 ^ 64 ∧ ∀ owner, 0 < balanceOf accounts owner →
      (scanned accounts).filter (·.1 = owner) = [(owner, balanceOf accounts owner)] := by
  obtain ⟨root, h⟩ := h
  obtain ⟨snapshot, hok, -, hleaves⟩ := h accounts (List.Perm.refl _)
  obtain ⟨hlt, rfl⟩ := snapshotProposal_ok.1 hok
  refine ⟨hlt, fun owner hpos => ?_⟩
  have hperm := (sortHolders_perm (scanned accounts)).symm.filter (·.1 = owner)
  rw [hleaves owner hpos] at hperm
  exact List.perm_singleton.1 hperm

theorem oneAccountEach (h : WholeBalances sha256 accounts) : OneAccountEach accounts := by
  obtain ⟨hlt, hleaves⟩ := h.filter_scanned
  have hpos : ∀ a ∈ accounts, a.amount ≠ 0 → 0 < balanceOf accounts a.owner := fun a ha hne =>
    Nat.lt_of_lt_of_le (by omega) (amount_le_balanceOf ha)
  have hbase : ∀ a ∈ accounts, a.amount ≠ 0 → a.IsBase := by
    intro a ha hne
    by_contra hext
    -- the leaf is the whole balance, and the account is no part of the leaf
    have hsum := sum_scanned accounts a.owner
    rw [hleaves a.owner (hpos a ha hne)] at hsum
    have hadd := balanceOf_base_add accounts a.owner
    have hrest : a.amount ≤ balanceOf (accounts.filter fun a => ¬ a.IsBase) a.owner :=
      amount_le_balanceOf (mem_filter.2 ⟨ha, by simpa using hext⟩)
    simp only [map_cons, sum_cons] at hsum
    omega
  have hscan := scanned_of_base hbase
  refine ⟨hbase, List.nodup_iff_count_le_one.2 fun owner => ?_, ?_⟩
  · have hlen : ((accounts.filter (·.amount ≠ 0)).map TokenAccount.owner).count owner =
        ((scanned accounts).filter (·.1 = owner)).length := by
      rw [hscan, List.count_eq_length_filter, List.filter_map, List.filter_map, List.length_map,
        List.length_map]
      rfl
    rw [hlen]
    by_cases hzero : balanceOf accounts owner = 0
    · have hnil : (scanned accounts).filter (·.1 = owner) = [] := by
        rw [hscan, List.filter_eq_nil_iff]
        intro l hl howner
        obtain ⟨a, ha, rfl⟩ := List.mem_map.1 hl
        simp only [mem_filter, decide_eq_true_eq] at ha howner
        have hle := amount_le_balanceOf ha.1
        rw [show a.owner = owner from howner, hzero] at hle
        exact ha.2 (by omega)
      rw [hnil]
      exact Nat.zero_le 1
    · rw [hleaves owner (by omega)]
      exact le_rfl
  · rw [hscan, List.map_map] at hlt
    exact (sum_filter_amount accounts).symm.trans_lt hlt

end WholeBalances

end Balances

/-- **Whole balances, one root**, exactly when the accounts that hold anything are base accounts of
different owners. -/
theorem wholeBalances_iff {D : Type} [LinearOrder D] [Zero D] (sha256 : Sha256 D)
    {mint : Pubkey} (accounts : List (TokenAccount mint)) :
    WholeBalances sha256 accounts ↔ OneAccountEach accounts :=
  ⟨fun h => h.oneAccountEach, fun h => h.wholeBalances sha256⟩

def baseAccount (address : Pubkey) (owner amount : BitVec 8) : TokenAccount 1 where
  address := address
  data := List.replicate 31 0 ++ [1] ++ List.replicate 31 0 ++ [owner, amount] ++
    List.replicate 43 0 ++ [1] ++ List.replicate 56 0
  base := by simp only [List.length_append, List.length_replicate, List.length_cons,
    List.length_nil, Nat.reduceAdd, Nat.le_refl]
  ofMint := by rfl

def twoAccounts : List (TokenAccount 1) :=
  [baseAccount 20 8 1, baseAccount 21 9 4, baseAccount 22 9 6]

theorem not_wholeBalances :
    ¬ ∀ accounts : List (TokenAccount 1), WholeBalances Governance.natHash accounts := by
  intro hall
  obtain ⟨-, hleaves⟩ := (hall twoAccounts).filter_scanned
  have hpos : 0 < balanceOf twoAccounts 9 := by decide +kernel
  have hscan : (scanned twoAccounts).filter (·.1 = 9) = [(9, 4), (9, 6)] := by decide +kernel
  have htwo := hleaves 9 hpos
  rw [hscan] at htwo
  simp at htwo

end Aeqi.Indexer
