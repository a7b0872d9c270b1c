import LedgerSim.EnforcedConditions

/-!
# An order in which a block's spends can be made

Validation accepts a coin that the block itself creates without asking whether
the spend that creates it has been checked.  A coin names its parent, so when
no hash is its own ancestor the spends can be sorted by the rank of their
coins, and then every created coin comes after its creator.
-/

/-- Sorting by a rank puts everything of smaller rank before. -/
theorem List.exists_perm_of_rank {α : Type} (rank : α → ℕ) (l : List α) :
    ∃ order : List α, order.Perm l ∧
      ∀ before a after, order = before ++ a :: after →
        ∀ b ∈ l, rank b < rank a → b ∈ before := by
  have hperm := List.mergeSort_perm l fun a b => decide (rank a ≤ rank b)
  have hsorted : (l.mergeSort fun a b => decide (rank a ≤ rank b)).Pairwise
      fun a b => decide (rank a ≤ rank b) = true := by
    apply List.pairwise_mergeSort
    · intro a b c hab hbc
      simp only [decide_eq_true_eq] at *
      omega
    · intro a b
      simp only [Bool.or_eq_true, decide_eq_true_eq]
      omega
  refine ⟨_, hperm, ?_⟩
  intro before a after horder b hb hlt
  rw [horder] at hsorted
  have hmem : b ∈ before ++ a :: after := by
    rw [← horder]
    exact hperm.mem_iff.mpr hb
  rcases List.mem_append.mp hmem with hbefore | hafter
  · exact hbefore
  · exfalso
    have htail := (List.pairwise_append.mp hsorted).2.1
    rcases List.mem_cons.mp hafter with rfl | hafter
    · exact lt_irrefl _ hlt
    · have hle := List.rel_of_pairwise_cons htail hafter
      simp only [decide_eq_true_eq] at hle
      omega

namespace LedgerSim

variable (E : Environment)

/-- The coin is an output of the spend. -/
def Spend.Creates (spend : Spend) (coin : Coin) : Prop :=
  ∃ condition ∈ spend.withOpcode .createCoin,
    createdOutput E spend.coinName condition = .ok coin

theorem Spend.Creates.parentCoinInfo {E : Environment} {spend : Spend}
    {coin : Coin} (h : spend.Creates E coin) :
    coin.parentCoinInfo = spend.coinName := by
  obtain ⟨condition, -, hcreated⟩ := h
  obtain ⟨_, _, _, -, -, rfl⟩ := (createdOutput_eq_ok_iff E).mp hcreated
  rfl

theorem exists_creates {E : Environment} {spends : List Spend}
    {npcList : List Npc}
    (hspends : List.Forall₂ (fun spend npc => spend.coinName = npc.coinName ∧
      npc.conditionsDict = conditionsByOpcode spend.conditions)
        spends npcList) {outputs : List Coin}
    (houtputs : createdOutputs E npcList = .ok outputs) {coin : Coin}
    (hcoin : coin ∈ outputs) : ∃ spend ∈ spends, spend.Creates E coin := by
  have hcreated := (createdOutputs_eq_ok_iff E hspends).mp houtputs
  obtain ⟨created, hmem, hcreated⟩ :=
    (Except.mem_iff_of_mapM_eq_ok hcreated).mp hcoin
  obtain ⟨spend, hspend, hmem⟩ := List.mem_flatMap.mp hmem
  obtain ⟨condition, hcondition, rfl⟩ := List.mem_map.mp hmem
  exact ⟨spend, hspend, condition, hcondition, hcreated⟩

theorem blockSpends_coin {body : Body} {additions : List Coin}
    {hashPreimage : Bytes32 → Option Bytes} {spends : List Spend}
    (h : blockSpends E body additions hashPreimage = .ok spends)
    {spend : Spend} (hmem : spend ∈ spends) :
    coinPointerObj E
      (overlay (ramStorageOf E additions).hashPreimage hashPreimage)
      spend.coinName = .ok spend.coin := by
  obtain ⟨_, -, h⟩ := Except.bind_eq_ok_iff.mp h
  obtain ⟨entries, -, hentries⟩ := SExp.forIter_eq_ok_iff.mp h
  obtain ⟨entry, -, h⟩ := (Except.mem_iff_of_mapM_eq_ok hentries).mp hmem
  obtain ⟨npc, -, h⟩ := Except.bind_eq_ok_iff.mp h
  obtain ⟨_, -, h⟩ := Except.bind_eq_ok_iff.mp h
  obtain ⟨_, -, h⟩ := Except.bind_eq_ok_iff.mp h
  obtain ⟨_, -, h⟩ := Except.bind_eq_ok_iff.mp h
  obtain ⟨coin, hcoin, h⟩ := Except.bind_eq_ok_iff.mp h
  obtain rfl := Except.ok.inj h
  exact hcoin

/-- A storage that keeps coins under their names. -/
def KeepsCoins (hashPreimage : Bytes32 → Option Bytes)
    (names : List Bytes32) : Prop :=
  ∀ name ∈ names, ∀ blob, hashPreimage name = some blob →
    ∃ coin : Coin, blob = coin.bytes E ∧ coin.name E = name

theorem KeepsCoins.name_of_obj {E : Environment} (hE : E.Lawful)
    {additions : List Coin} (hnodup : (additions.map (Coin.name E)).Nodup)
    {hashPreimage : Bytes32 → Option Bytes} {names : List Bytes32}
    (hkeeps : KeepsCoins E hashPreimage names) {name : Bytes32}
    (hname : name ∈ names) {coin : Coin}
    (h : coinPointerObj E
      (overlay (ramStorageOf E additions).hashPreimage hashPreimage) name =
        .ok coin) : coin.name E = name := by
  rcases coinPointerObj_overlay E hE hnodup h with
    ⟨-, hcoin⟩ | ⟨-, blob, hblob, hread⟩
  · exact hcoin
  · obtain ⟨stored, rfl, hstored⟩ := hkeeps name hname blob hblob
    rw [Coin.fromBytes_bytes E hE] at hread
    obtain rfl := Except.ok.inj hread
    exact hstored

/-- The spends of an accepted block have an order in which every coin exists
when it is spent. -/
theorem acceptNewBlock_spends_in_order (hE : E.Lawful) (chainView : ChainView)
    (header : Header) (hashPreimage : Bytes32 → Option Bytes)
    (unspentForCoinName : Bytes32 → Option Unspent)
    (coinbaseReward timestamp : ℤ) (additions : List Coin)
    (removals : List Bytes32) (body : Body) (rank : Bytes32 → ℕ)
    (haccepted : acceptNewBlock E chainView header hashPreimage
      unspentForCoinName coinbaseReward timestamp = .ok (additions, removals))
    (hbody : header.bodyHash.obj E (Body.parse E) hashPreimage =
      .ok (some body))
    (hstorage : KeepsCoins E hashPreimage removals)
    (hrank : ∀ coin ∈ additions,
      rank coin.parentCoinInfo < rank (coin.name E)) :
    ∃ spends order, blockSpends E body additions hashPreimage = .ok spends ∧
      spends.map (fun spend => spend.coin.name E) = removals ∧
      order.Perm spends ∧
      ∀ before spend after, order = before ++ spend :: after →
        (∃ unspent, unspentForCoinName (spend.coin.name E) = some unspent ∧
          unspent.Spendable chainView.tipIndex) ∨
        spend.coin ∈ [body.coinbaseCoin, body.feesCoin] ∨
        ∃ earlier ∈ before, earlier.Creates E spend.coin := by
  obtain ⟨-, body', hbody', a, rfl, rfl⟩ :=
    (acceptNewBlock_eq_ok_iff E).mp haccepted
  obtain rfl : body = body' := by simpa using hbody.symm.trans hbody'
  obtain ⟨spends, hspends, hnpcs, hcpcs⟩ := a.exists_spends
  have hremovals : spends.map Spend.coinName = a.removals :=
    (hnpcs.imp fun _ _ h => h.1).map_eq_map
  have hnames : ∀ spend ∈ spends, spend.coin.name E = spend.coinName := by
    intro spend hspend
    have hremoved : spend.coinName ∈ a.removals := by
      rw [← hremovals]
      exact List.mem_map_of_mem hspend
    exact hstorage.name_of_obj hE a.additions_nodup hremoved
      (blockSpends_coin E hspends hspend)
  obtain ⟨order, hperm, hbefore⟩ :=
    spends.exists_perm_of_rank fun spend => rank spend.coinName
  refine ⟨spends, order, hspends, ?_, hperm, ?_⟩
  · rw [← hremovals]
    exact List.map_congr_left hnames
  intro before spend after horder
  have hspend : spend ∈ spends := by
    rw [← hperm.mem_iff, horder]
    exact List.mem_append_right _ List.mem_cons_self
  obtain ⟨cpc, hcpc, hcoin, -⟩ := hcpcs.exists_of_mem_left hspend
  have hspendable := a.spendable cpc hcpc
  rw [← hcoin] at hspendable
  rcases hspendable with hadded | hrecorded
  · rcases mem_additions_iff.mp hadded with hreward | houtput
    · exact .inr (.inl hreward)
    · obtain ⟨creator, hcreator, hcreates⟩ :=
        exists_creates hnpcs a.outputs_eq houtput
      have hlt : rank creator.coinName < rank spend.coinName := by
        rw [← hcreates.parentCoinInfo, ← hnames spend hspend]
        exact hrank spend.coin hadded
      exact .inr (.inr ⟨creator,
        hbefore before spend after horder creator hcreator hlt, hcreates⟩)
  · exact .inl hrecorded

namespace Reference

def childConditions : List SExp :=
  [createCoin (SizedBytes.fill 32 1) (BigEndian.ofInt blockReward)]

def parentConditions : List SExp :=
  [createCoin (puzzleHash childConditions) (BigEndian.ofInt blockReward)]

def childCoin : Coin :=
  ⟨(coinbaseCoin parentConditions).name environment,
    puzzleHash childConditions, blockReward⟩

def grandchildCoin : Coin :=
  ⟨childCoin.name environment, SizedBytes.fill 32 1, blockReward⟩

/-- A body that lists the spend of a created coin before its creator. -/
def childFirstBody : Body :=
  body (coinbaseCoin parentConditions) ⟨indexHash 1, SizedBytes.fill 32 4, 0⟩
    [spend (childCoin.name environment) childConditions,
      spend ((coinbaseCoin parentConditions).name environment)
        parentConditions]

def childFirstAdditions : List Coin :=
  [coinbaseCoin parentConditions, ⟨indexHash 1, SizedBytes.fill 32 4, 0⟩,
    grandchildCoin, childCoin]

def childFirstRemovals : List Bytes32 :=
  [childCoin.name environment,
    (coinbaseCoin parentConditions).name environment]

def childFirstRank (name : Bytes32) : ℕ :=
  if name = indexHash 1 then 0
  else if name = (coinbaseCoin parentConditions).name environment then 1
  else if name = childCoin.name environment then 2
  else 3

end Reference

open Reference in
theorem acceptNewBlock_spends_in_order_childFirst :
    ∃ spends order,
      blockSpends environment childFirstBody childFirstAdditions
        (fun _ => none) = .ok spends ∧
      spends.map (fun spend => spend.coin.name environment) =
        childFirstRemovals ∧
      order.Perm spends ∧
      ∀ before spend after, order = before ++ spend :: after →
        (∃ unspent, (none : Option Unspent) = some unspent ∧
          unspent.Spendable 0) ∨
        spend.coin ∈ [childFirstBody.coinbaseCoin, childFirstBody.feesCoin] ∨
        ∃ earlier ∈ before, earlier.Creates environment spend.coin :=
  acceptNewBlock_spends_in_order environment environment_lawful
    (genesisView 0) (header ledgerGenesisHash childFirstBody) (fun _ => none)
    (fun _ => none) blockReward 0 childFirstAdditions childFirstRemovals
    childFirstBody childFirstRank
    (Except.toOption_eq_some_iff.mp (by decide +kernel)) rfl
    (fun _ _ _ h => by simp at h) (by decide +kernel)

end LedgerSim
