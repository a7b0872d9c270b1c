import LedgerSim.BlockSpends

/-!
# Enforced conditions

A condition that a revealed puzzle outputs reaches one of three consumers by
its opcode: the checkers, the created coins or the signature pairs.  In an
accepted block all three have seen every condition, each of them once and in
order.
-/

namespace LedgerSim

variable (E : Environment)

/-- The index that the age of a spent coin counts from: the one of its record,
or the block's own for a coin that the block creates. -/
def confirmedIndex (unspentFor : Bytes32 → Option Unspent)
    (additions : List Coin) (blockIndex : ℕ) (coin : Coin) : Option ℕ :=
  match unspentFor (coin.name E) with
  | some unspent => some unspent.confirmedBlockIndex
  | none => if coin ∈ additions then some blockIndex else none

/-- The `CREATE_COIN` conditions of a spend, with the name of the coin that
creates. -/
def Spend.creations (spend : Spend) : List (Bytes32 × Condition) :=
  (spend.withOpcode .createCoin).map fun condition =>
    (spend.coinName, condition)

theorem createdOutputs_eq_ok_iff {spends : List Spend} {npcList : List Npc}
    (hspends : List.Forall₂ (fun spend npc => spend.coinName = npc.coinName ∧
      npc.conditionsDict = conditionsByOpcode spend.conditions)
        spends npcList) {outputs : List Coin} :
    createdOutputs E npcList = .ok outputs ↔
      (spends.flatMap Spend.creations).mapM
        (fun created => createdOutput E created.1 created.2) = .ok outputs := by
  rw [Except.mapM_flatMap_eq_ok_iff]
  unfold createdOutputs
  have hparts : spends.mapM (fun spend => spend.creations.mapM
        fun created => createdOutput E created.1 created.2) =
      npcList.mapM fun npc =>
        createdOutputsForConditionsDict E npc.conditionsDict npc.coinName := by
    apply Except.mapM_eq_of_forall₂
    refine hspends.imp fun spend npc hspend => ?_
    obtain ⟨hname, hdict⟩ := hspend
    unfold createdOutputsForConditionsDict
    rw [hdict, get_conditionsByOpcode, ← hname]
    unfold Spend.creations Spend.withOpcode
    rw [List.mapM_map]
    rfl
  rw [hparts, Except.bind_eq_ok_iff]
  simp only [Except.ok.injEq]

theorem Spend.hashKeyPairs (spend : Spend) :
    hashKeyPairsForConditionsDict (conditionsByOpcode spend.conditions) =
      (spend.withOpcode .aggSig).mapM hashKeyPair := by
  unfold hashKeyPairsForConditionsDict
  rw [get_conditionsByOpcode]
  rfl

/-- The conditions of every spend hold, and the aggregate signature is checked
against the pairs of all of them. -/
theorem checkSolutions_eq_ok_iff {context : ConditionContext}
    {spends : List Spend} {cpcList : List Cpc}
    (hspends : List.Forall₂ (fun spend cpc => spend.coin = cpc.coin ∧
      cpc.conditionsDict = conditionsByOpcode spend.conditions)
        spends cpcList) {pairs : List AggsigPair} :
    checkSolutions E context cpcList = .ok pairs ↔
      (∀ spend ∈ spends, ∀ condition ∈ spend.conditions,
        context.Permits E spend.coin condition) ∧
      (spends.flatMap fun spend => spend.withOpcode .aggSig).mapM hashKeyPair =
        .ok pairs := by
  rw [checkSolutions_split_ok_iff, Except.mapM_flatMap_eq_ok_iff]
  have hchecks : (∀ cpc ∈ cpcList,
        checkConditionsDict E cpc.coin cpc.conditionsDict context = .ok ()) ↔
      ∀ spend ∈ spends, ∀ condition ∈ spend.conditions,
        context.Permits E spend.coin condition := by
    constructor
    · intro h spend hspend
      obtain ⟨cpc, hcpc, hcoin, hdict⟩ := hspends.exists_of_mem_left hspend
      have hcheck := h cpc hcpc
      rw [hdict, ← hcoin] at hcheck
      exact (checkConditionsDict_ok_iff E).mp hcheck
    · intro h cpc hcpc
      obtain ⟨spend, hspend, hcoin, hdict⟩ := hspends.exists_of_mem_right hcpc
      rw [hdict, ← hcoin]
      exact (checkConditionsDict_ok_iff E).mpr (h spend hspend)
  have hpairs : spends.mapM (fun spend =>
        (spend.withOpcode .aggSig).mapM hashKeyPair) =
      cpcList.mapM fun cpc =>
        hashKeyPairsForConditionsDict cpc.conditionsDict := by
    apply Except.mapM_eq_of_forall₂
    refine hspends.imp fun spend cpc hspend => ?_
    rw [hspend.2, spend.hashKeyPairs]
  unfold keyPairs
  rw [hchecks, hpairs, Except.bind_eq_ok_iff]
  simp only [Except.ok.injEq]

section Confirmed

variable {E} {unspentFor : Bytes32 → Option Unspent} {additions : List Coin}
  {blockIndex : ℕ}

/-- What the checkers look up is the record of the coin, or the record that
the block gives to its own additions. -/
theorem confirmed_eq_confirmedIndex {cpcList : List Cpc} {cpc : Cpc}
    (hcpc : cpc ∈ cpcList)
    (hspendable : cpc.coin ∈ additions ∨
      ∃ unspent, unspentFor (cpc.coin.name E) = some unspent)
    (removals : List Bytes32) (timestamp : ℤ) :
    ConditionContext.confirmed E
        ⟨blockIndex, removals,
          coinToUnspent E
            (overlay unspentFor (ramUnspentDB E additions blockIndex).get)
            cpcList, timestamp⟩ cpc.coin =
      confirmedIndex E unspentFor additions blockIndex cpc.coin := by
  unfold ConditionContext.confirmed confirmedIndex
  rw [coinToUnspent_get_of_mem E _ hcpc]
  cases hrecord : unspentFor (cpc.coin.name E) with
  | some unspent =>
      rw [overlay_of_top hrecord]
      rfl
  | none =>
      have hadded : cpc.coin ∈ additions := by
        rcases hspendable with hadded | ⟨unspent, hunspent⟩
        · exact hadded
        · rw [hrecord] at hunspent
          cases hunspent
      have hname : cpc.coin.name E ∈ additions.map (Coin.name E) :=
        List.mem_map_of_mem hadded
      rw [overlay_of_top_none hrecord, ramUnspentDB_get, if_pos hname]
      simp [hadded]

theorem exists_confirmedIndex {coin : Coin}
    (hspendable : coin ∈ additions ∨
      ∃ unspent, unspentFor (coin.name E) = some unspent) :
    ∃ index, confirmedIndex E unspentFor additions blockIndex coin =
      some index := by
  unfold confirmedIndex
  cases hrecord : unspentFor (coin.name E) with
  | some unspent => exact ⟨_, rfl⟩
  | none =>
      rcases hspendable with hadded | ⟨unspent, hunspent⟩
      · exact ⟨blockIndex, if_pos hadded⟩
      · rw [hrecord] at hunspent
        cases hunspent

end Confirmed

/-- Every condition that the puzzles of an accepted block output is enforced:
the assertions hold of the coin that reveals them, the signature pairs are the
ones that the aggregate signature is checked against, and the created coins
are the additions after the two reward coins. -/
theorem acceptNewBlock_enforces_conditions (chainView : ChainView)
    (header : Header) (hashPreimage : Bytes32 → Option Bytes)
    (unspentForCoinName : Bytes32 → Option Unspent)
    (coinbaseReward timestamp : ℤ) (additions : List Coin)
    (removals : List Bytes32) (body : Body)
    (haccepted : acceptNewBlock E chainView header hashPreimage
      unspentForCoinName coinbaseReward timestamp = .ok (additions, removals))
    (hbody : header.bodyHash.obj E (Body.parse E) hashPreimage =
      .ok (some body)) :
    ∃ spends pairs outputs,
      blockSpends E body additions hashPreimage = .ok spends ∧
      spends.map Spend.coinName = removals ∧
      (∀ spend ∈ spends, ∃ items, spend.Reveals E items) ∧
      (∀ spend ∈ spends, ∀ condition ∈ spend.conditions,
        condition.Holds E removals (chainView.tipIndex + 1)
          (confirmedIndex E unspentForCoinName additions
            (chainView.tipIndex + 1) spend.coin) timestamp spend.coin) ∧
      List.Forall₂ (fun condition pair => hashKeyPair condition = .ok pair)
        (spends.flatMap fun spend => spend.withOpcode .aggSig) pairs ∧
      body.aggregatedSignature.validate E pairs = .ok true ∧
      List.Forall₂
        (fun created coin => createdOutput E created.1 created.2 = .ok coin)
        (spends.flatMap Spend.creations) outputs ∧
      additions = body.coinbaseCoin :: body.feesCoin :: outputs := by
  obtain ⟨-, body', hbody', a, rfl, rfl⟩ :=
    (acceptNewBlock_eq_ok_iff E).mp haccepted
  obtain rfl : body = body' := by simpa using hbody.symm.trans hbody'
  obtain ⟨spends, hspends, hnpcs, hcpcs⟩ := a.exists_spends
  obtain ⟨hholds, hpairs⟩ :=
    (checkSolutions_eq_ok_iff E hcpcs).mp a.solutions
  have houtputs := (createdOutputs_eq_ok_iff E hnpcs).mp a.outputs_eq
  have hnames : spends.map Spend.coinName = a.removals :=
    (hnpcs.imp fun _ _ h => h.1).map_eq_map
  refine ⟨spends, a.hashKeyPairs, a.outputs, hspends, hnames,
    fun spend => blockSpends_reveal E hspends, ?_,
    Except.mapM_eq_ok_iff.mp hpairs, a.signature,
    Except.mapM_eq_ok_iff.mp houtputs, rfl⟩
  intro spend hspend condition hcondition
  obtain ⟨cpc, hcpc, hcoin, -⟩ := hcpcs.exists_of_mem_left hspend
  have hpermits := hholds spend hspend condition hcondition
  unfold ConditionContext.Permits at hpermits
  rw [hcoin] at hpermits ⊢
  have hspendable : cpc.coin ∈ a.additions ∨
      ∃ unspent, unspentForCoinName (cpc.coin.name E) = some unspent :=
    (a.spendable cpc hcpc).imp_right fun ⟨unspent, hrecord, _⟩ =>
      ⟨unspent, hrecord⟩
  rw [← confirmed_eq_confirmedIndex hcpc hspendable a.removals timestamp]
  exact hpermits

namespace Reference

def condition (opcode : ConditionOpcode) (arguments : List Bytes) : SExp :=
  .ofList (.atom opcode.value :: arguments.map SExp.atom)

/-- An unknown opcode between conditions of every kind that an unsigned spend
can meet. -/
def mixedConditions : List SExp :=
  [condition .assertBlockIndexExceeds [[0]],
    createCoin (SizedBytes.fill 32 1) (BigEndian.ofInt 400),
    .ofList [.atom [99], .atom [7]],
    condition .assertTimeExceeds [[4]],
    condition .assertBlockAgeExceeds [[255]],
    condition .assertBlockIndexExceeds [[0]],
    createCoin (SizedBytes.fill 32 2) (BigEndian.ofInt 999999600),
    condition .assertCoinConsumed []]

def mixedAdditions : List Coin :=
  let coinbase := coinbaseCoin mixedConditions
  [coinbase, ⟨indexHash 1, SizedBytes.fill 32 4, 0⟩,
    ⟨coinbase.name environment, SizedBytes.fill 32 1, 400⟩,
    ⟨coinbase.name environment, SizedBytes.fill 32 2, 999999600⟩]

theorem mixed_accepted :
    acceptNewBlock environment (genesisView 0)
        (header ledgerGenesisHash (spendingBody mixedConditions))
        (fun _ => none) (fun _ => none) blockReward 5 =
      .ok (mixedAdditions, [(coinbaseCoin mixedConditions).name environment]) :=
  Except.toOption_eq_some_iff.mp (by decide +kernel)

end Reference

open Reference in
theorem acceptNewBlock_enforces_conditions_mixed :
    ∃ spends pairs outputs,
      blockSpends environment (spendingBody mixedConditions) mixedAdditions
        (fun _ => none) = .ok spends ∧
      spends.map Spend.coinName =
        [(coinbaseCoin mixedConditions).name environment] ∧
      (∀ spend ∈ spends, ∃ items, spend.Reveals environment items) ∧
      (∀ spend ∈ spends, ∀ condition ∈ spend.conditions,
        condition.Holds environment
          [(coinbaseCoin mixedConditions).name environment] 1
          (confirmedIndex environment (fun _ => none) mixedAdditions 1
            spend.coin) 5 spend.coin) ∧
      List.Forall₂ (fun condition pair => hashKeyPair condition = .ok pair)
        (spends.flatMap fun spend => spend.withOpcode .aggSig) pairs ∧
      (spendingBody mixedConditions).aggregatedSignature.validate environment
        pairs = .ok true ∧
      List.Forall₂ (fun created coin =>
          createdOutput environment created.1 created.2 = .ok coin)
        (spends.flatMap Spend.creations) outputs ∧
      mixedAdditions = (spendingBody mixedConditions).coinbaseCoin ::
        (spendingBody mixedConditions).feesCoin :: outputs :=
  acceptNewBlock_enforces_conditions environment (genesisView 0)
    (header ledgerGenesisHash (spendingBody mixedConditions)) (fun _ => none)
    (fun _ => none) blockReward 5 mixedAdditions
    [(coinbaseCoin mixedConditions).name environment]
    (spendingBody mixedConditions) mixed_accepted rfl

end LedgerSim
