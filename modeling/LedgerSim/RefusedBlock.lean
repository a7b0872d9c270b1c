import LedgerSim.AcceptedBlock
import LedgerSim.RaisedErrors

/-!
# What refusal of a block means

The checks of `accept_new_block` run in a fixed order and the first one that
fails decides the error.  `BodyRefusal` lists the failures, each with the
facts that the earlier checks have established by then.
-/

namespace LedgerSim

variable (E : Environment)

/-! ## The facts along the way -/

/-- The lists that a body's solution program yields. -/
structure ListedBody (body : Body) (npcList : List Npc) (outputs : List Coin) :
    Prop where
  npcList_eq : namePuzzleConditionsList E body.solutionProgram = .ok npcList
  outputs_eq : createdOutputs E npcList = .ok outputs

def bodyAdditions (body : Body) (outputs : List Coin) : List Coin :=
  body.coinbaseCoin :: body.feesCoin :: outputs

structure CountedBody (body : Body) (npcList : List Npc) (outputs : List Coin) :
    Prop extends ListedBody E body npcList outputs where
  amounts : ∀ coin ∈ bodyAdditions body outputs, coin.amount < maxCoinAmount
  additions_nodup : ((bodyAdditions body outputs).map (Coin.name E)).Nodup
  removals_nodup : (npcList.map Npc.coinName).Nodup

/-- What the names of removed coins are looked up in. -/
def overlayStorage (additions : List Coin)
    (hashPreimage : Bytes32 → Option Bytes) : Bytes32 → Option Bytes :=
  overlay (ramStorageOf E additions).hashPreimage hashPreimage

structure ResolvedBody (body : Body) (hashPreimage : Bytes32 → Option Bytes)
    (npcList : List Npc) (outputs : List Coin) (cpcList : List Cpc) :
    Prop extends CountedBody E body npcList outputs where
  resolved : npcList.mapM (resolveCoin E
    (overlayStorage E (bodyAdditions body outputs) hashPreimage)) = .ok cpcList

/-- Everything that is checked before the conditions. -/
structure SpendableBody (tipIndex : ℕ) (body : Body)
    (hashPreimage : Bytes32 → Option Bytes)
    (unspentFor : Bytes32 → Option Unspent) (coinbaseReward : ℤ)
    (npcList : List Npc) (outputs : List Coin) (cpcList : List Cpc) :
    Prop extends ResolvedBody E body hashPreimage npcList outputs cpcList where
  puzzleHash : ∀ cpc ∈ cpcList, cpc.puzzleHash = cpc.coin.puzzleHash
  spendable : ∀ cpc ∈ cpcList,
    cpc.coin ∈ bodyAdditions body outputs ∨
      ∃ unspent, unspentFor (cpc.coin.name E) = some unspent ∧
        unspent.Spendable tipIndex
  fees : blockFees (bodyAdditions body outputs) cpcList = coinbaseReward

/-- The records of the removed coins. -/
def bodyRecords (tipIndex : ℕ) (additions : List Coin)
    (unspentFor : Bytes32 → Option Unspent) (cpcList : List Cpc) :
    Dict Bytes32 (Option Unspent) :=
  coinToUnspent E
    (overlay unspentFor (ramUnspentDB E additions (tipIndex + 1)).get) cpcList

/-- The context in which the conditions of a body are checked. -/
def bodyContext (tipIndex : ℕ) (body : Body)
    (unspentFor : Bytes32 → Option Unspent) (timestamp : ℤ)
    (npcList : List Npc) (outputs : List Coin) (cpcList : List Cpc) :
    ConditionContext :=
  ⟨tipIndex + 1, npcList.map Npc.coinName,
    bodyRecords E tipIndex (bodyAdditions body outputs) unspentFor cpcList,
    timestamp⟩

/-! ## The rest of the checks -/

/-- What is left of `acceptBody` when the coins may be spent. -/
def acceptSpendable (body : Body) (context : ConditionContext)
    (npcList : List Npc) (outputs : List Coin) (cpcList : List Cpc) :
    Except Exn (List Coin × List Bytes32) := do
  let hashKeyPairs ← checkSolutions E context cpcList
  let valid ← body.aggregatedSignature.validate E hashKeyPairs
  Except.raiseIf (valid = false)
    (.consensusError .badAggregateSignature (.body body))
  .ok (bodyAdditions body outputs, npcList.map Npc.coinName)

/-- What is left of `acceptBody` when the coins are resolved. -/
def acceptResolved (tipIndex : ℕ) (body : Body)
    (unspentFor : Bytes32 → Option Unspent) (coinbaseReward timestamp : ℤ)
    (npcList : List Npc) (outputs : List Coin) (cpcList : List Cpc) :
    Except Exn (List Coin × List Bytes32) := do
  checkPuzzleHashes cpcList
  cpcList.forM fun cpc => checkRemoval E tipIndex (bodyAdditions body outputs)
    (bodyRecords E tipIndex (bodyAdditions body outputs) unspentFor cpcList)
    cpc.coin
  Except.raiseIf (blockFees (bodyAdditions body outputs) cpcList ≠
      coinbaseReward)
    (.consensusError .badCoinbaseReward (.coin body.coinbaseCoin))
  acceptSpendable E body (bodyContext E tipIndex body unspentFor timestamp
    npcList outputs cpcList) npcList outputs cpcList

section Checks

variable {E} {tipIndex : ℕ} {body : Body}
  {hashPreimage : Bytes32 → Option Bytes}
  {unspentFor : Bytes32 → Option Unspent} {coinbaseReward timestamp : ℤ}
  {npcList : List Npc} {outputs : List Coin} {cpcList : List Cpc}

/-- The removal check on a list of coins that have been resolved. -/
theorem checkRemovals_ok_iff {additions : List Coin} :
    (cpcList.forM fun cpc => checkRemoval E tipIndex
      additions (bodyRecords E tipIndex additions unspentFor cpcList)
        cpc.coin) = .ok () ↔
      ∀ cpc ∈ cpcList,
        cpc.coin ∈ additions ∨
          ∃ unspent, unspentFor (cpc.coin.name E) = some unspent ∧
            unspent.Spendable tipIndex := by
  rw [Except.forM_eq_ok_iff]
  constructor
  · intro h cpc hmem
    exact (checkRemoval_ok_iff E _ _ _ hmem).mp (h cpc hmem)
  · intro h cpc hmem
    exact (checkRemoval_ok_iff E _ _ _ hmem).mpr (h cpc hmem)

theorem CountedBody.acceptBody_eq (h : CountedBody E body npcList outputs) :
    acceptBody E tipIndex body hashPreimage unspentFor coinbaseReward
        timestamp =
      (npcList.mapM (resolveCoin E
        (overlayStorage E (bodyAdditions body outputs) hashPreimage)) >>=
          acceptResolved E tipIndex body unspentFor coinbaseReward timestamp
            npcList outputs) := by
  have hamounts := (checkAmounts_ok_iff _).mpr h.amounts
  have hadditions := (checkCounter_ok_iff .duplicateOutput _).mpr
    h.additions_nodup
  have hremovals := (checkCounter_ok_iff .doubleSpend _).mpr h.removals_nodup
  unfold bodyAdditions at hamounts hadditions
  unfold acceptBody
  dsimp only
  rw [h.npcList_eq, Except.ok_bind, h.outputs_eq, Except.ok_bind, hamounts,
    Except.ok_bind, hadditions, Except.ok_bind, hremovals, Except.ok_bind]
  rfl

theorem ResolvedBody.acceptBody_eq
    (h : ResolvedBody E body hashPreimage npcList outputs cpcList) :
    acceptBody E tipIndex body hashPreimage unspentFor coinbaseReward
        timestamp =
      acceptResolved E tipIndex body unspentFor coinbaseReward timestamp
        npcList outputs cpcList := by
  rw [h.toCountedBody.acceptBody_eq, h.resolved, Except.ok_bind]

theorem SpendableBody.acceptBody_eq
    (h : SpendableBody E tipIndex body hashPreimage unspentFor coinbaseReward
      npcList outputs cpcList) :
    acceptBody E tipIndex body hashPreimage unspentFor coinbaseReward
        timestamp =
      acceptSpendable E body (bodyContext E tipIndex body unspentFor timestamp
        npcList outputs cpcList) npcList outputs cpcList := by
  rw [h.toResolvedBody.acceptBody_eq, acceptResolved,
    (checkPuzzleHashes_ok_iff _).mpr h.puzzleHash, Except.ok_bind,
    checkRemovals_ok_iff.mpr h.spendable, Except.ok_bind,
    Except.raiseIf_eq_ok_iff.mpr (not_not.mpr h.fees), Except.ok_bind]

/-- A block is accepted when its conditions and its signature pass as well. -/
theorem acceptBody_eq_ok_iff_spendable {additions : List Coin}
    {removals : List Bytes32} :
    acceptBody E tipIndex body hashPreimage unspentFor coinbaseReward
        timestamp = .ok (additions, removals) ↔
      ∃ npcList outputs cpcList hashKeyPairs,
        SpendableBody E tipIndex body hashPreimage unspentFor coinbaseReward
          npcList outputs cpcList ∧
        checkSolutions E (bodyContext E tipIndex body unspentFor timestamp
          npcList outputs cpcList) cpcList = .ok hashKeyPairs ∧
        body.aggregatedSignature.validate E hashKeyPairs = .ok true ∧
        bodyAdditions body outputs = additions ∧
        npcList.map Npc.coinName = removals := by
  rw [acceptBody_eq_ok_iff]
  constructor
  · rintro ⟨a, rfl, rfl⟩
    exact ⟨a.npcList, a.outputs, a.cpcList, a.hashKeyPairs,
      ⟨⟨⟨⟨a.npcList_eq, a.outputs_eq⟩, a.amounts, a.additions_nodup,
        a.removals_nodup⟩, a.resolved⟩, a.puzzleHash, a.spendable, a.fees⟩,
      a.solutions, a.signature, rfl, rfl⟩
  · rintro ⟨npcList, outputs, cpcList, hashKeyPairs, h, hsolutions, hsignature,
      rfl, rfl⟩
    exact ⟨⟨npcList, outputs, cpcList, hashKeyPairs, h.npcList_eq,
      h.outputs_eq, h.amounts, h.additions_nodup, h.removals_nodup, h.resolved,
      h.puzzleHash, h.spendable, h.fees, hsolutions, hsignature⟩, rfl, rfl⟩

end Checks

/-! ## The failures -/

/-- The check that refuses a body, with the error that it raises. -/
inductive BodyRefusal (tipIndex : ℕ) (body : Body)
    (hashPreimage : Bytes32 → Option Bytes)
    (unspentFor : Bytes32 → Option Unspent) (coinbaseReward timestamp : ℤ)
    (e : Exn) : Prop
  | solutionProgram
      (h : namePuzzleConditionsList E body.solutionProgram = .error e)
  | outputs {npcList : List Npc}
      (hnpcs : namePuzzleConditionsList E body.solutionProgram = .ok npcList)
      (h : createdOutputs E npcList = .error e)
  | amounts {npcList : List Npc} {outputs : List Coin}
      (hlists : ListedBody E body npcList outputs)
      (h : checkAmounts (bodyAdditions body outputs) = .error e)
  | additions {npcList : List Npc} {outputs : List Coin}
      (hlists : ListedBody E body npcList outputs)
      (hamounts : checkAmounts (bodyAdditions body outputs) = .ok ())
      (h : checkCounter .duplicateOutput
        ((bodyAdditions body outputs).map (Coin.name E)) = .error e)
  | removals {npcList : List Npc} {outputs : List Coin}
      (hlists : ListedBody E body npcList outputs)
      (hamounts : checkAmounts (bodyAdditions body outputs) = .ok ())
      (hadditions : checkCounter .duplicateOutput
        ((bodyAdditions body outputs).map (Coin.name E)) = .ok ())
      (h : checkCounter .doubleSpend (npcList.map Npc.coinName) = .error e)
  | coins {npcList : List Npc} {outputs : List Coin}
      (hcounted : CountedBody E body npcList outputs)
      (h : npcList.mapM (resolveCoin E
        (overlayStorage E (bodyAdditions body outputs) hashPreimage)) =
          .error e)
  | puzzleHashes {npcList : List Npc} {outputs : List Coin} {cpcList : List Cpc}
      (hresolved : ResolvedBody E body hashPreimage npcList outputs cpcList)
      (h : checkPuzzleHashes cpcList = .error e)
  | spent {npcList : List Npc} {outputs : List Coin} {cpcList : List Cpc}
      (hresolved : ResolvedBody E body hashPreimage npcList outputs cpcList)
      (hpuzzles : checkPuzzleHashes cpcList = .ok ())
      (h : (cpcList.forM fun cpc => checkRemoval E tipIndex
        (bodyAdditions body outputs)
        (bodyRecords E tipIndex (bodyAdditions body outputs) unspentFor cpcList)
        cpc.coin) = .error e)
  | fees {npcList : List Npc} {outputs : List Coin} {cpcList : List Cpc}
      (hresolved : ResolvedBody E body hashPreimage npcList outputs cpcList)
      (hpuzzles : checkPuzzleHashes cpcList = .ok ())
      (hspent : (cpcList.forM fun cpc => checkRemoval E tipIndex
        (bodyAdditions body outputs)
        (bodyRecords E tipIndex (bodyAdditions body outputs) unspentFor cpcList)
        cpc.coin) = .ok ())
      (hfees : blockFees (bodyAdditions body outputs) cpcList ≠ coinbaseReward)
      (h : e = .consensusError .badCoinbaseReward (.coin body.coinbaseCoin))
  | conditions {npcList : List Npc} {outputs : List Coin} {cpcList : List Cpc}
      (hspendable : SpendableBody E tipIndex body hashPreimage unspentFor
        coinbaseReward npcList outputs cpcList)
      (h : checkSolutions E (bodyContext E tipIndex body unspentFor timestamp
        npcList outputs cpcList) cpcList = .error e)
  | validation {npcList : List Npc} {outputs : List Coin} {cpcList : List Cpc}
      {hashKeyPairs : List AggsigPair}
      (hspendable : SpendableBody E tipIndex body hashPreimage unspentFor
        coinbaseReward npcList outputs cpcList)
      (hsolutions : checkSolutions E (bodyContext E tipIndex body unspentFor
        timestamp npcList outputs cpcList) cpcList = .ok hashKeyPairs)
      (h : body.aggregatedSignature.validate E hashKeyPairs = .error e)
  | signature {npcList : List Npc} {outputs : List Coin} {cpcList : List Cpc}
      {hashKeyPairs : List AggsigPair}
      (hspendable : SpendableBody E tipIndex body hashPreimage unspentFor
        coinbaseReward npcList outputs cpcList)
      (hsolutions : checkSolutions E (bodyContext E tipIndex body unspentFor
        timestamp npcList outputs cpcList) cpcList = .ok hashKeyPairs)
      (hsignature :
        body.aggregatedSignature.validate E hashKeyPairs = .ok false)
      (h : e = .consensusError .badAggregateSignature (.body body))

section Refusals

variable {E} {tipIndex : ℕ} {body : Body}
  {hashPreimage : Bytes32 → Option Bytes}
  {unspentFor : Bytes32 → Option Unspent} {coinbaseReward timestamp : ℤ}
  {e : Exn}

theorem acceptBody_refusal
    (h : acceptBody E tipIndex body hashPreimage unspentFor coinbaseReward
      timestamp = .error e) :
    BodyRefusal E tipIndex body hashPreimage unspentFor coinbaseReward
      timestamp e := by
  unfold acceptBody at h
  rcases Except.bind_eq_error_iff.mp h with hnpcs | ⟨npcList, hnpcs, h⟩
  · exact .solutionProgram hnpcs
  rcases Except.bind_eq_error_iff.mp h with houtputs | ⟨outputs, houtputs, h⟩
  · exact .outputs hnpcs houtputs
  have hlists : ListedBody E body npcList outputs := ⟨hnpcs, houtputs⟩
  rcases Except.bind_eq_error_iff.mp h with hamounts | ⟨_, hamounts, h⟩
  · exact .amounts hlists hamounts
  rcases Except.bind_eq_error_iff.mp h with hadditions | ⟨_, hadditions, h⟩
  · exact .additions hlists hamounts hadditions
  rcases Except.bind_eq_error_iff.mp h with hremovals | ⟨_, hremovals, h⟩
  · exact .removals hlists hamounts hadditions hremovals
  have hcounted : CountedBody E body npcList outputs :=
    ⟨hlists, (checkAmounts_ok_iff _).mp hamounts,
      (checkCounter_ok_iff _ _).mp hadditions,
      (checkCounter_ok_iff _ _).mp hremovals⟩
  rcases Except.bind_eq_error_iff.mp h with hcoins | ⟨cpcList, hcoins, h⟩
  · exact .coins hcounted hcoins
  have hresolved : ResolvedBody E body hashPreimage npcList outputs cpcList :=
    ⟨hcounted, hcoins⟩
  rcases Except.bind_eq_error_iff.mp h with hpuzzles | ⟨_, hpuzzles, h⟩
  · exact .puzzleHashes hresolved hpuzzles
  rcases Except.bind_eq_error_iff.mp h with hspent | ⟨_, hspent, h⟩
  · exact .spent hresolved hpuzzles hspent
  rcases Except.bind_eq_error_iff.mp h with hfees | ⟨_, hfees, h⟩
  · obtain ⟨hwrong, rfl⟩ := Except.raiseIf_eq_error_iff.mp hfees
    exact .fees hresolved hpuzzles hspent hwrong rfl
  have hspendable : SpendableBody E tipIndex body hashPreimage unspentFor
      coinbaseReward npcList outputs cpcList :=
    ⟨hresolved, (checkPuzzleHashes_ok_iff _).mp hpuzzles,
      checkRemovals_ok_iff.mp hspent,
      not_not.mp (Except.raiseIf_eq_ok_iff.mp hfees)⟩
  rcases Except.bind_eq_error_iff.mp h with hsolutions | ⟨pairs, hsolutions, h⟩
  · exact .conditions hspendable hsolutions
  rcases Except.bind_eq_error_iff.mp h with hverdict | ⟨verdict, hverdict, h⟩
  · exact .validation hspendable hsolutions hverdict
  rcases Except.bind_eq_error_iff.mp h with hfalse | ⟨_, _, h⟩
  · obtain ⟨rfl, rfl⟩ := Except.raiseIf_eq_error_iff.mp hfalse
    exact .signature hspendable hsolutions hverdict rfl
  · simp at h

theorem BodyRefusal.acceptBody_eq_error
    (h : BodyRefusal E tipIndex body hashPreimage unspentFor coinbaseReward
      timestamp e) :
    acceptBody E tipIndex body hashPreimage unspentFor coinbaseReward
      timestamp = .error e := by
  cases h with
  | solutionProgram h => exact Except.bind_eq_error_of_error h
  | outputs hnpcs h =>
      apply Except.bind_eq_error_of_ok hnpcs
      exact Except.bind_eq_error_of_error h
  | amounts hlists h =>
      apply Except.bind_eq_error_of_ok hlists.npcList_eq
      apply Except.bind_eq_error_of_ok hlists.outputs_eq
      exact Except.bind_eq_error_of_error h
  | additions hlists hamounts h =>
      apply Except.bind_eq_error_of_ok hlists.npcList_eq
      apply Except.bind_eq_error_of_ok hlists.outputs_eq
      apply Except.bind_eq_error_of_ok hamounts
      exact Except.bind_eq_error_of_error h
  | removals hlists hamounts hadditions h =>
      apply Except.bind_eq_error_of_ok hlists.npcList_eq
      apply Except.bind_eq_error_of_ok hlists.outputs_eq
      apply Except.bind_eq_error_of_ok hamounts
      apply Except.bind_eq_error_of_ok hadditions
      exact Except.bind_eq_error_of_error h
  | coins hcounted h =>
      rw [hcounted.acceptBody_eq]
      exact Except.bind_eq_error_of_error h
  | puzzleHashes hresolved h =>
      rw [hresolved.acceptBody_eq]
      exact Except.bind_eq_error_of_error h
  | spent hresolved hpuzzles h =>
      rw [hresolved.acceptBody_eq]
      apply Except.bind_eq_error_of_ok hpuzzles
      exact Except.bind_eq_error_of_error h
  | fees hresolved hpuzzles hspent hfees h =>
      rw [hresolved.acceptBody_eq]
      apply Except.bind_eq_error_of_ok hpuzzles
      apply Except.bind_eq_error_of_ok hspent
      apply Except.bind_eq_error_of_error
      exact Except.raiseIf_eq_error_iff.mpr ⟨hfees, h.symm⟩
  | conditions hspendable h =>
      rw [hspendable.acceptBody_eq]
      exact Except.bind_eq_error_of_error h
  | validation hspendable hsolutions h =>
      rw [hspendable.acceptBody_eq]
      apply Except.bind_eq_error_of_ok hsolutions
      exact Except.bind_eq_error_of_error h
  | signature hspendable hsolutions hsignature h =>
      rw [hspendable.acceptBody_eq]
      apply Except.bind_eq_error_of_ok hsolutions
      apply Except.bind_eq_error_of_ok hsignature
      apply Except.bind_eq_error_of_error
      exact Except.raiseIf_eq_error_iff.mpr ⟨rfl, h.symm⟩

theorem acceptBody_eq_error_iff :
    acceptBody E tipIndex body hashPreimage unspentFor coinbaseReward
        timestamp = .error e ↔
      BodyRefusal E tipIndex body hashPreimage unspentFor coinbaseReward
        timestamp e :=
  ⟨acceptBody_refusal, BodyRefusal.acceptBody_eq_error⟩

/-- The only check that raises `BAD_COINBASE_REWARD` is the one of the
reward. -/
theorem BodyRefusal.of_badCoinbaseReward
    (h : BodyRefusal E tipIndex body hashPreimage unspentFor coinbaseReward
      timestamp e) (hcode : e.code = .badCoinbaseReward) :
    ∃ npcList outputs cpcList,
      ResolvedBody E body hashPreimage npcList outputs cpcList ∧
        blockFees (bodyAdditions body outputs) cpcList ≠ coinbaseReward := by
  cases h with
  | solutionProgram h =>
      have := RaisesCodes.mem (raises_namePuzzleConditionsList E _) h hcode
      simp [npcCodes] at this
  | outputs _ h =>
      have := RaisesCodes.mem (raises_createdOutputs E _) h hcode
      simp at this
  | amounts _ h =>
      have := RaisesCodes.mem (raises_checkAmounts _) h hcode
      simp at this
  | additions _ _ h =>
      have := RaisesCodes.mem (raises_checkCounter _ _) h hcode
      simp at this
  | removals _ _ _ h =>
      have := RaisesCodes.mem (raises_checkCounter _ _) h hcode
      simp at this
  | coins _ h =>
      have := RaisesCodes.mem
        (Except.Raises.mapM fun _ _ => raises_resolveCoin E _ _) h hcode
      simp at this
  | puzzleHashes _ h =>
      have := RaisesCodes.mem (raises_checkPuzzleHashes _) h hcode
      simp at this
  | spent _ _ h =>
      have := RaisesCodes.mem
        (Except.Raises.forM fun _ _ => raises_checkRemoval E _ _ _ _) h hcode
      simp at this
  | fees hresolved _ _ hfees _ => exact ⟨_, _, _, hresolved, hfees⟩
  | conditions _ h =>
      have := RaisesCodes.mem (raises_checkSolutions E _ _) h hcode
      simp [conditionCodes] at this
  | validation _ _ h =>
      have := RaisesCodes.mem (raises_validate E _ _) h hcode
      simp at this
  | signature _ _ _ h =>
      rw [h] at hcode
      simp at hcode

end Refusals

/-! ## Refused blocks -/

/-- What `except Exception` makes of an exception. -/
def Exn.classified : Exn → Exn
  | .raised kind => .consensusError .unknown (.exception kind)
  | e => e

@[simp] theorem Exn.code_classified (e : Exn) : e.classified.code = e.code := by
  cases e with
  | consensusError code bad => rfl
  | raised kind => rfl

theorem classifyUnexpected_eq_error_iff {α : Type} {x : Except Exn α}
    {e : Exn} :
    classifyUnexpected x = .error e ↔
      ∃ e', x = .error e' ∧ e'.classified = e := by
  cases x with
  | ok a => simp [classifyUnexpected]
  | error e' =>
      cases e' with
      | consensusError code bad => simp [classifyUnexpected, Exn.classified]
      | raised kind => simp [classifyUnexpected, Exn.classified]

/-- The step of `accept_new_block` that refuses a block. -/
inductive BlockRefusal (chainView : ChainView) (header : Header)
    (hashPreimage : Bytes32 → Option Bytes)
    (unspentFor : Bytes32 → Option Unspent) (coinbaseReward timestamp : ℤ)
    (e : Exn) : Prop
  | notExtending
      (hextends : header.previousHash.hash ≠ chainView.tipHash.hash)
      (h : e = .consensusError .doesNotExtend (.header header))
  | pointer {e' : Exn}
      (hextends : header.previousHash.hash = chainView.tipHash.hash)
      (hobj : header.bodyHash.obj E (Body.parse E) hashPreimage = .error e')
      (h : e'.classified = e)
  | missing
      (hextends : header.previousHash.hash = chainView.tipHash.hash)
      (hobj : header.bodyHash.obj E (Body.parse E) hashPreimage = .ok none)
      (h : e = .consensusError .missingFromStorage (.hash header.bodyHash.hash))
  | body {body : Body} {e' : Exn}
      (hextends : header.previousHash.hash = chainView.tipHash.hash)
      (hobj : header.bodyHash.obj E (Body.parse E) hashPreimage =
        .ok (some body))
      (hrefusal : BodyRefusal E chainView.tipIndex body hashPreimage unspentFor
        coinbaseReward timestamp e')
      (h : e'.classified = e)

theorem acceptNewBlock_eq_error_iff {chainView : ChainView} {header : Header}
    {hashPreimage : Bytes32 → Option Bytes}
    {unspentFor : Bytes32 → Option Unspent} {coinbaseReward timestamp : ℤ}
    {e : Exn} :
    acceptNewBlock E chainView header hashPreimage unspentFor coinbaseReward
        timestamp = .error e ↔
      BlockRefusal E chainView header hashPreimage unspentFor coinbaseReward
        timestamp e := by
  have hextending : header.previousHash.hash = chainView.tipHash.hash →
      Except.raiseIf (header.previousHash.hash ≠ chainView.tipHash.hash)
        (Exn.consensusError .doesNotExtend (.header header)) = .ok () :=
    fun h => Except.raiseIf_eq_ok_iff.mpr (not_not.mpr h)
  unfold acceptNewBlock
  rw [classifyUnexpected_eq_error_iff]
  constructor
  · rintro ⟨e', h, he⟩
    rcases Except.bind_eq_error_iff.mp h with hextends | ⟨_, hextends, h⟩
    · obtain ⟨hother, rfl⟩ := Except.raiseIf_eq_error_iff.mp hextends
      exact .notExtending hother he.symm
    have hextends := not_not.mp (Except.raiseIf_eq_ok_iff.mp hextends)
    rcases Except.bind_eq_error_iff.mp h with hobj | ⟨resolved, hobj, h⟩
    · exact .pointer hextends hobj he
    cases resolved with
    | none =>
        obtain rfl := Except.error.inj h
        exact .missing hextends hobj he.symm
    | some body => exact .body hextends hobj (acceptBody_refusal h) he
  · intro h
    cases h with
    | notExtending hextends h =>
        refine ⟨.consensusError .doesNotExtend (.header header), ?_, h.symm⟩
        apply Except.bind_eq_error_of_error
        exact Except.raiseIf_eq_error_iff.mpr ⟨hextends, rfl⟩
    | pointer hextends hobj h =>
        exact ⟨_, Except.bind_eq_error_of_ok (hextending hextends)
          (Except.bind_eq_error_of_error hobj), h⟩
    | missing hextends hobj h =>
        exact ⟨_, Except.bind_eq_error_of_ok (hextending hextends)
          (Except.bind_eq_error_of_ok hobj rfl), h.symm⟩
    | body hextends hobj hrefusal h =>
        exact ⟨_, Except.bind_eq_error_of_ok (hextending hextends)
          (Except.bind_eq_error_of_ok hobj hrefusal.acceptBody_eq_error), h⟩

end LedgerSim
