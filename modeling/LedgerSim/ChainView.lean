import LedgerSim.Conditions
import LedgerSim.Storage

/-!
# Chain views and block validation

`acceptNewBlock` only reads; it is a pure function of what the storage and the
unspent database answer.  `ChainView.augmentChainView` validates, then writes
the block's deltas, then checks the header signature of the new view.
-/

namespace LedgerSim

variable (E : Environment)

def maxCoinAmount : ℤ := 2 ^ 48

/-! ## The spends of a body -/

structure Npc where
  coinName : Bytes32
  puzzleHash : Bytes32
  conditionsDict : ConditionsDict

/-- The two items of a Python sequence of length two. -/
def PyVal.two : PyVal → Option (PyVal × PyVal)
  | .list [a, b] => some (a, b)
  | .tuple a b => some (a, b)
  | _ => none

/-- One round of the loop in `name_puzzle_conditions_list`. -/
def npcEntry (nameSolution : SExp) : Except Exn Npc :=
  let invalid := Exn.consensusError .invalidCoinSolution (.sexp nameSolution)
  match (E.asPython nameSolution).two with
  | some (.bytes name, .list [_, _]) =>
      if h : name.length = 32 then do
        let coinName : Bytes32 := ⟨name, h⟩
        let afterName ← nameSolution.rest
        let puzzleSolutionProgram ← afterName.first
        let puzzleProgram ← puzzleSolutionProgram.first
        let puzzleHash ← E.programHash puzzleProgram
        let conditionsDict ← E.exceptEvalError
          (.consensusError .invalidCoinSolution (.hash coinName))
          (conditionsDictForSolution E puzzleSolutionProgram)
        .ok ⟨coinName, puzzleHash, conditionsDict⟩
      else .error invalid
  | _ => .error invalid

/-- `name_puzzle_conditions_list`; a `breakpoint` is passed over. -/
def namePuzzleConditionsList (bodyProgram : Program) :
    Except Exn (List Npc) := do
  let sexp ← E.exceptEvalError
    (.consensusError .invalidBlockSolution (.sexp bodyProgram))
    (E.run bodyProgram .null)
  sexp.forIter (npcEntry E)

def createdOutputs (npcList : List Npc) : Except Exn (List Coin) := do
  let outputs ← npcList.mapM fun npc =>
    createdOutputsForConditionsDict E npc.conditionsDict npc.coinName
  .ok outputs.flatten

def additionsForBody (body : Body) : Except Exn (List Coin) := do
  let npcList ← namePuzzleConditionsList E body.solutionProgram
  let outputs ← createdOutputs E npcList
  .ok (body.coinbaseCoin :: body.feesCoin :: outputs)

def removalsForBody (body : Body) : Except Exn (List Bytes32) := do
  let npcList ← namePuzzleConditionsList E body.solutionProgram
  .ok (npcList.map Npc.coinName)

/-! ## `accept_new_block` -/

structure ChainView where
  genesisHash : HeaderHash
  tipHash : HeaderHash
  tipSignature : EORSignature
  tipIndex : ℕ
  unspentDb : Ref

def ChainView.forGenesisHash (genesisHash : HeaderHash) (unspentDb : Ref) :
    ChainView :=
  ⟨genesisHash, genesisHash, EORSignature.zero, 0, unspentDb⟩

def checkAmounts (additions : List Coin) : Except Exn Unit :=
  additions.forM fun coin =>
    .raiseIf (maxCoinAmount ≤ coin.amount)
      (.consensusError .coinAmountExceedsMaximum (.coin coin))

/-- Raise `err` for the first key that a `Counter` of the names counts more
than once. -/
def checkCounter (err : Err) (names : List Bytes32) : Except Exn Unit :=
  match names.find? fun k => 1 < names.count k with
  | some k => .error (.consensusError err (.hash k))
  | none => .ok ()

structure Cpc where
  coin : Coin
  puzzleHash : Bytes32
  conditionsDict : ConditionsDict

/-- `CoinPointer.obj` raises when there is no blob, so that the test for
`None` after it never fires. -/
def resolveCoin (hashPreimage : Bytes32 → Option Bytes) (npc : Npc) :
    Except Exn Cpc := do
  let coin ← coinPointerObj E hashPreimage npc.coinName
  .ok ⟨coin, npc.puzzleHash, npc.conditionsDict⟩

def checkPuzzleHashes (cpcList : List Cpc) : Except Exn Unit :=
  cpcList.forM fun cpc =>
    .raiseIf (cpc.puzzleHash ≠ cpc.coin.puzzleHash)
      (.consensusError .wrongPuzzleHash (.coin cpc.coin))

def coinToUnspent (unspentForCoinName : Bytes32 → Option Unspent)
    (cpcList : List Cpc) : Dict Bytes32 (Option Unspent) :=
  cpcList.foldl
    (fun d cpc =>
      d.set (cpc.coin.name E) (unspentForCoinName (cpc.coin.name E)))
    Dict.empty

def checkRemoval (tipIndex : ℕ) (additions : List Coin)
    (coinToUnspent : Dict Bytes32 (Option Unspent)) (coin : Coin) :
    Except Exn Unit :=
  -- an ephemeral coin, created and destroyed in the same block
  if coin ∈ additions then .ok ()
  else
    match coinToUnspent.get (coin.name E) with
    | none => .error PyException.keyError
    | some none =>
        .error (.consensusError .unknownUnspent (.hash (coin.name E)))
    | some (some unspent) =>
        if unspent.confirmedBlockIndex = 0 ∨
            tipIndex < unspent.confirmedBlockIndex then
          .error (.consensusError .unknownUnspent (.hash (coin.name E)))
        else if 0 < unspent.spentBlockIndex ∧
            unspent.spentBlockIndex ≤ tipIndex then
          .error (.consensusError .doubleSpend (.hash (coin.name E)))
        else .ok ()

def blockFees (additions : List Coin) (cpcList : List Cpc) : ℤ :=
  (additions.map Coin.amount).sum - (cpcList.map fun cpc => cpc.coin.amount).sum

def checkSolutions (context : ConditionContext) (cpcList : List Cpc) :
    Except Exn (List AggsigPair) := do
  let pairs ← cpcList.mapM fun cpc => do
    checkConditionsDict E cpc.coin cpc.conditionsDict context
    hashKeyPairsForConditionsDict cpc.conditionsDict
  .ok pairs.flatten

/-- The checks of `accept_new_block` on a body that has been resolved. -/
def acceptBody (tipIndex : ℕ) (body : Body)
    (hashPreimage : Bytes32 → Option Bytes)
    (unspentForCoinName : Bytes32 → Option Unspent)
    (coinbaseReward timestamp : ℤ) :
    Except Exn (List Coin × List Bytes32) := do
  let newlyCreatedBlockIndex := tipIndex + 1
  let npcList ← namePuzzleConditionsList E body.solutionProgram
  let removals := npcList.map Npc.coinName
  let outputs ← createdOutputs E npcList
  let additions := body.coinbaseCoin :: body.feesCoin :: outputs
  checkAmounts additions
  checkCounter .duplicateOutput (additions.map (Coin.name E))
  checkCounter .doubleSpend removals
  let overlayStorage :=
    overlay (ramStorageOf E additions).hashPreimage hashPreimage
  let overlayUnspentDb :=
    overlay unspentForCoinName
      (ramUnspentDB E additions newlyCreatedBlockIndex).get
  let cpcList ← npcList.mapM (resolveCoin E overlayStorage)
  checkPuzzleHashes cpcList
  let coinToUnspent := coinToUnspent E overlayUnspentDb cpcList
  cpcList.forM fun cpc =>
    checkRemoval E tipIndex additions coinToUnspent cpc.coin
  Except.raiseIf (blockFees additions cpcList ≠ coinbaseReward)
    (.consensusError .badCoinbaseReward (.coin body.coinbaseCoin))
  let hashKeyPairs ← checkSolutions E
    ⟨newlyCreatedBlockIndex, removals, coinToUnspent, timestamp⟩ cpcList
  let valid ← body.aggregatedSignature.validate E hashKeyPairs
  Except.raiseIf (valid = false)
    (.consensusError .badAggregateSignature (.body body))
  .ok (additions, removals)

/-- The `except Exception` clause of `accept_new_block`. -/
def classifyUnexpected {α : Type} : Except Exn α → Except Exn α
  | .error (.raised kind) =>
      .error (.consensusError .unknown (.exception kind))
  | r => r

/-- `accept_new_block`: the additions (coins) and removals (coin names) of a
block that extends the view. -/
def acceptNewBlock (chainView : ChainView) (header : Header)
    (hashPreimage : Bytes32 → Option Bytes)
    (unspentForCoinName : Bytes32 → Option Unspent)
    (coinbaseReward timestamp : ℤ) :
    Except Exn (List Coin × List Bytes32) :=
  classifyUnexpected do
    Except.raiseIf (header.previousHash.hash ≠ chainView.tipHash.hash)
      (.consensusError .doesNotExtend (.header header))
    match ← header.bodyHash.obj E (Body.parse E) hashPreimage with
    | none =>
        .error (.consensusError .missingFromStorage (.hash header.bodyHash.hash))
    | some body =>
        acceptBody E chainView.tipIndex body hashPreimage unspentForCoinName
          coinbaseReward timestamp

/-! ## Applying a block -/

def applyAddition (blockIndex : ℕ) (unspentDb storage : Ref) (coin : Coin) :
    DbM Unit := do
  setUnspentForCoinName unspentDb (coin.name E) ⟨blockIndex, 0⟩
  addPreimage E storage (coin.bytes E)

def applyRemoval (blockIndex : ℕ) (unspentDb : Ref) (coinName : Bytes32) :
    DbM Unit := do
  match ← unspentForCoinName unspentDb coinName with
  | none => Exec.throw PyException.attributeError
  | some unspent =>
      setUnspentForCoinName unspentDb coinName
        ⟨unspent.confirmedBlockIndex, blockIndex⟩

def applyDeltas (blockIndex : ℕ) (additions : List Coin)
    (removals : List Bytes32) (unspentDb storage : Ref) : DbM Unit := do
  additions.forM (applyAddition E blockIndex unspentDb storage)
  removals.forM (applyRemoval blockIndex unspentDb)

/-! ## Header signatures -/

def checkHeaderSignature (headerHash : HeaderHash)
    (headerSignature : EORSignature)
    (hashPreimage : Bytes32 → Option Bytes) : Except Exn Unit := do
  match ← headerHash.obj E Header.parse hashPreimage with
  | none =>
      .error (.consensusError .missingFromStorage (.hash headerHash.hash))
  | some header =>
      match ← header.proofOfSpaceHash.obj E ProofOfSpace.parse hashPreimage with
      | none =>
          .error (.consensusError .missingFromStorage
            (.hash header.proofOfSpaceHash.hash))
      | some pos =>
          let headerPointer ← HashPointer.ofObject E Header.bytes header
          Except.raiseIf
            (headerSignature.validate
              [(pos.plotPublicKey, headerPointer.hash)] = false)
            (.consensusError .badHeaderSignature (.signature headerSignature))

/-- `check_tip_signature`.  `Err` has no member `BAD_GENESIS_SIGNATURE`, so
naming it raises. -/
def ChainView.checkTipSignature (self : ChainView)
    (hashPreimage : Bytes32 → Option Bytes) : Except Exn Unit :=
  if self.tipHash.hash = self.genesisHash.hash then
    Except.raiseIf (self.tipSignature ≠ EORSignature.zero)
      PyException.attributeError
  else checkHeaderSignature E self.tipHash self.tipSignature hashPreimage

/-- `augment_chain_view`.  `apply_deltas` expects the unspent database before
the storage and is called with the storage first. -/
def ChainView.augmentChainView (self : ChainView) (header : Header)
    (headerSignature : EORSignature) (storage newUnspentDb : Ref)
    (reward timestamp : ℤ) : DbM ChainView := do
  let tipIndex := self.tipIndex + 1
  let heap ← Exec.get
  let (additions, removals) ← Exec.ofExcept <|
    acceptNewBlock E self header (heap storage).hashPreimage
      (heap self.unspentDb).unspentForCoinName reward timestamp
  applyDeltas E tipIndex additions removals storage newUnspentDb
  let tipHash ← Exec.ofExcept (HashPointer.ofObject E Header.bytes header)
  let chainView : ChainView :=
    ⟨self.genesisHash, tipHash, headerSignature, tipIndex, newUnspentDb⟩
  let heap ← Exec.get
  Exec.ofExcept (chainView.checkTipSignature E (heap storage).hashPreimage)
  pure chainView

end LedgerSim
