import LedgerSim.LedgerApi
import LedgerSim.TaskPool

/-!
# The server's coroutines

The `async` functions with their awaits: every operation on a storage or an
unspent database may suspend the request, and so may the lock.  Between two
awaits nothing else runs.  The tip hash of a new view and the pointers of a
farmed header know their objects, so resolving them suspends nothing.
-/

namespace LedgerSim

open Coroutine TaskPool

variable (E : Environment)

/-- `nextBlockLock` is the task that holds `_next_block_lock`. -/
structure Server extends LedgerAPI where
  nextBlockLock : Option ℕ

def Server.initial : Server :=
  ⟨LedgerAPI.initial, none⟩

/-- What a request can wait for. -/
inductive AsyncOp where
  | addPreimage (storage : Ref) (blob : Bytes)
  | hashPreimage (storage : Ref) (hash : Bytes32)
  | setUnspentForCoinName (unspentDb : Ref) (coinName : Bytes32)
      (unspent : Unspent)
  | unspentForCoinName (unspentDb : Ref) (coinName : Bytes32)
  | acquire (task : ℕ)

namespace AsyncOp

abbrev Answer : AsyncOp → Type
  | addPreimage .. | setUnspentForCoinName .. | acquire .. => Unit
  | hashPreimage .. => Option Bytes
  | unspentForCoinName .. => Option Unspent

def IsStorage : AsyncOp → Prop
  | acquire _ => False
  | _ => True

instance : DecidablePred IsStorage
  | .acquire _ => .isFalse id
  | .addPreimage .. | .hashPreimage .. | .setUnspentForCoinName ..
  | .unspentForCoinName .. => .isTrue trivial

/-- The operation on a heap of `RAM_DB`s. -/
def perform : (op : AsyncOp) → DbM op.Answer
  | addPreimage storage blob => LedgerSim.addPreimage E storage blob
  | hashPreimage storage hash => do
      let heap ← Exec.get
      pure ((heap storage).hashPreimage hash)
  | setUnspentForCoinName unspentDb coinName unspent =>
      LedgerSim.setUnspentForCoinName unspentDb coinName unspent
  | unspentForCoinName unspentDb coinName =>
      LedgerSim.unspentForCoinName unspentDb coinName
  | acquire _ => pure ()

end AsyncOp

/-- Storages that answer anything at any time, or raise. -/
inductive AnyStorage (self : Server) :
    (op : AsyncOp) → Except Exn op.Answer → Server → Prop
  | acquire (task : ℕ) (hfree : self.nextBlockLock = none) :
      AnyStorage self (.acquire task) (.ok ())
        { self with nextBlockLock := some task }
  | storage {op : AsyncOp} (hop : op.IsStorage) (answer : Except Exn op.Answer)
      (heap : Heap) : AnyStorage self op answer { self with heap := heap }

/-- Storages that are `RAM_DB`s of this server alone. -/
inductive RamStorage (self : Server) :
    (op : AsyncOp) → Except Exn op.Answer → Server → Prop
  | acquire (task : ℕ) (hfree : self.nextBlockLock = none) :
      RamStorage self (.acquire task) (.ok ())
        { self with nextBlockLock := some task }
  | storage {op : AsyncOp} (hop : op.IsStorage) :
      RamStorage self op ((op.perform E).run self.heap).1
        { self with heap := ((op.perform E).run self.heap).2 }

abbrev AsyncM := Coroutine Server AsyncOp AsyncOp.Answer Exn

namespace Async

/-! ## Awaits -/

def addPreimage (storage : Ref) (blob : Bytes) : AsyncM Unit :=
  call (AsyncOp.addPreimage storage blob)

def hashPreimage (storage : Ref) (hash : Bytes32) : AsyncM (Option Bytes) :=
  call (AsyncOp.hashPreimage storage hash)

def setUnspentForCoinName (unspentDb : Ref) (coinName : Bytes32)
    (unspent : Unspent) : AsyncM Unit :=
  call (AsyncOp.setUnspentForCoinName unspentDb coinName unspent)

def unspentForCoinName (unspentDb : Ref) (coinName : Bytes32) :
    AsyncM (Option Unspent) :=
  call (AsyncOp.unspentForCoinName unspentDb coinName)

def acquire (task : ℕ) : AsyncM Unit :=
  call (AsyncOp.acquire task)

/-! ## Pointers -/

/-- `hash_pointer.obj` -/
def hashPointerObj {α : Type} (parse : Parser α) (p : HashPointer α)
    (storage : Ref) : AsyncM (Option α) :=
  match p.cached with
  | some v => pure (some v)
  | none => do
      match ← hashPreimage storage p.hash with
      | none => pure none
      | some blob =>
          if E.stdHash blob = p.hash then
            ofExcept ((Parser.fromBytes parse blob).map some)
          else pure none

/-- `OverlayStorage.hash_preimage` with a storage in memory on top. -/
def overlayHashPreimage (top : Database) (bottom : Ref) (hash : Bytes32) :
    AsyncM (Option Bytes) :=
  match top.hashPreimage hash with
  | some blob => pure (some blob)
  | none => hashPreimage bottom hash

/-- `OverlayUnspentDB.unspent_for_coin_name` with a database in memory at the
bottom. -/
def overlayUnspentForCoinName (top : Ref) (bottom : Dict Bytes32 Unspent)
    (coinName : Bytes32) : AsyncM (Option Unspent) := do
  match ← unspentForCoinName top coinName with
  | some unspent => pure (some unspent)
  | none => pure (bottom.get coinName)

/-! ## Validation

The reads that `accept_new_block` starts together write nothing; they are
awaited in the order of the spends. -/

def resolveCoin (ramStorage : Database) (storage : Ref) (npc : Npc) :
    AsyncM Cpc := do
  match ← overlayHashPreimage ramStorage storage npc.coinName with
  | none => raise PyException.typeError
  | some blob =>
      let coin ← ofExcept (Coin.fromBytes E blob)
      pure ⟨coin, npc.puzzleHash, npc.conditionsDict⟩

def coinToUnspent (unspentDb : Ref) (ramDb : Dict Bytes32 Unspent)
    (cpcList : List Cpc) : AsyncM (Dict Bytes32 (Option Unspent)) :=
  cpcList.foldlM (fun d cpc => do
    let unspent ← overlayUnspentForCoinName unspentDb ramDb (cpc.coin.name E)
    pure (d.set (cpc.coin.name E) unspent)) Dict.empty

def acceptBody (tipIndex : ℕ) (body : Body) (storage unspentDb : Ref)
    (coinbaseReward timestamp : ℤ) : AsyncM (List Coin × List Bytes32) := do
  let newlyCreatedBlockIndex := tipIndex + 1
  let npcList ← ofExcept (namePuzzleConditionsList E body.solutionProgram)
  let removals := npcList.map Npc.coinName
  let outputs ← ofExcept (createdOutputs E npcList)
  let additions := body.coinbaseCoin :: body.feesCoin :: outputs
  ofExcept (checkAmounts additions)
  ofExcept (checkCounter .duplicateOutput (additions.map (Coin.name E)))
  ofExcept (checkCounter .doubleSpend removals)
  let cpcList ← npcList.mapM (resolveCoin E (ramStorageOf E additions) storage)
  ofExcept (checkPuzzleHashes cpcList)
  let coinToUnspent ← coinToUnspent E unspentDb
    (ramUnspentDB E additions newlyCreatedBlockIndex) cpcList
  ofExcept <| cpcList.forM fun cpc =>
    checkRemoval E tipIndex additions coinToUnspent cpc.coin
  ofExcept <| Except.raiseIf (blockFees additions cpcList ≠ coinbaseReward)
    (.consensusError .badCoinbaseReward (.coin body.coinbaseCoin))
  let hashKeyPairs ← ofExcept <| checkSolutions E
    ⟨newlyCreatedBlockIndex, removals, coinToUnspent, timestamp⟩ cpcList
  let valid ← ofExcept (body.aggregatedSignature.validate E hashKeyPairs)
  ofExcept <| Except.raiseIf (valid = false)
    (.consensusError .badAggregateSignature (.body body))
  pure (additions, removals)

def acceptNewBlock (chainView : ChainView) (header : Header) (storage : Ref)
    (coinbaseReward timestamp : ℤ) : AsyncM (List Coin × List Bytes32) :=
  let accepted : AsyncM (List Coin × List Bytes32) := do
    ofExcept <| Except.raiseIf
      (header.previousHash.hash ≠ chainView.tipHash.hash)
      (.consensusError .doesNotExtend (.header header))
    match ← hashPointerObj E (Body.parse E) header.bodyHash storage with
    | none =>
        raise (.consensusError .missingFromStorage (.hash header.bodyHash.hash))
    | some body =>
        acceptBody E chainView.tipIndex body storage chainView.unspentDb
          coinbaseReward timestamp
  accepted.handle fun r => ofExcept (classifyUnexpected r)

/-! ## Applying a block -/

def applyAddition (blockIndex : ℕ) (unspentDb storage : Ref) (coin : Coin) :
    AsyncM PUnit := do
  setUnspentForCoinName unspentDb (coin.name E) ⟨blockIndex, 0⟩
  addPreimage storage (coin.bytes E)

def applyRemoval (blockIndex : ℕ) (unspentDb : Ref) (coinName : Bytes32) :
    AsyncM PUnit := do
  match ← unspentForCoinName unspentDb coinName with
  | none => raise PyException.attributeError
  | some unspent =>
      setUnspentForCoinName unspentDb coinName
        ⟨unspent.confirmedBlockIndex, blockIndex⟩

def applyDeltas (blockIndex : ℕ) (additions : List Coin)
    (removals : List Bytes32) (unspentDb storage : Ref) : AsyncM PUnit := do
  additions.forM (applyAddition E blockIndex unspentDb storage)
  removals.forM (applyRemoval blockIndex unspentDb)

def checkHeaderSignature (headerHash : HeaderHash)
    (headerSignature : EORSignature) (storage : Ref) : AsyncM Unit := do
  match ← hashPointerObj E Header.parse headerHash storage with
  | none =>
      raise (.consensusError .missingFromStorage (.hash headerHash.hash))
  | some header =>
      match ← hashPointerObj E ProofOfSpace.parse header.proofOfSpaceHash
          storage with
      | none =>
          raise (.consensusError .missingFromStorage
            (.hash header.proofOfSpaceHash.hash))
      | some pos =>
          let headerPointer ← ofExcept
            (HashPointer.ofObject E Header.bytes header)
          ofExcept <| Except.raiseIf
            (headerSignature.validate
              [(pos.plotPublicKey, headerPointer.hash)] = false)
            (.consensusError .badHeaderSignature (.signature headerSignature))

def checkTipSignature (self : ChainView) (storage : Ref) : AsyncM Unit :=
  if self.tipHash.hash = self.genesisHash.hash then
    ofExcept <| Except.raiseIf (self.tipSignature ≠ EORSignature.zero)
      PyException.attributeError
  else checkHeaderSignature E self.tipHash self.tipSignature storage

def augmentChainView (self : ChainView) (header : Header)
    (headerSignature : EORSignature) (storage newUnspentDb : Ref)
    (reward timestamp : ℤ) : AsyncM ChainView := do
  let tipIndex := self.tipIndex + 1
  let (additions, removals) ←
    acceptNewBlock E self header storage reward timestamp
  applyDeltas E tipIndex additions removals storage newUnspentDb
  let tipHash ← ofExcept (HashPointer.ofObject E Header.bytes header)
  let chainView : ChainView :=
    ⟨self.genesisHash, tipHash, headerSignature, tipIndex, newUnspentDb⟩
  checkTipSignature E chainView storage
  pure chainView

/-! ## Requests -/

/-- The clock is read for the timestamp of the header, and again when the
header and the body have been stored. -/
def newChainView (chainView : ChainView) (spendBundles : List SpendBundle)
    (coinbasePuzzleHash feesPuzzleHash : Bytes32) (storage unspentDb : Ref) :
    AsyncM ChainView := do
  let self ← get
  let (header, body, headerSignature) ← ofExcept <|
    farmForChainView E chainView spendBundles coinbasePuzzleHash
      feesPuzzleHash self.now
  let headerBlob ← ofExcept header.bytes
  addPreimage storage headerBlob
  let bodyBlob ← ofExcept (body.bytes E)
  addPreimage storage bodyBlob
  let self ← get
  augmentChainView E chainView header headerSignature storage unspentDb
    blockReward self.now

/-- `async with self._next_block_lock` -/
def withNextBlockLock {α : Type} (task : ℕ) (c : AsyncM α) : AsyncM α := do
  acquire task
  c.handle fun r => do
    modify fun self => { self with nextBlockLock := none }
    ofExcept r

def doPushTx (task : ℕ) (tx : SpendBundle) : AsyncM Response := do
  let valid ← ofExcept (validateSpendBundleSignature E tx)
  ofExcept (Except.raiseIf (valid = false) PyException.valueError)
  withNextBlockLock task do
    let self ← get
    let _ ← newChainView E self.chainView (self.spendBundles ++ [tx])
      dryRunCoinbasePuzzleHash dryRunFeesPuzzleHash self.storage
      self.unspentDb
    modify fun self => { self with spendBundles := self.spendBundles ++ [tx] }
  pure (.accepted tx)

def doNextBlock (task : ℕ) (coinbasePuzzleHash feesPuzzleHash : Bytes32) :
    AsyncM Response :=
  withNextBlockLock task do
    let self ← get
    let chainView ← newChainView E self.chainView self.spendBundles
      coinbasePuzzleHash feesPuzzleHash self.storage self.unspentDb
    modify fun self => { self with spendBundles := [] }
    modify fun self => { self with chainView := chainView }
    match ← hashPointerObj E Header.parse chainView.tipHash self.storage with
    | none => raise PyException.attributeError
    | some header =>
        let body ← hashPointerObj E (Body.parse E) header.bodyHash self.storage
        pure (.block header body)

def doSkipMilliseconds (ms : Bytes) : AsyncM Response := do
  modify fun self => { self with now := self.now + BigEndian.toNat ms }
  let self ← get
  pure (.now self.now)

/-- The coroutine of a request. -/
def handle (task : ℕ) : Request → AsyncM Response
  | .pushTx tx => doPushTx E task tx
  | .nextBlock coinbasePuzzleHash feesPuzzleHash =>
      doNextBlock E task coinbasePuzzleHash feesPuzzleHash
  | .skipMilliseconds ms => doSkipMilliseconds ms

end Async

/-- A server with the tasks of its requests. -/
abbrev RequestPool := Pool Server Request AsyncOp AsyncOp.Answer Exn Response

end LedgerSim
