import LedgerSim.ChainView

/-!
# Pool, farming and wallet deltas

The block that the server makes out of a spend bundle.  The farmer evaluates
the solutions with the coins that the bundle claims; nothing here looks at the
databases.
-/

namespace LedgerSim

variable (E : Environment)

/-- The value of `PLOT_PRIVATE_KEY`, and of its public key. -/
def plotPublicKey : Bytes32 :=
  E.hash256 [4]

/-! ## Spend bundles -/

namespace SpendBundle

def aggregate (spendBundles : List SpendBundle) : Except Exn SpendBundle := do
  let aggregatedSignature ← BLSSignature.aggregate E
    (spendBundles.map SpendBundle.aggregatedSignature)
  .ok ⟨spendBundles.flatMap SpendBundle.coinSolutions, aggregatedSignature⟩

def additionsForSolution (coinName : Bytes32) (solution : Program) :
    Except Exn (List Coin) := do
  let conditionsDict ← conditionsDictForSolution E solution
  createdOutputsForConditionsDict E conditionsDict coinName

def additions (self : SpendBundle) : Except Exn (List Coin) := do
  let items ← self.coinSolutions.mapM fun coinSolution =>
    additionsForSolution E (coinSolution.coin.name E) coinSolution.solution
  .ok items.flatten

def removals (self : SpendBundle) : List Coin :=
  self.coinSolutions.map CoinSolution.coin

def fees (self : SpendBundle) : Except Exn ℤ := do
  let additions ← self.additions E
  .ok ((self.removals.map Coin.amount).sum - (additions.map Coin.amount).sum)

end SpendBundle

/-! ## Reward coins -/

def createCoinbaseCoin (blockIndex : ℕ) (puzzleHash : Bytes32) (reward : ℤ) :
    Except Exn Coin := do
  let blockIndexAsHash ← toBytes32 blockIndex
  .ok ⟨blockIndexAsHash, puzzleHash, reward⟩

/-- `sign_coinbase_coin` with the key of `get_pool_public_key()`, which
`POOL_LOOKUP` knows. -/
def signCoinbaseCoin (coin : Coin) : BLSSignature :=
  ⟨E.serializeSignature (E.poolSign (coin.name E))⟩

def createCoinbaseCoinAndSignature (blockIndex : ℕ) (puzzleHash : Bytes32)
    (reward : ℤ) : Except Exn (Coin × BLSSignature) := do
  let coin ← createCoinbaseCoin blockIndex puzzleHash reward
  .ok (coin, signCoinbaseCoin E coin)

/-! ## Farming -/

/-- An entry of the quoted list: the claimed coin's name and the solution. -/
def solutionEntry (coinSolution : CoinSolution) : SExp :=
  .ofList [.atom (coinSolution.coin.name E).1, coinSolution.solution]

/-- `best_solution_program`: quote the solutions. -/
def bestSolutionProgram (bundle : SpendBundle) : Program :=
  .ofList [E.quoteKeyword, .ofList (bundle.coinSolutions.map (solutionEntry E))]

/-- `sign_header` with the plot key. -/
def signHeader (header : Header) : Except Exn EORSignature := do
  let blob ← header.bytes
  .ok (EORSignature.sign (plotPublicKey E) (E.hash256 blob))

def farmNewBlock (previousHeader : HeaderHash)
    (previousSignature : EORSignature) (blockIndex : ℕ)
    (proofOfSpace : ProofOfSpace) (spendBundle : SpendBundle)
    (coinbaseCoin : Coin) (coinbaseSignature : BLSSignature)
    (feesPuzzleHash : Bytes32) (timestamp : ℤ) :
    Except Exn (Header × Body) := do
  let valid ← validateSpendBundleSignature E spendBundle
  Except.raiseIf (valid = false) PyException.assertionError
  let solutionProgram := bestSolutionProgram E spendBundle
  let extensionData := E.stdHash []
  let blockIndexHash ← toBytes32 blockIndex
  let fees ← spendBundle.fees E
  let feesCoin : Coin := ⟨blockIndexHash, feesPuzzleHash, fees⟩
  let body : Body :=
    ⟨coinbaseSignature, coinbaseCoin, feesCoin, solutionProgram, 0,
      spendBundle.aggregatedSignature⟩
  let bodyHash ← HashPointer.ofObject E (Body.bytes E) body
  .ok (⟨previousHeader, previousSignature, timestamp,
    ⟨E.stdHash proofOfSpace.bytes, some proofOfSpace⟩, bodyHash,
    extensionData⟩, body)

end LedgerSim
