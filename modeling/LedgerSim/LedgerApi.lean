import LedgerSim.Farming

/-!
# The ledger server

The state of a `LedgerAPI` and its requests.  A request runs to completion
under a lock and may raise after it has written to the databases; `step` keeps
whatever it wrote.
-/

namespace LedgerSim

variable (E : Environment)

/-- `REWARD` -/
def blockReward : ℤ := 10 ^ 9

/-- The dry run's `ph1` and `ph2`. -/
def dryRunCoinbasePuzzleHash : Bytes32 := SizedBytes.fill 32 0

def dryRunFeesPuzzleHash : Bytes32 := SizedBytes.fill 32 255

def ledgerGenesisHash : HeaderHash := ⟨SizedBytes.fill 32 0, none⟩

/-- The quotient rounded to the nearest integer, ties to the even one. -/
def divRoundEven (n d : ℕ) : ℕ :=
  let q := n / d
  let r := n % d
  if d < 2 * r ∨ (2 * r = d ∧ q % 2 = 1) then q + 1 else q

/-- `uint64(now / 1000)`: the quotient is a float with 53 bits of precision,
rounded half to even, and its integer part is taken; a quotient that exceeds
every float raises. -/
def clockSeconds (now : ℕ) : Except Exn ℕ :=
  if now < 1000 then .ok 0
  else
    let exponent := (now / 1000).log2
    let seconds :=
      if 52 ≤ exponent then
        divRoundEven now (1000 * 2 ^ (exponent - 52)) * 2 ^ (exponent - 52)
      else
        divRoundEven (now * 2 ^ (52 - exponent)) 1000 / 2 ^ (52 - exponent)
    if seconds < 2 ^ 1024 then .ok seconds
    else .error PyException.overflowError

/-- `storage` and `unspent_db` of the server are one `RAM_DB`. -/
structure LedgerAPI where
  chainView : ChainView
  storage : Ref
  unspentDb : Ref
  spendBundles : List SpendBundle
  now : ℕ
  heap : Heap

abbrev LedgerM := Exec Exn LedgerAPI

def LedgerAPI.initial : LedgerAPI :=
  { chainView := ChainView.forGenesisHash ledgerGenesisHash 0
    storage := 0
    unspentDb := 0
    spendBundles := []
    now := 0
    heap := fun _ => Database.ramDB }

/-- The block that `new_chain_view` farms, with its signature. -/
def farmForChainView (chainView : ChainView) (spendBundles : List SpendBundle)
    (coinbasePuzzleHash feesPuzzleHash : Bytes32) (now : ℕ) :
    Except Exn (Header × Body × EORSignature) := do
  let blockNumber := chainView.tipIndex + 1
  let timestamp ← clockSeconds now
  let pos : ProofOfSpace := ⟨E.poolPublicKey, plotPublicKey E⟩
  let (coinbaseCoin, coinbaseSignature) ← createCoinbaseCoinAndSignature E
    blockNumber coinbasePuzzleHash blockReward
  let spendBundle ← SpendBundle.aggregate E spendBundles
  let (header, body) ← farmNewBlock E chainView.tipHash
    chainView.tipSignature blockNumber pos spendBundle coinbaseCoin
    coinbaseSignature feesPuzzleHash timestamp
  let headerSignature ← signHeader E header
  .ok (header, body, headerSignature)

def newChainView (chainView : ChainView) (spendBundles : List SpendBundle)
    (coinbasePuzzleHash feesPuzzleHash : Bytes32) (storage unspentDb : Ref)
    (now : ℕ) : DbM ChainView := do
  let (header, body, headerSignature) ← Exec.ofExcept <|
    farmForChainView E chainView spendBundles coinbasePuzzleHash
      feesPuzzleHash now
  let headerBlob ← Exec.ofExcept header.bytes
  addPreimage E storage headerBlob
  let bodyBlob ← Exec.ofExcept (body.bytes E)
  addPreimage E storage bodyBlob
  chainView.augmentChainView E header headerSignature storage unspentDb
    blockReward now

/-! ## Requests -/

inductive Request where
  | pushTx (tx : SpendBundle)
  | nextBlock (coinbasePuzzleHash feesPuzzleHash : Bytes32)
  | skipMilliseconds (ms : Bytes)

inductive Response where
  | accepted (tx : SpendBundle)
  | block (header : Header) (body : Option Body)
  | now (now : ℕ)

def Response.newBlock : Except Exn Response → List (Header × Body)
  | .ok (.block header (some body)) => [(header, body)]
  | _ => []

namespace LedgerAPI

def onHeap {α : Type} (x : DbM α) : LedgerM α :=
  Exec.zoom LedgerAPI.heap (fun heap self => { self with heap := heap }) x

def doPushTx (tx : SpendBundle) : LedgerM Response := do
  let valid ← Exec.ofExcept (validateSpendBundleSignature E tx)
  Exec.ofExcept (Except.raiseIf (valid = false) PyException.valueError)
  let self ← Exec.get
  let _ ← onHeap <| newChainView E self.chainView (self.spendBundles ++ [tx])
    dryRunCoinbasePuzzleHash dryRunFeesPuzzleHash self.storage self.unspentDb
    self.now
  Exec.modify fun self =>
    { self with spendBundles := self.spendBundles ++ [tx] }
  pure (.accepted tx)

def doNextBlock (coinbasePuzzleHash feesPuzzleHash : Bytes32) :
    LedgerM Response := do
  let self ← Exec.get
  let chainView ← onHeap <| newChainView E self.chainView self.spendBundles
    coinbasePuzzleHash feesPuzzleHash self.storage self.unspentDb self.now
  Exec.modify fun self =>
    { self with spendBundles := [], chainView := chainView }
  let self ← Exec.get
  let hashPreimage := (self.heap self.storage).hashPreimage
  match ← Exec.ofExcept
      (chainView.tipHash.obj E Header.parse hashPreimage) with
  | none => Exec.throw PyException.attributeError
  | some header =>
      let body ← Exec.ofExcept
        (header.bodyHash.obj E (Body.parse E) hashPreimage)
      pure (.block header body)

/-- The blob is read as an unsigned integer of any length. -/
def doSkipMilliseconds (ms : Bytes) : LedgerM Response := do
  Exec.modify fun self => { self with now := self.now + BigEndian.toNat ms }
  let self ← Exec.get
  pure (.now self.now)

def handle : Request → LedgerM Response
  | .pushTx tx => doPushTx E tx
  | .nextBlock coinbasePuzzleHash feesPuzzleHash =>
      doNextBlock E coinbasePuzzleHash feesPuzzleHash
  | .skipMilliseconds ms => doSkipMilliseconds ms

/-- The state after a request, answered or refused. -/
def step (self : LedgerAPI) (request : Request) : LedgerAPI :=
  ((handle E request).run self).2

def run (requests : List Request) : LedgerAPI :=
  requests.foldl (step E) initial

def db (self : LedgerAPI) : Database :=
  self.heap self.storage

/-- The block that a request adds to the chain, if it adds one. -/
def newBlock (self : LedgerAPI) (request : Request) : List (Header × Body) :=
  Response.newBlock ((handle E request).run self).1

def blocksFrom (self : LedgerAPI) : List Request → List (Header × Body)
  | [] => []
  | request :: requests =>
      newBlock E self request ++ blocksFrom (step E self request) requests

/-- The blocks that a run from genesis adds to the chain, the first block
first. -/
def blocks (requests : List Request) : List (Header × Body) :=
  blocksFrom E initial requests

end LedgerAPI

end LedgerSim
