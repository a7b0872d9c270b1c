import LedgerSim.LedgerApi
import LedgerSim.Sha256

/-!
# A reference environment

Concrete functions for the packages under the ledger: SHA-256, the integer
casts, the s-expression serialization, and an evaluator that knows the quote
operator, which is all that the farmer's own programs use.  Keys and BLS
signatures are their bytes, and no signature verifies.
-/

namespace LedgerSim

namespace Reference

def sha256 (b : Bytes) : Bytes32 :=
  ⟨Sha256.digest b, Sha256.length_digest b⟩

/-- `assemble("#q")` -/
def quoteKeyword : SExp := .atom [1]

/-- A pair of the quote operator and a list evaluates to the list's first
item. -/
def runProgram (program _args : SExp) : Except PyException SExp :=
  match program with
  | .pair (.atom [1]) (.pair x (.atom [])) => .ok x
  | _ => .error .evalError

def asPython : SExp → PyVal
  | .atom blob => .bytes blob
  | .pair left right =>
      match asPython right with
      | .bytes [] => .list [asPython left]
      | .list items => .list (asPython left :: items)
      | other => .tuple (asPython left) other

def atomPrefix (size : ℕ) : Except PyException Bytes :=
  if size < 0x40 then .ok [UInt8.ofNat (0x80 + size)]
  else if size < 0x2000 then .ok (BigEndian.ofNat 2 (0xc000 + size))
  else if size < 0x100000 then .ok (BigEndian.ofNat 3 (0xe00000 + size))
  else .error .valueError

def sexpToStream : SExp → Except PyException Bytes
  | .atom blob =>
      match blob with
      | [b] =>
          if 0 < b ∧ b < 0x80 then .ok [b] else .ok [0x81, b]
      | blob => do
          let size ← atomPrefix blob.length
          .ok (size ++ blob)
  | .pair left right => do
      let first ← sexpToStream left
      let rest ← sexpToStream right
      .ok (0xff :: first ++ rest)

/-- An atom whose size takes the low bits of `head` and `more` further
bytes. -/
def atomFromStream (head more : ℕ) (f : Bytes) :
    Except PyException (SExp × Bytes) :=
  let size := head * 256 ^ more + BigEndian.toNat (f.take more)
  let rest := f.drop more
  if size ≤ rest.length then .ok (.atom (rest.take size), rest.drop size)
  else .error .valueError

def sexpFromStreamFuel : ℕ → Bytes → Except PyException (SExp × Bytes)
  | _, [] => .error .valueError
  | 0, _ => .error .valueError
  | fuel + 1, b :: f =>
      if b = 0xff then do
        let (left, f) ← sexpFromStreamFuel fuel f
        let (right, f) ← sexpFromStreamFuel fuel f
        .ok (.pair left right, f)
      else if b < 0x80 then .ok (.atom [b], f)
      else if b < 0xc0 then atomFromStream (b.toNat - 0x80) 0 f
      else if b < 0xe0 then atomFromStream (b.toNat - 0xc0) 1 f
      else if b < 0xf0 then atomFromStream (b.toNat - 0xe0) 2 f
      else .error .valueError

/-- Every pair takes a byte of the stream. -/
def sexpFromStream (f : Bytes) : Except PyException (SExp × Bytes) :=
  sexpFromStreamFuel (f.length + 1) f

def environment : Environment where
  sha256 := sha256
  intFromBytes := BigEndian.toInt
  intToBytes := BigEndian.ofInt
  evalErrorName := .module
  recursionLimit := none
  runProgram := runProgram
  asPython := asPython
  sexpToStream := sexpToStream
  sexpFromStream := sexpFromStream
  quoteKeyword := quoteKeyword
  hash256 := sha256
  BlsPublicKey := Bytes48
  PrependSignature := Bytes96
  publicKeyFromBytes := .ok
  signatureFromBytes := .ok
  serializeSignature := id
  aggregateSignatures
    | [s] => .ok s
    | _ => .error .valueError
  verify _ _ _ := .ok false
  poolPublicKey := SizedBytes.fill 48 7
  poolSign _ := SizedBytes.fill 96 9

theorem environment_lawful : environment.Lawful where
  intFromBytes_eq _ := rfl
  intFromBytes_intToBytes := BigEndian.toInt_ofInt
  run_quote _ _ := rfl
  asPython_two _ _ := rfl
  hash256_eq _ := rfl
  sexpToStream_quote_nil := ⟨_, rfl⟩

/-! ## Puzzles and blocks

Coins with quoted conditions as their puzzle, and blocks without BLS
signatures. -/

def puzzle (conditions : List SExp) : Program :=
  .ofList [quoteKeyword, .ofList conditions]

def puzzleHash (conditions : List SExp) : Bytes32 :=
  environment.treeHash (puzzle conditions)

def createCoin (puzzleHash : Bytes32) (amount : Bytes) : SExp :=
  .ofList [.atom [51], .atom puzzleHash.1, .atom amount]

def spend (coinName : Bytes32) (conditions : List SExp) : SExp :=
  .ofList [.atom coinName.1, .ofList [puzzle conditions, .null]]

def proofOfSpace : ProofOfSpace :=
  ⟨SizedBytes.fill 48 7, SizedBytes.fill 32 8⟩

def pointer {α : Type} (bytes : α → Except Exn Bytes) (v : α) :
    HashPointer α :=
  match bytes v with
  | .ok blob => ⟨sha256 blob, some v⟩
  | .error _ => ⟨zero32, some v⟩

theorem pointer_sound {α : Type} {bytes : α → Except Exn Bytes} {v : α}
    {blob : Bytes} (hblob : bytes v = .ok blob) :
    (pointer bytes v).Sound environment bytes := by
  apply HashPointer.ofObject_sound environment (v := v)
  simp only [HashPointer.ofObject, pointer, hblob]
  rfl

def body (coinbaseCoin feesCoin : Coin) (spends : List SExp) : Body :=
  ⟨⟨zero96⟩, coinbaseCoin, feesCoin,
    .ofList [quoteKeyword, .ofList spends], 0, ⟨zero96⟩⟩

def header (previousHash : HeaderHash) (body : Body) : Header :=
  ⟨previousHash, EORSignature.zero, 0,
    pointer (fun pos => .ok pos.bytes) proofOfSpace,
    pointer (Body.bytes environment) body, sha256 []⟩

def headerSignature (header : Header) : EORSignature :=
  EORSignature.sign proofOfSpace.plotPublicKey
    (pointer Header.bytes header).hash

def firstBlock : Header :=
  header ledgerGenesisHash <| body
    ⟨indexHash 1, SizedBytes.fill 32 3, blockReward⟩
    ⟨indexHash 1, SizedBytes.fill 32 4, 0⟩ []

def coinbaseCoin (conditions : List SExp) : Coin :=
  ⟨indexHash 1, puzzleHash conditions, blockReward⟩

def spendingBody (conditions : List SExp) : Body :=
  body (coinbaseCoin conditions) ⟨indexHash 1, SizedBytes.fill 32 4, 0⟩
    [spend ((coinbaseCoin conditions).name environment) conditions]

def spendBundle (coin : Coin) (conditions : List SExp) : SpendBundle :=
  ⟨[⟨coin, .ofList [puzzle conditions, .null]⟩], ⟨zero96⟩⟩

def genesisView (unspentDb : Ref) : ChainView :=
  ChainView.forGenesisHash ledgerGenesisHash unspentDb

def emptyHeap : Heap := fun _ => Database.ramDB

end Reference

end LedgerSim
