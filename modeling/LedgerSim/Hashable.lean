import LedgerSim.BigEndian
import Mathlib.Data.List.Basic

/-!
# The ledger's data

Coins, blocks and spends as the `hashable` package declares them, and the
errors that the validation code raises about them.  `uint64` is a subclass of
`int` whose constructor checks nothing, so an amount is an arbitrary integer;
only streaming it requires it to fit.
-/

namespace LedgerSim

/-- `make_sized_bytes(size)`: byte strings of one length. -/
abbrev SizedBytes (size : ℕ) := {b : Bytes // b.length = size}

abbrev Bytes32 := SizedBytes 32
abbrev Bytes48 := SizedBytes 48
abbrev Bytes96 := SizedBytes 96

def SizedBytes.fill (size : ℕ) (byte : UInt8) : SizedBytes size :=
  ⟨List.replicate size byte, by simp⟩

/-- The tree under a `clvm.SExp`. -/
inductive SExp where
  | atom (blob : Bytes)
  | pair (first rest : SExp)
deriving DecidableEq

namespace SExp

def null : SExp := .atom []

/-- A Python list as `Program.to` lays it out. -/
def ofList : List SExp → SExp
  | [] => null
  | x :: xs => .pair x (ofList xs)

def listp : SExp → Bool
  | .atom _ => false
  | .pair _ _ => true

def depth : SExp → ℕ
  | .atom _ => 0
  | .pair first rest => max first.depth rest.depth + 1

end SExp

/-- A `Program` only adds methods to the s-expression it wraps. -/
abbrev Program := SExp

/-- What `SExp.as_python` can return: an atom's bytes, a list, or a pair that
does not end in a list. -/
inductive PyVal where
  | bytes (blob : Bytes)
  | list (items : List PyVal)
  | tuple (left right : PyVal)

/-! ## Coins and spends -/

structure Coin where
  parentCoinInfo : Bytes32
  puzzleHash : Bytes32
  amount : ℤ
deriving DecidableEq

structure BLSSignature where
  sig : Bytes96
deriving DecidableEq

structure AggsigPair where
  publicKey : Bytes48
  messageHash : Bytes32
deriving DecidableEq

structure CoinSolution where
  coin : Coin
  solution : Program
deriving DecidableEq

structure SpendBundle where
  coinSolutions : List CoinSolution
  aggregatedSignature : BLSSignature
deriving DecidableEq

structure Unspent where
  confirmedBlockIndex : ℕ
  spentBlockIndex : ℕ
deriving DecidableEq

/-! ## Blocks -/

/-- The simple exclusive-or signature that `Signature` stands for. -/
structure EORSignature where
  val : Bytes32
deriving DecidableEq

structure ProofOfSpace where
  poolPublicKey : Bytes48
  plotPublicKey : Bytes32
deriving DecidableEq

structure Body where
  coinbaseSignature : BLSSignature
  coinbaseCoin : Coin
  feesCoin : Coin
  solutionProgram : Program
  programCost : ℤ
  aggregatedSignature : BLSSignature
deriving DecidableEq

/-- A value of a `hash_pointer` type: the digest, and the object it was built
from or has been resolved to (`_obj`). -/
structure HashPointer (α : Type) where
  hash : Bytes32
  cached : Option α

structure Header where
  previousHash : HashPointer Header
  previousSignature : EORSignature
  timestamp : ℤ
  proofOfSpaceHash : HashPointer ProofOfSpace
  bodyHash : HashPointer Body
  extensionDataHash : Bytes32

abbrev HeaderHash := HashPointer Header

/-- A parsed condition `[opcode] + arguments`. -/
structure Condition where
  opcode : Bytes
  arguments : List PyVal

/-! ## Errors -/

/-- The exceptions other than `ConsensusError` that the code or the libraries
under it raise. -/
inductive PyException where
  | valueError
  | typeError
  | assertionError
  | attributeError
  | indexError
  | keyError
  | overflowError
  | structError
  | evalError
  | runtimeError
  | recursionError
  | unboundLocalError
deriving DecidableEq

inductive Err where
  | doesNotExtend
  | badHeaderSignature
  | missingFromStorage
  | unknown
  | badCoinbaseSignature
  | invalidBlockSolution
  | invalidCoinSolution
  | duplicateOutput
  | doubleSpend
  | unknownUnspent
  | badAggregateSignature
  | wrongPuzzleHash
  | badCoinbaseReward
  | invalidCondition
  | assertMyCoinIdFailed
  | assertCoinConsumedFailed
  | assertBlockAgeExceedsFailed
  | assertBlockIndexExceedsFailed
  | coinAmountExceedsMaximum
  | assertTimeExceedsFailed
deriving DecidableEq

/-- Negative codes are temporary, positive codes are permanent. -/
def Err.code : Err → ℤ
  | .doesNotExtend => -1
  | .badHeaderSignature => -2
  | .missingFromStorage => -3
  | .unknown => -9999
  | .badCoinbaseSignature => 1
  | .invalidBlockSolution => 2
  | .invalidCoinSolution => 3
  | .duplicateOutput => 4
  | .doubleSpend => 5
  | .unknownUnspent => 6
  | .badAggregateSignature => 7
  | .wrongPuzzleHash => 8
  | .badCoinbaseReward => 9
  | .invalidCondition => 10
  | .assertMyCoinIdFailed => 11
  | .assertCoinConsumedFailed => 12
  | .assertBlockAgeExceedsFailed => 13
  | .assertBlockIndexExceedsFailed => 14
  | .coinAmountExceedsMaximum => 15
  | .assertTimeExceedsFailed => 16

inductive BadObject where
  | header (header : Header)
  | body (body : Body)
  | sexp (sexp : SExp)
  | hash (hash : Bytes32)
  | coin (coin : Coin)
  | items (items : PyVal)
  | coinCondition (coin : Coin) (condition : Condition)
  | coinAndName (coin : Coin) (name : PyVal)
  | signature (signature : EORSignature)
  | exception (kind : PyException)

inductive Exn where
  | consensusError (code : Err) (badObject : BadObject)
  | raised (kind : PyException)

instance : Coe PyException Exn := ⟨Exn.raised⟩

end LedgerSim
