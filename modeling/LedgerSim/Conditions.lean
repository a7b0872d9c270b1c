import LedgerSim.Signature
import LedgerSim.Dict
import Mathlib.Data.List.Sort
import Mathlib.Data.List.Dedup

/-!
# Conditions

A puzzle's output is a list of conditions.  They are parsed, grouped by opcode
and then read by three consumers: the created coins, the signature pairs and
the checkers of `check_conditions`.
-/

namespace LedgerSim

variable (E : Environment)

/-! ## Opcodes and parsing -/

/-- `ConditionOpcode`.  Its members are bytes and compare and hash as such, so
conditions are keyed by the bytes of their opcode, known or not. -/
inductive ConditionOpcode where
  | aggSig
  | createCoin
  | assertCoinConsumed
  | assertMyCoinId
  | assertTimeExceeds
  | assertBlockIndexExceeds
  | assertBlockAgeExceeds
deriving DecidableEq

def ConditionOpcode.value : ConditionOpcode → Bytes
  | .aggSig => [50]
  | .createCoin => [51]
  | .assertCoinConsumed => [52]
  | .assertMyCoinId => [53]
  | .assertTimeExceeds => [54]
  | .assertBlockIndexExceeds => [55]
  | .assertBlockAgeExceeds => [56]

def parseSexpToCondition (sexp : SExp) : Except Exn Condition :=
  if sexp.listp then
    match E.asPython sexp with
    | .list (.bytes opcode :: arguments) => .ok ⟨opcode, arguments⟩
    | .list [] => .error PyException.indexError
    | .bytes [] => .error PyException.indexError
    -- `[opcode] + items[1:]` cannot append a tuple to a list
    | .tuple (.bytes _) _ => .error PyException.typeError
    | items => .error (.consensusError .invalidCondition (.items items))
  else .error PyException.assertionError

def parseSexpToConditions (sexp : SExp) : Except Exn (List Condition) :=
  sexp.forIter (parseSexpToCondition E)

/-- The order in which Python sorts bytes. -/
def bytesLe : Bytes → Bytes → Bool
  | [], _ => true
  | _ :: _, [] => false
  | a :: as, b :: bs => a < b || (a == b && bytesLe as bs)

/-- A dictionary from opcodes to the conditions with that opcode, in the order
in which it was filled. -/
abbrev ConditionsDict := List (Bytes × List Condition)

def ConditionsDict.get (d : ConditionsDict) (opcode : ConditionOpcode) :
    List Condition :=
  (d.lookup opcode.value).getD []

def conditionsByOpcode (conditions : List Condition) : ConditionsDict :=
  let opcodes := (conditions.map Condition.opcode).dedup.insertionSort
    fun a b => bytesLe a b = true
  opcodes.map fun opcode =>
    (opcode, conditions.filter fun condition => condition.opcode = opcode)

/-! ## Evaluating a solution -/

def conditionsForSolution (solutionProgram : Program) :
    Except Exn (List Condition) := do
  let puzzleSexp ← solutionProgram.first
  let solutionRest ← solutionProgram.rest
  let solutionSexp ← solutionRest.first
  let r ← E.run puzzleSexp solutionSexp
  parseSexpToConditions E r

def conditionsDictForSolution (solution : Program) :
    Except Exn ConditionsDict := do
  let conditions ← conditionsForSolution E solution
  .ok (conditionsByOpcode conditions)

/-- Building a sized-bytes value from what a condition holds; `bytes` of a
list of byte strings is a type error. -/
def PyVal.toSizedBytes (size : ℕ) : PyVal → Except Exn (SizedBytes size)
  | .bytes blob => SizedBytes.new size blob
  | _ => .error PyException.typeError

/-- `int_from_bytes` of what a condition holds. -/
def PyVal.toInt : PyVal → Except Exn ℤ
  | .bytes blob => .ok (E.intFromBytes blob)
  | _ => .error PyException.typeError

def createdOutput (inputCoinName : Bytes32) (condition : Condition) :
    Except Exn Coin :=
  match condition.arguments with
  | [puzzleHash, amountBin] => do
      let amount ← amountBin.toInt E
      let puzzleHash ← puzzleHash.toSizedBytes 32
      .ok ⟨inputCoinName, puzzleHash, amount⟩
  | _ => .error PyException.assertionError

def createdOutputsForConditionsDict (conditionsDict : ConditionsDict)
    (inputCoinName : Bytes32) : Except Exn (List Coin) :=
  (conditionsDict.get .createCoin).mapM (createdOutput E inputCoinName)

def hashKeyPair (condition : Condition) : Except Exn AggsigPair :=
  match condition.arguments with
  | [publicKey, messageHash] => do
      let publicKey ← publicKey.toSizedBytes 48
      let messageHash ← messageHash.toSizedBytes 32
      .ok ⟨publicKey, messageHash⟩
  | _ => .error PyException.assertionError

def hashKeyPairsForConditionsDict (conditionsDict : ConditionsDict) :
    Except Exn (List AggsigPair) :=
  (conditionsDict.get .aggSig).mapM hashKeyPair

def hashKeyPairsForSolution (solution : Program) :
    Except Exn (List AggsigPair) := do
  let conditionsDict ← conditionsDictForSolution E solution
  hashKeyPairsForConditionsDict conditionsDict

def validateSpendBundleSignature (spendBundle : SpendBundle) :
    Except Exn Bool := do
  let pairs ← spendBundle.coinSolutions.mapM fun coinSolution =>
    hashKeyPairsForSolution E coinSolution.solution
  spendBundle.aggregatedSignature.validate E pairs.flatten

/-! ## Checkers -/

structure ConditionContext where
  blockIndex : ℕ
  removals : List Bytes32
  coinToUnspent : Dict Bytes32 (Option Unspent)
  creationTime : ℤ

/-- Whether Python can look the value up in a set. -/
def PyVal.hashable : PyVal → Bool
  | .bytes _ => true
  | .list _ => false
  | .tuple left right => left.hashable && right.hashable

def assertCoinConsumed (condition : Condition) (coin : Coin)
    (context : ConditionContext) : Except Exn Unit :=
  condition.arguments.forM fun coinName =>
    match coinName with
    | .bytes blob =>
        .raiseIf (blob ∉ context.removals.map Subtype.val)
          (.consensusError .assertCoinConsumedFailed
            (.coinAndName coin coinName))
    | other =>
        if other.hashable then
          .error (.consensusError .assertCoinConsumedFailed
            (.coinAndName coin coinName))
        else .error PyException.typeError

def Condition.argument (condition : Condition) : Except Exn PyVal :=
  match condition.arguments with
  | [] => .error PyException.indexError
  | argument :: _ => .ok argument

def assertMyCoinId (condition : Condition) (coin : Coin)
    (_context : ConditionContext) : Except Exn Unit := do
  let failed := Exn.consensusError .assertMyCoinIdFailed
    (.coinCondition coin condition)
  match ← condition.argument with
  | .bytes blob => Except.raiseIf ((coin.name E).1 ≠ blob) failed
  | _ => .error failed

/-- The time-lock checkers compare `current` with a bound read from the
condition; `offset` is added to that bound. -/
def assertExceeds (failure : Err) (current offset : ℤ) (condition : Condition)
    (coin : Coin) : Except Exn Unit := do
  let argument ← condition.argument
  let expected ← argument.toInt E
  Except.raiseIf (current ≤ expected + offset)
    (.consensusError failure (.coinCondition coin condition))

def assertBlockIndexExceeds (condition : Condition) (coin : Coin)
    (context : ConditionContext) : Except Exn Unit :=
  assertExceeds E .assertBlockIndexExceedsFailed context.blockIndex 0
    condition coin

/-- The age is counted from the coin's record, which must exist. -/
def assertBlockAgeExceeds (condition : Condition) (coin : Coin)
    (context : ConditionContext) : Except Exn Unit := do
  match context.coinToUnspent.get (coin.name E) with
  | none => .error PyException.keyError
  | some none => do
      let argument ← condition.argument
      let _ ← argument.toInt E
      .error PyException.attributeError
  | some (some unspent) =>
      assertExceeds E .assertBlockAgeExceedsFailed context.blockIndex
        unspent.confirmedBlockIndex condition coin

def assertTimeExceeds (condition : Condition) (coin : Coin)
    (context : ConditionContext) : Except Exn Unit :=
  assertExceeds E .assertTimeExceedsFailed context.creationTime 0
    condition coin

def conditionCheckerLookup (conditionId : Bytes) :
    Option (Condition → Coin → ConditionContext → Except Exn Unit) :=
  if conditionId = ConditionOpcode.assertCoinConsumed.value then
    some assertCoinConsumed
  else if conditionId = ConditionOpcode.assertMyCoinId.value then
    some (assertMyCoinId E)
  else if conditionId = ConditionOpcode.assertBlockIndexExceeds.value then
    some (assertBlockIndexExceeds E)
  else if conditionId = ConditionOpcode.assertBlockAgeExceeds.value then
    some (assertBlockAgeExceeds E)
  else if conditionId = ConditionOpcode.assertTimeExceeds.value then
    some (assertTimeExceeds E)
  else none

def checkConditionsDict (coin : Coin) (conditionsDict : ConditionsDict)
    (context : ConditionContext) : Except Exn Unit :=
  conditionsDict.forM fun (conditionId, conditions) =>
    match conditionCheckerLookup E conditionId with
    | none => .ok ()
    | some f => conditions.forM fun condition => f condition coin context

end LedgerSim
