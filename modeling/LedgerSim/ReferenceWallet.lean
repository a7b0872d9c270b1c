import LedgerSim.DelegatedPuzzle
import LedgerSim.Keychain

/-!
# An environment for wallets

The evaluator of the puzzles and the signatures with checksums, in one
environment.  The puzzle sources do not see the signatures, and signing does
not see the evaluator, so both keep their laws.
-/

namespace LedgerSim

variable {E : Environment}

/-! ## Another evaluator -/

def Environment.withEvaluator (E : Environment)
    (runProgram : SExp → SExp → Except PyException SExp) : Environment :=
  { E with runProgram := runProgram }

section Signing

variable {secrets : SecretKeys E}
  {runProgram : SExp → SExp → Except PyException SExp}

variable (secrets runProgram) in
def SecretKeys.withEvaluator :
    SecretKeys (E.withEvaluator runProgram) where
  PrivateKey := secrets.PrivateKey
  fromBytes := secrets.fromBytes
  getPublicKey := secrets.getPublicKey
  serializePublicKey := secrets.serializePublicKey
  signPrependPrehashed := secrets.signPrependPrehashed

theorem SignsPairs.of_withEvaluator
    {signature : (E.withEvaluator runProgram).PrependSignature}
    {pairs : List (Bytes32 × (E.withEvaluator runProgram).BlsPublicKey)}
    (h : SignsPairs (secrets.withEvaluator runProgram) signature pairs) :
    SignsPairs secrets signature pairs := by
  induction h with
  | sign privateKey messageHash =>
      exact @SignsPairs.sign E secrets privateKey messageHash
  | aggregate hparts haggregate ih =>
      exact @SignsPairs.aggregate E secrets _ _ ih haggregate

theorem SigningLaws.withEvaluator (laws : SigningLaws secrets)
    (runProgram : SExp → SExp → Except PyException SExp) :
    SigningLaws (secrets.withEvaluator runProgram) where
  publicKey_read := laws.publicKey_read
  signature_read := laws.signature_read
  aggregate_ok parts hne hparts :=
    laws.aggregate_ok parts hne fun part hpart =>
      (hparts part hpart).of_withEvaluator
  verify signature pairs h := laws.verify signature pairs h.of_withEvaluator
  serialize_ne signature pairs h :=
    laws.serialize_ne signature pairs h.of_withEvaluator

end Signing

/-! ## The puzzle sources -/

section Sources

variable {E' : Environment}

namespace Clvm

theorem Operator.apply_congr (hsha256 : E'.sha256 = E.sha256)
    (operator : Operator) (values : List SExp) :
    operator.apply E' values = operator.apply E values := by
  unfold Operator.apply
  simp only [hsha256]

theorem Module.eval_congr (hrun : E'.run = E.run)
    (hsha256 : E'.sha256 = E.sha256) (m : Module) (fuel : ℕ) :
    m.eval E' fuel = m.eval E fuel := by
  induction fuel with
  | zero => rfl
  | succ fuel ih =>
      funext parameters args form
      cases form <;>
        simp only [Module.eval, ih, hrun, Operator.apply_congr hsha256]

theorem Module.returns_congr (hrun : E'.run = E.run)
    (hsha256 : E'.sha256 = E.sha256) (m : Module) (args value : SExp) :
    m.Returns E' args value ↔ m.Returns E args value := by
  unfold Module.Returns Module.Evaluates
  simp only [Module.eval_congr hrun hsha256]

end Clvm

/-- The sources use the hash function, the quote operator and the evaluator
only. -/
theorem PuzzleTools.Lawful.congr {tools : PuzzleTools} (h : tools.Lawful E)
    (hrun : E'.runProgram = E.runProgram) (hsha256 : E'.sha256 = E.sha256)
    (hquote : E'.quoteKeyword = E.quoteKeyword) : tools.Lawful E' := by
  have hrun' : E'.run = E.run := by
    unfold Environment.run
    rw [hrun]
  have hconditions : p2Conditions E' = p2Conditions E := by
    unfold p2Conditions
    rw [hquote]
  have hreturns := @Clvm.Module.returns_congr E E' hrun' hsha256
  constructor
  · intro args value
    rw [hrun', hconditions, hreturns]
    exact h.p2Conditions_run args value
  · intro args value
    rw [hrun', hreturns]
    exact h.p2DelegatedConditions_run args value
  · intro args value
    rw [hrun', hreturns]
    exact h.p2DelegatedPuzzle_run args value
  · intro program values args
    rw [hrun']
    exact h.curry_run program values args

end Sources

namespace Reference

def walletEnvironment : Environment :=
  checksumEnvironment.withEvaluator runPuzzle

theorem walletEnvironment_lawful : walletEnvironment.Lawful where
  intFromBytes_eq := environment_lawful.intFromBytes_eq
  intFromBytes_intToBytes := environment_lawful.intFromBytes_intToBytes
  run_quote := puzzleEnvironment_lawful.run_quote
  asPython_two := environment_lawful.asPython_two
  hash256_eq := environment_lawful.hash256_eq
  sexpToStream_quote_nil := environment_lawful.sexpToStream_quote_nil

theorem walletEnvironment_readsLists : ReadsLists walletEnvironment where
  asPython_atom := puzzleEnvironment_readsLists.asPython_atom
  asPython_list := puzzleEnvironment_readsLists.asPython_list

theorem puzzleTools_lawful_wallet : puzzleTools.Lawful walletEnvironment :=
  puzzleTools_lawful.congr rfl rfl rfl

def walletSecrets : SecretKeys walletEnvironment :=
  checksumSecrets.withEvaluator runPuzzle

theorem walletSecrets_laws : SigningLaws walletSecrets :=
  checksumSecrets_laws.withEvaluator runPuzzle

def walletKeychain : Keychain walletSecrets :=
  ((Keychain.addSecretExponents [1]).run Keychain.empty).2

def walletPuzzle : Program :=
  P2DelegatedPuzzle.puzzleForPk puzzleTools exponentKey

/-- A reward that pays to the wallet's key. -/
def walletCoin (blockIndex : ℕ) : Coin :=
  ⟨indexHash blockIndex, walletEnvironment.treeHash walletPuzzle, blockReward⟩

def walletNextBlock : Request :=
  .nextBlock (walletCoin 1).puzzleHash (SizedBytes.fill 32 4)

/-- The wallet passes 5 on to a puzzle without conditions. -/
def walletSolution : Except Exn Program :=
  P2DelegatedPuzzle.solutionForConditions walletEnvironment puzzleTools
    walletPuzzle (.ofList [createCoin (puzzleHash []) [5]])

def walletBundle (blockIndex : ℕ) : SpendBundle :=
  (do
    let solution ← walletSolution
    walletKeychain.buildSpendBundle (walletCoin blockIndex)
      solution).toOption.getD ⟨[], ⟨zero96⟩⟩

def walletRequests : List Request :=
  [walletNextBlock, .pushTx (walletBundle 1),
    .nextBlock (SizedBytes.fill 32 3) (SizedBytes.fill 32 4)]

end Reference

end LedgerSim
