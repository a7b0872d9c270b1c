import LedgerSim.PuzzleLanguage
import LedgerSim.Conditions
import LedgerSim.ReferenceEnvironment

/-!
# Delegated puzzles

Both delegating puzzles put a condition in front of what is delegated: a
signature of its tree hash under the curried public key.  The hash is computed
by the puzzle itself, with a recursive function that agrees with
`Program.tree_hash` on every tree.
-/

namespace LedgerSim

open Clvm

variable (E : Environment)

/-! ## The sources -/

/-- `defun sha256tree1`, which both sources contain. -/
def sha256tree1 : Function where
  parameters := ["TREE"]
  body :=
    .ifElse (.operate .listp [.name "TREE"])
      (.operate .sha256
        [.atom [2],
          .call "sha256tree1" [.operate .first [.name "TREE"]],
          .call "sha256tree1" [.operate .rest [.name "TREE"]]])
      (.operate .sha256 [.atom [1], .name "TREE"])

/-- `p2_conditions.clvm` -/
def p2Conditions : Module where
  parameters := ["conditions"]
  constants := []
  functions := []
  body := .qq (.pair (.literal E.quoteKeyword)
    (.pair (.unquote (.name "conditions")) (.literal .null)))

/-- `p2_delegated_conditions.clvm` -/
def p2DelegatedConditions : Module where
  parameters := ["public_key", "conditions"]
  constants := [("AGG_SIG", [50])]
  functions := [("sha256tree1", sha256tree1)]
  body :=
    .operate .cons
      [.list [.name "AGG_SIG", .name "public_key",
          .call "sha256tree1" [.name "conditions"]],
        .name "conditions"]

/-- `p2_delegated_puzzle.clvm` -/
def p2DelegatedPuzzle : Module where
  parameters :=
    ["public_key", "delegated_puzzle", "delegated_puzzle_solution"]
  constants := [("AGG_SIG", [50])]
  functions := [("sha256tree1", sha256tree1)]
  body :=
    .operate .cons
      [.list [.name "AGG_SIG", .name "public_key",
          .call "sha256tree1" [.name "delegated_puzzle"]],
        .invoke (.operate .cons
          [.name "delegated_puzzle", .name "delegated_puzzle_solution"])]

/-! ## The Python modules -/

/-- What `clvm_tools` makes of the sources, each `MOD` of the puzzle modules,
and its `curry`. -/
structure PuzzleTools where
  p2ConditionsMod : Program
  p2DelegatedConditionsMod : Program
  p2DelegatedPuzzleMod : Program
  curry : Program → List SExp → Program

/-- A compiled source returns what the source evaluates to, and a curried
program gets its first arguments from the currying. -/
structure PuzzleTools.Lawful (tools : PuzzleTools) : Prop where
  p2Conditions_run : ∀ args value,
    E.run tools.p2ConditionsMod args = .ok value ↔
      (p2Conditions E).Returns E args value
  p2DelegatedConditions_run : ∀ args value,
    E.run tools.p2DelegatedConditionsMod args = .ok value ↔
      p2DelegatedConditions.Returns E args value
  p2DelegatedPuzzle_run : ∀ args value,
    E.run tools.p2DelegatedPuzzleMod args = .ok value ↔
      p2DelegatedPuzzle.Returns E args value
  curry_run : ∀ program values args,
    E.run (tools.curry program values) args =
      E.run program (values.foldr .pair args)

def P2Conditions.puzzleForConditions (tools : PuzzleTools)
    (conditions : SExp) : Except Exn Program :=
  E.run tools.p2ConditionsMod (.ofList [conditions])

def P2DelegatedConditions.puzzleForPk (tools : PuzzleTools)
    (publicKey : Bytes) : Program :=
  tools.curry tools.p2DelegatedConditionsMod [.atom publicKey]

namespace P2DelegatedPuzzle

def puzzleForPk (tools : PuzzleTools) (publicKey : Bytes) : Program :=
  tools.curry tools.p2DelegatedPuzzleMod [.atom publicKey]

def solutionForConditions (tools : PuzzleTools) (puzzleReveal : Program)
    (conditions : SExp) : Except Exn Program := do
  let delegatedPuzzle ← P2Conditions.puzzleForConditions E tools conditions
  .ok (.ofList [puzzleReveal, .ofList [delegatedPuzzle, .ofList []]])

end P2DelegatedPuzzle

/-! ## The hash in the puzzle -/

variable {E}

theorem sha256tree1_evaluates {m : Module}
    (hm : m.functions.lookup "sha256tree1" = some sha256tree1) (tree : SExp) :
    m.Evaluates E sha256tree1.parameters (.ofList [tree]) sha256tree1.body
      (.atom (E.treeHash tree).1) := by
  have hname : ∀ tree : SExp,
      m.Evaluates E sha256tree1.parameters (.ofList [tree]) (.name "TREE")
        tree := by
    intro tree
    rw [Module.evaluates_name_iff]
    rfl
  have hunary : ∀ (operator : Operator) (tree value : SExp),
      operator.apply E [tree] = .ok value →
        m.Evaluates E sha256tree1.parameters (.ofList [tree])
          (.operate operator [.name "TREE"]) value := by
    intro operator tree value happly
    rw [Module.evaluates_operate_iff]
    exact ⟨[tree], .cons (hname tree) .nil, happly⟩
  unfold sha256tree1
  rw [Module.evaluates_ifElse_iff]
  induction tree with
  | atom blob =>
      refine ⟨.null, hunary .listp _ _ rfl, ?_⟩
      rw [if_pos rfl, Module.evaluates_operate_iff]
      refine ⟨[.atom [1], .atom blob], ?_, ?_⟩
      · exact .cons (Module.evaluates_atom_iff.mpr rfl)
          (.cons (hname _) .nil)
      · simp [Operator.apply, asAtom, Environment.treeHash, pure, Except.pure,
          bind, Except.bind]
  | pair left right ihleft ihright =>
      -- the two recursive calls, on what `f` and `r` return
      have hcall : ∀ (operator : Operator) (subtree : SExp),
          operator.apply E [.pair left right] = .ok subtree →
          m.Evaluates E sha256tree1.parameters (.ofList [subtree])
            sha256tree1.body (.atom (E.treeHash subtree).1) →
          m.Evaluates E sha256tree1.parameters (.ofList [.pair left right])
            (.call "sha256tree1" [.operate operator [.name "TREE"]])
            (.atom (E.treeHash subtree).1) := by
        intro operator subtree happly ih
        rw [Module.evaluates_call_iff hm]
        exact ⟨[subtree], .cons (hunary operator _ _ happly) .nil, ih⟩
      refine ⟨.atom [1], hunary .listp _ _ rfl, ?_⟩
      rw [if_neg nofun, Module.evaluates_operate_iff]
      refine ⟨[.atom [2], .atom (E.treeHash left).1,
        .atom (E.treeHash right).1], ?_, ?_⟩
      · refine .cons (Module.evaluates_atom_iff.mpr rfl)
          (.cons ?_ (.cons ?_ .nil))
        · exact hcall .first left rfl (Module.evaluates_ifElse_iff.mpr ihleft)
        · exact hcall .rest right rfl (Module.evaluates_ifElse_iff.mpr ihright)
      · simp [Operator.apply, asAtom, Environment.treeHash, pure, Except.pure,
          bind, Except.bind]

/-- A call of the hash function returns the tree hash of its argument. -/
theorem hash_evaluates_iff {m : Module}
    (hm : m.functions.lookup "sha256tree1" = some sha256tree1)
    {parameters : List String} {args value : SExp} {form : Form} :
    m.Evaluates E parameters args (.call "sha256tree1" [form]) value ↔
      ∃ tree, m.Evaluates E parameters args form tree ∧
        value = .atom (E.treeHash tree).1 := by
  rw [Module.evaluates_call_iff hm]
  constructor
  · rintro ⟨values, hvalues, hbody⟩
    cases hvalues with
    | @cons _ tree _ _ htree hrest =>
        cases hrest
        exact ⟨tree, htree, hbody.unique (sha256tree1_evaluates hm tree)⟩
  · rintro ⟨tree, htree, rfl⟩
    exact ⟨[tree], .cons htree .nil, sha256tree1_evaluates hm tree⟩

/-! ## What the sources return -/

def aggSigCondition (publicKey : SExp) (messageHash : Bytes32) : SExp :=
  .ofList [.atom ConditionOpcode.aggSig.value, publicKey, .atom messageHash.1]

theorem p2Conditions_returns_iff {args value : SExp} :
    (p2Conditions E).Returns E args value ↔
      ∃ conditions rest, args = .pair conditions rest ∧
        value = .ofList [E.quoteKeyword, conditions] := by
  unfold Module.Returns
  rw [p2Conditions, Module.evaluates_iff_succ]
  cases args with
  | atom blob =>
      constructor
      · rintro ⟨fuel, h⟩
        cases fuel with
        | zero => cases h
        | succ fuel => cases h
      · rintro ⟨conditions, rest, hargs, -⟩
        cases hargs
  | pair conditions rest =>
      constructor
      · rintro ⟨fuel, h⟩
        cases fuel with
        | zero => cases h
        | succ fuel => exact ⟨conditions, rest, rfl, (Except.ok.inj h).symm⟩
      · rintro ⟨_, _, hargs, rfl⟩
        cases hargs
        exact ⟨1, rfl⟩

theorem p2DelegatedConditions_returns_iff {args value : SExp} :
    p2DelegatedConditions.Returns E args value ↔
      ∃ publicKey conditions rest,
        args = .pair publicKey (.pair conditions rest) ∧
        value = .pair (aggSigCondition publicKey (E.treeHash conditions))
          conditions := by
  have hhash : p2DelegatedConditions.functions.lookup "sha256tree1" =
      some sha256tree1 := rfl
  unfold Module.Returns
  unfold p2DelegatedConditions at hhash ⊢
  simp only [Module.evaluates_operate_iff, Module.evaluates_list_iff,
    Module.evaluates_name_iff, hash_evaluates_iff hhash,
    List.forall₂_cons_left_iff, List.forall₂_nil_left_iff]
  cases args with
  | atom blob => simp [Module.resolve, argument]
  | pair publicKey args =>
      cases args with
      | atom blob => simp [Module.resolve, argument]
      | pair conditions rest =>
          simp only [Module.resolve, argument, Operator.apply]
          simp [aggSigCondition, ConditionOpcode.value, eq_comm]

theorem p2DelegatedPuzzle_returns_iff {args value : SExp} :
    p2DelegatedPuzzle.Returns E args value ↔
      ∃ publicKey delegatedPuzzle delegatedSolution rest output,
        args = .pair publicKey
          (.pair delegatedPuzzle (.pair delegatedSolution rest)) ∧
        E.run delegatedPuzzle delegatedSolution = .ok output ∧
        value = .pair
          (aggSigCondition publicKey (E.treeHash delegatedPuzzle)) output := by
  have hhash : p2DelegatedPuzzle.functions.lookup "sha256tree1" =
      some sha256tree1 := rfl
  unfold Module.Returns
  unfold p2DelegatedPuzzle at hhash ⊢
  simp only [Module.evaluates_operate_iff, Module.evaluates_list_iff,
    Module.evaluates_invoke_iff, Module.evaluates_name_iff,
    hash_evaluates_iff hhash, List.forall₂_cons_left_iff,
    List.forall₂_nil_left_iff]
  cases args with
  | atom blob => simp [Module.resolve, argument]
  | pair publicKey args =>
      cases args with
      | atom blob => simp [Module.resolve, argument]
      | pair delegatedPuzzle args =>
          cases args with
          | atom blob => simp [Module.resolve, argument, Operator.apply]
          | pair delegatedSolution rest =>
              simp [Module.resolve, argument, Operator.apply, aggSigCondition,
                ConditionOpcode.value, eq_comm]

/-! ## The curried puzzles -/

variable {tools : PuzzleTools}

theorem P2DelegatedConditions.puzzleForPk_run_iff (htools : tools.Lawful E)
    {publicKey : Bytes} {args output : SExp} :
    E.run (P2DelegatedConditions.puzzleForPk tools publicKey) args =
        .ok output ↔
      ∃ conditions rest, args = .pair conditions rest ∧
        output = .pair
          (aggSigCondition (.atom publicKey) (E.treeHash conditions))
          conditions := by
  unfold P2DelegatedConditions.puzzleForPk
  rw [htools.curry_run, htools.p2DelegatedConditions_run,
    p2DelegatedConditions_returns_iff]
  simp

namespace P2DelegatedPuzzle

theorem puzzleForPk_run_iff (htools : tools.Lawful E) {publicKey : Bytes}
    {args output : SExp} :
    E.run (puzzleForPk tools publicKey) args = .ok output ↔
      ∃ delegatedPuzzle delegatedSolution rest delegatedOutput,
        args = .pair delegatedPuzzle (.pair delegatedSolution rest) ∧
        E.run delegatedPuzzle delegatedSolution = .ok delegatedOutput ∧
        output = .pair
          (aggSigCondition (.atom publicKey) (E.treeHash delegatedPuzzle))
          delegatedOutput := by
  unfold puzzleForPk
  rw [htools.curry_run, htools.p2DelegatedPuzzle_run,
    p2DelegatedPuzzle_returns_iff]
  simp

/-- The delegated puzzle is the quoted conditions. -/
theorem solutionForConditions_eq (htools : tools.Lawful E)
    (puzzleReveal : Program) (conditions : SExp) :
    solutionForConditions E tools puzzleReveal conditions =
      .ok (.ofList [puzzleReveal,
        .ofList [.ofList [E.quoteKeyword, conditions], .null]]) := by
  have hquoted : E.run tools.p2ConditionsMod (.ofList [conditions]) =
      .ok (.ofList [E.quoteKeyword, conditions]) := by
    rw [htools.p2Conditions_run, p2Conditions_returns_iff]
    exact ⟨conditions, .null, rfl, rfl⟩
  unfold solutionForConditions P2Conditions.puzzleForConditions
  rw [hquoted]
  rfl

end P2DelegatedPuzzle

/-! ## The conditions of a solution -/

variable (E) in
/-- `as_python` of an atom is its bytes, and of a list of items a list. -/
structure ReadsLists : Prop where
  asPython_atom : ∀ blob, E.asPython (.atom blob) = .bytes blob
  asPython_list : ∀ x items, E.asPython (.ofList (x :: items)) =
    .list ((x :: items).map E.asPython)

theorem parse_aggSigCondition (hread : ReadsLists E) (publicKey : Bytes)
    (messageHash : Bytes32) :
    parseSexpToCondition E (aggSigCondition (.atom publicKey) messageHash) =
      .ok ⟨ConditionOpcode.aggSig.value,
        [.bytes publicKey, .bytes messageHash.1]⟩ := by
  have hlist : E.asPython (aggSigCondition (.atom publicKey) messageHash) =
      .list [.bytes ConditionOpcode.aggSig.value, .bytes publicKey,
        .bytes messageHash.1] := by
    unfold aggSigCondition
    rw [hread.asPython_list]
    simp [hread.asPython_atom]
  unfold parseSexpToCondition
  rw [hlist]
  rfl

theorem P2DelegatedPuzzle.conditionsForSolution_eq (hE : E.Lawful)
    (htools : tools.Lawful E) (hread : ReadsLists E) (publicKey : Bytes)
    (conditions : SExp) :
    conditionsForSolution E (.ofList [puzzleForPk tools publicKey,
        .ofList [.ofList [E.quoteKeyword, conditions], .null]]) =
      (parseSexpToConditions E conditions).map fun parsed =>
        ⟨ConditionOpcode.aggSig.value, [.bytes publicKey,
          .bytes (E.treeHash (.ofList [E.quoteKeyword, conditions])).1]⟩ ::
          parsed := by
  have hquote : E.run (.ofList [E.quoteKeyword, conditions]) .null =
      .ok conditions := by
    unfold Environment.run
    rw [hE.run_quote]
    rfl
  have hrun : E.run (puzzleForPk tools publicKey)
      (.ofList [.ofList [E.quoteKeyword, conditions], .null]) =
      .ok (.pair (aggSigCondition (.atom publicKey)
        (E.treeHash (.ofList [E.quoteKeyword, conditions]))) conditions) := by
    rw [puzzleForPk_run_iff htools]
    exact ⟨_, _, _, conditions, rfl, hquote, rfl⟩
  unfold conditionsForSolution
  simp only [SExp.ofList, SExp.first, SExp.rest, Except.ok_bind] at hrun ⊢
  rw [hrun, Except.ok_bind]
  unfold parseSexpToConditions
  rw [SExp.forIter, parse_aggSigCondition hread, Except.ok_bind]
  cases SExp.forIter (parseSexpToCondition E) conditions with
  | error e => rfl
  | ok parsed => rfl

/-- No solution avoids the owner's signature. -/
theorem delegated_signs (hE : E.Lawful) (htools : tools.Lawful E)
    (hread : ReadsLists E) (publicKey : Bytes) :
    (∀ args output,
      E.run (P2DelegatedPuzzle.puzzleForPk tools publicKey) args =
          .ok output ↔
        ∃ delegatedPuzzle delegatedSolution rest delegatedOutput,
          args = .pair delegatedPuzzle (.pair delegatedSolution rest) ∧
          E.run delegatedPuzzle delegatedSolution = .ok delegatedOutput ∧
          output = .pair
            (aggSigCondition (.atom publicKey) (E.treeHash delegatedPuzzle))
            delegatedOutput) ∧
    (∀ args output,
      E.run (P2DelegatedConditions.puzzleForPk tools publicKey) args =
          .ok output ↔
        ∃ conditions rest, args = .pair conditions rest ∧
          output = .pair
            (aggSigCondition (.atom publicKey) (E.treeHash conditions))
            conditions) ∧
    ∀ conditions : SExp, ∃ solution,
      P2DelegatedPuzzle.solutionForConditions E tools
          (P2DelegatedPuzzle.puzzleForPk tools publicKey) conditions =
        .ok solution ∧
      conditionsForSolution E solution =
        (parseSexpToConditions E conditions).map fun parsed =>
          ⟨ConditionOpcode.aggSig.value, [.bytes publicKey,
            .bytes (E.treeHash (.ofList [E.quoteKeyword, conditions])).1]⟩ ::
            parsed := by
  refine ⟨?_, ?_, ?_⟩
  · intro args output
    exact P2DelegatedPuzzle.puzzleForPk_run_iff htools
  · intro args output
    exact P2DelegatedConditions.puzzleForPk_run_iff htools
  · intro conditions
    exact ⟨_, P2DelegatedPuzzle.solutionForConditions_eq htools _ conditions,
      P2DelegatedPuzzle.conditionsForSolution_eq hE htools hread publicKey
        conditions⟩

/-! ## An evaluator of the puzzles -/

namespace Reference

/-- The items of a list in front of a list of arguments. -/
def prepend : SExp → SExp → SExp
  | .pair value values, args => .pair value (prepend values args)
  | .atom _, args => args

theorem prepend_ofList (values : List SExp) (args : SExp) :
    prepend (.ofList values) args = values.foldr .pair args := by
  induction values with
  | nil => rfl
  | cons value values ih => exact congrArg (SExp.pair value) ih

theorem sizeOf_prepend_le (values args : SExp) :
    sizeOf (prepend values args) ≤ sizeOf values + sizeOf args := by
  induction values with
  | atom blob => exact Nat.le_add_left _ _
  | pair value values _ ih =>
      simp only [prepend, SExp.pair.sizeOf_spec]
      omega

def puzzleTools : PuzzleTools where
  p2ConditionsMod := .pair (.atom [200]) .null
  p2DelegatedConditionsMod := .pair (.atom [201]) .null
  p2DelegatedPuzzleMod := .pair (.atom [202]) .null
  curry program values := .pair (.atom [203]) (.pair program (.ofList values))

/-- An evaluator of the quote operator, the three compiled sources and curried
programs. -/
def runPuzzle (program args : SExp) : Except PyException SExp :=
  match program, args with
  | .pair (.atom [1]) (.pair x (.atom [])), _ => .ok x
  | .pair (.atom [200]) (.atom []), .pair conditions _ =>
      .ok (.ofList [quoteKeyword, conditions])
  | .pair (.atom [201]) (.atom []), .pair publicKey (.pair conditions _) =>
      .ok (.pair (aggSigCondition publicKey (environment.treeHash conditions))
        conditions)
  | .pair (.atom [202]) (.atom []), .pair publicKey
      (.pair delegatedPuzzle (.pair delegatedSolution _)) => do
      let output ← runPuzzle delegatedPuzzle delegatedSolution
      .ok (.pair (aggSigCondition publicKey
        (environment.treeHash delegatedPuzzle)) output)
  | .pair (.atom [203]) (.pair program values), args =>
      runPuzzle program (prepend values args)
  | _, _ => .error .evalError
termination_by sizeOf program + sizeOf args
decreasing_by
  · simp only [SExp.pair.sizeOf_spec]
    omega
  · have hprepend := sizeOf_prepend_le values args
    simp only [SExp.pair.sizeOf_spec]
    omega

def puzzleEnvironment : Environment :=
  { environment with runProgram := runPuzzle }

theorem puzzleEnvironment_lawful : puzzleEnvironment.Lawful where
  intFromBytes_eq := environment_lawful.intFromBytes_eq
  intFromBytes_intToBytes := environment_lawful.intFromBytes_intToBytes
  run_quote x args := by
    change runPuzzle (.pair (.atom [1]) (.pair x (.atom []))) args = .ok x
    rw [runPuzzle]
  asPython_two := environment_lawful.asPython_two
  hash256_eq := environment_lawful.hash256_eq
  sexpToStream_quote_nil := environment_lawful.sexpToStream_quote_nil

theorem puzzleEnvironment_treeHash (tree : SExp) :
    puzzleEnvironment.treeHash tree = environment.treeHash tree := by
  induction tree with
  | atom blob => rfl
  | pair left right ihleft ihright =>
      rw [Environment.treeHash, Environment.treeHash, ihleft, ihright]
      rfl

theorem puzzleEnvironment_readsLists : ReadsLists puzzleEnvironment where
  asPython_atom _ := rfl
  asPython_list x items := by
    change asPython (.ofList (x :: items)) = .list ((x :: items).map asPython)
    induction items generalizing x with
    | nil => rfl
    | cons y items ih =>
        rw [SExp.ofList, asPython, ih y]
        rfl

theorem puzzleTools_lawful : puzzleTools.Lawful puzzleEnvironment where
  p2Conditions_run args value := by
    rw [p2Conditions_returns_iff]
    unfold Environment.run
    change (runPuzzle (.pair (.atom [200]) (.atom [])) args).mapError _ = _ ↔ _
    cases args with
    | atom blob => simp [runPuzzle, Except.mapError]
    | pair conditions rest =>
        simp [runPuzzle, Except.mapError, eq_comm, puzzleEnvironment,
          environment]
  p2DelegatedConditions_run args value := by
    rw [p2DelegatedConditions_returns_iff]
    unfold Environment.run
    change (runPuzzle (.pair (.atom [201]) (.atom [])) args).mapError _ = _ ↔ _
    cases args with
    | atom blob => simp [runPuzzle, Except.mapError]
    | pair publicKey args =>
        cases args with
        | atom blob => simp [runPuzzle, Except.mapError]
        | pair conditions rest =>
            simp [runPuzzle, Except.mapError, eq_comm,
              puzzleEnvironment_treeHash]
  p2DelegatedPuzzle_run args value := by
    rw [p2DelegatedPuzzle_returns_iff]
    unfold Environment.run
    change (runPuzzle (.pair (.atom [202]) (.atom [])) args).mapError _ = _ ↔ _
    cases args with
    | atom blob => simp [runPuzzle, Except.mapError]
    | pair publicKey args =>
        cases args with
        | atom blob => simp [runPuzzle, Except.mapError]
        | pair delegatedPuzzle args =>
            cases args with
            | atom blob => simp [runPuzzle, Except.mapError]
            | pair delegatedSolution rest =>
                rw [runPuzzle]
                have hrun : puzzleEnvironment.runProgram = runPuzzle := rfl
                rw [hrun]
                cases hout : runPuzzle delegatedPuzzle delegatedSolution with
                | error e => simp [Except.mapError, bind, Except.bind, hout]
                | ok output =>
                    simp [Except.mapError, bind, Except.bind, hout, eq_comm,
                      puzzleEnvironment_treeHash]
  curry_run program values args := by
    unfold Environment.run
    change (runPuzzle (.pair (.atom [203]) (.pair program (.ofList values)))
      args).mapError _ = (runPuzzle program _).mapError _
    rw [runPuzzle, prepend_ofList]

end Reference

open Reference in
theorem delegated_signs_quotedCoin :
    ∃ solution,
      P2DelegatedPuzzle.solutionForConditions puzzleEnvironment puzzleTools
          (P2DelegatedPuzzle.puzzleForPk puzzleTools
            (SizedBytes.fill 48 7).1)
          (.ofList [createCoin (SizedBytes.fill 32 3) [5]]) = .ok solution ∧
      conditionsForSolution puzzleEnvironment solution =
        (parseSexpToConditions puzzleEnvironment
          (.ofList [createCoin (SizedBytes.fill 32 3) [5]])).map fun parsed =>
          ⟨ConditionOpcode.aggSig.value, [.bytes (SizedBytes.fill 48 7).1,
            .bytes (puzzleEnvironment.treeHash (.ofList
              [puzzleEnvironment.quoteKeyword,
                .ofList [createCoin (SizedBytes.fill 32 3) [5]]])).1]⟩ ::
            parsed :=
  (delegated_signs puzzleEnvironment_lawful puzzleTools_lawful
    puzzleEnvironment_readsLists (SizedBytes.fill 48 7).1).2.2 _

end LedgerSim
