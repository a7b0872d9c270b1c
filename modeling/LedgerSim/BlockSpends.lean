import LedgerSim.AcceptedValues
import LedgerSim.ConditionChecks

/-!
# The spends of a block

Validation forgets the order of a puzzle's conditions and where they came
from.  A `Spend` keeps them: it is an entry of the solution program's output
with the coin that its name resolves to and the whole output list of the
revealed puzzle.
-/

namespace LedgerSim

variable (E : Environment)

theorem SExp.forIter_eq_ok_iff {α : Type} {f : SExp → Except Exn α}
    {sexp : SExp} {l : List α} :
    sexp.forIter f = .ok l ↔
      ∃ items, sexp = .ofList items ∧ items.mapM f = .ok l := by
  constructor
  · intro h
    induction sexp generalizing l with
    | atom blob =>
        cases blob with
        | nil => exact ⟨[], rfl, h⟩
        | cons b rest => simp [SExp.forIter] at h
    | pair x xs _ ih =>
        obtain ⟨y, hy, h⟩ := Except.bind_eq_ok_iff.mp h
        obtain ⟨ys, hys, h⟩ := Except.bind_eq_ok_iff.mp h
        obtain rfl := Except.ok.inj h
        obtain ⟨items, rfl, hitems⟩ := ih hys
        refine ⟨x :: items, rfl, ?_⟩
        rw [List.mapM_cons]
        apply Except.bind_eq_ok hy
        exact Except.bind_eq_ok hitems rfl
  · rintro ⟨items, rfl, h⟩
    rw [SExp.forIter_ofList]
    exact h

theorem run_eq_ok_iff {program args result : SExp} :
    E.run program args = .ok result ↔
      E.runProgram program args = .ok result :=
  Except.mapError_eq_ok_iff

/-- The output of the solution program is a list, and every entry of it is
well formed. -/
theorem namePuzzleConditionsList_eq_ok_iff {program : Program}
    {npcList : List Npc} :
    namePuzzleConditionsList E program = .ok npcList ↔
      ∃ entries, E.run program .null = .ok (.ofList entries) ∧
        entries.mapM (npcEntry E) = .ok npcList := by
  unfold namePuzzleConditionsList
  rw [Except.bind_eq_ok_iff]
  simp only [Environment.exceptEvalError_eq_ok_iff]
  constructor
  · rintro ⟨sexp, hrun, h⟩
    obtain ⟨entries, rfl, hentries⟩ := SExp.forIter_eq_ok_iff.mp h
    exact ⟨entries, hrun, hentries⟩
  · rintro ⟨entries, hrun, hentries⟩
    exact ⟨_, hrun, SExp.forIter_eq_ok_iff.mpr ⟨entries, rfl, hentries⟩⟩

/-- The solution in an entry `(coin_name (puzzle solution))`. -/
def entrySolution (entry : SExp) : Except Exn Program := do
  let afterName ← entry.rest
  afterName.first

/-- `as_python` of an entry has the form `[coin_name, [_, _]]`. -/
def EntryShape (entry : SExp) (coinName : Bytes32) : Prop :=
  ∃ left right, (E.asPython entry).two =
    some (.bytes coinName.1, .list [left, right])

theorem npcEntry_eq_ok_iff {entry : SExp} {npc : Npc} :
    npcEntry E entry = .ok npc ↔
      EntryShape E entry npc.coinName ∧
        ∃ solution puzzle, entrySolution entry = .ok solution ∧
          solution.first = .ok puzzle ∧
          E.programHash puzzle = .ok npc.puzzleHash ∧
          conditionsDictForSolution E solution = .ok npc.conditionsDict := by
  unfold npcEntry EntryShape
  constructor
  · intro h
    dsimp only at h
    split at h
    next name left right htwo =>
      split_ifs at h with hlength
      obtain ⟨afterName, hafterName, h⟩ := Except.bind_eq_ok_iff.mp h
      obtain ⟨solution, hsolution, h⟩ := Except.bind_eq_ok_iff.mp h
      obtain ⟨puzzle, hpuzzle, h⟩ := Except.bind_eq_ok_iff.mp h
      obtain ⟨puzzleHash, hhash, h⟩ := Except.bind_eq_ok_iff.mp h
      obtain ⟨conditionsDict, hconditions, h⟩ := Except.bind_eq_ok_iff.mp h
      rw [Environment.exceptEvalError_eq_ok_iff] at hconditions
      obtain rfl := Except.ok.inj h
      exact ⟨⟨left, right, htwo⟩, solution, puzzle,
        Except.bind_eq_ok hafterName hsolution, hpuzzle, hhash, hconditions⟩
    next => simp at h
  · rintro ⟨⟨left, right, htwo⟩, solution, puzzle, hsolution, hpuzzle, hhash,
      hconditions⟩
    obtain ⟨afterName, hafterName, hsolution⟩ :=
      Except.bind_eq_ok_iff.mp hsolution
    rw [htwo]
    dsimp only
    rw [dif_pos npc.coinName.2]
    apply Except.bind_eq_ok hafterName
    apply Except.bind_eq_ok hsolution
    apply Except.bind_eq_ok hpuzzle
    apply Except.bind_eq_ok hhash
    exact Except.bind_eq_ok
      (Environment.exceptEvalError_eq_ok_iff.mpr hconditions) rfl

/-! ## Spends -/

structure Spend where
  coinName : Bytes32
  coin : Coin
  /-- What the revealed puzzle returns. -/
  output : SExp
  conditions : List Condition

/-- Run the puzzle of a solution on its argument. -/
def puzzleOutput (solution : Program) : Except Exn SExp := do
  let puzzleSexp ← solution.first
  let solutionRest ← solution.rest
  let solutionSexp ← solutionRest.first
  E.run puzzleSexp solutionSexp

/-- The spend of an entry whose coin is looked up in `storage`. -/
def blockSpend (storage : Bytes32 → Option Bytes) (entry : SExp) :
    Except Exn Spend := do
  let npc ← npcEntry E entry
  let solution ← entrySolution entry
  let output ← puzzleOutput E solution
  let conditions ← parseSexpToConditions E output
  let coin ← coinPointerObj E storage npc.coinName
  .ok ⟨npc.coinName, coin, output, conditions⟩

/-- The spends of a body, in order.  Names are looked up among the block's
own additions before they are looked up in the storage. -/
def blockSpends (body : Body) (additions : List Coin)
    (hashPreimage : Bytes32 → Option Bytes) : Except Exn (List Spend) := do
  let sexp ← E.run body.solutionProgram .null
  sexp.forIter (blockSpend E
    (overlay (ramStorageOf E additions).hashPreimage hashPreimage))

/-- The conditions of a spend with one opcode, in the order of its output. -/
def Spend.withOpcode (spend : Spend) (opcode : ConditionOpcode) :
    List Condition :=
  spend.conditions.filter fun condition => condition.opcode = opcode.value

theorem conditionsForSolution_eq_ok_iff {solution : Program}
    {conditions : List Condition} :
    conditionsForSolution E solution = .ok conditions ↔
      ∃ output, puzzleOutput E solution = .ok output ∧
        parseSexpToConditions E output = .ok conditions := by
  unfold conditionsForSolution puzzleOutput
  constructor
  · intro h
    obtain ⟨puzzle, hpuzzle, h⟩ := Except.bind_eq_ok_iff.mp h
    obtain ⟨rest, hrest, h⟩ := Except.bind_eq_ok_iff.mp h
    obtain ⟨argument, hargument, h⟩ := Except.bind_eq_ok_iff.mp h
    obtain ⟨output, houtput, h⟩ := Except.bind_eq_ok_iff.mp h
    refine ⟨output, ?_, h⟩
    apply Except.bind_eq_ok hpuzzle
    apply Except.bind_eq_ok hrest
    exact Except.bind_eq_ok hargument houtput
  · rintro ⟨output, h, hconditions⟩
    obtain ⟨puzzle, hpuzzle, h⟩ := Except.bind_eq_ok_iff.mp h
    obtain ⟨rest, hrest, h⟩ := Except.bind_eq_ok_iff.mp h
    obtain ⟨argument, hargument, houtput⟩ := Except.bind_eq_ok_iff.mp h
    apply Except.bind_eq_ok hpuzzle
    apply Except.bind_eq_ok hrest
    apply Except.bind_eq_ok hargument
    exact Except.bind_eq_ok houtput hconditions

theorem conditionsDictForSolution_eq_ok_iff {solution : Program}
    {conditionsDict : ConditionsDict} :
    conditionsDictForSolution E solution = .ok conditionsDict ↔
      ∃ conditions, conditionsForSolution E solution = .ok conditions ∧
        conditionsByOpcode conditions = conditionsDict := by
  unfold conditionsDictForSolution
  rw [Except.bind_eq_ok_iff]
  simp only [Except.ok.injEq]

theorem parseSexpToCondition_eq_ok_iff {sexp : SExp} {condition : Condition} :
    parseSexpToCondition E sexp = .ok condition ↔
      sexp.listp = true ∧ E.asPython sexp =
        .list (.bytes condition.opcode :: condition.arguments) := by
  unfold parseSexpToCondition
  constructor
  · intro h
    split_ifs at h with hlist
    refine ⟨hlist, ?_⟩
    split at h
    next opcode arguments hpython =>
      obtain rfl := Except.ok.inj h
      exact hpython
    all_goals simp at h
  · rintro ⟨hlist, hpython⟩
    rw [if_pos hlist, hpython]

/-- A spend lists its puzzle's output item by item. -/
structure Spend.Reveals (spend : Spend) (items : List SExp) : Prop where
  output : spend.output = .ofList items
  conditions : List.Forall₂ (fun item condition => E.asPython item =
    .list (.bytes condition.opcode :: condition.arguments))
      items spend.conditions

theorem blockSpend_reveals {storage : Bytes32 → Option Bytes} {entry : SExp}
    {spend : Spend} (h : blockSpend E storage entry = .ok spend) :
    ∃ items, spend.Reveals E items := by
  obtain ⟨_, -, h⟩ := Except.bind_eq_ok_iff.mp h
  obtain ⟨_, -, h⟩ := Except.bind_eq_ok_iff.mp h
  obtain ⟨output, -, h⟩ := Except.bind_eq_ok_iff.mp h
  obtain ⟨conditions, hparsed, h⟩ := Except.bind_eq_ok_iff.mp h
  obtain ⟨coin, -, h⟩ := Except.bind_eq_ok_iff.mp h
  obtain rfl := Except.ok.inj h
  obtain ⟨items, rfl, hitems⟩ := SExp.forIter_eq_ok_iff.mp hparsed
  refine ⟨items, rfl, ?_⟩
  refine (Except.mapM_eq_ok_iff.mp hitems).imp fun item condition hitem => ?_
  exact ((parseSexpToCondition_eq_ok_iff E).mp hitem).2

theorem blockSpend_of_npcEntry {storage : Bytes32 → Option Bytes}
    {entry : SExp} {npc : Npc} {cpc : Cpc} (hnpc : npcEntry E entry = .ok npc)
    (hcpc : resolveCoin E storage npc = .ok cpc) :
    ∃ spend, blockSpend E storage entry = .ok spend ∧
      spend.coinName = npc.coinName ∧ spend.coin = cpc.coin ∧
      npc.conditionsDict = conditionsByOpcode spend.conditions ∧
      cpc.conditionsDict = conditionsByOpcode spend.conditions := by
  obtain ⟨-, solution, puzzle, hsolution, -, -, hdict⟩ :=
    (npcEntry_eq_ok_iff E).mp hnpc
  obtain ⟨conditions, hconditions, hgroups⟩ :=
    (conditionsDictForSolution_eq_ok_iff E).mp hdict
  obtain ⟨output, houtput, hparsed⟩ :=
    (conditionsForSolution_eq_ok_iff E).mp hconditions
  obtain ⟨coin, hcoin, hresolved⟩ := Except.bind_eq_ok_iff.mp hcpc
  obtain rfl := Except.ok.inj hresolved
  refine ⟨⟨npc.coinName, coin, output, conditions⟩, ?_, rfl, rfl, hgroups.symm,
    hgroups.symm⟩
  apply Except.bind_eq_ok hnpc
  apply Except.bind_eq_ok hsolution
  apply Except.bind_eq_ok houtput
  apply Except.bind_eq_ok hparsed
  exact Except.bind_eq_ok hcoin rfl

/-- The spends list what `npc_list` and `cpc_list` say about the entries. -/
theorem mapM_blockSpend {storage : Bytes32 → Option Bytes}
    {entries : List SExp} {npcList : List Npc} {cpcList : List Cpc}
    (hnpcs : List.Forall₂ (fun entry npc => npcEntry E entry = .ok npc)
      entries npcList)
    (hcpcs : List.Forall₂ (fun npc cpc => resolveCoin E storage npc = .ok cpc)
      npcList cpcList) :
    ∃ spends, entries.mapM (blockSpend E storage) = .ok spends ∧
      List.Forall₂ (fun spend npc => spend.coinName = npc.coinName ∧
        npc.conditionsDict = conditionsByOpcode spend.conditions)
          spends npcList ∧
      List.Forall₂ (fun spend cpc => spend.coin = cpc.coin ∧
        cpc.conditionsDict = conditionsByOpcode spend.conditions)
          spends cpcList := by
  induction hnpcs generalizing cpcList with
  | nil =>
      cases hcpcs
      exact ⟨[], rfl, .nil, .nil⟩
  | cons hnpc _ ih =>
      cases hcpcs with
      | cons hcpc hcpcs =>
          obtain ⟨spend, hspend, hname, hcoin, hnpcDict, hcpcDict⟩ :=
            blockSpend_of_npcEntry E hnpc hcpc
          obtain ⟨spends, hspends, hnpcs', hcpcs'⟩ := ih hcpcs
          refine ⟨spend :: spends, ?_, .cons ⟨hname, hnpcDict⟩ hnpcs',
            .cons ⟨hcoin, hcpcDict⟩ hcpcs'⟩
          rw [List.mapM_cons]
          apply Except.bind_eq_ok hspend
          exact Except.bind_eq_ok hspends rfl

theorem blockSpends_reveal {body : Body} {additions : List Coin}
    {hashPreimage : Bytes32 → Option Bytes} {spends : List Spend}
    (h : blockSpends E body additions hashPreimage = .ok spends) {spend : Spend}
    (hmem : spend ∈ spends) : ∃ items, spend.Reveals E items := by
  obtain ⟨_, -, h⟩ := Except.bind_eq_ok_iff.mp h
  obtain ⟨entries, -, hentries⟩ := SExp.forIter_eq_ok_iff.mp h
  obtain ⟨entry, -, hentry⟩ := (Except.mem_iff_of_mapM_eq_ok hentries).mp hmem
  exact blockSpend_reveals E hentry

theorem AcceptedBody.exists_spends {E : Environment} {tipIndex : ℕ}
    {body : Body} {hashPreimage : Bytes32 → Option Bytes}
    {unspentFor : Bytes32 → Option Unspent} {coinbaseReward timestamp : ℤ}
    (a : AcceptedBody E tipIndex body hashPreimage unspentFor coinbaseReward
      timestamp) :
    ∃ spends, blockSpends E body a.additions hashPreimage = .ok spends ∧
      List.Forall₂ (fun spend npc => spend.coinName = npc.coinName ∧
        npc.conditionsDict = conditionsByOpcode spend.conditions)
          spends a.npcList ∧
      List.Forall₂ (fun spend cpc => spend.coin = cpc.coin ∧
        cpc.conditionsDict = conditionsByOpcode spend.conditions)
          spends a.cpcList := by
  obtain ⟨entries, hrun, hentries⟩ :=
    (namePuzzleConditionsList_eq_ok_iff E).mp a.npcList_eq
  obtain ⟨spends, hspends, hmatch⟩ := mapM_blockSpend E
    (Except.mapM_eq_ok_iff.mp hentries) (Except.mapM_eq_ok_iff.mp a.resolved)
  refine ⟨spends, ?_, hmatch⟩
  apply Except.bind_eq_ok hrun
  exact SExp.forIter_eq_ok_iff.mpr ⟨entries, rfl, hspends⟩

end LedgerSim
