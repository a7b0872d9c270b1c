import LedgerSim.BlockSpends
import LedgerSim.FarmedBlock
import LedgerSim.ReferenceEnvironment
import LedgerSim.RefusedBlock

/-!
# Farmer and validator agree

The farmer evaluates every solution of a bundle with the coin that the bundle
claims.  The validator runs the generated program and reads names, puzzles and
conditions from its output.  Both come to the same lists.
-/

namespace LedgerSim

/-- Lists of two items survive `Program.to` and `as_python`, and no tree is too
deep for Python's stack. -/
structure Environment.ReadsPairs (E : Environment) : Prop where
  asPython_pair : ∀ x y,
    E.asPython (.ofList [x, y]) = .list [E.asPython x, E.asPython y]
  recursionLimit_eq : E.recursionLimit = none

variable (E : Environment)

/-- The entry that a claim stands for. -/
structure CoinSolution.ReadAs (claim : CoinSolution) (npc : Npc) : Prop where
  coinName : npc.coinName = claim.coin.name E
  puzzleHash : ∃ puzzle, claim.solution.first = .ok puzzle ∧
    npc.puzzleHash = E.treeHash puzzle
  conditionsDict :
    conditionsDictForSolution E claim.solution = .ok npc.conditionsDict

section Entries

variable {E}

theorem exists_npcEntry_solutionEntry (hE : E.Lawful)
    (hpair : ∀ x y,
      E.asPython (.ofList [x, y]) = .list [E.asPython x, E.asPython y])
    {claim : CoinSolution} {puzzle argument : SExp}
    {conditionsDict : ConditionsDict}
    (hsolution : claim.solution = .ofList [puzzle, argument])
    (hdeep : ¬ E.TooDeep puzzle)
    (hdict : conditionsDictForSolution E claim.solution = .ok conditionsDict) :
    ∃ npc, npcEntry E (solutionEntry E claim) = .ok npc := by
  have hshape : EntryShape E (solutionEntry E claim) (claim.coin.name E) := by
    refine ⟨E.asPython puzzle, E.asPython argument, ?_⟩
    rw [solutionEntry, hE.asPython_two, hsolution, hpair]
    rfl
  have hfirst : claim.solution.first = .ok puzzle := by
    rw [hsolution]
    rfl
  refine ⟨⟨claim.coin.name E, E.treeHash puzzle, conditionsDict⟩, ?_⟩
  have hhash : E.programHash puzzle = .ok (E.treeHash puzzle) :=
    Environment.programHash_eq_ok_iff.mpr ⟨hdeep, rfl⟩
  exact (npcEntry_eq_ok_iff E).mpr ⟨hshape, claim.solution, puzzle, rfl, hfirst,
    hhash, hdict⟩

/-- The hash of the puzzle of an entry has been computed. -/
theorem not_tooDeep_of_npcEntry {claim : CoinSolution} {npc : Npc}
    (h : npcEntry E (solutionEntry E claim) = .ok npc) {puzzle : SExp}
    (hpuzzle : claim.solution.first = .ok puzzle) : ¬ E.TooDeep puzzle := by
  obtain ⟨-, solution, puzzle', hsolution, hpuzzle', hhash, -⟩ :=
    (npcEntry_eq_ok_iff E).mp h
  obtain rfl : claim.solution = solution := Except.ok.inj hsolution
  obtain rfl := Except.ok.inj (hpuzzle.symm.trans hpuzzle')
  exact (Environment.programHash_eq_ok_iff.mp hhash).1

theorem npcsOf_readAs (hE : E.Lawful) {claims : List CoinSolution}
    {npcList : List Npc} (h : npcsOf E claims = .ok npcList) :
    List.Forall₂ (CoinSolution.ReadAs E) claims npcList := by
  refine (Except.mapM_eq_ok_iff.mp h).imp fun claim npc hnpc => ?_
  obtain ⟨hname, hpuzzle, hdict⟩ := npcEntry_solutionEntry E hE hnpc
  exact ⟨hname, hpuzzle, hdict⟩

/-- The outputs of the entries are the additions of the claims. -/
theorem createdOutputs_of_readAs {bundle : SpendBundle} {npcList : List Npc}
    (h : List.Forall₂ (CoinSolution.ReadAs E) bundle.coinSolutions npcList) :
    createdOutputs E npcList = bundle.additions E := by
  have hsame : (bundle.coinSolutions.mapM fun claim =>
      SpendBundle.additionsForSolution E (claim.coin.name E) claim.solution) =
        npcList.mapM fun npc =>
          createdOutputsForConditionsDict E npc.conditionsDict npc.coinName := by
    refine Except.mapM_eq_of_forall₂ (h.imp fun claim npc hread => ?_)
    unfold SpendBundle.additionsForSolution
    rw [hread.conditionsDict, hread.coinName]
    rfl
  unfold createdOutputs SpendBundle.additions
  rw [hsame]

end Entries

/-! ## The farmed body -/

/-- What `farm_new_block` has established when it returns. -/
structure FarmedFrom (bundle : SpendBundle) (coinbaseCoin : Coin)
    (body : Body) : Prop where
  solutionProgram : body.solutionProgram = bestSolutionProgram E bundle
  coinbaseCoin : body.coinbaseCoin = coinbaseCoin
  fees : bundle.fees E = .ok body.feesCoin.amount
  evaluated : ∀ claim ∈ bundle.coinSolutions,
    ∃ conditionsDict, conditionsDictForSolution E claim.solution =
      .ok conditionsDict

section Farmed

variable {E} {bundle : SpendBundle} {coinbaseCoin : Coin} {body : Body}

theorem farmedFrom_of_farmNewBlock {previousHeader : HeaderHash}
    {previousSignature : EORSignature} {blockIndex : ℕ}
    {proofOfSpace : ProofOfSpace} {coinbaseSignature : BLSSignature}
    {feesPuzzleHash : Bytes32} {timestamp : ℤ} {header : Header}
    (h : farmNewBlock E previousHeader previousSignature blockIndex
      proofOfSpace bundle coinbaseCoin coinbaseSignature feesPuzzleHash
      timestamp = .ok (header, body)) :
    FarmedFrom E bundle coinbaseCoin body := by
  obtain ⟨valid, hvalid, h⟩ := Except.bind_eq_ok_iff.mp h
  obtain ⟨_, _, h⟩ := Except.bind_eq_ok_iff.mp h
  obtain ⟨blockIndexHash, _, h⟩ := Except.bind_eq_ok_iff.mp h
  obtain ⟨fees, hfees, h⟩ := Except.bind_eq_ok_iff.mp h
  obtain ⟨bodyHash, _, h⟩ := Except.bind_eq_ok_iff.mp h
  simp only [Except.ok.injEq, Prod.mk.injEq] at h
  obtain ⟨-, rfl⟩ := h
  refine ⟨rfl, rfl, hfees, ?_⟩
  intro claim hclaim
  -- the signature check has evaluated every solution
  obtain ⟨pairs, hpairs, -⟩ := Except.bind_eq_ok_iff.mp hvalid
  obtain ⟨_, -, hpair⟩ := Except.exists_of_mapM_eq_ok hpairs hclaim
  obtain ⟨conditionsDict, hdict, -⟩ := Except.bind_eq_ok_iff.mp hpair
  exact ⟨conditionsDict, hdict⟩

theorem FarmedFrom.exists_npcList (hE : E.Lawful) (hpairs : E.ReadsPairs)
    (f : FarmedFrom E bundle coinbaseCoin body)
    (hlists : ∀ claim ∈ bundle.coinSolutions,
      ∃ puzzle argument, claim.solution = .ofList [puzzle, argument]) :
    ∃ npcList, npcsOf E bundle.coinSolutions = .ok npcList ∧
      namePuzzleConditionsList E body.solutionProgram = .ok npcList := by
  have hentries : ∀ claim ∈ bundle.coinSolutions,
      ∃ npc, npcEntry E (solutionEntry E claim) = .ok npc := by
    intro claim hclaim
    obtain ⟨conditionsDict, hdict⟩ := f.evaluated claim hclaim
    obtain ⟨puzzle, argument, hsolution⟩ := hlists claim hclaim
    exact exists_npcEntry_solutionEntry hE hpairs.asPython_pair hsolution
      (Environment.not_tooDeep_of_unlimited hpairs.recursionLimit_eq puzzle)
      hdict
  obtain ⟨npcList, hnpcs⟩ := Except.exists_mapM_eq_ok hentries
  refine ⟨npcList, hnpcs, ?_⟩
  rw [f.solutionProgram, namePuzzleConditionsList_bestSolutionProgram E hE,
    List.mapM_map]
  exact hnpcs

theorem FarmedFrom.exists_additions
    (f : FarmedFrom E bundle coinbaseCoin body) :
    ∃ outputs, bundle.additions E = .ok outputs ∧
      body.feesCoin.amount = (bundle.removals.map Coin.amount).sum -
        (outputs.map Coin.amount).sum := by
  obtain ⟨outputs, houtputs, h⟩ := Except.bind_eq_ok_iff.mp f.fees
  exact ⟨outputs, houtputs, (Except.ok.inj h).symm⟩

/-- The fees coin takes what the bundle leaves over. -/
theorem FarmedFrom.balance (f : FarmedFrom E bundle coinbaseCoin body)
    {outputs : List Coin} (houtputs : bundle.additions E = .ok outputs) :
    ((bodyAdditions body outputs).map Coin.amount).sum -
      (bundle.removals.map Coin.amount).sum = coinbaseCoin.amount := by
  obtain ⟨outputs', houtputs', hfees⟩ := f.exists_additions
  obtain rfl := Except.ok.inj (houtputs.symm.trans houtputs')
  unfold bodyAdditions
  rw [List.map_cons, List.map_cons, List.sum_cons, List.sum_cons, hfees,
    f.coinbaseCoin]
  ring

end Farmed

/-! ## The reward -/

/-- Every claimed coin that the storage knows by name is the claimed one. -/
def ResolvesClaims (bundle : SpendBundle)
    (storage : Bytes32 → Option Bytes) : Prop :=
  ∀ claim ∈ bundle.removals, ∀ coin,
    coinPointerObj E storage (claim.name E) = .ok coin → coin = claim

section Reward

variable {E} {bundle : SpendBundle} {npcList : List Npc} {cpcList : List Cpc}
  {storage : Bytes32 → Option Bytes}

theorem map_coin_of_resolved
    (hnames : npcList.map Npc.coinName = bundle.removals.map (Coin.name E))
    (hclaims : ResolvesClaims E bundle storage)
    (h : npcList.mapM (resolveCoin E storage) = .ok cpcList) :
    cpcList.map Cpc.coin = bundle.removals := by
  unfold ResolvesClaims at hclaims
  generalize bundle.removals = coins at hnames hclaims
  have hrel := Except.mapM_eq_ok_iff.mp h
  clear h
  induction hrel generalizing coins with
  | nil =>
      rw [List.map_nil, eq_comm, List.map_eq_nil_iff] at hnames
      rw [hnames]
      rfl
  | cons hhead _ ih =>
      cases coins with
      | nil => simp at hnames
      | cons claim rest =>
          rw [List.map_cons, List.map_cons] at hnames
          obtain ⟨hname, hrest⟩ := List.cons.inj hnames
          obtain ⟨hclaim, hclaims⟩ := List.forall_mem_cons.mp hclaims
          obtain ⟨coin, hcoin, hcpc⟩ := Except.bind_eq_ok_iff.mp hhead
          rw [hname] at hcoin
          rw [List.map_cons, ih rest hrest hclaims, ← Except.ok.inj hcpc,
            hclaim coin hcoin]

/-- A reward that the additions and the claims account for is not refused. -/
theorem acceptNewBlock_not_badCoinbaseReward {body : Body}
    {outputs : List Coin} {header : Header}
    {hashPreimage : Bytes32 → Option Bytes}
    (hnpcs : namePuzzleConditionsList E body.solutionProgram = .ok npcList)
    (houtputs : createdOutputs E npcList = .ok outputs)
    (hnames : npcList.map Npc.coinName = bundle.removals.map (Coin.name E))
    (hbody : header.bodyHash.obj E (Body.parse E) hashPreimage =
      .ok (some body))
    (hclaims : ResolvesClaims E bundle
      (overlayStorage E (bodyAdditions body outputs) hashPreimage))
    (chainView : ChainView) (unspentFor : Bytes32 → Option Unspent)
    (timestamp : ℤ) (bad : BadObject) :
    acceptNewBlock E chainView header hashPreimage unspentFor
        (((bodyAdditions body outputs).map Coin.amount).sum -
          (bundle.removals.map Coin.amount).sum) timestamp ≠
      .error (.consensusError .badCoinbaseReward bad) := by
  intro h
  cases (acceptNewBlock_eq_error_iff E).mp h with
  | notExtending _ he => simp at he
  | pointer _ hobj _ =>
      rw [hbody] at hobj
      simp at hobj
  | missing _ hobj _ =>
      rw [hbody] at hobj
      simp at hobj
  | body _ hobj hrefusal he =>
      rw [hbody] at hobj
      obtain rfl := Option.some.inj (Except.ok.inj hobj)
      have hcode := congrArg Exn.code he
      rw [Exn.code_classified] at hcode
      obtain ⟨npcList', outputs', cpcList, hresolved, hfees⟩ :=
        hrefusal.of_badCoinbaseReward hcode
      obtain rfl := Except.ok.inj (hnpcs.symm.trans hresolved.npcList_eq)
      obtain rfl := Except.ok.inj (houtputs.symm.trans hresolved.outputs_eq)
      have hcoins := map_coin_of_resolved hnames hclaims hresolved.resolved
      apply hfees
      rw [blockFees, ← hcoins, List.map_map]
      rfl

end Reward

/-! ## Agreement -/

/-- The validator reads from the body what the farmer took from the bundle. -/
structure Agreement (bundle : SpendBundle) (coinbaseCoin : Coin) (body : Body)
    (npcList : List Npc) (outputs : List Coin) : Prop where
  npcList_eq : namePuzzleConditionsList E body.solutionProgram = .ok npcList
  entries : List.Forall₂ (CoinSolution.ReadAs E) bundle.coinSolutions npcList
  removals : removalsForBody E body =
    .ok (bundle.removals.map (Coin.name E))
  outputs_eq : bundle.additions E = .ok outputs
  additions : additionsForBody E body =
    .ok (coinbaseCoin :: body.feesCoin :: outputs)
  balance : ((coinbaseCoin :: body.feesCoin :: outputs).map Coin.amount).sum -
    (bundle.removals.map Coin.amount).sum = coinbaseCoin.amount
  reward : ∀ (chainView : ChainView) (header : Header)
    (hashPreimage : Bytes32 → Option Bytes)
    (unspentFor : Bytes32 → Option Unspent) (timestamp : ℤ) (bad : BadObject),
    header.bodyHash.obj E (Body.parse E) hashPreimage = .ok (some body) →
    ResolvesClaims E bundle (overlayStorage E
      (coinbaseCoin :: body.feesCoin :: outputs) hashPreimage) →
    acceptNewBlock E chainView header hashPreimage unspentFor
        coinbaseCoin.amount timestamp ≠
      .error (.consensusError .badCoinbaseReward bad)

theorem farmNewBlock_agrees (hE : E.Lawful) (hpairs : E.ReadsPairs)
    (previousHeader : HeaderHash) (previousSignature : EORSignature)
    (blockIndex : ℕ) (proofOfSpace : ProofOfSpace) (bundle : SpendBundle)
    (coinbaseCoin : Coin) (coinbaseSignature : BLSSignature)
    (feesPuzzleHash : Bytes32) (timestamp : ℤ) (header : Header) (body : Body)
    (hfarm : farmNewBlock E previousHeader previousSignature blockIndex
      proofOfSpace bundle coinbaseCoin coinbaseSignature feesPuzzleHash
      timestamp = .ok (header, body))
    (hlists : ∀ claim ∈ bundle.coinSolutions,
      ∃ puzzle argument, claim.solution = .ofList [puzzle, argument]) :
    ∃ npcList outputs,
      Agreement E bundle coinbaseCoin body npcList outputs := by
  have f := farmedFrom_of_farmNewBlock hfarm
  obtain ⟨npcList, hclaims, hnpcs⟩ := f.exists_npcList hE hpairs hlists
  obtain ⟨outputs, houtputs, -⟩ := f.exists_additions
  have hread := npcsOf_readAs hE hclaims
  have hnames : npcList.map Npc.coinName =
      bundle.removals.map (Coin.name E) := by
    rw [npcsOf_coinName E hE hclaims, SpendBundle.removals, List.map_map]
    rfl
  have hcreated := (createdOutputs_of_readAs hread).trans houtputs
  have hadditions : coinbaseCoin :: body.feesCoin :: outputs =
      bodyAdditions body outputs := by
    rw [bodyAdditions, f.coinbaseCoin]
  have hbalance := f.balance houtputs
  refine ⟨npcList, outputs, hnpcs, hread, ?_, houtputs, ?_, ?_, ?_⟩
  · rw [← hnames]
    exact Except.bind_eq_ok hnpcs rfl
  · rw [hadditions]
    apply Except.bind_eq_ok hnpcs
    exact Except.bind_eq_ok hcreated rfl
  · rw [hadditions]
    exact hbalance
  · intro chainView header hashPreimage unspentFor timestamp bad hbody hresolves
    rw [hadditions] at hresolves
    rw [← hbalance]
    exact acceptNewBlock_not_badCoinbaseReward hnpcs hcreated hnames hbody
      hresolves chainView unspentFor timestamp bad

namespace Reference

theorem environment_readsPairs : environment.ReadsPairs :=
  ⟨fun _ _ => rfl, rfl⟩

def payout (puzzleHash : UInt8) (amount : ℤ) : SExp :=
  createCoin (SizedBytes.fill 32 puzzleHash) (BigEndian.ofInt amount)

/-- The reward is paid out in two coins and the fees of the same block in
one. -/
def claimingBundle : SpendBundle :=
  let first := [payout 1 400, payout 2 300]
  let second := [payout 5 250]
  let fees : Coin := ⟨indexHash 1, puzzleHash second, 600⟩
  ⟨[⟨coinbaseCoin first, .ofList [puzzle first, .null]⟩,
      ⟨fees, .ofList [puzzle second, .null]⟩], ⟨zero96⟩⟩

def claimingBlock : Except Exn (Header × Body) :=
  farmNewBlock environment ledgerGenesisHash EORSignature.zero 2 proofOfSpace
    claimingBundle ⟨indexHash 2, SizedBytes.fill 32 3, blockReward⟩ ⟨zero96⟩
    (SizedBytes.fill 32 4) 7

end Reference

open Reference in
theorem farmNewBlock_agrees_claiming :
    ∃ header body npcList outputs,
      claimingBlock = .ok (header, body) ∧
        Agreement environment claimingBundle
          ⟨indexHash 2, SizedBytes.fill 32 3, blockReward⟩ body npcList
          outputs := by
  have hsome : claimingBlock.toOption.isSome = true := by decide +kernel
  obtain ⟨⟨header, body⟩, hfarm⟩ := Except.toOption_isSome_iff.mp hsome
  obtain ⟨npcList, outputs, h⟩ := farmNewBlock_agrees environment
    environment_lawful environment_readsPairs ledgerGenesisHash
    EORSignature.zero 2 proofOfSpace claimingBundle
    ⟨indexHash 2, SizedBytes.fill 32 3, blockReward⟩ ⟨zero96⟩
    (SizedBytes.fill 32 4) 7 header body hfarm (by
      intro claim hclaim
      rcases List.mem_pair.mp hclaim with rfl | rfl
      · exact ⟨_, _, rfl⟩
      · exact ⟨_, _, rfl⟩)
  exact ⟨header, body, npcList, outputs, hfarm, h⟩

end LedgerSim
