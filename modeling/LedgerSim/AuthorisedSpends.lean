import LedgerSim.DelegatedPuzzle
import LedgerSim.EnforcedConditions
import LedgerSim.MalformedData
import LedgerSim.MinedBlocks
import LedgerSim.ReferenceWallet
import LedgerSim.TreeHash

/-!
# Only the owner spends a coin

The delegating puzzles ask for a signature of what they delegate to.  A block
that removes a coin with such a puzzle is therefore signed for the coin's key,
and creates from it what has been signed.
-/

namespace LedgerSim

open HashChain

variable (E : Environment)

/-- Whatever the solution is, the puzzle asks for a signature of a tree hash
under the key, and its further conditions are what the hashed tree delegates
to. -/
def Guards (puzzle : Program) (publicKey : Bytes)
    (Delegates : SExp → SExp → Prop) : Prop :=
  ∀ args output, E.run puzzle args = .ok output →
    ∃ message delegated, Delegates message delegated ∧
      output = .pair (aggSigCondition (.atom publicKey) (E.treeHash message))
        delegated

/-- The output of a puzzle with some solution. -/
def ReturnsFor (puzzle output : SExp) : Prop :=
  ∃ solution, E.run puzzle solution = .ok output

variable {E}

theorem P2DelegatedPuzzle.guards {tools : PuzzleTools}
    (htools : tools.Lawful E) (publicKey : Bytes) :
    Guards E (puzzleForPk tools publicKey) publicKey (ReturnsFor E) := by
  intro args output hrun
  obtain ⟨delegatedPuzzle, delegatedSolution, rest, delegatedOutput, -,
    hdelegated, houtput⟩ := (puzzleForPk_run_iff htools).mp hrun
  exact ⟨delegatedPuzzle, delegatedOutput, ⟨_, hdelegated⟩, houtput⟩

theorem P2DelegatedConditions.guards {tools : PuzzleTools}
    (htools : tools.Lawful E) (publicKey : Bytes) :
    Guards E (P2DelegatedConditions.puzzleForPk tools publicKey) publicKey
      Eq := by
  intro args output hrun
  obtain ⟨conditions, rest, -, houtput⟩ :=
    (P2DelegatedConditions.puzzleForPk_run_iff htools).mp hrun
  exact ⟨conditions, conditions, rfl, houtput⟩

/-! ## Spends of guarded coins -/

/-- The block reveals this puzzle. -/
def Body.Reveals (E : Environment) (body : Body) (puzzle : Program) : Prop :=
  ∃ entries, E.run body.solutionProgram .null = .ok (.ofList entries) ∧
    ∃ entry ∈ entries, ∃ solution, entrySolution entry = .ok solution ∧
      solution.first = .ok puzzle

variable (E) in
/-- The block is signed for a tree under the key, and from the coin of the name
it creates only what the tree delegates to. -/
structure SignedSpend (publicKey : Bytes) (Delegates : SExp → SExp → Prop)
    (body : Body) (additions : List Coin) (coinName : Bytes32)
    (message delegated : SExp) : Prop where
  delegates : Delegates message delegated
  signed : ∃ pairs, body.aggregatedSignature.validate E pairs = .ok true ∧
    ∃ pair ∈ pairs, pair.publicKey.1 = publicKey ∧
      pair.messageHash = E.treeHash message
  created : ∃ conditions, parseSexpToConditions E delegated = .ok conditions ∧
    ∀ coin ∈ additions, coin.parentCoinInfo = coinName →
      coin ∈ [body.coinbaseCoin, body.feesCoin] ∨
        ∃ condition ∈ conditions,
          condition.opcode = ConditionOpcode.createCoin.value ∧
            createdOutput E coinName condition = .ok coin

theorem SExp.ofList_injective : Function.Injective SExp.ofList := by
  intro items items' h
  induction items generalizing items' with
  | nil =>
      cases items' with
      | nil => rfl
      | cons item' items' => cases h
  | cons item items ih =>
      cases items' with
      | nil => cases h
      | cons item' items' =>
          obtain ⟨hitem, hitems⟩ := SExp.pair.inj h
          rw [hitem, ih hitems]

theorem entryShape_unique {entry : SExp} {coinName coinName' : Bytes32}
    (h : EntryShape E entry coinName) (h' : EntryShape E entry coinName') :
    coinName = coinName' := by
  obtain ⟨left, right, htwo⟩ := h
  obtain ⟨left', right', htwo'⟩ := h'
  have hpairs := Option.some.inj (htwo.symm.trans htwo')
  exact Subtype.ext (PyVal.bytes.inj (Prod.mk.inj hpairs).1)

/-- The spend of an entry runs the puzzle that the entry reveals. -/
theorem exists_revealed {storage : Bytes32 → Option Bytes} {entry : SExp}
    {spend : Spend} (h : blockSpend E storage entry = .ok spend) :
    ∃ solution puzzle argument, EntryShape E entry spend.coinName ∧
      entrySolution entry = .ok solution ∧ solution.first = .ok puzzle ∧
      E.run puzzle argument = .ok spend.output ∧
      parseSexpToConditions E spend.output = .ok spend.conditions ∧
      coinPointerObj E storage spend.coinName = .ok spend.coin := by
  obtain ⟨npc, hnpc, h⟩ := Except.bind_eq_ok_iff.mp h
  obtain ⟨solution, hsolution, h⟩ := Except.bind_eq_ok_iff.mp h
  obtain ⟨output, houtput, h⟩ := Except.bind_eq_ok_iff.mp h
  obtain ⟨conditions, hconditions, h⟩ := Except.bind_eq_ok_iff.mp h
  obtain ⟨coin, hcoin, h⟩ := Except.bind_eq_ok_iff.mp h
  obtain rfl := Except.ok.inj h
  obtain ⟨puzzle, hpuzzle, houtput⟩ := Except.bind_eq_ok_iff.mp houtput
  obtain ⟨rest, -, houtput⟩ := Except.bind_eq_ok_iff.mp houtput
  obtain ⟨argument, -, hrun⟩ := Except.bind_eq_ok_iff.mp houtput
  exact ⟨solution, puzzle, argument, ((npcEntry_eq_ok_iff E).mp hnpc).1,
    hsolution, hpuzzle, hrun, hconditions, hcoin⟩

theorem createdOutput_parent {coinName : Bytes32} {condition : Condition}
    {coin : Coin} (h : createdOutput E coinName condition = .ok coin) :
    coin.parentCoinInfo = coinName := by
  unfold createdOutput at h
  split at h
  next =>
    obtain ⟨amount, -, h⟩ := Except.bind_eq_ok_iff.mp h
    obtain ⟨puzzleHash, -, h⟩ := Except.bind_eq_ok_iff.mp h
    rw [← Except.ok.inj h]
  next => cases h

theorem hashKeyPair_of_bytes {opcode publicKey : Bytes} {messageHash : Bytes32}
    {pair : AggsigPair}
    (h : hashKeyPair ⟨opcode, [.bytes publicKey, .bytes messageHash.1]⟩ =
      .ok pair) :
    pair.publicKey.1 = publicKey ∧ pair.messageHash = messageHash := by
  obtain ⟨key, hkey, h⟩ := Except.bind_eq_ok_iff.mp h
  obtain ⟨hash, hhash, h⟩ := Except.bind_eq_ok_iff.mp h
  rw [← Except.ok.inj h]
  have hbytes := toSizedBytes_ok_iff.mp hkey
  have hhashBytes := toSizedBytes_ok_iff.mp hhash
  exact ⟨(PyVal.bytes.inj hbytes).symm,
    Subtype.ext (PyVal.bytes.inj hhashBytes).symm⟩

section Spends

variable {tipIndex : ℕ} {body : Body} {hashPreimage : Bytes32 → Option Bytes}
  {unspentFor : Bytes32 → Option Unspent} {coinbaseReward timestamp : ℤ}

/-- The entry of a spend, with the puzzle that it reveals. -/
theorem AcceptedBody.exists_entry (a : AcceptedBody E tipIndex body hashPreimage
    unspentFor coinbaseReward timestamp) {spends : List Spend}
    (hspends : blockSpends E body a.additions hashPreimage = .ok spends)
    {spend : Spend} (hmem : spend ∈ spends) :
    ∃ puzzle argument, body.Reveals E puzzle ∧
      coinPointerObj E (overlay (ramStorageOf E a.additions).hashPreimage
        hashPreimage) spend.coinName = .ok spend.coin ∧
      E.run puzzle argument = .ok spend.output ∧
      parseSexpToConditions E spend.output = .ok spend.conditions ∧
      ∀ committed, spend.coin.puzzleHash = E.treeHash committed →
        puzzle = committed ∨ TreeCollision E puzzle committed := by
  obtain ⟨sexp, hrun, hsexp⟩ := Except.bind_eq_ok_iff.mp hspends
  obtain ⟨entries, rfl, hentries⟩ := SExp.forIter_eq_ok_iff.mp hsexp
  obtain ⟨entry, hentry, hspend⟩ :=
    (Except.mem_iff_of_mapM_eq_ok hentries).mp hmem
  obtain ⟨solution, puzzle, argument, hshape, hsolution, hpuzzle, houtput,
    hconditions, hcoin⟩ := exists_revealed hspend
  obtain ⟨entries', hrun', hreveals⟩ := a.revealsCommitted
  have hsame : entries = entries' :=
    SExp.ofList_injective (Except.ok.inj (hrun.symm.trans hrun'))
  rw [← hsame] at hreveals
  obtain ⟨coinName, coin, solution', puzzle', hshape', hcoin', hsolution',
    hpuzzle', hcommitted⟩ := hreveals entry hentry
  obtain rfl := entryShape_unique hshape hshape'
  obtain rfl : spend.coin = coin := Except.ok.inj (hcoin.symm.trans hcoin')
  obtain rfl : solution = solution' :=
    Except.ok.inj (hsolution.symm.trans hsolution')
  obtain rfl : puzzle = puzzle' :=
    Except.ok.inj (hpuzzle.symm.trans hpuzzle')
  exact ⟨puzzle, argument, ⟨entries, hrun, entry, hentry, solution, hsolution,
    hpuzzle⟩, hcoin, houtput, hconditions, hcommitted⟩

/-- The coins that a block creates from a removed one are those that the spend
of it asks for. -/
theorem AcceptedBody.exists_creation (a : AcceptedBody E tipIndex body
    hashPreimage unspentFor coinbaseReward timestamp) {spends : List Spend}
    (hspends : blockSpends E body a.additions hashPreimage = .ok spends)
    {spend : Spend} (hmem : spend ∈ spends) {coin : Coin}
    (hcoin : coin ∈ a.additions) (hparent : coin.parentCoinInfo = spend.coinName) :
    coin ∈ [body.coinbaseCoin, body.feesCoin] ∨
      ∃ condition ∈ spend.withOpcode .createCoin,
        createdOutput E spend.coinName condition = .ok coin := by
  obtain ⟨spends', hspends', hnpcs, -⟩ := a.exists_spends
  obtain rfl : spends = spends' := Except.ok.inj (hspends.symm.trans hspends')
  rcases mem_additions_iff.mp hcoin with hreward | houtput
  · exact .inl hreward
  · have houtputs := (createdOutputs_eq_ok_iff E hnpcs).mp a.outputs_eq
    obtain ⟨created, hcreated, hcoin⟩ :=
      (Except.mem_iff_of_mapM_eq_ok houtputs).mp houtput
    obtain ⟨creator, hcreator, hcreations⟩ := List.mem_flatMap.mp hcreated
    obtain ⟨condition, hcondition, rfl⟩ := List.mem_map.mp hcreations
    have hnames : spends.map Spend.coinName = a.npcList.map Npc.coinName :=
      (hnpcs.imp fun _ _ h => h.1).map_eq_map
    have hnodup : (spends.map Spend.coinName).Nodup :=
      hnames.symm ▸ a.removals_nodup
    have hsame : creator = spend :=
      List.inj_on_of_nodup_map hnodup hcreator hmem
        ((createdOutput_parent hcoin).symm.trans hparent)
    rw [hsame] at hcondition hcoin
    exact .inr ⟨condition, hcondition, hcoin⟩

/-- The pair of a signature condition is among those that the block is signed
for. -/
theorem AcceptedBody.exists_pair (a : AcceptedBody E tipIndex body
    hashPreimage unspentFor coinbaseReward timestamp) {spends : List Spend}
    (hspends : blockSpends E body a.additions hashPreimage = .ok spends)
    {spend : Spend} (hmem : spend ∈ spends) {condition : Condition}
    (hcondition : condition ∈ spend.withOpcode .aggSig) :
    ∃ pair ∈ a.hashKeyPairs, hashKeyPair condition = .ok pair := by
  obtain ⟨spends', hspends', -, hcpcs⟩ := a.exists_spends
  obtain rfl : spends = spends' := Except.ok.inj (hspends.symm.trans hspends')
  have hpairs := ((checkSolutions_eq_ok_iff E hcpcs).mp a.solutions).2
  exact Except.exists_of_mapM_eq_ok hpairs
    (List.mem_flatMap.mpr ⟨spend, hmem, hcondition⟩)

/-- A coin whose puzzle is guarded is removed with a signature for the key. -/
theorem AcceptedBody.signedSpend (hread : ReadsLists E)
    (a : AcceptedBody E tipIndex body hashPreimage unspentFor coinbaseReward
      timestamp) {puzzle : Program} {publicKey : Bytes}
    {Delegates : SExp → SExp → Prop} (hguards : Guards E puzzle publicKey
      Delegates) {spends : List Spend}
    (hspends : blockSpends E body a.additions hashPreimage = .ok spends)
    {spend : Spend} (hmem : spend ∈ spends)
    (hpuzzle : spend.coin.puzzleHash = E.treeHash puzzle) :
    (∃ message delegated, SignedSpend E publicKey Delegates body a.additions
        spend.coinName message delegated) ∨
      ∃ revealed, body.Reveals E revealed ∧ TreeCollision E revealed puzzle := by
  obtain ⟨revealed, argument, hreveals, -, hrun, hparsed, hcommitted⟩ :=
    a.exists_entry hspends hmem
  rcases hcommitted puzzle hpuzzle with rfl | hcollision
  case inr => exact .inr ⟨revealed, hreveals, hcollision⟩
  obtain ⟨message, delegated, hdelegates, houtput⟩ := hguards _ _ hrun
  -- the parsed conditions are the one for the signature and the delegated ones
  rw [houtput] at hparsed
  obtain ⟨first, hfirst, hparsed⟩ := Except.bind_eq_ok_iff.mp hparsed
  obtain ⟨conditions, hconditions, hparsed⟩ := Except.bind_eq_ok_iff.mp hparsed
  rw [parse_aggSigCondition hread] at hfirst
  obtain rfl := Except.ok.inj hfirst
  have hall := Except.ok.inj hparsed
  refine .inl ⟨message, delegated, hdelegates, ?_, conditions, hconditions, ?_⟩
  · obtain ⟨pair, hpair, hkeys⟩ := a.exists_pair hspends hmem
      (List.mem_filter.mpr ⟨hall ▸ List.mem_cons_self, by simp⟩)
    exact ⟨a.hashKeyPairs, a.signature, pair, hpair, hashKeyPair_of_bytes hkeys⟩
  · intro coin hcoin hparent
    rcases a.exists_creation hspends hmem hcoin hparent with
      hreward | ⟨condition, hcondition, hcreated⟩
    · exact .inl hreward
    · obtain ⟨hof, hopcode⟩ := List.mem_filter.mp hcondition
      have hopcode := of_decide_eq_true hopcode
      rw [← hall] at hof
      rcases List.mem_cons.mp hof with rfl | hdelegated
      · cases hopcode
      · exact .inr ⟨condition, hdelegated, hopcode, hcreated⟩

end Spends

/-! ## On the chain -/

variable (E) in
/-- The spend of the coin is signed, or the block shows another tree with the
hash of the puzzle. -/
def SpentBySignature (puzzle : Program) (publicKey : Bytes)
    (Delegates : SExp → SExp → Prop) (body : Body) (coinName : Bytes32) :
    Prop :=
  (∃ additions message delegated, additionsForBody E body = .ok additions ∧
      SignedSpend E publicKey Delegates body additions coinName message
        delegated) ∨
    ∃ revealed, body.Reveals E revealed ∧ TreeCollision E revealed puzzle

namespace LedgerAPI

/-- A guarded coin that a block of the chain removes is spent by signature. -/
theorem coin_spent_by_signature (hE : E.Lawful) (hread : ReadsLists E)
    {puzzle : Program} {publicKey : Bytes} {Delegates : SExp → SExp → Prop}
    (hguards : Guards E puzzle publicKey Delegates) {requests : List Request}
    {header : Header} {body : Body}
    (hblock : (header, body) ∈ blocks E requests) {removals : List Bytes32}
    (hremovals : removalsForBody E body = .ok removals) {coin : Coin}
    (hspent : coin.name E ∈ removals)
    (hfree : CollisionFree E (coin.bytes E :: knownBlobs E requests))
    (hpuzzle : coin.puzzleHash = E.treeHash puzzle) :
    SpentBySignature E puzzle publicKey Delegates body (coin.name E) := by
  obtain ⟨earlier, coinbasePuzzleHash, feesPuzzleHash, later, rfl, f, a, heq,
    hmined⟩ := exists_mined hblock
  obtain ⟨rfl, rfl⟩ := Prod.mk.inj heq
  obtain ⟨spends, hspends, hnpcs, -⟩ := a.exists_spends
  have hcovers := mined_covers f a hmined later
  -- the name resolves to this coin
  obtain rfl : a.removals = removals :=
    Except.ok.inj (a.removalsForBody_eq.symm.trans hremovals)
  obtain ⟨npc, hnpc, hname⟩ := List.mem_map.mp hspent
  obtain ⟨spend, hspend, hspendName, -⟩ := hnpcs.exists_of_mem_right hnpc
  have hcoinName : spend.coinName = coin.name E := hspendName.trans hname
  obtain ⟨-, -, -, hresolved, -⟩ := a.exists_entry hspends hspend
  rw [hcoinName] at hresolved
  have hcoin : spend.coin = coin :=
    (hcovers.claim ⟨coin, .null⟩).resolve hE hfree a.additions_nodup
      List.mem_cons_self hresolved
  rw [← hcoin] at hpuzzle
  rcases a.signedSpend hread hguards hspends hspend hpuzzle with
    ⟨message, delegated, hsigned⟩ | hcollision
  · rw [hcoinName] at hsigned
    exact .inl ⟨a.additions, message, delegated, a.additionsForBody_eq, hsigned⟩
  · exact .inr hcollision

/-- Nobody but the owner of the key decides on a coin of the delegating
puzzles: a block of the chain that removes it is signed, with the key, for the
puzzle or the conditions whose coins it creates. -/
theorem delegated_coin_needs_signature (hE : E.Lawful) {tools : PuzzleTools}
    (htools : tools.Lawful E) (hread : ReadsLists E) {requests : List Request}
    {header : Header} {body : Body}
    (hblock : (header, body) ∈ blocks E requests) {removals : List Bytes32}
    (hremovals : removalsForBody E body = .ok removals) {coin : Coin}
    (hspent : coin.name E ∈ removals)
    (hfree : CollisionFree E (coin.bytes E :: knownBlobs E requests))
    (publicKey : Bytes) :
    (coin.puzzleHash =
        E.treeHash (P2DelegatedPuzzle.puzzleForPk tools publicKey) →
      SpentBySignature E (P2DelegatedPuzzle.puzzleForPk tools publicKey)
        publicKey (ReturnsFor E) body (coin.name E)) ∧
    (coin.puzzleHash =
        E.treeHash (P2DelegatedConditions.puzzleForPk tools publicKey) →
      SpentBySignature E (P2DelegatedConditions.puzzleForPk tools publicKey)
        publicKey Eq body (coin.name E)) := by
  constructor
  · intro hpuzzle
    exact coin_spent_by_signature hE hread
      (P2DelegatedPuzzle.guards htools publicKey) hblock hremovals hspent
      hfree hpuzzle
  · intro hpuzzle
    exact coin_spent_by_signature hE hread
      (P2DelegatedConditions.guards htools publicKey) hblock hremovals hspent
      hfree hpuzzle

open Reference in
theorem delegated_coin_needs_signature_wallet :
    ∃ header body, (header, body) ∈ blocks walletEnvironment walletRequests ∧
      SpentBySignature walletEnvironment
        walletPuzzle exponentKey (ReturnsFor walletEnvironment) body
        ((walletCoin 1).name walletEnvironment) := by
  obtain ⟨hblocks, hknown, hchecks⟩ : (∃ block ∈
        blocks walletEnvironment walletRequests,
        (removalsForBody walletEnvironment block.2).toOption =
          some [(walletCoin 1).name walletEnvironment]) ∧
      (walletCoin 1).bytes walletEnvironment ∈
        knownBlobs walletEnvironment walletRequests ∧
      HashChecks walletEnvironment
        (knownBlobs walletEnvironment walletRequests) 0 := by
    decide +kernel
  obtain ⟨⟨header, body⟩, hblock, hremovals⟩ := hblocks
  refine ⟨header, body, hblock, ?_⟩
  apply (delegated_coin_needs_signature walletEnvironment_lawful
    puzzleTools_lawful_wallet walletEnvironment_readsLists hblock
    (Except.toOption_eq_some_iff.mp hremovals) List.mem_cons_self _
    exponentKey).1 rfl
  exact hchecks.assumptions.collisionFree.mono
    (List.cons_subset.mpr ⟨hknown, List.Subset.refl _⟩)

end LedgerAPI

end LedgerSim
